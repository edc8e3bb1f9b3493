import Bmv2.Packet.Fields

/-! Headers and the bytes of a packet (`headers.h`, `headers.cpp`): the fields of a header are
extracted and deparsed one after the other, each from the bit at which the last one ended. -/
namespace Bmv2
open ByteBits

/-- `FInfo`: a variable-length field is declared with a width of zero. -/
structure FInfo where
  bitwidth : ℕ
  isSigned : Bool := false

structure HeaderType where
  fieldsInfo : List FInfo
  vl : Option (ℕ × Expression) := none
  typeId : ℕ := 0

namespace Header

/-- The constructor; it asserts that a signed field has more than one bit and that the header
fills whole bytes. -/
def ofType (headerType : HeaderType) (arith : ℕ → Bool) (metadata : Bool) : Option Header :=
  let nbits := (headerType.fieldsInfo.map FInfo.bitwidth).sum
  if nbits % 8 = 0 ∧ ∀ info ∈ headerType.fieldsInfo, info.isSigned → 1 < info.bitwidth then
    some {
      fields := headerType.fieldsInfo.mapIdx fun i info =>
        { nbits := info.bitwidth, isSigned := info.isSigned, arith := arith i }
      metadata
      nbytesPacket := nbits / 8
      vl := headerType.vl
      headerTypeId := headerType.typeId }
  else none

/-- The loop of `extract`, on the rest of the data from the byte in which the next field
begins. -/
def extractFields (data : List Byte) (hdrOffset : ℕ) : List Field → Option (List Field)
  | [] => some []
  | f :: fields => do
    let f ← f.extract data hdrOffset
    let hdrOffset := hdrOffset + f.nbits
    let fields ← extractFields (data.drop (hdrOffset / 8)) (hdrOffset % 8) fields
    some (f :: fields)

/-- The loop of `extract_VL`. The length of the variable field is computed from the header as
it is by then, with the fields before it extracted. -/
def extractFieldsVL (computedNbits : List Field → Option ℤ) (vlOffset : ℕ) (done : List Field)
    (data : List Byte) (hdrOffset : ℕ) : List Field → Option (List Field)
  | [] => some done
  | f :: fields => do
    let f ←
      if vlOffset = done.length then do
        let nbits ← computedNbits (done ++ f :: fields)
        f.extractVL data hdrOffset nbits
      else f.extract data hdrOffset
    let hdrOffset := hdrOffset + f.nbits
    extractFieldsVL computedNbits vlOffset (done ++ [f]) (data.drop (hdrOffset / 8))
      (hdrOffset % 8) fields

/-- `extract`. `evalVL` evaluates an expression with the header as given. -/
def extract (evalVL : Header → Expression → Option ℤ) (h : Header) (data : List Byte) :
    Option Header :=
  match h.vl with
  | none => do
    let fields ← extractFields data 0 h.fields
    some { h with fields, valid := true }
  | some (vlOffset, expr) => do
    let fields ← extractFieldsVL (fun fields => evalVL { h with fields } expr) vlOffset [] data 0
      h.fields
    let nbits := (fields.map Field.nbits).sum
    if nbits % 8 = 0 then some { h with fields, nbytesPacket := nbits / 8, valid := true } else none

/-- The loop of `deparse`. -/
def deparseFields (data : List Byte) (hdrOffset : ℕ) : List Field → Option (List Byte)
  | [] => some data
  | f :: fields => do
    let data ← f.deparse data hdrOffset
    let hdrOffset := hdrOffset + f.nbits
    let rest ← deparseFields (data.drop (hdrOffset / 8)) (hdrOffset % 8) fields
    some (data.take (hdrOffset / 8) ++ rest)

def deparse (h : Header) (data : List Byte) : Option (List Byte) := deparseFields data 0 h.fields

/-- What the fields write, where that is defined. -/
def putFields (data : List Byte) (hdrOffset : ℕ) : List Field → List Byte
  | [] => data
  | f :: fields =>
    let data := f.put data hdrOffset
    let hdrOffset := hdrOffset + f.nbits
    data.take (hdrOffset / 8) ++ putFields (data.drop (hdrOffset / 8)) (hdrOffset % 8) fields

def put (h : Header) (data : List Byte) : List Byte := putFields data 0 h.fields

/-- The widths of the fields. -/
def widths (h : Header) : List ℕ := h.fields.map Field.nbits

/-- An instance of a header type that is made of fields of fixed width. -/
structure Fixed (h : Header) : Prop where
  fields : ∀ f ∈ h.fields, f.Fixed
  not_vl : h.vl = none
  size : h.widths.sum = 8 * h.nbytesPacket

/-- The constructor makes such instances of the types with fields of fixed width. -/
theorem fixed_ofType {headerType : HeaderType} {arith : ℕ → Bool} {metadata : Bool} {h : Header}
    (hpos : ∀ info ∈ headerType.fieldsInfo, 0 < info.bitwidth) (hvl : headerType.vl = none)
    (hmake : ofType headerType arith metadata = some h) :
    h.Fixed ∧ h.widths = headerType.fieldsInfo.map FInfo.bitwidth := by
  unfold ofType at hmake
  dsimp only at hmake
  split_ifs at hmake with hok
  obtain rfl := (Option.some.inj hmake).symm
  have hwidths : (headerType.fieldsInfo.mapIdx fun i info =>
      ({ nbits := info.bitwidth, isSigned := info.isSigned, arith := arith i } : Field)).map
      Field.nbits = headerType.fieldsInfo.map FInfo.bitwidth := by
    apply List.ext_getElem?
    intro i
    rw [List.getElem?_map, List.getElem?_mapIdx, Option.map_map, List.getElem?_map]
    rfl
  refine ⟨⟨?_, hvl, ?_⟩, hwidths⟩
  · intro f hf
    obtain ⟨i, hi, rfl⟩ := List.mem_mapIdx.mp hf
    exact ⟨hpos _ (List.getElem_mem hi), rfl, by simp⟩
  · rw [widths, hwidths]
    exact (Nat.mul_div_cancel' (Nat.dvd_of_mod_eq_zero hok.1)).symm

/-- Where the bits of a header stand: no field that assigns its first byte has a bit set before
it in that byte. The first of the fields begins at bit `p` of the data. -/
def ClearBefore (data : List Byte) (p : ℕ) : List ℕ → Prop
  | [] => True
  | w :: widths =>
    (Field.Overwrites w (p % 8) → ∀ j < p, 8 * (p / 8) ≤ j → bitAt data j = false) ∧
      ClearBefore data (p + w) widths

instance decidableClearBefore (data : List Byte) :
    ∀ (p : ℕ) (widths : List ℕ), Decidable (ClearBefore data p widths)
  | _, [] => isTrue trivial
  | p, w :: widths =>
    have := decidableClearBefore data (p + w) widths
    inferInstanceAs (Decidable (_ ∧ _))

theorem clearBefore_append {data : List Byte} {p : ℕ} {ws ws' : List ℕ} :
    ClearBefore data p (ws ++ ws') ↔
      ClearBefore data p ws ∧ ClearBefore data (p + ws.sum) ws' := by
  induction ws generalizing p with
  | nil => simp [ClearBefore]
  | cons w ws ih => simp [ClearBefore, ih, and_assoc, Nat.add_assoc]

theorem clearBefore_drop {data : List Byte} {p s : ℕ} {ws : List ℕ} :
    ClearBefore (data.drop s) p ws ↔ ClearBefore data (8 * s + p) ws := by
  induction ws generalizing p with
  | nil => simp [ClearBefore]
  | cons w ws ih =>
    have hmod : (8 * s + p) % 8 = p % 8 := by omega
    rw [ClearBefore, ClearBefore, ih, hmod, Nat.add_assoc]
    apply and_congr_left'
    apply imp_congr_right
    intro _
    constructor
    · intro hzero j hj hfrom
      have hbit := hzero (j - 8 * s) (by omega) (by omega)
      rwa [bitAt_drop, show 8 * s + (j - 8 * s) = j by omega] at hbit
    · intro hzero j hj hfrom
      rw [bitAt_drop]
      exact hzero _ (by omega) (by omega)

/-- Extraction succeeds on enough data and keeps the widths. -/
theorem extractFields_spec {fields : List Field} (hfix : ∀ f ∈ fields, f.Fixed)
    (data : List Byte) {o : ℕ} (ho : o < 8)
    (hlen : o + (fields.map Field.nbits).sum ≤ 8 * data.length) :
    ∃ fields', extractFields data o fields = some fields' ∧ (∀ f ∈ fields', f.Fixed) ∧
      fields'.map Field.nbits = fields.map Field.nbits := by
  induction fields generalizing data o with
  | nil => exact ⟨[], rfl, by simp, rfl⟩
  | cons f fields ih =>
    rw [List.map_cons, List.sum_cons] at hlen
    obtain ⟨f', hf', hfix', hnbits, -⟩ := Field.extract_spec (hfix f List.mem_cons_self)
      (show o + f.nbits ≤ 8 * data.length by omega)
    obtain ⟨fields', hfields', hall, hwidths⟩ := ih (fun g hg => hfix g (List.mem_cons_of_mem f hg))
      (data.drop ((o + f.nbits) / 8)) (o := (o + f.nbits) % 8) (Nat.mod_lt _ (by omega))
      (by rw [List.length_drop]; omega)
    refine ⟨f' :: fields', ?_, List.forall_mem_cons.mpr ⟨hfix', hall⟩, ?_⟩
    · simp only [extractFields, hf', Option.bind_eq_bind, Option.bind_some, hnbits, hfields']
    · rw [List.map_cons, List.map_cons, hnbits, hwidths]

/-- The fields of no bits begin at whole bytes, of those whose first begins at bit `p`. -/
def EmptyAligned (p : ℕ) : List ℕ → Prop
  | [] => True
  | w :: widths => (w = 0 → p % 8 = 0) ∧ EmptyAligned (p + w) widths

instance decidableEmptyAligned : ∀ (p : ℕ) (widths : List ℕ), Decidable (EmptyAligned p widths)
  | _, [] => isTrue trivial
  | p, w :: widths =>
    have := decidableEmptyAligned (p + w) widths
    inferInstanceAs (Decidable (_ ∧ _))

theorem emptyAligned_append {p : ℕ} {ws ws' : List ℕ} : EmptyAligned p (ws ++ ws') ↔
    EmptyAligned p ws ∧ EmptyAligned (p + ws.sum) ws' := by
  induction ws generalizing p with
  | nil => simp [EmptyAligned]
  | cons w ws ih => simp [EmptyAligned, ih, and_assoc, Nat.add_assoc]

theorem emptyAligned_mod {p : ℕ} {ws : List ℕ} :
    EmptyAligned (p % 8) ws ↔ EmptyAligned p ws := by
  induction ws generalizing p with
  | nil => exact Iff.rfl
  | cons w ws ih =>
    rw [EmptyAligned, EmptyAligned, Nat.mod_mod, ← ih (p := p % 8 + w), Nat.mod_add_mod, ih]

theorem emptyAligned_of_pos {p : ℕ} {ws : List ℕ} (h : ∀ w ∈ ws, 0 < w) : EmptyAligned p ws := by
  induction ws generalizing p with
  | nil => trivial
  | cons w ws ih =>
    obtain ⟨hpos, hrest⟩ := List.forall_mem_cons.mp h
    exact ⟨fun hzero => absurd hzero hpos.ne', ih hrest⟩

theorem length_putFields {fields : List Field} {data : List Byte} {o : ℕ} :
    (putFields data o fields).length = data.length := by
  induction fields generalizing data o with
  | nil => rfl
  | cons f fields ih =>
    rw [putFields, List.length_append, ih, List.length_take, List.length_drop,
      Field.length_put]
    omega

theorem eq_of_deparseFields {fields : List Field} {data out : List Byte} {o : ℕ}
    (h : deparseFields data o fields = some out) : out = putFields data o fields := by
  induction fields generalizing data o out with
  | nil => exact (Option.some.inj h).symm
  | cons f fields ih =>
    obtain ⟨data', hfirst, h⟩ := Option.bind_eq_some_iff.mp h
    obtain ⟨rest, hrest, h⟩ := Option.bind_eq_some_iff.mp h
    obtain ⟨-, hput⟩ := Option.ite_none_right_eq_some.mp hfirst
    obtain rfl := Option.some.inj hput
    obtain rfl := Option.some.inj h
    rw [putFields, ← ih hrest]

/-- With the bytes that their widths need, the fields stay within room for their bits, unless one
of no bits begins within a byte. -/
theorem deparseFields_eq {fields : List Field} (hw : ∀ f ∈ fields, f.Whole) {data : List Byte}
    {o : ℕ} (ho : o < 8) (hroom : o + (fields.map Field.nbits).sum ≤ 8 * data.length) :
    deparseFields data o fields =
      if EmptyAligned o (fields.map Field.nbits) then some (putFields data o fields) else none := by
  induction fields generalizing data o with
  | nil => rfl
  | cons f fields ih =>
    obtain ⟨hf, hrest⟩ := List.forall_mem_cons.mp hw
    rw [List.map_cons, List.sum_cons] at hroom
    have hnext := ih hrest (Nat.mod_lt (o + f.nbits) (by decide))
      (show (o + f.nbits) % 8 + (fields.map Field.nbits).sum ≤
          8 * ((f.put data o).drop ((o + f.nbits) / 8)).length by
        rw [List.length_drop, Field.length_put]
        omega)
    have hmod := Nat.mod_eq_of_lt ho
    rw [deparseFields, hf.deparse_eq ho (by omega)]
    by_cases hempty : f.nbits = 0 → o = 0
    · rw [if_pos hempty, Option.bind_eq_bind, Option.bind_some]
      dsimp only
      rw [hnext]
      by_cases haligned : EmptyAligned (o + f.nbits) (fields.map Field.nbits)
      · rw [if_pos (emptyAligned_mod.mpr haligned), if_pos ⟨by rwa [hmod], haligned⟩]
        rfl
      · rw [if_neg (mt emptyAligned_mod.mp haligned), if_neg fun h => haligned h.2]
        rfl
    · rw [if_neg hempty, if_neg fun h => hempty (hmod ▸ h.1)]
      rfl

/-- The bytes behind the one in which the last field ends stay. -/
theorem bitAt_putFields_of_le {fields : List Field} (hfix : ∀ f ∈ fields, f.Fixed)
    {data : List Byte} {o : ℕ} (ho : o < 8) {j : ℕ}
    (hlen : (o + (fields.map Field.nbits).sum + 7) / 8 ≤ data.length)
    (hj : 8 * ((o + (fields.map Field.nbits).sum + 7) / 8) ≤ j) :
    bitAt (putFields data o fields) j = bitAt data j := by
  induction fields generalizing data o j with
  | nil => rfl
  | cons f fields ih =>
    rw [List.map_cons, List.sum_cons] at hlen hj
    have htake : ((f.put data o).take ((o + f.nbits) / 8)).length = (o + f.nbits) / 8 := by
      rw [List.length_take, Field.length_put]
      omega
    rw [putFields, bitAt_append_right (by omega), htake,
      ih (fun g hg => hfix g (List.mem_cons_of_mem f hg))
      (Nat.mod_lt _ (by omega)) (by rw [List.length_drop, Field.length_put]; omega)
      (by omega), bitAt_drop, show 8 * ((o + f.nbits) / 8) + (j - 8 * ((o + f.nbits) / 8)) = j by
        omega, bitAt_eq, Field.byteAt_put_of_le (hfix f List.mem_cons_self) ho (by omega),
      ← bitAt_eq]

/-- The bits that deparsing gives back, for the next field, and in the bytes before it. -/
theorem bitAt_put_step {f f' : Field} (hf : f.Fixed) {src data : List Byte} {o : ℕ} (ho : o < 8)
    (hext : f.extract src o = some f') (hlen : (o + f.nbits + 7) / 8 ≤ data.length)
    (hbefore : ∀ j < o, bitAt data j = bitAt src j) :
    (∀ j < (o + f.nbits) % 8,
      bitAt ((f'.put data o).drop ((o + f.nbits) / 8)) j =
        bitAt (src.drop ((o + f.nbits) / 8)) j) ∧
    ((∀ j < 8 * ((o + f.nbits) / 8), bitAt (f'.put data o) j = bitAt src j) ↔
      (Field.Overwrites f.nbits o → ∀ j < o, bitAt src j = false)) := by
  have hbit := fun j => Field.bitAt_put_extract hf ho hext hlen hbefore (j := j)
  constructor
  · intro j hj
    have hkept : ¬ (8 * ((o + f.nbits) / 8) + j < o ∧ Field.Overwrites f.nbits o) := by
      rintro ⟨hlt, -, hmany⟩
      omega
    rw [bitAt_drop, bitAt_drop, hbit _ (by omega), decide_eq_false hkept, Bool.not_false,
      Bool.and_true]
  · constructor
    · intro hsame hover j hj
      have hmany := hover.2
      have hlost := hsame j (by omega)
      rw [hbit j (by omega), decide_eq_true ⟨hj, hover⟩, Bool.not_true, Bool.and_false] at hlost
      exact hlost.symm
    · intro hzero j hj
      rw [hbit j (by omega)]
      by_cases hover : j < o ∧ Field.Overwrites f.nbits o
      · rw [hzero hover.2 j hover.1, Bool.false_and]
      · rw [decide_eq_false hover, Bool.not_false, Bool.and_true]

/-- Extraction followed by deparsing gives the bits of the fields back exactly when no field
that assigns its first byte has a bit set before it. The induction is on the fields; what has
been written of the byte in which the next one begins is already right. -/
theorem putFields_extractFields {fields fields' : List Field} (hfix : ∀ f ∈ fields, f.Fixed)
    {src data : List Byte} {o : ℕ} (ho : o < 8) (hext : extractFields src o fields = some fields')
    (hlen : (o + (fields.map Field.nbits).sum + 7) / 8 ≤ data.length)
    (hbefore : ∀ j < o, bitAt data j = bitAt src j) :
    (∀ j < o + (fields.map Field.nbits).sum,
      bitAt (putFields data o fields') j = bitAt src j) ↔
      ClearBefore src o (fields.map Field.nbits) := by
  induction fields generalizing src data o fields' with
  | nil =>
    obtain rfl := Option.some.inj hext
    simpa [putFields, ClearBefore] using hbefore
  | cons f fields ih =>
    obtain ⟨f', hf', hext⟩ := Option.bind_eq_some_iff.mp hext
    obtain ⟨fields'', hfields, hext⟩ := Option.bind_eq_some_iff.mp hext
    obtain rfl := Option.some.inj hext
    have hnbits : f'.nbits = f.nbits := Field.nbits_of_extract hf'
    rw [List.map_cons, List.sum_cons] at hlen ⊢
    rw [hnbits] at hfields
    obtain ⟨hnext, hfirst⟩ := bitAt_put_step (hfix f List.mem_cons_self) ho hf' (by omega)
      hbefore
    have hrest := ih (fun g hg => hfix g (List.mem_cons_of_mem f hg)) (Nat.mod_lt _ (by omega))
      hfields (by rw [List.length_drop, Field.length_put]; omega) hnext
    have htake : ((f'.put data o).take ((o + f.nbits) / 8)).length = (o + f.nbits) / 8 := by
      rw [List.length_take, Field.length_put]
      omega
    rw [clearBefore_drop, show 8 * ((o + f.nbits) / 8) + (o + f.nbits) % 8 = o + f.nbits by omega]
      at hrest
    rw [ClearBefore, Nat.mod_eq_of_lt ho, ← hrest, putFields, hnbits]
    constructor
    · intro hsame
      refine ⟨fun hover j hj _ => hfirst.mp ?_ hover j hj, fun j hj => ?_⟩
      · intro j hj
        have hbit := hsame j (by omega)
        rwa [bitAt_append_left (by omega), bitAt_take hj] at hbit
      · have hbit := hsame (8 * ((o + f.nbits) / 8) + j) (by omega)
        rwa [bitAt_append_right (by omega), htake, Nat.add_sub_cancel_left, ← bitAt_drop] at hbit
    · rintro ⟨hzero, hlater⟩ j hj
      by_cases hin : j < 8 * ((o + f.nbits) / 8)
      · rw [bitAt_append_left (by omega), bitAt_take hin]
        exact hfirst.mpr (fun hover j hj => hzero hover j hj (by omega)) j hin
      · rw [bitAt_append_right (by omega), htake, hlater _ (by omega), bitAt_drop]
        congr 1
        omega

/-- Extraction reads no more than the data. -/
theorem size_le_of_extractFields {fields fields' : List Field} {data : List Byte} {o : ℕ}
    (h : extractFields data o fields = some fields') :
    fields = [] ∨ o + (fields.map Field.nbits).sum ≤ 8 * data.length := by
  induction fields generalizing data o fields' with
  | nil => exact .inl rfl
  | cons f fields ih =>
    obtain ⟨f', hf', h⟩ := Option.bind_eq_some_iff.mp h
    obtain ⟨fields'', hfields, -⟩ := Option.bind_eq_some_iff.mp h
    have hfirst := Field.size_le_of_extract hf'
    rw [Field.nbits_of_extract hf'] at hfields
    rw [List.map_cons, List.sum_cons]
    rcases ih hfields with rfl | hrest
    · exact .inr (by simpa using hfirst)
    · rw [List.length_drop] at hrest
      omega

variable {evalVL : Header → Expression → Option ℤ} {h h' : Header} {data : List Byte}

theorem extract_of_not_vl (hvl : h.vl = none) : h.extract evalVL data =
    (extractFields data 0 h.fields).map fun fields => { h with fields, valid := true } := by
  rw [extract, hvl]
  cases extractFields data 0 h.fields <;> rfl

/-- A header of fixed width is extracted from enough data, and from no less. -/
theorem Fixed.extract_spec (hfix : h.Fixed) (hlen : h.nbytesPacket ≤ data.length) :
    ∃ h', h.extract evalVL data = some h' := by
  have hsize := hfix.size
  rw [widths] at hsize
  obtain ⟨fields', hfields, -⟩ := extractFields_spec hfix.fields data
    (show 0 < 8 by decide) (by omega)
  rw [extract_of_not_vl hfix.not_vl, hfields]
  exact ⟨_, rfl⟩

/-- What the extraction of a header of fixed width leaves behind. -/
theorem Fixed.of_extract (hfix : h.Fixed) (hext : h.extract evalVL data = some h') :
    extractFields data 0 h.fields = some h'.fields ∧ h'.valid = true ∧
      h'.nbytesPacket = h.nbytesPacket ∧ h'.widths = h.widths ∧
      h.nbytesPacket ≤ data.length := by
  rw [extract_of_not_vl hfix.not_vl] at hext
  obtain ⟨fields', hfields, rfl⟩ := Option.map_eq_some_iff.mp hext
  have hsize := hfix.size
  have hle : h.nbytesPacket ≤ data.length := by
    rcases size_le_of_extractFields hfields with hnil | hle
    · rw [widths, hnil] at hsize
      have : h.nbytesPacket = 0 := by simpa using hsize.symm
      omega
    · rw [widths] at hsize
      omega
  refine ⟨hfields, rfl, rfl, ?_, hle⟩
  rw [widths] at hsize ⊢
  obtain ⟨fields'', hfields', -, hwidths⟩ := extractFields_spec hfix.fields data
    (show 0 < 8 by decide) (by omega)
  obtain rfl := Option.some.inj (hfields.symm.trans hfields')
  exact hwidths

theorem eq_of_deparse {out : List Byte} (hout : h.deparse data = some out) : out = h.put data :=
  eq_of_deparseFields hout

@[simp] theorem length_put : (h.put data).length = data.length := length_putFields

theorem length_deparse {out : List Byte} (hout : h.deparse data = some out) :
    out.length = data.length := by
  rw [eq_of_deparse hout, length_put]

/-- Deparsing an extracted header replaces its bytes in the destination, and by the original
bytes exactly when no field that assigns its first byte has a bit set before it. -/
theorem Fixed.deparse_extract (hfix : h.Fixed) (hext : h.extract evalVL data = some h')
    (dst : List Byte) (hdst : h.nbytesPacket ≤ dst.length) :
    h'.deparse dst = some (h'.put dst) ∧
      (h'.put dst).drop h.nbytesPacket = dst.drop h.nbytesPacket ∧
      ((h'.put dst).take h.nbytesPacket = data.take h.nbytesPacket ↔
        ClearBefore data 0 h.widths) := by
  obtain ⟨hfields, -, -, hwidths, hlen⟩ := hfix.of_extract hext
  have hsize := hfix.size
  have hfix' : ∀ f ∈ h'.fields, f.Fixed := by
    obtain ⟨fields', hfields', hall, -⟩ := extractFields_spec hfix.fields data
      (show 0 < 8 by decide) (by rw [widths] at hsize; omega)
    obtain rfl := Option.some.inj (hfields.symm.trans hfields')
    exact hall
  have hlast : (0 + (h'.fields.map Field.nbits).sum + 7) / 8 = h.nbytesPacket := by
    have hsum : (h'.fields.map Field.nbits).sum = 8 * h.nbytesPacket := by
      rw [← hsize, ← hwidths, widths]
    omega
  have hlength : (h'.put dst).length = dst.length := length_put
  refine ⟨?_, ?_, ?_⟩
  · have hpos : ∀ w ∈ h'.fields.map Field.nbits, 0 < w := by
      intro w hw
      obtain ⟨f, hf, rfl⟩ := List.mem_map.mp hw
      exact (hfix' f hf).pos
    rw [deparse, deparseFields_eq (fun f hf => (hfix' f hf).whole) (by decide) (by omega),
      if_pos (emptyAligned_of_pos hpos), put]
  · rw [eq_iff_bitAt (by simp [hlength])]
    intro j _
    rw [bitAt_drop, bitAt_drop, put,
      bitAt_putFields_of_le hfix' (by decide) (by omega) (by omega)]
  · rw [eq_iff_bitAt (by simp [hlength, hdst, hlen])]
    have hroom : (0 + (h.fields.map Field.nbits).sum + 7) / 8 ≤ dst.length := by
      rw [widths] at hsize
      omega
    have hbits := putFields_extractFields hfix.fields (show 0 < 8 by decide) hfields hroom
      (by simp)
    rw [widths] at hsize
    rw [widths, ← hbits, hsize, Nat.zero_add]
    constructor
    · intro hsame j hj
      have hbit := hsame j (by simp [hlength]; omega)
      rwa [bitAt_take (by omega), bitAt_take (by omega)] at hbit
    · intro hsame j hj
      rw [List.length_take] at hj
      rw [bitAt_take (by omega), bitAt_take (by omega)]
      exact hsame j (by omega)

end Header

end Bmv2
