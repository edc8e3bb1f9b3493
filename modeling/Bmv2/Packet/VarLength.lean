import Bmv2.Packet.Slice

/-! Headers with a variable-length field: what extraction makes of that field, and of the fields
around it. -/
namespace Bmv2
open ByteBits

namespace Field

variable {f : Field} {data : List Byte} {o : ℕ}

/-- A variable-length field that is given a width. -/
def withWidth (f : Field) (n : ℕ) : Field :=
  { f with
    nbits := n
    nbytes := (n + 7) / 8
    mask := 2 ^ n - 1
    bytes := f.bytes.take ((n + 7) / 8) ++ List.replicate ((n + 7) / 8 - f.bytes.length) 0 }

theorem length_withWidth (f : Field) (n : ℕ) : (f.withWidth n).bytes.length = (n + 7) / 8 := by
  unfold withWidth
  rw [List.length_append, List.length_take, List.length_replicate]
  omega

/-- Where extraction with a computed width is defined, it is that of a field of that width. -/
theorem extractVL_eq (f : Field) {n : ℕ} (hn : n < 31) (hzero : n = 0 → o = 0) :
    f.extractVL data o n = (f.withWidth n).extract data o := by
  unfold extractVL
  rw [if_pos ⟨⟨by omega, by omega⟩, fun h => hzero (by omega)⟩]
  rfl

theorem lt_of_extractVL {n : ℕ} {f' : Field} (h : f.extractVL data o n = some f') :
    n < 31 ∧ (n = 0 → o = 0) := by
  unfold extractVL at h
  split_ifs at h with hok
  exact ⟨by omega, fun hzero => hok.2 (by omega)⟩

theorem bytes_of_extract {f' : Field} (h : f.extract data o = some f') :
    f'.bytes = genericExtract data o f.nbits f.bytes := by
  unfold Field.extract at h
  split_ifs at h
  obtain rfl := Option.some.inj h
  split_ifs <;> rfl

/-- A field of a computed width gets the number in its bits exactly when nothing goes along. -/
theorem genericExtract_withWidth_iff (f : Field) {n : ℕ} (ho : o < 8) (hzero : n = 0 → o = 0)
    (hlen : o + n ≤ 8 * data.length) :
    genericExtract data o n (f.withWidth n).bytes = ofValue ((n + 7) / 8) (slice data o n) ↔
      NoneBefore data o n := by
  have hbytes := length_withWidth f n
  rcases Nat.eq_zero_or_pos n with rfl | hpos
  · obtain rfl := hzero rfl
    refine iff_of_true ?_ (fun _ hover => absurd hover (by decide))
    exact List.eq_nil_of_length_eq_zero (by rw [length_genericExtract, hbytes])
  · exact genericExtract_eq_iff hbytes hpos ho hlen

/-- What an unsigned field of a computed width is, when nothing goes along with it. -/
theorem extract_withWidth (hs : f.isSigned = false) {n : ℕ} (ho : o < 8)
    (hzero : n = 0 → o = 0) (hlen : o + n ≤ 8 * data.length) (hnone : NoneBefore data o n) :
    ∃ f', (f.withWidth n).extract data o = some f' ∧ f'.isSigned = false ∧ f'.nbits = n ∧
      f'.nbytes = (n + 7) / 8 ∧ f'.mask = 2 ^ n - 1 ∧
      f'.bytes = ofValue ((n + 7) / 8) (slice data o n) ∧
      (f'.arith → f'.value = slice data o n) :=
  ⟨_, extract_unsigned (f := f.withWidth n) hs hlen (slice_lt_bytes _ _ _)
    ((genericExtract_withWidth_iff f ho hzero hlen).mpr hnone), hs, rfl, rfl, rfl, rfl,
    fun harith => if_pos harith⟩

end Field

namespace Header

variable {computed : List Field → Option ℤ} {data : List Byte} {o : ℕ} {pre post done : List Field}

theorem widths_of_extractFields {fields fields' : List Field}
    (h : extractFields data o fields = some fields') :
    fields'.map Field.nbits = fields.map Field.nbits := by
  induction fields generalizing data o fields' with
  | nil =>
    obtain rfl := Option.some.inj h
    rfl
  | cons f fields ih =>
    obtain ⟨f', hf', h⟩ := Option.bind_eq_some_iff.mp h
    obtain ⟨rest, hrest, h⟩ := Option.bind_eq_some_iff.mp h
    obtain rfl := Option.some.inj h
    rw [List.map_cons, List.map_cons, Field.nbits_of_extract hf', ih hrest]

theorem length_of_extractFields {fields fields' : List Field}
    (h : extractFields data o fields = some fields') : fields'.length = fields.length := by
  simpa using congrArg List.length (widths_of_extractFields h)

/-- Away from the variable field all fields are extracted alike. -/
theorem extractFieldsVL_of_ne {vlOffset : ℕ} (fields : List Field)
    (h : vlOffset < done.length ∨ done.length + fields.length ≤ vlOffset) :
    extractFieldsVL computed vlOffset done data o fields =
      (extractFields data o fields).map (done ++ ·) := by
  induction fields generalizing done data o with
  | nil => simp [extractFieldsVL, extractFields]
  | cons f fields ih =>
    rw [List.length_cons] at h
    rw [extractFieldsVL, if_neg (by omega), extractFields]
    cases f.extract data o with
    | none => rfl
    | some f' =>
      simp only [Option.bind_eq_bind, Option.bind_some]
      rw [ih (by rw [List.length_append, List.length_singleton]; omega)]
      cases extractFields (data.drop ((o + f'.nbits) / 8)) ((o + f'.nbits) % 8) fields with
      | none => rfl
      | some fields' => simp

/-- The fields before the variable one are extracted first. -/
theorem extractFieldsVL_append {vlOffset : ℕ} (fields : List Field)
    (h : done.length + pre.length ≤ vlOffset) (ho : o < 8) :
    extractFieldsVL computed vlOffset done data o (pre ++ fields) =
      (extractFields data o pre).bind fun pre' =>
        extractFieldsVL computed vlOffset (done ++ pre')
          (data.drop ((o + (pre.map Field.nbits).sum) / 8)) ((o + (pre.map Field.nbits).sum) % 8)
          fields := by
  induction pre generalizing done data o with
  | nil => simp [extractFields, Nat.mod_eq_of_lt ho, Nat.div_eq_of_lt ho]
  | cons f pre ih =>
    rw [List.length_cons] at h
    rw [List.cons_append, extractFieldsVL, extractFields, if_neg (by omega)]
    cases hext : f.extract data o with
    | none => rfl
    | some f' =>
      have hnbits := Field.nbits_of_extract hext
      have hdrop : (o + f.nbits) / 8 + ((o + f.nbits) % 8 + (pre.map Field.nbits).sum) / 8 =
          (o + (f.nbits + (pre.map Field.nbits).sum)) / 8 := by omega
      have hmod : ((o + f.nbits) % 8 + (pre.map Field.nbits).sum) % 8 =
          (o + (f.nbits + (pre.map Field.nbits).sum)) % 8 := by omega
      simp only [Option.bind_eq_bind, Option.bind_some]
      rw [ih (by rw [List.length_append, List.length_singleton]; omega)
        (Nat.mod_lt _ (by decide)), hnbits, List.map_cons, List.sum_cons, List.drop_drop, hdrop,
        hmod]
      cases extractFields (data.drop ((o + f.nbits) / 8)) ((o + f.nbits) % 8) pre with
      | none => rfl
      | some pre' => simp

theorem extractFields_append (fields : List Field) (ho : o < 8) :
    extractFields data o (pre ++ fields) = (extractFields data o pre).bind fun pre' =>
      (extractFields (data.drop ((o + (pre.map Field.nbits).sum) / 8))
        ((o + (pre.map Field.nbits).sum) % 8) fields).map (pre' ++ ·) := by
  have hall : extractFieldsVL (fun _ => none) (pre ++ fields).length [] data o (pre ++ fields) =
      (extractFields data o (pre ++ fields)).map ([] ++ ·) :=
    extractFieldsVL_of_ne (pre ++ fields) (.inr (by simp))
  rw [extractFieldsVL_append fields (by simp) ho] at hall
  simp only [List.nil_append, Option.map_id'] at hall
  rw [← hall]
  cases hpre : extractFields data o pre with
  | none => rfl
  | some pre' =>
    simp only [Option.bind_some]
    rw [extractFieldsVL_of_ne fields (.inr (by rw [length_of_extractFields hpre]; simp))]

/-- A header around a variable field: the fields before it, the field with the width that is
computed from these, and the fields behind it. -/
theorem extractFieldsVL_eq (f : Field) :
    extractFieldsVL computed pre.length [] data 0 (pre ++ f :: post) =
      (extractFields data 0 pre).bind fun pre' =>
        (computed (pre' ++ f :: post)).bind fun n =>
          (f.extractVL (data.drop ((pre.map Field.nbits).sum / 8))
            ((pre.map Field.nbits).sum % 8) n).bind fun f' =>
              (extractFields (data.drop (((pre.map Field.nbits).sum + f'.nbits) / 8))
                (((pre.map Field.nbits).sum + f'.nbits) % 8) post).map fun post' =>
                  pre' ++ f' :: post' := by
  rw [extractFieldsVL_append _ (by simp) (by decide), Nat.zero_add]
  cases hpre : extractFields data 0 pre with
  | none => rfl
  | some pre' =>
    have hlen := length_of_extractFields hpre
    rw [Option.bind_some, Option.bind_some, List.nil_append, extractFieldsVL, if_pos hlen.symm]
    cases computed (pre' ++ f :: post) with
    | none => rfl
    | some n =>
      simp only [Option.bind_eq_bind, Option.bind_some]
      cases f.extractVL (data.drop ((pre.map Field.nbits).sum / 8))
          ((pre.map Field.nbits).sum % 8) n with
      | none => rfl
      | some f' =>
        have hdrop : (pre.map Field.nbits).sum / 8 +
            ((pre.map Field.nbits).sum % 8 + f'.nbits) / 8 =
            ((pre.map Field.nbits).sum + f'.nbits) / 8 := by omega
        have hmod : ((pre.map Field.nbits).sum % 8 + f'.nbits) % 8 =
            ((pre.map Field.nbits).sum + f'.nbits) % 8 := by omega
        rw [Option.bind_some, Option.bind_some, extractFieldsVL_of_ne _ (.inl (by simp [hlen])),
          List.drop_drop, hdrop, hmod]
        simp

/-- The parts of a header with a variable-length field that is at most `n` bits wide on this
packet: `n` is computed from the header with the fields before it extracted. -/
structure VLInput (evalVL : Header → Expression → Option ℤ) (h : Header) (data : List Byte)
    (pre : List Field) (f : Field) (post : List Field) (n : ℕ) : Prop where
  fields_eq : h.fields = pre ++ f :: post
  fixed : ∀ g ∈ pre ++ post, g.Fixed
  not_signed : f.isSigned = false
  computed : ∃ expr pre', h.vl = some (pre.length, expr) ∧ extractFields data 0 pre = some pre' ∧
    evalVL { h with fields := pre' ++ f :: post } expr = some (n : ℤ)
  aligned : ((pre.map Field.nbits).sum + n + (post.map Field.nbits).sum) % 8 = 0
  enough : (pre.map Field.nbits).sum + n + (post.map Field.nbits).sum ≤ 8 * data.length

/-- The variable field of a packet is extracted with `n` bits, from bit `p` on, and goes on as a
field of `n` bits: it is set modulo `2 ^ n`, and the header keeps its length. -/
def ExtractsWidth (evalVL : Header → Expression → Option ℤ) (h : Header) (data : List Byte)
    (p vlOffset n : ℕ) : Prop :=
  ∃ h' f', h.extract evalVL data = some h' ∧ h'.fields[vlOffset]? = some f' ∧ f'.nbits = n ∧
    f'.bytes = ofValue ((n + 7) / 8) (slice data p n) ∧
    (f'.arith → f'.value = slice data p n) ∧
    ∀ v : ℤ, (f'.set v).value = v % 2 ^ n ∧
      (f'.set v).bytes = ofValue ((n + 7) / 8) (v % 2 ^ n).toNat ∧
      ({ h' with fields := h'.fields.set vlOffset (f'.set v) } : Header).widths.sum =
        8 * h'.nbytesPacket

/-- When a width is extracted right: the mask is computed without overflow, a field of no bits
does not stand within a byte, and no bits before the field go along with it. -/
def WidthFits (data : List Byte) (p n : ℕ) : Prop :=
  n < 31 ∧ (n = 0 → p % 8 = 0) ∧ NoneBefore data p n

instance (data : List Byte) (p n : ℕ) : Decidable (WidthFits data p n) :=
  inferInstanceAs (Decidable (_ ∧ _ ∧ _))

variable {evalVL : Header → Expression → Option ℤ} {h : Header} {f : Field} {n : ℕ}

/-- The variable field of an extracted header. -/
theorem VLInput.of_extract (hin : VLInput evalVL h data pre f post n) {h' : Header}
    (hext : h.extract evalVL data = some h') :
    ∃ pre' f' post', h'.fields = pre' ++ f' :: post' ∧ pre'.length = pre.length ∧
      f.extractVL (data.drop ((pre.map Field.nbits).sum / 8))
        ((pre.map Field.nbits).sum % 8) n = some f' := by
  obtain ⟨expr, pre', hvl, hpre, heval⟩ := hin.computed
  unfold extract at hext
  rw [hvl] at hext heval
  obtain ⟨fields, hfields, hext⟩ := Option.bind_eq_some_iff.mp hext
  dsimp only at hext
  split_ifs at hext
  obtain rfl := Option.some.inj hext
  rw [hin.fields_eq, extractFieldsVL_eq, hpre, Option.bind_some, heval, Option.bind_some]
    at hfields
  obtain ⟨f', hf', hfields⟩ := Option.bind_eq_some_iff.mp hfields
  obtain ⟨post', -, rfl⟩ := Option.map_eq_some_iff.mp hfields
  exact ⟨pre', f', post', rfl, length_of_extractFields hpre, hf'⟩

/-- Where the field is extracted, so are the fields behind it, and the header is aligned. -/
theorem VLInput.extract (hin : VLInput evalVL h data pre f post n) {f' : Field}
    (hext : f.extractVL (data.drop ((pre.map Field.nbits).sum / 8))
      ((pre.map Field.nbits).sum % 8) n = some f') (hnbits : f'.nbits = n) :
    ∃ pre' post', h.extract evalVL data = some { h with
        fields := pre' ++ f' :: post'
        nbytesPacket := ((pre.map Field.nbits).sum + n + (post.map Field.nbits).sum) / 8
        valid := true } ∧
      pre'.length = pre.length ∧ pre'.map Field.nbits = pre.map Field.nbits ∧
      post'.map Field.nbits = post.map Field.nbits := by
  obtain ⟨expr, pre', hvl, hpre, heval⟩ := hin.computed
  have haligned := hin.aligned
  have henough := hin.enough
  obtain ⟨post', hpost, -, hwidths⟩ := extractFields_spec
    (show ∀ g ∈ post, g.Fixed from fun g hg => hin.fixed g (List.mem_append_right pre hg))
    (data.drop (((pre.map Field.nbits).sum + n) / 8))
    (o := ((pre.map Field.nbits).sum + n) % 8) (Nat.mod_lt _ (by decide))
    (by rw [List.length_drop]; omega)
  have hwidths' := widths_of_extractFields hpre
  have hsum : ((pre' ++ f' :: post').map Field.nbits).sum =
      (pre.map Field.nbits).sum + n + (post.map Field.nbits).sum := by
    rw [List.map_append, List.map_cons, List.sum_append, List.sum_cons, hwidths', hwidths, hnbits]
    ring
  refine ⟨pre', post', ?_, length_of_extractFields hpre, hwidths', hwidths⟩
  rw [hvl] at heval
  unfold Header.extract
  rw [hvl]
  dsimp only
  rw [hin.fields_eq, extractFieldsVL_eq, hpre, Option.bind_some, heval, Option.bind_some, hext,
    Option.bind_some, hnbits, hpost, Option.map_some, Option.bind_eq_bind, Option.bind_some, hsum,
    if_pos haligned]

/-- A variable-length field goes through extraction with its width exactly when the width fits. -/
theorem extractsWidth_iff (hin : VLInput evalVL h data pre f post n) :
    ExtractsWidth evalVL h data (pre.map Field.nbits).sum pre.length n ↔
      WidthFits data (pre.map Field.nbits).sum n := by
  have haligned := hin.aligned
  have henough := hin.enough
  have ho : (pre.map Field.nbits).sum % 8 < 8 := Nat.mod_lt _ (by decide)
  have hlen : (pre.map Field.nbits).sum % 8 + n ≤
      8 * (data.drop ((pre.map Field.nbits).sum / 8)).length := by
    rw [List.length_drop]
    omega
  have hslice : slice (data.drop ((pre.map Field.nbits).sum / 8))
      ((pre.map Field.nbits).sum % 8) n = slice data (pre.map Field.nbits).sum n := by
    rw [slice_drop (by omega), Nat.div_add_mod]
  have hnone : NoneBefore (data.drop ((pre.map Field.nbits).sum / 8))
      ((pre.map Field.nbits).sum % 8) n ↔ NoneBefore data (pre.map Field.nbits).sum n :=
    noneBefore_drop (by omega)
  constructor
  · rintro ⟨h', f', hext, hf', -, hbytes, -⟩
    obtain ⟨pre', f'', post', hfields, hprelen, hvl⟩ := hin.of_extract hext
    obtain rfl : f'' = f' := by
      rw [hfields, ← hprelen, List.getElem?_append_right le_rfl, Nat.sub_self] at hf'
      exact Option.some.inj hf'
    obtain ⟨hlt, hzero⟩ := Field.lt_of_extractVL hvl
    rw [Field.extractVL_eq f hlt hzero] at hvl
    refine ⟨hlt, hzero, hnone.mp ?_⟩
    rw [← Field.genericExtract_withWidth_iff f ho hzero hlen, hslice, ← hbytes]
    exact (Field.bytes_of_extract hvl).symm
  · rintro ⟨hlt, hzero, hclear⟩
    obtain ⟨f', hext, hs, hnbits, hnbytes, hmask, hbytes, hvalue⟩ :=
      Field.extract_withWidth hin.not_signed ho hzero hlen (hnone.mpr hclear)
    rw [← Field.extractVL_eq f hlt hzero] at hext
    rw [hslice] at hbytes hvalue
    obtain ⟨pre', post', hheader, hprelen, hpre, hpost⟩ := hin.extract hext hnbits
    have hat : (pre' ++ f' :: post')[pre.length]? = some f' := by
      rw [← hprelen, List.getElem?_append_right le_rfl, Nat.sub_self]
      rfl
    refine ⟨_, f', hheader, hat, hnbits, hbytes, hvalue, fun v => ?_⟩
    rw [Field.set_unsigned hs (by rw [hmask, hnbits]), hnbits, hnbytes]
    refine ⟨rfl, rfl, ?_⟩
    unfold widths
    dsimp only
    rw [← hprelen, List.set_append_right _ _ le_rfl, Nat.sub_self, List.set_cons_zero,
      List.map_append, List.map_cons, List.sum_append, List.sum_cons, hpre, hpost]
    dsimp only
    omega

/-- A header of a byte and a variable-length field. -/
def byteAndRest (expr : Expression) : Header where
  fields := [{ nbits := 8 }, { nbits := 0 }]
  nbytesPacket := 1
  vl := some (1, expr)

theorem extractsWidth_sixteen :
    ExtractsWidth (fun _ _ => some 16) (byteAndRest { ops := [] }) [2, 0xab, 0xcd] 8 1 16 := by
  have hin : VLInput (fun _ _ => some 16) (byteAndRest { ops := [] }) [2, 0xab, 0xcd]
      [{ nbits := 8 }] { nbits := 0 } [] 16 := by
    refine ⟨rfl, ?_, rfl, ⟨_, _, rfl, rfl, rfl⟩, by decide, by decide⟩
    intro g hg
    obtain rfl := List.mem_singleton.mp hg
    exact ⟨by decide, rfl, rfl⟩
  exact (extractsWidth_iff hin).mpr (by decide +kernel)

/-- The mask of a field of 32 bits is shifted out of an `int`. -/
theorem not_extractsWidth_word : ¬ ExtractsWidth (fun _ _ => some 32)
    (byteAndRest { ops := [] }) [4, 0xab, 0xcd, 0xef, 0x01] 8 1 32 := by
  rintro ⟨h', f', hext, -⟩
  cases hext

end Header

end Bmv2
