import Bmv2.Lib.BitWriter
import Bmv2.Packet.Wire

/-! The input of a calculation (`BufBuilder` of `calculations.h`): its entries are deparsed one
behind the other into a buffer that grows with each of them. -/
namespace Bmv2
open ByteBits BitWriter

namespace Field

/-- The field has the bytes for its width, and what they stand for is within the width. -/
structure InWidth (f : Field) : Prop extends f.Whole where
  value_lt : ByteBits.value f.bytes < 2 ^ f.nbits

/-- The bits of the field, most significant first. -/
def fieldBits (f : Field) : List Bool := (bits f.bytes).drop (padding f.nbits)

variable {f : Field} {data : List Byte} {o j : ℕ}

theorem Whole.length_fieldBits (hf : f.Whole) : f.fieldBits.length = f.nbits := by
  have hadd := padding_add f.nbits
  rw [fieldBits, List.length_drop, length_bits, hf.length_bytes, hf.nbytes_eq]
  omega

theorem getD_fieldBits (f : Field) (i : ℕ) :
    f.fieldBits.getD i false = bitAt f.bytes (padding f.nbits + i) := by
  rw [fieldBits, List.getD, List.getElem?_drop, ← List.getD, getD_bits]

/-- The bits before those of the field are not set in its bytes. -/
theorem InWidth.bitAt_padding (hf : f.InWidth) (hj : j < padding f.nbits) :
    bitAt f.bytes j = false := by
  have hadd := padding_add f.nbits
  have hlen : 8 * f.bytes.length = padding f.nbits + f.nbits := by
    rw [hf.length_bytes, hf.nbytes_eq, hadd]
  exact (value_lt_iff (by omega)).mp hf.value_lt j (by omega)

/-- Behind its bits a field of at least one bit leaves what is not set as it is. -/
theorem bitAt_put_behind (hf : f.Fixed) (ho : o < 8)
    (hlen : (o + f.nbits + 7) / 8 ≤ data.length) (hj : o + f.nbits ≤ j)
    (hdata : bitAt data j = false) : bitAt (f.put data o) j = false := by
  have hpos := hf.pos
  have hbytes := hf.nbytes_eq
  have hblen := hf.length_bytes
  have hadd := padding_add f.nbits
  have hpad : 8 * f.nbytes - f.nbits = padding f.nbits := by rw [hbytes, padding]
  rw [bitAt_eq] at hdata ⊢
  by_cases hlast : (o + f.nbits + 7) / 8 ≤ j / 8
  · rw [byteAt_put_of_le hf ho hlast, hdata]
  have hshift : ∀ (b : Byte) (s : ℕ), 8 ≤ j % 8 + s → (b <<< s).getMsbD (j % 8) = false := by
    intro b s hs
    rw [BitVec.getMsbD_shiftLeft]
    exact BitVec.getMsbD_of_ge _ _ hs
  rw [put, if_neg (by omega)]
  dsimp only
  rw [hpad]
  rcases lt_trichotomy o (padding f.nbits) with hlt | heq | hgt
  · rw [if_neg (by omega), if_pos hlt, byteAt_modify,
      if_pos ⟨by omega, by split_ifs <;> simp <;> omega⟩,
      BitVec.getMsbD_or, hshift _ _ (by omega), Bool.or_false]
    by_cases hone : f.nbits ≤ 8
    · rw [if_neg (by omega), byteAt_writeBytes, if_neg (by omega), byteAt_modify,
        if_pos ⟨by omega, by omega⟩, getMsbD_and_not_ones _ ho (Nat.mod_lt _ (by decide)),
        decide_eq_false (by omega), Bool.false_and]
    · rw [if_pos (by omega), byteAt_set, if_pos ⟨by omega, by simp; omega⟩]
      exact BitVec.getMsbD_zero
  · omega
  · rw [if_neg (by omega), if_neg (by omega)]
    by_cases hone : f.nbytes = 1
    · rw [if_pos hone, byteAt_set, if_pos ⟨by omega, by simp; omega⟩, hshift _ _ (by omega)]
    · rw [if_neg hone, byteAt_modify, if_pos ⟨by omega, by simp; omega⟩, byteAt_modify,
        if_pos ⟨by omega, by simp; omega⟩, byteAt_writeBytes, if_neg (by omega), byteAt_modify,
        if_neg (by omega), byteAt_modify, if_neg (by omega), BitVec.getMsbD_or,
        BitVec.getMsbD_and, hdata, hshift _ _ (by omega)]
      rfl

/-- A field of no bits at a whole byte writes nothing. -/
theorem put_of_nbits_zero (hf : f.Whole) (hzero : f.nbits = 0) : f.put data 0 = data := by
  have hbytes : f.bytes = [] := by
    apply List.eq_nil_of_length_eq_zero
    rw [hf.length_bytes, hf.nbytes_eq, hzero]
  rw [put, if_pos ⟨rfl, by rw [hzero]⟩, hbytes]
  rfl

/-- Deparsing a field writes its bits, and may lose what stands before them in their first byte. -/
theorem bitAt_put_eq (hf : f.InWidth) (ho : o < 8) (hroom : o + f.nbits ≤ 8 * data.length)
    (hempty : f.nbits = 0 → o = 0) (hdata : ∀ j, o ≤ j → bitAt data j = false) :
    bitAt (f.put data o) = write Overwrites (bitAt data) o f.fieldBits := by
  funext j
  have hadd := padding_add f.nbits
  rcases Nat.eq_zero_or_pos f.nbits with hzero | hpos
  · obtain rfl := hempty hzero
    rw [put_of_nbits_zero hf.toWhole hzero, hdata j (Nat.zero_le j)]
    exact (write_end (by rw [hf.length_fieldBits, hzero]; exact Nat.zero_le j)).symm
  have hfix : f.Fixed := ⟨hpos, hf.nbytes_eq, hf.length_bytes⟩
  rcases Nat.lt_or_ge j o with hlt | hge
  · rw [write_of_lt hlt, hf.length_fieldBits, Nat.mod_eq_of_lt ho,
      bitAt_put hfix ho (by omega) (by omega)]
    have hown : (decide (o ≤ j + padding f.nbits) &&
        bitAt f.bytes (j + padding f.nbits - o)) = false := by
      by_cases hfrom : o ≤ j + padding f.nbits
      · rw [hf.bitAt_padding (by omega), Bool.and_false]
      · rw [decide_eq_false hfrom, Bool.false_and]
    have hfirst : (Overwrites f.nbits o ∧ 8 * (o / 8) ≤ j) ↔ Overwrites f.nbits o :=
      and_iff_left (by omega)
    simp only [hown, hfirst, hlt, true_and, Bool.or_false, decide_not, Bool.and_comm]
  · rw [write_of_le hge, getD_fieldBits]
    by_cases hin : j < o + f.nbits
    · rw [bitAt_put hfix ho (by omega) hin, decide_eq_false (by omega),
        decide_eq_true (by omega), Bool.false_and, Bool.false_or, Bool.true_and]
      congr 1
      omega
    · rw [bitAt_put_behind hfix ho (by omega) (by omega) (hdata j hge), bitAt_of_le]
      rw [hf.length_bytes, hf.nbytes_eq]
      omega

end Field

/-- Deparsing fields writes their bits one behind the other. -/
theorem Header.bitAt_putFields {fields : List Field} (hf : ∀ f ∈ fields, f.InWidth)
    {data : List Byte} {o : ℕ} (ho : o < 8)
    (hroom : o + (fields.map Field.nbits).sum ≤ 8 * data.length)
    (hempty : EmptyAligned o (fields.map Field.nbits))
    (hdata : ∀ j, o ≤ j → bitAt data j = false) :
    bitAt (putFields data o fields) =
      writeAll Field.Overwrites (bitAt data) o (fields.map Field.fieldBits) := by
  induction fields generalizing data o with
  | nil => rfl
  | cons f fields ih =>
    obtain ⟨hfirst, hrest⟩ := List.forall_mem_cons.mp hf
    obtain ⟨hzero, hempty⟩ := hempty
    rw [List.map_cons, List.sum_cons] at hroom
    rw [Nat.mod_eq_of_lt ho] at hzero
    have hwrite := Field.bitAt_put_eq hfirst ho (by omega) hzero hdata
    have hend : ∀ j, o + f.nbits ≤ j → bitAt (f.put data o) j = false := by
      intro j hj
      rw [hwrite]
      exact write_end (by rw [hfirst.length_fieldBits]; exact hj)
    have hnext := ih hrest (Nat.mod_lt (o + f.nbits) (by decide))
      (show (o + f.nbits) % 8 + (fields.map Field.nbits).sum ≤
          8 * ((f.put data o).drop ((o + f.nbits) / 8)).length by
        rw [List.length_drop, Field.length_put]
        omega)
      (emptyAligned_mod.mpr hempty)
      fun j hj => by
        rw [bitAt_drop]
        exact hend _ (by omega)
    have hbyte : (o + f.nbits) / 8 ≤ (f.put data o).length := by
      rw [Field.length_put]
      omega
    have hoffset : 8 * ((o + f.nbits) / 8) + (o + f.nbits) % 8 = o + f.nbits := by omega
    rw [putFields, List.map_cons, writeAll, hfirst.length_fieldBits, ← hwrite,
      bitAt_take_append hbyte hnext, hoffset]

/-- A buffer and the number of its bits, behind which it has none. -/
structure BufState (s : List Byte × ℕ) : Prop where
  length : s.1.length = (s.2 + 7) / 8
  behind : ∀ j, s.2 ≤ j → bitAt s.1 j = false

/-- A buffer, after bit strings are written at its end. -/
structure Appends (s : List Byte × ℕ) (pieces : List (List Bool)) (s' : List Byte × ℕ) : Prop where
  size : s'.2 = s.2 + pieces.flatten.length
  length : s'.1.length = (s'.2 + 7) / 8
  bits : bitAt s'.1 = writeAll Field.Overwrites (bitAt s.1) s.2 pieces

theorem Appends.bufState {s s' : List Byte × ℕ} {pieces : List (List Bool)}
    (h : Appends s pieces s') (hs : BufState s) : BufState s' := by
  refine ⟨h.length, fun j hj => ?_⟩
  rw [h.bits]
  exact writeAll_end hs.behind (by rw [← h.size]; exact hj)

theorem Appends.trans {s₁ s₂ s₃ : List Byte × ℕ} {pieces pieces' : List (List Bool)}
    (h : Appends s₁ pieces s₂) (h' : Appends s₂ pieces' s₃) :
    Appends s₁ (pieces ++ pieces') s₃ := by
  refine ⟨?_, h'.length, ?_⟩
  · rw [h'.size, h.size, List.flatten_append, List.length_append, Nat.add_assoc]
  · rw [h'.bits, h.bits, h.size, writeAll_append]

/-- Bit strings are written at the end of a buffer, or it is undefined: if one of no bits begins
within a byte. -/
structure Writes (s : List Byte × ℕ) (pieces : List (List Bool)) (out : Option (List Byte × ℕ)) :
    Prop where
  appends : Header.EmptyAligned s.2 (pieces.map List.length) → ∃ s', out = some s' ∧
    Appends s pieces s'
  undefined : ¬ Header.EmptyAligned s.2 (pieces.map List.length) → out = none

theorem Writes.of_appends {s s' : List Byte × ℕ} {pieces : List (List Bool)}
    (h : Appends s pieces s') (hempty : Header.EmptyAligned s.2 (pieces.map List.length)) :
    Writes s pieces (some s') :=
  ⟨fun _ => ⟨s', rfl, h⟩, fun hne => absurd hempty hne⟩

theorem bitAt_replicate_zero (n j : ℕ) : bitAt (List.replicate n 0) j = false := by
  rw [bitAt_eq, byteAt, List.getD, List.getElem?_replicate]
  split_ifs <;> exact BitVec.getMsbD_zero

theorem bitAt_extendBuf (buf : List Byte) (n : ℕ) : bitAt (extendBuf buf n) = bitAt buf := by
  funext j
  unfold extendBuf
  by_cases hj : j < 8 * buf.length
  · exact bitAt_append_left hj
  · rw [bitAt_append_right (by omega), bitAt_replicate_zero, bitAt_of_le (by omega)]

theorem length_extendBuf {buf : List Byte} {n : ℕ} (h : buf.length ≤ (n + 7) / 8) :
    (extendBuf buf n).length = (n + 7) / 8 := by
  rw [extendBuf, List.length_append, List.length_replicate]
  omega

theorem length_fieldBits_flatten {fields : List Field} (hf : ∀ f ∈ fields, f.InWidth) :
    (fields.map Field.fieldBits).flatten.length = (fields.map Field.nbits).sum := by
  rw [List.length_flatten, List.map_map]
  congr 1
  apply List.map_congr_left
  intro f hmem
  exact (hf f hmem).length_fieldBits

namespace BufEntry

variable {phv : PHV} {s : List Byte × ℕ} {fields : List Field}

/-- The bit strings that an entry stands for: what belongs to a header that is not valid is left
out. -/
def pieces (phv : PHV) : BufEntry → Option (List (List Bool))
  | .field f => do
    let h ← phv.headers[f.header]?
    if h.isValid then do
      let field ← h.fields[f.offset]?
      some [field.fieldBits]
    else some []
  | .constant v nbits => some [(List.range nbits).map (bitAt v)]
  | .header hdr => do
    let h ← phv.headers[hdr]?
    some (if h.isValid then h.fields.map Field.fieldBits else [])

/-- What the code asserts of an entry at bit `n` of the buffer. -/
def Asserts (n : ℕ) : BufEntry → Prop
  | .field _ => True
  | .constant _ nbits => nbits % 8 = 0 ∧ n % 8 = 0
  | .header _ => n % 8 = 0

/-- A constant is not longer than its width. -/
def Fits : BufEntry → Prop
  | .constant v nbits => 8 * v.length ≤ nbits
  | _ => True

instance (entry : BufEntry) : Decidable entry.Fits := by
  cases entry <;> unfold Fits <;> infer_instance

theorem map_length_fieldBits (hf : ∀ f ∈ fields, f.InWidth) :
    (fields.map Field.fieldBits).map List.length = fields.map Field.nbits := by
  rw [List.map_map]
  exact List.map_congr_left fun f hmem => (hf f hmem).length_fieldBits

/-- Fields that are deparsed at the end of a buffer, with room for their bits. -/
theorem deparseFields_extendBuf (hs : BufState s) (hf : ∀ f ∈ fields, f.InWidth) {w : ℕ}
    (hw : (fields.map Field.nbits).sum = w) {buf : List Byte}
    (hbuf : buf = extendBuf s.1 (s.2 + w)) :
    Writes s (fields.map Field.fieldBits)
      ((Header.deparseFields (buf.drop (s.2 / 8)) (s.2 % 8) fields).map fun rest =>
        (buf.take (s.2 / 8) ++ rest, s.2 + w)) := by
  have hlength := hs.length
  have hlen : buf.length = (s.2 + w + 7) / 8 := by
    rw [hbuf, length_extendBuf (by omega)]
  have hbits : bitAt buf = bitAt s.1 := by rw [hbuf, bitAt_extendBuf]
  have hroom : s.2 % 8 + (fields.map Field.nbits).sum ≤ 8 * (buf.drop (s.2 / 8)).length := by
    rw [List.length_drop]
    omega
  have hmod := Nat.mod_lt s.2 (show 0 < 8 by decide)
  rw [Header.deparseFields_eq (fun f hmem => (hf f hmem).toWhole) hmod hroom]
  constructor
  · rw [map_length_fieldBits hf]
    intro hempty
    have hempty := Header.emptyAligned_mod.mpr hempty
    rw [if_pos hempty]
    refine ⟨_, rfl, ?_, ?_, ?_⟩
    · rw [length_fieldBits_flatten hf, hw]
    · rw [List.length_append, Header.length_putFields, List.length_take, List.length_drop]
      dsimp only
      omega
    · have hrest := Header.bitAt_putFields hf hmod hroom hempty fun j hj => by
        rw [bitAt_drop, hbits]
        exact hs.behind _ (by omega)
      rw [bitAt_take_append (by omega) hrest, hbits, Nat.div_add_mod]
  · rw [map_length_fieldBits hf]
    intro hempty
    rw [if_neg (mt Header.emptyAligned_mod.mp hempty)]
    rfl

theorem deparseFields_singleton (f : Field) (data : List Byte) (o : ℕ) :
    Header.deparseFields data o [f] = f.deparse data o := by
  simp only [Header.deparseFields, Option.bind_eq_bind, Option.bind_some, List.take_append_drop]
  exact Option.bind_fun_some _

/-- A constant is copied to the end of a buffer of whole bytes. -/
theorem append_constant (hs : BufState s) {v : List Byte} {nbits : ℕ} (hn : s.2 % 8 = 0)
    (hfits : 8 * v.length ≤ nbits) :
    Appends s [(List.range nbits).map (bitAt v)]
      (extendBuf (s.1 ++ v) (s.2 + nbits), s.2 + nbits) := by
  have hlength := hs.length
  refine ⟨?_, ?_, ?_⟩
  · simp
  · rw [length_extendBuf]
    rw [List.length_append]
    omega
  · rw [bitAt_extendBuf]
    funext j
    rw [writeAll, writeAll]
    rcases Nat.lt_or_ge j s.2 with hlt | hge
    · have hkept : ¬ (Field.Overwrites ((List.range nbits).map (bitAt v)).length (s.2 % 8) ∧
          8 * (s.2 / 8) ≤ j) := by omega
      rw [write_of_lt hlt, bitAt_append_left (by omega), decide_eq_false hkept, Bool.not_false,
        Bool.and_true]
    · rw [write_of_le hge, bitAt_append_right (by omega), List.getD, List.getElem?_map,
        show 8 * s.1.length = s.2 by omega]
      by_cases hin : j - s.2 < nbits
      · rw [List.getElem?_range hin]
        rfl
      · rw [List.getElem?_eq_none (by rw [List.length_range]; omega), bitAt_of_le (by omega)]
        rfl

/-- An entry writes its bit strings at the end of the buffer. -/
theorem deparse_spec (hphv : ∀ h ∈ phv.headers, h.isValid →
      h.widths.sum = 8 * h.nbytesPacket ∧ ∀ f ∈ h.fields, f.InWidth)
    (hs : BufState s) {entry : BufEntry} {ps : List (List Bool)}
    (hps : entry.pieces phv = some ps) (hok : entry.Asserts s.2) (hfits : entry.Fits) :
    Writes s ps (entry.deparse phv s) := by
  have hnone : Writes s [] (some s) := .of_appends ⟨rfl, hs.length, rfl⟩ trivial
  cases entry with
  | field f =>
    obtain ⟨h, hh, hps⟩ := Option.bind_eq_some_iff.mp hps
    rw [deparse, hh, Option.bind_eq_bind, Option.bind_some]
    by_cases hv : h.isValid
    · rw [if_pos hv] at hps ⊢
      obtain ⟨field, hfield, hps⟩ := Option.bind_eq_some_iff.mp hps
      obtain rfl := Option.some.inj hps
      have hin := (hphv h (List.mem_of_getElem? hh) hv).2 field (List.mem_of_getElem? hfield)
      have hone : ∀ f ∈ [field], f.InWidth := fun f hf => List.mem_singleton.mp hf ▸ hin
      have hwrites := deparseFields_extendBuf hs hone rfl rfl
      rw [deparseFields_singleton, Option.map_eq_bind] at hwrites
      rw [hfield, Option.bind_eq_bind, Option.bind_some]
      exact hwrites
    · rw [if_neg hv] at hps ⊢
      obtain rfl := Option.some.inj hps
      exact hnone
  | constant v nbits =>
    obtain rfl := Option.some.inj hps
    rw [deparse, if_pos ⟨hok.2, hfits⟩]
    exact .of_appends (append_constant hs hok.2 hfits) ⟨fun _ => hok.2, trivial⟩
  | header hdr =>
    obtain ⟨h, hh, hps⟩ := Option.bind_eq_some_iff.mp hps
    obtain rfl := Option.some.inj hps
    have hmod : s.2 % 8 = 0 := hok
    rw [deparse, if_pos hmod, hh, Option.bind_eq_bind, Option.bind_some]
    by_cases hv : h.isValid
    · obtain ⟨hsize, hin⟩ := hphv h (List.mem_of_getElem? hh) hv
      have hwrites := deparseFields_extendBuf hs hin hsize rfl
      rw [hmod, Option.map_eq_bind] at hwrites
      rw [if_pos hv, if_pos hv]
      exact hwrites
    · rw [if_neg hv, if_neg hv]
      exact hnone

theorem fits_of_deparse {entry : BufEntry} {s' : List Byte × ℕ}
    (h : entry.deparse phv s = some s') : entry.Fits := by
  cases entry with
  | constant v nbits =>
    by_contra hlong
    rw [deparse, if_neg fun hok => hlong hok.2] at h
    cases h
  | field f => trivial
  | header hdr => trivial

/-- Entries that pass the assertions of the code, from bit `n` of the buffer on, and the bit
strings that they stand for. -/
inductive Accepted (phv : PHV) : ℕ → List BufEntry → List (List Bool) → Prop
  | nil (n : ℕ) : Accepted phv n [] []
  | cons {n : ℕ} {entry : BufEntry} {entries : List BufEntry} {ps ps' : List (List Bool)}
      (hps : entry.pieces phv = some ps) (hok : entry.Asserts n)
      (hrest : Accepted phv (n + ps.flatten.length) entries ps') :
      Accepted phv n (entry :: entries) (ps ++ ps')

/-- The entries write their bit strings one behind the other. The induction is on the entries; the
buffer has no bits behind those that are written. -/
theorem foldlM_deparse_spec (hphv : ∀ h ∈ phv.headers, h.isValid →
      h.widths.sum = 8 * h.nbytesPacket ∧ ∀ f ∈ h.fields, f.InWidth)
    {n : ℕ} {entries : List BufEntry} {ps : List (List Bool)} (hacc : Accepted phv n entries ps)
    (hfits : ∀ entry ∈ entries, entry.Fits) (hs : BufState s) (hn : s.2 = n) :
    Writes s ps (entries.foldlM (fun s entry => entry.deparse phv s) s) := by
  induction hacc generalizing s with
  | nil n => exact .of_appends ⟨rfl, hs.length, rfl⟩ trivial
  | @cons n entry entries ps ps' hps hok _ ih =>
    subst hn
    obtain ⟨hfit, hfits⟩ := List.forall_mem_cons.mp hfits
    have hwrites := deparse_spec hphv hs hps hok hfit
    have hsum : (ps.map List.length).sum = ps.flatten.length := List.length_flatten.symm
    rw [List.foldlM_cons]
    by_cases hempty : Header.EmptyAligned s.2 (ps.map List.length)
    · obtain ⟨s₁, hstep, happ⟩ := hwrites.appends hempty
      have hnext := ih hfits (happ.bufState hs) happ.size
      rw [hstep, Option.bind_eq_bind, Option.bind_some]
      constructor
      · rw [List.map_append, Header.emptyAligned_append, hsum, ← happ.size]
        rintro ⟨-, hrest⟩
        obtain ⟨s₂, hfold, happ'⟩ := hnext.appends hrest
        exact ⟨s₂, hfold, happ.trans happ'⟩
      · rw [List.map_append, Header.emptyAligned_append, hsum, ← happ.size]
        exact fun hne => hnext.undefined fun hrest => hne ⟨hempty, hrest⟩
    · rw [hwrites.undefined hempty]
      refine ⟨fun hall => ?_, fun _ => rfl⟩
      rw [List.map_append, Header.emptyAligned_append] at hall
      exact absurd hall.1 hempty

theorem fits_of_foldlM {entries : List BufEntry} {s' : List Byte × ℕ}
    (h : entries.foldlM (fun s entry => entry.deparse phv s) s = some s') :
    ∀ entry ∈ entries, entry.Fits := by
  induction entries generalizing s with
  | nil => exact fun _ hmem => absurd hmem List.not_mem_nil
  | cons entry entries ih =>
    rw [List.foldlM_cons] at h
    obtain ⟨s₁, hstep, hrest⟩ := Option.bind_eq_some_iff.mp h
    exact List.forall_mem_cons.mpr ⟨fits_of_deparse hstep, ih hrest⟩

end BufEntry

/-- A buffer is a bit string, with zeros up to the end of its last byte. -/
theorem bits_eq_append_iff {buf : List Byte} {l : List Bool}
    (hlen : buf.length = (l.length + 7) / 8) :
    bits buf = l ++ List.replicate (padding l.length) false ↔
      ∀ j, bitAt buf j = l.getD j false := by
  have hadd := padding_add l.length
  have hget : ∀ j, (l ++ List.replicate (padding l.length) false).getD j false =
      l.getD j false := by
    intro j
    rcases Nat.lt_or_ge j l.length with hlt | hge
    · rw [List.getD_append _ _ _ _ hlt]
    · rw [List.getD_append_right _ _ _ _ hge, List.getD_eq_default l _ hge, List.getD,
        List.getElem?_replicate]
      split_ifs <;> rfl
  constructor
  · intro h j
    rw [← getD_bits, h, hget]
  · intro h
    apply List.ext_getElem
    · rw [length_bits, List.length_append, List.length_replicate]
      omega
    · intro i hi hi'
      rw [← List.getD_eq_getElem _ false hi, ← List.getD_eq_getElem _ false hi', getD_bits, hget, h]

namespace NamedCalculation

variable {c : NamedCalculation} {phv : PHV} {data : List Byte} {ps : List (List Bool)}

/-- `operator()` of `BufBuilder`, on a packet with the given data. -/
def input (c : NamedCalculation) (phv : PHV) (data : List Byte) : Option (List Byte) := do
  let (buf, _) ← c.entries.foldlM (fun s entry => entry.deparse phv s) ([], 0)
  some (if c.withPayload then buf ++ data else buf)

/-- The input of the calculation is the concatenation of the bit strings, filled with zeros to a
whole number of bytes, and the data if it is a part of it. -/
def Concatenates (c : NamedCalculation) (phv : PHV) (data : List Byte) (ps : List (List Bool)) :
    Prop :=
  ∃ buf, c.input phv data = some (if c.withPayload then buf ++ data else buf) ∧
    bits buf = ps.flatten ++ List.replicate (padding ps.flatten.length) false

/-- The input is right exactly when the constants fit in their widths, the fields of no bits begin
at whole bytes, and no field loses a set bit before it in its first byte. -/
theorem concatenates_iff (hphv : ∀ h ∈ phv.headers, h.isValid →
      h.widths.sum = 8 * h.nbytesPacket ∧ ∀ f ∈ h.fields, f.InWidth)
    (hacc : BufEntry.Accepted phv 0 c.entries ps) :
    c.Concatenates phv data ps ↔ (∀ entry ∈ c.entries, entry.Fits) ∧
      Header.EmptyAligned 0 (ps.map List.length) ∧
      Keeps Field.Overwrites (fun j => ps.flatten.getD j false) 0 (ps.map List.length) := by
  have hstart : BufState ([], 0) := ⟨rfl, fun j _ => bitAt_of_le (Nat.zero_le _)⟩
  have hzero : bitAt ([] : List Byte) = fun _ => false :=
    funext fun j => bitAt_of_le (Nat.zero_le _)
  -- the input is not defined unless the first two conditions hold
  have hdefined : c.Concatenates phv data ps → (∀ entry ∈ c.entries, entry.Fits) ∧
      Header.EmptyAligned 0 (ps.map List.length) := by
    rintro ⟨buf, hin, -⟩
    obtain ⟨s, hfold, -⟩ := Option.bind_eq_some_iff.mp hin
    have hfits := BufEntry.fits_of_foldlM hfold
    refine ⟨hfits, ?_⟩
    by_contra hempty
    have hnone := (BufEntry.foldlM_deparse_spec hphv hacc hfits hstart rfl).undefined hempty
    rw [hnone] at hfold
    cases hfold
  rw [← and_assoc]
  by_cases hok : (∀ entry ∈ c.entries, entry.Fits) ∧ Header.EmptyAligned 0 (ps.map List.length)
  · obtain ⟨s, hfold, happ⟩ :=
      (BufEntry.foldlM_deparse_spec hphv hacc hok.1 hstart rfl).appends hok.2
    have hsize := happ.size
    have hlen := happ.length
    have hbits := happ.bits
    rw [Nat.zero_add] at hsize
    rw [hzero] at hbits
    have hinput : c.input phv data = some (if c.withPayload then s.1 ++ data else s.1) :=
      Option.bind_eq_some_iff.mpr ⟨s, hfold, rfl⟩
    have hbuf : c.Concatenates phv data ps ↔
        bits s.1 = ps.flatten ++ List.replicate (padding ps.flatten.length) false := by
      constructor
      · rintro ⟨buf, hin, hbuf⟩
        have hsame := Option.some.inj (hinput.symm.trans hin)
        obtain rfl : s.1 = buf := by
          split_ifs at hsame
          · exact List.append_cancel_right hsame
          · exact hsame
        exact hbuf
      · exact fun hbuf => ⟨s.1, hinput, hbuf⟩
    rw [hbuf, bits_eq_append_iff (by rw [hlen, hsize]), hbits, writeAll_start_iff,
      and_iff_right hok]
  · exact iff_of_false (mt hdefined hok) fun h => hok h.1

/-- A calculation on the two fields of a header. -/
def onTwoFields : NamedCalculation where
  entries := [.field { header := 0, offset := 0 }, .field { header := 0, offset := 1 }]
  hash := fun _ => 0

/-- A valid header of some fields. -/
def validHeader (fields : List Field) (nbytes : ℕ) : PHV where
  headers := [{ fields, nbytesPacket := nbytes, valid := true }]

theorem accepted_validHeader (f g : Field) (fields : List Field) (nbytes : ℕ) :
    BufEntry.Accepted (validHeader (f :: g :: fields) nbytes) 0 onTwoFields.entries
      [f.fieldBits, g.fieldBits] := by
  have hfirst : (BufEntry.field { header := 0, offset := 0 }).pieces
      (validHeader (f :: g :: fields) nbytes) = some [f.fieldBits] := rfl
  have hsecond : (BufEntry.field { header := 0, offset := 1 }).pieces
      (validHeader (f :: g :: fields) nbytes) = some [g.fieldBits] := rfl
  exact .cons hfirst trivial (.cons hsecond trivial (.nil _))

/-- Five bits and nineteen bits, which end where they end in the bytes of their field. -/
theorem concatenates_validHeader : onTwoFields.Concatenates
    (validHeader [{ nbits := 5, bytes := [0x1d] }, { nbits := 19, bytes := [0x5, 0x43, 0x21] }] 3)
    [] [(bits [0x1d]).drop 3, (bits [0x5, 0x43, 0x21]).drop 5] := by
  refine (concatenates_iff ?_ (accepted_validHeader _ _ _ _)).mpr
    ⟨by decide, by decide +kernel, by decide +kernel⟩
  intro h hh _
  obtain rfl := List.mem_singleton.mp hh
  refine ⟨rfl, fun f hf => ?_⟩
  rcases List.mem_pair.mp hf with rfl | rfl
  · exact ⟨⟨rfl, rfl⟩, by decide +kernel⟩
  · exact ⟨⟨rfl, rfl⟩, by decide +kernel⟩

/-- A field of nine bits that begins at the second bit of a byte assigns this byte. -/
theorem not_concatenates_nine :
    BufEntry.Accepted
      (validHeader [{ nbits := 1, bytes := [1] }, { nbits := 9 }, { nbits := 6 }] 2) 0
      onTwoFields.entries [[true], List.replicate 9 false] ∧
    ¬ onTwoFields.Concatenates
      (validHeader [{ nbits := 1, bytes := [1] }, { nbits := 9 }, { nbits := 6 }] 2) []
      [[true], List.replicate 9 false] := by
  refine ⟨accepted_validHeader _ _ _ _, ?_⟩
  rintro ⟨buf, hin, hbuf⟩
  obtain rfl : [0, 0] = buf := Option.some.inj hin
  revert hbuf
  decide +kernel

end NamedCalculation

end Bmv2
