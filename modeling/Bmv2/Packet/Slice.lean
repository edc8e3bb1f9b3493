import Bmv2.Packet.FieldValue
import Bmv2.Packet.Parser

/-! The number that a bit field is extracted as: by a field, by a lookahead, and by a parser that
sets a field from a lookahead. -/
namespace Bmv2
open ByteBits

/-- The bytes of the data that `generic_extract` reads. -/
def genericExtractReads (bitOffset bitwidth : ℕ) : List ℕ :=
  let nbytes := (bitwidth + 7) / 8
  if bitOffset = 0 ∧ bitwidth % 8 = 0 then List.range nbytes
  else
    let dstOffset := 8 * nbytes - bitwidth
    if bitOffset = dstOffset then List.range nbytes
    else if bitOffset > dstOffset then  -- shift left
      (List.range (nbytes - 1)).flatMap (fun i => [i, i + 1]) ++ [nbytes - 1] ++
        if bitOffset + bitwidth > 8 * nbytes then [nbytes - 1 + 1] else []
    else  -- shift right
      0 :: (List.range' 1 (nbytes - 1)).flatMap fun i => [i - 1, i]

variable {data : List Byte} {o w : ℕ}

/-- The bytes that are read decide what is written. -/
theorem genericExtract_congr_data {data' dst : List Byte}
    (h : ∀ i ∈ genericExtractReads o w, byteAt data i = byteAt data' i) :
    genericExtract data o w dst = genericExtract data' o w dst := by
  unfold genericExtractReads at h
  unfold genericExtract
  dsimp only at h ⊢
  split_ifs at h ⊢ with hbytes haligned hleft hover
  · exact writeBytes_congr _ fun i _ hi => h i (List.mem_range.mpr hi)
  · rw [writeBytes_congr _ fun i _ hi => h i (List.mem_range.mpr hi)]
  · have hloop : ∀ i < (w + 7) / 8 - 1, byteAt data i = byteAt data' i ∧
        byteAt data (i + 1) = byteAt data' (i + 1) := by
      intro i hi
      constructor <;> apply h <;> simp only [List.mem_append, List.mem_flatMap, List.mem_range] <;>
        exact .inl (.inl ⟨i, hi, by simp⟩)
    have hlast := h ((w + 7) / 8 - 1) (by simp)
    have hnext := h ((w + 7) / 8 - 1 + 1) (by simp)
    rw [writeBytes_congr _ fun i _ hi => by rw [(hloop i hi).1, (hloop i hi).2], hlast, hnext]
  · have hloop : ∀ i < (w + 7) / 8 - 1, byteAt data i = byteAt data' i ∧
        byteAt data (i + 1) = byteAt data' (i + 1) := by
      intro i hi
      constructor <;> apply h <;> simp only [List.mem_append, List.mem_flatMap, List.mem_range] <;>
        exact .inl (.inl ⟨i, hi, by simp⟩)
    have hlast := h ((w + 7) / 8 - 1) (by simp)
    rw [writeBytes_congr _ fun i _ hi => by rw [(hloop i hi).1, (hloop i hi).2], hlast]
  · have hfirst := h 0 List.mem_cons_self
    have hloop : ∀ i, 1 ≤ i → i < (w + 7) / 8 → byteAt data (i - 1) = byteAt data' (i - 1) ∧
        byteAt data i = byteAt data' i := by
      intro i hlo hi
      constructor <;> apply h <;> apply List.mem_cons_of_mem <;> rw [List.mem_flatMap] <;>
        exact ⟨i, List.mem_range'_1.mpr (by omega), by simp⟩
    rw [hfirst, writeBytes_congr _ fun i hlo hi => by rw [(hloop i hlo hi).1, (hloop i hlo hi).2]]

/-- No byte is read behind the one with the last bit of the field. -/
theorem genericExtractReads_le (hw : 0 < w) {i : ℕ} (hi : i ∈ genericExtractReads o w) :
    i ≤ (o + w - 1) / 8 := by
  unfold genericExtractReads at hi
  dsimp only at hi
  split_ifs at hi with hbytes haligned hleft hover
  · have := List.mem_range.mp hi
    omega
  · have := List.mem_range.mp hi
    omega
  · simp only [List.mem_append, List.mem_flatMap, List.mem_range, List.mem_cons,
      List.not_mem_nil, or_false] at hi
    omega
  · omega
  · simp only [List.mem_cons, List.mem_flatMap, List.mem_range'_1, List.not_mem_nil,
      or_false] at hi
    omega

/-- The bits before a field of less than a byte that go along with it, when the field goes over
the end of its first byte. -/
def NoneBefore (data : List Byte) (o w : ℕ) : Prop :=
  w ≤ 8 → 8 < o % 8 + w → slice data (o + w - 8) (8 - w) = 0

instance (data : List Byte) (o w : ℕ) : Decidable (NoneBefore data o w) :=
  inferInstanceAs (Decidable (_ → _ → _))

/-- The bits above the field are clear exactly when nothing goes along with it. -/
theorem leading_genericExtract_iff {dst : List Byte} (hdst : dst.length = (w + 7) / 8) (hw : 0 < w)
    (ho : o < 8) (hlen : o + w ≤ 8 * data.length) :
    (∀ k < padding w, bitAt (genericExtract data o w dst) k = false) ↔ NoneBefore data o w := by
  have hadd := padding_add w
  unfold NoneBefore
  rw [Nat.mod_eq_of_lt ho]
  constructor
  · intro h hsmall hover
    rw [slice_eq_zero_iff (by omega)]
    intro j hj hoj
    have hk := h (j + padding w - o) (by omega)
    rw [bitAt_genericExtract hdst hw ho (by omega), decide_eq_true (by omega), Bool.true_and,
      show o + (j + padding w - o) - padding w = j by omega] at hk
    exact hk
  · intro h k hk
    rw [bitAt_genericExtract hdst hw ho (by omega)]
    by_cases hmove : w ≤ 8 ∧ padding w < o
    · have hzero := (slice_eq_zero_iff (by omega)).mp (h hmove.1 (by omega))
      rw [hzero (o + k - padding w) (by omega) (by omega), Bool.and_false]
    · rw [decide_eq_false (by omega), Bool.false_and]

theorem value_genericExtract_lt_iff {dst : List Byte} (hdst : dst.length = (w + 7) / 8)
    (hw : 0 < w) (ho : o < 8) (hlen : o + w ≤ 8 * data.length) :
    value (genericExtract data o w dst) < 2 ^ w ↔ NoneBefore data o w := by
  rw [← leading_genericExtract_iff hdst hw ho hlen, value_lt_iff (by simp; omega),
    length_genericExtract, hdst]
  rfl

/-- With nothing before it, a field is extracted as its number. -/
theorem genericExtract_eq_iff {dst : List Byte} (hdst : dst.length = (w + 7) / 8) (hw : 0 < w)
    (ho : o < 8) (hlen : o + w ≤ 8 * data.length) :
    genericExtract data o w dst = ofValue ((w + 7) / 8) (slice data o w) ↔
      NoneBefore data o w := by
  have hadd := padding_add w
  have hout : (genericExtract data o w dst).length = (ofValue ((w + 7) / 8)
      (slice data o w)).length := by
    rw [length_genericExtract, length_ofValue, hdst]
  have hlead : ∀ k < padding w, bitAt (ofValue ((w + 7) / 8) (slice data o w)) k = false := by
    intro k hk
    rw [bitAt_ofValue _ _ (by omega)]
    exact Nat.testBit_lt_two_pow
      ((slice_lt data o w).trans_le (Nat.pow_le_pow_right (by decide) (by omega)))
  rw [eq_iff_bitAt hout, length_genericExtract, hdst, ← leading_genericExtract_iff hdst hw ho hlen]
  constructor
  · intro h k hk
    rw [h k (by omega), hlead k hk]
  · intro h k hk
    by_cases hpk : padding w ≤ k
    · rw [bitAt_genericExtract hdst hw ho hk, bitAt_ofValue _ _ hk, testBit_slice hlen (by omega),
        decide_eq_true (.inl hpk), Bool.true_and]
      congr 1
      omega
    · rw [h k (by omega), hlead k (by omega)]

namespace Field

variable {f f' : Field}

theorem Made.extract (h : f.Made) (hext : f.extract data o = some f') :
    f'.Made ∧ f'.nbits = f.nbits ∧ f'.isSigned = f.isSigned ∧ f'.arith = f.arith := by
  unfold Field.extract at hext
  split_ifs at hext with hlen
  have hbytes : Made { f with bytes := genericExtract data o f.nbits f.bytes } :=
    ⟨⟨h.pos, h.nbytes_eq, by simpa using h.length_bytes⟩, h.one_lt_of_signed, h.mask_eq, h.max_eq,
      h.min_eq⟩
  obtain rfl := Option.some.inj hext
  split_ifs
  · exact ⟨hbytes.syncValue, rfl, rfl, rfl⟩
  · exact ⟨hbytes, rfl, rfl, rfl⟩

/-- Extracting a field whose number is kept. -/
theorem extract_of_arith (harith : f.arith) (hlen : o + f.nbits ≤ 8 * data.length) :
    f.extract data o =
      some { f with bytes := genericExtract data o f.nbits f.bytes }.syncValue := by
  rw [extract, if_pos hlen]
  exact congrArg some (if_pos harith)

/-- What is extracted is right exactly when no bits before the field go along with it. -/
theorem Made.agrees_extract_iff (h : f.Made) (harith : f.arith) (ho : o < 8)
    (hext : f.extract data o = some f') : f'.Agrees ↔ NoneBefore data o f.nbits := by
  have hlen := size_le_of_extract hext
  rw [extract_of_arith harith hlen] at hext
  obtain rfl := Option.some.inj hext
  have hbytes : Made { f with bytes := genericExtract data o f.nbits f.bytes } :=
    ⟨⟨h.pos, h.nbytes_eq, by simpa using h.length_bytes⟩, h.one_lt_of_signed, h.mask_eq, h.max_eq,
      h.min_eq⟩
  have hdst : f.bytes.length = (f.nbits + 7) / 8 := h.length_bytes.trans h.nbytes_eq
  rw [hbytes.agrees_syncValue_iff]
  exact value_genericExtract_lt_iff hdst h.pos ho hlen

end Field

theorem noneBefore_drop {pkt : List Byte} {offset : ℕ} (h : offset + w ≤ 8 * pkt.length) :
    NoneBefore (pkt.drop (offset / 8)) (offset % 8) w ↔ NoneBefore pkt offset w := by
  unfold NoneBefore
  rw [Nat.mod_mod]
  have hslice : w ≤ 8 → 8 < offset % 8 + w →
      slice (pkt.drop (offset / 8)) (offset % 8 + w - 8) (8 - w) =
        slice pkt (offset + w - 8) (8 - w) := by
    intro hsmall hover
    rw [slice_drop (by omega)]
    congr 1
    omega
  constructor
  · exact fun hnone hsmall hover => hslice hsmall hover ▸ hnone hsmall hover
  · exact fun hnone hsmall hover => (hslice hsmall hover).symm ▸ hnone hsmall hover

/-- A field that is modified reads as it has been made. -/
theorem PHV.exists_modifyField {phv : PHV} {dst : FieldRef} {g : Field → Option Field}
    {f f' : Field} (hget : phv.getField dst.header dst.offset = some f) (hf : g f = some f') :
    ∃ phv', phv.modifyField dst g = some phv' ∧
      phv'.getField dst.header dst.offset = some f' := by
  obtain ⟨h, hh, hfield⟩ := Option.bind_eq_some_iff.mp hget
  have hheader : dst.header < phv.headers.length := (List.getElem?_eq_some_iff.mp hh).1
  have hoffset : dst.offset < h.fields.length := (List.getElem?_eq_some_iff.mp hfield).1
  refine ⟨phv.setHeader dst.header { h with fields := h.fields.set dst.offset f' }, ?_, ?_⟩
  · simp [PHV.modifyField, hh, hfield, hf]
  · simp [PHV.getField, PHV.setHeader, hheader, hoffset]

theorem ParserOp.exec_setFromLookahead (cast : BignumCast) (registerArrays : List (List ℤ))
    {phv : PHV} {dst : FieldRef} (la : ParserLookAhead) {f f' : Field} {pkt : List Byte}
    (hget : phv.getField dst.header dst.offset = some f)
    (hf : (if la.bitwidth = f.nbits then f.extract (pkt.drop la.byteOffset) la.bitOffset
      else (la.peek pkt).map fun bytes => f.set (value bytes)) = some f') :
    ∃ phv', (ParserOp.setFromLookahead dst la).exec cast registerArrays phv pkt = some (phv', 0) ∧
      phv'.getField dst.header dst.offset = some f' := by
  obtain ⟨phv', hset, hget'⟩ := PHV.exists_modifyField (g := fun f =>
    if la.bitwidth = f.nbits then f.extract (pkt.drop la.byteOffset) la.bitOffset
    else (la.peek pkt).map fun bytes => f.set (value bytes)) hget hf
  refine ⟨phv', ?_, hget'⟩
  simp only [ParserOp.exec, hset, Option.bind_eq_bind, Option.bind_some]

/-- The bit field of a packet (the rest of it that a parse state sees) from bit `offset` on is
extracted as the number in these bits: into bytes of its own, whatever they held, into a field,
by a lookahead, and by a parser that sets a field to a lookahead. -/
structure ExtractsSlice (pkt : List Byte) (offset w : ℕ) : Prop where
  genericExtract : ∀ dst : List Byte, dst.length = (w + 7) / 8 →
    genericExtract (pkt.drop (offset / 8)) (offset % 8) w dst =
      ofValue ((w + 7) / 8) (slice pkt offset w)
  reads : ∀ i ∈ genericExtractReads (offset % 8) w, i ≤ (offset % 8 + w - 1) / 8
  readsOnly : ∀ dst data' : List Byte,
    (∀ i ∈ genericExtractReads (offset % 8) w,
      byteAt (pkt.drop (offset / 8)) i = byteAt data' i) →
    Bmv2.genericExtract data' (offset % 8) w dst =
      Bmv2.genericExtract (pkt.drop (offset / 8)) (offset % 8) w dst
  extract : ∀ f : Field, f.Made → f.isSigned = false → f.nbits = w →
    ∃ f', f.extract (pkt.drop (offset / 8)) (offset % 8) = some f' ∧
      f'.bytes = ofValue f.nbytes (slice pkt offset w) ∧
      (f.arith → f'.value = slice pkt offset w)
  peek : (ParserLookAhead.ofOffset offset w).peek pkt =
    some (ofValue ((w + 7) / 8) (slice pkt offset w))
  setFromLookahead : ∀ (cast : BignumCast) (registerArrays : List (List ℤ)) (phv : PHV)
    (dst : FieldRef) (f : Field), phv.getField dst.header dst.offset = some f → f.Made →
    f.isSigned = false →
    ∃ phv' f', (ParserOp.setFromLookahead dst (.ofOffset offset w)).exec cast registerArrays phv
        pkt = some (phv', 0) ∧
      phv'.getField dst.header dst.offset = some f' ∧
      f'.bytes = ofValue f.nbytes (slice pkt offset w % 2 ^ f.nbits) ∧
      (f.arith → f'.value = ((slice pkt offset w % 2 ^ f.nbits : ℕ) : ℤ))

theorem slice_lt_bytes (pkt : List Byte) (offset w : ℕ) :
    slice pkt offset w < 2 ^ (8 * ((w + 7) / 8)) :=
  (slice_lt _ _ _).trans_le (Nat.pow_le_pow_right (by decide) (by omega))

/-- An unsigned field that is given the bytes of a number holds the number. -/
theorem Field.extract_unsigned {f : Field} (hs : f.isSigned = false) {n : ℕ}
    (hlen : o + f.nbits ≤ 8 * data.length) (hn : n < 2 ^ (8 * ((f.nbits + 7) / 8)))
    (hbytes : Bmv2.genericExtract data o f.nbits f.bytes = ofValue ((f.nbits + 7) / 8) n) :
    f.extract data o = some { f with
      bytes := ofValue ((f.nbits + 7) / 8) n
      value := if f.arith then n else f.value } := by
  have hvalue : value (ofValue ((f.nbits + 7) / 8) n) = n := by
    rw [value_ofValue, Nat.mod_eq_of_lt hn]
  unfold Field.extract Field.syncValue
  rw [if_pos hlen, hbytes]
  simp only [hs, hvalue, Bool.false_eq_true, false_and, ↓reduceIte]
  by_cases harith : f.arith = true
  · rw [if_pos harith, if_pos harith]
  · rw [if_neg harith, if_neg harith]

/-- An unsigned field that is set to a number holds it modulo its width. -/
theorem Field.Made.set_natCast {f : Field} (h : f.Made) (hs : f.isSigned = false) (n : ℕ) :
    (f.set n).bytes = ofValue f.nbytes (n % 2 ^ f.nbits) ∧
      (f.set n).value = ((n % 2 ^ f.nbits : ℕ) : ℤ) := by
  have hcast : ((n : ℤ) % 2 ^ f.nbits) = ((n % 2 ^ f.nbits : ℕ) : ℤ) := by push_cast; rfl
  rw [h.typed.set_eq, hcast]
  exact ⟨rfl, if_neg (by rw [hs]; exact Bool.false_ne_true)⟩

/-- Whether a bit field is extracted as its number depends on the bits before it. -/
theorem extractsSlice_iff (pkt : List Byte) (offset w : ℕ) (hw : 0 < w)
    (hlen : offset + w ≤ 8 * pkt.length) :
    ExtractsSlice pkt offset w ↔ NoneBefore pkt offset w := by
  have ho : offset % 8 < 8 := Nat.mod_lt _ (by decide)
  have hrest : offset % 8 + w ≤ 8 * (pkt.drop (offset / 8)).length := by
    rw [List.length_drop]
    omega
  have hslice : slice (pkt.drop (offset / 8)) (offset % 8) w = slice pkt offset w := by
    rw [slice_drop (by omega), Nat.div_add_mod]
  have hgeneric : ∀ {dst : List Byte}, dst.length = (w + 7) / 8 →
      (genericExtract (pkt.drop (offset / 8)) (offset % 8) w dst =
        ofValue ((w + 7) / 8) (slice pkt offset w) ↔ NoneBefore pkt offset w) := by
    intro dst hdst
    rw [← hslice, genericExtract_eq_iff hdst hw ho hrest, noneBefore_drop hlen]
  constructor
  · intro h
    exact (hgeneric List.length_replicate).mp
      (h.genericExtract (List.replicate _ 0) List.length_replicate)
  intro hnone
  have hextract : ∀ f : Field, f.Made → f.isSigned = false → f.nbits = w →
      ∃ f', f.extract (pkt.drop (offset / 8)) (offset % 8) = some f' ∧
        f'.bytes = ofValue f.nbytes (slice pkt offset w) ∧
        (f.arith → f'.value = slice pkt offset w) := by
    intro f hf hs hnbits
    subst hnbits
    have hext := Field.extract_unsigned hs hrest (slice_lt_bytes _ _ _)
      ((hgeneric (hf.length_bytes.trans hf.nbytes_eq)).mpr hnone)
    exact ⟨_, hext, by rw [hf.nbytes_eq], fun harith => if_pos harith⟩
  have hpeek : (ParserLookAhead.ofOffset offset w).peek pkt =
      some (ofValue ((w + 7) / 8) (slice pkt offset w)) :=
    (if_pos hrest).trans (congrArg some ((hgeneric List.length_replicate).mpr hnone))
  refine ⟨fun dst hdst => (hgeneric hdst).mpr hnone, fun i hi => genericExtractReads_le hw hi,
    fun dst data' hsame => (genericExtract_congr_data hsame).symm, hextract, hpeek, ?_⟩
  intro cast registerArrays phv dst f hget hf hs
  by_cases hwidth : w = f.nbits
  · -- the field extracts the bits itself
    obtain ⟨f', hext, hbytes, hvalue⟩ := hextract f hf hs hwidth.symm
    obtain ⟨phv', hexec, hget'⟩ := ParserOp.exec_setFromLookahead cast registerArrays
      (.ofOffset offset w) hget ((if_pos hwidth).trans hext)
    have hmod : slice pkt offset w % 2 ^ f.nbits = slice pkt offset w :=
      Nat.mod_eq_of_lt (hwidth ▸ slice_lt _ _ _)
    exact ⟨phv', f', hexec, hget', by rw [hmod, hbytes], by rwa [hmod]⟩
  · -- the bits go through a buffer
    have hset : ((ParserLookAhead.ofOffset offset w).peek pkt).map
        (fun bytes => f.set (value bytes)) = some (f.set (slice pkt offset w)) := by
      rw [hpeek, Option.map_some, value_ofValue, Nat.mod_eq_of_lt (slice_lt_bytes _ _ _)]
    obtain ⟨phv', hexec, hget'⟩ := ParserOp.exec_setFromLookahead cast registerArrays
      (.ofOffset offset w) hget ((if_neg hwidth).trans hset)
    obtain ⟨hbytes, hvalue⟩ := hf.set_natCast hs (slice pkt offset w)
    exact ⟨phv', _, hexec, hget', hbytes, fun _ => hvalue⟩

theorem extractsSlice_clear : ExtractsSlice [0x05, 0x80] 5 4 :=
  (extractsSlice_iff [0x05, 0x80] 5 4 (by decide) (by decide)).mpr (by decide)

/-- Four bits that go over the end of a byte take the four bits before them along. -/
theorem not_extractsSlice_before : ¬ ExtractsSlice [0xff, 0xff] 5 4 := by
  intro h
  have hbytes := h.genericExtract [0] rfl
  revert hbytes
  decide

end Bmv2
