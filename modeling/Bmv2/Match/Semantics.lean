import Bmv2.Lib.BigEndian
import Bmv2.Match.PacketKey
import Bmv2.Match.RoundTrip

/-! What it means for a packet to match an entry: the bytes that the two sides of a match unit
compare, and the fields of the key each on its own terms. -/
namespace Bmv2
open ByteBits Blocks

theorem nbits_le (nbits : ℕ) : nbits ≤ 8 * nbitsToNbytes nbits := by
  rw [nbitsToNbytes]
  omega

private theorem getMsbD_getByte0Mask : ∀ r < 8, ∀ k < 8,
    (getByte0Mask r).getMsbD k = decide (r = 0 ∨ 8 - r ≤ k) := by
  decide

theorem getByte0Mask_mod (nbits : ℕ) : getByte0Mask nbits = getByte0Mask (nbits % 8) := by
  rw [getByte0Mask, getByte0Mask, Nat.mod_mod]

theorem bitAt_maskFirst {key : List Byte} {nbits : ℕ} (hkey : key.length = nbitsToNbytes nbits)
    {i : ℕ} (hi : i < 8 * key.length) :
    bitAt (maskFirst key nbits) i = (decide (8 * key.length - nbits ≤ i) && bitAt key i) := by
  cases key with
  | nil => simp at hi
  | cons b key =>
    have hlen : (b :: key).length = nbitsToNbytes nbits := hkey
    rw [nbitsToNbytes] at hlen
    rw [maskFirst, List.modifyHead_cons, bitAt_cons, bitAt_cons]
    by_cases h8 : i < 8
    · rw [if_pos h8, if_pos h8, BitVec.getMsbD_and, getByte0Mask_mod,
        getMsbD_getByte0Mask _ (Nat.mod_lt _ (by decide)) i h8, Bool.and_comm]
      congr 1
      apply decide_eq_decide.mpr
      omega
    · rw [if_neg h8, if_neg h8]
      have : 8 * (b :: key).length - nbits ≤ i := by omega
      rw [decide_eq_true this, Bool.true_and]

/-- Clearing the unused bits reduces the number modulo `2 ^ nbits`. -/
theorem value_maskFirst {key : List Byte} {nbits : ℕ} (hkey : key.length = nbitsToNbytes nbits) :
    value (maskFirst key nbits) = value key % 2 ^ nbits := by
  have hle := nbits_le nbits
  apply Nat.eq_of_testBit_eq
  intro j
  rw [Nat.testBit_mod_two_pow]
  by_cases hj : j < 8 * key.length
  · rw [testBit_value _ (by simpa using hj), testBit_value _ hj, length_maskFirst,
      bitAt_maskFirst hkey (by omega)]
    congr 1
    apply decide_eq_decide.mpr
    omega
  · rw [testBit_value_of_le _ (by simpa using Nat.not_lt.mp hj), testBit_value_of_le _ (by omega),
      Bool.and_false]

theorem value_replicate_ones (n : ℕ) : value (List.replicate n 0xff) = 2 ^ (8 * n) - 1 := by
  apply Nat.eq_of_testBit_eq
  intro j
  rw [Nat.testBit_two_pow_sub_one]
  by_cases hj : j < 8 * n
  · rw [testBit_value _ (by simpa using hj), List.length_replicate, bitAt,
      List.getD_eq_getElem _ _ (by simp; omega), List.getElem_replicate, decide_eq_true hj]
    have hones : ∀ k < 8, (0xff : Byte).getMsbD k = true := by decide
    exact hones _ (Nat.mod_lt _ (by decide))
  · rw [testBit_value_of_le _ (by simpa using Nat.not_lt.mp hj), decide_eq_false hj]

private theorem getMsbD_shifted : ∀ r < 8, ∀ k < 8,
    ((0xff : Byte) <<< (8 - r)).getMsbD k = decide (k < r) := by
  decide

theorem bitAt_createMask {p size i : ℕ} (hp : p ≤ 8 * size) :
    bitAt (createMaskFromPrefLen p size) i = decide (i < p) := by
  have hones : ∀ k < 8, (0xff : Byte).getMsbD k = true := by decide
  have hk : i % 8 < 8 := Nat.mod_lt _ (by decide)
  rw [createMaskFromPrefLen_eq hp, bitAt]
  by_cases hlow : i / 8 < p / 8
  · rw [List.getD_append _ _ _ _ (by simpa using hlow),
      List.getD_eq_getElem _ _ (by simpa using hlow), List.getElem_replicate, hones _ hk,
      decide_eq_true (by omega)]
  rw [List.getD_append_right _ _ _ _ (by simpa using Nat.not_lt.mp hlow), List.length_replicate]
  by_cases h0 : p % 8 = 0
  · have hzero : (List.replicate (size - p / 8) (0 : Byte)).getD (i / 8 - p / 8) 0 = 0 := by
      simp [List.getD, List.getElem?_replicate]
      split_ifs <;> rfl
    rw [if_pos h0, hzero, decide_eq_false (by omega)]
    simp
  · rw [if_neg h0]
    by_cases heq : i / 8 = p / 8
    · rw [heq, Nat.sub_self, List.getD_cons_zero, getMsbD_shifted _ (Nat.mod_lt _ (by decide)) _ hk]
      apply decide_eq_decide.mpr
      omega
    · obtain ⟨d, hd⟩ : ∃ d, i / 8 - p / 8 = d + 1 := ⟨i / 8 - p / 8 - 1, by omega⟩
      have hzero : (List.replicate (size - p / 8 - 1) (0 : Byte)).getD d 0 = 0 := by
        simp [List.getD, List.getElem?_replicate]
        split_ifs <;> rfl
      rw [hd, List.getD_cons_succ, hzero, decide_eq_false (by omega)]
      simp

namespace MatchKeyBuilder

variable {kb : MatchKeyBuilder} {params : List MatchKeyParam} {phv : PHV}

/-- A packet has the field of a key: of the key's width, with zero padding bits. -/
def FieldFits (phv : PHV) (f : KeyF) : Prop :=
  ∃ header, phv.headers[f.header]? = some header ∧ (f.mtype ≠ .valid →
    ∃ field : Field, header.fields[f.fOffset]? = some field ∧
      field.nbytes = nbitsToNbytes f.nbits ∧ field.bytes.length = nbitsToNbytes f.nbits ∧
      value field.bytes < 2 ^ f.nbits)

/-- A packet has every field of the key. -/
def Fits (kb : MatchKeyBuilder) (phv : PHV) : Prop :=
  ∀ i < kb.keyInput.length, FieldFits phv (kb.field i)

def headerValid (phv : PHV) (header : ℕ) : Bool :=
  (phv.headers[header]?).elim false Header.isValid

/-- The number in the packet's field; it is zero if the header is not valid. -/
def packetNumber (phv : PHV) (f : KeyF) : ℕ :=
  if headerValid phv f.header then (phv.getField f.header f.fOffset).elim 0 fun x => value x.bytes
  else 0

/-- A field's own mask; all ones if it was pushed without one. -/
def maskNumber (kb : MatchKeyBuilder) (i : ℕ) : ℕ := value (kb.masks.getD i [])

/-- The packet's number in a field, reduced to the field's width and under its mask. -/
def packetSide (kb : MatchKeyBuilder) (phv : PHV) (i : ℕ) : ℕ :=
  packetNumber phv (kb.field i) % 2 ^ (kb.field i).nbits &&& kb.maskNumber i

/-- The entry's number, likewise. -/
def entrySide (kb : MatchKeyBuilder) (params : List MatchKeyParam) (i : ℕ) : ℕ :=
  value (param params i).key % 2 ^ (kb.field i).nbits &&& kb.maskNumber i

/-- The field matches on its own terms. -/
def FieldMatches (kb : MatchKeyBuilder) (params : List MatchKeyParam) (phv : PHV) (i : ℕ) : Prop :=
  let x := kb.packetSide phv i
  let y := kb.entrySide params i
  match (kb.field i).mtype with
  | .valid => headerValid phv (kb.field i).header = decide ((param params i).key = [1])
  | .exact => x = y
  | .lpm =>
    let low := (kb.field i).nbits - (param params i).prefixLength.toNat
    x / 2 ^ low = y / 2 ^ low
  | .ternary => x &&& value (param params i).mask = y &&& value (param params i).mask

instance (i : ℕ) : Decidable (kb.FieldMatches params phv i) := by
  unfold FieldMatches
  split <;> infer_instance

/-- The bits that fill up the first byte of a field. -/
def paddingBits (nbits : ℕ) : ℕ := 8 * nbitsToNbytes nbits - nbits

/-- The sides agree in the bits of an LPM field that are compared: the prefix is counted from
the padding on, so that its last bits are not among them. -/
def TopAgrees (kb : MatchKeyBuilder) (params : List MatchKeyParam) (phv : PHV) (i : ℕ) : Prop :=
  let low := 8 * nbitsToNbytes (kb.field i).nbits - (param params i).prefixLength.toNat
  kb.packetSide phv i / 2 ^ low = kb.entrySide params i / 2 ^ low

/-- The sides agree in the last bits of the prefix, as many as there are padding bits. -/
def TailAgrees (kb : MatchKeyBuilder) (params : List MatchKeyParam) (phv : PHV) (i : ℕ) : Prop :=
  let low := (kb.field i).nbits - (param params i).prefixLength.toNat
  kb.packetSide phv i / 2 ^ low % 2 ^ paddingBits (kb.field i).nbits =
    kb.entrySide params i / 2 ^ low % 2 ^ paddingBits (kb.field i).nbits

instance (i : ℕ) : Decidable (kb.TailAgrees params phv i) := inferInstanceAs (Decidable (_ = _))

/-- What the units compare of a field. -/
def Compared (kb : MatchKeyBuilder) (params : List MatchKeyParam) (phv : PHV) (i : ℕ) : Prop :=
  if (kb.field i).mtype = .lpm then kb.TopAgrees params phv i else kb.FieldMatches params phv i

theorem div_two_pow_eq_iff {x y a b : ℕ} :
    x / 2 ^ a = y / 2 ^ a ↔
      x / 2 ^ (a + b) = y / 2 ^ (a + b) ∧ x / 2 ^ a % 2 ^ b = y / 2 ^ a % 2 ^ b := by
  rw [pow_add, ← Nat.div_div_eq_div_mul, ← Nat.div_div_eq_div_mul]
  constructor
  · intro h
    rw [h]
    exact ⟨rfl, rfl⟩
  · rintro ⟨hdiv, hmod⟩
    rw [← Nat.div_add_mod (x / 2 ^ a) (2 ^ b), hdiv, hmod, Nat.div_add_mod]

/-- An LPM field matches if the sides agree in the compared bits and in the rest. -/
theorem fieldMatches_lpm {i : ℕ} (ht : (kb.field i).mtype = .lpm)
    (hp : (param params i).prefixLength ≤ (kb.field i).nbits) :
    kb.FieldMatches params phv i ↔ kb.TopAgrees params phv i ∧ kb.TailAgrees params phv i := by
  have hle := nbits_le (kb.field i).nbits
  have hlow : 8 * nbitsToNbytes (kb.field i).nbits - (param params i).prefixLength.toNat =
      (kb.field i).nbits - (param params i).prefixLength.toNat +
        paddingBits (kb.field i).nbits := by
    rw [paddingBits]
    omega
  simp only [FieldMatches, ht, TopAgrees, TailAgrees, hlow]
  exact div_two_pow_eq_iff

/-- Where no field was pushed with a mask, there are none but ones. -/
theorem Filled.masks (h : Filled kb) (hbig : kb.hasBigMask = false) :
    kb.masks = kb.keyInput.map fun f => List.replicate (nbitsToNbytes f.nbits) 0xff := by
  induction h with
  | empty => rfl
  | field header fOffset nbits mtype _ ih =>
    simp only [pushBackField, pushBack, ih hbig, List.map_append, List.map_cons, List.map_nil]
  | maskedField _ hpush _ =>
    rw [pushBackMaskedField] at hpush
    split_ifs at hpush
    obtain rfl := Option.some.inj hpush
    exact absurd hbig (by simp)
  | validHeader header _ ih =>
    simp only [pushBackValidHeader, pushBack, ih hbig, List.map_append, List.map_cons, List.map_nil]
    rfl

/-- What the push functions make of the masks: a validity bit takes a whole byte. -/
theorem Pushed.masks (h : Pushed kb) :
    List.Forall₂ (fun f (mask : List Byte) => f.mtype = .valid → mask = [0xff])
      kb.keyInput kb.masks := by
  induction h with
  | empty => exact .nil
  | field header fOffset mtype _ _ htype ih =>
    exact List.rel_append ih (.cons (fun ht => absurd ht htype) .nil)
  | maskedField _ _ htype hpush ih =>
    rw [pushBackMaskedField] at hpush
    split_ifs at hpush
    obtain rfl := Option.some.inj hpush
    exact List.rel_append ih (.cons (fun ht => absurd ht htype) .nil)
  | validHeader header _ ih => exact List.rel_append ih (.cons (fun _ => rfl) .nil)

theorem Pushed.mask_valid (h : Pushed kb) {i : ℕ} (hi : i < kb.keyInput.length)
    (ht : (kb.field i).mtype = .valid) : kb.masks.getD i [] = [0xff] := by
  have hlen := h.unbuilt.masks.length_eq
  have := h.masks.get hi (hlen ▸ hi)
  rw [MatchKeyBuilder.field, List.getD_eq_getElem _ _ hi] at ht
  rw [List.getD_eq_getElem _ _ (hlen ▸ hi)]
  exact this ht

/-- The mask of the whole key applies to each field its own mask. -/
theorem Filled.applyBigMask (h : Filled kb) {g : ℕ → List Byte}
    (hg : ∀ i < kb.keyInput.length, (g i).length = nbitsToNbytes (kb.field i).nbits) :
    kb.build.applyBigMask (kb.order.map g).flatten =
      some (kb.order.map fun i => List.zipWith (· &&& ·) (g i) (kb.masks.getD i [])).flatten := by
  have hu := h.sized
  have hblocks : ∀ i ∈ kb.order, (g i).length = (kb.masks.getD i []).length := by
    intro i hi
    rw [hg i (mem_order.mp hi), hu.length_mask (mem_order.mp hi)]
  rw [MatchKeyBuilder.applyBigMask, hu.build_hasBigMask, hu.build_bigMask]
  cases hbig : kb.hasBigMask with
  | true =>
    have hlen : (kb.order.map g).flatten.length =
        (kb.order.map fun i => kb.masks.getD i []).flatten.length := by
      rw [length_flatten_map, length_flatten_map]
      exact congrArg List.sum (List.map_congr_left hblocks)
    simp only [↓reduceIte, applyMask, hlen, zipWith_flatten_map _ _ hblocks]
  | false =>
    have hones : kb.order.map g = kb.order.map fun i =>
        List.zipWith (· &&& ·) (g i) (kb.masks.getD i []) := by
      refine List.map_congr_left fun i hi => ?_
      have hi := mem_order.mp hi
      have hmask : kb.masks.getD i [] = List.replicate (g i).length 0xff := by
        rw [h.masks hbig, hg i hi, MatchKeyBuilder.field, List.getD_eq_getElem _ _ hi,
          List.getD_eq_getElem _ _ (by simpa using hi), List.getElem_map]
      rw [hmask, zipWith_and_ones]
    simp only [Bool.false_eq_true, ↓reduceIte]
    rw [← hones]

/-- The bytes that a packet has in a field of the key. -/
def packetBlock (kb : MatchKeyBuilder) (phv : PHV) (i : ℕ) : List Byte :=
  (packetField phv (kb.field i)).getD []

theorem Fits.packetField (h : Fits kb phv) {i : ℕ} (hi : i < kb.keyInput.length) :
    packetField phv (kb.field i) = some (kb.packetBlock phv i) := by
  obtain ⟨header, hheader, hfield⟩ := h i hi
  rw [packetBlock, MatchKeyBuilder.packetField, hheader]
  by_cases ht : (kb.field i).mtype = .valid
  · simp [ht]
  · obtain ⟨field, hget, -⟩ := hfield ht
    simp [ht, hget]

theorem Fits.length_packetBlock (h : Fits kb phv) (hu : Unbuilt kb) {i : ℕ}
    (hi : i < kb.keyInput.length) :
    (kb.packetBlock phv i).length = nbitsToNbytes (kb.field i).nbits := by
  obtain ⟨header, hheader, hfield⟩ := h i hi
  rw [packetBlock, MatchKeyBuilder.packetField, hheader]
  by_cases ht : (kb.field i).mtype = .valid
  · have := hu.valid_nbits _ (Unbuilt.field_mem hi) ht
    simp [ht, this, nbitsToNbytes]
  · obtain ⟨field, hget, hbytes, hlen, -⟩ := hfield ht
    simp only [Option.bind_eq_bind, Option.bind_some, ht, ↓reduceIte, hget, Option.getD_some]
    split_ifs
    · exact hlen
    · rw [List.length_replicate, hbytes]

/-- A packet has every field of the key, in the field's width. -/
def HasKey (kb : MatchKeyBuilder) (phv : PHV) : Prop :=
  ∀ i < kb.keyInput.length, ∃ bytes, packetField phv (kb.field i) = some bytes ∧
    bytes.length = nbitsToNbytes (kb.field i).nbits

theorem HasKey.packetField (h : HasKey kb phv) {i : ℕ} (hi : i < kb.keyInput.length) :
    packetField phv (kb.field i) = some (kb.packetBlock phv i) := by
  obtain ⟨bytes, hbytes, -⟩ := h i hi
  rw [packetBlock, hbytes, Option.getD_some]

theorem HasKey.length_packetBlock (h : HasKey kb phv) {i : ℕ} (hi : i < kb.keyInput.length) :
    (kb.packetBlock phv i).length = nbitsToNbytes (kb.field i).nbits := by
  obtain ⟨bytes, hbytes, hlen⟩ := h i hi
  rw [packetBlock, hbytes, Option.getD_some, hlen]

/-- The key of a packet, field by field in implementation order. -/
theorem HasKey.packetKey (h : HasKey kb phv) (hkb : Filled kb) :
    kb.build.packetKey phv = some (kb.order.map fun i =>
      List.zipWith (· &&& ·) (kb.packetBlock phv i) (kb.masks.getD i [])).flatten := by
  have hfields : (kb.order.map kb.field).mapM (MatchKeyBuilder.packetField phv) =
      some (kb.order.map (kb.packetBlock phv)) := by
    rw [List.mapM_map]
    exact mapM_of_forall fun i hi => h.packetField (mem_order.mp hi)
  rw [MatchKeyBuilder.packetKey, hkb.sized.build_keyInput, hfields]
  exact hkb.applyBigMask fun i hi => h.length_packetBlock hi

theorem Fits.packetKey (h : Fits kb phv) (hkb : Pushed kb) :
    kb.build.packetKey phv = some (kb.order.map fun i =>
      List.zipWith (· &&& ·) (kb.packetBlock phv i) (kb.masks.getD i [])).flatten := by
  have hkey : HasKey kb phv := fun i hi =>
    ⟨_, h.packetField hi, h.length_packetBlock hkb.unbuilt hi⟩
  exact hkey.packetKey hkb.filled

/-- A field's bytes of a packet's key. -/
def packetBytes (kb : MatchKeyBuilder) (phv : PHV) (i : ℕ) : List Byte :=
  List.zipWith (· &&& ·) (kb.packetBlock phv i) (kb.masks.getD i [])

/-- A field's bytes of an entry, before the entry's own mask. -/
def entryBytes (kb : MatchKeyBuilder) (params : List MatchKeyParam) (i : ℕ) : List Byte :=
  List.zipWith (· &&& ·) (kb.keyBlock params i) (kb.masks.getD i [])

/-- A packet, a key layout and accepted parameters. -/
structure Setting (kb : MatchKeyBuilder) (params : List MatchKeyParam) (phv : PHV) : Prop where
  pushed : Pushed kb
  accepted : Accepted kb params
  fits : Fits kb phv
  valid_key : ∀ i < kb.keyInput.length, (kb.field i).mtype = .valid →
    (param params i).key = [0] ∨ (param params i).key = [1]

namespace Setting

variable (h : Setting kb params phv) {i : ℕ} (hi : i < kb.keyInput.length)
include h hi

theorem length_packetBytes :
    (kb.packetBytes phv i).length = nbitsToNbytes (kb.field i).nbits := by
  rw [packetBytes, List.length_zipWith, h.fits.length_packetBlock h.pushed.unbuilt hi,
    h.pushed.unbuilt.length_mask hi, min_self]

theorem length_entryBytes :
    (kb.entryBytes params i).length = nbitsToNbytes (kb.field i).nbits := by
  rw [entryBytes, List.length_zipWith, h.accepted.length_keyBlock hi,
    h.pushed.unbuilt.length_mask hi, min_self]

theorem value_entryBytes : value (kb.entryBytes params i) = kb.entrySide params i := by
  have hlen : (kb.keyBlock params i).length = (kb.masks.getD i []).length := by
    rw [h.accepted.length_keyBlock hi, h.pushed.unbuilt.length_mask hi]
  rw [entryBytes, value_zipWith_and hlen, keyBlock, value_maskFirst (h.accepted.ok i hi).length_key]
  rfl

theorem value_packetBytes (ht : (kb.field i).mtype ≠ .valid) :
    value (kb.packetBytes phv i) = kb.packetSide phv i := by
  have hlen : (kb.packetBlock phv i).length = (kb.masks.getD i []).length := by
    rw [h.fits.length_packetBlock h.pushed.unbuilt hi, h.pushed.unbuilt.length_mask hi]
  obtain ⟨header, hheader, hfield⟩ := h.fits i hi
  obtain ⟨field, hget, -, -, hlt⟩ := hfield ht
  have hblock : value (kb.packetBlock phv i) = packetNumber phv (kb.field i) := by
    simp only [packetBlock, packetField, hheader, ht, hget, packetNumber, headerValid,
      PHV.getField, Option.bind_eq_bind, Option.bind_some, ↓reduceIte, Option.getD_some,
      Option.elim_some]
    split_ifs
    · rfl
    · exact value_replicate_zero _
  have hsmall : packetNumber phv (kb.field i) < 2 ^ (kb.field i).nbits := by
    simp only [packetNumber, headerValid, hheader, hget, PHV.getField, Option.bind_eq_bind,
      Option.bind_some, Option.elim_some]
    split_ifs
    · exact hlt
    · exact Nat.two_pow_pos _
  rw [packetBytes, value_zipWith_and hlen, hblock, packetSide, Nat.mod_eq_of_lt hsmall, maskNumber]

/-- The bytes of a validity bit or an exact field are equal if and only if the field matches. -/
theorem bytes_eq_iff (ht : (kb.field i).mtype = .valid ∨ (kb.field i).mtype = .exact) :
    kb.packetBytes phv i = kb.entryBytes params i ↔ kb.FieldMatches params phv i := by
  rcases ht with ht | ht
  · obtain ⟨header, hheader, -⟩ := h.fits i hi
    have hbits := h.pushed.unbuilt.valid_nbits _ (Unbuilt.field_mem hi) ht
    have hblock : kb.packetBlock phv i = [if header.isValid then 1 else 0] := by
      simp [packetBlock, packetField, hheader, ht]
    simp only [packetBytes, entryBytes, hblock, h.pushed.mask_valid hi ht, FieldMatches, ht,
      headerValid, hheader, Option.elim_some, keyBlock, hbits]
    rcases h.valid_key i hi ht with hkey | hkey <;> rw [hkey] <;> cases header.isValid <;> decide
  · have hne : (kb.field i).mtype ≠ .valid := by rw [ht]; decide
    have hlen := (h.length_packetBytes hi).trans (h.length_entryBytes hi).symm
    rw [← value_inj hlen, h.value_packetBytes hi hne, h.value_entryBytes hi]
    simp only [FieldMatches, ht]

/-- The leading bits of an LPM field. -/
theorem take_bits_iff (ht : (kb.field i).mtype = .lpm) :
    (bits (kb.packetBytes phv i)).take (param params i).prefixLength.toNat =
        (bits (kb.entryBytes params i)).take (param params i).prefixLength.toNat ↔
      kb.TopAgrees params phv i := by
  have hok := h.accepted.ok i hi
  obtain ⟨-, hp⟩ := hok.prefixLength (hok.type_eq.trans ht)
  have hle := nbits_le (kb.field i).nbits
  rw [take_bits_eq_iff_value (h.length_packetBytes hi) (h.length_entryBytes hi) (by omega),
    h.value_packetBytes hi (by rw [ht]; decide), h.value_entryBytes hi]
  rfl

/-- A field's bytes of a ternary entry are those of the packet under the entry's mask exactly
when the two sides agree under that mask. -/
theorem ternary_bytes_iff :
    List.zipWith (· &&& ·) (kb.ternaryBlock params i) (kb.masks.getD i []) =
        List.zipWith (· &&& ·) (kb.packetBytes phv i) (maskBlock params i) ↔
      value (kb.packetBytes phv i) &&& value (maskBlock params i) =
        value (kb.entryBytes params i) &&& value (maskBlock params i) := by
  have hu := h.pushed.unbuilt
  have hkey := h.accepted.length_keyBlock hi
  have hmask := h.accepted.length_maskBlock hu hi
  have hown := hu.length_mask hi
  have hter := h.accepted.length_ternaryBlock hu hi
  have hpkt := h.length_packetBytes hi
  have hent := h.length_entryBytes hi
  have hlen : (List.zipWith (· &&& ·) (kb.ternaryBlock params i) (kb.masks.getD i [])).length =
      (List.zipWith (· &&& ·) (kb.packetBytes phv i) (maskBlock params i)).length := by
    rw [List.length_zipWith, List.length_zipWith, hter, hown, hpkt, hmask]
  rw [← value_inj hlen, value_zipWith_and (hter.trans hown.symm), ternaryBlock,
    value_zipWith_and (hkey.trans hmask.symm), value_zipWith_and (hpkt.trans hmask.symm),
    entryBytes, value_zipWith_and (hkey.trans hown.symm), Nat.and_right_comm]
  exact eq_comm

/-- What a ternary unit compares of a field. -/
theorem ternary_iff :
    List.zipWith (· &&& ·) (kb.ternaryBlock params i) (kb.masks.getD i []) =
        List.zipWith (· &&& ·) (kb.packetBytes phv i) (maskBlock params i) ↔
      kb.Compared params phv i := by
  have hok := h.accepted.ok i hi
  have hpkt := h.length_packetBytes hi
  have hent := h.length_entryBytes hi
  rw [h.ternary_bytes_iff hi, Compared]
  -- a mask of ones leaves the bytes as they are
  have hones : value (maskBlock params i) = 2 ^ (8 * nbitsToNbytes (kb.field i).nbits) - 1 →
      (value (kb.packetBytes phv i) &&& value (maskBlock params i) =
        value (kb.entryBytes params i) &&& value (maskBlock params i) ↔
      kb.packetBytes phv i = kb.entryBytes params i) := by
    intro hm
    have hx := value_lt (kb.packetBytes phv i)
    have hy := value_lt (kb.entryBytes params i)
    rw [hpkt] at hx
    rw [hent] at hy
    rw [hm, Nat.and_two_pow_sub_one_eq_mod, Nat.and_two_pow_sub_one_eq_mod, Nat.mod_eq_of_lt hx,
      Nat.mod_eq_of_lt hy, value_inj (hpkt.trans hent.symm)]
  cases ht : (kb.field i).mtype with
  | valid =>
    have hbits := h.pushed.unbuilt.valid_nbits _ (Unbuilt.field_mem hi) ht
    have hm : value (maskBlock params i) = 2 ^ (8 * nbitsToNbytes (kb.field i).nbits) - 1 := by
      rw [maskBlock, ternaryMask, hok.type_eq, ht, hbits]
      rfl
    rw [hones hm, if_neg (by decide), h.bytes_eq_iff hi (.inl ht)]
  | exact =>
    have hm : value (maskBlock params i) = 2 ^ (8 * nbitsToNbytes (kb.field i).nbits) - 1 := by
      rw [maskBlock, ternaryMask, hok.type_eq, ht, hok.length_key]
      exact value_replicate_ones _
    rw [hones hm, if_neg (by decide), h.bytes_eq_iff hi (.inr ht)]
  | lpm =>
    obtain ⟨-, hp⟩ := hok.prefixLength (hok.type_eq.trans ht)
    have hle := nbits_le (kb.field i).nbits
    have hm : maskBlock params i = createMaskFromPrefLen (param params i).prefixLength.toNat
        (nbitsToNbytes (kb.field i).nbits) := by
      rw [maskBlock, ternaryMask, hok.type_eq, ht, hok.length_key]
    have hmlen : (maskBlock params i).length = nbitsToNbytes (kb.field i).nbits :=
      h.accepted.length_maskBlock h.pushed.unbuilt hi
    rw [if_pos rfl, ← h.take_bits_iff hi ht, take_bits_eq_iff (by omega) (by omega),
      ← value_zipWith_and (hpkt.trans hmlen.symm), ← value_zipWith_and (hent.trans hmlen.symm),
      value_inj (by simp [hpkt, hent]), eq_iff_bitAt (by simp [hpkt, hent])]
    simp only [bitAt_zipWith_and (hpkt.trans hmlen.symm), bitAt_zipWith_and (hent.trans hmlen.symm),
      List.length_zipWith, hpkt, hmlen, min_self]
    rw [hm]
    simp only [bitAt_createMask (show (param params i).prefixLength.toNat ≤
      8 * nbitsToNbytes (kb.field i).nbits by omega)]
    constructor
    · intro hall k hk
      simpa [hk] using hall k (by omega)
    · intro hall k _
      by_cases hk : k < (param params i).prefixLength.toNat
      · rw [hall k hk]
      · simp [hk]
  | ternary =>
    rw [if_neg (by decide), h.value_packetBytes hi (by rw [ht]; decide), h.value_entryBytes hi]
    simp only [FieldMatches, ht, maskBlock, ternaryMask, hok.type_eq]

end Setting

instance (kb : MatchKeyBuilder) : Std.Total kb.sortLe where
  total i j := by
    simp only [sortLe]
    split_ifs <;> omega

instance (kb : MatchKeyBuilder) : IsTrans ℕ kb.sortLe where
  trans i j k hij hjk := by
    simp only [sortLe] at hij hjk ⊢
    split_ifs at hij hjk ⊢ <;> omega

/-- The fields are ordered by match type. -/
theorem order_sorted (kb : MatchKeyBuilder) :
    kb.order.Pairwise fun i j => (kb.field i).mtype.rank ≤ (kb.field j).mtype.rank := by
  refine (List.pairwise_insertionSort kb.sortLe _).imp fun {i j} hij => ?_
  simp only [sortLe] at hij
  simp only [field]
  split_ifs at hij <;> omega

/-- The layouts that a unit can hold: an LPM unit has at most one LPM field. -/
def AllowedIn (kb : MatchKeyBuilder) : UnitType → Prop
  | .exact => ExactLayout kb
  | .lpm => (∀ i < kb.keyInput.length, (kb.field i).mtype ≠ .ternary) ∧
      ∀ i < kb.keyInput.length, ∀ j < kb.keyInput.length,
        (kb.field i).mtype = .lpm → (kb.field j).mtype = .lpm → i = j
  | .ternary => True

/-- Only the last field of an LPM unit can be an LPM field. -/
theorem AllowedIn.lpm_last (h : kb.AllowedIn .lpm) :
    kb.order.Pairwise fun i _ => (kb.field i).mtype ≠ .lpm := by
  refine (kb.order_sorted.and kb.order_nodup).imp_of_mem fun {i j} hi hj hij ht => ?_
  have hrank : (kb.field j).mtype.rank ≥ 2 := by
    have := hij.1
    rw [ht] at this
    exact this
  have hj' : (kb.field j).mtype = .lpm := by
    have hne := h.1 j (mem_order.mp hj)
    cases htj : (kb.field j).mtype <;> simp_all [ParamType.rank]
  exact hij.2 (h.2 i (mem_order.mp hi) j (mem_order.mp hj) ht hj')

/-- Whether the entry that a unit makes of the parameters matches a key. -/
def entryMatches (kb : MatchKeyBuilder) (unit : UnitType) (params : List MatchKeyParam)
    (key : List Byte) : Option Bool :=
  match unit with
  | .exact => do
    let entry ← kb.matchParamsToExact params
    let data ← kb.applyBigMask entry.data
    some (decide (key = data))
  | .lpm => do
    let entry ← kb.matchParamsToLPM params
    let data ← kb.applyBigMask entry.data
    some (decide ((bits key).take entry.prefixLength.toNat =
      (bits data).take entry.prefixLength.toNat))
  | .ternary => do
    let entry ← kb.matchParamsToTernary params
    let data ← kb.applyBigMask entry.data
    some (decide (data = List.zipWith (· &&& ·) key entry.mask))

namespace Setting

variable (h : Setting kb params phv)
include h

/-- The number of bits that a field adds to the prefix. -/
theorem prefixBlock_toNat {i : ℕ} (hi : i < kb.keyInput.length)
    (hne : (kb.field i).mtype ≠ .ternary) :
    0 ≤ prefixBlock params i ∧ (prefixBlock params i).toNat =
      if (kb.field i).mtype = .lpm then (param params i).prefixLength.toNat
      else 8 * nbitsToNbytes (kb.field i).nbits := by
  have hok := h.accepted.ok i hi
  rw [prefixBlock, hok.type_eq]
  cases ht : (kb.field i).mtype with
  | valid =>
    have hbits := h.pushed.unbuilt.valid_nbits _ (Unbuilt.field_mem hi) ht
    rw [hbits]
    exact ⟨show (0 : ℤ) ≤ 8 by decide, rfl⟩
  | exact =>
    simp only [hok.length_key]
    exact ⟨by omega, by simp only [reduceCtorEq, ↓reduceIte]; omega⟩
  | lpm => exact ⟨(hok.prefixLength (hok.type_eq.trans ht)).1, rfl⟩
  | ternary => exact absurd ht hne

theorem length_bytes_eq : ∀ i ∈ kb.order,
    (kb.packetBytes phv i).length = (kb.entryBytes params i).length := by
  intro i hi
  rw [h.length_packetBytes (mem_order.mp hi), h.length_entryBytes (mem_order.mp hi)]

/-- The data of an exact or LPM entry, field by field in implementation order. -/
theorem applyBigMask_keyBlocks :
    kb.build.applyBigMask (kb.order.map (kb.keyBlock params)).flatten =
      some (kb.order.map (kb.entryBytes params)).flatten :=
  h.pushed.filled.applyBigMask fun _ hi => h.accepted.length_keyBlock hi

theorem exact_iff (hunit : kb.AllowedIn .exact) :
    (kb.order.map (kb.packetBytes phv)).flatten = (kb.order.map (kb.entryBytes params)).flatten ↔
      ∀ i < kb.keyInput.length, kb.Compared params phv i := by
  rw [flatten_map_inj _ h.length_bytes_eq]
  simp only [mem_order]
  refine forall₂_congr fun i hi => ?_
  have ht := hunit i hi
  have hne : (kb.field i).mtype ≠ .lpm := by rcases ht with ht | ht <;> rw [ht] <;> decide
  rw [Compared, if_neg hne, h.bytes_eq_iff hi ht]

theorem prefixLength_toNat (hunit : kb.AllowedIn .lpm) :
    (kb.order.map (prefixBlock params)).sum.toNat =
      (kb.order.map fun i => (prefixBlock params i).toNat).sum := by
  have hcast : ∀ l : List ℕ, (∀ i ∈ l, i < kb.keyInput.length) →
      (l.map (prefixBlock params)).sum =
        ((l.map fun i => (prefixBlock params i).toNat).sum : ℤ) := by
    intro l
    induction l with
    | nil =>
      intro _
      rfl
    | cons a l ih =>
      intro hl
      have ha := hl a List.mem_cons_self
      have hpos := (h.prefixBlock_toNat ha (hunit.1 a ha)).1
      rw [List.map_cons, List.sum_cons, ih fun i hi => hl i (List.mem_cons_of_mem a hi),
        List.map_cons, List.sum_cons, Nat.cast_add, Int.toNat_of_nonneg hpos]
  rw [hcast _ fun i hi => mem_order.mp hi, Int.toNat_natCast]

/-- All fields of an LPM unit count in full but the last. -/
theorem lpm_iff (hunit : kb.AllowedIn .lpm) :
    (bits (kb.order.map (kb.packetBytes phv)).flatten).take
        (kb.order.map (prefixBlock params)).sum.toNat =
      (bits (kb.order.map (kb.entryBytes params)).flatten).take
        (kb.order.map (prefixBlock params)).sum.toNat ↔
      ∀ i < kb.keyInput.length, kb.Compared params phv i := by
  have hfull : kb.order.Pairwise fun i _ =>
      (prefixBlock params i).toNat = 8 * (kb.packetBytes phv i).length := by
    refine hunit.lpm_last.imp_of_mem fun {i _} hi _ ht => ?_
    have hi := mem_order.mp hi
    rw [(h.prefixBlock_toNat hi (hunit.1 i hi)).2, if_neg ht, h.length_packetBytes hi]
  rw [h.prefixLength_toNat hunit, take_bits_flatten_iff h.length_bytes_eq hfull]
  simp only [mem_order]
  refine forall₂_congr fun i hi => ?_
  rw [(h.prefixBlock_toNat hi (hunit.1 i hi)).2, Compared]
  by_cases ht : (kb.field i).mtype = .lpm
  · rw [if_pos ht, if_pos ht, h.take_bits_iff hi ht]
  · have hte : (kb.field i).mtype = .valid ∨ (kb.field i).mtype = .exact := by
      have := hunit.1 i hi
      cases hc : (kb.field i).mtype <;> simp_all
    rw [if_neg ht, if_neg ht, List.take_of_length_le (by rw [length_bits, h.length_packetBytes hi]),
      List.take_of_length_le (by rw [length_bits, h.length_entryBytes hi]),
      bits_injective.eq_iff, h.bytes_eq_iff hi hte]

theorem ternary_unit_iff :
    (kb.order.map fun i =>
        List.zipWith (· &&& ·) (kb.ternaryBlock params i) (kb.masks.getD i [])).flatten =
      List.zipWith (· &&& ·) (kb.order.map (kb.packetBytes phv)).flatten
        (kb.order.map (maskBlock params)).flatten ↔
      ∀ i < kb.keyInput.length, kb.Compared params phv i := by
  have hu := h.pushed.unbuilt
  have hmasks : ∀ i ∈ kb.order, (kb.packetBytes phv i).length = (maskBlock params i).length := by
    intro i hi
    rw [h.length_packetBytes (mem_order.mp hi), h.accepted.length_maskBlock hu (mem_order.mp hi)]
  rw [zipWith_flatten_map _ _ hmasks, flatten_map_inj]
  · simp only [mem_order]
    exact forall₂_congr fun i hi => h.ternary_iff hi
  · intro i hi
    have hi := mem_order.mp hi
    rw [List.length_zipWith, List.length_zipWith, h.accepted.length_ternaryBlock hu hi,
      hu.length_mask hi, h.length_packetBytes hi, h.accepted.length_maskBlock hu hi]

/-- Each unit compares the fields one by one. -/
theorem entryMatches_iff {unit : UnitType} (hunit : kb.AllowedIn unit) :
    ∃ b, kb.build.entryMatches unit params (kb.order.map (kb.packetBytes phv)).flatten = some b ∧
      (b = true ↔ ∀ i < kb.keyInput.length, kb.Compared params phv i) := by
  have hu := h.pushed.unbuilt
  have hdata := h.applyBigMask_keyBlocks
  cases unit with
  | exact =>
    rw [entryMatches, h.accepted.matchParamsToExact hu]
    simp only [Option.bind_eq_bind, Option.bind_some, hdata]
    exact ⟨_, rfl, decide_eq_true_iff.trans (h.exact_iff hunit)⟩
  | lpm =>
    rw [entryMatches, h.accepted.matchParamsToLPM hu hunit.1]
    simp only [Option.bind_eq_bind, Option.bind_some, hdata]
    exact ⟨_, rfl, decide_eq_true_iff.trans (h.lpm_iff hunit)⟩
  | ternary =>
    have hter := h.pushed.filled.applyBigMask fun i hi => h.accepted.length_ternaryBlock hu hi
    rw [entryMatches, h.accepted.matchParamsToTernary hu]
    simp only [Option.bind_eq_bind, Option.bind_some, hter]
    exact ⟨_, rfl, decide_eq_true_iff.trans h.ternary_unit_iff⟩

end Setting

/-- A field matches if what is compared of it agrees, and the rest of an LPM prefix. -/
theorem Accepted.fieldMatches_iff (h : Accepted kb params) {i : ℕ} (hi : i < kb.keyInput.length) :
    kb.FieldMatches params phv i ↔
      kb.Compared params phv i ∧ ((kb.field i).mtype = .lpm → kb.TailAgrees params phv i) := by
  rw [Compared]
  by_cases ht : (kb.field i).mtype = .lpm
  · have hok := h.ok i hi
    rw [if_pos ht, fieldMatches_lpm ht (hok.prefixLength (hok.type_eq.trans ht)).2]
    exact and_congr_right fun _ => (imp_iff_right ht).symm
  · rw [if_neg ht]
    exact (and_iff_left fun hlpm => absurd hlpm ht).symm

theorem not_forall_compared_iff :
    (¬ ∀ i < kb.keyInput.length, kb.Compared params phv i) ↔
      (∃ i < kb.keyInput.length, (kb.field i).mtype ≠ .lpm ∧ ¬ kb.FieldMatches params phv i) ∨
      ∃ i < kb.keyInput.length, (kb.field i).mtype = .lpm ∧ ¬ kb.TopAgrees params phv i := by
  push Not
  constructor
  · rintro ⟨i, hi, hnot⟩
    rw [Compared] at hnot
    by_cases ht : (kb.field i).mtype = .lpm
    · rw [if_pos ht] at hnot
      exact .inr ⟨i, hi, ht, hnot⟩
    · rw [if_neg ht] at hnot
      exact .inl ⟨i, hi, ht, hnot⟩
  · rintro (⟨i, hi, ht, hnot⟩ | ⟨i, hi, ht, hnot⟩)
    · exact ⟨i, hi, by rwa [Compared, if_neg ht]⟩
    · exact ⟨i, hi, by rwa [Compared, if_pos ht]⟩

/-- A packet matches an entry if and only if every field matches on its own terms, exactly when
the two sides differ in a compared bit or agree in the last bits of every LPM prefix. -/
theorem match_semantics (hkb : Pushed kb) {unit : UnitType} (hunit : kb.AllowedIn unit)
    (hs : kb.build.matchParamsSanityCheck params = true)
    (hvalid : ∀ i < kb.keyInput.length, (kb.field i).mtype = .valid →
      (param params i).key = [0] ∨ (param params i).key = [1])
    (hphv : Fits kb phv) :
    ∃ key b, kb.build.packetKey phv = some key ∧
      kb.build.entryMatches unit params key = some b ∧
      ((b = true ↔ ∀ i < kb.keyInput.length, kb.FieldMatches params phv i) ↔
        (∃ i < kb.keyInput.length, (kb.field i).mtype ≠ .lpm ∧ ¬ kb.FieldMatches params phv i) ∨
        (∃ i < kb.keyInput.length, (kb.field i).mtype = .lpm ∧ ¬ kb.TopAgrees params phv i) ∨
        ∀ i < kb.keyInput.length, (kb.field i).mtype = .lpm → kb.TailAgrees params phv i) := by
  have h : Setting kb params phv := ⟨hkb, hkb.unbuilt.sanityCheck_iff.mp hs, hphv, hvalid⟩
  obtain ⟨b, hb, hiff⟩ := h.entryMatches_iff hunit
  refine ⟨_, b, hphv.packetKey hkb, hb, ?_⟩
  rw [hiff, ← or_assoc, ← not_forall_compared_iff]
  have hall : (∀ i < kb.keyInput.length, kb.FieldMatches params phv i) ↔
      (∀ i < kb.keyInput.length, kb.Compared params phv i) ∧
        ∀ i < kb.keyInput.length, (kb.field i).mtype = .lpm → kb.TailAgrees params phv i := by
    rw [← forall₂_and]
    exact forall₂_congr fun i hi => h.accepted.fieldMatches_iff hi
  rw [hall]
  tauto

/-- A 12-bit LPM field, a validity bit and a 16-bit exact field, all of a packet that matches. -/
theorem match_semantics_three_fields :
    let kb := ((({} : MatchKeyBuilder).pushBackField 0 0 12 .lpm).pushBackValidHeader
      1).pushBackField 0 1 16 .exact
    let params : List MatchKeyParam := [{ type := .lpm, key := [0xfa, 0xbc], prefixLength := 9 },
      { type := .valid, key := [1] }, { type := .exact, key := [0x12, 0x34] }]
    let phv : PHV := { headers := [
      { fields := [{ nbits := 12, bytes := [0x0a, 0xbf] }, { nbits := 16, bytes := [0x12, 0x34] }],
        valid := true, nbytesPacket := 4 },
      { fields := [], valid := true, nbytesPacket := 0 }] }
    (∀ i < 3, kb.FieldMatches params phv i) ∧ ∃ key, kb.build.packetKey phv = some key ∧
      kb.build.entryMatches .lpm params key = some true := by
  intro kb params phv
  have hkb : Pushed kb := .field 0 1 .exact
    (.validHeader 1 (.field 0 0 .lpm .empty (by decide) (by decide))) (by decide) (by decide)
  have hunit : kb.AllowedIn .lpm := ⟨by decide, by decide⟩
  have hphv : Fits kb phv := by
    intro i hi
    match i, (hi : i < 3) with
    | 0, _ => exact ⟨_, rfl, fun _ => ⟨_, rfl, by decide, by decide, by decide⟩⟩
    | 1, _ => exact ⟨_, rfl, fun hne => absurd rfl hne⟩
    | 2, _ => exact ⟨_, rfl, fun _ => ⟨_, rfl, by decide, by decide, by decide⟩⟩
  have hall : ∀ i < 3, kb.FieldMatches params phv i := by decide +kernel
  have hs : kb.build.matchParamsSanityCheck params = true := by decide +kernel
  obtain ⟨key, b, hkey, hb, hiff⟩ := match_semantics hkb hunit hs (by decide +kernel) hphv
  have htail : ∀ i < 3, (kb.field i).mtype = .lpm → kb.TailAgrees params phv i := by
    decide +kernel
  obtain rfl : b = true := (hiff.mpr (.inr (.inr htail))).mpr hall
  exact ⟨hall, key, hkey, hb⟩

/-- With four padding bits, none of the four bits of the prefix is compared. -/
theorem match_ignores_short_prefix :
    let kb := ({} : MatchKeyBuilder).pushBackField 0 0 12 .lpm
    let params : List MatchKeyParam := [{ type := .lpm, key := [0x0a, 0x00], prefixLength := 4 }]
    let phv : PHV := { headers := [
      { fields := [{ nbits := 12, bytes := [0x0b, 0x00] }], valid := true, nbytesPacket := 2 }] }
    Pushed kb ∧ kb.AllowedIn .lpm ∧ kb.build.matchParamsSanityCheck params = true ∧ Fits kb phv ∧
      ¬ kb.FieldMatches params phv 0 ∧
      ∃ key, kb.build.packetKey phv = some key ∧
        kb.build.entryMatches .lpm params key = some true := by
  intro kb params phv
  have hphv : Fits kb phv := by
    intro i hi
    obtain rfl : i = 0 := Nat.lt_one_iff.mp hi
    exact ⟨_, rfl, fun _ => ⟨_, rfl, by decide, by decide, by decide⟩⟩
  refine ⟨.field 0 0 .lpm .empty (by decide) (by decide), ⟨by decide, by decide⟩,
    by decide +kernel, hphv, by decide +kernel, [0x0b, 0x00], by decide +kernel, by decide +kernel⟩

end MatchKeyBuilder

end Bmv2
