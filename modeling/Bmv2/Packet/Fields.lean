import Bmv2.Lib.BigEndian
import Bmv2.Packet.Extract
import Bmv2.Packet.Phv

/-! Fields and the bits of a packet (`fields.h`, `fields.cpp`): a field is extracted to bytes of
its own, and deparsed to where it stands in its header. -/
namespace Bmv2
open ByteBits

namespace Field

variable (f : Field)

/-- `sync_value`: the number that the bytes stand for. -/
def syncValue : Field :=
  let value := ByteBits.value f.bytes
  { f with
    value :=
      if f.isSigned ∧ value.testBit (f.nbits - 1) then
        ((value - 2 ^ (f.nbits - 1) : ℕ) : ℤ) + f.min
      else value }

/-- `export_bytes`: the value is brought into range and written to the bytes. A negative value
is written as its two's complement, by adding `2 ^ nbits` through the lower bound. -/
def exportBytes : Field :=
  let masked := Int.land f.value f.mask
  let value :=
    if f.isSigned then
      if f.value < f.min ∨ f.value > f.mask then
        if masked > f.max then masked - (f.mask + 1) else masked
      else f.value
    else masked
  { f with
    value
    bytes := ofValue f.nbytes (if 0 ≤ value then value else value - f.min - f.min).toNat }

/-- `Data::set`. -/
def set (value : ℤ) : Field := { f with value }.exportBytes

/-- `extract`. It is undefined when the data ends before the field. -/
def extract (data : List Byte) (hdrOffset : ℕ) : Option Field :=
  if hdrOffset + f.nbits ≤ 8 * data.length then
    let f := { f with bytes := genericExtract data hdrOffset f.nbits f.bytes }
    some (if f.arith then f.syncValue else f)
  else none

/-- `extract_VL`: the width is an `int`, as is the `1` that the mask is shifted from. Within a byte
a field of no bits is written through the pointer of an empty buffer. -/
def extractVL (data : List Byte) (hdrOffset : ℕ) (computedNbits : ℤ) : Option Field :=
  if (0 ≤ computedNbits ∧ computedNbits < 31) ∧ (computedNbits = 0 → hdrOffset = 0) then
    let nbits := computedNbits.toNat
    let nbytes := (nbits + 7) / 8
    let bytes := f.bytes.take nbytes ++ List.replicate (nbytes - f.bytes.length) 0
    { f with nbits, nbytes, mask := 2 ^ nbits - 1, bytes }.extract data hdrOffset
  else none

/-- What `deparse` does to the rest of the buffer from the byte in which the field begins. -/
def put (data : List Byte) (hdrOffset : ℕ) : List Byte :=
  if hdrOffset = 0 ∧ f.nbits % 8 = 0 then writeBytes data 0 f.bytes.length (byteAt f.bytes)
  else
    let fieldOffset := 8 * f.nbytes - f.nbits
    let hdrBytes := (hdrOffset + f.nbits + 7) / 8
    let data := data.modify 0 (· &&& ~~~((0xff : Byte) >>> hdrOffset))
    if fieldOffset = hdrOffset then
      let data := writeBytes data 1 hdrBytes (byteAt f.bytes)
      data.modify 0 (· ||| byteAt f.bytes 0)
    else if fieldOffset > hdrOffset then  -- shift left
      let offset := fieldOffset - hdrOffset
      -- the first byte is assigned: what the fields before this one wrote to it is lost
      let data := writeBytes data 0 (hdrBytes - 1) fun i =>
        (byteAt f.bytes i <<< offset) ||| (byteAt f.bytes (i + 1) >>> (8 - offset))
      let i := hdrBytes - 1
      let data := if i > 0 then data.set i 0 else data
      data.modify i (· ||| (byteAt f.bytes i <<< offset))
    else  -- shift right
      let offset := hdrOffset - fieldOffset
      let data := data.modify 0 (· ||| (byteAt f.bytes 0 >>> offset))
      if f.nbytes = 1 then data.set 1 (byteAt f.bytes 0 <<< (8 - offset))
      else
        let data := writeBytes data 1 (hdrBytes - 1) fun i =>
          (byteAt f.bytes (i - 1) <<< (8 - offset)) ||| (byteAt f.bytes i >>> offset)
        let i := 1 + (hdrBytes - 2)
        let tailOffset := 8 * hdrBytes - (hdrOffset + f.nbits)
        let data := data.modify i (· &&& (((1 : Byte) <<< tailOffset) - 1))
        data.modify i (· ||| (byteAt f.bytes (i - 1) <<< (8 - offset)))

/-- Where `deparse` ends in the data and in the bytes of the field. A field of no bits that begins
within a byte is shifted right, and like any other that is, has its first byte read and the second
one of the data masked. -/
def InBounds (length hdrOffset : ℕ) : Prop :=
  if hdrOffset = 0 ∧ f.nbits % 8 = 0 then f.bytes.length ≤ length
  else
    let hdrBytes := (hdrOffset + f.nbits + 7) / 8
    if 8 * f.nbytes - f.nbits < hdrOffset then
      let i := 1 + (hdrBytes - 2)
      i - 1 < f.bytes.length ∧ i < length
    else hdrBytes ≤ f.bytes.length ∧ hdrBytes ≤ length

instance (length hdrOffset : ℕ) : Decidable (f.InBounds length hdrOffset) := by
  unfold InBounds
  infer_instance

/-- `deparse`. It is undefined when it leaves the buffer or the bytes of the field. -/
def deparse (data : List Byte) (hdrOffset : ℕ) : Option (List Byte) :=
  if f.InBounds data.length hdrOffset then some (f.put data hdrOffset) else none

/-- The bytes of the field are as many as its width needs. -/
structure Whole : Prop where
  nbytes_eq : f.nbytes = (f.nbits + 7) / 8
  length_bytes : f.bytes.length = f.nbytes

/-- A field with a width and the bytes for it. -/
structure Fixed : Prop where
  pos : 0 < f.nbits
  nbytes_eq : f.nbytes = (f.nbits + 7) / 8
  length_bytes : f.bytes.length = f.nbytes

variable {f} {data : List Byte} {o : ℕ}

theorem Fixed.whole (hf : f.Fixed) : f.Whole := ⟨hf.nbytes_eq, hf.length_bytes⟩

/-- Such a field needs no more room than its bits, unless it has none and begins within a byte. -/
theorem Whole.inBounds_iff (hf : f.Whole) (ho : o < 8) {length : ℕ}
    (hroom : o + f.nbits ≤ 8 * length) : f.InBounds length o ↔ (f.nbits = 0 → o = 0) := by
  have hbytes := hf.nbytes_eq
  have hblen := hf.length_bytes
  unfold InBounds
  dsimp only
  split_ifs with h0 hright
  · omega
  · omega
  · omega

theorem Whole.deparse_eq (hf : f.Whole) (ho : o < 8) (hroom : o + f.nbits ≤ 8 * data.length) :
    f.deparse data o = if f.nbits = 0 → o = 0 then some (f.put data o) else none :=
  if_congr (hf.inBounds_iff ho hroom) rfl rfl

@[simp] theorem length_put : (f.put data o).length = data.length := by
  unfold put
  dsimp only
  split_ifs <;> simp

/-- The bytes behind the one in which the field ends stay. -/
theorem byteAt_put_of_le (hf : f.Fixed) (ho : o < 8) {i : ℕ}
    (hi : (o + f.nbits + 7) / 8 ≤ i) : byteAt (f.put data o) i = byteAt data i := by
  have hpos := hf.pos
  have hbytes := hf.nbytes_eq
  have hlen := hf.length_bytes
  unfold put
  dsimp only
  split_ifs with h0 heq hgt hlast hone
  · rw [byteAt_writeBytes, if_neg (by omega)]
  all_goals
    simp only [byteAt_modify, byteAt_writeBytes, byteAt_set]
    repeat rw [if_neg (by omega)]

theorem getMsbD_and_not_ones (b : Byte) (ho : o < 8) {k : ℕ} (hk : k < 8) :
    (b &&& ~~~((0xff : Byte) >>> o)).getMsbD k = (decide (k < o) && b.getMsbD k) := by
  rw [BitVec.getMsbD_and, BitVec.getMsbD_not, getMsbD_ones_shift o ho k hk, Bool.and_comm,
    ← decide_not, decide_eq_true hk, Bool.true_and, decide_eq_decide.mpr Nat.not_le]

/-- A field whose bytes stand in the header as they are. -/
theorem bitAt_put_bytes (hf : f.Fixed) (h0 : o = 0 ∧ f.nbits % 8 = 0)
    (hlen : (o + f.nbits + 7) / 8 ≤ data.length) {j : ℕ} (hj : j < o + f.nbits) :
    bitAt (f.put data o) j = bitAt f.bytes j := by
  have hbytes := hf.nbytes_eq
  have hblen := hf.length_bytes
  rw [put, if_pos h0, bitAt_eq, byteAt_writeBytes, if_pos (by omega), bitAt_eq]

/-- A field that starts in its first byte where it starts in the header. -/
theorem bitAt_put_aligned (hf : f.Fixed) (ho : o < 8) (h0 : ¬ (o = 0 ∧ f.nbits % 8 = 0))
    (heq : padding f.nbits = o) (hlen : (o + f.nbits + 7) / 8 ≤ data.length) {j : ℕ}
    (hj : j < o + f.nbits) :
    bitAt (f.put data o) j = (decide (j < o) && bitAt data j || bitAt f.bytes j) := by
  have hpos := hf.pos
  have hbytes := hf.nbytes_eq
  have hpad : 8 * f.nbytes - f.nbits = padding f.nbits := by rw [hbytes, padding]
  rw [put, if_neg h0, bitAt_eq]
  dsimp only
  rw [hpad, if_pos heq]
  simp only [byteAt_modify, byteAt_writeBytes, length_writeBytes, List.length_modify]
  by_cases hfirst : j / 8 = 0
  · have hj8 : j % 8 = j := by omega
    rw [if_pos ⟨hfirst, by omega⟩, if_neg (by omega), if_pos ⟨hfirst, by omega⟩,
      BitVec.getMsbD_or, getMsbD_and_not_ones _ ho (by omega), hj8, bitAt_eq, bitAt_eq, hfirst, hj8]
  · rw [if_neg fun h => hfirst h.1, if_pos (by omega), decide_eq_false (by omega), Bool.false_and,
      Bool.false_or, bitAt_eq]

/-- The window of the bytes that holds bit `j` of the header. -/
theorem getMsbD_window_left (hp : o < padding f.nbits) {i k j : ℕ} (hj : i * 8 + k = j)
    (hk : k < 8) : (window f.bytes i (padding f.nbits - o)).getMsbD k =
      bitAt f.bytes (j + padding f.nbits - o) := by
  have hlt := padding_lt f.nbits
  rw [getMsbD_window _ _ (by omega) hk]
  congr 1
  omega

/-- A field of one byte that is moved towards the first byte. -/
theorem bitAt_put_left_one (hf : f.Fixed) (ho : o < 8) (hlt : o < padding f.nbits)
    (hone : f.nbits ≤ 8) (hlen : (o + f.nbits + 7) / 8 ≤ data.length) {j : ℕ}
    (hj : j < o + f.nbits) :
    bitAt (f.put data o) j =
      (decide (j < o) && bitAt data j || bitAt f.bytes (j + padding f.nbits - o)) := by
  have hpos := hf.pos
  have hbytes := hf.nbytes_eq
  have hblen := hf.length_bytes
  have hadd := padding_add f.nbits
  have hpad : 8 * f.nbytes - f.nbits = padding f.nbits := by rw [hbytes, padding]
  have hhdr : (o + f.nbits + 7) / 8 - 1 = 0 := by omega
  have hfirst : j / 8 = 0 := by omega
  have hj8 : j % 8 = j := by omega
  rw [put, if_neg (by omega), bitAt_eq]
  dsimp only
  rw [hpad, hhdr, if_neg (by omega), if_pos hlt, if_neg (Nat.lt_irrefl 0), hfirst, hj8,
    byteAt_modify, if_pos ⟨rfl, by simp; omega⟩, byteAt_writeBytes, if_neg (by omega),
    byteAt_modify, if_pos ⟨rfl, by omega⟩, BitVec.getMsbD_or,
    getMsbD_and_not_ones _ ho (by omega), ← window_of_le (by omega),
    getMsbD_window_left hlt (j := j) (by omega) (by omega), bitAt_eq data, hfirst, hj8]

/-- A field of several bytes that is moved towards the first byte: all bytes are assigned. -/
theorem bitAt_put_left (hf : f.Fixed) (hlt : o < padding f.nbits)
    (hmany : 8 < f.nbits) (hlen : (o + f.nbits + 7) / 8 ≤ data.length) {j : ℕ}
    (hj : j < o + f.nbits) :
    bitAt (f.put data o) j = bitAt f.bytes (j + padding f.nbits - o) := by
  have hbytes := hf.nbytes_eq
  have hblen := hf.length_bytes
  have hadd := padding_add f.nbits
  have hp := padding_lt f.nbits
  have hpad : 8 * f.nbytes - f.nbits = padding f.nbits := by rw [hbytes, padding]
  have hhdr : (o + f.nbits + 7) / 8 - 1 = f.bytes.length - 1 := by omega
  rw [put, if_neg (by omega), bitAt_eq, ← getMsbD_window_left hlt
    (show j / 8 * 8 + j % 8 = j by omega) (Nat.mod_lt _ (by omega))]
  dsimp only
  rw [hpad, hhdr, if_neg (by omega), if_pos hlt, if_pos (show f.bytes.length - 1 > 0 by omega),
    byteAt_modify, byteAt_set, byteAt_writeBytes]
  by_cases hlast : j / 8 = f.bytes.length - 1
  · rw [if_pos ⟨hlast, by simp; omega⟩, if_pos ⟨hlast, by simp; omega⟩, hlast,
      window_of_le (by omega)]
    congr 1
    exact BitVec.zero_or
  · rw [if_neg fun h => hlast h.1, if_neg fun h => hlast h.1, if_pos ⟨by omega, by simp; omega⟩]
    rfl

theorem getMsbD_window_right (hp : padding f.nbits < o) (ho : o < 8) {i k j : ℕ}
    (hj : (i + 1) * 8 + k = j) (hk : k < 8) :
    (window f.bytes i (8 - (o - padding f.nbits))).getMsbD k =
      bitAt f.bytes (j + padding f.nbits - o) := by
  rw [getMsbD_window _ _ (by omega) hk]
  congr 1
  omega

/-- The byte in which a field begins that is moved towards the last byte. -/
theorem getMsbD_first_right (hp : padding f.nbits < o) (ho : o < 8) {j : ℕ} (hj : j < 8) :
    ((byteAt data 0 &&& ~~~((0xff : Byte) >>> o)) |||
      (byteAt f.bytes 0 >>> (o - padding f.nbits))).getMsbD j =
      (decide (j < o) && bitAt data j ||
        decide (o ≤ j + padding f.nbits) && bitAt f.bytes (j + padding f.nbits - o)) := by
  have hj8 : j % 8 = j := by omega
  rw [BitVec.getMsbD_or, getMsbD_and_not_ones _ ho hj, BitVec.getMsbD_ushiftRight, bitAt_eq data,
    show j / 8 = 0 by omega, hj8]
  congr 1
  by_cases hlow : j < o - padding f.nbits
  · simp [hlow, show ¬ o ≤ j + padding f.nbits by omega]
  · rw [bitAt_eq, show (j + padding f.nbits - o) / 8 = 0 by omega,
      show (j + padding f.nbits - o) % 8 = j - (o - padding f.nbits) by omega]
    simp [hj, hlow, show o ≤ j + padding f.nbits by omega]

/-- A field of one byte that is moved towards the last byte, into a second one. -/
theorem bitAt_put_right_one (hf : f.Fixed) (ho : o < 8) (hgt : padding f.nbits < o)
    (hone : f.nbits ≤ 8) (hlen : (o + f.nbits + 7) / 8 ≤ data.length) {j : ℕ}
    (hj : j < o + f.nbits) :
    bitAt (f.put data o) j = (decide (j < o) && bitAt data j ||
      decide (o ≤ j + padding f.nbits) && bitAt f.bytes (j + padding f.nbits - o)) := by
  have hpos := hf.pos
  have hbytes := hf.nbytes_eq
  have hblen := hf.length_bytes
  have hadd := padding_add f.nbits
  have hpad : 8 * f.nbytes - f.nbits = padding f.nbits := by rw [hbytes, padding]
  rw [put, if_neg (by omega), bitAt_eq]
  dsimp only
  rw [hpad, if_neg (by omega), if_neg (by omega), if_pos (show f.nbytes = 1 by omega), byteAt_set]
  by_cases hfirst : j / 8 = 0
  · rw [if_neg (by omega), hfirst, byteAt_modify, if_pos ⟨rfl, by simp; omega⟩, byteAt_modify,
      if_pos ⟨rfl, by omega⟩, getMsbD_first_right hgt ho (Nat.mod_lt _ (by omega)),
      show j % 8 = j by omega]
  · rw [if_pos ⟨by omega, by simp; omega⟩, ← window_of_le (by omega),
      getMsbD_window_right hgt ho (j := j) (by omega) (Nat.mod_lt _ (by omega)),
      decide_eq_false (by omega), decide_eq_true (by omega), Bool.false_and, Bool.false_or,
      Bool.true_and]

theorem getMsbD_tail_mask : ∀ t < 8, ∀ k < 8 - t,
    (((1 : Byte) <<< t) - 1).getMsbD k = false := by
  decide

/-- A field of several bytes that is moved towards the last byte. -/
theorem bitAt_put_right (hf : f.Fixed) (ho : o < 8) (hgt : padding f.nbits < o)
    (hmany : 8 < f.nbits) (hlen : (o + f.nbits + 7) / 8 ≤ data.length) {j : ℕ}
    (hj : j < o + f.nbits) :
    bitAt (f.put data o) j = (decide (j < o) && bitAt data j ||
      decide (o ≤ j + padding f.nbits) && bitAt f.bytes (j + padding f.nbits - o)) := by
  have hbytes := hf.nbytes_eq
  have hblen := hf.length_bytes
  have hadd := padding_add f.nbits
  have hpad : 8 * f.nbytes - f.nbits = padding f.nbits := by rw [hbytes, padding]
  have hhdr : (o + f.nbits + 7) / 8 = f.bytes.length + 1 := by omega
  have hloop : 1 + (f.bytes.length + 1 - 2) = f.bytes.length := by omega
  rw [put, if_neg (by omega), bitAt_eq]
  dsimp only
  rw [hpad, hhdr, hloop, Nat.add_sub_cancel, if_neg (by omega), if_neg (by omega),
    if_neg (show ¬ f.nbytes = 1 by omega)]
  simp only [byteAt_modify, byteAt_writeBytes, length_writeBytes, List.length_modify]
  by_cases hfirst : j / 8 = 0
  · rw [if_neg (by omega), if_neg (by omega), if_neg (by omega), if_pos ⟨hfirst, by omega⟩,
      if_pos ⟨hfirst, by omega⟩, hfirst, getMsbD_first_right hgt ho (Nat.mod_lt _ (by omega)),
      show j % 8 = j by omega]
  rw [decide_eq_false (by omega), decide_eq_true (by omega), Bool.false_and, Bool.false_or,
    Bool.true_and]
  by_cases hlast : j / 8 = f.bytes.length
  · rw [if_pos ⟨hlast, by omega⟩, if_pos ⟨hlast, by omega⟩, BitVec.getMsbD_or, BitVec.getMsbD_and,
      getMsbD_tail_mask _ (by omega) _ (by omega), Bool.and_false, Bool.false_or,
      ← window_of_le (by omega)]
    exact getMsbD_window_right hgt ho (by omega) (Nat.mod_lt _ (by omega))
  · have hwin := getMsbD_window_right (f := f) hgt ho (i := j / 8 - 1) (k := j % 8) (j := j)
      (by omega) (Nat.mod_lt _ (by omega))
    rw [window, show j / 8 - 1 + 1 = j / 8 by omega,
      show 8 - (8 - (o - padding f.nbits)) = o - padding f.nbits by omega] at hwin
    rw [if_neg fun h => hlast h.1, if_neg fun h => hlast h.1, if_pos ⟨by omega, by omega⟩]
    exact hwin

/-- The fields whose deparsing assigns the first byte. -/
def Overwrites (w o : ℕ) : Prop := o < padding w ∧ 8 < w

instance (w o : ℕ) : Decidable (Overwrites w o) := inferInstanceAs (Decidable (_ ∧ _))

/-- The bits up to the end of a deparsed field: its own bytes, put on top of what stands before
it in the first byte, unless that byte is assigned. -/
theorem bitAt_put (hf : f.Fixed) (ho : o < 8) (hlen : (o + f.nbits + 7) / 8 ≤ data.length)
    {j : ℕ} (hj : j < o + f.nbits) :
    bitAt (f.put data o) j = (decide (j < o ∧ ¬ Overwrites f.nbits o) && bitAt data j ||
      decide (o ≤ j + padding f.nbits) && bitAt f.bytes (j + padding f.nbits - o)) := by
  have hpos := hf.pos
  have hadd := padding_add f.nbits
  unfold Overwrites
  by_cases h0 : o = 0 ∧ f.nbits % 8 = 0
  · rw [bitAt_put_bytes hf h0 hlen hj, decide_eq_false (by omega), decide_eq_true (by omega),
      show j + padding f.nbits - o = j by omega]
    simp
  rcases lt_trichotomy o (padding f.nbits) with hlt | heq | hgt
  · rw [decide_eq_true (show o ≤ j + padding f.nbits by omega), Bool.true_and]
    by_cases hone : f.nbits ≤ 8
    · rw [bitAt_put_left_one hf ho hlt hone hlen hj]
      simp [show ¬ 8 < f.nbits by omega]
    · rw [bitAt_put_left hf hlt (by omega) hlen hj]
      simp [hlt, show 8 < f.nbits by omega]
  · rw [bitAt_put_aligned hf ho h0 heq.symm hlen hj, decide_eq_true
      (show o ≤ j + padding f.nbits by omega), show j + padding f.nbits - o = j by omega]
    simp [heq]
  · have hno : ¬ (o < padding f.nbits ∧ 8 < f.nbits) := by omega
    simp only [hno, not_false_eq_true, and_true]
    by_cases hone : f.nbits ≤ 8
    · exact bitAt_put_right_one hf ho hgt hone hlen hj
    · exact bitAt_put_right hf ho hgt (by omega) hlen hj

@[simp] theorem syncValue_nbits : f.syncValue.nbits = f.nbits := rfl
@[simp] theorem syncValue_nbytes : f.syncValue.nbytes = f.nbytes := rfl
@[simp] theorem syncValue_bytes : f.syncValue.bytes = f.bytes := rfl

theorem size_le_of_extract {f' : Field} (h : f.extract data o = some f') :
    o + f.nbits ≤ 8 * data.length := by
  by_contra hshort
  rw [extract, if_neg hshort] at h
  cases h

theorem nbits_of_extract {f' : Field} (h : f.extract data o = some f') : f'.nbits = f.nbits := by
  unfold extract at h
  split_ifs at h
  obtain rfl := Option.some.inj h
  split_ifs <;> rfl

/-- Extraction fills the bytes and leaves the width. -/
theorem extract_spec (hf : f.Fixed) (hlen : o + f.nbits ≤ 8 * data.length) :
    ∃ f', f.extract data o = some f' ∧ f'.Fixed ∧ f'.nbits = f.nbits ∧
      f'.bytes = genericExtract data o f.nbits f.bytes := by
  refine ⟨_, if_pos hlen, ?_⟩
  split_ifs
  · exact ⟨⟨hf.pos, hf.nbytes_eq, by simpa using hf.length_bytes⟩, rfl, rfl⟩
  · exact ⟨⟨hf.pos, hf.nbytes_eq, by simpa using hf.length_bytes⟩, rfl, rfl⟩

/-- A field that is extracted and deparsed at the same offset comes out as it was. Of the bits
before it in its first byte, those are lost that stand before a byte that is assigned. -/
theorem bitAt_put_extract {f' : Field} {src : List Byte} (hf : f.Fixed) (ho : o < 8)
    (hext : f.extract src o = some f') (hlen : (o + f.nbits + 7) / 8 ≤ data.length)
    (hbefore : ∀ j < o, bitAt data j = bitAt src j) {j : ℕ} (hj : j < o + f.nbits) :
    bitAt (f'.put data o) j =
      (bitAt src j && !decide (j < o ∧ Overwrites f.nbits o)) := by
  have hpos := hf.pos
  have hadd := padding_add f.nbits
  have hsome := size_le_of_extract hext
  obtain ⟨f'', hext', hf', hnbits, hbytes⟩ := extract_spec hf hsome
  obtain rfl : f' = f'' := Option.some.inj (hext.symm.trans hext')
  rw [bitAt_put hf' ho (by rwa [hnbits]) (by rwa [hnbits]), hnbits]
  have hown : o ≤ j + padding f.nbits → bitAt f'.bytes (j + padding f.nbits - o) =
      (decide (o ≤ j ∨ (f.nbits ≤ 8 ∧ padding f.nbits < o)) && bitAt src j) := by
    intro hfrom
    rw [hbytes, bitAt_genericExtract (by rw [hf.length_bytes, hf.nbytes_eq]) hpos ho (by omega),
      show o + (j + padding f.nbits - o) - padding f.nbits = j by omega]
    congr 2
    rw [eq_iff_iff]
    omega
  by_cases hpart : o ≤ j
  · rw [decide_eq_true (show o ≤ j + padding f.nbits by omega), hown (by omega),
      decide_eq_false (show ¬ (j < o ∧ _) by omega),
      decide_eq_false (show ¬ (j < o ∧ _) by omega), decide_eq_true (Or.inl hpart)]
    simp
  · rw [hbefore j (by omega)]
    by_cases hover : Overwrites f.nbits o
    · have hnone : ¬ (o ≤ j ∨ (f.nbits ≤ 8 ∧ padding f.nbits < o)) := by
        unfold Overwrites at hover
        omega
      rw [decide_eq_true (show o ≤ j + padding f.nbits by unfold Overwrites at hover; omega),
        hown (by unfold Overwrites at hover; omega), decide_eq_false hnone]
      simp [hover, show j < o by omega]
    · have hlt : j < o := by omega
      simp only [hlt, hover, not_false_eq_true, and_self, decide_true, Bool.true_and, and_false,
        decide_false, Bool.not_false, Bool.and_true]
      by_cases hfrom : o ≤ j + padding f.nbits
      · rw [hown hfrom]
        cases bitAt src j <;> simp
      · simp [hfrom]

end Field

end Bmv2
