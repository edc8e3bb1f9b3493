import Bmv2.Lib.ByteBuffer

/-! `generic_extract` (`extract.h`): a bit field of a packet is copied to bytes of its own, in
which it ends at the last bit. -/
namespace Bmv2
open ByteBits

/-- The destination has the bytes that the field needs. What is read past the end of `data`
counts as zero. -/
def genericExtract (data : List Byte) (bitOffset bitwidth : ℕ) (dst : List Byte) : List Byte :=
  let nbytes := (bitwidth + 7) / 8
  if bitOffset = 0 ∧ bitwidth % 8 = 0 then writeBytes dst 0 nbytes (byteAt data)
  else
    let dstOffset := 8 * nbytes - bitwidth
    if bitOffset = dstOffset then
      (writeBytes dst 0 nbytes (byteAt data)).modify 0 (· &&& ((0xff : Byte) >>> dstOffset))
    else if bitOffset > dstOffset then  -- shift left
      let offset := bitOffset - dstOffset
      let dst := writeBytes dst 0 (nbytes - 1) fun i =>
        (byteAt data i <<< offset) ||| (byteAt data (i + 1) >>> (8 - offset))
      let dst := dst.modify 0 (· &&& ((0xff : Byte) >>> dstOffset))
      let i := nbytes - 1
      let dst := dst.set i (byteAt data i <<< offset)
      if bitOffset + bitwidth > 8 * nbytes then
        dst.modify i (· ||| (byteAt data (i + 1) >>> (8 - offset)))
      else dst
    else  -- shift right
      let offset := dstOffset - bitOffset
      let dst := dst.set 0 (byteAt data 0 >>> offset)
      let dst := dst.modify 0 (· &&& ((0xff : Byte) >>> dstOffset))
      writeBytes dst 1 nbytes fun i =>
        (byteAt data (i - 1) <<< (8 - offset)) ||| (byteAt data i >>> offset)

variable {data dst : List Byte} {o w : ℕ}

@[simp] theorem length_genericExtract :
    (genericExtract data o w dst).length = dst.length := by
  unfold genericExtract
  dsimp only
  split_ifs <;> simp

/-- Nothing is left of what the destination held. -/
theorem genericExtract_congr {dst' : List Byte} (h : dst.length = (w + 7) / 8)
    (h' : dst'.length = (w + 7) / 8) :
    genericExtract data o w dst = genericExtract data o w dst' := by
  apply eq_of_byteAt (by rw [length_genericExtract, length_genericExtract, h, h'])
  intro k hk
  rw [length_genericExtract, h] at hk
  unfold genericExtract
  dsimp only
  split_ifs <;>
    simp only [byteAt_modify, byteAt_writeBytes, byteAt_set, length_writeBytes, List.length_modify,
      List.length_set, h, h'] <;>
    split_ifs <;> first | rfl | omega

/-- The bits of a field's bytes before the field. -/
def padding (w : ℕ) : ℕ := 8 * ((w + 7) / 8) - w

theorem padding_lt (w : ℕ) : padding w < 8 := by
  unfold padding
  omega

theorem padding_add (w : ℕ) : padding w + w = 8 * ((w + 7) / 8) := by
  unfold padding
  omega

theorem getMsbD_ones_shift : ∀ p < 8, ∀ k < 8,
    ((0xff : Byte) >>> p).getMsbD k = decide (p ≤ k) := by
  decide

/-- Clearing the first `p` bits of a byte. -/
theorem getMsbD_and_ones (b : Byte) {p k : ℕ} (hp : p < 8) (hk : k < 8) :
    (b &&& ((0xff : Byte) >>> p)).getMsbD k = (decide (p ≤ k) && b.getMsbD k) := by
  rw [BitVec.getMsbD_and, getMsbD_ones_shift p hp k hk, Bool.and_comm]

/-- Whole bytes. -/
theorem bitAt_extract_bytes (hlen : dst.length = (w + 7) / 8) (ho : o = 0 ∧ w % 8 = 0) {k : ℕ}
    (hk : k < 8 * ((w + 7) / 8)) : bitAt (genericExtract data o w dst) k = bitAt data k := by
  rw [genericExtract, if_pos ho, bitAt_eq, byteAt_writeBytes, if_pos (by omega), bitAt_eq]

/-- A field that starts where it ends up. -/
theorem bitAt_extract_aligned (hlen : dst.length = (w + 7) / 8)
    (hbytes : ¬ (o = 0 ∧ w % 8 = 0)) (ho : o = padding w) {k : ℕ}
    (hk : k < 8 * ((w + 7) / 8)) :
    bitAt (genericExtract data o w dst) k = (decide (padding w ≤ k) && bitAt data k) := by
  have hp := padding_lt w
  rw [genericExtract, if_neg hbytes]
  change bitAt (if o = padding w then _ else _) k = _
  rw [if_pos ho, bitAt_eq, byteAt_modify, byteAt_writeBytes, length_writeBytes,
    if_pos (show (0 ≤ k / 8 ∧ k / 8 < (w + 7) / 8) ∧ k / 8 < dst.length by omega), bitAt_eq]
  change
    ((if _ then byteAt data (k / 8) &&& ((0xff : Byte) >>> padding w) else _) : Byte).getMsbD _ = _
  by_cases hfirst : k / 8 = 0
  · rw [if_pos ⟨hfirst, by omega⟩, getMsbD_and_ones _ hp (by omega),
      show k % 8 = k by omega]
  · rw [if_neg fun h => hfirst h.1, decide_eq_true (by omega), Bool.true_and]

/-- A field that is moved towards the first byte. Of a field in one byte the bits before it
move along. -/
theorem bitAt_extract_left (hlen : dst.length = (w + 7) / 8) (hw : 0 < w) (ho : o < 8)
    (hlt : padding w < o) {k : ℕ} (hk : k < 8 * ((w + 7) / 8)) :
    bitAt (genericExtract data o w dst) k =
      (decide (padding w ≤ k ∨ w ≤ 8) && bitAt data (o + k - padding w)) := by
  have hp := padding_lt w
  have hadd := padding_add w
  have hwin : ∀ i, (byteAt data i <<< (o - padding w) |||
      (byteAt data (i + 1) >>> (8 - (o - padding w)))) = window data i (o - padding w) :=
    fun i => rfl
  have hbit : (window data (k / 8) (o - padding w)).getMsbD (k % 8) =
      bitAt data (o + k - padding w) := by
    rw [getMsbD_window _ _ (by omega) (by omega)]
    congr 1
    omega
  rw [genericExtract, if_neg (by omega)]
  change bitAt (if o = padding w then _ else if o > padding w then _ else _) k = _
  rw [if_neg (by omega), if_pos hlt]
  dsimp only
  change bitAt (if o + w > 8 * ((w + 7) / 8) then
    ((List.set _ _ (byteAt data ((w + 7) / 8 - 1) <<< (o - padding w))).modify _ _) else _) k = _
  rw [if_pos (by omega), bitAt_eq, byteAt_modify, byteAt_set]
  by_cases hlast : k / 8 = (w + 7) / 8 - 1
  · rw [if_pos ⟨hlast, by simp; omega⟩, if_pos ⟨hlast, by simp; omega⟩, ← hlast]
    change (_ ||| (byteAt data (k / 8 + 1) >>> (8 - (o - padding w)))).getMsbD _ = _
    rw [hwin, hbit, decide_eq_true (by omega), Bool.true_and]
  · rw [if_neg fun h => hlast h.1, if_neg fun h => hlast h.1, byteAt_modify, byteAt_writeBytes,
      length_writeBytes, if_pos (show (0 ≤ k / 8 ∧ k / 8 < (w + 7) / 8 - 1) ∧ _ by omega)]
    change ((if _ then window data (k / 8) (o - padding w) &&& ((0xff : Byte) >>> padding w)
      else window data (k / 8) (o - padding w)) : Byte).getMsbD _ = _
    by_cases hfirst : k / 8 = 0
    · rw [if_pos ⟨hfirst, by omega⟩, getMsbD_and_ones _ hp (by omega), hbit,
        show k % 8 = k by omega]
      congr 2
      simp
      omega
    · rw [if_neg fun h => hfirst h.1, hbit, decide_eq_true (by omega), Bool.true_and]

/-- A field that is moved towards the last byte. -/
theorem bitAt_extract_right (hlen : dst.length = (w + 7) / 8) (hlt : o < padding w) {k : ℕ}
    (hk : k < 8 * ((w + 7) / 8)) :
    bitAt (genericExtract data o w dst) k =
      (decide (padding w ≤ k) && bitAt data (o + k - padding w)) := by
  have hp := padding_lt w
  have hpad : padding w = 8 * ((w + 7) / 8) - w := rfl
  rw [genericExtract, if_neg (by omega)]
  change bitAt (if o = padding w then _ else if o > padding w then _ else _) k = _
  rw [if_neg (by omega), if_neg (by omega)]
  change bitAt (writeBytes ((dst.set 0 (byteAt data 0 >>> (padding w - o))).modify 0
    (· &&& ((0xff : Byte) >>> padding w))) 1 _ fun i =>
      (byteAt data (i - 1) <<< (8 - (padding w - o))) |||
      (byteAt data i >>> (padding w - o))) k = _
  rw [bitAt_eq, byteAt_writeBytes]
  by_cases hfirst : k / 8 = 0
  · have hk8 : k % 8 = k := by omega
    rw [if_neg (by omega), byteAt_modify, if_pos ⟨hfirst, by simp; omega⟩, byteAt_set,
      if_pos ⟨hfirst, by omega⟩, getMsbD_and_ones _ hp (by omega), BitVec.getMsbD_ushiftRight, hk8]
    by_cases hpk : padding w ≤ k
    · have hlow : ¬ k < padding w - o := by omega
      rw [bitAt_eq, show (o + k - padding w) / 8 = 0 by omega,
        show (o + k - padding w) % 8 = k - (padding w - o) by omega]
      simp [hpk, hlow]
      omega
    · simp [hpk]
  · have hwin : ((byteAt data (k / 8 - 1) <<< (8 - (padding w - o))) |||
        (byteAt data (k / 8) >>> (padding w - o))) =
        window data (k / 8 - 1) (8 - (padding w - o)) := by
      rw [window, show k / 8 - 1 + 1 = k / 8 by omega,
        show 8 - (8 - (padding w - o)) = padding w - o by omega]
    rw [if_pos (by simp; omega), hwin, getMsbD_window _ _ (by omega) (by omega),
      decide_eq_true (by omega), Bool.true_and]
    congr 1
    omega

/-- The bits of the destination: after the padding the field, in the padding zeros, but for a
field in one byte that was moved towards the first byte. -/
theorem bitAt_genericExtract (hlen : dst.length = (w + 7) / 8) (hw : 0 < w) (ho : o < 8) {k : ℕ}
    (hk : k < 8 * ((w + 7) / 8)) :
    bitAt (genericExtract data o w dst) k =
      (decide (padding w ≤ k ∨ (w ≤ 8 ∧ padding w < o)) && bitAt data (o + k - padding w)) := by
  have hpad : padding w = 8 * ((w + 7) / 8) - w := rfl
  by_cases hbytes : o = 0 ∧ w % 8 = 0
  · rw [bitAt_extract_bytes hlen hbytes hk, decide_eq_true (by omega), Bool.true_and]
    congr 1
    omega
  rcases lt_trichotomy o (padding w) with hlt | heq | hgt
  · rw [bitAt_extract_right hlen hlt hk]
    simp [show ¬ padding w < o by omega]
  · rw [bitAt_extract_aligned hlen hbytes heq hk, heq, Nat.add_sub_cancel_left]
    simp
  · rw [bitAt_extract_left hlen hw ho hgt hk]
    simp [hgt]

end Bmv2
