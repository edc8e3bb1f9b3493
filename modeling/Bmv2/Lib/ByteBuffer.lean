import Mathlib.Data.List.GetD
import Bmv2.Lib.BigEndian
import Bmv2.Lib.Blocks

/-! Byte buffers that are written one byte at a time, and the bits that are read back. -/
namespace ByteBits

/-- The byte at position `i`; positions past the end read as zero. -/
def byteAt (l : List Byte) (i : ℕ) : Byte := l.getD i 0

theorem bitAt_eq (l : List Byte) (i : ℕ) : bitAt l i = (byteAt l (i / 8)).getMsbD (i % 8) := rfl

theorem byteAt_of_le {l : List Byte} {i : ℕ} (h : l.length ≤ i) : byteAt l i = 0 :=
  List.getD_eq_default _ _ h

theorem bitAt_of_le {l : List Byte} {i : ℕ} (h : 8 * l.length ≤ i) : bitAt l i = false := by
  rw [bitAt_eq, byteAt_of_le (by omega)]
  simp

theorem getD_bits (l : List Byte) (i : ℕ) : (bits l).getD i false = bitAt l i := by
  by_cases h : i < 8 * l.length
  · rw [List.getD, bits_getElem? l h, Option.getD_some]
  · rw [bitAt_of_le (by omega), List.getD_eq_default _ _ (by rw [length_bits]; omega)]

theorem eq_of_byteAt {l l' : List Byte} (hlen : l.length = l'.length)
    (h : ∀ i < l.length, byteAt l i = byteAt l' i) : l = l' := by
  apply List.ext_getElem hlen
  intro i hi hi'
  have hbyte := h i hi
  rw [byteAt, byteAt, List.getD_eq_getElem _ _ hi, List.getD_eq_getElem _ _ hi'] at hbyte
  exact hbyte

theorem byteAt_eq_of_bitAt {l l' : List Byte} {i : ℕ}
    (h : ∀ k < 8, bitAt l (8 * i + k) = bitAt l' (8 * i + k)) : byteAt l i = byteAt l' i := by
  apply BitVec.eq_of_getMsbD_eq
  intro k hk
  have hbit := h k hk
  rwa [bitAt_eq, bitAt_eq, show (8 * i + k) / 8 = i by omega, show (8 * i + k) % 8 = k by omega]
    at hbit

theorem byteAt_set (l : List Byte) (i k : ℕ) (b : Byte) :
    byteAt (l.set i b) k = if k = i ∧ i < l.length then b else byteAt l k := by
  simp only [byteAt, List.getD, List.getElem?_set]
  by_cases hk : i = k
  · subst hk
    by_cases hi : i < l.length <;> simp [hi]
  · simp [hk, Ne.symm hk]

theorem byteAt_modify (l : List Byte) (i k : ℕ) (f : Byte → Byte) :
    byteAt (l.modify i f) k = if k = i ∧ i < l.length then f (byteAt l k) else byteAt l k := by
  simp only [byteAt, List.getD, List.getElem?_modify]
  by_cases hk : i = k
  · subst hk
    by_cases hi : i < l.length <;> simp [hi]
  · simp [hk, Ne.symm hk]

/-- The loop `for (i = lo; i < hi; i++) l[i] = g(i)`. -/
def writeBytes (l : List Byte) (lo hi : ℕ) (g : ℕ → Byte) : List Byte :=
  (List.range' lo (hi - lo)).foldl (fun l i => l.set i (g i)) l

@[simp] theorem length_writeBytes (l : List Byte) (lo hi : ℕ) (g : ℕ → Byte) :
    (writeBytes l lo hi g).length = l.length :=
  Blocks.length_foldl_set (σ := id) l

theorem byteAt_writeBytes (l : List Byte) (lo hi : ℕ) (g : ℕ → Byte) (k : ℕ) :
    byteAt (writeBytes l lo hi g) k =
      if (lo ≤ k ∧ k < hi) ∧ k < l.length then g k else byteAt l k := by
  have hmem : k ∈ List.range' lo (hi - lo) ↔ lo ≤ k ∧ k < hi := by
    rw [List.mem_range'_1]
    omega
  rw [writeBytes, byteAt, byteAt, List.getD, List.getD]
  by_cases hk : lo ≤ k ∧ k < hi
  · by_cases hlen : k < l.length
    · have hset := Blocks.foldl_set_of_mem (σ := id) (f := g) l
        (by simpa using List.nodup_range') (hmem.mpr hk) hlen
      rw [if_pos ⟨hk, hlen⟩]
      exact congrArg (·.getD 0) hset
    · have hwritten := length_writeBytes l lo hi g
      rw [writeBytes] at hwritten
      rw [if_neg fun h => hlen h.2, List.getElem?_eq_none (by omega),
        List.getElem?_eq_none (by omega)]
  · have hset := Blocks.foldl_set_of_notMem (σ := id) (f := g) l
      (show k ∉ (List.range' lo (hi - lo)).map id by rwa [List.map_id, hmem])
    rw [if_neg fun h => hk h.1]
    exact congrArg (·.getD 0) hset

theorem writeBytes_congr (l : List Byte) {lo hi : ℕ} {g g' : ℕ → Byte}
    (h : ∀ i, lo ≤ i → i < hi → g i = g' i) : writeBytes l lo hi g = writeBytes l lo hi g' := by
  apply eq_of_byteAt (by simp)
  intro k _
  rw [byteAt_writeBytes, byteAt_writeBytes]
  split_ifs with hk
  · exact h k hk.1.1 hk.1.2
  · rfl

/-- The byte that starts `s` bits after the start of byte `i`. -/
def window (l : List Byte) (i s : ℕ) : Byte :=
  (byteAt l i <<< s) ||| (byteAt l (i + 1) >>> (8 - s))

theorem getMsbD_window (l : List Byte) (i : ℕ) {s k : ℕ} (hs : s ≤ 8) (hk : k < 8) :
    (window l i s).getMsbD k = bitAt l (8 * i + k + s) := by
  rw [window, BitVec.getMsbD_or, BitVec.getMsbD_shiftLeft, BitVec.getMsbD_ushiftRight, bitAt_eq]
  by_cases hks : k + s < 8
  · have hdiv : (8 * i + k + s) / 8 = i := by omega
    have hmod : (8 * i + k + s) % 8 = k + s := by omega
    have hlow : k < 8 - s := by omega
    simp [hdiv, hmod, hlow]
  · have hdiv : (8 * i + k + s) / 8 = i + 1 := by omega
    have hmod : (8 * i + k + s) % 8 = k - (8 - s) := by omega
    have hlow : ¬ k < 8 - s := by omega
    have hout : (byteAt l i).getMsbD (k + s) = false := BitVec.getMsbD_of_ge _ _ (by omega)
    simp [hdiv, hmod, hlow, hout, hk]

/-- The last window of a buffer needs no other byte. -/
theorem window_of_le {l : List Byte} {i : ℕ} (h : l.length ≤ i + 1) (s : ℕ) :
    window l i s = byteAt l i <<< s := by
  rw [window, byteAt_of_le h]
  simp

theorem byteAt_drop (l : List Byte) (s i : ℕ) : byteAt (l.drop s) i = byteAt l (s + i) := by
  rw [byteAt, byteAt, List.getD, List.getD, List.getElem?_drop]

theorem byteAt_take {l : List Byte} {n i : ℕ} (hi : i < n) : byteAt (l.take n) i = byteAt l i := by
  rw [byteAt, byteAt, List.getD, List.getD, List.getElem?_take_of_lt hi]

theorem bitAt_drop (l : List Byte) (s j : ℕ) : bitAt (l.drop s) j = bitAt l (8 * s + j) := by
  have hdiv : (8 * s + j) / 8 = s + j / 8 := by omega
  have hmod : (8 * s + j) % 8 = j % 8 := by omega
  rw [bitAt_eq, bitAt_eq, hdiv, hmod, byteAt_drop]

theorem slice_drop {l : List Byte} {s o w : ℕ} (h : 8 * s + o + w ≤ 8 * l.length) :
    slice (l.drop s) o w = slice l (8 * s + o) w := by
  apply Nat.eq_of_testBit_eq
  intro j
  by_cases hj : j < w
  · rw [testBit_slice (by rw [List.length_drop]; omega) hj, testBit_slice h hj, bitAt_drop]
    congr 1
    omega
  · have hlarge : 2 ^ w ≤ 2 ^ j := Nat.pow_le_pow_right (by decide) (Nat.not_lt.mp hj)
    rw [Nat.testBit_lt_two_pow ((slice_lt _ _ _).trans_le hlarge),
      Nat.testBit_lt_two_pow ((slice_lt _ _ _).trans_le hlarge)]

theorem bitAt_append_left {a b : List Byte} {j : ℕ} (h : j < 8 * a.length) :
    bitAt (a ++ b) j = bitAt a j := by
  rw [bitAt_eq, bitAt_eq, byteAt, byteAt, List.getD_append _ _ _ _ (by omega)]

theorem bitAt_append_right {a b : List Byte} {j : ℕ} (h : 8 * a.length ≤ j) :
    bitAt (a ++ b) j = bitAt b (j - 8 * a.length) := by
  have hdiv : j / 8 - a.length = (j - 8 * a.length) / 8 := by omega
  have hmod : j % 8 = (j - 8 * a.length) % 8 := by omega
  rw [bitAt_eq, bitAt_eq, byteAt, byteAt, List.getD_append_right _ _ _ _ (by omega), hdiv, hmod]

theorem bitAt_take {l : List Byte} {s j : ℕ} (h : j < 8 * s) : bitAt (l.take s) j = bitAt l j := by
  have hdiv : j / 8 < s := by omega
  rw [bitAt_eq, bitAt_eq, byteAt, byteAt, List.getD, List.getD, List.getElem?_take, if_pos hdiv]

end ByteBits
