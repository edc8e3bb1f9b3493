import Bmv2.Lib.OnesComplement

/-! The sums of 16-bit words of `calculations.cpp` and `checksums.cpp`, on a little-endian host:
eight bytes at a time, with the carry added at once, and folded to 16 bits at the end. -/
namespace Bmv2
open ByteBits OnesComplement

namespace cksum16

/-- `sum += s; if (sum < s) sum++;` -/
def addCarry {w : ℕ} (sum s : BitVec w) : BitVec w :=
  let sum := sum + s
  if sum < s then sum + 1 else sum

/-- The word of `n` bytes that a pointer points to, extended to 64 bits. -/
def load (n : ℕ) (b : List Byte) : BitVec 64 := BitVec.ofNat 64 (littleEndian (b.take n))

/-- The main loop, while there are eight bytes: the sum, and the bytes that are left. -/
def mainLoop (sum : BitVec 64) : List Byte → BitVec 64 × List Byte
  | b₀ :: b₁ :: b₂ :: b₃ :: b₄ :: b₅ :: b₆ :: b₇ :: b =>
    mainLoop (addCarry sum (load 8 [b₀, b₁, b₂, b₃, b₄, b₅, b₆, b₇])) b
  | tail => (sum, tail)

/-- The tail of less than eight bytes. -/
def addTail (sum : BitVec 64) (tail : List Byte) : BitVec 64 :=
  let len := tail.length
  let (sum, tail) :=
    if len &&& 4 ≠ 0 then (addCarry sum (load 4 tail), tail.drop 4) else (sum, tail)
  let (sum, tail) :=
    if len &&& 2 ≠ 0 then (addCarry sum (load 2 tail), tail.drop 2) else (sum, tail)
  if len &&& 1 ≠ 0 then addCarry sum (load 1 tail) else sum

/-- Fold down to 16 bits. -/
def fold (sum : BitVec 64) : BitVec 16 :=
  let t1 : BitVec 32 := addCarry (sum.setWidth 32) ((sum >>> 32).setWidth 32)
  addCarry (t1.setWidth 16) ((t1 >>> 16).setWidth 16)

/-- The sum, in the byte order of the host. -/
def sum (buf : List Byte) : BitVec 16 :=
  let (sum, tail) := mainLoop 0 buf
  fold (addTail sum tail)

end cksum16

def ntohs (x : BitVec 16) : BitVec 16 := swap x

/-- `cksum16` of `calculations.cpp`. -/
def Calculations.cksum16 (buf : List Byte) : BitVec 16 := ntohs (~~~cksum16.sum buf)

/-- `cksum16` of `checksums.cpp`. -/
def Checksums.cksum16 (buf : List Byte) : BitVec 16 := ~~~cksum16.sum buf

namespace cksum16

variable {m w : ℕ}

/-- The comparison finds the carry. -/
theorem addCarry_eq (sum s : BitVec w) : addCarry sum s = OnesComplement.add sum s := by
  have ha := sum.isLt
  have hs := s.isLt
  have hone : (1 : BitVec w).toNat = 1 % 2 ^ w := BitVec.toNat_ofNat 1 w
  unfold addCarry
  dsimp only
  apply BitVec.eq_of_toNat_eq
  rw [toNat_add]
  by_cases hcarry : sum.toNat + s.toNat < 2 ^ w
  · rw [if_neg (by rw [BitVec.lt_def, BitVec.toNat_add, Nat.mod_eq_of_lt hcarry]; omega),
      BitVec.toNat_add, Nat.div_eq_of_lt hcarry]
    rfl
  · have hdiv : (sum.toNat + s.toNat) / 2 ^ w = 1 := Nat.div_eq_of_lt_le (by omega) (by omega)
    have hmod := Nat.mod_add_div (sum.toNat + s.toNat) (2 ^ w)
    rw [hdiv] at hmod
    rw [if_pos (by rw [BitVec.lt_def, BitVec.toNat_add]; omega), hdiv, BitVec.toNat_add,
      BitVec.toNat_add, hone, Nat.mod_eq_of_lt (by omega : 1 < 2 ^ w), Nat.mod_eq_of_lt (by omega)]

theorem sameSum_addCarry (hw : m ∣ 2 ^ w - 1) (sum s : BitVec w) :
    SameSum m (addCarry sum s).toNat (sum.toNat + s.toNat) := by
  rw [addCarry_eq]
  exact sameSum_add hw sum s

theorem toNat_load {n : ℕ} (hn : n ≤ 8) (b : List Byte) :
    (load n b).toNat = littleEndian (b.take n) := by
  have hlt := littleEndian_lt (b.take n)
  have hpow : 2 ^ (8 * (b.take n).length) ≤ 2 ^ 64 := by
    apply Nat.pow_le_pow_right (by decide)
    rw [List.length_take]
    omega
  rw [load, BitVec.toNat_ofNat, Nat.mod_eq_of_lt (hlt.trans_le hpow)]

/-- A step of the sum: what is loaded goes from the bytes to the sum. -/
theorem sameSum_load (sum : BitVec 64) {n : ℕ} {b : List Byte} (hn : n ≤ 8)
    (hdvd : 2 ^ 16 - 1 ∣ 2 ^ (8 * n) - 1) (hlen : n ≤ b.length) :
    SameSum (2 ^ 16 - 1) ((addCarry sum (load n b)).toNat + littleEndian (b.drop n))
      (sum.toNat + littleEndian b) := by
  have hadd := sameSum_addCarry (w := 64) (m := 2 ^ 16 - 1) (by decide) sum (load n b)
  have hsplit : SameSum (2 ^ 16 - 1) (littleEndian (b.take n) + littleEndian (b.drop n))
      (littleEndian (b.take n ++ b.drop n)) := by
    apply sameSum_append
    rwa [List.length_take, Nat.min_eq_left hlen]
  rw [List.take_append_drop] at hsplit
  rw [toNat_load hn] at hadd
  have hstep := hadd.add (.refl _ (littleEndian (b.drop n)))
  rw [Nat.add_assoc] at hstep
  exact hstep.trans ((SameSum.refl _ sum.toNat).add hsplit)

/-- The last byte is not followed by others. -/
theorem sameSum_load_last (sum : BitVec 64) {b : List Byte} (hlen : b.length = 1) :
    SameSum (2 ^ 16 - 1) (addCarry sum (load 1 b)).toNat (sum.toNat + littleEndian b) := by
  have hadd := sameSum_addCarry (w := 64) (m := 2 ^ 16 - 1) (by decide) sum (load 1 b)
  rwa [toNat_load (by decide), List.take_of_length_le hlen.le] at hadd

theorem mainLoop_spec (sum : BitVec 64) (buf : List Byte) :
    (mainLoop sum buf).2.length < 8 ∧
      SameSum (2 ^ 16 - 1) ((mainLoop sum buf).1.toNat + littleEndian (mainLoop sum buf).2)
        (sum.toNat + littleEndian buf) := by
  induction sum, buf using mainLoop.induct with
  | case1 sum b₀ b₁ b₂ b₃ b₄ b₅ b₆ b₇ b ih =>
    obtain ⟨hlen, hsum⟩ := ih
    rw [mainLoop]
    exact ⟨hlen, hsum.trans (sameSum_load sum (n := 8)
      (b := b₀ :: b₁ :: b₂ :: b₃ :: b₄ :: b₅ :: b₆ :: b₇ :: b) le_rfl (by decide) (by simp))⟩
  | case2 sum tail hshort =>
    have heq : mainLoop sum tail = (sum, tail) := by
      rw [mainLoop]
      exact hshort
    rw [heq]
    refine ⟨?_, .refl _ _⟩
    by_contra hlong
    rcases tail with _ | ⟨b₀, _ | ⟨b₁, _ | ⟨b₂, _ | ⟨b₃,
      _ | ⟨b₄, _ | ⟨b₅, _ | ⟨b₆, _ | ⟨b₇, b⟩⟩⟩⟩⟩⟩⟩⟩
    case cons.cons.cons.cons.cons.cons.cons.cons => exact hshort _ _ _ _ _ _ _ _ _ rfl
    all_goals simp at hlong

/-- A part of the tail that is there or not. -/
theorem sameSum_loadIf (c : Prop) [Decidable c] (sum : BitVec 64) {n : ℕ} {b : List Byte}
    (hn : n ≤ 8) (hdvd : 2 ^ 16 - 1 ∣ 2 ^ (8 * n) - 1) (hlen : c → n ≤ b.length) :
    SameSum (2 ^ 16 - 1)
      ((if c then (addCarry sum (load n b), b.drop n) else (sum, b)).1.toNat +
        littleEndian (if c then (addCarry sum (load n b), b.drop n) else (sum, b)).2)
      (sum.toNat + littleEndian b) := by
  split_ifs with hc
  · exact sameSum_load sum hn hdvd (hlen hc)
  · exact .refl _ _

theorem length_loadIf (c : Prop) [Decidable c] (sum s : BitVec 64) (n : ℕ) (b : List Byte) :
    (if c then (addCarry sum s, b.drop n) else (sum, b)).2.length =
      b.length - if c then n else 0 := by
  split_ifs
  · exact List.length_drop
  · rfl

/-- The bits of the length say which parts a tail has. -/
theorem tail_bits : ∀ len < 8, (len &&& 4 ≠ 0 ↔ 4 ≤ len) ∧ (len &&& 2 ≠ 0 ↔ 2 ≤ len % 4) ∧
    (len &&& 1 ≠ 0 ↔ len % 2 = 1) := by
  decide

theorem addTail_spec (sum : BitVec 64) {tail : List Byte} (hlen : tail.length < 8) :
    SameSum (2 ^ 16 - 1) (addTail sum tail).toNat (sum.toNat + littleEndian tail) := by
  obtain ⟨h4, h2, h1⟩ := tail_bits tail.length hlen
  unfold addTail
  dsimp only
  have hfour := sameSum_loadIf (tail.length &&& 4 ≠ 0) sum (n := 4) (b := tail) (by decide)
    (by decide) h4.mp
  have hlen4 := length_loadIf (tail.length &&& 4 ≠ 0) sum (load 4 tail) 4 tail
  generalize (if tail.length &&& 4 ≠ 0 then (addCarry sum (load 4 tail), tail.drop 4)
    else (sum, tail)) = r4 at hfour hlen4 ⊢
  have htwo := sameSum_loadIf (tail.length &&& 2 ≠ 0) r4.1 (n := 2) (b := r4.2) (by decide)
    (by decide) (fun h => by have := h2.mp h; split_ifs at hlen4 <;> omega)
  have hlen2 := length_loadIf (tail.length &&& 2 ≠ 0) r4.1 (load 2 r4.2) 2 r4.2
  generalize (if tail.length &&& 2 ≠ 0 then (addCarry r4.1 (load 2 r4.2), r4.2.drop 2)
    else (r4.1, r4.2)) = r2 at htwo hlen2 ⊢
  have hrest : r2.2.length = tail.length % 2 := by
    split_ifs at hlen4 hlen2 <;> omega
  refine SameSum.trans ?_ (htwo.trans hfour)
  split_ifs with hone
  · exact sameSum_load_last r2.1 (hrest.trans (h1.mp hone))
  · have hnil : r2.2 = [] := List.eq_nil_of_length_eq_zero (by omega)
    rw [hnil]
    exact .refl _ _

/-- A word is folded to half of its width. -/
theorem sameSum_fold {v : ℕ} (hw : m ∣ 2 ^ w - 1) (hv : v ≤ 2 * w) (s : BitVec v) :
    SameSum m (addCarry (s.setWidth w) ((s >>> w).setWidth w)).toNat s.toNat := by
  have hhigh : s.toNat / 2 ^ w < 2 ^ w := by
    rw [Nat.div_lt_iff_lt_mul (Nat.two_pow_pos w), ← pow_add]
    exact s.isLt.trans_le (Nat.pow_le_pow_right (by decide) (by omega))
  have hadd := sameSum_addCarry hw (s.setWidth w) ((s >>> w).setWidth w)
  rw [BitVec.toNat_setWidth, BitVec.toNat_setWidth, BitVec.toNat_ushiftRight,
    Nat.shiftRight_eq_div_pow, Nat.mod_eq_of_lt hhigh] at hadd
  exact hadd.trans (.fold hw s.toNat)

theorem fold_spec (sum : BitVec 64) : SameSum (2 ^ 16 - 1) (fold sum).toNat sum.toNat :=
  (sameSum_fold (by decide) (by decide) _).trans (sameSum_fold (by decide) (by decide) sum)

/-- The sum is the one's complement sum of the words, in the byte order of the host. -/
theorem swap_sum (buf : List Byte) : swap (cksum16.sum buf) = OnesComplement.sum (words buf) := by
  obtain ⟨hlen, hmain⟩ := mainLoop_spec 0 buf
  refine (sum_words_eq_swap ?_).symm
  unfold cksum16.sum
  dsimp only
  have htail := addTail_spec (mainLoop 0 buf).1 hlen
  have hzero : (0 : BitVec 64).toNat + littleEndian buf = littleEndian buf := by simp
  rw [hzero] at hmain
  exact (fold_spec _).trans (htail.trans hmain)

theorem calculations_eq (buf : List Byte) : Calculations.cksum16 buf = checksum buf := by
  rw [Calculations.cksum16, ntohs, swap_not, swap_sum, checksum]

theorem checksums_eq (buf : List Byte) : Checksums.cksum16 buf = swap (checksum buf) := by
  rw [Checksums.cksum16, checksum, swap_not, ← swap_sum, swap_swap]

/-- Both versions compute the Internet checksum: one as a number, the other in the byte order of
the host. -/
theorem cksum16_eq_checksum (buf : List Byte) :
    Calculations.cksum16 buf = checksum buf ∧
      Checksums.cksum16 buf = swap (checksum buf) ∧
      Calculations.cksum16 buf = swap (Checksums.cksum16 buf) :=
  ⟨calculations_eq buf, checksums_eq buf, rfl⟩

example : Calculations.cksum16 [0x00, 0x01, 0xf2, 0x03, 0xf4, 0xf5, 0xf6, 0xf7, 0xff] = 0x230c := by
  decide +kernel

end cksum16

end Bmv2
