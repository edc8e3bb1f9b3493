import Bmv2.Lib.ByteBits
import Mathlib.Algebra.BigOperators.Group.List.Basic
import Mathlib.Data.Nat.ModEq
import Mathlib.Tactic.Zify

/-! One's complement sums of words, in which the carry goes around, and the Internet checksum. Up to
the two forms of zero such a sum is a sum modulo `2 ^ w - 1`, so that it can be taken in wider words
and in either byte order. -/
namespace OnesComplement
open ByteBits

/-- One's complement addition: the carry is added to the sum. -/
def add {w : ℕ} (a b : BitVec w) : BitVec w :=
  let sum := a.toNat + b.toNat
  BitVec.ofNat w (sum % 2 ^ w + sum / 2 ^ w)

def sum {w : ℕ} (words : List (BitVec w)) : BitVec w := words.foldl add 0

/-- The big-endian 16-bit words of a buffer; a zero byte is appended if its length is odd. -/
def words : List Byte → List (BitVec 16)
  | [] => []
  | [b] => [b ++ (0 : Byte)]
  | b :: b' :: l => (b ++ b') :: words l

/-- The Internet checksum: the one's complement of the one's complement sum of the words. -/
def checksum (buf : List Byte) : BitVec 16 := ~~~sum (words buf)

/-- The number that a byte string stands for, least significant byte first. -/
def littleEndian : List Byte → ℕ
  | [] => 0
  | b :: l => b.toNat + 2 ^ 8 * littleEndian l

/-- Numbers that stand for the same sum: congruent modulo `m`, and zero only together. -/
structure SameSum (m a b : ℕ) : Prop where
  modEq : a ≡ b [MOD m]
  zero_iff : a = 0 ↔ b = 0

namespace SameSum

variable {m a b c d w : ℕ}

theorem refl (m a : ℕ) : SameSum m a a := ⟨rfl, Iff.rfl⟩

theorem symm (h : SameSum m a b) : SameSum m b a := ⟨h.modEq.symm, h.zero_iff.symm⟩

theorem trans (h : SameSum m a b) (h' : SameSum m b c) : SameSum m a c :=
  ⟨h.modEq.trans h'.modEq, h.zero_iff.trans h'.zero_iff⟩

theorem add (h : SameSum m a b) (h' : SameSum m c d) : SameSum m (a + c) (b + d) where
  modEq := h.modEq.add h'.modEq
  zero_iff := by rw [Nat.add_eq_zero_iff, Nat.add_eq_zero_iff, h.zero_iff, h'.zero_iff]

theorem mul_left (k : ℕ) (h : SameSum m a b) : SameSum m (k * a) (k * b) where
  modEq := h.modEq.mul_left k
  zero_iff := by
    rw [Nat.mul_eq_zero, Nat.mul_eq_zero, h.zero_iff]

/-- A word is determined by the sum that it stands for. -/
theorem eq_of_le (h : SameSum m a b) (ha : a ≤ m) (hb : b ≤ m) : a = b := by
  obtain ⟨hmod, hzero⟩ := h
  by_cases hlt : a < m ∧ b < m
  · exact hmod.eq_of_lt_of_lt hlt.1 hlt.2
  · -- the sum is zero modulo `m`, and each side is either zero or `m`
    have hdvd : a = m → m ∣ b := fun heq => by
      rw [heq] at hmod
      exact (Nat.modEq_zero_iff_dvd.mp (hmod.symm.trans (by simp [Nat.ModEq])))
    have hdvd' : b = m → m ∣ a := fun heq => by
      rw [heq] at hmod
      exact (Nat.modEq_zero_iff_dvd.mp (hmod.trans (by simp [Nat.ModEq])))
    have hcases : ∀ x, x ≤ m → m ∣ x → x = 0 ∨ x = m := fun x hx hd =>
      (Nat.eq_zero_or_pos x).imp id fun hpos => le_antisymm hx (Nat.le_of_dvd hpos hd)
    rcases not_and_or.mp hlt with hna | hnb
    · have ham : a = m := by omega
      rcases hcases b hb (hdvd ham) with hb0 | hbm
      · rw [hb0, hzero.mpr hb0]
      · rw [ham, hbm]
    · have hbm : b = m := by omega
      rcases hcases a ha (hdvd' hbm) with ha0 | ham
      · rw [ha0, hzero.mp ha0]
      · rw [ham, hbm]

/-- A shift by a whole word does not change a sum. -/
theorem two_pow_mul (hw : m ∣ 2 ^ w - 1) (a : ℕ) : SameSum m (2 ^ w * a) a where
  modEq := by
    have hone : 2 ^ w ≡ 1 [MOD m] :=
      ((Nat.modEq_iff_dvd' (Nat.one_le_two_pow)).mpr hw).symm
    simpa using hone.mul_right a
  zero_iff := by simp

/-- The high part of a number may be added to its low part. -/
theorem fold (hw : m ∣ 2 ^ w - 1) (a : ℕ) : SameSum m (a % 2 ^ w + a / 2 ^ w) a := by
  have h := (refl m (a % 2 ^ w)).add (two_pow_mul hw (a / 2 ^ w))
  rw [Nat.mod_add_div] at h
  exact h.symm

end SameSum

variable {m w : ℕ}

theorem toNat_add (a b : BitVec w) :
    (add a b).toNat = (a.toNat + b.toNat) % 2 ^ w + (a.toNat + b.toNat) / 2 ^ w := by
  have ha := a.isLt
  have hb := b.isLt
  unfold add
  dsimp only
  rw [BitVec.toNat_ofNat]
  apply Nat.mod_eq_of_lt
  by_cases hlt : a.toNat + b.toNat < 2 ^ w
  · rw [Nat.mod_eq_of_lt hlt, Nat.div_eq_of_lt hlt]
    exact hlt
  · have hdiv : (a.toNat + b.toNat) / 2 ^ w = 1 := Nat.div_eq_of_lt_le (by omega) (by omega)
    have hmod := Nat.mod_add_div (a.toNat + b.toNat) (2 ^ w)
    rw [hdiv] at hmod ⊢
    omega

theorem sameSum_add (hw : m ∣ 2 ^ w - 1) (a b : BitVec w) :
    SameSum m (add a b).toNat (a.toNat + b.toNat) := by
  rw [toNat_add]
  exact .fold hw _

theorem sameSum_foldl (hw : m ∣ 2 ^ w - 1) (words : List (BitVec w)) (s : BitVec w) :
    SameSum m (words.foldl add s).toNat (s.toNat + (words.map BitVec.toNat).sum) := by
  induction words generalizing s with
  | nil => exact .refl m _
  | cons b words ih =>
    rw [List.foldl_cons, List.map_cons, List.sum_cons, ← Nat.add_assoc]
    exact (ih (add s b)).trans ((sameSum_add hw s b).add (.refl m _))

/-- A one's complement sum stands for the sum of its words. -/
theorem sameSum_sum (hw : m ∣ 2 ^ w - 1) (words : List (BitVec w)) :
    SameSum m (sum words).toNat (words.map BitVec.toNat).sum := by
  have h := sameSum_foldl hw words 0
  rwa [BitVec.ofNat_eq_ofNat, BitVec.toNat_ofNat, Nat.zero_mod, Nat.zero_add] at h

theorem littleEndian_append (l l' : List Byte) :
    littleEndian (l ++ l') = littleEndian l + 2 ^ (8 * l.length) * littleEndian l' := by
  induction l with
  | nil => simp [littleEndian]
  | cons b l ih =>
    rw [List.cons_append, littleEndian, ih, littleEndian, List.length_cons, Nat.mul_succ, pow_add]
    ring

theorem littleEndian_lt (l : List Byte) : littleEndian l < 2 ^ (8 * l.length) := by
  induction l with
  | nil => simp [littleEndian]
  | cons b l ih =>
    have hb := b.isLt
    rw [littleEndian, List.length_cons, Nat.mul_succ, pow_add]
    omega

/-- Parts of a string are summed, where each begins at a multiple of the width. -/
theorem sameSum_append {l l' : List Byte} (hw : m ∣ 2 ^ (8 * l.length) - 1) :
    SameSum m (littleEndian l + littleEndian l') (littleEndian (l ++ l')) := by
  rw [littleEndian_append]
  exact (SameSum.refl m _).add (SameSum.two_pow_mul hw _).symm

theorem toNat_append_byte (b b' : Byte) : (b ++ b').toNat = 2 ^ 8 * b.toNat + b'.toNat := by
  rw [BitVec.toNat_append, ← Nat.shiftLeft_add_eq_or_of_lt b'.isLt, Nat.shiftLeft_eq, Nat.mul_comm]

/-- The big-endian words of a string stand for the little-endian number, shifted by a byte. -/
theorem sameSum_words (l : List Byte) : SameSum (2 ^ 16 - 1)
    ((words l).map BitVec.toNat).sum (2 ^ 8 * littleEndian l) := by
  induction l using words.induct with
  | case1 => exact .refl _ _
  | case2 b =>
    rw [words, List.map_singleton, List.sum_singleton, toNat_append_byte]
    exact .refl _ _
  | case3 b b' l ih =>
    rw [words, List.map_cons, List.sum_cons, toNat_append_byte, littleEndian, littleEndian]
    have hhigh := SameSum.two_pow_mul (dvd_refl (2 ^ 16 - 1)) (b'.toNat + 2 ^ 8 * littleEndian l)
    have hword := (SameSum.refl (2 ^ 16 - 1) (2 ^ 8 * b.toNat)).add
      (((SameSum.refl _ b'.toNat).add ih).trans hhigh.symm)
    have hlhs : 2 ^ 8 * b.toNat + b'.toNat + ((words l).map BitVec.toNat).sum =
        2 ^ 8 * b.toNat + (b'.toNat + ((words l).map BitVec.toNat).sum) := by ring
    have hrhs : 2 ^ 8 * (b.toNat + 2 ^ 8 * (b'.toNat + 2 ^ 8 * littleEndian l)) =
        2 ^ 8 * b.toNat + 2 ^ 16 * (b'.toNat + 2 ^ 8 * littleEndian l) := by ring
    rw [hlhs, hrhs]
    exact hword

/-- Swap the bytes of a word. -/
def swap (a : BitVec 16) : BitVec 16 := a.setWidth 8 ++ (a >>> 8).setWidth 8

theorem toNat_swap (a : BitVec 16) :
    (swap a).toNat = 2 ^ 8 * (a.toNat % 2 ^ 8) + a.toNat / 2 ^ 8 := by
  have ha := a.isLt
  unfold swap
  rw [toNat_append_byte, BitVec.toNat_setWidth, BitVec.toNat_setWidth, BitVec.toNat_ushiftRight,
    Nat.shiftRight_eq_div_pow, Nat.mod_eq_of_lt (a := a.toNat / 2 ^ 8) (by omega)]

/-- Swapping the bytes of a sum shifts it by a byte. -/
theorem sameSum_swap (a : BitVec 16) :
    SameSum (2 ^ 16 - 1) (swap a).toNat (2 ^ 8 * a.toNat) := by
  have hhigh := (SameSum.two_pow_mul (dvd_refl (2 ^ 16 - 1)) (a.toNat / 2 ^ 8)).symm
  have hsum := (SameSum.refl (2 ^ 16 - 1) (2 ^ 8 * (a.toNat % 2 ^ 8))).add hhigh
  have heq : 2 ^ 8 * a.toNat = 2 ^ 8 * (a.toNat % 2 ^ 8) + 2 ^ 16 * (a.toNat / 2 ^ 8) := by omega
  rw [toNat_swap, heq]
  exact hsum

theorem swap_not (a : BitVec 16) : swap (~~~a) = ~~~swap a := by
  apply BitVec.eq_of_toNat_eq
  have ha := a.isLt
  rw [toNat_swap, BitVec.toNat_not, BitVec.toNat_not, toNat_swap]
  omega

theorem swap_swap (a : BitVec 16) : swap (swap a) = a := by
  apply BitVec.eq_of_toNat_eq
  have ha := a.isLt
  rw [toNat_swap, toNat_swap]
  omega

/-- The sum of the big-endian words is found as a sum in the other byte order, with its bytes
swapped. -/
theorem sum_words_eq_swap {buf : List Byte} {s : BitVec 16}
    (h : SameSum (2 ^ 16 - 1) s.toNat (littleEndian buf)) : sum (words buf) = swap s := by
  apply BitVec.eq_of_toNat_eq
  have hwords := (sameSum_sum (dvd_refl (2 ^ 16 - 1)) (words buf)).trans (sameSum_words buf)
  have hswap := (sameSum_swap s).trans (h.mul_left (2 ^ 8))
  exact (hwords.trans hswap.symm).eq_of_le (Nat.le_sub_one_of_lt (sum (words buf)).isLt)
    (Nat.le_sub_one_of_lt (swap s).isLt)

/-! ### A checksum among the words that it is for -/

/-- What is missing to a word of ones, put in the place of a zero word, makes the sum all ones. -/
theorem sum_set_not {words : List (BitVec w)} {i : ℕ} (hi : i < words.length) :
    sum (words.set i (~~~sum (words.set i 0))) = BitVec.allOnes w := by
  set s := sum (words.set i 0) with hs
  have hlt := s.isLt
  have hsum (x : BitVec w) : ((words.set i x).map BitVec.toNat).sum =
      ((words.set i 0).map BitVec.toNat).sum + x.toNat := by
    have hzero : (0 : BitVec w).toNat = 0 := BitVec.toNat_zero
    rw [List.map_set, List.map_set, List.sum_set, List.sum_set, if_pos (by simpa using hi),
      if_pos (by simpa using hi), hzero]
    omega
  have hzero := sameSum_sum (dvd_refl (2 ^ w - 1)) (words.set i 0)
  have hones := sameSum_sum (dvd_refl (2 ^ w - 1)) (words.set i (~~~s))
  rw [hsum, BitVec.toNat_not] at hones
  have htotal := hones.trans (hzero.symm.add (.refl _ (2 ^ w - 1 - s.toNat)))
  rw [← hs, Nat.add_sub_cancel' (Nat.le_sub_one_of_lt hlt)] at htotal
  apply BitVec.eq_of_toNat_eq
  rw [BitVec.toNat_allOnes]
  exact htotal.eq_of_le (Nat.le_sub_one_of_lt (BitVec.isLt _)) le_rfl

theorem words_set {buf : List Byte} {i : ℕ} (hi : 2 * i + 1 < buf.length) (b b' : Byte) :
    words ((buf.set (2 * i) b).set (2 * i + 1) b') = (words buf).set i (b ++ b') := by
  induction i generalizing buf with
  | zero =>
    match buf, hi with
    | _ :: _ :: rest, _ => rfl
  | succ i ih =>
    match buf, hi with
    | x :: y :: rest, hi =>
      rw [List.length_cons, List.length_cons] at hi
      change words (x :: y :: ((rest.set (2 * i) b).set (2 * i + 1) b')) = _
      rw [words, words, ih (by omega), List.set_cons_succ]

theorem lt_length_words {buf : List Byte} {i : ℕ} (hi : 2 * i + 1 < buf.length) :
    i < (words buf).length := by
  induction i generalizing buf with
  | zero =>
    match buf, hi with
    | _ :: _ :: rest, _ => exact Nat.succ_pos _
  | succ i ih =>
    match buf, hi with
    | x :: y :: rest, hi =>
      rw [List.length_cons, List.length_cons] at hi
      exact Nat.succ_lt_succ (ih (by omega))

/-- A buffer with its own checksum in it has the checksum zero. -/
theorem checksum_eq_zero {buf : List Byte} {i : ℕ} (hi : 2 * i + 1 < buf.length) {b b' : Byte}
    (h : b ++ b' = checksum ((buf.set (2 * i) 0).set (2 * i + 1) 0)) :
    checksum ((buf.set (2 * i) b).set (2 * i + 1) b') = 0 := by
  have hzero : ((0 : Byte) ++ (0 : Byte) : BitVec 16) = 0 := rfl
  rw [checksum, words_set hi] at h
  rw [checksum, words_set hi, h, hzero, sum_set_not (lt_length_words hi), BitVec.not_allOnes]
  rfl

end OnesComplement
