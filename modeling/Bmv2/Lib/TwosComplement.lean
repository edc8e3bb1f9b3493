import Mathlib.Data.Int.Bitwise
import Mathlib.Data.Int.ModEq
import Mathlib.Data.Nat.Bitwise
import Mathlib.Tactic.Positivity
import Mathlib.Tactic.Ring
import Mathlib.Tactic.Zify

/-! Numbers of a fixed width in two's complement. -/
namespace TwosComplement

theorem natCast_mask (n : ℕ) : ((2 ^ n - 1 : ℕ) : ℤ) = 2 ^ n - 1 := by
  rw [Nat.cast_sub (Nat.two_pow_pos n)]
  push_cast
  rfl

/-- Masking the low bits of an integer. -/
theorem land_mask (v : ℤ) (n : ℕ) : Int.land v (2 ^ n - 1) = v % 2 ^ n := by
  have hpos := Nat.two_pow_pos n
  have hpow : (2 ^ n : ℤ) = ((2 ^ n : ℕ) : ℤ) := by push_cast; rfl
  rw [← natCast_mask, hpow]
  cases v with
  | ofNat a =>
    change ((a &&& (2 ^ n - 1) : ℕ) : ℤ) = (a : ℤ) % _
    rw [Nat.and_two_pow_sub_one_eq_mod, Int.natCast_mod]
  | negSucc a =>
    change ((Nat.ldiff (2 ^ n - 1) a : ℕ) : ℤ) = _
    have hlt : a % 2 ^ n < 2 ^ n := Nat.mod_lt _ hpos
    have hdiff : Nat.ldiff (2 ^ n - 1) a = 2 ^ n - (a % 2 ^ n + 1) := by
      apply Nat.eq_of_testBit_eq
      intro j
      rw [Nat.testBit_ldiff, Nat.testBit_two_pow_sub_one, Nat.testBit_two_pow_sub_succ hlt,
        Nat.testBit_mod_two_pow]
      by_cases hj : j < n <;> simp [hj]
    rw [hdiff, Int.negSucc_emod _ (by exact_mod_cast hpos), Nat.cast_sub (by omega)]
    push_cast
    ring

/-- Setting the low bits of an integer that was shifted over them. -/
theorem lor_shiftLeft (v : ℤ) {n o : ℕ} (ho : o < 2 ^ n) :
    Int.lor (v <<< n) o = v * 2 ^ n + o := by
  have hpos := Nat.two_pow_pos n
  rw [Int.shiftLeft_eq]
  cases v with
  | ofNat a =>
    have hor := Nat.shiftLeft_add_eq_or_of_lt ho a
    rw [Nat.shiftLeft_eq] at hor
    have hcast : (Int.ofNat a * 2 ^ n : ℤ) = ((a * 2 ^ n : ℕ) : ℤ) := by push_cast; rfl
    rw [hcast]
    change ((a * 2 ^ n ||| o : ℕ) : ℤ) = _
    rw [← hor, Nat.cast_add]
  | negSucc a =>
    have hshift : (Int.negSucc a * 2 ^ n : ℤ) = Int.negSucc (2 ^ n * a + (2 ^ n - 1)) := by
      rw [Int.negSucc_eq, Int.negSucc_eq, Nat.cast_add, Nat.cast_sub hpos]
      push_cast
      ring
    have hdiff : Nat.ldiff (2 ^ n * a + (2 ^ n - 1)) o = 2 ^ n * a + (2 ^ n - (o + 1)) := by
      apply Nat.eq_of_testBit_eq
      intro j
      rw [Nat.testBit_ldiff, Nat.testBit_two_pow_mul_add _ (by omega),
        Nat.testBit_two_pow_mul_add _ (by omega)]
      split_ifs with hj
      · rw [Nat.testBit_two_pow_sub_one, Nat.testBit_two_pow_sub_succ ho]
      · have hzero : o.testBit j = false :=
          Nat.testBit_lt_two_pow (ho.trans_le (Nat.pow_le_pow_right (by norm_num) (not_lt.mp hj)))
        rw [hzero, Bool.not_false, Bool.and_true]
    rw [hshift]
    change Int.negSucc (Nat.ldiff (2 ^ n * a + (2 ^ n - 1)) o) = _
    rw [hdiff, Int.negSucc_eq, Int.negSucc_eq]
    push_cast [Nat.cast_sub hpos, Nat.cast_sub (Nat.succ_le_of_lt ho)]
    ring

/-- The integer that the low `n` bits stand for, the highest of them being the sign. -/
def signed (n u : ℕ) : ℤ := if u.testBit (n - 1) then (u : ℤ) - 2 ^ n else u

theorem testBit_high_iff {n u : ℕ} (hn : 0 < n) (hu : u < 2 ^ n) :
    u.testBit (n - 1) = true ↔ 2 ^ (n - 1) ≤ u := by
  obtain ⟨m, rfl⟩ : ∃ m, n = m + 1 := ⟨n - 1, by omega⟩
  rw [Nat.add_sub_cancel]
  constructor
  · exact Nat.ge_two_pow_of_testBit
  · intro hle
    rw [Nat.testBit_eq_decide_div_mod_eq, decide_eq_true_iff]
    have hdiv : u / 2 ^ m = 1 := by
      apply Nat.div_eq_of_lt_le
      · rwa [Nat.one_mul]
      · rwa [← Nat.pow_succ']
    rw [hdiv]

/-- The integers that `n` bits can stand for. -/
def InRange (n : ℕ) (v : ℤ) : Prop := -2 ^ (n - 1) ≤ v ∧ v < 2 ^ (n - 1)

instance (n : ℕ) (v : ℤ) : Decidable (InRange n v) := inferInstanceAs (Decidable (_ ∧ _))

theorem two_pow_half {n : ℕ} (hn : 0 < n) : (2 ^ n : ℤ) = 2 ^ (n - 1) + 2 ^ (n - 1) := by
  obtain ⟨m, rfl⟩ : ∃ m, n = m + 1 := ⟨n - 1, by omega⟩
  rw [Nat.add_sub_cancel]
  ring

/-- What is read back is in range exactly when there are no bits above the sign. -/
theorem inRange_signed_iff {n u : ℕ} (hn : 0 < n) : InRange n (signed n u) ↔ u < 2 ^ n := by
  have hhalf := two_pow_half hn
  have hpos : (0 : ℤ) < 2 ^ (n - 1) := by positivity
  constructor
  · rintro ⟨-, hlt⟩
    unfold signed at hlt
    zify
    split_ifs at hlt with hbit
    · by_contra hge
      push Not at hge
      have hmod : u % 2 ^ n + 2 ^ n ≤ u := by
        have hdiv := Nat.div_add_mod u (2 ^ n)
        have hone : 1 ≤ u / 2 ^ n :=
          (Nat.one_le_div_iff (Nat.two_pow_pos n)).mpr (by exact_mod_cast hge)
        have hmul := Nat.mul_le_mul_left (2 ^ n) hone
        omega
      have hhigh : 2 ^ (n - 1) ≤ u % 2 ^ n := by
        rw [← testBit_high_iff hn (Nat.mod_lt _ (Nat.two_pow_pos n)), Nat.testBit_mod_two_pow, hbit,
          decide_eq_true (by omega)]
        rfl
      zify at hmod hhigh
      omega
    · omega
  · intro hu
    have hcast : (u : ℤ) < 2 ^ n := by exact_mod_cast hu
    unfold signed InRange
    split_ifs with hbit
    · have hhigh : (2 ^ (n - 1) : ℤ) ≤ u := by exact_mod_cast (testBit_high_iff hn hu).mp hbit
      constructor <;> omega
    · have hlow : (u : ℤ) < 2 ^ (n - 1) := by
        have := mt (testBit_high_iff hn hu).mpr hbit
        exact_mod_cast Nat.not_le.mp this
      constructor <;> omega

/-- A number in range is read back from its low bits. -/
theorem signed_of_inRange {n : ℕ} {v : ℤ} (hn : 0 < n) (h : InRange n v) :
    signed n (v % 2 ^ n).toNat = v := by
  have hhalf := two_pow_half hn
  have hpos : (0 : ℤ) < 2 ^ (n - 1) := by positivity
  have hlt : (v % 2 ^ n).toNat < 2 ^ n := by
    zify
    rw [Int.toNat_of_nonneg (Int.emod_nonneg _ (by omega))]
    exact Int.emod_lt_of_pos _ (by omega)
  have hcast : ((v % 2 ^ n).toNat : ℤ) = v % 2 ^ n :=
    Int.toNat_of_nonneg (Int.emod_nonneg _ (by omega))
  have hhigh := testBit_high_iff hn hlt
  zify at hhigh
  rw [hcast] at hhigh
  obtain ⟨hmin, hmax⟩ := h
  unfold signed
  rw [hcast]
  by_cases hneg : v < 0
  · have hmod : v % 2 ^ n = v + 2 ^ n := by
      rw [← Int.add_emod_right, Int.emod_eq_of_lt (by omega) (by omega)]
    rw [if_pos (hhigh.mpr (by omega)), hmod]
    ring
  · have hmod : v % 2 ^ n = v := Int.emod_eq_of_lt (by omega) (by omega)
    rw [if_neg (fun hbit => by have := hhigh.mp hbit; omega), hmod]

theorem InRange.mono {m n : ℕ} {v : ℤ} (h : InRange m v) (hmn : m ≤ n) : InRange n v := by
  have hpow : (2 : ℤ) ^ (m - 1) ≤ 2 ^ (n - 1) :=
    pow_le_pow_right₀ (by norm_num) (Nat.sub_le_sub_right hmn 1)
  obtain ⟨hmin, hmax⟩ := h
  exact ⟨by omega, by omega⟩

theorem InRange.lt_two_pow {m n : ℕ} {v : ℤ} (h : InRange m v) (hmn : m ≤ n) : v < 2 ^ n := by
  have hpow : (2 : ℤ) ^ (m - 1) ≤ 2 ^ n := pow_le_pow_right₀ (by norm_num) (by omega)
  exact h.2.trans_le hpow

/-- `v` is the only integer of `n` bits that is congruent to `x` modulo `2 ^ n`. -/
def IsReduction (n : ℕ) (x v : ℤ) : Prop := ∀ y, InRange n y ∧ y ≡ x [ZMOD 2 ^ n] ↔ y = v

theorem isReduction_bmod {n : ℕ} (hn : 0 < n) (x : ℤ) : IsReduction n x (x.bmod (2 ^ n)) := by
  intro y
  have hhalf : 2 ^ n = 2 * 2 ^ (n - 1) := by
    rw [← pow_succ', Nat.sub_add_cancel hn]
  have hmod : y ≡ x [ZMOD 2 ^ n] ↔ ((2 ^ n : ℕ) : ℤ) ∣ y - x := by
    rw [Int.modEq_comm, Int.modEq_iff_dvd, Nat.cast_pow, Nat.cast_ofNat]
  have hrange : InRange n y ↔ -(((2 ^ n : ℕ) : ℤ) / 2) ≤ y ∧ y < (((2 ^ n : ℕ) : ℤ) + 1) / 2 := by
    rw [hhalf, InRange]
    push_cast
    constructor <;> rintro ⟨hmin, hmax⟩ <;> constructor <;> omega
  rw [hmod, hrange, and_assoc, ← Int.bmod_eq_iff (Nat.two_pow_pos n), eq_comm]

theorem isReduction_iff {n : ℕ} {x v : ℤ} (hn : 0 < n) :
    IsReduction n x v ↔ InRange n v ∧ v ≡ x [ZMOD 2 ^ n] := by
  constructor
  · intro h
    exact (h v).mpr rfl
  · intro h
    rw [(isReduction_bmod hn x v).mp h]
    exact isReduction_bmod hn x

theorem isReduction_self {n : ℕ} {x : ℤ} (h : InRange n x) (hn : 0 < n) : IsReduction n x x :=
  (isReduction_iff hn).mpr ⟨h, rfl⟩

theorem isReduction_zero_iff {n : ℕ} {x : ℤ} (hn : 0 < n) : IsReduction n x 0 ↔ 2 ^ n ∣ x := by
  have hpow : (0 : ℤ) < 2 ^ (n - 1) := by positivity
  have hin : InRange n 0 := ⟨by omega, hpow⟩
  rw [isReduction_iff hn, and_iff_right hin, Int.modEq_comm, Int.modEq_zero_iff_dvd]

/-- Masking what is out of range and subtracting above the maximum. -/
theorem bmod_eq_ite {n : ℕ} (hn : 0 < n) (v : ℤ) :
    (if v < -2 ^ (n - 1) ∨ v > 2 ^ (n - 1) - 1 then
      if Int.land v (2 ^ n - 1) > 2 ^ (n - 1) - 1 then Int.land v (2 ^ n - 1) - 2 ^ n
      else Int.land v (2 ^ n - 1)
    else v) = v.bmod (2 ^ n) := by
  have hhalf := two_pow_half hn
  have hmid : (((2 ^ n : ℕ) : ℤ) + 1) / 2 = 2 ^ (n - 1) := by
    push_cast
    omega
  by_cases hrange : v < -2 ^ (n - 1) ∨ v > 2 ^ (n - 1) - 1
  · rw [if_pos hrange, land_mask, Int.bmod_def, hmid]
    push_cast
    split_ifs <;> omega
  · rw [if_neg hrange]
    have hin : InRange n v := ⟨by omega, by omega⟩
    exact (isReduction_bmod hn v v).mp ⟨hin, rfl⟩

/-- The bits of what is left of an integer modulo a power of two. -/
theorem testBit_emod (v : ℤ) (n i : ℕ) :
    (v % 2 ^ n).testBit i = (v.testBit i && decide (i < n)) := by
  rw [← land_mask, Int.testBit_land, ← natCast_mask]
  change (_ && (2 ^ n - 1).testBit i) = _
  rw [Nat.testBit_two_pow_sub_one]

theorem modEq_iff_testBit {x y : ℤ} {n : ℕ} :
    x ≡ y [ZMOD 2 ^ n] ↔ ∀ i < n, x.testBit i = y.testBit i := by
  have hpos : (0 : ℤ) < 2 ^ n := by positivity
  constructor
  · intro h i hi
    have hbit := congrArg (fun v : ℤ => v.testBit i) h
    simpa only [testBit_emod, hi, decide_true, Bool.and_true] using hbit
  · intro h
    obtain ⟨a, ha⟩ := Int.eq_ofNat_of_zero_le (Int.emod_nonneg x hpos.ne')
    obtain ⟨b, hb⟩ := Int.eq_ofNat_of_zero_le (Int.emod_nonneg y hpos.ne')
    rw [Int.ModEq, ha, hb, Nat.cast_inj]
    apply Nat.eq_of_testBit_eq
    intro i
    change (a : ℤ).testBit i = (b : ℤ).testBit i
    rw [← ha, ← hb, testBit_emod, testBit_emod]
    by_cases hi : i < n
    · rw [h i hi]
    · rw [decide_eq_false hi, Bool.and_false, Bool.and_false]

/-- From the sign on, all bits of an integer of `n` bits are the same. -/
theorem InRange.testBit {n : ℕ} {v : ℤ} (h : InRange n v) {i : ℕ} (hi : n - 1 ≤ i) :
    v.testBit i = decide (v < 0) := by
  have hpow : 2 ^ (n - 1) ≤ 2 ^ i := Nat.pow_le_pow_right (by norm_num) hi
  obtain ⟨hmin, hmax⟩ := h
  cases v with
  | ofNat a =>
    rw [Int.ofNat_eq_natCast] at hmax ⊢
    have ha : a < 2 ^ (n - 1) := by exact_mod_cast hmax
    change a.testBit i = _
    rw [Nat.testBit_lt_two_pow (ha.trans_le hpow), decide_eq_false (by omega)]
  | negSucc a =>
    have ha : a < 2 ^ (n - 1) := by
      rw [Int.negSucc_eq] at hmin
      zify
      omega
    change (!a.testBit i) = _
    rw [Nat.testBit_lt_two_pow (ha.trans_le hpow), decide_eq_true (Int.negSucc_lt_zero a)]
    rfl

/-- The bits of `x` from bit `lo` up to below bit `hi` are all the same. -/
def Constant (x : ℤ) (lo hi : ℕ) : Prop := ∀ i, lo ≤ i → i < hi → x.testBit i = x.testBit lo

/-- The reduction to `m` bits keeps the residue modulo a larger power of two exactly when the
bits above repeat the sign. -/
theorem bmod_modEq_iff {m n : ℕ} (hm : 0 < m) (x : ℤ) :
    x.bmod (2 ^ m) ≡ x [ZMOD 2 ^ n] ↔ Constant x (m - 1) n := by
  obtain ⟨hrange, hmod⟩ := (isReduction_bmod hm x _).mpr rfl
  rw [modEq_iff_testBit] at hmod ⊢
  constructor
  · intro h i hlo hi
    rw [← h i hi, ← h (m - 1) (by omega), hrange.testBit hlo, hrange.testBit le_rfl]
  · intro h i hi
    by_cases hlow : i < m
    · exact hmod i hlow
    · rw [h i (by omega) hi, ← hmod (m - 1) (by omega), hrange.testBit (by omega),
        hrange.testBit le_rfl]

/-- The reduction to `m` bits is also the one to more bits exactly when the bits above repeat its
sign. -/
theorem isReduction_bmod_iff {m n : ℕ} (hm : 0 < m) (hmn : m ≤ n) (x : ℤ) :
    IsReduction n x (x.bmod (2 ^ m)) ↔ Constant x (m - 1) n := by
  have hin : InRange m (x.bmod (2 ^ m)) := ((isReduction_iff hm).mp (isReduction_bmod hm x)).1
  rw [isReduction_iff (hm.trans_le hmn), and_iff_right (hin.mono hmn), bmod_modEq_iff hm]

end TwosComplement
