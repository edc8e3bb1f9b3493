import Mathlib.Data.List.Basic
import Mathlib.Order.Nat

/-! Finite maps keyed by bit strings, and the value of the longest stored prefix. -/
namespace LongestPrefix

variable {α β : Type*}

/-- The last of `f lo, …, f (lo + n)` that is defined. -/
def lastFrom (f : ℕ → Option β) (lo : ℕ) : ℕ → Option β
  | 0 => f lo
  | n + 1 => (f (lo + n + 1)).or (lastFrom f lo n)

/-- The value of the longest prefix of `key` in the domain of `M`. -/
def longestMatch (M : List α → Option β) (key : List α) : Option β :=
  lastFrom (fun n => M (key.take n)) 0 key.length

theorem lastFrom_eq_none_iff (f : ℕ → Option β) (lo n : ℕ) :
    lastFrom f lo n = none ↔ ∀ i ≤ n, f (lo + i) = none := by
  induction n with
  | zero => simp [lastFrom]
  | succ n ih =>
    rw [lastFrom, Option.or_eq_none_iff, ih]
    constructor
    · rintro ⟨h1, h2⟩ i hi
      rcases Nat.lt_or_eq_of_le hi with h | rfl
      · exact h2 i (by omega)
      · exact h1
    · intro h
      exact ⟨h (n + 1) le_rfl, fun i hi => h i (by omega)⟩

/-- A range splits into its upper part, which wins, and its lower part. -/
theorem lastFrom_split (f : ℕ → Option β) (lo m k : ℕ) :
    lastFrom f lo (m + k + 1) = (lastFrom f (lo + k + 1) m).or (lastFrom f lo k) := by
  induction m with
  | zero => simp only [Nat.zero_add, lastFrom]
  | succ m ih =>
    rw [show m + 1 + k + 1 = (m + k + 1) + 1 by omega, lastFrom, ih, lastFrom, Option.or_assoc,
      show lo + (m + k + 1) + 1 = lo + k + 1 + m + 1 by omega]

theorem lastFrom_eq_some_iff (f : ℕ → Option β) (lo n : ℕ) (v : β) :
    lastFrom f lo n = some v ↔
      ∃ i ≤ n, f (lo + i) = some v ∧ ∀ j ≤ n, i < j → f (lo + j) = none := by
  induction n with
  | zero =>
    constructor
    · intro h
      exact ⟨0, le_rfl, h, fun j hj hij => absurd hij (by omega)⟩
    · rintro ⟨i, hi, h, -⟩
      obtain rfl : i = 0 := by omega
      exact h
  | succ n ih =>
    rw [lastFrom]
    cases hf : f (lo + n + 1) with
    | some w =>
      constructor
      · intro h
        exact ⟨n + 1, le_rfl, by rw [← Nat.add_assoc, hf]; exact h,
          fun j hj hij => absurd hij (by omega)⟩
      · rintro ⟨i, hi, h, hmax⟩
        by_cases hin : i = n + 1
        · rw [hin, ← Nat.add_assoc, hf] at h
          exact h
        · have := hmax (n + 1) le_rfl (by omega)
          rw [← Nat.add_assoc, hf] at this
          exact absurd this (by simp)
    | none =>
      rw [Option.none_or, ih]
      constructor
      · rintro ⟨i, hi, h, hmax⟩
        refine ⟨i, by omega, h, fun j hj hij => ?_⟩
        by_cases hjn : j = n + 1
        · rw [hjn, ← Nat.add_assoc, hf]
        · exact hmax j (by omega) hij
      · rintro ⟨i, hi, h, hmax⟩
        have hin : i ≠ n + 1 := by
          rintro rfl
          rw [← Nat.add_assoc, hf] at h
          exact absurd h (by simp)
        exact ⟨i, by omega, h, fun j hj hij => hmax j (by omega) hij⟩

/-- `longestMatch` returns `v` exactly when `v` is stored under a prefix of the key and no
longer prefix is stored. -/
theorem longestMatch_eq_some_iff (M : List α → Option β) (key : List α) (v : β) :
    longestMatch M key = some v ↔
      ∃ i ≤ key.length, M (key.take i) = some v ∧
        ∀ j ≤ key.length, i < j → M (key.take j) = none := by
  rw [longestMatch, lastFrom_eq_some_iff]
  simp only [Nat.zero_add]

/-- `longestMatch` misses exactly when no prefix of the key is stored. -/
theorem longestMatch_eq_none_iff (M : List α → Option β) (key : List α) :
    longestMatch M key = none ↔ ∀ i ≤ key.length, M (key.take i) = none := by
  rw [longestMatch, lastFrom_eq_none_iff]
  simp only [Nat.zero_add]

end LongestPrefix
