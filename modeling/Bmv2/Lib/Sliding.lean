import Mathlib.Data.List.Basic
import Mathlib.Logic.Equiv.Basic

/-! Moving the contents of an array of places by swaps at a fixed distance. What is swapped out
ends up somewhere in the places that are left. -/
namespace Sliding

variable {α : Type*}

/-- The swaps of each place with the one `n` places behind it. -/
def towardsFront (n : ℕ) (v : ℕ → α) (places : List ℕ) : ℕ → α :=
  places.foldl (fun v i => v ∘ Equiv.swap i (i + n)) v

/-- The swaps of each place with the one `n` places before it. -/
def towardsBack (n : ℕ) (v : ℕ → α) (places : List ℕ) : ℕ → α :=
  places.foldl (fun v i => v ∘ Equiv.swap i (i - n)) v

/-- From the first place on, each place gets what was `n` places behind it. -/
theorem towardsFront_range {n : ℕ} (hn : 0 < n) (v : ℕ → α) (k : ℕ) :
    (∀ j < k, towardsFront n v (List.range k) j = v (j + n)) ∧
      ∀ j, k + n ≤ j → towardsFront n v (List.range k) j = v j := by
  induction k with
  | zero => exact ⟨fun j hj => absurd hj (Nat.not_lt_zero j), fun j _ => rfl⟩
  | succ k ih =>
    obtain ⟨hmoved, hkept⟩ := ih
    have hstep : towardsFront n v (List.range (k + 1)) =
        towardsFront n v (List.range k) ∘ Equiv.swap k (k + n) := by
      rw [towardsFront, List.range_succ, List.foldl_append]
      rfl
    rw [hstep]
    constructor
    · intro j hj
      by_cases hlast : j = k
      · rw [hlast, Function.comp_apply, Equiv.swap_apply_left]
        exact hkept _ (Nat.le_refl _)
      · rw [Function.comp_apply, Equiv.swap_apply_of_ne_of_ne hlast (by omega)]
        exact hmoved j (by omega)
    · intro j hj
      rw [Function.comp_apply, Equiv.swap_apply_of_ne_of_ne (by omega) (by omega)]
      exact hkept j (by omega)

/-- From the last place down, each place gets what was `n` places before it. -/
theorem towardsBack_range' {n : ℕ} (hn : 0 < n) (v : ℕ → α) (k : ℕ) :
    (∀ j < k, towardsBack n v (List.range' n k).reverse (n + j) = v j) ∧
      ∀ j, n + k ≤ j → towardsBack n v (List.range' n k).reverse j = v j := by
  induction k generalizing v with
  | zero => exact ⟨fun j hj => absurd hj (Nat.not_lt_zero j), fun j _ => rfl⟩
  | succ k ih =>
    have hstep : towardsBack n v (List.range' n (k + 1)).reverse =
        towardsBack n (v ∘ Equiv.swap (n + k) k) (List.range' n k).reverse := by
      rw [towardsBack, List.range'_1_concat, List.reverse_append, List.reverse_singleton,
        List.singleton_append, List.foldl_cons, Nat.add_sub_cancel_left]
      rfl
    obtain ⟨hmoved, hkept⟩ := ih (v ∘ Equiv.swap (n + k) k)
    rw [hstep]
    constructor
    · intro j hj
      by_cases hlast : j = k
      · rw [hlast, hkept _ (Nat.le_refl _), Function.comp_apply, Equiv.swap_apply_left]
      · rw [hmoved j (by omega), Function.comp_apply,
          Equiv.swap_apply_of_ne_of_ne (by omega) hlast]
    · intro j hj
      rw [hkept j (by omega), Function.comp_apply,
        Equiv.swap_apply_of_ne_of_ne (by omega) (by omega)]

end Sliding
