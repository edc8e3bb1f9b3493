import Mathlib.Algebra.BigOperators.Group.Finset.Piecewise
import Mathlib.Algebra.Order.Group.Multiset

/-! Tokens that lie at places, and what a move from one place to another does to all of them. -/
namespace Places

variable {ι τ : Type*} [DecidableEq ι] {f f' : ι → Multiset τ} {places : Finset ι} {i : ι}
  {m : Multiset τ}

/-- The tokens at some places. -/
def total (f : ι → Multiset τ) (places : Finset ι) : Multiset τ := ∑ i ∈ places, f i

omit [DecidableEq ι] in
theorem total_eq_zero (h : ∀ i ∈ places, f i = 0) : total f places = 0 := Finset.sum_eq_zero h

/-- A place is emptied and filled anew. -/
theorem total_update (f : ι → Multiset τ) (hi : i ∈ places) (m : Multiset τ) :
    total (Function.update f i m) places + f i = total f places + m := by
  unfold total
  rw [Finset.sum_update_of_mem hi, ← Finset.add_sum_erase places f hi,
    Finset.sdiff_singleton_eq_erase]
  rw [add_comm m, add_assoc, add_comm m, ← add_assoc, add_comm _ (f i)]

/-- Tokens come to one place. -/
theorem total_put (hi : i ∈ places) (h : ∀ j, f' j = if j = i then m + f i else f j) :
    total f' places = m + total f places := by
  have hf : f' = Function.update f i (m + f i) := by
    funext j
    rw [h, Function.update_apply]
  have hsum := total_update f hi (m + f i)
  rw [← hf, ← add_assoc, add_comm _ m] at hsum
  exact add_right_cancel hsum

/-- Tokens go from one place. -/
theorem total_take (hi : i ∈ places) (hm : f i = m + f' i) (h : ∀ j, j ≠ i → f' j = f j) :
    total f places = m + total f' places := by
  refine total_put hi fun j => ?_
  split_ifs with hj
  · rw [hj, hm]
  · exact (h j hj).symm

end Places
