import Mathlib.Data.Finset.Card
import Mathlib.Algebra.BigOperators.Group.Finset.Basic

/-! Counting references: how many holders of a finite set refer to one thing, and how the
number moves when a holder comes, goes or changes its mind. -/
namespace References

variable {ι : Type*}

/-- The number of holders in `H` that satisfy `P`. -/
def refs (H : Finset ι) (P : ι → Prop) [DecidablePred P] : ℕ := (H.filter P).card

variable {H : Finset ι} {P Q : ι → Prop} [DecidablePred P] [DecidablePred Q] {i : ι}

theorem refs_congr (h : ∀ j ∈ H, Q j ↔ P j) : refs H Q = refs H P :=
  congrArg Finset.card (Finset.filter_congr h)

theorem refs_eq_zero : refs H P = 0 ↔ ∀ j ∈ H, ¬ P j := by
  rw [refs, Finset.card_eq_zero, Finset.filter_eq_empty_iff]

theorem refs_pos (hi : i ∈ H) (hP : P i) : 0 < refs H P :=
  Finset.card_pos.mpr ⟨i, Finset.mem_filter.mpr ⟨hi, hP⟩⟩

theorem refs_le_card : refs H P ≤ H.card := Finset.card_filter_le _ _

variable [DecidableEq ι]

/-- A new holder adds its own reference. -/
theorem refs_insert (hi : i ∉ H) (h : ∀ j ∈ H, Q j ↔ P j) :
    refs (insert i H) Q = refs H P + if Q i then 1 else 0 := by
  rw [← refs_congr h, refs, refs, Finset.filter_insert]
  split_ifs
  · exact Finset.card_insert_of_notMem fun hmem => hi (Finset.mem_filter.mp hmem).1
  · rfl

/-- A holder that goes takes its own reference along. -/
theorem refs_erase (hi : i ∈ H) (h : ∀ j ∈ H, j ≠ i → (Q j ↔ P j)) :
    refs (H.erase i) Q + (if P i then 1 else 0) = refs H P := by
  have hins := refs_insert (P := Q) (Q := P) (Finset.notMem_erase i H) fun j hj =>
    (h j (Finset.mem_of_mem_erase hj) (Finset.ne_of_mem_erase hj)).symm
  rw [Finset.insert_erase hi] at hins
  exact hins.symm

/-- A holder that changes trades its old reference for its new one. -/
theorem refs_update (hi : i ∈ H) (h : ∀ j ∈ H, j ≠ i → (Q j ↔ P j)) :
    refs H Q + (if P i then 1 else 0) = refs H P + if Q i then 1 else 0 := by
  have h1 := refs_erase hi h
  have h2 := refs_erase (P := Q) hi fun j _ _ => Iff.rfl
  omega

end References
