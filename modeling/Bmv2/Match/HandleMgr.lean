import Mathlib.Data.Finset.Card
import Mathlib.Tactic.Common
import Mathlib.Tactic.Ring

/-! The handle allocator of `handle_mgr.h`, a Judy1 bit array. -/
namespace Bmv2

structure HandleMgr where
  handles : Finset ℕ := ∅
  deriving DecidableEq

namespace HandleMgr

/-- `Judy1FirstEmpty` from 0: among the first `card + 1` indices one is free. -/
def firstEmpty (m : HandleMgr) : ℕ :=
  ((List.range (m.handles.card + 1)).find? (· ∉ m.handles)).getD 0

/-- `get_handle` fails only when all 64-bit words are taken. -/
def getHandle (m : HandleMgr) : Option (ℕ × HandleMgr) :=
  if m.firstEmpty < 2 ^ 64 then some (m.firstEmpty, ⟨insert m.firstEmpty m.handles⟩) else none

/-- `release_handle`; the flag is true on success. -/
def releaseHandle (m : HandleMgr) (handle : ℕ) : Bool × HandleMgr :=
  (decide (handle ∈ m.handles), ⟨m.handles.erase handle⟩)

def validHandle (m : HandleMgr) (handle : ℕ) : Bool := decide (handle ∈ m.handles)

def clear (_ : HandleMgr) : HandleMgr := {}

variable (m : HandleMgr)

private theorem exists_free : ∃ i ∈ List.range (m.handles.card + 1), i ∉ m.handles := by
  by_contra h
  push Not at h
  have hsub : Finset.range (m.handles.card + 1) ⊆ m.handles := by
    intro i hi
    exact h i (by simpa using hi)
  have := Finset.card_le_card hsub
  rw [Finset.card_range] at this
  omega

theorem firstEmpty_spec :
    m.firstEmpty ∉ m.handles ∧ m.firstEmpty ≤ m.handles.card ∧
      ∀ i < m.firstEmpty, i ∈ m.handles := by
  obtain ⟨i, hi, hfree⟩ := exists_free m
  cases hf : (List.range (m.handles.card + 1)).find? (· ∉ m.handles) with
  | none =>
    have := List.find?_eq_none.mp hf i hi
    simp [hfree] at this
  | some k =>
    have hk : m.firstEmpty = k := by rw [firstEmpty, hf]; rfl
    rw [hk]
    have hmem := List.mem_of_find?_eq_some hf
    rw [List.find?_range_eq_some] at hf
    refine ⟨by simpa using hf.1, by simp at hmem; omega, fun j hj => ?_⟩
    simpa using hf.2.2 j hj

theorem firstEmpty_notMem : m.firstEmpty ∉ m.handles := (firstEmpty_spec m).1

/-- A set of handles below `n` that is not full has its first free index below `n`. -/
theorem firstEmpty_lt {n : ℕ} (h : m.handles.card < n) : m.firstEmpty < n :=
  (firstEmpty_spec m).2.1.trans_lt h

end HandleMgr

end Bmv2
