import Mathlib.Data.List.AList
import Mathlib.Tactic.Ring

/-! Hash maps as association lists, with the two ways in which an update may find its key. -/
namespace UnorderedMap

/-- A finite map; only lookups and the number of keys are observed. -/
abbrev Map (κ ν : Type*) := AList fun _ : κ => ν

variable {κ ν : Type*} [DecidableEq κ] (m : Map κ ν) (j k : κ) (v : ν)

/-- An insertion that leaves a present key alone. -/
def emplace : Map κ ν := if (m.lookup k).isSome then m else m.insert k v

/-- An update in place; a missing key starts from the default. -/
def modify [Inhabited ν] (f : ν → ν) : Map κ ν := m.insert k (f ((m.lookup k).getD default))

theorem lookup_insert : (m.insert k v).lookup j = if j = k then some v else m.lookup j := by
  split_ifs with h
  · rw [h, AList.lookup_insert]
  · rw [AList.lookup_insert_ne h]

theorem getD_lookup_insert (d : ν) :
    ((m.insert k v).lookup j).getD d = if k = j then v else (m.lookup j).getD d := by
  rw [lookup_insert]
  by_cases hj : j = k
  · rw [if_pos hj, if_pos hj.symm, Option.getD_some]
  · rw [if_neg hj, if_neg (Ne.symm hj)]

theorem lookup_erase : (m.erase k).lookup j = if j = k then none else m.lookup j := by
  split_ifs with h
  · rw [h, AList.lookup_erase]
  · rw [AList.lookup_erase_ne h]

theorem lookup_emplace : (emplace m k v).lookup j =
    if j = k then some ((m.lookup k).getD v) else m.lookup j := by
  unfold emplace
  cases hk : m.lookup k with
  | some w =>
    simp only [Option.isSome_some, if_true, Option.getD_some]
    split_ifs with h
    · rw [h, hk]
    · rfl
  | none => simp [lookup_insert]

theorem lookup_modify [Inhabited ν] (f : ν → ν) : (modify m k f).lookup j =
    if j = k then some (f ((m.lookup k).getD default)) else m.lookup j := by
  rw [modify, lookup_insert]

theorem lookup_foldl_insert_of_notMem {ε : Type*} (key : ε → κ) (val : ε → ν) {l : List ε}
    (h : k ∉ l.map key) (m : Map κ ν) :
    (l.foldl (fun m e => m.insert (key e) (val e)) m).lookup k = m.lookup k := by
  induction l generalizing m with
  | nil => rfl
  | cons e l ih =>
    rw [List.map_cons, List.mem_cons, not_or] at h
    rw [List.foldl_cons, ih h.2, lookup_insert, if_neg h.1]

/-- What is found was there or is one of the entries. -/
theorem mem_of_lookup_foldl_insert {ε : Type*} (key : ε → κ) (val : ε → ν) {l : List ε}
    {m : Map κ ν} {k : κ} {v : ν}
    (h : (l.foldl (fun m e => m.insert (key e) (val e)) m).lookup k = some v) :
    m.lookup k = some v ∨ ∃ e ∈ l, key e = k ∧ val e = v := by
  induction l generalizing m with
  | nil => exact .inl h
  | cons e l ih =>
    rcases ih h with h | ⟨d, hd, hfound⟩
    · rw [lookup_insert] at h
      split_ifs at h with hk
      · exact .inr ⟨e, List.mem_cons_self, hk.symm, Option.some.inj h⟩
      · exact .inl h
    · exact .inr ⟨d, List.mem_cons_of_mem e hd, hfound⟩

/-- Entries with different keys are all found. -/
theorem lookup_foldl_insert_of_mem {ε : Type*} (key : ε → κ) (val : ε → ν) {l : List ε} {e : ε}
    (hnodup : (l.map key).Nodup) (he : e ∈ l) (m : Map κ ν) :
    (l.foldl (fun m e => m.insert (key e) (val e)) m).lookup (key e) = some (val e) := by
  induction l generalizing m with
  | nil => cases he
  | cons d l ih =>
    obtain ⟨hd, hl⟩ := List.nodup_cons.mp hnodup
    rw [List.foldl_cons]
    rcases List.mem_cons.mp he with rfl | he
    · rw [lookup_foldl_insert_of_notMem _ key val hd, lookup_insert, if_pos rfl]
    · exact ih hl he _

/-- The sum of a measure over all values. -/
def total (f : ν → ℕ) (m : Map κ ν) : ℕ := (m.entries.map fun e => f e.2).sum

variable {m k} {f : ν → ℕ}

theorem total_erase : total f (m.erase k) + ((m.lookup k).map f).getD 0 = total f m := by
  unfold total
  by_cases hk : k ∈ m.entries.keys
  · obtain ⟨w, l₁, l₂, -, hl, herase⟩ := List.exists_of_kerase hk
    have hw : m.lookup k = some w :=
      AList.mem_lookup_iff.mpr (hl ▸ List.mem_append_right _ List.mem_cons_self)
    have he : (m.erase k).entries = l₁ ++ l₂ := herase
    rw [he, hl, hw]
    simp only [List.map_append, List.map_cons, List.sum_append, List.sum_cons, Option.map_some,
      Option.getD_some]
    ring
  · have hnone : m.lookup k = none := AList.lookup_eq_none.mpr hk
    have he : (m.erase k).entries = m.entries := List.kerase_of_notMem_keys hk
    rw [he, hnone]
    rfl

theorem total_insert :
    total f (m.insert k v) + ((m.lookup k).map f).getD 0 = total f m + f v := by
  have hcons : total f (m.insert k v) = f v + total f (m.erase k) := by
    unfold total
    rw [AList.entries_insert, List.map_cons, List.sum_cons]
    rfl
  rw [hcons, add_assoc, total_erase, add_comm]

end UnorderedMap
