import Mathlib.Algebra.GroupWithZero.Nat
import Mathlib.Algebra.Order.BigOperators.Group.List
import Mathlib.Order.Defs.LinearOrder

/-! Merging several sources: the least of all heads goes first, and of equal ones the one with the
lowest index. The sources need not be sorted. -/
namespace HeadMerge

section
variable {α : Type*}

def headAt (sources : List (List α)) (i : ℕ) : Option α := sources[i]?.bind List.head?

/-- Source `i` without its head. -/
def take (sources : List (List α)) (i : ℕ) : List (List α) := sources.modify i List.tail

/-- What is left of the sources behind an output. -/
def left (sources : List (List α)) (out : List (ℕ × α)) : List (List α) :=
  out.foldl (fun sources p => take sources p.1) sources

/-- The part of an output that comes from source `i`. -/
def fromSource (i : ℕ) (out : List (ℕ × α)) : List α :=
  (out.filter fun p => p.1 = i).map Prod.snd

end

variable {α κ : Type*} [LinearOrder κ] {key : α → κ} {sources : List (List α)}
  {i j : ℕ} {a b : α} {out out' : List (ℕ × α)}

/-- The head of source `i` is the next one. -/
structure Leads (key : α → κ) (sources : List (List α)) (i : ℕ) (a : α) : Prop where
  head : headAt sources i = some a
  least : ∀ j b, headAt sources j = some b → key a < key b ∨ key a = key b ∧ i ≤ j

inductive Merges (key : α → κ) : List (List α) → List (ℕ × α) → Prop
  | nil {sources : List (List α)} (empty : ∀ s ∈ sources, s = []) : Merges key sources []
  | cons {sources : List (List α)} {i : ℕ} {a : α} {out : List (ℕ × α)}
      (leads : Leads key sources i a) (rest : Merges key (take sources i) out) :
      Merges key sources ((i, a) :: out)

/-- One pass over the sources: the least head so far stays if the next one is not less. -/
def pickFrom (key : α → κ) : List (List α) → ℕ → Option (ℕ × α) → Option (ℕ × α)
  | [], _, best => best
  | [] :: sources, i, best => pickFrom key sources (i + 1) best
  | (a :: _) :: sources, i, none => pickFrom key sources (i + 1) (some (i, a))
  | (a :: _) :: sources, i, some (j, b) =>
    pickFrom key sources (i + 1) (some (if key a < key b then (i, a) else (j, b)))

/-- What a pass has found in the sources that it has seen. -/
def Found (key : α → κ) (sources : List (List α)) : Option (ℕ × α) → Prop
  | none => ∀ s ∈ sources, s = []
  | some (i, a) => Leads key sources i a

/-! ### Heads -/

theorem headAt_of_eq_cons {rest : List α} (h : sources[i]? = some (a :: rest)) :
    headAt sources i = some a := by
  rw [headAt, h]
  rfl

theorem headAt_eq_some (h : headAt sources i = some a) :
    ∃ rest, sources[i]? = some (a :: rest) := by
  obtain ⟨s, hs, ha⟩ := Option.bind_eq_some_iff.mp h
  obtain ⟨rest, rfl⟩ := List.head?_eq_some_iff.mp ha
  exact ⟨rest, hs⟩

theorem headAt_lt (h : headAt sources i = some a) : i < sources.length := by
  obtain ⟨rest, hrest⟩ := headAt_eq_some h
  exact (List.getElem?_eq_some_iff.mp hrest).1

theorem headAt_append_left (h : i < sources.length) (s : List α) :
    headAt (sources ++ [s]) i = headAt sources i := by
  rw [headAt, List.getElem?_append_left h, headAt]

theorem headAt_append_self (sources : List (List α)) (s : List α) :
    headAt (sources ++ [s]) sources.length = s.head? := by
  rw [headAt, List.getElem?_concat_length]
  rfl

theorem headAt_of_empty (h : ∀ s ∈ sources, s = []) : headAt sources i = none := by
  rw [headAt, Option.bind_eq_none_iff]
  intro s hs
  rw [h s (List.mem_of_getElem? hs)]
  rfl

/-- A head is one of those before or the new one. -/
theorem headAt_append {s : List α} (h : headAt (sources ++ [s]) j = some b) :
    headAt sources j = some b ∨ j = sources.length ∧ s.head? = some b := by
  have hlt := headAt_lt h
  rw [List.length_append, List.length_singleton] at hlt
  rcases Nat.lt_succ_iff_lt_or_eq.mp hlt with hj | rfl
  · rw [headAt_append_left hj] at h
    exact .inl h
  · rw [headAt_append_self] at h
    exact .inr ⟨rfl, h⟩

/-! ### The leader -/

theorem Leads.unique (h : Leads key sources i a) (h' : Leads key sources j b) :
    i = j ∧ a = b := by
  have hij : i = j := by
    rcases h.least j b h'.head with hlt | ⟨heq, hle⟩
    · rcases h'.least i a h.head with hgt | ⟨heq, -⟩
      · exact absurd hlt hgt.asymm
      · exact absurd heq hlt.ne'
    · rcases h'.least i a h.head with hgt | ⟨-, hge⟩
      · exact absurd heq hgt.ne'
      · exact le_antisymm hle hge
  subst hij
  exact ⟨rfl, Option.some.inj (h.head.symm.trans h'.head)⟩

/-- A pass over one more source. -/
theorem Found.append {best : Option (ℕ × α)} (h : Found key sources best) (s : List α) :
    ∀ rest, pickFrom key (s :: rest) sources.length best =
      pickFrom key rest (sources.length + 1) (pickFrom key [s] sources.length best) ∧
      Found key (sources ++ [s]) (pickFrom key [s] sources.length best) := by
  intro rest
  cases s with
  | nil =>
    refine ⟨rfl, ?_⟩
    cases best with
    | none => exact fun t ht => (List.mem_append.mp ht).elim (h t) List.mem_singleton.mp
    | some best =>
      refine ⟨(headAt_append_left (headAt_lt h.head) _).trans h.head, fun j b hb => ?_⟩
      rcases headAt_append hb with hb | ⟨-, hb⟩
      · exact h.least j b hb
      · cases hb
  | cons a s =>
    cases best with
    | none =>
      refine ⟨rfl, headAt_append_self sources (a :: s), fun j b hb => ?_⟩
      rcases headAt_append hb with hb | ⟨rfl, hs⟩
      · rw [headAt_of_empty h] at hb
        cases hb
      · cases hs
        exact .inr ⟨rfl, le_rfl⟩
    | some best =>
      obtain ⟨k, c⟩ := best
      refine ⟨rfl, ?_⟩
      rw [pickFrom, pickFrom]
      split_ifs with hlt
      · refine ⟨headAt_append_self sources (a :: s), fun j b hb => ?_⟩
        rcases headAt_append hb with hb | ⟨rfl, hs⟩
        · rcases h.least j b hb with hcb | ⟨hcb, -⟩
          · exact .inl (hlt.trans hcb)
          · exact .inl (hlt.trans_eq hcb)
        · cases hs
          exact .inr ⟨rfl, le_rfl⟩
      · refine ⟨(headAt_append_left (headAt_lt h.head) _).trans h.head, fun j b hb => ?_⟩
        rcases headAt_append hb with hb | ⟨rfl, hs⟩
        · exact h.least j b hb
        · cases hs
          rcases (not_lt.mp hlt).lt_or_eq with hca | hca
          · exact .inl hca
          · exact .inr ⟨hca, (headAt_lt h.head).le⟩

theorem found_pickFrom (rest : List (List α)) {best : Option (ℕ × α)}
    (h : Found key sources best) :
    Found key (sources ++ rest) (pickFrom key rest sources.length best) := by
  induction rest generalizing sources best with
  | nil => rwa [List.append_nil]
  | cons s rest ih =>
    obtain ⟨heq, hfound⟩ := h.append s rest
    have hrest := ih hfound
    rwa [List.length_append, List.length_singleton, ← heq, List.append_assoc,
      List.singleton_append] at hrest

/-- A pass finds the leader, if there is a head. -/
theorem found_pick (key : α → κ) (sources : List (List α)) :
    Found key sources (pickFrom key sources 0 none) := by
  have hnone : Found key [] none := fun _ hs => absurd hs List.not_mem_nil
  exact found_pickFrom sources hnone

theorem exists_leads (key : α → κ) (h : ¬ ∀ s ∈ sources, s = []) :
    ∃ i a, Leads key sources i a := by
  have hfound := found_pick key sources
  cases hpick : pickFrom key sources 0 none with
  | none =>
    rw [hpick] at hfound
    exact absurd hfound h
  | some best =>
    rw [hpick] at hfound
    exact ⟨best.1, best.2, hfound⟩

/-! ### The merged output -/

theorem getD_take (sources : List (List α)) (i j : ℕ) :
    (take sources i).getD j [] = if i = j then (sources.getD j []).tail else sources.getD j [] := by
  rw [take, List.getD_eq_getElem?_getD, List.getElem?_modify, List.getD_eq_getElem?_getD]
  cases sources[j]? with
  | none => split_ifs <;> rfl
  | some s => split_ifs <;> rfl

theorem sum_length_take (h : headAt sources i = some a) :
    ((take sources i).map List.length).sum < (sources.map List.length).sum := by
  obtain ⟨rest, hrest⟩ := headAt_eq_some h
  obtain ⟨before, s, after, rfl, rfl, htake⟩ := List.exists_of_modify List.tail
    (List.getElem?_eq_some_iff.mp hrest).1
  rw [List.getElem?_append_right le_rfl, Nat.sub_self] at hrest
  obtain rfl : s = a :: rest := Option.some.inj hrest
  rw [take, htake]
  simp only [List.map_append, List.map_cons, List.sum_append, List.sum_cons, List.tail_cons,
    List.length_cons]
  omega

theorem Leads.getD_eq (h : Leads key sources i a) :
    sources.getD i [] = a :: (take sources i).getD i [] := by
  obtain ⟨rest, hrest⟩ := headAt_eq_some h.head
  rw [getD_take, if_pos rfl, List.getD_eq_getElem?_getD, hrest]
  rfl

/-- The sources can be merged, -/
theorem exists_merges (key : α → κ) (sources : List (List α)) :
    ∃ out, Merges key sources out := by
  induction hn : (sources.map List.length).sum using Nat.strong_induction_on
    generalizing sources with
  | _ n ih =>
    by_cases hempty : ∀ s ∈ sources, s = []
    · exact ⟨[], .nil hempty⟩
    · obtain ⟨i, a, hleads⟩ := exists_leads key hempty
      obtain ⟨out, hout⟩ := ih _ (hn ▸ sum_length_take hleads.head) (take sources i) rfl
      exact ⟨(i, a) :: out, .cons hleads hout⟩

/-- in one way only. -/
theorem Merges.unique (h : Merges key sources out) (h' : Merges key sources out') : out = out' := by
  induction h generalizing out' with
  | nil hempty =>
    cases h' with
    | nil => rfl
    | cons hleads =>
      have hhead := hleads.head
      rw [headAt_of_empty hempty] at hhead
      cases hhead
  | cons hleads _ ih =>
    cases h' with
    | nil hempty =>
      have hhead := hleads.head
      rw [headAt_of_empty hempty] at hhead
      cases hhead
    | cons hleads' hrest' =>
      obtain ⟨rfl, rfl⟩ := hleads.unique hleads'
      rw [ih hrest']

/-- Every source is in the output, in its order and nothing twice. -/
theorem Merges.fromSource_eq (h : Merges key sources out) (j : ℕ) :
    fromSource j out = sources.getD j [] := by
  induction h with
  | @nil sources hempty =>
    rw [List.getD_eq_getElem?_getD]
    cases hs : sources[j]? with
    | none => rfl
    | some s => exact (hempty s (List.mem_of_getElem? hs)).symm
  | @cons sources i a out hleads _ ih =>
    by_cases hij : i = j
    · subst hij
      rw [hleads.getD_eq, ← ih]
      simp [fromSource]
    · rw [getD_take, if_neg hij] at ih
      rw [← ih]
      simp [fromSource, hij]

theorem Merges.mem (h : Merges key sources out) (hmem : (j, b) ∈ out) :
    ∃ s ∈ sources, b ∈ s := by
  have hb : b ∈ fromSource j out :=
    List.mem_map.mpr ⟨(j, b), List.mem_filter.mpr ⟨hmem, decide_eq_true rfl⟩, rfl⟩
  rw [h.fromSource_eq, List.getD_eq_getElem?_getD] at hb
  cases hs : sources[j]? with
  | none => rw [hs] at hb; cases hb
  | some s => rw [hs] at hb; exact ⟨s, List.mem_of_getElem? hs, hb⟩

/-- Whatever comes next is the leader of what is left. -/
theorem Merges.leads {before after : List (ℕ × α)}
    (h : Merges key sources (before ++ (i, a) :: after)) : Leads key (left sources before) i a := by
  induction before generalizing sources with
  | nil =>
    cases h with
    | cons hleads => exact hleads
  | cons p before ih =>
    cases h with
    | cons _ hrest => exact ih hrest

/-- Sorted sources give a sorted output. -/
theorem Merges.sorted (h : Merges key sources out)
    (hsorted : ∀ s ∈ sources, s.Pairwise fun a b => key a ≤ key b) :
    out.Pairwise fun p q => key p.2 ≤ key q.2 := by
  induction h with
  | nil => exact .nil
  | @cons sources i a out hleads hrest ih =>
    have hleft : ∀ s ∈ take sources i, ∃ t ∈ sources, s = t ∨ s = t.tail := by
      intro s hs
      obtain ⟨j, hj⟩ := List.mem_iff_getElem?.mp hs
      rw [take, List.getElem?_modify] at hj
      obtain ⟨t, ht, hst⟩ := Option.map_eq_some_iff.mp hj
      refine ⟨t, List.mem_of_getElem? ht, ?_⟩
      split_ifs at hst
      · exact .inr hst.symm
      · exact .inl hst.symm
    have hsortedLeft : ∀ s ∈ take sources i, s.Pairwise fun a b => key a ≤ key b := by
      intro s hs
      obtain ⟨t, ht, rfl | rfl⟩ := hleft s hs
      · exact hsorted s ht
      · exact (hsorted t ht).sublist (List.tail_sublist t)
    refine List.pairwise_cons.mpr ⟨?_, ih hsortedLeft⟩
    rintro ⟨j, b⟩ hmem
    obtain ⟨s, hs, hb⟩ := hrest.mem hmem
    obtain ⟨t, ht, hst⟩ := hleft s hs
    have hbt : b ∈ t := by
      rcases hst with rfl | rfl
      · exact hb
      · exact List.mem_of_mem_tail hb
    obtain ⟨c, t, rfl⟩ := List.exists_cons_of_ne_nil (List.ne_nil_of_mem hbt)
    obtain ⟨k, hk⟩ := List.mem_iff_getElem?.mp ht
    have hac : key a ≤ key c := by
      rcases hleads.least k c (headAt_of_eq_cons hk) with hlt | ⟨heq, -⟩
      · exact hlt.le
      · exact heq.le
    rcases List.mem_cons.mp hbt with rfl | hbt
    · exact hac
    · exact hac.trans ((List.pairwise_cons.mp (hsorted _ ht)).1 b hbt)

end HeadMerge
