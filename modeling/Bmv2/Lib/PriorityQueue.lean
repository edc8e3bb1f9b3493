import Mathlib.Data.Multiset.AddSub
import Mathlib.Tactic.Common

/-! Priority queues: an interface that says only what is held and that the top is minimal, and
the binary heap of `push_heap` and `pop_heap` as an instance of it. -/
namespace PriorityQueue

variable {α : Type}

/-- A queue of elements with a key. Which of several minimal elements is on top is open. -/
structure PQ (α : Type) (key : α → ℕ) where
  Heap : Type
  empty : Heap
  push : Heap → α → Heap
  top : Heap → Option α
  pop : Heap → Heap
  contents : Heap → Multiset α
  contents_empty : contents empty = 0
  contents_push : ∀ h a, contents (push h a) = a ::ₘ contents h
  contents_of_top_none : ∀ h, top h = none → contents h = 0
  contents_of_top : ∀ h a, top h = some a → contents h = a ::ₘ contents (pop h)
  top_le : ∀ h a, top h = some a → ∀ b ∈ contents h, key a ≤ key b

namespace PQ

variable {key : α → ℕ} (pq : PQ α key) {h : pq.Heap} {a : α}

theorem top_mem (ha : pq.top h = some a) : a ∈ pq.contents h := by
  rw [pq.contents_of_top h a ha]
  exact Multiset.mem_cons_self _ _

end PQ

/-! ### Binary heaps in level order -/

def parent (i : ℕ) : ℕ := (i - 1) / 2

theorem parent_lt {i : ℕ} (h : 0 < i) : parent i < i := by
  unfold parent
  omega

variable (key : α → ℕ)

/-- `__push_heap`: the hole moves up past larger parents, then takes the value. -/
def pushHeap (value : α) : ℕ → List α → ℕ → List α
  | 0, l, hole => l.set hole value
  | fuel + 1, l, hole =>
    match l[parent hole]? with
    | some p =>
      if 0 < hole ∧ key value < key p then pushHeap value fuel (l.set hole p) (parent hole)
      else l.set hole value
    | none => l.set hole value

/-- The smaller child of a position; the right one when they are equal. -/
def smallerChild (l : List α) (hole : ℕ) : Option (α × ℕ) :=
  match l[2 * hole + 1]?, l[2 * hole + 2]? with
  | some left, some right =>
    if key left < key right then some (left, 2 * hole + 1) else some (right, 2 * hole + 2)
  | some left, none => some (left, 2 * hole + 1)
  | none, _ => none

/-- The descent of `__adjust_heap`: the hole moves down to a leaf. -/
def sinkHole : ℕ → List α → ℕ → List α × ℕ
  | 0, l, hole => (l, hole)
  | fuel + 1, l, hole =>
    match smallerChild key l hole with
    | some (a, child) => sinkHole fuel (l.set hole a) child
    | none => (l, hole)

/-- `pop_heap` and `pop_back`: the last element is put back in from the root. -/
def popHeap (l : List α) : List α :=
  match l.getLast? with
  | none => []
  | some value =>
    let (l', hole) := sinkHole key l.length l.dropLast 0
    pushHeap key value hole l' hole

/-- Every element is at least its parent. -/
def Ordered (l : List α) : Prop :=
  ∀ i a b, 0 < i → l[i]? = some a → l[parent i]? = some b → key b ≤ key a

/-- Ordered but for the hole, whose children are at least its parent. -/
structure Hollow (l : List α) (hole : ℕ) : Prop where
  except : ∀ i a b, 0 < i → i ≠ hole → parent i ≠ hole → l[i]? = some a →
    l[parent i]? = some b → key b ≤ key a
  grand : ∀ i a b, 0 < i → parent i = hole → 0 < hole → l[i]? = some a →
    l[parent hole]? = some b → key b ≤ key a

/-- The value is at most the children of the hole. -/
def Below (l : List α) (hole : ℕ) (value : α) : Prop :=
  ∀ i a, 0 < i → parent i = hole → l[i]? = some a → key value ≤ key a

variable {key} {l : List α} {hole : ℕ} {value p : α}

/-- What is read after a write is the value written or what was there. -/
theorem getElem?_set_cases {i j : ℕ} {a : α} (h : (l.set i p)[j]? = some a) :
    (j = i ∧ p = a) ∨ (j ≠ i ∧ l[j]? = some a) := by
  rw [List.getElem?_set] at h
  split_ifs at h with hij
  · exact .inl ⟨hij.symm, by simpa using h⟩
  · exact .inr ⟨Ne.symm hij, h⟩

theorem Hollow.up (h : Hollow key l hole) (hpos : 0 < hole)
    (hp : l[parent hole]? = some p) : Hollow key (l.set hole p) (parent hole) := by
  have hlt := parent_lt hpos
  constructor
  · intro i a b hi hne hpne ha hb
    obtain ⟨rfl, -⟩ | ⟨hih, ha⟩ := getElem?_set_cases ha
    · exact absurd rfl hpne
    obtain ⟨hph, rfl⟩ | ⟨hph, hb⟩ := getElem?_set_cases hb
    · exact h.grand i a _ hi hph hpos ha hp
    · exact h.except i a b hi hih hph ha hb
  · intro i a b hi hpi hpos' ha hb
    have hlt' := parent_lt hpos'
    obtain ⟨heq, -⟩ | ⟨-, hb⟩ := getElem?_set_cases hb
    · omega
    have hbp := h.except (parent hole) p b hpos' (by omega) (by omega) hp hb
    obtain ⟨-, rfl⟩ | ⟨hih, ha⟩ := getElem?_set_cases ha
    · exact hbp
    · exact hbp.trans (h.except i a p hi hih (by omega) ha (hpi ▸ hp))

theorem Below.up (h : Hollow key l hole) (hpos : 0 < hole) (hp : l[parent hole]? = some p)
    (hlt : key value < key p) : Below key (l.set hole p) (parent hole) value := by
  intro i a hi hpi ha
  have hph := parent_lt hpos
  obtain ⟨-, rfl⟩ | ⟨hih, ha⟩ := getElem?_set_cases ha
  · exact hlt.le
  · exact hlt.le.trans (h.except i a p hi hih (by omega) ha (hpi ▸ hp))

theorem Hollow.fill (h : Hollow key l hole) (hb : Below key l hole value)
    (hstop : ∀ b, 0 < hole → l[parent hole]? = some b → key b ≤ key value) :
    Ordered key (l.set hole value) := by
  intro i a b hi ha hb'
  have hlt := parent_lt hi
  obtain ⟨rfl, rfl⟩ | ⟨hih, ha⟩ := getElem?_set_cases ha
  · obtain ⟨heq, -⟩ | ⟨-, hb'⟩ := getElem?_set_cases hb'
    · omega
    · exact hstop b hi hb'
  · obtain ⟨hph, rfl⟩ | ⟨hph, hb'⟩ := getElem?_set_cases hb'
    · exact hb i a hi hph ha
    · exact h.except i a b hi hih hph ha hb'

/-- Moving the hole moves one element. -/
theorem perm_move_hole {i j : ℕ} {a : α} (hi : i < l.length) (hij : j ≠ i) (ha : l[j]? = some a)
    (v : α) : ((l.set i a).set j v).Perm (l.set i v) := by
  obtain ⟨hj, rfl⟩ := List.getElem?_eq_some_iff.mp ha
  have hi' : i < (l.set i v).length := by rwa [List.length_set]
  have hj' : j < (l.set i v).length := by rwa [List.length_set]
  simpa [List.getElem_set_ne (Ne.symm hij)] using List.set_set_perm hi' hj'

theorem pushHeap_ordered {fuel : ℕ} (hfuel : hole ≤ fuel) (h : Hollow key l hole)
    (hb : Below key l hole value) : Ordered key (pushHeap key value fuel l hole) := by
  induction fuel generalizing l hole with
  | zero => exact h.fill hb fun _ hpos => absurd hpos (by omega)
  | succ fuel ih =>
    unfold pushHeap
    split
    · rename_i p hp
      split_ifs with hc
      · have hlt := parent_lt hc.1
        exact ih (by omega) (h.up hc.1 hp) (Below.up h hc.1 hp hc.2)
      · refine h.fill hb fun b hpos hb' => ?_
        rw [hp] at hb'
        cases hb'
        by_contra hlt
        exact hc ⟨hpos, not_le.mp hlt⟩
    · rename_i hn
      refine h.fill hb fun b hpos hb' => ?_
      rw [hn] at hb'
      cases hb'

/-- The smaller child is a child, and at most the other one. -/
theorem smallerChild_spec {a : α} {child : ℕ} (h : smallerChild key l hole = some (a, child)) :
    0 < child ∧ parent child = hole ∧ l[child]? = some a ∧
      ∀ i b, 0 < i → parent i = hole → l[i]? = some b → key a ≤ key b := by
  have hchild : ∀ i b, 0 < i → parent i = hole → l[i]? = some b →
      l[2 * hole + 1]? = some b ∨ l[2 * hole + 2]? = some b := by
    intro i b hi hpi hb
    unfold parent at hpi
    obtain rfl | rfl : i = 2 * hole + 1 ∨ i = 2 * hole + 2 := by omega
    · exact Or.inl hb
    · exact Or.inr hb
  unfold smallerChild at h
  split at h
  · rename_i left right hl hr
    simp only [hl, hr, Option.some.injEq] at hchild
    split_ifs at h with hlt <;> cases h
    · refine ⟨by omega, by unfold parent; omega, hl, fun i b hi hpi hb => ?_⟩
      obtain rfl | rfl := hchild i b hi hpi hb
      · exact le_rfl
      · exact hlt.le
    · refine ⟨by omega, by unfold parent; omega, hr, fun i b hi hpi hb => ?_⟩
      obtain rfl | rfl := hchild i b hi hpi hb
      · exact not_lt.mp hlt
      · exact le_rfl
  · rename_i left hl hr
    cases h
    refine ⟨by omega, by unfold parent; omega, hl, fun i b hi hpi hb => ?_⟩
    obtain hb | hb := hchild i b hi hpi hb
    · exact (congrArg key (Option.some.inj (hl.symm.trans hb))).le
    · exact absurd (hr.symm.trans hb) (Option.some_ne_none b).symm
  · cases h

theorem smallerChild_none (h : smallerChild key l hole = none) {i : ℕ} (hi : 0 < i)
    (hpi : parent i = hole) : l[i]? = none := by
  unfold smallerChild at h
  split at h
  · split_ifs at h
  · cases h
  · rename_i hn
    have hlen : l.length ≤ 2 * hole + 1 := List.getElem?_eq_none_iff.mp hn
    refine List.getElem?_eq_none_iff.mpr ?_
    unfold parent at hpi
    omega

theorem Hollow.down (h : Hollow key l hole) {a : α} {child : ℕ}
    (hc : smallerChild key l hole = some (a, child)) : Hollow key (l.set hole a) child := by
  obtain ⟨hpos, hpar, ha, hmin⟩ := smallerChild_spec hc
  have hlt := parent_lt hpos
  constructor
  · intro i x b hi hne hpne hx hb
    obtain ⟨rfl, rfl⟩ | ⟨hih, hx⟩ := getElem?_set_cases hx
    · obtain ⟨heq, -⟩ | ⟨-, hb⟩ := getElem?_set_cases hb
      · have := parent_lt hi
        omega
      · exact h.grand child _ b hpos hpar hi ha hb
    · obtain ⟨hph, rfl⟩ | ⟨hph, hb⟩ := getElem?_set_cases hb
      · exact hmin i x hi hph hx
      · exact h.except i x b hi hih hph hx hb
  · intro i x b hi hpi _ hx hb
    obtain ⟨rfl, -⟩ | ⟨hih, hx⟩ := getElem?_set_cases hx
    · have := parent_lt hi
      omega
    obtain ⟨-, rfl⟩ | ⟨hne, -⟩ := getElem?_set_cases hb
    · exact h.except i x _ hi hih (by omega) hx (hpi ▸ ha)
    · exact absurd hpar hne

/-- The descent ends at a leaf, if there is fuel for the whole list. -/
theorem sinkHole_spec {fuel : ℕ} (hfuel : l.length ≤ fuel + hole) (h : Hollow key l hole)
    (hlen : hole < l.length) :
    Hollow key (sinkHole key fuel l hole).1 (sinkHole key fuel l hole).2 ∧
      (∀ v, Below key (sinkHole key fuel l hole).1 (sinkHole key fuel l hole).2 v) ∧
      (sinkHole key fuel l hole).2 < (sinkHole key fuel l hole).1.length ∧
      ∀ v, ((sinkHole key fuel l hole).1.set (sinkHole key fuel l hole).2 v).Perm
        (l.set hole v) := by
  induction fuel generalizing l hole with
  | zero => omega
  | succ fuel ih =>
    unfold sinkHole
    cases hc : smallerChild key l hole with
    | none =>
      refine ⟨h, fun v i a hi hpi ha => ?_, hlen, fun v => List.Perm.refl _⟩
      rw [smallerChild_none hc hi hpi] at ha
      cases ha
    | some q =>
      obtain ⟨a, child⟩ := q
      obtain ⟨hpos, hpar, ha, -⟩ := smallerChild_spec hc
      have hlt := parent_lt hpos
      have hclen : child < l.length := (List.getElem?_eq_some_iff.mp ha).1
      have hfuel' : (l.set hole a).length ≤ fuel + child := by
        rw [List.length_set]
        omega
      obtain ⟨h1, h2, h3, h4⟩ := ih hfuel' (h.down hc) (by rwa [List.length_set])
      refine ⟨h1, h2, h3, fun v => (h4 v).trans ?_⟩
      exact perm_move_hole hlen (by omega) ha v

theorem pushHeap_perm {fuel : ℕ} (hlen : hole < l.length) :
    (pushHeap key value fuel l hole).Perm (l.set hole value) := by
  induction fuel generalizing l hole with
  | zero => exact List.Perm.refl _
  | succ fuel ih =>
    unfold pushHeap
    split
    · rename_i p hp
      split_ifs with hc
      · have hlt := parent_lt hc.1
        have hlen' : parent hole < (l.set hole p).length := by
          rw [List.length_set]
          omega
        exact (ih hlen').trans (perm_move_hole hlen (by omega) hp value)
      · exact List.Perm.refl _
    · exact List.Perm.refl _

theorem Ordered.hollow_append (h : Ordered key l) (value : α) :
    Hollow key (l ++ [value]) l.length := by
  constructor
  · intro i a b hi hne hpne ha hb
    have hilen : i < l.length + 1 := by simpa using (List.getElem?_eq_some_iff.mp ha).1
    have hlt := parent_lt hi
    rw [List.getElem?_append_left (by omega)] at ha hb
    exact h i a b hi ha hb
  · intro i a b hi hpi _ ha
    have hilen : i < l.length + 1 := by simpa using (List.getElem?_eq_some_iff.mp ha).1
    have hlt := parent_lt hi
    omega

theorem Ordered.hollow_dropLast (h : Ordered key l) : Hollow key l.dropLast 0 := by
  constructor
  · intro i a b hi _ _ ha hb
    have hilen : i < l.length - 1 := by simpa using (List.getElem?_eq_some_iff.mp ha).1
    have hlt := parent_lt hi
    rw [List.getElem?_dropLast, if_pos (by omega)] at ha hb
    exact h i a b hi ha hb
  · intro i a b _ _ h0
    exact absurd h0 (lt_irrefl 0)

/-- The root of an ordered list is minimal. -/
theorem Ordered.root_le (h : Ordered key l) {a : α} (ha : l[0]? = some a) {i : ℕ} {b : α}
    (hb : l[i]? = some b) : key a ≤ key b := by
  induction i using Nat.strong_induction_on generalizing b with
  | _ i ih =>
    rcases Nat.eq_zero_or_pos i with rfl | hpos
    · rw [ha] at hb
      cases hb
      rfl
    · have hlt := parent_lt hpos
      have hilen : i < l.length := (List.getElem?_eq_some_iff.mp hb).1
      have hc : l[parent i]? = some l[parent i] := List.getElem?_eq_getElem (by omega)
      exact (ih (parent i) hlt hc).trans (h i b _ hpos hb hc)

/-- Pushing on a binary heap: the value starts in a hole at the end. -/
def pushBack (key : α → ℕ) (l : List α) (value : α) : List α :=
  pushHeap key value l.length (l ++ [value]) l.length

theorem pushBack_ordered (h : Ordered key l) (value : α) : Ordered key (pushBack key l value) := by
  refine pushHeap_ordered le_rfl (h.hollow_append value) fun i a hi hpi ha => ?_
  have hilen : i < l.length + 1 := by simpa using (List.getElem?_eq_some_iff.mp ha).1
  have hlt := parent_lt hi
  omega

theorem pushBack_perm (value : α) : (pushBack key l value).Perm (value :: l) := by
  have hp : (pushBack key l value).Perm ((l ++ [value]).set l.length value) :=
    pushHeap_perm (by simp)
  rw [List.set_append_right _ _ le_rfl, Nat.sub_self, List.set_cons_zero] at hp
  exact hp.trans (List.perm_append_singleton value l)

theorem popHeap_spec (h : Ordered key l) {a : α} (ha : l[0]? = some a) :
    Ordered key (popHeap key l) ∧ l.Perm (a :: popHeap key l) := by
  obtain ⟨l₀, value, rfl⟩ : ∃ l₀ value, l = l₀ ++ [value] := by
    cases hl : l.reverse with
    | nil =>
      rw [List.reverse_eq_nil_iff.mp hl] at ha
      cases ha
    | cons value t => exact ⟨t.reverse, value, by rw [← List.reverse_reverse l, hl]; simp⟩
  unfold popHeap
  simp only [List.getLast?_append, List.getLast?_singleton, Option.some_or, List.dropLast_concat]
  have hhollow := h.hollow_dropLast
  rw [List.dropLast_concat] at hhollow
  cases l₀ with
  | nil =>
    -- the only element goes, and nothing is put back
    obtain rfl : value = a := by simpa using ha
    have hsink : sinkHole key ([] ++ [value]).length ([] : List α) 0 = ([], 0) := rfl
    rw [hsink]
    refine ⟨?_, List.Perm.refl _⟩
    intro i b c _ hb
    cases hb
  | cons first rest =>
    obtain rfl : first = a := by simpa using ha
    have hfuel : (first :: rest).length ≤ (first :: rest ++ [value]).length + 0 := by simp
    obtain ⟨h1, h2, h3, h4⟩ := sinkHole_spec hfuel hhollow (by simp)
    generalize sinkHole key (first :: rest ++ [value]).length (first :: rest) 0 = q at *
    refine ⟨pushHeap_ordered le_rfl h1 (h2 value), ?_⟩
    have hp : (pushHeap key value q.2 q.1 q.2).Perm (value :: rest) :=
      (pushHeap_perm h3).trans (h4 value)
    refine List.Perm.trans ?_ (hp.symm.cons first)
    exact (List.perm_append_singleton value rest).cons first

/-- `std::priority_queue` over a sequence kept by `push_heap` and `pop_heap`. -/
def binaryHeap (α : Type) (key : α → ℕ) : PQ α key where
  Heap := { l : List α // Ordered key l }
  empty := ⟨[], fun i a b _ ha => by cases ha⟩
  push h a := ⟨pushBack key h.1 a, pushBack_ordered h.2 a⟩
  top h := h.1[0]?
  pop h := ⟨popHeap key h.1, by
    cases hl : h.1[0]? with
    | none =>
      rw [List.getElem?_eq_none_iff, Nat.le_zero, List.length_eq_zero_iff] at hl
      rw [hl]
      exact fun i a b _ ha => by cases ha
    | some a => exact (popHeap_spec h.2 hl).1⟩
  contents h := h.1
  contents_empty := rfl
  contents_push h a := Multiset.coe_eq_coe.mpr (pushBack_perm a)
  contents_of_top_none h ht := by
    rw [List.getElem?_eq_none_iff, Nat.le_zero, List.length_eq_zero_iff] at ht
    rw [ht]
    rfl
  contents_of_top h a ht := Multiset.coe_eq_coe.mpr (popHeap_spec h.2 ht).2
  top_le h a ht b hb := by
    obtain ⟨i, hi⟩ := List.mem_iff_getElem?.mp (Multiset.mem_coe.mp hb)
    exact h.2.root_le ht hi

/-- With one key for all, the second element to come out is not the second that went in. -/
example : popHeap (fun _ => 0) ["a", "b", "c", "d"] = ["c", "b", "d"] := by decide

end PriorityQueue
