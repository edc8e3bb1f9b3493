import Mathlib.Data.List.Infix
import Mathlib.Tactic.Common
import Bmv2.Lpm.Trie

/-! The tree invariant of the trie: every node is named by the byte path that leads to it
from the root, and each heap update changes the named nodes in a known way. -/
namespace Bmv2.Lpm
open ByteBits

namespace Trie

/-- One step down from a node. -/
def child (t : Trie) (a : ℕ) (b : Byte) : Option ℕ :=
  (t.heap a).bind fun n => getNextNode n b

/-- The way back up from a node. -/
def link (t : Trie) (a : ℕ) : Option (Option ℕ × Byte) :=
  (t.heap a).map fun n => (n.parent, n.childId)

/-- The value stored in a node under a prefix key. -/
def stored (t : Trie) (a : ℕ) (key : ℕ) : Option ℕ :=
  (t.heap a).bind fun n => n.prefixes.lookup key

/-- The node at a byte path. -/
def walk (t : Trie) (q : List Byte) : Option ℕ := q.foldlM t.child t.root

/-- The value stored under a prefix key at a byte path. -/
def content (t : Trie) (q : List Byte) (key : ℕ) : Option ℕ :=
  (t.walk q).bind fun a => t.stored a key

variable {t : Trie} {q q' : List Byte} {a cur par : ℕ} {b : Byte} {n pn : Node}

@[simp] theorem walk_nil (t : Trie) : t.walk [] = some t.root := rfl

theorem walk_concat (t : Trie) (q : List Byte) (b : Byte) :
    t.walk (q ++ [b]) = (t.walk q).bind fun a => t.child a b := by
  simp [walk, List.foldlM_append, bind]

/-- Below a node at a byte path are its branches. -/
theorem walk_concat_of_heap (hw : t.walk q = some a) (hn : t.heap a = some n) (b : Byte) :
    t.walk (q ++ [b]) = getNextNode n b := by
  rw [walk_concat, hw, Option.bind_some, child, hn, Option.bind_some]

/-- At a node the contents are its entries. -/
theorem content_of_heap (hw : t.walk q = some a) (hn : t.heap a = some n) (key : ℕ) :
    t.content q key = n.prefixes.lookup key := by
  rw [content, hw, Option.bind_some, stored, hn, Option.bind_some]

theorem walk_append_eq_none (h : t.walk q = none) (q' : List Byte) :
    t.walk (q ++ q') = none := by
  rw [walk] at h
  rw [walk, List.foldlM_append, h]
  rfl

theorem walk_of_concat {c : ℕ} (h : t.walk (q ++ [b]) = some c) :
    ∃ a, t.walk q = some a ∧ t.child a b = some c := by
  rwa [walk_concat, Option.bind_eq_some_iff] at h

theorem child_addChild (hn : t.heap cur = some n) (hnext : t.heap t.next = none) (a : ℕ)
    (c : Byte) :
    (t.addChild cur n b).child a c = if a = cur ∧ c = b then some t.next else t.child a c := by
  have hne : cur ≠ t.next := fun he => by simp [← he, hn] at hnext
  by_cases hac : a = cur
  · subst hac
    by_cases hcb : c = b
    · subst hcb
      simp [child, addChild, getNextNode]
    · simp [child, addChild, getNextNode, hcb, hn]
  · by_cases han : a = t.next
    · simp [child, addChild, han, hnext, hne.symm, getNextNode]
    · simp [child, addChild, hac, han]

theorem link_addChild (hn : t.heap cur = some n) (hnext : t.heap t.next = none) (a : ℕ) :
    (t.addChild cur n b).link a = if a = t.next then some (some cur, b) else t.link a := by
  have hne : cur ≠ t.next := fun he => by simp [← he, hn] at hnext
  by_cases hac : a = cur
  · simp [link, addChild, hac, hne, hn]
  · by_cases han : a = t.next <;> simp [link, addChild, hac, han, hne.symm]

theorem stored_addChild (hn : t.heap cur = some n) (hnext : t.heap t.next = none) (a : ℕ)
    (key : ℕ) : (t.addChild cur n b).stored a key = t.stored a key := by
  have hne : cur ≠ t.next := fun he => by simp [← he, hn] at hnext
  by_cases hac : a = cur
  · simp [stored, addChild, hac, hn]
  · by_cases han : a = t.next <;> simp [stored, addChild, hac, han, hne.symm, hnext]

theorem child_dropChild (hp : t.heap par = some pn) (hne : par ≠ cur) (a : ℕ) (c : Byte) :
    (t.dropChild cur par pn b).child a c =
      if a = cur ∨ (a = par ∧ c = b) then none else t.child a c := by
  by_cases hap : a = par
  · subst hap
    by_cases hcb : c = b
    · subst hcb
      simp [child, dropChild, getNextNode]
    · simp [child, dropChild, getNextNode, hcb, hp, hne]
  · by_cases hac : a = cur <;> simp [child, dropChild, hac, hap, hne.symm]

theorem link_dropChild (hp : t.heap par = some pn) (hne : par ≠ cur) (a : ℕ) :
    (t.dropChild cur par pn b).link a = if a = cur then none else t.link a := by
  by_cases hap : a = par
  · simp [link, dropChild, hap, hp, hne]
  · by_cases hac : a = cur <;> simp [link, dropChild, hap, hac, hne.symm]

theorem stored_dropChild (hp : t.heap par = some pn) (hne : par ≠ cur) (a : ℕ) (key : ℕ) :
    (t.dropChild cur par pn b).stored a key = if a = cur then none else t.stored a key := by
  by_cases hap : a = par
  · simp [stored, dropChild, hap, hp, hne]
  · by_cases hac : a = cur <;> simp [stored, dropChild, hap, hac, hne.symm]

/-- A write that keeps the links of a node leaves every path as it is. -/
theorem walk_write (hn : t.heap cur = some n) {m : Node} (hm : m.branches = n.branches)
    (q : List Byte) : (t.write cur m).walk q = t.walk q := by
  have hchild : (t.write cur m).child = t.child := by
    funext a c
    by_cases hac : a = cur <;> simp [child, write, hac, hn, getNextNode, hm]
  rw [walk, hchild]
  rfl

theorem link_write (hn : t.heap cur = some n) {m : Node} (hp : m.parent = n.parent)
    (hc : m.childId = n.childId) (a : ℕ) : (t.write cur m).link a = t.link a := by
  by_cases hac : a = cur <;> simp [link, write, hac, hn, hp, hc]

end Trie

/-- Every pointer leads to a live node that points back, the root has no parent, and
addresses from `next` on are fresh. -/
structure Shape (t : Trie) : Prop where
  root : ∃ i, t.link t.root = some (none, i)
  child : ∀ {a b c}, t.child a b = some c → t.link c = some (some a, b)
  fresh : ∀ {a}, t.next ≤ a → t.heap a = none

namespace Shape

variable {t : Trie} {q q' : List Byte} {a cur par : ℕ} {b : Byte} {n pn m : Node}

theorem next (h : Shape t) : t.heap t.next = none := h.fresh le_rfl

theorem link_walk (h : Shape t) (hw : t.walk q = some a) : ∃ l, t.link a = some l := by
  cases q using List.reverseRecOn with
  | nil =>
    obtain ⟨i, hi⟩ := h.root
    obtain rfl : t.root = a := by simpa using hw
    exact ⟨_, hi⟩
  | append_singleton q b =>
    obtain ⟨c, -, hc⟩ := Trie.walk_of_concat hw
    exact ⟨_, h.child hc⟩

theorem walk_live (h : Shape t) (hw : t.walk q = some a) : ∃ n, t.heap a = some n := by
  obtain ⟨l, hl⟩ := h.link_walk hw
  obtain ⟨n, hn, -⟩ := Option.map_eq_some_iff.mp hl
  exact ⟨n, hn⟩

/-- A node has one path: its parent pointers spell it. -/
theorem walk_injective (h : Shape t) (hq : t.walk q = some a) (hq' : t.walk q' = some a) :
    q = q' := by
  obtain ⟨i, hr⟩ := h.root
  induction q using List.reverseRecOn generalizing q' a with
  | nil =>
    obtain rfl : t.root = a := by simpa using hq
    cases q' using List.reverseRecOn with
    | nil => rfl
    | append_singleton q' b' =>
      obtain ⟨c, -, hc⟩ := Trie.walk_of_concat hq'
      simp [h.child hc] at hr
  | append_singleton q b ih =>
    obtain ⟨c, hc, hcb⟩ := Trie.walk_of_concat hq
    have hl := h.child hcb
    cases q' using List.reverseRecOn with
    | nil =>
      obtain rfl : t.root = a := by simpa using hq'
      simp [hl] at hr
    | append_singleton q' b' =>
      obtain ⟨c', hc', hcb'⟩ := Trie.walk_of_concat hq'
      have hl' := h.child hcb'
      simp only [hl, Option.some.injEq, Prod.mk.injEq] at hl'
      obtain ⟨rfl, rfl⟩ := hl'
      rw [ih hc hc']

/-- Where the grafted node hangs; every other path is as before. -/
theorem walk_addChild (h : Shape t) (hq : t.walk q = some cur) (hn : t.heap cur = some n)
    (hb : getNextNode n b = none) (q' : List Byte) :
    (t.addChild cur n b).walk q' = if q' = q ++ [b] then some t.next else t.walk q' := by
  have hchild := Trie.child_addChild (b := b) hn h.next
  induction q' using List.reverseRecOn with
  | nil => simp [Trie.addChild]
  | append_singleton q' c ih =>
    rw [Trie.walk_concat, ih, Trie.walk_concat]
    have hiff : q' ++ [c] = q ++ [b] ↔ q' = q ∧ c = b :=
      ⟨fun he => by simpa using List.append_inj' he rfl, fun ⟨h1, h2⟩ => by rw [h1, h2]⟩
    by_cases hqb : q' = q ++ [b]
    · have hnone : t.walk q' = none := by
        rw [hqb, Trie.walk_concat, hq]
        simp [Trie.child, hn, hb]
      have hcur : t.next ≠ cur := fun he => by simp [← he, h.next] at hn
      have hne : q' ≠ q := fun he => by simp [hqb] at he
      rw [if_pos hqb, hnone, if_neg (by simp [hiff, hne]), Option.bind_some, hchild,
        if_neg (by simp [hcur])]
      simp [Trie.child, h.next]
    · rw [if_neg hqb]
      cases ha : t.walk q' with
      | none =>
        have hne : q' ≠ q := fun he => by simp [he, hq] at ha
        simp [hiff, hne]
      | some a =>
        have hac : a = cur ↔ q' = q :=
          ⟨fun he => h.walk_injective (he ▸ ha) hq, fun he => by
            rw [he, hq, Option.some.injEq] at ha
            exact ha.symm⟩
        simp [hchild, hiff, hac]

theorem addChild (h : Shape t) (hn : t.heap cur = some n) (hb : getNextNode n b = none) :
    Shape (t.addChild cur n b) := by
  have hlink := Trie.link_addChild (b := b) hn h.next
  have hold : ∀ {a l}, t.link a = some l → a ≠ t.next := by
    rintro a l hl rfl
    simp [Trie.link, h.next] at hl
  refine ⟨?_, ?_, ?_⟩
  · obtain ⟨i, hi⟩ := h.root
    exact ⟨i, by rw [hlink, if_neg]; exacts [hi, hold hi]⟩
  · intro a c d hd
    rw [Trie.child_addChild hn h.next] at hd
    split_ifs at hd with hac
    · obtain ⟨rfl, rfl⟩ := hac
      rw [hlink, if_pos (by simpa using hd.symm)]
    · have hl := h.child hd
      rw [hlink, if_neg (hold hl), hl]
  · intro a ha
    have ha' : t.next + 1 ≤ a := ha
    have hcur : a ≠ cur := by
      rintro rfl
      rw [h.fresh (by omega)] at hn
      exact absurd hn (by simp)
    have hne : a ≠ t.next := by omega
    simp [Trie.addChild, hcur, hne, h.fresh (show t.next ≤ a by omega)]

theorem content_addChild (h : Shape t) (hq : t.walk q = some cur) (hn : t.heap cur = some n)
    (hb : getNextNode n b = none) (q' : List Byte) (key : ℕ) :
    (t.addChild cur n b).content q' key = t.content q' key := by
  rw [Trie.content, h.walk_addChild hq hn hb, Trie.content]
  split_ifs with he
  · rw [he, Trie.walk_concat, hq, Option.bind_some, Trie.stored_addChild hn h.next]
    simp [Trie.stored, h.next, Trie.child, hn, hb]
  · simp only [Trie.stored_addChild hn h.next]

theorem write (h : Shape t) (hn : t.heap cur = some n) (hm : m.branches = n.branches)
    (hp : m.parent = n.parent) (hc : m.childId = n.childId) : Shape (t.write cur m) := by
  have hlink := Trie.link_write hn hp hc
  refine ⟨?_, ?_, ?_⟩
  · obtain ⟨i, hi⟩ := h.root
    exact ⟨i, by rw [hlink]; exact hi⟩
  · intro a c d hd
    have hchild : (t.write cur m).child a c = t.child a c := by
      by_cases hac : a = cur <;> simp [Trie.child, Trie.write, hac, hn, getNextNode, hm]
    rw [hchild] at hd
    rw [hlink, h.child hd]
  · intro a ha
    have hcur : a ≠ cur := by
      rintro rfl
      rw [h.fresh ha] at hn
      exact absurd hn (by simp)
    simp [Trie.write, hcur, h.fresh ha]

theorem content_write (h : Shape t) (hq : t.walk q = some cur) (hn : t.heap cur = some n)
    (hm : m.branches = n.branches) (q' : List Byte) (key : ℕ) :
    (t.write cur m).content q' key =
      if q' = q then m.prefixes.lookup key else t.content q' key := by
  rw [Trie.content, Trie.walk_write hn hm, Trie.content]
  cases ha : t.walk q' with
  | none =>
    have hne : q' ≠ q := fun he => by simp [he, hq] at ha
    simp [hne]
  | some a =>
    by_cases hac : a = cur
    · rw [hac] at ha
      obtain rfl := h.walk_injective ha hq
      simp [Trie.stored, Trie.write, hac]
    · have hne : q' ≠ q := fun he => hac (by simpa [he, hq] using ha.symm)
      simp [Trie.stored, Trie.write, hac, hne]

/-- Pruning removes exactly the paths through the pruned branch. -/
theorem walk_dropChild (h : Shape t) (hq : t.walk (q ++ [b]) = some cur)
    (hp : t.walk q = some par) (hpn : t.heap par = some pn) (q' : List Byte) :
    (t.dropChild cur par pn b).walk q' = if q ++ [b] <+: q' then none else t.walk q' := by
  have hne : par ≠ cur := by
    rintro rfl
    have := congrArg List.length (h.walk_injective hp hq)
    simp at this
  induction q' using List.reverseRecOn with
  | nil => simp [Trie.dropChild]
  | append_singleton q' c ih =>
    rw [Trie.walk_concat, ih, Trie.walk_concat]
    by_cases hpre : q ++ [b] <+: q'
    · rw [if_pos hpre, if_pos (hpre.trans (List.prefix_append _ _))]
      rfl
    · have hiff : q ++ [b] <+: q' ++ [c] ↔ q' = q ∧ c = b := by
        rw [List.prefix_concat_iff]
        constructor
        · rintro (he | he)
          · obtain ⟨h1, h2⟩ := List.append_inj' he rfl
            exact ⟨h1.symm, by simpa using h2.symm⟩
          · exact absurd he hpre
        · rintro ⟨rfl, rfl⟩
          exact Or.inl rfl
      rw [if_neg hpre]
      cases ha : t.walk q' with
      | none => simp
      | some a =>
        have hac : a ≠ cur := by
          rintro rfl
          exact hpre (h.walk_injective hq ha ▸ List.prefix_refl _)
        have hap : a = par ↔ q' = q :=
          ⟨fun he => h.walk_injective (he ▸ ha) hp, fun he => by
            rw [he, hp, Option.some.injEq] at ha
            exact ha.symm⟩
        simp [Trie.child_dropChild hpn hne, hac, hap, hiff]

theorem dropChild (h : Shape t) (hb : t.child par b = some cur) (hne : par ≠ cur)
    (hpn : t.heap par = some pn) : Shape (t.dropChild cur par pn b) := by
  have hlink := Trie.link_dropChild (b := b) hpn hne
  have hcur := h.child hb
  refine ⟨?_, ?_, ?_⟩
  · obtain ⟨i, hi⟩ := h.root
    have hrc : t.root ≠ cur := fun he => by simp [he, hcur] at hi
    exact ⟨i, (hlink _).trans ((if_neg hrc).trans hi)⟩
  · intro a c d hd
    rw [Trie.child_dropChild hpn hne] at hd
    split_ifs at hd with hcond
    have hl := h.child hd
    have hdc : d ≠ cur := by
      rintro rfl
      rw [hcur] at hl
      simp only [Option.some.injEq, Prod.mk.injEq] at hl
      exact hcond (Or.inr ⟨hl.1.symm, hl.2.symm⟩)
    rw [hlink, if_neg hdc, hl]
  · intro a ha
    have hap : a ≠ par := by
      rintro rfl
      rw [h.fresh ha] at hpn
      exact absurd hpn (by simp)
    by_cases hac : a = cur <;> simp [Trie.dropChild, hap, hac, h.fresh (show t.next ≤ a from ha)]
    subst hac
    simp [hne.symm]

/-- Pruning can only lose stored prefixes, and those lie below the pruned branch. -/
theorem content_dropChild (h : Shape t) (hq : t.walk (q ++ [b]) = some cur)
    (hp : t.walk q = some par) (hpn : t.heap par = some pn) (q' : List Byte) (key : ℕ) :
    (t.dropChild cur par pn b).content q' key =
      if q ++ [b] <+: q' then none else t.content q' key := by
  have hne : par ≠ cur := by
    rintro rfl
    have := congrArg List.length (h.walk_injective hp hq)
    simp at this
  rw [Trie.content, h.walk_dropChild hq hp hpn, Trie.content]
  split_ifs with hpre
  · rfl
  · cases ha : t.walk q' with
    | none => rfl
    | some a =>
      have hac : a ≠ cur := by
        rintro rfl
        exact hpre (h.walk_injective hq ha ▸ List.prefix_refl _)
      simp [Trie.stored_dropChild hpn hne, hac]

end Shape

end Bmv2.Lpm
