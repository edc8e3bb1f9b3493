import Bmv2.Lib.References
import Bmv2.Tables.IndirectSpec

/-! Uses of members and groups: what an index stands for, how the counts move, and the
invariant that ties each count to the uses it stands for. -/
namespace Bmv2
open References

section PushOrSet

variable {α : Type} {l : List α} {i k : ℕ} {a : α}

theorem getElem?_pushOrSet (hi : i ≤ l.length) : (pushOrSet l i a)[i]? = some a := by
  rw [pushOrSet]
  split_ifs with h
  · simp [h]
  · simp [show i < l.length by omega]

theorem getElem?_pushOrSet_ne (hk : k ≠ i) : (pushOrSet l i a)[k]? = l[k]? := by
  rw [pushOrSet]
  split_ifs with h
  · rw [List.getElem?_append]
    split_ifs with hlt
    · rfl
    · rw [List.getElem?_eq_none (by simp; omega), List.getElem?_eq_none (by omega)]
  · simp [Ne.symm hk]

theorem length_pushOrSet (hi : i ≤ l.length) :
    (pushOrSet l i a).length = max l.length (i + 1) := by
  rw [pushOrSet]
  split_ifs with h
  · simp [h]
  · simp
    omega

end PushOrSet

namespace IndirectIndex

def mbrIndex (m : ℕ) : IndirectIndex := ⟨m⟩
def grpIndex (g : ℕ) : IndirectIndex := ⟨2 ^ 24 + g⟩

theorem get_eq (i : IndirectIndex) : i.get = i.index % 2 ^ 24 :=
  Nat.and_two_pow_sub_one_eq_mod i.index 24

theorem isMbr_eq (i : IndirectIndex) : i.isMbr = decide (i.index < 2 ^ 24) := by
  rw [isMbr, Nat.shiftRight_eq_div_pow, decide_eq_decide]
  omega

theorem isGrp_eq (i : IndirectIndex) :
    i.isGrp = decide (2 ^ 24 ≤ i.index ∧ i.index < 2 ^ 25) := by
  rw [isGrp, Nat.shiftRight_eq_div_pow, decide_eq_decide]
  omega

theorem makeMbrIndex_eq {m : ℕ} (hm : m < 2 ^ 32) {i : IndirectIndex}
    (h : makeMbrIndex m = some i) : m < 2 ^ 24 ∧ i = mbrIndex m := by
  simp only [makeMbrIndex, make, Nat.mod_eq_of_lt hm, indexMask, Nat.zero_shiftLeft,
    Nat.zero_or] at h
  split_ifs at h with hle
  exact ⟨by omega, (Option.some.inj h).symm⟩

theorem makeGrpIndex_eq {g : ℕ} (hg : g < 2 ^ 32) {i : IndirectIndex}
    (h : makeGrpIndex g = some i) : g < 2 ^ 24 ∧ i = grpIndex g := by
  simp only [makeGrpIndex, make, Nat.mod_eq_of_lt hg, indexMask] at h
  split_ifs at h with hle
  refine ⟨by omega, ?_⟩
  rw [← Option.some.inj h, grpIndex, Nat.shiftLeft_eq, Nat.mul_comm,
    ← Nat.two_pow_add_eq_or_of_lt (show g < 2 ^ 24 by omega), Nat.mul_one]

/-- An index that `make_mbr_index` or `make_grp_index` can return. -/
def Proper (i : IndirectIndex) : Prop := i.index < 2 ^ 25

theorem eq_of_get {i j : IndirectIndex} (hi : i.Proper) (hj : j.Proper) (hk : i.isMbr = j.isMbr)
    (hg : i.get = j.get) : i = j := by
  rw [isMbr_eq, isMbr_eq, decide_eq_decide] at hk
  rw [get_eq, get_eq] at hg
  rw [Proper] at hi hj
  have : i.index = j.index := by omega
  cases i
  cases j
  exact congrArg mk this

theorem isMbr_mbrIndex {m : ℕ} (hm : m < 2 ^ 24) : (mbrIndex m).isMbr = true := by
  rw [isMbr_eq, mbrIndex]
  simpa using hm

theorem get_mbrIndex {m : ℕ} (hm : m < 2 ^ 24) : (mbrIndex m).get = m := by
  rw [get_eq, mbrIndex, Nat.mod_eq_of_lt hm]

@[simp] theorem isMbr_grpIndex (g : ℕ) : (grpIndex g).isMbr = false := by
  rw [isMbr_eq, grpIndex]
  simp

theorem isGrp_grpIndex {g : ℕ} (hg : g < 2 ^ 24) : (grpIndex g).isGrp = true := by
  simp only [isGrp_eq, grpIndex, decide_eq_true_eq]
  omega

theorem get_grpIndex {g : ℕ} (hg : g < 2 ^ 24) : (grpIndex g).get = g := by
  simp only [get_eq, grpIndex]
  omega

theorem mbrIndex_injective : Function.Injective mbrIndex := fun _ _ h => congrArg index h

theorem grpIndex_injective : Function.Injective grpIndex := by
  intro a b h
  have := congrArg index h
  simp only [grpIndex] at this
  omega

theorem mbrIndex_ne_grpIndex {m : ℕ} (hm : m < 2 ^ 24) (g : ℕ) : mbrIndex m ≠ grpIndex g := by
  intro h
  have := congrArg index h
  simp only [mbrIndex, grpIndex] at this
  omega

end IndirectIndex

namespace IndirectIndexRefCount

variable {c c' : IndirectIndexRefCount} {i j : IndirectIndex}

theorem get_setVec (hi : i.Proper) (hj : j.Proper) {v : List ℕ}
    (hv : ∀ k, k ≠ i.get → v[k]? = (c.vec i)[k]?) :
    (c.setVec i v).get j = if j = i then v[i.get]? else c.get j := by
  by_cases hji : j = i
  · subst hji
    simp only [get, vec, setVec, ↓reduceIte]
    split_ifs <;> rfl
  · rw [if_neg hji]
    by_cases hk : j.isMbr = i.isMbr
    · have hne : j.get ≠ i.get := fun hg => hji (IndirectIndex.eq_of_get hj hi hk hg)
      have := hv _ hne
      simp only [get, vec, setVec, hk] at this ⊢
      split_ifs at this ⊢ <;> simpa using this
    · simp only [get, vec, setVec]
      cases hmi : i.isMbr <;> cases hmj : j.isMbr <;> simp_all

theorem get_change (hi : i.Proper) (hj : j.Proper) {f : ℕ → ℕ} (h : c.change i f = some c') :
    c'.get j = if j = i then (c.get i).map f else c.get j := by
  obtain ⟨n, hn, rfl⟩ := Option.map_eq_some_iff.mp h
  rw [get_setVec hi hj fun k hk => by simp [Ne.symm hk]]
  have hlt := (List.getElem?_eq_some_iff.mp hn).1
  simp [hn, hlt]

theorem get_increase (hi : i.Proper) (hj : j.Proper) (h : c.increase i = some c') :
    c'.get j = if j = i then (c.get i).map fun n => (n + 1) % 2 ^ 32 else c.get j :=
  get_change hi hj h

theorem get_decrease (hi : i.Proper) (hj : j.Proper) (h : c.decrease i = some c') :
    c'.get j = if j = i then (c.get i).map fun n => (n + (2 ^ 32 - 1)) % 2 ^ 32 else c.get j :=
  get_change hi hj h

theorem get_set (hi : i.Proper) (hj : j.Proper) {n : ℕ} (h : c.set i n = some c') :
    c'.get j = if j = i then some n else c.get j := by
  rw [set] at h
  split_ifs at h with hle
  obtain rfl := Option.some.inj h
  rw [get_setVec hi hj fun k hk => getElem?_pushOrSet_ne hk, getElem?_pushOrSet hle]

end IndirectIndexRefCount

namespace MatchUnit

variable {K S : Type} {u : MatchUnit K IndirectIndex S} {i : ℕ} {e e₀ : Entry K IndirectIndex}

/-- Slot `i` holds an entry with index `x`. -/
def Holds (u : MatchUnit K IndirectIndex S) (x : IndirectIndex) (i : ℕ) : Prop :=
  (u.entries[i]?.map Entry.value) = some x

instance (x : IndirectIndex) : DecidablePred (u.Holds x) :=
  fun _ => inferInstanceAs (Decidable (_ = _))

/-- The number of installed entries whose index is `x`. -/
def entryUses (u : MatchUnit K IndirectIndex S) (x : IndirectIndex) : ℕ :=
  refs u.handles.handles (u.Holds x)

theorem holds_set {w : MatchUnit K IndirectIndex S} (hi : i < u.entries.length)
    (hw : w.entries = u.entries.set i e) (x : IndirectIndex) (j : ℕ) :
    w.Holds x j ↔ if j = i then e.value = x else u.Holds x j := by
  rw [Holds, hw, List.getElem?_set]
  by_cases hji : j = i
  · subst hji
    simp [hi]
  · simp [hji, Ne.symm hji, Holds]

theorem entryUses_installed (hi : i < u.entries.length) (hfree : i ∉ u.handles.handles)
    {m : EntryMeta} {ls : S} (x : IndirectIndex) :
    (u.installed i e m ls).entryUses x = u.entryUses x + if e.value = x then 1 else 0 := by
  have hset := holds_set (w := u.installed i e m ls) hi rfl x
  have := refs_insert (P := u.Holds x) (Q := (u.installed i e m ls).Holds x) hfree fun j hj => by
    rw [hset, if_neg (ne_of_mem_of_not_mem hj hfree)]
  rw [entryUses, entryUses]
  simp only [hset, ↓reduceIte] at this
  exact this

theorem entryUses_rewritten (hi : i ∈ u.handles.handles) (he : u.entries[i]? = some e₀)
    (x : IndirectIndex) : (u.rewritten i e).entryUses x + (if e₀.value = x then 1 else 0) =
      u.entryUses x + if e.value = x then 1 else 0 := by
  have hlt := (List.getElem?_eq_some_iff.mp he).1
  have hset := holds_set (w := u.rewritten i e) hlt rfl x
  have := refs_update (P := u.Holds x) (Q := (u.rewritten i e).Holds x) hi fun j _ hji => by
    rw [hset, if_neg hji]
  have h0 : u.Holds x i ↔ e₀.value = x := by simp [Holds, he]
  simp only [hset, ↓reduceIte, h0] at this
  exact this

theorem entryUses_removed [MatchKey K] (hi : i ∈ u.handles.handles) (he : u.entries[i]? = some e)
    {ls : S}
    (x : IndirectIndex) :
    (u.removed i e ls).entryUses x + (if e.value = x then 1 else 0) = u.entryUses x := by
  have hlt := (List.getElem?_eq_some_iff.mp he).1
  have := refs_erase (P := u.Holds x) (Q := (u.removed i e ls).Holds x) hi fun j _ hji => by
    rw [holds_set (w := u.removed i e ls) hlt rfl x, if_neg hji]
  simp only [Holds, he, Option.map_some, Option.some.injEq] at this
  exact this

end MatchUnit

namespace MatchTableIndirectWS
open IndirectIndex

variable {K S : Type} {t t' : MatchTableIndirectWS K S}

/-- The members of a group. -/
def group (t : MatchTableIndirectWS K S) (g : ℕ) : Finset ℕ := (t.groupEntries.getD g {}).mbrs

theorem group_set {g : ℕ} {mbrs : Finset ℕ} {c : IndirectIndexRefCount} (g' : ℕ)
    (hg : g < t.groupEntries.length) : ({ t with
      indexRefCount := c
      groupEntries := t.groupEntries.set g ⟨mbrs⟩ } : MatchTableIndirectWS K S).group g' =
      if g' = g then mbrs else t.group g' := by
  simp only [group, List.getD_eq_getElem?_getD, List.getElem?_set]
  by_cases hgg : g' = g
  · subst hgg
    simp [hg]
  · simp [hgg, Ne.symm hgg]

/-- The number of live groups that contain the member `x` stands for. -/
def groupUses (t : MatchTableIndirectWS K S) (x : IndirectIndex) : ℕ :=
  refs t.grpHandles.handles fun g => x.isMbr = true ∧ x.get ∈ t.group g

def uses (t : MatchTableIndirectWS K S) (x : IndirectIndex) : ℕ :=
  t.matchUnit.entryUses x + t.groupUses x

/-- The index of a live member or of a live group. -/
def LiveIndex (t : MatchTableIndirectWS K S) (x : IndirectIndex) : Prop :=
  (∃ m ∈ t.mbrHandles.handles, x = mbrIndex m) ∨ ∃ g ∈ t.grpHandles.handles, x = grpIndex g

/-- A relation between uses and counts that survives one more and one less on both sides. -/
structure CountRel (R : ℕ → ℕ → Prop) : Prop where
  zero : R 0 0
  succ : ∀ {a b}, R a b → R (a + 1) (b + 1)
  pred : ∀ {a b}, R (a + 1) b → ∃ b', b = b' + 1 ∧ R a b'

theorem CountRel.eq_zero {R : ℕ → ℕ → Prop} (hR : CountRel R) {a : ℕ} (h : R a 0) : a = 0 := by
  cases a with
  | zero => rfl
  | succ a =>
    obtain ⟨b', hb, -⟩ := hR.pred h
    omega

theorem countRel_eq : CountRel (· = ·) :=
  ⟨rfl, fun h => by rw [h], fun {a b} h => ⟨a, h.symm, rfl⟩⟩

theorem countRel_le : CountRel (· ≤ ·) :=
  ⟨le_rfl, Nat.succ_le_succ, fun {a b} h => ⟨b - 1, by omega, by omega⟩⟩

/-- The count of `x` is an unsigned int related to `a`. -/
def Counted (R : ℕ → ℕ → Prop) (c : IndirectIndexRefCount) (x : IndirectIndex) (a : ℕ) : Prop :=
  ∃ n < 2 ^ 32, c.get x = some n ∧ R a n

variable [MatchKey K] {L : LookupStructure K S}

/-- Every index in use stands for something live, and every live index has a count that is
related to its uses by `R`. -/
structure RefInv (R : ℕ → ℕ → Prop) (t : MatchTableIndirectWS K S) : Prop where
  size_lt : t.matchUnit.size < 2 ^ 31
  wf : t.matchUnit.Wf
  mbr_bound : t.actionEntries.length ≤ 2 ^ 24
  grp_bound : t.groupEntries.length ≤ 2 ^ 24
  mbr_lt : ∀ m ∈ t.mbrHandles.handles, m < t.actionEntries.length
  grp_lt : ∀ g ∈ t.grpHandles.handles, g < t.groupEntries.length
  entry_live : ∀ i ∈ t.matchUnit.handles.handles, ∀ x, t.matchUnit.Holds x i → t.LiveIndex x
  group_live : ∀ g ∈ t.grpHandles.handles, ∀ m ∈ t.group g, m ∈ t.mbrHandles.handles
  counts : ∀ x, t.LiveIndex x → Counted R t.indexRefCount x (t.uses x)

namespace RefInv

variable {R : ℕ → ℕ → Prop}

theorem mbr_lt' (h : RefInv R t) {m : ℕ} (hm : m ∈ t.mbrHandles.handles) : m < 2 ^ 24 :=
  (h.mbr_lt m hm).trans_le h.mbr_bound

theorem grp_lt' (h : RefInv R t) {g : ℕ} (hg : g ∈ t.grpHandles.handles) : g < 2 ^ 24 :=
  (h.grp_lt g hg).trans_le h.grp_bound

theorem proper (h : RefInv R t) {x : IndirectIndex} (hx : t.LiveIndex x) : x.Proper := by
  rcases hx with ⟨m, hm, rfl⟩ | ⟨g, hg, rfl⟩
  · have := h.mbr_lt' hm
    simp only [Proper, mbrIndex]
    omega
  · have := h.grp_lt' hg
    simp only [Proper, grpIndex]
    omega

omit [MatchKey K] in
theorem live_mbr {m : ℕ} (hm : m < 2 ^ 24) :
    t.LiveIndex (mbrIndex m) ↔ m ∈ t.mbrHandles.handles := by
  constructor
  · rintro (⟨m', hm', he⟩ | ⟨g, -, he⟩)
    · rwa [mbrIndex_injective he]
    · exact absurd he (mbrIndex_ne_grpIndex hm g)
  · exact fun hmem => .inl ⟨m, hmem, rfl⟩

theorem live_grp (h : RefInv R t) {g : ℕ} :
    t.LiveIndex (grpIndex g) ↔ g ∈ t.grpHandles.handles := by
  constructor
  · rintro (⟨m, hm, he⟩ | ⟨g', hg', he⟩)
    · exact absurd he.symm (mbrIndex_ne_grpIndex (h.mbr_lt' hm) g)
    · rwa [grpIndex_injective he]
  · exact fun hmem => .inr ⟨g, hmem, rfl⟩

/-- A table without members, groups and entries counts nothing. -/
theorem empty (hsize : t.matchUnit.size < 2 ^ 31) (hwf : t.matchUnit.Wf)
    (hentries : t.actionEntries = []) (hgroups : t.groupEntries = [])
    (hmbrs : t.mbrHandles.handles = ∅) (hgrps : t.grpHandles.handles = ∅)
    (hunit : t.matchUnit.handles.handles = ∅) : RefInv R t := by
  refine ⟨hsize, hwf, by simp [hentries], by simp [hgroups], ?_, ?_, ?_, ?_, ?_⟩ <;>
  simp [hmbrs, hgrps, hunit, LiveIndex]

theorem create (base : MatchTableAbstract) {size : ℕ} (hsize : size < 2 ^ 31)
    (kb : MatchKeyBuilder) (ls : S) :
    RefInv R (MatchTableIndirectWS.create base size kb ls : MatchTableIndirectWS K S) :=
  empty hsize (.create (by omega) kb ls) rfl rfl rfl rfl rfl

end RefInv

end MatchTableIndirectWS

end Bmv2
