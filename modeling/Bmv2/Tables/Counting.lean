import Bmv2.Tables.References

/-! Every operation of an indirect table moves the counts with the uses, as long as it does
not count a use that it then fails to make, or release one that it then keeps. -/
namespace Bmv2
open References IndirectIndex

namespace MatchTableIndirectWS

section Counts

variable {R : ℕ → ℕ → Prop} {c c' : IndirectIndexRefCount} {x y : IndirectIndex} {a b : ℕ}

theorem Counted.increase (hR : CountRel R) (h : Counted R c x a) (hy : y.Proper) (hx : x.Proper)
    (hwrap : ∀ n, c.get y = some n → n + 1 < 2 ^ 32) (hc : c.increase y = some c') :
    Counted R c' x (a + if y = x then 1 else 0) := by
  obtain ⟨n, hn, hget, hrel⟩ := h
  rw [Counted, IndirectIndexRefCount.get_increase hy hx hc]
  by_cases hxy : x = y
  · subst hxy
    have := hwrap n hget
    simp only [↓reduceIte, hget, Option.map_some, Option.some.injEq, Nat.mod_eq_of_lt this]
    exact ⟨n + 1, this, rfl, hR.succ hrel⟩
  · simp only [hxy, Ne.symm hxy, ↓reduceIte, add_zero]
    exact ⟨n, hn, hget, hrel⟩

theorem Counted.decrease (hR : CountRel R) (h : Counted R c x a) (hy : y.Proper) (hx : x.Proper)
    (hc : c.decrease y = some c') (hb : b + (if y = x then 1 else 0) = a) : Counted R c' x b := by
  obtain ⟨n, hn, hget, hrel⟩ := h
  rw [Counted, IndirectIndexRefCount.get_decrease hy hx hc]
  by_cases hxy : x = y
  · subst hxy
    simp only [↓reduceIte] at hb
    subst hb
    obtain ⟨n', rfl, hrel'⟩ := hR.pred hrel
    have hmod : (n' + 1 + (2 ^ 32 - 1)) % 2 ^ 32 = n' := by omega
    simp only [↓reduceIte, hget, Option.map_some, hmod, Option.some.injEq]
    exact ⟨n', by omega, rfl, hrel'⟩
  · simp only [Ne.symm hxy, ↓reduceIte, add_zero] at hb
    simp only [hxy, ↓reduceIte]
    exact ⟨n, hn, hget, hb ▸ hrel⟩

/-- A use that is counted but not made only pushes the count up. -/
theorem Counted.leak (hleak : ∀ {a b}, R a b → R a (b + 1)) (h : Counted R c x a) (hy : y.Proper)
    (hx : x.Proper) (hwrap : ∀ n, c.get y = some n → n + 1 < 2 ^ 32)
    (hc : c.increase y = some c') : Counted R c' x a := by
  obtain ⟨n, hn, hget, hrel⟩ := h
  rw [Counted, IndirectIndexRefCount.get_increase hy hx hc]
  by_cases hxy : x = y
  · subst hxy
    have := hwrap n hget
    simp only [↓reduceIte, hget, Option.map_some, Nat.mod_eq_of_lt this, Option.some.injEq]
    exact ⟨n + 1, this, rfl, hleak hrel⟩
  · simp only [hxy, ↓reduceIte]
    exact ⟨n, hn, hget, hrel⟩

theorem Counted.set (h : x ≠ y → Counted R c x a) (h0 : x = y → R a 0) (hy : y.Proper)
    (hx : x.Proper) (hc : c.set y 0 = some c') : Counted R c' x a := by
  rw [Counted, IndirectIndexRefCount.get_set hy hx hc]
  by_cases hxy : x = y
  · simp only [hxy, ↓reduceIte, Option.some.injEq]
    exact ⟨0, by decide, rfl, h0 hxy⟩
  · simp only [hxy, ↓reduceIte]
    exact h hxy

theorem mbrIndex_proper {m : ℕ} (hm : m < 2 ^ 24) : (mbrIndex m).Proper := by
  simp only [Proper, mbrIndex]
  omega

theorem grpIndex_proper {g : ℕ} (hg : g < 2 ^ 24) : (grpIndex g).Proper := by
  simp only [Proper, grpIndex]
  omega

/-- A proper index stands for member `m` exactly when it is `m`'s index. -/
theorem isMbr_and_get_eq {m : ℕ} (hm : m < 2 ^ 24) (hx : x.Proper) :
    x.isMbr = true ∧ x.get = m ↔ mbrIndex m = x := by
  constructor
  · rintro ⟨h1, h2⟩
    refine eq_of_get (mbrIndex_proper hm) hx ?_ ?_
    · rw [h1, isMbr_mbrIndex hm]
    · rw [h2, get_mbrIndex hm]
  · rintro rfl
    exact ⟨isMbr_mbrIndex hm, get_mbrIndex hm⟩

/-- Releasing all members of a group takes one use from each. -/
theorem Counted.releaseAll (hR : CountRel R) (hx : x.Proper) {l : List ℕ} (hnodup : l.Nodup)
    (hl : ∀ m ∈ l, m < 2 ^ 24) (h : Counted R c x a) (hc : releaseAll c l = some c')
    (hb : b + (if x.isMbr = true ∧ x.get ∈ l then 1 else 0) = a) : Counted R c' x b := by
  induction l generalizing c a with
  | nil =>
    obtain rfl := Option.some.inj hc
    simp only [List.not_mem_nil, and_false, ↓reduceIte, add_zero] at hb
    exact hb ▸ h
  | cons m l ih =>
    have hm := hl m (by simp)
    rw [MatchTableIndirectWS.releaseAll, List.foldlM_cons] at hc
    obtain ⟨c₁, h₁, hc⟩ := Option.bind_eq_some_iff.mp hc
    obtain ⟨y, hy, h₁⟩ := Option.bind_eq_some_iff.mp h₁
    obtain ⟨-, rfl⟩ := makeMbrIndex_eq (by omega) hy
    have hnot : m ∉ l := (List.nodup_cons.mp hnodup).1
    refine ih (List.nodup_cons.mp hnodup).2 (fun k hk => hl k (by simp [hk]))
      (h.decrease hR (mbrIndex_proper hm) hx h₁ (b := b + if x.isMbr = true ∧ x.get ∈ l
        then 1 else 0) ?_) hc rfl
    rw [← hb, add_assoc]
    congr 1
    by_cases hxm : mbrIndex m = x
    · obtain ⟨h1, h2⟩ := (isMbr_and_get_eq hm hx).mpr hxm
      simp [hxm, h1, h2, hnot]
    · have := mt (isMbr_and_get_eq hm hx).mp hxm
      have hiff : (x.isMbr = true ∧ x.get ∈ m :: l) ↔ (x.isMbr = true ∧ x.get ∈ l) := by
        rw [List.mem_cons]
        tauto
      simp only [hxm, hiff, ↓reduceIte, add_zero]

end Counts

variable {K S : Type} [MatchKey K] {L : LookupStructure K S} {t t' : MatchTableIndirectWS K S}
variable {R : ℕ → ℕ → Prop}

namespace RefInv

/-- A change of the entries and the counts alone. -/
theorem withUnit (h : RefInv R t) {u : MatchUnit K IndirectIndex S} {c : IndirectIndexRefCount}
    (hsize : u.size = t.matchUnit.size) (hwf : u.Wf)
    (hent : ∀ i ∈ u.handles.handles, ∀ x, u.Holds x i → t.LiveIndex x)
    (hcount : ∀ x, t.LiveIndex x → Counted R c x (u.entryUses x + t.groupUses x)) :
    RefInv R { t with matchUnit := u, indexRefCount := c } :=
  ⟨hsize ▸ h.size_lt, hwf, h.mbr_bound, h.grp_bound, h.mbr_lt, h.grp_lt, hent, h.group_live,
    hcount⟩

theorem addIndexed (h : RefInv R t) (hR : CountRel R) {x : IndirectIndex} (hx : t.LiveIndex x)
    (hwrap : ∀ n, t.indexRefCount.get x = some n → n + 1 < 2 ^ 32) {now : ℕ}
    {params : List MatchKeyParam} {priority : ℤ} {r : Result ℕ} {t₁ : MatchTableIndirect K S}
    (hs : t.addIndexed L now params x priority = some (r, t₁))
    (hfail : ∀ e, r = .error e → ∀ {a b}, R a b → R a (b + 1)) :
    RefInv R { t with toMatchTableIndirect := t₁ } := by
  obtain ⟨c, u, hc, hu, rfl⟩ := MatchTableIndirect.addIndexed_cases hs
  rcases MatchUnit.addEntry_cases h.wf hu with ⟨e, rfl, rfl, -⟩ |
    ⟨key, old, ls, m, -, -, -, -, hlt, hold, -, -, -, rfl⟩
  · refine h.withUnit rfl h.wf h.entry_live fun y hy => ?_
    exact (h.counts y hy).leak (hfail e rfl) (h.proper hx) (h.proper hy) hwrap hc
  · have hfree := t.matchUnit.handles.firstEmpty_notMem
    have hlen := (List.getElem?_eq_some_iff.mp hold).1
    refine h.withUnit rfl (h.wf.installed hlt hfree ?_) ?_ ?_
    · rw [MatchKey.version_setVersion]
      exact h.wf.version_lt old (List.mem_of_getElem? hold)
    · intro i hi y hy
      rw [MatchUnit.holds_set hlen rfl] at hy
      by_cases hii : i = t.matchUnit.handles.firstEmpty
      · rw [if_pos hii] at hy
        exact hy ▸ hx
      · rw [if_neg hii] at hy
        exact h.entry_live i ((Finset.mem_insert.mp hi).resolve_left hii) y hy
    · intro y hy
      have := (h.counts y hy).increase hR (h.proper hx) (h.proper hy) hwrap hc
      rw [uses] at this
      rw [MatchUnit.entryUses_installed hlen hfree, add_right_comm]
      exact this

theorem deleteEntry (h : RefInv R t) (hR : CountRel R) {handle : ℕ} {r : Result Unit}
    {t₁ : MatchTableIndirect K S} (hs : t.deleteEntry L handle = some (r, t₁)) :
    RefInv R { t with toMatchTableIndirect := t₁ } := by
  rcases MatchTableIndirect.deleteEntry_cases hs with ⟨_, -, rfl, -⟩ |
    ⟨e, c, ls, hc, hdec, -, -, rfl⟩
  · exact h
  obtain ⟨hmem, hent, -⟩ := MatchUnit.checkHandle_ok_iff.mp hc
  have hlen := (List.getElem?_eq_some_iff.mp hent).1
  have hlive : t.LiveIndex e.value := h.entry_live _ hmem _ (by simp [MatchUnit.Holds, hent])
  refine h.withUnit rfl (h.wf.removed hmem) ?_ ?_
  · intro i hi y hy
    obtain ⟨hne, hi⟩ := Finset.mem_erase.mp hi
    rw [MatchUnit.holds_set hlen rfl, if_neg hne] at hy
    exact h.entry_live i hi y hy
  · intro y hy
    refine (h.counts y hy).decrease hR (h.proper hlive) (h.proper hy) hdec ?_
    rw [add_right_comm, MatchUnit.entryUses_removed hmem hent]
    rfl

/-- A modification that passes its check moves one use; one that fails its check must not
have released anything, which is so when the handle is refused. -/
theorem modifyIndexed (h : RefInv R t) (hR : CountRel R) {check : Option (Result Unit)}
    {new : Option IndirectIndex} {handle : ℕ} {r : Result Unit} {t₁ : MatchTableIndirect K S}
    (hs : t.modifyIndexed handle check new = some (r, t₁))
    (hcheck : ∀ e, t.matchUnit.checkHandle handle = some (.ok e) → ∀ code,
      check ≠ some (.error code))
    (hnew : check = some (.ok ()) → ∀ x, new = some x → t.LiveIndex x)
    (hwrap : ∀ e x c n, t.matchUnit.checkHandle handle = some (.ok e) → new = some x →
      t.indexRefCount.decrease e.value = some c → c.get x = some n → n + 1 < 2 ^ 32) :
    RefInv R { t with toMatchTableIndirect := t₁ } := by
  rcases MatchTableIndirect.modifyIndexed_cases hs with ⟨_, -, rfl, -⟩ |
    ⟨e, c, code, hc, hcode, -⟩ | ⟨e, x, c, c', hc, hok, hx, hdec, hinc, -, rfl⟩
  · exact h
  · exact absurd hcode (hcheck e hc code)
  obtain ⟨hmem, hent, -⟩ := MatchUnit.checkHandle_ok_iff.mp hc
  have hlen := (List.getElem?_eq_some_iff.mp hent).1
  have hlive : t.LiveIndex e.value := h.entry_live _ hmem _ (by simp [MatchUnit.Holds, hent])
  have hxlive := hnew hok x hx
  refine h.withUnit rfl (h.wf.rewritten (h.wf.version_lt e (List.mem_of_getElem? hent))) ?_ ?_
  · intro i hi y hy
    rw [MatchUnit.holds_set hlen rfl] at hy
    by_cases hii : i = handleInternal handle
    · rw [if_pos hii] at hy
      exact hy ▸ hxlive
    · rw [if_neg hii] at hy
      exact h.entry_live i hi y hy
  · intro y hy
    have huse := MatchUnit.entryUses_rewritten (e := { e with value := x }) hmem hent y
    have hpos : (if e.value = y then 1 else 0) ≤ t.matchUnit.entryUses y := by
      split_ifs with hey
      · exact refs_pos hmem (by simp [MatchUnit.Holds, hent, hey])
      · exact Nat.zero_le _
    have hrel := (h.counts y hy).decrease hR (h.proper hlive) (h.proper hy) hdec
      (b := t.uses y - if e.value = y then 1 else 0) (by rw [uses]; omega)
    have := hrel.increase hR (h.proper hxlive) (h.proper hy)
      (fun n => hwrap e x c n hc hx hdec) hinc
    convert this using 1
    rw [uses]
    simp only at huse
    omega

/-- Nothing refers to a member that is not live. -/
theorem uses_mbr_eq_zero (h : RefInv R t) {m : ℕ} (hm : m < 2 ^ 24)
    (hfree : m ∉ t.mbrHandles.handles) : t.uses (mbrIndex m) = 0 := by
  have h1 : t.matchUnit.entryUses (mbrIndex m) = 0 := refs_eq_zero.mpr fun i hi hx =>
    hfree ((live_mbr hm).mp (h.entry_live i hi _ hx))
  have h2 : t.groupUses (mbrIndex m) = 0 := refs_eq_zero.mpr fun g hg hx => by
    rw [get_mbrIndex hm] at hx
    exact hfree (h.group_live g hg m hx.2)
  rw [uses, h1, h2]

theorem uses_grp_eq_zero (h : RefInv R t) {g : ℕ} (hfree : g ∉ t.grpHandles.handles) :
    t.uses (grpIndex g) = 0 := by
  have h1 : t.matchUnit.entryUses (grpIndex g) = 0 := refs_eq_zero.mpr fun i hi hx =>
    hfree (h.live_grp.mp (h.entry_live i hi _ hx))
  have h2 : t.groupUses (grpIndex g) = 0 := refs_eq_zero.mpr fun g' _ hx => by simp at hx
  rw [uses, h1, h2]

theorem addMember (h : RefInv R t) (hR : CountRel R) {actionFn : ℕ} {actionData : List ℤ}
    {r : Result ℕ} {t₁ : MatchTableIndirect K S}
    (hs : t.addMember actionFn actionData = some (r, t₁)) :
    RefInv R { t with toMatchTableIndirect := t₁ } := by
  rcases MatchTableIndirect.addMember_cases hs with ⟨_, -, rfl⟩ |
    ⟨entry, x, c, hle, hx, hc, -, rfl⟩
  · exact h
  set m := t.mbrHandles.firstEmpty
  have hbound := h.mbr_bound
  obtain ⟨hm, rfl⟩ := makeMbrIndex_eq (by omega) hx
  have hfree : m ∉ t.mbrHandles.handles := t.mbrHandles.firstEmpty_notMem
  have hlen := length_pushOrSet (a := entry) hle
  refine ⟨h.size_lt, h.wf, ?_, h.grp_bound, ?_, h.grp_lt, ?_, ?_, ?_⟩
  · rw [hlen]
    omega
  · intro m' hm'
    rw [hlen]
    rcases Finset.mem_insert.mp hm' with rfl | hm'
    · omega
    · have := h.mbr_lt m' hm'
      omega
  · intro i hi y hy
    rcases h.entry_live i hi y hy with ⟨m', hm', rfl⟩ | hg
    · exact .inl ⟨m', Finset.mem_insert_of_mem hm', rfl⟩
    · exact .inr hg
  · intro g hg m' hm'
    exact Finset.mem_insert_of_mem (h.group_live g hg m' hm')
  · intro y hy
    have hlive : y ≠ mbrIndex m → t.LiveIndex y := by
      intro hne
      rcases hy with ⟨m', hm', rfl⟩ | hg
      · rcases Finset.mem_insert.mp hm' with rfl | hm'
        · exact absurd rfl hne
        · exact .inl ⟨m', hm', rfl⟩
      · exact .inr hg
    have hproper : y.Proper := by
      by_cases hym : y = mbrIndex m
      · exact hym ▸ mbrIndex_proper hm
      · exact h.proper (hlive hym)
    refine Counted.set (fun hne => h.counts y (hlive hne)) ?_ (mbrIndex_proper hm) hproper hc
    rintro rfl
    have huses : t.uses (mbrIndex m) = 0 := h.uses_mbr_eq_zero hm hfree
    exact huses ▸ hR.zero

/-- A member without a counted use has no use, so it can go. -/
theorem deleteMember (h : RefInv R t) (hR : CountRel R) {mbr : ℕ} {r : Result Unit}
    {t₁ : MatchTableIndirect K S} (hs : t.deleteMember mbr = some (r, t₁)) :
    RefInv R { t with toMatchTableIndirect := t₁ } := by
  rcases MatchTableIndirect.deleteMember_cases hs with ⟨_, -, rfl⟩ | ⟨x, hmem, hx, hget, -, rfl⟩
  · exact h
  have hm := h.mbr_lt' hmem
  obtain ⟨-, rfl⟩ := makeMbrIndex_eq (by omega) hx
  obtain ⟨n, -, hn, hrel⟩ := h.counts _ ((live_mbr hm).mpr hmem)
  obtain rfl : n = 0 := by simpa [hget] using hn.symm
  have huses := hR.eq_zero hrel
  rw [uses] at huses
  refine ⟨h.size_lt, h.wf, h.mbr_bound, h.grp_bound, ?_, h.grp_lt, ?_, ?_, ?_⟩
  · intro m' hm'
    exact h.mbr_lt m' (Finset.mem_of_mem_erase hm')
  · intro i hi y hy
    rcases h.entry_live i hi y hy with ⟨m', hm', rfl⟩ | hg
    · refine .inl ⟨m', Finset.mem_erase.mpr ⟨?_, hm'⟩, rfl⟩
      rintro rfl
      exact refs_eq_zero.mp (show t.matchUnit.entryUses (mbrIndex m') = 0 by omega) i hi hy
    · exact .inr hg
  · intro g hg m' hm'
    refine Finset.mem_erase.mpr ⟨?_, h.group_live g hg m' hm'⟩
    rintro rfl
    refine refs_eq_zero.mp (show t.groupUses (mbrIndex m') = 0 by omega) g hg ?_
    rw [isMbr_mbrIndex hm, get_mbrIndex hm]
    exact ⟨rfl, hm'⟩
  · intro y hy
    refine h.counts y ?_
    rcases hy with ⟨m', hm', rfl⟩ | hg
    · exact .inl ⟨m', Finset.mem_of_mem_erase hm', rfl⟩
    · exact .inr hg

theorem modifyMember (h : RefInv R t) {mbr actionFn : ℕ} {actionData : List ℤ} {r : Result Unit}
    {t₁ : MatchTableIndirect K S} (hs : t.modifyMember mbr actionFn actionData = some (r, t₁)) :
    RefInv R { t with toMatchTableIndirect := t₁ } := by
  rcases MatchTableIndirect.modifyMember_cases hs with ⟨_, -, rfl⟩ | ⟨entry, -, rfl⟩
  · exact h
  · refine ⟨h.size_lt, h.wf, ?_, h.grp_bound, ?_, h.grp_lt, h.entry_live, h.group_live, h.counts⟩
    · simpa using h.mbr_bound
    · simpa using h.mbr_lt

/-- A change of the members of one live group, with the counts. -/
theorem withGroup (h : RefInv R t) {g : ℕ} (hg : g ∈ t.grpHandles.handles) {mbrs : Finset ℕ}
    {c : IndirectIndexRefCount} (hmbrs : ∀ m ∈ mbrs, m ∈ t.mbrHandles.handles)
    (hcount : ∀ x, t.LiveIndex x → ∀ b, b + (if x.isMbr = true ∧ x.get ∈ t.group g then 1 else 0) =
      t.uses x + (if x.isMbr = true ∧ x.get ∈ mbrs then 1 else 0) → Counted R c x b) :
    RefInv R { t with indexRefCount := c, groupEntries := t.groupEntries.set g ⟨mbrs⟩ } := by
  have hlt := h.grp_lt g hg
  have hgroup : ∀ g', ({ t with indexRefCount := c, groupEntries := t.groupEntries.set g ⟨mbrs⟩ } :
      MatchTableIndirectWS K S).group g' = if g' = g then mbrs else t.group g' :=
    fun g' => group_set g' hlt
  refine ⟨h.size_lt, h.wf, h.mbr_bound, by simpa using h.grp_bound, h.mbr_lt,
    by simpa using h.grp_lt,
    h.entry_live, ?_, ?_⟩
  · intro g' hg' m hm
    rw [hgroup] at hm
    split_ifs at hm with hgg
    · exact hmbrs m hm
    · exact h.group_live g' hg' m hm
  · intro x hx
    refine hcount x hx _ ?_
    have := refs_update (P := fun g => x.isMbr = true ∧ x.get ∈ t.group g)
      (Q := fun g' => x.isMbr = true ∧ x.get ∈ ({ t with
        indexRefCount := c, groupEntries := t.groupEntries.set g ⟨mbrs⟩ } :
        MatchTableIndirectWS K S).group g') hg fun g' _ hne => by rw [hgroup, if_neg hne]
    rw [hgroup, if_pos rfl] at this
    rw [uses, uses, add_assoc, add_assoc]
    exact congrArg _ this

theorem addMemberToGroup (h : RefInv R t) (hR : CountRel R) {mbr grp : ℕ} {r : Result Unit}
    (hs : t.addMemberToGroup mbr grp = some (r, t'))
    (hwrap : mbr ∈ t.mbrHandles.handles →
      ∀ n, t.indexRefCount.get (mbrIndex mbr) = some n → n + 1 < 2 ^ 32) : RefInv R t' := by
  rcases addMemberToGroup_cases hs with ⟨_, -, rfl⟩ |
    ⟨x, g, c, hm, hg, hget, hin, hx, hc, -, rfl⟩
  · exact h
  have hlt := h.mbr_lt' hm
  obtain ⟨-, rfl⟩ := makeMbrIndex_eq (by omega) hx
  have hgrp : t.group grp = g.mbrs := by simp [group, hget]
  refine h.withGroup hg ?_ fun y hy b hb => ?_
  · intro m hmem
    rcases Finset.mem_insert.mp hmem with rfl | hmem
    · exact hm
    · exact h.group_live grp hg m (hgrp ▸ hmem)
  · have := (h.counts y hy).increase hR (mbrIndex_proper hlt) (h.proper hy) (hwrap hm) hc
    convert this using 1
    rw [hgrp] at hb
    by_cases hym : mbrIndex mbr = y
    · obtain ⟨h1, h2⟩ := (isMbr_and_get_eq hlt (h.proper hy)).mpr hym
      simpa [h1, h2, hin, hym] using hb
    · have hne := mt (isMbr_and_get_eq hlt (h.proper hy)).mp hym
      have hiff : (y.isMbr = true ∧ y.get ∈ insert mbr g.mbrs) ↔
          (y.isMbr = true ∧ y.get ∈ g.mbrs) := by
        rw [Finset.mem_insert]
        tauto
      simp only [hiff, hym, ↓reduceIte, add_zero] at hb ⊢
      omega

theorem removeMemberFromGroup (h : RefInv R t) (hR : CountRel R) {mbr grp : ℕ} {r : Result Unit}
    (hs : t.removeMemberFromGroup mbr grp = some (r, t')) : RefInv R t' := by
  rcases removeMemberFromGroup_cases hs with ⟨_, -, rfl⟩ |
    ⟨x, g, c, hm, hg, hget, hin, hx, hc, -, rfl⟩
  · exact h
  have hlt := h.mbr_lt' hm
  obtain ⟨-, rfl⟩ := makeMbrIndex_eq (by omega) hx
  have hgrp : t.group grp = g.mbrs := by simp [group, hget]
  refine h.withGroup hg ?_ fun y hy b hb => ?_
  · intro m hmem
    exact h.group_live grp hg m (hgrp ▸ Finset.mem_of_mem_erase hmem)
  · refine (h.counts y hy).decrease hR (mbrIndex_proper hlt) (h.proper hy) hc ?_
    rw [hgrp] at hb
    by_cases hym : mbrIndex mbr = y
    · obtain ⟨h1, h2⟩ := (isMbr_and_get_eq hlt (h.proper hy)).mpr hym
      simpa [h1, h2, hin, hym] using hb
    · have hne := mt (isMbr_and_get_eq hlt (h.proper hy)).mp hym
      have hiff : (y.isMbr = true ∧ y.get ∈ g.mbrs.erase mbr) ↔
          (y.isMbr = true ∧ y.get ∈ g.mbrs) := by
        rw [Finset.mem_erase]
        tauto
      simp only [hiff, hym, ↓reduceIte, add_zero] at hb ⊢
      omega

theorem createGroup (h : RefInv R t) (hR : CountRel R) {r : Result ℕ}
    (hs : t.createGroup = some (r, t')) : RefInv R t' := by
  rcases createGroup_cases hs with ⟨_, -, rfl⟩ | ⟨x, c, hle, hx, hc, -, rfl⟩
  · exact h
  set g := t.grpHandles.firstEmpty
  have hbound := h.grp_bound
  obtain ⟨hg, rfl⟩ := makeGrpIndex_eq (by omega) hx
  have hfree : g ∉ t.grpHandles.handles := t.grpHandles.firstEmpty_notMem
  have hlen := length_pushOrSet (a := ({} : GroupInfo)) hle
  have hgroup : ∀ g', ((pushOrSet t.groupEntries g {}).getD g' {}).mbrs =
      if g' = g then ∅ else t.group g' := by
    intro g'
    by_cases hgg : g' = g
    · rw [if_pos hgg, hgg, List.getD_eq_getElem?_getD, getElem?_pushOrSet hle]
      rfl
    · rw [if_neg hgg, List.getD_eq_getElem?_getD, getElem?_pushOrSet_ne hgg, group,
        List.getD_eq_getElem?_getD]
  refine ⟨h.size_lt, h.wf, h.mbr_bound, ?_, h.mbr_lt, ?_, ?_, ?_, ?_⟩
  · rw [hlen]
    omega
  · intro g' hg'
    rw [hlen]
    rcases Finset.mem_insert.mp hg' with rfl | hg'
    · omega
    · have := h.grp_lt g' hg'
      omega
  · intro i hi y hy
    rcases h.entry_live i hi y hy with hm | ⟨g', hg', rfl⟩
    · exact .inl hm
    · exact .inr ⟨g', Finset.mem_insert_of_mem hg', rfl⟩
  · intro g' hg' m hm
    rw [group, hgroup] at hm
    split_ifs at hm with hgg
    · simp at hm
    · exact h.group_live g' ((Finset.mem_insert.mp hg').resolve_left hgg) m hm
  · intro y hy
    have hlive : y ≠ grpIndex g → t.LiveIndex y := by
      intro hne
      rcases hy with hm | ⟨g', hg', rfl⟩
      · exact .inl hm
      · rcases Finset.mem_insert.mp hg' with rfl | hg'
        · exact absurd rfl hne
        · exact .inr ⟨g', hg', rfl⟩
    have hproper : y.Proper := by
      by_cases hyg : y = grpIndex g
      · exact hyg ▸ grpIndex_proper hg
      · exact h.proper (hlive hyg)
    -- the new group is empty, so it adds no use
    have huses : refs (insert g t.grpHandles.handles) (fun g' => y.isMbr = true ∧
        y.get ∈ ((pushOrSet t.groupEntries g {}).getD g' {}).mbrs) = t.groupUses y := by
      rw [refs_insert (P := fun g' => y.isMbr = true ∧ y.get ∈ t.group g') hfree fun g' hg' => by
        rw [hgroup, if_neg (ne_of_mem_of_not_mem hg' hfree)]]
      rw [hgroup, if_pos rfl]
      simp [groupUses]
    refine Counted.set (fun hne => ?_) ?_ (grpIndex_proper hg) hproper hc
    · have := h.counts y (hlive hne)
      rw [uses, ← huses] at this
      exact this
    · rintro rfl
      have hzero : t.uses (grpIndex g) = 0 := h.uses_grp_eq_zero hfree
      rw [uses, ← huses] at hzero
      exact hzero ▸ hR.zero

theorem deleteGroup (h : RefInv R t) (hR : CountRel R) {grp : ℕ} {r : Result Unit}
    (hs : t.deleteGroup grp = some (r, t')) : RefInv R t' := by
  rcases deleteGroup_cases hs with ⟨_, -, rfl⟩ | ⟨x, g, c, hmem, hx, hget, hent, hc, -, rfl⟩
  · exact h
  have hg := h.grp_lt' hmem
  obtain ⟨-, rfl⟩ := makeGrpIndex_eq (by omega) hx
  obtain ⟨n, -, hn, hrel⟩ := h.counts _ (h.live_grp.mpr hmem)
  obtain rfl : n = 0 := by simpa [hget] using hn.symm
  have huses := hR.eq_zero hrel
  rw [uses] at huses
  have hgrp : t.group grp = g.mbrs := by simp [group, hent]
  refine ⟨h.size_lt, h.wf, h.mbr_bound, h.grp_bound, h.mbr_lt, ?_, ?_, ?_, ?_⟩
  · intro g' hg'
    exact h.grp_lt g' (Finset.mem_of_mem_erase hg')
  · intro i hi y hy
    rcases h.entry_live i hi y hy with hm | ⟨g', hg', rfl⟩
    · exact .inl hm
    · refine .inr ⟨g', Finset.mem_erase.mpr ⟨?_, hg'⟩, rfl⟩
      rintro rfl
      exact refs_eq_zero.mp (show t.matchUnit.entryUses (grpIndex g') = 0 by omega) i hi hy
  · intro g' hg' m hm
    exact h.group_live g' (Finset.mem_of_mem_erase hg') m hm
  · intro y hy
    have hlive : t.LiveIndex y := by
      rcases hy with hm | ⟨g', hg', rfl⟩
      · exact .inl hm
      · exact .inr ⟨g', Finset.mem_of_mem_erase hg', rfl⟩
    have hnodup : g.toList.Nodup := Finset.sort_nodup _ _
    refine (h.counts y hlive).releaseAll hR (h.proper hlive) hnodup ?_ hc ?_
    · intro m hm
      refine h.mbr_lt' (h.group_live grp hmem m ?_)
      rw [hgrp]
      exact (Finset.mem_sort _).mp hm
    · have := refs_erase (P := fun g => y.isMbr = true ∧ y.get ∈ t.group g)
        (Q := fun g => y.isMbr = true ∧ y.get ∈ t.group g) hmem fun _ _ _ => Iff.rfl
      rw [hgrp] at this
      have hlist : (y.isMbr = true ∧ y.get ∈ g.toList) ↔ (y.isMbr = true ∧ y.get ∈ g.mbrs) := by
        rw [GroupInfo.toList, Finset.mem_sort]
      simp only [hlist]
      rw [uses, uses, add_assoc]
      exact congrArg _ this

end RefInv

end MatchTableIndirectWS

end Bmv2
