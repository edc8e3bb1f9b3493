import Bmv2.Match.Sound
import Bmv2.Tables.RefCount

/-! Lookup safety of indirect tables: whatever index a packet leads to stands for a live
member or for a live group that is not empty. -/
namespace Bmv2
open ByteBits References IndirectIndex

namespace MatchTableIndirectWS

variable {K S : Type} [MatchKey K] {L : LookupStructure K S} {C : SoundLookup L}
variable {t t' : MatchTableIndirectWS K S}

/-- An index that a lookup can follow. -/
def Usable (t : MatchTableIndirectWS K S) (x : IndirectIndex) : Prop :=
  t.LiveIndex x ∧ ∀ g, x = grpIndex g → (t.group g).Nonempty

/-- An index that some entry or the default of the table leads to. -/
def Used (t : MatchTableIndirectWS K S) (x : IndirectIndex) : Prop :=
  t.matchUnit.entryUses x ≠ 0 ∨ (t.defaultSet = true ∧ t.defaultIndex = x)

instance (x : IndirectIndex) : Decidable (t.Used x) := inferInstanceAs (Decidable (_ ∨ _))

/-- No call takes the target away from the default of the table or empties a group that is
in use: neither is counted. -/
def KeepsTargets (t : MatchTableIndirectWS K S) : Op → Prop
  | .indirect (.deleteMember mbr) =>
    t.indexRefCount.get (mbrIndex mbr) = some 0 →
      ¬ (t.defaultSet = true ∧ t.defaultIndex = mbrIndex mbr)
  | .deleteGroup grp =>
    t.indexRefCount.get (grpIndex grp) = some 0 →
      ¬ (t.defaultSet = true ∧ t.defaultIndex = grpIndex grp)
  | .removeMemberFromGroup mbr grp => t.group grp = {mbr} → ¬ t.Used (grpIndex grp)
  | .setDefaultGroup grp => grp ∈ t.grpHandles.handles → (t.group grp).Nonempty
  | _ => True

instance (op : Op) : Decidable (t.KeepsTargets op) := by
  unfold KeepsTargets
  split <;> infer_instance

/-- Counts are at least the uses, and every index in use can be followed. -/
structure SafeInv (C : SoundLookup L) (t : MatchTableIndirectWS K S) : Prop where
  refs : RefInv (· ≤ ·) t
  sound : t.matchUnit.SoundInv C
  usable : ∀ x, t.Used x → t.Usable x

omit [MatchKey K] in
theorem usable_mbrIndex {m : ℕ} (hlt : m < 2 ^ 24) (hm : m ∈ t.mbrHandles.handles) :
    t.Usable (mbrIndex m) :=
  ⟨.inl ⟨m, hm, rfl⟩, fun g hg => absurd hg (mbrIndex_ne_grpIndex hlt g)⟩

omit [MatchKey K] in
theorem usable_grpIndex {g : ℕ} (hg : g ∈ t.grpHandles.handles) (hne : (t.group g).Nonempty) :
    t.Usable (grpIndex g) :=
  ⟨.inr ⟨g, hg, rfl⟩, fun _ he => grpIndex_injective he ▸ hne⟩

omit [MatchKey K] in
theorem used_of_holds {i : ℕ} {x : IndirectIndex} (hi : i ∈ t.matchUnit.handles.handles)
    (hx : t.matchUnit.Holds x i) : t.Used x :=
  .inl (refs_pos hi hx).ne'

namespace SafeInv

/-- A table without entries and default leads nowhere. -/
theorem empty (href : RefInv (· ≤ ·) t) (hsound : t.matchUnit.SoundInv C)
    (hunit : t.matchUnit.handles.handles = ∅) (hset : t.defaultSet = false) : SafeInv C t := by
  refine ⟨href, hsound, fun x hx => ?_⟩
  rcases hx with hx | ⟨hx, -⟩
  · refine absurd (refs_eq_zero.mpr fun i hi => ?_) hx
    rw [hunit] at hi
    exact absurd hi (Finset.notMem_empty i)
  · rw [hset] at hx
    exact absurd hx Bool.false_ne_true

theorem create (base : MatchTableAbstract) {size : ℕ} (hsize : size < 2 ^ 31) (kb : MatchKeyBuilder)
    {ls : S} (hinv : C.Inv ls) (hempty : ∀ x i, ¬ C.stored ls x i) :
    SafeInv C (MatchTableIndirectWS.create base size kb ls) :=
  empty (.create base hsize kb ls) (.create hinv hempty) rfl rfl

/-- A change of the entries alone. -/
theorem withUnit (h : SafeInv C t) {u : MatchUnit K IndirectIndex S} {c : IndirectIndexRefCount}
    (href : RefInv (· ≤ ·) { t with matchUnit := u, indexRefCount := c }) (hsound : u.SoundInv C)
    (huse : ∀ i ∈ u.handles.handles, ∀ x, u.Holds x i → t.Usable x) :
    SafeInv C { t with matchUnit := u, indexRefCount := c } := by
  refine ⟨href, hsound, fun x hx => ?_⟩
  rcases hx with hx | hx
  · obtain ⟨i, hi⟩ := Finset.card_ne_zero.mp hx
    obtain ⟨hi, hholds⟩ := Finset.mem_filter.mp hi
    exact huse i hi x hholds
  · exact h.usable x (.inr hx)

theorem addIndexed (h : SafeInv C t) {x : IndirectIndex} (hx : t.Usable x) {now : ℕ}
    {params : List MatchKeyParam} {priority : ℤ} {r : Result ℕ} {t₁ : MatchTableIndirect K S}
    (hs : t.addIndexed L now params x priority = some (r, t₁))
    (href : RefInv (· ≤ ·) { t with toMatchTableIndirect := t₁ }) :
    SafeInv C { t with toMatchTableIndirect := t₁ } := by
  obtain ⟨c, u, -, hu, rfl⟩ := MatchTableIndirect.addIndexed_cases hs
  refine h.withUnit href (h.sound.addEntry h.refs.wf hu) fun i hi y hy => ?_
  rcases MatchUnit.addEntry_cases h.refs.wf hu with ⟨e, -, rfl, -⟩ |
    ⟨key, old, ls, m, -, -, -, -, -, hold, -, -, -, rfl⟩
  · exact h.usable y (used_of_holds hi hy)
  · rw [MatchUnit.holds_set (List.getElem?_eq_some_iff.mp hold).1 rfl] at hy
    by_cases hii : i = t.matchUnit.handles.firstEmpty
    · rw [if_pos hii] at hy
      exact hy ▸ hx
    · rw [if_neg hii] at hy
      exact h.usable y (used_of_holds ((Finset.mem_insert.mp hi).resolve_left hii) hy)

theorem deleteEntry (h : SafeInv C t) {handle : ℕ} {r : Result Unit}
    {t₁ : MatchTableIndirect K S} (hs : t.deleteEntry L handle = some (r, t₁))
    (href : RefInv (· ≤ ·) { t with toMatchTableIndirect := t₁ }) :
    SafeInv C { t with toMatchTableIndirect := t₁ } := by
  rcases MatchTableIndirect.deleteEntry_cases hs with ⟨_, -, rfl, -⟩ |
    ⟨e, c, ls, hc, -, hls, -, rfl⟩
  · exact h
  obtain ⟨hmem, hent, -⟩ := MatchUnit.checkHandle_ok_iff.mp hc
  refine h.withUnit href (h.sound.removed ⟨hmem, hent⟩ hls) fun i hi y hy => ?_
  obtain ⟨hne, hi⟩ := Finset.mem_erase.mp hi
  rw [MatchUnit.holds_set (List.getElem?_eq_some_iff.mp hent).1 rfl, if_neg hne] at hy
  exact h.usable y (used_of_holds hi hy)

theorem modifyIndexed (h : SafeInv C t) {check : Option (Result Unit)}
    {new : Option IndirectIndex} {handle : ℕ} {r : Result Unit} {t₁ : MatchTableIndirect K S}
    (hs : t.modifyIndexed handle check new = some (r, t₁))
    (hnew : check = some (.ok ()) → ∀ x, new = some x → t.Usable x)
    (href : RefInv (· ≤ ·) { t with toMatchTableIndirect := t₁ }) :
    SafeInv C { t with toMatchTableIndirect := t₁ } := by
  rcases MatchTableIndirect.modifyIndexed_cases hs with ⟨_, -, rfl, -⟩ |
    ⟨e, c, code, -, -, -, -, rfl⟩ | ⟨e, x, c, c', hc, hok, hx, -, -, -, rfl⟩
  · exact h
  · exact h.withUnit href h.sound fun i hi y hy => h.usable y (used_of_holds hi hy)
  obtain ⟨hmem, hent, -⟩ := MatchUnit.checkHandle_ok_iff.mp hc
  refine h.withUnit href (h.sound.rewritten ⟨hmem, hent⟩ x) fun i hi y hy => ?_
  rw [MatchUnit.holds_set (List.getElem?_eq_some_iff.mp hent).1 rfl] at hy
  by_cases hii : i = handleInternal handle
  · rw [if_pos hii] at hy
    exact hy ▸ hnew hok x hx
  · rw [if_neg hii] at hy
    exact h.usable y (used_of_holds hi hy)

/-- A change of the members and groups alone: the target of the default must stay live, and
no group in use may become empty. -/
theorem withTargets (h : SafeInv C t) (href : RefInv (· ≤ ·) t')
    (hunit : t'.matchUnit = t.matchUnit) (hset : t'.defaultSet = t.defaultSet)
    (hindex : t'.defaultIndex = t.defaultIndex)
    (hlive : t.defaultSet = true → t.LiveIndex t.defaultIndex → t'.LiveIndex t.defaultIndex)
    (hgroup : ∀ g ∈ t.grpHandles.handles, t.Used (grpIndex g) → (t.group g).Nonempty →
      (t'.group g).Nonempty) : SafeInv C t' := by
  refine ⟨href, hunit ▸ h.sound, fun x hx => ?_⟩
  have hused : t.Used x := by rwa [Used, hunit, hset, hindex] at hx
  refine ⟨?_, ?_⟩
  · rcases hx with hx | ⟨h1, h2⟩
    · obtain ⟨i, hi⟩ := Finset.card_ne_zero.mp hx
      obtain ⟨hi, hholds⟩ := Finset.mem_filter.mp hi
      exact href.entry_live i hi x hholds
    · rw [hset] at h1
      rw [hindex] at h2
      subst h2
      exact hlive h1 (h.usable _ hused).1
  · rintro g rfl
    obtain ⟨hl, hne⟩ := h.usable _ hused
    exact hgroup g (h.refs.live_grp.mp hl) hused (hne g rfl)

theorem deleteMember (h : SafeInv C t) {mbr : ℕ} {r : Result Unit} {t₁ : MatchTableIndirect K S}
    (hs : t.deleteMember mbr = some (r, t₁))
    (hkeep : t.KeepsTargets (.indirect (.deleteMember mbr)))
    (href : RefInv (· ≤ ·) { t with toMatchTableIndirect := t₁ }) :
    SafeInv C { t with toMatchTableIndirect := t₁ } := by
  rcases MatchTableIndirect.deleteMember_cases hs with ⟨_, -, rfl⟩ | ⟨x, hmem, hx, hget, -, rfl⟩
  · exact h
  have hlt := h.refs.mbr_lt' hmem
  obtain ⟨-, rfl⟩ := makeMbrIndex_eq (by omega) hx
  refine h.withTargets href rfl rfl rfl (fun hset hl => ?_) fun _ _ _ hne => hne
  rcases hl with ⟨m, hm, he⟩ | hg
  · refine .inl ⟨m, Finset.mem_erase.mpr ⟨?_, hm⟩, he⟩
    rintro rfl
    exact hkeep hget ⟨hset, he⟩
  · exact .inr hg

theorem createGroup (h : SafeInv C t) {r : Result ℕ} (hs : t.createGroup = some (r, t'))
    (href : RefInv (· ≤ ·) t') : SafeInv C t' := by
  rcases createGroup_cases hs with ⟨_, -, rfl⟩ | ⟨x, c, -, -, -, -, rfl⟩
  · exact h
  refine h.withTargets href rfl rfl rfl (fun _ hl => ?_) fun g hg _ hne => ?_
  · rcases hl with hm | ⟨g, hg, he⟩
    · exact .inl hm
    · exact .inr ⟨g, Finset.mem_insert_of_mem hg, he⟩
  · have hfree := t.grpHandles.firstEmpty_notMem
    rw [group, List.getD_eq_getElem?_getD,
      getElem?_pushOrSet_ne (ne_of_mem_of_not_mem hg hfree), ← List.getD_eq_getElem?_getD]
    exact hne

theorem deleteGroup (h : SafeInv C t) {grp : ℕ} {r : Result Unit}
    (hs : t.deleteGroup grp = some (r, t')) (hkeep : t.KeepsTargets (.deleteGroup grp))
    (href : RefInv (· ≤ ·) t') : SafeInv C t' := by
  rcases deleteGroup_cases hs with ⟨_, -, rfl⟩ | ⟨x, g, c, hmem, hx, hget, -, -, -, rfl⟩
  · exact h
  have hlt := h.refs.grp_lt' hmem
  obtain ⟨-, rfl⟩ := makeGrpIndex_eq (by omega) hx
  refine h.withTargets href rfl rfl rfl (fun hset hl => ?_) fun _ _ _ hne => hne
  rcases hl with hm | ⟨g', hg', he⟩
  · exact .inl hm
  · refine .inr ⟨g', Finset.mem_erase.mpr ⟨?_, hg'⟩, he⟩
    rintro rfl
    exact hkeep hget ⟨hset, he⟩

theorem addMemberToGroup (h : SafeInv C t) {mbr grp : ℕ} {r : Result Unit}
    (hs : t.addMemberToGroup mbr grp = some (r, t')) (href : RefInv (· ≤ ·) t') :
    SafeInv C t' := by
  rcases addMemberToGroup_cases hs with ⟨_, -, rfl⟩ | ⟨x, g, c, -, hg, -, -, -, -, -, rfl⟩
  · exact h
  refine h.withTargets href rfl rfl rfl (fun _ hl => hl) fun g' _ _ hne => ?_
  rw [group_set g' (h.refs.grp_lt grp hg)]
  split_ifs
  · exact Finset.insert_nonempty _ _
  · exact hne

theorem removeMemberFromGroup (h : SafeInv C t) {mbr grp : ℕ} {r : Result Unit}
    (hs : t.removeMemberFromGroup mbr grp = some (r, t'))
    (hkeep : t.KeepsTargets (.removeMemberFromGroup mbr grp)) (href : RefInv (· ≤ ·) t') :
    SafeInv C t' := by
  rcases removeMemberFromGroup_cases hs with ⟨_, -, rfl⟩ |
    ⟨x, g, c, -, hg, hget, hin, -, -, -, rfl⟩
  · exact h
  refine h.withTargets href rfl rfl rfl (fun _ hl => hl) fun g' _ hused hne => ?_
  rw [group_set g' (h.refs.grp_lt grp hg)]
  split_ifs with hgg
  · subst hgg
    have hgrp : t.group g' = g.mbrs := by simp [group, hget]
    rw [Finset.nonempty_iff_ne_empty]
    intro hempty
    refine hkeep ?_ hused
    rw [hgrp]
    exact (Finset.erase_eq_empty_iff _ _).mp hempty |>.resolve_left (Finset.ne_empty_of_mem hin)
  · exact hne

theorem stepIndirect (h : SafeInv C t) {op : MatchTableIndirect.Op} {r : Result TableReply}
    {t₁ : MatchTableIndirect K S} (hs : t.toMatchTableIndirect.step L op = some (r, t₁))
    (hkeep : t.KeepsTargets (.indirect op))
    (href : RefInv (· ≤ ·) { t with toMatchTableIndirect := t₁ }) :
    SafeInv C { t with toMatchTableIndirect := t₁ } := by
  cases MatchTableIndirect.steps_of_step hs with
  | addMember h' =>
    rcases MatchTableIndirect.addMember_cases h' with ⟨_, -, rfl⟩ | ⟨_, _, _, -, -, -, -, rfl⟩
    · exact h
    · refine h.withTargets href rfl rfl rfl (fun _ hl => ?_) fun _ _ _ hne => hne
      rcases hl with ⟨m, hm, he⟩ | hg
      · exact .inl ⟨m, Finset.mem_insert_of_mem hm, he⟩
      · exact .inr hg
  | deleteMember h' => exact h.deleteMember h' hkeep href
  | modifyMember h' =>
    rcases MatchTableIndirect.modifyMember_cases h' with ⟨_, -, rfl⟩ | ⟨_, -, rfl⟩
    · exact h
    · exact h.withTargets href rfl rfl rfl (fun _ hl => hl) fun _ _ _ hne => hne
  | addRefused | defaultRefused | getValue | getEntry | getMember => exact h
  | addEntry hm hx h' =>
    have hlt := h.refs.mbr_lt' hm
    obtain ⟨-, rfl⟩ := makeMbrIndex_eq (by omega) hx
    exact h.addIndexed (usable_mbrIndex hlt hm) h' href
  | deleteEntry h' => exact h.deleteEntry h' href
  | modifyEntry h' =>
    refine h.modifyIndexed h' (fun hok x hx => ?_) href
    have hm := MatchTableIndirect.checkMbr_ok_iff.mp (Option.some.inj hok)
    have hlt := h.refs.mbr_lt' hm
    obtain ⟨-, rfl⟩ := makeMbrIndex_eq (by omega) hx
    exact usable_mbrIndex hlt hm
  | setDefaultMember hm hx =>
    have hlt := h.refs.mbr_lt' hm
    obtain ⟨-, rfl⟩ := makeMbrIndex_eq (by omega) hx
    refine ⟨href, h.sound, fun y hy => ?_⟩
    rcases hy with hy | ⟨-, rfl⟩
    · exact h.usable y (.inl hy)
    · exact usable_mbrIndex hlt hm
  | base h' =>
    obtain ⟨_, _, -, rfl⟩ := MatchTableAbstract.step_cases h'
    exact h.withUnit href ⟨h.sound.inv, h.sound.ok, h.sound.stored⟩
      fun i hi y hy => h.usable y (used_of_holds hi hy)

/-- One call keeps every index in use one that can be followed. -/
theorem step (h : SafeInv C t) {op : Op} {r : Result TableReply}
    (hs : MatchTableIndirectWS.step L t op = some (r, t')) (hrel : t.Released op)
    (hwrap : t.NoWrap op) (hkeep : t.KeepsTargets op) : SafeInv C t' := by
  have href := h.refs.step countRel_le hs hrel (.inr fun hab => Nat.le_succ_of_le hab) hwrap
  cases steps_of_step hs with
  | indirect h' => exact h.stepIndirect h' hkeep href
  | createGroup h' => exact h.createGroup h' href
  | deleteGroup h' => exact h.deleteGroup h' hkeep href
  | addMemberToGroup h' => exact h.addMemberToGroup h' href
  | removeMemberFromGroup h' => exact h.removeMemberFromGroup h' hkeep href
  | addRefused | defaultRefused | getEntry | getGroup | getNumMembersInGroup => exact h
  | addEntryWs hcheck hx h₁ =>
    obtain ⟨hg, g, hget, hne⟩ := checkGrp_ok_iff.mp hcheck
    have hlt := h.refs.grp_lt' hg
    obtain ⟨-, rfl⟩ := makeGrpIndex_eq (by omega) hx
    exact h.addIndexed (usable_grpIndex hg (by simpa [group, hget] using hne)) h₁ href
  | modifyEntryWs h₁ =>
    refine h.modifyIndexed h₁ (fun hok x hx => ?_) href
    obtain ⟨hg, g, hget, hne⟩ := checkGrp_ok_iff.mp hok
    have hlt := h.refs.grp_lt' hg
    obtain ⟨-, rfl⟩ := makeGrpIndex_eq (by omega) hx
    exact usable_grpIndex hg (by simpa [group, hget] using hne)
  | setDefaultGroup hg hx =>
    have hlt := h.refs.grp_lt' hg
    obtain ⟨-, rfl⟩ := makeGrpIndex_eq (by omega) hx
    refine ⟨href, h.sound, fun y hy => ?_⟩
    rcases hy with hy | ⟨-, rfl⟩
    · exact h.usable y (.inl hy)
    · exact usable_grpIndex hg (hkeep hg)

/-- An index that can be followed leads to a live member, whatever the hash. -/
theorem resolve (h : SafeInv C t) {x : IndirectIndex} (hx : t.Usable x) (hash : Option ℕ) :
    ∃ mbr ∈ t.mbrHandles.handles, t.resolve x hash = some mbr := by
  rcases hx with ⟨⟨m, hm, rfl⟩ | ⟨g, hg, rfl⟩, hne⟩
  · have hlt := h.refs.mbr_lt' hm
    exact ⟨m, hm, by simp [MatchTableIndirectWS.resolve, getMbr, isMbr_mbrIndex hlt,
      get_mbrIndex hlt]⟩
  · have hlt := h.refs.grp_lt' hg
    obtain ⟨info, hget⟩ : ∃ info, t.groupEntries[g]? = some info :=
      ⟨_, List.getElem?_eq_getElem (h.refs.grp_lt g hg)⟩
    have hgrp : t.group g = info.mbrs := by simp [group, hget]
    have hsize : 0 < info.size := by
      have := hne g rfl
      rw [hgrp] at this
      exact Finset.card_pos.mpr this
    have hnth : ∀ n < info.size, ∃ mbr ∈ t.mbrHandles.handles, info.getNth n = some mbr := by
      intro n hn
      have hlen : n < info.toList.length := by
        rw [GroupInfo.toList, Finset.length_sort]
        exact hn
      refine ⟨_, h.refs.group_live g hg _ ?_, List.getElem?_eq_getElem hlen⟩
      rw [hgrp]
      exact (Finset.mem_sort _).mp (List.getElem_mem hlen)
    have hresolve : t.resolve (grpIndex g) hash = t.chooseFromGroup g hash := by
      simp [MatchTableIndirectWS.resolve, getGrp, isGrp_grpIndex hlt, get_grpIndex hlt, isValidGrp,
        HandleMgr.validHandle, hg]
    rw [hresolve, chooseFromGroup, hget]
    simp only [Option.bind_eq_bind, Option.bind_some, gt_iff_lt, hsize, ↓reduceIte]
    cases hash with
    | none => exact hnth 0 hsize
    | some n => exact hnth _ (Nat.mod_lt _ hsize)

/-- A lookup is a miss without a default, or returns the action of a live member. -/
theorem lookup (h : SafeInv C t) {key : List Byte} {found : Option ℕ}
    (hl : L.lookup t.matchUnit.lookupStructure key = some found) (hash : Option ℕ) :
    (found = none ∧ t.defaultSet = false ∧ t.lookup L key hash = some (none, {})) ∨
    ∃ mbr ∈ t.mbrHandles.handles, ∃ handle entry, t.actionEntries[mbr]? = some entry ∧
      t.lookup L key hash = some (handle, entry) := by
  have hfinish : ∀ (res : Option (ℕ × IndirectIndex)), t.matchUnit.lookupKey L key = some res →
      (res.isNone && !t.defaultSet) = false → t.Usable ((res.map Prod.snd).getD t.defaultIndex) →
      ∃ mbr ∈ t.mbrHandles.handles, ∃ handle entry, t.actionEntries[mbr]? = some entry ∧
        t.lookup L key hash = some (handle, entry) := by
    intro res hres hno huse
    obtain ⟨mbr, hm, hr⟩ := h.resolve huse hash
    obtain ⟨entry, hget⟩ : ∃ entry, t.actionEntries[mbr]? = some entry :=
      ⟨_, List.getElem?_eq_getElem (h.refs.mbr_lt mbr hm)⟩
    refine ⟨mbr, hm, res.map Prod.fst, entry, hget, ?_⟩
    rw [MatchTableIndirectWS.lookup, hres]
    simp only [Option.bind_eq_bind, Option.bind_some, hno, Bool.false_eq_true, ↓reduceIte, hr,
      MatchTableIndirect.isValidMbr, HandleMgr.validHandle, hm, decide_true, hget,
      Option.map_some]
  rcases h.sound.lookupKey hl with ⟨hmiss, hf⟩ | ⟨i, e, handle, he, hhit⟩
  · by_cases hd : t.defaultSet = true
    · exact .inr (hfinish none hmiss (by simp [hd]) (h.usable _ (.inr ⟨hd, rfl⟩)))
    · have hd : t.defaultSet = false := by simpa using hd
      exact .inl ⟨hf, hd, by simp [MatchTableIndirectWS.lookup, hmiss, hd]⟩
  · refine .inr (hfinish _ hhit (by simp) ?_)
    exact h.usable _ (used_of_holds he.1 (by simp [MatchUnit.Holds, he.2]))

end SafeInv

/-- The calls that keep lookups safe, judged in the state they start from. -/
def SafeStep (t : MatchTableIndirectWS K S) (op : Op) : Prop :=
  t.Released op ∧ t.NoWrap op ∧ t.KeepsTargets op

instance (op : Op) : Decidable (t.SafeStep op) := inferInstanceAs (Decidable (_ ∧ _))

end MatchTableIndirectWS

namespace MatchTableIndirect

variable {K S : Type} [MatchKey K] {L : LookupStructure K S} {C : SoundLookup L}

/-- A plain indirect table is one with a selector and no groups. -/
def withSelector (t : MatchTableIndirect K S) : MatchTableIndirectWS K S :=
  { toMatchTableIndirect := t }

/-- Without groups the lookup of the plain table is that of the table with selector. -/
theorem lookup_safe {t : MatchTableIndirect K S} (h : t.withSelector.SafeInv C) {key : List Byte}
    {found : Option ℕ} (hl : L.lookup t.matchUnit.lookupStructure key = some found) :
    (found = none ∧ t.defaultSet = false ∧ t.lookup L key = some (none, {})) ∨
    ∃ mbr ∈ t.mbrHandles.handles, ∃ handle entry, t.actionEntries[mbr]? = some entry ∧
      t.lookup L key = some (handle, entry) := by
  have hsame : ∀ res, t.matchUnit.lookupKey L key = some res →
      ((res.isNone && !t.defaultSet) = false →
        t.withSelector.Usable ((res.map Prod.snd).getD t.defaultIndex)) →
      t.lookup L key = t.withSelector.lookup L key none := by
    intro res hres huse
    rw [lookup, MatchTableIndirectWS.lookup, show t.withSelector.matchUnit.lookupKey L key =
      some res from hres, hres]
    simp only [Option.bind_eq_bind, Option.bind_some]
    cases hno : (res.isNone && !t.defaultSet) with
    | true => simp [withSelector, hno]
    | false =>
      rcases (huse hno).1 with ⟨m, hm, he⟩ | ⟨g, hg, -⟩
      · have hlt := h.refs.mbr_lt' hm
        have hd : t.withSelector.defaultSet = t.defaultSet := rfl
        have hi : t.withSelector.defaultIndex = t.defaultIndex := rfl
        simp only [hd, hno, hi, he, Bool.false_eq_true, ↓reduceIte,
          MatchTableIndirectWS.resolve, isMbr_mbrIndex hlt]
        rfl
      · exact absurd hg (Finset.notMem_empty g)
  have hres : ∃ res, t.matchUnit.lookupKey L key = some res ∧
      ((res.isNone && !t.defaultSet) = false →
        t.withSelector.Usable ((res.map Prod.snd).getD t.defaultIndex)) := by
    rcases h.sound.lookupKey hl with ⟨hmiss, -⟩ | ⟨i, e, handle, he, hhit⟩
    · refine ⟨none, hmiss, fun hd => h.usable _ (.inr ⟨?_, rfl⟩)⟩
      have hset : t.withSelector.defaultSet = t.defaultSet := rfl
      simpa [hset] using hd
    · exact ⟨_, hhit, fun _ => h.usable _ (MatchTableIndirectWS.used_of_holds he.1
        (by simp [MatchUnit.Holds, he.2]))⟩
  obtain ⟨res, hres, huse⟩ := hres
  rw [hsame res hres huse]
  exact h.lookup hl none

end MatchTableIndirect

namespace MatchTableIndirectWS

variable {K S : Type} [MatchKey K] {L : LookupStructure K S}

/-- Along every run of safe calls, with selector or without, every packet whose key the
lookup structure answers gets a miss without a default, or the action of a live member. -/
theorem indirect_lookup_safe {size : ℕ} (hsize : size < 2 ^ 31) (base : MatchTableAbstract)
    (kb : MatchKeyBuilder) (C : SoundLookup L) {ls : S} (hinv : C.Inv ls)
    (hempty : ∀ x i, ¬ C.stored ls x i) :
    (∀ t, Transition.Reach (step L) SafeStep (create base size kb ls) t →
      ∀ key hash found, L.lookup t.matchUnit.lookupStructure key = some found →
        (found = none ∧ t.defaultSet = false ∧ t.lookup L key hash = some (none, {})) ∨
        ∃ mbr ∈ t.mbrHandles.handles, ∃ handle entry, t.actionEntries[mbr]? = some entry ∧
          t.lookup L key hash = some (handle, entry)) ∧
    (∀ t, Transition.Reach (MatchTableIndirect.step L)
        (fun t op => SafeStep t.withSelector (.indirect op))
        (MatchTableIndirect.create base size kb ls) t →
      ∀ key found, L.lookup t.matchUnit.lookupStructure key = some found →
        (found = none ∧ t.defaultSet = false ∧ t.lookup L key = some (none, {})) ∨
        ∃ mbr ∈ t.mbrHandles.handles, ∃ handle entry, t.actionEntries[mbr]? = some entry ∧
          t.lookup L key = some (handle, entry)) := by
  have hsafe : ∀ t, Transition.Reach (step L) SafeStep (create base size kb ls) t →
      SafeInv C t := fun t hrun =>
    hrun.invariant (SafeInv C) (.create base hsize kb hinv hempty)
      fun _ _ _ _ hs hok hstep => hs.step hstep hok.1 hok.2.1 hok.2.2
  refine ⟨fun t hrun key hash found hl => (hsafe t hrun).lookup hl hash,
    fun t hrun key found hl => ?_⟩
  have hrun' : Transition.Reach (step L) SafeStep (create base size kb ls) t.withSelector := by
    refine hrun.map MatchTableIndirect.withSelector Op.indirect (fun _ _ h => h) ?_
    intro s op r s' hs
    simp only [step, liftIndirect, MatchTableIndirect.withSelector, hs, Option.map_some]
  exact MatchTableIndirect.lookup_safe (hsafe _ hrun') hl

/-- A packet that hits an entry of a group of one member. -/
theorem indirect_lookup_safe_group :
    ∃ t, Transition.Reach (step exactMap) SafeStep (smallTable 2) t ∧
      exactMap.lookup t.matchUnit.lookupStructure [4] = some (some 0) ∧
      ∃ mbr ∈ t.mbrHandles.handles, ∃ handle entry, t.actionEntries[mbr]? = some entry ∧
        t.lookup exactMap [4] (some 9) = some (handle, entry) := by
  have heval : ((Transition.runAll (step exactMap) SafeStep (smallTable 2)
      [.indirect (.addMember 7 []), .createGroup, .addMemberToGroup 0 0,
        .addEntryWs 0 [{ type := .exact, key := [4] }] 0 0, .setDefaultGroup 0]).map fun t =>
          exactMap.lookup t.matchUnit.lookupStructure [4]) = some (some (some 0)) := by
    decide +kernel
  obtain ⟨t, hrun, ht⟩ := Option.map_eq_some_iff.mp heval
  have hreach := Transition.Reach.of_runAll hrun
  have hsafe := (indirect_lookup_safe (by decide) _ _ exactMapSound trivial
    (fun _ _ h => absurd ((AList.lookup_empty _).symm.trans h) (by simp))).1
      t hreach [4] (some 9) (some 0) ht
  refine ⟨t, hreach, ht, hsafe.resolve_left ?_⟩
  rintro ⟨hf, -⟩
  simp at hf

/-- The default member can be deleted, and the next miss then fails an assertion. -/
theorem indirect_lookup_aborts :
    ∃ t, Transition.Reach (step exactMap) (fun _ _ => True) (smallTable 1) t ∧
      exactMap.lookup t.matchUnit.lookupStructure [4] = some none ∧
      t.lookup exactMap [4] none = none := by
  have heval : ((Transition.runAll (step exactMap) (fun _ _ => True) (smallTable 1)
      [.indirect (.addMember 7 []), .indirect (.setDefaultMember 0),
        .indirect (.deleteMember 0)]).map fun t =>
          (exactMap.lookup t.matchUnit.lookupStructure [4],
            decide (t.lookup exactMap [4] none = none))) = some (some none, true) := by
    decide +kernel
  obtain ⟨t, hrun, ht⟩ := Option.map_eq_some_iff.mp heval
  simp only [Prod.mk.injEq, decide_eq_true_eq] at ht
  exact ⟨t, .of_runAll hrun, ht.1, ht.2⟩

end MatchTableIndirectWS

end Bmv2
