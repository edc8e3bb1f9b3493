import Bmv2.Lib.Transition
import Bmv2.Tables.Counting

/-! The reference counts of an indirect table with selector along every run: each count is
the number of uses, as long as no call counts a use it fails to make or releases one it
keeps. -/
namespace Bmv2
open ByteBits References IndirectIndex

namespace MatchUnit

variable {K V S : Type} [MatchKey K] {L : LookupStructure K S} {u : MatchUnit K V S}

/-- The handle passes the check of `get_value`. -/
def current (u : MatchUnit K V S) (handle : ℕ) : Bool :=
  match u.checkHandle handle with
  | some (.ok _) => true
  | _ => false

theorem current_of_checkHandle {handle : ℕ} {e : Entry K V}
    (h : u.checkHandle handle = some (.ok e)) : u.current handle = true := by
  rw [current, h]

/-- The three refusals of `add_entry`: bad parameters, a key that exists, a full table. -/
def accepts (L : LookupStructure K S) (u : MatchUnit K V S) (params : List MatchKeyParam)
    (priority : ℤ) : Bool :=
  u.matchKeyBuilder.matchParamsSanityCheck params && decide (u.numEntries < u.size) &&
    (entryKey u.matchKeyBuilder params priority : Option K).all fun key =>
      decide (L.entryExists u.lookupStructure key ≠ some true)

theorem addEntry_ok_of_accepts {u' : MatchUnit K V S} (hwf : u.Wf) {now : ℕ}
    {params : List MatchKeyParam} {value : V} {priority : ℤ} {r : Result ℕ}
    (h : u.addEntry L now params value priority = some (r, u'))
    (hacc : u.accepts L params priority = true) (e : MatchErrorCode) : r ≠ .error e := by
  rintro rfl
  simp only [accepts, Bool.and_eq_true, decide_eq_true_eq] at hacc
  obtain ⟨⟨hsane, hroom⟩, hkey⟩ := hacc
  rcases addEntry_cases hwf h with ⟨_, -, -, ⟨-, hbad⟩ | ⟨-, key, hk, ⟨-, hdup⟩ | ⟨-, -, hfull⟩⟩⟩ |
    ⟨_, _, _, _, -, -, -, -, -, -, -, -, hr, -⟩
  · simp [hbad] at hsane
  · rw [hk] at hkey
    simp [hdup] at hkey
  · omega
  · simp at hr

end MatchUnit

namespace MatchTableIndirectWS

variable {K S : Type} [MatchKey K] {L : LookupStructure K S} {t t' : MatchTableIndirectWS K S}
variable {R : ℕ → ℕ → Prop}

/-- No call gives a current entry a target that is not live, or a group that is empty: the
table releases the old target before it finds out. -/
def Released (t : MatchTableIndirectWS K S) : Op → Prop
  | .indirect (.modifyEntry handle mbr) =>
    t.matchUnit.current handle = true → mbr ∈ t.mbrHandles.handles
  | .modifyEntryWs handle grp =>
    t.matchUnit.current handle = true → t.checkGrp grp = some (.ok ())
  | _ => True

/-- No call asks for an entry with a good target that the match unit refuses: the table
counts the use before it finds out. -/
def Made (L : LookupStructure K S) (t : MatchTableIndirectWS K S) : Op → Prop
  | .indirect (.addEntry _ params mbr priority) =>
    mbr ∈ t.mbrHandles.handles → t.matchUnit.accepts L params priority = true
  | .addEntryWs _ params grp priority =>
    t.checkGrp grp = some (.ok ()) → t.matchUnit.accepts L params priority = true
  | _ => True

/-- One more use does not wrap the count. -/
def belowMax (c : IndirectIndexRefCount) (x : IndirectIndex) : Bool :=
  (c.get x).all fun n => decide (n + 1 < 2 ^ 32)

/-- The counts after a modification has released the old target. -/
def releasedCount (t : MatchTableIndirectWS K S) (handle : ℕ) : IndirectIndexRefCount :=
  match t.matchUnit.getValue handle with
  | some (.ok x) => (t.indexRefCount.decrease x).getD t.indexRefCount
  | _ => t.indexRefCount

/-- No call takes a count from its largest value to zero. -/
def NoWrap (t : MatchTableIndirectWS K S) : Op → Prop
  | .indirect (.addEntry _ _ mbr _) | .addMemberToGroup mbr _ =>
    mbr ∈ t.mbrHandles.handles → belowMax t.indexRefCount (mbrIndex mbr) = true
  | .indirect (.modifyEntry handle mbr) =>
    mbr ∈ t.mbrHandles.handles → belowMax (t.releasedCount handle) (mbrIndex mbr) = true
  | .addEntryWs _ _ grp _ =>
    grp ∈ t.grpHandles.handles → belowMax t.indexRefCount (grpIndex grp) = true
  | .modifyEntryWs handle grp =>
    grp ∈ t.grpHandles.handles → belowMax (t.releasedCount handle) (grpIndex grp) = true
  | _ => True

instance (op : Op) : Decidable (t.Released op) := by
  unfold Released
  split <;> infer_instance

instance (op : Op) : Decidable (t.Made L op) := by
  unfold Made
  split <;> infer_instance

instance (op : Op) : Decidable (t.NoWrap op) := by
  unfold NoWrap
  split <;> infer_instance

theorem belowMax_iff {c : IndirectIndexRefCount} {x : IndirectIndex} :
    belowMax c x = true ↔ ∀ n, c.get x = some n → n + 1 < 2 ^ 32 := by
  rw [belowMax]
  cases c.get x <;> simp

theorem releasedCount_eq {handle : ℕ} {e : Entry K IndirectIndex} {c : IndirectIndexRefCount}
    (hc : t.matchUnit.checkHandle handle = some (.ok e))
    (hdec : t.indexRefCount.decrease e.value = some c) : t.releasedCount handle = c := by
  have hv : t.matchUnit.getValue handle = some (.ok e.value) := by
    simp [MatchUnit.getValue, hc]
  rw [releasedCount, hv]
  simp [hdec]

namespace RefInv

/-- The operations that members share with the plain indirect table. -/
theorem stepIndirect (h : RefInv R t) (hR : CountRel R) {op : MatchTableIndirect.Op}
    {r : Result TableReply} {t₁ : MatchTableIndirect K S}
    (hs : t.toMatchTableIndirect.step L op = some (r, t₁)) (hrel : t.Released (.indirect op))
    (hmade : t.Made L (.indirect op) ∨ ∀ {a b}, R a b → R a (b + 1))
    (hwrap : t.NoWrap (.indirect op)) : RefInv R { t with toMatchTableIndirect := t₁ } := by
  cases MatchTableIndirect.steps_of_step hs with
  | addMember h' => exact h.addMember hR h'
  | deleteMember h' => exact h.deleteMember hR h'
  | modifyMember h' => exact h.modifyMember h'
  | addRefused | getValue | getEntry | getMember | defaultRefused => exact h
  | addEntry hm hx h' =>
    have hlt := h.mbr_lt' hm
    obtain ⟨-, rfl⟩ := makeMbrIndex_eq (by omega) hx
    refine h.addIndexed hR ((live_mbr hlt).mpr hm) (belowMax_iff.mp (hwrap hm)) h'
      fun e hr => ?_
    rcases hmade with hmade | hleak
    · obtain ⟨c, u, -, hu, -⟩ := MatchTableIndirect.addIndexed_cases h'
      exact absurd hr (MatchUnit.addEntry_ok_of_accepts h.wf hu (hmade hm) e)
    · exact hleak
  | deleteEntry h' => exact h.deleteEntry hR h'
  | @modifyEntry handle mbr r' t₁ h' =>
    refine h.modifyIndexed hR h' (fun e hc code => ?_) (fun hok x hx => ?_)
      fun e x c n hc hx hdec => ?_
    · rw [MatchTableIndirect.checkMbr_ok_iff.mpr (hrel (MatchUnit.current_of_checkHandle hc))]
      simp
    · have hm := MatchTableIndirect.checkMbr_ok_iff.mp (Option.some.inj hok)
      have hlt := h.mbr_lt' hm
      obtain ⟨-, rfl⟩ := makeMbrIndex_eq (by omega) hx
      exact (live_mbr hlt).mpr hm
    · have hm := hrel (MatchUnit.current_of_checkHandle hc)
      have hlt := h.mbr_lt' hm
      obtain ⟨-, rfl⟩ := makeMbrIndex_eq (by omega) hx
      rw [NoWrap, releasedCount_eq hc hdec] at hwrap
      exact belowMax_iff.mp (hwrap hm) n
  | setDefaultMember =>
    exact ⟨h.size_lt, h.wf, h.mbr_bound, h.grp_bound, h.mbr_lt, h.grp_lt, h.entry_live,
      h.group_live, h.counts⟩
  | base h' =>
    have hwf := MatchTableAbstract.step_wf h.wf h'
    obtain ⟨_, _, -, rfl⟩ := MatchTableAbstract.step_cases h'
    exact h.withUnit rfl hwf h.entry_live h.counts

/-- One call keeps the invariant. -/
theorem step (h : RefInv R t) (hR : CountRel R) {op : Op} {r : Result TableReply}
    (hs : MatchTableIndirectWS.step L t op = some (r, t')) (hrel : t.Released op)
    (hmade : t.Made L op ∨ ∀ {a b}, R a b → R a (b + 1)) (hwrap : t.NoWrap op) : RefInv R t' := by
  cases steps_of_step hs with
  | indirect h' => exact h.stepIndirect hR h' hrel hmade hwrap
  | createGroup h' => exact h.createGroup hR h'
  | deleteGroup h' => exact h.deleteGroup hR h'
  | addMemberToGroup h' => exact h.addMemberToGroup hR h' fun hm => belowMax_iff.mp (hwrap hm)
  | removeMemberFromGroup h' => exact h.removeMemberFromGroup hR h'
  | addRefused | defaultRefused | getEntry | getGroup | getNumMembersInGroup => exact h
  | addEntryWs hcheck hx h₁ =>
    have hg := (checkGrp_ok_iff.mp hcheck).1
    have hlt := h.grp_lt' hg
    obtain ⟨-, rfl⟩ := makeGrpIndex_eq (by omega) hx
    refine h.addIndexed hR (h.live_grp.mpr hg) (belowMax_iff.mp (hwrap hg)) h₁
      fun e hr => ?_
    rcases hmade with hmade | hleak
    · obtain ⟨c, u, -, hu, -⟩ := MatchTableIndirect.addIndexed_cases h₁
      exact absurd hr (MatchUnit.addEntry_ok_of_accepts h.wf hu (hmade hcheck) e)
    · exact hleak
  | modifyEntryWs h₁ =>
    refine h.modifyIndexed hR h₁ (fun e hc code => ?_) (fun hok x hx => ?_)
      fun e x c n hc hx hdec => ?_
    · rw [hrel (MatchUnit.current_of_checkHandle hc)]
      simp
    · have hg := (checkGrp_ok_iff.mp hok).1
      have hlt := h.grp_lt' hg
      obtain ⟨-, rfl⟩ := makeGrpIndex_eq (by omega) hx
      exact h.live_grp.mpr hg
    · have hg := (checkGrp_ok_iff.mp (hrel (MatchUnit.current_of_checkHandle hc))).1
      have hlt := h.grp_lt' hg
      obtain ⟨-, rfl⟩ := makeGrpIndex_eq (by omega) hx
      rw [NoWrap, releasedCount_eq hc hdec] at hwrap
      exact belowMax_iff.mp (hwrap hg) n
  | setDefaultGroup =>
    exact ⟨h.size_lt, h.wf, h.mbr_bound, h.grp_bound, h.mbr_lt, h.grp_lt, h.entry_live,
      h.group_live, h.counts⟩

/-- There are too few uses to wrap a count that is exact. -/
theorem uses_lt (h : RefInv R t) (x : IndirectIndex) :
    t.uses x + 1 < 2 ^ 32 := by
  have h1 : t.matchUnit.entryUses x ≤ t.matchUnit.size :=
    refs_le_card.trans (h.wf.numEntries_eq ▸ h.wf.numEntries_le)
  have hsub : t.grpHandles.handles ⊆ Finset.range (2 ^ 24) := fun g hg =>
    Finset.mem_range.mpr (h.grp_lt' hg)
  have h2 : t.groupUses x ≤ 2 ^ 24 :=
    refs_le_card.trans ((Finset.card_le_card hsub).trans (Finset.card_range _).le)
  have := h.size_lt
  rw [uses]
  omega

theorem counted_lt (h : RefInv (· = ·) t) {x : IndirectIndex}
    (hx : t.LiveIndex x) : belowMax t.indexRefCount x = true := by
  refine belowMax_iff.mpr fun n hn => ?_
  obtain ⟨n', -, hn', rfl⟩ := h.counts x hx
  obtain rfl : t.uses x = n := by simpa [hn'] using hn
  exact h.uses_lt x

theorem released_lt (h : RefInv (· = ·) t) (handle : ℕ)
    {x : IndirectIndex} (hx : t.LiveIndex x) : belowMax (t.releasedCount handle) x = true := by
  rw [releasedCount]
  split
  case h_2 => exact h.counted_lt hx
  case h_1 y hv =>
    cases hdec : t.indexRefCount.decrease y with
    | none => exact h.counted_lt hx
    | some c =>
      rcases MatchUnit.getValue_cases hv with ⟨_, hr, -⟩ | ⟨e, hc, hr⟩
      · simp at hr
      obtain rfl : y = e.value := by simpa using hr
      obtain ⟨hmem, hent, -⟩ := MatchUnit.checkHandle_ok_iff.mp hc
      have hholds : t.matchUnit.Holds e.value (handleInternal handle) := by
        simp [MatchUnit.Holds, hent]
      have hpos : (if e.value = x then 1 else 0) ≤ t.matchUnit.entryUses x := by
        split_ifs with hex
        · exact refs_pos hmem (hex ▸ hholds)
        · exact Nat.zero_le _
      obtain ⟨n, -, hn, hrel⟩ := (h.counts x hx).decrease countRel_eq
        (h.proper (h.entry_live _ hmem _ hholds)) (h.proper hx) hdec
        (b := t.uses x - if e.value = x then 1 else 0) (by rw [uses]; omega)
      refine belowMax_iff.mpr fun n' hn' => ?_
      obtain rfl : n = n' := by simpa [hn] using hn'
      have := h.uses_lt x
      omega

theorem noWrap (h : RefInv (· = ·) t) (op : Op) :
    t.NoWrap op := by
  unfold NoWrap
  split
  · exact fun hm => h.counted_lt (.inl ⟨_, hm, rfl⟩)
  · exact fun hm => h.counted_lt (.inl ⟨_, hm, rfl⟩)
  · exact fun hm => h.released_lt _ (.inl ⟨_, hm, rfl⟩)
  · exact fun hg => h.counted_lt (.inr ⟨_, hg, rfl⟩)
  · exact fun hg => h.released_lt _ (.inr ⟨_, hg, rfl⟩)
  · trivial

end RefInv

theorem eq_error_of_map {ε α β : Type} {f : α → β} {r : Except ε α} {e : ε}
    (h : r.map f = .error e) : r = .error e := by
  cases r with
  | error e' => exact congrArg Except.error (Except.error.inj h)
  | ok a => cases h

/-- A modification that reports an error has not released anything, if its target is good. -/
theorem modifyIndexed_error {check : Option (Result Unit)} {new : Option IndirectIndex}
    {handle : ℕ} {code : MatchErrorCode} {t₁ t₂ : MatchTableIndirect K S}
    (hs : t₁.modifyIndexed handle check new = some (.error code, t₂))
    (hcheck : t₁.matchUnit.current handle = true → check = some (.ok ())) :
    t₂.indexRefCount = t₁.indexRefCount := by
  rcases MatchTableIndirect.modifyIndexed_cases hs with ⟨_, -, rfl, -⟩ |
    ⟨e, c, code, hc, hcode, -⟩ | ⟨e, x, c, c', -, -, -, -, -, hr, -⟩
  · rfl
  · rw [hcheck (MatchUnit.current_of_checkHandle hc)] at hcode
    simp at hcode
  · simp at hr

theorem stepIndirect_error (hwf : t.matchUnit.Wf) {op : MatchTableIndirect.Op}
    {code : MatchErrorCode} {t₁ : MatchTableIndirect K S} (hrel : t.Released (.indirect op))
    (hmade : t.Made L (.indirect op))
    (hs : t.toMatchTableIndirect.step L op = some (.error code, t₁)) :
    t₁.indexRefCount = t.indexRefCount := by
  generalize hr : (.error code : Result TableReply) = reply at hs
  cases MatchTableIndirect.steps_of_step hs with
  | addMember h' =>
    rcases MatchTableIndirect.addMember_cases h' with ⟨_, -, rfl⟩ | ⟨_, _, _, -, -, -, rfl, -⟩
    · rfl
    · simp [Except.map] at hr
  | deleteMember h' =>
    rcases MatchTableIndirect.deleteMember_cases h' with ⟨_, -, rfl⟩ | ⟨_, -, -, -, -, rfl⟩ <;> rfl
  | modifyMember h' =>
    rcases MatchTableIndirect.modifyMember_cases h' with ⟨_, -, rfl⟩ | ⟨_, -, rfl⟩ <;> rfl
  | addEntry hm hx h' =>
    obtain ⟨c, u, -, hu, -⟩ := MatchTableIndirect.addIndexed_cases h'
    exact absurd (eq_error_of_map hr.symm)
      (MatchUnit.addEntry_ok_of_accepts hwf hu (hmade hm) code)
  | deleteEntry h' =>
    rcases MatchTableIndirect.deleteEntry_cases h' with ⟨_, -, rfl, -⟩ |
      ⟨_, _, _, -, -, -, rfl, -⟩
    · rfl
    · simp [Except.map] at hr
  | modifyEntry h' =>
    obtain rfl := eq_error_of_map hr.symm
    refine modifyIndexed_error h' fun hc => ?_
    rw [MatchTableIndirect.checkMbr_ok_iff.mpr (hrel hc)]
  | addRefused | defaultRefused | setDefaultMember | getValue | getEntry | getMember | base => rfl

/-- A call that reports an error leaves every count as it was. -/
theorem step_error (hwf : t.matchUnit.Wf) {op : Op} {code : MatchErrorCode} (hrel : t.Released op)
    (hmade : t.Made L op) (hs : step L t op = some (.error code, t')) :
    t'.indexRefCount = t.indexRefCount := by
  generalize hr : (.error code : Result TableReply) = reply at hs
  cases steps_of_step hs with
  | indirect h' =>
    subst hr
    exact stepIndirect_error hwf hrel hmade h'
  | createGroup h' =>
    rcases createGroup_cases h' with ⟨_, -, rfl⟩ | ⟨_, _, -, -, -, rfl, -⟩
    · rfl
    · simp [Except.map] at hr
  | deleteGroup h' =>
    rcases deleteGroup_cases h' with ⟨_, -, rfl⟩ | ⟨_, _, _, -, -, -, -, -, rfl, -⟩
    · rfl
    · simp [Except.map] at hr
  | addMemberToGroup h' =>
    rcases addMemberToGroup_cases h' with ⟨_, -, rfl⟩ | ⟨_, _, _, -, -, -, -, -, -, rfl, -⟩
    · rfl
    · simp [Except.map] at hr
  | removeMemberFromGroup h' =>
    rcases removeMemberFromGroup_cases h' with ⟨_, -, rfl⟩ | ⟨_, _, _, -, -, -, -, -, -, rfl, -⟩
    · rfl
    · simp [Except.map] at hr
  | addEntryWs hcheck hx h₁ =>
    obtain ⟨c, u, -, hu, -⟩ := MatchTableIndirect.addIndexed_cases h₁
    exact absurd (eq_error_of_map hr.symm)
      (MatchUnit.addEntry_ok_of_accepts hwf hu (hmade hcheck) code)
  | modifyEntryWs h₁ =>
    obtain rfl := eq_error_of_map hr.symm
    exact modifyIndexed_error h₁ hrel
  | addRefused | defaultRefused | setDefaultGroup | getEntry | getGroup | getNumMembersInGroup =>
    rfl

/-- The number of live groups that contain member `m`. -/
def groupsContaining (t : MatchTableIndirectWS K S) (m : ℕ) : ℕ :=
  (t.grpHandles.handles.filter fun g => m ∈ t.group g).card

omit [MatchKey K] in
theorem groupUses_mbrIndex {m : ℕ} (hm : m < 2 ^ 24) :
    t.groupUses (mbrIndex m) = t.groupsContaining m := by
  rw [groupUses, groupsContaining, refs]
  simp [isMbr_mbrIndex hm, get_mbrIndex hm]

omit [MatchKey K] in
theorem groupUses_grpIndex (g : ℕ) : t.groupUses (grpIndex g) = 0 := by
  simp [groupUses, refs]

/-- Along every run in which each added entry with a good target is accepted and each
modified entry gets a good target, every count is the number of uses; a call that reports an
error changes no count, and no use that a call can release has a count of zero. -/
theorem ref_count_invariant {size : ℕ} (hsize : size < 2 ^ 31) (base : MatchTableAbstract)
    (kb : MatchKeyBuilder) (ls : S)
    (hrun : Transition.Reach (step L) (fun t op => t.Released op ∧ t.Made L op)
      (create base size kb ls) t) :
    (∀ m ∈ t.mbrHandles.handles, t.indexRefCount.get (mbrIndex m) =
      some (t.matchUnit.entryUses (mbrIndex m) + t.groupsContaining m)) ∧
    (∀ g ∈ t.grpHandles.handles, t.indexRefCount.get (grpIndex g) =
      some (t.matchUnit.entryUses (grpIndex g))) ∧
    (∀ op code t', t.Released op → t.Made L op → step L t op = some (.error code, t') →
      t'.indexRefCount = t.indexRefCount) ∧
    (∀ handle x, t.matchUnit.getValue handle = some (.ok x) →
      ∃ n, t.indexRefCount.get x = some (n + 1)) ∧
    (∀ g ∈ t.grpHandles.handles, ∀ m ∈ t.group g,
      ∃ n, t.indexRefCount.get (mbrIndex m) = some (n + 1)) := by
  have h : RefInv (· = ·) t := hrun.invariant (RefInv (· = ·)) (.create base hsize kb ls)
    fun _ _ _ _ hs hok hstep => hs.step countRel_eq hstep hok.1 (.inl hok.2) (hs.noWrap _)
  have hcount : ∀ x, t.LiveIndex x → t.indexRefCount.get x = some (t.uses x) := by
    intro x hx
    obtain ⟨n, -, hn, rfl⟩ := h.counts x hx
    exact hn
  have hpos : ∀ x, t.LiveIndex x → 0 < t.uses x → ∃ n, t.indexRefCount.get x = some (n + 1) :=
    fun x hx hpos => ⟨t.uses x - 1, by rw [hcount x hx, Nat.sub_add_cancel hpos]⟩
  refine ⟨fun m hm => ?_, fun g hg => ?_, fun op code t' hrel hmade hs =>
    step_error h.wf hrel hmade hs, fun handle x hv => ?_, fun g hg m hm => ?_⟩
  · rw [hcount _ (.inl ⟨m, hm, rfl⟩), uses, groupUses_mbrIndex (h.mbr_lt' hm)]
  · rw [hcount _ (.inr ⟨g, hg, rfl⟩), uses, groupUses_grpIndex, add_zero]
  · rcases MatchUnit.getValue_cases hv with ⟨_, hr, -⟩ | ⟨e, hc, hr⟩
    · simp at hr
    obtain rfl : x = e.value := by simpa using hr
    obtain ⟨hmem, hent, -⟩ := MatchUnit.checkHandle_ok_iff.mp hc
    have hholds : t.matchUnit.Holds e.value (handleInternal handle) := by
      simp [MatchUnit.Holds, hent]
    exact hpos _ (h.entry_live _ hmem _ hholds) (Nat.add_pos_left (refs_pos hmem hholds) _)
  · have hmem := h.group_live g hg m hm
    have hlt := h.mbr_lt' hmem
    refine hpos _ (.inl ⟨m, hmem, rfl⟩) (Nat.add_pos_right _ (refs_pos hg ?_))
    rw [isMbr_mbrIndex hlt, get_mbrIndex hlt]
    exact ⟨rfl, hm⟩

/-- A table of `size` slots keyed by one byte, in which every action leads nowhere. -/
def smallTable (size : ℕ) : MatchTableIndirectWS ExactMatchKey (AList fun _ : List Byte => ℕ) :=
  create { nextNodeHit := some none } size (({} : MatchKeyBuilder).pushBackField 0 0 8 .exact) ∅

/-- A member used by an entry and by a group that has an entry of its own. -/
theorem ref_count_invariant_two_entries :
    ∃ t, Transition.Reach (step exactMap) (fun t op => t.Released op ∧ t.Made exactMap op)
        (smallTable 2) t ∧
      0 ∈ t.mbrHandles.handles ∧ t.indexRefCount.get (mbrIndex 0) = some 2 ∧
      t.matchUnit.entryUses (mbrIndex 0) + t.groupsContaining 0 = 2 := by
  have heval : ((Transition.runAll (step exactMap)
      (fun t op => t.Released op ∧ t.Made exactMap op) (smallTable 2)
      [.indirect (.addMember 7 []), .createGroup, .addMemberToGroup 0 0,
        .addEntryWs 0 [{ type := .exact, key := [4] }] 0 0,
        .indirect (.addEntry 0 [{ type := .exact, key := [5] }] 0 0)]).map fun t =>
          (t.indexRefCount.get (mbrIndex 0), decide (0 ∈ t.mbrHandles.handles))) =
      some (some 2, true) := by
    decide +kernel
  obtain ⟨t, hrun, ht⟩ := Option.map_eq_some_iff.mp heval
  simp only [Prod.mk.injEq, decide_eq_true_eq] at ht
  have hreach := Transition.Reach.of_runAll hrun
  have hcount := (ref_count_invariant (by decide) _ _ _ hreach).1 0 ht.2
  refine ⟨t, hreach, ht.2, ht.1, ?_⟩
  rw [ht.1, Option.some.injEq] at hcount
  exact hcount.symm

/-- An entry that the match unit refuses has been counted all the same. -/
theorem ref_count_leak :
    ∃ t t', Transition.Reach (step exactMap) (fun _ _ => True) (smallTable 1) t ∧
      step exactMap t (.indirect (.addEntry 0 [] 0 0)) = some (.error .badMatchKey, t') ∧
      0 ∈ t'.mbrHandles.handles ∧ t.indexRefCount.get (mbrIndex 0) = some 0 ∧
      t'.indexRefCount.get (mbrIndex 0) = some 1 ∧
      t'.matchUnit.entryUses (mbrIndex 0) + t'.groupsContaining 0 = 0 := by
  have heval : ((Transition.runAll (step exactMap) (fun _ _ => True) (smallTable 1)
      [.indirect (.addMember 7 [])]).bind fun t =>
        (step exactMap t (.indirect (.addEntry 0 [] 0 0))).map fun p =>
          (decide (p.1 = .error .badMatchKey), decide (0 ∈ p.2.mbrHandles.handles),
            t.indexRefCount.get (mbrIndex 0), p.2.indexRefCount.get (mbrIndex 0),
            p.2.matchUnit.entryUses (mbrIndex 0) + p.2.groupsContaining 0)) =
      some (true, true, some 0, some 1, 0) := by
    decide +kernel
  obtain ⟨t, hrun, ht⟩ := Option.bind_eq_some_iff.mp heval
  obtain ⟨⟨r, t'⟩, hs, ht'⟩ := Option.map_eq_some_iff.mp ht
  simp only [Prod.mk.injEq, decide_eq_true_eq] at ht'
  obtain ⟨rfl, h2, h3, h4, h5⟩ := ht'
  exact ⟨t, t', .of_runAll hrun, hs, h2, h3, h4, h5⟩

end MatchTableIndirectWS

end Bmv2
