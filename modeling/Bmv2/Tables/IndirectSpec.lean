import Bmv2.Tables.Indirect

/-! What each operation of an indirect table can do: an inversion lemma per operation. -/
namespace Bmv2
open IndirectIndex

namespace MatchTableIndirect

variable {K S : Type} {t t' : MatchTableIndirect K S}

theorem addMember_cases {actionFn : ℕ} {actionData : List ℤ} {r : Result ℕ}
    (h : t.addMember actionFn actionData = some (r, t')) :
    (∃ e, r = .error e ∧ t' = t) ∨
    ∃ (entry : ActionEntry) (x : IndirectIndex) (c : IndirectIndexRefCount),
      t.mbrHandles.firstEmpty ≤ t.actionEntries.length ∧
      makeMbrIndex t.mbrHandles.firstEmpty = some x ∧ t.indexRefCount.set x 0 = some c ∧
      r = .ok t.mbrHandles.firstEmpty ∧
      t' = { t with
        mbrHandles := ⟨insert t.mbrHandles.firstEmpty t.mbrHandles.handles⟩
        indexRefCount := c
        numMembers := t.numMembers + 1
        actionEntries := pushOrSet t.actionEntries t.mbrHandles.firstEmpty entry } := by
  obtain ⟨nextNode, -, h⟩ := Option.bind_eq_some_iff.mp h
  rw [HandleMgr.getHandle] at h
  by_cases h64 : t.mbrHandles.firstEmpty < 2 ^ 64
  · simp only [h64, ↓reduceIte] at h
    obtain ⟨t₁, h₁, h⟩ := Option.bind_eq_some_iff.mp h
    rw [entriesInsert] at h₁
    split_ifs at h₁ with hle
    obtain ⟨x, hx, h₁⟩ := Option.bind_eq_some_iff.mp h₁
    obtain ⟨c, hc, h₁⟩ := Option.bind_eq_some_iff.mp h₁
    obtain rfl := Option.some.inj h₁
    obtain ⟨rfl, rfl⟩ := Prod.mk.inj (Option.some.inj h)
    exact .inr ⟨_, x, c, hle, hx, hc, rfl, rfl⟩
  · simp only [h64, ↓reduceIte, Option.some.injEq, Prod.mk.injEq] at h
    exact .inl ⟨_, h.1.symm, h.2.symm⟩

theorem deleteMember_cases {mbr : ℕ} {r : Result Unit}
    (h : t.deleteMember mbr = some (r, t')) :
    (∃ e, r = .error e ∧ t' = t) ∨
    ∃ x, mbr ∈ t.mbrHandles.handles ∧ makeMbrIndex mbr = some x ∧
      t.indexRefCount.get x = some 0 ∧ r = .ok () ∧
      t' = { t with
        mbrHandles := ⟨t.mbrHandles.handles.erase mbr⟩
        numMembers := t.numMembers - 1 } := by
  rw [deleteMember, isValidMbr, HandleMgr.validHandle] at h
  by_cases hm : mbr ∈ t.mbrHandles.handles
  · simp only [hm, decide_true, Bool.not_true, Bool.false_eq_true, ↓reduceIte] at h
    obtain ⟨x, hx, h⟩ := Option.bind_eq_some_iff.mp h
    obtain ⟨n, hn, h⟩ := Option.bind_eq_some_iff.mp h
    by_cases hpos : n > 0
    · simp only [hpos, ↓reduceIte, Option.some.injEq, Prod.mk.injEq] at h
      exact .inl ⟨_, h.1.symm, h.2.symm⟩
    · obtain rfl : n = 0 := by omega
      simp only [HandleMgr.releaseHandle, hm, decide_true, gt_iff_lt, lt_self_iff_false,
        ↓reduceIte, Option.some.injEq, Prod.mk.injEq] at h
      exact .inr ⟨x, hm, hx, hn, h.1.symm, h.2.symm⟩
  · simp only [hm, decide_false, Bool.not_false, ↓reduceIte, Option.some.injEq,
      Prod.mk.injEq] at h
    exact .inl ⟨_, h.1.symm, h.2.symm⟩

theorem modifyMember_cases {mbr actionFn : ℕ} {actionData : List ℤ} {r : Result Unit}
    (h : t.modifyMember mbr actionFn actionData = some (r, t')) :
    (∃ e, r = .error e ∧ t' = t) ∨
    ∃ entry, r = .ok () ∧ t' = { t with actionEntries := t.actionEntries.set mbr entry } := by
  obtain ⟨nextNode, -, h⟩ := Option.bind_eq_some_iff.mp h
  split_ifs at h with h1 h2
  · exact .inl ⟨_, (congrArg Prod.fst (Option.some.inj h)).symm,
      (congrArg Prod.snd (Option.some.inj h)).symm⟩
  · exact .inr ⟨_, (congrArg Prod.fst (Option.some.inj h)).symm,
      (congrArg Prod.snd (Option.some.inj h)).symm⟩

/-- The check of a new target passes exactly for a live member. -/
theorem checkMbr_ok_iff {mbr : ℕ} : t.checkMbr mbr = .ok () ↔ mbr ∈ t.mbrHandles.handles := by
  simp [checkMbr, isValidMbr, HandleMgr.validHandle]

variable [MatchKey K] {L : LookupStructure K S}

theorem addIndexed_cases {now : ℕ} {params : List MatchKeyParam} {x : IndirectIndex} {priority : ℤ}
    {r : Result ℕ} (h : t.addIndexed L now params x priority = some (r, t')) :
    ∃ c u, t.indexRefCount.increase x = some c ∧
      t.matchUnit.addEntry L now params x priority = some (r, u) ∧
      t' = { t with indexRefCount := c, matchUnit := u } := by
  obtain ⟨c, hc, h⟩ := Option.bind_eq_some_iff.mp h
  obtain ⟨⟨r', u⟩, hu, h⟩ := Option.bind_eq_some_iff.mp h
  obtain ⟨rfl, rfl⟩ := Prod.mk.inj (Option.some.inj h)
  exact ⟨c, u, hc, hu, rfl⟩

theorem addEntry_cases {now : ℕ} {params : List MatchKeyParam} {mbr : ℕ} {priority : ℤ}
    {r : Result ℕ} (h : t.addEntry L now params mbr priority = some (r, t')) :
    (mbr ∉ t.mbrHandles.handles ∧ r = .error .invalidMbrHandle ∧ t' = t) ∨
    ∃ x, mbr ∈ t.mbrHandles.handles ∧ makeMbrIndex mbr = some x ∧
      t.addIndexed L now params x priority = some (r, t') := by
  rw [addEntry, isValidMbr, HandleMgr.validHandle] at h
  by_cases hm : mbr ∈ t.mbrHandles.handles
  · simp only [hm, decide_true, Bool.not_true, Bool.false_eq_true, ↓reduceIte] at h
    obtain ⟨x, hx, h⟩ := Option.bind_eq_some_iff.mp h
    exact .inr ⟨x, hm, hx, h⟩
  · simp only [hm, decide_false, Bool.not_false, ↓reduceIte, Option.some.injEq,
      Prod.mk.injEq] at h
    exact .inl ⟨hm, h.1.symm, h.2.symm⟩

theorem deleteEntry_cases {handle : ℕ} {r : Result Unit}
    (h : t.deleteEntry L handle = some (r, t')) :
    (∃ e, r = .error e ∧ t' = t ∧ t.matchUnit.checkHandle handle = some (.error e)) ∨
    ∃ (e : Entry K IndirectIndex) (c : IndirectIndexRefCount) (ls : S),
      t.matchUnit.checkHandle handle = some (.ok e) ∧
      t.indexRefCount.decrease e.value = some c ∧
      L.deleteEntry t.matchUnit.lookupStructure (MatchUnit.bumped e.key) = some ls ∧ r = .ok () ∧
      t' = { t with
        indexRefCount := c
        matchUnit := t.matchUnit.removed (handleInternal handle) e ls } := by
  obtain ⟨v, hv, h⟩ := Option.bind_eq_some_iff.mp h
  rcases MatchUnit.getValue_cases hv with ⟨e, rfl, hc⟩ | ⟨e, hc, rfl⟩
  · simp only [Option.some.injEq, Prod.mk.injEq] at h
    exact .inl ⟨e, h.1.symm, h.2.symm, hc⟩
  · obtain ⟨c, hdec, h⟩ := Option.bind_eq_some_iff.mp h
    obtain ⟨⟨r', u⟩, hu, h⟩ := Option.bind_eq_some_iff.mp h
    obtain ⟨rfl, rfl⟩ := Prod.mk.inj (Option.some.inj h)
    rcases MatchUnit.deleteEntry_cases hu with ⟨e', -, -, hc'⟩ | ⟨e', ls, hc', hls, rfl, rfl⟩
    · rw [hc] at hc'
      simp at hc'
    · obtain rfl : e = e' := by simpa [hc] using hc'
      exact .inr ⟨e, c, ls, hc, hdec, hls, rfl, rfl⟩

theorem modifyIndexed_cases {handle : ℕ} {check : Option (Result Unit)}
    {new : Option IndirectIndex} {r : Result Unit}
    (h : t.modifyIndexed handle check new = some (r, t')) :
    (∃ e, r = .error e ∧ t' = t ∧ t.matchUnit.checkHandle handle = some (.error e)) ∨
    (∃ (e : Entry K IndirectIndex) (c : IndirectIndexRefCount) (code : MatchErrorCode),
      t.matchUnit.checkHandle handle = some (.ok e) ∧ check = some (.error code) ∧
      r = .error code ∧ t.indexRefCount.decrease e.value = some c ∧
      t' = { t with indexRefCount := c }) ∨
    ∃ (e : Entry K IndirectIndex) (x : IndirectIndex) (c c' : IndirectIndexRefCount),
      t.matchUnit.checkHandle handle = some (.ok e) ∧ check = some (.ok ()) ∧ new = some x ∧
      t.indexRefCount.decrease e.value = some c ∧ c.increase x = some c' ∧ r = .ok () ∧
      t' = { t with
        indexRefCount := c'
        matchUnit := t.matchUnit.rewritten (handleInternal handle) { e with value := x } } := by
  obtain ⟨v, hv, h⟩ := Option.bind_eq_some_iff.mp h
  rcases MatchUnit.getValue_cases hv with ⟨e, rfl, hc⟩ | ⟨e, hc, rfl⟩
  · simp only [Option.some.injEq, Prod.mk.injEq] at h
    exact .inl ⟨e, h.1.symm, h.2.symm, hc⟩
  obtain ⟨c, hdec, h⟩ := Option.bind_eq_some_iff.mp h
  obtain ⟨res, hres, h⟩ := Option.bind_eq_some_iff.mp h
  cases res with
  | error code =>
    obtain ⟨rfl, rfl⟩ := Prod.mk.inj (Option.some.inj h)
    exact .inr (.inl ⟨e, c, code, hc, hres, rfl, hdec, rfl⟩)
  | ok u =>
    obtain ⟨x, hx, h⟩ := Option.bind_eq_some_iff.mp h
    obtain ⟨c', hinc, h⟩ := Option.bind_eq_some_iff.mp h
    obtain ⟨⟨r', u'⟩, hu, h⟩ := Option.bind_eq_some_iff.mp h
    obtain ⟨rfl, rfl⟩ := Prod.mk.inj (Option.some.inj h)
    rcases MatchUnit.modifyEntry_cases hu with ⟨e', -, -, hc'⟩ | ⟨e', hc', rfl, rfl⟩
    · rw [hc] at hc'
      simp at hc'
    · obtain rfl : e = e' := by simpa [hc] using hc'
      exact .inr (.inr ⟨e, x, c, c', hc, hres, hx, hdec, hinc, rfl, rfl⟩)

/-- What each call of the table is, with the work that is left once the target is known. -/
inductive Steps (L : LookupStructure K S) (t : MatchTableIndirect K S) :
    Op → Result TableReply → MatchTableIndirect K S → Prop
  | addMember {actionFn : ℕ} {actionData : List ℤ} {r : Result ℕ} {t' : MatchTableIndirect K S}
      (h : t.addMember actionFn actionData = some (r, t')) :
      Steps L t (.addMember actionFn actionData) (r.map .mbr) t'
  | deleteMember {mbr : ℕ} {r : Result Unit} {t' : MatchTableIndirect K S}
      (h : t.deleteMember mbr = some (r, t')) :
      Steps L t (.deleteMember mbr) (r.map fun _ => .done) t'
  | modifyMember {mbr actionFn : ℕ} {actionData : List ℤ} {r : Result Unit}
      {t' : MatchTableIndirect K S} (h : t.modifyMember mbr actionFn actionData = some (r, t')) :
      Steps L t (.modifyMember mbr actionFn actionData) (r.map fun _ => .done) t'
  | addRefused {now : ℕ} {params : List MatchKeyParam} {mbr : ℕ} {priority : ℤ}
      (hm : mbr ∉ t.mbrHandles.handles) :
      Steps L t (.addEntry now params mbr priority) (.error .invalidMbrHandle) t
  | addEntry {now : ℕ} {params : List MatchKeyParam} {mbr : ℕ} {priority : ℤ} {x : IndirectIndex}
      {r : Result ℕ} {t' : MatchTableIndirect K S} (hm : mbr ∈ t.mbrHandles.handles)
      (hx : makeMbrIndex mbr = some x) (h : t.addIndexed L now params x priority = some (r, t')) :
      Steps L t (.addEntry now params mbr priority) (r.map .handle) t'
  | deleteEntry {handle : ℕ} {r : Result Unit} {t' : MatchTableIndirect K S}
      (h : t.deleteEntry L handle = some (r, t')) :
      Steps L t (.deleteEntry handle) (r.map fun _ => .done) t'
  | modifyEntry {handle mbr : ℕ} {r : Result Unit} {t' : MatchTableIndirect K S}
      (h : t.modifyIndexed handle (some (t.checkMbr mbr)) (makeMbrIndex mbr) = some (r, t')) :
      Steps L t (.modifyEntry handle mbr) (r.map fun _ => .done) t'
  | defaultRefused {mbr : ℕ} (hm : mbr ∉ t.mbrHandles.handles) :
      Steps L t (.setDefaultMember mbr) (.error .invalidMbrHandle) t
  | setDefaultMember {mbr : ℕ} {x : IndirectIndex} (hm : mbr ∈ t.mbrHandles.handles)
      (hx : makeMbrIndex mbr = some x) : Steps L t (.setDefaultMember mbr) (.ok .done)
        { t with defaultIndex := x, defaultSet := true }
  | getValue {handle : ℕ} {r : Result TableReply} : Steps L t (.getValue handle) r t
  | getEntry {handle : ℕ} {r : Result TableReply} : Steps L t (.getEntry handle) r t
  | getMember {mbr : ℕ} {r : Result TableReply} : Steps L t (.getMember mbr) r t
  | base {op : MatchTableAbstract.Op} {r : Result TableReply} {u : MatchUnit K IndirectIndex S}
      (h : t.base.step t.matchUnit op = some (r, u)) :
      Steps L t (.base op) r { t with matchUnit := u }

theorem steps_of_step {op : Op} {r : Result TableReply} (hs : t.step L op = some (r, t')) :
    Steps L t op r t' := by
  cases op with
  | addMember actionFn actionData =>
    obtain ⟨⟨r', t₁⟩, h, he⟩ := Option.map_eq_some_iff.mp hs
    obtain ⟨rfl, rfl⟩ := Prod.mk.inj he
    exact .addMember h
  | deleteMember mbr =>
    obtain ⟨⟨r', t₁⟩, h, he⟩ := Option.map_eq_some_iff.mp hs
    obtain ⟨rfl, rfl⟩ := Prod.mk.inj he
    exact .deleteMember h
  | modifyMember mbr actionFn actionData =>
    obtain ⟨⟨r', t₁⟩, h, he⟩ := Option.map_eq_some_iff.mp hs
    obtain ⟨rfl, rfl⟩ := Prod.mk.inj he
    exact .modifyMember h
  | addEntry now params mbr priority =>
    obtain ⟨⟨r', t₁⟩, h, he⟩ := Option.map_eq_some_iff.mp hs
    obtain ⟨rfl, rfl⟩ := Prod.mk.inj he
    rcases addEntry_cases h with ⟨hm, rfl, rfl⟩ | ⟨x, hm, hx, h⟩
    · exact .addRefused hm
    · exact .addEntry hm hx h
  | deleteEntry handle =>
    obtain ⟨⟨r', t₁⟩, h, he⟩ := Option.map_eq_some_iff.mp hs
    obtain ⟨rfl, rfl⟩ := Prod.mk.inj he
    exact .deleteEntry h
  | modifyEntry handle mbr =>
    obtain ⟨⟨r', t₁⟩, h, he⟩ := Option.map_eq_some_iff.mp hs
    obtain ⟨rfl, rfl⟩ := Prod.mk.inj he
    exact .modifyEntry h
  | setDefaultMember mbr =>
    obtain ⟨⟨r', t₁⟩, h, he⟩ := Option.map_eq_some_iff.mp hs
    obtain ⟨rfl, rfl⟩ := Prod.mk.inj he
    rw [setDefaultMember, isValidMbr, HandleMgr.validHandle] at h
    split_ifs at h with hv
    · obtain ⟨rfl, rfl⟩ := Prod.mk.inj (Option.some.inj h)
      exact .defaultRefused (by simpa using hv)
    · obtain ⟨x, hx, h⟩ := Option.bind_eq_some_iff.mp h
      obtain ⟨rfl, rfl⟩ := Prod.mk.inj (Option.some.inj h)
      exact .setDefaultMember (by simpa using hv) hx
  | getValue handle =>
    obtain ⟨_, -, he⟩ := Option.map_eq_some_iff.mp hs
    obtain rfl : t = t' := congrArg Prod.snd he
    exact .getValue
  | getEntry handle =>
    obtain ⟨_, -, he⟩ := Option.map_eq_some_iff.mp hs
    obtain rfl : t = t' := congrArg Prod.snd he
    exact .getEntry
  | getMember mbr =>
    obtain ⟨_, -, he⟩ := Option.map_eq_some_iff.mp hs
    obtain rfl : t = t' := congrArg Prod.snd he
    exact .getMember
  | base op =>
    obtain ⟨⟨r', u⟩, h, he⟩ := Option.map_eq_some_iff.mp hs
    obtain ⟨rfl, rfl⟩ := Prod.mk.inj he
    exact .base h

end MatchTableIndirect

namespace MatchTableIndirectWS

variable {K S : Type} {t t' : MatchTableIndirectWS K S}

theorem createGroup_cases {r : Result ℕ} (h : t.createGroup = some (r, t')) :
    (∃ e, r = .error e ∧ t' = t) ∨
    ∃ (x : IndirectIndex) (c : IndirectIndexRefCount),
      t.grpHandles.firstEmpty ≤ t.groupEntries.length ∧
      makeGrpIndex t.grpHandles.firstEmpty = some x ∧ t.indexRefCount.set x 0 = some c ∧
      r = .ok t.grpHandles.firstEmpty ∧
      t' = { t with
        grpHandles := ⟨insert t.grpHandles.firstEmpty t.grpHandles.handles⟩
        indexRefCount := c
        numGroups := t.numGroups + 1
        groupEntries := pushOrSet t.groupEntries t.grpHandles.firstEmpty {} } := by
  rw [createGroup, HandleMgr.getHandle] at h
  by_cases h64 : t.grpHandles.firstEmpty < 2 ^ 64
  · simp only [h64, ↓reduceIte] at h
    obtain ⟨t₁, h₁, h⟩ := Option.bind_eq_some_iff.mp h
    rw [groupsInsert] at h₁
    split_ifs at h₁ with hle
    obtain ⟨x, hx, h₁⟩ := Option.bind_eq_some_iff.mp h₁
    obtain ⟨c, hc, h₁⟩ := Option.bind_eq_some_iff.mp h₁
    obtain rfl := Option.some.inj h₁
    obtain ⟨rfl, rfl⟩ := Prod.mk.inj (Option.some.inj h)
    exact .inr ⟨x, c, hle, hx, hc, rfl, rfl⟩
  · simp only [h64, ↓reduceIte, Option.some.injEq, Prod.mk.injEq] at h
    exact .inl ⟨_, h.1.symm, h.2.symm⟩

/-- The loop of `delete_group` over the members. -/
def releaseAll (c : IndirectIndexRefCount) (l : List ℕ) : Option IndirectIndexRefCount :=
  l.foldlM (fun c mbr => do c.decrease (← makeMbrIndex mbr)) c

theorem deleteGroup_cases {grp : ℕ} {r : Result Unit} (h : t.deleteGroup grp = some (r, t')) :
    (∃ e, r = .error e ∧ t' = t) ∨
    ∃ (x : IndirectIndex) (g : GroupInfo) (c : IndirectIndexRefCount),
      grp ∈ t.grpHandles.handles ∧ makeGrpIndex grp = some x ∧
      t.indexRefCount.get x = some 0 ∧ t.groupEntries[grp]? = some g ∧
      releaseAll t.indexRefCount g.toList = some c ∧ r = .ok () ∧
      t' = { t with
        indexRefCount := c
        grpHandles := ⟨t.grpHandles.handles.erase grp⟩
        numGroups := t.numGroups - 1 } := by
  rw [deleteGroup, isValidGrp, HandleMgr.validHandle] at h
  by_cases hg : grp ∈ t.grpHandles.handles
  · simp only [hg, decide_true, Bool.not_true, Bool.false_eq_true, ↓reduceIte] at h
    obtain ⟨x, hx, h⟩ := Option.bind_eq_some_iff.mp h
    obtain ⟨n, hn, h⟩ := Option.bind_eq_some_iff.mp h
    by_cases hpos : n > 0
    · simp only [hpos, ↓reduceIte, Option.some.injEq, Prod.mk.injEq] at h
      exact .inl ⟨_, h.1.symm, h.2.symm⟩
    · obtain rfl : n = 0 := by omega
      simp only [gt_iff_lt, lt_self_iff_false, ↓reduceIte] at h
      obtain ⟨g, hget, h⟩ := Option.bind_eq_some_iff.mp h
      obtain ⟨c, hc, h⟩ := Option.bind_eq_some_iff.mp h
      simp only [HandleMgr.releaseHandle, hg, decide_true, Option.some.injEq, Prod.mk.injEq] at h
      exact .inr ⟨x, g, c, hg, hx, hn, hget, hc, h.1.symm, h.2.symm⟩
  · simp only [hg, decide_false, Bool.not_false, ↓reduceIte, Option.some.injEq,
      Prod.mk.injEq] at h
    exact .inl ⟨_, h.1.symm, h.2.symm⟩

theorem addMemberToGroup_cases {mbr grp : ℕ} {r : Result Unit}
    (h : t.addMemberToGroup mbr grp = some (r, t')) :
    (∃ e, r = .error e ∧ t' = t) ∨
    ∃ (x : IndirectIndex) (g : GroupInfo) (c : IndirectIndexRefCount),
      mbr ∈ t.mbrHandles.handles ∧ grp ∈ t.grpHandles.handles ∧ t.groupEntries[grp]? = some g ∧
      mbr ∉ g.mbrs ∧ makeMbrIndex mbr = some x ∧ t.indexRefCount.increase x = some c ∧
      r = .ok () ∧
      t' = { t with
        indexRefCount := c
        groupEntries := t.groupEntries.set grp ⟨insert mbr g.mbrs⟩ } := by
  rw [addMemberToGroup, MatchTableIndirect.isValidMbr, isValidGrp, HandleMgr.validHandle,
    HandleMgr.validHandle] at h
  by_cases hm : mbr ∈ t.mbrHandles.handles
  · by_cases hg : grp ∈ t.grpHandles.handles
    · simp only [hm, hg, decide_true, Bool.not_true, Bool.false_eq_true, ↓reduceIte] at h
      obtain ⟨g, hget, h⟩ := Option.bind_eq_some_iff.mp h
      by_cases hin : mbr ∈ g.mbrs
      · simp only [GroupInfo.addMember, hin, ↓reduceIte, Option.some.injEq, Prod.mk.injEq] at h
        exact .inl ⟨_, h.1.symm, h.2.symm⟩
      · simp only [GroupInfo.addMember, hin, ↓reduceIte] at h
        obtain ⟨x, hx, h⟩ := Option.bind_eq_some_iff.mp h
        obtain ⟨c, hc, h⟩ := Option.bind_eq_some_iff.mp h
        simp only [Option.some.injEq, Prod.mk.injEq] at h
        exact .inr ⟨x, g, c, hm, hg, hget, hin, hx, hc, h.1.symm, h.2.symm⟩
    · simp only [hm, hg, decide_true, decide_false, Bool.not_true, Bool.not_false,
        Bool.false_eq_true, ↓reduceIte, Option.some.injEq, Prod.mk.injEq] at h
      exact .inl ⟨_, h.1.symm, h.2.symm⟩
  · simp only [hm, decide_false, Bool.not_false, ↓reduceIte, Option.some.injEq,
      Prod.mk.injEq] at h
    exact .inl ⟨_, h.1.symm, h.2.symm⟩

theorem removeMemberFromGroup_cases {mbr grp : ℕ} {r : Result Unit}
    (h : t.removeMemberFromGroup mbr grp = some (r, t')) :
    (∃ e, r = .error e ∧ t' = t) ∨
    ∃ (x : IndirectIndex) (g : GroupInfo) (c : IndirectIndexRefCount),
      mbr ∈ t.mbrHandles.handles ∧ grp ∈ t.grpHandles.handles ∧ t.groupEntries[grp]? = some g ∧
      mbr ∈ g.mbrs ∧ makeMbrIndex mbr = some x ∧ t.indexRefCount.decrease x = some c ∧
      r = .ok () ∧
      t' = { t with
        indexRefCount := c
        groupEntries := t.groupEntries.set grp ⟨g.mbrs.erase mbr⟩ } := by
  rw [removeMemberFromGroup, MatchTableIndirect.isValidMbr, isValidGrp, HandleMgr.validHandle,
    HandleMgr.validHandle] at h
  by_cases hm : mbr ∈ t.mbrHandles.handles
  · by_cases hg : grp ∈ t.grpHandles.handles
    · simp only [hm, hg, decide_true, Bool.not_true, Bool.false_eq_true, ↓reduceIte] at h
      obtain ⟨g, hget, h⟩ := Option.bind_eq_some_iff.mp h
      by_cases hin : mbr ∈ g.mbrs
      · simp only [GroupInfo.deleteMember, hin, ↓reduceIte] at h
        obtain ⟨x, hx, h⟩ := Option.bind_eq_some_iff.mp h
        obtain ⟨c, hc, h⟩ := Option.bind_eq_some_iff.mp h
        simp only [Option.some.injEq, Prod.mk.injEq] at h
        exact .inr ⟨x, g, c, hm, hg, hget, hin, hx, hc, h.1.symm, h.2.symm⟩
      · simp only [GroupInfo.deleteMember, hin, ↓reduceIte, Option.some.injEq,
          Prod.mk.injEq] at h
        exact .inl ⟨_, h.1.symm, h.2.symm⟩
    · simp only [hm, hg, decide_true, decide_false, Bool.not_true, Bool.not_false,
        Bool.false_eq_true, ↓reduceIte, Option.some.injEq, Prod.mk.injEq] at h
      exact .inl ⟨_, h.1.symm, h.2.symm⟩
  · simp only [hm, decide_false, Bool.not_false, ↓reduceIte, Option.some.injEq,
      Prod.mk.injEq] at h
    exact .inl ⟨_, h.1.symm, h.2.symm⟩

theorem liftIndirect_eq_some {α : Type} {p : Option (α × MatchTableIndirect K S)} {r : α}
    (h : t.liftIndirect p = some (r, t')) :
    ∃ t₁, p = some (r, t₁) ∧ t' = { t with toMatchTableIndirect := t₁ } := by
  obtain ⟨⟨r', t₁⟩, hp, he⟩ := Option.map_eq_some_iff.mp h
  obtain ⟨rfl, rfl⟩ := Prod.mk.inj he
  exact ⟨t₁, hp, rfl⟩

/-- The group check passes exactly for a live group that is not empty. -/
theorem checkGrp_ok_iff {grp : ℕ} : t.checkGrp grp = some (.ok ()) ↔
    grp ∈ t.grpHandles.handles ∧ ∃ g, t.groupEntries[grp]? = some g ∧ g.mbrs.Nonempty := by
  rw [checkGrp, isValidGrp, HandleMgr.validHandle]
  by_cases hg : grp ∈ t.grpHandles.handles
  · cases hget : t.groupEntries[grp]? with
    | none => simp [hg]
    | some g =>
      by_cases hemp : g.mbrs = ∅
      · simp [hg, GroupInfo.size, hemp]
      · simp [hg, GroupInfo.size, hemp, Finset.nonempty_iff_ne_empty]
  · simp [hg]

section Steps

variable [MatchKey K] {L : LookupStructure K S}

/-- What each call of the table is, with the work that is left once the target is known. -/
inductive Steps (L : LookupStructure K S) (t : MatchTableIndirectWS K S) :
    Op → Result TableReply → MatchTableIndirectWS K S → Prop
  | indirect {op : MatchTableIndirect.Op} {r : Result TableReply} {t₁ : MatchTableIndirect K S}
      (h : t.toMatchTableIndirect.step L op = some (r, t₁)) :
      Steps L t (.indirect op) r { t with toMatchTableIndirect := t₁ }
  | createGroup {r : Result ℕ} {t' : MatchTableIndirectWS K S}
      (h : t.createGroup = some (r, t')) : Steps L t .createGroup (r.map .grp) t'
  | deleteGroup {grp : ℕ} {r : Result Unit} {t' : MatchTableIndirectWS K S}
      (h : t.deleteGroup grp = some (r, t')) :
      Steps L t (.deleteGroup grp) (r.map fun _ => .done) t'
  | addMemberToGroup {mbr grp : ℕ} {r : Result Unit} {t' : MatchTableIndirectWS K S}
      (h : t.addMemberToGroup mbr grp = some (r, t')) :
      Steps L t (.addMemberToGroup mbr grp) (r.map fun _ => .done) t'
  | removeMemberFromGroup {mbr grp : ℕ} {r : Result Unit} {t' : MatchTableIndirectWS K S}
      (h : t.removeMemberFromGroup mbr grp = some (r, t')) :
      Steps L t (.removeMemberFromGroup mbr grp) (r.map fun _ => .done) t'
  | addRefused {now : ℕ} {params : List MatchKeyParam} {grp : ℕ} {priority : ℤ}
      {code : MatchErrorCode} (hcheck : t.checkGrp grp = some (.error code)) :
      Steps L t (.addEntryWs now params grp priority) (.error code) t
  | addEntryWs {now : ℕ} {params : List MatchKeyParam} {grp : ℕ} {priority : ℤ}
      {x : IndirectIndex} {r : Result ℕ} {t₁ : MatchTableIndirect K S}
      (hcheck : t.checkGrp grp = some (.ok ())) (hx : makeGrpIndex grp = some x)
      (h : t.toMatchTableIndirect.addIndexed L now params x priority = some (r, t₁)) :
      Steps L t (.addEntryWs now params grp priority) (r.map .handle)
        { t with toMatchTableIndirect := t₁ }
  | modifyEntryWs {handle grp : ℕ} {r : Result Unit} {t₁ : MatchTableIndirect K S}
      (h : t.toMatchTableIndirect.modifyIndexed handle (t.checkGrp grp) (makeGrpIndex grp) =
        some (r, t₁)) :
      Steps L t (.modifyEntryWs handle grp) (r.map fun _ => .done)
        { t with toMatchTableIndirect := t₁ }
  | defaultRefused {grp : ℕ} (hg : grp ∉ t.grpHandles.handles) :
      Steps L t (.setDefaultGroup grp) (.error .invalidGrpHandle) t
  | setDefaultGroup {grp : ℕ} {x : IndirectIndex} (hg : grp ∈ t.grpHandles.handles)
      (hx : makeGrpIndex grp = some x) : Steps L t (.setDefaultGroup grp) (.ok .done)
        { t with defaultIndex := x, defaultSet := true }
  | getEntry {handle : ℕ} {r : Result TableReply} : Steps L t (.getEntry handle) r t
  | getGroup {grp : ℕ} {r : Result TableReply} : Steps L t (.getGroup grp) r t
  | getNumMembersInGroup {grp : ℕ} {r : Result TableReply} :
      Steps L t (.getNumMembersInGroup grp) r t

theorem steps_of_step {op : Op} {r : Result TableReply} (hs : t.step L op = some (r, t')) :
    Steps L t op r t' := by
  cases op with
  | indirect op =>
    obtain ⟨t₁, h, rfl⟩ := liftIndirect_eq_some hs
    exact .indirect h
  | createGroup =>
    obtain ⟨⟨r', t₁⟩, h, he⟩ := Option.map_eq_some_iff.mp hs
    obtain ⟨rfl, rfl⟩ := Prod.mk.inj he
    exact .createGroup h
  | deleteGroup grp =>
    obtain ⟨⟨r', t₁⟩, h, he⟩ := Option.map_eq_some_iff.mp hs
    obtain ⟨rfl, rfl⟩ := Prod.mk.inj he
    exact .deleteGroup h
  | addMemberToGroup mbr grp =>
    obtain ⟨⟨r', t₁⟩, h, he⟩ := Option.map_eq_some_iff.mp hs
    obtain ⟨rfl, rfl⟩ := Prod.mk.inj he
    exact .addMemberToGroup h
  | removeMemberFromGroup mbr grp =>
    obtain ⟨⟨r', t₁⟩, h, he⟩ := Option.map_eq_some_iff.mp hs
    obtain ⟨rfl, rfl⟩ := Prod.mk.inj he
    exact .removeMemberFromGroup h
  | addEntryWs now params grp priority =>
    obtain ⟨⟨r', t₁⟩, h, he⟩ := Option.map_eq_some_iff.mp hs
    obtain ⟨rfl, rfl⟩ := Prod.mk.inj he
    obtain ⟨check, hcheck, h⟩ := Option.bind_eq_some_iff.mp h
    cases check with
    | error e =>
      obtain ⟨rfl, rfl⟩ := Prod.mk.inj (Option.some.inj h)
      exact .addRefused hcheck
    | ok u =>
      obtain ⟨x, hx, h⟩ := Option.bind_eq_some_iff.mp h
      obtain ⟨t₂, h₂, rfl⟩ := liftIndirect_eq_some h
      exact .addEntryWs hcheck hx h₂
  | modifyEntryWs handle grp =>
    obtain ⟨⟨r', t₁⟩, h, he⟩ := Option.map_eq_some_iff.mp hs
    obtain ⟨rfl, rfl⟩ := Prod.mk.inj he
    obtain ⟨t₂, h₂, rfl⟩ := liftIndirect_eq_some h
    exact .modifyEntryWs h₂
  | setDefaultGroup grp =>
    obtain ⟨⟨r', t₁⟩, h, he⟩ := Option.map_eq_some_iff.mp hs
    obtain ⟨rfl, rfl⟩ := Prod.mk.inj he
    rw [setDefaultGroup, isValidGrp, HandleMgr.validHandle] at h
    split_ifs at h with hv
    · obtain ⟨rfl, rfl⟩ := Prod.mk.inj (Option.some.inj h)
      exact .defaultRefused (by simpa using hv)
    · obtain ⟨x, hx, h⟩ := Option.bind_eq_some_iff.mp h
      obtain ⟨rfl, rfl⟩ := Prod.mk.inj (Option.some.inj h)
      exact .setDefaultGroup (by simpa using hv) hx
  | getEntry handle =>
    obtain ⟨_, -, he⟩ := Option.map_eq_some_iff.mp hs
    obtain rfl : t = t' := congrArg Prod.snd he
    exact .getEntry
  | getGroup grp =>
    obtain ⟨_, -, he⟩ := Option.map_eq_some_iff.mp hs
    obtain rfl : t = t' := congrArg Prod.snd he
    exact .getGroup
  | getNumMembersInGroup grp =>
    obtain ⟨_, -, he⟩ := Option.map_eq_some_iff.mp hs
    obtain rfl : t = t' := congrArg Prod.snd he
    exact .getNumMembersInGroup

end Steps

end MatchTableIndirectWS

end Bmv2
