import Bmv2.Lib.Transition
import Bmv2.Tables.Apply
import Bmv2.Tables.UnitStep

/-! Stale handles: a handle carries the version of its slot, and the version moves on with
every deletion. Histories record what a run has handed out and deleted. -/
namespace Bmv2

/-- What a call does to the handles of a table. -/
inductive HandleEvent where
  | issued (handle : ℕ)
  | deleted (handle : ℕ)

/-- The handles that `add_entry` has returned, those that `delete_entry` has deleted, and the
number of deletions in each slot. -/
structure History where
  issued : List ℕ := []
  deleted : List ℕ := []
  deletions : ℕ → ℕ := fun _ => 0

namespace History

def record (H : History) : Option HandleEvent → History
  | none => H
  | some (.issued handle) => { H with issued := handle :: H.issued }
  | some (.deleted handle) =>
    { H with
      deleted := handle :: H.deleted
      deletions := Function.update H.deletions (handleInternal handle)
        (H.deletions (handleInternal handle) + 1) }

/-- A handle that was returned and whose entry has been deleted since. -/
def Stale (H : History) (handle : ℕ) : Prop := handle ∈ H.issued ∧ handle ∈ H.deleted

/-- A step function that also records the history of its handles. -/
def observed {σ α : Type} (step : σ → α → Option (Result TableReply × σ))
    (event : α → Result TableReply → Option HandleEvent) (s : σ × History) (a : α) :
    Option (Result TableReply × (σ × History)) :=
  (step s.1 a).map fun p => (p.1, (p.2, s.2.record (event a p.1)))

/-- No slot has more deletions than the run. -/
theorem deletions_le {σ α : Type} {step : σ → α → Option (Result TableReply × σ)}
    {event : α → Result TableReply → Option HandleEvent} {init t : σ} {H : History}
    (hrun : Transition.Reach (observed step event) (fun _ _ => True) (init, {}) (t, H)) (i : ℕ) :
    H.deletions i ≤ H.deleted.length := by
  refine hrun.invariant (fun s => s.2.deletions i ≤ s.2.deleted.length) le_rfl ?_
  rintro ⟨t, H⟩ a r ⟨t', H'⟩ hle - hs
  obtain ⟨⟨r', t₁⟩, -, he⟩ := Option.map_eq_some_iff.mp hs
  obtain ⟨-, rfl⟩ := Prod.mk.inj (congrArg Prod.snd he)
  match event a r' with
  | none => exact hle
  | some (.issued _) => exact hle
  | some (.deleted handle) =>
    simp only [record, Function.update_apply, List.length_cons]
    split_ifs with hi
    · rw [← hi]
      exact Nat.succ_le_succ hle
    · exact Nat.le_succ_of_le hle

end History

namespace MatchUnit

variable {K V S : Type} [MatchKey K] {L : LookupStructure K S} {u u' : MatchUnit K V S}

/-- The current version of a slot. -/
def slotVersion (u : MatchUnit K V S) (i : ℕ) : Option ℕ :=
  u.entries[i]?.map fun e => MatchKey.version e.key

/-- How the versions of the slots move with an event. -/
def Evolves (u u' : MatchUnit K V S) : Option HandleEvent → Prop
  | some (.deleted handle) => (∃ e, u.checkHandle handle = some (.ok e)) ∧
    ∀ i, u'.slotVersion i = if i = handleInternal handle
      then (u.slotVersion i).map fun v => (v + 1) % 2 ^ 32 else u.slotVersion i
  | _ => ∀ i, u'.slotVersion i = u.slotVersion i

theorem Evolves.refl (u : MatchUnit K V S) : Evolves u u none := fun _ => rfl

theorem slotVersion_set {i : ℕ} {e : Entry K V} (hi : i < u.entries.length)
    (hu' : u'.entries = u.entries.set i e) (j : ℕ) : u'.slotVersion j =
      if j = i then some (MatchKey.version e.key) else u.slotVersion j := by
  rw [slotVersion, hu', List.getElem?_set]
  by_cases hji : j = i
  · subst hji
    simp [hi]
  · simp [hji, Ne.symm hji, slotVersion]

/-- An addition leaves the version of its slot as it finds it. -/
theorem addEntry_evolves (hwf : u.Wf) {now : ℕ} {params : List MatchKeyParam} {value : V}
    {priority : ℤ} {r : Result ℕ} (h : u.addEntry L now params value priority = some (r, u')) :
    u'.Wf ∧ ∀ i, u'.slotVersion i = u.slotVersion i := by
  rcases addEntry_cases hwf h with ⟨_, -, rfl, -⟩ |
    ⟨key, old, ls, m, -, -, -, -, hlt, hold, -, -, -, rfl⟩
  · exact ⟨hwf, fun _ => rfl⟩
  have hfree := u.handles.firstEmpty_notMem
  have hlen := (List.getElem?_eq_some_iff.mp hold).1
  refine ⟨hwf.installed hlt hfree ?_, fun i => ?_⟩
  · rw [MatchKey.version_setVersion]
    exact hwf.version_lt old (List.mem_of_getElem? hold)
  · rw [slotVersion_set hlen rfl, MatchKey.version_setVersion]
    split_ifs with hi
    · rw [hi, slotVersion, hold]
      rfl
    · rfl

theorem removed_evolves (hwf : u.Wf) {handle : ℕ} {e : Entry K V} {ls : S}
    (hc : u.checkHandle handle = some (.ok e)) :
    (u.removed (handleInternal handle) e ls).Wf ∧
      Evolves u (u.removed (handleInternal handle) e ls) (some (.deleted handle)) := by
  obtain ⟨hmem, hent, -⟩ := checkHandle_ok_iff.mp hc
  refine ⟨hwf.removed hmem, ⟨e, hc⟩, fun i => ?_⟩
  rw [slotVersion_set (List.getElem?_eq_some_iff.mp hent).1 rfl]
  split_ifs with hi
  · rw [hi, slotVersion, hent, bumped, MatchKey.version_setVersion]
    rfl
  · rfl

theorem rewritten_evolves (hwf : u.Wf) {handle : ℕ} {e : Entry K V} (value : V)
    (hc : u.checkHandle handle = some (.ok e)) :
    (u.rewritten (handleInternal handle) { e with value }).Wf ∧
      Evolves u (u.rewritten (handleInternal handle) { e with value }) none := by
  obtain ⟨-, hent, -⟩ := checkHandle_ok_iff.mp hc
  refine ⟨hwf.rewritten (hwf.version_lt e (List.mem_of_getElem? hent)), fun i => ?_⟩
  rw [slotVersion_set (List.getElem?_eq_some_iff.mp hent).1 rfl]
  split_ifs with hi
  · rw [hi, slotVersion, hent]
    rfl
  · rfl

/-- The version of a slot counts its deletions, and a deleted handle is behind. -/
structure StaleInv (u : MatchUnit K V S) (H : History) : Prop where
  wf : u.Wf
  version : ∀ i v, u.slotVersion i = some v → v = H.deletions i % 2 ^ 32
  behind : ∀ h ∈ H.deleted, handleVersion h < H.deletions (handleInternal h)

theorem StaleInv.create [Inhabited V] {size : ℕ} (hsize : size ≤ 2 ^ 32) (kb : MatchKeyBuilder)
    (ls : S) : StaleInv (MatchUnit.create size kb ls : MatchUnit K V S) {} := by
  refine ⟨.create hsize kb ls, fun i v hv => ?_, by simp⟩
  obtain ⟨e, he, rfl⟩ := Option.map_eq_some_iff.mp hv
  obtain ⟨-, rfl⟩ := List.mem_replicate.mp (List.mem_of_getElem? he)
  exact MatchKey.version_default

theorem StaleInv.evolve {H : History} (h : StaleInv u H) {event : Option HandleEvent}
    (hev : u'.Wf ∧ Evolves u u' event) : StaleInv u' (H.record event) := by
  obtain ⟨hwf, hev⟩ := hev
  match event, hev with
  | none, hev => exact ⟨hwf, fun i v hv => h.version i v (hev i ▸ hv), h.behind⟩
  | some (.issued handle), hev => exact ⟨hwf, fun i v hv => h.version i v (hev i ▸ hv), h.behind⟩
  | some (.deleted handle), ⟨⟨e, hc⟩, hver⟩ =>
    obtain ⟨-, hent, hcur⟩ := checkHandle_ok_iff.mp hc
    have hold := h.version (handleInternal handle) (MatchKey.version e.key)
      (by rw [slotVersion, hent]; rfl)
    refine ⟨hwf, fun i v hv => ?_, fun h' hh' => ?_⟩
    · rw [hver i] at hv
      simp only [History.record, Function.update_apply]
      by_cases hi : i = handleInternal handle
      · rw [if_pos hi] at hv ⊢
        obtain ⟨v₀, hv₀, rfl⟩ := Option.map_eq_some_iff.mp hv
        have := h.version i v₀ hv₀
        rw [hi] at this
        omega
      · rw [if_neg hi] at hv ⊢
        exact h.version i v hv
    · simp only [History.record, Function.update_apply]
      rcases List.mem_cons.mp hh' with rfl | hmem
      · rw [if_pos rfl, hcur, hold]
        have := Nat.mod_le (H.deletions (handleInternal h')) (2 ^ 32)
        omega
      · have := h.behind h' hmem
        split_ifs with hi
        · rw [hi] at this
          omega
        · exact this

/-- With fewer than `2 ^ 32` deletions per slot, a deleted handle fails the check. -/
theorem StaleInv.checkHandle {H : History} (h : StaleInv u H) (hcount : ∀ i, H.deletions i < 2 ^ 32)
    {handle : ℕ} (hdel : handle ∈ H.deleted) :
    ∃ code, u.checkHandle handle = some (.error code) := by
  obtain ⟨r, hr⟩ := h.wf.checkHandle_some handle
  cases r with
  | error code => exact ⟨code, hr⟩
  | ok e =>
    obtain ⟨-, hent, hcur⟩ := checkHandle_ok_iff.mp hr
    have hver := h.version (handleInternal handle) (MatchKey.version e.key)
      (by rw [slotVersion, hent]; rfl)
    rw [Nat.mod_eq_of_lt (hcount _), ← hcur] at hver
    exact absurd (h.behind handle hdel) (by omega)

section Refused

variable {handle : ℕ} {code : MatchErrorCode} (hc : u.checkHandle handle = some (.error code))
include hc

theorem deleteEntry_refused : u.deleteEntry L handle = some (.error code, u) := by
  simp [deleteEntry, hc]

theorem modifyEntry_refused (value : V) : u.modifyEntry handle value = some (.error code, u) := by
  simp [modifyEntry, hc]

theorem getValue_refused : u.getValue handle = some (.error code) := by
  simp [getValue, hc]

theorem getEntry_refused : u.getEntry handle = some (.error code) := by
  simp [getEntry, hc]

end Refused

end MatchUnit

namespace MatchTableAbstract

variable {K V S : Type} {b : MatchTableAbstract} {u : MatchUnit K V S}

/-- A shared call that the handle's slot alone decides is refused without any effect: its
feature is off, the slot holds no entry, or the rates do not fit the meter. -/
def Refuses (b : MatchTableAbstract) (u : MatchUnit K V S) : Op → Prop
  | .queryCounters handle | .writeCounters handle _ _ =>
    b.withCounters = false ∨ handleInternal handle ∉ u.handles.handles
  | .resetCounters => b.withCounters = false
  | .setMeterRates handle configs =>
    b.withMeters = false ∨ handleInternal handle ∉ u.handles.handles ∨
      ∃ meters meter, u.directMeters = some meters ∧
        meters[handleInternal handle]? = some meter ∧ configs.length ≠ meter.rates.length
  | .setEntryTtl handle _ =>
    b.withAgeing = false ∨ handleInternal handle ∉ u.handles.handles

theorem step_refused {op : Op} (h : b.Refuses u op) :
    ∃ code, b.step u op = some (.error code, u) := by
  cases op with
  | queryCounters handle =>
    rcases h with h | h
    · exact ⟨.countersDisabled, by simp [step, queryCounters, h, Except.map]⟩
    · cases hw : b.withCounters with
      | false => exact ⟨.countersDisabled, by simp [step, queryCounters, hw, Except.map]⟩
      | true => exact ⟨.invalidHandle, by simp [step, queryCounters, hw, MatchUnit.validHandle,
          MatchUnit.validHandle_, HandleMgr.validHandle, h, Except.map]⟩
  | resetCounters =>
    have h : b.withCounters = false := h
    exact ⟨.countersDisabled, by simp [step, resetCounters, h, Except.map]⟩
  | writeCounters handle bytes packets =>
    rcases h with h | h
    · exact ⟨.countersDisabled, by simp [step, writeCounters, h, Except.map]⟩
    · cases hw : b.withCounters with
      | false => exact ⟨.countersDisabled, by simp [step, writeCounters, hw, Except.map]⟩
      | true => exact ⟨.invalidHandle, by simp [step, writeCounters, hw, MatchUnit.validHandle,
          MatchUnit.validHandle_, HandleMgr.validHandle, h, Except.map]⟩
  | setMeterRates handle configs =>
    cases hw : b.withMeters with
    | false => exact ⟨.metersDisabled, by simp [step, setMeterRates, hw, Except.map]⟩
    | true =>
      by_cases hm : handleInternal handle ∈ u.handles.handles
      · rcases h with h | h | ⟨meters, meter, h1, h2, h3⟩
        · simp [hw] at h
        · exact absurd hm h
        · have hset : meters.set (handleInternal handle) meter = meters := by
            obtain ⟨hlt, rfl⟩ := List.getElem?_eq_some_iff.mp h2
            exact List.set_getElem_self hlt
          refine ⟨.error, ?_⟩
          simp [step, setMeterRates, hw, MatchUnit.validHandle, MatchUnit.validHandle_,
            HandleMgr.validHandle, hm, h1, h2, Meter.setRates, h3, hset, Except.map]
          rw [← h1]
      · exact ⟨.invalidHandle, by simp [step, setMeterRates, hw, MatchUnit.validHandle,
          MatchUnit.validHandle_, HandleMgr.validHandle, hm, Except.map]⟩
  | setEntryTtl handle ttlMs =>
    rcases h with h | h
    · exact ⟨.ageingDisabled, by simp [step, setEntryTtl, h, Except.map]⟩
    · cases hw : b.withAgeing with
      | false => exact ⟨.ageingDisabled, by simp [step, setEntryTtl, hw, Except.map]⟩
      | true => exact ⟨.invalidHandle, by simp [step, setEntryTtl, hw, MatchUnit.setEntryTtl,
          MatchUnit.validHandle_, HandleMgr.validHandle, h, Except.map]⟩

/-- The handle that a shared call names, if any. -/
def Op.handle? : Op → Option ℕ
  | .queryCounters handle | .writeCounters handle _ _ | .setMeterRates handle _
  | .setEntryTtl handle _ => some handle
  | .resetCounters => none

theorem step_evolves [MatchKey K] {u' : MatchUnit K V S} (hwf : u.Wf) {op : Op}
    {r : Result TableReply} (h : b.step u op = some (r, u')) :
    u'.Wf ∧ MatchUnit.Evolves u u' none := by
  refine ⟨step_wf hwf h, fun i => ?_⟩
  obtain ⟨_, _, -, rfl⟩ := step_cases h
  rfl

end MatchTableAbstract

/-- The event of a call on the match unit. -/
def UnitCall.event : UnitCall → Option HandleEvent
  | .add handle => some (.issued handle)
  | .delete handle => some (.deleted handle)
  | .shared _ | .other => none

theorem UnitStep.evolves {K V S : Type} [MatchKey K] {L : LookupStructure K S}
    {b : MatchTableAbstract} {u u' : MatchUnit K V S} {call : UnitCall} (hwf : u.Wf)
    (h : UnitStep L b u call u') : u'.Wf ∧ u.Evolves u' call.event := by
  cases h with
  | same => exact ⟨hwf, .refl _⟩
  | added h => exact MatchUnit.addEntry_evolves hwf h
  | removed hc hls => exact MatchUnit.removed_evolves hwf hc
  | rewritten value hc => exact MatchUnit.rewritten_evolves hwf value hc
  | shared h => exact MatchTableAbstract.step_evolves hwf h

namespace MatchTable

variable {K S : Type} [MatchKey K] {L : LookupStructure K S} {t t' : MatchTable K S}

def event : Op → Result TableReply → Option HandleEvent
  | .addEntry .., .ok (.handle handle) => some (.issued handle)
  | .deleteEntry handle, .ok _ => some (.deleted handle)
  | _, _ => none

theorem event_unitCall (op : Op) (r : Result TableReply) : event op r = (unitCall op r).event := by
  rcases r with code | reply
  · cases op <;> rfl
  · cases op <;> cases reply <;> rfl

theorem step_evolves (hwf : t.matchUnit.Wf) {op : Op} {r : Result TableReply}
    (hs : t.step L op = some (r, t')) :
    t'.matchUnit.Wf ∧ t.matchUnit.Evolves t'.matchUnit (event op r) := by
  rw [event_unitCall]
  exact (step_unit hwf hs).1.evolves hwf

/-- The calls that name an entry handle. -/
def Op.handle? : Op → Option ℕ
  | .deleteEntry handle | .modifyEntry handle _ _ | .getValue handle | .getEntry handle =>
    some handle
  | .base op => op.handle?
  | .addEntry .. | .setDefaultAction .. => none

/-- A call reaches its handle check, or is a shared call that is refused anyway. -/
def Checks (t : MatchTable K S) : Op → Prop
  | .modifyEntry _ actionFn _ => (t.base.getNextNode actionFn).isSome
  | .base op => t.base.Refuses t.matchUnit op
  | _ => True

theorem step_refused {op : Op} {handle : ℕ} {code : MatchErrorCode} (hop : op.handle? = some handle)
    (hcheck : t.Checks op) (hc : t.matchUnit.checkHandle handle = some (.error code)) :
    ∃ code, t.step L op = some (.error code, t) := by
  cases op with
  | addEntry => simp [Op.handle?] at hop
  | setDefaultAction => simp [Op.handle?] at hop
  | deleteEntry h =>
    obtain rfl : h = handle := by simpa [Op.handle?] using hop
    exact ⟨code, by simp [step, deleteEntry, MatchUnit.deleteEntry_refused hc, Except.map]⟩
  | modifyEntry h actionFn actionData =>
    obtain rfl : h = handle := by simpa [Op.handle?] using hop
    obtain ⟨nextNode, hn⟩ := Option.isSome_iff_exists.mp hcheck
    exact ⟨code, by simp [step, modifyEntry, hn, MatchUnit.modifyEntry_refused hc, Except.map]⟩
  | getValue h =>
    obtain rfl : h = handle := by simpa [Op.handle?] using hop
    exact ⟨code, by simp [step, MatchUnit.getValue_refused hc, Except.map]⟩
  | getEntry h =>
    obtain rfl : h = handle := by simpa [Op.handle?] using hop
    exact ⟨code, by simp [step, MatchUnit.getEntry_refused hc, Except.map]⟩
  | base op =>
    obtain ⟨code, h⟩ := MatchTableAbstract.step_refused hcheck
    exact ⟨code, by simp [step, h]⟩

end MatchTable

namespace MatchTableIndirect

variable {K S : Type} [MatchKey K] {L : LookupStructure K S} {t t' : MatchTableIndirect K S}

def event : Op → Result TableReply → Option HandleEvent
  | .addEntry .., .ok (.handle handle) => some (.issued handle)
  | .deleteEntry handle, .ok _ => some (.deleted handle)
  | _, _ => none

theorem event_unitCall (op : Op) (r : Result TableReply) : event op r = (unitCall op r).event := by
  rcases r with code | reply
  · cases op <;> rfl
  · cases op <;> cases reply <;> rfl

theorem step_evolves (hwf : t.matchUnit.Wf) {op : Op} {r : Result TableReply}
    (hs : t.step L op = some (r, t')) :
    t'.matchUnit.Wf ∧ t.matchUnit.Evolves t'.matchUnit (event op r) := by
  rw [event_unitCall]
  exact (step_unit hwf hs).1.evolves hwf

/-- The calls that name an entry handle. -/
def Op.handle? : Op → Option ℕ
  | .deleteEntry handle | .modifyEntry handle _ | .getValue handle | .getEntry handle =>
    some handle
  | .base op => op.handle?
  | .addMember .. | .deleteMember _ | .modifyMember .. | .addEntry .. | .setDefaultMember _
  | .getMember _ => none

def Checks (t : MatchTableIndirect K S) : Op → Prop
  | .base op => t.base.Refuses t.matchUnit op
  | _ => True

theorem modifyIndexed_refused {handle : ℕ} {code : MatchErrorCode}
    (hc : t.matchUnit.checkHandle handle = some (.error code)) (check : Option (Result Unit))
    (new : Option IndirectIndex) : t.modifyIndexed handle check new = some (.error code, t) := by
  simp [modifyIndexed, MatchUnit.getValue_refused hc]

theorem step_refused {op : Op} {handle : ℕ} {code : MatchErrorCode} (hop : op.handle? = some handle)
    (hcheck : t.Checks op) (hc : t.matchUnit.checkHandle handle = some (.error code)) :
    ∃ code, t.step L op = some (.error code, t) := by
  cases op with
  | addMember | deleteMember | modifyMember | addEntry | setDefaultMember | getMember =>
    simp [Op.handle?] at hop
  | deleteEntry h =>
    obtain rfl : h = handle := by simpa [Op.handle?] using hop
    exact ⟨code, by simp [step, deleteEntry, MatchUnit.getValue_refused hc, Except.map]⟩
  | modifyEntry h mbr =>
    obtain rfl : h = handle := by simpa [Op.handle?] using hop
    exact ⟨code, by simp [step, modifyEntry, modifyIndexed_refused hc, Except.map]⟩
  | getValue h =>
    obtain rfl : h = handle := by simpa [Op.handle?] using hop
    exact ⟨code, by simp [step, MatchUnit.getValue_refused hc, Except.map]⟩
  | getEntry h =>
    obtain rfl : h = handle := by simpa [Op.handle?] using hop
    exact ⟨code, by simp [step, getEntry, MatchUnit.getEntry_refused hc, Except.map]⟩
  | base op =>
    obtain ⟨code, h⟩ := MatchTableAbstract.step_refused hcheck
    exact ⟨code, by simp [step, h]⟩

end MatchTableIndirect

namespace MatchTableIndirectWS

variable {K S : Type} [MatchKey K] {L : LookupStructure K S} {t t' : MatchTableIndirectWS K S}

def event : Op → Result TableReply → Option HandleEvent
  | .indirect op, r => MatchTableIndirect.event op r
  | .addEntryWs .., .ok (.handle handle) => some (.issued handle)
  | _, _ => none

theorem event_unitCall (op : Op) (r : Result TableReply) : event op r = (unitCall op r).event := by
  rcases r with code | reply
  · cases op with
    | indirect op => exact MatchTableIndirect.event_unitCall op _
    | _ => rfl
  · cases op with
    | indirect op => exact MatchTableIndirect.event_unitCall op _
    | _ => cases reply <;> rfl

theorem step_evolves (hwf : t.matchUnit.Wf) {op : Op} {r : Result TableReply}
    (hs : t.step L op = some (r, t')) :
    t'.matchUnit.Wf ∧ t.matchUnit.Evolves t'.matchUnit (event op r) := by
  rw [event_unitCall]
  exact (step_unit hwf hs).1.evolves hwf

/-- The calls that name an entry handle. -/
def Op.handle? : Op → Option ℕ
  | .indirect op => op.handle?
  | .modifyEntryWs handle _ | .getEntry handle => some handle
  | .createGroup | .deleteGroup _ | .addMemberToGroup .. | .removeMemberFromGroup ..
  | .addEntryWs .. | .setDefaultGroup _ | .getGroup _ | .getNumMembersInGroup _ => none

def Checks (t : MatchTableIndirectWS K S) : Op → Prop
  | .indirect op => t.toMatchTableIndirect.Checks op
  | _ => True

theorem step_refused {op : Op} {handle : ℕ} {code : MatchErrorCode} (hop : op.handle? = some handle)
    (hcheck : t.Checks op) (hc : t.matchUnit.checkHandle handle = some (.error code)) :
    ∃ code, t.step L op = some (.error code, t) := by
  cases op with
  | createGroup | deleteGroup | addMemberToGroup | removeMemberFromGroup | addEntryWs
  | setDefaultGroup | getGroup | getNumMembersInGroup => simp [Op.handle?] at hop
  | indirect op =>
    obtain ⟨code, h⟩ := MatchTableIndirect.step_refused (L := L) hop hcheck hc
    exact ⟨code, by simp [step, liftIndirect, h]⟩
  | modifyEntryWs h grp =>
    obtain rfl : h = handle := by simpa [Op.handle?] using hop
    exact ⟨code, by simp [step, modifyEntryWs, liftIndirect,
      MatchTableIndirect.modifyIndexed_refused hc, Except.map]⟩
  | getEntry h =>
    obtain rfl : h = handle := by simpa [Op.handle?] using hop
    exact ⟨code, by simp [step, getEntry, MatchUnit.getEntry_refused hc, Except.map]⟩

end MatchTableIndirectWS

section Runs

variable {K V S σ α : Type} [MatchKey K] {step : σ → α → Option (Result TableReply × σ)}
  {event : α → Result TableReply → Option HandleEvent}

/-- The invariant along every run of a table whose calls move the versions with their events. -/
theorem MatchUnit.StaleInv.run (unit : σ → MatchUnit K V S) {init t : σ} {H : History}
    (hinit : StaleInv (unit init) {})
    (hrun : Transition.Reach (History.observed step event) (fun _ _ => True) (init, {}) (t, H))
    (hstep : ∀ t a r t', (unit t).Wf → step t a = some (r, t') →
      (unit t').Wf ∧ Evolves (unit t) (unit t') (event a r)) :
    StaleInv (unit t) H := by
  refine hrun.invariant (fun s => StaleInv (unit s.1) s.2) hinit ?_
  rintro ⟨t, H⟩ a r ⟨t', H'⟩ hinv - hs
  obtain ⟨⟨r', t₁⟩, hs', he⟩ := Option.map_eq_some_iff.mp hs
  obtain ⟨rfl, rfl⟩ := Prod.mk.inj (congrArg Prod.snd he)
  exact hinv.evolve (hstep t a r' t₁ hinv.wf hs')

variable {L : LookupStructure K S}

/-- Attaching meters moves no version. -/
theorem MatchUnit.StaleInv.setDirectMeters {u u' : MatchUnit K V S} {H : History}
    (h : StaleInv u H) {meters : List Meter} (hs : u.setDirectMeters meters = some u') :
    StaleInv u' H := by
  rw [MatchUnit.setDirectMeters] at hs
  split_ifs at hs
  obtain rfl := Option.some.inj hs
  exact ⟨h.wf.frame _ rfl, h.version, h.behind⟩

/-- In every run with fewer than `2 ^ 32` deletions per slot, with direct meters or without, a
call with a stale handle returns an error and changes nothing, whether or not its slot is in
use again, if it checks the version of the handle or its slot alone refuses it. -/
theorem stale_handle_refused {size : ℕ} (hsize : size ≤ 2 ^ 32) (base : MatchTableAbstract)
    (kb : MatchKeyBuilder) (ls : S) (handle : ℕ) (H : History)
    (hcount : ∀ i, H.deletions i < 2 ^ 32) (hstale : H.Stale handle) :
    (∀ init t : MatchTable K S,
      SetUp MatchTable.setDirectMeters (MatchTable.create base size kb ls) init →
      Transition.Reach (History.observed (MatchTable.step L) MatchTable.event)
        (fun _ _ => True) (init, {}) (t, H) →
      ∀ op : MatchTable.Op, op.handle? = some handle → t.Checks op →
        ∃ code, t.step L op = some (.error code, t)) ∧
    (∀ init t : MatchTableIndirect K S,
      SetUp MatchTableIndirect.setDirectMeters (MatchTableIndirect.create base size kb ls) init →
      Transition.Reach (History.observed (MatchTableIndirect.step L) MatchTableIndirect.event)
        (fun _ _ => True) (init, {}) (t, H) →
      ∀ op : MatchTableIndirect.Op, op.handle? = some handle → t.Checks op →
        ∃ code, t.step L op = some (.error code, t)) ∧
    (∀ init t : MatchTableIndirectWS K S,
      SetUp MatchTableIndirectWS.setDirectMeters
        (MatchTableIndirectWS.create base size kb ls) init →
      Transition.Reach (History.observed (MatchTableIndirectWS.step L) MatchTableIndirectWS.event)
        (fun _ _ => True) (init, {}) (t, H) →
      ∀ op : MatchTableIndirectWS.Op, op.handle? = some handle → t.Checks op →
        ∃ code, t.step L op = some (.error code, t)) := by
  refine ⟨fun init t hinit hrun op hop hcheck => ?_, fun init t hinit hrun op hop hcheck => ?_,
    fun init t hinit hrun op hop hcheck => ?_⟩
  · have hstart : MatchUnit.StaleInv init.matchUnit {} := by
      rcases hinit with rfl | ⟨meters, hm⟩
      · exact .create hsize kb ls
      · obtain ⟨u, hu, rfl⟩ := Option.map_eq_some_iff.mp hm
        exact MatchUnit.StaleInv.setDirectMeters (.create hsize kb ls) hu
    have hinv := MatchUnit.StaleInv.run MatchTable.matchUnit hstart
      hrun fun _ _ _ _ hwf hs => MatchTable.step_evolves hwf hs
    obtain ⟨code, hc⟩ := hinv.checkHandle hcount hstale.2
    exact MatchTable.step_refused hop hcheck hc
  · have hstart : MatchUnit.StaleInv init.matchUnit {} := by
      rcases hinit with rfl | ⟨meters, hm⟩
      · exact .create hsize kb ls
      · obtain ⟨u, hu, rfl⟩ := Option.map_eq_some_iff.mp hm
        exact MatchUnit.StaleInv.setDirectMeters (.create hsize kb ls) hu
    have hinv := MatchUnit.StaleInv.run MatchTableIndirect.matchUnit hstart
      hrun fun _ _ _ _ hwf hs => MatchTableIndirect.step_evolves hwf hs
    obtain ⟨code, hc⟩ := hinv.checkHandle hcount hstale.2
    exact MatchTableIndirect.step_refused hop hcheck hc
  · have hstart : MatchUnit.StaleInv init.matchUnit {} := by
      rcases hinit with rfl | ⟨meters, hm⟩
      · exact .create hsize kb ls
      · obtain ⟨t₁, ht₁, rfl⟩ := Option.map_eq_some_iff.mp hm
        obtain ⟨u, hu, rfl⟩ := Option.map_eq_some_iff.mp ht₁
        exact MatchUnit.StaleInv.setDirectMeters (.create hsize kb ls) hu
    have hinv := MatchUnit.StaleInv.run (fun t : MatchTableIndirectWS K S => t.matchUnit) hstart
      hrun fun _ _ _ _ hwf hs => MatchTableIndirectWS.step_evolves hwf hs
    obtain ⟨code, hc⟩ := hinv.checkHandle hcount hstale.2
    exact MatchTableIndirectWS.step_refused hop hcheck hc

end Runs

/-- A direct table of one slot keyed by one byte, with counters. -/
def oneSlotTable : MatchTable ExactMatchKey (AList fun _ : List ByteBits.Byte => ℕ) :=
  .create { withCounters := true, nextNodeHit := some none } 1
    (({} : MatchKeyBuilder).pushBackField 0 0 8 .exact) ∅

/-- An entry is added, deleted, and its slot given to another. -/
def reuseSlot : List MatchTable.Op :=
  [.addEntry 0 [{ type := .exact, key := [4] }] 7 [] 0, .deleteEntry 0,
    .addEntry 0 [{ type := .exact, key := [5] }] 7 [] 0]

/-- The stale handle cannot delete the entry that has its slot now. -/
theorem stale_handle_refused_reuse :
    ∃ t H, Transition.Reach (History.observed (MatchTable.step exactMap) MatchTable.event)
        (fun _ _ => True) (oneSlotTable, {}) (t, H) ∧
      (∀ i, H.deletions i < 2 ^ 32) ∧ H.Stale 0 ∧ 0 ∈ t.matchUnit.handles.handles ∧
      ∃ code, t.step exactMap (.deleteEntry 0) = some (.error code, t) := by
  have heval : ((Transition.runAll (History.observed (MatchTable.step exactMap) MatchTable.event)
      (fun _ _ => True) (oneSlotTable, {}) reuseSlot).map fun s =>
        (s.2.issued, s.2.deleted, decide (0 ∈ s.1.matchUnit.handles.handles))) =
      some ([2 ^ 32, 0], [0], true) := by
    decide +kernel
  obtain ⟨⟨t, H⟩, hrun, ht⟩ := Option.map_eq_some_iff.mp heval
  simp only [Prod.mk.injEq, decide_eq_true_eq] at ht
  obtain ⟨hissued, hdeleted, hmem⟩ := ht
  have hreach := Transition.Reach.of_runAll hrun
  have hcount : ∀ i, H.deletions i < 2 ^ 32 := by
    intro i
    have := History.deletions_le hreach i
    rw [hdeleted] at this
    exact lt_of_le_of_lt this (by decide)
  have hstale : H.Stale 0 := by
    rw [History.Stale, hissued, hdeleted]
    simp
  exact ⟨t, H, hreach, hcount, hstale, hmem, (stale_handle_refused (by decide) _ _ _ 0 H hcount
    hstale).1 _ t (.inl rfl) hreach (.deleteEntry 0) rfl trivial⟩

/-- The same handle writes the counters of the other entry. -/
theorem stale_handle_writes_counters :
    ∃ t H t', Transition.Reach (History.observed (MatchTable.step exactMap) MatchTable.event)
        (fun _ _ => True) (oneSlotTable, {}) (t, H) ∧
      (∀ i, H.deletions i < 2 ^ 32) ∧ H.Stale 0 ∧
      t.step exactMap (.base (.writeCounters 0 9 9)) = some (.ok .done, t') ∧
      t.base.queryCounters t.matchUnit (2 ^ 32) = some (.ok ⟨0, 0⟩) ∧
      t'.base.queryCounters t'.matchUnit (2 ^ 32) = some (.ok ⟨9, 9⟩) := by
  have heval : ((Transition.runAll (History.observed (MatchTable.step exactMap) MatchTable.event)
      (fun _ _ => True) (oneSlotTable, {}) reuseSlot).bind fun s =>
        (s.1.step exactMap (.base (.writeCounters 0 9 9))).map fun p =>
          (s.2.issued, s.2.deleted, decide (p.1 = .ok .done),
            decide (s.1.base.queryCounters s.1.matchUnit (2 ^ 32) = some (.ok ⟨0, 0⟩)),
            decide (p.2.base.queryCounters p.2.matchUnit (2 ^ 32) = some (.ok ⟨9, 9⟩)))) =
      some ([2 ^ 32, 0], [0], true, true, true) := by
    decide +kernel
  obtain ⟨⟨t, H⟩, hrun, ht⟩ := Option.bind_eq_some_iff.mp heval
  obtain ⟨⟨r, t'⟩, hs, ht'⟩ := Option.map_eq_some_iff.mp ht
  simp only [Prod.mk.injEq, decide_eq_true_eq] at ht'
  obtain ⟨hissued, hdeleted, rfl, hbefore, hafter⟩ := ht'
  have hreach := Transition.Reach.of_runAll hrun
  have hcount : ∀ i, H.deletions i < 2 ^ 32 := by
    intro i
    have := History.deletions_le hreach i
    rw [hdeleted] at this
    exact lt_of_le_of_lt this (by decide)
  refine ⟨t, H, t', hreach, hcount, ?_, hs, hbefore, hafter⟩
  rw [History.Stale, hissued, hdeleted]
  simp

end Bmv2
