import Bmv2.Meters.Buckets
import Bmv2.Tables.Isolation
import Bmv2.Tables.Twin

/-! Two runs of a table that differ in what was done to entries which are gone, or to other
entries: an entry added in both looks the same in both, if its slot was left clean. -/
namespace Bmv2
open Bisimulation

namespace Meter

variable {m m' m₁ m₁' : Meter}

/-- What neither calls nor packets change. -/
def kind (m : Meter) : MeterType × ℕ := (m.type, m.rates.length)

/-- Two meters that color alike. While they are not configured, old rates do not count. -/
structure Alike (m m' : Meter) : Prop where
  kind : m.kind = m'.kind
  configured : m.configured = m'.configured
  eq : m.configured = true → m = m'

theorem kind_setRates (m : Meter) (configs : List RateConfig) :
    (m.setRates configs).2.kind = m.kind := by
  refine Prod.ext ?_ (setRates_length m configs)
  by_cases hlen : configs.length = m.rates.length
  · rcases setRates_of_length_eq hlen with ⟨-, heq⟩ | ⟨-, k, -, -, heq⟩
    · rw [heq]
      rfl
    · rw [heq]
      rfl
  · rw [setRates_of_length_ne hlen]

theorem kind_execute {micros ingressLength color : ℕ}
    (h : m.execute micros ingressLength = some (color, m₁)) : m₁.kind = m.kind := by
  cases hm : m.configured with
  | false =>
    simp only [execute, hm, Bool.not_false, ↓reduceIte, Option.some.injEq, Prod.mk.injEq] at h
    rw [h.2]
  | true =>
    rw [execute_of_configured hm] at h
    obtain ⟨p, hp, heq⟩ := Option.map_eq_some_iff.mp h
    obtain ⟨-, rfl⟩ := Prod.mk.inj heq
    exact Prod.ext rfl (executeRates_kept hp).length_eq.symm

namespace Alike

/-- Rates that are accepted replace all old ones. -/
theorem setRates (h : Alike m m') (configs : List RateConfig) :
    Alike (m.setRates configs).2 (m'.setRates configs).2 := by
  cases hm : m.configured with
  | true =>
    rw [← h.eq hm]
    exact ⟨rfl, rfl, fun _ => rfl⟩
  | false =>
    have hm' : m'.configured = false := h.configured ▸ hm
    have hlength : m.rates.length = m'.rates.length := congrArg Prod.snd h.kind
    have hkind : (m.setRates configs).2.kind = (m'.setRates configs).2.kind := by
      rw [kind_setRates, kind_setRates, h.kind]
    by_cases hlen : configs.length = m.rates.length
    · rcases setRates_of_length_eq hlen with ⟨hchain, heq⟩ | ⟨hchain, k, -, -, heq⟩
      · rcases setRates_of_length_eq (hlen.trans hlength) with ⟨-, heq'⟩ | ⟨hchain', -⟩
        · refine ⟨hkind, by rw [heq, heq'], fun _ => ?_⟩
          have htype : m.type = m'.type := congrArg Prod.fst h.kind
          simp [heq, heq', htype]
        · exact absurd hchain hchain'
      · rcases setRates_of_length_eq (hlen.trans hlength) with ⟨hchain', -⟩ |
          ⟨-, k', -, -, heq'⟩
        · exact absurd hchain' hchain
        · refine ⟨hkind, by rw [heq, heq']; exact h.configured, fun hconf => ?_⟩
          rw [heq] at hconf
          exact absurd hconf (by simp [hm])
    · rw [setRates_of_length_ne hlen, setRates_of_length_ne (hlength ▸ hlen)]
      exact h

theorem execute (h : Alike m m') {micros ingressLength color color' : ℕ}
    (hm : m.execute micros ingressLength = some (color, m₁))
    (hm' : m'.execute micros ingressLength = some (color', m₁')) :
    color = color' ∧ Alike m₁ m₁' := by
  cases hconf : m.configured with
  | true =>
    obtain rfl := h.eq hconf
    obtain ⟨rfl, rfl⟩ := Prod.mk.inj (Option.some.inj (hm.symm.trans hm'))
    exact ⟨rfl, rfl, rfl, fun _ => rfl⟩
  | false =>
    have hconf' : m'.configured = false := h.configured ▸ hconf
    simp only [Meter.execute, hconf, Bool.not_false, ↓reduceIte, Option.some.injEq,
      Prod.mk.injEq] at hm
    simp only [Meter.execute, hconf', Bool.not_false, ↓reduceIte, Option.some.injEq,
      Prod.mk.injEq] at hm'
    obtain ⟨rfl, rfl⟩ := hm
    obtain ⟨rfl, rfl⟩ := hm'
    exact ⟨rfl, h⟩

end Alike

end Meter

namespace MatchUnit

variable {K V S : Type}

/-- The meters of the slots, up to what calls and packets change. -/
def meterKinds (u : MatchUnit K V S) : Option (List (MeterType × ℕ)) :=
  u.directMeters.map (List.map Meter.kind)

/-- The units have the same entries; the metadata of the slots and their meters may differ. -/
def SameEntries (u v : MatchUnit K V S) : Prop :=
  ∃ em dm, u = { v with entryMeta := em, directMeters := dm } ∧
    em.length = v.entryMeta.length ∧ dm.map (List.map Meter.kind) = v.meterKinds

namespace SameEntries

variable {u v w : MatchUnit K V S}

theorem refl (u : MatchUnit K V S) : u.SameEntries u := ⟨_, _, rfl, rfl, rfl⟩

theorem symm (h : u.SameEntries v) : v.SameEntries u := by
  obtain ⟨em, dm, rfl, hlen, hkinds⟩ := h
  exact ⟨v.entryMeta, v.directMeters, rfl, hlen.symm, hkinds.symm⟩

theorem trans (h : u.SameEntries v) (h' : v.SameEntries w) : u.SameEntries w := by
  obtain ⟨em, dm, rfl, hlen, hkinds⟩ := h
  obtain ⟨em', dm', rfl, hlen', hkinds'⟩ := h'
  exact ⟨em, dm, rfl, hlen.trans hlen', hkinds.trans hkinds'⟩

theorem handles (h : u.SameEntries v) : u.handles = v.handles := by
  obtain ⟨em, dm, rfl, -, -⟩ := h
  rfl

theorem kinds (h : u.SameEntries v) : u.meterKinds = v.meterKinds := by
  obtain ⟨em, dm, rfl, -, hkinds⟩ := h
  exact hkinds

theorem length_entryMeta (h : u.SameEntries v) : u.entryMeta.length = v.entryMeta.length := by
  obtain ⟨em, dm, rfl, hlen, -⟩ := h
  exact hlen

section Calls

variable [MatchKey K] {L : LookupStructure K S}

theorem addEntry (h : u.SameEntries v) {now : ℕ} {params : List MatchKeyParam} {value : V}
    {priority : ℤ} : Related (Answers SameEntries)
      (u.addEntry L now params value priority) (v.addEntry L now params value priority) := by
  obtain ⟨em, dm, rfl, hlen, hkinds⟩ := h
  have hadd : Related (Answers SameEntries)
      (addEntry_ L { v with entryMeta := em, directMeters := dm } params value priority)
      (v.addEntry_ L params value priority) := by
    refine .ite (fun _ => .some ⟨rfl, em, dm, rfl, hlen, hkinds⟩) fun _ => ?_
    refine .same (entryKey v.matchKeyBuilder params priority) fun key _ => ?_
    refine .same (L.entryExists v.lookupStructure key) fun dup _ =>
      .ite (fun _ => .some ⟨rfl, em, dm, rfl, hlen, hkinds⟩) fun _ => ?_
    simp only [getAndSetHandle]
    by_cases hfull : v.numEntries ≥ v.size
    · simp only [hfull, ↓reduceIte]
      exact .some ⟨rfl, em, dm, rfl, hlen, hkinds⟩
    simp only [hfull, ↓reduceIte]
    cases v.handles.getHandle with
    | none => exact .some ⟨rfl, em, dm, rfl, hlen, hkinds⟩
    | some p =>
      refine .same (v.entries[p.1]?) fun old _ => ?_
      exact .same (L.addEntry v.lookupStructure key p.1) fun ls _ =>
        .some ⟨rfl, em, dm, rfl, hlen, hkinds⟩
  refine hadd.bind fun p q hpq => ?_
  obtain ⟨r, u₁⟩ := p
  obtain ⟨r', v₁⟩ := q
  obtain ⟨hr, hsame⟩ := hpq
  obtain rfl : r = r' := hr
  obtain ⟨em₁, dm₁, rfl, hlen₁, hkinds₁⟩ : SameEntries u₁ v₁ := hsame
  cases r with
  | error e => exact .some ⟨rfl, em₁, dm₁, rfl, hlen₁, hkinds₁⟩
  | ok handle =>
    refine (Related.of_length_eq hlen₁ (handleInternal handle)).bind fun m m' _ =>
      .some ⟨rfl, _, dm₁, rfl, ?_, hkinds₁⟩
    simpa using hlen₁

theorem deleteEntry (h : u.SameEntries v) {handle : ℕ} :
    Related (Answers SameEntries) (u.deleteEntry L handle) (v.deleteEntry L handle) := by
  obtain ⟨em, dm, rfl, hlen, hkinds⟩ := h
  refine .same (v.checkHandle handle) fun c hc => ?_
  cases c with
  | error e => exact .some ⟨rfl, em, dm, rfl, hlen, hkinds⟩
  | ok e =>
    obtain ⟨hmem, -, -⟩ := checkHandle_ok_iff.mp hc
    refine .same (L.deleteEntry v.lookupStructure (bumped e.key)) fun ls _ => .some ?_
    simp only [unsetHandle, HandleMgr.releaseHandle, hmem, decide_true]
    exact ⟨rfl, em, dm, rfl, hlen, hkinds⟩

theorem modifyEntry (h : u.SameEntries v) {handle : ℕ} (value : V) :
    Related (Answers SameEntries) (u.modifyEntry handle value) (v.modifyEntry handle value) := by
  obtain ⟨em, dm, rfl, hlen, hkinds⟩ := h
  refine .same (v.checkHandle handle) fun c hc => ?_
  cases c with
  | error e => exact .some ⟨rfl, em, dm, rfl, hlen, hkinds⟩
  | ok e => exact .some ⟨rfl, em, dm, rfl, hlen, hkinds⟩

theorem resetState [Inhabited V] (h : u.SameEntries v) :
    Related SameEntries (u.resetState L) (v.resetState L) := by
  obtain ⟨em, dm, rfl, -, hkinds⟩ := h
  exact .same (L.clear v.lookupStructure) fun ls _ => .some ⟨_, dm, rfl, rfl, hkinds⟩

/-- The calls on the entries do not look at the metadata and the meters. -/
theorem congruence [Inhabited V] :
    Congruence L (fun _ => True) (SameEntries : MatchUnit K V S → _ → Prop) where
  addEntry h _ _ _ _ _ := h.addEntry
  deleteEntry h _ := h.deleteEntry
  modifyEntry h _ value := h.modifyEntry value
  getValue := by
    rintro u v ⟨em, dm, rfl, -, -⟩ handle
    rfl
  getEntry := by
    rintro u v ⟨em, dm, rfl, -, -⟩ handle
    rfl
  resetState h := h.resetState

end Calls

end SameEntries

variable {u v u' v' : MatchUnit K V S} {i : ℕ}

/-- The meter of a slot. -/
def meterAt (u : MatchUnit K V S) (i : ℕ) : Option Meter := u.directMeters.bind (·[i]?)

/-- The units agree on the metadata of a slot, and its meters color alike. -/
structure AlikeAt (i : ℕ) (u v : MatchUnit K V S) : Prop where
  sameMeta : u.entryMeta[i]? = v.entryMeta[i]?
  meters : Related Meter.Alike (u.meterAt i) (v.meterAt i)

/-- A unit has in a slot what it had before. -/
structure Untouched (i : ℕ) (u u' : MatchUnit K V S) : Prop where
  sameMeta : u'.entryMeta[i]? = u.entryMeta[i]?
  meters : u'.meterAt i = u.meterAt i

theorem AlikeAt.untouched (h : AlikeAt i u v) (hu : Untouched i u u') (hv : Untouched i v v') :
    AlikeAt i u' v' where
  sameMeta := by rw [hu.sameMeta, hv.sameMeta, h.sameMeta]
  meters := by
    rw [hu.meters, hv.meters]
    exact h.meters

/-- Meters that are not configured are alike if they are of one kind. -/
theorem SameEntries.meterAt_alike (h : u.SameEntries v) (hu : u.configuredAt i = some false)
    (hv : v.configuredAt i = some false) : Related Meter.Alike (u.meterAt i) (v.meterAt i) := by
  obtain ⟨meters, hmeters, hu⟩ := Option.bind_eq_some_iff.mp hu
  obtain ⟨m, hm, hu⟩ := Option.map_eq_some_iff.mp hu
  obtain ⟨meters', hmeters', hv⟩ := Option.bind_eq_some_iff.mp hv
  obtain ⟨m', hm', hv⟩ := Option.map_eq_some_iff.mp hv
  have hkinds := h.kinds
  rw [meterKinds, meterKinds, hmeters, hmeters'] at hkinds
  have hkind := congrArg (·[i]?) (Option.some.inj hkinds)
  simp only [List.getElem?_map, hm, hm', Option.map_some, Option.some.injEq] at hkind
  rw [meterAt, meterAt, hmeters, hmeters', Option.bind_some, Option.bind_some, hm, hm']
  exact .some ⟨hkind, hu.trans hv.symm, fun htrue => absurd (hu.symm.trans htrue) (by simp)⟩

theorem Untouched.refl (i : ℕ) (u : MatchUnit K V S) : Untouched i u u := ⟨rfl, rfl⟩

theorem meterKinds_set {meters : List Meter} {m m' : Meter} {j : ℕ}
    (hm : u.directMeters = some meters) (hj : meters[j]? = some m) (hkind : m'.kind = m.kind) :
    (some (meters.set j m')).map (List.map Meter.kind) = u.meterKinds := by
  rw [meterKinds, hm]
  refine congrArg some (List.ext_getElem? fun i => ?_)
  rw [List.getElem?_map, List.getElem?_map]
  exact getElem?_set_map Meter.kind hj hkind i

theorem getElem?_set_eq {α : Type} {l l' : List α} (hlen : l.length = l'.length)
    (h : l[i]? = l'[i]?) {j : ℕ} {a b : α} (hab : j = i → a = b) :
    (l.set j a)[i]? = (l'.set j b)[i]? := by
  rw [List.getElem?_set, List.getElem?_set]
  by_cases hji : j = i
  · rw [if_pos hji, if_pos hji, hlen, hab hji]
  · rw [if_neg hji, if_neg hji, h]

/-- Writing alike metadata to one slot of both units. -/
theorem AlikeAt.setMeta (h : AlikeAt i u v) (hlen : u.entryMeta.length = v.entryMeta.length)
    {j : ℕ} {a b : EntryMeta} (hab : j = i → a = b) :
    AlikeAt i { u with entryMeta := u.entryMeta.set j a }
      { v with entryMeta := v.entryMeta.set j b } where
  sameMeta := getElem?_set_eq hlen h.sameMeta hab
  meters := h.meters

theorem AlikeAt.setMeter (h : AlikeAt i u v) {meters meters' : List Meter}
    (hu : u.directMeters = some meters) (hv : v.directMeters = some meters')
    (hlen : meters.length = meters'.length) {j : ℕ} {m m' : Meter} (hm : j = i → m.Alike m') :
    AlikeAt i { u with directMeters := some (meters.set j m) }
      { v with directMeters := some (meters'.set j m') } where
  sameMeta := h.sameMeta
  meters := by
    have hmeters := h.meters
    rw [meterAt, meterAt, hu, hv, Option.bind_some, Option.bind_some] at hmeters
    change Related _ (meters.set j m)[i]? (meters'.set j m')[i]?
    rw [List.getElem?_set, List.getElem?_set, hlen]
    by_cases hji : j = i
    · rw [if_pos hji, if_pos hji]
      exact .ite (fun _ => .some (hm hji)) fun _ => .none
    · rw [if_neg hji, if_neg hji]
      exact hmeters

/-- A call that all tables share does the same to alike slots. -/
theorem AlikeAt.step (h : AlikeAt i u v) (hsame : u.SameEntries v) (b : MatchTableAbstract)
    (op : MatchTableAbstract.Op) :
    Related (fun p q => AlikeAt i p.2 q.2) (b.step u op) (b.step v op) := by
  have hvalid : ∀ handle, u.validHandle handle = v.validHandle handle := by
    intro handle
    rw [validHandle, validHandle_, hsame.handles]
    rfl
  have hlen := hsame.length_entryMeta
  have hmeta : ∀ j, Related (fun a a' => j = i → a = a') u.entryMeta[j]? v.entryMeta[j]? := by
    intro j
    refine (Related.of_length_eq hlen j).imp_of_eq fun a a' _ haa hji => ?_
    subst hji
    exact Option.some.inj (haa.1.symm.trans (h.sameMeta.trans haa.2))
  cases op with
  | queryCounters handle =>
    refine .map (P := fun _ _ => True) ?_ fun _ _ _ => h
    simp only [MatchTableAbstract.queryCounters, hvalid]
    refine .ite (fun _ => .some trivial) fun _ => .ite (fun _ => .some trivial) fun _ => ?_
    exact (hmeta _).map fun _ _ _ => trivial
  | resetCounters =>
    simp only [MatchTableAbstract.step, MatchTableAbstract.resetCounters]
    cases b.withCounters with
    | false => exact .some h
    | true => exact .some ⟨by simp [h.sameMeta], h.meters⟩
  | writeCounters handle bytes packets =>
    refine .map (P := fun p q => AlikeAt i p.2 q.2) ?_ fun _ _ hpq => hpq
    simp only [MatchTableAbstract.writeCounters, hvalid]
    refine .ite (fun _ => .some h) fun _ => .ite (fun _ => .some h) fun _ => ?_
    exact (hmeta _).map fun a a' haa => h.setMeta hlen fun hji => by rw [haa hji]
  | setMeterRates handle configs =>
    refine .map (P := fun p q => AlikeAt i p.2 q.2) ?_ fun _ _ hpq => hpq
    simp only [MatchTableAbstract.setMeterRates, hvalid]
    refine .ite (fun _ => .some h) fun _ => .ite (fun _ => .some h) fun _ => ?_
    refine (Related.of_map_eq hsame.kinds).bind fun meters meters' hmm => ?_
    obtain ⟨hu, hv, hkind⟩ := hmm
    have hlength : meters.length = meters'.length := by
      simpa using congrArg List.length hkind
    refine (Related.of_length_eq hlength (handleInternal handle)).bind fun m m' hmm => ?_
    refine .some (h.setMeter hu hv hlength fun hji => Meter.Alike.setRates ?_ configs)
    have hmeters := h.meters
    rw [meterAt, meterAt, hu, hv, Option.bind_some, Option.bind_some, ← hji, hmm.1, hmm.2]
      at hmeters
    cases hmeters with
    | some halike => exact halike
  | setEntryTtl handle ttlMs =>
    refine .map (P := fun p q => AlikeAt i p.2 q.2) ?_ fun _ _ hpq => hpq
    rw [MatchTableAbstract.setEntryTtl, MatchTableAbstract.setEntryTtl, setEntryTtl,
      setEntryTtl, show u.validHandle_ = v.validHandle_ from ?_]
    · refine .ite (fun _ => .some h) fun _ => .ite (fun _ => .some h) fun _ => ?_
      exact (hmeta _).bind fun a a' haa => .some (h.setMeta hlen fun hji => by rw [haa hji])
    · funext j
      rw [validHandle_, hsame.handles]
      rfl

/-- A shared call that names another slot, or reads. -/
theorem Untouched.step {b : MatchTableAbstract} {op : MatchTableAbstract.Op}
    {r : Result TableReply} (h : b.step u op = some (r, u')) {handle : ℕ}
    (hop : op.handle? = some handle) (hne : handleInternal handle ≠ i) : Untouched i u u' := by
  cases MatchTableAbstract.steps_of_step h with
  | same => exact .refl i u
  | resetCounters => cases hop
  | writeCounters | setEntryTtl =>
    obtain rfl := Option.some.inj hop
    exact ⟨List.getElem?_set_ne hne, rfl⟩
  | setMeterRates _ hmeters =>
    obtain rfl := Option.some.inj hop
    refine ⟨rfl, ?_⟩
    rw [meterAt, meterAt, hmeters, Option.bind_some, Option.bind_some, List.getElem?_set_ne hne]

/-- A shared call leaves the entries alone. -/
theorem SameEntries.step {b : MatchTableAbstract} {op : MatchTableAbstract.Op}
    {r : Result TableReply} (h : b.step u op = some (r, u')) : u'.SameEntries u := by
  cases MatchTableAbstract.steps_of_step h with
  | same => exact .refl u
  | resetCounters => exact ⟨_, u.directMeters, rfl, List.length_map .., rfl⟩
  | writeCounters | setEntryTtl => exact ⟨_, u.directMeters, rfl, List.length_set, rfl⟩
  | setMeterRates _ hmeters hm =>
    exact ⟨u.entryMeta, _, rfl, rfl, meterKinds_set hmeters hm (Meter.kind_setRates _ _)⟩

section Packets

variable [MatchKey K] {L : LookupStructure K S} {b : MatchTableAbstract} {pkt : Packet}
  {res res' : Option (ℕ × V)} {action action' : ActionEntry} {micros : ℕ} {a a' : Applied}
  {u₁ v₁ : MatchUnit K V S}

/-- So does a packet. -/
theorem SameEntries.packet (hl : u.lookup L pkt = some (res, u₁))
    (hf : b.finishApply u₁ (res.map Prod.fst) action pkt micros = some (a, u')) :
    u'.SameEntries u := by
  obtain ⟨color, hm, -⟩ := MatchTableAbstract.finishApply_cases hf
  have hfirst : u₁.SameEntries u := by
    obtain ⟨key, -, -, ⟨-, rfl⟩ | ⟨handle, value, m, -, -, rfl⟩⟩ := lookup_cases hl
    · exact .refl _
    · exact ⟨_, u.directMeters, rfl, List.length_set, rfl⟩
  rcases MatchTableAbstract.executeMeter_cases hm with ⟨-, rfl, -⟩ |
    ⟨_, meters, meter, _, meter', -, -, hmeters, hmeter, hexec, -, rfl⟩
  · exact hfirst
  · refine trans ⟨u₁.entryMeta, _, rfl, rfl, ?_⟩ hfirst
    exact meterKinds_set hmeters hmeter (Meter.kind_execute hexec)

/-- A packet hits the same entry in both units. -/
theorem SameEntries.lookup (hsame : u.SameEntries v) (h : AlikeAt i u v)
    (hl : u.lookup L pkt = some (res, u₁)) (hl' : v.lookup L pkt = some (res', v₁)) :
    res = res' ∧ AlikeAt i u₁ v₁ ∧ u₁.SameEntries v₁ := by
  obtain ⟨em, dm, rfl, hlen, hkinds⟩ := hsame
  obtain ⟨key, hkey, hfound, hu⟩ := lookup_cases hl
  obtain ⟨key', hkey', hfound', hv⟩ := lookup_cases hl'
  obtain rfl : key = key' := Option.some.inj (hkey.symm.trans hkey')
  obtain rfl : res = res' := Option.some.inj (hfound.symm.trans hfound')
  refine ⟨rfl, ?_⟩
  rcases hu with ⟨rfl, rfl⟩ | ⟨handle, value, m, rfl, hm, rfl⟩
  · obtain ⟨-, rfl⟩ | ⟨_, _, _, hres, -, -⟩ := hv
    · exact ⟨h, em, dm, rfl, hlen, hkinds⟩
    · cases hres
  · obtain ⟨hres, -⟩ | ⟨handle', value', m', hres, hm', rfl⟩ := hv
    · cases hres
    obtain ⟨rfl, rfl⟩ := Prod.mk.inj (Option.some.inj hres)
    refine ⟨h.setMeta hlen fun hj => ?_, _, dm, rfl, by simpa using hlen, hkinds⟩
    have hsame : m = m' := by
      subst hj
      exact Option.some.inj (hm.symm.trans (h.sameMeta.trans hm'))
    rw [hsame]

omit [MatchKey K] in
/-- The meters of alike slots give a packet one color. -/
theorem AlikeAt.finishApply (h : AlikeAt i u v) (hsame : u.SameEntries v) {handle : Option ℕ}
    (hf : b.finishApply u handle action pkt micros = some (a, u'))
    (hf' : b.finishApply v handle action' pkt micros = some (a', v')) :
    AlikeAt i u' v' ∧ a.handle = a'.handle ∧
      (a.handle.map handleInternal = some i → a.color = a'.color) := by
  obtain ⟨color, hm, rfl⟩ := MatchTableAbstract.finishApply_cases hf
  obtain ⟨color', hm', rfl⟩ := MatchTableAbstract.finishApply_cases hf'
  rcases MatchTableAbstract.executeMeter_cases hm with ⟨rfl, rfl, hoff⟩ |
    ⟨hdl, meters, meter, c, meter₁, rfl, hw, hmeters, hmeter, hexec, rfl, rfl⟩
  · rcases MatchTableAbstract.executeMeter_cases hm' with ⟨rfl, rfl, -⟩ |
      ⟨_, _, _, _, _, rfl, hw, -⟩
    · exact ⟨h, rfl, fun _ => rfl⟩
    · simp [hw] at hoff
  · rcases MatchTableAbstract.executeMeter_cases hm' with ⟨-, -, hoff⟩ |
      ⟨hdl', meters', meter', c', meter₁', hhdl, -, hmeters', hmeter', hexec', rfl, rfl⟩
    · simp [hw] at hoff
    obtain rfl := Option.some.inj hhdl
    have hlength : meters.length = meters'.length := by
      have hkinds := hsame.kinds
      rw [meterKinds, meterKinds, hmeters, hmeters'] at hkinds
      simpa using congrArg List.length (Option.some.inj hkinds)
    have halike : handleInternal hdl = i → meter.Alike meter' := by
      rintro rfl
      have hslot := h.meters
      rw [meterAt, meterAt, hmeters, hmeters', Option.bind_some, Option.bind_some, hmeter, hmeter']
        at hslot
      cases hslot with
      | some halike => exact halike
    refine ⟨h.setMeter hmeters hmeters' hlength fun hj =>
      ((halike hj).execute hexec hexec').2, rfl, fun hj => ?_⟩
    exact congrArg some ((halike (Option.some.inj hj)).execute hexec hexec').1

end Packets

end MatchUnit

/-- Calls that are not shared leave the slots of the live entries as they are. -/
theorem UnitStep.untouched {K V S : Type} [MatchKey K] {L : LookupStructure K S}
    {b : MatchTableAbstract} {u u' : MatchUnit K V S} {call : UnitCall} (hwf : u.Wf)
    (h : UnitStep L b u call u') (hcall : ∀ op, call ≠ .shared op) {i : ℕ}
    (hi : i ∈ u.handles.handles) : u.Untouched i u' := by
  cases h with
  | same => exact .refl i u
  | added h =>
    rcases MatchUnit.addEntry_cases hwf h with ⟨_, hr, -, -⟩ |
      ⟨key, old, ls, m, -, -, -, -, -, -, -, -, -, rfl⟩
    · cases hr
    · refine ⟨List.getElem?_set_ne ?_, rfl⟩
      rintro rfl
      exact u.handles.firstEmpty_notMem hi
  | removed hc hls => exact ⟨rfl, rfl⟩
  | rewritten value hc => exact ⟨rfl, rfl⟩
  | shared h => exact absurd rfl (hcall _)

/-- The slot of a new entry: its timeout and its meter are what the slot has left. -/
theorem MatchUnit.added_meta {K V S : Type} [MatchKey K] {L : LookupStructure K S}
    {u u' : MatchUnit K V S} (hwf : u.Wf) {now : ℕ} {params : List MatchKeyParam} {value : V}
    {priority : ℤ} {handle timeoutMs : ℕ}
    (htime : u.timeoutAt u.handles.firstEmpty = some timeoutMs)
    (h : u.addEntry L now params value priority = some (.ok handle, u')) :
    u'.entryMeta[u.handles.firstEmpty]? =
        some { ts := now, timeoutMs, version := handleVersion handle } ∧
      u'.directMeters = u.directMeters := by
  rcases addEntry_cases hwf h with ⟨_, hr, -, -⟩ |
    ⟨key, old, ls, m, -, -, -, -, hlt, hold, -, hm, hr, rfl⟩
  · cases hr
  have hver := hwf.version_lt old (List.mem_of_getElem? hold)
  have hsize := hwf.size_le
  obtain rfl : handle = handleSet (MatchKey.version old.key) u.handles.firstEmpty := by
    simpa using hr
  rw [timeoutAt, hm, Option.map_some, Option.some.injEq] at htime
  refine ⟨?_, rfl⟩
  rw [handleVersion_handleSet hver (by omega), ← htime]
  exact List.getElem?_set_self (List.getElem?_eq_some_iff.mp hm).1

namespace TableKind

variable {K V S σ α : Type} (T : TableKind K V S σ α)

/-- The steps that may change more than metadata and meters: the calls that a table does not share
with the others, and resets. -/
def Edits : TableOp α → Bool
  | .call op => (T.shared? op).isNone
  | .packet .. | .sweep _ => false
  | .reset => true

theorem exists_shared {T : TableKind K V S σ α} {op : α} (h : T.Edits (.call op) = false) :
    ∃ o, T.shared? op = some o := by
  rw [Edits] at h
  cases hshared : T.shared? op with
  | none => simp [hshared] at h
  | some o => exact ⟨o, rfl⟩

/-- A shared call that names another slot, or a sweep. -/
def Elsewhere (h : ℕ) : TableOp α → Prop
  | .call op => ∃ o handle, T.shared? op = some o ∧ o.handle? = some handle ∧
    handleInternal handle ≠ handleInternal h
  | .sweep _ => True
  | .packet .. | .reset => False

/-- The slot that the next entry takes has been left without a timeout and without rates. -/
def Clean (t : σ) : Prop :=
  (T.unit t).timeoutAt (T.unit t).handles.firstEmpty = some 0 ∧
    (T.unit t).configuredAt (T.unit t).handles.firstEmpty = some false

/-- What is seen of an entry in two states: its counters, whether a sweep names it, which packets
hit it and what color they get. -/
structure SameView (h : ℕ) (s t : σ) : Prop where
  counters : (T.base s).queryCounters (T.unit s) h = (T.base t).queryCounters (T.unit t) h
  swept : ∀ {nowMs hs hs' s' t'}, T.act s (.sweep nowMs) = some (.swept hs, s') →
    T.act t (.sweep nowMs) = some (.swept hs', t') → (h ∈ hs ↔ h ∈ hs')
  applied : ∀ {pkt hash micros a a' s' t'},
    T.act s (.packet pkt hash micros) = some (.applied a, s') →
    T.act t (.packet pkt hash micros) = some (.applied a', t') →
    a.handle = a'.handle ∧ (a.handle = some h → a.color = a'.color)

/-- Two runs that differ in packets, sweeps and shared calls come to add an entry to a clean slot.
From there on they differ in shared calls on other slots. Then they see the same of the entry. -/
def Noninterfering (init : σ) : Prop :=
  ∀ s t, Transition.Pair T.act (fun _ => True) (fun op => T.Edits op = false) init init s t →
  T.Clean s → T.Clean t →
  ∀ op h s₁, T.adds op = true → T.act s (.call op) = some (.reply (.ok (.handle h)), s₁) →
    ∃ t₁, T.act t (.call op) = some (.reply (.ok (.handle h)), t₁) ∧
      ∀ s₂ t₂, Transition.Pair T.act (T.Spares h) (T.Elsewhere h) s₁ t₁ s₂ t₂ →
        T.SameView h s₂ t₂

/-- Tables that differ in the metadata of their slots and in their meters only. -/
structure Twins [MatchKey K] (L : LookupStructure K S) (now : α → ℕ) (E : σ → σ → Prop) :
    Prop where
  refl : ∀ t, E t t
  symm : ∀ {s t}, E s t → E t s
  trans : ∀ {s t t'}, E s t → E t t' → E s t'
  unit : ∀ {s t}, E s t → (T.unit s).SameEntries (T.unit t)
  base : ∀ {s t}, E s t → T.base s = T.base t
  edits : ∀ {s t op}, E s t → T.Edits op = true →
    Related (Answers E) (T.act s op) (T.act t op)
  frame : ∀ {t op o t'}, T.Edits op = false → T.act t op = some (o, t') → E t' t
  shared : ∀ {t op o x t'}, T.shared? op = some o → T.act t (.call op) = some (x, t') →
    T.deletes? op = none ∧ ∃ r, (T.base t).step (T.unit t) o = some (r, T.unit t')
  added : ∀ {t op h t'}, T.adds op = true →
    T.act t (.call op) = some (.reply (.ok (.handle h)), t') → T.shared? op = none ∧
      ∃ params value priority, (T.unit t).addEntry L (now op) params value priority =
        some (.ok h, T.unit t')

variable {T} [MatchKey K] [Inhabited V] {L : LookupStructure K S} {now : α → ℕ}
  {unitCall : α → Result TableReply → UnitCall} {E : σ → σ → Prop} {i v : ℕ}

omit [Inhabited V] in
theorem Twins.act (hE : T.Twins L now E) {s t s' t' : σ} {op : TableOp α} {o o' : Observation}
    (h : E s t) (hs : T.act s op = some (o, s')) (ht : T.act t op = some (o', t')) : E s' t' := by
  cases hedits : T.Edits op with
  | true =>
    have hrel := hE.edits h hedits
    rw [hs, ht] at hrel
    cases hrel with
    | some hanswers => exact hanswers.2
  | false => exact hE.trans (hE.frame hedits hs) (hE.trans h (hE.symm (hE.frame hedits ht)))

/-- An entry is in slot `i` of both tables, which agree on what is seen of it. -/
structure Matched (T : TableKind K V S σ α) (E : σ → σ → Prop) (i v : ℕ) (s t : σ) : Prop where
  twins : E s t
  left : T.Occupied i v s
  right : T.Occupied i v t
  alike : (T.unit s).AlikeAt i (T.unit t)

/-- A step that one run takes alone leaves the slot of the entry as it is. -/
theorem untouched_of_elsewhere (hT : T.Frames L unitCall) (hE : T.Twins L now E) {h : ℕ} {t t' : σ}
    {op : TableOp α} {o : Observation} (hwf : (T.unit t).Wf) (hop : T.Elsewhere h op)
    (hs : T.act t op = some (o, t')) :
    T.Edits op = false ∧ T.Spares h op ∧ (T.unit t).Untouched (handleInternal h) (T.unit t') := by
  cases op with
  | call op =>
    obtain ⟨o, handle, hshared, hhandle, hne⟩ := hop
    obtain ⟨hdeletes, r, hstep⟩ := hE.shared hshared hs
    refine ⟨by rw [Edits, hshared]; rfl, ?_, .step hstep hhandle hne⟩
    rw [Spares, hdeletes]
    exact (Option.some_ne_none h).symm
  | sweep nowMs =>
    obtain ⟨hact, -⟩ := hT.act hwf hs
    generalize T.unit t' = u' at hact
    cases hact with
    | sweep => exact ⟨rfl, trivial, .refl _ _⟩
  | packet | reset => exact absurd hop not_false

namespace Matched

variable {s t s' t' : σ} {op : TableOp α} {o o' : Observation}

theorem stepLeft (h : Matched T E i v s t) (hT : T.Frames L unitCall) (hE : T.Twins L now E)
    (hi : i < 2 ^ 32) (hv : v < 2 ^ 32) (hop : T.Elsewhere (handleSet v i) op)
    (hs : T.act s op = some (o, s')) : Matched T E i v s' t := by
  obtain ⟨hedits, hspares, hslot⟩ := untouched_of_elsewhere hT hE h.left.unit.wf hop hs
  rw [handleInternal_handleSet hv hi] at hslot
  exact ⟨hE.trans (hE.frame hedits hs) h.twins, h.left.act hT hi hv hspares hs, h.right,
    h.alike.untouched hslot (.refl _ _)⟩

theorem stepRight (h : Matched T E i v s t) (hT : T.Frames L unitCall) (hE : T.Twins L now E)
    (hi : i < 2 ^ 32) (hv : v < 2 ^ 32) (hop : T.Elsewhere (handleSet v i) op)
    (ht : T.act t op = some (o, t')) : Matched T E i v s t' := by
  obtain ⟨hedits, hspares, hslot⟩ := untouched_of_elsewhere hT hE h.right.unit.wf hop ht
  rw [handleInternal_handleSet hv hi] at hslot
  exact ⟨hE.trans h.twins (hE.symm (hE.frame hedits ht)), h.left,
    h.right.act hT hi hv hspares ht, h.alike.untouched (.refl _ _) hslot⟩

/-- Packets hit the same entry in both tables and color alike if it is the entry of the slot. -/
theorem packet (h : Matched T E i v s t) (hT : T.Frames L unitCall) (hE : T.Twins L now E)
    {pkt : Packet} {hash : Option ℕ} {micros : ℕ} {a a' : Applied}
    (hs : T.act s (.packet pkt hash micros) = some (.applied a, s'))
    (ht : T.act t (.packet pkt hash micros) = some (.applied a', t')) :
    (T.unit s').AlikeAt i (T.unit t') ∧ a.handle = a'.handle ∧
      (a.handle.map handleInternal = some i → a.color = a'.color) := by
  obtain ⟨hact, -⟩ := hT.act h.left.unit.wf hs
  obtain ⟨hact', -⟩ := hT.act h.right.unit.wf ht
  generalize T.unit s' = u' at hact
  generalize T.unit t' = v' at hact'
  rw [← hE.base h.twins] at hact'
  cases hact with
  | packet hl hf =>
    cases hact' with
    | packet hl' hf' =>
      obtain ⟨rfl, halike, hsame⟩ := (hE.unit h.twins).lookup h.alike hl hl'
      exact halike.finishApply hsame hf hf'

/-- The slot after a step that both take. -/
theorem alike_act (h : Matched T E i v s t) (hT : T.Frames L unitCall) (hE : T.Twins L now E)
    (hspares : T.Spares (handleSet v i) op) (hs : T.act s op = some (o, s'))
    (ht : T.act t op = some (o', t')) : (T.unit s').AlikeAt i (T.unit t') := by
  obtain ⟨hact, -⟩ := hT.act h.left.unit.wf hs
  obtain ⟨hact', -⟩ := hT.act h.right.unit.wf ht
  cases op with
  | call op =>
    cases hshared : T.shared? op with
    | some c =>
      obtain ⟨-, r, hstep⟩ := hE.shared hshared hs
      obtain ⟨-, r', hstep'⟩ := hE.shared hshared ht
      have hrel := h.alike.step (hE.unit h.twins) (T.base s) c
      rw [hstep, hE.base h.twins, hstep'] at hrel
      cases hrel with
      | some halike => exact halike
    | none =>
      have hown : ∀ r c, unitCall op r ≠ .shared c := by
        intro r c hcall
        cases hshared.symm.trans (hT.shared hcall)
      generalize T.unit s' = u' at hact
      generalize T.unit t' = v' at hact'
      cases hact with
      | call hstep =>
        cases hact' with
        | call hstep' =>
          exact h.alike.untouched (hstep.untouched h.left.unit.wf (hown _) h.left.mem)
            (hstep'.untouched h.right.unit.wf (hown _) h.right.mem)
  | packet pkt hash micros =>
    obtain ⟨a, rfl⟩ : ∃ a, o = .applied a := by
      cases hact
      exact ⟨_, rfl⟩
    obtain ⟨a', rfl⟩ : ∃ a, o' = .applied a := by
      cases hact'
      exact ⟨_, rfl⟩
    exact (h.packet hT hE hs ht).1
  | sweep nowMs =>
    generalize T.unit s' = u' at hact
    generalize T.unit t' = v' at hact'
    cases hact
    cases hact'
    exact h.alike
  | reset => exact absurd hspares not_false

theorem stepBoth (h : Matched T E i v s t) (hT : T.Frames L unitCall) (hE : T.Twins L now E)
    (hi : i < 2 ^ 32) (hv : v < 2 ^ 32) (hspares : T.Spares (handleSet v i) op)
    (hs : T.act s op = some (o, s')) (ht : T.act t op = some (o', t')) :
    Matched T E i v s' t' := by
  exact ⟨hE.act h.twins hs ht, h.left.act hT hi hv hspares hs, h.right.act hT hi hv hspares ht,
    h.alike_act hT hE hspares hs ht⟩

theorem sameView (h : Matched T E i v s t) (hT : T.Frames L unitCall) (hE : T.Twins L now E)
    (hi : i < 2 ^ 32) (hv : v < 2 ^ 32) : T.SameView (handleSet v i) s t where
  counters := by
    have hvalid : (T.unit s).validHandle (handleSet v i) =
        (T.unit t).validHandle (handleSet v i) := by
      rw [MatchUnit.validHandle, MatchUnit.validHandle_, (hE.unit h.twins).handles]
      rfl
    rw [MatchTableAbstract.queryCounters, MatchTableAbstract.queryCounters, hE.base h.twins, hvalid,
      handleInternal_handleSet hv hi, h.alike.sameMeta]
  swept hs ht := by
    rw [mem_sweep hT hi hv h.left hs, mem_sweep hT hi hv h.right ht, h.alike.sameMeta]
  applied hs ht := by
    obtain ⟨-, hhandle, hcolor⟩ := h.packet hT hE hs ht
    refine ⟨hhandle, fun ha => hcolor ?_⟩
    rw [ha, Option.map_some, handleInternal_handleSet hv hi]

end Matched

/-- Two tables that add an entry to a clean slot agree on what is seen of it. -/
theorem Twins.matched (hE : T.Twins L now E) (hT : T.Frames L unitCall) {s t s₁ : σ} {op : α}
    {h : ℕ} (hs : T.FeatureInv s) (ht : T.FeatureInv t) (htwins : E s t) (hsclean : T.Clean s)
    (htclean : T.Clean t) (hadds : T.adds op = true)
    (hact : T.act s (.call op) = some (.reply (.ok (.handle h)), s₁)) :
    ∃ t₁, T.act t (.call op) = some (.reply (.ok (.handle h)), t₁) ∧
      ∃ i < 2 ^ 32, ∃ v < 2 ^ 32, h = handleSet v i ∧ Matched T E i v s₁ t₁ := by
  obtain ⟨hshared, params, value, priority, hadd⟩ := hE.added hadds hact
  have hedits : T.Edits (.call op) = true := by
    rw [Edits, hshared]
    rfl
  have hrel := hE.edits htwins hedits
  rw [hact] at hrel
  obtain ⟨⟨o', t₁⟩, hact', rfl, htwins₁⟩ :
      ∃ p, T.act t (.call op) = some p ∧ (.reply (.ok (.handle h)) : Observation) = p.1 ∧
        E s₁ p.2 := by
    generalize T.act t (.call op) = y at hrel
    cases hrel with
    | some hanswers => exact ⟨_, rfl, hanswers⟩
  obtain ⟨-, params', value', priority', hadd'⟩ := hE.added hadds hact'
  obtain ⟨v, hv, hi, rfl, hleft⟩ := hs.added hT hadd hact
  obtain ⟨v', hv', -, hhandle, hright⟩ := ht.added hT hadd' hact'
  have hhandles := (hE.unit htwins).handles
  rw [← hhandles] at hright hhandle
  obtain rfl : v = v' := by
    rw [← handleVersion_handleSet hv hi, hhandle, handleVersion_handleSet hv' hi]
  refine ⟨t₁, hact', _, hi, v, hv, rfl, htwins₁, hleft, hright, ?_⟩
  obtain ⟨hmeta, hmeters⟩ := MatchUnit.added_meta hs.unit.wf hsclean.1 hadd
  obtain ⟨hmeta', hmeters'⟩ := MatchUnit.added_meta ht.unit.wf htclean.1 hadd'
  rw [← hhandles] at hmeta'
  refine ⟨by rw [hmeta, hmeta'], ?_⟩
  rw [MatchUnit.meterAt, MatchUnit.meterAt, hmeters, hmeters']
  exact (hE.unit htwins).meterAt_alike hsclean.2 (hhandles ▸ htclean.2)

theorem Frames.noninterfering (hT : T.Frames L unitCall) (hE : T.Twins L now E) {init : σ}
    (hinit : T.FeatureInv init) : T.Noninterfering init := by
  intro s t hpair hsclean htclean op h s₁ hadds hs
  have hinv : E s t ∧ T.FeatureInv s ∧ T.FeatureInv t := by
    refine hpair.invariant (fun s t => E s t ∧ T.FeatureInv s ∧ T.FeatureInv t)
      ⟨hE.refl init, hinit, hinit⟩ ?_ ?_ ?_
    · rintro s t op o o' s' t' ⟨h, hs, ht⟩ - hstep hstep'
      exact ⟨hE.act h hstep hstep', hs.act hT hstep, ht.act hT hstep'⟩
    · rintro s t op o s' ⟨h, hs, ht⟩ hop hstep
      exact ⟨hE.trans (hE.frame hop hstep) h, hs.act hT hstep, ht⟩
    · rintro s t op o t' ⟨h, hs, ht⟩ hop hstep
      exact ⟨hE.trans h (hE.symm (hE.frame hop hstep)), hs, ht.act hT hstep⟩
  obtain ⟨t₁, ht, i, hi, v, hv, rfl, hmatched⟩ :=
    hE.matched hT hinv.2.1 hinv.2.2 hinv.1 hsclean htclean hadds hs
  refine ⟨t₁, ht, fun s₂ t₂ hpair => ?_⟩
  have hmatched₂ := hpair.invariant (Matched T E i v) hmatched
    (fun _ _ _ _ _ _ _ h hop hs ht => h.stepBoth hT hE hi hv hop hs ht)
    (fun _ _ _ _ _ h hop hs => h.stepLeft hT hE hi hv hop hs)
    (fun _ _ _ _ _ h hop ht => h.stepRight hT hE hi hv hop ht)
  exact hmatched₂.sameView hT hE hi hv

end TableKind

namespace MatchTable

variable {K S : Type} [MatchKey K] (L : LookupStructure K S)

/-- The reading of the clock that an `add_entry` takes. -/
def Op.now : Op → ℕ
  | .addEntry now .. => now
  | _ => 0

theorem Op.admits_true (op : Op) : op.Admits fun _ => True := by
  cases op <;> trivial

theorem kind_twins : (kind L : TableKind K ActionEntry S _ _).Twins L Op.now
    (Twin MatchUnit.SameEntries) where
  refl t := ⟨t.matchUnit, rfl, .refl _⟩
  symm := by
    rintro s t ⟨u, rfl, hu⟩
    exact ⟨t.matchUnit, rfl, hu.symm⟩
  trans := by
    rintro s t t' ⟨u, rfl, hu⟩ ⟨u', rfl, hu'⟩
    exact ⟨u, rfl, hu.trans hu'⟩
  unit := by
    rintro s t ⟨u, rfl, hu⟩
    exact hu
  base := by
    rintro s t ⟨u, rfl, hu⟩
    rfl
  edits := by
    intro s t op h hedits
    cases op with
    | call op =>
      refine .reply _ (h.step MatchUnit.SameEntries.congruence op.admits_true fun o ho => ?_)
      subst ho
      cases hedits
    | reset =>
      exact (h.resetState MatchUnit.SameEntries.congruence).map fun _ _ h' => ⟨rfl, h'⟩
    | packet | sweep => cases hedits
  frame := by
    intro t op o t' hedits hs
    cases acts_of_act hs with
    | @call op r t' h =>
      cases op with
      | base op =>
        obtain ⟨⟨r', u⟩, h', he⟩ := Option.map_eq_some_iff.mp h
        obtain ⟨-, rfl⟩ := Prod.mk.inj he
        exact ⟨u, rfl, .step h'⟩
      | _ => cases hedits
    | packet hl hf => exact ⟨_, rfl, .packet hl hf⟩
    | sweep => exact ⟨_, rfl, .refl _⟩
    | reset => cases hedits
  shared := by
    intro t op o x t' hshared hs
    cases op <;> cases hshared
    obtain ⟨⟨r, t₁⟩, h, he⟩ := Option.map_eq_some_iff.mp hs
    obtain ⟨-, rfl⟩ := Prod.mk.inj he
    obtain ⟨⟨r', u⟩, h', he⟩ := Option.map_eq_some_iff.mp h
    obtain ⟨-, rfl⟩ := Prod.mk.inj he
    exact ⟨rfl, r', h'⟩
  added := by
    intro t op h t' hadds hs
    cases op <;> try cases hadds
    refine ⟨rfl, ?_⟩
    obtain ⟨⟨r, t₁⟩, hstep, he⟩ := Option.map_eq_some_iff.mp hs
    obtain ⟨hr, rfl⟩ := Prod.mk.inj he
    obtain ⟨⟨r', t₂⟩, hadd, he⟩ := Option.map_eq_some_iff.mp hstep
    obtain ⟨rfl, rfl⟩ := Prod.mk.inj he
    obtain ⟨nextNode, -, hadd⟩ := Option.bind_eq_some_iff.mp hadd
    obtain ⟨⟨r₁, u⟩, hu, hadd⟩ := Option.bind_eq_some_iff.mp hadd
    obtain ⟨rfl, rfl⟩ := Prod.mk.inj (Option.some.inj hadd)
    cases r₁ with
    | error code => cases hr
    | ok handle =>
      obtain rfl : handle = h := by simpa [Except.map] using hr
      exact ⟨_, _, _, hu⟩

end MatchTable

namespace MatchTableIndirect

section Same

variable {K S : Type} {s t t' : MatchTableIndirect K S}

theorem same_refl (t : MatchTableIndirect K S) : t.Twin MatchUnit.SameEntries t :=
  ⟨t.matchUnit, t.defaultIndex, rfl, .refl _, fun _ => rfl⟩

theorem same_symm (h : s.Twin MatchUnit.SameEntries t) : t.Twin MatchUnit.SameEntries s := by
  obtain ⟨u, di, rfl, hu, hdi⟩ := h
  exact ⟨t.matchUnit, t.defaultIndex, rfl, hu.symm, fun hset => (hdi hset).symm⟩

theorem same_trans (h : s.Twin MatchUnit.SameEntries t) (h' : t.Twin MatchUnit.SameEntries t') :
    s.Twin MatchUnit.SameEntries t' := by
  obtain ⟨u, di, rfl, hu, hdi⟩ := h
  obtain ⟨u', di', rfl, hu', hdi'⟩ := h'
  exact ⟨u, di, rfl, hu.trans hu', fun hset => (hdi hset).trans (hdi' hset)⟩

theorem same_of_unit {u : MatchUnit K IndirectIndex S} (h : u.SameEntries t.matchUnit) :
    { t with matchUnit := u }.Twin MatchUnit.SameEntries t :=
  ⟨u, t.defaultIndex, rfl, h, fun _ => rfl⟩

end Same

variable {K S : Type} [MatchKey K] (L : LookupStructure K S)

def Op.now : Op → ℕ
  | .addEntry now .. => now
  | _ => 0

theorem Op.admits_true (op : Op) : op.Admits fun _ => True := by
  cases op <;> trivial

section Calls

variable {t t' : MatchTableIndirect K S} {L}

/-- A shared call is the call on the match unit. -/
theorem step_shared {op : Op} {o : MatchTableAbstract.Op} (hshared : op.shared? = some o)
    {r : Result TableReply} (h : t.step L op = some (r, t')) :
    op.deletes? = none ∧ ∃ u, t.base.step t.matchUnit o = some (r, u) ∧
      t' = { t with matchUnit := u } := by
  cases op <;> cases hshared
  obtain ⟨⟨r', u⟩, h', he⟩ := Option.map_eq_some_iff.mp h
  obtain ⟨rfl, rfl⟩ := Prod.mk.inj he
  exact ⟨rfl, u, h', rfl⟩

theorem addIndexed_added {now : ℕ} {params : List MatchKeyParam} {x : IndirectIndex} {priority : ℤ}
    {r : Result ℕ} {h : ℕ} (hs : t.addIndexed L now params x priority = some (r, t'))
    (hr : r.map TableReply.handle = .ok (.handle h)) : ∃ params value priority,
      t.matchUnit.addEntry L now params value priority = some (.ok h, t'.matchUnit) := by
  obtain ⟨c, u, -, hu, rfl⟩ := addIndexed_cases hs
  cases r with
  | error code => cases hr
  | ok handle =>
    obtain rfl : handle = h := by simpa [Except.map] using hr
    exact ⟨_, _, _, hu⟩

theorem step_added {op : Op} {h : ℕ} (hadds : op.adds = true)
    (hs : t.step L op = some (.ok (.handle h), t')) : op.shared? = none ∧
      ∃ params value priority,
        t.matchUnit.addEntry L op.now params value priority = some (.ok h, t'.matchUnit) := by
  cases op <;> try cases hadds
  refine ⟨rfl, ?_⟩
  generalize hr : (.ok (.handle h) : Result TableReply) = r at hs
  cases steps_of_step hs with
  | addRefused => cases hr
  | addEntry _ _ h' => exact addIndexed_added h' hr.symm

end Calls

theorem kind_twins : (kind L : TableKind K IndirectIndex S _ _).Twins L Op.now
    (Twin MatchUnit.SameEntries) where
  refl := same_refl
  symm := same_symm
  trans := same_trans
  unit := by
    rintro s t ⟨u, di, rfl, hu, -⟩
    exact hu
  base := by
    rintro s t ⟨u, di, rfl, -, -⟩
    rfl
  edits := by
    intro s t op h hedits
    cases op with
    | call op =>
      refine .reply _ (h.step MatchUnit.SameEntries.congruence op.admits_true fun o ho => ?_)
      subst ho
      cases hedits
    | reset =>
      exact (h.resetState MatchUnit.SameEntries.congruence).map fun _ _ h' => ⟨rfl, h'⟩
    | packet | sweep => cases hedits
  frame := by
    intro t op o t' hedits hs
    cases acts_of_act hs with
    | @call op r t' h =>
      obtain ⟨c, hshared⟩ := TableKind.exists_shared hedits
      obtain ⟨-, u, h', rfl⟩ := step_shared hshared h
      exact same_of_unit (.step h')
    | packet hl _ hf => exact same_of_unit (.packet hl hf)
    | sweep => exact same_refl t
    | reset => cases hedits
  shared := by
    intro t op o x t' hshared hs
    obtain ⟨⟨r, t₁⟩, h, he⟩ := Option.map_eq_some_iff.mp hs
    obtain ⟨-, rfl⟩ := Prod.mk.inj he
    obtain ⟨hdeletes, u, h', rfl⟩ := step_shared hshared h
    exact ⟨hdeletes, r, h'⟩
  added := by
    intro t op h t' hadds hs
    obtain ⟨⟨r, t₁⟩, hstep, he⟩ := Option.map_eq_some_iff.mp hs
    obtain ⟨hr, rfl⟩ := Prod.mk.inj he
    obtain rfl := Observation.reply.inj hr
    exact step_added hadds hstep

end MatchTableIndirect

namespace MatchTableIndirectWS

variable {K S : Type} [MatchKey K] (L : LookupStructure K S)

def Op.now : Op → ℕ
  | .indirect op => op.now
  | .addEntryWs now .. => now
  | _ => 0

theorem Op.admits_true (op : Op) : op.Admits fun _ => True := by
  cases op with
  | indirect op => exact op.admits_true
  | _ => trivial

theorem kind_twins : (kind L : TableKind K IndirectIndex S _ _).Twins L Op.now
    (Twin MatchUnit.SameEntries) where
  refl t := ⟨_, rfl, MatchTableIndirect.same_refl _⟩
  symm := by
    rintro s t ⟨t₁, rfl, h⟩
    exact ⟨_, rfl, MatchTableIndirect.same_symm h⟩
  trans := by
    rintro s t t' ⟨t₁, rfl, h⟩ ⟨t₂, rfl, h'⟩
    exact ⟨_, rfl, MatchTableIndirect.same_trans h h'⟩
  unit := by
    rintro s t ⟨_, rfl, u, di, rfl, hu, -⟩
    exact hu
  base := by
    rintro s t ⟨_, rfl, u, di, rfl, -, -⟩
    rfl
  edits := by
    intro s t op h hedits
    cases op with
    | call op =>
      refine .reply _ (h.step MatchUnit.SameEntries.congruence op.admits_true fun o ho => ?_)
      subst ho
      cases hedits
    | reset =>
      exact (h.resetState MatchUnit.SameEntries.congruence).map fun _ _ h' => ⟨rfl, h'⟩
    | packet | sweep => cases hedits
  frame := by
    intro t op o t' hedits hs
    cases acts_of_act hs with
    | @call op r t' h =>
      obtain ⟨c, hshared⟩ := TableKind.exists_shared hedits
      cases op with
      | indirect op =>
        obtain ⟨t₁, h₁, rfl⟩ := liftIndirect_eq_some h
        obtain ⟨-, u, h', rfl⟩ := MatchTableIndirect.step_shared hshared h₁
        exact ⟨_, rfl, MatchTableIndirect.same_of_unit (.step h')⟩
      | _ => cases hshared
    | packet hl _ hf => exact ⟨_, rfl, MatchTableIndirect.same_of_unit (.packet hl hf)⟩
    | sweep => exact ⟨_, rfl, MatchTableIndirect.same_refl _⟩
    | reset => cases hedits
  shared := by
    intro t op o x t' hshared hs
    obtain ⟨⟨r, t₁⟩, h, he⟩ := Option.map_eq_some_iff.mp hs
    obtain ⟨-, rfl⟩ := Prod.mk.inj he
    cases op with
    | indirect op =>
      obtain ⟨t₁, h₁, rfl⟩ := liftIndirect_eq_some h
      obtain ⟨hdeletes, u, h', rfl⟩ := MatchTableIndirect.step_shared hshared h₁
      exact ⟨hdeletes, r, h'⟩
    | _ => cases hshared
  added := by
    intro t op h t' hadds hs
    obtain ⟨⟨r, t₁⟩, hstep, he⟩ := Option.map_eq_some_iff.mp hs
    obtain ⟨hr, rfl⟩ := Prod.mk.inj he
    obtain rfl := Observation.reply.inj hr
    cases op with
    | indirect op =>
      obtain ⟨t₂, h₁, rfl⟩ := liftIndirect_eq_some hstep
      exact MatchTableIndirect.step_added hadds h₁
    | addEntryWs now params grp priority =>
      refine ⟨rfl, ?_⟩
      generalize hr' : (.ok (.handle h) : Result TableReply) = r at hstep
      cases steps_of_step hstep with
      | addRefused => cases hr'
      | addEntryWs _ _ h' => exact MatchTableIndirect.addIndexed_added h' hr'.symm
    | _ => cases hadds

end MatchTableIndirectWS

section Runs

variable {K V S : Type} [MatchKey K] {L : LookupStructure K S}

theorem MatchUnit.MetaInv.setDirectMeters [Inhabited V] {size : ℕ} (hsize : size ≤ 2 ^ 32)
    {kb : MatchKeyBuilder} {ls : S} {meters : List Meter} {u : MatchUnit K V S}
    (h : (MatchUnit.create size kb ls).setDirectMeters meters = some u) : u.MetaInv := by
  rw [MatchUnit.setDirectMeters] at h
  split_ifs at h
  obtain rfl := Option.some.inj h
  exact ⟨(MatchUnit.Wf.create hsize kb ls).frame _ rfl, by simp [MatchUnit.create]⟩

/-- In every run of a table with counters, ageing and direct meters, an entry just added counts
from zero. It is not swept before a timeout is set for its slot, and its meter gives color 0
before rates are set for its slot, if the former entries of the slot have left no timeout and
no configured meter. Two runs that differ in what was done to the former entries, and later in
shared calls on other slots, then see the same of it. -/
theorem slot_reuse_isolated {size : ℕ} (hsize : size ≤ 2 ^ 32) (base : MatchTableAbstract)
    (kb : MatchKeyBuilder) (ls : S) (type : MeterType) (rateCount : ℕ) :
    (∀ init, (MatchTable.create { base with withCounters := true, withAgeing := true }
        size kb ls).setDirectMeters (List.replicate size (.create type rateCount)) = some init →
      (MatchTable.kind L).Isolated init ∧ (MatchTable.kind L).Noninterfering init) ∧
    (∀ init, (MatchTableIndirect.create { base with withCounters := true, withAgeing := true }
        size kb ls).setDirectMeters (List.replicate size (.create type rateCount)) = some init →
      (MatchTableIndirect.kind L).Isolated init ∧
        (MatchTableIndirect.kind L).Noninterfering init) ∧
    (∀ init, (MatchTableIndirectWS.create { base with withCounters := true, withAgeing := true }
        size kb ls).setDirectMeters (List.replicate size (.create type rateCount)) = some init →
      (MatchTableIndirectWS.kind L).Isolated init ∧
        (MatchTableIndirectWS.kind L).Noninterfering init) := by
  refine ⟨fun init hinit => ?_, fun init hinit => ?_, fun init hinit => ?_⟩
  · obtain ⟨u, hu, rfl⟩ := Option.map_eq_some_iff.mp hinit
    have hmeta := MatchUnit.MetaInv.setDirectMeters hsize hu
    exact ⟨(MatchTable.kind_frames L).isolated ⟨hmeta, rfl, rfl⟩,
      (MatchTable.kind_frames L).noninterfering (MatchTable.kind_twins L) ⟨hmeta, rfl, rfl⟩⟩
  · obtain ⟨u, hu, rfl⟩ := Option.map_eq_some_iff.mp hinit
    have hmeta := MatchUnit.MetaInv.setDirectMeters hsize hu
    exact ⟨(MatchTableIndirect.kind_frames L).isolated ⟨hmeta, rfl, rfl⟩,
      (MatchTableIndirect.kind_frames L).noninterfering (MatchTableIndirect.kind_twins L)
        ⟨hmeta, rfl, rfl⟩⟩
  · obtain ⟨t₁, ht₁, rfl⟩ := Option.map_eq_some_iff.mp hinit
    obtain ⟨u, hu, rfl⟩ := Option.map_eq_some_iff.mp ht₁
    have hmeta := MatchUnit.MetaInv.setDirectMeters hsize hu
    exact ⟨(MatchTableIndirectWS.kind_frames L).isolated ⟨hmeta, rfl, rfl⟩,
      (MatchTableIndirectWS.kind_frames L).noninterfering (MatchTableIndirectWS.kind_twins L)
        ⟨hmeta, rfl, rfl⟩⟩

end Runs

/-- A direct table of one slot keyed by one byte, with counters, ageing and a direct meter. -/
def meteredTable : Option (MatchTable ExactMatchKey (AList fun _ : List ByteBits.Byte => ℕ)) :=
  (MatchTable.create { withCounters := true, withAgeing := true, nextNodeHit := some none } 1
    (({} : MatchKeyBuilder).pushBackField 0 0 8 .exact) ∅).setDirectMeters
      (List.replicate 1 (.create .packets 1))

/-- The first entry of the slot is not swept, and its packets get color 0. -/
theorem slot_reuse_isolated_first :
    ∃ init t₁ t₂ a t₃, meteredTable = some init ∧
      init.act exactMap (.call (.addEntry 0 [{ type := .exact, key := [4] }] 7 [] 0)) =
        some (.reply (.ok (.handle 0)), t₁) ∧
      t₁.base.queryCounters t₁.matchUnit 0 = some (.ok {}) ∧
      t₁.act exactMap (.sweep 10) = some (.swept [], t₂) ∧
      t₂.act exactMap (.packet (onePacket 4) none 0) = some (.applied a, t₃) ∧
      a.handle = some 0 ∧ a.color = some 0 := by
  have heval : (meteredTable.bind fun init =>
      (init.addEntry exactMap 0 [{ type := .exact, key := [4] }] 7 [] 0).bind fun p =>
        (p.2.matchUnit.sweepEntries 10).bind fun hs =>
          (p.2.applyAction exactMap (onePacket 4) 0).map fun q =>
            (init.matchUnit.configuredAt init.matchUnit.handles.firstEmpty,
              decide (p.1 = .ok 0), hs, q.1.handle)) = some (some false, true, [], some 0) := by
    decide +kernel
  obtain ⟨init, hinit, h⟩ := Option.bind_eq_some_iff.mp heval
  obtain ⟨⟨r, t₁⟩, hadd, h⟩ := Option.bind_eq_some_iff.mp h
  obtain ⟨hs, hsweep, h⟩ := Option.bind_eq_some_iff.mp h
  obtain ⟨⟨a, t₃⟩, hpkt, h⟩ := Option.map_eq_some_iff.mp h
  simp only [Prod.mk.injEq, decide_eq_true_eq] at h
  obtain ⟨hclean, rfl, rfl, ha⟩ := h
  have hadd' : init.act exactMap (.call (.addEntry 0 [{ type := .exact, key := [4] }] 7 [] 0)) =
      some (.reply (.ok (.handle 0)), t₁) :=
    Option.map_eq_some_iff.mpr ⟨_, Option.map_eq_some_iff.mpr ⟨_, hadd, rfl⟩, rfl⟩
  have hsweep' : t₁.act exactMap (.sweep 10) = some (.swept [], t₁) :=
    Option.map_eq_some_iff.mpr ⟨_, hsweep, rfl⟩
  have hpkt' : t₁.act exactMap (.packet (onePacket 4) none 0) = some (.applied a, t₃) :=
    Option.map_eq_some_iff.mpr ⟨_, hpkt, rfl⟩
  have hiso := ((slot_reuse_isolated (show 1 ≤ 2 ^ 32 by decide) { nextNodeHit := some none }
    (({} : MatchKeyBuilder).pushBackField 0 0 8 .exact) ∅ .packets 1).1 init hinit).1 _ .refl
    (MatchTable.Op.addEntry 0 [{ type := .exact, key := [4] }] 7 [] 0) 0 t₁ rfl hadd'
  exact ⟨init, t₁, t₁, a, t₃, hinit, hadd', hiso.1 t₁ .refl, hsweep', hpkt', ha,
    hiso.2.2 hclean t₁ (.tail (a := TableOp.sweep 10) .refl
      ⟨trivial, fun _ heq => by cases heq⟩ hsweep') (onePacket 4) none 0 a
      t₃ hpkt' ha⟩

/-- An entry with a timeout and rates is deleted; the next entry of the slot is swept and
colored without either being set for it. -/
theorem slot_reuse_leaks :
    ∃ init t t₁ t₂ a t₃, meteredTable = some init ∧
      Transition.Reach (MatchTable.act exactMap) (fun _ _ => True) init t ∧
      t.act exactMap (.call (.addEntry 0 [{ type := .exact, key := [5] }] 7 [] 0)) =
        some (.reply (.ok (.handle (2 ^ 32))), t₁) ∧
      t₁.act exactMap (.sweep 10) = some (.swept [2 ^ 32], t₂) ∧
      t₂.act exactMap (.packet (onePacket 5) none 0) = some (.applied a, t₃) ∧
      a.handle = some (2 ^ 32) ∧ a.color = some 1 := by
  have heval : (meteredTable.bind fun init =>
      (Transition.runAll (MatchTable.act exactMap) (fun _ _ => True) init
        [.call (.addEntry 0 [{ type := .exact, key := [4] }] 7 [] 0),
          .call (.base (.setEntryTtl 0 5)), .call (.base (.setMeterRates 0 [⟨0, 0⟩])),
          .call (.deleteEntry 0)]).bind fun t =>
        (t.addEntry exactMap 0 [{ type := .exact, key := [5] }] 7 [] 0).bind fun p =>
          (p.2.matchUnit.sweepEntries 10).bind fun hs =>
            (p.2.applyAction exactMap (onePacket 5) 0).map fun q =>
              (decide (p.1 = .ok (2 ^ 32)), hs, q.1.handle, q.1.color)) =
      some (true, [2 ^ 32], some (2 ^ 32), some 1) := by
    decide +kernel
  obtain ⟨init, hinit, h⟩ := Option.bind_eq_some_iff.mp heval
  obtain ⟨t, hrun, h⟩ := Option.bind_eq_some_iff.mp h
  obtain ⟨⟨r, t₁⟩, hadd, h⟩ := Option.bind_eq_some_iff.mp h
  obtain ⟨hs, hsweep, h⟩ := Option.bind_eq_some_iff.mp h
  obtain ⟨⟨a, t₃⟩, hpkt, h⟩ := Option.map_eq_some_iff.mp h
  simp only [Prod.mk.injEq, decide_eq_true_eq] at h
  obtain ⟨rfl, rfl, ha, hc⟩ := h
  exact ⟨init, t, t₁, t₁, a, t₃, hinit, .of_runAll hrun,
    Option.map_eq_some_iff.mpr ⟨_, Option.map_eq_some_iff.mpr ⟨_, hadd, rfl⟩, rfl⟩,
    Option.map_eq_some_iff.mpr ⟨_, hsweep, rfl⟩, Option.map_eq_some_iff.mpr ⟨_, hpkt, rfl⟩, ha, hc⟩

end Bmv2
