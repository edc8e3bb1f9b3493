import Bmv2.Match.UnitSpec

/-! What all match tables share (`MatchTableAbstract` of `match_tables.cpp`), and the direct
table `MatchTable`. Locks, logging and the name of a table are left out. -/
namespace Bmv2
open ByteBits

/-- `MatchTableAbstract::ActionEntry`: an action with its data, and the node to go to. -/
structure ActionEntry where
  actionFn : Option ℕ := none
  actionData : List ℤ := []
  nextNode : Option ℕ := none
  deriving DecidableEq, Inhabited

/-- The members of `MatchTableAbstract` other than the match unit. -/
structure MatchTableAbstract where
  withCounters : Bool := false
  withMeters : Bool := false
  withAgeing : Bool := false
  nextNodes : List (ℕ × Option ℕ) := []
  nextNodeHit : Option (Option ℕ) := none
  nextNodeMiss : Option ℕ := none
  hasNextNodeMiss : Bool := false

inductive MatchTableAbstract.Op where
  | queryCounters (handle : ℕ)
  | resetCounters
  | writeCounters (handle : ℕ) (bytes packets : ℕ)
  | setMeterRates (handle : ℕ) (configs : List RateConfig)
  | setEntryTtl (handle : ℕ) (ttlMs : ℕ)

/-- What a successful call on a table hands back. -/
inductive TableReply where
  | done
  | handle (h : ℕ)
  | mbr (m : ℕ)
  | grp (g : ℕ)
  | counters (c : Counter)
  | entry (params : List MatchKeyParam) (action : ActionEntry) (priority : ℤ)
  | indirectEntry (params : List MatchKeyParam) (mbr grp : ℕ) (priority : ℤ)
  | action (a : ActionEntry)
  | mbrs (l : List ℕ)
  | size (n : ℕ)
  deriving DecidableEq

namespace MatchTableAbstract

variable {K V S : Type} (t : MatchTableAbstract) (u : MatchUnit K V S)

/-- `next_nodes.at` throws for an unknown action. -/
def getNextNode (actionId : ℕ) : Option (Option ℕ) :=
  match t.nextNodeHit with
  | some node => some node
  | none => t.nextNodes.lookup actionId

def getNextNodeDefault (actionId : ℕ) : Option (Option ℕ) :=
  if t.hasNextNodeMiss then some t.nextNodeMiss else t.nextNodes.lookup actionId

/-- `query_counters` looks at the slot of the handle only. -/
def queryCounters (handle : ℕ) : Option (Result Counter) :=
  if !t.withCounters then some (.error .countersDisabled)
  else if !u.validHandle handle then some (.error .invalidHandle)
  else u.entryMeta[handleInternal handle]?.map fun m => .ok m.counter

def resetCounters : Result Unit × MatchUnit K V S :=
  if !t.withCounters then (.error .countersDisabled, u)
  else (.ok (), { u with entryMeta := u.entryMeta.map fun m => { m with counter := {} } })

def writeCounters (handle bytes packets : ℕ) : Option (Result Unit × MatchUnit K V S) :=
  if !t.withCounters then some (.error .countersDisabled, u)
  else if !u.validHandle handle then some (.error .invalidHandle, u)
  else u.entryMeta[handleInternal handle]?.map fun m =>
    (.ok (), { u with
      entryMeta := u.entryMeta.set (handleInternal handle)
        { m with counter := ⟨bytes, packets⟩ } })

/-- `set_meter_rates`; what the meter has taken before it refuses a rate stays. -/
def setMeterRates (handle : ℕ) (configs : List RateConfig) :
    Option (Result Unit × MatchUnit K V S) :=
  if !t.withMeters then some (.error .metersDisabled, u)
  else if !u.validHandle handle then some (.error .invalidHandle, u)
  else do
    let meters ← u.directMeters
    let meter ← meters[handleInternal handle]?
    let (rc, meter) := meter.setRates configs
    let u := { u with directMeters := some (meters.set (handleInternal handle) meter) }
    some (if rc = .success then .ok () else .error .error, u)

def setEntryTtl (handle ttlMs : ℕ) : Option (Result Unit × MatchUnit K V S) :=
  if !t.withAgeing then some (.error .ageingDisabled, u) else u.setEntryTtl handle ttlMs

def step (u : MatchUnit K V S) : Op → Option (Result TableReply × MatchUnit K V S)
  | .queryCounters handle => (t.queryCounters u handle).map fun r => (r.map .counters, u)
  | .resetCounters =>
    let (r, u) := t.resetCounters u
    some (r.map fun _ => .done, u)
  | .writeCounters handle bytes packets =>
    (t.writeCounters u handle bytes packets).map fun (r, u) => (r.map fun _ => .done, u)
  | .setMeterRates handle configs =>
    (t.setMeterRates u handle configs).map fun (r, u) => (r.map fun _ => .done, u)
  | .setEntryTtl handle ttlMs =>
    (t.setEntryTtl u handle ttlMs).map fun (r, u) => (r.map fun _ => .done, u)

variable {t} {u u' : MatchUnit K V S}

/-- What the calls that all tables share do to the entries. -/
inductive Steps (u : MatchUnit K V S) : Op → MatchUnit K V S → Prop
  | same (op : Op) : Steps u op u
  | resetCounters : Steps u .resetCounters
      { u with entryMeta := u.entryMeta.map fun m => { m with counter := {} } }
  | writeCounters {handle bytes packets : ℕ} {m : EntryMeta} : u.validHandle handle →
      u.entryMeta[handleInternal handle]? = some m → Steps u (.writeCounters handle bytes packets)
      { u with
        entryMeta := u.entryMeta.set (handleInternal handle)
          { m with counter := ⟨bytes, packets⟩ } }
  | setMeterRates {handle : ℕ} {configs : List RateConfig} {meters : List Meter} {m : Meter} :
      u.validHandle handle → u.directMeters = some meters →
      meters[handleInternal handle]? = some m → Steps u (.setMeterRates handle configs)
      { u with
        directMeters := some (meters.set (handleInternal handle) (m.setRates configs).2) }
  | setEntryTtl {handle ttlMs : ℕ} {m : EntryMeta} : u.validHandle_ (handleInternal handle) →
      u.entryMeta[handleInternal handle]? = some m → Steps u (.setEntryTtl handle ttlMs)
      { u with
        entryMeta := u.entryMeta.set (handleInternal handle) { m with timeoutMs := ttlMs } }

theorem steps_of_step {op : Op} {r : Result TableReply} (h : t.step u op = some (r, u')) :
    Steps u op u' := by
  cases op with
  | queryCounters handle =>
    obtain ⟨_, -, he⟩ := Option.map_eq_some_iff.mp h
    obtain rfl : u = u' := congrArg Prod.snd he
    exact .same _
  | resetCounters =>
    simp only [step, resetCounters, Option.some.injEq, Prod.mk.injEq] at h
    obtain ⟨-, rfl⟩ := h
    split_ifs
    · exact .same _
    · exact .resetCounters
  | writeCounters handle bytes packets =>
    obtain ⟨⟨r', u''⟩, h', he⟩ := Option.map_eq_some_iff.mp h
    obtain rfl : u'' = u' := congrArg Prod.snd he
    rw [writeCounters] at h'
    split_ifs at h' with _ hvalid
    · obtain rfl := congrArg Prod.snd (Option.some.inj h')
      exact .same _
    · obtain rfl := congrArg Prod.snd (Option.some.inj h')
      exact .same _
    · obtain ⟨m, hm, he'⟩ := Option.map_eq_some_iff.mp h'
      obtain rfl := congrArg Prod.snd he'
      exact .writeCounters (by simpa using hvalid) hm
  | setMeterRates handle configs =>
    obtain ⟨⟨r', u''⟩, h', he⟩ := Option.map_eq_some_iff.mp h
    obtain rfl : u'' = u' := congrArg Prod.snd he
    rw [setMeterRates] at h'
    split_ifs at h' with _ hvalid
    · obtain rfl := congrArg Prod.snd (Option.some.inj h')
      exact .same _
    · obtain rfl := congrArg Prod.snd (Option.some.inj h')
      exact .same _
    · obtain ⟨meters, hmeters, h'⟩ := Option.bind_eq_some_iff.mp h'
      obtain ⟨m, hm, h'⟩ := Option.bind_eq_some_iff.mp h'
      obtain rfl := congrArg Prod.snd (Option.some.inj h')
      exact .setMeterRates (by simpa using hvalid) hmeters hm
  | setEntryTtl handle ttlMs =>
    obtain ⟨⟨r', u''⟩, h', he⟩ := Option.map_eq_some_iff.mp h
    obtain rfl : u'' = u' := congrArg Prod.snd he
    rw [setEntryTtl, MatchUnit.setEntryTtl] at h'
    split_ifs at h' with _ hvalid
    · obtain rfl := congrArg Prod.snd (Option.some.inj h')
      exact .same _
    · obtain rfl := congrArg Prod.snd (Option.some.inj h')
      exact .same _
    · obtain ⟨m, hm, h'⟩ := Option.bind_eq_some_iff.mp h'
      obtain rfl := congrArg Prod.snd (Option.some.inj h')
      exact .setEntryTtl (by simpa using hvalid) hm

/-- The calls all tables share touch the entries' metadata and meters at most. -/
theorem step_cases {op : Op} {r : Result TableReply} (h : t.step u op = some (r, u')) :
    ∃ entryMeta directMeters, entryMeta.length = u.entryMeta.length ∧
      u' = { u with entryMeta, directMeters } := by
  cases steps_of_step h with
  | same => exact ⟨_, _, rfl, rfl⟩
  | resetCounters => exact ⟨_, u.directMeters, List.length_map .., rfl⟩
  | writeCounters => exact ⟨_, u.directMeters, List.length_set, rfl⟩
  | setMeterRates => exact ⟨u.entryMeta, _, rfl, rfl⟩
  | setEntryTtl => exact ⟨_, u.directMeters, List.length_set, rfl⟩

theorem step_wf [MatchKey K] {op : Op} {r : Result TableReply} (hwf : u.Wf)
    (h : t.step u op = some (r, u')) :
    u'.Wf := by
  obtain ⟨entryMeta, directMeters, hlen, rfl⟩ := step_cases h
  exact hwf.frame directMeters hlen

end MatchTableAbstract

/-- `MatchTable`: the entries hold their action. -/
structure MatchTable (K S : Type) where
  base : MatchTableAbstract
  matchUnit : MatchUnit K ActionEntry S
  defaultEntry : ActionEntry := {}

inductive MatchTable.Op where
  | addEntry (now : ℕ) (params : List MatchKeyParam) (actionFn : ℕ) (actionData : List ℤ)
      (priority : ℤ)
  | deleteEntry (handle : ℕ)
  | modifyEntry (handle : ℕ) (actionFn : ℕ) (actionData : List ℤ)
  | setDefaultAction (actionFn : ℕ) (actionData : List ℤ)
  | getValue (handle : ℕ)
  | getEntry (handle : ℕ)
  | base (op : MatchTableAbstract.Op)

namespace MatchTable

variable {K S : Type} [MatchKey K] (L : LookupStructure K S) (t : MatchTable K S)

def create (base : MatchTableAbstract) (size : ℕ) (kb : MatchKeyBuilder) (ls : S) :
    MatchTable K S where
  base
  matchUnit := .create size kb ls

def addEntry (now : ℕ) (params : List MatchKeyParam) (actionFn : ℕ) (actionData : List ℤ)
    (priority : ℤ) : Option (Result ℕ × MatchTable K S) := do
  let nextNode ← t.base.getNextNode actionFn
  let (r, matchUnit) ← t.matchUnit.addEntry L now params ⟨actionFn, actionData, nextNode⟩ priority
  some (r, { t with matchUnit })

def deleteEntry (handle : ℕ) : Option (Result Unit × MatchTable K S) := do
  let (r, matchUnit) ← t.matchUnit.deleteEntry L handle
  some (r, { t with matchUnit })

def modifyEntry (handle actionFn : ℕ) (actionData : List ℤ) :
    Option (Result Unit × MatchTable K S) := do
  let nextNode ← t.base.getNextNode actionFn
  let (r, matchUnit) ← t.matchUnit.modifyEntry handle ⟨actionFn, actionData, nextNode⟩
  some (r, { t with matchUnit })

def setDefaultAction (actionFn : ℕ) (actionData : List ℤ) : Option (MatchTable K S) := do
  let nextNode ← t.base.getNextNodeDefault actionFn
  some { t with
    base := { t.base with nextNodeMiss := nextNode }
    defaultEntry := ⟨actionFn, actionData, nextNode⟩ }

/-- `lookup` on the key of a packet: the default entry stands in for a miss. -/
def lookup (key : List Byte) : Option (Option ℕ × ActionEntry) :=
  (t.matchUnit.lookupKey L key).map fun
    | none => (none, t.defaultEntry)
    | some (handle, action) => (some handle, action)

def step (t : MatchTable K S) : Op → Option (Result TableReply × MatchTable K S)
  | .addEntry now params actionFn actionData priority =>
    (t.addEntry L now params actionFn actionData priority).map fun (r, t) => (r.map .handle, t)
  | .deleteEntry handle => (t.deleteEntry L handle).map fun (r, t) => (r.map fun _ => .done, t)
  | .modifyEntry handle actionFn actionData =>
    (t.modifyEntry handle actionFn actionData).map fun (r, t) => (r.map fun _ => .done, t)
  | .setDefaultAction actionFn actionData =>
    (t.setDefaultAction actionFn actionData).map fun t => (.ok .done, t)
  | .getValue handle => (t.matchUnit.getValue handle).map fun r => (r.map .action, t)
  | .getEntry handle =>
    (t.matchUnit.getEntry handle).map fun r => (r.map fun (p, a, n) => .entry p a n, t)
  | .base op =>
    (t.base.step t.matchUnit op).map fun (r, matchUnit) => (r, { t with matchUnit })

end MatchTable

end Bmv2
