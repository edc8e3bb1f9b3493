import Bmv2.Match.PacketKey
import Bmv2.Tables.IndirectSpec

/-! Packets at a table (`MatchTableAbstract::apply_action` with the three `lookup` functions of
`match_tables.cpp`), and the set-up calls that a configuration makes. -/
namespace Bmv2
open ByteBits

/-- What `apply_action` does for a packet: the entry it hits, the action it runs, the color
that the direct meter gives, and the node it goes to. -/
structure Applied where
  handle : Option ℕ
  action : ActionEntry
  color : Option ℕ
  nextNode : Option ℕ
  deriving DecidableEq

namespace MatchTableAbstract

variable {K V S : Type} (t : MatchTableAbstract) (u : MatchUnit K V S)

/-- `next_nodes[action_id] = next_node`: the last call for an action counts. -/
def setNextNode (actionId : ℕ) (nextNode : Option ℕ) : MatchTableAbstract :=
  { t with nextNodes := (actionId, nextNode) :: t.nextNodes }

def setNextNodeHit (nextNode : Option ℕ) : MatchTableAbstract :=
  { t with nextNodeHit := some nextNode }

def setNextNodeMiss (nextNode : Option ℕ) : MatchTableAbstract :=
  { t with hasNextNodeMiss := true, nextNodeMiss := nextNode }

def setNextNodeMissDefault (nextNode : Option ℕ) : MatchTableAbstract :=
  if t.hasNextNodeMiss then t else { t with nextNodeMiss := nextNode }

/-- The direct meter of an entry, which runs on a hit only. -/
def executeMeter (handle : Option ℕ) (pkt : Packet) (micros : ℕ) :
    Option (Option ℕ × MatchUnit K V S) :=
  match handle, t.withMeters with
  | some handle, true => do
    let meters ← u.directMeters
    let meter ← meters[handleInternal handle]?
    let (color, meter) ← meter.execute micros pkt.ingressLength
    some (some color,
      { u with directMeters := some (meters.set (handleInternal handle) meter) })
  | _, _ => some (none, u)

/-- `apply_action` after the lookup. The action's own effect on the packet is left out. -/
def finishApply (handle : Option ℕ) (action : ActionEntry) (pkt : Packet) (micros : ℕ) :
    Option (Applied × MatchUnit K V S) := do
  let (color, u) ← t.executeMeter u handle pkt micros
  some ({ handle, action, color,
          nextNode := if handle.isSome then action.nextNode else t.nextNodeMiss }, u)

variable {t} {u u' : MatchUnit K V S} {handle : Option ℕ} {pkt : Packet} {micros : ℕ}

/-- The meter runs for a hit on a table with meters, and touches nothing but itself. -/
theorem executeMeter_cases {color : Option ℕ}
    (h : t.executeMeter u handle pkt micros = some (color, u')) :
    (color = none ∧ u' = u ∧ (handle = none ∨ t.withMeters = false)) ∨
    ∃ hdl meters meter c meter', handle = some hdl ∧ t.withMeters = true ∧
      u.directMeters = some meters ∧ meters[handleInternal hdl]? = some meter ∧
      meter.execute micros pkt.ingressLength = some (c, meter') ∧ color = some c ∧
      u' = { u with directMeters := some (meters.set (handleInternal hdl) meter') } := by
  cases handle with
  | none =>
    obtain ⟨rfl, rfl⟩ := Prod.mk.inj (Option.some.inj h)
    exact .inl ⟨rfl, rfl, .inl rfl⟩
  | some hdl =>
    cases hw : t.withMeters with
    | false =>
      simp only [executeMeter, hw] at h
      obtain ⟨rfl, rfl⟩ := Prod.mk.inj (Option.some.inj h)
      exact .inl ⟨rfl, rfl, .inr rfl⟩
    | true =>
      simp only [executeMeter, hw] at h
      obtain ⟨meters, hmeters, h⟩ := Option.bind_eq_some_iff.mp h
      obtain ⟨meter, hmeter, h⟩ := Option.bind_eq_some_iff.mp h
      obtain ⟨⟨c, meter'⟩, hexec, h⟩ := Option.bind_eq_some_iff.mp h
      obtain ⟨rfl, rfl⟩ := Prod.mk.inj (Option.some.inj h)
      exact .inr ⟨hdl, meters, meter, c, meter', rfl, rfl, hmeters, hmeter, hexec, rfl, rfl⟩

theorem finishApply_cases {action : ActionEntry} {a : Applied}
    (h : t.finishApply u handle action pkt micros = some (a, u')) :
    ∃ color, t.executeMeter u handle pkt micros = some (color, u') ∧
      a = ⟨handle, action, color,
        if handle.isSome then action.nextNode else t.nextNodeMiss⟩ := by
  obtain ⟨⟨color, u₁⟩, hm, h⟩ := Option.bind_eq_some_iff.mp h
  obtain ⟨rfl, rfl⟩ := Prod.mk.inj (Option.some.inj h)
  exact ⟨color, hm, rfl⟩

end MatchTableAbstract

/-- A packet leaves the entries alone. -/
theorem MatchUnit.lookup_frame {K V S : Type} [MatchKey K] {L : LookupStructure K S}
    {b : MatchTableAbstract} {u u₁ u' : MatchUnit K V S} {pkt : Packet} {res : Option (ℕ × V)}
    {action : ActionEntry} {micros : ℕ} {a : Applied} (hl : u.lookup L pkt = some (res, u₁))
    (hf : b.finishApply u₁ (res.map Prod.fst) action pkt micros = some (a, u')) :
    ∃ entryMeta directMeters, entryMeta.length = u.entryMeta.length ∧
      u' = { u with entryMeta, directMeters } := by
  obtain ⟨color, hm, -⟩ := MatchTableAbstract.finishApply_cases hf
  obtain ⟨key, -, -, ⟨-, rfl⟩ | ⟨handle, value, m, -, -, rfl⟩⟩ := lookup_cases hl <;>
    obtain ⟨-, rfl, -⟩ | ⟨_, _, _, _, _, -, -, -, -, -, -, rfl⟩ :=
      MatchTableAbstract.executeMeter_cases hm
  · exact ⟨_, _, rfl, rfl⟩
  · exact ⟨u₁.entryMeta, _, rfl, rfl⟩
  · exact ⟨_, u.directMeters, by simp, rfl⟩
  · exact ⟨_, _, by simp, rfl⟩

/-- What happens at a table: a call, a packet (with what the selector's hash gives for it and
the time on the meters' clock), a sweep of the ageing entries, or a reset. -/
inductive TableOp (α : Type) where
  | call (op : α)
  | packet (pkt : Packet) (hash : Option ℕ) (micros : ℕ)
  | sweep (nowMs : ℕ)
  | reset

def TableOp.isReset {α : Type} : TableOp α → Bool
  | .reset => true
  | _ => false

/-- A table as it was constructed, or after direct meters have been attached to it. -/
def SetUp {σ : Type} (setDirectMeters : σ → List Meter → Option σ) (t init : σ) : Prop :=
  init = t ∨ ∃ meters, setDirectMeters t meters = some init

/-- What is seen of it. -/
inductive Observation where
  | reply (r : Result TableReply)
  | applied (a : Applied)
  | swept (handles : List ℕ)
  | done

namespace MatchTable

variable {K S : Type} [MatchKey K] (L : LookupStructure K S) (t : MatchTable K S)

/-- The entry found, or the default entry. -/
def actionOf (res : Option (ℕ × ActionEntry)) : ActionEntry :=
  (res.map Prod.snd).getD t.defaultEntry

def applyAction (pkt : Packet) (micros : ℕ) : Option (Applied × MatchTable K S) := do
  let (res, matchUnit) ← t.matchUnit.lookup L pkt
  let (a, matchUnit) ←
    t.base.finishApply matchUnit (res.map Prod.fst) (t.actionOf res) pkt micros
  some (a, { t with matchUnit })

def setDirectMeters (meters : List Meter) : Option (MatchTable K S) :=
  (t.matchUnit.setDirectMeters meters).map fun matchUnit =>
    { t with matchUnit, base := { t.base with withMeters := true } }

/-- `reset_state_` keeps the default entry. -/
def resetState : Option (MatchTable K S) :=
  (t.matchUnit.resetState L).map fun matchUnit => { t with matchUnit }

def act (t : MatchTable K S) : TableOp Op → Option (Observation × MatchTable K S)
  | .call op => (t.step L op).map fun (r, t) => (.reply r, t)
  | .packet pkt _ micros => (t.applyAction L pkt micros).map fun (a, t) => (.applied a, t)
  | .sweep nowMs => (t.matchUnit.sweepEntries nowMs).map fun handles => (.swept handles, t)
  | .reset => (t.resetState L).map fun t => (.done, t)

theorem applyAction_cases {t t' : MatchTable K S} {L : LookupStructure K S} {pkt : Packet}
    {micros : ℕ} {a : Applied} (h : t.applyAction L pkt micros = some (a, t')) :
    ∃ res u u', t.matchUnit.lookup L pkt = some (res, u) ∧
      t.base.finishApply u (res.map Prod.fst) (t.actionOf res) pkt micros = some (a, u') ∧
      t' = { t with matchUnit := u' } := by
  obtain ⟨⟨res, u⟩, hl, h⟩ := Option.bind_eq_some_iff.mp h
  obtain ⟨⟨a', u'⟩, hf, h⟩ := Option.bind_eq_some_iff.mp h
  obtain ⟨rfl, rfl⟩ := Prod.mk.inj (Option.some.inj h)
  exact ⟨res, u, u', hl, hf, rfl⟩

/-- What an operation does to the table, and what is seen of it. -/
inductive Acts (L : LookupStructure K S) (t : MatchTable K S) :
    TableOp Op → Observation → MatchTable K S → Prop
  | call {op : Op} {r : Result TableReply} {t' : MatchTable K S} :
      t.step L op = some (r, t') → Acts L t (.call op) (.reply r) t'
  | packet {pkt : Packet} {hash : Option ℕ} {micros : ℕ} {res : Option (ℕ × ActionEntry)}
      {u u' : MatchUnit K ActionEntry S} {a : Applied} : t.matchUnit.lookup L pkt = some (res, u) →
      t.base.finishApply u (res.map Prod.fst) (t.actionOf res) pkt micros = some (a, u') →
      Acts L t (.packet pkt hash micros) (.applied a) { t with matchUnit := u' }
  | sweep {nowMs : ℕ} {handles : List ℕ} : t.matchUnit.sweepEntries nowMs = some handles →
      Acts L t (.sweep nowMs) (.swept handles) t
  | reset {t' : MatchTable K S} : t.resetState L = some t' → Acts L t .reset .done t'

theorem acts_of_act {t t' : MatchTable K S} {L : LookupStructure K S} {op : TableOp Op}
    {o : Observation} (h : t.act L op = some (o, t')) : Acts L t op o t' := by
  cases op with
  | call op =>
    obtain ⟨⟨r, t₁⟩, h', he⟩ := Option.map_eq_some_iff.mp h
    obtain ⟨rfl, rfl⟩ := Prod.mk.inj he
    exact .call h'
  | packet pkt hash micros =>
    obtain ⟨⟨a, t₁⟩, h', he⟩ := Option.map_eq_some_iff.mp h
    obtain ⟨rfl, rfl⟩ := Prod.mk.inj he
    obtain ⟨res, u, u', hl, hf, rfl⟩ := applyAction_cases h'
    exact .packet hl hf
  | sweep nowMs =>
    obtain ⟨handles, h', he⟩ := Option.map_eq_some_iff.mp h
    obtain ⟨rfl, rfl⟩ := Prod.mk.inj he
    exact .sweep h'
  | reset =>
    obtain ⟨t₁, h', he⟩ := Option.map_eq_some_iff.mp h
    obtain ⟨rfl, rfl⟩ := Prod.mk.inj he
    exact .reset h'

end MatchTable

namespace MatchTableIndirect

variable {K S : Type} [MatchKey K] (L : LookupStructure K S) (t : MatchTableIndirect K S)

/-- The action of the member found, of the default member, or none. -/
def actionOf (res : Option (ℕ × IndirectIndex)) : Option ActionEntry :=
  if res.isNone && !t.defaultSet then some {}
  else do
    let mbr ← ((res.map Prod.snd).getD t.defaultIndex).getMbr
    if t.isValidMbr mbr then t.actionEntries[mbr]? else none

def applyAction (pkt : Packet) (micros : ℕ) : Option (Applied × MatchTableIndirect K S) := do
  let (res, matchUnit) ← t.matchUnit.lookup L pkt
  let action ← t.actionOf res
  let (a, matchUnit) ← t.base.finishApply matchUnit (res.map Prod.fst) action pkt micros
  some (a, { t with matchUnit })

def setDirectMeters (meters : List Meter) : Option (MatchTableIndirect K S) :=
  (t.matchUnit.setDirectMeters meters).map fun matchUnit =>
    { t with matchUnit, base := { t.base with withMeters := true } }

/-- `reset_state_` leaves the default index and whether there is one. -/
def resetState : Option (MatchTableIndirect K S) :=
  (t.matchUnit.resetState L).map fun matchUnit =>
    { t with
      indexRefCount := {}
      mbrHandles := t.mbrHandles.clear
      actionEntries := []
      numMembers := 0
      matchUnit }

def act (t : MatchTableIndirect K S) : TableOp Op → Option (Observation × MatchTableIndirect K S)
  | .call op => (t.step L op).map fun (r, t) => (.reply r, t)
  | .packet pkt _ micros => (t.applyAction L pkt micros).map fun (a, t) => (.applied a, t)
  | .sweep nowMs => (t.matchUnit.sweepEntries nowMs).map fun handles => (.swept handles, t)
  | .reset => (t.resetState L).map fun t => (.done, t)

theorem applyAction_cases {t t' : MatchTableIndirect K S} {L : LookupStructure K S} {pkt : Packet}
    {micros : ℕ} {a : Applied} (h : t.applyAction L pkt micros = some (a, t')) :
    ∃ res u action u', t.matchUnit.lookup L pkt = some (res, u) ∧ t.actionOf res = some action ∧
      t.base.finishApply u (res.map Prod.fst) action pkt micros = some (a, u') ∧
      t' = { t with matchUnit := u' } := by
  obtain ⟨⟨res, u⟩, hl, h⟩ := Option.bind_eq_some_iff.mp h
  obtain ⟨action, ha, h⟩ := Option.bind_eq_some_iff.mp h
  obtain ⟨⟨a', u'⟩, hf, h⟩ := Option.bind_eq_some_iff.mp h
  obtain ⟨rfl, rfl⟩ := Prod.mk.inj (Option.some.inj h)
  exact ⟨res, u, action, u', hl, ha, hf, rfl⟩

/-- What an operation does to the table, and what is seen of it. -/
inductive Acts (L : LookupStructure K S) (t : MatchTableIndirect K S) :
    TableOp Op → Observation → MatchTableIndirect K S → Prop
  | call {op : Op} {r : Result TableReply} {t' : MatchTableIndirect K S} :
      t.step L op = some (r, t') → Acts L t (.call op) (.reply r) t'
  | packet {pkt : Packet} {hash : Option ℕ} {micros : ℕ} {res : Option (ℕ × IndirectIndex)}
      {action : ActionEntry} {u u' : MatchUnit K IndirectIndex S} {a : Applied} :
      t.matchUnit.lookup L pkt = some (res, u) → t.actionOf res = some action →
      t.base.finishApply u (res.map Prod.fst) action pkt micros = some (a, u') →
      Acts L t (.packet pkt hash micros) (.applied a) { t with matchUnit := u' }
  | sweep {nowMs : ℕ} {handles : List ℕ} : t.matchUnit.sweepEntries nowMs = some handles →
      Acts L t (.sweep nowMs) (.swept handles) t
  | reset {t' : MatchTableIndirect K S} : t.resetState L = some t' → Acts L t .reset .done t'

theorem acts_of_act {t t' : MatchTableIndirect K S} {L : LookupStructure K S} {op : TableOp Op}
    {o : Observation} (h : t.act L op = some (o, t')) : Acts L t op o t' := by
  cases op with
  | call op =>
    obtain ⟨⟨r, t₁⟩, h', he⟩ := Option.map_eq_some_iff.mp h
    obtain ⟨rfl, rfl⟩ := Prod.mk.inj he
    exact .call h'
  | packet pkt hash micros =>
    obtain ⟨⟨a, t₁⟩, h', he⟩ := Option.map_eq_some_iff.mp h
    obtain ⟨rfl, rfl⟩ := Prod.mk.inj he
    obtain ⟨res, u, action, u', hl, ha, hf, rfl⟩ := applyAction_cases h'
    exact .packet hl ha hf
  | sweep nowMs =>
    obtain ⟨handles, h', he⟩ := Option.map_eq_some_iff.mp h
    obtain ⟨rfl, rfl⟩ := Prod.mk.inj he
    exact .sweep h'
  | reset =>
    obtain ⟨t₁, h', he⟩ := Option.map_eq_some_iff.mp h
    obtain ⟨rfl, rfl⟩ := Prod.mk.inj he
    exact .reset h'

/-- `lookup` is the search followed by the choice of the action. -/
theorem lookup_eq (key : List Byte) : t.lookup L key = (t.matchUnit.lookupKey L key).bind fun res =>
    (t.actionOf res).map fun action => (res.map Prod.fst, action) := by
  unfold lookup actionOf
  congr 1
  funext res
  split_ifs with hnone
  · cases res <;> simp_all
  · dsimp only
    cases ((res.map Prod.snd).getD t.defaultIndex).getMbr with
    | none => rfl
    | some mbr =>
      simp only [Option.bind_eq_bind, Option.bind_some]
      split_ifs <;> rfl

end MatchTableIndirect

namespace MatchTableIndirectWS

variable {K S : Type} [MatchKey K] (L : LookupStructure K S) (t : MatchTableIndirectWS K S)

def actionOf (res : Option (ℕ × IndirectIndex)) (hash : Option ℕ) : Option ActionEntry :=
  if res.isNone && !t.defaultSet then some {}
  else do
    let mbr ← t.resolve ((res.map Prod.snd).getD t.defaultIndex) hash
    if t.isValidMbr mbr then t.actionEntries[mbr]? else none

def applyAction (pkt : Packet) (hash : Option ℕ) (micros : ℕ) :
    Option (Applied × MatchTableIndirectWS K S) := do
  let (res, matchUnit) ← t.matchUnit.lookup L pkt
  let action ← t.actionOf res hash
  let (a, matchUnit) ← t.base.finishApply matchUnit (res.map Prod.fst) action pkt micros
  some (a, { t with matchUnit })

def setDirectMeters (meters : List Meter) : Option (MatchTableIndirectWS K S) :=
  (t.toMatchTableIndirect.setDirectMeters meters).map fun t' =>
    { t with toMatchTableIndirect := t' }

/-- `reset_state_` leaves the handles of the groups. -/
def resetState : Option (MatchTableIndirectWS K S) :=
  (t.toMatchTableIndirect.resetState L).map fun t' =>
    { t with toMatchTableIndirect := t', numGroups := 0, groupEntries := [] }

def act (t : MatchTableIndirectWS K S) :
    TableOp Op → Option (Observation × MatchTableIndirectWS K S)
  | .call op => (t.step L op).map fun (r, t) => (.reply r, t)
  | .packet pkt hash micros =>
    (t.applyAction L pkt hash micros).map fun (a, t) => (.applied a, t)
  | .sweep nowMs => (t.matchUnit.sweepEntries nowMs).map fun handles => (.swept handles, t)
  | .reset => (t.resetState L).map fun t => (.done, t)

theorem applyAction_cases {t t' : MatchTableIndirectWS K S} {L : LookupStructure K S}
    {pkt : Packet} {hash : Option ℕ} {micros : ℕ} {a : Applied}
    (h : t.applyAction L pkt hash micros = some (a, t')) :
    ∃ res u action u', t.matchUnit.lookup L pkt = some (res, u) ∧
      t.actionOf res hash = some action ∧
      t.base.finishApply u (res.map Prod.fst) action pkt micros = some (a, u') ∧
      t' = { t with matchUnit := u' } := by
  obtain ⟨⟨res, u⟩, hl, h⟩ := Option.bind_eq_some_iff.mp h
  obtain ⟨action, ha, h⟩ := Option.bind_eq_some_iff.mp h
  obtain ⟨⟨a', u'⟩, hf, h⟩ := Option.bind_eq_some_iff.mp h
  obtain ⟨rfl, rfl⟩ := Prod.mk.inj (Option.some.inj h)
  exact ⟨res, u, action, u', hl, ha, hf, rfl⟩

/-- What an operation does to the table, and what is seen of it. -/
inductive Acts (L : LookupStructure K S) (t : MatchTableIndirectWS K S) :
    TableOp Op → Observation → MatchTableIndirectWS K S → Prop
  | call {op : Op} {r : Result TableReply} {t' : MatchTableIndirectWS K S} :
      t.step L op = some (r, t') → Acts L t (.call op) (.reply r) t'
  | packet {pkt : Packet} {hash : Option ℕ} {micros : ℕ} {res : Option (ℕ × IndirectIndex)}
      {action : ActionEntry} {u u' : MatchUnit K IndirectIndex S} {a : Applied} :
      t.matchUnit.lookup L pkt = some (res, u) → t.actionOf res hash = some action →
      t.base.finishApply u (res.map Prod.fst) action pkt micros = some (a, u') →
      Acts L t (.packet pkt hash micros) (.applied a) { t with matchUnit := u' }
  | sweep {nowMs : ℕ} {handles : List ℕ} : t.matchUnit.sweepEntries nowMs = some handles →
      Acts L t (.sweep nowMs) (.swept handles) t
  | reset {t' : MatchTableIndirectWS K S} : t.resetState L = some t' → Acts L t .reset .done t'

theorem acts_of_act {t t' : MatchTableIndirectWS K S} {L : LookupStructure K S} {op : TableOp Op}
    {o : Observation} (h : t.act L op = some (o, t')) : Acts L t op o t' := by
  cases op with
  | call op =>
    obtain ⟨⟨r, t₁⟩, h', he⟩ := Option.map_eq_some_iff.mp h
    obtain ⟨rfl, rfl⟩ := Prod.mk.inj he
    exact .call h'
  | packet pkt hash micros =>
    obtain ⟨⟨a, t₁⟩, h', he⟩ := Option.map_eq_some_iff.mp h
    obtain ⟨rfl, rfl⟩ := Prod.mk.inj he
    obtain ⟨res, u, action, u', hl, ha, hf, rfl⟩ := applyAction_cases h'
    exact .packet hl ha hf
  | sweep nowMs =>
    obtain ⟨handles, h', he⟩ := Option.map_eq_some_iff.mp h
    obtain ⟨rfl, rfl⟩ := Prod.mk.inj he
    exact .sweep h'
  | reset =>
    obtain ⟨t₁, h', he⟩ := Option.map_eq_some_iff.mp h
    obtain ⟨rfl, rfl⟩ := Prod.mk.inj he
    exact .reset h'

theorem lookup_eq (key : List Byte) (hash : Option ℕ) :
    t.lookup L key hash = (t.matchUnit.lookupKey L key).bind fun res =>
      (t.actionOf res hash).map fun action => (res.map Prod.fst, action) := by
  unfold lookup actionOf
  congr 1
  funext res
  split_ifs with hnone
  · cases res <;> simp_all
  · cases t.resolve ((res.map Prod.snd).getD t.defaultIndex) hash with
    | none => rfl
    | some mbr =>
      simp only [Option.bind_eq_bind, Option.bind_some]
      split_ifs <;> rfl

end MatchTableIndirectWS

/-- A packet with one byte to match on. -/
def onePacket (b : Byte) : Packet where
  phv := { headers := [
    { fields := [{ nbits := 8, bytes := [b] }], valid := true, nbytesPacket := 1 }] }

end Bmv2
