import Bmv2.Tables.Apply

/-! What happens to the match unit of a table, whatever the kind of the table. -/
namespace Bmv2

section Slots

variable {α β : Type}

/-- A write that agrees on `f` with what it replaces does not show through `f`. -/
theorem getElem?_set_map {l : List α} {j : ℕ} {a b : α} (f : α → β) (hb : l[j]? = some b)
    (hf : f a = f b) (i : ℕ) : (l.set j a)[i]?.map f = l[i]?.map f := by
  rw [List.getElem?_set]
  split_ifs with hij hlt
  · subst hij
    rw [hb, Option.map_some, Option.map_some, hf]
  · subst hij
    simp [List.getElem?_eq_none (not_lt.mp hlt)]
  · rfl

theorem getElem?_set_map_ne {l : List α} {i j : ℕ} (hij : j ≠ i) (a : α) (f : α → β) :
    (l.set j a)[i]?.map f = l[i]?.map f := by
  rw [List.getElem?_set_ne hij]

end Slots

/-- Counters, meters and ageing are on or off in both. -/
structure MatchTableAbstract.SameFeatures (b b' : MatchTableAbstract) : Prop where
  counters : b'.withCounters = b.withCounters
  meters : b'.withMeters = b.withMeters
  ageing : b'.withAgeing = b.withAgeing

/-- The part of a call that the match unit sees, given how the call ended. -/
inductive UnitCall where
  | add (handle : ℕ)
  | delete (handle : ℕ)
  | shared (op : MatchTableAbstract.Op)
  | other

section

variable {K V S : Type} [MatchKey K]

/-- The ways in which a match unit moves. -/
inductive UnitStep (L : LookupStructure K S) (b : MatchTableAbstract) (u : MatchUnit K V S) :
    UnitCall → MatchUnit K V S → Prop
  | same : UnitStep L b u .other u
  | added {now : ℕ} {params : List MatchKeyParam} {value : V} {priority : ℤ} {handle : ℕ}
      {u' : MatchUnit K V S} (h : u.addEntry L now params value priority = some (.ok handle, u')) :
      UnitStep L b u (.add handle) u'
  | removed {handle : ℕ} {e : Entry K V} {ls : S} (hc : u.checkHandle handle = some (.ok e))
      (hls : L.deleteEntry u.lookupStructure (MatchUnit.bumped e.key) = some ls) :
      UnitStep L b u (.delete handle) (u.removed (handleInternal handle) e ls)
  | rewritten {handle : ℕ} {e : Entry K V} (value : V) (hc : u.checkHandle handle = some (.ok e)) :
      UnitStep L b u .other (u.rewritten (handleInternal handle) { e with value })
  | shared {op : MatchTableAbstract.Op} {r : Result TableReply} {u' : MatchUnit K V S}
      (h : b.step u op = some (r, u')) : UnitStep L b u (.shared op) u'

variable {L : LookupStructure K S} {b : MatchTableAbstract} {u u' : MatchUnit K V S}

/-- An addition that is refused changes nothing. -/
theorem MatchUnit.addEntry_unit (hwf : u.Wf) {now : ℕ} {params : List MatchKeyParam} {value : V}
    {priority : ℤ} {r : Result ℕ} (h : u.addEntry L now params value priority = some (r, u')) :
    (∃ code, r = .error code ∧ u' = u) ∨
      ∃ handle, r = .ok handle ∧ UnitStep L b u (.add handle) u' := by
  cases r with
  | error code =>
    rcases addEntry_cases hwf h with ⟨e, -, rfl, -⟩ | ⟨_, _, _, _, -, -, -, -, -, -, -, -, hr, -⟩
    · exact .inl ⟨code, rfl, rfl⟩
    · simp at hr
  | ok handle => exact .inr ⟨handle, rfl, .added h⟩

end

/-- The ways in which the match unit of a table moves with what happens at the table. -/
inductive UnitAct {K V S α : Type} [MatchKey K] [Inhabited V] (L : LookupStructure K S)
    (unitCall : α → Result TableReply → UnitCall) (b : MatchTableAbstract)
    (u : MatchUnit K V S) : TableOp α → Observation → MatchUnit K V S → Prop
  | call {op : α} {r : Result TableReply} {u' : MatchUnit K V S}
      (h : UnitStep L b u (unitCall op r) u') : UnitAct L unitCall b u (.call op) (.reply r) u'
  | packet {pkt : Packet} {hash : Option ℕ} {micros : ℕ} {res : Option (ℕ × V)}
      {u₁ u' : MatchUnit K V S} {action : ActionEntry} {a : Applied}
      (hl : u.lookup L pkt = some (res, u₁))
      (hf : b.finishApply u₁ (res.map Prod.fst) action pkt micros = some (a, u')) :
      UnitAct L unitCall b u (.packet pkt hash micros) (.applied a) u'
  | sweep {nowMs : ℕ} {hs : List ℕ} (h : u.sweepEntries nowMs = some hs) :
      UnitAct L unitCall b u (.sweep nowMs) (.swept hs) u
  | reset {u' : MatchUnit K V S} (h : u.resetState L = some u') :
      UnitAct L unitCall b u .reset .done u'

section

variable {K V S α : Type} [MatchKey K] {L : LookupStructure K S} {b : MatchTableAbstract}
variable {u u' : MatchUnit K V S}

theorem UnitStep.wf {call : UnitCall} (hwf : u.Wf) (h : UnitStep L b u call u') : u'.Wf := by
  cases h with
  | same => exact hwf
  | added h => exact hwf.addEntry h
  | removed hc hls => exact hwf.removed (MatchUnit.checkHandle_ok_iff.mp hc).1
  | rewritten value hc =>
    have hver := hwf.version_lt _ (List.mem_of_getElem? (MatchUnit.checkHandle_ok_iff.mp hc).2.1)
    exact hwf.rewritten hver
  | shared h => exact MatchTableAbstract.step_wf hwf h

theorem UnitAct.wf [Inhabited V] {unitCall : α → Result TableReply → UnitCall} {op : TableOp α}
    {o : Observation} (hwf : u.Wf) (h : UnitAct L unitCall b u op o u') : u'.Wf := by
  cases h with
  | call h => exact h.wf hwf
  | packet hl hf =>
    obtain ⟨entryMeta, directMeters, hlen, rfl⟩ := MatchUnit.lookup_frame hl hf
    exact hwf.frame directMeters hlen
  | sweep h => exact hwf
  | reset h => exact hwf.resetState h

end

namespace MatchTable

variable {K S : Type} [MatchKey K] {L : LookupStructure K S} {t t' : MatchTable K S}

def unitCall : Op → Result TableReply → UnitCall
  | .addEntry .., .ok (.handle handle) => .add handle
  | .deleteEntry handle, .ok _ => .delete handle
  | .base op, _ => .shared op
  | _, _ => .other

theorem step_unit (hwf : t.matchUnit.Wf) {op : Op} {r : Result TableReply}
    (hs : t.step L op = some (r, t')) :
    UnitStep L t.base t.matchUnit (unitCall op r) t'.matchUnit ∧ t.base.SameFeatures t'.base := by
  cases op with
  | addEntry now params actionFn actionData priority =>
    obtain ⟨⟨r', t₁⟩, h', he⟩ := Option.map_eq_some_iff.mp hs
    obtain ⟨rfl, rfl⟩ := Prod.mk.inj he
    obtain ⟨nextNode, -, h'⟩ := Option.bind_eq_some_iff.mp h'
    obtain ⟨⟨r₁, u⟩, hu, h'⟩ := Option.bind_eq_some_iff.mp h'
    obtain ⟨rfl, rfl⟩ := Prod.mk.inj (Option.some.inj h')
    rcases MatchUnit.addEntry_unit hwf hu with ⟨code, rfl, rfl⟩ | ⟨handle, rfl, hstep⟩
    · exact ⟨.same, rfl, rfl, rfl⟩
    · exact ⟨hstep, rfl, rfl, rfl⟩
  | deleteEntry handle =>
    obtain ⟨⟨r', t₁⟩, h', he⟩ := Option.map_eq_some_iff.mp hs
    obtain ⟨rfl, rfl⟩ := Prod.mk.inj he
    obtain ⟨⟨r₁, u⟩, hu, h'⟩ := Option.bind_eq_some_iff.mp h'
    obtain ⟨rfl, rfl⟩ := Prod.mk.inj (Option.some.inj h')
    rcases MatchUnit.deleteEntry_cases hu with ⟨e, rfl, rfl, -⟩ | ⟨e, ls, hc, hls, rfl, rfl⟩
    · exact ⟨.same, rfl, rfl, rfl⟩
    · exact ⟨.removed hc hls, rfl, rfl, rfl⟩
  | modifyEntry handle actionFn actionData =>
    obtain ⟨⟨r', t₁⟩, h', he⟩ := Option.map_eq_some_iff.mp hs
    obtain ⟨rfl, rfl⟩ := Prod.mk.inj he
    obtain ⟨nextNode, -, h'⟩ := Option.bind_eq_some_iff.mp h'
    obtain ⟨⟨r₁, u⟩, hu, h'⟩ := Option.bind_eq_some_iff.mp h'
    obtain ⟨rfl, rfl⟩ := Prod.mk.inj (Option.some.inj h')
    rcases MatchUnit.modifyEntry_cases hu with ⟨e, rfl, rfl, -⟩ | ⟨e, hc, rfl, rfl⟩
    · exact ⟨.same, rfl, rfl, rfl⟩
    · exact ⟨.rewritten _ hc, rfl, rfl, rfl⟩
  | setDefaultAction actionFn actionData =>
    obtain ⟨t₁, h', he⟩ := Option.map_eq_some_iff.mp hs
    obtain ⟨rfl, rfl⟩ := Prod.mk.inj he
    obtain ⟨nextNode, -, h'⟩ := Option.bind_eq_some_iff.mp h'
    obtain rfl := Option.some.inj h'
    exact ⟨.same, rfl, rfl, rfl⟩
  | getValue handle | getEntry handle =>
    obtain ⟨_, -, he⟩ := Option.map_eq_some_iff.mp hs
    obtain rfl : t = t' := congrArg Prod.snd he
    exact ⟨.same, rfl, rfl, rfl⟩
  | base op =>
    obtain ⟨⟨r', u⟩, h', he⟩ := Option.map_eq_some_iff.mp hs
    obtain ⟨rfl, rfl⟩ := Prod.mk.inj he
    exact ⟨.shared h', rfl, rfl, rfl⟩

theorem act_unit (hwf : t.matchUnit.Wf) {op : TableOp Op} {o : Observation}
    (hs : t.act L op = some (o, t')) :
    UnitAct L unitCall t.base t.matchUnit op o t'.matchUnit ∧ t.base.SameFeatures t'.base := by
  cases acts_of_act hs with
  | call h' =>
    obtain ⟨hstep, hsame⟩ := step_unit hwf h'
    exact ⟨.call hstep, hsame⟩
  | packet hl hf => exact ⟨.packet hl hf, rfl, rfl, rfl⟩
  | sweep h' => exact ⟨.sweep h', rfl, rfl, rfl⟩
  | reset h' =>
    obtain ⟨u, hu, rfl⟩ := Option.map_eq_some_iff.mp h'
    exact ⟨.reset hu, rfl, rfl, rfl⟩

end MatchTable

namespace MatchTableIndirect

variable {K S : Type} [MatchKey K] {L : LookupStructure K S} {t t' : MatchTableIndirect K S}

def unitCall : Op → Result TableReply → UnitCall
  | .addEntry .., .ok (.handle handle) => .add handle
  | .deleteEntry handle, .ok _ => .delete handle
  | .base op, _ => .shared op
  | _, _ => .other

theorem addIndexed_unit (hwf : t.matchUnit.Wf) {now : ℕ} {params : List MatchKeyParam}
    {x : IndirectIndex} {priority : ℤ} {r : Result ℕ}
    (h : t.addIndexed L now params x priority = some (r, t')) :
    t'.base = t.base ∧ ((∃ code, r = .error code ∧ t'.matchUnit = t.matchUnit) ∨
      ∃ handle, r = .ok handle ∧ UnitStep L t.base t.matchUnit (.add handle) t'.matchUnit) := by
  obtain ⟨c, u, -, hu, rfl⟩ := addIndexed_cases h
  exact ⟨rfl, MatchUnit.addEntry_unit hwf hu⟩

theorem modifyIndexed_unit {handle : ℕ} {check : Option (Result Unit)}
    {new : Option IndirectIndex} {r : Result Unit}
    (h : t.modifyIndexed handle check new = some (r, t')) :
    UnitStep L t.base t.matchUnit .other t'.matchUnit ∧ t'.base = t.base := by
  rcases modifyIndexed_cases h with ⟨_, -, rfl, -⟩ | ⟨_, _, _, -, -, -, -, rfl⟩ |
    ⟨e, x, _, _, hc, -, -, -, -, -, rfl⟩
  · exact ⟨.same, rfl⟩
  · exact ⟨.same, rfl⟩
  · exact ⟨.rewritten x hc, rfl⟩

theorem step_unit (hwf : t.matchUnit.Wf) {op : Op} {r : Result TableReply}
    (hs : t.step L op = some (r, t')) :
    UnitStep L t.base t.matchUnit (unitCall op r) t'.matchUnit ∧ t'.base = t.base := by
  cases steps_of_step hs with
  | addMember h' =>
    rcases addMember_cases h' with ⟨_, -, rfl⟩ | ⟨_, _, _, -, -, -, -, rfl⟩ <;> exact ⟨.same, rfl⟩
  | deleteMember h' =>
    rcases deleteMember_cases h' with ⟨_, -, rfl⟩ | ⟨_, -, -, -, -, rfl⟩ <;> exact ⟨.same, rfl⟩
  | modifyMember h' =>
    rcases modifyMember_cases h' with ⟨_, -, rfl⟩ | ⟨_, -, rfl⟩ <;> exact ⟨.same, rfl⟩
  | addEntry hm hx h' =>
    obtain ⟨hbase, ⟨code, rfl, hu⟩ | ⟨handle, rfl, hstep⟩⟩ := addIndexed_unit hwf h'
    · rw [hu]
      exact ⟨.same, hbase⟩
    · exact ⟨hstep, hbase⟩
  | deleteEntry h' =>
    rcases deleteEntry_cases h' with ⟨_, rfl, rfl, -⟩ | ⟨e, _, ls, hc, -, hls, rfl, rfl⟩
    · exact ⟨.same, rfl⟩
    · exact ⟨.removed hc hls, rfl⟩
  | modifyEntry h' => exact modifyIndexed_unit h'
  | addRefused | defaultRefused | setDefaultMember | getValue | getEntry | getMember =>
    exact ⟨.same, rfl⟩
  | base h' => exact ⟨.shared h', rfl⟩

theorem act_unit (hwf : t.matchUnit.Wf) {op : TableOp Op} {o : Observation}
    (hs : t.act L op = some (o, t')) :
    UnitAct L unitCall t.base t.matchUnit op o t'.matchUnit ∧ t'.base = t.base := by
  cases acts_of_act hs with
  | call h' =>
    obtain ⟨hstep, hbase⟩ := step_unit hwf h'
    exact ⟨.call hstep, hbase⟩
  | packet hl _ hf => exact ⟨.packet hl hf, rfl⟩
  | sweep h' => exact ⟨.sweep h', rfl⟩
  | reset h' =>
    obtain ⟨u, hu, rfl⟩ := Option.map_eq_some_iff.mp h'
    exact ⟨.reset hu, rfl⟩

end MatchTableIndirect

namespace MatchTableIndirectWS

variable {K S : Type} [MatchKey K] {L : LookupStructure K S} {t t' : MatchTableIndirectWS K S}

def unitCall : Op → Result TableReply → UnitCall
  | .indirect op, r => MatchTableIndirect.unitCall op r
  | .addEntryWs .., .ok (.handle handle) => .add handle
  | _, _ => .other

theorem step_unit (hwf : t.matchUnit.Wf) {op : Op} {r : Result TableReply}
    (hs : t.step L op = some (r, t')) :
    UnitStep L t.base t.matchUnit (unitCall op r) t'.matchUnit ∧ t'.base = t.base := by
  cases steps_of_step hs with
  | indirect h₁ => exact MatchTableIndirect.step_unit hwf h₁
  | createGroup h' =>
    rcases createGroup_cases h' with ⟨_, -, rfl⟩ | ⟨_, _, -, -, -, -, rfl⟩ <;> exact ⟨.same, rfl⟩
  | deleteGroup h' =>
    rcases deleteGroup_cases h' with ⟨_, -, rfl⟩ | ⟨_, _, _, -, -, -, -, -, -, rfl⟩ <;>
      exact ⟨.same, rfl⟩
  | addMemberToGroup h' =>
    rcases addMemberToGroup_cases h' with ⟨_, -, rfl⟩ | ⟨_, _, _, -, -, -, -, -, -, -, rfl⟩ <;>
      exact ⟨.same, rfl⟩
  | removeMemberFromGroup h' =>
    rcases removeMemberFromGroup_cases h' with ⟨_, -, rfl⟩ |
      ⟨_, _, _, -, -, -, -, -, -, -, rfl⟩ <;> exact ⟨.same, rfl⟩
  | addEntryWs hcheck hx h₂ =>
    obtain ⟨hbase, ⟨code, rfl, hu⟩ | ⟨handle, rfl, hstep⟩⟩ :=
      MatchTableIndirect.addIndexed_unit hwf h₂
    · rw [hu]
      exact ⟨.same, hbase⟩
    · exact ⟨hstep, hbase⟩
  | modifyEntryWs h₂ => exact MatchTableIndirect.modifyIndexed_unit h₂
  | addRefused | defaultRefused | setDefaultGroup | getEntry | getGroup | getNumMembersInGroup =>
    exact ⟨.same, rfl⟩

theorem act_unit (hwf : t.matchUnit.Wf) {op : TableOp Op} {o : Observation}
    (hs : t.act L op = some (o, t')) :
    UnitAct L unitCall t.base t.matchUnit op o t'.matchUnit ∧ t'.base = t.base := by
  cases acts_of_act hs with
  | call h' =>
    obtain ⟨hstep, hbase⟩ := step_unit hwf h'
    exact ⟨.call hstep, hbase⟩
  | packet hl _ hf => exact ⟨.packet hl hf, rfl⟩
  | sweep h' => exact ⟨.sweep h', rfl⟩
  | reset h' =>
    obtain ⟨t₂, h₂, rfl⟩ := Option.map_eq_some_iff.mp h'
    obtain ⟨u, hu, rfl⟩ := Option.map_eq_some_iff.mp h₂
    exact ⟨.reset hu, rfl⟩

end MatchTableIndirectWS

end Bmv2
