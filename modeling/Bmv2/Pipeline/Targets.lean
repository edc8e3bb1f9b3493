import Bmv2.Pipeline.ControlFlow

/-! Whatever is done to a table, it runs its own actions and leads to the nodes of its
configuration. -/
namespace Bmv2

/-- The nodes after a table, whatever is in it. -/
def NextNodeConfig.targets (c : NextNodeConfig) : List (Option ℕ) :=
  c.nodes.map Prod.snd ++ c.hit.toList ++ c.miss.toList ++ [c.baseDefault]

namespace MatchTableAbstract

/-- The nodes that the table has been given are among `targets`. -/
structure LeadsTo (targets : List (Option ℕ)) (b : MatchTableAbstract) : Prop where
  nodes : ∀ p ∈ b.nextNodes, p.2 ∈ targets
  hit : ∀ node, b.nextNodeHit = some node → node ∈ targets
  miss : b.nextNodeMiss ∈ targets

namespace LeadsTo

variable {targets : List (Option ℕ)} {b : MatchTableAbstract} {f : ℕ} {node : Option ℕ}

theorem configure (c : NextNodeConfig) (withCounters withAgeing : Bool) :
    (c.configure { withCounters, withAgeing }).LeadsTo c.targets := by
  rw [NextNodeConfig.configure_eq]
  refine ⟨fun p hp => ?_, fun node hnode => ?_, ?_⟩
  · have hmem : p.2 ∈ c.nodes.map Prod.snd :=
      List.mem_map_of_mem (List.mem_reverse.mp hp)
    simp [NextNodeConfig.targets, hmem]
  · have hhit : c.hit = some node := hnode
    simp [NextNodeConfig.targets, hhit]
  · cases hmiss : c.miss <;> simp [NextNodeConfig.targets, hmiss]

theorem withMeters (h : b.LeadsTo targets) : { b with withMeters := true }.LeadsTo targets :=
  ⟨h.nodes, h.hit, h.miss⟩

theorem registered (h : b.LeadsTo targets) (hnode : b.nextNodes.lookup f = some node) :
    node ∈ targets := by
  obtain ⟨l₁, l₂, heq, -⟩ := List.lookup_eq_some_iff.mp hnode
  exact h.nodes (f, node) (by rw [heq]; simp)

theorem getNextNode (h : b.LeadsTo targets) (hnode : b.getNextNode f = some node) :
    node ∈ targets := by
  unfold MatchTableAbstract.getNextNode at hnode
  cases hhit : b.nextNodeHit with
  | some n =>
    rw [hhit] at hnode
    exact h.hit node (hhit.trans hnode)
  | none =>
    rw [hhit] at hnode
    exact h.registered hnode

theorem getNextNodeDefault (h : b.LeadsTo targets) (hnode : b.getNextNodeDefault f = some node) :
    node ∈ targets := by
  unfold MatchTableAbstract.getNextNodeDefault at hnode
  split_ifs at hnode
  · obtain rfl := Option.some.inj hnode
    exact h.miss
  · exact h.registered hnode

end LeadsTo

end MatchTableAbstract

/-- An entry or a member that the configuration lets a table have. -/
def TableConfig.Holds (c : TableConfig) (e : ActionEntry) : Prop :=
  (∃ f ∈ c.actions, e.actionFn = some f) ∧ e.nextNode ∈ c.next.targets

/-- An action that a table runs, if any, is one of its own. -/
def TableConfig.Runs (c : TableConfig) (actionFn : Option ℕ) : Prop :=
  ∀ f, actionFn = some f → f ∈ c.actions

theorem TableConfig.Holds.runs {c : TableConfig} {e : ActionEntry} (h : c.Holds e) :
    c.Runs e.actionFn := by
  obtain ⟨⟨f, hf, heq⟩, -⟩ := h
  intro f' hf'
  obtain rfl := Option.some.inj (heq.symm.trans hf')
  exact hf

theorem MatchUnit.ValueInv.resetState {K V S : Type} [MatchKey K] [Inhabited V]
    {L : LookupStructure K S} {C : ClearLookup L} {P : V → Prop} {u u' : MatchUnit K V S}
    (h : u.ValueInv C.sound P) (hs : u.resetState L = some u') : u'.ValueInv C.sound P := by
  refine ⟨h.wf.resetState hs, .resetState hs, ?_⟩
  obtain ⟨ls, -, hs⟩ := Option.bind_eq_some_iff.mp hs
  obtain rfl := Option.some.inj hs
  rintro i e ⟨hi, -⟩
  exact absurd hi (Finset.notMem_empty i)

namespace MatchTable

variable {K S : Type} [MatchKey K] {L : LookupStructure K S} {C : ClearLookup L}
variable {c : TableConfig} {t t' : MatchTable K S}

/-- The entries and the default are those of the configuration. -/
structure Serves (C : ClearLookup L) (c : TableConfig) (t : MatchTable K S) : Prop where
  base : t.base.LeadsTo c.next.targets
  unit : t.matchUnit.ValueInv C.sound c.Holds
  default : c.Runs t.defaultEntry.actionFn

namespace Serves

theorem setUp {withCounters withAgeing : Bool} {size : ℕ} {kb : MatchKeyBuilder} {ls : S}
    (hsize : size ≤ 2 ^ 32) (hinv : C.sound.Inv ls) (hempty : ∀ x i, ¬ C.sound.stored ls x i)
    (h : SetUp setDirectMeters
      (create (c.next.configure { withCounters, withAgeing }) size kb ls) t) : t.Serves C c := by
  have hbase := MatchTableAbstract.LeadsTo.configure c.next withCounters withAgeing
  have hunit : (MatchUnit.create (V := ActionEntry) size kb ls).ValueInv C.sound c.Holds :=
    .create hsize kb hinv hempty
  rcases h with rfl | ⟨meters, hm⟩
  · exact ⟨hbase, hunit, fun f hf => absurd hf (Option.not_mem_none f)⟩
  · obtain ⟨u, hu, rfl⟩ := Option.map_eq_some_iff.mp hm
    rw [MatchUnit.setDirectMeters] at hu
    split_ifs at hu
    obtain rfl := Option.some.inj hu
    exact ⟨hbase.withMeters, hunit.frame _ rfl, fun f hf => absurd hf (Option.not_mem_none f)⟩

theorem step (h : t.Serves C c) {op : Op} {r : Result TableReply}
    (hop : ∀ f ∈ (TableCall.simple op).action?, f ∈ c.actions)
    (hs : t.step L op = some (r, t')) : t'.Serves C c := by
  have hholds : ∀ f data node, f ∈ c.actions → t.base.getNextNode f = some node →
      c.Holds ⟨f, data, node⟩ :=
    fun f data node hf hnode => ⟨⟨f, hf, rfl⟩, h.base.getNextNode hnode⟩
  cases op with
  | addEntry now params actionFn actionData priority =>
    obtain ⟨⟨r', t₁⟩, h', he⟩ := Option.map_eq_some_iff.mp hs
    obtain rfl : t₁ = t' := congrArg Prod.snd he
    obtain ⟨node, hnode, h'⟩ := Option.bind_eq_some_iff.mp h'
    obtain ⟨⟨r₁, u⟩, hu, h'⟩ := Option.bind_eq_some_iff.mp h'
    obtain rfl := congrArg Prod.snd (Option.some.inj h')
    exact ⟨h.base, h.unit.addEntry (hholds _ _ _ (hop _ rfl) hnode) hu, h.default⟩
  | deleteEntry handle =>
    obtain ⟨⟨r', t₁⟩, h', he⟩ := Option.map_eq_some_iff.mp hs
    obtain rfl : t₁ = t' := congrArg Prod.snd he
    obtain ⟨⟨r₁, u⟩, hu, h'⟩ := Option.bind_eq_some_iff.mp h'
    obtain rfl := congrArg Prod.snd (Option.some.inj h')
    exact ⟨h.base, h.unit.deleteEntry hu, h.default⟩
  | modifyEntry handle actionFn actionData =>
    obtain ⟨⟨r', t₁⟩, h', he⟩ := Option.map_eq_some_iff.mp hs
    obtain rfl : t₁ = t' := congrArg Prod.snd he
    obtain ⟨node, hnode, h'⟩ := Option.bind_eq_some_iff.mp h'
    obtain ⟨⟨r₁, u⟩, hu, h'⟩ := Option.bind_eq_some_iff.mp h'
    obtain rfl := congrArg Prod.snd (Option.some.inj h')
    exact ⟨h.base, h.unit.modifyEntry (hholds _ _ _ (hop _ rfl) hnode) hu, h.default⟩
  | setDefaultAction actionFn actionData =>
    obtain ⟨t₁, h', he⟩ := Option.map_eq_some_iff.mp hs
    obtain rfl : t₁ = t' := congrArg Prod.snd he
    obtain ⟨node, hnode, h'⟩ := Option.bind_eq_some_iff.mp h'
    obtain rfl := Option.some.inj h'
    refine ⟨⟨h.base.nodes, h.base.hit, h.base.getNextNodeDefault hnode⟩, h.unit, fun f hf => ?_⟩
    obtain rfl := Option.some.inj hf
    exact hop actionFn rfl
  | getValue handle | getEntry handle =>
    obtain ⟨_, -, he⟩ := Option.map_eq_some_iff.mp hs
    obtain rfl : t = t' := congrArg Prod.snd he
    exact h
  | base op =>
    obtain ⟨⟨r', u⟩, h', he⟩ := Option.map_eq_some_iff.mp hs
    obtain rfl := congrArg Prod.snd he
    obtain ⟨entryMeta, directMeters, hlen, rfl⟩ := MatchTableAbstract.step_cases h'
    exact ⟨h.base, h.unit.frame directMeters hlen, h.default⟩

theorem applyAction (h : t.Serves C c) {pkt : Packet} {micros : ℕ} {a : Applied}
    (hs : t.applyAction L pkt micros = some (a, t')) :
    t'.Serves C c ∧ c.Runs a.action.actionFn ∧ a.nextNode ∈ c.next.targets := by
  obtain ⟨res, u, u', hl, hf, rfl⟩ := applyAction_cases hs
  obtain ⟨entryMeta, directMeters, hlen, rfl⟩ := MatchUnit.lookup_frame hl hf
  refine ⟨⟨h.base, h.unit.frame directMeters hlen, h.default⟩, ?_⟩
  obtain ⟨color, -, rfl⟩ := MatchTableAbstract.finishApply_cases hf
  cases res with
  | none => exact ⟨h.default, h.base.miss⟩
  | some found =>
    have hfound := h.unit.hit hl
    exact ⟨hfound.runs, hfound.2⟩

theorem act (h : t.Serves C c) {op : TableOp Op} {o : Observation}
    (hop : ∀ op', op = .call op' → ∀ f ∈ (TableCall.simple op').action?, f ∈ c.actions)
    (hs : t.act L op = some (o, t')) : t'.Serves C c := by
  cases op with
  | call op =>
    obtain ⟨⟨r, t₁⟩, h', he⟩ := Option.map_eq_some_iff.mp hs
    obtain rfl := congrArg Prod.snd he
    exact h.step (hop op rfl) h'
  | packet pkt hash micros =>
    obtain ⟨⟨a, t₁⟩, h', he⟩ := Option.map_eq_some_iff.mp hs
    obtain rfl := congrArg Prod.snd he
    exact (h.applyAction h').1
  | sweep nowMs =>
    obtain ⟨handles, -, he⟩ := Option.map_eq_some_iff.mp hs
    obtain rfl := congrArg Prod.snd he
    exact h
  | reset =>
    obtain ⟨t₁, h', he⟩ := Option.map_eq_some_iff.mp hs
    obtain rfl := congrArg Prod.snd he
    obtain ⟨u, hu, rfl⟩ := Option.map_eq_some_iff.mp h'
    exact ⟨h.base, h.unit.resetState hu, h.default⟩

end Serves

end MatchTable

namespace MatchTableIndirect

variable {K S : Type} [MatchKey K] {L : LookupStructure K S} {c : TableConfig}
variable {t t' : MatchTableIndirect K S}

/-- The members are those of the configuration. -/
structure Serves (c : TableConfig) (t : MatchTableIndirect K S) : Prop where
  base : t.base.LeadsTo c.next.targets
  entries : ∀ e ∈ t.actionEntries, c.Holds e

namespace Serves

theorem setUp {withCounters withAgeing : Bool} {size : ℕ} {kb : MatchKeyBuilder} {ls : S}
    (h : SetUp setDirectMeters
      (create (c.next.configure { withCounters, withAgeing }) size kb ls) t) : t.Serves c := by
  have hbase := MatchTableAbstract.LeadsTo.configure c.next withCounters withAgeing
  rcases h with rfl | ⟨meters, hm⟩
  · exact ⟨hbase, by simp [create]⟩
  · obtain ⟨u, -, rfl⟩ := Option.map_eq_some_iff.mp hm
    exact ⟨hbase.withMeters, by simp [create]⟩

omit [MatchKey K]

theorem addMember (h : t.Serves c) {f : ℕ} {data : List ℤ} {r : Result ℕ} (hf : f ∈ c.actions)
    (hs : t.addMember f data = some (r, t')) : t'.Serves c := by
  obtain ⟨node, hnode, hs⟩ := Option.bind_eq_some_iff.mp hs
  cases hget : t.mbrHandles.getHandle with
  | none =>
    rw [hget] at hs
    obtain rfl := congrArg Prod.snd (Option.some.inj hs)
    exact h
  | some p =>
    rw [hget] at hs
    obtain ⟨t₁, h₁, hs⟩ := Option.bind_eq_some_iff.mp hs
    obtain rfl := congrArg Prod.snd (Option.some.inj hs)
    rw [entriesInsert] at h₁
    split_ifs at h₁
    obtain ⟨x, -, h₁⟩ := Option.bind_eq_some_iff.mp h₁
    obtain ⟨_, -, h₁⟩ := Option.bind_eq_some_iff.mp h₁
    obtain rfl := Option.some.inj h₁
    refine ⟨h.base, fun e he => ?_⟩
    rcases mem_pushOrSet he with he | rfl
    · exact h.entries e he
    · exact ⟨⟨f, hf, rfl⟩, h.base.getNextNode hnode⟩

theorem modifyMember (h : t.Serves c) {mbr f : ℕ} {data : List ℤ} {r : Result Unit}
    (hf : f ∈ c.actions) (hs : t.modifyMember mbr f data = some (r, t')) : t'.Serves c := by
  obtain ⟨node, hnode, hs⟩ := Option.bind_eq_some_iff.mp hs
  split_ifs at hs
  · obtain rfl := congrArg Prod.snd (Option.some.inj hs)
    exact h
  · obtain rfl := congrArg Prod.snd (Option.some.inj hs)
    refine ⟨h.base, fun e he => ?_⟩
    rcases List.mem_or_eq_of_mem_set he with he | rfl
    · exact h.entries e he
    · exact ⟨⟨f, hf, rfl⟩, h.base.getNextNode hnode⟩

/-- After a hit the member leads on, after a miss the node kept for misses. -/
theorem selected (h : t.Serves c) {u u' : MatchUnit K IndirectIndex S} {handle : Option ℕ}
    {action : ActionEntry} {pkt : Packet} {micros : ℕ} {a : Applied}
    (hact : action ∈ t.actionEntries ∨ action = {} ∧ handle = none)
    (hf : t.base.finishApply u handle action pkt micros = some (a, u')) :
    c.Runs a.action.actionFn ∧ a.nextNode ∈ c.next.targets := by
  obtain ⟨color, -, rfl⟩ := MatchTableAbstract.finishApply_cases hf
  rcases hact with hmem | ⟨rfl, rfl⟩
  · refine ⟨(h.entries action hmem).runs, ?_⟩
    cases handle with
    | none => exact h.base.miss
    | some hdl => exact (h.entries action hmem).2
  · exact ⟨fun f hf => (nomatch hf), h.base.miss⟩

/-- How `resolve` gets from an index to a member does not matter. -/
theorem ofResolve (h : t.Serves c) (resolve : IndirectIndex → Option ℕ) {pkt : Packet}
    {micros : ℕ} {a : Applied} {res : Option (ℕ × IndirectIndex)} {action : ActionEntry}
    {u u' : MatchUnit K IndirectIndex S}
    (ha : (if res.isNone && !t.defaultSet then some {} else do
      let mbr ← resolve ((res.map Prod.snd).getD t.defaultIndex)
      if t.isValidMbr mbr then t.actionEntries[mbr]? else none) = some action)
    (hf : t.base.finishApply u (res.map Prod.fst) action pkt micros = some (a, u')) :
    c.Runs a.action.actionFn ∧ a.nextNode ∈ c.next.targets := by
  split_ifs at ha with hnone
  · obtain rfl := Option.some.inj ha
    cases res with
    | none => exact h.selected (.inr ⟨rfl, rfl⟩) hf
    | some found => simp at hnone
  · obtain ⟨mbr, -, ha⟩ := Option.bind_eq_some_iff.mp ha
    split_ifs at ha
    exact h.selected (.inl (List.mem_of_getElem? ha)) hf

variable [MatchKey K]

theorem step (h : t.Serves c) {op : Op} {r : Result TableReply}
    (hop : ∀ f ∈ (TableCall.indirect op).action?, f ∈ c.actions)
    (hs : t.step L op = some (r, t')) : t'.Serves c := by
  cases steps_of_step hs with
  | addMember h' => exact h.addMember (hop _ rfl) h'
  | deleteMember h' =>
    rcases deleteMember_cases h' with ⟨_, -, rfl⟩ | ⟨_, -, -, -, -, rfl⟩
    · exact h
    · exact ⟨h.base, h.entries⟩
  | modifyMember h' => exact h.modifyMember (hop _ rfl) h'
  | addEntry hm hx h' =>
    obtain ⟨_, _, -, -, rfl⟩ := addIndexed_cases h'
    exact ⟨h.base, h.entries⟩
  | deleteEntry h' =>
    rcases deleteEntry_cases h' with ⟨_, -, rfl, -⟩ | ⟨_, _, _, -, -, -, -, rfl⟩
    · exact h
    · exact ⟨h.base, h.entries⟩
  | modifyEntry h' =>
    rcases modifyIndexed_cases h' with ⟨_, -, rfl, -⟩ | ⟨_, _, _, -, -, -, -, rfl⟩ |
      ⟨_, _, _, _, -, -, -, -, -, -, rfl⟩
    · exact h
    · exact ⟨h.base, h.entries⟩
    · exact ⟨h.base, h.entries⟩
  | addRefused | defaultRefused | getValue | getEntry | getMember => exact h
  | setDefaultMember | base => exact ⟨h.base, h.entries⟩

theorem resetState (h : t.Serves c) (hs : t.resetState L = some t') : t'.Serves c := by
  obtain ⟨u, -, rfl⟩ := Option.map_eq_some_iff.mp hs
  exact ⟨h.base, by simp⟩

theorem act (h : t.Serves c) {op : TableOp Op} {o : Observation}
    (hop : ∀ op', op = .call op' → ∀ f ∈ (TableCall.indirect op').action?, f ∈ c.actions)
    (hs : t.act L op = some (o, t')) : t'.Serves c := by
  cases acts_of_act hs with
  | call h' => exact h.step (hop _ rfl) h'
  | packet => exact ⟨h.base, h.entries⟩
  | sweep => exact h
  | reset h' => exact h.resetState h'

end Serves

end MatchTableIndirect

namespace MatchTableIndirectWS

variable {K S : Type} [MatchKey K] {L : LookupStructure K S} {c : TableConfig}
variable {t t' : MatchTableIndirectWS K S}

open MatchTableIndirect (Serves)

theorem serves_step (h : Serves c t.toMatchTableIndirect) {op : Op} {r : Result TableReply}
    (hop : ∀ f ∈ (TableCall.indirectWs op).action?, f ∈ c.actions)
    (hs : t.step L op = some (r, t')) : Serves c t'.toMatchTableIndirect := by
  cases steps_of_step hs with
  | @indirect op _ _ h₁ =>
    refine h.step (fun f hf => hop f ?_) h₁
    cases op <;> exact hf
  | createGroup h' =>
    rcases createGroup_cases h' with ⟨_, -, rfl⟩ | ⟨_, _, -, -, -, -, rfl⟩
    · exact h
    · exact ⟨h.base, h.entries⟩
  | deleteGroup h' =>
    rcases deleteGroup_cases h' with ⟨_, -, rfl⟩ | ⟨_, _, _, -, -, -, -, -, -, rfl⟩
    · exact h
    · exact ⟨h.base, h.entries⟩
  | addMemberToGroup h' =>
    rcases addMemberToGroup_cases h' with ⟨_, -, rfl⟩ | ⟨_, _, _, -, -, -, -, -, -, -, rfl⟩
    · exact h
    · exact ⟨h.base, h.entries⟩
  | removeMemberFromGroup h' =>
    rcases removeMemberFromGroup_cases h' with ⟨_, -, rfl⟩ | ⟨_, _, _, -, -, -, -, -, -, -, rfl⟩
    · exact h
    · exact ⟨h.base, h.entries⟩
  | addEntryWs hcheck hx h₂ =>
    obtain ⟨_, _, -, -, rfl⟩ := MatchTableIndirect.addIndexed_cases h₂
    exact ⟨h.base, h.entries⟩
  | modifyEntryWs h₂ =>
    rcases MatchTableIndirect.modifyIndexed_cases h₂ with ⟨_, -, rfl, -⟩ |
      ⟨_, _, _, -, -, -, -, rfl⟩ | ⟨_, _, _, _, -, -, -, -, -, -, rfl⟩
    · exact h
    · exact ⟨h.base, h.entries⟩
    · exact ⟨h.base, h.entries⟩
  | addRefused | defaultRefused | getEntry | getGroup | getNumMembersInGroup => exact h
  | setDefaultGroup => exact ⟨h.base, h.entries⟩

theorem serves_act (h : Serves c t.toMatchTableIndirect) {op : TableOp Op} {o : Observation}
    (hop : ∀ op', op = .call op' → ∀ f ∈ (TableCall.indirectWs op').action?, f ∈ c.actions)
    (hs : t.act L op = some (o, t')) : Serves c t'.toMatchTableIndirect := by
  cases acts_of_act hs with
  | call h' => exact serves_step h (hop _ rfl) h'
  | packet => exact ⟨h.base, h.entries⟩
  | sweep => exact h
  | reset h' =>
    obtain ⟨t₂, h₂, rfl⟩ := Option.map_eq_some_iff.mp h'
    exact h.resetState h₂

end MatchTableIndirectWS

namespace AnyTable

variable {K S : Type} [MatchKey K] {L : LookupStructure K S} {C : ClearLookup L}
variable {c : TableConfig} {t t' : AnyTable K S}

/-- A table as the configuration leaves it, before the first call. -/
inductive SetUp (C : ClearLookup L) (c : TableConfig) : AnyTable K S → Prop
  | simple {withCounters withAgeing : Bool} {size : ℕ} {kb : MatchKeyBuilder} {ls : S}
      {t : MatchTable K S} (hsize : size ≤ 2 ^ 32) (hinv : C.sound.Inv ls)
      (hempty : ∀ x i, ¬ C.sound.stored ls x i)
      (h : Bmv2.SetUp MatchTable.setDirectMeters
        (.create (c.next.configure { withCounters, withAgeing }) size kb ls) t) :
      SetUp C c (.simple t)
  | indirect {withCounters withAgeing : Bool} {size : ℕ} {kb : MatchKeyBuilder} {ls : S}
      {t : MatchTableIndirect K S} (h : Bmv2.SetUp MatchTableIndirect.setDirectMeters
        (.create (c.next.configure { withCounters, withAgeing }) size kb ls) t) :
      SetUp C c (.indirect t)
  | indirectWs {withCounters withAgeing : Bool} {size : ℕ} {kb : MatchKeyBuilder} {ls : S}
      {t : MatchTableIndirectWS K S} (h : Bmv2.SetUp MatchTableIndirectWS.setDirectMeters
        (.create (c.next.configure { withCounters, withAgeing }) size kb ls) t) :
      SetUp C c (.indirectWs t)

/-- The entries, the members and the default are those of the configuration. -/
def Serves (C : ClearLookup L) (c : TableConfig) : AnyTable K S → Prop
  | .simple t => t.Serves C c
  | .indirect t => t.Serves c
  | .indirectWs t => t.toMatchTableIndirect.Serves c

namespace Serves

theorem setUp (h : SetUp C c t) : t.Serves C c := by
  cases h with
  | simple hsize hinv hempty h => exact MatchTable.Serves.setUp hsize hinv hempty h
  | indirect h => exact MatchTableIndirect.Serves.setUp h
  | indirectWs h =>
    rcases h with rfl | ⟨meters, hm⟩
    · exact MatchTableIndirect.Serves.setUp (.inl rfl)
    · obtain ⟨t₁, ht₁, rfl⟩ := Option.map_eq_some_iff.mp hm
      exact MatchTableIndirect.Serves.setUp (.inr ⟨meters, ht₁⟩)

theorem applyAction (h : t.Serves C c) {pkt : Packet} {hash : Option ℕ} {micros : ℕ} {a : Applied}
    (hs : t.applyAction L pkt hash micros = some (a, t')) :
    t'.Serves C c ∧ c.Runs a.action.actionFn ∧ a.nextNode ∈ c.next.targets := by
  cases t with
  | simple t =>
    obtain ⟨⟨a', t₁⟩, h', he⟩ := Option.map_eq_some_iff.mp hs
    obtain ⟨rfl, rfl⟩ := Prod.mk.inj he
    exact MatchTable.Serves.applyAction h h'
  | indirect t =>
    obtain ⟨⟨a', t₁⟩, h', he⟩ := Option.map_eq_some_iff.mp hs
    obtain ⟨rfl, rfl⟩ := Prod.mk.inj he
    obtain ⟨res, u, action, u', -, ha, hf, rfl⟩ := MatchTableIndirect.applyAction_cases h'
    exact ⟨⟨h.base, h.entries⟩, MatchTableIndirect.Serves.ofResolve h _ ha hf⟩
  | indirectWs t =>
    obtain ⟨⟨a', t₁⟩, h', he⟩ := Option.map_eq_some_iff.mp hs
    obtain ⟨rfl, rfl⟩ := Prod.mk.inj he
    obtain ⟨res, u, action, u', -, ha, hf, rfl⟩ := MatchTableIndirectWS.applyAction_cases h'
    exact ⟨⟨h.base, h.entries⟩, MatchTableIndirect.Serves.ofResolve h (t.resolve · hash) ha hf⟩

theorem call (h : t.Serves C c) {op : TableCall} {o : Observation}
    (hop : ∀ f ∈ op.action?, f ∈ c.actions) (hs : t.call L op = some (o, t')) :
    t'.Serves C c := by
  cases t with
  | simple t =>
    cases op with
    | simple op =>
      obtain ⟨⟨o', t₁⟩, h', he⟩ := Option.map_eq_some_iff.mp hs
      obtain rfl := congrArg Prod.snd he
      refine MatchTable.Serves.act h (fun op' heq => ?_) h'
      obtain rfl := TableOp.call.inj heq
      exact hop
    | indirect op | indirectWs op =>
      obtain rfl := congrArg Prod.snd (Option.some.inj hs)
      exact h
  | indirect t =>
    cases op with
    | indirect op =>
      obtain ⟨⟨o', t₁⟩, h', he⟩ := Option.map_eq_some_iff.mp hs
      obtain rfl := congrArg Prod.snd he
      refine MatchTableIndirect.Serves.act h (fun op' heq => ?_) h'
      obtain rfl := TableOp.call.inj heq
      exact hop
    | simple op | indirectWs op =>
      obtain rfl := congrArg Prod.snd (Option.some.inj hs)
      exact h
  | indirectWs t =>
    cases op with
    | simple op =>
      obtain rfl := congrArg Prod.snd (Option.some.inj hs)
      exact h
    | indirect op =>
      obtain ⟨⟨o', t₁⟩, h', he⟩ := Option.map_eq_some_iff.mp hs
      obtain rfl := congrArg Prod.snd he
      refine MatchTableIndirectWS.serves_act h (fun op' heq f hf => hop f ?_) h'
      obtain rfl := TableOp.call.inj heq
      cases op <;> exact hf
    | indirectWs op =>
      obtain ⟨⟨o', t₁⟩, h', he⟩ := Option.map_eq_some_iff.mp hs
      obtain rfl := congrArg Prod.snd he
      refine MatchTableIndirectWS.serves_act h (fun op' heq => ?_) h'
      obtain rfl := TableOp.call.inj heq
      exact hop

/-- Whatever is done to a table with the actions of its configuration. -/
theorem act (h : t.Serves C c) {op : TableOp TableCall} {o : Observation} (hop : c.Permits op)
    (hs : t.act L op = some (o, t')) : t'.Serves C c := by
  cases op with
  | call op => exact h.call hop hs
  | packet pkt hash micros =>
    obtain ⟨⟨a, t₁⟩, h', he⟩ := Option.map_eq_some_iff.mp hs
    obtain rfl := congrArg Prod.snd he
    exact (h.applyAction h').1
  | sweep nowMs | reset =>
    cases t with
    | simple t =>
      obtain ⟨⟨o', t₁⟩, h', he⟩ := Option.map_eq_some_iff.mp hs
      obtain rfl := congrArg Prod.snd he
      exact MatchTable.Serves.act h (fun op' heq => absurd heq (by simp)) h'
    | indirect t =>
      obtain ⟨⟨o', t₁⟩, h', he⟩ := Option.map_eq_some_iff.mp hs
      obtain rfl := congrArg Prod.snd he
      exact MatchTableIndirect.Serves.act h (fun op' heq => absurd heq (by simp)) h'
    | indirectWs t =>
      obtain ⟨⟨o', t₁⟩, h', he⟩ := Option.map_eq_some_iff.mp hs
      obtain rfl := congrArg Prod.snd he
      exact MatchTableIndirectWS.serves_act h (fun op' heq => absurd heq (by simp)) h'

theorem reach {init : AnyTable K S} (hinit : SetUp C c init)
    (h : Transition.Reach (AnyTable.act L) (fun _ op => c.Permits op) init t) : t.Serves C c :=
  h.invariant (Serves C c) (setUp hinit) fun _ _ _ _ hserves hop hs => hserves.act hop hs

end Serves

end AnyTable

end Bmv2
