import Bmv2.Lib.Transition
import Bmv2.Match.Sound
import Bmv2.Tables.Apply

/-! Next-node selection: the node after a table is computed when an entry, a member or a default
is set, and kept next to the action. -/
namespace Bmv2

/-- The next nodes that a configuration gives a table (`next_tables`, `base_default_next`). -/
structure NextNodeConfig where
  nodes : List (ℕ × Option ℕ) := []
  hit : Option (Option ℕ) := none
  miss : Option (Option ℕ) := none
  baseDefault : Option ℕ := none

namespace NextNodeConfig

variable (c : NextNodeConfig)

/-- The set-up calls in the order in which `P4Objects` makes them. -/
def configure (base : MatchTableAbstract) : MatchTableAbstract :=
  let base := c.nodes.foldl (fun base p => base.setNextNode p.1 p.2) base
  let base := c.hit.elim base base.setNextNodeHit
  let base := c.miss.elim base base.setNextNodeMiss
  base.setNextNodeMissDefault c.baseDefault

/-- The node registered for an action; the last call counts. -/
def registered (actionId : ℕ) : Option (Option ℕ) := c.nodes.reverse.lookup actionId

/-- Where a packet is to go after the action `actionFn`, if it ran one. -/
def nextNode (hit : Bool) (actionFn : Option ℕ) : Option (Option ℕ) :=
  if hit then c.hit.or (actionFn.bind c.registered)
  else c.miss.or (actionFn.elim (some c.baseDefault) c.registered)

/-- What the calls leave in the table. -/
structure Loaded (b : MatchTableAbstract) : Prop where
  nodes : b.nextNodes = c.nodes.reverse
  hit : b.nextNodeHit = c.hit
  hasMiss : b.hasNextNodeMiss = c.miss.isSome
  miss : ∀ node, c.miss = some node → b.nextNodeMiss = node

theorem foldl_setNextNode (nodes : List (ℕ × Option ℕ)) (b : MatchTableAbstract) :
    nodes.foldl (fun base p => base.setNextNode p.1 p.2) b =
      { b with nextNodes := nodes.reverse ++ b.nextNodes } := by
  induction nodes generalizing b with
  | nil => rfl
  | cons p nodes ih =>
    rw [List.foldl_cons, ih]
    simp [MatchTableAbstract.setNextNode]

variable (withCounters withAgeing : Bool)

theorem configure_eq : c.configure { withCounters, withAgeing } =
    { withCounters, withAgeing
      nextNodes := c.nodes.reverse
      nextNodeHit := c.hit
      nextNodeMiss := c.miss.getD c.baseDefault
      hasNextNodeMiss := c.miss.isSome } := by
  unfold configure
  rw [foldl_setNextNode, List.append_nil]
  cases c.hit <;> cases c.miss <;> rfl

theorem loaded_configure : c.Loaded (c.configure { withCounters, withAgeing }) := by
  rw [configure_eq]
  refine ⟨rfl, rfl, rfl, fun node hnode => ?_⟩
  rw [hnode]
  rfl

variable {c} {b : MatchTableAbstract}

theorem Loaded.getNextNode (h : c.Loaded b) (f : ℕ) :
    b.getNextNode f = c.nextNode true (some f) := by
  rw [MatchTableAbstract.getNextNode, h.hit, h.nodes]
  cases hc : c.hit <;> simp [nextNode, hc, registered]

theorem Loaded.getNextNodeDefault (h : c.Loaded b) (f : ℕ) :
    b.getNextNodeDefault f = c.nextNode false (some f) := by
  rw [MatchTableAbstract.getNextNodeDefault, h.hasMiss, h.nodes]
  cases hc : c.miss with
  | none => simp [nextNode, hc, registered]
  | some node => simp [nextNode, hc, h.miss node hc]

/-- The node kept with an action is the one that the configuration gives it on a hit. -/
def Caches (c : NextNodeConfig) (e : ActionEntry) : Prop :=
  ∃ f, e.actionFn = some f ∧ c.nextNode true (some f) = some e.nextNode

end NextNodeConfig

namespace MatchUnit

variable {K V S : Type} [MatchKey K] {L : LookupStructure K S} {C : SoundLookup L}
variable {u u' : MatchUnit K V S} {P : V → Prop}

/-- Whatever a packet can hit has a value that satisfies `P`. -/
structure ValueInv (C : SoundLookup L) (P : V → Prop) (u : MatchUnit K V S) : Prop where
  wf : u.Wf
  sound : u.SoundInv C
  values : ∀ i e, u.Live i e → P e.value

namespace ValueInv

theorem create [Inhabited V] {size : ℕ} (hsize : size ≤ 2 ^ 32) (kb : MatchKeyBuilder) {ls : S}
    (hinv : C.Inv ls) (hempty : ∀ x i, ¬ C.stored ls x i) :
    ValueInv C P (MatchUnit.create size kb ls) :=
  ⟨.create hsize kb ls, .create hinv hempty, by simp [Live, MatchUnit.create]⟩

theorem frame (h : ValueInv C P u) {entryMeta : List EntryMeta} (directMeters : Option (List Meter))
    (hlen : entryMeta.length = u.entryMeta.length) :
    ValueInv C P { u with entryMeta, directMeters } :=
  ⟨h.wf.frame directMeters hlen, ⟨h.sound.inv, h.sound.ok, h.sound.stored⟩, h.values⟩

theorem addEntry (h : ValueInv C P u) {now : ℕ} {params : List MatchKeyParam} {value : V}
    (hP : P value) {priority : ℤ} {r : Result ℕ}
    (hs : u.addEntry L now params value priority = some (r, u')) : ValueInv C P u' := by
  refine ⟨h.wf.addEntry hs, h.sound.addEntry h.wf hs, ?_⟩
  rcases addEntry_cases h.wf hs with ⟨_, -, rfl, -⟩ |
    ⟨key, old, ls, m, -, -, -, -, -, hold, -, -, -, rfl⟩
  · exact h.values
  rintro i e ⟨hi, he⟩
  by_cases hii : i = u.handles.firstEmpty
  · subst hii
    simp only [installed, List.getElem?_set, ↓reduceIte,
      (List.getElem?_eq_some_iff.mp hold).1, Option.some.injEq] at he
    rw [← he]
    exact hP
  · simp only [installed, List.getElem?_set, Ne.symm hii, ↓reduceIte] at he
    exact h.values i e ⟨(Finset.mem_insert.mp hi).resolve_left hii, he⟩

theorem deleteEntry (h : ValueInv C P u) {handle : ℕ} {r : Result Unit}
    (hs : u.deleteEntry L handle = some (r, u')) : ValueInv C P u' := by
  rcases deleteEntry_cases hs with ⟨_, -, rfl, -⟩ | ⟨e, ls, hc, hls, -, rfl⟩
  · exact h
  obtain ⟨hmem, hent, -⟩ := checkHandle_ok_iff.mp hc
  exact ⟨h.wf.removed hmem, h.sound.removed ⟨hmem, hent⟩ hls,
    fun i e' he' => h.values i e' (live_removed.mp he').2⟩

theorem modifyEntry (h : ValueInv C P u) {handle : ℕ} {value : V} (hP : P value)
    {r : Result Unit} (hs : u.modifyEntry handle value = some (r, u')) : ValueInv C P u' := by
  rcases modifyEntry_cases hs with ⟨_, -, rfl, -⟩ | ⟨e, hc, -, rfl⟩
  · exact h
  obtain ⟨hmem, hent, -⟩ := checkHandle_ok_iff.mp hc
  refine ⟨h.wf.rewritten (h.wf.version_lt e (List.mem_of_getElem? hent)),
    h.sound.rewritten ⟨hmem, hent⟩ value, ?_⟩
  rintro i e' ⟨hi, he'⟩
  by_cases hii : i = handleInternal handle
  · subst hii
    simp only [rewritten, List.getElem?_set, ↓reduceIte, (List.getElem?_eq_some_iff.mp hent).1,
      Option.some.injEq] at he'
    rw [← he']
    exact hP
  · simp only [rewritten, List.getElem?_set, Ne.symm hii, ↓reduceIte] at he'
    exact h.values i e' ⟨hi, he'⟩

theorem hit (h : ValueInv C P u) {pkt : Packet} {handle : ℕ} {value : V}
    (hl : u.lookup L pkt = some (some (handle, value), u')) : P value := by
  obtain ⟨key, -, hkey, -⟩ := lookup_cases hl
  obtain ⟨i, e, he, -, rfl⟩ := h.sound.hit hkey
  exact h.values i e he

end ValueInv

end MatchUnit

namespace MatchTable

variable {K S : Type} [MatchKey K] {L : LookupStructure K S} {C : SoundLookup L}
variable {c : NextNodeConfig} {t t' : MatchTable K S}

/-- The cached nodes are in step with the configuration. -/
structure NodeInv (C : SoundLookup L) (c : NextNodeConfig) (t : MatchTable K S) : Prop where
  loaded : c.Loaded t.base
  unit : t.matchUnit.ValueInv C c.Caches
  default : c.nextNode false t.defaultEntry.actionFn = some t.base.nextNodeMiss

namespace NodeInv

theorem step (h : NodeInv C c t) {op : Op} {r : Result TableReply}
    (hs : t.step L op = some (r, t')) : NodeInv C c t' := by
  have hcaches : ∀ f data node, t.base.getNextNode f = some node → c.Caches ⟨f, data, node⟩ :=
    fun f data node hnode => ⟨f, rfl, by rw [← h.loaded.getNextNode, hnode]⟩
  cases op with
  | addEntry now params actionFn actionData priority =>
    obtain ⟨⟨r', t₁⟩, h', he⟩ := Option.map_eq_some_iff.mp hs
    obtain rfl : t₁ = t' := congrArg Prod.snd he
    obtain ⟨node, hnode, h'⟩ := Option.bind_eq_some_iff.mp h'
    obtain ⟨⟨r₁, u⟩, hu, h'⟩ := Option.bind_eq_some_iff.mp h'
    obtain rfl := congrArg Prod.snd (Option.some.inj h')
    exact ⟨h.loaded, h.unit.addEntry (hcaches _ _ _ hnode) hu, h.default⟩
  | deleteEntry handle =>
    obtain ⟨⟨r', t₁⟩, h', he⟩ := Option.map_eq_some_iff.mp hs
    obtain rfl : t₁ = t' := congrArg Prod.snd he
    obtain ⟨⟨r₁, u⟩, hu, h'⟩ := Option.bind_eq_some_iff.mp h'
    obtain rfl := congrArg Prod.snd (Option.some.inj h')
    exact ⟨h.loaded, h.unit.deleteEntry hu, h.default⟩
  | modifyEntry handle actionFn actionData =>
    obtain ⟨⟨r', t₁⟩, h', he⟩ := Option.map_eq_some_iff.mp hs
    obtain rfl : t₁ = t' := congrArg Prod.snd he
    obtain ⟨node, hnode, h'⟩ := Option.bind_eq_some_iff.mp h'
    obtain ⟨⟨r₁, u⟩, hu, h'⟩ := Option.bind_eq_some_iff.mp h'
    obtain rfl := congrArg Prod.snd (Option.some.inj h')
    exact ⟨h.loaded, h.unit.modifyEntry (hcaches _ _ _ hnode) hu, h.default⟩
  | setDefaultAction actionFn actionData =>
    obtain ⟨t₁, h', he⟩ := Option.map_eq_some_iff.mp hs
    obtain rfl : t₁ = t' := congrArg Prod.snd he
    obtain ⟨node, hnode, h'⟩ := Option.bind_eq_some_iff.mp h'
    obtain rfl := Option.some.inj h'
    rw [h.loaded.getNextNodeDefault] at hnode
    refine ⟨⟨h.loaded.nodes, h.loaded.hit, h.loaded.hasMiss, fun n hn => ?_⟩, h.unit, hnode⟩
    simp only [NextNodeConfig.nextNode, hn, Bool.false_eq_true, ↓reduceIte, Option.some_or,
      Option.some.injEq] at hnode
    exact hnode.symm
  | getValue handle | getEntry handle =>
    obtain ⟨_, -, he⟩ := Option.map_eq_some_iff.mp hs
    obtain rfl : t = t' := congrArg Prod.snd he
    exact h
  | base op =>
    obtain ⟨⟨r', u⟩, h', he⟩ := Option.map_eq_some_iff.mp hs
    obtain rfl := congrArg Prod.snd he
    obtain ⟨entryMeta, directMeters, hlen, rfl⟩ := MatchTableAbstract.step_cases h'
    exact ⟨h.loaded, h.unit.frame directMeters hlen, h.default⟩

theorem act (h : NodeInv C c t) {op : TableOp Op} {o : Observation} (hreset : op.isReset = false)
    (hs : t.act L op = some (o, t')) : NodeInv C c t' := by
  cases acts_of_act hs with
  | call h' => exact h.step h'
  | packet hl hf =>
    obtain ⟨entryMeta, directMeters, hlen, rfl⟩ := MatchUnit.lookup_frame hl hf
    exact ⟨h.loaded, h.unit.frame directMeters hlen, h.default⟩
  | sweep => exact h
  | reset => simp [TableOp.isReset] at hreset

/-- A direct table goes where the configuration says. -/
theorem applyAction (h : NodeInv C c t) {pkt : Packet} {micros : ℕ} {a : Applied}
    (hs : t.applyAction L pkt micros = some (a, t')) :
    c.nextNode a.handle.isSome a.action.actionFn = some a.nextNode := by
  obtain ⟨res, u, u', hl, hf, rfl⟩ := applyAction_cases hs
  obtain ⟨color, -, rfl⟩ := MatchTableAbstract.finishApply_cases hf
  cases res with
  | none => exact h.default
  | some found =>
    obtain ⟨f, hf, hnode⟩ := h.unit.hit hl
    simpa [actionOf, hf] using hnode

end NodeInv

end MatchTable

theorem mem_pushOrSet {α : Type} {l : List α} {i : ℕ} {a b : α} (h : b ∈ pushOrSet l i a) :
    b ∈ l ∨ b = a := by
  rw [pushOrSet] at h
  split_ifs at h
  · simpa using h
  · exact List.mem_or_eq_of_mem_set h

namespace MatchTableIndirect

variable {K S : Type} {L : LookupStructure K S} {c : NextNodeConfig}
variable {t t' : MatchTableIndirect K S}

/-- The members' nodes are in step with the configuration; the node of a miss never moves. -/
structure NodeInv (c : NextNodeConfig) (t : MatchTableIndirect K S) : Prop where
  loaded : c.Loaded t.base
  miss : t.base.nextNodeMiss = c.miss.getD c.baseDefault
  entries : ∀ e ∈ t.actionEntries, c.Caches e

namespace NodeInv

theorem caches (h : NodeInv c t) {f : ℕ} {node : Option ℕ} (data : List ℤ)
    (hnode : t.base.getNextNode f = some node) : c.Caches ⟨f, data, node⟩ :=
  ⟨f, rfl, by rw [← h.loaded.getNextNode, hnode]⟩

theorem addMember (h : NodeInv c t) {f : ℕ} {data : List ℤ} {r : Result ℕ}
    (hs : t.addMember f data = some (r, t')) : NodeInv c t' := by
  obtain ⟨node, hnode, hs⟩ := Option.bind_eq_some_iff.mp hs
  cases hget : t.mbrHandles.getHandle with
  | none =>
    rw [hget] at hs
    obtain rfl := congrArg Prod.snd (Option.some.inj hs)
    exact h
  | some p =>
    rw [hget] at hs
    obtain ⟨t₁, h₁, hs⟩ := Option.bind_eq_some_iff.mp hs
    obtain rfl := congrArg Prod.snd (Option.some.inj hs)
    rw [entriesInsert] at h₁
    split_ifs at h₁
    obtain ⟨x, -, h₁⟩ := Option.bind_eq_some_iff.mp h₁
    obtain ⟨_, -, h₁⟩ := Option.bind_eq_some_iff.mp h₁
    obtain rfl := Option.some.inj h₁
    refine ⟨h.loaded, h.miss, fun e he => ?_⟩
    rcases mem_pushOrSet he with he | rfl
    · exact h.entries e he
    · exact h.caches data hnode

theorem modifyMember (h : NodeInv c t) {mbr f : ℕ} {data : List ℤ} {r : Result Unit}
    (hs : t.modifyMember mbr f data = some (r, t')) : NodeInv c t' := by
  obtain ⟨node, hnode, hs⟩ := Option.bind_eq_some_iff.mp hs
  split_ifs at hs
  · obtain rfl := congrArg Prod.snd (Option.some.inj hs)
    exact h
  · obtain rfl := congrArg Prod.snd (Option.some.inj hs)
    refine ⟨h.loaded, h.miss, fun e he => ?_⟩
    rcases List.mem_or_eq_of_mem_set he with he | rfl
    · exact h.entries e he
    · exact h.caches data hnode

variable [MatchKey K]

theorem step (h : NodeInv c t) {op : Op} {r : Result TableReply}
    (hs : t.step L op = some (r, t')) : NodeInv c t' := by
  cases steps_of_step hs with
  | addMember h' => exact h.addMember h'
  | deleteMember h' =>
    rcases deleteMember_cases h' with ⟨_, -, rfl⟩ | ⟨_, -, -, -, -, rfl⟩
    · exact h
    · exact ⟨h.loaded, h.miss, h.entries⟩
  | modifyMember h' => exact h.modifyMember h'
  | addEntry hm hx h' =>
    obtain ⟨_, _, -, -, rfl⟩ := addIndexed_cases h'
    exact ⟨h.loaded, h.miss, h.entries⟩
  | deleteEntry h' =>
    rcases deleteEntry_cases h' with ⟨_, -, rfl, -⟩ | ⟨_, _, _, -, -, -, -, rfl⟩
    · exact h
    · exact ⟨h.loaded, h.miss, h.entries⟩
  | modifyEntry h' =>
    rcases modifyIndexed_cases h' with ⟨_, -, rfl, -⟩ | ⟨_, _, _, -, -, -, -, rfl⟩ |
      ⟨_, _, _, _, -, -, -, -, -, -, rfl⟩
    · exact h
    · exact ⟨h.loaded, h.miss, h.entries⟩
    · exact ⟨h.loaded, h.miss, h.entries⟩
  | addRefused | defaultRefused | getValue | getEntry | getMember => exact h
  | setDefaultMember | base => exact ⟨h.loaded, h.miss, h.entries⟩

theorem act (h : NodeInv c t) {op : TableOp Op} {o : Observation}
    (hs : t.act L op = some (o, t')) : NodeInv c t' := by
  cases acts_of_act hs with
  | call h' => exact h.step h'
  | packet => exact ⟨h.loaded, h.miss, h.entries⟩
  | sweep => exact h
  | reset h' =>
    obtain ⟨u, -, rfl⟩ := Option.map_eq_some_iff.mp h'
    exact ⟨h.loaded, h.miss, by simp⟩

omit [MatchKey K] in
/-- After a hit the node is right. After a miss it is the one kept for misses, whatever the
action of the default. -/
theorem selects (h : NodeInv c t) {u u' : MatchUnit K IndirectIndex S} {handle : Option ℕ}
    {action : ActionEntry} {pkt : Packet} {micros : ℕ} {a : Applied}
    (hact : handle = none ∨ action ∈ t.actionEntries)
    (hf : t.base.finishApply u handle action pkt micros = some (a, u')) :
    c.nextNode a.handle.isSome a.action.actionFn = some a.nextNode ↔
      handle.isSome = true ∨ c.miss.isSome = true ∨
        action.actionFn.elim (some c.baseDefault) c.registered = some c.baseDefault := by
  obtain ⟨color, -, rfl⟩ := MatchTableAbstract.finishApply_cases hf
  cases handle with
  | some hdl =>
    obtain ⟨f, hf, hnode⟩ := h.entries action (hact.resolve_left (by simp))
    simp [hf, hnode]
  | none =>
    cases hc : c.miss with
    | none => simp [NextNodeConfig.nextNode, h.miss, hc]
    | some node => simp [NextNodeConfig.nextNode, h.miss, hc]

end NodeInv

/-- After a miss, the node kept for misses is the one of the action that ran: there is a miss
node, there is no default, or the action of the member `target` that the default leads to goes
to the base default node too. -/
def MissAgrees (c : NextNodeConfig) (t : MatchTableIndirect K S) (target : Option ℕ) : Prop :=
  c.miss.isSome = true ∨ t.defaultSet = false ∨
    ∀ mbr entry, target = some mbr → t.actionEntries[mbr]? = some entry →
      entry.actionFn.bind c.registered = some c.baseDefault

variable [MatchKey K]

/-- `resolve` is how the table gets from an index to a member. -/
theorem NodeInv.selects_iff (h : NodeInv c t) (resolve : IndirectIndex → Option ℕ) {pkt : Packet}
    {micros : ℕ} {a : Applied} {res : Option (ℕ × IndirectIndex)} {action : ActionEntry}
    {u u' : MatchUnit K IndirectIndex S} (hl : t.matchUnit.lookup L pkt = some (res, u))
    (ha : (if res.isNone && !t.defaultSet then some {} else do
      let mbr ← resolve ((res.map Prod.snd).getD t.defaultIndex)
      if t.isValidMbr mbr then t.actionEntries[mbr]? else none) = some action)
    (hf : t.base.finishApply u (res.map Prod.fst) action pkt micros = some (a, u')) :
    c.nextNode a.handle.isSome a.action.actionFn = some a.nextNode ↔
      t.matchUnit.Hits L pkt ∨ MissAgrees c t (resolve t.defaultIndex) := by
  cases res with
  | some found =>
    simp only [Option.isNone_some, Bool.false_and, Bool.false_eq_true, ↓reduceIte] at ha
    obtain ⟨mbr, -, ha⟩ := Option.bind_eq_some_iff.mp ha
    split_ifs at ha
    rw [h.selects (.inr (List.mem_of_getElem? ha)) hf]
    exact iff_of_true (.inl rfl) (.inl (MatchUnit.hits_of_lookup hl))
  | none =>
    rw [h.selects (.inl rfl) hf]
    have hmiss : ¬ t.matchUnit.Hits L pkt := MatchUnit.not_hits_of_lookup hl
    cases hd : t.defaultSet with
    | true =>
      simp only [Option.isNone_none, hd, Bool.not_true, Bool.and_false, Bool.false_eq_true,
        ↓reduceIte, Option.map_none, Option.getD_none] at ha
      obtain ⟨mbr, hmbr, ha⟩ := Option.bind_eq_some_iff.mp ha
      split_ifs at ha
      obtain ⟨f, hf, -⟩ := h.entries action (List.mem_of_getElem? ha)
      have htarget : (∀ mbr' entry, some mbr = some mbr' → t.actionEntries[mbr']? = some entry →
          entry.actionFn.bind c.registered = some c.baseDefault) ↔
          c.registered f = some c.baseDefault := by
        constructor
        · intro hall
          simpa [hf] using hall mbr action rfl ha
        · rintro hreg mbr' entry he hentry
          obtain rfl := Option.some.inj he
          obtain rfl := Option.some.inj (ha.symm.trans hentry)
          simpa [hf] using hreg
      rw [MissAgrees, hmbr, htarget]
      simp [hmiss, hd, hf]
    | false =>
      simp only [Option.isNone_none, hd, Bool.not_false, Bool.and_self, ↓reduceIte,
        Option.some.injEq] at ha
      simp [← ha, MissAgrees, hd]

theorem NodeInv.applyAction (h : NodeInv c t) {pkt : Packet} {micros : ℕ} {a : Applied}
    (hs : t.applyAction L pkt micros = some (a, t')) :
    c.nextNode a.handle.isSome a.action.actionFn = some a.nextNode ↔
      t.matchUnit.Hits L pkt ∨ MissAgrees c t t.defaultIndex.getMbr := by
  obtain ⟨res, u, action, u', hl, ha, hf, rfl⟩ := applyAction_cases hs
  exact h.selects_iff IndirectIndex.getMbr hl ha hf

end MatchTableIndirect

namespace MatchTableIndirectWS

variable {K S : Type} [MatchKey K] {L : LookupStructure K S} {c : NextNodeConfig}
variable {t t' : MatchTableIndirectWS K S}

open MatchTableIndirect (NodeInv)

theorem nodeInv_step (h : NodeInv c t.toMatchTableIndirect) {op : Op} {r : Result TableReply}
    (hs : t.step L op = some (r, t')) : NodeInv c t'.toMatchTableIndirect := by
  cases steps_of_step hs with
  | indirect h₁ => exact h.step h₁
  | createGroup h' =>
    rcases createGroup_cases h' with ⟨_, -, rfl⟩ | ⟨_, _, -, -, -, -, rfl⟩
    · exact h
    · exact ⟨h.loaded, h.miss, h.entries⟩
  | deleteGroup h' =>
    rcases deleteGroup_cases h' with ⟨_, -, rfl⟩ | ⟨_, _, _, -, -, -, -, -, -, rfl⟩
    · exact h
    · exact ⟨h.loaded, h.miss, h.entries⟩
  | addMemberToGroup h' =>
    rcases addMemberToGroup_cases h' with ⟨_, -, rfl⟩ | ⟨_, _, _, -, -, -, -, -, -, -, rfl⟩
    · exact h
    · exact ⟨h.loaded, h.miss, h.entries⟩
  | removeMemberFromGroup h' =>
    rcases removeMemberFromGroup_cases h' with ⟨_, -, rfl⟩ | ⟨_, _, _, -, -, -, -, -, -, -, rfl⟩
    · exact h
    · exact ⟨h.loaded, h.miss, h.entries⟩
  | addEntryWs hcheck hx h₂ =>
    obtain ⟨_, _, -, -, rfl⟩ := MatchTableIndirect.addIndexed_cases h₂
    exact ⟨h.loaded, h.miss, h.entries⟩
  | modifyEntryWs h₂ =>
    rcases MatchTableIndirect.modifyIndexed_cases h₂ with ⟨_, -, rfl, -⟩ |
      ⟨_, _, _, -, -, -, -, rfl⟩ | ⟨_, _, _, _, -, -, -, -, -, -, rfl⟩
    · exact h
    · exact ⟨h.loaded, h.miss, h.entries⟩
    · exact ⟨h.loaded, h.miss, h.entries⟩
  | addRefused | defaultRefused | getEntry | getGroup | getNumMembersInGroup => exact h
  | setDefaultGroup => exact ⟨h.loaded, h.miss, h.entries⟩

theorem nodeInv_act (h : NodeInv c t.toMatchTableIndirect) {op : TableOp Op} {o : Observation}
    (hs : t.act L op = some (o, t')) : NodeInv c t'.toMatchTableIndirect := by
  cases acts_of_act hs with
  | call h' => exact nodeInv_step h h'
  | packet => exact ⟨h.loaded, h.miss, h.entries⟩
  | sweep => exact h
  | reset h' =>
    obtain ⟨t₂, h₂, rfl⟩ := Option.map_eq_some_iff.mp h'
    obtain ⟨u, -, rfl⟩ := Option.map_eq_some_iff.mp h₂
    exact ⟨h.loaded, h.miss, by simp⟩

theorem nodeInv_applyAction (h : NodeInv c t.toMatchTableIndirect) {pkt : Packet}
    {hash : Option ℕ} {micros : ℕ} {a : Applied}
    (hs : t.applyAction L pkt hash micros = some (a, t')) :
    c.nextNode a.handle.isSome a.action.actionFn = some a.nextNode ↔
      t.matchUnit.Hits L pkt ∨
        t.toMatchTableIndirect.MissAgrees c (t.resolve t.defaultIndex hash) := by
  obtain ⟨res, u, action, u', hl, ha, hf, rfl⟩ := applyAction_cases hs
  exact h.selects_iff (t.resolve · hash) hl ha hf

end MatchTableIndirectWS

section Runs

variable {K S : Type} [MatchKey K] {L : LookupStructure K S}

/-- Along every run of calls, packets and sweeps on a configured table, a packet at a direct
table goes to the node that the configuration gives for what it hits and runs. At an indirect
table it does so exactly if it hits, or the node kept for misses agrees with the default. -/
theorem next_node_selection {size : ℕ} (hsize : size ≤ 2 ^ 32) (c : NextNodeConfig)
    (withCounters withAgeing : Bool) (kb : MatchKeyBuilder) (C : SoundLookup L) {ls : S}
    (hinv : C.Inv ls) (hempty : ∀ x i, ¬ C.stored ls x i) :
    (∀ init t, SetUp MatchTable.setDirectMeters
        (MatchTable.create (c.configure { withCounters, withAgeing }) size kb ls) init →
      Transition.Reach (MatchTable.act L) (fun _ op => op.isReset = false) init t →
      ∀ pkt micros a t', t.applyAction L pkt micros = some (a, t') →
        c.nextNode a.handle.isSome a.action.actionFn = some a.nextNode) ∧
    (∀ init t, SetUp MatchTableIndirect.setDirectMeters
        (MatchTableIndirect.create (c.configure { withCounters, withAgeing }) size kb ls) init →
      Transition.Reach (MatchTableIndirect.act L) (fun _ _ => True) init t →
      ∀ pkt micros a t', t.applyAction L pkt micros = some (a, t') →
        (c.nextNode a.handle.isSome a.action.actionFn = some a.nextNode ↔
          t.matchUnit.Hits L pkt ∨ t.MissAgrees c t.defaultIndex.getMbr)) ∧
    (∀ init t, SetUp MatchTableIndirectWS.setDirectMeters
        (MatchTableIndirectWS.create (c.configure { withCounters, withAgeing }) size kb ls) init →
      Transition.Reach (MatchTableIndirectWS.act L) (fun _ _ => True) init t →
      ∀ pkt hash micros a t', t.applyAction L pkt hash micros = some (a, t') →
        (c.nextNode a.handle.isSome a.action.actionFn = some a.nextNode ↔
          t.matchUnit.Hits L pkt ∨
            t.toMatchTableIndirect.MissAgrees c (t.resolve t.defaultIndex hash))) := by
  have hload := c.loaded_configure withCounters withAgeing
  have hmiss : (c.configure { withCounters, withAgeing }).nextNodeMiss =
      c.miss.getD c.baseDefault := by
    rw [NextNodeConfig.configure_eq]
  refine ⟨fun init t hinit hrun pkt micros a t' hs => ?_,
    fun init t hinit hrun pkt micros a t' hs => ?_,
    fun init t hinit hrun pkt hash micros a t' hs => ?_⟩
  · have hnew : MatchTable.NodeInv C c
        (MatchTable.create (c.configure { withCounters, withAgeing }) size kb ls) := by
      refine ⟨hload, .create hsize kb hinv hempty, ?_⟩
      cases hc : c.miss <;> simp [MatchTable.create, hmiss, NextNodeConfig.nextNode, hc]
    have hstart : MatchTable.NodeInv C c init := by
      rcases hinit with rfl | ⟨meters, hm⟩
      · exact hnew
      · obtain ⟨u, hu, rfl⟩ := Option.map_eq_some_iff.mp hm
        rw [MatchUnit.setDirectMeters] at hu
        split_ifs at hu
        obtain rfl := Option.some.inj hu
        exact ⟨⟨hload.nodes, hload.hit, hload.hasMiss, hload.miss⟩, hnew.unit.frame _ rfl,
          hnew.default⟩
    exact (hrun.invariant (MatchTable.NodeInv C c) hstart
      fun _ _ _ _ h hok hs => h.act hok hs).applyAction hs
  · have hstart : MatchTableIndirect.NodeInv c init := by
      rcases hinit with rfl | ⟨meters, hm⟩
      · exact ⟨hload, hmiss, by simp [MatchTableIndirect.create]⟩
      · obtain ⟨u, -, rfl⟩ := Option.map_eq_some_iff.mp hm
        exact ⟨⟨hload.nodes, hload.hit, hload.hasMiss, hload.miss⟩, hmiss,
          by simp [MatchTableIndirect.create]⟩
    exact (hrun.invariant (MatchTableIndirect.NodeInv c) hstart
      fun _ _ _ _ h _ hs => h.act hs).applyAction hs
  · have hstart : MatchTableIndirect.NodeInv c init.toMatchTableIndirect := by
      rcases hinit with rfl | ⟨meters, hm⟩
      · exact ⟨hload, hmiss, by simp [MatchTableIndirectWS.create, MatchTableIndirect.create]⟩
      · obtain ⟨t₁, ht₁, rfl⟩ := Option.map_eq_some_iff.mp hm
        obtain ⟨u, -, rfl⟩ := Option.map_eq_some_iff.mp ht₁
        exact ⟨⟨hload.nodes, hload.hit, hload.hasMiss, hload.miss⟩, hmiss,
          by simp [MatchTableIndirectWS.create, MatchTableIndirect.create]⟩
    exact MatchTableIndirectWS.nodeInv_applyAction (hrun.invariant
      (fun t => MatchTableIndirect.NodeInv c t.toMatchTableIndirect) hstart
      fun _ _ _ _ h _ hs => MatchTableIndirectWS.nodeInv_act h hs) hs

end Runs

/-- One action with a node of its own, and another node for misses. -/
def twoNodes : NextNodeConfig where
  nodes := [(7, some 1)]
  baseDefault := some 2

/-- A direct table keyed by one byte. -/
def nodeTable : MatchTable ExactMatchKey (AList fun _ : List ByteBits.Byte => ℕ) :=
  .create (twoNodes.configure {}) 1 (({} : MatchKeyBuilder).pushBackField 0 0 8 .exact) ∅

/-- A miss that runs the default action goes to the node of that action. -/
theorem next_node_selection_default :
    ∃ t, Transition.Reach (MatchTable.act exactMap) (fun _ op => op.isReset = false) nodeTable t ∧
      ∃ a t', t.applyAction exactMap (onePacket 4) 0 = some (a, t') ∧ a.handle = none ∧
        a.action.actionFn = some 7 ∧
        twoNodes.nextNode a.handle.isSome a.action.actionFn = some a.nextNode := by
  have heval : ((Transition.runAll (MatchTable.act exactMap) (fun _ op => op.isReset = false)
      nodeTable [.call (.setDefaultAction 7 [])]).bind fun t =>
        (t.applyAction exactMap (onePacket 4) 0).map fun p =>
          (p.1.handle, p.1.action.actionFn)) = some (none, some 7) := by
    decide +kernel
  obtain ⟨t, hrun, ht⟩ := Option.bind_eq_some_iff.mp heval
  obtain ⟨⟨a, t'⟩, hs, ha⟩ := Option.map_eq_some_iff.mp ht
  obtain ⟨hnone, hseven⟩ := Prod.mk.inj ha
  have hreach := Transition.Reach.of_runAll hrun
  exact ⟨t, hreach, a, t', hs, hnone, hseven,
    (next_node_selection (by decide) twoNodes false false _
    exactMapSound trivial (fun _ _ h => absurd ((AList.lookup_empty _).symm.trans h)
      (by simp))).1 nodeTable t (.inl rfl) hreach (onePacket 4) 0 a t' hs⟩

/-- At an indirect table it goes to the base default node instead. -/
theorem next_node_of_default_member :
    ∃ t, Transition.Reach (MatchTableIndirect.act exactMap) (fun _ _ => True)
        (MatchTableIndirect.create (twoNodes.configure {}) 1
          (({} : MatchKeyBuilder).pushBackField 0 0 8 .exact) ∅) t ∧
      ∃ a t', t.applyAction exactMap (onePacket 4) 0 = some (a, t') ∧ a.handle = none ∧
        a.action.actionFn = some 7 ∧ a.nextNode = some 2 ∧
        twoNodes.nextNode a.handle.isSome a.action.actionFn = some (some 1) := by
  have heval : ((Transition.runAll (MatchTableIndirect.act exactMap) (fun _ _ => True)
      (MatchTableIndirect.create (twoNodes.configure {}) 1
        (({} : MatchKeyBuilder).pushBackField 0 0 8 .exact) ∅)
      [.call (.addMember 7 []), .call (.setDefaultMember 0)]).bind fun t =>
        (t.applyAction exactMap (onePacket 4) 0).map fun p =>
          (p.1.handle, p.1.action.actionFn, p.1.nextNode)) = some (none, some 7, some 2) := by
    decide +kernel
  obtain ⟨t, hrun, ht⟩ := Option.bind_eq_some_iff.mp heval
  obtain ⟨⟨a, t'⟩, hs, ha⟩ := Option.map_eq_some_iff.mp ht
  simp only [Prod.mk.injEq] at ha
  obtain ⟨hnone, hseven, htwo⟩ := ha
  refine ⟨t, .of_runAll hrun, a, t', hs, hnone, hseven, htwo, ?_⟩
  rw [hnone, hseven]
  rfl

end Bmv2
