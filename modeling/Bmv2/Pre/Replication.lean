import Bmv2.Lib.Transition
import Bmv2.Pre.SimplePre

/-! What multicast groups are for: `Multicast` keeps the nodes of every group by identity and
never by handle, and the engine is compared with it along every run. -/
namespace Bmv2
open UnorderedMap

inductive PreOp where
  | mgrpCreate (mgid : ℕ)
  | mgrpDestroy (mgrpHdl : ℕ)
  | nodeCreate (rid : ℕ) (portMap : PortMap)
  | nodeAssociate (mgrpHdl l1Hdl : ℕ)
  | nodeDissociate (mgrpHdl l1Hdl : ℕ)
  | nodeDestroy (l1Hdl : ℕ)
  | nodeUpdate (l1Hdl : ℕ) (portMap : PortMap)

/-- A call of the engine: the return code, the handle of a new node and the state after. -/
def McSimplePre.step (pre : McSimplePre) : PreOp → (McReturnCode × Option ℕ) × McSimplePre
  | .mgrpCreate mgid => ((pre.mcMgrpCreate mgid).map (·, none) id)
  | .mgrpDestroy mgrpHdl => ((pre.mcMgrpDestroy mgrpHdl).map (·, none) id)
  | .nodeCreate rid portMap => pre.mcNodeCreate rid portMap
  | .nodeAssociate mgrpHdl l1Hdl => ((pre.mcNodeAssociate mgrpHdl l1Hdl).map (·, none) id)
  | .nodeDissociate mgrpHdl l1Hdl => ((pre.mcNodeDissociate mgrpHdl l1Hdl).map (·, none) id)
  | .nodeDestroy l1Hdl => ((pre.mcNodeDestroy l1Hdl).map (·, none) id)
  | .nodeUpdate l1Hdl portMap => ((pre.mcNodeUpdate l1Hdl portMap).map (·, none) id)

/-- The groups and nodes that the calls so far have asked for. Nodes are numbered in the order
of their creation, so that a node is not mistaken for a later one with its handle. -/
structure Multicast where
  created : ℕ → Bool := fun _ => false
  members : ℕ → List ℕ := fun _ => []
  node : ℕ → Option ℕ := fun _ => none
  live : ℕ → Option (ℕ × PortMap) := fun _ => none
  next : ℕ := 0

namespace Multicast

/-- What a successful call asks for; `l1Hdl` is the handle it returns. -/
def record (M : Multicast) (l1Hdl : Option ℕ) : PreOp → Multicast
  | .mgrpCreate mgid => { M with created := Function.update M.created mgid true }
  | .mgrpDestroy mgid =>
    { M with
      created := Function.update M.created mgid false
      members := Function.update M.members mgid [] }
  | .nodeCreate rid portMap =>
    { M with
      node := fun h => if l1Hdl = some h then some M.next else M.node h
      live := Function.update M.live M.next (some (rid, portMap))
      next := M.next + 1 }
  | .nodeAssociate mgid h =>
    { M with members := Function.update M.members mgid (M.members mgid ++ (M.node h).toList) }
  | .nodeDissociate mgid h =>
    { M with
      members := Function.update M.members mgid
        ((M.members mgid).filter fun n => some n ≠ M.node h) }
  | .nodeDestroy h =>
    { M with
      node := Function.update M.node h none
      live := fun n => if M.node h = some n then none else M.live n }
  | .nodeUpdate h portMap =>
    { M with
      live := fun n => if M.node h = some n then (M.live n).map fun p => (p.1, portMap)
        else M.live n }

/-- The copies of a packet for one node; a node that is gone has none. -/
def copies (M : Multicast) (n : ℕ) : List McOut :=
  match M.live n with
  | some (rid, portMap) => portMap.ports.map fun port => ⟨rid, port⟩
  | none => []

def replicate (M : Multicast) (mgid : ℕ) : List McOut := (M.members mgid).flatMap M.copies

end Multicast

/-- A call together with what it asks for, which a failed call does not. -/
def preStep (s : McSimplePre × Multicast) (op : PreOp) :
    Option ((McReturnCode × Option ℕ) × (McSimplePre × Multicast)) :=
  match s.1.step op with
  | ((.success, l1Hdl), pre) => some ((.success, l1Hdl), (pre, s.2.record l1Hdl op))
  | (r, pre) => some (r, (pre, s.2))

/-- Every group that was created and not destroyed replicates to the copies of its nodes. -/
def Replicates (s : McSimplePre × Multicast) : Prop :=
  ∀ mgid, s.2.created mgid = true → s.1.replicate mgid = some (s.2.replicate mgid)

namespace McSimplePre

/-- The nodes that a group lists; a group without an entry lists none. -/
def group (pre : McSimplePre) (mgid : ℕ) : List ℕ :=
  ((pre.mgidEntries.lookup mgid).map MgidEntry.l1List).getD []

/-- A node is destroyed only when no group lists it. -/
def Dissociated (pre : McSimplePre) : PreOp → Prop
  | .nodeDestroy l1Hdl => ∀ e ∈ pre.mgidEntries.entries, l1Hdl ∉ e.2.l1List
  | _ => True

instance (pre : McSimplePre) (op : PreOp) : Decidable (pre.Dissociated op) := by
  cases op <;> unfold Dissociated <;> infer_instance

/-- The links between the three tables, and what each handle stands for. -/
structure Linked (pre : McSimplePre) (M : Multicast) : Prop where
  l1_handles : ∀ h, h ∈ pre.l1Handles.handles ↔ (pre.l1Entries.lookup h).isSome
  l2_handles : ∀ h, h ∈ pre.l2Handles.handles ↔ (pre.l2Entries.lookup h).isSome
  free : ∀ h, pre.l1Entries.lookup h = none → M.node h = none
  node : ∀ h e, pre.l1Entries.lookup h = some e → ∃ n e₂, M.node h = some n ∧
    pre.l2Entries.lookup e.l2Hdl = some e₂ ∧ e₂.l1Hdl = h ∧ M.live n = some (e.rid, e₂.portMap)
  node_lt : ∀ h n, M.node h = some n → n < M.next
  node_inj : ∀ h h' n, M.node h = some n → M.node h' = some n → h = h'
  members : ∀ mgid, (pre.group mgid).map M.node = (M.members mgid).map some
  created : ∀ mgid, M.created mgid = true → (pre.mgidEntries.lookup mgid).isSome

variable {pre pre' : McSimplePre} {M : Multicast}

theorem Linked.node_of_mem (h : Linked pre M) {mgid l1Hdl : ℕ} (hmem : l1Hdl ∈ pre.group mgid) :
    ∃ n, M.node l1Hdl = some n := by
  have hm := List.mem_map_of_mem (f := M.node) hmem
  rw [h.members] at hm
  obtain ⟨n, -, hn⟩ := List.mem_map.mp hm
  exact ⟨n, hn.symm⟩

theorem Linked.entry_of_node (h : Linked pre M) {l1Hdl n : ℕ} (hn : M.node l1Hdl = some n) :
    ∃ e, pre.l1Entries.lookup l1Hdl = some e := by
  cases he : pre.l1Entries.lookup l1Hdl with
  | none => simp [h.free _ he] at hn
  | some e => exact ⟨e, rfl⟩

theorem Linked.replicateNode (h : Linked pre M) {l1Hdl n : ℕ} (hn : M.node l1Hdl = some n) :
    pre.replicateNode l1Hdl = some (M.copies n) := by
  obtain ⟨e, he⟩ := h.entry_of_node hn
  obtain ⟨n', e₂, hn', he₂, -, hlive⟩ := h.node _ _ he
  obtain rfl : n = n' := by simpa [hn] using hn'
  simp [McSimplePre.replicateNode, he, he₂, Multicast.copies, hlive]

theorem Linked.replicateList (h : Linked pre M) {l1List ns : List ℕ}
    (hl : l1List.map M.node = ns.map some) :
    pre.replicateList l1List = some (ns.flatMap M.copies) := by
  induction l1List generalizing ns with
  | nil =>
    obtain rfl : ns = [] := by simpa using hl.symm
    rfl
  | cons l1Hdl l1List ih =>
    cases ns with
    | nil => simp at hl
    | cons n ns =>
      obtain ⟨hn, hl⟩ := List.cons.inj hl
      simp [McSimplePre.replicateList, h.replicateNode hn, ih hl]

theorem Linked.replicates (h : Linked pre M) : Replicates (pre, M) := by
  intro mgid hc
  obtain ⟨e, he⟩ := Option.isSome_iff_exists.mp (h.created mgid hc)
  have hm := h.members mgid
  simp only [group, he, Option.map_some, Option.getD_some] at hm
  simp [replicate, he, h.replicateList hm, Multicast.replicate]

theorem linked_empty : Linked {} {} := by
  constructor <;> simp [group]

theorem group_default (pre : McSimplePre) (mgid : ℕ) :
    ((pre.mgidEntries.lookup mgid).getD default).l1List = pre.group mgid := by
  rw [group]
  cases pre.mgidEntries.lookup mgid <;> rfl

theorem group_modify {mgid : ℕ} {f : MgidEntry → MgidEntry}
    (hp : pre'.mgidEntries = modify pre.mgidEntries mgid f) (j : ℕ) : pre'.group j =
      if j = mgid then (f ((pre.mgidEntries.lookup mgid).getD default)).l1List
      else pre.group j := by
  rw [group, hp, lookup_modify]
  split_ifs <;> rfl

/-- A map whose keys are the handles in use has as many of them. -/
theorem card_handles {ν : Type} {m : HandleMgr} {entries : Map ℕ ν}
    (h : ∀ i, i ∈ m.handles ↔ (entries.lookup i).isSome) :
    m.handles.card = entries.keys.length := by
  have heq : m.handles = entries.keys.toFinset := by
    ext i
    rw [h, AList.lookup_isSome, List.mem_toFinset, AList.mem_keys]
  rw [heq, List.toFinset_card_of_nodup entries.keys_nodup]

/-- While there is room in a table its allocator hands out a handle that is free. -/
theorem getHandle_of_room {ν : Type} {m : HandleMgr} {entries : Map ℕ ν} {maxEntries : ℕ}
    (h : ∀ i, i ∈ m.handles ↔ (entries.lookup i).isSome) (hmax : maxEntries ≤ 2 ^ 64)
    (hroom : ¬ entries.keys.length ≥ maxEntries) :
    entries.lookup m.firstEmpty = none ∧
      m.getHandle = some (m.firstEmpty, ⟨insert m.firstEmpty m.handles⟩) := by
  rw [← card_handles h, not_le] at hroom
  have hlt : m.firstEmpty < 2 ^ 64 := (m.firstEmpty_lt hroom).trans_le hmax
  constructor
  · have hfree := m.firstEmpty_notMem
    rwa [h, Option.not_isSome_iff_eq_none] at hfree
  · rw [HandleMgr.getHandle, if_pos hlt]

/-- Below the limits of the tables both allocators have a handle left. -/
theorem mcNodeCreate_cases (h : Linked pre M) {rid : ℕ} {portMap : PortMap} {rc : McReturnCode}
    {hdl : Option ℕ} (hs : pre.mcNodeCreate rid portMap = ((rc, hdl), pre')) :
    (rc ≠ .success ∧ pre' = pre) ∨ ∃ l1Hdl l2Hdl, rc = .success ∧ hdl = some l1Hdl ∧
      pre.l1Entries.lookup l1Hdl = none ∧ pre.l2Entries.lookup l2Hdl = none ∧
      pre' = { pre with
        l1Handles := ⟨insert l1Hdl pre.l1Handles.handles⟩
        l2Handles := ⟨insert l2Hdl pre.l2Handles.handles⟩
        l1Entries := modify (emplace pre.l1Entries l1Hdl { rid }) l1Hdl
          fun e => { e with l2Hdl }
        l2Entries := emplace pre.l2Entries l2Hdl { l1Hdl, portMap } } := by
  rw [mcNodeCreate] at hs
  split_ifs at hs with h1 h2
  · cases hs
    exact .inl ⟨by decide, rfl⟩
  · cases hs
    exact .inl ⟨by decide, rfl⟩
  · obtain ⟨hfree1, hget1⟩ := getHandle_of_room h.l1_handles (by decide) h1
    obtain ⟨hfree2, hget2⟩ := getHandle_of_room h.l2_handles (by decide) h2
    rw [hget1, hget2] at hs
    cases hs
    exact .inr ⟨_, _, rfl, rfl, hfree1, hfree2, rfl⟩

theorem Linked.mgrpCreate (h : Linked pre M) (mgid : ℕ) :
    Linked { pre with mgidEntries := emplace pre.mgidEntries mgid { mgid } }
      (M.record none (.mgrpCreate mgid)) := by
  have hgroup : ∀ j, group { pre with mgidEntries := emplace pre.mgidEntries mgid { mgid } } j =
      pre.group j := by
    intro j
    simp only [group, lookup_emplace]
    split_ifs with hj
    · rw [hj]
      cases pre.mgidEntries.lookup mgid <;> rfl
    · rfl
  refine { h with members := fun j => ?_, created := fun j hj => ?_ }
  · rw [hgroup]
    exact h.members j
  · rw [lookup_emplace]
    split_ifs with hjm
    · rfl
    · exact h.created j (by simpa [Multicast.record, Function.update_of_ne hjm] using hj)

theorem Linked.mgrpDestroy (h : Linked pre M) (mgid : ℕ) :
    Linked { pre with mgidEntries := pre.mgidEntries.erase mgid }
      (M.record none (.mgrpDestroy mgid)) := by
  refine { h with members := fun j => ?_, created := fun j hj => ?_ }
  · simp only [group, lookup_erase, Multicast.record, Function.update_apply]
    split_ifs with hjm
    · rfl
    · exact h.members j
  · have hjm : j ≠ mgid := by
      rintro rfl
      simp [Multicast.record] at hj
    rw [lookup_erase, if_neg hjm]
    exact h.created j (by simpa [Multicast.record, Function.update_of_ne hjm] using hj)

/-- The links of the nodes do not depend on the back-pointers to groups. -/
theorem Linked.withGroups (h : Linked pre M) {mgid : ℕ} {f : MgidEntry → MgidEntry}
    {members : ℕ → List ℕ} {l1Hdl mgrpHdl : ℕ} (hv : pre.l1Handles.validHandle l1Hdl = true)
    (hm : ∀ j, ((if j = mgid then (f ((pre.mgidEntries.lookup mgid).getD default)).l1List
      else pre.group j).map M.node) = (members j).map some) :
    Linked
      { pre with
        mgidEntries := modify pre.mgidEntries mgid f
        l1Entries := modify pre.l1Entries l1Hdl fun e => { e with mgrpHdl } }
      { M with members } := by
  have hsome : (pre.l1Entries.lookup l1Hdl).isSome :=
    (h.l1_handles l1Hdl).mp (of_decide_eq_true hv)
  obtain ⟨e, he⟩ := Option.isSome_iff_exists.mp hsome
  have hlook : ∀ j, (modify pre.l1Entries l1Hdl fun e => { e with mgrpHdl }).lookup j =
      if j = l1Hdl then some { e with mgrpHdl } else pre.l1Entries.lookup j := by
    intro j
    rw [lookup_modify, he]
    rfl
  refine { h with
    l1_handles := fun j => ?_, free := fun j hj => ?_, node := fun j e' he' => ?_,
    members := fun j => ?_, created := fun j hj => ?_ }
  · rw [hlook, h.l1_handles]
    split_ifs with hj
    · rw [hj, he]
      rfl
    · rfl
  · rw [hlook] at hj
    split_ifs at hj
    exact h.free j hj
  · rw [hlook] at he'
    split_ifs at he' with hj
    · obtain rfl : { e with mgrpHdl } = e' := by simpa using he'
      obtain ⟨n, e₂, hn⟩ := h.node l1Hdl e he
      exact ⟨n, e₂, hj ▸ hn⟩
    · exact h.node j e' he'
  · rw [group_modify rfl]
    exact hm j
  · rw [lookup_modify]
    split_ifs with hjm
    · rfl
    · exact h.created j hj

theorem Linked.associate (h : Linked pre M) (mgid : ℕ) {l1Hdl : ℕ}
    (hv : pre.l1Handles.validHandle l1Hdl = true) :
    Linked (pre.mcNodeAssociate mgid l1Hdl).2 (M.record none (.nodeAssociate mgid l1Hdl)) := by
  rw [mcNodeAssociate, if_pos hv]
  obtain ⟨e, he⟩ := Option.isSome_iff_exists.mp
    ((h.l1_handles l1Hdl).mp (of_decide_eq_true hv))
  obtain ⟨n, -, hn, -⟩ := h.node l1Hdl e he
  refine h.withGroups hv fun j => ?_
  simp only [group_default, Function.update_apply]
  split_ifs with hj
  · simp [h.members, hn]
  · exact h.members j

theorem Linked.dissociate (h : Linked pre M) (mgid : ℕ) {l1Hdl : ℕ}
    (hv : pre.l1Handles.validHandle l1Hdl = true) :
    Linked (pre.mcNodeDissociate mgid l1Hdl).2 (M.record none (.nodeDissociate mgid l1Hdl)) := by
  rw [mcNodeDissociate, if_pos hv]
  obtain ⟨e, he⟩ := Option.isSome_iff_exists.mp
    ((h.l1_handles l1Hdl).mp (of_decide_eq_true hv))
  obtain ⟨n, -, hn, -⟩ := h.node l1Hdl e he
  refine h.withGroups hv fun j => ?_
  simp only [group_default, Function.update_apply]
  split_ifs with hj
  · -- a listed node has the number of the dissociated one exactly when it has its handle
    have hfilter : (pre.group mgid).filter (· ≠ l1Hdl) =
        (pre.group mgid).filter ((fun m => m ≠ M.node l1Hdl) ∘ M.node) := by
      refine List.filter_congr fun i hi => ?_
      obtain ⟨k, hk⟩ := h.node_of_mem hi
      simp only [Function.comp_apply, decide_eq_decide]
      refine not_congr ⟨fun heq => heq ▸ rfl, fun heq => ?_⟩
      exact h.node_inj i l1Hdl n (heq.trans hn) hn
    rw [hfilter, ← List.filter_map, h.members, List.filter_map]
    rfl
  · exact h.members j

/-- The L1 nodes after a creation. -/
theorem lookup_createL1 {l1Entries : Map ℕ L1Entry} {l1Hdl : ℕ} (l2Hdl rid : ℕ)
    (h1 : l1Entries.lookup l1Hdl = none) (j : ℕ) :
    (modify (emplace l1Entries l1Hdl { rid }) l1Hdl fun e => { e with l2Hdl }).lookup j =
      if j = l1Hdl then some { rid, l2Hdl } else l1Entries.lookup j := by
  simp only [lookup_modify, lookup_emplace, if_true, h1, Option.getD_none, Option.getD_some]
  split_ifs <;> rfl

theorem lookup_createL2 {l2Entries : Map ℕ L2Entry} {l2Hdl : ℕ} (e₂ : L2Entry)
    (h2 : l2Entries.lookup l2Hdl = none) (j : ℕ) :
    (emplace l2Entries l2Hdl e₂).lookup j =
      if j = l2Hdl then some e₂ else l2Entries.lookup j := by
  rw [lookup_emplace, h2]
  rfl

theorem Linked.nodeCreate (h : Linked pre M) {l1Hdl l2Hdl rid : ℕ} {portMap : PortMap}
    {lagMap : LagMap} (h1 : pre.l1Entries.lookup l1Hdl = none)
    (h2 : pre.l2Entries.lookup l2Hdl = none) :
    Linked
      { pre with
        l1Handles := ⟨insert l1Hdl pre.l1Handles.handles⟩
        l2Handles := ⟨insert l2Hdl pre.l2Handles.handles⟩
        l1Entries := modify (emplace pre.l1Entries l1Hdl { rid }) l1Hdl
          fun e => { e with l2Hdl }
        l2Entries := emplace pre.l2Entries l2Hdl { l1Hdl, portMap, lagMap } }
      (M.record (some l1Hdl) (.nodeCreate rid portMap)) := by
  have hlook1 := lookup_createL1 l2Hdl rid h1
  have hlook2 := lookup_createL2 { l1Hdl, portMap, lagMap } h2
  have hnode : ∀ j, (M.record (some l1Hdl) (.nodeCreate rid portMap)).node j =
      if j = l1Hdl then some M.next else M.node j := by
    intro j
    simp only [Multicast.record, Option.some.injEq, eq_comm]
  refine { h with
    l1_handles := fun j => ?_, l2_handles := fun j => ?_, free := fun j hj => ?_,
    node := fun j e he => ?_, node_lt := fun j n hn => ?_, node_inj := fun j j' n hj hj' => ?_,
    members := fun mgid => ?_ }
  · rw [hlook1, Finset.mem_insert, h.l1_handles]
    split_ifs with hj <;> simp [hj]
  · rw [hlook2, Finset.mem_insert, h.l2_handles]
    split_ifs with hj <;> simp [hj]
  · rw [hlook1] at hj
    split_ifs at hj with hne
    rw [hnode, if_neg hne]
    exact h.free j hj
  · rw [hlook1] at he
    rw [hnode]
    split_ifs at he ⊢ with hne
    · obtain rfl : ({ rid, l2Hdl } : L1Entry) = e := by simpa using he
      refine ⟨M.next, { l1Hdl, portMap, lagMap }, rfl, ?_, hne.symm, ?_⟩
      · rw [hlook2, if_pos rfl]
      · simp [Multicast.record]
    · obtain ⟨n, e₂, hn, he₂, hback, hlive⟩ := h.node j e he
      have hne2 : e.l2Hdl ≠ l2Hdl := by
        intro heq
        rw [heq, h2] at he₂
        simp at he₂
      refine ⟨n, e₂, hn, ?_, hback, ?_⟩
      · rw [hlook2, if_neg hne2]
        exact he₂
      · rw [← hlive]
        exact Function.update_of_ne (h.node_lt j n hn).ne _ _
  · rw [hnode] at hn
    split_ifs at hn
    · obtain rfl : M.next = n := by simpa using hn
      exact Nat.lt_succ_self _
    · exact Nat.lt_succ_of_lt (h.node_lt j n hn)
  · rw [hnode] at hj hj'
    split_ifs at hj hj' with hne hne' hne'
    · rw [hne, hne']
    · obtain rfl : M.next = n := by simpa using hj
      exact absurd (h.node_lt j' _ hj') (lt_irrefl _)
    · obtain rfl : M.next = n := by simpa using hj'
      exact absurd (h.node_lt j _ hj) (lt_irrefl _)
    · exact h.node_inj j j' n hj hj'
  · have hold := h.members mgid
    refine Eq.trans (List.map_congr_left fun j hj => ?_) hold
    obtain ⟨n, hn⟩ := h.node_of_mem hj
    have hne : j ≠ l1Hdl := by
      rintro rfl
      rw [h.free j h1] at hn
      simp at hn
    rw [hnode, if_neg hne]

/-- Two nodes have two L2 nodes, since these point back to them. -/
theorem Linked.l2Hdl_ne (h : Linked pre M) {j j' : ℕ} {e e' : L1Entry}
    (he : pre.l1Entries.lookup j = some e) (he' : pre.l1Entries.lookup j' = some e')
    (hne : j ≠ j') : e.l2Hdl ≠ e'.l2Hdl := by
  obtain ⟨-, e₂, -, he₂, hback, -⟩ := h.node j e he
  obtain ⟨-, e₂', -, he₂', hback', -⟩ := h.node j' e' he'
  intro heq
  rw [heq, he₂'] at he₂
  obtain rfl : e₂' = e₂ := Option.some.inj he₂
  exact hne (hback.symm.trans hback')

theorem lookup_modify_id {l1Entries : Map ℕ L1Entry} {l1Hdl : ℕ} {e : L1Entry}
    (he : l1Entries.lookup l1Hdl = some e) (j : ℕ) :
    (modify l1Entries l1Hdl id).lookup j = l1Entries.lookup j := by
  rw [lookup_modify]
  split_ifs with hj
  · rw [hj, he]
    rfl
  · rfl

/-- The L2 node of a node gets other ports. -/
theorem Linked.withPorts (h : Linked pre M) {l1Hdl : ℕ} {portMap : PortMap} {e : L1Entry}
    {f : L2Entry → L2Entry} (he : pre.l1Entries.lookup l1Hdl = some e)
    (hf : ∀ e₂, (f e₂).l1Hdl = e₂.l1Hdl ∧ (f e₂).portMap = portMap) :
    Linked
      { pre with
        l1Entries := modify pre.l1Entries l1Hdl id
        l2Entries := modify pre.l2Entries e.l2Hdl f }
      (M.record none (.nodeUpdate l1Hdl portMap)) := by
  obtain ⟨n, e₂, hn, he₂, hback, hlive⟩ := h.node l1Hdl e he
  have hlook1 := lookup_modify_id he
  have hlook2 : ∀ j, (modify pre.l2Entries e.l2Hdl f).lookup j =
      if j = e.l2Hdl then some (f e₂) else pre.l2Entries.lookup j := by
    intro j
    rw [lookup_modify, he₂]
    rfl
  refine { h with
    l1_handles := fun j => ?_, l2_handles := fun j => ?_, free := fun j hj => ?_,
    node := fun j e' he' => ?_ }
  · rw [hlook1, h.l1_handles]
  · rw [hlook2, h.l2_handles]
    split_ifs with hj
    · rw [hj, he₂]
      rfl
    · rfl
  · rw [hlook1] at hj
    exact h.free j hj
  · rw [hlook1] at he'
    obtain ⟨n', e₂', hn', he₂', hback', hlive'⟩ := h.node j e' he'
    by_cases hj : j = l1Hdl
    · -- the updated node
      subst hj
      obtain rfl : e = e' := by simpa [he] using he'
      obtain rfl : n = n' := by simpa [hn] using hn'
      refine ⟨n, f e₂, hn, ?_, (hf e₂).1.trans hback, ?_⟩
      · rw [hlook2, if_pos rfl]
      · simp [Multicast.record, hn, hlive, (hf e₂).2]
    · refine ⟨n', e₂', hn', ?_, hback', ?_⟩
      · rw [hlook2, if_neg (h.l2Hdl_ne he' he hj)]
        exact he₂'
      · have hnn : ¬ M.node l1Hdl = some n' := fun heq => hj (h.node_inj j l1Hdl n' hn' heq)
        simp [Multicast.record, hnn, hlive']

theorem Linked.nodeUpdate (h : Linked pre M) {l1Hdl : ℕ} (portMap : PortMap)
    (hv : pre.l1Handles.validHandle l1Hdl = true) :
    Linked (pre.mcNodeUpdate l1Hdl portMap).2 (M.record none (.nodeUpdate l1Hdl portMap)) := by
  obtain ⟨e, he⟩ := Option.isSome_iff_exists.mp
    ((h.l1_handles l1Hdl).mp (of_decide_eq_true hv))
  rw [mcNodeUpdate, if_pos hv, he]
  exact h.withPorts he fun e₂ => ⟨rfl, rfl⟩

theorem mcNodeDestroy_eq (h : Linked pre M) {l1Hdl : ℕ} {e : L1Entry}
    (he : pre.l1Entries.lookup l1Hdl = some e) : pre.mcNodeDestroy l1Hdl = (.success,
      { pre with
        l1Entries := pre.l1Entries.erase l1Hdl
        l2Entries := pre.l2Entries.erase e.l2Hdl
        l1Handles := ⟨pre.l1Handles.handles.erase l1Hdl⟩
        l2Handles := ⟨pre.l2Handles.handles.erase e.l2Hdl⟩ }) := by
  have hmem1 : l1Hdl ∈ pre.l1Handles.handles := by simp [h.l1_handles, he]
  have hmem2 : e.l2Hdl ∈ pre.l2Handles.handles := by
    obtain ⟨-, e₂, -, he₂, -⟩ := h.node l1Hdl e he
    simp [h.l2_handles, he₂]
  simp [mcNodeDestroy, HandleMgr.validHandle, HandleMgr.releaseHandle, he, hmem1, hmem2]

theorem notMem_group {l1Hdl : ℕ} (h : pre.Dissociated (.nodeDestroy l1Hdl)) (mgid : ℕ) :
    l1Hdl ∉ pre.group mgid := by
  rw [group]
  cases he : pre.mgidEntries.lookup mgid with
  | none => simp
  | some e => exact h ⟨mgid, e⟩ (AList.mem_lookup_iff.mp he)

theorem Linked.nodeDestroy (h : Linked pre M) {l1Hdl : ℕ} {e : L1Entry}
    (he : pre.l1Entries.lookup l1Hdl = some e) (hd : pre.Dissociated (.nodeDestroy l1Hdl)) :
    Linked (pre.mcNodeDestroy l1Hdl).2 (M.record none (.nodeDestroy l1Hdl)) := by
  obtain ⟨n, e₂, hn, he₂, hback, -⟩ := h.node l1Hdl e he
  rw [mcNodeDestroy_eq h he]
  have hnode : ∀ j, (M.record none (.nodeDestroy l1Hdl)).node j =
      if j = l1Hdl then none else M.node j := fun j => Function.update_apply ..
  refine { h with
    l1_handles := fun j => ?_, l2_handles := fun j => ?_, free := fun j hj => ?_,
    node := fun j e' he' => ?_, node_lt := fun j k hk => ?_, node_inj := fun j j' k hj hj' => ?_,
    members := fun mgid => ?_ }
  · rw [lookup_erase, Finset.mem_erase, h.l1_handles]
    split_ifs with hj <;> simp [hj]
  · rw [lookup_erase, Finset.mem_erase, h.l2_handles]
    split_ifs with hj <;> simp [hj]
  · rw [hnode]
    split_ifs with hne
    · rfl
    · rw [lookup_erase, if_neg hne] at hj
      exact h.free j hj
  · rw [lookup_erase] at he'
    split_ifs at he' with hne
    obtain ⟨n', e₂', hn', he₂', hback', hlive'⟩ := h.node j e' he'
    refine ⟨n', e₂', ?_, ?_, hback', ?_⟩
    · rw [hnode, if_neg hne]
      exact hn'
    · rw [lookup_erase, if_neg (h.l2Hdl_ne he' he hne)]
      exact he₂'
    · have hnn : ¬ M.node l1Hdl = some n' := fun heq => hne (h.node_inj j l1Hdl n' hn' heq)
      simp [Multicast.record, hnn, hlive']
  · rw [hnode] at hk
    split_ifs at hk
    exact h.node_lt j k hk
  · rw [hnode] at hj hj'
    split_ifs at hj hj'
    exact h.node_inj j j' k hj hj'
  · refine Eq.trans (List.map_congr_left fun j hj => ?_) (h.members mgid)
    have hne : j ≠ l1Hdl := by
      rintro rfl
      exact notMem_group hd mgid hj
    rw [hnode, if_neg hne]

/-- One call keeps the links, if a node that it destroys is in no group. -/
theorem Linked.step {s s' : McSimplePre × Multicast} {op : PreOp} {r : McReturnCode × Option ℕ}
    (h : Linked s.1 s.2) (hd : s.1.Dissociated op) (hs : preStep s op = some (r, s')) :
    Linked s'.1 s'.2 := by
  obtain ⟨pre, M⟩ := s
  cases op with
  | mgrpCreate mgid =>
    simp only [preStep, McSimplePre.step, mcMgrpCreate] at hs
    split_ifs at hs <;> cases hs
    · exact h
    · exact h.mgrpCreate mgid
  | mgrpDestroy mgid =>
    cases hs
    exact h.mgrpDestroy mgid
  | nodeCreate rid portMap =>
    rcases hc : pre.mcNodeCreate rid portMap with ⟨⟨rc, hdl⟩, pre'⟩
    simp only [preStep, McSimplePre.step, hc] at hs
    obtain ⟨hne, rfl⟩ | ⟨l1Hdl, l2Hdl, rfl, rfl, h1, h2, rfl⟩ := mcNodeCreate_cases h hc
    · cases rc <;> cases hs
      · exact absurd rfl hne
      all_goals exact h
    · cases hs
      exact h.nodeCreate h1 h2
  | nodeAssociate mgid l1Hdl =>
    by_cases hv : pre.l1Handles.validHandle l1Hdl = true
    · have hl := h.associate mgid hv
      simp only [preStep, McSimplePre.step, mcNodeAssociate, if_pos hv] at hs hl
      cases hs
      exact hl
    · simp only [preStep, McSimplePre.step, mcNodeAssociate, if_neg hv] at hs
      cases hs
      exact h
  | nodeDissociate mgid l1Hdl =>
    by_cases hv : pre.l1Handles.validHandle l1Hdl = true
    · have hl := h.dissociate mgid hv
      simp only [preStep, McSimplePre.step, mcNodeDissociate, if_pos hv] at hs hl
      cases hs
      exact hl
    · simp only [preStep, McSimplePre.step, mcNodeDissociate, if_neg hv] at hs
      cases hs
      exact h
  | nodeDestroy l1Hdl =>
    cases he : pre.l1Entries.lookup l1Hdl with
    | some e =>
      have hl := h.nodeDestroy he hd
      simp only [preStep, McSimplePre.step, mcNodeDestroy_eq h he] at hs hl
      cases hs
      exact hl
    | none =>
      have hv : ¬ pre.l1Handles.validHandle l1Hdl = true := by
        simp [HandleMgr.validHandle, h.l1_handles, he]
      simp only [preStep, McSimplePre.step, mcNodeDestroy, if_neg hv] at hs
      cases hs
      exact h
  | nodeUpdate l1Hdl portMap =>
    by_cases hv : pre.l1Handles.validHandle l1Hdl = true
    · have hl := h.nodeUpdate portMap hv
      simp only [preStep, McSimplePre.step, mcNodeUpdate, if_pos hv] at hs hl
      cases hs
      exact hl
    · simp only [preStep, McSimplePre.step, mcNodeUpdate, if_neg hv] at hs
      cases hs
      exact h

end McSimplePre

/-- The runs in which every call of `mc_node_destroy` is for a node that no group lists. -/
def PreReach : McSimplePre × Multicast → Prop :=
  Transition.Reach preStep (fun s : McSimplePre × Multicast => s.1.Dissociated) ({}, {})

/-- Along every run that destroys only nodes that are in no group, every group that was created
and not destroyed replicates to exactly the copies of its live nodes. -/
theorem multicast_replication {s : McSimplePre × Multicast} (h : PreReach s) : Replicates s := by
  have hlinked : s.1.Linked s.2 :=
    h.invariant (fun s => s.1.Linked s.2) McSimplePre.linked_empty
      fun _ _ _ _ hinv hd hs => hinv.step hd hs
  exact hlinked.replicates

/-- A handle that is used again after its node left the group stands for the new node only. -/
theorem multicast_replication_recycled : ∃ s, PreReach s ∧
    s.1.replicate 7 = some [⟨6, 2⟩] := by
  have heval : ((Transition.runAll preStep (fun s : McSimplePre × Multicast => s.1.Dissociated)
      ({}, {}) [.mgrpCreate 7, .nodeCreate 5 0x18, .nodeAssociate 7 0, .nodeDissociate 7 0,
        .nodeDestroy 0, .nodeCreate 6 0x4, .nodeAssociate 7 0]).map
      fun s => (s.2.created 7, s.2.replicate 7)) = some (true, [⟨6, 2⟩]) := by
    decide +kernel
  obtain ⟨s, hrun, hs⟩ := Option.map_eq_some_iff.mp heval
  have hreach : PreReach s := Transition.Reach.of_runAll hrun
  obtain ⟨hc, hr⟩ := Prod.mk.inj hs
  exact ⟨s, hreach, hr ▸ multicast_replication hreach 7 hc⟩

/-- A node destroyed while a group lists it makes `replicate` throw for that group. -/
theorem destroyed_node_breaks_group :
    ∃ s, Transition.Reach preStep (fun _ _ => True) ({}, {}) s ∧ ¬ Replicates s := by
  have heval : ((Transition.runAll preStep (fun _ _ => True) ({}, {})
      [.mgrpCreate 7, .nodeCreate 5 0x18, .nodeAssociate 7 0, .nodeDestroy 0]).map
      fun s => (s.2.created 7, s.1.replicate 7)) = some (true, none) := by
    decide +kernel
  obtain ⟨s, hrun, hs⟩ := Option.map_eq_some_iff.mp heval
  obtain ⟨hc, hr⟩ := Prod.mk.inj hs
  refine ⟨s, .of_runAll hrun, fun hall => ?_⟩
  have := hall 7 hc
  rw [hr] at this
  cases this

end Bmv2
