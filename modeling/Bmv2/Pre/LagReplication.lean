import Bmv2.Pre.Replication
import Bmv2.Pre.SimplePreLag

/-! What LAGs are for: a node sends one copy to some member of each of its LAGs. The engine with
LAGs is compared with the nodes and the memberships that were asked for. -/
namespace Bmv2
open UnorderedMap

/-- The calls that the engine with LAGs has for itself, and those of the engine it extends. -/
inductive LagOp where
  | base (op : PreOp)
  | nodeCreate (rid : ℕ) (portMap : PortMap) (lagMap : LagMap)
  | nodeUpdate (l1Hdl : ℕ) (portMap : PortMap) (lagMap : LagMap)
  | setLagMembership (lagIndex : ℕ) (portMap : PortMap)

def McSimplePreLag.step (pre : McSimplePreLag) :
    LagOp → (McReturnCode × Option ℕ) × McSimplePreLag
  | .base op =>
    let (r, base) := pre.toMcSimplePre.step op
    (r, { pre with toMcSimplePre := base })
  | .nodeCreate rid portMap lagMap => pre.mcNodeCreate rid portMap lagMap
  | .nodeUpdate l1Hdl portMap lagMap => (pre.mcNodeUpdate l1Hdl portMap lagMap).map (·, none) id
  | .setLagMembership lagIndex portMap => (pre.mcSetLagMembership lagIndex portMap).map (·, none) id

/-- The groups and nodes, with the LAGs of each node, and the members of each LAG. -/
structure LagMulticast extends Multicast where
  lagMap : ℕ → LagMap := fun _ => 0
  lagMembers : ℕ → PortMap := fun _ => 0

namespace LagMulticast

/-- A node that is made without LAGs has none. -/
def record (L : LagMulticast) (l1Hdl : Option ℕ) : LagOp → LagMulticast
  | .base (.nodeCreate rid portMap) =>
    { L with
      toMulticast := L.toMulticast.record l1Hdl (.nodeCreate rid portMap)
      lagMap := Function.update L.lagMap L.next 0 }
  | .base op => { L with toMulticast := L.toMulticast.record l1Hdl op }
  | .nodeCreate rid portMap lagMap =>
    { L with
      toMulticast := L.toMulticast.record l1Hdl (.nodeCreate rid portMap)
      lagMap := Function.update L.lagMap L.next lagMap }
  | .nodeUpdate h portMap lagMap =>
    { L with
      toMulticast := L.toMulticast.record l1Hdl (.nodeUpdate h portMap)
      lagMap := fun n => if L.node h = some n then lagMap else L.lagMap n }
  | .setLagMembership lagIndex portMap =>
    { L with lagMembers := Function.update L.lagMembers lagIndex portMap }

/-- The copies for a node, if `pick` chooses the member of each LAG. -/
def copies (L : LagMulticast) (pick : ℕ → Option ℕ) (n : ℕ) : List McOut :=
  match L.live n with
  | some (rid, portMap) =>
    portMap.ports.map (fun port => ⟨rid, port⟩) ++
      (PortMap.ports (L.lagMap n)).flatMap fun lagIndex =>
        (pick lagIndex).toList.map fun port => ⟨rid, port⟩
  | none => []

end LagMulticast

def lagStep (s : McSimplePreLag × LagMulticast) (op : LagOp) :
    Option ((McReturnCode × Option ℕ) × (McSimplePreLag × LagMulticast)) :=
  match s.1.step op with
  | ((.success, l1Hdl), pre) => some ((.success, l1Hdl), (pre, s.2.record l1Hdl op))
  | (r, pre) => some (r, (pre, s.2))

theorem preStep_eq {s : McSimplePre × Multicast} {op : PreOp} {rc : McReturnCode}
    {hdl : Option ℕ} {pre : McSimplePre} (h : s.1.step op = ((rc, hdl), pre)) :
    preStep s op = some ((rc, hdl), (pre, if rc = .success then s.2.record hdl op else s.2)) := by
  unfold preStep
  rw [h]
  cases rc <;> rfl

theorem lagStep_eq {s : McSimplePreLag × LagMulticast} {op : LagOp} {rc : McReturnCode}
    {hdl : Option ℕ} {pre : McSimplePreLag} (h : s.1.step op = ((rc, hdl), pre)) :
    lagStep s op = some ((rc, hdl), (pre, if rc = .success then s.2.record hdl op else s.2)) := by
  unfold lagStep
  rw [h]
  cases rc <;> rfl

/-- A member is chosen exactly when there is one. -/
def Picks (portMap : PortMap) : Option ℕ → Prop
  | some port => port ∈ portMap.ports
  | none => portMap.ports = []

/-- The group replicates to the copies of its nodes, with one member of each of their LAGs that
has members. -/
def ReplicatesLags (s : McSimplePreLag × LagMulticast) (mgid : ℕ) : Prop :=
  ∃ pick : ℕ → Option ℕ, (∀ lagIndex, Picks (s.2.lagMembers lagIndex) (pick lagIndex)) ∧
    s.1.replicate mgid = some ((s.2.members mgid).flatMap (s.2.copies pick))

/-- No node that a group lists is destroyed. -/
def NotInUse (s : McSimplePreLag × LagMulticast) : LagOp → Prop
  | .base op => s.1.Dissociated op
  | _ => True

instance (s : McSimplePreLag × LagMulticast) (op : LagOp) : Decidable (NotInUse s op) := by
  cases op <;> unfold NotInUse <;> infer_instance

namespace McSimplePreLag

/-- With fewer counted so far than wanted, the scan finds the member with that number. -/
theorem scanPorts_eq (portMap : PortMap) {portCount1 portCount2 : ℕ} {ports : List ℕ}
    (h : portCount2 < portCount1) : scanPorts portMap portCount1 portCount2 ports =
      (ports.filter portMap.getLsbD)[portCount1 - portCount2 - 1]? := by
  induction ports generalizing portCount2 with
  | nil => rfl
  | cons port ports ih =>
    unfold scanPorts
    by_cases hset : portMap.getLsbD port = true
    · rw [List.filter_cons_of_pos hset]
      simp only [hset, if_true]
      split_ifs with hfound
      · rw [hfound, Nat.add_sub_cancel_left]
        rfl
      · rw [ih (by omega)]
        obtain ⟨k, hk⟩ : ∃ k, portCount1 - portCount2 - 1 = k + 1 :=
          ⟨portCount1 - portCount2 - 2, by omega⟩
        rw [hk, List.getElem?_cons_succ]
        congr 1
        omega
    · rw [List.filter_cons_of_neg hset]
      simp only [hset, Bool.false_eq_true, if_false]
      rw [if_neg (by omega)]
      exact ih h

/-- The member that the hash selects. -/
def pickMember (portMap : PortMap) : Option ℕ :=
  portMap.ports[lagHash % portMap.ports.length]?

theorem picks_pickMember (portMap : PortMap) : Picks portMap (pickMember portMap) := by
  unfold pickMember
  cases hget : portMap.ports[lagHash % portMap.ports.length]? with
  | some port => exact List.mem_of_getElem? hget
  | none =>
    have hle := List.getElem?_eq_none_iff.mp hget
    by_contra hne
    have hlt := Nat.mod_lt lagHash (List.length_pos_iff.mpr hne)
    omega

end McSimplePreLag

namespace McSimplePre

/-- The LAGs of the L2 node of a node. -/
def lagMapOf (pre : McSimplePre) (l1Hdl : ℕ) : Option LagMap := do
  let e ← pre.l1Entries.lookup l1Hdl
  let e₂ ← pre.l2Entries.lookup e.l2Hdl
  return e₂.lagMap

variable {pre pre' : McSimplePre} {M : Multicast}

theorem Linked.lagMapOf_eq (h : Linked pre M) {l1Hdl n : ℕ} (hn : M.node l1Hdl = some n) :
    ∃ e e₂, pre.l1Entries.lookup l1Hdl = some e ∧ pre.l2Entries.lookup e.l2Hdl = some e₂ ∧
      pre.lagMapOf l1Hdl = some e₂.lagMap := by
  obtain ⟨e, he⟩ := h.entry_of_node hn
  obtain ⟨-, e₂, -, he₂, -⟩ := h.node l1Hdl e he
  exact ⟨e, e₂, he, he₂, by simp [lagMapOf, he, he₂]⟩

/-- The LAGs of a node depend on its two entries only. -/
theorem lagMapOf_congr {l1Hdl : ℕ} {e e' : L1Entry} {e₂ e₂' : L2Entry}
    (he : pre.l1Entries.lookup l1Hdl = some e) (he₂ : pre.l2Entries.lookup e.l2Hdl = some e₂)
    (he' : pre'.l1Entries.lookup l1Hdl = some e') (he₂' : pre'.l2Entries.lookup e'.l2Hdl = some e₂')
    (hmap : e₂'.lagMap = e₂.lagMap) : pre'.lagMapOf l1Hdl = pre.lagMapOf l1Hdl := by
  simp [lagMapOf, he, he₂, he', he₂', hmap]

/-- A new node has its LAGs, and the others keep theirs. -/
theorem Linked.lagMapOf_create (h : Linked pre M) {l1Hdl l2Hdl : ℕ} (rid : ℕ) (portMap : PortMap)
    (lagMap : LagMap) (h1 : pre.l1Entries.lookup l1Hdl = none)
    (h2 : pre.l2Entries.lookup l2Hdl = none)
    (hl1 : pre'.l1Entries = modify (emplace pre.l1Entries l1Hdl { rid }) l1Hdl
      fun e => { e with l2Hdl })
    (hl2 : pre'.l2Entries = emplace pre.l2Entries l2Hdl { l1Hdl, portMap, lagMap }) :
    pre'.lagMapOf l1Hdl = some lagMap ∧
      ∀ j n, M.node j = some n → pre'.lagMapOf j = pre.lagMapOf j := by
  have hlook1 := lookup_createL1 l2Hdl rid h1
  have hlook2 := lookup_createL2 { l1Hdl, portMap, lagMap } h2
  constructor
  · simp [lagMapOf, hl1, hl2, hlook1, hlook2]
  · intro j n hn
    obtain ⟨e, e₂, he, he₂, -⟩ := h.lagMapOf_eq hn
    have hne : j ≠ l1Hdl := by
      rintro rfl
      rw [h1] at he
      cases he
    have hne2 : e.l2Hdl ≠ l2Hdl := by
      intro heq
      rw [heq, h2] at he₂
      cases he₂
    have he' : pre'.l1Entries.lookup j = some e := by
      rw [hl1, hlook1, if_neg hne]
      exact he
    have he₂' : pre'.l2Entries.lookup e.l2Hdl = some e₂ := by
      rw [hl2, hlook2, if_neg hne2]
      exact he₂
    exact lagMapOf_congr he he₂ he' he₂' rfl

/-- An update of one L2 node leaves the LAGs of the other nodes. -/
theorem Linked.lagMapOf_update (h : Linked pre M) {l1Hdl : ℕ} {e : L1Entry}
    (f : L2Entry → L2Entry) (he : pre.l1Entries.lookup l1Hdl = some e)
    (hl1 : pre'.l1Entries = modify pre.l1Entries l1Hdl id)
    (hl2 : pre'.l2Entries = modify pre.l2Entries e.l2Hdl f) :
    (∀ e₂, pre.l2Entries.lookup e.l2Hdl = some e₂ → pre'.lagMapOf l1Hdl = some (f e₂).lagMap) ∧
      ∀ j n, j ≠ l1Hdl → M.node j = some n → pre'.lagMapOf j = pre.lagMapOf j := by
  have hlook1 := lookup_modify_id he
  constructor
  · intro e₂ he₂
    simp [lagMapOf, hl1, hl2, hlook1, he, lookup_modify, he₂]
  · intro j n hne hn
    obtain ⟨e', e₂, he', he₂, -⟩ := h.lagMapOf_eq hn
    have hkept : pre'.l1Entries.lookup j = some e' := by
      rw [hl1, hlook1]
      exact he'
    have hkept₂ : pre'.l2Entries.lookup e'.l2Hdl = some e₂ := by
      rw [hl2, lookup_modify, if_neg (h.l2Hdl_ne he' he hne)]
      exact he₂
    exact lagMapOf_congr he' he₂ hkept hkept₂ rfl

/-- The LAGs of a node do not depend on its back-pointer to a group. -/
theorem Linked.lagMapOf_withGroups (h : Linked pre M) (l1Hdl mgrpHdl : ℕ)
    (hl1 : pre'.l1Entries = modify pre.l1Entries l1Hdl fun e => { e with mgrpHdl })
    (hl2 : pre'.l2Entries = pre.l2Entries) {j n : ℕ} (hn : M.node j = some n) :
    pre'.lagMapOf j = pre.lagMapOf j := by
  obtain ⟨e, e₂, he, he₂, -⟩ := h.lagMapOf_eq hn
  have he' : ∃ e', pre'.l1Entries.lookup j = some e' ∧ e'.l2Hdl = e.l2Hdl := by
    rw [hl1, lookup_modify]
    split_ifs with hj
    · exact ⟨_, rfl, by rw [← hj, he]; rfl⟩
    · exact ⟨e, he, rfl⟩
  obtain ⟨e', he', hsame⟩ := he'
  have he₂' : pre'.l2Entries.lookup e'.l2Hdl = some e₂ := by
    rw [hl2, hsame]
    exact he₂
  exact lagMapOf_congr he he₂ he' he₂' rfl

/-- What a call does to the LAGs of the nodes: a new node has none, the others keep theirs. -/
theorem Linked.lagMapOf_step (h : Linked pre M) {op : PreOp} {rc : McReturnCode} {hdl : Option ℕ}
    (hs : pre.step op = ((rc, hdl), pre')) :
    (rc ≠ .success → pre'.lagMapOf = pre.lagMapOf) ∧
      (rc = .success → ∀ j n, (M.record hdl op).node j = some n →
        (M.node j = some n ∧ pre'.lagMapOf j = pre.lagMapOf j) ∨
          (n = M.next ∧ (∃ rid portMap, op = .nodeCreate rid portMap) ∧
            pre'.lagMapOf j = some 0)) := by
  cases op with
  | mgrpCreate mgid =>
    simp only [McSimplePre.step, mcMgrpCreate] at hs
    split_ifs at hs <;> cases hs
    · exact ⟨fun _ => rfl, fun _ j n hn => .inl ⟨hn, rfl⟩⟩
    · exact ⟨fun _ => rfl, fun _ j n hn => .inl ⟨hn, rfl⟩⟩
  | mgrpDestroy mgid =>
    cases hs
    exact ⟨fun _ => rfl, fun _ j n hn => .inl ⟨hn, rfl⟩⟩
  | nodeCreate rid portMap =>
    obtain ⟨hne, rfl⟩ | ⟨l1Hdl, l2Hdl, rfl, rfl, h1, h2, rfl⟩ := mcNodeCreate_cases h hs
    · exact ⟨fun _ => rfl, fun hsuccess => absurd hsuccess hne⟩
    · refine ⟨fun hne => absurd rfl hne, fun _ j n hn => ?_⟩
      by_cases hj : j = l1Hdl
      · subst hj
        simp only [Multicast.record, if_true, Option.some.injEq] at hn
        refine .inr ⟨hn.symm, ⟨rid, portMap, rfl⟩, ?_⟩
        refine (h.lagMapOf_create rid portMap 0 h1 h2 ?_ ?_).1
        · rfl
        · rfl
      · have hnode : M.node j = some n := by
          simpa [Multicast.record, Ne.symm hj] using hn
        refine .inl ⟨hnode, ?_⟩
        refine (h.lagMapOf_create rid portMap 0 h1 h2 ?_ ?_).2 j n hnode
        · rfl
        · rfl
  | nodeAssociate mgid l1Hdl =>
    simp only [McSimplePre.step, mcNodeAssociate] at hs
    split_ifs at hs <;> cases hs
    · refine ⟨fun hne => absurd rfl hne, fun _ j n hn => .inl ⟨hn, ?_⟩⟩
      refine h.lagMapOf_withGroups l1Hdl mgid ?_ ?_ hn
      · rfl
      · rfl
    · exact ⟨fun _ => rfl, fun hsuccess => absurd hsuccess (by decide)⟩
  | nodeDissociate mgid l1Hdl =>
    simp only [McSimplePre.step, mcNodeDissociate] at hs
    split_ifs at hs <;> cases hs
    · refine ⟨fun hne => absurd rfl hne, fun _ j n hn => .inl ⟨hn, ?_⟩⟩
      refine h.lagMapOf_withGroups l1Hdl 0 ?_ ?_ hn
      · rfl
      · rfl
    · exact ⟨fun _ => rfl, fun hsuccess => absurd hsuccess (by decide)⟩
  | nodeDestroy l1Hdl =>
    cases he : pre.l1Entries.lookup l1Hdl with
    | some e =>
      simp only [McSimplePre.step, mcNodeDestroy_eq h he] at hs
      cases hs
      refine ⟨fun hne => absurd rfl hne, fun _ j n hn => ?_⟩
      have hne : j ≠ l1Hdl := by
        rintro rfl
        simp [Multicast.record] at hn
      have hnode : M.node j = some n := by
        simpa [Multicast.record, Function.update_of_ne hne] using hn
      obtain ⟨e', e₂, he', he₂, -⟩ := h.lagMapOf_eq hnode
      refine .inl ⟨hnode, ?_⟩
      simp [lagMapOf, lookup_erase, hne, he', h.l2Hdl_ne he' he hne]
    | none =>
      have hv : ¬ pre.l1Handles.validHandle l1Hdl = true := by
        simp [HandleMgr.validHandle, h.l1_handles, he]
      simp only [McSimplePre.step, mcNodeDestroy, if_neg hv] at hs
      cases hs
      exact ⟨fun _ => rfl, fun hsuccess => absurd hsuccess (by decide)⟩
  | nodeUpdate l1Hdl portMap =>
    by_cases hv : pre.l1Handles.validHandle l1Hdl = true
    · obtain ⟨e, he⟩ := Option.isSome_iff_exists.mp
        ((h.l1_handles l1Hdl).mp (of_decide_eq_true hv))
      simp only [McSimplePre.step, mcNodeUpdate, if_pos hv, he, Option.getD_some] at hs
      cases hs
      refine ⟨fun hne => absurd rfl hne, fun _ j n hn => .inl ⟨hn, ?_⟩⟩
      by_cases hj : j = l1Hdl
      · subst hj
        obtain ⟨-, e₂, -, he₂, -⟩ := h.node j e he
        refine ((h.lagMapOf_update (fun e₂ => { e₂ with portMap }) he ?_ ?_).1 e₂ he₂).trans ?_
        · rfl
        · rfl
        · simp [lagMapOf, he, he₂]
      · refine (h.lagMapOf_update (fun e₂ => { e₂ with portMap }) he ?_ ?_).2 j n hj hn
        · rfl
        · rfl
    · simp only [McSimplePre.step, mcNodeUpdate, if_neg hv] at hs
      cases hs
      exact ⟨fun _ => rfl, fun hsuccess => absurd hsuccess (by decide)⟩

end McSimplePre

namespace McSimplePreLag

/-- The links of the engine, and the LAGs of its nodes and members of its LAGs. -/
structure LagLinked (pre : McSimplePreLag) (L : LagMulticast) : Prop where
  base : pre.toMcSimplePre.Linked L.toMulticast
  maps : ∀ h n, L.node h = some n → pre.lagMapOf h = some (L.lagMap n)
  lags : ∀ i, (pre.lagEntries.lookup i).getD {} = ⟨(L.lagMembers i).ports.length, L.lagMembers i⟩

variable {pre pre' : McSimplePreLag} {L : LagMulticast}

theorem ports_zero : PortMap.ports 0#256 = [] :=
  List.filter_eq_nil_iff.mpr fun i _ => by simp

theorem lagLinked_empty : LagLinked {} {} where
  base := McSimplePre.linked_empty
  maps h n hn := by cases hn
  lags i := by simp [ports_zero]

theorem record_base (op : PreOp) (hdl : Option ℕ) :
    (L.record hdl (.base op)).toMulticast = L.toMulticast.record hdl op := by
  cases op <;> rfl

/-- A call of the engine that is extended. -/
theorem LagLinked.baseStep (h : LagLinked pre L) {op : PreOp} {r : McReturnCode × Option ℕ}
    {s' : McSimplePreLag × LagMulticast} (hd : pre.Dissociated op)
    (hs : lagStep (pre, L) (.base op) = some (r, s')) : LagLinked s'.1 s'.2 := by
  rcases hstep : pre.toMcSimplePre.step op with ⟨⟨rc, hdl⟩, base⟩
  have hlagStep : pre.step (.base op) = ((rc, hdl), { pre with toMcSimplePre := base }) := by
    simp only [McSimplePreLag.step, hstep]
  have hbase := h.base.step hd (preStep_eq (s := (pre.toMcSimplePre, L.toMulticast)) hstep)
  obtain ⟨hkept, hmaps⟩ := h.base.lagMapOf_step hstep
  rw [lagStep_eq (s := (pre, L)) hlagStep] at hs
  cases hs
  by_cases hrc : rc = .success
  · simp only [hrc, if_true] at hbase ⊢
    refine ⟨by rwa [record_base], fun j n hn => ?_, ?_⟩
    · rw [record_base] at hn
      rcases hmaps hrc j n hn with ⟨hold, hsame⟩ | ⟨rfl, ⟨rid, portMap, rfl⟩, hnew⟩
      · have hmap : (L.record hdl (.base op)).lagMap n = L.lagMap n := by
          cases op with
          | nodeCreate rid portMap =>
            exact Function.update_of_ne (h.base.node_lt j n hold).ne _ _
          | _ => rfl
        rw [hmap]
        exact hsame.trans (h.maps j n hold)
      · refine hnew.trans ?_
        simp [LagMulticast.record]
    · have hlag : (L.record hdl (.base op)).lagMembers = L.lagMembers := by
        cases op <;> rfl
      rw [hlag]
      exact h.lags
  · simp only [hrc, if_false] at hbase ⊢
    exact ⟨hbase, fun j n hn => (congrFun (hkept hrc) j).trans (h.maps j n hn), h.lags⟩

/-- A node with LAGs is made where one without them is. -/
theorem mcNodeCreate_cases (h : LagLinked pre L) {rid : ℕ} {portMap : PortMap} {lagMap : LagMap}
    {rc : McReturnCode} {hdl : Option ℕ}
    (hs : pre.mcNodeCreate rid portMap lagMap = ((rc, hdl), pre')) :
    (rc ≠ .success ∧ pre' = pre) ∨ ∃ l1Hdl l2Hdl, rc = .success ∧ hdl = some l1Hdl ∧
      pre.l1Entries.lookup l1Hdl = none ∧ pre.l2Entries.lookup l2Hdl = none ∧
      pre' = { pre with
        l1Handles := ⟨insert l1Hdl pre.l1Handles.handles⟩
        l2Handles := ⟨insert l2Hdl pre.l2Handles.handles⟩
        l1Entries := modify (emplace pre.l1Entries l1Hdl { rid }) l1Hdl
          fun e => { e with l2Hdl }
        l2Entries := emplace pre.l2Entries l2Hdl { l1Hdl, portMap, lagMap } } := by
  rw [mcNodeCreate] at hs
  split_ifs at hs with h1 h2
  · cases hs
    exact .inl ⟨by decide, rfl⟩
  · cases hs
    exact .inl ⟨by decide, rfl⟩
  · obtain ⟨hfree1, hget1⟩ := McSimplePre.getHandle_of_room h.base.l1_handles (by decide) h1
    obtain ⟨hfree2, hget2⟩ := McSimplePre.getHandle_of_room h.base.l2_handles (by decide) h2
    rw [hget1, hget2] at hs
    cases hs
    exact .inr ⟨_, _, rfl, rfl, hfree1, hfree2, rfl⟩

theorem LagLinked.nodeCreate (h : LagLinked pre L) {l1Hdl l2Hdl rid : ℕ} {portMap : PortMap}
    {lagMap : LagMap} (h1 : pre.l1Entries.lookup l1Hdl = none)
    (h2 : pre.l2Entries.lookup l2Hdl = none) :
    LagLinked
      { pre with
        l1Handles := ⟨insert l1Hdl pre.l1Handles.handles⟩
        l2Handles := ⟨insert l2Hdl pre.l2Handles.handles⟩
        l1Entries := modify (emplace pre.l1Entries l1Hdl { rid }) l1Hdl
          fun e => { e with l2Hdl }
        l2Entries := emplace pre.l2Entries l2Hdl { l1Hdl, portMap, lagMap } }
      (L.record (some l1Hdl) (.nodeCreate rid portMap lagMap)) := by
  refine ⟨h.base.nodeCreate h1 h2, fun j n hn => ?_, h.lags⟩
  by_cases hj : j = l1Hdl
  · subst hj
    simp only [LagMulticast.record, Multicast.record, if_true, Option.some.injEq] at hn
    subst hn
    refine (h.base.lagMapOf_create rid portMap lagMap h1 h2 ?_ ?_).1.trans ?_
    · rfl
    · rfl
    · simp [LagMulticast.record]
  · have hnode : L.node j = some n := by
      simpa [LagMulticast.record, Multicast.record, Ne.symm hj] using hn
    have hmap : (L.record (some l1Hdl) (.nodeCreate rid portMap lagMap)).lagMap n = L.lagMap n :=
      Function.update_of_ne (h.base.node_lt j n hnode).ne _ _
    rw [hmap]
    refine ((h.base.lagMapOf_create rid portMap lagMap h1 h2 ?_ ?_).2 j n hnode).trans
      (h.maps j n hnode)
    · rfl
    · rfl

theorem LagLinked.nodeUpdate (h : LagLinked pre L) {l1Hdl : ℕ} (portMap : PortMap)
    (lagMap : LagMap) (hv : pre.l1Handles.validHandle l1Hdl = true) :
    LagLinked (pre.mcNodeUpdate l1Hdl portMap lagMap).2
      (L.record none (.nodeUpdate l1Hdl portMap lagMap)) := by
  obtain ⟨e, he⟩ := Option.isSome_iff_exists.mp
    ((h.base.l1_handles l1Hdl).mp (of_decide_eq_true hv))
  obtain ⟨n₀, e₂, hn₀, he₂, -⟩ := h.base.node l1Hdl e he
  rw [mcNodeUpdate, if_pos hv, he]
  refine ⟨h.base.withPorts he fun e₂ => ⟨rfl, rfl⟩, fun j n hn => ?_, h.lags⟩
  by_cases hj : j = l1Hdl
  · subst hj
    obtain rfl : n₀ = n := Option.some.inj (hn₀.symm.trans hn)
    refine ((h.base.lagMapOf_update (fun e₂ => { e₂ with portMap, lagMap }) he ?_ ?_).1 e₂
      he₂).trans ?_
    · rfl
    · rfl
    · simp [LagMulticast.record, hn₀]
  · have hother : ¬ L.node l1Hdl = some n := fun heq => hj (h.base.node_inj j l1Hdl n hn heq)
    refine ((h.base.lagMapOf_update (fun e₂ => { e₂ with portMap, lagMap }) he ?_ ?_).2 j n hj
      hn).trans ?_
    · rfl
    · rfl
    · simp [LagMulticast.record, hother, h.maps j n hn]

theorem LagLinked.setLagMembership (h : LagLinked pre L) (lagIndex : ℕ) (portMap : PortMap) :
    LagLinked
      { pre with
        lagEntries := pre.lagEntries.insert lagIndex
          ⟨(List.range 256).countP fun j => portMap.getLsbD j, portMap⟩ }
      (L.record none (.setLagMembership lagIndex portMap)) := by
  refine ⟨h.base, h.maps, fun i => ?_⟩
  dsimp only
  rw [lookup_insert]
  by_cases hi : i = lagIndex
  · subst hi
    simp [LagMulticast.record, PortMap.ports, List.countP_eq_length_filter]
  · rw [if_neg hi]
    simpa [LagMulticast.record, Function.update_of_ne hi] using h.lags i

/-- What one call keeps, if it destroys no node that a group lists. -/
theorem LagLinked.step {s s' : McSimplePreLag × LagMulticast} {op : LagOp}
    {r : McReturnCode × Option ℕ} (h : LagLinked s.1 s.2) (hd : NotInUse s op)
    (hs : lagStep s op = some (r, s')) : LagLinked s'.1 s'.2 := by
  obtain ⟨pre, L⟩ := s
  cases op with
  | base op => exact h.baseStep hd hs
  | nodeCreate rid portMap lagMap =>
    rcases hc : pre.mcNodeCreate rid portMap lagMap with ⟨⟨rc, hdl⟩, pre'⟩
    have hstep : pre.step (.nodeCreate rid portMap lagMap) = ((rc, hdl), pre') := hc
    rw [lagStep_eq (s := (pre, L)) hstep] at hs
    cases hs
    obtain ⟨hne, rfl⟩ | ⟨l1Hdl, l2Hdl, rfl, rfl, h1, h2, rfl⟩ := mcNodeCreate_cases h hc
    · simp only [hne, if_false]
      exact h
    · exact h.nodeCreate h1 h2
  | nodeUpdate l1Hdl portMap lagMap =>
    by_cases hv : pre.l1Handles.validHandle l1Hdl = true
    · have hl := h.nodeUpdate portMap lagMap hv
      simp only [lagStep, McSimplePreLag.step, mcNodeUpdate, if_pos hv] at hs hl
      cases hs
      exact hl
    · simp only [lagStep, McSimplePreLag.step, mcNodeUpdate, if_neg hv] at hs
      cases hs
      exact h
  | setLagMembership lagIndex portMap =>
    simp only [lagStep, McSimplePreLag.step, mcSetLagMembership] at hs
    split_ifs at hs with hlt
    · cases hs
      exact h
    · cases hs
      exact h.setLagMembership lagIndex portMap

/-- The member of each LAG that gets the copies. -/
def pickMembers (L : LagMulticast) (lagIndex : ℕ) : Option ℕ :=
  pickMember (L.lagMembers lagIndex)

/-- A LAG that is not configured, or has no members, stops the replication. -/
theorem LagLinked.replicateLag_none (h : LagLinked pre L) {i : ℕ} (rid : ℕ)
    (hempty : (L.lagMembers i).ports = []) : pre.replicateLag rid i = none := by
  have hlag := h.lags i
  unfold replicateLag
  cases hi : pre.lagEntries.lookup i with
  | none => rfl
  | some lagEntry =>
    rw [hi, Option.getD_some] at hlag
    simp [hlag, hempty]

/-- A LAG with members gets one copy. -/
theorem LagLinked.replicateLag_some (h : LagLinked pre L) {i : ℕ} (rid : ℕ)
    (hmember : (L.lagMembers i).ports ≠ []) :
    pre.replicateLag rid i = some ((pickMembers L i).toList.map fun port => ⟨rid, port⟩) := by
  have hlag := h.lags i
  have hlength : (L.lagMembers i).ports.length ≠ 0 := fun hzero =>
    hmember (List.length_eq_zero_iff.mp hzero)
  unfold replicateLag
  cases hi : pre.lagEntries.lookup i with
  | none =>
    rw [hi, Option.getD_none] at hlag
    exact absurd (congrArg LagEntry.memberCount hlag).symm hlength
  | some lagEntry =>
    rw [hi, Option.getD_some] at hlag
    simp only [Option.bind_eq_bind, Option.bind_some, hlag, hlength, if_false,
      scanPorts_eq _ (Nat.succ_pos _)]
    rfl

/-- The LAGs of a node, if all of them have members. -/
theorem LagLinked.replicateLags_some (h : LagLinked pre L) (rid : ℕ) {lagIndices : List ℕ}
    (hmember : ∀ i ∈ lagIndices, (L.lagMembers i).ports ≠ []) :
    pre.replicateLags rid lagIndices = some (lagIndices.flatMap fun i =>
      (pickMembers L i).toList.map fun port => ⟨rid, port⟩) := by
  induction lagIndices with
  | nil => rfl
  | cons i lagIndices ih =>
    have hrest := ih fun j hj => hmember j (List.mem_cons_of_mem i hj)
    have hfirst := h.replicateLag_some rid (hmember i List.mem_cons_self)
    simp [replicateLags, hfirst, hrest]

theorem LagLinked.replicateLags_none (h : LagLinked pre L) (rid : ℕ) {lagIndices : List ℕ}
    {i : ℕ} (hi : i ∈ lagIndices) (hempty : (L.lagMembers i).ports = []) :
    pre.replicateLags rid lagIndices = none := by
  induction lagIndices with
  | nil => cases hi
  | cons j lagIndices ih =>
    rcases List.mem_cons.mp hi with rfl | hi
    · simp [replicateLags, h.replicateLag_none rid hempty]
    · simp [replicateLags, ih hi]

/-- All LAGs of the node have members. -/
def Served (L : LagMulticast) (n : ℕ) : Prop :=
  ∀ i ∈ PortMap.ports (L.lagMap n), (L.lagMembers i).ports ≠ []

theorem LagLinked.replicateNode_some (h : LagLinked pre L) {l1Hdl n : ℕ}
    (hn : L.node l1Hdl = some n) (hserved : Served L n) :
    pre.replicateNode l1Hdl = some (L.copies (pickMembers L) n) := by
  obtain ⟨e, e₂, he, he₂, hmap⟩ := h.base.lagMapOf_eq hn
  obtain ⟨n', e₂', hn', he₂', -, hlive⟩ := h.base.node l1Hdl e he
  obtain rfl : n = n' := Option.some.inj (hn.symm.trans hn')
  obtain rfl : e₂ = e₂' := Option.some.inj (he₂.symm.trans he₂')
  have hlags : e₂.lagMap = L.lagMap n := Option.some.inj (hmap.symm.trans (h.maps l1Hdl n hn))
  have hout := h.replicateLags_some e.rid hserved
  simp [McSimplePreLag.replicateNode, he, he₂, hlags, hout, LagMulticast.copies, hlive]

theorem LagLinked.replicateNode_none (h : LagLinked pre L) {l1Hdl n : ℕ}
    (hn : L.node l1Hdl = some n) (hserved : ¬ Served L n) : pre.replicateNode l1Hdl = none := by
  obtain ⟨e, e₂, he, he₂, hmap⟩ := h.base.lagMapOf_eq hn
  have hlags : e₂.lagMap = L.lagMap n := Option.some.inj (hmap.symm.trans (h.maps l1Hdl n hn))
  unfold Served at hserved
  push Not at hserved
  obtain ⟨i, hi, hempty⟩ := hserved
  have hout := h.replicateLags_none e.rid hi hempty
  simp [McSimplePreLag.replicateNode, he, he₂, hlags, hout]

theorem LagLinked.replicateList_some (h : LagLinked pre L) {l1List ns : List ℕ}
    (hl : l1List.map L.node = ns.map some) (hserved : ∀ n ∈ ns, Served L n) :
    pre.replicateList l1List = some (ns.flatMap (L.copies (pickMembers L))) := by
  induction l1List generalizing ns with
  | nil =>
    obtain rfl : ns = [] := by simpa using hl.symm
    rfl
  | cons l1Hdl l1List ih =>
    cases ns with
    | nil => simp at hl
    | cons n ns =>
      obtain ⟨hn, hl⟩ := List.cons.inj hl
      have hfirst := h.replicateNode_some hn (hserved n List.mem_cons_self)
      have hrest := ih hl fun m hm => hserved m (List.mem_cons_of_mem n hm)
      simp [McSimplePreLag.replicateList, hfirst, hrest]

theorem LagLinked.replicateList_none (h : LagLinked pre L) {l1List ns : List ℕ}
    (hl : l1List.map L.node = ns.map some) {n : ℕ} (hn : n ∈ ns) (hserved : ¬ Served L n) :
    pre.replicateList l1List = none := by
  induction l1List generalizing ns with
  | nil =>
    obtain rfl : ns = [] := by simpa using hl.symm
    cases hn
  | cons l1Hdl l1List ih =>
    cases ns with
    | nil => simp at hl
    | cons m ns =>
      obtain ⟨hm, hl⟩ := List.cons.inj hl
      rcases List.mem_cons.mp hn with rfl | hn
      · simp [McSimplePreLag.replicateList, h.replicateNode_none hm hserved]
      · simp [McSimplePreLag.replicateList, ih hl hn]

/-- A created group replicates as it should exactly when all LAGs of its nodes have members. -/
theorem LagLinked.replicatesLags_iff (h : LagLinked pre L) {mgid : ℕ}
    (hc : L.created mgid = true) :
    ReplicatesLags (pre, L) mgid ↔ ∀ n ∈ L.members mgid, Served L n := by
  obtain ⟨e, he⟩ := Option.isSome_iff_exists.mp (h.base.created mgid hc)
  have hm := h.base.members mgid
  simp only [McSimplePre.group, he, Option.map_some, Option.getD_some] at hm
  constructor
  · rintro ⟨pick, -, hout⟩ n hn
    by_contra hserved
    have hnone := h.replicateList_none hm hn hserved
    simp [replicate, he, hnone] at hout
  · intro hserved
    refine ⟨pickMembers L, fun i => picks_pickMember _, ?_⟩
    simp [replicate, he, h.replicateList_some hm hserved]

end McSimplePreLag

/-- The runs of the engine with LAGs that destroy no node which a group lists. -/
def LagReach : McSimplePreLag × LagMulticast → Prop :=
  Transition.Reach lagStep NotInUse ({}, {})

/-- In every reachable state a created group replicates without a fault, with exactly one copy for
a member of each LAG of its nodes that has members, if and only if all these LAGs do. -/
theorem lag_replication {s : McSimplePreLag × LagMulticast} (h : LagReach s) (mgid : ℕ)
    (hc : s.2.created mgid = true) :
    ReplicatesLags s mgid ↔ ∀ n ∈ s.2.members mgid, ∀ i ∈ PortMap.ports (s.2.lagMap n),
      (s.2.lagMembers i).ports ≠ [] := by
  have hlinked : s.1.LagLinked s.2 :=
    h.invariant (fun s => s.1.LagLinked s.2) McSimplePreLag.lagLinked_empty
      fun _ _ _ _ hinv hd hs => hinv.step hd hs
  exact hlinked.replicatesLags_iff hc

/-- A node with a LAG of two members, one of which gets the copy. -/
theorem lag_replication_two_members : ∃ s, LagReach s ∧ ReplicatesLags s 7 ∧
    s.1.replicate 7 = some [⟨5, 3⟩, ⟨5, 9⟩] := by
  have heval : ((Transition.runAll lagStep NotInUse ({}, {})
      [.base (.mgrpCreate 7), .setLagMembership 2 0x210, .nodeCreate 5 0x8 0x4,
        .base (.nodeAssociate 7 0)]).map fun s => (s.2.created 7, s.1.replicate 7,
          decide (∀ n ∈ s.2.members 7, ∀ i ∈ PortMap.ports (s.2.lagMap n),
            (s.2.lagMembers i).ports ≠ []))) = some (true, some [⟨5, 3⟩, ⟨5, 9⟩], true) := by
    decide +kernel
  obtain ⟨s, hrun, hs⟩ := Option.map_eq_some_iff.mp heval
  obtain ⟨hc, hrest⟩ := Prod.mk.inj hs
  obtain ⟨hout, hserved⟩ := Prod.mk.inj hrest
  have hreach : LagReach s := .of_runAll hrun
  exact ⟨s, hreach, (lag_replication hreach 7 hc).mpr (of_decide_eq_true hserved), hout⟩

/-- A node with a LAG that was never configured makes `replicate` throw. -/
theorem unconfigured_lag_breaks_group : ∃ s, LagReach s ∧ s.2.created 7 = true ∧
    ¬ ReplicatesLags s 7 := by
  have heval : ((Transition.runAll lagStep NotInUse ({}, {})
      [.base (.mgrpCreate 7), .nodeCreate 5 0x8 0x4, .base (.nodeAssociate 7 0)]).map
        fun s => (s.2.created 7, s.1.replicate 7)) = some (true, none) := by
    decide +kernel
  obtain ⟨s, hrun, hs⟩ := Option.map_eq_some_iff.mp heval
  obtain ⟨hc, hout⟩ := Prod.mk.inj hs
  refine ⟨s, .of_runAll hrun, hc, fun hreplicates => ?_⟩
  obtain ⟨pick, -, hsome⟩ := hreplicates
  rw [hout] at hsome
  cases hsome

end Bmv2
