import Bmv2.Queueing.Fifo
import Bmv2.Switch.Accounting

/-! The order of the packets of a port. Between its egress queue and the wire a port has one
egress thread, and every port has the one transmit thread, so that packets may be dropped on the
way but do not overtake each other. -/
namespace Bmv2
open ByteBits PriorityQueue UnorderedMap Places

theorem objectsFor_append (port : ℕ) (packets packets' : List SwitchPacket) :
    objectsFor port (packets ++ packets') =
      objectsFor port packets ++ objectsFor port packets' := by
  unfold objectsFor
  rw [List.filter_append, List.map_append]

/-- A packet is on the way to one port. -/
theorem objectsFor_singleton (port : ℕ) (p : SwitchPacket) :
    objectsFor port [p] = if p.egressPort = (port : ℤ) then [p.object] else [] := by
  unfold objectsFor
  rw [List.filter_singleton]
  by_cases hp : p.egressPort = (port : ℤ) <;> simp [hp]

namespace SimpleSwitch

variable {pq : PQ (QE SwitchPacket) QE.send} {cast : BignumCast} {prog : SwitchProgram}
  {s s' : SimpleSwitch pq} {H evs : List SwitchEvent} {op : Op} {clock : Option ℕ} {port : ℕ}

/-- The objects that went into the queue of a port. -/
def acceptedObjects (port : ℕ) (H : List SwitchEvent) : List ℕ :=
  ((traffic H).acceptedIn port 0).map (·.item.object)

/-- The objects that came out of the queue of a port. -/
def deliveredObjects (port : ℕ) (H : List SwitchEvent) : List ℕ :=
  ((traffic H).deliveredFrom port 0).map (·.qe.e.object)

/-- The objects that were sent out of a port. -/
def transmittedObjects (port : ℕ) (H : List SwitchEvent) : List ℕ :=
  H.filterMap (SwitchEvent.transmittedOn port)

/-- What has left the queue of a port, in the order in which it leaves the switch: what has been
sent, then what the transmit thread, the output buffer and the egress thread have for the port. -/
def line (port : ℕ) (s : SimpleSwitch pq) (H : List SwitchEvent) : List ℕ :=
  transmittedObjects port H ++ objectsFor port (s.held .transmitter) ++
    objectsFor port s.outputBuffer.reverse ++
    objectsFor port (s.held (.egress (egressThreadMapper port)))

/-- The packets of a port are with its thread, and in its queue. -/
structure PortsInv (s : SimpleSwitch pq) (H : List SwitchEvent) : Prop where
  buffers : BuffersInv s H
  items : ∀ a ∈ (traffic H).accepted, a.item.egressPort = (a.queueId : ℤ)
  own : ∀ i port, i ≠ egressThreadMapper port → objectsFor port (s.held (.egress i)) = []

/-! ### What one move does -/

theorem transmittedObjects_append (port : ℕ) (evs evs' : List SwitchEvent) :
    transmittedObjects port (evs ++ evs') =
      transmittedObjects port evs ++ transmittedObjects port evs' := List.filterMap_append

theorem transmittedObjects_of_internal (h : ∀ ev ∈ evs, ev.Internal) :
    transmittedObjects port evs = [] := by
  unfold transmittedObjects
  rw [List.filterMap_eq_nil_iff]
  intro ev hev
  have hint := h ev hev
  cases ev <;> first | rfl | exact hint.elim

theorem transmittedObjects_queue (ev : Option (QueueEvent SwitchPacket)) :
    transmittedObjects port (ev.map SwitchEvent.queue).toList = [] := by
  cases ev <;> rfl

/-- What a move adds to what has come out of the queue of a port. -/
def Leaves (port : ℕ) (H evs : List SwitchEvent) (more : List ℕ) : Prop :=
  deliveredObjects port (H ++ evs) = deliveredObjects port H ++ more

theorem leaves_nil (h : (traffic (H ++ evs)).delivered = (traffic H).delivered) :
    Leaves port H evs [] := by
  unfold Leaves deliveredObjects Traffic.deliveredFrom
  rw [h, List.append_nil]

/-- What comes out of a queue has its port, and comes to the thread of the port. -/
theorem PortsInv.popped (h : PortsInv s H) {i port priority now : ℕ} {p : SwitchPacket}
    {buffers : QueueingLogicRL pq}
    (hpop : s.egressBuffers.popBack i now = (.popped port priority p, buffers)) :
    p.egressPort = (port : ℤ) ∧ i = egressThreadMapper port := by
  obtain ⟨qe, htop, rfl, rfl, -⟩ := QueueingLogicRL.popBack_top hpop
  have hmem := pq.top_mem htop
  have hall : qe ∈ ((((traffic H).acceptedFor egressThreadMapper i priority).map Accepted.qe :
      List (QE SwitchPacket)) : Multiset (QE SwitchPacket)) := by
    rw [h.buffers.lanes.conserved]
    exact Multiset.mem_add.mpr (.inr hmem)
  obtain ⟨a, ha, rfl⟩ := List.mem_map.mp (Multiset.mem_coe.mp hall)
  exact ⟨h.items a (List.mem_filter.mp ha).1, (h.buffers.lanes.worker_eq hmem).symm⟩

/-- A thread that keeps some of what it has for the port. -/
theorem Moves.sublist {t : Holder} {packets : List SwitchPacket} (h : Moves s s' t packets)
    (hports : (objectsFor port packets).Sublist (objectsFor port (s.held t))) (t' : Holder) :
    (objectsFor port (s'.held t')).Sublist (objectsFor port (s.held t')) := by
  by_cases ht : t' = t
  · rw [ht, h.self]
    exact hports
  · rw [h.other ht]

theorem line_sublist
    (htransmitter : (objectsFor port (s'.held .transmitter)).Sublist
      (objectsFor port (s.held .transmitter)))
    (hegress : (objectsFor port (s'.held (.egress (egressThreadMapper port)))).Sublist
      (objectsFor port (s.held (.egress (egressThreadMapper port)))))
    (houtput : s'.outputBuffer = s.outputBuffer) (hevs : transmittedObjects port evs = []) :
    (line port s' (H ++ evs)).Sublist (line port s H ++ []) := by
  unfold line
  rw [houtput, transmittedObjects_append, hevs, List.append_nil, List.append_nil]
  exact (((List.Sublist.refl _).append htransmitter).append (.refl _)).append hegress

theorem transmittedObjects_enqueue (ev : Option (QueueEvent SwitchPacket)) (object : ℕ)
    (accepted : Bool) : transmittedObjects port (if accepted then
      (ev.map SwitchEvent.queue).toList else [.ended object .queueFull]) = [] := by
  cases accepted with
  | true => rw [if_pos rfl, transmittedObjects_queue]
  | false => rfl

theorem transmittedObjects_transmit (p : SwitchPacket) (bytes : List Byte) :
    transmittedObjects port [.transmitted p.object p.egressPort bytes,
      .ended p.object .transmitted] = objectsFor port [p] := by
  rw [objectsFor_singleton]
  by_cases hp : p.egressPort = (port : ℤ) <;>
    simp [transmittedObjects, SwitchEvent.transmittedOn, hp]

/-- What is in the line of a port after a move was there before or has just left the queue, in
this order. -/
theorem Flow.line (h : Flow prog clock s s' evs) (hinv : PortsInv s H) (port : ℕ) :
    ∃ more, Leaves port H evs more ∧
      (SimpleSwitch.line port s' (H ++ evs)).Sublist (SimpleSwitch.line port s H ++ more) := by
  have hnone : evs.filterMap SwitchEvent.queueEvent = [] → Leaves port H evs [] :=
    fun hevs => leaves_nil (congrArg _ (traffic_append_other hevs))
  have hother : ∀ {t t' : Holder} {packets : List SwitchPacket}, Moves s s' t packets → t' ≠ t →
      (objectsFor port (s'.held t')).Sublist (objectsFor port (s.held t')) := by
    intro t t' packets hmoves hne
    rw [hmoves.other hne]
  cases h with
  | receive _ hmoves _ _ _ houtput =>
    exact ⟨[], hnone rfl, line_sublist (hother hmoves (by simp)) (hother hmoves (by simp)) houtput
      rfl⟩
  | work hmoves hevs _ _ _ hports _ houtput =>
    exact ⟨[], hnone (queueEvent_of_internal hevs), line_sublist (hmoves.sublist (hports port) _)
      (hmoves.sublist (hports port) _) houtput (transmittedObjects_of_internal hevs)⟩
  | pushInput _ hmoves _ _ houtput =>
    exact ⟨[], hnone rfl, line_sublist (hmoves.sublist (List.nil_sublist _) _)
      (hmoves.sublist (List.nil_sublist _) _) houtput rfl⟩
  | popInput _ hmoves _ _ houtput =>
    exact ⟨[], hnone rfl, line_sublist (hother hmoves (by simp)) (hother hmoves (by simp)) houtput
      rfl⟩
  | @enqueue t packets p port' now accepted evs _ hmoves hevs _ _ _ _ hports _ hpush _ houtput =>
    refine ⟨[], leaves_nil ?_, line_sublist (hmoves.sublist (hports port) _)
      (hmoves.sublist (hports port) _) houtput ?_⟩
    · rw [← List.append_assoc]
      cases accepted with
      | true =>
        rw [if_pos rfl, traffic_append_queue, traffic_append_other (queueEvent_of_internal hevs)]
        rfl
      | false =>
        rw [if_neg Bool.false_ne_true, traffic_append_other rfl,
          traffic_append_other (queueEvent_of_internal hevs)]
    · rw [transmittedObjects_append, transmittedObjects_enqueue,
        transmittedObjects_of_internal hevs, List.append_nil]
  | @popEgress i port' priority now p _ ht hmoves hi hpop _ _ houtput =>
    obtain ⟨send, hev⟩ := popBack_event hpop
    obtain ⟨hport, hworker⟩ := hinv.popped hpop
    rw [hev]
    refine ⟨objectsFor port [p], ?_, ?_⟩
    · unfold Leaves deliveredObjects
      rw [traffic_append_queue, Traffic.deliveredFrom_delivered, List.map_append,
        objectsFor_singleton, hport]
      by_cases hp : port' = port
      · simp [hp]
      · have hne : ¬ (port' : ℤ) = port := by exact_mod_cast hp
        simp [hp, hne]
    · unfold SimpleSwitch.line
      rw [houtput, transmittedObjects_append, transmittedObjects_queue, hmoves.other (by simp),
        List.append_nil]
      by_cases hi' : egressThreadMapper port = i
      · rw [hi', hmoves.self, ht]
        simp [objectsFor]
      · have hne : ¬ p.egressPort = (port : ℤ) := by
          intro hp
          rw [hport] at hp
          rw [hworker, show port' = port by exact_mod_cast hp] at hi'
          exact hi' rfl
        rw [hmoves.other (by simpa using hi'), objectsFor_singleton, if_neg hne, List.append_nil]
  | @pushOutput i p ht hmoves _ _ houtput =>
    refine ⟨[], hnone rfl, ?_⟩
    unfold SimpleSwitch.line
    rw [houtput, hmoves.other (by simp), List.reverse_cons, objectsFor_append, List.append_nil,
      List.append_nil, ← List.append_assoc, List.append_assoc]
    refine (List.Sublist.refl _).append ?_
    by_cases hi : egressThreadMapper port = i
    · rw [hi, hmoves.self, ht]
      simp [objectsFor]
    · rw [hmoves.other (by simpa using hi)]
      have hnil := hinv.own i port (Ne.symm hi)
      rw [ht] at hnil
      rw [hnil]
      exact .refl _
  | popOutput ht hmoves _ _ houtput =>
    refine ⟨[], hnone rfl, ?_⟩
    unfold SimpleSwitch.line
    rw [hmoves.self, hmoves.other (by simp), ht, houtput, List.reverse_append,
      List.reverse_singleton, objectsFor_append]
    simp [objectsFor]
  | transmit ht hmoves _ _ houtput =>
    refine ⟨[], hnone rfl, ?_⟩
    unfold SimpleSwitch.line
    rw [hmoves.self, hmoves.other (by simp), ht, houtput, transmittedObjects_append,
      transmittedObjects_transmit]
    simp [objectsFor]
  | config hheld _ _ _ houtput =>
    refine ⟨[], hnone rfl, line_sublist ?_ ?_ houtput rfl⟩
    · rw [hheld]
    · rw [hheld]

/-! ### What a run does -/

theorem Flow.own (h : Flow prog clock s s' evs) (hinv : PortsInv s H) (i port : ℕ)
    (hi : i ≠ egressThreadMapper port) : objectsFor port (s'.held (.egress i)) = [] := by
  have hown := hinv.own i port hi
  have hless : (objectsFor port (s'.held (.egress i))).Sublist
      (objectsFor port (s.held (.egress i))) → objectsFor port (s'.held (.egress i)) = [] :=
    fun hsub => List.sublist_nil.mp (hown ▸ hsub)
  have hother : ∀ {t : Holder} {packets : List SwitchPacket}, Moves s s' t packets →
      .egress i ≠ t → objectsFor port (s'.held (.egress i)) = [] := by
    intro t packets hmoves hne
    rw [hmoves.other hne, hown]
  cases h with
  | receive _ hmoves => exact hother hmoves (by simp)
  | work hmoves _ _ _ _ hports => exact hless (hmoves.sublist (hports port) _)
  | pushInput _ hmoves => exact hless (hmoves.sublist (List.nil_sublist _) _)
  | popInput _ hmoves => exact hother hmoves (by simp)
  | enqueue _ hmoves _ _ _ _ _ hports => exact hless (hmoves.sublist (hports port) _)
  | @popEgress j port' priority now p _ ht hmoves _ hpop =>
    by_cases hij : Holder.egress i = .egress j
    · obtain ⟨hport, hworker⟩ := hinv.popped hpop
      rw [hij, hmoves.self, objectsFor_singleton, hport]
      refine if_neg fun hp => hi ?_
      rw [Holder.egress.inj hij, hworker, show port' = port by exact_mod_cast hp]
    · exact hother hmoves hij
  | pushOutput _ hmoves => exact hless (hmoves.sublist (List.nil_sublist _) _)
  | popOutput _ hmoves => exact hother hmoves (by simp)
  | transmit _ hmoves => exact hother hmoves (by simp)
  | config hheld => rw [hheld, hown]

theorem PortsInv.step (hinv : PortsInv s H) (h : Flow prog clock s s' evs) :
    PortsInv s' (H ++ evs) := by
  refine ⟨hinv.buffers.step h, ?_, h.own hinv⟩
  obtain ⟨ev, -, htraffic, -, henqueued⟩ := h.lanes hinv.buffers
  rw [htraffic]
  cases ev with
  | none => exact hinv.items
  | some ev =>
    cases ev with
    | accepted a =>
      intro b hb
      obtain hb | hb := List.mem_append.mp hb
      · exact hinv.items b hb
      · rw [List.mem_singleton.mp hb]
        exact henqueued.1
    | delivered d => exact hinv.items

theorem portsInv_create (maxPort now : ℕ) : PortsInv (create pq maxPort now) [] where
  buffers := buffersInv_create maxPort now
  items := fun a ha => nomatch ha
  own i port _ := by rw [held_create]; rfl

/-- Packets of a port leave the switch in the order in which they leave its queue. -/
theorem line_sublist_delivered {maxPort now : ℕ}
    {ok : SimpleSwitch pq × List SwitchEvent → Op → Prop}
    (hrun : Transition.Reach (observed cast prog) ok (create pq maxPort now, []) (s, H)) :
    PortsInv s H ∧ ∀ port, (line port s H).Sublist (deliveredObjects port H) := by
  refine hrun.invariant (fun s => PortsInv s.1 s.2 ∧ ∀ port, (line port s.1 s.2).Sublist
    (deliveredObjects port s.2)) ⟨portsInv_create maxPort now, fun port => ?_⟩ ?_
  · unfold line
    rw [held_create, held_create]
    exact List.nil_sublist _
  · rintro ⟨s, H⟩ op evs ⟨s', H'⟩ ⟨hinv, hline⟩ - hs
    obtain ⟨⟨evs', t⟩, hstep, he⟩ := Option.map_eq_some_iff.mp hs
    cases he
    have hflow := flow_of_step hstep
    refine ⟨hinv.step hflow, fun port => ?_⟩
    obtain ⟨more, hmore, hsub⟩ := hflow.line hinv port
    rw [hmore]
    exact hsub.trans ((hline port).append (.refl _))

/-- What a step puts into the queue of a port gets a send time after those in this queue. -/
def SpacedStep (cast : BignumCast) (prog : SwitchProgram) (s : SimpleSwitch pq × List SwitchEvent)
    (op : Op) : Prop :=
  ∀ r ∈ s.1.step cast prog op, ∀ a ∈ (traffic r.1).accepted,
    ∀ qe ∈ pq.contents (s.1.egressBuffers.view.heap (egressThreadMapper a.queueId) 0),
      qe.queueId = a.queueId → qe.send < a.send

instance (cast : BignumCast) (prog : SwitchProgram) (s : SimpleSwitch pq × List SwitchEvent)
    (op : Op) : Decidable (SpacedStep cast prog s op) :=
  inferInstanceAs (Decidable (∀ r ∈ s.1.step cast prog op, ∀ a ∈ (traffic r.1).accepted,
    ∀ qe ∈ pq.contents (s.1.egressBuffers.view.heap (egressThreadMapper a.queueId) 0),
      qe.queueId = a.queueId → qe.send < a.send))

/-- The packets accepted in a step come behind those accepted before. -/
theorem accepted_append (H evs : List SwitchEvent) :
    (traffic (H ++ evs)).accepted = (traffic H).accepted ++ (traffic evs).accepted := by
  induction evs using List.reverseRecOn with
  | nil => rw [List.append_nil]; exact (List.append_nil _).symm
  | append_singleton evs ev ih =>
    rw [← List.append_assoc]
    cases hev : ev.queueEvent with
    | none =>
      have hnone : [ev].filterMap SwitchEvent.queueEvent = [] := by simp [hev]
      rw [traffic_append_other hnone, traffic_append_other hnone, ih]
    | some qev =>
      obtain rfl : ev = .queue qev := by
        cases ev <;> cases hev
        rfl
      have happend : ∀ H, traffic (H ++ [.queue qev]) = (traffic H).record (some qev) :=
        fun H => traffic_append_queue H (some qev)
      rw [happend, happend]
      cases qev with
      | accepted a =>
        change _ ++ [a] = _ ++ (_ ++ [a])
        rw [ih, List.append_assoc]
      | delivered d => exact ih

theorem accepted_of_record {a : Accepted SwitchPacket}
    (h : traffic (H ++ evs) = (traffic H).record (some (.accepted a))) :
    a ∈ (traffic evs).accepted := by
  have haccepted := congrArg Traffic.accepted h
  rw [accepted_append] at haccepted
  rw [List.append_cancel_left haccepted]
  exact List.mem_singleton_self a

theorem Flow.inOrder (h : Flow prog clock s s' evs) (hinv : BuffersInv s H)
    (hspaced : ∀ a ∈ (traffic evs).accepted,
      ∀ qe ∈ pq.contents (s.egressBuffers.view.heap (egressThreadMapper a.queueId) 0),
        qe.queueId = a.queueId → qe.send < a.send)
    (hord : InOrder egressThreadMapper s.egressBuffers.view (traffic H) port 0) :
    InOrder egressThreadMapper s'.egressBuffers.view (traffic (H ++ evs)) port 0 := by
  obtain ⟨ev, hstep, htraffic, -, henqueued⟩ := h.lanes hinv
  cases hstep with
  | config hheap =>
    rw [htraffic]
    obtain ⟨rest, hsplit, hsorted, hrest⟩ := hord
    exact ⟨rest, hsplit, hsorted, hheap ▸ hrest⟩
  | push q p item now' hroom _ hheap =>
    obtain ⟨-, rfl, -⟩ := henqueued
    have hlater := hspaced _ (accepted_of_record htraffic)
    rw [htraffic]
    exact hord.push hlater hheap
  | pop w p now qe htop _ _ hheap =>
    rw [htraffic]
    exact hinv.lanes.inOrder_pop htop hheap hord

/-- As long as every packet gets a send time after those in its queue, the packets that are sent
out of a port are among those that were accepted into its queue, in the same order, whatever the
threads do. -/
theorem port_order {maxPort now : ℕ} (hrun : Transition.Reach (observed cast prog)
    (SpacedStep cast prog) (create pq maxPort now, []) (s, H)) (port : ℕ) :
    (transmittedObjects port H).Sublist (acceptedObjects port H) := by
  have hline := (line_sublist_delivered hrun).2 port
  have hsent : (transmittedObjects port H).Sublist (line port s H) := by
    unfold line
    rw [List.append_assoc, List.append_assoc]
    exact List.sublist_append_left _ _
  have hord := hrun.invariant (fun s => BuffersInv s.1 s.2 ∧
    InOrder egressThreadMapper s.1.egressBuffers.view (traffic s.2) port 0)
    ⟨buffersInv_create maxPort now, (buffersInv_create maxPort now).lanes.inOrder_empty port 0⟩ ?_
  · obtain ⟨-, rest, hsplit, -⟩ := hord
    refine (hsent.trans hline).trans ?_
    have hobjects := congrArg (List.map fun qe : QE SwitchPacket => qe.e.object) hsplit
    rw [List.map_append, List.map_map, List.map_map] at hobjects
    have hall : acceptedObjects port H = deliveredObjects port H ++ _ := hobjects
    rw [hall]
    exact List.sublist_append_left _ _
  · rintro ⟨s, H⟩ op evs ⟨s', H'⟩ ⟨hinv, hord⟩ hspaced hs
    obtain ⟨⟨evs', t⟩, hstep, he⟩ := Option.map_eq_some_iff.mp hs
    cases he
    have hflow := flow_of_step hstep
    exact ⟨hinv.step hflow, hflow.inOrder hinv (hspaced _ hstep) hord⟩

/-- At one reading of the clock packets for two ports are accepted, later another for the first of
these ports; its first packet is sent. -/
theorem port_order_two : ∃ (s : SimpleSwitch (binaryHeap (QE SwitchPacket) QE.send)) (H : _),
    Transition.Reach (observed checkedCast plainProgram) (SpacedStep checkedCast plainProgram)
      (create _ 4 0, []) (s, H) ∧
    transmittedObjects 2 H = [0] ∧ acceptedObjects 2 H = [0, 2] ∧
    (transmittedObjects 2 H).Sublist (acceptedObjects 2 H) := by
  have heval : ((Transition.runAll (observed checkedCast plainProgram)
      (SpacedStep checkedCast plainProgram)
      (create (binaryHeap (QE SwitchPacket) QE.send) 4 0, [])
      (throughIngress 2 5 [7, 8] ++ throughIngress 3 5 [9] ++ throughIngress 2 6 [1] ++
        throughEgress 2 6)).map fun s =>
        (transmittedObjects 2 s.2, acceptedObjects 2 s.2)) = some ([0], [0, 2]) := by
    decide +kernel
  obtain ⟨⟨s, H⟩, hrun, hs⟩ := Option.map_eq_some_iff.mp heval
  obtain ⟨htransmitted, haccepted⟩ := Prod.mk.inj hs
  have hreach := Transition.Reach.of_runAll hrun
  exact ⟨s, H, hreach, htransmitted, haccepted, port_order hreach 2⟩

end SimpleSwitch

end Bmv2
