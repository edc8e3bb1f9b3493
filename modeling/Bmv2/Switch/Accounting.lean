import Bmv2.Lib.Places
import Bmv2.Switch.FlowSteps
import Mathlib.Tactic.Abel

/-! Where the packets of `simple_switch.cpp` are. Every object that has been made is at one place
in the switch, or has ended once: none is lost and none is in two places. -/
namespace Bmv2
open ByteBits PriorityQueue UnorderedMap Places

namespace SimpleSwitch

variable {pq : PQ (QE SwitchPacket) QE.send} {cast : BignumCast} {prog : SwitchProgram}
  {s s' : SimpleSwitch pq} {H evs : List SwitchEvent} {op : Op}
  {clock : Option ℕ}

/-! ### The egress buffers along a run -/

/-- What has gone into the egress buffers and come out of them. -/
def traffic (H : List SwitchEvent) : Traffic SwitchPacket :=
  (H.filterMap SwitchEvent.queueEvent).foldl (fun T ev => T.record (some ev)) {}

theorem traffic_append_queue (H : List SwitchEvent) (ev : Option (QueueEvent SwitchPacket)) :
    traffic (H ++ (ev.map SwitchEvent.queue).toList) = (traffic H).record ev := by
  unfold traffic
  rw [List.filterMap_append, List.foldl_append]
  cases ev <;> rfl

theorem traffic_append_other (h : evs.filterMap SwitchEvent.queueEvent = []) :
    traffic (H ++ evs) = traffic H := by
  unfold traffic
  rw [List.filterMap_append, h, List.append_nil]

theorem queueEvent_of_internal (h : ∀ ev ∈ evs, ev.Internal) :
    evs.filterMap SwitchEvent.queueEvent = [] := by
  rw [List.filterMap_eq_nil_iff]
  intro ev hev
  have hint := h ev hev
  cases ev <;> first | rfl | exact hint.elim

/-- The threads of the switch and the workers of the buffers do not change. -/
structure BuffersInv (s : SimpleSwitch pq) (H : List SwitchEvent) : Prop where
  mapToWorker : s.egressBuffers.mapToWorker = egressThreadMapper
  lanes : LaneInv egressThreadMapper s.egressBuffers.view (traffic H)
  threads : s.egress.length = nbEgressThreads

theorem buffersInv_create (maxPort now : ℕ) : BuffersInv (create pq maxPort now) [] where
  mapToWorker := rfl
  lanes := (QueueingLogicRL.run_lanes .refl).2
  threads := List.length_replicate

/-- What a successful `pop_back` is seen to do. -/
theorem popBack_event {buffers buffers' : QueueingLogicRL pq} {i now port priority : ℕ}
    {p : SwitchPacket} (h : buffers.popBack i now = (.popped port priority p, buffers')) :
    ∃ send, buffers.event (.pop i now) (.popped port priority p) =
      some (.delivered ⟨i, 0, ⟨p, port, send⟩, now⟩) := by
  obtain ⟨qe, htop, rfl, rfl, -⟩ := QueueingLogicRL.popBack_top h
  obtain rfl : priority = 0 := by
    by_contra hne
    -- the lanes of the other priorities are empty
    have hempty : buffers.view.heap i priority = pq.empty := if_neg hne
    have hmem := pq.top_mem htop
    rw [hempty, pq.contents_empty] at hmem
    exact Multiset.notMem_zero _ hmem
  refine ⟨qe.send, ?_⟩
  rw [QueueingLogicRL.event, htop]
  rfl

/-- What goes into a queue has the port of the queue, and the clock reading of the step. It comes
from a thread. -/
def Enqueued (s : SimpleSwitch pq) (clock : Option ℕ) : Option (QueueEvent SwitchPacket) → Prop
  | some (.accepted a) => a.item.egressPort = (a.queueId : ℤ) ∧ a.priority = 0 ∧
    (∃ now, clock = some now ∧ a.send = (s.egressBuffers.view.info a.queueId 0).getNextTp now) ∧
    ∃ t, ∃ p ∈ s.held t, p.Descends a.item
  | _ => True

/-- What a move does to the buffers. -/
theorem Flow.lanes (h : Flow prog clock s s' evs) (hinv : BuffersInv s H) :
    ∃ ev, Lanes.Step egressThreadMapper s.egressBuffers.view ev s'.egressBuffers.view ∧
      traffic (H ++ evs) = (traffic H).record ev ∧
      s'.egressBuffers.mapToWorker = egressThreadMapper ∧ Enqueued s clock ev := by
  have hmap := hinv.mapToWorker
  have hlanes := hinv.lanes
  rw [← hmap] at hlanes ⊢
  have hsame : s'.egressBuffers = s.egressBuffers → evs.filterMap SwitchEvent.queueEvent = [] →
      ∃ ev, Lanes.Step s.egressBuffers.mapToWorker s.egressBuffers.view ev s'.egressBuffers.view ∧
        traffic (H ++ evs) = (traffic H).record ev ∧
        s'.egressBuffers.mapToWorker = s.egressBuffers.mapToWorker ∧ Enqueued s clock ev := by
    intro hbuffers hevs
    refine ⟨none, ?_, traffic_append_other hevs, congrArg _ hbuffers, trivial⟩
    rw [hbuffers]
    exact .stutter
  cases h with
  | receive _ _ _ _ _ _ hbuffers => exact hsame hbuffers rfl
  | work _ hevs _ _ _ _ _ _ hbuffers => exact hsame hbuffers (queueEvent_of_internal hevs)
  | pushInput _ _ _ _ _ hbuffers => exact hsame hbuffers rfl
  | popInput _ _ _ _ _ hbuffers => exact hsame hbuffers rfl
  | @enqueue t packets p port now accepted evs hclock _ hevs _ _ _ hdescends _ hport hpush =>
    obtain ⟨hmap', hstep⟩ := QueueingLogicRL.pushFront_lanes hpush
    rw [← List.append_assoc]
    have hfirst := traffic_append_other (H := H) (queueEvent_of_internal hevs)
    cases accepted with
    | true =>
      refine ⟨_, hstep, ?_, hmap', hport, rfl, ⟨now, hclock, rfl⟩, t,
        hdescends p List.mem_cons_self⟩
      rw [if_pos rfl, traffic_append_queue, hfirst]
    | false =>
      refine ⟨_, hstep, ?_, hmap', trivial⟩
      rw [if_neg Bool.false_ne_true, traffic_append_other rfl, hfirst]
      rfl
  | popEgress _ _ _ _ hpop =>
    obtain ⟨hmap', hstep⟩ := QueueingLogicRL.popBack_lanes hlanes hpop
    obtain ⟨send, hev⟩ := popBack_event hpop
    rw [hev] at hstep ⊢
    exact ⟨_, hstep, traffic_append_queue H _, hmap', trivial⟩
  | pushOutput _ _ _ _ _ hbuffers => exact hsame hbuffers rfl
  | popOutput _ _ _ _ _ hbuffers => exact hsame hbuffers rfl
  | transmit _ _ _ _ _ hbuffers => exact hsame hbuffers rfl
  | config _ _ _ _ _ hbuffers =>
    obtain hbuffers | ⟨q, fn, hfn, hbuffers⟩ := hbuffers
    · exact hsame hbuffers rfl
    · have hupdate : s.egressBuffers.updateInfo q fn =
          ((s.egressBuffers.updateInfo q fn).1, s'.egressBuffers) := by rw [hbuffers]
      obtain ⟨hmap', hstep⟩ := QueueingLogicRL.updateInfo_lanes hupdate hfn
      exact ⟨none, hstep, traffic_append_other rfl, hmap', trivial⟩

theorem Moves.self {t : Holder} {packets : List SwitchPacket} (h : Moves s s' t packets) :
    s'.held t = packets := by
  rw [h.held, Function.update_self]

theorem Moves.other {t t' : Holder} {packets : List SwitchPacket} (h : Moves s s' t packets)
    (hne : t' ≠ t) : s'.held t' = s.held t' := by
  rw [h.held, Function.update_of_ne hne]

theorem Flow.threads (h : Flow prog clock s s' evs) : s'.egress.length = s.egress.length := by
  cases h with
  | receive _ hmoves => exact hmoves.threads
  | work hmoves => exact hmoves.threads
  | pushInput _ hmoves => exact hmoves.threads
  | popInput _ hmoves => exact hmoves.threads
  | enqueue _ hmoves => exact hmoves.threads
  | popEgress _ _ hmoves => exact hmoves.threads
  | pushOutput _ hmoves => exact hmoves.threads
  | popOutput _ hmoves => exact hmoves.threads
  | transmit _ hmoves => exact hmoves.threads
  | config _ hthreads => exact hthreads

theorem BuffersInv.step (hinv : BuffersInv s H) (h : Flow prog clock s s' evs) :
    BuffersInv s' (H ++ evs) := by
  obtain ⟨ev, hstep, htraffic, hmap, -⟩ := h.lanes hinv
  exact ⟨hmap, htraffic ▸ hinv.lanes.step hstep, h.threads.trans hinv.threads⟩

/-! ### The places -/

/-- Those who may hold packets outside the buffers. -/
def holders (nbThreads : ℕ) : Finset Holder :=
  {.receiver, .ingress, .transmitter} ∪ (Finset.range nbThreads).image .egress

theorem mem_holders_or (s : SimpleSwitch pq) (t : Holder) :
    t ∈ holders s.egress.length ∨ s.held t = [] := by
  cases t with
  | egress i =>
    by_cases hi : i < s.egress.length
    · exact .inl (Finset.mem_union_right _
        (Finset.mem_image_of_mem _ (Finset.mem_range.mpr hi)))
    · refine .inr ?_
      rw [held, List.getElem?_eq_none (Nat.le_of_not_lt hi)]
      rfl
  | _ => exact .inl (by simp [holders])

/-- The objects that the threads hold. -/
def heldObjects (s : SimpleSwitch pq) : Multiset ℕ :=
  total (fun t => objects (s.held t)) (holders s.egress.length)

theorem Moves.heldObjects {t : Holder} {packets : List SwitchPacket}
    (h : Moves s s' t packets) :
    s'.heldObjects + objects (s.held t) = s.heldObjects + objects packets := by
  have hupdate : (fun t' => objects (s'.held t')) =
      Function.update (fun t' => objects (s.held t')) t (objects packets) := by
    rw [h.held]
    exact funext fun t' => Function.apply_update (fun _ => objects) s.held t packets t'
  unfold SimpleSwitch.heldObjects
  rw [h.threads, hupdate]
  obtain ht | ht := mem_holders_or s t
  · exact total_update _ ht _
  · -- a thread that does not exist holds nothing before and after
    obtain ht' | ht' := mem_holders_or s' t
    · rw [h.threads] at ht'
      exact total_update _ ht' _
    · rw [h.held, Function.update_self] at ht'
      rw [ht, ht', ← ht, Function.update_eq_self]

/-- The objects in the heap of a worker. -/
def queuedAt (A : Lanes pq) (w : ℕ) : Multiset ℕ :=
  (pq.contents (A.heap w 0)).map fun qe => qe.e.object

def queuedObjects (A : Lanes pq) : Multiset ℕ :=
  total (queuedAt A) (Finset.range nbEgressThreads)

theorem worker_mem (port : ℕ) : egressThreadMapper port ∈ Finset.range nbEgressThreads :=
  Finset.mem_range.mpr (Nat.mod_lt port (by decide))

theorem queuedObjects_push {A A' : Lanes pq} {a : Accepted SwitchPacket} (hp : a.priority = 0)
    (h : Lanes.Step egressThreadMapper A (some (.accepted a)) A') :
    queuedObjects A' = {a.item.object} + queuedObjects A := by
  cases h with
  | push q p item now _ _ hheap =>
    obtain rfl : p = 0 := hp
    refine total_put (worker_mem q) fun w => ?_
    unfold queuedAt
    rw [hheap]
    by_cases hw : w = egressThreadMapper q
    · rw [if_pos ⟨hw, rfl⟩, if_pos hw, pq.contents_push, Multiset.map_cons,
        Multiset.singleton_add]
    · rw [if_neg fun hc => hw hc.1, if_neg hw]

theorem queuedObjects_pop {A A' : Lanes pq} {d : Delivered SwitchPacket} (hp : d.priority = 0)
    (hw : d.worker < nbEgressThreads)
    (h : Lanes.Step egressThreadMapper A (some (.delivered d)) A') :
    queuedObjects A = {d.qe.e.object} + queuedObjects A' := by
  cases h with
  | pop w p now qe htop _ _ hheap =>
    obtain rfl : p = 0 := hp
    refine total_take (Finset.mem_range.mpr hw) ?_ fun j hj => ?_
    · unfold queuedAt
      rw [hheap, if_pos ⟨rfl, rfl⟩, pq.contents_of_top _ _ htop, Multiset.map_cons,
        Multiset.singleton_add]
    · unfold queuedAt
      rw [hheap, if_neg fun hc => hj hc.1]

theorem queuedObjects_none {A A' : Lanes pq} (h : Lanes.Step egressThreadMapper A none A') :
    queuedObjects A' = queuedObjects A := by
  cases h with
  | config hheap => unfold queuedObjects queuedAt; rw [hheap]

/-- Every object in the switch, at each place where it is. -/
def inFlight (s : SimpleSwitch pq) : Multiset ℕ :=
  objects s.inputBuffer + objects s.outputBuffer + s.heldObjects +
    queuedObjects s.egressBuffers.view

/-- A packet that has gone into the egress buffers is in the switch once more. -/
theorem queuedObjects_pushFront {port now : ℕ} {p : SwitchPacket} {accepted : Bool}
    (hmap : s.egressBuffers.mapToWorker = egressThreadMapper)
    (h : s.egressBuffers.pushFront port p now = (.pushed accepted, s'.egressBuffers)) :
    queuedObjects s'.egressBuffers.view =
      (if accepted then {p.object} else 0) + queuedObjects s.egressBuffers.view := by
  obtain ⟨-, hstep⟩ := QueueingLogicRL.pushFront_lanes h
  rw [hmap] at hstep
  cases accepted with
  | true => exact queuedObjects_push rfl hstep
  | false => exact (queuedObjects_none hstep).trans (zero_add _).symm

theorem createdObjects_append (evs evs' : List SwitchEvent) :
    createdObjects (evs ++ evs') = createdObjects evs ++ createdObjects evs' :=
  List.filterMap_append

theorem endedObjects_append (evs evs' : List SwitchEvent) :
    endedObjects (evs ++ evs') = endedObjects evs ++ endedObjects evs' :=
  List.filterMap_append

theorem createdObjects_queue (ev : Option (QueueEvent SwitchPacket)) :
    createdObjects (ev.map SwitchEvent.queue).toList = [] := by
  cases ev <;> rfl

theorem endedObjects_queue (ev : Option (QueueEvent SwitchPacket)) :
    endedObjects (ev.map SwitchEvent.queue).toList = [] := by
  cases ev <;> rfl

/-- A push that is not accepted ends its packet. -/
theorem endedObjects_enqueue (ev : Option (QueueEvent SwitchPacket)) (object : ℕ)
    (accepted : Bool) :
    (endedObjects (if accepted then (ev.map SwitchEvent.queue).toList
      else [.ended object .queueFull]) : Multiset ℕ) + (if accepted then {object} else 0) =
      {object} := by
  cases accepted with
  | true =>
    rw [if_pos rfl, if_pos rfl, endedObjects_queue, Multiset.coe_nil, zero_add]
  | false => rfl

theorem createdObjects_enqueue (ev : Option (QueueEvent SwitchPacket)) (object : ℕ)
    (accepted : Bool) : createdObjects (if accepted then (ev.map SwitchEvent.queue).toList
      else [.ended object .queueFull]) = [] := by
  cases accepted with
  | true => rw [if_pos rfl, createdObjects_queue]
  | false => rfl

theorem objects_cons (p : SwitchPacket) (packets : List SwitchPacket) :
    objects (p :: packets) = {p.object} + objects packets := rfl

theorem objects_append (packets packets' : List SwitchPacket) :
    objects (packets ++ packets') = objects packets + objects packets' := by
  unfold objects
  rw [List.map_append, Multiset.coe_add]

theorem objects_nil : objects [] = 0 := rfl

/-- What is in the switch, by its parts. -/
theorem inFlight_eq {t : Holder} {packets : List SwitchPacket} {E C : Multiset ℕ}
    (hmoves : Moves s s' t packets)
    (h : objects s'.inputBuffer + objects s'.outputBuffer + queuedObjects s'.egressBuffers.view +
        (objects packets + E) =
      objects s.inputBuffer + objects s.outputBuffer + queuedObjects s.egressBuffers.view +
        (objects (s.held t) + C)) :
    s'.inFlight + E = s.inFlight + C := by
  have hheld := hmoves.heldObjects
  unfold inFlight
  ext a
  have hcount := congrArg (Multiset.count a) h
  have hcount' := congrArg (Multiset.count a) hheld
  simp only [Multiset.count_add] at hcount hcount' ⊢
  omega

/-- A move keeps the account: what is in the switch afterwards or has ended was in the switch
before or has been made. -/
theorem Flow.inFlight (h : Flow prog clock s s' evs) (hinv : BuffersInv s H) :
    s'.inFlight + endedObjects evs = s.inFlight + createdObjects evs := by
  have hmap := hinv.mapToWorker
  cases h with
  | receive _ hmoves hidle _ hinput houtput hbuffers =>
    refine inFlight_eq hmoves ?_
    rw [hinput, houtput, hbuffers, hidle]
    rfl
  | work hmoves _ _ hobjects _ _ hinput houtput hbuffers =>
    refine inFlight_eq hmoves ?_
    rw [hinput, houtput, hbuffers, hobjects]
  | pushInput ht hmoves _ hinput houtput hbuffers =>
    refine inFlight_eq hmoves ?_
    rw [hinput, houtput, hbuffers, ht]
    simp only [objects_cons, objects_nil, createdObjects, endedObjects, List.filterMap_nil]
    abel
  | popInput ht hmoves _ hinput houtput hbuffers =>
    refine inFlight_eq hmoves ?_
    rw [hinput, houtput, hbuffers, ht]
    simp only [objects_append, objects_cons, objects_nil, createdObjects, endedObjects,
      List.filterMap_nil]
    abel
  | @enqueue t packets p port now accepted evs _ hmoves _ hended _ hobjects _ _ _ hpush hinput
      houtput =>
    obtain ⟨m, hqueued, hend⟩ : ∃ m : Multiset ℕ, queuedObjects s'.egressBuffers.view =
        m + queuedObjects s.egressBuffers.view ∧ _ + m = {p.object} :=
      ⟨_, queuedObjects_pushFront hmap hpush, endedObjects_enqueue
        (s.egressBuffers.event (.push port p now) (.pushed true)) p.object accepted⟩
    refine inFlight_eq hmoves ?_
    rw [hinput, houtput, hqueued, createdObjects_append, createdObjects_enqueue, List.append_nil,
      endedObjects_append, hended, List.nil_append, ← hobjects, ← hend]
    abel
  | popEgress _ ht hmoves hi hpop hnext hinput houtput =>
    obtain ⟨send, hev⟩ := popBack_event hpop
    obtain ⟨-, hstep⟩ := QueueingLogicRL.popBack_lanes (hmap.symm ▸ hinv.lanes) hpop
    rw [hmap, hev] at hstep
    have hqueued := queuedObjects_pop rfl (hinv.threads ▸ hi) hstep
    refine inFlight_eq hmoves ?_
    rw [hinput, houtput, hqueued, ht, createdObjects_queue, endedObjects_queue, objects_cons]
    simp only [objects_nil]
    abel
  | pushOutput ht hmoves _ hinput houtput hbuffers =>
    refine inFlight_eq hmoves ?_
    rw [hinput, houtput, hbuffers, ht]
    simp only [objects_cons, objects_nil, createdObjects, endedObjects, List.filterMap_nil]
    abel
  | popOutput ht hmoves _ hinput houtput hbuffers =>
    refine inFlight_eq hmoves ?_
    rw [hinput, houtput, hbuffers, ht]
    simp only [objects_append, objects_cons, objects_nil, createdObjects, endedObjects,
      List.filterMap_nil]
    abel
  | transmit ht hmoves _ hinput houtput hbuffers =>
    refine inFlight_eq hmoves ?_
    rw [hinput, houtput, hbuffers, ht]
    rfl
  | config hheld hthreads _ hinput houtput hbuffers =>
    have hqueued : queuedObjects s'.egressBuffers.view = queuedObjects s.egressBuffers.view := by
      obtain hbuffers | ⟨q, fn, hfn, hbuffers⟩ := hbuffers
      · rw [hbuffers]
      · have hupdate : s.egressBuffers.updateInfo q fn =
            ((s.egressBuffers.updateInfo q fn).1, s'.egressBuffers) := by rw [hbuffers]
        obtain ⟨-, hstep⟩ := QueueingLogicRL.updateInfo_lanes hupdate hfn
        rw [hmap] at hstep
        exact queuedObjects_none hstep
    unfold SimpleSwitch.inFlight heldObjects
    rw [hinput, houtput, hqueued, hthreads, hheld]
    rfl

theorem Flow.numbered (h : Flow prog clock s s' evs) : Numbered s s' evs := by
  cases h with
  | receive hnew _ _ hnext =>
    refine numbered_one hnext ?_
    obtain ⟨_, -, hnew⟩ := Option.bind_eq_some_iff.mp hnew
    obtain ⟨_, -, hnew⟩ := Option.bind_eq_some_iff.mp hnew
    obtain ⟨_, -, hnew⟩ := Option.bind_eq_some_iff.mp hnew
    obtain ⟨_, -, hnew⟩ := Option.bind_eq_some_iff.mp hnew
    obtain rfl := Option.some.inj hnew
    rfl
  | work _ _ hnum => exact hnum
  | pushInput _ _ hnext => exact numbered_nil hnext rfl
  | popInput _ _ hnext => exact numbered_nil hnext rfl
  | enqueue _ _ _ _ hnum =>
    refine ⟨?_, hnum.mono⟩
    rw [createdObjects_append, createdObjects_enqueue, List.append_nil]
    exact hnum.created
  | popEgress _ _ _ _ _ hnext => exact numbered_nil hnext (createdObjects_queue _)
  | pushOutput _ _ hnext => exact numbered_nil hnext rfl
  | popOutput _ _ hnext => exact numbered_nil hnext rfl
  | transmit _ _ hnext => exact numbered_nil hnext rfl
  | config _ _ hnext => exact numbered_nil hnext rfl

/-! ### The account along a run -/

/-- The objects made so far, and where they are. -/
structure Account (s : SimpleSwitch pq) (H : List SwitchEvent) : Prop where
  buffers : BuffersInv s H
  created : createdObjects H = List.range s.nextObject
  balance : s.inFlight + endedObjects H = createdObjects H

theorem held_create (maxPort now : ℕ) (t : Holder) : (create pq maxPort now).held t = [] := by
  cases t with
  | egress i => by_cases hi : i < nbEgressThreads <;> simp [held, create, hi, EgressThread.held]
  | _ => rfl

theorem account_create (maxPort now : ℕ) : Account (create pq maxPort now) [] where
  buffers := buffersInv_create maxPort now
  created := rfl
  balance := by
    have hheld : (create pq maxPort now).heldObjects = 0 := by
      refine total_eq_zero fun t _ => ?_
      rw [held_create, objects_nil]
    have hqueued : queuedObjects (create pq maxPort now).egressBuffers.view = 0 := by
      refine total_eq_zero fun w _ => ?_
      simp [queuedAt, create, QueueingLogicRL.create, QueueingLogicRL.view, pq.contents_empty]
    rw [inFlight, hheld, hqueued]
    rfl

theorem Account.step (h : Account s H) (hs : s.step cast prog op = some (evs, s')) :
    Account s' (H ++ evs) := by
  have hflow := flow_of_step hs
  have hnum := hflow.numbered
  have hflight := hflow.inFlight h.buffers
  refine ⟨h.buffers.step hflow, ?_, ?_⟩
  · have hmono := hnum.mono
    have hrange : List.range' 0 s.nextObject ++
        List.range' (0 + s.nextObject) (s'.nextObject - s.nextObject) = _ := List.range'_append_1
    rw [Nat.zero_add, Nat.add_sub_cancel' hmono] at hrange
    rw [createdObjects_append, h.created, hnum.created, List.range_eq_range', List.range_eq_range']
    exact hrange
  · calc s'.inFlight + endedObjects (H ++ evs)
      _ = (s'.inFlight + endedObjects evs) + endedObjects H := by
        rw [endedObjects_append, ← Multiset.coe_add, add_right_comm, add_assoc]
      _ = (s.inFlight + endedObjects H) + createdObjects evs := by
        rw [hflight, add_right_comm]
      _ = createdObjects (H ++ evs) := by
        rw [h.balance, createdObjects_append, Multiset.coe_add]

/-- In every run, each packet object that has been made is at one place in the switch or has
ended, once: it is in a buffer, with a thread or in an egress queue, whatever the threads do, and
no step loses it, keeps it twice or ends it again. -/
theorem packets_accounted {maxPort now : ℕ} (hrun : Transition.Reach (observed cast prog)
    (fun _ _ => True) (create pq maxPort now, []) (s, H)) :
    s.inFlight + endedObjects H = Multiset.range s.nextObject ∧
      createdObjects H = List.range s.nextObject := by
  have hinv := hrun.invariant (fun s => Account s.1 s.2) (account_create maxPort now) ?_
  · exact ⟨hinv.balance.trans (congrArg _ hinv.created), hinv.created⟩
  · rintro ⟨s, H⟩ op evs ⟨s', H'⟩ h - hs
    obtain ⟨⟨evs', t⟩, hstep, he⟩ := Option.map_eq_some_iff.mp hs
    cases he
    exact h.step hstep

/-! ### A small program, and a packet that goes through it -/

/-- The six fields that are not optional, in one header. -/
def plainFields : SwitchFields :=
  ⟨⟨0, 0⟩, ⟨0, 1⟩, ⟨0, 2⟩, ⟨0, 3⟩, ⟨0, 4⟩, ⟨0, 5⟩, none, none, none, none, none, none⟩

theorem noStacks_nodup : ∀ s ∈ ([] : List HeaderStackDesc), s.headers.Nodup :=
  List.forall_mem_nil _

theorem noStacks_typed : ∀ s ∈ ([] : List HeaderStackDesc), ∀ i ∈ s.headers,
    ∃ desc, ([] : List HeaderDesc)[i]? = some desc ∧
      desc.headerType.fieldsInfo = s.headerType.fieldsInfo ∧
      desc.headerType.vl.isSome = s.headerType.vl.isSome :=
  List.forall_mem_nil _

/-- The headers of a program without any. -/
def plainHeaders : PHVFactory where
  headerDescs := []
  stacks_nodup := noStacks_nodup
  stacks_typed := noStacks_typed

def plainProgram : SwitchProgram where
  config := { headers := plainHeaders }
  fields := plainFields
  parser := { parseStates := [], initState := none }
  deparserHeaders := []
  checksums := []

/-- Its PHV, with an egress port that the tables have chosen. -/
def plainPhv (egressSpec : ℤ) : PHV :=
  let fields := (List.replicate 6 { nbits := 16 } : List Field)
  { headers := [{
      fields := fields.modify 3 (·.set egressSpec), metadata := true, nbytesPacket := 12 }] }

def plainEnv (egressSpec : ℤ) (now : ℕ) : SwitchEnv :=
  { pooled := plainPhv 0, fuel := 1, now, mau := { phv := plainPhv egressSpec } }

/-- A packet from its arrival to its egress queue. -/
def throughIngress (egressPort now : ℕ) (bytes : List Byte) : List Op :=
  .receive 1 bytes (plainEnv 0 now) :: .receivePush ::
    List.replicate 4 (.ingress (plainEnv egressPort now))

/-- From the egress queue to the wire. -/
def throughEgress (egressPort now : ℕ) : List Op :=
  List.replicate 5 (.egress (egressThreadMapper egressPort) (plainEnv 0 now)) ++
    [.transmit, .transmit]

/-- One packet is sent, and another is in its queue. -/
theorem packets_accounted_two : ∃ (s : SimpleSwitch (binaryHeap (QE SwitchPacket) QE.send)) (H : _),
    Transition.Reach (observed checkedCast plainProgram) (fun _ _ => True)
      (create _ 4 0, []) (s, H) ∧ createdObjects H = [0, 1] ∧ endedObjects H = [0] ∧
    s.inFlight + endedObjects H = Multiset.range s.nextObject := by
  have heval : ((Transition.runAll (observed checkedCast plainProgram) (fun _ _ => True)
      (create (binaryHeap (QE SwitchPacket) QE.send) 4 0, [])
      (throughIngress 2 0 [7, 8] ++ throughIngress 2 0 [9] ++ throughEgress 2 0)).map fun s =>
        (createdObjects s.2, endedObjects s.2)) = some ([0, 1], [0]) := by
    decide +kernel
  obtain ⟨⟨s, H⟩, hrun, hs⟩ := Option.map_eq_some_iff.mp heval
  obtain ⟨hcreated, hended⟩ := Prod.mk.inj hs
  have hreach := Transition.Reach.of_runAll hrun
  exact ⟨s, H, hreach, hcreated, hended, (packets_accounted hreach).1⟩

end SimpleSwitch

end Bmv2
