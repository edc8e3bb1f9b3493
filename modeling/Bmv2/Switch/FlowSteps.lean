import Bmv2.Switch.Flow

/-! Every step of the threads of `simple_switch.cpp` is a move. -/
namespace Bmv2
open ByteBits PriorityQueue UnorderedMap

namespace SimpleSwitch

variable {pq : PQ (QE SwitchPacket) QE.send} {cast : BignumCast} {prog : SwitchProgram}
  {env : SwitchEnv} {s s' : SimpleSwitch pq} {evs : List SwitchEvent} {p p' copy : SwitchPacket}
  {packets : List SwitchPacket} {t : Holder} {i : ℕ} {clock : Option ℕ}

/-! ### Who has moved -/

theorem moves_receiver (h : s'.receiver.held = packets) (hingress : s'.ingress = s.ingress)
    (hegress : s'.egress = s.egress) (htransmitter : s'.transmitter = s.transmitter) :
    Moves s s' .receiver packets := by
  refine ⟨funext fun t => ?_, congrArg List.length hegress⟩
  cases t <;> simp [held, Function.update, h, hingress, hegress, htransmitter]

theorem moves_ingress (h : s'.ingress.held = packets) (hreceiver : s'.receiver = s.receiver)
    (hegress : s'.egress = s.egress) (htransmitter : s'.transmitter = s.transmitter) :
    Moves s s' .ingress packets := by
  refine ⟨funext fun t => ?_, congrArg List.length hegress⟩
  cases t <;> simp [held, Function.update, h, hreceiver, hegress, htransmitter]

theorem moves_transmitter (h : s'.transmitter.held = packets)
    (hreceiver : s'.receiver = s.receiver) (hingress : s'.ingress = s.ingress)
    (hegress : s'.egress = s.egress) : Moves s s' .transmitter packets := by
  refine ⟨funext fun t => ?_, congrArg List.length hegress⟩
  cases t <;> simp [held, Function.update, h, hreceiver, hingress, hegress]

theorem moves_egress {thread : EgressThread} (hi : s.egress[i]? = some thread)
    (thread' : EgressThread) (hegress : s'.egress = s.egress.set i thread')
    (hreceiver : s'.receiver = s.receiver) (hingress : s'.ingress = s.ingress)
    (htransmitter : s'.transmitter = s.transmitter) :
    Moves s s' (.egress i) thread'.held := by
  have hlt := (List.getElem?_eq_some_iff.mp hi).1
  refine ⟨funext fun t => ?_, by rw [hegress, List.length_set]⟩
  cases t with
  | egress j =>
    by_cases hj : j = i
    · subst hj
      simp [held, hegress, hlt]
    · simp [held, Function.update, hegress, hj, Ne.symm hj]
  | receiver => simp [held, Function.update, hreceiver]
  | ingress => simp [held, Function.update, hingress]
  | transmitter => simp [held, Function.update, htransmitter]

theorem held_egress {thread : EgressThread} (hi : s.egress[i]? = some thread) :
    s.held (.egress i) = thread.held := by
  rw [held, hi]
  rfl

/-! ### Kinds of work -/

theorem numbered_nil (hnext : s'.nextObject = s.nextObject) (hcreated : createdObjects evs = []) :
    Numbered s s' evs := by
  refine ⟨?_, hnext.ge⟩
  rw [hcreated, hnext, Nat.sub_self]
  rfl

theorem numbered_one (hnext : s'.nextObject = s.nextObject + 1)
    (hcreated : createdObjects evs = [s.nextObject]) : Numbered s s' evs := by
  refine ⟨?_, by omega⟩
  rw [hcreated, hnext, Nat.add_sub_cancel_left]
  rfl

/-- A thread that goes on with its packet. -/
theorem Flow.stays (ht : s.held t = [p]) (hmoves : Moves s s' t [p']) (hstays : p.Stays p')
    (hevs : ∀ ev ∈ evs, ev.Internal) (hcreated : createdObjects evs = [])
    (hended : endedObjects evs = []) (hnext : s'.nextObject = s.nextObject)
    (hinput : s'.inputBuffer = s.inputBuffer) (houtput : s'.outputBuffer = s.outputBuffer)
    (hbuffers : s'.egressBuffers = s.egressBuffers) : Flow prog clock s s' evs := by
  refine .work hmoves hevs (numbered_nil hnext hcreated) ?_ ?_ ?_ hinput houtput hbuffers
  · simp [ht, hcreated, hended, objects, hstays.object]
  · intro q hq
    rw [List.mem_singleton.mp hq]
    exact ⟨p, by rw [ht]; exact List.mem_singleton_self p, hstays.toDescends⟩
  · intro port
    rw [ht, hstays.objectsFor]

/-- A thread that has made a copy of its packet. -/
theorem Flow.copies (ht : s.held t = [p]) (hmoves : Moves s s' t [copy, p']) (hstays : p.Stays p')
    (hcopy : p.Descends copy) (hport : copy.egressPort = -1) (hobject : copy.object = s.nextObject)
    (hevs : ∀ ev ∈ evs, ev.Internal) (hcreated : createdObjects evs = [s.nextObject])
    (hended : endedObjects evs = []) (hnext : s'.nextObject = s.nextObject + 1)
    (hinput : s'.inputBuffer = s.inputBuffer) (houtput : s'.outputBuffer = s.outputBuffer)
    (hbuffers : s'.egressBuffers = s.egressBuffers) : Flow prog clock s s' evs := by
  refine .work hmoves hevs (numbered_one hnext hcreated) ?_ ?_ ?_ hinput houtput hbuffers
  · rw [ht, hcreated, hended, objects, objects, List.map_cons, List.map_singleton,
      List.map_singleton, hobject, hstays.object, Multiset.coe_add, Multiset.coe_add,
      List.append_nil]
    exact Multiset.coe_eq_coe.mpr (List.Perm.swap _ _ _)
  · intro q hq
    have hp : p ∈ s.held t := by
      rw [ht]
      exact List.mem_singleton_self p
    obtain rfl | rfl := List.mem_pair.mp hq
    · exact ⟨p, hp, hcopy⟩
    · exact ⟨p, hp, hstays.toDescends⟩
  · intro port
    rw [ht, objectsFor_of_neg port hport, hstays.objectsFor]

/-- A thread that goes on with a copy, and drops its packet. -/
theorem Flow.replaces (ht : s.held t = [p]) (hmoves : Moves s s' t [copy])
    (hcopy : p.Descends copy) (hport : copy.egressPort = -1) (hobject : copy.object = s.nextObject)
    (hevs : ∀ ev ∈ evs, ev.Internal) (hcreated : createdObjects evs = [s.nextObject])
    (hended : endedObjects evs = [p.object]) (hnext : s'.nextObject = s.nextObject + 1)
    (hinput : s'.inputBuffer = s.inputBuffer) (houtput : s'.outputBuffer = s.outputBuffer)
    (hbuffers : s'.egressBuffers = s.egressBuffers) : Flow prog clock s s' evs := by
  refine .work hmoves hevs (numbered_one hnext hcreated) ?_ ?_ ?_ hinput houtput hbuffers
  · rw [ht, hcreated, hended, objects, objects, List.map_singleton, List.map_singleton, hobject,
      add_comm]
  · intro q hq
    rw [List.mem_singleton.mp hq]
    exact ⟨p, by rw [ht]; exact List.mem_singleton_self p, hcopy⟩
  · intro port
    rw [objectsFor_of_neg port hport]
    exact List.nil_sublist _

/-- A thread whose packet ends. -/
theorem Flow.ends (ht : s.held t = [p]) (hmoves : Moves s s' t [])
    (hevs : ∀ ev ∈ evs, ev.Internal) (hcreated : createdObjects evs = [])
    (hended : endedObjects evs = [p.object]) (hnext : s'.nextObject = s.nextObject)
    (hinput : s'.inputBuffer = s.inputBuffer) (houtput : s'.outputBuffer = s.outputBuffer)
    (hbuffers : s'.egressBuffers = s.egressBuffers) : Flow prog clock s s' evs := by
  refine .work hmoves hevs (numbered_nil hnext hcreated) ?_ ?_ ?_ hinput houtput hbuffers
  · rw [ht, hcreated, hended, objects, objects, List.map_singleton, List.map_nil, Multiset.coe_nil,
      add_zero, zero_add]
  · intro q hq
    cases hq
  · intro port
    exact List.nil_sublist _

/-- What is enqueued, and whether there is room for it. -/
theorem enqueue_cases {port : ℕ} {egressBuffers : QueueingLogicRL pq}
    (h : s.enqueue prog env port p = some (evs, egressBuffers)) :
    ∃ (p' : SwitchPacket) (accepted : Bool), p.Descends p' ∧ p'.object = p.object ∧
      p'.egressPort = port ∧
      s.egressBuffers.pushFront port p' env.now = (.pushed accepted, egressBuffers) ∧
      evs = if accepted then
        ((s.egressBuffers.event (.push port p' env.now)
          (.pushed true)).map SwitchEvent.queue).toList
        else [.ended p'.object .queueFull] := by
  obtain ⟨p', hmap, h⟩ := Option.bind_eq_some_iff.mp h
  have hstays := SwitchPacket.stays_mapPhv hmap
  have hdescends : p.Descends p' :=
    ⟨hstays.packetId, hstays.ingressPort, hstays.ingressLength, hstays.capacity⟩
  split at h
  · rename_i bufs hpush
    obtain ⟨rfl, rfl⟩ := Prod.mk.inj (Option.some.inj h)
    exact ⟨p', true, hdescends, hstays.object, hstays.egressPort, hpush, rfl⟩
  · rename_i bufs hpush
    obtain ⟨rfl, rfl⟩ := Prod.mk.inj (Option.some.inj h)
    exact ⟨p', false, hdescends, hstays.object, hstays.egressPort, hpush, rfl⟩
  · cases h

/-- A thread that enqueues the copy it holds and goes on with its packet. -/
theorem Flow.enqueues {port : ℕ} (ht : s.held t = copy :: packets) (hmoves : Moves s s' t packets)
    (hsend : s.enqueue prog env port copy = some (evs, s'.egressBuffers))
    (hnext : s'.nextObject = s.nextObject) (hinput : s'.inputBuffer = s.inputBuffer)
    (houtput : s'.outputBuffer = s.outputBuffer) : Flow prog (some env.now) s s' evs := by
  obtain ⟨q, accepted, hdescends, hobject, hq, hpush, rfl⟩ := enqueue_cases hsend
  show Flow prog (some env.now) s s' ([] ++ _)
  refine .enqueue rfl hmoves (fun _ h => nomatch h) rfl (numbered_nil hnext rfl) ?_ ?_ ?_ hq hpush
    hinput houtput
  · rw [ht, objects, objects, List.map_cons, ← Multiset.cons_coe, hobject, createdObjects,
      List.filterMap_nil, Multiset.coe_nil, add_zero, add_comm, Multiset.singleton_add]
  · intro r hr
    rw [ht]
    obtain rfl | hr := List.mem_cons.mp hr
    · exact ⟨copy, List.mem_cons_self, hdescends⟩
    · exact ⟨r, List.mem_cons_of_mem _ hr, .refl r⟩
  · intro port'
    rw [ht]
    exact (((List.sublist_cons_self copy packets).filter _).map _)

/-! ### The steps -/

theorem receive_flow {portNum : ℕ} {buffer : List Byte}
    (h : s.receive prog env portNum buffer = some (evs, s')) : Flow prog clock s s' evs := by
  unfold receive at h
  split at h
  · cases h
  · rename_i hidle
    obtain ⟨p, hnew, h⟩ := Option.bind_eq_some_iff.mp h
    obtain ⟨rfl, rfl⟩ := Prod.mk.inj (Option.some.inj h)
    have hheld : s.held .receiver = [] := congrArg ReceiveThread.held hidle
    exact .receive hnew (moves_receiver rfl rfl rfl rfl) hheld rfl rfl rfl rfl

theorem receivePush_flow (h : s.receivePush = some (evs, s')) : Flow prog clock s s' evs := by
  unfold receivePush at h
  split at h
  · cases h
  · rename_i p hpushing
    split_ifs at h
    obtain ⟨rfl, rfl⟩ := Prod.mk.inj (Option.some.inj h)
    have hheld : s.held .receiver = [p] := congrArg ReceiveThread.held hpushing
    exact .pushInput hheld (moves_receiver rfl rfl rfl rfl) rfl rfl rfl rfl

theorem stays_parse (h : parse cast prog env p = some p') : p.Stays p' := by
  obtain ⟨pkt, hparse, h⟩ := Option.bind_eq_some_iff.mp h
  obtain rfl := Option.some.inj h
  obtain ⟨hbuffer, hlength⟩ := Parser.parse_buffer hparse
  exact ⟨⟨rfl, rfl, hlength, congrArg List.length hbuffer⟩, rfl, rfl⟩

theorem stays_deparse (h : deparse cast prog env p = some p') : p.Stays p' := by
  obtain ⟨⟨bytes, pkt⟩, hexec, h⟩ := Option.bind_eq_some_iff.mp h
  obtain rfl := Option.some.inj h
  obtain ⟨phv, -, hexec⟩ := Option.bind_eq_some_iff.mp hexec
  obtain ⟨pkt', hdeparse, hout⟩ := Option.bind_eq_some_iff.mp hexec
  obtain ⟨-, rfl⟩ := Prod.mk.inj (Option.some.inj hout)
  obtain ⟨hcapacity, hlength⟩ := @Deparser.deparse_buffer { headers := prog.deparserHeaders }
    { p.toPacket with phv } pkt' hdeparse
  exact ⟨⟨rfl, rfl, hlength, hcapacity⟩, rfl, rfl⟩

/-- The copy that the ingress thread makes. -/
theorem copyIngressPkt_spec {copyType : PktInstanceType} {fieldListId : ℕ}
    (h : s.copyIngressPkt prog env p copyType fieldListId = some copy) :
    p.Descends copy ∧ copy.object = s.nextObject ∧ copy.egressPort = -1 := by
  obtain ⟨_, -, h⟩ := Option.bind_eq_some_iff.mp h
  obtain ⟨_, -, h⟩ := Option.bind_eq_some_iff.mp h
  exact SwitchPacket.descends_cloneWith h

theorem ingressRun_flow (hs : s.ingress = .popped p)
    (h : s.ingressRun cast prog env p = some (evs, s')) : Flow prog (some env.now) s s' evs := by
  obtain ⟨parsed, hparse, h⟩ := Option.bind_eq_some_iff.mp h
  obtain ⟨rfl, rfl⟩ := Prod.mk.inj (Option.some.inj h)
  have hheld : s.held .ingress = [p] := congrArg IngressThread.held hs
  refine Flow.stays hheld (moves_ingress rfl rfl rfl rfl)
    ((stays_parse hparse).trans (SwitchPacket.stays_applied parsed env false)) ?_ rfl rfl rfl rfl
    rfl rfl
  intro ev hev
  rw [List.mem_singleton.mp hev]
  trivial

theorem ingressClone_flow {st : BufferState} (hs : s.ingress = .cloning p st)
    (h : s.ingressClone cast prog env p st = some (evs, s')) :
    Flow prog (some env.now) s s' evs := by
  have hheld : s.held .ingress = [p] := congrArg IngressThread.held hs
  obtain ⟨cloneSpec, -, h⟩ := Option.bind_eq_some_iff.mp h
  split_ifs at h with hzero
  · obtain ⟨rfl, rfl⟩ := Prod.mk.inj (Option.some.inj h)
    exact Flow.stays hheld (moves_ingress rfl rfl rfl rfl) (.refl p) (fun _ h => nomatch h) rfl rfl
      rfl rfl rfl rfl
  · obtain ⟨q, hq, h⟩ := Option.bind_eq_some_iff.mp h
    have hstays := SwitchPacket.stays_mapPhv hq
    split_ifs at h with hneg
    · obtain ⟨rfl, rfl⟩ := Prod.mk.inj (Option.some.inj h)
      exact Flow.stays hheld (moves_ingress rfl rfl rfl rfl) hstays (fun _ h => nomatch h) rfl rfl
        rfl rfl rfl rfl
    · obtain ⟨original, horiginal, h⟩ := Option.bind_eq_some_iff.mp h
      obtain ⟨copy, hcopy, h⟩ := Option.bind_eq_some_iff.mp h
      obtain ⟨parsed, hparse, h⟩ := Option.bind_eq_some_iff.mp h
      obtain ⟨rfl, rfl⟩ := Prod.mk.inj (Option.some.inj h)
      obtain ⟨hdescends, hobject, hport⟩ := copyIngressPkt_spec hcopy
      have hparsed := stays_parse hparse
      have horig := hstays.trans (SwitchPacket.stays_restored horiginal)
      refine Flow.copies hheld (moves_ingress rfl rfl rfl rfl) hstays
        (horig.toDescends.trans (hdescends.trans hparsed.toDescends))
        (hparsed.egressPort.trans hport) (hparsed.object.trans hobject) ?_ ?_ rfl rfl rfl rfl rfl
      · intro ev hev
        obtain rfl | rfl := List.mem_pair.mp hev <;> trivial
      · rw [hobject]
        rfl

theorem ingressForward_flow {st : BufferState} (hs : s.ingress = .forwarding p st)
    (h : s.ingressForward cast prog env p st = some (evs, s')) :
    Flow prog (some env.now) s s' evs := by
  have hheld : s.held .ingress = [p] := congrArg IngressThread.held hs
  obtain ⟨resubmit, -, h⟩ := Option.bind_eq_some_iff.mp h
  split_ifs at h with hresubmit
  · obtain ⟨original, horiginal, h⟩ := Option.bind_eq_some_iff.mp h
    obtain ⟨q, hq, h⟩ := Option.bind_eq_some_iff.mp h
    obtain ⟨copy, hcopy, h⟩ := Option.bind_eq_some_iff.mp h
    obtain ⟨rfl, rfl⟩ := Prod.mk.inj (Option.some.inj h)
    obtain ⟨hdescends, hobject, hport⟩ := copyIngressPkt_spec hcopy
    have hstays := (SwitchPacket.stays_restored horiginal).trans (SwitchPacket.stays_mapPhv hq)
    refine Flow.replaces hheld (moves_ingress rfl rfl rfl rfl) (hstays.toDescends.trans hdescends)
      hport hobject ?_ ?_ ?_ rfl rfl rfl rfl
    · intro ev hev
      obtain rfl | rfl := List.mem_pair.mp hev <;> trivial
    · rw [hobject]
      rfl
    · rw [hstays.object]
      rfl
  · obtain ⟨mgid, -, h⟩ := Option.bind_eq_some_iff.mp h
    split_ifs at h with hmgid
    · obtain ⟨_, -, h⟩ := Option.bind_eq_some_iff.mp h
      obtain ⟨preOut, -, h⟩ := Option.bind_eq_some_iff.mp h
      obtain ⟨rfl, rfl⟩ := Prod.mk.inj (Option.some.inj h)
      exact Flow.stays hheld (moves_ingress rfl rfl rfl rfl) (.refl p) (fun _ h => nomatch h) rfl
        rfl rfl rfl rfl rfl
    · obtain ⟨egressPort, -, h⟩ := Option.bind_eq_some_iff.mp h
      split_ifs at h with hdrop
      · obtain ⟨rfl, rfl⟩ := Prod.mk.inj (Option.some.inj h)
        refine Flow.ends hheld (moves_ingress rfl rfl rfl rfl) ?_ rfl rfl rfl rfl rfl rfl
        intro ev hev
        rw [List.mem_singleton.mp hev]
        trivial
      · obtain ⟨⟨evs', egressBuffers⟩, hsend, h⟩ := Option.bind_eq_some_iff.mp h
        obtain ⟨rfl, rfl⟩ := Prod.mk.inj (Option.some.inj h)
        exact Flow.enqueues hheld (moves_ingress rfl rfl rfl rfl) hsend rfl rfl rfl

theorem ingressReplicate_flow {preOut : List McOut} (hs : s.ingress = .replicating p preOut)
    (h : s.ingressReplicate prog env p preOut = some (evs, s')) :
    Flow prog (some env.now) s s' evs := by
  have hheld : s.held .ingress = [p] := congrArg IngressThread.held hs
  cases preOut with
  | nil =>
    obtain ⟨rfl, rfl⟩ := Prod.mk.inj (Option.some.inj h)
    refine Flow.ends hheld (moves_ingress rfl rfl rfl rfl) ?_ rfl rfl rfl rfl rfl rfl
    intro ev hev
    rw [List.mem_singleton.mp hev]
    trivial
  | cons out preOut =>
    obtain ⟨q, hq, h⟩ := Option.bind_eq_some_iff.mp h
    obtain ⟨copy, hcopy, h⟩ := Option.bind_eq_some_iff.mp h
    obtain ⟨⟨evs', egressBuffers⟩, hsend, h⟩ := Option.bind_eq_some_iff.mp h
    obtain ⟨rfl, rfl⟩ := Prod.mk.inj (Option.some.inj h)
    have hstays := SwitchPacket.stays_mapPhv hq
    obtain ⟨hdescends, hobject, -⟩ := SwitchPacket.descends_cloneWith hcopy
    obtain ⟨r, accepted, hr, hrobject, hport, hpush, rfl⟩ := enqueue_cases hsend
    have hp : p ∈ s.held .ingress := by
      rw [hheld]
      exact List.mem_singleton_self p
    show Flow prog (some env.now) s _ ([.created copy.object] ++ _)
    refine .enqueue rfl (@moves_ingress _ s _ [q] rfl rfl rfl rfl) ?_ rfl (numbered_one rfl ?_)
      ?_ ?_ ?_ hport hpush rfl rfl
    · intro ev hev
      rw [List.mem_singleton.mp hev]
      trivial
    · rw [hobject]
      rfl
    · rw [hheld, hrobject]
      simp [objects, createdObjects, SwitchEvent.createdObject, hstays.object]
    · intro x hx
      obtain rfl | rfl := List.mem_pair.mp hx
      · exact ⟨p, hp, hstays.toDescends.trans (hdescends.trans hr)⟩
      · exact ⟨p, hp, hstays.toDescends⟩
    · intro port
      rw [hheld, hstays.objectsFor]

theorem ingressStep_flow (h : s.ingressStep cast prog env = some (evs, s')) :
    Flow prog (some env.now) s s' evs := by
  unfold ingressStep at h
  split at h
  · rename_i hs
    obtain ⟨p, hlast, h⟩ := Option.bind_eq_some_iff.mp h
    obtain ⟨rfl, rfl⟩ := Prod.mk.inj (Option.some.inj h)
    have hheld : s.held .ingress = [] := congrArg IngressThread.held hs
    have hsplit := (List.dropLast_append_getLast? p (Option.mem_def.mpr hlast)).symm
    exact .popInput hheld (moves_ingress rfl rfl rfl rfl) rfl hsplit rfl rfl
  · rename_i p hs
    exact ingressRun_flow hs h
  · rename_i p st hs
    exact ingressClone_flow hs h
  · rename_i port copy p st hs
    obtain ⟨⟨evs', egressBuffers⟩, hsend, h⟩ := Option.bind_eq_some_iff.mp h
    obtain ⟨rfl, rfl⟩ := Prod.mk.inj (Option.some.inj h)
    have hheld : s.held .ingress = [copy, p] := congrArg IngressThread.held hs
    exact Flow.enqueues hheld (moves_ingress rfl rfl rfl rfl) hsend rfl rfl rfl
  · rename_i p st hs
    exact ingressForward_flow hs h
  · rename_i copy hs
    split_ifs at h
    obtain ⟨rfl, rfl⟩ := Prod.mk.inj (Option.some.inj h)
    have hheld : s.held .ingress = [copy] := congrArg IngressThread.held hs
    exact .pushInput hheld (moves_ingress rfl rfl rfl rfl) rfl rfl rfl rfl
  · rename_i p preOut hs
    exact ingressReplicate_flow hs h

theorem egressPop_flow (hs : s.egress[i]? = some .popping)
    (h : s.egressPop env i = some (evs, s')) : Flow prog (some env.now) s s' evs := by
  have hheld : s.held (.egress i) = [] := held_egress hs
  unfold egressPop at h
  split at h
  · rename_i port priority p egressBuffers hpop
    obtain ⟨rfl, rfl⟩ := Prod.mk.inj (Option.some.inj h)
    have hlt := (List.getElem?_eq_some_iff.mp hs).1
    exact .popEgress rfl hheld (moves_egress hs (.popped port p) rfl rfl rfl rfl) hlt hpop rfl rfl
      rfl
  · obtain ⟨rfl, rfl⟩ := Prod.mk.inj (Option.some.inj h)
    exact .config rfl rfl rfl rfl rfl (.inl rfl)
  · cases h

theorem egressClone_flow (hs : s.egress[i]? = some (.cloning p))
    (h : s.egressClone cast prog env i p = some (evs, s')) : Flow prog (some env.now) s s' evs := by
  have hheld : s.held (.egress i) = [p] := held_egress hs
  obtain ⟨cloneSpec, -, h⟩ := Option.bind_eq_some_iff.mp h
  have hgoesOn : Flow prog (some env.now) s (s.withEgress i (.deparsing p)) [] :=
    Flow.stays hheld (moves_egress hs (.deparsing p) rfl rfl rfl rfl) (.refl p)
      (fun _ h => nomatch h) rfl rfl rfl rfl rfl rfl
  split_ifs at h with hzero
  · obtain ⟨rfl, rfl⟩ := Prod.mk.inj (Option.some.inj h)
    exact hgoesOn
  dsimp only at h
  split_ifs at h with hneg
  · obtain ⟨rfl, rfl⟩ := Prod.mk.inj (Option.some.inj h)
    exact hgoesOn
  · obtain ⟨q, hq, h⟩ := Option.bind_eq_some_iff.mp h
    obtain ⟨_, -, h⟩ := Option.bind_eq_some_iff.mp h
    obtain ⟨_, -, h⟩ := Option.bind_eq_some_iff.mp h
    obtain ⟨copy, hcopy, h⟩ := Option.bind_eq_some_iff.mp h
    obtain ⟨rfl, rfl⟩ := Prod.mk.inj (Option.some.inj h)
    have hstays := SwitchPacket.stays_mapPhv hq
    obtain ⟨hdescends, hobject, hport⟩ := SwitchPacket.descends_cloneWith hcopy
    refine Flow.copies hheld (moves_egress hs (.enqueueingClone _ copy q) rfl rfl rfl rfl) hstays
      (hstays.toDescends.trans hdescends) hport hobject ?_ ?_ rfl rfl rfl rfl rfl
    · intro ev hev
      rw [List.mem_singleton.mp hev]
      trivial
    · rw [hobject]
      rfl

theorem egressDeparse_flow (hs : s.egress[i]? = some (.deparsing p))
    (h : s.egressDeparse cast prog env i p = some (evs, s')) :
    Flow prog (some env.now) s s' evs := by
  have hheld : s.held (.egress i) = [p] := held_egress hs
  obtain ⟨egressSpec, -, h⟩ := Option.bind_eq_some_iff.mp h
  split_ifs at h with hdrop
  · obtain ⟨rfl, rfl⟩ := Prod.mk.inj (Option.some.inj h)
    refine Flow.ends hheld (moves_egress hs .popping rfl rfl rfl rfl) ?_ rfl rfl rfl rfl rfl rfl
    intro ev hev
    rw [List.mem_singleton.mp hev]
    trivial
  · obtain ⟨q, hq, h⟩ := Option.bind_eq_some_iff.mp h
    have hstays := stays_deparse hq
    obtain ⟨recirc, -, h⟩ := Option.bind_eq_some_iff.mp h
    split_ifs at h with hrecirc
    · obtain ⟨rfl, rfl⟩ := Prod.mk.inj (Option.some.inj h)
      exact Flow.stays hheld (moves_egress hs (.sending q) rfl rfl rfl rfl) hstays
        (fun _ h => nomatch h) rfl rfl rfl rfl rfl rfl
    · obtain ⟨r, hr, h⟩ := Option.bind_eq_some_iff.mp h
      obtain ⟨_, -, h⟩ := Option.bind_eq_some_iff.mp h
      obtain ⟨_, -, h⟩ := Option.bind_eq_some_iff.mp h
      obtain ⟨copy, hcopy, h⟩ := Option.bind_eq_some_iff.mp h
      obtain ⟨rfl, rfl⟩ := Prod.mk.inj (Option.some.inj h)
      have hstays' := hstays.trans (SwitchPacket.stays_mapPhv hr)
      obtain ⟨hdescends, hobject, hport⟩ := SwitchPacket.descends_cloneWith hcopy
      refine Flow.replaces hheld (moves_egress hs (.recirculating copy) rfl rfl rfl rfl)
        (hstays'.toDescends.trans hdescends) hport hobject ?_ ?_ ?_ rfl rfl rfl rfl
      · intro ev hev
        simp only [List.mem_cons, List.not_mem_nil, or_false] at hev
        obtain rfl | rfl | rfl := hev <;> trivial
      · rw [hobject]
        rfl
      · rw [hstays'.object]
        rfl

theorem egressStep_flow (h : s.egressStep cast prog env i = some (evs, s')) :
    Flow prog (some env.now) s s' evs := by
  unfold egressStep at h
  split at h
  · cases h
  · rename_i hs
    exact egressPop_flow hs h
  · rename_i port p hs
    obtain ⟨q, hq, h⟩ := Option.bind_eq_some_iff.mp h
    obtain ⟨rfl, rfl⟩ := Prod.mk.inj (Option.some.inj h)
    have hstays := (SwitchPacket.stays_mapPhv hq).trans
      (SwitchPacket.stays_applied q env env.mau.markedForExit)
    exact Flow.stays (held_egress hs) (moves_egress hs (.cloning _) rfl rfl rfl rfl) hstays
      (fun _ h => nomatch h) rfl rfl rfl rfl rfl rfl
  · rename_i p hs
    exact egressClone_flow hs h
  · rename_i port copy p hs
    obtain ⟨⟨evs', egressBuffers⟩, hsend, h⟩ := Option.bind_eq_some_iff.mp h
    obtain ⟨rfl, rfl⟩ := Prod.mk.inj (Option.some.inj h)
    exact Flow.enqueues (held_egress hs) (moves_egress hs (.deparsing p) rfl rfl rfl rfl) hsend rfl
      rfl rfl
  · rename_i p hs
    exact egressDeparse_flow hs h
  · rename_i copy hs
    split_ifs at h
    obtain ⟨rfl, rfl⟩ := Prod.mk.inj (Option.some.inj h)
    exact .pushInput (held_egress hs) (moves_egress hs .popping rfl rfl rfl rfl) rfl rfl rfl rfl
  · rename_i p hs
    split_ifs at h
    obtain ⟨rfl, rfl⟩ := Prod.mk.inj (Option.some.inj h)
    exact .pushOutput (held_egress hs) (moves_egress hs .popping rfl rfl rfl rfl) rfl rfl rfl rfl

theorem transmitStep_flow (h : s.transmitStep = some (evs, s')) : Flow prog clock s s' evs := by
  unfold transmitStep at h
  split at h
  · rename_i hs
    obtain ⟨p, hlast, h⟩ := Option.bind_eq_some_iff.mp h
    obtain ⟨rfl, rfl⟩ := Prod.mk.inj (Option.some.inj h)
    have hheld : s.held .transmitter = [] := congrArg TransmitterThread.held hs
    have hsplit := (List.dropLast_append_getLast? p (Option.mem_def.mpr hlast)).symm
    exact .popOutput hheld (moves_transmitter rfl rfl rfl rfl) rfl rfl hsplit rfl
  · rename_i p hs
    obtain ⟨rfl, rfl⟩ := Prod.mk.inj (Option.some.inj h)
    have hheld : s.held .transmitter = [p] := congrArg TransmitterThread.held hs
    exact .transmit hheld (moves_transmitter rfl rfl rfl rfl) rfl rfl rfl rfl

theorem control_flow (s : SimpleSwitch pq) (op : ControlOp) :
    Flow prog clock s (s.control op) [] := by
  cases op with
  | setEgressQueueDepth port depthPkts =>
    exact .config rfl rfl rfl rfl rfl (.inr ⟨port, QueueInfo.withCapacity depthPkts,
      fun _ => ⟨rfl, rfl⟩, rfl⟩)
  | setEgressQueueRate port ratePps delay =>
    exact .config rfl rfl rfl rfl rfl (.inr ⟨port, QueueInfo.withRate ratePps delay,
      fun _ => ⟨rfl, rfl⟩, rfl⟩)
  | mirroringMappingAdd => exact .config rfl rfl rfl rfl rfl (.inl rfl)
  | mirroringMappingDelete => exact .config rfl rfl rfl rfl rfl (.inl rfl)
  | setPre => exact .config rfl rfl rfl rfl rfl (.inl rfl)

/-- Whoever does it, a step is a move. -/
theorem flow_of_step {op : Op} (h : s.step cast prog op = some (evs, s')) :
    Flow prog op.clock s s' evs := by
  cases op with
  | receive portNum buffer env => exact receive_flow h
  | receivePush => exact receivePush_flow h
  | ingress env => exact ingressStep_flow h
  | egress i env => exact egressStep_flow h
  | transmit => exact transmitStep_flow h
  | control op =>
    obtain ⟨rfl, rfl⟩ := Prod.mk.inj (Option.some.inj h)
    exact control_flow s op

end SimpleSwitch

end Bmv2
