import Bmv2.Switch.Accounting

/-! What the parser of `simple_switch.cpp` gets to see. The ingress thread keeps where the data of
a packet began, and goes back to it for an ingress clone and for a resubmitted packet, so that
each of them is parsed from the bytes that came in. -/
namespace Bmv2
open ByteBits PriorityQueue UnorderedMap

namespace SimpleSwitch

variable {pq : PQ (QE SwitchPacket) QE.send} {cast : BignumCast} {prog : SwitchProgram}
  {s s' : SimpleSwitch pq} {H evs : List SwitchEvent} {op : Op} {env : SwitchEnv}
  {p p' copy : SwitchPacket} {state : BufferState}

/-- The data of a packet are what has come in. -/
def Arrived (H : List SwitchEvent) (p : SwitchPacket) : Prop :=
  .arrived p.packetId p.ingressPort p.buffer.data ∈ H

/-- The data of a packet are what has come in, once the buffer is back in a state. -/
def ArrivedAt (H : List SwitchEvent) (p : SwitchPacket) (state : BufferState) : Prop :=
  ∀ p', p.restored state = some p' → Arrived H p'

/-- What the ingress thread needs of the packets that it holds. -/
def IngressArrived (H : List SwitchEvent) : IngressThread → Prop
  | .popping => True
  | .popped packet => Arrived H packet
  | .cloning packet packetInState => ArrivedAt H packet packetInState
  | .enqueueingClone _ _ packet packetInState => ArrivedAt H packet packetInState
  | .forwarding packet packetInState => ArrivedAt H packet packetInState
  | .resubmitting copy => Arrived H copy
  | .replicating _ _ => True

/-- What an egress thread needs of them. -/
def EgressArrived (H : List SwitchEvent) : EgressThread → Prop
  | .recirculating copy => Arrived H copy
  | _ => True

/-- All that goes to the parser is as it has come in. -/
structure ArrivedInv (s : SimpleSwitch pq) (H : List SwitchEvent) : Prop where
  input : ∀ p ∈ s.inputBuffer, Arrived H p
  receiver : ∀ p ∈ s.receiver.held, Arrived H p
  ingress : IngressArrived H s.ingress
  egress : ∀ thread ∈ s.egress, EgressArrived H thread
  parsed : ∀ packetId port bytes, .parsed packetId port bytes ∈ H →
    .arrived packetId port bytes ∈ H

theorem Arrived.mono (h : Arrived H p) : Arrived (H ++ evs) p := List.mem_append_left _ h

theorem ArrivedAt.mono (h : ArrivedAt H p state) : ArrivedAt (H ++ evs) p state :=
  fun p' hp => (h p' hp).mono

theorem IngressArrived.mono {thread : IngressThread} (h : IngressArrived H thread) :
    IngressArrived (H ++ evs) thread := by
  cases thread with
  | popping => trivial
  | popped packet => exact Arrived.mono h
  | cloning packet state => exact ArrivedAt.mono h
  | enqueueingClone port copy packet state => exact ArrivedAt.mono h
  | forwarding packet state => exact ArrivedAt.mono h
  | resubmitting copy => exact Arrived.mono h
  | replicating packet preOut => trivial

theorem EgressArrived.mono {thread : EgressThread} (h : EgressArrived H thread) :
    EgressArrived (H ++ evs) thread := by
  cases thread with
  | recirculating copy => exact Arrived.mono h
  | _ => trivial

/-- What holds of the rest of the switch while the ingress thread goes on. -/
theorem ArrivedInv.ingress_step (h : ArrivedInv s H) (hinput : s'.inputBuffer = s.inputBuffer)
    (hreceiver : s'.receiver = s.receiver) (hegress : s'.egress = s.egress)
    (hingress : IngressArrived (H ++ evs) s'.ingress)
    (hparsed : ∀ packetId port bytes, .parsed packetId port bytes ∈ evs →
      .arrived packetId port bytes ∈ H) : ArrivedInv s' (H ++ evs) where
  input p hp := (h.input p (hinput ▸ hp)).mono
  receiver p hp := (h.receiver p (hreceiver ▸ hp)).mono
  ingress := hingress
  egress thread ht := (h.egress thread (hegress ▸ ht)).mono
  parsed packetId port bytes hmem := by
    obtain hmem | hmem := List.mem_append.mp hmem
    · exact List.mem_append_left _ (h.parsed packetId port bytes hmem)
    · exact List.mem_append_left _ (hparsed packetId port bytes hmem)

/-- The buffer stays where it is while the packet is worked on. -/
theorem ArrivedAt.of_buffer (h : ArrivedAt H p state) (hstays : p.Stays p')
    (hbuffer : p'.buffer.buffer = p.buffer.buffer) : ArrivedAt H p' state := by
  intro q hq
  obtain ⟨buffer, hrestore, hq⟩ := Option.bind_eq_some_iff.mp hq
  obtain rfl := Option.some.inj hq
  have hrestore' : p.buffer.restoreState state = some buffer := by
    unfold PacketBuffer.restoreState at hrestore ⊢
    simp only [hbuffer] at hrestore
    exact hrestore
  have harrived := h { p with buffer } (by
    unfold SwitchPacket.restored
    rw [hrestore']
    rfl)
  unfold Arrived at harrived ⊢
  rw [hstays.packetId, hstays.ingressPort]
  exact harrived

/-- Where the data began before the parser ran. -/
theorem Arrived.saved (h : Arrived H p) (hstays : p.Stays p')
    (hbuffer : p'.buffer.buffer = p.buffer.buffer) : ArrivedAt H p' p.buffer.saveState := by
  refine ArrivedAt.of_buffer (fun q hq => ?_) hstays hbuffer
  obtain ⟨buffer, hrestore, hq⟩ := Option.bind_eq_some_iff.mp hq
  obtain rfl := Option.some.inj hq
  obtain ⟨hbuf, hhead⟩ := PacketBuffer.length_restoreState hrestore
  unfold Arrived PacketBuffer.data at h ⊢
  rw [hbuf, hhead]
  exact h

theorem cloneWith_data {object : ℕ} {phv : PHV} (h : p.cloneWith env object phv = some copy) :
    copy.buffer.data = p.buffer.data ∧ copy.packetId = p.packetId ∧
      copy.ingressPort = p.ingressPort := by
  obtain ⟨buffer, hclone, h⟩ := Option.bind_eq_some_iff.mp h
  obtain rfl := Option.some.inj h
  obtain ⟨buffer', hclone', hsame⟩ := PacketBuffer.sameData_clone p.buffer env.memory
  obtain rfl := Option.some.inj (hclone.symm.trans hclone')
  exact ⟨hsame.data.symm, rfl, rfl⟩

theorem Arrived.cloneWith {object : ℕ} {phv : PHV} (h : Arrived H p)
    (hcopy : p.cloneWith env object phv = some copy) : Arrived H copy := by
  obtain ⟨hdata, hid, hport⟩ := cloneWith_data hcopy
  unfold Arrived
  rw [hdata, hid, hport]
  exact h

theorem Arrived.copyIngressPkt {copyType : PktInstanceType} {fieldListId : ℕ} (h : Arrived H p)
    (hcopy : s.copyIngressPkt prog env p copyType fieldListId = some copy) : Arrived H copy := by
  obtain ⟨_, -, hcopy⟩ := Option.bind_eq_some_iff.mp hcopy
  obtain ⟨_, -, hcopy⟩ := Option.bind_eq_some_iff.mp hcopy
  exact h.cloneWith hcopy

theorem parse_sameBuffer (h : parse cast prog env p = some p') :
    p'.buffer.buffer = p.buffer.buffer := by
  obtain ⟨pkt, hparse, h⟩ := Option.bind_eq_some_iff.mp h
  obtain rfl := Option.some.inj h
  exact (Parser.parse_buffer hparse).1

/-! ### The steps -/

theorem ArrivedInv.ingressRun (h : ArrivedInv s H) (hs : s.ingress = .popped p)
    (hrun : s.ingressRun cast prog env p = some (evs, s')) : ArrivedInv s' (H ++ evs) := by
  obtain ⟨parsed, hparse, hrun⟩ := Option.bind_eq_some_iff.mp hrun
  obtain ⟨rfl, rfl⟩ := Prod.mk.inj (Option.some.inj hrun)
  have harrived : Arrived H p := by
    have hingress := h.ingress
    rw [hs] at hingress
    exact hingress
  have hstays := (stays_parse hparse).trans (SwitchPacket.stays_applied parsed env false)
  have hbuffer := parse_sameBuffer hparse
  refine h.ingress_step rfl rfl rfl ?_ ?_
  · exact harrived.mono.saved hstays hbuffer
  · intro packetId port bytes hmem
    obtain ⟨rfl, rfl, rfl⟩ := SwitchEvent.parsed.inj (List.mem_singleton.mp hmem)
    exact harrived

theorem ArrivedInv.ingressClone (h : ArrivedInv s H) (hs : s.ingress = .cloning p state)
    (hrun : s.ingressClone cast prog env p state = some (evs, s')) : ArrivedInv s' (H ++ evs) := by
  have hsaved : ArrivedAt H p state := by
    have hingress := h.ingress
    rw [hs] at hingress
    exact hingress
  obtain ⟨cloneSpec, -, hrun⟩ := Option.bind_eq_some_iff.mp hrun
  split_ifs at hrun with hzero
  · obtain ⟨rfl, rfl⟩ := Prod.mk.inj (Option.some.inj hrun)
    exact h.ingress_step rfl rfl rfl hsaved.mono fun _ _ _ hmem => nomatch hmem
  · obtain ⟨q, hq, hrun⟩ := Option.bind_eq_some_iff.mp hrun
    have hsaved' := hsaved.of_buffer (SwitchPacket.stays_mapPhv hq)
      (congrArg PacketBuffer.buffer (SwitchPacket.mapPhv_buffer hq))
    split_ifs at hrun with hneg
    · obtain ⟨rfl, rfl⟩ := Prod.mk.inj (Option.some.inj hrun)
      exact h.ingress_step rfl rfl rfl hsaved'.mono fun _ _ _ hmem => nomatch hmem
    · obtain ⟨original, horiginal, hrun⟩ := Option.bind_eq_some_iff.mp hrun
      obtain ⟨copy, hcopy, hrun⟩ := Option.bind_eq_some_iff.mp hrun
      obtain ⟨parsed, hparse, hrun⟩ := Option.bind_eq_some_iff.mp hrun
      obtain ⟨rfl, rfl⟩ := Prod.mk.inj (Option.some.inj hrun)
      have harrived := (hsaved' original horiginal).copyIngressPkt hcopy
      refine h.ingress_step rfl rfl rfl hsaved'.mono ?_
      intro packetId port bytes hmem
      obtain hmem | hmem := List.mem_pair.mp hmem
      · cases hmem
      · obtain ⟨rfl, rfl, rfl⟩ := SwitchEvent.parsed.inj hmem
        exact harrived

/-- An enqueued packet is not parsed. -/
theorem parsed_enqueue {port : ℕ} {egressBuffers : QueueingLogicRL pq} {packetId ingressPort : ℕ}
    {bytes : List Byte} (h : s.enqueue prog env port p = some (evs, egressBuffers)) :
    .parsed packetId ingressPort bytes ∉ evs := by
  obtain ⟨p', accepted, -, -, -, -, rfl⟩ := enqueue_cases h
  cases accepted with
  | true =>
    rw [if_pos rfl]
    cases s.egressBuffers.event (.push port p' env.now) (.pushed true) <;> simp
  | false => simp

theorem ArrivedInv.ingressForward (h : ArrivedInv s H) (hs : s.ingress = .forwarding p state)
    (hrun : s.ingressForward cast prog env p state = some (evs, s')) :
    ArrivedInv s' (H ++ evs) := by
  have hsaved : ArrivedAt H p state := by
    have hingress := h.ingress
    rw [hs] at hingress
    exact hingress
  obtain ⟨resubmit, -, hrun⟩ := Option.bind_eq_some_iff.mp hrun
  split_ifs at hrun with hresubmit
  · obtain ⟨original, horiginal, hrun⟩ := Option.bind_eq_some_iff.mp hrun
    obtain ⟨q, hq, hrun⟩ := Option.bind_eq_some_iff.mp hrun
    obtain ⟨copy, hcopy, hrun⟩ := Option.bind_eq_some_iff.mp hrun
    obtain ⟨rfl, rfl⟩ := Prod.mk.inj (Option.some.inj hrun)
    have hstays := SwitchPacket.stays_mapPhv hq
    have harrived : Arrived H q := by
      have horig := hsaved original horiginal
      unfold Arrived at horig ⊢
      rw [hstays.packetId, hstays.ingressPort, SwitchPacket.mapPhv_buffer hq]
      exact horig
    refine h.ingress_step rfl rfl rfl (harrived.copyIngressPkt hcopy).mono ?_
    intro packetId port bytes hmem
    simp at hmem
  · obtain ⟨mgid, -, hrun⟩ := Option.bind_eq_some_iff.mp hrun
    split_ifs at hrun with hmgid
    · obtain ⟨_, -, hrun⟩ := Option.bind_eq_some_iff.mp hrun
      obtain ⟨preOut, -, hrun⟩ := Option.bind_eq_some_iff.mp hrun
      obtain ⟨rfl, rfl⟩ := Prod.mk.inj (Option.some.inj hrun)
      exact h.ingress_step rfl rfl rfl trivial fun _ _ _ hmem => nomatch hmem
    · obtain ⟨egressPort, -, hrun⟩ := Option.bind_eq_some_iff.mp hrun
      split_ifs at hrun with hdrop
      · obtain ⟨rfl, rfl⟩ := Prod.mk.inj (Option.some.inj hrun)
        refine h.ingress_step rfl rfl rfl trivial ?_
        intro packetId port bytes hmem
        simp at hmem
      · obtain ⟨⟨evs', egressBuffers⟩, hsend, hrun⟩ := Option.bind_eq_some_iff.mp hrun
        obtain ⟨rfl, rfl⟩ := Prod.mk.inj (Option.some.inj hrun)
        exact h.ingress_step rfl rfl rfl trivial fun _ _ _ hmem =>
          absurd hmem (parsed_enqueue hsend)

theorem ArrivedInv.ingressReplicate {preOut : List McOut} (h : ArrivedInv s H)
    (hrun : s.ingressReplicate prog env p preOut = some (evs, s')) : ArrivedInv s' (H ++ evs) := by
  cases preOut with
  | nil =>
    obtain ⟨rfl, rfl⟩ := Prod.mk.inj (Option.some.inj hrun)
    refine h.ingress_step rfl rfl rfl trivial ?_
    intro packetId port bytes hmem
    simp at hmem
  | cons out preOut =>
    obtain ⟨q, -, hrun⟩ := Option.bind_eq_some_iff.mp hrun
    obtain ⟨copy, -, hrun⟩ := Option.bind_eq_some_iff.mp hrun
    obtain ⟨⟨evs', egressBuffers⟩, hsend, hrun⟩ := Option.bind_eq_some_iff.mp hrun
    obtain ⟨rfl, rfl⟩ := Prod.mk.inj (Option.some.inj hrun)
    refine h.ingress_step rfl rfl rfl trivial ?_
    intro packetId port bytes hmem
    obtain hmem | hmem := List.mem_cons.mp hmem
    · cases hmem
    · exact absurd hmem (parsed_enqueue hsend)

theorem ArrivedInv.ingressStep (h : ArrivedInv s H)
    (hrun : s.ingressStep cast prog env = some (evs, s')) : ArrivedInv s' (H ++ evs) := by
  unfold SimpleSwitch.ingressStep at hrun
  split at hrun
  · obtain ⟨p, hlast, hrun⟩ := Option.bind_eq_some_iff.mp hrun
    obtain ⟨rfl, rfl⟩ := Prod.mk.inj (Option.some.inj hrun)
    have hp := h.input p (List.mem_of_getLast? hlast)
    rw [List.append_nil]
    exact ⟨fun q hq => h.input q (List.dropLast_subset _ hq), h.receiver, hp, h.egress, h.parsed⟩
  · rename_i p hs
    exact h.ingressRun hs hrun
  · rename_i p state hs
    exact h.ingressClone hs hrun
  · rename_i port copy p state hs
    obtain ⟨⟨evs', egressBuffers⟩, hsend, hrun⟩ := Option.bind_eq_some_iff.mp hrun
    obtain ⟨rfl, rfl⟩ := Prod.mk.inj (Option.some.inj hrun)
    have hsaved : ArrivedAt H p state := by
      have hingress := h.ingress
      rw [hs] at hingress
      exact hingress
    exact h.ingress_step rfl rfl rfl hsaved.mono fun _ _ _ hmem =>
      absurd hmem (parsed_enqueue hsend)
  · rename_i p state hs
    exact h.ingressForward hs hrun
  · rename_i copy hs
    split_ifs at hrun
    obtain ⟨rfl, rfl⟩ := Prod.mk.inj (Option.some.inj hrun)
    have harrived : Arrived H copy := by
      have hingress := h.ingress
      rw [hs] at hingress
      exact hingress
    rw [List.append_nil]
    refine ⟨fun q hq => ?_, h.receiver, trivial, h.egress, h.parsed⟩
    obtain rfl | hq := List.mem_cons.mp hq
    · exact harrived
    · exact h.input q hq
  · exact h.ingressReplicate hrun

/-- What holds of the rest of the switch while an egress thread goes on. -/
theorem ArrivedInv.egress_step {i : ℕ} {thread : EgressThread} (h : ArrivedInv s H)
    (hinput : ∀ p ∈ s'.inputBuffer, Arrived (H ++ evs) p) (hreceiver : s'.receiver = s.receiver)
    (hingress : s'.ingress = s.ingress) (hegress : s'.egress = s.egress.set i thread)
    (hthread : EgressArrived (H ++ evs) thread)
    (hparsed : ∀ packetId port bytes, .parsed packetId port bytes ∉ evs) :
    ArrivedInv s' (H ++ evs) where
  input := hinput
  receiver p hp := (h.receiver p (hreceiver ▸ hp)).mono
  ingress := hingress ▸ h.ingress.mono
  egress t ht := by
    rw [hegress] at ht
    obtain hmem | rfl := List.mem_or_eq_of_mem_set ht
    · exact (h.egress t hmem).mono
    · exact hthread
  parsed packetId port bytes hmem := by
    obtain hmem | hmem := List.mem_append.mp hmem
    · exact List.mem_append_left _ (h.parsed packetId port bytes hmem)
    · exact absurd hmem (hparsed packetId port bytes)

theorem ArrivedInv.egressClone {i : ℕ} (h : ArrivedInv s H)
    (hrun : s.egressClone cast prog env i p = some (evs, s')) : ArrivedInv s' (H ++ evs) := by
  obtain ⟨cloneSpec, -, hrun⟩ := Option.bind_eq_some_iff.mp hrun
  have hinput : ∀ {evs}, ∀ q ∈ s.inputBuffer, Arrived (H ++ evs) q := fun q hq =>
    (h.input q hq).mono
  split_ifs at hrun with hzero
  · obtain ⟨rfl, rfl⟩ := Prod.mk.inj (Option.some.inj hrun)
    exact h.egress_step hinput rfl rfl rfl trivial fun _ _ _ hmem => nomatch hmem
  dsimp only at hrun
  split_ifs at hrun with hneg
  · obtain ⟨rfl, rfl⟩ := Prod.mk.inj (Option.some.inj hrun)
    exact h.egress_step hinput rfl rfl rfl trivial fun _ _ _ hmem => nomatch hmem
  · obtain ⟨q, -, hrun⟩ := Option.bind_eq_some_iff.mp hrun
    obtain ⟨_, -, hrun⟩ := Option.bind_eq_some_iff.mp hrun
    obtain ⟨_, -, hrun⟩ := Option.bind_eq_some_iff.mp hrun
    obtain ⟨copy, -, hrun⟩ := Option.bind_eq_some_iff.mp hrun
    obtain ⟨rfl, rfl⟩ := Prod.mk.inj (Option.some.inj hrun)
    refine h.egress_step hinput rfl rfl rfl trivial ?_
    intro packetId port bytes hmem
    simp at hmem

/-- A recirculated packet comes in with what has been deparsed of it. -/
theorem ArrivedInv.egressDeparse {i : ℕ} (h : ArrivedInv s H)
    (hrun : s.egressDeparse cast prog env i p = some (evs, s')) : ArrivedInv s' (H ++ evs) := by
  obtain ⟨egressSpec, -, hrun⟩ := Option.bind_eq_some_iff.mp hrun
  have hinput : ∀ {evs}, ∀ q ∈ s.inputBuffer, Arrived (H ++ evs) q := fun q hq =>
    (h.input q hq).mono
  split_ifs at hrun with hdrop
  · obtain ⟨rfl, rfl⟩ := Prod.mk.inj (Option.some.inj hrun)
    refine h.egress_step hinput rfl rfl rfl trivial ?_
    intro packetId port bytes hmem
    simp at hmem
  · obtain ⟨q, -, hrun⟩ := Option.bind_eq_some_iff.mp hrun
    obtain ⟨recirc, -, hrun⟩ := Option.bind_eq_some_iff.mp hrun
    split_ifs at hrun with hrecirc
    · obtain ⟨rfl, rfl⟩ := Prod.mk.inj (Option.some.inj hrun)
      exact h.egress_step hinput rfl rfl rfl trivial fun _ _ _ hmem => nomatch hmem
    · obtain ⟨r, -, hrun⟩ := Option.bind_eq_some_iff.mp hrun
      obtain ⟨_, -, hrun⟩ := Option.bind_eq_some_iff.mp hrun
      obtain ⟨_, -, hrun⟩ := Option.bind_eq_some_iff.mp hrun
      obtain ⟨copy, -, hrun⟩ := Option.bind_eq_some_iff.mp hrun
      obtain ⟨rfl, rfl⟩ := Prod.mk.inj (Option.some.inj hrun)
      refine h.egress_step hinput rfl rfl rfl (List.mem_append_right H (by simp)) ?_
      intro packetId port bytes hmem
      simp at hmem

theorem ArrivedInv.egressStep {i : ℕ} (h : ArrivedInv s H)
    (hrun : s.egressStep cast prog env i = some (evs, s')) : ArrivedInv s' (H ++ evs) := by
  have hinput : ∀ {evs}, ∀ q ∈ s.inputBuffer, Arrived (H ++ evs) q := fun q hq =>
    (h.input q hq).mono
  unfold SimpleSwitch.egressStep at hrun
  split at hrun
  · cases hrun
  · unfold egressPop at hrun
    split at hrun
    · rename_i port priority p egressBuffers hpop
      obtain ⟨rfl, rfl⟩ := Prod.mk.inj (Option.some.inj hrun)
      refine h.egress_step hinput rfl rfl rfl trivial fun packetId port' bytes => ?_
      cases s.egressBuffers.event (.pop i env.now) (.popped port priority p) <;> simp
    · obtain ⟨rfl, rfl⟩ := Prod.mk.inj (Option.some.inj hrun)
      rw [List.append_nil]
      exact h
    · cases hrun
  · obtain ⟨q, -, hrun⟩ := Option.bind_eq_some_iff.mp hrun
    obtain ⟨rfl, rfl⟩ := Prod.mk.inj (Option.some.inj hrun)
    exact h.egress_step hinput rfl rfl rfl trivial fun _ _ _ hmem => nomatch hmem
  · exact h.egressClone hrun
  · obtain ⟨⟨evs', egressBuffers⟩, hsend, hrun⟩ := Option.bind_eq_some_iff.mp hrun
    obtain ⟨rfl, rfl⟩ := Prod.mk.inj (Option.some.inj hrun)
    exact h.egress_step hinput rfl rfl rfl trivial fun _ _ _ => parsed_enqueue hsend
  · exact h.egressDeparse hrun
  · rename_i copy hs
    split_ifs at hrun
    obtain ⟨rfl, rfl⟩ := Prod.mk.inj (Option.some.inj hrun)
    have harrived : Arrived H copy := h.egress _ (List.mem_of_getElem? hs)
    refine h.egress_step (fun q hq => ?_) rfl rfl rfl trivial fun _ _ _ hmem => nomatch hmem
    obtain rfl | hq := List.mem_cons.mp hq
    · exact harrived.mono
    · exact hinput q hq
  · split_ifs at hrun
    obtain ⟨rfl, rfl⟩ := Prod.mk.inj (Option.some.inj hrun)
    exact h.egress_step hinput rfl rfl rfl trivial fun _ _ _ hmem => nomatch hmem

theorem ArrivedInv.receive {portNum : ℕ} {bytes : List Byte} (h : ArrivedInv s H)
    (hrun : s.receive prog env portNum bytes = some (evs, s')) : ArrivedInv s' (H ++ evs) := by
  unfold SimpleSwitch.receive at hrun
  split at hrun
  · cases hrun
  · obtain ⟨p, hnew, hrun⟩ := Option.bind_eq_some_iff.mp hrun
    obtain ⟨rfl, rfl⟩ := Prod.mk.inj (Option.some.inj hrun)
    refine ⟨fun q hq => (h.input q hq).mono, fun q hq => ?_, h.ingress.mono,
      fun thread ht => (h.egress thread ht).mono, fun packetId port data hmem => ?_⟩
    · obtain rfl := List.mem_singleton.mp hq
      obtain ⟨_, -, hnew⟩ := Option.bind_eq_some_iff.mp hnew
      obtain ⟨_, -, hnew⟩ := Option.bind_eq_some_iff.mp hnew
      obtain ⟨_, -, hnew⟩ := Option.bind_eq_some_iff.mp hnew
      obtain ⟨_, -, hnew⟩ := Option.bind_eq_some_iff.mp hnew
      obtain rfl := Option.some.inj hnew
      refine List.mem_append_right H ?_
      simp [PacketBuffer.ofData, PacketBuffer.data]
    · obtain hmem | hmem := List.mem_append.mp hmem
      · exact List.mem_append_left _ (h.parsed packetId port data hmem)
      · simp at hmem

theorem ArrivedInv.step (h : ArrivedInv s H) (hs : s.step cast prog op = some (evs, s')) :
    ArrivedInv s' (H ++ evs) := by
  cases op with
  | receive portNum buffer env => exact h.receive hs
  | receivePush =>
    have hrun : s.receivePush = some (evs, s') := hs
    unfold receivePush at hrun
    split at hrun
    · cases hrun
    · rename_i p hpushing
      split_ifs at hrun
      obtain ⟨rfl, rfl⟩ := Prod.mk.inj (Option.some.inj hrun)
      have harrived := h.receiver p (by rw [hpushing]; exact List.mem_singleton_self p)
      rw [List.append_nil]
      refine ⟨fun q hq => ?_, (fun q hq => nomatch hq), h.ingress, h.egress, h.parsed⟩
      obtain rfl | hq := List.mem_cons.mp hq
      · exact harrived
      · exact h.input q hq
  | ingress env => exact h.ingressStep hs
  | egress i env => exact h.egressStep hs
  | transmit =>
    have hrun : s.transmitStep = some (evs, s') := hs
    unfold transmitStep at hrun
    split at hrun
    · obtain ⟨p, -, hrun⟩ := Option.bind_eq_some_iff.mp hrun
      obtain ⟨rfl, rfl⟩ := Prod.mk.inj (Option.some.inj hrun)
      rw [List.append_nil]
      exact ⟨h.input, h.receiver, h.ingress, h.egress, h.parsed⟩
    · obtain ⟨rfl, rfl⟩ := Prod.mk.inj (Option.some.inj hrun)
      refine ⟨fun q hq => (h.input q hq).mono, fun q hq => (h.receiver q hq).mono, h.ingress.mono,
        fun thread ht => (h.egress thread ht).mono, fun packetId port bytes hmem => ?_⟩
      obtain hmem | hmem := List.mem_append.mp hmem
      · exact List.mem_append_left _ (h.parsed packetId port bytes hmem)
      · simp at hmem
  | control op =>
    obtain ⟨rfl, rfl⟩ := Prod.mk.inj (Option.some.inj hs)
    rw [List.append_nil]
    cases op <;> exact ⟨h.input, h.receiver, h.ingress, h.egress, h.parsed⟩

theorem arrivedInv_create (maxPort now : ℕ) : ArrivedInv (create pq maxPort now) [] where
  input p hp := nomatch hp
  receiver p hp := nomatch hp
  ingress := trivial
  egress thread ht := by
    rw [List.eq_of_mem_replicate ht]
    trivial
  parsed packetId port bytes hmem := nomatch hmem

/-- Whatever the tables have made of a packet, its clones and its resubmissions: the parser of the
ingress thread is run only on bytes that have come in, from a port or by recirculation, for the
same packet id. -/
theorem parsed_arrived {maxPort now : ℕ} (hrun : Transition.Reach (observed cast prog)
    (fun _ _ => True) (create pq maxPort now, []) (s, H)) (packetId port : ℕ) (bytes : List Byte)
    (hparsed : .parsed packetId port bytes ∈ H) : .arrived packetId port bytes ∈ H := by
  have hinv := hrun.invariant (fun s => ArrivedInv s.1 s.2) (arrivedInv_create maxPort now) ?_
  · exact hinv.parsed packetId port bytes hparsed
  · rintro ⟨s, H⟩ op evs ⟨s', H'⟩ h - hs
    obtain ⟨⟨evs', t⟩, hstep, he⟩ := Option.map_eq_some_iff.mp hs
    cases he
    exact h.step hstep

/-- What the parser was run on. -/
def parsedBytes : SwitchEvent → Option (ℕ × ℕ × List Byte)
  | .parsed packetId ingressPort bytes => some (packetId, ingressPort, bytes)
  | _ => none

theorem parsed_mem {packetId port : ℕ} {bytes : List Byte}
    (h : (packetId, port, bytes) ∈ H.filterMap parsedBytes) : .parsed packetId port bytes ∈ H := by
  obtain ⟨ev, hev, heq⟩ := List.mem_filterMap.mp h
  cases ev <;> cases heq
  exact hev

/-- A program that extracts a header of one byte. -/
def extractProgram : SwitchProgram :=
  { plainProgram with
    config := { headers := plainHeaders, fieldLists := [(0, [])] }
    parser := { parseStates := [{ parserOps := [.extract 1] }], initState := some 0 } }

/-- Its PHV, with a clone specification that the tables have set. -/
def extractPhv (cloneSpec : ℤ) : PHV :=
  let fields := (List.replicate 6 { nbits := 16 } : List Field)
  { headers := [
      { fields := fields.modify 4 (·.set cloneSpec), metadata := true, nbytesPacket := 12 },
      { fields := [{ nbits := 8 }], nbytesPacket := 1 }] }

def extractEnv (cloneSpec : ℤ) : SwitchEnv :=
  { pooled := extractPhv 0, fuel := 1, mau := { phv := extractPhv cloneSpec } }

/-- A packet and its ingress clone are parsed from the same bytes, although the parser has taken
the first of them away. -/
theorem parsed_arrived_clone : ∃ (s : SimpleSwitch (binaryHeap (QE SwitchPacket) QE.send)) (H : _),
    Transition.Reach (observed checkedCast extractProgram) (fun _ _ => True)
      (create _ 4 0, []) (s, H) ∧
    H.filterMap parsedBytes = [(0, 1, [7, 8]), (0, 1, [7, 8])] ∧
    s.ingress.held.map (·.buffer.data) = [[8], [8]] ∧ .arrived 0 1 [7, 8] ∈ H := by
  have heval : ((Transition.runAll (observed checkedCast extractProgram) (fun _ _ => True)
      (create (binaryHeap (QE SwitchPacket) QE.send) 4 0, [])
      (.control (.mirroringMappingAdd 5 3) :: .receive 1 [7, 8] (extractEnv 0) :: .receivePush ::
        List.replicate 3 (.ingress (extractEnv 5)))).map fun s =>
        (s.2.filterMap parsedBytes, s.1.ingress.held.map (·.buffer.data))) =
      some ([(0, 1, [7, 8]), (0, 1, [7, 8])], [[8], [8]]) := by
    decide +kernel
  obtain ⟨⟨s, H⟩, hrun, hs⟩ := Option.map_eq_some_iff.mp heval
  obtain ⟨hparsed, hdata⟩ := Prod.mk.inj hs
  have hreach := Transition.Reach.of_runAll hrun
  refine ⟨s, H, hreach, hparsed, hdata, parsed_arrived hreach 0 1 [7, 8] (parsed_mem ?_)⟩
  rw [hparsed]
  exact List.mem_cons_self

end SimpleSwitch

end Bmv2
