import Bmv2.Switch.Accounting

/-! The room that a packet has for its headers. A received packet has 512 bytes in front of its
data, and every copy of it the same buffer size, also after it has been through the switch several
times; the deparser fails exactly if the headers do not fit into this. -/
namespace Bmv2
open ByteBits PriorityQueue UnorderedMap

namespace SimpleSwitch

variable {pq : PQ (QE SwitchPacket) QE.send} {cast : BignumCast} {prog : SwitchProgram}
  {s s' : SimpleSwitch pq} {H evs : List SwitchEvent} {op : Op} {clock : Option ℕ}
  {p p' : SwitchPacket}

/-- A packet is in a buffer, with a thread or in a queue. -/
inductive Inside (s : SimpleSwitch pq) (p : SwitchPacket) : Prop
  | input (h : p ∈ s.inputBuffer)
  | output (h : p ∈ s.outputBuffer)
  | held (t : Holder) (h : p ∈ s.held t)
  | queued (w : ℕ) {qe : QE SwitchPacket} (h : qe ∈ pq.contents (s.egressBuffers.view.heap w 0))
      (he : qe.e = p)

/-- What is in the heaps after a step was there before or has just been accepted. -/
theorem mem_contents_step {mapToWorker : ℕ → ℕ} {A A' : Lanes pq}
    {ev : Option (QueueEvent SwitchPacket)} (h : Lanes.Step mapToWorker A ev A') {w : ℕ}
    {qe : QE SwitchPacket} (hmem : qe ∈ pq.contents (A'.heap w 0)) :
    qe ∈ pq.contents (A.heap w 0) ∨ ∃ a, ev = some (.accepted a) ∧ a.item = qe.e := by
  cases h with
  | config hheap =>
    rw [hheap] at hmem
    exact .inl hmem
  | push q p item now _ _ hheap =>
    rw [hheap] at hmem
    split_ifs at hmem with hw
    · rw [pq.contents_push] at hmem
      obtain rfl | hmem := Multiset.mem_cons.mp hmem
      · exact .inr ⟨_, rfl, rfl⟩
      · rw [hw.1, hw.2]
        exact .inl hmem
    · exact .inl hmem
  | pop w' p now top htop _ _ hheap =>
    rw [hheap] at hmem
    split_ifs at hmem with hw
    · rw [hw.1, hw.2, pq.contents_of_top _ _ htop]
      exact .inl (Multiset.mem_cons_of_mem hmem)
    · exact .inl hmem

theorem Moves.descends {t : Holder} {packets : List SwitchPacket} (h : Moves s s' t packets)
    (hdescends : ∀ p' ∈ packets, ∃ p ∈ s.held t, p.Descends p') {t' : Holder}
    (hp : p' ∈ s'.held t') : ∃ p, Inside s p ∧ p.Descends p' := by
  rw [h.held] at hp
  by_cases ht : t' = t
  · rw [ht, Function.update_self] at hp
    obtain ⟨p, hmem, hdesc⟩ := hdescends p' hp
    exact ⟨p, .held t hmem, hdesc⟩
  · rw [Function.update_of_ne ht] at hp
    exact ⟨p', .held t' hp, .refl p'⟩

/-- The frame that a packet comes from, and the buffer that was made for it. -/
def FromFrame (H : List SwitchEvent) (p : SwitchPacket) (frame : List Byte) : Prop :=
  .arrived p.packetId p.ingressPort frame ∈ H ∧ p.ingressLength = frame.length ∧
    p.buffer.buffer.length = 512 + frame.length

theorem FromFrame.descends {frame : List Byte} (h : FromFrame H p frame) (hd : p.Descends p') :
    FromFrame H p' frame := by
  obtain ⟨harrived, hlength, hcapacity⟩ := h
  exact ⟨by rw [hd.packetId, hd.ingressPort]; exact harrived, hd.ingressLength.trans hlength,
    hd.capacity.trans hcapacity⟩

theorem FromFrame.mono {frame : List Byte} (h : FromFrame H p frame) :
    FromFrame (H ++ evs) p frame :=
  ⟨List.mem_append_left _ h.1, h.2⟩

theorem fromFrame_new {env : SwitchEnv} {portNum : ℕ} {bytes : List Byte}
    (h : s.newPacket prog env portNum bytes = some p) :
    FromFrame [.created p.object, .arrived p.packetId portNum bytes] p bytes := by
  obtain ⟨_, -, h⟩ := Option.bind_eq_some_iff.mp h
  obtain ⟨_, -, h⟩ := Option.bind_eq_some_iff.mp h
  obtain ⟨_, -, h⟩ := Option.bind_eq_some_iff.mp h
  obtain ⟨_, -, h⟩ := Option.bind_eq_some_iff.mp h
  obtain rfl := Option.some.inj h
  refine ⟨by simp, rfl, ?_⟩
  rw [PacketBuffer.ofData, List.length_append, List.length_map, List.length_range]

/-- A packet that is inside after a step descends from one that was inside, or was received. -/
theorem Flow.inside (h : Flow prog clock s s' evs) (hinv : BuffersInv s H) (hp : Inside s' p') :
    (∃ p, Inside s p ∧ p.Descends p') ∨ ∃ frame, FromFrame evs p' frame := by
  have hstays : Inside s p' → (∃ p, Inside s p ∧ p.Descends p') ∨ ∃ frame, FromFrame evs p' frame :=
    fun h => .inl ⟨p', h, .refl p'⟩
  cases hp with
  | queued w hmem he =>
    obtain ⟨ev, hstep, -, -, henqueued⟩ := h.lanes hinv
    obtain hmem | ⟨a, rfl, ha⟩ := mem_contents_step hstep hmem
    · exact hstays (.queued w hmem he)
    · obtain ⟨t, p, hheld, hdesc⟩ := henqueued.2.2.2
      exact .inl ⟨p, .held t hheld, he ▸ ha ▸ hdesc⟩
  | held t hmem =>
    cases h with
    | receive hnew hmoves =>
      by_cases ht : t = .receiver
      · rw [ht, hmoves.self, List.mem_singleton] at hmem
        rw [hmem]
        exact .inr ⟨_, fromFrame_new hnew⟩
      · rw [hmoves.other ht] at hmem
        exact hstays (.held t hmem)
    | work hmoves _ _ _ hdescends => exact .inl (hmoves.descends hdescends hmem)
    | pushInput _ hmoves => exact .inl (hmoves.descends (by simp) hmem)
    | @popInput p _ hmoves _ hinput =>
      by_cases ht : t = .ingress
      · rw [ht, hmoves.self, List.mem_singleton] at hmem
        exact hstays (.input (by simp [hinput, hmem]))
      · rw [hmoves.other ht] at hmem
        exact hstays (.held t hmem)
    | enqueue _ hmoves _ _ _ _ hdescends =>
      exact .inl (hmoves.descends (fun p' hp => hdescends p' (List.mem_cons_of_mem _ hp)) hmem)
    | @popEgress i port priority now p _ _ hmoves _ hpop =>
      by_cases ht : t = .egress i
      · rw [ht, hmoves.self, List.mem_singleton] at hmem
        obtain ⟨send, hev⟩ := popBack_event hpop
        obtain ⟨qe, htop, rfl, -⟩ := QueueingLogicRL.popBack_top hpop
        obtain ⟨-, hstep⟩ := QueueingLogicRL.popBack_lanes (hinv.mapToWorker.symm ▸ hinv.lanes) hpop
        rw [hev] at hstep
        cases hstep with
        | pop _ _ _ _ htop => exact hstays (.queued i (pq.top_mem htop) hmem.symm)
      · rw [hmoves.other ht] at hmem
        exact hstays (.held t hmem)
    | pushOutput _ hmoves => exact .inl (hmoves.descends (by simp) hmem)
    | @popOutput p _ hmoves _ _ houtput =>
      by_cases ht : t = .transmitter
      · rw [ht, hmoves.self, List.mem_singleton] at hmem
        exact hstays (.output (by simp [houtput, hmem]))
      · rw [hmoves.other ht] at hmem
        exact hstays (.held t hmem)
    | transmit _ hmoves => exact .inl (hmoves.descends (by simp) hmem)
    | config hheld =>
      rw [hheld] at hmem
      exact hstays (.held t hmem)
  | input hmem =>
    cases h with
    | @pushInput t p ht _ _ hinput =>
      rw [hinput] at hmem
      obtain rfl | hmem := List.mem_cons.mp hmem
      · exact hstays (.held t (by simp [ht]))
      · exact hstays (.input hmem)
    | popInput _ _ _ hinput => exact hstays (.input (by simp [hinput, hmem]))
    | receive _ _ _ _ hinput => exact hstays (.input (hinput ▸ hmem))
    | work _ _ _ _ _ _ hinput => exact hstays (.input (hinput ▸ hmem))
    | enqueue _ _ _ _ _ _ _ _ _ _ hinput => exact hstays (.input (hinput ▸ hmem))
    | popEgress _ _ _ _ _ _ hinput => exact hstays (.input (hinput ▸ hmem))
    | pushOutput _ _ _ hinput => exact hstays (.input (hinput ▸ hmem))
    | popOutput _ _ _ hinput => exact hstays (.input (hinput ▸ hmem))
    | transmit _ _ _ hinput => exact hstays (.input (hinput ▸ hmem))
    | config _ _ _ hinput => exact hstays (.input (hinput ▸ hmem))
  | output hmem =>
    cases h with
    | @pushOutput i p ht _ _ _ houtput =>
      rw [houtput] at hmem
      obtain rfl | hmem := List.mem_cons.mp hmem
      · exact hstays (.held (.egress i) (by simp [ht]))
      · exact hstays (.output hmem)
    | popOutput _ _ _ _ houtput => exact hstays (.output (by simp [houtput, hmem]))
    | receive _ _ _ _ _ houtput => exact hstays (.output (houtput ▸ hmem))
    | work _ _ _ _ _ _ _ houtput => exact hstays (.output (houtput ▸ hmem))
    | enqueue _ _ _ _ _ _ _ _ _ _ _ houtput => exact hstays (.output (houtput ▸ hmem))
    | popEgress _ _ _ _ _ _ _ houtput => exact hstays (.output (houtput ▸ hmem))
    | pushInput _ _ _ _ houtput => exact hstays (.output (houtput ▸ hmem))
    | popInput _ _ _ _ houtput => exact hstays (.output (houtput ▸ hmem))
    | transmit _ _ _ _ houtput => exact hstays (.output (houtput ▸ hmem))
    | config _ _ _ _ houtput => exact hstays (.output (houtput ▸ hmem))

theorem not_inside_create (maxPort now : ℕ) : ¬ Inside (create pq maxPort now) p := by
  intro hp
  cases hp with
  | queued w hmem he =>
    have hnone : pq.contents ((create pq maxPort now).egressBuffers.view.heap w 0) = 0 := by
      simp [create, QueueingLogicRL.create, QueueingLogicRL.view, pq.contents_empty]
    rw [hnone] at hmem
    exact Multiset.notMem_zero _ hmem
  | held t hmem =>
    rw [held_create] at hmem
    cases hmem
  | input hmem => cases hmem
  | output hmem => cases hmem

/-- Every packet in the switch comes from a frame, at any time and wherever it is. -/
theorem inside_fromFrame {maxPort now : ℕ} {ok : SimpleSwitch pq × List SwitchEvent → Op → Prop}
    (hrun : Transition.Reach (observed cast prog) ok (create pq maxPort now, []) (s, H))
    (hp : Inside s p) : ∃ frame, FromFrame H p frame := by
  have hinv := hrun.invariant (fun s => BuffersInv s.1 s.2 ∧
    ∀ p, Inside s.1 p → ∃ frame, FromFrame s.2 p frame)
    ⟨buffersInv_create maxPort now, fun p hp => absurd hp (not_inside_create maxPort now)⟩ ?_
  · exact hinv.2 p hp
  · rintro ⟨s, H⟩ op evs ⟨s', H'⟩ ⟨hbuffers, hinside⟩ - hs
    obtain ⟨⟨evs', t⟩, hstep, he⟩ := Option.map_eq_some_iff.mp hs
    cases he
    have hflow := flow_of_step hstep
    refine ⟨hbuffers.step hflow, fun p' hp' => ?_⟩
    obtain ⟨p, hp, hdesc⟩ | ⟨frame, hframe⟩ := hflow.inside hbuffers hp'
    · obtain ⟨frame, hframe⟩ := hinside p hp
      exact ⟨frame, (hframe.descends hdesc).mono⟩
    · exact ⟨frame, List.mem_append_right _ hframe.1, hframe.2⟩

/-- The headers that the deparser finds valid, after the checksums. -/
def headersOut (cast : BignumCast) (prog : SwitchProgram) (env : SwitchEnv) (p : SwitchPacket) :
    Option (List Header) := do
  let phv ← PacketOp.updateChecksums cast env.registerArrays p.toPacket prog.checksums
  ({ headers := prog.deparserHeaders } : Deparser).validHeaders phv

/-- The deparser needs the headers and the payload to fit into the buffer, and no more if the fields
of the headers have the bytes for their widths. -/
theorem isSome_deparse {env : SwitchEnv} {headers : List Header}
    (h : headersOut cast prog env p = some headers) :
    ((deparse cast prog env p).isSome →
      p.buffer.dataSize + Deparser.headersSize headers ≤ p.buffer.buffer.length) ∧
    ((∀ hdr ∈ headers, hdr.Whole) →
      p.buffer.dataSize + Deparser.headersSize headers ≤ p.buffer.buffer.length →
      (deparse cast prog env p).isSome) := by
  obtain ⟨phv, hphv, hvalid⟩ := Option.bind_eq_some_iff.mp h
  simp only [deparse, PacketOp.exec, hphv, Deparser.deparse, List.foldl_nil, hvalid,
    Packet.prepend, Option.bind_eq_bind, Option.bind_some]
  by_cases hroom : p.buffer.dataSize + Deparser.headersSize headers ≤ p.buffer.buffer.length
  · refine ⟨fun _ => hroom, fun hwhole _ => ?_⟩
    obtain ⟨b, hpush, hsize⟩ : ∃ b, p.buffer.push (Deparser.headersSize headers) = some b ∧
        b.dataSize = p.buffer.dataSize + Deparser.headersSize headers := ⟨_, dif_pos hroom, rfl⟩
    have hput := @Deparser.deparseHeaders_eq b.data headers hwhole (by
      rw [PacketBuffer.length_data, hsize]
      exact Nat.le_add_left _ _)
    obtain ⟨b', hwrite, -⟩ := PacketBuffer.write_eq_some hput
      (by rw [Deparser.length_putHeaders, PacketBuffer.length_data])
    simp [hpush, hwrite]
  · have hpush : p.buffer.push (Deparser.headersSize headers) = none := dif_neg hroom
    simp [hpush, hroom]

/-- A packet that comes from a frame of `n` bytes, however often it was cloned, resubmitted or
recirculated since, is deparsed only if its headers and its payload have at most `n + 512` bytes,
and is if these headers have fields with the bytes for their widths. -/
theorem deparse_room {maxPort now : ℕ} {env : SwitchEnv} {headers : List Header}
    (hrun : Transition.Reach (observed cast prog) (fun _ _ => True)
      (create pq maxPort now, []) (s, H)) (hp : Inside s p)
    (hheaders : headersOut cast prog env p = some headers) :
    ∃ frame, .arrived p.packetId p.ingressPort frame ∈ H ∧
      ((deparse cast prog env p).isSome →
        p.buffer.dataSize + Deparser.headersSize headers ≤ frame.length + 512) ∧
      ((∀ hdr ∈ headers, hdr.Whole) →
        p.buffer.dataSize + Deparser.headersSize headers ≤ frame.length + 512 →
        (deparse cast prog env p).isSome) := by
  obtain ⟨frame, harrived, -, hcapacity⟩ := inside_fromFrame hrun hp
  have hroom := @isSome_deparse cast prog p env headers hheaders
  rw [hcapacity, add_comm 512] at hroom
  exact ⟨frame, harrived, hroom⟩

/-- A packet on its way out. -/
theorem deparse_room_plain : ∃ (s : SimpleSwitch (binaryHeap (QE SwitchPacket) QE.send)) (H : _)
    (p : SwitchPacket), Transition.Reach (observed checkedCast plainProgram) (fun _ _ => True)
      (create _ 4 0, []) (s, H) ∧ s.held (.egress 2) = [p] ∧ p.buffer.data = [7, 8] ∧
    ∃ frame, .arrived p.packetId p.ingressPort frame ∈ H ∧
      (p.buffer.dataSize ≤ frame.length + 512 →
        (deparse checkedCast plainProgram {} p).isSome) := by
  have heval : ((Transition.runAll (observed checkedCast plainProgram) (fun _ _ => True)
      (create (binaryHeap (QE SwitchPacket) QE.send) 4 0, [])
      (throughIngress 2 0 [7, 8] ++ (throughEgress 2 0).take 3)).map fun s =>
        (s.1.held (.egress 2)).map (·.buffer.data)) = some [[7, 8]] := by
    decide +kernel
  obtain ⟨⟨s, H⟩, hrun, hs⟩ := Option.map_eq_some_iff.mp heval
  obtain ⟨p, hp, hdata⟩ := List.map_eq_singleton_iff.mp hs
  have hreach := Transition.Reach.of_runAll hrun
  have hinside : Inside s p := .held (.egress 2) (by simp [hp])
  have hheaders : headersOut checkedCast plainProgram {} p = some [] := rfl
  obtain ⟨frame, harrived, -, hroom⟩ := deparse_room hreach hinside hheaders
  exact ⟨s, H, p, hreach, hp, hdata, frame, harrived, hroom (List.forall_mem_nil _)⟩

end SimpleSwitch

end Bmv2
