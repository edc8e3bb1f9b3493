import Bmv2.Switch.SimpleSwitch
import Mathlib.Logic.Function.Basic

/-! How packets move through `simple_switch.cpp`, whatever is in them: between the threads, which
hold at most a packet and a copy of it, and the buffers. Every step of the switch is one of nine
kinds of moves. -/
namespace Bmv2
open ByteBits PriorityQueue UnorderedMap

/-- What stays of a packet from one step to the next, and in its copies. -/
structure SwitchPacket.Descends (p p' : SwitchPacket) : Prop where
  packetId : p'.packetId = p.packetId
  ingressPort : p'.ingressPort = p.ingressPort
  ingressLength : p'.ingressLength = p.ingressLength
  capacity : p'.buffer.buffer.length = p.buffer.buffer.length

/-- The same object, on its way to the same port. -/
structure SwitchPacket.Stays (p p' : SwitchPacket) : Prop extends p.Descends p' where
  object : p'.object = p.object
  egressPort : p'.egressPort = p.egressPort

namespace PacketBuffer

variable {b b' : PacketBuffer} {n : ℕ}

theorem length_push (h : b.push n = some b') : b'.buffer.length = b.buffer.length := by
  unfold push at h
  split_ifs at h
  obtain rfl := Option.some.inj h
  rfl

theorem length_clone {memory : ℕ → Byte} (h : b.clone memory n = some b') :
    b'.buffer.length = b.buffer.length := by
  unfold clone at h
  split_ifs at h with hle
  obtain rfl := Option.some.inj h
  have hadd := b.head_add
  rw [List.length_append, List.length_map, List.length_range, List.length_drop]
  omega

theorem length_restoreState {state : BufferState} (h : b.restoreState state = some b') :
    b'.buffer = b.buffer ∧ b'.head = state.head := by
  unfold restoreState at h
  split_ifs at h
  obtain rfl := Option.some.inj h
  exact ⟨rfl, rfl⟩

end PacketBuffer

namespace SwitchPacket

variable {p p' p'' : SwitchPacket} {cast : BignumCast} {prog : SwitchProgram} {env : SwitchEnv}

theorem Descends.refl (p : SwitchPacket) : p.Descends p := ⟨rfl, rfl, rfl, rfl⟩

theorem Stays.refl (p : SwitchPacket) : p.Stays p := ⟨.refl p, rfl, rfl⟩

theorem Descends.trans (h : p.Descends p') (h' : p'.Descends p'') : p.Descends p'' :=
  ⟨h'.packetId.trans h.packetId, h'.ingressPort.trans h.ingressPort,
    h'.ingressLength.trans h.ingressLength, h'.capacity.trans h.capacity⟩

theorem Stays.trans (h : p.Stays p') (h' : p'.Stays p'') : p.Stays p'' :=
  ⟨h.toDescends.trans h'.toDescends, h'.object.trans h.object,
    h'.egressPort.trans h.egressPort⟩

theorem stays_mapPhv {fn : PHV → Option PHV} (h : p.mapPhv fn = some p') : p.Stays p' := by
  obtain ⟨phv, -, h⟩ := Option.bind_eq_some_iff.mp h
  obtain rfl := Option.some.inj h
  exact ⟨⟨rfl, rfl, rfl, rfl⟩, rfl, rfl⟩

theorem mapPhv_buffer {fn : PHV → Option PHV} (h : p.mapPhv fn = some p') :
    p'.buffer = p.buffer := by
  obtain ⟨phv, -, h⟩ := Option.bind_eq_some_iff.mp h
  obtain rfl := Option.some.inj h
  rfl

theorem stays_applied (p : SwitchPacket) (env : SwitchEnv) (marked : Bool) :
    p.Stays (p.applied env marked) := ⟨⟨rfl, rfl, rfl, rfl⟩, rfl, rfl⟩

theorem descends_cloneWith {object : ℕ} {phv : PHV}
    (h : p.cloneWith env object phv = some p') :
    p.Descends p' ∧ p'.object = object ∧ p'.egressPort = -1 := by
  obtain ⟨buffer, hclone, h⟩ := Option.bind_eq_some_iff.mp h
  obtain rfl := Option.some.inj h
  exact ⟨⟨rfl, rfl, rfl, PacketBuffer.length_clone hclone⟩, rfl, rfl⟩

theorem stays_restored {state : BufferState} (h : p.restored state = some p') : p.Stays p' := by
  obtain ⟨buffer, hbuf, h⟩ := Option.bind_eq_some_iff.mp h
  obtain rfl := Option.some.inj h
  exact ⟨⟨rfl, rfl, rfl, congrArg List.length (PacketBuffer.length_restoreState hbuf).1⟩, rfl, rfl⟩

end SwitchPacket

theorem Packet.remove_buffer {pkt pkt' : Packet} {n : ℕ} (h : pkt.remove n = some pkt') :
    pkt'.buffer.buffer = pkt.buffer.buffer ∧ pkt'.ingressLength = pkt.ingressLength := by
  unfold Packet.remove at h
  split_ifs at h
  obtain ⟨buffer, hpop, h⟩ := Option.bind_eq_some_iff.mp h
  obtain rfl := Option.some.inj h
  unfold PacketBuffer.pop at hpop
  split_ifs at hpop
  obtain rfl := Option.some.inj hpop
  exact ⟨rfl, rfl⟩

/-- Parsing leaves the bytes where they are: it moves the head of the buffer. -/
theorem Parser.parse_buffer {cast : BignumCast} {registerArrays : List (List ℤ)} {p : Parser}
    {fuel : ℕ} {pkt pkt' : Packet} (h : p.parse cast registerArrays fuel pkt = some pkt') :
    pkt'.buffer.buffer = pkt.buffer.buffer ∧ pkt'.ingressLength = pkt.ingressLength := by
  unfold Parser.parse at h
  split at h
  · obtain rfl := Option.some.inj h
    exact ⟨rfl, rfl⟩
  · obtain ⟨⟨phv, bytesParsed⟩, -, h⟩ := Option.bind_eq_some_iff.mp h
    exact @Packet.remove_buffer { pkt with phv } pkt' _ h

/-- Deparsing writes in front of the data, in the same buffer. -/
theorem Deparser.deparse_buffer {d : Deparser} {pkt pkt' : Packet}
    (h : d.deparse pkt = some pkt') :
    pkt'.buffer.buffer.length = pkt.buffer.buffer.length ∧
      pkt'.ingressLength = pkt.ingressLength := by
  obtain ⟨headers, -, h⟩ := Option.bind_eq_some_iff.mp h
  obtain ⟨pkt₁, hprepend, h⟩ := Option.bind_eq_some_iff.mp h
  obtain ⟨buffer, hpush, hprepend⟩ := Option.bind_eq_some_iff.mp hprepend
  obtain rfl := Option.some.inj hprepend
  obtain ⟨buffer', hwrite, h⟩ := Option.bind_eq_some_iff.mp h
  obtain rfl := Option.some.inj h
  exact ⟨(PacketBuffer.length_write hwrite).trans (PacketBuffer.length_push hpush), rfl⟩

namespace ReceiveThread

def held : ReceiveThread → List SwitchPacket
  | idle => []
  | pushing packet => [packet]

end ReceiveThread

namespace IngressThread

def held : IngressThread → List SwitchPacket
  | popping => []
  | popped packet => [packet]
  | cloning packet _ => [packet]
  | enqueueingClone _ copy packet _ => [copy, packet]
  | forwarding packet _ => [packet]
  | resubmitting copy => [copy]
  | replicating packet _ => [packet]

end IngressThread

namespace EgressThread

def held : EgressThread → List SwitchPacket
  | popping => []
  | popped _ packet => [packet]
  | cloning packet => [packet]
  | enqueueingClone _ copy packet => [copy, packet]
  | deparsing packet => [packet]
  | recirculating copy => [copy]
  | sending packet => [packet]

end EgressThread

namespace TransmitterThread

def held : TransmitterThread → List SwitchPacket
  | popping => []
  | transmitting packet => [packet]

end TransmitterThread

namespace SwitchEvent

def createdObject : SwitchEvent → Option ℕ
  | created object => some object
  | _ => none

def endedObject : SwitchEvent → Option ℕ
  | ended object _ => some object
  | _ => none

def queueEvent : SwitchEvent → Option (QueueEvent SwitchPacket)
  | queue ev => some ev
  | _ => none

/-- The object that is sent out of a port. -/
def transmittedOn (port : ℕ) : SwitchEvent → Option ℕ
  | transmitted object egressPort _ => if egressPort = port then some object else none
  | _ => none

/-- Neither a queue nor the output is concerned. -/
def Internal : SwitchEvent → Prop
  | queue _ => False
  | transmitted _ _ _ => False
  | _ => True

end SwitchEvent

/-- Who holds packets that are in no buffer. -/
inductive Holder where
  | receiver
  | ingress
  | egress (i : ℕ)
  | transmitter
  deriving DecidableEq

/-- The objects on the way to a port. -/
def objectsFor (port : ℕ) (packets : List SwitchPacket) : List ℕ :=
  (packets.filter fun p => p.egressPort = (port : ℤ)).map (·.object)

/-- A copy that has not been enqueued is on the way to no port. -/
theorem objectsFor_of_neg (port : ℕ) {p : SwitchPacket} (hp : p.egressPort = -1)
    (packets : List SwitchPacket) : objectsFor port (p :: packets) = objectsFor port packets := by
  have hne : ¬ p.egressPort = (port : ℤ) := by omega
  unfold objectsFor
  rw [List.filter_cons_of_neg (by simpa using hne)]

theorem SwitchPacket.Stays.objectsFor {p p' : SwitchPacket} (h : p.Stays p') (port : ℕ)
    (packets : List SwitchPacket) : objectsFor port (p' :: packets) =
      objectsFor port (p :: packets) := by
  unfold Bmv2.objectsFor
  by_cases hp : p.egressPort = (port : ℤ)
  · have hp' := h.egressPort.trans hp
    rw [List.filter_cons_of_pos (by simpa using hp'), List.filter_cons_of_pos (by simpa using hp),
      List.map_cons, List.map_cons, h.object]
  · have hp' : ¬ p'.egressPort = (port : ℤ) := fun h' => hp (h.egressPort.symm.trans h')
    rw [List.filter_cons_of_neg (by simpa using hp'), List.filter_cons_of_neg (by simpa using hp)]

namespace SimpleSwitch

variable {pq : PQ (QE SwitchPacket) QE.send}

def held (s : SimpleSwitch pq) : Holder → List SwitchPacket
  | .receiver => s.receiver.held
  | .ingress => s.ingress.held
  | .egress i => (s.egress[i]?.map EgressThread.held).getD []
  | .transmitter => s.transmitter.held

/-- The objects of some packets. -/
def objects (packets : List SwitchPacket) : Multiset ℕ := (packets.map (·.object) : List ℕ)

def createdObjects (evs : List SwitchEvent) : List ℕ := evs.filterMap SwitchEvent.createdObject

def endedObjects (evs : List SwitchEvent) : List ℕ := evs.filterMap SwitchEvent.endedObject

/-- Two states between which only the thread `t` has moved, and holds `packets` now. -/
structure Moves (s s' : SimpleSwitch pq) (t : Holder) (packets : List SwitchPacket) : Prop where
  held : s'.held = Function.update s.held t packets
  threads : s'.egress.length = s.egress.length

/-- The new packets of a step are numbered. -/
structure Numbered (s s' : SimpleSwitch pq) (evs : List SwitchEvent) : Prop where
  created : createdObjects evs = List.range' s.nextObject (s'.nextObject - s.nextObject)
  mono : s.nextObject ≤ s'.nextObject

/-- The clock reading of a step that may access the egress buffers. -/
def Op.clock : Op → Option ℕ
  | .ingress env => some env.now
  | .egress _ env => some env.now
  | _ => none

/-- The kinds of moves, for a step that may have read the clock. -/
inductive Flow (prog : SwitchProgram) (clock : Option ℕ) (s s' : SimpleSwitch pq) :
    List SwitchEvent → Prop
  /-- A packet is received. -/
  | receive {env : SwitchEnv} {portNum : ℕ} {bytes : List Byte} {p : SwitchPacket}
      (hnew : s.newPacket prog env portNum bytes = some p) (hmoves : Moves s s' .receiver [p])
      (hidle : s.held .receiver = []) (hnext : s'.nextObject = s.nextObject + 1)
      (hinput : s'.inputBuffer = s.inputBuffer) (houtput : s'.outputBuffer = s.outputBuffer)
      (hbuffers : s'.egressBuffers = s.egressBuffers) :
      Flow prog clock s s' [.created p.object, .arrived p.packetId portNum bytes]
  /-- A thread works on what it holds: objects are made and end, and what it holds then descends
  from what it held. -/
  | work {t : Holder} {packets : List SwitchPacket} {evs : List SwitchEvent}
      (hmoves : Moves s s' t packets) (hevs : ∀ ev ∈ evs, ev.Internal) (hnum : Numbered s s' evs)
      (hobjects : objects packets + endedObjects evs = objects (s.held t) + createdObjects evs)
      (hdescends : ∀ p' ∈ packets, ∃ p ∈ s.held t, p.Descends p')
      (hports : ∀ port, (objectsFor port packets).Sublist (objectsFor port (s.held t)))
      (hinput : s'.inputBuffer = s.inputBuffer) (houtput : s'.outputBuffer = s.outputBuffer)
      (hbuffers : s'.egressBuffers = s.egressBuffers) : Flow prog clock s s' evs
  | pushInput {t : Holder} {p : SwitchPacket} (ht : s.held t = [p]) (hmoves : Moves s s' t [])
      (hnext : s'.nextObject = s.nextObject) (hinput : s'.inputBuffer = p :: s.inputBuffer)
      (houtput : s'.outputBuffer = s.outputBuffer)
      (hbuffers : s'.egressBuffers = s.egressBuffers) : Flow prog clock s s' []
  | popInput {p : SwitchPacket} (ht : s.held .ingress = []) (hmoves : Moves s s' .ingress [p])
      (hnext : s'.nextObject = s.nextObject) (hinput : s.inputBuffer = s'.inputBuffer ++ [p])
      (houtput : s'.outputBuffer = s.outputBuffer)
      (hbuffers : s'.egressBuffers = s.egressBuffers) : Flow prog clock s s' []
  /-- A thread enqueues a packet, which may be new; the event tells whether there was room. -/
  | enqueue {t : Holder} {packets : List SwitchPacket} {p : SwitchPacket} {port now : ℕ}
      {accepted : Bool} {evs : List SwitchEvent} (hclock : clock = some now)
      (hmoves : Moves s s' t packets)
      (hevs : ∀ ev ∈ evs, ev.Internal) (hended : endedObjects evs = []) (hnum : Numbered s s' evs)
      (hobjects : objects packets + {p.object} = objects (s.held t) + createdObjects evs)
      (hdescends : ∀ p' ∈ p :: packets, ∃ p ∈ s.held t, p.Descends p')
      (hports : ∀ port, (objectsFor port packets).Sublist (objectsFor port (s.held t)))
      (hport : p.egressPort = port)
      (hpush : s.egressBuffers.pushFront port p now = (.pushed accepted, s'.egressBuffers))
      (hinput : s'.inputBuffer = s.inputBuffer) (houtput : s'.outputBuffer = s.outputBuffer) :
      Flow prog clock s s' (evs ++ if accepted then
        ((s.egressBuffers.event (.push port p now) (.pushed true)).map SwitchEvent.queue).toList
        else [.ended p.object .queueFull])
  | popEgress {i port priority now : ℕ} {p : SwitchPacket} (hclock : clock = some now)
      (ht : s.held (.egress i) = [])
      (hmoves : Moves s s' (.egress i) [p]) (hi : i < s.egress.length)
      (hpop : s.egressBuffers.popBack i now = (.popped port priority p, s'.egressBuffers))
      (hnext : s'.nextObject = s.nextObject) (hinput : s'.inputBuffer = s.inputBuffer)
      (houtput : s'.outputBuffer = s.outputBuffer) :
      Flow prog clock s s' ((s.egressBuffers.event (.pop i now)
        (.popped port priority p)).map SwitchEvent.queue).toList
  | pushOutput {i : ℕ} {p : SwitchPacket} (ht : s.held (.egress i) = [p])
      (hmoves : Moves s s' (.egress i) []) (hnext : s'.nextObject = s.nextObject)
      (hinput : s'.inputBuffer = s.inputBuffer) (houtput : s'.outputBuffer = p :: s.outputBuffer)
      (hbuffers : s'.egressBuffers = s.egressBuffers) : Flow prog clock s s' []
  | popOutput {p : SwitchPacket} (ht : s.held .transmitter = [])
      (hmoves : Moves s s' .transmitter [p]) (hnext : s'.nextObject = s.nextObject)
      (hinput : s'.inputBuffer = s.inputBuffer) (houtput : s.outputBuffer = s'.outputBuffer ++ [p])
      (hbuffers : s'.egressBuffers = s.egressBuffers) : Flow prog clock s s' []
  | transmit {p : SwitchPacket} {bytes : List Byte} (ht : s.held .transmitter = [p])
      (hmoves : Moves s s' .transmitter []) (hnext : s'.nextObject = s.nextObject)
      (hinput : s'.inputBuffer = s.inputBuffer) (houtput : s'.outputBuffer = s.outputBuffer)
      (hbuffers : s'.egressBuffers = s.egressBuffers) :
      Flow prog clock s s' [.transmitted p.object p.egressPort bytes, .ended p.object .transmitted]
  /-- The control plane, or a thread that tries again. -/
  | config (hheld : s'.held = s.held) (hthreads : s'.egress.length = s.egress.length)
      (hnext : s'.nextObject = s.nextObject) (hinput : s'.inputBuffer = s.inputBuffer)
      (houtput : s'.outputBuffer = s.outputBuffer)
      (hbuffers : s'.egressBuffers = s.egressBuffers ∨ ∃ q fn,
        (∀ qInfo : QueueInfo, (fn qInfo).size = qInfo.size ∧
          (fn qInfo).lastSent = qInfo.lastSent) ∧
        s'.egressBuffers = (s.egressBuffers.updateInfo q fn).2) : Flow prog clock s s' []

end SimpleSwitch

end Bmv2
