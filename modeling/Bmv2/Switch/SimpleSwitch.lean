import Bmv2.Packet.Clone
import Bmv2.Pre.SimplePreLag
import Bmv2.Queueing.Paced
import Bmv2.Switch.FieldLists

/-! The threads of `simple_switch.cpp` and the buffers between them. A step is what one thread does
between two accesses to what the threads share. What the tables make of a packet, the readings of
the clocks and the contents of recycled memory come with the step; learning is left out. -/
namespace Bmv2
open ByteBits PriorityQueue UnorderedMap

/-- `PktInstanceType`. -/
inductive PktInstanceType where
  | normal
  | ingressClone
  | egressClone
  | coalesced
  | recirc
  | replication
  | resubmit
  deriving DecidableEq

/-- The number of an enumerator. -/
def PktInstanceType.value : PktInstanceType → ℤ
  | .normal => 0
  | .ingressClone => 1
  | .egressClone => 2
  | .coalesced => 3
  | .recirc => 4
  | .replication => 5
  | .resubmit => 6

/-- A `Packet` with its identity. Which object it is, the switch never asks. -/
structure SwitchPacket extends Packet where
  object : ℕ
  packetId : ℕ
  copyId : ℕ := 0
  ingressPort : ℕ
  egressPort : ℤ := -1
  truncatedLength : Option ℕ := none
  markedForExit : Bool := false

/-- The fields that are all there if `with_queueing_metadata`. -/
structure QueueingFields where
  enqTimestamp : FieldRef
  enqQdepth : FieldRef
  deqTimedelta : FieldRef
  deqQdepth : FieldRef

/-- The fields that the switch refers to by name. The intrinsic metadata are optional. -/
structure SwitchFields where
  ingressPort : FieldRef
  packetLength : FieldRef
  instanceType : FieldRef
  egressSpec : FieldRef
  cloneSpec : FieldRef
  egressPort : FieldRef
  ingressGlobalTimestamp : Option FieldRef := none
  mcastGrp : Option FieldRef := none
  egressRid : Option FieldRef := none
  resubmitFlag : Option FieldRef := none
  recirculateFlag : Option FieldRef := none
  queueing : Option QueueingFields := none

/-- What a configuration gives the threads to run. -/
structure SwitchProgram where
  config : P4Config
  fields : SwitchFields
  parser : Parser
  deparserHeaders : List ℕ
  checksums : List Checksum

/-- What a control flow leaves of a packet: actions write fields, truncate and mark for exit. -/
structure MauResult where
  phv : PHV
  truncated : Option ℕ := none
  markedForExit : Bool := false

/-- What a step gets from elsewhere: a PHV of the pool, the bytes of new memory, the next copy id,
clock readings, the depth of a queue as it was read, the registers, and what the tables do. -/
structure SwitchEnv where
  pooled : PHV := {}
  memory : ℕ → Byte := fun _ => 0
  copyId : ℕ := 0
  nowMs : ℕ := 0
  timestamp : ℤ := 0
  now : ℕ := 0
  qdepth : ℕ := 0
  registerArrays : List (List ℤ) := []
  fuel : ℕ := 0
  mau : MauResult := { phv := {} }

/-- `save_buffer_state`. -/
structure BufferState where
  head : ℕ
  dataSize : ℕ

namespace PacketBuffer

/-- The constructor that copies the data to the end of a new buffer. -/
def ofData (memory : ℕ → Byte) (room : ℕ) (data : List Byte) : PacketBuffer :=
  ⟨(List.range room).map memory ++ data, room, data.length, by
    rw [List.length_append, List.length_map, List.length_range]⟩

def saveState (b : PacketBuffer) : BufferState := ⟨b.head, b.dataSize⟩

/-- `restore_state`, to a state of the same buffer. -/
def restoreState (b : PacketBuffer) (state : BufferState) : Option PacketBuffer :=
  if h : state.head + state.dataSize = b.buffer.length then
    some ⟨b.buffer, state.head, state.dataSize, h⟩
  else none

end PacketBuffer

namespace PHV

variable (phv : PHV)

def setField (ref : FieldRef) (v : ℤ) : Option PHV := phv.modifyField ref fun f => some (f.set v)

/-- A field that is written if there is one. -/
def setFieldIf (ref : Option FieldRef) (v : ℤ) : Option PHV :=
  match ref with
  | none => some phv
  | some ref => phv.setField ref v

/-- `get_int` and `get_uint`, which agree on what the switch does with the values. -/
def readUint (cast : BignumCast) (ref : FieldRef) : Option ℕ := do
  let f ← phv.getField ref.header ref.offset
  f.toData.getUint cast

/-- A flag that is `0` where there is no such field. -/
def readFlag (cast : BignumCast) : Option FieldRef → Option ℕ
  | none => some 0
  | some ref => phv.readUint cast ref

end PHV

/-! ### The threads -/

/-- `receive` makes a packet and waits for room in the input buffer. -/
inductive ReceiveThread where
  | idle
  | pushing (packet : SwitchPacket)

/-- Where the ingress thread stands in its loop. -/
inductive IngressThread where
  | popping
  | popped (packet : SwitchPacket)
  | cloning (packet : SwitchPacket) (packetInState : BufferState)
  | enqueueingClone (port : ℕ) (copy packet : SwitchPacket) (packetInState : BufferState)
  | forwarding (packet : SwitchPacket) (packetInState : BufferState)
  | resubmitting (copy : SwitchPacket)
  | replicating (packet : SwitchPacket) (preOut : List McOut)

/-- Where an egress thread stands in its loop. -/
inductive EgressThread where
  | popping
  | popped (port : ℕ) (packet : SwitchPacket)
  | cloning (packet : SwitchPacket)
  | enqueueingClone (port : ℕ) (copy packet : SwitchPacket)
  | deparsing (packet : SwitchPacket)
  | recirculating (copy : SwitchPacket)
  | sending (packet : SwitchPacket)

/-- Where the transmit thread stands. -/
inductive TransmitterThread where
  | popping
  | transmitting (packet : SwitchPacket)

/-- How a packet object ends. -/
inductive Fate where
  | transmitted
  | dropped
  | queueFull
  | resubmitted
  | replicated
  | recirculated
  deriving DecidableEq

/-- What can be seen of a step. A packet arrives when it is received, and when it is recirculated;
the parser of the ingress thread is run on it, and again for an ingress clone. -/
inductive SwitchEvent where
  | arrived (packetId ingressPort : ℕ) (bytes : List Byte)
  | parsed (packetId ingressPort : ℕ) (bytes : List Byte)
  | created (object : ℕ)
  | ended (object : ℕ) (fate : Fate)
  | queue (ev : QueueEvent SwitchPacket)
  | transmitted (object : ℕ) (egressPort : ℤ) (bytes : List Byte)

structure SimpleSwitch (pq : PQ (QE SwitchPacket) QE.send) where
  inputBuffer : List SwitchPacket := []
  egressBuffers : QueueingLogicRL pq
  outputBuffer : List SwitchPacket := []
  mirroringMap : Map ℤ ℤ := ∅
  pre : McSimplePreLag := {}
  receiver : ReceiveThread := .idle
  ingress : IngressThread := .popping
  egress : List EgressThread
  transmitter : TransmitterThread := .popping
  nextPacketId : ℕ := 0
  nextObject : ℕ := 0

namespace SwitchPacket

variable (packet : SwitchPacket) (env : SwitchEnv)

/-- What the switch does with the result of `apply`. -/
def applied (markedForExit : Bool) : SwitchPacket :=
  { packet with
    phv := env.mau.phv
    truncatedLength := (env.mau.truncated.toList ++ packet.truncatedLength.toList).min?
    markedForExit }

def mapPhv (fn : PHV → Option PHV) : Option SwitchPacket := do
  let phv ← fn packet.phv
  some { packet with phv }

/-- `clone_no_phv_ptr` and the other clones, with the PHV that the copy gets. -/
def cloneWith (object : ℕ) (phv : PHV) : Option SwitchPacket := do
  let buffer ← packet.buffer.clone env.memory packet.buffer.dataSize
  some {
    phv
    ingressLength := packet.ingressLength
    ingressTsMs := env.nowMs
    buffer
    object
    packetId := packet.packetId
    copyId := env.copyId
    ingressPort := packet.ingressPort }

def restored (state : BufferState) : Option SwitchPacket := do
  let buffer ← packet.buffer.restoreState state
  some { packet with buffer }

/-- `data()` with `get_data_size()`. -/
def transmittedBytes : List Byte :=
  match packet.truncatedLength with
  | none => packet.buffer.data
  | some length => packet.buffer.data.take length

end SwitchPacket

namespace SimpleSwitch

def nbEgressThreads : ℕ := 4

/-- `EgressThreadMapper`. -/
def egressThreadMapper (egressPort : ℕ) : ℕ := egressPort % nbEgressThreads

def inputCapacity : ℕ := 1024

def outputCapacity : ℕ := 128

/-- A packet with this egress port is dropped. -/
def dropPort : ℕ := 511

variable {pq : PQ (QE SwitchPacket) QE.send}

/-- The constructor. -/
def create (pq : PQ (QE SwitchPacket) QE.send) (maxPort now : ℕ) : SimpleSwitch pq where
  egressBuffers := .create pq maxPort nbEgressThreads 64 egressThreadMapper now
  egress := List.replicate nbEgressThreads .popping

variable (cast : BignumCast) (prog : SwitchProgram) (s : SimpleSwitch pq) (env : SwitchEnv)

/-- `get_mirroring_mapping`, which is `-1` for an unknown id. -/
def getMirroringMapping (mirrorId : ℤ) : ℤ := (s.mirroringMap.lookup mirrorId).getD (-1)

/-- `enqueue`. A full queue drops the packet; a port without a queue makes `at` throw. -/
def enqueue (egressPort : ℕ) (packet : SwitchPacket) :
    Option (List SwitchEvent × QueueingLogicRL pq) := do
  let packet := { packet with egressPort := (egressPort : ℤ) }
  let packet ← packet.mapPhv fun phv =>
    match prog.fields.queueing with
    | none => some phv
    | some q => do
      let phv ← phv.setField q.enqTimestamp env.timestamp
      phv.setField q.enqQdepth env.qdepth
  match s.egressBuffers.pushFront egressPort packet env.now with
  | (.pushed true, egressBuffers) =>
    some (((s.egressBuffers.event (.push egressPort packet env.now)
      (.pushed true)).map SwitchEvent.queue).toList, egressBuffers)
  | (.pushed false, egressBuffers) => some ([.ended packet.object .queueFull], egressBuffers)
  | _ => none

/-! ### Receiving -/

/-- The packet that `receive` makes. -/
def newPacket (portNum : ℕ) (buffer : List Byte) : Option SwitchPacket := do
  let phv := env.pooled.resetMetadata
  let phv ← phv.setField prog.fields.ingressPort portNum
  let phv ← phv.setField prog.fields.packetLength buffer.length
  let phv ← phv.setField prog.fields.instanceType PktInstanceType.normal.value
  let phv ← phv.setFieldIf prog.fields.ingressGlobalTimestamp env.timestamp
  some {
    phv
    ingressLength := buffer.length
    ingressTsMs := env.nowMs
    buffer := .ofData env.memory 512 buffer
    object := s.nextObject
    packetId := s.nextPacketId
    ingressPort := portNum }

def receive (portNum : ℕ) (buffer : List Byte) : Option (List SwitchEvent × SimpleSwitch pq) :=
  match s.receiver with
  | .pushing _ => none
  | .idle => do
    let packet ← s.newPacket prog env portNum buffer
    some ([.created packet.object, .arrived packet.packetId portNum buffer],
      { s with
        receiver := .pushing packet
        nextPacketId := s.nextPacketId + 1
        nextObject := s.nextObject + 1 })

/-- The push at the end of `receive`, when there is room. -/
def receivePush : Option (List SwitchEvent × SimpleSwitch pq) :=
  match s.receiver with
  | .idle => none
  | .pushing packet =>
    if s.inputBuffer.length < inputCapacity then
      some ([], { s with receiver := .idle, inputBuffer := packet :: s.inputBuffer })
    else none

/-! ### Ingress -/

/-- `copy_ingress_pkt`, from the packet as it came in. -/
def copyIngressPkt (packet : SwitchPacket) (copyType : PktInstanceType) (fieldListId : ℕ) :
    Option SwitchPacket := do
  let phvCopy ← prog.config.copyIngressPkt fieldListId packet.phv env.pooled
  let phvCopy ← phvCopy.setField prog.fields.instanceType copyType.value
  packet.cloneWith env s.nextObject phvCopy

/-- The parser, on a packet of the ingress thread. -/
def parse (packet : SwitchPacket) : Option SwitchPacket := do
  let parsed ← prog.parser.parse cast env.registerArrays env.fuel packet.toPacket
  some { packet with toPacket := parsed }

/-- `pop_back` of the input buffer, and the run of the parser and of the tables after it. -/
def ingressRun (packet : SwitchPacket) : Option (List SwitchEvent × SimpleSwitch pq) := do
  let parsed ← parse cast prog env packet
  some ([.parsed packet.packetId packet.ingressPort packet.buffer.data],
    { s with ingress := .cloning (parsed.applied env false) packet.buffer.saveState })

/-- INGRESS CLONING, up to the push. The clone is parsed again. -/
def ingressClone (packet : SwitchPacket) (packetInState : BufferState) :
    Option (List SwitchEvent × SimpleSwitch pq) := do
  let cloneSpec ← packet.phv.readUint cast prog.fields.cloneSpec
  if cloneSpec = 0 then some ([], { s with ingress := .forwarding packet packetInState })
  else
    let egressPort := s.getMirroringMapping (cloneSpec % 2 ^ 16 : ℕ)
    let packet ← packet.mapPhv fun phv => phv.setField prog.fields.cloneSpec 0
    if egressPort < 0 then some ([], { s with ingress := .forwarding packet packetInState })
    else
      let original ← packet.restored packetInState
      let copy ← s.copyIngressPkt prog env original .ingressClone (cloneSpec / 2 ^ 16)
      let parsed ← parse cast prog env copy
      some ([.created copy.object, .parsed copy.packetId copy.ingressPort copy.buffer.data],
        { s with
          ingress := .enqueueingClone egressPort.toNat parsed packet packetInState
          nextObject := s.nextObject + 1 })

/-- RESUBMIT, MULTICAST and the rest of the loop. -/
def ingressForward (packet : SwitchPacket) (packetInState : BufferState) :
    Option (List SwitchEvent × SimpleSwitch pq) := do
  let resubmit ← packet.phv.readFlag cast prog.fields.resubmitFlag
  if resubmit ≠ 0 then
    let packet ← packet.restored packetInState
    let packet ← packet.mapPhv fun phv => phv.setFieldIf prog.fields.resubmitFlag 0
    let copy ← s.copyIngressPkt prog env packet .resubmit resubmit
    some ([.created copy.object, .ended packet.object .resubmitted],
      { s with ingress := .resubmitting copy, nextObject := s.nextObject + 1 })
  else
    let mgid ← packet.phv.readFlag cast prog.fields.mcastGrp
    if mgid ≠ 0 then
      let _ ← prog.fields.egressRid
      let preOut ← s.pre.replicate mgid
      some ([], { s with ingress := .replicating packet preOut })
    else
      let egressPort ← packet.phv.readUint cast prog.fields.egressSpec
      if egressPort = dropPort then
        some ([.ended packet.object .dropped], { s with ingress := .popping })
      else
        let (evs, egressBuffers) ← s.enqueue prog env egressPort packet
        some (evs, { s with ingress := .popping, egressBuffers })

/-- One round of the loop over the copies of a multicast packet, or its end. -/
def ingressReplicate (packet : SwitchPacket) :
    List McOut → Option (List SwitchEvent × SimpleSwitch pq)
  | [] => some ([.ended packet.object .replicated], { s with ingress := .popping })
  | out :: preOut => do
    let packet ← packet.mapPhv fun phv => do
      let phv ← phv.setFieldIf prog.fields.egressRid out.rid
      phv.setField prog.fields.instanceType PktInstanceType.replication.value
    let copy ← packet.cloneWith env s.nextObject (env.pooled.copyHeaders packet.phv)
    let (evs, egressBuffers) ← s.enqueue prog env out.egressPort copy
    some (.created copy.object :: evs,
      { s with
        ingress := .replicating packet preOut
        egressBuffers
        nextObject := s.nextObject + 1 })

/-- The next step of the ingress thread. -/
def ingressStep : Option (List SwitchEvent × SimpleSwitch pq) :=
  match s.ingress with
  | .popping => do
    let packet ← s.inputBuffer.getLast?
    some ([], { s with ingress := .popped packet, inputBuffer := s.inputBuffer.dropLast })
  | .popped packet => s.ingressRun cast prog env packet
  | .cloning packet packetInState => s.ingressClone cast prog env packet packetInState
  | .enqueueingClone port copy packet packetInState => do
    let (evs, egressBuffers) ← s.enqueue prog env port copy
    some (evs, { s with ingress := .forwarding packet packetInState, egressBuffers })
  | .forwarding packet packetInState => s.ingressForward cast prog env packet packetInState
  | .resubmitting copy =>
    if s.inputBuffer.length < inputCapacity then
      some ([], { s with ingress := .popping, inputBuffer := copy :: s.inputBuffer })
    else none
  | .replicating packet preOut => s.ingressReplicate prog env packet preOut

/-! ### Egress -/

/-- The egress thread `i` goes on to `thread`. -/
def withEgress (i : ℕ) (thread : EgressThread) : SimpleSwitch pq :=
  { s with egress := s.egress.set i thread }

/-- The metadata that are set before the egress tables run. -/
def egressMetadata (port : ℕ) (phv : PHV) : Option PHV := do
  let phv ← match prog.fields.queueing with
    | none => some phv
    | some q => do
      let enqTimestamp ← phv.getField q.enqTimestamp.header q.enqTimestamp.offset
      let phv ← phv.setField q.deqTimedelta (env.timestamp - enqTimestamp.value)
      phv.setField q.deqQdepth env.qdepth
  let phv ← phv.setField prog.fields.egressPort port
  phv.setField prog.fields.egressSpec 0

/-- `pop_back` of the egress buffers; a worker that has to wait tries again later. -/
def egressPop (i : ℕ) : Option (List SwitchEvent × SimpleSwitch pq) :=
  match s.egressBuffers.popBack i env.now with
  | (.popped port priority packet, egressBuffers) =>
    some (((s.egressBuffers.event (.pop i env.now)
      (.popped port priority packet)).map SwitchEvent.queue).toList,
      { s with egressBuffers, egress := s.egress.set i (.popped port packet) })
  | (.waits, _) => some ([], s)
  | _ => none

/-- EGRESS CLONING, up to the push. -/
def egressClone (i : ℕ) (packet : SwitchPacket) : Option (List SwitchEvent × SimpleSwitch pq) := do
  let cloneSpec ← packet.phv.readUint cast prog.fields.cloneSpec
  if cloneSpec = 0 then some ([], s.withEgress i (.deparsing packet))
  else
    let egressPort := s.getMirroringMapping (cloneSpec % 2 ^ 16 : ℕ)
    if egressPort < 0 then some ([], s.withEgress i (.deparsing packet))
    else
      let packet ← packet.mapPhv fun phv => phv.setField prog.fields.cloneSpec 0
      let phvCopy ← prog.config.cloneEgress (cloneSpec / 2 ^ 16) packet.phv env.pooled
      let phvCopy ← phvCopy.setField prog.fields.instanceType PktInstanceType.egressClone.value
      let copy ← packet.cloneWith env s.nextObject phvCopy
      some ([.created copy.object],
        { s.withEgress i (.enqueueingClone egressPort.toNat copy packet) with
          nextObject := s.nextObject + 1 })

/-- The deparser, on a packet of an egress thread. -/
def deparse (packet : SwitchPacket) : Option SwitchPacket := do
  let (_, deparsed) ← (PacketOp.deparse prog.deparserHeaders prog.checksums).exec cast
    env.registerArrays packet.toPacket
  some { packet with toPacket := deparsed }

/-- The end of the loop of an egress thread: drop, RECIRCULATE or send. -/
def egressDeparse (i : ℕ) (packet : SwitchPacket) :
    Option (List SwitchEvent × SimpleSwitch pq) := do
  let egressSpec ← packet.phv.readUint cast prog.fields.egressSpec
  if egressSpec = dropPort then
    some ([.ended packet.object .dropped], s.withEgress i .popping)
  else
    let packet ← deparse cast prog env packet
    let recirc ← packet.phv.readFlag cast prog.fields.recirculateFlag
    if recirc = 0 then some ([], s.withEgress i (.sending packet))
    else
      let packet ← packet.mapPhv fun phv => phv.setFieldIf prog.fields.recirculateFlag 0
      let phvCopy ← prog.config.recirculate recirc packet.phv env.pooled
      let phvCopy ← phvCopy.setField prog.fields.instanceType PktInstanceType.recirc.value
      let copy ← packet.cloneWith env s.nextObject phvCopy
      some ([.created copy.object, .arrived copy.packetId copy.ingressPort copy.buffer.data,
          .ended packet.object .recirculated],
        { s.withEgress i (.recirculating copy) with nextObject := s.nextObject + 1 })

/-- The next step of the egress thread `i`. -/
def egressStep (i : ℕ) : Option (List SwitchEvent × SimpleSwitch pq) :=
  match s.egress[i]? with
  | none => none
  | some .popping => s.egressPop env i
  | some (.popped port packet) => do
    let packet ← packet.mapPhv (egressMetadata prog env port)
    some ([], s.withEgress i (.cloning (packet.applied env env.mau.markedForExit)))
  | some (.cloning packet) => s.egressClone cast prog env i packet
  | some (.enqueueingClone port copy packet) => do
    let (evs, egressBuffers) ← s.enqueue prog env port copy
    some (evs, { s.withEgress i (.deparsing packet) with egressBuffers })
  | some (.deparsing packet) => s.egressDeparse cast prog env i packet
  | some (.recirculating copy) =>
    if s.inputBuffer.length < inputCapacity then
      some ([], { s.withEgress i .popping with inputBuffer := copy :: s.inputBuffer })
    else none
  | some (.sending packet) =>
    if s.outputBuffer.length < outputCapacity then
      some ([], { s.withEgress i .popping with outputBuffer := packet :: s.outputBuffer })
    else none

/-! ### Transmitting, and the control plane -/

/-- The next step of the transmit thread. -/
def transmitStep : Option (List SwitchEvent × SimpleSwitch pq) :=
  match s.transmitter with
  | .popping => do
    let packet ← s.outputBuffer.getLast?
    some ([],
      { s with transmitter := .transmitting packet, outputBuffer := s.outputBuffer.dropLast })
  | .transmitting packet =>
    some ([.transmitted packet.object packet.egressPort packet.transmittedBytes,
      .ended packet.object .transmitted], { s with transmitter := .popping })

/-- What is asked of the switch from outside. Multicast is set up through its own calls, of which
only the result matters here. -/
inductive ControlOp where
  | mirroringMappingAdd (mirrorId egressPort : ℤ)
  | mirroringMappingDelete (mirrorId : ℤ)
  | setEgressQueueDepth (port depthPkts : ℕ)
  | setEgressQueueRate (port ratePps delay : ℕ)
  | setPre (pre : McSimplePreLag)

def control : ControlOp → SimpleSwitch pq
  | .mirroringMappingAdd mirrorId egressPort =>
    { s with mirroringMap := s.mirroringMap.insert mirrorId egressPort }
  | .mirroringMappingDelete mirrorId => { s with mirroringMap := s.mirroringMap.erase mirrorId }
  | .setEgressQueueDepth port depthPkts =>
    { s with egressBuffers := (s.egressBuffers.setCapacity port depthPkts).2 }
  | .setEgressQueueRate port ratePps delay =>
    { s with egressBuffers := (s.egressBuffers.setRate port ratePps delay).2 }
  | .setPre pre => { s with pre }

/-- Who does the next step. -/
inductive Op where
  | receive (portNum : ℕ) (buffer : List Byte) (env : SwitchEnv)
  | receivePush
  | ingress (env : SwitchEnv)
  | egress (i : ℕ) (env : SwitchEnv)
  | transmit
  | control (op : ControlOp)

/-- One step; `none` if the thread has to wait, or if the switch fails an assertion or throws. -/
def step : Op → Option (List SwitchEvent × SimpleSwitch pq)
  | .receive portNum buffer env => s.receive prog env portNum buffer
  | .receivePush => s.receivePush
  | .ingress env => s.ingressStep cast prog env
  | .egress i env => s.egressStep cast prog env i
  | .transmit => s.transmitStep
  | .control op => some ([], s.control op)

/-- A step together with the events so far. -/
def observed (s : SimpleSwitch pq × List SwitchEvent) (op : Op) :
    Option (List SwitchEvent × (SimpleSwitch pq × List SwitchEvent)) :=
  (s.1.step cast prog op).map fun p => (p.1, (p.2, s.2 ++ p.1))

end SimpleSwitch

end Bmv2
