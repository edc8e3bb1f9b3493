import Bmv2.Lib.Records
import Bmv2.Ports.Events

/-! Packets over a socket: the device manager that reads them (`dev_mgr_packet_in.cpp`) and the
library that sends them (`packet_pipe.cpp`). The socket is a pair of channels, each of which
delivers the messages in the order in which they were sent. -/
namespace Bmv2
open ByteBits Records

/-- `MsgType`, the same enumeration on both sides. -/
inductive PacketMsgType where
  | portAdd | portRemove | portSetStatus | packetIn | packetOut
  deriving DecidableEq

namespace PacketMsgType

def code : PacketMsgType → BitVec 32
  | portAdd => 0
  | portRemove => 1
  | portSetStatus => 2
  | packetIn => 3
  | packetOut => 4

def ofCode (code : BitVec 32) : Option PacketMsgType :=
  [portAdd, portRemove, portSetStatus, packetIn, packetOut].find? fun t => t.code = code

@[simp] theorem ofCode_code (t : PacketMsgType) : ofCode t.code = some t := by
  cases t <;> decide

end PacketMsgType

/-- `packet_hdr_t`. -/
structure PacketHdr where
  type : BitVec 32
  port : BitVec 32
  more : BitVec 32

def PacketHdr.format : Format PacketHdr :=
  ((Format.word 4).pair ((Format.word 4).pair (Format.word 4))).iso (fun _ => True)
    (fun p => ⟨p.1, p.2.1, p.2.2⟩) (fun hdr => (hdr.type, hdr.port, hdr.more))
    (fun _ _ => ⟨⟨trivial, trivial, trivial⟩, rfl⟩) (fun _ _ => ⟨trivial, rfl⟩)

/-- A packet on a port, as the callbacks of both sides get it. -/
abbrev PortPacket := BitVec 32 × List Byte

/-- The calls of `PacketInject`. -/
inductive InjectRequest where
  | portAdd (port : BitVec 32)
  | portRemove (port : BitVec 32)
  | portBringUp (port : BitVec 32)
  | portBringDown (port : BitVec 32)
  | send (port : BitVec 32) (buffer : List Byte)

namespace InjectRequest

def portMsg (type : PacketMsgType) (port more : BitVec 32) : List Byte :=
  PacketHdr.format.write ⟨type.code, port, more⟩

/-- The message that a call sends. -/
def msg : InjectRequest → List Byte
  | portAdd port => portMsg .portAdd port 0
  | portRemove port => portMsg .portRemove port 0
  | portBringUp port => portMsg .portSetStatus port 1
  | portBringDown port => portMsg .portSetStatus port 0
  | send port buffer =>
    PacketHdr.format.write ⟨PacketMsgType.packetIn.code, port, BitVec.ofNat 32 buffer.length⟩ ++
      buffer

/-- The length of a packet is an `int`. -/
def Fits : InjectRequest → Prop
  | send _ buffer => buffer.length < 2 ^ 31
  | _ => True

instance (r : InjectRequest) : Decidable r.Fits := by
  cases r <;> unfold Fits <;> infer_instance

end InjectRequest

/-- An event for a port monitor whose callbacks are called before the next one. -/
def PortMonitor.notify (s : PortMonitor) (port : ℕ) (evt : PortStatus) : PortMonitor :=
  match s.checkEvent port evt with
  | some currPorts => { s with currPorts, delivered := (port, evt) :: s.delivered }
  | none => s

/-- `PacketInDevMgrImp`, with the status of each of its ports. -/
structure PacketInDevMgr where
  enforcePorts : Bool
  portInfo : UnorderedMap.Map ℕ Bool := ∅
  monitor : PortMonitor := PortMonitor.start 0

namespace PacketInDevMgr

variable (d : PacketInDevMgr)

def portIsUp (port : ℕ) : Bool := !d.enforcePorts || d.portInfo.lookup port == some true

def doPortAdd (port : ℕ) : PacketInDevMgr :=
  if (d.portInfo.lookup port).isSome then d
  else
    let d := { d with portInfo := d.portInfo.insert port true }
    if d.enforcePorts then
      { d with monitor := (d.monitor.notify port .portAdded).notify port .portUp }
    else d

def doPortRemove (port : ℕ) : PacketInDevMgr :=
  if (d.portInfo.lookup port).isSome then
    let d := { d with portInfo := d.portInfo.erase port }
    if d.enforcePorts then { d with monitor := d.monitor.notify port .portRemoved } else d
  else d

def doPortSetStatus (port : ℕ) (status : PortStatus) : PacketInDevMgr :=
  if (d.portInfo.lookup port).isSome then
    let d := { d with portInfo := d.portInfo.insert port (decide (status = PortStatus.portUp)) }
    if d.enforcePorts then { d with monitor := d.monitor.notify port status } else d
  else d

/-- `handle_msg`, with the packet that the handler is called with. A message that is too short for
what its header says is not read to its end. -/
def handleMsg (msg : List Byte) : Option (Option PortPacket × PacketInDevMgr) := do
  let (hdr, data) ← PacketHdr.format.read msg
  match PacketMsgType.ofCode hdr.type with
  | some .portAdd => some (none, d.doPortAdd hdr.port.toNat)
  | some .portRemove => some (none, d.doPortRemove hdr.port.toNat)
  | some .portSetStatus =>
    if hdr.more = 0 then some (none, d.doPortSetStatus hdr.port.toNat .portDown)
    else if hdr.more = 1 then some (none, d.doPortSetStatus hdr.port.toNat .portUp)
    else some (none, d)
  | some .packetIn =>
    if d.portIsUp hdr.port.toNat then
      if 0 ≤ hdr.more.toInt then do
        let (buffer, _) ← takeBytes hdr.more.toNat data
        some (some (hdr.port, buffer), d)
      else none
    else some (none, d)
  | some .packetOut | none => some (none, d)

end PacketInDevMgr

/-- The message of `transmit_fn_`. -/
def packetOutMsg (p : PortPacket) : List Byte :=
  PacketHdr.format.write ⟨PacketMsgType.packetOut.code, p.1, BitVec.ofNat 32 p.2.length⟩ ++ p.2

/-- The receiver of `PacketInject`, with the packet that the callback is called with. -/
def PacketInject.receive (msg : List Byte) : Option (Option PortPacket) := do
  let (hdr, data) ← PacketHdr.format.read msg
  if hdr.type = PacketMsgType.packetOut.code then
    if 0 ≤ hdr.more.toInt then do
      let (buffer, _) ← takeBytes hdr.more.toNat data
      some (some (hdr.port, buffer))
    else none
  else some none

/-- The two ends of the socket, and what is on its way between them. -/
structure PacketPipe where
  devMgr : PacketInDevMgr
  toSwitch : List (List Byte) := []
  toClient : List (List Byte) := []

inductive PacketPipeOp where
  /-- The client calls the library. -/
  | request (r : InjectRequest)
  /-- The receive loop of the switch takes a message. -/
  | handleMsg
  /-- The switch sends a packet out of a port. -/
  | transmit (port : BitVec 32) (buffer : List Byte)
  /-- The receive loop of the library takes a message. -/
  | receive

namespace PacketPipeOp

def request? : PacketPipeOp → Option InjectRequest
  | request r => some r
  | _ => none

def transmitted? : PacketPipeOp → Option PortPacket
  | transmit port buffer => some (port, buffer)
  | _ => none

def isHandleMsg : PacketPipeOp → Bool
  | handleMsg => true
  | _ => false

def isReceive : PacketPipeOp → Bool
  | receive => true
  | _ => false

/-- The length of a packet is an `int`. -/
def Fits : PacketPipeOp → Prop
  | request r => r.Fits
  | transmit _ buffer => buffer.length < 2 ^ 31
  | _ => True

instance (op : PacketPipeOp) : Decidable op.Fits := by
  cases op <;> unfold Fits <;> infer_instance

end PacketPipeOp

namespace PacketPipe

variable (s : PacketPipe)

/-- A step, with the packet that a callback is called with in it. -/
def step : PacketPipeOp → Option (Option PortPacket × PacketPipe)
  | .request r => some (none, { s with toSwitch := s.toSwitch ++ [r.msg] })
  | .handleMsg =>
    match s.toSwitch with
    | [] => none
    | msg :: toSwitch => do
      let (packet, devMgr) ← s.devMgr.handleMsg msg
      some (packet, { s with devMgr, toSwitch })
  | .transmit port buffer =>
    some (none, { s with toClient := s.toClient ++ [packetOutMsg (port, buffer)] })
  | .receive =>
    match s.toClient with
    | [] => none
    | msg :: toClient => do
      let packet ← PacketInject.receive msg
      some (packet, { s with toClient })

def start (enforcePorts : Bool) : PacketPipe where
  devMgr := { enforcePorts }

end PacketPipe

/-! ### What the device manager is for -/

/-- What has been said of the ports, and the packets that were let in. -/
structure PortAdmission where
  ports : ℕ → Option Bool := fun _ => none
  admitted : List PortPacket := []

namespace PortAdmission

/-- Added ports are up; the other requests are about ports that were added. -/
def next (enforcePorts : Bool) (a : PortAdmission) : InjectRequest → PortAdmission
  | .portAdd port =>
    { a with ports := Function.update a.ports port.toNat ((a.ports port.toNat).or (some true)) }
  | .portRemove port => { a with ports := Function.update a.ports port.toNat none }
  | .portBringUp port =>
    { a with ports := Function.update a.ports port.toNat ((a.ports port.toNat).map fun _ => true) }
  | .portBringDown port =>
    { a with ports := Function.update a.ports port.toNat ((a.ports port.toNat).map fun _ => false) }
  | .send port buffer =>
    if enforcePorts → a.ports port.toNat = some true then
      { a with admitted := a.admitted ++ [(port, buffer)] }
    else a

/-- After a list of requests. -/
def after (enforcePorts : Bool) (requests : List InjectRequest) : PortAdmission :=
  requests.foldl (next enforcePorts) {}

end PortAdmission

namespace PortMonitor

variable {s : PortMonitor}

/-- What the callbacks were told of a port leads to what the monitor knows. -/
def Recorded (s : PortMonitor) : Prop :=
  ∀ port, PortStatus.replay (s.history port) = some (s.currPorts.lookup port)

theorem next_of_checkEvent {port : ℕ} {evt : PortStatus} (h : s.checkEvent port evt = none) :
    PortStatus.next (s.currPorts.lookup port) evt = none := by
  unfold checkEvent at h
  split at h
  · cases h
  · cases h
  · cases h
  · cases h
  · rename_i hadded hremoved hup hdown
    unfold PortStatus.next
    split
    · rename_i hport
      exact absurd hport (hadded rfl)
    · rename_i hport
      exact absurd hport (hremoved _ rfl)
    · rename_i hport
      exact absurd hport (hup rfl)
    · rename_i hport
      exact absurd hport (hdown rfl)
    · rfl

theorem lookup_notify (port q : ℕ) (evt : PortStatus) :
    (s.notify port evt).currPorts.lookup q =
      if q = port then
        (PortStatus.next (s.currPorts.lookup port) evt).getD (s.currPorts.lookup port)
      else s.currPorts.lookup q := by
  unfold notify
  cases hcheck : s.checkEvent port evt with
  | none =>
    rw [next_of_checkEvent hcheck]
    split_ifs with hq
    · rw [hq, Option.getD_none]
    · rfl
  | some currPorts =>
    obtain ⟨hnext, hother⟩ := checkEvent_eq hcheck
    dsimp only
    split_ifs with hq
    · rw [hq, hnext, Option.getD_some]
    · exact hother q hq

theorem Recorded.notify (h : s.Recorded) (port : ℕ) (evt : PortStatus) :
    (s.notify port evt).Recorded := by
  intro q
  unfold PortMonitor.notify
  cases hcheck : s.checkEvent port evt with
  | none => exact h q
  | some currPorts =>
    obtain ⟨hnext, hother⟩ := checkEvent_eq hcheck
    by_cases hq : port = q
    · subst hq
      have hhistory : PortMonitor.history { s with
          currPorts, delivered := (port, evt) :: s.delivered } port = evt :: s.history port := by
        simp [history]
      dsimp only
      rw [hhistory, PortStatus.replay, h port, Option.bind_some, hnext]
    · have hhistory : PortMonitor.history { s with
          currPorts, delivered := (port, evt) :: s.delivered } q = s.history q := by
        simp [history, hq]
      dsimp only
      rw [hhistory, hother q (Ne.symm hq)]
      exact h q

end PortMonitor

namespace PacketInDevMgr

variable {d : PacketInDevMgr} {a : PortAdmission}

/-- The device manager knows the ports as they were requested, and if it enforces them its
monitor's callbacks have been told so. -/
structure Represents (d : PacketInDevMgr) (a : PortAdmission) : Prop where
  ports : ∀ q, d.portInfo.lookup q = a.ports q
  recorded : d.monitor.Recorded
  monitored : ∀ q, d.monitor.currPorts.lookup q = if d.enforcePorts then a.ports q else none

/-- A port is told to the monitor as it is written down. -/
theorem Represents.setPort (h : d.Represents a) {port : ℕ} {status : Option Bool}
    {portInfo : UnorderedMap.Map ℕ Bool} {monitor : PortMonitor}
    (hinfo : ∀ q, portInfo.lookup q = if q = port then status else d.portInfo.lookup q)
    (hrecorded : monitor.Recorded) (hmonitor : ∀ q, monitor.currPorts.lookup q =
      if q = port ∧ d.enforcePorts then status else d.monitor.currPorts.lookup q) :
    Represents { d with portInfo, monitor }
      { a with ports := Function.update a.ports port status } where
  ports q := by
    dsimp only
    rw [hinfo, Function.update_apply, h.ports]
  recorded := hrecorded
  monitored q := by
    dsimp only
    rw [hmonitor, Function.update_apply, h.monitored]
    cases d.enforcePorts <;> simp

/-- A port that is as it should be need not be written down. -/
theorem Represents.keepPort (h : d.Represents a) {port : ℕ} {status : Option Bool}
    (hport : d.portInfo.lookup port = status) :
    d.Represents { a with ports := Function.update a.ports port status } := by
  have heq : Function.update a.ports port status = a.ports := by
    rw [← hport, h.ports, Function.update_eq_self]
  rwa [heq]

theorem Represents.doPortAdd (h : d.Represents a) (port : ℕ) :
    (d.doPortAdd port).Represents
      { a with ports := Function.update a.ports port ((a.ports port).or (some true)) } := by
  unfold PacketInDevMgr.doPortAdd
  rw [← h.ports]
  cases hport : d.portInfo.lookup port with
  | some status =>
    rw [Option.isSome_some, if_pos rfl, Option.some_or]
    exact h.keepPort hport
  | none =>
    rw [Option.isSome_none, if_neg Bool.false_ne_true, Option.none_or]
    dsimp only
    split_ifs with henforce
    · refine h.setPort (fun q => UnorderedMap.lookup_insert _ _ _ _)
        ((h.recorded.notify port .portAdded).notify port .portUp) fun q => ?_
      have hnone : d.monitor.currPorts.lookup port = none := by
        rw [h.monitored, if_pos henforce, ← h.ports, hport]
      rw [PortMonitor.lookup_notify, PortMonitor.lookup_notify, PortMonitor.lookup_notify,
        if_pos rfl, hnone]
      simp only [henforce, and_true]
      split_ifs
      · rfl
      · rfl
    · exact h.setPort (fun q => UnorderedMap.lookup_insert _ _ _ _) h.recorded fun q => by
        simp [henforce]

theorem Represents.doPortRemove (h : d.Represents a) (port : ℕ) :
    (d.doPortRemove port).Represents
      { a with ports := Function.update a.ports port none } := by
  unfold PacketInDevMgr.doPortRemove
  cases hport : d.portInfo.lookup port with
  | none =>
    rw [Option.isSome_none, if_neg Bool.false_ne_true]
    exact h.keepPort hport
  | some status =>
    rw [Option.isSome_some, if_pos rfl]
    dsimp only
    split_ifs with henforce
    · refine h.setPort (fun q => UnorderedMap.lookup_erase _ _ _)
        (h.recorded.notify port .portRemoved) fun q => ?_
      have hsome : d.monitor.currPorts.lookup port = some status := by
        rw [h.monitored, if_pos henforce, ← h.ports, hport]
      rw [PortMonitor.lookup_notify, hsome]
      simp only [henforce, and_true]
      cases status <;> rfl
    · exact h.setPort (fun q => UnorderedMap.lookup_erase _ _ _) h.recorded fun q => by
        simp [henforce]

theorem Represents.doPortSetStatus (h : d.Represents a) (port : ℕ) {status : PortStatus}
    (hstatus : status = .portUp ∨ status = .portDown) :
    (d.doPortSetStatus port status).Represents { a with
      ports := Function.update a.ports port
        ((a.ports port).map fun _ => decide (status = .portUp)) } := by
  unfold PacketInDevMgr.doPortSetStatus
  rw [← h.ports]
  cases hport : d.portInfo.lookup port with
  | none =>
    rw [Option.isSome_none, if_neg Bool.false_ne_true, Option.map_none]
    exact h.keepPort hport
  | some current =>
    rw [Option.isSome_some, if_pos rfl, Option.map_some]
    dsimp only
    split_ifs with henforce
    · refine h.setPort (fun q => UnorderedMap.lookup_insert _ _ _ _) (h.recorded.notify port status)
        fun q => ?_
      have hsome : d.monitor.currPorts.lookup port = some current := by
        rw [h.monitored, if_pos henforce, ← h.ports, hport]
      rw [PortMonitor.lookup_notify, hsome]
      simp only [henforce, and_true]
      -- an event that says what the monitor knows is ignored
      rcases hstatus with rfl | rfl <;> cases current <;> rfl
    · exact h.setPort (fun q => UnorderedMap.lookup_insert _ _ _ _) h.recorded fun q => by
        simp [henforce]

theorem Represents.portIsUp_iff (h : d.Represents a) (port : ℕ) :
    d.portIsUp port = true ↔ (d.enforcePorts → a.ports port = some true) := by
  unfold portIsUp
  rw [h.ports]
  cases d.enforcePorts <;> simp

@[simp] theorem enforcePorts_doPortAdd (d : PacketInDevMgr) (port : ℕ) :
    (d.doPortAdd port).enforcePorts = d.enforcePorts := by
  unfold doPortAdd
  dsimp only
  split_ifs <;> rfl

@[simp] theorem enforcePorts_doPortRemove (d : PacketInDevMgr) (port : ℕ) :
    (d.doPortRemove port).enforcePorts = d.enforcePorts := by
  unfold doPortRemove
  dsimp only
  split_ifs <;> rfl

@[simp] theorem enforcePorts_doPortSetStatus (d : PacketInDevMgr) (port : ℕ)
    (status : PortStatus) : (d.doPortSetStatus port status).enforcePorts = d.enforcePorts := by
  unfold doPortSetStatus
  dsimp only
  split_ifs <;> rfl

end PacketInDevMgr

/-! ### Messages -/

theorem PacketHdr.read_write (hdr : PacketHdr) (rest : List Byte) :
    PacketHdr.format.read (PacketHdr.format.write hdr ++ rest) = some (hdr, rest) :=
  PacketHdr.format.read_write trivial

theorem InjectRequest.read_portMsg (type : PacketMsgType) (port more : BitVec 32) :
    PacketHdr.format.read (portMsg type port more) = some (⟨type.code, port, more⟩, []) := by
  have hread := PacketHdr.read_write ⟨type.code, port, more⟩ []
  rwa [List.append_nil] at hread

theorem length_word {n : ℕ} (h : n < 2 ^ 31) :
    0 ≤ (BitVec.ofNat 32 n).toInt ∧ (BitVec.ofNat 32 n).toNat = n := by
  have hnat : (BitVec.ofNat 32 n).toNat = n := by
    rw [BitVec.toNat_ofNat]
    exact Nat.mod_eq_of_lt (by omega)
  refine ⟨?_, hnat⟩
  rw [BitVec.toInt_eq_toNat_of_lt (by omega), hnat]
  exact Int.natCast_nonneg n

namespace PacketInDevMgr

variable {d : PacketInDevMgr} {a : PortAdmission}

/-- A message of the library is handled, and the device manager goes on to represent what has been
requested. -/
theorem Represents.handleMsg (h : d.Represents a) {r : InjectRequest} (hfits : r.Fits) :
    ∃ packet d', d.handleMsg r.msg = some (packet, d') ∧ d'.enforcePorts = d.enforcePorts ∧
      d'.Represents (a.next d.enforcePorts r) ∧
      (a.next d.enforcePorts r).admitted = a.admitted ++ packet.toList := by
  cases r with
  | portAdd port =>
    refine ⟨none, d.doPortAdd port.toNat, ?_, by simp, h.doPortAdd port.toNat,
      (List.append_nil _).symm⟩
    simp [PacketInDevMgr.handleMsg, InjectRequest.msg, InjectRequest.read_portMsg]
  | portRemove port =>
    refine ⟨none, d.doPortRemove port.toNat, ?_, by simp, h.doPortRemove port.toNat,
      (List.append_nil _).symm⟩
    simp [PacketInDevMgr.handleMsg, InjectRequest.msg, InjectRequest.read_portMsg]
  | portBringUp port =>
    refine ⟨none, d.doPortSetStatus port.toNat .portUp, ?_, by simp,
      h.doPortSetStatus port.toNat (.inl rfl), (List.append_nil _).symm⟩
    simp [PacketInDevMgr.handleMsg, InjectRequest.msg, InjectRequest.read_portMsg]
  | portBringDown port =>
    refine ⟨none, d.doPortSetStatus port.toNat .portDown, ?_, by simp,
      h.doPortSetStatus port.toNat (.inr rfl), (List.append_nil _).symm⟩
    simp [PacketInDevMgr.handleMsg, InjectRequest.msg, InjectRequest.read_portMsg]
  | send port buffer =>
    obtain ⟨hnonneg, hlen⟩ := length_word hfits
    have hup := h.portIsUp_iff port.toNat
    by_cases hadmit : d.enforcePorts → a.ports port.toNat = some true
    · refine ⟨some (port, buffer), d, ?_, rfl, ?_, ?_⟩
      · have hsplit : takeBytes buffer.length buffer = some (buffer, []) := by
          simp [takeBytes]
        simp [PacketInDevMgr.handleMsg, InjectRequest.msg, PacketHdr.read_write, hup.mpr hadmit,
          hnonneg, hlen, hsplit]
      · rw [PortAdmission.next, if_pos hadmit]
        exact ⟨h.ports, h.recorded, h.monitored⟩
      · rw [PortAdmission.next, if_pos hadmit]
        rfl
    · refine ⟨none, d, ?_, rfl, ?_, ?_⟩
      · have hdown : d.portIsUp port.toNat = false := Bool.eq_false_iff.mpr (mt hup.mp hadmit)
        simp [PacketInDevMgr.handleMsg, InjectRequest.msg, PacketHdr.read_write, hdown]
      · rwa [PortAdmission.next, if_neg hadmit]
      · rw [PortAdmission.next, if_neg hadmit]
        exact (List.append_nil _).symm

end PacketInDevMgr

/-- The library reads what the switch sends. -/
theorem PacketInject.receive_packetOutMsg {p : PortPacket} (h : p.2.length < 2 ^ 31) :
    PacketInject.receive (packetOutMsg p) = some (some p) := by
  obtain ⟨hnonneg, hlen⟩ := length_word h
  have hsplit : takeBytes p.2.length p.2 = some (p.2, []) := by
    simp [takeBytes]
  simp [PacketInject.receive, packetOutMsg, PacketHdr.read_write, hnonneg, hlen, hsplit]

/-! ### Runs -/

namespace PacketPipe

/-- A run, with the packets that callbacks were called with. -/
abbrev History := List (PacketPipeOp × Option PortPacket)

def requested (H : History) : List InjectRequest := H.filterMap fun p => p.1.request?

def transmitted (H : History) : List PortPacket := H.filterMap fun p => p.1.transmitted?

/-- The packets that the switch was given. -/
def handled (H : History) : List PortPacket :=
  H.filterMap fun p => if p.1.isHandleMsg then p.2 else none

/-- The packets that the client was given. -/
def received (H : History) : List PortPacket :=
  H.filterMap fun p => if p.1.isReceive then p.2 else none

/-- The requests that were handled are the first ones, and the others are on their way. -/
structure InOrder (enforcePorts : Bool) (H : History) (s : PacketPipe)
    (done rest : List InjectRequest) : Prop where
  requested_eq : requested H = done ++ rest
  toSwitch_eq : s.toSwitch = rest.map InjectRequest.msg
  handled_eq : handled H = (PortAdmission.after enforcePorts done).admitted
  represents : s.devMgr.Represents (PortAdmission.after enforcePorts done)

/-- The packets that were received are the first ones, and the others are on their way. -/
structure OutInOrder (H : History) (s : PacketPipe) (rest : List PortPacket) : Prop where
  transmitted_eq : transmitted H = received H ++ rest
  toClient_eq : s.toClient = rest.map packetOutMsg

/-- What holds along every run. -/
structure PipeInv (enforcePorts : Bool) (H : History) (s : PacketPipe) : Prop where
  enforces : s.devMgr.enforcePorts = enforcePorts
  fits : ∀ r ∈ requested H, r.Fits
  short : ∀ p ∈ transmitted H, p.2.length < 2 ^ 31
  inOrder : ∃ done rest, InOrder enforcePorts H s done rest
  outInOrder : ∃ rest, OutInOrder H s rest

variable {enforcePorts : Bool} {H : History} {s s' : PacketPipe}

theorem filterMap_concat {α β : Type*} (f : α → Option β) (l : List α) (a : α) :
    (l ++ [a]).filterMap f = l.filterMap f ++ (f a).toList := by
  rw [List.filterMap_append]
  cases h : f a <;> simp [h]

theorem requested_concat (H : History) (op : PacketPipeOp) (packet : Option PortPacket) :
    requested (H ++ [(op, packet)]) = requested H ++ op.request?.toList :=
  filterMap_concat _ H (op, packet)

theorem transmitted_concat (H : History) (op : PacketPipeOp) (packet : Option PortPacket) :
    transmitted (H ++ [(op, packet)]) = transmitted H ++ op.transmitted?.toList :=
  filterMap_concat _ H (op, packet)

theorem handled_concat (H : History) (op : PacketPipeOp) (packet : Option PortPacket) :
    handled (H ++ [(op, packet)]) =
      handled H ++ (if op.isHandleMsg then packet else none).toList :=
  filterMap_concat _ H (op, packet)

theorem received_concat (H : History) (op : PacketPipeOp) (packet : Option PortPacket) :
    received (H ++ [(op, packet)]) = received H ++ (if op.isReceive then packet else none).toList :=
  filterMap_concat _ H (op, packet)

/-- A step that has nothing to do with the packets to the client. -/
theorem OutInOrder.same {rest : List PortPacket} (h : OutInOrder H s rest) {op : PacketPipeOp}
    {packet : Option PortPacket} (htransmitted : op.transmitted? = none)
    (hreceive : op.isReceive = false) (hclient : s'.toClient = s.toClient) :
    OutInOrder (H ++ [(op, packet)]) s' rest where
  transmitted_eq := by
    rw [transmitted_concat, received_concat, htransmitted, hreceive, h.transmitted_eq]
    simp
  toClient_eq := hclient.trans h.toClient_eq

/-- A step that has nothing to do with the requests. -/
theorem InOrder.same {done rest : List InjectRequest} (h : InOrder enforcePorts H s done rest)
    {op : PacketPipeOp} {packet : Option PortPacket} (hrequest : op.request? = none)
    (hhandle : op.isHandleMsg = false) (hswitch : s'.toSwitch = s.toSwitch)
    (hdevMgr : s'.devMgr = s.devMgr) : InOrder enforcePorts (H ++ [(op, packet)]) s' done rest where
  requested_eq := by
    rw [requested_concat, hrequest, h.requested_eq]
    simp
  toSwitch_eq := hswitch.trans h.toSwitch_eq
  handled_eq := by
    rw [handled_concat, hhandle, h.handled_eq]
    simp
  represents := hdevMgr ▸ h.represents

/-- What goes in fits, if it did and the step does. -/
theorem fits_concat (hall : ∀ r ∈ requested H, r.Fits) {op : PacketPipeOp}
    {packet : Option PortPacket} (hfits : op.Fits) :
    ∀ r ∈ requested (H ++ [(op, packet)]), r.Fits := by
  intro r hr
  rw [requested_concat, List.mem_append] at hr
  rcases hr with hr | hr
  · exact hall r hr
  · cases op <;> simp [PacketPipeOp.request?] at hr
    rw [hr]
    exact hfits

theorem short_concat (hall : ∀ p ∈ transmitted H, p.2.length < 2 ^ 31) {op : PacketPipeOp}
    {packet : Option PortPacket} (hfits : op.Fits) :
    ∀ p ∈ transmitted (H ++ [(op, packet)]), p.2.length < 2 ^ 31 := by
  intro p hp
  rw [transmitted_concat, List.mem_append] at hp
  rcases hp with hp | hp
  · exact hall p hp
  · cases op <;> simp [PacketPipeOp.transmitted?] at hp
    rw [hp]
    exact hfits

/-- What one step keeps. -/
theorem PipeInv.step (h : PipeInv enforcePorts H s) {op : PacketPipeOp} {packet : Option PortPacket}
    (hfits : op.Fits) (hs : s.step op = some (packet, s')) :
    PipeInv enforcePorts (H ++ [(op, packet)]) s' := by
  have hall : ∀ r ∈ requested (H ++ [(op, packet)]), r.Fits := fits_concat h.fits hfits
  have hshort : ∀ p ∈ transmitted (H ++ [(op, packet)]), p.2.length < 2 ^ 31 :=
    short_concat h.short hfits
  obtain ⟨done, rest, hin⟩ := h.inOrder
  obtain ⟨left, hout⟩ := h.outInOrder
  cases op with
  | request r =>
    obtain ⟨rfl, rfl⟩ := Prod.mk.inj (Option.some.inj hs)
    refine ⟨h.enforces, hall, hshort, ⟨done, rest ++ [r], ?_⟩, ⟨left, hout.same rfl rfl rfl⟩⟩
    refine ⟨?_, ?_, ?_, hin.represents⟩
    · rw [requested_concat, hin.requested_eq, List.append_assoc]
      rfl
    · dsimp only
      rw [hin.toSwitch_eq, List.map_append]
      rfl
    · rw [handled_concat, hin.handled_eq]
      exact List.append_nil _
  | handleMsg =>
    cases rest with
    | nil =>
      simp [PacketPipe.step, hin.toSwitch_eq] at hs
    | cons r rest =>
      have hr : r.Fits := h.fits r (by simp [hin.requested_eq])
      obtain ⟨packet', devMgr, hhandle, henforces, hrepresents, hadmitted⟩ :=
        hin.represents.handleMsg hr
      rw [h.enforces] at hrepresents hadmitted
      simp only [PacketPipe.step, hin.toSwitch_eq, List.map_cons, hhandle, Option.bind_eq_bind,
        Option.bind_some] at hs
      obtain ⟨rfl, rfl⟩ := Prod.mk.inj (Option.some.inj hs)
      have hafter : PortAdmission.after enforcePorts (done ++ [r]) =
          (PortAdmission.after enforcePorts done).next enforcePorts r := by
        simp [PortAdmission.after]
      refine ⟨henforces.trans h.enforces, hall, hshort, ⟨done ++ [r], rest, ?_⟩,
        ⟨left, hout.same rfl rfl rfl⟩⟩
      refine ⟨?_, rfl, ?_, ?_⟩
      · rw [requested_concat, hin.requested_eq]
        simp [PacketPipeOp.request?]
      · rw [handled_concat, hin.handled_eq, hafter, hadmitted]
        rfl
      · rw [hafter]
        exact hrepresents
  | transmit port buffer =>
    obtain ⟨rfl, rfl⟩ := Prod.mk.inj (Option.some.inj hs)
    refine ⟨h.enforces, hall, hshort, ⟨done, rest, hin.same rfl rfl rfl rfl⟩,
      ⟨left ++ [(port, buffer)], ?_, ?_⟩⟩
    · rw [transmitted_concat, received_concat, hout.transmitted_eq]
      simp [PacketPipeOp.transmitted?, PacketPipeOp.isReceive]
    · dsimp only
      rw [hout.toClient_eq, List.map_append]
      rfl
  | receive =>
    cases left with
    | nil =>
      simp [PacketPipe.step, hout.toClient_eq] at hs
    | cons p left =>
      have hp : p.2.length < 2 ^ 31 := h.short p (by simp [hout.transmitted_eq])
      simp only [PacketPipe.step, hout.toClient_eq, List.map_cons,
        PacketInject.receive_packetOutMsg hp, Option.bind_eq_bind, Option.bind_some] at hs
      obtain ⟨rfl, rfl⟩ := Prod.mk.inj (Option.some.inj hs)
      refine ⟨h.enforces, hall, hshort, ⟨done, rest, hin.same rfl rfl rfl rfl⟩, ⟨left, ?_, rfl⟩⟩
      rw [transmitted_concat, received_concat, hout.transmitted_eq]
      simp [PacketPipeOp.transmitted?, PacketPipeOp.isReceive]

end PacketPipe

end Bmv2
