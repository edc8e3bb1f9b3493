import Mathlib.Data.Finset.Basic
import Bmv2.Debugger.Messages

/-! The debugger (`debugger.cpp`): what `DebuggerNN` does with its mutex held, for a packet thread
that notifies it and for the thread that serves the requests of the client. -/
namespace Bmv2
open ByteBits

/-- The value of `uint64_t` that stands for a context change, and for all copies of a packet. -/
def maxUint64 : ℕ := 2 ^ 64 - 1

/-- What the code may run into: assertions that fail, and steps that are not defined, which are an
access past the memory for replies or for requests and an exit from no context. -/
inductive DebuggerFault where
  | replyReady | unknownPacket | knownPacket | packetIdsCount
  | repStorage | storage | ctrStack
  deriving DecidableEq

/-- What the debugger knows of the packets in the switch: how many copies of each there are,
their registers and their stacks of context changes. -/
structure DebuggerPackets where
  packetIdsCount : UnorderedMap.Map ℕ ℕ := ∅
  packetRegistersMap : UnorderedMap.Map Debugger.PacketId (UnorderedMap.Map ℕ (List Byte)) := ∅
  packetCtrStacks : UnorderedMap.Map Debugger.PacketId (List (BitVec 32)) := ∅

namespace DebuggerPackets

variable (d : DebuggerPackets)

/-- The packet has come in, and has not gone out. -/
def Live (packetId : Debugger.PacketId) : Prop := (d.packetRegistersMap.lookup packetId).isSome

instance (packetId : Debugger.PacketId) : Decidable (d.Live packetId) :=
  inferInstanceAs (Decidable (_ = true))

def packetIdsCountGet (packetId : ℕ) : ℕ := (d.packetIdsCount.lookup packetId).getD 0

def packetIdsCountIn (packetId : ℕ) : DebuggerPackets :=
  match d.packetIdsCount.lookup packetId with
  | none => { d with packetIdsCount := d.packetIdsCount.insert packetId 1 }
  | some count => { d with packetIdsCount := d.packetIdsCount.insert packetId (count + 1) }

def packetIdsCountOut (packetId : ℕ) : Except DebuggerFault DebuggerPackets :=
  match d.packetIdsCount.lookup packetId with
  | none => .error .packetIdsCount
  | some 0 => .error .packetIdsCount
  | some 1 => .ok { d with packetIdsCount := d.packetIdsCount.erase packetId }
  | some (count + 1) => .ok { d with packetIdsCount := d.packetIdsCount.insert packetId count }

/-- The first part of `notify_update_generic`. -/
def updateRegister (packetId : Debugger.PacketId) (id : ℕ) (bytes : List Byte) :
    Except DebuggerFault DebuggerPackets :=
  match d.packetRegistersMap.lookup packetId with
  | none => .error .unknownPacket
  | some registers => .ok { d with
      packetRegistersMap := d.packetRegistersMap.insert packetId (registers.insert id bytes) }

/-- The first part of `notify_ctr_`: the change is pushed, or the last one is popped. -/
def updateCtrStack (packetId : Debugger.PacketId) (ctr : BitVec 32) (pop : Bool) :
    Except DebuggerFault DebuggerPackets :=
  match d.packetCtrStacks.lookup packetId with
  | none => .error .unknownPacket
  | some stack =>
    -- `pop_back` of an empty vector
    if pop ∧ stack = [] then .error .ctrStack
    else .ok { d with
      packetCtrStacks := d.packetCtrStacks.insert packetId
        (if pop then stack.dropLast else stack ++ [ctr]) }

/-- The part of `packet_in_` that follows its loop. -/
def enter (packetId : Debugger.PacketId) : Except DebuggerFault DebuggerPackets :=
  if d.Live packetId then .error .knownPacket
  else if (d.packetCtrStacks.lookup packetId).isSome then .error .knownPacket
  else
    let d := { d with
      packetRegistersMap := d.packetRegistersMap.insert packetId ∅
      packetCtrStacks := d.packetCtrStacks.insert packetId [] }
    .ok (d.packetIdsCountIn packetId.packetId)

/-- The part of `packet_out_` that follows its wait. -/
def leave (packetId : Debugger.PacketId) : Except DebuggerFault DebuggerPackets :=
  if ¬ d.Live packetId then .error .unknownPacket
  else if ¬ (d.packetCtrStacks.lookup packetId).isSome then .error .unknownPacket
  else
    let d := { d with
      packetRegistersMap := d.packetRegistersMap.erase packetId
      packetCtrStacks := d.packetCtrStacks.erase packetId }
    d.packetIdsCountOut packetId.packetId

end DebuggerPackets

/-- `DebuggerNN`. -/
structure DebuggerNN extends DebuggerPackets where
  stopPacketIn : Bool := false
  canContinue : Bool := true
  attached : Bool := false
  breakPacketIn : Bool := false
  breakNext : Bool := false
  watchpoints : Finset ℕ := ∅
  filter : Finset Debugger.PacketId := ∅
  filterAll : Finset ℕ := ∅
  repStorage : Option DebuggerReply := none
  replyReady : Bool := false
  switchId : ℕ := 0
  reqId : ℕ := 0

/-- The calls of a packet thread. -/
inductive PacketCall where
  | notifyUpdate (packetId : Debugger.PacketId) (id : ℕ) (bytes : List Byte) (nbits : ℕ)
  | notifyCtr (packetId : Debugger.PacketId) (ctr : BitVec 32)
  | packetIn (packetId : Debugger.PacketId) (port : ℤ)
  | packetOut (packetId : Debugger.PacketId) (port : ℤ)
  deriving DecidableEq

/-- Where a call has released the mutex: before it takes it, or in one of the waits. -/
inductive CallPoint where
  | start | waitForContinue | waitForResumePacketIn
  deriving DecidableEq

/-- `uint32_to_bytes`. -/
def uint32ToBytes (v : BitVec 32) : List Byte :=
  [24, 16, 8, 0].map fun i => (v >>> i).setWidth 8

/-- `notify_update_` of a number. -/
def PacketCall.notifyUpdateV (packetId : Debugger.PacketId) (id : ℕ) (v : BitVec 32) : PacketCall :=
  .notifyUpdate packetId id (uint32ToBytes v) 32

namespace PacketCall

def packetId : PacketCall → Debugger.PacketId
  | .notifyUpdate packetId _ _ _ => packetId
  | .notifyCtr packetId _ => packetId
  | .packetIn packetId _ => packetId
  | .packetOut packetId _ => packetId

def isPacketIn : PacketCall → Bool
  | .packetIn _ _ => true
  | _ => false

end PacketCall

namespace DebuggerNN

variable (d : DebuggerNN)

def inFilters (packetId : Debugger.PacketId) : Bool :=
  (d.filter = ∅ ∧ d.filterAll = ∅) ∨ packetId.packetId ∈ d.filterAll ∨ packetId ∈ d.filter

/-- What the send functions have in common: the reply is written before the assertion. -/
def send (body : ReplyBody) : Except DebuggerFault DebuggerNN :=
  let reply : DebuggerReply := { switchId := d.switchId, reqId := d.reqId, body }
  if reply.write.isNone then .error .repStorage
  else if d.replyReady then .error .replyReady
  else .ok { d with
    repStorage := some reply
    replyReady := true }

def sendRepStatus (status aux : ℕ) : Except DebuggerFault DebuggerNN := d.send (.status status aux)

def sendFieldValue (packetId : Debugger.PacketId) (id : ℕ) (bytes : List Byte) :
    Except DebuggerFault DebuggerNN :=
  d.send (.fieldValue packetId id bytes)

def sendBacktrace (packetId : Debugger.PacketId) (stack : List (BitVec 32)) :
    Except DebuggerFault DebuggerNN :=
  d.send (.backtrace packetId stack)

def sendPacketIn (packetId : Debugger.PacketId) (port : ℤ) : Except DebuggerFault DebuggerNN :=
  d.send (.packetIn packetId port)

def sendKeepAlive : Except DebuggerFault DebuggerNN := d.send .keepAlive

section Packets

/-- The flags when the packet threads are stopped. -/
def break_ : DebuggerNN := { d with canContinue := false, breakNext := false }

/-- The update of a field is something to stop for. -/
def breaksAt (packetId : Debugger.PacketId) (id : ℕ) : Bool :=
  d.inFilters packetId ∧ (d.breakNext ∨ id ∈ d.watchpoints)

def notifyUpdateGeneric (packetId : Debugger.PacketId) (id : ℕ) (bytes : List Byte) (nbits : ℕ) :
    Except DebuggerFault DebuggerNN := do
  let bytes := bytes.take ((nbits + 7) / 8)
  let packets ← d.updateRegister packetId id bytes
  let d := { d with toDebuggerPackets := packets }
  if d.breaksAt packetId id then
    d.break_.sendFieldValue packetId id bytes
  else .ok d

/-- An exit from a context has the highest bit set. -/
def isExit (ctr : BitVec 32) : Bool := (uint32ToBytes ctr).headD 0 &&& 0x80 ≠ 0

/-- What a call does when it has the mutex and need not wait. -/
def complete : PacketCall → Except DebuggerFault DebuggerNN
  | .notifyUpdate packetId id bytes nbits => d.notifyUpdateGeneric packetId id bytes nbits
  | .notifyCtr packetId ctr => do
    let bytes := uint32ToBytes ctr
    let packets ← d.updateCtrStack packetId ctr (isExit ctr)
    { d with toDebuggerPackets := packets }.notifyUpdateGeneric packetId maxUint64 bytes 32
  | .packetIn packetId port => do
    let packets ← d.enter packetId
    let d := { d with toDebuggerPackets := packets }
    if d.inFilters packetId ∧ (d.breakNext ∨ d.breakPacketIn) then
      d.break_.sendPacketIn packetId port
    else .ok d
  | .packetOut packetId _ => do
    let packets ← d.leave packetId
    .ok { d with toDebuggerPackets := packets }

/-- The loop of `packet_in_`, from its head to the next wait. -/
def packetInLoop (packetId : ℕ) : Option CallPoint :=
  if !d.canContinue then some .waitForContinue
  else if d.stopPacketIn ∧ d.packetIdsCountGet packetId = 0 then some .waitForResumePacketIn
  else none

/-- Where a call that gets the mutex waits next. Each wait is a loop of its own, so that a
thread may wake up at any time. -/
def waits : PacketCall → CallPoint → Option CallPoint
  | .packetIn packetId _, .start => d.packetInLoop packetId.packetId
  | .packetIn packetId _, .waitForContinue =>
    if !d.canContinue then some .waitForContinue
    else if d.packetIdsCountGet packetId.packetId = 0 ∧ d.stopPacketIn then
      some .waitForResumePacketIn
    else d.packetInLoop packetId.packetId
  | .packetIn packetId _, .waitForResumePacketIn =>
    if d.stopPacketIn then some .waitForResumePacketIn else d.packetInLoop packetId.packetId
  | _, _ => if d.canContinue then none else some .waitForContinue

end Packets

section Requests

def reqContinue : DebuggerNN := { d with canContinue := true }

def reqNext : DebuggerNN := { d with canContinue := true, breakNext := true }

def reqGetValue (packetId : Debugger.PacketId) (id : ℕ) : Except DebuggerFault DebuggerNN :=
  match d.packetRegistersMap.lookup packetId with
  | none => d.sendRepStatus 1 0
  | some registers =>
    match registers.lookup id with
    | none => d.sendRepStatus 2 0
    | some bytes => d.sendFieldValue packetId id bytes

def reqGetBacktrace (packetId : Debugger.PacketId) : Except DebuggerFault DebuggerNN :=
  match d.packetCtrStacks.lookup packetId with
  | none => d.sendRepStatus 1 0
  | some stack => d.sendBacktrace packetId stack

def reqBreakPacketIn : Except DebuggerFault DebuggerNN :=
  { d with breakPacketIn := true }.sendRepStatus 0 0

def reqRemovePacketIn : Except DebuggerFault DebuggerNN :=
  if !d.breakPacketIn then d.sendRepStatus 1 0
  else { d with breakPacketIn := false }.sendRepStatus 0 0

def reqStopPacketIn : Except DebuggerFault DebuggerNN :=
  { d with stopPacketIn := true }.sendRepStatus 0 0

def reqResumePacketIn : Except DebuggerFault DebuggerNN :=
  if !d.stopPacketIn then d.sendRepStatus 1 0
  else { d with stopPacketIn := false }.sendRepStatus 0 0

/-- One identifier of the list: it stands for one copy, or for all copies. -/
def addFilter (id : Debugger.PacketId) : DebuggerNN :=
  if id.copyId = maxUint64 then { d with filterAll := insert id.packetId d.filterAll }
  else { d with filter := insert id d.filter }

def reqFilterNotifications (ids : List Debugger.PacketId) : Except DebuggerFault DebuggerNN :=
  (ids.foldl addFilter { d with filter := ∅, filterAll := ∅ }).sendRepStatus 0 0

def reqSetWatchpoint (id : ℕ) : Except DebuggerFault DebuggerNN :=
  { d with watchpoints := insert id d.watchpoints }.sendRepStatus 0 0

def reqUnsetWatchpoint (id : ℕ) : Except DebuggerFault DebuggerNN :=
  if id ∈ d.watchpoints then { d with watchpoints := d.watchpoints.erase id }.sendRepStatus 0 0
  else d.sendRepStatus 1 0

/-- `reset_state` also resets the number of the request that is being served. -/
def resetState : DebuggerNN :=
  { d with
    watchpoints := ∅
    filter := ∅
    filterAll := ∅
    breakPacketIn := false
    reqId := 0
    stopPacketIn := false }

def reqReset : Except DebuggerFault DebuggerNN := d.resetState.sendRepStatus 0 0

def reqAttach : Except DebuggerFault DebuggerNN :=
  if d.attached then d.sendRepStatus 1 0
  else { d with attached := true, canContinue := false }.resetState.sendRepStatus 0 0

def reqDetach : Except DebuggerFault DebuggerNN :=
  if !d.attached then d.sendRepStatus 1 0
  else { { d with attached := false }.resetState with canContinue := true }.sendRepStatus 0 0

def requestDispatch : DebuggerRequest → Except DebuggerFault DebuggerNN
  | .continue_ => .ok d.reqContinue
  | .next => .ok d.reqNext
  | .getValue packetId id => d.reqGetValue packetId id
  | .getBacktrace packetId => d.reqGetBacktrace packetId
  | .breakPacketIn => d.reqBreakPacketIn
  | .removePacketIn => d.reqRemovePacketIn
  | .stopPacketIn => d.reqStopPacketIn
  | .resumePacketIn => d.reqResumePacketIn
  | .filterNotifications ids => d.reqFilterNotifications ids
  | .setWatchpoint id => d.reqSetWatchpoint id
  | .unsetWatchpoint id => d.reqUnsetWatchpoint id
  | .reset => d.reqReset
  | .attach => d.reqAttach
  | .detach => d.reqDetach

/-- The request is read from the memory that the message was received in, which holds no more than
the start of a long one. -/
def requestIn (storage : List Byte) : Except DebuggerFault DebuggerNN :=
  match readRequest storage with
  | none => .error .storage
  | some m => d.requestDispatch m.request

end Requests

/-! ### The sizes -/

/-- What is sent of a call fits in the memory for replies, and no context is left that was not
entered. -/
def CallInBounds : PacketCall → Prop
  | .notifyUpdate packetId id bytes nbits =>
    d.breaksAt packetId id → (bytes.take ((nbits + 7) / 8)).length ≤ 212
  | .notifyCtr packetId ctr => isExit ctr → d.packetCtrStacks.lookup packetId ≠ some []
  | _ => True

instance : DecidablePred d.CallInBounds := fun c => by
  cases c <;> unfold CallInBounds <;> infer_instance

/-- A request can be read from the memory for requests, and what it asks for fits in the memory for
replies. -/
def RequestInBounds : DebuggerRequest → Prop
  | .getValue packetId id => ∀ registers ∈ d.packetRegistersMap.lookup packetId,
      ∀ bytes ∈ registers.lookup id, bytes.length ≤ 212
  | .getBacktrace packetId => ∀ stack ∈ d.packetCtrStacks.lookup packetId, stack.length ≤ 55
  | .filterNotifications ids => ids.length ≤ 30
  | _ => True

instance : DecidablePred d.RequestInBounds := fun r => by
  cases r <;> unfold RequestInBounds <;> infer_instance

end DebuggerNN

end Bmv2
