import Bmv2.Lib.BigEndian
import Bmv2.Lib.Records
import Bmv2.Lib.UnorderedMap

/-! The messages of the debugger, and what they are as bytes: the packed structures of the switch
(`debugger.cpp`) and the classes of the client (`p4dbg.py`), which are made from lists of their
fields. -/
namespace Bmv2
open ByteBits Records

/-- `Debugger::PacketId`. -/
structure Debugger.PacketId where
  packetId : ℕ
  copyId : ℕ
  deriving DecidableEq

/-- The requests, with what follows the header of their messages. -/
inductive DebuggerRequest where
  | continue_ | next
  | getValue (packetId : Debugger.PacketId) (id : ℕ)
  | getBacktrace (packetId : Debugger.PacketId)
  | breakPacketIn | removePacketIn
  | stopPacketIn | resumePacketIn
  | filterNotifications (ids : List Debugger.PacketId)
  | setWatchpoint (id : ℕ)
  | unsetWatchpoint (id : ℕ)
  | reset | attach | detach
  deriving DecidableEq

/-- A message of the client. -/
structure DebuggerMsg where
  reqId : ℕ
  request : DebuggerRequest
  deriving DecidableEq

/-- What follows the header of a reply. -/
inductive ReplyBody where
  | status (status aux : ℕ)
  | fieldValue (packetId : Debugger.PacketId) (id : ℕ) (bytes : List Byte)
  | backtrace (packetId : Debugger.PacketId) (stack : List (BitVec 32))
  | packetIn (packetId : Debugger.PacketId) (port : ℤ)
  | keepAlive
  deriving DecidableEq

structure DebuggerReply where
  switchId : ℕ
  reqId : ℕ
  body : ReplyBody
  deriving DecidableEq

/-- `MsgType`, the same enumeration on both sides. -/
inductive DebuggerMsgType where
  | packetIn | packetOut
  | fieldValue
  | continue_
  | next
  | getValue
  | getBacktrace | backtrace
  | breakPacketIn | removePacketIn
  | stopPacketIn | resumePacketIn
  | filterNotifications
  | setWatchpoint | unsetWatchpoint
  | status
  | reset
  | keepAlive
  | attach | detach
  deriving DecidableEq

namespace DebuggerMsgType

/-- The types in the order of their numbers. -/
def all : List DebuggerMsgType :=
  [packetIn, packetOut, fieldValue, continue_, next, getValue, getBacktrace, backtrace,
    breakPacketIn, removePacketIn, stopPacketIn, resumePacketIn, filterNotifications,
    setWatchpoint, unsetWatchpoint, status, reset, keepAlive, attach, detach]

def code (t : DebuggerMsgType) : ℤ := (all.idxOf t : ℕ)

def ofCode (code : ℤ) : Option DebuggerMsgType := all.find? fun t => t.code = code

@[simp] theorem ofCode_code (t : DebuggerMsgType) : ofCode t.code = some t := by
  cases t <;> decide

theorem code_bounds (t : DebuggerMsgType) : 0 ≤ t.code ∧ t.code < 20 := by
  cases t <;> decide

end DebuggerMsgType

/-- `int`, `uint32_t` and `uint64_t` in a packed structure. -/
abbrev intFormat : Format ℤ := Format.int 4 (by decide)

abbrev uint32Format : Format (BitVec 32) := Format.word 4

abbrev uint64Format : Format ℕ := Format.uint 8

/-! ### The switch -/

/-- `req_msg_hdr_t`: the type, the switch id and the request id. -/
def reqMsgHdr : Format (ℤ × ℤ × ℕ) := intFormat.pair (intFormat.pair uint64Format)

/-- The packet id and the copy id. -/
def packetIdFormat : Format Debugger.PacketId :=
  (uint64Format.pair uint64Format).iso
    (fun p => uint64Format.Valid p.packetId ∧ uint64Format.Valid p.copyId)
    (fun p => ⟨p.1, p.2⟩) (fun p => (p.packetId, p.copyId)) (fun _ h => ⟨h, rfl⟩)
    (fun _ h => ⟨h, rfl⟩)

/-- The memory for requests after a message was received: a longer one is cut off, and behind a
shorter one there is what was there before. -/
def storeRequest (storage msg : List Byte) : List Byte :=
  msg.take 512 ++ storage.drop msg.length

/-- `request_dispatch` with what the `req_` functions read of the message, as far as it is in the
memory. The other types fail the assertion. -/
def readRequest (storage : List Byte) : Option DebuggerMsg := do
  let ((type, _, reqId), data) ← reqMsgHdr.read storage
  let request ← match DebuggerMsgType.ofCode type with
    | some .continue_ => some .continue_
    | some .next => some .next
    | some .getValue => do
      let ((packetId, id), _) ← (packetIdFormat.pair uint64Format).read data
      some (.getValue packetId id)
    | some .getBacktrace => do
      let (packetId, _) ← packetIdFormat.read data
      some (.getBacktrace packetId)
    | some .breakPacketIn => some .breakPacketIn
    | some .removePacketIn => some .removePacketIn
    | some .stopPacketIn => some .stopPacketIn
    | some .resumePacketIn => some .resumePacketIn
    | some .filterNotifications => do
      let (nb, data) ← intFormat.read data
      let (ids, _) ← (packetIdFormat.list nb.toNat).read data
      some (.filterNotifications ids)
    | some .setWatchpoint => do
      let (id, _) ← uint64Format.read data
      some (.setWatchpoint id)
    | some .unsetWatchpoint => do
      let (id, _) ← uint64Format.read data
      some (.unsetWatchpoint id)
    | some .reset => some .reset
    | some .attach => some .attach
    | some .detach => some .detach
    | _ => none
  some ⟨reqId, request⟩

namespace ReplyBody

def msgType : ReplyBody → DebuggerMsgType
  | .status _ _ => .status
  | .fieldValue _ _ _ => .fieldValue
  | .backtrace _ _ => .backtrace
  | .packetIn _ _ => .packetIn
  | .keepAlive => .keepAlive

/-- What the send functions write behind the header. -/
def data : ReplyBody → List Byte
  | .status n aux => intFormat.write n ++ uint64Format.write aux
  | .fieldValue packetId id bytes => packetIdFormat.write packetId ++ uint64Format.write id ++
      intFormat.write bytes.length ++ bytes
  | .backtrace packetId stack => packetIdFormat.write packetId ++ intFormat.write stack.length ++
      stack.flatMap uint32Format.write
  | .packetIn packetId port => packetIdFormat.write packetId ++ intFormat.write port
  | .keepAlive => intFormat.write 0 ++ uint64Format.write 0

end ReplyBody

/-- The reply in `rep_storage`, if there is room for it. -/
def DebuggerReply.write (r : DebuggerReply) : Option (List Byte) :=
  let msg := reqMsgHdr.write (r.body.msgType.code, r.switchId, r.reqId) ++ r.body.data
  if msg.length ≤ 256 then some msg else none

/-! ### The client -/

/-- The attributes of a message. -/
inductive PyValue where
  | none_
  | int (v : ℤ)
  | str (v : List Byte)
  deriving DecidableEq

def PyValue.int? : PyValue → Option ℤ
  | .int v => some v
  | _ => none

def PyValue.str? : PyValue → Option (List Byte)
  | .str v => some v
  | _ => none

/-- The formats of a field: `"i"`, `"Q"`, or so many bytes for each of a number that is in another
field. -/
inductive FieldFormat where
  | int
  | uint64
  | raw (uf : ℕ) (src : String)
  deriving DecidableEq

abbrev MsgField := String × FieldFormat

namespace DebuggerMsgType

def basicMsg : List MsgField := [("type", .int), ("switch_id", .int), ("req_id", .uint64)]

def eventMsg : List MsgField := basicMsg ++ [("packet_id", .uint64), ("copy_id", .uint64)]

/-- The fields of the class of a message, with those that it inherits. -/
def fields : DebuggerMsgType → List MsgField
  | packetIn => eventMsg ++ [("port", .int)]
  | packetOut => eventMsg ++ [("port", .int)]
  | fieldValue => eventMsg ++ [("fid", .uint64), ("nbytes", .int), ("bytes", .raw 1 "nbytes")]
  | continue_ => basicMsg
  | next => basicMsg
  | getValue => basicMsg ++ [("packet_id", .uint64), ("copy_id", .uint64), ("fid", .uint64)]
  | getBacktrace => basicMsg ++ [("packet_id", .uint64), ("copy_id", .uint64)]
  | backtrace => basicMsg ++ [("packet_id", .uint64), ("copy_id", .uint64), ("nb", .int),
      ("ctrs", .raw 4 "nb")]
  | breakPacketIn => basicMsg
  | removePacketIn => basicMsg
  | stopPacketIn => basicMsg
  | resumePacketIn => basicMsg
  | filterNotifications => basicMsg ++ [("nb", .int), ("ids", .raw 16 "nb")]
  | setWatchpoint => basicMsg ++ [("fid", .uint64)]
  | unsetWatchpoint => basicMsg ++ [("fid", .uint64)]
  | status => basicMsg ++ [("status", .int), ("aux", .uint64)]
  | reset => basicMsg
  | keepAlive => basicMsg
  | attach => basicMsg
  | detach => basicMsg

end DebuggerMsgType

/-- The attributes of an object. -/
abbrev PyAttrs := UnorderedMap.Map String PyValue

/-- `struct.pack` of a number; what is out of range is an error. -/
def packInt (v : ℤ) : Option (List Byte) :=
  if -2 ^ 31 ≤ v ∧ v < 2 ^ 31 then some (intFormat.write v) else none

def packUint64 (v : ℤ) : Option (List Byte) :=
  if 0 ≤ v ∧ v.toNat < 2 ^ 64 then some (uint64Format.write v.toNat) else none

/-- `struct.pack` of a string, which is cut off or padded. -/
def packStr (n : ℤ) (v : List Byte) : Option (List Byte) :=
  if 0 ≤ n then some (v.take n.toNat ++ List.replicate (n.toNat - v.length) 0) else none

def MsgField.pack (attrs : PyAttrs) (f : MsgField) : Option (List Byte) := do
  let v ← attrs.lookup f.1
  match f.2 with
  | .int => v.int? >>= packInt
  | .uint64 => v.int? >>= packUint64
  | .raw uf src => do
    let width ← (← attrs.lookup src).int?
    packStr (uf * width) (← v.str?)

/-- `struct.unpack_from` of a field, with what is left of the message. Of a string, the number that
it stands for is an attribute as well. -/
def MsgField.unpack (attrs : PyAttrs) (msg : List Byte) (f : MsgField) :
    Option (PyAttrs × List Byte) :=
  match f.2 with
  | .int => do
    let (v, msg) ← intFormat.read msg
    some (attrs.insert f.1 (.int v), msg)
  | .uint64 => do
    let (v, msg) ← uint64Format.read msg
    some (attrs.insert f.1 (.int v), msg)
  | .raw uf src => do
    let width ← (← attrs.lookup src).int?
    if 0 ≤ width then do
      let (v, msg) ← takeBytes (uf * width.toNat) msg
      let number := if width = 0 then .none_ else .int (value v)
      some ((attrs.insert f.1 (.str v)).insert (f.1 ++ "_int") number, msg)
    else none

/-- The functions of `make_extract_function`. -/
def extractFields : List MsgField → PyAttrs → List Byte → Option PyAttrs
  | [], attrs, _ => some attrs
  | f :: fields, attrs, msg => do
    let (attrs, msg) ← MsgField.unpack attrs msg f
    extractFields fields attrs msg

def setAttrs (attrs : PyAttrs) (kwargs : List (String × PyValue)) : PyAttrs :=
  kwargs.foldl (fun (attrs : PyAttrs) kv => attrs.insert kv.1 kv.2) attrs

/-- A message of the client. -/
structure PyMsg where
  type : DebuggerMsgType
  attrs : PyAttrs

namespace PyMsg

/-- The functions of `make_init_function`: of the arguments, those that name a field are set. -/
def init (type : DebuggerMsgType) (kwargs : List (String × PyValue)) : PyMsg where
  type := type
  attrs :=
    let named := kwargs.filter fun kv => kv.1 ∈ type.fields.map Prod.fst
    (setAttrs ∅ named).insert "type" (.int type.code)

/-- The functions of `make_generate_function`. -/
def generate (m : PyMsg) : Option (List Byte) :=
  (m.type.fields.mapM (MsgField.pack m.attrs)).map List.flatten

/-- The `extract` of the class of the message. -/
def extract (m : PyMsg) (msg : List Byte) : Option PyMsg :=
  (extractFields m.type.fields m.attrs msg).map fun attrs => { m with attrs }

end PyMsg

/-- `wait_for_msg` for a message that has come in. -/
def waitForMsg (data : List Byte) : Option PyMsg := do
  let basic ← extractFields DebuggerMsgType.basicMsg ∅ data
  let type ← DebuggerMsgType.ofCode (← (← basic.lookup "type").int?)
  (PyMsg.init type []).extract data

/-- The contexts of a backtrace, as `do_backtrace` unpacks them. -/
def PyMsg.unpackCtrs (m : PyMsg) : Option (List ℤ) := do
  let nb ← (← m.attrs.lookup "nb").int?
  let ctrs ← (← m.attrs.lookup "ctrs").str?
  let (l, rest) ← (intFormat.list nb.toNat).read ctrs
  if rest = [] then some l else none

/-- `struct.pack("QQ", packet_id, copy_id)`. -/
def packPacketId (p : Debugger.PacketId) : Option (List Byte) := do
  let packetId ← packUint64 p.packetId
  let copyId ← packUint64 p.copyId
  some (packetId ++ copyId)

namespace DebuggerRequest

def msgType : DebuggerRequest → DebuggerMsgType
  | .continue_ => .continue_
  | .next => .next
  | .getValue _ _ => .getValue
  | .getBacktrace _ => .getBacktrace
  | .breakPacketIn => .breakPacketIn
  | .removePacketIn => .removePacketIn
  | .stopPacketIn => .stopPacketIn
  | .resumePacketIn => .resumePacketIn
  | .filterNotifications _ => .filterNotifications
  | .setWatchpoint _ => .setWatchpoint
  | .unsetWatchpoint _ => .unsetWatchpoint
  | .reset => .reset
  | .attach => .attach
  | .detach => .detach

/-- What follows the header. -/
def data : DebuggerRequest → List Byte
  | .getValue p id => packetIdFormat.write p ++ uint64Format.write id
  | .getBacktrace p => packetIdFormat.write p
  | .filterNotifications ids => intFormat.write ids.length ++ ids.flatMap packetIdFormat.write
  | .setWatchpoint id => uint64Format.write id
  | .unsetWatchpoint id => uint64Format.write id
  | _ => []

/-- The arguments with which the commands of `DebuggerAPI` make a message, less those that all
have. -/
def kwargs : DebuggerRequest → Option (List (String × PyValue))
  | .getValue p id =>
    some [("packet_id", .int p.packetId), ("copy_id", .int p.copyId), ("fid", .int id)]
  | .getBacktrace p => some [("packet_id", .int p.packetId), ("copy_id", .int p.copyId)]
  | .filterNotifications ids => do
    let s ← ids.mapM packPacketId
    some [("nb", .int ids.length), ("ids", .str s.flatten)]
  | .setWatchpoint id => some [("fid", .int id)]
  | .unsetWatchpoint id => some [("fid", .int id)]
  | _ => some []

end DebuggerRequest

/-- A request as bytes. -/
def DebuggerMsg.wire (m : DebuggerMsg) : List Byte :=
  reqMsgHdr.write (m.request.msgType.code, 0, m.reqId) ++ m.request.data

/-- The message that a command of `DebuggerAPI` sends. -/
def DebuggerMsg.generate (m : DebuggerMsg) : Option (List Byte) := do
  let kwargs ← m.request.kwargs
  (PyMsg.init m.request.msgType
    ([("switch_id", .int 0), ("req_id", .int m.reqId)] ++ kwargs)).generate

end Bmv2
