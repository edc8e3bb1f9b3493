import Bmv2.Packet.Checksums

/-! The life of a PHV (`phv.h`, `phv.cpp`, `packet.cpp`): a factory makes it, packets use it one
after the other, and their primitives (`primitives.cpp` of `simple_switch`) change it. -/
namespace Bmv2
open ByteBits

namespace Header

/-- `reset`: all fields become zero. -/
def reset (h : Header) : Header := { h with fields := h.fields.map (Field.set · 0) }

/-- `copy_fields`, for a header of the same type. -/
def copyFields (h src : Header) : Header :=
  { h with fields := List.zipWith Field.withValues h.fields src.fields }

/-- The body of the loop of `copy_headers`. -/
def copyFrom (h src : Header) : Header :=
  let h := { h with valid := src.valid, metadata := src.metadata }
  if h.valid || h.metadata then h.copyFields src else h

end Header

namespace PHV

variable (phv : PHV)

/-- `reset`: the headers keep what is in their fields. -/
def reset : PHV := { phv with headers := phv.headers.map Header.markInvalid }

def resetHeaderStacks : PHV :=
  { phv with headerStacks := phv.headerStacks.map fun s => { s with next := 0 } }

def resetMetadata : PHV :=
  { phv with headers := phv.headers.map fun h => if h.metadata then h.reset else h }

/-- What `~Packet` does to the PHV before it goes back to the pool. -/
def release : PHV := phv.reset.resetHeaderStacks

/-- `copy_headers`, from a PHV of the same context. -/
def copyHeaders (src : PHV) : PHV :=
  { phv with headers := List.zipWith Header.copyFrom phv.headers src.headers }

end PHV

/-- `HeaderDesc`. -/
structure HeaderDesc where
  headerType : HeaderType
  arithOffsets : List ℕ := []
  metadata : Bool := false

/-- The part of `push_back_header` that makes the header. The fields from which the length of
a variable-length field is computed have arithmetic enabled. -/
def HeaderDesc.create (desc : HeaderDesc) : Option Header :=
  let inputOffsets := match desc.headerType.vl with
    | none => []
    | some (_, expr) => expr.ops.filterMap fun op => match op with
      | Op.loadField _ fieldOffset => some fieldOffset
      | _ => none
  Header.ofType desc.headerType
    (fun i => desc.arithOffsets.contains i || inputOffsets.contains i) desc.metadata

/-- `HeaderStackDesc`. -/
structure HeaderStackDesc where
  headerType : HeaderType
  headers : List ℕ

/-- `PHVFactory`: the headers and the stacks of the PHVs of a context. A stack is made of
different headers, which have its type. -/
structure PHVFactory where
  headerDescs : List HeaderDesc
  headerStackDescs : List HeaderStackDesc := []
  stacks_nodup : ∀ s ∈ headerStackDescs, s.headers.Nodup := by simp
  stacks_typed : ∀ s ∈ headerStackDescs, ∀ i ∈ s.headers, ∃ desc, headerDescs[i]? = some desc ∧
    desc.headerType.fieldsInfo = s.headerType.fieldsInfo ∧
    desc.headerType.vl.isSome = s.headerType.vl.isSome := by simp

def PHVFactory.create (f : PHVFactory) : Option PHV := do
  let headers ← f.headerDescs.mapM HeaderDesc.create
  some { headers, headerStacks := f.headerStackDescs.map fun s => { headers := s.headers } }

/-- `ActionParam`, for a parameter that stands for a number. -/
inductive DataParam where
  | const (value : ℤ)
  | field (src : FieldRef)
  | actionData (offset : ℕ)
  | registerRef (array idx : ℕ)
  | registerGen (array : ℕ) (idx : Expression)
  | expression (e : Expression)

/-- `ActionParam::to<const Data &>`. -/
def DataParam.toData (cast : BignumCast) (inp : EvalInput) : DataParam → Option Data
  | .const value => some { value }
  | .field src => inp.field src.header src.offset
  | .actionData offset => inp.locals[offset]?
  | .registerRef array idx => inp.registerAt array idx
  | .registerGen array idx => do
    let value ← (idx.evalArith cast inp []).toOption
    let idx ← ({ value } : Data).getSizeT cast
    inp.registerAt array idx
  | .expression e => (e.evalArith cast inp []).toOption.map fun value => { value }

/-- Primitives of actions that change the headers. -/
inductive Primitive where
  | modifyField (dst : FieldRef) (src : DataParam)
  | addHeader (hdr : ℕ)
  | addHeaderFast (hdr : ℕ)
  | copyHeader (dst src : ℕ)
  | removeHeader (hdr : ℕ)
  | push (stack : ℕ) (num : DataParam)
  | pop (stack : ℕ) (num : DataParam)

namespace PHV

variable (phv : PHV)

/-- `add_header` resets a header that is not valid. -/
def addHeader (hdr : ℕ) : Option PHV :=
  phv.modifyHeader hdr fun h => if h.isValid then h else h.reset.markValid

def addHeaderFast (hdr : ℕ) : Option PHV := phv.modifyHeader hdr Header.markValid

def removeHeader (hdr : ℕ) : Option PHV := phv.modifyHeader hdr Header.markInvalid

/-- `copy_header` asserts that the headers are of one type. -/
def copyHeader (dst src : ℕ) : Option PHV := do
  let d ← phv.headers[dst]?
  let s ← phv.headers[src]?
  if s.isValid then
    if d.headerTypeId = s.headerTypeId ∧ d.fields.length ≤ s.fields.length then
      some (phv.setHeader dst { d with
        valid := true
        fields := List.zipWith (fun f src => f.set src.value) d.fields s.fields })
    else none
  else some (phv.setHeader dst d.markInvalid)

variable (cast : BignumCast) (registerArrays : List (List ℤ)) (actionData : List Data)

def primitive : Primitive → Option PHV
  | .modifyField dst src => do
    let src ← src.toData cast { phv, locals := actionData, registerArrays }
    phv.modifyField dst fun f => some (f.set src.value)
  | .addHeader hdr => phv.addHeader hdr
  | .addHeaderFast hdr => phv.addHeaderFast hdr
  | .copyHeader dst src => phv.copyHeader dst src
  | .removeHeader hdr => phv.removeHeader hdr
  | .push stack num => do
    let num ← num.toData cast { phv, locals := actionData, registerArrays }
    let (_, phv) ← phv.pushFront stack (← num.getUint cast)
    some phv
  | .pop stack num => do
    let num ← num.toData cast { phv, locals := actionData, registerArrays }
    let (_, phv) ← phv.popFront stack (← num.getUint cast)
    some phv

end PHV

/-- What is done with a packet. An action passes its data to its primitives, a deparser has
checksums to update. -/
inductive PacketOp where
  | parse (p : Parser) (fuel : ℕ)
  | primitive (prim : Primitive) (actionData : List Data)
  | deparse (headers : List ℕ) (checksums : List Checksum)

namespace PacketOp

variable (cast : BignumCast) (registerArrays : List (List ℤ)) (pkt : Packet)

/-- `update_checksums`. -/
def updateChecksums (checksums : List Checksum) : Option PHV :=
  checksums.foldlM (fun phv c => c.update phv cast registerArrays pkt.buffer.data) pkt.phv

/-- The answer is what has been deparsed. -/
def exec : PacketOp → Option (List Byte × Packet)
  | .parse p fuel => do
    let pkt ← p.parse cast registerArrays fuel pkt
    some ([], pkt)
  | .primitive prim actionData => do
    let phv ← pkt.phv.primitive cast registerArrays actionData prim
    some ([], { pkt with phv })
  | .deparse headers checksums => do
    let phv ← updateChecksums cast registerArrays pkt checksums
    let pkt ← ({ headers } : Deparser).deparse { pkt with phv }
    some (pkt.buffer.data, pkt)

end PacketOp

/-- The PHVs that a factory has made and packets have used. -/
inductive PHVFactory.InUse (f : PHVFactory) (cast : BignumCast) : PHV → Prop
  | create {phv : PHV} (h : f.create = some phv) : InUse f cast phv
  | release {phv : PHV} (h : InUse f cast phv) : InUse f cast phv.release
  | resetMetadata {phv : PHV} (h : InUse f cast phv) : InUse f cast phv.resetMetadata
  | copyHeaders {phv src : PHV} (h : InUse f cast phv) (hsrc : InUse f cast src) :
      InUse f cast (phv.copyHeaders src)
  | exec {registerArrays : List (List ℤ)} {pkt pkt' : Packet} {op : PacketOp} {out : List Byte}
      (h : InUse f cast pkt.phv) (hexec : op.exec cast registerArrays pkt = some (out, pkt')) :
      InUse f cast pkt'.phv

/-- The PHVs in the pool: new ones, and those that a packet has left behind. -/
inductive PHVFactory.Pooled (f : PHVFactory) (cast : BignumCast) : PHV → Prop
  | create {phv : PHV} (h : f.create = some phv) : Pooled f cast phv
  | release {phv : PHV} (h : f.InUse cast phv) : Pooled f cast phv.release

end Bmv2
