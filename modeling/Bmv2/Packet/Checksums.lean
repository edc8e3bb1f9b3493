import Bmv2.Packet.Deparser

/-! Checksums (`checksums.cpp`), and the input of their calculations (`BufBuilder` of
`calculations.h`). The hash functions are parameters. -/
namespace Bmv2
open ByteBits

/-- An entry of a `BufBuilder`. -/
inductive BufEntry where
  | field (f : FieldRef)
  | constant (v : List Byte) (nbits : ℕ)
  | header (hdr : ℕ)

/-- `extend`: room for more bits at the end of a buffer of `nbits`. -/
def extendBuf (buf : List Byte) (nbits : ℕ) : List Byte :=
  buf ++ List.replicate ((nbits + 7) / 8 - buf.length) 0

/-- The visitor `Deparse`: the buffer and the number of its bits. What belongs to a header that
is not valid is skipped. -/
def BufEntry.deparse (phv : PHV) (s : List Byte × ℕ) : BufEntry → Option (List Byte × ℕ)
  | .field f => do
    let h ← phv.headers[f.header]?
    if h.isValid then do
      let field ← h.fields[f.offset]?
      let buf := extendBuf s.1 (s.2 + field.nbits)
      let rest ← field.deparse (buf.drop (s.2 / 8)) (s.2 % 8)
      some (buf.take (s.2 / 8) ++ rest, s.2 + field.nbits)
    else some s
  | .constant v nbits =>
    if s.2 % 8 = 0 ∧ 8 * v.length ≤ nbits then
      some (extendBuf (s.1 ++ v) (s.2 + nbits), s.2 + nbits)
    else none
  | .header hdr =>
    if s.2 % 8 = 0 then do
      let h ← phv.headers[hdr]?
      if h.isValid then do
        let buf := extendBuf s.1 (s.2 + 8 * h.nbytesPacket)
        let rest ← h.deparse (buf.drop (s.2 / 8))
        some (buf.take (s.2 / 8) ++ rest, s.2 + 8 * h.nbytesPacket)
      else some s
    else none

/-- `NamedCalculation`. -/
structure NamedCalculation where
  entries : List BufEntry
  withPayload : Bool := false
  hash : List Byte → ℕ

/-- `output`. -/
def NamedCalculation.output (c : NamedCalculation) (phv : PHV) (data : List Byte) : Option ℕ := do
  let (buf, _) ← c.entries.foldlM (fun s entry => entry.deparse phv s) ([], 0)
  some (c.hash (if c.withPayload then buf ++ data else buf))

namespace Field

/-- `set_bytes`. -/
def setBytes (f : Field) (srcBytes : List Byte) : Option Field :=
  if srcBytes.length = f.nbytes then
    let f := { f with bytes := srcBytes }
    some (if f.arith then f.syncValue else f)
  else none

end Field

/-- What a checksum is computed from: the input of a calculation, or its own header. -/
inductive ChecksumImpl where
  | calcBased (calculation : NamedCalculation)
  | ipv4 (cksum16 : List Byte → List Byte)

structure Checksum where
  field : FieldRef
  impl : ChecksumImpl
  condition : Option Expression := none

namespace Checksum

variable (c : Checksum) (phv : PHV)

/-- `update_`. The IPv4 header is deparsed to a buffer of its own. -/
def update_ (data : List Byte) : Option PHV :=
  match c.impl with
  | .calcBased calculation => do
    let cksum ← calculation.output phv data
    phv.modifyField c.field fun f => some (f.set cksum)
  | .ipv4 cksum16 => do
    let h ← phv.headers[c.field.header]?
    if h.isValid then do
      let buffer ← h.deparse (List.replicate 60 0)
      let buffer := (buffer.set 10 0).set 11 0
      phv.modifyField c.field fun f => f.setBytes (cksum16 (buffer.take h.nbytesPacket))
    else some phv

/-- `update`, of a packet with the given data. -/
def update (cast : BignumCast) (registerArrays : List (List ℤ)) (data : List Byte) : Option PHV :=
  match c.condition with
  | none => c.update_ phv data
  | some condition => do
    let met ← (condition.evalBool cast { phv, registerArrays } []).toOption
    if met then c.update_ phv data else some phv

/-- The code of the condition, if there is one. -/
def conditionOps : List Op := (c.condition.map Expression.ops).getD []

end Checksum

end Bmv2
