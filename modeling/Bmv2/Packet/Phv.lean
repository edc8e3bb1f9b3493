import Bmv2.Lib.ByteBits
import Bmv2.Expressions.Code

/-! The packet header vector (`fields.h`, `headers.h`, `header_stacks.h`, `phv.h`): headers of
fields that each hold bytes and, for arithmetic, a number. Names and debugger ids are left out. -/
namespace Bmv2
open ByteBits

/-- `Field`: a `Data` with the bytes it has in the packet. A variable-length field gets its
width, and with it `nbytes` and `mask`, when it is extracted. Only a signed field has bounds. -/
structure Field extends Data where
  nbits : ℕ
  nbytes : ℕ := (nbits + 7) / 8
  bytes : List Byte := List.replicate nbytes 0
  isSigned : Bool := false
  mask : ℤ := 2 ^ nbits - 1
  max : ℤ := if isSigned then 2 ^ (nbits - 1) - 1 else 1
  min : ℤ := if isSigned then -(2 ^ (nbits - 1)) else 1

/-- A header instance. A header of a variable-length type knows which field has that length,
and the expression for it. -/
structure Header where
  fields : List Field
  metadata : Bool := false
  valid : Bool := false
  nbytesPacket : ℕ
  vl : Option (ℕ × Expression) := none
  headerTypeId : ℕ := 0

namespace Header

def isValid (h : Header) : Bool := h.metadata || h.valid

end Header

/-- `HeaderStack`: references to the headers that make up the stack, of which the first `next`
are in use. -/
structure HeaderStack where
  headers : List ℕ
  next : ℕ := 0

structure PHV where
  headers : List Header := []
  headerStacks : List HeaderStack := []

namespace PHV

variable (phv : PHV)

/-- An unknown header is undefined, an unknown field throws. -/
def getField (header fieldOffset : ℕ) : Option Field := do
  let h ← phv.headers[header]?
  h.fields[fieldOffset]?

end PHV

end Bmv2
