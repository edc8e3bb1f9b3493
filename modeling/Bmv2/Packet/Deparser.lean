import Bmv2.Packet.Parser

/-! The deparser (`deparser.cpp`): the headers that are valid are put in front of the data. -/
namespace Bmv2
open ByteBits

/-- Where `checksums` update the headers is up to each of them. -/
structure Deparser where
  headers : List ℕ := []
  checksums : List (PHV → PHV) := []

namespace Deparser

variable (d : Deparser)

/-- The headers that are deparsed. -/
def validHeaders (phv : PHV) : Option (List Header) := do
  let headers ← d.headers.mapM (phv.headers[·]?)
  some (headers.filter Header.isValid)

/-- `get_headers_size`. -/
def headersSize (headers : List Header) : ℕ := (headers.map Header.nbytesPacket).sum

/-- The loop of `deparse`, on the rest of the buffer. -/
def deparseHeaders : List Header → List Byte → Option (List Byte)
  | [], data => some data
  | h :: headers, data => do
    let data ← h.deparse data
    let rest ← deparseHeaders headers (data.drop h.nbytesPacket)
    some (data.take h.nbytesPacket ++ rest)

/-- `deparse`. -/
def deparse (pkt : Packet) : Option Packet := do
  let phv := d.checksums.foldl (fun phv update => update phv) pkt.phv
  let headers ← d.validHeaders phv
  let pkt ← { pkt with phv }.prepend (headersSize headers)
  let buffer ← pkt.buffer.write (deparseHeaders headers)
  some { pkt with buffer }

/-- What the headers write, where that is defined. -/
def putHeaders : List Header → List Byte → List Byte
  | [], data => data
  | h :: headers, data =>
    let data := h.put data
    data.take h.nbytesPacket ++ putHeaders headers (data.drop h.nbytesPacket)

theorem length_putHeaders (headers : List Header) (data : List Byte) :
    (putHeaders headers data).length = data.length := by
  induction headers generalizing data with
  | nil => rfl
  | cons h headers ih =>
    rw [putHeaders, List.length_append, ih, List.length_take, List.length_drop, Header.length_put]
    omega

end Deparser

end Bmv2
