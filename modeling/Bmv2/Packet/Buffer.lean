import Bmv2.Packet.Phv

/-! The data of a packet (`packet_buffer.h`, `packet.h`). It stands at the end of a buffer, so
that headers can be put in front of it. -/
namespace Bmv2
open ByteBits

/-- `PacketBuffer`: from `head` on the buffer holds the data. -/
structure PacketBuffer where
  buffer : List Byte := []
  head : ℕ := 0
  dataSize : ℕ := 0
  head_add : head + dataSize = buffer.length := by rfl

namespace PacketBuffer

variable (b : PacketBuffer)

/-- The bytes from `start()` to `end()`. -/
def data : List Byte := b.buffer.drop b.head

/-- `push`: the pointer moves back, over bytes that are left as they are. -/
def push (bytes : ℕ) : Option PacketBuffer :=
  if h : b.dataSize + bytes ≤ b.buffer.length then
    some ⟨b.buffer, b.head - bytes, b.dataSize + bytes, by have := b.head_add; omega⟩
  else none

def pop (bytes : ℕ) : Option PacketBuffer :=
  if h : bytes ≤ b.dataSize then
    some ⟨b.buffer, b.head + bytes, b.dataSize - bytes, by have := b.head_add; omega⟩
  else none

/-- Writing through the pointer to the data, within the buffer. -/
def write (f : List Byte → Option (List Byte)) : Option PacketBuffer := do
  let data ← f b.data
  if h : data.length = b.dataSize then
    some ⟨b.buffer.take b.head ++ data, b.head, b.dataSize, by
      have := b.head_add
      rw [List.length_append, List.length_take]
      omega⟩
  else none

variable {b}

@[simp] theorem length_data : b.data.length = b.dataSize := by
  have := b.head_add
  rw [data, List.length_drop]
  omega

/-- What is written is the data afterwards; the rest of the buffer stays. -/
theorem write_cases {f : List Byte → Option (List Byte)} {b' : PacketBuffer}
    (h : b.write f = some b') : f b.data = some b'.data ∧ b'.head = b.head ∧
      b'.dataSize = b.dataSize ∧ b'.buffer.take b.head = b.buffer.take b.head := by
  obtain ⟨l, hl, h⟩ := Option.bind_eq_some_iff.mp h
  split_ifs at h with hlen
  obtain rfl := Option.some.inj h
  have hadd := b.head_add
  have htake : (b.buffer.take b.head).length = b.head := by
    rw [List.length_take]
    omega
  refine ⟨?_, rfl, rfl, ?_⟩
  · rw [hl, data, List.drop_append_of_le_length htake.ge, List.drop_eq_nil_of_le htake.le,
      List.nil_append]
  · rw [List.take_append_of_le_length htake.ge, List.take_take, Nat.min_self]

theorem length_write {f : List Byte → Option (List Byte)} {b' : PacketBuffer}
    (h : b.write f = some b') :
    b'.buffer.length = b.buffer.length := by
  obtain ⟨-, hhead, hsize, -⟩ := write_cases h
  rw [← b.head_add, ← b'.head_add, hhead, hsize]

theorem write_eq_some {f : List Byte → Option (List Byte)} {l : List Byte}
    (hl : f b.data = some l) (hlen : l.length = b.dataSize) :
    ∃ b', b.write f = some b' ∧ b'.data = l := by
  obtain ⟨b', hwrite⟩ : ∃ b', b.write f = some b' := by
    rw [write, hl]
    exact ⟨_, dif_pos hlen⟩
  exact ⟨b', hwrite, Option.some.inj ((write_cases hwrite).1.symm.trans hl)⟩

theorem pop_zero : b.pop 0 = some b := by
  rw [pop, dif_pos (Nat.zero_le _)]
  rfl

/-- What is popped can be pushed again, and is still there. -/
theorem push_pop {n : ℕ} (h : n ≤ b.dataSize) :
    ∃ b', b.pop n = some b' ∧ b'.data = b.data.drop n ∧ b'.push n = some b := by
  have hadd := b.head_add
  refine ⟨_, dif_pos h, ?_, ?_⟩
  · rw [data, data, List.drop_drop]
  · rw [push, dif_pos (show b.dataSize - n + n ≤ b.buffer.length by omega)]
    obtain ⟨buffer, head, dataSize, _⟩ := b
    simp only [Option.some.injEq, PacketBuffer.mk.injEq, true_and]
    dsimp only at h
    omega

end PacketBuffer

/-- A packet, with what the tables, the parser and the deparser use of it. -/
structure Packet where
  phv : PHV
  ingressLength : ℕ := 0
  ingressTsMs : ℕ := 0
  buffer : PacketBuffer := {}
  payloadSize : ℕ := 0

namespace Packet

variable (pkt : Packet)

def prepend (bytes : ℕ) : Option Packet := do
  let buffer ← pkt.buffer.push bytes
  some { pkt with buffer }

/-- `remove` keeps the payload. -/
def remove (bytes : ℕ) : Option Packet :=
  if pkt.payloadSize + bytes ≤ pkt.buffer.dataSize then do
    let buffer ← pkt.buffer.pop bytes
    some { pkt with buffer }
  else none

end Packet

end Bmv2
