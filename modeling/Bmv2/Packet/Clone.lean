import Bmv2.Expressions.Reads
import Bmv2.Packet.InUse
import Bmv2.Packet.Wire

/-! Clones (`clone_with_phv` of `packet.cpp`). The clone gets a PHV from the pool, to which the
validity and the values of the headers are copied, but neither the widths of variable-length
fields nor how far the header stacks are filled. -/
namespace Bmv2
open ByteBits Bisimulation

namespace PacketBuffer

variable {b b' : PacketBuffer} {n : ℕ}

/-- `clone`: a new buffer of the same size, with whatever its memory holds before the data. -/
def clone (b : PacketBuffer) (memory : ℕ → Byte) (endBytes : ℕ) : Option PacketBuffer :=
  if h : endBytes ≤ b.dataSize then
    some ⟨(List.range (b.buffer.length - endBytes)).map memory ++
        b.buffer.drop (b.buffer.length - endBytes),
      b.buffer.length - endBytes, endBytes, by
        have := b.head_add
        rw [List.length_append, List.length_map, List.length_range, List.length_drop]
        omega⟩
  else none

/-- Buffers of one size with the same data. -/
structure SameData (b b' : PacketBuffer) : Prop where
  length : b.buffer.length = b'.buffer.length
  data : b.data = b'.data

theorem SameData.dataSize (h : b.SameData b') : b.dataSize = b'.dataSize := by
  rw [← length_data, ← length_data, h.data]

theorem sameData_clone (b : PacketBuffer) (memory : ℕ → Byte) :
    ∃ b', b.clone memory b.dataSize = some b' ∧ b.SameData b' := by
  have hadd := b.head_add
  refine ⟨_, dif_pos le_rfl, ?_, ?_⟩
  · rw [List.length_append, List.length_map, List.length_range, List.length_drop]
    omega
  · have hlen : ((List.range (b.buffer.length - b.dataSize)).map memory).length =
        b.buffer.length - b.dataSize := by
      rw [List.length_map, List.length_range]
    change List.drop b.head b.buffer = List.drop (b.buffer.length - b.dataSize) (_ ++ _)
    rw [List.drop_append_of_le_length hlen.ge, List.drop_eq_nil_of_le hlen.le, List.nil_append]
    congr 1
    omega

/-- Buffers that have room for the same, with the same data behind it. -/
structure SameFrom (n : ℕ) (b b' : PacketBuffer) : Prop where
  length : b.buffer.length = b'.buffer.length
  dataSize : b.dataSize = b'.dataSize
  room : n ≤ b.dataSize
  data : b.data.drop n = b'.data.drop n

theorem SameData.push (h : b.SameData b') (n : ℕ) :
    Related (SameFrom n) (b.push n) (b'.push n) := by
  have hadd := b.head_add
  have hadd' := b'.head_add
  have hsize := h.dataSize
  have hlength := h.length
  unfold PacketBuffer.push
  by_cases hroom : b.dataSize + n ≤ b.buffer.length
  · rw [dif_pos hroom, dif_pos (by omega)]
    refine .some ⟨hlength, congrArg (· + n) hsize, Nat.le_add_left n _, ?_⟩
    have hdata := h.data
    rw [PacketBuffer.data, PacketBuffer.data] at hdata ⊢
    rw [List.drop_drop, List.drop_drop, show b.head - n + n = b.head by omega,
      show b'.head - n + n = b'.head by omega, hdata]
  · rw [dif_neg hroom, dif_neg (by omega)]
    exact .none

end PacketBuffer

namespace Packet

/-- `clone_with_phv`. The pool hands out `phv`; the time of arrival is taken again, and the size
of the payload is not known to the clone. -/
def cloneWithPhv (pkt : Packet) (memory : ℕ → Byte) (now : ℕ) (phv : PHV) : Option Packet := do
  let buffer ← pkt.buffer.clone memory pkt.buffer.dataSize
  some {
    phv := phv.copyHeaders pkt.phv
    ingressLength := pkt.ingressLength
    ingressTsMs := now
    buffer }

end Packet

/-- What can be done with a clone and with the original. -/
inductive HeaderOp where
  | pushFront (stack num : ℕ)
  | popFront (stack num : ℕ)
  | pushBack (stack : ℕ)
  | popBack (stack : ℕ)
  | readField (f : FieldRef)
  | deparse (headers : List ℕ) (checksums : List Checksum)

/-- What it gives: a number of headers, a field or bytes. -/
inductive HeaderAnswer where
  | count (n : ℕ)
  | field (d : Data) (nbits : ℕ) (bytes : List Byte)
  | bytes (l : List Byte)
  deriving DecidableEq

/-- What reading a field gives. -/
def Field.view (f : Field) : HeaderAnswer := .field f.toData f.nbits f.bytes

def HeaderOp.exec (cast : BignumCast) (registerArrays : List (List ℤ)) (pkt : Packet) :
    HeaderOp → Option (HeaderAnswer × Packet)
  | .pushFront stack num => (pkt.phv.pushFront stack num).map fun (n, phv) =>
    (.count n, { pkt with phv })
  | .popFront stack num => (pkt.phv.popFront stack num).map fun (n, phv) =>
    (.count n, { pkt with phv })
  | .pushBack stack => (pkt.phv.pushBack stack).map fun (n, phv) => (.count n, { pkt with phv })
  | .popBack stack => (pkt.phv.popBack stack).map fun (n, phv) => (.count n, { pkt with phv })
  | .readField f => (pkt.phv.getField f.header f.offset).map fun f => (f.view, pkt)
  | .deparse headers checksums => do
    let (bytes, pkt) ← (PacketOp.deparse headers checksums).exec cast registerArrays pkt
    some (.bytes bytes, pkt)

/-- What `copy_value` copies of a field. -/
def Field.content (f : Field) : ℤ × List Byte := (f.value, f.bytes)

/-- A header that is the same in the clone: the PHV from the pool has the widths already, and if
the header is not valid, its values as well. -/
def Copied (orig pooled : PHV) (i : ℕ) : Prop :=
  ∀ h g, orig.headers[i]? = some h → pooled.headers[i]? = some g →
    g.widths = h.widths ∧ (h.isValid ∨ g.fields.map Field.content = h.fields.map Field.content)

/-- A stack that is the same in the clone: it is empty. -/
def StackCopied (orig pooled : PHV) (stack : ℕ) : Prop :=
  ∀ s, orig.headerStacks[stack]? = some s → s.next = 0 ∧ ∀ i ∈ s.headers, Copied orig pooled i

/-- The headers that a checksum is computed from. -/
def Checksum.inputs (c : Checksum) : List ℕ :=
  match c.impl with
  | .calcBased calculation => calculation.entries.flatMap BufEntry.headers
  | .ipv4 _ => [c.field.header]

/-- The checksums are computed from headers that are `known`, or are not valid by then. -/
def ChecksumsClean (cast : BignumCast) (registerArrays : List (List ℤ)) (data : List Byte)
    (known : ℕ → Prop) : List Checksum → PHV → Prop
  | [], _ => True
  | c :: checksums, phv =>
    LoadsWithin (fun header _ => known header) c.conditionOps ∧
    (∀ i ∈ c.inputs, ∀ h, phv.headers[i]? = some h → h.isValid → known i) ∧
    ∀ phv', c.update phv cast registerArrays data = some phv' →
      ChecksumsClean cast registerArrays data known checksums phv'

/-- The operation stays within what is the same in the clone. -/
def HeaderOp.Clean (cast : BignumCast) (registerArrays : List (List ℤ)) (orig pooled : PHV)
    (pkt : Packet) : HeaderOp → Prop
  | .pushFront stack _ => StackCopied orig pooled stack
  | .popFront stack _ => StackCopied orig pooled stack
  | .pushBack stack => StackCopied orig pooled stack
  | .popBack stack => StackCopied orig pooled stack
  | .readField f => Copied orig pooled f.header
  | .deparse headers checksums =>
    ChecksumsClean cast registerArrays pkt.buffer.data (Copied orig pooled) checksums pkt.phv ∧
    ∀ phv, PacketOp.updateChecksums cast registerArrays pkt checksums = some phv →
      ∀ i ∈ headers, ∀ h, phv.headers[i]? = some h → h.isValid → Copied orig pooled i ∧ h.Whole

/-- PHVs that have the same headers where these are `known`, and the same stacks where these are
`live`. Of the other headers they have the same ones valid. -/
structure PHV.AgreeOn (known live : ℕ → Prop) (phv phv' : PHV) : Prop where
  headers : List.Forall₂ (fun h g => h.isValid = g.isValid ∧ h.fields.length = g.fields.length)
    phv.headers phv'.headers
  header : ∀ i, known i → phv.headers[i]? = phv'.headers[i]?
  headerStack : ∀ stack, live stack → phv.headerStacks[stack]? = phv'.headerStacks[stack]? ∧
    ∀ s, phv.headerStacks[stack]? = some s → ∀ i ∈ s.headers, known i

namespace PHV.AgreeOn

variable {known live : ℕ → Prop} {phv phv' : PHV} {h h' : Header} {s : HeaderStack}
  {i stack num : ℕ} {cast : BignumCast} {registerArrays : List (List ℤ)} {data : List Byte}

theorem setHeader (ha : AgreeOn known live phv phv')
    (hshape : h.isValid = h'.isValid ∧ h.fields.length = h'.fields.length)
    (hknown : known i → h = h') : AgreeOn known live (phv.setHeader i h) (phv'.setHeader i h') where
  headers := forall₂_set ha.headers hshape i
  header j hj := by
    unfold PHV.setHeader
    dsimp only
    by_cases hij : i = j
    · subst hij
      rw [List.getElem?_set_self', List.getElem?_set_self', ha.header i hj, hknown hj]
    · rw [List.getElem?_set_ne hij, List.getElem?_set_ne hij, ha.header j hj]
  headerStack := ha.headerStack

theorem setStack (ha : AgreeOn known live phv phv') (hs : phv.headerStacks[stack]? = some s)
    (next : ℕ) :
    AgreeOn known live (phv.setStack stack { s with next })
      (phv'.setStack stack { s with next }) where
  headers := ha.headers
  header := ha.header
  headerStack t ht := by
    obtain ⟨heq, hk⟩ := ha.headerStack t ht
    unfold PHV.setStack
    dsimp only
    by_cases hst : stack = t
    · subst hst
      rw [List.getElem?_set_self', List.getElem?_set_self', heq]
      refine ⟨rfl, fun s' hs' => ?_⟩
      rw [← heq, hs] at hs'
      obtain rfl := Option.some.inj hs'
      exact hk s hs
    · rw [List.getElem?_set_ne hst, List.getElem?_set_ne hst]
      exact ⟨heq, hk⟩

/-- As `AgreeOn`, with the stack as it was at the start of the operation. -/
def With (known live : ℕ → Prop) (stack : ℕ) (s : HeaderStack) (phv phv' : PHV) : Prop :=
  AgreeOn known live phv phv' ∧ phv.headerStacks[stack]? = some s

theorem With.modifyHeader (h : With known live stack s phv phv') (hi : known i)
    (u : Header → Header) :
    Related (With known live stack s) (phv.modifyHeader i u) (phv'.modifyHeader i u) := by
  obtain ⟨ha, hs⟩ := h
  unfold PHV.modifyHeader
  rw [← ha.header i hi]
  exact .same _ fun h _ => .some ⟨ha.setHeader ⟨rfl, rfl⟩ fun _ => rfl, hs⟩

theorem With.swapValues (h : With known live stack s phv phv') {j : ℕ} (hi : known i)
    (hj : known j) :
    Related (With known live stack s) (phv.swapValues i j) (phv'.swapValues i j) := by
  obtain ⟨ha, hs⟩ := h
  unfold PHV.swapValues
  rw [← ha.header i hi, ← ha.header j hj]
  exact .same _ fun h _ => .same _ fun g _ =>
    .some ⟨(ha.setHeader ⟨rfl, rfl⟩ fun _ => rfl).setHeader ⟨rfl, rfl⟩ fun _ => rfl, hs⟩

theorem With.swapPositions (hk : ∀ i ∈ s.headers, known i) (b : ℕ → ℕ) (positions : List ℕ)
    (h : With known live stack s phv phv') :
    Related (With known live stack s)
      (PHV.forPositions s (fun phv at_ i => do
        phv.swapValues (← at_ i) (← at_ (b i))) positions phv)
      (PHV.forPositions s (fun phv at_ i => do phv.swapValues (← at_ i) (← at_ (b i))) positions
        phv') :=
  related_forPositions (fun _ _ _ _ h => .same _ fun _ hx => .same _ fun _ hy =>
    h.swapValues (hk _ (List.mem_of_getElem? hx)) (hk _ (List.mem_of_getElem? hy))) h

theorem With.modifyPositions (hk : ∀ i ∈ s.headers, known i) (u : Header → Header)
    (positions : List ℕ) (h : With known live stack s phv phv') :
    Related (With known live stack s)
      (PHV.forPositions s (fun phv at_ i => do phv.modifyHeader (← at_ i) u) positions phv)
      (PHV.forPositions s (fun phv at_ i => do phv.modifyHeader (← at_ i) u) positions phv') :=
  related_forPositions (fun _ _ _ _ h => .same _ fun _ hx =>
    h.modifyHeader (hk _ (List.mem_of_getElem? hx)) u) h

/-- The same number, and PHVs that agree again. -/
abbrev Counts (known live : ℕ → Prop) : ℕ × PHV → ℕ × PHV → Prop := Answers (AgreeOn known live)

theorem popFront (ha : AgreeOn known live phv phv') (hl : live stack) :
    Related (Counts known live) (phv.popFront stack num) (phv'.popFront stack num) := by
  obtain ⟨heq, hk⟩ := ha.headerStack stack hl
  unfold PHV.popFront
  rw [← heq]
  refine .same _ fun s hs => .ite (fun _ => .some ⟨rfl, ha⟩) fun _ => ?_
  refine .bind (With.swapPositions (hk s hs) (· + num) _ ⟨ha, hs⟩) fun _ _ h1 => ?_
  refine .bind (With.modifyPositions (hk s hs) Header.markInvalid _ h1) fun _ _ h2 => ?_
  exact .some ⟨rfl, h2.1.setStack h2.2 _⟩

theorem pushFront (ha : AgreeOn known live phv phv') (hl : live stack) :
    Related (Counts known live) (phv.pushFront stack num) (phv'.pushFront stack num) := by
  obtain ⟨heq, hk⟩ := ha.headerStack stack hl
  unfold PHV.pushFront
  rw [← heq]
  refine .same _ fun s hs => .ite (fun _ => .some ⟨rfl, ha⟩) fun _ => ?_
  refine .ite (fun _ => .none) fun _ => ?_
  refine .bind (With.swapPositions (hk s hs) (· - num) _ ⟨ha, hs⟩) fun _ _ h1 => ?_
  refine .bind (With.modifyPositions (hk s hs) Header.markValid _ h1) fun _ _ h2 => ?_
  exact .some ⟨rfl, h2.1.setStack h2.2 _⟩

theorem pushBack (ha : AgreeOn known live phv phv') (hl : live stack) :
    Related (Counts known live) (phv.pushBack stack) (phv'.pushBack stack) := by
  obtain ⟨heq, hk⟩ := ha.headerStack stack hl
  unfold PHV.pushBack
  rw [← heq]
  refine .same _ fun s hs => .ite (fun _ => .some ⟨rfl, ha⟩) fun _ => .same _ fun x hx => ?_
  have hwith : With known live stack s phv phv' := ⟨ha, hs⟩
  refine .bind (hwith.modifyHeader (hk s hs x (List.mem_of_getElem? hx)) _) fun _ _ h1 => ?_
  exact .some ⟨rfl, h1.1.setStack h1.2 _⟩

theorem popBack (ha : AgreeOn known live phv phv') (hl : live stack) :
    Related (Counts known live) (phv.popBack stack) (phv'.popBack stack) := by
  obtain ⟨heq, hk⟩ := ha.headerStack stack hl
  unfold PHV.popBack
  rw [← heq]
  refine .same _ fun s hs => .ite (fun _ => .some ⟨rfl, ha⟩) fun _ => .same _ fun x hx => ?_
  have hwith : With known live stack s phv phv' := ⟨ha, hs⟩
  refine .bind (hwith.modifyHeader (hk s hs x (List.mem_of_getElem? hx)) _) fun _ _ h1 => ?_
  exact .some ⟨rfl, h1.1.setStack h1.2 _⟩

end PHV.AgreeOn

end Bmv2
