import Bmv2.Expressions.Eval
import Bmv2.Packet.Buffer
import Bmv2.Packet.Stacks

/-! The parser (`parser.h`, `parser.cpp`): a state executes its operations, builds a key and
goes to the next state, until there is none. States are referred to by their index. -/
namespace Bmv2
open ByteBits

/-- `field_t`. -/
structure FieldRef where
  header : ℕ
  offset : ℕ
  deriving DecidableEq

structure ParserLookAhead where
  byteOffset : ℕ
  bitOffset : ℕ
  bitwidth : ℕ
  nbytes : ℕ

/-- The constructor. -/
def ParserLookAhead.ofOffset (offset bitwidth : ℕ) : ParserLookAhead :=
  { byteOffset := offset / 8, bitOffset := offset % 8, bitwidth, nbytes := (bitwidth + 7) / 8 }

/-- `peek`; reading past the end of the packet is undefined. -/
def ParserLookAhead.peek (la : ParserLookAhead) (data : List Byte) : Option (List Byte) :=
  let data := data.drop la.byteOffset
  if la.bitOffset + la.bitwidth ≤ 8 * data.length then
    some (genericExtract data la.bitOffset la.bitwidth (List.replicate la.nbytes 0))
  else none

inductive ParserOp where
  | extract (header : ℕ)
  | extractStack (stack : ℕ)
  | setFromField (dst src : FieldRef)
  | setFromData (dst : FieldRef) (src : ℤ)
  | setFromLookahead (dst : FieldRef) (src : ParserLookAhead)
  | setFromExpression (dst : FieldRef) (src : Expression)

section Ops

variable (cast : BignumCast) (registerArrays : List (List ℤ))

/-- The value of an expression; it does not depend on what earlier evaluations left behind. -/
def PHV.evalArith (phv : PHV) (e : Expression) : Option ℤ :=
  (e.evalArith cast { phv, registerArrays } []).toOption

/-- `Header::extract` for a header of the PHV, which the length of a variable field is computed
from. -/
def PHV.extractHeader (phv : PHV) (header : ℕ) (data : List Byte) : Option (PHV × ℕ) := do
  let h ← phv.headers[header]?
  let h ← h.extract (fun h e => (phv.setHeader header h).evalArith cast registerArrays e) data
  some (phv.setHeader header h, h.nbytesPacket)

/-- Update a field. -/
def PHV.modifyField (phv : PHV) (dst : FieldRef) (f : Field → Option Field) : Option PHV := do
  let h ← phv.headers[dst.header]?
  let field ← h.fields[dst.offset]?
  let field ← f field
  some (phv.setHeader dst.header { h with fields := h.fields.set dst.offset field })

namespace PHV

variable {phv phv' : PHV} {dst ref : FieldRef} {u : Field → Option Field}

theorem modifyField_cases (h : phv.modifyField dst u = some phv') :
    ∃ hdr f f', phv.headers[dst.header]? = some hdr ∧ hdr.fields[dst.offset]? = some f ∧
      u f = some f' ∧
      phv' = phv.setHeader dst.header { hdr with fields := hdr.fields.set dst.offset f' } := by
  obtain ⟨hdr, hh, h⟩ := Option.bind_eq_some_iff.mp h
  obtain ⟨f, hf, h⟩ := Option.bind_eq_some_iff.mp h
  obtain ⟨f', hf', h⟩ := Option.bind_eq_some_iff.mp h
  exact ⟨hdr, f, f', hh, hf, hf', (Option.some.inj h).symm⟩

/-- The field is read as it has been made. -/
theorem getField_modifyField (h : phv.modifyField dst u = some phv') :
    ∃ f f', phv.getField dst.header dst.offset = some f ∧ u f = some f' ∧
      phv'.getField dst.header dst.offset = some f' := by
  obtain ⟨hdr, f, f', hh, hf, hf', rfl⟩ := modifyField_cases h
  have hlt := (List.getElem?_eq_some_iff.mp hh).1
  have hlt' := (List.getElem?_eq_some_iff.mp hf).1
  refine ⟨f, f', Option.bind_eq_some_iff.mpr ⟨hdr, hh, hf⟩, hf', ?_⟩
  exact Option.bind_eq_some_iff.mpr
    ⟨_, List.getElem?_set_self hlt, List.getElem?_set_self hlt'⟩

/-- The other fields stay, of this header and of the others. -/
theorem getField_modifyField_ne (h : phv.modifyField dst u = some phv') (hne : ref ≠ dst) :
    phv'.getField ref.header ref.offset = phv.getField ref.header ref.offset := by
  obtain ⟨hdr, f, f', hh, hf, hf', rfl⟩ := modifyField_cases h
  unfold getField setHeader
  dsimp only
  by_cases hheader : dst.header = ref.header
  · have hoffset : dst.offset ≠ ref.offset := by
      intro heq
      apply hne
      obtain ⟨header, offset⟩ := ref
      obtain ⟨header', offset'⟩ := dst
      dsimp only at hheader heq
      rw [hheader, heq]
    rw [← hheader, List.getElem?_set_self', hh]
    simp only [Option.map_eq_map, Option.map_some, Option.bind_eq_bind, Option.bind_some]
    exact List.getElem?_set_ne hoffset
  · rw [List.getElem?_set_ne hheader]

end PHV

/-- An operation on the rest of the data: the PHV after it, and the number of bytes parsed. -/
def ParserOp.exec (phv : PHV) (data : List Byte) : ParserOp → Option (PHV × ℕ)
  | .extract header => phv.extractHeader cast registerArrays header data
  | .extractStack stack => do
    let header ← phv.stackNext stack
    let (phv, bytes) ← phv.extractHeader cast registerArrays header data
    let (_, phv) ← phv.pushBack stack
    some (phv, bytes)
  | .setFromField dst src => do
    let src ← phv.getField src.header src.offset
    let phv ← phv.modifyField dst fun f => some (f.set src.value)
    some (phv, 0)
  | .setFromData dst src => do
    let phv ← phv.modifyField dst fun f => some (f.set src)
    some (phv, 0)
  | .setFromLookahead dst src => do
    let phv ← phv.modifyField dst fun f =>
      if src.bitwidth = f.nbits then f.extract (data.drop src.byteOffset) src.bitOffset
      else (src.peek data).map fun bytes => f.set (value bytes)
    some (phv, 0)
  | .setFromExpression dst src => do
    let value ← phv.evalArith cast registerArrays src
    let phv ← phv.modifyField dst fun f => some (f.set value)
    some (phv, 0)

/-- The loop of `find_next_state` over the operations. The bytes parsed are counted from the
start of the packet. -/
def ParserOp.execAll (data : List Byte) : List ParserOp → PHV × ℕ → Option (PHV × ℕ)
  | [], s => some s
  | op :: ops, (phv, bytesParsed) => do
    let (phv, bytes) ← op.exec cast registerArrays phv (data.drop bytesParsed)
    execAll data ops (phv, bytesParsed + bytes)

end Ops

/-- `ParseSwitchKeyBuilder::Entry`. -/
inductive ParseSwitchEntry where
  | field (header offset : ℕ)
  | stackField (stack offset : ℕ)
  | lookahead (la : ParserLookAhead)

/-- The bytes that an entry adds to the key. -/
def ParseSwitchEntry.bytes (phv : PHV) (data : List Byte) : ParseSwitchEntry → Option (List Byte)
  | .field header offset => (phv.getField header offset).map Field.bytes
  | .stackField stack offset => do
    let header ← phv.stackLast stack
    (phv.getField header offset).map Field.bytes
  | .lookahead la => la.peek data

/-- A case of a switch. The state is the one to go to, if any. -/
structure ParseSwitchCase where
  key : List Byte
  mask : Option (List Byte) := none
  nextState : Option ℕ

/-- The constructor with a mask, which is applied to the key. -/
def ParseSwitchCase.withMask (key mask : List Byte) (nextState : Option ℕ) : ParseSwitchCase :=
  { key := List.zipWith (· &&& ·) key mask, mask := some mask, nextState }

/-- The loop of `match` over the bytes of a key; the operands must be long enough. -/
def matchMask : List Byte → List Byte → List Byte → Option Bool
  | [], _, _ => some true
  | k :: key, i :: input, m :: mask => if k = i &&& m then matchMask key input mask else some false
  | _ :: _, _, _ => none

/-- `match`. -/
def ParseSwitchCase.matchInput (c : ParseSwitchCase) (input : List Byte) : Option Bool :=
  match c.mask with
  | none => some (c.key = input)
  | some mask => matchMask c.key input mask

structure ParseState where
  parserOps : List ParserOp := []
  keyBuilder : Option (List ParseSwitchEntry) := none
  parserSwitch : List ParseSwitchCase := []
  defaultNextState : Option ℕ := none

namespace ParseState

/-- The first case that matches decides, in the order in which they were added. -/
def switch (st : ParseState) (key : List Byte) : List ParseSwitchCase → Option (Option ℕ)
  | [] => some st.defaultNextState
  | c :: cases => do
    if ← c.matchInput key then some c.nextState else switch st key cases

/-- The choice of the next state, after the operations. -/
def nextState (st : ParseState) (data : List Byte) (s : PHV × ℕ) : Option (Option ℕ) :=
  match st.keyBuilder with
  | none => some st.defaultNextState
  | some entries => do
    let bytes ← entries.mapM (ParseSwitchEntry.bytes s.1 (data.drop s.2))
    st.switch bytes.flatten st.parserSwitch

variable (cast : BignumCast) (registerArrays : List (List ℤ))

def findNextState (st : ParseState) (data : List Byte) (s : PHV × ℕ) :
    Option (Option ℕ × (PHV × ℕ)) := do
  let s ← ParserOp.execAll cast registerArrays data st.parserOps s
  let next ← st.nextState data s
  some (next, s)

end ParseState

structure Parser where
  parseStates : List ParseState
  initState : Option ℕ

namespace Parser

variable (cast : BignumCast) (registerArrays : List (List ℤ)) (p : Parser)

/-- The loop of `parse`; `fuel` bounds the number of states that are entered. -/
def loop (data : List Byte) : ℕ → Option ℕ → PHV × ℕ → Option (PHV × ℕ)
  | _, none, s => some s
  | 0, some _, _ => none
  | fuel + 1, some i, s => do
    let st ← p.parseStates[i]?
    let (next, s) ← st.findNextState cast registerArrays data s
    loop data fuel next s

/-- `parse`. -/
def parse (fuel : ℕ) (pkt : Packet) : Option Packet :=
  match p.initState with
  | none => some pkt
  | some i => do
    let (phv, bytesParsed) ← p.loop cast registerArrays pkt.buffer.data fuel (some i) (pkt.phv, 0)
    { pkt with phv }.remove bytesParsed

/-- The path that a packet takes through the parse graph, state by state. The operations of a
state are defined only on enough data. -/
inductive Path (data : List Byte) : Option ℕ → PHV × ℕ → List ParseState → PHV × ℕ → Prop
  | done (s : PHV × ℕ) : Path data none s [] s
  | step {i : ℕ} {st : ParseState} {next : Option ℕ} {s s' t : PHV × ℕ} {path : List ParseState}
      (hstate : p.parseStates[i]? = some st)
      (hnext : st.findNextState cast registerArrays data s = some (next, s'))
      (hpath : Path data next s' path t) : Path data (some i) s (st :: path) t

variable {cast registerArrays p}

/-- Parsing ends at the end of the path. -/
theorem Path.loop {data : List Byte} {i : Option ℕ} {s t : PHV × ℕ} {path : List ParseState}
    (h : p.Path cast registerArrays data i s path t) {fuel : ℕ} (hfuel : path.length ≤ fuel) :
    p.loop cast registerArrays data fuel i s = some t := by
  induction h generalizing fuel with
  | done s => cases fuel <;> rfl
  | step hstate hnext _ ih =>
    cases fuel with
    | zero => simp at hfuel
    | succ fuel =>
      simp only [Parser.loop, hstate, hnext, Option.bind_eq_bind, Option.bind_some]
      exact ih (by simpa using hfuel)

end Parser

end Bmv2
