import Mathlib.Data.List.Basic
import Bmv2.Data

/-! The code of an expression (`expressions.cpp`) and its compilation from the configuration
(`build_expression` of `P4Objects.cpp`): trees become postfix code with relative skips, and
one pass over the code assigns the registers of the temporaries. -/
namespace Bmv2

inductive ArithOp where
  | add | sub | mod | mul | shiftLeft | shiftRight | bitAnd | bitOr | bitXor | twoCompMod
  deriving DecidableEq

inductive CmpOp where
  | eq | neq | gt | lt | ge | le
  deriving DecidableEq

/-- The opcodes of `ExprOpcode` that `push_back_op` appends. -/
inductive ExprOpcode where
  | arith (op : ArithOp)
  | cmp (op : CmpOp)
  | and | or | not | bitNeg | validHeader | dataToBool | boolToData
  deriving DecidableEq

/-- `Op`: an opcode with what the union holds for it. -/
inductive Op where
  | loadField (header fieldOffset : ℕ)
  | loadHeader (header : ℕ)
  | loadBool (value : Bool)
  | loadConst (constOffset : ℕ)
  | loadLocal (localOffset : ℕ)
  | loadRegisterRef (array idx : ℕ)
  | loadRegisterGen (array : ℕ)
  | opcode (op : ExprOpcode) (dataDestIndex : ℕ)
  | ternaryOp
  | skip (skipNum : ℕ)
  deriving DecidableEq

/-- What `assign_dest_registers` keeps while it walks through the code. `curr` is the sum of
the stack, so that the subtractions never go below zero. -/
structure DestRegisters where
  cnt : ℕ := 0
  curr : ℕ := 0
  newRegisters : List ℕ := []

namespace DestRegisters

variable (s : DestRegisters)

/-- Popping an empty `std::stack` is undefined. -/
def pop : Option DestRegisters :=
  match s.newRegisters with
  | [] => none
  | n :: newRegisters => some { s with curr := s.curr - n, newRegisters }

def push (n : ℕ) : DestRegisters :=
  { s with curr := s.curr + n, newRegisters := n :: s.newRegisters }

/-- The switch of the loop: an operation with a temporary result takes the first register that
its operands leave free. -/
def assignOp : Op → Option (Op × DestRegisters)
  | .opcode (.arith op) _ => do
    let s ← s.pop
    let s ← s.pop
    some (.opcode (.arith op) s.curr, s.push 1)
  | .opcode .bitNeg _ => do
    let s ← s.pop
    some (.opcode .bitNeg s.curr, s.push 1)
  | .opcode .boolToData _ => some (.opcode .boolToData s.curr, s.push 1)
  | .opcode (.cmp op) dest => do
    let s ← s.pop
    let s ← s.pop
    some (.opcode (.cmp op) dest, s)
  | .opcode .dataToBool dest => do
    let s ← s.pop
    some (.opcode .dataToBool dest, s)
  | .loadConst offset => some (.loadConst offset, s.push 0)
  | .loadLocal offset => some (.loadLocal offset, s.push 0)
  | .loadField header offset => some (.loadField header offset, s.push 0)
  | .loadRegisterRef array idx => some (.loadRegisterRef array idx, s.push 0)
  | .loadRegisterGen array => do
    let s ← s.pop
    some (.loadRegisterGen array, s.push 0)
  | op => some (op, s)

def assignOps (s : DestRegisters) : List Op → Option (List Op × DestRegisters)
  | [] => some ([], s)
  | op :: ops => do
    let (op, s) ← s.assignOp op
    let (ops, s) ← assignOps { s with cnt := max s.cnt s.curr } ops
    some (op :: ops, s)

end DestRegisters

structure Expression where
  ops : List Op := []
  constValues : List ℤ := []
  dataRegistersCnt : ℕ := 0
  built : Bool := false

namespace Expression

variable (e : Expression)

def pushBack (op : Op) : Expression := { e with ops := e.ops ++ [op] }

def pushBackLoadField (header fieldOffset : ℕ) : Expression :=
  e.pushBack (.loadField header fieldOffset)
def pushBackLoadHeader (header : ℕ) : Expression := e.pushBack (.loadHeader header)
def pushBackLoadBool (value : Bool) : Expression := e.pushBack (.loadBool value)
def pushBackLoadLocal (offset : ℕ) : Expression := e.pushBack (.loadLocal offset)
def pushBackLoadRegisterRef (array idx : ℕ) : Expression := e.pushBack (.loadRegisterRef array idx)
def pushBackLoadRegisterGen (array : ℕ) : Expression := e.pushBack (.loadRegisterGen array)
def pushBackOp (op : ExprOpcode) : Expression := e.pushBack (.opcode op 0)

def pushBackLoadConst (data : ℤ) : Expression :=
  { e with
    ops := e.ops ++ [.loadConst e.constValues.length]
    constValues := e.constValues ++ [data] }

end Expression

/-- The offsets of the constants move when code is appended to other code. -/
def Op.shiftConst (n : ℕ) : Op → Op
  | .loadConst offset => .loadConst (offset + n)
  | op => op

namespace Expression

variable (e : Expression)

def appendExpression (e' : Expression) : Expression :=
  { e with
    ops := e.ops ++ e'.ops.map (Op.shiftConst e.constValues.length)
    constValues := e.constValues ++ e'.constValues }

/-- `push_back_ternary_op`: each arm stands behind a skip, the first of which also jumps over
the second. -/
def pushBackTernaryOp (e1 e2 : Expression) : Expression :=
  let e := e.pushBack .ternaryOp
  let e := e.pushBack (.skip (e1.ops.length + 1))
  let e := e.appendExpression e1
  let e := e.pushBack (.skip e2.ops.length)
  e.appendExpression e2

def build : Option Expression := do
  let (ops, s) ← DestRegisters.assignOps {} e.ops
  some { e with ops, dataRegistersCnt := s.cnt, built := true }

end Expression

/-- An expression of the configuration, with the names looked up. A unary operator has no
left operand. -/
inductive JsonExpression where
  | null
  | expression (op : ExprOpcode) (left right : JsonExpression)
  | ternary (cond left right : JsonExpression)
  | header (id : ℕ)
  | field (header fieldOffset : ℕ)
  | bool (value : Bool)
  | hexstr (value : ℤ)
  | runtimeData (offset : ℕ)
  | register (array : ℕ) (index : JsonExpression)
  deriving DecidableEq

/-- `build_expression`: append the code of a tree. A register index that is a literal is
converted to an `unsigned int` here. -/
def buildExpression (cast : BignumCast) : JsonExpression → Expression → Option Expression
  | .null, e => some e
  | .expression op left right, e => do
    let e ← if (op = .arith .add ∨ op = .arith .sub) ∧ left = .null
      then some (e.pushBackLoadConst 0) else buildExpression cast left e
    let e ← buildExpression cast right e
    some (e.pushBackOp op)
  | .ternary cond left right, e => do
    let e ← buildExpression cast cond e
    let e1 ← buildExpression cast left {}
    let e2 ← buildExpression cast right {}
    some (e.pushBackTernaryOp e1 e2)
  | .header id, e => some (e.pushBackLoadHeader id)
  | .field header fieldOffset, e => some (e.pushBackLoadField header fieldOffset)
  | .bool value, e => some (e.pushBackLoadBool value)
  | .hexstr value, e => some (e.pushBackLoadConst value)
  | .runtimeData offset, e => some (e.pushBackLoadLocal offset)
  | .register _ .null, _ => none
  | .register array (.hexstr value), e => do
    let idx ← cast.toUint value
    some (e.pushBackLoadRegisterRef array idx)
  | .register array index, e => do
    let e ← buildExpression cast index e
    some (e.pushBackLoadRegisterGen array)

end Bmv2
