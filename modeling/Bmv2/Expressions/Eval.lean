import Bmv2.Packet.Phv

/-! The stack machine that evaluates expressions (`Expression::eval_`), and the direct meaning
of the trees it is compiled from. -/
namespace Bmv2

/-- What an expression reads: the packet, the action parameters and the register arrays. -/
structure EvalInput where
  phv : PHV := {}
  locals : List Data := []
  registerArrays : List (List ℤ) := []

namespace EvalInput

variable (inp : EvalInput)

/-- `RegisterArray::at` throws for a bad index. -/
def registerAt (array idx : ℕ) : Option Data := do
  let registers ← inp.registerArrays[array]?
  let value ← registers[idx]?
  some { value }

def headerValid (header : ℕ) : Option Bool := inp.phv.headers[header]?.map Header.isValid

def field (header fieldOffset : ℕ) : Option Data :=
  (inp.phv.getField header fieldOffset).map Field.toData

end EvalInput

def ArithOp.eval (cast : BignumCast) (ld rd : Data) : ArithOp → Option ℤ
  | .add => ld.add rd
  | .sub => ld.sub rd
  | .mod => none
  | .mul => ld.multiply rd
  | .shiftLeft => ld.shiftLeft cast rd
  | .shiftRight => ld.shiftRight cast rd
  | .bitAnd => ld.bitAnd rd
  | .bitOr => ld.bitOr rd
  | .bitXor => ld.bitXor rd
  | .twoCompMod => ld.twoCompMod cast rd

def CmpOp.eval (ld rd : Data) : CmpOp → Option Bool
  | .eq => ld.checked rd fun l r => decide (l = r)
  | .neq => ld.checked rd fun l r => !decide (l = r)
  | .gt => ld.checked rd fun l r => decide (l > r)
  | .lt => ld.checked rd fun l r => decide (l < r)
  | .ge => ld.checked rd fun l r => decide (l ≥ r)
  | .le => ld.checked rd fun l r => decide (l ≤ r)

/-- A `const Data *` of the data stack. -/
inductive DataRef where
  | temp (i : ℕ)
  | field (header fieldOffset : ℕ)
  | const (offset : ℕ)
  | runtimeData (offset : ℕ)
  | register (array idx : ℕ)
  deriving DecidableEq

/-- The stacks of `eval_`, top first, and the temporaries they may point to. -/
structure Machine where
  dataTemps : List ℤ
  dataStack : List DataRef := []
  boolStack : List Bool := []
  headerStack : List ℕ := []

/-- How an evaluation can go wrong: an operand is missing, a temporary does not exist, or the
operation itself asserts or throws. -/
inductive EvalFault where
  | emptyStack | badRegister | aborted
  deriving DecidableEq

section Machine

variable (cast : BignumCast) (inp : EvalInput) (consts : List ℤ)

def Machine.deref (m : Machine) : DataRef → Option Data
  | .temp i => m.dataTemps[i]?.map fun value => { value }
  | .field header fieldOffset => inp.field header fieldOffset
  | .const offset => consts[offset]?.map fun value => { value }
  | .runtimeData offset => inp.locals[offset]?
  | .register array idx => inp.registerAt array idx

/-- Push a pointer to data that must exist. -/
def Machine.load (m : Machine) (ref : DataRef) : Except EvalFault (ℕ × Machine) :=
  match m.deref inp consts ref with
  | none => .error .aborted
  | some _ => .ok (0, { m with dataStack := ref :: m.dataStack })

def Machine.popData (m : Machine) : Except EvalFault (Data × Machine) :=
  match m.dataStack with
  | [] => .error .emptyStack
  | ref :: dataStack =>
    match m.deref inp consts ref with
    | none => .error .aborted
    | some d => .ok (d, { m with dataStack })

def Machine.popBool (m : Machine) : Except EvalFault (Bool × Machine) :=
  match m.boolStack with
  | [] => .error .emptyStack
  | b :: boolStack => .ok (b, { m with boolStack })

/-- Write a temporary and push a pointer to it. -/
def Machine.writeTemp (m : Machine) (dest : ℕ) (result : Option ℤ) :
    Except EvalFault (ℕ × Machine) :=
  match result with
  | none => .error .aborted
  | some value =>
    if dest < m.dataTemps.length then
      .ok (0, { m with
        dataTemps := m.dataTemps.set dest value
        dataStack := .temp dest :: m.dataStack })
    else .error .badRegister

def Machine.pushBool (m : Machine) (result : Option Bool) : Except EvalFault (ℕ × Machine) :=
  match result with
  | none => .error .aborted
  | some b => .ok (0, { m with boolStack := b :: m.boolStack })

/-- The switch of `eval_`: the number of operations to skip, and the machine after one. -/
def Machine.exec (m : Machine) : Op → Except EvalFault (ℕ × Machine)
  | .loadField header fieldOffset => m.load inp consts (.field header fieldOffset)
  | .loadHeader header =>
    if header < inp.phv.headers.length then
      .ok (0, { m with headerStack := header :: m.headerStack })
    else .error .aborted
  | .loadBool value => .ok (0, { m with boolStack := value :: m.boolStack })
  | .loadConst offset => m.load inp consts (.const offset)
  | .loadLocal offset => m.load inp consts (.runtimeData offset)
  | .loadRegisterRef array idx => m.load inp consts (.register array idx)
  | .loadRegisterGen array => do
    let (rd, m) ← m.popData inp consts
    match rd.getSizeT cast with
    | none => .error .aborted
    | some idx => m.load inp consts (.register array idx)
  | .opcode (.arith op) dest => do
    let (rd, m) ← m.popData inp consts
    let (ld, m) ← m.popData inp consts
    m.writeTemp dest (op.eval cast ld rd)
  | .opcode (.cmp op) _ => do
    let (rd, m) ← m.popData inp consts
    let (ld, m) ← m.popData inp consts
    m.pushBool (op.eval ld rd)
  | .opcode .and _ => do
    let (rb, m) ← m.popBool
    let (lb, m) ← m.popBool
    m.pushBool (some (lb && rb))
  | .opcode .or _ => do
    let (rb, m) ← m.popBool
    let (lb, m) ← m.popBool
    m.pushBool (some (lb || rb))
  | .opcode .not _ => do
    let (rb, m) ← m.popBool
    m.pushBool (some !rb)
  | .opcode .bitNeg dest => do
    let (rd, m) ← m.popData inp consts
    m.writeTemp dest rd.bitNeg
  | .opcode .validHeader _ =>
    match m.headerStack with
    | [] => .error .emptyStack
    | header :: headerStack => { m with headerStack }.pushBool (inp.headerValid header)
  | .opcode .dataToBool _ => do
    let (rd, m) ← m.popData inp consts
    m.pushBool (some !rd.testEq 0)
  | .opcode .boolToData dest => do
    let (rb, m) ← m.popBool
    m.writeTemp dest (some rb.toInt)
  | .ternaryOp => do
    let (rb, m) ← m.popBool
    .ok (if rb then 1 else 0, m)
  | .skip skipNum => .ok (skipNum, m)

/-- The loop of `eval_`, on the operations from the current index on. -/
def Machine.run : List Op → Machine → Except EvalFault Machine
  | [], m => .ok m
  | op :: ops, m => do
    let (skip, m) ← m.exec cast inp consts op
    run (ops.drop skip) m
termination_by ops => ops.length
decreasing_by simp only [List.length_drop, List.length_cons]; omega

end Machine

namespace Expression

variable (cast : BignumCast) (e : Expression) (inp : EvalInput)

/-- `data_temps` belongs to the thread: it keeps what earlier evaluations left in it, and only
grows. -/
def start (temps : List ℤ) : Machine :=
  { dataTemps := temps ++ List.replicate (e.dataRegistersCnt - temps.length) 0 }

def eval (temps : List ℤ) : Except EvalFault Machine :=
  Machine.run cast inp e.constValues e.ops (e.start temps)

def evalBool (temps : List ℤ) : Except EvalFault Bool := do
  let m ← e.eval cast inp temps
  let (b, _) ← m.popBool
  .ok b

def evalArith (temps : List ℤ) : Except EvalFault ℤ := do
  let m ← e.eval cast inp temps
  let (d, _) ← m.popData inp e.constValues
  .ok d.value

end Expression

/-- The value of a tree. -/
inductive ExprValue where
  | data (d : Data)
  | bool (b : Bool)
  | header (id : ℕ)
  deriving DecidableEq

/-- The value of an operator on the values of its operands; a unary operator has no left one. -/
def ExprOpcode.eval (cast : BignumCast) (inp : EvalInput) :
    ExprOpcode → Option ExprValue → ExprValue → Option ExprValue
  | .arith op, some (.data ld), .data rd => (op.eval cast ld rd).map fun v => .data { value := v }
  | .cmp op, some (.data ld), .data rd => (op.eval ld rd).map .bool
  | .and, some (.bool lb), .bool rb => some (.bool (lb && rb))
  | .or, some (.bool lb), .bool rb => some (.bool (lb || rb))
  | .not, none, .bool rb => some (.bool !rb)
  | .bitNeg, none, .data rd => rd.bitNeg.map fun v => .data { value := v }
  | .validHeader, none, .header id => (inp.headerValid id).map .bool
  | .dataToBool, none, .data rd => some (.bool !rd.testEq 0)
  | .boolToData, none, .bool rb => some (.data { value := rb.toInt })
  | _, _, _ => none

/-- The register that an index value names, which is a `size_t`. -/
def EvalInput.registerGen (cast : BignumCast) (inp : EvalInput) (array : ℕ) :
    ExprValue → Option ExprValue
  | .data d => do
    let idx ← d.getSizeT cast
    (inp.registerAt array idx).map .data
  | _ => none

/-- The direct meaning of a tree: operands from left to right, and of a ternary only the arm
that its condition takes. -/
def JsonExpression.denote (cast : BignumCast) (inp : EvalInput) :
    JsonExpression → Option ExprValue
  | .null => none
  | .expression op .null right => do
    let r ← right.denote cast inp
    op.eval cast inp
      (if op = .arith .add ∨ op = .arith .sub then some (.data { value := 0 }) else none) r
  | .expression op left right => do
    let l ← left.denote cast inp
    let r ← right.denote cast inp
    op.eval cast inp (some l) r
  | .ternary cond left right => do
    match ← cond.denote cast inp with
    | .bool true => left.denote cast inp
    | .bool false => right.denote cast inp
    | _ => none
  | .header id => if id < inp.phv.headers.length then some (.header id) else none
  | .field hdr fieldOffset => (inp.field hdr fieldOffset).map .data
  | .bool value => some (.bool value)
  | .hexstr value => some (.data { value })
  | .runtimeData offset => (inp.locals[offset]?).map .data
  | .register array index => do
    let i ← index.denote cast inp
    inp.registerGen cast array i

end Bmv2
