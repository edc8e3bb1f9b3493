import Bmv2.Expressions.Typing

/-! What a well-behaved evaluation does at every operation, and how runs are put together. -/
namespace Bmv2

namespace Op

def dataOperands : Op → ℕ
  | .opcode (.arith _) _ | .opcode (.cmp _) _ => 2
  | .opcode .bitNeg _ | .opcode .dataToBool _ | .loadRegisterGen _ => 1
  | _ => 0

def boolOperands : Op → ℕ
  | .opcode .and _ | .opcode .or _ => 2
  | .opcode .not _ | .opcode .boolToData _ | .ternaryOp => 1
  | _ => 0

def headerOperands : Op → ℕ
  | .opcode .validHeader _ => 1
  | _ => 0

/-- The temporary that an operation writes. -/
def dest? : Op → Option ℕ
  | .opcode (.arith _) dest | .opcode .bitNeg dest | .opcode .boolToData dest => some dest
  | _ => none

/-- Every pop finds its operand, and the temporary that is written is below the register count
and not among the pointers that stay on the stack. -/
structure Safe (cnt : ℕ) (m : Machine) (op : Op) : Prop where
  dataOperands : op.dataOperands ≤ m.dataStack.length
  boolOperands : op.boolOperands ≤ m.boolStack.length
  headerOperands : op.headerOperands ≤ m.headerStack.length
  dest : ∀ d, op.dest? = some d → d < cnt ∧ .temp d ∉ m.dataStack.drop op.dataOperands

end Op

namespace Machine

variable (cast : BignumCast) (inp : EvalInput) (consts : List ℤ)

/-- One iteration of the loop. -/
def Step (c c' : List Op × Machine) : Prop :=
  ∃ op ops skip, c.1 = op :: ops ∧ c.2.exec cast inp consts op = .ok (skip, c'.2) ∧
    c'.1 = ops.drop skip

/-- An evaluation whose operations are all safe, and that ends or aborts. -/
inductive SafeFrom (cnt : ℕ) : List Op × Machine → Prop
  | done (m : Machine) : SafeFrom cnt ([], m)
  | aborted {op : Op} {ops : List Op} {m : Machine} : op.Safe cnt m →
      m.exec cast inp consts op = .error .aborted → SafeFrom cnt (op :: ops, m)
  | step {op : Op} {ops : List Op} {m m' : Machine} {skip : ℕ} : op.Safe cnt m →
      m.exec cast inp consts op = .ok (skip, m') → SafeFrom cnt (ops.drop skip, m') →
      SafeFrom cnt (op :: ops, m)

/-- Safe operations lead from one point of the code to another. -/
def Leads (cnt : ℕ) (c c' : List Op × Machine) : Prop :=
  run cast inp consts c.1 c.2 = run cast inp consts c'.1 c'.2 ∧
    (SafeFrom cast inp consts cnt c' → SafeFrom cast inp consts cnt c)

/-- Safe operations lead to one that aborts. -/
def Aborts (cnt : ℕ) (c : List Op × Machine) : Prop :=
  run cast inp consts c.1 c.2 = .error .aborted ∧ SafeFrom cast inp consts cnt c

variable {cast inp consts} {cnt : ℕ} {op : Op} {ops : List Op} {m m' : Machine} {skip : ℕ}
  {c c' c'' : List Op × Machine}

theorem Leads.trans (h : Leads cast inp consts cnt c c') (h' : Leads cast inp consts cnt c' c'') :
    Leads cast inp consts cnt c c'' :=
  ⟨h.1.trans h'.1, h.2 ∘ h'.2⟩

theorem Leads.aborts (h : Leads cast inp consts cnt c c') (h' : Aborts cast inp consts cnt c') :
    Aborts cast inp consts cnt c :=
  ⟨h.1.trans h'.1, h.2 h'.2⟩

theorem Leads.of_exec (hsafe : op.Safe cnt m) (h : m.exec cast inp consts op = .ok (skip, m')) :
    Leads cast inp consts cnt (op :: ops, m) (ops.drop skip, m') := by
  refine ⟨?_, .step hsafe h⟩
  rw [run, h]
  rfl

theorem Aborts.of_exec (hsafe : op.Safe cnt m) (h : m.exec cast inp consts op = .error .aborted) :
    Aborts cast inp consts cnt (op :: ops, m) := by
  refine ⟨?_, .aborted hsafe h⟩
  rw [run, h]
  rfl

theorem SafeFrom.of_step (h : SafeFrom cast inp consts cnt c) (hs : Step cast inp consts c c') :
    SafeFrom cast inp consts cnt c' := by
  obtain ⟨op, ops, skip, hc, hexec, hc'⟩ := hs
  obtain ⟨ops', m'⟩ := c'
  obtain rfl : ops' = _ := hc'
  cases h with
  | done m => simp at hc
  | aborted _ he =>
    obtain ⟨rfl, rfl⟩ := List.cons.inj hc
    simp [he] at hexec
  | step _ he hrest =>
    obtain ⟨rfl, rfl⟩ := List.cons.inj hc
    rw [he] at hexec
    obtain ⟨rfl, rfl⟩ := Prod.mk.inj (Except.ok.inj hexec)
    exact hrest

theorem SafeFrom.of_steps (h : SafeFrom cast inp consts cnt c)
    (hreach : Relation.ReflTransGen (Step cast inp consts) c c') :
    SafeFrom cast inp consts cnt c' := by
  induction hreach with
  | refl => exact h
  | tail _ hs ih => exact ih.of_step hs

/-- Every operation that an evaluation reaches is safe. -/
theorem SafeFrom.safe (h : SafeFrom cast inp consts cnt c)
    (hreach : Relation.ReflTransGen (Step cast inp consts) c (op :: ops, m)) : op.Safe cnt m := by
  cases h.of_steps hreach with
  | aborted hsafe _ => exact hsafe
  | step hsafe _ _ => exact hsafe

end Machine

end Bmv2
