import Bmv2.Expressions.Safety

/-! Compiled expressions evaluate to the value of their tree. The register pass walks through
both arms of every ternary, so its stack only ever grows above what an operand started from;
a temporary that is written is therefore above all pointers that are still needed. -/
namespace Bmv2

namespace DestRegisters

variable {s s' : DestRegisters}

/-- The count after an operation. -/
def bump (s : DestRegisters) : DestRegisters := { s with cnt := max s.cnt s.curr }

theorem assignOps_cons {op op' : Op} {ops : List Op} (h : s.assignOp op = some (op', s')) :
    s.assignOps (op :: ops) =
      (s'.bump.assignOps ops).map fun p => (op' :: p.1, p.2) := by
  rw [assignOps, h]
  cases hops : s'.bump.assignOps ops <;> simp_all [bump]

theorem assignOps_append {ops ops' code code' : List Op} {s'' : DestRegisters}
    (h : s.assignOps ops = some (code, s')) (h' : s'.assignOps ops' = some (code', s'')) :
    s.assignOps (ops ++ ops') = some (code ++ code', s'') := by
  induction ops generalizing s code with
  | nil =>
    obtain ⟨rfl, rfl⟩ := Prod.mk.inj (Option.some.inj h)
    exact h'
  | cons op ops ih =>
    obtain ⟨⟨op', s₁⟩, hop, h⟩ := Option.bind_eq_some_iff.mp h
    obtain ⟨⟨code₁, s₂⟩, hops, h⟩ := Option.bind_eq_some_iff.mp h
    obtain ⟨rfl, rfl⟩ := Prod.mk.inj (Option.some.inj h)
    rw [List.cons_append, assignOps_cons hop, bump, ih hops]
    rfl

/-- What the register pass does to its state over the code of an operand: it leaves more on
its stack, and something if the operand is data. -/
structure Grown (s s' : DestRegisters) (τ : ExprType) : Prop where
  stack : ∃ extra, s'.newRegisters = extra ++ s.newRegisters ∧ (τ = .data → 1 ≤ extra.length)
  curr : s'.curr = s'.newRegisters.sum
  cnt : s.cnt ≤ s'.cnt

theorem Grown.le {τ : ExprType} (h : Grown s s' τ) (hs : s.curr = s.newRegisters.sum) :
    s.curr ≤ s'.curr := by
  obtain ⟨extra, he, -⟩ := h.stack
  rw [h.curr, he, hs, List.sum_append]
  exact Nat.le_add_left _ _

theorem pop_cons {n : ℕ} {l : List ℕ} (h : s.newRegisters = n :: l)
    (hs : s.curr = s.newRegisters.sum) :
    s.pop = some { s with curr := l.sum, newRegisters := l } := by
  rw [pop, h]
  simp [hs, h]

/-- The state below the operands of an operator. -/
def restore (s : DestRegisters) (l : List ℕ) : DestRegisters :=
  { s with curr := l.sum, newRegisters := l }

/-- The registers of an operator: its operands give theirs back, and its result takes the
first free one, which is above all that was there before the operands. -/
theorem assignOp_opcode {op : ExprOpcode} {d : ℕ} {extra below : List ℕ}
    (hstack : s.newRegisters = extra ++ below) (hs : s.curr = s.newRegisters.sum)
    (hlen : (Op.opcode op d).dataOperands ≤ extra.length) :
    ∃ dest s', s.assignOp (.opcode op d) = some (.opcode op dest, s') ∧
      (∃ extra', s'.newRegisters = extra' ++ below ∧
        ((Op.opcode op d).dest?.isSome → 1 ≤ extra'.length)) ∧
      s'.curr = s'.newRegisters.sum ∧ s'.cnt = s.cnt ∧
      ((Op.opcode op d).dest?.isSome → below.sum ≤ dest ∧ dest < s'.curr) := by
  have hpush : ∀ l : List ℕ, ((s.restore (l ++ below)).push 1).curr =
      ((s.restore (l ++ below)).push 1).newRegisters.sum := by
    intro l
    simp [restore, push, add_comm]
  have hdest : ∀ l : List ℕ, below.sum ≤ (s.restore (l ++ below)).curr ∧
      (s.restore (l ++ below)).curr < ((s.restore (l ++ below)).push 1).curr := by
    intro l
    simp [restore, push]
  cases op with
  | arith op =>
    match extra, hlen with
    | a :: b :: l, _ =>
      refine ⟨(s.restore (l ++ below)).curr, (s.restore (l ++ below)).push 1, ?_,
        ⟨1 :: l, rfl, by simp⟩, hpush l, rfl, fun _ => hdest l⟩
      simp only [assignOp, pop_cons hstack hs, Option.bind_eq_bind, Option.bind_some]
      rw [pop_cons rfl rfl, Option.bind_some]
      rfl
  | cmp op =>
    match extra, hlen with
    | a :: b :: l, _ =>
      refine ⟨d, s.restore (l ++ below), ?_, ⟨l, rfl, by simp [Op.dest?]⟩, rfl, rfl,
        by simp [Op.dest?]⟩
      simp only [assignOp, pop_cons hstack hs, Option.bind_eq_bind, Option.bind_some]
      rw [pop_cons rfl rfl, Option.bind_some]
      rfl
  | bitNeg =>
    match extra, hlen with
    | a :: l, _ =>
      refine ⟨(s.restore (l ++ below)).curr, (s.restore (l ++ below)).push 1, ?_,
        ⟨1 :: l, rfl, by simp⟩, hpush l, rfl, fun _ => hdest l⟩
      simp only [assignOp, pop_cons hstack hs, Option.bind_eq_bind, Option.bind_some]
      rfl
  | dataToBool =>
    match extra, hlen with
    | a :: l, _ =>
      refine ⟨d, s.restore (l ++ below), ?_, ⟨l, rfl, by simp [Op.dest?]⟩, rfl, rfl,
        by simp [Op.dest?]⟩
      simp only [assignOp, pop_cons hstack hs, Option.bind_eq_bind, Option.bind_some]
      rfl
  | boolToData =>
    refine ⟨s.curr, s.push 1, rfl, ⟨1 :: extra, by simp [push, hstack], by simp⟩, ?_, rfl,
      fun _ => ?_⟩
    · simp [push, hs, add_comm]
    · simp [push, hs, hstack]
  | and | or | not | validHeader =>
    exact ⟨d, s, rfl, ⟨extra, hstack, by simp [Op.dest?]⟩, hs, rfl, by simp [Op.dest?]⟩

/-- The register pass over an operator behind its operands. -/
theorem Grown.opcode {s₁ : DestRegisters} {τ : ExprType} {op : ExprOpcode} {ops code : List Op}
    {extra : List ℕ} (hs : s.curr = s.newRegisters.sum) (hcurr : s₁.curr = s₁.newRegisters.sum)
    (hcnt : s.cnt ≤ s₁.cnt) (hstack : s₁.newRegisters = extra ++ s.newRegisters)
    (hlen : (Op.opcode op 0).dataOperands ≤ extra.length)
    (hops : s.assignOps ops = some (code, s₁)) (hτ : τ = .data → (Op.opcode op 0).dest?.isSome) :
    ∃ dest s', s.assignOps (ops ++ [.opcode op 0]) = some (code ++ [.opcode op dest], s') ∧
      s.Grown s' τ ∧ s₁.cnt ≤ s'.cnt ∧
      ((Op.opcode op dest).dest?.isSome → s.curr ≤ dest ∧ dest < s'.curr ∧ dest < s'.cnt) := by
  obtain ⟨dest, s', hassign, ⟨extra', hs', hne⟩, hcurr', hcnt', hdest⟩ :=
    assignOp_opcode hstack hcurr hlen
  have hsome : (Op.opcode op dest).dest?.isSome = (Op.opcode op 0).dest?.isSome := by
    cases op <;> rfl
  refine ⟨dest, s'.bump, assignOps_append hops (by rw [assignOps_cons hassign]; rfl),
    ⟨⟨extra', hs', fun h => hne (hτ h)⟩, hcurr', ?_⟩, ?_, fun h => ?_⟩
  · exact hcnt.trans (hcnt' ▸ le_max_left _ _)
  · exact hcnt' ▸ le_max_left _ _
  · obtain ⟨h1, h2⟩ := hdest (hsome ▸ h)
    exact ⟨hs ▸ h1, h2, h2.trans_le (le_max_right _ _)⟩

end DestRegisters

namespace Machine

variable {cast : BignumCast} {inp : EvalInput} {consts : List ℤ} {base top : ℕ}
  {m m₀ m₁ m₂ : Machine}

/-- The stacks are as they were, and so are the temporaries below `base`. -/
structure Restored (base : ℕ) (m m₁ : Machine) : Prop where
  length : m₁.dataTemps.length = m.dataTemps.length
  below : ∀ i < base, m₁.dataTemps[i]? = m.dataTemps[i]?
  dataStack : m₁.dataStack = m.dataStack
  boolStack : m₁.boolStack = m.boolStack
  headerStack : m₁.headerStack = m.headerStack

theorem Restored.refl (base : ℕ) (m : Machine) : Restored base m m :=
  ⟨rfl, fun _ _ => rfl, rfl, rfl, rfl⟩

theorem Restored.trans {base' : ℕ} (h : Restored base m m₁) (h' : Restored base' m₁ m₂)
    (hle : base ≤ base') : Restored base m m₂ where
  length := h'.length.trans h.length
  below i hi := (h'.below i (by omega)).trans (h.below i hi)
  dataStack := h'.dataStack.trans h.dataStack
  boolStack := h'.boolStack.trans h.boolStack
  headerStack := h'.headerStack.trans h.headerStack

/-- A pointer to a temporary below `base`, or to something else, keeps its data. -/
theorem Restored.deref (h : Restored base m m₁) {ref : DataRef}
    (href : ∀ i, ref = .temp i → i < base) : m₁.deref inp consts ref = m.deref inp consts ref := by
  cases ref with
  | temp i => simp only [Machine.deref, h.below i (href i rfl)]
  | field | const | runtimeData | register => rfl

/-- The machine with a pointer on top of its data stack. -/
def withData (m : Machine) (ref : DataRef) : Machine := { m with dataStack := ref :: m.dataStack }
def withBool (m : Machine) (b : Bool) : Machine := { m with boolStack := b :: m.boolStack }
def withHeader (m : Machine) (id : ℕ) : Machine := { m with headerStack := id :: m.headerStack }

@[simp] theorem deref_withData (ref ref' : DataRef) :
    (m.withData ref).deref inp consts ref' = m.deref inp consts ref' := by
  cases ref' <;> rfl

/-- A value has been put on the stack of its type. A temporary that holds it is between `base`
and `top`. -/
inductive Pushed (inp : EvalInput) (consts : List ℤ) (base top : ℕ) (m : Machine) :
    ExprValue → Machine → Prop
  | data {m₀ : Machine} {d : Data} {ref : DataRef} : Restored base m m₀ →
      m₀.deref inp consts ref = some d → (∀ i, ref = .temp i → base ≤ i ∧ i < top) →
      Pushed inp consts base top m (.data d) (m₀.withData ref)
  | bool {m₀ : Machine} (b : Bool) : Restored base m m₀ →
      Pushed inp consts base top m (.bool b) (m₀.withBool b)
  | header {m₀ : Machine} (id : ℕ) : Restored base m m₀ →
      Pushed inp consts base top m (.header id) (m₀.withHeader id)

theorem Pushed.weaken {base' top' : ℕ} {v : ExprValue} (h : Pushed inp consts base' top' m₁ v m₂)
    (h' : Restored base m m₁) (hbase : base ≤ base') (htop : top' ≤ top) :
    Pushed inp consts base top m v m₂ := by
  cases h with
  | data hr hd href =>
    exact .data (h'.trans hr hbase) hd fun i hi => ⟨hbase.trans (href i hi).1,
      (href i hi).2.trans_le htop⟩
  | bool b hr => exact .bool b (h'.trans hr hbase)
  | header id hr => exact .header id (h'.trans hr hbase)

theorem Pushed.keep {v : ExprValue} (h : Pushed inp consts base top m v m₁) :
    m₁.dataTemps.length = m.dataTemps.length := by
  cases h with
  | data hr => exact hr.length
  | bool _ hr => exact hr.length
  | header _ hr => exact hr.length

/-- The pointers on the stack stay below `top`. -/
theorem Pushed.bounded {v : ExprValue} (h : Pushed inp consts base top m v m₁)
    (hptr : ∀ i, DataRef.temp i ∈ m.dataStack → i < base) (hle : base ≤ top) (i : ℕ)
    (hi : DataRef.temp i ∈ m₁.dataStack) : i < top := by
  cases h with
  | data hr _ href =>
    rw [withData, hr.dataStack] at hi
    rcases List.mem_cons.mp hi with hi | hi
    · exact (href i hi.symm).2
    · exact (hptr i hi).trans_le hle
  | bool _ hr =>
    rw [withBool, hr.dataStack] at hi
    exact (hptr i hi).trans_le hle
  | header _ hr =>
    rw [withHeader, hr.dataStack] at hi
    exact (hptr i hi).trans_le hle

/-- The data on top survives whatever keeps the temporaries below `top`. -/
theorem Pushed.popData {d : Data} (h : Pushed inp consts base top m (.data d) m₁)
    (hr : Restored top m₁ m₂) (hle : base ≤ top) :
    ∃ m₃, m₂.popData inp consts = .ok (d, m₃) ∧ Restored base m m₃ ∧
      ∃ ref, m₂.dataStack = ref :: m.dataStack := by
  cases h with
  | @data m₀ _ ref hm hd href =>
    have hstack : m₂.dataStack = ref :: m.dataStack := by
      rw [hr.dataStack, withData, hm.dataStack]
    have hderef : m₂.deref inp consts ref = some d := by
      rw [hr.deref fun i hi => (href i hi).2, deref_withData, hd]
    refine ⟨{ m₂ with dataStack := m.dataStack }, ?_, ?_, ref, hstack⟩
    · rw [Machine.popData, hstack]
      simp only [hderef]
    · exact ⟨hr.length.trans hm.length, fun i hi => (hr.below i (by omega)).trans (hm.below i hi),
        rfl, hr.boolStack.trans hm.boolStack, hr.headerStack.trans hm.headerStack⟩

theorem Pushed.popBool {b : Bool} (h : Pushed inp consts base top m (.bool b) m₁)
    (hr : Restored top m₁ m₂) (hle : base ≤ top) :
    ∃ m₃, m₂.popBool = .ok (b, m₃) ∧ Restored base m m₃ ∧ m₂.boolStack = b :: m.boolStack := by
  cases h with
  | @bool m₀ _ hm =>
    have hstack : m₂.boolStack = b :: m.boolStack := by
      rw [hr.boolStack, withBool, hm.boolStack]
    refine ⟨{ m₂ with boolStack := m.boolStack }, ?_, ?_, hstack⟩
    · rw [Machine.popBool, hstack]
    · exact ⟨hr.length.trans hm.length, fun i hi => (hr.below i (by omega)).trans (hm.below i hi),
        hr.dataStack.trans hm.dataStack, rfl, hr.headerStack.trans hm.headerStack⟩

theorem Restored.writeTemp (h : Restored base m m₀) {dest : ℕ} (hbase : base ≤ dest)
    (htop : dest < top) (hlen : dest < m.dataTemps.length) (value : ℤ) :
    ∃ m₁, m₀.writeTemp dest (some value) = .ok (0, m₁) ∧
      Pushed inp consts base top m (.data { value }) m₁ := by
  have hlen : dest < m₀.dataTemps.length := h.length ▸ hlen
  refine ⟨withData { m₀ with dataTemps := m₀.dataTemps.set dest value } (.temp dest), ?_,
    .data ⟨?_, fun i hi => ?_, h.dataStack, h.boolStack, h.headerStack⟩ ?_ ?_⟩
  · simp only [Machine.writeTemp, hlen, ↓reduceIte, withData]
  · simp [h.length]
  · rw [List.getElem?_set_ne (by omega), h.below i hi]
  · simp [Machine.deref, hlen]
  · rintro i hi
    obtain rfl : dest = i := by simpa using hi
    exact ⟨hbase, htop⟩

theorem Restored.pushBool (h : Restored base m m₀) (b : Bool) :
    ∃ m₁, m₀.pushBool (some b) = .ok (0, m₁) ∧ Pushed inp consts base top m (.bool b) m₁ :=
  ⟨m₀.withBool b, rfl, .bool b h⟩

theorem Restored.load (h : Restored base m m₀) {ref : DataRef} (href : ∀ i, ref ≠ .temp i)
    {d : Data} (hd : m₀.deref inp consts ref = some d) :
    ∃ m₁, m₀.load inp consts ref = .ok (0, m₁) ∧ Pushed inp consts base top m (.data d) m₁ :=
  ⟨m₀.withData ref, by simp only [Machine.load, hd, withData],
    .data h hd fun i hi => absurd hi (href i)⟩

variable {cnt mid : ℕ} {op : ExprOpcode} {τl τr τ : ExprType} {l r : ExprValue} {dest : ℕ}

/-- An operation is safe, and pushes the given value or aborts if there is none. -/
def Yields (cast : BignumCast) (inp : EvalInput) (consts : List ℤ) (cnt base top : ℕ)
    (τ : ExprType) (m m₁ : Machine) (op : Op) (value : Option ExprValue) : Prop :=
  op.Safe cnt m₁ ∧
    match value with
    | none => m₁.exec cast inp consts op = .error .aborted
    | some v => v.type = τ ∧ ∃ m₂, m₁.exec cast inp consts op = .ok (0, m₂) ∧
        Pushed inp consts base top m v m₂

/-- What the register pass guarantees of the destination of an operator. -/
def DestOk (cnt base top : ℕ) (m : Machine) (op : ExprOpcode) (dest : ℕ) : Prop :=
  (∀ i, DataRef.temp i ∈ m.dataStack → i < base) ∧ cnt ≤ m.dataTemps.length ∧
    ((Op.opcode op dest).dest?.isSome → base ≤ dest ∧ dest < top ∧ dest < cnt)

theorem DestOk.notMem (h : DestOk cnt base top m op dest)
    (hdest : (Op.opcode op dest).dest?.isSome) : DataRef.temp dest ∉ m.dataStack := by
  intro hmem
  have := h.1 dest hmem
  have := (h.2.2 hdest).1
  omega

/-- The end of an operator with a temporary result. -/
theorem Restored.writeTemp_of_destOk (h : Restored base m m₀)
    (hdest : DestOk cnt base top m op dest)
    (hsome : (Op.opcode op dest).dest?.isSome) (value : ℤ) :
    ∃ m₁, m₀.writeTemp dest (some value) = .ok (0, m₁) ∧
      Pushed inp consts base top m (.data { value }) m₁ := by
  obtain ⟨hbase, htop, hcnt⟩ := hdest.2.2 hsome
  exact h.writeTemp hbase htop (hcnt.trans_le hdest.2.1) value

theorem yields_unary (hop : op.signature = some (none, τr, τ)) (hr : r.type = τr)
    (h : Pushed inp consts base mid m r m₁) (hle : base ≤ mid)
    (hdest : DestOk cnt base top m op dest) :
    Yields cast inp consts cnt base top τ m m₁ (.opcode op dest) (op.eval cast inp none r) := by
  cases op with
  | arith op => cases op <;> simp [ExprOpcode.signature] at hop
  | cmp | and | or => simp [ExprOpcode.signature] at hop
  | not =>
    obtain ⟨rfl, rfl⟩ : .bool = τr ∧ .bool = τ := by simpa [ExprOpcode.signature] using hop
    obtain ⟨rb, rfl⟩ : ∃ b, r = .bool b := by cases r <;> simp_all [ExprValue.type]
    obtain ⟨m₂, hpop, hm₂, hstack⟩ := h.popBool (.refl mid m₁) hle
    obtain ⟨m₃, hpush, hm₃⟩ := hm₂.pushBool !rb
    refine ⟨⟨by simp [Op.dataOperands], by simp [Op.boolOperands, hstack],
      by simp [Op.headerOperands], by simp [Op.dest?]⟩, rfl, m₃, ?_, hm₃⟩
    simp only [exec, hpop, bind, Except.bind, hpush]
  | bitNeg =>
    obtain ⟨rfl, rfl⟩ : .data = τr ∧ .data = τ := by simpa [ExprOpcode.signature] using hop
    obtain ⟨rd, rfl⟩ : ∃ d, r = .data d := by cases r <;> simp_all [ExprValue.type]
    obtain ⟨m₂, hpop, hm₂, ref, hstack⟩ := h.popData (.refl mid m₁) hle
    refine ⟨⟨by simp [Op.dataOperands, hstack], by simp [Op.boolOperands],
      by simp [Op.headerOperands], ?_⟩, ?_⟩
    · rintro d hd
      obtain rfl : dest = d := by simpa [Op.dest?] using hd
      exact ⟨(hdest.2.2 rfl).2.2, by simpa [Op.dataOperands, hstack] using hdest.notMem rfl⟩
    · cases hv : rd.bitNeg with
      | none => simp [ExprOpcode.eval, hv, exec, hpop, bind, Except.bind, writeTemp]
      | some v =>
        obtain ⟨m₃, hwrite, hm₃⟩ := hm₂.writeTemp_of_destOk hdest rfl v
        simp only [ExprOpcode.eval, hv, Option.map_some]
        exact ⟨rfl, m₃, by simp only [exec, hpop, bind, Except.bind, hv, hwrite], hm₃⟩
  | validHeader =>
    obtain ⟨rfl, rfl⟩ : .header = τr ∧ .bool = τ := by simpa [ExprOpcode.signature] using hop
    cases h with
    | data | bool => simp [ExprValue.type] at hr
    | @header m₀ id hm₀ =>
      refine ⟨⟨by simp [Op.dataOperands], by simp [Op.boolOperands],
        by simp [Op.headerOperands, withHeader], by simp [Op.dest?]⟩, ?_⟩
      cases hv : inp.headerValid id with
      | none => simp [ExprOpcode.eval, hv, exec, withHeader, pushBool]
      | some b =>
        simp only [ExprOpcode.eval, hv, Option.map_some]
        exact ⟨rfl, m₀.withBool b, by simp [exec, withHeader, hv, pushBool, withBool], .bool b hm₀⟩
  | dataToBool =>
    obtain ⟨rfl, rfl⟩ : .data = τr ∧ .bool = τ := by simpa [ExprOpcode.signature] using hop
    obtain ⟨rd, rfl⟩ : ∃ d, r = .data d := by cases r <;> simp_all [ExprValue.type]
    obtain ⟨m₂, hpop, hm₂, ref, hstack⟩ := h.popData (.refl mid m₁) hle
    obtain ⟨m₃, hpush, hm₃⟩ := hm₂.pushBool !rd.testEq 0
    refine ⟨⟨by simp [Op.dataOperands, hstack], by simp [Op.boolOperands],
      by simp [Op.headerOperands], by simp [Op.dest?]⟩, rfl, m₃, ?_, hm₃⟩
    simp only [exec, hpop, bind, Except.bind, hpush]
  | boolToData =>
    obtain ⟨rfl, rfl⟩ : .bool = τr ∧ .data = τ := by simpa [ExprOpcode.signature] using hop
    obtain ⟨rb, rfl⟩ : ∃ b, r = .bool b := by cases r <;> simp_all [ExprValue.type]
    have hdata : m₁.dataStack = m.dataStack := by
      cases h with
      | bool b hm₀ => exact hm₀.dataStack
    obtain ⟨m₂, hpop, hm₂, hstack⟩ := h.popBool (.refl mid m₁) hle
    obtain ⟨m₃, hwrite, hm₃⟩ := hm₂.writeTemp_of_destOk hdest rfl rb.toInt
    refine ⟨⟨by simp [Op.dataOperands], by simp [Op.boolOperands, hstack],
      by simp [Op.headerOperands], ?_⟩, rfl, m₃, ?_, hm₃⟩
    · rintro d hd
      obtain rfl : dest = d := by simpa [Op.dest?] using hd
      exact ⟨(hdest.2.2 rfl).2.2, by simpa [Op.dataOperands, hdata] using hdest.notMem rfl⟩
    · simp only [exec, hpop, bind, Except.bind, hwrite]

/-- Both operands of a binary data operator are found. -/
theorem popData_popData {top₂ : ℕ} {ld rd : Data} (hl : Pushed inp consts base mid m (.data ld) m₁)
    (hr : Pushed inp consts mid top₂ m₁ (.data rd) m₂) (hbase : base ≤ mid) (hmid : mid ≤ top₂) :
    ∃ m₃ m₄, m₂.popData inp consts = .ok (rd, m₃) ∧ m₃.popData inp consts = .ok (ld, m₄) ∧
      Restored base m m₄ ∧ ∃ ref ref', m₂.dataStack = ref :: ref' :: m.dataStack := by
  obtain ⟨m₃, hpop, hm₃, ref, hstack⟩ := hr.popData (.refl top₂ m₂) hmid
  obtain ⟨m₄, hpop', hm₄, ref', hstack'⟩ := hl.popData hm₃ hbase
  exact ⟨m₃, m₄, hpop, hpop', hm₄, ref, ref', by rw [hstack, ← hm₃.dataStack, hstack']⟩

theorem popBool_popBool {top₂ : ℕ} {lb rb : Bool} (hl : Pushed inp consts base mid m (.bool lb) m₁)
    (hr : Pushed inp consts mid top₂ m₁ (.bool rb) m₂) (hbase : base ≤ mid) (hmid : mid ≤ top₂) :
    ∃ m₃ m₄, m₂.popBool = .ok (rb, m₃) ∧ m₃.popBool = .ok (lb, m₄) ∧
      Restored base m m₄ ∧ m₂.boolStack = rb :: lb :: m.boolStack := by
  obtain ⟨m₃, hpop, hm₃, hstack⟩ := hr.popBool (.refl top₂ m₂) hmid
  obtain ⟨m₄, hpop', hm₄, hstack'⟩ := hl.popBool hm₃ hbase
  exact ⟨m₃, m₄, hpop, hpop', hm₄, by rw [hstack, ← hm₃.boolStack, hstack']⟩

theorem yields_binary {top₂ : ℕ} (hop : op.signature = some (some τl, τr, τ)) (hlτ : l.type = τl)
    (hrτ : r.type = τr) (hl : Pushed inp consts base mid m l m₁)
    (hr : Pushed inp consts mid top₂ m₁ r m₂) (hbase : base ≤ mid) (hmid : mid ≤ top₂)
    (hdest : DestOk cnt base top m op dest) :
    Yields cast inp consts cnt base top τ m m₂ (.opcode op dest)
      (op.eval cast inp (some l) r) := by
  cases op with
  | arith op =>
    obtain ⟨rfl, rfl, rfl⟩ : .data = τl ∧ .data = τr ∧ .data = τ := by
      cases op <;> simp [ExprOpcode.signature] at hop ⊢ <;> exact hop
    obtain ⟨ld, rfl⟩ : ∃ d, l = .data d := by cases l <;> simp_all [ExprValue.type]
    obtain ⟨rd, rfl⟩ : ∃ d, r = .data d := by cases r <;> simp_all [ExprValue.type]
    obtain ⟨m₃, m₄, hpop, hpop', hm₄, ref, ref', hstack⟩ := popData_popData hl hr hbase hmid
    refine ⟨⟨by simp [Op.dataOperands, hstack], by simp [Op.boolOperands],
      by simp [Op.headerOperands], ?_⟩, ?_⟩
    · rintro d hd
      obtain rfl : dest = d := by simpa [Op.dest?] using hd
      exact ⟨(hdest.2.2 rfl).2.2, by simpa [Op.dataOperands, hstack] using hdest.notMem rfl⟩
    · cases hv : op.eval cast ld rd with
      | none => simp [ExprOpcode.eval, hv, exec, hpop, hpop', bind, Except.bind, writeTemp]
      | some v =>
        obtain ⟨m₅, hwrite, hm₅⟩ := hm₄.writeTemp_of_destOk hdest rfl v
        simp only [ExprOpcode.eval, hv, Option.map_some]
        exact ⟨rfl, m₅, by simp only [exec, hpop, hpop', bind, Except.bind, hv, hwrite], hm₅⟩
  | cmp op =>
    obtain ⟨rfl, rfl, rfl⟩ : .data = τl ∧ .data = τr ∧ .bool = τ := by
      simpa [ExprOpcode.signature] using hop
    obtain ⟨ld, rfl⟩ : ∃ d, l = .data d := by cases l <;> simp_all [ExprValue.type]
    obtain ⟨rd, rfl⟩ : ∃ d, r = .data d := by cases r <;> simp_all [ExprValue.type]
    obtain ⟨m₃, m₄, hpop, hpop', hm₄, ref, ref', hstack⟩ := popData_popData hl hr hbase hmid
    refine ⟨⟨by simp [Op.dataOperands, hstack], by simp [Op.boolOperands],
      by simp [Op.headerOperands], by simp [Op.dest?]⟩, ?_⟩
    cases hv : op.eval ld rd with
    | none => simp [ExprOpcode.eval, hv, exec, hpop, hpop', bind, Except.bind, pushBool]
    | some b =>
      obtain ⟨m₅, hpush, hm₅⟩ := hm₄.pushBool b
      simp only [ExprOpcode.eval, hv, Option.map_some]
      exact ⟨rfl, m₅, by simp only [exec, hpop, hpop', bind, Except.bind, hv, hpush], hm₅⟩
  | and | or =>
    obtain ⟨rfl, rfl, rfl⟩ : .bool = τl ∧ .bool = τr ∧ .bool = τ := by
      simpa [ExprOpcode.signature] using hop
    obtain ⟨lb, rfl⟩ : ∃ b, l = .bool b := by cases l <;> simp_all [ExprValue.type]
    obtain ⟨rb, rfl⟩ : ∃ b, r = .bool b := by cases r <;> simp_all [ExprValue.type]
    obtain ⟨m₃, m₄, hpop, hpop', hm₄, hstack⟩ := popBool_popBool hl hr hbase hmid
    refine ⟨⟨by simp [Op.dataOperands], by simp [Op.boolOperands, hstack],
      by simp [Op.headerOperands], by simp [Op.dest?]⟩, rfl, m₄.withBool _, ?_, .bool _ hm₄⟩
    simp only [exec, hpop, hpop', bind, Except.bind, pushBool, withBool]
  | not | bitNeg | validHeader | dataToBool | boolToData => simp [ExprOpcode.signature] at hop

end Machine

section Compiles

open Machine DestRegisters

variable {cast : BignumCast} {inp : EvalInput} {consts : List ℤ} {τ : ExprType}

/-- From a machine, code leads past itself with the given value pushed, or aborts. -/
def Evaluates (cast : BignumCast) (inp : EvalInput) (consts : List ℤ) (cnt base top : ℕ)
    (τ : ExprType) (code : List Op) (m : Machine) : Option ExprValue → Prop
  | none => ∀ rest, Aborts cast inp consts cnt (code ++ rest, m)
  | some v => v.type = τ ∧ ∃ m', Pushed inp consts base top m v m' ∧
      ∀ rest, Leads cast inp consts cnt (code ++ rest, m) (rest, m')

/-- Code that the register pass turns into an evaluation of the given value. -/
def Compiles (cast : BignumCast) (inp : EvalInput) (consts : List ℤ) (τ : ExprType)
    (value : Option ExprValue) (ops : List Op) : Prop :=
  ∀ s : DestRegisters, s.curr = s.newRegisters.sum →
    ∃ code s', s.assignOps ops = some (code, s') ∧ code.length = ops.length ∧ s.Grown s' τ ∧
      ∀ cnt m, s'.cnt ≤ cnt → cnt ≤ m.dataTemps.length →
        (∀ i, DataRef.temp i ∈ m.dataStack → i < s.curr) →
        Evaluates cast inp consts cnt s.curr s'.curr τ code m value

/-- One operation after code that has led to a machine. -/
theorem Evaluates.of_yields {cnt base top : ℕ} {op : Op} {value : Option ExprValue}
    {code : List Op} {m m₁ : Machine}
    (hlead : ∀ rest, Leads cast inp consts cnt (code ++ rest, m) (rest, m₁))
    (h : Yields cast inp consts cnt base top τ m m₁ op value) :
    Evaluates cast inp consts cnt base top τ (code ++ [op]) m value := by
  have hlead : ∀ rest, Leads cast inp consts cnt (code ++ [op] ++ rest, m) (op :: rest, m₁) := by
    intro rest
    rw [List.append_assoc, List.singleton_append]
    exact hlead (op :: rest)
  obtain ⟨hsafe, h⟩ := h
  cases value with
  | none => exact fun rest => (hlead rest).aborts (.of_exec hsafe h)
  | some v =>
    obtain ⟨hτ, m₂, hexec, hm₂⟩ := h
    exact ⟨hτ, m₂, hm₂, fun rest => (hlead rest).trans (.of_exec hsafe hexec)⟩

/-- Code that aborts does so whatever follows. -/
theorem Evaluates.none_append {cnt base top base' top' : ℕ} {τ' : ExprType} {code : List Op}
    {m : Machine} (h : Evaluates cast inp consts cnt base top τ code m none) (code' : List Op) :
    Evaluates cast inp consts cnt base' top' τ' (code ++ code') m none := by
  intro rest
  rw [List.append_assoc]
  exact h (code' ++ rest)

/-- A single operation that loads a value. -/
theorem Compiles.of_load {op : Op} {value : Option ExprValue} {n : Option ℕ}
    (hassign : ∀ s : DestRegisters, s.assignOp op = some (op, n.elim s s.push))
    (hn : τ = .data → n.isSome)
    (h : ∀ cnt base top m, Yields cast inp consts cnt base top τ m m op value) :
    Compiles cast inp consts τ value [op] := by
  intro s hs
  refine ⟨[op], (n.elim s s.push).bump, ?_, rfl, ⟨?_, ?_, ?_⟩, fun cnt m _ _ _ => ?_⟩
  · rw [assignOps_cons (hassign s)]
    rfl
  · cases n with
    | none => exact ⟨[], rfl, fun hτ => by simp at hn; exact absurd hτ hn⟩
    | some n => exact ⟨[n], rfl, by simp⟩
  · cases n with
    | none => exact hs
    | some n => simp [bump, push, hs, add_comm]
  · cases n with
    | none => exact le_max_left _ _
    | some n => exact le_max_left _ _
  · have hlead : ∀ rest, Leads cast inp consts cnt ([] ++ rest, m) (rest, m) := fun _ => ⟨rfl, id⟩
    exact .of_yields hlead (h cnt _ _ m)

theorem dataOperands_unary {op : ExprOpcode} {τr : ExprType}
    (hop : op.signature = some (none, τr, τ)) :
    (τr = .data ∧ (Op.opcode op 0).dataOperands = 1) ∨ (Op.opcode op 0).dataOperands = 0 := by
  cases op with
  | arith op => cases op <;> simp [ExprOpcode.signature] at hop
  | bitNeg | dataToBool =>
    simp only [ExprOpcode.signature, Option.some.injEq, Prod.mk.injEq] at hop
    exact .inl ⟨hop.2.1.symm, rfl⟩
  | cmp | and | or => simp [ExprOpcode.signature] at hop
  | not | validHeader | boolToData => exact .inr rfl

theorem dataOperands_binary {op : ExprOpcode} {τl τr : ExprType}
    (hop : op.signature = some (some τl, τr, τ)) :
    (τl = .data ∧ τr = .data ∧ (Op.opcode op 0).dataOperands = 2) ∨
      (Op.opcode op 0).dataOperands = 0 := by
  cases op with
  | arith op =>
    have hop : .data = τl ∧ .data = τr := by
      cases op <;> simp [ExprOpcode.signature] at hop <;> exact ⟨hop.1, hop.2.1⟩
    exact .inl ⟨hop.1.symm, hop.2.symm, rfl⟩
  | cmp op =>
    simp only [ExprOpcode.signature, Option.some.injEq, Prod.mk.injEq] at hop
    exact .inl ⟨hop.1.symm, hop.2.1.symm, rfl⟩
  | and | or => exact .inr rfl
  | not | bitNeg | validHeader | dataToBool | boolToData => simp [ExprOpcode.signature] at hop

theorem dest?_of_signature {op : ExprOpcode} {lτ : Option ExprType} {τr : ExprType}
    (hop : op.signature = some (lτ, τr, τ)) (hτ : τ = .data) :
    (Op.opcode op 0).dest?.isSome := by
  subst hτ
  cases op with
  | arith op => rfl
  | bitNeg | boolToData => rfl
  | cmp | and | or | not | validHeader | dataToBool => simp [ExprOpcode.signature] at hop

theorem Compiles.unary {op : ExprOpcode} {τr : ExprType} {ops : List Op}
    {r : Option ExprValue} (hop : op.signature = some (none, τr, τ))
    (h : Compiles cast inp consts τr r ops) :
    Compiles cast inp consts τ (r.bind (op.eval cast inp none)) (ops ++ [.opcode op 0]) := by
  intro s hs
  obtain ⟨code, s₁, hops, hlen, hg, heval⟩ := h s hs
  obtain ⟨extra, hstack, hextra⟩ := hg.stack
  have hoperands : (Op.opcode op 0).dataOperands ≤ extra.length := by
    rcases dataOperands_unary hop with ⟨hτ, h1⟩ | h0
    · rw [h1]
      exact hextra hτ
    · rw [h0]
      exact Nat.zero_le _
  obtain ⟨dest, s', hassign, hg', hcnt, hdest⟩ := Grown.opcode hs hg.curr hg.cnt hstack hoperands
    hops (dest?_of_signature hop)
  refine ⟨_, s', hassign, by simp [hlen], hg', fun cnt m hc hm hptr => ?_⟩
  have heval := heval cnt m (hcnt.trans hc) hm hptr
  cases r with
  | none => exact heval.none_append _
  | some r =>
    obtain ⟨hr, m₁, hpush, hlead⟩ := heval
    refine .of_yields hlead (yields_unary hop hr hpush (hg.le hs) ⟨hptr, hm, fun h => ?_⟩)
    obtain ⟨h1, h2, h3⟩ := hdest h
    exact ⟨h1, h2, h3.trans_le hc⟩

theorem Compiles.binary {op : ExprOpcode} {τl τr : ExprType} {opsl opsr : List Op}
    {l r : Option ExprValue} (hop : op.signature = some (some τl, τr, τ))
    (hl : Compiles cast inp consts τl l opsl) (hr : Compiles cast inp consts τr r opsr) :
    Compiles cast inp consts τ (l.bind fun l => r.bind (op.eval cast inp (some l)))
      (opsl ++ (opsr ++ [.opcode op 0])) := by
  intro s hs
  obtain ⟨codel, s₁, hopsl, hlenl, hgl, hevall⟩ := hl s hs
  obtain ⟨coder, s₂, hopsr, hlenr, hgr, hevalr⟩ := hr s₁ hgl.curr
  obtain ⟨extral, hstackl, hextral⟩ := hgl.stack
  obtain ⟨extrar, hstackr, hextrar⟩ := hgr.stack
  have hstack : s₂.newRegisters = (extrar ++ extral) ++ s.newRegisters := by
    rw [hstackr, hstackl, List.append_assoc]
  have hoperands : (Op.opcode op 0).dataOperands ≤ (extrar ++ extral).length := by
    rw [List.length_append]
    rcases dataOperands_binary hop with ⟨hτl, hτr, h2⟩ | h0
    · have := hextral hτl
      have := hextrar hτr
      omega
    · rw [h0]
      exact Nat.zero_le _
  obtain ⟨dest, s', hassign, hg', hcnt, hdest⟩ := Grown.opcode hs hgr.curr
    (hgl.cnt.trans hgr.cnt) hstack hoperands (assignOps_append hopsl hopsr)
    (dest?_of_signature hop)
  rw [List.append_assoc] at hassign
  refine ⟨_, s', hassign, by simp [hlenl, hlenr], hg', fun cnt m hc hm hptr => ?_⟩
  have hevall := hevall cnt m ((hgr.cnt.trans hcnt).trans hc) hm hptr
  rw [List.append_assoc]
  cases l with
  | none => exact hevall.none_append _
  | some l =>
    obtain ⟨hlτ, m₁, hpushl, hleadl⟩ := hevall
    have hkeep := hpushl.keep
    have hevalr := hevalr cnt m₁ (hcnt.trans hc) (hkeep ▸ hm) (hpushl.bounded hptr (hgl.le hs))
    cases r with
    | none =>
      intro rest
      rw [List.append_assoc, List.append_assoc]
      exact (hleadl _).aborts (hevalr _)
    | some r =>
      obtain ⟨hrτ, m₂, hpushr, hleadr⟩ := hevalr
      rw [← List.append_assoc]
      refine .of_yields (fun rest => ?_) (yields_binary hop hlτ hrτ hpushl hpushr (hgl.le hs)
        (hgr.le hgl.curr) ⟨hptr, hm, fun h => ?_⟩)
      · rw [List.append_assoc]
        exact (hleadl _).trans (hleadr rest)
      · obtain ⟨h1, h2, h3⟩ := hdest h
        exact ⟨h1, h2, h3.trans_le hc⟩

theorem Compiles.registerGen {array : ℕ} {ops : List Op} {i : Option ExprValue}
    (h : Compiles cast inp consts .data i ops) :
    Compiles cast inp consts .data (i.bind (inp.registerGen cast array))
      (ops ++ [.loadRegisterGen array]) := by
  intro s hs
  obtain ⟨code, s₁, hops, hlen, hg, heval⟩ := h s hs
  obtain ⟨extra, hstack, hextra⟩ := hg.stack
  obtain ⟨a, l, rfl⟩ := List.exists_cons_of_length_pos (hextra rfl)
  have hassign : s₁.assignOp (.loadRegisterGen array) =
      some (.loadRegisterGen array, (s₁.restore (l ++ s.newRegisters)).push 0) := by
    simp only [assignOp, pop_cons hstack hg.curr, Option.bind_eq_bind, Option.bind_some]
    rfl
  refine ⟨_, _, assignOps_append hops (by rw [assignOps_cons hassign]; rfl), by simp [hlen],
    ⟨⟨0 :: l, rfl, by simp⟩, by simp [bump, push, restore], hg.cnt.trans (le_max_left _ _)⟩,
    fun cnt m hc hm hptr => ?_⟩
  have heval := heval cnt m ((le_max_left _ _).trans hc) hm hptr
  cases i with
  | none => exact heval.none_append _
  | some i =>
    obtain ⟨hτ, m₁, hpush, hlead⟩ := heval
    obtain ⟨d, rfl⟩ : ∃ d, i = .data d := by cases i <;> simp_all [ExprValue.type]
    obtain ⟨m₂, hpop, hm₂, ref, hstack₁⟩ := hpush.popData (.refl _ m₁) (hg.le hs)
    refine .of_yields hlead ⟨⟨by simp [Op.dataOperands, hstack₁], by simp [Op.boolOperands],
      by simp [Op.headerOperands], by simp [Op.dest?]⟩, ?_⟩
    cases hidx : d.getSizeT cast with
    | none => simp [EvalInput.registerGen, hidx, exec, hpop, bind, Except.bind]
    | some idx =>
      cases hreg : inp.registerAt array idx with
      | none => simp [EvalInput.registerGen, hidx, hreg, exec, hpop, bind, Except.bind, load, deref]
      | some d' =>
        have hd : m₂.deref inp consts (.register array idx) = some d' := hreg
        obtain ⟨m₃, hload, hm₃⟩ := hm₂.load (by simp) hd
        simp only [Option.bind_some, EvalInput.registerGen, hidx, hreg, Option.bind_eq_bind,
          Option.map_some]
        exact ⟨rfl, m₃, by simp only [exec, hpop, bind, Except.bind, hidx, hload], hm₃⟩

theorem assignOps_control {s : DestRegisters} {op : Op} (h : s.assignOp op = some (op, s)) :
    s.assignOps [op] = some ([op], s.bump) := by
  rw [assignOps_cons h]
  rfl

theorem leads_skip {cnt n : ℕ} {m : Machine} {code rest : List Op} (hn : code.length = n) :
    Leads cast inp consts cnt ([.skip n] ++ code ++ rest, m) (rest, m) := by
  have hsafe : (Op.skip n).Safe cnt m :=
    ⟨Nat.zero_le _, Nat.zero_le _, Nat.zero_le _, by simp [Op.dest?]⟩
  have hlead : Leads cast inp consts cnt (.skip n :: (code ++ rest), m)
      ((code ++ rest).drop n, m) :=
    .of_exec hsafe rfl
  rwa [List.drop_left' hn] at hlead

/-- The condition of a ternary leads to the arm it chooses. -/
theorem leads_ternary {cnt n base top : ℕ} {m m₁ : Machine} {b : Bool} {left : List Op}
    (hpush : Pushed inp consts base top m (.bool b) m₁) (hle : base ≤ top)
    (hn : left.length = n) :
    ∃ m₂, Restored base m m₂ ∧ ∀ right, Leads cast inp consts cnt
      ([.ternaryOp, .skip n] ++ (left ++ right), m₁) (if b then left ++ right else right, m₂) := by
  obtain ⟨m₂, hpop, hm₂, hstack⟩ := hpush.popBool (.refl _ m₁) hle
  have hsafe : Op.ternaryOp.Safe cnt m₁ :=
    ⟨Nat.zero_le _, by simp [Op.boolOperands, hstack], Nat.zero_le _, by simp [Op.dest?]⟩
  have hexec : m₁.exec cast inp consts .ternaryOp = .ok (if b then 1 else 0, m₂) := by
    simp only [exec, hpop, bind, Except.bind]
  refine ⟨m₂, hm₂, fun right => (Leads.of_exec hsafe hexec).trans ?_⟩
  cases b with
  | true => exact ⟨rfl, id⟩
  | false => exact leads_skip hn

theorem Compiles.ternary {opsc opsl opsr : List Op} {c l r : Option ExprValue}
    (hc : Compiles cast inp consts .bool c opsc) (hl : Compiles cast inp consts τ l opsl)
    (hr : Compiles cast inp consts τ r opsr) :
    Compiles cast inp consts τ (chosen c l r)
      (opsc ++ ([.ternaryOp, .skip (opsl.length + 1)] ++
        (opsl ++ ([.skip opsr.length] ++ opsr)))) := by
  intro s hs
  obtain ⟨codec, s₁, hopsc, hlenc, hgc, hevalc⟩ := hc s hs
  obtain ⟨codel, s₂, hopsl, hlenl, hgl, hevall⟩ := hl s₁.bump.bump hgc.curr
  obtain ⟨coder, s₃, hopsr, hlenr, hgr, hevalr⟩ := hr s₂.bump hgl.curr
  have hle₁ : s.curr ≤ s₁.curr := hgc.le hs
  have hle₂ : s₁.curr ≤ s₂.curr := hgl.le hgc.curr
  have hle₃ : s₂.curr ≤ s₃.curr := hgr.le hgl.curr
  have hskips : s₁.assignOps [.ternaryOp, .skip (opsl.length + 1)] =
      some ([.ternaryOp, .skip (opsl.length + 1)], s₁.bump.bump) := by
    rw [assignOps_cons rfl, assignOps_control rfl]
    rfl
  have hcnt : s.cnt ≤ s₃.cnt ∧ s₁.cnt ≤ s₃.cnt ∧ s₂.cnt ≤ s₃.cnt := by
    have h1 := hgc.cnt
    have h2 : max (max s₁.cnt s₁.curr) s₁.curr ≤ s₂.cnt := hgl.cnt
    have h3 : max s₂.cnt s₂.curr ≤ s₃.cnt := hgr.cnt
    omega
  refine ⟨_, s₃, assignOps_append hopsc (assignOps_append hskips (assignOps_append hopsl
      (assignOps_append (assignOps_control rfl) hopsr))), by simp [hlenc, hlenl, hlenr],
    ⟨?_, hgr.curr, hcnt.1⟩, fun cnt m hs₃ hm hptr => ?_⟩
  · obtain ⟨extrac, hec, -⟩ := hgc.stack
    obtain ⟨extral, hel, -⟩ := hgl.stack
    obtain ⟨extrar, her, hne⟩ := hgr.stack
    refine ⟨extrar ++ (extral ++ extrac), ?_, fun hτ => ?_⟩
    · rw [her, bump, hel, bump, bump, hec, List.append_assoc, List.append_assoc]
    · exact (hne hτ).trans (by simp)
  have hevalc := hevalc cnt m (hcnt.2.1.trans hs₃) hm hptr
  cases c with
  | none => exact hevalc.none_append _
  | some c =>
    obtain ⟨hcτ, m₁, hpush, hlead⟩ := hevalc
    obtain ⟨b, rfl⟩ : ∃ b, c = .bool b := by cases c <;> simp_all [ExprValue.type]
    obtain ⟨m₂, hm₂, hchoose⟩ : ∃ m₂, Restored s.curr m m₂ ∧ ∀ right, Leads cast inp consts cnt
        ([.ternaryOp, .skip (opsl.length + 1)] ++ ((codel ++ [.skip opsr.length]) ++ right), m₁)
        (if b then (codel ++ [.skip opsr.length]) ++ right else right, m₂) :=
      leads_ternary hpush hle₁ (by simp [hlenl])
    have hlead' : ∀ rest, Leads cast inp consts cnt (codec ++ ([.ternaryOp,
        .skip (opsl.length + 1)] ++ (codel ++ ([.skip opsr.length] ++ coder))) ++ rest, m)
        (if b then (codel ++ [.skip opsr.length]) ++ (coder ++ rest) else coder ++ rest, m₂) := by
      intro rest
      have := (hlead _).trans (hchoose (coder ++ rest))
      simpa only [List.append_assoc] using this
    have hptr₂ : ∀ i, DataRef.temp i ∈ m₂.dataStack → i < s₁.curr := fun i hi =>
      (hptr i (hm₂.dataStack ▸ hi)).trans_le hle₁
    have hm' : cnt ≤ m₂.dataTemps.length := hm₂.length ▸ hm
    cases b with
    | true =>
      have hevall := hevall cnt m₂ (hcnt.2.2.trans hs₃) hm' hptr₂
      simp only [↓reduceIte, List.append_assoc] at hlead'
      cases l with
      | none =>
        intro rest
        rw [List.append_assoc, List.append_assoc, List.append_assoc, List.append_assoc]
        exact (hlead' rest).aborts (hevall _)
      | some v =>
        obtain ⟨hvτ, m₃, hpush₃, hlead₃⟩ := hevall
        refine ⟨hvτ, m₃, hpush₃.weaken hm₂ hle₁ hle₃, fun rest => ?_⟩
        have hskip : Leads cast inp consts cnt ([.skip opsr.length] ++ (coder ++ rest), m₃)
            (rest, m₃) := by
          rw [← List.append_assoc]
          exact leads_skip hlenr
        rw [List.append_assoc, List.append_assoc, List.append_assoc, List.append_assoc]
        exact ((hlead' rest).trans (hlead₃ _)).trans hskip
    | false =>
      have hevalr := hevalr cnt m₂ hs₃ hm' fun i hi => (hptr₂ i hi).trans_le hle₂
      cases r with
      | none => exact fun rest => (hlead' rest).aborts (hevalr _)
      | some v =>
        obtain ⟨hvτ, m₃, hpush₃, hlead₃⟩ := hevalr
        exact ⟨hvτ, m₃, hpush₃.weaken hm₂ (hle₁.trans hle₂) le_rfl,
          fun rest => (hlead' rest).trans (hlead₃ rest)⟩

/-- A load of data that is not a temporary. -/
theorem yields_load {cnt base top : ℕ} {m : Machine} {op : Op} (ref : DataRef)
    {value : Option Data} (hexec : m.exec cast inp consts op = m.load inp consts ref)
    (href : ∀ i, ref ≠ .temp i) (hop : op.dataOperands = 0 ∧ op.boolOperands = 0 ∧
      op.headerOperands = 0 ∧ op.dest? = none) (hvalue : m.deref inp consts ref = value) :
    Yields cast inp consts cnt base top .data m m op (value.map .data) := by
  obtain ⟨h1, h2, h3, h4⟩ := hop
  refine ⟨⟨by simp [h1], by simp [h2], by simp [h3], by simp [h4]⟩, ?_⟩
  cases value with
  | none =>
    rw [Option.map_none, hexec]
    simp only [load, hvalue]
  | some d =>
    obtain ⟨m₁, hload, hm₁⟩ := (Restored.refl base m).load href hvalue
    exact ⟨rfl, m₁, hexec.trans hload, hm₁⟩

/-- Every well-typed tree compiles to an evaluation of its value. -/
theorem Code.compiles (inp : EvalInput) {t : JsonExpression} {ops : List Op}
    (h : Code cast consts t τ ops) : Compiles cast inp consts τ (t.denote cast inp) ops := by
  have hconst : ∀ {k : ℕ} {v : ℤ}, consts[k]? = some v →
      Compiles cast inp consts .data (some (.data { value := v })) [.loadConst k] := by
    intro k v hk
    refine .of_load (n := some 0) (fun _ => rfl) (fun _ => rfl) fun _ _ _ m => ?_
    have hderef : m.deref inp consts (.const k) = some { value := v } := by simp [deref, hk]
    exact yields_load (.const k) rfl (by simp) ⟨rfl, rfl, rfl, rfl⟩ hderef
  induction h with
  | unary hop _ ih =>
    rw [JsonExpression.denote_unary (not_isSign_of_signature hop)]
    exact .unary hop ih
  | binary hop hne _ _ ihl ihr =>
    rw [JsonExpression.denote_binary hne]
    exact .binary hop ihl ihr
  | @sign op right cr n hop hn _ ih =>
    have hsig : op.signature = some (some .data, .data, .data) := by
      rcases hop with rfl | rfl <;> rfl
    rw [JsonExpression.denote_sign hop]
    exact .binary hsig (hconst hn) ih
  | ternary _ _ _ ihc ihl ihr =>
    rw [JsonExpression.denote_ternary]
    exact ihc.ternary ihl ihr
  | header id =>
    refine .of_load (n := none) (fun _ => rfl) (by simp) fun cnt base top m => ?_
    refine ⟨⟨Nat.zero_le _, Nat.zero_le _, Nat.zero_le _, by simp [Op.dest?]⟩, ?_⟩
    by_cases hid : id < inp.phv.headers.length
    · simp only [JsonExpression.denote, hid, ↓reduceIte]
      exact ⟨rfl, m.withHeader id, by simp [exec, hid, withHeader], .header id (.refl _ _)⟩
    · simp only [JsonExpression.denote, hid, ↓reduceIte]
      simp [exec, hid]
  | field hdr fieldOffset =>
    exact .of_load (n := some 0) (fun _ => rfl) (fun _ => rfl) fun _ _ _ m =>
      yields_load (.field hdr fieldOffset) rfl (by simp) ⟨rfl, rfl, rfl, rfl⟩ rfl
  | bool value =>
    refine .of_load (n := none) (fun _ => rfl) (by simp) fun cnt base top m => ?_
    exact ⟨⟨Nat.zero_le _, Nat.zero_le _, Nat.zero_le _, by simp [Op.dest?]⟩, rfl,
      m.withBool value, rfl, .bool value (.refl _ _)⟩
  | hexstr hn => exact hconst hn
  | runtimeData offset =>
    exact .of_load (n := some 0) (fun _ => rfl) (fun _ => rfl) fun _ _ _ m =>
      yields_load (.runtimeData offset) rfl (by simp) ⟨rfl, rfl, rfl, rfl⟩ rfl
  | @registerRef array idx value hidx =>
    have hvalue : (JsonExpression.register array (.hexstr value)).denote cast inp =
        (inp.registerAt array idx).map .data := by
      have hget : Data.getSizeT cast { value } = some idx := hidx
      simp only [JsonExpression.denote, EvalInput.registerGen, Option.bind_eq_bind,
        Option.bind_some, hget]
    rw [hvalue]
    exact .of_load (n := some 0) (fun _ => rfl) (fun _ => rfl) fun _ _ _ m =>
      yields_load (.register array idx) rfl (by simp) ⟨rfl, rfl, rfl, rfl⟩ rfl
  | registerGen hne _ ih => exact .registerGen ih

end Compiles

/-- Built and run, the code gives the value of the tree, and aborts if it has none; along the way
every pop finds its operand, every temporary written is below the register count, and none is
written while a pointer to it is on the stack. -/
def Evaluated (cast : BignumCast) (inp : EvalInput) (t : JsonExpression) (τ : ExprType)
    (raw : Expression) : Prop :=
  ∃ e, raw.build = some e ∧ ∀ temps,
    (match t.denote cast inp with
      | none => e.eval cast inp temps = .error .aborted
      | some (.data d) => τ = .data ∧ e.evalArith cast inp temps = .ok d.value
      | some (.bool b) => τ = .bool ∧ e.evalBool cast inp temps = .ok b
      | some (.header _) => τ = .header) ∧
    ∀ op rest m, Relation.ReflTransGen (Machine.Step cast inp e.constValues)
      (e.ops, e.start temps) (op :: rest, m) → op.Safe e.dataRegistersCnt m

/-- Trees whose literal indices are the same number for the compiler are evaluated right. -/
theorem evaluated_of_sameIndex (cast : BignumCast) (inp : EvalInput) {t : JsonExpression}
    {τ : ExprType} (ht : t.Typed τ) (hlit : ∀ v ∈ t.literalIndices, cast.SameIndex v)
    {raw : Expression} (hraw : buildExpression cast t {} = some raw) :
    Evaluated cast inp t τ raw := by
  obtain ⟨ops, consts, hops, hconsts, hcode⟩ := buildExpression_appended ht hlit hraw
  obtain ⟨code, s', hassign, -, -, heval⟩ := hcode.compiles inp {} rfl
  rw [List.nil_append] at hops
  subst hops
  refine ⟨{ raw with ops := code, dataRegistersCnt := s'.cnt, built := true },
    by simp [Expression.build, hassign], fun temps => ?_⟩
  have heval := heval s'.cnt (Expression.start { raw with
    ops := code, dataRegistersCnt := s'.cnt, built := true } temps) le_rfl
    (by simp only [Expression.start, List.length_append, List.length_replicate]; omega)
    (by simp [Expression.start])
  cases hv : t.denote cast inp with
  | none =>
    rw [hv] at heval
    obtain ⟨hrun, hsafe⟩ := heval []
    rw [List.append_nil] at hrun hsafe
    exact ⟨hrun, fun op rest m hreach => hsafe.safe hreach⟩
  | some v =>
    rw [hv] at heval
    obtain ⟨hτ, m', hpush, hlead⟩ := heval
    obtain ⟨hrun, hsafe⟩ := hlead []
    rw [List.append_nil] at hrun hsafe
    rw [Machine.run] at hrun
    refine ⟨?_, fun op rest m hreach => (hsafe (.done m')).safe hreach⟩
    cases v with
    | data d =>
      obtain ⟨m'', hpop, -⟩ := hpush.popData (.refl _ m') (Nat.zero_le _)
      refine ⟨hτ.symm, ?_⟩
      simp only [Expression.evalArith, Expression.eval, hrun, bind, Except.bind, hpop]
    | bool b =>
      obtain ⟨m'', hpop, -⟩ := hpush.popBool (.refl _ m') (Nat.zero_le _)
      refine ⟨hτ.symm, ?_⟩
      simp only [Expression.evalBool, Expression.eval, hrun, bind, Except.bind, hpop]
    | header id => exact hτ.symm

/-- The parts of a tree. -/
inductive JsonExpression.Subtree : JsonExpression → JsonExpression → Prop
  | refl (t : JsonExpression) : Subtree t t
  | left {op : ExprOpcode} {u left right : JsonExpression} :
      Subtree u left → Subtree u (.expression op left right)
  | right {op : ExprOpcode} {u left right : JsonExpression} :
      Subtree u right → Subtree u (.expression op left right)
  | cond {u cond left right : JsonExpression} :
      Subtree u cond → Subtree u (.ternary cond left right)
  | ternaryLeft {u cond left right : JsonExpression} :
      Subtree u left → Subtree u (.ternary cond left right)
  | ternaryRight {u cond left right : JsonExpression} :
      Subtree u right → Subtree u (.ternary cond left right)
  | index {array : ℕ} {u index : JsonExpression} :
      Subtree u index → Subtree u (.register array index)

/-- A literal index stands in a reference of its own. -/
theorem JsonExpression.exists_subtree {t : JsonExpression} {v : ℤ} (h : v ∈ t.literalIndices) :
    ∃ array, Subtree (.register array (.hexstr v)) t := by
  induction t with
  | expression op left right ihl ihr =>
    rcases List.mem_append.mp h with h | h
    · obtain ⟨array, hsub⟩ := ihl h
      exact ⟨array, .left hsub⟩
    · obtain ⟨array, hsub⟩ := ihr h
      exact ⟨array, .right hsub⟩
  | ternary cond left right ihc ihl ihr =>
    rcases List.mem_append.mp h with h | h
    · obtain ⟨array, hsub⟩ := ihc h
      exact ⟨array, .cond hsub⟩
    · rcases List.mem_append.mp h with h | h
      · obtain ⟨array, hsub⟩ := ihl h
        exact ⟨array, .ternaryLeft hsub⟩
      · obtain ⟨array, hsub⟩ := ihr h
        exact ⟨array, .ternaryRight hsub⟩
  | register array index ih =>
    by_cases hindex : ∃ value, index = .hexstr value
    · obtain ⟨value, rfl⟩ := hindex
      obtain rfl := List.mem_singleton.mp h
      exact ⟨array, .refl _⟩
    · have hindex : ∀ value, index ≠ .hexstr value := fun value heq => hindex ⟨value, heq⟩
      rw [literalIndices_register hindex] at h
      obtain ⟨array', hsub⟩ := ih h
      exact ⟨array', .index hsub⟩
  | _ => cases h

theorem JsonExpression.Subtree.literalIndices {u t : JsonExpression} (h : u.Subtree t) :
    u.literalIndices ⊆ t.literalIndices := by
  induction h with
  | refl t => exact fun _ hv => hv
  | left _ ih => exact fun _ hv => List.mem_append_left _ (ih hv)
  | right _ ih => exact fun _ hv => List.mem_append_right _ (ih hv)
  | cond _ ih => exact fun _ hv => List.mem_append_left _ (ih hv)
  | ternaryLeft _ ih => exact fun _ hv => List.mem_append_right _ (List.mem_append_left _ (ih hv))
  | ternaryRight _ ih => exact fun _ hv => List.mem_append_right _ (List.mem_append_right _ (ih hv))
  | @index array u index hsub ih =>
    intro v hv
    by_cases hindex : ∃ value, index = .hexstr value
    · obtain ⟨value, rfl⟩ := hindex
      cases ih hv
    · have hindex : ∀ value, index ≠ .hexstr value := fun value heq => hindex ⟨value, heq⟩
      rw [JsonExpression.literalIndices_register hindex]
      exact ih hv

/-- The code of a reference with a literal index reads the register of the compiler's number. -/
theorem evalArith_registerRef (cast : BignumCast) {inp : EvalInput} {array idx : ℕ} {d : Data}
    (hd : inp.registerAt array idx = some d) : ∃ e,
      (Expression.pushBackLoadRegisterRef {} array idx).build = some e ∧
        ∀ temps, e.evalArith cast inp temps = .ok d.value := by
  refine ⟨_, rfl, fun temps => ?_⟩
  simp [Expression.evalArith, Expression.eval, Expression.pushBackLoadRegisterRef,
    Expression.pushBack, Machine.run, Machine.exec, Machine.load, Machine.deref, hd,
    Machine.popData, bind, Except.bind]

/-- An input whose register array of a number holds its indices. -/
def countingRegisters (array size : ℕ) : EvalInput where
  registerArrays := List.replicate array [] ++ [(List.range size).map Nat.cast]

theorem registerAt_countingRegisters (array : ℕ) {size idx : ℕ} (h : idx < size) :
    (countingRegisters array size).registerAt array idx = some { value := idx } := by
  simp [EvalInput.registerAt, countingRegisters, h]

/-- A reference is evaluated right only if its literal is the same number for the compiler. -/
theorem sameIndex_of_evaluated {cast : BignumCast} {array : ℕ} {v : ℤ}
    (h : ∀ raw inp, buildExpression cast (.register array (.hexstr v)) {} = some raw →
      Evaluated cast inp (.register array (.hexstr v)) .data raw) : cast.SameIndex v := by
  intro idx hidx
  have hraw : buildExpression cast (.register array (.hexstr v)) {} =
      some (Expression.pushBackLoadRegisterRef {} array idx) := by
    simp [buildExpression, hidx]
  let size := idx + (cast.toSizeT v).getD 0 + 1
  obtain ⟨e, he, heval⟩ := h _ (countingRegisters array size) hraw
  obtain ⟨e', he', heval'⟩ := evalArith_registerRef cast
    (registerAt_countingRegisters array (show idx < size by omega))
  obtain rfl := Option.some.inj (he.symm.trans he')
  have hvalue := (heval []).1
  have hget : Data.getSizeT cast { value := v } = cast.toSizeT v := rfl
  cases hsize : cast.toSizeT v with
  | none =>
    simp only [JsonExpression.denote, EvalInput.registerGen, Option.bind_eq_bind,
      Option.bind_some, hget, hsize, Option.bind_none] at hvalue
    have hok := heval' []
    rw [Expression.evalArith, hvalue] at hok
    cases hok
  | some n =>
    have hn : n < size := by
      simp only [size, hsize, Option.getD_some]
      omega
    simp only [JsonExpression.denote, EvalInput.registerGen, Option.bind_eq_bind,
      Option.bind_some, hget, hsize, registerAt_countingRegisters array hn,
      Option.map_some] at hvalue
    have hsame := Except.ok.inj (hvalue.2.symm.trans (heval' []))
    exact congrArg some (Int.ofNat.inj hsame)

/-- A well-typed tree is evaluated right if its literal register indices are below `2 ^ 32`. All of
its parts are exactly if each of these indices is the same number for the compiler as for the
machine. -/
theorem expression_correct (cast : BignumCast) {t : JsonExpression} {τ : ExprType}
    (ht : t.Typed τ) {raw : Expression} (hraw : buildExpression cast t {} = some raw) :
    ((∀ v ∈ t.literalIndices, 0 ≤ v ∧ v < 2 ^ 32) → ∀ inp, Evaluated cast inp t τ raw) ∧
      ((∀ u σ raw', u.Subtree t → u.Typed σ → buildExpression cast u {} = some raw' →
          ∀ inp, Evaluated cast inp u σ raw') ↔
        ∀ v ∈ t.literalIndices, cast.SameIndex v) := by
  refine ⟨fun hlit inp => evaluated_of_sameIndex cast inp ht (fun v hv =>
    cast.sameIndex_of_lt (hlit v hv).1 (hlit v hv).2) hraw, fun h v hv => ?_,
    fun hlit u σ raw' hsub hu hraw' inp => ?_⟩
  · obtain ⟨array, hsub⟩ := JsonExpression.exists_subtree hv
    exact sameIndex_of_evaluated fun raw' inp hraw' =>
      h _ .data raw' hsub (.register array (.hexstr v)) hraw' inp
  · exact evaluated_of_sameIndex cast inp hu (fun v hv => hlit v (hsub.literalIndices hv)) hraw'

/-- The index `2 ^ 32 + 1` is past the end of an array of two registers, so the tree has no value.
Its code reads register 1. -/
theorem expression_reads_low_register :
    ∃ t : JsonExpression, t.Typed .data ∧ ∃ raw e,
      buildExpression lowBitsCast t {} = some raw ∧ raw.build = some e ∧
      t.denote lowBitsCast { registerArrays := [[7, 8]] } = none ∧
      (∀ temps, e.evalArith lowBitsCast { registerArrays := [[7, 8]] } temps = .ok 8) ∧
      ¬ Evaluated lowBitsCast { registerArrays := [[7, 8]] } t .data raw := by
  have hone : EvalInput.registerAt { registerArrays := [[7, 8]] } 0 1 = some { value := 8 } := rfl
  obtain ⟨e, hbuild, heval⟩ := evalArith_registerRef lowBitsCast hone
  have hdenote : (JsonExpression.register 0 (.hexstr (2 ^ 32 + 1))).denote lowBitsCast
      { registerArrays := [[7, 8]] } = none := by
    simp [JsonExpression.denote, EvalInput.registerGen, Data.getSizeT, lowBitsCast,
      EvalInput.registerAt]
  refine ⟨.register 0 (.hexstr (2 ^ 32 + 1)), .register 0 (.hexstr _), _, e, rfl, hbuild, hdenote,
    heval, fun h => ?_⟩
  obtain ⟨e', hbuild', hright⟩ := h
  obtain rfl := Option.some.inj (hbuild.symm.trans hbuild')
  have hvalue := (hright []).1
  rw [hdenote] at hvalue
  have hok := heval []
  rw [Expression.evalArith, hvalue] at hok
  cases hok

/-- The sum of an action parameter and a ternary whose condition compares two literals. -/
def sumOfTernary : JsonExpression :=
  .expression (.arith .add) (.runtimeData 0)
    (.ternary (.expression (.cmp .lt) (.hexstr 1) (.hexstr 2)) (.hexstr 3) (.hexstr 4))

/-- The parameter 9 and the first arm make 12, whatever the thread's temporaries hold. -/
theorem expression_correct_sumOfTernary :
    ∃ raw e, buildExpression checkedCast sumOfTernary {} = some raw ∧ raw.build = some e ∧
      ∀ temps, e.evalArith checkedCast { locals := [{ value := 9 }] } temps = .ok 12 := by
  have htyped : sumOfTernary.Typed .data := .binary rfl (.runtimeData 0)
    (.ternary (.binary rfl (.hexstr 1) (.hexstr 2)) (.hexstr 3) (.hexstr 4))
  have hlit : ∀ v ∈ sumOfTernary.literalIndices, 0 ≤ v ∧ v < 2 ^ 32 := by decide
  obtain ⟨e, hbuild, heval⟩ := (expression_correct checkedCast htyped rfl).1 hlit
    { locals := [{ value := 9 }] }
  refine ⟨_, e, rfl, hbuild, fun temps => ?_⟩
  exact (heval temps).1.2

end Bmv2
