import Bmv2.Expressions.Eval

/-! Well-typed trees, and the code that `build_expression` makes of them. -/
namespace Bmv2

inductive ExprType where
  | data | bool | header
  deriving DecidableEq

def ExprValue.type : ExprValue → ExprType
  | .data _ => .data
  | .bool _ => .bool
  | .header _ => .header

/-- The operand types of an operator, the left one if there is one, and its result type. The
configuration has no name for the modulo opcode. -/
def ExprOpcode.signature : ExprOpcode → Option (Option ExprType × ExprType × ExprType)
  | .arith .mod => none
  | .arith _ => some (some .data, .data, .data)
  | .cmp _ => some (some .data, .data, .bool)
  | .and | .or => some (some .bool, .bool, .bool)
  | .not => some (none, .bool, .bool)
  | .bitNeg => some (none, .data, .data)
  | .validHeader => some (none, .header, .bool)
  | .dataToBool => some (none, .data, .bool)
  | .boolToData => some (none, .bool, .data)

/-- The operators `+` and `-` may stand without a left operand. -/
def ExprOpcode.IsSign (op : ExprOpcode) : Prop := op = .arith .add ∨ op = .arith .sub

/-- The value of a ternary: only the taken arm counts. -/
def chosen (cond left right : Option ExprValue) : Option ExprValue :=
  cond.bind fun
    | .bool true => left
    | .bool false => right
    | _ => none

namespace JsonExpression

inductive Typed : JsonExpression → ExprType → Prop
  | unary {op : ExprOpcode} {right : JsonExpression} {τr τ : ExprType} :
      op.signature = some (none, τr, τ) → Typed right τr → Typed (.expression op .null right) τ
  | binary {op : ExprOpcode} {left right : JsonExpression} {τl τr τ : ExprType} :
      op.signature = some (some τl, τr, τ) → Typed left τl → Typed right τr →
      Typed (.expression op left right) τ
  | sign {op : ExprOpcode} {right : JsonExpression} :
      op.IsSign → Typed right .data → Typed (.expression op .null right) .data
  | ternary {cond left right : JsonExpression} {τ : ExprType} :
      Typed cond .bool → Typed left τ → Typed right τ → Typed (.ternary cond left right) τ
  | header (id : ℕ) : Typed (.header id) .header
  | field (hdr fieldOffset : ℕ) : Typed (.field hdr fieldOffset) .data
  | bool (value : Bool) : Typed (.bool value) .bool
  | hexstr (value : ℤ) : Typed (.hexstr value) .data
  | runtimeData (offset : ℕ) : Typed (.runtimeData offset) .data
  | register (array : ℕ) {index : JsonExpression} :
      Typed index .data → Typed (.register array index) .data

theorem Typed.ne_null {t : JsonExpression} {τ : ExprType} (h : Typed t τ) : t ≠ .null := by
  cases h <;> simp

variable {cast : BignumCast} {inp : EvalInput}

theorem denote_unary {op : ExprOpcode} {right : JsonExpression} (h : ¬ op.IsSign) :
    (expression op .null right).denote cast inp =
      (right.denote cast inp).bind (op.eval cast inp none) := by
  rw [ExprOpcode.IsSign] at h
  simp only [denote, h, ↓reduceIte]
  rfl

theorem denote_sign {op : ExprOpcode} {right : JsonExpression} (h : op.IsSign) :
    (expression op .null right).denote cast inp =
      (right.denote cast inp).bind (op.eval cast inp (some (.data { value := 0 }))) := by
  rw [ExprOpcode.IsSign] at h
  simp only [denote, h, ↓reduceIte]
  rfl

theorem denote_binary {op : ExprOpcode} {left right : JsonExpression} (h : left ≠ .null) :
    (expression op left right).denote cast inp = (do
      let l ← left.denote cast inp
      let r ← right.denote cast inp
      op.eval cast inp (some l) r) := by
  cases left <;> simp_all [denote]

theorem denote_ternary {cond left right : JsonExpression} :
    (ternary cond left right).denote cast inp =
      chosen (cond.denote cast inp) (left.denote cast inp) (right.denote cast inp) := by
  rw [denote, chosen]
  cases cond.denote cast inp with
  | none => rfl
  | some c =>
    cases c with
    | bool b => cases b <;> rfl
    | data | header => rfl

/-- The register indices that are literals, wherever they stand. -/
def literalIndices : JsonExpression → List ℤ
  | .expression _ left right => left.literalIndices ++ right.literalIndices
  | .ternary cond left right =>
    cond.literalIndices ++ (left.literalIndices ++ right.literalIndices)
  | .register _ (.hexstr value) => [value]
  | .register _ index => index.literalIndices
  | _ => []

theorem literalIndices_register {array : ℕ} {index : JsonExpression}
    (h : ∀ v, index ≠ .hexstr v) :
    (register array index).literalIndices = index.literalIndices := by
  cases index <;> simp_all [literalIndices]

end JsonExpression

/-- A literal index is the same number for the compiler, which makes an `unsigned int` of it, as
for the machine. -/
def BignumCast.SameIndex (cast : BignumCast) (value : ℤ) : Prop :=
  ∀ idx, cast.toUint value = some idx → cast.toSizeT value = some idx

theorem BignumCast.sameIndex_of_lt (cast : BignumCast) {value : ℤ} (hpos : 0 ≤ value)
    (hlt : value < 2 ^ 32) : cast.SameIndex value := by
  intro idx hidx
  obtain ⟨n, rfl⟩ := Int.eq_ofNat_of_zero_le hpos
  have hn : n < 2 ^ 32 := by omega
  rw [cast.toUint_natCast n hn] at hidx
  rw [← hidx]
  exact cast.toSizeT_natCast n (by omega)

/-- The code of a well-typed tree over a pool of constants that holds its literals. A reference to
a register has the index that its literal stands for. -/
inductive Code (cast : BignumCast) (consts : List ℤ) :
    JsonExpression → ExprType → List Op → Prop
  | unary {op : ExprOpcode} {right : JsonExpression} {τr τ : ExprType} {cr : List Op} :
      op.signature = some (none, τr, τ) → Code cast consts right τr cr →
      Code cast consts (.expression op .null right) τ (cr ++ [.opcode op 0])
  | binary {op : ExprOpcode} {left right : JsonExpression} {τl τr τ : ExprType}
      {cl cr : List Op} : op.signature = some (some τl, τr, τ) → left ≠ .null →
      Code cast consts left τl cl → Code cast consts right τr cr →
      Code cast consts (.expression op left right) τ (cl ++ (cr ++ [.opcode op 0]))
  | sign {op : ExprOpcode} {right : JsonExpression} {cr : List Op} {n : ℕ} :
      op.IsSign → consts[n]? = some 0 → Code cast consts right .data cr →
      Code cast consts (.expression op .null right) .data ([.loadConst n] ++ (cr ++ [.opcode op 0]))
  | ternary {cond left right : JsonExpression} {τ : ExprType} {cc cl cr : List Op} :
      Code cast consts cond .bool cc → Code cast consts left τ cl → Code cast consts right τ cr →
      Code cast consts (.ternary cond left right) τ
        (cc ++ ([.ternaryOp, .skip (cl.length + 1)] ++ (cl ++ ([.skip cr.length] ++ cr))))
  | header (id : ℕ) : Code cast consts (.header id) .header [.loadHeader id]
  | field (hdr fieldOffset : ℕ) :
      Code cast consts (.field hdr fieldOffset) .data [.loadField hdr fieldOffset]
  | bool (value : Bool) : Code cast consts (.bool value) .bool [.loadBool value]
  | hexstr {value : ℤ} {n : ℕ} : consts[n]? = some value →
      Code cast consts (.hexstr value) .data [.loadConst n]
  | runtimeData (offset : ℕ) : Code cast consts (.runtimeData offset) .data [.loadLocal offset]
  | registerRef {array idx : ℕ} {value : ℤ} : cast.toSizeT value = some idx →
      Code cast consts (.register array (.hexstr value)) .data [.loadRegisterRef array idx]
  | registerGen {array : ℕ} {index : JsonExpression} {ci : List Op} :
      (∀ v, index ≠ .hexstr v) → Code cast consts index .data ci →
      Code cast consts (.register array index) .data (ci ++ [.loadRegisterGen array])

namespace Code

variable {cast : BignumCast} {consts : List ℤ} {t : JsonExpression} {τ : ExprType}
  {ops : List Op}

theorem cast_consts {consts' : List ℤ} (h : Code cast consts t τ ops) (he : consts = consts') :
    Code cast consts' t τ ops := he ▸ h

/-- A larger pool serves as well. -/
theorem append_consts (h : Code cast consts t τ ops) (more : List ℤ) :
    Code cast (consts ++ more) t τ ops := by
  have hpool : ∀ {n : ℕ} {v : ℤ}, consts[n]? = some v → (consts ++ more)[n]? = some v := by
    intro n v hn
    rw [List.getElem?_append_left (List.getElem?_eq_some_iff.mp hn).1, hn]
  induction h with
  | unary hop _ ih => exact .unary hop ih
  | binary hop hne _ _ ihl ihr => exact .binary hop hne ihl ihr
  | sign hop hn _ ih => exact .sign hop (hpool hn) ih
  | ternary _ _ _ ihc ihl ihr => exact .ternary ihc ihl ihr
  | header id => exact .header id
  | field hdr fieldOffset => exact .field hdr fieldOffset
  | bool value => exact .bool value
  | hexstr hn => exact .hexstr (hpool hn)
  | runtimeData offset => exact .runtimeData offset
  | registerRef hidx => exact .registerRef hidx
  | registerGen hne _ ih => exact .registerGen hne ih

/-- Code moves behind other constants with its offsets shifted. -/
theorem shift (h : Code cast consts t τ ops) (before : List ℤ) :
    Code cast (before ++ consts) t τ (ops.map (Op.shiftConst before.length)) := by
  have hpool : ∀ {n : ℕ} {v : ℤ}, consts[n]? = some v →
      (before ++ consts)[n + before.length]? = some v := by
    intro n v hn
    rw [List.getElem?_append_right (Nat.le_add_left _ _), Nat.add_sub_cancel, hn]
  induction h with
  | unary hop _ ih => simpa [Op.shiftConst] using Code.unary hop ih
  | binary hop hne _ _ ihl ihr => simpa [Op.shiftConst] using Code.binary hop hne ihl ihr
  | sign hop hn _ ih => simpa [Op.shiftConst] using Code.sign hop (hpool hn) ih
  | ternary _ _ _ ihc ihl ihr => simpa [Op.shiftConst] using Code.ternary ihc ihl ihr
  | header id => exact .header id
  | field hdr fieldOffset => exact .field hdr fieldOffset
  | bool value => exact .bool value
  | hexstr hn => exact .hexstr (hpool hn)
  | runtimeData offset => exact .runtimeData offset
  | registerRef hidx => exact .registerRef hidx
  | registerGen hne _ ih => simpa [Op.shiftConst] using Code.registerGen hne ih

end Code

section Build

variable {cast : BignumCast} {t : JsonExpression} {τ : ExprType} {e e' : Expression}

/-- `build_expression` appended the code of a tree, and its literals. -/
def Appended (cast : BignumCast) (t : JsonExpression) (τ : ExprType) (e e' : Expression) : Prop :=
  ∃ ops consts, e'.ops = e.ops ++ ops ∧ e'.constValues = e.constValues ++ consts ∧
    Code cast e'.constValues t τ ops

theorem Appended.pushBack {op : Op} (h : Code cast e.constValues t τ [op]) :
    Appended cast t τ e (e.pushBack op) :=
  ⟨[op], [], rfl, by simp [Expression.pushBack], h⟩

/-- The last operation of a tree follows the code of its operands. -/
theorem Appended.snoc {op : Op} {ops : List Op} {consts : List ℤ} {e₁ : Expression}
    (hops : e₁.ops = e.ops ++ ops) (hconsts : e₁.constValues = e.constValues ++ consts)
    (hcode : Code cast e₁.constValues t τ (ops ++ [op])) : Appended cast t τ e (e₁.pushBack op) :=
  ⟨ops ++ [op], consts, by simp [Expression.pushBack, hops], hconsts, hcode⟩

theorem buildExpression_unary {op : ExprOpcode} {right : JsonExpression} (h : ¬ op.IsSign) :
    buildExpression cast (.expression op .null right) e =
      (buildExpression cast right e).map fun e => e.pushBackOp op := by
  rw [ExprOpcode.IsSign] at h
  cases hr : buildExpression cast right e <;> simp [buildExpression, h, hr]

theorem buildExpression_sign {op : ExprOpcode} {right : JsonExpression} (h : op.IsSign) :
    buildExpression cast (.expression op .null right) e =
      (buildExpression cast right (e.pushBackLoadConst 0)).map fun e => e.pushBackOp op := by
  rw [ExprOpcode.IsSign] at h
  cases hr : buildExpression cast right (e.pushBackLoadConst 0) <;> simp [buildExpression, h, hr]

theorem buildExpression_binary {op : ExprOpcode} {left right : JsonExpression}
    (h : left ≠ .null) :
    buildExpression cast (.expression op left right) e = (do
      let e ← buildExpression cast left e
      let e ← buildExpression cast right e
      some (e.pushBackOp op)) := by
  rw [buildExpression, if_neg fun hl => h hl.2]

theorem buildExpression_register {array : ℕ} {index : JsonExpression} (hnull : index ≠ .null)
    (h : ∀ v, index ≠ .hexstr v) : buildExpression cast (.register array index) e =
      (buildExpression cast index e).map fun e => e.pushBackLoadRegisterGen array := by
  cases index <;> simp_all [buildExpression, Option.map_eq_bind]

theorem not_isSign_of_signature {op : ExprOpcode} {τr τ : ExprType}
    (h : op.signature = some (none, τr, τ)) : ¬ op.IsSign := by
  rintro (rfl | rfl) <;> simp [ExprOpcode.signature] at h

/-- `build_expression` appends the code of a well-typed tree. -/
theorem buildExpression_appended (ht : t.Typed τ) (hlit : ∀ v ∈ t.literalIndices, cast.SameIndex v)
    (h : buildExpression cast t e = some e') : Appended cast t τ e e' := by
  induction ht generalizing e e' with
  | @unary op right τr τ hop _ ih =>
    rw [buildExpression_unary (not_isSign_of_signature hop)] at h
    obtain ⟨e₁, h₁, rfl⟩ := Option.map_eq_some_iff.mp h
    obtain ⟨ops, consts, hops, hconsts, hcode⟩ := ih hlit h₁
    exact .snoc hops hconsts (.unary hop hcode)
  | @binary op left right τl τr τ hop hl _ ihl ihr =>
    rw [buildExpression_binary hl.ne_null] at h
    obtain ⟨e₁, h₁, h⟩ := Option.bind_eq_some_iff.mp h
    obtain ⟨e₂, h₂, h⟩ := Option.bind_eq_some_iff.mp h
    obtain rfl := Option.some.inj h
    obtain ⟨hlitl, hlitr⟩ := List.forall_mem_append.mp hlit
    obtain ⟨cl, kl, hcl, hkl, hl'⟩ := ihl hlitl h₁
    obtain ⟨cr, kr, hcr, hkr, hr'⟩ := ihr hlitr h₂
    have hcode := Code.binary hop hl.ne_null (hl'.append_consts kr) (hkr ▸ hr')
    rw [← hkr, ← List.append_assoc] at hcode
    exact .snoc (by rw [hcr, hcl, List.append_assoc]) (by rw [hkr, hkl, List.append_assoc]) hcode
  | @sign op right hop _ ih =>
    rw [buildExpression_sign hop] at h
    obtain ⟨e₁, h₁, rfl⟩ := Option.map_eq_some_iff.mp h
    obtain ⟨cr, kr, hcr, hkr, hr'⟩ := ih hlit h₁
    have hzero : e₁.constValues[e.constValues.length]? = some 0 := by
      simp [hkr, Expression.pushBackLoadConst]
    have hcode := Code.sign hop hzero hr'
    rw [← List.append_assoc] at hcode
    have hops : e₁.ops = e.ops ++ ([.loadConst e.constValues.length] ++ cr) := by
      simp [hcr, Expression.pushBackLoadConst]
    have hconsts : e₁.constValues = e.constValues ++ ([0] ++ kr) := by
      simp [hkr, Expression.pushBackLoadConst]
    exact .snoc hops hconsts hcode
  | @ternary cond left right τ _ _ _ ihc ihl ihr =>
    obtain ⟨e₁, h₁, h⟩ := Option.bind_eq_some_iff.mp h
    obtain ⟨el, hl, h⟩ := Option.bind_eq_some_iff.mp h
    obtain ⟨er, hr, h⟩ := Option.bind_eq_some_iff.mp h
    obtain rfl := Option.some.inj h
    obtain ⟨hlitc, hlits⟩ := List.forall_mem_append.mp hlit
    obtain ⟨hlitl, hlitr⟩ := List.forall_mem_append.mp hlits
    obtain ⟨cc, kc, hcc, hkc, hc'⟩ := ihc hlitc h₁
    obtain ⟨cl, kl, hcl, hkl, hl'⟩ := ihl hlitl hl
    obtain ⟨cr, kr, hcr, hkr, hr'⟩ := ihr hlitr hr
    rw [List.nil_append] at hcl hkl hcr hkr
    subst hcl hkl hcr hkr
    have hconsts : (e₁.pushBackTernaryOp el er).constValues =
        e₁.constValues ++ el.constValues ++ er.constValues := by
      simp [Expression.pushBackTernaryOp, Expression.pushBack, Expression.appendExpression]
    have hcode := Code.ternary (hc'.append_consts (el.constValues ++ er.constValues))
      (((hl'.shift e₁.constValues).append_consts er.constValues).cast_consts
        (List.append_assoc _ _ _))
      ((hr'.shift (e₁.constValues ++ el.constValues)).cast_consts (List.append_assoc _ _ _))
    refine ⟨_, kc ++ el.constValues ++ er.constValues, ?_, by rw [hconsts, hkc]; simp,
      hcode.cast_consts (by rw [hconsts, List.append_assoc])⟩
    simp [Expression.pushBackTernaryOp, Expression.pushBack, Expression.appendExpression, hcc]
  | header id => exact Option.some.inj h ▸ .pushBack (.header id)
  | field hdr fieldOffset => exact Option.some.inj h ▸ .pushBack (.field hdr fieldOffset)
  | bool value => exact Option.some.inj h ▸ .pushBack (.bool value)
  | hexstr value =>
    obtain rfl := Option.some.inj h
    exact ⟨[.loadConst e.constValues.length], [value], rfl, rfl,
      .hexstr (by simp [Expression.pushBackLoadConst])⟩
  | runtimeData offset => exact Option.some.inj h ▸ .pushBack (.runtimeData offset)
  | @register array index hi ih =>
    by_cases hindex : ∃ v, index = .hexstr v
    · obtain ⟨v, rfl⟩ := hindex
      obtain ⟨idx, hidx, h⟩ := Option.bind_eq_some_iff.mp h
      have hsame := hlit v List.mem_cons_self idx hidx
      exact Option.some.inj h ▸ .pushBack (.registerRef hsame)
    · have hindex : ∀ v, index ≠ .hexstr v := fun v hv => hindex ⟨v, hv⟩
      rw [buildExpression_register hi.ne_null hindex] at h
      rw [JsonExpression.literalIndices_register hindex] at hlit
      obtain ⟨e₁, h₁, rfl⟩ := Option.map_eq_some_iff.mp h
      obtain ⟨ops, consts, hops, hconsts, hcode⟩ := ih hlit h₁
      exact .snoc hops hconsts (.registerGen hindex hcode)

end Build

end Bmv2
