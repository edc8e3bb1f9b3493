import Bmv2.Expressions.Eval

/-! What the value of an expression depends on: the fields that its code loads, the validity of
headers, and what it gets from outside the packet. -/
namespace Bmv2

/-- Inputs that agree on the fields `reads`, and on everything but fields. -/
structure EvalInput.Agree (reads : ℕ → ℕ → Prop) (inp inp' : EvalInput) : Prop where
  locals : inp.locals = inp'.locals
  registerArrays : inp.registerArrays = inp'.registerArrays
  length : inp.phv.headers.length = inp'.phv.headers.length
  headerValid : ∀ header, inp.headerValid header = inp'.headerValid header
  field : ∀ header fieldOffset, reads header fieldOffset →
    inp.field header fieldOffset = inp'.field header fieldOffset

/-- The code loads no other fields. -/
def LoadsWithin (reads : ℕ → ℕ → Prop) (ops : List Op) : Prop :=
  ∀ header fieldOffset, Op.loadField header fieldOffset ∈ ops → reads header fieldOffset

/-- The fields that the data stack points to. -/
def Machine.Within (reads : ℕ → ℕ → Prop) (m : Machine) : Prop :=
  ∀ header fieldOffset, DataRef.field header fieldOffset ∈ m.dataStack → reads header fieldOffset

namespace Machine

variable {reads : ℕ → ℕ → Prop} {inp inp' : EvalInput} {cast : BignumCast} {consts : List ℤ}
  {m m' : Machine} {d : Data} {b : Bool} {skip dest : ℕ}

theorem deref_eq (hinp : inp.Agree reads inp') {ref : DataRef}
    (href : ∀ header fieldOffset, ref = .field header fieldOffset → reads header fieldOffset) :
    m.deref inp consts ref = m.deref inp' consts ref := by
  cases ref with
  | temp i => rfl
  | field header fieldOffset => exact hinp.field _ _ (href _ _ rfl)
  | const offset => rfl
  | runtimeData offset => exact congrArg (·[offset]?) hinp.locals
  | register array idx =>
    unfold deref EvalInput.registerAt
    rw [hinp.registerArrays]

theorem load_eq (hinp : inp.Agree reads inp') {ref : DataRef}
    (href : ∀ header fieldOffset, ref = .field header fieldOffset → reads header fieldOffset) :
    m.load inp consts ref = m.load inp' consts ref := by
  unfold load
  rw [deref_eq hinp href]

theorem Within.load (hm : m.Within reads) {ref : DataRef}
    (href : ∀ header fieldOffset, ref = .field header fieldOffset → reads header fieldOffset)
    (h : m.load inp consts ref = .ok (skip, m')) : m'.Within reads := by
  unfold Machine.load at h
  split at h
  · cases h
  · obtain ⟨-, rfl⟩ := Prod.mk.inj (Except.ok.inj h)
    intro header fieldOffset hmem
    rcases List.mem_cons.mp hmem with heq | hmem
    · exact href _ _ heq.symm
    · exact hm _ _ hmem

theorem popData_eq (hinp : inp.Agree reads inp') (hm : m.Within reads) :
    m.popData inp consts = m.popData inp' consts := by
  unfold popData
  cases hstack : m.dataStack with
  | nil => rfl
  | cons ref dataStack =>
    have href : m.deref inp consts ref = m.deref inp' consts ref := by
      apply deref_eq hinp
      rintro header fieldOffset rfl
      exact hm _ _ (hstack ▸ List.mem_cons_self)
    simp only [href]

theorem Within.popData (hm : m.Within reads) (h : m.popData inp consts = .ok (d, m')) :
    m'.Within reads := by
  unfold Machine.popData at h
  split at h
  · cases h
  · rename_i ref dataStack hstack
    split at h
    · cases h
    · obtain ⟨-, rfl⟩ := Prod.mk.inj (Except.ok.inj h)
      intro header fieldOffset hmem
      exact hm _ _ (hstack ▸ List.mem_cons_of_mem _ hmem)

theorem Within.popBool (hm : m.Within reads) (h : m.popBool = .ok (b, m')) : m'.Within reads := by
  unfold Machine.popBool at h
  split at h
  · cases h
  · obtain ⟨-, rfl⟩ := Prod.mk.inj (Except.ok.inj h)
    exact hm

theorem Within.pushBool (hm : m.Within reads) {result : Option Bool}
    (h : m.pushBool result = .ok (skip, m')) : m'.Within reads := by
  unfold Machine.pushBool at h
  split at h
  · cases h
  · obtain ⟨-, rfl⟩ := Prod.mk.inj (Except.ok.inj h)
    exact hm

theorem Within.writeTemp (hm : m.Within reads) {result : Option ℤ}
    (h : m.writeTemp dest result = .ok (skip, m')) : m'.Within reads := by
  unfold Machine.writeTemp at h
  split at h
  · cases h
  · split at h
    · obtain ⟨-, rfl⟩ := Prod.mk.inj (Except.ok.inj h)
      intro header fieldOffset hmem
      rcases List.mem_cons.mp hmem with heq | hmem
      · cases heq
      · exact hm _ _ hmem
    · cases h

/-- Computations that do the same and stay within the fields that are read. -/
def Same (reads : ℕ → ℕ → Prop) {α : Type} (x y : Except EvalFault (α × Machine)) : Prop :=
  x = y ∧ ∀ a m, x = .ok (a, m) → m.Within reads

theorem Same.bind {α β : Type} {x y : Except EvalFault (α × Machine)}
    {f g : α × Machine → Except EvalFault (β × Machine)} (h : Same reads x y)
    (hfg : ∀ a m, m.Within reads → Same reads (f (a, m)) (g (a, m))) :
    Same reads (x >>= f) (y >>= g) := by
  obtain ⟨rfl, hwithin⟩ := h
  cases x with
  | error e => exact ⟨rfl, fun a m h => by cases h⟩
  | ok p => exact hfg _ _ (hwithin _ _ rfl)

theorem Same.popData (hinp : inp.Agree reads inp') (hm : m.Within reads) :
    Same reads (m.popData inp consts) (m.popData inp' consts) :=
  ⟨popData_eq hinp hm, fun _ _ h => hm.popData h⟩

theorem Same.popBool (hm : m.Within reads) : Same reads m.popBool m.popBool :=
  ⟨rfl, fun _ _ h => hm.popBool h⟩

theorem Same.pushBool (hm : m.Within reads) (result : Option Bool) :
    Same reads (m.pushBool result) (m.pushBool result) :=
  ⟨rfl, fun _ _ h => hm.pushBool h⟩

theorem Same.writeTemp (hm : m.Within reads) (dest : ℕ) (result : Option ℤ) :
    Same reads (m.writeTemp dest result) (m.writeTemp dest result) :=
  ⟨rfl, fun _ _ h => hm.writeTemp h⟩

theorem Same.ok (hm : m.Within reads) (skip : ℕ) :
    Same reads (.ok (skip, m)) (.ok (skip, m)) := by
  refine ⟨rfl, fun a m' h => ?_⟩
  obtain ⟨-, rfl⟩ := Prod.mk.inj (Except.ok.inj h)
  exact hm

theorem Same.error (e : EvalFault) {α : Type} :
    Same reads (.error e : Except EvalFault (α × Machine)) (.error e) :=
  ⟨rfl, fun _ _ h => by cases h⟩

theorem Same.load (hinp : inp.Agree reads inp') (hm : m.Within reads) {ref : DataRef}
    (href : ∀ header fieldOffset, ref = .field header fieldOffset → reads header fieldOffset) :
    Same reads (m.load inp consts ref) (m.load inp' consts ref) :=
  ⟨load_eq hinp href, fun _ _ h => hm.load href h⟩

/-- One operation does the same on inputs that agree on what it loads. -/
theorem exec_same (cast : BignumCast) (consts : List ℤ) (hinp : inp.Agree reads inp')
    (hm : m.Within reads) (op : Op)
    (hop : ∀ header fieldOffset, op = .loadField header fieldOffset → reads header fieldOffset) :
    Same reads (m.exec cast inp consts op) (m.exec cast inp' consts op) := by
  have other : ∀ {ref : DataRef}, (∀ header fieldOffset, ref ≠ .field header fieldOffset) →
      Same reads (m.load inp consts ref) (m.load inp' consts ref) := fun href =>
    .load hinp hm fun _ _ heq => absurd heq (href _ _)
  cases op with
  | loadField header fieldOffset =>
    refine .load hinp hm fun header' fieldOffset' heq => ?_
    obtain ⟨rfl, rfl⟩ := DataRef.field.inj heq
    exact hop _ _ rfl
  | loadHeader header =>
    simp only [exec, hinp.length]
    split
    · have hm' : Within reads { m with headerStack := header :: m.headerStack } := hm
      exact .ok hm' 0
    · exact .error _
  | loadBool value =>
    have hm' : Within reads { m with boolStack := value :: m.boolStack } := hm
    exact .ok hm' 0
  | loadConst offset => exact other fun _ _ h => by cases h
  | loadLocal offset => exact other fun _ _ h => by cases h
  | loadRegisterRef array idx => exact other fun _ _ h => by cases h
  | loadRegisterGen array =>
    refine .bind (.popData hinp hm) fun rd m hm => ?_
    dsimp only
    cases rd.getSizeT cast with
    | none => exact .error _
    | some idx =>
      apply Same.load hinp hm
      intro _ _ heq
      cases heq
  | opcode op dest =>
    cases op with
    | arith op =>
      exact .bind (.popData hinp hm) fun rd m hm =>
        .bind (.popData hinp hm) fun ld m hm => .writeTemp hm _ _
    | cmp op =>
      exact .bind (.popData hinp hm) fun rd m hm =>
        .bind (.popData hinp hm) fun ld m hm => .pushBool hm _
    | and =>
      exact .bind (.popBool hm) fun _ m hm => .bind (.popBool hm) fun _ m hm => .pushBool hm _
    | or => exact .bind (.popBool hm) fun _ m hm => .bind (.popBool hm) fun _ m hm => .pushBool hm _
    | not => exact .bind (.popBool hm) fun _ m hm => .pushBool hm _
    | bitNeg => exact .bind (.popData hinp hm) fun rd m hm => .writeTemp hm _ _
    | validHeader =>
      simp only [exec]
      cases m.headerStack with
      | nil => exact .error _
      | cons header headerStack =>
        simp only [hinp.headerValid]
        have hm' : Within reads { m with headerStack } := hm
        exact .pushBool hm' _
    | dataToBool => exact .bind (.popData hinp hm) fun rd m hm => .pushBool hm _
    | boolToData => exact .bind (.popBool hm) fun _ m hm => .writeTemp hm _ _
  | ternaryOp => exact .bind (.popBool hm) fun _ m hm => .ok hm _
  | skip skipNum => exact .ok hm _

/-- The same run, by induction on the operations that are left. -/
theorem run_eq (cast : BignumCast) (consts : List ℤ) (hinp : inp.Agree reads inp')
    {ops : List Op} (hops : LoadsWithin reads ops) (hm : m.Within reads) :
    run cast inp consts ops m = run cast inp' consts ops m ∧
      ∀ m', run cast inp consts ops m = .ok m' → m'.Within reads := by
  induction ops, m using run.induct with
  | case1 m =>
    rw [run, run]
    exact ⟨rfl, fun m' h => Except.ok.inj h ▸ hm⟩
  | case2 op ops m ih =>
    obtain ⟨heq, hwithin⟩ := exec_same cast consts hinp hm op
      fun _ _ h => hops _ _ (h ▸ List.mem_cons_self)
    rw [run, run, ← heq]
    cases hexec : m.exec cast inp consts op with
    | error e => exact ⟨rfl, fun m' h => by cases h⟩
    | ok p =>
      refine ih p.1 p.2 (fun header fieldOffset hmem => ?_) (hwithin _ _ hexec)
      exact hops _ _ (List.mem_cons_of_mem _ (List.mem_of_mem_drop hmem))

end Machine

/-- The value of an expression on inputs that agree on the fields it loads. -/
theorem Expression.evalArith_congr {reads : ℕ → ℕ → Prop} {inp inp' : EvalInput}
    (hinp : inp.Agree reads inp') (cast : BignumCast) {e : Expression}
    (he : LoadsWithin reads e.ops) (temps : List ℤ) :
    e.evalArith cast inp temps = e.evalArith cast inp' temps := by
  have hstart : (e.start temps).Within reads := fun _ _ h => by cases h
  obtain ⟨heq, hwithin⟩ := Machine.run_eq cast e.constValues hinp he hstart
  unfold Expression.evalArith Expression.eval
  rw [← heq]
  cases hrun : Machine.run cast inp e.constValues e.ops (e.start temps) with
  | error => rfl
  | ok m =>
    have hpop : m.popData inp e.constValues = m.popData inp' e.constValues :=
      Machine.popData_eq hinp (hwithin m hrun)
    change (m.popData inp e.constValues >>= fun x => Except.ok x.1.value) =
      m.popData inp' e.constValues >>= fun x => Except.ok x.1.value
    rw [hpop]

/-- The value of a condition on inputs that agree on the fields it loads. -/
theorem Expression.evalBool_congr {reads : ℕ → ℕ → Prop} {inp inp' : EvalInput}
    (hinp : inp.Agree reads inp') (cast : BignumCast) {e : Expression}
    (he : LoadsWithin reads e.ops) (temps : List ℤ) :
    e.evalBool cast inp temps = e.evalBool cast inp' temps := by
  have hstart : (e.start temps).Within reads := fun _ _ h => by cases h
  unfold Expression.evalBool Expression.eval
  rw [(Machine.run_eq cast e.constValues hinp he hstart).1]

end Bmv2
