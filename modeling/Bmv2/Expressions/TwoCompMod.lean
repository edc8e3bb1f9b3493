import Bmv2.Lib.TwosComplement
import Bmv2.Expressions.Eval

/-! `Data::two_comp_mod` (`data.h`) on objects: its reads and its writes one after the other,
when the destination may be one of the operands, and which number it leaves there. -/
namespace Bmv2
open TwosComplement

/-- Where objects of type `Data` live. Different references may lead to the same object. -/
structure DataStore (σ ρ : Type) where
  read : σ → ρ → Option Data
  assign : σ → ρ → ℤ → Option σ
  read_assign : ∀ {s s' : σ} {r : ρ} {v : ℤ}, assign s r v = some s' →
    (read s' r).map Data.value = some v
  assign_assign : ∀ {s s' : σ} {r : ρ} {v : ℤ}, assign s r v = some s' →
    ∀ v', assign s' r v' = assign s r v'
  assign_none : ∀ {s : σ} {r : ρ} {v : ℤ}, assign s r v = none → ∀ v', assign s r v' = none

namespace DataStore

variable {σ ρ : Type} (S : DataStore σ ρ) (cast : BignumCast)

/-- The statements of `two_comp_mod` behind the constants of the width. Each read goes to the
objects as they are at that point. -/
def reduce (this src : ρ) (mask max min modulus : ℤ) (s : σ) : Option σ := do
  if (← S.read s src).value < min ∨ (← S.read s src).value > max then
    let s ← S.assign s this (Int.land (← S.read s src).value mask)
    if (← S.read s this).value > max then
      S.assign s this ((← S.read s this).value - modulus)
    else some s
  else S.assign s this (← S.read s src).value

/-- `two_comp_mod`; `uwidth - 1` is unsigned. -/
def twoCompMod (this src width : ρ) (s : σ) : Option σ := do
  let uwidth ← (← S.read s width).getUint cast
  let half : ℤ := 2 ^ ((uwidth + (2 ^ 32 - 1)) % 2 ^ 32)
  S.reduce this src (2 ^ uwidth - 1) (half - 1) (-half) (2 ^ uwidth) s

variable {S cast} {this src width : ρ} {s : σ} {x y : Data}

/-- The number is read before the first write, so the destination gets what it makes, also when
it is the object that the number is read from. -/
theorem reduce_eq (hsrc : S.read s src = some x) (mask max min modulus : ℤ) :
    S.reduce this src mask max min modulus s = S.assign s this
      (if x.value < min ∨ x.value > max then
        if Int.land x.value mask > max then Int.land x.value mask - modulus
        else Int.land x.value mask
      else x.value) := by
  unfold reduce
  rw [hsrc]
  simp only [Option.bind_eq_bind, Option.bind_some]
  by_cases hrange : x.value < min ∨ x.value > max
  · rw [if_pos hrange, if_pos hrange]
    cases hassign : S.assign s this (Int.land x.value mask) with
    | none => rw [Option.bind_none, S.assign_none hassign]
    | some s' =>
      obtain ⟨z, hz, hvalue⟩ := Option.map_eq_some_iff.mp (S.read_assign hassign)
      rw [Option.bind_some, hz, Option.bind_some, Option.bind_some, hvalue]
      split_ifs with hmax
      · exact S.assign_assign hassign _
      · exact hassign.symm
  · rw [if_neg hrange, if_neg hrange]

/-- The call reads its operands, computes and assigns, whichever objects coincide. -/
theorem twoCompMod_eq : S.twoCompMod cast this src width s =
    (S.read s width).bind fun y => (S.read s src).bind fun x =>
      (x.twoCompMod cast y).bind fun v => S.assign s this v := by
  unfold twoCompMod
  cases S.read s width with
  | none => rfl
  | some y =>
    rw [Option.bind_eq_bind, Option.bind_some, Option.bind_some]
    cases hsrc : S.read s src with
    | none =>
      cases y.getUint cast with
      | none => rfl
      | some uwidth =>
        unfold reduce
        rw [Option.bind_eq_bind, Option.bind_some, hsrc]
        rfl
    | some x =>
      unfold Data.twoCompMod
      rw [Option.bind_some]
      cases y.getUint cast with
      | none => rfl
      | some uwidth => exact reduce_eq hsrc _ _ _ _

theorem twoCompMod_eq_assign_iff (hsrc : S.read s src = some x) (hwidth : S.read s width = some y)
    {v : ℤ} (hthis : ∀ v, (S.assign s this v).isSome) :
    S.twoCompMod cast this src width s = S.assign s this v ↔ x.twoCompMod cast y = some v := by
  rw [twoCompMod_eq, hwidth, hsrc, Option.bind_some, Option.bind_some]
  cases x.twoCompMod cast y with
  | none =>
    obtain ⟨s', hs'⟩ := Option.isSome_iff_exists.mp (hthis v)
    rw [Option.bind_none, hs']
    exact iff_of_false (Option.some_ne_none s').symm (Option.some_ne_none v).symm
  | some v' =>
    rw [Option.bind_some]
    constructor
    · intro h
      obtain ⟨s', hs'⟩ := Option.isSome_iff_exists.mp (hthis v)
      rw [← S.read_assign hs', ← S.read_assign (h.trans hs')]
    · intro h
      rw [Option.some.inj h]

end DataStore

namespace Data

variable {cast : BignumCast} {x y : Data} {uwidth half w : ℕ}

theorem twoCompMod_eq_ite (hu : y.getUint cast = some uwidth)
    (hhalf : (uwidth + (2 ^ 32 - 1)) % 2 ^ 32 = half) :
    x.twoCompMod cast y = some
      (if x.value < -2 ^ half ∨ x.value > 2 ^ half - 1 then
        if Int.land x.value (2 ^ uwidth - 1) > 2 ^ half - 1 then
          Int.land x.value (2 ^ uwidth - 1) - 2 ^ uwidth
        else Int.land x.value (2 ^ uwidth - 1)
      else x.value) := by
  subst hhalf
  unfold twoCompMod
  rw [hu]
  rfl

theorem twoCompMod_of_pos (hu : y.getUint cast = some uwidth) (hlt : uwidth < 2 ^ 32)
    (hpos : 0 < uwidth) : x.twoCompMod cast y = some (x.value.bmod (2 ^ uwidth)) := by
  have hhalf : (uwidth + (2 ^ 32 - 1)) % 2 ^ 32 = uwidth - 1 := by omega
  rw [twoCompMod_eq_ite hu hhalf, bmod_eq_ite hpos]

/-- For a width that is read as zero, the mask is zero and `uwidth - 1` wraps. -/
theorem twoCompMod_of_zero (hu : y.getUint cast = some 0) :
    x.twoCompMod cast y = some (if InRange (2 ^ 32) x.value then x.value else 0) := by
  obtain ⟨half, hhalf⟩ : ∃ half : ℕ, 2 ^ 32 = half + 1 := ⟨2 ^ 32 - 1, by norm_num⟩
  have hwrap : (0 + (2 ^ 32 - 1)) % 2 ^ 32 = half := by omega
  have hpos : (0 : ℤ) < 2 ^ half := by positivity
  rw [twoCompMod_eq_ite hu hwrap, land_mask, pow_zero, Int.emod_one, hhalf]
  have hin : ¬ (x.value < -2 ^ half ∨ x.value > 2 ^ half - 1) ↔ InRange (half + 1) x.value := by
    rw [InRange, Nat.add_sub_cancel]
    omega
  rw [if_neg (by omega : ¬ (0 : ℤ) > 2 ^ half - 1), ← ite_not]
  exact congrArg some (if_congr hin rfl rfl)

/-- When reading the width `w` as an unsigned int does not change the reduction of `v`. Below
`2 ^ 32` it is read as it is. A larger width is read as some other number `uwidth`: then the bits of
`v` from the sign of `uwidth` bits up to below `w` have to be the same. For `uwidth = 0` the
mask is zero and `uwidth - 1` wraps: either these bits are the ones from `2 ^ 32 - 1` on, or
all bits below `w` are zero. -/
def WidthSuffices (cast : BignumCast) (w : ℕ) (v : ℤ) : Prop :=
  w < 2 ^ 32 ∨ ∃ uwidth, cast.toUint w = some uwidth ∧
    if uwidth = 0 then InRange (2 ^ 32) v ∨ (2 ^ w : ℤ) ∣ v else Constant v (uwidth - 1) w

theorem isReduction_twoCompMod_iff (huint : ∀ v n, cast.toUint v = some n → n < 2 ^ 32)
    (hw : 0 < w) :
    (∃ v, x.twoCompMod cast { value := w } = some v ∧ IsReduction w x.value v) ↔
      WidthSuffices cast w x.value := by
  have hget : getUint cast { value := w } = cast.toUint w := rfl
  by_cases hlt : w < 2 ^ 32
  · have hu : getUint cast { value := w } = some w := hget.trans (cast.toUint_natCast w hlt)
    exact iff_of_true ⟨_, twoCompMod_of_pos hu hlt hw, isReduction_bmod hw _⟩ (Or.inl hlt)
  have hwide : 2 ^ 32 ≤ w := not_lt.mp hlt
  cases hu : cast.toUint w with
  | none =>
    have hnone : x.twoCompMod cast { value := w } = none := by
      unfold twoCompMod
      rw [hget, hu]
      rfl
    simp only [WidthSuffices, hlt, hu, hnone, reduceCtorEq, false_and, exists_false, or_self]
  | some uwidth =>
    have huwidth := huint _ _ hu
    have hcond : WidthSuffices cast w x.value ↔ if uwidth = 0 then
        InRange (2 ^ 32) x.value ∨ (2 ^ w : ℤ) ∣ x.value else Constant x.value (uwidth - 1) w := by
      simp only [WidthSuffices, hlt, false_or, hu, Option.some.injEq, exists_eq_left']
    rw [hcond]
    by_cases hzero : uwidth = 0
    · rw [if_pos hzero, twoCompMod_of_zero (hget.trans (hu.trans (congrArg some hzero)))]
      simp only [Option.some.injEq, exists_eq_left']
      split_ifs with hrange
      · exact iff_of_true (isReduction_self (hrange.mono hwide) hw) (Or.inl hrange)
      · rw [isReduction_zero_iff hw, or_iff_right hrange]
    · have hpos : 0 < uwidth := Nat.pos_of_ne_zero hzero
      rw [if_neg hzero, twoCompMod_of_pos (hget.trans hu) huwidth hpos,
        ← isReduction_bmod_iff hpos (huwidth.le.trans hwide)]
      simp only [Option.some.injEq, exists_eq_left']

/-- The widths that serve every number are the ones that an unsigned int can hold. -/
theorem forall_widthSuffices_iff {cast : BignumCast} {w : ℕ}
    (huint : ∀ v n, cast.toUint v = some n → n < 2 ^ 32) :
    (∀ v, WidthSuffices cast w v) ↔ w < 2 ^ 32 := by
  constructor
  · intro h
    by_contra hlt
    have hwide : 2 ^ 32 ≤ w := not_lt.mp hlt
    have hread := fun v => (h v).resolve_left hlt
    obtain ⟨uwidth, hu, -⟩ := hread 0
    simp only [hu, Option.some.injEq, exists_eq_left'] at hread
    have huwidth := huint _ _ hu
    by_cases hzero : uwidth = 0
    · simp only [if_pos hzero] at hread
      have hpow : (1 : ℤ) < 2 ^ w := one_lt_pow₀ (by norm_num) (by omega)
      obtain hin | hdvd := hread (2 ^ w + 1)
      · have hmax := hin.lt_two_pow hwide
        omega
      · have hone := Int.le_of_dvd (by norm_num) ((Int.dvd_add_right (dvd_refl _)).mp hdvd)
        omega
    · have hbits := hread (2 ^ (uwidth - 1) : ℕ)
      rw [if_neg hzero] at hbits
      have hnext := hbits uwidth (by omega) (by omega)
      change (2 ^ (uwidth - 1)).testBit uwidth = (2 ^ (uwidth - 1)).testBit (uwidth - 1) at hnext
      rw [Nat.testBit_two_pow_self, Nat.testBit_two_pow_of_ne (by omega)] at hnext
      cases hnext
  · intro hlt v
    exact Or.inl hlt

/-- The objects of a list, referred to by their index. -/
def objects : DataStore (List Data) ℕ where
  read s i := s[i]?
  assign s i v := s[i]?.map fun d => s.set i { d with value := v }
  read_assign := by
    intro s s' i v h
    obtain ⟨d, hd, rfl⟩ := Option.map_eq_some_iff.mp h
    rw [List.getElem?_set_self (List.getElem?_eq_some_iff.mp hd).1]
    rfl
  assign_assign := by
    intro s s' i v h v'
    obtain ⟨d, hd, rfl⟩ := Option.map_eq_some_iff.mp h
    rw [List.getElem?_set_self (List.getElem?_eq_some_iff.mp hd).1, hd, Option.map_some,
      Option.map_some, List.set_set]
  assign_none := by
    intro s i v h v'
    rw [Option.map_eq_none_iff.mp h]
    rfl

end Data

namespace Machine

variable (cast : BignumCast) (inp : EvalInput) (consts : List ℤ)

/-- Only temporaries are written. -/
def assign (m : Machine) : DataRef → ℤ → Option Machine
  | .temp i, v =>
    if i < m.dataTemps.length then some { m with dataTemps := m.dataTemps.set i v } else none
  | _, _ => none

/-- What the pointers of the data stack lead to. -/
def objects : DataStore Machine DataRef where
  read m := m.deref inp consts
  assign := assign
  read_assign := by
    intro m m' r v h
    cases r <;> simp only [assign, reduceCtorEq] at h
    case temp i =>
      split_ifs at h with hi
      obtain rfl := Option.some.inj h
      simp only [deref, List.getElem?_set_self hi, Option.map_some]
  assign_assign := by
    intro m m' r v h v'
    cases r <;> simp only [assign, reduceCtorEq] at h
    case temp i =>
      split_ifs at h with hi
      obtain rfl := Option.some.inj h
      simp only [assign, List.length_set, if_pos hi, List.set_set]
  assign_none := by
    intro m r v h v'
    cases r <;> simp only [assign] at h ⊢
    case temp i =>
      split_ifs at h with hi
      rw [if_neg hi]

variable {cast inp consts} {m m' : Machine} {dest : ℕ} {ld rd : DataRef} {rest : List DataRef}

theorem popData_of_deref {ref : DataRef} {d : Option Data} (hstack : m.dataStack = ref :: rest)
    (hd : m.deref inp consts ref = d) : m.popData inp consts =
      d.elim (.error .aborted) fun d => .ok (d, { m with dataStack := rest }) := by
  unfold popData
  rw [hstack]
  dsimp only
  rw [hd]
  cases d <;> rfl

theorem objects_twoCompMod : (objects inp consts).twoCompMod cast (.temp dest) ld rd m =
    (m.deref inp consts rd).bind fun y => (m.deref inp consts ld).bind fun x =>
      (x.twoCompMod cast y).bind fun v => m.assign (.temp dest) v :=
  DataStore.twoCompMod_eq

/-- The case of `eval_` calls `two_comp_mod` through the pointers that it pops, of which any may
lead to the temporary that is written. -/
theorem exec_twoCompMod (hstack : m.dataStack = rd :: ld :: rest) :
    m.exec cast inp consts (.opcode (.arith .twoCompMod) dest) = .ok (0, m') ↔
      ∃ m₁, (objects inp consts).twoCompMod cast (.temp dest) ld rd m = some m₁ ∧
        m' = { m₁ with dataStack := .temp dest :: rest } := by
  have hderef : ({ m with dataStack := ld :: rest } : Machine).deref inp consts ld =
      m.deref inp consts ld := by
    cases ld <;> rfl
  unfold exec
  rw [objects_twoCompMod, popData_of_deref hstack rfl]
  cases m.deref inp consts rd with
  | none => simp only [Option.elim_none, bind, Except.bind, Option.bind_none, reduceCtorEq,
      false_and, exists_false]
  | some y =>
    simp only [Option.elim_some, bind, Except.bind, Option.bind_some]
    rw [popData_of_deref rfl hderef]
    cases m.deref inp consts ld with
    | none => simp only [Option.elim_none, Option.bind_none, reduceCtorEq, false_and, exists_false]
    | some x =>
      simp only [Option.elim_some, Option.bind_some, ArithOp.eval, writeTemp, assign]
      cases x.twoCompMod cast y with
      | none => simp only [Option.bind_none, reduceCtorEq, false_and, exists_false]
      | some v =>
        rw [Option.bind_some]
        dsimp only
        split_ifs
        · simp only [Except.ok.injEq, Prod.mk.injEq, true_and, Option.some.injEq,
            exists_eq_left']
          exact eq_comm
        · simp only [false_and, exists_false]

theorem exec_twoCompMod_eq_iff {x y : Data} {v : ℤ} (hstack : m.dataStack = rd :: ld :: rest)
    (hdest : dest < m.dataTemps.length) (hld : m.deref inp consts ld = some x)
    (hrd : m.deref inp consts rd = some y) :
    m.exec cast inp consts (.opcode (.arith .twoCompMod) dest) = .ok (0, { m with
        dataTemps := m.dataTemps.set dest v
        dataStack := .temp dest :: rest }) ↔ x.twoCompMod cast y = some v := by
  rw [exec_twoCompMod hstack, objects_twoCompMod, hrd, hld, Option.bind_some, Option.bind_some]
  cases x.twoCompMod cast y with
  | none => simp only [Option.bind_none, reduceCtorEq, false_and, exists_false]
  | some v' =>
    simp only [Option.bind_some, assign, if_pos hdest]
    constructor
    · rintro ⟨m₁, hm₁, heq⟩
      obtain rfl := Option.some.inj hm₁
      have htemp := congrArg (fun m : Machine => m.dataTemps[dest]?) heq
      simp only [List.getElem?_set_self hdest] at htemp
      exact htemp.symm
    · rintro h
      obtain rfl := Option.some.inj h
      exact ⟨_, rfl, rfl⟩

end Machine

namespace Data

/-- `two_comp_mod` leaves the reduction of the source to `w` bits in the destination, which may be
the source, the width or both, exactly when reading the width suffices for it. The case of `eval_`
does the same with the temporary that it writes. -/
theorem twoCompMod_reduces_iff (cast : BignumCast)
    (huint : ∀ v n, cast.toUint v = some n → n < 2 ^ 32) {w : ℕ} (hw : 1 ≤ w) (x : Data) :
    (∀ (s : List Data) (this src width : ℕ) (d : Data), s[this]? = some d → s[src]? = some x →
      s[width]? = some { value := w } →
      ((∃ v, objects.twoCompMod cast this src width s = some (s.set this { d with value := v }) ∧
        IsReduction w x.value v) ↔ WidthSuffices cast w x.value)) ∧
    ∀ (inp : EvalInput) (consts : List ℤ) (m : Machine) (dest : ℕ) (ld rd : DataRef)
      (rest : List DataRef), m.dataStack = rd :: ld :: rest → dest < m.dataTemps.length →
      m.deref inp consts ld = some x → m.deref inp consts rd = some { value := w } →
      ((∃ v, m.exec cast inp consts (.opcode (.arith .twoCompMod) dest) = .ok (0, { m with
          dataTemps := m.dataTemps.set dest v
          dataStack := .temp dest :: rest }) ∧
        IsReduction w x.value v) ↔ WidthSuffices cast w x.value) := by
  constructor
  · intro s this src width d hthis hsrc hwidth
    rw [← isReduction_twoCompMod_iff huint hw]
    have hassign : ∀ v, objects.assign s this v = some (s.set this { d with value := v }) := by
      intro v
      change s[this]?.map _ = _
      rw [hthis]
      rfl
    apply exists_congr
    intro v
    rw [← hassign, DataStore.twoCompMod_eq_assign_iff hsrc hwidth
      fun v => Option.isSome_iff_exists.mpr ⟨_, hassign v⟩]
  · intro inp consts m dest ld rd rest hstack hdest hld hrd
    rw [← isReduction_twoCompMod_iff huint hw]
    apply exists_congr
    intro v
    rw [Machine.exec_twoCompMod_eq_iff hstack hdest hld hrd]

theorem lowBitsCast_lt (v : ℤ) (n : ℕ) (h : lowBitsCast.toUint v = some n) : n < 2 ^ 32 := by
  change (if 0 ≤ v then some (v.toNat % 2 ^ 32) else none) = some n at h
  split_ifs at h
  rw [← Option.some.inj h]
  exact Nat.mod_lt _ (by norm_num)

/-- The source as destination, the width as destination, and a temporary that is all three. -/
theorem twoCompMod_reduces_aliased :
    (∃ v, objects.twoCompMod lowBitsCast 0 0 1 [{ value := -129 }, { value := 8 }] =
      some [{ value := v }, { value := 8 }] ∧ IsReduction 8 (-129) v) ∧
    (∃ v, objects.twoCompMod lowBitsCast 1 0 1 [{ value := -129 }, { value := 8 }] =
      some [{ value := -129 }, { value := v }] ∧ IsReduction 8 (-129) v) ∧
    ∃ v, ({ dataTemps := [2], dataStack := [.temp 0, .temp 0] } : Machine).exec lowBitsCast {} []
      (.opcode (.arith .twoCompMod) 0) = .ok (0, { dataTemps := [v], dataStack := [.temp 0] }) ∧
      IsReduction 2 2 v := by
  refine ⟨?_, ?_, ?_⟩
  · exact ((twoCompMod_reduces_iff lowBitsCast lowBitsCast_lt (by decide : 1 ≤ 8)
      { value := -129 }).1 [{ value := -129 }, { value := 8 }] 0 0 1 _ rfl rfl rfl).mpr
        (Or.inl (by decide))
  · exact ((twoCompMod_reduces_iff lowBitsCast lowBitsCast_lt (by decide : 1 ≤ 8)
      { value := -129 }).1 [{ value := -129 }, { value := 8 }] 1 0 1 _ rfl rfl rfl).mpr
        (Or.inl (by decide))
  · exact ((twoCompMod_reduces_iff lowBitsCast lowBitsCast_lt (by decide : 1 ≤ 2)
      { value := 2 }).2 {} [] _ 0 (.temp 0) (.temp 0) [] rfl (by decide) rfl rfl).mpr
        (Or.inl (by decide))

example : objects.twoCompMod lowBitsCast 0 0 1 [{ value := 129 }, { value := 8 }] =
    some [{ value := -127 }, { value := 8 }] := by decide

/-- A width of `2 ^ 32 + 8` is read as 8, and the number 200 becomes -56. -/
theorem twoCompMod_reads_low_bits : ¬ ∀ (cast : BignumCast),
    (∀ v n, cast.toUint v = some n → n < 2 ^ 32) → ∀ w : ℕ, 1 ≤ w → ∀ (x d : Data) (s : List Data)
      (this src width : ℕ), s[this]? = some d → s[src]? = some x →
      s[width]? = some { value := w } →
      ∃ v, objects.twoCompMod cast this src width s = some (s.set this { d with value := v }) ∧
        IsReduction w x.value v := by
  intro h
  obtain ⟨v, hcall, hred⟩ := h lowBitsCast lowBitsCast_lt (2 ^ 32 + 8) (by omega)
    { value := 200 } {} [{}, { value := 200 }, { value := (2 ^ 32 + 8 : ℕ) }] 0 1 2 rfl rfl rfl
  have hlow : objects.twoCompMod lowBitsCast 0 1 2
      [{}, { value := 200 }, { value := (2 ^ 32 + 8 : ℕ) }] =
      some [{ value := -56 }, { value := 200 }, { value := (2 ^ 32 + 8 : ℕ) }] := by
    decide
  have hlist := Option.some.inj (hlow.symm.trans hcall)
  have hv : -56 = v := congrArg Data.value (List.cons.inj hlist).1
  have hin : InRange (2 ^ 32 + 8) 200 := InRange.mono (by decide : InRange 9 200) (by omega)
  have h200 : 200 = v := (hred 200).mp ⟨hin, rfl⟩
  omega

end Data

end Bmv2
