import Bmv2.Lib.Transition
import Bmv2.Packet.Slice

/-! Runs of the operations on fields (`fields.h`, `data.h`): after each of them the numbers of all
fields agree with their bytes. -/
namespace Bmv2
open ByteBits

/-- Where an operation reads a number: from a field, or from another `Data`. -/
inductive Operand where
  | field (i : ℕ)
  | data (d : Data)

def Operand.read (s : List Field) : Operand → Option Data
  | .field i => (s[i]?).map Field.toData
  | .data d => some d

/-- The binary operations of `Data`; the shifts by an `unsigned int` are shifts by such a `Data`. -/
inductive DataOp where
  | add
  | sub
  | multiply
  | shiftLeft
  | shiftRight
  | bitAnd
  | bitOr
  | bitXor

namespace DataOp

/-- The number that the operation computes. -/
def eval (cast : BignumCast) (src1 src2 : Data) : DataOp → Option ℤ
  | add => src1.add src2
  | sub => src1.sub src2
  | multiply => src1.multiply src2
  | shiftLeft => src1.shiftLeft cast src2
  | shiftRight => src1.shiftRight cast src2
  | bitAnd => src1.bitAnd src2
  | bitOr => src1.bitOr src2
  | bitXor => src1.bitXor src2

/-- The exact integer result. -/
def exact (x y : ℤ) : DataOp → ℤ
  | add => x + y
  | sub => x - y
  | multiply => x * y
  | shiftLeft => x * 2 ^ y.toNat
  | shiftRight => x / 2 ^ y.toNat
  | bitAnd => Int.land x y
  | bitOr => Int.lor x y
  | bitXor => Int.xor x y

def IsShift : DataOp → Prop
  | shiftLeft | shiftRight => True
  | _ => False

/-- An amount that a shift converts to an `unsigned int` without loss, if it is converted. -/
def AmountFits (cast : BignumCast) (src2 : Data) (op : DataOp) : Prop :=
  op.IsShift → ∀ n, cast.toUint src2.value = some n → (n : ℤ) = src2.value

theorem eval_eq_exact {cast : BignumCast} {src1 src2 : Data} {op : DataOp} {v : ℤ}
    (hfits : op.AmountFits cast src2) (h : op.eval cast src1 src2 = some v) :
    v = op.exact src1.value src2.value := by
  have hchecked : ∀ g : ℤ → ℤ → ℤ, Data.checked src1 src2 g = some v →
      v = g src1.value src2.value := by
    intro g hg
    unfold Data.checked at hg
    split_ifs at hg
    exact (Option.some.inj hg).symm
  have hshift : ∀ g : ℕ → ℤ, op.IsShift →
      (if src1.arith && src2.arith && decide (0 ≤ src2.value) then
        (src2.getUint cast).map g else none) = some v → v = g src2.value.toNat := by
    intro g hop hg
    split_ifs at hg
    obtain ⟨n, hn, rfl⟩ := Option.map_eq_some_iff.mp hg
    unfold Data.getUint at hn
    split_ifs at hn
    rw [← hfits hop n hn, Int.toNat_natCast]
  cases op with
  | shiftLeft => exact hshift (fun n => src1.value * 2 ^ n) trivial h
  | shiftRight => exact hshift (fun n => src1.value / 2 ^ n) trivial h
  | add => exact hchecked (· + ·) h
  | sub => exact hchecked (· - ·) h
  | multiply => exact hchecked (· * ·) h
  | bitAnd => exact hchecked Int.land h
  | bitOr => exact hchecked Int.lor h
  | bitXor => exact hchecked Int.xor h

end DataOp

/-- The operations on a number of fields, which are referred to by their index. -/
inductive FieldOp where
  | set (dst : ℕ) (v : ℤ)
  | setFromBytes (dst : ℕ) (bytes : List Byte)
  | setFromData (dst : ℕ) (src : Operand)
  | arith (op : DataOp) (dst : ℕ) (src1 src2 : Operand)
  | bitNeg (dst : ℕ) (src : Operand)
  | extract (f : ℕ) (data : List Byte) (hdrOffset : ℕ)
  | setBytes (f : ℕ) (srcBytes : List Byte)
  | swapValues (f other : ℕ)
  | copyValue (f src : ℕ)

namespace FieldOp

variable (cast : BignumCast) (s : List Field)

/-- Change a field. -/
def update (i : ℕ) (g : Field → Option Field) : Option (Unit × List Field) := do
  let f ← s[i]?
  let f' ← g f
  some ((), s.set i f')

/-- The field that an operation assigns a number to, and the number that the code computes. -/
def computed : FieldOp → Option (ℕ × ℤ)
  | set dst v => some (dst, v)
  | setFromBytes dst bytes => some (dst, value bytes)
  | setFromData dst src => (src.read s).map fun d => (dst, d.value)
  | arith op dst src1 src2 => do
    let d1 ← src1.read s
    let d2 ← src2.read s
    (op.eval cast d1 d2).map fun v => (dst, v)
  | bitNeg dst src => do
    let d ← src.read s
    d.bitNeg.map fun v => (dst, v)
  | _ => none

/-- The operations that do not assign a number. -/
def transfer : FieldOp → Option (Unit × List Field)
  | extract f data hdrOffset => update s f (·.extract data hdrOffset)
  | setBytes f srcBytes => update s f (·.setBytes srcBytes)
  | swapValues f other => do
    let f1 ← s[f]?
    let f2 ← s[other]?
    some ((), (s.set f (f1.withValues f2)).set other (f2.withValues f1))
  | copyValue f src => do
    let f2 ← s[src]?
    update s f fun f1 => some (f1.withValues f2)
  | _ => none

def step (op : FieldOp) : Option (Unit × List Field) :=
  match op with
  | set .. | setFromBytes .. | setFromData .. | arith .. | bitNeg .. => do
    let (dst, v) ← op.computed cast s
    update s dst fun f => some (f.set v)
  | extract .. | setBytes .. | swapValues .. | copyValue .. => op.transfer s

/-- The exact integer that an operation assigns, and the field that it is assigned to. -/
def exact : FieldOp → Option (ℕ × ℤ)
  | set dst v => some (dst, v)
  | setFromBytes dst bytes => some (dst, value bytes)
  | setFromData dst src => (src.read s).map fun d => (dst, d.value)
  | arith op dst src1 src2 => do
    let d1 ← src1.read s
    let d2 ← src2.read s
    some (dst, op.exact d1.value d2.value)
  | bitNeg dst src => (src.read s).map fun d => (dst, Int.lnot d.value)
  | _ => none

/-- Two fields of one type. -/
def SameType (f g : Field) : Prop := f.nbits = g.nbits ∧ f.isSigned = g.isSigned

/-- A field is extracted from a bit of the first byte, and values go between fields of a type. -/
def Typed : FieldOp → Prop
  | extract _ _ hdrOffset => hdrOffset < 8
  | swapValues f other => ∀ f1 f2, s[f]? = some f1 → s[other]? = some f2 → SameType f1 f2
  | copyValue f src => ∀ f1 f2, s[f]? = some f1 → s[src]? = some f2 → SameType f1 f2
  | _ => True

/-- No shift amount is cut off. -/
def AmountFits : FieldOp → Prop
  | arith op _ _ src2 => ∀ d2, src2.read s = some d2 → op.AmountFits cast d2
  | _ => True

/-- When an operation keeps numbers and bytes together. A number for a signed field is not one
of those above the maximum that are not wrapped, nothing is extracted along with a field, and no
bytes with bits above the width are put into a field. -/
structure Clean (op : FieldOp) : Prop where
  amount : op.AmountFits cast s
  wraps : ∀ dst v f, op.exact s = some (dst, v) → s[dst]? = some f →
    ¬ (f.isSigned ∧ 2 ^ (f.nbits - 1) ≤ v ∧ v < 2 ^ f.nbits)
  alone : ∀ i data o f, op = extract i data o → s[i]? = some f → NoneBefore data o f.nbits
  fits : ∀ i bytes f, op = setBytes i bytes → s[i]? = some f → value bytes < 2 ^ f.nbits

end FieldOp

namespace Field

variable {f g : Field}

theorem Agrees.withValues (h : g.Agrees) (htype : FieldOp.SameType f g) :
    (f.withValues g).Agrees := by
  obtain ⟨hnbits, hsigned⟩ := htype
  obtain ⟨hvalue, hholds⟩ := h
  unfold decode at hvalue
  unfold Holds at hholds
  constructor
  · unfold decode Field.withValues
    rwa [← hnbits, ← hsigned] at hvalue
  · unfold Holds Field.withValues
    rwa [← hnbits, ← hsigned] at hholds

theorem Made.withValues (h : f.Made) (hg : g.Made) (htype : FieldOp.SameType f g) :
    (f.withValues g).Made := by
  have hlen : g.bytes.length = f.nbytes := by
    rw [hg.length_bytes, hg.nbytes_eq, h.nbytes_eq, htype.1]
  exact ⟨⟨h.pos, h.nbytes_eq, hlen⟩, h.one_lt_of_signed, h.mask_eq, h.max_eq, h.min_eq⟩

end Field

namespace FieldOp

variable {cast : BignumCast} {s s' : List Field} {op : FieldOp}

/-- What holds of the fields between operations. -/
def FieldsAgree (s : List Field) : Prop := ∀ f ∈ s, f.Made ∧ f.arith ∧ f.Agrees

/-- One field changes, to what it is made. -/
theorem update_cases {i : ℕ} {g : Field → Option Field} {r : Unit}
    (h : update s i g = some (r, s')) :
    ∃ f f', s[i]? = some f ∧ g f = some f' ∧ s' = s.set i f' := by
  obtain ⟨f, hf, h⟩ := Option.bind_eq_some_iff.mp h
  obtain ⟨f', hf', h⟩ := Option.bind_eq_some_iff.mp h
  exact ⟨f, f', hf, hf', (Prod.mk.inj (Option.some.inj h)).2.symm⟩

/-- Where the amounts fit, the code computes the exact number. -/
theorem exact_of_computed {dst : ℕ} {v : ℤ} (hfits : op.AmountFits cast s)
    (h : op.computed cast s = some (dst, v)) : op.exact s = some (dst, v) := by
  cases op with
  | set => exact h
  | setFromBytes => exact h
  | setFromData => exact h
  | arith op dst' src1 src2 =>
    obtain ⟨d1, hd1, h⟩ := Option.bind_eq_some_iff.mp h
    obtain ⟨d2, hd2, h⟩ := Option.bind_eq_some_iff.mp h
    obtain ⟨v', hv', heq⟩ := Option.map_eq_some_iff.mp h
    rw [exact, hd1, hd2, ← heq, DataOp.eval_eq_exact (hfits d2 hd2) hv']
    rfl
  | bitNeg dst' src =>
    obtain ⟨d, hd, h⟩ := Option.bind_eq_some_iff.mp h
    obtain ⟨v', hv', heq⟩ := Option.map_eq_some_iff.mp h
    unfold Data.bitNeg at hv'
    split_ifs at hv'
    rw [exact, hd, Option.map_some, Option.some.inj hv', heq]
  | extract => cases h
  | setBytes => cases h
  | swapValues => cases h
  | copyValue => cases h

/-- An operation sets a field to the number that it computes, or moves bytes. -/
theorem step_cases {r : Unit} (h : op.step cast s = some (r, s')) :
    (∃ dst v f, op.computed cast s = some (dst, v) ∧ s[dst]? = some f ∧
      s' = s.set dst (f.set v)) ∨
    (op.computed cast s = none ∧ op.transfer s = some (r, s')) := by
  have hassign : (do
      let (dst, v) ← op.computed cast s
      update s dst fun f => some (f.set v)) = some (r, s') →
      ∃ dst v f, op.computed cast s = some (dst, v) ∧ s[dst]? = some f ∧
        s' = s.set dst (f.set v) := by
    intro h
    obtain ⟨⟨dst, v⟩, hv, h⟩ := Option.bind_eq_some_iff.mp h
    obtain ⟨f, f', hf, hset, rfl⟩ := update_cases h
    obtain rfl := Option.some.inj hset
    exact ⟨dst, v, f, hv, hf, rfl⟩
  cases op with
  | set => exact .inl (hassign h)
  | setFromBytes => exact .inl (hassign h)
  | setFromData => exact .inl (hassign h)
  | arith => exact .inl (hassign h)
  | bitNeg => exact .inl (hassign h)
  | extract => exact .inr ⟨rfl, h⟩
  | setBytes => exact .inr ⟨rfl, h⟩
  | swapValues => exact .inr ⟨rfl, h⟩
  | copyValue => exact .inr ⟨rfl, h⟩

theorem FieldsAgree.set (h : FieldsAgree s) (i : ℕ) {f : Field} (hf : f.Made ∧ f.arith ∧ f.Agrees) :
    FieldsAgree (s.set i f) := by
  intro g hg
  rcases List.mem_or_eq_of_mem_set hg with hg | rfl
  · exact h g hg
  · exact hf

/-- Moving bytes keeps numbers and bytes together. -/
theorem FieldsAgree.transfer (h : FieldsAgree s) {r : Unit} (htyped : op.Typed s)
    (hclean : op.Clean cast s) (hstep : op.transfer s = some (r, s')) : FieldsAgree s' := by
  cases op with
  | set => cases hstep
  | setFromBytes => cases hstep
  | setFromData => cases hstep
  | arith => cases hstep
  | bitNeg => cases hstep
  | extract i data o =>
    obtain ⟨f, f', hf, hext, rfl⟩ := update_cases hstep
    obtain ⟨hmade, harith, -⟩ := h f (List.mem_of_getElem? hf)
    obtain ⟨hmade', -, -, harith'⟩ := hmade.extract hext
    exact h.set i ⟨hmade', harith'.trans harith,
      (hmade.agrees_extract_iff harith htyped hext).mpr (hclean.alone i data o f rfl hf)⟩
  | setBytes i bytes =>
    obtain ⟨f, f', hf, hset, rfl⟩ := update_cases hstep
    obtain ⟨hmade, harith, -⟩ := h f (List.mem_of_getElem? hf)
    unfold Field.setBytes at hset
    split_ifs at hset with hlen
    have hbytes : Field.Made { f with bytes } :=
      ⟨⟨hmade.pos, hmade.nbytes_eq, hlen⟩, hmade.one_lt_of_signed, hmade.mask_eq, hmade.max_eq,
        hmade.min_eq⟩
    obtain rfl : _ = f' := (if_pos harith).symm.trans (Option.some.inj hset)
    exact h.set i ⟨hbytes.syncValue, harith,
      hbytes.agrees_syncValue_iff.mpr (hclean.fits i bytes f rfl hf)⟩
  | swapValues i j =>
    obtain ⟨f1, hf1, hstep⟩ := Option.bind_eq_some_iff.mp hstep
    obtain ⟨f2, hf2, hstep⟩ := Option.bind_eq_some_iff.mp hstep
    obtain ⟨-, rfl⟩ := Prod.mk.inj (Option.some.inj hstep)
    have htype := htyped f1 f2 hf1 hf2
    have htype' : SameType f2 f1 := ⟨htype.1.symm, htype.2.symm⟩
    obtain ⟨hmade1, harith1, hagree1⟩ := h f1 (List.mem_of_getElem? hf1)
    obtain ⟨hmade2, harith2, hagree2⟩ := h f2 (List.mem_of_getElem? hf2)
    apply FieldsAgree.set
    · exact h.set i ⟨hmade1.withValues hmade2 htype, harith1, hagree2.withValues htype⟩
    · exact ⟨hmade2.withValues hmade1 htype', harith2, hagree1.withValues htype'⟩
  | copyValue i j =>
    obtain ⟨f2, hf2, hstep⟩ := Option.bind_eq_some_iff.mp hstep
    obtain ⟨f1, f', hf1, hcopy, rfl⟩ := update_cases hstep
    obtain rfl := Option.some.inj hcopy
    have htype := htyped f1 f2 hf1 hf2
    obtain ⟨hmade1, harith1, -⟩ := h f1 (List.mem_of_getElem? hf1)
    obtain ⟨hmade2, -, hagree2⟩ := h f2 (List.mem_of_getElem? hf2)
    exact h.set i ⟨hmade1.withValues hmade2 htype, harith1, hagree2.withValues htype⟩

theorem FieldsAgree.step (h : FieldsAgree s) {r : Unit} (htyped : op.Typed s)
    (hclean : op.Clean cast s) (hstep : op.step cast s = some (r, s')) : FieldsAgree s' := by
  rcases step_cases hstep with ⟨dst, v, f, hv, hf, rfl⟩ | ⟨-, hstep⟩
  · obtain ⟨hmade, harith, -⟩ := h f (List.mem_of_getElem? hf)
    have hexact := exact_of_computed hclean.amount hv
    refine h.set dst ⟨hmade.set v, ?_,
      (hmade.agrees_set_iff v).mpr (hclean.wraps dst v f hexact hf)⟩
    rw [hmade.typed.set_eq]
    exact harith
  · exact h.transfer htyped hclean hstep

/-- A number that is assigned is stored modulo `2 ^ nbits`. -/
def Congruent (op : FieldOp) (s s' : List Field) : Prop :=
  ∀ dst v f f', op.exact s = some (dst, v) → s[dst]? = some f → s'[dst]? = some f' →
    f'.value % 2 ^ f.nbits = v % 2 ^ f.nbits

theorem FieldsAgree.congruent (h : FieldsAgree s) {r : Unit} (hfits : op.AmountFits cast s)
    (hstep : op.step cast s = some (r, s')) : op.Congruent s s' := by
  intro dst v f f' hexact hf hf'
  rcases step_cases hstep with ⟨dst', v', g, hv, hg, rfl⟩ | ⟨hnone, htransfer⟩
  · obtain ⟨rfl, rfl⟩ := Prod.mk.inj
      (Option.some.inj ((exact_of_computed hfits hv).symm.trans hexact))
    obtain rfl : g = f := Option.some.inj (hg.symm.trans hf)
    have hlt := (List.getElem?_eq_some_iff.mp hf).1
    rw [List.getElem?_set_self hlt] at hf'
    obtain rfl := Option.some.inj hf'
    exact (h _ (List.mem_of_getElem? hf)).1.typed.set_emod v'
  · cases op with
    | extract => cases hexact
    | setBytes => cases hexact
    | swapValues => cases hexact
    | copyValue => cases hexact
    | _ => cases htransfer

/-- Fields as their constructor makes them, with arithmetic enabled. -/
structure FieldSpec where
  nbits : ℕ
  isSigned : Bool
  pos : 0 < nbits
  one_lt_of_signed : isSigned → 1 < nbits

def FieldSpec.make (spec : FieldSpec) : Field :=
  { nbits := spec.nbits, arith := true, isSigned := spec.isSigned }

theorem fieldsAgree_make (specs : List FieldSpec) : FieldsAgree (specs.map FieldSpec.make) := by
  intro f hf
  obtain ⟨spec, -, rfl⟩ := List.mem_map.mp hf
  exact ⟨Field.made_constructor spec.pos true spec.isSigned spec.one_lt_of_signed, rfl,
    Field.agrees_constructor _ _ _⟩

/-- In every run of operations that are clean, the number of every field agrees with its bytes
and is in range after each of them, and a number that is assigned is stored modulo `2 ^ nbits`. -/
theorem fields_agree (specs : List FieldSpec)
    (hreach : Transition.Reach (fun s op => step cast s op)
      (fun s op => op.Typed s ∧ op.Clean cast s) (specs.map FieldSpec.make) s) :
    (∀ f ∈ s, f.Agrees) ∧ ∀ op r s', op.Typed s → op.Clean cast s →
      step cast s op = some (r, s') → (∀ f ∈ s', f.Agrees) ∧ op.Congruent s s' := by
  have hagree : FieldsAgree s := hreach.invariant FieldsAgree (fieldsAgree_make specs)
    fun _ _ _ _ h hok hstep => h.step hok.1 hok.2 hstep
  refine ⟨fun f hf => (hagree f hf).2.2, fun op r s' htyped hclean hstep => ⟨?_, ?_⟩⟩
  · intro f hf
    exact (hagree.step htyped hclean hstep f hf).2.2
  · exact hagree.congruent hclean.amount hstep

/-- An operation that assigns a number is clean when the number wraps as it should. -/
theorem clean_of_exact {dst : ℕ} {v : ℤ} {f : Field} (hamount : op.AmountFits cast s)
    (hexact : op.exact s = some (dst, v)) (hf : s[dst]? = some f)
    (hwraps : ¬ (f.isSigned ∧ 2 ^ (f.nbits - 1) ≤ v ∧ v < 2 ^ f.nbits)) : op.Clean cast s := by
  refine ⟨hamount, ?_, ?_, ?_⟩
  · intro dst' v' f' hexact' hf'
    obtain ⟨rfl, rfl⟩ := Prod.mk.inj (Option.some.inj (hexact.symm.trans hexact'))
    obtain rfl : f = f' := Option.some.inj (hf.symm.trans hf')
    exact hwraps
  · rintro i data o f' rfl
    cases hexact
  · rintro i bytes f' rfl
    cases hexact

/-- A signed field of eight bits that is set to -100 and added to itself holds -200 modulo 256. -/
theorem fields_agree_wrap :
    let spec : FieldSpec := ⟨8, true, by decide, fun _ => by decide⟩
    ∃ f, Transition.Reach (step checkedCast) (fun s op => op.Typed s ∧ op.Clean checkedCast s)
      [spec.make] [f] ∧ f.value = 56 ∧ f.Agrees := by
  intro spec
  have hset : Transition.Reach (step checkedCast)
      (fun s op => op.Typed s ∧ op.Clean checkedCast s) ([spec].map FieldSpec.make)
      [spec.make.set (-100)] :=
    .tail (a := FieldOp.set 0 (-100)) .refl
      ⟨trivial, clean_of_exact trivial rfl rfl (by decide)⟩ rfl
  have hadd : Transition.Reach (step checkedCast)
      (fun s op => op.Typed s ∧ op.Clean checkedCast s) ([spec].map FieldSpec.make)
      [(spec.make.set (-100)).set
        ((spec.make.set (-100)).value + (spec.make.set (-100)).value)] :=
    .tail (a := FieldOp.arith .add 0 (.field 0) (.field 0)) (r := ()) hset
      ⟨trivial, clean_of_exact (fun _ _ hshift => hshift.elim) rfl rfl (by decide +kernel)⟩
      rfl
  exact ⟨_, hadd, by decide +kernel, (fields_agree _ hadd).1 _ List.mem_cons_self⟩

/-- Set to 200, a signed field of eight bits keeps the number, which its bytes do not hold. -/
theorem set_above_max_disagrees :
    let spec : FieldSpec := ⟨8, true, by decide, fun _ => by decide⟩
    ∃ f, step checkedCast [spec.make] (.set 0 200) = some ((), [f]) ∧ f.value = 200 ∧
      f.decode = -56 ∧ ¬ f.Agrees := by
  refine ⟨_, rfl, by decide +kernel, by decide +kernel, fun h => ?_⟩
  have hholds := h.holds
  revert hholds
  decide +kernel

end FieldOp

end Bmv2
