import Bmv2.Lib.ByteBits
import Mathlib.Logic.Function.Iterate

/-! Cyclic redundancy checks. The definition is the shift register that takes one bit at a time;
the register is linear in exclusive or, so that a table of its 256 answers to a byte makes it take
a byte at a time. -/
namespace Crc
open ByteBits

variable {w : ℕ}

/-- The register takes one bit of the message: what leaves it at the top, together with the bit,
feeds the polynomial back. -/
def shiftBit (poly reg : BitVec w) (bit : Bool) : BitVec w :=
  if reg.msb ^^ bit then (reg <<< 1) ^^^ poly else reg <<< 1

def shiftBits (poly reg : BitVec w) (message : List Bool) : BitVec w :=
  message.foldl (shiftBit poly) reg

/-- What tells the checks of one width apart. -/
structure Params (w : ℕ) where
  poly : BitVec w
  init : BitVec w
  refIn : Bool
  refOut : Bool
  xorOut : BitVec w

/-- The bits of a buffer in the order in which the register takes them. -/
def Params.message (p : Params w) (buf : List Byte) : List Bool :=
  buf.flatMap fun b => byteBits (if p.refIn then b.reverse else b)

/-- The check of a buffer, bit by bit. -/
def Params.crc (p : Params w) (buf : List Byte) : BitVec w :=
  let reg := shiftBits p.poly p.init (p.message buf)
  (if p.refOut then reg.reverse else reg) ^^^ p.xorOut

/-- The register shifts without input. -/
def shift (poly reg : BitVec w) : BitVec w := shiftBit poly reg false

/-- A byte at the top of a register. -/
def lead (b : Byte) : BitVec w := b.setWidth w <<< (w - 8)

/-- The byte at the top of a register. -/
def high (reg : BitVec w) : Byte := (reg >>> (w - 8)).setWidth 8

/-- What eight shifts make of a byte at the top of a register that is clear below. -/
def tableEntry (poly : BitVec w) (b : Byte) : BitVec w := (shift poly)^[8] (lead b)

/-- The register takes a byte, with a table. -/
def shiftByte (table : Byte → BitVec w) (reg : BitVec w) (b : Byte) : BitVec w :=
  table (b ^^^ high reg) ^^^ (reg <<< 8)

theorem shift_xor (poly a b : BitVec w) :
    shift poly (a ^^^ b) = shift poly a ^^^ shift poly b := by
  simp only [shift, shiftBit, BitVec.msb_xor, BitVec.shiftLeft_xor_distrib, Bool.xor_false]
  cases a.msb <;> cases b.msb <;> simp only [Bool.xor_false, Bool.xor_true, Bool.not_true,
    Bool.not_false, Bool.false_eq_true, ↓reduceIte]
  · rw [BitVec.xor_assoc]
  · rw [BitVec.xor_assoc, BitVec.xor_assoc, BitVec.xor_comm poly]
  · rw [BitVec.xor_assoc, ← BitVec.xor_assoc poly, BitVec.xor_comm poly, BitVec.xor_assoc,
      BitVec.xor_self, BitVec.xor_zero]

/-- A map that is linear in exclusive or stays so when it is repeated. -/
theorem iterate_xor {f : BitVec w → BitVec w} (hf : ∀ a b, f (a ^^^ b) = f a ^^^ f b) (n : ℕ)
    (a b : BitVec w) : f^[n] (a ^^^ b) = f^[n] a ^^^ f^[n] b := by
  induction n generalizing a b with
  | zero => rfl
  | succ n ih => rw [Function.iterate_succ_apply, hf, ih]; rfl

/-- While nothing leaves the register at the top, it only shifts. -/
theorem shift_ushiftRight (poly : BitVec w) {x : BitVec w} (hx : x.getLsbD 0 = false) :
    shift poly (x >>> 1) = x := by
  rw [shift, shiftBit, if_neg (by simp [BitVec.msb_ushiftRight])]
  apply BitVec.eq_of_getLsbD_eq
  intro i hi
  rw [BitVec.getLsbD_shiftLeft, BitVec.getLsbD_ushiftRight]
  cases i with
  | zero => simp [hx]
  | succ i => simp [hi, Nat.add_comm]

theorem iterate_shift_ushiftRight (poly : BitVec w) {x : BitVec w} {k : ℕ}
    (hx : ∀ i < k, x.getLsbD i = false) : (shift poly)^[k] (x >>> k) = x := by
  induction k with
  | zero => simp
  | succ k ih =>
    have hbit : (x >>> k).getLsbD 0 = false := by simpa using hx k (Nat.lt_succ_self k)
    rw [Function.iterate_succ_apply, BitVec.shiftRight_add, shift_ushiftRight poly hbit]
    exact ih fun i hi => hx i (by omega)

/-- One bit at the top of a register. -/
def leadBit (bit : Bool) : BitVec w := if bit then BitVec.twoPow w (w - 1) else 0

/-- The bits of a message at the top of a register. -/
def leadBits : List Bool → BitVec w
  | [] => 0
  | bit :: message => leadBit bit ^^^ (leadBits message >>> 1)

theorem getMsbD_leadBit (bit : Bool) {i : ℕ} (hi : i < w) :
    (leadBit bit : BitVec w).getMsbD i = (bit && decide (i = 0)) := by
  cases bit with
  | false => simp [leadBit]
  | true =>
    have hplace : w - 1 = w - 1 - i ↔ i = 0 := by omega
    simp [leadBit, BitVec.getMsbD_eq_getLsbD, hi, BitVec.getLsbD_twoPow, hplace]
    omega

theorem getMsbD_leadBits (message : List Bool) {i : ℕ} (hi : i < w) :
    (leadBits message : BitVec w).getMsbD i = message.getD i false := by
  induction message generalizing i with
  | nil => simp [leadBits]
  | cons bit message ih =>
    rw [leadBits, BitVec.getMsbD_xor, getMsbD_leadBit bit hi, BitVec.getMsbD_ushiftRight]
    cases i with
    | zero => simp
    | succ i => simp [ih (by omega : i < w), hi]

theorem leadBits_byteBits (hw : 8 ≤ w) (b : Byte) :
    (leadBits (byteBits b) : BitVec w) = lead b := by
  apply BitVec.eq_of_getMsbD_eq
  intro i hi
  rw [getMsbD_leadBits _ hi, lead, BitVec.getMsbD_shiftLeft, BitVec.getMsbD_setWidth,
    List.getD_eq_getElem?_getD]
  by_cases hbit : i < 8
  · have hplace : i + (w - 8) + 8 - w = i := by omega
    rw [byteBits_getElem? b hbit, Option.getD_some, hplace, decide_eq_true (by omega),
      Bool.true_and]
  · rw [List.getElem?_eq_none (by simpa using hbit), Option.getD_none,
      BitVec.getMsbD_of_ge _ _ (by omega), Bool.and_false]

/-- A bit of the message is a shift of the register with the bit at its top. -/
theorem shiftBit_eq (hw : 0 < w) (poly reg : BitVec w) (bit : Bool) :
    shiftBit poly reg bit = shift poly (reg ^^^ leadBit bit) := by
  have hmsb : (leadBit bit : BitVec w).msb = bit := by
    rw [BitVec.msb, getMsbD_leadBit bit hw]
    simp
  have hout : (leadBit bit : BitVec w) <<< 1 = 0#w := by
    apply BitVec.eq_of_getMsbD_eq
    intro i hi
    rw [BitVec.getMsbD_shiftLeft]
    by_cases h : i + 1 < w
    · rw [getMsbD_leadBit bit h]
      simp
    · simp [BitVec.getMsbD_of_ge _ _ (Nat.le_of_not_lt h)]
  rw [shift, shiftBit, shiftBit, BitVec.msb_xor, hmsb, Bool.xor_false,
    BitVec.shiftLeft_xor_distrib, hout, BitVec.xor_zero]

/-- The register takes a message that fits in it by as many shifts. -/
theorem shiftBits_eq (poly reg : BitVec w) {message : List Bool} (hlen : message.length ≤ w) :
    shiftBits poly reg message = (shift poly)^[message.length] (reg ^^^ leadBits message) := by
  induction message generalizing reg with
  | nil => simp [shiftBits, leadBits]
  | cons bit message ih =>
    rw [List.length_cons] at hlen
    have hlow : (leadBits message : BitVec w).getLsbD 0 = false := by
      rw [BitVec.getLsbD_eq_getMsbD, getMsbD_leadBits _ (by omega), List.getD_eq_getElem?_getD,
        List.getElem?_eq_none (by omega), Option.getD_none, Bool.and_false]
    have hhead : shiftBit poly reg bit ^^^ leadBits message =
        shift poly (reg ^^^ leadBits (bit :: message)) := by
      rw [shiftBit_eq (by omega), leadBits, ← BitVec.xor_assoc, shift_xor poly (_ ^^^ _),
        shift_ushiftRight poly hlow]
    calc shiftBits poly reg (bit :: message)
        = shiftBits poly (shiftBit poly reg bit) message := rfl
      _ = (shift poly)^[message.length] (shift poly (reg ^^^ leadBits (bit :: message))) := by
        rw [ih _ (by omega), hhead]

/-- A register is its high byte and what is below it. -/
theorem lead_high (hw : 8 ≤ w) (reg : BitVec w) :
    lead (high reg) ^^^ ((reg <<< 8) >>> 8) = reg := by
  apply BitVec.eq_of_getMsbD_eq
  intro i hi
  rw [BitVec.getMsbD_xor, ← leadBits_byteBits hw, getMsbD_leadBits _ hi,
    BitVec.getMsbD_ushiftRight, BitVec.getMsbD_shiftLeft, List.getD_eq_getElem?_getD]
  by_cases hbit : i < 8
  · rw [byteBits_getElem? _ hbit, Option.getD_some, high]
    have hplace : w - 8 + (7 - i) = w - 1 - i := by omega
    have hlt : 7 - i < 8 := by omega
    simp [BitVec.getMsbD_eq_getLsbD, hbit, hi, hplace, hlt]
  · rw [List.getElem?_eq_none (by simpa using hbit), Option.getD_none]
    have hplace : i - 8 + 8 = i := by omega
    simp [hbit, hi, hplace]

theorem lead_xor (a b : Byte) : (lead (a ^^^ b) : BitVec w) = lead a ^^^ lead b := by
  rw [lead, BitVec.setWidth_xor, BitVec.shiftLeft_xor_distrib]
  rfl

/-- A table of eight shifts makes the register take a byte at a time. -/
theorem shiftBits_byteBits (hw : 8 ≤ w) (poly reg : BitVec w) (b : Byte) :
    shiftBits poly reg (byteBits b) = shiftByte (tableEntry poly) reg b := by
  have hlow : ∀ i < 8, (reg <<< 8).getLsbD i = false := by
    intro i hi
    simp [BitVec.getLsbD_shiftLeft, hi]
  have hsplit : reg ^^^ lead b = lead (b ^^^ high reg) ^^^ ((reg <<< 8) >>> 8) := by
    rw [lead_xor, BitVec.xor_assoc, lead_high hw, BitVec.xor_comm]
  rw [shiftBits_eq poly reg (by simpa using hw), length_byteBits, leadBits_byteBits hw, hsplit,
    iterate_xor (shift_xor poly), iterate_shift_ushiftRight poly hlow]
  rfl

/-- The check of a buffer, a byte at a time. -/
theorem Params.crc_eq (hw : 8 ≤ w) (p : Params w) (buf : List Byte) :
    p.crc buf =
      let reg := (buf.map fun b => if p.refIn then b.reverse else b).foldl
        (shiftByte (tableEntry p.poly)) p.init
      (if p.refOut then reg.reverse else reg) ^^^ p.xorOut := by
  have hrun : ∀ (buf : List Byte) (reg : BitVec w), shiftBits p.poly reg (p.message buf) =
      (buf.map fun b => if p.refIn then b.reverse else b).foldl
        (shiftByte (tableEntry p.poly)) reg := by
    intro buf
    induction buf with
    | nil => exact fun _ => rfl
    | cons b buf ih =>
      intro reg
      rw [List.map_cons, List.foldl_cons, ← ih, ← shiftBits_byteBits hw]
      exact List.foldl_append
  simp only [Params.crc, hrun]

section Tables

/-- A table that is linear in exclusive or. -/
def Linear (table : Byte → BitVec w) : Prop := ∀ a b, table (a ^^^ b) = table a ^^^ table b

theorem linear_tableEntry (poly : BitVec w) : Linear (tableEntry poly) := by
  intro a b
  rw [tableEntry, lead_xor, iterate_xor (shift_xor poly)]
  rfl

variable (table table' : Byte → BitVec w)

/-- The register takes a byte that is zero. -/
def shiftZero (reg : BitVec w) : BitVec w := table (high reg) ^^^ (reg <<< 8)

/-- What two tables make different of a register `k` bytes later. -/
def gap (k : ℕ) (reg : BitVec w) : BitVec w :=
  (shiftZero table)^[k] reg ^^^ (shiftZero table')^[k] reg

/-- What two tables make different of a buffer: the part of each byte depends on the byte and on
how many bytes follow. -/
def gapSum : List Byte → BitVec w
  | [] => 0
  | b :: buf => gap table table' (buf.length + 1) (lead b) ^^^ gapSum buf

/-- What a register that is zero at the start is at the end. -/
def syndrome : List Byte → BitVec w
  | [] => 0
  | b :: buf => (shiftZero table)^[buf.length + 1] (lead b) ^^^ syndrome buf

variable {table table'}

theorem high_xor (a b : BitVec w) : high (a ^^^ b) = high a ^^^ high b := by
  rw [high, BitVec.ushiftRight_xor_distrib, BitVec.setWidth_xor]
  rfl

theorem high_lead (hw : 8 ≤ w) (b : Byte) : high (lead b : BitVec w) = b := by
  apply BitVec.eq_of_getLsbD_eq
  intro i hi
  have hplace : ¬ w - 8 + i < w - 8 := by omega
  have hlt : w - 8 + i < w := by omega
  simp [high, lead, hi, hlt, hplace]

theorem lead_shiftLeft (b : Byte) : (lead b : BitVec w) <<< 8 = 0#w := by
  apply BitVec.eq_of_getLsbD_eq
  intro i hi
  rw [lead, ← BitVec.shiftLeft_add, BitVec.getLsbD_shiftLeft]
  simp
  omega

theorem shiftByte_eq (hw : 8 ≤ w) (table : Byte → BitVec w) (reg : BitVec w) (b : Byte) :
    shiftByte table reg b = shiftZero table (reg ^^^ lead b) := by
  rw [shiftByte, shiftZero, high_xor, high_lead hw, BitVec.shiftLeft_xor_distrib, lead_shiftLeft,
    BitVec.xor_zero, BitVec.xor_comm (high reg) b]

theorem shiftZero_xor (h : Linear table) (a b : BitVec w) :
    shiftZero table (a ^^^ b) = shiftZero table a ^^^ shiftZero table b := by
  rw [shiftZero, high_xor, h, BitVec.shiftLeft_xor_distrib, shiftZero, shiftZero]
  ac_rfl

/-- The register at the end is a sum over the bytes of the buffer. -/
theorem foldl_shiftByte (hw : 8 ≤ w) (h : Linear table) (reg : BitVec w) (buf : List Byte) :
    buf.foldl (shiftByte table) reg =
      (shiftZero table)^[buf.length] reg ^^^ syndrome table buf := by
  induction buf generalizing reg with
  | nil => simp [syndrome]
  | cons b buf ih =>
    rw [List.foldl_cons, ih, shiftByte_eq hw, List.length_cons, syndrome,
      ← Function.iterate_succ_apply (shiftZero table), iterate_xor (shiftZero_xor h),
      BitVec.xor_assoc]

theorem gapSum_eq (table table' : Byte → BitVec w) (buf : List Byte) :
    gapSum table table' buf = syndrome table buf ^^^ syndrome table' buf := by
  induction buf with
  | nil => simp [gapSum, syndrome]
  | cons b buf ih =>
    rw [gapSum, ih, gap, syndrome, syndrome]
    ac_rfl

/-- Two tables give the same register for exactly the buffers of an affine space. -/
theorem foldl_shiftByte_eq_iff (hw : 8 ≤ w) (h : Linear table) (h' : Linear table')
    (reg : BitVec w) (buf : List Byte) :
    buf.foldl (shiftByte table) reg = buf.foldl (shiftByte table') reg ↔
      gapSum table table' buf = gap table table' buf.length reg := by
  rw [foldl_shiftByte hw h, foldl_shiftByte hw h', gapSum_eq, gap, ← BitVec.xor_eq_zero_iff,
    ← BitVec.xor_eq_zero_iff (x := syndrome table buf ^^^ syndrome table' buf)]
  refine Eq.congr ?_ rfl
  ac_rfl

end Tables

end Crc
