import Mathlib.Data.Int.Bitwise

/-! `Data` (`data.h`): the numbers that fields, registers and expressions work on. Every
operation asserts that its operands have arithmetic enabled. -/
namespace Bmv2

/-- The casts from the bignum library to machine words. They are exact on values in range. -/
structure BignumCast where
  toUint : ℤ → Option ℕ
  toSizeT : ℤ → Option ℕ
  toUint_natCast : ∀ n : ℕ, n < 2 ^ 32 → toUint n = some n
  toSizeT_natCast : ∀ n : ℕ, n < 2 ^ 64 → toSizeT n = some n

/-- Casts that throw out of range. -/
def checkedCast : BignumCast where
  toUint v := if 0 ≤ v ∧ v < 2 ^ 32 then some v.toNat else none
  toSizeT v := if 0 ≤ v ∧ v < 2 ^ 64 then some v.toNat else none
  toUint_natCast n hn := by
    rw [if_pos ⟨by omega, by omega⟩, Int.toNat_natCast]
  toSizeT_natCast n hn := by
    rw [if_pos ⟨by omega, by omega⟩, Int.toNat_natCast]

/-- The casts of the library: the low bits of a number, and an exception for a negative one. -/
def lowBitsCast : BignumCast where
  toUint v := if 0 ≤ v then some (v.toNat % 2 ^ 32) else none
  toSizeT v := if 0 ≤ v then some (v.toNat % 2 ^ 64) else none
  toUint_natCast n hn := by
    rw [if_pos (Int.natCast_nonneg n), Int.toNat_natCast, Nat.mod_eq_of_lt hn]
  toSizeT_natCast n hn := by
    rw [if_pos (Int.natCast_nonneg n), Int.toNat_natCast, Nat.mod_eq_of_lt hn]

structure Data where
  value : ℤ := 0
  arith : Bool := true
  deriving DecidableEq, Inhabited

namespace Data

variable (cast : BignumCast) (src1 src2 : Data)

def getUint (d : Data) : Option ℕ := if d.arith then cast.toUint d.value else none
def getSizeT (d : Data) : Option ℕ := if d.arith then cast.toSizeT d.value else none

/-- The body shared by the binary operations, and by the comparisons. -/
def checked {α : Type} (f : ℤ → ℤ → α) : Option α :=
  if src1.arith && src2.arith then some (f src1.value src2.value) else none

def add : Option ℤ := checked src1 src2 (· + ·)
def sub : Option ℤ := checked src1 src2 (· - ·)
def multiply : Option ℤ := checked src1 src2 (· * ·)
def bitAnd : Option ℤ := checked src1 src2 Int.land
def bitOr : Option ℤ := checked src1 src2 Int.lor
def bitXor : Option ℤ := checked src1 src2 Int.xor
def bitNeg (src : Data) : Option ℤ := if src.arith then some (Int.lnot src.value) else none

/-- The shifts also assert a shift amount that is not negative. -/
def shiftLeft : Option ℤ :=
  if src1.arith && src2.arith && decide (0 ≤ src2.value) then
    (src2.getUint cast).map fun n => src1.value * 2 ^ n
  else none

def shiftRight : Option ℤ :=
  if src1.arith && src2.arith && decide (0 ≤ src2.value) then
    (src2.getUint cast).map fun n => src1.value / 2 ^ n
  else none

/-- `two_comp_mod`; `uwidth - 1` is unsigned and wraps for a width of zero. -/
def twoCompMod (src width : Data) : Option ℤ :=
  (width.getUint cast).map fun uwidth =>
    let half : ℤ := 2 ^ ((uwidth + (2 ^ 32 - 1)) % 2 ^ 32)
    let max := half - 1
    let min := -half
    if src.value < min ∨ src.value > max then
      let value := Int.land src.value (2 ^ uwidth - 1)
      if value > max then value - 2 ^ uwidth else value
    else src.value

def testEq (d : Data) (i : ℤ) : Bool := decide (d.value = i)

end Data

end Bmv2
