import Bmv2.Lib.TwosComplement
import Bmv2.Packet.Checksums

/-! The number of a field against its bytes: what the two directions of synchronisation, from the
bytes and to the bytes, make of a field. -/
namespace Bmv2
open ByteBits TwosComplement

namespace Field

variable {f : Field}

/-- A field as its constructor makes it, up to the number and the bytes. -/
structure Made (f : Field) : Prop extends f.Fixed where
  one_lt_of_signed : f.isSigned → 1 < f.nbits
  mask_eq : f.mask = 2 ^ f.nbits - 1
  max_eq : f.isSigned → f.max = 2 ^ (f.nbits - 1) - 1
  min_eq : f.isSigned → f.min = -2 ^ (f.nbits - 1)

/-- The part of this that only depends on the width. -/
structure Typed (f : Field) : Prop where
  nbytes_eq : f.nbytes = (f.nbits + 7) / 8
  one_lt_of_signed : f.isSigned → 1 < f.nbits
  mask_eq : f.mask = 2 ^ f.nbits - 1
  max_eq : f.isSigned → f.max = 2 ^ (f.nbits - 1) - 1
  min_eq : f.isSigned → f.min = -2 ^ (f.nbits - 1)

theorem Made.typed (h : f.Made) : f.Typed :=
  ⟨h.nbytes_eq, h.one_lt_of_signed, h.mask_eq, h.max_eq, h.min_eq⟩

/-- The number that the bytes of a field stand for: unsigned, or in two's complement. -/
def decode (f : Field) : ℤ :=
  if f.isSigned then signed f.nbits (ByteBits.value f.bytes) else ByteBits.value f.bytes

/-- The numbers that a field can hold. -/
def Holds (f : Field) (v : ℤ) : Prop :=
  if f.isSigned then InRange f.nbits v else 0 ≤ v ∧ v < 2 ^ f.nbits

instance (f : Field) (v : ℤ) : Decidable (f.Holds v) :=
  inferInstanceAs (Decidable (if f.isSigned then _ else _))

/-- The number of a field is what its bytes stand for, and is in range. -/
structure Agrees (f : Field) : Prop where
  value_eq : f.value = f.decode
  holds : f.Holds f.value

theorem made_constructor {nbits : ℕ} (hpos : 0 < nbits) (arith isSigned : Bool)
    (hsigned : isSigned → 1 < nbits) : Made { nbits, arith, isSigned } := by
  refine ⟨⟨hpos, rfl, by simp⟩, hsigned, rfl, ?_, ?_⟩
  · intro h
    exact if_pos h
  · intro h
    exact if_pos h

theorem agrees_constructor (nbits : ℕ) (arith isSigned : Bool) :
    Agrees { nbits, arith, isSigned } := by
  constructor
  · unfold decode
    dsimp only
    rw [value_replicate_zero, signed, Nat.zero_testBit]
    simp
  · unfold Holds InRange
    dsimp only
    split_ifs <;> constructor <;> simp

/-- The bytes are wide enough for the field. -/
theorem Typed.pow_le (h : f.Typed) : 2 ^ f.nbits ≤ 2 ^ (8 * f.nbytes) := by
  apply Nat.pow_le_pow_right (by decide)
  have hbytes := h.nbytes_eq
  omega

theorem toNat_emod_lt (f : Field) (v : ℤ) : (v % 2 ^ f.nbits).toNat < 2 ^ f.nbits := by
  have hpos : (0 : ℤ) < 2 ^ f.nbits := by positivity
  zify
  rw [Int.toNat_of_nonneg (Int.emod_nonneg _ hpos.ne')]
  exact Int.emod_lt_of_pos _ hpos

theorem Typed.value_ofValue_emod (h : f.Typed) (v : ℤ) :
    ByteBits.value (ofValue f.nbytes (v % 2 ^ f.nbits).toNat) = (v % 2 ^ f.nbits).toNat := by
  rw [value_ofValue, Nat.mod_eq_of_lt ((f.toNat_emod_lt v).trans_le h.pow_le)]

/-- The number that a signed field is given, where it wraps. -/
def wrapped (f : Field) (v : ℤ) : ℤ :=
  if v < -2 ^ (f.nbits - 1) ∨ v > 2 ^ f.nbits - 1 then
    if v % 2 ^ f.nbits > 2 ^ (f.nbits - 1) - 1 then v % 2 ^ f.nbits - 2 ^ f.nbits
    else v % 2 ^ f.nbits
  else v

theorem wrapped_emod (f : Field) (v : ℤ) : f.wrapped v % 2 ^ f.nbits = v % 2 ^ f.nbits := by
  unfold wrapped
  split_ifs
  · rw [Int.sub_emod_right, Int.emod_emod_of_dvd _ dvd_rfl]
  · exact Int.emod_emod_of_dvd _ dvd_rfl
  · rfl

/-- What is left alone goes up to the mask, not only up to the maximum. -/
theorem inRange_wrapped_iff (hpos : 0 < f.nbits) (v : ℤ) :
    InRange f.nbits (f.wrapped v) ↔ ¬ (2 ^ (f.nbits - 1) ≤ v ∧ v < 2 ^ f.nbits) := by
  have hhalf := two_pow_half hpos
  have hpow : (0 : ℤ) < 2 ^ (f.nbits - 1) := by positivity
  have hlo := Int.emod_nonneg v (b := 2 ^ f.nbits) (by omega)
  have hhi := Int.emod_lt_of_pos v (b := 2 ^ f.nbits) (by omega)
  unfold wrapped InRange
  split_ifs <;> omega

/-- Setting the number of an unsigned field. -/
theorem set_unsigned (hs : f.isSigned = false) (hmask : f.mask = 2 ^ f.nbits - 1) (v : ℤ) :
    f.set v = { f with
      value := v % 2 ^ f.nbits
      bytes := ofValue f.nbytes (v % 2 ^ f.nbits).toNat } := by
  have hpos : (0 : ℤ) < 2 ^ f.nbits := by positivity
  have hlo := Int.emod_nonneg v hpos.ne'
  unfold set exportBytes
  dsimp only
  rw [hmask, land_mask]
  simp only [hs, ↓reduceIte, if_pos hlo, Bool.false_eq_true]

/-- Setting the number of a field, by its sign. -/
theorem Typed.set_eq (h : f.Typed) (v : ℤ) :
    f.set v = { f with
      value := if f.isSigned then f.wrapped v else v % 2 ^ f.nbits
      bytes := ofValue f.nbytes (v % 2 ^ f.nbits).toNat } := by
  have hpos : (0 : ℤ) < 2 ^ f.nbits := by positivity
  by_cases hs : f.isSigned = true
  · unfold set exportBytes
    dsimp only
    rw [h.mask_eq, land_mask]
    have hwrapped : (if v < f.min ∨ v > 2 ^ f.nbits - 1 then
        if v % 2 ^ f.nbits > f.max then v % 2 ^ f.nbits - (2 ^ f.nbits - 1 + 1)
        else v % 2 ^ f.nbits
        else v) = f.wrapped v := by
      rw [h.min_eq hs, h.max_eq hs, sub_add_cancel, wrapped]
    simp only [hs, ↓reduceIte, hwrapped]
    have hhalf := two_pow_half (zero_lt_one.trans (h.one_lt_of_signed hs))
    have hhi := Int.emod_lt_of_pos v hpos
    -- both bounds together give the width, by which a negative number is moved up
    have hnum : (if 0 ≤ f.wrapped v then f.wrapped v
        else f.wrapped v - f.min - f.min) = v % 2 ^ f.nbits := by
      rw [h.min_eq hs, ← wrapped_emod f v]
      have hmin : -2 ^ (f.nbits - 1) ≤ f.wrapped v ∧ f.wrapped v < 2 ^ f.nbits := by
        unfold wrapped
        split_ifs <;> omega
      split_ifs with hneg
      · exact (Int.emod_eq_of_lt hneg hmin.2).symm
      · rw [← Int.add_emod_right, Int.emod_eq_of_lt (by omega) (by omega)]
        omega
    rw [hnum]
  · rw [set_unsigned (Bool.eq_false_iff.mpr hs) h.mask_eq, if_neg hs]

theorem Typed.set_emod (h : f.Typed) (v : ℤ) :
    (f.set v).value % 2 ^ f.nbits = v % 2 ^ f.nbits := by
  rw [h.set_eq]
  dsimp only
  split_ifs
  · exact wrapped_emod f v
  · exact Int.emod_emod_of_dvd _ dvd_rfl

theorem Made.set (h : f.Made) (v : ℤ) : (f.set v).Made := by
  rw [h.typed.set_eq]
  exact ⟨⟨h.pos, h.nbytes_eq, by simp⟩, h.one_lt_of_signed, h.mask_eq, h.max_eq, h.min_eq⟩

/-- A number is stored as it should be, unless the field is signed and the number is above the
maximum and not above the mask. -/
theorem Made.agrees_set_iff (h : f.Made) (v : ℤ) :
    (f.set v).Agrees ↔ ¬ (f.isSigned ∧ 2 ^ (f.nbits - 1) ≤ v ∧ v < 2 ^ f.nbits) := by
  have hpos : (0 : ℤ) < 2 ^ f.nbits := by positivity
  have hcast : ((v % 2 ^ f.nbits).toNat : ℤ) = v % 2 ^ f.nbits :=
    Int.toNat_of_nonneg (Int.emod_nonneg _ hpos.ne')
  have hbytes := h.typed.value_ofValue_emod v
  rw [h.typed.set_eq]
  by_cases hs : f.isSigned = true
  · have hrange := inRange_wrapped_iff h.pos v
    constructor
    · rintro ⟨-, hholds⟩ ⟨-, hv⟩
      unfold Holds at hholds
      dsimp only at hholds
      rw [if_pos hs, if_pos hs] at hholds
      exact hrange.mp hholds hv
    · intro hv
      have hin := hrange.mpr fun hbad => hv ⟨hs, hbad⟩
      constructor
      · unfold decode
        dsimp only
        rw [if_pos hs, if_pos hs, hbytes, ← wrapped_emod f v, signed_of_inRange h.pos hin]
      · unfold Holds
        dsimp only
        rw [if_pos hs, if_pos hs]
        exact hin
  · refine iff_of_true ⟨?_, ?_⟩ fun hbad => hs hbad.1
    · unfold decode
      dsimp only
      rw [if_neg hs, if_neg hs, hbytes, hcast]
    · unfold Holds
      dsimp only
      rw [if_neg hs, if_neg hs]
      exact ⟨Int.emod_nonneg _ hpos.ne', Int.emod_lt_of_pos _ hpos⟩

/-- Reading the bytes gives what they stand for. -/
theorem Typed.syncValue_eq (h : f.Typed) : f.syncValue = { f with value := f.decode } := by
  unfold syncValue decode signed
  dsimp only
  by_cases hs : f.isSigned = true
  · by_cases hbit : (ByteBits.value f.bytes).testBit (f.nbits - 1) = true
    · have hhalf := two_pow_half (zero_lt_one.trans (h.one_lt_of_signed hs))
      have hge : 2 ^ (f.nbits - 1) ≤ ByteBits.value f.bytes := Nat.ge_two_pow_of_testBit hbit
      have hsum : ((ByteBits.value f.bytes - 2 ^ (f.nbits - 1) : ℕ) : ℤ) + f.min =
          ByteBits.value f.bytes - 2 ^ f.nbits := by
        rw [h.min_eq hs, Nat.cast_sub hge]
        push_cast
        omega
      rw [if_pos ⟨hs, hbit⟩, if_pos hs, if_pos hbit, hsum]
    · rw [if_neg fun h => hbit h.2, if_pos hs, if_neg hbit]
  · rw [if_neg fun h => hs h.1, if_neg hs]

theorem Made.syncValue (h : f.Made) : f.syncValue.Made := by
  rw [h.typed.syncValue_eq]
  exact ⟨⟨h.pos, h.nbytes_eq, h.length_bytes⟩, h.one_lt_of_signed, h.mask_eq, h.max_eq, h.min_eq⟩

/-- A field that is synchronised with its bytes is right when no bit is set above the width. -/
theorem Made.agrees_syncValue_iff (h : f.Made) :
    f.syncValue.Agrees ↔ ByteBits.value f.bytes < 2 ^ f.nbits := by
  rw [h.typed.syncValue_eq]
  have hholds : f.Holds f.decode ↔ ByteBits.value f.bytes < 2 ^ f.nbits := by
    unfold Holds decode
    by_cases hs : f.isSigned = true
    · rw [if_pos hs, if_pos hs, inRange_signed_iff h.pos]
    · rw [if_neg hs, if_neg hs]
      constructor
      · rintro ⟨-, hlt⟩
        exact_mod_cast hlt
      · intro hlt
        exact ⟨Int.natCast_nonneg _, by exact_mod_cast hlt⟩
  constructor
  · rintro ⟨-, hagree⟩
    exact hholds.mp hagree
  · intro hlt
    exact ⟨rfl, hholds.mpr hlt⟩

end Field

end Bmv2
