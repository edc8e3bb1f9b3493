import Bmv2.Lib.ByteBits

/-! Byte strings read as numbers, most significant byte first. -/
namespace ByteBits

/-- The number that a byte string stands for. -/
def value : List Byte → ℕ
  | [] => 0
  | b :: l => 2 ^ (8 * l.length) * b.toNat + value l

/-- The last `n` bytes of a number. -/
def ofValue (n v : ℕ) : List Byte :=
  (List.range n).map fun i => BitVec.ofNat 8 (v / 2 ^ (8 * (n - 1 - i)))

@[simp] theorem length_ofValue (n v : ℕ) : (ofValue n v).length = n := by simp [ofValue]

theorem bitAt_cons (b : Byte) (l : List Byte) (i : ℕ) :
    bitAt (b :: l) i = if i < 8 then b.getMsbD i else bitAt l (i - 8) := by
  by_cases h : i < 8
  · rw [if_pos h, bitAt, Nat.div_eq_of_lt h, Nat.mod_eq_of_lt h]
    rfl
  · have hdiv : i / 8 = (i - 8) / 8 + 1 := by omega
    have hmod : i % 8 = (i - 8) % 8 := by omega
    rw [if_neg h, bitAt, hdiv, hmod, List.getD_cons_succ]
    rfl

theorem value_lt (l : List Byte) : value l < 2 ^ (8 * l.length) := by
  induction l with
  | nil => simp [value]
  | cons b l ih =>
    have hb : b.toNat + 1 ≤ 2 ^ 8 := b.isLt
    have hpow : 2 ^ (8 * (b :: l).length) = 2 ^ (8 * l.length) * 2 ^ 8 := by
      rw [List.length_cons, Nat.mul_succ, pow_add]
    have hmul := Nat.mul_le_mul_left (2 ^ (8 * l.length)) hb
    rw [Nat.mul_succ] at hmul
    rw [value, hpow]
    omega

/-- Bit `j` of the number, from the least significant one, is a bit of the string. -/
theorem testBit_value (l : List Byte) {j : ℕ} (hj : j < 8 * l.length) :
    (value l).testBit j = bitAt l (8 * l.length - 1 - j) := by
  induction l with
  | nil => simp at hj
  | cons b l ih =>
    rw [List.length_cons] at hj
    rw [value, Nat.testBit_two_pow_mul_add _ (value_lt l), bitAt_cons, List.length_cons]
    by_cases hlow : j < 8 * l.length
    · rw [if_pos hlow, if_neg (by omega), ih hlow]
      congr 1
      omega
    · rw [if_neg hlow, if_pos (by omega), BitVec.testBit_toNat, BitVec.getMsbD]
      have hidx : 8 - 1 - (8 * (l.length + 1) - 1 - j) = j - 8 * l.length := by omega
      simp only [hidx, show 8 * (l.length + 1) - 1 - j < 8 by omega, decide_true, Bool.true_and]

theorem testBit_value_of_le (l : List Byte) {j : ℕ} (hj : 8 * l.length ≤ j) :
    (value l).testBit j = false :=
  Nat.testBit_lt_two_pow ((value_lt l).trans_le (Nat.pow_le_pow_right (by decide) hj))

/-- The leading bits of two strings are equal exactly when their numbers are, shifted. -/
theorem take_bits_eq_iff_value {a b : List Byte} {n p : ℕ} (ha : a.length = n)
    (hb : b.length = n) (hp : p ≤ 8 * n) :
    (bits a).take p = (bits b).take p ↔
      value a / 2 ^ (8 * n - p) = value b / 2 ^ (8 * n - p) := by
  rw [take_bits_eq_iff (by omega) (by omega)]
  constructor
  · intro h
    apply Nat.eq_of_testBit_eq
    intro j
    rw [Nat.testBit_div_two_pow, Nat.testBit_div_two_pow]
    by_cases hj : j < p
    · rw [testBit_value _ (by omega), testBit_value _ (by omega), ha, hb]
      exact h _ (by omega)
    · rw [testBit_value_of_le _ (by omega), testBit_value_of_le _ (by omega)]
  · intro h i hi
    have hbit := congrArg (fun x => x.testBit (p - 1 - i)) h
    simp only [Nat.testBit_div_two_pow] at hbit
    rw [testBit_value _ (by omega), testBit_value _ (by omega), ha, hb] at hbit
    have hidx : 8 * n - 1 - (p - 1 - i + (8 * n - p)) = i := by omega
    rwa [hidx] at hbit

theorem value_inj {a b : List Byte} (h : a.length = b.length) : value a = value b ↔ a = b := by
  have := take_bits_eq_iff_value h rfl (le_refl (8 * b.length))
  rw [List.take_of_length_le (by simp [h]), List.take_of_length_le (by simp),
    bits_injective.eq_iff, Nat.sub_self, pow_zero, Nat.div_one, Nat.div_one] at this
  exact this.symm

theorem bitAt_ofValue (n v : ℕ) {k : ℕ} (hk : k < 8 * n) :
    bitAt (ofValue n v) k = v.testBit (8 * n - 1 - k) := by
  have hget : (ofValue n v).getD (k / 8) 0 = BitVec.ofNat 8 (v / 2 ^ (8 * (n - 1 - k / 8))) := by
    rw [ofValue, List.getD, List.getElem?_map, List.getElem?_range (by omega)]
    rfl
  have hidx : 8 - 1 - k % 8 + 8 * (n - 1 - k / 8) = 8 * n - 1 - k := by omega
  rw [bitAt, hget, BitVec.getMsbD, decide_eq_true (Nat.mod_lt _ (by decide)), Bool.true_and,
    BitVec.getLsbD_ofNat, decide_eq_true (by omega), Bool.true_and, Nat.testBit_div_two_pow, hidx]

theorem value_ofValue (n v : ℕ) : value (ofValue n v) = v % 2 ^ (8 * n) := by
  apply Nat.eq_of_testBit_eq
  intro j
  rw [Nat.testBit_mod_two_pow]
  by_cases hj : j < 8 * n
  · rw [testBit_value _ (by rwa [length_ofValue]), length_ofValue, bitAt_ofValue _ _ (by omega),
      decide_eq_true hj, Bool.true_and]
    congr 1
    omega
  · rw [testBit_value_of_le _ (by rw [length_ofValue]; omega), decide_eq_false hj, Bool.false_and]

theorem value_replicate_zero (n : ℕ) : value (List.replicate n 0) = 0 := by
  induction n with
  | zero => rfl
  | succ n ih =>
    rw [List.replicate_succ, value, ih]
    rfl

/-- The number in the `w` bits of a string from bit `o` on. -/
def slice (l : List Byte) (o w : ℕ) : ℕ := value l / 2 ^ (8 * l.length - (o + w)) % 2 ^ w

theorem slice_lt (l : List Byte) (o w : ℕ) : slice l o w < 2 ^ w :=
  Nat.mod_lt _ (Nat.two_pow_pos w)

theorem testBit_slice {l : List Byte} {o w j : ℕ} (h : o + w ≤ 8 * l.length) (hj : j < w) :
    (slice l o w).testBit j = bitAt l (o + w - 1 - j) := by
  rw [slice, Nat.testBit_mod_two_pow, decide_eq_true hj, Bool.true_and, Nat.testBit_div_two_pow,
    testBit_value _ (by omega)]
  congr 1
  omega

theorem slice_eq_zero_iff {l : List Byte} {o w : ℕ} (h : o + w ≤ 8 * l.length) :
    slice l o w = 0 ↔ ∀ j < o + w, o ≤ j → bitAt l j = false := by
  constructor
  · intro hzero j hj hoj
    have hbit := testBit_slice h (j := o + w - 1 - j) (by omega)
    rw [hzero, Nat.zero_testBit, show o + w - 1 - (o + w - 1 - j) = j by omega] at hbit
    exact hbit.symm
  · intro hbits
    apply Nat.eq_of_testBit_eq
    intro j
    rw [Nat.zero_testBit]
    by_cases hj : j < w
    · rw [testBit_slice h hj]
      exact hbits _ (by omega) (by omega)
    · exact Nat.testBit_lt_two_pow
        ((slice_lt l o w).trans_le (Nat.pow_le_pow_right (by decide) (by omega)))

theorem value_lt_iff {l : List Byte} {n : ℕ} (h : n ≤ 8 * l.length) :
    value l < 2 ^ n ↔ ∀ k < 8 * l.length - n, bitAt l k = false := by
  have hlt : value l / 2 ^ n < 2 ^ (8 * l.length - n) := by
    apply Nat.div_lt_of_lt_mul
    rw [← pow_add, Nat.add_sub_cancel' h]
    exact value_lt l
  have hslice : slice l 0 (8 * l.length - n) = value l / 2 ^ n := by
    rw [slice, show 8 * l.length - (0 + (8 * l.length - n)) = n by omega, Nat.mod_eq_of_lt hlt]
  have hzero := slice_eq_zero_iff (l := l) (o := 0) (w := 8 * l.length - n) (by omega)
  rw [hslice, Nat.div_eq_zero_iff_lt (Nat.two_pow_pos n)] at hzero
  rw [hzero]
  constructor
  · exact fun hbits k hk => hbits k (by omega) (Nat.zero_le k)
  · exact fun hbits k hk _ => hbits k (by omega)

theorem bitAt_zipWith_and {a b : List Byte} (h : a.length = b.length) (i : ℕ) :
    bitAt (List.zipWith (· &&& ·) a b) i = (bitAt a i && bitAt b i) := by
  induction a generalizing b i with
  | nil =>
    simp [bitAt]
  | cons x a ih =>
    cases b with
    | nil => simp at h
    | cons y b =>
      rw [List.zipWith_cons_cons, bitAt_cons, bitAt_cons, bitAt_cons]
      split_ifs with h8
      · simp
      · exact ih (by simpa using h) _

theorem value_zipWith_and {a b : List Byte} (h : a.length = b.length) :
    value (List.zipWith (· &&& ·) a b) = value a &&& value b := by
  apply Nat.eq_of_testBit_eq
  intro j
  have hlen : (List.zipWith (· &&& ·) a b).length = a.length := by simp [h]
  rw [Nat.testBit_and]
  by_cases hj : j < 8 * a.length
  · rw [testBit_value _ (by omega), testBit_value _ hj, testBit_value _ (by omega), hlen,
      bitAt_zipWith_and h, h]
  · rw [testBit_value_of_le _ (by omega), testBit_value_of_le _ (by omega), Bool.false_and]

end ByteBits
