import Mathlib.Data.List.DropRight
import Mathlib.Data.Nat.Digits.Lemmas
import Mathlib.Data.Int.Notation

/-! `int(s, base)` of Python 2 on strings: an integer literal with an optional sign, between blanks.
In base 0 the literal tells its own base, as in a program. -/
namespace PythonInt

def isSpace (c : Char) : Bool := c ∈ [' ', '\t', '\n', '\x0b', '\x0c', '\r']

def digitValue (c : Char) : Option ℕ :=
  if '0' ≤ c ∧ c ≤ '9' then some (c.toNat - '0'.toNat)
  else if 'a' ≤ c ∧ c ≤ 'z' then some (c.toNat - 'a'.toNat + 10)
  else if 'A' ≤ c ∧ c ≤ 'Z' then some (c.toNat - 'A'.toNat + 10)
  else none

/-- One more digit of a number. -/
def addDigit (base n : ℕ) (c : Char) : Option ℕ :=
  (digitValue c).bind fun d => if d < base then some (n * base + d) else none

/-- One digit or more, of the base. -/
def digitsValue (base : ℕ) (s : List Char) : Option ℕ :=
  if s = [] then none else s.foldlM (addDigit base) 0

/-- The base that the letter behind a leading zero stands for. -/
def radixOf (c : Char) : Option ℕ :=
  if c ∈ ['x', 'X'] then some 16
  else if c ∈ ['o', 'O'] then some 8
  else if c ∈ ['b', 'B'] then some 2
  else none

/-- In base 0 a leading zero without a letter stands for base 8. -/
def literalValue (base : ℕ) : List Char → Option ℕ
  | '0' :: c :: s =>
    match radixOf c with
    | some radix =>
      if base = 0 ∨ base = radix then digitsValue radix s else digitsValue base ('0' :: c :: s)
    | none => digitsValue (if base = 0 then 8 else base) ('0' :: c :: s)
  | s => digitsValue (if base = 0 then 10 else base) s

def strip (s : List Char) : List Char := (s.dropWhile isSpace).rdropWhile isSpace

def signedValue (base : ℕ) : List Char → Option ℤ
  | '-' :: s => (literalValue base s).map fun n => -Int.ofNat n
  | '+' :: s => (literalValue base s).map Int.ofNat
  | s => (literalValue base s).map Int.ofNat

def int (s : List Char) (base : ℕ) : Option ℤ := signedValue base (strip s)

/-- A character that may stand in the string of a number. -/
def Numeral (c : Char) : Prop := isSpace c = true ∨ c = '-' ∨ c = '+' ∨ (digitValue c).isSome

variable {base n : ℕ} {s : List Char} {c : Char}

theorem numeral_of_foldlM {m : ℕ} (h : s.foldlM (addDigit base) m = some n) :
    ∀ c ∈ s, Numeral c := by
  induction s generalizing m with
  | nil => exact fun c hc => absurd hc List.not_mem_nil
  | cons d s ih =>
    rw [List.foldlM_cons] at h
    obtain ⟨k, hk, hrest⟩ := Option.bind_eq_some_iff.mp h
    obtain ⟨v, hv, -⟩ := Option.bind_eq_some_iff.mp hk
    refine List.forall_mem_cons.mpr ⟨.inr (.inr (.inr ?_)), ih hrest⟩
    rw [hv]
    rfl

theorem numeral_of_digitsValue (h : digitsValue base s = some n) : ∀ c ∈ s, Numeral c := by
  rw [digitsValue] at h
  split_ifs at h
  exact numeral_of_foldlM h

theorem numeral_of_radixOf {radix : ℕ} (h : radixOf c = some radix) : Numeral c := by
  have hmem : c ∈ ['x', 'X', 'o', 'O', 'b', 'B'] := by
    rw [radixOf] at h
    split_ifs at h with hx ho hb
    · exact List.mem_append_left ['o', 'O', 'b', 'B'] hx
    · exact List.mem_append_right ['x', 'X'] (List.mem_append_left ['b', 'B'] ho)
    · exact List.mem_append_right ['x', 'X', 'o', 'O'] hb
  have hall : ['x', 'X', 'o', 'O', 'b', 'B'].all (fun c => (digitValue c).isSome) = true := rfl
  exact .inr (.inr (.inr (List.all_eq_true.mp hall c hmem)))

theorem numeral_zero : Numeral '0' := .inr (.inr (.inr rfl))

theorem numeral_of_literalValue (h : literalValue base s = some n) : ∀ c ∈ s, Numeral c := by
  rw [literalValue.eq_def] at h
  split at h
  · next c s =>
    split at h
    · next radix hradix =>
      split_ifs at h
      · exact List.forall_mem_cons.mpr ⟨numeral_zero, List.forall_mem_cons.mpr
          ⟨numeral_of_radixOf hradix, numeral_of_digitsValue h⟩⟩
      · exact numeral_of_digitsValue h
    · exact numeral_of_digitsValue h
  · exact numeral_of_digitsValue h

theorem numeral_of_signedValue {i : ℤ} (h : signedValue base s = some i) :
    ∀ c ∈ s, Numeral c := by
  rw [signedValue.eq_def] at h
  split at h
  · obtain ⟨n, hn, -⟩ := Option.map_eq_some_iff.mp h
    exact List.forall_mem_cons.mpr ⟨.inr (.inl rfl), numeral_of_literalValue hn⟩
  · obtain ⟨n, hn, -⟩ := Option.map_eq_some_iff.mp h
    exact List.forall_mem_cons.mpr ⟨.inr (.inr (.inl rfl)), numeral_of_literalValue hn⟩
  · obtain ⟨n, hn, -⟩ := Option.map_eq_some_iff.mp h
    exact numeral_of_literalValue hn

theorem mem_or_isSpace (hc : c ∈ s) : isSpace c = true ∨ c ∈ s.dropWhile isSpace := by
  rw [← List.takeWhile_append_dropWhile (p := isSpace) (l := s), List.mem_append] at hc
  exact hc.imp_left List.mem_takeWhile_imp

/-- Stripping takes only blanks away. -/
theorem isSpace_or_mem_strip (hc : c ∈ s) : isSpace c = true ∨ c ∈ strip s := by
  rcases mem_or_isSpace hc with h | h
  · exact .inl h
  · rw [← List.mem_reverse] at h
    refine (mem_or_isSpace h).imp_right fun h => ?_
    rw [strip, List.rdropWhile]
    exact List.mem_reverse.mpr h

/-- Only blanks, signs, digits and letters stand in the string of a number. -/
theorem numeral_of_int {i : ℤ} (h : int s base = some i) : ∀ c ∈ s, Numeral c := by
  intro c hc
  rcases isSpace_or_mem_strip hc with hspace | hmem
  · exact .inl hspace
  · exact numeral_of_signedValue h c hmem

theorem not_mem_of_int {i : ℤ} (h : int s base = some i) (hc : c ∈ ['.', ':']) : c ∉ s := by
  intro hmem
  obtain ⟨hspace, hminus, hplus, hdigit⟩ :
      isSpace c = false ∧ c ≠ '-' ∧ c ≠ '+' ∧ digitValue c = none := by
    rcases List.mem_pair.mp hc with rfl | rfl <;> decide
  rcases numeral_of_int h c hmem with h | h | h | h
  · rw [hspace] at h
    cases h
  · exact hminus h
  · exact hplus h
  · rw [hdigit] at h
    cases h

example : int " 0x1F\n".toList 0 = some 31 := by decide

example : int "017".toList 0 = some 15 ∧ int "017".toList 10 = some 17 := by decide

end PythonInt
