import Bmv2.Lib.ByteBuffer

/-! Bit strings that are written one behind the other into bytes, by a writer that may lose what
stands before a string in the byte in which the string begins. -/
namespace BitWriter
open ByteBits

variable (loses : ℕ → ℕ → Prop) [∀ w o, Decidable (loses w o)]

/-- The bits after a string is written at bit `n`. Which strings lose what is before them depends
on their width and on where in its first byte they begin. -/
def write (bits : ℕ → Bool) (n : ℕ) (piece : List Bool) (j : ℕ) : Bool :=
  if n ≤ j then piece.getD (j - n) false
  else bits j && !decide (loses piece.length (n % 8) ∧ 8 * (n / 8) ≤ j)

def writeAll (bits : ℕ → Bool) (n : ℕ) : List (List Bool) → ℕ → Bool
  | [] => bits
  | piece :: pieces => writeAll (write loses bits n piece) (n + piece.length) pieces

/-- Nothing is lost of some bits by strings of these widths, written to them from bit `p` on. -/
def Keeps (bits : ℕ → Bool) : ℕ → List ℕ → Prop
  | _, [] => True
  | p, w :: widths =>
    (loses w (p % 8) → ∀ j < p, 8 * (p / 8) ≤ j → bits j = false) ∧ Keeps bits (p + w) widths

instance decidableKeeps (bits : ℕ → Bool) :
    ∀ (p : ℕ) (widths : List ℕ), Decidable (Keeps loses bits p widths)
  | _, [] => isTrue trivial
  | p, w :: widths =>
    have := decidableKeeps bits (p + w) widths
    inferInstanceAs (Decidable (_ ∧ _))

variable {loses} {bits target : ℕ → Bool} {n : ℕ} {piece : List Bool} {pieces : List (List Bool)}

theorem write_of_le {j : ℕ} (h : n ≤ j) :
    write loses bits n piece j = piece.getD (j - n) false := if_pos h

theorem write_of_lt {j : ℕ} (h : j < n) : write loses bits n piece j =
    (bits j && !decide (loses piece.length (n % 8) ∧ 8 * (n / 8) ≤ j)) :=
  if_neg (Nat.not_le.mpr h)

theorem write_end {j : ℕ} (h : n + piece.length ≤ j) : write loses bits n piece j = false := by
  rw [write_of_le (by omega)]
  exact List.getD_eq_default _ _ (by omega)

theorem writeAll_append (pieces' : List (List Bool)) :
    writeAll loses bits n (pieces ++ pieces') =
      writeAll loses (writeAll loses bits n pieces) (n + pieces.flatten.length) pieces' := by
  induction pieces generalizing bits n with
  | nil => rfl
  | cons piece pieces ih =>
    rw [List.cons_append, writeAll, ih, writeAll, List.flatten_cons, List.length_append,
      Nat.add_assoc]

/-- Only the bytes from the one in which the first string begins are written. -/
theorem writeAll_of_lt {j : ℕ} (h : j < 8 * (n / 8)) : writeAll loses bits n pieces j = bits j := by
  induction pieces generalizing bits n with
  | nil => rfl
  | cons piece pieces ih =>
    have hkept : ¬ (loses piece.length (n % 8) ∧ 8 * (n / 8) ≤ j) := by omega
    rw [writeAll, ih (by omega), write_of_lt (by omega), decide_eq_false hkept, Bool.not_false,
      Bool.and_true]

/-- Behind the last string there is nothing. -/
theorem writeAll_end (hbits : ∀ j, n ≤ j → bits j = false) {j : ℕ}
    (h : n + pieces.flatten.length ≤ j) : writeAll loses bits n pieces j = false := by
  induction pieces generalizing bits n with
  | nil => exact hbits j h
  | cons piece pieces ih =>
    rw [List.flatten_cons, List.length_append] at h
    exact ih (fun j hj => write_end hj) (by omega)

/-- Whole bytes before the strings may be left out. -/
theorem writeAll_shift (k : ℕ) (j : ℕ) :
    writeAll loses (fun j => bits (8 * k + j)) n pieces j =
      writeAll loses bits (8 * k + n) pieces (8 * k + j) := by
  induction pieces generalizing bits n with
  | nil => rfl
  | cons piece pieces ih =>
    have hwrite : write loses (fun j => bits (8 * k + j)) n piece =
        fun j => write loses bits (8 * k + n) piece (8 * k + j) := by
      funext j
      have hdiv : (8 * k + n) / 8 = k + n / 8 := by omega
      have hmod : (8 * k + n) % 8 = n % 8 := by omega
      by_cases hj : n ≤ j
      · rw [write_of_le hj, write_of_le (by omega), Nat.add_sub_add_left]
      · have hfrom : 8 * (n / 8) ≤ j ↔ 8 * (k + n / 8) ≤ 8 * k + j := by omega
        rw [write_of_lt (by omega), write_of_lt (by omega), hdiv, hmod,
          decide_eq_decide.mpr (and_congr_right fun _ => hfrom)]
    rw [writeAll, hwrite, ih, writeAll, Nat.add_assoc]

/-- Writing to the rest of a buffer, from the byte in which the first string begins. -/
theorem bitAt_take_append {buf rest : List Byte} {k r : ℕ} (hk : k ≤ buf.length)
    (hrest : bitAt rest = writeAll loses (bitAt (buf.drop k)) r pieces) :
    bitAt (buf.take k ++ rest) = writeAll loses (bitAt buf) (8 * k + r) pieces := by
  have hlen : (buf.take k).length = k := by
    rw [List.length_take]
    omega
  have hdrop : bitAt (buf.drop k) = fun j => bitAt buf (8 * k + j) := funext (bitAt_drop buf k)
  funext j
  by_cases hj : j < 8 * k
  · rw [bitAt_append_left (by omega), bitAt_take hj, writeAll_of_lt (by omega)]
  · obtain ⟨i, rfl⟩ : ∃ i, j = 8 * k + i := ⟨j - 8 * k, by omega⟩
    rw [bitAt_append_right (by omega), hlen, Nat.add_sub_cancel_left, hrest, hdrop,
      writeAll_shift]

/-- The strings stand in the target one behind the other. If the bits so far are among those of the
target, writing gives the target exactly when they are all there and none of them is lost. -/
theorem writeAll_eq_iff (hend : ∀ j, n ≤ j → bits j = false)
    (hsub : ∀ j < n, bits j = true → target j = true)
    (htarget : ∀ i, target (n + i) = pieces.flatten.getD i false) :
    (∀ j, writeAll loses bits n pieces j = target j) ↔
      (∀ j < n, bits j = target j) ∧ Keeps loses target n (pieces.map List.length) := by
  induction pieces generalizing bits n with
  | nil =>
    refine ⟨fun h => ⟨fun j _ => h j, trivial⟩, fun h j => ?_⟩
    by_cases hj : j < n
    · exact h.1 j hj
    · obtain ⟨i, rfl⟩ : ∃ i, j = n + i := ⟨j - n, by omega⟩
      rw [htarget]
      exact hend _ (by omega)
  | cons piece pieces ih =>
    have hfirst : ∀ j, n ≤ j → j < n + piece.length →
        write loses bits n piece j = target j := by
      intro j hj hlt
      obtain ⟨i, rfl⟩ : ∃ i, j = n + i := ⟨j - n, by omega⟩
      rw [write_of_le hj, htarget, List.flatten_cons, Nat.add_sub_cancel_left,
        List.getD_append _ _ _ _ (by omega)]
    have hrest : ∀ i, target (n + piece.length + i) = pieces.flatten.getD i false := by
      intro i
      rw [Nat.add_assoc, htarget, List.flatten_cons, List.getD_append_right _ _ _ _ (by omega),
        Nat.add_sub_cancel_left]
    have hsub' : ∀ j < n + piece.length, write loses bits n piece j = true → target j = true := by
      intro j hj hbit
      by_cases hlt : j < n
      · rw [write_of_lt hlt, Bool.and_eq_true] at hbit
        exact hsub j hlt hbit.1
      · rw [← hfirst j (by omega) hj, hbit]
    rw [writeAll, ih (fun j hj => write_end hj) hsub' hrest, List.map_cons, Keeps, ← and_assoc]
    apply and_congr_left'
    constructor
    · intro hall
      have hsame : ∀ j < n, bits j = target j := by
        intro j hj
        have hbit := hall j (by omega)
        rw [write_of_lt hj] at hbit
        cases htrue : target j with
        | true =>
          rw [htrue, Bool.and_eq_true] at hbit
          exact hbit.1
        | false =>
          by_contra hne
          rw [hsub j hj (by simpa using hne)] at htrue
          cases htrue
      refine ⟨hsame, fun hloses j hj hfrom => ?_⟩
      rw [← hall j (by omega), write_of_lt hj, decide_eq_true ⟨hloses, hfrom⟩, Bool.not_true,
        Bool.and_false]
    · rintro ⟨hsame, hkeeps⟩ j hj
      by_cases hlt : j < n
      · rw [write_of_lt hlt, hsame j hlt]
        by_cases hlost : loses piece.length (n % 8) ∧ 8 * (n / 8) ≤ j
        · rw [hkeeps hlost.1 j hlt hlost.2, Bool.false_and]
        · rw [decide_eq_false hlost, Bool.not_false, Bool.and_true]
      · exact hfirst j (by omega) hj

/-- Strings that are written from the start come out as their concatenation exactly when nothing of
it is lost. -/
theorem writeAll_start_iff :
    (∀ j, writeAll loses (fun _ => false) 0 pieces j = pieces.flatten.getD j false) ↔
      Keeps loses (fun j => pieces.flatten.getD j false) 0 (pieces.map List.length) := by
  rw [writeAll_eq_iff (fun _ _ => rfl) (fun _ hj => absurd hj (Nat.not_lt_zero _))
    fun i => by rw [Nat.zero_add]]
  exact and_iff_right fun _ hj => absurd hj (Nat.not_lt_zero _)

end BitWriter
