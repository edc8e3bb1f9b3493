import Mathlib.Data.BitVec
import Mathlib.Data.List.Basic
import Mathlib.Tactic.Ring

/-! Byte strings read as bit strings, most significant bit first. -/
namespace ByteBits

abbrev Byte := BitVec 8

/-- The eight bits of one byte, most significant first. -/
def byteBits (b : Byte) : List Bool := List.ofFn fun i : Fin 8 => b.getMsbD i

/-- The bits of a byte string, in transmission order. -/
def bits (l : List Byte) : List Bool := l.flatMap byteBits

@[simp] theorem length_byteBits (b : Byte) : (byteBits b).length = 8 := by simp [byteBits]

@[simp] theorem bits_nil : bits [] = [] := rfl

@[simp] theorem bits_cons (b : Byte) (l : List Byte) : bits (b :: l) = byteBits b ++ bits l := rfl

@[simp] theorem bits_append (l l' : List Byte) : bits (l ++ l') = bits l ++ bits l' := by
  simp [bits]

@[simp] theorem length_bits (l : List Byte) : (bits l).length = 8 * l.length := by
  induction l with
  | nil => rfl
  | cons b l ih => simp only [bits_cons, List.length_append, length_byteBits, ih,
      List.length_cons]; ring

theorem byteBits_getElem? (b : Byte) {i : ℕ} (hi : i < 8) :
    (byteBits b)[i]? = some (b.getMsbD i) := by
  rw [byteBits, List.getElem?_ofFn]
  exact dif_pos hi

theorem byteBits_injective : Function.Injective byteBits := by
  intro a b h
  apply BitVec.eq_of_getMsbD_eq
  intro i hi
  have hh := congrArg (fun l => l[i]?) h
  simpa only [byteBits_getElem? _ hi, Option.some.injEq] using hh

theorem bits_injective : Function.Injective bits := by
  intro l
  induction l with
  | nil =>
    intro l' h
    have hl := congrArg List.length h
    simp only [bits_nil, List.length_nil, length_bits] at hl
    exact (List.length_eq_zero_iff.mp (by omega)).symm
  | cons b l ih =>
    intro l' h
    cases l' with
    | nil => simp [byteBits] at h
    | cons b' l' =>
      obtain ⟨h1, h2⟩ := List.append_inj h (by simp)
      rw [byteBits_injective h1, ih h2]

/-- The bit at position `i`; positions past the end read as zero. -/
def bitAt (l : List Byte) (i : ℕ) : Bool := (l.getD (i / 8) 0).getMsbD (i % 8)

theorem bits_getElem? (l : List Byte) {i : ℕ} (hi : i < 8 * l.length) :
    (bits l)[i]? = some (bitAt l i) := by
  induction l generalizing i with
  | nil => simp at hi
  | cons b l ih =>
    rw [bits_cons]
    by_cases h8 : i < 8
    · rw [List.getElem?_append_left (by simpa using h8), byteBits_getElem? _ h8]
      simp [bitAt, Nat.div_eq_of_lt h8, Nat.mod_eq_of_lt h8]
    · rw [List.getElem?_append_right (by simpa using h8), length_byteBits,
        ih (by simp only [List.length_cons] at hi; omega)]
      have hd : i / 8 = (i - 8) / 8 + 1 := by omega
      have hm : i % 8 = (i - 8) % 8 := by omega
      simp [bitAt, hd, hm]

/-- Two equally long prefixes are equal exactly when their bits are. -/
theorem take_bits_eq_iff {l l' : List Byte} {n : ℕ} (h : n ≤ 8 * l.length)
    (h' : n ≤ 8 * l'.length) :
    (bits l).take n = (bits l').take n ↔ ∀ i < n, bitAt l i = bitAt l' i := by
  constructor
  · intro he i hi
    have hl := bits_getElem? l (i := i) (by omega)
    have hl' := bits_getElem? l' (i := i) (by omega)
    have hh := congrArg (fun x => x[i]?) he
    simp only [List.getElem?_take, hi, ↓reduceIte, hl, hl', Option.some.injEq] at hh
    exact hh
  · intro he
    apply List.ext_getElem?
    intro i
    by_cases hi : i < n
    · have hl := bits_getElem? l (i := i) (by omega)
      have hl' := bits_getElem? l' (i := i) (by omega)
      simp only [List.getElem?_take, hi, ↓reduceIte, hl, hl', he i hi]
    · simp [hi]

theorem eq_iff_bitAt {l l' : List Byte} (h : l.length = l'.length) :
    l = l' ↔ ∀ i < 8 * l.length, bitAt l i = bitAt l' i := by
  rw [← take_bits_eq_iff le_rfl (by omega), List.take_of_length_le (by simp),
    List.take_of_length_le (by simp [h])]
  exact bits_injective.eq_iff.symm

/-- A leading part of the bits of consecutive blocks that covers all blocks but the last: it is
made of a leading part of each. -/
theorem take_bits_flatten_iff {ι : Type*} {l : List ι} {g g' : ι → List Byte} {q : ι → ℕ}
    (hlen : ∀ i ∈ l, (g i).length = (g' i).length)
    (hfull : l.Pairwise fun i _ => q i = 8 * (g i).length) :
    (bits (l.map g).flatten).take (l.map q).sum = (bits (l.map g').flatten).take (l.map q).sum ↔
      ∀ i ∈ l, (bits (g i)).take (q i) = (bits (g' i)).take (q i) := by
  induction l with
  | nil => simp
  | cons a l ih =>
    obtain ⟨hfirst, hrest⟩ := List.pairwise_cons.mp hfull
    have ih := ih (fun i hi => hlen i (List.mem_cons_of_mem a hi)) hrest
    rw [List.forall_mem_cons, ← ih]
    cases l with
    | nil => simp
    | cons b l =>
      have hq : q a = 8 * (g a).length := hfirst b List.mem_cons_self
      have hsplit : ∀ h : ι → List Byte, (h a).length = (g a).length →
          (bits (h a)).take (q a) = bits (h a) ∧
          (bits ((a :: b :: l).map h).flatten).take ((a :: b :: l).map q).sum =
            bits (h a) ++ (bits ((b :: l).map h).flatten).take ((b :: l).map q).sum := by
        intro h hlen
        have hqa : q a = (bits (h a)).length := by rw [length_bits, hq, hlen]
        refine ⟨by rw [hqa, List.take_length], ?_⟩
        rw [show (a :: b :: l).map q = q a :: (b :: l).map q from rfl, List.sum_cons,
          show ((a :: b :: l).map h).flatten = h a ++ ((b :: l).map h).flatten from rfl,
          bits_append, hqa, List.take_length_add_append]
      have heq : (g a).length = (g' a).length := hlen a List.mem_cons_self
      rw [(hsplit g rfl).1, (hsplit g rfl).2, (hsplit g' heq.symm).1, (hsplit g' heq.symm).2]
      constructor
      · intro h
        exact List.append_inj h (by rw [length_bits, length_bits, heq])
      · rintro ⟨h1, h2⟩
        rw [h1, h2]

end ByteBits
