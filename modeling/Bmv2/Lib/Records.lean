import Bmv2.Lib.OnesComplement
import Mathlib.Tactic.Positivity
import Mathlib.Tactic.Ring

/-! Binary records: formats with a writer and a reader that undo each other, and how larger ones are
made of smaller ones. Numbers are little-endian. -/
namespace Records
open ByteBits OnesComplement

variable {α β : Type}

/-- A way to write values as bytes, and to read them back from the start of a string. What is
valid is read as it was written, and whatever is read is valid and was written so. -/
structure Format (α : Type) where
  Valid : α → Prop
  write : α → List Byte
  read : List Byte → Option (α × List Byte)
  read_write : ∀ {a rest}, Valid a → read (write a ++ rest) = some (a, rest)
  write_read : ∀ {l a rest}, read l = some (a, rest) → Valid a ∧ l = write a ++ rest

/-- The last `n` bytes of a number, the least significant one first. -/
def leBytes : ℕ → ℕ → List Byte
  | 0, _ => []
  | n + 1, v => BitVec.ofNat 8 v :: leBytes n (v / 2 ^ 8)

@[simp] theorem length_leBytes (n v : ℕ) : (leBytes n v).length = n := by
  induction n generalizing v with
  | zero => rfl
  | succ n ih => rw [leBytes, List.length_cons, ih]

theorem littleEndian_leBytes (n v : ℕ) : littleEndian (leBytes n v) = v % 2 ^ (8 * n) := by
  induction n generalizing v with
  | zero => simp [leBytes, littleEndian, Nat.mod_one]
  | succ n ih =>
    rw [leBytes, littleEndian, ih, BitVec.toNat_ofNat, Nat.mul_succ, Nat.add_comm (8 * n), pow_add,
      Nat.mod_mul]

theorem leBytes_littleEndian (l : List Byte) : leBytes l.length (littleEndian l) = l := by
  induction l with
  | nil => rfl
  | cons b l ih =>
    have hb := b.isLt
    have hdiv : (b.toNat + 2 ^ 8 * littleEndian l) / 2 ^ 8 = littleEndian l := by omega
    have hbyte : BitVec.ofNat 8 (b.toNat + 2 ^ 8 * littleEndian l) = b := by
      apply BitVec.eq_of_toNat_eq
      rw [BitVec.toNat_ofNat]
      omega
    rw [littleEndian, List.length_cons, leBytes, hdiv, hbyte, ih]

/-- The first `n` bytes of a string and the rest, if there are so many. -/
def takeBytes (n : ℕ) (l : List Byte) : Option (List Byte × List Byte) :=
  if n ≤ l.length then some (l.take n, l.drop n) else none

theorem takeBytes_append {l rest : List Byte} :
    takeBytes l.length (l ++ rest) = some (l, rest) := by
  simp [takeBytes]

theorem takeBytes_cases {n : ℕ} {l a rest : List Byte} (h : takeBytes n l = some (a, rest)) :
    a.length = n ∧ l = a ++ rest := by
  unfold takeBytes at h
  split_ifs at h with hle
  obtain ⟨rfl, rfl⟩ := Prod.mk.inj (Option.some.inj h)
  exact ⟨List.length_take_of_le hle, (List.take_append_drop n l).symm⟩

namespace Format

/-- A string of a fixed length. -/
def bytes (n : ℕ) : Format (List Byte) where
  Valid l := l.length = n
  write l := l
  read := takeBytes n
  read_write := by
    rintro a rest rfl
    exact takeBytes_append
  write_read := takeBytes_cases

/-- The same bytes read as something else. -/
def iso (f : Format α) (Valid : β → Prop) (decode : α → β) (encode : β → α)
    (hdecode : ∀ b, Valid b → f.Valid (encode b) ∧ decode (encode b) = b)
    (hencode : ∀ a, f.Valid a → Valid (decode a) ∧ encode (decode a) = a) : Format β where
  Valid := Valid
  write b := f.write (encode b)
  read l := (f.read l).map fun p => (decode p.1, p.2)
  read_write := by
    intro b rest hb
    obtain ⟨ha, hb⟩ := hdecode b hb
    rw [f.read_write ha, Option.map_some, hb]
  write_read := by
    intro l b rest h
    obtain ⟨⟨a, rest'⟩, hread, heq⟩ := Option.map_eq_some_iff.mp h
    obtain ⟨rfl, rfl⟩ := Prod.mk.inj heq
    obtain ⟨ha, rfl⟩ := f.write_read hread
    obtain ⟨hb, ha⟩ := hencode a ha
    exact ⟨hb, by rw [ha]⟩

/-- An unsigned number of `n` bytes. -/
def uint (n : ℕ) : Format ℕ :=
  (bytes n).iso (fun v => v < 2 ^ (8 * n)) littleEndian (leBytes n)
    (fun v hv => ⟨length_leBytes n v, by rw [littleEndian_leBytes, Nat.mod_eq_of_lt hv]⟩)
    (by
      rintro l rfl
      exact ⟨littleEndian_lt l, leBytes_littleEndian l⟩)

/-- The same as a bit vector. -/
def word (n : ℕ) : Format (BitVec (8 * n)) :=
  (uint n).iso (fun _ => True) (BitVec.ofNat (8 * n)) BitVec.toNat
    (fun v _ => ⟨v.isLt, by simp⟩)
    (fun m hm => ⟨trivial, by rw [BitVec.toNat_ofNat, Nat.mod_eq_of_lt hm]⟩)

/-- A number of `w` bits in two's complement. -/
def toSigned (w n : ℕ) : ℤ := if n < 2 ^ (w - 1) then n else (n : ℤ) - 2 ^ w

theorem toSigned_emod {w : ℕ} (hw : 0 < w) {v : ℤ} (hlow : -2 ^ (w - 1) ≤ v)
    (hhigh : v < 2 ^ (w - 1)) : toSigned w (v % 2 ^ w).toNat = v := by
  obtain ⟨k, rfl⟩ : ∃ k, w = k + 1 := ⟨w - 1, by omega⟩
  have hpow : (2 : ℤ) ^ (k + 1) = 2 * 2 ^ k := by rw [pow_succ, mul_comm]
  have hpos : (0 : ℤ) < 2 ^ k := by positivity
  rw [Nat.add_sub_cancel] at hlow hhigh
  unfold toSigned
  rw [Nat.add_sub_cancel]
  rcases lt_or_ge v 0 with hneg | hnonneg
  · have hmod : v % 2 ^ (k + 1) = v + 2 ^ (k + 1) := by
      rw [← Int.add_emod_right, Int.emod_eq_of_lt (by omega) (by omega)]
    have hnat : ((v % 2 ^ (k + 1)).toNat : ℤ) = v + 2 ^ (k + 1) := by
      rw [hmod]
      exact Int.toNat_of_nonneg (by omega)
    have hge : ¬ (v % 2 ^ (k + 1)).toNat < 2 ^ k := by
      intro hlt
      have hcast : ((v % 2 ^ (k + 1)).toNat : ℤ) < 2 ^ k := by exact_mod_cast hlt
      omega
    rw [if_neg hge, hnat]
    ring
  · have hmod : v % 2 ^ (k + 1) = v := Int.emod_eq_of_lt hnonneg (by omega)
    have hlt : v.toNat < 2 ^ k := by
      have hcast : (v.toNat : ℤ) < 2 ^ k := by rwa [Int.toNat_of_nonneg hnonneg]
      exact_mod_cast hcast
    rw [hmod, if_pos hlt, Int.toNat_of_nonneg hnonneg]

theorem emod_toSigned {w n : ℕ} (hw : 0 < w) (hn : n < 2 ^ w) :
    -2 ^ (w - 1) ≤ toSigned w n ∧ toSigned w n < 2 ^ (w - 1) ∧
      (toSigned w n % 2 ^ w).toNat = n := by
  obtain ⟨k, rfl⟩ : ∃ k, w = k + 1 := ⟨w - 1, by omega⟩
  have hpow : (2 : ℤ) ^ (k + 1) = 2 * 2 ^ k := by rw [pow_succ, mul_comm]
  have hpos : (0 : ℤ) < 2 ^ k := by positivity
  have hncast : (n : ℤ) < 2 ^ (k + 1) := by exact_mod_cast hn
  unfold toSigned
  rw [Nat.add_sub_cancel]
  split_ifs with hlt
  · have hcast : (n : ℤ) < 2 ^ k := by exact_mod_cast hlt
    refine ⟨by omega, hcast, ?_⟩
    rw [Int.emod_eq_of_lt (by omega) hncast, Int.toNat_natCast]
  · have hcast : (2 : ℤ) ^ k ≤ n := by exact_mod_cast not_lt.mp hlt
    refine ⟨by omega, by omega, ?_⟩
    rw [Int.sub_emod_right, Int.emod_eq_of_lt (by omega) hncast, Int.toNat_natCast]

/-- A signed number of `n` bytes. -/
def int (n : ℕ) (hn : 0 < n) : Format ℤ :=
  (uint n).iso (fun v => -2 ^ (8 * n - 1) ≤ v ∧ v < 2 ^ (8 * n - 1)) (toSigned (8 * n))
    (fun v => (v % 2 ^ (8 * n)).toNat)
    (by
      rintro v ⟨hlow, hhigh⟩
      refine ⟨?_, toSigned_emod (by omega) hlow hhigh⟩
      have hnonneg := Int.emod_nonneg v (show (2 : ℤ) ^ (8 * n) ≠ 0 by positivity)
      have hlt := Int.emod_lt_of_pos v (show (0 : ℤ) < 2 ^ (8 * n) by positivity)
      have hcast : ((v % 2 ^ (8 * n)).toNat : ℤ) < 2 ^ (8 * n) := by
        rwa [Int.toNat_of_nonneg hnonneg]
      exact_mod_cast hcast)
    (fun m hm => by
      obtain ⟨hlow, hhigh, heq⟩ := emod_toSigned (by omega) hm
      exact ⟨⟨hlow, hhigh⟩, heq⟩)

/-- One value after another, whose format may depend on the first. -/
def dep (f : Format α) (g : α → Format β) : Format (α × β) where
  Valid p := f.Valid p.1 ∧ (g p.1).Valid p.2
  write p := f.write p.1 ++ (g p.1).write p.2
  read l := do
    let (a, l) ← f.read l
    let (b, l) ← (g a).read l
    some ((a, b), l)
  read_write := by
    rintro ⟨a, b⟩ rest ⟨ha, hb⟩
    rw [List.append_assoc, f.read_write ha]
    dsimp only [Option.bind_eq_bind, Option.bind_some]
    rw [(g a).read_write hb]
    rfl
  write_read := by
    rintro l ⟨a, b⟩ rest h
    obtain ⟨⟨a', l'⟩, ha, h⟩ := Option.bind_eq_some_iff.mp h
    obtain ⟨⟨b', l''⟩, hb, h⟩ := Option.bind_eq_some_iff.mp h
    simp only [Option.some.injEq, Prod.mk.injEq] at h
    obtain ⟨⟨rfl, rfl⟩, rfl⟩ := h
    obtain ⟨hva, rfl⟩ := f.write_read ha
    obtain ⟨hvb, rfl⟩ := (g _).write_read hb
    exact ⟨⟨hva, hvb⟩, (List.append_assoc _ _ _).symm⟩

/-- One value after another. -/
def pair (f : Format α) (g : Format β) : Format (α × β) := f.dep fun _ => g

/-- The reader of a list of `n` values. -/
def readList (f : Format α) : ℕ → List Byte → Option (List α × List Byte)
  | 0, l => some ([], l)
  | n + 1, l => do
    let (a, l) ← f.read l
    let (as, l) ← readList f n l
    some (a :: as, l)

/-- A list of `n` values. -/
def list (f : Format α) (n : ℕ) : Format (List α) where
  Valid l := l.length = n ∧ ∀ a ∈ l, f.Valid a
  write l := l.flatMap f.write
  read := f.readList n
  read_write := by
    rintro as rest ⟨rfl, hvalid⟩
    induction as with
    | nil => rfl
    | cons a as ih =>
      obtain ⟨ha, has⟩ := List.forall_mem_cons.mp hvalid
      rw [List.flatMap_cons, List.append_assoc, List.length_cons, readList, f.read_write ha]
      dsimp only [Option.bind_eq_bind, Option.bind_some]
      rw [ih has]
      rfl
  write_read := by
    intro l as rest h
    induction n generalizing l as with
    | zero =>
      obtain ⟨rfl, rfl⟩ := Prod.mk.inj (Option.some.inj h)
      exact ⟨⟨rfl, by simp⟩, rfl⟩
    | succ n ih =>
      obtain ⟨⟨a, l'⟩, ha, h⟩ := Option.bind_eq_some_iff.mp h
      obtain ⟨⟨as', l''⟩, has, h⟩ := Option.bind_eq_some_iff.mp h
      simp only [Option.some.injEq, Prod.mk.injEq] at h
      obtain ⟨rfl, rfl⟩ := h
      obtain ⟨hva, rfl⟩ := f.write_read ha
      obtain ⟨⟨hlen, hvas⟩, rfl⟩ := ih has
      exact ⟨⟨by rw [List.length_cons, hlen], List.forall_mem_cons.mpr ⟨hva, hvas⟩⟩,
        by rw [List.flatMap_cons, List.append_assoc]⟩

end Format

end Records
