import Mathlib.Data.List.Nodup
import Mathlib.Order.Nat
import Mathlib.Tactic.Ring

/-! Byte strings made of consecutive blocks: reading a block, overwriting one, and filling
positions one at a time. -/
namespace Blocks

variable {α : Type*}

/-- `std::copy` of `src` into `dst` from position `off` on. -/
def copyAt (dst : List α) (off : ℕ) (src : List α) : List α :=
  dst.take off ++ src ++ dst.drop (off + src.length)

/-- Where the `j`-th block starts. -/
def offset (blocks : List (List α)) (j : ℕ) : ℕ := ((blocks.take j).map List.length).sum

@[simp] theorem offset_zero (blocks : List (List α)) : offset blocks 0 = 0 := rfl

@[simp] theorem offset_cons_succ (b : List α) (blocks : List (List α)) (j : ℕ) :
    offset (b :: blocks) (j + 1) = b.length + offset blocks j := by
  simp [offset]

theorem offset_eq_length (blocks : List (List α)) (j : ℕ) :
    offset blocks j = (blocks.take j).flatten.length :=
  List.length_flatten.symm

/-- The string around its `j`-th block. -/
theorem flatten_eq_append {blocks : List (List α)} {j : ℕ} {b : List α}
    (hb : blocks[j]? = some b) :
    blocks.flatten = (blocks.take j).flatten ++ (b ++ (blocks.drop (j + 1)).flatten) := by
  obtain ⟨hj, rfl⟩ := List.getElem?_eq_some_iff.mp hb
  rw [← List.flatten_cons, ← List.drop_eq_getElem_cons hj, ← List.flatten_append,
    List.take_append_drop]

theorem offset_add_length_le {blocks : List (List α)} {j : ℕ} {b : List α}
    (hb : blocks[j]? = some b) : offset blocks j + b.length ≤ blocks.flatten.length := by
  rw [flatten_eq_append hb, offset_eq_length, List.length_append, List.length_append]
  omega

/-- Reading the `j`-th block back. -/
theorem take_drop_flatten {blocks : List (List α)} {j : ℕ} {b : List α}
    (hb : blocks[j]? = some b) :
    (blocks.flatten.drop (offset blocks j)).take b.length = b := by
  rw [flatten_eq_append hb, offset_eq_length, List.drop_left, List.take_left]

/-- Overwriting the `j`-th block with one of the same length. -/
theorem copyAt_flatten {blocks : List (List α)} {j : ℕ} {b src : List α}
    (hb : blocks[j]? = some b) (hlen : src.length = b.length) :
    copyAt blocks.flatten (offset blocks j) src = (blocks.set j src).flatten := by
  have hset : (blocks.set j src)[j]? = some src :=
    List.getElem?_set_self (List.getElem?_eq_some_iff.mp hb).1
  rw [flatten_eq_append hset, List.take_set_of_le le_rfl, List.drop_set_of_lt (Nat.lt_succ_self j),
    copyAt, flatten_eq_append hb, offset_eq_length, List.take_left, hlen, ← List.drop_drop,
    List.drop_left, List.drop_left, List.append_assoc]

theorem offset_eq_sum (blocks : List (List α)) (j : ℕ) :
    offset blocks j = ((blocks.map List.length).take j).sum := by
  rw [offset, List.map_take]

/-- A block ends before the next ones start. -/
theorem offset_add_length_le_offset {blocks : List (List α)} {j k : ℕ} {b : List α}
    (hb : blocks[j]? = some b) (hjk : j < k) : offset blocks j + b.length ≤ offset blocks k := by
  have hk : (blocks.take k)[j]? = some b := by rw [List.getElem?_take_of_lt hjk, hb]
  have htake : offset (blocks.take k) j = offset blocks j := by
    rw [offset, List.take_take, min_eq_left hjk.le, offset]
  rw [← htake, offset_eq_length blocks k]
  exact offset_add_length_le hk

/-- The blocks cover the whole string. -/
theorem lt_length_flatten_iff {blocks : List (List α)} {k : ℕ} : k < blocks.flatten.length ↔
    ∃ j b, blocks[j]? = some b ∧ offset blocks j ≤ k ∧ k < offset blocks j + b.length := by
  refine ⟨fun hk => ?_, fun ⟨j, b, hb, _, hlt⟩ => hlt.trans_le (offset_add_length_le hb)⟩
  induction blocks generalizing k with
  | nil => cases hk
  | cons c blocks ih =>
    rw [List.flatten_cons, List.length_append] at hk
    by_cases hc : k < c.length
    · exact ⟨0, c, rfl, Nat.zero_le k, by rwa [offset_zero, Nat.zero_add]⟩
    · obtain ⟨j, b, hb, hle, hlt⟩ := ih (k := k - c.length) (by omega)
      refine ⟨j + 1, b, hb, ?_, ?_⟩ <;> rw [offset_cons_succ] <;> omega

theorem flatten_map_replicate {ι : Type*} (f : ι → ℕ) (a : α) (l : List ι) :
    (l.map fun i => List.replicate (f i) a).flatten = List.replicate (l.map f).sum a := by
  induction l with
  | nil => rfl
  | cons i l ih =>
    simp only [List.map_cons, List.flatten_cons, ih, List.sum_cons,
      List.replicate_append_replicate]

/-- Copying blocks to their offsets one after the other fills the blocks. -/
theorem foldl_copyAt {lens ks : List ℕ} {ms : List (List α)}
    (hks : List.Forall₂ (fun k (m : List α) => lens[k]? = some m.length) ks ms) :
    ∀ {blocks : List (List α)}, blocks.map List.length = lens →
      ((ks.map fun k => (lens.take k).sum).zip ms).foldl
          (fun m (p : ℕ × List α) => copyAt m p.1 p.2) blocks.flatten =
        ((ks.zip ms).foldl (fun bs p => bs.set p.1 p.2) blocks).flatten := by
  induction hks with
  | nil => intros; rfl
  | @cons k m ks ms hkm hrest ih =>
    rintro blocks rfl
    obtain ⟨b, hb, hlen⟩ : ∃ b, blocks[k]? = some b ∧ b.length = m.length := by
      simpa using hkm
    have hset : (blocks.set k m).map List.length = blocks.map List.length := by
      rw [List.map_set, ← hlen]
      apply List.ext_getElem?
      intro i
      by_cases hik : i = k
      · subst hik
        obtain ⟨hlt, rfl⟩ := List.getElem?_eq_some_iff.mp hb
        simp [hlt]
      · simp [List.getElem?_set_ne (Ne.symm hik)]
    simp only [List.map_cons, List.zip_cons_cons, List.foldl_cons]
    rw [← offset_eq_sum, copyAt_flatten hb hlen.symm]
    exact ih hset

section Fill

variable {ι : Type*} {idxs : List ι} {σ : ι → ℕ} {f : ι → α} {i : ι} {k : ℕ}

theorem length_foldl_set (init : List α) :
    (idxs.foldl (fun m i => m.set (σ i) (f i)) init).length = init.length := by
  induction idxs generalizing init with
  | nil => rfl
  | cons a idxs ih => simp [ih]

theorem foldl_set_of_notMem (init : List α) (h : k ∉ idxs.map σ) :
    (idxs.foldl (fun m i => m.set (σ i) (f i)) init)[k]? = init[k]? := by
  induction idxs generalizing init with
  | nil => rfl
  | cons a idxs ih =>
    simp only [List.map_cons, List.mem_cons, not_or] at h
    rw [List.foldl_cons, ih _ h.2, List.getElem?_set_ne (Ne.symm h.1)]

/-- Filling distinct positions leaves each with its own value. -/
theorem foldl_set_of_mem (init : List α) (hnodup : (idxs.map σ).Nodup) (hi : i ∈ idxs)
    (hlt : σ i < init.length) :
    (idxs.foldl (fun m i => m.set (σ i) (f i)) init)[σ i]? = some (f i) := by
  induction idxs generalizing init with
  | nil => simp at hi
  | cons a idxs ih =>
    rw [List.map_cons, List.nodup_cons] at hnodup
    rw [List.foldl_cons]
    rcases List.mem_cons.mp hi with rfl | hi
    · rw [foldl_set_of_notMem _ hnodup.1, List.getElem?_set_self hlt]
    · exact ih _ hnodup.2 hi (by simpa using hlt)

end Fill

section Maps

variable {ι β γ : Type*}

/-- A bytewise operation on block strings acts block by block. -/
theorem zipWith_flatten_map (op : α → β → γ) (l : List ι) {g : ι → List α} {g' : ι → List β}
    (h : ∀ i ∈ l, (g i).length = (g' i).length) :
    List.zipWith op (l.map g).flatten (l.map g').flatten =
      (l.map fun i => List.zipWith op (g i) (g' i)).flatten := by
  induction l with
  | nil => rfl
  | cons a l ih =>
    simp only [List.map_cons, List.flatten_cons]
    rw [List.zipWith_append (h a (by simp)), ih fun i hi => h i (by simp [hi])]

/-- Block strings with the same block lengths are equal exactly when all blocks are. -/
theorem flatten_map_inj (l : List ι) {g g' : ι → List α}
    (h : ∀ i ∈ l, (g i).length = (g' i).length) :
    (l.map g).flatten = (l.map g').flatten ↔ ∀ i ∈ l, g i = g' i := by
  induction l with
  | nil => simp
  | cons a l ih =>
    simp only [List.map_cons, List.flatten_cons, List.forall_mem_cons]
    rw [← ih fun i hi => h i (by simp [hi])]
    exact ⟨fun he => List.append_inj he (h a (by simp)), fun ⟨h1, h2⟩ => by rw [h1, h2]⟩

theorem length_flatten_map (l : List ι) (g : ι → List α) :
    (l.map g).flatten.length = (l.map fun i => (g i).length).sum := by
  simp [List.length_flatten, Function.comp_def]

end Maps

end Blocks
