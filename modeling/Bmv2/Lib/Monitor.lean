import Mathlib.Data.List.Perm.Basic
import Mathlib.Tactic.Common

/-! Threads under a mutex: a list of thread states, and condition variables as the set of the
threads whose state says that they wait. -/
namespace Monitor

variable {τ : Type} {threads threads' : List τ}

/-- `notify_one`: `wake` maps the state of a waiter to its state once woken and is `none` for
the others. Which waiter is woken is open; without waiters the notification is lost. -/
def notifyOne (wake : τ → Option τ) (threads : List τ) : Option ℕ → Option (List τ)
  | some j => (threads[j]?.bind wake).map fun t => threads.set j t
  | none => if ∀ t ∈ threads, wake t = none then some threads else none

/-- A notification wakes one waiter, or nobody waits. -/
theorem notifyOne_cases {wake : τ → Option τ} {target : Option ℕ}
    (h : notifyOne wake threads target = some threads') :
    (threads' = threads ∧ ∀ t ∈ threads, wake t = none) ∨
      ∃ (j : ℕ) (t t' : τ), threads[j]? = some t ∧ wake t = some t' ∧
        threads' = threads.set j t' := by
  cases target with
  | some j =>
    obtain ⟨t', hbind, rfl⟩ := Option.map_eq_some_iff.mp h
    obtain ⟨t, ht, hwake⟩ := Option.bind_eq_some_iff.mp hbind
    exact .inr ⟨j, t, t', ht, hwake, rfl⟩
  | none =>
    unfold notifyOne at h
    split_ifs at h with hnone
    cases h
    exact .inl ⟨rfl, hnone⟩

/-- The number of threads in a state that `P` describes. -/
def count (P : τ → Bool) (threads : List τ) : ℕ := threads.countP P

/-- A thread that moves on leaves one count and enters another. -/
theorem count_set {i : ℕ} {t : τ} (h : threads[i]? = some t) (P : τ → Bool) (t' : τ) :
    count P (threads.set i t') + (P t).toNat = count P threads + (P t').toNat := by
  obtain ⟨hlt, rfl⟩ := List.getElem?_eq_some_iff.mp h
  unfold count
  rw [List.countP_set hlt]
  have hpos : P threads[i] = true → 0 < threads.countP P := fun hP =>
    List.countP_pos_iff.mpr ⟨_, List.getElem_mem hlt, hP⟩
  cases hP : P threads[i] <;> cases P t' <;> simp_all

/-- At most one thread stays counted when a thread only enters the count if it was counted or no
thread was. -/
theorem count_set_le_one {i : ℕ} {t t' : τ} {P : τ → Bool} (h : threads[i]? = some t)
    (hone : count P threads ≤ 1)
    (henter : P t' = true → P t = true ∨ ∀ x ∈ threads, ¬ P x = true) :
    count P (threads.set i t') ≤ 1 := by
  have hcount := count_set h P t'
  by_cases ht' : P t' = true
  · rcases henter ht' with ht | hnone
    · rw [ht, ht'] at hcount
      omega
    · have hzero : count P threads = 0 := List.countP_eq_zero.mpr hnone
      have htoNat := Bool.toNat_le (P t')
      omega
  · rw [Bool.eq_false_iff.mpr ht', Bool.toNat_false] at hcount
    omega

/-- What leaves a list leaves its counts. -/
theorem count_eraseIdx {i : ℕ} {t : τ} (h : threads[i]? = some t) (P : τ → Bool) :
    count P (threads.eraseIdx i) + (P t).toNat = count P threads := by
  obtain ⟨hlt, rfl⟩ := List.getElem?_eq_some_iff.mp h
  unfold count
  rw [← (List.getElem_cons_eraseIdx_perm hlt).countP_eq P, List.countP_cons]
  cases P threads[i] <;> rfl

theorem count_pos {P : τ → Bool} {i : ℕ} {t : τ} (h : threads[i]? = some t) (hP : P t = true) :
    0 < count P threads :=
  List.countP_pos_iff.mpr ⟨t, List.mem_of_getElem? h, hP⟩

/-- Where at most one thread is counted, two that are counted are the same. -/
theorem eq_of_count_le_one {P : τ → Bool} {i j : ℕ} {t u : τ} (h : count P threads ≤ 1)
    (hi : threads[i]? = some t) (hj : threads[j]? = some u) (ht : P t = true) (hu : P u = true) :
    i = j := by
  by_contra hne
  have herase := count_eraseIdx hi P
  have hpos : 0 < count P (threads.eraseIdx i) := by
    apply List.countP_pos_iff.mpr
    exact ⟨u, List.mem_eraseIdx_iff_getElem?.mpr ⟨j, Ne.symm hne, hj⟩, hu⟩
  rw [ht, Bool.toNat_true] at herase
  omega

theorem exists_of_count_pos {P : τ → Bool} (h : 0 < count P threads) :
    ∃ (i : ℕ) (t : τ), threads[i]? = some t ∧ P t = true := by
  obtain ⟨t, ht, hP⟩ := List.countP_pos_iff.mp h
  obtain ⟨i, hi⟩ := List.mem_iff_getElem?.mp ht
  exact ⟨i, t, hi, hP⟩

/-- No thread is counted where all are in one state that is not. -/
theorem not_count_pos_replicate {P : τ → Bool} {t : τ} (hP : P t = false) (n : ℕ) :
    ¬ 0 < count P (List.replicate n t) := by
  simp [count, List.countP_replicate, hP]

/-- How one notification moves the counts: `W` describes the waiters and `N` the woken. -/
theorem notifyOne_count {wake : τ → Option τ} {target : Option ℕ} {W N : τ → Bool}
    (hW : ∀ t t', wake t = some t' → W t = true ∧ W t' = false ∧ N t = false ∧ N t' = true)
    (hnone : ∀ t, wake t = none → W t = false)
    (h : notifyOne wake threads target = some threads') :
    (count W threads' = 0 ∧ count N threads' = count N threads) ∨
      (count W threads' + 1 = count W threads ∧ count N threads' = count N threads + 1) := by
  obtain ⟨rfl, hall⟩ | ⟨j, t, t', ht, hwake, rfl⟩ := notifyOne_cases h
  · refine .inl ⟨?_, rfl⟩
    exact List.countP_eq_zero.mpr fun t ht => by simp [hnone t (hall t ht)]
  · obtain ⟨h1, h2, h3, h4⟩ := hW t t' hwake
    have hw := count_set ht W t'
    have hn := count_set ht N t'
    rw [h1, h2] at hw
    rw [h3, h4] at hn
    exact .inr ⟨hw, by simpa using hn⟩

/-- A notification leaves the counts that its waiters and the woken share. -/
theorem notifyOne_count_same {wake : τ → Option τ} {target : Option ℕ} {P : τ → Bool}
    (hP : ∀ t t', wake t = some t' → P t' = P t)
    (h : notifyOne wake threads target = some threads') : count P threads' = count P threads := by
  obtain ⟨rfl, -⟩ | ⟨j, t, t', ht, hwake, rfl⟩ := notifyOne_cases h
  · rfl
  · have hc := count_set ht P t'
    rw [hP t t' hwake] at hc
    omega

end Monitor
