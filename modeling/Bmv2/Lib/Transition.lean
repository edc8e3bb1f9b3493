import Mathlib.Logic.Basic

/-! Step functions that may abort, and what holds along every finite run of them. -/
namespace Transition

variable {σ α ρ : Type*}

/-- The states reached from `init` by calls that meet `ok` in the state they start
from. A call that aborts (`none`) has no state after it. -/
inductive Reach (step : σ → α → Option (ρ × σ)) (ok : σ → α → Prop) (init : σ) : σ → Prop
  | refl : Reach step ok init init
  | tail {s s' : σ} {a : α} {r : ρ} : Reach step ok init s → ok s a →
      step s a = some (r, s') → Reach step ok init s'

variable {step : σ → α → Option (ρ × σ)} {ok : σ → α → Prop} {init s : σ}

/-- What holds initially and is kept by every allowed call holds along every run. -/
theorem Reach.invariant (Inv : σ → Prop) (h0 : Inv init)
    (hstep : ∀ s a r s', Inv s → ok s a → step s a = some (r, s') → Inv s')
    (h : Reach step ok init s) : Inv s := by
  induction h with
  | refl => exact h0
  | tail _ hok hs ih => exact hstep _ _ _ _ ih hok hs

/-- A step that does not abort leads on. -/
theorem Reach.get {a : α} (h : Reach step ok init s) (hok : ok s a) (hs : (step s a).isSome) :
    Reach step ok init ((step s a).get hs).2 :=
  .tail h hok (Option.some_get hs).symm

theorem Reach.head {s s' s'' : σ} {a : α} {r : ρ} (hok : ok s a) (hs : step s a = some (r, s'))
    (h : Reach step ok s' s'') : Reach step ok s s'' := by
  induction h with
  | refl => exact .tail .refl hok hs
  | tail _ hok' hs' ih => exact .tail ih hok' hs'

/-- A system whose steps are steps of another has its runs among the other's. -/
theorem Reach.map {σ' α' : Type*} {step' : σ' → α' → Option (ρ × σ')} {ok' : σ' → α' → Prop}
    (f : σ → σ') (g : α → α') (hok : ∀ s a, ok s a → ok' (f s) (g a))
    (hstep : ∀ s a r s', step s a = some (r, s') → step' (f s) (g a) = some (r, f s'))
    (h : Reach step ok init s) : Reach step' ok' (f init) (f s) := by
  induction h with
  | refl => exact .refl
  | tail _ ha hs ih => exact .tail ih (hok _ _ ha) (hstep _ _ _ _ hs)

/-- The state after a list of calls, if each meets `ok` and none aborts. -/
def runAll (step : σ → α → Option (ρ × σ)) (ok : σ → α → Prop) [∀ s a, Decidable (ok s a)]
    (s : σ) : List α → Option σ
  | [] => some s
  | a :: l => if ok s a then (step s a).bind fun p => runAll step ok p.2 l else none

theorem Reach.of_runAll [∀ s a, Decidable (ok s a)] {l : List α}
    (h : runAll step ok init l = some s) : Reach step ok init s := by
  induction l generalizing init with
  | nil =>
    obtain rfl : init = s := by simpa [runAll] using h
    exact .refl
  | cons a l ih =>
    by_cases hok : ok init a
    · rw [runAll, if_pos hok] at h
      obtain ⟨⟨r, s'⟩, hs, hl⟩ := Option.bind_eq_some_iff.mp h
      exact .head hok hs (ih hl)
    · simp [runAll, hok] at h

/-- Two runs side by side: they take the calls that `both` names together, and each of them takes
calls that `alone` names when it likes. -/
inductive Pair (step : σ → α → Option (ρ × σ)) (both alone : α → Prop) (s t : σ) : σ → σ → Prop
  | refl : Pair step both alone s t s t
  | both {s₁ t₁ s₂ t₂ : σ} {a : α} {r r' : ρ} : Pair step both alone s t s₁ t₁ → both a →
      step s₁ a = some (r, s₂) → step t₁ a = some (r', t₂) → Pair step both alone s t s₂ t₂
  | left {s₁ t₁ s₂ : σ} {a : α} {r : ρ} : Pair step both alone s t s₁ t₁ → alone a →
      step s₁ a = some (r, s₂) → Pair step both alone s t s₂ t₁
  | right {s₁ t₁ t₂ : σ} {a : α} {r : ρ} : Pair step both alone s t s₁ t₁ → alone a →
      step t₁ a = some (r, t₂) → Pair step both alone s t s₁ t₂

/-- What holds of two states initially, and is kept by the calls taken together and by those taken
alone, holds of the states that two runs reach. -/
theorem Pair.invariant {both alone : α → Prop} {s t s' t' : σ} (Inv : σ → σ → Prop)
    (h0 : Inv s t)
    (hboth : ∀ s t a r r' s' t', Inv s t → both a → step s a = some (r, s') →
      step t a = some (r', t') → Inv s' t')
    (hleft : ∀ s t a r s', Inv s t → alone a → step s a = some (r, s') → Inv s' t)
    (hright : ∀ s t a r t', Inv s t → alone a → step t a = some (r, t') → Inv s t')
    (h : Pair step both alone s t s' t') : Inv s' t' := by
  induction h with
  | refl => exact h0
  | both _ ha hs ht ih => exact hboth _ _ _ _ _ _ _ ih ha hs ht
  | left _ ha hs ih => exact hleft _ _ _ _ _ ih ha hs
  | right _ ha ht ih => exact hright _ _ _ _ _ ih ha ht

/-- A run, with its calls and what they answer. -/
inductive Run (step : σ → α → Option (ρ × σ)) (ok : σ → α → Prop) : σ → List (α × ρ) → σ → Prop
  | nil (s : σ) : Run step ok s [] s
  | cons {s s' s'' : σ} {a : α} {r : ρ} {l : List (α × ρ)} (hok : ok s a)
      (hs : step s a = some (r, s')) (h : Run step ok s' l s'') : Run step ok s ((a, r) :: l) s''

namespace Run

variable {s' : σ} {l : List (α × ρ)}

/-- What is kept by every call of a kind holds along the runs that are made of such calls. -/
theorem invariant (Inv : σ → Prop) (P : α × ρ → Prop)
    (hstep : ∀ s a r s', Inv s → ok s a → step s a = some (r, s') → P (a, r) → Inv s')
    (h : Run step ok s l s') (h0 : Inv s) (hl : ∀ p ∈ l, P p) : Inv s' := by
  induction h with
  | nil => exact h0
  | cons hok hs _ ih =>
    obtain ⟨hp, hrest⟩ := List.forall_mem_cons.mp hl
    exact ih (hstep _ _ _ _ h0 hok hs hp) hrest

/-- The answers along a run of which each state has an invariant. -/
theorem answers {Inv : σ → Prop} {P : α × ρ → Prop}
    (hstep : ∀ s a r s', Inv s → ok s a → step s a = some (r, s') → Inv s' ∧ P (a, r))
    (h : Run step ok s l s') (h0 : Inv s) : ∀ p ∈ l, P p := by
  induction h with
  | nil => exact fun p hp => nomatch hp
  | cons hok hs _ ih =>
    obtain ⟨hinv, hp⟩ := hstep _ _ _ _ h0 hok hs
    exact List.forall_mem_cons.mpr ⟨hp, ih hinv⟩

/-- What each call keeps with itself added to the history holds of the whole run. -/
theorem history {Inv : List (α × ρ) → σ → Prop}
    (hstep : ∀ H s a r s', Inv H s → ok s a → step s a = some (r, s') → Inv (H ++ [(a, r)]) s')
    (h : Run step ok s l s') {H : List (α × ρ)} (h0 : Inv H s) : Inv (H ++ l) s' := by
  induction h generalizing H with
  | nil => rwa [List.append_nil]
  | cons hok hs _ ih =>
    rw [List.append_cons]
    exact ih (hstep _ _ _ _ _ h0 hok hs)

/-- What the calls of a list answer, if each meets `ok` and none aborts. -/
def record (step : σ → α → Option (ρ × σ)) (ok : σ → α → Prop) [∀ s a, Decidable (ok s a)]
    (s : σ) : List α → Option (List (α × ρ) × σ)
  | [] => some ([], s)
  | a :: l =>
    if ok s a then
      (step s a).bind fun p => (record step ok p.2 l).map fun q => ((a, p.1) :: q.1, q.2)
    else none

theorem of_record [∀ s a, Decidable (ok s a)] {calls : List α}
    (h : record step ok s calls = some (l, s')) : Run step ok s l s' := by
  induction calls generalizing s l with
  | nil =>
    obtain ⟨rfl, rfl⟩ := Prod.mk.inj (Option.some.inj h)
    exact .nil s
  | cons a calls ih =>
    by_cases hok : ok s a
    · rw [record, if_pos hok] at h
      obtain ⟨⟨r, s₁⟩, hs, h⟩ := Option.bind_eq_some_iff.mp h
      obtain ⟨⟨rest, s₂⟩, hrest, heq⟩ := Option.map_eq_some_iff.mp h
      obtain ⟨rfl, rfl⟩ := Prod.mk.inj heq
      exact .cons hok hs (ih hrest)
    · simp [record, hok] at h

end Run

end Transition
