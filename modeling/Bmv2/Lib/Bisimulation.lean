import Mathlib.Data.List.Forall2

/-! Step functions that may abort, on states that their answers do not tell apart. -/
namespace Bisimulation

variable {α β γ δ σ τ ρ : Type*}

/-- Both computations abort, or both return and the results are related. -/
inductive Related (R : α → β → Prop) : Option α → Option β → Prop
  | none : Related R none none
  | some {a : α} {b : β} (h : R a b) : Related R (some a) (some b)

/-- The same answer, and related states after it. -/
def Answers (R : σ → τ → Prop) (p : ρ × σ) (q : ρ × τ) : Prop := p.1 = q.1 ∧ R p.2 q.2

namespace Related

variable {P : α → β → Prop} {R : γ → δ → Prop} {x : Option α} {y : Option β}

theorem refl (x : Option α) : Related Eq x x := by
  cases x with
  | none => exact .none
  | some a => exact .some rfl

theorem eq {x y : Option α} (h : Related Eq x y) : x = y := by
  cases h with
  | none => rfl
  | some h => exact congrArg Option.some h

theorem bind {f : α → Option γ} {g : β → Option δ} (h : Related P x y)
    (hfg : ∀ a b, P a b → Related R (f a) (g b)) : Related R (x.bind f) (y.bind g) := by
  cases h with
  | none => exact .none
  | some hab => exact hfg _ _ hab

/-- The rest may depend on what the first step on the left has returned. -/
theorem bind_of_eq {f : α → Option γ} {g : β → Option δ} (h : Related P x y)
    (hfg : ∀ a b, x = Option.some a → P a b → Related R (f a) (g b)) :
    Related R (x.bind f) (y.bind g) := by
  cases h with
  | none => exact .none
  | some hab => exact hfg _ _ rfl hab

/-- Two computations that are related to a third one. -/
theorem join {Q : α → γ → Prop} {z : Option γ} (h : Related P x y) (h' : Related Q x z) :
    Related (fun b c => ∃ a, P a b ∧ Q a c) y z := by
  cases h with
  | none =>
    cases h'
    exact .none
  | some hab =>
    cases h' with
    | some hac => exact .some ⟨_, hab, hac⟩

theorem imp_of_eq {Q : α → β → Prop} (h : Related P x y)
    (hq : ∀ a b, x = Option.some a → P a b → Q a b) : Related Q x y := by
  cases h with
  | none => exact .none
  | some hab => exact .some (hq _ _ rfl hab)

/-- The same first step on both sides. -/
theorem same (x : Option α) {f : α → Option γ} {g : α → Option δ}
    (hfg : ∀ a, x = Option.some a → Related R (f a) (g a)) : Related R (x.bind f) (x.bind g) := by
  cases x with
  | none => exact .none
  | some a => exact hfg a rfl

theorem map {f : α → γ} {g : β → δ} (h : Related P x y) (hfg : ∀ a b, P a b → R (f a) (g b)) :
    Related R (x.map f) (y.map g) := by
  cases h with
  | none => exact .none
  | some hab => exact .some (hfg _ _ hab)

/-- Translated answers. -/
theorem reply {ρ' : Type*} {Q : σ → τ → Prop} {x : Option (ρ × σ)} {y : Option (ρ × τ)} (g : ρ → ρ')
    (h : Related (Answers Q) x y) :
    Related (Answers Q) (x.map fun (r, s) => (g r, s)) (y.map fun (r, s) => (g r, s)) :=
  h.map fun _ _ hpq => ⟨congrArg g hpq.1, hpq.2⟩

theorem ite {c : Prop} [Decidable c] {x' : Option α} {y' : Option β} (ht : c → Related P x y)
    (he : ¬ c → Related P x' y') :
    Related P (if c then x else x') (if c then y else y') := by
  by_cases h : c
  · simp only [h, ↓reduceIte]
    exact ht h
  · simp only [h, ↓reduceIte]
    exact he h

theorem getElem? {l : List α} {l' : List β} (h : List.Forall₂ P l l') (i : ℕ) :
    Related P l[i]? l'[i]? := by
  induction h generalizing i with
  | nil => exact .none
  | cons hab _ ih =>
    cases i with
    | zero => exact .some hab
    | succ i => exact ih i

/-- Lists of one length have elements at the same places. -/
theorem of_length_eq {l : List α} {l' : List β} (h : l.length = l'.length) (i : ℕ) :
    Related (fun a b => l[i]? = Option.some a ∧ l'[i]? = Option.some b) l[i]? l'[i]? := by
  by_cases hi : i < l.length
  · rw [List.getElem?_eq_getElem hi, List.getElem?_eq_getElem (h ▸ hi)]
    exact .some ⟨rfl, rfl⟩
  · rw [List.getElem?_eq_none (Nat.le_of_not_lt hi),
      List.getElem?_eq_none (h ▸ Nat.le_of_not_lt hi)]
    exact .none

theorem of_map_eq {x y : Option α} {f : α → γ} (h : x.map f = y.map f) :
    Related (fun a b => x = Option.some a ∧ y = Option.some b ∧ f a = f b) x y := by
  cases x with
  | none =>
    cases y with
    | none => exact .none
    | some b => cases h
  | some a =>
    cases y with
    | none => cases h
    | some b => exact .some ⟨rfl, rfl, Option.some.inj h⟩

end Related

theorem forall₂_set {R : α → β → Prop} {l : List α} {l' : List β} (h : List.Forall₂ R l l') {a : α}
    {b : β} (hab : R a b) (i : ℕ) : List.Forall₂ R (l.set i a) (l'.set i b) := by
  induction h generalizing i with
  | nil => exact .nil
  | cons hcd hrest ih =>
    cases i with
    | zero => exact .cons hab hrest
    | succ i => exact .cons hcd (ih i)

/-- A new element on one side. -/
theorem forall₂_set_right {R : α → β → Prop} {l : List α} {l' : List β} (h : List.Forall₂ R l l')
    {b : β} {i : ℕ} (hb : ∀ a, l[i]? = some a → R a b) : List.Forall₂ R l (l'.set i b) := by
  induction h generalizing i with
  | nil => exact .nil
  | cons hcd hrest ih =>
    cases i with
    | zero => exact .cons (hb _ rfl) hrest
    | succ i => exact .cons hcd (ih fun a ha => hb a ha)

/-- What a list of calls answers; nothing follows an abort. -/
def outputs (step : σ → α → Option (ρ × σ)) : σ → List α → List (Option ρ)
  | _, [] => []
  | s, a :: l =>
    match step s a with
    | none => [none]
    | some (r, s') => some r :: outputs step s' l

theorem outputs_singleton (step : σ → α → Option (ρ × σ)) (s : σ) (a : α) :
    outputs step s [a] = [(step s a).map Prod.fst] := by
  unfold outputs
  cases step s a with
  | none => rfl
  | some p => rfl

/-- Every call of a run meets `ok` in the state it starts from. -/
def Along (step : σ → α → Option (ρ × σ)) (ok : σ → α → Prop) : σ → List α → Prop
  | _, [] => True
  | s, a :: l => ok s a ∧ ∀ r s', step s a = some (r, s') → Along step ok s' l

theorem Along.of_forall {step : σ → α → Option (ρ × σ)} {ok : σ → α → Prop} {l : List α}
    (h : ∀ s, ∀ a ∈ l, ok s a) (s : σ) : Along step ok s l := by
  induction l generalizing s with
  | nil => trivial
  | cons a l ih =>
    exact ⟨h s a List.mem_cons_self, fun r s' _ =>
      ih (fun s b hb => h s b (List.mem_cons_of_mem a hb)) s'⟩

/-- Related states answer every run alike, if every call of it relates them again. -/
theorem outputs_eq_along {step : σ → α → Option (ρ × σ)} {step' : τ → α → Option (ρ × τ)}
    (R : σ → τ → Prop) (ok : σ → α → Prop)
    (hstep : ∀ s t a, R s t → ok s a → Related (Answers R) (step s a) (step' t a)) {s : σ} {t : τ}
    (h : R s t) {l : List α} (hl : Along step ok s l) : outputs step s l = outputs step' t l := by
  induction l generalizing s t with
  | nil => rfl
  | cons a l ih =>
    have hrel := hstep s t a h hl.1
    have hrest := hl.2
    unfold outputs
    generalize step s a = x at hrel hrest
    generalize step' t a = y at hrel
    cases hrel with
    | none => rfl
    | @some p q hpq =>
      obtain ⟨hr, hR⟩ := hpq
      have htail := ih hR (hrest p.1 p.2 rfl)
      exact congrArg₂ (fun r l => some r :: l) hr htail

/-- Related states answer every list of calls alike, if every call relates them again. -/
theorem outputs_eq {step : σ → α → Option (ρ × σ)} {step' : τ → α → Option (ρ × τ)}
    (R : σ → τ → Prop) (ok : α → Prop)
    (hstep : ∀ s t a, R s t → ok a → Related (Answers R) (step s a) (step' t a)) {s : σ} {t : τ}
    (h : R s t) {l : List α} (hl : ∀ a ∈ l, ok a) : outputs step s l = outputs step' t l :=
  outputs_eq_along R (fun _ => ok) hstep h (.of_forall (fun _ => hl) s)

end Bisimulation
