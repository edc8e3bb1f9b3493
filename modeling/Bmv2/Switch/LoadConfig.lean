import Mathlib.Data.Int.Basic
import Mathlib.Tactic.Common
import Bmv2.Lib.Transition

/-! Loading a configuration into all contexts of a switch, and swapping it in (`context.cpp`,
`switch.cpp`). -/
namespace Bmv2

inductive ErrorCode where
  | success | configSwapDisabled | ongoingSwap | noOngoingSwap
  deriving DecidableEq

/-- The objects of a configuration: which ones they are in their context, the configuration that
`init_objects` read, and whether it returned zero. -/
structure ConfigObjects (γ : Type) where
  ident : ℕ
  config : γ
  initialized : Bool
  deriving DecidableEq

/-- A context. The two pointers may be equal. -/
structure ConfigContext (γ : Type) where
  p4objects : ConfigObjects γ
  p4objectsRt : ConfigObjects γ
  swapOrdered : Bool := false
  aliased : p4objects.ident = p4objectsRt.ident → p4objects = p4objectsRt

structure ConfigSwitch (γ : Type) where
  enableSwap : Bool
  contexts : List (ConfigContext γ)
  currentConfig : γ

variable {γ : Type} (initObjects : ℕ → γ → ℤ)

namespace ConfigContext

variable (c : ConfigContext γ)

/-- The pointers differ. -/
def Ongoing : Prop := c.p4objects.ident ≠ c.p4objectsRt.ident

instance : Decidable c.Ongoing := inferInstanceAs (Decidable (_ ≠ _))

/-- `Context::load_new_config`, which does not look at what `init_objects` returns. -/
def loadNewConfig (cxtId : ℕ) (newConfig : γ) : ErrorCode × ConfigContext γ :=
  if c.Ongoing then (.ongoingSwap, c)
  else (.success,
    { c with
      p4objectsRt :=
        ⟨c.p4objects.ident + 1, newConfig, decide (initObjects cxtId newConfig = 0)⟩
      aliased := fun h => absurd h (Nat.succ_ne_self _).symm })

def swapConfigs : ErrorCode × ConfigContext γ :=
  if c.Ongoing then (.success, { c with swapOrdered := true }) else (.noOngoingSwap, c)

def doSwap : ConfigContext γ :=
  if c.swapOrdered then ⟨c.p4objectsRt, c.p4objectsRt, false, fun _ => rfl⟩ else c

end ConfigContext

/-- The loops over the contexts, which stop at the first error. -/
def forContexts (f : ℕ → ConfigContext γ → ErrorCode × ConfigContext γ) :
    ℕ → List (ConfigContext γ) → ErrorCode × List (ConfigContext γ)
  | _, [] => (.success, [])
  | cxtId, c :: contexts =>
    match f cxtId c with
    | (.success, c) =>
      let (rc, contexts) := forContexts f (cxtId + 1) contexts
      (rc, c :: contexts)
    | (rc, c) => (rc, c :: contexts)

namespace ConfigSwitch

variable (s : ConfigSwitch γ)

def loadNewConfig (newConfig : γ) : ErrorCode × ConfigSwitch γ :=
  if s.enableSwap then
    match forContexts (fun cxtId c => c.loadNewConfig initObjects cxtId newConfig) 0 s.contexts with
    | (.success, contexts) => (.success, { s with contexts, currentConfig := newConfig })
    | (rc, contexts) => (rc, { s with contexts })
  else (.configSwapDisabled, s)

def swapConfigs : ErrorCode × ConfigSwitch γ :=
  if s.enableSwap then
    let (rc, contexts) := forContexts (fun _ c => c.swapConfigs) 0 s.contexts
    (rc, { s with contexts })
  else (.configSwapDisabled, s)

/-- `do_swap`, when the contexts have no packets. -/
def doSwap : ConfigSwitch γ :=
  if s.enableSwap then { s with contexts := s.contexts.map ConfigContext.doSwap } else s

end ConfigSwitch

inductive ConfigOp (γ : Type) where
  | loadNewConfig (newConfig : γ)
  | swapConfigs
  | doSwap

namespace ConfigSwitch

variable (s : ConfigSwitch γ)

def step : ConfigOp γ → Option (Unit × ConfigSwitch γ)
  | .loadNewConfig newConfig => some ((), (s.loadNewConfig initObjects newConfig).2)
  | .swapConfigs => some ((), s.swapConfigs.2)
  | .doSwap => some ((), s.doSwap)

/-- Loading fails in some context. -/
def LoadFails (newConfig : γ) : Prop :=
  ∃ (cxtId : ℕ) (c : ConfigContext γ), s.contexts[cxtId]? = some c ∧
    (initObjects cxtId newConfig ≠ 0 ∨ c.Ongoing)

/-- A load that fails says so and leaves everything as it was. -/
def AtomicLoad (newConfig : γ) : Prop :=
  s.LoadFails initObjects newConfig →
    (s.loadNewConfig initObjects newConfig).1 ≠ .success ∧
      (s.loadNewConfig initObjects newConfig).2.contexts.map
          (fun c => (c.p4objects, c.p4objectsRt)) =
        s.contexts.map (fun c => (c.p4objects, c.p4objectsRt)) ∧
      (s.loadNewConfig initObjects newConfig).2.currentConfig = s.currentConfig

/-- All contexts run the same configuration or a swap is pending, and no context runs a
configuration whose loading failed. -/
structure Consistent : Prop where
  same : (∀ c ∈ s.contexts, ∀ c' ∈ s.contexts, c.p4objects.config = c'.p4objects.config) ∨
    ∃ c ∈ s.contexts, c.Ongoing
  initialized : ∀ c ∈ s.contexts, c.p4objects.initialized = true

/-- Swaps are disabled, or the first context has an ongoing swap, or nothing fails. -/
def LoadsCleanly (newConfig : γ) : Prop :=
  s.enableSwap = true → (∃ c ∈ s.contexts.head?, c.Ongoing) ∨ ¬ s.LoadFails initObjects newConfig

def Keeps : ConfigOp γ → Prop
  | .loadNewConfig newConfig => s.LoadsCleanly initObjects newConfig
  | _ => True

variable {s}

theorem loadNewConfig_contexts (henable : s.enableSwap = true) (newConfig : γ) :
    (s.loadNewConfig initObjects newConfig).2.contexts = (forContexts
      (fun cxtId c => c.loadNewConfig initObjects cxtId newConfig) 0 s.contexts).2 := by
  unfold loadNewConfig
  rw [if_pos henable]
  split <;> rename_i hall <;> rw [hall]

/-- An ongoing swap in the first context stops the load before it changes anything. -/
theorem loadNewConfig_of_ongoing {c : ConfigContext γ} (hc : c ∈ s.contexts.head?)
    (h : c.Ongoing) (henable : s.enableSwap = true) (newConfig : γ) :
    s.loadNewConfig initObjects newConfig = (.ongoingSwap, s) := by
  obtain ⟨enableSwap, contexts, currentConfig⟩ := s
  cases contexts with
  | nil => cases hc
  | cons c' contexts =>
    obtain rfl : c' = c := Option.some.inj hc
    simp only at henable
    simp [loadNewConfig, forContexts, ConfigContext.loadNewConfig, h, henable]

/-- Otherwise the first context gets new objects. -/
theorem loadNewConfig_changes {c : ConfigContext γ} (hc : c ∈ s.contexts.head?)
    (h : ¬ c.Ongoing) (henable : s.enableSwap = true) (newConfig : γ) :
    (s.loadNewConfig initObjects newConfig).2.contexts.map
        (fun c => (c.p4objects, c.p4objectsRt)) ≠
      s.contexts.map (fun c => (c.p4objects, c.p4objectsRt)) := by
  rw [loadNewConfig_contexts initObjects henable]
  cases hcontexts : s.contexts with
  | nil =>
    rw [hcontexts] at hc
    cases hc
  | cons c' contexts =>
    rw [hcontexts] at hc
    obtain rfl : c' = c := Option.some.inj hc
    intro heq
    have hhead := congrArg List.head? heq
    simp only [forContexts, ConfigContext.loadNewConfig, h, if_false, List.map_cons,
      List.head?_cons, Option.some.injEq, Prod.mk.injEq, true_and] at hhead
    have hident : c'.p4objects.ident + 1 = c'.p4objectsRt.ident :=
      congrArg ConfigObjects.ident hhead
    have hsame : c'.p4objects.ident = c'.p4objectsRt.ident := not_not.mp h
    omega

theorem atomicLoad_iff (newConfig : γ) :
    s.AtomicLoad initObjects newConfig ↔ s.LoadsCleanly initObjects newConfig := by
  constructor
  · intro hatomic henable
    by_contra hcontra
    push Not at hcontra
    obtain ⟨hhead, hfails⟩ := hcontra
    obtain ⟨-, hsame, -⟩ := hatomic hfails
    obtain ⟨cxtId, c, hc, -⟩ := hfails
    cases hcontexts : s.contexts with
    | nil =>
      rw [hcontexts] at hc
      cases hc
    | cons c' contexts =>
      have hc' : c' ∈ s.contexts.head? := by rw [hcontexts]; rfl
      exact loadNewConfig_changes initObjects hc' (hhead c' hc') henable newConfig hsame
  · intro hclean hfails
    by_cases henable : s.enableSwap = true
    · rcases hclean henable with ⟨c, hc, hongoing⟩ | hnot
      · rw [loadNewConfig_of_ongoing initObjects hc hongoing henable]
        exact ⟨nofun, rfl, rfl⟩
      · exact absurd hfails hnot
    · rw [loadNewConfig, if_neg henable]
      exact ⟨nofun, rfl, rfl⟩

/-- All contexts are in the same state, and both of its configurations were loaded. -/
def Lockstep (s : ConfigSwitch γ) : Prop :=
  ∃ c₀ : ConfigContext γ, c₀.p4objects.initialized = true ∧ c₀.p4objectsRt.initialized = true ∧
    ∀ c ∈ s.contexts, c = c₀

theorem Lockstep.consistent (h : s.Lockstep) : s.Consistent := by
  obtain ⟨c₀, hinit, -, hall⟩ := h
  constructor
  · refine .inl fun c hc c' hc' => ?_
    rw [hall c hc, hall c' hc']
  · intro c hc
    rw [hall c hc]
    exact hinit

/-- A loop that succeeds, and does the same, in each of equal contexts. -/
theorem forContexts_success {f : ℕ → ConfigContext γ → ErrorCode × ConfigContext γ}
    {c c' : ConfigContext γ} {cxtId : ℕ} {contexts : List (ConfigContext γ)}
    (hall : ∀ x ∈ contexts, x = c)
    (hf : ∀ i < contexts.length, f (cxtId + i) c = (.success, c')) :
    ∀ x ∈ (forContexts f cxtId contexts).2, x = c' := by
  induction contexts generalizing cxtId with
  | nil => exact fun x hx => nomatch hx
  | cons x contexts ih =>
    have hx : x = c := hall x List.mem_cons_self
    have hhead : f cxtId c = (.success, c') := hf 0 (Nat.zero_lt_succ _)
    have htail : ∀ y ∈ (forContexts f (cxtId + 1) contexts).2, y = c' := by
      apply ih fun y hy => hall y (List.mem_cons_of_mem _ hy)
      intro i hi
      rw [Nat.add_assoc, Nat.add_comm 1 i]
      exact hf (i + 1) (Nat.succ_lt_succ hi)
    simp only [forContexts, hx, hhead]
    exact List.forall_mem_cons.mpr ⟨rfl, htail⟩

/-- A loop that fails in the first of the contexts, which it leaves alone. -/
theorem forContexts_failure {f : ℕ → ConfigContext γ → ErrorCode × ConfigContext γ}
    {c : ConfigContext γ} {rc : ErrorCode} {cxtId : ℕ} {contexts : List (ConfigContext γ)}
    (hc : c ∈ contexts.head?) (hf : f cxtId c = (rc, c)) (hrc : rc ≠ .success) :
    forContexts f cxtId contexts = (rc, contexts) := by
  cases contexts with
  | nil => cases hc
  | cons c' contexts =>
    obtain rfl : c' = c := Option.some.inj hc
    simp only [forContexts, hf]

/-- What a clean load does to contexts in the same state. -/
theorem Lockstep.load (h : s.Lockstep) {newConfig : γ}
    (hclean : s.LoadsCleanly initObjects newConfig) :
    (s.loadNewConfig initObjects newConfig).2.Lockstep := by
  by_cases henable : s.enableSwap = true
  · rcases hclean henable with ⟨c, hc, hongoing⟩ | hnot
    · rw [loadNewConfig_of_ongoing initObjects hc hongoing henable]
      exact h
    · obtain ⟨c₀, hinit, hrt, hall⟩ := h
      cases hcontexts : s.contexts with
      | nil =>
        refine ⟨c₀, hinit, hrt, ?_⟩
        rw [loadNewConfig_contexts initObjects henable, hcontexts]
        exact fun x hx => nomatch hx
      | cons c contexts =>
        have hsettled : ∀ i < s.contexts.length,
            ¬ c₀.Ongoing ∧ initObjects i newConfig = 0 := by
          intro i hi
          have hi' : s.contexts[i]? = some c₀ := by
            rw [List.getElem?_eq_getElem hi, hall _ (List.getElem_mem hi)]
          constructor
          · exact fun hongoing => hnot ⟨i, c₀, hi', .inr hongoing⟩
          · by_contra hstatus
            exact hnot ⟨i, c₀, hi', .inl hstatus⟩
        have hnotOngoing := (hsettled 0 (by rw [hcontexts]; exact Nat.zero_lt_succ _)).1
        refine ⟨{ c₀ with
          p4objectsRt := ⟨c₀.p4objects.ident + 1, newConfig, true⟩
          aliased := fun h => absurd h (Nat.succ_ne_self _).symm }, hinit, rfl, ?_⟩
        rw [loadNewConfig_contexts initObjects henable]
        apply forContexts_success hall
        intro i hi
        have hstatus := (hsettled i hi).2
        simp [ConfigContext.loadNewConfig, hnotOngoing, hstatus]
  · rw [loadNewConfig, if_neg henable]
    exact h

theorem Lockstep.swapConfigs (h : s.Lockstep) : s.swapConfigs.2.Lockstep := by
  unfold ConfigSwitch.swapConfigs
  split_ifs with henable
  · obtain ⟨c₀, hinit, hrt, hall⟩ := h
    by_cases hongoing : c₀.Ongoing
    · refine ⟨{ c₀ with swapOrdered := true }, hinit, hrt, ?_⟩
      apply forContexts_success hall
      intro i hi
      simp only [ConfigContext.swapConfigs, hongoing, if_true]
    · cases hcontexts : s.contexts with
      | nil => exact ⟨c₀, hinit, hrt, fun x hx => nomatch hx⟩
      | cons c contexts =>
        have hc : c = c₀ := hall c (by rw [hcontexts]; exact List.mem_cons_self)
        have hloop : forContexts (fun _ c => c.swapConfigs) 0 (c :: contexts) =
            (.noOngoingSwap, c :: contexts) :=
          forContexts_failure rfl (by simp [ConfigContext.swapConfigs, hc, hongoing]) nofun
        rw [hloop, ← hcontexts]
        exact ⟨c₀, hinit, hrt, hall⟩
  · exact h

theorem Lockstep.doSwap (h : s.Lockstep) : s.doSwap.Lockstep := by
  unfold ConfigSwitch.doSwap
  split_ifs with henable
  · obtain ⟨c₀, hinit, hrt, hall⟩ := h
    refine ⟨c₀.doSwap, ?_, ?_, fun c hc => ?_⟩
    · unfold ConfigContext.doSwap
      split_ifs
      · exact hrt
      · exact hinit
    · unfold ConfigContext.doSwap
      split_ifs <;> exact hrt
    · obtain ⟨c', hc', rfl⟩ := List.mem_map.mp hc
      rw [hall c' hc']
  · exact h

/-- A switch that was started with a configuration. -/
def start (enableSwap : Bool) (nbCxts : ℕ) (config : γ) : ConfigSwitch γ where
  enableSwap
  contexts := List.replicate nbCxts ⟨⟨0, config, true⟩, ⟨0, config, true⟩, false, fun _ => rfl⟩
  currentConfig := config

theorem Lockstep.start (enableSwap : Bool) (nbCxts : ℕ) (config : γ) :
    (ConfigSwitch.start enableSwap nbCxts config).Lockstep :=
  ⟨_, rfl, rfl, fun _ hc => List.eq_of_mem_replicate hc⟩

theorem Lockstep.step (h : s.Lockstep) {op : ConfigOp γ} {r : Unit} {s' : ConfigSwitch γ}
    (hkeep : s.Keeps initObjects op) (hs : s.step initObjects op = some (r, s')) :
    s'.Lockstep := by
  cases op with
  | loadNewConfig newConfig =>
    cases hs
    exact h.load initObjects hkeep
  | swapConfigs =>
    cases hs
    exact h.swapConfigs
  | doSwap =>
    cases hs
    exact h.doSwap

end ConfigSwitch

open ConfigSwitch in
/-- A load is atomic if and only if swaps are disabled, the first context has an ongoing swap, or
nothing fails; and in every run with such loads the contexts run the same configuration, or a swap
is pending, and what they run was loaded. -/
theorem config_load_atomic :
    (∀ (s : ConfigSwitch γ) (newConfig : γ),
      s.AtomicLoad initObjects newConfig ↔ s.LoadsCleanly initObjects newConfig) ∧
    ∀ (enableSwap : Bool) (nbCxts : ℕ) (config : γ) (s : ConfigSwitch γ),
      Transition.Reach (ConfigSwitch.step initObjects) (ConfigSwitch.Keeps initObjects)
        (ConfigSwitch.start enableSwap nbCxts config) s → s.Consistent := by
  constructor
  · exact fun s newConfig => atomicLoad_iff initObjects newConfig
  · intro enableSwap nbCxts config s h
    have hlockstep := h.invariant Lockstep (Lockstep.start enableSwap nbCxts config)
      fun _ _ _ _ hlock hkeep hs => hlock.step initObjects hkeep hs
    exact hlockstep.consistent

/-- A target that requires fields that the configurations but one have. -/
def requiredFields : ℕ → String → ℤ := fun _ config => if config = "empty" then 1 else 0

/-- A new configuration is loaded into two contexts, ordered and swapped in. -/
theorem config_load_atomic_swap : ∃ s : ConfigSwitch String, s.Consistent ∧
    s.contexts.map (fun c => c.p4objects.config) = ["firewall", "firewall"] := by
  refine ⟨_, (config_load_atomic requiredFields).2 true 2 "router" _
    (.tail (.tail (.tail .refl (a := .loadNewConfig "firewall") ?_ rfl)
      (a := .swapConfigs) trivial rfl) (a := .doSwap) trivial rfl), rfl⟩
  rintro -
  right
  rintro ⟨cxtId, c, hc, hstatus | hongoing⟩
  · exact hstatus rfl
  · obtain rfl := List.eq_of_mem_replicate (List.mem_of_getElem? hc)
    exact hongoing rfl

/-- A target that requires fields cannot load an empty configuration, and it reports success. -/
theorem failed_load_succeeds : ∃ s : ConfigSwitch String,
    Transition.Reach (ConfigSwitch.step requiredFields) (fun _ _ => True)
      (ConfigSwitch.start true 1 "router") s ∧ ¬ s.AtomicLoad requiredFields "empty" := by
  refine ⟨_, .refl, fun hatomic => ?_⟩
  have hfails := hatomic ⟨0, _, rfl, .inl (by decide)⟩
  exact hfails.1 rfl

end Bmv2
