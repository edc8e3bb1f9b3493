import Bmv2.Lib.Bisimulation
import Bmv2.Meters.Buckets

/-! What a refused `set_rates` leaves behind, for one meter and for an array of them. -/
namespace Bmv2
open Bisimulation

namespace Meter

/-- `reset_rates`. -/
def resetRates (m : Meter) : MeterErrorCode × Meter :=
  (.success, { m with
    rates := m.rates.map fun rate => { rate with valid := false }
    configured := false })

/-- The calls to a meter; an execution comes with its clock reading. -/
inductive Call where
  | execute (micros ingressLength : ℕ)
  | setRates (configs : List RateConfig)
  | resetRates

inductive Reply where
  | color (color : ℕ)
  | code (rc : MeterErrorCode)
  deriving DecidableEq

def call (m : Meter) : Call → Option (Reply × Meter)
  | .execute micros ingressLength =>
    (m.execute micros ingressLength).map fun (color, m) => (.color color, m)
  | .setRates configs => let (rc, m) := m.setRates configs; some (.code rc, m)
  | .resetRates => let (rc, m) := m.resetRates; some (.code rc, m)

/-- The clock does not go back. -/
def Timed : ℕ → List Call → Prop
  | _, [] => True
  | now, .execute micros _ :: calls => now ≤ micros ∧ Timed micros calls
  | now, .setRates _ :: calls => Timed now calls
  | now, .resetRates :: calls => Timed now calls

/-- From `now` on the two meters answer all calls alike. -/
def SameColors (now : ℕ) (m m' : Meter) : Prop :=
  ∀ calls, Timed now calls → outputs call m calls = outputs call m' calls

/-- The list has the right length and the meter is configured: the rates that are written count. -/
def Writes (m : Meter) (configs : List RateConfig) : Prop :=
  m.configured = true ∧ configs.length = m.rates.length

instance (m : Meter) (configs : List RateConfig) : Decidable (m.Writes configs) :=
  inferInstanceAs (Decidable (_ ∧ _))

/-- The states of a meter whose clock is at `now`, in runs where no refused list was written to a
configured meter. -/
inductive Reached (type : MeterType) (rateCount : ℕ) : ℕ → Meter → Prop
  | create : Reached type rateCount 0 (create type rateCount)
  | wait {now now' : ℕ} {m : Meter} : Reached type rateCount now m → now ≤ now' →
      Reached type rateCount now' m
  | execute {now micros ingressLength color : ℕ} {m m' : Meter} :
      Reached type rateCount now m → now ≤ micros →
      m.execute micros ingressLength = some (color, m') → Reached type rateCount micros m'
  | setRates {now : ℕ} {m : Meter} {configs : List RateConfig} : Reached type rateCount now m →
      ((m.setRates configs).1 ≠ .success → ¬ m.Writes configs) →
      Reached type rateCount now (m.setRates configs).2
  | resetRates {now : ℕ} {m : Meter} : Reached type rateCount now m →
      Reached type rateCount now m.resetRates.2

/-- Meters that are not configured, and could be configured alike. -/
structure Idle (m m' : Meter) : Prop where
  left : m.configured = false
  right : m'.configured = false
  length : m.rates.length = m'.rates.length
  type : m.type = m'.type

section Idle

variable {m m' : Meter} {configs : List RateConfig}

theorem setRates_refused (h : (m.setRates configs).1 ≠ .success) :
    (m.setRates configs).2.configured = m.configured ∧ (m.setRates configs).2.type = m.type := by
  by_cases hlen : configs.length = m.rates.length
  · rcases setRates_of_length_eq hlen with ⟨-, heq⟩ | ⟨-, k, hk, -, heq⟩
    · exact absurd (congrArg Prod.fst heq) h
    · rw [heq]
      exact ⟨rfl, rfl⟩
  · rw [setRates_of_length_ne hlen]
    exact ⟨rfl, rfl⟩

/-- An accepted list leaves nothing of what an idle meter was. -/
theorem Idle.setRates (h : Idle m m') (configs : List RateConfig) :
    (m.setRates configs).1 = (m'.setRates configs).1 ∧
      ((m.setRates configs).2 = (m'.setRates configs).2 ∨
        Idle (m.setRates configs).2 (m'.setRates configs).2) := by
  obtain ⟨hleft, hright, hlength, htype⟩ := h
  by_cases hlen : configs.length = m.rates.length
  · rcases setRates_of_length_eq hlen with ⟨hchain, heq⟩ | ⟨hchain, k, hk, -, heq⟩
    · rcases setRates_of_length_eq (hlen.trans hlength) with ⟨-, heq'⟩ | ⟨hno, -⟩
      · rw [heq, heq', htype]
        exact ⟨rfl, .inl rfl⟩
      · exact absurd hchain hno
    · rcases setRates_of_length_eq (hlen.trans hlength) with ⟨hyes, -⟩ | ⟨-, k', hk', -, heq'⟩
      · exact absurd hyes hchain
      · rw [heq, heq']
        refine ⟨rfl, .inr ⟨hleft, hright, ?_, htype⟩⟩
        simp
        omega
  · rw [setRates_of_length_ne hlen, setRates_of_length_ne (hlength ▸ hlen)]
    exact ⟨rfl, .inr ⟨hleft, hright, hlength, htype⟩⟩

/-- Idle meters answer all calls alike. -/
theorem Idle.sameColors (h : Idle m m') (now : ℕ) : SameColors now m m' := by
  intro calls _
  refine outputs_eq (fun m m' => m = m' ∨ Idle m m') (fun _ => True) ?_ (.inr h) fun _ _ => trivial
  rintro m m' c (rfl | h) -
  · cases call m c with
    | none => exact .none
    | some p => exact .some ⟨rfl, .inl rfl⟩
  · cases c with
    | execute micros ingressLength =>
      have hexec : call m (.execute micros ingressLength) = some (.color 0, m) := by
        rw [call, execute, h.left]
        rfl
      have hexec' : call m' (.execute micros ingressLength) = some (.color 0, m') := by
        rw [call, execute, h.right]
        rfl
      rw [hexec, hexec']
      exact .some ⟨rfl, .inr h⟩
    | setRates configs =>
      obtain ⟨hcode, hrest⟩ := h.setRates configs
      exact .some ⟨congrArg Reply.code hcode, hrest⟩
    | resetRates =>
      exact .some ⟨rfl, .inr ⟨rfl, rfl, by simpa [resetRates] using h.length, h.type⟩⟩

/-- A refused list that does not write to a configured meter changes nothing. -/
theorem sameColors_of_not_writes (hrefused : (m.setRates configs).1 ≠ .success)
    (h : ¬ m.Writes configs) (now : ℕ) : SameColors now m (m.setRates configs).2 := by
  obtain ⟨hconfigured, htype⟩ := setRates_refused hrefused
  by_cases hlen : configs.length = m.rates.length
  · have hidle : m.configured = false := by
      rw [Writes, not_and] at h
      exact Bool.eq_false_of_not_eq_true fun hm => h hm hlen
    exact Idle.sameColors ⟨hidle, hconfigured.trans hidle, (m.setRates_length configs).symm,
      htype.symm⟩ now
  · rw [setRates_of_length_ne hlen]
    exact fun _ _ => rfl

end Idle

section Clean

variable {m m' : Meter} {now micros ingressLength color : ℕ} {configs : List RateConfig}

/-- No bucket is ahead of the clock, and the first rate of a configured meter has the highest
color. -/
structure Clean (now : ℕ) (m : Meter) : Prop where
  last : ∀ rate ∈ m.rates, rate.tokensLast ≤ rate.level now
  head : m.configured = true → ∀ rate ∈ m.rates.head?, rate.color = m.rates.length

theorem last_of_kept {rates rates' : List MeterRate} (h : List.Forall₂ (Kept now) rates rates')
    (hlast : ∀ rate ∈ rates, rate.tokensLast ≤ rate.level now) :
    ∀ rate ∈ rates', rate.tokensLast ≤ rate.level now := by
  induction h with
  | nil => exact fun _ hr => absurd hr List.not_mem_nil
  | cons hkept _ ih =>
    obtain ⟨hrate, hrest⟩ := List.forall_mem_cons.mp hlast
    exact List.forall_mem_cons.mpr ⟨hkept.last hrate, ih hrest⟩

/-- An execution keeps the rates, or the meter is not configured. -/
theorem execute_kept (h : m.execute micros ingressLength = some (color, m')) :
    m' = m ∨ m'.configured = m.configured ∧ List.Forall₂ (Kept micros) m.rates m'.rates := by
  cases hm : m.configured with
  | false =>
    rw [execute, hm] at h
    exact .inl (Prod.mk.inj (Option.some.inj h)).2.symm
  | true =>
    rw [execute_of_configured hm] at h
    obtain ⟨⟨c, rates⟩, hgo, heq⟩ := Option.map_eq_some_iff.mp h
    obtain ⟨rfl, rfl⟩ := Prod.mk.inj heq
    exact .inr ⟨hm, executeRates_kept hgo⟩

theorem Clean.mono (h : Clean now m) (hnow : now ≤ micros) : Clean micros m :=
  { h with last := fun rate hrate => (h.last rate hrate).trans (rate.level_mono hnow) }

theorem Clean.execute (h : Clean now m) (hnow : now ≤ micros)
    (hexec : m.execute micros ingressLength = some (color, m')) : Clean micros m' := by
  have hlater := h.mono hnow
  rcases execute_kept hexec with rfl | ⟨hconfigured, hkept⟩
  · exact hlater
  · refine ⟨last_of_kept hkept hlater.last, fun hm' rate' hrate' => ?_⟩
    · rw [← hkept.length_eq]
      have hhead := hlater.head (hconfigured ▸ hm')
      generalize m.rates.length = n at hhead
      generalize m.rates = rates at hkept hhead
      generalize m'.rates = rates' at hkept hrate'
      cases hkept with
      | nil => cases hrate'
      | cons hk _ =>
        obtain rfl := Option.some.inj hrate'
        exact hk.color.trans (hhead _ rfl)

theorem last_configuredFrom {idx : ℕ} {rate : MeterRate}
    (h : rate ∈ MeterRate.configuredFrom idx configs) : rate.tokensLast ≤ rate.level now := by
  obtain ⟨j, config, -, rfl⟩ := MeterRate.exists_of_mem_configuredFrom h
  exact Nat.zero_le _

theorem color_configuredFrom {idx : ℕ} {rate : MeterRate}
    (h : rate ∈ (MeterRate.configuredFrom idx configs).getLast?) :
    rate.color = idx + configs.length := by
  induction configs generalizing idx with
  | nil => cases h
  | cons config configs ih =>
    cases configs with
    | nil =>
      obtain rfl := Option.some.inj h
      rfl
    | cons config' configs =>
      have hlast := @ih (idx + 1) h
      rw [hlast]
      simp only [List.length_cons]
      omega

theorem Clean.setRates (h : Clean now m)
    (hrefused : (m.setRates configs).1 ≠ .success → ¬ m.Writes configs) :
    Clean now (m.setRates configs).2 := by
  by_cases hlen : configs.length = m.rates.length
  · rcases setRates_of_length_eq hlen with ⟨-, heq⟩ | ⟨-, k, hk, -, heq⟩
    · rw [heq]
      refine ⟨fun rate hrate => last_configuredFrom (List.mem_reverse.mp hrate),
        fun _ rate hrate => ?_⟩
      rw [List.head?_reverse] at hrate
      rw [List.length_reverse, MeterRate.length_configuredFrom, color_configuredFrom hrate,
        Nat.zero_add]
    · have hidle : ¬ m.configured = true := fun hm =>
        hrefused (by rw [heq]; simp) ⟨hm, hlen⟩
      rw [heq]
      refine ⟨fun rate hrate => ?_, fun hm => absurd hm hidle⟩
      rcases List.mem_append.mp hrate with hrate | hrate
      · exact last_configuredFrom hrate
      · exact h.last rate (List.mem_of_mem_drop hrate)
  · rwa [setRates_of_length_ne hlen]

theorem Reached.clean {type : MeterType} {rateCount : ℕ} (h : Reached type rateCount now m) :
    Clean now m := by
  induction h with
  | create =>
    refine ⟨fun rate hrate => ?_, fun hm => absurd hm Bool.false_ne_true⟩
    rw [(List.mem_replicate.mp hrate).2]
    exact Nat.zero_le _
  | wait _ hnow ih => exact ih.mono hnow
  | execute _ hnow hexec ih => exact ih.execute hnow hexec
  | setRates _ hrefused ih => exact ih.setRates hrefused
  | resetRates _ ih =>
    refine ⟨fun rate hrate => ?_, fun hm => absurd hm Bool.false_ne_true⟩
    obtain ⟨old, hold, rfl⟩ := List.mem_map.mp hrate
    exact ih.last old hold

theorem converts_of_kept {rates rates' : List MeterRate}
    (h : List.Forall₂ (Kept now) rates rates') (hconv : ∀ rate ∈ rates, rate.Converts micros) :
    ∀ rate ∈ rates', rate.Converts micros := by
  induction h with
  | nil => exact fun _ hr => absurd hr List.not_mem_nil
  | cons hkept _ ih =>
    obtain ⟨hrate, hrest⟩ := List.forall_mem_cons.mp hconv
    refine List.forall_mem_cons.mpr ⟨?_, ih hrest⟩
    rw [MeterRate.Converts, hkept.infoRate]
    exact hrate

/-- A rate that was filled at this time holds what is in it. -/
theorem filled_fillTo (rate : MeterRate) (now tokens : ℕ) :
    (rate.fillTo now tokens).filled now ≤ tokens := by
  apply le_trans (min_le_left _ _)
  apply le_trans (Nat.mod_le _ _)
  change tokens + (rate.level now - rate.level now) ≤ tokens
  omega

theorem call_execute (m : Meter) (micros ingressLength : ℕ) :
    call m (.execute micros ingressLength) =
      (m.execute micros ingressLength).map fun p => (.color p.1, p.2) := rfl

/-- An execution of a configured meter at a time at which the numbers have a conversion. -/
theorem execute_defined (hm : m.configured = true)
    (hlast : ∀ rate ∈ m.rates, rate.tokensLast ≤ rate.level now)
    (hconv : ∀ rate ∈ m.rates, rate.Converts now) :
    ∃ color m', m.execute now 1 = some (color, m') ∧ m'.configured = true ∧
      List.Forall₂ (Kept now) m.rates m'.rates := by
  have hinput : (if m.type = .packets then 1 else 1) = 1 := ite_self 1
  obtain ⟨⟨color, rates⟩, hgo⟩ := Option.isSome_iff_exists.mp (executeRates_isSome 1 hconv hlast)
  refine ⟨color, { m with rates }, ?_, hm, executeRates_kept hgo⟩
  rw [execute_of_configured hm, hinput, hgo]
  rfl

/-- A packet of one byte takes a token from the first rate, or it has its color. -/
theorem execute_first {first : MeterRate} {rest : List MeterRate} (hm : m.configured = true)
    (hrates : m.rates = first :: rest) (hexec : m.execute now 1 = some (color, m')) :
    m'.configured = true ∧ ∃ first' rest', m'.rates = first' :: rest' ∧
      first'.color = first.color ∧ first'.filled now ≤ first.filled now - 1 ∧
      (first.filled now = 0 → color = first.color) := by
  have hinput : (if m.type = .packets then 1 else 1) = 1 := ite_self 1
  rw [execute_of_configured hm, hinput, hrates] at hexec
  obtain ⟨⟨c, rates⟩, hgo, heq⟩ := Option.map_eq_some_iff.mp hexec
  obtain ⟨rfl, rfl⟩ := Prod.mk.inj heq
  rw [executeRates_cons] at hgo
  split_ifs at hgo with _ _ hcover
  · obtain ⟨rfl, rfl⟩ := Prod.mk.inj (Option.some.inj hgo)
    refine ⟨hm, _, _, rfl, rfl, ?_, fun _ => rfl⟩
    have hle := filled_fillTo first now (first.filled now)
    omega
  · obtain ⟨⟨c, tail⟩, -, heq⟩ := Option.map_eq_some_iff.mp hgo
    obtain ⟨rfl, rfl⟩ := Prod.mk.inj heq
    exact ⟨hm, _, _, rfl, rfl, filled_fillTo first now (first.filled now - 1),
      fun h => absurd h (by omega)⟩

/-- After as many such packets as the first rate holds, every one has its color. -/
theorem outputs_first {first : MeterRate} {rest : List MeterRate} (hm : m.configured = true)
    (hrates : m.rates = first :: rest) {k : ℕ} (hk : first.filled now ≤ k) {reply : Reply}
    (h : (outputs call m (List.replicate (k + 1) (.execute now 1)))[k]? = some (some reply)) :
    reply = .color first.color := by
  induction k generalizing m first rest with
  | zero =>
    cases hexec : m.execute now 1 with
    | none =>
      rw [List.replicate_one, outputs_singleton, call_execute, hexec] at h
      cases h
    | some p =>
      obtain ⟨color, m'⟩ := p
      obtain ⟨-, -, -, -, -, -, hcolor⟩ := execute_first hm hrates hexec
      rw [List.replicate_one, outputs_singleton, call_execute, hexec, hcolor (by omega)] at h
      exact (Option.some.inj (Option.some.inj h)).symm
  | succ k ih =>
    cases hexec : m.execute now 1 with
    | none =>
      rw [List.replicate_succ, outputs, call_execute, hexec] at h
      cases h
    | some p =>
      obtain ⟨color, m'⟩ := p
      obtain ⟨hm', first', rest', hrates', hfirst, hfilled, -⟩ := execute_first hm hrates hexec
      rw [List.replicate_succ, outputs, call_execute, hexec] at h
      rw [← hfirst]
      exact ih hm' hrates' (by omega) h

/-- All of them return where the numbers have a conversion. -/
theorem outputs_defined (hm : m.configured = true)
    (hlast : ∀ rate ∈ m.rates, rate.tokensLast ≤ rate.level now)
    (hconv : ∀ rate ∈ m.rates, rate.Converts now) (k : ℕ) :
    ∃ reply, (outputs call m (List.replicate (k + 1) (.execute now 1)))[k]? =
      some (some reply) := by
  induction k generalizing m with
  | zero =>
    obtain ⟨color, m', hexec, -⟩ := execute_defined hm hlast hconv
    rw [List.replicate_one, outputs_singleton, call_execute, hexec]
    exact ⟨_, rfl⟩
  | succ k ih =>
    obtain ⟨color, m', hexec, hm', hkept⟩ := execute_defined hm hlast hconv
    rw [List.replicate_succ, outputs, call_execute, hexec]
    exact ih hm' (last_of_kept hkept hlast) (converts_of_kept hkept hconv)

theorem timed_replicate (now n : ℕ) : Timed now (List.replicate n (.execute now 1)) := by
  induction n with
  | zero => trivial
  | succ n ih => exact ⟨le_rfl, ih⟩

/-- A refused list that is written to a configured meter changes the color of the first rate, and
executions show it if they return. -/
theorem not_sameColors_of_writes (h : Clean now m) (hconv : ∀ rate ∈ m.rates, rate.Converts now)
    (hrefused : (m.setRates configs).1 ≠ .success) (hwrites : m.Writes configs) :
    ¬ SameColors now m (m.setRates configs).2 := by
  obtain ⟨hm, hlen⟩ := hwrites
  rcases setRates_of_length_eq hlen with ⟨-, heq⟩ | ⟨-, k, hk, hfirst, heq⟩
  · exact absurd (congrArg Prod.fst heq) hrefused
  · rw [heq]
    intro hsame
    obtain ⟨config, rest', hconfigs⟩ := List.exists_cons_of_length_pos (l := configs.take k)
      (by rw [List.length_take]; omega)
    obtain ⟨first, rest, hrates⟩ := List.exists_cons_of_length_pos (l := m.rates) (by omega)
    have hcolor := h.head hm first (by rw [hrates]; rfl)
    set m' : Meter := { m with
      rates := MeterRate.configuredFrom 0 (configs.take k) ++ m.rates.drop k } with hmdef
    have hrates' : m'.rates = MeterRate.configured 0 config ::
        (MeterRate.configuredFrom 1 rest' ++ m.rates.drop k) := by
      rw [hmdef, hconfigs]
      rfl
    obtain ⟨reply, hreply⟩ := outputs_defined hm h.last hconv
      (max (first.filled now) ((MeterRate.configured 0 config).filled now))
    have hout := outputs_first hm hrates (le_max_left _ _) hreply
    rw [hsame _ (timed_replicate _ _)] at hreply
    have hout' := outputs_first (m := m') hm hrates' (le_max_right _ _) hreply
    have hone := Reply.color.inj (hout.symm.trans hout')
    have hval : (MeterRate.configured 0 config).color = 1 := rfl
    omega

end Clean

end Meter

/-- `MeterArray`: its meters are made with one number of rates. -/
structure MeterArray where
  meters : List Meter
  rateCount : ℕ
  uniform : ∀ m ∈ meters, m.rates.length = rateCount

namespace MeterArray

/-- The loop of `MeterArray::set_rates`, which ends at the first error. -/
def setRatesLoop (configs : List RateConfig) : List Meter → MeterErrorCode × List Meter
  | [] => (.success, [])
  | m :: meters =>
    match m.setRates configs with
    | (.success, m) => let (rc, meters) := setRatesLoop configs meters; (rc, m :: meters)
    | (rc, m) => (rc, m :: meters)

variable {configs : List RateConfig} {m : Meter} {meters : List Meter}

theorem setRatesLoop_of_success (h : (m.setRates configs).1 = .success) :
    setRatesLoop configs (m :: meters) = ((setRatesLoop configs meters).1,
      (m.setRates configs).2 :: (setRatesLoop configs meters).2) := by
  rw [setRatesLoop]
  generalize m.setRates configs = p at h
  obtain ⟨rc, m₁⟩ := p
  obtain rfl : rc = .success := h
  rfl

theorem setRatesLoop_of_ne_success (h : (m.setRates configs).1 ≠ .success) :
    setRatesLoop configs (m :: meters) =
      ((m.setRates configs).1, (m.setRates configs).2 :: meters) := by
  rw [setRatesLoop]
  generalize m.setRates configs = p at h
  obtain ⟨rc, m₁⟩ := p
  cases rc with
  | success => exact absurd rfl h
  | _ => rfl

theorem setRatesLoop_uniform {n : ℕ} (h : ∀ m ∈ meters, m.rates.length = n) :
    ∀ m ∈ (setRatesLoop configs meters).2, m.rates.length = n := by
  induction meters with
  | nil => exact h
  | cons m meters ih =>
    obtain ⟨hm, hrest⟩ := List.forall_mem_cons.mp h
    have hfirst := (m.setRates_length configs).trans hm
    by_cases hrc : (m.setRates configs).1 = .success
    · rw [setRatesLoop_of_success hrc]
      exact List.forall_mem_cons.mpr ⟨hfirst, ih hrest⟩
    · rw [setRatesLoop_of_ne_success hrc]
      exact List.forall_mem_cons.mpr ⟨hfirst, hrest⟩

def setRates (a : MeterArray) (configs : List RateConfig) : MeterErrorCode × MeterArray :=
  ((setRatesLoop configs a.meters).1,
    ⟨(setRatesLoop configs a.meters).2, a.rateCount, setRatesLoop_uniform a.uniform⟩)

/-- The first meter is configured and the list has the right length. -/
def Writes (a : MeterArray) (configs : List RateConfig) : Prop :=
  ∃ m ∈ a.meters.head?, m.Writes configs

def SameColors (now : ℕ) (a a' : MeterArray) : Prop :=
  List.Forall₂ (Meter.SameColors now) a.meters a'.meters

/-- What one meter accepts all of them accept. -/
theorem setRatesLoop_success {n : ℕ} (huniform : ∀ m ∈ meters, m.rates.length = n)
    (hm : m.rates.length = n) (h : (m.setRates configs).1 = .success) :
    (setRatesLoop configs meters).1 = .success := by
  induction meters with
  | nil => rfl
  | cons m' meters ih =>
    obtain ⟨hm', hrest⟩ := List.forall_mem_cons.mp huniform
    have hfirst : (m'.setRates configs).1 = .success := by
      rw [Meter.setRates_fst_iff] at h ⊢
      rw [hm', ← hm]
      exact h
    rw [setRatesLoop_of_success hfirst]
    exact ih hrest

/-- A list that an array refuses is refused by the first meter, and reaches no other. -/
theorem setRates_refused {a : MeterArray} (h : (a.setRates configs).1 ≠ .success) :
    ∃ m rest, a.meters = m :: rest ∧ (m.setRates configs).1 ≠ .success ∧
      (a.setRates configs).2.meters = (m.setRates configs).2 :: rest := by
  obtain ⟨meters, n, huniform⟩ := a
  cases meters with
  | nil => exact absurd rfl h
  | cons m rest =>
    obtain ⟨hm, hrest⟩ := List.forall_mem_cons.mp huniform
    by_cases hrc : (m.setRates configs).1 = .success
    · refine absurd ?_ h
      change (setRatesLoop configs (m :: rest)).1 = .success
      rw [setRatesLoop_of_success hrc]
      exact setRatesLoop_success hrest hm hrc
    · refine ⟨m, rest, rfl, hrc, ?_⟩
      change (setRatesLoop configs (m :: rest)).2 = _
      rw [setRatesLoop_of_ne_success hrc]

theorem sameColors_iff {a : MeterArray} {now : ℕ} (h : (a.setRates configs).1 ≠ .success) :
    SameColors now a (a.setRates configs).2 ↔
      ∀ m ∈ a.meters.head?, Meter.SameColors now m (m.setRates configs).2 := by
  obtain ⟨m, rest, hmeters, -, hmeters'⟩ := setRates_refused h
  rw [SameColors, hmeters, hmeters', List.forall₂_cons]
  constructor
  · rintro ⟨hm, -⟩ m' hm'
    obtain rfl := Option.some.inj hm'
    exact hm
  · exact fun hall => ⟨hall m rfl, List.forall₂_same.mpr fun _ _ _ _ => rfl⟩

end MeterArray

/-- A refused list of rates changes nothing exactly where it does not write to a configured meter,
in the states that calls like that lead to and in which the numbers of the meter have a conversion;
for an array, to its first meter. It changes nothing in any other state either if it does not write
to a configured meter. -/
theorem refused_changes_nothing_iff {configs : List RateConfig} {now : ℕ} :
    (∀ m : Meter, (m.setRates configs).1 ≠ .success →
      (¬ m.Writes configs → m.SameColors now (m.setRates configs).2) ∧
      ∀ type rateCount, Meter.Reached type rateCount now m →
        (∀ rate ∈ m.rates, rate.Converts now) →
        (m.SameColors now (m.setRates configs).2 ↔ ¬ m.Writes configs)) ∧
    ∀ a : MeterArray, (a.setRates configs).1 ≠ .success →
      (¬ a.Writes configs → a.SameColors now (a.setRates configs).2) ∧
      ∀ type, (∀ m ∈ a.meters, Meter.Reached type a.rateCount now m) →
        (∀ m ∈ a.meters.head?, ∀ rate ∈ m.rates, rate.Converts now) →
        (a.SameColors now (a.setRates configs).2 ↔ ¬ a.Writes configs) := by
  refine ⟨fun m hrefused => ⟨fun h => Meter.sameColors_of_not_writes hrefused h now,
    fun type rateCount hreached hconv => ⟨fun hsame hwrites =>
      Meter.not_sameColors_of_writes hreached.clean hconv hrefused hwrites hsame,
      fun h => Meter.sameColors_of_not_writes hrefused h now⟩⟩, fun a hrefused => ?_⟩
  obtain ⟨m, rest, hmeters, hm, -⟩ := MeterArray.setRates_refused hrefused
  have hwrites : a.Writes configs ↔ m.Writes configs := by
    rw [MeterArray.Writes, hmeters]
    simp
  have hsame : a.SameColors now (a.setRates configs).2 ↔
      m.SameColors now (m.setRates configs).2 := by
    rw [MeterArray.sameColors_iff hrefused, hmeters]
    simp
  rw [hwrites, hsame]
  refine ⟨fun h => Meter.sameColors_of_not_writes hm h now, fun type hreached hconv => ?_⟩
  have hclean := (hreached m (by rw [hmeters]; exact List.mem_cons_self)).clean
  have hfirst := hconv m (by rw [hmeters]; rfl)
  exact ⟨fun h hw => Meter.not_sameColors_of_writes hclean hfirst hm hw h,
    fun h => Meter.sameColors_of_not_writes hm h now⟩

/-- Rates that go down are refused, and a meter without a configuration does not mind. -/
theorem refused_changes_nothing_unconfigured :
    let m := Meter.create .packets 2
    let configs : List RateConfig := [⟨1, 0⟩, ⟨0, 0⟩]
    (m.setRates configs).1 = .invalidInfoRateValue ∧
      m.SameColors 0 (m.setRates configs).2 ∧ ¬ m.Writes configs := by
  intro m configs
  have hrefused : (m.setRates configs).1 = .invalidInfoRateValue := by decide +kernel
  have hwrites : ¬ m.Writes configs := by decide
  exact ⟨hrefused, ((refused_changes_nothing_iff.1 m (by rw [hrefused]; decide)).2 .packets 2
    .create (by decide +kernel)).mpr hwrites, hwrites⟩

/-- A meter with bursts of 5, whose packets are green; after a list that is refused the next packet
is yellow, and so it is in an array of this meter. -/
theorem refused_changes_colors :
    let m := ((Meter.create .packets 2).setRates [⟨0, 5⟩, ⟨1, 5⟩]).2
    let configs : List RateConfig := [⟨1, 0⟩, ⟨0, 0⟩]
    (m.setRates configs).1 = .invalidInfoRateValue ∧
      (MeterArray.setRatesLoop configs [m]).1 = .invalidInfoRateValue ∧
      (m.execute 1 64).map Prod.fst = some 0 ∧
      ((m.setRates configs).2.execute 1 64).map Prod.fst = some 1 ∧
      (MeterArray.setRatesLoop configs [m]).2 = [(m.setRates configs).2] ∧
      ¬ m.SameColors 0 (m.setRates configs).2 := by
  refine ⟨by decide +kernel, by decide +kernel, by decide +kernel, by decide +kernel,
    by decide +kernel, fun h => ?_⟩
  have hcolor := h [.execute 1 64] ⟨Nat.zero_le _, trivial⟩
  revert hcolor
  decide +kernel

end Bmv2
