import Bmv2.Lib.Transition
import Bmv2.Meters.Conformance
import Bmv2.Meters.Refused

/-! The clock of a meter that several threads execute: a call reads the clock before it waits for
the mutex, and the reading is used when it has the mutex. -/
namespace Bmv2
open Transition

/-- Where a thread is in `execute`: not in it, behind the test of `configured`, or with a reading of
the clock and waiting for the mutex. -/
inductive MeterThread where
  | outside
  | entered (ingressLength : ℕ)
  | stamped (micros ingressLength : ℕ)
  deriving DecidableEq

/-- One meter and its threads. `lastMicros` is the reading with which the rates were last updated
since they were set; the code does not keep it. -/
structure MeterSystem where
  meter : Meter
  clock : ℕ := 0
  threads : List MeterThread
  lastMicros : ℕ := 0

inductive MeterEvent where
  | tick (micros : ℕ)
  | enter (i ingressLength : ℕ)
  | stamp (i : ℕ)
  | update (i : ℕ)
  | setRates (configs : List RateConfig)
  | resetRates
  deriving DecidableEq

namespace MeterSystem

/-- The part of `execute` behind the mutex. It does not look at `configured` again, and has no
result if the assertion fails or a number has no conversion. -/
def updateRates (m : Meter) (micros ingressLength : ℕ) : Option (ℕ × Meter) :=
  (Meter.executeRates micros (if m.type = .packets then 1 else ingressLength) m.rates).map
    fun (color, rates) => (color, { m with rates })

/-- What can happen: a thread goes on from where it is, and rates are set successfully. -/
def enabled (s : MeterSystem) : MeterEvent → Bool
  | .tick _ => true
  | .enter i _ => s.threads[i]? = some .outside
  | .stamp i => match s.threads[i]? with
    | some (.entered _) => true
    | _ => false
  | .update i => match s.threads[i]? with
    | some (.stamped _ _) => true
    | _ => false
  | .setRates configs => (s.meter.setRates configs).1 = .success
  | .resetRates => true

/-- One event; it returns the color of the call that it ends. Nothing comes of an update without
a result. -/
def step (s : MeterSystem) : MeterEvent → Option (Option ℕ × MeterSystem)
  | .tick micros => some (none, { s with clock := s.clock + micros })
  | .enter i ingressLength =>
    if !s.meter.configured then some (some 0, s)
    else some (none, { s with threads := s.threads.set i (.entered ingressLength) })
  | .stamp i => match s.threads[i]? with
    | some (.entered ingressLength) =>
      some (none, { s with threads := s.threads.set i (.stamped s.clock ingressLength) })
    | _ => some (none, s)
  | .update i => match s.threads[i]? with
    | some (.stamped micros ingressLength) => do
      let (color, meter) ← updateRates s.meter micros ingressLength
      some (some color,
        { s with meter, threads := s.threads.set i .outside, lastMicros := micros })
    | _ => some (none, s)
  | .setRates configs =>
    some (none, { s with meter := (s.meter.setRates configs).2, lastMicros := 0 })
  | .resetRates => some (none, { s with meter := s.meter.resetRates.2 })

/-- The calls update the rates in the order in which they read the clock: the reading of this one
is not older than that of the last update since the rates were set. -/
def inOrder (s : MeterSystem) : MeterEvent → Bool
  | .update i => match s.threads[i]? with
    | some (.stamped micros _) => s.lastMicros ≤ micros
    | _ => true
  | _ => true

/-- What the rates have given by the reading of an update has a conversion to `uint64_t`. -/
def converts (s : MeterSystem) : MeterEvent → Bool
  | .update i => match s.threads[i]? with
    | some (.stamped micros _) => s.meter.rates.all fun rate => rate.Converts micros
    | _ => true
  | _ => true

/-- The events that are possible, in order and with numbers that have a conversion. -/
def Ok (s : MeterSystem) (e : MeterEvent) : Prop :=
  s.enabled e = true ∧ s.inOrder e = true ∧ s.converts e = true

instance (s : MeterSystem) : DecidablePred s.Ok := fun _ => inferInstanceAs (Decidable (_ ∧ _))

def start (type : MeterType) (rateCount threads : ℕ) : MeterSystem where
  meter := .create type rateCount
  threads := List.replicate threads .outside

/-- The buckets are not ahead of the last update, and the first one is there. -/
structure Updated (s : MeterSystem) : Prop where
  last : ∀ rate ∈ s.meter.rates, rate.tokensLast ≤ rate.level s.lastMicros
  head : ∀ rate ∈ s.meter.rates.head?, rate.tokensLast = rate.level s.lastMicros

variable {s s' : MeterSystem} {i micros ingressLength : ℕ} {type : MeterType}
  {rateCount threads : ℕ}

theorem step_update (h : s.threads[i]? = some (.stamped micros ingressLength)) :
    s.step (.update i) = (updateRates s.meter micros ingressLength).map fun p => (some p.1,
      { s with meter := p.2, threads := s.threads.set i .outside, lastMicros := micros }) := by
  simp only [step, h]
  cases updateRates s.meter micros ingressLength <;> rfl

theorem level_zero (rate : MeterRate) : rate.level 0 = 0 := by
  rw [MeterRate.level, Nat.cast_zero, zero_mul]
  rfl

/-- The first rate is updated by every call. -/
theorem head_executeRates {input color : ℕ} {rates rates' : List MeterRate}
    (h : Meter.executeRates micros input rates = some (color, rates')) :
    ∀ rate ∈ rates'.head?, rate.tokensLast = rate.level micros := by
  cases rates with
  | nil =>
    obtain ⟨-, rfl⟩ := Prod.mk.inj (Option.some.inj h)
    exact fun _ hr => absurd hr (by simp)
  | cons rate rates =>
    rw [Meter.executeRates_cons] at h
    split_ifs at h
    · obtain ⟨-, rfl⟩ := Prod.mk.inj (Option.some.inj h)
      rintro _ ⟨⟩
      rfl
    · obtain ⟨p, -, heq⟩ := Option.map_eq_some_iff.mp h
      obtain ⟨-, rfl⟩ := Prod.mk.inj heq
      rintro _ ⟨⟩
      rfl

theorem updated_start (type : MeterType) (rateCount threads : ℕ) :
    Updated (start type rateCount threads) := by
  have hrate : ∀ rate ∈ (Meter.create type rateCount).rates, rate.tokensLast = rate.level 0 := by
    intro rate hrate
    rw [level_zero, (List.mem_replicate.mp hrate).2]
  exact ⟨fun rate h => (hrate rate h).le, fun rate h => hrate rate (List.mem_of_mem_head? h)⟩

/-- An update with a reading that is not older than the last one meets no failed assertion. -/
theorem Updated.updateRates (h : Updated s) (horder : s.lastMicros ≤ micros)
    (hconv : ∀ rate ∈ s.meter.rates, rate.Converts micros) (ingressLength : ℕ) :
    ∃ color m', updateRates s.meter micros ingressLength = some (color, m') ∧
      (∀ rate ∈ m'.rates, rate.tokensLast ≤ rate.level micros) ∧
      ∀ rate ∈ m'.rates.head?, rate.tokensLast = rate.level micros := by
  have hlast : ∀ rate ∈ s.meter.rates, rate.tokensLast ≤ rate.level micros := fun rate hrate =>
    (h.last rate hrate).trans (rate.level_mono horder)
  obtain ⟨⟨color, rates⟩, hgo⟩ := Option.isSome_iff_exists.mp (Meter.executeRates_isSome
    (if s.meter.type = .packets then 1 else ingressLength) hconv hlast)
  refine ⟨color, { s.meter with rates }, ?_,
    Meter.last_of_kept (Meter.executeRates_kept hgo) hlast, head_executeRates hgo⟩
  rw [MeterSystem.updateRates, hgo]
  rfl

/-- Such an event has a result and keeps the invariant. -/
theorem Updated.step (h : Updated s) {e : MeterEvent} (hok : s.Ok e) :
    ∃ color s', s.step e = some (color, s') ∧ Updated s' := by
  obtain ⟨henabled, horder, hconv⟩ := hok
  cases e with
  | tick micros => exact ⟨_, _, rfl, h.last, h.head⟩
  | enter i ingressLength =>
    rw [MeterSystem.step]
    split_ifs
    · exact ⟨_, _, rfl, h⟩
    · exact ⟨_, _, rfl, h.last, h.head⟩
  | stamp i =>
    rw [MeterSystem.step]
    split
    · exact ⟨_, _, rfl, h.last, h.head⟩
    · exact ⟨_, _, rfl, h⟩
  | update i =>
    rw [enabled] at henabled
    rw [inOrder] at horder
    rw [converts] at hconv
    split at henabled
    next micros ingressLength hthread =>
      rw [hthread] at horder hconv
      have hrates : ∀ rate ∈ s.meter.rates, rate.Converts micros := fun rate hrate =>
        of_decide_eq_true (List.all_eq_true.mp hconv rate hrate)
      obtain ⟨color, m', hupdate, hlast, hhead⟩ := h.updateRates (of_decide_eq_true horder) hrates
        ingressLength
      rw [step_update hthread, hupdate]
      exact ⟨_, _, rfl, hlast, hhead⟩
    next => cases henabled
  | setRates configs =>
    have hzero : ∀ rate ∈ (s.meter.setRates configs).2.rates, rate.tokensLast = rate.level 0 := by
      intro rate hrate
      have hset : s.meter.setRates configs = (.success, (s.meter.setRates configs).2) :=
        Prod.ext (of_decide_eq_true henabled) rfl
      have hrunning := Meter.Running.of_setRates hset
      have hle := hrunning.last rate hrate
      rw [level_zero] at hle ⊢
      omega
    exact ⟨_, _, rfl, fun rate hrate => (hzero rate hrate).le,
      fun rate hrate => hzero rate (List.mem_of_mem_head? hrate)⟩
  | resetRates =>
    refine ⟨_, _, rfl, fun rate hrate => ?_, fun rate hrate => ?_⟩
    · obtain ⟨old, hold, rfl⟩ := List.mem_map.mp hrate
      exact h.last old hold
    · rw [Meter.resetRates, List.head?_map] at hrate
      obtain ⟨old, hold, rfl⟩ := Option.map_eq_some_iff.mp hrate
      exact h.head old hold

/-- An update with an older reading fails if the first rate gives a token each microsecond. -/
theorem Updated.fails (h : Updated s)
    (hthread : s.threads[i]? = some (.stamped micros ingressLength))
    (horder : micros < s.lastMicros) {rate : MeterRate} (hrate : s.meter.rates.head? = some rate)
    (hinfo : 1 ≤ rate.infoRate) : s.step (.update i) = none := by
  have hlevel : rate.level micros < rate.level s.lastMicros := by
    have hcast : (micros : ℚ) + 1 ≤ s.lastMicros := by exact_mod_cast horder
    have hgain : micros * rate.infoRate + 1 ≤ s.lastMicros * rate.infoRate := by
      nlinarith
    have hfloor := Rat.floor_monotone hgain
    have hpos : 0 ≤ (micros * rate.infoRate).floor :=
      Rat.le_floor_iff.mpr (mul_nonneg (Nat.cast_nonneg _) (by linarith))
    rw [Rat.floor_add_one] at hfloor
    rw [MeterRate.level, MeterRate.level]
    omega
  have hlast := h.head rate hrate
  obtain ⟨rest, hrates⟩ := List.head?_eq_some_iff.mp hrate
  have hback : rate.level micros < rate.tokensLast := by omega
  have hnone : ∀ input, Meter.executeRates micros input (rate :: rest) = none := by
    intro input
    rw [Meter.executeRates_cons, if_pos hback, ite_self]
  rw [step_update hthread, MeterSystem.updateRates, hrates, hnone]
  rfl

/-- If the calls update the rates in the order in which they read the clock, and what the rates
give has a conversion, the assertion never fails. Where the first rate gives at least a token each
microsecond, no call that is out of order has a result. -/
theorem in_order_never_fails (h : Reach step Ok (start type rateCount threads) s) :
    (∀ e, s.Ok e → (s.step e).isSome) ∧
      ∀ e, s.inOrder e = false → ∀ rate, s.meter.rates.head? = some rate →
        1 ≤ rate.infoRate → s.step e = none := by
  have hinv : Updated s := h.invariant Updated (updated_start type rateCount threads)
    fun s e r s' hs hok hstep => by
      obtain ⟨color, s₁, hstep₁, h₁⟩ := hs.step hok
      obtain ⟨-, rfl⟩ := Prod.mk.inj (Option.some.inj (hstep.symm.trans hstep₁))
      exact h₁
  refine ⟨fun e hok => ?_, fun e horder rate hrate hinfo => ?_⟩
  · obtain ⟨color, s', hstep, -⟩ := hinv.step hok
    rw [hstep]
    rfl
  · cases e with
    | update i =>
      rw [inOrder] at horder
      split at horder
      next micros ingressLength hthread =>
        exact hinv.fails hthread (not_le.mp (of_decide_eq_false horder)) hrate hinfo
      next => cases horder
    | _ => cases horder

/-- Two calls that take the mutex in the order of their readings. -/
theorem in_order_never_fails_two :
    let events : List MeterEvent := [.setRates [⟨1, 5⟩], .enter 0 64, .enter 1 64, .tick 10,
      .stamp 0, .tick 10, .stamp 1, .update 0]
    ∃ s, runAll step Ok (start .packets 1 2) events = some s ∧ (s.step (.update 1)).isSome := by
  intro events
  obtain ⟨s, hs⟩ := Option.isSome_iff_exists.mp
    (show (runAll step Ok (start .packets 1 2) events).isSome by decide +kernel)
  have hnext : (runAll step Ok (start .packets 1 2) events).map
      (fun s => decide (s.Ok (.update 1))) = some true := by decide +kernel
  rw [hs] at hnext
  have hok : s.Ok (.update 1) := of_decide_eq_true (Option.some.inj hnext)
  exact ⟨s, hs, (in_order_never_fails (.of_runAll hs)).1 _ hok⟩

/-- The second of two calls reads the clock 10 microseconds after the first, and has the mutex
before it. -/
theorem out_of_order_fails :
    let events : List MeterEvent := [.setRates [⟨1, 5⟩], .enter 0 64, .enter 1 64, .tick 10,
      .stamp 0, .tick 10, .stamp 1, .update 1]
    ∃ s, Reach step (fun s e => s.enabled e = true) (start .packets 1 2) s ∧
      runAll step (fun s e => s.enabled e = true) (start .packets 1 2) events = some s ∧
      s.enabled (.update 0) = true ∧ s.step (.update 0) = none := by
  intro events
  obtain ⟨s, hs⟩ := Option.isSome_iff_exists.mp (show (runAll step
    (fun s e => s.enabled e = true) (start .packets 1 2) events).isSome by decide +kernel)
  have hnext : (runAll step (fun s e => s.enabled e = true) (start .packets 1 2) events).map
      (fun s => (s.enabled (.update 0), (s.step (.update 0)).isNone)) = some (true, true) := by
    decide +kernel
  rw [hs] at hnext
  obtain ⟨henabled, hfails⟩ := Prod.mk.inj (Option.some.inj hnext)
  exact ⟨s, .of_runAll hs, hs, henabled, Option.isNone_iff_eq_none.mp hfails⟩

end MeterSystem

end Bmv2
