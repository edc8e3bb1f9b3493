import Mathlib.Data.Rat.Defs
import Mathlib.Algebra.Order.Ring.Rat

/-! Meters and counters as the match tables use them (`meters.cpp`, `counters.cpp`). -/
namespace Bmv2

structure Counter where
  bytes : ℕ := 0
  packets : ℕ := 0
  deriving DecidableEq

/-- `Meter::rate_config_t`; the rate is a double in the source and exact here. -/
structure RateConfig where
  infoRate : ℚ
  burstSize : ℕ
  deriving DecidableEq

structure MeterRate where
  valid : Bool := false
  infoRate : ℚ := 0
  burstSize : ℕ := 0
  tokens : ℕ := 0
  tokensLast : ℕ := 0
  color : ℕ := 0
  deriving DecidableEq

inductive MeterType where
  | packets | bytes
  deriving DecidableEq

structure Meter where
  rates : List MeterRate
  configured : Bool := false
  type : MeterType := .packets
  deriving DecidableEq

inductive MeterErrorCode where
  | success | invalidIndex | badRatesList | invalidInfoRateValue | invalidBurstSizeValue | error
  deriving DecidableEq

namespace Counter

def increment (c : Counter) (ingressLength : ℕ) : Counter :=
  { bytes := c.bytes + ingressLength, packets := c.packets + 1 }

end Counter

namespace Meter

def create (type : MeterType) (rateCount : ℕ) : Meter where
  rates := List.replicate rateCount {}
  type

/-- `set_rate` writes the rate first and compares it with the one below afterwards. -/
def setRate (m : Meter) (idx : ℕ) (config : RateConfig) : MeterErrorCode × Meter :=
  let rate : MeterRate :=
    { valid := true, infoRate := config.infoRate, burstSize := config.burstSize,
      tokens := config.burstSize, tokensLast := 0, color := idx + 1 }
  let m := { m with rates := m.rates.set idx rate }
  match idx, m.rates[idx - 1]? with
  | 0, _ => (.success, m)
  | _, none => (.success, m)
  | _, some prev =>
    if prev.infoRate > config.infoRate then (.invalidInfoRateValue, m) else (.success, m)

/-- The loop of `set_rates`, which stops at the first rate that is refused. -/
def setRatesFrom (m : Meter) : ℕ → List RateConfig → MeterErrorCode × Meter
  | _, [] => (.success, m)
  | idx, config :: configs =>
    match m.setRate idx config with
    | (.success, m) => setRatesFrom m (idx + 1) configs
    | (rc, m) => (rc, m)

def setRates (m : Meter) (configs : List RateConfig) : MeterErrorCode × Meter :=
  if configs.length ≠ m.rates.length then (.badRatesList, m)
  else match m.setRatesFrom 0 configs with
    | (.success, m) => (.success, { m with rates := m.rates.reverse, configured := true })
    | (rc, m) => (rc, m)

/-- The loop of `execute` at `micros` after the start of the clock: the first rate without
tokens for the packet colors it. The assertion fails for a clock that went back, and a `double`
that is no `uint64_t` when its fraction is cut off has no conversion to one. -/
def executeRates (micros input : ℕ) : List MeterRate → Option (ℕ × List MeterRate)
  | [] => some (0, [])
  | rate :: rates => do
    if micros * rate.infoRate ≤ -1 ∨ 2 ^ 64 ≤ micros * rate.infoRate then none
    else
      let tokensSinceInit := (micros * rate.infoRate).floor.toNat
      if tokensSinceInit < rate.tokensLast then none
      else
        let newTokens := tokensSinceInit - rate.tokensLast
        -- the sum wraps; the differences do not, after the comparisons before them
        let tokens := min ((rate.tokens + newTokens) % 2 ^ 64) rate.burstSize
        if tokens < input then
          some (rate.color, { rate with tokens, tokensLast := tokensSinceInit } :: rates)
        else do
          let (color, rates) ← executeRates micros input rates
          some (color,
            { rate with tokens := tokens - input, tokensLast := tokensSinceInit } :: rates)

def execute (m : Meter) (micros ingressLength : ℕ) : Option (ℕ × Meter) :=
  if !m.configured then some (0, m)
  else
    let input := if m.type = .packets then 1 else ingressLength
    (executeRates micros input m.rates).map fun (color, rates) => (color, { m with rates })

end Meter

end Bmv2
