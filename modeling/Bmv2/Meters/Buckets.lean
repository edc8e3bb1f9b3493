import Bmv2.Lib.TokenBucket
import Bmv2.Meters.SetRates

/-! The rates of a meter as token buckets: what one packet does to each of them, and how its color
comes from them (`Meter::execute`). They are buckets as long as their numbers fit in 64 bits. -/
namespace Bmv2
open TokenBucket

namespace MeterRate

/-- The tokens since the start of the clock. -/
def level (rate : MeterRate) (micros : ℕ) : ℕ := (micros * rate.infoRate).floor.toNat

/-- The tokens since the start of the clock have a conversion to `uint64_t`. -/
def Converts (micros : ℕ) (rate : MeterRate) : Prop :=
  -1 < micros * rate.infoRate ∧ micros * rate.infoRate < 2 ^ 64

instance (micros : ℕ) : DecidablePred (Converts micros) :=
  fun _ => inferInstanceAs (Decidable (_ ∧ _))

/-- What the rate holds at a time, with the sum as it is in 64 bits. -/
def filled (rate : MeterRate) (micros : ℕ) : ℕ :=
  min ((rate.tokens + (rate.level micros - rate.tokensLast)) % 2 ^ 64) rate.burstSize

/-- The rate with this many tokens, filled at this time. -/
def fillTo (rate : MeterRate) (micros tokens : ℕ) : MeterRate :=
  { rate with tokens, tokensLast := rate.level micros }

/-- A rate whose numbers fit in 64 bits. -/
structure Fits (micros : ℕ) (rate : MeterRate) : Prop where
  nonneg : 0 ≤ rate.infoRate
  tokens_le : rate.tokens ≤ rate.burstSize
  level_lt : rate.burstSize + rate.level micros < 2 ^ 64

def bucket (rate : MeterRate) : Bucket := ⟨rate.burstSize, rate.tokens, rate.tokensLast⟩

def withBucket (rate : MeterRate) (b : Bucket) : MeterRate :=
  { rate with tokens := b.tokens, tokensLast := b.last }

def Covers (rate : MeterRate) (micros input : ℕ) : Prop :=
  input ≤ (rate.bucket.fill (rate.level micros)).tokens

/-- What a packet is to the bucket of a rate: the rates above its color cover it, the rate of its
color does not, and those below are not asked. -/
def request (rate : MeterRate) (color input : ℕ) : Request :=
  if color < rate.color then .take input
  else if color = rate.color then .refuse
  else .skip

def after (micros color input : ℕ) (rate : MeterRate) : MeterRate :=
  rate.withBucket (rate.bucket.step (rate.level micros) (rate.request color input))

variable {rate : MeterRate} {micros micros' color input : ℕ}

theorem level_mono (rate : MeterRate) (h : micros ≤ micros') :
    rate.level micros ≤ rate.level micros' := by
  have hcast : (micros : ℚ) ≤ micros' := Nat.cast_le.mpr h
  rcases le_total 0 rate.infoRate with hrate | hrate
  · exact Int.toNat_le_toNat (Rat.floor_monotone (mul_le_mul_of_nonneg_right hcast hrate))
  · have hneg : (micros : ℚ) * rate.infoRate ≤ 0 :=
      mul_nonpos_of_nonneg_of_nonpos (Nat.cast_nonneg _) hrate
    have hfloor : (micros * rate.infoRate).floor ≤ 0 := Rat.floor_monotone hneg
    rw [level, Int.toNat_of_nonpos hfloor]
    exact Nat.zero_le _

theorem bucket_after : (rate.after micros color input).bucket =
    rate.bucket.step (rate.level micros) (rate.request color input) := by
  have hburst := rate.bucket.step_burst (rate.level micros) (rate.request color input)
  rw [after, bucket, withBucket]
  generalize rate.bucket.step (rate.level micros) (rate.request color input) = b at hburst
  obtain ⟨burst, tokens, last⟩ := b
  obtain rfl : burst = rate.burstSize := hburst
  rfl

theorem Fits.converts (h : rate.Fits micros) : rate.Converts micros := by
  obtain ⟨hpos, -, hlevel⟩ := h
  have hproduct : 0 ≤ micros * rate.infoRate := mul_nonneg (Nat.cast_nonneg _) hpos
  refine ⟨by linarith, not_le.mp fun hbig => ?_⟩
  have hfloor : (2 ^ 64 : ℤ) ≤ (micros * rate.infoRate).floor :=
    Rat.le_floor_iff.mpr (by exact_mod_cast hbig)
  rw [level] at hlevel
  omega

/-- The rate is a bucket. -/
theorem Fits.filled_eq (h : rate.Fits micros) :
    rate.filled micros = (rate.bucket.fill (rate.level micros)).tokens := by
  obtain ⟨-, htokens, hlevel⟩ := h
  rw [filled, Nat.mod_eq_of_lt (by omega)]
  rfl

end MeterRate

namespace Meter

variable {micros input color : ℕ} {rates rates' : List MeterRate}

/-- The rates from the highest color to the lowest. -/
def Descending (rates : List MeterRate) : Prop :=
  (rates.map MeterRate.color).Pairwise (· > ·) ∧ ∀ rate ∈ rates, 0 < rate.color

/-- The color of the highest rate that does not cover the packet, if there is one. -/
def HasColor (rates : List MeterRate) (micros input color : ℕ) : Prop :=
  (color = 0 ∧ ∀ rate ∈ rates, rate.Covers micros input) ∨
    ∃ rate ∈ rates, rate.color = color ∧ ¬ rate.Covers micros input ∧
      ∀ rate' ∈ rates, color < rate'.color → rate'.Covers micros input

/-- The first rate that does not cover the packet ends the loop. -/
theorem executeRates_cons (micros input : ℕ) (rate : MeterRate) (rates : List MeterRate) :
    executeRates micros input (rate :: rates) =
      if ¬ rate.Converts micros then none
      else if rate.level micros < rate.tokensLast then none
      else if rate.filled micros < input then
        some (rate.color, rate.fillTo micros (rate.filled micros) :: rates)
      else (executeRates micros input rates).map fun p =>
        (p.1, rate.fillTo micros (rate.filled micros - input) :: p.2) := by
  have hconv : (micros * rate.infoRate ≤ -1 ∨ 2 ^ 64 ≤ micros * rate.infoRate) ↔
      ¬ rate.Converts micros := by
    rw [MeterRate.Converts, not_and_or, not_lt, not_lt]
  rw [executeRates]
  apply if_congr hconv rfl
  apply if_congr Iff.rfl rfl
  apply if_congr Iff.rfl rfl
  cases executeRates micros input rates <;> rfl

theorem execute_of_configured {m : Meter} (hm : m.configured = true) (micros ingressLength : ℕ) :
    m.execute micros ingressLength =
      (executeRates micros (if m.type = .packets then 1 else ingressLength) m.rates).map fun p =>
        (p.1, { m with rates := p.2 }) := by
  rw [execute, if_neg (by simp [hm])]

/-- With a clock that did not go back and numbers that have a conversion, the loop comes to an
end. -/
theorem executeRates_isSome (input : ℕ) (hconv : ∀ rate ∈ rates, rate.Converts micros)
    (h : ∀ rate ∈ rates, rate.tokensLast ≤ rate.level micros) :
    (executeRates micros input rates).isSome := by
  induction rates with
  | nil => rfl
  | cons rate rates ih =>
    obtain ⟨hrate, hrest⟩ := List.forall_mem_cons.mp h
    obtain ⟨hfirst, hothers⟩ := List.forall_mem_cons.mp hconv
    rw [executeRates_cons, if_neg (not_not.mpr hfirst), if_neg (by omega)]
    split_ifs
    · rfl
    · rw [Option.isSome_map]
      exact ih hothers hrest

/-- What an execution leaves of a rate in any case: its bucket is not ahead of the clock. -/
structure Kept (micros : ℕ) (rate rate' : MeterRate) : Prop where
  color : rate'.color = rate.color
  infoRate : rate'.infoRate = rate.infoRate
  burstSize : rate'.burstSize = rate.burstSize
  last : rate.tokensLast ≤ rate.level micros → rate'.tokensLast ≤ rate'.level micros

theorem executeRates_kept (h : executeRates micros input rates = some (color, rates')) :
    List.Forall₂ (Kept micros) rates rates' := by
  induction rates generalizing color rates' with
  | nil =>
    obtain ⟨rfl, rfl⟩ := Prod.mk.inj (Option.some.inj h)
    exact .nil
  | cons rate rates ih =>
    rw [executeRates_cons] at h
    split_ifs at h
    · obtain ⟨rfl, rfl⟩ := Prod.mk.inj (Option.some.inj h)
      exact .cons ⟨rfl, rfl, rfl, fun _ => le_rfl⟩
        (List.forall₂_same.mpr fun r _ => ⟨rfl, rfl, rfl, id⟩)
    · obtain ⟨⟨c, rest⟩, hgo, heq⟩ := Option.map_eq_some_iff.mp h
      obtain ⟨rfl, rfl⟩ := Prod.mk.inj heq
      exact .cons ⟨rfl, rfl, rfl, fun _ => le_rfl⟩ (ih hgo)

/-- What the loop did to every rate, and where the color comes from. -/
theorem executeRates_spec (hdesc : Descending rates) (hfits : ∀ rate ∈ rates, rate.Fits micros)
    (h : executeRates micros input rates = some (color, rates')) :
    rates' = rates.map (MeterRate.after micros color input) ∧ HasColor rates micros input color ∧
      ∀ rate ∈ rates, rate.bucket.Allows (rate.level micros) (rate.request color input) := by
  induction rates generalizing color rates' with
  | nil =>
    obtain ⟨rfl, rfl⟩ := Prod.mk.inj (Option.some.inj h)
    exact ⟨rfl, .inl ⟨rfl, fun _ hr => absurd hr List.not_mem_nil⟩,
      fun _ hr => absurd hr List.not_mem_nil⟩
  | cons rate rates ih =>
    obtain ⟨hcolors, hpos⟩ := hdesc
    rw [List.map_cons, List.pairwise_cons] at hcolors
    obtain ⟨hhead, htail⟩ := hcolors
    obtain ⟨hrate, hrest⟩ := List.forall_mem_cons.mp hpos
    have hlower : ∀ r ∈ rates, r.color < rate.color := fun r hr =>
      hhead r.color (List.mem_map_of_mem hr)
    obtain ⟨hfit, hfitrest⟩ := List.forall_mem_cons.mp hfits
    rw [executeRates_cons, hfit.filled_eq] at h
    split_ifs at h with hconv hlast hcover
    · -- the packet gets the color of this rate, and those behind it are left alone
      obtain ⟨rfl, rfl⟩ := Prod.mk.inj (Option.some.inj h)
      have hskip : ∀ r ∈ rates, r.request rate.color input = .skip := by
        intro r hr
        have hlt := hlower r hr
        rw [MeterRate.request, if_neg (by omega), if_neg (by omega)]
      have hrefuse : rate.request rate.color input = .refuse := by
        rw [MeterRate.request, if_neg (lt_irrefl _), if_pos rfl]
      refine ⟨?_, .inr ⟨rate, List.mem_cons_self, rfl, ?_, ?_⟩, ?_⟩
      · rw [List.map_cons, MeterRate.after, hrefuse]
        congr 1
        refine (List.map_congr_left fun r hr => ?_).symm.trans (List.map_id rates) |>.symm
        rw [MeterRate.after, hskip r hr]
        rfl
      · exact Nat.not_le.mpr hcover
      · intro r hr hlt
        rcases List.mem_cons.mp hr with rfl | hr
        · exact absurd hlt (lt_irrefl _)
        · exact absurd hlt (by have := hlower r hr; omega)
      · refine List.forall_mem_cons.mpr ⟨?_, fun r hr => ?_⟩
        · rw [hrefuse]
          exact Nat.le_of_not_lt hlast
        · rw [hskip r hr]
          trivial
    · -- the packet goes on to the rates behind
      obtain ⟨⟨c, rest⟩, hgo, heq⟩ := Option.map_eq_some_iff.mp h
      obtain ⟨rfl, rfl⟩ := Prod.mk.inj heq
      obtain ⟨hmap, hcolor, hallows⟩ := ih ⟨htail, hrest⟩ hfitrest hgo
      have hlt : c < rate.color := by
        rcases hcolor with ⟨rfl, -⟩ | ⟨r, hr, rfl, -⟩
        · exact hrate
        · exact hlower r hr
      have htake : rate.request c input = .take input := by rw [MeterRate.request, if_pos hlt]
      refine ⟨?_, ?_, ?_⟩
      · rw [List.map_cons, MeterRate.after, htake, ← hmap]
        rfl
      · rcases hcolor with ⟨rfl, hall⟩ | ⟨r, hr, rfl, hnot, habove⟩
        · exact .inl ⟨rfl, List.forall_mem_cons.mpr ⟨Nat.le_of_not_lt hcover, hall⟩⟩
        · exact .inr ⟨r, List.mem_cons_of_mem _ hr, rfl, hnot,
            List.forall_mem_cons.mpr ⟨fun _ => Nat.le_of_not_lt hcover, habove⟩⟩
      · refine List.forall_mem_cons.mpr ⟨?_, hallows⟩
        rw [htake]
        exact ⟨Nat.le_of_not_lt hlast, Nat.le_of_not_lt hcover⟩

end Meter

end Bmv2
