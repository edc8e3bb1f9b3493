import Bmv2.Lib.Bisimulation
import Bmv2.Meters
import Mathlib.Data.List.Chain
import Mathlib.Tactic.Linarith

/-! What `set_rates` writes to a meter: every rate when it accepts them, and some of them when it
does not (`meters.cpp`, `meters.h`). -/
namespace Bmv2

/-- A rate as `set_rate` writes it. -/
def MeterRate.configured (idx : ℕ) (config : RateConfig) : MeterRate where
  valid := true
  infoRate := config.infoRate
  burstSize := config.burstSize
  tokens := config.burstSize
  tokensLast := 0
  color := idx + 1

/-- The rates of a list of configurations, from index `idx` on. -/
def MeterRate.configuredFrom : ℕ → List RateConfig → List MeterRate
  | _, [] => []
  | idx, config :: configs =>
    MeterRate.configured idx config :: MeterRate.configuredFrom (idx + 1) configs

@[simp] theorem MeterRate.length_configuredFrom (idx : ℕ) (configs : List RateConfig) :
    (MeterRate.configuredFrom idx configs).length = configs.length := by
  induction configs generalizing idx with
  | nil => rfl
  | cons config configs ih => simp [MeterRate.configuredFrom, ih]

theorem MeterRate.exists_of_mem_configuredFrom {rate : MeterRate} {configs : List RateConfig}
    {idx : ℕ} (h : rate ∈ MeterRate.configuredFrom idx configs) :
    ∃ j config, config ∈ configs ∧ rate = MeterRate.configured j config := by
  induction configs generalizing idx with
  | nil => cases h
  | cons config configs ih =>
    rcases List.mem_cons.mp h with rfl | h
    · exact ⟨idx, config, List.mem_cons_self, rfl⟩
    · obtain ⟨j, config', hmem, hrate⟩ := ih h
      exact ⟨j, config', List.mem_cons_of_mem _ hmem, hrate⟩

namespace Meter

variable {m : Meter} {idx : ℕ} {config : RateConfig} {configs : List RateConfig}

/-- `set_rate` writes the rate in any case. -/
theorem setRate_snd (m : Meter) (idx : ℕ) (config : RateConfig) :
    (m.setRate idx config).2 =
      { m with rates := m.rates.set idx (MeterRate.configured idx config) } := by
  unfold setRate
  dsimp only
  split
  · rfl
  · rfl
  · split_ifs <;> rfl

theorem setRate_fst_cases (m : Meter) (idx : ℕ) (config : RateConfig) :
    (m.setRate idx config).1 = .success ∨ (m.setRate idx config).1 = .invalidInfoRateValue := by
  unfold setRate
  dsimp only
  split
  · exact .inl rfl
  · exact .inl rfl
  · split_ifs
    · exact .inr rfl
    · exact .inl rfl

theorem setRate_zero (m : Meter) (config : RateConfig) :
    (m.setRate 0 config).1 = .success := by
  unfold setRate
  dsimp only
  split
  · rfl
  · rfl
  · contradiction

/-- It accepts the rate if the one below is not higher. -/
theorem setRate_succ {i : ℕ} {prev : MeterRate} (hprev : m.rates[i]? = some prev)
    (config : RateConfig) : (m.setRate (i + 1) config).1 = .success ↔
      prev.infoRate ≤ config.infoRate := by
  by_cases h : prev.infoRate > config.infoRate
  · exact iff_of_false (by simp [setRate, hprev, h]) (not_le.mpr h)
  · exact iff_of_true (by simp [setRate, hprev, h]) (not_lt.mp h)

theorem setRatesFrom_of_success (h : (m.setRate idx config).1 = .success) :
    m.setRatesFrom idx (config :: configs) =
      (m.setRate idx config).2.setRatesFrom (idx + 1) configs := by
  rw [setRatesFrom]
  generalize m.setRate idx config = p at h
  obtain ⟨rc, m₁⟩ := p
  obtain rfl : rc = .success := h
  rfl

theorem setRatesFrom_of_ne_success (h : (m.setRate idx config).1 ≠ .success) :
    m.setRatesFrom idx (config :: configs) = m.setRate idx config := by
  rw [setRatesFrom]
  generalize m.setRate idx config = p at h
  obtain ⟨rc, m₁⟩ := p
  cases rc with
  | success => exact absurd rfl h
  | _ => rfl

/-- A rate is written behind those that are written already. -/
theorem setRate_snd_append {written old : List MeterRate} {rate : MeterRate}
    (hm : m.rates = written ++ rate :: old) (config : RateConfig) :
    (m.setRate written.length config).2 =
      { m with rates := (written ++ [MeterRate.configured written.length config]) ++ old } := by
  rw [setRate_snd, hm, List.set_append_right _ _ le_rfl, Nat.sub_self, List.set_cons_zero,
    List.append_assoc, List.singleton_append]

/-- The loop accepts rates that do not go down. -/
theorem setRatesFrom_fst {written old : List MeterRate} (hm : m.rates = written ++ old)
    (hlen : configs.length ≤ old.length) : (m.setRatesFrom written.length configs).1 = .success ↔
      (written.getLast?.toList.map MeterRate.infoRate ++
        configs.map RateConfig.infoRate).IsChain (· ≤ ·) := by
  induction configs generalizing m written old with
  | nil =>
    refine iff_of_true rfl ?_
    cases written.getLast? <;> simp
  | cons config configs ih =>
    obtain ⟨rate, old, rfl⟩ := List.exists_cons_of_length_pos (lt_of_lt_of_le (by simp) hlen)
    have hwritten := congrArg Meter.rates (setRate_snd_append hm config)
    have hnext := ih hwritten (by simpa using hlen)
    rw [List.length_append, List.length_singleton, List.getLast?_concat] at hnext
    rcases List.eq_nil_or_concat' written with rfl | ⟨written, prev, rfl⟩
    · rw [List.length_nil, setRatesFrom_of_success (m.setRate_zero config)]
      exact hnext
    · rw [List.length_append, List.length_singleton] at hnext
      have hprev : m.rates[written.length]? = some prev := by
        rw [hm]
        simp
      have hcode := setRate_succ hprev config
      rw [List.length_append, List.length_singleton, List.getLast?_concat]
      change _ ↔
        (prev.infoRate :: config.infoRate :: configs.map RateConfig.infoRate).IsChain (· ≤ ·)
      rw [List.isChain_cons_cons]
      by_cases hrc : (m.setRate (written.length + 1) config).1 = .success
      · rw [setRatesFrom_of_success hrc, hnext]
        exact (and_iff_right (hcode.mp hrc)).symm
      · rw [setRatesFrom_of_ne_success hrc]
        exact iff_of_false hrc fun h => hrc (hcode.mpr h.1)

/-- The loop writes the rates one behind the other, up to the first one that it refuses; that is
never the lowest one. -/
theorem setRatesFrom_snd {written old : List MeterRate} (hm : m.rates = written ++ old)
    (hlen : configs.length ≤ old.length) :
    ∃ k ≤ configs.length, (m.setRatesFrom written.length configs).2 =
        { m with
          rates :=
            written ++ MeterRate.configuredFrom written.length (configs.take k) ++ old.drop k } ∧
      ((m.setRatesFrom written.length configs).1 = .success → k = configs.length) ∧
      ((m.setRatesFrom written.length configs).1 ≠ .success → 2 ≤ written.length + k ∧ 0 < k) := by
  induction configs generalizing m written old with
  | nil => exact ⟨0, le_rfl, by simp [setRatesFrom, MeterRate.configuredFrom, ← hm], fun _ => rfl,
      fun h => absurd rfl h⟩
  | cons config configs ih =>
    obtain ⟨rate, old, rfl⟩ := List.exists_cons_of_length_pos (lt_of_lt_of_le (by simp) hlen)
    have hwritten := setRate_snd_append hm config
    by_cases hrc : (m.setRate written.length config).1 = .success
    · obtain ⟨k, hk, hrates, hsuccess, hrefused⟩ := ih (congrArg Meter.rates hwritten)
        (by simpa using hlen)
      rw [List.length_append, List.length_singleton] at hrates hsuccess hrefused
      rw [setRatesFrom_of_success hrc]
      refine ⟨k + 1, by simpa using hk, ?_, fun h => by rw [hsuccess h]; rfl,
        fun h => ⟨by have := (hrefused h).1; omega, Nat.succ_pos k⟩⟩
      rw [hrates, hwritten]
      simp [MeterRate.configuredFrom]
    · rw [setRatesFrom_of_ne_success hrc]
      have hfirst : 2 ≤ written.length + 1 := by
        rcases List.eq_nil_or_concat written with rfl | ⟨written, prev, rfl⟩
        · exact absurd (m.setRate_zero config) hrc
        · simp
      refine ⟨1, by simp, ?_, fun h => absurd h hrc, fun _ => ⟨hfirst, Nat.one_pos⟩⟩
      rw [hwritten]
      simp [MeterRate.configuredFrom]

theorem setRatesFrom_refused (h : (m.setRatesFrom idx configs).1 ≠ .success) :
    (m.setRatesFrom idx configs).1 = .invalidInfoRateValue := by
  induction configs generalizing m idx with
  | nil => exact absurd rfl h
  | cons config configs ih =>
    by_cases hrc : (m.setRate idx config).1 = .success
    · rw [setRatesFrom_of_success hrc] at h ⊢
      exact ih h
    · rw [setRatesFrom_of_ne_success hrc]
      exact (m.setRate_fst_cases idx config).resolve_left hrc

theorem setRates_of_length_ne (h : configs.length ≠ m.rates.length) :
    m.setRates configs = (.badRatesList, m) := if_pos h

theorem setRates_of_length_eq (h : configs.length = m.rates.length) :
    ((configs.map RateConfig.infoRate).IsChain (· ≤ ·) ∧ m.setRates configs = (.success,
        { m with rates := (MeterRate.configuredFrom 0 configs).reverse, configured := true })) ∨
      (¬ (configs.map RateConfig.infoRate).IsChain (· ≤ ·) ∧ ∃ k ≤ configs.length, 2 ≤ k ∧
        m.setRates configs = (.invalidInfoRateValue, { m with
          rates := MeterRate.configuredFrom 0 (configs.take k) ++ m.rates.drop k })) := by
  have hold : m.rates = [] ++ m.rates := rfl
  have hfst := setRatesFrom_fst hold h.le
  obtain ⟨k, hk, hsnd, hsuccess, hrefused⟩ :=
    setRatesFrom_snd hold h.le
  have hcode : (m.setRatesFrom 0 configs).1 ≠ .success → _ := setRatesFrom_refused
  simp only [List.length_nil, List.getLast?_nil, Option.toList_none, List.map_nil, List.nil_append,
    Nat.zero_add] at hfst hsnd hsuccess hrefused
  rw [← hfst, setRates, if_neg (not_not.mpr h)]
  generalize m.setRatesFrom 0 configs = p at hsnd hsuccess hrefused hcode
  obtain ⟨rc, m₁⟩ := p
  obtain rfl : m₁ = _ := hsnd
  by_cases hrc : rc = .success
  · subst hrc
    refine .inl ⟨rfl, ?_⟩
    rw [hsuccess rfl, List.take_length, List.drop_eq_nil_of_le h.ge, List.append_nil]
  · obtain rfl : rc = .invalidInfoRateValue := hcode hrc
    exact .inr ⟨hrc, k, hk, (hrefused hrc).1, rfl⟩

theorem setRates_length (m : Meter) (configs : List RateConfig) :
    (m.setRates configs).2.rates.length = m.rates.length := by
  by_cases hlen : configs.length = m.rates.length
  · rcases setRates_of_length_eq hlen with ⟨-, heq⟩ | ⟨-, k, hk, -, heq⟩
    · rw [heq]
      simpa using hlen
    · rw [heq]
      simp
      omega
  · rw [setRates_of_length_ne hlen]

/-- `set_rates` accepts the lists of the right length whose rates do not go down. -/
theorem setRates_fst_iff : (m.setRates configs).1 = .success ↔
    configs.length = m.rates.length ∧ (configs.map RateConfig.infoRate).IsChain (· ≤ ·) := by
  by_cases hlen : configs.length = m.rates.length
  · rcases setRates_of_length_eq hlen with ⟨hchain, heq⟩ | ⟨hchain, k, -, -, heq⟩
    · rw [heq]
      exact iff_of_true rfl ⟨hlen, hchain⟩
    · rw [heq]
      exact iff_of_false (by simp) fun h => hchain h.2
  · rw [setRates_of_length_ne hlen]
    exact iff_of_false (by simp) fun h => hlen h.1

end Meter

end Bmv2
