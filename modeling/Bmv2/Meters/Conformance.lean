import Bmv2.Meters.Buckets

/-! Conformance of a configured meter: how much of its traffic a rate lets pass between two
packets. -/
namespace Bmv2
open TokenBucket

/-- A packet that a meter is executed on, with the clock reading of that call. -/
structure MeteredPacket where
  micros : ℕ
  ingressLength : ℕ
  deriving DecidableEq

/-- The tokens that a rate gives from the start of the clock on. -/
def RateConfig.tokensSinceInit (config : RateConfig) (micros : ℕ) : ℕ :=
  (micros * config.infoRate).floor.toNat

namespace Meter

def input (type : MeterType) (p : MeteredPacket) : ℕ :=
  if type = .packets then 1 else p.ingressLength

/-- The colors of a sequence of packets, and the meter behind it. -/
def executeAll (m : Meter) : List MeteredPacket → Option (List ℕ × Meter)
  | [] => some ([], m)
  | p :: packets => do
    let (color, m) ← m.execute p.micros p.ingressLength
    let (colors, m) ← executeAll m packets
    some (color :: colors, m)

/-- The rates are those of a list of configurations, highest first; the one of index `idx` colors
with `idx + 1`. -/
def Follows (configs : List RateConfig) (rates : List MeterRate) : Prop :=
  rates.map (fun rate => (rate.infoRate, rate.burstSize, rate.color)) =
    (configs.zipIdx.map fun c => (c.1.infoRate, c.1.burstSize, c.2 + 1)).reverse

/-- What packets of a lower color than that of index `idx` bring in. -/
def passedInput (type : MeterType) (idx : ℕ) (packets : List MeteredPacket) (colors : List ℕ) : ℕ :=
  ((packets.zip colors).map fun pc => if pc.2 < idx + 1 then input type pc.1 else 0).sum

/-- No rate lets more pass than its burst size and what it gives between the first packet and
the last. -/
def Conforms (configs : List RateConfig) (type : MeterType) (packets : List MeteredPacket)
    (colors : List ℕ) : Prop :=
  ∀ first last, packets.head? = some first → packets.getLast? = some last →
    ∀ idx config, configs[idx]? = some config →
      passedInput type idx packets colors ≤ config.burstSize +
        (config.tokensSinceInit last.micros - config.tokensSinceInit first.micros)

section Follows

variable {configs : List RateConfig} {rates : List MeterRate}

theorem Follows.colors (h : Follows configs rates) :
    rates.map MeterRate.color = (List.range' 1 configs.length).reverse := by
  have hcolor := congrArg (List.map fun r : ℚ × ℕ × ℕ => r.2.2) h
  rw [List.map_map, List.map_reverse, List.map_map] at hcolor
  refine hcolor.trans (congrArg List.reverse ?_)
  rw [List.range'_succ_left, ← List.zipIdx_map_snd 0 configs, List.map_map]
  rfl

theorem Follows.descending (h : Follows configs rates) : Descending rates := by
  refine ⟨?_, fun rate hrate => ?_⟩
  · rw [h.colors, List.pairwise_reverse]
    exact List.pairwise_lt_range'
  · have hmem := List.mem_map_of_mem (f := MeterRate.color) hrate
    rw [h.colors, List.mem_reverse, List.mem_range'_1] at hmem
    omega

/-- Every rate is one of the list. -/
theorem Follows.config (h : Follows configs rates) {rate : MeterRate} (hrate : rate ∈ rates) :
    ∃ config ∈ configs, rate.infoRate = config.infoRate ∧ rate.burstSize = config.burstSize := by
  have hmem := List.mem_map_of_mem (f := fun rate : MeterRate =>
    (rate.infoRate, rate.burstSize, rate.color)) hrate
  rw [h, List.mem_reverse, List.mem_map] at hmem
  obtain ⟨⟨config, idx⟩, hconfig, heq⟩ := hmem
  obtain ⟨hinfo, hburst⟩ := Prod.mk.inj heq
  refine ⟨config, ?_, hinfo.symm, (Prod.mk.inj hburst).1.symm⟩
  exact List.fst_mem_of_mem_zipIdx hconfig

/-- Every one of the list has its rate. -/
theorem Follows.rate (h : Follows configs rates) {idx : ℕ} {config : RateConfig}
    (hconfig : configs[idx]? = some config) : ∃ rate ∈ rates, rate.infoRate = config.infoRate ∧
      rate.burstSize = config.burstSize ∧ rate.color = idx + 1 := by
  have hmem : (config.infoRate, config.burstSize, idx + 1) ∈
      rates.map fun rate => (rate.infoRate, rate.burstSize, rate.color) := by
    rw [h, List.mem_reverse]
    exact List.mem_map_of_mem (a := (config, idx)) (List.mk_mem_zipIdx_iff_getElem?.mpr hconfig)
  obtain ⟨rate, hrate, heq⟩ := List.mem_map.mp hmem
  obtain ⟨hinfo, hrest⟩ := Prod.mk.inj heq
  obtain ⟨hburst, hcolor⟩ := Prod.mk.inj hrest
  exact ⟨rate, hrate, hinfo, hburst, hcolor⟩

theorem Follows.after (h : Follows configs rates) (micros color inp : ℕ) :
    Follows configs (rates.map (MeterRate.after micros color inp)) := by
  rw [Follows, List.map_map]
  exact h

theorem follows_configuredFrom (configs : List RateConfig) :
    Follows configs (MeterRate.configuredFrom 0 configs).reverse := by
  have hfrom : ∀ (configs : List RateConfig) (idx : ℕ),
      (MeterRate.configuredFrom idx configs).map
          (fun rate => (rate.infoRate, rate.burstSize, rate.color)) =
        (configs.zipIdx idx).map fun c => (c.1.infoRate, c.1.burstSize, c.2 + 1) := by
    intro configs
    induction configs with
    | nil => exact fun _ => rfl
    | cons config configs ih =>
      intro idx
      rw [MeterRate.configuredFrom, List.map_cons, ih, List.zipIdx_cons, List.map_cons]
      rfl
  rw [Follows, List.map_reverse, hfrom]

end Follows

/-- A meter that was configured and has been executed up to the time `now`. -/
structure Running (configs : List RateConfig) (type : MeterType) (now : ℕ) (m : Meter) : Prop where
  configured : m.configured = true
  type_eq : m.type = type
  follows : Follows configs m.rates
  tokens : ∀ rate ∈ m.rates, rate.tokens ≤ rate.burstSize
  last : ∀ rate ∈ m.rates, rate.tokensLast ≤ rate.level now

section Running

variable {configs : List RateConfig} {type : MeterType} {now now' : ℕ} {m s : Meter}
  {p : MeteredPacket} {packets : List MeteredPacket}

theorem Running.mono (h : Running configs type now s) (hnow : now ≤ now') :
    Running configs type now' s :=
  { h with last := fun rate hrate => (h.last rate hrate).trans (rate.level_mono hnow) }

theorem Running.of_setRates (h : m.setRates configs = (.success, s)) :
    Running configs m.type 0 s := by
  by_cases hlen : configs.length = m.rates.length
  · rcases setRates_of_length_eq hlen with ⟨-, heq⟩ | ⟨-, k, -, -, heq⟩
    · obtain rfl := (Prod.mk.inj (heq.symm.trans h)).2
      have hwritten : ∀ rate ∈ (MeterRate.configuredFrom 0 configs).reverse,
          ∃ j config, config ∈ configs ∧ rate = MeterRate.configured j config :=
        fun rate hrate => MeterRate.exists_of_mem_configuredFrom (List.mem_reverse.mp hrate)
      refine ⟨rfl, rfl, follows_configuredFrom configs, fun rate hrate => ?_, fun rate hrate => ?_⟩
      · obtain ⟨j, config, -, rfl⟩ := hwritten rate hrate
        exact le_rfl
      · obtain ⟨j, config, -, rfl⟩ := hwritten rate hrate
        exact Nat.zero_le _
    · cases (Prod.mk.inj (heq.symm.trans h)).1
  · rw [setRates_of_length_ne hlen] at h
    cases (Prod.mk.inj h).1

/-- The numbers of every rate fit in 64 bits at the time of a packet. -/
def NoOverflow (configs : List RateConfig) (p : MeteredPacket) : Prop :=
  ∀ config ∈ configs, config.burstSize + config.tokensSinceInit p.micros < 2 ^ 64

instance : Decidable (NoOverflow configs p) :=
  inferInstanceAs (Decidable (∀ config ∈ configs, _))

/-- What one packet does to a running meter. -/
theorem Running.step (h : Running configs type now s)
    (hpos : ∀ config ∈ configs, 0 ≤ config.infoRate)
    (hnow : now ≤ p.micros) (hfits : NoOverflow configs p) :
    ∃ color s', s.execute p.micros p.ingressLength = some (color, s') ∧
      Running configs type p.micros s' ∧
      s'.rates = s.rates.map (MeterRate.after p.micros color (input type p)) ∧
      HasColor s.rates p.micros (input type p) color ∧ ∀ rate ∈ s.rates,
        rate.bucket.Allows (rate.level p.micros) (rate.request color (input type p)) := by
  have hrates : ∀ rate ∈ s.rates, rate.Fits p.micros := by
    intro rate hrate
    obtain ⟨config, hconfig, hinfo, hburst⟩ := h.follows.config hrate
    have hlevel : rate.level p.micros = config.tokensSinceInit p.micros := by
      rw [MeterRate.level, hinfo, RateConfig.tokensSinceInit]
    exact ⟨hinfo ▸ hpos config hconfig, h.tokens rate hrate,
      by rw [hburst, hlevel]; exact hfits config hconfig⟩
  have hlast := fun rate hrate => (h.mono hnow).last rate hrate
  obtain ⟨⟨color, rates⟩, hgo⟩ := Option.isSome_iff_exists.mp
    (executeRates_isSome (input type p) (fun rate hrate => (hrates rate hrate).converts) hlast)
  obtain ⟨hmap, hcolor, hallows⟩ := executeRates_spec h.follows.descending hrates hgo
  refine ⟨color, { s with rates }, ?_, ?_, hmap, hcolor, hallows⟩
  · rw [execute_of_configured h.configured, h.type_eq]
    exact congrArg (Option.map _) hgo
  · subst hmap
    refine ⟨h.configured, h.type_eq, h.follows.after _ _ _, fun rate hrate => ?_,
      fun rate hrate => ?_⟩
    · obtain ⟨old, hold, rfl⟩ := List.mem_map.mp hrate
      have hspent := (Bucket.Spent.zero (b := old.bucket) (h.tokens old hold) 0).step
        (Nat.zero_le _) (hallows old hold)
      have htokens := hspent.tokens_le
      rw [← MeterRate.bucket_after] at htokens
      exact htokens
    · obtain ⟨old, hold, rfl⟩ := List.mem_map.mp hrate
      have hend : (old.bucket.run [(old.level p.micros, old.request color (input type p))]).last ≤
          old.level p.micros := Bucket.last_run_le (hlast old hold) (by simp)
      change (old.bucket.step _ _).last ≤ _ at hend
      rw [← MeterRate.bucket_after] at hend
      exact hend

/-- The requests to the bucket of a rate in a run. -/
def requests (rate : MeterRate) (type : MeterType) (packets : List MeteredPacket)
    (colors : List ℕ) : List (ℕ × Request) :=
  (packets.zip colors).map fun pc =>
    (rate.level pc.1.micros, rate.request pc.2 (input type pc.1))

theorem executeAll_cons {color : ℕ} {colors : List ℕ} {s₁ s' : Meter}
    (hexec : s.execute p.micros p.ingressLength = some (color, s₁))
    (hall : s₁.executeAll packets = some (colors, s')) :
    s.executeAll (p :: packets) = some (color :: colors, s') :=
  Option.bind_eq_some_iff.mpr ⟨_, hexec, Option.bind_eq_some_iff.mpr ⟨_, hall, rfl⟩⟩

/-- A run of a meter is a run of each of its buckets. -/
theorem Running.run (h : Running configs type now s)
    (hpos : ∀ config ∈ configs, 0 ≤ config.infoRate)
    (hclock : packets.Pairwise fun p q => p.micros ≤ q.micros)
    (hnow : ∀ p ∈ packets, now ≤ p.micros) (hfits : ∀ p ∈ packets, NoOverflow configs p) :
    ∃ colors s' now', s.executeAll packets = some (colors, s') ∧ Running configs type now' s' ∧
      (∀ t, now ≤ t → (∀ p ∈ packets, p.micros ≤ t) → now' ≤ t) ∧
      ∀ rate ∈ s.rates, rate.bucket.AllowsAll (requests rate type packets colors) := by
  induction packets generalizing s now with
  | nil => exact ⟨[], s, now, rfl, h, fun t ht _ => ht, fun _ _ => trivial⟩
  | cons p packets ih =>
    obtain ⟨hp, hnowrest⟩ := List.forall_mem_cons.mp hnow
    obtain ⟨hfit, hfitrest⟩ := List.forall_mem_cons.mp hfits
    obtain ⟨hafter, hclockrest⟩ := List.pairwise_cons.mp hclock
    obtain ⟨color, s₁, hexec, hrunning, hrates, -, hallows⟩ := h.step hpos hp hfit
    obtain ⟨colors, s', now', hall, hend, hlast, hbuckets⟩ := ih hrunning hclockrest hafter hfitrest
    refine ⟨color :: colors, s', now', executeAll_cons hexec hall, hend, fun t ht htimes => ?_,
      fun rate hrate => ?_⟩
    · obtain ⟨hfirst, hothers⟩ := List.forall_mem_cons.mp htimes
      exact hlast t hfirst hothers
    · refine ⟨hallows rate hrate, ?_⟩
      have hmem : rate.after p.micros color (input type p) ∈ s₁.rates := by
        rw [hrates]
        exact List.mem_map_of_mem hrate
      have hrest := hbuckets _ hmem
      rw [MeterRate.bucket_after] at hrest
      exact hrest

/-- The packets of a window conform, whatever came before it. -/
theorem Running.conforms (h : Running configs type now s)
    (hpos : ∀ config ∈ configs, 0 ≤ config.infoRate)
    (hclock : packets.Pairwise fun p q => p.micros ≤ q.micros)
    (hnow : ∀ p ∈ packets, now ≤ p.micros) (hfits : ∀ p ∈ packets, NoOverflow configs p)
    {colors : List ℕ} {s' : Meter} (hrun : s.executeAll packets = some (colors, s')) :
    Conforms configs type packets colors := by
  intro first last hfirst hlast idx config hconfig
  obtain ⟨colors', s'', -, hrun', -, -, hbuckets⟩ := h.run hpos hclock hnow hfits
  obtain ⟨rfl, rfl⟩ := Prod.mk.inj (Option.some.inj (hrun.symm.trans hrun'))
  obtain ⟨rate, hrate, hinfo, hburst, hcolor⟩ := h.follows.rate hconfig
  have hlevel : ∀ t, rate.level t = config.tokensSinceInit t := by
    intro t
    rw [MeterRate.level, hinfo, RateConfig.tokensSinceInit]
  have hfirstle : ∀ p ∈ packets, first.micros ≤ p.micros := by
    obtain ⟨rest, rfl⟩ := List.head?_eq_some_iff.mp hfirst
    exact List.forall_mem_cons.mpr ⟨le_rfl, (List.pairwise_cons.mp hclock).1⟩
  have hlelast : ∀ p ∈ packets, p.micros ≤ last.micros := by
    obtain ⟨init, rfl⟩ := List.getLast?_eq_some_iff.mp hlast
    intro p hp
    rcases List.mem_append.mp hp with hp | hp
    · exact (List.pairwise_append.mp hclock).2.2 p hp last List.mem_cons_self
    · rw [List.mem_singleton.mp hp]
  have hlastmem : last ∈ packets := List.mem_of_getLast? hlast
  have hbound := Bucket.sum_taken_le (rate.level first.micros) (h.tokens rate hrate)
    ((h.mono (hnow last hlastmem)).last rate hrate) ?_ (hbuckets rate hrate)
  · rw [hlevel, hlevel] at hbound
    refine le_trans (le_of_eq ?_) (hbound.trans_eq (congrArg (· + _) hburst))
    rw [passedInput, requests, List.map_map]
    refine congrArg List.sum (List.map_congr_left fun pc _ => ?_)
    simp only [Function.comp_apply, MeterRate.request, hcolor]
    split_ifs <;> rfl
  · intro q hq
    obtain ⟨⟨p, c⟩, hpc, rfl⟩ := List.mem_map.mp hq
    have hp := (List.of_mem_zip hpc).1
    exact ⟨rate.level_mono (hfirstle p hp), rate.level_mono (hlelast p hp)⟩

end Running

/-- Conformance of a meter whose rates were accepted, whatever it was before: no bucket is ever
above its burst size, the color of a packet is that of the highest rate that does not cover it, and
between any two packets no rate lets more pass than its burst size and what it gives. -/
theorem setRates_conforms {configs : List RateConfig} {m s : Meter}
    (hset : m.setRates configs = (.success, s)) (hpos : ∀ config ∈ configs, 0 ≤ config.infoRate)
    {packets : List MeteredPacket} (hclock : packets.Pairwise fun p q => p.micros ≤ q.micros)
    (hfits : ∀ p ∈ packets, NoOverflow configs p) :
    (∃ colors s', s.executeAll packets = some (colors, s')) ∧
      (∀ before after, packets = before ++ after → ∃ colors mid,
        s.executeAll before = some (colors, mid) ∧ Follows configs mid.rates ∧
          (∀ rate ∈ mid.rates, rate.tokens ≤ rate.burstSize) ∧
          ∀ p ∈ after.head?, ∃ color s', mid.execute p.micros p.ingressLength = some (color, s') ∧
            HasColor mid.rates p.micros (input m.type p) color) ∧
      ∀ before window after, packets = before ++ (window ++ after) → ∃ colors mid colors' s',
        s.executeAll before = some (colors, mid) ∧ mid.executeAll window = some (colors', s') ∧
          Conforms configs m.type window colors' := by
  have hstart := Running.of_setRates hset
  have hrun : ∀ before after, packets = before ++ after → ∃ colors mid now',
      s.executeAll before = some (colors, mid) ∧ Running configs m.type now' mid ∧
        (∀ p ∈ after, now' ≤ p.micros) ∧ after.Pairwise fun p q => p.micros ≤ q.micros := by
    rintro before after rfl
    obtain ⟨hbefore, hafter, hcross⟩ := List.pairwise_append.mp hclock
    obtain ⟨colors, mid, now', hall, hmid, hlast, -⟩ := hstart.run hpos hbefore
      (fun _ _ => Nat.zero_le _) fun p hp => hfits p (List.mem_append_left _ hp)
    exact ⟨colors, mid, now', hall, hmid,
      fun p hp => hlast p.micros (Nat.zero_le _) fun q hq => hcross q hq p hp, hafter⟩
  refine ⟨?_, fun before after hsplit => ?_, fun before window after hsplit => ?_⟩
  · obtain ⟨colors, s', -, hall, -⟩ := hrun packets [] (List.append_nil _).symm
    exact ⟨colors, s', hall⟩
  · obtain ⟨colors, mid, now', hall, hmid, hnow, -⟩ := hrun before after hsplit
    refine ⟨colors, mid, hall, hmid.follows, hmid.tokens, fun p hp => ?_⟩
    obtain ⟨rest, rfl⟩ := List.head?_eq_some_iff.mp hp
    obtain ⟨color, s', hexec, -, -, hcolor, -⟩ := hmid.step hpos (hnow p List.mem_cons_self)
      (hfits p (by rw [hsplit]; simp))
    exact ⟨color, s', hexec, hcolor⟩
  · obtain ⟨colors, mid, now', hall, hmid, hnow, hsorted⟩ := hrun before (window ++ after) hsplit
    have hwindow := (List.pairwise_append.mp hsorted).1
    have hnowwindow := fun p hp => hnow p (List.mem_append_left after hp)
    have hfit : ∀ p ∈ window, NoOverflow configs p := by
      intro p hp
      exact hfits p (by rw [hsplit]; exact List.mem_append_right _ (List.mem_append_left _ hp))
    obtain ⟨colors', s', -, hexec, -⟩ := hmid.run hpos hwindow hnowwindow hfit
    exact ⟨colors, mid, colors', s', hall, hexec,
      hmid.conforms hpos hwindow hnowwindow hfit hexec⟩

/-- The rates of a two-rate three-color meter, 2 packets per second with bursts of 3 and 10 per
second with bursts of 1, and packets every 90 ms: green, red, green, green, yellow. -/
theorem setRates_conforms_trTCM :
    let configs : List RateConfig := [⟨1 / 500000, 3⟩, ⟨1 / 100000, 1⟩]
    let packets : List MeteredPacket := (List.range 5).map fun i => ⟨90000 * i, 128⟩
    ∃ s, (create .packets 2).setRates configs = (.success, s) ∧
      (s.executeAll packets).map Prod.fst = some [0, 2, 0, 0, 1] ∧
      ∃ colors s', s.executeAll packets = some (colors, s') ∧
        Conforms configs .packets packets colors := by
  intro configs packets
  have hset : (create .packets 2).setRates configs =
      (.success, ((create .packets 2).setRates configs).2) := by decide +kernel
  have hclock : packets.Pairwise fun p q => p.micros ≤ q.micros := by decide +kernel
  have hfits : ∀ p ∈ packets, NoOverflow configs p := by decide +kernel
  obtain ⟨-, -, hwindow⟩ := setRates_conforms hset (by decide +kernel) hclock hfits
  obtain ⟨colors, mid, colors', s', hnil, hexec, hconforms⟩ :=
    hwindow [] packets [] (List.append_nil packets).symm
  obtain ⟨rfl, rfl⟩ := Prod.mk.inj (Option.some.inj hnil)
  exact ⟨_, hset, by decide +kernel, colors', s', hexec, hconforms⟩

end Meter

end Bmv2
