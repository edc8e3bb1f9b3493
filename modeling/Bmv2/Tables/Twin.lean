import Bmv2.Match.Clear
import Bmv2.Tables.Apply

/-! Tables whose match units are related: the calls keep them so. Indirect tables that no call
and no packet tells apart, although their lookup structures, meters and unused default indices may
differ. -/
namespace Bmv2
open ByteBits Bisimulation

/-- Meters for the same number of rates; the answer to `set_rates` depends on nothing else. -/
def Meter.SameShape (m m' : Meter) : Prop := m.rates.length = m'.rates.length

namespace Meter

/-- Meters of the same shape that agree on the rates below `idx`. -/
def AgreeBelow (idx : ℕ) (m m' : Meter) : Prop :=
  m.SameShape m' ∧ ∀ j < idx, m.rates[j]? = m'.rates[j]?

variable {m m' : Meter}

theorem setRate_related {idx : ℕ} (h : AgreeBelow idx m m') (config : RateConfig) :
    (m.setRate idx config).1 = (m'.setRate idx config).1 ∧
      AgreeBelow (idx + 1) (m.setRate idx config).2 (m'.setRate idx config).2 := by
  obtain ⟨hlen, hagree⟩ := h
  have hlen : m.rates.length = m'.rates.length := hlen
  set rate : MeterRate :=
    { valid := true, infoRate := config.infoRate, burstSize := config.burstSize,
      tokens := config.burstSize, tokensLast := 0, color := idx + 1 } with hrate
  have hnew : AgreeBelow (idx + 1) { m with rates := m.rates.set idx rate }
      { m' with rates := m'.rates.set idx rate } := by
    refine ⟨by simpa [SameShape] using hlen, fun j hj => ?_⟩
    by_cases hji : j = idx
    · subst hji
      simp [List.getElem?_set, hlen]
    · simp only [List.getElem?_set, Ne.symm hji, ↓reduceIte]
      exact hagree j (by omega)
  cases idx with
  | zero => exact ⟨rfl, hnew⟩
  | succ n =>
    have hprev := hnew.2 n (by omega)
    have hm : ∀ m : Meter, m.setRate (n + 1) config =
        match (m.rates.set (n + 1) rate)[n]? with
        | none => (.success, { m with rates := m.rates.set (n + 1) rate })
        | some prev =>
          if prev.infoRate > config.infoRate
          then (.invalidInfoRateValue, { m with rates := m.rates.set (n + 1) rate })
          else (.success, { m with rates := m.rates.set (n + 1) rate }) := by
      intro m
      unfold setRate
      dsimp only [Nat.add_one_sub_one]
      rw [← hrate]
      cases (m.rates.set (n + 1) rate)[n]? <;> rfl
    rw [hm, hm]
    simp only at hprev
    rw [hprev]
    cases (m'.rates.set (n + 1) rate)[n]? with
    | none => exact ⟨rfl, hnew⟩
    | some prev =>
      dsimp only
      split_ifs
      · exact ⟨rfl, hnew⟩
      · exact ⟨rfl, hnew⟩

theorem setRatesFrom_related (configs : List RateConfig) {idx : ℕ} (h : AgreeBelow idx m m') :
    (m.setRatesFrom idx configs).1 = (m'.setRatesFrom idx configs).1 ∧
      (m.setRatesFrom idx configs).2.SameShape (m'.setRatesFrom idx configs).2 := by
  induction configs generalizing idx m m' with
  | nil => exact ⟨rfl, h.1⟩
  | cons config configs ih =>
    obtain ⟨hcode, hnext⟩ := setRate_related h config
    rw [setRatesFrom, setRatesFrom]
    generalize m.setRate idx config = p at hcode hnext
    generalize m'.setRate idx config = q at hcode hnext
    obtain ⟨code, m₁⟩ := p
    obtain ⟨code', m₁'⟩ := q
    obtain rfl : code = code' := hcode
    cases code with
    | success => exact ih hnext
    | _ => exact ⟨rfl, hnext.1⟩

/-- The code that `set_rates` returns depends on the rates it is given. -/
theorem setRates_related (h : m.SameShape m') (configs : List RateConfig) :
    (m.setRates configs).1 = (m'.setRates configs).1 ∧
      (m.setRates configs).2.SameShape (m'.setRates configs).2 := by
  rw [setRates, setRates, show m.rates.length = m'.rates.length from h]
  split_ifs
  · exact ⟨rfl, h⟩
  obtain ⟨hcode, hshape⟩ := setRatesFrom_related configs
    (show AgreeBelow 0 m m' from ⟨h, fun _ hj => absurd hj (Nat.not_lt_zero _)⟩)
  generalize m.setRatesFrom 0 configs = p at hcode hshape
  generalize m'.setRatesFrom 0 configs = q at hcode hshape
  obtain ⟨code, m₁⟩ := p
  obtain ⟨code', m₁'⟩ := q
  obtain rfl : code = code' := hcode
  have hshape : m₁.rates.length = m₁'.rates.length := hshape
  cases code with
  | success => exact ⟨rfl, by simpa [SameShape] using hshape⟩
  | _ => exact ⟨rfl, hshape⟩

end Meter

namespace MatchUnit

variable {K V S : Type} [MatchKey K] {L : LookupStructure K S} {C : ClearLookup L}
variable {u v : MatchUnit K V S}

/-- The units are equal up to what deleted keys have left in the lookup structure and the state
of the meters. -/
def Twin (C : ClearLookup L) (u v : MatchUnit K V S) : Prop :=
  ∃ ls dm, u = { v with lookupStructure := ls, directMeters := dm } ∧
    C.Same ls v.lookupStructure ∧ Related (List.Forall₂ Meter.SameShape) dm v.directMeters ∧
    ∀ i e, v.Live i e → C.Ok e.key

omit [MatchKey K] in
theorem live_set (v : MatchUnit K V S) (handles : HandleMgr) {i j : ℕ} {e e' : Entry K V}
    (h : MatchUnit.Live { v with handles, entries := v.entries.set i e } j e') :
    (j = i ∧ e' = e) ∨ (j ≠ i ∧ j ∈ handles.handles ∧ v.entries[j]? = some e') := by
  obtain ⟨hj, he⟩ := h
  simp only [List.getElem?_set] at he
  by_cases hji : i = j
  · rw [if_pos hji] at he
    split_ifs at he
    exact .inl ⟨hji.symm, (Option.some.inj he).symm⟩
  · rw [if_neg hji] at he
    exact .inr ⟨Ne.symm hji, hj, he⟩

namespace Twin

theorem addEntry (h : Twin C u v) {now : ℕ} {params : List MatchKeyParam} {value : V}
    {priority : ℤ} (hp : C.Priority priority) :
    Related (Answers (Twin C)) (u.addEntry L now params value priority)
      (v.addEntry L now params value priority) := by
  obtain ⟨ls, dm, rfl, hls, hdm, hok⟩ := h
  have hadd : Related (Answers (Twin C))
      (addEntry_ L { v with lookupStructure := ls, directMeters := dm } params value priority)
      (v.addEntry_ L params value priority) := by
    refine .ite (fun _ => .some ⟨rfl, ls, dm, rfl, hls, hdm, hok⟩) fun _ => ?_
    refine .same (entryKey v.matchKeyBuilder params priority) fun key hkey => ?_
    have hkok : C.Ok key := C.ok_entryKey hp hkey
    simp only [C.entryExists hls hkok]
    refine .same _ fun dup _ => .ite (fun _ => .some ⟨rfl, ls, dm, rfl, hls, hdm, hok⟩) fun _ => ?_
    simp only [getAndSetHandle]
    by_cases hfull : v.numEntries ≥ v.size
    · simp only [hfull, ↓reduceIte]
      exact .some ⟨rfl, ls, dm, rfl, hls, hdm, hok⟩
    simp only [hfull, ↓reduceIte]
    cases hget : v.handles.getHandle with
    | none => exact .some ⟨rfl, ls, dm, rfl, hls, hdm, hok⟩
    | some p =>
      refine .same (v.entries[p.1]?) fun old hold => ?_
      refine (C.addEntry key p.1 hls).bind fun ls₁ ls₂ hls' =>
        .some ⟨rfl, ls₁, dm, rfl, hls', hdm, ?_⟩
      intro i e hlive
      have hp2 : p.2.handles = insert p.1 v.handles.handles := by
        rw [HandleMgr.getHandle] at hget
        split_ifs at hget
        rw [← Option.some.inj hget]
      rcases live_set v p.2 ⟨hlive.1, hlive.2⟩ with ⟨-, rfl⟩ | ⟨hne, hi, he⟩
      · exact C.ok_setVersion _ hkok
      · rw [hp2] at hi
        exact hok i e ⟨(Finset.mem_insert.mp hi).resolve_left hne, he⟩
  refine hadd.bind fun p q hpq => ?_
  obtain ⟨r, u₁⟩ := p
  obtain ⟨r', v₁⟩ := q
  obtain ⟨hr, htwin⟩ := hpq
  obtain rfl : r = r' := hr
  obtain ⟨ls₁, dm₁, rfl, hls₁, hdm₁, hok₁⟩ : Twin C u₁ v₁ := htwin
  cases r with
  | error e => exact .some ⟨rfl, ls₁, dm₁, rfl, hls₁, hdm₁, hok₁⟩
  | ok handle =>
    exact .same (v₁.entryMeta[handleInternal handle]?) fun m _ =>
      .some ⟨rfl, ls₁, dm₁, rfl, hls₁, hdm₁, hok₁⟩

theorem deleteEntry (h : Twin C u v) {handle : ℕ} :
    Related (Answers (Twin C)) (u.deleteEntry L handle) (v.deleteEntry L handle) := by
  obtain ⟨ls, dm, rfl, hls, hdm, hok⟩ := h
  refine .same (v.checkHandle handle) fun c hc => ?_
  cases c with
  | error e => exact .some ⟨rfl, ls, dm, rfl, hls, hdm, hok⟩
  | ok e =>
    obtain ⟨hmem, hent, -⟩ := checkHandle_ok_iff.mp hc
    have hkey := C.ok_setVersion ((MatchKey.version e.key + 1) % 2 ^ 32) (hok _ e ⟨hmem, hent⟩)
    refine (C.deleteEntry hls hkey).bind fun ls₁ ls₂ hls' => .some ?_
    simp only [unsetHandle, HandleMgr.releaseHandle, hmem, decide_true]
    refine ⟨rfl, ls₁, dm, rfl, hls', hdm, ?_⟩
    intro i e' hlive
    rcases live_set v ⟨v.handles.handles.erase (handleInternal handle)⟩
      ⟨hlive.1, hlive.2⟩ with ⟨rfl, -⟩ | ⟨-, hi, he⟩
    · exact absurd rfl (Finset.ne_of_mem_erase hlive.1)
    · exact hok i e' ⟨Finset.mem_of_mem_erase hi, he⟩

theorem modifyEntry (h : Twin C u v) {handle : ℕ} (value : V) :
    Related (Answers (Twin C)) (u.modifyEntry handle value) (v.modifyEntry handle value) := by
  obtain ⟨ls, dm, rfl, hls, hdm, hok⟩ := h
  refine .same (v.checkHandle handle) fun c hc => ?_
  cases c with
  | error e => exact .some ⟨rfl, ls, dm, rfl, hls, hdm, hok⟩
  | ok e =>
    obtain ⟨hmem, hent, -⟩ := checkHandle_ok_iff.mp hc
    refine .some ⟨rfl, ls, dm, rfl, hls, hdm, ?_⟩
    intro i e' hlive
    rcases live_set v v.handles ⟨hlive.1, hlive.2⟩ with ⟨-, rfl⟩ | ⟨-, hi, he⟩
    · exact hok _ e ⟨hmem, hent⟩
    · exact hok i e' ⟨hi, he⟩

theorem getValue (h : Twin C u v) (handle : ℕ) : u.getValue handle = v.getValue handle := by
  obtain ⟨ls, dm, rfl, -, -, -⟩ := h
  rfl

theorem getEntry (h : Twin C u v) (handle : ℕ) : u.getEntry handle = v.getEntry handle := by
  obtain ⟨ls, dm, rfl, -, -, -⟩ := h
  rfl

theorem lookup (h : Twin C u v) (pkt : Packet) :
    Related (Answers (Twin C)) (u.lookup L pkt) (v.lookup L pkt) := by
  obtain ⟨ls, dm, rfl, hls, hdm, hok⟩ := h
  refine .same (v.matchKeyBuilder.packetKey pkt.phv) fun key _ => ?_
  have hfound : lookupKey L { v with lookupStructure := ls, directMeters := dm } key =
      v.lookupKey L key := by
    simp only [lookupKey, C.lookup hls]
  rw [hfound]
  refine .same _ fun res _ => ?_
  cases res with
  | none => exact .some ⟨rfl, ls, dm, rfl, hls, hdm, hok⟩
  | some found =>
    exact .same (v.entryMeta[handleInternal found.1]?) fun m _ =>
      .some ⟨rfl, ls, dm, rfl, hls, hdm, hok⟩

theorem sweepEntries (h : Twin C u v) (nowMs : ℕ) :
    u.sweepEntries nowMs = v.sweepEntries nowMs := by
  obtain ⟨ls, dm, rfl, -, -, -⟩ := h
  rfl

theorem resetState [Inhabited V] (h : Twin C u v) :
    Related (Twin C) (u.resetState L) (v.resetState L) := by
  obtain ⟨ls, dm, rfl, hls, hdm, -⟩ := h
  refine (C.clear_same hls).bind fun ls₁ ls₂ hls' => .some ⟨ls₁, dm, rfl, hls', hdm, ?_⟩
  rintro i e ⟨hi, -⟩
  exact absurd hi (Finset.notMem_empty i)

/-- The calls that all tables share. -/
theorem step (h : Twin C u v) (b : MatchTableAbstract) (op : MatchTableAbstract.Op) :
    Related (Answers (Twin C)) (b.step u op) (b.step v op) := by
  obtain ⟨ls, dm, rfl, hls, hdm, hok⟩ := h
  cases op with
  | queryCounters handle =>
    refine .map (P := Eq) (.refl (b.queryCounters v handle)) ?_
    rintro r _ rfl
    exact ⟨rfl, ls, dm, rfl, hls, hdm, hok⟩
  | resetCounters =>
    simp only [MatchTableAbstract.step, MatchTableAbstract.resetCounters]
    cases b.withCounters <;> exact .some ⟨rfl, ls, dm, rfl, hls, hdm, hok⟩
  | writeCounters handle bytes packets =>
    refine .reply _ ?_
    refine .ite (fun _ => .some ⟨rfl, ls, dm, rfl, hls, hdm, hok⟩) fun _ => ?_
    refine .ite (fun _ => .some ⟨rfl, ls, dm, rfl, hls, hdm, hok⟩) fun _ => ?_
    refine .map (P := Eq) (.refl (v.entryMeta[handleInternal handle]?)) ?_
    rintro m _ rfl
    exact ⟨rfl, ls, dm, rfl, hls, hdm, hok⟩
  | setMeterRates handle configs =>
    refine .reply _ ?_
    refine .ite (fun _ => .some ⟨rfl, ls, dm, rfl, hls, hdm, hok⟩) fun _ => ?_
    refine .ite (fun _ => .some ⟨rfl, ls, dm, rfl, hls, hdm, hok⟩) fun _ => ?_
    refine hdm.bind fun meters meters' hmeters => ?_
    refine (Related.getElem? hmeters (handleInternal handle)).bind fun m m' hm => ?_
    obtain ⟨hcode, hshape⟩ := Meter.setRates_related hm configs
    generalize m.setRates configs = p at hcode hshape
    generalize m'.setRates configs = q at hcode hshape
    obtain ⟨rc, m₁⟩ := p
    obtain ⟨rc', m₁'⟩ := q
    obtain rfl : rc = rc' := hcode
    exact .some ⟨rfl, ls, _, rfl, hls, .some (forall₂_set hmeters hshape _), hok⟩
  | setEntryTtl handle ttlMs =>
    refine .reply _ ?_
    refine .ite (fun _ => .some ⟨rfl, ls, dm, rfl, hls, hdm, hok⟩) fun _ => ?_
    refine .ite (fun _ => .some ⟨rfl, ls, dm, rfl, hls, hdm, hok⟩) fun _ => ?_
    exact .same (v.entryMeta[handleInternal handle]?) fun m _ =>
      .some ⟨rfl, ls, dm, rfl, hls, hdm, hok⟩

end Twin

end MatchUnit

/-- The calls on the entries of a match unit answer related units alike and relate them again. -/
structure MatchUnit.Congruence {K V S : Type} [MatchKey K] [Inhabited V] (L : LookupStructure K S)
    (P : ℤ → Prop) (R : MatchUnit K V S → MatchUnit K V S → Prop) : Prop where
  addEntry : ∀ {u v : MatchUnit K V S}, R u v → ∀ {now : ℕ} {params : List MatchKeyParam}
    {value : V} {priority : ℤ}, P priority → Related (Answers R)
      (u.addEntry L now params value priority) (v.addEntry L now params value priority)
  deleteEntry : ∀ {u v : MatchUnit K V S}, R u v → ∀ {handle : ℕ},
    Related (Answers R) (u.deleteEntry L handle) (v.deleteEntry L handle)
  modifyEntry : ∀ {u v : MatchUnit K V S}, R u v → ∀ {handle : ℕ} (value : V),
    Related (Answers R) (u.modifyEntry handle value) (v.modifyEntry handle value)
  getValue : ∀ {u v : MatchUnit K V S}, R u v → ∀ handle, u.getValue handle = v.getValue handle
  getEntry : ∀ {u v : MatchUnit K V S}, R u v → ∀ handle, u.getEntry handle = v.getEntry handle
  resetState : ∀ {u v : MatchUnit K V S}, R u v → Related R (u.resetState L) (v.resetState L)

theorem MatchUnit.Twin.congruence {K V S : Type} [MatchKey K] [Inhabited V]
    {L : LookupStructure K S} (C : ClearLookup L) :
    MatchUnit.Congruence L C.Priority (MatchUnit.Twin C : MatchUnit K V S → _ → Prop) where
  addEntry := Twin.addEntry
  deleteEntry := Twin.deleteEntry
  modifyEntry := Twin.modifyEntry
  getValue := Twin.getValue
  getEntry := Twin.getEntry
  resetState := Twin.resetState

/-- A call, a packet looked up (with what the selector's hash gives for it), a sweep of the
ageing entries, or a reset. -/
inductive LookupOp (α : Type) where
  | call (op : α)
  | lookup (pkt : Packet) (hash : Option ℕ)
  | sweep (nowMs : ℕ)
  | reset

inductive LookupReply where
  | reply (r : Result TableReply)
  | found (handle : Option ℕ) (action : ActionEntry)
  | swept (handles : List ℕ)
  | done
  deriving DecidableEq

namespace MatchTable

variable {K S : Type} {R : MatchUnit K ActionEntry S → MatchUnit K ActionEntry S → Prop}
variable {r f : MatchTable K S}

/-- The tables are equal up to their match units. -/
def Twin (R : MatchUnit K ActionEntry S → MatchUnit K ActionEntry S → Prop)
    (r f : MatchTable K S) : Prop :=
  ∃ u, r = { f with matchUnit := u } ∧ R u f.matchUnit

def Op.Admits (P : ℤ → Prop) : Op → Prop
  | .addEntry _ _ _ _ priority => P priority
  | _ => True

namespace Twin

theorem setDefaultAction (h : Twin R r f) (actionFn : ℕ) (actionData : List ℤ) :
    Related (Twin R) (r.setDefaultAction actionFn actionData)
      (f.setDefaultAction actionFn actionData) := by
  obtain ⟨u, rfl, hu⟩ := h
  exact .same (f.base.getNextNodeDefault actionFn) fun node _ => .some ⟨u, rfl, hu⟩

theorem read {α ρ : Type} (h : Twin R r f) {x y : Option α} (hxy : x = y) (g : α → ρ) :
    Related (Answers (Twin R)) (x.map fun a => (g a, r)) (y.map fun a => (g a, f)) := by
  subst hxy
  refine .map (P := Eq) (.refl x) ?_
  rintro a _ rfl
  exact ⟨rfl, h⟩

variable [MatchKey K] {L : LookupStructure K S} {P : ℤ → Prop}

theorem addEntry (h : Twin R r f) (hR : MatchUnit.Congruence L P R) {now : ℕ}
    {params : List MatchKeyParam} {actionFn : ℕ} {actionData : List ℤ} {priority : ℤ}
    (hp : P priority) :
    Related (Answers (Twin R)) (r.addEntry L now params actionFn actionData priority)
      (f.addEntry L now params actionFn actionData priority) := by
  obtain ⟨u, rfl, hu⟩ := h
  refine .same (f.base.getNextNode actionFn) fun node _ => ?_
  exact (hR.addEntry hu hp).bind fun p q hpq => .some ⟨hpq.1, p.2, rfl, hpq.2⟩

theorem deleteEntry (h : Twin R r f) (hR : MatchUnit.Congruence L P R) (handle : ℕ) :
    Related (Answers (Twin R)) (r.deleteEntry L handle) (f.deleteEntry L handle) := by
  obtain ⟨u, rfl, hu⟩ := h
  exact (hR.deleteEntry hu).bind fun p q hpq => .some ⟨hpq.1, p.2, rfl, hpq.2⟩

theorem modifyEntry (h : Twin R r f) (hR : MatchUnit.Congruence L P R) (handle actionFn : ℕ)
    (actionData : List ℤ) :
    Related (Answers (Twin R)) (r.modifyEntry handle actionFn actionData)
      (f.modifyEntry handle actionFn actionData) := by
  obtain ⟨u, rfl, hu⟩ := h
  refine .same (f.base.getNextNode actionFn) fun node _ => ?_
  exact (hR.modifyEntry hu _).bind fun p q hpq => .some ⟨hpq.1, p.2, rfl, hpq.2⟩

/-- The calls of the table, provided that those it shares with all tables relate its units. -/
theorem step (h : Twin R r f) (hR : MatchUnit.Congruence L P R) {op : Op} (hop : op.Admits P)
    (hbase : ∀ o, op = .base o → ∀ {u v}, R u v →
      Related (Answers R) (f.base.step u o) (f.base.step v o)) :
    Related (Answers (Twin R)) (r.step L op) (f.step L op) := by
  have h' := h
  obtain ⟨u, rfl, hu⟩ := h'
  cases op with
  | addEntry now params actionFn actionData priority => exact .reply _ (h.addEntry hR hop)
  | deleteEntry handle => exact .reply _ (h.deleteEntry hR handle)
  | modifyEntry handle actionFn actionData =>
    exact .reply _ (h.modifyEntry hR handle actionFn actionData)
  | setDefaultAction actionFn actionData =>
    exact (h.setDefaultAction actionFn actionData).map fun _ _ h' => ⟨rfl, h'⟩
  | getValue handle => exact h.read (hR.getValue hu handle) _
  | getEntry handle => exact h.read (hR.getEntry hu handle) _
  | base op => exact (hbase op rfl hu).map fun p q hpq => ⟨hpq.1, p.2, rfl, hpq.2⟩

theorem resetState (h : Twin R r f) (hR : MatchUnit.Congruence L P R) :
    Related (Twin R) (r.resetState L) (f.resetState L) := by
  obtain ⟨u, rfl, hu⟩ := h
  exact (hR.resetState hu).map fun u' _ hu' => ⟨u', rfl, hu'⟩

end Twin

end MatchTable

namespace MatchTableIndirect

variable {K S : Type} {R : MatchUnit K IndirectIndex S → MatchUnit K IndirectIndex S → Prop}
variable {r f : MatchTableIndirect K S}

/-- The tables are equal up to their match units and to a default index that is not in use. -/
def Twin (R : MatchUnit K IndirectIndex S → MatchUnit K IndirectIndex S → Prop)
    (r f : MatchTableIndirect K S) : Prop :=
  ∃ u di, r = { f with matchUnit := u, defaultIndex := di } ∧ R u f.matchUnit ∧
    (f.defaultSet = true → di = f.defaultIndex)

namespace Twin

theorem entriesInsert (h : Twin R r f) (mbr : ℕ) (entry : ActionEntry) :
    Related (Twin R) (r.entriesInsert mbr entry) (f.entriesInsert mbr entry) := by
  obtain ⟨u, di, rfl, hu, hdi⟩ := h
  refine .ite (fun _ => ?_) fun _ => .none
  refine .same (IndirectIndex.makeMbrIndex mbr) fun x _ => ?_
  exact .same (f.indexRefCount.set x 0) fun c _ => .some ⟨u, di, rfl, hu, hdi⟩

theorem addMember (h : Twin R r f) (actionFn : ℕ) (actionData : List ℤ) :
    Related (Answers (Twin R)) (r.addMember actionFn actionData)
      (f.addMember actionFn actionData) := by
  obtain ⟨u, di, rfl, hu, hdi⟩ := h
  refine .same (f.base.getNextNode actionFn) fun node _ => ?_
  dsimp only
  cases hget : f.mbrHandles.getHandle with
  | none => exact .some ⟨rfl, u, di, rfl, hu, hdi⟩
  | some p =>
    have htwin : Twin R { f with mbrHandles := p.2, matchUnit := u, defaultIndex := di }
        { f with mbrHandles := p.2 } := ⟨u, di, rfl, hu, hdi⟩
    refine (htwin.entriesInsert p.1 ⟨actionFn, actionData, node⟩).bind fun r' f' h' => ?_
    obtain ⟨u', di', rfl, hu', hdi'⟩ := h'
    exact .some ⟨rfl, u', di', rfl, hu', hdi'⟩

theorem deleteMember (h : Twin R r f) (mbr : ℕ) :
    Related (Answers (Twin R)) (r.deleteMember mbr) (f.deleteMember mbr) := by
  obtain ⟨u, di, rfl, hu, hdi⟩ := h
  refine .ite (fun _ => .some ⟨rfl, u, di, rfl, hu, hdi⟩) fun _ => ?_
  refine .same (IndirectIndex.makeMbrIndex mbr) fun x _ => ?_
  refine .same (f.indexRefCount.get x) fun n _ => ?_
  refine .ite (fun _ => .some ⟨rfl, u, di, rfl, hu, hdi⟩) fun _ => ?_
  dsimp only
  cases f.mbrHandles.releaseHandle mbr with
  | mk released handles =>
    cases released with
    | false => exact .none
    | true => exact .some ⟨rfl, u, di, rfl, hu, hdi⟩

theorem modifyMember (h : Twin R r f) (mbr actionFn : ℕ) (actionData : List ℤ) :
    Related (Answers (Twin R)) (r.modifyMember mbr actionFn actionData)
      (f.modifyMember mbr actionFn actionData) := by
  obtain ⟨u, di, rfl, hu, hdi⟩ := h
  refine .same (f.base.getNextNode actionFn) fun node _ => ?_
  refine .ite (fun _ => .some ⟨rfl, u, di, rfl, hu, hdi⟩) fun _ => ?_
  exact .ite (fun _ => .some ⟨rfl, u, di, rfl, hu, hdi⟩) fun _ => .none

theorem setDefaultMember (h : Twin R r f) (mbr : ℕ) :
    Related (Answers (Twin R)) (r.setDefaultMember mbr) (f.setDefaultMember mbr) := by
  obtain ⟨u, di, rfl, hu, hdi⟩ := h
  refine .ite (fun _ => .some ⟨rfl, u, di, rfl, hu, hdi⟩) fun _ => ?_
  exact .same (IndirectIndex.makeMbrIndex mbr) fun x _ => .some ⟨rfl, u, x, rfl, hu, fun _ => rfl⟩

/-- A call that only reads. -/
theorem read {α ρ : Type} (h : Twin R r f) {x y : Option α} (hxy : x = y) (g : α → ρ) :
    Related (Answers (Twin R)) (x.map fun a => (g a, r)) (y.map fun a => (g a, f)) := by
  subst hxy
  refine .map (P := Eq) (.refl x) ?_
  rintro a _ rfl
  exact ⟨rfl, h⟩

end Twin

variable [MatchKey K] {L : LookupStructure K S} {C : ClearLookup L} {P : ℤ → Prop}

/-- `lookup` without the hash of a selector. -/
def respond (L : LookupStructure K S) (t : MatchTableIndirect K S) :
    LookupOp Op → Option (LookupReply × MatchTableIndirect K S)
  | .call op => (t.step L op).map fun (r, t) => (.reply r, t)
  | .lookup pkt _ => do
    let (res, matchUnit) ← t.matchUnit.lookup L pkt
    let action ← t.actionOf res
    some (.found (res.map Prod.fst) action, { t with matchUnit })
  | .sweep nowMs => (t.matchUnit.sweepEntries nowMs).map fun handles => (.swept handles, t)
  | .reset => (t.resetState L).map fun t => (.done, t)

/-- A call adds entries of an allowed priority. -/
def Op.Allowed (C : ClearLookup L) : Op → Prop
  | .addEntry _ _ _ priority => C.Priority priority
  | _ => True

/-- A call adds entries of a priority that meets `P`. -/
def Op.Admits (P : ℤ → Prop) : Op → Prop
  | .addEntry _ _ _ priority => P priority
  | _ => True

theorem Op.Allowed.admits {op : Op} (h : op.Allowed C) : op.Admits C.Priority := by
  cases op <;> exact h

namespace Twin

theorem addIndexed (h : Twin R r f) (hR : MatchUnit.Congruence L P R) {now : ℕ}
    {params : List MatchKeyParam} {x : IndirectIndex} {priority : ℤ} (hp : P priority) :
    Related (Answers (Twin R)) (r.addIndexed L now params x priority)
      (f.addIndexed L now params x priority) := by
  obtain ⟨u, di, rfl, hu, hdi⟩ := h
  refine .same (f.indexRefCount.increase x) fun c _ => ?_
  refine (hR.addEntry hu hp).bind fun p q hpq => ?_
  exact .some ⟨hpq.1, p.2, di, rfl, hpq.2, hdi⟩

theorem addEntry (h : Twin R r f) (hR : MatchUnit.Congruence L P R) {now : ℕ}
    {params : List MatchKeyParam} {mbr : ℕ} {priority : ℤ} (hp : P priority) :
    Related (Answers (Twin R)) (r.addEntry L now params mbr priority)
      (f.addEntry L now params mbr priority) := by
  have h' := h
  obtain ⟨u, di, rfl, hu, hdi⟩ := h'
  refine .ite (fun _ => .some ⟨rfl, u, di, rfl, hu, hdi⟩) fun _ => ?_
  exact .same (IndirectIndex.makeMbrIndex mbr) fun x _ => h.addIndexed hR hp

theorem deleteEntry (h : Twin R r f) (hR : MatchUnit.Congruence L P R) (handle : ℕ) :
    Related (Answers (Twin R)) (r.deleteEntry L handle) (f.deleteEntry L handle) := by
  obtain ⟨u, di, rfl, hu, hdi⟩ := h
  rw [MatchTableIndirect.deleteEntry, MatchTableIndirect.deleteEntry]
  simp only [hR.getValue hu]
  refine .same (f.matchUnit.getValue handle) fun v _ => ?_
  cases v with
  | error e => exact .some ⟨rfl, u, di, rfl, hu, hdi⟩
  | ok x =>
    refine .same (f.indexRefCount.decrease x) fun c _ => ?_
    refine (hR.deleteEntry hu).bind fun p q hpq => ?_
    exact .some ⟨hpq.1, p.2, di, rfl, hpq.2, hdi⟩

theorem modifyIndexed (h : Twin R r f) (hR : MatchUnit.Congruence L P R) (handle : ℕ)
    (check : Option (Result Unit)) (new : Option IndirectIndex) :
    Related (Answers (Twin R)) (r.modifyIndexed handle check new)
      (f.modifyIndexed handle check new) := by
  obtain ⟨u, di, rfl, hu, hdi⟩ := h
  rw [MatchTableIndirect.modifyIndexed, MatchTableIndirect.modifyIndexed]
  simp only [hR.getValue hu]
  refine .same (f.matchUnit.getValue handle) fun v _ => ?_
  cases v with
  | error e => exact .some ⟨rfl, u, di, rfl, hu, hdi⟩
  | ok x =>
    refine .same (f.indexRefCount.decrease x) fun c _ => .same check fun res _ => ?_
    cases res with
    | error e => exact .some ⟨rfl, u, di, rfl, hu, hdi⟩
    | ok _ =>
      refine .same new fun x' _ => .same (c.increase x') fun c' _ => ?_
      refine (hR.modifyEntry hu x').bind fun p q hpq => ?_
      exact .some ⟨hpq.1, p.2, di, rfl, hpq.2, hdi⟩

theorem getEntry (h : Twin R r f) (hR : MatchUnit.Congruence L P R) (handle : ℕ) :
    r.getEntry handle = f.getEntry handle := by
  obtain ⟨u, di, rfl, hu, hdi⟩ := h
  simp only [MatchTableIndirect.getEntry, hR.getEntry hu]

/-- The calls of the table, provided that those it shares with all tables relate its units. -/
theorem step (h : Twin R r f) (hR : MatchUnit.Congruence L P R) {op : Op} (hop : op.Admits P)
    (hbase : ∀ o, op = .base o → ∀ {u v}, R u v →
      Related (Answers R) (f.base.step u o) (f.base.step v o)) :
    Related (Answers (Twin R)) (r.step L op) (f.step L op) := by
  have h' := h
  obtain ⟨u, di, rfl, hu, hdi⟩ := h'
  cases op with
  | addMember actionFn actionData => exact .reply _ (h.addMember actionFn actionData)
  | deleteMember mbr => exact .reply _ (h.deleteMember mbr)
  | modifyMember mbr actionFn actionData => exact .reply _ (h.modifyMember mbr actionFn actionData)
  | addEntry now params mbr priority => exact .reply _ (h.addEntry hR hop)
  | deleteEntry handle => exact .reply _ (h.deleteEntry hR handle)
  | modifyEntry handle mbr => exact .reply _ (h.modifyIndexed hR handle _ _)
  | setDefaultMember mbr => exact .reply _ (h.setDefaultMember mbr)
  | getValue handle => exact h.read (hR.getValue hu handle) _
  | getEntry handle => exact h.read (h.getEntry hR handle) _
  | getMember mbr => exact h.read rfl _
  | base op =>
    refine (hbase op rfl hu).map fun p q hpq => ?_
    exact ⟨hpq.1, p.2, di, rfl, hpq.2, hdi⟩

theorem resetState (h : Twin R r f) (hR : MatchUnit.Congruence L P R) :
    Related (Twin R) (r.resetState L) (f.resetState L) := by
  obtain ⟨u, di, rfl, hu, hdi⟩ := h
  exact (hR.resetState hu).map fun u' _ hu' => ⟨u', di, rfl, hu', hdi⟩

/-- The default index is read when there is a default. -/
theorem actionOf_eq {mbrs : HandleMgr} {entries : List ActionEntry} {defaultSet : Bool}
    {di di' : IndirectIndex} (hdi : defaultSet = true → di = di')
    (resolve : IndirectIndex → Option ℕ) (res : Option (ℕ × IndirectIndex)) :
    (if res.isNone && !defaultSet then some {} else do
      let mbr ← resolve ((res.map Prod.snd).getD di)
      if mbrs.validHandle mbr then entries[mbr]? else none) =
    (if res.isNone && !defaultSet then some {} else do
      let mbr ← resolve ((res.map Prod.snd).getD di')
      if mbrs.validHandle mbr then entries[mbr]? else none) := by
  cases res with
  | some found => rfl
  | none =>
    cases defaultSet with
    | false => rfl
    | true => rw [hdi rfl]

theorem respond (h : Twin (MatchUnit.Twin C) r f) {op : LookupOp Op}
    (hop : ∀ o, op = .call o → o.Allowed C) :
    Related (Answers (Twin (MatchUnit.Twin C))) (r.respond L op) (f.respond L op) := by
  have hR : MatchUnit.Congruence L C.Priority _ :=
    MatchUnit.Twin.congruence (V := IndirectIndex) C
  cases op with
  | call op =>
    exact .reply _ (h.step hR (hop op rfl).admits fun o _ _ _ hu => hu.step f.base o)
  | lookup pkt hash =>
    obtain ⟨u, di, rfl, hu, hdi⟩ := h
    refine (hu.lookup pkt).bind fun p q hpq => ?_
    obtain ⟨res, u'⟩ := p
    obtain ⟨res', v'⟩ := q
    obtain ⟨hres, hu'⟩ := hpq
    obtain rfl : res = res' := hres
    have hact : MatchTableIndirect.actionOf { f with matchUnit := u, defaultIndex := di } res =
        f.actionOf res := actionOf_eq hdi IndirectIndex.getMbr res
    dsimp only
    rw [hact]
    exact .same (f.actionOf res) fun action _ => .some ⟨rfl, u', di, rfl, hu', hdi⟩
  | sweep nowMs =>
    have h' := h
    obtain ⟨u, di, rfl, hu, hdi⟩ := h'
    exact h.read (hu.sweepEntries nowMs) _
  | reset => exact (h.resetState hR).map fun _ _ h' => ⟨rfl, h'⟩

end Twin

end MatchTableIndirect

namespace MatchTableIndirectWS

variable {K S : Type} {R : MatchUnit K IndirectIndex S → MatchUnit K IndirectIndex S → Prop}
variable {r f : MatchTableIndirectWS K S}

def Twin (R : MatchUnit K IndirectIndex S → MatchUnit K IndirectIndex S → Prop)
    (r f : MatchTableIndirectWS K S) : Prop :=
  ∃ t, r = { f with toMatchTableIndirect := t } ∧ t.Twin R f.toMatchTableIndirect

namespace Twin

theorem liftIndirect {α : Type} {t : MatchTableIndirect K S}
    {x y : Option (α × MatchTableIndirect K S)}
    (h : Related (Answers (MatchTableIndirect.Twin R)) x y) :
    Related (Answers (Twin R))
      (MatchTableIndirectWS.liftIndirect { f with toMatchTableIndirect := t } x)
      (f.liftIndirect y) :=
  h.map fun p _ hpq => ⟨hpq.1, p.2, rfl, hpq.2⟩

theorem createGroup (h : Twin R r f) :
    Related (Answers (Twin R)) r.createGroup f.createGroup := by
  obtain ⟨_, rfl, u, di, rfl, hu, hdi⟩ := h
  rw [MatchTableIndirectWS.createGroup, MatchTableIndirectWS.createGroup]
  dsimp only
  cases f.grpHandles.getHandle with
  | none => exact .some ⟨rfl, _, rfl, u, di, rfl, hu, hdi⟩
  | some p =>
    refine .bind (P := Twin R) (.ite (fun _ => ?_) fun _ => .none) fun r' f' h' => ?_
    · refine .same (IndirectIndex.makeGrpIndex p.1) fun x _ => ?_
      exact .same (f.indexRefCount.set x 0) fun c _ => .some ⟨_, rfl, u, di, rfl, hu, hdi⟩
    · obtain ⟨_, rfl, u', di', rfl, hu', hdi'⟩ := h'
      exact .some ⟨rfl, _, rfl, u', di', rfl, hu', hdi'⟩

theorem deleteGroup (h : Twin R r f) (grp : ℕ) :
    Related (Answers (Twin R)) (r.deleteGroup grp) (f.deleteGroup grp) := by
  obtain ⟨_, rfl, u, di, rfl, hu, hdi⟩ := h
  refine .ite (fun _ => .some ⟨rfl, _, rfl, u, di, rfl, hu, hdi⟩) fun _ => ?_
  refine .same (IndirectIndex.makeGrpIndex grp) fun x _ => ?_
  refine .same (f.indexRefCount.get x) fun n _ => ?_
  refine .ite (fun _ => .some ⟨rfl, _, rfl, u, di, rfl, hu, hdi⟩) fun _ => ?_
  refine .same (f.groupEntries[grp]?) fun g _ => ?_
  refine .same (releaseAll f.indexRefCount g.toList) fun c _ => ?_
  dsimp only
  cases f.grpHandles.releaseHandle grp with
  | mk released handles =>
    cases released with
    | false => exact .none
    | true => exact .some ⟨rfl, _, rfl, u, di, rfl, hu, hdi⟩

theorem addMemberToGroup (h : Twin R r f) (mbr grp : ℕ) :
    Related (Answers (Twin R)) (r.addMemberToGroup mbr grp) (f.addMemberToGroup mbr grp) := by
  obtain ⟨_, rfl, u, di, rfl, hu, hdi⟩ := h
  refine .ite (fun _ => .some ⟨rfl, _, rfl, u, di, rfl, hu, hdi⟩) fun _ => ?_
  refine .ite (fun _ => .some ⟨rfl, _, rfl, u, di, rfl, hu, hdi⟩) fun _ => ?_
  refine .same (f.groupEntries[grp]?) fun g _ => ?_
  cases g.addMember mbr with
  | error e => exact .some ⟨rfl, _, rfl, u, di, rfl, hu, hdi⟩
  | ok g' =>
    refine .same (IndirectIndex.makeMbrIndex mbr) fun x _ => ?_
    exact .same (f.indexRefCount.increase x) fun c _ => .some ⟨rfl, _, rfl, u, di, rfl, hu, hdi⟩

theorem removeMemberFromGroup (h : Twin R r f) (mbr grp : ℕ) :
    Related (Answers (Twin R)) (r.removeMemberFromGroup mbr grp)
      (f.removeMemberFromGroup mbr grp) := by
  obtain ⟨_, rfl, u, di, rfl, hu, hdi⟩ := h
  refine .ite (fun _ => .some ⟨rfl, _, rfl, u, di, rfl, hu, hdi⟩) fun _ => ?_
  refine .ite (fun _ => .some ⟨rfl, _, rfl, u, di, rfl, hu, hdi⟩) fun _ => ?_
  refine .same (f.groupEntries[grp]?) fun g _ => ?_
  cases g.deleteMember mbr with
  | error e => exact .some ⟨rfl, _, rfl, u, di, rfl, hu, hdi⟩
  | ok g' =>
    refine .same (IndirectIndex.makeMbrIndex mbr) fun x _ => ?_
    exact .same (f.indexRefCount.decrease x) fun c _ => .some ⟨rfl, _, rfl, u, di, rfl, hu, hdi⟩

theorem setDefaultGroup (h : Twin R r f) (grp : ℕ) :
    Related (Answers (Twin R)) (r.setDefaultGroup grp) (f.setDefaultGroup grp) := by
  obtain ⟨_, rfl, u, di, rfl, hu, hdi⟩ := h
  refine .ite (fun _ => .some ⟨rfl, _, rfl, u, di, rfl, hu, hdi⟩) fun _ => ?_
  exact .same (IndirectIndex.makeGrpIndex grp) fun x _ =>
    .some ⟨rfl, _, rfl, u, x, rfl, hu, fun _ => rfl⟩

theorem read {α ρ : Type} (h : Twin R r f) {x y : Option α} (hxy : x = y) (g : α → ρ) :
    Related (Answers (Twin R)) (x.map fun a => (g a, r)) (y.map fun a => (g a, f)) := by
  subst hxy
  refine .map (P := Eq) (.refl x) ?_
  rintro a _ rfl
  exact ⟨rfl, h⟩

end Twin

variable [MatchKey K] {L : LookupStructure K S} {C : ClearLookup L} {P : ℤ → Prop}

def respond (L : LookupStructure K S) (t : MatchTableIndirectWS K S) :
    LookupOp Op → Option (LookupReply × MatchTableIndirectWS K S)
  | .call op => (t.step L op).map fun (r, t) => (.reply r, t)
  | .lookup pkt hash => do
    let (res, matchUnit) ← t.matchUnit.lookup L pkt
    let action ← t.actionOf res hash
    some (.found (res.map Prod.fst) action, { t with matchUnit })
  | .sweep nowMs => (t.matchUnit.sweepEntries nowMs).map fun handles => (.swept handles, t)
  | .reset => (t.resetState L).map fun t => (.done, t)

def Op.Allowed (C : ClearLookup L) : Op → Prop
  | .indirect op => op.Allowed C
  | .addEntryWs _ _ _ priority => C.Priority priority
  | _ => True

def Op.Admits (P : ℤ → Prop) : Op → Prop
  | .indirect op => op.Admits P
  | .addEntryWs _ _ _ priority => P priority
  | _ => True

theorem Op.Allowed.admits {op : Op} (h : op.Allowed C) : op.Admits C.Priority := by
  cases op with
  | indirect op => exact MatchTableIndirect.Op.Allowed.admits h
  | _ => exact h

namespace Twin

theorem addEntryWs (h : Twin R r f) (hR : MatchUnit.Congruence L P R) {now : ℕ}
    {params : List MatchKeyParam} {grp : ℕ} {priority : ℤ} (hp : P priority) :
    Related (Answers (Twin R)) (r.addEntryWs L now params grp priority)
      (f.addEntryWs L now params grp priority) := by
  obtain ⟨t, rfl, ht⟩ := h
  refine .same (f.checkGrp grp) fun check _ => ?_
  cases check with
  | error e => exact .some ⟨rfl, t, rfl, ht⟩
  | ok _ =>
    exact .same (IndirectIndex.makeGrpIndex grp) fun x _ => liftIndirect (ht.addIndexed hR hp)

theorem getEntry (h : Twin R r f) (hR : MatchUnit.Congruence L P R) (handle : ℕ) :
    r.getEntry handle = f.getEntry handle := by
  obtain ⟨_, rfl, u, di, rfl, hu, hdi⟩ := h
  simp only [MatchTableIndirectWS.getEntry, hR.getEntry hu]

theorem step (h : Twin R r f) (hR : MatchUnit.Congruence L P R) {op : Op} (hop : op.Admits P)
    (hbase : ∀ o, op = .indirect (.base o) → ∀ {u v}, R u v →
      Related (Answers R) (f.base.step u o) (f.base.step v o)) :
    Related (Answers (Twin R)) (r.step L op) (f.step L op) := by
  have h' := h
  obtain ⟨t, rfl, ht⟩ := h'
  cases op with
  | indirect op =>
    exact liftIndirect (ht.step hR hop fun o ho => hbase o (congrArg Op.indirect ho))
  | createGroup => exact .reply _ h.createGroup
  | deleteGroup grp => exact .reply _ (h.deleteGroup grp)
  | addMemberToGroup mbr grp => exact .reply _ (h.addMemberToGroup mbr grp)
  | removeMemberFromGroup mbr grp => exact .reply _ (h.removeMemberFromGroup mbr grp)
  | addEntryWs now params grp priority => exact .reply _ (h.addEntryWs hR hop)
  | modifyEntryWs handle grp => exact .reply _ (liftIndirect (ht.modifyIndexed hR handle _ _))
  | setDefaultGroup grp => exact .reply _ (h.setDefaultGroup grp)
  | getEntry handle => exact h.read (h.getEntry hR handle) _
  | getGroup grp => exact h.read rfl _
  | getNumMembersInGroup grp => exact h.read rfl _

theorem resetState (h : Twin R r f) (hR : MatchUnit.Congruence L P R) :
    Related (Twin R) (r.resetState L) (f.resetState L) := by
  obtain ⟨t, rfl, ht⟩ := h
  exact (ht.resetState hR).map fun t' _ ht' => ⟨t', rfl, ht'⟩

theorem respond (h : Twin (MatchUnit.Twin C) r f) {op : LookupOp Op}
    (hop : ∀ o, op = .call o → o.Allowed C) :
    Related (Answers (Twin (MatchUnit.Twin C))) (r.respond L op) (f.respond L op) := by
  have hR : MatchUnit.Congruence L C.Priority _ :=
    MatchUnit.Twin.congruence (V := IndirectIndex) C
  cases op with
  | call op =>
    exact .reply _ (h.step hR (hop op rfl).admits fun o _ _ _ hu => hu.step f.base o)
  | lookup pkt hash =>
    obtain ⟨_, rfl, u, di, rfl, hu, hdi⟩ := h
    refine (hu.lookup pkt).bind fun p q hpq => ?_
    obtain ⟨res, u'⟩ := p
    obtain ⟨res', v'⟩ := q
    obtain ⟨hres, hu'⟩ := hpq
    obtain rfl : res = res' := hres
    have hact : MatchTableIndirectWS.actionOf
        { f with matchUnit := u, defaultIndex := di } res hash =
        f.actionOf res hash := MatchTableIndirect.Twin.actionOf_eq hdi (f.resolve · hash) res
    dsimp only
    rw [hact]
    exact .same (f.actionOf res hash) fun action _ => .some ⟨rfl, _, rfl, u', di, rfl, hu', hdi⟩
  | sweep nowMs =>
    have h' := h
    obtain ⟨_, rfl, u, di, rfl, hu, hdi⟩ := h'
    exact h.read (hu.sweepEntries nowMs) _
  | reset => exact (h.resetState hR).map fun _ _ h' => ⟨rfl, h'⟩

end Twin

end MatchTableIndirectWS

end Bmv2
