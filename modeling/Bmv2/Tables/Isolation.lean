import Bmv2.Tables.NextNode
import Bmv2.Tables.Stale

/-! Slot reuse: an entry takes the first free slot, and with it whatever the former entries of
the slot have left in its metadata and its direct meter. -/
namespace Bmv2

namespace MatchUnit

variable {K V S : Type} (u : MatchUnit K V S) (i : ℕ)

/-- What a slot keeps beside its entry. -/
def timeoutAt : Option ℕ := u.entryMeta[i]?.map EntryMeta.timeoutMs
def versionAt : Option ℕ := u.entryMeta[i]?.map EntryMeta.version
def counterAt : Option Counter := u.entryMeta[i]?.map EntryMeta.counter
def configuredAt : Option Bool := u.directMeters.bind fun meters => meters[i]?.map Meter.configured

/-- The version in the metadata of a live entry is the one in its key. -/
structure MetaInv [MatchKey K] (u : MatchUnit K V S) : Prop where
  wf : u.Wf
  version : ∀ i ∈ u.handles.handles, u.versionAt i = u.slotVersion i

end MatchUnit

namespace MatchTableAbstract

/-- The slot whose counters, timeout or rates a shared call sets. -/
def Op.counterSlot? : Op → Option ℕ
  | .writeCounters handle _ _ => some (handleInternal handle)
  | _ => none

def Op.ttlSlot? : Op → Option ℕ
  | .setEntryTtl handle _ => some (handleInternal handle)
  | _ => none

def Op.rateSlot? : Op → Option ℕ
  | .setMeterRates handle _ => some (handleInternal handle)
  | _ => none

variable {K V S : Type} {b : MatchTableAbstract} {u u' : MatchUnit K V S}

/-- A shared call keeps the versions, the timeouts of the slots it sets no timeout for, and the
meters of the slots it sets no rates for. -/
theorem step_slots {op : Op} {r : Result TableReply} (h : b.step u op = some (r, u')) (i : ℕ) :
    u'.versionAt i = u.versionAt i ∧
    (op.ttlSlot? ≠ some i → u'.timeoutAt i = u.timeoutAt i) ∧
    (op.rateSlot? ≠ some i → u'.configuredAt i = u.configuredAt i) := by
  cases steps_of_step h with
  | same => exact ⟨rfl, fun _ => rfl, fun _ => rfl⟩
  | resetCounters =>
    refine ⟨?_, fun _ => ?_, fun _ => rfl⟩
    · simp only [MatchUnit.versionAt, List.getElem?_map, Option.map_map]
      rfl
    · simp only [MatchUnit.timeoutAt, List.getElem?_map, Option.map_map]
      rfl
  | writeCounters _ hm =>
    exact ⟨getElem?_set_map EntryMeta.version hm (by rfl) i,
      fun _ => getElem?_set_map EntryMeta.timeoutMs hm (by rfl) i, fun _ => rfl⟩
  | @setMeterRates handle _ _ _ _ hmeters =>
    refine ⟨rfl, fun _ => rfl, fun hne => ?_⟩
    have hne : handleInternal handle ≠ i := by simpa [Op.rateSlot?] using hne
    simp only [MatchUnit.configuredAt, hmeters, Option.bind_some]
    exact getElem?_set_map_ne hne _ _
  | @setEntryTtl handle _ _ _ hm =>
    refine ⟨getElem?_set_map EntryMeta.version hm (by rfl) i, fun hne => ?_, fun _ => rfl⟩
    have hne : handleInternal handle ≠ i := by simpa [Op.ttlSlot?] using hne
    exact getElem?_set_map_ne hne _ _

/-- Counters at zero stay so if no call writes them. -/
theorem step_counterAt {op : Op} {r : Result TableReply} (h : b.step u op = some (r, u')) {i : ℕ}
    (hzero : u.counterAt i = some {}) (hop : op.counterSlot? ≠ some i) :
    u'.counterAt i = some {} := by
  cases steps_of_step h with
  | same => exact hzero
  | resetCounters =>
    obtain ⟨m, hm, -⟩ := Option.map_eq_some_iff.mp hzero
    simp [MatchUnit.counterAt, hm]
  | @writeCounters handle _ _ _ _ hm =>
    have hne : handleInternal handle ≠ i := by simpa [Op.counterSlot?] using hop
    exact (getElem?_set_map_ne hne _ _).trans hzero
  | setMeterRates => exact hzero
  | setEntryTtl _ hm => exact (getElem?_set_map EntryMeta.counter hm (by rfl) i).trans hzero

end MatchTableAbstract

namespace UnitStep

variable {K V S : Type} [MatchKey K] {L : LookupStructure K S} {b : MatchTableAbstract}
variable {u u' : MatchUnit K V S} {call : UnitCall}

/-- An addition resets the metadata of its slot but for the timeout, and leaves its meter. -/
theorem added_slots {now : ℕ} {params : List MatchKeyParam} {value : V} {priority : ℤ}
    {handle : ℕ} (hwf : u.Wf)
    (h : u.addEntry L now params value priority = some (.ok handle, u')) :
    ∃ v, handle = handleSet v u.handles.firstEmpty ∧ v < 2 ^ 32 ∧
      u.handles.firstEmpty < 2 ^ 32 ∧
      u'.handles.handles = insert u.handles.firstEmpty u.handles.handles ∧
      u'.slotVersion u.handles.firstEmpty = some v ∧
      (∀ i, u'.slotVersion i = u.slotVersion i) ∧
      (∀ i, u'.versionAt i = if i = u.handles.firstEmpty then some v else u.versionAt i) ∧
      (∀ i, u'.timeoutAt i = u.timeoutAt i) ∧ (∀ i, u'.configuredAt i = u.configuredAt i) ∧
      ∃ m, u'.entryMeta[u.handles.firstEmpty]? = some m ∧ m.counter = {} := by
  have hver := (MatchUnit.addEntry_evolves hwf h).2
  rcases MatchUnit.addEntry_cases hwf h with ⟨_, hr, -, -⟩ |
    ⟨key, old, ls, m, -, -, -, -, hlt, hold, -, hm, hr, rfl⟩
  · simp at hr
  have hlen : u.handles.firstEmpty < u.entryMeta.length := (List.getElem?_eq_some_iff.mp hm).1
  have hsize := hwf.size_le
  have hslot : u.slotVersion u.handles.firstEmpty = some (MatchKey.version old.key) := by
    rw [MatchUnit.slotVersion, hold]
    rfl
  refine ⟨MatchKey.version old.key, by simpa using hr,
    hwf.version_lt old (List.mem_of_getElem? hold),
    by omega, rfl, (hver _).trans hslot, hver, fun i => ?_,
    fun i => getElem?_set_map EntryMeta.timeoutMs hm (by rfl) i, fun _ => rfl, _,
    List.getElem?_set_self hlen, rfl⟩
  · by_cases hi : i = u.handles.firstEmpty
    · rw [if_pos hi, hi, MatchUnit.versionAt, MatchUnit.installed, List.getElem?_set_self hlen]
      rfl
    · rw [if_neg hi]
      exact getElem?_set_map_ne (Ne.symm hi) _ _

theorem timeout (hwf : u.Wf) (h : UnitStep L b u call u') {i : ℕ}
    (hcall : ∀ op, call = .shared op → op.ttlSlot? ≠ some i) : u'.timeoutAt i = u.timeoutAt i := by
  cases h with
  | same => rfl
  | added h =>
    obtain ⟨_, -, -, -, -, -, -, -, ht, -, -⟩ := added_slots hwf h
    exact ht i
  | removed hc hls => rfl
  | rewritten value hc => rfl
  | shared h => exact (MatchTableAbstract.step_slots h i).2.1 (hcall _ rfl)

theorem configured (hwf : u.Wf) (h : UnitStep L b u call u') {i : ℕ}
    (hcall : ∀ op, call = .shared op → op.rateSlot? ≠ some i) :
    u'.configuredAt i = u.configuredAt i := by
  cases h with
  | same => rfl
  | added h =>
    obtain ⟨_, -, -, -, -, -, -, -, -, hc, -⟩ := added_slots hwf h
    exact hc i
  | removed hc hls => rfl
  | rewritten value hc => rfl
  | shared h => exact (MatchTableAbstract.step_slots h i).2.2 (hcall _ rfl)

theorem counterAt (hwf : u.Wf) (h : UnitStep L b u call u') {i : ℕ} (hi : i ∈ u.handles.handles)
    (hzero : u.counterAt i = some {})
    (hcall : ∀ op, call = .shared op → op.counterSlot? ≠ some i) : u'.counterAt i = some {} := by
  cases h with
  | same => exact hzero
  | added h =>
    rcases MatchUnit.addEntry_cases hwf h with ⟨_, hr, -, -⟩ |
      ⟨key, old, ls, m, -, -, -, -, -, -, -, -, -, rfl⟩
    · cases hr
    · refine (getElem?_set_map_ne ?_ _ _).trans hzero
      rintro rfl
      exact u.handles.firstEmpty_notMem hi
  | removed hc hls => exact hzero
  | rewritten value hc => exact hzero
  | shared h => exact MatchTableAbstract.step_counterAt h hzero (hcall _ rfl)

theorem metaInv (hinv : u.MetaInv) (h : UnitStep L b u call u') : u'.MetaInv := by
  have hwf := h.wf hinv.wf
  cases h with
  | same => exact hinv
  | added h =>
    obtain ⟨v, -, -, -, hh, hself, hver, hmeta, -, -, -⟩ := added_slots hinv.wf h
    refine ⟨hwf, fun i hi => ?_⟩
    rw [hmeta]
    split_ifs with hii
    · rw [hii, hself]
    · rw [hh] at hi
      rw [hver]
      exact hinv.version i ((Finset.mem_insert.mp hi).resolve_left hii)
  | removed hc hls =>
    refine ⟨hwf, fun i hi => ?_⟩
    obtain ⟨hne, hi⟩ := Finset.mem_erase.mp hi
    rw [MatchUnit.slotVersion_set (List.getElem?_eq_some_iff.mp
      (MatchUnit.checkHandle_ok_iff.mp hc).2.1).1 rfl, if_neg hne]
    exact hinv.version i hi
  | rewritten value hc =>
    exact ⟨hwf, fun i hi => ((MatchUnit.rewritten_evolves hinv.wf value hc).2 i).symm ▸
      hinv.version i hi⟩
  | shared h =>
    refine ⟨hwf, fun i hi => ?_⟩
    rw [(MatchTableAbstract.step_slots h i).1]
    obtain ⟨_, _, -, rfl⟩ := MatchTableAbstract.step_cases h
    exact hinv.version i hi

/-- A live entry stays until a call deletes it. -/
theorem live (hwf : u.Wf) (h : UnitStep L b u call u') {i v : ℕ} (hi : i ∈ u.handles.handles)
    (hv : u.slotVersion i = some v)
    (hcall : ∀ handle, call = .delete handle →
      ¬ (handleInternal handle = i ∧ handleVersion handle = v)) :
    i ∈ u'.handles.handles ∧ u'.slotVersion i = some v := by
  cases h with
  | same => exact ⟨hi, hv⟩
  | added h =>
    obtain ⟨_, -, -, -, hh, -, hver, -, -, -, -⟩ := added_slots hwf h
    exact ⟨hh ▸ Finset.mem_insert_of_mem hi, (hver i).trans hv⟩
  | @removed handle e ls hc hls =>
    obtain ⟨-, hent, hcur⟩ := MatchUnit.checkHandle_ok_iff.mp hc
    have hne : i ≠ handleInternal handle := by
      rintro rfl
      refine hcall handle rfl ⟨rfl, ?_⟩
      rw [MatchUnit.slotVersion, hent, Option.map_some, Option.some.injEq] at hv
      rw [hcur, hv]
    refine ⟨Finset.mem_erase.mpr ⟨hne, hi⟩, ?_⟩
    rw [MatchUnit.slotVersion_set (List.getElem?_eq_some_iff.mp hent).1 rfl, if_neg hne]
    exact hv
  | rewritten value hc =>
    exact ⟨hi, ((MatchUnit.rewritten_evolves hwf value hc).2 i).trans hv⟩
  | shared h =>
    obtain ⟨_, _, -, rfl⟩ := MatchTableAbstract.step_cases h
    exact ⟨hi, hv⟩

end UnitStep

namespace MatchUnit

variable {K V S : Type} [MatchKey K] {L : LookupStructure K S} {b : MatchTableAbstract}
variable {u u' : MatchUnit K V S}

theorem configured_execute {m m' : Meter} {micros ingressLength color : ℕ}
    (h : m.execute micros ingressLength = some (color, m')) : m'.configured = m.configured := by
  cases hc : m.configured with
  | false =>
    simp only [Meter.execute, hc, Bool.not_false, ↓reduceIte, Option.some.injEq,
      Prod.mk.injEq] at h
    rw [← h.2, hc]
  | true =>
    simp only [Meter.execute, hc, Bool.not_true, Bool.false_eq_true, ↓reduceIte] at h
    obtain ⟨p, -, he⟩ := Option.map_eq_some_iff.mp h
    rw [← (Prod.mk.inj he).2]

/-- A packet counts and refreshes the entry it hits and runs its meter: versions, timeouts and
configured meters stay. -/
theorem packet_slots {pkt : Packet} {res : Option (ℕ × V)} {u₁ : MatchUnit K V S}
    {action : ActionEntry} {micros : ℕ} {a : Applied} (hl : u.lookup L pkt = some (res, u₁))
    (hf : b.finishApply u₁ (res.map Prod.fst) action pkt micros = some (a, u')) (i : ℕ) :
    u'.versionAt i = u.versionAt i ∧ u'.timeoutAt i = u.timeoutAt i ∧
      u'.configuredAt i = u.configuredAt i := by
  obtain ⟨color, hm, -⟩ := MatchTableAbstract.finishApply_cases hf
  have hfirst : u₁.versionAt i = u.versionAt i ∧ u₁.timeoutAt i = u.timeoutAt i ∧
      u₁.configuredAt i = u.configuredAt i := by
    obtain ⟨key, -, -, ⟨-, rfl⟩ | ⟨handle, value, m, -, hmeta, rfl⟩⟩ := lookup_cases hl
    · exact ⟨rfl, rfl, rfl⟩
    · exact ⟨getElem?_set_map EntryMeta.version hmeta (by rfl) i,
        getElem?_set_map EntryMeta.timeoutMs hmeta (by rfl) i, rfl⟩
  rcases MatchTableAbstract.executeMeter_cases hm with ⟨-, rfl, -⟩ |
    ⟨_, meters, meter, _, meter', -, -, hmeters, hmeter, hexec, -, rfl⟩
  · exact hfirst
  · refine ⟨hfirst.1, hfirst.2.1, ?_⟩
    rw [← hfirst.2.2]
    simp only [configuredAt, hmeters, Option.bind_some]
    exact getElem?_set_map Meter.configured hmeter (configured_execute hexec) i

/-- A packet counts for the entry it hits. -/
theorem packet_counterAt (hwf : u.Wf) {pkt : Packet} {res : Option (ℕ × V)}
    {u₁ : MatchUnit K V S} {action : ActionEntry} {micros : ℕ} {a : Applied}
    (hl : u.lookup L pkt = some (res, u₁))
    (hf : b.finishApply u₁ (res.map Prod.fst) action pkt micros = some (a, u')) {i v : ℕ}
    (hv : u.slotVersion i = some v) (hmiss : a.handle ≠ some (handleSet v i)) :
    u'.counterAt i = u.counterAt i := by
  obtain ⟨color, hm, rfl⟩ := MatchTableAbstract.finishApply_cases hf
  have hfirst : u₁.counterAt i = u.counterAt i := by
    obtain ⟨key, -, hfound, ⟨-, rfl⟩ | ⟨handle, value, m, rfl, -, rfl⟩⟩ := lookup_cases hl
    · rfl
    refine getElem?_set_map_ne ?_ _ _
    rintro rfl
    obtain ⟨found, -, hfound⟩ := Option.bind_eq_some_iff.mp hfound
    cases found with
    | none => cases hfound
    | some j =>
      obtain ⟨e, he, hfound⟩ := Option.bind_eq_some_iff.mp hfound
      obtain ⟨rfl, rfl⟩ := Prod.mk.inj (Option.some.inj (Option.some.inj hfound))
      have hj : j < 2 ^ 32 := by
        have hlt := (List.getElem?_eq_some_iff.mp he).1
        have hsize := hwf.size_le
        rw [hwf.length_entries] at hlt
        omega
      rw [handleInternal_of_lt _ hj, slotVersion, he, Option.map_some, Option.some.injEq] at hv
      refine hmiss ?_
      rw [handleInternal_of_lt _ hj, ← hv]
      rfl
  rcases MatchTableAbstract.executeMeter_cases hm with ⟨-, rfl, -⟩ |
    ⟨_, meters, meter, _, meter', -, -, hmeters, hmeter, hexec, -, rfl⟩
  · exact hfirst
  · exact hfirst

omit [MatchKey K] in
/-- A sweep names the live entries whose timeout is over. -/
theorem mem_sweepEntries {nowMs : ℕ} {hs : List ℕ} (h : u.sweepEntries nowMs = some hs)
    {hdl : ℕ} : hdl ∈ hs ↔ ∃ i ∈ u.handles.handles, ∃ m, u.entryMeta[i]? = some m ∧
      (m.timeoutMs > 0 ∧ nowMs - m.ts ≥ m.timeoutMs) ∧ hdl = handleSet m.version i := by
  have hloop : ∀ (l acc : List ℕ),
      (l.foldlM (fun entries i => do
        let m ← u.entryMeta[i]?
        if nowMs < m.ts then none
        else if m.timeoutMs > 0 ∧ nowMs - m.ts ≥ m.timeoutMs then
          some (entries ++ [handleSet m.version i])
        else some entries) acc) = some hs →
      (hdl ∈ hs ↔ hdl ∈ acc ∨ ∃ i ∈ l, ∃ m, u.entryMeta[i]? = some m ∧
        (m.timeoutMs > 0 ∧ nowMs - m.ts ≥ m.timeoutMs) ∧ hdl = handleSet m.version i) := by
    intro l
    induction l with
    | nil =>
      intro acc hl
      obtain rfl : acc = hs := by simpa using hl
      simp
    | cons i l ih =>
      intro acc hl
      rw [List.foldlM_cons] at hl
      obtain ⟨acc', hacc, hl⟩ := Option.bind_eq_some_iff.mp hl
      obtain ⟨m, hm, hacc⟩ := Option.bind_eq_some_iff.mp hacc
      rw [ih acc' hl]
      split_ifs at hacc with hts htimeout
      · obtain rfl := Option.some.inj hacc
        simp [hm, htimeout, or_assoc]
      · obtain rfl := Option.some.inj hacc
        simp [hm, htimeout]
  rw [hloop _ [] h]
  simp

end MatchUnit

theorem UnitAct.metaInv {K V S α : Type} [MatchKey K] [Inhabited V] {L : LookupStructure K S}
    {unitCall : α → Result TableReply → UnitCall} {b : MatchTableAbstract}
    {u u' : MatchUnit K V S} {op : TableOp α} {o : Observation} (hinv : u.MetaInv)
    (h : UnitAct L unitCall b u op o u') : u'.MetaInv := by
  have hwf := h.wf hinv.wf
  cases h with
  | call h => exact h.metaInv hinv
  | packet hl hf =>
    have hslots := MatchUnit.packet_slots hl hf
    obtain ⟨_, _, -, rfl⟩ := MatchUnit.lookup_frame hl hf
    refine ⟨hwf, fun i hi => ?_⟩
    rw [(hslots i).1]
    exact hinv.version i hi
  | sweep h => exact hinv
  | reset h =>
    obtain ⟨ls, -, h⟩ := Option.bind_eq_some_iff.mp h
    obtain rfl := Option.some.inj h
    exact ⟨hwf, by simp [HandleMgr.clear]⟩

/-- What a kind of table offers: its step function, its parts, and which of its calls add an
entry, delete one, or are shared by all tables. -/
structure TableKind (K V S σ α : Type) where
  act : σ → TableOp α → Option (Observation × σ)
  unit : σ → MatchUnit K V S
  base : σ → MatchTableAbstract
  adds : α → Bool
  deletes? : α → Option ℕ
  shared? : α → Option MatchTableAbstract.Op

namespace TableKind

variable {K V S σ α : Type} (T : TableKind K V S σ α)

/-- The entry `h` stays. -/
def Spares (h : ℕ) : TableOp α → Prop
  | .call op => T.deletes? op ≠ some h
  | .packet .. | .sweep _ => True
  | .reset => False

/-- The entry `h` stays, and no shared call sets what `slot?` reads for its slot. -/
def Keeps (slot? : MatchTableAbstract.Op → Option ℕ) (h : ℕ) (op : TableOp α) : Prop :=
  T.Spares h op ∧ ∀ o, op = .call o → (T.shared? o).bind slot? ≠ some (handleInternal h)

/-- No packet hits the entry `h`. -/
def Misses (h : ℕ) (t : σ) (op : TableOp α) : Prop :=
  ∀ a t', T.act t op = some (.applied a, t') → a.handle ≠ some h

/-- An entry just added has counters at zero while no packet hits it and no call writes the
counters of its slot. If its slot was left without a timeout, it is not swept while no call sets a
timeout for the slot; if the meter of the slot was left unconfigured, it colors nothing while no
call sets rates for the slot. -/
def Isolated (init : σ) : Prop :=
  ∀ t, Transition.Reach T.act (fun _ _ => True) init t →
  ∀ op h t₁, T.adds op = true → T.act t (.call op) = some (.reply (.ok (.handle h)), t₁) →
    (∀ t₂, Transition.Reach T.act (fun t op => T.Keeps (·.counterSlot?) h op ∧ T.Misses h t op)
        t₁ t₂ → (T.base t₂).queryCounters (T.unit t₂) h = some (.ok {})) ∧
    ((T.unit t).timeoutAt (T.unit t).handles.firstEmpty = some 0 →
      ∀ t₂, Transition.Reach T.act (fun _ op => T.Keeps (·.ttlSlot?) h op) t₁ t₂ →
      ∀ nowMs hs t₃, T.act t₂ (.sweep nowMs) = some (.swept hs, t₃) → h ∉ hs) ∧
    ((T.unit t).configuredAt (T.unit t).handles.firstEmpty = some false →
      ∀ t₂, Transition.Reach T.act (fun _ op => T.Keeps (·.rateSlot?) h op) t₁ t₂ →
      ∀ pkt hash micros a t₃, T.act t₂ (.packet pkt hash micros) = some (.applied a, t₃) →
        a.handle = some h → a.color = some 0)

variable [MatchKey K] [Inhabited V]

/-- The steps of the table are steps of its match unit. -/
structure Frames (L : LookupStructure K S) (unitCall : α → Result TableReply → UnitCall) :
    Prop where
  act : ∀ {t op o t'}, (T.unit t).Wf → T.act t op = some (o, t') →
    UnitAct L unitCall (T.base t) (T.unit t) op o (T.unit t') ∧
      (T.base t).SameFeatures (T.base t')
  adds : ∀ {op h}, T.adds op = true → unitCall op (.ok (.handle h)) = .add h
  deletes : ∀ {op r h}, unitCall op r = .delete h → T.deletes? op = some h
  shared : ∀ {op r o}, unitCall op r = .shared o → T.shared? op = some o

variable {T} {L : LookupStructure K S} {unitCall : α → Result TableReply → UnitCall}

/-- The table counts and meters, and the versions in its metadata are right. -/
structure FeatureInv (T : TableKind K V S σ α) (t : σ) : Prop where
  unit : (T.unit t).MetaInv
  counters : (T.base t).withCounters = true
  meters : (T.base t).withMeters = true

theorem FeatureInv.act (hT : T.Frames L unitCall) {t t' : σ} {op : TableOp α} {o : Observation}
    (h : T.FeatureInv t) (hs : T.act t op = some (o, t')) : T.FeatureInv t' := by
  obtain ⟨hact, hsame⟩ := hT.act h.unit.wf hs
  exact ⟨hact.metaInv h.unit, hsame.counters.trans h.counters, hsame.meters.trans h.meters⟩

/-- Slot `i` holds an entry at version `v`. -/
structure Occupied (T : TableKind K V S σ α) (i v : ℕ) (t : σ) : Prop extends T.FeatureInv t where
  mem : i ∈ (T.unit t).handles.handles
  version : (T.unit t).slotVersion i = some v

theorem Occupied.act (hT : T.Frames L unitCall) {t t' : σ} {op : TableOp α} {o : Observation}
    {i v : ℕ} (hi : i < 2 ^ 32) (hv : v < 2 ^ 32) (h : T.Occupied i v t)
    (hkeep : T.Spares (handleSet v i) op) (hs : T.act t op = some (o, t')) :
    T.Occupied i v t' := by
  have hinv := h.toFeatureInv.act hT hs
  obtain ⟨hact, -⟩ := hT.act h.unit.wf hs
  suffices hocc : i ∈ (T.unit t').handles.handles ∧ (T.unit t').slotVersion i = some v from
    ⟨hinv, hocc.1, hocc.2⟩
  generalize T.unit t' = u' at hact
  cases hact with
  | call hstep =>
    refine hstep.live h.unit.wf h.mem h.version fun handle hcall => ?_
    rintro ⟨hint, hver⟩
    refine hkeep ((hT.deletes hcall).trans (congrArg some ?_))
    rw [handleInternal_eq] at hint
    rw [handleVersion_eq] at hver
    rw [handleSet_eq hv hi]
    omega
  | packet hl hf =>
    obtain ⟨_, _, -, rfl⟩ := MatchUnit.lookup_frame hl hf
    exact ⟨h.mem, h.version⟩
  | sweep hsw => exact ⟨h.mem, h.version⟩
  | reset hr => exact absurd hkeep not_false

/-- No call sets a timeout for the slot, so it keeps the one it has. -/
theorem timeout_act (hT : T.Frames L unitCall) {t t' : σ} {op : TableOp α} {o : Observation}
    {h : ℕ} (hwf : (T.unit t).Wf) (hkeep : T.Keeps (·.ttlSlot?) h op)
    (hs : T.act t op = some (o, t')) :
    (T.unit t').timeoutAt (handleInternal h) = (T.unit t).timeoutAt (handleInternal h) := by
  obtain ⟨hact, -⟩ := hT.act hwf hs
  generalize T.unit t' = u' at hact
  cases hact with
  | call hstep =>
    refine hstep.timeout hwf fun o hcall hslot => hkeep.2 _ rfl ?_
    rw [hT.shared hcall]
    exact hslot
  | packet hl hf => exact (MatchUnit.packet_slots hl hf _).2.1
  | sweep hsw => rfl
  | reset hr => exact absurd hkeep.1 not_false

theorem configured_act (hT : T.Frames L unitCall) {t t' : σ} {op : TableOp α} {o : Observation}
    {h : ℕ} (hwf : (T.unit t).Wf) (hkeep : T.Keeps (·.rateSlot?) h op)
    (hs : T.act t op = some (o, t')) :
    (T.unit t').configuredAt (handleInternal h) = (T.unit t).configuredAt (handleInternal h) := by
  obtain ⟨hact, -⟩ := hT.act hwf hs
  generalize T.unit t' = u' at hact
  cases hact with
  | call hstep =>
    refine hstep.configured hwf fun o hcall hslot => hkeep.2 _ rfl ?_
    rw [hT.shared hcall]
    exact hslot
  | packet hl hf => exact (MatchUnit.packet_slots hl hf _).2.2
  | sweep hsw => rfl
  | reset hr => exact absurd hkeep.1 not_false

theorem counterAt_act (hT : T.Frames L unitCall) {t t' : σ} {op : TableOp α} {o : Observation}
    {i v : ℕ} (hi : i < 2 ^ 32) (hv : v < 2 ^ 32) (h : T.Occupied i v t)
    (hzero : (T.unit t).counterAt i = some {}) (hkeep : T.Keeps (·.counterSlot?) (handleSet v i) op)
    (hmiss : T.Misses (handleSet v i) t op) (hs : T.act t op = some (o, t')) :
    (T.unit t').counterAt i = some {} := by
  have hmiss : ∀ a, o = .applied a → a.handle ≠ some (handleSet v i) := by
    rintro a rfl
    exact hmiss a t' hs
  obtain ⟨hact, -⟩ := hT.act h.unit.wf hs
  generalize T.unit t' = u' at hact
  cases hact with
  | call hstep =>
    refine hstep.counterAt h.unit.wf h.mem hzero fun o hcall hslot => hkeep.2 _ rfl ?_
    rw [hT.shared hcall, handleInternal_handleSet hv hi]
    exact hslot
  | packet hl hf =>
    exact (MatchUnit.packet_counterAt h.unit.wf hl hf h.version (hmiss _ rfl)).trans hzero
  | sweep hsw => exact hzero
  | reset hr => exact absurd hkeep.1 not_false

/-- A sweep names a live entry by the metadata of its slot. -/
theorem mem_sweep (hT : T.Frames L unitCall) {t t' : σ} {i v : ℕ} (hi : i < 2 ^ 32)
    (hv : v < 2 ^ 32) (h : T.Occupied i v t) {nowMs : ℕ} {hs : List ℕ}
    (hsweep : T.act t (.sweep nowMs) = some (.swept hs, t')) : handleSet v i ∈ hs ↔
      ∃ m, (T.unit t).entryMeta[i]? = some m ∧ m.timeoutMs > 0 ∧ nowMs - m.ts ≥ m.timeoutMs := by
  have hversion : ∀ j ∈ (T.unit t).handles.handles, ∀ m, (T.unit t).entryMeta[j]? = some m →
      (T.unit t).slotVersion j = some m.version := by
    intro j hj m hm
    rw [← h.unit.version j hj, MatchUnit.versionAt, hm]
    rfl
  obtain ⟨hact, -⟩ := hT.act h.unit.wf hsweep
  generalize T.unit t' = u' at hact
  cases hact with
  | sweep hsw =>
    rw [MatchUnit.mem_sweepEntries hsw]
    constructor
    · rintro ⟨j, hj, m, hm, htimeout, heq⟩
      obtain ⟨e, he, hev⟩ := Option.map_eq_some_iff.mp (hversion j hj m hm)
      have hm32 : m.version < 2 ^ 32 := hev ▸ h.unit.wf.version_lt e (List.mem_of_getElem? he)
      have hj32 : j < 2 ^ 32 := (h.unit.wf.handles_lt j hj).trans_le h.unit.wf.size_le
      have hij : i = j := by
        rw [← handleInternal_handleSet hv hi, heq, handleInternal_handleSet hm32 hj32]
      exact ⟨m, hij ▸ hm, htimeout⟩
    · rintro ⟨m, hm, htimeout⟩
      refine ⟨i, h.mem, m, hm, htimeout, ?_⟩
      rw [Option.some.inj (h.version.symm.trans (hversion i h.mem m hm))]

/-- The meter of an entry that is not configured gives every packet color 0. -/
theorem color_eq_zero (hT : T.Frames L unitCall) {t t' : σ} {h : ℕ} (hinv : T.FeatureInv t)
    (hconf : (T.unit t).configuredAt (handleInternal h) = some false) {pkt : Packet}
    {hash : Option ℕ} {micros : ℕ} {a : Applied}
    (hs : T.act t (.packet pkt hash micros) = some (.applied a, t')) (ha : a.handle = some h) :
    a.color = some 0 := by
  obtain ⟨hact, -⟩ := hT.act hinv.unit.wf hs
  generalize T.unit t' = u' at hact
  cases hact with
  | packet hl hf =>
    obtain ⟨color, hm, rfl⟩ := MatchTableAbstract.finishApply_cases hf
    have hdm : ∀ {res u₁}, (T.unit t).lookup L pkt = some (res, u₁) →
        u₁.directMeters = (T.unit t).directMeters := by
      intro res u₁ hl
      obtain ⟨key, -, -, ⟨-, rfl⟩ | ⟨_, _, _, -, -, rfl⟩⟩ := MatchUnit.lookup_cases hl <;> rfl
    rcases MatchTableAbstract.executeMeter_cases hm with ⟨-, -, hnone | hoff⟩ |
      ⟨hdl, meters, meter, c, meter', hhdl, -, hmeters, hmeter, hexec, rfl, -⟩
    · exact absurd (hnone.symm.trans ha) (by simp)
    · exact absurd (hoff.symm.trans hinv.meters) (by simp)
    · obtain rfl : hdl = h := Option.some.inj (hhdl.symm.trans ha)
      rw [MatchUnit.configuredAt, ← hdm hl, hmeters, Option.bind_some, hmeter, Option.map_some,
        Option.some.injEq] at hconf
      simp only [Meter.execute, hconf, Bool.not_false, ↓reduceIte, Option.some.injEq,
        Prod.mk.injEq] at hexec
      rw [hexec.1]

/-- An entry just added occupies the first free slot. -/
theorem FeatureInv.added (hT : T.Frames L unitCall) {t t' : σ} (hinv : T.FeatureInv t) {now : ℕ}
    {params : List MatchKeyParam} {value : V} {priority : ℤ} {h : ℕ} {op : TableOp α}
    {o : Observation}
    (hadd : (T.unit t).addEntry L now params value priority = some (.ok h, T.unit t'))
    (hs : T.act t op = some (o, t')) :
    ∃ v < 2 ^ 32, (T.unit t).handles.firstEmpty < 2 ^ 32 ∧
      h = handleSet v (T.unit t).handles.firstEmpty ∧
      T.Occupied (T.unit t).handles.firstEmpty v t' := by
  obtain ⟨v, hh, hv, hi, hhandles, hver, -⟩ := UnitStep.added_slots hinv.unit.wf hadd
  exact ⟨v, hv, hi, hh, hinv.act hT hs, hhandles ▸ Finset.mem_insert_self _ _, hver⟩

theorem Frames.isolated (hT : T.Frames L unitCall) {init : σ} (hinit : T.FeatureInv init) :
    T.Isolated init := by
  intro t hrun op h t₁ hadds hs
  have hinv : T.FeatureInv t := hrun.invariant T.FeatureInv hinit fun _ _ _ _ h _ hs => h.act hT hs
  have hinv₁ := hinv.act hT hs
  obtain ⟨hact, -⟩ := hT.act hinv.unit.wf hs
  have hstep : UnitStep L (T.base t) (T.unit t) (.add h) (T.unit t₁) := by
    generalize T.unit t₁ = u' at hact
    cases hact with
    | call hstep =>
      rw [hT.adds hadds] at hstep
      exact hstep
  obtain ⟨now, params, value, priority, hadd⟩ : ∃ now params value priority,
      (T.unit t).addEntry L now params value priority = some (.ok h, T.unit t₁) := by
    generalize T.unit t₁ = u' at hstep
    cases hstep with
    | added hadd => exact ⟨_, _, _, _, hadd⟩
  obtain ⟨v, hv, hi, rfl, hocc⟩ := hinv.added hT hadd hs
  obtain ⟨-, -, -, -, -, -, -, -, htime, hconf, m, hm, hcounter⟩ :=
    UnitStep.added_slots hinv.unit.wf hadd
  set i := (T.unit t).handles.firstEmpty
  have hslot : handleInternal (handleSet v i) = i := handleInternal_handleSet hv hi
  refine ⟨fun t₂ hrun₂ => ?_, fun ht t₂ hrun₂ nowMs hs t₃ hsweep => ?_,
    fun hc t₂ hrun₂ pkt hash micros a t₃ hpkt ha => ?_⟩
  · have hkept := hrun₂.invariant
      (fun t => T.Occupied i v t ∧ (T.unit t).counterAt i = some {})
      ⟨hocc, by rw [MatchUnit.counterAt, hm, Option.map_some, hcounter]⟩ ?_
    · obtain ⟨hocc₂, hzero⟩ := hkept
      obtain ⟨m₂, hm₂, hcounter₂⟩ := Option.map_eq_some_iff.mp hzero
      simp [MatchTableAbstract.queryCounters, hocc₂.counters, MatchUnit.validHandle,
        MatchUnit.validHandle_, HandleMgr.validHandle, hslot, hocc₂.mem, hm₂, hcounter₂]
    · rintro t op o t' ⟨ho, h0⟩ ⟨hkeep, hmiss⟩ hs
      exact ⟨ho.act hT hi hv hkeep.1 hs, counterAt_act hT hi hv ho h0 hkeep hmiss hs⟩
  · have hkept := hrun₂.invariant
      (fun t => T.Occupied i v t ∧ (T.unit t).timeoutAt i = some 0) ⟨hocc, (htime i).trans ht⟩ ?_
    · rw [mem_sweep hT hi hv hkept.1 hsweep]
      rintro ⟨m, hm, hpos, -⟩
      have hzero := hkept.2
      rw [MatchUnit.timeoutAt, hm, Option.map_some, Option.some.injEq] at hzero
      omega
    · rintro t op o t' ⟨ho, h0⟩ hkeep hs
      refine ⟨ho.act hT hi hv hkeep.1 hs, ?_⟩
      have := timeout_act hT ho.unit.wf hkeep hs
      rw [hslot] at this
      exact this.trans h0
  · have hkept := hrun₂.invariant
      (fun t => T.Occupied i v t ∧ (T.unit t).configuredAt i = some false)
      ⟨hocc, (hconf i).trans hc⟩ ?_
    · exact color_eq_zero hT hkept.1.toFeatureInv (hslot.symm ▸ hkept.2) hpkt ha
    · rintro t op o t' ⟨ho, h0⟩ hkeep hs
      refine ⟨ho.act hT hi hv hkeep.1 hs, ?_⟩
      have := configured_act hT ho.unit.wf hkeep hs
      rw [hslot] at this
      exact this.trans h0

end TableKind

namespace MatchTable

variable {K S : Type} [MatchKey K] (L : LookupStructure K S)

def Op.adds : Op → Bool
  | .addEntry .. => true
  | _ => false

def Op.deletes? : Op → Option ℕ
  | .deleteEntry handle => some handle
  | _ => none

def Op.shared? : Op → Option MatchTableAbstract.Op
  | .base op => some op
  | _ => none

def kind : TableKind K ActionEntry S (MatchTable K S) Op where
  act := act L
  unit := matchUnit
  base := base
  adds := Op.adds
  deletes? := Op.deletes?
  shared? := Op.shared?

theorem kind_frames : (kind L : TableKind K ActionEntry S _ _).Frames L unitCall where
  act hwf hs := act_unit hwf hs
  adds := by
    intro op h hadds
    cases op <;> simp_all [kind, Op.adds, unitCall]
  deletes := by
    intro op r h hcall
    rcases r with code | reply
    · cases op <;> simp_all [unitCall]
    · cases op <;> cases reply <;> simp_all [kind, unitCall, Op.deletes?]
  shared := by
    intro op r o hcall
    rcases r with code | reply
    · cases op <;> simp_all [kind, unitCall, Op.shared?]
    · cases op <;> cases reply <;> simp_all [kind, unitCall, Op.shared?]

end MatchTable

namespace MatchTableIndirect

variable {K S : Type} [MatchKey K] (L : LookupStructure K S)

def Op.adds : Op → Bool
  | .addEntry .. => true
  | _ => false

def Op.deletes? : Op → Option ℕ
  | .deleteEntry handle => some handle
  | _ => none

def Op.shared? : Op → Option MatchTableAbstract.Op
  | .base op => some op
  | _ => none

def kind : TableKind K IndirectIndex S (MatchTableIndirect K S) Op where
  act := act L
  unit := matchUnit
  base := base
  adds := Op.adds
  deletes? := Op.deletes?
  shared? := Op.shared?

theorem unitCall_delete {op : Op} {r : Result TableReply} {h : ℕ}
    (hcall : unitCall op r = .delete h) : op.deletes? = some h := by
  rcases r with code | reply
  · cases op <;> simp_all [unitCall]
  · cases op <;> cases reply <;> simp_all [unitCall, Op.deletes?]

theorem unitCall_shared {op : Op} {r : Result TableReply} {o : MatchTableAbstract.Op}
    (hcall : unitCall op r = .shared o) : op.shared? = some o := by
  rcases r with code | reply
  · cases op <;> simp_all [unitCall, Op.shared?]
  · cases op <;> cases reply <;> simp_all [unitCall, Op.shared?]

theorem unitCall_add {op : Op} (hadds : op.adds = true) (h : ℕ) :
    unitCall op (.ok (.handle h)) = .add h := by
  cases op <;> simp_all [Op.adds, unitCall]

theorem kind_frames : (kind L : TableKind K IndirectIndex S _ _).Frames L unitCall where
  act := by
    intro t op o t' hwf hs
    obtain ⟨hact, hbase⟩ := act_unit hwf hs
    have hbase : t'.base = t.base := hbase
    exact ⟨hact, congrArg _ hbase, congrArg _ hbase, congrArg _ hbase⟩
  adds hadds := unitCall_add hadds _
  deletes := unitCall_delete
  shared := unitCall_shared

end MatchTableIndirect

namespace MatchTableIndirectWS

variable {K S : Type} [MatchKey K] (L : LookupStructure K S)

def Op.adds : Op → Bool
  | .indirect op => op.adds
  | .addEntryWs .. => true
  | _ => false

def Op.deletes? : Op → Option ℕ
  | .indirect op => op.deletes?
  | _ => none

def Op.shared? : Op → Option MatchTableAbstract.Op
  | .indirect op => op.shared?
  | _ => none

def kind : TableKind K IndirectIndex S (MatchTableIndirectWS K S) Op where
  act := act L
  unit t := t.matchUnit
  base t := t.base
  adds := Op.adds
  deletes? := Op.deletes?
  shared? := Op.shared?

theorem kind_frames : (kind L : TableKind K IndirectIndex S _ _).Frames L unitCall where
  act := by
    intro t op o t' hwf hs
    obtain ⟨hact, hbase⟩ := act_unit hwf hs
    have hbase : t'.base = t.base := hbase
    exact ⟨hact, congrArg _ hbase, congrArg _ hbase, congrArg _ hbase⟩
  adds := by
    intro op h hadds
    cases op with
    | indirect op => exact MatchTableIndirect.unitCall_add hadds h
    | addEntryWs => rfl
    | _ => simp [kind, Op.adds] at hadds
  deletes := by
    intro op r h hcall
    cases op with
    | indirect op => exact MatchTableIndirect.unitCall_delete hcall
    | addEntryWs => rcases r with code | reply <;> [skip; cases reply] <;> simp [unitCall] at hcall
    | _ => simp [unitCall] at hcall
  shared := by
    intro op r o hcall
    cases op with
    | indirect op => exact MatchTableIndirect.unitCall_shared hcall
    | addEntryWs => rcases r with code | reply <;> [skip; cases reply] <;> simp [unitCall] at hcall
    | _ => simp [unitCall] at hcall

end MatchTableIndirectWS

end Bmv2
