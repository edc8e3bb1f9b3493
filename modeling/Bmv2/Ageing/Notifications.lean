import Bmv2.Ageing.AgeingMonitor

/-! Runs of sweeps: every table is reported on its own, and each report leaves out what was in the
one before it. -/
namespace Bmv2

/-- Reports of a changing list of which none repeats the one before it. -/
def reported {α : Type*} [DecidableEq α] (expired : ℕ → List α) : ℕ → List α
  | 0 => expired 0
  | k + 1 => (expired (k + 1)).filter (· ∉ reported expired k)

section Reported

variable {α : Type*} [DecidableEq α] {expired : ℕ → List α}

theorem reported_sublist (k : ℕ) : (reported expired k).Sublist (expired k) := by
  cases k with
  | zero => exact List.Sublist.refl _
  | succ k => exact List.filter_sublist

theorem notMem_reported_succ {k : ℕ} {a : α} (h : a ∈ reported expired k) :
    a ∉ reported expired (k + 1) := by
  intro hnext
  rw [reported, List.mem_filter] at hnext
  simp [h] at hnext

/-- What is expired twice in a row is reported once. -/
theorem mem_reported_or {k : ℕ} {a : α} (hnext : a ∈ expired (k + 1)) :
    a ∈ reported expired k ∨ a ∈ reported expired (k + 1) := by
  by_cases h : a ∈ reported expired k
  · exact .inl h
  · right
    rw [reported, List.mem_filter]
    exact ⟨hnext, by simpa using h⟩

/-- The last of the first `k` reports. -/
def lastReport (expired : ℕ → List α) : ℕ → List α
  | 0 => []
  | k + 1 => reported expired k

theorem filter_lastReport (expired : ℕ → List α) (k : ℕ) :
    (expired k).filter (· ∉ lastReport expired k) = reported expired k := by
  cases k with
  | zero => simp [lastReport, reported]
  | succ k => rfl

end Reported

namespace AgeingMonitor

variable {m : AgeingMonitor} {deviceId cxtId : ℤ} {ids : List ℤ} {expired : ℕ → ℤ → List ℕ}

theorem Wf.addTable (h : m.Wf) (id : ℤ) : (m.addTable id).Wf := by
  unfold AgeingMonitor.addTable
  split_ifs
  · exact h
  · exact ⟨h.entries_nil, h.entriesTmp_nil, h.bufferId_lt⟩

/-- The tables of the monitor, each once and with nothing remembered. -/
structure Initial (m : AgeingMonitor) : Prop extends m.Wf where
  nodup : (m.tablesWithAgeing.map TableData.tableId).Nodup
  prev_empty : ∀ data ∈ m.tablesWithAgeing, data.prevSweepEntries = ∅
  bufferId_zero : m.bufferId = 0

theorem Initial.addTable (h : m.Initial) (id : ℤ) : (m.addTable id).Initial := by
  have hwf := h.toWf.addTable id
  unfold AgeingMonitor.addTable at hwf ⊢
  split_ifs with hold
  · exact h
  · rw [if_neg hold] at hwf
    have hperm := List.perm_orderedInsert (fun a b : TableData => a.tableId ≤ b.tableId)
      { tableId := id } m.tablesWithAgeing
    refine ⟨hwf, ?_, ?_, h.bufferId_zero⟩
    · apply (hperm.map _).nodup_iff.mpr
      exact List.nodup_cons.mpr ⟨hold, h.nodup⟩
    · intro data hdata
      rcases List.mem_cons.mp (hperm.mem_iff.mp hdata) with rfl | hdata
      · rfl
      · exact h.prev_empty data hdata

theorem mem_ids_addTable (id other : ℤ) :
    other ∈ (m.addTable id).tablesWithAgeing.map TableData.tableId ↔
      other = id ∨ other ∈ m.tablesWithAgeing.map TableData.tableId := by
  unfold addTable
  split_ifs with hold
  · constructor
    · exact .inr
    · rintro (rfl | h)
      · exact hold
      · exact h
  · have hperm := List.perm_orderedInsert (fun a b : TableData => a.tableId ≤ b.tableId)
      { tableId := id } m.tablesWithAgeing
    exact (hperm.map TableData.tableId).mem_iff.trans List.mem_cons

/-- The monitor that has been given its tables. -/
theorem initial_foldl (ids : List ℤ) (h : m.Initial) :
    (ids.foldl AgeingMonitor.addTable m).Initial := by
  induction ids generalizing m with
  | nil => exact h
  | cons id ids ih => exact ih (h.addTable id)

theorem mem_ids_foldl (id : ℤ) (ids : List ℤ) :
    id ∈ (ids.foldl AgeingMonitor.addTable m).tablesWithAgeing.map TableData.tableId ↔
      id ∈ ids ∨ id ∈ m.tablesWithAgeing.map TableData.tableId := by
  induction ids generalizing m with
  | nil => simp
  | cons first ids ih =>
    rw [List.foldl_cons, ih, mem_ids_addTable, List.mem_cons]
    tauto

theorem initial_withTables : (withTables deviceId cxtId ids).Initial := by
  apply initial_foldl
  refine ⟨⟨rfl, rfl, Nat.two_pow_pos _⟩, List.nodup_nil, ?_, rfl⟩
  exact fun data hdata => nomatch hdata

theorem mem_ids_withTables {id : ℤ} :
    id ∈ (withTables deviceId cxtId ids).tablesWithAgeing.map TableData.tableId ↔ id ∈ ids := by
  rw [withTables, mem_ids_foldl]
  simp

theorem Wf.sweeps (h : m.Wf) (k : ℕ) : (m.sweeps expired k).Wf := by
  induction k with
  | zero => exact h
  | succ k ih => exact ih.doSweep

/-- A table after `k` sweeps: what is remembered is its last report. -/
def afterSweeps (expired : ℕ → ℤ → List ℕ) (k : ℕ) (id : ℤ) : TableData :=
  { tableId := id
    prevSweepEntries := (lastReport (fun j => expired j id) k).toFinset }

theorem fresh_afterSweeps (k : ℕ) (id : ℤ) :
    fresh (expired k) (afterSweeps expired k id) = reported (fun j => expired j id) k := by
  rw [← filter_lastReport]
  unfold fresh afterSweeps
  simp only [List.mem_toFinset]

/-- The tables after `k` sweeps. -/
theorem tables_sweeps (h : m.Initial) (k : ℕ) :
    (m.sweeps expired k).tablesWithAgeing =
      (m.tablesWithAgeing.map TableData.tableId).map (afterSweeps expired k) := by
  induction k with
  | zero =>
    rw [List.map_map]
    refine (List.map_id _).symm.trans (List.map_congr_left fun data hdata => ?_)
    have hprev := h.prev_empty data hdata
    obtain ⟨tableId, prev⟩ := data
    rw [show prev = ∅ from hprev]
    rfl
  | succ k ih =>
    rw [sweeps, doSweep_spec (h.toWf.sweeps k), ih, List.map_map]
    apply List.map_congr_left
    intro id _
    rw [Function.comp_apply, remember, fresh_afterSweeps]
    rfl

/-- Sweep `k` sends, under the id of a table, the report about the table. -/
theorem handlesSent_sentAt (h : m.Initial) (k : ℕ) {id : ℤ}
    (hid : id ∈ m.tablesWithAgeing.map TableData.tableId) :
    handlesSent (m.sentAt expired k) id = payload (reported (fun j => expired j id) k) := by
  have htables : (m.sweeps expired k).tablesWithAgeing =
      (m.tablesWithAgeing.map TableData.tableId).map (afterSweeps expired k) := tables_sweeps h k
  have hids : ((m.sweeps expired k).tablesWithAgeing.map TableData.tableId).Nodup := by
    rw [htables, List.map_map]
    exact (List.map_id _).symm ▸ h.nodup
  have hmem : afterSweeps expired k id ∈ (m.sweeps expired k).tablesWithAgeing := by
    rw [htables]
    exact List.mem_map_of_mem hid
  rw [sentAt, doSweep_spec (h.toWf.sweeps k), ← fresh_afterSweeps]
  exact handlesSent_of_mem hids hmem

theorem handlesSent_sentAt_of_notMem (h : m.Initial) (k : ℕ) {id : ℤ}
    (hid : id ∉ m.tablesWithAgeing.map TableData.tableId) :
    handlesSent (m.sentAt expired k) id = [] := by
  rw [sentAt, doSweep_spec (h.toWf.sweeps k)]
  apply handlesSent_of_notMem
  rw [tables_sweeps h, List.map_map]
  exact (List.map_id _).symm ▸ hid

/-- The numbers of the messages of the first `n` sweeps. -/
theorem bufferIds_sweeps (h : m.Wf) (n : ℕ) :
    ∃ total, ((List.range n).flatMap (m.sentAt expired)).map AgeingMsg.bufferId =
        (List.range' m.bufferId total).map (· % 2 ^ 64) ∧
      (m.sweeps expired n).bufferId = (m.bufferId + total) % 2 ^ 64 := by
  induction n with
  | zero => exact ⟨0, rfl, (Nat.mod_eq_of_lt h.bufferId_lt).symm⟩
  | succ n ih =>
    obtain ⟨total, hids, hnext⟩ := ih
    have hwf : (m.sweeps expired n).Wf := h.sweeps n
    have hspec : (m.sweeps expired n).doSweep (expired n) = _ := doSweep_spec hwf
    refine ⟨total + (m.sentAt expired n).length, ?_, ?_⟩
    · have hsent : (m.sentAt expired n).map AgeingMsg.bufferId =
          (List.range' (m.sweeps expired n).bufferId (m.sentAt expired n).length).map
            (· % 2 ^ 64) := by
        rw [sentAt, hspec]
        exact bufferId_notices (h.sweeps n) _
      rw [List.range_succ, List.flatMap_append, List.map_append, hids, List.flatMap_singleton,
        hsent, hnext, range'_mod, ← List.map_append, List.range'_append_1]
    · rw [sweeps, sentAt, hspec]
      dsimp only
      rw [hnext, Nat.mod_add_mod, Nat.add_assoc]

/-- A sweep finds few enough new handles of each table: their bytes are counted in an
`unsigned int`. -/
def Fits (m : AgeingMonitor) (expired : ℤ → List ℕ) : Prop :=
  ∀ data ∈ m.tablesWithAgeing, (fresh expired data).length < 2 ^ 29

instance (m : AgeingMonitor) (expired : ℤ → List ℕ) : Decidable (m.Fits expired) :=
  inferInstanceAs (Decidable (∀ data ∈ _, _))

/-- What the first `n` sweeps of tables send, when the handles of `expired k id` are the expired
ones of table `id` at sweep `k`. -/
structure Notifies (ids : List ℤ) (expired : ℕ → ℤ → List ℕ) (sent : ℕ → List AgeingMsg)
    (n : ℕ) : Prop where
  ofExpired : ∀ k < n, ∀ (id : ℤ), ∀ handle ∈ handlesSent (sent k) id,
    id ∈ ids ∧ handle ∈ expired k id
  nodup : ∀ k < n, ∀ (id : ℤ), (handlesSent (sent k) id).Nodup
  once : ∀ k, k + 1 < n → ∀ (id : ℤ), ∀ handle ∈ handlesSent (sent k) id,
    handle ∉ handlesSent (sent (k + 1)) id
  ofRepeated : ∀ k, k + 1 < n → ∀ id ∈ ids, ∀ handle ∈ expired k id, handle ∈ expired (k + 1) id →
    handle ∈ handlesSent (sent k) id ∨ handle ∈ handlesSent (sent (k + 1)) id
  bufferIds : ∃ total, ((List.range n).flatMap sent).map AgeingMsg.bufferId =
    (List.range total).map (· % 2 ^ 64)
  numEntries : ∀ k < n, ∀ msg ∈ sent k, msg.numEntries = msg.entries.length

/-- Over every run of sweeps that each find fewer than `2 ^ 29` new handles in a table: what is sent
about a table is expired, no handle is sent twice in a row, and none is missed. -/
theorem sweeps_notify (n : ℕ) (hdistinct : ∀ k < n, ∀ id ∈ ids, (expired k id).Nodup)
    (hfits : ∀ k < n, ((withTables deviceId cxtId ids).sweeps expired k).Fits (expired k)) :
    Notifies ids expired ((withTables deviceId cxtId ids).sentAt expired) n := by
  have hinit : (withTables deviceId cxtId ids).Initial := initial_withTables
  have hsent : ∀ k < n, ∀ id ∈ ids,
      handlesSent ((withTables deviceId cxtId ids).sentAt expired k) id =
        reported (fun j => expired j id) k := by
    intro k hk id hid
    have hmem : id ∈ (withTables deviceId cxtId ids).tablesWithAgeing.map TableData.tableId :=
      mem_ids_withTables.mpr hid
    rw [handlesSent_sentAt hinit k hmem, payload_eq_iff, ← fresh_afterSweeps]
    apply hfits k hk
    rw [tables_sweeps hinit]
    exact List.mem_map_of_mem hmem
  have hnone : ∀ k, ∀ id ∉ ids,
      handlesSent ((withTables deviceId cxtId ids).sentAt expired k) id = [] :=
    fun k id hid => handlesSent_sentAt_of_notMem hinit k fun h => hid (mem_ids_withTables.mp h)
  refine ⟨?_, ?_, ?_, ?_, ?_, ?_⟩
  · intro k hk id handle hhandle
    by_cases hid : id ∈ ids
    · rw [hsent k hk id hid] at hhandle
      exact ⟨hid, (reported_sublist k).subset hhandle⟩
    · rw [hnone k id hid] at hhandle
      cases hhandle
  · intro k hk id
    by_cases hid : id ∈ ids
    · rw [hsent k hk id hid]
      exact (hdistinct k hk id hid).sublist (reported_sublist k)
    · rw [hnone k id hid]
      exact List.nodup_nil
  · intro k hk id handle hhandle
    by_cases hid : id ∈ ids
    · rw [hsent k (by omega) id hid] at hhandle
      rw [hsent (k + 1) hk id hid]
      exact notMem_reported_succ hhandle
    · rw [hnone (k + 1) id hid]
      exact List.not_mem_nil
  · intro k hk id hid handle _ hnext
    rw [hsent k (by omega) id hid, hsent (k + 1) hk id hid]
    exact (mem_reported_or hnext : handle ∈ reported (fun j => expired j id) k ∨ _)
  · obtain ⟨total, hids, -⟩ : ∃ total,
        ((List.range n).flatMap ((withTables deviceId cxtId ids).sentAt expired)).map
          AgeingMsg.bufferId =
          (List.range' (withTables deviceId cxtId ids).bufferId total).map (· % 2 ^ 64) ∧ _ :=
      bufferIds_sweeps hinit.toWf n
    rw [hinit.bufferId_zero, ← List.range_eq_range'] at hids
    exact ⟨total, hids⟩
  · intro k hk msg hmsg
    rw [sentAt, doSweep_spec (hinit.toWf.sweeps k)] at hmsg
    exact numEntries_notices (hfits k hk) msg hmsg

theorem sweeps_notify_two_tables :
    let expired : ℕ → ℤ → List ℕ := fun k id => if id = 1 ∨ k = 1 then [5, 7 + k] else []
    Notifies [2, 1] expired ((withTables 0 0 [2, 1]).sentAt expired) 3 :=
  sweeps_notify 3 (by decide +kernel) (by decide +kernel)

/-- The bytes of `2 ^ 29` handles are counted as none: no handle goes out, and at the next sweep
all of them count as sent. -/
theorem sweeps_miss_handles :
    let expired : ℕ → ℤ → List ℕ := fun _ _ => List.range (2 ^ 29)
    (∀ k < 2, ∀ id ∈ [(0 : ℤ)], (expired k id).Nodup) ∧
      ¬ Notifies [0] expired ((withTables 0 0 [0]).sentAt expired) 2 := by
  dsimp only
  have hnodup : (List.range (2 ^ 29)).Nodup := List.nodup_range
  have hlen : (List.range (2 ^ 29)).length = 2 ^ 29 := List.length_range
  have hzero : 0 ∈ List.range (2 ^ 29) := List.mem_range.mpr (Nat.two_pow_pos _)
  generalize List.range (2 ^ 29) = all at hnodup hlen hzero
  have hpayload : payload all = [] := by
    rw [payload, hlen]
    exact List.take_zero
  have hmem : (0 : ℤ) ∈ (withTables 0 0 [0]).tablesWithAgeing.map TableData.tableId :=
    mem_ids_withTables.mpr List.mem_cons_self
  have hfirst : handlesSent ((withTables 0 0 [0]).sentAt (fun _ _ => all) 0) 0 = [] := by
    rw [handlesSent_sentAt initial_withTables 0 hmem]
    exact hpayload
  have hsecond : handlesSent ((withTables 0 0 [0]).sentAt (fun _ _ => all) 1) 0 = [] := by
    rw [handlesSent_sentAt initial_withTables 1 hmem, reported, reported,
      List.filter_eq_nil_iff.mpr fun handle hhandle => by simpa using hhandle]
    rfl
  refine ⟨fun _ _ _ _ => hnodup, fun h => ?_⟩
  have hsent := h.ofRepeated 0 (by decide) 0 List.mem_cons_self 0 hzero hzero
  rw [hfirst, hsecond] at hsent
  simp at hsent

end AgeingMonitor

end Bmv2
