import Bmv2.Match.PacketKey

/-! The ageing monitor (`ageing.h`, `ageing.cpp`): a sweep asks every table for its expired
entries and sends those that it did not send at the sweep before. -/
namespace Bmv2

/-- A notification: `msg_hdr_t`, and the handles in the second buffer. -/
structure AgeingMsg where
  subTopic : String := "AGE|"
  switchId : ℤ
  cxtId : ℤ
  bufferId : ℕ
  tableId : ℤ
  numEntries : ℕ
  entries : List ℕ
  deriving DecidableEq

/-- `TableData`, with the id under which the map has it. -/
structure TableData where
  tableId : ℤ
  prevSweepEntries : Finset ℕ := ∅

structure AgeingMonitor where
  deviceId : ℤ
  cxtId : ℤ
  tablesWithAgeing : List TableData := []
  entries : List ℕ := []
  entriesTmp : List ℕ := []
  bufferId : ℕ := 0

namespace AgeingMonitor

variable (m : AgeingMonitor)

/-- `add_table`: a map, in the order of the ids; a table that is in it stays as it is. -/
def addTable (id : ℤ) : AgeingMonitor :=
  if id ∈ m.tablesWithAgeing.map TableData.tableId then m
  else { m with
    tablesWithAgeing :=
      m.tablesWithAgeing.orderedInsert (fun a b => a.tableId ≤ b.tableId) { tableId := id } }

/-- The handles that fit the second buffer, whose length is an `unsigned int`. -/
def payload (entries : List ℕ) : List ℕ :=
  let numEntries := entries.length % 2 ^ 32
  let size := numEntries * 8 % 2 ^ 32
  entries.take (size / 8)

/-- What is written to the transport. -/
def message (tableId : ℤ) (entries : List ℕ) : AgeingMsg :=
  { switchId := m.deviceId, cxtId := m.cxtId, bufferId := m.bufferId, tableId,
    numEntries := entries.length % 2 ^ 32, entries := payload entries }

/-- The body of the loop of `do_sweep`, on a table whose expired entries are `expired`. -/
def sweepTable (expired : List ℕ) (data : TableData) :
    AgeingMonitor × TableData × List AgeingMsg :=
  let m := { m with entriesTmp := m.entriesTmp ++ expired }
  if m.entriesTmp = [] then (m, { data with prevSweepEntries := ∅ }, [])
  else
    let m := { m with
      entries := m.entries ++ m.entriesTmp.filter (· ∉ data.prevSweepEntries)
      entriesTmp := [] }
    if m.entries = [] then (m, { data with prevSweepEntries := ∅ }, [])
    else
      let msg := m.message data.tableId m.entries
      ({ m with entries := [], bufferId := (m.bufferId + 1) % 2 ^ 64 },
        { data with prevSweepEntries := m.entries.toFinset }, [msg])

/-- The loop of `do_sweep`. The expired entries of a table are what its `sweep_entries` finds. -/
def sweepTables (expired : ℤ → List ℕ) (m : AgeingMonitor) :
    List TableData → AgeingMonitor × List TableData × List AgeingMsg
  | [] => (m, [], [])
  | data :: rest =>
    let (m, data', msgs) := m.sweepTable (expired data.tableId) data
    let (m, rest', msgs') := sweepTables expired m rest
    (m, data' :: rest', msgs ++ msgs')

/-- `do_sweep`: the monitor after it, and what it sent. -/
def doSweep (expired : ℤ → List ℕ) : AgeingMonitor × List AgeingMsg :=
  let (m', tablesWithAgeing, msgs) := sweepTables expired m m.tablesWithAgeing
  ({ m' with tablesWithAgeing }, msgs)

/-- The monitor after its first `k` sweeps. -/
def sweeps (expired : ℕ → ℤ → List ℕ) : ℕ → AgeingMonitor
  | 0 => m
  | k + 1 => ((sweeps expired k).doSweep (expired k)).1

/-- What sweep `k` sends. -/
def sentAt (expired : ℕ → ℤ → List ℕ) (k : ℕ) : List AgeingMsg :=
  ((m.sweeps expired k).doSweep (expired k)).2

/-- The monitor of a context, with its tables. -/
def withTables (deviceId cxtId : ℤ) (ids : List ℤ) : AgeingMonitor :=
  ids.foldl addTable { deviceId, cxtId }

/-- The handles that are new at a sweep. -/
def fresh (expired : ℤ → List ℕ) (data : TableData) : List ℕ :=
  (expired data.tableId).filter (· ∉ data.prevSweepEntries)

/-- What holds between sweeps, and between the tables of a sweep. -/
structure Wf : Prop where
  entries_nil : m.entries = []
  entriesTmp_nil : m.entriesTmp = []
  bufferId_lt : m.bufferId < 2 ^ 64

/-- The message about a table, if there is something new. -/
def notice (expired : ℤ → List ℕ) (data : TableData) : List AgeingMsg :=
  if fresh expired data = [] then [] else [m.message data.tableId (fresh expired data)]

/-- The notices about a list of tables, numbered on. -/
def notices (expired : ℤ → List ℕ) (m : AgeingMonitor) : List TableData → List AgeingMsg
  | [] => []
  | data :: rest =>
    m.notice expired data ++ notices expired
      { m with bufferId := (m.bufferId + (m.notice expired data).length) % 2 ^ 64 } rest

/-- A table after a sweep. -/
def remember (expired : ℤ → List ℕ) (data : TableData) : TableData :=
  { data with prevSweepEntries := (fresh expired data).toFinset }

variable {m} {expired : ℤ → List ℕ}

theorem Wf.advance (h : m.Wf) (n : ℕ) : { m with bufferId := n % 2 ^ 64 }.Wf :=
  ⟨h.entries_nil, h.entriesTmp_nil, Nat.mod_lt _ (Nat.two_pow_pos _)⟩

theorem Wf.eq_self (h : m.Wf) : { m with bufferId := m.bufferId % 2 ^ 64 } = m := by
  rw [Nat.mod_eq_of_lt h.bufferId_lt]

/-- With empty work buffers a table gets a notice of what is new, which is remembered. -/
theorem sweepTable_spec (h : m.Wf) (data : TableData) :
    m.sweepTable (expired data.tableId) data =
      ({ m with bufferId := (m.bufferId + (m.notice expired data).length) % 2 ^ 64 },
        remember expired data, m.notice expired data) := by
  obtain ⟨deviceId, cxtId, tables, entries, entriesTmp, bufferId⟩ := m
  obtain ⟨rfl, rfl, hlt⟩ : entries = [] ∧ entriesTmp = [] ∧ bufferId < 2 ^ 64 :=
    ⟨h.entries_nil, h.entriesTmp_nil, h.bufferId_lt⟩
  have hfresh : (expired data.tableId).filter (· ∉ data.prevSweepEntries) = fresh expired data :=
    rfl
  unfold sweepTable notice remember
  dsimp only
  rw [List.nil_append, List.nil_append, hfresh]
  by_cases hnone : expired data.tableId = []
  · have hnil : fresh expired data = [] := by rw [fresh, hnone, List.filter_nil]
    rw [if_pos hnone, hnil, if_pos rfl, hnone, List.length_nil, Nat.add_zero,
      Nat.mod_eq_of_lt hlt]
    rfl
  · rw [if_neg hnone]
    by_cases hnil : fresh expired data = []
    · rw [if_pos hnil, if_pos hnil, hnil, List.length_nil, Nat.add_zero, Nat.mod_eq_of_lt hlt]
      rfl
    · rw [if_neg hnil, if_neg hnil]
      rfl

theorem sweepTables_spec (h : m.Wf) (l : List TableData) :
    sweepTables expired m l =
      ({ m with bufferId := (m.bufferId + (notices expired m l).length) % 2 ^ 64 },
        l.map (remember expired), notices expired m l) := by
  induction l generalizing m with
  | nil =>
    rw [notices, List.length_nil, Nat.add_zero, h.eq_self]
    rfl
  | cons data l ih =>
    rw [sweepTables, sweepTable_spec h]
    dsimp only
    rw [ih (h.advance _), notices, List.length_append]
    dsimp only
    rw [Nat.mod_add_mod, Nat.add_assoc]
    rfl

theorem doSweep_spec (h : m.Wf) :
    m.doSweep expired =
      ({ m with
          tablesWithAgeing := m.tablesWithAgeing.map (remember expired)
          bufferId := (m.bufferId + (notices expired m m.tablesWithAgeing).length) % 2 ^ 64 },
        notices expired m m.tablesWithAgeing) := by
  rw [doSweep, sweepTables_spec h]

theorem Wf.doSweep (h : m.Wf) : (m.doSweep expired).1.Wf := by
  rw [doSweep_spec h]
  exact ⟨h.entries_nil, h.entriesTmp_nil, Nat.mod_lt _ (Nat.two_pow_pos _)⟩

theorem range'_mod (b n : ℕ) : (List.range' (b % 2 ^ 64) n).map (· % 2 ^ 64) =
    (List.range' b n).map (· % 2 ^ 64) := by
  rw [List.range'_eq_map_range, List.range'_eq_map_range, List.map_map, List.map_map]
  apply List.map_congr_left
  intro i _
  exact Nat.mod_add_mod b _ i

/-- Each message has the number after the one before it. -/
theorem bufferId_notices (h : m.Wf) (l : List TableData) :
    (notices expired m l).map AgeingMsg.bufferId =
      (List.range' m.bufferId (notices expired m l).length).map (· % 2 ^ 64) := by
  induction l generalizing m with
  | nil => rfl
  | cons data l ih =>
    have hfirst : (m.notice expired data).map AgeingMsg.bufferId =
        (List.range' m.bufferId (m.notice expired data).length).map (· % 2 ^ 64) := by
      unfold notice
      split_ifs
      · rfl
      · exact congrArg (fun b => [b]) (Nat.mod_eq_of_lt h.bufferId_lt).symm
    rw [notices, List.map_append, List.length_append, ih (h.advance _), range'_mod, hfirst,
      ← List.map_append, List.range'_append_1]

/-- The handles that go out under the id of a table. -/
def handlesSent (msgs : List AgeingMsg) (id : ℤ) : List ℕ :=
  (msgs.filter (·.tableId = id)).flatMap AgeingMsg.entries

theorem handlesSent_append (msgs msgs' : List AgeingMsg) (id : ℤ) :
    handlesSent (msgs ++ msgs') id = handlesSent msgs id ++ handlesSent msgs' id := by
  simp [handlesSent]

theorem handlesSent_notice (data : TableData) (id : ℤ) :
    handlesSent (m.notice expired data) id =
      if data.tableId = id then payload (fresh expired data) else [] := by
  unfold notice
  by_cases hnil : fresh expired data = []
  · rw [if_pos hnil, hnil, payload, List.take_nil, ite_self]
    rfl
  · rw [if_neg hnil]
    by_cases hid : data.tableId = id
    · simp [handlesSent, message, hid]
    · simp [handlesSent, message, hid]

/-- Nothing is sent under an id that no table has. -/
theorem handlesSent_of_notMem {l : List TableData} {id : ℤ}
    (h : id ∉ l.map TableData.tableId) : handlesSent (notices expired m l) id = [] := by
  induction l generalizing m with
  | nil => rfl
  | cons data l ih =>
    rw [List.map_cons, List.mem_cons, not_or] at h
    rw [notices, handlesSent_append, handlesSent_notice, if_neg (Ne.symm h.1), ih h.2]
    rfl

/-- Under the id of a table goes out what is new for that table. -/
theorem handlesSent_of_mem {l : List TableData} (hids : (l.map TableData.tableId).Nodup)
    {data : TableData} (h : data ∈ l) :
    handlesSent (notices expired m l) data.tableId = payload (fresh expired data) := by
  induction l generalizing m with
  | nil => cases h
  | cons first l ih =>
    rw [List.map_cons, List.nodup_cons] at hids
    rw [notices, handlesSent_append, handlesSent_notice]
    rcases List.mem_cons.mp h with rfl | h
    · rw [if_pos rfl, handlesSent_of_notMem hids.1, List.append_nil]
    · have hne : first.tableId ≠ data.tableId := fun heq =>
        hids.1 (heq ▸ List.mem_map_of_mem h)
      rw [if_neg hne, ih hids.2 h, List.nil_append]

/-- The second buffer holds all handles exactly when their bytes are counted right. -/
theorem payload_eq_iff (entries : List ℕ) :
    payload entries = entries ↔ entries.length < 2 ^ 29 := by
  rw [payload, List.take_eq_self_iff]
  omega

/-- Every message announces the handles that it has, if they are not too many. -/
theorem numEntries_notices {l : List TableData}
    (hfew : ∀ data ∈ l, (fresh expired data).length < 2 ^ 29) :
    ∀ msg ∈ notices expired m l, msg.numEntries = msg.entries.length := by
  induction l generalizing m with
  | nil => exact fun msg hmsg => nomatch hmsg
  | cons data l ih =>
    obtain ⟨hdata, hrest⟩ := List.forall_mem_cons.mp hfew
    intro msg hmsg
    rcases List.mem_append.mp hmsg with hmsg | hmsg
    · unfold notice at hmsg
      split_ifs at hmsg
      · cases hmsg
      · obtain rfl := List.mem_singleton.mp hmsg
        dsimp only [message]
        rw [(payload_eq_iff _).mpr hdata, Nat.mod_eq_of_lt (by omega)]
    · exact ih hrest msg hmsg

end AgeingMonitor

end Bmv2
