import Mathlib.Data.List.Sort
import Bmv2.Lib.Monitor
import Bmv2.Lib.Transition
import Bmv2.Lib.UnorderedMap

/-! The port monitor (`port_monitor.cpp`): threads that call `notify`, and the thread of
`PortMonitorActive` that asks for the status of the ports. Both change `curr_ports` under the
mutex and call the callbacks after it. -/
namespace Bmv2

inductive PortStatus where
  | portAdded | portRemoved | portUp | portDown
  deriving DecidableEq

namespace PortStatus

/-- The states of a port are absent, down and up. -/
def next : Option Bool → PortStatus → Option (Option Bool)
  | none, .portAdded => some (some false)
  | some _, .portRemoved => some none
  | some false, .portUp => some (some true)
  | some true, .portDown => some (some false)
  | _, _ => none

/-- The state after a history, the last event first, if each event was due. -/
def replay : List PortStatus → Option (Option Bool)
  | [] => some none
  | e :: history => (replay history).bind fun c => next c e

/-- The last up or down since the port was added. -/
def lastUpDown : List PortStatus → Option Bool
  | .portUp :: _ => some true
  | .portDown :: _ => some false
  | _ => none

/-- A present port is up if its last up or down says so. -/
theorem lastUpDown_of_replay {history : List PortStatus} {b : Bool}
    (h : replay history = some (some b)) : (lastUpDown history).getD false = b := by
  cases history with
  | nil => cases h
  | cons e history =>
    obtain ⟨c, -, hnext⟩ := Option.bind_eq_some_iff.mp h
    cases e <;> rcases c with _ | _ | _ <;> cases hnext <;> rfl

end PortStatus

/-- The monitor with the threads that call `notify`: each has at most one event to deliver, and
the monitor thread has those of one iteration. `delivered` records the calls of `event_handler`,
the last one first. -/
structure PortMonitor where
  currPorts : UnorderedMap.Map ℕ Bool := ∅
  threads : List (Option (ℕ × PortStatus))
  cbsTodo : List (ℕ × PortStatus) := []
  delivered : List (ℕ × PortStatus) := []

inductive PortMonitorOp where
  | notify (t port : ℕ) (evt : PortStatus)
  | eventHandler (t : ℕ)
  | monitor (pStatusFn : ℕ → Bool)
  | monitorEventHandler

namespace PortMonitor

variable (s : PortMonitor)

/-- The checks of `notify_`; an invalid event is ignored. -/
def checkEvent (port : ℕ) (evt : PortStatus) : Option (UnorderedMap.Map ℕ Bool) :=
  match evt, s.currPorts.lookup port with
  | .portAdded, none => some (s.currPorts.insert port false)
  | .portRemoved, some _ => some (s.currPorts.erase port)
  | .portUp, some false => some (s.currPorts.insert port true)
  | .portDown, some true => some (s.currPorts.insert port false)
  | _, _ => none

/-- `port_e.second = is_up` for every port. -/
def updatePorts (pStatusFn : ℕ → Bool) : UnorderedMap.Map ℕ Bool where
  entries := s.currPorts.entries.map (Sigma.map id fun port _ => pStatusFn port)
  nodupKeys := by
    rw [List.NodupKeys, List.map₂_keys]
    exact s.currPorts.nodupKeys

/-- The callbacks of an iteration, in the order of the ports. -/
def changes (pStatusFn : ℕ → Bool) : List (ℕ × PortStatus) :=
  ((s.currPorts.entries.filter fun e => pStatusFn e.1 != e.2).map fun e =>
    (e.1, if pStatusFn e.1 then PortStatus.portUp else .portDown)).insertionSort
      fun x y => x.1 ≤ y.1

def step : PortMonitorOp → Option (Unit × PortMonitor)
  | .notify t port evt =>
    if s.threads[t]? = some none then
      match s.checkEvent port evt with
      | some currPorts => some ((), { s with
          currPorts
          threads := s.threads.set t (some (port, evt)) })
      | none => some ((), s)
    else none
  | .eventHandler t => do
    let e ← (s.threads[t]?).join
    some ((), { s with
      threads := s.threads.set t none
      delivered := e :: s.delivered })
  | .monitor pStatusFn =>
    if s.cbsTodo = [] then
      some ((), { s with
        currPorts := s.updatePorts pStatusFn
        cbsTodo := s.changes pStatusFn })
    else none
  | .monitorEventHandler =>
    match s.cbsTodo with
    | [] => none
    | e :: cbsTodo => some ((), { s with cbsTodo, delivered := e :: s.delivered })

def history (port : ℕ) : List PortStatus :=
  (s.delivered.filter fun e => e.1 = port).map Prod.snd

/-- Deliveries of events of the port are in progress. -/
def inProgress (port : ℕ) : ℕ :=
  Monitor.count (fun e => e.any fun e => decide (e.1 = port)) s.threads +
    Monitor.count (fun e => decide (e.1 = port)) s.cbsTodo

/-- Each port has a legal history, and without deliveries in progress its last up or down is what
`curr_ports` says. -/
structure Ordered : Prop where
  legal : ∀ port, (PortStatus.replay (s.history port)).isSome
  agrees : (∀ e ∈ s.threads, e = none) → s.cbsTodo = [] → ∀ port b,
    s.currPorts.lookup port = some b → (PortStatus.lastUpDown (s.history port)).getD false = b

/-- A port changes only when its events are delivered. -/
def Keeps : PortMonitorOp → Prop
  | .notify _ port evt => s.checkEvent port evt ≠ none → s.inProgress port = 0
  | .monitor pStatusFn => ∀ e ∈ s.changes pStatusFn, s.inProgress e.1 = 0
  | _ => True

instance (op : PortMonitorOp) : Decidable (s.Keeps op) := by
  cases op <;> unfold Keeps <;> infer_instance

/-- What is still to be delivered for the port. -/
def Pending (port : ℕ) (evt : PortStatus) : Prop :=
  some (port, evt) ∈ s.threads ∨ (port, evt) ∈ s.cbsTodo

/-- The history of the port is legal, and with the event in progress, if there is one, it leads
to what `curr_ports` says. -/
def Settled (port : ℕ) : Prop :=
  s.inProgress port ≤ 1 ∧ ∃ c, PortStatus.replay (s.history port) = some c ∧
    (s.inProgress port = 0 → c = s.currPorts.lookup port) ∧
    ∀ evt, s.Pending port evt → PortStatus.next c evt = some (s.currPorts.lookup port)

variable {s} {s' : PortMonitor}

theorem inProgress_pos {port : ℕ} {evt : PortStatus} (h : s.Pending port evt) :
    0 < s.inProgress port := by
  unfold inProgress
  rcases h with h | h
  · obtain ⟨i, hi⟩ := List.mem_iff_getElem?.mp h
    have hpos := Monitor.count_pos (P := fun e => e.any fun e => decide (e.1 = port)) hi (by simp)
    omega
  · obtain ⟨i, hi⟩ := List.mem_iff_getElem?.mp h
    have hpos := Monitor.count_pos (P := fun e => decide (e.1 = port)) hi (decide_eq_true rfl)
    omega

theorem not_pending {port : ℕ} {evt : PortStatus} (h : s.inProgress port = 0) :
    ¬ s.Pending port evt := fun hevt => (inProgress_pos hevt).ne' h

theorem ordered_of_settled (h : ∀ port, s.Settled port) : s.Ordered where
  legal port := by
    obtain ⟨-, c, hreplay, -⟩ := h port
    rw [hreplay]
    rfl
  agrees hthreads htodo port b hb := by
    obtain ⟨-, c, hreplay, hidle, -⟩ := h port
    have hzero : s.inProgress port = 0 := by
      have hcount : Monitor.count (fun e => e.any fun e => decide (e.1 = port)) s.threads = 0 :=
        List.countP_eq_zero.mpr fun e he => by simp [hthreads e he]
      rw [inProgress, hcount, htodo]
      rfl
    rw [hidle hzero, hb] at hreplay
    exact PortStatus.lastUpDown_of_replay hreplay

/-- The checks of `notify_` are the transitions of the port, and other ports stay. -/
theorem checkEvent_eq {port : ℕ} {evt : PortStatus} {currPorts : UnorderedMap.Map ℕ Bool}
    (h : s.checkEvent port evt = some currPorts) :
    PortStatus.next (s.currPorts.lookup port) evt = some (currPorts.lookup port) ∧
      ∀ q ≠ port, currPorts.lookup q = s.currPorts.lookup q := by
  unfold checkEvent at h
  split at h
  · rename_i hport
    cases h
    rw [hport, AList.lookup_insert]
    exact ⟨rfl, fun q hq => AList.lookup_insert_ne hq⟩
  · rename_i hport
    cases h
    rw [hport, AList.lookup_erase]
    exact ⟨rfl, fun q hq => AList.lookup_erase_ne hq⟩
  · rename_i hport
    cases h
    rw [hport, AList.lookup_insert]
    exact ⟨rfl, fun q hq => AList.lookup_insert_ne hq⟩
  · rename_i hport
    cases h
    rw [hport, AList.lookup_insert]
    exact ⟨rfl, fun q hq => AList.lookup_insert_ne hq⟩
  · cases h

/-- A valid event is detected for a port without deliveries in progress. -/
theorem settled_notify (h : ∀ port, s.Settled port) {t port : ℕ} {evt : PortStatus}
    {currPorts : UnorderedMap.Map ℕ Bool} (hth : s.threads[t]? = some none)
    (hcheck : s.checkEvent port evt = some currPorts) (hnone : s.inProgress port = 0) (q : ℕ) :
    Settled { s with currPorts, threads := s.threads.set t (some (port, evt)) } q := by
  obtain ⟨hnext, hother⟩ := checkEvent_eq hcheck
  obtain ⟨hle, c, hreplay, hidle, hpending⟩ := h q
  have hcount := Monitor.count_set hth (fun e => e.any fun e => decide (e.1 = q))
    (some (port, evt))
  simp only [Option.any_none, Option.any_some, Bool.toNat_false] at hcount
  by_cases hq : port = q
  · subst hq
    simp only [decide_true, Bool.toNat_true] at hcount
    have hone : inProgress { s with currPorts, threads := s.threads.set t (some (port, evt)) }
        port = 1 := by
      unfold inProgress at hnone ⊢
      dsimp only
      omega
    refine ⟨hone.le, c, hreplay, fun hzero => absurd (hone.symm.trans hzero) one_ne_zero,
      fun evt' hevt' => ?_⟩
    rw [hidle hnone]
    rcases hevt' with hmem | hmem
    · rcases List.mem_or_eq_of_mem_set hmem with hmem | heq
      · exact absurd (.inl hmem) (not_pending hnone)
      · cases heq
        exact hnext
    · exact absurd (.inr hmem) (not_pending hnone)
  · simp only [hq, decide_false, Bool.toNat_false] at hcount
    have hsame : inProgress { s with currPorts, threads := s.threads.set t (some (port, evt)) } q =
        s.inProgress q := by
      unfold inProgress
      dsimp only
      omega
    have hlookup := hother q (Ne.symm hq)
    refine ⟨hsame ▸ hle, c, hreplay, fun hzero => ?_, fun evt' hevt' => ?_⟩
    · exact (hidle (hsame ▸ hzero)).trans hlookup.symm
    · dsimp only
      rw [hlookup]
      apply hpending
      rcases hevt' with hmem | hmem
      · rcases List.mem_or_eq_of_mem_set hmem with hmem | heq
        · exact .inl hmem
        · cases heq
          exact absurd rfl hq
      · exact .inr hmem

/-- A delivery: the event of the port was the only one, and nothing changes for the others. -/
theorem settled_deliver (h : ∀ port, s.Settled port) {port : ℕ} {evt : PortStatus}
    (hevt : s.Pending port evt) (hports : s'.currPorts = s.currPorts)
    (hdelivered : s'.delivered = (port, evt) :: s.delivered)
    (hcount : ∀ q, s'.inProgress q + (decide (port = q)).toNat = s.inProgress q)
    (hpending : ∀ q e, s'.Pending q e → s.Pending q e) (q : ℕ) : s'.Settled q := by
  obtain ⟨hle, c, hreplay, hidle, hnext⟩ := h q
  have hq := hcount q
  by_cases hport : port = q
  · subst hport
    rw [decide_eq_true rfl, Bool.toNat_true] at hq
    have hzero : s'.inProgress port = 0 := by omega
    refine ⟨by omega, s.currPorts.lookup port, ?_, fun _ => by rw [hports], fun e he => ?_⟩
    · have hhistory : s'.history port = evt :: s.history port := by
        simp [history, hdelivered]
      rw [hhistory, PortStatus.replay, hreplay]
      exact hnext evt hevt
    · exact absurd he (not_pending hzero)
  · rw [decide_eq_false hport, Bool.toNat_false, Nat.add_zero] at hq
    have hhistory : s'.history q = s.history q := by
      simp [history, hdelivered, hport]
    rw [Settled, hq, hhistory, hports]
    exact ⟨hle, c, hreplay, hidle, fun e he => hnext e (hpending q e he)⟩

theorem mem_changes {pStatusFn : ℕ → Bool} {port : ℕ} {evt : PortStatus} :
    (port, evt) ∈ s.changes pStatusFn ↔ ∃ b, s.currPorts.lookup port = some b ∧
      pStatusFn port ≠ b ∧ evt = if pStatusFn port then .portUp else .portDown := by
  unfold changes
  rw [List.mem_insertionSort, List.mem_map]
  constructor
  · rintro ⟨⟨p, b⟩, hmem, heq⟩
    obtain ⟨hmem, hne⟩ := List.mem_filter.mp hmem
    cases heq
    exact ⟨b, List.mem_dlookup s.currPorts.nodupKeys hmem, bne_iff_ne.mp hne, rfl⟩
  · rintro ⟨b, hb, hne, rfl⟩
    exact ⟨⟨port, b⟩, List.mem_filter.mpr ⟨List.of_mem_dlookup hb, bne_iff_ne.mpr hne⟩, rfl⟩

/-- An iteration has at most one event for a port. -/
theorem count_changes_le (pStatusFn : ℕ → Bool) (port : ℕ) :
    Monitor.count (fun e => decide (e.1 = port)) (s.changes pStatusFn) ≤ 1 := by
  have hnodup : ((s.changes pStatusFn).map Prod.fst).Nodup := by
    unfold changes
    rw [((List.perm_insertionSort _ _).map Prod.fst).nodup_iff, List.map_map]
    exact List.Nodup.sublist (List.filter_sublist.map Sigma.fst) s.currPorts.nodupKeys
  have hcount := List.nodup_iff_count_le_one.mp hnodup port
  rw [List.count_eq_countP, List.countP_map] at hcount
  exact hcount

theorem lookup_updatePorts (pStatusFn : ℕ → Bool) (port : ℕ) :
    (s.updatePorts pStatusFn).lookup port =
      (s.currPorts.lookup port).map fun _ => pStatusFn port :=
  List.dlookup_map₂ port

/-- An iteration detects changes only of ports without deliveries in progress. -/
theorem settled_monitor (h : ∀ port, s.Settled port) {pStatusFn : ℕ → Bool}
    (htodo : s.cbsTodo = []) (hkeep : ∀ e ∈ s.changes pStatusFn, s.inProgress e.1 = 0) (q : ℕ) :
    Settled { s with currPorts := s.updatePorts pStatusFn, cbsTodo := s.changes pStatusFn } q := by
  obtain ⟨hle, c, hreplay, hidle, hnext⟩ := h q
  have hthreads : s.inProgress q =
      Monitor.count (fun e => e.any fun e => decide (e.1 = q)) s.threads := by
    rw [inProgress, htodo]
    rfl
  have hprogress : inProgress { s with
      currPorts := s.updatePorts pStatusFn, cbsTodo := s.changes pStatusFn } q =
        s.inProgress q + Monitor.count (fun e => decide (e.1 = q)) (s.changes pStatusFn) := by
    rw [hthreads]
    rfl
  have hcount := s.count_changes_le pStatusFn q
  by_cases hchanged : ∃ evt, (q, evt) ∈ s.changes pStatusFn
  · obtain ⟨evt, hevt⟩ := hchanged
    have hzero : s.inProgress q = 0 := hkeep _ hevt
    obtain ⟨b, hb, hne, rfl⟩ := mem_changes.mp hevt
    refine ⟨by omega, c, hreplay, fun hnone => ?_, fun evt' hevt' => ?_⟩
    · exact absurd (.inr hevt) (not_pending hnone)
    · rw [hidle hzero, hb, lookup_updatePorts, hb]
      rcases hevt' with hmem | hmem
      · exact absurd (.inl hmem) (not_pending hzero)
      · obtain ⟨b', -, -, rfl⟩ := mem_changes.mp hmem
        cases hup : pStatusFn q <;> cases b <;> simp_all [PortStatus.next]
  · have hnot : Monitor.count (fun e => decide (e.1 = q)) (s.changes pStatusFn) = 0 :=
      List.countP_eq_zero.mpr fun e he hq => hchanged ⟨e.2, by rwa [← of_decide_eq_true hq]⟩
    have hsame : (s.updatePorts pStatusFn).lookup q = s.currPorts.lookup q := by
      rw [lookup_updatePorts]
      cases hb : s.currPorts.lookup q with
      | none => rfl
      | some b =>
        have heq : pStatusFn q = b := by
          by_contra hne
          exact hchanged ⟨_, mem_changes.mpr ⟨b, hb, hne, rfl⟩⟩
        rw [Option.map_some, heq]
    refine ⟨by omega, c, hreplay, fun hnone => ?_, fun evt hevt => ?_⟩
    · exact (hidle (by omega)).trans hsame.symm
    · dsimp only
      rw [hsame]
      apply hnext
      rcases hevt with hmem | hmem
      · exact .inl hmem
      · exact absurd ⟨evt, hmem⟩ hchanged

/-- What one step keeps. -/
theorem settled_step (h : ∀ port, s.Settled port) {op : PortMonitorOp} {r : Unit}
    (hkeep : s.Keeps op) (hs : s.step op = some (r, s')) : ∀ port, s'.Settled port := by
  cases op with
  | notify t port evt =>
    simp only [step] at hs
    split_ifs at hs with hth
    split at hs
    · rename_i currPorts hcheck
      cases hs
      exact settled_notify h hth hcheck (hkeep (by rw [hcheck]; exact Option.some_ne_none _))
    · cases hs
      exact h
  | eventHandler t =>
    simp only [step, Option.bind_eq_bind, Option.bind_eq_some_iff] at hs
    obtain ⟨⟨port, evt⟩, hth, hs⟩ := hs
    rw [Option.join_eq_some_iff] at hth
    cases hs
    refine settled_deliver h (.inl (List.mem_of_getElem? hth)) ?_ ?_ ?_ ?_
    · rfl
    · rfl
    · intro q
      have hcount := Monitor.count_set hth (fun e => e.any fun e => decide (e.1 = q)) none
      simp only [Option.any_none, Option.any_some, Bool.toNat_false] at hcount
      unfold inProgress
      dsimp only
      omega
    · rintro q e (hmem | hmem)
      · rcases List.mem_or_eq_of_mem_set hmem with hmem | heq
        · exact .inl hmem
        · cases heq
      · exact .inr hmem
  | monitor pStatusFn =>
    simp only [step] at hs
    split_ifs at hs with htodo
    cases hs
    exact settled_monitor h htodo hkeep
  | monitorEventHandler =>
    simp only [step] at hs
    split at hs
    · cases hs
    · rename_i e cbsTodo htodo
      cases hs
      obtain ⟨port, evt⟩ := e
      have hmem : (port, evt) ∈ s.cbsTodo := htodo ▸ List.mem_cons_self
      refine settled_deliver h (.inr hmem) ?_ ?_ ?_ ?_
      · rfl
      · rfl
      · intro q
        unfold inProgress Monitor.count
        rw [htodo, List.countP_cons]
        by_cases hq : port = q <;> simp [hq, Nat.add_assoc]
      · rintro q e (hq | hq)
        · exact .inl hq
        · exact .inr (htodo ▸ List.mem_cons_of_mem _ hq)

/-- No ports, and threads that are not in `notify`. -/
def start (nbThreads : ℕ) : PortMonitor where
  threads := List.replicate nbThreads none

theorem settled_start (nbThreads port : ℕ) : (start nbThreads).Settled port := by
  have hzero : (start nbThreads).inProgress port = 0 := by
    have hcount := Monitor.not_count_pos_replicate (t := none)
      (P := fun e : Option (ℕ × PortStatus) => e.any fun e => decide (e.1 = port)) rfl nbThreads
    exact Nat.eq_zero_of_not_pos hcount
  exact ⟨by omega, none, rfl, fun _ => rfl, fun evt hevt => absurd hevt (not_pending hzero)⟩

end PortMonitor

open PortMonitor in
/-- In every run in which a port changes only when its earlier events are delivered, the events
that are delivered for a port are a legal history, which agrees with `curr_ports` when it is
complete. -/
theorem port_events_ordered (nbThreads : ℕ) (s : PortMonitor)
    (h : Transition.Reach PortMonitor.step PortMonitor.Keeps (PortMonitor.start nbThreads) s) :
    s.Ordered :=
  ordered_of_settled (h.invariant (fun s => ∀ port, s.Settled port) (settled_start nbThreads)
    fun _ _ _ _ hsettled hkeep hs => settled_step hsettled hkeep hs)

/-- A port is added, comes up, and is removed by another thread while a second one is added. -/
theorem port_events_ordered_two_ports : ∃ s : PortMonitor, s.Ordered ∧
    s.delivered = [(2, .portAdded), (1, .portRemoved), (1, .portUp), (1, .portAdded)] := by
  have heval : (Transition.runAll PortMonitor.step PortMonitor.Keeps (PortMonitor.start 2)
      [.notify 0 1 .portAdded, .eventHandler 0, .monitor fun _ => true, .monitorEventHandler,
        .notify 0 1 .portRemoved, .notify 1 2 .portAdded, .eventHandler 0, .eventHandler 1]).map
      PortMonitor.delivered =
      some [(2, .portAdded), (1, .portRemoved), (1, .portUp), (1, .portAdded)] := by
    decide +kernel
  obtain ⟨s, hrun, hs⟩ := Option.map_eq_some_iff.mp heval
  exact ⟨s, port_events_ordered 2 s (.of_runAll hrun), hs⟩

/-- The monitor finds a port up before the thread that added it has called the callbacks. -/
theorem up_delivered_before_added : ∃ s : PortMonitor,
    Transition.Reach PortMonitor.step (fun _ _ => True) (PortMonitor.start 1) s ∧ ¬ s.Ordered := by
  have heval : (Transition.runAll PortMonitor.step (fun _ _ => True) (PortMonitor.start 1)
      [.notify 0 1 .portAdded, .monitor fun _ => true, .monitorEventHandler]).map
      (fun s => PortStatus.replay (s.history 1)) = some none := by
    decide +kernel
  obtain ⟨s, hrun, hs⟩ := Option.map_eq_some_iff.mp heval
  refine ⟨s, .of_runAll hrun, fun hordered => ?_⟩
  have hlegal := hordered.legal 1
  rw [hs] at hlegal
  cases hlegal

end Bmv2
