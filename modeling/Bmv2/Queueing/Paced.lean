import Bmv2.Queueing.Lanes

/-! Both rate-limited queues move through the steps of the lanes, so that nothing is lost or
doubled, nothing leaves early and the pace of every logical queue is kept. -/
namespace Bmv2
open PriorityQueue

variable {T : Type} {pq : PQ (QE T) QE.send}

namespace QueueingLogicRL

variable {s s' : QueueingLogicRL pq}

/-- The lanes of a queue with one priority. -/
def view (s : QueueingLogicRL pq) : Lanes pq where
  info q p := if p = 0 then s.queuesInfo[q]?.getD default else default
  heap w p := if p = 0 then s.workersInfo[w]?.getD pq.empty else pq.empty

/-- What a call adds to the traffic. -/
def event (s : QueueingLogicRL pq) : Op T → QueueReply T → Option (QueueEvent T)
  | .push q item now, .pushed true => some (.accepted
    ⟨item, q, 0, (s.view.info q 0).getNextTp now, (s.view.info q 0).pktDelayTicks⟩)
  | .pop w now, .popped q p item => (pq.top (s.view.heap w p)).map fun qe =>
    .delivered ⟨w, p, ⟨item, q, qe.send⟩, now⟩
  | _, _ => none

/-- A call together with the traffic so far. -/
def observed (s : QueueingLogicRL pq × Traffic T) (op : Op T) :
    Option (QueueReply T × (QueueingLogicRL pq × Traffic T)) :=
  (s.1.step op).map fun p => (p.1, (p.2, s.2.record (s.1.event op p.1)))

theorem view_info_of_some {q : ℕ} {qInfo : QueueInfo} (h : s.queuesInfo[q]? = some qInfo) :
    s.view.info q 0 = qInfo := by
  simp [view, h]

theorem view_heap_of_some {w : ℕ} {queue : pq.Heap} (h : s.workersInfo[w]? = some queue) :
    s.view.heap w 0 = queue := by
  simp [view, h]

theorem view_info_set {q : ℕ} {qInfo qInfo' : QueueInfo} (h : s.queuesInfo[q]? = some qInfo)
    (hs : s'.queuesInfo = s.queuesInfo.set q qInfo') (q' p' : ℕ) :
    s'.view.info q' p' = if q' = q ∧ p' = 0 then qInfo' else s.view.info q' p' := by
  have hlt := (List.getElem?_eq_some_iff.mp h).1
  simp only [view, hs, List.getElem?_set, hlt, if_true]
  by_cases hp : p' = 0
  · by_cases hq : q' = q
    · simp [hp, hq]
    · simp [hp, hq, Ne.symm hq]
  · simp [hp]

theorem view_heap_set {w : ℕ} {queue queue' : pq.Heap} (h : s.workersInfo[w]? = some queue)
    (hs : s'.workersInfo = s.workersInfo.set w queue') (w' p' : ℕ) :
    s'.view.heap w' p' = if w' = w ∧ p' = 0 then queue' else s.view.heap w' p' := by
  have hlt := (List.getElem?_eq_some_iff.mp h).1
  simp only [view, hs, List.getElem?_set, hlt, if_true]
  by_cases hp : p' = 0
  · by_cases hw : w' = w
    · simp [hp, hw]
    · simp [hp, hw, Ne.symm hw]
  · simp [hp]

theorem pushFront_lanes {q now : ℕ} {item : T} {r : QueueReply T}
    (hs : s.pushFront q item now = (r, s')) :
    s'.mapToWorker = s.mapToWorker ∧
      Lanes.Step s.mapToWorker s.view (s.event (.push q item now) r) s'.view := by
  unfold pushFront at hs
  split at hs
  · rename_i qInfo queue hq hw
    split_ifs at hs with hfull
    · cases hs
      exact ⟨rfl, Lanes.Step.stutter⟩
    · cases hs
      refine ⟨rfl, ?_⟩
      have hlt : (s.view.info q 0).size < (s.view.info q 0).capacity := by
        rw [view_info_of_some hq]
        omega
      refine Lanes.Step.push q 0 item now hlt ?_ ?_
      · rw [view_info_of_some hq]
        exact view_info_set hq rfl
      · rw [view_info_of_some hq, view_heap_of_some hw]
        exact view_heap_set hw rfl
  · cases hs
    exact ⟨rfl, Lanes.Step.stutter⟩

theorem pushFront_rejects {q now : ℕ} {item : T} {b : Bool}
    (hs : s.pushFront q item now = (.pushed b, s')) :
    b = false ↔ (s.view.info q 0).capacity ≤ (s.view.info q 0).size := by
  unfold pushFront at hs
  split at hs
  · rename_i qInfo queue hq hw
    rw [view_info_of_some hq]
    split_ifs at hs with hfull
    · cases hs
      simpa using hfull
    · cases hs
      simpa using hfull
  · cases hs

theorem popBack_top {w now q p : ℕ} {item : T}
    (hs : s.popBack w now = (.popped q p item, s')) :
    ∃ qe, pq.top (s.view.heap w p) = some qe ∧ qe.e = item ∧ qe.queueId = q ∧
      qe.send ≤ now := by
  unfold popBack at hs
  split at hs
  · cases hs
  · rename_i queue hw
    split at hs
    · cases hs
    · rename_i qe htop
      rw [← view_heap_of_some hw] at htop
      split_ifs at hs with hsend
      · cases hq : s.queuesInfo[qe.queueId]? with
        | none =>
          simp only [hq] at hs
          cases hs
        | some qInfo =>
          simp only [hq] at hs
          cases hs
          exact ⟨qe, htop, rfl, rfl, hsend⟩
      · cases hs

/-- A held element has a counter: the queue that it names exists. -/
theorem queueId_valid {H : Traffic T} (h : LaneInv s.mapToWorker s.view H) {w : ℕ} {qe : QE T}
    (hmem : qe ∈ pq.contents (s.view.heap w 0)) :
    ∃ qInfo, s.queuesInfo[qe.queueId]? = some qInfo := by
  have hpos : 0 < (s.view.info qe.queueId 0).size := by
    rw [h.size_eq, Lanes.held, h.worker_eq hmem]
    exact Multiset.countP_pos.mpr ⟨qe, hmem, rfl⟩
  cases hq : s.queuesInfo[qe.queueId]? with
  | some qInfo => exact ⟨qInfo, rfl⟩
  | none =>
    simp only [view, hq, if_true, Option.getD_none] at hpos
    exact absurd hpos (lt_irrefl 0)

theorem popBack_lanes {H : Traffic T} (h : LaneInv s.mapToWorker s.view H) {w now : ℕ}
    {r : QueueReply T} (hs : s.popBack w now = (r, s')) :
    s'.mapToWorker = s.mapToWorker ∧
      Lanes.Step s.mapToWorker s.view (s.event (.pop w now) r) s'.view := by
  unfold popBack at hs
  split at hs
  · cases hs
    exact ⟨rfl, Lanes.Step.stutter⟩
  · rename_i queue hw
    split at hs
    · cases hs
      exact ⟨rfl, Lanes.Step.stutter⟩
    · rename_i qe htop
      rw [← view_heap_of_some hw] at htop
      obtain ⟨qInfo, hq⟩ := queueId_valid h (pq.top_mem htop)
      split_ifs at hs with hsend
      · simp only [hq] at hs
        cases hs
        refine ⟨rfl, ?_⟩
        simp only [event, htop, Option.map_some]
        refine Lanes.Step.pop w 0 now qe htop hsend ?_ ?_
        · intro q' p'
          rw [view_info_set hq rfl]
          split_ifs with hc
          · rw [hc.1, hc.2, view_info_of_some hq]
          · rfl
        · rw [view_heap_of_some hw]
          exact view_heap_set hw rfl
      · cases hs
        exact ⟨rfl, Lanes.Step.stutter⟩

theorem updateInfo_lanes {q : ℕ} {fn : QueueInfo → QueueInfo} {r : QueueReply T}
    (hs : s.updateInfo q fn = (r, s'))
    (hfn : ∀ qInfo, (fn qInfo).size = qInfo.size ∧ (fn qInfo).lastSent = qInfo.lastSent) :
    s'.mapToWorker = s.mapToWorker ∧ Lanes.Step s.mapToWorker s.view none s'.view := by
  unfold updateInfo at hs
  split at hs
  · rename_i qInfo _ hq _
    cases hs
    refine ⟨rfl, .config rfl fun q' p' => ?_⟩
    rw [view_info_set hq rfl]
    split_ifs with hc
    · rw [hc.1, hc.2, view_info_of_some hq]
      exact hfn qInfo
    · exact ⟨rfl, rfl⟩
  · cases hs
    exact ⟨rfl, Lanes.Step.stutter⟩

theorem step_lanes {H : Traffic T} (h : LaneInv s.mapToWorker s.view H) {op : Op T}
    {r : QueueReply T} (hs : s.step op = some (r, s')) :
    s'.mapToWorker = s.mapToWorker ∧ Lanes.Step s.mapToWorker s.view (s.event op r) s'.view := by
  cases op with
  | push q item now => exact pushFront_lanes (Option.some.inj hs)
  | pop w now => exact popBack_lanes h (Option.some.inj hs)
  | setCapacity q c =>
    exact updateInfo_lanes (Option.some.inj hs) fun _ => ⟨rfl, rfl⟩
  | setRate q pps delay =>
    exact updateInfo_lanes (Option.some.inj hs) fun _ => ⟨rfl, rfl⟩

/-- The state and the traffic after some calls, at any clock readings. -/
def Run (init s : QueueingLogicRL pq) (H : Traffic T) : Prop :=
  Transition.Reach observed (fun _ _ => True) (init, {}) (s, H)

theorem run_lanes {nbQueues nbWorkers capacity now : ℕ} {mapToWorker : ℕ → ℕ} {H : Traffic T}
    (hrun : Run (create pq nbQueues nbWorkers capacity mapToWorker now) s H) :
    s.mapToWorker = mapToWorker ∧ LaneInv mapToWorker s.view H := by
  refine hrun.invariant
    (fun s => s.1.mapToWorker = mapToWorker ∧ LaneInv mapToWorker s.1.view s.2) ?_ ?_
  · refine ⟨rfl, LaneInv.empty (fun q p => ?_) fun w p => ?_⟩
    · simp only [view, create, List.getElem?_replicate]
      split_ifs <;> rfl
    · simp only [view, create, List.getElem?_replicate]
      split_ifs <;> rfl
  · rintro ⟨s, H⟩ op r ⟨s', H'⟩ ⟨rfl, hinv⟩ - hs
    obtain ⟨⟨r', t⟩, hstep, he⟩ := Option.map_eq_some_iff.mp hs
    cases he
    obtain ⟨hmap, hlane⟩ := step_lanes hinv hstep
    exact ⟨hmap, hinv.step hlane⟩

end QueueingLogicRL

namespace QueueingLogicPriRL

variable {s s' : QueueingLogicPriRL pq}

def view (s : QueueingLogicPriRL pq) : Lanes pq where
  info q p := (s.queuesInfo[q]?.bind fun qInfo => qInfo.pris[p]?).getD default
  heap w p := (s.workersInfo[w]?.bind fun wInfo => wInfo.queues[p]?).getD pq.empty

/-- What a call adds to the traffic. -/
def event (s : QueueingLogicPriRL pq) : Op T → QueueReply T → Option (QueueEvent T)
  | .push q p item now, .pushed true => some (.accepted
    ⟨item, q, p, (s.view.info q p).getNextTp now, (s.view.info q p).pktDelayTicks⟩)
  | .pop w now, .popped q p item => (pq.top (s.view.heap w p)).map fun qe =>
    .delivered ⟨w, p, ⟨item, q, qe.send⟩, now⟩
  | _, _ => none

/-- A call together with the traffic so far. -/
def observed (s : QueueingLogicPriRL pq × Traffic T) (op : Op T) :
    Option (QueueReply T × (QueueingLogicPriRL pq × Traffic T)) :=
  (s.1.step op).map fun p => (p.1, (p.2, s.2.record (s.1.event op p.1)))

theorem view_info_of_some {q p : ℕ} {qInfo : QueueInfoAll} {qInfoPri : QueueInfo}
    (h : s.queuesInfo[q]? = some qInfo) (hp : qInfo.pris[p]? = some qInfoPri) :
    s.view.info q p = qInfoPri := by
  simp [view, h, hp]

theorem view_heap_of_some {w p : ℕ} {wInfo : WorkerInfo pq} {queue : pq.Heap}
    (h : s.workersInfo[w]? = some wInfo) (hp : wInfo.queues[p]? = some queue) :
    s.view.heap w p = queue := by
  simp [view, h, hp]

theorem view_info_set {q p : ℕ} {qInfo qInfo' : QueueInfoAll} {qInfoPri qInfoPri' : QueueInfo}
    (h : s.queuesInfo[q]? = some qInfo) (hp : qInfo.pris[p]? = some qInfoPri)
    (hpris : qInfo'.pris = qInfo.pris.set p qInfoPri')
    (hs : s'.queuesInfo = s.queuesInfo.set q qInfo') (q' p' : ℕ) :
    s'.view.info q' p' = if q' = q ∧ p' = p then qInfoPri' else s.view.info q' p' := by
  have hlt := (List.getElem?_eq_some_iff.mp h).1
  have hplt := (List.getElem?_eq_some_iff.mp hp).1
  simp only [view, hs, List.getElem?_set, hlt, if_true]
  by_cases hq : q' = q
  · subst hq
    by_cases hpp : p' = p
    · subst hpp
      simp [hpris, hplt]
    · simp [hpris, hpp, Ne.symm hpp, h]
  · simp [hq, Ne.symm hq]

theorem view_heap_set {w p : ℕ} {wInfo wInfo' : WorkerInfo pq} {queue queue' : pq.Heap}
    (h : s.workersInfo[w]? = some wInfo) (hp : wInfo.queues[p]? = some queue)
    (hqueues : wInfo'.queues = wInfo.queues.set p queue')
    (hs : s'.workersInfo = s.workersInfo.set w wInfo') (w' p' : ℕ) :
    s'.view.heap w' p' = if w' = w ∧ p' = p then queue' else s.view.heap w' p' := by
  have hlt := (List.getElem?_eq_some_iff.mp h).1
  have hplt := (List.getElem?_eq_some_iff.mp hp).1
  simp only [view, hs, List.getElem?_set, hlt, if_true]
  by_cases hw : w' = w
  · subst hw
    by_cases hpp : p' = p
    · subst hpp
      simp [hqueues, hplt]
    · simp [hqueues, hpp, Ne.symm hpp, h]
  · simp [hw, Ne.symm hw]

/-- An accepted push, or a call that changes nothing. -/
theorem pushFront_cases {q p now : ℕ} {item : T} {r : QueueReply T}
    (hs : s.pushFront q p item now = some (r, s')) :
    (s' = s ∧ r ≠ .pushed true) ∨ ∃ qInfo wInfo qInfoPri queue, r = .pushed true ∧
      s.queuesInfo[q]? = some qInfo ∧ s.workersInfo[s.mapToWorker q]? = some wInfo ∧
      qInfo.pris[p]? = some qInfoPri ∧ wInfo.queues[p]? = some queue ∧
      qInfoPri.size < qInfoPri.capacity ∧
      s' = { s with
        queuesInfo := s.queuesInfo.set q
          { pris := qInfo.pris.set p (qInfoPri.pushed now), size := qInfo.size + 1 }
        workersInfo := s.workersInfo.set (s.mapToWorker q)
          { size := wInfo.size + 1
            queues := wInfo.queues.set p
              (pq.push queue ⟨item, q, qInfoPri.getNextTp now⟩) } } := by
  unfold pushFront at hs
  split at hs
  · rename_i qInfo wInfo hq hw
    split at hs
    · cases hs
      exact .inl ⟨rfl, by simp⟩
    · rename_i qInfoPri hp
      split_ifs at hs with hfull
      · cases hs
        exact .inl ⟨rfl, by simp⟩
      · obtain ⟨queue, hqueue, hs⟩ := Option.bind_eq_some_iff.mp hs
        cases hs
        exact .inr ⟨qInfo, wInfo, qInfoPri, queue, rfl, hq, hw, hp, hqueue, by omega, rfl⟩
  · cases hs
    exact .inl ⟨rfl, by simp⟩

theorem pushFront_rejects {q p now : ℕ} {item : T} {b : Bool}
    (hs : s.pushFront q p item now = some (.pushed b, s')) :
    b = false ↔ (s.view.info q p).capacity ≤ (s.view.info q p).size := by
  unfold pushFront at hs
  split at hs
  · rename_i qInfo wInfo hq hw
    split at hs
    · cases hs
    · rename_i qInfoPri hp
      rw [view_info_of_some hq hp]
      split_ifs at hs with hfull
      · cases hs
        simpa using hfull
      · obtain ⟨queue, -, hs⟩ := Option.bind_eq_some_iff.mp hs
        cases hs
        simpa using hfull
  · cases hs

/-- The scan stops at the first priority whose top may leave. -/
theorem findEligible_spec {wInfo : WorkerInfo pq} {now pri n p : ℕ} {queue : pq.Heap} {qe : QE T}
    (h : findEligible wInfo now pri n = some (some (p, queue, qe))) :
    wInfo.queues[p]? = some queue ∧ pq.top queue = some qe ∧ qe.send ≤ now ∧
      ∀ p', pri ≤ p' → p' < p → ∃ queue', wInfo.queues[p']? = some queue' ∧
        ∀ qe', pq.top queue' = some qe' → now < qe'.send := by
  induction n generalizing pri with
  | zero => simp [findEligible] at h
  | succ n ih =>
    unfold findEligible at h
    obtain ⟨queue', hqueue', h⟩ := Option.bind_eq_some_iff.mp h
    split at h
    · rename_i htop
      obtain ⟨h1, h2, h3, h4⟩ := ih h
      refine ⟨h1, h2, h3, fun p' hle hlt => ?_⟩
      rcases Nat.eq_or_lt_of_le hle with rfl | hlt'
      · refine ⟨queue', hqueue', fun qe' hqe' => ?_⟩
        rw [htop] at hqe'
        cases hqe'
      · exact h4 p' hlt' hlt
    · rename_i qe₀ htop
      split_ifs at h with hsend
      · cases h
        exact ⟨hqueue', htop, hsend, fun p' hle hlt => absurd hle (by omega)⟩
      · obtain ⟨h1, h2, h3, h4⟩ := ih h
        refine ⟨h1, h2, h3, fun p' hle hlt => ?_⟩
        rcases Nat.eq_or_lt_of_le hle with rfl | hlt'
        · refine ⟨queue', hqueue', fun qe' hqe' => ?_⟩
          rw [htop] at hqe'
          cases hqe'
          exact not_le.mp hsend
        · exact h4 p' hlt' hlt

/-- A scan that finds nothing has seen every top. -/
theorem findEligible_none {wInfo : WorkerInfo pq} {now pri n : ℕ}
    (h : findEligible wInfo now pri n = some none) (p : ℕ) (hle : pri ≤ p) (hlt : p < pri + n) :
    ∃ queue, wInfo.queues[p]? = some queue ∧ ∀ qe, pq.top queue = some qe → now < qe.send := by
  induction n generalizing pri with
  | zero => omega
  | succ n ih =>
    unfold findEligible at h
    obtain ⟨queue, hqueue, h⟩ := Option.bind_eq_some_iff.mp h
    split at h
    · rename_i htop
      rcases Nat.eq_or_lt_of_le hle with rfl | hlt'
      · refine ⟨queue, hqueue, fun qe hqe => ?_⟩
        rw [htop] at hqe
        cases hqe
      · exact ih h hlt' (by omega)
    · rename_i qe₀ htop
      split_ifs at h with hsend
      · cases h
      · rcases Nat.eq_or_lt_of_le hle with rfl | hlt'
        · refine ⟨queue, hqueue, fun qe hqe => ?_⟩
          rw [htop] at hqe
          cases hqe
          exact not_le.mp hsend
        · exact ih h hlt' (by omega)

theorem findEligible_lt {wInfo : WorkerInfo pq} {now pri n p : ℕ} {queue : pq.Heap} {qe : QE T}
    (h : findEligible wInfo now pri n = some (some (p, queue, qe))) : p < pri + n := by
  induction n generalizing pri with
  | zero => simp [findEligible] at h
  | succ n ih =>
    unfold findEligible at h
    obtain ⟨queue', -, h⟩ := Option.bind_eq_some_iff.mp h
    split at h
    · have := ih h
      omega
    · split_ifs at h
      · cases h
        omega
      · have := ih h
        omega

/-- A pop that returns takes the top of one heap; any other leaves a valid queue as it is. -/
theorem popBack_cases {H : Traffic T} (h : LaneInv s.mapToWorker s.view H) {w now : ℕ}
    {r : QueueReply T} (hs : s.popBack w now = some (r, s')) :
    (s' = s ∧ (∀ q p item, r ≠ .popped q p item) ∧ ∀ wInfo, s.workersInfo[w]? = some wInfo →
      wInfo.size = 0 ∨ findEligible wInfo now 0 s.nbPriorities = some none) ∨
        ∃ wInfo p queue qe qInfo qInfoPri,
      r = .popped qe.queueId p qe.e ∧ s.workersInfo[w]? = some wInfo ∧
      findEligible wInfo now 0 s.nbPriorities = some (some (p, queue, qe)) ∧
      s.queuesInfo[qe.queueId]? = some qInfo ∧ qInfo.pris[p]? = some qInfoPri ∧
      s' = { s with
        queuesInfo := s.queuesInfo.set qe.queueId
          { pris := qInfo.pris.set p qInfoPri.popped, size := qInfo.size - 1 }
        workersInfo := s.workersInfo.set w
          { wInfo with queues := wInfo.queues.set p (pq.pop queue) } } := by
  unfold popBack at hs
  cases hw : s.workersInfo[w]? with
  | none =>
    simp only [hw] at hs
    cases hs
    exact .inl ⟨rfl, by simp, by simp⟩
  | some wInfo =>
    simp only [hw] at hs
    split_ifs at hs with hsize
    · cases hs
      exact .inl ⟨rfl, by simp, fun i hi => .inl (Option.some.inj hi ▸ hsize)⟩
    · obtain ⟨found, hfound, hs⟩ := Option.bind_eq_some_iff.mp hs
      split at hs
      · cases hs
        exact .inl ⟨rfl, by simp, fun i hi => .inr (Option.some.inj hi ▸ hfound)⟩
      · rename_i p queue qe
        obtain ⟨hqueue, htop, -⟩ := findEligible_spec hfound
        rw [← view_heap_of_some hw hqueue] at htop
        -- the counter of the element's queue is positive, so that the queue exists
        have hpos : 0 < (s.view.info qe.queueId p).size := by
          have hmem := pq.top_mem htop
          rw [h.size_eq, Lanes.held, h.worker_eq hmem]
          exact Multiset.countP_pos.mpr ⟨qe, hmem, rfl⟩
        cases hq : s.queuesInfo[qe.queueId]? with
        | none =>
          simp only [view, hq, Option.bind_none, Option.getD_none] at hpos
          exact absurd hpos (lt_irrefl 0)
        | some qInfo =>
          cases hp : qInfo.pris[p]? with
          | none =>
            simp only [view, hq, Option.bind_some, hp, Option.getD_none] at hpos
            exact absurd hpos (lt_irrefl 0)
          | some qInfoPri =>
            simp only [hq, hp] at hs
            cases hs
            exact .inr ⟨wInfo, p, queue, qe, qInfo, qInfoPri, rfl, rfl, hfound, hq, hp, rfl⟩

/-- A pop takes from the first priority that has an eligible element. -/
theorem popBack_top {H : Traffic T} (h : LaneInv s.mapToWorker s.view H) {w now q p : ℕ}
    {item : T} (hs : s.popBack w now = some (.popped q p item, s')) :
    ∃ qe, pq.top (s.view.heap w p) = some qe ∧ qe.e = item ∧ qe.queueId = q ∧ qe.send ≤ now ∧
      ∀ p' < p, ∀ qe' ∈ pq.contents (s.view.heap w p'), now < qe'.send := by
  obtain ⟨-, hr, -⟩ | ⟨wInfo, p₁, queue, qe, qInfo, qInfoPri, hr, hw, hfound, -⟩ :=
    popBack_cases h hs
  · exact absurd rfl (hr q p item)
  · cases hr
    obtain ⟨hqueue, htop, hsend, hlow⟩ := findEligible_spec hfound
    rw [← view_heap_of_some hw hqueue] at htop
    refine ⟨qe, htop, rfl, rfl, hsend, fun p' hp' qe' hqe' => ?_⟩
    obtain ⟨queue', hqueue', hnone⟩ := hlow p' (Nat.zero_le _) hp'
    rw [view_heap_of_some hw hqueue'] at hqe'
    cases ht : pq.top queue' with
    | none =>
      rw [pq.contents_of_top_none queue' ht] at hqe'
      exact absurd hqe' (Multiset.notMem_zero qe')
    | some qe₀ => exact (hnone qe₀ ht).trans_le (pq.top_le queue' qe₀ ht qe' hqe')

theorem pushFront_lanes {q p now : ℕ} {item : T} {r : QueueReply T}
    (hs : s.pushFront q p item now = some (r, s')) :
    s'.mapToWorker = s.mapToWorker ∧
      Lanes.Step s.mapToWorker s.view (s.event (.push q p item now) r) s'.view := by
  obtain ⟨rfl, hr⟩ | ⟨qInfo, wInfo, qInfoPri, queue, rfl, hq, hw, hp, hqueue, hlt, rfl⟩ :=
    pushFront_cases hs
  · refine ⟨rfl, ?_⟩
    have hev : s'.event (.push q p item now) r = none := by
      unfold event
      split <;> simp_all
    rw [hev]
    exact Lanes.Step.stutter
  · refine ⟨rfl, ?_⟩
    rw [← view_info_of_some hq hp] at hlt
    refine Lanes.Step.push q p item now hlt ?_ ?_
    · rw [view_info_of_some hq hp]
      exact view_info_set hq hp rfl rfl
    · rw [view_info_of_some hq hp, view_heap_of_some hw hqueue]
      exact view_heap_set hw hqueue rfl rfl

theorem popBack_lanes {H : Traffic T} (h : LaneInv s.mapToWorker s.view H) {w now : ℕ}
    {r : QueueReply T} (hs : s.popBack w now = some (r, s')) :
    s'.mapToWorker = s.mapToWorker ∧
      Lanes.Step s.mapToWorker s.view (s.event (.pop w now) r) s'.view := by
  obtain ⟨rfl, hr, -⟩ | ⟨wInfo, p, queue, qe, qInfo, qInfoPri, rfl, hw, hfound, hq, hp, rfl⟩ :=
    popBack_cases h hs
  · refine ⟨rfl, ?_⟩
    have hev : s'.event (.pop w now) r = none := by
      unfold event
      split <;> simp_all
    rw [hev]
    exact Lanes.Step.stutter
  · refine ⟨rfl, ?_⟩
    obtain ⟨hqueue, htop, hsend, -⟩ := findEligible_spec hfound
    rw [← view_heap_of_some hw hqueue] at htop
    simp only [event, htop, Option.map_some]
    refine Lanes.Step.pop w p now qe htop hsend ?_ ?_
    · intro q' p'
      rw [view_info_set hq hp rfl rfl]
      split_ifs with hc
      · rw [hc.1, hc.2, view_info_of_some hq hp]
      · rfl
    · rw [view_heap_of_some hw hqueue]
      exact view_heap_set hw hqueue rfl rfl

/-- A call that only rewrites capacities and rates. -/
theorem forEachQ_lanes {q : ℕ} {fn : QueueInfo → QueueInfo} {r : QueueReply T}
    (hs : s.forEachQ q fn = (r, s'))
    (hfn : ∀ qInfo, (fn qInfo).size = qInfo.size ∧ (fn qInfo).lastSent = qInfo.lastSent) :
    s'.mapToWorker = s.mapToWorker ∧ Lanes.Step s.mapToWorker s.view none s'.view := by
  unfold forEachQ at hs
  split at hs
  · rename_i qInfo _ hq _
    have hlt := (List.getElem?_eq_some_iff.mp hq).1
    cases hs
    refine ⟨rfl, .config rfl fun q' p' => ?_⟩
    simp only [view, List.getElem?_set, hlt, if_true]
    split_ifs with hqq
    · subst hqq
      simp only [hq, Option.bind_some, List.getElem?_map]
      cases qInfo.pris[p']? with
      | none => exact ⟨rfl, rfl⟩
      | some qInfoPri => exact hfn qInfoPri
    · exact ⟨rfl, rfl⟩
  · cases hs
    exact ⟨rfl, Lanes.Step.stutter⟩

theorem forOneQ_lanes {q p : ℕ} {fn : QueueInfo → QueueInfo} {r : QueueReply T}
    (hs : s.forOneQ q p fn = (r, s'))
    (hfn : ∀ qInfo, (fn qInfo).size = qInfo.size ∧ (fn qInfo).lastSent = qInfo.lastSent) :
    s'.mapToWorker = s.mapToWorker ∧ Lanes.Step s.mapToWorker s.view none s'.view := by
  unfold forOneQ at hs
  split at hs
  · rename_i qInfo _ hq _
    split at hs
    · cases hs
      exact ⟨rfl, Lanes.Step.stutter⟩
    · rename_i qInfoPri hp
      cases hs
      refine ⟨rfl, .config rfl fun q' p' => ?_⟩
      rw [view_info_set hq hp rfl rfl]
      split_ifs with hc
      · rw [hc.1, hc.2, view_info_of_some hq hp]
        exact hfn qInfoPri
      · exact ⟨rfl, rfl⟩
  · cases hs
    exact ⟨rfl, Lanes.Step.stutter⟩

theorem step_lanes {H : Traffic T} (h : LaneInv s.mapToWorker s.view H) {op : Op T}
    {r : QueueReply T} (hs : s.step op = some (r, s')) :
    s'.mapToWorker = s.mapToWorker ∧ Lanes.Step s.mapToWorker s.view (s.event op r) s'.view := by
  cases op with
  | push q p item now => exact pushFront_lanes hs
  | pop w now => exact popBack_lanes h hs
  | setCapacity q c => exact forEachQ_lanes (Option.some.inj hs) fun _ => ⟨rfl, rfl⟩
  | setCapacityPri q p c => exact forOneQ_lanes (Option.some.inj hs) fun _ => ⟨rfl, rfl⟩
  | setRate q pps delay => exact forEachQ_lanes (Option.some.inj hs) fun _ => ⟨rfl, rfl⟩
  | setRatePri q p pps delay => exact forOneQ_lanes (Option.some.inj hs) fun _ => ⟨rfl, rfl⟩

/-- The state and the traffic after some calls, at any clock readings. -/
def Run (init s : QueueingLogicPriRL pq) (H : Traffic T) : Prop :=
  Transition.Reach observed (fun _ _ => True) (init, {}) (s, H)

theorem run_lanes {nbQueues nbWorkers capacity nbPriorities now : ℕ} {mapToWorker : ℕ → ℕ}
    {H : Traffic T}
    (hrun : Run (create pq nbQueues nbWorkers capacity mapToWorker nbPriorities now) s H) :
    s.mapToWorker = mapToWorker ∧ LaneInv mapToWorker s.view H := by
  refine hrun.invariant
    (fun s => s.1.mapToWorker = mapToWorker ∧ LaneInv mapToWorker s.1.view s.2) ?_ ?_
  · refine ⟨rfl, LaneInv.empty (fun q p => ?_) fun w p => ?_⟩
    · simp only [view, create, List.getElem?_replicate]
      split_ifs with hq
      · simp only [Option.bind_some, List.getElem?_replicate]
        split_ifs <;> rfl
      · rfl
    · simp only [view, create, List.getElem?_replicate]
      split_ifs with hw
      · simp only [Option.bind_some, List.getElem?_replicate]
        split_ifs <;> rfl
      · rfl
  · rintro ⟨s, H⟩ op r ⟨s', H'⟩ ⟨rfl, hinv⟩ - hs
    obtain ⟨⟨r', t⟩, hstep, he⟩ := Option.map_eq_some_iff.mp hs
    cases he
    obtain ⟨hmap, hlane⟩ := step_lanes hinv hstep
    exact ⟨hmap, hinv.step hlane⟩

end QueueingLogicPriRL

/-- What went in and came out of a set of lanes. -/
structure Orderly (mapToWorker : ℕ → ℕ) (A : Lanes pq) (H : Traffic T) : Prop where
  /-- What a worker got out at a priority, with what it still holds, is what went in for it. -/
  conserved : ∀ w p, (((H.acceptedFor mapToWorker w p).map Accepted.qe : List (QE T)) :
    Multiset (QE T)) = ((H.deliveredTo w p).map Delivered.qe : List (QE T)) +
      pq.contents (A.heap w p)
  /-- Every element came out at the worker of its queue. -/
  worker : ∀ d ∈ H.delivered, mapToWorker d.qe.queueId = d.worker
  /-- No element came out before its send time. -/
  eligible : ∀ d ∈ H.delivered, d.qe.send ≤ d.now
  /-- The send times of a logical queue keep the distance then in force. -/
  paced : ∀ q p, (H.acceptedIn q p).IsChain fun a b => a.send + b.delay ≤ b.send

theorem LaneInv.orderly {mapToWorker : ℕ → ℕ} {A : Lanes pq} {H : Traffic T}
    (h : LaneInv mapToWorker A H) : Orderly mapToWorker A H where
  conserved := h.conserved
  worker _ hd := h.delivered_worker hd
  eligible := h.sent
  paced := h.paced

/-- Both rate-limited queues, along every run and at any clock readings: the traffic is orderly,
a push is rejected exactly when its logical queue holds its capacity, and a pop takes an
eligible element, with several priorities one of the first priority that has one. -/
theorem rate_limited_queueing (pq : PQ (QE T) QE.send) (nbQueues nbWorkers capacity : ℕ)
    (mapToWorker : ℕ → ℕ) (start : ℕ) :
    (∀ s H, QueueingLogicRL.Run
        (.create pq nbQueues nbWorkers capacity mapToWorker start) s H →
      Orderly mapToWorker s.view H ∧
      (∀ q item now b s', s.pushFront q item now = (.pushed b, s') →
        (b = false ↔ (s.view.info q 0).capacity ≤ s.view.held mapToWorker q 0)) ∧
      ∀ w now q p item s', s.popBack w now = (.popped q p item, s') →
        ∃ qe, pq.top (s.view.heap w p) = some qe ∧ qe.e = item ∧ qe.queueId = q ∧
          qe.send ≤ now) ∧
    ∀ nbPriorities s H, QueueingLogicPriRL.Run
        (.create pq nbQueues nbWorkers capacity mapToWorker nbPriorities start) s H →
      Orderly mapToWorker s.view H ∧
      (∀ q p item now b s', s.pushFront q p item now = some (.pushed b, s') →
        (b = false ↔ (s.view.info q p).capacity ≤ s.view.held mapToWorker q p)) ∧
      ∀ w now q p item s', s.popBack w now = some (.popped q p item, s') →
        ∃ qe, pq.top (s.view.heap w p) = some qe ∧ qe.e = item ∧ qe.queueId = q ∧
          qe.send ≤ now ∧ ∀ p' < p, ∀ qe' ∈ pq.contents (s.view.heap w p'), now < qe'.send := by
  constructor
  · intro s H hrun
    obtain ⟨-, hinv⟩ := QueueingLogicRL.run_lanes hrun
    refine ⟨hinv.orderly, fun q item now b s' hs => ?_, fun w now q p item s' hs => ?_⟩
    · rw [← hinv.size_eq]
      exact QueueingLogicRL.pushFront_rejects hs
    · exact QueueingLogicRL.popBack_top hs
  · intro nbPriorities s H hrun
    obtain ⟨rfl, hinv⟩ := QueueingLogicPriRL.run_lanes hrun
    refine ⟨hinv.orderly, fun q p item now b s' hs => ?_, fun w now q p item s' hs => ?_⟩
    · rw [← hinv.size_eq]
      exact QueueingLogicPriRL.pushFront_rejects hs
    · exact QueueingLogicPriRL.popBack_top hinv hs

/-- A rate-limited queue and a queue with two priorities: a second element has to wait for the
pace of its queue, and the element of the better priority leaves first. -/
theorem rate_limited_queueing_two_runs :
    (∃ s H, QueueingLogicRL.Run (.create (binaryHeap (QE ℕ) QE.send) 1 1 2 (fun _ => 0) 0) s H ∧
      (H.delivered.map fun d => (d.qe.e, d.qe.send, d.now)) = [(7, 6, 6), (8, 12, 13)] ∧
      Orderly (fun _ => 0) s.view H) ∧
    ∃ s H, QueueingLogicPriRL.Run
        (.create (binaryHeap (QE ℕ) QE.send) 2 1 4 (fun _ => 0) 2 0) s H ∧
      (H.delivered.map fun d => (d.qe.e, d.qe.queueId, d.priority)) = [(8, 1, 0), (7, 0, 1)] ∧
      Orderly (fun _ => 0) s.view H := by
  have hall := rate_limited_queueing (binaryHeap (QE ℕ) QE.send)
  constructor
  · have heval : ((Transition.runAll QueueingLogicRL.observed (fun _ _ => True)
        (.create (binaryHeap (QE ℕ) QE.send) 1 1 2 (fun _ => 0) 0, {})
        [.setRate 0 1 6, .push 0 7 3, .push 0 8 3, .push 0 9 3, .pop 0 4, .pop 0 6, .pop 0 13]).map
          fun s => s.2.delivered.map fun d => (d.qe.e, d.qe.send, d.now)) =
        some [(7, 6, 6), (8, 12, 13)] := by
      decide +kernel
    obtain ⟨⟨s, H⟩, hrun, hd⟩ := Option.map_eq_some_iff.mp heval
    have hreach := Transition.Reach.of_runAll hrun
    exact ⟨s, H, hreach, hd, ((hall 1 1 2 _ 0).1 s H hreach).1⟩
  · have heval : ((Transition.runAll QueueingLogicPriRL.observed (fun _ _ => True)
        (.create (binaryHeap (QE ℕ) QE.send) 2 1 4 (fun _ => 0) 2 0, {})
        [.push 0 1 7 3, .push 1 0 8 4, .pop 0 5, .pop 0 5]).map
          fun s => s.2.delivered.map fun d => (d.qe.e, d.qe.queueId, d.priority)) =
        some [(8, 1, 0), (7, 0, 1)] := by
      decide +kernel
    obtain ⟨⟨s, H⟩, hrun, hd⟩ := Option.map_eq_some_iff.mp heval
    have hreach := Transition.Reach.of_runAll hrun
    exact ⟨s, H, hreach, hd, ((hall 2 1 4 _ 0).2 2 s H hreach).1⟩

end Bmv2
