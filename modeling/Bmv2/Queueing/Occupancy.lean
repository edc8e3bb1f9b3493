import Bmv2.Queueing.Paced
import Mathlib.Algebra.BigOperators.Group.List.Basic
import Mathlib.Tactic.Ring

/-! The occupancy counters of `QueueingLogicPriRL`: of a worker, of a logical queue and of one of
its priorities. -/
namespace Bmv2
open PriorityQueue

variable {T : Type} {pq : PQ (QE T) QE.send}

namespace QueueingLogicPriRL

variable {s s' : QueueingLogicPriRL pq} {H : Traffic T}

/-- The elements in all the heaps of a worker. -/
def physical (wInfo : WorkerInfo pq) : ℕ := (wInfo.queues.map fun h => (pq.contents h).card).sum

/-- The three counters agree with what is held. -/
structure Accounted (s : QueueingLogicPriRL pq) : Prop where
  worker : ∀ (w : ℕ) (wInfo : WorkerInfo pq), s.workersInfo[w]? = some wInfo →
    wInfo.size = physical wInfo
  priority : ∀ q p n, s.sizePri q p = some n → n = s.view.held s.mapToWorker q p
  queue : ∀ q n, s.size q = some n →
    n = ((List.range s.nbPriorities).map fun p => (s.sizePri q p).getD 0).sum

/-- How the counters move along every run. -/
structure OccInv (s : QueueingLogicPriRL pq) (H : Traffic T) : Prop where
  lane : LaneInv s.mapToWorker s.view H
  pris : ∀ (q : ℕ) (qInfo : QueueInfoAll), s.queuesInfo[q]? = some qInfo →
    qInfo.pris.length = s.nbPriorities ∧ qInfo.size = (qInfo.pris.map QueueInfo.size).sum
  worker : ∀ (w : ℕ) (wInfo : WorkerInfo pq), s.workersInfo[w]? = some wInfo →
    wInfo.size = physical wInfo + H.delivered.countP fun d => d.worker = w
  workers : ∀ d ∈ H.delivered, d.worker < s.workersInfo.length

/-- A write to a list moves its sum by the difference. -/
theorem sum_map_set {α : Type} {l : List α} {i : ℕ} {a : α} (f : α → ℕ) (b : α)
    (h : l[i]? = some a) : ((l.set i b).map f).sum + f a = (l.map f).sum + f b := by
  induction l generalizing i with
  | nil => cases h
  | cons x l ih =>
    cases i with
    | zero =>
      obtain rfl : x = a := by simpa using h
      simp only [List.set_cons_zero, List.map_cons, List.sum_cons]
      omega
    | succ i =>
      have := @ih i (by simpa using h)
      simp only [List.set_cons_succ, List.map_cons, List.sum_cons]
      omega

theorem getElem?_set_iff {α : Type} {l : List α} {i j : ℕ} {a b : α} (h : l[i]? = some a) :
    (l.set i b)[j]? = if j = i then some b else l[j]? := by
  rw [List.getElem?_set, if_pos (List.getElem?_eq_some_iff.mp h).1]
  by_cases hij : i = j
  · rw [if_pos hij, if_pos hij.symm]
  · rw [if_neg hij, if_neg (Ne.symm hij)]

theorem OccInv.pushed (h : OccInv s H) {q p now : ℕ} {item : T} {qInfo : QueueInfoAll}
    {wInfo : WorkerInfo pq} {qInfoPri : QueueInfo} {queue : pq.Heap} {ev : QueueEvent T}
    (hq : s.queuesInfo[q]? = some qInfo) (hw : s.workersInfo[s.mapToWorker q]? = some wInfo)
    (hp : qInfo.pris[p]? = some qInfoPri) (hqueue : wInfo.queues[p]? = some queue)
    (hs' : s' = { s with
      queuesInfo := s.queuesInfo.set q
        { pris := qInfo.pris.set p (qInfoPri.pushed now), size := qInfo.size + 1 }
      workersInfo := s.workersInfo.set (s.mapToWorker q)
        { size := wInfo.size + 1
          queues := wInfo.queues.set p (pq.push queue ⟨item, q, qInfoPri.getNextTp now⟩) } })
    (hlane : LaneInv s'.mapToWorker s'.view (H.record (some ev)))
    (hev : (H.record (some ev)).delivered = H.delivered) : OccInv s' (H.record (some ev)) := by
  subst hs'
  refine ⟨hlane, fun j i hi => ?_, fun j i hi => ?_, fun d hd => ?_⟩
  · rw [getElem?_set_iff hq] at hi
    split_ifs at hi with hj
    · cases hi
      obtain ⟨hlen, hsum⟩ := h.pris q qInfo hq
      refine ⟨by rw [List.length_set, hlen], ?_⟩
      have := sum_map_set QueueInfo.size (qInfoPri.pushed now) hp
      simp only [QueueInfo.pushed] at this ⊢
      omega
    · exact h.pris j i hi
  · rw [hev]
    rw [getElem?_set_iff hw] at hi
    split_ifs at hi with hj
    · cases hi
      have hsize := h.worker _ wInfo hw
      have := sum_map_set (fun h => (pq.contents h).card)
        (pq.push queue ⟨item, q, qInfoPri.getNextTp now⟩) hqueue
      rw [pq.contents_push, Multiset.card_cons] at this
      subst hj
      simp only [physical] at hsize ⊢
      omega
    · exact h.worker j i hi
  · rw [hev] at hd
    rw [List.length_set]
    exact h.workers d hd

theorem OccInv.popped (h : OccInv s H) {w p now : ℕ} {qInfo : QueueInfoAll}
    {wInfo : WorkerInfo pq} {qInfoPri : QueueInfo} {queue : pq.Heap} {qe : QE T}
    (hw : s.workersInfo[w]? = some wInfo) (hqueue : wInfo.queues[p]? = some queue)
    (htop : pq.top queue = some qe) (hq : s.queuesInfo[qe.queueId]? = some qInfo)
    (hp : qInfo.pris[p]? = some qInfoPri)
    (hs' : s' = { s with
      queuesInfo := s.queuesInfo.set qe.queueId
        { pris := qInfo.pris.set p qInfoPri.popped, size := qInfo.size - 1 }
      workersInfo := s.workersInfo.set w
        { wInfo with queues := wInfo.queues.set p (pq.pop queue) } })
    (hlane : LaneInv s'.mapToWorker s'.view (H.record (some (.delivered ⟨w, p, qe, now⟩)))) :
    OccInv s' (H.record (some (.delivered ⟨w, p, qe, now⟩))) := by
  have hpos : 0 < qInfoPri.size := by
    rw [← view_heap_of_some hw hqueue] at htop
    have hmem := pq.top_mem htop
    rw [← view_info_of_some hq hp, h.lane.size_eq, Lanes.held, h.lane.worker_eq hmem]
    exact Multiset.countP_pos.mpr ⟨qe, hmem, rfl⟩
  subst hs'
  refine ⟨hlane, fun j i hi => ?_, fun j i hi => ?_, fun d hd => ?_⟩
  · rw [getElem?_set_iff hq] at hi
    split_ifs at hi with hj
    · cases hi
      obtain ⟨hlen, hsum⟩ := h.pris _ qInfo hq
      refine ⟨by rw [List.length_set, hlen], ?_⟩
      have := sum_map_set QueueInfo.size qInfoPri.popped hp
      simp only [QueueInfo.popped] at this ⊢
      omega
    · exact h.pris j i hi
  · rw [getElem?_set_iff hw] at hi
    simp only [Traffic.record, List.countP_append, List.countP_singleton, decide_eq_true_eq]
    split_ifs at hi with hj
    · cases hi
      have hsize := h.worker _ wInfo hw
      have := sum_map_set (fun h => (pq.contents h).card) (pq.pop queue) hqueue
      rw [pq.contents_of_top _ _ htop, Multiset.card_cons] at this
      subst hj
      simp only [physical, if_true] at hsize ⊢
      omega
    · rw [if_neg (Ne.symm hj)]
      exact h.worker j i hi
  · rw [List.length_set]
    obtain hd | hd := List.mem_append.mp hd
    · exact h.workers d hd
    · rw [List.mem_singleton.mp hd]
      exact (List.getElem?_eq_some_iff.mp hw).1

/-- Rewriting capacities and rates leaves the counters alone. -/
theorem OccInv.configured (h : OccInv s H) {q : ℕ} {qInfo : QueueInfoAll} {pris : List QueueInfo}
    (hq : s.queuesInfo[q]? = some qInfo)
    (hpris : pris.map QueueInfo.size = qInfo.pris.map QueueInfo.size)
    (hs' : s' = { s with queuesInfo := s.queuesInfo.set q { qInfo with pris } })
    (hlane : LaneInv s'.mapToWorker s'.view H) : OccInv s' H := by
  subst hs'
  refine ⟨hlane, fun j i hi => ?_, h.worker, h.workers⟩
  rw [getElem?_set_iff hq] at hi
  split_ifs at hi with hj
  · cases hi
    obtain ⟨hlen, hsum⟩ := h.pris q qInfo hq
    refine ⟨?_, hpris ▸ hsum⟩
    rw [← hlen, ← List.length_map (f := QueueInfo.size), hpris, List.length_map]
  · exact h.pris j i hi

theorem OccInv.forEachQ (h : OccInv s H) {q : ℕ} {fn : QueueInfo → QueueInfo} {r : QueueReply T}
    (hs : s.forEachQ q fn = (r, s')) (hfn : ∀ qInfo, (fn qInfo).size = qInfo.size)
    (hlane : LaneInv s'.mapToWorker s'.view H) : OccInv s' H := by
  unfold QueueingLogicPriRL.forEachQ at hs
  split at hs
  · rename_i qInfo _ hq _
    cases hs
    refine h.configured hq ?_ rfl hlane
    rw [List.map_map]
    exact List.map_congr_left fun i _ => hfn i
  · cases hs
    exact h

theorem OccInv.forOneQ (h : OccInv s H) {q p : ℕ} {fn : QueueInfo → QueueInfo}
    {r : QueueReply T} (hs : s.forOneQ q p fn = (r, s'))
    (hfn : ∀ qInfo, (fn qInfo).size = qInfo.size)
    (hlane : LaneInv s'.mapToWorker s'.view H) : OccInv s' H := by
  unfold QueueingLogicPriRL.forOneQ at hs
  split at hs
  · rename_i qInfo _ hq _
    split at hs
    · cases hs
      exact h
    · rename_i qInfoPri hp
      cases hs
      refine h.configured hq ?_ rfl hlane
      obtain ⟨hlt, rfl⟩ := List.getElem?_eq_some_iff.mp hp
      have hmap : p < (qInfo.pris.map QueueInfo.size).length := by rwa [List.length_map]
      have hset := List.set_getElem_self hmap
      rw [List.getElem_map] at hset
      rw [List.map_set, hfn]
      exact hset
  · cases hs
    exact h

theorem OccInv.step (h : OccInv s H) {op : Op T} {r : QueueReply T}
    (hs : s.step op = some (r, s')) : OccInv s' (H.record (s.event op r)) := by
  obtain ⟨hmap, hstep⟩ := step_lanes h.lane hs
  have hlane := h.lane.step hstep
  rw [← hmap] at hlane
  cases op with
  | push q p item now =>
    obtain ⟨rfl, hr⟩ | ⟨qInfo, wInfo, qInfoPri, queue, rfl, hq, hw, hp, hqueue, -, hs'⟩ :=
      pushFront_cases hs
    · have hev : s'.event (.push q p item now) r = none := by
        unfold event
        split <;> simp_all
      rw [hev]
      exact h
    · exact h.pushed hq hw hp hqueue hs' hlane rfl
  | pop w now =>
    obtain ⟨rfl, hr, -⟩ | ⟨wInfo, p, queue, qe, qInfo, qInfoPri, rfl, hw, hfound, hq, hp, hs'⟩ :=
      popBack_cases h.lane hs
    · have hev : s'.event (.pop w now) r = none := by
        unfold event
        split <;> simp_all
      rw [hev]
      exact h
    · obtain ⟨hqueue, htop, -⟩ := findEligible_spec hfound
      have hev : s.event (.pop w now) (.popped qe.queueId p qe.e) =
          some (.delivered ⟨w, p, qe, now⟩) := by
        simp only [event, view_heap_of_some hw hqueue, htop, Option.map_some]
      rw [hev] at hlane ⊢
      exact h.popped hw hqueue htop hq hp hs' hlane
  | setCapacity q c => exact h.forEachQ (Option.some.inj hs) (fun _ => rfl) hlane
  | setCapacityPri q p c => exact h.forOneQ (Option.some.inj hs) (fun _ => rfl) hlane
  | setRate q pps delay => exact h.forEachQ (Option.some.inj hs) (fun _ => rfl) hlane
  | setRatePri q p pps delay => exact h.forOneQ (Option.some.inj hs) (fun _ => rfl) hlane

/-- The counter of one priority is the number of its elements. -/
theorem OccInv.held_eq (h : OccInv s H) {q p : ℕ} {qInfo : QueueInfoAll} {qInfoPri : QueueInfo}
    (hq : s.queuesInfo[q]? = some qInfo) (hp : qInfo.pris[p]? = some qInfoPri) :
    s.view.held s.mapToWorker q p = qInfoPri.size := by
  rw [← h.lane.size_eq, view_info_of_some hq hp]

theorem sizePri_of_some {q p : ℕ} {qInfo : QueueInfoAll} {wInfo : WorkerInfo pq}
    (hq : s.queuesInfo[q]? = some qInfo) (hw : s.workersInfo[s.mapToWorker q]? = some wInfo)
    (hp : p < qInfo.pris.length) : s.sizePri q p = some qInfo.size := by
  simp [sizePri, hq, hw, hp]

/-- The sum of `size(queue_id, p)` counts the whole queue once for every priority. -/
theorem OccInv.sum_sizePri (h : OccInv s H) {q : ℕ} {qInfo : QueueInfoAll}
    {wInfo : WorkerInfo pq} (hq : s.queuesInfo[q]? = some qInfo)
    (hw : s.workersInfo[s.mapToWorker q]? = some wInfo) :
    ((List.range s.nbPriorities).map fun p => (s.sizePri q p).getD 0).sum =
      s.nbPriorities * qInfo.size := by
  have hconst : (List.range s.nbPriorities).map (fun p => (s.sizePri q p).getD 0) =
      List.replicate s.nbPriorities qInfo.size := by
    rw [List.eq_replicate_iff]
    refine ⟨by simp, fun n hn => ?_⟩
    obtain ⟨p, hp, rfl⟩ := List.mem_map.mp hn
    rw [List.mem_range, ← (h.pris q qInfo hq).1] at hp
    rw [sizePri_of_some hq hw hp]
    rfl
  rw [hconst, List.sum_replicate_nat]

/-- As long as nothing went in, all the counters of a queue are zero. -/
theorem OccInv.size_eq_zero (h : OccInv s H) (hd : H.delivered = []) (hacc : H.accepted = [])
    {q : ℕ} {qInfo : QueueInfoAll} (hq : s.queuesInfo[q]? = some qInfo) :
    qInfo.size = 0 ∧ ∀ i ∈ qInfo.pris, i.size = 0 := by
  have hzero : ∀ i ∈ qInfo.pris, i.size = 0 := by
    intro i hi
    obtain ⟨p, hp⟩ := List.mem_iff_getElem?.mp hi
    have hcons := h.lane.conserved (s.mapToWorker q) p
    simp only [Traffic.acceptedFor, Traffic.deliveredTo, hacc, hd, List.filter_nil,
      List.map_nil, Multiset.coe_nil, zero_add] at hcons
    rw [← h.held_eq hq hp, Lanes.held, ← hcons, Multiset.countP_zero]
  refine ⟨?_, hzero⟩
  rw [(h.pris q qInfo hq).2, List.sum_eq_zero]
  intro x hx
  obtain ⟨i, hi, rfl⟩ := List.mem_map.mp hx
  exact hzero i hi

/-- With at most one priority, or with nothing in the queue, the counter of a queue is that of
each of its priorities. -/
theorem OccInv.size_eq_pri (h : OccInv s H) (hd : H.delivered = [])
    (hempty : s.nbPriorities ≤ 1 ∨ H.accepted = []) {q p : ℕ} {qInfo : QueueInfoAll}
    {qInfoPri : QueueInfo} (hq : s.queuesInfo[q]? = some qInfo)
    (hp : qInfo.pris[p]? = some qInfoPri) : qInfo.size = qInfoPri.size := by
  obtain ⟨hlen, hsum⟩ := h.pris q qInfo hq
  rcases hempty with hle | hacc
  · have hplt := (List.getElem?_eq_some_iff.mp hp).1
    obtain ⟨x, hx⟩ := List.length_eq_one_iff.mp (show qInfo.pris.length = 1 by omega)
    obtain rfl : p = 0 := by omega
    rw [hx] at hp hsum
    cases hp
    simpa using hsum
  · obtain ⟨hzero, hpris⟩ := h.size_eq_zero hd hacc hq
    rw [hzero, hpris _ (List.mem_of_getElem? hp)]

theorem OccInv.accounted (h : OccInv s H) (hd : H.delivered = [])
    (hempty : s.nbPriorities ≤ 1 ∨ H.accepted = []) : s.Accounted := by
  constructor
  · intro w wInfo hw
    rw [h.worker w wInfo hw, hd]
    rfl
  · intro q p n hn
    unfold sizePri at hn
    split at hn
    · rename_i qInfo _ hq _
      obtain ⟨qInfoPri, hp, rfl⟩ := Option.map_eq_some_iff.mp hn
      rw [h.held_eq hq hp]
      exact h.size_eq_pri hd hempty hq hp
    · cases hn
  · intro q n hn
    unfold size at hn
    split at hn
    · rename_i qInfo wInfo hq hw
      cases hn
      rw [h.sum_sizePri hq hw]
      obtain ⟨hlen, hsum⟩ := h.pris q qInfo hq
      rcases hempty with hle | hacc
      · rcases Nat.lt_or_ge 0 s.nbPriorities with hpos | hzero
        · rw [show s.nbPriorities = 1 by omega, Nat.one_mul]
        · obtain hnil : qInfo.pris = [] := List.length_eq_zero_iff.mp (by omega)
          rw [hsum, hnil]
          simp
      · rw [(h.size_eq_zero hd hacc hq).1, Nat.mul_zero]
    · cases hn

/-- Something that came out is missing in the counter of its worker. -/
theorem OccInv.not_accounted_of_delivered (h : OccInv s H) {d : Delivered T}
    (hd : d ∈ H.delivered) : ¬ s.Accounted := by
  intro hacc
  have hw := List.getElem?_eq_getElem (h.workers d hd)
  have hsize := h.worker _ _ hw
  rw [hacc.worker _ _ hw] at hsize
  have hpos : 0 < H.delivered.countP fun d' => d'.worker = d.worker :=
    List.countP_pos_iff.mpr ⟨d, hd, by simp⟩
  omega

/-- With two priorities, a queue that holds something is counted twice. -/
theorem OccInv.not_accounted_of_size (h : OccInv s H) (hnb : 1 < s.nbPriorities) {q : ℕ}
    {qInfo : QueueInfoAll} {wInfo : WorkerInfo pq} (hq : s.queuesInfo[q]? = some qInfo)
    (hw : s.workersInfo[s.mapToWorker q]? = some wInfo) (hpos : 0 < qInfo.size) :
    ¬ s.Accounted := by
  intro hacc
  have hn := hacc.queue q qInfo.size (by simp [size, hq, hw])
  rw [h.sum_sizePri hq hw] at hn
  have := Nat.mul_le_mul_right qInfo.size hnb
  omega

/-- A call that takes nothing out and, with more than one priority, puts nothing in: a pop
finds no element that may leave, a push finds its queue full. -/
def Quiet (s : QueueingLogicPriRL pq) : Op T → Prop
  | .push q p _ _ => s.nbPriorities ≤ 1 ∨ s.workersInfo.length ≤ s.mapToWorker q ∨
    (s.view.info q p).capacity ≤ (s.view.info q p).size
  | .pop w now => ∀ p < s.nbPriorities, ∀ qe ∈ pq.contents (s.view.heap w p), now < qe.send
  | _ => True

theorem forEachQ_nbPriorities {q : ℕ} {fn : QueueInfo → QueueInfo} {r : QueueReply T}
    (hs : s.forEachQ q fn = (r, s')) : s'.nbPriorities = s.nbPriorities := by
  unfold forEachQ at hs
  split at hs <;> cases hs <;> rfl

theorem forOneQ_nbPriorities {q p : ℕ} {fn : QueueInfo → QueueInfo} {r : QueueReply T}
    (hs : s.forOneQ q p fn = (r, s')) : s'.nbPriorities = s.nbPriorities := by
  unfold forOneQ at hs
  split at hs
  · split at hs <;> cases hs <;> rfl
  · cases hs
    rfl

theorem step_nbPriorities {op : Op T} {r : QueueReply T} (h : LaneInv s.mapToWorker s.view H)
    (hs : s.step op = some (r, s')) : s'.nbPriorities = s.nbPriorities := by
  cases op with
  | push q p item now =>
    obtain ⟨rfl, -⟩ | ⟨_, _, _, _, -, -, -, -, -, -, rfl⟩ := pushFront_cases hs <;> rfl
  | pop w now =>
    obtain ⟨rfl, -⟩ | ⟨_, _, _, _, _, _, -, -, -, -, -, rfl⟩ := popBack_cases h hs <;> rfl
  | setCapacity q c => exact forEachQ_nbPriorities (Option.some.inj hs)
  | setCapacityPri q p c => exact forOneQ_nbPriorities (Option.some.inj hs)
  | setRate q pps delay => exact forEachQ_nbPriorities (Option.some.inj hs)
  | setRatePri q p pps delay => exact forOneQ_nbPriorities (Option.some.inj hs)

/-- A quiet call adds at most a push to the only priority. -/
theorem Quiet.record_eq (h : OccInv s H) {op : Op T} (hq : s.Quiet op) {r : QueueReply T}
    (hs : s.step op = some (r, s')) :
    (H.record (s.event op r)).delivered = H.delivered ∧
      (s.nbPriorities ≤ 1 ∨ (H.record (s.event op r)).accepted = H.accepted) := by
  cases op with
  | push q p item now =>
    obtain ⟨rfl, hr⟩ | ⟨qInfo, wInfo, qInfoPri, queue, rfl, hq', hw, hp, -, hlt, -⟩ :=
      pushFront_cases hs
    · have hev : s'.event (.push q p item now) r = none := by
        unfold event
        split <;> simp_all
      rw [hev]
      exact ⟨rfl, .inr rfl⟩
    · refine ⟨rfl, .inl ?_⟩
      rcases hq with hle | hworker | hfull
      · exact hle
      · have := (List.getElem?_eq_some_iff.mp hw).1
        omega
      · rw [view_info_of_some hq' hp] at hfull
        omega
  | pop w now =>
    obtain ⟨rfl, hr, -⟩ | ⟨wInfo, p, queue, qe, qInfo, qInfoPri, rfl, hw, hfound, -⟩ :=
      popBack_cases h.lane hs
    · have hev : s'.event (.pop w now) r = none := by
        unfold event
        split <;> simp_all
      rw [hev]
      exact ⟨rfl, .inr rfl⟩
    · obtain ⟨hqueue, htop, hsend, -⟩ := findEligible_spec hfound
      rw [← view_heap_of_some hw hqueue] at htop
      have := hq p (by simpa using findEligible_lt hfound) qe (pq.top_mem htop)
      omega
  | setCapacity q c => exact ⟨rfl, .inr rfl⟩
  | setCapacityPri q p c => exact ⟨rfl, .inr rfl⟩
  | setRate q pps delay => exact ⟨rfl, .inr rfl⟩
  | setRatePri q p pps delay => exact ⟨rfl, .inr rfl⟩

theorem pushFront_accepts {q p now : ℕ} {item : T} {r : QueueReply T}
    (hworker : s.mapToWorker q < s.workersInfo.length)
    (hroom : (s.view.info q p).size < (s.view.info q p).capacity)
    (hs : s.pushFront q p item now = some (r, s')) : r = .pushed true := by
  unfold pushFront at hs
  rw [List.getElem?_eq_getElem hworker] at hs
  cases hq : s.queuesInfo[q]? with
  | none =>
    simp only [view, hq, Option.bind_none, Option.getD_none] at hroom
    exact absurd hroom (lt_irrefl 0)
  | some qInfo =>
    cases hp : qInfo.pris[p]? with
    | none =>
      simp only [view, hq, Option.bind_some, hp, Option.getD_none] at hroom
      exact absurd hroom (lt_irrefl 0)
    | some qInfoPri =>
      rw [view_info_of_some hq hp] at hroom
      simp only [hq, hp, if_neg (not_le.mpr hroom)] at hs
      obtain ⟨queue, -, hs⟩ := Option.bind_eq_some_iff.mp hs
      cases hs
      rfl

theorem contents_of_physical_zero {wInfo : WorkerInfo pq} (h : physical wInfo = 0) {p : ℕ}
    {queue : pq.Heap} (hp : wInfo.queues[p]? = some queue) : pq.contents queue = 0 := by
  rw [physical, List.sum_eq_zero_iff_forall_eq_nat] at h
  exact Multiset.card_eq_zero.mp
    (h _ (List.mem_map_of_mem (f := fun h => (pq.contents h).card) (List.mem_of_getElem? hp)))

/-- A pop waits only when nothing for its worker may leave. -/
theorem OccInv.quiet_of_waits (h : OccInv s H) {w now : ℕ}
    (hwait : ∀ wInfo, s.workersInfo[w]? = some wInfo →
      wInfo.size = 0 ∨ findEligible wInfo now 0 s.nbPriorities = some none) :
    s.Quiet (.pop w now) := by
  intro p hp qe hqe
  cases hw : s.workersInfo[w]? with
  | none =>
    simp only [view, hw, Option.bind_none, Option.getD_none, pq.contents_empty] at hqe
    exact absurd hqe (Multiset.notMem_zero qe)
  | some wInfo =>
    cases hqueue : wInfo.queues[p]? with
    | none =>
      simp only [view, hw, Option.bind_some, hqueue, Option.getD_none, pq.contents_empty] at hqe
      exact absurd hqe (Multiset.notMem_zero qe)
    | some queue =>
      rw [view_heap_of_some hw hqueue] at hqe
      rcases hwait wInfo hw with hsize | hnone
      · have hphys : physical wInfo = 0 := by
          have := h.worker w wInfo hw
          omega
        rw [contents_of_physical_zero hphys hqueue] at hqe
        exact absurd hqe (Multiset.notMem_zero qe)
      · obtain ⟨queue', hqueue', hlow⟩ := findEligible_none hnone p (Nat.zero_le _) (by omega)
        obtain rfl : queue = queue' := by simpa [hqueue] using hqueue'
        cases ht : pq.top queue with
        | none =>
          rw [pq.contents_of_top_none queue ht] at hqe
          exact absurd hqe (Multiset.notMem_zero qe)
        | some qe₀ => exact (hlow qe₀ ht).trans_le (pq.top_le queue qe₀ ht qe hqe)

/-- A call that is not quiet leaves a counter wrong. -/
theorem OccInv.not_accounted_of_loud (h : OccInv s H) {op : Op T} (hloud : ¬ s.Quiet op)
    {r : QueueReply T} (hs : s.step op = some (r, s')) : ¬ s'.Accounted := by
  have h' := h.step hs
  cases op with
  | push q p item now =>
    simp only [Quiet, not_or, not_le] at hloud
    obtain ⟨hnb1, hworker, hroom⟩ := hloud
    obtain ⟨rfl, hr⟩ | ⟨qInfo, wInfo, qInfoPri, queue, -, hq, hw, -, -, -, rfl⟩ :=
      pushFront_cases hs
    · exact absurd (pushFront_accepts hworker hroom hs) hr
    · exact h'.not_accounted_of_size hnb1 ((getElem?_set_iff hq).trans (if_pos rfl))
        ((getElem?_set_iff hw).trans (if_pos rfl)) (Nat.succ_pos qInfo.size)
  | pop w now =>
    obtain ⟨rfl, -, hwait⟩ | ⟨wInfo, p, queue, qe, qInfo, qInfoPri, rfl, hw, hfound, -⟩ :=
      popBack_cases h.lane hs
    · exact absurd (h.quiet_of_waits hwait) hloud
    · obtain ⟨hqueue, htop, -⟩ := findEligible_spec hfound
      have hev : s.event (.pop w now) (.popped qe.queueId p qe.e) =
          some (.delivered ⟨w, p, qe, now⟩) := by
        simp only [event, view_heap_of_some hw hqueue, htop, Option.map_some]
      rw [hev] at h'
      exact h'.not_accounted_of_delivered (List.mem_append_right _ (List.mem_singleton_self _))
  | setCapacity q c => exact absurd trivial hloud
  | setCapacityPri q p c => exact absurd trivial hloud
  | setRate q pps delay => exact absurd trivial hloud
  | setRatePri q p pps delay => exact absurd trivial hloud

theorem OccInv.create {nbQueues nbWorkers capacity nbPriorities now : ℕ}
    {mapToWorker : ℕ → ℕ} :
    OccInv (create pq nbQueues nbWorkers capacity mapToWorker nbPriorities now) {} := by
  refine ⟨(run_lanes .refl).2, fun q qInfo hq => ?_, fun w wInfo hw => ?_, fun d hd => ?_⟩
  · simp only [QueueingLogicPriRL.create, List.getElem?_replicate] at hq
    split_ifs at hq
    cases hq
    simp [QueueingLogicPriRL.create]
  · simp only [QueueingLogicPriRL.create, List.getElem?_replicate] at hw
    split_ifs at hw
    cases hw
    simp [physical, pq.contents_empty]
  · cases hd

end QueueingLogicPriRL

open QueueingLogicPriRL in
/-- As long as no pop returns and, with more than one priority, no push is accepted, all the
occupancy counters are right; any other call leaves one of them wrong, from whatever state a run
has reached. -/
theorem occupancy_accounting (pq : PQ (QE T) QE.send) (nbQueues nbWorkers capacity : ℕ)
    (mapToWorker : ℕ → ℕ) (nbPriorities start : ℕ) :
    (∀ s H, Transition.Reach observed (fun s op => s.1.Quiet op)
        (.create pq nbQueues nbWorkers capacity mapToWorker nbPriorities start, {}) (s, H) →
      s.Accounted) ∧
    ∀ s H op r s',
      Run (.create pq nbQueues nbWorkers capacity mapToWorker nbPriorities start) s H →
      s.step op = some (r, s') → ¬ s.Quiet op → ¬ s'.Accounted := by
  constructor
  · intro s H hrun
    have hinv := hrun.invariant (fun s => OccInv s.1 s.2 ∧ s.2.delivered = [] ∧
        (s.1.nbPriorities ≤ 1 ∨ s.2.accepted = [])) ⟨OccInv.create, rfl, .inr rfl⟩ ?_
    · exact hinv.1.accounted hinv.2.1 hinv.2.2
    · rintro ⟨s, H⟩ op r ⟨s', H'⟩ ⟨hocc, hd, hacc⟩ hquiet hs
      obtain ⟨⟨r', t⟩, hstep, he⟩ := Option.map_eq_some_iff.mp hs
      cases he
      obtain ⟨hd', hacc'⟩ := Quiet.record_eq hocc hquiet hstep
      have hnb := step_nbPriorities hocc.lane hstep
      refine ⟨hocc.step hstep, hd'.trans hd, ?_⟩
      rw [hnb]
      rcases hacc with hle | hacc
      · exact .inl hle
      · exact hacc'.imp id fun heq => heq.trans hacc
  · intro s H op r s' hrun hs hloud
    have hocc := hrun.invariant (fun s => OccInv s.1 s.2) OccInv.create ?_
    · exact hocc.not_accounted_of_loud hloud hs
    · rintro ⟨s, H⟩ op r ⟨s', H'⟩ hocc - hs
      obtain ⟨⟨r', t⟩, hstep, he⟩ := Option.map_eq_some_iff.mp hs
      cases he
      exact hocc.step hstep

open QueueingLogicPriRL in
/-- One priority and one push: the counters are right, and the next pop leaves one wrong. -/
theorem occupancy_accounting_one_push : ∃ s H r s',
    Transition.Reach observed (fun s op => s.1.Quiet op)
      (.create (binaryHeap (QE ℕ) QE.send) 1 1 4 (fun _ => 0) 1 0, {}) (s, H) ∧ s.Accounted ∧
    s.step (.pop 0 1) = some (r, s') ∧ ¬ s'.Accounted := by
  have hall := occupancy_accounting (binaryHeap (QE ℕ) QE.send) 1 1 4 (fun _ => 0) 1 0
  let init : QueueingLogicPriRL (binaryHeap (QE ℕ) QE.send) := .create _ 1 1 4 (fun _ => 0) 1 0
  have hquiet : init.Quiet (.push 0 0 7 1) := .inl le_rfl
  refine ⟨_, _, _, _, .tail .refl hquiet rfl, hall.1 _ _ (.tail .refl hquiet rfl), rfl, ?_⟩
  refine hall.2 _ _ (.pop 0 1) _ _ (.tail (a := .push 0 0 7 1) .refl trivial rfl) rfl ?_
  intro hq
  exact absurd (hq 0 (by decide) ⟨7, 0, 1⟩ (List.mem_singleton.mpr rfl)) (lt_irrefl 1)

open QueueingLogicPriRL in
/-- One push to the first of two priorities counts for both, and the counter of a worker stays
when its element is popped. -/
theorem occupancy_counters_drift :
    (∃ s H, Run (.create (binaryHeap (QE ℕ) QE.send) 1 1 4 (fun _ => 0) 2 0) s H ∧
      s.sizePri 0 1 = some 1 ∧ s.view.held s.mapToWorker 0 1 = 0 ∧ ¬ s.Accounted) ∧
    ∃ s H wInfo, Run (.create (binaryHeap (QE ℕ) QE.send) 1 1 4 (fun _ => 0) 1 0) s H ∧
      s.workersInfo[0]? = some wInfo ∧ wInfo.size = 1 ∧ physical wInfo = 0 ∧ ¬ s.Accounted := by
  constructor
  · refine ⟨_, _, .tail (a := .push 0 0 7 1) .refl trivial rfl, rfl, rfl, fun h => ?_⟩
    exact absurd (h.priority 0 1 1 rfl) Nat.one_ne_zero
  · refine ⟨_, _, _,
      .tail (a := .pop 0 1) (.tail (a := .push 0 0 7 1) .refl trivial rfl) trivial rfl,
      rfl, rfl, rfl, fun h => ?_⟩
    exact absurd (h.worker 0 _ rfl) Nat.one_ne_zero

end Bmv2
