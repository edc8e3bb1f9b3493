import Bmv2.Queueing.RateLimited
import Mathlib.Algebra.Order.Group.Multiset
import Mathlib.Data.List.Chain

/-! Lanes: the logical queues, one for each queue id and priority, that share one heap for each
worker and priority. Both rate-limited queues move through these steps; what holds along every
run of the steps is proved here once. -/
namespace Bmv2
open PriorityQueue

variable {T : Type}

/-- A push that was accepted, with the send time it got and the delay then in force. -/
structure Accepted (T : Type) where
  item : T
  queueId : ℕ
  priority : ℕ
  send : ℕ
  delay : ℕ

def Accepted.qe (a : Accepted T) : QE T := ⟨a.item, a.queueId, a.send⟩

/-- A pop that returned, with the clock reading it was decided at. -/
structure Delivered (T : Type) where
  worker : ℕ
  priority : ℕ
  qe : QE T
  now : ℕ

inductive QueueEvent (T : Type) where
  | accepted (a : Accepted T)
  | delivered (d : Delivered T)

/-- What has gone in and come out so far, oldest first. -/
structure Traffic (T : Type) where
  accepted : List (Accepted T) := []
  delivered : List (Delivered T) := []

namespace Traffic

variable (H : Traffic T)

def record : Option (QueueEvent T) → Traffic T
  | none => H
  | some (.accepted a) => { H with accepted := H.accepted ++ [a] }
  | some (.delivered d) => { H with delivered := H.delivered ++ [d] }

/-- What went into one logical queue. -/
def acceptedIn (q p : ℕ) : List (Accepted T) :=
  H.accepted.filter fun a => a.queueId = q ∧ a.priority = p

/-- What came out of one logical queue. -/
def deliveredFrom (q p : ℕ) : List (Delivered T) :=
  H.delivered.filter fun d => d.qe.queueId = q ∧ d.priority = p

/-- What went in for one worker. -/
def acceptedFor (mapToWorker : ℕ → ℕ) (w p : ℕ) : List (Accepted T) :=
  H.accepted.filter fun a => mapToWorker a.queueId = w ∧ a.priority = p

/-- What one worker has got out. -/
def deliveredTo (w p : ℕ) : List (Delivered T) :=
  H.delivered.filter fun d => d.worker = w ∧ d.priority = p

theorem filter_append_singleton {α : Type} (P : α → Prop) [DecidablePred P] (l : List α) (a : α) :
    (l ++ [a]).filter P = l.filter P ++ if P a then [a] else [] := by
  rw [List.filter_append]
  by_cases h : P a <;> simp [h]

theorem acceptedIn_accepted (a : Accepted T) (q p : ℕ) :
    (H.record (some (.accepted a))).acceptedIn q p =
      H.acceptedIn q p ++ if a.queueId = q ∧ a.priority = p then [a] else [] :=
  filter_append_singleton ..

theorem acceptedFor_accepted (mapToWorker : ℕ → ℕ) (a : Accepted T) (w p : ℕ) :
    (H.record (some (.accepted a))).acceptedFor mapToWorker w p =
      H.acceptedFor mapToWorker w p ++
        if mapToWorker a.queueId = w ∧ a.priority = p then [a] else [] :=
  filter_append_singleton ..

theorem deliveredFrom_delivered (d : Delivered T) (q p : ℕ) :
    (H.record (some (.delivered d))).deliveredFrom q p =
      H.deliveredFrom q p ++ if d.qe.queueId = q ∧ d.priority = p then [d] else [] :=
  filter_append_singleton ..

theorem deliveredTo_delivered (d : Delivered T) (w p : ℕ) :
    (H.record (some (.delivered d))).deliveredTo w p =
      H.deliveredTo w p ++ if d.worker = w ∧ d.priority = p then [d] else [] :=
  filter_append_singleton ..

end Traffic

structure Lanes (pq : PQ (QE T) QE.send) where
  info : ℕ → ℕ → QueueInfo
  heap : ℕ → ℕ → pq.Heap

variable {pq : PQ (QE T) QE.send} {mapToWorker : ℕ → ℕ}

/-- The number of elements of a logical queue in the heap of its worker. -/
def Lanes.held (A : Lanes pq) (mapToWorker : ℕ → ℕ) (q p : ℕ) : ℕ :=
  (pq.contents (A.heap (mapToWorker q) p)).countP fun qe => qe.queueId = q

/-- The steps of the lanes. Capacities and rates may change at any time. -/
inductive Lanes.Step (mapToWorker : ℕ → ℕ) :
    Lanes pq → Option (QueueEvent T) → Lanes pq → Prop
  | config {A A' : Lanes pq} (hheap : A'.heap = A.heap)
      (hinfo : ∀ q p, (A'.info q p).size = (A.info q p).size ∧
        (A'.info q p).lastSent = (A.info q p).lastSent) :
      Lanes.Step mapToWorker A none A'
  | push {A A' : Lanes pq} (q p : ℕ) (item : T) (now : ℕ)
      (hlt : (A.info q p).size < (A.info q p).capacity)
      (hinfo : ∀ q' p', A'.info q' p' =
        if q' = q ∧ p' = p then (A.info q p).pushed now else A.info q' p')
      (hheap : ∀ w' p', A'.heap w' p' = if w' = mapToWorker q ∧ p' = p
        then pq.push (A.heap (mapToWorker q) p) ⟨item, q, (A.info q p).getNextTp now⟩
        else A.heap w' p') :
      Lanes.Step mapToWorker A (some (.accepted
        ⟨item, q, p, (A.info q p).getNextTp now, (A.info q p).pktDelayTicks⟩)) A'
  | pop {A A' : Lanes pq} (w p now : ℕ) (qe : QE T) (htop : pq.top (A.heap w p) = some qe)
      (hsend : qe.send ≤ now)
      (hinfo : ∀ q' p', A'.info q' p' =
        if q' = qe.queueId ∧ p' = p then (A.info q' p').popped else A.info q' p')
      (hheap : ∀ w' p', A'.heap w' p' =
        if w' = w ∧ p' = p then pq.pop (A.heap w p) else A.heap w' p') :
      Lanes.Step mapToWorker A (some (.delivered ⟨w, p, qe, now⟩)) A'

theorem Lanes.Step.stutter {A : Lanes pq} : Lanes.Step mapToWorker A none A :=
  .config rfl fun _ _ => ⟨rfl, rfl⟩

/-- What holds of the lanes and the traffic along every run. -/
structure LaneInv (mapToWorker : ℕ → ℕ) (A : Lanes pq) (H : Traffic T) : Prop where
  conserved : ∀ w p, (((H.acceptedFor mapToWorker w p).map Accepted.qe : List (QE T)) :
    Multiset (QE T)) = ((H.deliveredTo w p).map Delivered.qe : List (QE T)) +
      pq.contents (A.heap w p)
  size_eq : ∀ q p, (A.info q p).size = A.held mapToWorker q p
  sent : ∀ d ∈ H.delivered, d.qe.send ≤ d.now
  lastSent_eq : ∀ q p, ∀ a ∈ (H.acceptedIn q p).getLast?, (A.info q p).lastSent = a.send
  paced : ∀ q p, (H.acceptedIn q p).IsChain fun a b => a.send + b.delay ≤ b.send

namespace LaneInv

variable {A A' : Lanes pq} {H : Traffic T}

/-- An element is in the heap of the worker of its queue. -/
theorem worker_eq (h : LaneInv mapToWorker A H) {w p : ℕ} {qe : QE T}
    (hmem : qe ∈ pq.contents (A.heap w p)) : mapToWorker qe.queueId = w := by
  have hall : qe ∈ (((H.acceptedFor mapToWorker w p).map Accepted.qe : List (QE T)) :
      Multiset (QE T)) := by
    rw [h.conserved]
    exact Multiset.mem_add.mpr (.inr hmem)
  obtain ⟨a, ha, rfl⟩ := List.mem_map.mp (Multiset.mem_coe.mp hall)
  have := (List.mem_filter.mp ha).2
  simp only [decide_eq_true_eq] at this
  exact this.1

/-- What worker `w` got out with priority `p` went in for it. -/
theorem delivered_worker (h : LaneInv mapToWorker A H) {d : Delivered T}
    (hd : d ∈ H.delivered) : mapToWorker d.qe.queueId = d.worker := by
  have hto : d ∈ H.deliveredTo d.worker d.priority := List.mem_filter.mpr ⟨hd, by simp⟩
  have hall : d.qe ∈ (((H.acceptedFor mapToWorker d.worker d.priority).map Accepted.qe :
      List (QE T)) : Multiset (QE T)) := by
    rw [h.conserved]
    exact Multiset.mem_add.mpr (.inl (Multiset.mem_coe.mpr (List.mem_map_of_mem hto)))
  obtain ⟨a, ha, hqe⟩ := List.mem_map.mp (Multiset.mem_coe.mp hall)
  have hw := (List.mem_filter.mp ha).2
  simp only [decide_eq_true_eq] at hw
  rw [← hqe]
  exact hw.1

theorem empty (hinfo : ∀ q p, (A.info q p).size = 0) (hheap : ∀ w p, A.heap w p = pq.empty) :
    LaneInv mapToWorker A {} := by
  constructor
  · intro w p
    rw [hheap, pq.contents_empty]
    rfl
  · intro q p
    rw [hinfo, Lanes.held, hheap, pq.contents_empty, Multiset.countP_zero]
  · intro d hd
    cases hd
  · intro q p a ha
    cases ha
  · intro q p
    exact List.isChain_nil

theorem config (h : LaneInv mapToWorker A H) (hheap : A'.heap = A.heap)
    (hinfo : ∀ q p, (A'.info q p).size = (A.info q p).size ∧
      (A'.info q p).lastSent = (A.info q p).lastSent) : LaneInv mapToWorker A' H := by
  constructor
  · intro w p
    rw [hheap]
    exact h.conserved w p
  · intro q p
    rw [(hinfo q p).1, Lanes.held, hheap]
    exact h.size_eq q p
  · exact h.sent
  · intro q p a ha
    rw [(hinfo q p).2]
    exact h.lastSent_eq q p a ha
  · exact h.paced

theorem push (h : LaneInv mapToWorker A H) {q p now : ℕ} {item : T}
    (hinfo : ∀ q' p', A'.info q' p' =
      if q' = q ∧ p' = p then (A.info q p).pushed now else A.info q' p')
    (hheap : ∀ w' p', A'.heap w' p' = if w' = mapToWorker q ∧ p' = p
      then pq.push (A.heap (mapToWorker q) p) ⟨item, q, (A.info q p).getNextTp now⟩
      else A.heap w' p') :
    LaneInv mapToWorker A' (H.record (some (.accepted
      ⟨item, q, p, (A.info q p).getNextTp now, (A.info q p).pktDelayTicks⟩))) := by
  constructor
  · intro w' p'
    rw [Traffic.acceptedFor_accepted, List.map_append, ← Multiset.coe_add, h.conserved w' p',
      hheap, add_assoc]
    congr 1
    by_cases hc : w' = mapToWorker q ∧ p' = p
    · obtain ⟨rfl, rfl⟩ := hc
      rw [if_pos ⟨rfl, rfl⟩, if_pos ⟨rfl, rfl⟩, pq.contents_push, ← Multiset.singleton_add,
        add_comm]
      rfl
    · rw [if_neg hc, if_neg fun hc' => hc ⟨hc'.1.symm, hc'.2.symm⟩]
      exact add_zero _
  · intro q' p'
    have hold := h.size_eq q' p'
    rw [hinfo, Lanes.held, hheap]
    by_cases hc : q' = q ∧ p' = p
    · obtain ⟨rfl, rfl⟩ := hc
      rw [if_pos ⟨rfl, rfl⟩, if_pos ⟨rfl, rfl⟩, pq.contents_push,
        Multiset.countP_cons_of_pos _ (by rfl), ← Lanes.held, ← hold]
      rfl
    · rw [if_neg hc]
      split_ifs with hw
      · have hne : q ≠ q' := fun heq => hc ⟨heq.symm, hw.2⟩
        rw [pq.contents_push, Multiset.countP_cons_of_neg _ (by simpa using hne), hold,
          Lanes.held, hw.1, hw.2]
      · exact hold
  · exact h.sent
  · intro q' p' a ha
    rw [hinfo]
    rw [Traffic.acceptedIn_accepted] at ha
    by_cases hc : q' = q ∧ p' = p
    · obtain ⟨rfl, rfl⟩ := hc
      rw [if_pos ⟨rfl, rfl⟩, List.getLast?_append_cons] at ha
      obtain rfl := Option.mem_some_iff.mp ha
      rw [if_pos ⟨rfl, rfl⟩]
      rfl
    · rw [if_neg fun hc' => hc ⟨hc'.1.symm, hc'.2.symm⟩, List.append_nil] at ha
      rw [if_neg hc]
      exact h.lastSent_eq q' p' a ha
  · intro q' p'
    rw [Traffic.acceptedIn_accepted]
    by_cases hc : q' = q ∧ p' = p
    · obtain ⟨rfl, rfl⟩ := hc
      rw [if_pos ⟨rfl, rfl⟩, List.isChain_append]
      refine ⟨h.paced q' p', List.isChain_singleton _, fun a ha b hb => ?_⟩
      obtain rfl := Option.mem_some_iff.mp hb
      rw [← h.lastSent_eq q' p' a ha]
      exact le_max_right _ _
    · rw [if_neg fun hc' => hc ⟨hc'.1.symm, hc'.2.symm⟩, List.append_nil]
      exact h.paced q' p'

theorem pop (h : LaneInv mapToWorker A H) {w p now : ℕ} {qe : QE T}
    (htop : pq.top (A.heap w p) = some qe) (hsend : qe.send ≤ now)
    (hinfo : ∀ q' p', A'.info q' p' =
      if q' = qe.queueId ∧ p' = p then (A.info q' p').popped else A.info q' p')
    (hheap : ∀ w' p', A'.heap w' p' =
      if w' = w ∧ p' = p then pq.pop (A.heap w p) else A.heap w' p') :
    LaneInv mapToWorker A' (H.record (some (.delivered ⟨w, p, qe, now⟩))) := by
  have hcont := pq.contents_of_top _ _ htop
  have hworker := h.worker_eq (pq.top_mem htop)
  constructor
  · intro w' p'
    have hold := h.conserved w' p'
    rw [Traffic.deliveredTo_delivered, List.map_append, ← Multiset.coe_add, hheap, add_assoc]
    refine hold.trans ?_
    congr 1
    by_cases hc : w' = w ∧ p' = p
    · obtain ⟨rfl, rfl⟩ := hc
      rw [if_pos ⟨rfl, rfl⟩, if_pos ⟨rfl, rfl⟩, hcont, ← Multiset.singleton_add]
      rfl
    · rw [if_neg hc, if_neg fun hc' => hc ⟨hc'.1.symm, hc'.2.symm⟩]
      exact (zero_add _).symm
  · intro q' p'
    have hold := h.size_eq q' p'
    rw [hinfo, Lanes.held, hheap]
    by_cases hc : q' = qe.queueId ∧ p' = p
    · obtain ⟨rfl, rfl⟩ := hc
      rw [if_pos ⟨rfl, rfl⟩, if_pos ⟨hworker, rfl⟩]
      rw [Lanes.held, hworker, hcont, Multiset.countP_cons_of_pos _ (by rfl)] at hold
      rw [QueueInfo.popped, hold]
      rfl
    · rw [if_neg hc]
      split_ifs with hw
      · have hne : qe.queueId ≠ q' := fun heq => hc ⟨heq.symm, hw.2⟩
        rw [hold, Lanes.held, hw.1, hw.2, hcont, Multiset.countP_cons_of_neg _ (by simpa using hne)]
      · exact hold
  · intro d hd
    obtain hd | hd := List.mem_append.mp hd
    · exact h.sent d hd
    · rw [List.mem_singleton.mp hd]
      exact hsend
  · intro q' p' a ha
    rw [hinfo]
    split_ifs
    · exact h.lastSent_eq q' p' a ha
    · exact h.lastSent_eq q' p' a ha
  · exact h.paced

theorem step (h : LaneInv mapToWorker A H) {ev : Option (QueueEvent T)}
    (hs : Lanes.Step mapToWorker A ev A') : LaneInv mapToWorker A' (H.record ev) := by
  cases hs with
  | config hheap hinfo => exact h.config hheap hinfo
  | push q p item now _ hinfo hheap => exact h.push hinfo hheap
  | pop w p now qe htop hsend hinfo hheap => exact h.pop htop hsend hinfo hheap

end LaneInv

end Bmv2
