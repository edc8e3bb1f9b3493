import Bmv2.Queueing.Paced

/-! The order within a logical queue of `QueueingLogicRL`. It is carried by the send times only,
so that it is kept as long as no element gets the send time of one that is still in its queue. -/
namespace Bmv2
open PriorityQueue

variable {T : Type} {pq : PQ (QE T) QE.send} {mapToWorker : ℕ → ℕ}

/-- What a logical queue still holds comes after what it has delivered, in the order of the
pushes and with increasing send times. -/
def InOrder (mapToWorker : ℕ → ℕ) (A : Lanes pq) (H : Traffic T) (q p : ℕ) : Prop :=
  ∃ rest : List (QE T), (H.acceptedIn q p).map Accepted.qe =
      (H.deliveredFrom q p).map Delivered.qe ++ rest ∧
    rest.Pairwise (fun a b => a.send < b.send) ∧
    (rest : Multiset (QE T)) =
      (pq.contents (A.heap (mapToWorker q) p)).filter fun qe => qe.queueId = q

/-- A push into a queue that is empty or full, or after its last send time, or with a delay. -/
def Spaced (qInfo : QueueInfo) (now : ℕ) : Prop :=
  qInfo.size = 0 ∨ qInfo.capacity ≤ qInfo.size ∨ qInfo.lastSent < now ∨ 0 < qInfo.pktDelayTicks

theorem Spaced.lastSent_lt {qInfo : QueueInfo} {now : ℕ} (h : Spaced qInfo now)
    (hroom : qInfo.size < qInfo.capacity) :
    qInfo.size = 0 ∨ qInfo.lastSent < qInfo.getNextTp now := by
  unfold QueueInfo.getNextTp
  rcases h with hz | hfull | hlt | hdelay
  · exact .inl hz
  · omega
  · exact .inr (lt_max_of_lt_left hlt)
  · exact .inr (lt_max_of_lt_right (by omega))

/-- A push keeps the order if its send time is after those of what its queue holds. -/
theorem InOrder.push {A A' : Lanes pq} {H : Traffic T} {q p now : ℕ} {item : T} {q' p' : ℕ}
    (hord : InOrder mapToWorker A H q' p')
    (hsp : ∀ qe ∈ pq.contents (A.heap (mapToWorker q) p), qe.queueId = q →
      qe.send < (A.info q p).getNextTp now)
    (hheap : ∀ w' p', A'.heap w' p' = if w' = mapToWorker q ∧ p' = p
      then pq.push (A.heap (mapToWorker q) p) ⟨item, q, (A.info q p).getNextTp now⟩
      else A.heap w' p') :
    InOrder mapToWorker A' (H.record (some (.accepted
      ⟨item, q, p, (A.info q p).getNextTp now, (A.info q p).pktDelayTicks⟩))) q' p' := by
  obtain ⟨rest, hsplit, hsorted, hrest⟩ := hord
  by_cases hc : q = q' ∧ p = p'
  · obtain ⟨rfl, rfl⟩ := hc
    refine ⟨rest ++ [⟨item, q, (A.info q p).getNextTp now⟩], ?_, ?_, ?_⟩
    · rw [Traffic.acceptedIn_accepted, if_pos ⟨rfl, rfl⟩, List.map_append, hsplit,
        List.append_assoc]
      rfl
    · refine List.pairwise_append.mpr ⟨hsorted, List.pairwise_singleton _ _, ?_⟩
      intro a ha b hb
      rw [List.mem_singleton.mp hb]
      -- what the heap holds for the queue has an earlier send time
      have hmem : a ∈ (pq.contents (A.heap (mapToWorker q) p)).filter fun qe => qe.queueId = q := by
        rw [← hrest]
        exact Multiset.mem_coe.mpr ha
      exact hsp a (Multiset.mem_filter.mp hmem).1 (Multiset.mem_filter.mp hmem).2
    · rw [hheap, if_pos ⟨rfl, rfl⟩, pq.contents_push, Multiset.filter_cons_of_pos _ (by rfl),
        ← hrest, ← Multiset.coe_add, add_comm]
      rfl
  · refine ⟨rest, ?_, hsorted, ?_⟩
    · rw [Traffic.acceptedIn_accepted, if_neg hc, List.append_nil]
      exact hsplit
    · rw [hheap, hrest]
      split_ifs with hw
      · have hne : q ≠ q' := fun heq => hc ⟨heq, hw.2.symm⟩
        rw [pq.contents_push, Multiset.filter_cons_of_neg _ (by simpa using hne), hw.1, hw.2]
      · rfl

namespace LaneInv

variable {A A' : Lanes pq} {H : Traffic T}

/-- The send times of a logical queue never fall, so that the last one is the largest. -/
theorem send_le_lastSent (h : LaneInv mapToWorker A H) {q p : ℕ} {a : Accepted T}
    (ha : a ∈ H.acceptedIn q p) : a.send ≤ (A.info q p).lastSent := by
  have hmono : (H.acceptedIn q p).IsChain fun a b => a.send ≤ b.send :=
    (h.paced q p).imp fun _ _ hab => (Nat.le_add_right _ _).trans hab
  have hlast := h.lastSent_eq q p
  obtain hnil | ⟨init, last, hl⟩ := List.eq_nil_or_concat (H.acceptedIn q p)
  · rw [hnil] at ha
    cases ha
  · rw [hl, List.concat_eq_append] at hmono hlast ha
    rw [hlast last (by simp)]
    have htrans : IsTrans (Accepted T) fun a b => a.send ≤ b.send :=
      ⟨fun _ _ _ => Nat.le_trans⟩
    have hpair := List.pairwise_append.mp (List.isChain_iff_pairwise.mp hmono)
    obtain hinit | heq := List.mem_append.mp ha
    · exact hpair.2.2 a hinit last (List.mem_singleton_self _)
    · rw [List.mem_singleton.mp heq]

theorem inOrder_empty (h : LaneInv mapToWorker A {}) (q p : ℕ) :
    InOrder mapToWorker A {} q p := by
  have hzero : pq.contents (A.heap (mapToWorker q) p) = 0 := by
    have hcons := h.conserved (mapToWorker q) p
    rwa [eq_comm, show ((Traffic.deliveredTo {} (mapToWorker q) p).map Delivered.qe :
      List (QE T)) = [] from rfl, Multiset.coe_nil, zero_add] at hcons
  refine ⟨[], rfl, List.Pairwise.nil, ?_⟩
  rw [hzero]
  rfl

/-- The last push had the send time `lastSent`, and every held element has at most that. -/
theorem send_lt (h : LaneInv mapToWorker A H) {q p now : ℕ}
    (hsp : (A.info q p).size = 0 ∨ (A.info q p).lastSent < (A.info q p).getNextTp now) :
    ∀ qe ∈ pq.contents (A.heap (mapToWorker q) p), qe.queueId = q →
      qe.send < (A.info q p).getNextTp now := by
  intro qe hmem hq
  have hpos : 0 < (A.info q p).size := by
    rw [h.size_eq, Lanes.held, Multiset.countP_eq_card_filter]
    exact Multiset.card_pos_iff_exists_mem.mpr ⟨qe, Multiset.mem_filter.mpr ⟨hmem, hq⟩⟩
  have hall : qe ∈ (((H.acceptedFor mapToWorker (mapToWorker q) p).map Accepted.qe :
      List (QE T)) : Multiset (QE T)) := by
    rw [h.conserved]
    exact Multiset.mem_add.mpr (.inr hmem)
  obtain ⟨a, ha, rfl⟩ := List.mem_map.mp (Multiset.mem_coe.mp hall)
  have hin : a ∈ H.acceptedIn q p := by
    have haccepted := List.mem_filter.mp ha
    refine List.mem_filter.mpr ⟨haccepted.1, ?_⟩
    have hpriority := (of_decide_eq_true haccepted.2).2
    exact decide_eq_true ⟨hq, hpriority⟩
  rcases hsp with hz | hlt
  · omega
  · exact (h.send_le_lastSent hin).trans_lt hlt

theorem inOrder_pop (h : LaneInv mapToWorker A H) {w p now : ℕ} {qe : QE T}
    (htop : pq.top (A.heap w p) = some qe)
    (hheap : ∀ w' p', A'.heap w' p' =
      if w' = w ∧ p' = p then pq.pop (A.heap w p) else A.heap w' p')
    {q' p' : ℕ} (hord : InOrder mapToWorker A H q' p') :
    InOrder mapToWorker A' (H.record (some (.delivered ⟨w, p, qe, now⟩))) q' p' := by
  have hcont := pq.contents_of_top _ _ htop
  have hworker := h.worker_eq (pq.top_mem htop)
  obtain ⟨rest, hsplit, hsorted, hrest⟩ := hord
  by_cases hc : qe.queueId = q' ∧ p = p'
  · obtain ⟨rfl, rfl⟩ := hc
    rw [hworker] at hrest
    -- the popped element is minimal among those of its queue, so that it is the first of them
    have hmem : qe ∈ rest := by
      rw [← Multiset.mem_coe, hrest]
      exact Multiset.mem_filter.mpr ⟨pq.top_mem htop, rfl⟩
    cases rest with
    | nil => cases hmem
    | cons a rest =>
      have ha : a ∈ (pq.contents (A.heap w p)).filter fun qe' => qe'.queueId = qe.queueId := by
        rw [← hrest]
        exact Multiset.mem_coe.mpr List.mem_cons_self
      obtain rfl : qe = a := by
        obtain heq | hlater := List.mem_cons.mp hmem
        · exact heq
        · have hlt := (List.pairwise_cons.mp hsorted).1 qe hlater
          have hle := pq.top_le _ _ htop a (Multiset.mem_filter.mp ha).1
          omega
      refine ⟨rest, ?_, (List.pairwise_cons.mp hsorted).2, ?_⟩
      · rw [Traffic.deliveredFrom_delivered, if_pos ⟨rfl, rfl⟩, List.map_append,
          List.append_assoc]
        exact hsplit
      · rw [hheap, if_pos ⟨hworker, rfl⟩]
        rw [hcont, Multiset.filter_cons_of_pos _ (by rfl), ← Multiset.cons_coe] at hrest
        exact (Multiset.cons_inj_right qe).mp hrest
  · refine ⟨rest, ?_, hsorted, ?_⟩
    · rw [Traffic.deliveredFrom_delivered, if_neg hc, List.append_nil]
      exact hsplit
    · rw [hheap, hrest]
      split_ifs with hw
      · have hne : qe.queueId ≠ q' := fun heq => hc ⟨heq, hw.2.symm⟩
        rw [hw.1, hw.2, hcont, Multiset.filter_cons_of_neg _ (by simpa using hne)]
      · rfl

end LaneInv

namespace QueueingLogicRL

/-- Every push is spaced. -/
def SpacedStep (s : QueueingLogicRL pq) : Op T → Prop
  | .push q _ now => Spaced (s.view.info q 0) now
  | _ => True

theorem inOrder_step {s s' : QueueingLogicRL pq} {H : Traffic T} {op : Op T} {r : QueueReply T}
    (h : LaneInv s.mapToWorker s.view H) (hsp : s.SpacedStep op)
    (hs : s.step op = some (r, s')) {q p : ℕ} (hord : InOrder s.mapToWorker s.view H q p) :
    InOrder s.mapToWorker s'.view (H.record (s.event op r)) q p := by
  obtain ⟨-, hlane⟩ := step_lanes h hs
  generalize hev : s.event op r = ev at hlane
  cases hlane with
  | config hheap hinfo =>
    obtain ⟨rest, hsplit, hsorted, hrest⟩ := hord
    exact ⟨rest, hsplit, hsorted, hheap ▸ hrest⟩
  | push q₀ p₀ item now hroom _ hheap =>
    refine hord.push (h.send_lt ?_) hheap
    unfold event at hev
    split at hev
    · obtain ⟨rfl, rfl, rfl, hnow, -⟩ := Accepted.mk.inj (by simpa using hev)
      rw [← hnow]
      exact Spaced.lastSent_lt hsp hroom
    · obtain ⟨_, -, he⟩ := Option.map_eq_some_iff.mp hev
      cases he
    · cases hev
  | pop w p₀ now qe htop _ _ hheap => exact h.inOrder_pop htop hheap hord

end QueueingLogicRL

/-- As long as every push gets a send time after those in its queue, each logical queue delivers
in the order of its pushes, whichever of several earliest elements the heap has on top. -/
theorem rate_limited_fifo (pq : PQ (QE T) QE.send) (nbQueues nbWorkers capacity : ℕ)
    (mapToWorker : ℕ → ℕ) (start : ℕ) (s : QueueingLogicRL pq) (H : Traffic T)
    (hrun : Transition.Reach QueueingLogicRL.observed (fun s op => s.1.SpacedStep op)
      (.create pq nbQueues nbWorkers capacity mapToWorker start, {}) (s, H)) (q : ℕ) :
    (H.deliveredFrom q 0).map Delivered.qe <+: (H.acceptedIn q 0).map Accepted.qe := by
  have hlane : LaneInv mapToWorker
      (QueueingLogicRL.create pq nbQueues nbWorkers capacity mapToWorker start).view {} :=
    (QueueingLogicRL.run_lanes .refl).2
  have hinv := hrun.invariant (fun s => LaneInv s.1.mapToWorker s.1.view s.2 ∧
    InOrder s.1.mapToWorker s.1.view s.2 q 0) ⟨hlane, hlane.inOrder_empty q 0⟩ ?_
  · obtain ⟨rest, hsplit, -⟩ := hinv.2
    exact ⟨rest, hsplit.symm⟩
  · rintro ⟨s, H⟩ op r ⟨s', H'⟩ ⟨hlane, hord⟩ hsp hs
    obtain ⟨⟨r', t⟩, hstep, he⟩ := Option.map_eq_some_iff.mp hs
    cases he
    obtain ⟨hmap, hst⟩ := QueueingLogicRL.step_lanes hlane hstep
    rw [hmap]
    exact ⟨hlane.step hst, QueueingLogicRL.inOrder_step hlane hsp hstep hord⟩

/-- Two elements pushed at different clock readings. -/
theorem rate_limited_fifo_two : ∃ s H,
    Transition.Reach QueueingLogicRL.observed (fun s op => s.1.SpacedStep op)
      (.create (binaryHeap (QE ℕ) QE.send) 1 1 4 (fun _ => 0) 0, {}) (s, H) ∧
    ((H.acceptedIn 0 0).map fun a => a.item) = [7, 8] ∧
    ((H.deliveredFrom 0 0).map fun d => d.qe.e) = [7] ∧
    (H.deliveredFrom 0 0).map Delivered.qe <+: (H.acceptedIn 0 0).map Accepted.qe := by
  have hpush : Transition.Reach QueueingLogicRL.observed
      (fun (s : QueueingLogicRL (binaryHeap (QE ℕ) QE.send) × Traffic ℕ) op => s.1.SpacedStep op)
      (.create _ 1 1 4 (fun _ => 0) 0, {}) _ :=
    .tail (a := .pop 0 2) (.tail (a := .push 0 8 2)
      (.tail (a := .push 0 7 1) .refl (.inl rfl) rfl)
      (.inr (.inr (.inl (by decide)))) rfl) trivial rfl
  exact ⟨_, _, hpush, rfl, rfl, rate_limited_fifo _ _ _ _ _ _ _ _ hpush 0⟩

/-- Four elements pushed at one clock reading: the second to leave the heap of `push_heap` and
`pop_heap` is the third that went in. -/
theorem rate_limited_queue_reorders : ∃ s H,
    QueueingLogicRL.Run (.create (binaryHeap (QE ℕ) QE.send) 1 1 4 (fun _ => 0) 0) s H ∧
    ((H.acceptedIn 0 0).map fun a => (a.item, a.send)) = [(1, 5), (2, 5), (3, 5), (4, 5)] ∧
    ((H.deliveredFrom 0 0).map fun d => (d.qe.e, d.now)) = [(1, 5), (3, 5)] ∧
    ¬ (H.deliveredFrom 0 0).map Delivered.qe <+: (H.acceptedIn 0 0).map Accepted.qe := by
  have heval : ((Transition.runAll QueueingLogicRL.observed (fun _ _ => True)
      (.create (binaryHeap (QE ℕ) QE.send) 1 1 4 (fun _ => 0) 0, {})
      [.push 0 1 5, .push 0 2 5, .push 0 3 5, .push 0 4 5, .pop 0 5, .pop 0 5]).map fun s =>
        ((s.2.acceptedIn 0 0).map fun a => (a.item, a.send),
          (s.2.deliveredFrom 0 0).map fun d => (d.qe.e, d.now))) =
      some ([(1, 5), (2, 5), (3, 5), (4, 5)], [(1, 5), (3, 5)]) := by
    decide +kernel
  obtain ⟨⟨s, H⟩, hrun, hs⟩ := Option.map_eq_some_iff.mp heval
  obtain ⟨hacc, hdel⟩ := Prod.mk.inj hs
  refine ⟨s, H, Transition.Reach.of_runAll hrun, hacc, hdel, fun hle => ?_⟩
  have hitems := hle.map QE.e
  have h1 : ((H.deliveredFrom 0 0).map Delivered.qe).map QE.e = [1, 3] := by
    have := congrArg (List.map Prod.fst) hdel
    rw [List.map_map] at this ⊢
    exact this
  have h2 : ((H.acceptedIn 0 0).map Accepted.qe).map QE.e = [1, 2, 3, 4] := by
    have := congrArg (List.map Prod.fst) hacc
    rw [List.map_map] at this ⊢
    exact this
  rw [h1, h2] at hitems
  revert hitems
  decide

end Bmv2
