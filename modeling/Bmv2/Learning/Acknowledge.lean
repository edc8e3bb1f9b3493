import Bmv2.Learning.LearnList
import Mathlib.Data.List.Perm.Subperm

/-! The learning filter and its acknowledgements: the filter holds the samples accepted and not
acknowledged, as long as no sample is acknowledged a second time through the record of its
buffer. -/
namespace Bmv2
open ByteBits UnorderedMap

namespace LearnHistory

/-- The samples accepted and not yet acknowledged, with their nodes. -/
def outstanding (H : LearnHistory) : LearnFilter :=
  (H.accepted.filter fun a => a.node ∉ H.acked).map fun a => (a.node, a.sample)

end LearnHistory

namespace LearnList

open LearnHistory

variable {s s' : LearnList} {H : LearnHistory}

/-- The iterator of a sample still points into the filter. -/
def Live (s : LearnList) (node : ℕ) : Prop := ∃ n ∈ s.filter, n.1 = node

/-- So it does, and the filter has not rehashed since. -/
def Erasable (s : LearnList) (node : ℕ) : Prop := s.stale node = false ∧ s.Live node

/-- The filter is the outstanding samples, and the counters add up to their number. -/
structure Acknowledged (s : LearnList) (H : LearnHistory) : Prop where
  filter_eq : s.filter = H.outstanding
  samples : (s.filter.map Prod.snd).Nodup
  total_eq : total FilterPtrs.unackedCount s.oldBuffers = s.filter.length

/-- The ids of an acknowledgement are in range for the buffer. -/
def InRange (s : LearnList) : Op → Prop
  | .ack bufferId sampleIds => ∀ filterPtrs, s.oldBuffers.lookup bufferId = some filterPtrs →
      ∀ id ∈ sampleIds, id < filterPtrs.buffer.length
  | _ => True

/-- No sample of a buffer that has a record is acknowledged again: not twice in one list of ids,
not in a later one, and not by `ack_buffer`, unless that empties the filter. None is erased through
an iterator that a rehash has made invalid. -/
def AckOk (s : LearnList) : Op → Prop
  | .ack bufferId sampleIds => ∀ filterPtrs, s.oldBuffers.lookup bufferId = some filterPtrs →
      sampleIds.Nodup ∧ ∀ id ∈ sampleIds, ∀ node, filterPtrs.buffer[id]? = some node →
        s.Erasable node
  | .ackBuffer bufferId => ∀ filterPtrs, s.oldBuffers.lookup bufferId = some filterPtrs →
      filterPtrs.unackedCount = s.filter.length ∨ ∀ node ∈ filterPtrs.buffer, s.Erasable node
  | _ => True

/-- The invariant of the filter and of the records of the buffers. -/
structure FilterInv (s : LearnList) (H : LearnHistory) : Prop extends Acknowledged s H where
  nodes : H.accepted.map AcceptedSample.node = List.range s.nextNode
  acked : ∀ node ∈ H.acked, node < s.nextNode
  nodup : ∀ b filterPtrs, s.oldBuffers.lookup b = some filterPtrs → filterPtrs.buffer.Nodup
  stored : ∀ b filterPtrs, s.oldBuffers.lookup b = some filterPtrs →
    ∀ node ∈ filterPtrs.buffer, ∃ a ∈ H.accepted, a.node = node ∧ a.bufferId = b
  count : ∀ b filterPtrs, s.oldBuffers.lookup b = some filterPtrs →
    filterPtrs.unackedCount = filterPtrs.buffer.countP (fun node => node ∉ H.acked) ∧
      0 < filterPtrs.unackedCount

/-- The accepted samples have nodes of their own. -/
theorem FilterInv.accepted_unique (h : FilterInv s H) {a a' : AcceptedSample}
    (ha : a ∈ H.accepted) (ha' : a' ∈ H.accepted) (heq : a.node = a'.node) : a = a' := by
  have hnd : (H.accepted.map AcceptedSample.node).Nodup := h.nodes ▸ List.nodup_range
  exact List.inj_on_of_nodup_map hnd ha ha' heq

theorem FilterInv.node_lt (h : FilterInv s H) {a : AcceptedSample} (ha : a ∈ H.accepted) :
    a.node < s.nextNode := by
  have hmem : a.node ∈ H.accepted.map AcceptedSample.node := List.mem_map_of_mem ha
  rw [h.nodes] at hmem
  exact List.mem_range.mp hmem

/-- A node is live from its acceptance to its acknowledgement. -/
theorem FilterInv.live_iff (h : FilterInv s H) {node : ℕ} :
    s.Live node ↔ node < s.nextNode ∧ node ∉ H.acked := by
  unfold Live
  rw [h.filter_eq]
  constructor
  · rintro ⟨n, hn, rfl⟩
    obtain ⟨a, ha, rfl⟩ := List.mem_map.mp hn
    obtain ⟨hacc, hacked⟩ := List.mem_filter.mp ha
    exact ⟨h.node_lt hacc, by simpa using hacked⟩
  · rintro ⟨hlt, hacked⟩
    have hmem : node ∈ H.accepted.map AcceptedSample.node := h.nodes ▸ List.mem_range.mpr hlt
    obtain ⟨a, ha, rfl⟩ := List.mem_map.mp hmem
    refine ⟨(a.node, a.sample), List.mem_map.mpr ⟨a, ?_, rfl⟩, rfl⟩
    exact List.mem_filter.mpr ⟨ha, by simpa using hacked⟩

theorem FilterInv.filter_nodes_nodup (h : FilterInv s H) : (s.filter.map Prod.fst).Nodup := by
  rw [h.filter_eq, outstanding, List.map_map]
  have hnd : (H.accepted.map AcceptedSample.node).Nodup := h.nodes ▸ List.nodup_range
  exact hnd.sublist (List.filter_sublist.map _)

/-- The record of another buffer has other nodes. -/
theorem FilterInv.disjoint (h : FilterInv s H) {b b' : ℕ} {p p' : FilterPtrs}
    (hb : s.oldBuffers.lookup b = some p) (hb' : s.oldBuffers.lookup b' = some p') (hne : b' ≠ b)
    {node : ℕ} (hnode : node ∈ p.buffer) : node ∉ p'.buffer := by
  intro hnode'
  obtain ⟨a, ha, hn, rfl⟩ := h.stored b p hb node hnode
  obtain ⟨a', ha', hn', rfl⟩ := h.stored b' p' hb' node hnode'
  rw [h.accepted_unique ha ha' (hn.trans hn'.symm)] at hne
  exact hne rfl

/-- Nodes that leave the filter are outstanding no more. -/
theorem outstanding_acked (nodes : List ℕ) :
    (H.record (.acked nodes)).outstanding = H.outstanding.filter fun n => n.1 ∉ nodes := by
  unfold outstanding record
  rw [List.filter_map, List.filter_filter]
  congr 1
  refine List.filter_congr fun a _ => ?_
  simp only [List.mem_append, not_or, Function.comp_apply, Bool.decide_and, Bool.and_comm]

theorem outstanding_accepted {node : ℕ} (hfresh : node ∉ H.acked) (b : ℕ) (sample : List Byte) :
    (H.record (.accepted b node sample)).outstanding = H.outstanding ++ [(node, sample)] := by
  change ((H.accepted ++ [(⟨b, node, sample⟩ : AcceptedSample)]).filter
    fun a => a.node ∉ H.acked).map _ = _
  rw [List.filter_append, List.filter_cons_of_pos (by simpa using hfresh), List.map_append]
  rfl

/-- A list without repetitions is one shorter without one of its members. -/
theorem length_filter_ne {l : List ℕ} (hnd : l.Nodup) {node : ℕ} (hmem : node ∈ l) :
    (l.filter fun n => n ≠ node).length + 1 = l.length := by
  have herase : l.filter (fun n => n ≠ node) = l.erase node := by
    rw [hnd.erase_eq_filter]
    exact List.filter_congr fun n _ => by by_cases h : n = node <;> simp [h]
  rw [herase, List.length_erase_of_mem hmem]
  exact Nat.sub_add_cancel (List.length_pos_of_mem hmem)

theorem length_filter_node {filter : LearnFilter} (hnd : (filter.map Prod.fst).Nodup) {node : ℕ}
    (hmem : ∃ n ∈ filter, n.1 = node) :
    (filter.filter fun n => n.1 ≠ node).length + 1 = filter.length := by
  have hlen := length_filter_ne hnd (List.mem_map.mpr hmem)
  rw [List.filter_map, List.length_map, List.length_map] at hlen
  exact hlen

/-- The record of a buffer counts down when one of its samples is acknowledged. -/
theorem countP_acked {buffer acked : List ℕ} (hnd : buffer.Nodup) {node : ℕ}
    (hmem : node ∈ buffer) (hlive : node ∉ acked) :
    buffer.countP (fun n => n ∉ acked ++ [node]) + 1 = buffer.countP (fun n => n ∉ acked) := by
  have hlen := length_filter_ne (hnd.filter fun n => n ∉ acked)
    (List.mem_filter.mpr ⟨hmem, decide_eq_true hlive⟩)
  rw [List.filter_filter] at hlen
  rw [List.countP_eq_length_filter, List.countP_eq_length_filter, ← hlen]
  congr 2
  refine List.filter_congr fun n _ => ?_
  simp [Bool.and_comm]

/-- The record of a buffer stays when samples of others are acknowledged. -/
theorem countP_acked_other {buffer acked nodes : List ℕ} (hother : ∀ node ∈ nodes, node ∉ buffer) :
    buffer.countP (fun n => n ∉ acked ++ nodes) = buffer.countP (fun n => n ∉ acked) := by
  refine List.countP_congr fun n hn => ?_
  have hnot : n ∉ nodes := fun hin => hother n hin hn
  simp [hnot]

theorem ackSample_eq_some {stale : ℕ → Bool} {b id node : ℕ} {filter filter' : LearnFilter}
    {oldBuffers oldBuffers' : Map ℕ FilterPtrs}
    (h : ackSample stale b id filter oldBuffers = some (node, filter', oldBuffers')) :
    ∃ filterPtrs, oldBuffers.lookup b = some filterPtrs ∧ filterPtrs.buffer[id]? = some node ∧
      (stale node = false ∧ ∃ n ∈ filter, n.1 = node) ∧
      filter' = (filter.filter fun n => n.1 ≠ node) ∧
      oldBuffers' = if filterPtrs.unackedCount - 1 = 0 then oldBuffers.erase b
        else oldBuffers.insert b
          { filterPtrs with unackedCount := filterPtrs.unackedCount - 1 } := by
  unfold ackSample at h
  simp only [Option.bind_eq_bind, Option.bind_eq_some_iff] at h
  obtain ⟨filterPtrs, hp, node', hnode, filter'', hf, he⟩ := h
  cases he
  obtain ⟨hmem, rfl⟩ := LearnFilter.eraseNode_eq_some hf
  exact ⟨filterPtrs, hp, hnode, hmem, rfl, rfl⟩

/-- Acknowledging one sample keeps the invariant. -/
theorem FilterInv.ackSample (h : FilterInv s H) {b id node : ℕ} {filter : LearnFilter}
    {oldBuffers : Map ℕ FilterPtrs}
    (hs : ackSample s.stale b id s.filter s.oldBuffers = some (node, filter, oldBuffers)) :
    FilterInv { s with filter, oldBuffers } (H.record (.acked [node])) := by
  obtain ⟨p, hp, hnode, ⟨-, hlive⟩, rfl, hold⟩ := ackSample_eq_some hs
  have hmem := List.mem_of_getElem? hnode
  obtain ⟨hlt, hnew⟩ := h.live_iff.mp hlive
  obtain ⟨hcount, hpos⟩ := h.count b p hp
  have hdown : p.unackedCount - 1 = p.buffer.countP (fun n => n ∉ H.acked ++ [node]) := by
    have := countP_acked (h.nodup b p hp) hmem hnew
    omega
  -- the records after the step: the one of `b` counts down or goes, the others stay
  have hrec : ∀ b' p', oldBuffers.lookup b' = some p' →
      (b' = b ∧ p' = { p with unackedCount := p.unackedCount - 1 } ∧ p.unackedCount - 1 ≠ 0) ∨
        (b' ≠ b ∧ s.oldBuffers.lookup b' = some p') := by
    intro b' p' hp'
    rw [hold] at hp'
    split_ifs at hp' with hz
    · rw [lookup_erase] at hp'
      split_ifs at hp' with hb
      exact .inr ⟨hb, hp'⟩
    · rw [lookup_insert] at hp'
      split_ifs at hp' with hb
      · exact .inl ⟨hb, (Option.some.inj hp').symm, hz⟩
      · exact .inr ⟨hb, hp'⟩
  refine ⟨⟨?_, ?_, ?_⟩, h.nodes, ?_, ?_, ?_, ?_⟩
  · rw [outstanding_acked, ← h.filter_eq]
    simp
  · exact h.samples.sublist (List.filter_sublist.map _)
  · have hlen := length_filter_node h.filter_nodes_nodup hlive
    have htotal := h.total_eq
    simp only
    rw [hold]
    split_ifs with hz
    · have := total_erase (f := FilterPtrs.unackedCount) (m := s.oldBuffers) (k := b)
      rw [hp, Option.map_some, Option.getD_some] at this
      omega
    · have := total_insert (f := FilterPtrs.unackedCount) (m := s.oldBuffers) (k := b)
        { p with unackedCount := p.unackedCount - 1 }
      rw [hp, Option.map_some, Option.getD_some] at this
      simp only at this
      omega
  · intro n hn
    obtain hn | hn := List.mem_append.mp hn
    · exact h.acked n hn
    · obtain rfl := List.mem_singleton.mp hn
      exact hlt
  · intro b' p' hp'
    obtain ⟨rfl, rfl, -⟩ | ⟨-, hp'⟩ := hrec b' p' hp'
    · exact h.nodup _ p hp
    · exact h.nodup b' p' hp'
  · intro b' p' hp'
    obtain ⟨rfl, rfl, -⟩ | ⟨-, hp'⟩ := hrec b' p' hp'
    · exact h.stored _ p hp
    · exact h.stored b' p' hp'
  · intro b' p' hp'
    obtain ⟨rfl, rfl, hz⟩ | ⟨hne, hp'⟩ := hrec b' p' hp'
    · exact ⟨hdown, Nat.pos_of_ne_zero hz⟩
    · obtain ⟨hcount', hpos'⟩ := h.count b' p' hp'
      refine ⟨hcount'.trans (countP_acked_other ?_).symm, hpos'⟩
      intro n hn
      rw [List.mem_singleton.mp hn]
      exact h.disjoint hp hp' hne hmem

theorem record_acked_acked (nodes nodes' : List ℕ) :
    (H.record (.acked nodes)).record (.acked nodes') = H.record (.acked (nodes ++ nodes')) := by
  simp [record]

theorem FilterInv.ackLoop (h : FilterInv s H) {b : ℕ} {ids nodes : List ℕ} {filter : LearnFilter}
    {oldBuffers : Map ℕ FilterPtrs}
    (hs : ackLoop s.stale b ids s.filter s.oldBuffers = some (nodes, filter, oldBuffers)) :
    FilterInv { s with filter, oldBuffers } (H.record (.acked nodes)) := by
  induction ids generalizing s H nodes with
  | nil =>
    cases hs
    simpa [record] using h
  | cons id ids ih =>
    unfold LearnList.ackLoop at hs
    simp only [Option.bind_eq_bind, Option.bind_eq_some_iff, Prod.exists] at hs
    obtain ⟨node, filter₁, oldBuffers₁, hone, nodes', filter₂, oldBuffers₂, hrest, he⟩ := hs
    cases he
    have hinv := ih (h.ackSample hone) hrest
    rw [record_acked_acked] at hinv
    exact hinv

theorem FilterInv.ack (h : FilterInv s H) {b : ℕ} {ids nodes : List ℕ}
    (hs : s.ack b ids = some (nodes, s')) : FilterInv s' (H.record (.acked nodes)) := by
  unfold LearnList.ack at hs
  split at hs
  · cases hs
    simpa [record] using h
  · obtain ⟨⟨nodes', filter, oldBuffers⟩, hloop, he⟩ := Option.map_eq_some_iff.mp hs
    cases he
    exact h.ackLoop hloop

/-- A buffer that has as many samples in the filter as there are has them all. -/
theorem FilterInv.mem_of_count_eq (h : FilterInv s H) {b : ℕ} {p : FilterPtrs}
    (hp : s.oldBuffers.lookup b = some p) (heq : p.unackedCount = s.filter.length) :
    ∀ n ∈ s.filter, n.1 ∈ p.buffer := by
  have hsub : p.buffer.filter (fun node => node ∉ H.acked) ⊆ s.filter.map Prod.fst := by
    intro node hnode
    obtain ⟨hmem, hnew⟩ := List.mem_filter.mp hnode
    obtain ⟨a, ha, rfl, -⟩ := h.stored b p hp node hmem
    exact List.mem_map.mpr (h.live_iff.mpr ⟨h.node_lt ha, by simpa using hnew⟩)
  have hlen : (s.filter.map Prod.fst).length ≤
      (p.buffer.filter fun node => node ∉ H.acked).length := by
    rw [List.length_map, ← heq, (h.count b p hp).1, List.countP_eq_length_filter]
  have hperm := (((h.nodup b p hp).filter _).subperm hsub).perm_of_length_le hlen
  intro n hn
  have hmem := hperm.mem_iff.mpr (List.mem_map_of_mem hn)
  exact (List.mem_filter.mp hmem).1

/-- Nodes without repetitions leave the filter that much shorter. -/
theorem length_filter_nodes {filter : LearnFilter} (hnd : (filter.map Prod.fst).Nodup)
    {nodes : List ℕ} (hnodes : nodes.Nodup) (hmem : ∀ node ∈ nodes, ∃ n ∈ filter, n.1 = node) :
    (filter.filter fun n => n.1 ∉ nodes).length + nodes.length = filter.length := by
  induction nodes generalizing filter with
  | nil => simp
  | cons node nodes ih =>
    obtain ⟨hnot, hnodes⟩ := List.nodup_cons.mp hnodes
    have hone := length_filter_node hnd (hmem node List.mem_cons_self)
    have hmem' : ∀ node' ∈ nodes, ∃ n ∈ filter.filter (fun n => n.1 ≠ node), n.1 = node' := by
      intro node' hnode'
      obtain ⟨n, hn, rfl⟩ := hmem node' (List.mem_cons_of_mem _ hnode')
      exact ⟨n, List.mem_filter.mpr ⟨hn, decide_eq_true fun heq => hnot (heq ▸ hnode')⟩, rfl⟩
    have hrest := ih (hnd.sublist (List.filter_sublist.map _)) hnodes hmem'
    have hsplit : (filter.filter fun n => n.1 ∉ node :: nodes) =
        (filter.filter fun n => n.1 ≠ node).filter fun n => n.1 ∉ nodes := by
      rw [List.filter_filter]
      exact List.filter_congr fun n _ => by simp [Bool.and_comm]
    rw [hsplit, List.length_cons]
    omega

theorem FilterInv.ackBuffer (h : FilterInv s H) {b : ℕ} {nodes : List ℕ}
    (hs : s.ackBuffer b = some (nodes, s')) : FilterInv s' (H.record (.acked nodes)) := by
  unfold LearnList.ackBuffer at hs
  split at hs
  · cases hs
    simpa [record] using h
  · rename_i p hp
    obtain ⟨filter, hfilter, he⟩ := Option.map_eq_some_iff.mp hs
    cases he
    -- either way the nodes of the buffer are what leaves the filter
    have hout : filter = s.filter.filter (fun n => n.1 ∉ p.buffer) ∧
        filter.length + p.unackedCount = s.filter.length := by
      split_ifs at hfilter with hfast
      · cases hfilter
        have hall := h.mem_of_count_eq hp hfast
        refine ⟨(List.filter_eq_nil_iff.mpr fun n hn => ?_).symm, by simpa using hfast⟩
        simpa using hall n hn
      · obtain ⟨hnd, hlive, rfl⟩ := LearnFilter.eraseNodes_eq_some.mp hfilter
        have hcount : p.unackedCount = p.buffer.length := by
          rw [(h.count b p hp).1, List.countP_eq_length]
          intro node hnode
          exact decide_eq_true (h.live_iff.mp (hlive node hnode).2).2
        rw [hcount]
        exact ⟨rfl, length_filter_nodes h.filter_nodes_nodup hnd fun node hnode =>
          (hlive node hnode).2⟩
    obtain ⟨hfil, hlen⟩ := hout
    have hrec : ∀ b' p', (s.oldBuffers.erase b).lookup b' = some p' →
        b' ≠ b ∧ s.oldBuffers.lookup b' = some p' := by
      intro b' p' hp'
      rw [lookup_erase] at hp'
      split_ifs at hp' with hb
      exact ⟨hb, hp'⟩
    refine ⟨⟨?_, ?_, ?_⟩, h.nodes, ?_, ?_, ?_, ?_⟩
    · rw [outstanding_acked, ← h.filter_eq]
      exact hfil
    · rw [hfil]
      exact h.samples.sublist (List.filter_sublist.map _)
    · have htotal := h.total_eq
      have := total_erase (f := FilterPtrs.unackedCount) (m := s.oldBuffers) (k := b)
      rw [hp, Option.map_some, Option.getD_some] at this
      simp only
      omega
    · intro n hn
      obtain hn | hn := List.mem_append.mp hn
      · exact h.acked n hn
      · obtain ⟨a, ha, rfl, -⟩ := h.stored b p hp n hn
        exact h.node_lt ha
    · intro b' p' hp'
      exact h.nodup b' p' (hrec b' p' hp').2
    · intro b' p' hp'
      exact h.stored b' p' (hrec b' p' hp').2
    · intro b' p' hp'
      obtain ⟨hne, hp''⟩ := hrec b' p' hp'
      obtain ⟨hcount', hpos'⟩ := h.count b' p' hp''
      exact ⟨hcount'.trans (countP_acked_other fun n hn => h.disjoint hp hp'' hne hn).symm, hpos'⟩

/-- The record of the buffer that is being filled, which may not exist yet. -/
def currentPtrs (s : LearnList) : FilterPtrs := (s.oldBuffers.lookup s.bufferId).getD default

/-- What the invariant says of a record holds of the current one even before it exists. -/
theorem FilterInv.currentPtrs (h : FilterInv s H) :
    s.currentPtrs.buffer.Nodup ∧
      (∀ node ∈ s.currentPtrs.buffer, ∃ a ∈ H.accepted, a.node = node ∧ a.bufferId = s.bufferId) ∧
      s.currentPtrs.unackedCount = s.currentPtrs.buffer.countP fun node => node ∉ H.acked := by
  unfold LearnList.currentPtrs
  cases hp : s.oldBuffers.lookup s.bufferId with
  | none =>
    refine ⟨List.nodup_nil, fun node hnode => ?_, rfl⟩
    cases hnode
  | some p => exact ⟨h.nodup _ p hp, h.stored _ p hp, (h.count _ p hp).1⟩

/-- Storing a sample that the filter does not have keeps the invariant. -/
theorem FilterInv.store (h : FilterInv s H) {sample : List Byte}
    (hnew : ¬ ∃ n ∈ s.filter, n.2 = sample) :
    FilterInv (s.store sample) (H.record (.accepted s.bufferId s.nextNode sample)) := by
  have hfresh : s.nextNode ∉ H.acked := fun hin => lt_irrefl _ (h.acked _ hin)
  obtain ⟨hnd, hstored, hcount⟩ := h.currentPtrs
  have hold : (s.store sample).oldBuffers = s.oldBuffers.insert s.bufferId
      ⟨s.currentPtrs.unackedCount + 1, s.currentPtrs.buffer ++ [s.nextNode]⟩ := rfl
  -- the records after the step: the one of the current buffer grows, the others stay
  have hrec : ∀ b p, (s.store sample).oldBuffers.lookup b = some p →
      (b = s.bufferId ∧ p = ⟨s.currentPtrs.unackedCount + 1,
          s.currentPtrs.buffer ++ [s.nextNode]⟩) ∨
        (b ≠ s.bufferId ∧ s.oldBuffers.lookup b = some p) := by
    intro b p hp
    rw [hold, lookup_insert] at hp
    split_ifs at hp with hb
    · exact .inl ⟨hb, (Option.some.inj hp).symm⟩
    · exact .inr ⟨hb, hp⟩
  refine ⟨⟨?_, ?_, ?_⟩, ?_, ?_, ?_, ?_, ?_⟩
  · rw [outstanding_accepted hfresh, ← h.filter_eq]
    rfl
  · simp only [LearnList.store, List.map_append]
    refine h.samples.append (List.nodup_singleton _) ?_
    intro x hx hx'
    obtain ⟨n, hn, rfl⟩ := List.mem_map.mp hx
    exact hnew ⟨n, hn, List.mem_singleton.mp hx'⟩
  · have htotal := h.total_eq
    have hins := total_insert (f := FilterPtrs.unackedCount) (m := s.oldBuffers) (k := s.bufferId)
      ⟨s.currentPtrs.unackedCount + 1, s.currentPtrs.buffer ++ [s.nextNode]⟩
    have hcur : ((s.oldBuffers.lookup s.bufferId).map FilterPtrs.unackedCount).getD 0 =
        s.currentPtrs.unackedCount := by
      unfold LearnList.currentPtrs
      cases s.oldBuffers.lookup s.bufferId <;> rfl
    rw [hcur, ← hold] at hins
    have hlen : (s.store sample).filter.length = s.filter.length + 1 := List.length_append
    simp only at hins
    omega
  · simp [LearnList.store, record, h.nodes, List.range_succ]
  · intro node hnode
    exact (h.acked node hnode).trans (Nat.lt_succ_self _)
  · intro b p hp
    obtain ⟨-, rfl⟩ | ⟨-, hp⟩ := hrec b p hp
    · refine hnd.append (List.nodup_singleton _) ?_
      intro node hnode hnode'
      obtain ⟨a, ha, hn, -⟩ := hstored node hnode
      have := h.node_lt ha
      rw [hn, List.mem_singleton.mp hnode'] at this
      exact lt_irrefl _ this
    · exact h.nodup b p hp
  · intro b p hp node hnode
    obtain ⟨rfl, rfl⟩ | ⟨-, hp⟩ := hrec b p hp
    · obtain hnode | hnode := List.mem_append.mp hnode
      · obtain ⟨a, ha, hn, hb⟩ := hstored node hnode
        exact ⟨a, List.mem_append_left _ ha, hn, hb⟩
      · exact ⟨_, List.mem_append_right _ List.mem_cons_self,
          (List.mem_singleton.mp hnode).symm, rfl⟩
    · obtain ⟨a, ha, hn, hb⟩ := h.stored b p hp node hnode
      exact ⟨a, List.mem_append_left _ ha, hn, hb⟩
  · intro b p hp
    obtain ⟨rfl, rfl⟩ | ⟨-, hp⟩ := hrec b p hp
    · refine ⟨?_, Nat.succ_pos _⟩
      change _ = (s.currentPtrs.buffer ++ [s.nextNode]).countP fun node => node ∉ H.acked
      rw [List.countP_append, ← hcount, List.countP_singleton, if_pos (decide_eq_true hfresh)]
    · exact h.count b p hp

theorem FilterInv.of_frame (h : FilterInv s H) {H' : LearnHistory} (hf : s'.filter = s.filter)
    (hn : s'.nextNode = s.nextNode) (ho : s'.oldBuffers = s.oldBuffers)
    (ha : H'.accepted = H.accepted) (hk : H'.acked = H.acked) : FilterInv s' H' := by
  obtain ⟨⟨h1, h2, h3⟩, h4, h5, h6, h7, h8⟩ := h
  refine ⟨⟨?_, ?_, ?_⟩, ?_, ?_, ?_, ?_, ?_⟩
  · rw [hf, h1, outstanding, outstanding, ha, hk]
  · rw [hf]
    exact h2
  · rw [hf, ho]
    exact h3
  · rw [ha, hn]
    exact h4
  · rw [hk, hn]
    exact h5
  · rw [ho]
    exact h6
  · rw [ho, ha]
    exact h7
  · rw [ho, hk]
    exact h8

/-- The steps that neither accept nor acknowledge leave the filter and its records. -/
theorem setLearnMode_stores (i : ℕ) (mode : LearnMode) :
    (s.setLearnMode i mode).filter = s.filter ∧ (s.setLearnMode i mode).nextNode = s.nextNode ∧
      (s.setLearnMode i mode).oldBuffers = s.oldBuffers := by
  unfold LearnList.setLearnMode
  split_ifs
  · exact ⟨rfl, rfl, rfl⟩
  · exact ⟨rfl, rfl, rfl⟩

theorem FilterInv.addSample (h : FilterInv s H) (i : ℕ) (sample : List Byte) (now : ℕ) :
    FilterInv (s.addSample i sample now).2 (H.record (s.addSample i sample now).1) := by
  obtain ⟨-, hquiet⟩ | ⟨hnew, hevent, hf, hn, ho⟩ := addSample_cases (s := s) i sample now
  · rw [hquiet]
    exact h
  · rw [hevent]
    exact (h.store hnew).of_frame hf hn ho rfl rfl

theorem FilterInv.setMaxSamples (h : FilterInv s H) (i nbSamples : ℕ) :
    FilterInv (s.setMaxSamples i nbSamples) H := by
  unfold LearnList.setMaxSamples
  simp only
  split_ifs
  · obtain ⟨hf, hn, ho⟩ := processFullBuffer_stores (s := { s with maxSamples := nbSamples }) i
    exact h.of_frame hf hn ho rfl rfl
  · exact h.of_frame rfl rfl rfl rfl rfl

theorem FilterInv.transmitCheck (h : FilterInv s H) (now : ℕ) :
    FilterInv (s.transmitCheck now) H := by
  unfold LearnList.transmitCheck
  split_ifs
  · exact h
  · exact h.of_frame rfl rfl rfl rfl rfl
  · exact h.of_frame rfl rfl rfl rfl rfl

theorem FilterInv.sendMsg (h : FilterInv s H) (hdr : MsgHdr) :
    FilterInv (s.sendMsg hdr).2 (H.record (s.sendMsg hdr).1) := by
  unfold LearnList.sendMsg
  cases s.learnMode with
  | none => exact h.of_frame rfl rfl rfl rfl rfl
  | writer => exact h.of_frame rfl rfl rfl rfl rfl
  | cb => exact h.of_frame rfl rfl rfl rfl rfl

theorem FilterInv.step (h : FilterInv s H) {op : Op} {e : LearnEvent}
    (hs : s.step op = some (e, s')) : FilterInv s' (H.record e) := by
  cases steps_of_step hs with
  | addSample => exact h.addSample _ _ _
  | setMaxSamples => exact h.setMaxSamples _ _
  | setTimeout => exact h.of_frame rfl rfl rfl rfl rfl
  | @setLearnWriter i =>
    obtain ⟨hf, hn, ho⟩ := setLearnMode_stores (s := s) i .writer
    exact h.of_frame hf hn ho rfl rfl
  | @setLearnCb i =>
    obtain ⟨hf, hn, ho⟩ := setLearnMode_stores (s := s) i .cb
    exact h.of_frame hf hn ho rfl rfl
  | @resumeSwap i =>
    obtain ⟨hf, hn, ho⟩ := processFullBuffer_stores (s := s) i
    exact h.of_frame hf hn ho rfl rfl
  | @resumeWriter i mode =>
    obtain ⟨hf, hn, ho⟩ := setLearnMode_stores (s := s) i mode
    exact h.of_frame hf hn ho rfl rfl
  | ack hack => exact h.ack hack
  | ackBuffer hack => exact h.ackBuffer hack
  | transmitCheck => exact h.transmitCheck _
  | buildHeader => exact h.of_frame rfl rfl rfl rfl rfl
  | sendMsg => exact h.sendMsg _
  | finishTransmit => exact h.of_frame rfl rfl rfl rfl rfl

theorem FilterInv.create (rehashes : ℕ → Bool) (builder : LearnSampleBuilder)
    (maxSamples timeout : ℕ) (learnMode : LearnMode) (nbThreads : ℕ) :
    FilterInv (create rehashes builder maxSamples timeout learnMode nbThreads) {} := by
  refine ⟨⟨rfl, List.nodup_nil, rfl⟩, rfl, ?_, ?_, ?_, ?_⟩
  · intro node hnode
    cases hnode
  · intro b p hp
    cases hp
  · intro b p hp
    cases hp
  · intro b p hp
    cases hp

theorem FilterInv.run {rehashes : ℕ → Bool} {builder : LearnSampleBuilder}
    {maxSamples timeout nbThreads : ℕ} {learnMode : LearnMode}
    {ok : LearnList × LearnHistory → Op → Prop}
    (hrun : Transition.Reach observed ok
      (LearnList.create rehashes builder maxSamples timeout learnMode nbThreads, {}) (s, H)) :
    FilterInv s H := by
  refine hrun.invariant (fun s => FilterInv s.1 s.2)
    (FilterInv.create rehashes builder maxSamples timeout learnMode nbThreads) ?_
  rintro ⟨s, H⟩ op e ⟨s', H'⟩ h - hs
  obtain ⟨⟨e', t⟩, hstep, he⟩ := Option.map_eq_some_iff.mp hs
  cases he
  exact h.step hstep

theorem erasable_filter {node node' : ℕ} {oldBuffers : Map ℕ FilterPtrs} :
    Erasable { s with filter := s.filter.filter (fun n => n.1 ≠ node), oldBuffers } node' ↔
      s.Erasable node' ∧ node' ≠ node := by
  unfold Erasable Live
  simp only [List.mem_filter, decide_eq_true_eq]
  constructor
  · rintro ⟨hvalid, n, ⟨hn, hne⟩, rfl⟩
    exact ⟨⟨hvalid, n, hn, rfl⟩, hne⟩
  · rintro ⟨⟨hvalid, n, hn, rfl⟩, hne⟩
    exact ⟨hvalid, n, ⟨hn, hne⟩, rfl⟩

/-- A sample that is still in the filter can be acknowledged. -/
theorem ackSample_of_erasable {b id node : ℕ} {p : FilterPtrs}
    (hp : s.oldBuffers.lookup b = some p) (hnode : p.buffer[id]? = some node)
    (hlive : s.Erasable node) : ∃ oldBuffers, ackSample s.stale b id s.filter s.oldBuffers =
      some (node, s.filter.filter (fun n => n.1 ≠ node), oldBuffers) := by
  have herase : s.filter.eraseNode s.stale node = some (s.filter.filter fun n => n.1 ≠ node) :=
    if_pos hlive
  unfold LearnList.ackSample
  simp only [hp, hnode, herase, Option.bind_eq_bind, Option.bind_some]
  exact ⟨_, rfl⟩

/-- The record keeps its vector, and stays while another of its samples is in the filter. -/
theorem FilterInv.ackSample_record (h : FilterInv s H) {b id node : ℕ} {p : FilterPtrs}
    {filter : LearnFilter} {oldBuffers : Map ℕ FilterPtrs} (hp : s.oldBuffers.lookup b = some p)
    (hs : LearnList.ackSample s.stale b id s.filter s.oldBuffers =
      some (node, filter, oldBuffers)) :
    (∀ p', oldBuffers.lookup b = some p' → p'.buffer = p.buffer) ∧
      ∀ node' ∈ p.buffer, s.Live node' → node' ≠ node → (oldBuffers.lookup b).isSome := by
  obtain ⟨p', hp', hnode, ⟨-, hlive⟩, -, rfl⟩ := ackSample_eq_some hs
  obtain rfl : p = p' := Option.some.inj (hp.symm.trans hp')
  split_ifs with hz
  · refine ⟨fun p' hp' => ?_, fun node' hnode' hlive' hne => ?_⟩
    · rw [lookup_erase, if_pos rfl] at hp'
      cases hp'
    -- a second sample is left, so that the count does not reach zero
    · have hdown := countP_acked (h.nodup b p hp) (List.mem_of_getElem? hnode)
        (h.live_iff.mp hlive).2
      have hzero : p.buffer.countP (fun n => n ∉ H.acked ++ [node]) = 0 := by
        have := (h.count b p hp).1
        omega
      have hnot := List.countP_eq_zero.mp hzero node' hnode'
      have hnew := (h.live_iff.mp hlive').2
      simp [hnew, hne] at hnot
  · rw [lookup_insert, if_pos rfl]
    refine ⟨fun p' hp' => ?_, fun _ _ _ _ => rfl⟩
    cases hp'
    rfl

theorem ackLoop_cons_isSome {stale : ℕ → Bool} {b id : ℕ} {ids : List ℕ} {filter : LearnFilter}
    {oldBuffers : Map ℕ FilterPtrs} :
    (ackLoop stale b (id :: ids) filter oldBuffers).isSome ↔
      ∃ node filter' oldBuffers', ackSample stale b id filter oldBuffers =
        some (node, filter', oldBuffers') ∧ (ackLoop stale b ids filter' oldBuffers').isSome := by
  rw [ackLoop]
  cases ackSample stale b id filter oldBuffers with
  | none => simp
  | some r =>
    obtain ⟨node, filter', oldBuffers'⟩ := r
    cases hrest : ackLoop stale b ids filter' oldBuffers' <;> simp [hrest]

/-- The samples that a list of ids names can be acknowledged exactly if each is named once, is
still in the filter and has an iterator that is valid. -/
theorem FilterInv.ackLoop_isSome (h : FilterInv s H) {b : ℕ} {p : FilterPtrs} {ids : List ℕ}
    (hp : s.oldBuffers.lookup b = some p) (hrange : ∀ id ∈ ids, id < p.buffer.length) :
    (LearnList.ackLoop s.stale b ids s.filter s.oldBuffers).isSome ↔
      ids.Nodup ∧ ∀ id ∈ ids, ∀ node, p.buffer[id]? = some node → s.Erasable node := by
  induction ids generalizing s H p with
  | nil => simp [LearnList.ackLoop]
  | cons id ids ih =>
    obtain ⟨node, hnode⟩ : ∃ node, p.buffer[id]? = some node :=
      ⟨_, List.getElem?_eq_getElem (hrange id List.mem_cons_self)⟩
    have hrange' : ∀ id ∈ ids, id < p.buffer.length := fun id hid =>
      hrange id (List.mem_cons_of_mem _ hid)
    rw [ackLoop_cons_isSome]
    constructor
    · rintro ⟨n, filter, oldBuffers, hone, hrest⟩
      have hinv := h.ackSample hone
      obtain ⟨hsame, -⟩ := h.ackSample_record hp hone
      obtain ⟨p', hp', hnode', hlive, rfl, -⟩ := ackSample_eq_some hone
      obtain rfl : p = p' := Option.some.inj (hp.symm.trans hp')
      obtain rfl : node = n := Option.some.inj (hnode.symm.trans hnode')
      have hnext : ids.Nodup ∧ ∀ id ∈ ids, ∀ node', p.buffer[id]? = some node' →
          s.Erasable node' ∧ node' ≠ node := by
        cases ids with
        | nil => simp
        | cons id' ids =>
          obtain ⟨_, _, _, hone', -⟩ := ackLoop_cons_isSome.mp hrest
          obtain ⟨p', hp', -⟩ := ackSample_eq_some hone'
          have hbuf := hsame p' hp'
          obtain ⟨hnd, hall⟩ := (ih hinv hp' (hbuf ▸ hrange')).mp hrest
          exact ⟨hnd, fun id hid node' hn => erasable_filter.mp (hall id hid node' (hbuf ▸ hn))⟩
      refine ⟨List.nodup_cons.mpr ⟨fun hin => (hnext.2 id hin node hnode).2 rfl, hnext.1⟩, ?_⟩
      intro id' hid' node' hn
      obtain rfl | hid' := List.mem_cons.mp hid'
      · rw [← Option.some.inj (hnode.symm.trans hn)]
        exact hlive
      · exact (hnext.2 id' hid' node' hn).1
    · rintro ⟨hnd, hall⟩
      obtain ⟨hnot, hnd⟩ := List.nodup_cons.mp hnd
      obtain ⟨oldBuffers, hone⟩ := ackSample_of_erasable hp hnode
        (hall id List.mem_cons_self node hnode)
      refine ⟨node, _, oldBuffers, hone, ?_⟩
      have hother : ∀ id' ∈ ids, ∀ node', p.buffer[id']? = some node' →
          s.Erasable node' ∧ node' ≠ node := by
        intro id' hid' node' hn
        refine ⟨hall id' (List.mem_cons_of_mem _ hid') node' hn, fun heq => hnot ?_⟩
        rw [heq, ← hnode] at hn
        rwa [← (List.getElem?_inj (hrange' id' hid') (h.nodup b p hp)).mp hn]
      cases ids with
      | nil => rfl
      | cons id' ids =>
        have hn' := List.getElem?_eq_getElem (hrange' id' List.mem_cons_self)
        obtain ⟨hlive', hne⟩ := hother id' List.mem_cons_self _ hn'
        obtain ⟨hsame, hkeep⟩ := h.ackSample_record hp hone
        obtain ⟨p', hp'⟩ := Option.isSome_iff_exists.mp
          (hkeep _ (List.mem_of_getElem? hn') hlive'.2 hne)
        have hbuf := hsame p' hp'
        refine (ih (h.ackSample hone) hp' (hbuf ▸ hrange')).mpr ⟨hnd, fun id hid node' hn => ?_⟩
        exact erasable_filter.mpr (hother id hid node' (hbuf ▸ hn))

/-- An acknowledgement with ids in range is defined exactly if it names no sample again. -/
theorem FilterInv.ack_isSome (h : FilterInv s H) {b : ℕ} {ids : List ℕ}
    (hrange : s.InRange (.ack b ids)) : (s.step (.ack b ids)).isSome ↔ s.AckOk (.ack b ids) := by
  have hstep : (s.step (.ack b ids)).isSome = (s.ack b ids).isSome := Option.isSome_map
  rw [hstep]
  simp only [LearnList.ack, AckOk]
  cases hp : s.oldBuffers.lookup b with
  | none => simp
  | some p =>
    have hloop := h.ackLoop_isSome hp (hrange p hp)
    simp only [Option.isSome_map, hloop, Option.some.injEq, forall_eq']

theorem FilterInv.ackBuffer_isSome (h : FilterInv s H) {b : ℕ} :
    (s.step (.ackBuffer b)).isSome ↔ s.AckOk (.ackBuffer b) := by
  have hstep : (s.step (.ackBuffer b)).isSome = (s.ackBuffer b).isSome := Option.isSome_map
  rw [hstep]
  simp only [LearnList.ackBuffer, AckOk]
  cases hp : s.oldBuffers.lookup b with
  | none => simp
  | some p =>
    have hslow : (p.buffer.foldlM (LearnFilter.eraseNode s.stale) s.filter).isSome ↔
        ∀ node ∈ p.buffer, s.Erasable node := by
      rw [Option.isSome_iff_exists]
      constructor
      · rintro ⟨filter, hf⟩
        exact (LearnFilter.eraseNodes_eq_some.mp hf).2.1
      · intro hlive
        exact ⟨_, LearnFilter.eraseNodes_eq_some.mpr ⟨h.nodup b p hp, hlive, rfl⟩⟩
    simp only [Option.isSome_map, Option.some.injEq, forall_eq']
    split_ifs with hfast
    · simp [hfast]
    · simp only [hfast, false_or]
      exact hslow

/-- A buffer whose samples are all acknowledged has no record any more. -/
theorem FilterInv.lookup_none (h : FilterInv s H) {b : ℕ}
    (hall : ∀ a ∈ H.accepted, a.bufferId = b → a.node ∈ H.acked) :
    s.oldBuffers.lookup b = none := by
  cases hp : s.oldBuffers.lookup b with
  | none => rfl
  | some p =>
    obtain ⟨hcount, hpos⟩ := h.count b p hp
    obtain ⟨node, hnode, hnew⟩ := List.countP_pos_iff.mp (hcount ▸ hpos)
    obtain ⟨a, ha, rfl, hb⟩ := h.stored b p hp node hnode
    exact absurd (hall a ha hb) (by simpa using hnew)

end LearnList

open LearnList in
/-- In every run, whichever insertions make the filter rehash, it is the samples accepted and not
acknowledged, and the counters of the records add up to its size. An acknowledgement is defined
exactly if it acknowledges no sample again through a record and none whose iterator a rehash has
made invalid; a buffer that is done has none, and its acknowledgements do nothing. -/
theorem learning_acknowledged (rehashes : ℕ → Bool) (builder : LearnSampleBuilder)
    (maxSamples timeout : ℕ) (learnMode : LearnMode) (nbThreads : ℕ) (s : LearnList)
    (H : LearnHistory)
    (hrun : Transition.Reach observed (fun s op => s.1.InRange op ∧ s.1.AckOk op)
      (create rehashes builder maxSamples timeout learnMode nbThreads, {}) (s, H)) :
    Acknowledged s H ∧
    (∀ b ids, s.InRange (.ack b ids) →
      ((s.step (.ack b ids)).isSome ↔ s.AckOk (.ack b ids))) ∧
    (∀ b, (s.step (.ackBuffer b)).isSome ↔ s.AckOk (.ackBuffer b)) ∧
    ∀ b, (∀ a ∈ H.accepted, a.bufferId = b → a.node ∈ H.acked) →
      (∀ ids, s.step (.ack b ids) = some (.acked [], s)) ∧
      s.step (.ackBuffer b) = some (.acked [], s) := by
  have h := FilterInv.run hrun
  refine ⟨h.toAcknowledged, fun b ids hrange => h.ack_isSome hrange, fun b => h.ackBuffer_isSome,
    fun b hall => ?_⟩
  have hnone := h.lookup_none hall
  constructor
  · intro ids
    simp only [LearnList.step, LearnList.ack, hnone, Option.map_some]
  · simp only [LearnList.step, LearnList.ackBuffer, hnone, Option.map_some]

namespace LearnList

/-- A packet with one header of one byte. -/
def oneBytePacket (b : Byte) : PHV :=
  { headers := [{ fields := [{ nbits := 8, bytes := [b] }], nbytesPacket := 1 }] }

/-- Three samples learned in buffers of two, and the first of them acknowledged. -/
def ackedFirst : LearnList × LearnHistory :=
  ({ create (fun _ => false) { entries := [.field 0 0] } 2 0 .writer 1 with
      buffer := [9]
      bufferId := 1
      numSamples := 1
      filter := [(1, [8]), (2, [9])]
      nextNode := 3
      oldBuffers := ((∅ : Map ℕ FilterPtrs).insert 1 ⟨1, [2]⟩).insert 0 ⟨1, [0, 1]⟩
      bufferTmp := [7, 8]
      numSamplesTmp := 2 },
    { accepted := [⟨0, 0, [7]⟩, ⟨0, 1, [8]⟩, ⟨1, 2, [9]⟩], acked := [0] })

theorem reach_ackedFirst : Transition.Reach observed (fun s op => s.1.InRange op ∧ s.1.AckOk op)
    (create (fun _ => false) { entries := [.field 0 0] } 2 0 .writer 1, {}) ackedFirst := by
  refine .tail (a := .ack 0 [0]) (.tail (a := .addSample 0 (oneBytePacket 9) 0)
    (.tail (a := .addSample 0 (oneBytePacket 8) 0) (.tail (a := .addSample 0 (oneBytePacket 7) 0)
      .refl ⟨trivial, trivial⟩ rfl) ⟨trivial, trivial⟩ rfl) ⟨trivial, trivial⟩ rfl) ⟨?_, ?_⟩ rfl
  · intro p hp id hid
    cases hp
    obtain rfl := List.mem_singleton.mp hid
    decide
  · intro p hp
    cases hp
    refine ⟨List.nodup_singleton 0, fun id hid node hnode => ?_⟩
    obtain rfl := List.mem_singleton.mp hid
    cases hnode
    exact ⟨rfl, _, List.mem_cons_self, rfl⟩

end LearnList

open LearnList in
/-- The second sample of the buffer can still be acknowledged, the first not again. -/
theorem learning_acknowledged_first : Acknowledged ackedFirst.1 ackedFirst.2 ∧
    (ackedFirst.1.step (.ack 0 [1])).isSome ∧ ¬ (ackedFirst.1.step (.ack 0 [0])).isSome := by
  obtain ⟨hack, hids, -, -⟩ := learning_acknowledged _ _ _ _ _ _ _ _ reach_ackedFirst
  have hrange : ∀ ids : List ℕ, (∀ id ∈ ids, id < 2) → ackedFirst.1.InRange (.ack 0 ids) := by
    intro ids hids p hp
    cases hp
    exact hids
  refine ⟨hack, (hids 0 [1] (hrange _ (by decide))).mpr ?_, fun hsome => ?_⟩
  · intro p hp
    cases hp
    refine ⟨List.nodup_singleton 1, fun id hid node hnode => ?_⟩
    obtain rfl := List.mem_singleton.mp hid
    cases hnode
    exact ⟨rfl, _, List.mem_cons_self, rfl⟩
  · have hok := (hids 0 [0] (hrange _ (by decide))).mp hsome
    obtain ⟨-, n, hn, heq⟩ := (hok _ rfl).2 0 List.mem_cons_self 0 rfl
    revert n
    decide

open LearnList in
/-- Once the first sample of a buffer is acknowledged, acknowledging it again, naming another
twice or acknowledging the whole buffer erases through an iterator of the filter that is gone. -/
theorem learning_acks_again :
    Transition.Reach observed (fun s op => s.1.InRange op)
      (create (fun _ => false) { entries := [.field 0 0] } 2 0 .writer 1, {}) ackedFirst ∧
    0 ∈ ackedFirst.2.acked ∧
    ackedFirst.1.oldBuffers.lookup 0 = some ⟨1, [0, 1]⟩ ∧ ¬ ackedFirst.1.Live 0 ∧
    ackedFirst.1.step (.ack 0 [0]) = none ∧ ackedFirst.1.step (.ack 0 [1, 1]) = none ∧
    ackedFirst.1.step (.ackBuffer 0) = none := by
  refine ⟨reach_ackedFirst.map id id (fun _ _ h => h.1) fun _ _ _ _ hs => hs,
    List.mem_cons_self, rfl, ?_, rfl, rfl, rfl⟩
  rintro ⟨n, hn, heq⟩
  revert n
  decide

end Bmv2
