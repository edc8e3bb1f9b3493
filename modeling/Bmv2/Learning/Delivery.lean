import Bmv2.Learning.LearnList

/-! What the learning threads deliver: the payloads given to the writer, the filled buffer and
the current buffer are all the accepted samples in order, and every header tells what its
payload is. Counts and lengths are cast to 32 bits on the way out. -/
namespace Bmv2
open ByteBits

namespace LearnHistory

variable (H : LearnHistory)

/-- The samples whose filter pointers were stored under a buffer id. -/
def samplesOf (bufferId : ℕ) : List (List Byte) :=
  (H.accepted.filter fun a => a.bufferId = bufferId).map AcceptedSample.sample

/-- All samples accepted so far, one after the other. -/
def acceptedBytes : List Byte := (H.accepted.map AcceptedSample.sample).flatten

/-- All that was given to the writer so far. -/
def payloads : List Byte := (H.messages.map LearnMsg.samples).flatten

/-- The bytes and the number of the samples stored under a buffer id. -/
def Holds (bufferId : ℕ) (bytes : List Byte) (numSamples : ℕ) : Prop :=
  bytes = (H.samplesOf bufferId).flatten ∧ numSamples = (H.samplesOf bufferId).length

variable {H}

theorem samplesOf_accepted (b node : ℕ) (sample : List Byte) (bufferId : ℕ) :
    (H.record (.accepted b node sample)).samplesOf bufferId =
      if b = bufferId then H.samplesOf bufferId ++ [sample] else H.samplesOf bufferId := by
  unfold samplesOf record
  split_ifs with h <;> simp [h]

theorem Holds.accepted_ne {b bufferId : ℕ} {bytes : List Byte} {numSamples : ℕ}
    (h : H.Holds bufferId bytes numSamples) (hne : b ≠ bufferId) (node : ℕ)
    (sample : List Byte) :
    (H.record (.accepted b node sample)).Holds bufferId bytes numSamples := by
  unfold Holds
  rw [samplesOf_accepted, if_neg hne]
  exact h

theorem Holds.accepted_eq {bufferId : ℕ} {bytes : List Byte} {numSamples : ℕ}
    (h : H.Holds bufferId bytes numSamples) (node : ℕ) (sample : List Byte) :
    (H.record (.accepted bufferId node sample)).Holds bufferId (bytes ++ sample)
      (numSamples + 1) := by
  unfold Holds
  rw [samplesOf_accepted, if_pos rfl, h.1, h.2]
  simp

end LearnHistory

namespace LearnList

open LearnHistory

variable {s s' : LearnList} {H : LearnHistory}

/-- The filled buffer as long as it was not given away. -/
def unsent (s : LearnList) : List Byte := if s.transmit = .sent then [] else s.bufferTmp

/-- Nothing is lost, doubled or reordered, and every message is the samples of its buffer. -/
structure Delivered (s : LearnList) (H : LearnHistory) : Prop where
  concat : H.payloads ++ s.unsent ++ s.buffer = H.acceptedBytes
  messages : ∀ m ∈ H.messages, H.Holds m.hdr.bufferId m.samples m.hdr.numSamples

/-- The samples have bytes. -/
def Sampled (s : LearnList) : Op → Prop
  | .addSample _ phv _ => s.builder.sample phv ≠ some []
  | _ => True

/-- A buffer that is given away has less than 2^32 samples, and less than 2^32 bytes if it goes
to a writer. -/
def SendOk (s : LearnList) : Op → Prop
  | .sendMsg => s.numSamplesTmp < 2 ^ 32 ∧ (s.learnMode = .writer → s.bufferTmp.length < 2 ^ 32)
  | _ => True

/-- What the transmit thread carries outside the mutex is what it found under it. -/
def InTransit (s : LearnList) : Prop :=
  match s.transmit with
  | .waits => True
  | .sends numSamplesToSend => s.bufferTmp ≠ [] ∧ numSamplesToSend = s.numSamplesTmp
  | .built hdr => s.bufferTmp ≠ [] ∧
      hdr = { bufferId := s.bufferId - 1, numSamples := s.numSamplesTmp % 2 ^ 32 }
  | .sent => s.bufferTmp ≠ []

/-- The invariant of the two buffers. -/
structure Delivery (s : LearnList) (H : LearnHistory) : Prop extends Delivered s H where
  keys : ∀ a ∈ H.accepted, a.bufferId ≤ s.bufferId
  nonempty : ∀ a ∈ H.accepted, a.sample ≠ []
  current : H.Holds s.bufferId s.buffer s.numSamples
  filled : s.bufferTmp ≠ [] → 0 < s.bufferId ∧
    H.Holds (s.bufferId - 1) s.bufferTmp s.numSamplesTmp
  inTransit : s.InTransit
  old : ∀ m ∈ H.messages, m.hdr.bufferId < s.bufferId
  mode : s.learnMode ≠ .none
  modes : ∀ mode, LearnThread.waitsWriter mode ∈ s.threads → mode ≠ .none

/-- The buffer has bytes as soon as it has a sample. -/
theorem Delivery.buffer_ne_nil (h : Delivery s H) (hpos : s.numSamples ≠ 0) : s.buffer ≠ [] := by
  obtain ⟨hb, hn⟩ := h.current
  intro hnil
  rw [hnil] at hb
  have hall := List.flatten_eq_nil_iff.mp hb.symm
  obtain ⟨x, hx⟩ := List.exists_mem_of_length_pos (Nat.pos_of_ne_zero (hn ▸ hpos))
  obtain ⟨a, ha, rfl⟩ := List.mem_map.mp hx
  exact h.nonempty a (List.mem_of_mem_filter ha) (hall _ hx)

theorem Delivery.of_threads (h : Delivery s H) {threads : List LearnThread}
    (hm : ∀ mode, LearnThread.waitsWriter mode ∈ threads → mode ≠ .none) :
    Delivery { s with threads } H :=
  { h with modes := hm }

theorem Delivery.setThread (h : Delivery s H) (i : ℕ) {t : LearnThread}
    (ht : ∀ mode, t = .waitsWriter mode → mode ≠ .none) :
    Delivery { s with threads := s.threads.set i t } H := by
  refine h.of_threads fun mode hmem => ?_
  obtain hmem | heq := List.mem_or_eq_of_mem_set hmem
  · exact h.modes mode hmem
  · exact ht mode heq.symm

/-- The buffers are swapped while the other one is empty, so that nobody is sending. -/
theorem Delivery.swapBuffers (h : Delivery s H) (hnil : s.bufferTmp = []) :
    Delivery s.swapBuffers H := by
  have hwaits : s.transmit = .waits := by
    have hin := h.inTransit
    unfold InTransit at hin
    split at hin
    · assumption
    · exact absurd hnil hin.1
    · exact absurd hnil hin.1
    · exact absurd hnil hin
  have hnone : H.samplesOf (s.bufferId + 1) = [] := by
    refine List.map_eq_nil_iff.mpr (List.filter_eq_nil_iff.mpr fun a ha => ?_)
    have := h.keys a ha
    simp only [decide_eq_true_eq]
    omega
  refine ⟨⟨?_, h.messages⟩, ?_, h.nonempty, ?_, ?_, ?_, ?_, h.mode, h.modes⟩
  · have hconcat := h.concat
    simp only [unsent, hwaits, hnil] at hconcat
    simpa [unsent, LearnList.swapBuffers, hwaits, hnil] using hconcat
  · intro a ha
    exact (h.keys a ha).trans (Nat.le_succ _)
  · unfold Holds LearnList.swapBuffers
    rw [hnone]
    exact ⟨hnil, rfl⟩
  · intro _
    exact ⟨Nat.succ_pos _, h.current⟩
  · unfold InTransit LearnList.swapBuffers
    rw [hwaits]
    trivial
  · intro m hm
    exact (h.old m hm).trans (Nat.lt_succ_self _)

theorem Delivery.processFullBuffer (h : Delivery s H) (i : ℕ) :
    Delivery (s.processFullBuffer i) H := by
  unfold LearnList.processFullBuffer
  split_ifs with htmp
  · exact h.setThread i fun _ he => by cases he
  · exact (h.swapBuffers (by simpa using htmp)).setThread i fun _ he => by cases he

theorem Delivery.store (h : Delivery s H) {sample : List Byte} (hne : sample ≠ []) :
    Delivery (s.store sample) (H.record (.accepted s.bufferId s.nextNode sample)) := by
  refine ⟨⟨?_, ?_⟩, ?_, ?_, h.current.accepted_eq _ _, ?_, h.inTransit, h.old, h.mode, h.modes⟩
  · have haccepted : (H.record (.accepted s.bufferId s.nextNode sample)).acceptedBytes =
        H.acceptedBytes ++ sample := by
      simp [acceptedBytes, record]
    rw [haccepted, ← h.concat]
    exact (List.append_assoc _ _ _).symm
  · intro m hm
    exact (h.messages m hm).accepted_ne (h.old m hm).ne' _ _
  · intro a ha
    obtain ha | ha := List.mem_append.mp ha
    · exact h.keys a ha
    · obtain rfl := List.mem_singleton.mp ha
      exact le_rfl
  · intro a ha
    obtain ha | ha := List.mem_append.mp ha
    · exact h.nonempty a ha
    · obtain rfl := List.mem_singleton.mp ha
      exact hne
  · intro htmp
    obtain ⟨hpos, hholds⟩ := h.filled htmp
    exact ⟨hpos, hholds.accepted_ne (Nat.sub_lt hpos one_pos).ne' _ _⟩

theorem Delivery.addSample (h : Delivery s H) (i now : ℕ) {sample : List Byte}
    (hne : sample ≠ []) :
    Delivery (s.addSample i sample now).2 (H.record (s.addSample i sample now).1) := by
  unfold LearnList.addSample
  split_ifs with hfilter
  · exact h
  · have hstore := h.store hne
    simp only
    split_ifs
    · exact { hstore with }
    · exact hstore.processFullBuffer i
    · exact hstore

theorem Delivery.setMaxSamples (h : Delivery s H) (i nbSamples : ℕ) :
    Delivery (s.setMaxSamples i nbSamples) H := by
  have hmax : Delivery { s with maxSamples := nbSamples } H := { h with }
  unfold LearnList.setMaxSamples
  simp only
  split_ifs
  · exact hmax.processFullBuffer i
  · exact hmax

theorem Delivery.setLearnMode (h : Delivery s H) (i : ℕ) {mode : LearnMode}
    (hmode : mode ≠ .none) : Delivery (s.setLearnMode i mode) H := by
  unfold LearnList.setLearnMode
  split_ifs
  · exact h.setThread i fun _ he => by cases he; exact hmode
  · have hset : Delivery { s with learnMode := mode } H := { h with mode := hmode }
    exact hset.setThread i fun _ he => by cases he

/-- The transmit thread leaves its loop with a filled buffer in its hands. -/
theorem Delivery.transmitCheck (h : Delivery s H) (hw : s.transmit = .waits) (now : ℕ) :
    Delivery (s.transmitCheck now) H := by
  have hconcat := h.concat
  unfold LearnList.transmitCheck
  split_ifs with hwait htmp
  · exact h
  · have hnil : s.bufferTmp = [] := by simpa using htmp
    have hpos : s.numSamples ≠ 0 := fun hz => hwait ⟨htmp, .inr (.inl hz)⟩
    have hswap := h.swapBuffers hnil
    refine { hswap with inTransit := ⟨h.buffer_ne_nil hpos, rfl⟩, concat := ?_ }
    have hc := hswap.concat
    simpa [unsent, LearnList.swapBuffers, hw] using hc
  · refine { h with inTransit := ⟨?_, rfl⟩, concat := ?_ }
    · simpa [unsent, hw] using hconcat
    · simpa using htmp

theorem Delivery.buildHeader (h : Delivery s H) {numSamplesToSend : ℕ}
    (hs : s.transmit = .sends numSamplesToSend) :
    Delivery (s.buildHeader numSamplesToSend) H := by
  have hconcat := h.concat
  have hin := h.inTransit
  unfold InTransit at hin
  rw [hs] at hin
  refine { h with inTransit := ⟨hin.1, ?_⟩, concat := ?_ }
  · simpa [unsent, LearnList.buildHeader, hs] using hconcat
  · rw [hin.2]
    rfl

/-- What reaches the writer or the callback of the filled buffer. -/
def payload (s : LearnList) : List Byte :=
  if s.learnMode = .writer then s.bufferTmp.take (s.bufferTmp.length % 2 ^ 32) else s.bufferTmp

theorem sendMsg_event (hmode : s.learnMode ≠ .none) (hdr : MsgHdr) :
    (s.sendMsg hdr).1 = .message ⟨hdr, s.payload⟩ := by
  unfold LearnList.sendMsg payload
  cases h : s.learnMode with
  | none => exact absurd h hmode
  | writer => rfl
  | cb => rfl

theorem payload_eq (hlen : s.learnMode = .writer → s.bufferTmp.length < 2 ^ 32) :
    s.payload = s.bufferTmp := by
  unfold payload
  split_ifs with hw
  · rw [Nat.mod_eq_of_lt (hlen hw), List.take_length]
  · rfl

/-- What is sent is the filled buffer, under the id and with the count it was filled with. -/
theorem Delivery.sendMsg (h : Delivery s H) {hdr : MsgHdr} (hs : s.transmit = .built hdr)
    (hok : s.SendOk .sendMsg) :
    Delivery (s.sendMsg hdr).2 (H.record (s.sendMsg hdr).1) := by
  obtain ⟨hnum, hlen⟩ := hok
  have hconcat := h.concat
  have hin := h.inTransit
  unfold InTransit at hin
  rw [hs] at hin
  obtain ⟨htmp, rfl⟩ := hin
  obtain ⟨hpos, hholds⟩ := h.filled htmp
  rw [Nat.mod_eq_of_lt hnum]
  rw [sendMsg_event h.mode, payload_eq hlen]
  refine { h with inTransit := htmp, concat := ?_, messages := ?_, old := ?_ }
  · simp only [unsent, hs] at hconcat
    simpa [unsent, LearnList.sendMsg, record, payloads, acceptedBytes] using hconcat
  · intro m hm
    obtain hm | hm := List.mem_append.mp hm
    · exact h.messages m hm
    · obtain rfl := List.mem_singleton.mp hm
      exact hholds
  · intro m hm
    obtain hm | hm := List.mem_append.mp hm
    · exact h.old m hm
    · obtain rfl := List.mem_singleton.mp hm
      exact Nat.sub_lt hpos one_pos

theorem Delivery.finishTransmit (h : Delivery s H) (hs : s.transmit = .sent) :
    Delivery s.finishTransmit H := by
  have hconcat := h.concat
  refine { h with inTransit := trivial, concat := ?_, filled := fun hne => absurd rfl hne }
  simpa [unsent, LearnList.finishTransmit, hs] using hconcat

/-- Acknowledgements do not touch the buffers. -/
theorem Delivery.of_frame (h : Delivery s H)
    (hf : s' = { s with filter := s'.filter, oldBuffers := s'.oldBuffers }) (nodes : List ℕ) :
    Delivery s' (H.record (.acked nodes)) := by
  rw [hf]
  exact { h with }

theorem Delivery.step (h : Delivery s H) {op : Op} (hsampled : s.Sampled op) (hok : s.SendOk op)
    {e : LearnEvent} (hs : s.step op = some (e, s')) : Delivery s' (H.record e) := by
  cases steps_of_step hs with
  | @addSample i now phv sample hidle hsample =>
    exact h.addSample i now fun hnil => hsampled (hnil ▸ hsample)
  | setMaxSamples => exact h.setMaxSamples _ _
  | setTimeout => exact { h with }
  | setLearnWriter => exact h.setLearnMode _ (by decide)
  | setLearnCb => exact h.setLearnMode _ (by decide)
  | resumeSwap => exact h.processFullBuffer _
  | resumeWriter hwaits => exact h.setLearnMode _ (h.modes _ (List.mem_of_getElem? hwaits))
  | @ack bufferId sampleIds nodes s' hack => exact h.of_frame (ack_frame hack) nodes
  | @ackBuffer bufferId nodes s' hack => exact h.of_frame (ackBuffer_frame hack) nodes
  | transmitCheck hwaits => exact h.transmitCheck hwaits _
  | buildHeader hsends => exact h.buildHeader hsends
  | sendMsg hbuilt => exact h.sendMsg hbuilt hok
  | finishTransmit hsent => exact h.finishTransmit hsent

theorem Delivery.create (rehashes : ℕ → Bool) (builder : LearnSampleBuilder)
    (maxSamples timeout : ℕ) {learnMode : LearnMode} (hmode : learnMode ≠ .none) (nbThreads : ℕ) :
    Delivery (create rehashes builder maxSamples timeout learnMode nbThreads) {} := by
  refine ⟨⟨rfl, ?_⟩, ?_, ?_, ⟨rfl, rfl⟩, fun hne => absurd rfl hne, trivial, ?_, hmode, ?_⟩
  · intro m hm
    cases hm
  · intro a ha
    cases ha
  · intro a ha
    cases ha
  · intro m hm
    cases hm
  · intro mode hmem
    cases List.eq_of_mem_replicate hmem

theorem Delivery.run {rehashes : ℕ → Bool} {builder : LearnSampleBuilder}
    {maxSamples timeout nbThreads : ℕ} {learnMode : LearnMode} (hmode : learnMode ≠ .none)
    (hrun : Transition.Reach observed (fun s op => s.1.Sampled op ∧ s.1.SendOk op)
      (LearnList.create rehashes builder maxSamples timeout learnMode nbThreads, {}) (s, H)) :
    Delivery s H := by
  refine hrun.invariant (fun s => Delivery s.1 s.2)
    (Delivery.create rehashes builder maxSamples timeout hmode nbThreads) ?_
  rintro ⟨s, H⟩ op e ⟨s', H'⟩ h ⟨hsampled, hok⟩ hs
  obtain ⟨⟨e', t⟩, hstep, he⟩ := Option.map_eq_some_iff.mp hs
  cases he
  exact h.step hsampled hok hstep

/-- A message that is what its header tells had fitted into the 32-bit counters. -/
theorem Delivery.sendOk (h : Delivery s H) {e : LearnEvent}
    (hs : s.step .sendMsg = some (e, s')) (hd : Delivered s' (H.record e)) :
    s.SendOk .sendMsg := by
  cases steps_of_step hs with
  | sendMsg hbuilt =>
    rw [sendMsg_event h.mode] at hd
    have hin := h.inTransit
    unfold InTransit at hin
    rw [hbuilt] at hin
    obtain ⟨htmp, rfl⟩ := hin
    obtain ⟨-, hbytes, hnum⟩ := h.filled htmp
    obtain ⟨hbytes', hnum'⟩ := hd.messages _ (List.mem_append_right _ List.mem_cons_self)
    have hnum32 : s.numSamplesTmp % 2 ^ 32 = s.numSamplesTmp := hnum'.trans hnum.symm
    have hpayload : s.payload = s.bufferTmp := hbytes'.trans hbytes.symm
    refine ⟨?_, fun hw => ?_⟩
    · rw [← hnum32]
      exact Nat.mod_lt _ (by decide)
    · unfold payload at hpayload
      rw [if_pos hw] at hpayload
      have hlen := congrArg List.length hpayload
      have hlt := Nat.mod_lt s.bufferTmp.length (show 0 < 2 ^ 32 by decide)
      rw [List.length_take] at hlen
      omega

/-- An accepted sample is stored in the filter, and its pointer last under its buffer id. -/
theorem stored_of_accepted {op : Op} {bufferId node : ℕ} {sample : List Byte}
    (hs : s.step op = some (.accepted bufferId node sample, s')) :
    (node, sample) ∈ s'.filter ∧ ∃ filterPtrs, s'.oldBuffers.lookup bufferId = some filterPtrs ∧
      filterPtrs.buffer.getLast? = some node := by
  generalize he : LearnEvent.accepted bufferId node sample = e at hs
  cases steps_of_step hs with
  | @addSample i now phv sample' =>
    obtain ⟨-, hquiet⟩ | ⟨-, hacc, hfilter, -, hold⟩ := addSample_cases (s := s) i sample' now
    · rw [hquiet] at he
      cases he
    · rw [hacc] at he
      cases he
      rw [hfilter, hold]
      refine ⟨List.mem_append_right _ List.mem_cons_self, _,
        (UnorderedMap.lookup_modify _ _ _ _).trans (if_pos rfl), ?_⟩
      exact List.getLast?_concat
  | sendMsg =>
    unfold LearnList.sendMsg at he
    simp only at he
    split at he <;> cases he
  | _ => cases he

/-- A list that learns one byte at a time and transmits when it has `max` samples. -/
def oneByteList (max : ℕ) : LearnList :=
  create (fun _ => false) { entries := [.constant 0], constants := [[7]] } max 0 .writer 1

theorem sampled_oneByte (hb : s.builder = (oneByteList 1).builder) :
    s.Sampled (.addSample 0 {} 0) := by
  unfold Sampled
  rw [hb]
  intro h
  cases h

/-- The list after `n` samples, each acknowledged at once. -/
def afterAcked (max n : ℕ) : LearnList :=
  { oneByteList max with buffer := List.replicate n 7, numSamples := n, nextNode := n }

def historyAcked (n : ℕ) : LearnHistory :=
  { accepted := (List.range n).map fun k => ⟨0, k, [7]⟩, acked := List.range n }

theorem step_add_afterAcked {max n : ℕ} (hn : n + 1 < max) :
    (afterAcked max n).step (.addSample 0 {} 0) =
      some (.accepted 0 n [7], (afterAcked max n).store [7]) := by
  change some ((afterAcked max n).addSample 0 [7] 0) = _
  have hlt : ¬ max ≤ n + 1 := by omega
  simp [LearnList.addSample, LearnList.store, afterAcked, oneByteList, create, hlt]

theorem step_ack_store {max n : ℕ} :
    ((afterAcked max n).store [7]).step (.ackBuffer 0) =
      some (.acked [n], afterAcked max (n + 1)) := by
  have hb : List.replicate (n + 1) (7 : Byte) = List.replicate n 7 ++ [7] :=
    List.replicate_succ'
  simp only [LearnList.step, afterAcked, hb]
  rfl

/-- Samples can be learned and acknowledged until the buffer is full. -/
theorem reach_afterAcked {max : ℕ} : ∀ n, n < max →
    Transition.Reach observed (fun s op => s.1.Sampled op ∧ s.1.SendOk op) (oneByteList max, {})
      (afterAcked max n, historyAcked n)
  | 0, _ => .refl
  | n + 1, hn => by
    have hrun := reach_afterAcked n (by omega : n < max)
    have hadd := hrun.tail ⟨sampled_oneByte rfl, trivial⟩ (observed_eq (step_add_afterAcked hn))
    have hall := hadd.tail (a := Op.ackBuffer 0) ⟨trivial, trivial⟩ (observed_eq step_ack_store)
    have hhist : historyAcked (n + 1) =
        ((historyAcked n).record (.accepted 0 n [7])).record (.acked [n]) := by
      simp [historyAcked, record, List.range_succ]
    rw [hhist]
    exact hall

/-- The list with a full buffer of `n + 1` samples in the hands of the transmit thread. -/
def afterFilled (n : ℕ) : LearnList :=
  { (afterAcked (n + 1) n).store [7] with
    buffer := []
    numSamples := 0
    bufferId := 1
    bufferTmp := List.replicate n 7 ++ [7]
    numSamplesTmp := n + 1
    writerBusy := true
    transmit := .built ⟨0, (n + 1) % 2 ^ 32⟩ }

theorem step_add_full {n : ℕ} (hn : 0 < n) :
    (afterAcked (n + 1) n).step (.addSample 0 {} 0) =
      some (.accepted 0 n [7],
        { afterFilled n with writerBusy := false, transmit := .waits }) := by
  change some ((afterAcked (n + 1) n).addSample 0 [7] 0) = _
  simp [LearnList.addSample, LearnList.store, LearnList.processFullBuffer, LearnList.swapBuffers,
    afterFilled, afterAcked, oneByteList, create, hn.ne']

/-- A buffer of any size can be filled and be on its way. -/
theorem reach_afterFilled {n : ℕ} (hn : 0 < n) :
    Transition.Reach observed (fun s op => s.1.Sampled op ∧ s.1.SendOk op)
      (oneByteList (n + 1), {})
      (afterFilled n, (historyAcked n).record (.accepted 0 n [7])) := by
  have hadd := (reach_afterAcked n (Nat.lt_succ_self n)).tail ⟨sampled_oneByte rfl, trivial⟩
    (observed_eq (step_add_full hn))
  have hcheck : ({ afterFilled n with writerBusy := false, transmit := .waits } : LearnList).step
      (.transmitCheck 0) = some (.quiet, { afterFilled n with transmit := .sends (n + 1) }) := by
    simp [LearnList.step, LearnList.transmitCheck, afterFilled]
  have hbuild : ({ afterFilled n with transmit := .sends (n + 1) } : LearnList).step
      .buildHeader = some (.quiet, afterFilled n) := rfl
  exact (hadd.tail (a := Op.transmitCheck 0) ⟨trivial, trivial⟩ (observed_eq hcheck)).tail
    (a := Op.buildHeader) ⟨trivial, trivial⟩ (observed_eq hbuild)

end LearnList

open LearnList in
/-- As long as the buffers given away fit into the 32-bit counters, the learning thread delivers
every accepted sample once and in order, under the right buffer id and count; one that does not
fit is not delivered. A sample is stored under the buffer id it is accepted with. -/
theorem learning_delivery (rehashes : ℕ → Bool) (builder : LearnSampleBuilder)
    (maxSamples timeout : ℕ) (learnMode : LearnMode) (hmode : learnMode ≠ .none) (nbThreads : ℕ) :
    (∀ s H, Transition.Reach observed (fun s op => s.1.Sampled op ∧ s.1.SendOk op)
        (create rehashes builder maxSamples timeout learnMode nbThreads, {}) (s, H) →
      Delivered s H ∧
      ∀ e s', s.step .sendMsg = some (e, s') → ¬ s.SendOk .sendMsg →
        ¬ Delivered s' (H.record e)) ∧
    ∀ (s s' : LearnList) op bufferId node sample,
      s.step op = some (.accepted bufferId node sample, s') →
      (node, sample) ∈ s'.filter ∧ ∃ filterPtrs, s'.oldBuffers.lookup bufferId = some filterPtrs ∧
        filterPtrs.buffer.getLast? = some node := by
  refine ⟨fun s H hrun => ?_, fun s s' op bufferId node sample hs => stored_of_accepted hs⟩
  have hinv := Delivery.run hmode hrun
  exact ⟨hinv.toDelivered, fun e s' hs hok hd => hok (hinv.sendOk hs hd)⟩

open LearnList in
/-- One sample goes all the way to the writer. -/
theorem learning_delivery_one_sample : ∃ s H,
    Transition.Reach observed (fun s op => s.1.Sampled op ∧ s.1.SendOk op)
      (oneByteList 1, {}) (s, H) ∧
    H.messages = [⟨⟨0, 1⟩, [7]⟩] ∧ Delivered s H := by
  have hrun : Transition.Reach observed (fun s op => s.1.Sampled op ∧ s.1.SendOk op)
      (oneByteList 1, {}) _ :=
    .tail (a := .sendMsg) (.tail (a := .buildHeader) (.tail (a := .transmitCheck 0)
      (.tail (a := .addSample 0 {} 0) .refl ⟨sampled_oneByte rfl, trivial⟩ rfl)
      ⟨trivial, trivial⟩ rfl) ⟨trivial, trivial⟩ rfl) ⟨trivial, by decide, fun _ => by decide⟩ rfl
  exact ⟨_, _, hrun, rfl, ((learning_delivery _ _ 1 0 .writer (by decide) 1).1 _ _ hrun).1⟩

open LearnList in
/-- A buffer of 2^32 samples is sent as an empty message with a count of zero. -/
theorem learning_delivery_overflows : ∃ s H,
    Transition.Reach observed (fun s op => s.1.Sampled op) (oneByteList (2 ^ 32), {}) (s, H) ∧
    H.messages = [⟨⟨0, 0⟩, []⟩] ∧ H.accepted.length = 2 ^ 32 ∧ ¬ Delivered s H := by
  obtain ⟨n, hn⟩ : ∃ n, n + 1 = 2 ^ 32 := ⟨2 ^ 32 - 1, rfl⟩
  have hpos : 0 < n := by omega
  have hrun := reach_afterFilled hpos
  have hdel := Delivery.run (by decide) hrun
  have hmod : (n + 1) % 2 ^ 32 = 0 := by rw [hn, Nat.mod_self]
  have hpayload : (afterFilled n).payload = [] := by
    have hlen : (afterFilled n).bufferTmp.length = n + 1 := by simp [afterFilled]
    have hwriter : (afterFilled n).learnMode = .writer := rfl
    unfold payload
    rw [if_pos hwriter, hlen, hmod, List.take_zero]
  have hsend : (afterFilled n).step .sendMsg = some (.message ⟨⟨0, 0⟩, []⟩,
      ((afterFilled n).sendMsg ⟨0, 0⟩).2) := by
    have hevent := sendMsg_event hdel.mode ⟨0, 0⟩
    rw [hpayload] at hevent
    have hbuilt : (afterFilled n).transmit = .built ⟨0, 0⟩ :=
      congrArg (fun k => TransmitThread.built ⟨0, k⟩) hmod
    rw [← hevent]
    unfold LearnList.step
    simp only [hbuilt]
  have hrun' : Transition.Reach observed (fun s op => s.1.Sampled op) (oneByteList (2 ^ 32), {})
      (afterFilled n, (historyAcked n).record (.accepted 0 n [7])) := by
    rw [← hn]
    exact hrun.map id id (fun _ _ h => h.1) fun _ _ _ _ hs => hs
  refine ⟨_, _, hrun'.tail (a := Op.sendMsg) trivial (observed_eq hsend), rfl, ?_, fun hd => ?_⟩
  · simp [historyAcked, LearnHistory.record, hn]
  · have hok := (hdel.sendOk hsend hd).1
    change n + 1 < 2 ^ 32 at hok
    omega

end Bmv2
