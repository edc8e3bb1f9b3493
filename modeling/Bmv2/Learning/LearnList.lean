import Bmv2.Lib.Transition
import Bmv2.Lib.UnorderedMap
import Bmv2.Packet.Phv

/-! `LearnEngine::LearnList` of `learning.cpp` with the threads that call it. A step is what a
thread does from taking the mutex to releasing it, or a piece of what the transmit thread does
without the mutex. A wait is a release: a thread in a wait may check its condition again at any
time. The destructor and `reset_state` are left out. -/
namespace Bmv2
open ByteBits UnorderedMap

inductive LearnSampleEntry where
  | field (header offset : ℕ)
  | constant (offset : ℕ)

structure LearnSampleBuilder where
  entries : List LearnSampleEntry := []
  constants : List (List Byte) := []

namespace LearnSampleBuilder

def entryBytes (builder : LearnSampleBuilder) (phv : PHV) : LearnSampleEntry → Option (List Byte)
  | .field header offset => (phv.getField header offset).map Field.bytes
  | .constant offset => builder.constants[offset]?

/-- `operator()`. -/
def sample (builder : LearnSampleBuilder) (phv : PHV) : Option (List Byte) :=
  (builder.entries.mapM (builder.entryBytes phv)).map List.flatten

end LearnSampleBuilder

/-- The set of samples learned and not acknowledged, each in a node of its own. -/
abbrev LearnFilter := List (ℕ × List Byte)

namespace LearnFilter

/-- `erase` through an iterator, which is undefined for a node that is gone and for an iterator
that a rehash has made invalid. -/
def eraseNode (stale : ℕ → Bool) (filter : LearnFilter) (node : ℕ) : Option LearnFilter :=
  if stale node = false ∧ ∃ n ∈ filter, n.1 = node then some (filter.filter fun n => n.1 ≠ node)
  else none

variable {stale : ℕ → Bool} {filter filter' : LearnFilter}

theorem eraseNode_eq_some {node : ℕ} (h : eraseNode stale filter node = some filter') :
    (stale node = false ∧ ∃ n ∈ filter, n.1 = node) ∧
      filter' = filter.filter fun n => n.1 ≠ node := by
  unfold eraseNode at h
  split_ifs at h with hmem
  cases h
  exact ⟨hmem, rfl⟩

/-- Nodes can be erased one by one if and only if each is there, with an iterator that is valid,
and comes once. -/
theorem eraseNodes_eq_some {nodes : List ℕ} :
    nodes.foldlM (eraseNode stale) filter = some filter' ↔
      nodes.Nodup ∧ (∀ node ∈ nodes, stale node = false ∧ ∃ n ∈ filter, n.1 = node) ∧
        filter' = filter.filter fun n => n.1 ∉ nodes := by
  induction nodes generalizing filter with
  | nil =>
    have hfilter : (filter.filter fun n => n.1 ∉ ([] : List ℕ)) = filter := by simp
    rw [hfilter]
    constructor
    · intro h
      exact ⟨List.nodup_nil, fun _ hn => absurd hn List.not_mem_nil, (Option.some.inj h).symm⟩
    · rintro ⟨-, -, rfl⟩
      rfl
  | cons node nodes ih =>
    rw [List.foldlM_cons, Option.bind_eq_bind, Option.bind_eq_some_iff]
    constructor
    · rintro ⟨t, ht, hrest⟩
      obtain ⟨hmem, rfl⟩ := eraseNode_eq_some ht
      obtain ⟨hnodup, hall, rfl⟩ := ih.mp hrest
      simp only [List.mem_filter, decide_eq_true_eq] at hall
      refine ⟨List.nodup_cons.mpr ⟨fun hin => ?_, hnodup⟩, ?_, ?_⟩
      · obtain ⟨-, n, ⟨-, hne⟩, heq⟩ := hall node hin
        exact hne heq
      · intro node' hnode'
        obtain rfl | hin := List.mem_cons.mp hnode'
        · exact hmem
        · obtain ⟨hvalid, n, ⟨hn, -⟩, heq⟩ := hall node' hin
          exact ⟨hvalid, n, hn, heq⟩
      · simp [List.filter_filter, Bool.and_comm]
    · rintro ⟨hnodup, hall, rfl⟩
      obtain ⟨hnot, hnodup⟩ := List.nodup_cons.mp hnodup
      refine ⟨_, if_pos (hall node List.mem_cons_self), ih.mpr ⟨hnodup, fun node' hin => ?_, ?_⟩⟩
      · obtain ⟨hvalid, n, hn, rfl⟩ := hall node' (List.mem_cons_of_mem _ hin)
        refine ⟨hvalid, n, List.mem_filter.mpr ⟨hn, ?_⟩, rfl⟩
        exact decide_eq_true fun heq => hnot (heq ▸ hin)
      · simp [List.filter_filter, Bool.and_comm]

end LearnFilter

/-- The samples of one buffer in the filter; an iterator is the id of the node it points to. -/
structure FilterPtrs where
  unackedCount : ℕ := 0
  buffer : List ℕ := []
  deriving Inhabited, DecidableEq

inductive LearnMode where
  | none | writer | cb
  deriving DecidableEq

/-- The variable fields of `msg_hdr_t`. -/
structure MsgHdr where
  bufferId : ℕ
  numSamples : ℕ
  deriving DecidableEq

/-- What the writer or the callback is given. -/
structure LearnMsg where
  hdr : MsgHdr
  samples : List Byte
  deriving DecidableEq

/-- Where a caller stands: outside, in the wait of `process_full_buffer`, or in the wait of
`set_learn_writer` and `set_learn_cb`. -/
inductive LearnThread where
  | idle
  | waitsSwap
  | waitsWriter (mode : LearnMode)
  deriving DecidableEq

/-- Where the transmit thread stands in `buffer_transmit`: in the loop that waits, past its
unlock, with the header built, or with the message given away. -/
inductive TransmitThread where
  | waits
  | sends (numSamplesToSend : ℕ)
  | built (hdr : MsgHdr)
  | sent
  deriving DecidableEq

/-- A list of samples to learn. Which insertions make the filter rehash is up to the library. -/
structure LearnList where
  rehashes : ℕ → Bool
  builder : LearnSampleBuilder := {}
  buffer : List Byte := []
  bufferId : ℕ := 0
  numSamples : ℕ := 0
  maxSamples : ℕ
  bufferStarted : ℕ := 0
  timeout : ℕ
  withTimeout : Bool := decide (timeout > 0)
  filter : LearnFilter := []
  nextNode : ℕ := 0
  oldBuffers : Map ℕ FilterPtrs := ∅
  bufferTmp : List Byte := []
  numSamplesTmp : ℕ := 0
  learnMode : LearnMode := .none
  writerBusy : Bool := false
  transmit : TransmitThread := .waits
  threads : List LearnThread

/-- What a step shows: a sample accepted as a node of the filter and stored under a buffer id,
nodes acknowledged, or a message given to the writer. -/
inductive LearnEvent where
  | quiet
  | accepted (bufferId node : ℕ) (sample : List Byte)
  | acked (nodes : List ℕ)
  | message (msg : LearnMsg)

namespace LearnList

variable (s : LearnList)

/-- The filter has rehashed since the node was inserted, so that its iterator is invalid. -/
def stale (node : ℕ) : Bool :=
  (List.range s.nextNode).any fun later => node < later ∧ s.rehashes later

def setTimeout (timeoutMs : ℕ) : LearnList :=
  { s with timeout := timeoutMs, withTimeout := decide (timeoutMs > 0) }

def swapBuffers : LearnList :=
  { s with
    bufferTmp := s.buffer
    buffer := s.bufferTmp
    numSamplesTmp := s.numSamples
    numSamples := 0
    bufferId := s.bufferId + 1 }

/-- `process_full_buffer` of thread `i`, up to its wait if there is one. -/
def processFullBuffer (i : ℕ) : LearnList :=
  if s.bufferTmp.length ≠ 0 then { s with threads := s.threads.set i .waitsSwap }
  else { s.swapBuffers with threads := s.threads.set i .idle }

def setMaxSamples (i nbSamples : ℕ) : LearnList :=
  let s := { s with maxSamples := nbSamples }
  if s.numSamples > 0 ∧ s.numSamples ≥ s.maxSamples then s.processFullBuffer i else s

/-- What `add_sample` stores for a sample that the filter does not have. -/
def store (sample : List Byte) : LearnList :=
  { s with
    buffer := s.buffer ++ sample
    numSamples := s.numSamples + 1
    filter := s.filter ++ [(s.nextNode, sample)]
    nextNode := s.nextNode + 1
    oldBuffers := modify s.oldBuffers s.bufferId fun filterPtrs =>
      { filterPtrs with
        unackedCount := filterPtrs.unackedCount + 1
        buffer := filterPtrs.buffer ++ [s.nextNode] } }

def addSample (i : ℕ) (sample : List Byte) (now : ℕ) : LearnEvent × LearnList :=
  if ∃ node ∈ s.filter, node.2 = sample then (.quiet, s)
  else
    let t := s.store sample
    (.accepted s.bufferId s.nextNode sample,
      if t.numSamples = 1 ∧ t.maxSamples > 1 then { t with bufferStarted := now }
      else if t.numSamples ≥ t.maxSamples then t.processFullBuffer i
      else t)

/-- The waiting loop of `buffer_transmit` with the clock at `now`, and what follows it under
the mutex. -/
def transmitCheck (now : ℕ) : LearnList :=
  if s.bufferTmp.length = 0 ∧
      (s.withTimeout = false ∨ s.numSamples = 0 ∨ now < s.bufferStarted + s.timeout) then s
  else if s.bufferTmp.length = 0 then
    { s.swapBuffers with writerBusy := true, transmit := .sends s.numSamples }
  else { s with writerBusy := true, transmit := .sends s.numSamplesTmp }

/-- The header is filled in without the mutex; the count is cast to 32 bits. -/
def buildHeader (numSamplesToSend : ℕ) : LearnList :=
  { s with transmit :=
      .built { bufferId := s.bufferId - 1, numSamples := numSamplesToSend % 2 ^ 32 } }

/-- The message for the writer has a 32-bit length, the callback gets the whole buffer. -/
def sendMsg (hdr : MsgHdr) : LearnEvent × LearnList :=
  (match s.learnMode with
    | .writer => .message ⟨hdr, s.bufferTmp.take (s.bufferTmp.length % 2 ^ 32)⟩
    | .cb => .message ⟨hdr, s.bufferTmp⟩
    | .none => .quiet,
   { s with transmit := .sent })

def finishTransmit : LearnList :=
  { s with writerBusy := false, bufferTmp := [], transmit := .waits }

/-- The body of the loop of `ack`. It indexes the vector without a check and erases through the
iterator it finds; with the last sample the record of the buffer goes. -/
def ackSample (stale : ℕ → Bool) (bufferId sampleId : ℕ) (filter : LearnFilter)
    (oldBuffers : Map ℕ FilterPtrs) : Option (ℕ × LearnFilter × Map ℕ FilterPtrs) := do
  let filterPtrs ← oldBuffers.lookup bufferId
  let node ← filterPtrs.buffer[sampleId]?
  let filter ← filter.eraseNode stale node
  let unackedCount := filterPtrs.unackedCount - 1
  some (node, filter,
    if unackedCount = 0 then oldBuffers.erase bufferId
    else oldBuffers.insert bufferId { filterPtrs with unackedCount })

/-- The loop of `ack`; the reference it holds to the record of the buffer may dangle. -/
def ackLoop (stale : ℕ → Bool) (bufferId : ℕ) :
    List ℕ → LearnFilter → Map ℕ FilterPtrs → Option (List ℕ × LearnFilter × Map ℕ FilterPtrs)
  | [], filter, oldBuffers => some ([], filter, oldBuffers)
  | sampleId :: sampleIds, filter, oldBuffers => do
    let (node, filter, oldBuffers) ← ackSample stale bufferId sampleId filter oldBuffers
    let (nodes, filter, oldBuffers) ← ackLoop stale bufferId sampleIds filter oldBuffers
    some (node :: nodes, filter, oldBuffers)

def ack (bufferId : ℕ) (sampleIds : List ℕ) : Option (List ℕ × LearnList) :=
  match s.oldBuffers.lookup bufferId with
  | none => some ([], s)
  | some _ =>
    (ackLoop s.stale bufferId sampleIds s.filter s.oldBuffers).map
      fun (nodes, filter, oldBuffers) => (nodes, { s with filter, oldBuffers })

/-- `ack_buffer` empties the filter if no other buffer has samples in it, and erases the nodes
of the buffer one by one otherwise. -/
def ackBuffer (bufferId : ℕ) : Option (List ℕ × LearnList) :=
  match s.oldBuffers.lookup bufferId with
  | none => some ([], s)
  | some filterPtrs =>
    (if filterPtrs.unackedCount = s.filter.length then some []
      else filterPtrs.buffer.foldlM (LearnFilter.eraseNode s.stale) s.filter).map fun filter =>
        (filterPtrs.buffer, { s with filter, oldBuffers := s.oldBuffers.erase bufferId })

/-- `set_learn_writer` and `set_learn_cb` of thread `i`. -/
def setLearnMode (i : ℕ) (mode : LearnMode) : LearnList :=
  if s.writerBusy then { s with threads := s.threads.set i (.waitsWriter mode) }
  else { s with learnMode := mode, threads := s.threads.set i .idle }

inductive Op where
  | addSample (i : ℕ) (phv : PHV) (now : ℕ)
  | setMaxSamples (i nbSamples : ℕ)
  | setTimeout (timeoutMs : ℕ)
  | setLearnWriter (i : ℕ)
  | setLearnCb (i : ℕ)
  | resume (i : ℕ)
  | ack (bufferId : ℕ) (sampleIds : List ℕ)
  | ackBuffer (bufferId : ℕ)
  | transmitCheck (now : ℕ)
  | buildHeader
  | sendMsg
  | finishTransmit

/-- One step of one thread; `none` where it is not enabled or undefined. -/
def step : Op → Option (LearnEvent × LearnList)
  | .addSample i phv now =>
    match s.threads[i]?, s.builder.sample phv with
    | some .idle, some sample => some (s.addSample i sample now)
    | _, _ => none
  | .setMaxSamples i nbSamples =>
    match s.threads[i]? with
    | some .idle => some (.quiet, s.setMaxSamples i nbSamples)
    | _ => none
  | .setTimeout timeoutMs => some (.quiet, s.setTimeout timeoutMs)
  | .setLearnWriter i =>
    match s.threads[i]? with
    | some .idle => some (.quiet, s.setLearnMode i .writer)
    | _ => none
  | .setLearnCb i =>
    match s.threads[i]? with
    | some .idle => some (.quiet, s.setLearnMode i .cb)
    | _ => none
  | .resume i =>
    match s.threads[i]? with
    | some .waitsSwap => some (.quiet, s.processFullBuffer i)
    | some (.waitsWriter mode) => some (.quiet, s.setLearnMode i mode)
    | _ => none
  | .ack bufferId sampleIds =>
    (s.ack bufferId sampleIds).map fun (nodes, s') => (.acked nodes, s')
  | .ackBuffer bufferId => (s.ackBuffer bufferId).map fun (nodes, s') => (.acked nodes, s')
  | .transmitCheck now =>
    match s.transmit with
    | .waits => some (.quiet, s.transmitCheck now)
    | _ => none
  | .buildHeader =>
    match s.transmit with
    | .sends numSamplesToSend => some (.quiet, s.buildHeader numSamplesToSend)
    | _ => none
  | .sendMsg =>
    match s.transmit with
    | .built hdr => some (s.sendMsg hdr)
    | _ => none
  | .finishTransmit =>
    match s.transmit with
    | .sent => some (.quiet, s.finishTransmit)
    | _ => none

/-- What each step is, with what has to be so for it. -/
inductive Steps (s : LearnList) : Op → LearnEvent → LearnList → Prop
  | addSample {i now : ℕ} {phv : PHV} {sample : List Byte} (hidle : s.threads[i]? = some .idle)
      (hsample : s.builder.sample phv = some sample) :
      Steps s (.addSample i phv now) (s.addSample i sample now).1 (s.addSample i sample now).2
  | setMaxSamples {i nbSamples : ℕ} (hidle : s.threads[i]? = some .idle) :
      Steps s (.setMaxSamples i nbSamples) .quiet (s.setMaxSamples i nbSamples)
  | setTimeout {timeoutMs : ℕ} : Steps s (.setTimeout timeoutMs) .quiet (s.setTimeout timeoutMs)
  | setLearnWriter {i : ℕ} (hidle : s.threads[i]? = some .idle) :
      Steps s (.setLearnWriter i) .quiet (s.setLearnMode i .writer)
  | setLearnCb {i : ℕ} (hidle : s.threads[i]? = some .idle) :
      Steps s (.setLearnCb i) .quiet (s.setLearnMode i .cb)
  | resumeSwap {i : ℕ} (hwaits : s.threads[i]? = some .waitsSwap) :
      Steps s (.resume i) .quiet (s.processFullBuffer i)
  | resumeWriter {i : ℕ} {mode : LearnMode} (hwaits : s.threads[i]? = some (.waitsWriter mode)) :
      Steps s (.resume i) .quiet (s.setLearnMode i mode)
  | ack {bufferId : ℕ} {sampleIds nodes : List ℕ} {s' : LearnList}
      (hack : s.ack bufferId sampleIds = some (nodes, s')) :
      Steps s (.ack bufferId sampleIds) (.acked nodes) s'
  | ackBuffer {bufferId : ℕ} {nodes : List ℕ} {s' : LearnList}
      (hack : s.ackBuffer bufferId = some (nodes, s')) :
      Steps s (.ackBuffer bufferId) (.acked nodes) s'
  | transmitCheck {now : ℕ} (hwaits : s.transmit = .waits) :
      Steps s (.transmitCheck now) .quiet (s.transmitCheck now)
  | buildHeader {numSamplesToSend : ℕ} (hsends : s.transmit = .sends numSamplesToSend) :
      Steps s .buildHeader .quiet (s.buildHeader numSamplesToSend)
  | sendMsg {hdr : MsgHdr} (hbuilt : s.transmit = .built hdr) :
      Steps s .sendMsg (s.sendMsg hdr).1 (s.sendMsg hdr).2
  | finishTransmit (hsent : s.transmit = .sent) :
      Steps s .finishTransmit .quiet s.finishTransmit

variable {s}

theorem steps_of_step {s' : LearnList} {op : Op} {e : LearnEvent} (h : s.step op = some (e, s')) :
    s.Steps op e s' := by
  cases op with
  | addSample i phv now =>
    simp only [step] at h
    split at h
    · obtain ⟨rfl, rfl⟩ := Prod.mk.inj (Option.some.inj h)
      exact .addSample ‹_› ‹_›
    · cases h
  | setMaxSamples i nbSamples =>
    simp only [step] at h
    split at h <;> cases h
    exact .setMaxSamples ‹_›
  | setTimeout timeoutMs =>
    cases h
    exact .setTimeout
  | setLearnWriter i =>
    simp only [step] at h
    split at h <;> cases h
    exact .setLearnWriter ‹_›
  | setLearnCb i =>
    simp only [step] at h
    split at h <;> cases h
    exact .setLearnCb ‹_›
  | resume i =>
    simp only [step] at h
    split at h <;> cases h
    · exact .resumeSwap ‹_›
    · exact .resumeWriter ‹_›
  | ack bufferId sampleIds =>
    obtain ⟨⟨nodes, s'⟩, hack, he⟩ := Option.map_eq_some_iff.mp h
    cases he
    exact .ack hack
  | ackBuffer bufferId =>
    obtain ⟨⟨nodes, s'⟩, hack, he⟩ := Option.map_eq_some_iff.mp h
    cases he
    exact .ackBuffer hack
  | transmitCheck now =>
    simp only [step] at h
    split at h <;> cases h
    exact .transmitCheck ‹_›
  | buildHeader =>
    simp only [step] at h
    split at h <;> cases h
    exact .buildHeader ‹_›
  | sendMsg =>
    simp only [step] at h
    split at h
    · obtain ⟨rfl, rfl⟩ := Prod.mk.inj (Option.some.inj h)
      exact .sendMsg ‹_›
    · cases h
  | finishTransmit =>
    simp only [step] at h
    split at h <;> cases h
    exact .finishTransmit ‹_›

end LearnList

/-- One sample that was accepted: where it was stored and its node. -/
structure AcceptedSample where
  bufferId : ℕ
  node : ℕ
  sample : List Byte
  deriving DecidableEq

/-- What a run has shown so far, oldest first. -/
structure LearnHistory where
  accepted : List AcceptedSample := []
  acked : List ℕ := []
  messages : List LearnMsg := []

namespace LearnHistory

def record (H : LearnHistory) : LearnEvent → LearnHistory
  | .quiet => H
  | .accepted bufferId node sample =>
    { H with accepted := H.accepted ++ [⟨bufferId, node, sample⟩] }
  | .acked nodes => { H with acked := H.acked ++ nodes }
  | .message msg => { H with messages := H.messages ++ [msg] }

end LearnHistory

namespace LearnList

/-- A step together with the history it extends. -/
def observed (s : LearnList × LearnHistory) (op : Op) :
    Option (LearnEvent × (LearnList × LearnHistory)) :=
  (s.1.step op).map fun (e, s') => (e, (s', s.2.record e))

/-- `LearnList` as constructed, with a mode and `nbThreads` threads that may call it. -/
def create (rehashes : ℕ → Bool) (builder : LearnSampleBuilder) (maxSamples timeout : ℕ)
    (learnMode : LearnMode) (nbThreads : ℕ) : LearnList where
  rehashes
  builder
  maxSamples
  timeout
  learnMode
  threads := List.replicate nbThreads .idle

variable {s s' : LearnList}

/-- The acknowledgements change the filter and the records of the buffers only. -/
theorem ack_frame {bufferId : ℕ} {sampleIds nodes : List ℕ}
    (h : s.ack bufferId sampleIds = some (nodes, s')) :
    s' = { s with filter := s'.filter, oldBuffers := s'.oldBuffers } := by
  unfold ack at h
  split at h
  · cases h
    rfl
  · obtain ⟨_, -, he⟩ := Option.map_eq_some_iff.mp h
    cases he
    rfl

theorem ackBuffer_frame {bufferId : ℕ} {nodes : List ℕ}
    (h : s.ackBuffer bufferId = some (nodes, s')) :
    s' = { s with filter := s'.filter, oldBuffers := s'.oldBuffers } := by
  unfold ackBuffer at h
  split at h
  · cases h
    rfl
  · obtain ⟨_, -, he⟩ := Option.map_eq_some_iff.mp h
    cases he
    rfl

theorem processFullBuffer_stores (i : ℕ) :
    (s.processFullBuffer i).filter = s.filter ∧
      (s.processFullBuffer i).nextNode = s.nextNode ∧
      (s.processFullBuffer i).oldBuffers = s.oldBuffers := by
  unfold processFullBuffer
  split_ifs
  · exact ⟨rfl, rfl, rfl⟩
  · exact ⟨rfl, rfl, rfl⟩

/-- `add_sample` accepts a sample that the filter does not have, and stores it. -/
theorem addSample_cases (i : ℕ) (sample : List Byte) (now : ℕ) :
    ((∃ n ∈ s.filter, n.2 = sample) ∧ s.addSample i sample now = (.quiet, s)) ∨
      (¬ (∃ n ∈ s.filter, n.2 = sample) ∧
        (s.addSample i sample now).1 = .accepted s.bufferId s.nextNode sample ∧
        (s.addSample i sample now).2.filter = (s.store sample).filter ∧
        (s.addSample i sample now).2.nextNode = (s.store sample).nextNode ∧
        (s.addSample i sample now).2.oldBuffers = (s.store sample).oldBuffers) := by
  unfold addSample
  split_ifs with hfilter
  · exact .inl ⟨hfilter, rfl⟩
  · refine .inr ⟨hfilter, rfl, ?_⟩
    simp only
    split_ifs
    · exact ⟨rfl, rfl, rfl⟩
    · exact processFullBuffer_stores i
    · exact ⟨rfl, rfl, rfl⟩

theorem observed_eq {H : LearnHistory} {op : Op} {e : LearnEvent} (hs : s.step op = some (e, s')) :
    observed (s, H) op = some (e, (s', H.record e)) := by
  simp [observed, hs]

end LearnList

end Bmv2
