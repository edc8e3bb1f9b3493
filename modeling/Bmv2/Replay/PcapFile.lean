import Mathlib.Data.Prod.Lex
import Bmv2.Lib.ByteBits
import Bmv2.Lib.HeadMerge

/-! The reader that replays capture files, from `pcap_file.cpp`. libpcap returns the records of a
file in their order, and then the end of the file. Left out: the depth of the calls, which grows
with every packet (`schedule_packet` and `timer_fired` call each other), and the reading of `len`
bytes by the handler where only `caplen` were captured. -/
namespace Bmv2
open ByteBits HeadMerge

/-- `struct timeval`. The microseconds need not be less than a million. -/
@[ext]
structure Timeval where
  sec : ℤ
  usec : ℤ
  deriving DecidableEq

namespace Timeval

/-- First by the seconds, then by the microseconds. -/
instance : LinearOrder Timeval :=
  LinearOrder.lift' (fun t => toLex (t.sec, t.usec)) fun _ _ h =>
    Timeval.ext (congrArg (·.1) (toLex.injective h)) (congrArg (·.2) (toLex.injective h))

def timerclear : Timeval := ⟨0, 0⟩

def timercmp (a b : Timeval) (cmp : ℤ → ℤ → Bool) : Bool :=
  if a.sec = b.sec then cmp a.usec b.usec else cmp a.sec b.sec

def timersub (a b : Timeval) : Timeval :=
  if a.usec - b.usec < 0 then ⟨a.sec - b.sec - 1, a.usec - b.usec + 1000000⟩
  else ⟨a.sec - b.sec, a.usec - b.usec⟩

variable {a b : Timeval}

theorem lt_iff : a < b ↔ a.sec < b.sec ∨ a.sec = b.sec ∧ a.usec < b.usec :=
  Prod.Lex.toLex_lt_toLex

theorem timercmp_lt : timercmp a b (fun x y => x < y) = true ↔ a < b := by
  rw [timercmp, lt_iff]
  split_ifs with hsec
  · simp [hsec]
  · simp [hsec]

/-- Where the microseconds are less than a million, the order is that of the times. -/
theorem lt_iff_micros (ha : 0 ≤ a.usec ∧ a.usec < 1000000) (hb : 0 ≤ b.usec ∧ b.usec < 1000000) :
    a < b ↔ a.sec * 1000000 + a.usec < b.sec * 1000000 + b.usec := by
  rw [lt_iff]
  omega

end Timeval

/-- A record of a capture file. `len` is the length of the packet on the wire, which the reader
hands on as the length of the data. -/
structure PcapRecord where
  time : Timeval
  len : ℕ
  data : List Byte
  deriving DecidableEq

structure PcapPacket where
  port : ℕ
  record : PcapRecord
  deriving DecidableEq

/-- The state of a file; while it is read, with the record that its two pointers are at. -/
inductive PcapState where
  | uninitialized
  | opened
  | reading (current : PcapRecord)
  | atEnd
  deriving DecidableEq

/-- A capture file. `pcap` has the records that libpcap has not returned. -/
structure PcapFileIn where
  port : ℕ
  pcap : List PcapRecord
  state : PcapState

namespace PcapFileIn

/-- The constructor opens the file. -/
def create (port : ℕ) (records : List PcapRecord) : PcapFileIn :=
  { port, pcap := records, state := .opened }

/-- The test for an incompletely captured packet compares a length with itself. -/
def advance (f : PcapFileIn) : Bool × PcapFileIn :=
  match f.pcap with
  | record :: pcap => (true, { f with pcap, state := .reading record })
  | [] => (false, { f with state := .atEnd })

def moveNext (f : PcapFileIn) : Except String (Bool × PcapFileIn) :=
  match f.state with
  | .atEnd => .ok (false, f)
  | .opened => .ok f.advance
  | .reading _ => .ok f.advance
  | .uninitialized => .error "Unexpected state"

def current (f : PcapFileIn) : Except String PcapPacket :=
  match f.state with
  | .reading record => .ok { port := f.port, record }
  | .opened => .error "Must call moveNext() before calling current()"
  | .atEnd => .error "Cannot read past end-of-file"
  | .uninitialized => .error "Unexpected state"

def atEOF (f : PcapFileIn) : Bool := f.state = .atEnd

/-- The records that a started reader still has to send. -/
def pending (f : PcapFileIn) : List PcapRecord :=
  match f.state with
  | .reading record => record :: f.pcap
  | _ => []

end PcapFileIn

/-- `handler` is set or not; the times have no meaning before `start`. -/
structure PcapFilesReader where
  files : List PcapFileIn := []
  nonEmptyFiles : ℕ := 0
  waitTimeInSeconds : ℕ
  respectTiming : Bool
  startTime : Timeval := .timerclear
  firstPacketTime : Timeval := .timerclear
  scheduledIndex : ℕ := 0
  started : Bool := false
  handler : Bool := false

/-- What a reader does that can be seen from outside. -/
inductive ReplayEvent where
  | sleep (time : Timeval)
  | handle (packet : PcapPacket)
  deriving DecidableEq

namespace PcapFilesReader

def addFile (r : PcapFilesReader) (port : ℕ) (records : List PcapRecord) : PcapFilesReader :=
  { r with files := r.files ++ [.create port records] }

def setPacketHandler (r : PcapFilesReader) : PcapFilesReader := { r with handler := true }

/-- The earliest packet so far, and its time. -/
def earlier (i : ℕ) (time : Timeval) : Option (ℕ × Timeval) → ℕ × Timeval
  | none => (i, time)
  | some (earliestIndex, earliestTime) =>
    if time.timercmp earliestTime fun x y => x < y then (i, time)
    else (earliestIndex, earliestTime)

/-- The loop of `scan`. -/
def earliest : List PcapFileIn → ℕ → Option (ℕ × Timeval) →
    Except String (Option (ℕ × Timeval))
  | [], _, best => .ok best
  | file :: files, i, best =>
    if file.atEOF then earliest files (i + 1) best
    else do
      let p ← file.current
      earliest files (i + 1) (some (earlier i p.record.time best))

/-- `timerFired` up to the call of `scan`: it sends the scheduled packet and moves on. -/
def sendScheduled (r : PcapFilesReader) : Except String (PcapPacket × PcapFilesReader) :=
  match r.files[r.scheduledIndex]? with
  | none => .error "vector::at"
  | some file => do
    let packet ← file.current
    if r.handler then
      let (success, file) ← file.moveNext
      return (packet, { r with
        files := r.files.set r.scheduledIndex file
        nonEmptyFiles := if success then r.nonEmptyFiles else r.nonEmptyFiles - 1 })
    else throw "No packet handler set when sending packet"

/-- How long to wait for a packet, negative if it should have been sent already. -/
def delay (r : PcapFilesReader) (time now : Timeval) : Timeval :=
  (time.timersub r.firstPacketTime).timersub (now.timersub r.startTime)

/-- What the files still have to send. -/
def pending (r : PcapFilesReader) : List (List PcapRecord) := r.files.map PcapFileIn.pending

def unread (r : PcapFilesReader) : ℕ := (r.pending.map List.length).sum

/-- The reader behind a packet of `file`. -/
def sent (r : PcapFilesReader) (file : PcapFileIn) : PcapFilesReader :=
  { r with
    files := r.files.set r.scheduledIndex file.advance.2
    nonEmptyFiles := if file.advance.1 then r.nonEmptyFiles else r.nonEmptyFiles - 1 }

variable {r r' : PcapFilesReader} {file : PcapFileIn} {record : PcapRecord} {packet : PcapPacket}

theorem sendScheduled_of_reading (hfile : r.files[r.scheduledIndex]? = some file)
    (hstate : file.state = .reading record) (hhandler : r.handler = true) :
    r.sendScheduled = .ok (⟨file.port, record⟩, r.sent file) := by
  rw [sendScheduled, hfile]
  simp only [PcapFileIn.current, PcapFileIn.moveNext, hstate]
  exact if_pos hhandler

theorem sendScheduled_eq_ok (h : r.sendScheduled = .ok (packet, r')) :
    ∃ file record, r.files[r.scheduledIndex]? = some file ∧ file.state = .reading record ∧
      r' = r.sent file := by
  cases hfile : r.files[r.scheduledIndex]? with
  | none =>
    rw [sendScheduled, hfile] at h
    cases h
  | some file =>
    cases hstate : file.state with
    | reading record =>
      cases hhandler : r.handler with
      | true =>
        rw [sendScheduled_of_reading hfile hstate hhandler] at h
        cases h
        exact ⟨file, record, rfl, hstate, rfl⟩
      | false =>
        rw [sendScheduled, hfile] at h
        simp only [PcapFileIn.current, hstate] at h
        cases (if_neg (hhandler ▸ Bool.false_ne_true)).symm.trans h
    | _ =>
      rw [sendScheduled, hfile] at h
      simp only [PcapFileIn.current, hstate] at h
      cases h

theorem headAt_pending (hfile : r.files[r.scheduledIndex]? = some file)
    (hstate : file.state = .reading record) :
    headAt r.pending r.scheduledIndex = some record := by
  rw [headAt, pending, List.getElem?_map, hfile]
  simp only [PcapFileIn.pending, hstate, Option.map_some, Option.bind_some, List.head?_cons]

theorem pending_sent (hfile : r.files[r.scheduledIndex]? = some file)
    (hstate : file.state = .reading record) :
    (r.sent file).pending = take r.pending r.scheduledIndex := by
  have htail : file.advance.2.pending = file.pending.tail := by
    rw [PcapFileIn.advance, PcapFileIn.pending, PcapFileIn.pending, hstate]
    cases file.pcap <;> rfl
  refine List.ext_getElem? fun i => ?_
  rw [pending, sent, take, List.getElem?_map, List.getElem?_set, List.getElem?_modify, pending,
    List.getElem?_map]
  by_cases hi : r.scheduledIndex = i
  · subst hi
    rw [if_pos rfl, if_pos (List.getElem?_eq_some_iff.mp hfile).1, hfile]
    simp [htail]
  · simp [hi]

theorem unread_sendScheduled (h : r.sendScheduled = .ok (packet, r')) : r'.unread < r.unread := by
  obtain ⟨file, record, hfile, hstate, rfl⟩ := sendScheduled_eq_ok h
  rw [unread, unread, pending_sent hfile hstate]
  exact sum_length_take (headAt_pending hfile hstate)

mutual

/-- The clock gives a reading for each call of `gettimeofday`. -/
def scan (r : PcapFilesReader) (clock : ℕ → Timeval) : Except String (List ReplayEvent) :=
  if r.nonEmptyFiles = 0 then .ok []
  else
    match earliest r.files 0 none with
    | .error e => .error e
    | .ok none => .error "earliest_index >= 0"
    | .ok (some (index, time)) =>
      if r.respectTiming then
        schedulePacket r index (r.delay time (clock 0)) fun n => clock (n + 1)
      else schedulePacket r index .timerclear clock
termination_by (r.unread, 2)

def schedulePacket (r : PcapFilesReader) (index : ℕ) (delay : Timeval) (clock : ℕ → Timeval) :
    Except String (List ReplayEvent) :=
  if delay.timercmp .timerclear fun x y => x ≤ y then
    timerFired { r with scheduledIndex := index } clock
  else do
    let events ← timerFired { r with scheduledIndex := index } clock
    return .sleep delay :: events
termination_by (r.unread, 1)

def timerFired (r : PcapFilesReader) (clock : ℕ → Timeval) : Except String (List ReplayEvent) :=
  match _h : r.sendScheduled with
  | .error e => .error e
  | .ok (packet, r') => do
    let events ← scan r' clock
    return .handle packet :: events
termination_by (r.unread, 0)
decreasing_by exact Prod.Lex.left _ _ (unread_sendScheduled _h)

end

def firstOf (time : Timeval) : Option Timeval → Timeval
  | none => time
  | some firstTime => if time.timercmp firstTime fun x y => x < y then time else firstTime

/-- The loop of `start`, with the time of the first packet so far. -/
def firstPackets : List PcapFileIn → ℕ → Option Timeval →
    Except String (List PcapFileIn × ℕ × Option Timeval)
  | [], nonEmptyFiles, firstTime => .ok ([], nonEmptyFiles, firstTime)
  | file :: files, nonEmptyFiles, firstTime => do
    let (success, file) ← file.moveNext
    if success then
      let p ← file.current
      let (files, nonEmptyFiles, firstTime) ← firstPackets files (nonEmptyFiles + 1)
        (some (firstOf p.record.time firstTime))
      return (file :: files, nonEmptyFiles, firstTime)
    else
      let (files, nonEmptyFiles, firstTime) ← firstPackets files nonEmptyFiles firstTime
      return (file :: files, nonEmptyFiles, firstTime)

def start (r : PcapFilesReader) (clock : ℕ → Timeval) : Except String (List ReplayEvent) := do
  let (files, nonEmptyFiles, firstTime) ← firstPackets r.files r.nonEmptyFiles none
  if nonEmptyFiles > 0 ∧ firstTime = none then throw "firstTime != nullptr"
  if r.started then throw "Reader already started"
  let events ← scan { r with
    files, nonEmptyFiles, firstPacketTime := firstTime.getD r.firstPacketTime
    started := true, startTime := clock 0 } fun n => clock (n + 1)
  return if r.waitTimeInSeconds > 0 then .sleep ⟨r.waitTimeInSeconds, 0⟩ :: events else events

end PcapFilesReader

end Bmv2
