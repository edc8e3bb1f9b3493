import Bmv2.Replay.PcapFile

/-! The reader merges its capture files by the times of their packets. -/
namespace Bmv2
open HeadMerge

namespace PcapFileIn

/-- `start` has read the first packet, or found the end of the file. -/
def Started (f : PcapFileIn) : Prop := (∃ record, f.state = .reading record) ∨ f.state = .atEnd

variable {f : PcapFileIn}

theorem started_advance (f : PcapFileIn) : f.advance.2.Started := by
  rw [advance]
  cases f.pcap with
  | nil => exact .inr rfl
  | cons record pcap => exact .inl ⟨record, rfl⟩

theorem advance_fst (f : PcapFileIn) : f.advance.1 = !f.advance.2.atEOF := by
  rw [advance]
  cases f.pcap <;> rfl

theorem advance_port (f : PcapFileIn) : f.advance.2.port = f.port := by
  rw [advance]
  cases f.pcap <;> rfl

theorem pending_advance (f : PcapFileIn) : f.advance.2.pending = f.pcap := by
  rw [advance]
  cases f.pcap <;> rfl

theorem atEOF_of_reading {record : PcapRecord} (h : f.state = .reading record) :
    f.atEOF = false := by
  rw [atEOF, h]
  rfl

/-- A started file is at its end when it has nothing to send. -/
theorem Started.atEOF_iff (h : f.Started) : f.atEOF = true ↔ f.pending = [] := by
  rw [atEOF, pending]
  rcases h with ⟨record, h⟩ | h <;> rw [h] <;> simp

theorem Started.reading {record : PcapRecord} {rest : List PcapRecord} (h : f.Started)
    (hpending : f.pending = record :: rest) : f.state = .reading record := by
  rw [pending] at hpending
  rcases h with ⟨record', h⟩ | h
  · rw [h] at hpending
    rw [h, (List.cons.inj hpending).1]
  · rw [h] at hpending
    cases hpending

end PcapFileIn

namespace PcapFilesReader

/-- A reader between two packets. -/
structure Ready (r : PcapFilesReader) : Prop where
  handler : r.handler = true
  files : ∀ f ∈ r.files, f.Started
  nonEmpty : r.nonEmptyFiles = r.files.countP fun f => !f.atEOF

def handled (events : List ReplayEvent) : List PcapPacket :=
  events.filterMap fun
    | .handle packet => some packet
    | .sleep _ => none

/-- A record with the port of the file that it is from. -/
def packetOf (ports : List ℕ) (p : ℕ × PcapRecord) : PcapPacket := ⟨ports.getD p.1 0, p.2⟩

variable {r : PcapFilesReader} {files : List PcapFileIn} {file : PcapFileIn}
  {record : PcapRecord} {clock : ℕ → Timeval} {events : List ReplayEvent}

/-- The loop of `scan` makes one pass over the records to send. -/
theorem earliest_eq (h : ∀ f ∈ files, f.Started) (i : ℕ) (best : Option (ℕ × PcapRecord)) :
    earliest files i (best.map fun p => (p.1, p.2.time)) = .ok
      ((pickFrom PcapRecord.time (files.map PcapFileIn.pending) i best).map
        fun p => (p.1, p.2.time)) := by
  induction files generalizing i best with
  | nil => rfl
  | cons f files ih =>
    obtain ⟨hf, hfiles⟩ := List.forall_mem_cons.mp h
    rw [List.map_cons, earliest]
    rcases hf with ⟨record, hstate⟩ | hstate
    · rw [if_neg (by rw [PcapFileIn.atEOF_of_reading hstate]; exact Bool.false_ne_true)]
      have hpending : f.pending = record :: f.pcap := by rw [PcapFileIn.pending, hstate]
      have hcurrent : f.current = .ok ⟨f.port, record⟩ := by rw [PcapFileIn.current, hstate]
      rw [hpending, hcurrent]
      cases best with
      | none => exact ih hfiles (i + 1) (some (i, record))
      | some best =>
        have hnext := ih hfiles (i + 1)
          (some (if record.time < best.2.time then (i, record) else best))
        rw [pickFrom, ← hnext]
        change
          earliest files (i + 1) (some (earlier i record.time (some (best.1, best.2.time)))) = _
        rw [earlier, Option.map_some]
        simp only [Timeval.timercmp_lt]
        split_ifs <;> rfl
    · have hpending : f.pending = [] := by rw [PcapFileIn.pending, hstate]
      rw [if_pos (by rw [PcapFileIn.atEOF, hstate]; rfl), hpending]
      exact ih hfiles (i + 1) best

theorem Ready.nonEmptyFiles_eq_zero_iff (h : r.Ready) :
    r.nonEmptyFiles = 0 ↔ ∀ s ∈ r.pending, s = [] := by
  rw [h.nonEmpty, List.countP_eq_zero, pending, List.forall_mem_map]
  refine forall₂_congr fun f hf => ?_
  rw [← (h.files f hf).atEOF_iff]
  simp

/-- The next file in turn is the one that `scan` finds. -/
theorem Ready.earliest_of_leads {i : ℕ} (h : r.Ready)
    (hleads : Leads PcapRecord.time r.pending i record) :
    earliest r.files 0 none = .ok (some (i, record.time)) := by
  have hfound := found_pick PcapRecord.time r.pending
  have hearliest := earliest_eq h.files 0 none
  rw [← pending] at hearliest
  cases hpick : pickFrom PcapRecord.time r.pending 0 none with
  | none =>
    rw [hpick] at hfound
    have hhead := hleads.head
    rw [headAt_of_empty hfound] at hhead
    cases hhead
  | some best =>
    rw [hpick] at hfound hearliest
    obtain ⟨rfl, rfl⟩ := hleads.unique hfound
    exact hearliest

theorem Ready.sent (h : r.Ready) (hfile : r.files[r.scheduledIndex]? = some file)
    (hstate : file.state = .reading record) : (r.sent file).Ready := by
  obtain ⟨hlt, hget⟩ := List.getElem?_eq_some_iff.mp hfile
  refine ⟨h.handler, fun f hf => ?_, ?_⟩
  · rcases List.mem_or_eq_of_mem_set hf with hf | rfl
    · exact h.files f hf
    · exact file.started_advance
  · have hpos : 0 < r.files.countP fun f => !f.atEOF :=
      List.countP_pos_iff.mpr ⟨file, List.mem_of_getElem? hfile, by
        rw [PcapFileIn.atEOF_of_reading hstate]
        rfl⟩
    rw [PcapFilesReader.sent, List.countP_set hlt, hget, h.nonEmpty, file.advance_fst,
      PcapFileIn.atEOF_of_reading hstate]
    cases file.advance.2.atEOF with
    | true => rfl
    | false =>
      simp only [Bool.not_false, if_true]
      omega

theorem ports_sent (hfile : r.files[r.scheduledIndex]? = some file) :
    (r.sent file).files.map PcapFileIn.port = r.files.map PcapFileIn.port := by
  rw [sent, List.map_set, file.advance_port]
  refine List.ext_getElem? fun i => ?_
  rw [List.getElem?_set]
  by_cases hi : r.scheduledIndex = i
  · subst hi
    rw [if_pos rfl, List.getElem?_map, hfile, List.length_map,
      if_pos (List.getElem?_eq_some_iff.mp hfile).1]
    rfl
  · rw [if_neg hi]

theorem timerFired_eq (h : r.sendScheduled = .ok (⟨file.port, record⟩, r.sent file)) (clock) :
    r.timerFired clock = (do
      let events ← (r.sent file).scan clock
      return .handle ⟨file.port, record⟩ :: events) := by
  rw [timerFired]
  split
  · next heq => rw [h] at heq; cases heq
  · next heq => rw [h] at heq; cases heq; rfl

/-- A delay only adds a sleep. -/
theorem handled_schedulePacket {index : ℕ} (delay : Timeval)
    (h : ({ r with scheduledIndex := index } : PcapFilesReader).timerFired clock = .ok events) :
    ∃ events', r.schedulePacket index delay clock = .ok events' ∧
      handled events' = handled events := by
  rw [schedulePacket]
  split_ifs
  · exact ⟨events, h, rfl⟩
  · rw [h]
    exact ⟨.sleep delay :: events, rfl, rfl⟩

/-- From any reader that is ready, with any readings of the clock, `scan` sends the merged
records. -/
theorem scan_merges {sources : List (List PcapRecord)} {out : List (ℕ × PcapRecord)}
    (h : Merges PcapRecord.time sources out) (hr : r.Ready) (hsources : r.pending = sources)
    (clock : ℕ → Timeval) : ∃ events, r.scan clock = .ok events ∧
      handled events = out.map (packetOf (r.files.map PcapFileIn.port)) := by
  induction h generalizing r clock with
  | nil hempty =>
    subst hsources
    rw [scan, if_pos (hr.nonEmptyFiles_eq_zero_iff.mpr hempty)]
    exact ⟨[], rfl, rfl⟩
  | @cons sources i record out hleads _ ih =>
    subst hsources
    have hne : r.nonEmptyFiles ≠ 0 := fun h => by
      have hhead := hleads.head
      rw [headAt_of_empty (hr.nonEmptyFiles_eq_zero_iff.mp h)] at hhead
      cases hhead
    obtain ⟨rest, hrest⟩ := headAt_eq_some hleads.head
    rw [pending, List.getElem?_map] at hrest
    obtain ⟨file, hfile, hpending⟩ := Option.map_eq_some_iff.mp hrest
    have hstate := (hr.files file (List.mem_of_getElem? hfile)).reading hpending
    let s : PcapFilesReader := { r with scheduledIndex := i }
    have hs : s.Ready := ⟨hr.handler, hr.files, hr.nonEmpty⟩
    have hsend : s.sendScheduled = .ok (⟨file.port, record⟩, s.sent file) :=
      sendScheduled_of_reading hfile hstate hr.handler
    have hfired : ∀ clock, ∃ events, s.timerFired clock = .ok events ∧ handled events =
        ((i, record) :: out).map (packetOf (r.files.map PcapFileIn.port)) := by
      intro clock
      obtain ⟨events, hscan, hhandled⟩ := ih (r := s.sent file) (hs.sent hfile hstate)
        (pending_sent hfile hstate) clock
      rw [timerFired_eq hsend, hscan]
      refine ⟨_, rfl, ?_⟩
      have hports : (s.sent file).files.map PcapFileIn.port = r.files.map PcapFileIn.port :=
        ports_sent (r := s) hfile
      rw [hports] at hhandled
      have hport : (r.files.map PcapFileIn.port).getD i 0 = file.port := by
        rw [List.getD_eq_getElem?_getD, List.getElem?_map, hfile]
        rfl
      rw [List.map_cons, packetOf, hport, ← hhandled]
      rfl
    rw [scan, if_neg hne, hr.earliest_of_leads hleads]
    dsimp only
    split_ifs
    · obtain ⟨events, hevents, hhandled⟩ := hfired fun n => clock (n + 1)
      obtain ⟨events', hschedule, heq⟩ :=
        handled_schedulePacket (r.delay record.time (clock 0)) hevents
      exact ⟨events', hschedule, heq.trans hhandled⟩
    · obtain ⟨events, hevents, hhandled⟩ := hfired clock
      obtain ⟨events', hschedule, heq⟩ := handled_schedulePacket .timerclear hevents
      exact ⟨events', hschedule, heq.trans hhandled⟩

/-- The loop of `start` reads the first packet of every file. -/
theorem firstPackets_eq (h : ∀ f ∈ files, f.state = .opened) (n : ℕ) (time : Option Timeval) :
    ∃ firstTime, firstPackets files n time = .ok (files.map (·.advance.2),
        n + (files.map (·.advance.2)).countP (fun f => !f.atEOF), firstTime) ∧
      (firstTime = none → time = none ∧
        (files.map (·.advance.2)).countP (fun f => !f.atEOF) = 0) := by
  induction files generalizing n time with
  | nil => exact ⟨time, rfl, fun h => ⟨h, rfl⟩⟩
  | cons f files ih =>
    obtain ⟨hf, hfiles⟩ := List.forall_mem_cons.mp h
    have hmove : f.moveNext = .ok f.advance := by rw [PcapFileIn.moveNext, hf]
    rw [firstPackets, hmove, List.map_cons, List.countP_cons]
    cases hpcap : f.pcap with
    | nil =>
      have hadvance : f.advance = (false, { f with state := .atEnd }) := by
        rw [PcapFileIn.advance, hpcap]
      obtain ⟨firstTime, hfirst, hnone⟩ := ih hfiles n time
      rw [hadvance]
      refine ⟨firstTime, ?_, hnone⟩
      change (firstPackets files n time).bind _ = _
      rw [hfirst]
      rfl
    | cons record pcap =>
      have hadvance : f.advance = (true, { f with pcap, state := .reading record }) := by
        rw [PcapFileIn.advance, hpcap]
      obtain ⟨firstTime, hfirst, hnone⟩ := ih hfiles (n + 1)
        (some (firstOf record.time time))
      rw [hadvance]
      refine ⟨firstTime, ?_, fun h => absurd (hnone h).1 (Option.some_ne_none _)⟩
      change (firstPackets files (n + 1) (some (firstOf record.time time))).bind _ = _
      rw [hfirst]
      change Except.ok (_, n + 1 + _, _) = Except.ok (_, n + (_ + 1), _)
      rw [Nat.add_right_comm, Nat.add_assoc]

/-- A reader with its files and a handler, before `start`. -/
def reader (respectTiming : Bool) (waitTimeInSeconds : ℕ) (files : List (ℕ × List PcapRecord)) :
    PcapFilesReader :=
  setPacketHandler <| files.foldl (fun r f => addFile r f.1 f.2)
    { waitTimeInSeconds, respectTiming }

theorem reader_eq (respectTiming : Bool) (waitTimeInSeconds : ℕ)
    (files : List (ℕ × List PcapRecord)) : reader respectTiming waitTimeInSeconds files =
      { files := files.map fun f => .create f.1 f.2, waitTimeInSeconds, respectTiming
        handler := true } := by
  have hfold : ∀ r : PcapFilesReader, files.foldl (fun r f => r.addFile f.1 f.2) r =
      { r with files := r.files ++ files.map fun f => .create f.1 f.2 } := by
    induction files with
    | nil => intro r; rw [List.map_nil, List.append_nil]; rfl
    | cons f files ih =>
      intro r
      rw [List.foldl_cons, ih, addFile, List.append_assoc]
      rfl
  rw [reader, hfold]
  rfl

/-- The merged records of the files, whatever the clock reads and whether it is respected. -/
theorem start_merges {files : List (ℕ × List PcapRecord)} {out : List (ℕ × PcapRecord)}
    (h : Merges PcapRecord.time (files.map Prod.snd) out) (respectTiming : Bool)
    (waitTimeInSeconds : ℕ) (clock : ℕ → Timeval) :
    ∃ events, (reader respectTiming waitTimeInSeconds files).start clock = .ok events ∧
      handled events = out.map (packetOf (files.map Prod.fst)) := by
  let opened : List PcapFileIn := files.map fun f => .create f.1 f.2
  let read : List PcapFileIn := opened.map (·.advance.2)
  have hopened : ∀ f ∈ opened, f.state = .opened := List.forall_mem_map.mpr fun f _ => rfl
  obtain ⟨firstTime, hfirst, hnone⟩ := firstPackets_eq hopened 0 none
  rw [Nat.zero_add] at hfirst
  have hports : read.map PcapFileIn.port = files.map Prod.fst := by
    simp only [read, opened, List.map_map]
    exact List.map_congr_left fun f _ => PcapFileIn.advance_port _
  have hpending : read.map PcapFileIn.pending = files.map Prod.snd := by
    simp only [read, opened, List.map_map]
    exact List.map_congr_left fun f _ => PcapFileIn.pending_advance _
  have hstarted : ∀ f ∈ read, f.Started := List.forall_mem_map.mpr fun f _ => f.started_advance
  have hcount : ¬ (read.countP (fun f => !f.atEOF) > 0 ∧ firstTime = none) := fun h =>
    h.1.ne' (hnone h.2).2
  let s : PcapFilesReader :=
    { files := read, nonEmptyFiles := read.countP fun f => !f.atEOF, waitTimeInSeconds
      respectTiming, startTime := clock 0, firstPacketTime := firstTime.getD .timerclear
      started := true, handler := true }
  obtain ⟨events, hscan, hhandled⟩ := scan_merges (r := s) h ⟨rfl, hstarted, rfl⟩ hpending
    fun n => clock (n + 1)
  have hstart : (reader respectTiming waitTimeInSeconds files).start clock = .ok
      (if waitTimeInSeconds > 0 then .sleep ⟨waitTimeInSeconds, 0⟩ :: events else events) := by
    rw [reader_eq, start]
    change (firstPackets opened 0 none).bind _ = _
    rw [hfirst]
    change (if read.countP (fun f => !f.atEOF) > 0 ∧ firstTime = none then _ else
      (s.scan fun n => clock (n + 1)).bind _) = _
    rw [if_neg hcount, hscan]
    rfl
  refine ⟨_, hstart, ?_⟩
  rw [hports] at hhandled
  split_ifs
  · exact hhandled
  · exact hhandled

/-- Every packet of every file is handled once, with the port of its file and in the order of its
file; the next one is always the earliest head of what is left, of the first such file. With sorted
files the packets are sorted, and none of this depends on the clock or on how it is respected. -/
theorem start_replays (files : List (ℕ × List PcapRecord)) : ∃ out : List (ℕ × PcapRecord),
    (∀ respectTiming waitTimeInSeconds clock, ∃ events,
      (reader respectTiming waitTimeInSeconds files).start clock = .ok events ∧
        handled events = out.map (packetOf (files.map Prod.fst))) ∧
      (∀ i, fromSource i out = (files.map Prod.snd).getD i []) ∧
      (∀ before i record after, out = before ++ (i, record) :: after →
        Leads PcapRecord.time (left (files.map Prod.snd) before) i record) ∧
      ((∀ f ∈ files, f.2.Pairwise fun p q => p.time ≤ q.time) →
        out.Pairwise fun p q => p.2.time ≤ q.2.time) := by
  obtain ⟨out, hout⟩ := exists_merges PcapRecord.time (files.map Prod.snd)
  refine ⟨out, start_merges hout, hout.fromSource_eq, ?_, fun hsorted => hout.sorted ?_⟩
  · rintro before i record after rfl
    exact hout.leads
  · exact List.forall_mem_map.mpr hsorted

end PcapFilesReader

end Bmv2
