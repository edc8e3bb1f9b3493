import Bmv2.Debugger.DebuggerNN
import Bmv2.Debugger.Wire

/-! What a call of a packet thread and a request do to the debugger. -/
namespace Bmv2

namespace DebuggerPackets

/-- The counts are those of the live copies, and these have a stack of context changes each. -/
structure Counted (d : DebuggerPackets) : Prop where
  counted : ∀ p, d.packetIdsCountGet p = d.packetRegistersMap.keys.countP (·.packetId = p)
  stacked : ∀ id, (d.packetCtrStacks.lookup id).isSome ↔ d.Live id

variable {d : DebuggerPackets} {packetId id j : Debugger.PacketId} {p : ℕ}

theorem live_iff : d.Live id ↔ id ∈ d.packetRegistersMap.keys := by
  unfold Live
  rw [AList.lookup_isSome, AList.mem_keys]

/-- A packet that is counted has a live copy. -/
theorem Counted.live_copy (h : d.Counted) (hp : d.packetIdsCountGet p ≠ 0) :
    ∃ id, d.Live id ∧ id.packetId = p := by
  rw [h.counted] at hp
  obtain ⟨id, hid, hpacket⟩ := List.countP_pos_iff.mp (Nat.pos_of_ne_zero hp)
  exact ⟨id, live_iff.mpr hid, by simpa using hpacket⟩

theorem Counted.updateRegister (h : d.Counted) (hl : d.Live packetId) (fid : ℕ)
    (bytes : List ByteBits.Byte) :
    ∃ d', d.updateRegister packetId fid bytes = .ok d' ∧ d'.Counted ∧
      ∀ j, d'.Live j ↔ d.Live j := by
  obtain ⟨registers, hlookup⟩ := Option.isSome_iff_exists.mp hl
  unfold DebuggerPackets.updateRegister
  rw [hlookup]
  have hmem : packetId ∈ d.packetRegistersMap.keys := live_iff.mp hl
  have hperm := List.perm_cons_erase hmem
  have hlive : ∀ j, (DebuggerPackets.mk d.packetIdsCount (d.packetRegistersMap.insert packetId
      (registers.insert fid bytes)) d.packetCtrStacks).Live j ↔ d.Live j := by
    intro j
    rw [live_iff, live_iff, hperm.mem_iff]
    dsimp only
    rw [AList.keys_insert]
  refine ⟨_, rfl, ⟨fun p => ?_, fun id => ?_⟩, hlive⟩
  · dsimp only
    rw [AList.keys_insert, ← hperm.countP_eq]
    exact h.counted p
  · rw [hlive]
    exact h.stacked id

theorem Counted.updateCtrStack (h : d.Counted) (hl : d.Live packetId) (ctr : BitVec 32)
    {pop : Bool} (hpop : pop → d.packetCtrStacks.lookup packetId ≠ some []) :
    ∃ d', d.updateCtrStack packetId ctr pop = .ok d' ∧ d'.Counted ∧ ∀ j, d'.Live j ↔ d.Live j := by
  have hsome := (h.stacked packetId).mpr hl
  obtain ⟨stack, hlookup⟩ := Option.isSome_iff_exists.mp hsome
  have hstack : ¬ (pop ∧ stack = []) := by
    rintro ⟨htrue, rfl⟩
    exact hpop htrue hlookup
  unfold DebuggerPackets.updateCtrStack
  rw [hlookup]
  refine ⟨_, if_neg hstack, ⟨h.counted, fun id => ?_⟩, fun j => Iff.rfl⟩
  dsimp only
  rw [UnorderedMap.lookup_insert]
  by_cases hid : id = packetId
  · subst hid
    rw [if_pos rfl]
    exact ⟨fun _ => hl, fun _ => rfl⟩
  · rw [if_neg hid]
    exact h.stacked id

/-- There is nothing to leave. -/
theorem updateCtrStack_nil (hlookup : d.packetCtrStacks.lookup packetId = some [])
    (ctr : BitVec 32) : d.updateCtrStack packetId ctr true = .error .ctrStack := by
  unfold DebuggerPackets.updateCtrStack
  rw [hlookup]
  rfl

theorem packetIdsCountGet_in : (d.packetIdsCountIn p).packetIdsCountGet =
    fun q => d.packetIdsCountGet q + if p = q then 1 else 0 := by
  funext q
  unfold packetIdsCountIn packetIdsCountGet
  cases hlookup : d.packetIdsCount.lookup p with
  | none =>
    dsimp only
    rw [UnorderedMap.getD_lookup_insert]
    split_ifs with hq
    · rw [← hq, hlookup, Option.getD_none]
    · rfl
  | some count =>
    dsimp only
    rw [UnorderedMap.getD_lookup_insert]
    split_ifs with hq
    · rw [← hq, hlookup, Option.getD_some]
    · rfl

/-- A packet that is counted can be counted out. -/
theorem packetIdsCountGet_out (hp : d.packetIdsCountGet p ≠ 0) :
    ∃ counts, d.packetIdsCountOut p = .ok { d with packetIdsCount := counts } ∧
      ∀ q, (counts.lookup q).getD 0 = d.packetIdsCountGet q - if p = q then 1 else 0 := by
  unfold packetIdsCountGet at hp
  unfold packetIdsCountOut
  cases hlookup : d.packetIdsCount.lookup p with
  | none => simp [hlookup] at hp
  | some count =>
    match count, hlookup with
    | 0, hlookup => simp [hlookup] at hp
    | 1, hlookup =>
      refine ⟨_, rfl, fun q => ?_⟩
      rw [UnorderedMap.lookup_erase, packetIdsCountGet]
      by_cases hq : q = p
      · subst hq
        simp [hlookup]
      · simp [hq, Ne.symm hq]
    | count + 2, hlookup =>
      refine ⟨_, rfl, fun q => ?_⟩
      rw [UnorderedMap.getD_lookup_insert, packetIdsCountGet]
      split_ifs with hq
      · rw [← hq, hlookup]
        rfl
      · rfl

theorem Counted.enter (h : d.Counted) (hl : ¬ d.Live packetId) :
    ∃ d', d.enter packetId = .ok d' ∧ d'.Counted ∧ ∀ j, d'.Live j ↔ j = packetId ∨ d.Live j := by
  have hstack : ¬ (d.packetCtrStacks.lookup packetId).isSome := fun hs =>
    hl ((h.stacked packetId).mp hs)
  have hnotin : packetId ∉ d.packetRegistersMap.keys := fun hmem => hl (live_iff.mpr hmem)
  have hkeys : (d.packetRegistersMap.insert packetId ∅).keys =
      packetId :: d.packetRegistersMap.keys := by
    rw [AList.keys_insert, List.erase_of_not_mem hnotin]
  unfold DebuggerPackets.enter
  rw [if_neg hl, if_neg hstack]
  dsimp only
  generalize hin : DebuggerPackets.packetIdsCountIn _ packetId.packetId = d'
  have hmaps : d'.packetRegistersMap = d.packetRegistersMap.insert packetId ∅ ∧
      d'.packetCtrStacks = d.packetCtrStacks.insert packetId [] := by
    rw [← hin]
    unfold packetIdsCountIn
    split <;> exact ⟨rfl, rfl⟩
  have hlive : ∀ j, d'.Live j ↔ j = packetId ∨ d.Live j := by
    intro j
    rw [live_iff, live_iff, hmaps.1, hkeys, List.mem_cons]
  refine ⟨d', rfl, ⟨fun p => ?_, fun id => ?_⟩, hlive⟩
  · rw [← hin, packetIdsCountGet_in, hin, hmaps.1, hkeys, List.countP_cons, ← h.counted p]
    simp [packetIdsCountGet]
  · rw [hlive, hmaps.2, UnorderedMap.lookup_insert]
    split_ifs with hid
    · exact ⟨fun _ => .inl hid, fun _ => rfl⟩
    · rw [h.stacked id]
      exact ⟨.inr, fun hor => hor.resolve_left hid⟩

theorem Counted.leave (h : d.Counted) (hl : d.Live packetId) :
    ∃ d', d.leave packetId = .ok d' ∧ d'.Counted ∧ ∀ j, d'.Live j ↔ j ≠ packetId ∧ d.Live j := by
  have hstack := (h.stacked packetId).mpr hl
  have hmem : packetId ∈ d.packetRegistersMap.keys := live_iff.mp hl
  have hcount : d.packetIdsCountGet packetId.packetId ≠ 0 := by
    rw [h.counted]
    exact (List.countP_pos_iff.mpr ⟨packetId, hmem, by simp⟩).ne'
  obtain ⟨counts, hout, hcounts⟩ := packetIdsCountGet_out (d := { d with
    packetRegistersMap := d.packetRegistersMap.erase packetId
    packetCtrStacks := d.packetCtrStacks.erase packetId }) hcount
  unfold DebuggerPackets.leave
  rw [if_neg (not_not.mpr hl), if_neg (not_not.mpr hstack)]
  dsimp only
  have hlive : ∀ j, (DebuggerPackets.mk counts (d.packetRegistersMap.erase packetId)
      (d.packetCtrStacks.erase packetId)).Live j ↔ j ≠ packetId ∧ d.Live j := by
    intro j
    unfold Live
    rw [UnorderedMap.lookup_erase]
    by_cases hj : j = packetId
    · simp [hj]
    · simp [hj]
  refine ⟨_, hout, ⟨fun p => ?_, fun id => ?_⟩, hlive⟩
  · rw [packetIdsCountGet, hcounts, AList.keys_erase, List.countP_erase, ← h.counted p]
    simp [hmem, packetIdsCountGet]
  · rw [hlive]
    dsimp only
    rw [UnorderedMap.lookup_erase]
    by_cases hid : id = packetId
    · simp [hid]
    · rw [if_neg hid, h.stacked id]
      exact ⟨fun hx => ⟨hid, hx⟩, fun hx => hx.2⟩

end DebuggerPackets

namespace DebuggerRequest

/-- The packet threads go on, and the reply is left to the first one that stops. -/
def Runs (r : DebuggerRequest) : Prop := r = .continue_ ∨ r = .next

instance (r : DebuggerRequest) : Decidable r.Runs :=
  inferInstanceAs (Decidable (_ ∨ _))

/-- The number of the request is reset before the reply. -/
def Resets (r : DebuggerRequest) : Prop := r = .reset ∨ r = .attach ∨ r = .detach

/-- Packets that are stopped are let in again. -/
def Undoes (r : DebuggerRequest) : Prop := r = .resumePacketIn ∨ r = .reset ∨ r = .detach

end DebuggerRequest

namespace DebuggerNN

/-- There is something that a packet thread may have to stop for. -/
def Alerts (d : DebuggerNN) : Prop := d.breakNext ∨ d.watchpoints ≠ ∅ ∨ d.breakPacketIn

/-- With a reply to send. -/
def withReply (d : DebuggerNN) (body : ReplyBody) : DebuggerNN :=
  { d with
    repStorage := some { switchId := d.switchId, reqId := d.reqId, body }
    replyReady := true }

variable {d d' : DebuggerNN} {c : PacketCall} {p : CallPoint} {body : ReplyBody}

theorem send_eq (h : d.replyReady = false) (hroom : body.size ≤ 240) :
    d.send body = .ok (d.withReply body) := by
  have hwrite : ¬ (DebuggerReply.mk d.switchId d.reqId body).write.isNone := by
    rw [Option.isNone_iff_eq_none, ← Option.not_isSome_iff_eq_none, not_not]
    exact (DebuggerReply.isSome_write _).mpr hroom
  have hready : ¬ d.replyReady := by
    rw [h]
    exact Bool.false_ne_true
  exact (if_neg hwrite).trans (if_neg hready)

/-- A reply that is too long is written all the same. -/
theorem send_fails (hroom : 240 < body.size) : d.send body = .error .repStorage := by
  have hwrite : ¬ (DebuggerReply.mk d.switchId d.reqId body).write.isSome :=
    mt (DebuggerReply.isSome_write _).mp (not_le.mpr hroom)
  exact if_pos (Option.isNone_iff_eq_none.mpr (Option.not_isSome_iff_eq_none.mp hwrite))

/-- A call that need not wait is about a packet that may go on. -/
theorem of_waits (h : d.waits c p = none) : d.canContinue ∧
    ∀ packetId port, c = .packetIn packetId port →
      d.stopPacketIn → d.packetIdsCountGet packetId.packetId ≠ 0 := by
  have hloop : ∀ {packetId}, d.packetInLoop packetId = none →
      d.canContinue ∧ (d.stopPacketIn → d.packetIdsCountGet packetId ≠ 0) := by
    intro packetId hloop
    unfold packetInLoop at hloop
    split_ifs at hloop with hcontinue hstop
    refine ⟨by simpa using hcontinue, fun hs hcount => hstop ⟨hs, hcount⟩⟩
  cases c with
  | packetIn packetId port =>
    have hnone : d.packetInLoop packetId.packetId = none := by
      cases p with
      | start => exact h
      | waitForContinue =>
        simp only [waits] at h
        split_ifs at h
        exact h
      | waitForResumePacketIn =>
        simp only [waits] at h
        split_ifs at h
        exact h
    refine ⟨(hloop hnone).1, fun packetId' port' heq => ?_⟩
    obtain ⟨rfl, -⟩ := PacketCall.packetIn.inj heq
    exact (hloop hnone).2
  | notifyUpdate packetId id bytes nbits =>
    simp only [waits] at h
    split_ifs at h with hcontinue
    exact ⟨hcontinue, fun _ _ heq => nomatch heq⟩
  | notifyCtr packetId ctr =>
    simp only [waits] at h
    split_ifs at h with hcontinue
    exact ⟨hcontinue, fun _ _ heq => nomatch heq⟩
  | packetOut packetId port =>
    simp only [waits] at h
    split_ifs at h with hcontinue
    exact ⟨hcontinue, fun _ _ heq => nomatch heq⟩

/-- The maps change, and the packet threads may be stopped with a reply. -/
def Notified (d d' : DebuggerNN) : Prop :=
  d' = { d with toDebuggerPackets := d'.toDebuggerPackets } ∨
    d.Alerts ∧ ∃ body,
      d' = { d with toDebuggerPackets := d'.toDebuggerPackets }.break_.withReply body

/-- What a call does. -/
structure Completes (d : DebuggerNN) (c : PacketCall) (d' : DebuggerNN) : Prop where
  counted : d'.Counted
  live : ∀ j, j ≠ c.packetId → (d'.Live j ↔ d.Live j)
  control : d.Notified d'

theorem alerts_of_breaksAt {packetId : Debugger.PacketId} {id : ℕ} (h : d.breaksAt packetId id) :
    d.Alerts := by
  rcases (of_decide_eq_true h).2 with hnext | hwatch
  · exact .inl hnext
  · exact .inr (.inl (Finset.ne_empty_of_mem hwatch))

/-- The register is written, and its value may be sent. -/
theorem notifyUpdateGeneric_eq {packetId : Debugger.PacketId} {id nbits : ℕ}
    {bytes : List ByteBits.Byte} {packets : DebuggerPackets}
    (hupdate : d.updateRegister packetId id (bytes.take ((nbits + 7) / 8)) = .ok packets) :
    d.notifyUpdateGeneric packetId id bytes nbits =
      if d.breaksAt packetId id then
        { d with toDebuggerPackets := packets }.break_.sendFieldValue packetId id
          (bytes.take ((nbits + 7) / 8))
      else .ok { d with toDebuggerPackets := packets } := by
  unfold notifyUpdateGeneric
  dsimp only
  rw [hupdate]
  rfl

theorem notifyUpdateGeneric_completes (hc : d.Counted) {packetId : Debugger.PacketId}
    (hl : d.Live packetId) (hready : d.Alerts → d.replyReady = false) {id : ℕ}
    {bytes : List ByteBits.Byte} {nbits : ℕ}
    (hroom : d.breaksAt packetId id → (bytes.take ((nbits + 7) / 8)).length ≤ 212) :
    ∃ d', d.notifyUpdateGeneric packetId id bytes nbits = .ok d' ∧ d'.Counted ∧
      (∀ j, d'.Live j ↔ d.Live j) ∧ d.Notified d' := by
  obtain ⟨packets, hupdate, hcounted, hlive⟩ :=
    hc.updateRegister hl id (bytes.take ((nbits + 7) / 8))
  rw [notifyUpdateGeneric_eq hupdate]
  split_ifs with halert
  · have halerts := alerts_of_breaksAt halert
    have hsize : (ReplyBody.fieldValue packetId id (bytes.take ((nbits + 7) / 8))).size ≤ 240 := by
      have hle := hroom halert
      rw [ReplyBody.size]
      omega
    exact ⟨_, send_eq (hready halerts) hsize, hcounted, hlive, .inr ⟨halerts, _, rfl⟩⟩
  · exact ⟨_, rfl, hcounted, hlive, .inl rfl⟩

theorem length_uint32ToBytes (v : BitVec 32) : (uint32ToBytes v).length = 4 := rfl

/-- Calls about packets as they should be fail no assertion, if a reply is due whenever there is
something to stop for. -/
theorem complete_completes (hc : d.Counted) (hl : c.isPacketIn ↔ ¬ d.Live c.packetId)
    (hready : d.Alerts → d.replyReady = false) (hroom : d.CallInBounds c) :
    ∃ d', d.complete c = .ok d' ∧ d.Completes c d' := by
  cases c with
  | notifyUpdate packetId id bytes nbits =>
    have hlive : d.Live packetId := by
      by_contra hnot
      exact Bool.false_ne_true (hl.mpr hnot)
    obtain ⟨d', hok, hcounted, hsame, hcontrol⟩ :=
      notifyUpdateGeneric_completes hc hlive hready hroom
    exact ⟨d', hok, hcounted, fun j _ => hsame j, hcontrol⟩
  | notifyCtr packetId ctr =>
    have hlive : d.Live packetId := by
      by_contra hnot
      exact Bool.false_ne_true (hl.mpr hnot)
    obtain ⟨packets, hupdate, hcounted, hsame⟩ := hc.updateCtrStack hlive ctr hroom
    have hsize : ((uint32ToBytes ctr).take ((32 + 7) / 8)).length ≤ 212 := by
      rw [List.length_take, length_uint32ToBytes]
      decide
    let d₁ : DebuggerNN := { d with toDebuggerPackets := packets }
    have hcounted₁ : d₁.Counted := hcounted
    obtain ⟨d', hok, hcounted', hsame', hcontrol⟩ :=
      notifyUpdateGeneric_completes hcounted₁ ((hsame packetId).mpr hlive) hready fun _ => hsize
    refine ⟨d', ?_, hcounted', fun j _ => (hsame' j).trans (hsame j), hcontrol⟩
    unfold complete
    dsimp only
    rw [hupdate]
    exact hok
  | packetIn packetId port =>
    have hnew : ¬ d.Live packetId := hl.mp rfl
    obtain ⟨packets, henter, hcounted, hlive⟩ := hc.enter hnew
    have hbind : d.complete (.packetIn packetId port) =
        if { d with toDebuggerPackets := packets }.inFilters packetId ∧
            (d.breakNext ∨ d.breakPacketIn) then
          { d with toDebuggerPackets := packets }.break_.sendPacketIn packetId port
        else .ok { d with toDebuggerPackets := packets } := by
      unfold complete
      dsimp only
      rw [henter]
      rfl
    rw [hbind]
    have hother : ∀ j, j ≠ packetId → (packets.Live j ↔ d.Live j) := fun j hj =>
      ⟨fun h => ((hlive j).mp h).resolve_left hj, fun h => (hlive j).mpr (.inr h)⟩
    split_ifs with halert
    · have halerts : d.Alerts := by
        rcases halert.2 with hnext | hbreak
        · exact .inl hnext
        · exact .inr (.inr hbreak)
      exact ⟨_, send_eq (hready halerts) (by simp [ReplyBody.size]), hcounted, hother,
        .inr ⟨halerts, _, rfl⟩⟩
    · exact ⟨_, rfl, hcounted, hother, .inl rfl⟩
  | packetOut packetId port =>
    have hlive : d.Live packetId := by
      by_contra hnot
      exact Bool.false_ne_true (hl.mpr hnot)
    obtain ⟨packets, hleave, hcounted, hsame⟩ := hc.leave hlive
    unfold complete
    dsimp only
    rw [hleave]
    refine ⟨_, rfl, hcounted, fun j hj => ?_, .inl rfl⟩
    exact (hsame j).trans ⟨fun h => h.2, fun h => ⟨hj, h⟩⟩

/-- A call that is out of bounds is not defined. -/
theorem complete_fails (hc : d.Counted) (hl : c.isPacketIn ↔ ¬ d.Live c.packetId)
    (hroom : ¬ d.CallInBounds c) : ∃ fault, d.complete c = .error fault := by
  cases c with
  | notifyUpdate packetId id bytes nbits =>
    have hlive : d.Live packetId := by
      by_contra hnot
      exact Bool.false_ne_true (hl.mpr hnot)
    obtain ⟨halert, hlong⟩ := Classical.not_imp.mp hroom
    obtain ⟨packets, hupdate, -⟩ := hc.updateRegister hlive id (bytes.take ((nbits + 7) / 8))
    have hsize : 240 < (ReplyBody.fieldValue packetId id (bytes.take ((nbits + 7) / 8))).size := by
      rw [ReplyBody.size]
      omega
    refine ⟨.repStorage, (notifyUpdateGeneric_eq hupdate).trans ?_⟩
    rw [if_pos halert]
    exact send_fails hsize
  | notifyCtr packetId ctr =>
    obtain ⟨hexit, hnil⟩ := Classical.not_imp.mp hroom
    refine ⟨.ctrStack, ?_⟩
    unfold complete
    dsimp only
    rw [hexit, DebuggerPackets.updateCtrStack_nil (not_not.mp hnil)]
    rfl
  | packetIn packetId port => exact absurd trivial hroom
  | packetOut packetId port => exact absurd trivial hroom

section Requests

variable {r : DebuggerRequest}

/-- The debugger right before the reply to a request. -/
structure Answering (d : DebuggerNN) (r : DebuggerRequest) (d' : DebuggerNN) : Prop where
  packets : d'.toDebuggerPackets = d.toDebuggerPackets
  ready : d'.replyReady = false
  breakNext : d'.breakNext = false
  attached : d'.attached = decide (r ≠ .detach)
  canContinue : r ≠ .detach → d'.canContinue = false
  reqId : d'.reqId = d.reqId ∨ r.Resets ∧ d'.reqId = 0
  detached : r = .detach → d'.breakPacketIn = false ∧ d'.watchpoints = ∅
  stopPacketIn : r = .stopPacketIn ∨ (d.attached ∧ d.stopPacketIn ∧ ¬ r.Undoes) →
    d'.stopPacketIn = true

/-- What a request does that leaves the reply to a packet thread. -/
structure Running (d : DebuggerNN) (r : DebuggerRequest) (d' : DebuggerNN) : Prop where
  runs : r.Runs
  packets : d'.toDebuggerPackets = d.toDebuggerPackets
  ready : d'.replyReady = false
  attached : d'.attached = true
  canContinue : d'.canContinue = true
  reqId : d'.reqId = d.reqId
  stopPacketIn : d'.stopPacketIn = d.stopPacketIn

/-- A request of a client that is attached, or attaches, while the packet threads are stopped. -/
structure Requested (d : DebuggerNN) (r : DebuggerRequest) : Prop where
  ready : d.replyReady = false
  breakNext : d.breakNext = false
  attached : d.attached ∨ r = .attach
  canContinue : d.attached → d.canContinue = false

/-- Requests that leave the client attached. -/
theorem Requested.answering (h : d.Requested r) (hatt : d.attached) (hr : r ≠ .detach)
    (breakPacketIn stopPacketIn : Bool) (watchpoints filterAll : Finset ℕ)
    (filter : Finset Debugger.PacketId) (reqId : ℕ)
    (hreq : reqId = d.reqId ∨ r.Resets ∧ reqId = 0)
    (hstop : r = .stopPacketIn ∨ (d.stopPacketIn ∧ ¬ r.Undoes) → stopPacketIn = true) :
    d.Answering r
      { d with breakPacketIn, stopPacketIn, watchpoints, filterAll, filter, reqId } where
  packets := rfl
  ready := h.ready
  breakNext := h.breakNext
  attached := by
    rw [decide_eq_true hr]
    exact hatt
  canContinue _ := h.canContinue hatt
  reqId := hreq
  detached heq := absurd heq hr
  stopPacketIn hor := hstop (hor.imp_right fun hand => hand.2)

/-- Requests that only ask for something. -/
theorem Requested.asking (h : d.Requested r) (hatt : d.attached) (hr : r ≠ .detach)
    (hstop : r ≠ .stopPacketIn) : d.Answering r d :=
  h.answering hatt hr d.breakPacketIn d.stopPacketIn d.watchpoints d.filterAll d.filter d.reqId
    (.inl rfl) fun hor => (hor.resolve_left hstop).1

/-- The filters are all that a list of identifiers changes. -/
theorem foldl_addFilter (ids : List Debugger.PacketId) (d : DebuggerNN) :
    ∃ filter filterAll, ids.foldl addFilter d = { d with filter, filterAll } := by
  induction ids generalizing d with
  | nil => exact ⟨d.filter, d.filterAll, rfl⟩
  | cons id ids ih =>
    obtain ⟨filter, filterAll, heq⟩ := ih (d.addFilter id)
    refine ⟨filter, filterAll, heq.trans ?_⟩
    unfold addFilter
    split_ifs <;> rfl

/-- A request fails no assertion: it lets the packet threads run, or is answered at once. -/
theorem requestDispatch_ok (h : d.Requested r) (hroom : d.RequestInBounds r) :
    ∃ d', d.requestDispatch r = .ok d' ∧
    (d.Running r d' ∨ ¬ r.Runs ∧ ∃ d₁ body, d.Answering r d₁ ∧ d' = d₁.withReply body) := by
  have hatt : r ≠ .attach → d.attached := fun hne => h.attached.resolve_right hne
  by_cases hruns : r.Runs
  · have hattached : d.attached := hatt fun heq => by
      rw [heq] at hruns
      revert hruns
      decide
    obtain rfl | rfl := hruns
    · exact ⟨_, rfl, .inl ⟨.inl rfl, rfl, h.ready, hattached, rfl, rfl, rfl⟩⟩
    · exact ⟨_, rfl, .inl ⟨.inr rfl, rfl, h.ready, hattached, rfl, rfl, rfl⟩⟩
  have answered : ∀ {d₁ body}, body.size ≤ 240 → d.Answering r d₁ →
      ∃ d', d₁.send body = .ok d' ∧ (d.Running r d' ∨
        ¬ r.Runs ∧ ∃ d₁ body, d.Answering r d₁ ∧ d' = d₁.withReply body) := fun hsize ha =>
    ⟨_, send_eq ha.ready hsize, .inr ⟨hruns, _, _, ha, rfl⟩⟩
  have status : ∀ status aux, (ReplyBody.status status aux).size ≤ 240 := fun _ _ => by
    simp [ReplyBody.size]
  have asking : r ≠ .attach ∧ r ≠ .detach ∧ r ≠ .stopPacketIn → d.Answering r d :=
    fun hne => h.asking (hatt hne.1) hne.2.1 hne.2.2
  -- what a request does that leaves the client attached and `stop_packet_in` as it is
  have setting : r ≠ .attach ∧ r ≠ .detach ∧ r ≠ .stopPacketIn →
      ∀ breakPacketIn watchpoints filterAll filter, d.Answering r
        { d with breakPacketIn, watchpoints, filterAll, filter } :=
    fun hne breakPacketIn watchpoints filterAll filter =>
      h.answering (hatt hne.1) hne.2.1 breakPacketIn d.stopPacketIn watchpoints filterAll filter
        d.reqId (.inl rfl) fun hor => (hor.resolve_left hne.2.2).1
  cases r with
  | continue_ => exact absurd (.inl rfl) hruns
  | next => exact absurd (.inr rfl) hruns
  | getValue packetId id =>
    have hask := asking (by simp)
    unfold requestDispatch reqGetValue
    dsimp only
    split
    · exact answered (status _ _) hask
    next registers hregisters =>
      split
      · exact answered (status _ _) hask
      next bytes hbytes =>
        have hle : bytes.length ≤ 212 := hroom registers hregisters bytes hbytes
        exact answered (by rw [ReplyBody.size]; omega) hask
  | getBacktrace packetId =>
    have hask := asking (by simp)
    unfold requestDispatch reqGetBacktrace
    dsimp only
    split
    · exact answered (status _ _) hask
    next stack hstack =>
      have hle : stack.length ≤ 55 := hroom stack hstack
      exact answered (by rw [ReplyBody.size]; omega) hask
  | breakPacketIn =>
    exact answered (status _ _) (setting (by simp) true _ _ _)
  | removePacketIn =>
    unfold requestDispatch reqRemovePacketIn
    dsimp only
    split_ifs
    · exact answered (status _ _) (asking (by simp))
    · exact answered (status _ _) (setting (by simp) false _ _ _)
  | stopPacketIn =>
    exact answered (status _ _) (h.answering (hatt (by simp)) (by simp) d.breakPacketIn true
      d.watchpoints d.filterAll d.filter d.reqId (.inl rfl) fun _ => rfl)
  | resumePacketIn =>
    unfold requestDispatch reqResumePacketIn
    dsimp only
    split_ifs
    · exact answered (status _ _) (asking (by simp))
    · refine answered (status _ _) (h.answering (hatt (by simp)) (by simp) d.breakPacketIn false
        d.watchpoints d.filterAll d.filter d.reqId (.inl rfl) fun hor => ?_)
      exact absurd (.inl rfl) (hor.resolve_left (by simp)).2
  | filterNotifications ids =>
    obtain ⟨filter, filterAll, heq⟩ := foldl_addFilter ids { d with filter := ∅, filterAll := ∅ }
    unfold requestDispatch reqFilterNotifications
    dsimp only
    rw [heq]
    exact answered (status _ _) (setting (by simp) _ _ filterAll filter)
  | setWatchpoint id =>
    exact answered (status _ _) (setting (by simp) _ (insert id d.watchpoints) _ _)
  | unsetWatchpoint id =>
    unfold requestDispatch reqUnsetWatchpoint
    dsimp only
    split_ifs
    · exact answered (status _ _) (setting (by simp) _ (d.watchpoints.erase id) _ _)
    · exact answered (status _ _) (asking (by simp))
  | reset =>
    refine answered (status _ _) (h.answering (hatt (by simp)) (by simp) false false ∅ ∅ ∅ 0
      (.inr ⟨.inl rfl, rfl⟩) fun hor => ?_)
    exact absurd (.inr (.inl rfl)) (hor.resolve_left (by simp)).2
  | attach =>
    unfold requestDispatch reqAttach
    dsimp only
    split_ifs with hattached
    · exact answered (status _ _) (h.asking hattached (by simp) (by simp))
    · refine answered (status _ _) ⟨rfl, h.ready, h.breakNext, rfl, fun _ => rfl,
        .inr ⟨.inr (.inl rfl), rfl⟩, by simp, fun hor => ?_⟩
      exact absurd (hor.resolve_left (by simp)).1 hattached
  | detach =>
    have hattached := hatt (by simp)
    unfold requestDispatch reqDetach
    dsimp only
    rw [if_neg (by rw [hattached]; decide)]
    refine answered (status _ _) ⟨rfl, h.ready, h.breakNext, rfl, fun hne => absurd rfl hne,
      .inr ⟨.inr (.inr rfl), rfl⟩, fun _ => ⟨rfl, rfl⟩, fun hor => ?_⟩
    exact absurd (.inr (.inr rfl)) (hor.resolve_left (by simp)).2.2

variable {m : DebuggerMsg}

/-- A message is read as it was sent if a filter has at most 30 ids. -/
theorem requestIn_wire (hm : m.Fits)
    (hids : ∀ ids, m.request = .filterNotifications ids → ids.length ≤ 30) :
    d.requestIn (m.wire.take 512) = d.requestDispatch m.request := by
  have hread := DebuggerMsg.readRequest_wire hm []
  rw [List.append_nil] at hread
  rw [List.take_of_length_le ((DebuggerMsg.length_wire_le m).mpr hids), requestIn, hread]

theorem requestIn_ok (h : d.Requested m.request) (hm : m.Fits)
    (hroom : d.RequestInBounds m.request) :
    ∃ d', d.requestIn (m.wire.take 512) = .ok d' ∧ (d.Running m.request d' ∨
      ¬ m.request.Runs ∧ ∃ d₁ body, d.Answering m.request d₁ ∧ d' = d₁.withReply body) := by
  have hids : ∀ ids, m.request = .filterNotifications ids → ids.length ≤ 30 := by
    intro ids heq
    rw [heq] at hroom
    exact hroom
  rw [requestIn_wire hm hids]
  exact requestDispatch_ok h hroom

/-- A request that is out of bounds is not defined. -/
theorem requestIn_fails (hm : m.Fits) (hroom : ¬ d.RequestInBounds m.request) :
    ∃ fault, d.requestIn (m.wire.take 512) = .error fault := by
  obtain ⟨reqId, request⟩ := m
  cases request with
  | getValue packetId id =>
    rw [requestIn_wire hm (by simp)]
    simp only [RequestInBounds, not_forall] at hroom
    obtain ⟨registers, hregisters, bytes, hbytes, hlong⟩ := hroom
    rw [Option.mem_def] at hregisters hbytes
    refine ⟨.repStorage, ?_⟩
    simp only [requestDispatch, reqGetValue, hregisters, hbytes]
    exact send_fails (by rw [ReplyBody.size]; omega)
  | getBacktrace packetId =>
    rw [requestIn_wire hm (by simp)]
    simp only [RequestInBounds, not_forall] at hroom
    obtain ⟨stack, hstack, hlong⟩ := hroom
    rw [Option.mem_def] at hstack
    refine ⟨.repStorage, ?_⟩
    simp only [requestDispatch, reqGetBacktrace, hstack]
    exact send_fails (by rw [ReplyBody.size]; omega)
  | filterNotifications ids =>
    refine ⟨.storage, ?_⟩
    rw [requestIn, DebuggerMsg.readRequest_cut hm (not_le.mp hroom)]
  | _ => exact absurd trivial hroom

end Requests

end DebuggerNN

end Bmv2
