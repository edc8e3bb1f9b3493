import Bmv2.Debugger.Protocol
import Bmv2.Debugger.Steps

/-! The packet threads stand still while the client looks at them: from a reply to the next request
that lets them go on, none of them gets through the debugger. -/
namespace Bmv2
open Transition

namespace RequestThread

/-- A request of a client that has attached by now, or does it with this one. -/
def Pending (d : DebuggerNN) (clientAttached : Bool) (m : DebuggerMsg) : Prop :=
  (d.attached ∨ m.request = .attach) ∧ clientAttached = decide (m.request ≠ .detach)

/-- What is so where the thread is. While it waits without a reply, it serves a request that lets
the packet threads go on. -/
def Fits (d : DebuggerNN) (clientAttached : Bool) : RequestThread → Prop
  | .recv => clientAttached = d.attached
  | .received m => Pending d clientAttached m
  | .cleared m => Pending d clientAttached m ∧ d.replyReady = false
  | .dispatching m => Pending d clientAttached m ∧ d.replyReady = false ∧ d.reqId = m.reqId
  | .waiting m => clientAttached = d.attached ∧ d.attached = decide (m.request ≠ .detach) ∧
    (m.request = .stopPacketIn → d.stopPacketIn) ∧
    (d.replyReady = false → m.request.Runs ∧ d.reqId = m.reqId) ∧
    (d.replyReady → ∃ reply, d.repStorage = some reply ∧
      (reply.reqId = m.reqId ∨ m.request.Resets ∧ reply.reqId = 0))

def isWaiting : RequestThread → Bool
  | .waiting _ => true
  | _ => false

end RequestThread

namespace DebuggerSystem

/-- While the client is attached, the packet threads go on only as long as a request waits for a
reply; without it, there is nothing that they stop for. -/
structure Wf (s : DebuggerSystem) : Prop where
  counted : s.debugger.Counted
  stopped : s.debugger.attached → s.debugger.canContinue →
    s.requestThread.isWaiting ∧ s.debugger.replyReady = false
  breakNext : s.debugger.breakNext → s.debugger.attached ∧ s.debugger.canContinue
  detached : s.debugger.attached = false →
    s.debugger.breakPacketIn = false ∧ s.debugger.watchpoints = ∅
  requestThread : s.requestThread.Fits s.debugger s.clientAttached
  calls : ∀ (t : ℕ) (c : PacketCall) (p : CallPoint), s.threads[t]? = some (some (c, p)) →
    (c.isPacketIn ↔ ¬ s.debugger.Live c.packetId)
  distinct : ∀ (t t' : ℕ) (x x' : PacketCall × CallPoint), s.threads[t]? = some (some x) →
    s.threads[t']? = some (some x') → x.1.packetId = x'.1.packetId → t = t'
  wellFormed : ∀ m, s.requestThread.serves = some m → m.Fits

variable {s s' : DebuggerSystem} {op : DebuggerOp} {e : DebuggerEvent} {m : DebuggerMsg}
  {t : ℕ} {c : PacketCall} {p : CallPoint}

/-- Until the debugger waits for a reply, the packet threads of an attached client stand still. -/
theorem Wf.still (h : s.Wf) (hw : s.requestThread.isWaiting = false) :
    (s.debugger.attached → s.debugger.canContinue = false) ∧ s.debugger.breakNext = false := by
  have hcontinue : s.debugger.attached → s.debugger.canContinue = false := by
    intro hatt
    by_contra hcon
    have hwait := (h.stopped hatt (by simpa using hcon)).1
    rw [hw] at hwait
    exact Bool.false_ne_true hwait
  refine ⟨hcontinue, ?_⟩
  by_contra hnext
  obtain ⟨hatt, hcon⟩ := h.breakNext (by simpa using hnext)
  rw [hcontinue hatt] at hcon
  exact Bool.false_ne_true hcon

/-- Another state of the debugger and of the thread that serves the requests. -/
theorem Wf.serve (h : s.Wf) {d : DebuggerNN} {pc : RequestThread} {clientAttached : Bool}
    (hpackets : d.toDebuggerPackets = s.debugger.toDebuggerPackets)
    (hstopped : d.attached → d.canContinue → pc.isWaiting ∧ d.replyReady = false)
    (hnext : d.breakNext → d.attached ∧ d.canContinue)
    (hdetached : d.attached = false → d.breakPacketIn = false ∧ d.watchpoints = ∅)
    (hfits : pc.Fits d clientAttached) (hserves : ∀ m, pc.serves = some m → m.Fits) :
    Wf { s with debugger := d, requestThread := pc, clientAttached } where
  counted := by
    change d.toDebuggerPackets.Counted
    rw [hpackets]
    exact h.counted
  stopped := hstopped
  breakNext := hnext
  detached := hdetached
  requestThread := hfits
  calls t c p hk := by
    change _ ↔ ¬ d.toDebuggerPackets.Live c.packetId
    rw [hpackets]
    exact h.calls t c p hk
  distinct := h.distinct
  wellFormed := hserves

/-- The request that is being served stays the same. -/
theorem Wf.serving (h : s.Wf) {pc : RequestThread} (hpc : s.requestThread.serves = some m)
    (hserves : pc.serves = some m) : ∀ m', pc.serves = some m' → m'.Fits := by
  intro m' hm'
  obtain rfl := Option.some.inj (hserves.symm.trans hm')
  exact h.wellFormed m hpc

theorem Wf.recv (h : s.Wf) (hpc : s.requestThread = .recv) (hm : m.Fits)
    (hkeep : s.clientAttached ∨ m.request = .attach) :
    Wf { s with
      requestThread := .received m
      clientAttached := m.request = .attach ∨ (s.clientAttached ∧ m.request ≠ .detach) } := by
  have hfits := h.requestThread
  rw [hpc] at hfits
  have hatt : s.clientAttached = s.debugger.attached := hfits
  obtain ⟨hstill, hnext⟩ := h.still (by rw [hpc]; rfl)
  refine h.serve rfl (fun ha hc => ?_) h.breakNext h.detached ⟨?_, ?_⟩ ?_
  · rw [hstill ha] at hc
    exact absurd hc Bool.false_ne_true
  · rw [← hatt]
    exact hkeep
  · by_cases hd : m.request = .detach
    · simp [hd]
    · by_cases ha : m.request = .attach
      · simp [ha]
      · simp [hd, hkeep.resolve_right ha]
  · intro m' hm'
    obtain rfl := Option.some.inj hm'
    exact hm

/-- The reply is sent, and the next request can come. -/
theorem Wf.reply (h : s.Wf) (hpc : s.requestThread = .waiting m)
    (hready : s.debugger.replyReady) :
    Wf { s with requestThread := .recv } ∧ ∃ reply, s.debugger.repStorage = some reply ∧
      (reply.reqId = m.reqId ∨ m.request.Resets ∧ reply.reqId = 0) := by
  have hfits := h.requestThread
  rw [hpc] at hfits
  obtain ⟨hclient, -, -, -, hreply⟩ := hfits
  refine ⟨h.serve rfl (fun ha hc => ?_) h.breakNext h.detached hclient nofun, hreply hready⟩
  have hfalse := (h.stopped ha hc).2
  rw [hready] at hfalse
  exact absurd hfalse (by decide)

theorem Wf.requested (h : s.Wf) (hpc : s.requestThread = .dispatching m) :
    s.debugger.Requested m.request := by
  have hfits := h.requestThread
  rw [hpc] at hfits
  obtain ⟨⟨hpend, -⟩, hready, -⟩ := hfits
  obtain ⟨hstill, hnext⟩ := h.still (by rw [hpc]; rfl)
  exact ⟨hready, hnext, hpend, hstill⟩

theorem Wf.dispatch (h : s.Wf) (hpc : s.requestThread = .dispatching m)
    (hroom : s.debugger.RequestInBounds m.request) :
    ∃ d, s.debugger.requestIn (m.wire.take 512) = .ok d ∧
      Wf { s with debugger := d, requestThread := .waiting m } := by
  have hfits := h.requestThread
  rw [hpc] at hfits
  obtain ⟨⟨-, hclient⟩, -, hreq⟩ := hfits
  have hserves : s.requestThread.serves = some m := by
    rw [hpc]
    rfl
  obtain ⟨d, hok, hd⟩ := DebuggerNN.requestIn_ok (h.requested hpc) (h.wellFormed m hserves) hroom
  refine ⟨d, hok, ?_⟩
  rcases hd with hrun | ⟨hruns, d₁, body, ha, rfl⟩
  · have hne : m.request ≠ .detach := by
      rcases hrun.runs with heq | heq <;> simp [heq]
    refine h.serve hrun.packets (fun _ _ => ⟨rfl, hrun.ready⟩)
      (fun _ => ⟨hrun.attached, hrun.canContinue⟩) (fun hatt => ?_) ⟨?_, ?_, ?_, ?_, ?_⟩
      (h.serving hserves rfl)
    · rw [hrun.attached] at hatt
      exact absurd hatt (by decide)
    · rw [hclient, hrun.attached, decide_eq_true hne]
    · rw [hrun.attached, decide_eq_true hne]
    · intro heq
      rcases hrun.runs with heq' | heq' <;> simp [heq] at heq'
    · exact fun _ => ⟨hrun.runs, hrun.reqId.trans hreq⟩
    · intro hr
      rw [hrun.ready] at hr
      exact absurd hr Bool.false_ne_true
  · refine h.serve ha.packets (fun hatt hc => ?_) (fun hb => ?_) (fun hatt => ?_)
      ⟨?_, ha.attached, ?_, ?_, ?_⟩ (h.serving hserves rfl)
    · have hne : m.request ≠ .detach := of_decide_eq_true (ha.attached.symm.trans hatt)
      have hfalse : d₁.canContinue = true := hc
      rw [ha.canContinue hne] at hfalse
      exact absurd hfalse Bool.false_ne_true
    · have hfalse : d₁.breakNext = true := hb
      rw [ha.breakNext] at hfalse
      exact absurd hfalse Bool.false_ne_true
    · have hnot := of_decide_eq_false (ha.attached.symm.trans hatt)
      exact ha.detached (not_not.mp hnot)
    · exact hclient.trans ha.attached.symm
    · exact fun heq => ha.stopPacketIn (.inl heq)
    · exact fun hr => absurd hr.symm Bool.false_ne_true
    · intro _
      refine ⟨_, rfl, ?_⟩
      rcases ha.reqId with heq | hreset
      · exact .inl (heq.trans hreq)
      · exact .inr hreset

/-- The time is over: the packet threads are stopped, and the client is told that there is nothing
to tell. -/
theorem Wf.keepAlive (h : s.Wf) (hpc : s.requestThread = .waiting m)
    (hready : s.debugger.replyReady = false) :
    ∃ d, s.debugger.break_.sendKeepAlive = .ok d ∧
      Wf { s with debugger := d, requestThread := .recv } ∧
      ∃ reply, d.repStorage = some reply ∧ reply.reqId = m.reqId := by
  have hfits := h.requestThread
  rw [hpc] at hfits
  obtain ⟨hclient, -, -, hrun, -⟩ := hfits
  refine ⟨_, DebuggerNN.send_eq hready (by simp [ReplyBody.size]),
    h.serve rfl ?_ ?_ h.detached hclient nofun, _, rfl, (hrun hready).2⟩
  · exact fun _ hc => absurd hc Bool.false_ne_true
  · exact fun hb => absurd hb Bool.false_ne_true

/-- A packet thread begins a call, or waits in it. -/
theorem Wf.setThread (h : s.Wf) (hc : c.isPacketIn ↔ ¬ s.debugger.Live c.packetId)
    (hother : ∀ t' x, t' ≠ t → s.threads[t']? = some (some x) → x.1.packetId ≠ c.packetId) :
    Wf { s with threads := s.threads.set t (some (c, p)) } where
  counted := h.counted
  stopped := h.stopped
  breakNext := h.breakNext
  detached := h.detached
  requestThread := h.requestThread
  calls t' c' p' hk := by
    rw [List.getElem?_set] at hk
    split_ifs at hk with htt' hlt
    · obtain ⟨rfl, -⟩ := Prod.mk.inj (Option.some.inj (Option.some.inj hk))
      exact hc
    · exact h.calls t' c' p' hk
  distinct t₁ t₂ x₁ x₂ h₁ h₂ heq := by
    rw [List.getElem?_set] at h₁ h₂
    split_ifs at h₁ h₂ with ht₁ hlt ht₂
    · exact ht₁.symm.trans ht₂
    · obtain rfl := Option.some.inj (Option.some.inj h₁)
      exact absurd heq.symm (hother t₂ x₂ (Ne.symm ht₂) h₂)
    · obtain rfl := Option.some.inj (Option.some.inj h₂)
      exact absurd heq (hother t₁ x₁ (Ne.symm ht₁) h₁)
    · exact h.distinct t₁ t₂ x₁ x₂ h₁ h₂ heq
  wellFormed := h.wellFormed

/-- There is something to stop for only while a client is attached. -/
theorem Wf.attached_of_alerts (h : s.Wf) (halert : s.debugger.Alerts) : s.debugger.attached := by
  by_contra hdet
  obtain ⟨hbreak, hwatch⟩ := h.detached (by simpa using hdet)
  rcases halert with hnext | hne | hb
  · exact hdet (h.breakNext hnext).1
  · exact hne hwatch
  · rw [hbreak] at hb
    exact Bool.false_ne_true hb

theorem Wf.completes (h : s.Wf) (hk : s.threads[t]? = some (some (c, p)))
    (hw : s.debugger.waits c p = none) (hroom : s.debugger.CallInBounds c) :
    ∃ d, s.debugger.complete c = .ok d ∧ s.debugger.Completes c d :=
  DebuggerNN.complete_completes h.counted (h.calls t c p hk)
    (fun halert => (h.stopped (h.attached_of_alerts halert) (DebuggerNN.of_waits hw).1).2) hroom

/-- A call ends, and the packet threads may be stopped with a reply to the request that has let
them go on. -/
theorem Wf.complete (h : s.Wf) (hk : s.threads[t]? = some (some (c, p)))
    (hw : s.debugger.waits c p = none) (hroom : s.debugger.CallInBounds c) :
    ∃ d, s.debugger.complete c = .ok d ∧
      Wf { s with debugger := d, threads := s.threads.set t none } := by
  obtain ⟨d, hok, hd⟩ := h.completes hk hw hroom
  have hthreads : ∀ (t' : ℕ) (x : PacketCall × CallPoint), (s.threads.set t none)[t']? =
      some (some x) → t' ≠ t ∧ s.threads[t']? = some (some x) := by
    intro t' x hx
    rw [List.getElem?_set] at hx
    split_ifs at hx with htt' hlt
    · cases hx
    · exact ⟨Ne.symm htt', hx⟩
  have hcalls : ∀ (t' : ℕ) (c' : PacketCall) (p' : CallPoint),
      (s.threads.set t none)[t']? = some (some (c', p')) →
        (c'.isPacketIn ↔ ¬ d.Live c'.packetId) := by
    intro t' c' p' hx
    obtain ⟨hne, hx⟩ := hthreads t' _ hx
    rw [hd.live c'.packetId fun heq => hne (h.distinct t' t _ _ hx hk heq)]
    exact h.calls t' c' p' hx
  have hdistinct : ∀ (t₁ t₂ : ℕ) (x₁ x₂ : PacketCall × CallPoint),
      (s.threads.set t none)[t₁]? = some (some x₁) →
      (s.threads.set t none)[t₂]? = some (some x₂) → x₁.1.packetId = x₂.1.packetId → t₁ = t₂ :=
    fun t₁ t₂ x₁ x₂ h₁ h₂ => h.distinct t₁ t₂ x₁ x₂ (hthreads t₁ x₁ h₁).2 (hthreads t₂ x₂ h₂).2
  refine ⟨d, hok, ?_⟩
  rcases hd.control with hsame | ⟨halert, body, hreply⟩
  · -- the flags are as they were
    have hfits : s.requestThread.Fits d s.clientAttached := by
      have hold := h.requestThread
      rw [hsame]
      cases hpc : s.requestThread <;> rw [hpc] at hold <;> exact hold
    have hstopped := h.stopped
    have hnext := h.breakNext
    have hdetached := h.detached
    refine ⟨hd.counted, ?_, ?_, ?_, hfits, hcalls, hdistinct, h.wellFormed⟩ <;>
      dsimp only <;> rw [hsame]
    · exact hstopped
    · exact hnext
    · exact hdetached
  · -- the request that waits gets its reply
    have hatt := h.attached_of_alerts halert
    obtain ⟨hwait, hnot⟩ := h.stopped hatt (DebuggerNN.of_waits hw).1
    have hfits : s.requestThread.Fits d s.clientAttached := by
      have hold := h.requestThread
      rw [hreply]
      cases hpc : s.requestThread with
      | waiting m =>
        rw [hpc] at hold
        obtain ⟨hclient, hreq, hstop, hrun, -⟩ := hold
        exact ⟨hclient, hreq, hstop, fun hr => absurd hr.symm Bool.false_ne_true,
          fun _ => ⟨_, rfl, .inl (hrun hnot).2⟩⟩
      | _ =>
        rw [hpc] at hwait
        exact absurd hwait Bool.false_ne_true
    refine ⟨hd.counted, ?_, ?_, ?_, hfits, hcalls, hdistinct, h.wellFormed⟩ <;>
      dsimp only <;> rw [hreply]
    · exact fun _ hc => absurd hc Bool.false_ne_true
    · exact fun hb => absurd hb Bool.false_ne_true
    · exact fun hdet => absurd (hatt.symm.trans hdet) (by decide)

/-- The reply to a request, if the step sends one. -/
def RepliesTo (e : DebuggerEvent) : Prop :=
  ∀ m r, e = .sent m r → ∃ reply, r = some reply ∧
    (reply.reqId = m.reqId ∨ m.request.Resets ∧ reply.reqId = 0)

/-- What is dispatched is within the bounds. -/
theorem InBounds.request (h : s.InBounds .dispatch) (hpc : s.requestThread = .dispatching m) :
    s.debugger.RequestInBounds m.request :=
  h m (by rw [hpc]; rfl)

/-- What ends is within the bounds. -/
theorem InBounds.call (h : s.InBounds (.run t)) (hk : s.threads[t]? = some (some (c, p)))
    (hw : s.debugger.waits c p = none) : s.debugger.CallInBounds c :=
  h (c, p) (by rw [hk]; rfl) hw

/-- No step fails an assertion, and each keeps the invariant. -/
theorem Wf.step (h : s.Wf) (hop : s.Ok op) (hs : s.step op = some (e, s')) :
    s'.Wf ∧ (∀ fault, e ≠ .failed fault) ∧ RepliesTo e := by
  obtain ⟨hkeep, hroom⟩ := hop
  cases steps_of_step hs with
  | recv hpc => exact ⟨h.recv hpc hkeep.1 hkeep.2, nofun, nofun⟩
  | clearReply hpc =>
    have hfits := h.requestThread
    rw [hpc] at hfits
    obtain ⟨hstill, -⟩ := h.still (by rw [hpc]; rfl)
    refine ⟨h.serve rfl (fun ha hc => ?_) h.breakNext h.detached ⟨hfits, rfl⟩
      (h.serving (by rw [hpc]; rfl) rfl), nofun, nofun⟩
    have hfalse := hstill ha
    exact absurd (hfalse.symm.trans hc) Bool.false_ne_true
  | setReqId hpc =>
    have hfits := h.requestThread
    rw [hpc] at hfits
    obtain ⟨hstill, -⟩ := h.still (by rw [hpc]; rfl)
    refine ⟨h.serve rfl (fun ha hc => ?_) h.breakNext h.detached ⟨hfits.1, hfits.2, rfl⟩
      (h.serving (by rw [hpc]; rfl) rfl), nofun, nofun⟩
    have hfalse := hstill ha
    exact absurd (hfalse.symm.trans hc) Bool.false_ne_true
  | dispatch hpc hok =>
    obtain ⟨d, hok', hwf⟩ := h.dispatch hpc (hroom.request hpc)
    obtain rfl := Except.ok.inj (hok'.symm.trans hok)
    exact ⟨hwf, nofun, nofun⟩
  | dispatchFails hpc hfault =>
    obtain ⟨d, hok, -⟩ := h.dispatch hpc (hroom.request hpc)
    cases hok.symm.trans hfault
  | reply hpc hready =>
    obtain ⟨hwf, hreply⟩ := h.reply hpc hready
    refine ⟨hwf, nofun, fun m' r heq => ?_⟩
    obtain ⟨rfl, rfl⟩ := DebuggerEvent.sent.inj heq
    exact hreply
  | keepAlive hpc hready hok =>
    obtain ⟨d, hok', hwf, reply, hreply, hreq⟩ := h.keepAlive hpc hready
    obtain rfl := Except.ok.inj (hok'.symm.trans hok)
    refine ⟨hwf, nofun, fun m' r heq => ?_⟩
    obtain ⟨rfl, rfl⟩ := DebuggerEvent.sent.inj heq
    exact ⟨reply, hreply, .inl hreq⟩
  | keepAliveFails hpc hready hfault =>
    obtain ⟨d, hok, -⟩ := h.keepAlive hpc hready
    cases hok.symm.trans hfault
  | call hfree =>
    refine ⟨h.setThread hkeep.2 fun t' x _ hx => ?_, nofun, nofun⟩
    exact hkeep.1 _ (List.mem_of_getElem? hx) x rfl
  | @waits t c p p' hk hw =>
    refine ⟨h.setThread (h.calls t c p hk) fun t' x hne hx heq => ?_, nofun, nofun⟩
    exact hne (h.distinct t' t x (c, p) hx hk heq)
  | complete hk hw hok =>
    obtain ⟨d, hok', hwf⟩ := h.complete hk hw (hroom.call hk hw)
    obtain rfl := Except.ok.inj (hok'.symm.trans hok)
    exact ⟨hwf, nofun, nofun⟩
  | completeFails hk hw hfault =>
    obtain ⟨d, hok, -⟩ := h.complete hk hw (hroom.call hk hw)
    cases hok.symm.trans hfault

/-- A step that is out of bounds is not defined. -/
theorem Wf.step_fails (h : s.Wf) (hroom : ¬ s.InBounds op) (hs : s.step op = some (e, s')) :
    ∃ fault, e = .failed fault := by
  cases steps_of_step hs with
  | dispatch hpc hok =>
    simp only [InBounds, hpc, RequestThread.dispatching?, Option.mem_def, Option.some_inj,
      forall_eq'] at hroom
    obtain ⟨fault, hfault⟩ :=
      DebuggerNN.requestIn_fails (h.wellFormed _ (by rw [hpc]; rfl)) hroom
    cases hfault.symm.trans hok
  | complete hk hw hok =>
    have hcall : ¬ s.debugger.CallInBounds _ := fun hcall => hroom fun x hx _ => by
      rw [hk, Option.join_some, Option.mem_def, Option.some_inj] at hx
      rw [← hx]
      exact hcall
    obtain ⟨fault, hfault⟩ := DebuggerNN.complete_fails h.counted (h.calls _ _ _ hk) hcall
    cases hfault.symm.trans hok
  | waits hk hw =>
    refine absurd (fun x hx hnone => ?_) hroom
    rw [hk, Option.join_some, Option.mem_def, Option.some_inj] at hx
    rw [← hx, hw] at hnone
    cases hnone
  | dispatchFails _ _ => exact ⟨_, rfl⟩
  | keepAliveFails _ _ _ => exact ⟨_, rfl⟩
  | completeFails _ _ _ => exact ⟨_, rfl⟩
  | _ => exact absurd trivial hroom

/-- Replies are sent within the bounds. -/
theorem inBounds_of_sent {r : Option DebuggerReply} (hs : s.step op = some (.sent m r, s')) :
    s.InBounds op := by
  cases steps_of_step hs with
  | reply => trivial
  | keepAlive => trivial

/-- What a step can do to the debugger. -/
theorem Wf.step_cases (h : s.Wf) (hroom : s.InBounds op) (hs : s.step op = some (e, s')) :
    (s'.debugger.toDebuggerPackets = s.debugger.toDebuggerPackets ∧
      s'.debugger.attached = s.debugger.attached ∧
      s'.debugger.stopPacketIn = s.debugger.stopPacketIn ∧
      (s'.debugger.canContinue → s.debugger.canContinue) ∧
      e.completed? = none ∧ e.dispatched? = none) ∨
    (∃ m, e = .dispatched m ∧ (s.debugger.Running m.request s'.debugger ∨
      ∃ d body, s.debugger.Answering m.request d ∧ s'.debugger = d.withReply body)) ∨
    ∃ t c p, e = .completed t c ∧ s.debugger.waits c p = none ∧
      s.debugger.Completes c s'.debugger := by
  cases steps_of_step hs with
  | recv | clearReply | setReqId | reply | call | waits =>
    exact .inl ⟨rfl, rfl, rfl, id, rfl, rfl⟩
  | @dispatch m d hpc hok =>
    obtain ⟨d', hok', hd⟩ := DebuggerNN.requestIn_ok (h.requested hpc)
      (h.wellFormed m (by rw [hpc]; rfl)) (hroom.request hpc)
    obtain rfl := Except.ok.inj (hok'.symm.trans hok)
    exact .inr (.inl ⟨m, rfl, hd.imp_right fun hand => hand.2⟩)
  | dispatchFails hpc hfault =>
    obtain ⟨d, hok, -⟩ := h.dispatch hpc (hroom.request hpc)
    cases hok.symm.trans hfault
  | keepAlive hpc hready hok =>
    have hbreak : s.debugger.break_.replyReady = false := hready
    have hsize : ReplyBody.keepAlive.size ≤ 240 := by simp [ReplyBody.size]
    have hsend := DebuggerNN.send_eq hbreak hsize
    obtain rfl := Except.ok.inj (hsend.symm.trans hok)
    exact .inl ⟨rfl, rfl, rfl, fun hc => absurd hc Bool.false_ne_true, rfl, rfl⟩
  | keepAliveFails hpc hready hfault =>
    obtain ⟨d, hok, -⟩ := h.keepAlive hpc hready
    cases hok.symm.trans hfault
  | @complete t c p d hk hw hok =>
    obtain ⟨d', hok', hd⟩ := h.completes hk hw (hroom.call hk hw)
    obtain rfl := Except.ok.inj (hok'.symm.trans hok)
    exact .inr (.inr ⟨t, c, p, rfl, hw, hd⟩)
  | completeFails hk hw hfault =>
    obtain ⟨d, hok, -⟩ := h.complete hk hw (hroom.call hk hw)
    cases hok.symm.trans hfault

/-- The packet threads of an attached client are stopped. -/
def Stopped (s : DebuggerSystem) : Prop :=
  s.debugger.attached = true ∧ s.debugger.canContinue = false

/-- They stay so until a request lets them go on, and do nothing till then. -/
theorem Wf.stopped_step (h : s.Wf) (hstop : s.Stopped) (hroom : s.InBounds op)
    (hs : s.step op = some (e, s'))
    (he : ∀ r, e.dispatched? = some r → ¬ r.Runs ∧ r ≠ .detach) :
    s'.Stopped ∧ s'.debugger.toDebuggerPackets = s.debugger.toDebuggerPackets ∧
      e.completed? = none := by
  obtain ⟨hatt, hcon⟩ := hstop
  rcases h.step_cases hroom hs with ⟨hpackets, hatt', -, hcon', hnone, -⟩ | ⟨m, rfl, hd⟩ |
    ⟨t, c, p, rfl, hw, -⟩
  · refine ⟨⟨hatt'.trans hatt, ?_⟩, hpackets, hnone⟩
    by_contra hne
    exact absurd (hcon.symm.trans (hcon' (by simpa using hne))) Bool.false_ne_true
  · obtain ⟨hruns, hdetach⟩ := he m.request rfl
    rcases hd with hrun | ⟨d, body, ha, hd⟩
    · exact absurd hrun.runs hruns
    · rw [Stopped, hd]
      exact ⟨⟨ha.attached.trans (decide_eq_true hdetach), ha.canContinue hdetach⟩, ha.packets, rfl⟩
  · have hgo := (DebuggerNN.of_waits hw).1
    rw [hcon] at hgo
    exact absurd hgo Bool.false_ne_true

/-- No new packets come in for an attached client. -/
def StopsPacketIn (s : DebuggerSystem) : Prop :=
  s.debugger.attached = true ∧ s.debugger.stopPacketIn = true

/-- That is so until a request undoes it. -/
theorem Wf.stopsPacketIn_step (h : s.Wf) (hstop : s.StopsPacketIn) (hroom : s.InBounds op)
    (hs : s.step op = some (e, s')) (he : ∀ r, e.dispatched? = some r → ¬ r.Undoes) :
    s'.StopsPacketIn := by
  obtain ⟨hatt, hin⟩ := hstop
  rcases h.step_cases hroom hs with ⟨-, hatt', hin', -, -, -⟩ | ⟨m, rfl, hd⟩ | ⟨t, c, p, rfl, -, hd⟩
  · exact ⟨hatt'.trans hatt, hin'.trans hin⟩
  · have hundo := he m.request rfl
    have hdetach : m.request ≠ .detach := fun heq => hundo (.inr (.inr heq))
    rcases hd with hrun | ⟨d, body, ha, hd⟩
    · exact ⟨hrun.attached, hrun.stopPacketIn.trans hin⟩
    · rw [StopsPacketIn, hd]
      exact ⟨ha.attached.trans (decide_eq_true hdetach), ha.stopPacketIn (.inr ⟨hatt, hin, hundo⟩)⟩
  · rcases hd.control with hsame | ⟨-, body, hreply⟩
    · rw [StopsPacketIn, hsame]
      exact ⟨hatt, hin⟩
    · rw [StopsPacketIn, hreply]
      exact ⟨hatt, hin⟩

/-- A packet that comes in meanwhile has a live copy. -/
theorem Wf.live_copy (h : s.Wf) (hstop : s.StopsPacketIn) {packetId : Debugger.PacketId} {port : ℤ}
    (hs : s.step op = some (.completed t (.packetIn packetId port), s')) :
    ∃ id, s.debugger.Live id ∧ id.packetId = packetId.packetId := by
  cases steps_of_step hs with
  | complete hk hw hok =>
    exact h.counted.live_copy ((DebuggerNN.of_waits hw).2 packetId port rfl hstop.2)

/-- Where a reply is sent. -/
theorem of_sent {r : Option DebuggerReply} (hs : s.step op = some (.sent m r, s')) :
    s.requestThread = .waiting m ∧ s'.requestThread = .recv := by
  cases steps_of_step hs with
  | reply hpc => exact ⟨hpc, rfl⟩
  | keepAlive hpc => exact ⟨hpc, rfl⟩

/-- The requests that have been received are those that have been answered, and the one that is
being served. -/
theorem serves_step (hs : s.step op = some (e, s')) :
    s.requestThread.serves.toList ++ e.received?.toList =
      e.answered?.toList ++ s'.requestThread.serves.toList := by
  cases steps_of_step hs with
  | recv hpc | clearReply hpc | setReqId hpc | dispatch hpc | reply hpc | keepAlive hpc =>
    rw [hpc]
    rfl
  | dispatchFails | keepAliveFails | call | waits | complete | completeFails =>
    exact List.append_nil _

/-- A run of the system. -/
abbrev Runs (s : DebuggerSystem) (l : List (DebuggerOp × DebuggerEvent)) (s' : DebuggerSystem) :
    Prop := Run step Ok s l s'

theorem serves_run {l : List (DebuggerOp × DebuggerEvent)} (h : s.Runs l s') :
    s.requestThread.serves.toList ++ l.filterMap (·.2.received?) =
      l.filterMap (·.2.answered?) ++ s'.requestThread.serves.toList := by
  induction h with
  | nil => exact List.append_nil _
  | @cons _ _ _ _ e l _ hs _ ih =>
    have filterMap_cons : ∀ f : DebuggerEvent → Option DebuggerMsg, ∀ op : DebuggerOp,
        ((op, e) :: l).filterMap (fun p => f p.2) =
          (f e).toList ++ l.filterMap (fun p => f p.2) := by
      intro f op
      cases hf : f e <;> simp [hf]
    rw [filterMap_cons, filterMap_cons, ← List.append_assoc, serves_step hs, List.append_assoc, ih,
      List.append_assoc]

/-- The thread that serves the requests sends the reply to `m`, in this many steps of its own. -/
def AnswersIn (s : DebuggerSystem) (n : ℕ) (m : DebuggerMsg) : Prop :=
  ∃ l s', s.Runs l s' ∧ l.length = n ∧ (∀ p ∈ l, p.1.ofRequestThread) ∧
    l.filterMap (·.2.answered?) = [m]

theorem AnswersIn.cons {n : ℕ} (hop : op.ofRequestThread) (hkeep : s.Ok op)
    (hs : s.step op = some (e, s')) (he : e.answered? = none) (h : s'.AnswersIn n m) :
    s.AnswersIn (n + 1) m := by
  obtain ⟨l, s₂, hrun, hlen, hall, hanswered⟩ := h
  refine ⟨(op, e) :: l, s₂, .cons hkeep hs hrun, congrArg (· + 1) hlen,
    List.forall_mem_cons.mpr ⟨hop, hall⟩, ?_⟩
  rw [List.filterMap_cons_none (by exact he)]
  exact hanswered

/-- No packet thread can keep a request from its reply. -/
theorem Wf.answersIn (h : s.Wf) (hm : s.requestThread.serves = some m)
    (hroom : s.requestThread.isWaiting ∨ s.debugger.RequestInBounds m.request) :
    s.AnswersIn s.requestThread.rank m := by
  have waiting : ∀ {s : DebuggerSystem}, s.Wf → s.requestThread = .waiting m →
      s.AnswersIn 1 m := by
    intro s h hpc
    cases hready : s.debugger.replyReady with
    | true =>
      have hs : s.step .reply = some (.sent m s.debugger.repStorage,
          { s with requestThread := .recv }) := by
        simp only [DebuggerSystem.step, hpc, hready, if_true]
      have hop : s.Ok .reply := ⟨trivial, trivial⟩
      exact ⟨_, _, .cons hop hs (.nil _), rfl, by simp [DebuggerOp.ofRequestThread], rfl⟩
    | false =>
      obtain ⟨d, hok, -⟩ := h.keepAlive hpc hready
      have hs : s.step .keepAlive = some (.sent m d.repStorage,
          { s with debugger := d, requestThread := .recv }) := by
        simp only [DebuggerSystem.step, hpc, hready, hok]
        rfl
      have hop : s.Ok .keepAlive := ⟨trivial, trivial⟩
      exact ⟨_, _, .cons hop hs (.nil _), rfl, by simp [DebuggerOp.ofRequestThread], rfl⟩
  have dispatching : ∀ {s : DebuggerSystem}, s.Wf → s.requestThread = .dispatching m →
      s.debugger.RequestInBounds m.request → s.AnswersIn 2 m := by
    intro s h hpc hroom
    obtain ⟨d, hok, hwf⟩ := h.dispatch hpc hroom
    have hs : s.step .dispatch = some (.dispatched m,
        { s with debugger := d, requestThread := .waiting m }) := by
      simp only [DebuggerSystem.step, hpc, hok]
    have hop : s.Ok .dispatch := by
      refine ⟨trivial, fun m' hm' => ?_⟩
      rw [hpc] at hm'
      obtain rfl := Option.some.inj hm'
      exact hroom
    exact .cons rfl hop hs rfl (waiting hwf rfl)
  have cleared : ∀ {s : DebuggerSystem}, s.Wf → s.requestThread = .cleared m →
      s.debugger.RequestInBounds m.request → s.AnswersIn 3 m := by
    intro s h hpc hroom
    have hs : s.step .setReqId = some (.internal, { s with
        debugger := { s.debugger with reqId := m.reqId }
        requestThread := .dispatching m }) := by
      simp only [DebuggerSystem.step, hpc]
    have hop : s.Ok .setReqId := ⟨trivial, trivial⟩
    exact .cons rfl hop hs rfl (dispatching (h.step hop hs).1 rfl hroom)
  cases hpc : s.requestThread with
  | recv =>
    rw [hpc] at hm
    cases hm
  | received m' =>
    rw [hpc] at hm hroom
    obtain rfl := Option.some.inj hm
    have hs : s.step .clearReply = some (.internal, { s with
        debugger := { s.debugger with replyReady := false }
        requestThread := .cleared m' }) := by
      simp only [DebuggerSystem.step, hpc]
    have hop : s.Ok .clearReply := ⟨trivial, trivial⟩
    exact .cons rfl hop hs rfl
      (cleared (h.step hop hs).1 rfl (hroom.resolve_left Bool.false_ne_true))
  | cleared m' =>
    rw [hpc] at hm hroom
    obtain rfl := Option.some.inj hm
    exact cleared h hpc (hroom.resolve_left Bool.false_ne_true)
  | dispatching m' =>
    rw [hpc] at hm hroom
    obtain rfl := Option.some.inj hm
    exact dispatching h hpc (hroom.resolve_left Bool.false_ne_true)
  | waiting m' =>
    rw [hpc] at hm hroom
    obtain rfl := Option.some.inj hm
    exact waiting h hpc

/-- The debugger with its packet threads, before the client attaches. -/
def init (n : ℕ) : DebuggerSystem := { threads := List.replicate n none }

theorem wf_init (n : ℕ) : (init n).Wf where
  counted := ⟨fun _ => rfl, fun _ => Iff.rfl⟩
  stopped hatt := absurd hatt Bool.false_ne_true
  breakNext hnext := absurd hnext Bool.false_ne_true
  detached _ := ⟨rfl, rfl⟩
  requestThread := rfl
  calls t c p hk := by
    have hmem := List.mem_of_getElem? hk
    cases List.eq_of_mem_replicate hmem
  distinct t t' x x' hk := by
    have hmem := List.mem_of_getElem? hk
    cases List.eq_of_mem_replicate hmem
  wellFormed := nofun

theorem Wf.run {l : List (DebuggerOp × DebuggerEvent)} (h : s.Wf) (hrun : s.Runs l s') : s'.Wf :=
  hrun.invariant Wf (fun _ => True)
    (fun _ _ _ _ h hop hs _ => (h.step hop hs).1) h fun _ _ => trivial

/-- From a reply on the packet threads are stopped, unless it is to a request to detach. -/
theorem Wf.stopped_of_sent (h : s.Wf) {r : Option DebuggerReply} (hop : s.Ok op)
    (hs : s.step op = some (.sent m r, s')) (hm : m.request ≠ .detach) : s'.Stopped := by
  obtain ⟨hpc, hpc'⟩ := of_sent hs
  have hfits := h.requestThread
  rw [hpc] at hfits
  obtain ⟨-, hatt, -⟩ := hfits
  have hatt' : s'.debugger.attached = true := by
    rcases h.step_cases (inBounds_of_sent hs) hs with
      ⟨-, hsame, -⟩ | ⟨_, heq, -⟩ | ⟨_, _, _, heq, -⟩
    · rw [hsame, hatt, decide_eq_true hm]
    · cases heq
    · cases heq
  exact ⟨hatt', ((h.step hop hs).1.still (by rw [hpc']; rfl)).1 hatt'⟩

theorem Wf.stopsPacketIn_of_sent (h : s.Wf) {r : Option DebuggerReply}
    (hs : s.step op = some (.sent m r, s')) (hm : m.request = .stopPacketIn) :
    s'.StopsPacketIn := by
  obtain ⟨hpc, -⟩ := of_sent hs
  have hfits := h.requestThread
  rw [hpc] at hfits
  obtain ⟨-, hatt, hstop, -⟩ := hfits
  rcases h.step_cases (inBounds_of_sent hs) hs with
    ⟨-, hsame, hsame', -⟩ | ⟨_, heq, -⟩ | ⟨_, _, _, heq, -⟩
  · refine ⟨?_, hsame'.trans (hstop hm)⟩
    rw [hsame, hatt, hm]
    rfl
  · cases heq
  · cases heq

theorem Wf.stopped_run {l : List (DebuggerOp × DebuggerEvent)} (h : s.Wf) (hstop : s.Stopped)
    (hrun : s.Runs l s')
    (hl : ∀ p ∈ l, ∀ r, p.2.dispatched? = some r → ¬ r.Runs ∧ r ≠ .detach) :
    s'.debugger.toDebuggerPackets = s.debugger.toDebuggerPackets ∧
      ∀ p ∈ l, p.2.completed? = none := by
  induction hrun with
  | nil => exact ⟨rfl, fun _ hp => nomatch hp⟩
  | cons hop hs _ ih =>
    obtain ⟨hfirst, hrest⟩ := List.forall_mem_cons.mp hl
    obtain ⟨hstop', hpackets, hnone⟩ := h.stopped_step hstop hop.2 hs hfirst
    obtain ⟨hlater, hall⟩ := ih (h.step hop hs).1 hstop' hrest
    exact ⟨hlater.trans hpackets, List.forall_mem_cons.mpr ⟨hnone, hall⟩⟩

theorem Wf.stopsPacketIn_run {l : List (DebuggerOp × DebuggerEvent)} (h : s.Wf)
    (hstop : s.StopsPacketIn) (hrun : s.Runs l s')
    (hl : ∀ p ∈ l, ∀ r, p.2.dispatched? = some r → ¬ r.Undoes) : s'.Wf ∧ s'.StopsPacketIn := by
  have hstep : ∀ (s : DebuggerSystem) (op : DebuggerOp) (e : DebuggerEvent) (s' : DebuggerSystem),
      s.Wf ∧ s.StopsPacketIn → s.Ok op → s.step op = some (e, s') →
      (∀ r, e.dispatched? = some r → ¬ r.Undoes) → s'.Wf ∧ s'.StopsPacketIn :=
    fun _ _ _ _ h hop hs he => ⟨(h.1.step hop hs).1, h.1.stopsPacketIn_step h.2 hop.2 hs he⟩
  exact hrun.invariant (fun s => s.Wf ∧ s.StopsPacketIn)
    (fun p => ∀ r, p.2.dispatched? = some r → ¬ r.Undoes) hstep ⟨h, hstop⟩ hl

end DebuggerSystem

open DebuggerSystem in
/-- Along every run of the debugger within the bounds of its memory, with any number of packet
threads: no assertion fails, the requests are answered one by one, each with its number or with
zero, and nothing keeps the one that is being served from its reply. From a reply on, unless it is
to a request to detach, no call of a packet thread ends before the next request to continue or to
detach. After the reply to a request to stop new packets, none comes in of which there is no copy,
until that is undone. A step out of the bounds is not defined. -/
theorem stop_the_world (n : ℕ) (l : List (DebuggerOp × DebuggerEvent)) (s : DebuggerSystem)
    (h : (init n).Runs l s) :
    ((∀ p ∈ l, (∀ fault, p.2 ≠ .failed fault) ∧ RepliesTo p.2) ∧
      l.filterMap (·.2.received?) =
        l.filterMap (·.2.answered?) ++ s.requestThread.serves.toList ∧
      ∀ m, s.requestThread.serves = some m →
        s.requestThread.isWaiting ∨ s.debugger.RequestInBounds m.request →
        s.AnswersIn s.requestThread.rank m) ∧
    (∀ op m r s₁ l₁ s₂, s.Ok op → s.step op = some (.sent m r, s₁) → m.request ≠ .detach →
      s₁.Runs l₁ s₂ →
      (∀ p ∈ l₁, ∀ r, p.2.dispatched? = some r → ¬ r.Runs ∧ r ≠ .detach) →
      s₂.debugger.toDebuggerPackets = s₁.debugger.toDebuggerPackets ∧
        ∀ p ∈ l₁, p.2.completed? = none) ∧
    (∀ op m r s₁ l₁ s₂ op' t packetId port s₃, s.Ok op →
      s.step op = some (.sent m r, s₁) → m.request = .stopPacketIn → s₁.Runs l₁ s₂ →
      (∀ p ∈ l₁, ∀ r, p.2.dispatched? = some r → ¬ r.Undoes) →
      s₂.step op' = some (.completed t (.packetIn packetId port), s₃) →
      ∃ id, s₂.debugger.Live id ∧ id.packetId = packetId.packetId) ∧
    ∀ op e s', ¬ s.InBounds op → s.step op = some (e, s') → ∃ fault, e = .failed fault := by
  have hwf : s.Wf := (wf_init n).run h
  refine ⟨⟨?_, serves_run h, fun m hm hroom => hwf.answersIn hm hroom⟩, ?_, ?_, ?_⟩
  · exact h.answers (fun _ _ _ _ hinv hop hs => hinv.step hop hs) (wf_init n)
  · intro op m r s₁ l₁ s₂ hop hs hm hrun hl
    exact (hwf.step hop hs).1.stopped_run (hwf.stopped_of_sent hop hs hm) hrun hl
  · intro op m r s₁ l₁ s₂ op' t packetId port s₃ hop hs hm hrun hl hs'
    have hwf₁ := (hwf.step hop hs).1
    have hkept := hwf₁.stopsPacketIn_run (hwf.stopsPacketIn_of_sent hs hm) hrun hl
    exact hkept.1.live_copy hkept.2 hs'
  · intro op e s' hroom hs
    exact hwf.step_fails hroom hs

open DebuggerSystem in
/-- A packet that arrives after the client has attached waits, and is not known to the debugger. -/
theorem stop_the_world_attach : ∃ l s,
    Run.record step Ok (init 1) [.recv ⟨1, .attach⟩, .clearReply, .setReqId, .dispatch, .reply,
      .call 0 (.packetIn ⟨0, 0⟩ 1), .run 0] = some (l, s) ∧
    (∀ p ∈ l, p.2.completed? = none) ∧ s.debugger.toDebuggerPackets = {} := by
  have hattach : (init 1).Runs _ _ := Run.of_record (show Run.record step Ok (init 1)
    [.recv ⟨1, .attach⟩, .clearReply, .setReqId, .dispatch] = some (_, _) from rfl)
  obtain ⟨-, hstill, -⟩ := stop_the_world 1 _ _ hattach
  obtain ⟨hpackets, -⟩ := hstill .reply ⟨1, .attach⟩ _ _ _ _ ⟨trivial, trivial⟩ rfl (by decide)
    (Run.of_record (show Run.record step Ok _
      [.call 0 (.packetIn ⟨0, 0⟩ 1), .run 0] = some (_, _) from rfl)) (by decide)
  exact ⟨_, _, rfl, by decide, hpackets⟩

namespace DebuggerSystem

/-- The events of a run that keeps to the protocol of the client. -/
theorem failed_of_record (ops : List DebuggerOp) {op : DebuggerOp} {fault : DebuggerFault}
    (h : (Run.record step Keeps (init 1) ops).map
      (fun p => decide ((op, DebuggerEvent.failed fault) ∈ p.1)) = some true) :
    ∃ l s, Run step Keeps (init 1) l s ∧ (op, .failed fault) ∈ l := by
  obtain ⟨⟨l, s⟩, hrecord, hmem⟩ := Option.map_eq_some_iff.mp h
  exact ⟨l, s, Run.of_record hrecord, of_decide_eq_true hmem⟩

end DebuggerSystem

open DebuggerSystem in
/-- A value of 213 bytes that the client asks for, a filter of 31 ids, and an exit from a context
that was not entered. -/
theorem stop_the_world_undefined :
    (∃ l s, Run step Keeps (init 1) l s ∧ (.dispatch, .failed .repStorage) ∈ l) ∧
    (∃ l s, Run step Keeps (init 1) l s ∧ (.dispatch, .failed .storage) ∈ l) ∧
    ∃ l s, Run step Keeps (init 1) l s ∧ (.run 0, .failed .ctrStack) ∈ l := by
  refine ⟨?_, ?_, ?_⟩
  · exact failed_of_record [.call 0 (.packetIn ⟨0, 0⟩ 1), .run 0,
      .call 0 (.notifyUpdate ⟨0, 0⟩ 7 (List.replicate 213 0) 1704), .run 0,
      .recv ⟨1, .attach⟩, .clearReply, .setReqId, .dispatch, .reply,
      .recv ⟨2, .getValue ⟨0, 0⟩ 7⟩, .clearReply, .setReqId, .dispatch] (by decide +kernel)
  · exact failed_of_record [.recv ⟨1, .attach⟩, .clearReply, .setReqId, .dispatch, .reply,
      .recv ⟨2, .filterNotifications (List.replicate 31 ⟨0, 0⟩)⟩, .clearReply, .setReqId,
      .dispatch] (by decide +kernel)
  · exact failed_of_record [.call 0 (.packetIn ⟨0, 0⟩ 1), .run 0,
      .call 0 (.notifyCtr ⟨0, 0⟩ 0x80000001), .run 0] (by decide +kernel)

end Bmv2
