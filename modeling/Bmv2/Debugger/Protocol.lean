import Bmv2.Debugger.DebuggerNN
import Bmv2.Debugger.Wire
import Bmv2.Lib.Transition

/-! The threads that use the debugger: one that receives requests and sends replies, and any
number of packet threads. Each step is what a thread does while it has the mutex. -/
namespace Bmv2

/-- Where `request_in` is, with the request that it serves. -/
inductive RequestThread where
  | recv
  | received (m : DebuggerMsg)
  | cleared (m : DebuggerMsg)
  | dispatching (m : DebuggerMsg)
  | waiting (m : DebuggerMsg)
  deriving DecidableEq

namespace RequestThread

def serves : RequestThread → Option DebuggerMsg
  | .recv => none
  | .received m => some m
  | .cleared m => some m
  | .dispatching m => some m
  | .waiting m => some m

/-- The request that is to be dispatched. -/
def dispatching? : RequestThread → Option DebuggerMsg
  | .dispatching m => some m
  | _ => none

/-- How many steps there are to the reply, at most. -/
def rank : RequestThread → ℕ
  | .recv => 0
  | .received _ => 4
  | .cleared _ => 3
  | .dispatching _ => 2
  | .waiting _ => 1

end RequestThread

/-- The debugger with its threads. A packet thread that is in a call has released the mutex
somewhere in it. The client knows whether it is attached. -/
structure DebuggerSystem where
  debugger : DebuggerNN := {}
  requestThread : RequestThread := .recv
  threads : List (Option (PacketCall × CallPoint))
  clientAttached : Bool := false

inductive DebuggerOp where
  | recv (m : DebuggerMsg)
  | clearReply
  | setReqId
  | dispatch
  | reply
  | keepAlive
  | call (t : ℕ) (c : PacketCall)
  | run (t : ℕ)
  deriving DecidableEq

/-- A step of the thread that serves the requests. -/
def DebuggerOp.ofRequestThread : DebuggerOp → Bool
  | .call _ _ => false
  | .run _ => false
  | _ => true

/-- What can be seen of a step. -/
inductive DebuggerEvent where
  | received (m : DebuggerMsg)
  | internal
  | dispatched (m : DebuggerMsg)
  | sent (m : DebuggerMsg) (reply : Option DebuggerReply)
  | called (t : ℕ)
  | waits (t : ℕ)
  | completed (t : ℕ) (c : PacketCall)
  | failed (fault : DebuggerFault)
  deriving DecidableEq

namespace DebuggerEvent

def received? : DebuggerEvent → Option DebuggerMsg
  | .received m => some m
  | _ => none

/-- The request that a reply has been sent to. -/
def answered? : DebuggerEvent → Option DebuggerMsg
  | .sent m _ => some m
  | _ => none

def dispatched? : DebuggerEvent → Option DebuggerRequest
  | .dispatched m => some m.request
  | _ => none

def completed? : DebuggerEvent → Option PacketCall
  | .completed _ c => some c
  | _ => none

end DebuggerEvent

namespace DebuggerSystem

variable (s : DebuggerSystem)

/-- The reply is sent with the mutex that the loop which waits for it has. A step that fails an
assertion or is not defined has no state after it. -/
def step : DebuggerOp → Option (DebuggerEvent × DebuggerSystem)
  | .recv m =>
    match s.requestThread with
    | .recv => some (.received m, { s with
        requestThread := .received m
        clientAttached := m.request = .attach ∨ (s.clientAttached ∧ m.request ≠ .detach) })
    | _ => none
  | .clearReply =>
    match s.requestThread with
    | .received m => some (.internal, { s with
        debugger := { s.debugger with replyReady := false }
        requestThread := .cleared m })
    | _ => none
  | .setReqId =>
    match s.requestThread with
    | .cleared m => some (.internal, { s with
        debugger := { s.debugger with reqId := m.reqId }
        requestThread := .dispatching m })
    | _ => none
  | .dispatch =>
    match s.requestThread with
    | .dispatching m =>
      match s.debugger.requestIn (m.wire.take 512) with
      | .ok debugger => some (.dispatched m, { s with debugger, requestThread := .waiting m })
      | .error fault => some (.failed fault, s)
    | _ => none
  | .reply =>
    match s.requestThread with
    | .waiting m =>
      if s.debugger.replyReady then
        some (.sent m s.debugger.repStorage, { s with requestThread := .recv })
      else none
    | _ => none
  | .keepAlive =>
    match s.requestThread with
    | .waiting m =>
      if s.debugger.replyReady then none
      else
        match s.debugger.break_.sendKeepAlive with
        | .ok debugger =>
          some (.sent m debugger.repStorage, { s with debugger, requestThread := .recv })
        | .error fault => some (.failed fault, s)
    | _ => none
  | .call t c =>
    match s.threads[t]? with
    | some none => some (.called t, { s with threads := s.threads.set t (some (c, .start)) })
    | _ => none
  | .run t =>
    match s.threads[t]? with
    | some (some (c, at_)) =>
      match s.debugger.waits c at_ with
      | some at_ => some (.waits t, { s with threads := s.threads.set t (some (c, at_)) })
      | none =>
        match s.debugger.complete c with
        | .ok debugger =>
          some (.completed t c, { s with debugger, threads := s.threads.set t none })
        | .error fault => some (.failed fault, s)
    | _ => none

/-- The client attaches before anything else, and its numbers are those of the message. Calls in
progress are about different packets, and a packet comes in before anything else. -/
def Keeps : DebuggerOp → Prop
  | .recv m => m.Fits ∧ (s.clientAttached ∨ m.request = .attach)
  | .call _ c => (∀ th ∈ s.threads, ∀ x, th = some x → x.1.packetId ≠ c.packetId) ∧
      (c.isPacketIn ↔ ¬ s.debugger.Live c.packetId)
  | _ => True

instance (op : DebuggerOp) : Decidable (s.Keeps op) := by
  cases op <;> unfold Keeps <;> infer_instance

/-- What the step sends and reads stays within the memory for it. -/
def InBounds : DebuggerOp → Prop
  | .dispatch => ∀ m ∈ s.requestThread.dispatching?, s.debugger.RequestInBounds m.request
  | .run t => ∀ x ∈ s.threads[t]?.join, s.debugger.waits x.1 x.2 = none →
      s.debugger.CallInBounds x.1
  | _ => True

instance (op : DebuggerOp) : Decidable (s.InBounds op) := by
  cases op <;> unfold InBounds <;> infer_instance

/-- A step of the protocol that stays within the bounds. -/
def Ok (op : DebuggerOp) : Prop := s.Keeps op ∧ s.InBounds op

instance (op : DebuggerOp) : Decidable (s.Ok op) := inferInstanceAs (Decidable (_ ∧ _))

/-- What each step is, with what has to be so for it. -/
inductive Steps (s : DebuggerSystem) : DebuggerOp → DebuggerEvent → DebuggerSystem → Prop
  | recv {m : DebuggerMsg} (hpc : s.requestThread = .recv) :
      Steps s (.recv m) (.received m) { s with
        requestThread := .received m
        clientAttached := m.request = .attach ∨ (s.clientAttached ∧ m.request ≠ .detach) }
  | clearReply {m : DebuggerMsg} (hpc : s.requestThread = .received m) :
      Steps s .clearReply .internal { s with
        debugger := { s.debugger with replyReady := false }
        requestThread := .cleared m }
  | setReqId {m : DebuggerMsg} (hpc : s.requestThread = .cleared m) :
      Steps s .setReqId .internal { s with
        debugger := { s.debugger with reqId := m.reqId }
        requestThread := .dispatching m }
  | dispatch {m : DebuggerMsg} {debugger : DebuggerNN} (hpc : s.requestThread = .dispatching m)
      (hok : s.debugger.requestIn (m.wire.take 512) = .ok debugger) :
      Steps s .dispatch (.dispatched m) { s with debugger, requestThread := .waiting m }
  | dispatchFails {m : DebuggerMsg} {fault : DebuggerFault}
      (hpc : s.requestThread = .dispatching m)
      (hfault : s.debugger.requestIn (m.wire.take 512) = .error fault) :
      Steps s .dispatch (.failed fault) s
  | reply {m : DebuggerMsg} (hpc : s.requestThread = .waiting m)
      (hready : s.debugger.replyReady = true) :
      Steps s .reply (.sent m s.debugger.repStorage) { s with requestThread := .recv }
  | keepAlive {m : DebuggerMsg} {debugger : DebuggerNN} (hpc : s.requestThread = .waiting m)
      (hready : s.debugger.replyReady = false)
      (hok : s.debugger.break_.sendKeepAlive = .ok debugger) :
      Steps s .keepAlive (.sent m debugger.repStorage) { s with debugger, requestThread := .recv }
  | keepAliveFails {m : DebuggerMsg} {fault : DebuggerFault} (hpc : s.requestThread = .waiting m)
      (hready : s.debugger.replyReady = false)
      (hfault : s.debugger.break_.sendKeepAlive = .error fault) :
      Steps s .keepAlive (.failed fault) s
  | call {t : ℕ} {c : PacketCall} (hfree : s.threads[t]? = some none) :
      Steps s (.call t c) (.called t) { s with threads := s.threads.set t (some (c, .start)) }
  | waits {t : ℕ} {c : PacketCall} {p p' : CallPoint} (hk : s.threads[t]? = some (some (c, p)))
      (hw : s.debugger.waits c p = some p') :
      Steps s (.run t) (.waits t) { s with threads := s.threads.set t (some (c, p')) }
  | complete {t : ℕ} {c : PacketCall} {p : CallPoint} {debugger : DebuggerNN}
      (hk : s.threads[t]? = some (some (c, p))) (hw : s.debugger.waits c p = none)
      (hok : s.debugger.complete c = .ok debugger) :
      Steps s (.run t) (.completed t c) { s with debugger, threads := s.threads.set t none }
  | completeFails {t : ℕ} {c : PacketCall} {p : CallPoint} {fault : DebuggerFault}
      (hk : s.threads[t]? = some (some (c, p))) (hw : s.debugger.waits c p = none)
      (hfault : s.debugger.complete c = .error fault) :
      Steps s (.run t) (.failed fault) s

variable {s}

theorem steps_of_step {s' : DebuggerSystem} {op : DebuggerOp} {e : DebuggerEvent}
    (h : s.step op = some (e, s')) : s.Steps op e s' := by
  cases op with
  | recv m =>
    simp only [step] at h
    split at h
    · cases h
      exact .recv ‹_›
    · cases h
  | clearReply =>
    simp only [step] at h
    split at h
    · cases h
      exact .clearReply ‹_›
    · cases h
  | setReqId =>
    simp only [step] at h
    split at h
    · cases h
      exact .setReqId ‹_›
    · cases h
  | dispatch =>
    simp only [step] at h
    split at h
    · split at h
      · cases h
        exact .dispatch ‹_› ‹_›
      · cases h
        exact .dispatchFails ‹_› ‹_›
    · cases h
  | reply =>
    simp only [step] at h
    split at h
    · split_ifs at h with hready
      cases h
      exact .reply ‹_› hready
    · cases h
  | keepAlive =>
    simp only [step] at h
    split at h
    · split_ifs at h with hready
      have hready : s.debugger.replyReady = false := Bool.eq_false_iff.mpr hready
      split at h
      · cases h
        exact .keepAlive ‹_› hready ‹_›
      · cases h
        exact .keepAliveFails ‹_› hready ‹_›
    · cases h
  | call t c =>
    simp only [step] at h
    split at h
    · cases h
      exact .call ‹_›
    · cases h
  | run t =>
    simp only [step] at h
    split at h
    · split at h
      · cases h
        exact .waits ‹_› ‹_›
      · split at h
        · cases h
          exact .complete ‹_› ‹_› ‹_›
        · cases h
          exact .completeFails ‹_› ‹_› ‹_›
    · cases h

end DebuggerSystem

end Bmv2
