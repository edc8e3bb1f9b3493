import Bmv2.Lib.Monitor
import Bmv2.Lib.Transition

/-! The blocking queues, `Queue` of `queue.h` and `QueueingLogic` of `queueing.h`, with their
threads. A step is what one thread does from taking a mutex to releasing it, or one notification
made outside the mutex. Waiters may also wake up by themselves. -/
namespace Bmv2
open Monitor

variable {T : Type}

inductive WriteBehavior where
  | writeBlock
  | writeReturn
  deriving DecidableEq

/-! ### One queue -/

/-- Where a thread of `Queue` stands: outside, in one of the two waits, woken from one and about
to take the mutex again, or past its unlock with a notification still to make. -/
inductive QueueThread (T : Type) where
  | idle
  | pushWaits (item : T)
  | pushWoken (item : T)
  | popWaits
  | popWoken
  | notifiesNotEmpty
  | notifiesNotFull

namespace QueueThread

/-- A waiter of `q_not_empty` is woken. -/
def wakePop : QueueThread T → Option (QueueThread T)
  | .popWaits => some .popWoken
  | _ => none

/-- A waiter of `q_not_full` is woken. -/
def wakePush : QueueThread T → Option (QueueThread T)
  | .pushWaits item => some (.pushWoken item)
  | _ => none

def isPushWaits : QueueThread T → Bool
  | .pushWaits _ => true
  | _ => false

def isPushWoken : QueueThread T → Bool
  | .pushWoken _ => true
  | _ => false

def isPopWaits : QueueThread T → Bool
  | .popWaits => true
  | _ => false

def isPopWoken : QueueThread T → Bool
  | .popWoken => true
  | _ => false

def isNotifiesNotEmpty : QueueThread T → Bool
  | .notifiesNotEmpty => true
  | _ => false

def isNotifiesNotFull : QueueThread T → Bool
  | .notifiesNotFull => true
  | _ => false

end QueueThread

/-- `Queue` and its threads; the front of the deque is the head of the list. -/
structure Queue (T : Type) where
  capacity : ℕ
  queue : List T := []
  wb : WriteBehavior := .writeBlock
  threads : List (QueueThread T)

namespace Queue

def create (capacity : ℕ) (wb : WriteBehavior) (nbThreads : ℕ) : Queue T where
  capacity
  wb
  threads := List.replicate nbThreads .idle

variable (s : Queue T)

inductive Op (T : Type) where
  | push (i : ℕ) (item : T)
  | pop (i : ℕ)
  | setCapacity (i c : ℕ)
  | resume (i : ℕ)
  | notify (i : ℕ) (target : Option ℕ)
  | wakeUp (i : ℕ)

/-- `push_front` of thread `i` from taking the mutex on: it pushes, waits or returns. -/
def pushFront (i : ℕ) (item : T) : Queue T :=
  if s.queue.length < s.capacity then
    { s with queue := item :: s.queue, threads := s.threads.set i .notifiesNotEmpty }
  else match s.wb with
    | .writeReturn => { s with threads := s.threads.set i .idle }
    | .writeBlock => { s with threads := s.threads.set i (.pushWaits item) }

/-- `pop_back` of thread `i` from taking the mutex on. -/
def popBack (i : ℕ) : Queue T :=
  if s.queue.length > 0 then
    { s with queue := s.queue.dropLast, threads := s.threads.set i .notifiesNotFull }
  else { s with threads := s.threads.set i .popWaits }

def step : Op T → Option (Unit × Queue T)
  | .push i item =>
    match s.threads[i]? with
    | some .idle => some ((), s.pushFront i item)
    | _ => none
  | .pop i =>
    match s.threads[i]? with
    | some .idle => some ((), s.popBack i)
    | _ => none
  | .setCapacity i c =>
    match s.threads[i]? with
    | some .idle => some ((), { s with capacity := c })
    | _ => none
  | .resume i =>
    match s.threads[i]? with
    | some (.pushWoken item) => some ((), s.pushFront i item)
    | some .popWoken => some ((), s.popBack i)
    | _ => none
  | .notify i target =>
    match s.threads[i]? with
    | some .notifiesNotEmpty =>
      (notifyOne QueueThread.wakePop (s.threads.set i .idle) target).map fun threads =>
        ((), { s with threads })
    | some .notifiesNotFull =>
      (notifyOne QueueThread.wakePush (s.threads.set i .idle) target).map fun threads =>
        ((), { s with threads })
    | _ => none
  | .wakeUp i =>
    match s.threads[i]? with
    | some .popWaits => some ((), { s with threads := s.threads.set i .popWoken })
    | some (.pushWaits item) =>
      some ((), { s with threads := s.threads.set i (.pushWoken item) })
    | _ => none

end Queue

/-! ### Logical queues that share workers -/

inductive LogicThread (T : Type) where
  | idle
  | pushWaits (queueId : ℕ) (item : T)
  | pushWoken (queueId : ℕ) (item : T)
  | popWaits (workerId : ℕ)
  | popWoken (workerId : ℕ)

namespace LogicThread

/-- A waiter of the worker's `q_not_empty` is woken. -/
def wakePop (w : ℕ) : LogicThread T → Option (LogicThread T)
  | .popWaits w' => if w' = w then some (.popWoken w') else none
  | _ => none

/-- A waiter of the queue's `q_not_full` is woken. -/
def wakePush (q : ℕ) : LogicThread T → Option (LogicThread T)
  | .pushWaits q' item => if q' = q then some (.pushWoken q' item) else none
  | _ => none

def isPushWaits (q : ℕ) : LogicThread T → Bool
  | .pushWaits q' _ => decide (q' = q)
  | _ => false

def isPushWoken (q : ℕ) : LogicThread T → Bool
  | .pushWoken q' _ => decide (q' = q)
  | _ => false

def isPopWaits (w : ℕ) : LogicThread T → Bool
  | .popWaits w' => decide (w' = w)
  | _ => false

def isPopWoken (w : ℕ) : LogicThread T → Bool
  | .popWoken w' => decide (w' = w)
  | _ => false

end LogicThread

/-- The counters of a logical queue. -/
structure LogicInfo where
  size : ℕ := 0
  capacity : ℕ := 0
  deriving Inhabited

/-- `QueueingLogic` and its threads. -/
structure QueueingLogic (T : Type) where
  queuesInfo : List LogicInfo
  workersInfo : List (List (T × ℕ))
  mapToWorker : ℕ → ℕ
  threads : List (LogicThread T)

namespace QueueingLogic

def create (nbQueues nbWorkers capacity : ℕ) (mapToWorker : ℕ → ℕ) (nbThreads : ℕ) :
    QueueingLogic T where
  queuesInfo := List.replicate nbQueues { capacity }
  workersInfo := List.replicate nbWorkers []
  mapToWorker
  threads := List.replicate nbThreads .idle

variable (s : QueueingLogic T)

inductive Op (T : Type) where
  | push (i queueId : ℕ) (item : T) (target : Option ℕ)
  | pop (i workerId : ℕ) (target : Option ℕ)
  | setCapacity (i queueId c : ℕ)
  | resume (i : ℕ) (target : Option ℕ)
  | wakeUp (i : ℕ)

/-- `push_front` of thread `i` from taking the mutex on. `at` may throw. -/
def pushFront (i queueId : ℕ) (item : T) (target : Option ℕ) : Option (QueueingLogic T) :=
  match s.queuesInfo[queueId]?, s.workersInfo[s.mapToWorker queueId]? with
  | some qInfo, some queue =>
    if qInfo.size ≥ qInfo.capacity then
      some { s with threads := s.threads.set i (.pushWaits queueId item) }
    else
      (notifyOne (LogicThread.wakePop (s.mapToWorker queueId)) (s.threads.set i .idle)
          target).map fun threads =>
        { s with
          queuesInfo := s.queuesInfo.set queueId { qInfo with size := qInfo.size + 1 }
          workersInfo := s.workersInfo.set (s.mapToWorker queueId) ((item, queueId) :: queue)
          threads }
  | _, _ => some { s with threads := s.threads.set i .idle }

/-- `pop_back` of thread `i` from taking the mutex on. -/
def popBack (i workerId : ℕ) (target : Option ℕ) : Option (QueueingLogic T) :=
  match s.workersInfo[workerId]? with
  | none => some { s with threads := s.threads.set i .idle }
  | some queue =>
    match queue.getLast? with
    | none => some { s with threads := s.threads.set i (.popWaits workerId) }
    | some (_, queueId) =>
      let s' := { s with workersInfo := s.workersInfo.set workerId queue.dropLast }
      match s.queuesInfo[queueId]? with
      | none => some { s' with threads := s.threads.set i .idle }
      | some qInfo =>
        (notifyOne (LogicThread.wakePush queueId) (s.threads.set i .idle) target).map
          fun threads =>
            { s' with
              queuesInfo := s.queuesInfo.set queueId { qInfo with size := qInfo.size - 1 }
              threads }

def setCapacity (queueId c : ℕ) : QueueingLogic T :=
  match s.queuesInfo[queueId]?, s.workersInfo[s.mapToWorker queueId]? with
  | some qInfo, some _ =>
    { s with queuesInfo := s.queuesInfo.set queueId { qInfo with capacity := c } }
  | _, _ => s

def step : Op T → Option (Unit × QueueingLogic T)
  | .push i queueId item target =>
    match s.threads[i]? with
    | some .idle => (s.pushFront i queueId item target).map fun s' => ((), s')
    | _ => none
  | .pop i workerId target =>
    match s.threads[i]? with
    | some .idle => (s.popBack i workerId target).map fun s' => ((), s')
    | _ => none
  | .setCapacity i queueId c =>
    match s.threads[i]? with
    | some .idle => some ((), s.setCapacity queueId c)
    | _ => none
  | .resume i target =>
    match s.threads[i]? with
    | some (.pushWoken queueId item) =>
      (s.pushFront i queueId item target).map fun s' => ((), s')
    | some (.popWoken workerId) => (s.popBack i workerId target).map fun s' => ((), s')
    | _ => none
  | .wakeUp i =>
    match s.threads[i]? with
    | some (.popWaits workerId) =>
      some ((), { s with threads := s.threads.set i (.popWoken workerId) })
    | some (.pushWaits queueId item) =>
      some ((), { s with threads := s.threads.set i (.pushWoken queueId item) })
    | _ => none

end QueueingLogic

end Bmv2
