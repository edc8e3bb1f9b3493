import Bmv2.Lib.PriorityQueue
import Bmv2.Lib.Transition

/-! The rate-limited queues of `queueing.h`. Time points and delays are tick counts; a mutex
makes every call one step, except that a `pop_back` that has to wait releases it and tries again
at a later clock reading. The two overloads of a push, by copy and by move, are one. -/
namespace Bmv2
open PriorityQueue

/-- An element of a queue with the time from which it may leave. -/
structure QE (T : Type) where
  e : T
  queueId : ℕ
  send : ℕ

/-- `QueueingLogicRL::QueueInfo` and, with the same fields, `QueueingLogicPriRL::QueueInfoPri`. -/
structure QueueInfo where
  size : ℕ := 0
  capacity : ℕ := 0
  queueRatePps : ℕ := 0
  pktDelayTicks : ℕ := 0
  lastSent : ℕ := 0
  deriving Inhabited

namespace QueueInfo

def getNextTp (qInfo : QueueInfo) (now : ℕ) : ℕ :=
  max now (qInfo.lastSent + qInfo.pktDelayTicks)

/-- What an accepted push does to the counters. -/
def pushed (qInfo : QueueInfo) (now : ℕ) : QueueInfo :=
  { qInfo with lastSent := qInfo.getNextTp now, size := qInfo.size + 1 }

def popped (qInfo : QueueInfo) : QueueInfo := { qInfo with size := qInfo.size - 1 }

def withCapacity (c : ℕ) (qInfo : QueueInfo) : QueueInfo := { qInfo with capacity := c }

/-- The delay for a rate comes out of a floating-point division and is left open. -/
def withRate (pps delay : ℕ) (qInfo : QueueInfo) : QueueInfo :=
  { qInfo with queueRatePps := pps, pktDelayTicks := delay }

end QueueInfo

/-- What a step of a queue returns. A `pop_back` may have to wait; `at` may throw. -/
inductive QueueReply (T : Type) where
  | pushed (accepted : Bool)
  | popped (queueId priority : ℕ) (item : T)
  | waits
  | done
  | outOfRange

variable {T : Type}

/-! ### One priority -/

structure QueueingLogicRL (pq : PQ (QE T) QE.send) where
  queuesInfo : List QueueInfo
  workersInfo : List pq.Heap
  mapToWorker : ℕ → ℕ

namespace QueueingLogicRL

variable {pq : PQ (QE T) QE.send}

def create (pq : PQ (QE T) QE.send) (nbQueues nbWorkers capacity : ℕ) (mapToWorker : ℕ → ℕ)
    (now : ℕ) : QueueingLogicRL pq where
  queuesInfo := List.replicate nbQueues { capacity, lastSent := now }
  workersInfo := List.replicate nbWorkers pq.empty
  mapToWorker

variable (s : QueueingLogicRL pq)

def pushFront (queueId : ℕ) (item : T) (now : ℕ) : QueueReply T × QueueingLogicRL pq :=
  match s.queuesInfo[queueId]?, s.workersInfo[s.mapToWorker queueId]? with
  | some qInfo, some queue =>
    if qInfo.size ≥ qInfo.capacity then (.pushed false, s)
    else (.pushed true,
      { s with
        queuesInfo := s.queuesInfo.set queueId (qInfo.pushed now)
        workersInfo := s.workersInfo.set (s.mapToWorker queueId)
          (pq.push queue ⟨item, queueId, qInfo.getNextTp now⟩) })
  | _, _ => (.outOfRange, s)

/-- One round of the loop of `pop_back`, at one clock reading. -/
def popBack (workerId now : ℕ) : QueueReply T × QueueingLogicRL pq :=
  match s.workersInfo[workerId]? with
  | none => (.outOfRange, s)
  | some queue =>
    match pq.top queue with
    | none => (.waits, s)
    | some qe =>
      if qe.send ≤ now then
        let s' := { s with workersInfo := s.workersInfo.set workerId (pq.pop queue) }
        match s.queuesInfo[qe.queueId]? with
        | none => (.outOfRange, s')
        | some qInfo =>
          (.popped qe.queueId 0 qe.e,
            { s' with queuesInfo := s.queuesInfo.set qe.queueId qInfo.popped })
      else (.waits, s)

/-- The part that `set_capacity` and `set_rate` share: both only write the counters. -/
def updateInfo (queueId : ℕ) (fn : QueueInfo → QueueInfo) : QueueReply T × QueueingLogicRL pq :=
  match s.queuesInfo[queueId]?, s.workersInfo[s.mapToWorker queueId]? with
  | some qInfo, some _ =>
    (.done, { s with queuesInfo := s.queuesInfo.set queueId (fn qInfo) })
  | _, _ => (.outOfRange, s)

def setCapacity (queueId c : ℕ) : QueueReply T × QueueingLogicRL pq :=
  s.updateInfo queueId (QueueInfo.withCapacity c)

def setRate (queueId pps delay : ℕ) : QueueReply T × QueueingLogicRL pq :=
  s.updateInfo queueId (QueueInfo.withRate pps delay)

inductive Op (T : Type) where
  | push (queueId : ℕ) (item : T) (now : ℕ)
  | pop (workerId now : ℕ)
  | setCapacity (queueId c : ℕ)
  | setRate (queueId pps delay : ℕ)

def step : Op T → Option (QueueReply T × QueueingLogicRL pq)
  | .push queueId item now => some (s.pushFront queueId item now)
  | .pop workerId now => some (s.popBack workerId now)
  | .setCapacity queueId c => some (s.setCapacity queueId c)
  | .setRate queueId pps delay => some (s.setRate queueId pps delay)

end QueueingLogicRL

/-! ### Several priorities -/

/-- A logical queue: one counter for each priority, and one for all of them. -/
structure QueueInfoAll where
  pris : List QueueInfo
  size : ℕ := 0
  deriving Inhabited

structure WorkerInfo (pq : PQ (QE T) QE.send) where
  size : ℕ := 0
  queues : List pq.Heap

structure QueueingLogicPriRL (pq : PQ (QE T) QE.send) where
  queuesInfo : List QueueInfoAll
  workersInfo : List (WorkerInfo pq)
  mapToWorker : ℕ → ℕ
  nbPriorities : ℕ

namespace QueueingLogicPriRL

variable {pq : PQ (QE T) QE.send}

/-- Every worker has 32 heaps, whatever the number of priorities. -/
def create (pq : PQ (QE T) QE.send) (nbQueues nbWorkers capacity : ℕ) (mapToWorker : ℕ → ℕ)
    (nbPriorities now : ℕ) : QueueingLogicPriRL pq where
  queuesInfo := List.replicate nbQueues
    { pris := List.replicate nbPriorities { capacity, lastSent := now } }
  workersInfo := List.replicate nbWorkers { queues := List.replicate 32 pq.empty }
  mapToWorker
  nbPriorities

variable (s : QueueingLogicPriRL pq)

/-- The outer `none` is an index past the 32 heaps of a worker. -/
def pushFront (queueId priority : ℕ) (item : T) (now : ℕ) :
    Option (QueueReply T × QueueingLogicPriRL pq) :=
  match s.queuesInfo[queueId]?, s.workersInfo[s.mapToWorker queueId]? with
  | some qInfo, some wInfo =>
    match qInfo.pris[priority]? with
    | none => some (.outOfRange, s)
    | some qInfoPri =>
      if qInfoPri.size ≥ qInfoPri.capacity then some (.pushed false, s)
      else do
        let queue ← wInfo.queues[priority]?
        return (.pushed true,
          { s with
            queuesInfo := s.queuesInfo.set queueId
              { pris := qInfo.pris.set priority (qInfoPri.pushed now)
                size := qInfo.size + 1 }
            workersInfo := s.workersInfo.set (s.mapToWorker queueId)
              { size := wInfo.size + 1
                queues := wInfo.queues.set priority
                  (pq.push queue ⟨item, queueId, qInfoPri.getNextTp now⟩) } })
  | _, _ => some (.outOfRange, s)

/-- The scan of `pop_back` over the priorities from `pri` on, `n` of them: the first heap whose
top may leave. -/
def findEligible (wInfo : WorkerInfo pq) (now : ℕ) : ℕ → ℕ → Option (Option (ℕ × pq.Heap × QE T))
  | _, 0 => some none
  | pri, n + 1 => do
    let queue ← wInfo.queues[pri]?
    match pq.top queue with
    | none => findEligible wInfo now (pri + 1) n
    | some qe =>
      if qe.send ≤ now then some (some (pri, queue, qe))
      else findEligible wInfo now (pri + 1) n

/-- One round of the loop of `pop_back`, at one clock reading. The counter of the worker is read
and not written. -/
def popBack (workerId now : ℕ) : Option (QueueReply T × QueueingLogicPriRL pq) :=
  match s.workersInfo[workerId]? with
  | none => some (.outOfRange, s)
  | some wInfo =>
    if wInfo.size = 0 then some (.waits, s)
    else do
      match ← findEligible wInfo now 0 s.nbPriorities with
      | none => return (.waits, s)
      | some (pri, queue, qe) =>
        let s' :=
          { s with
            workersInfo := s.workersInfo.set workerId
              { wInfo with queues := wInfo.queues.set pri (pq.pop queue) } }
        match s.queuesInfo[qe.queueId]? with
        | none => return (.outOfRange, s')
        | some qInfo =>
          match qInfo.pris[pri]? with
          | none => return (.outOfRange, s')
          | some qInfoPri =>
            return (.popped qe.queueId pri qe.e,
              { s' with
                queuesInfo := s.queuesInfo.set qe.queueId
                  { pris := qInfo.pris.set pri qInfoPri.popped, size := qInfo.size - 1 } })

/-- `size(queue_id)`; the `none` is an exception. -/
def size (queueId : ℕ) : Option ℕ :=
  match s.queuesInfo[queueId]?, s.workersInfo[s.mapToWorker queueId]? with
  | some qInfo, some _ => some qInfo.size
  | _, _ => none

/-- `size(queue_id, priority)`: the priority is checked, and the counter of the whole queue
returned. -/
def sizePri (queueId priority : ℕ) : Option ℕ :=
  match s.queuesInfo[queueId]?, s.workersInfo[s.mapToWorker queueId]? with
  | some qInfo, some _ => qInfo.pris[priority]?.map fun _ => qInfo.size
  | _, _ => none

def forEachQ (queueId : ℕ) (fn : QueueInfo → QueueInfo) : QueueReply T × QueueingLogicPriRL pq :=
  match s.queuesInfo[queueId]?, s.workersInfo[s.mapToWorker queueId]? with
  | some qInfo, some _ =>
    (.done,
      { s with queuesInfo := s.queuesInfo.set queueId { qInfo with pris := qInfo.pris.map fn } })
  | _, _ => (.outOfRange, s)

def forOneQ (queueId priority : ℕ) (fn : QueueInfo → QueueInfo) :
    QueueReply T × QueueingLogicPriRL pq :=
  match s.queuesInfo[queueId]?, s.workersInfo[s.mapToWorker queueId]? with
  | some qInfo, some _ =>
    match qInfo.pris[priority]? with
    | none => (.outOfRange, s)
    | some qInfoPri =>
      (.done,
        { s with
          queuesInfo := s.queuesInfo.set queueId
            { qInfo with pris := qInfo.pris.set priority (fn qInfoPri) } })
  | _, _ => (.outOfRange, s)

def setCapacity (queueId c : ℕ) : QueueReply T × QueueingLogicPriRL pq :=
  s.forEachQ queueId (QueueInfo.withCapacity c)

def setCapacityPri (queueId priority c : ℕ) : QueueReply T × QueueingLogicPriRL pq :=
  s.forOneQ queueId priority (QueueInfo.withCapacity c)

def setRate (queueId pps delay : ℕ) : QueueReply T × QueueingLogicPriRL pq :=
  s.forEachQ queueId (QueueInfo.withRate pps delay)

def setRatePri (queueId priority pps delay : ℕ) : QueueReply T × QueueingLogicPriRL pq :=
  s.forOneQ queueId priority (QueueInfo.withRate pps delay)

inductive Op (T : Type) where
  | push (queueId priority : ℕ) (item : T) (now : ℕ)
  | pop (workerId now : ℕ)
  | setCapacity (queueId c : ℕ)
  | setCapacityPri (queueId priority c : ℕ)
  | setRate (queueId pps delay : ℕ)
  | setRatePri (queueId priority pps delay : ℕ)

def step : Op T → Option (QueueReply T × QueueingLogicPriRL pq)
  | .push queueId priority item now => s.pushFront queueId priority item now
  | .pop workerId now => s.popBack workerId now
  | .setCapacity queueId c => some (s.setCapacity queueId c)
  | .setCapacityPri queueId priority c => some (s.setCapacityPri queueId priority c)
  | .setRate queueId pps delay => some (s.setRate queueId pps delay)
  | .setRatePri queueId priority pps delay => some (s.setRatePri queueId priority pps delay)

end QueueingLogicPriRL

end Bmv2
