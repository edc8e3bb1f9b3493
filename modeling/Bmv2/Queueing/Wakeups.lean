import Bmv2.Queueing.Blocking

/-! No wake-up is lost in the blocking queues: a waiting thread is matched by a notification for
every operation that has become possible. The capacity may only grow while nobody waits for it. -/
namespace Bmv2
open Monitor

variable {T : Type}

namespace Queue

open QueueThread

variable {s s' : Queue T}

/-- While a consumer waits, there is a notification pending or received for every element; while
a producer waits, one for every free place. -/
structure Notified (s : Queue T) : Prop where
  notEmpty : 0 < count isPopWaits s.threads →
    s.queue.length ≤ count isNotifiesNotEmpty s.threads + count isPopWoken s.threads
  notFull : 0 < count isPushWaits s.threads →
    s.capacity - s.queue.length ≤ count isNotifiesNotFull s.threads + count isPushWoken s.threads

/-- The capacity is not raised above what is queued while a producer waits. -/
def CapacityOk (s : Queue T) : Op T → Prop
  | .setCapacity _ c =>
    count isPushWaits s.threads = 0 ∨ c ≤ s.capacity ∨ c ≤ s.queue.length
  | _ => True

/-- How a thread that moves on changes the six counts. -/
theorem counts_set {threads : List (QueueThread T)} {i : ℕ} {t : QueueThread T}
    (h : threads[i]? = some t) (t' : QueueThread T) :
    (count isPopWaits (threads.set i t') + (isPopWaits t).toNat =
      count isPopWaits threads + (isPopWaits t').toNat) ∧
    (count isPopWoken (threads.set i t') + (isPopWoken t).toNat =
      count isPopWoken threads + (isPopWoken t').toNat) ∧
    (count isNotifiesNotEmpty (threads.set i t') + (isNotifiesNotEmpty t).toNat =
      count isNotifiesNotEmpty threads + (isNotifiesNotEmpty t').toNat) ∧
    (count isPushWaits (threads.set i t') + (isPushWaits t).toNat =
      count isPushWaits threads + (isPushWaits t').toNat) ∧
    (count isPushWoken (threads.set i t') + (isPushWoken t).toNat =
      count isPushWoken threads + (isPushWoken t').toNat) ∧
    (count isNotifiesNotFull (threads.set i t') + (isNotifiesNotFull t).toNat =
      count isNotifiesNotFull threads + (isNotifiesNotFull t').toNat) :=
  ⟨count_set h _ _, count_set h _ _, count_set h _ _, count_set h _ _, count_set h _ _,
    count_set h _ _⟩

/-- A producer that takes the mutex: a free place goes to it, or it waits for a full queue. -/
theorem Notified.pushFront (h : Notified s) {i : ℕ} {item : T}
    (hi : s.threads[i]? = some .idle ∨ s.threads[i]? = some (.pushWoken item)) :
    Notified (s.pushFront i item) := by
  obtain ⟨h1, h2⟩ := h
  unfold Queue.pushFront
  split_ifs with hroom
  · rcases hi with hi | hi
    all_goals
      have hc := counts_set hi .notifiesNotEmpty
      simp only [isPopWaits, isPopWoken, isNotifiesNotEmpty, isPushWaits, isPushWoken,
        isNotifiesNotFull, Bool.toNat_true, Bool.toNat_false] at hc
      constructor <;> simp only [List.length_cons] <;> omega
  · split
    · rcases hi with hi | hi
      all_goals
        have hc := counts_set hi .idle
        simp only [isPopWaits, isPopWoken, isNotifiesNotEmpty, isPushWaits, isPushWoken,
          isNotifiesNotFull, Bool.toNat_true, Bool.toNat_false] at hc
        constructor <;> simp only <;> omega
    · rcases hi with hi | hi
      all_goals
        have hc := counts_set hi (.pushWaits item)
        simp only [isPopWaits, isPopWoken, isNotifiesNotEmpty, isPushWaits, isPushWoken,
          isNotifiesNotFull, Bool.toNat_true, Bool.toNat_false] at hc
        constructor <;> simp only <;> omega

/-- A consumer that takes the mutex: an element goes to it, or it waits for an empty queue. -/
theorem Notified.popBack (h : Notified s) {i : ℕ}
    (hi : s.threads[i]? = some .idle ∨ s.threads[i]? = some .popWoken) :
    Notified (s.popBack i) := by
  obtain ⟨h1, h2⟩ := h
  unfold Queue.popBack
  split_ifs with hpos
  · rcases hi with hi | hi
    all_goals
      have hc := counts_set hi .notifiesNotFull
      simp only [isPopWaits, isPopWoken, isNotifiesNotEmpty, isPushWaits, isPushWoken,
        isNotifiesNotFull, Bool.toNat_true, Bool.toNat_false] at hc
      constructor <;> simp only [List.length_dropLast] <;> omega
  · rcases hi with hi | hi
    all_goals
      have hc := counts_set hi .popWaits
      simp only [isPopWaits, isPopWoken, isNotifiesNotEmpty, isPushWaits, isPushWoken,
        isNotifiesNotFull, Bool.toNat_true, Bool.toNat_false] at hc
      constructor <;> simp only <;> omega

theorem wakePop_eq_some {t t' : QueueThread T} (h : wakePop t = some t') :
    t = .popWaits ∧ t' = .popWoken := by
  cases t <;> simp_all [wakePop]

theorem wakePush_eq_some {t t' : QueueThread T} (h : wakePush t = some t') :
    ∃ item, t = .pushWaits item ∧ t' = .pushWoken item := by
  cases t <;> simp_all [wakePush]

/-- The notification after a push is handed to a consumer, or nobody waits for it. -/
theorem Notified.notifyNotEmpty (h : Notified s) {i : ℕ} {target : Option ℕ}
    {threads : List (QueueThread T)} (hi : s.threads[i]? = some .notifiesNotEmpty)
    (hn : notifyOne wakePop (s.threads.set i .idle) target = some threads) :
    Notified { s with threads } := by
  obtain ⟨h1, h2⟩ := h
  have hc := counts_set hi .idle
  simp only [isPopWaits, isPopWoken, isNotifiesNotEmpty, isPushWaits, isPushWoken,
    isNotifiesNotFull, Bool.toNat_true, Bool.toNat_false] at hc
  obtain ⟨rfl, hnone⟩ | ⟨j, t, t', hj, hwake, rfl⟩ := notifyOne_cases hn
  · have hzero : count isPopWaits (s.threads.set i .idle) = 0 := by
      refine List.countP_eq_zero.mpr fun t ht => ?_
      have := hnone t ht
      cases t <;> simp_all [wakePop, isPopWaits]
    constructor <;> simp only <;> omega
  · obtain ⟨rfl, rfl⟩ := wakePop_eq_some hwake
    have hd := counts_set hj .popWoken
    simp only [isPopWaits, isPopWoken, isNotifiesNotEmpty, isPushWaits, isPushWoken,
      isNotifiesNotFull, Bool.toNat_true, Bool.toNat_false] at hd
    constructor <;> simp only <;> omega

/-- The notification after a pop is handed to a producer, or nobody waits for it. -/
theorem Notified.notifyNotFull (h : Notified s) {i : ℕ} {target : Option ℕ}
    {threads : List (QueueThread T)} (hi : s.threads[i]? = some .notifiesNotFull)
    (hn : notifyOne wakePush (s.threads.set i .idle) target = some threads) :
    Notified { s with threads } := by
  obtain ⟨h1, h2⟩ := h
  have hc := counts_set hi .idle
  simp only [isPopWaits, isPopWoken, isNotifiesNotEmpty, isPushWaits, isPushWoken,
    isNotifiesNotFull, Bool.toNat_true, Bool.toNat_false] at hc
  obtain ⟨rfl, hnone⟩ | ⟨j, t, t', hj, hwake, rfl⟩ := notifyOne_cases hn
  · have hzero : count isPushWaits (s.threads.set i .idle) = 0 := by
      refine List.countP_eq_zero.mpr fun t ht => ?_
      have := hnone t ht
      cases t <;> simp_all [wakePush, isPushWaits]
    constructor <;> simp only <;> omega
  · obtain ⟨item, rfl, rfl⟩ := wakePush_eq_some hwake
    have hd := counts_set hj (.pushWoken item)
    simp only [isPopWaits, isPopWoken, isNotifiesNotEmpty, isPushWaits, isPushWoken,
      isNotifiesNotFull, Bool.toNat_true, Bool.toNat_false] at hd
    constructor <;> simp only <;> omega

theorem Notified.wakeUp (h : Notified s) {i : ℕ} {t t' : QueueThread T}
    (hi : s.threads[i]? = some t) (hwake : wakePop t = some t' ∨ wakePush t = some t') :
    Notified { s with threads := s.threads.set i t' } := by
  obtain ⟨h1, h2⟩ := h
  have hc := counts_set hi t'
  rcases hwake with hwake | hwake
  · obtain ⟨rfl, rfl⟩ := wakePop_eq_some hwake
    simp only [isPopWaits, isPopWoken, isNotifiesNotEmpty, isPushWaits, isPushWoken,
      isNotifiesNotFull, Bool.toNat_true, Bool.toNat_false] at hc
    constructor <;> simp only <;> omega
  · obtain ⟨item, rfl, rfl⟩ := wakePush_eq_some hwake
    simp only [isPopWaits, isPopWoken, isNotifiesNotEmpty, isPushWaits, isPushWoken,
      isNotifiesNotFull, Bool.toNat_true, Bool.toNat_false] at hc
    constructor <;> simp only <;> omega

theorem Notified.setCapacity (h : Notified s) {i c : ℕ} (hok : s.CapacityOk (.setCapacity i c)) :
    Notified { s with capacity := c } := by
  obtain ⟨h1, h2⟩ := h
  refine ⟨h1, fun hpos => ?_⟩
  have := h2 hpos
  rcases hok with hz | hle | hle <;> simp only at hpos ⊢ <;> omega

theorem Notified.step (h : Notified s) {op : Op T} (hok : s.CapacityOk op) {r : Unit}
    (hs : s.step op = some (r, s')) : Notified s' := by
  unfold Queue.step at hs
  cases op with
  | push i item =>
    simp only at hs
    split at hs <;> cases hs
    rename_i hi
    exact h.pushFront (.inl hi)
  | pop i =>
    simp only at hs
    split at hs <;> cases hs
    rename_i hi
    exact h.popBack (.inl hi)
  | setCapacity i c =>
    simp only at hs
    split at hs <;> cases hs
    exact h.setCapacity hok
  | resume i =>
    simp only at hs
    split at hs <;> cases hs
    · rename_i hi
      exact h.pushFront (.inr hi)
    · rename_i hi
      exact h.popBack (.inr hi)
  | notify i target =>
    simp only at hs
    split at hs
    · rename_i hi
      obtain ⟨threads, hn, he⟩ := Option.map_eq_some_iff.mp hs
      cases he
      exact h.notifyNotEmpty hi hn
    · rename_i hi
      obtain ⟨threads, hn, he⟩ := Option.map_eq_some_iff.mp hs
      cases he
      exact h.notifyNotFull hi hn
    · cases hs
  | wakeUp i =>
    simp only at hs
    split at hs <;> cases hs
    · rename_i hi
      exact h.wakeUp hi (.inl rfl)
    · rename_i hi
      exact h.wakeUp hi (.inr rfl)

theorem Notified.create (capacity : ℕ) (wb : WriteBehavior) (nbThreads : ℕ) :
    Notified (create capacity wb nbThreads : Queue T) := by
  constructor
  · intro hpos
    exact absurd hpos (not_count_pos_replicate rfl nbThreads)
  · intro hpos
    exact absurd hpos (not_count_pos_replicate rfl nbThreads)

/-- A consumer that could pop is not forgotten: a notification for it is on its way. -/
theorem Notified.consumer (h : Notified s) {i : ℕ} (hi : s.threads[i]? = some .popWaits)
    (hpos : 0 < s.queue.length) :
    ∃ j : ℕ, s.threads[j]? = some .notifiesNotEmpty ∨ s.threads[j]? = some .popWoken := by
  have hle := h.notEmpty (count_pos hi rfl)
  have hsome : 0 < count isNotifiesNotEmpty s.threads ∨ 0 < count isPopWoken s.threads := by
    omega
  rcases hsome with hsome | hsome
  · obtain ⟨j, t, hj, ht⟩ := exists_of_count_pos hsome
    cases t <;> simp [isNotifiesNotEmpty] at ht
    exact ⟨j, .inl hj⟩
  · obtain ⟨j, t, hj, ht⟩ := exists_of_count_pos hsome
    cases t <;> simp [isPopWoken] at ht
    exact ⟨j, .inr hj⟩

/-- A producer that could push is not forgotten. -/
theorem Notified.producer (h : Notified s) {i : ℕ} {item : T}
    (hi : s.threads[i]? = some (.pushWaits item)) (hroom : s.queue.length < s.capacity) :
    ∃ j : ℕ, s.threads[j]? = some .notifiesNotFull ∨
      ∃ item', s.threads[j]? = some (.pushWoken item') := by
  have hle := h.notFull (count_pos hi rfl)
  have hsome : 0 < count isNotifiesNotFull s.threads ∨ 0 < count isPushWoken s.threads := by
    omega
  rcases hsome with hsome | hsome
  · obtain ⟨j, t, hj, ht⟩ := exists_of_count_pos hsome
    cases t <;> simp [isNotifiesNotFull] at ht
    exact ⟨j, .inl hj⟩
  · obtain ⟨j, t, hj, ht⟩ := exists_of_count_pos hsome
    cases t <;> simp [isPushWoken] at ht
    exact ⟨j, .inr ⟨_, hj⟩⟩

end Queue

namespace QueueingLogic

open LogicThread

variable {s s' : QueueingLogic T}

/-- The number of elements of a logical queue among those of a worker. -/
def elements (queue : List (T × ℕ)) (q : ℕ) : ℕ := queue.countP fun e => e.2 = q

/-- While a consumer of a worker waits, there is a notification for every element; while a
producer of a queue waits, one for every free place. The notifications are made under the mutex,
so that none is pending. -/
structure Notified (s : QueueingLogic T) : Prop where
  notEmpty : ∀ (w : ℕ) (queue : List (T × ℕ)), s.workersInfo[w]? = some queue →
    0 < count (isPopWaits w) s.threads → queue.length ≤ count (isPopWoken w) s.threads
  notFull : ∀ (q : ℕ) (qInfo : LogicInfo), s.queuesInfo[q]? = some qInfo →
    0 < count (isPushWaits q) s.threads →
      qInfo.capacity - qInfo.size ≤ count (isPushWoken q) s.threads

/-- The queue or the worker that a thread is busy with exists. -/
def Known (s : QueueingLogic T) : LogicThread T → Prop
  | .idle => True
  | .pushWaits q _ => q < s.queuesInfo.length ∧ s.mapToWorker q < s.workersInfo.length
  | .pushWoken q _ => q < s.queuesInfo.length ∧ s.mapToWorker q < s.workersInfo.length
  | .popWaits w => w < s.workersInfo.length
  | .popWoken w => w < s.workersInfo.length

/-- The counter of a logical queue is the number of its elements, which are all at its worker. -/
structure Sized (s : QueueingLogic T) : Prop where
  known : ∀ t ∈ s.threads, s.Known t
  size_eq : ∀ (q : ℕ) (qInfo : LogicInfo) (queue : List (T × ℕ)), s.queuesInfo[q]? = some qInfo →
    s.workersInfo[s.mapToWorker q]? = some queue → qInfo.size = elements queue q
  placed : ∀ (w : ℕ) (queue : List (T × ℕ)), s.workersInfo[w]? = some queue →
    ∀ e ∈ queue, s.mapToWorker e.2 = w ∧ e.2 < s.queuesInfo.length

/-- The capacity of a queue is not raised above what it holds while a producer waits on it. -/
def CapacityOk (s : QueueingLogic T) : Op T → Prop
  | .setCapacity _ q c => ∀ qInfo : LogicInfo, s.queuesInfo[q]? = some qInfo →
    count (isPushWaits q) s.threads = 0 ∨ c ≤ qInfo.capacity ∨ c ≤ qInfo.size
  | _ => True

/-- How a thread that moves on changes the counts of a worker and of a queue. -/
theorem counts_set {threads : List (LogicThread T)} {i : ℕ} {t : LogicThread T}
    (h : threads[i]? = some t) (t' : LogicThread T) (w q : ℕ) :
    (count (isPopWaits w) (threads.set i t') + (isPopWaits w t).toNat =
      count (isPopWaits w) threads + (isPopWaits w t').toNat) ∧
    (count (isPopWoken w) (threads.set i t') + (isPopWoken w t).toNat =
      count (isPopWoken w) threads + (isPopWoken w t').toNat) ∧
    (count (isPushWaits q) (threads.set i t') + (isPushWaits q t).toNat =
      count (isPushWaits q) threads + (isPushWaits q t').toNat) ∧
    (count (isPushWoken q) (threads.set i t') + (isPushWoken q t).toNat =
      count (isPushWoken q) threads + (isPushWoken q t').toNat) :=
  ⟨count_set h _ _, count_set h _ _, count_set h _ _, count_set h _ _⟩

theorem wakePop_eq_some {w : ℕ} {t t' : LogicThread T} (h : wakePop w t = some t') :
    t = .popWaits w ∧ t' = .popWoken w := by
  cases t <;> simp_all [wakePop]

theorem wakePush_eq_some {q : ℕ} {t t' : LogicThread T} (h : wakePush q t = some t') :
    ∃ item, t = .pushWaits q item ∧ t' = .pushWoken q item := by
  cases t <;> simp_all [wakePush]

/-- A notification for worker `w` moves one of its consumers, and no one else. -/
theorem counts_notifyPop {threads threads' : List (LogicThread T)} {w : ℕ} {target : Option ℕ}
    (h : notifyOne (wakePop w) threads target = some threads') :
    ((count (isPopWaits w) threads' = 0 ∧
        count (isPopWoken w) threads' = count (isPopWoken w) threads) ∨
      (count (isPopWaits w) threads' + 1 = count (isPopWaits w) threads ∧
        count (isPopWoken w) threads' = count (isPopWoken w) threads + 1)) ∧
    (∀ w', w' ≠ w → count (isPopWaits w') threads' = count (isPopWaits w') threads ∧
      count (isPopWoken w') threads' = count (isPopWoken w') threads) ∧
    ∀ q, count (isPushWaits q) threads' = count (isPushWaits q) threads ∧
      count (isPushWoken q) threads' = count (isPushWoken q) threads := by
  refine ⟨notifyOne_count ?_ ?_ h, fun w' hw' => ⟨notifyOne_count_same ?_ h,
    notifyOne_count_same ?_ h⟩, fun q => ⟨notifyOne_count_same ?_ h, notifyOne_count_same ?_ h⟩⟩
  · intro t t' ht
    obtain ⟨rfl, rfl⟩ := wakePop_eq_some ht
    simp [isPopWaits, isPopWoken]
  · intro t ht
    cases t <;> simp_all [wakePop, isPopWaits]
  all_goals
    intro t t' ht
    obtain ⟨rfl, rfl⟩ := wakePop_eq_some ht
    simp [isPopWaits, isPopWoken, isPushWaits, isPushWoken]
  all_goals exact Ne.symm hw'

/-- A notification for queue `q` moves one of its producers, and no one else. -/
theorem counts_notifyPush {threads threads' : List (LogicThread T)} {q : ℕ} {target : Option ℕ}
    (h : notifyOne (wakePush q) threads target = some threads') :
    ((count (isPushWaits q) threads' = 0 ∧
        count (isPushWoken q) threads' = count (isPushWoken q) threads) ∨
      (count (isPushWaits q) threads' + 1 = count (isPushWaits q) threads ∧
        count (isPushWoken q) threads' = count (isPushWoken q) threads + 1)) ∧
    (∀ q', q' ≠ q → count (isPushWaits q') threads' = count (isPushWaits q') threads ∧
      count (isPushWoken q') threads' = count (isPushWoken q') threads) ∧
    ∀ w, count (isPopWaits w) threads' = count (isPopWaits w) threads ∧
      count (isPopWoken w) threads' = count (isPopWoken w) threads := by
  refine ⟨notifyOne_count ?_ ?_ h, fun q' hq' => ⟨notifyOne_count_same ?_ h,
    notifyOne_count_same ?_ h⟩, fun w => ⟨notifyOne_count_same ?_ h, notifyOne_count_same ?_ h⟩⟩
  · intro t t' ht
    obtain ⟨item, rfl, rfl⟩ := wakePush_eq_some ht
    simp [isPushWaits, isPushWoken]
  · intro t ht
    cases t <;> simp_all [wakePush, isPushWaits]
  all_goals
    intro t t' ht
    obtain ⟨item, rfl, rfl⟩ := wakePush_eq_some ht
    simp [isPopWaits, isPopWoken, isPushWaits, isPushWoken]
  all_goals exact Ne.symm hq'

theorem pushFront_cases {i q : ℕ} {item : T} {target : Option ℕ}
    (hs : s.pushFront i q item target = some s') :
    (¬ (q < s.queuesInfo.length ∧ s.mapToWorker q < s.workersInfo.length) ∧
      s' = { s with threads := s.threads.set i .idle }) ∨
    (∃ qInfo, s.queuesInfo[q]? = some qInfo ∧ s.mapToWorker q < s.workersInfo.length ∧
      qInfo.capacity ≤ qInfo.size ∧
      s' = { s with threads := s.threads.set i (.pushWaits q item) }) ∨
    ∃ qInfo queue threads, s.queuesInfo[q]? = some qInfo ∧
      s.workersInfo[s.mapToWorker q]? = some queue ∧ qInfo.size < qInfo.capacity ∧
      notifyOne (wakePop (s.mapToWorker q)) (s.threads.set i .idle) target = some threads ∧
      s' = { s with
        queuesInfo := s.queuesInfo.set q { qInfo with size := qInfo.size + 1 }
        workersInfo := s.workersInfo.set (s.mapToWorker q) ((item, q) :: queue)
        threads } := by
  unfold pushFront at hs
  split at hs
  · rename_i qInfo queue hq hw
    split_ifs at hs with hfull
    · cases hs
      exact .inr (.inl ⟨qInfo, hq, (List.getElem?_eq_some_iff.mp hw).1, hfull, rfl⟩)
    · obtain ⟨threads, hn, rfl⟩ := Option.map_eq_some_iff.mp hs
      exact .inr (.inr ⟨qInfo, queue, threads, hq, hw, by omega, hn, rfl⟩)
  · rename_i hnone
    cases hs
    refine .inl ⟨fun hlt => ?_, rfl⟩
    exact hnone _ _ (List.getElem?_eq_getElem hlt.1) (List.getElem?_eq_getElem hlt.2)

theorem popBack_cases (h : Sized s) {i w : ℕ} {target : Option ℕ}
    (hs : s.popBack i w target = some s') :
    (¬ w < s.workersInfo.length ∧ s' = { s with threads := s.threads.set i .idle }) ∨
    (s.workersInfo[w]? = some [] ∧ s' = { s with threads := s.threads.set i (.popWaits w) }) ∨
    ∃ queue e q qInfo threads, s.workersInfo[w]? = some (queue ++ [(e, q)]) ∧
      s.queuesInfo[q]? = some qInfo ∧
      notifyOne (wakePush q) (s.threads.set i .idle) target = some threads ∧
      s' = { s with
        queuesInfo := s.queuesInfo.set q { qInfo with size := qInfo.size - 1 }
        workersInfo := s.workersInfo.set w queue
        threads } := by
  unfold popBack at hs
  split at hs
  · rename_i hnone
    cases hs
    exact .inl ⟨by simpa using List.getElem?_eq_none_iff.mp hnone, rfl⟩
  · rename_i full hw
    split at hs
    · rename_i hnil
      cases hs
      rw [List.getLast?_eq_none_iff] at hnil
      exact .inr (.inl ⟨hnil ▸ hw, rfl⟩)
    · rename_i e q hlast
      obtain ⟨queue, rfl⟩ := List.getLast?_eq_some_iff.mp hlast
      obtain ⟨-, hlt⟩ := h.placed w _ hw (e, q) (by simp)
      rw [List.getElem?_eq_getElem hlt] at hs
      obtain ⟨threads, hn, rfl⟩ := Option.map_eq_some_iff.mp hs
      refine .inr (.inr ⟨queue, e, q, _, threads, hw, List.getElem?_eq_getElem hlt, hn, ?_⟩)
      simp only [List.dropLast_concat]

theorem getElem?_set_eq {α : Type} {l : List α} {i j : ℕ} {a b c : α} (h : l[i]? = some a)
    (hc : (l.set i b)[j]? = some c) : (j = i ∧ b = c) ∨ (j ≠ i ∧ l[j]? = some c) := by
  rw [List.getElem?_set, if_pos (List.getElem?_eq_some_iff.mp h).1] at hc
  split_ifs at hc with hij
  · exact .inl ⟨hij.symm, by simpa using hc⟩
  · exact .inr ⟨Ne.symm hij, hc⟩

theorem set_same {α : Type} {l : List α} {i : ℕ} {a : α} (h : l[i]? = some a) :
    l.set i a = l := by
  obtain ⟨hlt, rfl⟩ := List.getElem?_eq_some_iff.mp h
  exact List.set_getElem_self hlt

section

variable {threads : List (LogicThread T)} {i : ℕ} {t : LogicThread T}

/-- A producer of `q` that goes idle uses up at most a wake-up of `q`. -/
theorem producer_idle {q : ℕ} {item : T} (hi : threads[i]? = some t)
    (ht : t = .idle ∨ t = .pushWoken q item) (w q' : ℕ) :
    count (isPopWaits w) (threads.set i .idle) = count (isPopWaits w) threads ∧
    count (isPopWoken w) (threads.set i .idle) = count (isPopWoken w) threads ∧
    count (isPushWaits q') (threads.set i .idle) = count (isPushWaits q') threads ∧
    count (isPushWoken q') threads ≤
      count (isPushWoken q') (threads.set i .idle) + if q' = q then 1 else 0 := by
  have hc := counts_set hi .idle w q'
  rcases ht with rfl | rfl
  · simp [isPopWaits, isPopWoken, isPushWaits, isPushWoken] at hc
    omega
  · by_cases hq : q = q' <;>
      simp [isPopWaits, isPopWoken, isPushWaits, isPushWoken, hq, eq_comm] at hc ⊢ <;> omega

/-- A producer of `q` that waits touches the counts of `q` only. -/
theorem producer_waits {q : ℕ} {item : T} (hi : threads[i]? = some t)
    (ht : t = .idle ∨ t = .pushWoken q item) (w q' : ℕ) :
    count (isPopWaits w) (threads.set i (.pushWaits q item)) = count (isPopWaits w) threads ∧
    count (isPopWoken w) (threads.set i (.pushWaits q item)) = count (isPopWoken w) threads ∧
    (q' ≠ q → count (isPushWaits q') (threads.set i (.pushWaits q item)) =
        count (isPushWaits q') threads ∧
      count (isPushWoken q') (threads.set i (.pushWaits q item)) =
        count (isPushWoken q') threads) := by
  have hc := counts_set hi (.pushWaits q item) w q'
  rcases ht with rfl | rfl
  all_goals
    by_cases hq : q = q' <;>
      simp [isPopWaits, isPopWoken, isPushWaits, isPushWoken, hq, eq_comm] at hc ⊢ <;> omega

/-- A consumer of `w` that goes idle uses up at most a wake-up of `w`. -/
theorem consumer_idle {w : ℕ} (hi : threads[i]? = some t)
    (ht : t = .idle ∨ t = .popWoken w) (w' q : ℕ) :
    count (isPushWaits q) (threads.set i .idle) = count (isPushWaits q) threads ∧
    count (isPushWoken q) (threads.set i .idle) = count (isPushWoken q) threads ∧
    count (isPopWaits w') (threads.set i .idle) = count (isPopWaits w') threads ∧
    count (isPopWoken w') threads ≤
      count (isPopWoken w') (threads.set i .idle) + if w' = w then 1 else 0 := by
  have hc := counts_set hi .idle w' q
  rcases ht with rfl | rfl
  · simp [isPopWaits, isPopWoken, isPushWaits, isPushWoken] at hc
    omega
  · by_cases hw : w = w' <;>
      simp [isPopWaits, isPopWoken, isPushWaits, isPushWoken, hw, eq_comm] at hc ⊢ <;> omega

/-- A consumer of `w` that waits touches the counts of `w` only. -/
theorem consumer_waits {w : ℕ} (hi : threads[i]? = some t)
    (ht : t = .idle ∨ t = .popWoken w) (w' q : ℕ) :
    count (isPushWaits q) (threads.set i (.popWaits w)) = count (isPushWaits q) threads ∧
    count (isPushWoken q) (threads.set i (.popWaits w)) = count (isPushWoken q) threads ∧
    (w' ≠ w → count (isPopWaits w') (threads.set i (.popWaits w)) =
        count (isPopWaits w') threads ∧
      count (isPopWoken w') (threads.set i (.popWaits w)) = count (isPopWoken w') threads) := by
  have hc := counts_set hi (.popWaits w) w' q
  rcases ht with rfl | rfl
  all_goals
    by_cases hw : w = w' <;>
      simp [isPopWaits, isPopWoken, isPushWaits, isPushWoken, hw, eq_comm] at hc ⊢ <;> omega

end

theorem Notified.pushFront (h : Notified s) (hk : Sized s) {i q : ℕ} {item : T}
    {target : Option ℕ} {t : LogicThread T} (hi : s.threads[i]? = some t)
    (ht : t = .idle ∨ t = .pushWoken q item)
    (hs : s.pushFront i q item target = some s') : Notified s' := by
  obtain ⟨hno, rfl⟩ | ⟨qInfo, hq, -, hfull, rfl⟩ |
    ⟨qInfo, queue, threads, hq, hw, hroom, hn, rfl⟩ := pushFront_cases hs
  · rcases ht with rfl | rfl
    · rw [set_same hi]
      exact h
    · exact absurd (hk.known _ (List.mem_of_getElem? hi)) hno
  · -- the queue is full, so that there is no free place for the new waiter to miss
    constructor
    · intro w' queue' hw' hpos
      obtain ⟨h1, h2, -⟩ := producer_waits hi ht w' q
      rw [h1] at hpos
      rw [h2]
      exact h.notEmpty w' queue' hw' hpos
    · intro q' qInfo' hq' hpos
      by_cases hqq : q' = q
      · subst hqq
        obtain rfl : qInfo = qInfo' := by simpa [hq] using hq'
        omega
      · obtain ⟨h1, h2⟩ := (producer_waits hi ht 0 q').2.2 hqq
        rw [h1] at hpos
        rw [h2]
        exact h.notFull q' qInfo' hq' hpos
  · obtain ⟨hwake, hother, hsame⟩ := counts_notifyPop hn
    constructor
    · intro w' queue' hw' hpos
      have hc := producer_idle hi ht w' q
      obtain ⟨rfl, rfl⟩ | ⟨hne, hw'⟩ := getElem?_set_eq hw hw'
      · have hold := h.notEmpty _ queue hw
        simp only [List.length_cons] at hpos ⊢
        omega
      · have hold := h.notEmpty w' queue' hw'
        have ho := hother w' hne
        simp only at hpos ⊢
        omega
    · intro q' qInfo' hq' hpos
      have hc := producer_idle hi ht 0 q'
      have hsame' := hsame q'
      obtain ⟨rfl, rfl⟩ | ⟨hne, hq'⟩ := getElem?_set_eq hq hq'
      · have hold := h.notFull _ qInfo hq
        simp only [if_true] at hpos hc ⊢
        omega
      · have hold := h.notFull q' qInfo' hq'
        simp only [hne, if_false] at hpos hc ⊢
        omega

theorem Notified.popBack (h : Notified s) (hk : Sized s) {i w : ℕ} {target : Option ℕ}
    {t : LogicThread T} (hi : s.threads[i]? = some t) (ht : t = .idle ∨ t = .popWoken w)
    (hs : s.popBack i w target = some s') : Notified s' := by
  obtain ⟨hno, rfl⟩ | ⟨hnil, rfl⟩ | ⟨queue, e, q, qInfo, threads, hw, hq, hn, rfl⟩ :=
    popBack_cases hk hs
  · rcases ht with rfl | rfl
    · rw [set_same hi]
      exact h
    · exact absurd (hk.known _ (List.mem_of_getElem? hi)) hno
  · -- the worker has nothing, so that there is no element for the new waiter to miss
    constructor
    · intro w' queue' hw' hpos
      by_cases hww : w' = w
      · subst hww
        obtain rfl : [] = queue' := by simpa [hnil] using hw'
        exact Nat.zero_le _
      · obtain ⟨h1, h2⟩ := (consumer_waits hi ht w' 0).2.2 hww
        rw [h1] at hpos
        rw [h2]
        exact h.notEmpty w' queue' hw' hpos
    · intro q' qInfo' hq' hpos
      obtain ⟨h1, h2, -⟩ := consumer_waits hi ht w q'
      rw [h1] at hpos
      rw [h2]
      exact h.notFull q' qInfo' hq' hpos
  · obtain ⟨hwake, hother, hsame⟩ := counts_notifyPush hn
    constructor
    · intro w' queue' hw' hpos
      have hc := consumer_idle hi ht w' 0
      have hsame' := hsame w'
      obtain ⟨rfl, rfl⟩ | ⟨hne, hw'⟩ := getElem?_set_eq hw hw'
      · have hold := h.notEmpty _ _ hw
        simp only [if_true, List.length_append, List.length_singleton] at hpos hc hold ⊢
        omega
      · have hold := h.notEmpty w' queue' hw'
        simp only [hne, if_false] at hpos hc ⊢
        omega
    · intro q' qInfo' hq' hpos
      have hc := consumer_idle hi ht w q'
      obtain ⟨rfl, rfl⟩ | ⟨hne, hq'⟩ := getElem?_set_eq hq hq'
      · have hold := h.notFull _ qInfo hq
        simp only at hpos ⊢
        omega
      · have hold := h.notFull q' qInfo' hq'
        have ho := hother q' hne
        simp only at hpos ⊢
        omega

/-- Known threads stay known when the tables keep their sizes. -/
theorem Known.of_lengths {t : LogicThread T} (h : s.Known t)
    (hq : s'.queuesInfo.length = s.queuesInfo.length)
    (hw : s'.workersInfo.length = s.workersInfo.length) (hm : s'.mapToWorker = s.mapToWorker) :
    s'.Known t := by
  unfold Known at h ⊢
  rw [hq, hw, hm]
  exact h

theorem known_set {threads : List (LogicThread T)} (h : ∀ t ∈ threads, s.Known t) (i : ℕ)
    {t' : LogicThread T} (ht' : s.Known t') : ∀ t ∈ threads.set i t', s.Known t := by
  intro t ht
  obtain hmem | rfl := List.mem_or_eq_of_mem_set ht
  · exact h t hmem
  · exact ht'

theorem known_notifyOne {threads threads' : List (LogicThread T)}
    {wake : LogicThread T → Option (LogicThread T)} {target : Option ℕ}
    (h : ∀ t ∈ threads, s.Known t) (hwake : ∀ t t', wake t = some t' → s.Known t → s.Known t')
    (hn : notifyOne wake threads target = some threads') : ∀ t ∈ threads', s.Known t := by
  obtain ⟨rfl, -⟩ | ⟨j, t, t', hj, hw, rfl⟩ := notifyOne_cases hn
  · exact h
  · exact known_set h j (hwake t t' hw (h t (List.mem_of_getElem? hj)))

theorem Known.wakePop {w : ℕ} (t t' : LogicThread T) (ht : wakePop w t = some t')
    (h : s.Known t) : s.Known t' := by
  obtain ⟨rfl, rfl⟩ := wakePop_eq_some ht
  exact h

theorem Known.wakePush {q : ℕ} (t t' : LogicThread T) (ht : wakePush q t = some t')
    (h : s.Known t) : s.Known t' := by
  obtain ⟨item, rfl, rfl⟩ := wakePush_eq_some ht
  exact h

theorem Sized.withThreads (h : Sized s) {threads : List (LogicThread T)}
    (hk : ∀ t ∈ threads, s.Known t) : Sized { s with threads } :=
  ⟨fun t ht => (hk t ht).of_lengths rfl rfl rfl, h.size_eq, h.placed⟩

theorem Sized.pushFront (h : Sized s) {i q : ℕ} {item : T} {target : Option ℕ}
    (hs : s.pushFront i q item target = some s') : Sized s' := by
  obtain ⟨-, rfl⟩ | ⟨qInfo, hq, hw, -, rfl⟩ | ⟨qInfo, queue, threads, hq, hw, -, hn, rfl⟩ :=
    pushFront_cases hs
  · exact h.withThreads (known_set h.known i trivial)
  · exact h.withThreads (known_set h.known i ⟨(List.getElem?_eq_some_iff.mp hq).1, hw⟩)
  · have hidle : s.Known (.idle : LogicThread T) := trivial
    have hknown := known_notifyOne (known_set h.known i hidle) Known.wakePop hn
    refine ⟨fun t ht => (hknown t ht).of_lengths ?_ ?_ rfl, fun q' qInfo' queue' hq' hw' => ?_,
      fun w' queue' hw' e he => ?_⟩
    · exact List.length_set
    · exact List.length_set
    · obtain ⟨rfl, rfl⟩ | ⟨hne, hq'⟩ := getElem?_set_eq hq hq'
      · obtain ⟨-, rfl⟩ | ⟨hne, -⟩ := getElem?_set_eq hw hw'
        · rw [elements, List.countP_cons_of_pos (by simp), ← elements, ← h.size_eq _ _ _ hq hw]
        · exact absurd rfl hne
      · obtain ⟨heq, rfl⟩ | ⟨-, hw'⟩ := getElem?_set_eq hw hw'
        · rw [elements, List.countP_cons_of_neg (by simpa using Ne.symm hne), ← elements]
          exact h.size_eq q' qInfo' queue hq' (heq ▸ hw)
        · exact h.size_eq q' qInfo' queue' hq' hw'
    · rw [List.length_set]
      obtain ⟨rfl, rfl⟩ | ⟨-, hw'⟩ := getElem?_set_eq hw hw'
      · obtain rfl | he := List.mem_cons.mp he
        · exact ⟨rfl, (List.getElem?_eq_some_iff.mp hq).1⟩
        · exact h.placed _ queue hw e he
      · exact h.placed w' queue' hw' e he

theorem Sized.popBack (h : Sized s) {i w : ℕ} {target : Option ℕ}
    (hs : s.popBack i w target = some s') : Sized s' := by
  obtain ⟨-, rfl⟩ | ⟨hnil, rfl⟩ | ⟨queue, e, q, qInfo, threads, hw, hq, hn, rfl⟩ :=
    popBack_cases h hs
  · exact h.withThreads (known_set h.known i trivial)
  · have hlt : s.Known (.popWaits w) := (List.getElem?_eq_some_iff.mp hnil).1
    exact h.withThreads (known_set h.known i hlt)
  · have hidle : s.Known (.idle : LogicThread T) := trivial
    have hknown := known_notifyOne (known_set h.known i hidle) Known.wakePush hn
    obtain ⟨hmap, -⟩ := h.placed w _ hw (e, q) (by simp)
    refine ⟨fun t ht => (hknown t ht).of_lengths ?_ ?_ rfl, fun q' qInfo' queue' hq' hw' => ?_,
      fun w' queue' hw' e' he' => ?_⟩
    · exact List.length_set
    · exact List.length_set
    · obtain ⟨rfl, rfl⟩ | ⟨hne, hq'⟩ := getElem?_set_eq hq hq'
      · obtain ⟨-, rfl⟩ | ⟨hne, -⟩ := getElem?_set_eq hw hw'
        · have hold := h.size_eq _ _ _ hq (hmap.symm ▸ hw)
          rw [elements, List.countP_append, List.countP_singleton, ← elements] at hold
          simp only [decide_true, if_true] at hold
          simp only
          omega
        · exact absurd hmap hne
      · obtain ⟨heq, rfl⟩ | ⟨-, hw'⟩ := getElem?_set_eq hw hw'
        · have hold := h.size_eq q' qInfo' _ hq' (heq ▸ hw)
          rw [elements, List.countP_append, List.countP_singleton, ← elements] at hold
          simpa [Ne.symm hne] using hold
        · exact h.size_eq q' qInfo' queue' hq' hw'
    · rw [List.length_set]
      obtain ⟨rfl, rfl⟩ | ⟨-, hw'⟩ := getElem?_set_eq hw hw'
      · exact h.placed _ _ hw e' (List.mem_append_left _ he')
      · exact h.placed w' queue' hw' e' he'

theorem setCapacity_keeps (h : Notified s) (hk : Sized s) {i q c : ℕ}
    (hok : s.CapacityOk (.setCapacity i q c)) :
    Notified (s.setCapacity q c) ∧ Sized (s.setCapacity q c) := by
  unfold setCapacity
  split
  · rename_i qInfo _ hq _
    refine ⟨⟨h.notEmpty, fun q' qInfo' hq' hpos => ?_⟩, fun t ht => ?_,
      fun q' qInfo' queue' hq' hw' => ?_, fun w' queue' hw' e he => ?_⟩
    · obtain ⟨rfl, rfl⟩ | ⟨-, hq'⟩ := getElem?_set_eq hq hq'
      · have hold := h.notFull _ qInfo hq hpos
        rcases hok qInfo hq with hz | hle | hle <;> simp only at hpos hold ⊢ <;> omega
      · exact h.notFull q' qInfo' hq' hpos
    · exact (hk.known t ht).of_lengths List.length_set rfl rfl
    · obtain ⟨rfl, rfl⟩ | ⟨-, hq'⟩ := getElem?_set_eq hq hq'
      · exact hk.size_eq _ qInfo queue' hq hw'
      · exact hk.size_eq q' qInfo' queue' hq' hw'
    · rw [List.length_set]
      exact hk.placed w' queue' hw' e he
  · exact ⟨h, hk⟩

/-- A waiter that wakes up by itself counts as woken. -/
theorem wakeUp_keeps (h : Notified s) (hk : Sized s) {i : ℕ} {t t' : LogicThread T}
    (hi : s.threads[i]? = some t)
    (hwake : (∃ w, wakePop w t = some t') ∨ ∃ q, wakePush q t = some t') :
    Notified { s with threads := s.threads.set i t' } ∧
      Sized { s with threads := s.threads.set i t' } := by
  have hc := counts_set hi t'
  rcases hwake with ⟨w, hwake⟩ | ⟨q, hwake⟩
  · have hkn := Known.wakePop t t' hwake (hk.known t (List.mem_of_getElem? hi))
    refine ⟨⟨fun w' queue' hw' hpos => ?_, fun q' qInfo' hq' hpos => ?_⟩,
      hk.withThreads (known_set hk.known i hkn)⟩
    · have hold := h.notEmpty w' queue' hw'
      have hc' := hc w' 0
      obtain ⟨rfl, rfl⟩ := wakePop_eq_some hwake
      by_cases hw : w = w' <;> simp [isPopWaits, isPopWoken, hw] at hc' hpos ⊢ <;> omega
    · have hold := h.notFull q' qInfo' hq'
      have hc' := hc 0 q'
      obtain ⟨rfl, rfl⟩ := wakePop_eq_some hwake
      simp [isPushWaits, isPushWoken] at hc' hpos ⊢
      omega
  · have hkn := Known.wakePush t t' hwake (hk.known t (List.mem_of_getElem? hi))
    refine ⟨⟨fun w' queue' hw' hpos => ?_, fun q' qInfo' hq' hpos => ?_⟩,
      hk.withThreads (known_set hk.known i hkn)⟩
    · have hold := h.notEmpty w' queue' hw'
      have hc' := hc w' 0
      obtain ⟨item, rfl, rfl⟩ := wakePush_eq_some hwake
      simp [isPopWaits, isPopWoken] at hc' hpos ⊢
      omega
    · have hold := h.notFull q' qInfo' hq'
      have hc' := hc 0 q'
      obtain ⟨item, rfl, rfl⟩ := wakePush_eq_some hwake
      by_cases hq : q = q' <;> simp [isPushWaits, isPushWoken, hq] at hc' hpos ⊢ <;> omega

theorem keeps_step (h : Notified s ∧ Sized s) {op : Op T} (hok : s.CapacityOk op) {r : Unit}
    (hs : s.step op = some (r, s')) : Notified s' ∧ Sized s' := by
  obtain ⟨hn, hk⟩ := h
  unfold QueueingLogic.step at hs
  cases op with
  | push i q item target =>
    simp only at hs
    split at hs
    · rename_i hi
      obtain ⟨t, ht, he⟩ := Option.map_eq_some_iff.mp hs
      cases he
      exact ⟨hn.pushFront hk hi (.inl rfl) ht, hk.pushFront ht⟩
    · cases hs
  | pop i w target =>
    simp only at hs
    split at hs
    · rename_i hi
      obtain ⟨t, ht, he⟩ := Option.map_eq_some_iff.mp hs
      cases he
      exact ⟨hn.popBack hk hi (.inl rfl) ht, hk.popBack ht⟩
    · cases hs
  | setCapacity i q c =>
    simp only at hs
    split at hs <;> cases hs
    exact setCapacity_keeps hn hk hok
  | resume i target =>
    simp only at hs
    split at hs
    · rename_i hi
      obtain ⟨t, ht, he⟩ := Option.map_eq_some_iff.mp hs
      cases he
      exact ⟨hn.pushFront hk hi (.inr rfl) ht, hk.pushFront ht⟩
    · rename_i hi
      obtain ⟨t, ht, he⟩ := Option.map_eq_some_iff.mp hs
      cases he
      exact ⟨hn.popBack hk hi (.inr rfl) ht, hk.popBack ht⟩
    · cases hs
  | wakeUp i =>
    simp only at hs
    split at hs <;> cases hs
    · rename_i w hi
      exact wakeUp_keeps hn hk hi (.inl ⟨w, by simp [LogicThread.wakePop]⟩)
    · rename_i q item hi
      exact wakeUp_keeps hn hk hi (.inr ⟨q, by simp [LogicThread.wakePush]⟩)

theorem create_keeps (nbQueues nbWorkers capacity : ℕ) (mapToWorker : ℕ → ℕ) (nbThreads : ℕ) :
    Notified (create nbQueues nbWorkers capacity mapToWorker nbThreads : QueueingLogic T) ∧
      Sized (create nbQueues nbWorkers capacity mapToWorker nbThreads : QueueingLogic T) := by
  refine ⟨⟨fun w queue hw hpos => ?_, fun q qInfo hq hpos => ?_⟩, fun t ht => ?_,
    fun q qInfo queue hq hw => ?_, fun w queue hw e he => ?_⟩
  · exact absurd hpos (not_count_pos_replicate rfl nbThreads)
  · exact absurd hpos (not_count_pos_replicate rfl nbThreads)
  · obtain rfl := List.eq_of_mem_replicate ht
    trivial
  · obtain rfl := List.eq_of_mem_replicate (List.mem_of_getElem? hq)
    obtain rfl := List.eq_of_mem_replicate (List.mem_of_getElem? hw)
    rfl
  · obtain rfl := List.eq_of_mem_replicate (List.mem_of_getElem? hw)
    cases he

/-- A consumer whose worker has an element is not the last to know. -/
theorem Notified.consumer (h : Notified s) {i w : ℕ} {queue : List (T × ℕ)}
    (hi : s.threads[i]? = some (.popWaits w)) (hw : s.workersInfo[w]? = some queue)
    (hpos : 0 < queue.length) : ∃ j : ℕ, s.threads[j]? = some (.popWoken w) := by
  have hle := h.notEmpty w queue hw (count_pos hi (by simp [isPopWaits]))
  obtain ⟨j, t, hj, ht⟩ := exists_of_count_pos (Nat.lt_of_lt_of_le hpos hle)
  cases t <;> simp [isPopWoken] at ht
  exact ⟨j, ht ▸ hj⟩

/-- A producer whose queue has a free place is not the last to know. -/
theorem Notified.producer (h : Notified s) {i q : ℕ} {item : T} {qInfo : LogicInfo}
    (hi : s.threads[i]? = some (.pushWaits q item)) (hq : s.queuesInfo[q]? = some qInfo)
    (hroom : qInfo.size < qInfo.capacity) :
    ∃ (j : ℕ) (item' : T), s.threads[j]? = some (.pushWoken q item') := by
  have hle := h.notFull q qInfo hq (count_pos hi (by simp [isPushWaits]))
  obtain ⟨j, t, hj, ht⟩ := exists_of_count_pos (Nat.lt_of_lt_of_le (Nat.sub_pos_of_lt hroom) hle)
  cases t <;> simp [isPushWoken] at ht
  exact ⟨j, _, ht ▸ hj⟩

end QueueingLogic

/-- Along every run that raises a capacity only while nobody waits for room, both queues have a
notification for all that became possible: whoever waits while it could go on is notified, or a
thread that goes before it is. The counters of the logical queues count their elements. -/
theorem no_lost_wakeup :
    (∀ (capacity : ℕ) (wb : WriteBehavior) (nbThreads : ℕ) (s : Queue T),
      Transition.Reach Queue.step Queue.CapacityOk (.create capacity wb nbThreads) s →
      s.Notified ∧
      (∀ i : ℕ, s.threads[i]? = some .popWaits → 0 < s.queue.length →
        ∃ j : ℕ, s.threads[j]? = some .notifiesNotEmpty ∨ s.threads[j]? = some .popWoken) ∧
      ∀ (i : ℕ) (item : T), s.threads[i]? = some (.pushWaits item) →
        s.queue.length < s.capacity →
        ∃ j : ℕ, s.threads[j]? = some .notifiesNotFull ∨
          ∃ item', s.threads[j]? = some (.pushWoken item')) ∧
    ∀ (nbQueues nbWorkers capacity : ℕ) (mapToWorker : ℕ → ℕ) (nbThreads : ℕ)
      (s : QueueingLogic T),
      Transition.Reach QueueingLogic.step QueueingLogic.CapacityOk
        (.create nbQueues nbWorkers capacity mapToWorker nbThreads) s →
      s.Notified ∧ s.Sized ∧
      (∀ (i w : ℕ) (queue : List (T × ℕ)), s.threads[i]? = some (.popWaits w) →
        s.workersInfo[w]? = some queue →
        0 < queue.length → ∃ j : ℕ, s.threads[j]? = some (.popWoken w)) ∧
      ∀ (i q : ℕ) (item : T) (qInfo : LogicInfo), s.threads[i]? = some (.pushWaits q item) →
        s.queuesInfo[q]? = some qInfo → qInfo.size < qInfo.capacity →
        ∃ (j : ℕ) (item' : T), s.threads[j]? = some (.pushWoken q item') := by
  constructor
  · intro capacity wb nbThreads s hrun
    have hn := hrun.invariant Queue.Notified (Queue.Notified.create capacity wb nbThreads)
      fun _ _ _ _ h hok hs => h.step hok hs
    exact ⟨hn, fun i hi hpos => hn.consumer hi hpos, fun i item hi hroom => hn.producer hi hroom⟩
  · intro nbQueues nbWorkers capacity mapToWorker nbThreads s hrun
    obtain ⟨hn, hk⟩ := hrun.invariant (fun s => s.Notified ∧ s.Sized)
      (QueueingLogic.create_keeps nbQueues nbWorkers capacity mapToWorker nbThreads)
      fun _ _ _ _ h hok hs => QueueingLogic.keeps_step h hok hs
    exact ⟨hn, hk, fun i w queue hi hw hpos => hn.consumer hi hw hpos,
      fun i q item qInfo hi hq hroom => hn.producer hi hq hroom⟩

/-- A consumer waits, an element arrives, and its notification is still to be made. -/
theorem no_lost_wakeup_one_push :
    ∃ s : Queue ℕ,
      Transition.Reach Queue.step Queue.CapacityOk (.create 1 .writeBlock 2) s ∧
      s.threads[0]? = some .popWaits ∧ s.queue = [7] ∧
      ∃ j : ℕ, s.threads[j]? = some .notifiesNotEmpty ∨ s.threads[j]? = some .popWoken := by
  have hrun : Transition.Reach Queue.step Queue.CapacityOk (.create 1 .writeBlock 2)
      (⟨1, [7], .writeBlock, [.popWaits, .notifiesNotEmpty]⟩ : Queue ℕ) :=
    .tail (a := .push 1 7) (.tail (a := .pop 0) .refl trivial rfl) trivial rfl
  obtain ⟨-, hcons, -⟩ := no_lost_wakeup.1 1 .writeBlock 2 _ hrun
  exact ⟨_, hrun, rfl, rfl, hcons 0 rfl (by decide)⟩

/-- A producer waits for a queue of capacity 1 whose capacity is then set to 5: there are four
free places, and nobody is to tell it, in either of the two classes. -/
theorem set_capacity_loses_wakeup :
    (∃ s : Queue ℕ,
      Transition.Reach Queue.step (fun _ _ => True) (.create 1 .writeBlock 3) s ∧
      s.threads = [.idle, .pushWaits 8, .idle] ∧ s.capacity - s.queue.length = 4 ∧
      ¬ s.Notified) ∧
    ∃ s : QueueingLogic ℕ,
      Transition.Reach QueueingLogic.step (fun _ _ => True) (.create 1 1 1 (fun _ => 0) 3) s ∧
      (∃ qInfo : LogicInfo, s.queuesInfo[0]? = some qInfo ∧ qInfo.capacity - qInfo.size = 4) ∧
      s.threads[1]? = some (.pushWaits 0 8) ∧ ¬ s.Notified := by
  constructor
  · refine ⟨⟨5, [7], .writeBlock, [.idle, .pushWaits 8, .idle]⟩,
      .tail (a := .setCapacity 2 5) (.tail (a := .push 1 8) (.tail (a := .notify 0 none)
        (.tail (a := .push 0 7) .refl trivial rfl) trivial rfl) trivial rfl) trivial rfl,
      rfl, rfl, fun h => ?_⟩
    exact absurd (h.notFull (by decide)) (by decide)
  · refine ⟨⟨[⟨1, 5⟩], [[(7, 0)]], fun _ => 0, [.idle, .pushWaits 0 8, .idle]⟩,
      .tail (a := .setCapacity 2 0 5) (.tail (a := .push 1 0 8 none)
        (.tail (a := .push 0 0 7 none) .refl trivial rfl) trivial rfl) trivial rfl,
      ⟨_, rfl, rfl⟩, rfl, fun h => ?_⟩
    exact absurd (h.notFull 0 ⟨1, 5⟩ rfl (by decide)) (by decide)

end Bmv2
