import Bmv2.Lib.Monitor
import Bmv2.Lib.Transition
import Bmv2.Registers.Sync

/-! Threads that execute actions and parse states, with the register requests of the control
plane (`Context::register_read` and its siblings). The lock objects of an action belong to the
action, and all threads that execute it share them. -/
namespace Bmv2

/-- Where a thread is: it may execute the action or parse state `u`, serve a request for an
array, or reset one. `entry` records what it found when it had all the locks. -/
inductive RegisterThread (π : Type) where
  | idle
  | locking (u : ℕ) (taken : List ℕ) (pkt : π)
  | executing (u : ℕ) (done todo : List (RegisterAccess π)) (pkt : π) (entry : π × Registers)
  | unlocking (u : ℕ) (todo : List ℕ)
  | runtime (array : ℕ)
  | resetting (array idx : ℕ)
  | failed

def RegisterThread.hasFailed {π : Type} : RegisterThread π → Bool
  | failed => true
  | _ => false

/-- The registers, the mutexes of the arrays, and for each lock object of each user whether it
owns its mutex. -/
structure RegisterSwitch (π : Type) where
  registers : Registers
  mutex : ℕ → Bool := fun _ => false
  owns : ℕ × ℕ → Bool := fun _ => false
  threads : List (RegisterThread π)

/-- The steps of thread `t`. -/
inductive RegisterOp (π : Type) where
  | start (t u : ℕ) (pkt : π)
  | lock (t array : ℕ)
  | backOff (t : ℕ)
  | locked (t : ℕ)
  | access (t : ℕ)
  | finish (t : ℕ)
  | unlock (t : ℕ)
  | runtimeLock (t array : ℕ)
  | runtimeAccess (t : ℕ) (effect : List ℤ → List ℤ)
  | runtimeUnlock (t : ℕ)
  | reset (t array : ℕ)
  | resetNext (t : ℕ)

namespace RegisterThread

variable {π : Type} (users : ℕ → RegisterUser π)

/-- What the thread executes. -/
def user : RegisterThread π → Option ℕ
  | .locking u _ _ => some u
  | .executing u _ _ _ _ => some u
  | .unlocking u _ => some u
  | _ => none

/-- The arrays whose mutexes the thread has. -/
def held : RegisterThread π → List ℕ
  | .locking _ taken _ => taken
  | .executing u _ _ _ _ => (users u).registerSync.arrays
  | .unlocking _ todo => todo
  | .runtime array => [array]
  | _ => []

/-- The arrays that the thread reads and writes. -/
def accessed : RegisterThread π → List ℕ
  | .executing u _ _ _ _ => (users u).registerSync.arrays
  | .runtime array => [array]
  | .resetting array _ => [array]
  | _ => []

def resets : RegisterThread π → Option ℕ
  | .resetting array _ => some array
  | _ => none

end RegisterThread

namespace RegisterSwitch

variable {π : Type} (users : ℕ → RegisterUser π) (s : RegisterSwitch π)

def setThread (t : ℕ) (th : RegisterThread π) : RegisterSwitch π :=
  { s with threads := s.threads.set t th }

/-- `lock` and `try_lock` of a `std::unique_lock` that does not own its mutex. -/
def lockMutex (u array : ℕ) : RegisterSwitch π :=
  { s with
    mutex := Function.update s.mutex array true
    owns := Function.update s.owns (u, array) true }

def unlockMutex (u array : ℕ) : RegisterSwitch π :=
  { s with
    mutex := Function.update s.mutex array false
    owns := Function.update s.owns (u, array) false }

/-- What `boost::lock` does with the locks that it has taken when it cannot have all. -/
def unlockAll (u : ℕ) (taken : List ℕ) : RegisterSwitch π :=
  { s with
    mutex := fun a => s.mutex a && decide (a ∉ taken)
    owns := fun p => s.owns p && decide (¬ (p.1 = u ∧ p.2 ∈ taken)) }

/-- `lock_registers` is `boost::lock`, which takes the locks in some order, and gives all that it
has back when a `try_lock` fails. Locking an object that owns its mutex throws, and so does
unlocking one that does not. `RegisterArray::reset_state` makes a lock that locks nothing. -/
def step : RegisterOp π → Option (Unit × RegisterSwitch π)
  | .start t u pkt =>
    match s.threads[t]? with
    | some .idle => some ((), s.setThread t (.locking u [] pkt))
    | _ => none
  | .lock t array =>
    match s.threads[t]? with
    | some (.locking u taken pkt) =>
      if array ∈ (users u).registerSync.arrays ∧ array ∉ taken then
        if s.owns (u, array) then some ((), (s.unlockAll u taken).setThread t .failed)
        else if s.mutex array then none
        else some ((), (s.lockMutex u array).setThread t (.locking u (array :: taken) pkt))
      else none
    | _ => none
  | .backOff t =>
    match s.threads[t]? with
    | some (.locking u taken pkt) =>
      some ((), (s.unlockAll u taken).setThread t (.locking u [] pkt))
    | _ => none
  | .locked t =>
    match s.threads[t]? with
    | some (.locking u taken pkt) =>
      if (users u).registerSync.arrays ⊆ taken then
        some ((), s.setThread t
          (.executing u [] (users u).accesses pkt (pkt, s.registers)))
      else none
    | _ => none
  | .access t =>
    match s.threads[t]? with
    | some (.executing u done (acc :: todo) pkt entry) =>
      let (pkt, registers) := acc.exec (pkt, s.registers)
      some ((), { s with registers }.setThread t
        (.executing u (done ++ [acc]) todo pkt entry))
    | _ => none
  | .finish t =>
    match s.threads[t]? with
    | some (.executing u _ [] _ _) =>
      some ((), s.setThread t (.unlocking u (users u).registerSync.arrays))
    | _ => none
  | .unlock t =>
    match s.threads[t]? with
    | some (.unlocking u (array :: todo)) =>
      if s.owns (u, array) then
        some ((), (s.unlockMutex u array).setThread t (.unlocking u todo))
      else some ((), s.setThread t .failed)
    | some (.unlocking _ []) => some ((), s.setThread t .idle)
    | _ => none
  | .runtimeLock t array =>
    match s.threads[t]? with
    | some .idle =>
      if s.mutex array then none
      else some ((), { s with mutex := Function.update s.mutex array true }.setThread t
        (.runtime array))
    | _ => none
  | .runtimeAccess t effect =>
    match s.threads[t]? with
    | some (.runtime array) => some ((), { s with
        registers := Function.update s.registers array (effect (s.registers array)) })
    | _ => none
  | .runtimeUnlock t =>
    match s.threads[t]? with
    | some (.runtime array) =>
      some ((), { s with mutex := Function.update s.mutex array false }.setThread t .idle)
    | _ => none
  | .reset t array =>
    match s.threads[t]? with
    | some .idle => some ((), s.setThread t (.resetting array 0))
    | _ => none
  | .resetNext t =>
    match s.threads[t]? with
    | some (.resetting array idx) =>
      if idx < (s.registers array).length then
        some ((), { s with
          registers := Function.update s.registers array ((s.registers array).set idx 0) }.setThread
            t (.resetting array (idx + 1)))
      else some ((), s.setThread t .idle)
    | _ => none

/-- No lock error; no two threads at one array; and what an action has done so far to the
registers it names is what it does alone, from the registers that it found. -/
structure Exclusive : Prop where
  noError : .failed ∉ s.threads
  alone : ∀ (i j : ℕ) (th th' : RegisterThread π) (a : ℕ), s.threads[i]? = some th →
    s.threads[j]? = some th' → a ∈ th.accessed users → a ∈ th'.accessed users → i = j
  atomic : ∀ u done todo pkt entry, .executing u done todo pkt entry ∈ s.threads →
    done ++ todo = (users u).accesses ∧ (RegisterAccess.execAll done entry).1 = pkt ∧
      ∀ a ∈ (users u).registerSync.arrays, s.registers a = (RegisterAccess.execAll done entry).2 a

/-- An action or parse state that names registers is started only when no thread executes it; and
nobody is at an array when its reset starts, or gets to it during a reset. -/
def Keeps : RegisterOp π → Prop
  | .start _ u _ => (users u).registerSync.arrays ≠ [] → ∀ th ∈ s.threads, th.user ≠ some u
  | .locked t =>
    match s.threads[t]? with
    | some (.locking u _ _) =>
      ∀ a ∈ (users u).registerSync.arrays, ∀ th ∈ s.threads, th.resets ≠ some a
    | _ => True
  | .runtimeLock _ array => ∀ th ∈ s.threads, th.resets ≠ some array
  | .reset _ array => ∀ th ∈ s.threads, array ∉ th.accessed users
  | _ => True

instance (op : RegisterOp π) : Decidable (s.Keeps users op) := by
  cases op with
  | locked t =>
    unfold Keeps
    dsimp only
    split <;> infer_instance
  | _ => unfold Keeps; infer_instance

end RegisterSwitch

namespace RegisterThread

variable {π : Type} (users : ℕ → RegisterUser π)

def holds (a : ℕ) (th : RegisterThread π) : Bool := decide (a ∈ th.held users)

def executes (u : ℕ) (th : RegisterThread π) : Bool := decide (th.user = some u)

/-- The thread has locked the lock object of `u` for the array. -/
def ownsLock (u a : ℕ) (th : RegisterThread π) : Bool :=
  decide (th.user = some u ∧ a ∈ th.held users)

def accesses (a : ℕ) (th : RegisterThread π) : Bool := decide (a ∈ th.accessed users)

/-- What is known of a thread by itself. -/
def Wf (registers : Registers) : RegisterThread π → Prop
  | .locking u taken _ => taken ⊆ (users u).registerSync.arrays
  | .executing u done todo pkt entry => done ++ todo = (users u).accesses ∧
      (RegisterAccess.execAll done entry).1 = pkt ∧
      ∀ a ∈ (users u).registerSync.arrays, registers a = (RegisterAccess.execAll done entry).2 a
  | .unlocking u todo => todo.Nodup ∧ todo ⊆ (users u).registerSync.arrays
  | .failed => False
  | _ => True

variable {users}

/-- A thread that accesses an array has its mutex, or resets it. -/
theorem holds_or_resets {th : RegisterThread π} {a : ℕ} (h : a ∈ th.accessed users) :
    a ∈ th.held users ∨ th.resets = some a := by
  cases th with
  | executing u done todo pkt entry => exact .inl h
  | runtime array => exact .inl h
  | resetting array idx => exact .inr (by rw [List.mem_singleton.mp h]; rfl)
  | _ => cases h

end RegisterThread

namespace RegisterSwitch

variable {π : Type} {users : ℕ → RegisterUser π}

/-- Mutexes and lock objects know the threads that have them, an action with registers is
executed by one thread, and each array is accessed by one. -/
structure Locked (users : ℕ → RegisterUser π) (s : RegisterSwitch π) : Prop where
  mutex : ∀ a, Monitor.count (RegisterThread.holds users a) s.threads = (s.mutex a).toNat
  owns : ∀ u a, Monitor.count (RegisterThread.ownsLock users u a) s.threads =
    (s.owns (u, a)).toNat
  single : ∀ u, (users u).registerSync.arrays ≠ [] →
    Monitor.count (RegisterThread.executes u) s.threads ≤ 1
  accesses : ∀ a, Monitor.count (RegisterThread.accesses users a) s.threads ≤ 1
  threads : ∀ th ∈ s.threads, th.Wf users s.registers

variable {s s' : RegisterSwitch π}

theorem Locked.exclusive (h : s.Locked users) : s.Exclusive users where
  noError hmem := h.threads _ hmem
  alone _ _ _ _ a hi hj ha ha' := Monitor.eq_of_count_le_one (h.accesses a) hi hj
    (decide_eq_true ha) (decide_eq_true ha')
  atomic _ _ _ _ _ hmem := h.threads _ hmem

/-- What a step of one thread has to keep: the mutexes and lock objects follow what the thread
has, and the registers change only where it is the one that accesses them. -/
theorem Locked.move (h : s.Locked users) {t : ℕ} {th th' : RegisterThread π}
    {registers : Registers} {mutex : ℕ → Bool} {owns : ℕ × ℕ → Bool}
    (hth : s.threads[t]? = some th)
    (hmutex : ∀ a, (mutex a).toNat + (th.holds users a).toNat =
      (s.mutex a).toNat + (th'.holds users a).toNat)
    (howns : ∀ u a, (owns (u, a)).toNat + (th.ownsLock users u a).toNat =
      (s.owns (u, a)).toNat + (th'.ownsLock users u a).toNat)
    (hsingle : ∀ u, th'.user = some u → (users u).registerSync.arrays ≠ [] →
      th.user = some u ∨ ∀ x ∈ s.threads, x.user ≠ some u)
    (haccesses : ∀ a ∈ th'.accessed users, a ∈ th.accessed users ∨
      ∀ x ∈ s.threads, a ∉ x.accessed users)
    (hregisters : ∀ a, registers a = s.registers a ∨ a ∈ th.accessed users)
    (hwf : th'.Wf users registers) :
    Locked users ⟨registers, mutex, owns, s.threads.set t th'⟩ := by
  refine ⟨fun a => ?_, fun u a => ?_, fun u hne => ?_, fun a => ?_, fun x hx => ?_⟩
  · have hcount := Monitor.count_set hth (RegisterThread.holds users a) th'
    have hbefore := h.mutex a
    have hmove := hmutex a
    dsimp only
    omega
  · have hcount := Monitor.count_set hth (RegisterThread.ownsLock users u a) th'
    have hbefore := h.owns u a
    have hmove := howns u a
    dsimp only
    omega
  · apply Monitor.count_set_le_one hth (h.single u hne)
    intro hu
    simpa [RegisterThread.executes] using hsingle u (of_decide_eq_true hu) hne
  · apply Monitor.count_set_le_one hth (h.accesses a)
    intro ha
    simpa [RegisterThread.accesses] using haccesses a (of_decide_eq_true ha)
  · obtain ⟨j, hj⟩ := List.mem_iff_getElem?.mp hx
    by_cases hjt : t = j
    · subst hjt
      rw [List.getElem?_set_self (List.getElem?_eq_some_iff.mp hth).1] at hj
      cases hj
      exact hwf
    · rw [List.getElem?_set_ne hjt] at hj
      have hold := h.threads x (List.mem_of_getElem? hj)
      cases x with
      | executing u done todo pkt entry =>
        refine ⟨hold.1, hold.2.1, fun a ha => ?_⟩
        rw [← hold.2.2 a ha]
        apply (hregisters a).resolve_right
        intro hacc
        exact hjt (Monitor.eq_of_count_le_one (h.accesses a) hth hj (decide_eq_true hacc)
          (decide_eq_true ha))
      | _ => exact hold

/-- A mutex that a thread has is locked. -/
theorem Locked.mutex_of_held (h : s.Locked users) {t a : ℕ} {th : RegisterThread π}
    (hth : s.threads[t]? = some th) (ha : a ∈ th.held users) : s.mutex a = true := by
  have hpos := Monitor.count_pos (P := RegisterThread.holds users a) hth (decide_eq_true ha)
  rw [h.mutex] at hpos
  exact Bool.toNat_eq_one.mp (le_antisymm (Bool.toNat_le _) hpos)

theorem Locked.owns_of_held (h : s.Locked users) {t u a : ℕ} {th : RegisterThread π}
    (hth : s.threads[t]? = some th) (hu : th.user = some u) (ha : a ∈ th.held users) :
    s.owns (u, a) = true := by
  have hpos := Monitor.count_pos (P := RegisterThread.ownsLock users u a) hth
    (decide_eq_true ⟨hu, ha⟩)
  rw [h.owns] at hpos
  exact Bool.toNat_eq_one.mp (le_antisymm (Bool.toNat_le _) hpos)

theorem Locked.not_held (h : s.Locked users) {a : ℕ} (hfree : s.mutex a = false)
    {th : RegisterThread π} (hth : th ∈ s.threads) : a ∉ th.held users := by
  obtain ⟨t, ht⟩ := List.mem_iff_getElem?.mp hth
  intro ha
  have hlocked := h.mutex_of_held ht ha
  rw [hfree] at hlocked
  cases hlocked

/-- The lock objects that the thread has not taken do not own their mutexes: no other thread
executes what it executes. -/
theorem Locked.owns_eq_false (h : s.Locked users) {t u a : ℕ} {taken : List ℕ} {pkt : π}
    (hth : s.threads[t]? = some (.locking u taken pkt))
    (ha : a ∈ (users u).registerSync.arrays) (hnot : a ∉ taken) : s.owns (u, a) = false := by
  apply Bool.eq_false_iff.mpr
  intro howns
  have hpos : 0 < Monitor.count (RegisterThread.ownsLock users u a) s.threads := by
    rw [h.owns, howns]
    exact Nat.one_pos
  obtain ⟨j, x, hj, hx⟩ := Monitor.exists_of_count_pos hpos
  obtain ⟨hxu, hxa⟩ := of_decide_eq_true hx
  have hsame := Monitor.eq_of_count_le_one (h.single u (List.ne_nil_of_mem ha)) hth hj
    (decide_eq_true rfl) (decide_eq_true hxu)
  rw [← hsame, hth] at hj
  cases hj
  exact hnot hxa

/-- A thread with the mutex of an array is alone at it, resets apart. -/
theorem Locked.not_accessed (h : s.Locked users) {t a : ℕ} {th : RegisterThread π}
    (hth : s.threads[t]? = some th) (ha : a ∈ th.held users) (hnot : a ∉ th.accessed users)
    (hreset : ∀ x ∈ s.threads, x.resets ≠ some a) : ∀ x ∈ s.threads, a ∉ x.accessed users := by
  intro x hx hacc
  obtain ⟨j, hj⟩ := List.mem_iff_getElem?.mp hx
  rcases RegisterThread.holds_or_resets hacc with hheld | hresets
  · have hcount : Monitor.count (RegisterThread.holds users a) s.threads ≤ 1 := by
      rw [h.mutex]
      exact Bool.toNat_le _
    have hsame := Monitor.eq_of_count_le_one hcount hth hj (decide_eq_true ha)
      (decide_eq_true hheld)
    rw [← hsame, hth] at hj
    cases hj
    exact hnot hacc
  · exact hreset x hx hresets

/-- A lock object is locked. -/
theorem Locked.lock (h : s.Locked users) {t u a : ℕ} {taken : List ℕ} {pkt : π}
    (hth : s.threads[t]? = some (.locking u taken pkt))
    (ha : a ∈ (users u).registerSync.arrays) (hnot : a ∉ taken) (hfree : s.mutex a = false) :
    ((s.lockMutex u a).setThread t (.locking u (a :: taken) pkt)).Locked users := by
  have howns := h.owns_eq_false hth ha hnot
  apply h.move hth
  · intro b
    dsimp only [lockMutex]
    by_cases hb : b = a
    · subst hb
      simp [RegisterThread.holds, RegisterThread.held, hfree, hnot]
    · have hiff : b ∈ a :: taken ↔ b ∈ taken := by simp [hb]
      rw [Function.update_of_ne hb]
      change _ + (decide (b ∈ taken)).toNat = _ + (decide (b ∈ a :: taken)).toNat
      rw [decide_eq_decide.mpr hiff]
  · intro v b
    dsimp only [lockMutex]
    by_cases hb : (v, b) = (u, a)
    · cases hb
      simp [RegisterThread.ownsLock, RegisterThread.held, RegisterThread.user, howns, hnot]
    · have hne : u = v → b ≠ a := fun huv hba => hb (by rw [huv, hba])
      rw [Function.update_of_ne hb]
      by_cases huv : u = v <;>
        simp [RegisterThread.ownsLock, RegisterThread.held, RegisterThread.user, huv, hne]
  · exact fun v hv _ => .inl hv
  · exact fun b hb => absurd hb List.not_mem_nil
  · exact fun b => .inl rfl
  · exact List.cons_subset.mpr ⟨ha, h.threads _ (List.mem_of_getElem? hth)⟩

/-- `boost::lock` gives back what it has. -/
theorem Locked.backOff (h : s.Locked users) {t u : ℕ} {taken : List ℕ} {pkt : π}
    (hth : s.threads[t]? = some (.locking u taken pkt)) :
    ((s.unlockAll u taken).setThread t (.locking u [] pkt)).Locked users := by
  apply h.move hth
  · intro b
    dsimp only [unlockAll]
    by_cases hb : b ∈ taken
    · have hlocked := h.mutex_of_held hth hb
      simp [RegisterThread.holds, RegisterThread.held, hb, hlocked]
    · simp [RegisterThread.holds, RegisterThread.held, hb]
  · intro v b
    dsimp only [unlockAll]
    by_cases hb : u = v ∧ b ∈ taken
    · obtain ⟨rfl, hb⟩ := hb
      have howns := h.owns_of_held hth rfl hb
      simp [RegisterThread.ownsLock, RegisterThread.held, RegisterThread.user, hb, howns]
    · have hb' : ¬ (v = u ∧ b ∈ taken) := fun hvb => hb ⟨hvb.1.symm, hvb.2⟩
      simp only [RegisterThread.ownsLock, RegisterThread.held, RegisterThread.user,
        Option.some.injEq, hb, hb', not_false_eq_true, decide_true, Bool.and_true]
      simp
  · exact fun v hv _ => .inl hv
  · exact fun b hb => absurd hb List.not_mem_nil
  · exact fun b => .inl rfl
  · exact List.nil_subset _

/-- All locks are taken, and the body starts. -/
theorem Locked.locked (h : s.Locked users) {t u : ℕ} {taken : List ℕ} {pkt : π}
    (hth : s.threads[t]? = some (.locking u taken pkt))
    (hall : (users u).registerSync.arrays ⊆ taken)
    (hreset : ∀ a ∈ (users u).registerSync.arrays, ∀ x ∈ s.threads, x.resets ≠ some a) :
    (s.setThread t
      (.executing u [] (users u).accesses pkt (pkt, s.registers))).Locked users := by
  have hsub := h.threads _ (List.mem_of_getElem? hth)
  have hmem : ∀ a, a ∈ taken ↔ a ∈ (users u).registerSync.arrays := fun a =>
    ⟨fun ha => hsub ha, fun ha => hall ha⟩
  apply h.move hth
  · intro b
    change _ + (decide (b ∈ taken)).toNat = _ + (decide (b ∈ (users u).registerSync.arrays)).toNat
    rw [decide_eq_decide.mpr (hmem b)]
  · intro v b
    simp [RegisterThread.ownsLock, RegisterThread.held, RegisterThread.user, hmem]
  · exact fun v hv _ => .inl hv
  · exact fun b hb => .inr (h.not_accessed hth (hall hb) List.not_mem_nil (hreset b hb))
  · exact fun b => .inl rfl
  · exact ⟨rfl, rfl, fun a ha => rfl⟩

/-- An access of the body. -/
theorem Locked.access (h : s.Locked users) {t u : ℕ} {done todo : List (RegisterAccess π)}
    {acc : RegisterAccess π} {pkt : π} {entry : π × Registers}
    (hth : s.threads[t]? = some (.executing u done (acc :: todo) pkt entry)) :
    Locked users ({ s with registers := (acc.exec (pkt, s.registers)).2 }.setThread t
      (.executing u (done ++ [acc]) todo (acc.exec (pkt, s.registers)).1 entry)) := by
  obtain ⟨hall, hpkt, hregs⟩ := h.threads _ (List.mem_of_getElem? hth)
  have hacc : acc.array ∈ (users u).registerSync.arrays := by
    apply (users u).synced
    rw [← hall]
    exact List.mem_append_right _ List.mem_cons_self
  apply h.move hth
  · exact fun b => rfl
  · exact fun v b => rfl
  · exact fun v hv _ => .inl hv
  · exact fun b hb => .inl hb
  · intro b
    by_cases hb : b = acc.array
    · exact .inr (hb ▸ hacc)
    · exact .inl (Function.update_of_ne hb ..)
  · refine ⟨?_, ?_, fun a ha => ?_⟩
    · rw [List.append_assoc]
      exact hall
    · rw [RegisterAccess.execAll_concat]
      simp only [RegisterAccess.exec, hpkt, hregs _ hacc]
    · rw [RegisterAccess.execAll_concat]
      simp only [RegisterAccess.exec, hpkt, ← hregs _ hacc, Function.update_apply]
      split_ifs
      · rfl
      · exact hregs a ha

/-- The body ends, and the locks are unlocked one after the other. -/
theorem Locked.finish (h : s.Locked users) {t u : ℕ} {done : List (RegisterAccess π)} {pkt : π}
    {entry : π × Registers} (hth : s.threads[t]? = some (.executing u done [] pkt entry)) :
    (s.setThread t (.unlocking u (users u).registerSync.arrays)).Locked users := by
  apply h.move hth
  · exact fun b => rfl
  · exact fun v b => rfl
  · exact fun v hv _ => .inl hv
  · exact fun b hb => absurd hb List.not_mem_nil
  · exact fun b => .inl rfl
  · exact ⟨(users u).registerSync.nodup, List.Subset.refl _⟩

theorem Locked.unlock (h : s.Locked users) {t u a : ℕ} {todo : List ℕ}
    (hth : s.threads[t]? = some (.unlocking u (a :: todo))) :
    ((s.unlockMutex u a).setThread t (.unlocking u todo)).Locked users := by
  obtain ⟨hnodup, hsub⟩ := h.threads _ (List.mem_of_getElem? hth)
  have hnot := (List.nodup_cons.mp hnodup).1
  have hlocked := h.mutex_of_held hth List.mem_cons_self
  have howns := h.owns_of_held hth rfl List.mem_cons_self
  apply h.move hth
  · intro b
    dsimp only [unlockMutex]
    by_cases hb : b = a
    · subst hb
      simp [RegisterThread.holds, RegisterThread.held, hlocked, hnot]
    · have hiff : b ∈ a :: todo ↔ b ∈ todo := by simp [hb]
      rw [Function.update_of_ne hb]
      change _ + (decide (b ∈ a :: todo)).toNat = _ + (decide (b ∈ todo)).toNat
      rw [decide_eq_decide.mpr hiff]
  · intro v b
    dsimp only [unlockMutex]
    by_cases hb : (v, b) = (u, a)
    · cases hb
      simp [RegisterThread.ownsLock, RegisterThread.held, RegisterThread.user, howns, hnot]
    · have hne : u = v → b ≠ a := fun huv hba => hb (by rw [huv, hba])
      rw [Function.update_of_ne hb]
      by_cases huv : u = v <;>
        simp [RegisterThread.ownsLock, RegisterThread.held, RegisterThread.user, huv, hne]
  · exact fun v hv _ => .inl hv
  · exact fun b hb => absurd hb List.not_mem_nil
  · exact fun b => .inl rfl
  · exact ⟨(List.nodup_cons.mp hnodup).2, (List.cons_subset.mp hsub).2⟩

/-- A request takes the mutex of a free array. -/
theorem Locked.runtimeLock (h : s.Locked users) {t a : ℕ} (hth : s.threads[t]? = some .idle)
    (hfree : s.mutex a = false) (hreset : ∀ x ∈ s.threads, x.resets ≠ some a) :
    ({ s with mutex := Function.update s.mutex a true }.setThread t (.runtime a)).Locked users := by
  apply h.move hth
  · intro b
    by_cases hb : b = a
    · subst hb
      simp [RegisterThread.holds, RegisterThread.held, hfree]
    · simp [RegisterThread.holds, RegisterThread.held, hb]
  · intro v b
    simp [RegisterThread.ownsLock, RegisterThread.user]
  · exact fun v hv => nomatch hv
  · intro b hb
    rw [List.mem_singleton.mp hb]
    refine .inr fun x hx hacc => ?_
    exact (RegisterThread.holds_or_resets hacc).elim (h.not_held hfree hx) (hreset x hx)
  · exact fun b => .inl rfl
  · trivial

theorem Locked.runtimeUnlock (h : s.Locked users) {t a : ℕ}
    (hth : s.threads[t]? = some (.runtime a)) :
    ({ s with mutex := Function.update s.mutex a false }.setThread t .idle).Locked users := by
  have hlocked := h.mutex_of_held hth List.mem_cons_self
  apply h.move hth
  · intro b
    by_cases hb : b = a
    · subst hb
      simp [RegisterThread.holds, RegisterThread.held, hlocked]
    · simp [RegisterThread.holds, RegisterThread.held, hb]
  · intro v b
    simp [RegisterThread.ownsLock, RegisterThread.user]
  · exact fun v hv => nomatch hv
  · exact fun b hb => absurd hb List.not_mem_nil
  · exact fun b => .inl rfl
  · trivial

/-- A thread that accesses one array, without other business, changes it. -/
theorem Locked.change (h : s.Locked users) {t a : ℕ} {th th' : RegisterThread π} {values : List ℤ}
    (hth : s.threads[t]? = some th) (hacc : th.accessed users = [a])
    (hheld : th'.held users = th.held users) (huser : th'.user = th.user)
    (hacc' : th'.accessed users = [a])
    (hwf : th'.Wf users (Function.update s.registers a values)) :
    ({ s with registers := Function.update s.registers a values }.setThread t th').Locked
      users := by
  apply h.move hth
  · intro b
    unfold RegisterThread.holds
    rw [hheld]
  · intro v b
    unfold RegisterThread.ownsLock
    rw [hheld, huser]
  · exact fun v hv _ => .inl (huser ▸ hv)
  · exact fun b hb => .inl (by rwa [hacc, ← hacc'])
  · intro b
    by_cases hb : b = a
    · exact .inr (by rw [hacc, hb]; exact List.mem_cons_self)
    · exact .inl (Function.update_of_ne hb ..)
  · exact hwf

/-- A thread goes on with the locks that it has. -/
theorem Locked.goOn (h : s.Locked users) {t : ℕ} {th th' : RegisterThread π}
    (hth : s.threads[t]? = some th) (hholds : ∀ a, th.holds users a = th'.holds users a)
    (howns : ∀ u a, th.ownsLock users u a = th'.ownsLock users u a)
    (hsingle : ∀ u, th'.user = some u → (users u).registerSync.arrays ≠ [] →
      ∀ x ∈ s.threads, x.user ≠ some u)
    (haccesses : ∀ a ∈ th'.accessed users, ∀ x ∈ s.threads, a ∉ x.accessed users)
    (hwf : th'.Wf users s.registers) : (s.setThread t th').Locked users := by
  apply h.move hth
  · exact fun a => by rw [hholds a]
  · exact fun u a => by rw [howns u a]
  · exact fun u hu hne => .inr (hsingle u hu hne)
  · exact fun a ha => .inr (haccesses a ha)
  · exact fun a => .inl rfl
  · exact hwf

theorem Locked.begin (h : s.Locked users) {t u : ℕ} (hth : s.threads[t]? = some .idle) (pkt : π)
    (hfree : (users u).registerSync.arrays ≠ [] → ∀ th ∈ s.threads, th.user ≠ some u) :
    (s.setThread t (.locking u [] pkt)).Locked users := by
  refine h.goOn hth (fun _ => rfl) (fun v b => ?_) (fun v hv hne => ?_)
    (fun _ hb => absurd hb List.not_mem_nil) (List.nil_subset _)
  · simp [RegisterThread.ownsLock, RegisterThread.user, RegisterThread.held]
  · cases hv
    exact hfree hne

theorem Locked.unlocked (h : s.Locked users) {t u : ℕ}
    (hth : s.threads[t]? = some (.unlocking u [])) : (s.setThread t .idle).Locked users := by
  refine h.goOn hth (fun _ => rfl) (fun v b => ?_) (fun _ hv => nomatch hv)
    (fun _ hb => absurd hb List.not_mem_nil) trivial
  simp [RegisterThread.ownsLock, RegisterThread.held]

theorem Locked.reset (h : s.Locked users) {t a : ℕ} (hth : s.threads[t]? = some .idle)
    (hfree : ∀ th ∈ s.threads, a ∉ th.accessed users) :
    (s.setThread t (.resetting a 0)).Locked users := by
  refine h.goOn hth (fun _ => rfl) (fun _ _ => rfl) (fun _ hv => nomatch hv) (fun b hb => ?_)
    trivial
  rw [List.mem_singleton.mp hb]
  exact hfree

theorem Locked.resetDone (h : s.Locked users) {t a idx : ℕ}
    (hth : s.threads[t]? = some (.resetting a idx)) : (s.setThread t .idle).Locked users :=
  h.goOn hth (fun _ => rfl) (fun _ _ => rfl) (fun _ hv => nomatch hv)
    (fun _ hb => absurd hb List.not_mem_nil) trivial

/-- What one step keeps. -/
theorem Locked.step (h : s.Locked users) {op : RegisterOp π} {r : Unit} (hkeep : s.Keeps users op)
    (hs : s.step users op = some (r, s')) : s'.Locked users := by
  cases op with
  | start t u pkt =>
    simp only [RegisterSwitch.step] at hs
    split at hs
    · rename_i hth
      cases hs
      exact h.begin hth pkt hkeep
    · cases hs
  | lock t a =>
    simp only [RegisterSwitch.step] at hs
    split at hs
    · rename_i u taken pkt hth
      split_ifs at hs with hcond howns hfree
      · have hnot := h.owns_eq_false hth hcond.1 hcond.2
        rw [hnot] at howns
        cases howns
      · cases hs
        exact h.lock hth hcond.1 hcond.2 (Bool.eq_false_iff.mpr hfree)
    · cases hs
  | backOff t =>
    simp only [RegisterSwitch.step] at hs
    split at hs
    · rename_i u taken pkt hth
      cases hs
      exact h.backOff hth
    · cases hs
  | locked t =>
    simp only [RegisterSwitch.step] at hs
    split at hs
    · rename_i u taken pkt hth
      split_ifs at hs with hall
      cases hs
      simp only [Keeps, hth] at hkeep
      exact h.locked hth hall hkeep
    · cases hs
  | access t =>
    simp only [RegisterSwitch.step] at hs
    split at hs
    · rename_i u done acc todo pkt entry hth
      cases hs
      exact h.access hth
    · cases hs
  | finish t =>
    simp only [RegisterSwitch.step] at hs
    split at hs
    · rename_i u done pkt entry hth
      cases hs
      exact h.finish hth
    · cases hs
  | unlock t =>
    simp only [RegisterSwitch.step] at hs
    split at hs
    · rename_i u a todo hth
      split_ifs at hs with howns
      · cases hs
        exact h.unlock hth
      · exact absurd (h.owns_of_held hth rfl List.mem_cons_self) howns
    · rename_i u hth
      cases hs
      exact h.unlocked hth
    · cases hs
  | runtimeLock t a =>
    simp only [RegisterSwitch.step] at hs
    split at hs
    · rename_i hth
      split_ifs at hs with hfree
      cases hs
      exact h.runtimeLock hth (Bool.eq_false_iff.mpr hfree) hkeep
    · cases hs
  | runtimeAccess t effect =>
    simp only [RegisterSwitch.step] at hs
    split at hs
    · rename_i a hth
      cases hs
      have hchange : Locked users ({ s with
          registers := Function.update s.registers a (effect (s.registers a)) }.setThread t
            (.runtime a)) := h.change hth rfl rfl rfl rfl trivial
      obtain ⟨hlt, hself⟩ := List.getElem?_eq_some_iff.mp hth
      rwa [setThread, ← hself, List.set_getElem_self] at hchange
    · cases hs
  | runtimeUnlock t =>
    simp only [RegisterSwitch.step] at hs
    split at hs
    · rename_i a hth
      cases hs
      exact h.runtimeUnlock hth
    · cases hs
  | reset t a =>
    simp only [RegisterSwitch.step] at hs
    split at hs
    · rename_i hth
      cases hs
      exact h.reset hth hkeep
    · cases hs
  | resetNext t =>
    simp only [RegisterSwitch.step] at hs
    split at hs
    · rename_i a idx hth
      split_ifs at hs with hlt
      · cases hs
        exact h.change hth rfl rfl rfl rfl trivial
      · cases hs
        exact h.resetDone hth
    · cases hs

/-- Any registers, and threads that have nothing to do. -/
def start (nbThreads : ℕ) (registers : Registers) : RegisterSwitch π where
  registers
  threads := List.replicate nbThreads .idle

theorem Locked.start (nbThreads : ℕ) (registers : Registers) :
    (RegisterSwitch.start nbThreads registers : RegisterSwitch π).Locked users where
  mutex a := Nat.eq_zero_of_not_pos (Monitor.not_count_pos_replicate rfl nbThreads)
  owns u a := Nat.eq_zero_of_not_pos (Monitor.not_count_pos_replicate rfl nbThreads)
  single u _ := Nat.le_of_not_lt fun hlt =>
    Monitor.not_count_pos_replicate rfl nbThreads (Nat.zero_lt_of_lt hlt)
  accesses a := Nat.le_of_not_lt fun hlt =>
    Monitor.not_count_pos_replicate rfl nbThreads (Nat.zero_lt_of_lt hlt)
  threads th hth := by
    obtain rfl := List.eq_of_mem_replicate hth
    trivial

end RegisterSwitch

open RegisterSwitch in
/-- In every run in which no two threads execute the same action or parse state with registers,
and resets are alone at their arrays, locking never fails, each array is accessed by one thread at
a time, and actions are atomic on the registers that they name. -/
theorem registers_exclusive {π : Type} (users : ℕ → RegisterUser π) (nbThreads : ℕ)
    (registers : Registers) (s : RegisterSwitch π)
    (h : Transition.Reach (RegisterSwitch.step users) (RegisterSwitch.Keeps users)
      (RegisterSwitch.start nbThreads registers) s) : s.Exclusive users :=
  (h.invariant (Locked users) (Locked.start nbThreads registers)
    fun _ _ _ _ hlocked hkeep hs => hlocked.step hkeep hs).exclusive

/-- Actions that add one to the first register of an array; the array is their number. -/
def countingAction (array : ℕ) : ActionFn Unit where
  primitives := [{
    params := [.registerRef array 0]
    accesses := [⟨array, fun pkt values => (pkt, values.modify 0 (· + 1))⟩]
    reached := fun acc hacc => ⟨_, List.mem_cons_self, by
      rw [List.mem_singleton.mp hacc]
      exact List.mem_cons_self⟩ }]

/-- Two threads with different actions, and a request for the array of the first. -/
theorem registers_exclusive_two_actions : ∃ s : RegisterSwitch Unit,
    s.Exclusive (fun u => (countingAction u).user) ∧ s.registers 0 = [5] ∧ s.registers 1 = [1] := by
  have heval : (Transition.runAll (RegisterSwitch.step fun u => (countingAction u).user)
      (RegisterSwitch.Keeps fun u => (countingAction u).user) (RegisterSwitch.start 2 fun _ => [0])
      [.start 0 0 (), .start 1 1 (), .lock 0 0, .lock 1 1, .locked 1, .locked 0, .access 0,
        .access 1, .finish 0, .unlock 0, .unlock 0, .runtimeLock 0 0,
        .runtimeAccess 0 fun _ => [5], .runtimeUnlock 0]).map
      (fun s => (s.registers 0, s.registers 1)) = some ([5], [1]) := by
    decide +kernel
  obtain ⟨s, hrun, hs⟩ := Option.map_eq_some_iff.mp heval
  obtain ⟨h0, h1⟩ := Prod.mk.inj hs
  exact ⟨s, registers_exclusive _ 2 _ s (.of_runAll hrun), h0, h1⟩

/-- A second thread executes the action while the first one has its locks: `lock` throws. -/
theorem shared_action_fails_to_lock : ∃ s : RegisterSwitch Unit,
    Transition.Reach (RegisterSwitch.step fun u => (countingAction u).user) (fun _ _ => True)
      (RegisterSwitch.start 2 fun _ => [0]) s ∧ ¬ s.Exclusive fun u => (countingAction u).user := by
  have heval : (Transition.runAll (RegisterSwitch.step fun u => (countingAction u).user)
      (fun _ _ => True) (RegisterSwitch.start 2 fun _ => [0])
      [.start 0 0 (), .start 1 0 (), .lock 0 0, .locked 0, .lock 1 0]).map
      (fun s => s.threads.any RegisterThread.hasFailed) = some true := by
    decide +kernel
  obtain ⟨s, hrun, hs⟩ := Option.map_eq_some_iff.mp heval
  refine ⟨s, .of_runAll hrun, fun hexcl => hexcl.noError ?_⟩
  obtain ⟨thread, hmem, hfailed⟩ := List.any_eq_true.mp hs
  cases thread with
  | failed => exact hmem
  | _ => cases hfailed

end Bmv2
