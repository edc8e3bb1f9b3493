import Bmv2.Lib.Monitor
import Bmv2.Lib.Transition

/-! Swapping configurations under traffic (`SwitchWContexts::do_swap`). Threads create, clone and
destroy packets, and change their context, while one thread drains the contexts that have a new
configuration and then gives their pools the new PHV factory. -/
namespace Bmv2

/-- What a packet is here: its context, and the factory that its PHV was created by. -/
structure SwapPacket where
  cxtId : ℕ
  factory : ℕ
  deriving DecidableEq

/-- A context: the factories of `p4objects` and `p4objects_rt`, and the PHV pool with its own
pointer to a factory. -/
structure SwapContext where
  factory : ℕ
  factoryRt : ℕ
  swapOrdered : Bool := false
  phvFactory : ℕ
  count : ℕ := 0
  phvs : List ℕ := []

/-- Where a thread is in the construction of a packet for context `cxt`. It may hold the shared
lock, and it has the packet that it clones in its hands. When the pool had no free PHV, the
factory is called after the mutex of the pool is released. -/
inductive PacketThread where
  | idle
  | constructing (cxt : ℕ) (src : Option SwapPacket) (shared : Bool)
  | creating (cxt : ℕ) (src : Option SwapPacket) (shared : Bool)
  deriving DecidableEq

/-- Where `do_swap` is: before it has the lock, at a context, between the test that the context
has no packets and `Context::do_swap`, or before `set_phv_factory`. -/
inductive Swapper where
  | idle
  | atContext (cxt : ℕ)
  | drained (cxt : ℕ)
  | swapped (cxt : ℕ)
  deriving DecidableEq

structure SwapSwitch where
  nbCxts : ℕ
  contexts : ℕ → SwapContext
  threads : List PacketThread
  packets : List SwapPacket := []
  swapper : Swapper := .idle

inductive SwapOp where
  | newPacket (t cxt : ℕ)
  | clone (t i newCxt : ℕ)
  | changeContext (t i newCxt : ℕ)
  | get (t : ℕ)
  | create (t : ℕ)
  | destroy (i : ℕ)
  | loadNewConfig (cxt factory : ℕ)
  | swapConfigs (cxt : ℕ)
  | doSwap

namespace PacketThread

def holdsShared : PacketThread → Bool
  | .idle => false
  | .constructing _ _ shared => shared
  | .creating _ _ shared => shared

/-- The packet that is being cloned. -/
def source : PacketThread → Option SwapPacket
  | .idle => none
  | .constructing _ src _ => src
  | .creating _ src _ => src

end PacketThread

namespace SwapSwitch

variable (s : SwapSwitch)

def modifyContext (cxt : ℕ) (f : SwapContext → SwapContext) : SwapSwitch :=
  { s with contexts := Function.update s.contexts cxt (f (s.contexts cxt)) }

def setThread (t : ℕ) (th : PacketThread) : SwapSwitch :=
  { s with threads := s.threads.set t th }

/-- `PHVPool::release`. -/
def release (p : SwapPacket) : SwapSwitch :=
  s.modifyContext p.cxtId fun c => { c with count := c.count - 1, phvs := p.factory :: c.phvs }

/-- The construction ends: there is a new packet, and the cloned one is put back. -/
def finish (t : ℕ) (p : SwapPacket) (src : Option SwapPacket) : SwapSwitch :=
  { s.setThread t .idle with packets := p :: (src.toList ++ s.packets) }

/-- `do_swap` from one statement to the next. The wait for the packets of the context is a guard,
and so is the assertion of `set_phv_factory`. -/
def swapStep : Option SwapSwitch :=
  match s.swapper with
  | .idle =>
    if (∃ cxt < s.nbCxts, (s.contexts cxt).swapOrdered) ∧
        ∀ th ∈ s.threads, th.holdsShared = false then
      some { s with swapper := .atContext 0 }
    else none
  | .atContext cxt =>
    if cxt < s.nbCxts then
      if (s.contexts cxt).swapOrdered = false then
        some { s with swapper := .atContext (cxt + 1) }
      else if (s.contexts cxt).count = 0 then some { s with swapper := .drained cxt }
      else none
    else some { s with swapper := .idle }
  | .drained cxt =>
    some { s.modifyContext cxt fun c => { c with factory := c.factoryRt, swapOrdered := false }
      with swapper := .swapped cxt }
  | .swapped cxt =>
    if (s.contexts cxt).count = 0 then
      some { s.modifyContext cxt fun c => { c with phvFactory := c.factory, phvs := [] }
        with swapper := .atContext (cxt + 1) }
    else none

def step : SwapOp → Option (Unit × SwapSwitch)
  | .newPacket t cxt =>
    if s.threads[t]? = some .idle ∧ s.swapper = .idle ∧ cxt < s.nbCxts then
      some ((), s.setThread t (.constructing cxt none true))
    else none
  | .clone t i newCxt => do
    let p ← s.packets[i]?
    if s.threads[t]? = some .idle ∧ newCxt < s.nbCxts then
      some ((), { s.setThread t (.constructing newCxt (some p) false) with
        packets := s.packets.eraseIdx i })
    else none
  | .changeContext t i newCxt => do
    let p ← s.packets[i]?
    if s.threads[t]? = some .idle ∧ newCxt < s.nbCxts then
      if p.cxtId = newCxt then some ((), s)
      else some ((), { (s.release p).setThread t (.constructing newCxt none false) with
        packets := s.packets.eraseIdx i })
    else none
  | .get t =>
    match s.threads[t]? with
    | some (.constructing cxt src shared) =>
      match (s.contexts cxt).phvs with
      | [] => some ((), (s.modifyContext cxt fun c => { c with count := c.count + 1 }).setThread t
          (.creating cxt src shared))
      | factory :: phvs => some ((), (s.modifyContext cxt fun c =>
          { c with count := c.count + 1, phvs }).finish t ⟨cxt, factory⟩ src)
    | _ => none
  | .create t =>
    match s.threads[t]? with
    | some (.creating cxt src _) => some ((), s.finish t ⟨cxt, (s.contexts cxt).phvFactory⟩ src)
    | _ => none
  | .destroy i => do
    let p ← s.packets[i]?
    some ((), { s.release p with packets := s.packets.eraseIdx i })
  | .loadNewConfig cxt factory =>
    if (s.contexts cxt).factory = (s.contexts cxt).factoryRt then
      some ((), s.modifyContext cxt fun c => { c with factoryRt := factory })
    else none
  | .swapConfigs cxt =>
    if (s.contexts cxt).factory = (s.contexts cxt).factoryRt then none
    else some ((), s.modifyContext cxt fun c => { c with swapOrdered := true })
  | .doSwap => s.swapStep.map ((), ·)

/-- The live packets, those that are being cloned included. -/
def live : List SwapPacket := s.packets ++ s.threads.filterMap PacketThread.source

/-- `do_swap` has found the context without packets and not yet set its factory. -/
def InWindow (cxt : ℕ) : Prop := s.swapper = .drained cxt ∨ s.swapper = .swapped cxt

instance (cxt : ℕ) : Decidable (s.InWindow cxt) := inferInstanceAs (Decidable (_ ∨ _))

/-- `set_phv_factory` finds no PHV in use, and live packets have PHVs that were created by the
factory of their context. -/
def SwapSafe : Prop :=
  (∀ cxt, s.swapper = .swapped cxt → (s.contexts cxt).count = 0) ∧
    ∀ p ∈ s.live, p.factory = (s.contexts p.cxtId).factory

/-- No packet enters a context from another one in the window of `do_swap`. -/
def Keeps : SwapOp → Prop
  | .get t =>
    match s.threads[t]? with
    | some (.constructing cxt src false) =>
      src.map SwapPacket.cxtId = some cxt ∨ ¬ s.InWindow cxt
    | _ => True
  | _ => True

instance (op : SwapOp) : Decidable (s.Keeps op) := by
  unfold Keeps
  split
  · split <;> infer_instance
  · infer_instance

end SwapSwitch

/-- The thread clones a packet of the context. -/
def PacketThread.clonesFrom (cxt : ℕ) (th : PacketThread) : Bool :=
  th.source.any fun p => decide (p.cxtId = cxt)

/-- The thread has taken a PHV that is yet to be created. -/
def PacketThread.createsIn (cxt : ℕ) : PacketThread → Bool
  | .creating c _ _ => decide (c = cxt)
  | _ => false

namespace PacketThread

variable (c cxt : ℕ) (src : Option SwapPacket) (shared : Bool)

@[simp] theorem clonesFrom_idle : clonesFrom c idle = false := rfl
@[simp] theorem clonesFrom_constructing : clonesFrom c (.constructing cxt src shared) =
    src.any fun p => decide (p.cxtId = c) := rfl
@[simp] theorem clonesFrom_creating : clonesFrom c (.creating cxt src shared) =
    src.any fun p => decide (p.cxtId = c) := rfl
@[simp] theorem createsIn_idle : createsIn c idle = false := rfl
@[simp] theorem createsIn_constructing : createsIn c (.constructing cxt src shared) = false := rfl
@[simp] theorem createsIn_creating : createsIn c (.creating cxt src shared) =
    decide (cxt = c) := rfl

end PacketThread

namespace SwapSwitch

/-- The pools count the live packets and the PHVs that are being created; nothing is counted in
the window of `do_swap`; and the factories agree but for a context whose configuration is being
swapped. -/
structure Drained (s : SwapSwitch) : Prop where
  count : ∀ cxt, (s.contexts cxt).count =
    Monitor.count (fun p => decide (p.cxtId = cxt)) s.packets +
    Monitor.count (PacketThread.clonesFrom cxt) s.threads +
    Monitor.count (PacketThread.createsIn cxt) s.threads
  shared : s.swapper ≠ .idle → ∀ th ∈ s.threads, th.holdsShared = false
  window : ∀ cxt, s.InWindow cxt → (s.contexts cxt).count = 0
  factory : ∀ cxt, s.swapper ≠ .swapped cxt →
    (s.contexts cxt).phvFactory = (s.contexts cxt).factory
  phvs : ∀ cxt, ∀ f ∈ (s.contexts cxt).phvs, f = (s.contexts cxt).phvFactory
  packets : ∀ p ∈ s.packets, p.factory = (s.contexts p.cxtId).phvFactory
  sources : ∀ th ∈ s.threads, ∀ p ∈ th.source, p.factory = (s.contexts p.cxtId).phvFactory

variable {s s' : SwapSwitch}

/-- A live packet is counted by the pool of its context. -/
theorem Drained.count_pos (h : s.Drained) {p : SwapPacket} (hp : p ∈ s.live) :
    0 < (s.contexts p.cxtId).count := by
  rw [h.count]
  rcases List.mem_append.mp hp with hp | hp
  · obtain ⟨i, hi⟩ := List.mem_iff_getElem?.mp hp
    have hpos := Monitor.count_pos (P := fun q => decide (q.cxtId = p.cxtId)) hi
      (decide_eq_true rfl)
    omega
  · obtain ⟨th, hth, hsrc⟩ := List.mem_filterMap.mp hp
    obtain ⟨i, hi⟩ := List.mem_iff_getElem?.mp hth
    have hpos := Monitor.count_pos (P := PacketThread.clonesFrom p.cxtId) hi
      (by simp [PacketThread.clonesFrom, hsrc])
    omega

theorem Drained.safe (h : s.Drained) : s.SwapSafe := by
  refine ⟨fun cxt hswap => h.window cxt (.inr hswap), fun p hp => ?_⟩
  have hpos := h.count_pos hp
  have hnot : s.swapper ≠ .swapped p.cxtId := fun hswap => by
    have := h.window _ (.inr hswap)
    omega
  rw [← h.factory _ hnot]
  rcases List.mem_append.mp hp with hp | hp
  · exact h.packets p hp
  · obtain ⟨th, hth, hsrc⟩ := List.mem_filterMap.mp hp
    exact h.sources th hth p hsrc

/-- The context that a thread is about to enter is not in the window of `do_swap`: with the
shared lock there is no swap, and the packet that is cloned in its own context is counted. -/
theorem Drained.not_inWindow (h : s.Drained) {t cxt : ℕ} {src : Option SwapPacket} {shared : Bool}
    (hth : s.threads[t]? = some (.constructing cxt src shared)) (hkeep : s.Keeps (.get t)) :
    ¬ s.InWindow cxt := by
  have hmem := List.mem_of_getElem? hth
  intro hwindow
  cases shared with
  | true =>
    have hidle : s.swapper ≠ .idle := by
      rcases hwindow with hw | hw <;> simp [hw]
    have := h.shared hidle _ hmem
    cases this
  | false =>
    simp only [Keeps, hth] at hkeep
    rcases hkeep with hsame | hnot
    · obtain ⟨p, rfl, rfl⟩ := Option.map_eq_some_iff.mp hsame
      have hpos := h.count_pos (p := p) (List.mem_append_right _
        (List.mem_filterMap.mpr ⟨_, hmem, rfl⟩))
      have := h.window _ hwindow
      omega
    · exact hnot hwindow

/-- A thread that clones nothing starts to construct a packet, and may hold the shared lock for it
as long as nobody swaps. -/
theorem Drained.construct (h : s.Drained) {t cxt : ℕ} {holdsShared : Bool}
    (hth : s.threads[t]? = some .idle) (hidle : holdsShared = true → s.swapper = .idle) :
    (s.setThread t (.constructing cxt none holdsShared)).Drained := by
  refine { h with
    count := fun c => ?_
    shared := fun hne th hmem => ?_
    sources := fun th hmem => ?_ }
  · have hclones := Monitor.count_set hth (PacketThread.clonesFrom c)
      (.constructing cxt none holdsShared)
    have hcreates := Monitor.count_set hth (PacketThread.createsIn c)
      (.constructing cxt none holdsShared)
    have hcount := h.count c
    simp only [PacketThread.clonesFrom_idle, PacketThread.clonesFrom_constructing,
      PacketThread.createsIn_idle, PacketThread.createsIn_constructing, Option.any_none]
        at hclones hcreates
    dsimp only [setThread]
    omega
  · rcases List.mem_or_eq_of_mem_set hmem with hmem | rfl
    · exact h.shared hne th hmem
    · exact Bool.eq_false_iff.mpr fun hshared => hne (hidle hshared)
  · rcases List.mem_or_eq_of_mem_set hmem with hmem | rfl
    · exact h.sources th hmem
    · intro p hp
      cases hp

/-- A packet is taken from the others and cloned. -/
theorem Drained.clone (h : s.Drained) {t i newCxt : ℕ} {p : SwapPacket}
    (hp : s.packets[i]? = some p) (hth : s.threads[t]? = some .idle) :
    Drained { s.setThread t (.constructing newCxt (some p) false) with
      packets := s.packets.eraseIdx i } := by
  refine { h with
    count := fun c => ?_
    shared := fun hne th hmem => ?_
    packets := fun q hq => h.packets q (List.eraseIdx_sublist .. |>.subset hq)
    sources := fun th hmem => ?_ }
  · have hclones := Monitor.count_set hth (PacketThread.clonesFrom c)
      (.constructing newCxt (some p) false)
    have hcreates := Monitor.count_set hth (PacketThread.createsIn c)
      (.constructing newCxt (some p) false)
    have herase := Monitor.count_eraseIdx hp fun p => decide (p.cxtId = c)
    have hcount := h.count c
    simp only [PacketThread.clonesFrom_idle, PacketThread.clonesFrom_constructing,
      PacketThread.createsIn_idle, PacketThread.createsIn_constructing, Option.any_some,
      Bool.toNat_false] at hclones hcreates
    dsimp only [setThread]
    omega
  · rcases List.mem_or_eq_of_mem_set hmem with hmem | rfl
    · exact h.shared hne th hmem
    · rfl
  · rcases List.mem_or_eq_of_mem_set hmem with hmem | rfl
    · exact h.sources th hmem
    · intro q hq
      obtain rfl := Option.some.inj hq
      exact h.packets p (List.mem_of_getElem? hp)

/-- A packet gives its PHV back and is gone. -/
theorem Drained.release (h : s.Drained) {i : ℕ} {p : SwapPacket} (hp : s.packets[i]? = some p) :
    Drained { s.release p with packets := s.packets.eraseIdx i } := by
  have hmem := List.mem_of_getElem? hp
  have hctx : ∀ c, (s.release p).contexts c = if c = p.cxtId then
      { s.contexts c with
        count := (s.contexts c).count - 1
        phvs := p.factory :: (s.contexts c).phvs }
      else s.contexts c := by
    intro c
    simp only [SwapSwitch.release, modifyContext, Function.update_apply]
    split_ifs with hc
    · rw [hc]
    · rfl
  have hfactory : ∀ c, ((s.release p).contexts c).phvFactory = (s.contexts c).phvFactory ∧
      ((s.release p).contexts c).factory = (s.contexts c).factory := by
    intro c
    rw [hctx]
    split_ifs <;> exact ⟨rfl, rfl⟩
  refine ⟨fun c => ?_, h.shared, fun c hwindow => ?_, fun c hne => ?_, fun c f hf => ?_,
    fun q hq => ?_, fun th hth q hq => ?_⟩
  · have herase := Monitor.count_eraseIdx hp fun p => decide (p.cxtId = c)
    have hcount := h.count c
    have hpos := h.count_pos (List.mem_append_left _ hmem)
    dsimp only
    rw [hctx]
    split_ifs with hc
    · subst hc
      simp only [decide_true, Bool.toNat_true] at herase
      change _ - 1 = _ + Monitor.count _ s.threads + Monitor.count _ s.threads
      omega
    · simp only [Ne.symm hc, decide_false, Bool.toNat_false] at herase
      rw [hcount, ← herase]
      rfl
  · have hzero := h.window c hwindow
    dsimp only
    rw [hctx]
    split_ifs
    · exact Nat.sub_eq_zero_of_le (by omega)
    · exact hzero
  · dsimp only
    rw [(hfactory c).1, (hfactory c).2]
    exact h.factory c hne
  · dsimp only at hf ⊢
    rw [(hfactory c).1]
    rw [hctx] at hf
    split_ifs at hf with hc
    · rcases List.mem_cons.mp hf with rfl | hf
      · rw [hc]
        exact h.packets p hmem
      · exact h.phvs c f hf
    · exact h.phvs c f hf
  · dsimp only
    rw [(hfactory _).1]
    exact h.packets q (List.eraseIdx_sublist .. |>.subset hq)
  · dsimp only
    rw [(hfactory _).1]
    exact h.sources th hth q hq

/-- The packets of a context after a construction: the new one, the others, and the cloned one. -/
theorem count_finish (p : SwapPacket) (src : Option SwapPacket) (packets : List SwapPacket)
    (c : ℕ) : Monitor.count (fun q => decide (q.cxtId = c)) (p :: (src.toList ++ packets)) =
      Monitor.count (fun q => decide (q.cxtId = c)) packets +
        (src.any fun q => decide (q.cxtId = c)).toNat + (decide (p.cxtId = c)).toNat := by
  unfold Monitor.count
  rw [List.countP_cons, List.countP_append]
  cases src with
  | none => by_cases hp : p.cxtId = c <;> simp [hp]
  | some q =>
    by_cases hp : p.cxtId = c <;> by_cases hq : q.cxtId = c <;> simp [hp, hq] <;> omega

/-- The construction ends with a PHV from the factory of the pool. -/
theorem Drained.create (h : s.Drained) {t cxt : ℕ} {src : Option SwapPacket} {shared : Bool}
    (hth : s.threads[t]? = some (.creating cxt src shared)) :
    (s.finish t ⟨cxt, (s.contexts cxt).phvFactory⟩ src).Drained := by
  have hmem := List.mem_of_getElem? hth
  refine { h with
    count := fun c => ?_
    shared := fun hne th hth' => ?_
    packets := fun q hq => ?_
    sources := fun th hth' => ?_ }
  · have hclones := Monitor.count_set hth (PacketThread.clonesFrom c) .idle
    have hcreates := Monitor.count_set hth (PacketThread.createsIn c) .idle
    have hcount := h.count c
    simp only [PacketThread.clonesFrom_idle, PacketThread.clonesFrom_creating,
      PacketThread.createsIn_idle, PacketThread.createsIn_creating, Bool.toNat_false]
      at hclones hcreates
    dsimp only [finish, setThread]
    rw [count_finish]
    dsimp only
    omega
  · rcases List.mem_or_eq_of_mem_set hth' with hth' | rfl
    · exact h.shared hne th hth'
    · rfl
  · rcases List.mem_cons.mp hq with rfl | hq
    · rfl
    · rcases List.mem_append.mp hq with hq | hq
      · exact h.sources _ hmem q (Option.mem_toList.mp hq)
      · exact h.packets q hq
  · rcases List.mem_or_eq_of_mem_set hth' with hth' | rfl
    · exact h.sources th hth'
    · intro q hq
      cases hq

/-- A PHV is taken, and `set_phv_factory` is not about to be called for the context. -/
theorem Drained.take (h : s.Drained) {t cxt : ℕ} {src : Option SwapPacket} {shared : Bool}
    (hth : s.threads[t]? = some (.constructing cxt src shared)) (hnot : ¬ s.InWindow cxt) :
    ((s.modifyContext cxt fun c => { c with count := c.count + 1 }).setThread t
      (.creating cxt src shared)).Drained := by
  have hmem := List.mem_of_getElem? hth
  have hctx : ∀ c, (s.modifyContext cxt fun c => { c with count := c.count + 1 }).contexts c =
      { s.contexts c with count := (s.contexts c).count + (decide (cxt = c)).toNat } := by
    intro c
    simp only [modifyContext, Function.update_apply]
    split_ifs with hc
    · simp [hc]
    · simp [Ne.symm hc]
  refine ⟨fun c => ?_, fun hne th hth' => ?_, fun c hwindow => ?_, fun c hne => ?_, fun c => ?_,
    fun q hq => ?_, fun th hth' => ?_⟩
  · have hclones := Monitor.count_set hth (PacketThread.clonesFrom c) (.creating cxt src shared)
    have hcreates := Monitor.count_set hth (PacketThread.createsIn c) (.creating cxt src shared)
    have hcount := h.count c
    simp only [PacketThread.clonesFrom_constructing, PacketThread.clonesFrom_creating,
      PacketThread.createsIn_constructing, PacketThread.createsIn_creating, Bool.toNat_false]
      at hclones hcreates
    dsimp only [setThread]
    rw [hctx]
    dsimp only [modifyContext]
    omega
  · rcases List.mem_or_eq_of_mem_set hth' with hth' | rfl
    · exact h.shared hne th hth'
    · have hshared := h.shared hne _ hmem
      exact hshared
  · have hzero := h.window c hwindow
    have hc : cxt ≠ c := fun hc => hnot (hc ▸ hwindow)
    dsimp only [setThread]
    rw [hctx, decide_eq_false hc]
    exact hzero
  · dsimp only [setThread]
    rw [hctx]
    exact h.factory c hne
  · dsimp only [setThread]
    rw [hctx]
    exact h.phvs c
  · dsimp only [setThread]
    rw [hctx]
    exact h.packets q hq
  · dsimp only [setThread]
    simp only [hctx]
    rcases List.mem_or_eq_of_mem_set hth' with hth' | rfl
    · exact h.sources th hth'
    · have hsrc := h.sources _ hmem
      exact hsrc

/-- A pool may lose free PHVs. -/
theorem Drained.pop (h : s.Drained) (cxt f : ℕ) (phvs : List ℕ)
    (hphvs : (s.contexts cxt).phvs = f :: phvs) :
    (s.modifyContext cxt fun c => { c with phvs }).Drained := by
  have hctx : ∀ c, ∃ phvs' ⊆ (s.contexts c).phvs,
      (s.modifyContext cxt fun c => { c with phvs }).contexts c =
        { s.contexts c with phvs := phvs' } := by
    intro c
    simp only [modifyContext, Function.update_apply]
    split_ifs with hc
    · subst hc
      exact ⟨phvs, hphvs ▸ List.subset_cons_self f phvs, rfl⟩
    · exact ⟨_, List.Subset.refl _, rfl⟩
  refine ⟨fun c => ?_, h.shared, fun c hwindow => ?_, fun c hne => ?_, fun c => ?_,
    fun q hq => ?_, fun th hth q hq => ?_⟩
  · obtain ⟨phvs', -, heq⟩ := hctx c
    rw [heq]
    exact h.count c
  · obtain ⟨phvs', -, heq⟩ := hctx c
    rw [heq]
    exact h.window c hwindow
  · obtain ⟨phvs', -, heq⟩ := hctx c
    rw [heq]
    exact h.factory c hne
  · obtain ⟨phvs', hsub, heq⟩ := hctx c
    rw [heq]
    exact fun f' hf' => h.phvs c f' (hsub hf')
  · obtain ⟨phvs', -, heq⟩ := hctx q.cxtId
    rw [heq]
    exact h.packets q hq
  · obtain ⟨phvs', -, heq⟩ := hctx q.cxtId
    rw [heq]
    exact h.sources th hth q hq

/-- A free PHV of the pool is used for the packet. -/
theorem Drained.reuse (h : s.Drained) {t cxt f : ℕ} {src : Option SwapPacket} {shared : Bool}
    {phvs : List ℕ} (hth : s.threads[t]? = some (.constructing cxt src shared))
    (hphvs : (s.contexts cxt).phvs = f :: phvs) (hnot : ¬ s.InWindow cxt) :
    ((s.modifyContext cxt fun c => { c with count := c.count + 1, phvs }).finish t ⟨cxt, f⟩
      src).Drained := by
  have hlt := (List.getElem?_eq_some_iff.mp hth).1
  have hcreating : ((s.modifyContext cxt fun c => { c with count := c.count + 1 }).setThread t
      (.creating cxt src shared)).threads[t]? = some (.creating cxt src shared) := by
    simp [setThread, modifyContext, hlt]
  have hdone := ((h.take hth hnot).create hcreating).pop cxt f phvs
    (by simp [finish, setThread, modifyContext, hphvs])
  have hf : f = (s.contexts cxt).phvFactory :=
    h.phvs cxt f (hphvs ▸ List.mem_cons_self)
  rw [hf]
  simpa [finish, setThread, modifyContext, Function.update_idem, List.set_set] using hdone

/-- Loading and ordering a swap change only what `do_swap` reads later. -/
theorem Drained.modify (h : s.Drained) {cxt : ℕ} {f : SwapContext → SwapContext}
    (hf : ∀ c, (f c).count = c.count ∧ (f c).factory = c.factory ∧
      (f c).phvFactory = c.phvFactory ∧ (f c).phvs = c.phvs) : (s.modifyContext cxt f).Drained := by
  have hctx : ∀ c, ((s.modifyContext cxt f).contexts c).count = (s.contexts c).count ∧
      ((s.modifyContext cxt f).contexts c).factory = (s.contexts c).factory ∧
      ((s.modifyContext cxt f).contexts c).phvFactory = (s.contexts c).phvFactory ∧
      ((s.modifyContext cxt f).contexts c).phvs = (s.contexts c).phvs := by
    intro c
    simp only [modifyContext, Function.update_apply]
    split_ifs with hc
    · rw [hc]
      exact hf _
    · exact ⟨rfl, rfl, rfl, rfl⟩
  refine ⟨fun c => ?_, h.shared, fun c hwindow => ?_, fun c hne => ?_, fun c => ?_,
    fun q hq => ?_, fun th hth q hq => ?_⟩
  · rw [(hctx c).1]
    exact h.count c
  · rw [(hctx c).1]
    exact h.window c hwindow
  · rw [(hctx c).2.2.1, (hctx c).2.1]
    exact h.factory c hne
  · rw [(hctx c).2.2.1, (hctx c).2.2.2]
    exact h.phvs c
  · rw [(hctx _).2.2.1]
    exact h.packets q hq
  · rw [(hctx _).2.2.1]
    exact h.sources th hth q hq

/-- The swapping thread goes on to a place where it is in no window. -/
theorem Drained.atContext (h : s.Drained) {swapper : Swapper}
    (hshared : swapper ≠ .idle → ∀ th ∈ s.threads, th.holdsShared = false)
    (hnot : ∀ c, ¬ InWindow { s with swapper } c) (hat : ∀ c, s.swapper ≠ .swapped c) :
    Drained { s with swapper } :=
  { h with
    shared := hshared
    window := fun c hwindow => absurd hwindow (hnot c)
    factory := fun c _ => h.factory c (hat c) }

/-- A context that is to be swapped has no packets left. -/
theorem Drained.drained (h : s.Drained) {cxt : ℕ} (hat : s.swapper = .atContext cxt)
    (hzero : (s.contexts cxt).count = 0) : Drained { s with swapper := .drained cxt } :=
  { h with
    shared := fun _ => h.shared (by simp [hat])
    window := fun c hwindow => by
      rcases hwindow with hw | hw <;> cases hw
      exact hzero
    factory := fun c _ => h.factory c (by simp [hat]) }

/-- The context gets its new configuration; its PHVs are still made by the old factory. -/
theorem Drained.swapped (h : s.Drained) {cxt : ℕ} (hat : s.swapper = .drained cxt) :
    Drained { s.modifyContext cxt fun c => { c with factory := c.factoryRt, swapOrdered := false }
      with swapper := .swapped cxt } := by
  have hshared := h.shared (by simp [hat])
  have hfactory := fun c => h.factory c (by simp [hat])
  have hzero := h.window cxt (.inl hat)
  have hctx : ∀ c, ∃ factory swapOrdered, (c ≠ cxt → factory = (s.contexts c).factory) ∧
      (s.modifyContext cxt fun c => { c with factory := c.factoryRt, swapOrdered := false }
        ).contexts c = { s.contexts c with factory, swapOrdered } := by
    intro c
    simp only [modifyContext, Function.update_apply]
    split_ifs with hc
    · subst hc
      exact ⟨_, _, fun hne => absurd rfl hne, rfl⟩
    · exact ⟨_, _, fun _ => rfl, rfl⟩
  refine ⟨fun c => ?_, fun _ => hshared, fun c hwindow => ?_, fun c hne => ?_, fun c => ?_,
    fun q hq => ?_, fun th hth q hq => ?_⟩
  · obtain ⟨_, _, -, heq⟩ := hctx c
    dsimp only
    rw [heq]
    exact h.count c
  · obtain ⟨_, _, -, heq⟩ := hctx c
    dsimp only
    rw [heq]
    rcases hwindow with hw | hw <;> cases hw
    exact hzero
  · obtain ⟨_, _, hold, heq⟩ := hctx c
    dsimp only
    rw [heq]
    dsimp only at hne ⊢
    rw [hold fun hc => hne (hc ▸ rfl)]
    exact hfactory c
  · obtain ⟨_, _, -, heq⟩ := hctx c
    dsimp only
    rw [heq]
    exact h.phvs c
  · obtain ⟨_, _, -, heq⟩ := hctx q.cxtId
    dsimp only
    rw [heq]
    exact h.packets q hq
  · obtain ⟨_, _, -, heq⟩ := hctx q.cxtId
    dsimp only
    rw [heq]
    exact h.sources th hth q hq

/-- The pool of the context takes the factory of the new configuration. -/
theorem Drained.setPhvFactory (h : s.Drained) {cxt : ℕ} (hat : s.swapper = .swapped cxt)
    (hzero : (s.contexts cxt).count = 0) :
    Drained { s.modifyContext cxt fun c => { c with phvFactory := c.factory, phvs := [] }
      with swapper := .atContext (cxt + 1) } := by
  have hshared := h.shared (by simp [hat])
  have hother : ∀ p ∈ s.live, p.cxtId ≠ cxt := fun p hp hc => by
    have hpos := h.count_pos hp
    rw [hc] at hpos
    omega
  have hctx : ∀ c, (s.modifyContext cxt fun c => { c with phvFactory := c.factory, phvs := [] }
      ).contexts c = if c = cxt then
        { s.contexts c with phvFactory := (s.contexts c).factory, phvs := [] }
      else s.contexts c := by
    intro c
    simp only [modifyContext, Function.update_apply]
    split_ifs with hc
    · rw [hc]
    · rfl
  refine ⟨fun c => ?_, fun _ => hshared, fun c hwindow => ?_, fun c _ => ?_, fun c => ?_,
    fun q hq => ?_, fun th hth q hq => ?_⟩
  · dsimp only
    rw [hctx]
    split_ifs <;> exact h.count c
  · rcases hwindow with hw | hw <;> cases hw
  · dsimp only
    rw [hctx]
    split_ifs with hc
    · rfl
    · exact h.factory c fun hw => hc (Swapper.swapped.inj (hat.symm.trans hw)).symm
  · dsimp only
    rw [hctx]
    split_ifs with hc
    · intro f hf
      cases hf
    · exact h.phvs c
  · dsimp only
    rw [hctx, if_neg (hother q (List.mem_append_left _ hq))]
    exact h.packets q hq
  · dsimp only
    rw [hctx, if_neg (hother q (List.mem_append_right _ (List.mem_filterMap.mpr ⟨th, hth, hq⟩)))]
    exact h.sources th hth q hq

/-- A step of `do_swap`. -/
theorem Drained.swapStep (h : s.Drained) (hs : s.swapStep = some s') : s'.Drained := by
  unfold SwapSwitch.swapStep at hs
  cases hat : s.swapper with
  | idle =>
    rw [hat] at hs
    dsimp only at hs
    split_ifs at hs with hcond
    cases hs
    exact h.atContext (fun _ => hcond.2) (by simp [InWindow]) (by simp [hat])
  | atContext cxt =>
    rw [hat] at hs
    dsimp only at hs
    have hshared := h.shared (by simp [hat])
    split_ifs at hs with hlt hordered hzero <;> cases hs
    · exact h.atContext (fun _ => hshared) (by simp [InWindow]) (by simp [hat])
    · exact h.drained hat hzero
    · exact h.atContext (fun _ => hshared) (by simp [InWindow]) (by simp [hat])
  | drained cxt =>
    rw [hat] at hs
    cases hs
    exact h.swapped hat
  | swapped cxt =>
    rw [hat] at hs
    dsimp only at hs
    split_ifs at hs with hzero
    cases hs
    exact h.setPhvFactory hat hzero

/-- What one step preserves, if no packet enters a context in the window of `do_swap`. -/
theorem Drained.step (h : s.Drained) {op : SwapOp} {r : Unit} (hkeep : s.Keeps op)
    (hs : s.step op = some (r, s')) : s'.Drained := by
  cases op with
  | newPacket t cxt =>
    simp only [SwapSwitch.step] at hs
    split_ifs at hs with hcond
    cases hs
    exact h.construct hcond.1 fun _ => hcond.2.1
  | clone t i newCxt =>
    simp only [SwapSwitch.step, Option.bind_eq_bind, Option.bind_eq_some_iff] at hs
    obtain ⟨p, hp, hs⟩ := hs
    split_ifs at hs with hcond
    cases hs
    exact h.clone hp hcond.1
  | changeContext t i newCxt =>
    simp only [SwapSwitch.step, Option.bind_eq_bind, Option.bind_eq_some_iff] at hs
    obtain ⟨p, hp, hs⟩ := hs
    split_ifs at hs with hcond hsame
    · cases hs
      exact h
    · cases hs
      exact (h.release hp).construct hcond.1 nofun
  | get t =>
    simp only [SwapSwitch.step] at hs
    split at hs
    · rename_i cxt src shared hth
      have hnot := h.not_inWindow hth hkeep
      split at hs
      · cases hs
        exact h.take hth hnot
      · rename_i f phvs hphvs
        cases hs
        exact h.reuse hth hphvs hnot
    · cases hs
  | create t =>
    simp only [SwapSwitch.step] at hs
    split at hs
    · rename_i cxt src shared hth
      cases hs
      exact h.create hth
    · cases hs
  | destroy i =>
    simp only [SwapSwitch.step, Option.bind_eq_bind, Option.bind_eq_some_iff] at hs
    obtain ⟨p, hp, hs⟩ := hs
    cases hs
    exact h.release hp
  | loadNewConfig cxt factory =>
    simp only [SwapSwitch.step] at hs
    split_ifs at hs
    cases hs
    exact h.modify fun _ => ⟨rfl, rfl, rfl, rfl⟩
  | swapConfigs cxt =>
    simp only [SwapSwitch.step] at hs
    split_ifs at hs
    cases hs
    exact h.modify fun _ => ⟨rfl, rfl, rfl, rfl⟩
  | doSwap =>
    obtain ⟨s'', hs'', heq⟩ := Option.map_eq_some_iff.mp hs
    cases heq
    exact h.swapStep hs''

/-- A switch before traffic: `nbCxts` contexts with their factories, and idle threads. -/
def start (nbCxts nbThreads : ℕ) (factories : ℕ → ℕ) : SwapSwitch where
  nbCxts
  contexts cxt :=
    { factory := factories cxt, factoryRt := factories cxt, phvFactory := factories cxt }
  threads := List.replicate nbThreads .idle

theorem Drained.start (nbCxts nbThreads : ℕ) (factories : ℕ → ℕ) :
    (SwapSwitch.start nbCxts nbThreads factories).Drained where
  count cxt := by simp [SwapSwitch.start, Monitor.count, List.countP_replicate]
  shared hne := absurd rfl hne
  window cxt hwindow := by rcases hwindow with hw | hw <;> cases hw
  factory _ _ := rfl
  phvs _ f hf := by cases hf
  packets p hp := by cases hp
  sources th hth p hp := by
    obtain rfl := List.eq_of_mem_replicate hth
    cases hp

end SwapSwitch

open SwapSwitch in
/-- In every run in which no packet of another context enters the context that `do_swap` has just
found empty, no PHV is in use when `set_phv_factory` is called, and every live packet has a PHV
from the factory of its context. -/
theorem swap_safe (nbCxts nbThreads : ℕ) (factories : ℕ → ℕ) (s : SwapSwitch)
    (h : Transition.Reach SwapSwitch.step SwapSwitch.Keeps
      (SwapSwitch.start nbCxts nbThreads factories) s) : s.SwapSafe :=
  (h.invariant Drained (Drained.start nbCxts nbThreads factories)
    fun _ _ _ _ hdrained hkeep hs => hdrained.step hkeep hs).safe

/-- The first of two contexts is drained, and its next packet has a PHV of the new factory. -/
theorem swap_safe_two_contexts : ∃ s : SwapSwitch, s.SwapSafe ∧ s.packets = [⟨0, 7⟩, ⟨1, 0⟩] := by
  have heval : (Transition.runAll SwapSwitch.step SwapSwitch.Keeps (SwapSwitch.start 2 1 fun _ => 0)
      [.newPacket 0 0, .get 0, .create 0, .loadNewConfig 0 7, .swapConfigs 0, .clone 0 0 1, .get 0,
        .create 0, .destroy 1, .doSwap, .doSwap, .doSwap, .doSwap, .doSwap, .doSwap,
        .newPacket 0 0, .get 0, .create 0]).map SwapSwitch.packets = some [⟨0, 7⟩, ⟨1, 0⟩] := by
    decide +kernel
  obtain ⟨s, hrun, hs⟩ := Option.map_eq_some_iff.mp heval
  exact ⟨s, swap_safe 2 1 (fun _ => 0) s (.of_runAll hrun), hs⟩

/-- A packet of the second context is cloned into the first one, which `do_swap` has just found
empty: `set_phv_factory` finds a PHV in use. -/
theorem clone_enters_drained_context : ∃ s : SwapSwitch,
    Transition.Reach SwapSwitch.step (fun _ _ => True) (SwapSwitch.start 2 1 fun _ => 0) s ∧
      ¬ s.SwapSafe := by
  have heval : (Transition.runAll SwapSwitch.step (fun _ _ => True)
      (SwapSwitch.start 2 1 fun _ => 0)
      [.newPacket 0 1, .get 0, .create 0, .loadNewConfig 0 7, .swapConfigs 0, .doSwap, .doSwap,
        .clone 0 0 0, .get 0, .doSwap]).map (fun s => (s.swapper, (s.contexts 0).count)) =
      some (.swapped 0, 1) := by
    decide +kernel
  obtain ⟨s, hrun, hs⟩ := Option.map_eq_some_iff.mp heval
  obtain ⟨hat, hcount⟩ := Prod.mk.inj hs
  refine ⟨s, .of_runAll hrun, fun hsafe => ?_⟩
  have hzero := hsafe.1 0 hat
  omega

end Bmv2
