import Mathlib.Data.List.Nodup
import Mathlib.Data.Int.Basic
import Mathlib.Logic.Function.Basic
import Mathlib.Tactic.Common
import Mathlib.Tactic.Ring
import Bmv2.Lib.Transition

/-! The identity of packets (`CopyIdGenerator` of `packet.h`): clones are numbered by a counter
that packets share, and that every packet counts down when it is destroyed. -/
namespace Bmv2

/-- The counters are atomic `int`s, one for all packet ids with the same remainder. -/
structure CopyIdGenerator where
  arr : ℕ → ℤ := fun _ => 0

namespace CopyIdGenerator

def w : ℕ := 4096

variable (gen : CopyIdGenerator)

def get (packetId : ℕ) : ℤ := gen.arr (packetId % w)

def put (packetId : ℕ) (n : ℤ) : CopyIdGenerator :=
  ⟨Function.update gen.arr (packetId % w) (n.bmod (2 ^ 32))⟩

/-- `add_one`: the new count as a `copy_id_t`, which is unsigned. -/
def addOne (packetId : ℕ) : ℕ × CopyIdGenerator :=
  let gen := gen.put packetId (gen.get packetId + 1)
  ((gen.get packetId % 2 ^ 64).toNat, gen)

def removeOne (packetId : ℕ) : CopyIdGenerator := gen.put packetId (gen.get packetId - 1)

variable {gen}

theorem get_put {packetId : ℕ} {n : ℤ} (j : ℕ) : (gen.put packetId n).get j =
    if j % w = packetId % w then n.bmod (2 ^ 32) else gen.get j := by
  simp only [get, put, Function.update_apply]

end CopyIdGenerator

/-- `(packet_id, copy_id)`. -/
structure PacketId where
  packetId : ℕ
  copyId : ℕ
  deriving DecidableEq

/-- The packets that are live, and the packet ids given out so far. -/
structure LivePackets where
  gen : CopyIdGenerator := {}
  live : List PacketId := []
  used : List ℕ := []

inductive LifeOp where
  | create (packetId : ℕ)
  | clone (i : ℕ)
  | destroy (i : ℕ)

/-- New packets get ids that were not given out before; any live packet can be cloned, and
destroyed. -/
def LivePackets.step (s : LivePackets) : LifeOp → Option (Unit × LivePackets)
  | .create packetId =>
    if packetId ∈ s.used then none
    else some ((), { s with live := ⟨packetId, 0⟩ :: s.live, used := packetId :: s.used })
  | .clone i => do
    let p ← s.live[i]?
    let (copyId, gen) := s.gen.addOne p.packetId
    some ((), { s with gen, live := ⟨p.packetId, copyId⟩ :: s.live })
  | .destroy i => do
    let p ← s.live[i]?
    some ((), { s with gen := s.gen.removeOne p.packetId, live := s.live.eraseIdx i })

/-- No two live packets have the same pair of ids. -/
def LivePackets.Distinct (s : LivePackets) : Prop := s.live.Nodup

namespace LivePackets

/-- The steps that keep the counter of a slot from falling below a copy id in the slot: a packet
is created where the counter is not negative, and none is destroyed while another one of the
slot has the counter's value as its copy id. The counter itself must not overflow. -/
def KeepsCount (s : LivePackets) : LifeOp → Prop
  | .create packetId => 0 ≤ s.gen.get packetId
  | .clone i => ∀ p ∈ s.live[i]?, s.gen.get p.packetId + 1 < 2 ^ 31
  | .destroy i => ∀ p ∈ s.live[i]?, ∀ q ∈ s.live.eraseIdx i,
      q.packetId % CopyIdGenerator.w = p.packetId % CopyIdGenerator.w →
      (q.copyId : ℤ) ≠ s.gen.get p.packetId

instance (s : LivePackets) (op : LifeOp) : Decidable (s.KeepsCount op) := by
  cases op <;> unfold KeepsCount <;> infer_instance

/-- A live packet was created, and its copy id is at most the counter of its slot. -/
structure Counted (s : LivePackets) : Prop where
  distinct : s.live.Nodup
  used : ∀ p ∈ s.live, p.packetId ∈ s.used
  le : ∀ p ∈ s.live, (p.copyId : ℤ) ≤ s.gen.get p.packetId
  bounds : ∀ j, -1 ≤ s.gen.get j ∧ s.gen.get j < 2 ^ 31

variable {s s' : LivePackets} {op : LifeOp} {r : Unit}

theorem counted_empty : Counted {} := by
  constructor <;> simp [CopyIdGenerator.get]

/-- What a clone gets: the next copy id, which no packet of the slot has. -/
theorem Counted.addOne (h : s.Counted) {p : PacketId} (hp : p ∈ s.live)
    (hlt : s.gen.get p.packetId + 1 < 2 ^ 31) :
    ((s.gen.addOne p.packetId).1 : ℤ) = s.gen.get p.packetId + 1 ∧
      ∀ j, (s.gen.addOne p.packetId).2.get j =
        if j % CopyIdGenerator.w = p.packetId % CopyIdGenerator.w then s.gen.get p.packetId + 1
        else s.gen.get j := by
  have hle := h.le p hp
  have hmod : (s.gen.get p.packetId + 1).bmod (2 ^ 32) = s.gen.get p.packetId + 1 :=
    Int.bmod_eq_of_le (by omega) (by omega)
  constructor
  · simp only [CopyIdGenerator.addOne, CopyIdGenerator.get_put, if_true, hmod]
    omega
  · intro j
    simp only [CopyIdGenerator.addOne, CopyIdGenerator.get_put, hmod]

theorem Counted.removeOne (h : s.Counted) {p : PacketId} (hp : p ∈ s.live) (j : ℕ) :
    (s.gen.removeOne p.packetId).get j =
      if j % CopyIdGenerator.w = p.packetId % CopyIdGenerator.w then s.gen.get p.packetId - 1
      else s.gen.get j := by
  have hle := h.le p hp
  have hlt := (h.bounds p.packetId).2
  have hmod : (s.gen.get p.packetId - 1).bmod (2 ^ 32) = s.gen.get p.packetId - 1 :=
    Int.bmod_eq_of_le (by omega) (by omega)
  simp only [CopyIdGenerator.removeOne, CopyIdGenerator.get_put, hmod]

theorem get_congr {gen : CopyIdGenerator} {i j : ℕ}
    (h : i % CopyIdGenerator.w = j % CopyIdGenerator.w) : gen.get i = gen.get j := by
  rw [CopyIdGenerator.get, h, CopyIdGenerator.get]

theorem Counted.create (h : s.Counted) {packetId : ℕ} (hnew : packetId ∉ s.used)
    (hcount : 0 ≤ s.gen.get packetId) :
    Counted { s with live := ⟨packetId, 0⟩ :: s.live, used := packetId :: s.used } where
  distinct := List.nodup_cons.mpr ⟨fun hmem => hnew (h.used _ hmem), h.distinct⟩
  used := List.forall_mem_cons.mpr
    ⟨List.mem_cons_self, fun p hp => List.mem_cons_of_mem _ (h.used p hp)⟩
  le := List.forall_mem_cons.mpr ⟨hcount, h.le⟩
  bounds := h.bounds

theorem Counted.clone (h : s.Counted) {p : PacketId} (hp : p ∈ s.live)
    (hlt : s.gen.get p.packetId + 1 < 2 ^ 31) :
    Counted { s with
      gen := (s.gen.addOne p.packetId).2
      live := ⟨p.packetId, (s.gen.addOne p.packetId).1⟩ :: s.live } := by
  obtain ⟨hid, hget⟩ := h.addOne hp hlt
  refine ⟨List.nodup_cons.mpr ⟨fun hmem => ?_, h.distinct⟩,
    List.forall_mem_cons.mpr ⟨h.used p hp, h.used⟩,
    List.forall_mem_cons.mpr ⟨?_, fun q hq => ?_⟩, fun j => ?_⟩
  · have hle := h.le _ hmem
    dsimp only at hle
    omega
  · rw [hget, if_pos rfl]
    exact Int.le_of_eq hid
  · have hle := h.le q hq
    rw [hget]
    split_ifs with hslot
    · rw [get_congr hslot] at hle
      omega
    · exact hle
  · have hb := h.bounds j
    have hb' := h.bounds p.packetId
    rw [hget]
    split_ifs <;> omega

theorem Counted.destroy (h : s.Counted) {i : ℕ} {p : PacketId} (hp : s.live[i]? = some p)
    (hkeep : ∀ q ∈ s.live.eraseIdx i,
      q.packetId % CopyIdGenerator.w = p.packetId % CopyIdGenerator.w →
      (q.copyId : ℤ) ≠ s.gen.get p.packetId) :
    Counted { s with gen := s.gen.removeOne p.packetId, live := s.live.eraseIdx i } := by
  have hmem := List.mem_of_getElem? hp
  have hsub := List.eraseIdx_sublist s.live i
  refine ⟨h.distinct.sublist hsub, fun q hq => h.used q (hsub.subset hq), fun q hq => ?_,
    fun j => ?_⟩
  · have hle := h.le q (hsub.subset hq)
    rw [h.removeOne hmem]
    split_ifs with hslot
    · have hne := hkeep q hq hslot
      rw [get_congr hslot] at hle
      omega
    · exact hle
  · have hb := h.bounds j
    have hb' := h.bounds p.packetId
    have hle := h.le p hmem
    rw [h.removeOne hmem]
    split_ifs <;> omega

theorem Counted.step (h : s.Counted) (hkeep : s.KeepsCount op) (hs : s.step op = some (r, s')) :
    s'.Counted := by
  cases op with
  | create packetId =>
    simp only [LivePackets.step] at hs
    split_ifs at hs with hused
    cases hs
    exact h.create hused hkeep
  | clone i =>
    obtain ⟨p, hp, hs⟩ := Option.bind_eq_some_iff.mp hs
    cases hs
    exact h.clone (List.mem_of_getElem? hp) (hkeep p hp)
  | destroy i =>
    obtain ⟨p, hp, hs⟩ := Option.bind_eq_some_iff.mp hs
    cases hs
    exact h.destroy hp (hkeep p hp)

/-- A counter that stands below the copy id of a live packet numbers the next clone of that
packet like the packet itself. -/
theorem clone_collides {j : ℕ} {q : PacketId} (hq : s.live[j]? = some q)
    (hcount : s.gen.get q.packetId + 1 = q.copyId) (hlt : q.copyId < 2 ^ 31) :
    ∃ s', s.step (.clone j) = some ((), s') ∧ ¬ s'.Distinct := by
  have hid : (s.gen.addOne q.packetId).1 = q.copyId := by
    have hmod : (s.gen.get q.packetId + 1).bmod (2 ^ 32) = s.gen.get q.packetId + 1 :=
      Int.bmod_eq_of_le (by omega) (by omega)
    simp only [CopyIdGenerator.addOne, CopyIdGenerator.get_put, if_true, hmod]
    omega
  refine ⟨_, by simp only [LivePackets.step, hq, Option.bind_eq_bind, Option.bind_some]; rfl, ?_⟩
  intro hdistinct
  exact (List.nodup_cons.mp hdistinct).1 (hid ▸ List.mem_of_getElem? hq)

end LivePackets

/-- Along every run that keeps the counters, no two live packets have the same ids; and after a
creation or destruction that does not, the next clone of some packet has ids that are taken. -/
theorem packet_ids_distinct {s : LivePackets}
    (h : Transition.Reach LivePackets.step LivePackets.KeepsCount {} s) :
    s.Distinct ∧ ∀ op s', (∀ i, op ≠ .clone i) → s.step op = some ((), s') →
      ¬ s.KeepsCount op → ∃ j s'', s'.step (.clone j) = some ((), s'') ∧ ¬ s''.Distinct := by
  have hcounted : s.Counted := h.invariant LivePackets.Counted LivePackets.counted_empty
    fun _ _ _ _ hinv hkeep hs => hinv.step hkeep hs
  refine ⟨hcounted.distinct, fun op s' hop hs hbreak => ?_⟩
  cases op with
  | create packetId =>
    simp only [LivePackets.step] at hs
    split_ifs at hs
    cases hs
    have hge := (hcounted.bounds packetId).1
    have hneg : s.gen.get packetId = -1 := by
      unfold LivePackets.KeepsCount at hbreak
      omega
    obtain ⟨s'', hs'', hcollide⟩ := LivePackets.clone_collides (j := 0) (q := ⟨packetId, 0⟩)
      (s := { s with live := ⟨packetId, 0⟩ :: s.live, used := packetId :: s.used }) rfl
      (by simp [hneg]) (by simp)
    exact ⟨0, s'', hs'', hcollide⟩
  | clone i => exact absurd rfl (hop i)
  | destroy i =>
    obtain ⟨p, hp, hs⟩ := Option.bind_eq_some_iff.mp hs
    cases hs
    simp only [LivePackets.KeepsCount, hp, Option.mem_def, Option.some.injEq] at hbreak
    push Not at hbreak
    obtain ⟨_, rfl, q, hq, hslot, hcount⟩ := hbreak
    obtain ⟨j, hj⟩ := List.mem_iff_getElem?.mp hq
    have hlt := (hcounted.bounds p.packetId).2
    obtain ⟨s'', hs'', hcollide⟩ := LivePackets.clone_collides (j := j) (q := q)
      (s := { s with gen := s.gen.removeOne p.packetId, live := s.live.eraseIdx i }) hj
      (by rw [hcounted.removeOne (List.mem_of_getElem? hp), if_pos hslot, hcount]; omega)
      (by omega)
    exact ⟨j, s'', hs'', hcollide⟩

/-- Clones that are destroyed in the reverse order of their creation. -/
theorem packet_ids_distinct_clones : ∃ s : LivePackets, s.Distinct ∧
    s.live = [⟨7, 1⟩, ⟨7, 0⟩] := by
  have heval : (Transition.runAll LivePackets.step LivePackets.KeepsCount {}
      [.create 7, .clone 0, .clone 1, .destroy 0]).map LivePackets.live =
      some [⟨7, 1⟩, ⟨7, 0⟩] := by
    decide +kernel
  obtain ⟨s, hrun, hs⟩ := Option.map_eq_some_iff.mp heval
  exact ⟨s, (packet_ids_distinct (.of_runAll hrun)).1, hs⟩

/-- A clone outlives its original, and the next clone is numbered like it. -/
theorem clone_reuses_copy_id : ∃ s : LivePackets,
    Transition.Reach LivePackets.step (fun _ _ => True) {} s ∧ ¬ s.Distinct := by
  have heval : (Transition.runAll LivePackets.step (fun _ _ => True) {}
      [.create 7, .clone 0, .destroy 1, .clone 0]).map LivePackets.live =
      some [⟨7, 1⟩, ⟨7, 1⟩] := by
    decide +kernel
  obtain ⟨s, hrun, hs⟩ := Option.map_eq_some_iff.mp heval
  refine ⟨s, .of_runAll hrun, ?_⟩
  rw [LivePackets.Distinct, hs]
  decide

end Bmv2
