import Bmv2.Packet.StackOps

/-! Runs of the operations on a header stack that starts empty: which of its headers are valid, and
that bulk operations agree with single ones in every state that is reached. -/
namespace Bmv2

inductive StackOp where
  | pushBack
  | popBack
  | pushFrontOne
  | popFrontOne
  | pushFront (num : ℕ)
  | popFront (num : ℕ)

namespace StackOp

def exec (stack : ℕ) (phv : PHV) : StackOp → Option (ℕ × PHV)
  | pushBack => phv.pushBack stack
  | popBack => phv.popBack stack
  | pushFrontOne => phv.pushFrontOne stack
  | popFrontOne => phv.popFrontOne stack
  | pushFront num => phv.pushFront stack num
  | popFront num => phv.popFront stack num

/-- The count and the number of headers to be pushed have a sum of type `size_t`. -/
def Fits (stack : ℕ) (phv : PHV) : StackOp → Prop
  | pushFront num => ∀ s, phv.headerStacks[stack]? = some s → s.next + num < 2 ^ 64
  | _ => True

/-- A single operation a number of times. -/
def times (op : PHV → Option (ℕ × PHV)) : ℕ → PHV → Option PHV
  | 0, phv => some phv
  | n + 1, phv => do
    let (_, phv) ← op phv
    times op n phv

end StackOp

namespace PHV

variable {phv₀ phv phv' : PHV} {s₀ s : HeaderStack} {stack numFields : ℕ}

/-- The contents of the headers in use, in their order. -/
def live (phv : PHV) (stack : ℕ) : List (Option HeaderContent) :=
  match phv.headerStacks[stack]? with
  | none => []
  | some s => (List.range s.next).map (phv.contentAt s)

/-- A stack of a PHV with at least one place, of which no header is in use. -/
structure EmptyStack (phv : PHV) (stack : ℕ) (s : HeaderStack) (numFields : ℕ) : Prop
    extends phv.StackOf s numFields where
  headerStack : phv.headerStacks[stack]? = some s
  next_zero : s.next = 0
  depth_pos : 0 < s.headers.length
  not_valid : ∀ x ∈ s.headers, ∀ h, phv.headers[x]? = some h →
    h.valid = false ∧ h.metadata = false

/-- What holds of a stack between operations. -/
structure Stacked (phv₀ : PHV) (stack : ℕ) (s₀ : HeaderStack) (numFields : ℕ) (phv : PHV)
    (s : HeaderStack) : Prop extends phv.StackOf s numFields where
  headerStack : phv.headerStacks[stack]? = some s
  headers_eq : s.headers = s₀.headers
  next_le : s.next ≤ s.headers.length
  frame : phv.frameAt s = phv₀.frameAt s
  valid : ∀ i < s.headers.length, (phv.contentAt s i).map Prod.fst = some (decide (i < s.next))

theorem EmptyStack.stacked (h : phv.EmptyStack stack s numFields) :
    Stacked phv stack s numFields phv s := by
  refine ⟨h.toStackOf, h.headerStack, rfl, by rw [h.next_zero]; exact Nat.zero_le _, rfl, ?_⟩
  intro i hi
  obtain ⟨g, hx, -⟩ := h.header _ (List.getElem_mem hi)
  rw [contentAt, List.getElem?_eq_getElem hi, Option.bind_eq_bind, Option.bind_some, hx,
    Option.map_some, Option.map_some, h.next_zero]
  exact congrArg some (h.not_valid _ (List.getElem_mem hi) g hx).1

theorem Stacked.popped {num : ℕ} (h : Stacked phv₀ stack s₀ numFields phv s)
    (hp : Popped stack s numFields phv num phv') :
    Stacked phv₀ stack s₀ numFields phv' { s with next := s.next - num } := by
  have hle := h.next_le
  refine ⟨hp.stackOf.next _, hp.headerStack, h.headers_eq, (Nat.sub_le _ _).trans hle,
    hp.frame.trans h.frame, ?_⟩
  intro i hi
  change (phv'.contentAt s i).map Prod.fst = some (decide (i < s.next - num))
  by_cases hkept : i + num < s.next
  · rw [hp.kept i hkept, h.valid (i + num) (by omega), decide_eq_true hkept,
      decide_eq_true (by omega)]
  · rw [decide_eq_false (by omega)]
    by_cases hgone : i < s.next
    · exact hp.gone i (by omega) hgone
    · rw [hp.rest i (by omega), h.valid i hi, decide_eq_false hgone]

theorem Stacked.pushed {num : ℕ} (h : Stacked phv₀ stack s₀ numFields phv s)
    (hp : Pushed stack s numFields phv num phv') :
    Stacked phv₀ stack s₀ numFields phv'
      { s with next := min s.headers.length (s.next + num) } := by
  have hle := h.next_le
  refine ⟨hp.stackOf.next _, hp.headerStack, h.headers_eq, Nat.min_le_left _ _,
    hp.frame.trans h.frame, ?_⟩
  intro i hi
  change i < s.headers.length at hi
  change (phv'.contentAt s i).map Prod.fst =
    some (decide (i < min s.headers.length (s.next + num)))
  by_cases hnew : i < num
  · rw [hp.new i (by omega), decide_eq_true (by omega)]
  · by_cases hkept : i < s.next + num
    · obtain ⟨j, rfl⟩ : ∃ j, i = num + j := ⟨i - num, by omega⟩
      rw [hp.kept j (by omega), h.valid j (by omega), decide_eq_true (by omega),
        decide_eq_true (by omega)]
    · rw [hp.rest i (by omega), h.valid i hi, decide_eq_false (by omega),
        decide_eq_false (by omega)]

/-- The header at one place is marked, and the count is moved over it. -/
theorem Stacked.marked (h : Stacked phv₀ stack s₀ numFields phv s) (b : Bool) (next : ℕ) {i x : ℕ}
    (hx : s.headers[i]? = some x) (hnext : next ≤ s.headers.length)
    (hvalid : ∀ j < s.headers.length,
      (if j = i then b else decide (j < s.next)) = decide (j < next)) :
    ∃ phv', phv.modifyHeader x (fun g => { g with valid := b }) = some phv' ∧
      Stacked phv₀ stack s₀ numFields (phv'.setStack stack { s with next }) { s with next } := by
  obtain ⟨phv', hmod, hmoved⟩ := h.toStackOf.markAt b hx
  refine ⟨phv', hmod, (hmoved.stackOf.setStack _).next next, ?_, h.headers_eq, hnext,
    hmoved.frame.trans h.frame, ?_⟩
  · have hstack := h.headerStack
    rw [← hmoved.headerStacks] at hstack
    exact getElem?_setStack hstack _
  · intro j hj
    have hcontent : (phv'.setStack stack { s with next }).contentAt { s with next } j =
        if j = i then (phv.contentAt s j).map fun c => (b, c.2) else phv.contentAt s j :=
      congrFun hmoved.content j
    have hold := h.valid j hj
    rw [hcontent, ← hvalid j hj]
    by_cases hji : j = i
    · obtain ⟨c, hc⟩ := content_isSome h.toStackOf hj
      rw [if_pos hji, if_pos hji, hc]
      rfl
    · rw [if_neg hji, if_neg hji, hold]

/-- The operations are defined, and keep what holds between them. -/
theorem Stacked.step (h : Stacked phv₀ stack s₀ numFields phv s) (hdepth : 0 < s₀.headers.length)
    {op : StackOp} (hfits : op.Fits stack phv) :
    ∃ r phv' s', op.exec stack phv = some (r, phv') ∧
      Stacked phv₀ stack s₀ numFields phv' s' := by
  have hle := h.next_le
  have hpos : 0 < s.headers.length := h.headers_eq ▸ hdepth
  cases op with
  | pushBack =>
    by_cases hfull : s.next = s.headers.length
    · refine ⟨0, phv, s, ?_, h⟩
      exact Option.bind_eq_some_iff.mpr ⟨s, h.headerStack, if_pos hfull⟩
    · have hx := List.getElem?_eq_getElem (show s.next < s.headers.length by omega)
      obtain ⟨phv', hmod, hstacked⟩ := h.marked true (s.next + 1) hx (by omega) fun j _ => by
        split_ifs with hj
        · exact (decide_eq_true (by omega)).symm
        · exact decide_eq_decide.mpr (by omega)
      refine ⟨1, _, _, ?_, hstacked⟩
      exact Option.bind_eq_some_iff.mpr ⟨s, h.headerStack, (if_neg hfull).trans
        (Option.bind_eq_some_iff.mpr ⟨_, hx, Option.bind_eq_some_iff.mpr ⟨phv', hmod, rfl⟩⟩)⟩
  | popBack =>
    by_cases hempty : s.next = 0
    · refine ⟨0, phv, s, ?_, h⟩
      exact Option.bind_eq_some_iff.mpr ⟨s, h.headerStack, if_pos hempty⟩
    · have hx := List.getElem?_eq_getElem (show s.next - 1 < s.headers.length by omega)
      obtain ⟨phv', hmod, hstacked⟩ := h.marked false (s.next - 1) hx (by omega) fun j _ => by
        split_ifs with hj
        · exact (decide_eq_false (by omega)).symm
        · exact decide_eq_decide.mpr (by omega)
      refine ⟨1, _, _, ?_, hstacked⟩
      exact Option.bind_eq_some_iff.mpr ⟨s, h.headerStack, (if_neg hempty).trans
        (Option.bind_eq_some_iff.mpr ⟨_, hx, Option.bind_eq_some_iff.mpr ⟨phv', hmod, rfl⟩⟩)⟩
  | pushFrontOne =>
    obtain ⟨phv', hexec, hpushed⟩ := h.toStackOf.pushFrontOne_spec h.headerStack hle hpos
    exact ⟨_, phv', _, hexec, h.pushed hpushed⟩
  | popFrontOne =>
    obtain ⟨phv', hexec, hpopped⟩ := h.toStackOf.popFrontOne_spec h.headerStack hle
    exact ⟨_, phv', _, hexec, h.popped hpopped⟩
  | pushFront num =>
    obtain ⟨phv', hexec, hpushed⟩ := h.toStackOf.pushFront_spec h.headerStack hle hpos
      (hfits s h.headerStack)
    exact ⟨_, phv', _, hexec, h.pushed hpushed⟩
  | popFront num =>
    obtain ⟨phv', hexec, hpopped⟩ := h.toStackOf.popFront_spec h.headerStack hle num
    exact ⟨_, phv', _, hexec, h.popped hpopped⟩

/-- Popping one header a number of times. -/
theorem StackOf.times_popFrontOne (hs : phv.StackOf s numFields)
    (hstack : phv.headerStacks[stack]? = some s) (hle : s.next ≤ s.headers.length) (num : ℕ) :
    ∃ phv', StackOp.times (fun phv => phv.popFrontOne stack) num phv = some phv' ∧
      Popped stack s numFields phv num phv' := by
  induction num generalizing phv s with
  | zero => exact ⟨phv, rfl, hs.popped_zero hstack (.inl rfl)⟩
  | succ num ih =>
    obtain ⟨phv₁, hexec, hpopped⟩ := hs.popFrontOne_spec hstack hle
    obtain ⟨phv₂, htimes, hpopped'⟩ := ih (hpopped.stackOf.next _) hpopped.headerStack
      ((Nat.sub_le _ _).trans hle)
    refine ⟨phv₂, Option.bind_eq_some_iff.mpr ⟨_, hexec, htimes⟩, ?_⟩
    rw [Nat.add_comm]
    exact hpopped.trans hpopped'

/-- Pushing one header a number of times. -/
theorem StackOf.times_pushFrontOne (hs : phv.StackOf s numFields)
    (hstack : phv.headerStacks[stack]? = some s) (hle : s.next ≤ s.headers.length)
    (hdepth : 0 < s.headers.length) (num : ℕ) :
    ∃ phv', StackOp.times (fun phv => phv.pushFrontOne stack) num phv = some phv' ∧
      Pushed stack s numFields phv num phv' := by
  induction num generalizing phv s with
  | zero => exact ⟨phv, rfl, hs.pushed_zero hstack hle⟩
  | succ num ih =>
    obtain ⟨phv₁, hexec, hpushed⟩ := hs.pushFrontOne_spec hstack hle hdepth
    obtain ⟨phv₂, htimes, hpushed'⟩ := ih (hpushed.stackOf.next _) hpushed.headerStack
      (Nat.min_le_left _ _) hdepth
    refine ⟨phv₂, Option.bind_eq_some_iff.mpr ⟨_, hexec, htimes⟩, ?_⟩
    rw [Nat.add_comm]
    exact hpushed.trans hpushed'

/-- Popping drops the first of the headers in use. -/
theorem Popped.live {num : ℕ} (hstack : phv.headerStacks[stack]? = some s)
    (hp : Popped stack s numFields phv num phv') :
    phv'.live stack = (phv.live stack).drop num := by
  unfold PHV.live
  rw [hp.headerStack, hstack]
  dsimp only
  apply List.ext_getElem
  · simp
  · intro i hi hi'
    simp only [List.length_map, List.length_range] at hi
    rw [List.getElem_drop, List.getElem_map, List.getElem_map, List.getElem_range,
      List.getElem_range, Nat.add_comm num i]
    exact hp.kept i (by omega)

/-- What the operations on a stack do in a state. A header of the stack is valid if it is in use;
popping a number of headers gives what as many single pops give; pushing a number of headers gives,
for the headers that are not pushed out, what as many single pushes give. -/
structure StackLaws (phv : PHV) (stack : ℕ) (s : HeaderStack) : Prop where
  valid_iff : ∀ i x h, s.headers[i]? = some x → phv.headers[x]? = some h →
    (h.isValid ↔ i < s.next)
  defined : ∀ op : StackOp, op.Fits stack phv → ∃ r phv', op.exec stack phv = some (r, phv')
  popFront : ∀ num, ∃ phv₁ phv₂, phv.popFront stack num = some (min num s.next, phv₁) ∧
    StackOp.times (fun phv => phv.popFrontOne stack) num phv = some phv₂ ∧
    phv₁.live stack = (phv.live stack).drop num ∧ phv₂.live stack = (phv.live stack).drop num
  pushFront : ∀ num, s.next + num < 2 ^ 64 → ∃ phv₁ phv₂ s',
    phv.pushFront stack num = some (min num s.headers.length, phv₁) ∧
    StackOp.times (fun phv => phv.pushFrontOne stack) num phv = some phv₂ ∧
    s' = { s with next := min s.headers.length (s.next + num) } ∧
    phv₁.headerStacks[stack]? = some s' ∧ phv₂.headerStacks[stack]? = some s' ∧
    ∀ i < s.next, num + i < s.headers.length →
      phv₁.contentAt s (num + i) = phv.contentAt s i ∧
      phv₂.contentAt s (num + i) = phv.contentAt s i

theorem Stacked.laws (h₀ : phv₀.EmptyStack stack s₀ numFields)
    (h : Stacked phv₀ stack s₀ numFields phv s) : StackLaws phv stack s := by
  have hle := h.next_le
  have hpos : 0 < s.headers.length := h.headers_eq ▸ h₀.depth_pos
  refine ⟨?_, ?_, ?_, ?_⟩
  · intro i x g hx hg
    have hlt := (List.getElem?_eq_some_iff.mp hx).1
    have hvalid := h.valid i hlt
    have hframe := congrFun h.frame i
    rw [contentAt, hx, Option.bind_eq_bind, Option.bind_some, hg, Option.map_some,
      Option.map_some] at hvalid
    simp only [frameAt, hx, Option.bind_eq_bind, Option.bind_some, hg, Option.map_some] at hframe
    obtain ⟨g₀, hg₀, heq⟩ := Option.map_eq_some_iff.mp hframe.symm
    have hmeta : g.metadata = g₀.metadata := (congrArg Header.metadata heq).symm
    have hin : x ∈ s₀.headers := h.headers_eq ▸ List.mem_of_getElem? hx
    have hvalid' : g.valid = decide (i < s.next) := Option.some.inj hvalid
    rw [Header.isValid, hmeta, (h₀.not_valid x hin g₀ hg₀).2, hvalid', Bool.false_or,
      decide_eq_true_iff]
  · intro op hfits
    obtain ⟨r, phv', s', hexec, -⟩ := h.step h₀.depth_pos hfits
    exact ⟨r, phv', hexec⟩
  · intro num
    obtain ⟨phv₁, hexec, hpopped⟩ := h.toStackOf.popFront_spec h.headerStack hle num
    obtain ⟨phv₂, htimes, hpopped'⟩ := h.toStackOf.times_popFrontOne h.headerStack hle num
    rw [Nat.min_comm] at hexec
    exact ⟨phv₁, phv₂, hexec, htimes, hpopped.live h.headerStack, hpopped'.live h.headerStack⟩
  · intro num hfits
    obtain ⟨phv₁, hexec, hpushed⟩ := h.toStackOf.pushFront_spec h.headerStack hle hpos hfits
    obtain ⟨phv₂, htimes, hpushed'⟩ := h.toStackOf.times_pushFrontOne h.headerStack hle hpos num
    rw [Nat.min_comm] at hexec
    refine ⟨phv₁, phv₂, _, hexec, htimes, rfl, hpushed.headerStack, hpushed'.headerStack, ?_⟩
    intro i hi hroom
    exact ⟨hpushed.kept i (by omega), hpushed'.kept i (by omega)⟩

/-- In every state that is reached from an empty stack by operations whose counts do not overflow,
the stack has the laws. -/
theorem stackLaws_of_reach (h₀ : phv₀.EmptyStack stack s₀ numFields)
    (hreach : Transition.Reach (fun phv op => StackOp.exec stack phv op)
      (fun phv op => op.Fits stack phv) phv₀ phv) :
    ∃ s, phv.headerStacks[stack]? = some s ∧ s.headers = s₀.headers ∧ StackLaws phv stack s := by
  have hinv : ∃ s, Stacked phv₀ stack s₀ numFields phv s := by
    refine hreach.invariant (fun phv => ∃ s, Stacked phv₀ stack s₀ numFields phv s)
      ⟨s₀, h₀.stacked⟩ ?_
    rintro phv op r phv' ⟨s, h⟩ hfits hstep
    obtain ⟨r', phv₁, s', hexec, h'⟩ := h.step h₀.depth_pos hfits
    obtain ⟨-, rfl⟩ := Prod.mk.inj (Option.some.inj (hstep.symm.trans hexec))
    exact ⟨s', h'⟩
  obtain ⟨s, h⟩ := hinv
  exact ⟨s, h.headerStack, h.headers_eq, h.laws h₀⟩

/-- A stack of two headers with a field of eight bits each. -/
def twoHeaders : PHV where
  headers := [{ fields := [{ nbits := 8, value := 1, bytes := [1] }], nbytesPacket := 1 },
    { fields := [{ nbits := 8, value := 2, bytes := [2] }], nbytesPacket := 1 }]
  headerStacks := [{ headers := [0, 1] }]

theorem emptyStack_twoHeaders : twoHeaders.EmptyStack 0 { headers := [0, 1] } 1 := by
  refine ⟨⟨by decide, ?_⟩, rfl, rfl, by decide, ?_⟩
  · intro x hx
    rcases List.mem_pair.mp hx with rfl | rfl
    · exact ⟨_, rfl, rfl⟩
    · exact ⟨_, rfl, rfl⟩
  · intro x hx h hh
    rcases List.mem_pair.mp hx with rfl | rfl
    · obtain rfl := Option.some.inj hh
      exact ⟨rfl, rfl⟩
    · obtain rfl := Option.some.inj hh
      exact ⟨rfl, rfl⟩

theorem stackLaws_of_pushes : ∃ phv, Transition.Reach
      (fun phv op => StackOp.exec 0 phv op) (fun phv op => op.Fits 0 phv) twoHeaders phv ∧
    phv.live 0 = [some (true, [(2, [2])]), some (true, [(1, [1])])] ∧
    ∃ s, phv.headerStacks[0]? = some s ∧ s.headers = [0, 1] ∧ StackLaws phv 0 s := by
  have hback : Transition.Reach (fun phv op => StackOp.exec 0 phv op)
      (fun phv op => op.Fits 0 phv) twoHeaders _ := .tail (a := .pushBack) .refl trivial rfl
  have hfits : ∀ phv s, phv.headerStacks[0]? = some s → s.next = 1 →
      (StackOp.pushFront 1).Fits 0 phv := by
    intro phv s hs hnext s' hs'
    obtain rfl := Option.some.inj (hs.symm.trans hs')
    rw [hnext]
    decide
  have hfront := Transition.Reach.tail hback (hfits _ _ rfl rfl) rfl
  exact ⟨_, hfront, by decide +kernel, stackLaws_of_reach emptyStack_twoHeaders hfront⟩

/-- With one header in use, pushing `2 ^ 64 - 1` headers makes the new count zero, and the loop
starts at the place before the first. -/
theorem pushFront_wraps : ∃ phv, Transition.Reach (fun phv op => StackOp.exec 0 phv op)
      (fun _ _ => True) twoHeaders phv ∧
    (∃ s, phv.headerStacks[0]? = some s ∧ s.next = 1) ∧
    phv.pushFront 0 (2 ^ 64 - 1) = none := by
  have hback : Transition.Reach (fun phv op => StackOp.exec 0 phv op)
      (fun _ _ => True) twoHeaders _ := .tail (a := .pushBack) .refl trivial rfl
  exact ⟨_, hback, ⟨_, rfl, rfl⟩, rfl⟩

end PHV

end Bmv2
