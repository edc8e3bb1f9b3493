import Bmv2.Lib.Transition
import Bmv2.Packet.StackMoves

/-! The operations of a header stack (`header_stacks.h`): what is pushed and popped by number is
what as many single operations push and pop. -/
namespace Bmv2
open Sliding

namespace PHV

variable {phv phv' phv₁ phv₂ : PHV} {s : HeaderStack} {stack numFields num : ℕ}

theorem StackOf.next (hs : phv.StackOf s numFields) (next : ℕ) :
    phv.StackOf { s with next } numFields :=
  ⟨hs.nodup, hs.header⟩

/-- After `num` headers have been popped: the headers behind them are at the front, and as many
places as there are fewer headers are not valid any more. -/
structure Popped (stack : ℕ) (s : HeaderStack) (numFields : ℕ) (phv : PHV) (num : ℕ)
    (phv' : PHV) : Prop where
  headerStack : phv'.headerStacks[stack]? = some { s with next := s.next - num }
  stackOf : phv'.StackOf s numFields
  frame : phv'.frameAt s = phv.frameAt s
  kept : ∀ j, j + num < s.next → phv'.contentAt s j = phv.contentAt s (j + num)
  gone : ∀ j, s.next - num ≤ j → j < s.next → (phv'.contentAt s j).map Prod.fst = some false
  rest : ∀ j, s.next ≤ j → phv'.contentAt s j = phv.contentAt s j

/-- After `num` headers have been pushed: the headers that there were are behind them, as far as
there is room, and the places before them are valid. -/
structure Pushed (stack : ℕ) (s : HeaderStack) (numFields : ℕ) (phv : PHV) (num : ℕ)
    (phv' : PHV) : Prop where
  headerStack : phv'.headerStacks[stack]? =
    some { s with next := min s.headers.length (s.next + num) }
  stackOf : phv'.StackOf s numFields
  frame : phv'.frameAt s = phv.frameAt s
  kept : ∀ j, num + j < min s.headers.length (s.next + num) →
    phv'.contentAt s (num + j) = phv.contentAt s j
  new : ∀ j < min s.headers.length num, (phv'.contentAt s j).map Prod.fst = some true
  rest : ∀ j, max num (min s.headers.length (s.next + num)) ≤ j →
    phv'.contentAt s j = phv.contentAt s j

theorem getElem?_setStack (hstack : phv.headerStacks[stack]? = some s) (s' : HeaderStack) :
    (phv.setStack stack s').headerStacks[stack]? = some s' :=
  List.getElem?_set_self (List.getElem?_eq_some_iff.mp hstack).1

theorem StackOf.setStack (hs : phv.StackOf s numFields) (s' : HeaderStack) :
    (phv.setStack stack s').StackOf s numFields :=
  ⟨hs.nodup, hs.header⟩

/-- Nothing is popped. -/
theorem StackOf.popped_zero (hs : phv.StackOf s numFields)
    (hstack : phv.headerStacks[stack]? = some s) (hnum : num = 0 ∨ s.next = 0) :
    Popped stack s numFields phv num phv := by
  have hnext : s.next - num = s.next := by omega
  refine ⟨by rw [hnext, hstack], hs, rfl, ?_, ?_, fun _ _ => rfl⟩
  · intro j hj
    rcases hnum with rfl | hnum
    · rfl
    · omega
  · intro j hj hlt
    omega

theorem content_isSome (hs : phv.StackOf s numFields) {j : ℕ} (hj : j < s.headers.length) :
    ∃ c, phv.contentAt s j = some c := by
  obtain ⟨h, hx, -⟩ := hs.header _ (List.getElem_mem hj)
  exact ⟨h.content, by rw [contentAt, List.getElem?_eq_getElem hj, Option.bind_eq_bind,
    Option.bind_some, hx, Option.map_some]⟩

/-- The loops of `pop_front`, for a number of headers that is not zero. -/
theorem StackOf.popLoops (hs : phv.StackOf s numFields)
    (hstack : phv.headerStacks[stack]? = some s) (hle : s.next ≤ s.headers.length)
    (hnum : 0 < num) :
    ∃ phv₁ phv₂, forPositions s (fun phv at_ i => do
          phv.swapValues (← at_ i) (← at_ (i + num))) (List.range (s.next - num)) phv =
        some phv₁ ∧
      forPositions s (fun phv at_ i => do phv.modifyHeader (← at_ i) Header.markInvalid)
        (List.range' (s.next - num) (min s.next num)) phv₁ = some phv₂ ∧
      Popped stack s numFields phv num
        (phv₂.setStack stack { s with next := s.next - num }) := by
  obtain ⟨phv₁, hswap, hmoved⟩ := hs.swapPositions (· + num) (List.range (s.next - num))
    fun i hi => by
      have := List.mem_range.mp hi
      omega
  obtain ⟨phv₂, hmark, hmarked⟩ := hmoved.stackOf.markPositions false
    (List.range' (s.next - num) (min s.next num)) fun i hi => by
      have := List.mem_range'_1.mp hi
      omega
  refine ⟨phv₁, phv₂, hswap, hmark, ?_⟩
  have hboth := hmoved.trans hmarked
  obtain ⟨hfront, hback⟩ := towardsFront_range hnum (phv.contentAt s) (s.next - num)
  have hcontent₁ : phv₁.contentAt s =
      towardsFront num (phv.contentAt s) (List.range (s.next - num)) := hmoved.content
  have hcontent : ∀ j, ((phv₂.setStack stack { s with next := s.next - num }).contentAt s j) =
      if j ∈ List.range' (s.next - num) (min s.next num) then
        (phv₁.contentAt s j).map fun c => (false, c.2) else phv₁.contentAt s j :=
    fun j => congrFun hboth.content j
  refine ⟨?_, hboth.stackOf.setStack _, hboth.frame, ?_, ?_, ?_⟩
  · rw [← hboth.headerStacks] at hstack
    exact getElem?_setStack hstack _
  · intro j hj
    rw [hcontent, if_neg (by rw [List.mem_range'_1]; omega), hcontent₁]
    exact hfront j (by omega)
  · intro j hj hlt
    obtain ⟨c, hc⟩ := content_isSome hmoved.stackOf (show j < s.headers.length by omega)
    rw [hcontent, if_pos (by rw [List.mem_range'_1]; omega), hc]
    rfl
  · intro j hj
    rw [hcontent, if_neg (by rw [List.mem_range'_1]; omega), hcontent₁]
    by_cases hfew : num ≤ s.next
    · exact hback j (by omega)
    · rw [show s.next - num = 0 by omega]
      rfl

theorem StackOf.popFront_spec (hs : phv.StackOf s numFields)
    (hstack : phv.headerStacks[stack]? = some s) (hle : s.next ≤ s.headers.length) (num : ℕ) :
    ∃ phv', phv.popFront stack num = some (min s.next num, phv') ∧
      Popped stack s numFields phv num phv' := by
  unfold PHV.popFront
  rw [hstack]
  by_cases hnum : num = 0
  · subst hnum
    exact ⟨phv, by simp, hs.popped_zero hstack (.inl rfl)⟩
  · obtain ⟨phv₁, phv₂, hswap, hmark, hpopped⟩ := hs.popLoops hstack hle (Nat.pos_of_ne_zero hnum)
    have hnext : s.next - min s.next num = s.next - num := by omega
    refine ⟨_, ?_, hpopped⟩
    refine Option.bind_eq_some_iff.mpr ⟨s, rfl, (if_neg hnum).trans ?_⟩
    dsimp only
    rw [hnext]
    exact Option.bind_eq_some_iff.mpr ⟨phv₁, hswap, Option.bind_eq_some_iff.mpr ⟨phv₂, hmark, rfl⟩⟩

theorem StackOf.popFrontOne_spec (hs : phv.StackOf s numFields)
    (hstack : phv.headerStacks[stack]? = some s) (hle : s.next ≤ s.headers.length) :
    ∃ phv', phv.popFrontOne stack = some (min s.next 1, phv') ∧
      Popped stack s numFields phv 1 phv' := by
  unfold PHV.popFrontOne
  rw [hstack]
  by_cases hnext : s.next = 0
  · refine ⟨phv, ?_, hs.popped_zero hstack (.inr hnext)⟩
    simp [hnext]
  · obtain ⟨phv₁, phv₂, hswap, hmark, hpopped⟩ := hs.popLoops hstack hle Nat.one_pos
    have hpopped' : min s.next 1 = 1 := by omega
    rw [hpopped', List.range'_one] at hmark
    obtain ⟨phv₃, hfirst, hend⟩ := Option.bind_eq_some_iff.mp hmark
    obtain rfl := Option.some.inj hend
    obtain ⟨x, hx, hmod⟩ := Option.bind_eq_some_iff.mp hfirst
    refine ⟨_, ?_, hpopped⟩
    refine Option.bind_eq_some_iff.mpr ⟨s, rfl, (if_neg hnext).trans ?_⟩
    rw [hpopped']
    exact Option.bind_eq_some_iff.mpr ⟨phv₁, hswap, Option.bind_eq_some_iff.mpr
      ⟨x, hx, Option.bind_eq_some_iff.mpr ⟨phv₃, hmod, rfl⟩⟩⟩

/-- The loops of `push_front`, which leave `next` headers. -/
theorem StackOf.pushLoops (hs : phv.StackOf s numFields)
    (hstack : phv.headerStacks[stack]? = some s) (hnum : 0 < num) {next : ℕ}
    (hnext : next = min s.headers.length (s.next + num)) :
    ∃ phv₁ phv₂, forPositions s (fun phv at_ i => do
          phv.swapValues (← at_ i) (← at_ (i - num))) (List.range' num (next - num)).reverse phv =
        some phv₁ ∧
      forPositions s (fun phv at_ i => do phv.modifyHeader (← at_ i) Header.markValid)
        (List.range (min s.headers.length num)) phv₁ = some phv₂ ∧
      Pushed stack s numFields phv num (phv₂.setStack stack { s with next }) := by
  obtain ⟨phv₁, hswap, hmoved⟩ := hs.swapPositions (· - num)
    (List.range' num (next - num)).reverse fun i hi => by
      have := List.mem_range'_1.mp (List.mem_reverse.mp hi)
      omega
  obtain ⟨phv₂, hmark, hmarked⟩ := hmoved.stackOf.markPositions true
    (List.range (min s.headers.length num)) fun i hi => by
      have := List.mem_range.mp hi
      omega
  refine ⟨phv₁, phv₂, hswap, hmark, ?_⟩
  have hboth := hmoved.trans hmarked
  obtain ⟨hfront, hback⟩ := towardsBack_range' hnum (phv.contentAt s) (next - num)
  have hcontent₁ : phv₁.contentAt s =
      towardsBack num (phv.contentAt s) (List.range' num (next - num)).reverse := hmoved.content
  have hcontent : ∀ j, ((phv₂.setStack stack { s with next }).contentAt s j) =
      if j ∈ List.range (min s.headers.length num) then
        (phv₁.contentAt s j).map fun c => (true, c.2) else phv₁.contentAt s j :=
    fun j => congrFun hboth.content j
  refine ⟨?_, hboth.stackOf.setStack _, hboth.frame, ?_, ?_, ?_⟩
  · rw [← hboth.headerStacks] at hstack
    rw [← hnext]
    exact getElem?_setStack hstack _
  · intro j hj
    rw [hcontent, if_neg (by rw [List.mem_range]; omega), hcontent₁]
    exact hfront j (by omega)
  · intro j hj
    obtain ⟨c, hc⟩ := content_isSome hmoved.stackOf (show j < s.headers.length by omega)
    rw [hcontent, if_pos (List.mem_range.mpr hj), hc]
    rfl
  · intro j hj
    rw [hcontent, if_neg (by rw [List.mem_range]; omega), hcontent₁]
    exact hback j (by omega)

/-- Nothing is pushed. -/
theorem StackOf.pushed_zero (hs : phv.StackOf s numFields)
    (hstack : phv.headerStacks[stack]? = some s) (hle : s.next ≤ s.headers.length) :
    Pushed stack s numFields phv 0 phv := by
  have hnext : min s.headers.length (s.next + 0) = s.next := by omega
  refine ⟨by rw [hnext, hstack], hs, rfl, ?_, ?_, fun _ _ => rfl⟩
  · intro j _
    rw [Nat.zero_add]
  · intro j hj
    omega

theorem StackOf.pushFront_spec (hs : phv.StackOf s numFields)
    (hstack : phv.headerStacks[stack]? = some s) (hle : s.next ≤ s.headers.length)
    (hdepth : 0 < s.headers.length) (hfits : s.next + num < 2 ^ 64) :
    ∃ phv', phv.pushFront stack num = some (min s.headers.length num, phv') ∧
      Pushed stack s numFields phv num phv' := by
  unfold PHV.pushFront
  rw [hstack]
  by_cases hnum : num = 0
  · subst hnum
    exact ⟨phv, by simp, hs.pushed_zero hstack hle⟩
  · have hnext : s.pushedNext num = min s.headers.length (s.next + num) := by
      rw [HeaderStack.pushedNext, Nat.mod_eq_of_lt hfits]
    obtain ⟨phv₁, phv₂, hswap, hmark, hpushed⟩ :=
      hs.pushLoops hstack (Nat.pos_of_ne_zero hnum) hnext
    have hpos : ¬ s.pushedNext num = 0 := by omega
    refine ⟨_, ?_, hpushed⟩
    refine Option.bind_eq_some_iff.mpr ⟨s, rfl, (if_neg hnum).trans ((if_neg hpos).trans ?_)⟩
    exact Option.bind_eq_some_iff.mpr ⟨phv₁, hswap, Option.bind_eq_some_iff.mpr ⟨phv₂, hmark, rfl⟩⟩

theorem StackOf.pushFrontOne_spec (hs : phv.StackOf s numFields)
    (hstack : phv.headerStacks[stack]? = some s) (hle : s.next ≤ s.headers.length)
    (hdepth : 0 < s.headers.length) :
    ∃ phv', phv.pushFrontOne stack = some (1, phv') ∧ Pushed stack s numFields phv 1 phv' := by
  unfold PHV.pushFrontOne
  rw [hstack]
  have hnext : (if s.next < s.headers.length then s.next + 1 else s.next) =
      min s.headers.length (s.next + 1) := by
    split_ifs <;> omega
  obtain ⟨phv₁, phv₂, hswap, hmark, hpushed⟩ := hs.pushLoops hstack Nat.one_pos hnext
  have hone : min s.headers.length 1 = 1 := by omega
  rw [hone, List.range_one] at hmark
  obtain ⟨phv₃, hfirst, hend⟩ := Option.bind_eq_some_iff.mp hmark
  obtain rfl := Option.some.inj hend
  obtain ⟨x, hx, hmod⟩ := Option.bind_eq_some_iff.mp hfirst
  have hpos : ¬ (if s.next < s.headers.length then s.next + 1 else s.next) = 0 := by omega
  refine ⟨_, ?_, hpushed⟩
  refine Option.bind_eq_some_iff.mpr ⟨s, rfl, (if_neg hpos).trans ?_⟩
  exact Option.bind_eq_some_iff.mpr ⟨phv₁, hswap, Option.bind_eq_some_iff.mpr
    ⟨x, hx, Option.bind_eq_some_iff.mpr ⟨phv₃, hmod, rfl⟩⟩⟩

/-- Popping and popping again. -/
theorem Popped.trans {num' : ℕ} (h : Popped stack s numFields phv num phv₁)
    (h' : Popped stack { s with next := s.next - num } numFields phv₁ num' phv₂) :
    Popped stack s numFields phv (num + num') phv₂ := by
  have hsame : ∀ j, phv₂.contentAt { s with next := s.next - num } j = phv₂.contentAt s j :=
    fun _ => rfl
  refine ⟨?_, ⟨h'.stackOf.nodup, h'.stackOf.header⟩, h'.frame.trans h.frame, ?_, ?_, ?_⟩
  · rw [h'.headerStack, Nat.sub_sub]
  · intro j hj
    have hsecond := h'.kept j (show j + num' < s.next - num by omega)
    rw [← hsame, hsecond]
    exact (h.kept (j + num') (by omega)).trans (by rw [Nat.add_right_comm, Nat.add_assoc])
  · intro j hj hlt
    by_cases hsecond : j < s.next - num
    · exact h'.gone j (show s.next - num - num' ≤ j by omega) hsecond
    · have hrest := h'.rest j (Nat.not_lt.mp hsecond)
      rw [← hsame, hrest]
      exact h.gone j (by omega) hlt
  · intro j hj
    have hrest := h'.rest j (show s.next - num ≤ j by omega)
    rw [← hsame, hrest]
    exact h.rest j hj

/-- Pushing and pushing again. -/
theorem Pushed.trans {num' : ℕ} (h : Pushed stack s numFields phv num phv₁)
    (h' : Pushed stack { s with next := min s.headers.length (s.next + num) } numFields phv₁ num'
      phv₂) : Pushed stack s numFields phv (num + num') phv₂ := by
  have hnext : min s.headers.length (min s.headers.length (s.next + num) + num') =
      min s.headers.length (s.next + (num + num')) := by omega
  have hkept : ∀ j, num' + j < min s.headers.length (s.next + (num + num')) →
      phv₂.contentAt s (num' + j) = phv₁.contentAt s j := fun j hj => h'.kept j (hnext ▸ hj)
  refine ⟨?_, ⟨h'.stackOf.nodup, h'.stackOf.header⟩, h'.frame.trans h.frame, ?_, ?_, ?_⟩
  · exact h'.headerStack.trans (congrArg some (congrArg (HeaderStack.mk s.headers) hnext))
  · intro j hj
    have hshift : num + num' + j = num' + (num + j) := by omega
    rw [hshift, hkept _ (by omega)]
    exact h.kept j (by omega)
  · intro j hj
    by_cases hsecond : j < min s.headers.length num'
    · exact h'.new j hsecond
    · obtain ⟨k, rfl⟩ : ∃ k, j = num' + k := ⟨j - num', by omega⟩
      rw [hkept k (by omega)]
      exact h.new k (by omega)
  · intro j hj
    have hrest : phv₂.contentAt s j = phv₁.contentAt s j :=
      h'.rest j (show max num' (min s.headers.length _) ≤ j by rw [hnext]; omega)
    rw [hrest]
    exact h.rest j (by omega)

end PHV

end Bmv2
