import Bmv2.Packet.SameLive

/-! Header stacks of PHVs that hold the same where it counts. Popping moves values between
headers; pushing also makes headers valid, without defining what is in them. -/
namespace Bmv2
open Bisimulation

namespace PHV

/-- The headers of a stack may take each other's values. -/
def StackKin (phv : PHV) (s : HeaderStack) : Prop :=
  ∀ i ∈ s.headers, ∀ j ∈ s.headers, ∀ h g, phv.headers[i]? = some h → phv.headers[j]? = some g →
    h.Kin g

/-- The header in one place of a stack is valid, if there is one. -/
def ValidAt (phv : PHV) (s : HeaderStack) (p : ℕ) : Prop :=
  ∀ i, s.headers[p]? = some i → ∀ h, phv.headers[i]? = some h → h.isValid

variable {phv₀ phv phv' : PHV} {s : HeaderStack} {h g h₀ g₀ : Header} {i j stack num n k p : ℕ}

/-- What a header is made from says for which fields arithmetic is enabled. -/
theorem like_kin (hl : h₀.Like h) (hl' : g₀.Like g) : h.Kin g ↔ h₀.Kin g₀ := by
  have arith_eq : ∀ {a₀ a : Header}, a₀.Like a →
      a.fields.map (·.arith) = a₀.fields.map (·.arith) := by
    intro a₀ a hla
    have hfields := hla.fields
    generalize a₀.fields = fs₀ at hfields
    generalize a.fields = fs at hfields
    induction hfields with
    | nil => rfl
    | cons hf _ ih =>
      have hflag := Field.SameShape.arith_eq hf
      rw [List.map_cons, List.map_cons, ih, hflag]
      rfl
  constructor
  · rintro ⟨hmeta, harith⟩
    refine ⟨?_, ?_⟩
    · rw [← hl.metadata, hmeta, hl'.metadata]
    · rw [← arith_eq hl, harith, arith_eq hl']
  · rintro ⟨hmeta, harith⟩
    refine ⟨?_, ?_⟩
    · rw [hl.metadata, hmeta, hl'.metadata]
    · rw [arith_eq hl, harith, arith_eq hl']

/-- So it says which headers may take each other's values. -/
theorem Like.stackKin (hl : Like phv₀ phv) (hkin : phv.StackKin s) : phv₀.StackKin s := by
  intro i hi j hj h₀ g₀ hk hk'
  have hrel := Related.getElem? hl.headers i
  have hrel' := Related.getElem? hl.headers j
  rw [hk] at hrel
  rw [hk'] at hrel'
  cases hx : phv.headers[i]? with
  | none =>
    rw [hx] at hrel
    cases hrel
  | some h =>
    cases hy : phv.headers[j]? with
    | none =>
      rw [hy] at hrel'
      cases hrel'
    | some g =>
      rw [hx] at hrel
      rw [hy] at hrel'
      cases hrel with
      | some hlike =>
        cases hrel' with
        | some hlike' => exact (like_kin hlike hlike').mp (hkin i hi j hj h g hx hy)

theorem Like.kinStack (hl : Like phv₀ phv) (hkin : phv₀.StackKin s) : phv.StackKin s := by
  intro i hi j hj h g hk hk'
  obtain ⟨h₀, hk₀, hlike⟩ := hl.header hk
  obtain ⟨g₀, hk₀', hlike'⟩ := hl.header hk'
  exact (like_kin hlike hlike').mpr (hkin i hi j hj h₀ g₀ hk₀ hk₀')

/-- PHVs that hold the same where it counts, of which the first is made from `phv₀` and has the
stack as it was. -/
structure LiveWith (phv₀ : PHV) (stack : ℕ) (s : HeaderStack) (phv phv' : PHV) : Prop where
  live : phv.SameLive phv'
  like : LikeWith phv₀ stack s phv

namespace LiveWith

theorem swapValues (ht : phv₀.TypedStacks) (hkin : phv₀.StackKin s)
    (hw : LiveWith phv₀ stack s phv phv') (hi : i ∈ s.headers) (hj : j ∈ s.headers) :
    Related (LiveWith phv₀ stack s) (phv.swapValues i j) (phv'.swapValues i j) := by
  obtain ⟨hlive, hlike⟩ := hw
  have hfit : ∀ h g, phv.headers[i]? = some h → phv.headers[j]? = some g →
      h.widths = g.widths ∧ h.Kin g := by
    intro h g hk hk'
    obtain ⟨h₀, hk₀, hl⟩ := hlike.1.header hk
    have hvl : h.vl = none := by
      have hrel := hlive.header i
      rw [hk] at hrel
      generalize phv'.headers[i]? = x at hrel
      cases hrel with
      | some hs => exact hs.not_vl
    have hfixed := (hlike.1.stackHeaders ht hlike.2 hi hj hk hk').2 h₀ hk₀ (hl.vl.symm.trans hvl)
    exact ⟨hfixed.1, hlike.1.kinStack hkin i hi j hj h g hk hk'⟩
  exact (hlive.swapValues hfit).imp_of_eq fun phv1 _ hswap h =>
    ⟨h, hlike.swapValues ht hi hj hswap⟩

theorem modifyHeader (hw : LiveWith phv₀ stack s phv phv') {u : Header → Header}
    (hu₀ : ∀ h₀ h : Header, h₀.Like h → h₀.Like (u h))
    (hu : ∀ h g, phv.headers[i]? = some h → h.SameLive g → (u h).SameLive (u g)) :
    Related (LiveWith phv₀ stack s) (phv.modifyHeader i u) (phv'.modifyHeader i u) :=
  (hw.live.modifyHeader hu).imp_of_eq fun _ _ hmod h => ⟨h, hw.like.modifyHeader hu₀ hmod⟩

theorem swapPositions (ht : phv₀.TypedStacks) (hkin : phv₀.StackKin s)
    (hw : LiveWith phv₀ stack s phv phv') (b : ℕ → ℕ) (positions : List ℕ) :
    Related (LiveWith phv₀ stack s)
      (forPositions s (fun phv at_ i => do phv.swapValues (← at_ i) (← at_ (b i))) positions phv)
      (forPositions s (fun phv at_ i => do phv.swapValues (← at_ i) (← at_ (b i))) positions
        phv') :=
  related_forPositions (fun _ _ _ _ hw => .same _ fun _ hx => .same _ fun _ hy =>
    hw.swapValues ht hkin (List.mem_of_getElem? hx) (List.mem_of_getElem? hy)) hw

end LiveWith

/-- Headers are popped from both stacks. What is in the headers behind them counts no longer. -/
theorem SameLive.popFront (hs : phv.SameLive phv') (hl : Like phv₀ phv) (ht : phv₀.TypedStacks)
    (hkin : ∀ s, phv.headerStacks[stack]? = some s → phv.StackKin s) :
    Related (Answers SameLive) (phv.popFront stack num) (phv'.popFront stack num) := by
  unfold PHV.popFront
  rw [← hs.headerStacks]
  refine .same _ fun s hk => .ite (fun _ => .some ⟨rfl, hs⟩) fun _ => ?_
  have hw : LiveWith phv₀ stack s phv phv' := ⟨hs, hl, hk⟩
  refine .bind (hw.swapPositions ht (hl.stackKin (hkin s hk)) (· + num) _) fun _ _ hw => ?_
  refine .bind (related_forPositions (R := LiveWith phv₀ stack s) ?_ hw) fun _ _ hw =>
    .some ⟨rfl, hw.live.setStack _ _⟩
  intro _ _ i _ hw
  exact .same _ fun _ _ => hw.modifyHeader like_markInvalid fun _ _ _ hh => hh.markInvalid

/-- Where a swap puts what was in its first header; the headers of other places stay. -/
theorem headers_swapValues (h : phv.swapValues i j = some phv') :
    ∃ a b, phv.headers[i]? = some a ∧ phv.headers[j]? = some b ∧
      phv'.headers[j]? = some (b.withValues a) ∧
      ∀ k, k ≠ i → k ≠ j → phv'.headers[k]? = phv.headers[k]? := by
  obtain ⟨a, ha, h⟩ := Option.bind_eq_some_iff.mp h
  obtain ⟨b, hb, h⟩ := Option.bind_eq_some_iff.mp h
  obtain rfl := Option.some.inj h
  refine ⟨a, b, ha, hb, ?_, fun k hi hj => ?_⟩
  · unfold PHV.setHeader
    have hlt : j < phv.headers.length := List.getElem?_eq_some_iff.mp hb |>.1
    exact List.getElem?_set_self (by rw [List.length_set]; exact hlt)
  · unfold PHV.setHeader
    rw [List.getElem?_set_ne (Ne.symm hj), List.getElem?_set_ne (Ne.symm hi)]

/-- One swap of `push_front`: `num` headers that are valid are now one position further down. -/
theorem ValidAt.swap (hnodup : s.headers.Nodup) (hkin : phv.StackKin s)
    (hi : s.headers[num + k]? = some i) (hj : s.headers[k]? = some j)
    (hswap : phv.swapValues i j = some phv')
    (hv : ∀ p, k + 1 ≤ p → p < k + 1 + num → phv.ValidAt s p) :
    ∀ p, k ≤ p → p < k + num → phv'.ValidAt s p := by
  obtain ⟨a, b, ha, hb, hnew, hother⟩ := headers_swapValues hswap
  intro p hle hlt x hx h hk
  by_cases hp : p = k
  · subst hp
    obtain rfl := Option.some.inj (hj.symm.trans hx)
    obtain rfl := Option.some.inj (hnew.symm.trans hk)
    have hvalid := hv (num + p) (by omega) (by omega) i hi a ha
    have hmeta := (hkin j (List.mem_of_getElem? hj) i (List.mem_of_getElem? hi) b a hb ha).metadata
    unfold Header.isValid Header.withValues at *
    rwa [hmeta]
  · have hdistinct : ∀ {q y : ℕ}, s.headers[q]? = some y → p ≠ q → x ≠ y := by
      rintro q y hy hne rfl
      have hin := List.getElem?_eq_some_iff.mp hx |>.1
      exact hne ((List.getElem?_inj hin hnodup).mp (hx.trans hy.symm))
    rw [hother x (hdistinct hi (by omega)) (hdistinct hj hp)] at hk
    exact hv p (by omega) (by omega) x hx h hk

/-- The loop of `push_front` over the positions, by induction on how many of them there are. -/
theorem LiveWith.pushPositions (ht : phv₀.TypedStacks) (hkin : phv₀.StackKin s)
    (hnodup : s.headers.Nodup) (hw : LiveWith phv₀ stack s phv phv')
    (hv : ∀ p, k ≤ p → p < k + num → phv.ValidAt s p) :
    Related (fun phv phv' => LiveWith phv₀ stack s phv phv' ∧ ∀ p < num, phv.ValidAt s p)
      (forPositions s (fun phv at_ i => do phv.swapValues (← at_ i) (← at_ (i - num)))
        (List.range' num k).reverse phv)
      (forPositions s (fun phv at_ i => do phv.swapValues (← at_ i) (← at_ (i - num)))
        (List.range' num k).reverse phv') := by
  induction k generalizing phv phv' with
  | zero => exact .some ⟨hw, fun p hp => hv p (Nat.zero_le p) (by omega)⟩
  | succ k ih =>
    rw [List.range'_1_concat, List.reverse_append, List.reverse_singleton, List.singleton_append]
    have hswap : Related (fun phv1 phv1' => LiveWith phv₀ stack s phv1 phv1' ∧
        ∀ p, k ≤ p → p < k + num → phv1.ValidAt s p)
        (do phv.swapValues (← s.headers[num + k]?) (← s.headers[num + k - num]?))
        (do phv'.swapValues (← s.headers[num + k]?) (← s.headers[num + k - num]?)) := by
      refine .same _ fun x hx => .same _ fun y hy => ?_
      rw [Nat.add_sub_cancel_left] at hy
      have hrel := hw.swapValues ht hkin (List.mem_of_getElem? hx) (List.mem_of_getElem? hy)
      exact hrel.imp_of_eq fun phv1 phv1' hswap hw1 =>
        ⟨hw1, ValidAt.swap hnodup (hw.like.1.kinStack hkin) hx hy hswap hv⟩
    exact .bind hswap fun phv1 phv1' h1 => ih h1.1 h1.2

/-- A header that is marked valid leaves the others as valid as they were. -/
theorem ValidAt.markValid (hmod : phv.modifyHeader i Header.markValid = some phv')
    (hv : phv.ValidAt s p) : phv'.ValidAt s p := by
  obtain ⟨a, ha, hmod⟩ := Option.bind_eq_some_iff.mp hmod
  obtain rfl := Option.some.inj hmod
  intro x hx h hk
  unfold PHV.setHeader at hk
  by_cases hi : i = x
  · subst hi
    rw [List.getElem?_set_self', ha] at hk
    obtain rfl : a.markValid = h := Option.some.inj hk
    unfold Header.isValid Header.markValid
    rw [Bool.or_true]
  · rw [List.getElem?_set_ne hi] at hk
    exact hv x hx h hk

/-- Headers are pushed to both stacks. These are headers that were valid before: the last ones
that there are afterwards, if they are not pushed out. -/
theorem SameLive.pushFront (hs : phv.SameLive phv') (hl : Like phv₀ phv) (ht : phv₀.TypedStacks)
    (hclean : ∀ s, phv.headerStacks[stack]? = some s → phv.StackKin s ∧
      ∀ p, s.pushedNext num - num ≤ p → p < s.pushedNext num - num + num → phv.ValidAt s p) :
    Related (Answers SameLive) (phv.pushFront stack num) (phv'.pushFront stack num) := by
  unfold PHV.pushFront
  rw [← hs.headerStacks]
  refine .same _ fun s hk => .ite (fun _ => .some ⟨rfl, hs⟩) fun _ => ?_
  refine .ite (fun _ => .none) fun _ => ?_
  obtain ⟨hkin, hvalid⟩ := hclean s hk
  obtain ⟨s₀, hs₀, heq⟩ := hl.headerStack hk
  have hnodup : s.headers.Nodup := heq ▸ ht.nodup s₀ hs₀
  have hw : LiveWith phv₀ stack s phv phv' := ⟨hs, hl, hk⟩
  refine .bind (hw.pushPositions ht (hl.stackKin hkin) hnodup hvalid) fun _ _ h1 => ?_
  refine .bind (related_forPositions (R := fun phv phv' => LiveWith phv₀ stack s phv phv' ∧
    ∀ p < num, phv.ValidAt s p) ?_ h1) fun _ _ h2 => .some ⟨rfl, h2.1.live.setStack _ _⟩
  rintro phv1 phv1' p hp ⟨hw1, hv1⟩
  refine .same _ fun i hi => ?_
  have hmark := hw1.modifyHeader (u := Header.markValid) like_markValid fun h g hk hh =>
    hh.markValid (hv1 p (by rw [List.mem_range] at hp; omega) i hi h hk)
  exact hmark.imp_of_eq fun _ _ hmod hw2 => ⟨hw2, fun q hq => (hv1 q hq).markValid hmod⟩

/-- The header that is marked valid is valid already. -/
theorem SameLive.pushBack (hs : phv.SameLive phv')
    (hv : ∀ i, phv.stackNext stack = some i → ∀ h, phv.headers[i]? = some h → h.isValid) :
    Related (Answers SameLive) (phv.pushBack stack) (phv'.pushBack stack) := by
  unfold PHV.pushBack
  rw [← hs.headerStacks]
  refine .same _ fun s hk => .ite (fun _ => .some ⟨rfl, hs⟩) fun _ => .same _ fun i hi => ?_
  have hnext : phv.stackNext stack = some i := by
    unfold PHV.stackNext
    rw [hk]
    exact hi
  refine .bind (hs.modifyHeader fun h g hk hh => hh.markValid (hv i hnext h hk)) fun _ _ hs1 => ?_
  exact .some ⟨rfl, hs1.setStack _ _⟩

end PHV

end Bmv2
