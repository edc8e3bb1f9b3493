import Bmv2.Lib.Sliding
import Bmv2.Packet.Stacks

/-! What the loops of the stack operations move: the validity and the values of headers, at fixed
places of the stack. Everything else of a header stays where it is. -/
namespace Bmv2
open ByteBits Sliding

/-- What `swap_values` moves: the validity, and the number and bytes of each field. -/
abbrev HeaderContent := Bool × List (ℤ × List Byte)

namespace Header

variable {h g : Header}

def content (h : Header) : HeaderContent :=
  (h.valid, h.fields.map fun f => (f.value, f.bytes))

/-- What stays with an instance. -/
def frame (h : Header) : Header :=
  { h with valid := false, fields := h.fields.map fun f => { f with value := 0, bytes := [] } }

theorem content_withValues (hlen : h.fields.length = g.fields.length) :
    (h.withValues g).content = g.content := by
  unfold content withValues
  refine Prod.ext rfl ?_
  dsimp only
  apply List.ext_getElem
  · simp [hlen]
  · intro i hi hi'
    simp [Field.withValues]

theorem frame_withValues (hlen : h.fields.length = g.fields.length) :
    (h.withValues g).frame = h.frame := by
  unfold frame withValues
  dsimp only
  congr 1
  apply List.ext_getElem
  · simp [hlen]
  · intro i hi hi'
    simp [Field.withValues]

@[simp] theorem length_withValues (hlen : h.fields.length = g.fields.length) :
    (h.withValues g).fields.length = h.fields.length := by
  simp [withValues, hlen]

end Header

namespace PHV

variable {phv phv' : PHV} {s : HeaderStack} {numFields : ℕ}

/-- The content of the header at a place of a stack. -/
def contentAt (phv : PHV) (s : HeaderStack) (i : ℕ) : Option HeaderContent := do
  let x ← s.headers[i]?
  (phv.headers[x]?).map Header.content

/-- What stays with the header at a place of a stack. -/
def frameAt (phv : PHV) (s : HeaderStack) (i : ℕ) : Option Header := do
  let x ← s.headers[i]?
  (phv.headers[x]?).map Header.frame

/-- The headers of a stack are distinct headers of the PHV with the same number of fields. -/
structure StackOf (phv : PHV) (s : HeaderStack) (numFields : ℕ) : Prop where
  nodup : s.headers.Nodup
  header : ∀ x ∈ s.headers, ∃ h, phv.headers[x]? = some h ∧ h.fields.length = numFields

/-- The headers of a stack after an operation that leaves the contents `v`. -/
structure Moved (s : HeaderStack) (numFields : ℕ) (phv : PHV) (v : ℕ → Option HeaderContent)
    (phv' : PHV) : Prop where
  stackOf : phv'.StackOf s numFields
  content : phv'.contentAt s = v
  frame : phv'.frameAt s = phv.frameAt s
  headerStacks : phv'.headerStacks = phv.headerStacks

theorem StackOf.moved (hs : phv.StackOf s numFields) :
    Moved s numFields phv (phv.contentAt s) phv :=
  ⟨hs, rfl, rfl, rfl⟩

theorem Moved.trans {phv₁ phv₂ phv₃ : PHV} {v₂ v₃ : ℕ → Option HeaderContent}
    (h : Moved s numFields phv₁ v₂ phv₂) (h' : Moved s numFields phv₂ v₃ phv₃) :
    Moved s numFields phv₁ v₃ phv₃ :=
  ⟨h'.stackOf, h'.content, h'.frame.trans h.frame, h'.headerStacks.trans h.headerStacks⟩

/-- The places other than `i` have other headers. -/
theorem StackOf.ne_of_ne (hs : phv.StackOf s numFields) {i j x y : ℕ}
    (hi : s.headers[i]? = some x) (hj : s.headers[j]? = some y) (hne : i ≠ j) : x ≠ y := by
  rintro rfl
  have hlt := (List.getElem?_eq_some_iff.mp hi).1
  exact hne ((List.getElem?_inj hlt hs.nodup).mp (hi.trans hj.symm))

theorem getElem?_setHeader (phv : PHV) (x y : ℕ) (h : Header) :
    (phv.setHeader x h).headers[y]? =
      if x = y then (phv.headers[x]?).map fun _ => h else phv.headers[y]? := by
  unfold setHeader
  by_cases hxy : x = y
  · subst hxy
    rw [if_pos rfl, List.getElem?_set_self']
    rfl
  · rw [if_neg hxy, List.getElem?_set_ne hxy]

/-- One header of a stack changes, in its content only. -/
theorem StackOf.setHeader (hs : phv.StackOf s numFields) {i x : ℕ} {h : Header} (h' : Header)
    (hi : s.headers[i]? = some x) (hx : phv.headers[x]? = some h)
    (hlen : h'.fields.length = h.fields.length) (hframe : h'.frame = h.frame) :
    Moved s numFields phv (fun k => if k = i then some h'.content else phv.contentAt s k)
      (phv.setHeader x h') := by
  have hget : ∀ y, (phv.setHeader x h').headers[y]? =
      if x = y then some h' else phv.headers[y]? := by
    intro y
    rw [getElem?_setHeader, hx]
    rfl
  refine ⟨⟨hs.nodup, ?_⟩, ?_, ?_, rfl⟩
  · intro y hy
    obtain ⟨g, hg, hnum⟩ := hs.header y hy
    rw [hget]
    by_cases hxy : x = y
    · subst hxy
      obtain rfl : h = g := Option.some.inj (hx.symm.trans hg)
      exact ⟨h', if_pos rfl, hlen.trans hnum⟩
    · exact ⟨g, (if_neg hxy).trans hg, hnum⟩
  · funext k
    unfold contentAt
    by_cases hk : k = i
    · subst hk
      rw [hi, if_pos rfl, Option.bind_eq_bind, Option.bind_some, hget, if_pos rfl]
      rfl
    · rw [if_neg hk]
      cases hy : s.headers[k]? with
      | none => rfl
      | some y =>
        rw [Option.bind_eq_bind, Option.bind_some, hget,
          if_neg (hs.ne_of_ne hi hy (Ne.symm hk))]
        rfl
  · funext k
    unfold frameAt
    cases hy : s.headers[k]? with
    | none => rfl
    | some y =>
      simp only [Option.bind_eq_bind, Option.bind_some]
      rw [hget]
      by_cases hxy : x = y
      · subst hxy
        rw [if_pos rfl, hx, Option.map_some, Option.map_some, hframe]
      · rw [if_neg hxy]

theorem StackOf.swapValues (hs : phv.StackOf s numFields) {i j x y : ℕ}
    (hi : s.headers[i]? = some x) (hj : s.headers[j]? = some y) (hne : i ≠ j) :
    ∃ phv', phv.swapValues x y = some phv' ∧
      Moved s numFields phv (phv.contentAt s ∘ Equiv.swap i j) phv' := by
  obtain ⟨h1, hx, hlen1⟩ := hs.header x (List.mem_of_getElem? hi)
  obtain ⟨h2, hy, hlen2⟩ := hs.header y (List.mem_of_getElem? hj)
  have hlen : h1.fields.length = h2.fields.length := hlen1.trans hlen2.symm
  have hxy := hs.ne_of_ne hi hj hne
  have hfirst := hs.setHeader (h1.withValues h2) hi hx (Header.length_withValues hlen)
    (Header.frame_withValues hlen)
  have hy' : (phv.setHeader x (h1.withValues h2)).headers[y]? = some h2 := by
    rw [getElem?_setHeader, if_neg hxy, hy]
  have hsecond := hfirst.stackOf.setHeader (h2.withValues h1) hj hy'
    (Header.length_withValues hlen.symm)
    (Header.frame_withValues hlen.symm)
  refine ⟨(phv.setHeader x (h1.withValues h2)).setHeader y (h2.withValues h1), ?_, ?_⟩
  · unfold PHV.swapValues
    rw [hx, hy]
    rfl
  · have hboth := hfirst.trans hsecond
    have hcontent : (fun k => if k = j then some (h2.withValues h1).content
        else (phv.setHeader x (h1.withValues h2)).contentAt s k) =
        phv.contentAt s ∘ Equiv.swap i j := by
      have hci : phv.contentAt s i = some h1.content := by
        rw [contentAt, hi, Option.bind_eq_bind, Option.bind_some, hx, Option.map_some]
      have hcj : phv.contentAt s j = some h2.content := by
        rw [contentAt, hj, Option.bind_eq_bind, Option.bind_some, hy, Option.map_some]
      funext k
      rw [hfirst.content, Header.content_withValues hlen, Header.content_withValues hlen.symm,
        Function.comp_apply, Equiv.swap_apply_def]
      dsimp only
      by_cases hkj : k = j
      · rw [if_pos hkj, if_neg (by omega), if_pos hkj, hci]
      · rw [if_neg hkj]
        by_cases hki : k = i
        · rw [if_pos hki, if_pos hki, hcj]
        · rw [if_neg hki, if_neg hki, if_neg hkj]
    rwa [hcontent] at hboth

/-- The loops that swap each place with another one. -/
theorem StackOf.swapPositions (hs : phv.StackOf s numFields) (t : ℕ → ℕ) (positions : List ℕ)
    (hin : ∀ i ∈ positions, i < s.headers.length ∧ t i < s.headers.length ∧ i ≠ t i) :
    ∃ phv', forPositions s (fun phv at_ i => do phv.swapValues (← at_ i) (← at_ (t i)))
        positions phv = some phv' ∧
      Moved s numFields phv
        (positions.foldl (fun v i => v ∘ Equiv.swap i (t i)) (phv.contentAt s)) phv' := by
  induction positions generalizing phv with
  | nil => exact ⟨phv, rfl, hs.moved⟩
  | cons i positions ih =>
    obtain ⟨⟨hi, hti, hne⟩, hrest⟩ := List.forall_mem_cons.mp hin
    have hx := List.getElem?_eq_getElem hi
    have hy := List.getElem?_eq_getElem hti
    obtain ⟨phv₁, hswap, hmoved⟩ := hs.swapValues hx hy hne
    obtain ⟨phv₂, hloop, hmoved'⟩ := ih hmoved.stackOf hrest
    refine ⟨phv₂, ?_, ?_⟩
    · simp only [forPositions, hx, hy, hswap, Option.bind_eq_bind, Option.bind_some]
      exact hloop
    · rw [hmoved.content] at hmoved'
      exact hmoved.trans hmoved'

/-- A header is marked valid, or not valid. -/
theorem StackOf.markAt (hs : phv.StackOf s numFields) (b : Bool) {i x : ℕ}
    (hi : s.headers[i]? = some x) :
    ∃ phv', phv.modifyHeader x (fun h => { h with valid := b }) = some phv' ∧
      Moved s numFields phv
        (fun k => if k = i then (phv.contentAt s k).map fun c => (b, c.2) else phv.contentAt s k)
        phv' := by
  obtain ⟨h, hx, hlen⟩ := hs.header x (List.mem_of_getElem? hi)
  refine ⟨phv.setHeader x { h with valid := b }, ?_, ?_⟩
  · unfold modifyHeader
    rw [hx]
    rfl
  · have hmoved := hs.setHeader { h with valid := b } hi hx rfl rfl
    have hcontent : (fun k => if k = i then
        (some ({ h with valid := b } : Header).content) else phv.contentAt s k) =
        fun k => if k = i then (phv.contentAt s k).map fun c => (b, c.2)
          else phv.contentAt s k := by
      funext k
      by_cases hk : k = i
      · rw [if_pos hk, if_pos hk, hk, contentAt, hi, Option.bind_eq_bind, Option.bind_some, hx]
        rfl
      · rw [if_neg hk, if_neg hk]
    rwa [hcontent] at hmoved

/-- The loops that mark places valid, or not valid. -/
theorem StackOf.markPositions (hs : phv.StackOf s numFields) (b : Bool) (positions : List ℕ)
    (hin : ∀ i ∈ positions, i < s.headers.length) :
    ∃ phv', forPositions s (fun phv at_ i => do
        phv.modifyHeader (← at_ i) fun h => { h with valid := b }) positions phv = some phv' ∧
      Moved s numFields phv
        (fun k => if k ∈ positions then (phv.contentAt s k).map fun c => (b, c.2)
          else phv.contentAt s k) phv' := by
  induction positions generalizing phv with
  | nil => exact ⟨phv, rfl, by simpa using hs.moved⟩
  | cons i positions ih =>
    obtain ⟨hi, hrest⟩ := List.forall_mem_cons.mp hin
    have hx := List.getElem?_eq_getElem hi
    obtain ⟨phv₁, hmark, hmoved⟩ := hs.markAt b hx
    obtain ⟨phv₂, hloop, hmoved'⟩ := ih hmoved.stackOf hrest
    refine ⟨phv₂, ?_, ?_⟩
    · simp only [forPositions, hx, hmark, Option.bind_eq_bind, Option.bind_some]
      exact hloop
    · have hboth := hmoved.trans hmoved'
      rw [hmoved.content] at hboth
      have hcontent : (fun k => if k ∈ i :: positions then
          (phv.contentAt s k).map fun c => (b, c.2) else phv.contentAt s k) =
          fun k => if k ∈ positions then
            (if k = i then (phv.contentAt s k).map fun c => (b, c.2)
              else phv.contentAt s k).map fun c => (b, c.2)
          else if k = i then (phv.contentAt s k).map fun c => (b, c.2)
            else phv.contentAt s k := by
        funext k
        by_cases hk : k = i <;> by_cases hmem : k ∈ positions <;>
          simp [hk, hmem, Function.comp_def]
      rwa [hcontent]

end PHV

end Bmv2
