import Bmv2.Packet.StackRuns
import Bmv2.Packet.VLHeaders

/-! Stacks of headers with a variable-length field: headers are parsed into the stack, and then
moved in it. What is moved does not include the widths. -/
namespace Bmv2
open ByteBits

namespace Header

variable {h h' g : Header}

theorem sizes_frame (h : Header) : h.frame.sizes = h.sizes := by
  unfold sizes frame
  rw [List.map_map]
  rfl

theorem sizes_of_frame (hframe : h.frame = g.frame) :
    h.sizes = g.sizes ∧ h.nbytesPacket = g.nbytesPacket := by
  have hsize : h.frame.nbytesPacket = g.frame.nbytesPacket := by rw [hframe]
  exact ⟨by rw [← sizes_frame, hframe, sizes_frame], hsize⟩

/-- A header that gets the content of another one of its sizes looks like that one. -/
theorem wire_of_content (hcontent : h'.content = h.content) (hsizes : h'.sizes = h.sizes) :
    h'.fields.map Field.wire = h.fields.map Field.wire := by
  have hvalues := congrArg (List.map Prod.snd) (congrArg Prod.snd hcontent)
  have hpair : ∀ fields : List Field, fields.map Field.wire =
      List.zipWith (fun size bytes => (size.1, size.2, bytes))
        (fields.map fun f => (f.nbits, f.nbytes)) (fields.map Field.bytes) := by
    intro fields
    rw [List.zipWith_map, List.zipWith_self]
    rfl
  simp only [content, List.map_map] at hvalues
  rw [hpair, hpair]
  exact congrArg₂ _ hsizes hvalues

end Header

namespace PHV

variable {phv phv' : PHV} {s : HeaderStack} {stack numFields : ℕ} {h h' g : Header}

/-- The header at a place of a stack. -/
def headerAt (phv : PHV) (s : HeaderStack) (i : ℕ) : Option Header := do
  let x ← s.headers[i]?
  phv.headers[x]?

theorem contentAt_eq (phv : PHV) (s : HeaderStack) (i : ℕ) :
    phv.contentAt s i = (phv.headerAt s i).map Header.content := by
  unfold contentAt headerAt
  cases s.headers[i]? <;> rfl

theorem frameAt_eq (phv : PHV) (s : HeaderStack) (i : ℕ) :
    phv.frameAt s i = (phv.headerAt s i).map Header.frame := by
  unfold frameAt headerAt
  cases s.headers[i]? <;> rfl

theorem headerAt_setHeader (hs : phv.StackOf s numFields) {i x : ℕ}
    (hi : s.headers[i]? = some x) (hx : phv.headers[x]? = some h) (k : ℕ) :
    (phv.setHeader x h').headerAt s k = if k = i then some h' else phv.headerAt s k := by
  unfold headerAt
  by_cases hk : k = i
  · subst hk
    rw [hi, if_pos rfl, Option.bind_eq_bind, Option.bind_some, getElem?_setHeader, if_pos rfl, hx]
    rfl
  · rw [if_neg hk]
    cases hy : s.headers[k]? with
    | none => rfl
    | some y =>
      rw [Option.bind_eq_bind, Option.bind_some, getElem?_setHeader,
        if_neg (hs.ne_of_ne hi hy (Ne.symm hk))]
      rfl

theorem StackOf.putHeader (hs : phv.StackOf s numFields) {x : ℕ} (hx : phv.headers[x]? = some h)
    (hlen : h'.fields.length = h.fields.length) : (phv.setHeader x h').StackOf s numFields := by
  refine ⟨hs.nodup, fun y hy => ?_⟩
  obtain ⟨g, hg, hnum⟩ := hs.header y hy
  rw [getElem?_setHeader]
  by_cases hxy : x = y
  · subst hxy
    obtain rfl : h = g := Option.some.inj (hx.symm.trans hg)
    exact ⟨h', by rw [if_pos rfl, hx, Option.map_some], hlen.trans hnum⟩
  · exact ⟨g, (if_neg hxy).trans hg, hnum⟩

/-- A header that is moved to a place keeps what it had, but for what stays at the place. -/
theorem headerAt_of_content {i j : ℕ} (hcontent : phv'.contentAt s j = phv.contentAt s i)
    (hframe : phv'.frameAt s = phv.frameAt s) (hh : phv.headerAt s i = some h) :
    ∃ h' g, phv'.headerAt s j = some h' ∧ phv.headerAt s j = some g ∧ h'.content = h.content ∧
      h'.frame = g.frame := by
  have hframe := congrFun hframe j
  rw [contentAt_eq, contentAt_eq, hh, Option.map_some] at hcontent
  obtain ⟨h', hh', hcontent⟩ := Option.map_eq_some_iff.mp hcontent
  rw [frameAt_eq, frameAt_eq, hh', Option.map_some] at hframe
  obtain ⟨g, hg, hframe⟩ := Option.map_eq_some_iff.mp hframe.symm
  exact ⟨h', g, hh', hg, hcontent, hframe.symm⟩

/-- The packet may change, but not the stack and its headers. -/
def SameStack (phv : PHV) (stack : ℕ) (phv' : PHV) : Prop :=
  phv'.headerStacks[stack]? = phv.headerStacks[stack]? ∧
    ∀ s, phv.headerStacks[stack]? = some s → ∀ x ∈ s.headers, phv'.headers[x]? = phv.headers[x]?

/-- A stack whose headers in use carry the bytes in `live`, where these are known. -/
structure CarriedStack (stack numFields : ℕ) (phv : PHV) (live : List (Option (List Byte)))
    (s : HeaderStack) : Prop extends phv.StackOf s numFields where
  headerStack : phv.headerStacks[stack]? = some s
  next_le : s.next ≤ s.headers.length
  depth_pos : 0 < s.headers.length
  length_live : live.length = s.next
  carried : ∀ i b, live[i]? = some (some b) → ∃ h, phv.headerAt s i = some h ∧ h.Carries b

/-- Headers of a stack that are equally long have the same sizes. -/
def SizesFit (phv : PHV) (s : HeaderStack) : Prop :=
  ∀ i j g h, phv.headerAt s i = some g → phv.headerAt s j = some h →
    g.nbytesPacket = h.nbytesPacket → g.sizes = h.sizes

theorem SizesFit.of_frame (hfit : phv.SizesFit s) (hframe : phv'.frameAt s = phv.frameAt s) :
    phv'.SizesFit s := by
  have hold : ∀ i g', phv'.headerAt s i = some g' →
      ∃ g, phv.headerAt s i = some g ∧ g'.frame = g.frame := by
    intro i g' hg'
    have hframe := congrFun hframe i
    rw [frameAt_eq, frameAt_eq, hg', Option.map_some] at hframe
    obtain ⟨g, hg, hframe⟩ := Option.map_eq_some_iff.mp hframe.symm
    exact ⟨g, hg, hframe.symm⟩
  intro i j g' h' hg' hh' hbytes
  obtain ⟨g, hg, hgframe⟩ := hold i g' hg'
  obtain ⟨h, hh, hhframe⟩ := hold j h' hh'
  obtain ⟨hgsizes, hgbytes⟩ := Header.sizes_of_frame hgframe
  obtain ⟨hhsizes, hhbytes⟩ := Header.sizes_of_frame hhframe
  rw [hgsizes, hhsizes]
  exact hfit i j g h hg hh (by rw [← hgbytes, ← hhbytes, hbytes])

/-- A header that is moved to a place of its length carries its bytes there. -/
theorem SizesFit.carries (hfit : phv.SizesFit s) {i j : ℕ} {b : List Byte}
    (hcontent : phv'.contentAt s j = phv.contentAt s i)
    (hframe : phv'.frameAt s = phv.frameAt s) (hh : phv.headerAt s i = some h)
    (hc : h.Carries b) (hlength : ∀ g, phv.headerAt s j = some g → g.nbytesPacket = b.length) :
    ∃ h', phv'.headerAt s j = some h' ∧ h'.Carries b := by
  obtain ⟨h', g, hh', hg, hcontent, hframe⟩ := headerAt_of_content hcontent hframe hh
  obtain ⟨hsizes, hbytes⟩ := Header.sizes_of_frame hframe
  have hlen := hlength g hg
  have hsame := hfit j i g h hg hh (by rw [hlen, hc.nbytesPacket])
  refine ⟨h', hh', hc.of_wire ?_ (by rw [hbytes, hlen]) ?_⟩
  · exact (congrArg Prod.fst hcontent).trans hc.valid
  · exact Header.wire_of_content hcontent (hsizes.trans hsame)

end PHV

/-- Operations on a stack of a packet, the rest of which may change in any way between them. -/
inductive VLStackOp where
  | extract (data : List Byte)
  | pushFront (num : ℕ)
  | popFront (num : ℕ)
  | elsewhere (phv : PHV)

namespace VLStackOp

/-- A PHV, with the bytes that the headers in use were extracted from. A header that was pushed
was not extracted. -/
abbrev State := PHV × List (Option (List Byte))

variable (cast : BignumCast) (registerArrays : List (List ℤ)) (stack : ℕ)

def exec : State → VLStackOp → Option (ℕ × State)
  | (phv, live), extract data => do
    let (phv, bytes) ← (ParserOp.extractStack stack).exec cast registerArrays phv data
    some (bytes, (phv, live ++ [some (data.take bytes)]))
  | (phv, live), pushFront num => do
    let s ← phv.headerStacks[stack]?
    let (pushed, phv) ← phv.pushFront stack num
    some (pushed, (phv, (List.replicate pushed none ++ live).take s.headers.length))
  | (phv, live), popFront num => do
    let (popped, phv) ← phv.popFront stack num
    some (popped, (phv, live.drop num))
  | (_, live), elsewhere phv => some (0, (phv, live))

/-- The widths that the next header of the stack gets. -/
def extractedWidths (phv : PHV) (data : List Byte) : Option (List ℕ) := do
  let x ← phv.stackNext stack
  let h ← phv.headers[x]?
  let h ← h.extract (fun h e => (phv.setHeader x h).evalArith cast registerArrays e) data
  some h.widths

/-- The parser extracts headers to the stack, none with bits that a field assigns away. -/
def Parses : State → VLStackOp → Prop
  | (phv, _), extract data => ∀ widths ∈ extractedWidths cast registerArrays stack phv data,
      Header.ClearBefore data 0 widths
  | (phv, _), elsewhere phv' => phv.SameStack stack phv'
  | _, _ => False

instance (st : State) (data : List Byte) :
    Decidable (Parses cast registerArrays stack st (extract data)) :=
  inferInstanceAs (Decidable (∀ widths ∈ extractedWidths cast registerArrays stack st.1 data, _))

/-- Headers are pushed and popped; each that is known goes to a place of its length. -/
def Moves : State → VLStackOp → Prop
  | (phv, live), pushFront num => ∀ s, phv.headerStacks[stack]? = some s →
      s.next + num < 2 ^ 64 ∧ ∀ i b g, live[i]? = some (some b) →
        phv.headerAt s (num + i) = some g → g.nbytesPacket = b.length
  | (phv, live), popFront num => ∀ s, phv.headerStacks[stack]? = some s →
      ∀ i b g, live[i + num]? = some (some b) → phv.headerAt s i = some g →
        g.nbytesPacket = b.length
  | (phv, _), elsewhere phv' => phv.SameStack stack phv'
  | _, _ => False

end VLStackOp

namespace PHV

variable {cast : BignumCast} {registerArrays : List (List ℤ)} {phv phv' : PHV}
  {live live' : List (Option (List Byte))} {s s₀ : HeaderStack} {stack numFields num r : ℕ}
  {pre post : List ℕ} {h h' g : Header} {data : List Byte}

/-- The headers of a stack are instances of one type with a variable-length field. -/
def VLHeaders (phv : PHV) (s : HeaderStack) (pre post : List ℕ) : Prop :=
  ∀ i h, phv.headerAt s i = some h → h.VLHeader pre post

theorem VLHeaders.sizesFit (hvl : phv.VLHeaders s pre post) : phv.SizesFit s :=
  fun i j _ _ hg hh hbytes => (hvl i _ hg).sizes_eq (hvl j _ hh) hbytes

/-- Extraction to a stack: the next header is extracted, and marked valid. -/
theorem extractStack_eq (hstack : phv.headerStacks[stack]? = some s)
    (hexec : (ParserOp.extractStack stack).exec cast registerArrays phv data = some (phv', r)) :
    ∃ x h h', s.headers[s.next]? = some x ∧ phv.headers[x]? = some h ∧
      phv.stackNext stack = some x ∧
      h.extract (fun h e => (phv.setHeader x h).evalArith cast registerArrays e) data = some h' ∧
      r = h'.nbytesPacket ∧
      phv' = ((phv.setHeader x h').setHeader x h'.markValid).setStack stack
        { s with next := s.next + 1 } := by
  obtain ⟨x, hx, hexec⟩ := Option.bind_eq_some_iff.mp hexec
  have hplace : s.headers[s.next]? = some x := by
    rw [stackNext, hstack] at hx
    exact hx
  obtain ⟨⟨phv₁, bytes⟩, hextract, hexec⟩ := Option.bind_eq_some_iff.mp hexec
  obtain ⟨⟨n, phv₂⟩, hpush, hexec⟩ := Option.bind_eq_some_iff.mp hexec
  obtain ⟨rfl, rfl⟩ := Prod.mk.inj (Option.some.inj hexec)
  obtain ⟨h, hh, hextract⟩ := Option.bind_eq_some_iff.mp hextract
  obtain ⟨h', hh', hextract⟩ := Option.bind_eq_some_iff.mp hextract
  obtain ⟨rfl, rfl⟩ := Prod.mk.inj (Option.some.inj hextract)
  refine ⟨x, h, h', hplace, hh, hx, hh', rfl, ?_⟩
  obtain ⟨s', hs', hpush⟩ := Option.bind_eq_some_iff.mp hpush
  obtain rfl : s = s' := Option.some.inj (hstack.symm.trans hs')
  have hnotFull : ¬ s.next = s.headers.length := by
    have hlt := (List.getElem?_eq_some_iff.mp hplace).1
    omega
  rw [if_neg hnotFull, hplace, Option.bind_eq_bind, Option.bind_some] at hpush
  obtain ⟨phv₃, hmod, hpush⟩ := Option.bind_eq_some_iff.mp hpush
  obtain ⟨-, rfl⟩ := Prod.mk.inj (Option.some.inj hpush)
  rw [modifyHeader, getElem?_setHeader, if_pos rfl, hh] at hmod
  obtain rfl := Option.some.inj hmod
  rfl

/-- A parsed header carries its bytes at the place behind the ones in use. -/
theorem CarriedStack.extract (hc : CarriedStack stack numFields phv live s)
    (hvl : phv.VLHeaders s pre post)
    (hexec : (ParserOp.extractStack stack).exec cast registerArrays phv data = some (phv', r))
    (hclear : VLStackOp.Parses cast registerArrays stack (phv, live) (.extract data)) :
    CarriedStack stack numFields phv' (live ++ [some (data.take r)])
        { s with next := s.next + 1 } ∧
      phv'.VLHeaders { s with next := s.next + 1 } pre post := by
  obtain ⟨x, h, h', hplace, hh, hnext, hext, rfl, rfl⟩ :=
    extractStack_eq hc.headerStack hexec
  have hat : phv.headerAt s s.next = some h := by
    rw [headerAt, hplace]
    exact hh
  obtain ⟨hshape, hcarries⟩ := (hvl _ _ hat).extract hext
  have hdata := hcarries (hclear _ (Option.bind_eq_some_iff.mpr ⟨x, hnext,
    Option.bind_eq_some_iff.mpr ⟨h, hh, Option.bind_eq_some_iff.mpr ⟨h', hext, rfl⟩⟩⟩))
  have hmark : h'.markValid.VLHeader pre post := ⟨hshape.fields, hshape.vl, hshape.size⟩
  have hnum : h'.markValid.fields.length = h.fields.length :=
    hmark.length_fields.trans (hvl _ _ hat).length_fields.symm
  have hset : (phv.setHeader x h').setHeader x h'.markValid = phv.setHeader x h'.markValid := by
    unfold setHeader
    rw [List.set_set]
  have hget : ∀ k, (phv.setHeader x h'.markValid).headerAt s k =
      if k = s.next then some h'.markValid else phv.headerAt s k :=
    headerAt_setHeader hc.toStackOf hplace hh
  have hlen := hc.length_live
  have hlt := (List.getElem?_eq_some_iff.mp hplace).1
  rw [hset]
  constructor
  · refine ⟨((hc.toStackOf.putHeader hh hnum).setStack _).next _, ?_, hlt, hc.depth_pos, ?_, ?_⟩
    · exact getElem?_setStack (show (phv.setHeader x h'.markValid).headerStacks[stack]? = some s
        from hc.headerStack) _
    · rw [List.length_append, hlen]
      rfl
    · intro i b hi
      refine (hget i).symm ▸ ?_
      by_cases hlast : i = s.next
      · rw [if_pos hlast]
        rw [hlast, ← hlen, List.getElem?_append_right le_rfl, Nat.sub_self] at hi
        obtain rfl := Option.some.inj (Option.some.inj hi)
        exact ⟨_, rfl, hdata.of_wire rfl hdata.nbytesPacket rfl⟩
      · have hlt' := (List.getElem?_eq_some_iff.mp hi).1
        rw [List.length_append, List.length_singleton] at hlt'
        rw [List.getElem?_append_left (by omega)] at hi
        rw [if_neg hlast]
        exact hc.carried i b hi
  · intro i g hg
    change (phv.setHeader x h'.markValid).headerAt s i = some g at hg
    rw [hget] at hg
    split_ifs at hg
    · obtain rfl := Option.some.inj hg
      exact hmark
    · exact hvl i g hg

/-- Popping keeps the headers behind those that are popped. -/
theorem CarriedStack.popFront (hc : CarriedStack stack numFields phv live s)
    (hfit : phv.SizesFit s) (hexec : phv.popFront stack num = some (r, phv'))
    (hmoves : VLStackOp.Moves stack (phv, live) (.popFront num)) :
    CarriedStack stack numFields phv' (live.drop num) { s with next := s.next - num } ∧
      phv'.SizesFit { s with next := s.next - num } := by
  obtain ⟨phv₁, hexec', hp⟩ := hc.toStackOf.popFront_spec hc.headerStack hc.next_le num
  obtain ⟨-, rfl⟩ := Prod.mk.inj (Option.some.inj (hexec'.symm.trans hexec))
  have hlen := hc.length_live
  have hle := hc.next_le
  refine ⟨⟨hp.stackOf.next _, hp.headerStack, (Nat.sub_le _ _).trans hle, hc.depth_pos, ?_, ?_⟩,
    hfit.of_frame hp.frame⟩
  · rw [List.length_drop, hlen]
  · intro i b hi
    rw [List.getElem?_drop, Nat.add_comm] at hi
    have hlt := (List.getElem?_eq_some_iff.mp hi).1
    obtain ⟨h, hh, hcarries⟩ := hc.carried _ b hi
    exact hfit.carries (hp.kept i (by omega)) hp.frame hh hcarries fun g hg =>
      hmoves s hc.headerStack i b g hi hg

/-- Pushing keeps the headers that are not pushed out. -/
theorem CarriedStack.pushFront (hc : CarriedStack stack numFields phv live s)
    (hfit : phv.SizesFit s) (hexec : phv.pushFront stack num = some (r, phv'))
    (hmoves : VLStackOp.Moves stack (phv, live) (.pushFront num)) :
    CarriedStack stack numFields phv'
        ((List.replicate r none ++ live).take s.headers.length)
        { s with next := min s.headers.length (s.next + num) } ∧
      phv'.SizesFit { s with next := min s.headers.length (s.next + num) } := by
  obtain ⟨hroom, hlength⟩ := hmoves s hc.headerStack
  obtain ⟨phv₁, hexec', hp⟩ :=
    hc.toStackOf.pushFront_spec hc.headerStack hc.next_le hc.depth_pos hroom
  obtain ⟨rfl, rfl⟩ := Prod.mk.inj (Option.some.inj (hexec'.symm.trans hexec))
  have hlen := hc.length_live
  have hle := hc.next_le
  refine ⟨⟨hp.stackOf.next _, hp.headerStack, Nat.min_le_left _ _, hc.depth_pos, ?_, ?_⟩,
    hfit.of_frame hp.frame⟩
  · rw [List.length_take, List.length_append, List.length_replicate, hlen]
    dsimp only
    omega
  · intro i b hi
    have hlt := (List.getElem?_eq_some_iff.mp hi).1
    rw [List.length_take, List.length_append, List.length_replicate, hlen] at hlt
    rw [List.getElem?_take, if_pos (by omega), List.getElem?_append, List.length_replicate] at hi
    split_ifs at hi with hnew
    · rw [List.getElem?_replicate, if_pos hnew] at hi
      cases hi
    · obtain ⟨j, rfl⟩ : ∃ j, i = num + j := ⟨i - num, by omega⟩
      have hj : num + j - min s.headers.length num = j := by omega
      rw [hj] at hi
      obtain ⟨h, hh, hcarries⟩ := hc.carried _ b hi
      have hlt' := (List.getElem?_eq_some_iff.mp hi).1
      exact hfit.carries (hp.kept j (by omega)) hp.frame hh hcarries fun g hg =>
        hlength j b g hi hg

/-- Nothing happens to the stack. -/
theorem CarriedStack.sameStack (hc : CarriedStack stack numFields phv live s)
    (hsame : phv.SameStack stack phv') :
    CarriedStack stack numFields phv' live s ∧ phv'.headerAt s = phv.headerAt s := by
  obtain ⟨hstack, hheaders⟩ := hsame
  have hheaders := hheaders s hc.headerStack
  have hat : phv'.headerAt s = phv.headerAt s := by
    funext i
    unfold headerAt
    cases hx : s.headers[i]? with
    | none => rfl
    | some x =>
      rw [Option.bind_eq_bind, Option.bind_some, Option.bind_some,
        hheaders x (List.mem_of_getElem? hx)]
  refine ⟨⟨⟨hc.nodup, fun x hx => ?_⟩, hstack.trans hc.headerStack, hc.next_le, hc.depth_pos,
    hc.length_live, ?_⟩, hat⟩
  · rw [hheaders x hx]
    exact hc.header x hx
  · rw [hat]
    exact hc.carried

/-- Parsing into the stack, step by step. -/
theorem CarriedStack.parse {st st' : VLStackOp.State} {op : VLStackOp}
    (hc : CarriedStack stack numFields st.1 st.2 s) (hvl : st.1.VLHeaders s pre post)
    (hok : VLStackOp.Parses cast registerArrays stack st op)
    (hstep : VLStackOp.exec cast registerArrays stack st op = some (r, st')) :
    ∃ s', CarriedStack stack numFields st'.1 st'.2 s' ∧ st'.1.VLHeaders s' pre post := by
  obtain ⟨phv, live⟩ := st
  cases op with
  | extract data =>
    obtain ⟨⟨phv', bytes⟩, hexec, hstep⟩ := Option.bind_eq_some_iff.mp hstep
    obtain ⟨-, rfl⟩ := Prod.mk.inj (Option.some.inj hstep)
    exact ⟨_, hc.extract hvl hexec hok⟩
  | elsewhere phv' =>
    obtain ⟨-, rfl⟩ := Prod.mk.inj (Option.some.inj hstep)
    obtain ⟨hc', hat⟩ := hc.sameStack hok
    refine ⟨s, hc', fun i g hg => hvl i g ?_⟩
    rwa [← hat]
  | pushFront num => exact hok.elim
  | popFront num => exact hok.elim

/-- Moving headers in the stack, step by step. -/
theorem CarriedStack.move {st st' : VLStackOp.State} {op : VLStackOp}
    (hc : CarriedStack stack numFields st.1 st.2 s) (hfit : st.1.SizesFit s)
    (hok : VLStackOp.Moves stack st op)
    (hstep : VLStackOp.exec cast registerArrays stack st op = some (r, st')) :
    ∃ s', CarriedStack stack numFields st'.1 st'.2 s' ∧ st'.1.SizesFit s' := by
  obtain ⟨phv, live⟩ := st
  cases op with
  | extract data => exact hok.elim
  | elsewhere phv' =>
    obtain ⟨-, rfl⟩ := Prod.mk.inj (Option.some.inj hstep)
    obtain ⟨hc', hat⟩ := hc.sameStack hok
    refine ⟨s, hc', ?_⟩
    unfold SizesFit
    rw [hat]
    exact hfit
  | pushFront num =>
    obtain ⟨s', hs', hstep⟩ := Option.bind_eq_some_iff.mp hstep
    obtain ⟨⟨pushed, phv'⟩, hexec, hstep⟩ := Option.bind_eq_some_iff.mp hstep
    obtain rfl : s = s' := Option.some.inj (hc.headerStack.symm.trans hs')
    obtain ⟨-, rfl⟩ := Prod.mk.inj (Option.some.inj hstep)
    exact ⟨_, hc.pushFront hfit hexec hok⟩
  | popFront num =>
    obtain ⟨⟨popped, phv'⟩, hexec, hstep⟩ := Option.bind_eq_some_iff.mp hstep
    obtain ⟨-, rfl⟩ := Prod.mk.inj (Option.some.inj hstep)
    exact ⟨_, hc.popFront hfit hexec hok⟩

/-- The headers in use deparse to the bytes that they were extracted from and say how many these
are, so that the deparser makes room for what it writes. -/
structure Survive (phv : PHV) (stack : ℕ) (live : List (Option (List Byte))) (s : HeaderStack) :
    Prop where
  headerStack : phv.headerStacks[stack]? = some s
  length_live : live.length = s.next
  carried : ∀ i b, live[i]? = some (some b) → ∃ h, phv.headerAt s i = some h ∧ h.Carries b
  deparsed : ∀ headers bytes,
    List.Forall₂ (fun h b => ∃ i, live[i]? = some (some b) ∧ phv.headerAt s i = some h)
      headers bytes →
    Deparser.headersSize headers = bytes.flatten.length ∧ ∀ dst : List Byte,
      bytes.flatten.length ≤ dst.length →
      Deparser.deparseHeaders headers dst =
        some (bytes.flatten ++ dst.drop bytes.flatten.length)

theorem CarriedStack.survive (hc : CarriedStack stack numFields phv live s) :
    Survive phv stack live s := by
  refine ⟨hc.headerStack, hc.length_live, hc.carried, fun headers bytes hall => ?_⟩
  refine Deparser.deparseHeaders_of_carries (hall.imp ?_)
  rintro h b ⟨i, hi, hh⟩
  obtain ⟨h', hh', hcarries⟩ := hc.carried i b hi
  obtain rfl := Option.some.inj (hh.symm.trans hh')
  exact hcarries

/-- Headers that are parsed to an empty stack survive every run of pushes and pops that moves each
of them only to places of headers of its length. -/
theorem survive_of_reach {phv₀ : PHV} {st₁ st : VLStackOp.State}
    (h₀ : phv₀.EmptyStack stack s₀ numFields) (hvl : phv₀.VLHeaders s₀ pre post)
    (hparse : Transition.Reach (VLStackOp.exec cast registerArrays stack)
      (VLStackOp.Parses cast registerArrays stack) (phv₀, []) st₁)
    (hmoves : Transition.Reach (VLStackOp.exec cast registerArrays stack)
      (VLStackOp.Moves stack) st₁ st) :
    ∃ s, Survive st.1 stack st.2 s := by
  have hempty : CarriedStack stack numFields phv₀ [] s₀ := by
    refine ⟨h₀.toStackOf, h₀.headerStack, ?_, h₀.depth_pos, h₀.next_zero.symm, ?_⟩
    · rw [h₀.next_zero]
      exact Nat.zero_le _
    · intro i b hi
      cases hi
  have hparsed : ∃ s, CarriedStack stack numFields st₁.1 st₁.2 s ∧ st₁.1.SizesFit s := by
    obtain ⟨s, hc, hvl⟩ := hparse.invariant
      (fun st => ∃ s, CarriedStack stack numFields st.1 st.2 s ∧ st.1.VLHeaders s pre post)
      ⟨s₀, hempty, hvl⟩ fun _ _ _ _ ⟨_, hc, hvl⟩ hok hstep => hc.parse hvl hok hstep
    exact ⟨s, hc, hvl.sizesFit⟩
  obtain ⟨s, hc, -⟩ := hmoves.invariant
    (fun st => ∃ s, CarriedStack stack numFields st.1 st.2 s ∧ st.1.SizesFit s) hparsed
    fun _ _ _ _ ⟨_, hc, hfit⟩ hok hstep => hc.move hfit hok hstep
  exact ⟨s, hc.survive⟩

/-- A header of a byte and of as many bits as that byte says. -/
def sizedHeader (header : ℕ) : Header where
  fields := [{ nbits := 8, arith := true }, { nbits := 0 }]
  nbytesPacket := 1
  vl := some (1, { ops := [.loadField header 0], built := true })

def twoSizedHeaders : PHV where
  headers := [sizedHeader 0, sizedHeader 1]
  headerStacks := [{ headers := [0, 1] }]

theorem sizedHeader_vlHeader (header : ℕ) : (sizedHeader header).VLHeader [8] [] := by
  refine ⟨⟨[{ nbits := 8, arith := true }], { nbits := 0 }, [], rfl, rfl, rfl, ?_, rfl⟩, ⟨_, rfl⟩,
    rfl⟩
  intro g hg
  obtain rfl := List.mem_singleton.mp hg
  exact ⟨by decide, rfl, rfl⟩

theorem emptyStack_twoSizedHeaders : twoSizedHeaders.EmptyStack 0 { headers := [0, 1] } 2 := by
  refine ⟨⟨by decide, ?_⟩, rfl, rfl, by decide, ?_⟩
  · intro x hx
    rcases List.mem_pair.mp hx with rfl | rfl
    · exact ⟨_, rfl, rfl⟩
    · exact ⟨_, rfl, rfl⟩
  · intro x hx h hh
    rcases List.mem_pair.mp hx with rfl | rfl
    · obtain rfl := Option.some.inj hh
      exact ⟨rfl, rfl⟩
    · obtain rfl := Option.some.inj hh
      exact ⟨rfl, rfl⟩

theorem vlHeaders_twoSizedHeaders : twoSizedHeaders.VLHeaders { headers := [0, 1] } [8] [] := by
  intro i h hh
  match i with
  | 0 =>
    obtain rfl := Option.some.inj hh
    exact sizedHeader_vlHeader 0
  | 1 =>
    obtain rfl := Option.some.inj hh
    exact sizedHeader_vlHeader 1
  | _ + 2 => cases hh

/-- The second of two equally long headers survives the first. -/
theorem survive_popFront : ∃ (st : VLStackOp.State) (s : HeaderStack),
    st.2 = [some [16, 0x12, 0x34]] ∧ Survive st.1 0 st.2 s := by
  have hfirst : Transition.Reach (VLStackOp.exec checkedCast [] 0)
      (VLStackOp.Parses checkedCast [] 0) (twoSizedHeaders, []) _ :=
    Transition.Reach.refl.get (a := .extract [16, 0xab, 0xcd]) (by decide +kernel)
      (by decide +kernel)
  have hsecond := hfirst.get (a := .extract [16, 0x12, 0x34]) (by decide +kernel)
    (by decide +kernel)
  obtain ⟨st₁, hparse, hlive, hstack, hsize, hpop⟩ : ∃ st₁ : VLStackOp.State,
      Transition.Reach (VLStackOp.exec checkedCast [] 0) (VLStackOp.Parses checkedCast [] 0)
        (twoSizedHeaders, []) st₁ ∧
      st₁.2 = [some [16, 0xab, 0xcd], some [16, 0x12, 0x34]] ∧
      (st₁.1.headerStacks[0]?).map HeaderStack.headers = some [0, 1] ∧
      (st₁.1.headers[0]?).map Header.nbytesPacket = some 3 ∧
      (VLStackOp.exec checkedCast [] 0 st₁ (.popFront 1)).map (fun r => r.2.2) =
        some [some [16, 0x12, 0x34]] :=
    ⟨_, hsecond, by decide +kernel, by decide +kernel, by decide +kernel, by decide +kernel⟩
  obtain ⟨⟨r, st⟩, hstep, hlive'⟩ := Option.map_eq_some_iff.mp hpop
  have hmoves : VLStackOp.Moves 0 st₁ (.popFront 1) := by
    intro s hs i b g hi hg
    rw [hs, Option.map_some] at hstack
    change st₁.2[i + 1]? = some (some b) at hi
    rw [hlive] at hi
    match i with
    | 0 =>
      obtain rfl := Option.some.inj (Option.some.inj hi)
      rw [headerAt, Option.some.inj hstack] at hg
      rw [show st₁.1.headers[0]? = some g from hg, Option.map_some] at hsize
      exact Option.some.inj hsize
    | _ + 1 => cases hi
  obtain ⟨s, hs⟩ := survive_of_reach emptyStack_twoSizedHeaders vlHeaders_twoSizedHeaders hparse
    (.tail .refl hmoves hstep)
  exact ⟨st, s, hlive', hs⟩

/-- A header of three bytes that gets to the place of one of two says that it has two. -/
theorem not_survive_popFront : ∃ (st₁ st : VLStackOp.State) (r : ℕ),
    Transition.Reach (VLStackOp.exec checkedCast [] 0) (VLStackOp.Parses checkedCast [] 0)
      (twoSizedHeaders, []) st₁ ∧
    VLStackOp.exec checkedCast [] 0 st₁ (.popFront 1) = some (r, st) ∧
    ¬ ∃ s, Survive st.1 0 st.2 s := by
  have hfirst : Transition.Reach (VLStackOp.exec checkedCast [] 0)
      (VLStackOp.Parses checkedCast [] 0) (twoSizedHeaders, []) _ :=
    Transition.Reach.refl.get (a := .extract [8, 0xab]) (by decide +kernel) (by decide +kernel)
  have hsecond := hfirst.get (a := .extract [16, 0x12, 0x34]) (by decide +kernel)
    (by decide +kernel)
  obtain ⟨st₁, st, r, hparse, hstep, hlive, hstack, hsize⟩ : ∃ (st₁ st : VLStackOp.State) (r : ℕ),
      Transition.Reach (VLStackOp.exec checkedCast [] 0) (VLStackOp.Parses checkedCast [] 0)
        (twoSizedHeaders, []) st₁ ∧
      VLStackOp.exec checkedCast [] 0 st₁ (.popFront 1) = some (r, st) ∧
      st.2 = [some [16, 0x12, 0x34]] ∧
      (st.1.headerStacks[0]?).map HeaderStack.headers = some [0, 1] ∧
      (st.1.headers[0]?).map Header.nbytesPacket = some 2 :=
    ⟨_, _, _, hsecond, (Option.some_get (by decide +kernel)).symm, by decide +kernel,
      by decide +kernel, by decide +kernel⟩
  refine ⟨st₁, st, r, hparse, hstep, ?_⟩
  rintro ⟨s, hs⟩
  obtain ⟨h, hh, hcarries⟩ := hs.carried 0 _ (by rw [hlive]; rfl)
  rw [hs.headerStack, Option.map_some] at hstack
  rw [headerAt, Option.some.inj hstack] at hh
  rw [show st.1.headers[0]? = some h from hh, Option.map_some, hcarries.nbytesPacket] at hsize
  exact absurd hsize (by decide)

end PHV

end Bmv2
