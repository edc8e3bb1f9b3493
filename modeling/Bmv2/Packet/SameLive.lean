import Bmv2.Expressions.Reads
import Bmv2.Packet.InUse
import Bmv2.Packet.Wire

/-! PHVs that hold the same where it counts: in the headers that are valid and in metadata. What
is in other headers is what earlier packets have left there. -/
namespace Bmv2
open ByteBits Bisimulation

namespace Field

/-- Fields of one shape, with the bytes that their width needs. -/
structure Fits (f g : Field) : Prop where
  shape : f.SameShape g
  whole : f.Whole
  whole' : g.Whole

/-- Such fields with the same bytes. The number is only kept in step with these where arithmetic
is enabled. -/
structure Same (f g : Field) : Prop extends Fits f g where
  bytes : f.bytes = g.bytes
  value : f.arith → f.value = g.value

variable {f g : Field} {data : List Byte} {o : ℕ}

theorem SameShape.arith_eq (h : f.SameShape g) : g.arith = f.arith := by
  rw [← h]
  rfl

theorem Fits.set (h : f.Fits g) (v : ℤ) : (f.set v).Same (g.set v) := by
  have hset : g.set v = f.set v := by
    rw [← h.shape]
    rfl
  have hwhole := (update_set f v).whole h.whole
  rw [hset]
  exact ⟨⟨.refl _, hwhole, hwhole⟩, rfl, fun _ => rfl⟩

/-- The number is made from the bytes, where arithmetic is enabled. -/
theorem Fits.sync (h : f.Fits g) {b : List Byte} (hb : b.length = f.nbytes) :
    (if f.arith then { f with bytes := b }.syncValue else { f with bytes := b }).Same
      (if g.arith then { g with bytes := b }.syncValue else { g with bytes := b }) := by
  obtain ⟨hs, hf, -⟩ := h
  have hwhole : ∀ v, { f with bytes := b, value := v }.Whole := fun _ => ⟨hf.nbytes_eq, hb⟩
  rw [hs.arith_eq, ← hs]
  by_cases harith : f.arith
  · rw [if_pos harith, if_pos harith]
    exact ⟨⟨rfl, hwhole _, hwhole _⟩, rfl, fun _ => rfl⟩
  · rw [if_neg harith, if_neg harith]
    exact ⟨⟨rfl, hwhole _, hwhole _⟩, rfl, fun h => absurd h harith⟩

theorem Fits.extract (h : f.Fits g) : Related Same (f.extract data o) (g.extract data o) := by
  obtain ⟨v, b, rfl⟩ : ∃ v b, g = { f with value := v, bytes := b } :=
    ⟨g.value, g.bytes, Eq.symm h.shape⟩
  have hlen : (genericExtract data o f.nbits f.bytes).length = f.nbytes := by
    rw [length_genericExtract, h.whole.length_bytes]
  have hbytes : genericExtract data o f.nbits f.bytes = genericExtract data o f.nbits b :=
    genericExtract_congr (h.whole.length_bytes.trans h.whole.nbytes_eq)
      (h.whole'.length_bytes.trans h.whole'.nbytes_eq)
  have hsync := h.sync hlen
  unfold Field.extract
  dsimp only
  rw [← hbytes]
  exact .ite (fun _ => .some hsync) fun _ => .none

/-- The values of other fields of the same width. -/
theorem Fits.withValues (h : f.Fits g) {f2 g2 : Field} (h2 : f2.Fits g2) (hw : f.nbits = f2.nbits) :
    (f.withValues f2).Fits (g.withValues g2) := by
  have fit : ∀ {k k2 : Field}, k.Whole → k2.Whole → k.nbits = k2.nbits →
      (k.withValues k2).Whole := by
    intro k k2 hk hk2 heq
    refine ⟨hk.nbytes_eq, ?_⟩
    change k2.bytes.length = k.nbytes
    rw [hk2.length_bytes, hk2.nbytes_eq, hk.nbytes_eq, heq]
  refine ⟨?_, fit h.whole h2.whole hw, fit h.whole' h2.whole' ?_⟩
  · exact (sameShape_withValues f f2).symm.trans (h.shape.trans (sameShape_withValues g g2))
  · rw [h.shape.nbits_eq, h2.shape.nbits_eq, hw]

theorem Fits.setBytes (h : f.Fits g) (src : List Byte) :
    Related Same (f.setBytes src) (g.setBytes src) := by
  have hnbytes := h.shape.nbytes_eq
  unfold Field.setBytes
  by_cases hlen : src.length = f.nbytes
  · rw [if_pos hlen, if_pos (hlen.trans hnbytes.symm)]
    exact .some (h.sync hlen)
  · rw [if_neg hlen, if_neg (hnbytes ▸ hlen)]
    exact .none

theorem Same.toData (h : f.Same g) (harith : f.arith) : f.toData = g.toData := by
  have hvalue := h.value harith
  have hflag := h.shape.arith_eq
  obtain ⟨⟨_, _⟩, _⟩ := f
  obtain ⟨⟨_, _⟩, _⟩ := g
  dsimp only at *
  rw [hvalue, hflag]

theorem Same.wire (h : f.Same g) : f.wire = g.wire := by
  unfold Field.wire
  rw [h.shape.nbits_eq, h.shape.nbytes_eq, h.bytes]

end Field

/-- Headers of fixed width and of one type, of which the same ones are valid. If they are, they
hold the same. -/
structure Header.SameLive (h g : Header) : Prop where
  metadata : h.metadata = g.metadata
  valid : h.valid = g.valid
  nbytesPacket : h.nbytesPacket = g.nbytesPacket
  headerTypeId : h.headerTypeId = g.headerTypeId
  not_vl : h.vl = none
  not_vl' : g.vl = none
  fields : List.Forall₂ Field.Fits h.fields g.fields
  live : h.isValid → List.Forall₂ Field.Same h.fields g.fields

/-- Headers that have arithmetic enabled for the same fields, and are both metadata or not. -/
structure Header.Kin (h h2 : Header) : Prop where
  metadata : h.metadata = h2.metadata
  arith : h.fields.map (·.arith) = h2.fields.map (·.arith)

theorem Header.Kin.symm {h h2 : Header} (hkin : h.Kin h2) : h2.Kin h :=
  ⟨hkin.metadata.symm, hkin.arith.symm⟩

namespace Header.SameLive

variable {h g h2 g2 : Header} {fs gs : List Field}

theorem isValid (hs : h.SameLive g) : h.isValid = g.isValid := by
  unfold Header.isValid
  rw [hs.metadata, hs.valid]

theorem withFields (hs : h.SameLive g) (valid : Bool) (hfits : List.Forall₂ Field.Fits fs gs)
    (hlive : { h with fields := fs, valid }.isValid → List.Forall₂ Field.Same fs gs) :
    Header.SameLive { h with fields := fs, valid } { g with fields := gs, valid } where
  metadata := hs.metadata
  valid := rfl
  nbytesPacket := hs.nbytesPacket
  headerTypeId := hs.headerTypeId
  not_vl := hs.not_vl
  not_vl' := hs.not_vl'
  fields := hfits
  live := hlive

/-- New contents that are the same on both sides. -/
theorem fill (hs : h.SameLive g) (valid : Bool) (hsame : List.Forall₂ Field.Same fs gs) :
    Header.SameLive { h with fields := fs, valid } { g with fields := gs, valid } :=
  hs.withFields valid (hsame.imp fun _ _ hf => hf.toFits) fun _ => hsame

theorem markInvalid (hs : h.SameLive g) : h.markInvalid.SameLive g.markInvalid := by
  refine hs.withFields false hs.fields fun hv => hs.live ?_
  have hmeta : h.metadata = true := by simpa [Header.isValid] using hv
  rw [Header.isValid, hmeta, Bool.true_or]

theorem markValid (hs : h.SameLive g) (hv : h.isValid) : h.markValid.SameLive g.markValid :=
  hs.withFields true hs.fields fun _ => hs.live hv

theorem same_reset (hfits : List.Forall₂ Field.Fits fs gs) :
    List.Forall₂ Field.Same (fs.map (Field.set · 0)) (gs.map (Field.set · 0)) := by
  rw [List.forall₂_map_left_iff, List.forall₂_map_right_iff]
  exact hfits.imp fun _ _ hf => hf.set 0

/-- A header that is reset may become valid. -/
theorem resetValid (hs : h.SameLive g) : h.reset.markValid.SameLive g.reset.markValid :=
  hs.fill true (same_reset hs.fields)

/-- The fields are set to the numbers of fields that hold the same. -/
theorem same_setValues {fs2 gs2 : List Field} (hfits : List.Forall₂ Field.Fits fs gs)
    (hsame : List.Forall₂ Field.Same fs2 gs2) (harith : ∀ f ∈ fs2, f.arith) :
    List.Forall₂ Field.Same (List.zipWith (fun f src => f.set src.value) fs fs2)
      (List.zipWith (fun f src => f.set src.value) gs gs2) := by
  induction hfits generalizing fs2 gs2 with
  | nil => exact .nil
  | cons hf _ ih =>
    cases hsame with
    | nil => exact .nil
    | cons hf2 hrest =>
      obtain ⟨hfirst, hothers⟩ := List.forall_mem_cons.mp harith
      have hvalue := hf2.value hfirst
      refine .cons ?_ (ih hrest hothers)
      dsimp only
      rw [← hvalue]
      exact hf.set _

theorem extractFields {data : List Byte} {o : ℕ} (hfits : List.Forall₂ Field.Fits fs gs) :
    Related (List.Forall₂ Field.Same) (Header.extractFields data o fs)
      (Header.extractFields data o gs) := by
  induction hfits generalizing data o with
  | nil => exact .some .nil
  | cons hf _ ih =>
    refine .bind hf.extract fun f g hsame => ?_
    dsimp only
    rw [hsame.shape.nbits_eq]
    exact .bind ih fun fs gs hrest => .some (.cons hsame hrest)

/-- What is extracted does not depend on what was there. -/
theorem extract (hs : h.SameLive g) {evalVL evalVL' : Header → Expression → Option ℤ}
    (data : List Byte) : Related (fun h' g' => h'.SameLive g' ∧ h'.valid = true)
      (h.extract evalVL data) (g.extract evalVL' data) := by
  rw [extract_of_not_vl hs.not_vl, extract_of_not_vl hs.not_vl']
  exact (extractFields hs.fields).map fun _ _ hsame => ⟨hs.fill true hsame, rfl⟩

/-- The values of headers of which the fields have the same widths. -/
theorem fits_withValues {fs2 gs2 : List Field} (hfits : List.Forall₂ Field.Fits fs gs)
    (hfits2 : List.Forall₂ Field.Fits fs2 gs2) (hw : fs.map Field.nbits = fs2.map Field.nbits) :
    List.Forall₂ Field.Fits (List.zipWith Field.withValues fs fs2)
      (List.zipWith Field.withValues gs gs2) := by
  induction hfits generalizing fs2 gs2 with
  | nil => exact .nil
  | cons hf _ ih =>
    cases hfits2 with
    | nil => exact .nil
    | cons hf2 hrest =>
      obtain ⟨hfirst, hws⟩ := List.cons.inj hw
      exact .cons (hf.withValues hf2 hfirst) (ih hrest hws)

/-- Such values, of a header that is valid. The number of a field that has arithmetic enabled
must come from another one that has. -/
theorem same_withValues {fs2 gs2 : List Field} (hfits : List.Forall₂ Field.Fits fs gs)
    (hsame : List.Forall₂ Field.Same fs2 gs2) (hw : fs.map Field.nbits = fs2.map Field.nbits)
    (harith : fs.map (·.arith) = fs2.map (·.arith)) :
    List.Forall₂ Field.Same (List.zipWith Field.withValues fs fs2)
      (List.zipWith Field.withValues gs gs2) := by
  induction hfits generalizing fs2 gs2 with
  | nil => exact .nil
  | cons hf _ ih =>
    cases hsame with
    | nil => exact .nil
    | cons hf2 hrest =>
      obtain ⟨hfirst, hws⟩ := List.cons.inj hw
      obtain ⟨hflag, has⟩ := List.cons.inj harith
      exact .cons ⟨hf.withValues hf2.toFits hfirst, hf2.bytes, fun h =>
        hf2.value (hflag.symm.trans h)⟩
        (ih hrest hws has)

theorem withValues (hs : h.SameLive g) (hs2 : h2.SameLive g2) (hw : h.widths = h2.widths)
    (hkin : h.Kin h2) : (h.withValues h2).SameLive (g.withValues g2) := by
  have hvalid : g2.valid = h2.valid := hs2.valid.symm
  have hlive : (h.withValues h2).isValid →
      List.Forall₂ Field.Same (List.zipWith Field.withValues h.fields h2.fields)
        (List.zipWith Field.withValues g.fields g2.fields) := by
    intro hv
    refine same_withValues hs.fields (hs2.live ?_) hw hkin.arith
    unfold Header.isValid at hv ⊢
    rwa [← hkin.metadata]
  have hnew := hs.withFields h2.valid (fits_withValues hs.fields hs2.fields hw) hlive
  unfold Header.withValues
  rw [hvalid]
  exact hnew

end Header.SameLive

/-- PHVs of which the same headers are valid and hold the same, and the stacks are filled alike. -/
structure PHV.SameLive (phv phv' : PHV) : Prop where
  headers : List.Forall₂ Header.SameLive phv.headers phv'.headers
  headerStacks : phv.headerStacks = phv'.headerStacks

/-- A field from which the number can be read: one of a valid header, that has arithmetic
enabled. -/
def PHV.Readable (phv : PHV) (header fieldOffset : ℕ) : Prop :=
  ∀ h, phv.headers[header]? = some h →
    h.isValid ∧ ∀ f, h.fields[fieldOffset]? = some f → f.arith

namespace PHV.SameLive

variable {phv phv' : PHV} {h g : Header} {i j stack : ℕ} {data : List Byte}
  {cast : BignumCast} {registerArrays : List (List ℤ)}

theorem header (hs : phv.SameLive phv') (i : ℕ) :
    Related Header.SameLive phv.headers[i]? phv'.headers[i]? :=
  .getElem? hs.headers i

theorem setHeader (hs : phv.SameLive phv') (hh : h.SameLive g) (i : ℕ) :
    (phv.setHeader i h).SameLive (phv'.setHeader i g) :=
  ⟨forall₂_set hs.headers hh i, hs.headerStacks⟩

theorem setStack (hs : phv.SameLive phv') (stack : ℕ) (s : HeaderStack) :
    (phv.setStack stack s).SameLive (phv'.setStack stack s) :=
  ⟨hs.headers, congrArg (List.set · stack s) hs.headerStacks⟩

theorem modifyHeader (hs : phv.SameLive phv') {u : Header → Header}
    (hu : ∀ h g, phv.headers[i]? = some h → h.SameLive g → (u h).SameLive (u g)) :
    Related SameLive (phv.modifyHeader i u) (phv'.modifyHeader i u) :=
  (hs.header i).bind_of_eq fun h g hk hh => .some (hs.setHeader (hu h g hk hh) i)

theorem modifyField (hs : phv.SameLive phv') (dst : FieldRef) {u : Field → Option Field}
    (hu : ∀ f g : Field, f.Fits g → Related Field.Same (u f) (u g)) :
    Related SameLive (phv.modifyField dst u) (phv'.modifyField dst u) := by
  refine (hs.header dst.header).bind fun h g hh => ?_
  refine (Related.getElem? hh.fields dst.offset).bind fun f k hf => ?_
  refine (hu f k hf).bind fun f' k' hsame => .some (hs.setHeader ?_ dst.header)
  have hnew := hh.withFields h.valid (forall₂_set hh.fields hsame.toFits dst.offset) fun hv =>
    forall₂_set (hh.live hv) hsame dst.offset
  have hvalid : { g with fields := g.fields.set dst.offset k', valid := h.valid } =
      { g with fields := g.fields.set dst.offset k' } := by rw [hh.valid]
  exact hvalid ▸ hnew

theorem swapValues (hs : phv.SameLive phv')
    (hfit : ∀ h h2, phv.headers[i]? = some h → phv.headers[j]? = some h2 →
      h.widths = h2.widths ∧ h.Kin h2) :
    Related SameLive (phv.swapValues i j) (phv'.swapValues i j) := by
  refine (hs.header i).bind_of_eq fun h g hk hh => ?_
  refine (hs.header j).bind_of_eq fun h2 g2 hk2 hh2 => ?_
  obtain ⟨hw, hkin⟩ := hfit h h2 hk hk2
  exact .some ((hs.setHeader (hh.withValues hh2 hw hkin) i).setHeader
    (hh2.withValues hh hw.symm hkin.symm) j)

/-- A field of a header that is valid. -/
theorem getField (hs : phv.SameLive phv') (hv : ∀ h, phv.headers[i]? = some h → h.isValid)
    (fieldOffset : ℕ) :
    Related Field.Same (phv.getField i fieldOffset) (phv'.getField i fieldOffset) :=
  (hs.header i).bind_of_eq fun h _ hk hh => .getElem? (hh.live (hv h hk)) fieldOffset

theorem readField (hs : phv.SameLive phv') {fieldOffset : ℕ} (hread : phv.Readable i fieldOffset) :
    Related (fun f g => f.toData = g.toData) (phv.getField i fieldOffset)
      (phv'.getField i fieldOffset) := by
  refine (hs.header i).bind_of_eq fun h g hk hh => ?_
  obtain ⟨hv, harith⟩ := hread h hk
  exact (Related.getElem? (hh.live hv) fieldOffset).imp_of_eq fun f g hf hsame =>
    hsame.toData (harith f hf)

/-- What an expression reads, where it only loads fields that are readable. -/
theorem evalInput (hs : phv.SameLive phv') (locals : List Data) :
    EvalInput.Agree phv.Readable { phv, locals, registerArrays }
      { phv := phv', locals, registerArrays } where
  locals := rfl
  registerArrays := rfl
  length := hs.headers.length_eq
  headerValid header := by
    unfold EvalInput.headerValid
    exact Related.eq ((hs.header header).map fun _ _ hh => hh.isValid)
  field header fieldOffset hread := by
    exact Related.eq ((hs.readField hread).map fun _ _ hdata => hdata)

/-- What is deparsed of a header. -/
theorem wire (hs : phv.SameLive phv') (i : ℕ) : phv.wire i = phv'.wire i := by
  unfold PHV.wire
  refine Related.eq ((hs.header i).map fun h g hh => ?_)
  rw [← hh.isValid]
  by_cases hv : h.isValid
  · rw [if_pos hv, if_pos hv]
    have hfields : h.fields.map Field.wire = g.fields.map Field.wire := by
      rw [← List.forall₂_eq_eq_eq, List.forall₂_map_left_iff, List.forall₂_map_right_iff]
      exact (hh.live hv).imp fun _ _ hsame => hsame.wire
    unfold Header.wire
    rw [hfields, hh.nbytesPacket]
  · rw [if_neg hv, if_neg hv]

/-- A header that is extracted is valid, with what is in the packet. -/
theorem extractHeader (hs : phv.SameLive phv') (i : ℕ) (data : List Byte) :
    Related (fun p q => p.1.SameLive q.1 ∧ p.2 = q.2 ∧
        ∀ h, p.1.headers[i]? = some h → h.isValid)
      (phv.extractHeader cast registerArrays i data)
      (phv'.extractHeader cast registerArrays i data) := by
  refine (hs.header i).bind_of_eq fun h g hk hh => ?_
  refine (hh.extract data).bind fun h' g' hext => ?_
  refine .some ⟨hs.setHeader hext.1 i, hext.1.nbytesPacket, fun hdr hhdr => ?_⟩
  unfold PHV.setHeader at hhdr
  rw [List.getElem?_set_self', hk] at hhdr
  obtain rfl : h' = hdr := Option.some.inj hhdr
  rw [Header.isValid, hext.2, Bool.or_true]

end PHV.SameLive

end Bmv2
