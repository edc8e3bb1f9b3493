import Bmv2.Packet.VarLength
import Bmv2.Packet.Wire

/-! Headers with a variable-length field, up to the deparser: an extracted header deparses to the
bytes that it was extracted from, and is as long as these. -/
namespace Bmv2
open ByteBits

namespace Field

variable {f : Field}

/-- A field without bits writes nothing between two bytes. -/
theorem deparse_empty (hnbits : f.nbits = 0) (hbytes : f.bytes = []) (data : List Byte) :
    f.deparse data 0 = some data := by
  have hwhole : 0 = 0 ∧ f.nbits % 8 = 0 := ⟨rfl, by rw [hnbits]⟩
  have hin : f.InBounds data.length 0 := by
    rw [InBounds, if_pos hwhole, hbytes]
    exact Nat.zero_le _
  have hput : f.put data 0 = data := by
    rw [put, if_pos hwhole, hbytes]
    rfl
  rw [deparse, if_pos hin, hput]

theorem nbytes_of_extract {f' : Field} {data : List Byte} {o : ℕ}
    (h : f.extract data o = some f') : f'.nbytes = f.nbytes := by
  unfold Field.extract at h
  split_ifs at h
  obtain rfl := Option.some.inj h
  split_ifs <;> rfl

theorem Fixed.of_extract {f' : Field} {data : List Byte} {o : ℕ} (hf : f.Fixed)
    (h : f.extract data o = some f') : f'.Fixed := by
  refine ⟨?_, ?_, ?_⟩
  · rw [nbits_of_extract h]
    exact hf.pos
  · rw [nbits_of_extract h, nbytes_of_extract h, hf.nbytes_eq]
  · rw [bytes_of_extract h, nbytes_of_extract h, length_genericExtract, hf.length_bytes]

end Field

namespace Header

variable {evalVL : Header → Expression → Option ℤ} {h h' : Header} {data : List Byte}
  {pre post : List ℕ}

theorem fixed_of_extractFields {fields fields' : List Field} {o : ℕ}
    (hfix : ∀ f ∈ fields, f.Fixed) (h : extractFields data o fields = some fields') :
    ∀ f ∈ fields', f.Fixed := by
  induction fields generalizing data o fields' with
  | nil =>
    obtain rfl := Option.some.inj h
    exact hfix
  | cons f fields ih =>
    obtain ⟨f', hf', h⟩ := Option.bind_eq_some_iff.mp h
    obtain ⟨rest, hrest, h⟩ := Option.bind_eq_some_iff.mp h
    obtain rfl := Option.some.inj h
    obtain ⟨hf, hfix⟩ := List.forall_mem_cons.mp hfix
    exact List.forall_mem_cons.mpr ⟨hf.of_extract hf', ih hfix hrest⟩

/-- A field without bits between two bytes of a header may be left out. -/
theorem deparseFields_empty {f : Field} (hnbits : f.nbits = 0) (hbytes : f.bytes = [])
    (before after : List Field) (data : List Byte) {o : ℕ} (ho : o < 8)
    (haligned : (o + (before.map Field.nbits).sum) % 8 = 0) :
    deparseFields data o (before ++ f :: after) = deparseFields data o (before ++ after) := by
  induction before generalizing data o with
  | nil =>
    obtain rfl : o = 0 := by
      rw [List.map_nil, List.sum_nil] at haligned
      omega
    rw [List.nil_append, List.nil_append, deparseFields, Field.deparse_empty hnbits hbytes, hnbits]
    exact Option.bind_fun_some _
  | cons g before ih =>
    rw [List.map_cons, List.sum_cons] at haligned
    rw [List.cons_append, List.cons_append, deparseFields, deparseFields]
    congr 1
    funext data
    dsimp only
    rw [ih _ (Nat.mod_lt _ (by decide)) (by omega)]

/-- An instance of a header type with a variable-length field, between fields of the widths `pre`
and `post`. -/
structure VLHeader (pre post : List ℕ) (h : Header) : Prop where
  fields : ∃ before f after, h.fields = before ++ f :: after ∧ before.map Field.nbits = pre ∧
    after.map Field.nbits = post ∧ (∀ g ∈ before ++ after, g.Fixed) ∧
    f.nbytes = (f.nbits + 7) / 8
  vl : ∃ expr, h.vl = some (pre.length, expr)
  size : h.widths.sum = 8 * h.nbytesPacket

/-- The widths and sizes of the fields, which are not moved. -/
def sizes (h : Header) : List (ℕ × ℕ) := h.fields.map fun f => (f.nbits, f.nbytes)

/-- Instances of a type that are equally long have their fields at the same places. -/
theorem VLHeader.sizes_eq (hvl : VLHeader pre post h) (hvl' : VLHeader pre post h')
    (hbytes : h.nbytesPacket = h'.nbytesPacket) : h.sizes = h'.sizes := by
  have fixed_sizes : ∀ fields : List Field, (∀ g ∈ fields, g.Fixed) →
      fields.map (fun f => (f.nbits, f.nbytes)) =
        (fields.map Field.nbits).map fun w => (w, (w + 7) / 8) := by
    intro fields hfix
    rw [List.map_map]
    apply List.map_congr_left
    intro g hg
    exact Prod.ext rfl (hfix g hg).nbytes_eq
  obtain ⟨before, f, after, hfields, hpre, hpost, hfix, hnbytes⟩ := hvl.fields
  obtain ⟨before', f', after', hfields', hpre', hpost', hfix', hnbytes'⟩ := hvl'.fields
  have hsize := hvl.size
  have hsize' := hvl'.size
  rw [widths, hfields, List.map_append, List.map_cons, hpre, hpost, List.sum_append,
    List.sum_cons] at hsize
  rw [widths, hfields', List.map_append, List.map_cons, hpre', hpost', List.sum_append,
    List.sum_cons] at hsize'
  have hnbits : f.nbits = f'.nbits := by omega
  rw [sizes, sizes, hfields, hfields', List.map_append, List.map_append, List.map_cons,
    List.map_cons, fixed_sizes _ fun g hg => hfix g (List.mem_append_left _ hg),
    fixed_sizes _ fun g hg => hfix g (List.mem_append_right _ hg),
    fixed_sizes _ fun g hg => hfix' g (List.mem_append_left _ hg),
    fixed_sizes _ fun g hg => hfix' g (List.mem_append_right _ hg), hpre, hpost, hpre', hpost',
    hnbytes, hnbytes', hnbits]

theorem VLHeader.length_fields (hvl : VLHeader pre post h) :
    h.fields.length = pre.length + (post.length + 1) := by
  obtain ⟨before, f, after, hfields, rfl, rfl, -⟩ := hvl.fields
  simp [hfields]

/-- The header deparses to `bytes` and says that it has as many. -/
structure Carries (h : Header) (bytes : List Byte) : Prop where
  valid : h.valid = true
  nbytesPacket : h.nbytesPacket = bytes.length
  deparse : ∀ dst : List Byte, bytes.length ≤ dst.length →
    h.deparse dst = some (bytes ++ dst.drop bytes.length)

/-- What the extraction of a header with a variable-length field leaves behind. -/
theorem VLHeader.of_extract (hvl : VLHeader pre post h) (hext : h.extract evalVL data = some h') :
    ∃ before f after before' f' after' n, h.fields = before ++ f :: after ∧
      (∀ g ∈ before ++ after, g.Fixed) ∧ h'.fields = before' ++ f' :: after' ∧
      extractFields data 0 before = some before' ∧ (n = 0 → pre.sum % 8 = 0) ∧
      before.map Field.nbits = pre ∧ after.map Field.nbits = post ∧
      (f.withWidth n).extract (data.drop (pre.sum / 8)) (pre.sum % 8) = some f' ∧
      extractFields (data.drop ((pre.sum + n) / 8)) ((pre.sum + n) % 8) after = some after' ∧
      h'.widths.sum = 8 * h'.nbytesPacket ∧ h'.vl = h.vl ∧ h'.valid = true := by
  obtain ⟨before, f, after, hfields, rfl, rfl, hfix, -⟩ := hvl.fields
  obtain ⟨expr, hexpr⟩ := hvl.vl
  unfold extract at hext
  rw [hexpr, List.length_map] at hext
  obtain ⟨fields, hall, hext⟩ := Option.bind_eq_some_iff.mp hext
  dsimp only at hext
  split_ifs at hext with haligned
  obtain rfl := Option.some.inj hext
  rw [hfields, extractFieldsVL_eq] at hall
  obtain ⟨before', hbefore, hall⟩ := Option.bind_eq_some_iff.mp hall
  obtain ⟨n, -, hall⟩ := Option.bind_eq_some_iff.mp hall
  obtain ⟨f', hf', hall⟩ := Option.bind_eq_some_iff.mp hall
  obtain ⟨after', hafter, rfl⟩ := Option.map_eq_some_iff.mp hall
  have hneg : 0 ≤ n := by
    by_contra hneg
    rw [Field.extractVL, if_neg fun h => hneg h.1.1] at hf'
    cases hf'
  obtain ⟨n, rfl⟩ := Int.eq_ofNat_of_zero_le hneg
  obtain ⟨hlt, hzero⟩ := Field.lt_of_extractVL hf'
  rw [Field.extractVL_eq f hlt hzero] at hf'
  have hnbits : f'.nbits = n := Field.nbits_of_extract hf'
  rw [hnbits] at hafter
  exact ⟨before, f, after, before', f', after', n, hfields, hfix, rfl, hbefore, hzero, rfl, rfl,
    hf', hafter, (Nat.mul_div_cancel' (Nat.dvd_of_mod_eq_zero haligned)).symm,
    by rw [hexpr, List.length_map], rfl⟩

/-- Such a header is extracted and deparsed like one with fields of fixed width only. -/
theorem VLHeader.extract_fixed (hvl : VLHeader pre post h)
    (hext : h.extract evalVL data = some h') :
    VLHeader pre post h' ∧ h'.valid = true ∧ ∃ g g' : Header, g.Fixed ∧
      g.extract evalVL data = some g' ∧ g.nbytesPacket = h'.nbytesPacket ∧
      (∀ dst, h'.deparse dst = g'.deparse dst) ∧
      (ClearBefore data 0 h'.widths → ClearBefore data 0 g.widths) := by
  obtain ⟨before, f, after, before', f', after', n, hfields, hfix, hfields', hbefore, hzero, hpre,
    hpost, hf', hafter, hsize, hvl', hvalid⟩ := hvl.of_extract hext
  have hnbits : f'.nbits = n := Field.nbits_of_extract hf'
  have hpre' := (widths_of_extractFields hbefore).trans hpre
  have hpost' := (widths_of_extractFields hafter).trans hpost
  have hwidths : h'.widths = pre ++ n :: post := by
    rw [widths, hfields', List.map_append, List.map_cons, hpre', hpost', hnbits]
  have hfix' : ∀ g ∈ before' ++ after', g.Fixed := by
    intro g hg
    rcases List.mem_append.mp hg with hg | hg
    · exact fixed_of_extractFields (fun g hg => hfix g (List.mem_append_left _ hg)) hbefore g hg
    · exact fixed_of_extractFields (fun g hg => hfix g (List.mem_append_right _ hg)) hafter g hg
  have hshape : VLHeader pre post h' := by
    refine ⟨⟨before', f', after', hfields', hpre', hpost', hfix', ?_⟩, ?_, hsize⟩
    · rw [Field.nbytes_of_extract hf', hnbits]
      rfl
    · rw [hvl']
      exact hvl.vl
  refine ⟨hshape, hvalid, ?_⟩
  rcases Nat.eq_zero_or_pos n with rfl | hpos
  · -- the field that is left out stands between two bytes and has no bytes
    have haligned := hzero rfl
    have hempty : f'.bytes = [] := by
      apply List.eq_nil_of_length_eq_zero
      rw [Field.bytes_of_extract hf', length_genericExtract, Field.length_withWidth]
    refine ⟨{ fields := before ++ after, nbytesPacket := h'.nbytesPacket },
      { fields := before' ++ after', valid := true, nbytesPacket := h'.nbytesPacket },
      ⟨hfix, rfl, ?_⟩, ?_, rfl, fun dst => ?_, fun hclear => ?_⟩
    · rw [← hsize, hwidths, widths, List.map_append, hpre, hpost]
      simp
    · rw [extract_of_not_vl rfl]
      dsimp only
      rw [extractFields_append _ (by decide), hbefore, Option.bind_some, hpre, Nat.zero_add]
      rw [Nat.add_zero] at hafter
      rw [hafter]
      rfl
    · unfold Header.deparse
      rw [hfields', deparseFields_empty hnbits hempty _ _ _ (by decide)
        (by rw [hpre', Nat.zero_add, haligned])]
    · rw [hwidths, clearBefore_append] at hclear
      rw [widths, List.map_append, hpre, hpost, clearBefore_append]
      exact ⟨hclear.1, hclear.2.2⟩
  · refine ⟨{ fields := before ++ f.withWidth n :: after, nbytesPacket := h'.nbytesPacket },
      { fields := before' ++ f' :: after', valid := true, nbytesPacket := h'.nbytesPacket },
      ⟨?_, rfl, ?_⟩, ?_, rfl, fun dst => ?_, fun hclear => ?_⟩
    · intro g hg
      rcases List.mem_append.mp hg with hg | hg
      · exact hfix g (List.mem_append_left _ hg)
      · rcases List.mem_cons.mp hg with rfl | hg
        · exact ⟨hpos, rfl, Field.length_withWidth f n⟩
        · exact hfix g (List.mem_append_right _ hg)
    · rw [← hsize, hwidths, widths, List.map_append, List.map_cons, hpre, hpost]
      rfl
    · have hdrop : pre.sum / 8 + (pre.sum % 8 + n) / 8 = (pre.sum + n) / 8 := by omega
      have hmod : (pre.sum % 8 + n) % 8 = (pre.sum + n) % 8 := by omega
      rw [extract_of_not_vl rfl]
      dsimp only
      rw [extractFields_append _ (by decide), hbefore, Option.bind_some, hpre, Nat.zero_add,
        extractFields, hf', Option.bind_eq_bind, Option.bind_some, hnbits]
      dsimp only
      rw [List.drop_drop, hdrop, hmod, hafter]
      rfl
    · unfold Header.deparse
      rw [hfields']
    · rw [hwidths] at hclear
      rw [widths, List.map_append, List.map_cons, hpre, hpost]
      exact hclear

/-- Extraction leaves a header that carries its bytes, where no field assigns bits away. -/
theorem VLHeader.extract (hvl : VLHeader pre post h) (hext : h.extract evalVL data = some h') :
    VLHeader pre post h' ∧ (ClearBefore data 0 h'.widths →
      h'.Carries (data.take h'.nbytesPacket)) := by
  obtain ⟨hshape, hvalid, g, g', hfix, hg, hbytes, hdeparse, hclear⟩ := hvl.extract_fixed hext
  refine ⟨hshape, fun hdata => ?_⟩
  have hlen := (hfix.of_extract hg).2.2.2.2
  have htake : (data.take h'.nbytesPacket).length = h'.nbytesPacket := by
    rw [List.length_take]
    omega
  refine ⟨hvalid, htake.symm, fun dst hdst => ?_⟩
  rw [htake] at hdst ⊢
  obtain ⟨hput, hbehind, hfront⟩ := hfix.deparse_extract hg dst (by omega)
  rw [hbytes] at hbehind hfront
  rw [hdeparse, hput, ← hfront.mpr (hclear hdata), ← hbehind, List.take_append_drop]

/-- A header of the same sizes and with the same bytes carries the same. -/
theorem Carries.of_wire {bytes : List Byte} (hc : h.Carries bytes) (hvalid : h'.valid = true)
    (hbytes : h'.nbytesPacket = bytes.length)
    (hwire : h'.fields.map Field.wire = h.fields.map Field.wire) : h'.Carries bytes := by
  refine ⟨hvalid, hbytes, fun dst hdst => ?_⟩
  rw [← hc.deparse dst hdst]
  exact deparseFields_congr hwire

end Header

/-- The deparser makes room for the bytes of its headers, and writes these. -/
theorem Deparser.deparseHeaders_of_carries {headers : List Header} {bytes : List (List Byte)}
    (h : List.Forall₂ Header.Carries headers bytes) :
    headersSize headers = bytes.flatten.length ∧ ∀ dst : List Byte,
      bytes.flatten.length ≤ dst.length →
      deparseHeaders headers dst = some (bytes.flatten ++ dst.drop bytes.flatten.length) := by
  induction h with
  | nil => exact ⟨rfl, fun dst _ => rfl⟩
  | @cons g b headers bytes hg _ ih =>
    obtain ⟨hsize, hwrite⟩ := ih
    rw [List.flatten_cons, List.length_append]
    constructor
    · rw [headersSize, List.map_cons, List.sum_cons, hg.nbytesPacket, ← hsize]
      rfl
    · intro dst hdst
      have hrest : bytes.flatten.length ≤ (dst.drop b.length).length := by
        rw [List.length_drop]
        omega
      rw [deparseHeaders, hg.deparse dst (by omega), hg.nbytesPacket, Option.bind_eq_bind,
        Option.bind_some, List.take_left, List.drop_left, hwrite _ hrest, Option.bind_some,
        List.drop_drop, List.append_assoc]

end Bmv2
