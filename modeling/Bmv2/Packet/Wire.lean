import Bmv2.Packet.Shape

/-! What deparsing reads: of a valid header the widths and the bytes of its fields, of another
one nothing, and of the buffer nothing that stands where the headers go. -/
namespace Bmv2
open ByteBits Bisimulation

namespace Field

variable {f g : Field} {data data' : List Byte} {o j : ℕ}

/-- What is deparsed of a field. -/
def wire (f : Field) : ℕ × ℕ × List Byte := (f.nbits, f.nbytes, f.bytes)

theorem deparse_congr (h : f.wire = g.wire) : f.deparse data o = g.deparse data o := by
  obtain ⟨hnbits, hrest⟩ := Prod.mk.inj h
  obtain ⟨hnbytes, hbytes⟩ := Prod.mk.inj hrest
  simp only [deparse, InBounds, put, hnbits, hnbytes, hbytes]

/-- A bit of the result depends on that bit of the buffer only: all that is done to the buffer
is to set bytes, and to mask them or add bits to them. -/
theorem bitAt_put_local (hlen : data.length = data'.length)
    (h : bitAt data j = bitAt data' j) :
    bitAt (f.put data o) j = bitAt (f.put data' o) j := by
  rw [bitAt_eq, bitAt_eq] at *
  unfold put
  dsimp only
  split_ifs <;>
    simp only [byteAt_modify, byteAt_writeBytes, byteAt_set, length_writeBytes, List.length_modify,
      List.length_set, hlen] <;>
    split_ifs <;> simp only [BitVec.getMsbD_and, BitVec.getMsbD_or, h]

/-- Nothing of the buffer is left where the field stands. -/
theorem bitAt_put_whole (hf : f.Whole) (ho : o < 8) (hempty : f.nbits = 0 → o = 0)
    (hroom : o + f.nbits ≤ 8 * data.length) (hroom' : o + f.nbits ≤ 8 * data'.length)
    (hbefore : ∀ j < o, bitAt data j = bitAt data' j) (hj : j < o + f.nbits) :
    bitAt (f.put data o) j = bitAt (f.put data' o) j := by
  have hfix : f.Fixed := ⟨by omega, hf.nbytes_eq, hf.length_bytes⟩
  rw [bitAt_put hfix ho (by omega) hj, bitAt_put hfix ho (by omega) hj]
  by_cases hlt : j < o
  · rw [hbefore j hlt]
  · simp [hlt]

end Field

namespace Header

variable {h g : Header} {data data' : List Byte} {o j : ℕ}

/-- What is deparsed of a header. -/
def wire (h : Header) : List (ℕ × ℕ × List Byte) × ℕ := (h.fields.map Field.wire, h.nbytesPacket)

theorem deparseFields_congr {fs gs : List Field} (h : fs.map Field.wire = gs.map Field.wire) :
    deparseFields data o fs = deparseFields data o gs := by
  induction fs generalizing data o gs with
  | nil =>
    obtain rfl : gs = [] := by simpa using h.symm
    rfl
  | cons f fs ih =>
    cases gs with
    | nil => simp at h
    | cons g gs =>
      obtain ⟨hfg, hrest⟩ := List.cons.inj h
      have hnbits : f.nbits = g.nbits := congrArg Prod.fst hfg
      simp only [deparseFields, Field.deparse_congr hfg, hnbits, ih hrest]

/-- All fields have the bytes that their widths need, the widths add up, and no field of no bits
begins within a byte. -/
structure Whole (h : Header) : Prop where
  fields : ∀ f ∈ h.fields, f.Whole
  size : h.widths.sum = 8 * h.nbytesPacket
  emptyAligned : EmptyAligned 0 h.widths

/-- By induction on the fields: the bits before a field are the same by then. -/
theorem bitAt_putFields_whole {fs : List Field} (hfs : ∀ f ∈ fs, f.Whole) (ho : o < 8)
    (hempty : EmptyAligned o (fs.map Field.nbits))
    (hroom : o + (fs.map Field.nbits).sum ≤ 8 * data.length)
    (hroom' : o + (fs.map Field.nbits).sum ≤ 8 * data'.length)
    (hbefore : ∀ j < o, bitAt data j = bitAt data' j)
    (hj : j < o + (fs.map Field.nbits).sum ∨
      data.length = data'.length ∧ bitAt data j = bitAt data' j) :
    bitAt (putFields data o fs) j = bitAt (putFields data' o fs) j := by
  induction fs generalizing data data' o j with
  | nil =>
    rcases hj with hj | ⟨-, hj⟩
    · exact hbefore j (by simpa using hj)
    · exact hj
  | cons f fs ih =>
    rw [List.map_cons, List.sum_cons] at hroom hroom' hj
    rw [List.map_cons] at hempty
    obtain ⟨hzero, hempty⟩ := hempty
    have hf := hfs f List.mem_cons_self
    have hown : ∀ j < o + f.nbits, bitAt (f.put data o) j = bitAt (f.put data' o) j :=
      fun j hj => Field.bitAt_put_whole hf ho (fun h => by have := hzero h; omega) (by omega)
        (by omega) hbefore hj
    have htake : ∀ d : List Byte, o + f.nbits ≤ 8 * d.length →
        ((f.put d o).take ((o + f.nbits) / 8)).length = (o + f.nbits) / 8 := by
      intro d hd
      rw [List.length_take, Field.length_put]
      omega
    have hlen := htake data (by omega)
    have hlen' := htake data' (by omega)
    rw [putFields, putFields]
    by_cases hin : j < 8 * ((o + f.nbits) / 8)
    · rw [bitAt_append_left (by rw [hlen]; exact hin), bitAt_append_left (by rw [hlen']; exact hin),
        bitAt_take hin, bitAt_take hin]
      exact hown j (by omega)
    · rw [bitAt_append_right (by rw [hlen]; omega), bitAt_append_right (by rw [hlen']; omega), hlen,
        hlen']
      apply ih (fun g hg => hfs g (List.mem_cons_of_mem f hg)) (Nat.mod_lt _ (by omega))
        (emptyAligned_mod.mpr hempty)
      · rw [List.length_drop, Field.length_put]
        omega
      · rw [List.length_drop, Field.length_put]
        omega
      · intro k hk
        rw [bitAt_drop, bitAt_drop]
        exact hown _ (by omega)
      · rcases hj with hj | ⟨hsame, hj⟩
        · exact .inl (by omega)
        · right
          constructor
          · rw [List.length_drop, List.length_drop, Field.length_put, Field.length_put, hsame]
          · rw [bitAt_drop, bitAt_drop,
              show 8 * ((o + f.nbits) / 8) + (j - 8 * ((o + f.nbits) / 8)) = j
              by omega]
            exact Field.bitAt_put_local hsame hj

theorem bitAt_put_whole (hw : h.Whole) (hroom : h.nbytesPacket ≤ data.length)
    (hroom' : h.nbytesPacket ≤ data'.length)
    (hj : j < 8 * h.nbytesPacket ∨ data.length = data'.length ∧ bitAt data j = bitAt data' j) :
    bitAt (h.put data) j = bitAt (h.put data') j := by
  have hsize := hw.size
  rw [widths] at hsize
  refine bitAt_putFields_whole hw.fields (by decide) hw.emptyAligned (by omega) (by omega)
    (by simp) ?_
  rw [hsize, Nat.zero_add]
  exact hj

theorem take_put_whole (hw : h.Whole) (hroom : h.nbytesPacket ≤ data.length)
    (hroom' : h.nbytesPacket ≤ data'.length) :
    (h.put data).take h.nbytesPacket = (h.put data').take h.nbytesPacket := by
  have hlen : ∀ d : List Byte, h.nbytesPacket ≤ d.length →
      ((h.put d).take h.nbytesPacket).length = h.nbytesPacket := by
    intro d hd
    rw [List.length_take, Header.length_put]
    omega
  rw [eq_iff_bitAt (by rw [hlen data hroom, hlen data' hroom'])]
  intro j hj
  rw [hlen data hroom] at hj
  rw [bitAt_take hj, bitAt_take hj]
  exact bitAt_put_whole hw hroom hroom' (.inl hj)

/-- Such a header is deparsed to enough room. -/
theorem Whole.deparse_eq (hw : h.Whole) (hroom : h.nbytesPacket ≤ data.length) :
    h.deparse data = some (h.put data) := by
  have hsize := hw.size
  rw [widths] at hsize
  exact (deparseFields_eq hw.fields (by decide) (by omega)).trans (if_pos hw.emptyAligned)

end Header

namespace Deparser

variable {data data' : List Byte} {j : ℕ}

theorem headersSize_congr {hs gs : List Header} (hwire : hs.map Header.wire = gs.map Header.wire) :
    headersSize hs = headersSize gs := by
  have hsizes := congrArg (List.map Prod.snd) hwire
  rw [List.map_map, List.map_map] at hsizes
  exact congrArg List.sum hsizes

theorem deparseHeaders_congr {hs gs : List Header}
    (hwire : hs.map Header.wire = gs.map Header.wire) (data : List Byte) :
    deparseHeaders hs data = deparseHeaders gs data := by
  induction hs generalizing data gs with
  | nil =>
    obtain rfl : gs = [] := by simpa using hwire.symm
    rfl
  | cons h hs ih =>
    cases gs with
    | nil => simp at hwire
    | cons g gs =>
      obtain ⟨hfg, hrest⟩ := List.cons.inj hwire
      obtain ⟨hfields, hsize⟩ := Prod.mk.inj hfg
      have hdep : h.deparse data = g.deparse data := Header.deparseFields_congr hfields
      simp only [deparseHeaders, hdep, hsize, ih hrest]

/-- Nothing of the buffer is left where the headers stand. -/
theorem bitAt_putHeaders_whole {hs : List Header} (hw : ∀ h ∈ hs, h.Whole)
    (hlen : data.length = data'.length) (hroom : headersSize hs ≤ data.length)
    (hj : j < 8 * headersSize hs ∨ bitAt data j = bitAt data' j) :
    bitAt (putHeaders hs data) j = bitAt (putHeaders hs data') j := by
  induction hs generalizing data data' j with
  | nil =>
    rcases hj with hj | hj
    · simp [headersSize] at hj
    · exact hj
  | cons h hs ih =>
    rw [headersSize, List.map_cons, List.sum_cons] at hroom hj
    have hown : ∀ j, j < 8 * h.nbytesPacket ∨ bitAt data j = bitAt data' j →
        bitAt (h.put data) j = bitAt (h.put data') j := fun j hj =>
      Header.bitAt_put_whole (hw h List.mem_cons_self) (by omega) (by omega)
        (hj.imp_right fun heq => ⟨hlen, heq⟩)
    have htake : ∀ d : List Byte, d.length = data.length →
        ((h.put d).take h.nbytesPacket).length = h.nbytesPacket := by
      intro d hd
      rw [List.length_take, Header.length_put]
      omega
    rw [putHeaders, putHeaders]
    by_cases hin : j < 8 * h.nbytesPacket
    · rw [bitAt_append_left (by rw [htake data rfl]; exact hin),
        bitAt_append_left (by rw [htake data' hlen.symm]; exact hin), bitAt_take hin,
        bitAt_take hin]
      exact hown j (.inl hin)
    · rw [bitAt_append_right (by rw [htake data rfl]; omega),
        bitAt_append_right (by rw [htake data' hlen.symm]; omega), htake data rfl,
        htake data' hlen.symm]
      apply ih (fun g hg => hw g (List.mem_cons_of_mem h hg))
      · rw [List.length_drop, List.length_drop, Header.length_put, Header.length_put, hlen]
      · rw [List.length_drop, Header.length_put, headersSize]
        omega
      · rcases hj with hj | hj
        · left
          rw [headersSize]
          omega
        · right
          rw [bitAt_drop, bitAt_drop,
            show 8 * h.nbytesPacket + (j - 8 * h.nbytesPacket) = j by omega]
          exact hown j (.inr hj)

/-- Such headers are deparsed to enough room. -/
theorem deparseHeaders_eq {hs : List Header} (hw : ∀ h ∈ hs, h.Whole)
    (hroom : headersSize hs ≤ data.length) :
    deparseHeaders hs data = some (putHeaders hs data) := by
  induction hs generalizing data with
  | nil => rfl
  | cons h hs ih =>
    obtain ⟨hfirst, hrest⟩ := List.forall_mem_cons.mp hw
    rw [headersSize, List.map_cons, List.sum_cons] at hroom
    have hleft : headersSize hs ≤ ((h.put data).drop h.nbytesPacket).length := by
      rw [List.length_drop, Header.length_put, headersSize]
      omega
    have hnext := ih hrest hleft
    rw [deparseHeaders, hfirst.deparse_eq (by omega), Option.bind_eq_bind, Option.bind_some, hnext]
    rfl

end Deparser

namespace PHV

/-- What is deparsed of a header of the PHV. -/
def wire (phv : PHV) (header : ℕ) : Option (Option (List (ℕ × ℕ × List Byte) × ℕ)) :=
  phv.headers[header]?.map fun h => if h.isValid then some h.wire else none

variable {phv phv' : PHV} {i : ℕ}

/-- The headers in one place of two PHVs from which the same is deparsed. -/
theorem related_of_wire (h : phv.wire i = phv'.wire i) :
    Related (fun h g => h.isValid = g.isValid ∧ (h.isValid → h.wire = g.wire)) phv.headers[i]?
      phv'.headers[i]? := by
  unfold wire at h
  cases hk : phv.headers[i]? with
  | none =>
    rw [hk, Option.map_none] at h
    rw [Option.map_eq_none_iff.mp h.symm]
    exact .none
  | some hdr =>
    rw [hk, Option.map_some] at h
    obtain ⟨hdr', hk', h⟩ := Option.map_eq_some_iff.mp h.symm
    rw [hk']
    refine .some ?_
    by_cases hv : hdr.isValid
    · rw [if_pos hv] at h
      split_ifs at h with hv'
      exact ⟨hv.trans hv'.symm, fun _ => (Option.some.inj h).symm⟩
    · rw [if_neg hv] at h
      split_ifs at h with hv'
      exact ⟨by simp [hv, hv'], fun hvalid => absurd hvalid hv⟩

end PHV

/-- The headers to deparse are the same as far as deparsing them goes. -/
theorem Deparser.validHeaders_related {d : Deparser} {phv phv' : PHV}
    (h : ∀ i ∈ d.headers, phv.wire i = phv'.wire i) :
    Related (fun hs gs => hs.map Header.wire = gs.map Header.wire) (d.validHeaders phv)
      (d.validHeaders phv') := by
  obtain ⟨headers, checksums⟩ := d
  have hmap : Related (fun hs gs => (hs.filter Header.isValid).map Header.wire =
      (gs.filter Header.isValid).map Header.wire) (headers.mapM (phv.headers[·]?))
      (headers.mapM (phv'.headers[·]?)) := by
    induction headers with
    | nil => exact .some rfl
    | cons i headers ih =>
      rw [List.mapM_cons, List.mapM_cons]
      refine .bind (PHV.related_of_wire (h i List.mem_cons_self)) fun hdr hdr' hrel => ?_
      refine .bind (ih fun j hj => h j (List.mem_cons_of_mem i hj)) fun hs gs hrest => .some ?_
      obtain ⟨hvalid, hwire⟩ := hrel
      by_cases hv : hdr.isValid
      · rw [List.filter_cons_of_pos hv, List.filter_cons_of_pos (hvalid ▸ hv), List.map_cons,
          List.map_cons, hwire hv, hrest]
      · rw [List.filter_cons_of_neg hv, List.filter_cons_of_neg (hvalid ▸ hv), hrest]
  exact .bind hmap fun hs gs hrel => .some hrel

/-- The header that an entry names. -/
def BufEntry.headers : BufEntry → List ℕ
  | .field f => [f.header]
  | .constant _ _ => []
  | .header hdr => [hdr]

namespace NamedCalculation

variable {phv phv' : PHV}

theorem entry_congr {entry : BufEntry} (h : ∀ i ∈ entry.headers, phv.wire i = phv'.wire i)
    (s : List Byte × ℕ) : entry.deparse phv s = entry.deparse phv' s := by
  cases entry with
  | field f =>
    refine Related.eq (.bind (PHV.related_of_wire (h f.header List.mem_cons_self)) ?_)
    rintro hdr hdr' ⟨hvalid, hwire⟩
    rw [← hvalid]
    refine .ite (fun hv => ?_) fun _ => .refl _
    have hfields : Related (fun f g => f.wire = g.wire) hdr.fields[f.offset]?
        hdr'.fields[f.offset]? := by
      refine .getElem? ?_ f.offset
      have heq := (Prod.mk.inj (hwire hv)).1
      rw [← List.forall₂_eq_eq_eq, List.forall₂_map_left_iff, List.forall₂_map_right_iff] at heq
      exact heq
    refine .bind hfields fun field field' hfield => ?_
    have hnbits : field.nbits = field'.nbits := congrArg Prod.fst hfield
    dsimp only
    rw [hnbits, Field.deparse_congr hfield]
    exact .refl _
  | constant v nbits => rfl
  | header hdr =>
    refine Related.eq (.ite (fun _ => ?_) fun _ => .none)
    refine .bind (PHV.related_of_wire (h hdr List.mem_cons_self)) ?_
    rintro hdr hdr' ⟨hvalid, hwire⟩
    dsimp only
    rw [← hvalid]
    refine .ite (fun hv => ?_) fun _ => .refl _
    obtain ⟨hfields, hsize⟩ := Prod.mk.inj (hwire hv)
    rw [hsize, Header.deparse, Header.deparse, Header.deparseFields_congr hfields]
    exact .refl _

/-- A calculation has the same result where each entry writes the same. -/
theorem output_congr_of_entries {c : NamedCalculation}
    (h : ∀ entry ∈ c.entries, ∀ s, entry.deparse phv s = entry.deparse phv' s) (data : List Byte) :
    c.output phv data = c.output phv' data := by
  have hfold : ∀ s, c.entries.foldlM (fun s entry => entry.deparse phv s) s =
      c.entries.foldlM (fun s entry => entry.deparse phv' s) s := by
    generalize c.entries = entries at h
    induction entries with
    | nil => exact fun _ => rfl
    | cons entry entries ih =>
      intro s
      rw [List.foldlM_cons, List.foldlM_cons, h entry List.mem_cons_self]
      congr 1
      funext s'
      exact ih (fun e he => h e (List.mem_cons_of_mem entry he)) s'
  unfold output
  rw [hfold]

/-- A calculation has the same result on PHVs from which the same is deparsed. -/
theorem output_congr {c : NamedCalculation}
    (h : ∀ entry ∈ c.entries, ∀ i ∈ entry.headers, phv.wire i = phv'.wire i) (data : List Byte) :
    c.output phv data = c.output phv' data :=
  output_congr_of_entries (fun entry hentry => entry_congr (h entry hentry)) data

end NamedCalculation

end Bmv2
