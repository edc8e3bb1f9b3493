import Bmv2.Packet.Deparser

/-! Parsing followed by deparsing. The headers on the path of a packet come out as they went in,
but for the bits that stand before a field whose deparsing assigns its first byte. -/
namespace Bmv2
open ByteBits

variable {cast : BignumCast} {registerArrays : List (List ℤ)}

/-- The header that an operation extracts, if it is not in a stack. -/
def ParserOp.extracted : ParserOp → Option ℕ
  | .extract header => some header
  | _ => none

/-- The headers that a state extracts. -/
def ParseState.extracted (st : ParseState) : List ℕ := st.parserOps.filterMap ParserOp.extracted

/-- The parse graph has no operation but the extraction of headers that are in no stack. -/
def Parser.OnlyExtracts (p : Parser) : Prop :=
  ∀ st ∈ p.parseStates, ∀ op ∈ st.parserOps, ∃ header, op = .extract header

/-- The extraction of one header after the other. -/
inductive Extracts (data : List Byte) : PHV × ℕ → List ℕ → PHV × ℕ → Prop
  | nil (s : PHV × ℕ) : Extracts data s [] s
  | cons {header : ℕ} {headers : List ℕ} {s t : PHV × ℕ} {h h' : Header}
      {evalVL : Header → Expression → Option ℤ}
      (hknown : s.1.headers[header]? = some h)
      (hext : h.extract evalVL (data.drop s.2) = some h')
      (hrest : Extracts data (s.1.setHeader header h', s.2 + h'.nbytesPacket) headers t) :
      Extracts data s (header :: headers) t

/-- The widths of the fields of some headers, which for one after the other are the widths of
one long header. -/
def PHV.widths (phv : PHV) (headers : List ℕ) : List ℕ :=
  headers.flatMap fun i => ((phv.headers[i]?).map Header.widths).getD []

theorem PHV.widths_cons {phv : PHV} {header : ℕ} {h : Header} {headers : List ℕ}
    (hknown : phv.headers[header]? = some h) :
    phv.widths (header :: headers) = h.widths ++ phv.widths headers := by
  rw [PHV.widths, List.flatMap_cons, hknown]
  rfl

theorem PHV.widths_setHeader {phv : PHV} {header : ℕ} {h : Header} {headers : List ℕ}
    (hnotMem : header ∉ headers) :
    (phv.setHeader header h).widths headers = phv.widths headers := by
  refine List.flatMap_congr fun i hi => ?_
  have hne : header ≠ i := fun heq => hnotMem (heq ▸ hi)
  rw [PHV.setHeader, List.getElem?_set_ne hne]

namespace Extracts

variable {data : List Byte} {s s' t : PHV × ℕ} {headers headers' : List ℕ}

theorem append (h : Extracts data s headers s') (h' : Extracts data s' headers' t) :
    Extracts data s (headers ++ headers') t := by
  induction h with
  | nil s => exact h'
  | cons hknown hext _ ih => exact .cons hknown hext (ih h')

theorem of_execAll {ops : List ParserOp} (hops : ∀ op ∈ ops, ∃ header, op = .extract header)
    (h : ParserOp.execAll cast registerArrays data ops s = some t) :
    Extracts data s (ops.filterMap ParserOp.extracted) t := by
  induction ops generalizing s with
  | nil =>
    obtain rfl := Option.some.inj h
    exact .nil _
  | cons op ops ih =>
    obtain ⟨⟨header, rfl⟩, hrest⟩ := List.forall_mem_cons.mp hops
    obtain ⟨phv, bytesParsed⟩ := s
    obtain ⟨⟨phv', bytes⟩, hext, h⟩ := Option.bind_eq_some_iff.mp h
    obtain ⟨hdr, hknown, hext⟩ := Option.bind_eq_some_iff.mp hext
    obtain ⟨hdr', hfields, hset⟩ := Option.bind_eq_some_iff.mp hext
    obtain ⟨rfl, rfl⟩ := Prod.mk.inj (Option.some.inj hset)
    exact .cons hknown hfields (ih hrest h)

/-- The headers of a path are extracted one after the other. -/
theorem of_path {p : Parser} (honly : p.OnlyExtracts) {i : Option ℕ} {path : List ParseState}
    (h : p.Path cast registerArrays data i s path t) :
    Extracts data s (path.flatMap ParseState.extracted) t := by
  induction h with
  | done s => exact .nil s
  | step hstate hnext _ ih =>
    obtain ⟨s', hops, hnext⟩ := Option.bind_eq_some_iff.mp hnext
    obtain ⟨next, -, hnext⟩ := Option.bind_eq_some_iff.mp hnext
    obtain ⟨rfl, rfl⟩ := Prod.mk.inj (Option.some.inj hnext)
    exact (of_execAll (honly _ (List.mem_of_getElem? hstate)) hops).append ih

/-- Other headers are not touched. -/
theorem headers_of_notMem (h : Extracts data s headers t) {i : ℕ} (hi : i ∉ headers) :
    t.1.headers[i]? = s.1.headers[i]? := by
  induction h with
  | nil s => rfl
  | cons _ _ _ ih =>
    rw [List.mem_cons, not_or] at hi
    rw [ih hi.2]
    exact List.getElem?_set_ne (Ne.symm hi.1)

/-- Deparsing the extracted headers replaces their bytes in the destination, and by the original
bytes exactly when no field that assigns its first byte has a bit set before it. The induction
is on the headers; distinct ones keep what was extracted to them. -/
theorem deparseHeaders (h : Extracts data s headers t) (hnodup : headers.Nodup)
    (hfix : ∀ i ∈ headers, ∀ hdr, s.1.headers[i]? = some hdr → hdr.Fixed)
    (hstart : s.2 ≤ data.length) :
    ∃ hdrs, headers.mapM (t.1.headers[·]?) = some hdrs ∧ (∀ hdr ∈ hdrs, hdr.isValid = true) ∧
      t.2 = s.2 + Deparser.headersSize hdrs ∧ t.2 ≤ data.length ∧
      ∀ dst : List Byte, Deparser.headersSize hdrs ≤ dst.length →
        Deparser.deparseHeaders hdrs dst = some (Deparser.putHeaders hdrs dst) ∧
        (Deparser.putHeaders hdrs dst).drop (Deparser.headersSize hdrs) =
          dst.drop (Deparser.headersSize hdrs) ∧
        ((Deparser.putHeaders hdrs dst).take (Deparser.headersSize hdrs) =
          (data.drop s.2).take (Deparser.headersSize hdrs) ↔
          Header.ClearBefore data (8 * s.2) (s.1.widths headers)) := by
  induction h with
  | nil s =>
    refine ⟨[], rfl, by simp, rfl, hstart, fun dst _ => ⟨rfl, rfl, ?_⟩⟩
    simp [Deparser.headersSize, PHV.widths, Header.ClearBefore]
  | @cons header headers s t hdr hdr' evalVL hknown hext hrest ih =>
    obtain ⟨hnotMem, hnodup⟩ := List.nodup_cons.mp hnodup
    have hhdr := hfix header List.mem_cons_self hdr hknown
    obtain ⟨-, hvalid, hsize, -, hlen⟩ := hhdr.of_extract hext
    rw [List.length_drop] at hlen
    have hfix' : ∀ i ∈ headers, ∀ g, (s.1.setHeader header hdr').headers[i]? = some g →
        g.Fixed := by
      intro i hi g hg
      have hne : header ≠ i := fun heq => hnotMem (heq ▸ hi)
      rw [PHV.setHeader, List.getElem?_set_ne hne] at hg
      exact hfix i (List.mem_cons_of_mem _ hi) g hg
    obtain ⟨hdrs, hmap, hall, hend, hle, hdep⟩ := ih hnodup hfix' (by dsimp only; omega)
    have hlast : t.1.headers[header]? = some hdr' := by
      rw [hrest.headers_of_notMem hnotMem]
      exact List.getElem?_set_self (List.getElem?_eq_some_iff.mp hknown).1
    have hsum : Deparser.headersSize (hdr' :: hdrs) =
        hdr.nbytesPacket + Deparser.headersSize hdrs := by
      rw [Deparser.headersSize, List.map_cons, List.sum_cons, hsize]
      rfl
    refine ⟨hdr' :: hdrs, ?_, ?_, ?_, hle, ?_⟩
    · rw [List.mapM_cons, hlast, hmap]
      rfl
    · refine List.forall_mem_cons.mpr ⟨?_, hall⟩
      rw [Header.isValid, hvalid, Bool.or_true]
    · rw [hend, hsum, hsize]
      dsimp only
      omega
    · intro dst hdst
      rw [hsum] at hdst ⊢
      obtain ⟨hsome, hdrop, hiff⟩ := hhdr.deparse_extract hext dst (by omega)
      obtain ⟨hsome', hdrop', hiff'⟩ := hdep (dst.drop hdr.nbytesPacket)
        (by rw [List.length_drop]; omega)
      have hfirst : ((hdr'.put dst).take hdr.nbytesPacket).length = hdr.nbytesPacket := by
        rw [List.length_take, Header.length_put]
        omega
      rw [Deparser.deparseHeaders, Deparser.putHeaders, hsome, hsize]
      refine ⟨?_, ?_, ?_⟩
      · rw [Option.bind_eq_bind, Option.bind_some, hdrop, hsome']
        rfl
      · rw [hdrop]
        rw [List.drop_append, List.drop_eq_nil_of_le (by omega), List.nil_append, hfirst,
          Nat.add_sub_cancel_left, hdrop', List.drop_drop]
      · rw [hdrop, List.take_add, List.take_append_of_le_length (by omega),
          List.take_of_length_le (by omega), List.drop_left' hfirst, List.take_add,
          List.append_eq_append_iff_of_size_eq_left (by simp [hfirst]; omega), hiff, List.drop_drop]
        rw [PHV.widths_setHeader hnotMem, hsize] at hiff'
        dsimp only at hiff'
        rw [hiff', PHV.widths_cons hknown, Header.clearBefore_append, Header.clearBefore_drop,
          hhdr.size, Nat.add_zero, Nat.mul_add]

end Extracts

namespace Deparser

variable {d : Deparser} {phv : PHV} {hdrs : List Header}

/-- Headers that are not valid are passed over. -/
theorem validHeaders_eq {headers : List ℕ} (hmap : headers.mapM (phv.headers[·]?) = some hdrs)
    (hall : ∀ hdr ∈ hdrs, hdr.isValid = true) (hlist : d.headers.filter (· ∈ headers) = headers)
    (hothers : ∀ i ∈ d.headers, i ∉ headers → ∃ hdr, phv.headers[i]? = some hdr ∧
      hdr.isValid = false) : d.validHeaders phv = some hdrs := by
  have hgen : ∀ (l : List ℕ) (hdrs : List Header), (∀ i ∈ l, i ∉ headers → ∃ hdr,
      phv.headers[i]? = some hdr ∧ hdr.isValid = false) →
      (l.filter (· ∈ headers)).mapM (phv.headers[·]?) = some hdrs →
      (∀ hdr ∈ hdrs, hdr.isValid = true) →
      ∃ all, l.mapM (phv.headers[·]?) = some all ∧ all.filter Header.isValid = hdrs := by
    intro l
    induction l with
    | nil =>
      intro hdrs _ hmap _
      obtain rfl := Option.some.inj hmap
      exact ⟨[], rfl, rfl⟩
    | cons i l ih =>
      intro hdrs hothers hmap hall
      rw [List.forall_mem_cons] at hothers
      by_cases hi : i ∈ headers
      · rw [List.filter_cons_of_pos (by simpa using hi), List.mapM_cons] at hmap
        obtain ⟨hdr, hknown, hmap⟩ := Option.bind_eq_some_iff.mp hmap
        obtain ⟨rest, hrest, hcons⟩ := Option.bind_eq_some_iff.mp hmap
        obtain rfl := Option.some.inj hcons
        rw [List.forall_mem_cons] at hall
        obtain ⟨all, hl, hfilter⟩ := ih rest hothers.2 hrest hall.2
        refine ⟨hdr :: all, ?_, ?_⟩
        · rw [List.mapM_cons, hknown, hl]
          rfl
        · rw [List.filter_cons_of_pos hall.1, hfilter]
      · obtain ⟨hdr, hknown, hinvalid⟩ := hothers.1 hi
        rw [List.filter_cons_of_neg (by simpa using hi)] at hmap
        obtain ⟨all, hl, hfilter⟩ := ih hdrs hothers.2 hmap hall
        refine ⟨hdr :: all, ?_, ?_⟩
        · rw [List.mapM_cons, hknown, hl]
          rfl
        · rw [List.filter_cons_of_neg (by simp [hinvalid]), hfilter]
  obtain ⟨all, hl, hfilter⟩ := hgen d.headers hdrs hothers (by rwa [hlist]) hall
  rw [validHeaders, hl, ← hfilter]
  rfl

end Deparser

/-- A header of which the second field has two bytes of its own and starts in them further to
the right than in the header. -/
def splitHeader : Header :=
  { fields := [{ nbits := 1 }, { nbits := 9 }, { nbits := 6 }], nbytesPacket := 2 }

theorem fixed_splitHeader : splitHeader.Fixed := by
  refine ⟨?_, rfl, rfl⟩
  intro f hf
  simp only [splitHeader, List.mem_cons, List.not_mem_nil, or_false] at hf
  obtain rfl | rfl | rfl := hf <;> exact ⟨by decide, by decide, by decide⟩

/-- A header of fixed width that is extracted and deparsed is the same as before, and so is a
packet that is parsed and deparsed with the headers in the order of their extraction, exactly
when no field that starts further left in its first byte than in its own bytes, and has more
than one byte, comes after a bit that is set in that first byte. -/
theorem parse_deparse_identity (cast : BignumCast) (registerArrays : List (List ℤ)) :
    (∀ (evalVL : Header → Expression → Option ℤ) (h : Header) (data dst : List Byte), h.Fixed →
      data.length = h.nbytesPacket → dst.length = h.nbytesPacket →
      ∃ h' out, h.extract evalVL data = some h' ∧ h'.deparse dst = some out ∧
        (out = data ↔ Header.ClearBefore data 0 h.widths)) ∧
    ∀ (p : Parser) (d : Deparser) (pkt : Packet) (path : List ParseState) (t : PHV × ℕ)
      (fuel : ℕ),
      p.OnlyExtracts →
      p.Path cast registerArrays pkt.buffer.data p.initState (pkt.phv, 0) path t →
      pkt.payloadSize + t.2 ≤ pkt.buffer.dataSize →
      path.length ≤ fuel →
      (path.flatMap ParseState.extracted).Nodup →
      (∀ i ∈ path.flatMap ParseState.extracted, ∀ h, pkt.phv.headers[i]? = some h → h.Fixed) →
      d.headers.filter (· ∈ path.flatMap ParseState.extracted) =
        path.flatMap ParseState.extracted →
      (∀ i ∈ d.headers, i ∉ path.flatMap ParseState.extracted →
        ∃ h, pkt.phv.headers[i]? = some h ∧ h.isValid = false) →
      d.checksums = [] →
      ∃ parsed out, p.parse cast registerArrays fuel pkt = some parsed ∧
        d.deparse parsed = some out ∧
        (out.buffer.data = pkt.buffer.data ↔
          Header.ClearBefore pkt.buffer.data 0
            (pkt.phv.widths (path.flatMap ParseState.extracted))) := by
  constructor
  · intro evalVL h data dst hfix hdata hdst
    obtain ⟨h', hext⟩ : ∃ h', h.extract evalVL data = some h' := hfix.extract_spec hdata.ge
    obtain ⟨hout, -, hiff⟩ := hfix.deparse_extract hext dst hdst.ge
    have hlength : (h'.put dst).length = dst.length := Header.length_put
    rw [List.take_of_length_le (by omega), List.take_of_length_le (by omega)] at hiff
    exact ⟨h', _, hext, hout, hiff⟩
  · intro p d pkt path t fuel honly hpath hpayload hfuel hnodup hfix hlist
      hothers hsums
    have hextracts := Extracts.of_path honly hpath
    obtain ⟨hdrs, hmap, hall, hend, hle, hdep⟩ :=
      hextracts.deparseHeaders hnodup hfix (Nat.zero_le _)
    have hsize : t.2 = Deparser.headersSize hdrs := by simpa using hend
    have hvalid : d.validHeaders t.1 = some hdrs := by
      refine Deparser.validHeaders_eq hmap hall hlist fun i hi hnot => ?_
      obtain ⟨hdr, hknown, hinvalid⟩ := hothers i hi hnot
      exact ⟨hdr, (hextracts.headers_of_notMem hnot).trans hknown, hinvalid⟩
    obtain ⟨b, hpop, -, hpush⟩ := pkt.buffer.push_pop (n := t.2) (by omega)
    obtain ⟨hput, hdrop, hiff⟩ := hdep pkt.buffer.data (by rw [← hsize]; exact hle)
    obtain ⟨buffer, hwrite, hdata⟩ := PacketBuffer.write_eq_some hput
      (by rw [Deparser.length_putHeaders, PacketBuffer.length_data])
    refine ⟨{ pkt with phv := t.1, buffer := b }, { pkt with phv := t.1, buffer }, ?_, ?_, ?_⟩
    · cases hinit : p.initState with
      | none =>
        rw [hinit] at hpath
        cases hpath
        obtain rfl := Option.some.inj (hpop.symm.trans PacketBuffer.pop_zero)
        rw [Parser.parse, hinit]
      | some i =>
        rw [hinit] at hpath
        simp only [Parser.parse, hinit, hpath.loop hfuel, Packet.remove, if_pos hpayload, hpop,
          Option.bind_eq_bind, Option.bind_some]
    · simp only [Deparser.deparse, hsums, List.foldl_nil, hvalid, Packet.prepend, ← hsize, hpush,
        hwrite, Option.bind_eq_bind, Option.bind_some]
    · rw [Nat.mul_zero, List.drop_zero] at hiff
      dsimp only
      rw [hdata, ← hiff]
      constructor
      · intro heq
        rw [heq]
      · intro htake
        rw [← List.take_append_drop (Deparser.headersSize hdrs)
          (Deparser.putHeaders hdrs pkt.buffer.data), htake, hdrop, List.take_append_drop]

/-- Where the bits before the second field are zero, the header comes out as it went in. -/
theorem parse_deparse_identity_split :
    (∃ h', splitHeader.extract (fun _ _ => none) [0x4a, 0x5b] = some h' ∧
      h'.deparse [0xff, 0xff] = some [0x4a, 0x5b]) ∧
    ∃ parsed out, (Parser.mk [{ parserOps := [.extract 0] }] (some 0)).parse checkedCast [] 1
        { phv := { headers := [splitHeader] }
          buffer := ⟨[0, 0x4a, 0x5b, 0x99], 1, 3, rfl⟩ } = some parsed ∧
      ({ headers := [0] } : Deparser).deparse parsed = some out ∧
      out.buffer.data = [0x4a, 0x5b, 0x99] := by
  obtain ⟨hheader, hpacket⟩ := parse_deparse_identity checkedCast []
  constructor
  · obtain ⟨h', out, hext, hout, hiff⟩ := hheader (fun _ _ => none) splitHeader [0x4a, 0x5b]
      [0xff, 0xff] fixed_splitHeader rfl rfl
    obtain rfl := hiff.mpr (by decide +kernel)
    exact ⟨h', hext, hout⟩
  · obtain ⟨parsed, out, hparsed, hout, hiff⟩ := hpacket
      ⟨[{ parserOps := [.extract 0] }], some 0⟩ { headers := [0] }
      { phv := { headers := [splitHeader] }, buffer := ⟨[0, 0x4a, 0x5b, 0x99], 1, 3, rfl⟩ }
      _ _ 1 (by simp [Parser.OnlyExtracts]) (.step rfl rfl (.done _)) (by decide +kernel)
      (by decide) (by decide) (by
        intro i hi h hh
        obtain rfl : i = 0 := by simpa [ParseState.extracted, ParserOp.extracted] using hi
        obtain rfl : splitHeader = h := by simpa using hh
        exact fixed_splitHeader)
      (by decide) (by decide) rfl
    exact ⟨parsed, out, hparsed, hout, hiff.mpr (by decide +kernel)⟩

/-- The bit before the second field is lost. -/
theorem deparse_loses_bits : ¬ ∀ (evalVL : Header → Expression → Option ℤ) (h : Header)
    (data dst : List Byte), h.Fixed → data.length = h.nbytesPacket →
    dst.length = h.nbytesPacket →
    ∃ h', h.extract evalVL data = some h' ∧ h'.deparse dst = some data := by
  intro hall
  obtain ⟨h', hext, hsame⟩ := hall (fun _ _ => none) splitHeader [0x80, 0x00] [0xff, 0xff]
    fixed_splitHeader rfl rfl
  have hlost : (splitHeader.extract (fun _ _ => none) [0x80, 0x00]).bind
      (Header.deparse · [0xff, 0xff]) = some [0, 0] := by
    decide +kernel
  rw [hext, Option.bind_some, hsame] at hlost
  revert hlost
  decide

end Bmv2
