import Bmv2.Packet.Clone

/-! Clones that behave as the original does: on the headers and stacks that are the same in the
PHV that the pool hands out, and on no others. -/
namespace Bmv2
open ByteBits Bisimulation

variable {cast : BignumCast} {registerArrays : List (List ℤ)}

namespace PHV.AgreeOn

variable {known live : ℕ → Prop} {phv phv' : PHV} {data : List Byte}

/-- What an expression reads, where it only loads fields of headers that are known. -/
theorem evalInput (ha : AgreeOn known live phv phv') (locals : List Data) :
    EvalInput.Agree (fun header _ => known header) { phv, locals, registerArrays }
      { phv := phv', locals, registerArrays } where
  locals := rfl
  registerArrays := rfl
  length := ha.headers.length_eq
  headerValid header := by
    have hrel := Related.getElem? ha.headers header
    unfold EvalInput.headerValid
    exact Related.eq (hrel.map fun _ _ h => h.1)
  field header fieldOffset hk := by
    unfold EvalInput.field PHV.getField
    rw [ha.header header hk]

/-- A header that is not known, and so not valid on either side. -/
theorem invalid (ha : AgreeOn known live phv phv') {i : ℕ} (hk : ¬ known i)
    (hi : ∀ h, phv.headers[i]? = some h → h.isValid → known i) :
    Related (fun h h' => ¬ h.isValid ∧ ¬ h'.isValid) phv.headers[i]? phv'.headers[i]? := by
  refine (Related.getElem? ha.headers i).imp_of_eq fun h h' hh hshape => ?_
  have hinvalid : ¬ h.isValid := fun hv => hk (hi h hh hv)
  exact ⟨hinvalid, hshape.1 ▸ hinvalid⟩

/-- What is deparsed of a header that is known, or not valid. -/
theorem wire (ha : AgreeOn known live phv phv') {i : ℕ}
    (hi : ∀ h, phv.headers[i]? = some h → h.isValid → known i) : phv.wire i = phv'.wire i := by
  unfold PHV.wire
  by_cases hk : known i
  · rw [ha.header i hk]
  · refine Related.eq ((ha.invalid hk hi).map ?_)
    rintro h h' ⟨hv, hv'⟩
    rw [if_neg hv, if_neg hv']

/-- A field is written, whether its header is known or not. -/
theorem modifyField (ha : AgreeOn known live phv phv') (dst : FieldRef) {u : Field → Option Field}
    (hu : known dst.header ∨ ∀ f, (u f).isSome) :
    Related (AgreeOn known live) (phv.modifyField dst u) (phv'.modifyField dst u) := by
  unfold PHV.modifyField
  by_cases hk : known dst.header
  · rw [← ha.header _ hk]
    exact .same _ fun h _ => .same _ fun f _ => .same _ fun f' _ =>
      .some (ha.setHeader ⟨rfl, rfl⟩ fun _ => rfl)
  · have htotal := hu.resolve_left hk
    refine .bind (Related.getElem? ha.headers dst.header) fun h h' hshape => ?_
    have hfields : Related (fun _ _ => True) h.fields[dst.offset]? h'.fields[dst.offset]? := by
      refine .getElem? ?_ _
      rw [List.forall₂_iff_get]
      exact ⟨hshape.2, fun _ _ _ => trivial⟩
    refine .bind hfields fun f f' _ => ?_
    obtain ⟨g, hg⟩ := Option.isSome_iff_exists.mp (htotal f)
    obtain ⟨g', hg'⟩ := Option.isSome_iff_exists.mp (htotal f')
    rw [hg, hg']
    refine .some (ha.setHeader ⟨hshape.1, ?_⟩ fun h => absurd h hk)
    rw [List.length_set, List.length_set]
    exact hshape.2

theorem checksum (ha : AgreeOn known live phv phv') {c : Checksum}
    (hcond : LoadsWithin (fun header _ => known header) c.conditionOps)
    (hinputs : ∀ i ∈ c.inputs, ∀ h, phv.headers[i]? = some h → h.isValid → known i) :
    Related (AgreeOn known live) (c.update phv cast registerArrays data)
      (c.update phv' cast registerArrays data) := by
  obtain ⟨field, impl, condition⟩ := c
  have hupdate : Related (AgreeOn known live)
      (Checksum.update_ ⟨field, impl, condition⟩ phv data)
      (Checksum.update_ ⟨field, impl, condition⟩ phv' data) := by
    unfold Checksum.update_
    cases impl with
    | calcBased calculation =>
      have hout : calculation.output phv data = calculation.output phv' data := by
        apply NamedCalculation.output_congr
        intro entry hentry i hi
        exact ha.wire (hinputs i (List.mem_flatMap.mpr ⟨entry, hentry, hi⟩))
      dsimp only
      rw [hout]
      exact .same _ fun cksum _ => ha.modifyField _ (.inr fun f => rfl)
    | ipv4 cksum16 =>
      have hin := hinputs field.header List.mem_cons_self
      by_cases hk : known field.header
      · dsimp only
        rw [← ha.header _ hk]
        refine .same _ fun h _ => .ite (fun _ => ?_) fun _ => .some ha
        exact .same _ fun buffer _ => ha.modifyField _ (.inl hk)
      · refine .bind (ha.invalid hk hin) ?_
        rintro h h' ⟨hv, hv'⟩
        dsimp only
        rw [if_neg hv, if_neg hv']
        exact .some ha
  unfold Checksum.update
  cases condition with
  | none => exact hupdate
  | some condition =>
    have heval : condition.evalBool cast { phv, registerArrays } [] =
        condition.evalBool cast { phv := phv', registerArrays } [] :=
      Expression.evalBool_congr (ha.evalInput []) cast hcond []
    dsimp only
    rw [heval]
    exact .same _ fun met _ => .ite (fun _ => hupdate) fun _ => .some ha

theorem checksums (ha : AgreeOn known live phv phv') {checksums : List Checksum}
    (hc : ChecksumsClean cast registerArrays data known checksums phv) :
    Related (AgreeOn known live)
      (checksums.foldlM (fun phv c => c.update phv cast registerArrays data) phv)
      (checksums.foldlM (fun phv c => c.update phv cast registerArrays data) phv') := by
  induction checksums generalizing phv phv' with
  | nil => exact .some ha
  | cons c checksums ih =>
    obtain ⟨hcond, hinputs, hrest⟩ := hc
    rw [List.foldlM_cons, List.foldlM_cons]
    exact (ha.checksum hcond hinputs).bind_of_eq fun phv1 _ hupdate h1 => ih h1 (hrest phv1 hupdate)

end PHV.AgreeOn

theorem PHV.mem_lookups {phv : PHV} {headers : List ℕ} {hs : List Header} {h : Header}
    (hall : headers.mapM (phv.headers[·]?) = some hs) (hh : h ∈ hs) :
    ∃ i ∈ headers, phv.headers[i]? = some h := by
  induction headers generalizing hs with
  | nil =>
    obtain rfl := Option.some.inj hall
    cases hh
  | cons i headers ih =>
    rw [List.mapM_cons] at hall
    obtain ⟨h', hh', hall⟩ := Option.bind_eq_some_iff.mp hall
    obtain ⟨rest, hrest, hall⟩ := Option.bind_eq_some_iff.mp hall
    obtain rfl := Option.some.inj hall
    rcases List.mem_cons.mp hh with rfl | hh
    · exact ⟨i, List.mem_cons_self, hh'⟩
    · obtain ⟨j, hj, hk⟩ := ih hrest hh
      exact ⟨j, List.mem_cons_of_mem i hj, hk⟩

theorem Deparser.mem_validHeaders {d : Deparser} {phv : PHV} {hs : List Header} {h : Header}
    (hv : d.validHeaders phv = some hs) (hh : h ∈ hs) :
    ∃ i ∈ d.headers, phv.headers[i]? = some h ∧ h.isValid := by
  obtain ⟨all, hall, hv⟩ := Option.bind_eq_some_iff.mp hv
  obtain rfl := Option.some.inj hv
  obtain ⟨hmem, hvalid⟩ := List.mem_filter.mp hh
  obtain ⟨i, hi, hk⟩ := PHV.mem_lookups hall hmem
  exact ⟨i, hi, hk, hvalid⟩

/-- The bytes are the same after headers have been written to the room that was made for them. -/
theorem PacketBuffer.SameFrom.write {b b' : PacketBuffer} {hs gs : List Header}
    (h : SameFrom (Deparser.headersSize hs) b b') (hw : ∀ hdr ∈ hs, hdr.Whole)
    (hwire : hs.map Header.wire = gs.map Header.wire) :
    Related SameData (b.write (Deparser.deparseHeaders hs))
      (b'.write (Deparser.deparseHeaders gs)) := by
  have hlen : b.data.length = b'.data.length := by
    rw [length_data, length_data, h.dataSize]
  have hroom : Deparser.headersSize hs ≤ b.data.length := by
    rw [length_data]
    exact h.room
  have hput := Deparser.deparseHeaders_eq hw hroom
  have hput' := Deparser.deparseHeaders_eq hw (hlen ▸ hroom)
  rw [Deparser.deparseHeaders_congr hwire] at hput'
  obtain ⟨c, hc, hdata⟩ := write_eq_some hput (by rw [Deparser.length_putHeaders, length_data])
  obtain ⟨c', hc', hdata'⟩ := write_eq_some hput' (by rw [Deparser.length_putHeaders, length_data])
  rw [hc, hc']
  refine .some ⟨?_, ?_⟩
  · rw [length_write hc, length_write hc', h.length]
  · rw [hdata, hdata', eq_iff_bitAt (by
      rw [Deparser.length_putHeaders, Deparser.length_putHeaders, hlen])]
    intro j _
    apply Deparser.bitAt_putHeaders_whole hw hlen hroom
    by_cases hj : j < 8 * Deparser.headersSize hs
    · exact .inl hj
    · right
      have hbit := congrArg (bitAt · (j - 8 * Deparser.headersSize hs)) h.data
      simp only [bitAt_drop] at hbit
      rwa [show 8 * Deparser.headersSize hs + (j - 8 * Deparser.headersSize hs) = j by omega]
        at hbit

/-- A packet and its clone, as far as they are the same. -/
structure CloneOf (known live : ℕ → Prop) (pkt clone : Packet) : Prop where
  phv : PHV.AgreeOn known live pkt.phv clone.phv
  buffer : pkt.buffer.SameData clone.buffer

namespace CloneOf

variable {known live : ℕ → Prop} {pkt clone : Packet}

theorem deparse (h : CloneOf known live pkt clone) {headers : List ℕ} {checksums : List Checksum}
    (hchecksums : ChecksumsClean cast registerArrays pkt.buffer.data known checksums pkt.phv)
    (hheaders : ∀ phv, PacketOp.updateChecksums cast registerArrays pkt checksums = some phv →
      ∀ i ∈ headers, ∀ hdr, phv.headers[i]? = some hdr → hdr.isValid → known i ∧ hdr.Whole) :
    Related (Answers (CloneOf known live))
      ((PacketOp.deparse headers checksums).exec cast registerArrays pkt)
      ((PacketOp.deparse headers checksums).exec cast registerArrays clone) := by
  obtain ⟨hphv, hbuffer⟩ := h
  have hupdate : Related (PHV.AgreeOn known live)
      (PacketOp.updateChecksums cast registerArrays pkt checksums)
      (PacketOp.updateChecksums cast registerArrays clone checksums) := by
    unfold PacketOp.updateChecksums
    rw [← hbuffer.data]
    exact hphv.checksums hchecksums
  refine hupdate.bind_of_eq fun phv phv' hphv1 ha => ?_
  have hvalid : Related (fun hs gs => hs.map Header.wire = gs.map Header.wire)
      (({ headers } : Deparser).validHeaders phv) (({ headers } : Deparser).validHeaders phv') :=
    Deparser.validHeaders_related fun i hi =>
      ha.wire fun hdr hk hv => (hheaders phv hphv1 i hi hdr hk hv).1
  have hdeparse : Related (CloneOf known live) (({ headers } : Deparser).deparse { pkt with phv })
      (({ headers } : Deparser).deparse { clone with phv := phv' }) := by
    refine hvalid.bind_of_eq fun hs gs hhs hwire => ?_
    have hwhole : ∀ hdr ∈ hs, hdr.Whole := fun hdr hh => by
      obtain ⟨i, hi, hk, hv⟩ := Deparser.mem_validHeaders hhs hh
      exact (hheaders phv hphv1 i hi hdr hk hv).2
    have hsize := Deparser.headersSize_congr hwire
    unfold Packet.prepend
    dsimp only
    rw [← hsize]
    refine Related.bind (P := fun p q => p.phv = phv ∧ q.phv = phv' ∧
      PacketBuffer.SameFrom (Deparser.headersSize hs) p.buffer q.buffer) ?_ ?_
    · exact (hbuffer.push _).bind fun b b' hb => .some ⟨rfl, rfl, hb⟩
    · rintro p q ⟨rfl, rfl, hb⟩
      exact (hb.write hwhole hwire).bind fun b b' hsame => .some ⟨ha, hsame⟩
  exact hdeparse.bind fun p q h => .some ⟨h.buffer.data, h⟩

/-- Clean operations answer alike, and keep what is the same. -/
theorem exec {orig pooled : PHV} {pkt clone : Packet}
    (h : CloneOf (Copied orig pooled) (StackCopied orig pooled) pkt clone) {op : HeaderOp}
    (hclean : op.Clean cast registerArrays orig pooled pkt) :
    Related (Answers (CloneOf (Copied orig pooled) (StackCopied orig pooled)))
      (op.exec cast registerArrays pkt) (op.exec cast registerArrays clone) := by
  have counted : ∀ {x y : Option (ℕ × PHV)},
      Related (PHV.AgreeOn.Counts (Copied orig pooled) (StackCopied orig pooled)) x y →
      Related (Answers (CloneOf (Copied orig pooled) (StackCopied orig pooled)))
        (x.map fun r => (HeaderAnswer.count r.1, { pkt with phv := r.2 }))
        (y.map fun r => (HeaderAnswer.count r.1, { clone with phv := r.2 })) := fun hrel =>
    hrel.map fun _ _ hc => ⟨congrArg HeaderAnswer.count hc.1, hc.2, h.buffer⟩
  cases op with
  | pushFront stack num => exact counted (h.phv.pushFront hclean)
  | popFront stack num => exact counted (h.phv.popFront hclean)
  | pushBack stack => exact counted (h.phv.pushBack hclean)
  | popBack stack => exact counted (h.phv.popBack hclean)
  | readField f =>
    have hfield : Related Eq (pkt.phv.getField f.header f.offset)
        (clone.phv.getField f.header f.offset) := by
      unfold PHV.getField
      rw [← h.phv.header f.header hclean]
      exact .refl _
    exact hfield.map fun _ _ heq => heq ▸ ⟨rfl, h⟩
  | deparse headers checksums =>
    exact (h.deparse hclean.1 hclean.2).bind fun _ _ hd =>
      .some ⟨congrArg HeaderAnswer.bytes hd.1, hd.2⟩

end CloneOf

section Copy

variable {phv₀ orig pooled : PHV} {h₀ h g : Header}

/-- PHVs of one factory have the same places. -/
theorem PHV.Like.places (ho : phv₀.Like orig) (hp : phv₀.Like pooled) (i : ℕ) :
    Related (fun h g => ∃ h₀ : Header, h₀.Like h ∧ h₀.Like g) orig.headers[i]?
      pooled.headers[i]? :=
  (Related.getElem? ho.headers i).join (Related.getElem? hp.headers i)

end Copy

/-- A stack for one header of one byte. -/
def stackFactory : PHVFactory where
  headerDescs := [{ headerType := { fieldsInfo := [{ bitwidth := 8 }] } }]
  headerStackDescs := [{ headerType := { fieldsInfo := [{ bitwidth := 8 }] }, headers := [0] }]

/-- Its PHVs, with the header extracted to the stack or not. -/
def stackPhv (extracted : Bool) : PHV where
  headers := [{
    fields := [{ nbits := 8, bytes := [if extracted then 0xab else 0], arith := false }]
    valid := extracted
    nbytesPacket := 1 }]
  headerStacks := [{ headers := [0], next := extracted.toNat }]

theorem create_stackFactory : stackFactory.create = some (stackPhv false) := rfl

/-- The packet whose first byte has been parsed. -/
def stackPacket : Packet where
  phv := stackPhv true
  buffer := ⟨[0xab, 0xcd], 1, 1, rfl⟩

theorem inUse_stackPacket : stackFactory.InUse checkedCast stackPacket.phv := by
  have hparse :
      (PacketOp.parse ⟨[{ parserOps := [.extractStack 0] }], some 0⟩ 1).exec checkedCast []
      { phv := stackPhv false, buffer := ⟨[0xab, 0xcd], 0, 2, rfl⟩ } = some ([], stackPacket) := by
    rfl
  exact .exec (.create create_stackFactory) hparse

end Bmv2
