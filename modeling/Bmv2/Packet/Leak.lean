import Bmv2.Packet.Fidelity
import Bmv2.Packet.LiveStacks

/-! What an earlier packet has left in a PHV does not show, as long as every header that becomes
valid is defined by then, and no others are read. Pushing to a stack does not see to that. -/
namespace Bmv2
open ByteBits Bisimulation

section Clean

variable (cast : BignumCast) (registerArrays : List (List ℤ)) (phv : PHV)

/-- The fields that a parameter is computed from can be read. -/
def DataParam.Clean : DataParam → Prop
  | .field src => phv.Readable src.header src.offset
  | .registerGen _ idx => LoadsWithin phv.Readable idx.ops
  | .expression e => LoadsWithin phv.Readable e.ops
  | .const _ => True
  | .actionData _ => True
  | .registerRef _ _ => True

/-- The headers that are made valid again by pushing to a stack are valid before: they are the
last ones that the stack has room for. -/
def PHV.PushClean (stack num : ℕ) : Prop :=
  ∀ s, phv.headerStacks[stack]? = some s → phv.StackKin s ∧
    ∀ p, s.pushedNext num - num ≤ p → p < s.pushedNext num - num + num → phv.ValidAt s p

/-- The primitive reads fields that can be read, and every header that it makes valid is defined
by then. -/
def Primitive.Clean (actionData : List Data) : Primitive → Prop
  | .modifyField _ src => src.Clean phv
  | .addHeader _ => True
  | .addHeaderFast hdr => ∀ h, phv.headers[hdr]? = some h → h.isValid
  | .copyHeader _ src => ∀ h, phv.headers[src]? = some h → h.isValid → ∀ f ∈ h.fields, f.arith
  | .removeHeader _ => True
  | .push stack num => num.Clean phv ∧
    ∀ d, num.toData cast { phv, locals := actionData, registerArrays } = some d →
      ∀ n, d.getUint cast = some n → phv.PushClean stack n
  | .pop stack num => num.Clean phv ∧ ∀ s, phv.headerStacks[stack]? = some s → phv.StackKin s

def ParserOp.Clean : ParserOp → Prop
  | .extract _ => True
  | .extractStack _ => True
  | .setFromField _ src => phv.Readable src.header src.offset
  | .setFromData _ _ => True
  | .setFromLookahead _ _ => True
  | .setFromExpression _ src => LoadsWithin phv.Readable src.ops

/-- The loop over the operations of a state. -/
def ParserOp.AllClean (data : List Byte) : List ParserOp → PHV × ℕ → Prop
  | [], _ => True
  | op :: ops, (phv, bytesParsed) => op.Clean phv ∧
    ∀ phv' bytes, op.exec cast registerArrays phv (data.drop bytesParsed) = some (phv', bytes) →
      AllClean data ops (phv', bytesParsed + bytes)

/-- The header that a part of the key is taken from is valid. -/
def ParseSwitchEntry.Clean : ParseSwitchEntry → Prop
  | .field header _ => ∀ h, phv.headers[header]? = some h → h.isValid
  | .stackField stack _ =>
    ∀ i, phv.stackLast stack = some i → ∀ h, phv.headers[i]? = some h → h.isValid
  | .lookahead _ => True

def ParseState.Clean (st : ParseState) (data : List Byte) (s : PHV × ℕ) : Prop :=
  ParserOp.AllClean cast registerArrays data st.parserOps s ∧
    ∀ s', ParserOp.execAll cast registerArrays data st.parserOps s = some s' →
      ∀ entries, st.keyBuilder = some entries → ∀ entry ∈ entries, entry.Clean s'.1

/-- The loop of `parse`. -/
def Parser.LoopClean (p : Parser) (data : List Byte) : ℕ → Option ℕ → PHV × ℕ → Prop
  | _, none, _ => True
  | 0, some _, _ => True
  | fuel + 1, some i, s => ∀ st, p.parseStates[i]? = some st →
    st.Clean cast registerArrays data s ∧
    ∀ next s', st.findNextState cast registerArrays data s = some (next, s') →
      LoopClean p data fuel next s'

/-- The conditions of checksums load fields that can be read. -/
def Checksum.AllClean (data : List Byte) : List Checksum → PHV → Prop
  | [], _ => True
  | c :: checksums, phv => LoadsWithin phv.Readable c.conditionOps ∧
    ∀ phv', c.update phv cast registerArrays data = some phv' →
      AllClean data checksums phv'

/-- Nothing that the packet has not defined is read or made valid. -/
def PacketOp.Clean (pkt : Packet) : PacketOp → Prop
  | .parse p fuel =>
    p.LoopClean cast registerArrays pkt.buffer.data fuel p.initState (pkt.phv, 0)
  | .primitive prim actionData => prim.Clean cast registerArrays pkt.phv actionData
  | .deparse _ checksums =>
    Checksum.AllClean cast registerArrays pkt.buffer.data checksums pkt.phv

end Clean

namespace PHV.SameLive

variable {cast : BignumCast} {registerArrays : List (List ℤ)} {phv₀ phv phv' : PHV}
  {data : List Byte}

theorem toData (hs : phv.SameLive phv') {param : DataParam} (hclean : param.Clean phv)
    (locals : List Data) :
    param.toData cast { phv, locals, registerArrays } =
      param.toData cast { phv := phv', locals, registerArrays } := by
  have hinp : EvalInput.Agree phv.Readable { phv, locals, registerArrays }
      { phv := phv', locals, registerArrays } := hs.evalInput locals
  cases param with
  | const value => rfl
  | field src => exact hinp.field _ _ hclean
  | actionData offset => rfl
  | registerRef array idx => rfl
  | registerGen array idx =>
    unfold DataParam.toData
    dsimp only
    rw [Expression.evalArith_congr hinp cast hclean []]
    rfl
  | expression e =>
    unfold DataParam.toData
    dsimp only
    rw [Expression.evalArith_congr hinp cast hclean []]

/-- A field is set to the same number on both sides. -/
theorem setField (hs : phv.SameLive phv') (dst : FieldRef) (v : ℤ) :
    Related SameLive (phv.modifyField dst fun f => some (f.set v))
      (phv'.modifyField dst fun f => some (f.set v)) :=
  hs.modifyField dst fun _ _ hf => .some (hf.set v)

theorem addHeader (hs : phv.SameLive phv') (hdr : ℕ) :
    Related SameLive (phv.addHeader hdr) (phv'.addHeader hdr) := by
  refine hs.modifyHeader fun h g _ hh => ?_
  rw [← hh.isValid]
  by_cases hv : h.isValid
  · rw [if_pos hv, if_pos hv]
    exact hh
  · rw [if_neg hv, if_neg hv]
    exact hh.resetValid

/-- The fields of the copy are set to numbers that both sides have. -/
theorem copyHeader (hs : phv.SameLive phv') {dst src : ℕ}
    (hclean : ∀ h, phv.headers[src]? = some h → h.isValid → ∀ f ∈ h.fields, f.arith) :
    Related SameLive (phv.copyHeader dst src) (phv'.copyHeader dst src) := by
  refine (hs.header dst).bind fun d d' hd => (hs.header src).bind_of_eq fun h h' hk hh => ?_
  have htype : (d'.headerTypeId = h'.headerTypeId ∧ d'.fields.length ≤ h'.fields.length) ↔
      (d.headerTypeId = h.headerTypeId ∧ d.fields.length ≤ h.fields.length) := by
    rw [hd.headerTypeId, hh.headerTypeId, hd.fields.length_eq, hh.fields.length_eq]
  rw [← hh.isValid]
  refine .ite (fun hv => ?_) fun _ => .some (hs.setHeader hd.markInvalid dst)
  simp only [htype]
  refine .ite (fun _ => ?_) fun _ => .none
  have hsame := Header.SameLive.same_setValues hd.fields (hh.live hv) (hclean h hk hv)
  exact .some (hs.setHeader (hd.fill true hsame) dst)

theorem primitive (hs : phv.SameLive phv') (hl : Like phv₀ phv) (ht : phv₀.TypedStacks)
    {actionData : List Data} {prim : Primitive}
    (hclean : prim.Clean cast registerArrays phv actionData) :
    Related SameLive (phv.primitive cast registerArrays actionData prim)
      (phv'.primitive cast registerArrays actionData prim) := by
  cases prim with
  | modifyField dst src =>
    unfold PHV.primitive
    dsimp only
    rw [← hs.toData hclean]
    exact .same _ fun d _ => hs.setField dst d.value
  | addHeader hdr => exact hs.addHeader hdr
  | addHeaderFast hdr =>
    exact hs.modifyHeader fun h g hk hh => hh.markValid (hclean h hk)
  | copyHeader dst src => exact hs.copyHeader hclean
  | removeHeader hdr => exact hs.modifyHeader fun _ _ _ hh => hh.markInvalid
  | push stack num =>
    unfold PHV.primitive
    dsimp only
    rw [← hs.toData hclean.1]
    refine .same _ fun d hd => .same _ fun n hn => ?_
    exact (hs.pushFront hl ht (hclean.2 d hd n hn)).bind fun _ _ h => .some h.2
  | pop stack num =>
    unfold PHV.primitive
    dsimp only
    rw [← hs.toData hclean.1]
    refine .same _ fun d hd => .same _ fun n hn => ?_
    exact (hs.popFront hl ht hclean.2).bind fun _ _ h => .some h.2

/-- The same number of bytes, and PHVs that hold the same where it counts. -/
def Parsed (p q : PHV × ℕ) : Prop := p.1.SameLive q.1 ∧ p.2 = q.2

theorem evalArith (hs : phv.SameLive phv') {e : Expression} (he : LoadsWithin phv.Readable e.ops) :
    phv.evalArith cast registerArrays e = phv'.evalArith cast registerArrays e := by
  unfold PHV.evalArith
  rw [Expression.evalArith_congr (hs.evalInput []) cast he []]

theorem parserOp (hs : phv.SameLive phv') {op : ParserOp} (hclean : op.Clean phv) :
    Related Parsed (op.exec cast registerArrays phv data)
      (op.exec cast registerArrays phv' data) := by
  cases op with
  | extract header =>
    exact (hs.extractHeader header data).imp_of_eq fun _ _ _ h => ⟨h.1, h.2.1⟩
  | extractStack stack =>
    have hnext : phv.stackNext stack = phv'.stackNext stack := by
      unfold PHV.stackNext
      rw [hs.headerStacks]
    unfold ParserOp.exec
    dsimp only
    rw [← hnext]
    refine .same _ fun header hheader => ?_
    refine (hs.extractHeader header data).bind_of_eq fun p q hp h => ?_
    obtain ⟨hlive, hbytes, hv⟩ := h
    have hstacks : p.1.headerStacks = phv.headerStacks := by
      obtain ⟨_, -, hp⟩ := Option.bind_eq_some_iff.mp hp
      obtain ⟨_, -, hp⟩ := Option.bind_eq_some_iff.mp hp
      rw [← Option.some.inj hp]
      rfl
    -- the header that is pushed is the one that has been extracted
    have hpushed : ∀ i, p.1.stackNext stack = some i → ∀ h, p.1.headers[i]? = some h →
        h.isValid := by
      intro i hi
      unfold PHV.stackNext at hi hheader
      rw [hstacks, hheader] at hi
      obtain rfl := Option.some.inj hi
      exact hv
    exact (hlive.pushBack hpushed).bind fun _ _ h => .some ⟨h.2, hbytes⟩
  | setFromField dst src =>
    have hread : Related (fun f g => f.toData = g.toData) (phv.getField src.header src.offset)
        (phv'.getField src.header src.offset) := hs.readField hclean
    refine hread.bind fun f g hdata => ?_
    have hvalue : f.value = g.value := congrArg Data.value hdata
    rw [hvalue]
    exact (hs.setField dst g.value).bind fun _ _ h => .some ⟨h, rfl⟩
  | setFromData dst src => exact (hs.setField dst src).bind fun _ _ h => .some ⟨h, rfl⟩
  | setFromLookahead dst src =>
    refine Related.bind (hs.modifyField dst fun f g hf => ?_) fun _ _ h => .some ⟨h, rfl⟩
    rw [hf.shape.nbits_eq]
    exact .ite (fun _ => hf.extract) fun _ => (Related.refl _).map fun _ _ heq => heq ▸ hf.set _
  | setFromExpression dst src =>
    unfold ParserOp.exec
    dsimp only
    rw [← hs.evalArith hclean]
    exact .same _ fun v _ => (hs.setField dst v).bind fun _ _ h => .some ⟨h, rfl⟩

/-- By induction on the operations. -/
theorem execAll {ops : List ParserOp} {s t : PHV × ℕ} (hs : Parsed s t)
    (hclean : ParserOp.AllClean cast registerArrays data ops s) :
    Related Parsed (ParserOp.execAll cast registerArrays data ops s)
      (ParserOp.execAll cast registerArrays data ops t) := by
  induction ops generalizing s t with
  | nil => exact .some hs
  | cons op ops ih =>
    obtain ⟨phv, bytesParsed⟩ := s
    obtain ⟨phv', _⟩ := t
    obtain ⟨hlive, rfl⟩ := hs
    obtain ⟨hop, hrest⟩ := hclean
    refine (hlive.parserOp hop).bind_of_eq fun p q hp h => ?_
    exact ih ⟨h.1, congrArg (bytesParsed + ·) h.2⟩ (hrest p.1 p.2 hp)

theorem keyBytes (hs : phv.SameLive phv') {entry : ParseSwitchEntry} (hclean : entry.Clean phv)
    (data : List Byte) : entry.bytes phv data = entry.bytes phv' data := by
  have read : ∀ {i o : ℕ}, (∀ h, phv.headers[i]? = some h → h.isValid) →
      (phv.getField i o).map Field.bytes = (phv'.getField i o).map Field.bytes := fun hv =>
    Related.eq ((hs.getField hv _).map fun _ _ hsame => hsame.bytes)
  cases entry with
  | field header offset => exact read hclean
  | stackField stack offset =>
    have hlast : phv.stackLast stack = phv'.stackLast stack := by
      unfold PHV.stackLast
      rw [hs.headerStacks]
    unfold ParseSwitchEntry.bytes
    dsimp only
    rw [← hlast]
    exact Related.eq (.same _ fun i hi => read (hclean i hi) ▸ .refl _)
  | lookahead la => rfl

theorem key (hs : phv.SameLive phv') {entries : List ParseSwitchEntry}
    (hclean : ∀ entry ∈ entries, entry.Clean phv) (data : List Byte) :
    entries.mapM (ParseSwitchEntry.bytes phv data) =
      entries.mapM (ParseSwitchEntry.bytes phv' data) := by
  induction entries with
  | nil => rfl
  | cons entry entries ih =>
    obtain ⟨hentry, hrest⟩ := List.forall_mem_cons.mp hclean
    rw [List.mapM_cons, List.mapM_cons, hs.keyBytes hentry data, ih hrest]

theorem findNextState {st : ParseState} {s t : PHV × ℕ} (hs : Parsed s t)
    (hclean : st.Clean cast registerArrays data s) :
    Related (fun p q => p.1 = q.1 ∧ Parsed p.2 q.2) (st.findNextState cast registerArrays data s)
      (st.findNextState cast registerArrays data t) := by
  obtain ⟨hops, hkey⟩ := hclean
  refine (execAll hs hops).bind_of_eq fun s' t' hs' h => ?_
  have hnext : st.nextState data s' = st.nextState data t' := by
    unfold ParseState.nextState
    cases hbuilder : st.keyBuilder with
    | none => rfl
    | some entries =>
      have hbytes : entries.mapM (ParseSwitchEntry.bytes s'.1 (data.drop s'.2)) =
          entries.mapM (ParseSwitchEntry.bytes t'.1 (data.drop t'.2)) := by
        rw [← h.2]
        exact h.1.key (hkey s' hs' entries hbuilder) _
      dsimp only
      rw [hbytes]
  rw [← hnext]
  exact .same _ fun next _ => .some ⟨rfl, h⟩

/-- By induction on the states that are entered. -/
theorem loop {p : Parser} {fuel : ℕ} {i : Option ℕ} {s t : PHV × ℕ} (hs : Parsed s t)
    (hclean : p.LoopClean cast registerArrays data fuel i s) :
    Related Parsed (p.loop cast registerArrays data fuel i s)
      (p.loop cast registerArrays data fuel i t) := by
  induction fuel generalizing i s t with
  | zero =>
    cases i with
    | none => exact .some hs
    | some i => exact .none
  | succ fuel ih =>
    cases i with
    | none => exact .some hs
    | some i =>
      refine .same _ fun st hst => ?_
      obtain ⟨hstate, hrest⟩ := hclean st hst
      refine (findNextState hs hstate).bind_of_eq fun x y hx h => ?_
      obtain ⟨next, s'⟩ := x
      obtain ⟨_, t'⟩ := y
      obtain ⟨rfl, h⟩ := h
      exact ih h (hrest next s' hx)

theorem checksum (hs : phv.SameLive phv') {c : Checksum}
    (hcond : LoadsWithin phv.Readable c.conditionOps) :
    Related SameLive (c.update phv cast registerArrays data)
      (c.update phv' cast registerArrays data) := by
  obtain ⟨field, impl, condition⟩ := c
  have hupdate : Related SameLive (Checksum.update_ ⟨field, impl, condition⟩ phv data)
      (Checksum.update_ ⟨field, impl, condition⟩ phv' data) := by
    unfold Checksum.update_
    cases impl with
    | calcBased calculation =>
      dsimp only
      rw [← NamedCalculation.output_congr (fun _ _ i _ => hs.wire i) data]
      exact .same _ fun cksum _ => hs.setField field cksum
    | ipv4 cksum16 =>
      refine (PHV.related_of_wire (hs.wire field.header)).bind fun h g hh => ?_
      dsimp only
      rw [← hh.1]
      refine .ite (fun hv => ?_) fun _ => .some hs
      obtain ⟨hfields, hsize⟩ := Prod.mk.inj (hh.2 hv)
      rw [← hsize, Header.deparse, Header.deparse, Header.deparseFields_congr hfields]
      exact .same _ fun buffer _ => hs.modifyField field fun _ _ hf => hf.setBytes _
  unfold Checksum.update
  cases condition with
  | none => exact hupdate
  | some condition =>
    dsimp only
    rw [← Expression.evalBool_congr (hs.evalInput []) cast hcond []]
    exact .same _ fun met _ => .ite (fun _ => hupdate) fun _ => .some hs

theorem checksums (hs : phv.SameLive phv') {checksums : List Checksum}
    (hclean : Checksum.AllClean cast registerArrays data checksums phv) :
    Related SameLive
      (checksums.foldlM (fun phv c => c.update phv cast registerArrays data) phv)
      (checksums.foldlM (fun phv c => c.update phv cast registerArrays data) phv') := by
  induction checksums generalizing phv phv' with
  | nil => exact .some hs
  | cons c checksums ih =>
    obtain ⟨hcond, hrest⟩ := hclean
    rw [List.foldlM_cons, List.foldlM_cons]
    exact (hs.checksum hcond).bind_of_eq fun phv1 _ hupdate h1 => ih h1 (hrest phv1 hupdate)

end PHV.SameLive

/-- Packets that differ in their PHVs only, and in these only where it does not count. -/
def Packet.Twins (pkt pkt' : Packet) : Prop :=
  ∃ phv', pkt' = { pkt with phv := phv' } ∧ pkt.phv.SameLive phv'

namespace Packet.Twins

variable {cast : BignumCast} {registerArrays : List (List ℤ)} {phv₀ : PHV} {pkt pkt' : Packet}

theorem parse (h : pkt.Twins pkt') {p : Parser} {fuel : ℕ}
    (hclean : p.LoopClean cast registerArrays pkt.buffer.data fuel p.initState (pkt.phv, 0)) :
    Related Twins (p.parse cast registerArrays fuel pkt)
      (p.parse cast registerArrays fuel pkt') := by
  obtain ⟨phv', rfl, hs⟩ := h
  unfold Parser.parse
  cases hinit : p.initState with
  | none => exact .some ⟨phv', rfl, hs⟩
  | some i =>
    rw [hinit] at hclean
    have hloop := PHV.SameLive.loop (s := (pkt.phv, 0)) (t := (phv', 0)) ⟨hs, rfl⟩ hclean
    refine hloop.bind fun x y hxy => ?_
    obtain ⟨phv1, bytesParsed⟩ := x
    obtain ⟨phv1', _⟩ := y
    obtain ⟨hlive, rfl⟩ := hxy
    refine .ite (fun _ => ?_) fun _ => .none
    exact .same _ fun buffer _ => .some ⟨phv1', rfl, hlive⟩

/-- The headers that are deparsed are the same, and so is the buffer that they are put in. -/
theorem deparse (h : pkt.Twins pkt') (d : Deparser) (hd : d.checksums = []) :
    Related Twins (d.deparse pkt) (d.deparse pkt') := by
  obtain ⟨phv', rfl, hs⟩ := h
  unfold Deparser.deparse
  rw [hd]
  refine (Deparser.validHeaders_related fun i _ => hs.wire i).bind fun headers headers' hwire => ?_
  have hsize := Deparser.headersSize_congr hwire
  have hsame : Deparser.deparseHeaders headers' = Deparser.deparseHeaders headers :=
    (funext (Deparser.deparseHeaders_congr hwire)).symm
  unfold Packet.prepend
  dsimp only
  rw [← hsize]
  refine Related.bind (P := Twins) ?_ fun x y hxy => ?_
  · exact .same _ fun buffer _ => .some ⟨phv', rfl, hs⟩
  · obtain ⟨phv1', rfl, hs1⟩ := hxy
    dsimp only
    rw [hsame]
    exact .same _ fun buffer _ => .some ⟨phv1', rfl, hs1⟩

/-- A clean operation gives the same bytes, and leaves packets that are alike again. -/
theorem exec (h : pkt.Twins pkt') (hl : phv₀.Like pkt.phv) (ht : phv₀.TypedStacks)
    {op : PacketOp} (hclean : op.Clean cast registerArrays pkt) :
    Related (Answers Twins) (op.exec cast registerArrays pkt)
      (op.exec cast registerArrays pkt') := by
  cases op with
  | parse p fuel => exact (h.parse hclean).bind fun _ _ h1 => .some ⟨rfl, h1⟩
  | primitive prim actionData =>
    obtain ⟨phv', rfl, hs⟩ := h
    exact (hs.primitive hl ht hclean).bind fun _ phv1' h1 => .some ⟨rfl, phv1', rfl, h1⟩
  | deparse headers checksums =>
    obtain ⟨phv', rfl, hs⟩ := h
    refine (hs.checksums hclean).bind fun phv1 phv1' h1 => ?_
    have htwins : Twins { pkt with phv := phv1 } { pkt with phv := phv1' } := ⟨phv1', rfl, h1⟩
    refine (htwins.deparse { headers } rfl).bind fun x y hxy => ?_
    obtain ⟨phv2', rfl, h2⟩ := hxy
    exact .some ⟨rfl, phv2', rfl, h2⟩

end Packet.Twins

section Pool

variable {h₀ h g : Header} {phv₀ phv phv' : PHV}

/-- Headers that are not valid hold the same where it counts: in metadata, which is reset. -/
theorem sameLive_of_like (hl : h₀.Like h) (hl' : h₀.Like g) (hvl : h₀.vl = none)
    (hv : h.valid = false) (hv' : g.valid = false) :
    (if h.metadata then h.reset else h).SameLive (if g.metadata then g.reset else g) := by
  have hw : h.widths = g.widths := (hl.widths_eq hvl).trans (hl'.widths_eq hvl).symm
  have hfits : List.Forall₂ Field.Fits h.fields g.fields := by
    have hshape := hl'.sameShape hl hw
    have hwhole := hl.whole hvl
    have hwhole' := hl'.whole hvl
    generalize h.fields = fs at hshape hwhole
    generalize g.fields = gs at hshape hwhole'
    induction hshape with
    | nil => exact .nil
    | cons hf _ ih =>
      obtain ⟨hfirst, hrest⟩ := List.forall_mem_cons.mp hwhole
      obtain ⟨hfirst', hrest'⟩ := List.forall_mem_cons.mp hwhole'
      exact .cons ⟨hf, hfirst, hfirst'⟩ (ih hrest hrest')
  have hmeta : h.metadata = g.metadata := hl.metadata.trans hl'.metadata.symm
  have hsize : h.nbytesPacket = g.nbytesPacket := by
    have hsum := hl.size
    have hsum' := hl'.size
    rw [hw] at hsum
    omega
  have htype : h.headerTypeId = g.headerTypeId := hl.headerTypeId.trans hl'.headerTypeId.symm
  have hvalid : h.valid = g.valid := hv.trans hv'.symm
  rw [← hmeta]
  by_cases hm : h.metadata
  · rw [if_pos hm, if_pos hm]
    have hsame := Header.SameLive.same_reset hfits
    exact ⟨hmeta, hvalid, hsize, htype, hl.vl.trans hvl, hl'.vl.trans hvl,
      hsame.imp fun _ _ hf => hf.toFits, fun _ => hsame⟩
  · rw [if_neg hm, if_neg hm]
    refine ⟨hmeta, hvalid, hsize, htype, hl.vl.trans hvl, hl'.vl.trans hvl, hfits, fun hlive => ?_⟩
    rw [Header.isValid, hv, Bool.or_false] at hlive
    exact absurd hlive hm

/-- What the pool hands out is the same for a packet, where it counts. -/
theorem sameLive_resetMetadata (hl : phv₀.Like phv) (hl' : phv₀.Like phv')
    (hvl : ∀ h₀ ∈ phv₀.headers, h₀.vl = none)
    (hc : (∀ h ∈ phv.headers, h.valid = false) ∧ ∀ s ∈ phv.headerStacks, s.next = 0)
    (hc' : (∀ h ∈ phv'.headers, h.valid = false) ∧ ∀ s ∈ phv'.headerStacks, s.next = 0) :
    phv.resetMetadata.SameLive phv'.resetMetadata where
  headers := by
    have hrel := hl.headers
    have hrel' := hl'.headers
    have hv := hc.1
    have hv' := hc'.1
    unfold PHV.resetMetadata
    generalize phv₀.headers = hs₀ at hvl hrel hrel'
    generalize phv.headers = hs at hv hrel
    generalize phv'.headers = gs at hv' hrel'
    induction hrel generalizing gs with
    | nil =>
      cases hrel'
      exact .nil
    | cons hh _ ih =>
      cases hrel' with
      | cons hg hrest' =>
        obtain ⟨hvl, hvls⟩ := List.forall_mem_cons.mp hvl
        obtain ⟨hv, hvs⟩ := List.forall_mem_cons.mp hv
        obtain ⟨hv', hvs'⟩ := List.forall_mem_cons.mp hv'
        exact .cons (sameLive_of_like hh hg hvl hv hv') (ih hvls hvs _ hvs' hrest')
  headerStacks := by
    have hrel := hl.headerStacks
    have hrel' := hl'.headerStacks
    have hn := hc.2
    have hn' := hc'.2
    unfold PHV.resetMetadata
    dsimp only
    generalize phv₀.headerStacks = ss₀ at hrel hrel'
    generalize phv.headerStacks = ss at hn hrel
    generalize phv'.headerStacks = ts at hn' hrel'
    induction hrel generalizing ts with
    | nil =>
      cases hrel'
      rfl
    | @cons _ s _ _ hs _ ih =>
      cases hrel' with
      | @cons _ t _ _ ht hrest' =>
        obtain ⟨hn, hns⟩ := List.forall_mem_cons.mp hn
        obtain ⟨hn', hns'⟩ := List.forall_mem_cons.mp hn'
        obtain ⟨headers, next⟩ := s
        obtain ⟨headers', next'⟩ := t
        dsimp only at *
        rw [hs, ht, hn, hn', ih hns _ hns' hrest']

end Pool

/-- What is deparsed of a packet is the same whatever earlier packets have left in the PHV that
the pool hands out, in every run of which each operation reads and makes valid only what the
packet has defined. -/
theorem no_leakage (cast : BignumCast) (registerArrays : List (List ℤ)) (f : PHVFactory)
    (hfixed : ∀ desc ∈ f.headerDescs, desc.headerType.vl = none) (pooled pooled' : PHV)
    (h : f.Pooled cast pooled) (h' : f.Pooled cast pooled') (pkt : Packet)
    (program : List PacketOp)
    (hclean : Along (PacketOp.exec cast registerArrays) (PacketOp.Clean cast registerArrays)
      { pkt with phv := pooled.resetMetadata } program) :
    outputs (PacketOp.exec cast registerArrays) { pkt with phv := pooled.resetMetadata } program =
      outputs (PacketOp.exec cast registerArrays) { pkt with phv := pooled'.resetMetadata }
        program := by
  obtain ⟨phv₀, hc, hl⟩ := h.inUse.like
  obtain ⟨phv₀', hc', hl'⟩ := h'.inUse.like
  obtain rfl := Option.some.inj (hc.symm.trans hc')
  have hvl : ∀ h₀ ∈ phv₀.headers, h₀.vl = none := by
    intro h₀ hmem
    obtain ⟨i, hi⟩ := List.mem_iff_getElem?.mp hmem
    obtain ⟨desc, hdesc, hcreate⟩ := PHVFactory.create_header hc hi
    rw [(HeaderDesc.like_create hcreate).2.2.1]
    exact hfixed desc (List.mem_of_getElem? hdesc)
  have hlive := sameLive_resetMetadata hl hl' hvl h.cleared h'.cleared
  have ht := PHVFactory.typedStacks hc
  refine outputs_eq_along (fun s t => s.Twins t ∧ phv₀.Like s.phv) _ ?_
    ⟨⟨_, rfl, hlive⟩, hl.resetMetadata⟩ hclean
  rintro s t op ⟨htwins, hlike⟩ hop
  exact (htwins.exec hlike ht hop).imp_of_eq fun p _ hp hpq =>
    ⟨hpq.1, hpq.2, hlike.exec ht hp⟩

/-- The byte that a packet has left in the header does not show when the next packet extracts
the header and writes to it. -/
theorem no_leakage_rewritten :
    outputs (PacketOp.exec checkedCast [])
        { phv := (stackPhv true).release.resetMetadata, buffer := ⟨[0xee, 0xcd], 0, 2, rfl⟩ }
        [.parse ⟨[{ parserOps := [.extractStack 0] }], some 0⟩ 1,
          .primitive (.modifyField ⟨0, 0⟩ (.const 7)) [], .deparse [0] []] =
      [some [], some [], some [7, 0xcd]] := by
  refine (no_leakage checkedCast [] stackFactory (by decide) (stackPhv true).release
    (stackPhv false) (.release inUse_stackPacket) (.create create_stackFactory)
    { phv := stackPhv false, buffer := ⟨[0xee, 0xcd], 0, 2, rfl⟩ } _ ?_).trans
    (by decide +kernel)
  refine ⟨?_, fun _ _ _ => ⟨trivial, fun _ _ _ => ⟨trivial, fun _ _ _ => trivial⟩⟩⟩
  rintro st hst
  obtain rfl := Option.some.inj hst
  refine ⟨⟨⟨trivial, fun _ _ _ => trivial⟩, fun _ _ _ h => by cases h⟩, fun next _ _ => ?_⟩
  cases next <;> trivial

/-- A header that is pushed to a stack still has the byte that an earlier packet has left in it. -/
theorem push_leaks : ¬ ∀ (cast : BignumCast) (registerArrays : List (List ℤ)) (f : PHVFactory),
    (∀ desc ∈ f.headerDescs, desc.headerType.vl = none) → ∀ phv phv' : PHV,
    f.InUse cast phv → f.InUse cast phv' → ∀ (pkt : Packet) (program : List PacketOp),
    outputs (PacketOp.exec cast registerArrays)
        { pkt with phv := phv.release.resetMetadata } program =
      outputs (PacketOp.exec cast registerArrays)
        { pkt with phv := phv'.release.resetMetadata } program := by
  intro hall
  have hpush := hall checkedCast [] stackFactory (by decide) (stackPhv true) (stackPhv false)
    inUse_stackPacket (.create create_stackFactory)
    { phv := stackPhv false, buffer := ⟨[0, 0xcd], 1, 1, rfl⟩ }
    [.primitive (.push 0 (.const 1)) [], .deparse [0] []]
  revert hpush
  decide +kernel

end Bmv2
