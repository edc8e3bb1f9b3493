import Bmv2.Expressions.Reads
import Bmv2.Packet.Cksum16
import Bmv2.Packet.Slice
import Bmv2.Packet.Wire

/-! Verifying checksums (`checksums.cpp`): the checksum is computed a second time, and compared with
what is in its field. -/
namespace Bmv2
open ByteBits

/-- A 16-bit number in the memory of a little-endian host. -/
def hostBytes (x : BitVec 16) : List Byte := [x.setWidth 8, (x >>> 8).setWidth 8]

/-- `IPv4Checksum`. -/
def ipv4Checksum (field : FieldRef) (condition : Option Expression) : Checksum where
  field
  impl := .ipv4 fun buf => hostBytes (Checksums.cksum16 buf)
  condition

namespace Checksum

variable (c : Checksum) (phv : PHV)

/-- `verify_`. What is in `buffer` when the IPv4 header is deparsed to it is not initialised. -/
def verify_ (cast : BignumCast) (data buffer : List Byte) : Option Bool :=
  match c.impl with
  | .calcBased calculation => do
    let cksum ← calculation.output phv data
    let f ← phv.getField c.field.header c.field.offset
    let value ← f.getSizeT cast
    some (cksum == value)
  | .ipv4 cksum16 => do
    let h ← phv.headers[c.field.header]?
    if h.isValid then do
      let f ← h.fields[c.field.offset]?
      let buffer ← h.deparse buffer
      let buffer := (buffer.set 10 0).set 11 0
      some (cksum16 (buffer.take h.nbytesPacket) == f.bytes.take 2)
    else some true

/-- `is_checksum_condition_met`. -/
def isChecksumConditionMet (cast : BignumCast) (registerArrays : List (List ℤ)) : Option Bool :=
  match c.condition with
  | none => some true
  | some condition => (condition.evalBool cast { phv, registerArrays } []).toOption

/-- `verify`. -/
def verify (cast : BignumCast) (registerArrays : List (List ℤ)) (data buffer : List Byte) :
    Option Bool := do
  let met ← c.isChecksumConditionMet phv cast registerArrays
  if met then c.verify_ phv cast data buffer else some true

variable {c phv} {cast : BignumCast} {registerArrays : List (List ℤ)} {data buffer : List Byte}

theorem update_eq : c.update phv cast registerArrays data =
    (c.isChecksumConditionMet phv cast registerArrays).bind fun met =>
      if met then c.update_ phv data else some phv := by
  unfold update isChecksumConditionMet
  cases c.condition with
  | none => rfl
  | some condition => rfl

end Checksum

namespace Header

variable {pre post : List Field} {f f' : Field} {o j : ℕ}

/-- Another field of the same width leaves a header whole. -/
theorem Whole.set {h : Header} (hw : h.Whole) {offset : ℕ} (hf : h.fields[offset]? = some f)
    (hf' : f'.Whole) (hnbits : f'.nbits = f.nbits) :
    ({ h with fields := h.fields.set offset f' } : Header).Whole := by
  have hwidths : ({ h with fields := h.fields.set offset f' } : Header).widths = h.widths := by
    have hlt := (List.getElem?_eq_some_iff.mp hf).1
    rw [widths, widths, List.map_set, hnbits]
    apply List.ext_getElem?
    intro i
    rw [List.getElem?_set, List.length_map, if_pos hlt]
    split_ifs with hi
    · subst hi
      rw [List.getElem?_map, hf]
      rfl
    · rfl
  refine ⟨fun g hg => ?_, ?_, ?_⟩
  · rcases List.mem_or_eq_of_mem_set hg with hg | rfl
    · exact hw.fields g hg
    · exact hf'
  · rw [hwidths]
    exact hw.size
  · rw [hwidths]
    exact hw.emptyAligned

/-- A field that stands in whole bytes is copied to them, and to no others. -/
theorem drop_put_bytes (hbits : f.nbits % 8 = 0) (hbytes : f.bytes.length = f.nbits / 8)
    (data : List Byte) : (f.put data 0).drop (f.nbits / 8) = data.drop (f.nbits / 8) := by
  apply eq_of_byteAt
  · rw [List.length_drop, List.length_drop, Field.length_put]
  · intro i _
    rw [byteAt_drop, byteAt_drop, Field.put, if_pos ⟨rfl, hbits⟩, byteAt_writeBytes,
      if_neg (by omega)]

/-- Another field in the same whole bytes changes no other bits. By induction on the fields before
it. -/
theorem bitAt_putFields_replace (hbits : f.nbits % 8 = 0) (hwidth : f'.nbits = f.nbits)
    (hbytes : f.bytes.length = f.nbits / 8) (hbytes' : f'.bytes.length = f.nbits / 8)
    {data : List Byte} (ho : o < 8) (hp : (o + (pre.map Field.nbits).sum) % 8 = 0)
    (hroom : o + (pre.map Field.nbits).sum + f.nbits ≤ 8 * data.length)
    (hj : j < o + (pre.map Field.nbits).sum ∨ o + (pre.map Field.nbits).sum + f.nbits ≤ j) :
    bitAt (putFields data o (pre ++ f :: post)) j =
      bitAt (putFields data o (pre ++ f' :: post)) j := by
  induction pre generalizing data o j with
  | nil =>
    simp only [List.map_nil, List.sum_nil, Nat.add_zero] at hp hroom hj
    obtain rfl : o = 0 := by omega
    have hdrop := drop_put_bytes hbits hbytes data
    have hdrop' := drop_put_bytes (f := f') (by rw [hwidth, hbits])
      (by rw [hbytes', hwidth]) data
    have hlen : ∀ g : Field, ((g.put data 0).take (f.nbits / 8)).length = f.nbits / 8 := by
      intro g
      rw [List.length_take, Field.length_put]
      omega
    rw [hwidth] at hdrop'
    rw [List.nil_append, List.nil_append, putFields, putFields, hwidth, Nat.zero_add, hdrop,
      hdrop', bitAt_append_right (by rw [hlen]; omega), bitAt_append_right (by rw [hlen]; omega),
      hlen, hlen]
  | cons g pre ih =>
    rw [List.map_cons, List.sum_cons] at hp hroom hj
    rw [List.cons_append, List.cons_append, putFields, putFields]
    have hlen : ((g.put data o).take ((o + g.nbits) / 8)).length = (o + g.nbits) / 8 := by
      rw [List.length_take, Field.length_put]
      omega
    by_cases hin : j < 8 * ((o + g.nbits) / 8)
    · rw [bitAt_append_left (by rw [hlen]; exact hin), bitAt_append_left (by rw [hlen]; exact hin)]
    · rw [bitAt_append_right (by rw [hlen]; omega), bitAt_append_right (by rw [hlen]; omega), hlen]
      apply ih (Nat.mod_lt _ (by decide))
      · omega
      · rw [List.length_drop, Field.length_put]
        omega
      · omega

/-- A field in whole bytes stands there as it is. By induction on the fields before it. -/
theorem bitAt_putFields_bytes (hbits : f.nbits % 8 = 0) (hbytes : f.bytes.length = f.nbits / 8)
    {data : List Byte} (ho : o < 8) (hp : (o + (pre.map Field.nbits).sum) % 8 = 0)
    (hroom : o + (pre.map Field.nbits).sum + f.nbits ≤ 8 * data.length) (hj : j < f.nbits) :
    bitAt (putFields data o (pre ++ f :: post)) (o + (pre.map Field.nbits).sum + j) =
      bitAt f.bytes j := by
  induction pre generalizing data o with
  | nil =>
    simp only [List.map_nil, List.sum_nil, Nat.add_zero] at hp hroom ⊢
    obtain rfl : o = 0 := by omega
    have hlen : ((f.put data 0).take (f.nbits / 8)).length = f.nbits / 8 := by
      rw [List.length_take, Field.length_put]
      omega
    rw [List.nil_append, putFields, Nat.zero_add, Nat.zero_add,
      bitAt_append_left (by rw [hlen]; omega), bitAt_take (by omega), bitAt_eq, bitAt_eq,
      Field.put, if_pos ⟨rfl, hbits⟩, byteAt_writeBytes, if_pos (by omega)]
  | cons g pre ih =>
    rw [List.map_cons, List.sum_cons] at hp hroom ⊢
    rw [List.cons_append, putFields]
    have hlen : ((g.put data o).take ((o + g.nbits) / 8)).length = (o + g.nbits) / 8 := by
      rw [List.length_take, Field.length_put]
      omega
    rw [bitAt_append_right (by rw [hlen]; omega), hlen,
      show o + (g.nbits + (pre.map Field.nbits).sum) + j - 8 * ((o + g.nbits) / 8) =
        (o + g.nbits) % 8 + (pre.map Field.nbits).sum + j by omega]
    apply ih (Nat.mod_lt _ (by decide))
    · omega
    · rw [List.length_drop, Field.length_put]
      omega

end Header

/-- The entry reads a field: it names the field, or the header that the field is in. -/
def BufEntry.Reads (ref : FieldRef) : BufEntry → Prop
  | .field f => f = ref
  | .constant _ _ => False
  | .header hdr => hdr = ref.header

namespace PHV

variable {phv phv' : PHV} {dst : FieldRef} {u : Field → Option Field}

/-- The other headers stay, and the one with the field is as valid as before. -/
theorem header_modifyField (h : phv.modifyField dst u = some phv') (i : ℕ) :
    phv'.headers[i]?.map Header.isValid = phv.headers[i]?.map Header.isValid ∧
      (i ≠ dst.header → phv'.headers[i]? = phv.headers[i]?) := by
  obtain ⟨hdr, f, f', hh, hf, hf', rfl⟩ := modifyField_cases h
  unfold setHeader
  dsimp only
  by_cases hi : dst.header = i
  · subst hi
    rw [List.getElem?_set_self', hh]
    exact ⟨rfl, fun hne => absurd rfl hne⟩
  · rw [List.getElem?_set_ne hi]
    exact ⟨rfl, fun _ => rfl⟩

theorem evalInput_modifyField (h : phv.modifyField dst u = some phv')
    (registerArrays : List (List ℤ)) :
    EvalInput.Agree (fun header offset => ({ header, offset } : FieldRef) ≠ dst)
      { phv, registerArrays } { phv := phv', registerArrays } where
  locals := rfl
  registerArrays := rfl
  length := by
    obtain ⟨hdr, f, f', hh, hf, hf', rfl⟩ := modifyField_cases h
    exact List.length_set.symm
  headerValid i := (header_modifyField h i).1.symm
  field header offset hne := by
    have hstay := getField_modifyField_ne h hne
    exact congrArg (Option.map Field.toData) hstay.symm

theorem entry_modifyField (h : phv.modifyField dst u = some phv') {entry : BufEntry}
    (hentry : ¬ entry.Reads dst) (s : List Byte × ℕ) :
    entry.deparse phv s = entry.deparse phv' s := by
  cases entry with
  | field f =>
    have hvalid := (header_modifyField h f.header).1
    have hne : f ≠ dst := hentry
    have hfield := getField_modifyField_ne h hne
    unfold getField at hfield
    simp only [BufEntry.deparse]
    cases hh : phv.headers[f.header]? with
    | none =>
      rw [hh, Option.map_none, Option.map_eq_none_iff] at hvalid
      rw [hvalid]
    | some hdr =>
      rw [hh, Option.map_some, Option.map_eq_some_iff] at hvalid
      obtain ⟨hdr', hh', hvalid⟩ := hvalid
      rw [hh, hh'] at hfield
      simp only [Option.bind_eq_bind, Option.bind_some] at hfield
      simp only [hh', Option.bind_eq_bind, Option.bind_some, hvalid, hfield]
  | constant v nbits => rfl
  | header hdr =>
    have hstay := (header_modifyField h hdr).2 hentry
    simp only [BufEntry.deparse, hstay]

end PHV

namespace Checksum

variable {c : Checksum} {phv phv' : PHV} {cast : BignumCast} {registerArrays : List (List ℤ)}
  {data buffer : List Byte}

/-- What a condition reads stays, unless it reads the checksum. -/
theorem isChecksumConditionMet_modifyField {u : Field → Option Field}
    (h : phv.modifyField c.field u = some phv')
    (hcond : LoadsWithin (fun header offset => ({ header, offset } : FieldRef) ≠ c.field)
      c.conditionOps) :
    c.isChecksumConditionMet phv' cast registerArrays =
      c.isChecksumConditionMet phv cast registerArrays := by
  unfold isChecksumConditionMet
  unfold conditionOps at hcond
  cases hc : c.condition with
  | none => rfl
  | some condition =>
    rw [hc] at hcond
    have heval :=
      Expression.evalBool_congr (PHV.evalInput_modifyField h registerArrays) cast hcond []
    exact congrArg Except.toOption heval.symm

/-- Verifying succeeds after every update that is carried out. -/
def VerifiesAfterUpdate (c : Checksum) (phv : PHV) (cast : BignumCast)
    (registerArrays : List (List ℤ)) (data buffer : List Byte) : Prop :=
  ∀ phv', c.update phv cast registerArrays data = some phv' →
    c.verify phv' cast registerArrays data buffer = some true

/-- What a checksum is declared for: a 64-bit calculation that does not read the checksum, which is
in an unsigned field with arithmetic; or an IPv4 header. -/
def Suits (c : Checksum) (phv : PHV) : Prop :=
  match c.impl with
  | .calcBased calculation =>
    (∀ buf, calculation.hash buf < 2 ^ 64) ∧
    (∀ entry ∈ calculation.entries, ¬ entry.Reads c.field) ∧
    ∀ f, phv.getField c.field.header c.field.offset = some f →
      f.isSigned = false ∧ f.arith ∧ f.mask = 2 ^ f.nbits - 1
  | .ipv4 _ => ∀ h, phv.headers[c.field.header]? = some h → h.isValid →
    h.Whole ∧ 12 ≤ h.nbytesPacket ∧ h.nbytesPacket ≤ 60 ∧
    ((h.fields.take c.field.offset).map Field.nbits).sum = 80 ∧
    ∀ f, h.fields[c.field.offset]? = some f → f.nbits = 16

/-- The result of the calculation fits the field, if it is put there. -/
def ResultFits (c : Checksum) (phv : PHV) (cast : BignumCast) (registerArrays : List (List ℤ))
    (data : List Byte) : Prop :=
  match c.impl with
  | .calcBased calculation => c.isChecksumConditionMet phv cast registerArrays = some true →
    ∀ cksum f, calculation.output phv data = some cksum →
      phv.getField c.field.header c.field.offset = some f → cksum < 2 ^ f.nbits
  | .ipv4 _ => True

/-- What the checksum is computed from, where only the bytes that are zeroed differ. -/
theorem cksumInput_congr {buf buf' : List Byte} {n : ℕ} (hlen : buf.length = buf'.length)
    (h : ∀ i < n, i ≠ 10 → i ≠ 11 → byteAt buf i = byteAt buf' i) :
    ((buf.set 10 0).set 11 0).take n = ((buf'.set 10 0).set 11 0).take n := by
  apply eq_of_byteAt
  · simp only [List.length_take, List.length_set, hlen]
  · intro i hi
    rw [List.length_take, List.length_set, List.length_set] at hi
    rw [byteAt_take (by omega), byteAt_take (by omega)]
    simp only [byteAt_set, List.length_set, hlen]
    split_ifs with h11 h10
    · rfl
    · rfl
    · exact h i (by omega) (by omega) (by omega)

/-- The header is deparsed as before, up to its checksum, whatever is in the buffer. -/
theorem cksumInput_replace {h : Header} {offset : ℕ} {f f' : Field} (hw : h.Whole)
    (hsize : h.nbytesPacket ≤ 60) (hpre : ((h.fields.take offset).map Field.nbits).sum = 80)
    (hf : h.fields[offset]? = some f) (hnbits : f.nbits = 16) (hf' : f'.Whole)
    (hnbits' : f'.nbits = 16) (hbuffer : buffer.length = 60) :
    ∃ buf buf', h.deparse (List.replicate 60 0) = some buf ∧
      ({ h with fields := h.fields.set offset f' } : Header).deparse buffer = some buf' ∧
      ((buf'.set 10 0).set 11 0).take h.nbytesPacket =
        ((buf.set 10 0).set 11 0).take h.nbytesPacket := by
  have hlt := (List.getElem?_eq_some_iff.mp hf).1
  have hsplit : h.fields = h.fields.take offset ++ f :: h.fields.drop (offset + 1) := by
    rw [← (List.getElem?_eq_some_iff.mp hf).2, List.getElem_cons_drop, List.take_append_drop]
  have hset : h.fields.set offset f' =
      h.fields.take offset ++ f' :: h.fields.drop (offset + 1) := by
    rw [List.set_eq_take_append_cons_drop, if_pos hlt]
  have hsum := hw.size
  rw [Header.widths, hsplit, List.map_append, List.map_cons, List.sum_append, List.sum_cons, hpre,
    hnbits] at hsum
  have hwhole := hw.set hf hf' (hnbits'.trans hnbits.symm)
  have hbytes : f.bytes.length = f.nbits / 8 := by
    have hfw := hw.fields f (List.mem_of_getElem? hf)
    rw [hfw.length_bytes, hfw.nbytes_eq, hnbits]
  have hbytes' : f'.bytes.length = f.nbits / 8 := by
    rw [hf'.length_bytes, hf'.nbytes_eq, hnbits', hnbits]
  refine ⟨_, _, hw.deparse_eq (by rw [List.length_replicate]; exact hsize),
    hwhole.deparse_eq (by rw [hbuffer]; exact hsize), ?_⟩
  apply cksumInput_congr
  · rw [Header.length_put, Header.length_put, hbuffer, List.length_replicate]
  · intro i hi h10 h11
    apply byteAt_eq_of_bitAt
    intro k hk
    have hsixty : h.nbytesPacket ≤ (List.replicate 60 (0 : Byte)).length := by
      rw [List.length_replicate]
      exact hsize
    have hroom : h.nbytesPacket ≤ buffer.length := by
      rw [hbuffer]
      exact hsize
    rw [Header.bitAt_put_whole hwhole hroom hsixty
      (.inl (show 8 * i + k < 8 * h.nbytesPacket by omega))]
    unfold Header.put
    dsimp only
    rw [hset]
    conv_rhs => rw [hsplit]
    refine (Header.bitAt_putFields_replace (by rw [hnbits]) (hnbits'.trans hnbits.symm) hbytes
      hbytes' (by decide) ?_ ?_ ?_).symm
    · rw [hpre]
    · rw [hpre, hnbits, List.length_replicate]
      decide
    · rw [hpre, hnbits]
      omega

theorem bytes_setBytes {f f' : Field} {bytes : List Byte} (h : f.setBytes bytes = some f') :
    f'.bytes = bytes ∧ bytes.length = f.nbytes := by
  unfold Field.setBytes at h
  split_ifs at h with hlen
  obtain rfl := Option.some.inj h
  refine ⟨?_, hlen⟩
  dsimp only
  split_ifs <;> rfl

theorem hostBytes_swap (x : BitVec 16) : hostBytes (OnesComplement.swap x) = ofValue 2 x.toNat := by
  have hx := x.isLt
  have hswap : (OnesComplement.swap x).toNat = 256 * (x.toNat % 256) + x.toNat / 256 :=
    OnesComplement.toNat_swap x
  have hlow : (OnesComplement.swap x).setWidth 8 = BitVec.ofNat 8 (x.toNat / 2 ^ 8) := by
    apply BitVec.eq_of_toNat_eq
    rw [BitVec.toNat_setWidth, BitVec.toNat_ofNat, hswap]
    omega
  have hhigh : (OnesComplement.swap x >>> 8).setWidth 8 = BitVec.ofNat 8 x.toNat := by
    apply BitVec.eq_of_toNat_eq
    have hdiv : (256 * (x.toNat % 256) + x.toNat / 256) / 2 ^ 8 = x.toNat % 256 := by
      change (256 * (x.toNat % 256) + x.toNat / 256) / 256 = x.toNat % 256
      rw [Nat.mul_add_div (by decide), Nat.div_eq_of_lt (by omega), Nat.add_zero]
    rw [BitVec.toNat_setWidth, BitVec.toNat_ushiftRight, Nat.shiftRight_eq_div_pow,
      BitVec.toNat_ofNat, hswap, hdiv]
    exact Nat.mod_mod _ _
  rw [hostBytes, hlow, hhigh, ofValue]
  simp [List.range_succ]

theorem append_ofValue (x : BitVec 16) :
    byteAt (ofValue 2 x.toNat) 0 ++ byteAt (ofValue 2 x.toNat) 1 = x := by
  have hx := x.isLt
  have hhigh : byteAt (ofValue 2 x.toNat) 0 = BitVec.ofNat 8 (x.toNat / 2 ^ 8) := rfl
  have hlow : byteAt (ofValue 2 x.toNat) 1 = BitVec.ofNat 8 (x.toNat / 2 ^ 0) := rfl
  apply BitVec.eq_of_toNat_eq
  rw [OnesComplement.toNat_append_byte, hhigh, hlow, BitVec.toNat_ofNat, BitVec.toNat_ofNat]
  omega

/-- An IPv4 header is given its Internet checksum, in network byte order. -/
theorem ipv4Checksum_update_ {field : FieldRef} {condition : Option Expression} {h : Header}
    (hh : phv.headers[field.header]? = some h) (hv : h.isValid)
    (hupdate : (ipv4Checksum field condition).update_ phv data = some phv') :
    ∃ buf f f', h.deparse (List.replicate 60 0) = some buf ∧
      h.fields[field.offset]? = some f ∧ f.setBytes (ofValue 2 (OnesComplement.checksum
        (((buf.set 10 0).set 11 0).take h.nbytesPacket)).toNat) = some f' ∧
      phv'.headers[field.header]? = some { h with fields := h.fields.set field.offset f' } := by
  obtain ⟨h', hh', hupdate⟩ := Option.bind_eq_some_iff.mp hupdate
  obtain rfl := Option.some.inj (hh.symm.trans hh')
  rw [if_pos hv] at hupdate
  obtain ⟨buf, hbuf, hupdate⟩ := Option.bind_eq_some_iff.mp hupdate
  obtain ⟨hdr, f, f', hhdr, hf, hset, rfl⟩ := PHV.modifyField_cases hupdate
  obtain rfl := Option.some.inj (hh.symm.trans hhdr)
  dsimp only at hset
  rw [cksum16.checksums_eq, hostBytes_swap] at hset
  refine ⟨buf, f, f', hbuf, hf, hset, ?_⟩
  change (phv.headers.set field.header { h with fields := h.fields.set field.offset f' })[
    field.header]? = _
  rw [List.getElem?_set_self', hh]
  rfl

/-- What is written to an IPv4 header is found there again. -/
theorem verifies_ipv4 {cksum16 : List Byte → List Byte} (hc : c.impl = .ipv4 cksum16)
    (hsuits : c.Suits phv) (hbuffer : buffer.length = 60)
    (hupdate : c.update_ phv data = some phv') :
    c.verify_ phv' cast data buffer = some true := by
  unfold Suits at hsuits
  unfold update_ at hupdate
  unfold verify_
  rw [hc] at hsuits hupdate ⊢
  dsimp only at hsuits hupdate ⊢
  obtain ⟨h, hh, hupdate⟩ := Option.bind_eq_some_iff.mp hupdate
  by_cases hv : h.isValid
  · rw [if_pos hv] at hupdate
    obtain ⟨hw, -, hsize, hpre, hwidth⟩ := hsuits h hh hv
    obtain ⟨buf, hbuf, hupdate⟩ := Option.bind_eq_some_iff.mp hupdate
    obtain ⟨hdr, f, f', hh', hf, hset, rfl⟩ := PHV.modifyField_cases hupdate
    obtain rfl := Option.some.inj (hh.symm.trans hh')
    have hnbits := hwidth f hf
    have hfw := hw.fields f (List.mem_of_getElem? hf)
    obtain ⟨hbytes, hlen⟩ := bytes_setBytes hset
    have hfw' : f'.Whole := (Field.update_setBytes hset).whole hfw
    have hnbits' : f'.nbits = 16 := (Field.update_setBytes hset).shape.nbits_eq.trans hnbits
    have hfound : (phv.setHeader c.field.header
        { h with fields := h.fields.set c.field.offset f' }).headers[c.field.header]? =
        some { h with fields := h.fields.set c.field.offset f' } := by
      unfold PHV.setHeader
      dsimp only
      rw [List.getElem?_set_self', hh]
      rfl
    have hfield : (h.fields.set c.field.offset f')[c.field.offset]? = some f' := by
      rw [List.getElem?_set_self', hf]
      rfl
    have hvalid : ({ h with fields := h.fields.set c.field.offset f' } : Header).isValid := hv
    have htwo : f'.bytes.take 2 = f'.bytes := by
      apply List.take_of_length_le
      rw [hfw'.length_bytes, hfw'.nbytes_eq, hnbits']
    obtain ⟨buf₀, buf', hbuf₀, hbuf', hinput⟩ :=
      cksumInput_replace hw hsize hpre hf hnbits hfw' hnbits' hbuffer
    obtain rfl := Option.some.inj (hbuf.symm.trans hbuf₀)
    rw [hfound, Option.bind_eq_bind, Option.bind_some, if_pos hvalid, hfield, Option.bind_eq_bind,
      Option.bind_some, hbuf', Option.bind_eq_bind, Option.bind_some]
    dsimp only
    rw [hinput, htwo, hbytes, beq_self_eq_true]
  · rw [if_neg hv] at hupdate
    obtain rfl := Option.some.inj hupdate
    rw [hh, Option.bind_eq_bind, Option.bind_some, if_neg hv]

/-- What a calculation gives is found in the field again where it fits. -/
theorem verifies_calcBased (cast : BignumCast) (buffer : List Byte)
    {calculation : NamedCalculation} (hc : c.impl = .calcBased calculation)
    (hsuits : c.Suits phv) (hupdate : c.update_ phv data = some phv') :
    ∃ cksum f, calculation.output phv data = some cksum ∧
      phv.getField c.field.header c.field.offset = some f ∧
      c.verify_ phv' cast data buffer = some (decide (cksum < 2 ^ f.nbits)) := by
  unfold Suits at hsuits
  unfold update_ at hupdate
  unfold verify_
  rw [hc] at hsuits hupdate ⊢
  obtain ⟨hhash, hreads, hfield⟩ := hsuits
  obtain ⟨cksum, hcksum, hupdate⟩ := Option.bind_eq_some_iff.mp hupdate
  obtain ⟨f, f', hget, hf', hget'⟩ := PHV.getField_modifyField hupdate
  obtain ⟨hsign, harith, hmask⟩ := hfield f hget
  obtain rfl := Option.some.inj hf'
  have hsame : calculation.output phv' data = some cksum := by
    rw [← hcksum]
    exact (NamedCalculation.output_congr_of_entries (fun entry hentry =>
      PHV.entry_modifyField hupdate (hreads entry hentry)) data).symm
  have hsmall : cksum < 2 ^ 64 := by
    obtain ⟨s, -, hs⟩ := Option.bind_eq_some_iff.mp hcksum
    exact Option.some.inj hs ▸ hhash _
  have hvalue : (f.set cksum).toData.getSizeT cast = some (cksum % 2 ^ f.nbits) := by
    have hset := Field.set_unsigned hsign hmask cksum
    have hcast : ((cksum : ℤ) % 2 ^ f.nbits) = ((cksum % 2 ^ f.nbits : ℕ) : ℤ) := by push_cast; rfl
    rw [hset, hcast]
    unfold Data.getSizeT
    dsimp only
    rw [if_pos harith]
    exact cast.toSizeT_natCast _ ((Nat.mod_le _ _).trans_lt hsmall)
  refine ⟨cksum, f, hcksum, hget, ?_⟩
  dsimp only
  rw [hsame, Option.bind_eq_bind, Option.bind_some, hget', Option.bind_eq_bind, Option.bind_some,
    hvalue, Option.bind_some]
  congr 1
  apply Bool.eq_iff_iff.mpr
  rw [beq_iff_eq, decide_eq_true_iff]
  constructor
  · intro heq
    rw [heq]
    exact Nat.mod_lt _ (Nat.two_pow_pos _)
  · intro hlt
    exact (Nat.mod_eq_of_lt hlt).symm

/-- An update changes the checksum, or nothing. -/
theorem eq_or_modifyField (h : c.update_ phv data = some phv') :
    phv' = phv ∨ ∃ u, phv.modifyField c.field u = some phv' := by
  unfold update_ at h
  cases hc : c.impl with
  | calcBased calculation =>
    rw [hc] at h
    obtain ⟨cksum, -, h⟩ := Option.bind_eq_some_iff.mp h
    exact .inr ⟨_, h⟩
  | ipv4 cksum16 =>
    rw [hc] at h
    obtain ⟨hdr, -, h⟩ := Option.bind_eq_some_iff.mp h
    split_ifs at h
    · obtain ⟨buffer, -, h⟩ := Option.bind_eq_some_iff.mp h
      exact .inr ⟨_, h⟩
    · exact .inl (Option.some.inj h).symm

/-- The condition is met again after an update. -/
theorem isChecksumConditionMet_again (h : c.update_ phv data = some phv')
    (hcond : LoadsWithin (fun header offset => ({ header, offset } : FieldRef) ≠ c.field)
      c.conditionOps) :
    c.isChecksumConditionMet phv' cast registerArrays =
      c.isChecksumConditionMet phv cast registerArrays := by
  rcases eq_or_modifyField h with rfl | ⟨u, hmodify⟩
  · rfl
  · exact isChecksumConditionMet_modifyField hmodify hcond

/-- Right after an update a checksum is verified, unless its calculation has a result that does not
fit the field. -/
theorem verifiesAfterUpdate_iff (hsuits : c.Suits phv)
    (hcond : LoadsWithin (fun header offset => ({ header, offset } : FieldRef) ≠ c.field)
      c.conditionOps) (hbuffer : buffer.length = 60) :
    c.VerifiesAfterUpdate phv cast registerArrays data buffer ↔
      c.ResultFits phv cast registerArrays data := by
  by_cases hmet : c.isChecksumConditionMet phv cast registerArrays = some true
  · have hupdate : c.update phv cast registerArrays data = c.update_ phv data := by
      rw [update_eq, hmet, Option.bind_some, if_pos rfl]
    have hverify : ∀ phv', c.update_ phv data = some phv' →
        c.verify phv' cast registerArrays data buffer = c.verify_ phv' cast data buffer := by
      intro phv' h
      rw [verify, isChecksumConditionMet_again h hcond, hmet, Option.bind_eq_bind,
        Option.bind_some, if_pos rfl]
    unfold VerifiesAfterUpdate ResultFits
    rw [hupdate]
    cases hc : c.impl with
    | ipv4 cksum16 =>
      refine iff_of_true (fun phv' h => ?_) trivial
      rw [hverify phv' h]
      exact verifies_ipv4 hc hsuits hbuffer h
    | calcBased calculation =>
      constructor
      · intro h _ cksum f hcksum hget
        obtain ⟨phv', hmodify, -⟩ := PHV.exists_modifyField
          (g := fun f => some (f.set cksum)) hget rfl
        have hput : c.update_ phv data = some phv' := by
          rw [update_, hc]
          exact Option.bind_eq_some_iff.mpr ⟨cksum, hcksum, hmodify⟩
        obtain ⟨cksum', f', hcksum', hget', heq⟩ :=
          verifies_calcBased cast buffer hc hsuits hput
        obtain rfl := Option.some.inj (hcksum.symm.trans hcksum')
        obtain rfl := Option.some.inj (hget.symm.trans hget')
        have hdone := h phv' hput
        rw [hverify phv' hput, heq] at hdone
        exact of_decide_eq_true (Option.some.inj hdone)
      · intro h phv' hput
        obtain ⟨cksum, f, hcksum, hget, heq⟩ :=
          verifies_calcBased cast buffer hc hsuits hput
        rw [hverify phv' hput, heq, decide_eq_true (h hmet cksum f hcksum hget)]
  · refine iff_of_true ?_ ?_
    · intro phv' h
      rw [update_eq] at h
      obtain ⟨met, hsome, h⟩ := Option.bind_eq_some_iff.mp h
      rw [hsome, Option.some_inj, Bool.not_eq_true] at hmet
      subst hmet
      obtain rfl := Option.some.inj h
      rw [verify, hsome]
      rfl
    · unfold ResultFits
      split
      · exact fun h => absurd h hmet
      · trivial

/-- The two bytes of the checksum field are where the receiver of the header looks for them. -/
theorem byteAt_put_checksum {h : Header} {offset : ℕ} {f : Field} (hw : h.Whole)
    (hf : h.fields[offset]? = some f) (hnbits : f.nbits = 16)
    (hpre : ((h.fields.take offset).map Field.nbits).sum = 80)
    (hroom : h.nbytesPacket ≤ buffer.length) {i : ℕ} (hi : i < 2) :
    byteAt (h.put buffer) (10 + i) = byteAt f.bytes i := by
  have hsplit : h.fields = h.fields.take offset ++ f :: h.fields.drop (offset + 1) := by
    rw [← (List.getElem?_eq_some_iff.mp hf).2, List.getElem_cons_drop, List.take_append_drop]
  have hsum := hw.size
  rw [Header.widths, hsplit, List.map_append, List.map_cons, List.sum_append, List.sum_cons, hpre,
    hnbits] at hsum
  have hfw := hw.fields f (List.mem_of_getElem? hf)
  rw [← byteAt_drop]
  apply byteAt_eq_of_bitAt
  intro k hk
  have hbytes : f.bytes.length = f.nbits / 8 := by
    rw [hfw.length_bytes, hfw.nbytes_eq, hnbits]
  have hbit : bitAt (Header.putFields buffer 0
      (h.fields.take offset ++ f :: h.fields.drop (offset + 1)))
      (0 + ((h.fields.take offset).map Field.nbits).sum + (8 * i + k)) =
      bitAt f.bytes (8 * i + k) := by
    apply Header.bitAt_putFields_bytes (by rw [hnbits]) hbytes (by decide)
    · rw [hpre]
    · rw [hpre, hnbits]
      omega
    · omega
  rw [← hsplit, hpre, Nat.zero_add] at hbit
  rw [bitAt_drop]
  exact hbit

/-- An IPv4 header whose checksum has been updated is accepted where it arrives: wherever it is
deparsed to, the Internet checksum of its bytes is zero. -/
theorem updated_header_accepted {field : FieldRef} {condition : Option Expression} {h : Header}
    (hsuits : (ipv4Checksum field condition).Suits phv)
    (hmet : (ipv4Checksum field condition).isChecksumConditionMet phv cast registerArrays =
      some true)
    (hh : phv.headers[field.header]? = some h) (hv : h.isValid)
    (hupdate : (ipv4Checksum field condition).update phv cast registerArrays data = some phv') :
    ∃ h', phv'.headers[field.header]? = some h' ∧ h'.isValid ∧ h'.nbytesPacket = h.nbytesPacket ∧
      ∀ dst : List Byte, h.nbytesPacket ≤ dst.length → ∃ out, h'.deparse dst = some out ∧
        OnesComplement.checksum (out.take h.nbytesPacket) = 0 := by
  rw [update_eq, hmet, Option.bind_some, if_pos rfl] at hupdate
  obtain ⟨buf, f, f', hbuf, hf, hset, hh'⟩ := ipv4Checksum_update_ hh hv hupdate
  obtain ⟨hw, hmin, hsize, hpre, hwidth⟩ := hsuits h hh hv
  have hnbits := hwidth f hf
  obtain ⟨hbytes, -⟩ := bytes_setBytes hset
  have hfw' : f'.Whole :=
    (Field.update_setBytes hset).whole (hw.fields f (List.mem_of_getElem? hf))
  have hnbits' : f'.nbits = 16 := (Field.update_setBytes hset).shape.nbits_eq.trans hnbits
  have hzero : (List.replicate 60 (0 : Byte)).length = 60 := List.length_replicate
  obtain ⟨buf₀, buf', hbuf₀, hbuf', hinput⟩ :=
    cksumInput_replace hw hsize hpre hf hnbits hfw' hnbits' hzero
  obtain rfl := Option.some.inj (hbuf.symm.trans hbuf₀)
  set h' : Header := { h with fields := h.fields.set field.offset f' } with hset'
  have hw' : h'.Whole := hw.set hf hfw' (hnbits'.trans hnbits.symm)
  have hsixty : h.nbytesPacket ≤ (List.replicate 60 (0 : Byte)).length := by
    rw [List.length_replicate]
    exact hsize
  refine ⟨h', hh', hv, rfl, fun dst hdst => ⟨h'.put dst, hw'.deparse_eq hdst, ?_⟩⟩
  have hfield : h'.fields[field.offset]? = some f' := by
    rw [hset', List.getElem?_set_self', hf]
    rfl
  have hplace : ((h'.fields.take field.offset).map Field.nbits).sum = 80 := by
    rw [hset', List.take_set_of_le le_rfl]
    exact hpre
  rw [show h.nbytesPacket = h'.nbytesPacket from rfl, Header.take_put_whole hw' hdst hsixty]
  obtain rfl : buf' = h'.put (List.replicate 60 0) := Header.eq_of_deparse hbuf'
  set t := (h'.put (List.replicate 60 0)).take h'.nbytesPacket with ht
  have hlen : t.length = h.nbytesPacket := by
    rw [ht, List.length_take, Header.length_put, List.length_replicate]
    exact Nat.min_eq_left hsize
  have hbyte : ∀ i < 2, byteAt t (10 + i) = byteAt f'.bytes i := by
    intro i hi
    rw [ht, byteAt_take (by change _ < h.nbytesPacket; omega)]
    exact byteAt_put_checksum hw' hfield hnbits' hplace hsixty hi
  have hself : (t.set 10 (byteAt f'.bytes 0)).set 11 (byteAt f'.bytes 1) = t := by
    apply eq_of_byteAt
    · rw [List.length_set, List.length_set]
    · intro i _
      rw [byteAt_set, byteAt_set, List.length_set, hlen, ← hbyte 0 (by decide),
        ← hbyte 1 (by decide)]
      split_ifs with h11 h10
      · rw [h11.1]
      · rw [h10.1]
      · rfl
  have hzeros : (t.set 10 0).set 11 0 = ((buf.set 10 0).set 11 0).take h.nbytesPacket := by
    rw [← hinput, ht, ← List.take_set, ← List.take_set]
  rw [← hself]
  apply OnesComplement.checksum_eq_zero (i := 5)
  · rw [hlen]
    exact hmin
  · rw [hbytes, hzeros, append_ofValue]

/-- An IPv4 header without options, with its checksum not yet computed. -/
def ipv4Header : Header where
  fields := [{ nbits := 4, bytes := [4] }, { nbits := 4, bytes := [5] },
    { nbits := 8, bytes := [0] }, { nbits := 16, bytes := [0, 100] },
    { nbits := 16, bytes := [0x12, 0x34] }, { nbits := 3, bytes := [2] },
    { nbits := 13, bytes := [0, 0] }, { nbits := 8, bytes := [64] }, { nbits := 8, bytes := [6] },
    { nbits := 16, bytes := [0xab, 0xcd] }, { nbits := 32, bytes := [10, 0, 0, 1] },
    { nbits := 32, bytes := [10, 0, 0, 2] }]
  valid := true
  nbytesPacket := 20

theorem suits_ipv4Header : (ipv4Checksum ⟨0, 9⟩ none).Suits { headers := [ipv4Header] } := by
  intro h hh _
  obtain rfl := Option.some.inj hh
  refine ⟨⟨fun f hf => ?_, rfl, by decide⟩, by decide, by decide, rfl, fun f hf => ?_⟩
  · simp only [ipv4Header, List.mem_cons, List.not_mem_nil, or_false] at hf
    rcases hf with rfl | rfl | rfl | rfl | rfl | rfl | rfl | rfl | rfl | rfl | rfl | rfl
    all_goals exact ⟨rfl, rfl⟩
  · obtain rfl := Option.some.inj hf
    rfl

/-- Its update makes the header one that is accepted. -/
theorem updated_header_accepted_twenty : ∃ phv' h',
    (ipv4Checksum ⟨0, 9⟩ none).update { headers := [ipv4Header] } checkedCast [] [] = some phv' ∧
      phv'.headers[0]? = some h' ∧ ∃ out, h'.deparse (List.replicate 20 0xff) = some out ∧
      OnesComplement.checksum out = 0 := by
  have hsome : ((ipv4Checksum ⟨0, 9⟩ none).update { headers := [ipv4Header] } checkedCast []
      []).isSome := by
    decide +kernel
  obtain ⟨phv', hupdate⟩ := Option.isSome_iff_exists.mp hsome
  obtain ⟨h', hh', -, -, hdeparse⟩ :=
    updated_header_accepted suits_ipv4Header rfl rfl rfl hupdate
  obtain ⟨out, hout, hcksum⟩ := hdeparse (List.replicate 20 0xff) (by decide)
  have hlen : out.length = 20 := by
    rw [Header.length_deparse hout, List.length_replicate]
  rw [List.take_of_length_le (by rw [hlen]; decide)] at hcksum
  exact ⟨phv', h', hupdate, hh', out, hout, hcksum⟩

/-- The sum of the payload. -/
def ofPayload : Checksum where
  field := { header := 0, offset := 0 }
  impl := .calcBased {
    entries := []
    withPayload := true
    hash := fun buf => (Calculations.cksum16 buf).toNat }

/-- A PHV with a field for it. -/
def withField (nbits : ℕ) : PHV where
  headers := [{ fields := [{ nbits }], valid := true, nbytesPacket := nbits / 8 }]

theorem verifiesAfterUpdate_sixteen : ofPayload.VerifiesAfterUpdate (withField 16) checkedCast []
    [1, 2] (List.replicate 60 0xff) := by
  have hsuits : ofPayload.Suits (withField 16) := by
    refine ⟨fun buf => ?_, fun entry h => absurd h List.not_mem_nil, fun f hf => ?_⟩
    · exact (Calculations.cksum16 buf).isLt.trans (by decide)
    · obtain rfl := Option.some.inj hf
      exact ⟨rfl, rfl, rfl⟩
  refine (verifiesAfterUpdate_iff hsuits (fun _ _ h => absurd h List.not_mem_nil) rfl).mpr ?_
  intro _ cksum f hcksum hf
  obtain rfl := Option.some.inj hcksum
  obtain rfl := Option.some.inj hf
  exact (Calculations.cksum16 _).isLt

/-- A sum of 16 bits does not fit a field of eight. -/
theorem not_verifiesAfterUpdate_eight : ¬ ofPayload.VerifiesAfterUpdate (withField 8) checkedCast []
    [1, 2] (List.replicate 60 0xff) := by
  intro h
  have hverify := h _ rfl
  revert hverify
  decide +kernel

end Checksum

end Bmv2
