import Bmv2.Debugger.Messages
import Mathlib.Data.List.Basic

/-! What each side of the debugger reads of the messages of the other. -/
namespace Bmv2
open ByteBits Records DebuggerMsgType

theorem uint64Format_valid {n : ℕ} : uint64Format.Valid n ↔ n < 2 ^ 64 := Iff.rfl

theorem intFormat_valid {v : ℤ} : intFormat.Valid v ↔ -2 ^ 31 ≤ v ∧ v < 2 ^ 31 := Iff.rfl

instance : DecidablePred uint64Format.Valid := fun n => inferInstanceAs (Decidable (n < 2 ^ 64))

instance : DecidablePred intFormat.Valid := fun v =>
  inferInstanceAs (Decidable (-2 ^ 31 ≤ v ∧ v < 2 ^ 31))

instance : DecidablePred packetIdFormat.Valid := fun p =>
  inferInstanceAs (Decidable (uint64Format.Valid p.packetId ∧ uint64Format.Valid p.copyId))

theorem packetIdFormat_valid {p : Debugger.PacketId} :
    packetIdFormat.Valid p ↔ uint64Format.Valid p.packetId ∧ uint64Format.Valid p.copyId := Iff.rfl

theorem packetIdFormat_write (p : Debugger.PacketId) :
    packetIdFormat.write p = uint64Format.write p.packetId ++ uint64Format.write p.copyId := rfl

theorem reqMsgHdr_write (type switchId : ℤ) (reqId : ℕ) : reqMsgHdr.write (type, switchId, reqId) =
    intFormat.write type ++ (intFormat.write switchId ++ uint64Format.write reqId) := rfl

@[simp] theorem length_intFormat (v : ℤ) : (intFormat.write v).length = 4 := length_leBytes 4 _

@[simp] theorem length_uint32Format (v : BitVec 32) : (uint32Format.write v).length = 4 :=
  length_leBytes 4 _

@[simp] theorem length_uint64Format (n : ℕ) : (uint64Format.write n).length = 8 :=
  length_leBytes 8 _

@[simp] theorem length_packetIdFormat (p : Debugger.PacketId) :
    (packetIdFormat.write p).length = 16 := by
  rw [packetIdFormat_write, List.length_append, length_uint64Format, length_uint64Format]

@[simp] theorem length_reqMsgHdr (p : ℤ × ℤ × ℕ) : (reqMsgHdr.write p).length = 16 := by
  rw [reqMsgHdr_write, List.length_append, List.length_append, length_intFormat, length_intFormat,
    length_uint64Format]

theorem valid_zero : intFormat.Valid 0 := by
  rw [intFormat_valid]
  omega

theorem valid_code (t : DebuggerMsgType) : intFormat.Valid t.code := by
  obtain ⟨hlow, hhigh⟩ := t.code_bounds
  rw [intFormat_valid]
  omega

theorem packInt_eq_some {v : ℤ} {l : List Byte} :
    packInt v = some l ↔ intFormat.Valid v ∧ intFormat.write v = l := by
  rw [packInt, Option.ite_none_right_eq_some, Option.some_inj, intFormat_valid]

theorem packUint64_eq_some {n : ℕ} {l : List Byte} :
    packUint64 n = some l ↔ uint64Format.Valid n ∧ uint64Format.write n = l := by
  rw [packUint64, Option.ite_none_right_eq_some, Option.some_inj, Int.toNat_natCast,
    uint64Format_valid, and_iff_right (Int.natCast_nonneg n)]

/-- A string of the right length is packed as it is. -/
theorem packStr_length (v : List Byte) : packStr v.length v = some v := by
  rw [packStr, if_pos (Int.natCast_nonneg _), Int.toNat_natCast, List.take_length, Nat.sub_self,
    List.replicate_zero, List.append_nil]

theorem packPacketId_eq_some {p : Debugger.PacketId} {l : List Byte} :
    packPacketId p = some l ↔ packetIdFormat.Valid p ∧ packetIdFormat.write p = l := by
  simp only [packPacketId, Option.bind_eq_bind, Option.bind_eq_some_iff, packUint64_eq_some,
    Option.some_inj, packetIdFormat_write]
  constructor
  · rintro ⟨_, ⟨hp, rfl⟩, _, ⟨hc, rfl⟩, heq⟩
    exact ⟨⟨hp, hc⟩, heq⟩
  · rintro ⟨⟨hp, hc⟩, heq⟩
    exact ⟨_, ⟨hp, rfl⟩, _, ⟨hc, rfl⟩, heq⟩

/-! ### Requests -/

namespace DebuggerRequest

/-- The numbers can be written down. -/
def Fits : DebuggerRequest → Prop
  | .getValue p id => packetIdFormat.Valid p ∧ uint64Format.Valid id
  | .getBacktrace p => packetIdFormat.Valid p
  | .filterNotifications ids => (∀ p ∈ ids, packetIdFormat.Valid p) ∧ intFormat.Valid ids.length
  | .setWatchpoint id => uint64Format.Valid id
  | .unsetWatchpoint id => uint64Format.Valid id
  | _ => True

instance : (r : DebuggerRequest) → Decidable r.Fits
  | .getValue _ _ => inferInstanceAs (Decidable (_ ∧ _))
  | .getBacktrace _ => inferInstanceAs (Decidable (packetIdFormat.Valid _))
  | .filterNotifications _ => @instDecidableAnd _ _ (List.decidableBAll _ _) _
  | .setWatchpoint _ | .unsetWatchpoint _ => inferInstanceAs (Decidable (uint64Format.Valid _))
  | .continue_ | .next | .breakPacketIn | .removePacketIn | .stopPacketIn | .resumePacketIn
  | .reset | .attach | .detach => .isTrue trivial

end DebuggerRequest

namespace DebuggerMsg

def Fits (m : DebuggerMsg) : Prop := uint64Format.Valid m.reqId ∧ m.request.Fits

instance (m : DebuggerMsg) : Decidable m.Fits := inferInstanceAs (Decidable (_ ∧ _))

/-- The ids of a filter, one after another. -/
theorem mapM_packPacketId {ids : List Debugger.PacketId} {l : List (List Byte)} :
    ids.mapM packPacketId = some l ↔
      (∀ p ∈ ids, packetIdFormat.Valid p) ∧ ids.map packetIdFormat.write = l := by
  induction ids generalizing l with
  | nil => simp
  | cons p ids ih =>
    rw [List.mapM_cons, List.forall_mem_cons, List.map_cons]
    simp only [Option.bind_eq_bind, Option.bind_eq_some_iff, packPacketId_eq_some, ih]
    constructor
    · rintro ⟨_, ⟨hp, rfl⟩, _, ⟨hids, rfl⟩, heq⟩
      exact ⟨⟨hp, hids⟩, Option.some.inj heq⟩
    · rintro ⟨⟨hp, hids⟩, rfl⟩
      exact ⟨_, ⟨hp, rfl⟩, _, ⟨hids, rfl⟩, rfl⟩

theorem length_flatMap_packetIds (ids : List Debugger.PacketId) :
    (ids.flatMap packetIdFormat.write).length = 16 * ids.length := by
  induction ids with
  | nil => rfl
  | cons p ids ih =>
    rw [List.flatMap_cons, List.length_append, ih, length_packetIdFormat, List.length_cons]
    ring

end DebuggerMsg

/-- The fields can be packed exactly if `P`, and give these parts. -/
def PacksTo (attrs : PyAttrs) (fields : List MsgField) (P : Prop) (parts : List (List Byte)) :
    Prop :=
  ∀ l, fields.mapM (MsgField.pack attrs) = some l ↔ P ∧ parts = l

namespace PacksTo

variable {attrs : PyAttrs} {name : String} {fields : List MsgField} {P Q : Prop} {b : List Byte}
  {parts : List (List Byte)}

theorem nil : PacksTo attrs [] True [] := fun l => by simp

theorem cons {f : MsgField} (hf : ∀ l, MsgField.pack attrs f = some l ↔ Q ∧ b = l)
    (h : PacksTo attrs fields P parts) : PacksTo attrs (f :: fields) (Q ∧ P) (b :: parts) := by
  intro l
  rw [List.mapM_cons]
  simp only [Option.bind_eq_bind, Option.bind_eq_some_iff, hf, h _]
  constructor
  · rintro ⟨_, ⟨hq, rfl⟩, _, ⟨hp, rfl⟩, heq⟩
    exact ⟨⟨hq, hp⟩, Option.some.inj heq⟩
  · rintro ⟨⟨hq, hp⟩, rfl⟩
    exact ⟨_, ⟨hq, rfl⟩, _, ⟨hp, rfl⟩, rfl⟩

theorem int {v : ℤ} (hv : attrs.lookup name = some (.int v)) (h : PacksTo attrs fields P parts) :
    PacksTo attrs ((name, .int) :: fields) (intFormat.Valid v ∧ P)
      (intFormat.write v :: parts) := by
  refine h.cons fun l => ?_
  rw [← packInt_eq_some]
  unfold MsgField.pack
  rw [hv]
  rfl

theorem uint64 {n : ℕ} (hn : attrs.lookup name = some (.int n))
    (h : PacksTo attrs fields P parts) : PacksTo attrs ((name, .uint64) :: fields)
      (uint64Format.Valid n ∧ P) (uint64Format.write n :: parts) := by
  refine h.cons fun l => ?_
  rw [← packUint64_eq_some]
  unfold MsgField.pack
  rw [hn]
  rfl

/-- A string has so many bytes for each of the number that is in another field. -/
theorem raw {src : String} {uf n : ℕ} {v : List Byte} (hv : attrs.lookup name = some (.str v))
    (hsrc : attrs.lookup src = some (.int n)) (hlen : v.length = uf * n)
    (h : PacksTo attrs fields P parts) :
    PacksTo attrs ((name, .raw uf src) :: fields) (True ∧ P) (v :: parts) := by
  refine h.cons fun l => ?_
  have hpack : MsgField.pack attrs (name, .raw uf src) = packStr (uf * n) v := by
    simp only [MsgField.pack, hv, hsrc, Option.bind_eq_bind, Option.bind_some, PyValue.int?,
      PyValue.str?]
  rw [hpack, ← Nat.cast_mul, ← hlen, packStr_length, Option.some_inj, true_and]

/-- The fields of all messages come first. -/
theorem basicMsg {type : ℤ} {reqId : ℕ} (htype : attrs.lookup "type" = some (.int type))
    (hswitch : attrs.lookup "switch_id" = some (.int 0))
    (hreq : attrs.lookup "req_id" = some (.int reqId)) (h : PacksTo attrs fields P parts) :
    PacksTo attrs (DebuggerMsgType.basicMsg ++ fields)
      (intFormat.Valid type ∧ intFormat.Valid 0 ∧ uint64Format.Valid reqId ∧ P)
      (intFormat.write type :: intFormat.write 0 :: uint64Format.write reqId :: parts) :=
  .int htype (.int hswitch (.uint64 hreq h))

end PacksTo

/-- What an object is made with, if the names are different fields. -/
theorem lookup_init {type : DebuggerMsgType} {kwargs : List (String × PyValue)}
    (hnodup : (kwargs.map Prod.fst).Nodup)
    (hfields : ∀ name ∈ kwargs.map Prod.fst, name ∈ type.fields.map Prod.fst ∧ name ≠ "type")
    {kv : String × PyValue} (hkv : kv ∈ kwargs) :
    (PyMsg.init type kwargs).attrs.lookup kv.1 = some kv.2 := by
  obtain ⟨hfield, hne⟩ := hfields kv.1 (List.mem_map_of_mem hkv)
  unfold PyMsg.init setAttrs
  dsimp only
  rw [AList.lookup_insert_ne hne]
  refine UnorderedMap.lookup_foldl_insert_of_mem Prod.fst Prod.snd
    (hnodup.sublist (List.filter_sublist.map Prod.fst)) ?_ ∅
  exact List.mem_filter.mpr ⟨hkv, decide_eq_true hfield⟩

/-- The arguments that all requests have. -/
def basicKwargs (reqId : ℕ) : List (String × PyValue) :=
  [("switch_id", .int 0), ("req_id", .int reqId)]

/-- Each argument of a request is for a field of its own. -/
theorem kwargs_fields {r : DebuggerRequest} {kwargs : List (String × PyValue)}
    (h : r.kwargs = some kwargs) (reqId : ℕ) :
    ((basicKwargs reqId ++ kwargs).map Prod.fst).Nodup ∧
      ∀ name ∈ (basicKwargs reqId ++ kwargs).map Prod.fst,
        name ∈ r.msgType.fields.map Prod.fst ∧ name ≠ "type" := by
  cases r with
  | filterNotifications ids =>
    obtain ⟨s, -, h⟩ := Option.bind_eq_some_iff.mp h
    obtain rfl := Option.some.inj h
    exact ⟨by simp [basicKwargs],
      by simp [basicKwargs, DebuggerRequest.msgType, fields, basicMsg]⟩
  | _ =>
    obtain rfl := Option.some.inj h
    exact ⟨by simp [basicKwargs],
      by simp [basicKwargs, DebuggerRequest.msgType, fields, basicMsg]⟩

namespace DebuggerMsg

/-- A request is made exactly if its own fields can be packed. -/
theorem generate_own {reqId : ℕ} {r : DebuggerRequest} {own : List MsgField} {P : Prop}
    {kwargs : List (String × PyValue)} {parts : List (List Byte)} {bytes : List Byte}
    (hown : r.msgType.fields = basicMsg ++ own) (hkwargs : r.kwargs = some kwargs)
    (hparts : ∀ attrs : PyAttrs, (∀ kv ∈ kwargs, attrs.lookup kv.1 = some kv.2) →
      PacksTo attrs own P parts)
    (hfits : P ↔ r.Fits) (hdata : parts.flatten = r.data) :
    (DebuggerMsg.mk reqId r).generate = some bytes ↔
      (DebuggerMsg.mk reqId r).Fits ∧ (DebuggerMsg.mk reqId r).wire = bytes := by
  obtain ⟨hnodup, hfields⟩ := kwargs_fields hkwargs reqId
  have hlookup : ∀ kv ∈ basicKwargs reqId ++ kwargs,
      (PyMsg.init r.msgType (basicKwargs reqId ++ kwargs)).attrs.lookup kv.1 = some kv.2 :=
    fun kv hkv => lookup_init hnodup hfields hkv
  have hpacks := PacksTo.basicMsg (AList.lookup_insert _)
    (hlookup ("switch_id", .int 0) (by simp [basicKwargs]))
    (hlookup ("req_id", .int reqId) (by simp [basicKwargs]))
    (hparts _ fun kv hkv => hlookup kv (List.mem_append_right _ hkv))
  have hgenerate : (DebuggerMsg.mk reqId r).generate = ((basicMsg ++ own).mapM
      (MsgField.pack (PyMsg.init r.msgType (basicKwargs reqId ++ kwargs)).attrs)).map
        List.flatten := by
    rw [DebuggerMsg.generate, hkwargs, ← hown]
    rfl
  have hwire : (DebuggerMsg.mk reqId r).wire = (intFormat.write r.msgType.code ::
      intFormat.write 0 :: uint64Format.write reqId :: parts).flatten := by
    simp [wire, reqMsgHdr_write, hdata]
  rw [hgenerate, hwire, Option.map_eq_some_iff]
  constructor
  · rintro ⟨l, hl, rfl⟩
    obtain ⟨⟨-, -, hreqId, hp⟩, rfl⟩ := (hpacks l).mp hl
    exact ⟨⟨hreqId, hfits.mp hp⟩, rfl⟩
  · rintro ⟨⟨hreqId, hr⟩, rfl⟩
    exact ⟨_, (hpacks _).mpr ⟨⟨valid_code _, valid_zero, hreqId, hfits.mpr hr⟩, rfl⟩, rfl⟩

/-- The client makes a message exactly if its numbers can be written down. -/
theorem generate_eq_some {m : DebuggerMsg} {bytes : List Byte} :
    m.generate = some bytes ↔ m.Fits ∧ m.wire = bytes := by
  obtain ⟨reqId, request⟩ := m
  cases request with
  | getValue p id =>
    exact generate_own rfl rfl (fun attrs hattrs =>
      .uint64 (hattrs ("packet_id", .int p.packetId) (by simp))
        (.uint64 (hattrs ("copy_id", .int p.copyId) (by simp))
          (.uint64 (hattrs ("fid", .int id) (by simp)) .nil)))
      (by simp [DebuggerRequest.Fits, packetIdFormat_valid, and_assoc])
      (by simp [DebuggerRequest.data, packetIdFormat_write])
  | getBacktrace p =>
    exact generate_own rfl rfl (fun attrs hattrs =>
      .uint64 (hattrs ("packet_id", .int p.packetId) (by simp))
        (.uint64 (hattrs ("copy_id", .int p.copyId) (by simp)) .nil))
      (by simp [DebuggerRequest.Fits, packetIdFormat_valid])
      (by simp [DebuggerRequest.data, packetIdFormat_write])
  | filterNotifications ids =>
    by_cases hvalid : ∀ p ∈ ids, packetIdFormat.Valid p
    · have hkwargs : (DebuggerRequest.filterNotifications ids).kwargs =
          some [("nb", .int ids.length), ("ids", .str (ids.flatMap packetIdFormat.write))] := by
        rw [DebuggerRequest.kwargs, mapM_packPacketId.mpr ⟨hvalid, rfl⟩, List.flatMap_def]
        rfl
      exact generate_own rfl hkwargs (fun attrs hattrs =>
        .int (hattrs ("nb", .int ids.length) (by simp))
          (.raw (hattrs ("ids", .str (ids.flatMap packetIdFormat.write)) (by simp))
            (hattrs ("nb", .int ids.length) (by simp)) (length_flatMap_packetIds ids) .nil))
        (by simpa [DebuggerRequest.Fits] using fun _ => hvalid) (by simp [DebuggerRequest.data])
    · have hnone : ids.mapM packPacketId = none := by
        by_contra hne
        obtain ⟨l, hl⟩ := Option.ne_none_iff_exists'.mp hne
        exact hvalid (mapM_packPacketId.mp hl).1
      refine iff_of_false ?_ fun h => hvalid h.1.2.1
      simp [DebuggerMsg.generate, DebuggerRequest.kwargs, hnone]
  | setWatchpoint id | unsetWatchpoint id =>
    exact generate_own rfl rfl (fun attrs hattrs =>
      .uint64 (hattrs ("fid", .int id) (by simp)) .nil)
      (by simp [DebuggerRequest.Fits]) (by simp [DebuggerRequest.data])
  | _ => exact generate_own rfl rfl (fun attrs hattrs => .nil) Iff.rfl rfl

/-- The switch reads the request of a message that it has in full. -/
theorem readRequest_wire {m : DebuggerMsg} (h : m.Fits) (rest : List Byte) :
    readRequest (m.wire ++ rest) = some m := by
  obtain ⟨reqId, request⟩ := m
  obtain ⟨hreqId, hfits⟩ := h
  have hhdr : ∀ rest, reqMsgHdr.read (reqMsgHdr.write (request.msgType.code, 0, reqId) ++ rest) =
      some ((request.msgType.code, 0, reqId), rest) := fun rest =>
    reqMsgHdr.read_write ⟨valid_code _, valid_zero, hreqId⟩
  unfold readRequest wire
  rw [List.append_assoc, hhdr]
  cases request with
  | getValue p id =>
    have hread : (packetIdFormat.pair uint64Format).read
        (packetIdFormat.write p ++ (uint64Format.write id ++ rest)) = some ((p, id), rest) := by
      rw [← List.append_assoc]
      exact @Format.read_write _ (packetIdFormat.pair uint64Format) (p, id) rest hfits
    simp [DebuggerRequest.msgType, DebuggerRequest.data, hread]
  | getBacktrace p =>
    have hread : packetIdFormat.read (packetIdFormat.write p ++ rest) = some (p, rest) :=
      packetIdFormat.read_write hfits
    simp [DebuggerRequest.msgType, DebuggerRequest.data, hread]
  | filterNotifications ids =>
    have hnb : intFormat.read (intFormat.write ids.length ++
        (ids.flatMap packetIdFormat.write ++ rest)) =
        some ((ids.length : ℤ), ids.flatMap packetIdFormat.write ++ rest) :=
      intFormat.read_write hfits.2
    have hids : (packetIdFormat.list ids.length).read (ids.flatMap packetIdFormat.write ++ rest) =
        some (ids, rest) := Format.read_write _ ⟨rfl, hfits.1⟩
    simp [DebuggerRequest.msgType, DebuggerRequest.data, hnb, hids]
  | setWatchpoint id | unsetWatchpoint id =>
    have hread : uint64Format.read (uint64Format.write id ++ rest) = some (id, rest) :=
      uint64Format.read_write hfits
    simp [DebuggerRequest.msgType, DebuggerRequest.data, hread]
  | _ => simp [DebuggerRequest.msgType]

/-- The ids of a filter that are not all in the memory are not read. -/
theorem readRequest_cut {reqId : ℕ} {ids : List Debugger.PacketId}
    (h : (DebuggerMsg.mk reqId (.filterNotifications ids)).Fits) (hlong : 30 < ids.length) :
    readRequest ((DebuggerMsg.mk reqId (.filterNotifications ids)).wire.take 512) = none := by
  have hcut : (DebuggerMsg.mk reqId (.filterNotifications ids)).wire.take 512 =
      reqMsgHdr.write (filterNotifications.code, 0, reqId) ++
        (intFormat.write ids.length ++ (ids.flatMap packetIdFormat.write).take 492) := by
    rw [wire, DebuggerRequest.data, List.take_append, List.take_append, length_reqMsgHdr,
      length_intFormat, List.take_of_length_le (by simp), List.take_of_length_le (by simp)]
    rfl
  have hhdr : reqMsgHdr.read (reqMsgHdr.write (filterNotifications.code, 0, reqId) ++
      (intFormat.write ids.length ++ (ids.flatMap packetIdFormat.write).take 492)) =
      some ((filterNotifications.code, 0, reqId), intFormat.write ids.length ++
        (ids.flatMap packetIdFormat.write).take 492) :=
    reqMsgHdr.read_write ⟨valid_code _, valid_zero, h.1⟩
  have hnb : intFormat.read (intFormat.write ids.length ++
      (ids.flatMap packetIdFormat.write).take 492) =
      some ((ids.length : ℤ), (ids.flatMap packetIdFormat.write).take 492) :=
    intFormat.read_write h.2.2
  have hids : (packetIdFormat.list ids.length).read
      ((ids.flatMap packetIdFormat.write).take 492) = none := by
    by_contra hne
    obtain ⟨⟨l, rest⟩, hread⟩ := Option.ne_none_iff_exists'.mp hne
    obtain ⟨⟨hl, -⟩, heq⟩ := Format.write_read _ hread
    have hlen := congrArg List.length heq
    have hwritten : (l.flatMap packetIdFormat.write).length = 16 * l.length :=
      length_flatMap_packetIds l
    have happend : ((packetIdFormat.list ids.length).write l ++ rest).length =
        16 * l.length + rest.length := by
      rw [List.length_append]
      exact congrArg (· + rest.length) hwritten
    rw [happend, hl] at hlen
    have htake := List.length_take_le 492 (ids.flatMap packetIdFormat.write)
    omega
  unfold readRequest
  rw [hcut, hhdr]
  simp [hnb, hids]

/-- The longest request that is not a filter has 40 bytes. -/
theorem length_wire_le (m : DebuggerMsg) : m.wire.length ≤ 512 ↔
    ∀ ids, m.request = .filterNotifications ids → ids.length ≤ 30 := by
  obtain ⟨reqId, request⟩ := m
  cases request with
  | filterNotifications ids =>
    have hlen : (DebuggerMsg.mk reqId (.filterNotifications ids)).wire.length =
        16 + (4 + 16 * ids.length) := by
      rw [wire, DebuggerRequest.data, List.length_append, List.length_append, length_reqMsgHdr,
        length_intFormat, length_flatMap_packetIds]
    rw [hlen]
    constructor
    · rintro hle ids' heq
      obtain rfl := DebuggerRequest.filterNotifications.inj heq
      omega
    · intro hle
      have hids := hle ids rfl
      omega
  | _ => simp [wire, DebuggerRequest.data]

/-- What a command of the client asks for is what the switch is asked for: the message is made
exactly if its numbers can be written down, and the switch reads the same request from it, whatever
was in its memory before, exactly if a filter has at most 30 ids. -/
theorem request_round_trip (m : DebuggerMsg) : (m.generate.isSome ↔ m.Fits) ∧
    ∀ bytes storage, m.generate = some bytes → storage.length = 512 →
      (readRequest (storeRequest storage bytes) = some m ↔
        ∀ ids, m.request = .filterNotifications ids → ids.length ≤ 30) := by
  constructor
  · rw [Option.isSome_iff_exists]
    simp only [generate_eq_some, exists_and_left, exists_eq', and_true]
  · intro bytes storage hbytes hstorage
    obtain ⟨hfits, rfl⟩ := generate_eq_some.mp hbytes
    rw [← length_wire_le]
    unfold storeRequest
    rcases Nat.lt_or_ge 512 m.wire.length with hlong | hshort
    · have hmore := mt m.length_wire_le.mpr hlong.not_ge
      push Not at hmore
      obtain ⟨ids, hids, hlen⟩ := hmore
      obtain ⟨reqId, request⟩ := m
      obtain rfl : request = .filterNotifications ids := hids
      rw [List.drop_of_length_le (by omega), List.append_nil, readRequest_cut hfits hlen]
      exact iff_of_false (by simp) hlong.not_ge
    · rw [List.take_of_length_le hshort, readRequest_wire hfits]
      exact iff_of_true rfl hshort

/-- A filter of one packet, in memory where there was something else before. -/
theorem request_round_trip_filter :
    ∃ bytes, (DebuggerMsg.mk 7 (.filterNotifications [⟨3, 1⟩])).generate = some bytes ∧
      readRequest (storeRequest (List.replicate 512 0xff) bytes) =
        some ⟨7, .filterNotifications [⟨3, 1⟩]⟩ := by
  have hfits : (DebuggerMsg.mk 7 (.filterNotifications [⟨3, 1⟩])).Fits := by
    simp [Fits, DebuggerRequest.Fits, packetIdFormat_valid, uint64Format_valid, intFormat_valid]
  obtain ⟨bytes, hbytes⟩ := Option.isSome_iff_exists.mp ((request_round_trip _).1.mpr hfits)
  refine ⟨bytes, hbytes, ((request_round_trip _).2 bytes _ hbytes List.length_replicate).mpr ?_⟩
  rintro ids heq
  obtain rfl := DebuggerRequest.filterNotifications.inj heq
  decide

end DebuggerMsg

/-! ### Replies -/

/-- The numbers are those of their types. -/
def ReplyBody.Fits : ReplyBody → Prop
  | .status n aux => intFormat.Valid n ∧ uint64Format.Valid aux
  | .fieldValue p id _ => packetIdFormat.Valid p ∧ uint64Format.Valid id
  | .backtrace p _ => packetIdFormat.Valid p
  | .packetIn p port => packetIdFormat.Valid p ∧ intFormat.Valid port
  | .keepAlive => True

/-- What the client is to find in a reply. -/
def ReplyBody.attrs : ReplyBody → List (String × PyValue)
  | .status n aux => [("status", .int n), ("aux", .int aux)]
  | .fieldValue p id bytes => [("packet_id", .int p.packetId), ("copy_id", .int p.copyId),
      ("fid", .int id), ("nbytes", .int bytes.length), ("bytes", .str bytes),
      ("bytes_int", if bytes.length = 0 then .none_ else .int (value bytes))]
  | .backtrace p stack => [("packet_id", .int p.packetId), ("copy_id", .int p.copyId),
      ("nb", .int stack.length)]
  | .packetIn p port => [("packet_id", .int p.packetId), ("copy_id", .int p.copyId),
      ("port", .int port)]
  | .keepAlive => []

namespace DebuggerReply

def Fits (r : DebuggerReply) : Prop :=
  intFormat.Valid r.switchId ∧ uint64Format.Valid r.reqId ∧ r.body.Fits

def attrs (r : DebuggerReply) : List (String × PyValue) :=
  ("switch_id", .int r.switchId) :: ("req_id", .int r.reqId) :: r.body.attrs

end DebuggerReply

theorem extract_int {attrs : PyAttrs} {name : String} {fields : List MsgField} {v : ℤ}
    {rest : List Byte} (hv : intFormat.Valid v) :
    extractFields ((name, .int) :: fields) attrs (intFormat.write v ++ rest) =
      extractFields fields (attrs.insert name (.int v)) rest := by
  rw [extractFields, MsgField.unpack, intFormat.read_write hv]
  rfl

theorem extract_uint64 {attrs : PyAttrs} {name : String} {fields : List MsgField} {n : ℕ}
    {rest : List Byte} (hn : uint64Format.Valid n) :
    extractFields ((name, .uint64) :: fields) attrs (uint64Format.write n ++ rest) =
      extractFields fields (attrs.insert name (.int n)) rest := by
  rw [extractFields, MsgField.unpack, uint64Format.read_write hn]
  rfl

theorem extract_raw {attrs : PyAttrs} {name src : String} {uf n : ℕ} {fields : List MsgField}
    {v rest : List Byte} (hsrc : attrs.lookup src = some (.int n)) (hlen : v.length = uf * n) :
    extractFields ((name, .raw uf src) :: fields) attrs (v ++ rest) =
      extractFields fields ((attrs.insert name (.str v)).insert (name ++ "_int")
        (if n = 0 then .none_ else .int (value v))) rest := by
  have hsplit : takeBytes (uf * n) (v ++ rest) = some (v, rest) := by
    rw [← hlen]
    exact takeBytes_append
  simp [extractFields, MsgField.unpack, hsrc, PyValue.int?, hsplit]

/-- The attributes that the header gives. -/
def hdrAttrs (attrs : PyAttrs) (type switchId : ℤ) (reqId : ℕ) : PyAttrs :=
  ((attrs.insert "type" (.int type)).insert "switch_id" (.int switchId)).insert "req_id"
    (.int reqId)

theorem extract_basicMsg {attrs : PyAttrs} {fields : List MsgField} {type switchId : ℤ} {reqId : ℕ}
    {rest : List Byte} (htype : intFormat.Valid type) (hswitch : intFormat.Valid switchId)
    (hreq : uint64Format.Valid reqId) :
    extractFields (basicMsg ++ fields) attrs (reqMsgHdr.write (type, switchId, reqId) ++ rest) =
      extractFields fields (hdrAttrs attrs type switchId reqId) rest := by
  rw [reqMsgHdr_write, List.append_assoc, List.append_assoc]
  exact (extract_int htype).trans ((extract_int hswitch).trans (extract_uint64 hreq))

/-- The class of a message is found by its type, and its own fields are read after the header. -/
theorem waitForMsg_hdr {t : DebuggerMsgType} {own : List MsgField} {switchId : ℤ} {reqId : ℕ}
    {rest : List Byte} (hown : t.fields = basicMsg ++ own) (hswitch : intFormat.Valid switchId)
    (hreq : uint64Format.Valid reqId) :
    waitForMsg (reqMsgHdr.write (t.code, switchId, reqId) ++ rest) =
      (extractFields own (hdrAttrs (PyMsg.init t []).attrs t.code switchId reqId) rest).map
        (PyMsg.mk t) := by
  have hbasic : extractFields basicMsg ∅ (reqMsgHdr.write (t.code, switchId, reqId) ++ rest) =
      some (hdrAttrs ∅ t.code switchId reqId) := by
    rw [← List.append_nil basicMsg]
    exact extract_basicMsg (valid_code t) hswitch hreq
  have htype : (hdrAttrs ∅ t.code switchId reqId).lookup "type" = some (.int t.code) := by
    simp [hdrAttrs, -AList.insert_empty]
  have hextract : (PyMsg.init t []).extract (reqMsgHdr.write (t.code, switchId, reqId) ++ rest) =
      (extractFields own (hdrAttrs (PyMsg.init t []).attrs t.code switchId reqId) rest).map
        (PyMsg.mk t) := by
    unfold PyMsg.extract
    rw [show (PyMsg.init t []).type.fields = basicMsg ++ own from hown,
      extract_basicMsg (valid_code t) hswitch hreq]
    rfl
  unfold waitForMsg
  rw [hbasic]
  simp only [Option.bind_eq_bind, Option.bind_some, htype, PyValue.int?, ofCode_code, hextract]

theorem uint32Format_write (v : BitVec 32) : uint32Format.write v = intFormat.write v.toInt := by
  have hlt := v.isLt
  have hnat : (v.toInt % 2 ^ 32).toNat = v.toNat := by
    rw [BitVec.toInt_eq_toNat_cond]
    split_ifs with hhalf
    · omega
    · omega
  have hwrite : intFormat.write v.toInt = leBytes 4 (v.toInt % 2 ^ 32).toNat := rfl
  rw [hwrite, hnat]
  rfl

theorem valid_toInt (v : BitVec 32) : intFormat.Valid v.toInt := by
  rw [intFormat_valid]
  exact ⟨v.le_toInt, v.toInt_lt⟩

theorem length_flatMap_words (stack : List (BitVec 32)) :
    (stack.flatMap uint32Format.write).length = 4 * stack.length := by
  induction stack with
  | nil => rfl
  | cons v stack ih =>
    rw [List.flatMap_cons, List.length_append, ih, length_uint32Format, List.length_cons]
    ring

/-- The contexts of a backtrace are written as unsigned numbers and read as signed ones. -/
theorem read_words (stack : List (BitVec 32)) :
    (intFormat.list stack.length).read (stack.flatMap uint32Format.write) =
      some (stack.map BitVec.toInt, []) := by
  have hwrite : stack.flatMap uint32Format.write =
      (intFormat.list stack.length).write (stack.map BitVec.toInt) := by
    have hmap : (stack.map BitVec.toInt).flatMap intFormat.write =
        stack.flatMap fun v => intFormat.write v.toInt := List.flatMap_map _ _ _
    have hsame : uint32Format.write = fun v => intFormat.write v.toInt :=
      funext uint32Format_write
    rw [hsame]
    exact hmap.symm
  rw [hwrite, ← List.append_nil ((intFormat.list stack.length).write _)]
  refine Format.read_write _ ⟨List.length_map _, fun v hv => ?_⟩
  obtain ⟨w, -, rfl⟩ := List.mem_map.mp hv
  exact valid_toInt w

/-- What a reply takes behind the header. -/
def ReplyBody.size : ReplyBody → ℕ
  | .status _ _ => 12
  | .fieldValue _ _ bytes => 28 + bytes.length
  | .backtrace _ stack => 20 + 4 * stack.length
  | .packetIn _ _ => 20
  | .keepAlive => 12

theorem ReplyBody.length_data (body : ReplyBody) : body.data.length = body.size := by
  cases body with
  | backtrace p stack =>
    rw [data, List.length_append, List.length_append, length_packetIdFormat, length_intFormat,
      length_flatMap_words, size]
  | fieldValue p id bytes =>
    simp only [data, size, List.length_append, length_packetIdFormat, length_uint64Format,
      length_intFormat]
  | _ => simp [data, size]

/-- The memory for replies has room for 240 bytes behind the header. -/
theorem DebuggerReply.isSome_write (r : DebuggerReply) : r.write.isSome ↔ r.body.size ≤ 240 := by
  have hlen : (reqMsgHdr.write (r.body.msgType.code, r.switchId, r.reqId) ++ r.body.data).length =
      16 + r.body.size := by
    rw [List.length_append, length_reqMsgHdr, r.body.length_data]
  unfold write
  dsimp only
  rw [hlen]
  split_ifs with hroom
  · exact iff_of_true rfl (by omega)
  · exact iff_of_false Bool.false_ne_true (by omega)

/-- The client finds in a reply what the switch has written: the ids, the value with the number
that it stands for, or the contexts of a backtrace. -/
theorem reply_round_trip {r : DebuggerReply} {bytes : List Byte} (h : r.Fits)
    (hwrite : r.write = some bytes) :
    ∃ m, waitForMsg bytes = some m ∧ m.type = r.body.msgType ∧
      (∀ kv ∈ r.attrs, m.attrs.lookup kv.1 = some kv.2) ∧
      ∀ p stack, r.body = .backtrace p stack → m.unpackCtrs = some (stack.map BitVec.toInt) := by
  obtain ⟨switchId, reqId, body⟩ := r
  obtain ⟨hswitch, hreq, hbody⟩ := h
  unfold DebuggerReply.write at hwrite
  dsimp only at hwrite hswitch hreq hbody
  split_ifs at hwrite with hroom
  obtain rfl := Option.some.inj hwrite
  have hwait : ∀ {own : List MsgField} {attrs : PyAttrs} {data : List Byte},
      body.msgType.fields = basicMsg ++ own → body.data = data →
      extractFields own (hdrAttrs (PyMsg.init body.msgType []).attrs body.msgType.code switchId
        reqId) data = some attrs →
      waitForMsg (reqMsgHdr.write (body.msgType.code, switchId, reqId) ++ body.data) =
        some ⟨body.msgType, attrs⟩ := by
    intro own attrs data hown hdata hextract
    rw [waitForMsg_hdr hown hswitch hreq, hdata, hextract]
    rfl
  cases body with
  | status n aux =>
    have hdata : (ReplyBody.status n aux).data =
        intFormat.write n ++ (uint64Format.write aux ++ []) := by simp [ReplyBody.data]
    have hmsg := hwait rfl hdata ((extract_int hbody.1).trans (extract_uint64 hbody.2))
    exact ⟨_, hmsg, rfl, by simp [DebuggerReply.attrs, ReplyBody.attrs, hdrAttrs], by simp⟩
  | fieldValue p id bytes =>
    have hdata : (ReplyBody.fieldValue p id bytes).data = uint64Format.write p.packetId ++
        (uint64Format.write p.copyId ++ (uint64Format.write id ++
          (intFormat.write bytes.length ++ (bytes ++ [])))) := by
      simp [ReplyBody.data, packetIdFormat_write]
    have hlen : intFormat.Valid bytes.length := by
      rw [hdata] at hroom
      simp only [List.length_append, length_reqMsgHdr] at hroom
      rw [intFormat_valid]
      omega
    have hmsg := hwait rfl hdata ((extract_uint64 hbody.1.1).trans ((extract_uint64 hbody.1.2).trans
      ((extract_uint64 hbody.2).trans ((extract_int hlen).trans
        (extract_raw (AList.lookup_insert _) (one_mul _).symm)))))
    exact ⟨_, hmsg, rfl, by simp [DebuggerReply.attrs, ReplyBody.attrs, hdrAttrs], by simp⟩
  | backtrace p stack =>
    have hdata : (ReplyBody.backtrace p stack).data = uint64Format.write p.packetId ++
        (uint64Format.write p.copyId ++ (intFormat.write stack.length ++
          (stack.flatMap uint32Format.write ++ []))) := by
      simp [ReplyBody.data, packetIdFormat_write]
    have hlen : intFormat.Valid stack.length := by
      rw [hdata] at hroom
      simp only [List.length_append, length_reqMsgHdr, length_flatMap_words] at hroom
      rw [intFormat_valid]
      omega
    have hmsg := hwait rfl hdata ((extract_uint64 hbody.1).trans ((extract_uint64 hbody.2).trans
      ((extract_int hlen).trans (extract_raw (AList.lookup_insert _)
        (length_flatMap_words stack)))))
    refine ⟨_, hmsg, rfl, by simp [DebuggerReply.attrs, ReplyBody.attrs, hdrAttrs], ?_⟩
    intro p' stack' heq
    obtain ⟨-, rfl⟩ := ReplyBody.backtrace.inj heq
    have hread := read_words stack
    simp [PyMsg.unpackCtrs, PyValue.int?, PyValue.str?, hread]
  | packetIn p port =>
    have hdata : (ReplyBody.packetIn p port).data = uint64Format.write p.packetId ++
        (uint64Format.write p.copyId ++ (intFormat.write port ++ [])) := by
      simp [ReplyBody.data, packetIdFormat_write]
    have hmsg := hwait rfl hdata ((extract_uint64 hbody.1.1).trans ((extract_uint64 hbody.1.2).trans
      (extract_int hbody.2)))
    exact ⟨_, hmsg, rfl, by simp [DebuggerReply.attrs, ReplyBody.attrs, hdrAttrs], by simp⟩
  | keepAlive =>
    have hmsg := @hwait [] _ _ rfl rfl rfl
    exact ⟨_, hmsg, rfl, by simp [DebuggerReply.attrs, ReplyBody.attrs, hdrAttrs], by simp⟩

theorem reply_round_trip_backtrace : ∃ bytes m,
    (DebuggerReply.mk 0 7 (.backtrace ⟨3, 1⟩ [5, 0xffffffff])).write = some bytes ∧
      waitForMsg bytes = some m ∧ m.unpackCtrs = some [5, -1] := by
  have hfits : (DebuggerReply.mk 0 7 (.backtrace ⟨3, 1⟩ [5, 0xffffffff])).Fits := by
    simp [DebuggerReply.Fits, ReplyBody.Fits, packetIdFormat_valid, uint64Format_valid,
      intFormat_valid]
  have hwrite : (DebuggerReply.mk 0 7 (.backtrace ⟨3, 1⟩ [5, 0xffffffff])).write.isSome := by
    decide +kernel
  obtain ⟨bytes, hbytes⟩ := Option.isSome_iff_exists.mp hwrite
  obtain ⟨m, hm, -, -, hctrs⟩ := reply_round_trip hfits hbytes
  exact ⟨bytes, m, hbytes, hm, hctrs _ _ rfl⟩

end Bmv2
