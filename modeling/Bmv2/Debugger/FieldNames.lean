import Bmv2.Lib.UnorderedMap
import Bmv2.Packet.Headers

/-! The names and the ids that the fields of a PHV get when a configuration is loaded
(`P4Objects.cpp`, `phv.cpp`, `headers.cpp`). The rest of the configuration is left out. -/
namespace Bmv2
open UnorderedMap

/-- A tuple of `fields`: the width is `*` for the variable-length field, and a third item says
whether the field is signed. -/
structure FieldCfg where
  name : String
  bitwidth : Option ℕ
  isSigned : Option Bool := none

structure HeaderTypeCfg where
  name : String
  id : ℤ
  fields : List FieldCfg

structure HeaderCfg where
  name : String
  id : ℤ
  headerType : String

structure ProgramCfg where
  headerTypes : List HeaderTypeCfg
  headers : List HeaderCfg

/-- `asInt` throws if a number is none of these. -/
def IsInt (i : ℤ) : Prop := -2 ^ 31 ≤ i ∧ i < 2 ^ 31

instance (i : ℤ) : Decidable (IsInt i) := inferInstanceAs (Decidable (_ ∧ _))

namespace HeaderTypeCfg

/-- What the loop over the fields pushes back. -/
def headerType (t : HeaderTypeCfg) : HeaderType where
  fieldsInfo := t.fields.map fun f => ⟨f.bitwidth.getD 0, f.isSigned.getD false⟩

/-- The type is built: there is at most one variable-length field, and an `int` counts the
fields. -/
def Built (t : HeaderTypeCfg) : Prop :=
  IsInt t.id ∧ (t.fields.filter fun f => f.bitwidth.isNone).length ≤ 1 ∧ t.fields.length < 2 ^ 31

instance (t : HeaderTypeCfg) : Decidable t.Built := inferInstanceAs (Decidable (_ ∧ _))

end HeaderTypeCfg

/-- The last header type of a name stays. -/
def ProgramCfg.headerTypesMap (cfg : ProgramCfg) : Map String HeaderTypeCfg :=
  cfg.headerTypes.foldl (fun m t => m.insert t.name t) ∅

/-- `HeaderDesc`. -/
structure NamedDesc where
  name : String
  index : ℤ
  headerType : HeaderTypeCfg

structure NamedField where
  name : String
  id : BitVec 64

structure NamedHeader where
  name : String
  fields : List NamedField

/-- `field_unique_id`. -/
def fieldUniqueId (id : ℤ) (i : ℕ) : BitVec 64 := BitVec.ofInt 64 id <<< 32 ||| BitVec.ofNat 64 i

namespace NamedDesc

/-- The constructor of `Header`, with its assertions. -/
def create (d : NamedDesc) : Option NamedHeader := do
  let _ ← Header.ofType d.headerType.headerType (fun _ => false) false
  return {
    name := d.name
    fields := d.headerType.fields.mapIdx fun i f => ⟨f.name, fieldUniqueId d.index i⟩ }

/-- `PHVFactory::push_back_header`: `header_descs` is ordered by the index, and `insert` leaves an
index that is there alone. -/
def pushBack (descs : List NamedDesc) (d : NamedDesc) : List NamedDesc :=
  if d.index ∈ descs.map NamedDesc.index then descs
  else descs.orderedInsert (fun d e => d.index ≤ e.index) d

end NamedDesc

/-- The loop of `PHVFactory::create`, with the assertions of `PHV::push_back_header`. -/
def createHeaders (capacity : ℕ) : List NamedHeader → List NamedDesc → Option (List NamedHeader)
  | headers, [] => some headers
  | headers, d :: descs =>
    if d.index < capacity ∧ d.index = headers.length then do
      let header ← d.create
      createHeaders capacity (headers ++ [header]) descs
    else none

namespace ProgramCfg

variable (cfg : ProgramCfg)

def descOf (h : HeaderCfg) (t : HeaderTypeCfg) : NamedDesc := ⟨h.name, h.id, t⟩

/-- One turn of the loop over the headers; an unknown type throws. -/
def pushHeader (descs : List NamedDesc) (h : HeaderCfg) : Option (List NamedDesc) := do
  let t ← cfg.headerTypesMap.lookup h.headerType
  if IsInt h.id then some (NamedDesc.pushBack descs (descOf h t)) else none

/-- The headers of the PHVs of a switch that has loaded the configuration. -/
def load : Option (List NamedHeader) :=
  if ∀ t ∈ cfg.headerTypes, t.Built then do
    let descs ← cfg.headers.foldlM cfg.pushHeader []
    createHeaders descs.length [] descs
  else none

/-- The fields of the type of a header. -/
def fieldsOf (h : HeaderCfg) : List FieldCfg :=
  (cfg.headerTypesMap.lookup h.headerType).elim [] HeaderTypeCfg.fields

end ProgramCfg

/-- The id that the switch attaches to a field, by the id of its header and its offset. -/
def switchFieldId (phv : List NamedHeader) (header : ℤ) (offset : ℕ) : Option (BitVec 64) := do
  let h ← phv[header.toNat]?
  let f ← h.fields[offset]?
  return f.id

/-- The id of the header is in the high 32 bits, the offset of the field in the low ones. -/
theorem toNat_fieldUniqueId {id i : ℕ} (hid : id < 2 ^ 31) (hi : i < 2 ^ 31) :
    (fieldUniqueId id i).toNat = id * 2 ^ 32 + i := by
  have hor := Nat.shiftLeft_add_eq_or_of_lt (show i < 2 ^ 32 by omega) id
  rw [Nat.shiftLeft_eq] at hor
  rw [fieldUniqueId, BitVec.toNat_or, BitVec.toNat_shiftLeft, BitVec.ofInt_natCast,
    BitVec.toNat_ofNat, BitVec.toNat_ofNat, Nat.mod_eq_of_lt (show id < 2 ^ 64 by omega),
    Nat.mod_eq_of_lt (show i < 2 ^ 64 by omega), Nat.shiftLeft_eq,
    Nat.mod_eq_of_lt (show id * 2 ^ 32 < 2 ^ 64 by omega), hor]

namespace ProgramCfg

variable {cfg : ProgramCfg} {descs descs' : List NamedDesc} {headers phv : List NamedHeader}
  {h : HeaderCfg} {d : NamedDesc} {i : ℤ} {t : HeaderTypeCfg}

theorem mem_pushBack {e : NamedDesc} (he : e ∈ NamedDesc.pushBack descs d) : e = d ∨ e ∈ descs := by
  rw [NamedDesc.pushBack] at he
  split_ifs at he
  · exact .inr he
  · exact (List.mem_orderedInsert _).mp he

theorem mem_pushBack_of_mem {e : NamedDesc} (he : e ∈ descs) : e ∈ NamedDesc.pushBack descs d := by
  rw [NamedDesc.pushBack]
  split_ifs
  · exact he
  · exact (List.mem_orderedInsert _).mpr (.inr he)

theorem exists_mem_pushBack (descs : List NamedDesc) (d : NamedDesc) :
    ∃ e ∈ NamedDesc.pushBack descs d, e.index = d.index ∧ (e = d ∨ e ∈ descs) := by
  by_cases hmem : d.index ∈ descs.map NamedDesc.index
  · obtain ⟨e, he, hindex⟩ := List.mem_map.mp hmem
    exact ⟨e, mem_pushBack_of_mem he, hindex, .inr he⟩
  · rw [NamedDesc.pushBack, if_neg hmem]
    exact ⟨d, (List.mem_orderedInsert _).mpr (.inl rfl), rfl, .inl rfl⟩

theorem pushHeader_eq_some (hpush : cfg.pushHeader descs h = some descs') :
    ∃ t, cfg.headerTypesMap.lookup h.headerType = some t ∧ IsInt h.id ∧
      descs' = NamedDesc.pushBack descs (descOf h t) := by
  obtain ⟨t, ht, hrest⟩ := Option.bind_eq_some_iff.mp hpush
  split_ifs at hrest with hint
  exact ⟨t, ht, hint, (Option.some.inj hrest).symm⟩

/-- What the loop over the headers leaves behind: the headers have types and ids, no description is
lost, and there is one for the id of each header, of one of the headers. -/
theorem pushHeaders_spec {l : List HeaderCfg}
    (hpush : l.foldlM cfg.pushHeader descs = some descs') :
    (∀ h ∈ l, IsInt h.id ∧ ∃ t, cfg.headerTypesMap.lookup h.headerType = some t) ∧
      descs ⊆ descs' ∧ ∀ h ∈ l, ∃ d ∈ descs', d.index = h.id ∧ (d ∈ descs ∨ ∃ g ∈ l, ∃ t,
        cfg.headerTypesMap.lookup g.headerType = some t ∧ d = descOf g t) := by
  induction l generalizing descs with
  | nil =>
    obtain rfl := Option.some.inj hpush
    exact ⟨fun _ h => absurd h List.not_mem_nil, List.Subset.refl _,
      fun _ h => absurd h List.not_mem_nil⟩
  | cons h l ih =>
    rw [List.foldlM_cons] at hpush
    obtain ⟨mid, hmid, hrest⟩ := Option.bind_eq_some_iff.mp hpush
    obtain ⟨t, ht, hint, rfl⟩ := pushHeader_eq_some hmid
    obtain ⟨htyped, hkept, hfound⟩ := ih hrest
    refine ⟨List.forall_mem_cons.mpr ⟨⟨hint, t, ht⟩, htyped⟩,
      fun e he => hkept (mem_pushBack_of_mem he), List.forall_mem_cons.mpr ⟨?_, ?_⟩⟩
    · obtain ⟨d, hd, hindex, hfrom⟩ := exists_mem_pushBack descs (descOf h t)
      refine ⟨d, hkept hd, hindex, ?_⟩
      rcases hfrom with rfl | hfrom
      · exact .inr ⟨h, List.mem_cons_self, t, ht, rfl⟩
      · exact .inl hfrom
    · intro g hg
      obtain ⟨d, hd, hindex, hfrom⟩ := hfound g hg
      refine ⟨d, hd, hindex, ?_⟩
      rcases hfrom with hfrom | ⟨g', hg', t', ht', rfl⟩
      · rcases mem_pushBack hfrom with rfl | hfrom
        · exact .inr ⟨h, List.mem_cons_self, t, ht, rfl⟩
        · exact .inl hfrom
      · exact .inr ⟨g', List.mem_cons_of_mem h hg', t', ht', rfl⟩

/-- Every description has become the header at its index. -/
theorem createHeaders_spec {capacity : ℕ}
    (hcreate : createHeaders capacity headers descs = some phv) :
    headers <+: phv ∧ ∀ d ∈ descs, ∃ k : ℕ, d.index = k ∧ ∃ header, d.create = some header ∧
      phv[k]? = some header := by
  induction descs generalizing headers with
  | nil =>
    obtain rfl := Option.some.inj hcreate
    exact ⟨List.prefix_rfl, fun _ h => absurd h List.not_mem_nil⟩
  | cons d descs ih =>
    rw [createHeaders] at hcreate
    split_ifs at hcreate with hindex
    obtain ⟨header, hheader, hrest⟩ := Option.bind_eq_some_iff.mp hcreate
    obtain ⟨hkept, hdescs⟩ := ih hrest
    refine ⟨(List.prefix_append _ _).trans hkept, List.forall_mem_cons.mpr ⟨?_, hdescs⟩⟩
    refine ⟨headers.length, hindex.2, header, hheader, ?_⟩
    obtain ⟨rest, rfl⟩ := hkept
    rw [List.append_assoc, List.getElem?_append_right le_rfl, Nat.sub_self]
    rfl

theorem create_fields {header : NamedHeader} (hcreate : d.create = some header) :
    header.fields = d.headerType.fields.mapIdx fun i f => ⟨f.name, fieldUniqueId d.index i⟩ := by
  obtain ⟨_, -, hrest⟩ := Option.bind_eq_some_iff.mp hcreate
  rw [← Option.some.inj hrest]

/-- What the switch has loaded: the types are known, and for each id the header of one of the first
instances that have it. -/
theorem load_spec (hload : cfg.load = some phv) :
    (∀ t ∈ cfg.headerTypes, t.Built) ∧
      (∀ h ∈ cfg.headers, IsInt h.id ∧ ∃ t, cfg.headerTypesMap.lookup h.headerType = some t) ∧
      ∀ before after, cfg.headers = before ++ after → ∀ h ∈ before, ∃ g ∈ before, g.id = h.id ∧
        0 ≤ h.id ∧ ∀ offset, switchFieldId phv h.id offset =
          (cfg.fieldsOf g)[offset]?.map fun _ => fieldUniqueId h.id offset := by
  rw [load] at hload
  split_ifs at hload with hbuilt
  obtain ⟨descs, hpush, hcreate⟩ := Option.bind_eq_some_iff.mp hload
  refine ⟨hbuilt, (pushHeaders_spec hpush).1, fun before after hsplit h hh => ?_⟩
  rw [hsplit, List.foldlM_append] at hpush
  obtain ⟨mid, hmid, hrest⟩ := Option.bind_eq_some_iff.mp hpush
  obtain ⟨d, hd, hindex, hfrom⟩ := (pushHeaders_spec hmid).2.2 h hh
  rcases hfrom with hfrom | ⟨g, hg, t, ht, rfl⟩
  · exact absurd hfrom List.not_mem_nil
  obtain ⟨k, hk, header, hheader, hget⟩ :=
    (createHeaders_spec hcreate).2 _ ((pushHeaders_spec hrest).2.1 hd)
  refine ⟨g, hg, hindex, ?_, fun offset => ?_⟩
  · rw [← hindex, hk]
    exact Int.natCast_nonneg k
  · have hfields : cfg.fieldsOf g = t.fields := by rw [fieldsOf, ht]; rfl
    rw [switchFieldId, ← hindex, hk, Int.toNat_natCast, hget, hfields]
    change (header.fields[offset]?).bind _ = _
    rw [create_fields hheader, List.getElem?_mapIdx, hk]
    change (t.fields[offset]?.map _).bind _ = _
    cases t.fields[offset]? <;> rfl

theorem built_of_lookup (hload : cfg.load = some phv) {name : String}
    (ht : cfg.headerTypesMap.lookup name = some t) : t.Built := by
  rcases mem_of_lookup_foldl_insert HeaderTypeCfg.name id ht with hempty | ⟨t', hmem, -, rfl⟩
  · cases hempty
  · exact (load_spec hload).1 t' hmem

theorem length_fieldsOf_lt (hload : cfg.load = some phv) (h : HeaderCfg) :
    (cfg.fieldsOf h).length < 2 ^ 31 := by
  rw [fieldsOf]
  cases ht : cfg.headerTypesMap.lookup h.headerType with
  | none => exact Nat.two_pow_pos 31
  | some t => exact (built_of_lookup hload ht).2.2

end ProgramCfg

end Bmv2
