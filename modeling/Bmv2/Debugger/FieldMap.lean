import Bmv2.Debugger.FieldNames
import Bmv2.Lib.TwosComplement

/-! The ids that the debugger of `p4dbg.py` gives to the fields of a configuration, and when they
are those of the switch. -/
namespace Bmv2
open UnorderedMap

/-- `FieldMap`: names and widths by ids, and ids by names. -/
structure FieldMap where
  fields : Map (ℤ × ℤ) (String × Option ℕ) := ∅
  fieldsRev : Map String (ℤ × ℤ) := ∅

namespace FieldMap

/-- One turn of the loop over the fields of a header; a tuple of three items cannot be unpacked
into a name and a width. -/
def loadField (header : String) (typeId : ℤ) (idx : ℕ) (m : FieldMap) (f : FieldCfg) :
    Option FieldMap :=
  if f.isSigned.isSome then none
  else some {
    fields := m.fields.insert (typeId, idx) (header ++ "." ++ f.name, f.bitwidth)
    fieldsRev := m.fieldsRev.insert (header ++ "." ++ f.name) (typeId, idx) }

def loadFields (header : String) (typeId : ℤ) : ℕ → FieldMap → List FieldCfg → Option FieldMap
  | _, m, [] => some m
  | idx, m, f :: fields => do
    let m ← loadField header typeId idx m f
    loadFields header typeId (idx + 1) m fields

/-- `load_names`. -/
def loadNames (cfg : ProgramCfg) : Option FieldMap :=
  cfg.headers.foldlM (fun m h => do
    let t ← cfg.headerTypesMap.lookup h.headerType
    loadFields h.name t.id 0 m t.fields) {}

variable (m : FieldMap)

def getName (header offset : ℤ) : Option String := (m.fields.lookup (header, offset)).map Prod.fst

def getIdFromName (name : String) : Option (ℤ × ℤ) := m.fieldsRev.lookup name

def getFieldIdFromName (name : String) : Option ℤ :=
  (m.getIdFromName name).map fun (header, offset) => Int.lor (header <<< (32 : ℕ)) offset

def getNameFromFieldId (fid : ℤ) : Option String :=
  m.getName (fid >>> (32 : ℕ)) (Int.land fid 0xffffffff)

end FieldMap

/-- A field of a header instance in the configuration. -/
structure InstanceField where
  header : String
  headerId : ℤ
  typeId : ℤ
  offset : ℕ
  cfg : FieldCfg

namespace InstanceField

def name (e : InstanceField) : String := e.header ++ "." ++ e.cfg.name

/-- The debugger takes the id of the type. -/
def key (e : InstanceField) : ℤ × ℤ := (e.typeId, e.offset)

end InstanceField

namespace ProgramCfg

def fieldsOfInstance (cfg : ProgramCfg) (h : HeaderCfg) : List InstanceField :=
  (cfg.headerTypesMap.lookup h.headerType).elim [] fun t =>
    t.fields.zipIdx.map fun f => ⟨h.name, h.id, t.id, f.2, f.1⟩

/-- The fields of all header instances. -/
def instanceFields (cfg : ProgramCfg) : List InstanceField :=
  cfg.headers.flatMap cfg.fieldsOfInstance

end ProgramCfg

/-- The debugger and the switch agree on the fields of all header instances: each one has the id of
the switch, made of the id of its header and its offset, the id has its name, and no two have the
same id. -/
def FieldIdsAgree (cfg : ProgramCfg) (phv : List NamedHeader) : Prop :=
  ∃ m, FieldMap.loadNames cfg = some m ∧
    (∀ e ∈ cfg.instanceFields, ∃ id, switchFieldId phv e.headerId e.offset = some id ∧
      (id.toNat : ℤ) = e.headerId * 2 ^ 32 + e.offset ∧ e.offset < 2 ^ 32 ∧
      m.getFieldIdFromName e.name = some (id.toNat : ℤ) ∧
      m.getNameFromFieldId id.toNat = some e.name) ∧
    (cfg.instanceFields.map fun e => m.getFieldIdFromName e.name).Nodup

/-- When they agree: a field has no third item, the type of a header that has fields has the id of
the header, a header that has fields is the first of its id, and the names of the fields are
different. -/
structure SameFieldIds (cfg : ProgramCfg) : Prop where
  pairs : ∀ e ∈ cfg.instanceFields, e.cfg.isSigned = none
  ids : ∀ e ∈ cfg.instanceFields, e.typeId = e.headerId
  first : cfg.headers.Pairwise fun g h => cfg.fieldsOf h ≠ [] → g.id ≠ h.id
  names : (cfg.instanceFields.map InstanceField.name).Nodup

namespace FieldMap

def addEntry (m : FieldMap) (e : InstanceField) : FieldMap where
  fields := m.fields.insert e.key (e.name, e.cfg.bitwidth)
  fieldsRev := m.fieldsRev.insert e.name e.key

variable {cfg : ProgramCfg} {m m' : FieldMap} {l : List InstanceField} {e : InstanceField}

theorem fields_foldl (l : List InstanceField) (m : FieldMap) : (l.foldl addEntry m).fields =
    l.foldl (fun m e => m.insert e.key (e.name, e.cfg.bitwidth)) m.fields := by
  induction l generalizing m with
  | nil => rfl
  | cons e l ih => rw [List.foldl_cons, ih]; rfl

theorem fieldsRev_foldl (l : List InstanceField) (m : FieldMap) : (l.foldl addEntry m).fieldsRev =
    l.foldl (fun m e => m.insert e.name e.key) m.fieldsRev := by
  induction l generalizing m with
  | nil => rfl
  | cons e l ih => rw [List.foldl_cons, ih]; rfl

/-- The loop over the fields of a header adds them one by one. -/
theorem loadFields_eq (header : String) (headerId typeId : ℤ) (idx : ℕ) (m : FieldMap)
    (fields : List FieldCfg) : loadFields header typeId idx m fields =
      if ∀ f ∈ fields, f.isSigned = none then
        some (((fields.zipIdx idx).map fun f =>
          (⟨header, headerId, typeId, f.2, f.1⟩ : InstanceField)).foldl addEntry m)
      else none := by
  induction fields generalizing idx m with
  | nil => rfl
  | cons f fields ih =>
    rw [loadFields, loadField]
    cases hsigned : f.isSigned with
    | some signed =>
      have hnot : ¬ ∀ g ∈ f :: fields, g.isSigned = none := fun h => by
        rw [(List.forall_mem_cons.mp h).1] at hsigned
        cases hsigned
      rw [if_neg hnot]
      rfl
    | none =>
      rw [if_neg (by simp)]
      change loadFields header typeId (idx + 1) _ fields = _
      rw [ih, List.zipIdx_cons, List.map_cons, List.foldl_cons]
      simp only [List.forall_mem_cons, hsigned, true_and]
      rfl

theorem forall_fieldsOfInstance {h : HeaderCfg} {t : HeaderTypeCfg}
    (ht : cfg.headerTypesMap.lookup h.headerType = some t) :
    (∀ f ∈ t.fields, f.isSigned = none) ↔
      ∀ e ∈ cfg.fieldsOfInstance h, e.cfg.isSigned = none := by
  rw [ProgramCfg.fieldsOfInstance, ht]
  refine ⟨fun hall => List.forall_mem_map.mpr fun f hf => hall f.1 (List.fst_mem_of_mem_zipIdx hf),
    fun hall f hf => ?_⟩
  obtain ⟨i, hi⟩ := List.mem_iff_getElem?.mp hf
  exact hall _ (List.mem_map_of_mem (List.mk_mem_zipIdx_iff_getElem?.mpr hi))

/-- If it loads, the debugger adds the fields of the headers one by one; it does not load a field
with a third item. -/
theorem loadHeaders_iff (hs : List HeaderCfg)
    (htyped : ∀ h ∈ hs, ∃ t, cfg.headerTypesMap.lookup h.headerType = some t) :
    hs.foldlM (fun m h => do
        let t ← cfg.headerTypesMap.lookup h.headerType
        loadFields h.name t.id 0 m t.fields) m = some m' ↔
      (∀ e ∈ hs.flatMap cfg.fieldsOfInstance, e.cfg.isSigned = none) ∧
        m' = (hs.flatMap cfg.fieldsOfInstance).foldl addEntry m := by
  induction hs generalizing m with
  | nil => exact ⟨fun h => ⟨fun _ h => absurd h List.not_mem_nil, (Option.some.inj h).symm⟩,
      fun h => congrArg some h.2.symm⟩
  | cons h hs ih =>
    obtain ⟨⟨t, ht⟩, hrest⟩ := List.forall_mem_cons.mp htyped
    have hinstance : cfg.fieldsOfInstance h = t.fields.zipIdx.map fun f =>
        (⟨h.name, h.id, t.id, f.2, f.1⟩ : InstanceField) := by
      rw [ProgramCfg.fieldsOfInstance, ht]
      rfl
    rw [List.foldlM_cons, ht, List.flatMap_cons, List.foldl_append, List.forall_mem_append,
      ← forall_fieldsOfInstance ht]
    change ((loadFields h.name t.id 0 m t.fields).bind _ = _) ↔ _
    rw [loadFields_eq _ h.id, ← hinstance]
    by_cases hpairs : ∀ f ∈ t.fields, f.isSigned = none
    · rw [if_pos hpairs]
      exact (ih hrest).trans (and_congr_left' ⟨fun h => ⟨hpairs, h⟩, And.right⟩)
    · rw [if_neg hpairs]
      exact iff_of_false (fun h => by cases h) fun h => hpairs h.1.1

theorem loadNames_iff (htyped : ∀ h ∈ cfg.headers,
    ∃ t, cfg.headerTypesMap.lookup h.headerType = some t) : loadNames cfg = some m ↔
      (∀ e ∈ cfg.instanceFields, e.cfg.isSigned = none) ∧
        m = cfg.instanceFields.foldl addEntry {} :=
  loadHeaders_iff cfg.headers htyped

/-- With different names, each field has the id of its type and its offset. -/
theorem getFieldIdFromName_foldl (hnames : (l.map InstanceField.name).Nodup) (he : e ∈ l)
    (hoffset : e.offset < 2 ^ 32) : (l.foldl addEntry {}).getFieldIdFromName e.name =
      some (e.typeId * 2 ^ 32 + e.offset) := by
  rw [getFieldIdFromName, getIdFromName, fieldsRev_foldl,
    lookup_foldl_insert_of_mem InstanceField.name InstanceField.key hnames he]
  exact congrArg some (TwosComplement.lor_shiftLeft e.typeId hoffset)

/-- With different keys, the id of a field has its name. -/
theorem getNameFromFieldId_foldl (hkeys : (l.map InstanceField.key).Nodup) (he : e ∈ l)
    (hoffset : e.offset < 2 ^ 32) {fid : ℤ} (hfid : fid = e.typeId * 2 ^ 32 + e.offset) :
    (l.foldl addEntry {}).getNameFromFieldId fid = some e.name := by
  have hpow : (2 : ℤ) ^ 32 = 4294967296 := by norm_num
  have hheader : fid >>> (32 : ℕ) = e.typeId := by
    rw [Int.shiftRight_eq_div_pow, hfid]
    push_cast
    omega
  have hlow : Int.land fid 0xffffffff = e.offset := by
    have hmask := TwosComplement.land_mask fid 32
    rw [show (2 ^ 32 - 1 : ℤ) = 0xffffffff by norm_num] at hmask
    rw [hmask, hfid]
    omega
  have hlookup := lookup_foldl_insert_of_mem InstanceField.key
    (fun e : InstanceField => (e.name, e.cfg.bitwidth)) hkeys he ∅
  rw [getNameFromFieldId, hheader, hlow, getName, fields_foldl]
  exact congrArg (Option.map Prod.fst) hlookup

end FieldMap

namespace ProgramCfg

variable {cfg : ProgramCfg} {phv : List NamedHeader} {e : InstanceField} {h : HeaderCfg}

theorem mem_fieldsOfInstance : e ∈ cfg.fieldsOfInstance h ↔
    ∃ t, cfg.headerTypesMap.lookup h.headerType = some t ∧ ∃ i f, (cfg.fieldsOf h)[i]? = some f ∧
      e = ⟨h.name, h.id, t.id, i, f⟩ := by
  rw [fieldsOfInstance, fieldsOf]
  cases cfg.headerTypesMap.lookup h.headerType with
  | none =>
    refine iff_of_false List.not_mem_nil ?_
    rintro ⟨t, ht, -⟩
    cases ht
  | some t =>
    simp only [Option.elim_some, Option.some.injEq, exists_eq_left', List.mem_map, Prod.exists,
      List.mk_mem_zipIdx_iff_getElem?]
    constructor
    · rintro ⟨f, i, hf, he⟩
      exact ⟨i, f, hf, he.symm⟩
    · rintro ⟨i, f, hf, he⟩
      exact ⟨f, i, hf, he.symm⟩

/-- A field of an instance, with what is known about it once the switch has loaded. -/
theorem instanceField_spec (hload : cfg.load = some phv) (he : e ∈ cfg.fieldsOfInstance h) :
    e.headerId = h.id ∧ (cfg.fieldsOf h)[e.offset]? = some e.cfg ∧ e.offset < 2 ^ 31 := by
  obtain ⟨t, -, i, f, hf, rfl⟩ := mem_fieldsOfInstance.mp he
  exact ⟨rfl, hf, (List.getElem?_eq_some_iff.mp hf).1.trans (length_fieldsOf_lt hload h)⟩

/-- A header with fields has a first one. -/
theorem exists_first_field (hload : cfg.load = some phv) (hh : h ∈ cfg.headers)
    (hfields : cfg.fieldsOf h ≠ []) : ∃ e ∈ cfg.fieldsOfInstance h, e.headerId = h.id ∧
      e.offset = 0 := by
  obtain ⟨t, ht⟩ := ((load_spec hload).2.1 h hh).2
  obtain ⟨f, fields, hcons⟩ := List.exists_cons_of_ne_nil hfields
  exact ⟨_, mem_fieldsOfInstance.mpr ⟨t, ht, 0, f, by rw [hcons]; rfl, rfl⟩, rfl, rfl⟩

theorem pairwise_of_split {α : Type*} {R : α → α → Prop} {l : List α}
    (h : ∀ before b after, l = before ++ b :: after → ∀ a ∈ before, R a b) : l.Pairwise R := by
  induction l with
  | nil => exact .nil
  | cons a l ih =>
    refine List.pairwise_cons.mpr ⟨fun b hb => ?_, ih fun before b after hl c hc => ?_⟩
    · obtain ⟨before, after, rfl⟩ := List.append_of_mem hb
      exact h (a :: before) b after rfl a List.mem_cons_self
    · exact h (a :: before) b after (congrArg (a :: ·) hl) c (List.mem_cons_of_mem a hc)

/-- If the debugger and the switch agree, no header with fields has the id of an earlier one. -/
theorem first_of_agree (hload : cfg.load = some phv) (h : FieldIdsAgree cfg phv) :
    cfg.headers.Pairwise fun g h => cfg.fieldsOf h ≠ [] → g.id ≠ h.id := by
  obtain ⟨m, -, hagree, hnodup⟩ := h
  refine pairwise_of_split fun before h after hsplit g hg hfields hid => ?_
  obtain ⟨g₀, hg₀, hid₀, -, hswitch⟩ := (load_spec hload).2.2 before (h :: after) hsplit g hg
  have hmem : ∀ {k}, k ∈ cfg.headers → ∀ e ∈ cfg.fieldsOfInstance k, e ∈ cfg.instanceFields :=
    fun hk e he => List.mem_flatMap.mpr ⟨_, hk, he⟩
  have hh : h ∈ cfg.headers := by rw [hsplit]; simp
  have hg₀mem : g₀ ∈ cfg.headers := by rw [hsplit]; exact List.mem_append_left _ hg₀
  obtain ⟨e, he, heid, heoff⟩ := exists_first_field hload hh hfields
  obtain ⟨id, hattached, -, -, hname, -⟩ := hagree e (hmem hh e he)
  rw [heid, heoff, ← hid, hswitch] at hattached
  have hfields₀ : cfg.fieldsOf g₀ ≠ [] := by
    intro hnil
    rw [hnil] at hattached
    cases hattached
  obtain ⟨e₀, he₀, heid₀, heoff₀⟩ := exists_first_field hload hg₀mem hfields₀
  obtain ⟨id₀, hattached₀, -, -, hname₀, -⟩ := hagree e₀ (hmem hg₀mem e₀ he₀)
  rw [heid₀, heoff₀, hid₀, hswitch, hattached] at hattached₀
  obtain rfl := Option.some.inj hattached₀
  rw [instanceFields, hsplit, List.flatMap_append, List.flatMap_cons, List.map_append,
    List.map_append] at hnodup
  have hdisjoint := (List.nodup_append.mp hnodup).2.2
  refine hdisjoint _ (List.mem_map_of_mem (List.mem_flatMap.mpr ⟨g₀, hg₀, he₀⟩)) _
    (List.mem_append_left _ (List.mem_map_of_mem he)) ?_
  rw [hname₀, hname]

/-- The ids of the debugger, once it has loaded. -/
theorem sameFieldIds_of_agree (hload : cfg.load = some phv) (h : FieldIdsAgree cfg phv) :
    SameFieldIds cfg := by
  have hfirst := first_of_agree hload h
  obtain ⟨m, hm, hagree, hnodup⟩ := h
  obtain ⟨hpairs, rfl⟩ := (FieldMap.loadNames_iff fun h hh => ((load_spec hload).2.1 h hh).2).mp hm
  have hnames : (cfg.instanceFields.map InstanceField.name).Nodup := by
    refine List.Nodup.of_map (cfg.instanceFields.foldl FieldMap.addEntry {}).getFieldIdFromName ?_
    rw [List.map_map]
    exact hnodup
  refine ⟨hpairs, fun e he => ?_, hfirst, hnames⟩
  obtain ⟨id, -, hid, hoffset, hname, -⟩ := hagree e he
  rw [FieldMap.getFieldIdFromName_foldl hnames he hoffset, hid] at hname
  have hsum := Option.some.inj hname
  omega

/-- The keys of different fields are different. -/
theorem nodup_keys (hsame : SameFieldIds cfg) :
    (cfg.instanceFields.map InstanceField.key).Nodup := by
  have hkey : ∀ h, ((cfg.fieldsOfInstance h).map InstanceField.key).Nodup := by
    intro h
    rw [fieldsOfInstance]
    cases cfg.headerTypesMap.lookup h.headerType with
    | none => exact .nil
    | some t =>
      rw [Option.elim_some, List.map_map]
      have hsnd : (t.fields.zipIdx.map Prod.snd).Nodup := by
        rw [List.zipIdx_map_snd]
        exact List.nodup_range'
      refine List.Nodup.of_map Prod.snd ?_
      rw [List.map_map]
      exact List.Nodup.of_map Int.toNat (by rw [List.map_map]; exact hsnd)
  rw [instanceFields, List.map_flatMap, List.nodup_flatMap]
  refine ⟨fun h _ => hkey h, hsame.first.imp_of_mem fun {g h} hg hh hgh key hkg hkh => ?_⟩
  obtain ⟨e, he, rfl⟩ := List.mem_map.mp hkg
  obtain ⟨e', he', hkeys⟩ := List.mem_map.mp hkh
  have hids := hsame.ids e (List.mem_flatMap.mpr ⟨g, hg, he⟩)
  have hids' := hsame.ids e' (List.mem_flatMap.mpr ⟨h, hh, he'⟩)
  obtain ⟨t, -, i, f, hf, rfl⟩ := mem_fieldsOfInstance.mp he
  obtain ⟨t', -, i', f', hf', rfl⟩ := mem_fieldsOfInstance.mp he'
  have hfields : cfg.fieldsOf h ≠ [] := List.ne_nil_of_mem (List.mem_of_getElem? hf')
  exact hgh hfields (hids.symm.trans ((congrArg Prod.fst hkeys).symm.trans hids'))

/-- The id that the switch attaches to a field of a header that is the first of its id. -/
theorem switchFieldId_of_first (hload : cfg.load = some phv)
    (hfirst : cfg.headers.Pairwise fun g h => cfg.fieldsOf h ≠ [] → g.id ≠ h.id)
    (hh : h ∈ cfg.headers) (he : e ∈ cfg.fieldsOfInstance h) :
    ∃ id, switchFieldId phv e.headerId e.offset = some id ∧
      (id.toNat : ℤ) = e.headerId * 2 ^ 32 + e.offset := by
  obtain ⟨hid, hfield, hoffset⟩ := instanceField_spec hload he
  have hfields : cfg.fieldsOf h ≠ [] := List.ne_nil_of_mem (List.mem_of_getElem? hfield)
  obtain ⟨before, after, hsplit⟩ := List.append_of_mem hh
  obtain ⟨g, hg, hgid, hpos, hswitch⟩ := (load_spec hload).2.2 (before ++ [h]) after
    (by rw [hsplit, List.append_assoc, List.singleton_append]) h (by simp)
  rcases List.mem_append.mp hg with hbefore | hlast
  · rw [hsplit] at hfirst
    have hne := (List.pairwise_append.mp hfirst).2.2 g hbefore h List.mem_cons_self
    exact absurd hgid (hne hfields)
  · obtain rfl := List.mem_singleton.mp hlast
    have hint := ((load_spec hload).2.1 g hh).1.2
    obtain ⟨k, hk⟩ := Int.eq_ofNat_of_zero_le hpos
    rw [hid, hswitch, hfield, hk]
    refine ⟨_, rfl, ?_⟩
    rw [toNat_fieldUniqueId (by omega) hoffset]
    push_cast
    rfl

theorem agree_of_sameFieldIds (hload : cfg.load = some phv) (h : SameFieldIds cfg) :
    FieldIdsAgree cfg phv := by
  have htyped := fun h hh => ((load_spec hload).2.1 h hh).2
  have hkeys := nodup_keys h
  have hoffset : ∀ e ∈ cfg.instanceFields, e.offset < 2 ^ 32 := by
    intro e he
    obtain ⟨g, -, hmem⟩ := List.mem_flatMap.mp he
    have hlt := (instanceField_spec hload hmem).2.2
    omega
  have hname : ∀ e ∈ cfg.instanceFields,
      (cfg.instanceFields.foldl FieldMap.addEntry {}).getFieldIdFromName e.name =
        some (e.typeId * 2 ^ 32 + e.offset) := fun e he =>
    FieldMap.getFieldIdFromName_foldl h.names he (hoffset e he)
  refine ⟨_, (FieldMap.loadNames_iff htyped).mpr ⟨h.pairs, rfl⟩, fun e he => ?_, ?_⟩
  · obtain ⟨g, hg, hmem⟩ := List.mem_flatMap.mp he
    obtain ⟨id, hattached, hid⟩ := switchFieldId_of_first hload h.first hg hmem
    have htype : (id.toNat : ℤ) = e.typeId * 2 ^ 32 + e.offset := by rw [hid, h.ids e he]
    exact ⟨id, hattached, hid, hoffset e he, by rw [hname e he, htype],
      FieldMap.getNameFromFieldId_foldl hkeys he (hoffset e he) htype⟩
  · refine List.Nodup.map_on (fun e he e' he' heq => ?_) (List.Nodup.of_map _ hkeys)
    rw [hname e he, hname e' he'] at heq
    have hsum := Option.some.inj heq
    have hlt := hoffset e he
    have hlt' := hoffset e' he'
    refine List.inj_on_of_nodup_map hkeys he he' (Prod.ext ?_ ?_)
    · change e.typeId = e'.typeId
      omega
    · change (e.offset : ℤ) = e'.offset
      omega

/-- In every configuration that the switch loads, the debugger has the ids of the switch if no
field is declared with a sign, the headers with fields have the ids of their types and are the
first of their ids, and no two fields have the same name; and not otherwise. -/
theorem fieldIdsAgree_iff (hload : cfg.load = some phv) :
    FieldIdsAgree cfg phv ↔ SameFieldIds cfg :=
  ⟨sameFieldIds_of_agree hload, agree_of_sameFieldIds hload⟩

instance (cfg : ProgramCfg) : Decidable (SameFieldIds cfg) :=
  decidable_of_iff ((∀ e ∈ cfg.instanceFields, e.cfg.isSigned = none) ∧
      (∀ e ∈ cfg.instanceFields, e.typeId = e.headerId) ∧
      (cfg.headers.Pairwise fun g h => (cfg.fieldsOf h).isEmpty = false → g.id ≠ h.id) ∧
      (cfg.instanceFields.map InstanceField.name).Nodup)
    ⟨fun ⟨pairs, ids, first, names⟩ => ⟨pairs, ids, first.imp fun h hne => h (by simpa using hne),
        names⟩,
      fun ⟨pairs, ids, first, names⟩ => ⟨pairs, ids, first.imp fun h hne => h (by simpa using hne),
        names⟩⟩

/-- Two types, each with one instance of its id. -/
def twoTypes : ProgramCfg where
  headerTypes := [⟨"ethernet_t", 0, [⟨"dst", some 48, none⟩, ⟨"src", some 48, none⟩]⟩,
    ⟨"meta_t", 1, [⟨"port", some 8, none⟩]⟩]
  headers := [⟨"meta", 1, "meta_t"⟩, ⟨"ethernet", 0, "ethernet_t"⟩]

theorem fieldIdsAgree_twoTypes : ∃ phv, twoTypes.load = some phv ∧ FieldIdsAgree twoTypes phv := by
  obtain ⟨phv, hload⟩ := Option.isSome_iff_exists.mp (show twoTypes.load.isSome by decide +kernel)
  exact ⟨phv, hload, (fieldIdsAgree_iff hload).mpr (by decide +kernel)⟩

/-- Two instances of one type. -/
def twoInstances : ProgramCfg where
  headerTypes := [⟨"vlan_t", 0, [⟨"tag", some 16, none⟩]⟩]
  headers := [⟨"outer", 0, "vlan_t"⟩, ⟨"inner", 1, "vlan_t"⟩]

/-- The fields of both instances get the id of the field of the first one. -/
theorem not_fieldIdsAgree_twoInstances : ∃ phv, twoInstances.load = some phv ∧
    ((FieldMap.loadNames twoInstances).bind fun m => m.getFieldIdFromName "inner.tag") = some 0 ∧
    switchFieldId phv 1 0 = some (2 ^ 32) ∧ ¬ FieldIdsAgree twoInstances phv := by
  obtain ⟨phv, hload⟩ := Option.isSome_iff_exists.mp
    (show twoInstances.load.isSome by decide +kernel)
  have hattached : twoInstances.load.bind (fun phv => switchFieldId phv 1 0) = some (2 ^ 32) := by
    decide +kernel
  rw [hload] at hattached
  exact ⟨phv, hload, by decide +kernel, hattached,
    fun h => (by decide +kernel : ¬ SameFieldIds twoInstances) (sameFieldIds_of_agree hload h)⟩

end ProgramCfg

end Bmv2
