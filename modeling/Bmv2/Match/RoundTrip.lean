import Mathlib.Algebra.BigOperators.Group.List.Basic
import Bmv2.Match.Encoding

/-! Decoding an internal key returns the user's parameters in normal form, and the normal
form encodes to the same key. -/
namespace Bmv2
open ByteBits Blocks

/-- `MatchUnitType`. -/
inductive UnitType where
  | exact | lpm | ternary
  deriving DecidableEq

theorem createMaskFromPrefLen_eq {p size : ℕ} (h : p ≤ 8 * size) :
    createMaskFromPrefLen p size = List.replicate (p / 8) (0xff : Byte) ++
      if p % 8 = 0 then List.replicate (size - p / 8) (0 : Byte)
      else ((0xff : Byte) <<< (8 - p % 8)) :: List.replicate (size - p / 8 - 1) (0 : Byte) := by
  simp only [createMaskFromPrefLen]
  by_cases h0 : p % 8 = 0
  · simp [h0]
  · have hsucc : size - p / 8 = (size - p / 8 - 1) + 1 := by omega
    rw [if_pos h0, if_neg h0, List.set_append_right _ _ (by simp)]
    simp only [List.length_replicate, Nat.sub_self]
    conv_lhs => rw [hsucc, List.replicate_succ, List.set_cons_zero]

private theorem prefLenOfByte_shift : ∀ r < 8, r ≠ 0 →
    prefLenOfByte ((0xff : Byte) <<< (8 - r)) = r := by
  decide

/-- Counting the bits of a prefix mask gives the prefix length back. -/
theorem prefLenFromMask_create {p size : ℕ} (h : p ≤ 8 * size) :
    prefLenFromMask (createMaskFromPrefLen p size) = p := by
  have hff : prefLenOfByte 0xff = 8 := by decide
  have h00 : prefLenOfByte 0 = 0 := by decide
  rw [createMaskFromPrefLen_eq h, prefLenFromMask, List.map_append, List.sum_append,
    List.map_replicate, hff]
  by_cases h0 : p % 8 = 0
  · rw [if_pos h0, List.map_replicate, h00]
    simp
    omega
  · rw [if_neg h0, List.map_cons, List.map_replicate, h00,
      prefLenOfByte_shift _ (Nat.mod_lt _ (by decide)) h0]
    simp
    omega

theorem maskFirst_maskFirst (key : List Byte) (nbits : ℕ) :
    maskFirst (maskFirst key nbits) nbits = maskFirst key nbits := by
  cases key <;> simp [maskFirst, BitVec.and_assoc]

theorem zipWith_and_self (key mask : List Byte) :
    List.zipWith (· &&& ·) (List.zipWith (· &&& ·) key mask) mask =
      List.zipWith (· &&& ·) key mask := by
  induction key generalizing mask with
  | nil => rfl
  | cons a key ih =>
    cases mask with
    | nil => rfl
    | cons m mask => simp [ih, BitVec.and_assoc]

theorem maskFirst_zipWith (key mask : List Byte) (nbits : ℕ) :
    maskFirst (List.zipWith (· &&& ·) (maskFirst key nbits) mask) nbits =
      List.zipWith (· &&& ·) (maskFirst key nbits) mask := by
  cases key with
  | nil => rfl
  | cons a key =>
    cases mask with
    | nil => rfl
    | cons m mask =>
      simp only [maskFirst, List.modifyHead_cons, List.zipWith_cons_cons, List.cons.injEq, and_true]
      rw [BitVec.and_assoc, BitVec.and_comm m, ← BitVec.and_assoc, BitVec.and_assoc a,
        BitVec.and_self]

theorem zipWith_and_ones (key : List Byte) :
    List.zipWith (· &&& ·) key (List.replicate key.length 0xff) = key := by
  induction key with
  | nil => rfl
  | cons a key ih =>
    have : a &&& 0xff = a := BitVec.and_allOnes
    simp only [List.length_cons, List.replicate_succ, List.zipWith_cons_cons, ih, this]

theorem mapM_of_forall {α β : Type*} {f : α → Option β} {g : α → β} {l : List α}
    (h : ∀ a ∈ l, f a = some (g a)) : l.mapM f = some (l.map g) := by
  induction l with
  | nil => rfl
  | cons a l ih =>
    rw [List.mapM_cons, h a (by simp), ih fun b hb => h b (by simp [hb])]
    rfl

namespace MatchKeyBuilder

variable {kb : MatchKeyBuilder} {params : List MatchKeyParam}

/-- The normal form of one parameter: the unused high bits of the key are cleared, and in a
ternary unit the bits outside its mask; only the optional part its type uses is kept. -/
def normalParam (unit : UnitType) (f : KeyF) (p : MatchKeyParam) : MatchKeyParam :=
  let key := maskFirst p.key f.nbits
  match p.type with
  | .valid | .exact => { type := p.type, key }
  | .lpm =>
    let mask := createMaskFromPrefLen p.prefixLength.toNat p.key.length
    { type := p.type
      key := if unit = .ternary then List.zipWith (· &&& ·) key mask else key
      prefixLength := p.prefixLength }
  | .ternary => { type := p.type, key := List.zipWith (· &&& ·) key p.mask, mask := p.mask }

def normalForm (kb : MatchKeyBuilder) (unit : UnitType) (params : List MatchKeyParam) :
    List MatchKeyParam :=
  (List.range kb.keyInput.length).map fun i => normalParam unit (kb.field i) (param params i)

theorem param_normalForm {unit : UnitType} {i : ℕ} (hi : i < kb.keyInput.length) :
    param (kb.normalForm unit params) i = normalParam unit (kb.field i) (param params i) := by
  simp [param, normalForm, hi]

@[simp] theorem normalParam_type (unit : UnitType) (f : KeyF) (p : MatchKeyParam) :
    (normalParam unit f p).type = p.type := by
  rw [normalParam]
  cases ht : p.type <;> rfl

/-- The two blocks of a ternary key that carry no mask of their own are full bytes. -/
theorem Accepted.ternaryBlock_eq (h : Accepted kb params) (hu : Unbuilt kb) {i : ℕ}
    (hi : i < kb.keyInput.length) :
    kb.ternaryBlock params i = (normalParam .ternary (kb.field i) (param params i)).key := by
  have hlen := h.length_keyBlock hi
  have hones : ∀ m : List Byte, m = List.replicate (kb.keyBlock params i).length 0xff →
      List.zipWith (· &&& ·) (kb.keyBlock params i) m = kb.keyBlock params i := by
    rintro m rfl
    exact zipWith_and_ones _
  rw [ternaryBlock, maskBlock, ternaryMask, normalParam]
  cases ht : (param params i).type with
  | valid =>
    have hv := hu.valid_nbits _ (Unbuilt.field_mem hi) ((h.ok i hi).type_eq ▸ ht)
    rw [hones _ (by rw [hlen, hv]; rfl)]
    rfl
  | exact =>
    rw [hones _ (by rw [hlen, (h.ok i hi).length_key])]
    rfl
  | lpm => rfl
  | ternary => rfl

theorem Accepted.length_ternaryBlock (h : Accepted kb params) (hu : Unbuilt kb) {i : ℕ}
    (hi : i < kb.keyInput.length) :
    (kb.ternaryBlock params i).length = nbitsToNbytes (kb.field i).nbits := by
  rw [ternaryBlock, List.length_zipWith, h.length_keyBlock hi, h.length_maskBlock hu hi, min_self]

/-- The normal form is itself accepted. -/
theorem Accepted.normalForm (h : Accepted kb params) (hu : Unbuilt kb) (unit : UnitType) :
    Accepted kb (kb.normalForm unit params) := by
  refine ⟨by simp [MatchKeyBuilder.normalForm], fun i hi => ?_⟩
  rw [param_normalForm hi]
  obtain ⟨h1, h2, h3, h4⟩ := h.ok i hi
  have hmask := h.length_maskBlock hu hi
  rw [maskBlock, ternaryMask] at hmask
  rw [normalParam]
  cases ht : (param params i).type with
  | valid => exact ⟨ht.symm.trans h1, by simp [h2], by simp, by simp⟩
  | exact => exact ⟨ht.symm.trans h1, by simp [h2], by simp, by simp⟩
  | lpm =>
    simp only [ht] at hmask
    refine ⟨ht.symm.trans h1, ?_, fun _ => h3 ht, by simp⟩
    by_cases hunit : unit = .ternary <;> simp [hunit, h2]
    rw [h2] at hmask
    omega
  | ternary => exact ⟨ht.symm.trans h1, by simp [h2, h4 ht], by simp, fun _ => h4 ht⟩

/-- Both the key blocks and what the other fields add are the same for the normal form. -/
theorem Accepted.keyBlock_normalForm (h : Accepted kb params) {unit : UnitType}
    (hunit : unit ≠ .ternary) {i : ℕ} (hi : i < kb.keyInput.length)
    (hkind : (kb.field i).mtype ≠ .ternary) :
    kb.keyBlock (kb.normalForm unit params) i = kb.keyBlock params i := by
  rw [keyBlock, param_normalForm hi, keyBlock, normalParam]
  have := (h.ok i hi).type_eq
  cases ht : (param params i).type with
  | valid => exact maskFirst_maskFirst _ _
  | exact => exact maskFirst_maskFirst _ _
  | lpm =>
    simp only [hunit, ↓reduceIte]
    exact maskFirst_maskFirst _ _
  | ternary => exact absurd (this.symm.trans ht) hkind

theorem Accepted.prefixBlock_normalForm (h : Accepted kb params) {unit : UnitType} {i : ℕ}
    (hi : i < kb.keyInput.length) (hkind : (kb.field i).mtype ≠ .ternary) :
    prefixBlock (kb.normalForm unit params) i = prefixBlock params i := by
  rw [prefixBlock, param_normalForm hi, prefixBlock, normalParam_type]
  have := (h.ok i hi).type_eq
  cases ht : (param params i).type with
  | valid => rfl
  | exact => simp [normalParam, ht]
  | lpm => simp [normalParam, ht]
  | ternary => exact absurd (this.symm.trans ht) hkind

theorem maskBlock_normalForm (h : Accepted kb params) {i : ℕ} (hi : i < kb.keyInput.length) :
    maskBlock (kb.normalForm .ternary params) i = maskBlock params i := by
  have hlen := (h.ok i hi).length_key
  rw [maskBlock, param_normalForm hi, maskBlock, ternaryMask, ternaryMask, normalParam]
  cases ht : (param params i).type with
  | valid => rfl
  | exact => simp
  | lpm =>
    obtain ⟨h0, h1⟩ := (h.ok i hi).prefixLength ht
    have hle : (param params i).prefixLength.toNat ≤ 8 * (param params i).key.length := by
      rw [hlen, nbitsToNbytes]
      omega
    have hl : (createMaskFromPrefLen (param params i).prefixLength.toNat
        (param params i).key.length).length = (param params i).key.length := by
      rw [createMaskFromPrefLen_eq hle]
      split_ifs <;> simp <;> omega
    simp [hl]
  | ternary => rfl

theorem Accepted.ternaryBlock_normalForm (h : Accepted kb params) (hu : Unbuilt kb) {i : ℕ}
    (hi : i < kb.keyInput.length) :
    kb.ternaryBlock (kb.normalForm .ternary params) i = kb.ternaryBlock params i := by
  have hkey : kb.keyBlock (kb.normalForm .ternary params) i = kb.ternaryBlock params i := by
    rw [keyBlock, param_normalForm hi, ← h.ternaryBlock_eq hu hi]
    exact maskFirst_zipWith _ _ _
  rw [ternaryBlock, hkey, maskBlock_normalForm h hi]
  exact zipWith_and_self _ _

/-- The fields an exact unit can hold. -/
def ExactLayout (kb : MatchKeyBuilder) : Prop :=
  ∀ i < kb.keyInput.length, (kb.field i).mtype = .valid ∨ (kb.field i).mtype = .exact

/-- The fields an LPM unit can hold: one LPM field and otherwise validity bits and exact
fields. -/
def LpmLayout (kb : MatchKeyBuilder) (l : ℕ) : Prop :=
  l < kb.keyInput.length ∧ (kb.field l).mtype = .lpm ∧
    ∀ i < kb.keyInput.length, i ≠ l → (kb.field i).mtype = .valid ∨ (kb.field i).mtype = .exact

theorem LpmLayout.ne_ternary {l : ℕ} (hl : LpmLayout kb l) {i : ℕ}
    (hi : i < kb.keyInput.length) : (kb.field i).mtype ≠ .ternary := by
  by_cases hil : i = l
  · rw [hil, hl.2.1]
    decide
  · rcases hl.2.2 i hi hil with h | h <;> rw [h] <;> decide

theorem Accepted.exactToMatchParams (h : Accepted kb params) (hu : Unbuilt kb)
    (hkind : ExactLayout kb) :
    kb.build.exactToMatchParams { data := (kb.order.map (kb.keyBlock params)).flatten } =
      some (kb.normalForm .exact params) := by
  rw [MatchKeyBuilder.exactToMatchParams, hu.build_keyMapping_length,
    MatchKeyBuilder.normalForm]
  refine mapM_of_forall fun i hi => ?_
  have hi := List.mem_range.mp hi
  simp only [hu.build_fieldBytes (fun i hi => h.length_keyBlock hi) hi, Option.bind_eq_bind,
    Option.bind_some, hkind i hi, ↓reduceIte, Option.some.injEq]
  have htype := (h.ok i hi).type_eq
  rw [normalParam, ← htype]
  rcases hkind i hi with ht | ht <;> rw [← htype] at ht <;> rw [ht] <;> rfl

theorem Accepted.ternaryToMatchParams (h : Accepted kb params) (hu : Unbuilt kb) :
    kb.build.ternaryToMatchParams
        { data := (kb.order.map (kb.ternaryBlock params)).flatten,
          mask := (kb.order.map (maskBlock params)).flatten } =
      some (kb.normalForm .ternary params) := by
  rw [MatchKeyBuilder.ternaryToMatchParams, hu.build_keyMapping_length,
    MatchKeyBuilder.normalForm]
  refine mapM_of_forall fun i hi => ?_
  have hi := List.mem_range.mp hi
  have hok := h.ok i hi
  simp only [hu.build_fieldBytes (fun i hi => h.length_ternaryBlock hu hi) hi,
    hu.build_fieldBytes (fun i hi => h.length_maskBlock hu hi) hi, Option.bind_eq_bind,
    Option.bind_some, h.ternaryBlock_eq hu hi, ← hok.type_eq]
  rw [maskBlock, ternaryMask, normalParam]
  cases ht : (param params i).type with
  | valid => rfl
  | exact => rfl
  | lpm =>
    obtain ⟨h0, h1⟩ := hok.prefixLength ht
    have hle : (param params i).prefixLength.toNat ≤ 8 * (param params i).key.length := by
      rw [hok.length_key, nbitsToNbytes]
      omega
    simp [prefLenFromMask_create hle, Int.toNat_of_nonneg h0]
  | ternary => rfl

/-- What the LPM decoding loop has done after the first `k` fields. -/
private theorem Accepted.lpmLoop (h : Accepted kb params) (hu : Unbuilt kb) {l : ℕ}
    (hl : LpmLayout kb l) (total : ℤ) {k : ℕ} (hk : k ≤ kb.keyInput.length) :
    (List.range k).foldlM (kb.build.lpmDecodeStep (kb.order.map (kb.keyBlock params)).flatten)
        ([], 0, total) =
      some ((List.range k).map fun i => { type := (kb.field i).mtype, key := kb.keyBlock params i },
        if l < k then l else 0,
        total - ((List.range k).map fun i =>
          if i = l then 0 else 8 * ((kb.keyBlock params i).length : ℤ)).sum) := by
  induction k with
  | zero => simp
  | succ k ih =>
    have hk' : k < kb.keyInput.length := by omega
    rw [List.range_succ, List.foldlM_append, ih (by omega)]
    simp only [Option.bind_eq_bind, Option.bind_some, List.foldlM_cons, List.foldlM_nil,
      lpmDecodeStep, hu.build_fieldBytes (fun i hi => h.length_keyBlock hi) hk', List.map_append,
      List.map_cons, List.map_nil, List.sum_append, List.sum_cons, List.sum_nil]
    by_cases hkl : k = l
    · subst hkl
      simp [hl.2.1]
    · have hlt : l < k + 1 ↔ l < k := by omega
      simp only [hkl, ↓reduceIte, hlt, add_zero, ← sub_sub]
      rcases hl.2.2 k hk' hkl with ht | ht <;> simp only [ht, Option.bind_some, Option.pure_def]

/-- The total prefix length minus the full fields is the prefix length of the LPM field. -/
private theorem Accepted.sum_prefixBlock (h : Accepted kb params) (hu : Unbuilt kb) {l : ℕ}
    (hl : LpmLayout kb l) :
    (kb.order.map (prefixBlock params)).sum -
        ((List.range kb.keyInput.length).map fun i =>
          if i = l then 0 else 8 * ((kb.keyBlock params i).length : ℤ)).sum =
      (param params l).prefixLength := by
  have hperm := (kb.order_perm.map (prefixBlock params)).sum_eq
  have hsplit : ∀ n ≤ kb.keyInput.length,
      ((List.range n).map (prefixBlock params)).sum -
        ((List.range n).map fun i =>
          if i = l then 0 else 8 * ((kb.keyBlock params i).length : ℤ)).sum =
      if l < n then (param params l).prefixLength else 0 := by
    intro n hn
    induction n with
    | zero => simp
    | succ n ih =>
      have hn' : n < kb.keyInput.length := by omega
      have ih := ih (by omega)
      have htype := (h.ok n hn').type_eq
      simp only [List.range_succ, List.map_append, List.map_cons, List.map_nil, List.sum_append,
        List.sum_cons, List.sum_nil, add_zero]
      by_cases hnl : n = l
      · subst hnl
        rw [hl.2.1] at htype
        simp only [lt_irrefl, ↓reduceIte] at ih
        simp only [prefixBlock, htype, ↓reduceIte, Nat.lt_succ_self]
        omega
      · have hblock : prefixBlock params n = 8 * ((kb.keyBlock params n).length : ℤ) := by
          rw [h.length_keyBlock hn', prefixBlock]
          rcases hl.2.2 n hn' hnl with ht | ht
          · rw [htype, ht, hu.valid_nbits _ (Unbuilt.field_mem hn') ht]
            rfl
          · rw [htype, ht, ← (h.ok n hn').length_key]
        have hlt : l < n + 1 ↔ l < n := by omega
        simp only [hnl, ↓reduceIte, hblock, hlt, ← ih]
        ring
  rw [hperm, hsplit _ le_rfl, if_pos hl.1]

theorem Accepted.lpmToMatchParams (h : Accepted kb params) (hu : Unbuilt kb) {l : ℕ}
    (hl : LpmLayout kb l) :
    kb.build.lpmToMatchParams
        { data := (kb.order.map (kb.keyBlock params)).flatten,
          prefixLength := (kb.order.map (prefixBlock params)).sum } =
      some (kb.normalForm .lpm params) := by
  have hloop := h.lpmLoop hu hl (kb.order.map (prefixBlock params)).sum le_rfl
  rw [h.sum_prefixBlock hu hl] at hloop
  rw [MatchKeyBuilder.lpmToMatchParams, hu.build_keyMapping_length, hloop]
  simp only [Option.bind_eq_bind, Option.bind_some, hl.1, ↓reduceIte, List.getElem?_map,
    List.getElem?_range hl.1, Option.map_some, Option.some.injEq]
  apply List.ext_getElem (by simp [MatchKeyBuilder.normalForm])
  intro i h1 h2
  have hi : i < kb.keyInput.length := by simpa using h1
  have htype := (h.ok i hi).type_eq
  simp only [MatchKeyBuilder.normalForm, List.getElem_map, List.getElem_range, List.getElem_set]
  by_cases hil : l = i
  · subst hil
    have ht := hl.2.1
    rw [← htype] at ht
    simp [normalParam, ht, ← htype, keyBlock]
  · rw [if_neg hil, normalParam]
    rcases hl.2.2 i hi (Ne.symm hil) with ht | ht <;> rw [← htype] at ht <;>
      simp [ht, ← htype, keyBlock]

/-- Encoding and decoding give the normal form of the parameters, and encoding the normal
form gives the same key, for each of the three unit kinds. -/
theorem key_round_trip (hkb : Pushed kb) (hs : kb.build.matchParamsSanityCheck params = true) :
    (ExactLayout kb → ∃ key, kb.build.matchParamsToExact params = some key ∧
      kb.build.exactToMatchParams key = some (kb.normalForm .exact params) ∧
      kb.build.matchParamsToExact (kb.normalForm .exact params) = some key) ∧
    (∀ l, LpmLayout kb l → ∃ key, kb.build.matchParamsToLPM params = some key ∧
      kb.build.lpmToMatchParams key = some (kb.normalForm .lpm params) ∧
      kb.build.matchParamsToLPM (kb.normalForm .lpm params) = some key) ∧
    (∃ key, kb.build.matchParamsToTernary params = some key ∧
      kb.build.ternaryToMatchParams key = some (kb.normalForm .ternary params) ∧
      kb.build.matchParamsToTernary (kb.normalForm .ternary params) = some key) := by
  have hu := hkb.unbuilt
  have h := hu.sanityCheck_iff.mp hs
  refine ⟨fun hkind => ?_, fun l hl => ?_, ?_⟩
  · refine ⟨_, h.matchParamsToExact hu, h.exactToMatchParams hu hkind, ?_⟩
    rw [(h.normalForm hu .exact).matchParamsToExact hu]
    congr 3
    refine List.map_congr_left fun i hi => ?_
    have hi := mem_order.mp hi
    refine h.keyBlock_normalForm (by decide) hi ?_
    rcases hkind i hi with ht | ht <;> rw [ht] <;> decide
  · refine ⟨_, h.matchParamsToLPM hu fun i hi => hl.ne_ternary hi,
      h.lpmToMatchParams hu hl, ?_⟩
    rw [(h.normalForm hu .lpm).matchParamsToLPM hu fun i hi => hl.ne_ternary hi]
    have hkey : kb.order.map (kb.keyBlock (kb.normalForm .lpm params)) =
        kb.order.map (kb.keyBlock params) := List.map_congr_left fun i hi =>
      h.keyBlock_normalForm (by decide) (mem_order.mp hi) (hl.ne_ternary (mem_order.mp hi))
    have hpref : kb.order.map (prefixBlock (kb.normalForm .lpm params)) =
        kb.order.map (prefixBlock params) := List.map_congr_left fun i hi =>
      h.prefixBlock_normalForm (mem_order.mp hi) (hl.ne_ternary (mem_order.mp hi))
    rw [hkey, hpref]
  · refine ⟨_, h.matchParamsToTernary hu, h.ternaryToMatchParams hu, ?_⟩
    rw [(h.normalForm hu .ternary).matchParamsToTernary hu]
    have hkey : kb.order.map (kb.ternaryBlock (kb.normalForm .ternary params)) =
        kb.order.map (kb.ternaryBlock params) := List.map_congr_left fun i hi =>
      h.ternaryBlock_normalForm hu (mem_order.mp hi)
    have hmask : kb.order.map (maskBlock (kb.normalForm .ternary params)) =
        kb.order.map (maskBlock params) := List.map_congr_left fun i hi =>
      maskBlock_normalForm h (mem_order.mp hi)
    rw [hkey, hmask]

/-- A 12-bit LPM field, a validity bit and a 16-bit exact field; the unused high bits of the
LPM key are set by the user and cleared in the normal form. -/
theorem key_round_trip_three_fields :
    let kb := ((({} : MatchKeyBuilder).pushBackField 0 0 12 .lpm).pushBackValidHeader
      1).pushBackField 0 1 16 .exact
    let params : List MatchKeyParam := [{ type := .lpm, key := [0xfa, 0xbc], prefixLength := 9 },
      { type := .valid, key := [1] }, { type := .exact, key := [0x12, 0x34] }]
    kb.normalForm .lpm params = [{ type := .lpm, key := [0x0a, 0xbc], prefixLength := 9 },
      { type := .valid, key := [1] }, { type := .exact, key := [0x12, 0x34] }] ∧
    ∃ key, kb.build.matchParamsToLPM params = some key ∧
      kb.build.lpmToMatchParams key = some (kb.normalForm .lpm params) ∧
      kb.build.matchParamsToLPM (kb.normalForm .lpm params) = some key := by
  intro kb params
  have hkb : Pushed kb := .field 0 1 .exact
    (.validHeader 1 (.field 0 0 .lpm .empty (by decide) (by decide))) (by decide) (by decide)
  have hl : LpmLayout kb 0 := by
    refine ⟨by decide, by decide, ?_⟩
    decide
  exact ⟨by decide +kernel, (key_round_trip hkb (by decide +kernel)).2.1 0 hl⟩

end MatchKeyBuilder

end Bmv2
