import Bmv2.Match.Layout

/-! The internal key that `match_params_to_entry` makes of accepted parameters, field by
field in implementation order. -/
namespace Bmv2
open ByteBits Blocks

instance : Inhabited MatchKeyParam := ⟨⟨.valid, [], [], 0⟩⟩

/-- The key bytes of one parameter with the unused bits of the first byte cleared. -/
def maskFirst (key : List Byte) (nbits : ℕ) : List Byte := key.modifyHead (· &&& getByte0Mask nbits)

@[simp] theorem length_maskFirst (key : List Byte) (nbits : ℕ) :
    (maskFirst key nbits).length = key.length := by
  simp [maskFirst]

theorem appendMasked_length (data key : List Byte) {nbits : ℕ} (hkey : key ≠ []) :
    appendMasked data data.length key nbits = some (data ++ maskFirst key nbits) := by
  cases key with
  | nil => exact absurd rfl hkey
  | cons b key => simp [appendMasked, maskFirst]

theorem nbitsToNbytes_pos {nbits : ℕ} (h : 0 < nbits) : 0 < nbitsToNbytes nbits := by
  rw [nbitsToNbytes]
  omega

namespace MatchKeyBuilder

variable {kb : MatchKeyBuilder} {params : List MatchKeyParam}

/-- The user's `i`-th parameter. -/
def param (params : List MatchKeyParam) (i : ℕ) : MatchKeyParam := params.getD i default

/-- What the sanity check asks of the parameter of one field. -/
structure ParamOk (f : KeyF) (p : MatchKeyParam) : Prop where
  type_eq : p.type = f.mtype
  length_key : p.key.length = nbitsToNbytes f.nbits
  prefixLength : p.type = .lpm → 0 ≤ p.prefixLength ∧ p.prefixLength ≤ f.nbits
  length_mask : p.type = .ternary → p.mask.length = nbitsToNbytes f.nbits

/-- What the sanity check accepts. -/
structure Accepted (kb : MatchKeyBuilder) (params : List MatchKeyParam) : Prop where
  length_eq : params.length = kb.keyInput.length
  ok : ∀ i < kb.keyInput.length, ParamOk (kb.field i) (param params i)

theorem Unbuilt.sanityCheck_iff (h : Unbuilt kb) :
    kb.build.matchParamsSanityCheck params = true ↔ Accepted kb params := by
  have hlen : kb.build.keyInput.length = kb.keyInput.length := by simp [h.build_keyInput]
  rw [matchParamsSanityCheck, hlen, Bool.and_eq_true, decide_eq_true_eq]
  change params.length = _ ∧ kb.build.fields.all _ = true ↔ _
  rw [h.build_fields, List.all_map, List.all_eq_true]
  constructor
  · rintro ⟨hl, hall⟩
    refine ⟨hl, fun i hi => ?_⟩
    have hp := hall i (mem_order.mpr hi)
    have hget : params[i]? = some (param params i) := by
      simp [param, List.getElem?_eq_getElem (show i < params.length by omega)]
    simp only [Function.comp_apply, hget, Bool.and_eq_true, decide_eq_true_eq] at hp
    refine ⟨hp.1.1, hp.1.2, fun ht => ?_, fun ht => ?_⟩
    · simpa [ht] using hp.2
    · simpa [ht] using hp.2
  · rintro ⟨hl, hok⟩
    refine ⟨hl, fun i hi => ?_⟩
    have hi := mem_order.mp hi
    obtain ⟨h1, h2, h3, h4⟩ := hok i hi
    have hget : params[i]? = some (param params i) := by
      simp [param, List.getElem?_eq_getElem (show i < params.length by omega)]
    simp only [Function.comp_apply, hget, h1, h2, decide_true, Bool.true_and]
    cases ht : (kb.field i).mtype <;> simp_all

/-- The key bytes one field contributes. -/
def keyBlock (kb : MatchKeyBuilder) (params : List MatchKeyParam) (i : ℕ) : List Byte :=
  maskFirst (param params i).key (kb.field i).nbits

/-- The bits one field adds to the prefix length of an LPM key. -/
def prefixBlock (params : List MatchKeyParam) (i : ℕ) : ℤ :=
  match (param params i).type with
  | .valid => 8
  | .lpm => (param params i).prefixLength
  | .exact | .ternary => 8 * (param params i).key.length

/-- The mask bytes one field contributes to a ternary key. -/
def maskBlock (params : List MatchKeyParam) (i : ℕ) : List Byte := ternaryMask (param params i)

/-- The key bytes of one field of a ternary key, under the field's mask bytes. -/
def ternaryBlock (kb : MatchKeyBuilder) (params : List MatchKeyParam) (i : ℕ) : List Byte :=
  List.zipWith (· &&& ·) (kb.keyBlock params i) (maskBlock params i)

theorem Unbuilt.field_mem {i : ℕ} (hi : i < kb.keyInput.length) : kb.field i ∈ kb.keyInput := by
  simp [field, List.getElem?_eq_getElem hi]

namespace Accepted

theorem length_keyBlock (h : Accepted kb params) {i : ℕ} (hi : i < kb.keyInput.length) :
    (kb.keyBlock params i).length = nbitsToNbytes (kb.field i).nbits := by
  simp [keyBlock, (h.ok i hi).length_key]

theorem getElem?_eq (h : Accepted kb params) {i : ℕ} (hi : i < kb.keyInput.length) :
    params[i]? = some (param params i) := by
  have := h.length_eq
  simp [param, List.getElem?_eq_getElem (show i < params.length by omega)]

theorem length_maskBlock (h : Accepted kb params) (hu : Unbuilt kb) {i : ℕ}
    (hi : i < kb.keyInput.length) :
    (maskBlock params i).length = nbitsToNbytes (kb.field i).nbits := by
  have hok := h.ok i hi
  rw [maskBlock, ternaryMask]
  cases ht : (param params i).type with
  | valid =>
    have := hu.valid_nbits _ (Unbuilt.field_mem hi) (hok.type_eq ▸ ht)
    simp [this, nbitsToNbytes]
  | exact => simp [hok.length_key]
  | lpm =>
    obtain ⟨h0, h1⟩ := hok.prefixLength ht
    have hle : (param params i).prefixLength.toNat / 8 ≤ nbitsToNbytes (kb.field i).nbits := by
      rw [nbitsToNbytes]
      omega
    simp only [createMaskFromPrefLen]
    split_ifs <;> simp [hok.length_key] <;> omega
  | ternary => exact hok.length_mask ht

theorem key_ne_nil (h : Accepted kb params) (hu : Unbuilt kb) {i : ℕ}
    (hi : i < kb.keyInput.length) : (param params i).key ≠ [] := by
  have := nbitsToNbytes_pos (hu.nbits_pos _ (Unbuilt.field_mem hi))
  rw [← (h.ok i hi).length_key] at this
  exact List.ne_nil_of_length_pos this

/-- The encoding loop lays the key blocks out in implementation order. -/
theorem encodeFields (h : Accepted kb params) (hu : Unbuilt kb) {β : Type}
    (extra : β → MatchKeyParam → Option β) (init : β) :
    kb.build.encodeFields params extra init =
      (kb.order.foldlM (fun x i => extra x (param params i)) init).map
        fun x => ((kb.order.map (kb.keyBlock params)).flatten, x) := by
  have key : ∀ (l : List ℕ), (∀ i ∈ l, i < kb.keyInput.length) → ∀ (data : List Byte) (x : β),
      (l.map fun i => (i, kb.field i)).foldlM
        (fun (s : List Byte × ℕ × β) (y : ℕ × KeyF) => do
          let param ← params[y.1]?
          let data ← appendMasked s.1 s.2.1 param.key y.2.nbits
          let x ← extra s.2.2 param
          some (data, s.2.1 + param.key.length, x)) (data, data.length, x) =
      (l.foldlM (fun x i => extra x (param params i)) x).map fun x =>
        (data ++ (l.map (kb.keyBlock params)).flatten,
          (data ++ (l.map (kb.keyBlock params)).flatten).length, x) := by
    intro l
    induction l with
    | nil => simp
    | cons a l ih =>
      intro hl data x
      have ha := hl a (by simp)
      have hstep : data.length + (param params a).key.length =
          (data ++ kb.keyBlock params a).length := by
        simp [keyBlock]
      rw [List.map_cons, List.foldlM_cons, List.foldlM_cons]
      simp only [h.getElem?_eq ha, Option.bind_eq_bind, Option.bind_some,
        appendMasked_length _ _ (h.key_ne_nil hu ha)]
      cases hx : extra x (param params a) with
      | none => rfl
      | some x' =>
        have := ih (fun i hi => hl i (by simp [hi])) (data ++ kb.keyBlock params a) x'
        simp only [Option.bind_some]
        rw [hstep]
        simp only [Option.bind_eq_bind] at this
        rw [← keyBlock, this]
        simp
  have := key kb.order (fun i hi => mem_order.mp hi) [] init
  rw [MatchKeyBuilder.encodeFields, hu.build_fields]
  simp only [List.nil_append, List.length_nil] at this
  rw [this]
  cases kb.order.foldlM (fun x i => extra x (param params i)) init <;> rfl

theorem matchParamsToExact (h : Accepted kb params) (hu : Unbuilt kb) :
    kb.build.matchParamsToExact params =
      some { data := (kb.order.map (kb.keyBlock params)).flatten } := by
  have hfold : ∀ l : List ℕ, l.foldlM (fun (_ : Unit) _ => some ()) () = some () := by
    intro l
    induction l with
    | nil => rfl
    | cons a l ih => simpa using ih
  rw [MatchKeyBuilder.matchParamsToExact, h.encodeFields hu, hfold]
  rfl

/-- Without ternary fields the LPM encoding succeeds, and its prefix length is the sum of
what the fields add. -/
theorem matchParamsToLPM (h : Accepted kb params) (hu : Unbuilt kb)
    (hkind : ∀ i < kb.keyInput.length, (kb.field i).mtype ≠ .ternary) :
    kb.build.matchParamsToLPM params =
      some { data := (kb.order.map (kb.keyBlock params)).flatten,
             prefixLength := (kb.order.map (prefixBlock params)).sum } := by
  have hfold : ∀ (l : List ℕ), (∀ i ∈ l, i < kb.keyInput.length) → ∀ x : ℤ,
      l.foldlM (fun x i => addPrefixLength x (param params i)) x =
        some (x + (l.map (prefixBlock params)).sum) := by
    intro l
    induction l with
    | nil => simp
    | cons a l ih =>
      intro hl x
      have ha := hl a (by simp)
      have hstep : addPrefixLength x (param params a) = some (x + prefixBlock params a) := by
        have := hkind a ha
        rw [← (h.ok a ha).type_eq] at this
        rw [addPrefixLength, prefixBlock]
        cases ht : (param params a).type <;> simp_all
      rw [List.foldlM_cons, hstep]
      simp only [Option.bind_eq_bind, Option.bind_some, List.map_cons, List.sum_cons,
        ih (fun i hi => hl i (by simp [hi]))]
      rw [add_assoc]
  rw [MatchKeyBuilder.matchParamsToLPM, h.encodeFields hu,
    hfold kb.order (fun i hi => mem_order.mp hi), zero_add]
  rfl

theorem matchParamsToTernary (h : Accepted kb params) (hu : Unbuilt kb) :
    kb.build.matchParamsToTernary params =
      some { data := (kb.order.map (kb.ternaryBlock params)).flatten,
             mask := (kb.order.map (maskBlock params)).flatten } := by
  have hfold : ∀ (l : List ℕ) (x : List Byte),
      l.foldlM (fun x i => some (x ++ ternaryMask (param params i))) x =
        some (x ++ (l.map (maskBlock params)).flatten) := by
    intro l
    induction l with
    | nil => simp
    | cons a l ih =>
      intro x
      rw [List.foldlM_cons]
      simp [ih, maskBlock]
  have hblocks : ∀ i ∈ kb.order, (kb.keyBlock params i).length = (maskBlock params i).length := by
    intro i hi
    rw [h.length_keyBlock (mem_order.mp hi), h.length_maskBlock hu (mem_order.mp hi)]
  have hlen : (kb.order.map (kb.keyBlock params)).flatten.length =
      (kb.order.map (maskBlock params)).flatten.length := by
    rw [length_flatten_map, length_flatten_map]
    exact congrArg List.sum (List.map_congr_left hblocks)
  rw [MatchKeyBuilder.matchParamsToTernary, h.encodeFields hu, hfold]
  simp only [Option.map_some, List.nil_append, Option.bind_eq_bind, Option.bind_some, applyMask,
    hlen, ↓reduceIte, zipWith_flatten_map _ _ hblocks]
  rfl

end Accepted

end MatchKeyBuilder

end Bmv2
