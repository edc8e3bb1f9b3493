import Bmv2.Match.KeyBuilder

/-! The key layout after `build`: the permutation of the fields, where each field's bytes
lie, and what the encoding loops append. -/
namespace Bmv2
open ByteBits Blocks

/-- The builders that the API can make: fields, masked fields and validity bits pushed in
the order of the program, with positive widths. -/
inductive MatchKeyBuilder.Pushed : MatchKeyBuilder → Prop
  | empty : Pushed {}
  | field {kb : MatchKeyBuilder} (header fOffset : ℕ) {nbits : ℕ} (mtype : ParamType) :
      Pushed kb → 0 < nbits → mtype ≠ .valid → Pushed (kb.pushBackField header fOffset nbits mtype)
  | maskedField {kb kb' : MatchKeyBuilder} {header fOffset nbits : ℕ} {mask : List Byte}
      {mtype : ParamType} : Pushed kb → 0 < nbits → mtype ≠ .valid →
      kb.pushBackMaskedField header fOffset nbits mask mtype = some kb' → Pushed kb'
  | validHeader {kb : MatchKeyBuilder} (header : ℕ) : Pushed kb →
      Pushed (kb.pushBackValidHeader header)

/-- All the builders that the push functions can make, of any types, widths and masks. -/
inductive MatchKeyBuilder.Filled : MatchKeyBuilder → Prop
  | empty : Filled {}
  | field {kb : MatchKeyBuilder} (header fOffset nbits : ℕ) (mtype : ParamType) :
      Filled kb → Filled (kb.pushBackField header fOffset nbits mtype)
  | maskedField {kb kb' : MatchKeyBuilder} {header fOffset nbits : ℕ} {mask : List Byte}
      {mtype : ParamType} : Filled kb →
      kb.pushBackMaskedField header fOffset nbits mask mtype = some kb' → Filled kb'
  | validHeader {kb : MatchKeyBuilder} (header : ℕ) : Filled kb →
      Filled (kb.pushBackValidHeader header)

namespace MatchKeyBuilder

theorem Pushed.filled {kb : MatchKeyBuilder} (h : Pushed kb) : Filled kb := by
  induction h with
  | empty => exact .empty
  | field header fOffset mtype _ _ _ ih => exact .field header fOffset _ mtype ih
  | maskedField _ _ _ hpush ih => exact .maskedField ih hpush
  | validHeader header _ ih => exact .validHeader header ih

/-- What every builder satisfies before `build`. -/
structure Sized (kb : MatchKeyBuilder) : Prop where
  built : kb.built = false
  nbytesKey : kb.nbytesKey = (kb.keyInput.map fun f => nbitsToNbytes f.nbits).sum
  masks : List.Forall₂ (fun f (mask : List Byte) => mask.length = nbitsToNbytes f.nbits)
    kb.keyInput kb.masks

/-- What every pushed builder satisfies before `build`. -/
structure Unbuilt (kb : MatchKeyBuilder) : Prop extends Sized kb where
  nbits_pos : ∀ f ∈ kb.keyInput, 0 < f.nbits
  valid_nbits : ∀ f ∈ kb.keyInput, f.mtype = .valid → f.nbits = 8

theorem Sized.pushBack {kb : MatchKeyBuilder} (h : Sized kb) {f : KeyF} {mask : List Byte}
    (hmask : mask.length = nbitsToNbytes f.nbits) : Sized (kb.pushBack f mask) where
  built := h.built
  nbytesKey := by simp [MatchKeyBuilder.pushBack, h.nbytesKey]
  masks := List.rel_append h.masks (.cons hmask .nil)

theorem Filled.sized {kb : MatchKeyBuilder} (h : Filled kb) : Sized kb := by
  induction h with
  | empty => exact ⟨rfl, rfl, .nil⟩
  | field header fOffset nbits mtype _ ih => exact ih.pushBack (by simp)
  | @maskedField kb _ header fOffset nbits mask mtype _ hpush ih =>
    rw [pushBackMaskedField] at hpush
    split_ifs at hpush with hlen
    obtain rfl := Option.some.inj hpush
    have := ih.pushBack (f := ⟨header, fOffset, mtype, nbits⟩) hlen
    exact ⟨this.built, this.nbytesKey, this.masks⟩
  | validHeader header _ ih => exact ih.pushBack (by simp [nbitsToNbytes])

theorem Pushed.unbuilt {kb : MatchKeyBuilder} (h : Pushed kb) : Unbuilt kb := by
  have hforall : (∀ f ∈ kb.keyInput, 0 < f.nbits) ∧
      ∀ f ∈ kb.keyInput, f.mtype = .valid → f.nbits = 8 := by
    induction h with
    | empty => exact ⟨by simp, by simp⟩
    | field header fOffset mtype _ hpos htype ih =>
      exact ⟨List.forall_mem_append.mpr ⟨ih.1, by simpa using hpos⟩,
        List.forall_mem_append.mpr ⟨ih.2, by simpa using fun he => absurd he htype⟩⟩
    | maskedField _ hpos htype hpush ih =>
      rw [pushBackMaskedField] at hpush
      split_ifs at hpush
      obtain rfl := Option.some.inj hpush
      exact ⟨List.forall_mem_append.mpr ⟨ih.1, by simpa using hpos⟩,
        List.forall_mem_append.mpr ⟨ih.2, by simpa using fun he => absurd he htype⟩⟩
    | validHeader header _ ih =>
      exact ⟨List.forall_mem_append.mpr ⟨ih.1, by simp⟩,
        List.forall_mem_append.mpr ⟨ih.2, by simp⟩⟩
  exact { h.filled.sized with nbits_pos := hforall.1, valid_nbits := hforall.2 }

variable {kb : MatchKeyBuilder}

/-- The user's `i`-th field. -/
def field (kb : MatchKeyBuilder) (i : ℕ) : KeyF := kb.keyInput.getD i default

/-- The user's field indices in implementation order. -/
def order (kb : MatchKeyBuilder) : List ℕ := (List.range kb.keyInput.length).insertionSort kb.sortLe

theorem order_perm (kb : MatchKeyBuilder) : kb.order.Perm (List.range kb.keyInput.length) :=
  List.perm_insertionSort _ _

@[simp] theorem length_order (kb : MatchKeyBuilder) : kb.order.length = kb.keyInput.length := by
  simp [order]

theorem mem_order {i : ℕ} : i ∈ kb.order ↔ i < kb.keyInput.length := by
  rw [kb.order_perm.mem_iff, List.mem_range]

theorem exists_order {i : ℕ} (hi : i < kb.keyInput.length) : ∃ j : ℕ, kb.order[j]? = some i :=
  List.mem_iff_getElem?.mp (mem_order.mpr hi)

theorem order_nodup (kb : MatchKeyBuilder) : kb.order.Nodup :=
  kb.order_perm.nodup_iff.mpr List.nodup_range

/-- The numbers of bytes of the fields in implementation order. -/
def blockLens (kb : MatchKeyBuilder) : List ℕ :=
  kb.order.map fun i => nbitsToNbytes (kb.field i).nbits

theorem length_zeroBlocks : (kb.order.map fun i =>
    List.replicate (nbitsToNbytes (kb.field i).nbits) (0 : Byte)).map List.length =
      kb.blockLens := by
  simp [blockLens, Function.comp_def]

namespace Sized

variable (h : Sized kb)
include h

theorem build_eq : kb.build =
    let keyMapping := kb.order.foldl (fun m idx => m.set (kb.order.getD idx 0) idx)
      (List.replicate kb.keyInput.length 0)
    let keyOffsets := keyMapping.map fun i =>
      (offsetsFrom 0 (kb.order.map kb.field)).getD i 0
    { kb with
      keyInput := kb.order.map kb.field
      invMapping := kb.order
      keyMapping, keyOffsets
      bigMask := (keyOffsets.zip kb.masks).foldl (fun m (off, mask) => copyAt m off mask)
        (List.replicate kb.nbytesKey 0)
      built := true } := by
  rw [build, if_neg (by simp [h.built])]
  rfl

theorem build_invMapping : kb.build.invMapping = kb.order := by rw [h.build_eq]

theorem build_keyInput : kb.build.keyInput = kb.order.map kb.field := by rw [h.build_eq]

theorem build_hasBigMask : kb.build.hasBigMask = kb.hasBigMask := by rw [h.build_eq]

/-- The encoding loops run over the fields in implementation order. -/
theorem build_fields : kb.build.fields = kb.order.map fun i => (i, kb.field i) := by
  rw [fields, h.build_invMapping, h.build_keyInput, List.zip_map_right]
  induction kb.order with
  | nil => rfl
  | cons a l ih => simpa using ih

theorem build_keyMapping_length : kb.build.keyMapping.length = kb.keyInput.length := by
  rw [h.build_eq]
  simp [length_foldl_set]

theorem nbytesKey_eq :
    kb.nbytesKey = (kb.order.map fun i => nbitsToNbytes (kb.field i).nbits).sum := by
  have hself : (List.range kb.keyInput.length).map kb.field = kb.keyInput := by
    apply List.ext_getElem (by simp)
    intro k h1 h2
    simp [field, List.getElem?_eq_getElem h2]
  rw [h.nbytesKey, ← hself, List.map_map]
  exact (kb.order_perm.map _).sum_nat.symm

/-- `key_mapping` is the inverse of `inv_mapping`. -/
theorem build_keyMapping {i j : ℕ} (hij : kb.order[j]? = some i) :
    kb.build.keyMapping[i]? = some j := by
  have hj : j < kb.keyInput.length := by
    rw [← length_order]
    exact (List.getElem?_eq_some_iff.mp hij).1
  have hi : i < kb.keyInput.length := mem_order.mp (List.mem_of_getElem? hij)
  have hnodup : (kb.order.map fun idx => kb.order.getD idx 0).Nodup := by
    have hself : (List.range kb.keyInput.length).map (fun idx => kb.order.getD idx 0) =
        kb.order := by
      apply List.ext_getElem (by simp)
      intro k h1 h2
      simp [List.getElem?_eq_getElem h2]
    rw [(kb.order_perm.map _).nodup_iff, hself]
    exact kb.order_nodup
  have hget : kb.order.getD j 0 = i := by simp [List.getD, hij]
  have := foldl_set_of_mem (σ := fun idx => kb.order.getD idx 0) (f := id)
    (List.replicate kb.keyInput.length 0) hnodup (mem_order.mpr hj)
    (by rw [List.length_replicate, hget]; exact hi)
  simp only [hget, id_eq] at this
  rw [h.build_eq]
  exact this

theorem build_keyMapping_nodup : kb.build.keyMapping.Nodup := by
  have hlen := h.build_keyMapping_length
  rw [List.nodup_iff_injective_get]
  intro a b hab
  obtain ⟨ja, hja⟩ := exists_order (a.2.trans_eq hlen)
  obtain ⟨jb, hjb⟩ := exists_order (b.2.trans_eq hlen)
  have hka := h.build_keyMapping hja
  have hkb := h.build_keyMapping hjb
  rw [List.getElem?_eq_getElem a.2, Option.some.injEq] at hka
  rw [List.getElem?_eq_getElem b.2, Option.some.injEq] at hkb
  have hj : ja = jb := by
    rw [← hka, ← hkb]
    exact hab
  rw [hj, hjb, Option.some.injEq] at hja
  exact Fin.ext hja.symm

theorem build_keyOffsets {i j : ℕ} (hij : kb.order[j]? = some i) {g : ℕ → List Byte}
    (hg : ∀ i < kb.keyInput.length, (g i).length = nbitsToNbytes (kb.field i).nbits) :
    kb.build.keyOffsets[i]? = some (offset (kb.order.map g) j) := by
  have hj : j < kb.order.length := (List.getElem?_eq_some_iff.mp hij).1
  have hoff : ∀ (l : List ℕ) c j, j < l.length → (∀ i ∈ l, i < kb.keyInput.length) →
      (offsetsFrom c (l.map kb.field)).getD j 0 = c + offset (l.map g) j := by
    intro l
    induction l with
    | nil => simp
    | cons a l ih =>
      intro c j hj hl
      cases j with
      | zero => simp [offsetsFrom]
      | succ j =>
        have := ih (c + nbitsToNbytes (kb.field a).nbits) j (by simpa using hj)
          (fun i hi => hl i (by simp [hi]))
        simp only [List.map_cons, offsetsFrom, List.getD_cons_succ, this, offset_cons_succ,
          hg a (hl a (by simp))]
        omega
  have hmap : kb.build.keyOffsets = kb.build.keyMapping.map fun i =>
      (offsetsFrom 0 (kb.order.map kb.field)).getD i 0 := by
    rw [h.build_eq]
  rw [hmap, List.getElem?_map, h.build_keyMapping hij, Option.map_some,
    hoff kb.order 0 j hj fun i hi => mem_order.mp hi, Nat.zero_add]

/-- Each field reads its own block of a key laid out in implementation order. -/
theorem build_fieldBytes {g : ℕ → List Byte}
    (hg : ∀ i < kb.keyInput.length, (g i).length = nbitsToNbytes (kb.field i).nbits) {i : ℕ}
    (hi : i < kb.keyInput.length) :
    kb.build.fieldBytes (kb.order.map g).flatten i = some (kb.field i, g i) := by
  obtain ⟨j, hij⟩ := exists_order hi
  have hblock : (kb.order.map g)[j]? = some (g i) := by simp [hij]
  have hle := offset_add_length_le hblock
  rw [hg i hi] at hle
  have hbytes := take_drop_flatten hblock
  rw [hg i hi] at hbytes
  simp only [fieldBytes, h.build_keyMapping hij, h.build_keyInput, List.getElem?_map, hij,
    h.build_keyOffsets hij hg, Option.map_some, Option.bind_eq_bind, Option.bind_some, hle,
    ↓reduceIte, hbytes]

/-- The fields' own masks, in user order. -/
theorem length_mask {i : ℕ} (hi : i < kb.keyInput.length) :
    (kb.masks.getD i []).length = nbitsToNbytes (kb.field i).nbits := by
  have hlen := h.masks.length_eq
  have := h.masks.get hi (hlen ▸ hi)
  simpa [field, List.getElem?_eq_getElem hi,
    List.getElem?_eq_getElem (show i < kb.masks.length from hlen ▸ hi)] using this

/-- The offsets of the fields, as sums of the lengths before them. -/
theorem build_keyOffsets_eq : kb.build.keyOffsets =
    kb.build.keyMapping.map fun k => (kb.blockLens.take k).sum := by
  have hklen : kb.build.keyMapping.length = kb.keyInput.length := h.build_keyMapping_length
  apply List.ext_getElem (by rw [h.build_eq]; simp)
  intro i h1 h2
  have hi : i < kb.keyInput.length := by simpa [hklen] using h2
  obtain ⟨j, hij⟩ := exists_order hi
  have hk := h.build_keyMapping hij
  have ho := h.build_keyOffsets hij (g := fun i =>
    List.replicate (nbitsToNbytes (kb.field i).nbits) 0) (by simp)
  rw [offset_eq_sum, length_zeroBlocks, List.getElem?_eq_getElem h1, Option.some.injEq] at ho
  rw [List.getElem?_eq_getElem (by simpa using h2), Option.some.injEq] at hk
  rw [ho, List.getElem_map, hk]

/-- Each mask has the length of its place. -/
theorem blockLens_masks : List.Forall₂ (fun k (m : List Byte) => kb.blockLens[k]? = some m.length)
    kb.build.keyMapping kb.masks := by
  have hmlen : kb.masks.length = kb.keyInput.length := h.masks.length_eq.symm
  have hklen : kb.build.keyMapping.length = kb.keyInput.length := h.build_keyMapping_length
  rw [List.forall₂_iff_get]
  refine ⟨hklen.trans hmlen.symm, fun i h1 h2 => ?_⟩
  have hi : i < kb.keyInput.length := hklen ▸ h1
  obtain ⟨j, hij⟩ := exists_order hi
  have hk := h.build_keyMapping hij
  rw [List.getElem?_eq_getElem h1, Option.some.injEq] at hk
  have hm := h.length_mask hi
  simp only [List.getD, List.getElem?_eq_getElem h2, Option.getD_some] at hm
  simp [List.get_eq_getElem, hk, blockLens, hij, hm]

/-- Each block is written exactly once, by the mask of its own field. -/
theorem foldl_set_masks {zeros : List (List Byte)} (hzeros : zeros.length = kb.keyInput.length) :
    (kb.build.keyMapping.zip kb.masks).foldl (fun bs p => bs.set p.1 p.2) zeros =
      kb.order.map fun i => kb.masks.getD i [] := by
  have hmlen : kb.masks.length = kb.keyInput.length := h.masks.length_eq.symm
  have hfst : (kb.build.keyMapping.zip kb.masks).map Prod.fst = kb.build.keyMapping :=
    List.map_fst_zip (h.build_keyMapping_length.trans hmlen.symm).le
  apply List.ext_getElem?
  intro j
  by_cases hj : j < kb.keyInput.length
  · obtain ⟨i, hij⟩ : ∃ i, kb.order[j]? = some i :=
      ⟨_, List.getElem?_eq_getElem (by simpa using hj)⟩
    have hi : i < kb.keyInput.length := mem_order.mp (List.mem_of_getElem? hij)
    have hk := h.build_keyMapping hij
    have hmem : (j, kb.masks.getD i []) ∈ kb.build.keyMapping.zip kb.masks := by
      apply List.mem_of_getElem? (i := i)
      rw [List.getElem?_zip_eq_some]
      exact ⟨hk, by simp [List.getElem?_eq_getElem (show i < kb.masks.length by omega)]⟩
    have hset := foldl_set_of_mem (σ := Prod.fst) (f := Prod.snd) zeros
      (by rw [hfst]; exact h.build_keyMapping_nodup) hmem (hj.trans_eq hzeros.symm)
    simpa [hij] using hset
  · rw [List.getElem?_eq_none (by rw [length_foldl_set]; omega),
      List.getElem?_eq_none (by simp; omega)]

/-- The mask of the whole key is made of the fields' masks. -/
theorem build_bigMask :
    kb.build.bigMask = (kb.order.map fun i => kb.masks.getD i []).flatten := by
  -- start from blocks of zeros, which the copies then overwrite
  have hinit : List.replicate kb.nbytesKey (0 : Byte) = (kb.order.map fun i =>
      List.replicate (nbitsToNbytes (kb.field i).nbits) 0).flatten := by
    rw [flatten_map_replicate, ← h.nbytesKey_eq]
  have hbig : kb.build.bigMask = (kb.build.keyOffsets.zip kb.masks).foldl
      (fun m (p : ℕ × List Byte) => copyAt m p.1 p.2) (List.replicate kb.nbytesKey 0) := by
    rw [h.build_eq]
  rw [hbig, h.build_keyOffsets_eq, hinit, foldl_copyAt h.blockLens_masks length_zeroBlocks,
    h.foldl_set_masks (by simp)]

end Sized

end MatchKeyBuilder

end Bmv2
