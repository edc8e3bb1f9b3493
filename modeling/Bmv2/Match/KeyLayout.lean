import Bmv2.Match.Semantics

/-! The layout of a built key as a whole: the two permutations, the byte ranges and the mask, and
the fields of a packet's key. -/
namespace Bmv2
open ByteBits Blocks

namespace MatchKeyBuilder

/-- `key_to_fields`: the bytes of each field, in the order of the program. -/
def keyToFields (kb : MatchKeyBuilder) (key : List Byte) : Option (List (List Byte)) :=
  (List.range kb.keyMapping.length).mapM fun i => (kb.fieldBytes key i).map Prod.snd

/-- The number of bytes of the user's `i`-th field. -/
def width (kb : MatchKeyBuilder) (i : ℕ) : ℕ := nbitsToNbytes (kb.field i).nbits

/-- Where the bytes of the user's `i`-th field start in a built key. -/
def byteOffset (kb : MatchKeyBuilder) (i : ℕ) : ℕ := kb.keyOffsets.getD i 0

/-- What `b` says about the fields of `kb`, of which it is built. -/
structure KeyLayout (kb b : MatchKeyBuilder) : Prop where
  perm : b.invMapping.Perm (List.range kb.keyInput.length)
  sorted : b.invMapping.Pairwise fun i j => (kb.field i).mtype.rank < (kb.field j).mtype.rank ∨
    (kb.field i).mtype = (kb.field j).mtype ∧ i < j
  keyInput : b.keyInput = b.invMapping.map kb.field
  length_keyMapping : b.keyMapping.length = kb.keyInput.length
  inverse : ∀ i j : ℕ, b.keyMapping[i]? = some j ↔ b.invMapping[j]? = some i
  length_keyOffsets : b.keyOffsets.length = kb.keyInput.length
  ordered : b.invMapping.Pairwise fun i j => b.byteOffset i + kb.width i ≤ b.byteOffset j
  disjoint : ∀ i < kb.keyInput.length, ∀ j < kb.keyInput.length, i ≠ j →
    b.byteOffset i + kb.width i ≤ b.byteOffset j ∨ b.byteOffset j + kb.width j ≤ b.byteOffset i
  covers : ∀ k, k < b.nbytesKey ↔
    ∃ i < kb.keyInput.length, b.byteOffset i ≤ k ∧ k < b.byteOffset i + kb.width i
  length_bigMask : b.bigMask.length = b.nbytesKey
  bigMask : ∀ i < kb.keyInput.length,
    (b.bigMask.drop (b.byteOffset i)).take (kb.width i) = kb.masks.getD i []
  build : b.build = b

variable {kb : MatchKeyBuilder} {phv : PHV}

theorem rank_injective {t t' : ParamType} (h : t.rank = t'.rank) : t = t' := by
  cases t <;> cases t' <;> first | rfl | cases h

/-- Fields of one type stay in the order of the program. -/
theorem order_stable (kb : MatchKeyBuilder) :
    kb.order.Pairwise fun i j => (kb.field i).mtype.rank < (kb.field j).mtype.rank ∨
      (kb.field i).mtype = (kb.field j).mtype ∧ i < j := by
  have hle := List.pairwise_insertionSort kb.sortLe (List.range kb.keyInput.length)
  refine hle.imp₂ (fun i j hij hne => ?_) kb.order_nodup
  simp only [sortLe] at hij
  split_ifs at hij with heq
  · exact .inr ⟨rank_injective heq, lt_of_le_of_ne hij hne⟩
  · exact .inl hij

theorem build_build (kb : MatchKeyBuilder) : kb.build.build = kb.build := by
  have hbuilt : kb.build.built = true := by
    rw [MatchKeyBuilder.build]
    split_ifs with h
    · exact h
    · rfl
  rw [MatchKeyBuilder.build.eq_def kb.build, if_pos hbuilt]

namespace Sized

variable (h : Sized kb)
include h

/-- The field at position `j` starts where the fields before it end. -/
theorem byteOffset_eq {i j : ℕ} (hij : kb.order[j]? = some i) {g : ℕ → List Byte}
    (hg : ∀ i < kb.keyInput.length, (g i).length = kb.width i) :
    kb.build.byteOffset i = offset (kb.order.map g) j := by
  rw [byteOffset, List.getD_eq_getElem?_getD, h.build_keyOffsets hij hg, Option.getD_some]

theorem build_nbytesKey : kb.build.nbytesKey = kb.nbytesKey := by rw [h.build_eq]

theorem build_inverse (i j : ℕ) :
    kb.build.keyMapping[i]? = some j ↔ kb.build.invMapping[j]? = some i := by
  rw [h.build_invMapping]
  refine ⟨fun hi => ?_, h.build_keyMapping⟩
  have hlt := (List.getElem?_eq_some_iff.mp hi).1
  rw [h.build_keyMapping_length] at hlt
  obtain ⟨k, hk⟩ := exists_order hlt
  rw [h.build_keyMapping hk] at hi
  rwa [← Option.some.inj hi]

theorem build_length_keyOffsets : kb.build.keyOffsets.length = kb.keyInput.length := by
  rw [← h.build_keyMapping_length, h.build_eq, List.length_map]

/-- A string of the fields' blocks has the length of the key. -/
theorem length_flatten_order {g : ℕ → List Byte}
    (hg : ∀ i < kb.keyInput.length, (g i).length = kb.width i) :
    (kb.order.map g).flatten.length = kb.build.nbytesKey := by
  rw [h.build_nbytesKey, h.nbytesKey_eq, length_flatten_map]
  exact congrArg List.sum (List.map_congr_left fun i hi => hg i (mem_order.mp hi))

theorem build_ordered :
    kb.order.Pairwise fun i j => kb.build.byteOffset i + kb.width i ≤ kb.build.byteOffset j := by
  let zeros := fun i => List.replicate (kb.width i) (0 : Byte)
  have hzeros : ∀ i < kb.keyInput.length, (zeros i).length = kb.width i := fun i _ =>
    List.length_replicate
  rw [List.pairwise_iff_getElem]
  intro j k hj hk hjk
  have hij := List.getElem?_eq_getElem hj
  have hik := List.getElem?_eq_getElem hk
  have hblock : (kb.order.map zeros)[j]? = some (zeros kb.order[j]) := by
    rw [List.getElem?_map, hij, Option.map_some]
  rw [h.byteOffset_eq hij hzeros, h.byteOffset_eq hik hzeros,
    ← hzeros _ (mem_order.mp (List.getElem_mem hj))]
  exact offset_add_length_le_offset hblock hjk

theorem build_disjoint {i j : ℕ} (hi : i < kb.keyInput.length) (hj : j < kb.keyInput.length)
    (hne : i ≠ j) : kb.build.byteOffset i + kb.width i ≤ kb.build.byteOffset j ∨
      kb.build.byteOffset j + kb.width j ≤ kb.build.byteOffset i := by
  obtain ⟨a, ha⟩ := exists_order hi
  obtain ⟨b, hb⟩ := exists_order hj
  obtain ⟨hlta, rfl⟩ := List.getElem?_eq_some_iff.mp ha
  obtain ⟨hltb, rfl⟩ := List.getElem?_eq_some_iff.mp hb
  have hordered := List.pairwise_iff_getElem.mp h.build_ordered
  rcases lt_trichotomy a b with hab | rfl | hab
  · exact .inl (hordered a b hlta hltb hab)
  · exact absurd rfl hne
  · exact .inr (hordered b a hltb hlta hab)

theorem build_covers (k : ℕ) : k < kb.build.nbytesKey ↔ ∃ i < kb.keyInput.length,
    kb.build.byteOffset i ≤ k ∧ k < kb.build.byteOffset i + kb.width i := by
  let zeros := fun i => List.replicate (kb.width i) (0 : Byte)
  have hzeros : ∀ i < kb.keyInput.length, (zeros i).length = kb.width i := fun i _ =>
    List.length_replicate
  rw [← h.length_flatten_order hzeros, lt_length_flatten_iff]
  constructor
  · rintro ⟨j, b, hb, hle, hlt⟩
    rw [List.getElem?_map] at hb
    obtain ⟨i, hij, rfl⟩ := Option.map_eq_some_iff.mp hb
    have hi := mem_order.mp (List.mem_of_getElem? hij)
    rw [← h.byteOffset_eq hij hzeros] at hle hlt
    exact ⟨i, hi, hle, hzeros i hi ▸ hlt⟩
  · rintro ⟨i, hi, hle, hlt⟩
    obtain ⟨j, hij⟩ := exists_order hi
    rw [h.byteOffset_eq hij hzeros] at hle hlt
    refine ⟨j, zeros i, by rw [List.getElem?_map, hij, Option.map_some], hle, ?_⟩
    rwa [hzeros i hi]

theorem build_bigMask_range {i : ℕ} (hi : i < kb.keyInput.length) :
    (kb.build.bigMask.drop (kb.build.byteOffset i)).take (kb.width i) = kb.masks.getD i [] := by
  obtain ⟨j, hij⟩ := exists_order hi
  have hblock : (kb.order.map fun i => kb.masks.getD i [])[j]? = some (kb.masks.getD i []) := by
    rw [List.getElem?_map, hij, Option.map_some]
  have hbytes := take_drop_flatten hblock
  rwa [h.length_mask hi, ← h.byteOffset_eq hij fun _ => h.length_mask, ← h.build_bigMask]
    at hbytes

theorem keyLayout : KeyLayout kb kb.build where
  perm := by
    rw [h.build_invMapping]
    exact kb.order_perm
  sorted := by
    rw [h.build_invMapping]
    exact kb.order_stable
  keyInput := by rw [h.build_invMapping, h.build_keyInput]
  length_keyMapping := h.build_keyMapping_length
  inverse := h.build_inverse
  length_keyOffsets := h.build_length_keyOffsets
  ordered := by
    rw [h.build_invMapping]
    exact h.build_ordered
  disjoint := fun _ hi _ hj => h.build_disjoint hi hj
  covers := h.build_covers
  length_bigMask := by
    rw [h.build_bigMask]
    exact h.length_flatten_order fun _ => h.length_mask
  bigMask := fun _ => h.build_bigMask_range
  build := kb.build_build

/-- The fields are read back from a string of their blocks, in the order of the program. -/
theorem keyToFields_flatten {g : ℕ → List Byte}
    (hg : ∀ i < kb.keyInput.length, (g i).length = kb.width i) :
    kb.build.keyToFields (kb.order.map g).flatten =
      some ((List.range kb.keyInput.length).map g) := by
  rw [keyToFields, h.build_keyMapping_length]
  refine mapM_of_forall fun i hi => ?_
  rw [h.build_fieldBytes hg (List.mem_range.mp hi), Option.map_some]

end Sized

/-- The layout of a built key, of any fields, and the fields of the key of a packet: each field's
bytes under its mask. -/
theorem key_layout (h : Filled kb) : KeyLayout kb kb.build ∧ ∀ phv, HasKey kb phv →
    ∃ key, kb.build.packetKey phv = some key ∧ kb.build.keyToFields key =
      some ((List.range kb.keyInput.length).map fun i =>
        List.zipWith (· &&& ·) (kb.packetBlock phv i) (kb.masks.getD i [])) := by
  refine ⟨h.sized.keyLayout, fun phv hphv => ⟨_, hphv.packetKey h, h.sized.keyToFields_flatten ?_⟩⟩
  intro i hi
  rw [List.length_zipWith, hphv.length_packetBlock hi, h.sized.length_mask hi, Nat.min_self, width]

/-- A ternary field with a mask, a validity bit and an exact field of a header that is not valid. -/
theorem key_layout_three_fields :
    let masked : MatchKeyBuilder := { ({} : MatchKeyBuilder).pushBack ⟨0, 0, .ternary, 12⟩
      [0x0f, 0xf0] with hasBigMask := true }
    let kb := (masked.pushBackValidHeader 0).pushBackField 1 0 16 .exact
    let phv : PHV := { headers := [
      { fields := [{ nbits := 12, bytes := [0x0a, 0xbc] }], valid := true, nbytesPacket := 2 },
      { fields := [{ nbits := 16, bytes := [0x12, 0x34] }], nbytesPacket := 2 }] }
    kb.build.invMapping = [1, 2, 0] ∧ ∃ key, kb.build.packetKey phv = some key ∧
      kb.build.keyToFields key = some [[0x0a, 0xb0], [1], [0, 0]] := by
  intro masked kb phv
  have hmasked : ({} : MatchKeyBuilder).pushBackMaskedField 0 0 12 [0x0f, 0xf0] .ternary =
      some masked := rfl
  have hkb : Filled kb := .field 1 0 16 .exact (.validHeader 0 (.maskedField .empty hmasked))
  have hphv : HasKey kb phv := by
    intro i hi
    match i, (hi : i < 3) with
    | 0, _ => exact ⟨[0x0a, 0xbc], rfl, by decide⟩
    | 1, _ => exact ⟨[1], rfl, by decide⟩
    | 2, _ => exact ⟨[0, 0], rfl, by decide⟩
  obtain ⟨key, hkey, hfields⟩ := (key_layout hkb).2 phv hphv
  exact ⟨by decide +kernel, key, hkey, hfields.trans (by decide +kernel)⟩

end MatchKeyBuilder

end Bmv2
