import Mathlib.Data.List.Sort
import Bmv2.Lib.Blocks
import Bmv2.Lib.ByteBits

/-! Match keys: the layout that `MatchKeyBuilder` computes, and the translation between
user parameters and internal keys for the three unit kinds (`match_units.cpp`). -/
namespace Bmv2
open ByteBits

/-- `MatchKeyParam::Type`; the implementation sorts the fields by this order. -/
inductive ParamType where
  | valid | exact | lpm | ternary
  deriving DecidableEq, Inhabited, Repr

def ParamType.rank : ParamType → ℕ
  | .valid => 0
  | .exact => 1
  | .lpm => 2
  | .ternary => 3

/-- `MatchKeyParam`; `mask` and `prefixLength` are optional and default to empty and 0. -/
structure MatchKeyParam where
  type : ParamType
  key : List Byte
  mask : List Byte := []
  prefixLength : ℤ := 0
  deriving DecidableEq

/-- `MatchKeyBuilder::KeyF`. -/
structure KeyF where
  header : ℕ
  fOffset : ℕ
  mtype : ParamType
  nbits : ℕ
  deriving DecidableEq, Inhabited

def nbitsToNbytes (nbits : ℕ) : ℕ := (nbits + 7) / 8

/-- The names of the key fields only serve printing and are left out. -/
structure MatchKeyBuilder where
  keyInput : List KeyF := []
  nbytesKey : ℕ := 0
  hasBigMask : Bool := false
  bigMask : List Byte := []
  keyMapping : List ℕ := []
  invMapping : List ℕ := []
  keyOffsets : List ℕ := []
  built : Bool := false
  masks : List (List Byte) := []

namespace MatchKeyBuilder

variable (kb : MatchKeyBuilder)

def pushBack (input : KeyF) (mask : List Byte) : MatchKeyBuilder :=
  { kb with
    keyInput := kb.keyInput ++ [input]
    nbytesKey := kb.nbytesKey + nbitsToNbytes input.nbits
    masks := kb.masks ++ [mask] }

def pushBackField (header fOffset nbits : ℕ) (mtype : ParamType) : MatchKeyBuilder :=
  kb.pushBack ⟨header, fOffset, mtype, nbits⟩ (List.replicate (nbitsToNbytes nbits) 0xff)

/-- The overload with a mask asserts the mask's size. -/
def pushBackMaskedField (header fOffset nbits : ℕ) (mask : List Byte) (mtype : ParamType) :
    Option MatchKeyBuilder :=
  if mask.length = nbitsToNbytes nbits then
    some { kb.pushBack ⟨header, fOffset, mtype, nbits⟩ mask with hasBigMask := true }
  else none

/-- A validity bit takes a whole byte of the key. -/
def pushBackValidHeader (header : ℕ) : MatchKeyBuilder :=
  kb.pushBack ⟨header, 0, .valid, 8⟩ [0xff]

/-- The comparison `build` sorts the field indices with. -/
def sortLe (i₁ i₂ : ℕ) : Prop :=
  let t₁ := (kb.keyInput.getD i₁ default).mtype.rank
  let t₂ := (kb.keyInput.getD i₂ default).mtype.rank
  if t₁ = t₂ then i₁ ≤ i₂ else t₁ < t₂

instance : DecidableRel kb.sortLe := fun _ _ => inferInstanceAs (Decidable (ite _ _ _))

/-- The byte offset of each field when the fields are laid out in order. -/
def offsetsFrom : ℕ → List KeyF → List ℕ
  | _, [] => []
  | curr, f :: fs => curr :: offsetsFrom (curr + nbitsToNbytes f.nbits) fs

/-- `MatchKeyBuilder::build`: sort the fields by match type, record both directions of the
permutation, the byte offset of each field in user order, and the mask of the whole key. -/
def build : MatchKeyBuilder :=
  if kb.built then kb
  else
    let n := kb.keyInput.length
    let invMapping := (List.range n).insertionSort kb.sortLe
    let keyMapping := invMapping.foldl (fun m idx => m.set (invMapping.getD idx 0) idx)
      (List.replicate n 0)
    let newInput := invMapping.map fun idx => kb.keyInput.getD idx default
    let offsets := offsetsFrom 0 newInput
    let keyOffsets := keyMapping.map fun i => offsets.getD i 0
    let bigMask := (keyOffsets.zip kb.masks).foldl (fun m (off, mask) => Blocks.copyAt m off mask)
      (List.replicate kb.nbytesKey 0)
    { kb with
      keyInput := newInput
      keyMapping, invMapping, keyOffsets, bigMask
      built := true }

/-- `ByteContainer::apply_mask` asserts equal sizes. -/
def applyMask (key mask : List Byte) : Option (List Byte) :=
  if key.length = mask.length then some (List.zipWith (· &&& ·) key mask) else none

def applyBigMask (key : List Byte) : Option (List Byte) :=
  if kb.hasBigMask then applyMask key kb.bigMask else some key

/-- `match_params_sanity_check`. A negative prefix length becomes a huge `size_t`, so both
bounds are one comparison in the source. -/
def matchParamsSanityCheck (params : List MatchKeyParam) : Bool :=
  decide (params.length = kb.keyInput.length) &&
    (kb.invMapping.zip kb.keyInput).all fun (p, f) =>
      match params[p]? with
      | none => false
      | some param =>
        decide (param.type = f.mtype) && decide (param.key.length = nbitsToNbytes f.nbits) &&
          match param.type with
          | .valid | .exact => true
          | .lpm => decide (0 ≤ param.prefixLength ∧ param.prefixLength ≤ f.nbits)
          | .ternary => decide (param.mask.length = nbitsToNbytes f.nbits)

end MatchKeyBuilder

/-- `pref_len_from_mask` on one byte: 8 for `0xff`, else a bit count on a signed char. -/
def prefLenOfByte (b : Byte) : ℕ :=
  if b = 0xff then 8
  else
    let c := b - (b.sshiftRight 1 &&& 0x55)
    let c := (c &&& 0x33) + (c.sshiftRight 2 &&& 0x33)
    ((c + c.sshiftRight 4) &&& 0x0f).toNat

def prefLenFromMask (mask : List Byte) : ℕ := (mask.map prefLenOfByte).sum

/-- `create_mask_from_pref_len`; the prefix length is at most `8 * size`. -/
def createMaskFromPrefLen (prefixLength size : ℕ) : List Byte :=
  let mask : List Byte := List.replicate (prefixLength / 8) 0xff ++
    List.replicate (size - prefixLength / 8) 0
  if prefixLength % 8 ≠ 0 then
    mask.set (prefixLength / 8) ((0xff : Byte) <<< (8 - prefixLength % 8))
  else mask

def getByte0Mask (bitwidth : ℕ) : Byte :=
  if bitwidth % 8 = 0 then 0xff else BitVec.ofNat 8 (2 ^ (bitwidth % 8) - 1)

/-- The step every `match_params_to_entry` shares: append the key bytes and clear the unused
bits of their first byte. -/
def appendMasked (data : List Byte) (firstByte : ℕ) (key : List Byte) (nbits : ℕ) :
    Option (List Byte) :=
  let data := data ++ key
  data[firstByte]?.map fun b => data.set firstByte (b &&& getByte0Mask nbits)

structure ExactMatchKey where
  data : List Byte := []
  version : ℕ := 0
  deriving DecidableEq

structure LPMMatchKey where
  data : List Byte := []
  prefixLength : ℤ := 0
  version : ℕ := 0
  deriving DecidableEq

/-- `std::numeric_limits<int>::max()`, the priority of an empty ternary slot. -/
def intMax : ℤ := 2 ^ 31 - 1

structure TernaryMatchKey where
  data : List Byte := []
  mask : List Byte := []
  priority : ℤ := intMax
  version : ℕ := 0
  deriving DecidableEq

namespace MatchKeyBuilder

variable (kb : MatchKeyBuilder)

/-- The fields in implementation order, each with its position in the user's vector. -/
def fields : List (ℕ × KeyF) := kb.invMapping.zip kb.keyInput

/-- The loop of every `match_params_to_entry`: the key bytes are appended field by field,
while `extra` updates what else the key type carries. -/
def encodeFields {β : Type} (params : List MatchKeyParam) (extra : β → MatchKeyParam → Option β)
    (init : β) : Option (List Byte × β) := do
  let (data, _, x) ← kb.fields.foldlM (fun (data, firstByte, x) (idx, f) => do
    let param ← params[idx]?
    let data ← appendMasked data firstByte param.key f.nbits
    let x ← extra x param
    some (data, firstByte + param.key.length, x)) ([], 0, init)
  some (data, x)

def matchParamsToExact (params : List MatchKeyParam) : Option ExactMatchKey := do
  let (data, _) ← kb.encodeFields params (fun _ _ => some ()) ()
  some { data }

/-- A ternary field is an assertion failure in an LPM unit. -/
def addPrefixLength (prefixLength : ℤ) (param : MatchKeyParam) : Option ℤ :=
  match param.type with
  | .valid => some (prefixLength + 8)
  | .exact => some (prefixLength + 8 * param.key.length)
  | .lpm => some (prefixLength + param.prefixLength)
  | .ternary => none

def matchParamsToLPM (params : List MatchKeyParam) : Option LPMMatchKey := do
  let (data, prefixLength) ← kb.encodeFields params addPrefixLength 0
  some { data, prefixLength }

/-- The mask bytes that one parameter contributes to a ternary key. -/
def ternaryMask (param : MatchKeyParam) : List Byte :=
  match param.type with
  | .valid => [0xff]
  | .exact => List.replicate param.key.length 0xff
  | .lpm => createMaskFromPrefLen param.prefixLength.toNat param.key.length
  | .ternary => param.mask

/-- `format_ternary_key` asserts that data and mask have one size. -/
def matchParamsToTernary (params : List MatchKeyParam) : Option TernaryMatchKey := do
  let (data, mask) ← kb.encodeFields params (fun mask param => some (mask ++ ternaryMask param)) []
  let data ← applyMask data mask
  some { data, mask }

/-- The bytes of the `i`-th user field, with its layout. -/
def fieldBytes (data : List Byte) (i : ℕ) : Option (KeyF × List Byte) := do
  let impIdx ← kb.keyMapping[i]?
  let f ← kb.keyInput[impIdx]?
  let off ← kb.keyOffsets[i]?
  if off + nbitsToNbytes f.nbits ≤ data.length then
    some (f, (data.drop off).take (nbitsToNbytes f.nbits))
  else none

def exactToMatchParams (key : ExactMatchKey) : Option (List MatchKeyParam) :=
  (List.range kb.keyMapping.length).mapM fun i => do
    let (f, bytes) ← kb.fieldBytes key.data i
    if f.mtype = .valid ∨ f.mtype = .exact then some { type := f.mtype, key := bytes } else none

/-- One iteration of the LPM decoding loop: the parameters so far, the index of the last
LPM field seen and what is left of the prefix length. -/
def lpmDecodeStep (data : List Byte) (s : List MatchKeyParam × ℕ × ℤ) (i : ℕ) :
    Option (List MatchKeyParam × ℕ × ℤ) := do
  let (f, bytes) ← kb.fieldBytes data i
  let params := s.1 ++ [{ type := f.mtype, key := bytes : MatchKeyParam }]
  match f.mtype with
  | .ternary => none
  | .lpm => some (params, i, s.2.2)
  | .valid | .exact => some (params, s.2.1, s.2.2 - 8 * bytes.length)

/-- The prefix length of the LPM field is what the other fields leave of the total. The
source writes it to the last LPM field seen, or to the first field if there is none. -/
def lpmToMatchParams (key : LPMMatchKey) : Option (List MatchKeyParam) := do
  let (params, lpmIdx, pref) ← (List.range kb.keyMapping.length).foldlM
    (kb.lpmDecodeStep key.data) ([], 0, key.prefixLength)
  let param ← params[lpmIdx]?
  some (params.set lpmIdx { param with prefixLength := pref })

def ternaryToMatchParams (key : TernaryMatchKey) : Option (List MatchKeyParam) :=
  (List.range kb.keyMapping.length).mapM fun i => do
    let (f, bytes) ← kb.fieldBytes key.data i
    match f.mtype with
    | .valid | .exact => some { type := f.mtype, key := bytes }
    | .ternary => do
      let (_, mask) ← kb.fieldBytes key.mask i
      some { type := f.mtype, key := bytes, mask }
    | .lpm => do
      let (_, mask) ← kb.fieldBytes key.mask i
      some { type := f.mtype, key := bytes, prefixLength := prefLenFromMask mask }

end MatchKeyBuilder

/-- What `MatchUnitGeneric` uses of its key type: the fields all keys share, the priority
accessors (of no effect except for ternary keys) and the two translations. -/
class MatchKey (K : Type) extends Inhabited K where
  data : K → List Byte
  setData : K → List Byte → K
  version : K → ℕ
  setVersion : K → ℕ → K
  getPriority : K → ℤ
  setPriority : K → ℤ → K
  matchParamsToEntry : MatchKeyBuilder → List MatchKeyParam → Option K
  entryToMatchParams : MatchKeyBuilder → K → Option (List MatchKeyParam)
  version_default : version default = 0
  version_setVersion : ∀ k v, version (setVersion k v) = v
  setVersion_setVersion : ∀ k v w, setVersion (setVersion k v) w = setVersion k w

instance : MatchKey ExactMatchKey where
  default := {}
  data := ExactMatchKey.data
  setData k data := { k with data }
  version := ExactMatchKey.version
  setVersion k version := { k with version }
  getPriority _ := -1
  setPriority k _ := k
  matchParamsToEntry := MatchKeyBuilder.matchParamsToExact
  entryToMatchParams := MatchKeyBuilder.exactToMatchParams
  version_default := rfl
  version_setVersion _ _ := rfl
  setVersion_setVersion _ _ _ := rfl

instance : MatchKey LPMMatchKey where
  default := {}
  data := LPMMatchKey.data
  setData k data := { k with data }
  version := LPMMatchKey.version
  setVersion k version := { k with version }
  getPriority _ := -1
  setPriority k _ := k
  matchParamsToEntry := MatchKeyBuilder.matchParamsToLPM
  entryToMatchParams := MatchKeyBuilder.lpmToMatchParams
  version_default := rfl
  version_setVersion _ _ := rfl
  setVersion_setVersion _ _ _ := rfl

instance : MatchKey TernaryMatchKey where
  default := {}
  data := TernaryMatchKey.data
  setData k data := { k with data }
  version := TernaryMatchKey.version
  setVersion k version := { k with version }
  getPriority := TernaryMatchKey.priority
  setPriority k priority := { k with priority }
  matchParamsToEntry := MatchKeyBuilder.matchParamsToTernary
  entryToMatchParams := MatchKeyBuilder.ternaryToMatchParams
  version_default := rfl
  version_setVersion _ _ := rfl
  setVersion_setVersion _ _ _ := rfl

end Bmv2
