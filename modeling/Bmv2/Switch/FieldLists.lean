import Bmv2.Packet.FieldValue
import Bmv2.Packet.Slice
import Bmv2.Switch.ArithFields

/-! Field lists and the copies of a packet (`simple_switch.cpp`): each listed field of the copy is
set to the number that the field has in the packet, not to its bytes. -/
namespace Bmv2
open ByteBits TwosComplement

namespace Field

/-- A field that is made from `k`. It has the declared width, where one is declared. -/
structure InstanceOf (k f : Field) : Prop where
  like : k.Like f
  nbits_eq : k.nbits ≠ 0 → f.nbits = k.nbits

variable {k f g : Field} {n : ℕ}

theorem InstanceOf.typed {nbits : ℕ} {isSigned arith : Bool} (hsigned : isSigned → 1 < nbits)
    (h : InstanceOf { nbits, isSigned, arith } f) :
    f.Typed ∧ f.isSigned = isSigned ∧ f.arith = arith := by
  have hlike := h.like
  unfold Like SameShape at hlike
  have hsign : f.isSigned = isSigned := (congrArg Field.isSigned hlike).symm
  have hwidth : f.isSigned → f.nbits = nbits := by
    intro hs
    have hlt := hsigned (hsign ▸ hs)
    exact h.nbits_eq (by dsimp only; omega)
  refine ⟨⟨(congrArg Field.nbytes hlike).symm, ?_, (congrArg Field.mask hlike).symm, ?_, ?_⟩, hsign,
    (congrArg (Data.arith ∘ Field.toData) hlike).symm⟩
  · intro hs
    rw [hwidth hs]
    exact hsigned (hsign ▸ hs)
  · intro hs
    rw [hwidth hs, ← hlike]
    exact if_pos (hsign ▸ hs)
  · intro hs
    rw [hwidth hs, ← hlike]
    exact if_pos (hsign ▸ hs)

end Field

namespace PHV

variable {phv phv' src pooled copy : PHV} {dst ref : FieldRef} {d f : Field}

/-- The loop over a field list, from the PHV of the copy. -/
def copyFieldList (src : PHV) (fieldList : List FieldRef) (phvCopy : PHV) : Option PHV :=
  fieldList.foldlM (fun phvCopy p => do
    let f ← src.getField p.header p.offset
    phvCopy.modifyField p fun g => some (g.set f.value)) phvCopy

end PHV

/-- What is written to a field: a number, the bits of a packet (`extract_VL` extracts them after it
has set the width) or bytes. -/
inductive FieldWrite where
  | set (v : ℤ)
  | extract (data : List Byte) (hdrOffset : ℕ)
  | setBytes (bytes : List Byte)

namespace FieldWrite

def apply : FieldWrite → Field → Option Field
  | set v, f => some (f.set v)
  | extract data hdrOffset, f => f.extract data hdrOffset
  | setBytes bytes, f => f.setBytes bytes

def isSet : FieldWrite → Bool
  | set _ => true
  | _ => false

variable {write : FieldWrite} {f g : Field}

end FieldWrite

/-- How what is in a field has been written. It may have been in another field by then, from which
the operations on stacks have moved it, or in another packet. -/
structure LastWrite where
  place : FieldRef
  before : Field
  write : FieldWrite

namespace LastWrite

variable {c : P4Config} {id : ℕ} {phv₀ src : PHV} {ref : FieldRef} {l : LastWrite} {f d : Field}

/-- The number and the bytes of a field have been written so. -/
structure Of (phv₀ src : PHV) (l : LastWrite) (ref : FieldRef) : Prop where
  made : ∃ k₀ k, phv₀.getField l.place.header l.place.offset = some k₀ ∧
    phv₀.getField ref.header ref.offset = some k ∧ k₀.nbits = k.nbits ∧
    k₀.isSigned = k.isSigned ∧ k₀.InstanceOf l.before
  left : ∃ g f, l.write.apply l.before = some g ∧ src.getField ref.header ref.offset = some f ∧
    f.value = g.value ∧ f.bytes = g.bytes

/-- When the bytes of the field `f` come back from its number, in the field `d`: they are as many,
have no bits above the width, and are not written beside a number that they do not stand for. -/
def Fits (c : P4Config) (l : LastWrite) (f d : Field) : Prop :=
  f.bytes.length = (d.nbits + 7) / 8 ∧ value f.bytes < 2 ^ d.nbits ∧
    (l.write.isSet ∨ c.arith l.place ∨ l.before.value % 2 ^ d.nbits = value f.bytes)

end LastWrite

/-- PHVs of one factory: every field is made from the one of a new PHV. -/
def PHV.InstanceOf (phv₀ phv : PHV) : Prop :=
  ∀ (ref : FieldRef) (k : Field), phv₀.getField ref.header ref.offset = some k →
    ∃ f, phv.getField ref.header ref.offset = some f ∧ k.InstanceOf f

namespace P4Config

variable (c : P4Config) (id : ℕ) (src pooled : PHV)

/-- `copy_ingress_pkt`, for ingress clones and resubmitted packets. The pool hands out `pooled`
(`clone_no_phv_ptr`). -/
def copyIngressPkt : Option PHV := do
  let phvCopy := pooled.resetMetadata
  let fieldList ← c.getFieldList id
  PHV.copyFieldList src fieldList phvCopy

/-- The part of `egress_thread` for egress clones (`clone_with_phv_reset_metadata_ptr`). -/
def cloneEgress : Option PHV := do
  let phvCopy := (pooled.copyHeaders src).resetMetadata
  let fieldList ← c.getFieldList id
  PHV.copyFieldList src fieldList phvCopy

/-- The part of `egress_thread` for recirculated packets. -/
def recirculate : Option PHV := do
  let fieldList ← c.getFieldList id
  let phvCopy := pooled.resetMetadata
  PHV.copyFieldList src fieldList phvCopy

end P4Config

/-- The places where packets are copied. -/
inductive CopySite where
  | ingress
  | egressClone
  | recirculate

namespace CopySite

variable {c : P4Config} {id : ℕ} {phv₀ src pooled : PHV} {fieldList : List FieldRef}
  {site : CopySite}

/-- The PHV of the copy, right after the loop over the field list. -/
def copy (c : P4Config) (id : ℕ) (src pooled : PHV) : CopySite → Option PHV
  | ingress => c.copyIngressPkt id src pooled
  | egressClone => c.cloneEgress id src pooled
  | recirculate => c.recirculate id src pooled

end CopySite

end Bmv2
