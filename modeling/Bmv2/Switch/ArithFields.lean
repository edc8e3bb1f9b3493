import Bmv2.Packet.InUse

/-! For which fields the loader enables arithmetic (`P4Objects::init_objects`): those that parser
operations, expressions and actions use, and those that the configuration or the target ask for.
What is in a field list is not among them. -/
namespace Bmv2

/-- The fields that an expression loads (`build_expression`). -/
def Expression.loadedFields (e : Expression) : List FieldRef :=
  e.ops.filterMap fun op => match op with
    | .loadField header offset => some { header, offset }
    | _ => none

/-- The fields of a `set` operation of the parser. -/
def ParserOp.arithFields : ParserOp → List FieldRef
  | .extract _ => []
  | .extractStack _ => []
  | .setFromField dst src => [dst, src]
  | .setFromData dst _ => [dst]
  | .setFromLookahead dst _ => [dst]
  | .setFromExpression dst src => dst :: src.loadedFields

/-- A parameter of a primitive that is a header or a field. -/
inductive HeaderParam where
  | header (hdr : ℕ)
  | field (f : FieldRef)

/-- The fields for which a parameter enables arithmetic: all fields of a header. -/
def HeaderParam.covers (f : FieldRef) : HeaderParam → Bool
  | .header hdr => f.header == hdr
  | .field f' => f == f'

/-- What the loader reads of a configuration for the fields of its PHVs. The expressions are those
of conditions, of checksums and of the parameters of primitives. -/
structure P4Config where
  headers : PHVFactory
  parserOps : List ParserOp := []
  expressions : List Expression := []
  actionParams : List HeaderParam := []
  fieldLists : List (ℕ × List FieldRef) := []
  forceArith : List FieldRef := []
  arithFields : List FieldRef := []

namespace P4Config

variable (c : P4Config)

def enablesArith (f : FieldRef) : Bool :=
  c.parserOps.any (fun op => op.arithFields.contains f) ||
    c.expressions.any (fun e => e.loadedFields.contains f) ||
    c.actionParams.any (HeaderParam.covers f) || c.forceArith.contains f || c.arithFields.contains f

/-- A header after all calls of `enable_field_arith` and `enable_all_field_arith`. -/
def enabled (i : ℕ) (desc : HeaderDesc) : HeaderDesc :=
  { desc with
    arithOffsets := (List.range desc.headerType.fieldsInfo.length).filter fun offset =>
      c.enablesArith { header := i, offset } }

/-- `phv_factory`, at the end of `init_objects`. -/
def phvFactory : PHVFactory where
  headerDescs := c.headers.headerDescs.mapIdx c.enabled
  headerStackDescs := c.headers.headerStackDescs
  stacks_nodup := c.headers.stacks_nodup
  stacks_typed s hs i hi := by
    obtain ⟨desc, hdesc, htype⟩ := c.headers.stacks_typed s hs i hi
    refine ⟨c.enabled i desc, ?_, htype⟩
    rw [List.getElem?_mapIdx, hdesc]
    rfl

/-- `get_field_list`. -/
def getFieldList (id : ℕ) : Option (List FieldRef) := c.fieldLists.reverse.lookup id

/-- Whether a field has arithmetic enabled: also if the length of a variable field is computed
from it. -/
def arith (f : FieldRef) : Bool :=
  c.enablesArith f || ((c.headers.headerDescs[f.header]?).bind (·.headerType.vl)).any fun vl =>
    vl.2.loadedFields.any (·.offset == f.offset)

variable {c} {phv₀ : PHV} {f : FieldRef} {k : Field}

end P4Config

end Bmv2
