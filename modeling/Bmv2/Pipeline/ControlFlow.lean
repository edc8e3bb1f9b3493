import Bmv2.Switch.Primitives
import Bmv2.Tables.NextNode
import Bmv2.Tables.Reset

/-! A packet in a pipeline (`Pipeline::apply`, `Conditional::operator()`,
`MatchTableAbstract::apply_action`). The packet holds the read lock of a table from the lookup to
the end of the action; the registers, counters and meters can change in between. -/
namespace Bmv2
open ByteBits

/-- A table of any of the three types. -/
inductive AnyTable (K S : Type) where
  | simple (t : MatchTable K S)
  | indirect (t : MatchTableIndirect K S)
  | indirectWs (t : MatchTableIndirectWS K S)

/-- The calls of a `Context` on a table. -/
inductive TableCall where
  | simple (op : MatchTable.Op)
  | indirect (op : MatchTableIndirect.Op)
  | indirectWs (op : MatchTableIndirectWS.Op)

namespace TableCall

/-- The action that a call names. -/
def action? : TableCall → Option ℕ
  | .simple (.addEntry _ _ actionFn _ _) => some actionFn
  | .simple (.modifyEntry _ actionFn _) => some actionFn
  | .simple (.setDefaultAction actionFn _) => some actionFn
  | .indirect (.addMember actionFn _) => some actionFn
  | .indirect (.modifyMember _ actionFn _) => some actionFn
  | .indirectWs (.indirect (.addMember actionFn _)) => some actionFn
  | .indirectWs (.indirect (.modifyMember _ actionFn _)) => some actionFn
  | _ => none

/-- Whether a call that all tables share waits for the packets in the table. -/
def baseExclusive : MatchTableAbstract.Op → Bool
  | .queryCounters _ => false
  | .resetCounters => false
  | .writeCounters _ _ _ => true
  | .setMeterRates _ _ => true
  | .setEntryTtl _ _ => true

def indirectExclusive : MatchTableIndirect.Op → Bool
  | .getValue _ => false
  | .getEntry _ => false
  | .getMember _ => false
  | .base op => baseExclusive op
  | _ => true

/-- Whether a call takes the write lock. -/
def exclusive : TableCall → Bool
  | .simple (.getValue _) => false
  | .simple (.getEntry _) => false
  | .simple (.base op) => baseExclusive op
  | .simple _ => true
  | .indirect op => indirectExclusive op
  | .indirectWs (.indirect op) => indirectExclusive op
  | .indirectWs (.getEntry _) => false
  | .indirectWs (.getGroup _) => false
  | .indirectWs (.getNumMembersInGroup _) => false
  | .indirectWs _ => true

end TableCall

/-- A packet and a sweep share a table with other packets. -/
def TableOp.exclusive : TableOp TableCall → Bool
  | .call op => op.exclusive
  | .packet _ _ _ => false
  | .sweep _ => false
  | .reset => true

/-- What a configuration fixes for a table: where it leads, the actions that go by a name of their
own with it, the target of its direct meters and the calculation of its selector. -/
structure TableConfig where
  next : NextNodeConfig := {}
  actions : List ℕ := []
  meterTarget : Option FieldRef := none
  selector : Option NamedCalculation := none

/-- `t_actions_map.at` throws for an action of another table. -/
def TableConfig.Permits (c : TableConfig) : TableOp TableCall → Prop
  | .call op => ∀ f ∈ op.action?, f ∈ c.actions
  | _ => True

instance (c : TableConfig) (op : TableOp TableCall) : Decidable (c.Permits op) := by
  cases op
  all_goals unfold TableConfig.Permits; infer_instance

namespace AnyTable

variable {K S : Type} [MatchKey K] (L : LookupStructure K S)

def liftReply {σ τ : Type} (f : σ → τ) (p : Option (Observation × σ)) :
    Option (Observation × τ) := p.map fun (o, t) => (o, f t)

def applyAction (pkt : Packet) (hash : Option ℕ) (micros : ℕ) :
    AnyTable K S → Option (Applied × AnyTable K S)
  | .simple t => (t.applyAction L pkt micros).map fun (a, t) => (a, .simple t)
  | .indirect t => (t.applyAction L pkt micros).map fun (a, t) => (a, .indirect t)
  | .indirectWs t => (t.applyAction L pkt hash micros).map fun (a, t) => (a, .indirectWs t)

/-- The table of another type that a call names answers with an error. -/
def call (op : TableCall) (t : AnyTable K S) : Option (Observation × AnyTable K S) :=
  match t, op with
  | .simple t, .simple op => liftReply .simple (t.act L (.call op))
  | .indirect t, .indirect op => liftReply .indirect (t.act L (.call op))
  | .indirectWs t, .indirect op => liftReply .indirectWs (t.act L (.call (.indirect op)))
  | .indirectWs t, .indirectWs op => liftReply .indirectWs (t.act L (.call op))
  | t, _ => some (.reply (.error .wrongTableType), t)

def act (t : AnyTable K S) : TableOp TableCall → Option (Observation × AnyTable K S)
  | .call op => t.call L op
  | .packet pkt hash micros => (t.applyAction L pkt hash micros).map fun (a, t) => (.applied a, t)
  | .sweep nowMs =>
    match t with
    | .simple t => liftReply .simple (t.act L (.sweep nowMs))
    | .indirect t => liftReply .indirect (t.act L (.sweep nowMs))
    | .indirectWs t => liftReply .indirectWs (t.act L (.sweep nowMs))
  | .reset =>
    match t with
    | .simple t => liftReply .simple (t.act L .reset)
    | .indirect t => liftReply .indirect (t.act L .reset)
    | .indirectWs t => liftReply .indirectWs (t.act L .reset)

end AnyTable

/-- `ControlFlowNode`. -/
inductive ControlFlowNode (ι : Type) where
  | table (i : ι)
  | conditional (condition : Expression) (trueNext falseNext : Option ℕ)

/-- A pipeline with its nodes, tables and actions. -/
structure PipelineConfig (ι : Type) where
  firstNode : Option ℕ
  nodes : List (ControlFlowNode ι)
  tables : ι → TableConfig
  actions : List (List ActionPrimitive)
  primitives : PrimitiveConfig

/-- Where a packet is: at a node, after the last one, or in the action of a table. -/
inductive PipelineControl (ι : Type) where
  | node (node : Option ℕ)
  | action (table : ι) (actionData : List ℤ) (todo : List ActionPrimitive) (next : Option ℕ)

/-- The packet with the tables and the objects that it shares with other packets. -/
structure PipelineState (ι : Type) (K S : ι → Type) extends ActionState where
  tables : ∀ i, AnyTable (K i) (S i)
  arrived : Packet
  control : PipelineControl ι

/-- What happens: the packet gets on, at a time of the clock of the meters and with what a random
number generator gives; a table is used, or the shared objects change. -/
inductive PipelineOp (ι : Type) where
  | advance (micros random : ℕ)
  | table (i : ι) (op : TableOp TableCall)
  | objects (objects : StatefulObjects)

def PipelineOp.isAdvance {ι : Type} : PipelineOp ι → Bool
  | .advance _ _ => true
  | _ => false

namespace PipelineConfig

variable {ι : Type} [DecidableEq ι] {K S : ι → Type} [∀ i, MatchKey (K i)]
variable (cast : BignumCast) (c : PipelineConfig ι) (L : ∀ i, LookupStructure (K i) (S i))
variable (s : PipelineState ι K S) (micros random : ℕ)

/-- The packet as a table or a calculation sees it. -/
def current : Packet := { s.arrived with phv := s.phv }

/-- The output of the calculation that a table with a selector has. -/
def selectorHash (i : ι) : Option (Option ℕ) :=
  match (c.tables i).selector with
  | none => some none
  | some calculation => (calculation.output s.phv s.arrived.buffer.data).map some

/-- The color that the direct meter gives. -/
def setColor (i : ι) : Option ℕ → Option ActionState
  | none => some s.toActionState
  | some color => do s.toActionState.setField (← (c.tables i).meterTarget) color

/-- `apply_action` up to the first primitive. -/
def visitTable (i : ι) : Option (PipelineState ι K S) := do
  let hash ← c.selectorHash s i
  let (applied, t) ← (s.tables i).applyAction (L i) (current s) hash micros
  let colored ← c.setColor s i applied.color
  let body ← applied.action.actionFn.elim (some []) (c.actions[·]?)
  some { s with
    toActionState := colored
    tables := Function.update s.tables i t
    control := .action i applied.action.actionData body applied.nextNode }

/-- `Conditional::operator()`. -/
def visitConditional (condition : Expression) (trueNext falseNext : Option ℕ) :
    Option (PipelineState ι K S) := do
  let result ← (condition.evalBool cast
    { phv := s.phv, registerArrays := s.objects.registers } []).toOption
  some { s with control := .node (if result then trueNext else falseNext) }

/-- What the packet does next, and the node that it goes into. -/
def advance : Option (Option ℕ × PipelineState ι K S) :=
  match s.control with
  | .node none => none
  | .node (some n) =>
    if s.markedForExit then some (none, { s with control := .node none })
    else do
      let next ← match ← c.nodes[n]? with
        | .table i => c.visitTable L s micros i
        | .conditional condition trueNext falseNext =>
          visitConditional cast s condition trueNext falseNext
      some (some n, next)
  | .action _ _ [] next => some (none, { s with control := .node next })
  | .action i actionData (prim :: todo) next => do
    let result ← s.toActionState.exec cast c.primitives
      { actionData := actionData.map fun value => { value }
        data := s.arrived.buffer.data
        ingressLength := s.arrived.ingressLength
        micros
        random } prim
    some (none, { s with
      toActionState := result
      control := .action i actionData todo next })

/-- A packet in the table keeps out those that want to write. -/
def heldBy (i : ι) : Bool :=
  match s.control with
  | .node _ => false
  | .action j _ _ _ => decide (i = j)

/-- One step, and the node that the packet goes into if it does. -/
def step (s : PipelineState ι K S) : PipelineOp ι → Option (Option ℕ × PipelineState ι K S)
  | .advance micros random => c.advance cast L s micros random
  | .table i op =>
    if (c.tables i).Permits op ∧ ¬ (op.exclusive ∧ heldBy s i) then do
      let (_, t) ← (s.tables i).act (L i) op
      some (none, { s with tables := Function.update s.tables i t })
    else none
  | .objects objects => some (none, { s with objects })

/-- The nodes that a packet goes into along a run. -/
def visited (l : List (PipelineOp ι × Option ℕ)) : List ℕ := l.filterMap Prod.snd

end PipelineConfig

end Bmv2
