import Bmv2.Pipeline.Targets

/-! The way of a packet through a pipeline, whatever happens to the tables meanwhile. -/
namespace Bmv2

namespace PipelineControl

variable {ι : Type}

/-- The node that comes next. -/
def nextNode : PipelineControl ι → Option ℕ
  | .node n => n
  | .action _ _ _ next => next

/-- What is left of the action. -/
def todo : PipelineControl ι → List ActionPrimitive
  | .node _ => []
  | .action _ _ todo _ => todo

end PipelineControl

namespace PipelineConfig

variable {ι : Type} [DecidableEq ι] {K S : ι → Type} [∀ i, MatchKey (K i)]
variable {cast : BignumCast} {c : PipelineConfig ι} {L : ∀ i, LookupStructure (K i) (S i)}
variable {C : ∀ i, ClearLookup (L i)} {s s' : PipelineState ι K S}

/-- Where a configuration leads from a node. -/
def successors (c : PipelineConfig ι) (n : ℕ) : List (Option ℕ) :=
  match c.nodes[n]? with
  | none => []
  | some (.table i) => (c.tables i).next.targets
  | some (.conditional _ trueNext falseNext) => [trueNext, falseNext]

def Edge (c : PipelineConfig ι) (n m : ℕ) : Prop := some m ∈ c.successors n

/-- What a step of the packet does. -/
inductive Advances (cast : BignumCast) (c : PipelineConfig ι)
    (L : ∀ i, LookupStructure (K i) (S i)) (s : PipelineState ι K S) :
    Option ℕ → PipelineState ι K S → Prop
  | exit {n : ℕ} : s.control = .node (some n) →
      Advances cast c L s none { s with control := .node none }
  | table {n micros : ℕ} {i : ι} {hash : Option ℕ} {applied : Applied} {t : AnyTable (K i) (S i)}
      {colored : ActionState} {body : List ActionPrimitive} : s.control = .node (some n) →
      c.nodes[n]? = some (.table i) →
      (s.tables i).applyAction (L i) (current s) hash micros = some (applied, t) →
      c.setColor s i applied.color = some colored →
      applied.action.actionFn.elim (some []) (c.actions[·]?) = some body →
      Advances cast c L s (some n)
        { s with
          toActionState := colored
          tables := Function.update s.tables i t
          control := .action i applied.action.actionData body applied.nextNode }
  | conditional {n : ℕ} {condition : Expression} {trueNext falseNext next : Option ℕ} :
      s.control = .node (some n) →
      c.nodes[n]? = some (.conditional condition trueNext falseNext) →
      next ∈ [trueNext, falseNext] →
      Advances cast c L s (some n) { s with control := .node next }
  | leave {i : ι} {actionData : List ℤ} {next : Option ℕ} :
      s.control = .action i actionData [] next →
      Advances cast c L s none { s with control := .node next }
  | primitive {i : ι} {actionData : List ℤ} {prim : ActionPrimitive}
      {todo : List ActionPrimitive} {next : Option ℕ} {env : ActionEnv} {result : ActionState} :
      s.control = .action i actionData (prim :: todo) next →
      s.toActionState.exec cast c.primitives env prim = some result →
      Advances cast c L s none
        { s with toActionState := result, control := .action i actionData todo next }

theorem advances_of_advance {micros random : ℕ} {r : Option ℕ}
    (h : c.advance cast L s micros random = some (r, s')) : Advances cast c L s r s' := by
  unfold advance at h
  split at h
  · exact absurd h (by simp)
  · rename_i n hcontrol
    split_ifs at h
    · obtain ⟨rfl, rfl⟩ := Prod.mk.inj (Option.some.inj h)
      exact .exit hcontrol
    obtain ⟨node, hnode, h⟩ := Option.bind_eq_some_iff.mp h
    cases node with
    | table i =>
      obtain ⟨next, hnext, h⟩ := Option.bind_eq_some_iff.mp h
      obtain ⟨rfl, rfl⟩ := Prod.mk.inj (Option.some.inj h)
      obtain ⟨hash, -, hnext⟩ := Option.bind_eq_some_iff.mp hnext
      obtain ⟨⟨applied, t⟩, happly, hnext⟩ := Option.bind_eq_some_iff.mp hnext
      obtain ⟨colored, hcolor, hnext⟩ := Option.bind_eq_some_iff.mp hnext
      obtain ⟨body, hbody, hnext⟩ := Option.bind_eq_some_iff.mp hnext
      obtain rfl := Option.some.inj hnext
      exact .table hcontrol hnode happly hcolor hbody
    | conditional condition trueNext falseNext =>
      obtain ⟨next, hnext, h⟩ := Option.bind_eq_some_iff.mp h
      obtain ⟨rfl, rfl⟩ := Prod.mk.inj (Option.some.inj h)
      obtain ⟨result, -, hnext⟩ := Option.bind_eq_some_iff.mp hnext
      obtain rfl := Option.some.inj hnext
      refine .conditional hcontrol hnode ?_
      cases result <;> simp
  · rename_i i actionData next hcontrol
    obtain ⟨rfl, rfl⟩ := Prod.mk.inj (Option.some.inj h)
    exact .leave hcontrol
  · rename_i i actionData prim todo next hcontrol
    obtain ⟨result, hexec, h⟩ := Option.bind_eq_some_iff.mp h
    obtain ⟨rfl, rfl⟩ := Prod.mk.inj (Option.some.inj h)
    exact .primitive hcontrol hexec

/-- Every table holds what the configuration lets it have. -/
def Served (c : PipelineConfig ι) (C : ∀ i, ClearLookup (L i)) (s : PipelineState ι K S) : Prop :=
  ∀ i, (s.tables i).Serves (C i) (c.tables i)

theorem Served.update (h : c.Served C s) {i : ι} {t : AnyTable (K i) (S i)}
    (ht : t.Serves (C i) (c.tables i)) (hs : s'.tables = Function.update s.tables i t) :
    c.Served C s' := by
  intro j
  rw [hs]
  by_cases hj : j = i
  · subst hj
    rwa [Function.update_self]
  · rw [Function.update_of_ne hj]
    exact h j

/-- A step leaves the tables with what is theirs. -/
theorem Served.step (h : c.Served C s) {op : PipelineOp ι} {r : Option ℕ}
    (hs : c.step cast L s op = some (r, s')) : c.Served C s' := by
  cases op with
  | advance micros random =>
    cases advances_of_advance hs with
    | table _ _ happly => exact h.update (AnyTable.Serves.applyAction (h _) happly).1 rfl
    | exit | conditional | leave | primitive => exact h
  | table i op =>
    simp only [PipelineConfig.step] at hs
    split_ifs at hs with hok
    obtain ⟨⟨o, t⟩, hact, hs⟩ := Option.bind_eq_some_iff.mp hs
    obtain rfl := congrArg Prod.snd (Option.some.inj hs)
    exact h.update (AnyTable.Serves.act (h i) hok.1 hact) rfl
  | objects objects =>
    obtain rfl := congrArg Prod.snd (Option.some.inj hs)
    exact h

/-- Only the packet itself gets on. -/
theorem step_other {op : PipelineOp ι} {r : Option ℕ} (hop : op.isAdvance = false)
    (hs : c.step cast L s op = some (r, s')) :
    r = none ∧ s'.control = s.control ∧ s'.phv = s.phv := by
  cases op with
  | advance micros random => exact absurd hop (by simp [PipelineOp.isAdvance])
  | table i op =>
    simp only [PipelineConfig.step] at hs
    split_ifs at hs
    obtain ⟨⟨o, t⟩, -, hs⟩ := Option.bind_eq_some_iff.mp hs
    obtain ⟨rfl, rfl⟩ := Prod.mk.inj (Option.some.inj hs)
    exact ⟨rfl, rfl, rfl⟩
  | objects objects =>
    obtain ⟨rfl, rfl⟩ := Prod.mk.inj (Option.some.inj hs)
    exact ⟨rfl, rfl, rfl⟩

/-! ### The nodes on the way -/

/-- A packet goes into the node that comes next, and after it into one of its successors. -/
theorem step_node (h : c.Served C s) {op : PipelineOp ι} {r : Option ℕ}
    (hs : c.step cast L s op = some (r, s')) :
    (r = none ∧ (s'.control.nextNode = s.control.nextNode ∨ s'.control.nextNode = none)) ∨
    ∃ n, r = some n ∧ s.control.nextNode = some n ∧ s'.control.nextNode ∈ c.successors n := by
  cases hop : op.isAdvance with
  | false =>
    obtain ⟨rfl, hcontrol, -⟩ := step_other hop hs
    exact .inl ⟨rfl, .inl (by rw [hcontrol])⟩
  | true =>
    cases op with
    | table | objects => exact absurd hop (by simp [PipelineOp.isAdvance])
    | advance micros random =>
      cases advances_of_advance hs with
      | exit hcontrol => exact .inl ⟨rfl, .inr rfl⟩
      | table hcontrol hnode happly hcolor hbody =>
        refine .inr ⟨_, rfl, by rw [hcontrol]; rfl, ?_⟩
        unfold successors
        rw [hnode]
        exact (AnyTable.Serves.applyAction (h _) happly).2.2
      | conditional hcontrol hnode hnext =>
        refine .inr ⟨_, rfl, by rw [hcontrol]; rfl, ?_⟩
        unfold successors
        rw [hnode]
        exact hnext
      | leave hcontrol => exact .inl ⟨rfl, .inl (by rw [hcontrol]; rfl)⟩
      | primitive hcontrol hexec => exact .inl ⟨rfl, .inl (by rw [hcontrol]; rfl)⟩

omit [DecidableEq ι] in
theorem visited_cons {op : PipelineOp ι} {r : Option ℕ} {l : List (PipelineOp ι × Option ℕ)} :
    visited ((op, r) :: l) = r.toList ++ visited l := by
  cases r <;> simp [visited]

/-- The nodes on the way form a path of the configuration. -/
theorem path_of_served {l : List (PipelineOp ι × Option ℕ)} (h : c.Served C s)
    (hrun : Transition.Run (c.step cast L) (fun _ _ => True) s l s') :
    (visited l).IsChain c.Edge ∧ ∀ n ∈ (visited l).head?, s.control.nextNode = some n := by
  induction hrun with
  | nil => simp [visited]
  | @cons s s₁ s' op r l _ hs _ ih =>
    obtain ⟨hchain, hhead⟩ := ih (h.step hs)
    rw [visited_cons]
    rcases step_node h hs with ⟨rfl, hnext⟩ | ⟨n, rfl, hn, hnext⟩
    · refine ⟨hchain, fun n hn => ?_⟩
      have hnode := hhead n hn
      rcases hnext with heq | heq
      · rw [← heq, hnode]
      · simp [heq] at hnode
    · refine ⟨List.isChain_cons.mpr ⟨fun m hm => ?_, hchain⟩, fun m hm => ?_⟩
      · rw [hhead m hm] at hnext
        exact hnext
      · obtain rfl : n = m := by simpa using hm
        exact hn

/-! ### The steps of a packet -/

/-- The steps that a packet may still take, where nodes have a rank and actions at most `bound`
primitives. -/
def work (rank : ℕ → ℕ) (bound : ℕ) : PipelineControl ι → ℕ
  | .node next => next.elim 0 fun n => (rank n + 1) * (bound + 2)
  | .action _ _ todo next =>
    todo.length + 1 + next.elim 0 fun n => (rank n + 1) * (bound + 2)

variable {rank : ℕ → ℕ} {bound : ℕ}

omit [DecidableEq ι] in
variable (bound) in
/-- What is left after a node fits into what the node has. -/
theorem work_successor (hrank : ∀ n m, c.Edge n m → rank m < rank n) {n : ℕ} {next : Option ℕ}
    (h : next ∈ c.successors n) :
    (next.elim 0 fun m => (rank m + 1) * (bound + 2)) + (bound + 2) ≤
      (rank n + 1) * (bound + 2) := by
  cases next with
  | none =>
    rw [Option.elim_none, Nat.zero_add]
    exact Nat.le_mul_of_pos_left _ (Nat.succ_pos _)
  | some m =>
    have hlt := hrank n m h
    calc (rank m + 1) * (bound + 2) + (bound + 2) = (rank m + 1 + 1) * (bound + 2) := by ring
      _ ≤ (rank n + 1) * (bound + 2) := Nat.mul_le_mul_right _ (by omega)

/-- Each step of the packet uses up some of the work. -/
theorem work_advance (h : c.Served C s) (hrank : ∀ n m, c.Edge n m → rank m < rank n)
    (hbound : ∀ body ∈ c.actions, body.length ≤ bound) {r : Option ℕ}
    (hs : Advances cast c L s r s') :
    work rank bound s'.control + 1 ≤ work rank bound s.control := by
  cases hs with
  | exit hcontrol =>
    rw [hcontrol]
    exact Nat.succ_le_of_lt (Nat.mul_pos (Nat.succ_pos _) (Nat.succ_pos _))
  | table hcontrol hnode happly hcolor hbody =>
    rename_i n micros i hash applied t colored body
    have hnext : applied.nextNode ∈ c.successors n := by
      unfold successors
      rw [hnode]
      exact (AnyTable.Serves.applyAction (h i) happly).2.2
    have hlen : body.length ≤ bound := by
      cases hfn : applied.action.actionFn with
      | none =>
        rw [hfn] at hbody
        obtain rfl := Option.some.inj hbody
        exact Nat.zero_le _
      | some f =>
        rw [hfn] at hbody
        exact hbound body (List.mem_of_getElem? hbody)
    have hwork := work_successor bound hrank hnext
    rw [hcontrol]
    unfold work
    dsimp only [Option.elim_some]
    omega
  | conditional hcontrol hnode hnext =>
    rename_i n condition trueNext falseNext next
    have hmem : next ∈ c.successors n := by
      unfold successors
      rw [hnode]
      exact hnext
    have hwork := work_successor bound hrank hmem
    rw [hcontrol]
    unfold work
    dsimp only [Option.elim_some]
    omega
  | leave hcontrol =>
    rw [hcontrol]
    unfold work
    dsimp only [List.length_nil]
    omega
  | primitive hcontrol hexec =>
    rw [hcontrol]
    unfold work
    dsimp only [List.length_cons]
    omega

theorem work_run (hrank : ∀ n m, c.Edge n m → rank m < rank n)
    (hbound : ∀ body ∈ c.actions, body.length ≤ bound) {l : List (PipelineOp ι × Option ℕ)}
    (h : c.Served C s) (hrun : Transition.Run (c.step cast L) (fun _ _ => True) s l s') :
    l.countP (fun p => p.1.isAdvance) + work rank bound s'.control ≤
      work rank bound s.control := by
  induction hrun with
  | nil => simp
  | @cons s s₁ s' op r l _ hs _ ih =>
    have hrest := ih (h.step hs)
    rw [List.countP_cons]
    cases hop : op.isAdvance with
    | false =>
      obtain ⟨-, hcontrol, -⟩ := step_other hop hs
      rw [hcontrol] at hrest
      simpa using hrest
    | true =>
      cases op with
      | table | objects => exact absurd hop (by simp [PipelineOp.isAdvance])
      | advance micros random =>
        have hone := work_advance h hrank hbound (advances_of_advance hs)
        simp only [↓reduceIte]
        omega

/-- A packet follows the nodes of the configuration from the first one on, whatever is done to the
tables meanwhile. If the configuration has no cycle, it meets no node twice, and is through after
a number of steps that does not depend on what others do. -/
theorem path_of_run (C : ∀ i, ClearLookup (L i)) {init : ∀ i, AnyTable (K i) (S i)}
    (hsetUp : ∀ i, (init i).SetUp (C i) (c.tables i))
    (htables : ∀ i, Transition.Reach (AnyTable.act (L i))
      (fun _ op => (c.tables i).Permits op) (init i) (s.tables i))
    (hstart : s.control = .node c.firstNode) {l : List (PipelineOp ι × Option ℕ)}
    (hrun : Transition.Run (c.step cast L) (fun _ _ => True) s l s') :
    (visited l).IsChain c.Edge ∧ (∀ n ∈ (visited l).head?, c.firstNode = some n) ∧
    ∀ (rank : ℕ → ℕ) (bound : ℕ), (∀ n m, c.Edge n m → rank m < rank n) →
      (∀ body ∈ c.actions, body.length ≤ bound) →
      (visited l).Nodup ∧ l.countP (fun p => p.1.isAdvance) ≤
        c.firstNode.elim 0 fun n => (rank n + 1) * (bound + 2) := by
  have hserved : c.Served C s := fun i => AnyTable.Serves.reach (hsetUp i) (htables i)
  obtain ⟨hchain, hhead⟩ := path_of_served hserved hrun
  refine ⟨hchain, fun n hn => ?_, fun rank bound hrank hbound => ⟨?_, ?_⟩⟩
  · have hnode := hhead n hn
    rwa [hstart] at hnode
  · have hsorted : (visited l).Pairwise fun n m => rank m < rank n :=
      (hchain.imp fun n m hedge => hrank n m hedge).pairwise
    exact hsorted.imp fun hlt heq => absurd hlt (by rw [heq]; exact lt_irrefl _)
  · have hwork := work_run hrank hbound hserved hrun
    rw [hstart] at hwork
    exact (Nat.le_add_right _ _).trans hwork

end PipelineConfig

/-- A pipeline with one table, whose only action writes the first field, and a conditional. -/
def twoNodePipeline : PipelineConfig Unit where
  firstNode := some 0
  nodes := [.table (), .conditional { ops := [.loadBool true], built := true } none none]
  tables _ := { next := { nodes := [(0, some 1)], baseDefault := some 1 }, actions := [0] }
  actions := [[.modifyField (.field ⟨0, 0⟩) (.const 5)]]
  primitives := { fields := ⟨⟨0, 0⟩, ⟨0, 0⟩, ⟨0, 0⟩, ⟨0, 0⟩, ⟨0, 0⟩, ⟨0, 0⟩, none, none, none, none,
    none, none⟩ }

namespace TwoNodePipeline

/-- Its table, with the action as default. -/
def table : MatchTable ExactMatchKey (AList fun _ : List ByteBits.Byte => ℕ) :=
  .create ((twoNodePipeline.tables ()).next.configure {}) 1
    (({} : MatchKeyBuilder).pushBackField 0 0 8 .exact) ∅

def tableWithDefault : MatchTable ExactMatchKey (AList fun _ : List ByteBits.Byte => ℕ) :=
  { table with
    base := { table.base with nextNodeMiss := some 1 }
    defaultEntry := ⟨some 0, [], some 1⟩ }

/-- A packet with two fields in front of the pipeline. -/
def start : PipelineState Unit (fun _ => ExactMatchKey)
    (fun _ => AList fun _ : List ByteBits.Byte => ℕ) where
  phv := { headers := [
    { fields := [{ nbits := 8, bytes := [4] }, { nbits := 8, bytes := [7] }], valid := true
      nbytesPacket := 2 }] }
  tables _ := .simple tableWithDefault
  arrived := onePacket 4
  control := .node (some 0)

/-- Between the steps of the packet, the table is swept and the default action is set anew. -/
def ops : List (PipelineOp Unit) :=
  [.advance 0 0, .table () (.sweep 5), .advance 0 0, .advance 0 0,
    .table () (.call (.simple (.setDefaultAction 0 []))), .advance 0 0]

theorem reach_tableWithDefault : Transition.Reach (AnyTable.act exactMap)
    (fun _ op => (twoNodePipeline.tables ()).Permits op) (.simple table)
    (.simple tableWithDefault) :=
  .tail (a := .call (.simple (.setDefaultAction 0 []))) .refl
    (fun f hf => by
      obtain rfl := Option.some.inj hf
      exact List.mem_singleton.mpr rfl) rfl

theorem setUp_table : (AnyTable.simple table).SetUp exactMapClear (twoNodePipeline.tables ()) :=
  .simple (by decide) trivial (fun _ _ h => absurd ((AList.lookup_empty _).symm.trans h) (by simp))
    (.inl rfl)

/-- Both nodes are visited. -/
theorem record_ops : (Transition.Run.record
    (twoNodePipeline.step checkedCast fun _ => exactMap) (fun _ _ => True) start ops).map
      (fun p => PipelineConfig.visited p.1) = some [0, 1] := by
  decide +kernel

theorem edge_rank (n m : ℕ) (h : twoNodePipeline.Edge n m) : 1 - m < 1 - n := by
  unfold PipelineConfig.Edge PipelineConfig.successors twoNodePipeline at h
  rcases n with _ | _ | n
  · obtain rfl : m = 1 := by simpa [NextNodeConfig.targets] using h
    decide
  · simp at h
  · simp at h

/-- The packet visits the two nodes, in four of the six steps it may take. -/
theorem path_of_run_two : ∃ l s', Transition.Run
    (twoNodePipeline.step checkedCast fun _ => exactMap) (fun _ _ => True) start l s' ∧
    PipelineConfig.visited l = [0, 1] ∧ (PipelineConfig.visited l).Nodup ∧
    l.countP (fun p => p.1.isAdvance) ≤ 6 := by
  obtain ⟨⟨l, s'⟩, hrun, hvisited⟩ := Option.map_eq_some_iff.mp record_ops
  have hrun := Transition.Run.of_record hrun
  obtain ⟨-, -, hbounds⟩ := PipelineConfig.path_of_run (fun _ => exactMapClear)
    (fun _ => setUp_table) (fun _ => reach_tableWithDefault) rfl hrun
  exact ⟨l, s', hrun, hvisited, hbounds (fun n => 1 - n) 1 edge_rank (by decide)⟩

end TwoNodePipeline

end Bmv2
