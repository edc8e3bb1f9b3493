import Bmv2.Pipeline.Paths

/-! What a pipeline may write: the fields that the actions and meters of the tables on the way of
the packet name. -/
namespace Bmv2

namespace PipelineConfig

variable {ι : Type} [DecidableEq ι] {K S : ι → Type} [∀ i, MatchKey (K i)]
variable {cast : BignumCast} {c : PipelineConfig ι} {L : ∀ i, LookupStructure (K i) (S i)}
variable {C : ∀ i, ClearLookup (L i)} {s s' : PipelineState ι K S}
variable {layout : List (List ℕ)} {W : FieldRef → Prop}

/-- The fields that an action of the table `i` or its meters may write. -/
def TableWrites (c : PipelineConfig ι) (layout : List (List ℕ)) (i : ι) (ref : FieldRef) : Prop :=
  (c.tables i).meterTarget = some ref ∨
  ∃ f ∈ (c.tables i).actions, ∃ body ∈ c.actions[f]?,
    ∃ prim ∈ body, prim.Writes c.primitives layout ref

/-- The fields that may be written at a node; conditionals write nothing. -/
def NodeWrites (c : PipelineConfig ι) (layout : List (List ℕ)) (n : ℕ) (ref : FieldRef) : Prop :=
  ∃ i, c.nodes[n]? = some (.table i) ∧ c.TableWrites layout i ref

/-- What is left of an action writes only `W`. -/
def Pending (c : PipelineConfig ι) (layout : List (List ℕ)) (W : FieldRef → Prop)
    (s : PipelineState ι K S) : Prop :=
  ∀ prim ∈ s.control.todo, ∀ ref, prim.Writes c.primitives layout ref → W ref

omit [DecidableEq ι] [∀ i, MatchKey (K i)] in
theorem frame_setColor {i : ι} {color : Option ℕ} {colored : ActionState}
    (h : c.setColor s i color = some colored) :
    PHV.Frame (fun ref => (c.tables i).meterTarget = some ref) s.phv colored.phv := by
  cases color with
  | none =>
    obtain rfl := Option.some.inj h
    exact .refl _ _
  | some color =>
    obtain ⟨target, htarget, h⟩ := Option.bind_eq_some_iff.mp h
    exact (ActionState.frame_setField h).mono fun ref heq => heq ▸ htarget

omit [DecidableEq ι] in
/-- The body of an action that a table runs is in the write set of the table. -/
theorem writes_body {i : ι} {actionFn : Option ℕ} {body : List ActionPrimitive}
    (hruns : (c.tables i).Runs actionFn)
    (hbody : actionFn.elim (some []) (c.actions[·]?) = some body) {prim : ActionPrimitive}
    (hprim : prim ∈ body) {ref : FieldRef} (h : prim.Writes c.primitives layout ref) :
    c.TableWrites layout i ref := by
  cases actionFn with
  | none =>
    obtain rfl := Option.some.inj hbody
    exact absurd hprim List.not_mem_nil
  | some f => exact .inr ⟨f, hruns f rfl, body, hbody, prim, hprim, h⟩

/-- One step writes what is pending, or what the node that it goes into may write. -/
theorem frame_step (hserved : c.Served C s) (hlayout : s.phv.headerStacks.map (·.headers) = layout)
    (hpending : c.Pending layout W s) {op : PipelineOp ι} {r : Option ℕ}
    (hnode : ∀ n, r = some n → ∀ ref, c.NodeWrites layout n ref → W ref)
    (hs : c.step cast L s op = some (r, s')) :
    PHV.Frame W s.phv s'.phv ∧ c.Pending layout W s' := by
  cases hop : op.isAdvance with
  | false =>
    obtain ⟨-, hcontrol, hphv⟩ := step_other hop hs
    refine ⟨hphv ▸ .refl W s.phv, ?_⟩
    unfold Pending
    rw [hcontrol]
    exact hpending
  | true =>
    cases op with
    | table | objects => exact absurd hop (by simp [PipelineOp.isAdvance])
    | advance micros random =>
      cases advances_of_advance hs with
      | exit | conditional | leave =>
        exact ⟨.refl W s.phv, fun prim hprim => absurd hprim List.not_mem_nil⟩
      | table hcontrol htable happly hcolor hbody =>
        have hruns := (AnyTable.Serves.applyAction (hserved _) happly).2.1
        refine ⟨(frame_setColor hcolor).mono fun ref htarget => ?_, fun prim hprim ref hw => ?_⟩
        · exact hnode _ rfl ref ⟨_, htable, .inl htarget⟩
        · exact hnode _ rfl ref ⟨_, htable, writes_body hruns hbody hprim hw⟩
      | @primitive i actionData prim todo next env result hcontrol hexec =>
        have htodo : s.control.todo = prim :: todo := by rw [hcontrol]; rfl
        have hframe := ActionState.frame_exec hexec
        rw [hlayout] at hframe
        refine ⟨hframe.mono (hpending prim (by simp [htodo])), fun prim' hprim' => ?_⟩
        exact hpending prim' (by rw [htodo]; exact List.mem_cons_of_mem _ hprim')

theorem frame_of_served {l : List (PipelineOp ι × Option ℕ)} (hserved : c.Served C s)
    (hlayout : s.phv.headerStacks.map (·.headers) = layout) (hpending : c.Pending layout W s)
    (hnodes : ∀ n ∈ visited l, ∀ ref, c.NodeWrites layout n ref → W ref)
    (hrun : Transition.Run (c.step cast L) (fun _ _ => True) s l s') :
    PHV.Frame W s.phv s'.phv := by
  induction hrun with
  | nil s => exact .refl W s.phv
  | @cons s s₁ s' op r l _ hs _ ih =>
    rw [visited_cons] at hnodes
    obtain ⟨hframe, hpending'⟩ := frame_step hserved hlayout hpending (fun n hn ref hw =>
      hnodes n (by simp [hn]) ref hw) hs
    exact hframe.trans (ih (hserved.step hs) (hframe.layout.trans hlayout) hpending'
      fun n hn => hnodes n (List.mem_append_right _ hn))

/-- A field keeps its value on the whole way through a pipeline if no table on that way may write
it, with an action of its own or as the target of its meters. What entries the tables have, and
what becomes of them meanwhile, makes no difference. -/
theorem field_untouched (C : ∀ i, ClearLookup (L i)) {init : ∀ i, AnyTable (K i) (S i)}
    (hsetUp : ∀ i, (init i).SetUp (C i) (c.tables i))
    (htables : ∀ i, Transition.Reach (AnyTable.act (L i))
      (fun _ op => (c.tables i).Permits op) (init i) (s.tables i))
    (hstart : s.control = .node c.firstNode) {l : List (PipelineOp ι × Option ℕ)}
    (hrun : Transition.Run (c.step cast L) (fun _ _ => True) s l s') (ref : FieldRef)
    (hnot : ∀ n ∈ visited l, ¬ c.NodeWrites (s.phv.headerStacks.map (·.headers)) n ref) :
    s'.phv.getField ref.header ref.offset = s.phv.getField ref.header ref.offset := by
  have hserved : c.Served C s := fun i => AnyTable.Serves.reach (hsetUp i) (htables i)
  have hpending : c.Pending (s.phv.headerStacks.map (·.headers)) (fun r => r ≠ ref) s := by
    unfold Pending
    rw [hstart]
    exact fun prim hprim => absurd hprim List.not_mem_nil
  have hframe := frame_of_served hserved rfl hpending (fun n hn r hw heq =>
    hnot n hn (heq ▸ hw)) hrun
  exact hframe.field ref fun hne => hne rfl

end PipelineConfig

open TwoNodePipeline in
/-- The action writes the first field, and the second one is as it was. -/
theorem PipelineConfig.field_untouched_second : ∃ l s', Transition.Run
    (twoNodePipeline.step checkedCast fun _ => exactMap) (fun _ _ => True) start l s' ∧
    (s'.phv.getField 0 0).map (·.toData.value) = some 5 ∧
    s'.phv.getField 0 1 = start.phv.getField 0 1 := by
  have heval : ((Transition.Run.record
      (twoNodePipeline.step checkedCast fun _ => exactMap) (fun _ _ => True) start ops).map
        fun p => (p.2.phv.getField 0 0).map (·.toData.value)) = some (some 5) := by
    decide +kernel
  obtain ⟨⟨l, s'⟩, hrun, hvalue⟩ := Option.map_eq_some_iff.mp heval
  have hrun := Transition.Run.of_record hrun
  refine ⟨l, s', hrun, hvalue, PipelineConfig.field_untouched (fun _ => exactMapClear)
    (fun _ => setUp_table) (fun _ => reach_tableWithDefault) rfl hrun ⟨0, 1⟩ ?_⟩
  rintro n - ⟨i, -, hw⟩
  simp [TableWrites, twoNodePipeline, ActionPrimitive.Writes, DataDest.Writes] at hw

end Bmv2
