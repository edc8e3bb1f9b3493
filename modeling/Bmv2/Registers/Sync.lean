import Bmv2.Expressions.Code

/-! The register arrays that an action or a parse state names, which it locks before it runs
(`RegisterSync` of `stateful.h`). -/
namespace Bmv2

/-- `RegisterSync`: the arrays for which there is a lock object. -/
structure RegisterSync where
  arrays : List ℕ := []
  nodup : arrays.Nodup := by exact List.nodup_nil

namespace RegisterSync

variable (sync : RegisterSync)

def addRegisterArray (array : ℕ) : RegisterSync :=
  if h : array ∈ sync.arrays then sync
  else
    { arrays := sync.arrays ++ [array]
      nodup := List.nodup_append.mpr ⟨sync.nodup, by simp, fun a ha b hb heq =>
        h (by rwa [← List.mem_singleton.mp hb, ← heq])⟩ }

theorem mem_addRegisterArray {array a : ℕ} :
    a ∈ (sync.addRegisterArray array).arrays ↔ a = array ∨ a ∈ sync.arrays := by
  unfold addRegisterArray
  split_ifs with h
  · exact ⟨.inr, fun ha => ha.elim (fun heq => heq ▸ h) id⟩
  · rw [List.mem_append, List.mem_singleton, or_comm]

/-- What is pushed one after the other gives the arrays of all that was pushed. -/
theorem mem_foldl {β : Type} (push : RegisterSync → β → RegisterSync) (arrays : β → List ℕ) {a : ℕ}
    (hpush : ∀ sync b, a ∈ (push sync b).arrays ↔ a ∈ arrays b ∨ a ∈ sync.arrays) (l : List β) :
    a ∈ (l.foldl push sync).arrays ↔ (∃ b ∈ l, a ∈ arrays b) ∨ a ∈ sync.arrays := by
  induction l generalizing sync with
  | nil => simp
  | cons b l ih =>
    rw [List.foldl_cons, ih, hpush, List.exists_mem_cons_iff, or_assoc, or_left_comm]

end RegisterSync

/-- The array that an operation of an expression loads from. -/
def Op.registerArray : Op → Option ℕ
  | .loadRegisterRef array _ => some array
  | .loadRegisterGen array => some array
  | _ => none

/-- `Expression::grab_register_accesses`. -/
def grabRegisterAccesses : List Op → RegisterSync → RegisterSync
  | [], sync => sync
  | op :: ops, sync =>
    match op.registerArray with
    | some array => grabRegisterAccesses ops (sync.addRegisterArray array)
    | none => grabRegisterAccesses ops sync

theorem mem_grabRegisterAccesses {ops : List Op} {sync : RegisterSync} {a : ℕ} :
    a ∈ (grabRegisterAccesses ops sync).arrays ↔
      a ∈ ops.filterMap Op.registerArray ∨ a ∈ sync.arrays := by
  induction ops generalizing sync with
  | nil => simp [grabRegisterAccesses]
  | cons op ops ih =>
    unfold grabRegisterAccesses
    cases harray : op.registerArray with
    | none => simpa [harray] using ih
    | some array =>
      rw [ih, RegisterSync.mem_addRegisterArray, List.filterMap_cons_some harray, List.mem_cons]
      tauto

/-- The parameters of a primitive that name register arrays. -/
inductive ActionParam where
  | registerRef (array idx : ℕ)
  | registerGen (array : ℕ) (idx : List Op)
  | registerArray (array : ℕ)
  | expression (ops : List Op)
  | other

namespace ActionParam

/-- The arrays that the parameter gives access to. -/
def arrays : ActionParam → List ℕ
  | .registerRef array _ => [array]
  | .registerGen array idx => array :: idx.filterMap Op.registerArray
  | .registerArray array => [array]
  | .expression ops => ops.filterMap Op.registerArray
  | .other => []

/-- What the `parameter_push_back` functions do to `register_sync`. -/
def pushBack (sync : RegisterSync) : ActionParam → RegisterSync
  | .registerRef array _ => sync.addRegisterArray array
  | .registerGen array idx => (grabRegisterAccesses idx sync).addRegisterArray array
  | .registerArray array => sync.addRegisterArray array
  | .expression ops => grabRegisterAccesses ops sync
  | .other => sync

theorem mem_pushBack {sync : RegisterSync} {p : ActionParam} {a : ℕ} :
    a ∈ (pushBack sync p).arrays ↔ a ∈ p.arrays ∨ a ∈ sync.arrays := by
  cases p with
  | registerRef array idx => simp [pushBack, arrays, RegisterSync.mem_addRegisterArray]
  | registerGen array idx =>
    simp [pushBack, arrays, RegisterSync.mem_addRegisterArray, mem_grabRegisterAccesses, or_assoc]
  | registerArray array => simp [pushBack, arrays, RegisterSync.mem_addRegisterArray]
  | expression ops => simp [pushBack, arrays, mem_grabRegisterAccesses]
  | other => simp [pushBack, arrays]

end ActionParam

/-- One access to a register array. `π` is what the thread has for itself: the packet. -/
structure RegisterAccess (π : Type) where
  array : ℕ
  effect : π → List ℤ → π × List ℤ

/-- The registers of all arrays. -/
abbrev Registers := ℕ → List ℤ

namespace RegisterAccess

variable {π : Type}

def exec (acc : RegisterAccess π) (x : π × Registers) : π × Registers :=
  let (pkt, values) := acc.effect x.1 (x.2 acc.array)
  (pkt, Function.update x.2 acc.array values)

/-- The accesses one after the other, as if there were no other thread. -/
def execAll (accs : List (RegisterAccess π)) (x : π × Registers) : π × Registers :=
  accs.foldl (fun x acc => acc.exec x) x

theorem execAll_concat (accs : List (RegisterAccess π)) (acc : RegisterAccess π)
    (x : π × Registers) : execAll (accs ++ [acc]) x = acc.exec (execAll accs x) := by
  unfold execAll
  rw [List.foldl_append]
  rfl

end RegisterAccess

/-- A primitive with its parameters. It only reaches arrays that a parameter refers to. -/
structure RegisterPrimitive (π : Type) where
  params : List ActionParam
  accesses : List (RegisterAccess π)
  reached : ∀ acc ∈ accesses, ∃ p ∈ params, acc.array ∈ p.arrays

/-- `ActionFn`: its primitives, executed one after the other. -/
structure ActionFn (π : Type) where
  primitives : List (RegisterPrimitive π)

/-- An operation of a parse state. The expression of a `set` reads registers. -/
structure RegisterParserOp (π : Type) where
  expr : List Op
  accesses : List (RegisterAccess π)
  reached : ∀ acc ∈ accesses, acc.array ∈ expr.filterMap Op.registerArray

/-- What locks registers and then runs: the locks, and the accesses that it makes. -/
structure RegisterUser (π : Type) where
  registerSync : RegisterSync
  accesses : List (RegisterAccess π)
  synced : ∀ acc ∈ accesses, acc.array ∈ registerSync.arrays

variable {π : Type}

/-- An action holds locks for all the registers it reads or writes. -/
def ActionFn.user (fn : ActionFn π) : RegisterUser π where
  registerSync := (fn.primitives.flatMap RegisterPrimitive.params).foldl ActionParam.pushBack {}
  accesses := fn.primitives.flatMap RegisterPrimitive.accesses
  synced acc hacc := by
    obtain ⟨prim, hprim, hacc⟩ := List.mem_flatMap.mp hacc
    obtain ⟨p, hp, ha⟩ := prim.reached acc hacc
    exact (RegisterSync.mem_foldl {} ActionParam.pushBack ActionParam.arrays
      (fun _ _ => ActionParam.mem_pushBack) _).mpr
      (.inl ⟨p, List.mem_flatMap.mpr ⟨prim, hprim, hp⟩, ha⟩)

/-- A parse state holds locks for all the registers that its operations read. -/
def parseStateUser (parserOps : List (RegisterParserOp π)) : RegisterUser π where
  registerSync := (parserOps.map RegisterParserOp.expr).foldl
    (fun sync expr => grabRegisterAccesses expr sync) {}
  accesses := parserOps.flatMap RegisterParserOp.accesses
  synced acc hacc := by
    obtain ⟨op, hop, hacc⟩ := List.mem_flatMap.mp hacc
    exact (RegisterSync.mem_foldl {} _ (List.filterMap Op.registerArray)
      (fun _ _ => mem_grabRegisterAccesses) _).mpr
        (.inl ⟨op.expr, List.mem_map_of_mem hop, op.reached acc hacc⟩)

end Bmv2
