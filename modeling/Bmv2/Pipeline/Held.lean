import Bmv2.Pipeline.Writes

/-! The entry whose action a packet runs stays in its table until the action is done: calls that
would change or remove it wait for the lock. -/
namespace Bmv2

/-- What the lookup of a packet ends at: an entry, a member of an entry, a default or nothing. -/
inductive Found where
  | entry (handle : ℕ)
  | default
  | member (handle mbr : ℕ)
  | defaultMember (mbr : ℕ)
  | nothing
  deriving DecidableEq

namespace Found

/-- The handle of the entry that is hit. -/
def handle? : Found → Option ℕ
  | .entry handle => some handle
  | .member handle _ => some handle
  | _ => none

end Found

section Has

variable {K S : Type} [MatchKey K]

/-- The table has what was found, with this action and this way on. -/
inductive MatchTable.Has (t : MatchTable K S) : Found → ActionEntry → Option ℕ → Prop
  | entry {i : ℕ} {e : Entry K ActionEntry} (h : t.matchUnit.Live i e) :
      Has t (.entry (handleSet (MatchKey.version e.key) i)) e.value e.value.nextNode
  | default : Has t .default t.defaultEntry t.base.nextNodeMiss

/-- The same with members; `resolve` gets to them from the index of an entry. -/
inductive MatchTableIndirect.Has (resolve : IndirectIndex → Option ℕ)
    (t : MatchTableIndirect K S) : Found → ActionEntry → Option ℕ → Prop
  | member {i mbr : ℕ} {e : Entry K IndirectIndex} {action : ActionEntry}
      (he : t.matchUnit.entries[i]? = some e) (hindex : resolve e.value = some mbr)
      (hmbr : t.isValidMbr mbr) (h : t.actionEntries[mbr]? = some action) :
      Has resolve t (.member (handleSet (MatchKey.version e.key) i) mbr) action action.nextNode
  | defaultMember {mbr : ℕ} {action : ActionEntry} (hset : t.defaultSet = true)
      (hindex : resolve t.defaultIndex = some mbr) (hmbr : t.isValidMbr mbr)
      (h : t.actionEntries[mbr]? = some action) :
      Has resolve t (.defaultMember mbr) action t.base.nextNodeMiss
  | nothing (hset : t.defaultSet = false) : Has resolve t .nothing {} t.base.nextNodeMiss

/-- The member found is that of the entry hit, or of the default. -/
theorem MatchTableIndirect.has_of_actionOf {t : MatchTableIndirect K S}
    {L : LookupStructure K S} (resolve : IndirectIndex → Option ℕ) {key : List ByteBits.Byte}
    {res : Option (ℕ × IndirectIndex)} {action : ActionEntry}
    (hres : t.matchUnit.lookupKey L key = some res)
    (ha : (if res.isNone && !t.defaultSet then some {} else do
      let mbr ← resolve ((res.map Prod.snd).getD t.defaultIndex)
      if t.isValidMbr mbr then t.actionEntries[mbr]? else none) = some action) :
    ∃ found : Found, found.handle? = res.map Prod.fst ∧ t.Has resolve found action
      (if (res.map Prod.fst).isSome then action.nextNode else t.base.nextNodeMiss) := by
  cases res with
  | none =>
    cases hset : t.defaultSet with
    | false =>
      obtain rfl : ({} : ActionEntry) = action := by simpa [hset] using ha
      exact ⟨.nothing, rfl, .nothing hset⟩
    | true =>
      obtain ⟨mbr, hindex, ha⟩ := Option.bind_eq_some_iff.mp (by simpa [hset] using ha)
      split_ifs at ha with hmbr
      exact ⟨.defaultMember mbr, rfl, .defaultMember hset hindex hmbr ha⟩
  | some hit =>
    obtain ⟨i, e, -, he, hhandle, hvalue⟩ := MatchUnit.lookupKey_slot hres
    obtain ⟨mbr, hindex, ha⟩ := Option.bind_eq_some_iff.mp ha
    split_ifs at ha with hmbr
    refine ⟨.member hit.1 mbr, rfl, ?_⟩
    rw [hhandle]
    exact .member he (hvalue ▸ hindex) hmbr ha

end Has

namespace AnyTable

variable {K S : Type}

/-- The table with other metadata and meters of its entries. -/
def withMeta (entryMeta : List EntryMeta) (directMeters : Option (List Meter)) :
    AnyTable K S → AnyTable K S
  | .simple t => .simple { t with matchUnit := { t.matchUnit with entryMeta, directMeters } }
  | .indirect t => .indirect { t with matchUnit := { t.matchUnit with entryMeta, directMeters } }
  | .indirectWs t =>
    .indirectWs { t with matchUnit := { t.matchUnit with entryMeta, directMeters } }

variable [MatchKey K] {L : LookupStructure K S} {C : ClearLookup L}
variable {c : TableConfig} {t t' : AnyTable K S} {action : ActionEntry} {next : Option ℕ}

/-- What was found is in the table; in a group, the hash of the packet picks the member. -/
def Has (hash : Option ℕ) : AnyTable K S → Found → ActionEntry → Option ℕ → Prop
  | .simple t => t.Has
  | .indirect t => t.Has IndirectIndex.getMbr
  | .indirectWs t => t.toMatchTableIndirect.Has (t.resolve · hash)

theorem Has.withMeta {hash : Option ℕ} {found : Found} (h : t.Has hash found action next)
    (entryMeta : List EntryMeta) (directMeters : Option (List Meter)) :
    (t.withMeta entryMeta directMeters).Has hash found action next := by
  cases t with
  | simple t =>
    cases h with
    | entry h => exact .entry h
    | default => exact .default
  | indirect t | indirectWs t =>
    cases h with
    | member he hindex hmbr h => exact .member he hindex hmbr h
    | defaultMember hset hindex hmbr h => exact .defaultMember hset hindex hmbr h
    | nothing hset => exact .nothing hset

omit [MatchKey K] in
theorem withMeta_self (t : AnyTable K S) : ∃ entryMeta directMeters,
    t = t.withMeta entryMeta directMeters := by
  cases t with
  | simple t => exact ⟨t.matchUnit.entryMeta, t.matchUnit.directMeters, rfl⟩
  | indirect t => exact ⟨t.matchUnit.entryMeta, t.matchUnit.directMeters, rfl⟩
  | indirectWs t => exact ⟨t.matchUnit.entryMeta, t.matchUnit.directMeters, rfl⟩

/-- A packet leaves the entries alone. -/
theorem applyAction_withMeta {pkt : Packet} {hash : Option ℕ} {micros : ℕ} {a : Applied}
    (hs : t.applyAction L pkt hash micros = some (a, t')) :
    ∃ entryMeta directMeters, t' = t.withMeta entryMeta directMeters := by
  cases t with
  | simple t =>
    obtain ⟨⟨a', t₁⟩, h', he⟩ := Option.map_eq_some_iff.mp hs
    obtain ⟨-, rfl⟩ := Prod.mk.inj he
    obtain ⟨res, u, u', hl, hf, rfl⟩ := MatchTable.applyAction_cases h'
    obtain ⟨entryMeta, directMeters, -, rfl⟩ := MatchUnit.lookup_frame hl hf
    exact ⟨entryMeta, directMeters, rfl⟩
  | indirect t =>
    obtain ⟨⟨a', t₁⟩, h', he⟩ := Option.map_eq_some_iff.mp hs
    obtain ⟨-, rfl⟩ := Prod.mk.inj he
    obtain ⟨res, u, action, u', hl, -, hf, rfl⟩ := MatchTableIndirect.applyAction_cases h'
    obtain ⟨entryMeta, directMeters, -, rfl⟩ := MatchUnit.lookup_frame hl hf
    exact ⟨entryMeta, directMeters, rfl⟩
  | indirectWs t =>
    obtain ⟨⟨a', t₁⟩, h', he⟩ := Option.map_eq_some_iff.mp hs
    obtain ⟨-, rfl⟩ := Prod.mk.inj he
    obtain ⟨res, u, action, u', hl, -, hf, rfl⟩ := MatchTableIndirectWS.applyAction_cases h'
    obtain ⟨entryMeta, directMeters, -, rfl⟩ := MatchUnit.lookup_frame hl hf
    exact ⟨entryMeta, directMeters, rfl⟩

/-- A call on a simple table that does not take the write lock. -/
theorem simple_withMeta {t t' : MatchTable K S} {op : MatchTable.Op} {r : Result TableReply}
    (hop : (TableCall.simple op).exclusive = false) (hs : t.step L op = some (r, t')) :
    ∃ entryMeta directMeters,
      AnyTable.simple t' = (AnyTable.simple t).withMeta entryMeta directMeters := by
  cases op with
  | addEntry | deleteEntry | modifyEntry | setDefaultAction =>
    exact absurd hop (by simp [TableCall.exclusive])
  | getValue handle | getEntry handle =>
    obtain ⟨_, -, he⟩ := Option.map_eq_some_iff.mp hs
    obtain rfl : t = t' := congrArg Prod.snd he
    exact withMeta_self _
  | base op =>
    obtain ⟨⟨r', u⟩, h', he⟩ := Option.map_eq_some_iff.mp hs
    obtain rfl := congrArg Prod.snd he
    obtain ⟨entryMeta, directMeters, -, rfl⟩ := MatchTableAbstract.step_cases h'
    exact ⟨entryMeta, directMeters, rfl⟩

theorem indirect_frame {t t' : MatchTableIndirect K S} {op : MatchTableIndirect.Op}
    {r : Result TableReply} (hop : TableCall.indirectExclusive op = false)
    (hs : t.step L op = some (r, t')) : ∃ entryMeta directMeters,
      t' = { t with matchUnit := { t.matchUnit with entryMeta, directMeters } } := by
  cases MatchTableIndirect.steps_of_step hs with
  | addMember | deleteMember | modifyMember | addRefused | addEntry | deleteEntry | modifyEntry
  | defaultRefused | setDefaultMember => exact absurd hop (by simp [TableCall.indirectExclusive])
  | getValue | getEntry | getMember => exact ⟨_, _, rfl⟩
  | base h' =>
    obtain ⟨entryMeta, directMeters, -, rfl⟩ := MatchTableAbstract.step_cases h'
    exact ⟨entryMeta, directMeters, rfl⟩

theorem indirectWs_frame {t t' : MatchTableIndirectWS K S} {op : MatchTableIndirectWS.Op}
    {r : Result TableReply} (hop : (TableCall.indirectWs op).exclusive = false)
    (hs : t.step L op = some (r, t')) : ∃ entryMeta directMeters,
      t' = { t with matchUnit := { t.matchUnit with entryMeta, directMeters } } := by
  cases MatchTableIndirectWS.steps_of_step hs with
  | indirect h' =>
    obtain ⟨entryMeta, directMeters, rfl⟩ := indirect_frame hop h'
    exact ⟨entryMeta, directMeters, rfl⟩
  | createGroup | deleteGroup | addMemberToGroup | removeMemberFromGroup | addRefused | addEntryWs
  | modifyEntryWs | defaultRefused | setDefaultGroup =>
    exact absurd hop (by simp [TableCall.exclusive])
  | getEntry | getGroup | getNumMembersInGroup => exact ⟨_, _, rfl⟩

/-- Whatever does not take the write lock leaves the entries alone. -/
theorem act_withMeta {op : TableOp TableCall} {o : Observation} (hop : op.exclusive = false)
    (hs : t.act L op = some (o, t')) :
    ∃ entryMeta directMeters, t' = t.withMeta entryMeta directMeters := by
  cases op with
  | call op =>
    cases t with
    | simple t =>
      cases op with
      | simple op =>
        obtain ⟨⟨o', t₁⟩, h', he⟩ := Option.map_eq_some_iff.mp hs
        obtain rfl := congrArg Prod.snd he
        obtain ⟨⟨r, t₂⟩, h₂, he₂⟩ := Option.map_eq_some_iff.mp h'
        obtain rfl := congrArg Prod.snd he₂
        exact simple_withMeta hop h₂
      | indirect op | indirectWs op =>
        obtain rfl := congrArg Prod.snd (Option.some.inj hs)
        exact withMeta_self _
    | indirect t =>
      cases op with
      | indirect op =>
        obtain ⟨⟨o', t₁⟩, h', he⟩ := Option.map_eq_some_iff.mp hs
        obtain rfl := congrArg Prod.snd he
        obtain ⟨⟨r, t₂⟩, h₂, he₂⟩ := Option.map_eq_some_iff.mp h'
        obtain rfl := congrArg Prod.snd he₂
        obtain ⟨entryMeta, directMeters, rfl⟩ := indirect_frame hop h₂
        exact ⟨entryMeta, directMeters, rfl⟩
      | simple op | indirectWs op =>
        obtain rfl := congrArg Prod.snd (Option.some.inj hs)
        exact withMeta_self _
    | indirectWs t =>
      cases op with
      | simple op =>
        obtain rfl := congrArg Prod.snd (Option.some.inj hs)
        exact withMeta_self _
      | indirect op =>
        have hshared : (TableCall.indirectWs (.indirect op)).exclusive = false := hop
        obtain ⟨⟨o', t₁⟩, h', he⟩ := Option.map_eq_some_iff.mp hs
        obtain rfl := congrArg Prod.snd he
        obtain ⟨⟨r, t₂⟩, h₂, he₂⟩ := Option.map_eq_some_iff.mp h'
        obtain rfl := congrArg Prod.snd he₂
        obtain ⟨entryMeta, directMeters, rfl⟩ := indirectWs_frame hshared h₂
        exact ⟨entryMeta, directMeters, rfl⟩
      | indirectWs op =>
        obtain ⟨⟨o', t₁⟩, h', he⟩ := Option.map_eq_some_iff.mp hs
        obtain rfl := congrArg Prod.snd he
        obtain ⟨⟨r, t₂⟩, h₂, he₂⟩ := Option.map_eq_some_iff.mp h'
        obtain rfl := congrArg Prod.snd he₂
        obtain ⟨entryMeta, directMeters, rfl⟩ := indirectWs_frame hop h₂
        exact ⟨entryMeta, directMeters, rfl⟩
  | packet pkt hash micros =>
    obtain ⟨⟨a, t₁⟩, h', he⟩ := Option.map_eq_some_iff.mp hs
    obtain rfl := congrArg Prod.snd he
    exact applyAction_withMeta h'
  | sweep nowMs =>
    cases t
    all_goals
      obtain ⟨⟨o', t₁⟩, h', he⟩ := Option.map_eq_some_iff.mp hs
      obtain rfl := congrArg Prod.snd he
      obtain ⟨_, -, he'⟩ := Option.map_eq_some_iff.mp h'
      obtain rfl := congrArg Prod.snd he'
      exact withMeta_self _
  | reset => exact absurd hop (by simp [TableOp.exclusive])

/-- What a packet runs in a table is the action of what it has found there. -/
theorem has_of_applyAction (h : t.Serves C c) {pkt : Packet} {hash : Option ℕ} {micros : ℕ}
    {a : Applied} (hs : t.applyAction L pkt hash micros = some (a, t')) :
    ∃ found : Found, found.handle? = a.handle ∧ t.Has hash found a.action a.nextNode := by
  cases t with
  | simple t =>
    obtain ⟨⟨a', t₁⟩, h', he⟩ := Option.map_eq_some_iff.mp hs
    obtain rfl := congrArg Prod.fst he
    obtain ⟨res, u, u', hl, hf, -⟩ := MatchTable.applyAction_cases h'
    obtain ⟨color, -, rfl⟩ := MatchTableAbstract.finishApply_cases hf
    cases res with
    | none => exact ⟨.default, rfl, MatchTable.Has.default⟩
    | some hit =>
      obtain ⟨key, -, hkey, -⟩ := MatchUnit.lookup_cases hl
      obtain ⟨i, e, hlive, hhandle, hvalue⟩ := h.unit.sound.hit hkey
      refine ⟨.entry hit.1, rfl, ?_⟩
      rw [hhandle]
      have hhas := MatchTable.Has.entry hlive
      rwa [hvalue] at hhas
  | indirect t =>
    obtain ⟨⟨a', t₁⟩, h', he⟩ := Option.map_eq_some_iff.mp hs
    obtain rfl := congrArg Prod.fst he
    obtain ⟨res, u, action, u', hl, ha, hf, -⟩ := MatchTableIndirect.applyAction_cases h'
    obtain ⟨color, -, rfl⟩ := MatchTableAbstract.finishApply_cases hf
    obtain ⟨key, -, hkey, -⟩ := MatchUnit.lookup_cases hl
    exact MatchTableIndirect.has_of_actionOf IndirectIndex.getMbr hkey ha
  | indirectWs t =>
    obtain ⟨⟨a', t₁⟩, h', he⟩ := Option.map_eq_some_iff.mp hs
    obtain rfl := congrArg Prod.fst he
    obtain ⟨res, u, action, u', hl, ha, hf, -⟩ := MatchTableIndirectWS.applyAction_cases h'
    obtain ⟨color, -, rfl⟩ := MatchTableAbstract.finishApply_cases hf
    obtain ⟨key, -, hkey, -⟩ := MatchUnit.lookup_cases hl
    exact MatchTableIndirect.has_of_actionOf (t.resolve · hash) hkey ha

end AnyTable

namespace PipelineConfig

variable {ι : Type} [DecidableEq ι] {K S : ι → Type} [∀ i, MatchKey (K i)]
variable {cast : BignumCast} {c : PipelineConfig ι} {L : ∀ i, LookupStructure (K i) (S i)}
variable {C : ∀ i, ClearLookup (L i)} {s s' : PipelineState ι K S}

/-- A packet in the action `a` of what it has found in the table `i`, which the table still has
with the action, the data and the way on that the packet uses. -/
structure EntryHeld (c : PipelineConfig ι) (i : ι) (hash : Option ℕ) (found : Found) (a : Applied)
    (s : PipelineState ι K S) : Prop where
  has : (s.tables i).Has hash found a.action a.nextNode
  running : ∃ done todo, a.action.actionFn.elim (some []) (c.actions[·]?) = some (done ++ todo) ∧
    s.control = .action i a.action.actionData todo a.nextNode

/-- The packet does not leave its action. -/
def Stays (s : PipelineState ι K S) (op : PipelineOp ι) : Prop :=
  op.isAdvance = true → s.control.todo ≠ []

/-- Going into a table, the packet finds something that it has from then on. -/
theorem EntryHeld.enter (hserved : c.Served C s) {micros random n : ℕ} {i : ι}
    (hnode : c.nodes[n]? = some (.table i))
    (hs : c.step cast L s (.advance micros random) = some (some n, s')) :
    ∃ hash a t found, (s.tables i).applyAction (L i) (current s) hash micros = some (a, t) ∧
      Found.handle? found = a.handle ∧ (s.tables i).Has hash found a.action a.nextNode ∧
      c.EntryHeld i hash found a s' := by
  have hs : c.advance cast L s micros random = some (some n, s') := hs
  unfold advance at hs
  split at hs
  · cases hs
  · rename_i m hcontrol
    split_ifs at hs
    · cases hs
    obtain ⟨node, hm, hs⟩ := Option.bind_eq_some_iff.mp hs
    have hmn : m = n := by
      cases node with
      | table j | conditional =>
        obtain ⟨next, -, hs⟩ := Option.bind_eq_some_iff.mp hs
        exact Option.some.inj (congrArg Prod.fst (Option.some.inj hs))
    rw [hmn, hnode] at hm
    obtain rfl := Option.some.inj hm
    obtain ⟨next, hnext, hs⟩ := Option.bind_eq_some_iff.mp hs
    obtain rfl := congrArg Prod.snd (Option.some.inj hs)
    obtain ⟨hash, -, hnext⟩ := Option.bind_eq_some_iff.mp hnext
    obtain ⟨⟨a, t⟩, happly, hnext⟩ := Option.bind_eq_some_iff.mp hnext
    obtain ⟨colored, -, hnext⟩ := Option.bind_eq_some_iff.mp hnext
    obtain ⟨body, hbody, hnext⟩ := Option.bind_eq_some_iff.mp hnext
    obtain rfl := Option.some.inj hnext
    obtain ⟨found, hhandle, hhas⟩ := AnyTable.has_of_applyAction (hserved i) happly
    obtain ⟨entryMeta, directMeters, rfl⟩ := AnyTable.applyAction_withMeta happly
    refine ⟨hash, a, _, found, happly, hhandle, hhas, ?_, [], body, hbody, rfl⟩
    dsimp only
    rw [Function.update_self]
    exact hhas.withMeta entryMeta directMeters
  · cases hs
  · obtain ⟨result, -, hs⟩ := Option.bind_eq_some_iff.mp hs
    cases hs

/-- Nobody takes it away before the packet leaves the action. -/
theorem EntryHeld.step {i : ι} {hash : Option ℕ} {found : Found} {a : Applied}
    (h : c.EntryHeld i hash found a s) {op : PipelineOp ι} (hop : Stays s op) {r : Option ℕ}
    (hs : c.step cast L s op = some (r, s')) : c.EntryHeld i hash found a s' := by
  obtain ⟨done, todo, hbody, hcontrol⟩ := h.running
  cases op with
  | advance micros random =>
    cases advances_of_advance hs with
    | exit hnode | table hnode | conditional hnode =>
      rw [hcontrol] at hnode
      cases hnode
    | leave hleave =>
      exact absurd (by rw [hleave]; rfl) (hop rfl)
    | @primitive j actionData prim todo' next env result hprim hexec =>
      rw [hcontrol] at hprim
      obtain ⟨rfl, rfl, rfl, rfl⟩ := PipelineControl.action.inj hprim
      refine ⟨h.has, done ++ [prim], todo', ?_, rfl⟩
      rw [hbody, List.append_assoc]
      rfl
  | table j op =>
    simp only [PipelineConfig.step] at hs
    split_ifs at hs with hok
    obtain ⟨⟨o, t⟩, hact, hs⟩ := Option.bind_eq_some_iff.mp hs
    obtain rfl := congrArg Prod.snd (Option.some.inj hs)
    refine ⟨?_, done, todo, hbody, hcontrol⟩
    dsimp only
    by_cases hij : i = j
    · subst hij
      have hheld : heldBy s i = true := by
        unfold heldBy
        rw [hcontrol]
        simp
      have hshared : op.exclusive = false := by
        simpa [hheld] using hok.2
      obtain ⟨entryMeta, directMeters, rfl⟩ := AnyTable.act_withMeta hshared hact
      rw [Function.update_self]
      exact h.has.withMeta entryMeta directMeters
    · rw [Function.update_of_ne hij]
      exact h.has
  | objects objects =>
    obtain rfl := congrArg Prod.snd (Option.some.inj hs)
    exact ⟨h.has, done, todo, hbody, hcontrol⟩

end PipelineConfig

instance {ι : Type} {K S : ι → Type} (s : PipelineState ι K S) (op : PipelineOp ι) :
    Decidable (PipelineConfig.Stays s op) := by
  unfold PipelineConfig.Stays
  infer_instance

end Bmv2
