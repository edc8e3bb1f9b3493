import Bmv2.Lib.Transition
import Bmv2.Match.UnitSpec

/-! Consistency of the match store: handle set, entry vector and lookup structure describe
one table in every state of every run. -/
namespace Bmv2
open ByteBits

/-- The contract of a lookup structure: a finite map from keys, identified without their
version, to handles. The unit only inserts absent keys under unused handles. -/
structure LookupContract {K S : Type} [MatchKey K] (L : LookupStructure K S) (size : ℕ) where
  Ident : Type
  ident : K → Ident
  Inv : S → Prop
  map : S → Ident → Option ℕ
  ident_setVersion : ∀ k v, ident (MatchKey.setVersion k v) = ident k
  entryExists : ∀ {s} k, Inv s → L.entryExists s k = some (map s (ident k)).isSome
  addEntry : ∀ {s} k h, Inv s → map s (ident k) = none → (∀ x, map s x ≠ some h) → h < size →
    ∃ s', L.addEntry s k h = some s' ∧ Inv s' ∧ map s' (ident k) = some h ∧
      ∀ x, x ≠ ident k → map s' x = map s x
  deleteEntry : ∀ {s} k, Inv s → map s (ident k) ≠ none →
    ∃ s', L.deleteEntry s k = some s' ∧ Inv s' ∧ map s' (ident k) = none ∧
      ∀ x, x ≠ ident k → map s' x = map s x
  clear : ∀ {s}, Inv s → ∃ s', L.clear s = some s' ∧ Inv s' ∧ ∀ x, map s' x = none
  lookup : ∀ {s} data, Inv s → ∃ r, L.lookup s data = some r ∧
    ∀ h, r = some h → ∃ x, map s x = some h

namespace MatchUnit

variable {K V S : Type} [MatchKey K] {L : LookupStructure K S}

inductive Op (V : Type) where
  | addEntry (now : ℕ) (params : List MatchKeyParam) (value : V) (priority : ℤ)
  | deleteEntry (handle : ℕ)
  | modifyEntry (handle : ℕ) (value : V)
  | getValue (handle : ℕ)
  | getEntry (handle : ℕ)
  | resetState

/-- What a successful call hands back. -/
inductive Reply (V : Type) where
  | done
  | handle (h : ℕ)
  | value (v : V)
  | entry (params : List MatchKeyParam) (v : V) (priority : ℤ)

/-- One call on the unit. -/
def step [Inhabited V] (L : LookupStructure K S) (u : MatchUnit K V S) :
    Op V → Option (Result (Reply V) × MatchUnit K V S)
  | .addEntry now params value priority =>
    (u.addEntry L now params value priority).map fun (r, u) => (r.map .handle, u)
  | .deleteEntry handle => (u.deleteEntry L handle).map fun (r, u) => (r.map fun _ => .done, u)
  | .modifyEntry handle value =>
    (u.modifyEntry handle value).map fun (r, u) => (r.map fun _ => .done, u)
  | .getValue handle => (u.getValue handle).map fun r => (r.map .value, u)
  | .getEntry handle => (u.getEntry handle).map fun r => (r.map fun (p, v, n) => .entry p v n, u)
  | .resetState => (u.resetState L).map fun u => (.ok .done, u)

/-- A step is one of the unit's calls; the two reads leave the state as it is. -/
theorem step_cases [Inhabited V] {u u' : MatchUnit K V S} {op : Op V} {r : Result (Reply V)}
    (hs : step L u op = some (r, u')) :
    (∃ now params value priority r', op = .addEntry now params value priority ∧
      r = r'.map .handle ∧ u.addEntry L now params value priority = some (r', u')) ∨
    (∃ handle r', op = .deleteEntry handle ∧ r = r'.map (fun _ => .done) ∧
      u.deleteEntry L handle = some (r', u')) ∨
    (∃ handle value r', op = .modifyEntry handle value ∧ r = r'.map (fun _ => .done) ∧
      u.modifyEntry handle value = some (r', u')) ∨
    u' = u ∨
    (op = .resetState ∧ r = .ok .done ∧ u.resetState L = some u') := by
  cases op with
  | addEntry now params value priority =>
    obtain ⟨⟨r', u''⟩, h', he⟩ := Option.map_eq_some_iff.mp hs
    obtain ⟨rfl, rfl⟩ := Prod.mk.inj he
    exact .inl ⟨_, _, _, _, r', rfl, rfl, h'⟩
  | deleteEntry handle =>
    obtain ⟨⟨r', u''⟩, h', he⟩ := Option.map_eq_some_iff.mp hs
    obtain ⟨rfl, rfl⟩ := Prod.mk.inj he
    exact .inr (.inl ⟨_, r', rfl, rfl, h'⟩)
  | modifyEntry handle value =>
    obtain ⟨⟨r', u''⟩, h', he⟩ := Option.map_eq_some_iff.mp hs
    obtain ⟨rfl, rfl⟩ := Prod.mk.inj he
    exact .inr (.inr (.inl ⟨_, _, r', rfl, rfl, h'⟩))
  | getValue handle =>
    obtain ⟨_, -, he⟩ := Option.map_eq_some_iff.mp hs
    exact .inr (.inr (.inr (.inl (congrArg Prod.snd he).symm)))
  | getEntry handle =>
    obtain ⟨_, -, he⟩ := Option.map_eq_some_iff.mp hs
    exact .inr (.inr (.inr (.inl (congrArg Prod.snd he).symm)))
  | resetState =>
    obtain ⟨u'', h', he⟩ := Option.map_eq_some_iff.mp hs
    obtain ⟨rfl, rfl⟩ := Prod.mk.inj he
    exact .inr (.inr (.inr (.inr ⟨rfl, rfl, h'⟩)))

/-- The lookup structure holds exactly the keys of the slots in use, each under its slot. -/
structure Consistent {size : ℕ} (C : LookupContract L size) (u : MatchUnit K V S) : Prop where
  wf : u.Wf
  size_eq : u.size = size
  inv : C.Inv u.lookupStructure
  map_iff : ∀ x i, C.map u.lookupStructure x = some i ↔
    i ∈ u.handles.handles ∧ ∃ e, u.entries[i]? = some e ∧ C.ident e.key = x

namespace Consistent

variable {size : ℕ} {C : LookupContract L size} {u u' : MatchUnit K V S}

theorem create [Inhabited V] (hsize : size ≤ 2 ^ 32) (kb : MatchKeyBuilder) {ls : S}
    (hinv : C.Inv ls)
    (hempty : ∀ x, C.map ls x = none) :
    Consistent C (MatchUnit.create size kb ls : MatchUnit K V S) := by
  refine ⟨Wf.create hsize kb ls, rfl, hinv, fun x i => ?_⟩
  simp [MatchUnit.create, hempty]

theorem addEntry (h : Consistent C u) {now : ℕ} {params : List MatchKeyParam} {value : V}
    {priority : ℤ} {r : Result ℕ} (hs : u.addEntry L now params value priority = some (r, u')) :
    Consistent C u' := by
  rcases addEntry_cases h.wf hs with ⟨_, -, rfl, -⟩ |
    ⟨key, old, ls, m, -, -, hdup, -, hlt, hold, hls, -, -, rfl⟩
  · exact h
  · set i := u.handles.firstEmpty with hi
    have hfree : i ∉ u.handles.handles := u.handles.firstEmpty_notMem
    have habsent : C.map u.lookupStructure (C.ident key) = none := by
      rw [C.entryExists key h.inv, Option.some.injEq] at hdup
      exact Option.isNone_iff_eq_none.mp (by simpa using hdup)
    have hunused : ∀ x, C.map u.lookupStructure x ≠ some i :=
      fun x hx => hfree ((h.map_iff x i).mp hx).1
    obtain ⟨s', hs', hinv', hnew, hother⟩ :=
      C.addEntry key i h.inv habsent hunused (h.size_eq ▸ hlt)
    obtain rfl : s' = ls := by simpa [hs'] using hls
    refine ⟨h.wf.installed hlt hfree ?_, h.size_eq, hinv', fun x j => ?_⟩
    · rw [MatchKey.version_setVersion]
      exact h.wf.version_lt old (List.mem_of_getElem? hold)
    · have hlen : i < u.entries.length := by rw [h.wf.length_entries]; exact hlt
      simp only [installed, Finset.mem_insert, List.getElem?_set]
      by_cases hji : j = i
      · subst hji
        simp only [true_or, ↓reduceIte, hlen, Option.some.injEq, exists_eq_left', true_and,
          C.ident_setVersion]
        constructor
        · intro hx
          by_contra hne
          rw [hother x (Ne.symm hne)] at hx
          exact hunused x hx
        · rintro rfl
          exact hnew
      · simp only [hji, false_or, Ne.symm hji, ↓reduceIte]
        by_cases hx : x = C.ident key
        · subst hx
          rw [hnew]
          constructor
          · intro he
            exact absurd (by simpa using he.symm) hji
          · rintro hj
            have := (h.map_iff (C.ident key) j).mpr hj
            rw [habsent] at this
            exact absurd this (by simp)
        · rw [hother x hx]
          exact h.map_iff x j

theorem deleteEntry (h : Consistent C u) {handle : ℕ} {r : Result Unit}
    (hs : u.deleteEntry L handle = some (r, u')) : Consistent C u' := by
  rcases deleteEntry_cases hs with ⟨_, -, rfl, -⟩ | ⟨e, ls, hc, hls, -, rfl⟩
  · exact h
  · obtain ⟨hmem, he, -⟩ := checkHandle_ok_iff.mp hc
    set i := handleInternal handle
    have hident : C.ident (bumped e.key) = C.ident e.key := C.ident_setVersion _ _
    have hmap : C.map u.lookupStructure (C.ident e.key) = some i :=
      (h.map_iff _ _).mpr ⟨hmem, e, he, rfl⟩
    obtain ⟨s', hs', hinv', hgone, hother⟩ :=
      C.deleteEntry (bumped e.key) h.inv (by rw [hident, hmap]; simp)
    obtain rfl : s' = ls := by simpa [hs'] using hls
    rw [hident] at hgone hother
    refine ⟨h.wf.removed hmem, h.size_eq, hinv', fun x j => ?_⟩
    simp only [removed, Finset.mem_erase, List.getElem?_set]
    by_cases hx : x = C.ident e.key
    · subst hx
      simp only [hgone, reduceCtorEq, false_iff]
      rintro ⟨⟨hji, hj⟩, e', he', hid⟩
      rw [if_neg (Ne.symm hji)] at he'
      have := (h.map_iff _ _).mpr ⟨hj, e', he', hid⟩
      rw [hmap] at this
      exact hji (by simpa using this.symm)
    · rw [hother x hx]
      by_cases hji : j = i
      · subst hji
        simp only [ne_eq, not_true_eq_false, false_and, iff_false]
        intro hxj
        obtain ⟨-, e', he', hid⟩ := (h.map_iff x i).mp hxj
        rw [he, Option.some.injEq] at he'
        exact hx (by rw [← hid, ← he'])
      · simp only [ne_eq, hji, not_false_eq_true, true_and, Ne.symm hji, ↓reduceIte]
        exact h.map_iff x j

theorem modifyEntry (h : Consistent C u) {handle : ℕ} {value : V} {r : Result Unit}
    (hs : u.modifyEntry handle value = some (r, u')) : Consistent C u' := by
  rcases modifyEntry_cases hs with ⟨_, -, rfl, -⟩ | ⟨e, hc, -, rfl⟩
  · exact h
  · obtain ⟨hmem, he, -⟩ := checkHandle_ok_iff.mp hc
    set i := handleInternal handle
    refine ⟨h.wf.rewritten (h.wf.version_lt e (List.mem_of_getElem? he)), h.size_eq, h.inv,
      fun x j => ?_⟩
    have hlen : i < u.entries.length := by
      rw [h.wf.length_entries]
      exact h.wf.handles_lt i hmem
    rw [show (u.rewritten i { e with value }).lookupStructure = u.lookupStructure from rfl,
      h.map_iff x j]
    simp only [rewritten, List.getElem?_set]
    by_cases hji : j = i
    · subst hji
      simp only [he, hlen, ↓reduceIte, Option.some.injEq, exists_eq_left']
    · simp only [Ne.symm hji, ↓reduceIte]

theorem resetState [Inhabited V] (h : Consistent C u)
    (hs : u.resetState L = some u') : Consistent C u' := by
  obtain ⟨ls, hls, hu⟩ := Option.bind_eq_some_iff.mp hs
  obtain ⟨s', hs', hinv', hempty⟩ := C.clear h.inv
  obtain rfl : s' = ls := by simpa [hs'] using hls
  obtain rfl : _ = u' := by simpa using hu
  have hwf := Wf.create (K := K) (V := V) h.wf.size_le u.matchKeyBuilder s'
  refine ⟨⟨hwf.size_le, hwf.length_entries, hwf.length_entryMeta, hwf.handles_lt,
    hwf.numEntries_eq, hwf.version_lt⟩, h.size_eq, hinv', fun x i => ?_⟩
  simp [hempty, HandleMgr.clear]

/-- One call keeps the store consistent. -/
theorem step [Inhabited V] (h : Consistent C u) {op : Op V} {r : Result (Reply V)}
    (hs : MatchUnit.step L u op = some (r, u')) : Consistent C u' := by
  rcases step_cases hs with ⟨_, _, _, _, _, -, -, h'⟩ | ⟨_, _, -, -, h'⟩ | ⟨_, _, _, -, -, h'⟩ |
    rfl | ⟨-, -, h'⟩
  · exact h.addEntry h'
  · exact h.deleteEntry h'
  · exact h.modifyEntry h'
  · exact h
  · exact h.resetState h'

end Consistent

variable {u u' : MatchUnit K V S}

/-- A call that reports an error leaves the unit as it was. -/
theorem step_error [Inhabited V] (hwf : u.Wf) {op : Op V} {e : MatchErrorCode}
    (hs : step L u op = some (.error e, u')) : u' = u := by
  rcases step_cases hs with ⟨_, _, _, _, r, -, hr, h'⟩ | ⟨_, r, -, hr, h'⟩ | ⟨_, _, r, -, hr, h'⟩ |
    rfl | ⟨-, hr, -⟩
  · rcases addEntry_cases hwf h' with ⟨_, -, hu, -⟩ | ⟨_, _, _, _, -, -, -, -, -, -, -, -, rfl, -⟩
    · exact hu
    · simp [Except.map] at hr
  · rcases deleteEntry_cases h' with ⟨_, -, hu, -⟩ | ⟨_, _, -, -, rfl, -⟩
    · exact hu
    · simp [Except.map] at hr
  · rcases modifyEntry_cases h' with ⟨_, -, hu, -⟩ | ⟨_, -, rfl, -⟩
    · exact hu
    · simp [Except.map] at hr
  · rfl
  · simp at hr

/-- A handle found by a lookup is current: its slot is in use at its version. -/
theorem Consistent.lookupKey {size : ℕ} {C : LookupContract L size} (h : Consistent C u)
    {data : List Byte} {handle : ℕ} {value : V}
    (hl : u.lookupKey L data = some (some (handle, value))) :
    ∃ e, u.checkHandle handle = some (.ok e) ∧ e.value = value := by
  obtain ⟨i, e, hr, he, rfl, rfl⟩ := lookupKey_slot hl
  obtain ⟨r', hr', hstored⟩ := C.lookup data h.inv
  obtain rfl : some i = r' := by simpa [hr] using hr'
  obtain ⟨x, hx⟩ := hstored i rfl
  have hmem := ((h.map_iff x i).mp hx).1
  have hi : i < 2 ^ 32 := lt_of_lt_of_le (h.wf.handles_lt i hmem) h.wf.size_le
  have hver := h.wf.version_lt e (List.mem_of_getElem? he)
  refine ⟨e, checkHandle_ok_iff.mpr ?_, rfl⟩
  rw [handleInternal_handleSet hver hi, handleVersion_handleSet hver hi]
  exact ⟨hmem, he, rfl⟩

/-- The three stores of a match unit agree in every state of every run, a call that reports
an error changes nothing, and what a lookup returns is the entry `get_entry` shows. -/
theorem match_store_consistent [Inhabited V] {size : ℕ} (hsize : size ≤ 2 ^ 32)
    (kb : MatchKeyBuilder)
    (C : LookupContract L size) {ls : S} (hinv : C.Inv ls) (hempty : ∀ x, C.map ls x = none)
    (hrun : Transition.Reach (step L) (fun _ _ => True) (create size kb ls) u) :
    (u.numEntries = u.handles.handles.card ∧ u.numEntries ≤ size ∧
      ∀ i ∈ u.handles.handles, i < size) ∧
    ((∀ x i, C.map u.lookupStructure x = some i ↔
        i ∈ u.handles.handles ∧ ∃ e, u.entries[i]? = some e ∧ C.ident e.key = x) ∧
      ∀ i ∈ u.handles.handles, ∀ j ∈ u.handles.handles, ∀ e e', u.entries[i]? = some e →
        u.entries[j]? = some e' → C.ident e.key = C.ident e'.key → i = j) ∧
    (∀ op code u', step L u op = some (.error code, u') → u' = u) ∧
    (∀ data handle value, u.lookupKey L data = some (some (handle, value)) →
      ∃ e : Entry K V, u.entries[handleInternal handle]? = some e ∧ e.value = value ∧
        u.getEntry handle = (MatchKey.entryToMatchParams u.matchKeyBuilder e.key).map
          fun params => .ok (params, value, MatchKey.getPriority e.key)) := by
  have h : Consistent C u := hrun.invariant (Consistent C) (.create hsize kb hinv hempty)
    fun _ _ _ _ hs _ hstep => hs.step hstep
  refine ⟨⟨h.wf.numEntries_eq, h.size_eq ▸ h.wf.numEntries_le,
    fun i hi => h.size_eq ▸ h.wf.handles_lt i hi⟩, ⟨h.map_iff, ?_⟩,
    fun op code u' hs => step_error h.wf hs, ?_⟩
  · intro i hi j hj e e' he he' hid
    have h1 := (h.map_iff (C.ident e.key) i).mpr ⟨hi, e, he, rfl⟩
    have h2 := (h.map_iff (C.ident e.key) j).mpr ⟨hj, e', he', hid.symm⟩
    rw [h1] at h2
    simpa using h2
  · intro data handle value hl
    obtain ⟨e, hc, rfl⟩ := h.lookupKey hl
    refine ⟨e, (checkHandle_ok_iff.mp hc).2.1, rfl, ?_⟩
    simp only [getEntry, hc, Option.bind_eq_bind, Option.bind_some, Option.map_eq_bind]
    rfl

end MatchUnit

/-- `ExactMap` meets the contract. -/
def exactMapContract (size : ℕ) : LookupContract exactMap size where
  Ident := List Byte
  ident := ExactMatchKey.data
  Inv _ := True
  map s x := s.lookup x
  ident_setVersion := ExactMatchKey.data_setVersion
  entryExists _ _ := rfl
  addEntry _ _ _ _ _ _ := ⟨_, rfl, trivial, AList.lookup_insert _,
    fun _ hx => AList.lookup_insert_ne hx⟩
  deleteEntry _ _ _ := ⟨_, rfl, trivial, AList.lookup_erase _ _,
    fun _ hx => AList.lookup_erase_ne hx⟩
  clear _ := ⟨_, rfl, trivial, fun _ => AList.lookup_empty _⟩
  lookup data _ := ⟨_, rfl, fun _ hr => ⟨data, hr⟩⟩

namespace MatchUnit

/-- A table of two slots keyed by one byte, after two additions and a deletion. -/
theorem match_store_consistent_two_slots :
    ∃ u : MatchUnit ExactMatchKey ℕ (AList fun _ : List Byte => ℕ),
      Transition.Reach (step exactMap) (fun _ _ => True)
        (create 2 (({} : MatchKeyBuilder).pushBackField 0 0 8 .exact) ∅) u ∧
      u.lookupKey exactMap [5] = some (some (1, 70)) ∧
      u.numEntries = u.handles.handles.card := by
  have heval : ((Transition.runAll (step exactMap) (fun _ _ => True)
      (create 2 (({} : MatchKeyBuilder).pushBackField 0 0 8 .exact) ∅)
      [.addEntry 0 [{ type := .exact, key := [4] }] 60 0,
        .addEntry 0 [{ type := .exact, key := [5] }] 70 0, .deleteEntry 0]).bind
          fun u => u.lookupKey exactMap [5]) = some (some (1, 70)) := by
    decide +kernel
  obtain ⟨u, hrun, hl⟩ := Option.bind_eq_some_iff.mp heval
  have hreach := Transition.Reach.of_runAll hrun
  exact ⟨u, hreach, hl, (match_store_consistent (by decide) _ (exactMapContract 2) trivial
    (fun _ => rfl) hreach).1.1⟩

end MatchUnit

end Bmv2
