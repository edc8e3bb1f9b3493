import Bmv2.Match.Unit

/-! What each operation of a match unit can do: an inversion lemma per operation and the
bookkeeping invariant that needs nothing of the lookup structure. -/
namespace Bmv2

theorem handleVersion_eq (h : ℕ) : handleVersion h = h / 2 ^ 32 := Nat.shiftRight_eq_div_pow _ _

theorem handleInternal_eq (h : ℕ) : handleInternal h = h % 2 ^ 32 :=
  Nat.and_two_pow_sub_one_eq_mod h 32

theorem handleSet_eq {v i : ℕ} (hv : v < 2 ^ 32) (hi : i < 2 ^ 32) :
    handleSet v i = v * 2 ^ 32 + i := by
  rw [handleSet, Nat.shiftLeft_eq, Nat.mul_comm, ← Nat.two_pow_add_eq_or_of_lt hi,
    Nat.mod_eq_of_lt (by omega)]

@[simp] theorem handleInternal_handleSet {v i : ℕ} (hv : v < 2 ^ 32) (hi : i < 2 ^ 32) :
    handleInternal (handleSet v i) = i := by
  rw [handleInternal_eq, handleSet_eq hv hi]
  omega

@[simp] theorem handleVersion_handleSet {v i : ℕ} (hv : v < 2 ^ 32) (hi : i < 2 ^ 32) :
    handleVersion (handleSet v i) = v := by
  rw [handleVersion_eq, handleSet_eq hv hi]
  omega

namespace MatchUnit

variable {K V S : Type} [MatchKey K] {L : LookupStructure K S}
variable {u u' : MatchUnit K V S}

/-- The state after an entry has been installed in slot `i`. -/
def installed (u : MatchUnit K V S) (i : ℕ) (e : Entry K V) (m : EntryMeta) (ls : S) :
    MatchUnit K V S :=
  { u with
    handles := ⟨insert i u.handles.handles⟩
    numEntries := u.numEntries + 1
    entries := u.entries.set i e
    entryMeta := u.entryMeta.set i m
    lookupStructure := ls }

/-- The key of a slot after its entry has been deleted: the version has moved on. -/
def bumped (k : K) : K := MatchKey.setVersion k ((MatchKey.version k + 1) % 2 ^ 32)

/-- The state after the entry `e` of slot `i` has been deleted. -/
def removed (u : MatchUnit K V S) (i : ℕ) (e : Entry K V) (ls : S) : MatchUnit K V S :=
  { u with
    handles := ⟨u.handles.handles.erase i⟩
    numEntries := u.numEntries - 1
    entries := u.entries.set i { e with key := bumped e.key }
    lookupStructure := ls }

/-- The state after slot `i` has been given the entry `e` in place. -/
def rewritten (u : MatchUnit K V S) (i : ℕ) (e : Entry K V) : MatchUnit K V S :=
  { u with entries := u.entries.set i e }

/-- Sizes, handle set and entry count agree. -/
structure Wf (u : MatchUnit K V S) : Prop where
  size_le : u.size ≤ 2 ^ 32
  length_entries : u.entries.length = u.size
  length_entryMeta : u.entryMeta.length = u.size
  handles_lt : ∀ i ∈ u.handles.handles, i < u.size
  numEntries_eq : u.numEntries = u.handles.handles.card
  version_lt : ∀ e ∈ u.entries, MatchKey.version e.key < 2 ^ 32

theorem Wf.create [Inhabited V] {size : ℕ} (hsize : size ≤ 2 ^ 32) (kb : MatchKeyBuilder) (ls : S) :
    Wf (create size kb ls : MatchUnit K V S) := by
  refine ⟨hsize, by simp [MatchUnit.create], by simp [MatchUnit.create],
    by simp [MatchUnit.create], by simp [MatchUnit.create], ?_⟩
  intro e he
  obtain ⟨-, rfl⟩ := List.mem_replicate.mp he
  rw [show MatchKey.version (default : Entry K V).key = 0 from MatchKey.version_default]
  exact Nat.two_pow_pos _

theorem Wf.numEntries_le (h : Wf u) : u.numEntries ≤ u.size := by
  rw [h.numEntries_eq]
  have hsub : u.handles.handles ⊆ Finset.range u.size := by
    intro i hi
    exact Finset.mem_range.mpr (h.handles_lt i hi)
  simpa using Finset.card_le_card hsub

/-- `checkHandle` accepts a handle exactly when its slot is in use at its version. -/
theorem checkHandle_ok_iff {h : ℕ} {e : Entry K V} :
    u.checkHandle h = some (.ok e) ↔ handleInternal h ∈ u.handles.handles ∧
      u.entries[handleInternal h]? = some e ∧ handleVersion h = MatchKey.version e.key := by
  rw [checkHandle, validHandle_, HandleMgr.validHandle]
  by_cases hv : handleInternal h ∈ u.handles.handles
  · cases he : u.entries[handleInternal h]? with
    | none => simp [hv]
    | some e' =>
      by_cases hver : handleVersion h = MatchKey.version e'.key
      · simp only [hv, decide_true, Bool.not_true, Bool.false_eq_true, ↓reduceIte,
          Option.bind_eq_bind, Option.bind_some, hver, ne_eq, not_true_eq_false,
          Option.some.injEq, Except.ok.injEq, true_and]
        constructor
        · rintro rfl
          exact ⟨rfl, rfl⟩
        · rintro ⟨rfl, -⟩
          rfl
      · simp only [hv, decide_true, Bool.not_true, Bool.false_eq_true, ↓reduceIte,
          Option.bind_eq_bind, Option.bind_some, hver, ne_eq, not_false_eq_true,
          Option.some.injEq, reduceCtorEq, true_and, false_iff, not_and]
        rintro rfl
        exact hver
  · simp [hv]

theorem Wf.checkHandle_some (h : Wf u) (handle : ℕ) : ∃ r, u.checkHandle handle = some r := by
  rw [checkHandle, validHandle_, HandleMgr.validHandle]
  by_cases hv : handleInternal handle ∈ u.handles.handles
  · have hlt := h.handles_lt _ hv
    rw [← h.length_entries] at hlt
    rw [List.getElem?_eq_getElem hlt]
    by_cases hver : handleVersion handle = MatchKey.version u.entries[handleInternal handle].key
    · exact ⟨.ok u.entries[handleInternal handle], by simp [hv, hver]⟩
    · exact ⟨.error .expiredHandle, by simp [hv, hver]⟩
  · exact ⟨.error .invalidHandle, by simp [hv]⟩

/-- A table that is not full hands out its first free slot, which is below the size. -/
theorem Wf.getAndSetHandle (hwf : Wf u) (h : u.numEntries < u.size) :
    u.handles.firstEmpty < u.size ∧ u.handles.firstEmpty < 2 ^ 32 ∧
      u.getAndSetHandle = .ok (u.handles.firstEmpty, { u with
        handles := ⟨insert u.handles.firstEmpty u.handles.handles⟩
        numEntries := u.numEntries + 1 }) := by
  have hlt : u.handles.firstEmpty < u.size :=
    u.handles.firstEmpty_lt (by rw [← hwf.numEntries_eq]; exact h)
  have hsz := hwf.size_le
  have h64 : u.handles.firstEmpty < 2 ^ 64 := by omega
  refine ⟨hlt, by omega, ?_⟩
  simp only [MatchUnit.getAndSetHandle, ge_iff_le, not_le.mpr h, ↓reduceIte, HandleMgr.getHandle,
    h64]

/-- An `add_entry` either reports an error and changes nothing, or installs the key in the
first free slot under the slot's current version. -/
theorem addEntry_cases (hwf : Wf u) {now : ℕ} {params : List MatchKeyParam} {value : V}
    {priority : ℤ} {r : Result ℕ} (h : u.addEntry L now params value priority = some (r, u')) :
    (∃ e, r = .error e ∧ u' = u ∧
      ((e = .badMatchKey ∧ u.matchKeyBuilder.matchParamsSanityCheck params = false) ∨
        (u.matchKeyBuilder.matchParamsSanityCheck params = true ∧
          ∃ key : K, entryKey u.matchKeyBuilder params priority = some key ∧
          ((e = .duplicateEntry ∧ L.entryExists u.lookupStructure key = some true) ∨
            (e = .tableFull ∧ L.entryExists u.lookupStructure key = some false ∧
              u.size ≤ u.numEntries))))) ∨
    (∃ (key : K) (old : Entry K V) (ls : S) (m : EntryMeta),
      u.matchKeyBuilder.matchParamsSanityCheck params = true ∧
      entryKey u.matchKeyBuilder params priority = some key ∧
      L.entryExists u.lookupStructure key = some false ∧ u.numEntries < u.size ∧
      u.handles.firstEmpty < u.size ∧
      u.entries[u.handles.firstEmpty]? = some old ∧
      L.addEntry u.lookupStructure key u.handles.firstEmpty = some ls ∧
      u.entryMeta[u.handles.firstEmpty]? = some m ∧
      r = .ok (handleSet (MatchKey.version old.key) u.handles.firstEmpty) ∧
      u' = u.installed u.handles.firstEmpty
        ⟨MatchKey.setVersion key (MatchKey.version old.key), value⟩
        { m.reset now with version := MatchKey.version old.key } ls) := by
  obtain ⟨⟨r₁, u₁⟩, h₁, h₂⟩ := Option.bind_eq_some_iff.mp h
  rw [addEntry_] at h₁
  cases hs : u.matchKeyBuilder.matchParamsSanityCheck params with
  | false =>
    simp only [hs, Bool.not_false, ↓reduceIte, Option.some.injEq, Prod.mk.injEq] at h₁
    obtain ⟨rfl, rfl⟩ := h₁
    simp only [Option.some.injEq, Prod.mk.injEq] at h₂
    exact .inl ⟨_, h₂.1.symm, h₂.2.symm, .inl ⟨rfl, rfl⟩⟩
  | true =>
    simp only [hs, Bool.not_true, Bool.false_eq_true, ↓reduceIte] at h₁
    obtain ⟨key, hkey, h₁⟩ := Option.bind_eq_some_iff.mp h₁
    obtain ⟨dup, hdup, h₁⟩ := Option.bind_eq_some_iff.mp h₁
    cases dup with
    | true =>
      simp only [↓reduceIte, Option.some.injEq, Prod.mk.injEq] at h₁
      obtain ⟨rfl, rfl⟩ := h₁
      simp only [Option.some.injEq, Prod.mk.injEq] at h₂
      exact .inl ⟨_, h₂.1.symm, h₂.2.symm, .inr ⟨rfl, key, hkey, .inl ⟨rfl, hdup⟩⟩⟩
    | false =>
      simp only [Bool.false_eq_true, ↓reduceIte] at h₁
      by_cases hfull : u.size ≤ u.numEntries
      · simp only [getAndSetHandle, ge_iff_le, hfull, ↓reduceIte, Option.some.injEq,
          Prod.mk.injEq] at h₁
        obtain ⟨rfl, rfl⟩ := h₁
        simp only [Option.some.injEq, Prod.mk.injEq] at h₂
        exact .inl ⟨_, h₂.1.symm, h₂.2.symm, .inr ⟨rfl, key, hkey, .inr ⟨rfl, hdup, hfull⟩⟩⟩
      · obtain ⟨hlt, h32, hget⟩ := hwf.getAndSetHandle (not_le.mp hfull)
        simp only [hget] at h₁
        obtain ⟨old, hold, h₁⟩ := Option.bind_eq_some_iff.mp h₁
        obtain ⟨ls, hls, h₁⟩ := Option.bind_eq_some_iff.mp h₁
        simp only [Option.some.injEq, Prod.mk.injEq] at h₁
        obtain ⟨rfl, rfl⟩ := h₁
        have hver : MatchKey.version old.key < 2 ^ 32 :=
          hwf.version_lt old (List.mem_of_getElem? hold)
        simp only [handleInternal_handleSet hver h32, handleVersion_handleSet hver h32] at h₂
        obtain ⟨m, hm, h₂⟩ := Option.bind_eq_some_iff.mp h₂
        simp only [Option.some.injEq, Prod.mk.injEq] at h₂
        refine .inr ⟨key, old, ls, m, rfl, hkey, hdup, by omega, hlt, hold, hls, hm, h₂.1.symm,
          h₂.2.symm⟩

/-- An `add_entry` returns if the key can be formed and the lookup structure answers. -/
theorem addEntry_total (hwf : Wf u) {now : ℕ} {params : List MatchKeyParam} {value : V}
    {priority : ℤ}
    (hkey : u.matchKeyBuilder.matchParamsSanityCheck params = true →
      ∃ key : K, entryKey u.matchKeyBuilder params priority = some key)
    (hexists : ∀ key, ∃ b, L.entryExists u.lookupStructure key = some b)
    (hadd : ∀ key, ∀ i < u.size, ∃ ls, L.addEntry u.lookupStructure key i = some ls) :
    ∃ p, u.addEntry L now params value priority = some p := by
  cases hs : u.matchKeyBuilder.matchParamsSanityCheck params with
  | false => exact ⟨(.error .badMatchKey, u), by simp [addEntry, addEntry_, hs]⟩
  | true =>
    obtain ⟨key, hk⟩ := hkey hs
    obtain ⟨b, hb⟩ := hexists key
    cases b with
    | true => exact ⟨(.error .duplicateEntry, u), by simp [addEntry, addEntry_, hs, hk, hb]⟩
    | false =>
      by_cases hfull : u.size ≤ u.numEntries
      · exact ⟨(.error .tableFull, u), by
          simp [addEntry, addEntry_, hs, hk, hb, getAndSetHandle, hfull]⟩
      · obtain ⟨hlt, h32, hget⟩ := hwf.getAndSetHandle (not_le.mp hfull)
        have hent : u.handles.firstEmpty < u.entries.length := hlt.trans_eq hwf.length_entries.symm
        have hmeta : u.handles.firstEmpty < u.entryMeta.length :=
          hlt.trans_eq hwf.length_entryMeta.symm
        have hver := hwf.version_lt _ (List.getElem_mem hent)
        obtain ⟨ls, hls⟩ := hadd key _ hlt
        simp [addEntry, addEntry_, hs, hk, hb, hget, List.getElem?_eq_getElem hent, hls,
          handleInternal_handleSet hver h32, List.getElem?_eq_getElem hmeta]

/-- A `delete_entry` either reports an error and changes nothing, or frees the slot. -/
theorem deleteEntry_cases {handle : ℕ} {r : Result Unit}
    (h : u.deleteEntry L handle = some (r, u')) :
    (∃ e, r = .error e ∧ u' = u ∧ u.checkHandle handle = some (.error e)) ∨
    (∃ (e : Entry K V) (ls : S), u.checkHandle handle = some (.ok e) ∧
      L.deleteEntry u.lookupStructure (bumped e.key) = some ls ∧ r = .ok () ∧
      u' = u.removed (handleInternal handle) e ls) := by
  obtain ⟨c, hc, h⟩ := Option.bind_eq_some_iff.mp h
  cases c with
  | error e =>
    simp only [Option.some.injEq, Prod.mk.injEq] at h
    exact .inl ⟨e, h.1.symm, h.2.symm, hc⟩
  | ok e =>
    obtain ⟨ls, hls, h⟩ := Option.bind_eq_some_iff.mp h
    have hmem := (checkHandle_ok_iff.mp hc).1
    simp only [unsetHandle, HandleMgr.releaseHandle, hmem, decide_true, Option.some.injEq,
      Prod.mk.injEq] at h
    exact .inr ⟨e, ls, hc, hls, h.1.symm, h.2.symm⟩

theorem deleteEntry_total (hwf : Wf u) {handle : ℕ}
    (hdel : ∀ e, u.checkHandle handle = some (.ok e) →
      ∃ ls, L.deleteEntry u.lookupStructure (bumped e.key) = some ls) :
    ∃ p, u.deleteEntry L handle = some p := by
  obtain ⟨c, hc⟩ := hwf.checkHandle_some handle
  cases c with
  | error e => exact ⟨(.error e, u), by simp [deleteEntry, hc]⟩
  | ok e =>
    obtain ⟨ls, hls⟩ := hdel e hc
    rw [bumped] at hls
    rw [deleteEntry, hc]
    simp only [Option.bind_eq_bind, Option.bind_some, hls]
    exact ⟨_, rfl⟩

theorem modifyEntry_cases {handle : ℕ} {value : V} {r : Result Unit}
    (h : u.modifyEntry handle value = some (r, u')) :
    (∃ e, r = .error e ∧ u' = u ∧ u.checkHandle handle = some (.error e)) ∨
    (∃ e : Entry K V, u.checkHandle handle = some (.ok e) ∧ r = .ok () ∧
      u' = u.rewritten (handleInternal handle) { e with value }) := by
  obtain ⟨c, hc, h⟩ := Option.bind_eq_some_iff.mp h
  cases c with
  | error e =>
    simp only [Option.some.injEq, Prod.mk.injEq] at h
    exact .inl ⟨e, h.1.symm, h.2.symm, hc⟩
  | ok e =>
    simp only [Option.some.injEq, Prod.mk.injEq] at h
    exact .inr ⟨e, hc, h.1.symm, h.2.symm⟩

theorem getValue_cases {handle : ℕ} {r : Result V} (h : u.getValue handle = some r) :
    (∃ e, r = .error e ∧ u.checkHandle handle = some (.error e)) ∨
    (∃ e : Entry K V, u.checkHandle handle = some (.ok e) ∧ r = .ok e.value) := by
  obtain ⟨c, hc, h⟩ := Option.bind_eq_some_iff.mp h
  cases c with
  | error e => exact .inl ⟨e, by simpa using h.symm, hc⟩
  | ok e => exact .inr ⟨e, hc, by simpa using h.symm⟩

/-- A live entry with its slot. -/
def Live (u : MatchUnit K V S) (i : ℕ) (e : Entry K V) : Prop :=
  i ∈ u.handles.handles ∧ u.entries[i]? = some e

/-- The handle that a lookup gives names the slot that the structure has answered. -/
theorem lookupKey_slot {data : List ByteBits.Byte} {handle : ℕ} {value : V}
    (hl : u.lookupKey L data = some (some (handle, value))) :
    ∃ i e, L.lookup u.lookupStructure data = some (some i) ∧ u.entries[i]? = some e ∧
      handle = handleSet (MatchKey.version e.key) i ∧ e.value = value := by
  obtain ⟨r, hr, hl⟩ := Option.bind_eq_some_iff.mp hl
  cases r with
  | none => simp at hl
  | some i =>
    obtain ⟨e, he, hl⟩ := Option.bind_eq_some_iff.mp hl
    obtain ⟨rfl, rfl⟩ : handleSet (MatchKey.version e.key) i = handle ∧ e.value = value := by
      simpa using hl
    exact ⟨i, e, hr, he, rfl, rfl⟩

/-- The live entries after a deletion. -/
theorem live_removed {i j : ℕ} {e e' : Entry K V} {ls : S} :
    (u.removed i e ls).Live j e' ↔ j ≠ i ∧ u.Live j e' := by
  simp only [Live, removed, Finset.mem_erase, List.getElem?_set]
  constructor
  · rintro ⟨⟨hji, hj⟩, he⟩
    rw [if_neg (Ne.symm hji)] at he
    exact ⟨hji, hj, he⟩
  · rintro ⟨hji, hj, he⟩
    rw [if_neg (Ne.symm hji)]
    exact ⟨⟨hji, hj⟩, he⟩

section Preserved

variable {i : ℕ} {e : Entry K V} {m : EntryMeta} {ls : S}

theorem Wf.installed (h : Wf u) (hi : i < u.size) (hfree : i ∉ u.handles.handles)
    (hver : MatchKey.version e.key < 2 ^ 32) : Wf (u.installed i e m ls) where
  size_le := h.size_le
  length_entries := by simp [MatchUnit.installed, h.length_entries]
  length_entryMeta := by simp [MatchUnit.installed, h.length_entryMeta]
  handles_lt := by
    intro j hj
    rcases Finset.mem_insert.mp hj with rfl | hj
    · exact hi
    · exact h.handles_lt j hj
  numEntries_eq := by
    simp [MatchUnit.installed, h.numEntries_eq, Finset.card_insert_of_notMem hfree]
  version_lt := by
    intro e' he'
    rcases List.mem_or_eq_of_mem_set he' with h' | rfl
    · exact h.version_lt e' h'
    · exact hver

theorem Wf.removed (h : Wf u) (hi : i ∈ u.handles.handles) : Wf (u.removed i e ls) where
  size_le := h.size_le
  length_entries := by simp [MatchUnit.removed, h.length_entries]
  length_entryMeta := h.length_entryMeta
  handles_lt := fun j hj => h.handles_lt j (Finset.mem_of_mem_erase hj)
  numEntries_eq := by
    simp [MatchUnit.removed, h.numEntries_eq, Finset.card_erase_of_mem hi]
  version_lt := by
    intro e' he'
    rcases List.mem_or_eq_of_mem_set he' with h' | rfl
    · exact h.version_lt e' h'
    · rw [bumped, MatchKey.version_setVersion]
      exact Nat.mod_lt _ (Nat.two_pow_pos _)

theorem Wf.rewritten (h : Wf u) (hver : MatchKey.version e.key < 2 ^ 32) :
    Wf (u.rewritten i e) where
  size_le := h.size_le
  length_entries := by simp [MatchUnit.rewritten, h.length_entries]
  length_entryMeta := h.length_entryMeta
  handles_lt := h.handles_lt
  numEntries_eq := h.numEntries_eq
  version_lt := by
    intro e' he'
    rcases List.mem_or_eq_of_mem_set he' with h' | rfl
    · exact h.version_lt e' h'
    · exact hver

/-- Nothing but the number of the metadata matters. -/
theorem Wf.frame (h : Wf u) {entryMeta : List EntryMeta} (directMeters : Option (List Meter))
    (hlen : entryMeta.length = u.entryMeta.length) : Wf { u with entryMeta, directMeters } :=
  ⟨h.size_le, h.length_entries, hlen.trans h.length_entryMeta, h.handles_lt, h.numEntries_eq,
    h.version_lt⟩

theorem Wf.addEntry (h : Wf u) {now : ℕ} {params : List MatchKeyParam} {value : V} {priority : ℤ}
    {r : Result ℕ} (hs : u.addEntry L now params value priority = some (r, u')) : Wf u' := by
  rcases addEntry_cases h hs with ⟨_, -, rfl, -⟩ |
    ⟨key, old, ls, m, -, -, -, -, hlt, hold, -, -, -, rfl⟩
  · exact h
  · refine h.installed hlt u.handles.firstEmpty_notMem ?_
    rw [MatchKey.version_setVersion]
    exact h.version_lt old (List.mem_of_getElem? hold)

theorem Wf.resetState [Inhabited V] (h : Wf u) (hs : u.resetState L = some u') : Wf u' := by
  obtain ⟨ls, -, hs⟩ := Option.bind_eq_some_iff.mp hs
  obtain rfl := Option.some.inj hs
  refine ⟨h.size_le, by simp, by simp, by simp [HandleMgr.clear], by simp [HandleMgr.clear], ?_⟩
  intro e he
  obtain ⟨-, rfl⟩ := List.mem_replicate.mp he
  rw [show MatchKey.version (default : Entry K V).key = 0 from MatchKey.version_default]
  exact Nat.two_pow_pos _

end Preserved

end MatchUnit

end Bmv2
