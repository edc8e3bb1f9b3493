import Bmv2.Lpm.Correct
import Bmv2.Match.Ternary

/-! What every lookup structure guarantees whatever its flaws: a handle that a lookup returns
was added and has not been deleted since. -/
namespace Bmv2
open ByteBits

/-- A lookup structure that forgets deleted keys and invents none. `stored s x h` says that
`s` may answer `h` on account of the key `x`; only keys that `Ok` accepts can be added. -/
structure SoundLookup {K S : Type} [MatchKey K] (L : LookupStructure K S) where
  Ident : Type
  ident : K → Ident
  Ok : K → Prop
  Inv : S → Prop
  stored : S → Ident → ℕ → Prop
  ident_setVersion : ∀ k v, ident (MatchKey.setVersion k v) = ident k
  ok_setVersion : ∀ k v, Ok k → Ok (MatchKey.setVersion k v)
  lookup : ∀ {s data h}, Inv s → L.lookup s data = some (some h) → ∃ x, stored s x h
  addEntry : ∀ {s k h s'}, Inv s → L.entryExists s k = some false → L.addEntry s k h = some s' →
    Ok k ∧ Inv s' ∧ ∀ x j, stored s' x j → (x = ident k ∧ j = h) ∨ stored s x j
  deleteEntry : ∀ {s k s'}, Inv s → Ok k → L.deleteEntry s k = some s' →
    Inv s' ∧ ∀ x j, stored s' x j → x ≠ ident k ∧ stored s x j

theorem stored_exactMap_addEntry {s s' : AList fun _ : List Byte => ℕ} {k : ExactMatchKey} {h : ℕ}
    (hs : exactMap.addEntry s k h = some s') (x : List Byte) (j : ℕ)
    (hx : s'.lookup x = some j) : (x = k.data ∧ j = h) ∨ s.lookup x = some j := by
  obtain rfl := Option.some.inj hs
  by_cases hk : x = k.data
  · subst hk
    rw [AList.lookup_insert, Option.some.injEq] at hx
    exact .inl ⟨rfl, hx.symm⟩
  · rw [AList.lookup_insert_ne hk] at hx
    exact .inr hx

theorem stored_exactMap_deleteEntry {s s' : AList fun _ : List Byte => ℕ} {k : ExactMatchKey}
    (hs : exactMap.deleteEntry s k = some s') (x : List Byte) (j : ℕ)
    (hx : s'.lookup x = some j) : x ≠ k.data ∧ s.lookup x = some j := by
  obtain rfl := Option.some.inj hs
  by_cases hk : x = k.data
  · subst hk
    simp [AList.lookup_erase] at hx
  · rw [AList.lookup_erase_ne hk] at hx
    exact ⟨hk, hx⟩

def exactMapSound : SoundLookup exactMap where
  Ident := List Byte
  ident := ExactMatchKey.data
  Ok _ := True
  Inv _ := True
  stored s x h := s.lookup x = some h
  ident_setVersion := ExactMatchKey.data_setVersion
  ok_setVersion _ _ _ := trivial
  lookup _ h := ⟨_, Option.some.inj h⟩
  addEntry _ _ hs := ⟨trivial, trivial, stored_exactMap_addEntry hs⟩
  deleteEntry _ _ hs := ⟨trivial, stored_exactMap_deleteEntry hs⟩

section Ternary

/-- A slot that is not marked empty. -/
def TernaryMap.Filled (s : TernaryMap) (x : List Byte × List Byte × ℤ) (i : ℕ) : Prop :=
  ∃ k, s.keys[i]? = some k ∧ k.ident = x ∧ k.priority < intMax

variable {nbytes : ℕ} {data : List Byte}

/-- The slot loop only ever returns a slot below the sentinel priority. -/
theorem TernaryMap.lookupFrom_filled (keys : List TernaryMatchKey) (slot : ℕ) {minPriority : ℤ}
    (best : Option ℕ) (hmin : minPriority ≤ intMax) {h : ℕ}
    (hs : lookupFrom nbytes data keys slot minPriority best = some (some h)) :
    best = some h ∨ ∃ i k, h = slot + i ∧ keys[i]? = some k ∧ k.priority < intMax := by
  induction keys generalizing slot minPriority best with
  | nil => exact .inl (Option.some.inj hs)
  | cons key keys ih =>
    have hskip : ∀ {m b}, m ≤ intMax → lookupFrom nbytes data keys (slot + 1) m b = some (some h) →
        b = some h ∨ ∃ i k, h = slot + i ∧ (key :: keys)[i]? = some k ∧ k.priority < intMax := by
      intro m b hm hs
      rcases ih (slot + 1) b hm hs with hb | ⟨i, k, rfl, hk, hp⟩
      · exact .inl hb
      · exact .inr ⟨i + 1, k, by omega, by simpa using hk, hp⟩
    rw [lookupFrom] at hs
    split_ifs at hs with hprio
    · exact hskip hmin hs
    · have hlt : key.priority < intMax := lt_of_lt_of_le (not_le.mp hprio) hmin
      obtain ⟨b, -, hs⟩ := Option.bind_eq_some_iff.mp hs
      split_ifs at hs
      · rcases hskip hlt.le hs with hb | hfound
        · exact .inr ⟨0, key, by simpa using hb.symm, rfl, hlt⟩
        · exact .inr hfound
      · exact hskip hmin hs

def ternaryMapSound : SoundLookup ternaryMap where
  Ident := List Byte × List Byte × ℤ
  ident := TernaryMatchKey.ident
  Ok _ := True
  Inv s := ∀ x i j, s.Filled x i → s.Filled x j → i = j
  stored := TernaryMap.Filled
  ident_setVersion _ _ := rfl
  ok_setVersion _ _ _ := trivial
  lookup := by
    intro s data h _ hs
    rcases TernaryMap.lookupFrom_filled s.keys 0 none le_rfl hs with hb | ⟨i, k, rfl, hk, hp⟩
    · simp at hb
    · exact ⟨k.ident, k, by simpa using hk, rfl, hp⟩
  addEntry := by
    intro s k h s' hinv hdup hs
    have hnew : ∀ (i : ℕ) (k' : TernaryMatchKey), s.keys[i]? = some k' → k'.ident ≠ k.ident := by
      intro i k' hk' hid
      have := TernaryMap.entryExists_iff.mpr ⟨i, k', hk', hid⟩
      rw [Option.some.inj hdup] at this
      exact absurd this (by simp)
    have hcases : ∀ x j, s'.Filled x j → (x = k.ident ∧ j = h) ∨ s.Filled x j := by
      have hs : s.addEntry k h = some s' := hs
      rw [TernaryMap.addEntry] at hs
      split_ifs at hs with hlt
      obtain rfl := Option.some.inj hs
      rintro x j ⟨k', hk', hid, hp⟩
      by_cases hj : j = h
      · subst hj
        simp only [List.getElem?_set, ↓reduceIte, hlt, Option.some.injEq] at hk'
        exact .inl ⟨by rw [← hid, ← hk'], rfl⟩
      · simp only [List.getElem?_set, Ne.symm hj, ↓reduceIte] at hk'
        exact .inr ⟨k', hk', hid, hp⟩
    have hne : ∀ x i, s.Filled x i → x ≠ k.ident := by
      rintro x i ⟨k', hk', rfl, -⟩
      exact hnew i k' hk'
    refine ⟨trivial, fun x i j hi hj => ?_, hcases⟩
    rcases hcases x i hi with ⟨hx, rfl⟩ | hi <;> rcases hcases x j hj with ⟨hx', rfl⟩ | hj
    · rfl
    · exact absurd hx (hne x j hj)
    · exact absurd hx' (hne x i hi)
    · exact hinv x i j hi hj
  deleteEntry := by
    intro s k s' hinv _ hs
    obtain ⟨k₀, hk₀, rfl⟩ := Option.map_eq_some_iff.mp hs
    have hlt := (List.getElem?_eq_some_iff.mp hk₀).1
    have hid₀ : k₀.ident = k.ident := by
      have hfound := List.findIdx_getElem (w := hlt)
      rw [decide_eq_true_eq] at hfound
      rw [List.getElem?_eq_getElem hlt, Option.some.injEq] at hk₀
      exact hk₀ ▸ TernaryMatchKey.ident_eq_iff.mpr hfound
    let emptied : TernaryMatchKey := { k₀ with priority := intMax }
    have hcases : ∀ x j, TernaryMap.Filled { s with keys := s.keys.set (s.findHandle k) emptied }
        x j → j ≠ s.findHandle k ∧ s.Filled x j := by
      rintro x j ⟨k', hk', hid, hp⟩
      by_cases hj : j = s.findHandle k
      · subst hj
        simp only [List.getElem?_set, ↓reduceIte, hlt, Option.some.injEq] at hk'
        rw [← hk'] at hp
        exact absurd hp (lt_irrefl _)
      · simp only [List.getElem?_set, Ne.symm hj, ↓reduceIte] at hk'
        exact ⟨hj, k', hk', hid, hp⟩
    refine ⟨fun x i j hi hj => hinv x i j (hcases x i hi).2 (hcases x j hj).2, fun x j hj => ?_⟩
    obtain ⟨hne, hfill⟩ := hcases x j hj
    refine ⟨?_, hfill⟩
    rintro rfl
    -- the slot that was marked empty held the only entry with this key
    obtain ⟨k', hk', hid, hp⟩ := hfill
    have hp₀ : k₀.priority < intMax := by
      rw [(TernaryMatchKey.ident_eq_iff.mp (hid₀.trans hid.symm)).1]
      exact hp
    exact hne (hinv k.ident j _ ⟨k', hk', hid, hp⟩ ⟨k₀, hk₀, hid₀, hp₀⟩)

end Ternary

namespace Lpm

theorem length_le_of_insert {t t' : Trie} {p : List Byte} {len value : ℕ}
    (h : insert t p len value = some t') : len ≤ 8 * p.length := by
  have hdesc : ∀ (p : List Byte) (t : Trie) (cur len : ℕ) (q : Trie × ℕ × List Byte × ℕ),
      insertDescend t cur p len = some q → (restKey q.2.2.1 q.2.2.2).isSome →
        len ≤ 8 * p.length := by
    intro p
    induction p with
    | nil =>
      intro t cur len q hq hr
      rw [insertDescend] at hq
      split_ifs at hq
      obtain rfl := Option.some.inj hq
      by_cases h0 : len = 0
      · simp [h0]
      · simp [restKey, h0] at hr
    | cons b p ih =>
      intro t cur len q hq hr
      rw [insertDescend] at hq
      split_ifs at hq with h8
      · simp only [List.length_cons]
        omega
      · simp only [List.length_cons]
        split at hq
        · simp at hq
        · split at hq
          · have := ih _ _ _ q hq hr
            omega
          · have := ih _ _ _ q hq hr
            omega
  obtain ⟨q, hq, h⟩ := Option.bind_eq_some_iff.mp h
  obtain ⟨key, hkey, -⟩ := Option.bind_eq_some_iff.mp h
  exact hdesc p t t.root len q hq (by simp [hkey])

/-- A lookup only returns values that are stored somewhere. -/
theorem lookupLoop_stored {t : Trie} {w : ℕ} {q key : List Byte} {best : Option ℕ} {v : ℕ}
    (h : lookupLoop t w (t.walk q) key best = some (some v)) :
    best = some v ∨ ∃ q' k, t.content q' k = some v := by
  induction w generalizing q key best with
  | zero =>
    cases hw : t.walk q with
    | none =>
      rw [hw] at h
      exact .inl (Option.some.inj h)
    | some a =>
      rw [hw] at h
      obtain ⟨n, hn, h⟩ := Option.bind_eq_some_iff.mp h
      rcases Option.or_eq_some_iff.mp (Option.some.inj h) with hl | ⟨-, hb⟩
      · exact .inr ⟨q, 0, (Trie.content_of_heap hw hn 0).trans hl⟩
      · exact .inl hb
  | succ w ih =>
    cases hw : t.walk q with
    | none =>
      rw [hw] at h
      exact .inl (Option.some.inj h)
    | some a =>
      rw [hw] at h
      obtain ⟨n, hn, h⟩ := Option.bind_eq_some_iff.mp h
      obtain ⟨b, -, h⟩ := Option.bind_eq_some_iff.mp h
      have hcont := Trie.content_of_heap hw hn
      have hstep := (Trie.walk_concat_of_heap hw hn b).symm
      rw [hstep] at h
      rcases ih h with hb | hc
      · rcases Option.or_eq_some_iff.mp hb with hm | ⟨-, hb⟩
        · obtain ⟨i, -, hi⟩ := List.exists_of_findSome?_eq_some hm
          exact .inr ⟨q, _, (hcont _).trans hi⟩
        · rcases Option.or_eq_some_iff.mp hb with hl | ⟨-, hb⟩
          · exact .inr ⟨q, 0, (hcont 0).trans hl⟩
          · exact .inl hb
      · exact .inr hc

end Lpm

/-- The trie keeps this guarantee even where its counters wrap: it only loses prefixes. -/
def lpmTrieSound : SoundLookup lpmTrieStructure where
  Ident := List Byte × ℕ
  ident k := (k.data.take (k.prefixLength.toNat / 8), Lpm.keyOf k.data k.prefixLength.toNat)
  Ok k := k.prefixLength.toNat ≤ 8 * k.data.length
  Inv s := Lpm.Shape s ∧ s.releaseMemory = true
  stored s x h := s.content x.1 x.2 = some h
  ident_setVersion _ _ := rfl
  ok_setVersion _ _ h := h
  lookup := by
    intro s data h _ hs
    have hs : Lpm.lookupLoop s s.keyWidthBytes (s.walk []) data none = some (some h) := hs
    rcases Lpm.lookupLoop_stored hs with hb | ⟨q, k, hk⟩
    · simp at hb
    · exact ⟨(q, k), hk⟩
  addEntry := by
    intro s k h s' hinv _ hs
    have hlen := Lpm.length_le_of_insert hs
    obtain ⟨t', hres, hsh, hcfg, hcont, -⟩ := Lpm.insert_spec hinv.1 hlen h
    obtain rfl : t' = s' := by simpa [lpmTrieStructure, hres] using hs
    refine ⟨hlen, ⟨hsh, hcfg.release.trans hinv.2⟩, fun x j hx => ?_⟩
    rw [hcont] at hx
    split_ifs at hx with he
    · exact .inl ⟨Prod.ext he.1 he.2, (Option.some.inj hx).symm⟩
    · exact .inr hx
  deleteEntry := by
    intro s k s' hinv hlen hs
    obtain ⟨t', hres, hsh, hcfg, hsub, -⟩ := Lpm.delete_spec hinv.1 hlen
    obtain rfl : t' = s' := by simpa [lpmTrieStructure, hres] using hs
    refine ⟨⟨hsh, hcfg.release.trans hinv.2⟩, fun x j hx => ?_⟩
    obtain ⟨hold, hne⟩ := hsub x.1 x.2 j hx
    exact ⟨fun he => hne hinv.2 ⟨congrArg Prod.fst he, congrArg Prod.snd he⟩, hold⟩

namespace MatchUnit

variable {K V S : Type} [MatchKey K] {L : LookupStructure K S} {C : SoundLookup L}
variable {u u' : MatchUnit K V S}

/-- Whatever the lookup structure may answer is the slot of a live entry with that key. -/
structure SoundInv (C : SoundLookup L) (u : MatchUnit K V S) : Prop where
  inv : C.Inv u.lookupStructure
  ok : ∀ i e, u.Live i e → C.Ok e.key
  stored : ∀ x i, C.stored u.lookupStructure x i → ∃ e, u.Live i e ∧ C.ident e.key = x

namespace SoundInv

theorem create [Inhabited V] {size : ℕ} {kb : MatchKeyBuilder} {ls : S} (hinv : C.Inv ls)
    (hempty : ∀ x i, ¬ C.stored ls x i) :
    SoundInv C (MatchUnit.create size kb ls : MatchUnit K V S) :=
  ⟨hinv, by simp [Live, MatchUnit.create], fun x i h => absurd h (hempty x i)⟩

theorem addEntry (h : SoundInv C u) (hwf : u.Wf) {now : ℕ} {params : List MatchKeyParam} {value : V}
    {priority : ℤ} {r : Result ℕ} (hs : u.addEntry L now params value priority = some (r, u')) :
    SoundInv C u' := by
  rcases addEntry_cases hwf hs with ⟨_, -, rfl, -⟩ |
    ⟨key, old, ls, m, -, -, hdup, -, hlt, hold, hls, -, -, rfl⟩
  · exact h
  set i := u.handles.firstEmpty
  have hfree : i ∉ u.handles.handles := u.handles.firstEmpty_notMem
  have hlen := (List.getElem?_eq_some_iff.mp hold).1
  obtain ⟨hok, hinv, hstored⟩ := C.addEntry h.inv hdup hls
  have hother : ∀ j e, j ≠ i → u.Live j e → (u.installed i
      ⟨MatchKey.setVersion key (MatchKey.version old.key), value⟩
      { m.reset now with version := MatchKey.version old.key } ls).Live j e := by
    rintro j e hji ⟨hj, he⟩
    exact ⟨Finset.mem_insert_of_mem hj, by simpa [installed, Ne.symm hji] using he⟩
  refine ⟨hinv, ?_, ?_⟩
  · rintro j e ⟨hj, he⟩
    by_cases hji : j = i
    · subst hji
      simp only [installed, List.getElem?_set, ↓reduceIte, hlen, Option.some.injEq] at he
      rw [← he]
      exact C.ok_setVersion _ _ hok
    · simp only [installed, List.getElem?_set, Ne.symm hji, ↓reduceIte] at he
      exact h.ok j e ⟨(Finset.mem_insert.mp hj).resolve_left hji, he⟩
  · intro x j hx
    rcases hstored x j hx with ⟨rfl, rfl⟩ | hx
    · refine ⟨⟨MatchKey.setVersion key (MatchKey.version old.key), value⟩,
        ⟨Finset.mem_insert_self _ _, ?_⟩, C.ident_setVersion _ _⟩
      simp [installed, hlen]
    · obtain ⟨e, he, hid⟩ := h.stored x j hx
      exact ⟨e, hother j e (ne_of_mem_of_not_mem he.1 hfree) he, hid⟩

theorem removed (h : SoundInv C u) {i : ℕ} {e : Entry K V} {ls : S} (he : u.Live i e)
    (hls : L.deleteEntry u.lookupStructure (bumped e.key) = some ls) :
    SoundInv C (u.removed i e ls) := by
  obtain ⟨hinv, hstored⟩ := C.deleteEntry h.inv (C.ok_setVersion _ _ (h.ok i e he)) hls
  refine ⟨hinv, fun j e' he' => h.ok j e' (live_removed.mp he').2, fun x j hx => ?_⟩
  obtain ⟨hne, hx⟩ := hstored x j hx
  obtain ⟨e', he', hid⟩ := h.stored x j hx
  refine ⟨e', live_removed.mpr ⟨?_, he'⟩, hid⟩
  rintro rfl
  obtain rfl : e = e' := by simpa [he.2] using he'.2
  exact hne (hid.symm.trans (C.ident_setVersion _ _).symm)

theorem rewritten (h : SoundInv C u) {i : ℕ} {e : Entry K V} (he : u.Live i e) (value : V) :
    SoundInv C (u.rewritten i { e with value }) := by
  have hlen := (List.getElem?_eq_some_iff.mp he.2).1
  refine ⟨h.inv, ?_, fun x j hx => ?_⟩
  · rintro j e' ⟨hj, he'⟩
    by_cases hji : j = i
    · subst hji
      simp only [MatchUnit.rewritten, List.getElem?_set, ↓reduceIte, hlen,
        Option.some.injEq] at he'
      exact he' ▸ h.ok j e he
    · simp only [MatchUnit.rewritten, List.getElem?_set, Ne.symm hji, ↓reduceIte] at he'
      exact h.ok j e' ⟨hj, he'⟩
  · obtain ⟨e', he', hid⟩ := h.stored x j hx
    by_cases hji : j = i
    · subst hji
      obtain rfl : e = e' := by simpa [he.2] using he'.2
      exact ⟨{ e with value }, ⟨he.1, by simp [MatchUnit.rewritten, hlen]⟩, hid⟩
    · exact ⟨e', ⟨he'.1, by simpa [MatchUnit.rewritten, Ne.symm hji] using he'.2⟩, hid⟩

/-- A lookup that the structure answers is a miss or the value of a live entry. -/
theorem lookupKey (h : SoundInv C u) {data : List Byte} {found : Option ℕ}
    (hl : L.lookup u.lookupStructure data = some found) :
    (u.lookupKey L data = some none ∧ found = none) ∨
    ∃ i e handle, u.Live i e ∧ u.lookupKey L data = some (some (handle, e.value)) := by
  cases found with
  | none => exact .inl ⟨by simp [MatchUnit.lookupKey, hl], rfl⟩
  | some i =>
    obtain ⟨x, hx⟩ := C.lookup h.inv hl
    obtain ⟨e, he, -⟩ := h.stored x i hx
    exact .inr ⟨i, e, handleSet (MatchKey.version e.key) i, he,
      by simp [MatchUnit.lookupKey, hl, he.2]⟩

/-- What a lookup hits is a live entry, under its handle. -/
theorem hit (h : SoundInv C u) {data : List Byte} {handle : ℕ} {value : V}
    (hl : u.lookupKey L data = some (some (handle, value))) :
    ∃ i e, u.Live i e ∧ handle = handleSet (MatchKey.version e.key) i ∧ e.value = value := by
  obtain ⟨i, e, hfound, he, hhandle, hvalue⟩ := lookupKey_slot hl
  obtain ⟨x, hx⟩ := C.lookup h.inv hfound
  obtain ⟨e', hlive, -⟩ := h.stored x i hx
  obtain rfl : e = e' := Option.some.inj (he.symm.trans hlive.2)
  exact ⟨i, e, hlive, hhandle, hvalue⟩

end SoundInv

end MatchUnit

end Bmv2
