import Bmv2.Match.Encoding
import Bmv2.Match.Store

/-! Ternary lookup: the slot array of `TernaryMap` against the live entries of its unit. -/
namespace Bmv2
open ByteBits Blocks

namespace TernaryMatchKey

/-- The condition of a ternary entry on the bytes of a packet's key. -/
def Matches (key : TernaryMatchKey) (data : List Byte) : Prop :=
  key.data = List.zipWith (· &&& ·) data key.mask

instance (key : TernaryMatchKey) (data : List Byte) : Decidable (key.Matches data) :=
  inferInstanceAs (Decidable (_ = _))

/-- What names an entry: all of its key but the version. -/
def ident (key : TernaryMatchKey) : List Byte × List Byte × ℤ := (key.data, key.mask, key.priority)

theorem ident_eq_iff {k₁ k₂ : TernaryMatchKey} :
    k₁.ident = k₂.ident ↔ k₁.priority = k₂.priority ∧ k₁.data = k₂.data ∧ k₁.mask = k₂.mask := by
  simp only [ident, Prod.mk.injEq]
  tauto

theorem Matches.congr {k₁ k₂ : TernaryMatchKey} (h : k₁.ident = k₂.ident) (data : List Byte) :
    k₁.Matches data ↔ k₂.Matches data := by
  obtain ⟨-, h1, h2⟩ := ident_eq_iff.mp h
  rw [Matches, Matches, h1, h2]

end TernaryMatchKey

namespace TernaryMap

variable {key : TernaryMatchKey} {data : List Byte}

theorem matchesFrom_eq {i n : ℕ} (hd : key.data.length = i + n) (hm : key.mask.length = i + n)
    (hk : data.length = i + n) :
    matchesFrom key data i n = some (decide (key.data.drop i =
      List.zipWith (· &&& ·) (data.drop i) (key.mask.drop i))) := by
  induction n generalizing i with
  | zero =>
    simp [matchesFrom, List.drop_eq_nil_of_le (show key.data.length ≤ i by omega),
      List.drop_eq_nil_of_le (show data.length ≤ i by omega)]
  | succ n ih =>
    have h1 : i < key.data.length := by omega
    have h2 : i < key.mask.length := by omega
    have h3 : i < data.length := by omega
    rw [matchesFrom, List.drop_eq_getElem_cons h1, List.drop_eq_getElem_cons h2,
      List.drop_eq_getElem_cons h3]
    simp only [List.getElem?_eq_getElem h1, List.getElem?_eq_getElem h2,
      List.getElem?_eq_getElem h3, Option.bind_eq_bind, Option.bind_some,
      List.zipWith_cons_cons, List.cons.injEq]
    by_cases hb : key.data[i] = data[i] &&& key.mask[i]
    · simp only [hb, ne_eq, not_true_eq_false, ↓reduceIte, true_and]
      exact ih (by omega) (by omega) (by omega)
    · simp [hb]

theorem matchesFrom_zero {n : ℕ} (hd : key.data.length = n) (hm : key.mask.length = n)
    (hk : data.length = n) : matchesFrom key data 0 n = some (decide (key.Matches data)) := by
  have : matchesFrom key data 0 n = _ := matchesFrom_eq (by omega) (by omega) (by omega)
  simp only [List.drop_zero] at this
  exact this.trans (congrArg some (decide_eq_decide.mpr Iff.rfl))

/-- Slot `i` holds a selected key of the least priority and, among those, is the first. -/
def FirstBest (keys : List TernaryMatchKey) (p : TernaryMatchKey → Prop) (i : ℕ) : Prop :=
  ∃ k, keys[i]? = some k ∧ p k ∧ ∀ j k', keys[j]? = some k' → p k' →
    k.priority ≤ k'.priority ∧ (k'.priority = k.priority → i ≤ j)

theorem FirstBest.cons {keys : List TernaryMatchKey} {p : TernaryMatchKey → Prop} {i : ℕ}
    (h : FirstBest keys p i) (hk : ¬ p key) : FirstBest (key :: keys) p (i + 1) := by
  obtain ⟨k, hi, hp, hbest⟩ := h
  refine ⟨k, by simpa using hi, hp, fun j k' hj hp' => ?_⟩
  cases j with
  | zero =>
    obtain rfl : key = k' := by simpa using hj
    exact absurd hp' hk
  | succ j =>
    obtain ⟨h1, h2⟩ := hbest j k' (by simpa using hj) hp'
    exact ⟨h1, fun he => Nat.succ_le_succ (h2 he)⟩

/-- The slot loop keeps `best` or finds the first best match among the slots left. -/
theorem lookupFrom_spec {m : TernaryMatchKey → Prop} [DecidablePred m] {n : ℕ} (data : List Byte)
    (keys : List TernaryMatchKey) (slot : ℕ) {minPriority : ℤ} (best : Option ℕ)
    (hm : ∀ k ∈ keys, k.priority < intMax → matchesFrom k data 0 n = some (decide (m k)))
    (hmin : minPriority ≤ intMax) :
    (lookupFrom n data keys slot minPriority best = some best ∧
      ∀ k ∈ keys, k.priority < minPriority → ¬ m k) ∨
    ∃ i, lookupFrom n data keys slot minPriority best = some (some (slot + i)) ∧
      FirstBest keys (fun k => k.priority < minPriority ∧ m k) i := by
  induction keys generalizing slot minPriority best with
  | nil => exact .inl ⟨rfl, by simp⟩
  | cons key keys ih =>
    have hm' : ∀ k ∈ keys, k.priority < intMax → matchesFrom k data 0 n = some (decide (m k)) :=
      fun k hk => hm k (List.mem_cons_of_mem _ hk)
    -- a slot that is pruned or does not match leaves the search as it was
    have hskip : ¬ (key.priority < minPriority ∧ m key) →
        lookupFrom n data (key :: keys) slot minPriority best =
          lookupFrom n data keys (slot + 1) minPriority best →
        (lookupFrom n data (key :: keys) slot minPriority best = some best ∧
          ∀ k ∈ key :: keys, k.priority < minPriority → ¬ m k) ∨
        ∃ i, lookupFrom n data (key :: keys) slot minPriority best = some (some (slot + i)) ∧
          FirstBest (key :: keys) (fun k => k.priority < minPriority ∧ m k) i := by
      intro hno heq
      rw [heq]
      rcases ih (slot + 1) best hm' hmin with ⟨h1, h2⟩ | ⟨i, h1, h2⟩
      · refine .inl ⟨h1, fun k hk hlt hmk => ?_⟩
        rcases List.mem_cons.mp hk with rfl | hk
        · exact hno ⟨hlt, hmk⟩
        · exact h2 k hk hlt hmk
      · exact .inr ⟨i + 1, by rw [h1]; congr 2; omega, h2.cons hno⟩
    by_cases hprio : key.priority ≥ minPriority
    · exact hskip (fun h => absurd h.1 (not_lt.mpr hprio)) (by rw [lookupFrom, if_pos hprio])
    · have hlt : key.priority < minPriority := not_le.mp hprio
      have hmk := hm key (by simp) (lt_of_lt_of_le hlt hmin)
      by_cases hmatch : m key
      · have heq : lookupFrom n data (key :: keys) slot minPriority best =
            lookupFrom n data keys (slot + 1) key.priority (some slot) := by
          rw [lookupFrom, if_neg hprio, hmk]
          simp [hmatch]
        rw [heq]
        rcases ih (slot + 1) (some slot) hm' (hlt.le.trans hmin) with ⟨h1, h2⟩ | ⟨i, h1, h2⟩
        · refine .inr ⟨0, h1, key, rfl, ⟨hlt, hmatch⟩, fun j k' hj hp' => ⟨?_, fun _ => j.zero_le⟩⟩
          rcases List.mem_cons.mp (List.mem_of_getElem? hj) with rfl | hk'
          · exact le_rfl
          · by_contra hlt'
            exact h2 k' hk' (not_le.mp hlt') hp'.2
        · obtain ⟨k, hi, hp, hbest⟩ := h2
          refine .inr ⟨i + 1, by rw [h1]; congr 2; omega, k, by simpa using hi,
            ⟨hp.1.trans hlt, hp.2⟩, fun j k' hj hp' => ?_⟩
          cases j with
          | zero =>
            obtain rfl : key = k' := by simpa using hj
            exact ⟨hp.1.le, fun he => absurd he (ne_of_gt hp.1)⟩
          | succ j =>
            by_cases hk' : k'.priority < key.priority
            · obtain ⟨h3, h4⟩ := hbest j k' (by simpa using hj) ⟨hk', hp'.2⟩
              exact ⟨h3, fun he => Nat.succ_le_succ (h4 he)⟩
            · have := hp.1.trans_le (not_lt.mp hk')
              exact ⟨this.le, fun he => absurd he (ne_of_gt this)⟩
      · exact hskip (fun h => hmatch h.2) (by rw [lookupFrom, if_neg hprio, hmk]; simp [hmatch])

variable {s : TernaryMap}

theorem entryExists_iff : s.entryExists key = true ↔
    ∃ (i : ℕ) (k : TernaryMatchKey), s.keys[i]? = some k ∧ k.ident = key.ident := by
  have hle : s.findHandle key ≤ s.keys.length := List.findIdx_le_length
  have hne : s.findHandle key ≠ s.keys.length ↔ s.findHandle key < s.keys.length := by omega
  rw [entryExists, decide_eq_true_eq, hne, findHandle, List.findIdx_lt_length]
  simp only [decide_eq_true_eq, TernaryMatchKey.ident_eq_iff, List.mem_iff_getElem?]
  constructor
  · rintro ⟨k, ⟨i, hi⟩, hk⟩
    exact ⟨i, k, hi, hk⟩
  · rintro ⟨i, k, hi, hk⟩
    exact ⟨k, ⟨i, hi⟩, hk⟩

/-- `find_handle` finds the slot of a key that only one slot holds. -/
theorem findHandle_eq {i : ℕ} {k : TernaryMatchKey} (hi : s.keys[i]? = some k)
    (hk : k.ident = key.ident)
    (huniq : ∀ j k', s.keys[j]? = some k' → k'.ident = key.ident → j = i) :
    s.findHandle key = i := by
  have hlt : s.findHandle key < s.keys.length := by
    rw [findHandle, List.findIdx_lt_length]
    exact ⟨k, List.mem_of_getElem? hi, by simpa [TernaryMatchKey.ident_eq_iff] using hk⟩
  refine huniq _ _ (List.getElem?_eq_getElem hlt) ?_
  have := List.findIdx_getElem (w := hlt)
  rw [decide_eq_true_eq] at this
  exact TernaryMatchKey.ident_eq_iff.mpr this

end TernaryMap

namespace MatchUnit

variable {V : Type} {kb : MatchKeyBuilder} {u u' : MatchUnit TernaryMatchKey V TernaryMap}

/-- The key of accepted parameters spans the whole key width. -/
theorem entryKey_ternary (hkb : kb.Pushed) {params : List MatchKeyParam}
    (hs : kb.build.matchParamsSanityCheck params = true) (priority : ℤ) :
    ∃ key : TernaryMatchKey, entryKey kb.build params priority = some key ∧
      key.priority = priority ∧ key.data.length = kb.nbytesKey ∧
      key.mask.length = kb.nbytesKey := by
  have hu := hkb.unbuilt
  have h := hu.sanityCheck_iff.mp hs
  have hmask : (kb.order.map (MatchKeyBuilder.maskBlock params)).flatten.length =
      kb.nbytesKey := by
    rw [length_flatten_map, hu.nbytesKey_eq]
    exact congrArg List.sum (List.map_congr_left fun i hi =>
      h.length_maskBlock hu (MatchKeyBuilder.mem_order.mp hi))
  have hdata : (kb.order.map (kb.ternaryBlock params)).flatten.length = kb.nbytesKey := by
    rw [length_flatten_map, hu.nbytesKey_eq]
    refine congrArg List.sum (List.map_congr_left fun i hi => ?_)
    have hi := MatchKeyBuilder.mem_order.mp hi
    simp [MatchKeyBuilder.ternaryBlock, h.length_keyBlock hi, h.length_maskBlock hu hi]
  have hbig : kb.build.bigMask.length = kb.nbytesKey := by
    rw [hu.build_bigMask, length_flatten_map, hu.nbytesKey_eq]
    exact congrArg List.sum (List.map_congr_left fun i hi =>
      hu.length_mask (MatchKeyBuilder.mem_order.mp hi))
  obtain ⟨d, hd, hlen⟩ : ∃ d, kb.build.applyBigMask
      (kb.order.map (kb.ternaryBlock params)).flatten = some d ∧ d.length = kb.nbytesKey := by
    rw [MatchKeyBuilder.applyBigMask, MatchKeyBuilder.applyMask, if_pos (hdata.trans hbig.symm)]
    split_ifs
    · exact ⟨_, rfl, by simp only [List.length_zipWith, hdata, hbig, min_self]⟩
    · exact ⟨_, rfl, hdata⟩
  refine ⟨⟨d, (kb.order.map (MatchKeyBuilder.maskBlock params)).flatten, priority, 0⟩, ?_, rfl,
    hlen, hmask⟩
  rw [entryKey]
  change (kb.build.matchParamsToTernary params).bind _ = _
  rw [h.matchParamsToTernary hu]
  change (kb.build.applyBigMask (kb.order.map (kb.ternaryBlock params)).flatten).bind _ = _
  rw [hd]
  rfl

/-- The slot array holds the live entries, each in its own slot, and marks every other
slot as empty. -/
structure TernaryInv (kb : MatchKeyBuilder) (u : MatchUnit TernaryMatchKey V TernaryMap) :
    Prop where
  wf : u.Wf
  builder : u.matchKeyBuilder = kb.build
  nbytesKey : u.lookupStructure.nbytesKey = kb.nbytesKey
  length_keys : u.lookupStructure.keys.length = u.size
  stored : ∀ i e, u.Live i e → ∃ k, u.lookupStructure.keys[i]? = some k ∧ k.ident = e.key.ident
  width : ∀ i e, u.Live i e → e.key.priority < intMax ∧ e.key.data.length = kb.nbytesKey ∧
    e.key.mask.length = kb.nbytesKey
  free : ∀ i k, i ∉ u.handles.handles → u.lookupStructure.keys[i]? = some k → k.priority = intMax
  distinct : ∀ i j e e', u.Live i e → u.Live j e' → e.key.ident = e'.key.ident → i = j

theorem Wf.exists_entry {K S : Type} [MatchKey K] {u : MatchUnit K V S} (h : u.Wf) {i : ℕ}
    (hi : i ∈ u.handles.handles) : ∃ e, u.entries[i]? = some e :=
  ⟨_, List.getElem?_eq_getElem (by rw [h.length_entries]; exact h.handles_lt i hi)⟩

namespace TernaryInv

/-- A slot that is not marked empty holds a live entry. -/
theorem slot_live (h : TernaryInv kb u) {i : ℕ} {k : TernaryMatchKey}
    (hk : u.lookupStructure.keys[i]? = some k) (hprio : k.priority < intMax) :
    ∃ e, u.Live i e ∧ k.ident = e.key.ident := by
  by_cases hi : i ∈ u.handles.handles
  · obtain ⟨e, he⟩ := h.wf.exists_entry hi
    obtain ⟨k', hk', hid⟩ := h.stored i e ⟨hi, he⟩
    rw [hk, Option.some.injEq] at hk'
    exact ⟨e, ⟨hi, he⟩, hk' ▸ hid⟩
  · exact absurd (h.free i k hi hk) (ne_of_lt hprio)

theorem create [Inhabited V] (kb : MatchKeyBuilder) {size : ℕ} (hsize : size ≤ 2 ^ 32) :
    TernaryInv kb (MatchUnit.create size kb (.create size kb.nbytesKey) :
      MatchUnit TernaryMatchKey V TernaryMap) where
  wf := .create hsize kb _
  builder := rfl
  nbytesKey := rfl
  length_keys := by simp [MatchUnit.create, TernaryMap.create]
  stored := by simp [Live, MatchUnit.create]
  width := by simp [Live, MatchUnit.create]
  free := by
    intro i k _ hk
    obtain ⟨-, rfl⟩ := List.mem_replicate.mp (List.mem_of_getElem? hk)
    rfl
  distinct := by simp [Live, MatchUnit.create]

theorem entryExists_iff (h : TernaryInv kb u) {key : TernaryMatchKey}
    (hprio : key.priority < intMax) : u.lookupStructure.entryExists key = true ↔
      ∃ i e, u.Live i e ∧ e.key.ident = key.ident := by
  rw [TernaryMap.entryExists_iff]
  constructor
  · rintro ⟨i, k, hk, hid⟩
    have hp : k.priority < intMax := by
      rw [(TernaryMatchKey.ident_eq_iff.mp hid).1]
      exact hprio
    obtain ⟨e, he, hid'⟩ := h.slot_live hk hp
    exact ⟨i, e, he, hid'.symm.trans hid⟩
  · rintro ⟨i, e, he, hid⟩
    obtain ⟨k, hk, hid'⟩ := h.stored i e he
    exact ⟨i, k, hk, hid'.trans hid⟩

theorem findHandle (h : TernaryInv kb u) {i : ℕ} {e : Entry TernaryMatchKey V} (he : u.Live i e) :
    u.lookupStructure.findHandle (bumped e.key) = i := by
  obtain ⟨k, hk, hid⟩ := h.stored i e he
  refine TernaryMap.findHandle_eq hk hid fun j k' hk' hid' => ?_
  have hp : k'.priority < intMax := by
    rw [(TernaryMatchKey.ident_eq_iff.mp hid').1]
    exact (h.width i e he).1
  obtain ⟨e', he', hid''⟩ := h.slot_live hk' hp
  exact h.distinct j i e' e he' he (hid''.symm.trans hid')

theorem addEntry (h : TernaryInv kb u) (hkb : kb.Pushed) {now : ℕ} {params : List MatchKeyParam}
    {value : V} {priority : ℤ} (hprio : priority < intMax) {r : Result ℕ}
    (hs : u.addEntry ternaryMap now params value priority = some (r, u')) : TernaryInv kb u' := by
  rcases addEntry_cases h.wf hs with ⟨_, -, rfl, -⟩ |
    ⟨key, old, ls, m, hsane, hkey, hdup, -, hlt, hold, hls, -, -, rfl⟩
  · exact h
  set i := u.handles.firstEmpty
  have hfree : i ∉ u.handles.handles := u.handles.firstEmpty_notMem
  rw [h.builder] at hsane hkey
  obtain ⟨key', hkey', hp, hd, hm⟩ := entryKey_ternary hkb hsane priority
  obtain rfl : key' = key := by simpa [hkey'] using hkey
  have hltk : i < u.lookupStructure.keys.length := by
    rw [h.length_keys]
    exact hlt
  have hlte : i < u.entries.length := by
    rw [h.wf.length_entries]
    exact hlt
  obtain rfl : { u.lookupStructure with keys := u.lookupStructure.keys.set i key' } = ls := by
    simpa [ternaryMap, TernaryMap.addEntry, hltk] using hls
  -- the key is new, so no live entry has its identity
  have hnew : ∀ j e, u.Live j e → e.key.ident ≠ key'.ident := by
    intro j e he hid
    have hexists : u.lookupStructure.entryExists key' = false := by simpa [ternaryMap] using hdup
    have := (h.entryExists_iff (hp ▸ hprio)).mpr ⟨j, e, he, hid⟩
    rw [hexists] at this
    exact absurd this (by simp)
  have hlive : ∀ j e, (u.installed i ⟨MatchKey.setVersion key' (MatchKey.version old.key), value⟩
      { m.reset now with version := MatchKey.version old.key }
      { u.lookupStructure with keys := u.lookupStructure.keys.set i key' }).Live j e →
      (j = i ∧ e.key.ident = key'.ident) ∨ (j ≠ i ∧ u.Live j e) := by
    rintro j e ⟨hj, he⟩
    by_cases hji : j = i
    · subst hji
      simp only [installed, List.getElem?_set, ↓reduceIte, hlte, Option.some.injEq] at he
      exact .inl ⟨rfl, by rw [← he]; rfl⟩
    · simp only [installed, Finset.mem_insert, hji, false_or] at hj
      simp only [installed, List.getElem?_set, Ne.symm hji, ↓reduceIte] at he
      exact .inr ⟨hji, hj, he⟩
  refine ⟨h.wf.installed hlt hfree ?_, h.builder, h.nbytesKey, ?_, ?_, ?_, ?_, ?_⟩
  · rw [MatchKey.version_setVersion]
    exact h.wf.version_lt old (List.mem_of_getElem? hold)
  · simp [installed, h.length_keys]
  · intro j e he
    rcases hlive j e he with ⟨rfl, hid⟩ | ⟨hji, he⟩
    · exact ⟨key', by simp [installed, hltk], hid.symm⟩
    · simp only [installed, List.getElem?_set, Ne.symm hji, ↓reduceIte]
      exact h.stored j e he
  · intro j e he
    rcases hlive j e he with ⟨rfl, hid⟩ | ⟨hji, he⟩
    · obtain ⟨h1, h2, h3⟩ := TernaryMatchKey.ident_eq_iff.mp hid
      rw [h1, h2, h3]
      exact ⟨hp ▸ hprio, hd, hm⟩
    · exact h.width j e he
  · intro j k hj hk
    simp only [installed, Finset.mem_insert, not_or] at hj
    simp only [installed, List.getElem?_set, Ne.symm hj.1, ↓reduceIte] at hk
    exact h.free j k hj.2 hk
  · intro j j' e e' he he' hid
    rcases hlive j e he with ⟨rfl, h1⟩ | ⟨hji, he⟩ <;>
      rcases hlive j' e' he' with ⟨rfl, h2⟩ | ⟨hji', he'⟩
    · rfl
    · exact absurd (hid.symm.trans h1) (hnew j' e' he')
    · exact absurd (hid.trans h2) (hnew j e he)
    · exact h.distinct j j' e e' he he' hid

/-- Deleting a live entry marks its slot empty and leaves every other slot alone. -/
theorem deleteEntry_structure (h : TernaryInv kb u) {i : ℕ} {e : Entry TernaryMatchKey V}
    (he : u.Live i e) : ∃ k, u.lookupStructure.keys[i]? = some k ∧
      u.lookupStructure.deleteEntry (bumped e.key) =
        some { u.lookupStructure with
          keys := u.lookupStructure.keys.set i { k with priority := intMax } } := by
  obtain ⟨k, hk, -⟩ := h.stored i e he
  refine ⟨k, hk, ?_⟩
  rw [TernaryMap.deleteEntry, h.findHandle he, hk]
  rfl

theorem deleteEntry (h : TernaryInv kb u) {handle : ℕ} {r : Result Unit}
    (hs : u.deleteEntry ternaryMap handle = some (r, u')) : TernaryInv kb u' := by
  rcases deleteEntry_cases hs with ⟨_, -, rfl, -⟩ | ⟨e, ls, hc, hls, -, rfl⟩
  · exact h
  obtain ⟨hmem, hent, -⟩ := checkHandle_ok_iff.mp hc
  set i := handleInternal handle
  obtain ⟨k, hk, hdel⟩ := h.deleteEntry_structure ⟨hmem, hent⟩
  obtain rfl := Option.some.inj (hdel.symm.trans hls)
  refine ⟨h.wf.removed hmem, h.builder, h.nbytesKey, by simp [removed, h.length_keys],
    ?_, ?_, ?_, ?_⟩
  · intro j e' he'
    obtain ⟨hji, he'⟩ := live_removed.mp he'
    simp only [removed, List.getElem?_set, Ne.symm hji, ↓reduceIte]
    exact h.stored j e' he'
  · intro j e' he'
    exact h.width j e' (live_removed.mp he').2
  · intro j k' hj hk'
    by_cases hji : j = i
    · subst hji
      have hlt : i < u.lookupStructure.keys.length := (List.getElem?_eq_some_iff.mp hk).1
      simp only [removed, List.getElem?_set, ↓reduceIte, hlt, Option.some.injEq] at hk'
      rw [← hk']
    · simp only [removed, List.getElem?_set, Ne.symm hji, ↓reduceIte] at hk'
      exact h.free j k' (fun hmem' => hj (Finset.mem_erase.mpr ⟨hji, hmem'⟩)) hk'
  · intro j j' e₁ e₂ h₁ h₂ hid
    exact h.distinct j j' e₁ e₂ (live_removed.mp h₁).2 (live_removed.mp h₂).2 hid

theorem modifyEntry (h : TernaryInv kb u) {handle : ℕ} {value : V} {r : Result Unit}
    (hs : u.modifyEntry handle value = some (r, u')) : TernaryInv kb u' := by
  rcases modifyEntry_cases hs with ⟨_, -, rfl, -⟩ | ⟨e, hc, -, rfl⟩
  · exact h
  obtain ⟨hmem, hent, -⟩ := checkHandle_ok_iff.mp hc
  set i := handleInternal handle
  -- only the value of one entry changes, so every live key was live before
  have hlive : ∀ j e', (u.rewritten i { e with value }).Live j e' →
      ∃ e₀, u.Live j e₀ ∧ e₀.key = e'.key := by
    rintro j e' ⟨hj, he'⟩
    by_cases hji : j = i
    · subst hji
      have hlt : i < u.entries.length := (List.getElem?_eq_some_iff.mp hent).1
      simp only [rewritten, List.getElem?_set, ↓reduceIte, hlt, Option.some.injEq] at he'
      exact ⟨e, ⟨hmem, hent⟩, by rw [← he']⟩
    · simp only [rewritten, List.getElem?_set, Ne.symm hji, ↓reduceIte] at he'
      exact ⟨e', ⟨hj, he'⟩, rfl⟩
  refine ⟨h.wf.rewritten (h.wf.version_lt e (List.mem_of_getElem? hent)), h.builder, h.nbytesKey,
    h.length_keys, ?_, ?_, h.free, ?_⟩
  · intro j e' he'
    obtain ⟨e₀, he₀, hkey⟩ := hlive j e' he'
    exact hkey ▸ h.stored j e₀ he₀
  · intro j e' he'
    obtain ⟨e₀, he₀, hkey⟩ := hlive j e' he'
    exact hkey ▸ h.width j e₀ he₀
  · intro j j' e₁ e₂ h₁ h₂ hid
    obtain ⟨e₁', h₁', hk₁⟩ := hlive j e₁ h₁
    obtain ⟨e₂', h₂', hk₂⟩ := hlive j' e₂ h₂
    exact h.distinct j j' e₁' e₂' h₁' h₂' (by rw [hk₁, hk₂, hid])

theorem resetState [Inhabited V] (h : TernaryInv kb u) (hs : u.resetState ternaryMap = some u') :
    TernaryInv kb u' := by
  obtain rfl := Option.some.inj hs
  have hwf := Wf.create (K := TernaryMatchKey) (V := V) h.wf.size_le kb u.lookupStructure
  refine ⟨⟨hwf.size_le, hwf.length_entries, hwf.length_entryMeta, hwf.handles_lt,
    hwf.numEntries_eq, hwf.version_lt⟩, h.builder, h.nbytesKey, ?_, ?_, ?_, ?_, ?_⟩
  · simp [TernaryMap.clear, h.length_keys]
  · simp [Live, HandleMgr.clear]
  · simp [Live, HandleMgr.clear]
  · intro i k _ hk
    obtain ⟨k', -, rfl⟩ := List.mem_map.mp (List.mem_of_getElem? hk)
    rfl
  · simp [Live, HandleMgr.clear]

/-- The one call a ternary table does not survive gives an entry the priority that marks an
empty slot. -/
def BelowSentinel (_ : MatchUnit TernaryMatchKey V TernaryMap) : Op V → Prop
  | .addEntry _ _ _ priority => priority < intMax
  | _ => True

instance (u : MatchUnit TernaryMatchKey V TernaryMap) (op : Op V) :
    Decidable (BelowSentinel u op) := by
  cases op <;> unfold BelowSentinel <;> infer_instance

theorem step [Inhabited V] (h : TernaryInv kb u) (hkb : kb.Pushed) {op : Op V}
    (hok : BelowSentinel u op) {r : Result (Reply V)}
    (hs : MatchUnit.step ternaryMap u op = some (r, u')) : TernaryInv kb u' := by
  rcases step_cases hs with ⟨_, _, _, _, _, rfl, -, h'⟩ | ⟨_, _, -, -, h'⟩ |
    ⟨_, _, _, -, -, h'⟩ | rfl | ⟨-, -, h'⟩
  · exact h.addEntry hkb hok h'
  · exact h.deleteEntry h'
  · exact h.modifyEntry h'
  · exact h
  · exact h.resetState h'

/-- A lookup finds the live match of least priority, in the lowest slot among ties. -/
theorem lookupKey (h : TernaryInv kb u) {data : List Byte} (hdata : data.length = kb.nbytesKey) :
    (u.lookupKey ternaryMap data = some none ∧ ∀ i e, u.Live i e → ¬ e.key.Matches data) ∨
    ∃ i e, u.lookupKey ternaryMap data = some (some (handleSet e.key.version i, e.value)) ∧
      u.Live i e ∧ e.key.Matches data ∧ ∀ j e', u.Live j e' → e'.key.Matches data →
        e.key.priority ≤ e'.key.priority ∧ (e'.key.priority = e.key.priority → i ≤ j) := by
  have hm : ∀ k ∈ u.lookupStructure.keys, k.priority < intMax →
      TernaryMap.matchesFrom k data 0 u.lookupStructure.nbytesKey =
        some (decide (k.Matches data)) := by
    intro k hk hp
    obtain ⟨i, hi⟩ := List.mem_iff_getElem?.mp hk
    obtain ⟨e, he, hid⟩ := h.slot_live hi hp
    obtain ⟨-, h2, h3⟩ := TernaryMatchKey.ident_eq_iff.mp hid
    obtain ⟨-, hd, hm⟩ := h.width i e he
    rw [h.nbytesKey]
    exact TernaryMap.matchesFrom_zero (h2 ▸ hd) (h3 ▸ hm) hdata
  have hlookup : ternaryMap.lookup u.lookupStructure data = TernaryMap.lookupFrom
      u.lookupStructure.nbytesKey data u.lookupStructure.keys 0 intMax none := rfl
  rcases TernaryMap.lookupFrom_spec data u.lookupStructure.keys 0 none hm le_rfl with
    ⟨h1, h2⟩ | ⟨i, h1, k, hk, ⟨hp, hmatch⟩, hbest⟩
  · refine .inl ⟨by rw [MatchUnit.lookupKey, hlookup, h1]; rfl, fun i e he hmatch => ?_⟩
    obtain ⟨k, hk, hid⟩ := h.stored i e he
    refine h2 k (List.mem_of_getElem? hk) ?_ ((TernaryMatchKey.Matches.congr hid data).mpr hmatch)
    rw [(TernaryMatchKey.ident_eq_iff.mp hid).1]
    exact (h.width i e he).1
  · obtain ⟨e, he, hid⟩ := h.slot_live hk hp
    refine .inr ⟨i, e, ?_, he, (TernaryMatchKey.Matches.congr hid data).mp hmatch, ?_⟩
    · rw [MatchUnit.lookupKey, hlookup, h1, Nat.zero_add]
      simp only [he.2, Option.bind_eq_bind, Option.bind_some]
      rfl
    · intro j e' he' hmatch'
      obtain ⟨k', hk', hid'⟩ := h.stored j e' he'
      have hprio := (TernaryMatchKey.ident_eq_iff.mp hid).1
      have hprio' := (TernaryMatchKey.ident_eq_iff.mp hid').1
      rw [← hprio, ← hprio']
      refine hbest j k' hk' ⟨?_, (TernaryMatchKey.Matches.congr hid' data).mpr hmatch'⟩
      rw [hprio']
      exact (h.width j e' he').1

/-- An addition returns, and reports a duplicate exactly for a key that is installed. -/
theorem addEntry_duplicate_iff (h : TernaryInv kb u) (hkb : kb.Pushed) (now : ℕ)
    (params : List MatchKeyParam) (value : V) {priority : ℤ} (hprio : priority < intMax) :
    ∃ r u', u.addEntry ternaryMap now params value priority = some (r, u') ∧
      (r = .error .duplicateEntry ↔ u.matchKeyBuilder.matchParamsSanityCheck params = true ∧
        ∃ key : TernaryMatchKey, entryKey u.matchKeyBuilder params priority = some key ∧
          ∃ i e, u.Live i e ∧ e.key.ident = key.ident) := by
  obtain ⟨⟨r, u'⟩, hs⟩ : ∃ p, u.addEntry ternaryMap now params value priority = some p := by
    refine addEntry_total h.wf (fun hsane => ?_) (fun _ => ⟨_, rfl⟩) fun key i hi => ?_
    · rw [h.builder] at hsane ⊢
      obtain ⟨key, hkey, -⟩ := entryKey_ternary hkb hsane priority
      exact ⟨key, hkey⟩
    · rw [← h.length_keys] at hi
      exact ⟨_, by simp only [ternaryMap, TernaryMap.addEntry, hi, ↓reduceIte]; rfl⟩
  refine ⟨r, u', hs, ?_⟩
  have hlive : ∀ key : TernaryMatchKey, u.matchKeyBuilder.matchParamsSanityCheck params = true →
      entryKey u.matchKeyBuilder params priority = some key →
      (u.lookupStructure.entryExists key = true ↔ ∃ i e, u.Live i e ∧ e.key.ident = key.ident) := by
    intro key hsane hkey
    rw [h.builder] at hsane hkey
    obtain ⟨key', hkey', hp, -⟩ := entryKey_ternary hkb hsane priority
    obtain rfl : key' = key := by simpa [hkey'] using hkey
    exact h.entryExists_iff (hp ▸ hprio)
  rcases addEntry_cases h.wf hs with ⟨e, rfl, -, ⟨rfl, hbad⟩ | ⟨hsane, key, hkey, ⟨rfl, hex⟩ |
    ⟨rfl, hex, -⟩⟩⟩ | ⟨key, _, _, _, hsane, hkey, hex, -, -, -, -, -, rfl, -⟩
  · simp [hbad]
  · have hex : u.lookupStructure.entryExists key = true := by simpa [ternaryMap] using hex
    simp only [hsane, true_and, true_iff]
    exact ⟨key, hkey, (hlive key hsane hkey).mp hex⟩
  all_goals
    have hex : u.lookupStructure.entryExists key = false := by simpa [ternaryMap] using hex
    simp only [Except.error.injEq, reduceCtorEq, hsane, true_and, false_iff, hkey,
      Option.some.injEq, exists_eq_left']
    rw [← hlive key hsane hkey, hex]
    simp

/-- A deletion returns, and removes the entry of the handle and no other. -/
theorem deleteEntry_exact (h : TernaryInv kb u) (handle : ℕ) :
    ∃ r u', u.deleteEntry ternaryMap handle = some (r, u') ∧
      ((∃ e, u.checkHandle handle = some (.ok e)) → r = .ok () ∧
        ∀ i e', u'.Live i e' ↔ i ≠ handleInternal handle ∧ u.Live i e') ∧
      (∀ code, r = .error code → u' = u) := by
  obtain ⟨⟨r, u'⟩, hs⟩ : ∃ p, u.deleteEntry ternaryMap handle = some p := by
    refine deleteEntry_total h.wf fun e hc => ?_
    obtain ⟨hmem, hent, -⟩ := checkHandle_ok_iff.mp hc
    obtain ⟨k, -, hdel⟩ := h.deleteEntry_structure ⟨hmem, hent⟩
    exact ⟨_, hdel⟩
  refine ⟨r, u', hs, ?_⟩
  rcases deleteEntry_cases hs with ⟨e, rfl, rfl, hc'⟩ | ⟨e, ls, -, -, rfl, rfl⟩
  · refine ⟨?_, fun _ _ => rfl⟩
    rintro ⟨e', he'⟩
    simp [hc'] at he'
  · exact ⟨fun _ => ⟨rfl, fun i e' => live_removed⟩, by simp⟩

end TernaryInv

/-- Along every run whose additions stay below the sentinel priority, lookups return the
live match of least priority in the lowest slot, duplicates are the installed keys, and a
deletion removes the entry it names and no other. -/
theorem ternary_lookup_correct [Inhabited V] (hkb : kb.Pushed) {size : ℕ} (hsize : size ≤ 2 ^ 32)
    (hrun : Transition.Reach (step ternaryMap) TernaryInv.BelowSentinel
      (create size kb (.create size kb.nbytesKey)) u) :
    (∀ data : List Byte, data.length = kb.nbytesKey →
      (u.lookupKey ternaryMap data = some none ∧ ∀ i e, u.Live i e → ¬ e.key.Matches data) ∨
      ∃ i e, u.lookupKey ternaryMap data = some (some (handleSet e.key.version i, e.value)) ∧
        u.Live i e ∧ e.key.Matches data ∧ ∀ j e', u.Live j e' → e'.key.Matches data →
          e.key.priority ≤ e'.key.priority ∧ (e'.key.priority = e.key.priority → i ≤ j)) ∧
    (∀ key : TernaryMatchKey, key.priority < intMax →
      (u.lookupStructure.entryExists key = true ↔
        ∃ i e, u.Live i e ∧ e.key.ident = key.ident)) ∧
    (∀ now params value priority, priority < intMax →
      ∃ r u', u.addEntry ternaryMap now params value priority = some (r, u') ∧
        (r = .error .duplicateEntry ↔ u.matchKeyBuilder.matchParamsSanityCheck params = true ∧
          ∃ key : TernaryMatchKey, entryKey u.matchKeyBuilder params priority = some key ∧
            ∃ i e, u.Live i e ∧ e.key.ident = key.ident)) ∧
    (∀ handle, ∃ r u', u.deleteEntry ternaryMap handle = some (r, u') ∧
      ((∃ e, u.checkHandle handle = some (.ok e)) → r = .ok () ∧
        ∀ i e', u'.Live i e' ↔ i ≠ handleInternal handle ∧ u.Live i e') ∧
      (∀ code, r = .error code → u' = u)) := by
  have h : TernaryInv kb u := hrun.invariant (TernaryInv kb) (.create kb hsize)
    fun _ _ _ _ hs hok hstep => hs.step hkb hok hstep
  exact ⟨fun data hdata => h.lookupKey hdata, fun key hp => h.entryExists_iff hp,
    fun now params value priority hp => h.addEntry_duplicate_iff hkb now params value hp,
    h.deleteEntry_exact⟩

/-- Two overlapping entries of one byte; the second has the smaller priority. -/
theorem ternary_lookup_correct_two_entries :
    ∃ u : MatchUnit TernaryMatchKey ℕ TernaryMap,
      Transition.Reach (step ternaryMap) TernaryInv.BelowSentinel
        (create 2 (({} : MatchKeyBuilder).pushBackField 0 0 8 .ternary) (.create 2 1)) u ∧
      u.lookupKey ternaryMap [0x15] = some (some (1, 70)) ∧
      u.lookupStructure.entryExists { data := [0x10], mask := [0xf0], priority := 7 } = true := by
  have heval : ((Transition.runAll (step ternaryMap) TernaryInv.BelowSentinel
      (create 2 (({} : MatchKeyBuilder).pushBackField 0 0 8 .ternary) (.create 2 1))
      [.addEntry 0 [{ type := .ternary, key := [0x1f], mask := [0xf0] }] 60 7,
        .addEntry 0 [{ type := .ternary, key := [0x05], mask := [0x0f] }] 70 3]).map
          fun u => (u.lookupKey ternaryMap [0x15], (u.entries[0]?.map fun e =>
            decide (e.key.ident = ([0x10], [0xf0], 7))), decide (0 ∈ u.handles.handles))) =
      some (some (some (1, 70)), some true, true) := by
    decide +kernel
  obtain ⟨u, hrun, hl⟩ := Option.map_eq_some_iff.mp heval
  simp only [Prod.mk.injEq, Option.map_eq_some_iff, decide_eq_true_eq] at hl
  obtain ⟨hl, ⟨e, he, hid⟩, hmem⟩ := hl
  have hreach := Transition.Reach.of_runAll hrun
  have hkb : (({} : MatchKeyBuilder).pushBackField 0 0 8 .ternary).Pushed :=
    .field 0 0 .ternary .empty (by decide) (by decide)
  exact ⟨u, hreach, hl, ((ternary_lookup_correct hkb (by decide) hreach).2.1 _ (by decide)).mpr
    ⟨0, e, ⟨hmem, he⟩, hid⟩⟩

/-- An entry with the sentinel priority is live and matches, yet no lookup finds it. -/
theorem ternary_lookup_misses_sentinel :
    ∃ (u : MatchUnit TernaryMatchKey ℕ TernaryMap) (e : Entry TernaryMatchKey ℕ),
      Transition.Reach (step ternaryMap) (fun _ _ => True)
        (create 1 (({} : MatchKeyBuilder).pushBackField 0 0 8 .ternary) (.create 1 1)) u ∧
      u.Live 0 e ∧ e.key.Matches [0x15] ∧ u.lookupKey ternaryMap [0x15] = some none := by
  have heval : ((Transition.runAll (step ternaryMap) (fun _ _ => True)
      (create 1 (({} : MatchKeyBuilder).pushBackField 0 0 8 .ternary) (.create 1 1))
      [.addEntry 0 [{ type := .ternary, key := [0x10], mask := [0xf0] }] 60 intMax]).map
          fun u => (u.lookupKey ternaryMap [0x15], (u.entries[0]?.map fun e =>
            decide (e.key.Matches [0x15])), decide (0 ∈ u.handles.handles))) =
      some (some none, some true, true) := by
    decide +kernel
  obtain ⟨u, hrun, hl⟩ := Option.map_eq_some_iff.mp heval
  simp only [Prod.mk.injEq, Option.map_eq_some_iff, decide_eq_true_eq] at hl
  obtain ⟨hl, ⟨e, he, hmatch⟩, hmem⟩ := hl
  exact ⟨u, e, .of_runAll hrun, ⟨hmem, he⟩, hmatch, hl⟩

end MatchUnit

end Bmv2
