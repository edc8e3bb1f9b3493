import Bmv2.Lib.Bisimulation
import Bmv2.Match.Sound

/-! What `clear` leaves of a lookup structure, next to a new one. -/
namespace Bmv2
open ByteBits Bisimulation

/-- A lookup structure whose `clear` undoes its use. `Fresh s₀` says that `s₀` is new, `From s₀ s`
that `s` is set up as `s₀` is, and `Same` that no call with a key that `Ok` accepts tells two
states apart. Entries with a priority that `Priority` accepts have such keys. -/
structure ClearLookup {K S : Type} [MatchKey K] (L : LookupStructure K S) where
  sound : SoundLookup L
  Priority : ℤ → Prop
  Ok : K → Prop
  Fresh : S → Prop
  From : S → S → Prop
  Same : S → S → Prop
  ok_setVersion : ∀ {k} v, Ok k → Ok (MatchKey.setVersion k v)
  ok_entryKey : ∀ {kb params priority key}, Priority priority →
    MatchUnit.entryKey kb params priority = some key → Ok key
  from_fresh : ∀ {s}, Fresh s → From s s
  from_addEntry : ∀ {s₀ s k h s'}, From s₀ s → L.addEntry s k h = some s' → From s₀ s'
  from_deleteEntry : ∀ {s₀ s k s'}, From s₀ s → L.deleteEntry s k = some s' → From s₀ s'
  from_clear : ∀ {s₀ s s'}, From s₀ s → L.clear s = some s' → From s₀ s'
  sound_clear : ∀ {s s'}, L.clear s = some s' → sound.Inv s' ∧ ∀ x i, ¬ sound.stored s' x i
  clear : ∀ {s₀ s}, Fresh s₀ → From s₀ s → ∃ s', L.clear s = some s' ∧ Same s' s₀
  clear_same : ∀ {s s'}, Same s s' → Related Same (L.clear s) (L.clear s')
  lookup : ∀ {s s' data}, Same s s' → L.lookup s data = L.lookup s' data
  entryExists : ∀ {s s' k}, Same s s' → Ok k → L.entryExists s k = L.entryExists s' k
  addEntry : ∀ {s s'} k h, Same s s' → Related Same (L.addEntry s k h) (L.addEntry s' k h)
  deleteEntry : ∀ {s s' k}, Same s s' → Ok k →
    Related Same (L.deleteEntry s k) (L.deleteEntry s' k)

def exactMapClear : ClearLookup exactMap where
  sound := exactMapSound
  Priority _ := True
  Ok _ := True
  Fresh s := s = ∅
  From _ _ := True
  Same := Eq
  ok_setVersion _ _ := trivial
  ok_entryKey _ _ := trivial
  from_fresh _ := trivial
  from_addEntry _ _ := trivial
  from_deleteEntry _ _ := trivial
  from_clear _ _ := trivial
  sound_clear := by
    intro s s' hs
    obtain rfl := Option.some.inj hs
    refine ⟨trivial, fun (x : List Byte) i hx => ?_⟩
    exact absurd ((AList.lookup_empty x).symm.trans hx) (by simp)
  clear := by
    rintro s₀ s rfl -
    exact ⟨∅, rfl, rfl⟩
  clear_same := by
    rintro s s' rfl
    exact .refl _
  lookup := by
    rintro s s' data rfl
    rfl
  entryExists := by
    rintro s s' k rfl -
    rfl
  addEntry := by
    rintro s s' k h rfl
    exact .refl _
  deleteEntry := by
    rintro s s' k rfl -
    exact .refl _

namespace Lpm

theorem insertDescend_width {p : List Byte} {t : Trie} {cur len : ℕ}
    {q : Trie × ℕ × List Byte × ℕ} (h : insertDescend t cur p len = some q) :
    q.1.keyWidthBytes = t.keyWidthBytes := by
  induction p generalizing t cur len with
  | nil =>
    rw [insertDescend] at h
    split_ifs at h
    rw [← Option.some.inj h]
  | cons b p ih =>
    rw [insertDescend] at h
    split_ifs at h
    · rw [← Option.some.inj h]
    · split at h
      · simp at h
      · split at h
        · exact ih h
        · exact (ih h).trans rfl

theorem insert_width {t t' : Trie} {p : List Byte} {len value : ℕ}
    (h : insert t p len value = some t') : t'.keyWidthBytes = t.keyWidthBytes := by
  obtain ⟨q, hq, h⟩ := Option.bind_eq_some_iff.mp h
  obtain ⟨key, -, h⟩ := Option.bind_eq_some_iff.mp h
  obtain ⟨n, -, h⟩ := Option.bind_eq_some_iff.mp h
  rw [← Option.some.inj h]
  exact insertDescend_width hq

theorem shrink_width {fuel : ℕ} {t t' : Trie} {cur : ℕ} (h : shrink fuel t cur = some t') :
    t'.keyWidthBytes = t.keyWidthBytes := by
  induction fuel generalizing t cur with
  | zero => simp [shrink] at h
  | succ fuel ih =>
    obtain ⟨n, -, h⟩ := Option.bind_eq_some_iff.mp h
    split_ifs at h
    · split at h
      · rw [← Option.some.inj h]
      · obtain ⟨pn, -, h⟩ := Option.bind_eq_some_iff.mp h
        split_ifs at h
        exact (ih h).trans rfl
    · rw [← Option.some.inj h]

theorem delete_width {t : Trie} {p : List Byte} {len : ℕ} {r : Bool × Trie}
    (h : delete t p len = some r) : r.2.keyWidthBytes = t.keyWidthBytes := by
  obtain ⟨found, -, h⟩ := Option.bind_eq_some_iff.mp h
  cases found with
  | none => rw [← Option.some.inj h]
  | some q =>
    obtain ⟨key, -, h⟩ := Option.bind_eq_some_iff.mp h
    obtain ⟨n, -, h⟩ := Option.bind_eq_some_iff.mp h
    split_ifs at h
    · rw [← Option.some.inj h]
    · obtain ⟨t', ht', h⟩ := Option.bind_eq_some_iff.mp h
      rw [← Option.some.inj h]
      exact (shrink_width ht').trans rfl
    · rw [← Option.some.inj h]

theorem create_width {w : ℕ} {auto : Bool} {t : Trie} (h : create w auto = some t) :
    t.keyWidthBytes = w := by
  rw [create] at h
  split_ifs at h
  rw [← Option.some.inj h]

end Lpm

def lpmTrieClear : ClearLookup lpmTrieStructure where
  sound := lpmTrieSound
  Priority _ := True
  Ok _ := True
  Fresh s := ∃ w, Lpm.create w true = some s
  From s₀ s := s.keyWidthBytes = s₀.keyWidthBytes
  Same := Eq
  ok_setVersion _ _ := trivial
  ok_entryKey _ _ := trivial
  from_fresh _ := rfl
  from_addEntry hfrom hs := (Lpm.insert_width hs).trans hfrom
  from_deleteEntry := by
    intro s₀ s k s' hfrom hs
    obtain ⟨r, hr, rfl⟩ := Option.map_eq_some_iff.mp hs
    exact (Lpm.delete_width hr).trans hfrom
  from_clear hfrom hs := (Lpm.create_width hs).trans hfrom
  sound_clear := by
    intro s s' hs
    have hgood := Lpm.Good.create hs
    refine ⟨⟨hgood.shape, hgood.release⟩, fun x i hx => ?_⟩
    exact absurd ((Lpm.content_create hs x.1 x.2).symm.trans hx) (by simp)
  clear := by
    rintro s₀ s ⟨w, hw⟩ hfrom
    refine ⟨s₀, ?_, rfl⟩
    change Lpm.create s.keyWidthBytes true = some s₀
    rw [hfrom, Lpm.create_width hw, hw]
  clear_same := by
    rintro s s' rfl
    exact .refl _
  lookup := by
    rintro s s' data rfl
    rfl
  entryExists := by
    rintro s s' k rfl -
    rfl
  addEntry := by
    rintro s s' k h rfl
    exact .refl _
  deleteEntry := by
    rintro s s' k rfl -
    exact .refl _

namespace TernaryMap

/-- Two slots that hold the same key, or are both marked empty. -/
def SameSlot (k k' : TernaryMatchKey) : Prop :=
  k = k' ∨ (k.priority = intMax ∧ k'.priority = intMax)

/-- Maps that differ in what deleted keys have left behind at most. -/
structure SameKeys (s s' : TernaryMap) : Prop where
  nbytesKey : s.nbytesKey = s'.nbytesKey
  slots : List.Forall₂ SameSlot s.keys s'.keys

theorem lookupFrom_sameSlots (nbytes : ℕ) (data : List Byte) {l l' : List TernaryMatchKey}
    (h : List.Forall₂ SameSlot l l') (slot : ℕ) {minPriority : ℤ} (hmin : minPriority ≤ intMax)
    (best : Option ℕ) :
    lookupFrom nbytes data l slot minPriority best =
      lookupFrom nbytes data l' slot minPriority best := by
  induction h generalizing slot minPriority best with
  | nil => rfl
  | @cons k k' l l' hk _ ih =>
    rcases hk with rfl | ⟨hk, hk'⟩
    · rw [lookupFrom, lookupFrom]
      split_ifs with hprio
      · exact ih (slot + 1) hmin best
      · have hlt : k.priority ≤ intMax := (lt_of_lt_of_le (not_le.mp hprio) hmin).le
        simp only [ih (slot + 1) hmin, ih (slot + 1) hlt]
    · rw [lookupFrom, lookupFrom, if_pos (hk ▸ hmin), if_pos (hk' ▸ hmin)]
      exact ih (slot + 1) hmin best

/-- A key below the sentinel priority is found at the same place, if at all. -/
theorem findIdx_sameSlots {l l' : List TernaryMatchKey} (h : List.Forall₂ SameSlot l l')
    {key : TernaryMatchKey} (hkey : key.priority < intMax) :
    (l.findIdx fun k =>
      decide (k.priority = key.priority ∧ k.data = key.data ∧ k.mask = key.mask)) =
    (l'.findIdx fun k =>
      decide (k.priority = key.priority ∧ k.data = key.data ∧ k.mask = key.mask)) := by
  induction h with
  | nil => rfl
  | @cons k k' l l' hk _ ih =>
    rw [List.findIdx_cons, List.findIdx_cons, ih]
    rcases hk with rfl | ⟨hk, hk'⟩
    · rfl
    · have hne : ¬ intMax = key.priority := hkey.ne'
      simp [hk, hk', hne]

theorem sameSlots_clear (l : List TernaryMatchKey) :
    List.Forall₂ SameSlot (l.map fun k => { k with priority := intMax })
      (List.replicate l.length {}) := by
  induction l with
  | nil => exact .nil
  | cons k l ih => exact .cons (.inr ⟨rfl, rfl⟩) ih

end TernaryMap

/-- `clear` marks the slots as empty and leaves their keys, so an entry of the sentinel priority
can run into one of them. -/
def ternaryMapClear : ClearLookup ternaryMap where
  sound := ternaryMapSound
  Priority p := p < intMax
  Ok k := k.priority < intMax
  Fresh s := ∃ size nbytesKey, s = TernaryMap.create size nbytesKey
  From s₀ s := s.nbytesKey = s₀.nbytesKey ∧ s.keys.length = s₀.keys.length
  Same := TernaryMap.SameKeys
  ok_setVersion _ hk := hk
  ok_entryKey := by
    intro kb params priority key hp hkey
    obtain ⟨k, -, hkey⟩ := Option.bind_eq_some_iff.mp hkey
    obtain ⟨data, -, hkey⟩ := Option.bind_eq_some_iff.mp hkey
    rw [← Option.some.inj hkey]
    exact hp
  from_fresh _ := ⟨rfl, rfl⟩
  from_addEntry := by
    intro s₀ s k h s' hfrom hs
    have hs : s.addEntry k h = some s' := hs
    rw [TernaryMap.addEntry] at hs
    split_ifs at hs
    rw [← Option.some.inj hs]
    exact ⟨hfrom.1, by simpa using hfrom.2⟩
  from_deleteEntry := by
    intro s₀ s k s' hfrom hs
    obtain ⟨k₀, -, rfl⟩ := Option.map_eq_some_iff.mp hs
    exact ⟨hfrom.1, by simpa using hfrom.2⟩
  from_clear := by
    intro s₀ s s' hfrom hs
    rw [← Option.some.inj hs]
    exact ⟨hfrom.1, by simpa [TernaryMap.clear] using hfrom.2⟩
  sound_clear := by
    intro s s' hs
    have hnone : ∀ x i, ¬ s'.Filled x i := by
      rintro x i ⟨k, hk, -, hp⟩
      rw [← Option.some.inj hs, TernaryMap.clear, List.getElem?_map] at hk
      obtain ⟨k₀, -, rfl⟩ := Option.map_eq_some_iff.mp hk
      exact lt_irrefl _ hp
    exact ⟨fun x i _ hi => absurd hi (hnone x i), hnone⟩
  clear := by
    rintro s₀ s ⟨size, nbytesKey, rfl⟩ ⟨hbytes, hlen⟩
    refine ⟨s.clear, rfl, hbytes, ?_⟩
    simp only [TernaryMap.create, List.length_replicate] at hlen
    have := TernaryMap.sameSlots_clear s.keys
    rw [hlen] at this
    exact this
  clear_same := by
    intro s s' hsame
    refine .some ⟨hsame.nbytesKey, ?_⟩
    refine List.forall₂_map_left_iff.mpr (List.forall₂_map_right_iff.mpr ?_)
    exact hsame.slots.imp fun _ _ _ => .inr ⟨rfl, rfl⟩
  lookup := by
    intro s s' data hsame
    have := TernaryMap.lookupFrom_sameSlots s'.nbytesKey data hsame.slots 0 le_rfl none
    simpa [ternaryMap, TernaryMap.lookup, hsame.nbytesKey] using this
  entryExists := by
    intro s s' k hsame hk
    have hidx : s.findHandle k = s'.findHandle k := TernaryMap.findIdx_sameSlots hsame.slots hk
    simp only [ternaryMap, TernaryMap.entryExists, hidx, hsame.slots.length_eq]
  addEntry := by
    intro s s' k h hsame
    change Related _ (s.addEntry k h) (s'.addEntry k h)
    rw [TernaryMap.addEntry, TernaryMap.addEntry, hsame.slots.length_eq]
    exact .ite (fun _ => .some ⟨hsame.nbytesKey, forall₂_set hsame.slots (.inl rfl) h⟩)
      fun _ => .none
  deleteEntry := by
    intro s s' k hsame hk
    change Related _ (s.deleteEntry k) (s'.deleteEntry k)
    have hidx : s.findHandle k = s'.findHandle k := TernaryMap.findIdx_sameSlots hsame.slots hk
    rw [TernaryMap.deleteEntry, TernaryMap.deleteEntry, hidx]
    refine (Related.getElem? hsame.slots _).map fun a b _ => ?_
    exact ⟨hsame.nbytesKey, forall₂_set hsame.slots (.inr ⟨rfl, rfl⟩) _⟩

end Bmv2
