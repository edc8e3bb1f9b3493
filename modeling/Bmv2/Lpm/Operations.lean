import Mathlib.Tactic.SplitIfs
import Bmv2.Lpm.Shape

/-! What each operation of the trie does to the stored prefixes, and when the 8-bit counters
of the nodes stay truthful. -/
namespace Bmv2.Lpm
open ByteBits

/-- The counters of a node against its two maps. A prefix stored with value 0 is counted
again by every later insertion, so `prefNum` is only an upper bound. -/
structure Node.Counted (n : Node) : Prop where
  prefixes_le : n.prefixes.keys.length ≤ n.prefNum
  prefNum_lt : n.prefNum < 256
  branches_eq : n.branches.keys.length = n.branchNum
  branchNum_lt : n.branchNum < 256

/-- The root is never freed, so its counters do not matter. -/
def Counted (t : Trie) : Prop := ∀ a n, t.heap a = some n → a ≠ t.root → n.Counted

/-- Whether the counter update at the last node of an insertion stays below 256. -/
def prefRoom (t : Trie) (cur : ℕ) (rest : List Byte) (r : ℕ) : Bool :=
  match restKey rest r, t.heap cur with
  | some key, some n =>
    cur = t.root ∨ (n.prefixes.lookup key).getD 0 ≠ 0 ∨ n.prefNum < 255
  | _, _ => true

/-- Whether an insertion starting at `cur` takes no 8-bit counter of a node other than the
root from 255 to 0. Nodes that the insertion creates start from 0. -/
def counterRoom (t : Trie) (cur : ℕ) : List Byte → ℕ → Bool
  | [], len => prefRoom t cur [] len
  | byte :: p, len =>
    if len < 8 then prefRoom t cur (byte :: p) len
    else match t.heap cur with
      | none => true
      | some n =>
        match getNextNode n byte with
        | some child => counterRoom t child p (len - 8)
        | none => cur = t.root ∨ n.branchNum < 255

/-- The prefix key of the last, incomplete byte of a prefix. -/
def keyOf (p : List Byte) (len : ℕ) : ℕ := getPrefixKey (len % 8) (p.getD (len / 8) 0)

/-- The parts of a trie that are fixed at its creation. -/
structure SameConfig (t' t : Trie) : Prop where
  root : t'.root = t.root
  width : t'.keyWidthBytes = t.keyWidthBytes
  release : t'.releaseMemory = t.releaseMemory

theorem SameConfig.refl (t : Trie) : SameConfig t t := ⟨rfl, rfl, rfl⟩

theorem restKey_drop {p : List Byte} {len : ℕ} (h : len ≤ 8 * p.length) :
    restKey (p.drop (len / 8)) (len % 8) = some (keyOf p len) := by
  rw [restKey]
  split_ifs with h0
  · simp [keyOf, h0, getPrefixKey]
  · have hlt : len / 8 < p.length := by omega
    simp [keyOf, List.head?_drop, hlt]

section Counters

variable {t : Trie} {cur par : ℕ} {n pn : Node} {b : Byte}

theorem Counted.addChild (h : Counted t) (hn : t.heap cur = some n)
    (hb : getNextNode n b = none) (hroom : cur = t.root ∨ n.branchNum < 255) :
    Counted (t.addChild cur n b) := by
  intro a m ha hroot
  have hroot' : a ≠ t.root := hroot
  by_cases hac : a = cur
  · subst hac
    have hlt : n.branchNum < 255 := hroom.resolve_left hroot'
    have hnc := h a n hn hroot'
    have hmem : b ∉ n.branches.keys := AList.lookup_eq_none.mp hb
    obtain rfl : _ = m := by simpa [Trie.addChild] using ha
    refine ⟨hnc.prefixes_le, hnc.prefNum_lt, ?_, Nat.mod_lt _ (by decide)⟩
    simp only [AList.keys_insert, List.length_cons, List.erase_of_not_mem hmem,
      hnc.branches_eq, incr]
    omega
  · by_cases han : a = t.next
    · subst han
      obtain rfl : _ = m := by simpa [Trie.addChild, hac] using ha
      exact ⟨by simp, by simp, by simp, by simp⟩
    · have : t.heap a = some m := by simpa [Trie.addChild, hac, han] using ha
      exact h a m this hroot'

theorem Counted.dropChild (h : Counted t) (hpn : t.heap par = some pn)
    (hb : (getNextNode pn b).isSome) : Counted (t.dropChild cur par pn b) := by
  intro a m ha hroot
  have hroot' : a ≠ t.root := hroot
  by_cases hap : a = par
  · subst hap
    have hnc := h a pn hpn hroot'
    have hmem : b ∈ pn.branches.keys := AList.lookup_isSome.mp hb
    have hpos : 0 < pn.branches.keys.length := List.length_pos_of_mem hmem
    have hlt := hnc.branchNum_lt
    obtain rfl : _ = m := by simpa [Trie.dropChild] using ha
    refine ⟨hnc.prefixes_le, hnc.prefNum_lt, ?_, Nat.mod_lt _ (by decide)⟩
    have heq := hnc.branches_eq
    simp only [AList.keys_erase, List.length_erase_of_mem hmem, decr]
    omega
  · by_cases hac : a = cur
    · subst hac
      simp [Trie.dropChild, hap] at ha
    · have : t.heap a = some m := by simpa [Trie.dropChild, hac, hap] using ha
      exact h a m this hroot'

theorem Counted.write {m : Node} (h : Counted t) (hm : cur ≠ t.root → m.Counted) :
    Counted (t.write cur m) := by
  intro a k ha hroot
  have hroot' : a ≠ t.root := hroot
  by_cases hac : a = cur
  · subst hac
    obtain rfl : m = k := by simpa [Trie.write] using ha
    exact hm hroot'
  · have : t.heap a = some k := by simpa [Trie.write, hac] using ha
    exact h a k this hroot'

/-- A fresh node has room for any insertion that starts at it. -/
theorem counterRoom_addChild (hne : t.next ≠ cur) (p : List Byte) (len : ℕ) :
    counterRoom (t.addChild cur n b) t.next p len = true := by
  have hheap : (t.addChild cur n b).heap t.next =
      some { parent := some cur, childId := b } := by
    simp [Trie.addChild, hne]
  have hpref : ∀ rest r, prefRoom (t.addChild cur n b) t.next rest r = true := by
    intro rest r
    rw [prefRoom, hheap]
    cases restKey rest r <;> simp
  cases p with
  | nil => exact hpref _ _
  | cons byte p =>
    rw [counterRoom, hheap]
    split_ifs
    · exact hpref _ _
    · simp [getNextNode]

end Counters

variable {t : Trie} {q p : List Byte} {cur len : ℕ}

/-- The insertion loop reaches the node of the prefix's whole bytes, creating the missing
nodes on the way, and stores nothing. -/
theorem insertDescend_spec (h : Shape t) (hq : t.walk q = some cur)
    (hlen : len ≤ 8 * p.length) :
    ∃ t' cur', insertDescend t cur p len = some (t', cur', p.drop (len / 8), len % 8) ∧
      Shape t' ∧ SameConfig t' t ∧ t'.walk (q ++ p.take (len / 8)) = some cur' ∧
      (∀ q' key, t'.content q' key = t.content q' key) ∧
      (Counted t → counterRoom t cur p len = true →
        Counted t' ∧ prefRoom t' cur' (p.drop (len / 8)) (len % 8) = true) := by
  induction p generalizing t q cur len with
  | nil =>
    obtain rfl : len = 0 := by simpa using hlen
    exact ⟨t, cur, rfl, h, .refl t, by simpa using hq, fun _ _ => rfl, fun hc hr => ⟨hc, hr⟩⟩
  | cons byte p ih =>
    by_cases h8 : len < 8
    · rw [Nat.div_eq_of_lt h8, Nat.mod_eq_of_lt h8]
      refine ⟨t, cur, by simp [insertDescend, h8], h, .refl t, by simpa using hq,
        fun _ _ => rfl, fun hc hr => ⟨hc, ?_⟩⟩
      rwa [counterRoom, if_pos h8] at hr
    · obtain ⟨n, hn⟩ := h.walk_live hq
      have hdiv : len / 8 = (len - 8) / 8 + 1 := by omega
      have hmod : len % 8 = (len - 8) % 8 := by omega
      have hlen' : len - 8 ≤ 8 * p.length := by
        simp only [List.length_cons] at hlen
        omega
      rw [hdiv, hmod, List.drop_succ_cons, List.take_succ_cons, insertDescend, if_neg h8,
        counterRoom, if_neg h8]
      simp only [hn]
      rw [show q ++ byte :: p.take ((len - 8) / 8) = q ++ [byte] ++ p.take ((len - 8) / 8) by
        simp]
      cases hb : getNextNode n byte with
      | some child =>
        have hwalk : t.walk (q ++ [byte]) = some child := by
          rw [Trie.walk_concat, hq]
          simp [Trie.child, hn, hb]
        exact ih h hwalk hlen'
      | none =>
        have hwalk : (t.addChild cur n byte).walk (q ++ [byte]) = some t.next := by
          rw [h.walk_addChild hq hn hb, if_pos rfl]
        have hne : t.next ≠ cur := fun he => by simp [← he, h.next] at hn
        obtain ⟨t', cur', hres, hsh, hcfg, hw, hcont, hcount⟩ :=
          ih (h.addChild hn hb) hwalk hlen'
        refine ⟨t', cur', hres, hsh, ⟨hcfg.root, hcfg.width, hcfg.release⟩, hw,
          fun q' key => ?_, fun hc hr => ?_⟩
        · rw [hcont, h.content_addChild hq hn hb]
        · exact hcount (hc.addChild hn hb (by simpa using hr)) (counterRoom_addChild hne _ _)

theorem descend_spec (h : Shape t) (hq : t.walk q = some cur) (hlen : len ≤ 8 * p.length) :
    descend t cur p len = some ((t.walk (q ++ p.take (len / 8))).map
      fun a => (a, p.drop (len / 8), len % 8)) := by
  induction p generalizing q cur len with
  | nil =>
    obtain rfl : len = 0 := by simpa using hlen
    simp [descend, hq]
  | cons byte p ih =>
    by_cases h8 : len < 8
    · simp [descend, h8, Nat.div_eq_of_lt h8, Nat.mod_eq_of_lt h8, hq]
    · obtain ⟨n, hn⟩ := h.walk_live hq
      have hdiv : len / 8 = (len - 8) / 8 + 1 := by omega
      have hmod : len % 8 = (len - 8) % 8 := by omega
      have hlen' : len - 8 ≤ 8 * p.length := by
        simp only [List.length_cons] at hlen
        omega
      have hstep := Trie.walk_concat_of_heap hq hn byte
      rw [hdiv, hmod, List.drop_succ_cons, List.take_succ_cons, descend, if_neg h8]
      simp only [hn]
      rw [show q ++ byte :: p.take ((len - 8) / 8) = q ++ [byte] ++ p.take ((len - 8) / 8) by
        simp]
      cases hb : getNextNode n byte with
      | some child => exact ih (hstep.trans hb) hlen'
      | none => rw [Trie.walk_append_eq_none (hstep.trans hb)]; rfl

/-- With truthful counters a node that is freed stores nothing at or below it. -/
theorem Counted.content_below (hc : Counted t) {n : Node} {b : Byte}
    (hq : t.walk (q ++ [b]) = some cur) (hn : t.heap cur = some n) (hroot : cur ≠ t.root)
    (h0 : n.prefNum = 0 ∧ n.branchNum = 0) {q' : List Byte} (hpre : q ++ [b] <+: q') (key : ℕ) :
    t.content q' key = none := by
  have hnc := hc cur n hn hroot
  have hpref : n.prefixes.keys = [] := List.length_eq_zero_iff.mp (by
    have := hnc.prefixes_le
    omega)
  have hbr : n.branches.keys = [] := List.length_eq_zero_iff.mp (by
    have := hnc.branches_eq
    omega)
  obtain ⟨r, rfl⟩ := hpre
  cases r with
  | nil =>
    have : n.prefixes.lookup key = none :=
      AList.lookup_eq_none.mpr (by simp [AList.mem_keys, hpref])
    simp [Trie.content, hq, Trie.stored, hn, this]
  | cons c r =>
    have hnone : t.walk (q ++ [b] ++ [c]) = none := by
      have : n.branches.lookup c = none := AList.lookup_eq_none.mpr (by simp [AList.mem_keys, hbr])
      rw [Trie.walk_concat, hq]
      simp [Trie.child, hn, getNextNode, this]
    rw [show q ++ [b] ++ c :: r = q ++ [b] ++ [c] ++ r by simp, Trie.content,
      Trie.walk_append_eq_none hnone]
    rfl

/-- Freeing upwards never adds a prefix, and with truthful counters it loses none. -/
theorem shrink_spec {fuel : ℕ} (h : Shape t) (hq : t.walk q = some cur)
    (hfuel : q.length < fuel) :
    ∃ t', shrink fuel t cur = some t' ∧ Shape t' ∧ SameConfig t' t ∧
      (∀ q' key v, t'.content q' key = some v → t.content q' key = some v) ∧
      (Counted t → Counted t' ∧ ∀ q' key, t'.content q' key = t.content q' key) := by
  induction q using List.reverseRecOn generalizing t cur fuel with
  | nil =>
    obtain ⟨fuel, rfl⟩ : ∃ f, fuel = f + 1 := ⟨fuel - 1, by omega⟩
    obtain ⟨i, hi⟩ := h.root
    obtain rfl : t.root = cur := by simpa using hq
    obtain ⟨n, hn, hni⟩ := Option.map_eq_some_iff.mp hi
    have hp : n.parent = none := congrArg Prod.fst hni
    refine ⟨t, ?_, h, .refl t, fun _ _ _ hv => hv, fun hc => ⟨hc, fun _ _ => rfl⟩⟩
    simp [shrink, hn, hp]
  | append_singleton q b ih =>
    obtain ⟨fuel, rfl⟩ : ∃ f, fuel = f + 1 := ⟨fuel - 1, by omega⟩
    obtain ⟨par, hpar, hb⟩ := Trie.walk_of_concat hq
    obtain ⟨n, hn, hni⟩ := Option.map_eq_some_iff.mp (h.child hb)
    obtain ⟨pn, hpn⟩ := h.walk_live hpar
    have hp : n.parent = some par := congrArg Prod.fst hni
    have hid : n.childId = b := congrArg Prod.snd hni
    have hnext : getNextNode pn b = some cur := by simpa [Trie.child, hpn] using hb
    have hne : par ≠ cur := by
      rintro rfl
      have := congrArg List.length (h.walk_injective hpar hq)
      simp at this
    have hroot : cur ≠ t.root := by
      rintro rfl
      have := congrArg List.length (h.walk_injective hq (Trie.walk_nil t))
      simp at this
    by_cases h0 : n.prefNum = 0 ∧ n.branchNum = 0
    · have hwalk : (t.dropChild cur par pn b).walk q = some par := by
        rw [h.walk_dropChild hq hpar hpn, if_neg, hpar]
        intro hpre
        have := hpre.length_le
        simp at this
      have hcont := h.content_dropChild hq hpar hpn
      obtain ⟨t', hres, hsh, hcfg, hsub, hcount⟩ :=
        ih (h.dropChild hb hne hpn) hwalk (by simpa using hfuel : q.length < fuel)
      refine ⟨t', ?_, hsh, ⟨hcfg.root, hcfg.width, hcfg.release⟩, fun q' key v hv => ?_,
        fun hc => ?_⟩
      · simp [shrink, hn, h0, hp, hpn, hid, hnext, hres]
      · have := hsub q' key v hv
        rw [hcont] at this
        split_ifs at this
        exact this
      · obtain ⟨hc', heq⟩ := hcount (hc.dropChild hpn (by simp [hnext]))
        refine ⟨hc', fun q' key => ?_⟩
        rw [heq, hcont]
        split_ifs with hpre
        · exact (hc.content_below hq hn hroot h0 hpre key).symm
        · rfl
    · exact ⟨t, by simp [shrink, hn, h0], h, .refl t, fun _ _ _ hv => hv,
        fun hc => ⟨hc, fun _ _ => rfl⟩⟩

/-- `bf_lpm_trie_insert` never aborts and overwrites exactly the named prefix. -/
theorem insert_spec (h : Shape t) (hlen : len ≤ 8 * p.length) (value : ℕ) :
    ∃ t', insert t p len value = some t' ∧ Shape t' ∧ SameConfig t' t ∧
      (∀ q' key, t'.content q' key =
        if q' = p.take (len / 8) ∧ key = keyOf p len then some value else t.content q' key) ∧
      (Counted t → counterRoom t t.root p len = true → Counted t') := by
  obtain ⟨t', cur, hres, hsh, hcfg, hw, hcont, hcount⟩ :=
    insertDescend_spec h (Trie.walk_nil t) hlen
  rw [List.nil_append] at hw
  obtain ⟨n, hn⟩ := hsh.walk_live hw
  set n' : Node := { n with prefixes := n.prefixes.insert (keyOf p len) value } with hn'
  set m : Node := if (n.prefixes.lookup (keyOf p len)).getD 0 ≠ 0 then n'
    else { n' with prefNum := incr n'.prefNum } with hm
  have hbranches : m.branches = n.branches := by rw [hm]; split_ifs <;> rfl
  have hprefixes : m.prefixes = n.prefixes.insert (keyOf p len) value := by
    rw [hm]; split_ifs <;> rfl
  have hres' : insert t p len value = some (t'.write cur m) := by
    simp only [insert, hres, Option.bind_eq_bind, Option.bind_some, restKey_drop hlen, hn,
      insertPrefix, hm, hn', decide_eq_true_eq]
  refine ⟨_, hres', hsh.write hn hbranches (by rw [hm]; split_ifs <;> rfl)
    (by rw [hm]; split_ifs <;> rfl), ⟨hcfg.root, hcfg.width, hcfg.release⟩, fun q' key => ?_,
    fun hc hr => ?_⟩
  · rw [hsh.content_write hw hn hbranches, hprefixes, hcont]
    by_cases hq' : q' = p.take (len / 8)
    · by_cases hkey : key = keyOf p len
      · subst hkey
        simp [hq']
      · have hold : t.content q' key = n.prefixes.lookup key := by
          rw [← hcont, hq', Trie.content, hw]
          simp [Trie.stored, hn]
        simp [hq', hkey, ← hold]
    · simp [hq']
  · obtain ⟨hc', hroom⟩ := hcount hc hr
    refine hc'.write fun hroot => ?_
    have hnc := hc' cur n hn hroot
    rw [prefRoom, restKey_drop hlen, hn] at hroom
    simp only [hroot, false_or, decide_eq_true_eq] at hroom
    have hle : (n.prefixes.insert (keyOf p len) value).keys.length ≤
        n.prefixes.keys.length + 1 := by
      simp only [AList.keys_insert, List.length_cons]
      have := List.length_erase_le (a := keyOf p len) (l := n.prefixes.keys)
      omega
    have h1 := hnc.prefixes_le
    rw [hm]
    split_ifs with hv
    · refine ⟨?_, hnc.prefNum_lt, hnc.branches_eq, hnc.branchNum_lt⟩
      have hmem : keyOf p len ∈ n.prefixes.keys := by
        apply AList.lookup_isSome.mp
        cases hl : n.prefixes.lookup (keyOf p len) with
        | none => simp [hl] at hv
        | some _ => rfl
      have hpos := List.length_pos_of_mem hmem
      simp only [hn', AList.keys_insert, List.length_cons, List.length_erase_of_mem hmem]
      omega
    · have hlt := hroom.resolve_left hv
      refine ⟨?_, Nat.mod_lt _ (by decide), hnc.branches_eq, hnc.branchNum_lt⟩
      simp only [hn', incr] at hle ⊢
      omega

/-- `bf_lpm_trie_has_prefix` reads the content at the prefix. -/
theorem hasPrefix_spec (h : Shape t) (hlen : len ≤ 8 * p.length) :
    hasPrefix t p len = some (t.content (p.take (len / 8)) (keyOf p len)).isSome := by
  rw [hasPrefix, descend_spec h (Trie.walk_nil t) hlen, List.nil_append, Trie.content]
  cases hw : t.walk (p.take (len / 8)) with
  | none => rfl
  | some a =>
    obtain ⟨n, hn⟩ := h.walk_live hw
    simp [restKey_drop hlen, hn, Trie.stored]

/-- `bf_lpm_trie_delete` reports whether the prefix was stored and adds nothing; with
truthful counters it removes exactly the named prefix. -/
theorem delete_spec (h : Shape t) (hlen : len ≤ 8 * p.length) :
    ∃ t', delete t p len = some ((t.content (p.take (len / 8)) (keyOf p len)).isSome, t') ∧
      Shape t' ∧ SameConfig t' t ∧
      (∀ q' key v, t'.content q' key = some v → t.content q' key = some v ∧
        (t.releaseMemory = true → ¬(q' = p.take (len / 8) ∧ key = keyOf p len))) ∧
      (t.releaseMemory = true → Counted t → Counted t' ∧ ∀ q' key, t'.content q' key =
        if q' = p.take (len / 8) ∧ key = keyOf p len then none else t.content q' key) := by
  have hdesc := descend_spec h (Trie.walk_nil t) hlen
  rw [List.nil_append] at hdesc
  cases hcontent : t.content (p.take (len / 8)) (keyOf p len) with
  | none =>
    refine ⟨t, ?_, h, .refl t, fun q' key v hv => ⟨hv, fun _ => ?_⟩,
      fun _ hc => ⟨hc, fun q' key => ?_⟩⟩
    · rw [delete, hdesc]
      cases hw : t.walk (p.take (len / 8)) with
      | none => rfl
      | some a =>
        obtain ⟨n, hn⟩ := h.walk_live hw
        have hl : n.prefixes.lookup (keyOf p len) = none := by
          simpa [Trie.content, hw, Trie.stored, hn] using hcontent
        simp [restKey_drop hlen, hn, hl]
    · rintro ⟨rfl, rfl⟩
      rw [hcontent] at hv
      exact absurd hv (by simp)
    · split_ifs with he
      · rw [he.1, he.2, hcontent]
      · rfl
  | some v =>
    obtain ⟨cur, hw, hst⟩ := Option.bind_eq_some_iff.mp hcontent
    obtain ⟨n, hn, hl⟩ := Option.bind_eq_some_iff.mp hst
    cases hrel : t.releaseMemory with
    | false =>
      refine ⟨t, ?_, h, .refl t, fun q' key v hv => ⟨hv, fun he => absurd he (by simp)⟩,
        fun he => absurd he (by simp)⟩
      simp [delete, hdesc, hw, restKey_drop hlen, hn, hl, hrel]
    | true =>
      set m : Node :=
        { n with prefixes := n.prefixes.erase (keyOf p len), prefNum := decr n.prefNum }
        with hm
      have hmb : m.branches = n.branches := rfl
      have hsh := h.write hn hmb rfl rfl
      have hcont : ∀ q' key, (t.write cur m).content q' key =
          if q' = p.take (len / 8) ∧ key = keyOf p len then none else t.content q' key := by
        intro q' key
        rw [h.content_write hw hn hmb]
        by_cases hq' : q' = p.take (len / 8)
        · by_cases hkey : key = keyOf p len
          · subst hkey
            simp [hq', hm]
          · simp [hq', hkey, hm, Trie.content, hw, Trie.stored, hn]
        · simp [hq']
      have hfuel : (p.take (len / 8)).length < len / 8 + 1 := by simp
      obtain ⟨t', hres, hsh', hcfg, hsub, hcount⟩ :=
        shrink_spec hsh ((Trie.walk_write hn hmb _).trans hw) hfuel
      refine ⟨t', ?_, hsh', ⟨hcfg.root, hcfg.width, hcfg.release⟩, fun q' key w hv => ?_,
        fun _ hc => ?_⟩
      · simp [delete, hdesc, hw, restKey_drop hlen, hn, hl, hrel, ← hm, hres]
      · have := hsub q' key w hv
        rw [hcont] at this
        split_ifs at this with he
        exact ⟨this, fun _ => he⟩
      · have hwc : Counted (t.write cur m) := hc.write fun hroot => by
          have hnc := hc cur n hn hroot
          have hmem : keyOf p len ∈ n.prefixes.keys := AList.lookup_isSome.mp (by simp [hl])
          have hpos := List.length_pos_of_mem hmem
          have h1 := hnc.prefixes_le
          have h2 := hnc.prefNum_lt
          refine ⟨?_, Nat.mod_lt _ (by decide), hnc.branches_eq, hnc.branchNum_lt⟩
          simp only [hm, AList.keys_erase, List.length_erase_of_mem hmem, decr]
          omega
        obtain ⟨hc', heq⟩ := hcount hwc
        exact ⟨hc', fun q' key => (heq q' key).trans (hcont q' key)⟩

end Bmv2.Lpm
