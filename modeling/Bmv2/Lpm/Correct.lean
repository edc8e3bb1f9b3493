import Bmv2.Lib.LongestPrefix
import Bmv2.Lib.Transition
import Bmv2.Lpm.Operations

/-! Longest-prefix-match correctness of the trie over whole runs of insertions and
deletions. -/
namespace Bmv2.Lpm
open ByteBits LongestPrefix

/-- The finite map from bit prefixes to values that a run denotes. -/
abbrev PrefixMap := List Bool → Option ℕ

/-- The bit string that a call names by a byte buffer and a length. -/
def prefixBits (p : List Byte) (len : ℕ) : List Bool := (bits p).take len

inductive Op where
  | insert (p : List Byte) (len value : ℕ)
  | delete (p : List Byte) (len : ℕ)

/-- The prefix length is at most the key width and the buffer holds the prefix. -/
def Op.Valid (keyWidthBytes : ℕ) : Op → Prop
  | .insert p len _ => len ≤ 8 * keyWidthBytes ∧ len ≤ 8 * p.length
  | .delete p len => len ≤ 8 * keyWidthBytes ∧ len ≤ 8 * p.length

/-- No insertion takes an 8-bit counter of a node other than the root from 255 to 0. -/
def Op.NoWrap (t : Trie) : Op → Prop
  | .insert p len _ => counterRoom t t.root p len = true
  | .delete _ _ => True

instance (w : ℕ) (op : Op) : Decidable (op.Valid w) :=
  match op with
  | .insert _ _ _ => inferInstanceAs (Decidable (_ ∧ _))
  | .delete _ _ => inferInstanceAs (Decidable (_ ∧ _))

instance (t : Trie) (op : Op) : Decidable (op.NoWrap t) :=
  match op with
  | .insert _ _ _ => inferInstanceAs (Decidable (_ = true))
  | .delete _ _ => inferInstanceAs (Decidable True)

def Op.denote (M : PrefixMap) : Op → PrefixMap
  | .insert p len value => Function.update M (prefixBits p len) (some value)
  | .delete p len => Function.update M (prefixBits p len) none

def Op.exec (t : Trie) : Op → Option (Bool × Trie)
  | .insert p len value => (Lpm.insert t p len value).map fun t' => (true, t')
  | .delete p len => Lpm.delete t p len

/-- One call on the trie, with the denoted map carried along. -/
def step (s : Trie × PrefixMap) (op : Op) : Option (Bool × (Trie × PrefixMap)) :=
  (op.exec s.1).map fun (r, t) => (r, (t, op.denote s.2))

theorem byteBits_take_eq_iff {r : ℕ} (hr : r < 8) (b b' : Byte) :
    (byteBits b).take r = (byteBits b').take r ↔ getPrefixKey r b = getPrefixKey r b' := by
  have key : (byteBits b).take r = (byteBits b').take r ↔ ∀ i < r, b.getMsbD i = b'.getMsbD i := by
    have := take_bits_eq_iff (show r ≤ 8 * [b].length by simp; omega)
      (show r ≤ 8 * [b'].length by simp; omega)
    simp only [bits_cons, bits_nil, List.append_nil] at this
    rw [this]
    refine forall₂_congr fun i hi => ?_
    simp [bitAt, Nat.div_eq_of_lt (show i < 8 by omega), Nat.mod_eq_of_lt (show i < 8 by omega)]
  rw [key, getPrefixKey, getPrefixKey]
  by_cases h0 : r = 0
  · simp [h0]
  · simp only [ne_eq, h0, not_false_eq_true, ↓reduceIte, Nat.add_right_cancel_iff]
    constructor
    · intro h
      apply Nat.eq_of_testBit_eq
      intro j
      rw [Nat.testBit_shiftRight, Nat.testBit_shiftRight]
      by_cases hj : j < r
      · have := h (r - 1 - j) (by omega)
        simp only [BitVec.getMsbD, BitVec.getLsbD] at this
        rw [show 8 - 1 - (r - 1 - j) = 8 - r + j by omega] at this
        simpa [show r - 1 - j < 8 by omega] using this
      · have h1 : b.toNat < 2 ^ (8 - r + j) :=
          lt_of_lt_of_le b.isLt (Nat.pow_le_pow_right (by omega) (by omega))
        have h2 : b'.toNat < 2 ^ (8 - r + j) :=
          lt_of_lt_of_le b'.isLt (Nat.pow_le_pow_right (by omega) (by omega))
        rw [Nat.testBit_lt_two_pow h1, Nat.testBit_lt_two_pow h2]
    · intro h i hi
      have := congrArg (fun x => x.testBit (r - 1 - i)) h
      simp only [Nat.testBit_shiftRight] at this
      rw [show 8 - r + (r - 1 - i) = 8 - 1 - i by omega] at this
      simpa [BitVec.getMsbD, BitVec.getLsbD, show i < 8 by omega] using this

theorem getPrefixKey_div (r : ℕ) (b : Byte) : getPrefixKey r b / 256 = r := by
  rw [getPrefixKey]
  split_ifs with h
  · have hlt : b.toNat >>> (8 - r) < 256 :=
      lt_of_le_of_lt (Nat.shiftRight_le _ _) b.isLt
    rw [Nat.shiftLeft_eq, Nat.add_mul_div_right _ _ (by decide), Nat.div_eq_of_lt hlt,
      Nat.zero_add]
  · omega

theorem prefixBits_eq {p : List Byte} {len : ℕ} (h : len ≤ 8 * p.length) :
    prefixBits p len = bits (p.take (len / 8)) ++
      (byteBits (p.getD (len / 8) 0)).take (len % 8) := by
  induction p generalizing len with
  | nil =>
    obtain rfl : len = 0 := by simpa using h
    simp [prefixBits]
  | cons b p ih =>
    by_cases h8 : len < 8
    · simp [prefixBits, Nat.div_eq_of_lt h8, Nat.mod_eq_of_lt h8, List.take_append,
        show len - 8 = 0 by omega]
    · have hdiv : len / 8 = (len - 8) / 8 + 1 := by omega
      have hmod : len % 8 = (len - 8) % 8 := by omega
      have := ih (show len - 8 ≤ 8 * p.length by simp only [List.length_cons] at h; omega)
      rw [hdiv, hmod]
      simp only [prefixBits, bits_cons] at this ⊢
      rw [List.take_append, List.take_of_length_le (by simp; omega), length_byteBits, this]
      simp

/-- The pair of byte path and prefix key names the bit prefix, and nothing else. -/
theorem prefixBits_eq_iff {p p' : List Byte} {len len' : ℕ} (h : len ≤ 8 * p.length)
    (h' : len' ≤ 8 * p'.length) :
    prefixBits p' len' = prefixBits p len ↔
      p'.take (len' / 8) = p.take (len / 8) ∧ keyOf p' len' = keyOf p len := by
  have hr : len % 8 < 8 := Nat.mod_lt _ (by decide)
  have hr' : len' % 8 < 8 := Nat.mod_lt _ (by decide)
  rw [prefixBits_eq h, prefixBits_eq h', keyOf, keyOf]
  constructor
  · intro he
    have hlen : len' = len := by
      have := congrArg List.length he
      simp only [List.length_append, length_bits, List.length_take, length_byteBits] at this
      omega
    subst hlen
    obtain ⟨h1, h2⟩ := List.append_inj he (by
      simp only [length_bits, List.length_take]
      omega)
    exact ⟨bits_injective h1, (byteBits_take_eq_iff hr _ _).mp h2⟩
  · rintro ⟨h1, h2⟩
    have hmod : len' % 8 = len % 8 := by
      rw [← getPrefixKey_div (len' % 8) (p'.getD (len' / 8) 0), h2, getPrefixKey_div]
    rw [hmod] at h2 ⊢
    rw [h1, (byteBits_take_eq_iff hr _ _).mpr h2]

/-- The trie stores exactly the denoted map. -/
def Represents (t : Trie) (M : PrefixMap) : Prop :=
  ∀ p len, len ≤ 8 * p.length → t.content (p.take (len / 8)) (keyOf p len) = M (prefixBits p len)

/-- The invariant of every run without counter wrap. -/
structure Good (keyWidthBytes : ℕ) (s : Trie × PrefixMap) : Prop where
  shape : Shape s.1
  counted : Counted s.1
  width : s.1.keyWidthBytes = keyWidthBytes
  release : s.1.releaseMemory = true
  represents : Represents s.1 s.2

theorem Represents.update {t t' : Trie} {M : PrefixMap} {p : List Byte} {len : ℕ} {x : Option ℕ}
    (h : Represents t M) (hlen : len ≤ 8 * p.length)
    (hcont : ∀ q' key, t'.content q' key =
      if q' = p.take (len / 8) ∧ key = keyOf p len then x else t.content q' key) :
    Represents t' (Function.update M (prefixBits p len) x) := by
  intro p' len' hlen'
  rw [hcont, Function.update_apply, h p' len' hlen']
  exact if_congr (prefixBits_eq_iff hlen hlen').symm rfl rfl

theorem heap_create {w : ℕ} {t : Trie} (h : create w true = some t) {a : ℕ} {n : Node}
    (ha : t.heap a = some n) : a = 0 ∧ n = {} := by
  rw [Lpm.create] at h
  split_ifs at h
  obtain rfl := Option.some.inj h
  by_cases h0 : a = 0
  · exact ⟨h0, by simpa [h0] using ha.symm⟩
  · simp [h0] at ha

/-- A new trie stores nothing. -/
theorem content_create {w : ℕ} {t : Trie} (h : create w true = some t) (q : List Byte) (k : ℕ) :
    t.content q k = none := by
  rw [Trie.content]
  cases hw : t.walk q with
  | none => rfl
  | some a =>
    rw [Option.bind_some, Trie.stored, Option.bind_eq_none_iff.mpr]
    intro n hn
    rw [(heap_create h hn).2]
    rfl

theorem Good.create {w : ℕ} {t : Trie} (h : create w true = some t) :
    Good w (t, fun _ => none) := by
  have hheap := fun a n => heap_create (a := a) (n := n) h
  have hempty := content_create h
  rw [Lpm.create] at h
  split_ifs at h
  obtain rfl := Option.some.inj h
  refine ⟨⟨⟨0, rfl⟩, ?_, ?_⟩, ?_, rfl, rfl, ?_⟩
  · intro a b c hc
    obtain ⟨n, hn, hb⟩ := Option.bind_eq_some_iff.mp hc
    rw [(hheap a n hn).2] at hb
    simp [getNextNode] at hb
  · intro a ha
    have : a ≠ 0 := Nat.ne_of_gt ha
    simp [this]
  · intro a n ha hroot
    exact absurd (hheap a n ha).1 hroot
  · intro p len _
    exact hempty _ _

/-- Every valid call returns, and keeps the invariant when no counter wraps. -/
theorem Good.exec {w : ℕ} {s : Trie × PrefixMap} (h : Good w s) {op : Op}
    (hv : op.Valid w) : ∃ r t, op.exec s.1 = some (r, t) ∧
      (op.NoWrap s.1 → Good w (t, op.denote s.2)) := by
  cases op with
  | insert p len value =>
    obtain ⟨t, hres, hsh, hcfg, hcont, hcount⟩ := insert_spec h.shape hv.2 value
    refine ⟨true, t, by simp [Op.exec, hres], fun hw => ?_⟩
    exact ⟨hsh, hcount h.counted hw, hcfg.width.trans h.width, hcfg.release.trans h.release,
      h.represents.update hv.2 hcont⟩
  | delete p len =>
    obtain ⟨t, hres, hsh, hcfg, -, hcount⟩ := delete_spec h.shape hv.2
    obtain ⟨hc, hcont⟩ := hcount h.release h.counted
    exact ⟨_, t, hres, fun _ => ⟨hsh, hc, hcfg.width.trans h.width,
      hcfg.release.trans h.release, h.represents.update hv.2 hcont⟩⟩

private theorem findSome?_cons_or {α β : Type*} (f : α → Option β) (a : α) (l : List α) :
    (a :: l).findSome? f = (f a).or (l.findSome? f) := by
  rw [List.findSome?_cons]
  cases f a <;> rfl

/-- The loop of `bf_lpm_trie_lookup` started at the node of path `q`. -/
theorem Represents.lookupLoop {t : Trie} {M : PrefixMap} (hsh : Shape t) (h : Represents t M)
    (q key : List Byte) (best : Option ℕ) :
    lookupLoop t key.length (t.walk q) key best =
      some ((lastFrom (fun n => M (prefixBits (q ++ key) n)) (8 * q.length)
        (8 * key.length)).or best) := by
  induction key generalizing q best with
  | nil =>
    have hM : M (prefixBits (q ++ []) (8 * q.length)) = t.content q 0 := by
      rw [← h _ _ (by simp)]
      simp [keyOf, getPrefixKey]
    rw [List.length_nil, Nat.mul_zero, lastFrom, hM]
    cases hw : t.walk q with
    | none => simp [Lpm.lookupLoop, Trie.content, hw]
    | some a =>
      obtain ⟨n, hn⟩ := hsh.walk_live hw
      simp [Lpm.lookupLoop, Trie.content, hw, hn, Trie.stored]
  | cons b key ih =>
    have hM : ∀ i < 8, M (prefixBits (q ++ b :: key) (8 * q.length + i)) =
        t.content q (getPrefixKey i b) := by
      intro i hi
      rw [← h _ _ (by simp; omega), keyOf, show (8 * q.length + i) / 8 = q.length by omega,
        show (8 * q.length + i) % 8 = i by omega]
      simp
    cases hw : t.walk q with
    | none =>
      have hnone : lastFrom (fun n => M (prefixBits (q ++ b :: key) n)) (8 * q.length)
          (8 * (b :: key).length) = none := by
        rw [lastFrom_eq_none_iff]
        intro i hi
        rw [← h _ _ (by simp only [List.length_append]; omega), Trie.content, List.take_append,
          List.take_of_length_le (by omega), Trie.walk_append_eq_none hw]
        rfl
      rw [hnone]
      rfl
    | some a =>
      obtain ⟨n, hn⟩ := hsh.walk_live hw
      have hcont := Trie.content_of_heap hw hn
      have hstep := (Trie.walk_concat_of_heap hw hn b).symm
      have hlow : lastFrom (fun n => M (prefixBits (q ++ b :: key) n)) (8 * q.length) 7 =
          (byteMatch n b).or (n.prefixes.lookup 0) := by
        simp only [lastFrom, byteMatch, Nat.add_assoc, Nat.reduceAdd]
        rw [hM 1 (by omega), hM 2 (by omega), hM 3 (by omega), hM 4 (by omega), hM 5 (by omega),
          hM 6 (by omega), hM 7 (by omega)]
        have h0 := hM 0 (by omega)
        simp only [Nat.add_zero] at h0
        rw [h0]
        simp only [hcont, findSome?_cons_or, List.findSome?_nil, Option.or_none, Option.or_assoc]
        rfl
      rw [List.length_cons, Lpm.lookupLoop]
      simp only [hn, Option.bind_eq_bind, Option.bind_some, List.head?_cons, List.tail_cons]
      rw [hstep, ih, show 8 * (key.length + 1) = 8 * key.length + 7 + 1 by ring, lastFrom_split,
        hlow, show 8 * (q ++ [b]).length = 8 * q.length + 7 + 1 by simp; ring]
      simp [Option.or_assoc]

theorem Represents.lookup {t : Trie} {M : PrefixMap} (hsh : Shape t) (h : Represents t M)
    {key : List Byte} (hkey : key.length = t.keyWidthBytes) :
    lookup t key = some (longestMatch M (bits key)) := by
  rw [Lpm.lookup, ← hkey, ← Trie.walk_nil, h.lookupLoop hsh, longestMatch, length_bits]
  simp [prefixBits]

/-- In every run in which no 8-bit counter of an inner node wraps, the trie answers as the
map that the run denotes, and no call aborts. -/
theorem trie_correct {w : ℕ} {t₀ : Trie} (hcreate : create w true = some t₀)
    {t : Trie} {M : PrefixMap}
    (hrun : Transition.Reach step (fun s op => op.Valid w ∧ op.NoWrap s.1)
      (t₀, fun _ => none) (t, M)) :
    (∀ key : List Byte, key.length = w → lookup t key = some (longestMatch M (bits key))) ∧
    (∀ p len, len ≤ 8 * w → len ≤ 8 * p.length →
      hasPrefix t p len = some (M (prefixBits p len)).isSome) ∧
    (∀ p len, len ≤ 8 * w → len ≤ 8 * p.length →
      ∃ t', delete t p len = some ((M (prefixBits p len)).isSome, t')) ∧
    (∀ p len value, len ≤ 8 * w → len ≤ 8 * p.length → ∃ t', insert t p len value = some t') := by
  have hgood : Good w (t, M) := by
    refine hrun.invariant (Good w) (Good.create hcreate) ?_
    intro s op r s' hs hok hstep
    obtain ⟨r', t', hexec, hnext⟩ := hs.exec hok.1
    simp only [step, hexec, Option.map_some, Option.some.injEq, Prod.mk.injEq] at hstep
    exact hstep.2 ▸ hnext hok.2
  refine ⟨fun key hkey => ?_, fun p len _ hlen => ?_, fun p len _ hlen => ?_,
    fun p len value _ hlen => ?_⟩
  · exact hgood.represents.lookup hgood.shape (hkey.trans hgood.width.symm)
  · rw [hasPrefix_spec hgood.shape hlen, hgood.represents p len hlen]
  · obtain ⟨t', hres, -⟩ := delete_spec hgood.shape hlen
    exact ⟨t', by rw [hres, hgood.represents p len hlen]⟩
  · obtain ⟨t', hres, -⟩ := insert_spec hgood.shape hlen value
    exact ⟨t', hres⟩

/-- A route, a longer one below it, and the removal of the longer one. -/
theorem trie_correct_two_routes : ∃ t₀ t M, create 2 true = some t₀ ∧
    Transition.Reach step (fun s op => op.Valid 2 ∧ op.NoWrap s.1) (t₀, fun _ => none) (t, M) ∧
    M (prefixBits [0xAA] 8) = some 0 ∧
    lookup t [0xAA, 0x80] = some (longestMatch M (bits [0xAA, 0x80])) := by
  obtain ⟨t₀, hcreate⟩ : ∃ t₀, create 2 true = some t₀ := ⟨_, rfl⟩
  have heval : ((create 2 true).bind fun t₀ => (Transition.runAll step
      (fun s op => op.Valid 2 ∧ op.NoWrap s.1) (t₀, fun _ => none)
      [.insert [0xAA] 8 0, .insert [0xAA, 0x80] 9 7, .delete [0xAA, 0x80] 9]).map
        fun s => s.2 (prefixBits [0xAA] 8)) = some (some 0) := by
    decide +kernel
  rw [hcreate, Option.bind_some] at heval
  obtain ⟨⟨t, M⟩, hrun, hres⟩ := Option.map_eq_some_iff.mp heval
  have hreach := Transition.Reach.of_runAll hrun
  exact ⟨t₀, t, M, hcreate, hreach, hres, (trie_correct hcreate hreach).1 _ rfl⟩

/-- 256 insertions of one prefix with value 0 take its node's counter back to 0. -/
def wrappingOps : List Op :=
  List.replicate 256 (.insert [0xAA] 8 0) ++ [.insert [0xAA, 0x80] 9 7, .delete [0xAA, 0x80] 9]

/-- Once a counter has wrapped, deleting a longer prefix frees the node of a stored one. -/
theorem trie_loses_prefix : ∃ t₀ t M, create 2 true = some t₀ ∧
    Transition.Reach step (fun _ op => op.Valid 2) (t₀, fun _ => none) (t, M) ∧
    lookup t [0xAA, 0] = some none ∧ longestMatch M (bits [0xAA, 0]) = some 0 := by
  obtain ⟨t₀, hcreate⟩ : ∃ t₀, create 2 true = some t₀ := ⟨_, rfl⟩
  have heval : ((create 2 true).bind fun t₀ => (Transition.runAll step
      (fun _ op => op.Valid 2) (t₀, fun _ => none) wrappingOps).map
        fun s => (lookup s.1 [0xAA, 0], longestMatch s.2 (bits [0xAA, 0]))) =
      some (some none, some 0) := by
    decide +kernel
  rw [hcreate, Option.bind_some] at heval
  obtain ⟨⟨t, M⟩, hrun, hres⟩ := Option.map_eq_some_iff.mp heval
  exact ⟨t₀, t, M, hcreate, .of_runAll hrun, congrArg Prod.fst hres, congrArg Prod.snd hres⟩

end Bmv2.Lpm
