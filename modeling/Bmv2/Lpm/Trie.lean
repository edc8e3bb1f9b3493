import Mathlib.Data.List.AList
import Mathlib.Logic.Function.Basic
import Bmv2.Lib.ByteBits

/-! The longest-prefix-match trie of `bf_lpm_trie.c`. Nodes live in an explicit heap, so
that parent pointers, the 8-bit counters and freed nodes are all visible; addresses are
natural numbers. -/
namespace Bmv2.Lpm
open ByteBits

/-- `node_t`. The two Judy arrays are finite maps; both counters are unsigned chars. -/
structure Node where
  branches : AList fun _ : Byte => ℕ := ∅
  prefixes : AList fun _ : ℕ => ℕ := ∅
  branchNum : ℕ := 0
  prefNum : ℕ := 0
  parent : Option ℕ := none
  childId : Byte := 0

/-- `bf_lpm_trie_t` with the heap its nodes are allocated in. No address from `next` on
has been handed out, so an allocation never returns a node that is still in use. -/
structure Trie where
  root : ℕ
  keyWidthBytes : ℕ
  releaseMemory : Bool
  heap : ℕ → Option Node
  next : ℕ

/-- `c++` and `c--` on an unsigned char. -/
def incr (c : ℕ) : ℕ := (c + 1) % 256
def decr (c : ℕ) : ℕ := (c + 255) % 256

def Trie.write (t : Trie) (a : ℕ) (n : Node) : Trie :=
  { t with heap := Function.update t.heap a (some n) }

/-- `bf_lpm_trie_create`; its assertion bounds the key width. -/
def create (keyWidthBytes : ℕ) (autoShrink : Bool) : Option Trie :=
  if keyWidthBytes ≤ 64 then
    some { root := 0, keyWidthBytes, releaseMemory := autoShrink,
           heap := Function.update (fun _ => none) 0 (some {}), next := 1 }
  else none

def getNextNode (n : Node) (byte : Byte) : Option ℕ := n.branches.lookup byte

def getPrefixKey (prefixLength : ℕ) (byte : Byte) : ℕ :=
  if prefixLength ≠ 0 then (byte.toNat >>> (8 - prefixLength)) + (prefixLength <<< 8) else 0

/-- The key of the bits that remain after the whole bytes of a prefix. -/
def restKey (rest : List Byte) (len : ℕ) : Option ℕ :=
  if len = 0 then some 0 else rest.head?.map (getPrefixKey len)

/-- `insert_prefix` reports the prefix as present when the value stored before is not 0. -/
def insertPrefix (n : Node) (prefixKey value : ℕ) : Bool × Node :=
  (decide ((n.prefixes.lookup prefixKey).getD 0 ≠ 0),
    { n with prefixes := n.prefixes.insert prefixKey value })

/-- `allocate_node`, `set_next_node` and the counter update of the insertion loop. -/
def Trie.addChild (t : Trie) (cur : ℕ) (n : Node) (byte : Byte) : Trie :=
  { t with
    heap := Function.update (Function.update t.heap t.next
        (some { parent := some cur, childId := byte })) cur
      (some { n with branches := n.branches.insert byte t.next, branchNum := incr n.branchNum })
    next := t.next + 1 }

/-- The descent of `bf_lpm_trie_insert`. It stops with the node and the bits left over;
`none` is a read past the end of the caller's buffer or of a node that is not live. -/
def insertDescend (t : Trie) (cur : ℕ) : List Byte → ℕ →
    Option (Trie × ℕ × List Byte × ℕ)
  | [], len => if len < 8 then some (t, cur, [], len) else none
  | byte :: p, len =>
    if len < 8 then some (t, cur, byte :: p, len)
    else match t.heap cur with
      | none => none
      | some n =>
        match getNextNode n byte with
        | some child => insertDescend t child p (len - 8)
        | none => insertDescend (t.addChild cur n byte) t.next p (len - 8)

/-- `bf_lpm_trie_insert`. -/
def insert (t : Trie) (p : List Byte) (len value : ℕ) : Option Trie := do
  let (t, cur, rest, r) ← insertDescend t t.root p len
  let key ← restKey rest r
  let n ← t.heap cur
  let (present, n) := insertPrefix n key value
  some (t.write cur (if present then n else { n with prefNum := incr n.prefNum }))

/-- The descent of `bf_lpm_trie_has_prefix` and `bf_lpm_trie_delete`; the inner `none` is a
missing node, on which both return false. -/
def descend (t : Trie) (cur : ℕ) : List Byte → ℕ → Option (Option (ℕ × List Byte × ℕ))
  | [], len => if len < 8 then some (some (cur, [], len)) else none
  | byte :: p, len =>
    if len < 8 then some (some (cur, byte :: p, len))
    else match t.heap cur with
      | none => none
      | some n =>
        match getNextNode n byte with
        | some child => descend t child p (len - 8)
        | none => some none

/-- `bf_lpm_trie_has_prefix`. -/
def hasPrefix (t : Trie) (p : List Byte) (len : ℕ) : Option Bool := do
  match ← descend t t.root p len with
  | none => some false
  | some (cur, rest, r) =>
    let key ← restKey rest r
    let n ← t.heap cur
    some (n.prefixes.lookup key).isSome

/-- The inner loop of `bf_lpm_trie_lookup`: the longest stored prefix of one byte. -/
def byteMatch (n : Node) (byte : Byte) : Option ℕ :=
  [7, 6, 5, 4, 3, 2, 1].findSome? fun i => n.prefixes.lookup (getPrefixKey i byte)

/-- The outer loop of `bf_lpm_trie_lookup`; `best` is the value found so far, if any. -/
def lookupLoop (t : Trie) : ℕ → Option ℕ → List Byte → Option ℕ → Option (Option ℕ)
  | _, none, _, best => some best
  | 0, some cur, _, best => do
    let n ← t.heap cur
    some ((n.prefixes.lookup 0).or best)
  | w + 1, some cur, key, best => do
    let n ← t.heap cur
    let best := (n.prefixes.lookup 0).or best
    let byte ← key.head?
    lookupLoop t w (getNextNode n byte) key.tail ((byteMatch n byte).or best)

/-- `bf_lpm_trie_lookup`: the value found, if any. -/
def lookup (t : Trie) (key : List Byte) : Option (Option ℕ) :=
  lookupLoop t t.keyWidthBytes (some t.root) key none

/-- `delete_branch` in the parent, `free` of the child, and the counter update. -/
def Trie.dropChild (t : Trie) (cur par : ℕ) (pn : Node) (byte : Byte) : Trie :=
  { t with
    heap := Function.update (Function.update t.heap cur none) par
      (some { pn with branches := pn.branches.erase byte, branchNum := decr pn.branchNum }) }

/-- The loop of `bf_lpm_trie_delete` that frees nodes upwards. The fuel bounds the number
of ancestors; running out of it is an error, not a result. -/
def shrink : ℕ → Trie → ℕ → Option Trie
  | 0, _, _ => none
  | fuel + 1, t, cur => do
    let n ← t.heap cur
    if n.prefNum = 0 ∧ n.branchNum = 0 then
      match n.parent with
      | none => some t
      | some par =>
        let pn ← t.heap par
        -- assert(delete_branch(current_node, tmp->child_id) == 1)
        if (getNextNode pn n.childId).isNone then none
        else shrink fuel (t.dropChild cur par pn n.childId) par
    else some t

/-- `bf_lpm_trie_delete`. -/
def delete (t : Trie) (p : List Byte) (len : ℕ) : Option (Bool × Trie) := do
  match ← descend t t.root p len with
  | none => some (false, t)
  | some (cur, rest, r) =>
    let key ← restKey rest r
    let n ← t.heap cur
    if (n.prefixes.lookup key).isNone then some (false, t)
    else if t.releaseMemory then
      let t ← shrink (len / 8 + 1)
        (t.write cur { n with prefixes := n.prefixes.erase key, prefNum := decr n.prefNum }) cur
      some (true, t)
    else some (true, t)

end Bmv2.Lpm
