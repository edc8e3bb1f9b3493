import Bmv2.Lpm.Trie
import Bmv2.Match.KeyBuilder

/-! The lookup structures behind a match unit (`lookup_structures.cpp`). -/
namespace Bmv2
open ByteBits

/-- The interface `LookupStructure<K>` with its state made explicit. The outer `none` is a
failed assertion or an exception that nothing catches. -/
structure LookupStructure (K S : Type) where
  lookup : S → List Byte → Option (Option ℕ)
  entryExists : S → K → Option Bool
  addEntry : S → K → ℕ → Option S
  deleteEntry : S → K → Option S
  clear : S → Option S

/-- `ExactMap`: a hash map from key data to handles. -/
def exactMap : LookupStructure ExactMatchKey (AList fun _ : List Byte => ℕ) where
  lookup s key := some (s.lookup key)
  entryExists s key := some (s.lookup key.data).isSome
  addEntry s key handle := some (s.insert key.data handle)
  deleteEntry s key := some (s.erase key.data)
  clear _ := some ∅

theorem ExactMatchKey.data_setVersion (k : ExactMatchKey) (v : ℕ) :
    (MatchKey.setVersion k v).data = k.data := rfl

/-- `LPMTrieStructure`; prefix lengths are non-negative ints. -/
def lpmTrieStructure : LookupStructure LPMMatchKey Lpm.Trie where
  lookup s key := Lpm.lookup s key
  entryExists s key := Lpm.hasPrefix s key.data key.prefixLength.toNat
  addEntry s key handle := Lpm.insert s key.data key.prefixLength.toNat handle
  deleteEntry s key := (Lpm.delete s key.data key.prefixLength.toNat).map Prod.snd
  clear s := Lpm.create s.keyWidthBytes true

/-- `TernaryMap`: one slot per handle, empty slots marked by the largest priority. -/
structure TernaryMap where
  keys : List TernaryMatchKey
  nbytesKey : ℕ

namespace TernaryMap

def create (size nbytesKey : ℕ) : TernaryMap := ⟨List.replicate size {}, nbytesKey⟩

/-- The byte loop of `lookup`, from byte index `i` on. -/
def matchesFrom (key : TernaryMatchKey) (data : List Byte) : ℕ → ℕ → Option Bool
  | _, 0 => some true
  | i, n + 1 => do
    let b ← key.data[i]?
    let d ← data[i]?
    let m ← key.mask[i]?
    if b ≠ d &&& m then some false else matchesFrom key data (i + 1) n

/-- The slot loop of `lookup`: `minPriority` prunes, `best` is the slot found so far. -/
def lookupFrom (nbytes : ℕ) (data : List Byte) : List TernaryMatchKey → ℕ → ℤ → Option ℕ →
    Option (Option ℕ)
  | [], _, _, best => some best
  | key :: keys, slot, minPriority, best =>
    if key.priority ≥ minPriority then lookupFrom nbytes data keys (slot + 1) minPriority best
    else do
      if ← matchesFrom key data 0 nbytes then
        lookupFrom nbytes data keys (slot + 1) key.priority (some slot)
      else lookupFrom nbytes data keys (slot + 1) minPriority best

def lookup (s : TernaryMap) (data : List Byte) : Option (Option ℕ) :=
  lookupFrom s.nbytesKey data s.keys 0 intMax none

/-- `find_handle` returns the number of slots when no slot holds the key. -/
def findHandle (s : TernaryMap) (key : TernaryMatchKey) : ℕ :=
  s.keys.findIdx fun k =>
    decide (k.priority = key.priority ∧ k.data = key.data ∧ k.mask = key.mask)

def entryExists (s : TernaryMap) (key : TernaryMatchKey) : Bool :=
  decide (s.findHandle key ≠ s.keys.length)

/-- `keys.at(handle)` throws past the end. -/
def addEntry (s : TernaryMap) (key : TernaryMatchKey) (handle : ℕ) : Option TernaryMap :=
  if handle < s.keys.length then some { s with keys := s.keys.set handle key } else none

def deleteEntry (s : TernaryMap) (key : TernaryMatchKey) : Option TernaryMap :=
  (s.keys[s.findHandle key]?).map fun k =>
    { s with keys := s.keys.set (s.findHandle key) { k with priority := intMax } }

def clear (s : TernaryMap) : TernaryMap :=
  { s with keys := s.keys.map fun k => { k with priority := intMax } }

end TernaryMap

def ternaryMap : LookupStructure TernaryMatchKey TernaryMap where
  lookup := TernaryMap.lookup
  entryExists s key := some (s.entryExists key)
  addEntry := TernaryMap.addEntry
  deleteEntry := TernaryMap.deleteEntry
  clear s := some s.clear

end Bmv2
