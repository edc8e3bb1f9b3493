import Bmv2.Match.HandleMgr
import Bmv2.Match.LookupStructures
import Bmv2.Meters

/-! The match unit: `MatchUnitAbstract_`, `MatchUnitAbstract` and `MatchUnitGeneric` of
`match_units.cpp`, generic in the key type, the value type and the lookup structure. -/
namespace Bmv2
open ByteBits

inductive MatchErrorCode where
  | tableFull | invalidHandle | expiredHandle | countersDisabled | metersDisabled
  | ageingDisabled | invalidTableName | invalidActionName | wrongTableType | invalidMbrHandle
  | mbrStillUsed | mbrAlreadyInGrp | mbrNotInGrp | invalidGrpHandle | grpStillUsed | emptyGrp
  | duplicateEntry | badMatchKey | invalidMeterOperation | error
  deriving DecidableEq, Repr

/-- The result of a call: an error code or a value. -/
abbrev Result (α : Type) := Except MatchErrorCode α

def handleVersion (h : ℕ) : ℕ := h >>> 32
def handleInternal (h : ℕ) : ℕ := h &&& 0xffffffff
def handleSet (v i : ℕ) : ℕ := ((v <<< 32) ||| i) % 2 ^ 64

structure EntryMeta where
  ts : ℕ := 0
  timeoutMs : ℕ := 0
  counter : Counter := {}
  version : ℕ := 0
  deriving DecidableEq

/-- `EntryMeta::reset` leaves the timeout alone. -/
def EntryMeta.reset (m : EntryMeta) (now : ℕ) : EntryMeta := { m with counter := {}, ts := now }

structure Entry (K V : Type) where
  key : K
  value : V
  deriving DecidableEq, Inhabited

/-- The direct meters belong to another object; only the unit's view of them is here. -/
structure MatchUnit (K V S : Type) where
  size : ℕ
  numEntries : ℕ := 0
  handles : HandleMgr := {}
  matchKeyBuilder : MatchKeyBuilder
  entryMeta : List EntryMeta
  directMeters : Option (List Meter) := none
  entries : List (Entry K V)
  lookupStructure : S

namespace MatchUnit

variable {K V S : Type} [MatchKey K] (L : LookupStructure K S)

/-- The constructor; it builds the key layout. -/
def create [Inhabited V] (size : ℕ) (kb : MatchKeyBuilder) (ls : S) : MatchUnit K V S where
  size
  matchKeyBuilder := kb.build
  entryMeta := List.replicate size {}
  entries := List.replicate size default
  lookupStructure := ls

section Handles

variable (u : MatchUnit K V S)

def getAndSetHandle : Result (ℕ × MatchUnit K V S) :=
  if u.numEntries ≥ u.size then .error .tableFull
  else match u.handles.getHandle with
    | none => .error .error
    | some (handle, handles) =>
      .ok (handle, { u with handles, numEntries := u.numEntries + 1 })

def unsetHandle (handle : ℕ) : Result Unit × MatchUnit K V S :=
  match u.handles.releaseHandle handle with
  | (false, handles) => (.error .invalidHandle, { u with handles })
  | (true, handles) => (.ok (), { u with handles, numEntries := u.numEntries - 1 })

def validHandle_ (handle : ℕ) : Bool := u.handles.validHandle handle

def validHandle (handle : ℕ) : Bool := u.validHandle_ (handleInternal handle)

/-- The check that opens `delete_entry_`, `modify_entry_`, `get_value_` and `get_entry_`:
the slot is in use and the version is the current one. -/
def checkHandle (handle : ℕ) : Option (Result (Entry K V)) :=
  if !u.validHandle_ (handleInternal handle) then some (.error .invalidHandle)
  else do
    let entry ← u.entries[handleInternal handle]?
    if handleVersion handle ≠ MatchKey.version entry.key then some (.error .expiredHandle)
    else some (.ok entry)

end Handles

/-- The internal key of an entry: the translated parameters under the key mask, with the
priority of a ternary entry. -/
def entryKey (kb : MatchKeyBuilder) (params : List MatchKeyParam) (priority : ℤ) : Option K := do
  let key : K ← MatchKey.matchParamsToEntry kb params
  let data ← kb.applyBigMask (MatchKey.data key)
  some (MatchKey.setPriority (MatchKey.setData key data) priority)

variable (u : MatchUnit K V S)

/-- `MatchUnitGeneric::add_entry_`. -/
def addEntry_ (params : List MatchKeyParam) (value : V) (priority : ℤ) :
    Option (Result ℕ × MatchUnit K V S) :=
  if !u.matchKeyBuilder.matchParamsSanityCheck params then some (.error .badMatchKey, u)
  else do
    let key : K ← entryKey u.matchKeyBuilder params priority
    if ← L.entryExists u.lookupStructure key then some (.error .duplicateEntry, u)
    else match u.getAndSetHandle with
      | .error e => some (.error e, u)
      | .ok (handle_, u) => do
        let old ← u.entries[handle_]?
        let version := MatchKey.version old.key
        let ls ← L.addEntry u.lookupStructure key handle_
        some (.ok (handleSet version handle_), { u with
          lookupStructure := ls
          entries := u.entries.set handle_ ⟨MatchKey.setVersion key version, value⟩ })

/-- `MatchUnitAbstract::add_entry`; `now` is the reading of the clock. -/
def addEntry (now : ℕ) (params : List MatchKeyParam) (value : V) (priority : ℤ) :
    Option (Result ℕ × MatchUnit K V S) := do
  match ← u.addEntry_ L params value priority with
  | (.error e, u) => some (.error e, u)
  | (.ok handle, u) => do
    let m ← u.entryMeta[handleInternal handle]?
    some (.ok handle, { u with
      entryMeta := u.entryMeta.set (handleInternal handle)
        { m.reset now with version := handleVersion handle } })

/-- `delete_entry_` bumps the version of the slot before it erases the key. -/
def deleteEntry (handle : ℕ) : Option (Result Unit × MatchUnit K V S) := do
  match ← u.checkHandle handle with
  | .error e => some (.error e, u)
  | .ok entry => do
    let key := MatchKey.setVersion entry.key ((MatchKey.version entry.key + 1) % 2 ^ 32)
    let ls ← L.deleteEntry u.lookupStructure key
    some (unsetHandle { u with
      entries := u.entries.set (handleInternal handle) { entry with key }
      lookupStructure := ls } (handleInternal handle))

def modifyEntry (handle : ℕ) (value : V) : Option (Result Unit × MatchUnit K V S) := do
  match ← u.checkHandle handle with
  | .error e => some (.error e, u)
  | .ok entry => some (.ok (), { u with
      entries := u.entries.set (handleInternal handle) { entry with value } })

def getValue (handle : ℕ) : Option (Result V) := do
  match ← u.checkHandle handle with
  | .error e => some (.error e)
  | .ok entry => some (.ok entry.value)

def getEntry (handle : ℕ) : Option (Result (List MatchKeyParam × V × ℤ)) := do
  match ← u.checkHandle handle with
  | .error e => some (.error e)
  | .ok entry => do
    let params ← MatchKey.entryToMatchParams u.matchKeyBuilder entry.key
    some (.ok (params, entry.value, MatchKey.getPriority entry.key))

/-- `lookup_key`: the handle and the value of the entry found. -/
def lookupKey (key : List Byte) : Option (Option (ℕ × V)) := do
  match ← L.lookup u.lookupStructure key with
  | none => some none
  | some handle_ => do
    let entry ← u.entries[handle_]?
    some (some (handleSet (MatchKey.version entry.key) handle_, entry.value))

def resetState [Inhabited V] : Option (MatchUnit K V S) := do
  let ls ← L.clear u.lookupStructure
  some { u with
    numEntries := 0
    handles := u.handles.clear
    entryMeta := List.replicate u.size {}
    entries := List.replicate u.size default
    lookupStructure := ls }

def setEntryTtl (handle ttlMs : ℕ) : Option (Result Unit × MatchUnit K V S) :=
  if !u.validHandle_ (handleInternal handle) then some (.error .invalidHandle, u)
  else do
    let m ← u.entryMeta[handleInternal handle]?
    some (.ok (), { u with
      entryMeta := u.entryMeta.set (handleInternal handle) { m with timeoutMs := ttlMs } })

end MatchUnit

end Bmv2
