import Mathlib.Data.Finset.Sort
import Bmv2.Tables.Base

/-! Indirect tables (`MatchTableIndirect` and `MatchTableIndirectWS` of `match_tables.cpp`):
entries point to members or to groups of members, and uses are counted. -/
namespace Bmv2
open ByteBits

/-- `IndirectIndex`: a kind in the high byte over 24 bits of index. -/
structure IndirectIndex where
  index : ℕ := 0
  deriving DecidableEq, Inhabited

namespace IndirectIndex

def indexMask : ℕ := 0x00FFFFFF

def isMbr (i : IndirectIndex) : Bool := decide (i.index >>> 24 = 0x00)
def isGrp (i : IndirectIndex) : Bool := decide (i.index >>> 24 = 0x01)
def get (i : IndirectIndex) : ℕ := i.index &&& indexMask

/-- The accessors assert the kind. -/
def getMbr (i : IndirectIndex) : Option ℕ := if i.isMbr then some i.get else none
def getGrp (i : IndirectIndex) : Option ℕ := if i.isGrp then some i.get else none

/-- `make_mbr_index` and `make_grp_index` take an `unsigned int` and assert its range. -/
def make (kind index : ℕ) : Option IndirectIndex :=
  if index % 2 ^ 32 ≤ indexMask then some ⟨(kind <<< 24) ||| (index % 2 ^ 32)⟩ else none

def makeMbrIndex (index : ℕ) : Option IndirectIndex := make 0x00 index
def makeGrpIndex (index : ℕ) : Option IndirectIndex := make 0x01 index

end IndirectIndex

/-- Write at an index that may be one past the end, as the three vectors of the table grow. -/
def pushOrSet {α : Type} (l : List α) (i : ℕ) (a : α) : List α :=
  if i = l.length then l ++ [a] else l.set i a

/-- `IndirectIndexRefCount`: one vector of unsigned counts for each kind. -/
structure IndirectIndexRefCount where
  mbrCount : List ℕ := []
  grpCount : List ℕ := []
  deriving DecidableEq

namespace IndirectIndexRefCount

variable (c : IndirectIndexRefCount) (index : IndirectIndex)

def vec : List ℕ := if index.isMbr then c.mbrCount else c.grpCount

def setVec (v : List ℕ) : IndirectIndexRefCount :=
  if index.isMbr then { c with mbrCount := v } else { c with grpCount := v }

def set (value : ℕ) : Option IndirectIndexRefCount :=
  if index.get ≤ (c.vec index).length then
    some (c.setVec index (pushOrSet (c.vec index) index.get value))
  else none

def get : Option ℕ := (c.vec index)[index.get]?

/-- The body of `increase` and `decrease`; an index past the end is undefined. -/
def change (f : ℕ → ℕ) : Option IndirectIndexRefCount :=
  (c.get index).map fun n => c.setVec index ((c.vec index).set index.get (f n))

def increase : Option IndirectIndexRefCount := c.change index fun n => (n + 1) % 2 ^ 32
def decrease : Option IndirectIndexRefCount := c.change index fun n => (n + (2 ^ 32 - 1)) % 2 ^ 32

end IndirectIndexRefCount

structure MatchTableIndirect (K S : Type) where
  base : MatchTableAbstract
  matchUnit : MatchUnit K IndirectIndex S
  defaultIndex : IndirectIndex := {}
  defaultSet : Bool := false
  indexRefCount : IndirectIndexRefCount := {}
  mbrHandles : HandleMgr := {}
  actionEntries : List ActionEntry := []
  numMembers : ℕ := 0

namespace MatchTableIndirect

variable {K S : Type} [MatchKey K]

inductive Op where
  | addMember (actionFn : ℕ) (actionData : List ℤ)
  | deleteMember (mbr : ℕ)
  | modifyMember (mbr actionFn : ℕ) (actionData : List ℤ)
  | addEntry (now : ℕ) (params : List MatchKeyParam) (mbr : ℕ) (priority : ℤ)
  | deleteEntry (handle : ℕ)
  | modifyEntry (handle mbr : ℕ)
  | setDefaultMember (mbr : ℕ)
  | getValue (handle : ℕ)
  | getEntry (handle : ℕ)
  | getMember (mbr : ℕ)
  | base (op : MatchTableAbstract.Op)

def create (base : MatchTableAbstract) (size : ℕ) (kb : MatchKeyBuilder) (ls : S) :
    MatchTableIndirect K S where
  base
  matchUnit := .create size kb ls

variable (L : LookupStructure K S) (t : MatchTableIndirect K S)

def isValidMbr (mbr : ℕ) : Bool := t.mbrHandles.validHandle mbr

/-- `lookup` asserts that the index is a member index and that the member is valid. -/
def lookup (key : List Byte) : Option (Option ℕ × ActionEntry) := do
  let res ← t.matchUnit.lookupKey L key
  if res.isNone && !t.defaultSet then some (none, {})
  else do
    let index := (res.map Prod.snd).getD t.defaultIndex
    let mbr ← index.getMbr
    if t.isValidMbr mbr then
      (t.actionEntries[mbr]?).map fun entry => (res.map Prod.fst, entry)
    else none

def entriesInsert (mbr : ℕ) (entry : ActionEntry) : Option (MatchTableIndirect K S) :=
  if mbr ≤ t.actionEntries.length then do
    let index ← IndirectIndex.makeMbrIndex mbr
    let indexRefCount ← t.indexRefCount.set index 0
    some { t with
      indexRefCount
      actionEntries := pushOrSet t.actionEntries mbr entry }
  else none

def addMember (actionFn : ℕ) (actionData : List ℤ) :
    Option (Result ℕ × MatchTableIndirect K S) := do
  let nextNode ← t.base.getNextNode actionFn
  match t.mbrHandles.getHandle with
  | none => some (.error .error, t)
  | some (mbr, mbrHandles) => do
    let t ← entriesInsert { t with mbrHandles } mbr ⟨actionFn, actionData, nextNode⟩
    some (.ok mbr, { t with numMembers := t.numMembers + 1 })

def deleteMember (mbr : ℕ) : Option (Result Unit × MatchTableIndirect K S) :=
  if !t.isValidMbr mbr then some (.error .invalidMbrHandle, t)
  else do
    let index ← IndirectIndex.makeMbrIndex mbr
    if (← t.indexRefCount.get index) > 0 then some (.error .mbrStillUsed, t)
    else match t.mbrHandles.releaseHandle mbr with
      | (false, _) => none
      | (true, mbrHandles) => some (.ok (), { t with mbrHandles, numMembers := t.numMembers - 1 })

def modifyMember (mbr actionFn : ℕ) (actionData : List ℤ) :
    Option (Result Unit × MatchTableIndirect K S) := do
  let nextNode ← t.base.getNextNode actionFn
  if !t.isValidMbr mbr then some (.error .invalidMbrHandle, t)
  else if mbr < t.actionEntries.length then
    some (.ok (), { t with
      actionEntries := t.actionEntries.set mbr ⟨actionFn, actionData, nextNode⟩ })
  else none

/-- The common end of `add_entry` and `add_entry_ws`: the use is counted first, and stays
counted when the match unit then refuses the entry. -/
def addIndexed (now : ℕ) (params : List MatchKeyParam) (index : IndirectIndex) (priority : ℤ) :
    Option (Result ℕ × MatchTableIndirect K S) := do
  let indexRefCount ← t.indexRefCount.increase index
  let (r, matchUnit) ← t.matchUnit.addEntry L now params index priority
  some (r, { t with indexRefCount, matchUnit })

def addEntry (now : ℕ) (params : List MatchKeyParam) (mbr : ℕ) (priority : ℤ) :
    Option (Result ℕ × MatchTableIndirect K S) :=
  if !t.isValidMbr mbr then some (.error .invalidMbrHandle, t)
  else do
    let index ← IndirectIndex.makeMbrIndex mbr
    t.addIndexed L now params index priority

def deleteEntry (handle : ℕ) : Option (Result Unit × MatchTableIndirect K S) := do
  match ← t.matchUnit.getValue handle with
  | .error e => some (.error e, t)
  | .ok index => do
    let indexRefCount ← t.indexRefCount.decrease index
    let (r, matchUnit) ← t.matchUnit.deleteEntry L handle
    some (r, { t with indexRefCount, matchUnit })

/-- The common body of `modify_entry` and `modify_entry_ws`: the old use is released before
the new target is checked, and stays released when `check` reports an error. -/
def modifyIndexed (handle : ℕ) (check : Option (Result Unit)) (newIndex : Option IndirectIndex) :
    Option (Result Unit × MatchTableIndirect K S) := do
  match ← t.matchUnit.getValue handle with
  | .error e => some (.error e, t)
  | .ok index => do
    let indexRefCount ← t.indexRefCount.decrease index
    match ← check with
    | .error e => some (.error e, { t with indexRefCount })
    | .ok () => do
      let newIndex ← newIndex
      let indexRefCount ← indexRefCount.increase newIndex
      let (r, matchUnit) ← t.matchUnit.modifyEntry handle newIndex
      some (r, { t with indexRefCount, matchUnit })

def checkMbr (mbr : ℕ) : Result Unit :=
  if t.isValidMbr mbr then .ok () else .error .invalidMbrHandle

def modifyEntry (handle mbr : ℕ) : Option (Result Unit × MatchTableIndirect K S) :=
  t.modifyIndexed handle (some (t.checkMbr mbr)) (IndirectIndex.makeMbrIndex mbr)

def setDefaultMember (mbr : ℕ) : Option (Result Unit × MatchTableIndirect K S) :=
  if !t.isValidMbr mbr then some (.error .invalidMbrHandle, t)
  else do
    let defaultIndex ← IndirectIndex.makeMbrIndex mbr
    some (.ok (), { t with defaultIndex, defaultSet := true })

def getEntry (handle : ℕ) : Option (Result (List MatchKeyParam × ℕ × ℤ)) := do
  match ← t.matchUnit.getEntry handle with
  | .error e => some (.error e)
  | .ok (params, index, priority) => do
    let mbr ← index.getMbr
    some (.ok (params, mbr, priority))

def getMember (mbr : ℕ) : Option (Result ActionEntry) :=
  if !t.isValidMbr mbr then some (.error .invalidMbrHandle)
  else (t.actionEntries[mbr]?).map .ok

def step (t : MatchTableIndirect K S) : Op → Option (Result TableReply × MatchTableIndirect K S)
  | .addMember actionFn actionData =>
    (t.addMember actionFn actionData).map fun (r, t) => (r.map .mbr, t)
  | .deleteMember mbr => (t.deleteMember mbr).map fun (r, t) => (r.map fun _ => .done, t)
  | .modifyMember mbr actionFn actionData =>
    (t.modifyMember mbr actionFn actionData).map fun (r, t) => (r.map fun _ => .done, t)
  | .addEntry now params mbr priority =>
    (t.addEntry L now params mbr priority).map fun (r, t) => (r.map .handle, t)
  | .deleteEntry handle => (t.deleteEntry L handle).map fun (r, t) => (r.map fun _ => .done, t)
  | .modifyEntry handle mbr =>
    (t.modifyEntry handle mbr).map fun (r, t) => (r.map fun _ => .done, t)
  | .setDefaultMember mbr => (t.setDefaultMember mbr).map fun (r, t) => (r.map fun _ => .done, t)
  | .getValue handle =>
    (t.matchUnit.getValue handle).map fun r => (r.map fun i => .mbr i.index, t)
  | .getEntry handle =>
    (t.getEntry handle).map fun r => (r.map fun (p, m, n) => .indirectEntry p m 0 n, t)
  | .getMember mbr => (t.getMember mbr).map fun r => (r.map .action, t)
  | .base op => (t.base.step t.matchUnit op).map fun (r, matchUnit) => (r, { t with matchUnit })

end MatchTableIndirect

/-- `GroupInfo`: a Judy1 set of members, iterated and indexed in increasing order. -/
structure GroupInfo where
  mbrs : Finset ℕ := ∅
  deriving DecidableEq, Inhabited

namespace GroupInfo

def addMember (g : GroupInfo) (mbr : ℕ) : Result GroupInfo :=
  if mbr ∈ g.mbrs then .error .mbrAlreadyInGrp else .ok ⟨insert mbr g.mbrs⟩

def deleteMember (g : GroupInfo) (mbr : ℕ) : Result GroupInfo :=
  if mbr ∈ g.mbrs then .ok ⟨g.mbrs.erase mbr⟩ else .error .mbrNotInGrp

def size (g : GroupInfo) : ℕ := g.mbrs.card

def toList (g : GroupInfo) : List ℕ := g.mbrs.sort

/-- `get_nth` asserts that the element exists. -/
def getNth (g : GroupInfo) (n : ℕ) : Option ℕ := g.toList[n]?

end GroupInfo

structure MatchTableIndirectWS (K S : Type) extends MatchTableIndirect K S where
  grpHandles : HandleMgr := {}
  numGroups : ℕ := 0
  groupEntries : List GroupInfo := []

namespace MatchTableIndirectWS

variable {K S : Type} [MatchKey K]

inductive Op where
  | indirect (op : MatchTableIndirect.Op)
  | createGroup
  | deleteGroup (grp : ℕ)
  | addMemberToGroup (mbr grp : ℕ)
  | removeMemberFromGroup (mbr grp : ℕ)
  | addEntryWs (now : ℕ) (params : List MatchKeyParam) (grp : ℕ) (priority : ℤ)
  | modifyEntryWs (handle grp : ℕ)
  | setDefaultGroup (grp : ℕ)
  | getEntry (handle : ℕ)
  | getGroup (grp : ℕ)
  | getNumMembersInGroup (grp : ℕ)

def create (base : MatchTableAbstract) (size : ℕ) (kb : MatchKeyBuilder) (ls : S) :
    MatchTableIndirectWS K S where
  toMatchTableIndirect := .create base size kb ls

variable (L : LookupStructure K S) (t : MatchTableIndirectWS K S)

def isValidGrp (grp : ℕ) : Bool := t.grpHandles.validHandle grp

/-- `choose_from_group` asserts a non-empty group. `hash` is the output of the selector's
calculation on the packet, if the table has one; it is cast to 32 bits. -/
def chooseFromGroup (grp : ℕ) (hash : Option ℕ) : Option ℕ := do
  let groupInfo ← t.groupEntries[grp]?
  if groupInfo.size > 0 then
    match hash with
    | none => groupInfo.getNth 0
    | some h => groupInfo.getNth (h % 2 ^ 32 % groupInfo.size)
  else none

def resolve (index : IndirectIndex) (hash : Option ℕ) : Option ℕ :=
  if index.isMbr then index.getMbr
  else do
    let grp ← index.getGrp
    if t.isValidGrp grp then t.chooseFromGroup grp hash else none

def lookup (key : List Byte) (hash : Option ℕ) : Option (Option ℕ × ActionEntry) := do
  let res ← t.matchUnit.lookupKey L key
  if res.isNone && !t.defaultSet then some (none, {})
  else do
    let mbr ← t.resolve ((res.map Prod.snd).getD t.defaultIndex) hash
    if t.isValidMbr mbr then
      (t.actionEntries[mbr]?).map fun entry => (res.map Prod.fst, entry)
    else none

def groupsInsert (grp : ℕ) : Option (MatchTableIndirectWS K S) :=
  if grp ≤ t.groupEntries.length then do
    let index ← IndirectIndex.makeGrpIndex grp
    let indexRefCount ← t.indexRefCount.set index 0
    some { t with
      indexRefCount
      groupEntries := pushOrSet t.groupEntries grp {} }
  else none

def createGroup : Option (Result ℕ × MatchTableIndirectWS K S) :=
  match t.grpHandles.getHandle with
  | none => some (.error .error, t)
  | some (grp, grpHandles) => do
    let t ← groupsInsert { t with grpHandles } grp
    some (.ok grp, { t with numGroups := t.numGroups + 1 })

/-- Deleting a non-empty group releases its members one by one. -/
def deleteGroup (grp : ℕ) : Option (Result Unit × MatchTableIndirectWS K S) :=
  if !t.isValidGrp grp then some (.error .invalidGrpHandle, t)
  else do
    let index ← IndirectIndex.makeGrpIndex grp
    if (← t.indexRefCount.get index) > 0 then some (.error .grpStillUsed, t)
    else do
      let groupInfo ← t.groupEntries[grp]?
      let indexRefCount ← groupInfo.toList.foldlM (fun c mbr => do
        c.decrease (← IndirectIndex.makeMbrIndex mbr)) t.indexRefCount
      match t.grpHandles.releaseHandle grp with
      | (false, _) => none
      | (true, grpHandles) =>
        some (.ok (), { t with indexRefCount, grpHandles, numGroups := t.numGroups - 1 })

def addMemberToGroup (mbr grp : ℕ) : Option (Result Unit × MatchTableIndirectWS K S) :=
  if !t.isValidMbr mbr then some (.error .invalidMbrHandle, t)
  else if !t.isValidGrp grp then some (.error .invalidGrpHandle, t)
  else do
    let groupInfo ← t.groupEntries[grp]?
    match groupInfo.addMember mbr with
    | .error e => some (.error e, t)
    | .ok groupInfo => do
      let indexRefCount ← t.indexRefCount.increase (← IndirectIndex.makeMbrIndex mbr)
      some (.ok (), { t with indexRefCount, groupEntries := t.groupEntries.set grp groupInfo })

def removeMemberFromGroup (mbr grp : ℕ) : Option (Result Unit × MatchTableIndirectWS K S) :=
  if !t.isValidMbr mbr then some (.error .invalidMbrHandle, t)
  else if !t.isValidGrp grp then some (.error .invalidGrpHandle, t)
  else do
    let groupInfo ← t.groupEntries[grp]?
    match groupInfo.deleteMember mbr with
    | .error e => some (.error e, t)
    | .ok groupInfo => do
      let indexRefCount ← t.indexRefCount.decrease (← IndirectIndex.makeMbrIndex mbr)
      some (.ok (), { t with indexRefCount, groupEntries := t.groupEntries.set grp groupInfo })

/-- The checks of `add_entry_ws` and `modify_entry_ws` on the group. -/
def checkGrp (grp : ℕ) : Option (Result Unit) :=
  if !t.isValidGrp grp then some (.error .invalidGrpHandle)
  else do
    let groupInfo ← t.groupEntries[grp]?
    if groupInfo.size = 0 then some (.error .emptyGrp) else some (.ok ())

def liftIndirect {α : Type} (p : Option (α × MatchTableIndirect K S)) :
    Option (α × MatchTableIndirectWS K S) :=
  p.map fun (r, t') => (r, { t with toMatchTableIndirect := t' })

def addEntryWs (now : ℕ) (params : List MatchKeyParam) (grp : ℕ) (priority : ℤ) :
    Option (Result ℕ × MatchTableIndirectWS K S) := do
  match ← t.checkGrp grp with
  | .error e => some (.error e, t)
  | .ok () => do
    let index ← IndirectIndex.makeGrpIndex grp
    t.liftIndirect (t.addIndexed L now params index priority)

def modifyEntryWs (handle grp : ℕ) : Option (Result Unit × MatchTableIndirectWS K S) :=
  t.liftIndirect (t.modifyIndexed handle (t.checkGrp grp) (IndirectIndex.makeGrpIndex grp))

def setDefaultGroup (grp : ℕ) : Option (Result Unit × MatchTableIndirectWS K S) :=
  if !t.isValidGrp grp then some (.error .invalidGrpHandle, t)
  else do
    let defaultIndex ← IndirectIndex.makeGrpIndex grp
    some (.ok (), { t with defaultIndex, defaultSet := true })

/-- The half of the answer that does not apply is the largest handle. -/
def getEntry (handle : ℕ) : Option (Result (List MatchKeyParam × ℕ × ℕ × ℤ)) := do
  match ← t.matchUnit.getEntry handle with
  | .error e => some (.error e)
  | .ok (params, index, priority) =>
    if index.isMbr then do
      let mbr ← index.getMbr
      some (.ok (params, mbr, 2 ^ 64 - 1, priority))
    else do
      let grp ← index.getGrp
      some (.ok (params, 2 ^ 64 - 1, grp, priority))

def getGroup (grp : ℕ) : Option (Result (List ℕ)) :=
  if !t.isValidGrp grp then some (.error .invalidGrpHandle)
  else (t.groupEntries[grp]?).map fun g => .ok g.toList

def getNumMembersInGroup (grp : ℕ) : Option (Result ℕ) :=
  if !t.isValidGrp grp then some (.error .invalidGrpHandle)
  else (t.groupEntries[grp]?).map fun g => .ok g.size

def step (t : MatchTableIndirectWS K S) :
    Op → Option (Result TableReply × MatchTableIndirectWS K S)
  | .indirect op => t.liftIndirect (t.toMatchTableIndirect.step L op)
  | .createGroup => t.createGroup.map fun (r, t) => (r.map .grp, t)
  | .deleteGroup grp => (t.deleteGroup grp).map fun (r, t) => (r.map fun _ => .done, t)
  | .addMemberToGroup mbr grp =>
    (t.addMemberToGroup mbr grp).map fun (r, t) => (r.map fun _ => .done, t)
  | .removeMemberFromGroup mbr grp =>
    (t.removeMemberFromGroup mbr grp).map fun (r, t) => (r.map fun _ => .done, t)
  | .addEntryWs now params grp priority =>
    (t.addEntryWs L now params grp priority).map fun (r, t) => (r.map .handle, t)
  | .modifyEntryWs handle grp =>
    (t.modifyEntryWs handle grp).map fun (r, t) => (r.map fun _ => .done, t)
  | .setDefaultGroup grp => (t.setDefaultGroup grp).map fun (r, t) => (r.map fun _ => .done, t)
  | .getEntry handle =>
    (t.getEntry handle).map fun r => (r.map fun (p, m, g, n) => .indirectEntry p m g n, t)
  | .getGroup grp => (t.getGroup grp).map fun r => (r.map .mbrs, t)
  | .getNumMembersInGroup grp => (t.getNumMembersInGroup grp).map fun r => (r.map .size, t)

end MatchTableIndirectWS

end Bmv2
