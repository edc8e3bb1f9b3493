import Bmv2.Pre.SimplePre

/-! Link aggregation in the replication engine (`simple_pre_lag.cpp`): an L2 node also has a set
of LAGs, and of each LAG one member port gets a copy. -/
namespace Bmv2
open UnorderedMap

structure LagEntry where
  memberCount : ℕ := 0
  portMap : PortMap := 0
  deriving Inhabited

structure McSimplePreLag extends McSimplePre where
  lagEntries : Map ℕ LagEntry := ∅

namespace McSimplePreLag

def lagMaxEntries : ℕ := 256

def lagHash : ℕ := 0xff

variable (pre : McSimplePreLag)

/-- Returns the handle of the new L1 node on success. -/
def mcNodeCreate (rid : ℕ) (portMap : PortMap) (lagMap : LagMap) :
    (McReturnCode × Option ℕ) × McSimplePreLag :=
  if pre.l1Entries.keys.length ≥ McSimplePre.l1MaxEntries then ((.tableFull, none), pre)
  else if pre.l2Entries.keys.length ≥ McSimplePre.l2MaxEntries then ((.tableFull, none), pre)
  else match pre.l1Handles.getHandle with
    | none => ((.error, none), pre)
    | some (l1Hdl, l1Handles) =>
      match pre.l2Handles.getHandle with
      | none => ((.error, none), { pre with l1Handles })
      | some (l2Hdl, l2Handles) =>
        let l1Entries := emplace pre.l1Entries l1Hdl { rid }
        ((.success, some l1Hdl),
          { pre with
            l1Handles
            l2Handles
            l1Entries := modify l1Entries l1Hdl fun e => { e with l2Hdl }
            l2Entries := emplace pre.l2Entries l2Hdl { l1Hdl, portMap, lagMap } })

def mcNodeUpdate (l1Hdl : ℕ) (portMap : PortMap) (lagMap : LagMap) :
    McReturnCode × McSimplePreLag :=
  if pre.l1Handles.validHandle l1Hdl then
    let l1Entry := (pre.l1Entries.lookup l1Hdl).getD default
    (.success,
      { pre with
        l1Entries := modify pre.l1Entries l1Hdl id
        l2Entries := modify pre.l2Entries l1Entry.l2Hdl fun e => { e with portMap, lagMap } })
  else (.invalidL1Handle, pre)

/-- A port map has at most 256 members, which the 16 bits of `member_count` can hold. -/
def mcSetLagMembership (lagIndex : ℕ) (portMap : PortMap) : McReturnCode × McSimplePreLag :=
  if lagIndex > lagMaxEntries then (.error, pre)
  else
    let memberCount := (List.range 256).countP fun j => portMap.getLsbD j
    (.success, { pre with lagEntries := pre.lagEntries.insert lagIndex { memberCount, portMap } })

/-- The scan for the member with number `portCount1`: the first port up to which so many ports
are set. -/
def scanPorts (portMap : PortMap) (portCount1 : ℕ) : ℕ → List ℕ → Option ℕ
  | _, [] => none
  | portCount2, portId :: ports =>
    let portCount2 := if portMap.getLsbD portId then portCount2 + 1 else portCount2
    if portCount1 = portCount2 then some portId else scanPorts portMap portCount1 portCount2 ports

/-- The copy for one LAG. An unknown LAG makes `at` throw, and one without members divides by
zero. -/
def replicateLag (rid lagIndex : ℕ) : Option (List McOut) := do
  let lagEntry ← pre.lagEntries.lookup lagIndex
  if lagEntry.memberCount = 0 then none
  else
    let portCount1 := lagHash % lagEntry.memberCount + 1
    return (scanPorts lagEntry.portMap portCount1 0 (List.range 256)).toList.map fun port =>
      ⟨rid, port⟩

/-- The loop over the LAGs of a node. -/
def replicateLags (rid : ℕ) : List ℕ → Option (List McOut)
  | [] => some []
  | lagIndex :: lagIndices => do
    let out ← pre.replicateLag rid lagIndex
    let rest ← replicateLags rid lagIndices
    return out ++ rest

/-- The copies for one L1 node of a group, ports first. -/
def replicateNode (l1Hdl : ℕ) : Option (List McOut) := do
  let l1Entry ← pre.l1Entries.lookup l1Hdl
  let l2Entry ← pre.l2Entries.lookup l1Entry.l2Hdl
  let out := l2Entry.portMap.ports.map fun port => ⟨l1Entry.rid, port⟩
  let lagOut ← pre.replicateLags l1Entry.rid (PortMap.ports l2Entry.lagMap)
  return out ++ lagOut

def replicateList : List ℕ → Option (List McOut)
  | [] => some []
  | l1Hdl :: l1List => do
    let out ← pre.replicateNode l1Hdl
    let rest ← replicateList l1List
    return out ++ rest

def replicate (mgid : ℕ) : Option (List McOut) := do
  let mgidEntry ← pre.mgidEntries.lookup mgid
  pre.replicateList mgidEntry.l1List

end McSimplePreLag

end Bmv2
