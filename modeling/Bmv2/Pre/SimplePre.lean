import Bmv2.Lib.UnorderedMap
import Bmv2.Match.HandleMgr

/-! The packet replication engine (`simple_pre.cpp`): multicast groups list L1 nodes, an L1
node points to an L2 node, an L2 node has the ports. The LAG maps are those of `simple_pre_lag.cpp`,
and stay empty here. The locks and the debug output are left out. -/
namespace Bmv2
open UnorderedMap

/-- `McPre::Set<256>`, a bit set. -/
abbrev PortMap := BitVec 256

abbrev LagMap := BitVec 256

/-- The ports of a port map in ascending order. -/
def PortMap.ports (portMap : PortMap) : List ℕ := (List.range 256).filter portMap.getLsbD

structure MgidEntry where
  mgid : ℕ := 0
  l1List : List ℕ := []
  deriving Inhabited

structure L1Entry where
  mgrpHdl : ℕ := 0
  rid : ℕ := 0
  l2Hdl : ℕ := 0
  deriving Inhabited

structure L2Entry where
  l1Hdl : ℕ := 0
  portMap : PortMap := 0
  lagMap : LagMap := 0
  deriving Inhabited

inductive McReturnCode where
  | success
  | tableFull
  | invalidMgid
  | invalidL1Handle
  | invalidL2Handle
  | error
  deriving DecidableEq

structure McOut where
  rid : ℕ
  egressPort : ℕ
  deriving DecidableEq

structure McSimplePre where
  mgidEntries : Map ℕ MgidEntry := ∅
  l1Entries : Map ℕ L1Entry := ∅
  l2Entries : Map ℕ L2Entry := ∅
  l1Handles : HandleMgr := {}
  l2Handles : HandleMgr := {}

namespace McSimplePre

def mgidTableSize : ℕ := 4096

def l1MaxEntries : ℕ := 4096

def l2MaxEntries : ℕ := 8192

variable (pre : McSimplePre)

/-- The handle of a group is its `mgid`. A group that exists is left as it is. -/
def mcMgrpCreate (mgid : ℕ) : McReturnCode × McSimplePre :=
  if pre.mgidEntries.keys.length ≥ mgidTableSize then (.tableFull, pre)
  else (.success, { pre with mgidEntries := emplace pre.mgidEntries mgid { mgid } })

def mcMgrpDestroy (mgrpHdl : ℕ) : McReturnCode × McSimplePre :=
  (.success, { pre with mgidEntries := pre.mgidEntries.erase mgrpHdl })

/-- Returns the handle of the new L1 node on success. -/
def mcNodeCreate (rid : ℕ) (portMap : PortMap) : (McReturnCode × Option ℕ) × McSimplePre :=
  if pre.l1Entries.keys.length ≥ l1MaxEntries then ((.tableFull, none), pre)
  else if pre.l2Entries.keys.length ≥ l2MaxEntries then ((.tableFull, none), pre)
  else match pre.l1Handles.getHandle with
    | none => ((.error, none), pre)
    | some (l1Hdl, l1Handles) =>
      match pre.l2Handles.getHandle with
      | none => ((.error, none), { pre with l1Handles })
      | some (l2Hdl, l2Handles) =>
        let l1Entries := emplace pre.l1Entries l1Hdl { rid }
        ((.success, some l1Hdl),
          { pre with
            l1Handles
            l2Handles
            l1Entries := modify l1Entries l1Hdl fun e => { e with l2Hdl }
            l2Entries := emplace pre.l2Entries l2Hdl { l1Hdl, portMap } })

/-- `mgid_entries[mgrp_hdl]` makes a group that does not exist. -/
def mcNodeAssociate (mgrpHdl l1Hdl : ℕ) : McReturnCode × McSimplePre :=
  if pre.l1Handles.validHandle l1Hdl then
    (.success,
      { pre with
        mgidEntries := modify pre.mgidEntries mgrpHdl fun e =>
          { e with l1List := e.l1List ++ [l1Hdl] }
        l1Entries := modify pre.l1Entries l1Hdl fun e => { e with mgrpHdl } })
  else (.invalidL1Handle, pre)

/-- The erase-remove idiom drops every occurrence of the node. -/
def mcNodeDissociate (mgrpHdl l1Hdl : ℕ) : McReturnCode × McSimplePre :=
  if pre.l1Handles.validHandle l1Hdl then
    (.success,
      { pre with
        mgidEntries := modify pre.mgidEntries mgrpHdl fun e =>
          { e with l1List := e.l1List.filter (· ≠ l1Hdl) }
        l1Entries := modify pre.l1Entries l1Hdl fun e => { e with mgrpHdl := 0 } })
  else (.invalidL1Handle, pre)

/-- The groups that list the node are not touched. -/
def mcNodeDestroy (l1Hdl : ℕ) : McReturnCode × McSimplePre :=
  if pre.l1Handles.validHandle l1Hdl then
    let l1Entry := (pre.l1Entries.lookup l1Hdl).getD default
    let l2Entries := pre.l2Entries.erase l1Entry.l2Hdl
    match pre.l2Handles.releaseHandle l1Entry.l2Hdl with
    | (false, l2Handles) =>
      (.invalidL2Handle,
        { pre with
          l1Entries := modify pre.l1Entries l1Hdl id
          l2Entries
          l2Handles })
    | (true, l2Handles) =>
      match pre.l1Handles.releaseHandle l1Hdl with
      | (released, l1Handles) =>
        (if released then .success else .invalidL1Handle,
          { pre with
            l1Entries := pre.l1Entries.erase l1Hdl
            l2Entries
            l1Handles
            l2Handles })
  else (.invalidL1Handle, pre)

def mcNodeUpdate (l1Hdl : ℕ) (portMap : PortMap) : McReturnCode × McSimplePre :=
  if pre.l1Handles.validHandle l1Hdl then
    let l1Entry := (pre.l1Entries.lookup l1Hdl).getD default
    (.success,
      { pre with
        l1Entries := modify pre.l1Entries l1Hdl id
        l2Entries := modify pre.l2Entries l1Entry.l2Hdl fun e => { e with portMap } })
  else (.invalidL1Handle, pre)

/-- The copies for one L1 node of a group; `at` throws for an unknown handle. -/
def replicateNode (l1Hdl : ℕ) : Option (List McOut) := do
  let l1Entry ← pre.l1Entries.lookup l1Hdl
  let l2Entry ← pre.l2Entries.lookup l1Entry.l2Hdl
  return l2Entry.portMap.ports.map fun port => ⟨l1Entry.rid, port⟩

/-- The loop of `replicate` over the nodes of a group. -/
def replicateList : List ℕ → Option (List McOut)
  | [] => some []
  | l1Hdl :: l1List => do
    let out ← pre.replicateNode l1Hdl
    let rest ← replicateList l1List
    return out ++ rest

def replicate (mgid : ℕ) : Option (List McOut) := do
  let mgidEntry ← pre.mgidEntries.lookup mgid
  pre.replicateList mgidEntry.l1List

end McSimplePre

end Bmv2
