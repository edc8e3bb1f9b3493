import Mathlib.Data.Finset.Sort
import Bmv2.Match.UnitSpec
import Bmv2.Packet.Buffer

/-! The key of a packet, and what a lookup with it leaves behind (`MatchKeyBuilder::operator()`
and `MatchUnitAbstract::lookup` of `match_units.cpp`). -/
namespace Bmv2
open ByteBits

namespace MatchKeyBuilder

/-- The bytes of one key field. A field of a header that is not valid counts as zero. -/
def packetField (phv : PHV) (f : KeyF) : Option (List Byte) := do
  let header ← phv.headers[f.header]?
  if f.mtype = .valid then some [if header.isValid then 1 else 0]
  else do
    let field ← header.fields[f.fOffset]?
    some (if header.isValid then field.bytes else List.replicate field.nbytes 0)

/-- `operator()`. -/
def packetKey (kb : MatchKeyBuilder) (phv : PHV) : Option (List Byte) := do
  let fields ← kb.keyInput.mapM (packetField phv)
  kb.applyBigMask fields.flatten

end MatchKeyBuilder

namespace MatchUnit

variable {K V S : Type} [MatchKey K] (L : LookupStructure K S) (u : MatchUnit K V S)

/-- `lookup`: a hit counts the packet and refreshes the entry. -/
def lookup (pkt : Packet) : Option (Option (ℕ × V) × MatchUnit K V S) := do
  let key ← u.matchKeyBuilder.packetKey pkt.phv
  match ← u.lookupKey L key with
  | none => some (none, u)
  | some (handle, value) => do
    let m ← u.entryMeta[handleInternal handle]?
    some (some (handle, value), { u with
      entryMeta := u.entryMeta.set (handleInternal handle)
        { m with counter := m.counter.increment pkt.ingressLength, ts := pkt.ingressTsMs } })

/-- A lookup is a miss that changes nothing, or a hit that touches the metadata of its slot. -/
theorem lookup_cases {u u' : MatchUnit K V S} {L : LookupStructure K S} {pkt : Packet}
    {res : Option (ℕ × V)} (h : u.lookup L pkt = some (res, u')) :
    ∃ key, u.matchKeyBuilder.packetKey pkt.phv = some key ∧ u.lookupKey L key = some res ∧
      ((res = none ∧ u' = u) ∨ ∃ handle value m, res = some (handle, value) ∧
        u.entryMeta[handleInternal handle]? = some m ∧
        u' = { u with
          entryMeta := u.entryMeta.set (handleInternal handle)
            { m with
              counter := m.counter.increment pkt.ingressLength, ts := pkt.ingressTsMs } }) := by
  obtain ⟨key, hkey, h⟩ := Option.bind_eq_some_iff.mp h
  obtain ⟨res', hres, h⟩ := Option.bind_eq_some_iff.mp h
  cases res' with
  | none =>
    obtain ⟨rfl, rfl⟩ := Prod.mk.inj (Option.some.inj h)
    exact ⟨key, hkey, hres, .inl ⟨rfl, rfl⟩⟩
  | some found =>
    obtain ⟨m, hm, h⟩ := Option.bind_eq_some_iff.mp h
    obtain ⟨rfl, rfl⟩ := Prod.mk.inj (Option.some.inj h)
    exact ⟨key, hkey, hres, .inr ⟨found.1, found.2, m, rfl, hm, rfl⟩⟩

/-- The packet's key matches an entry. -/
def Hits (pkt : Packet) : Prop :=
  ∃ key found, u.matchKeyBuilder.packetKey pkt.phv = some key ∧
    u.lookupKey L key = some (some found)

theorem hits_of_lookup {u u' : MatchUnit K V S} {L : LookupStructure K S} {pkt : Packet}
    {found : ℕ × V} (h : u.lookup L pkt = some (some found, u')) : u.Hits L pkt := by
  obtain ⟨key, hkey, hres, -⟩ := lookup_cases h
  exact ⟨key, found, hkey, hres⟩

theorem not_hits_of_lookup {u u' : MatchUnit K V S} {L : LookupStructure K S} {pkt : Packet}
    (h : u.lookup L pkt = some (none, u')) : ¬ u.Hits L pkt := by
  obtain ⟨key, hkey, hres, -⟩ := lookup_cases h
  rintro ⟨key', found, hkey', hres'⟩
  obtain rfl : key = key' := Option.some.inj (hkey.symm.trans hkey')
  simp [hres] at hres'

/-- `sweep_entries` with the clock at `nowMs`, which must not be before the time of an entry.
It names the entries by the version in their metadata. -/
def sweepEntries (nowMs : ℕ) : Option (List ℕ) :=
  (u.handles.handles.sort).foldlM (fun entries i => do
    let m ← u.entryMeta[i]?
    if nowMs < m.ts then none
    else if m.timeoutMs > 0 ∧ nowMs - m.ts ≥ m.timeoutMs then
      some (entries ++ [handleSet m.version i])
    else some entries) []

variable {u}

theorem handleInternal_of_lt (v : ℕ) {i : ℕ} (hi : i < 2 ^ 32) :
    handleInternal (handleSet v i) = i := by
  rw [handleInternal_eq, handleSet, Nat.shiftLeft_eq, Nat.mul_comm,
    ← Nat.two_pow_add_eq_or_of_lt hi]
  omega

/-- The expired handles of a table are distinct. -/
theorem Wf.nodup_sweepEntries (h : u.Wf) {nowMs : ℕ} {entries : List ℕ}
    (hsweep : u.sweepEntries nowMs = some entries) : entries.Nodup := by
  have hslots : ∀ (slots found found' : List ℕ), (∀ i ∈ slots, i < 2 ^ 32) →
      slots.foldlM (fun entries i => do
        let m ← u.entryMeta[i]?
        if nowMs < m.ts then none
        else if m.timeoutMs > 0 ∧ nowMs - m.ts ≥ m.timeoutMs then
          some (entries ++ [handleSet m.version i])
        else some entries) found = some found' →
      ∃ new, found' = found ++ new ∧ (new.map handleInternal).Sublist slots := by
    intro slots
    induction slots with
    | nil =>
      intro found found' _ hfound
      obtain rfl := Option.some.inj hfound
      exact ⟨[], (List.append_nil _).symm, List.Sublist.refl _⟩
    | cons i slots ih =>
      intro found found' hlt hfound
      obtain ⟨hi, hrest⟩ := List.forall_mem_cons.mp hlt
      rw [List.foldlM_cons] at hfound
      obtain ⟨next, hnext, hfound⟩ := Option.bind_eq_some_iff.mp hfound
      obtain ⟨m, -, hnext⟩ := Option.bind_eq_some_iff.mp hnext
      obtain ⟨new, rfl, hsub⟩ := ih next found' hrest hfound
      split_ifs at hnext
      · obtain rfl := Option.some.inj hnext
        refine ⟨handleSet m.version i :: new, by simp, ?_⟩
        rw [List.map_cons, handleInternal_of_lt _ hi]
        exact hsub.cons_cons i
      · obtain rfl := Option.some.inj hnext
        exact ⟨new, rfl, hsub.cons i⟩
  obtain ⟨new, rfl, hsub⟩ := hslots _ [] entries (fun i hi => by
    have hlt := h.handles_lt i ((Finset.mem_sort _).mp hi)
    have hsize := h.size_le
    omega) hsweep
  exact ((Finset.sort_nodup _ _).sublist hsub).of_map _

variable (u)

/-- `set_direct_meters` asserts that there is a meter for each slot. -/
def setDirectMeters (meters : List Meter) : Option (MatchUnit K V S) :=
  if u.size = meters.length then some { u with directMeters := some meters } else none

end MatchUnit

end Bmv2
