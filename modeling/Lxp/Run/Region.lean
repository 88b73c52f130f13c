import Lxp.Run.Lifecycle

/-!
# Program regions and vfork snapshots

Region leases and references, and the snapshot that keeps a vfork parent's writable data while its
child shares the region.  A snapshot is taken into a spare region at the same offsets, so copying
back is the same spans in the other direction.
-/

open Function LeaseTable

namespace Lxp

variable {C : Config}

def mmRegion (o : Own C) (s : C.Slot) : Option (RegionRef C) :=
  (o.mm s).bind fun m => (o.mms.val m).region

def regionLiveUsers (o : Own C) (r : Fin C.nreg) : Nat :=
  ((List.finRange C.nslot).filter fun s =>
    o.alive s && (mmRegion o s).any fun ref => ref.index == r).length

def regionFree (o : Own C) (r : Fin C.nreg) : Bool :=
  (o.regions r).leaseOwner.isNone && (o.regions r).refs == 0 && regionLiveUsers o r == 0

def firstFreeRegion (o : Own C) : Option (Fin C.nreg) :=
  (List.finRange C.nreg).find? (regionFree o)

theorem firstFreeRegion_unleased {o : Own C} {r : Fin C.nreg} (h : firstFreeRegion o = some r) :
    (o.regions r).leaseOwner = none := by
  have hfree := List.find?_some h
  simp only [regionFree, Bool.and_eq_true, Option.isNone_iff_eq_none] at hfree
  exact hfree.1.1

def regionReserve (r : Fin C.nreg) (owner : SlotRef C) (o : Own C) : Option (RegionRef C × Own C) :=
  if owner.generation = 0 ∨ owner ≠ slotRefAt o owner.index then none
  else
    match reserve o.regions r owner with
    | none => none
    | some (ref, regions) => some (ref, { o with regions := regions })

theorem regionReserve_eq {r : Fin C.nreg} {owner : SlotRef C} {o o' : Own C} {ref : RegionRef C}
    (h : regionReserve r owner o = some (ref, o')) :
    ∃ t, reserve o.regions r owner = some (ref, t) ∧ o' = { o with regions := t } := by
  unfold regionReserve at h
  split at h
  · cases h
  split at h
  · cases h
  · rename_i hres
    cases h
    exact ⟨_, hres, rfl⟩

def regionCommitAddressSpace (ref : RegionRef C) (owner : SlotRef C) (o : Own C) : Option (Own C) :=
  (commit o.regions ref owner).map fun regions => { o with regions := regions }

def regionGet (ref : Option (RegionRef C)) (o : Own C) : Option (Own C) :=
  match ref with
  | none => none
  | some ref => (LeaseTable.get o.regions C.nslot ref).map fun regions =>
      { o with regions := regions }

theorem regionGet_eq {ref : Option (RegionRef C)} {o o' : Own C} (h : regionGet ref o = some o') :
    ∃ r t, ref = some r ∧ LeaseTable.get o.regions C.nslot r = some t ∧
      o' = { o with regions := t } := by
  unfold regionGet at h
  split at h
  · cases h
  · rename_i r
    obtain ⟨t, ht, heq⟩ := Option.map_eq_some_iff.mp h
    exact ⟨r, t, rfl, ht, heq.symm⟩

def regionPut (ref : Option (RegionRef C)) (o : Own C) : Own C :=
  match ref with
  | none => o
  | some ref => { o with regions := put o.regions ref }

def regionMmPut (s : C.Slot) (o : Own C) : Own C :=
  if (o.mm s).isNone then o else procMmPut s (regionPut (mmRegion o s) o)

def regionReleaseIfOwned (ref : RegionRef C) (owner : SlotRef C) (o : Own C) : Own C :=
  { o with regions := releaseIfOwned o.regions ref owner }

def regionLeaseReassign (ref : RegionRef C) (old new : SlotRef C) (o : Own C) : Option (Own C) :=
  (leaseReassign o.regions ref old new).map fun regions => { o with regions := regions }

def vforkGuardReset (s : C.Slot) (o : Own C) : Own C :=
  { o with guards := update o.guards s {} }

/-! ## Snapshots -/

def copySpan (dst src : Nat → UInt8) (lo hi : Nat) : Nat → UInt8 :=
  fun off => if lo ≤ off ∧ off < hi then src off else dst off

def dataEnd (o : Own C) (s : C.Slot) (r : Fin C.nreg) : Nat := o.stackLo s - C.regionBase r

def stackSpan (o : Own C) (m : Obj C) (r : Fin C.nreg) (sp : Nat) : Nat × Nat :=
  (sp - C.regionBase r, (o.mms.val m).regionHi - C.regionBase r)

def dynPoolSize (o : Own C) (m : Obj C) : Nat :=
  if (o.mms.val m).isDynamic then C.dynPool.getD 0 else 0

def snapshotRam (par : C.Slot) (m : Obj C) (p rsnap : Fin C.nreg) (sp : Nat) (o : Own C)
    (ram : Ram C) : Ram C :=
  let (lo, hi) := stackSpan o m p sp
  { image := update ram.image rsnap
      (copySpan (copySpan (ram.image rsnap) (ram.image p) 0 (dataEnd o par p)) (ram.image p) lo hi)
    dynPool := update ram.dynPool rsnap
      (copySpan (ram.dynPool rsnap) (ram.dynPool p) 0 (dynPoolSize o m))
    arena := update ram.arena rsnap (ram.arena p) }

/-- The stack is copied back only when the saved stack pointer lies in it. -/
def restoreRam (par : C.Slot) (m : Obj C) (p rsnap : Fin C.nreg) (sp : Nat) (o : Own C)
    (ram : Ram C) : Ram C :=
  let (lo, hi) := stackSpan o m p sp
  let image := copySpan (ram.image p) (ram.image rsnap) 0 (dataEnd o par p)
  { image := update ram.image p
      (if o.stackLo par ≤ sp ∧ sp ≤ (o.mms.val m).regionHi then
        copySpan image (ram.image rsnap) lo hi
      else image)
    dynPool := update ram.dynPool p
      (copySpan (ram.dynPool p) (ram.dynPool rsnap) 0 (dynPoolSize o m))
    arena := update ram.arena p (ram.arena rsnap) }

def vforkSnapshot (par : C.Slot) (child : SlotRef C) (sp : Nat) (rt : Runtime C) :
    Option (RegionRef C × Runtime C) :=
  match rt.own.mm par, mmRegion rt.own par, firstFreeRegion rt.own with
  | some m, some p, some rsnap =>
    if child.generation = 0 ∨ rt.own.alive par = false ∨ sp < rt.own.stackLo par ∨
        (rt.own.mms.val m).regionHi < sp then none
    else
      match regionReserve rsnap child rt.own with
      | none => none
      | some (ref, o) =>
        some (ref, { rt with
          own := { o with
            guards := update o.guards child.index
              ⟨some (slotRefAt rt.own par), some p, some ref⟩ }
          ram := snapshotRam par m p.index rsnap sp rt.own rt.ram })
  | _, _, _ => none

theorem vforkSnapshot_eq {par : C.Slot} {child : SlotRef C} {sp : Nat} {rt rt' : Runtime C}
    {ref : RegionRef C} (h : vforkSnapshot par child sp rt = some (ref, rt')) :
    ∃ (m : Obj C) (p : RegionRef C) (o : Own C), rt.own.mm par = some m ∧
      mmRegion rt.own par = some p ∧ firstFreeRegion rt.own = some ref.index ∧
      (rt.own.stackLo par ≤ sp ∧ sp ≤ (rt.own.mms.val m).regionHi) ∧
      regionReserve ref.index child rt.own = some (ref, o) ∧
      rt' = { rt with
        own := { o with
          guards := update o.guards child.index ⟨some (slotRefAt rt.own par), some p, some ref⟩ }
        ram := snapshotRam par m p.index ref.index sp rt.own rt.ram } := by
  unfold vforkSnapshot at h
  split at h
  · rename_i m p rsnap hm hp hfree
    split at h
    · cases h
    rename_i hcond
    split at h
    · cases h
    rename_i o hres
    cases h
    obtain ⟨t, ht, -⟩ := regionReserve_eq hres
    obtain rfl := reserve_index ht
    simp only [not_or, not_lt] at hcond
    exact ⟨m, p, o, hm, hp, hfree, hcond.2.2, hres, rfl⟩
  · cases h

/-- Every identity is checked before the first write. -/
def vforkRestorable (par : C.Slot) (snapshot : RegionRef C) (child : SlotRef C)
    (o : Own C) : Bool :=
  let guard := o.guards child.index
  slotRefIsCurrent o child && o.alive par && (o.mm par).isSome &&
    guard.parent == some (slotRefAt o par) && mmRegion o par == guard.parentRegion &&
    guard.snapshot == some snapshot && (o.regions snapshot.index).leaseOwner == some child &&
    (o.regions snapshot.index).refs == 1 &&
    (o.regions snapshot.index).generation == snapshot.generation

def vforkRestore (par : C.Slot) (snapshot : RegionRef C) (child : SlotRef C) (sp : Nat)
    (rt : Runtime C) : Option (Runtime C) :=
  if vforkRestorable par snapshot child rt.own then
    match rt.own.mm par, mmRegion rt.own par with
    | some m, some p =>
      some { rt with
        own := vforkGuardReset child.index rt.own
        ram := restoreRam par m p.index snapshot.index sp rt.own rt.ram }
    | _, _ => none
  else none

def vforkParentIsCurrent (child : SlotRef C) (o : Own C) : Option C.Slot :=
  match (o.guards child.index).parent with
  | none => none
  | some parent =>
    if slotRefIsCurrent o child && slotRefIsCurrent o parent && (o.mm parent.index).isSome &&
        mmRegion o parent.index == (o.guards child.index).parentRegion then
      some parent.index
    else none

def vforkContainParent (child : SlotRef C) (rt : Runtime C) : Runtime C :=
  match vforkParentIsCurrent child rt.own with
  | none => rt
  | some parent => exitSlot parent false 127 .stateCorruption rt

def vforkLeaseRelease (child : SlotRef C) (o : Own C) : Own C :=
  match (o.guards child.index).snapshot with
  | none => o
  | some ref => regionReleaseIfOwned ref child o

/-- A stale snapshot is never copied: both processes end and only a lease that is still the child's
is given back. -/
def vforkContainStale (child : SlotRef C) (rt : Runtime C) : Runtime C :=
  let rt := vforkContainParent child rt
  let o := vforkLeaseRelease child rt.own
  exitSlot child.index false 127 .stateCorruption
    { rt with own := { vforkGuardReset child.index o with
      vforkParent := update o.vforkParent child.index none
      snapshot := update o.snapshot child.index none } }

end Lxp
