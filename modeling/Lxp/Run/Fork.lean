import Lxp.Run.Child

/-!
# The fork, vfork and clone handler

Fork construction owns one region reference, the unpublished child's objects, the child's native
maps, its accounting with the parent and, for vfork, the snapshot lease.  Nothing escapes before the
commit, and every failed phase ends in the same abort.
-/

open Function

namespace Lxp

variable {C : Config}

inductive ForkPhase where
  | empty
  | preparing
  | prepared
  | published
  | committed
  | aborted
deriving DecidableEq

structure ForkTxn (C : Config) where
  phase : ForkPhase
  parent : C.Slot
  child : C.Slot
  parentRef : SlotRef C
  childRef : SlotRef C
  parentRegion : Option (RegionRef C)
  regionAcquired : Bool := false
  childConstructed : Bool := false
  mapsTouched : Bool := false
  childCounted : Bool := false

def clearRecord (s : C.Slot) (rt : Runtime C) : Runtime C :=
  { rt with
    sched.ctl := update rt.sched.ctl s {}
    sig.st := update rt.sig.st s {} }

/-- A child inherits the parent's signal mask and nothing else of its transient state. -/
def initChild (child parent : C.Slot) (flags : CloneFlags) (childPid : Nat)
    (rt : Runtime C) : Option Errno × Runtime C :=
  if initChildValid child parent flags childPid rt.own then
    match procInitChild child parent flags childPid rt.own with
    | (some e, o) => (some e, { clearRecord child rt with own := o })
    | (none, o) =>
      (none, modifySig child (fun st => { st with blocked := (rt.sig.st parent).blocked })
        { clearRecord child rt with own := o })
  else (some .einval, rt)

def slotSignalClone (child parent : C.Slot) (rt : Runtime C) : Runtime C :=
  { rt with sig.frames := update rt.sig.frames child (rt.sig.frames parent) }

def slotSignalReset (s : C.Slot) (rt : Runtime C) : Runtime C :=
  { rt with sig.frames := update rt.sig.frames s [] }

def forkTxnBegin (parent child : C.Slot) (rt : Runtime C) : ForkTxn C × Runtime C :=
  let parentRef := slotRefAt rt.own parent
  let rt := deferredSlotReassign child rt
  ({ phase := .preparing
     parent := parent
     child := child
     parentRef := parentRef
     childRef := slotRefAt rt.own child
     parentRegion := mmRegion rt.own parent },
    { rt with own := vforkGuardReset child rt.own })

def childMaps (o : Own C) (s : C.Slot) : List (Nat × Nat) :=
  match o.mm s with
  | none => []
  | some m => (o.mms.val m).devMaps

def forkTxnPrepare (parent child : C.Slot) (flags : CloneFlags) (childPid : Nat)
    (rt : Runtime C) : Option Errno × ForkTxn C × Runtime C :=
  let (tx, rt) := forkTxnBegin parent child rt
  match regionGet tx.parentRegion rt.own with
  | none => (some .eagain, tx, rt)
  | some o =>
    let tx := { tx with regionAcquired := true }
    match initChild child parent flags childPid { rt with own := o } with
    | (some _, rt) => (some .eagain, tx, rt)
    | (none, rt) =>
      let tx := { tx with childConstructed := true, mapsTouched := true }
      match restoreMmMaps (childMaps rt.own child) (slotSignalClone child parent rt) with
      | (false, rt) => (some .enomem, tx, rt)
      | (true, rt) => (none, { tx with phase := .prepared }, rt)

def countChild (parent : C.Slot) (o : Own C) : Own C :=
  match o.group parent with
  | none => o
  | some g => modifyGroup g (fun x => { x with liveChildren := x.liveChildren + 1 }) o

def uncountChild (parent : C.Slot) (o : Own C) : Own C :=
  match o.group parent with
  | none => o
  | some g => modifyGroup g (fun x => { x with liveChildren := x.liveChildren - 1 }) o

def forkTxnCountChild (tx : ForkTxn C) (rt : Runtime C) : Option Errno × ForkTxn C × Runtime C :=
  if tx.phase ≠ .prepared ∨ tx.childCounted then (some .einval, tx, rt)
  else (none, { tx with childCounted := true }, { rt with own := countChild tx.parent rt.own })

def setSnapshot (s : C.Slot) (ref : Option (RegionRef C)) (rt : Runtime C) : Runtime C :=
  { rt with own.snapshot := update rt.own.snapshot s ref }

def setVforkParent (s : C.Slot) (ref : Option (SlotRef C)) (rt : Runtime C) : Runtime C :=
  { rt with own.vforkParent := update rt.own.vforkParent s ref }

def forkTxnSnapshot (tx : ForkTxn C) (sp : Nat) (rt : Runtime C) : Option Errno × Runtime C :=
  if tx.phase ≠ .prepared ∨ tx.childConstructed = false then (some .einval, rt)
  else
    match vforkSnapshot tx.parent tx.childRef sp rt with
    | none => (some .enomem, setSnapshot tx.child none rt)
    | some (ref, rt) => (none, setSnapshot tx.child (some ref) rt)

def forkTxnValid (tx : ForkTxn C) (o : Own C) : Bool :=
  tx.phase == .prepared && tx.regionAcquired && tx.childConstructed && !o.alive tx.child &&
    (o.mm tx.child).isSome && (o.files tx.child).isSome && (o.fsContext tx.child).isSome &&
    (o.sighand tx.child).isSome && (o.group tx.child).isSome &&
    slotRefIsCurrent o tx.parentRef && mmRegion o tx.child == tx.parentRegion

def forkTxnPublish (tx : ForkTxn C) (rt : Runtime C) : Option Errno × ForkTxn C × Runtime C :=
  if forkTxnValid tx rt.own then
    (none, { tx with phase := .published },
      { rt with own.alive := update rt.own.alive tx.child true })
  else (some .einval, tx, rt)

def forkTxnDone (phase : ForkPhase) (tx : ForkTxn C) : ForkTxn C :=
  { tx with
    phase := phase
    regionAcquired := false
    childConstructed := false
    mapsTouched := false
    childCounted := false }

/-- The releases of the abort, each only for what the transaction still owns. -/
def forkTxnRelease (tx : ForkTxn C) (o : Own C) : Own C :=
  let o := if tx.childCounted then uncountChild tx.parent o else o
  let o := match tx.childConstructed, o.snapshot tx.child with
    | true, some ref => regionReleaseIfOwned ref tx.childRef o
    | _, _ => o
  let o := if tx.regionAcquired then regionPut tx.parentRegion o else o
  if tx.childConstructed then procChildDiscard tx.child o else o

def forkTxnAbort (tx : ForkTxn C) (rt : Runtime C) : ForkTxn C × Runtime C :=
  if tx.phase = .aborted ∨ tx.phase = .committed ∨ tx.phase = .empty then (tx, rt)
  else
    let rt := if tx.mapsTouched then clearDeviceMaps rt else rt
    let rt := if tx.childConstructed then clearRecord tx.child rt else rt
    let rt := slotSignalReset tx.child { rt with own := forkTxnRelease tx rt.own }
    let rt := primarySlotClear tx.child (setRunnable tx.child false rt)
    (forkTxnDone .aborted tx, { rt with own := vforkGuardReset tx.child rt.own })

def forkTxnCommit (tx : ForkTxn C) : Option Errno × ForkTxn C :=
  if tx.phase = .published then (none, forkTxnDone .committed tx) else (some .einval, tx)

def forkCapacityAvailable (o : Own C) (s : C.Slot) : Bool :=
  match groupOf o s with
  | none => false
  | some g =>
    g.children.length < C.maxChild && g.liveChildren < C.maxChild - g.children.length

def resumeCloneForFork (tx : ForkTxn C) (childSp : Nat) (rt : Runtime C) :
    Option Errno × Runtime C :=
  if tx.childRef.generation = 0 ∨ tx.childRef.index = tx.parentRef.index ∨
      rt.own.generation tx.childRef.index ≠ tx.childRef.generation ∨
      rt.own.alive tx.childRef.index = true ∨ slotRefIsCurrent rt.own tx.parentRef = false then
    (some .esrch, rt)
  else (none, { rt with sched.resumeSp := update rt.sched.resumeSp tx.childRef.index childSp })

def forkParentResumeError (parent : C.Slot) (e : Errno) (rt : Runtime C) : Runtime C :=
  let rt := (parkSlot parent rt).2
  (completeSlot (slotRefAt rt.own parent) (-e.code) rt).2

def forkFail (tx : ForkTxn C) (e : Errno) (rt : Runtime C) : Runtime C :=
  forkParentResumeError tx.parent e (forkTxnAbort tx rt).2

/-- A committed child that is a process of its own is a child of its parent. -/
def countedLog (tx : ForkTxn C) (o : Own C) (log : Log) : Log :=
  match tx.childCounted, groupOf o tx.child with
  | true, some g => { log with counted := (g.ppid, g.tgid) :: log.counted }
  | _, _ => log

def forkPublishCommit (tx : ForkTxn C) (rt : Runtime C) : Option Errno × ForkTxn C × Runtime C :=
  match forkTxnPublish tx rt with
  | (some e, tx, rt) => (some e, tx, rt)
  | (none, tx, rt) =>
    match forkTxnCommit tx with
    | (some e, tx) => (some e, tx, rt)
    | (none, done) => (none, done, { rt with
        own.nextPid := rt.own.nextPid + 1
        log := countedLog tx rt.own rt.log })

/-- A shared-mm clone runs on its own stack while the parent co-runs. -/
def cloneShared (tx : ForkTxn C) (flags : CloneFlags) (childStack childPid : Nat)
    (rt : Runtime C) : Runtime C :=
  match (if flags.thread then (none, tx, rt) else forkTxnCountChild tx rt) with
  | (some e, tx, rt) => forkFail tx e rt
  | (none, tx, rt) =>
    match resumeCloneForFork tx childStack rt with
    | (some e, rt) => forkFail tx e rt
    | (none, rt) =>
      match forkPublishCommit tx rt with
      | (some e, tx, rt) => forkFail tx e rt
      | (none, tx, rt) =>
        let rt := (parkSlot tx.parent rt).2
        let rt := (completeSlot tx.parentRef childPid rt).2
        if slotRefIsCurrent rt.own tx.childRef then (resumeSlot tx.child 0 rt).2 else rt

/-- The parent stays parked until the child execs or exits; the child starts on the parent's
frame. -/
def forkVfork (tx : ForkTxn C) (rt : Runtime C) : Runtime C :=
  match forkTxnCountChild tx rt with
  | (some e, tx, rt) => forkFail tx e rt
  | (none, tx, rt) =>
    let rt := setVforkParent tx.child (some (slotRefAt rt.own tx.parent)) rt
    if slotRefIsCurrent rt.own tx.parentRef = false then forkFail tx .esrch rt
    else
      match forkTxnSnapshot tx (rt.sched.resumeSp tx.parent) rt with
      | (some e, rt) => forkFail tx e rt
      | (none, rt) =>
        match forkPublishCommit tx rt with
        | (some e, tx, rt) => forkFail tx e rt
        | (none, tx, rt) =>
          let rt := (parkSlot tx.parent rt).2
          if slotRefIsCurrent rt.own tx.parentRef then (resumeSlot tx.child 0 rt).2 else rt

def firstDeadSlot (o : Own C) : Option C.Slot :=
  (List.finRange C.nslot).find? fun s => !o.alive s

def handleFork (parent : C.Slot) (flags : CloneFlags) (childStack : Nat) (rt : Runtime C) :
    Runtime C :=
  let rt := intentClear parent rt
  if !flags.thread && !forkCapacityAvailable rt.own parent then
    forkParentResumeError parent .eagain rt
  else
    match firstDeadSlot rt.own with
    | none => forkParentResumeError parent .eagain rt
    | some child =>
      let childPid := rt.own.nextPid
      match forkTxnPrepare parent child flags childPid rt with
      | (some e, tx, rt) => forkFail tx e rt
      | (none, tx, rt) =>
        if flags.vm then cloneShared tx flags childStack childPid rt else forkVfork tx rt

theorem forkTxnCountChild_cases (tx : ForkTxn C) (rt : Runtime C) :
    forkTxnCountChild tx rt = (some .einval, tx, rt) ∨
    forkTxnCountChild tx rt =
      (none, { tx with childCounted := true }, { rt with own := countChild tx.parent rt.own }) :=
  ite_eq_or_eq ..

/-- What the abort of an open transaction does: besides the child's record only what the transaction
owns changes. -/
theorem forkTxnAbort_eq {tx : ForkTxn C} (rt : Runtime C)
    (h : tx.phase = .preparing ∨ tx.phase = .prepared ∨ tx.phase = .published) :
    ∃ rt1, SchedOnly rt rt1 ∧ ∃ rt2, (rt2 = rt1 ∨ rt2 = clearRecord tx.child rt1) ∧
      forkTxnAbort tx rt = (forkTxnDone .aborted tx,
        { primarySlotClear tx.child (setRunnable tx.child false (slotSignalReset tx.child rt2)) with
          own := vforkGuardReset tx.child (forkTxnRelease tx rt.own) }) := by
  have hopen : ¬ (tx.phase = .aborted ∨ tx.phase = .committed ∨ tx.phase = .empty) := by
    rcases h with hp | hp | hp <;> rw [hp] <;> decide
  have hmaps : SchedOnly rt (if tx.mapsTouched then clearDeviceMaps rt else rt) := by
    split
    · exact clearDeviceMaps_schedOnly rt
    · exact .refl rt
  unfold forkTxnAbort
  rw [if_neg hopen]
  generalize (if tx.mapsTouched then clearDeviceMaps rt else rt) = rt1 at hmaps ⊢
  refine ⟨rt1, hmaps, _, ite_eq_or_eq (tx.childConstructed = true) _ _ |>.symm, ?_⟩
  rw [← hmaps.own]
  split <;> rfl

theorem forkPublishCommit_cases (tx : ForkTxn C) (rt : Runtime C) :
    forkPublishCommit tx rt = (some .einval, tx, rt) ∨ forkTxnValid tx rt.own = true ∧
    forkPublishCommit tx rt = (none, forkTxnDone .committed { tx with phase := .published },
      { rt with
      own := { rt.own with
        alive := update rt.own.alive tx.child true
        nextPid := rt.own.nextPid + 1 }
      log := countedLog { tx with phase := .published }
        { rt.own with alive := update rt.own.alive tx.child true } rt.log }) := by
  unfold forkPublishCommit forkTxnPublish
  cases hvalid : forkTxnValid tx rt.own with
  | true => exact .inr ⟨rfl, rfl⟩
  | false => exact .inl rfl

theorem forkParentResumeError_schedOnly (parent : C.Slot) (e : Errno) (rt : Runtime C) :
    SchedOnly rt (forkParentResumeError parent e rt) :=
  (parkSlot_schedOnly parent rt).trans (completeSlot_schedOnly _ _ _)

end Lxp
