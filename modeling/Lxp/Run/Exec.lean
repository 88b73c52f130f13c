import Lxp.Run.Fork

/-!
# Image construction and the exec handler

An image is built off its slot under a region lease and moved into the slot at publish.  The exec
transaction validates and reserves, commits by stopping the old image, and from there on either
publishes the new image or contains the task.
-/

open Function LeaseTable

namespace Lxp

variable {C : Config}

/-! ## The image transaction -/

/-- What loading an image into a region comes to: whether everything before the process objects
(program, interpreter, arena), the program break and the initial stack succeed, and the memory the
region is left with. -/
structure LoadResult where
  loads : Bool := true
  brk : Bool := true
  stack : Bool := true
  isDynamic : Bool := false
  copiedText : Bool := false
  stackLo : Nat := 0
  image : Nat → UInt8 := fun _ => 0
  dynPool : Nat → UInt8 := fun _ => 0
  arena : Nat → UInt8 := fun _ => 0

structure ImageTxn (C : Config) where
  slot : C.Slot
  region : RegionRef C
  owner : SlotRef C
  pid : Nat
  proc : ImageProc C := {}
  blocked : Finset Nat := ∅
  execFileIdx : Int := 0
  vforkParent : Option (SlotRef C) := none
  stackLo : Nat := 0
  copiedText : Bool := false
  prepared : Bool := false
  published : Bool := false

def loadRam (r : Fin C.nreg) (l : LoadResult) (ram : Ram C) : Ram C :=
  { image := update ram.image r l.image
    dynPool := update ram.dynPool r l.dynPool
    arena := update ram.arena r l.arena }

def setImageObjects (tx : ImageTxn C) (ppid : Nat) (l : LoadResult) (p : ImageProc C)
    (o : Own C) : Own C :=
  match p.mm, p.group with
  | some m, some g =>
    { o with
      groups := o.groups.set g { tgid := tx.pid, ppid := ppid, pgid := tx.pid }
      mms := o.mms.set m
        { region := some tx.region
          regionHi := C.regionBase tx.region.index + C.regionSize
          isDynamic := l.isDynamic } }
  | _, _ => o

def imageTxnPrepare (tx : ImageTxn C) (ppid : Nat) (l : LoadResult) (rt : Runtime C) :
    Option Errno × ImageTxn C × Runtime C :=
  if ¬ LeaseMatches rt.own.regions tx.region tx.owner 1 then (some .einval, tx, rt)
  else
    let rt := { rt with ram := loadRam tx.region.index l rt.ram }
    if l.loads = false then (some .enoexec, tx, rt)
    else
      match procInit l.brk rt.own with
      | (none, o) => (some .enomem, tx, { rt with own := o })
      | (some p, o) =>
        let tx := { tx with proc := p, stackLo := l.stackLo, copiedText := l.copiedText }
        let rt := { rt with own := setImageObjects tx ppid l p o }
        if l.stack then (none, { tx with prepared := true }, rt) else (some .enomem, tx, rt)

def slotVacant (o : Own C) (s : C.Slot) : Bool :=
  !o.alive s && (o.mm s).isNone && (o.files s).isNone && (o.fsContext s).isNone &&
    (o.sighand s).isNone && (o.group s).isNone

/-- An ownership move of the finished image into its slot. -/
def slotPublishImage (tx : ImageTxn C) (rt : Runtime C) : Option (Runtime C) :=
  if slotVacant rt.own tx.slot then
    let s := tx.slot
    let o := rt.own
    let rt := slotSignalReset s (clearRecord s rt)
    some (modifySig s (fun st => { st with blocked := tx.blocked }) { rt with
      own := { o with
        alive := update o.alive s true
        pid := update o.pid s tx.pid
        mm := update o.mm s tx.proc.mm
        files := update o.files s tx.proc.files
        fsContext := update o.fsContext s tx.proc.fsContext
        sighand := update o.sighand s tx.proc.sighand
        group := update o.group s tx.proc.group
        vforkParent := update o.vforkParent s tx.vforkParent
        snapshot := update o.snapshot s none
        execFileIdx := update o.execFileIdx s tx.execFileIdx
        stackLo := update o.stackLo s tx.stackLo } })
  else none

def imageTxnPublish (tx : ImageTxn C) (rt : Runtime C) : Option Errno × ImageTxn C × Runtime C :=
  if tx.prepared = false ∨ tx.published ∨ tx.proc.mm.isNone ∨
      ¬ LeaseMatches rt.own.regions tx.region tx.owner 1 then
    (some .einval, tx, rt)
  else
    match (if tx.copiedText then callPublish rt else (true, rt)) with
    | (false, rt) => (some .eio, tx, rt)
    | (true, rt) =>
      match slotPublishImage tx rt with
      | none => (some .einval, tx, rt)
      | some rt => (none, { tx with published := true, proc := {} }, clearDeviceMaps rt)

def imageTxnStart (tx : ImageTxn C) (rt : Runtime C) : Option Errno × Runtime C :=
  if tx.published then
    match launchSlot tx.slot rt with
    | (false, rt) => (some .eio, rt)
    | (true, rt) =>
      match regionCommitAddressSpace tx.region tx.owner rt.own with
      | none => (some .eio, rt)
      | some o => (none, { rt with own := o })
  else (some .einval, rt)

def slotProcReset (s : C.Slot) (rt : Runtime C) : Runtime C :=
  { clearRecord s rt with own := procChildReset s rt.own }

/-- The slot's objects after a publish; the image's own before it. -/
def imageTxnRelease (tx : ImageTxn C) (o : Own C) : Own C :=
  if tx.published then
    let o := procResourcesPut tx.slot o
    let o := if mmRegion o tx.slot = some tx.region then regionMmPut tx.slot o
      else procMmPut tx.slot o
    procGroupPut tx.slot o
  else
    let o := imageResourcesPut tx.proc o
    let o := match tx.proc.mm with
      | none => o
      | some m =>
        if (o.mms.val m).region = some tx.region then mmPut (some m) (regionPut (some tx.region) o)
        else mmPut (some m) o
    groupPut tx.proc.group o

def imageLeaseRelease (tx : ImageTxn C) (o : Own C) : Own C :=
  if LeaseMatches o.regions tx.region tx.owner 1 then regionReleaseIfOwned tx.region tx.owner o
  else o

def imageTxnAbort (tx : ImageTxn C) (rt : Runtime C) : Bool × Runtime C :=
  match (if tx.published && rt.own.alive tx.slot then abortSlot tx.slot rt else (true, rt)) with
  | (false, rt) => (false, rt)
  | (true, rt) =>
    let rt := { rt with own := imageTxnRelease tx rt.own }
    let rt := if tx.published then
        slotSignalReset tx.slot (primarySlotClear tx.slot
          (setRunnable tx.slot false (slotProcReset tx.slot rt)))
      else rt
    (true, { rt with own := imageLeaseRelease tx rt.own })

/-! ## The exec transaction -/

inductive ExecPhase where
  | empty
  | validated
  | reserved
  | committed
  | imageReady
  | published
  | finished
  | aborted
deriving DecidableEq

structure ExecTxn (C : Config) where
  phase : ExecPhase := .empty
  slot : C.Slot
  oldRef : SlotRef C
  parentRef : Option (SlotRef C)
  pid : Nat
  ppid : Nat
  imageIndex : Int
  region : Option (RegionRef C) := none
  newRef : Option (SlotRef C) := none
  saved : ImageProc C := {}
  savedMask : Finset Nat := ∅
  regionAcquired : Bool := false
  usesSnapshot : Bool := false
  parentRestored : Bool := false
  parentResumed : Bool := false
  oldDetached : Bool := false
  slotReassigned : Bool := false
  terminal : Bool := false
  image : Option (ImageTxn C) := none

def execStaged : Int := -2

def execTxnInit (s : C.Slot) (o : Own C) : ExecTxn C where
  slot := s
  oldRef := slotRefAt o s
  parentRef := o.vforkParent s
  pid := o.pid s
  ppid := ((groupOf o s).map Group.ppid).getD 0
  imageIndex := o.execFileIdx s

/-- The image an index names and whether its text is copied from the staging buffer. -/
def execImage (idx : Int) (rt : Runtime C) : Option FileImage × Bool :=
  if idx = execStaged then
    (if rt.stage.image.size = 0 ∨ C.stageCap < rt.stage.image.size then none
      else some rt.stage.image, true)
  else if 0 ≤ idx then (C.rootfs[idx.toNat]?, false)
  else (none, false)

def execTxnValidateImage (tx : ExecTxn C) (image : Option FileImage) (remote : Bool) :
    Option Errno × ExecTxn C :=
  match tx.phase, image with
  | .empty, some img =>
    match loaderValidateFdpic C.fpuContext img.mem img.addr img.size C.regionSize remote with
    | .ok () => (none, { tx with phase := .validated })
    | .error _ => (some .enoexec, tx)
  | _, _ => (some .enoexec, tx)

def execTxnReserve (tx : ExecTxn C) (rt : Runtime C) : Option Errno × ExecTxn C × Runtime C :=
  if tx.phase ≠ .validated ∨ slotRefIsCurrent rt.own tx.oldRef = false then (some .einval, tx, rt)
  else
    match rt.own.snapshot tx.slot with
    | some ref =>
      let tx := { tx with region := some ref }
      if LeaseMatches rt.own.regions ref tx.oldRef 1 then
        (none, { tx with usesSnapshot := true, regionAcquired := true, phase := .reserved }, rt)
      else (some .eio, { tx with terminal := true }, vforkContainStale tx.oldRef rt)
    | none =>
      match firstFreeRegion rt.own with
      | none => (some .enomem, tx, rt)
      | some r =>
        match regionReserve r tx.oldRef rt.own with
        | none => (some .enomem, tx, rt)
        | some (ref, o) =>
          (none, { tx with region := some ref, regionAcquired := true, phase := .reserved },
            { rt with own := o })

/-- The old image's objects belong to the transaction from here on. -/
def execTxnDetachOld (tx : ExecTxn C) (rt : Runtime C) : ExecTxn C × Runtime C :=
  if tx.oldDetached then (tx, rt)
  else
    let s := tx.slot
    let o := rt.own
    let tx := { tx with
      saved :=
        { files := o.files s, fsContext := o.fsContext s, sighand := o.sighand s,
          group := o.group s }
      savedMask := (rt.sig.st s).blocked
      oldDetached := true }
    let o := regionMmPut s { o with
      files := update o.files s none
      fsContext := update o.fsContext s none
      sighand := update o.sighand s none
      group := update o.group s none }
    (tx, setRunnable s false { rt with own := { o with
      snapshot := update o.snapshot s none
      alive := update o.alive s false } })

def stopPeer (source : C.Slot) (group : Option (Obj C)) (status : Nat)
    (r : Bool × Runtime C) (s : C.Slot) : Bool × Runtime C :=
  if s ≠ source ∧ r.2.own.alive s = true ∧ r.2.own.group s = group then
    let (ok, rt) := abortSlot s r.2
    (r.1 && ok, exitSlot s false (status % 256) .normal rt)
  else r

def threadGroupStopExecPeers (source : C.Slot) (status : Nat) (rt : Runtime C) : Bool × Runtime C :=
  (List.finRange C.nslot).foldl (stopPeer source (rt.own.group source) status) (true, rt)

/-- Before the commit a vfork child gives its parent the snapshot back. -/
def execRestoreParent (tx : ExecTxn C) (rt : Runtime C) : Option Errno × ExecTxn C × Runtime C :=
  match tx.parentRef with
  | none => (none, tx, rt)
  | some parent =>
    let restored := match slotRefIsCurrent rt.own parent, rt.own.snapshot tx.slot with
      | true, some ref =>
        vforkRestore parent.index ref tx.oldRef (rt.sched.resumeSp parent.index) rt
      | _, _ => none
    match restored with
    | none => (some .eio, { tx with terminal := true }, vforkContainStale tx.oldRef rt)
    | some rt => (none, { tx with parentRestored := true }, setSnapshot tx.slot none rt)

def execReassign (tx : ExecTxn C) (rt : Runtime C) : Bool × ExecTxn C × Runtime C :=
  let rt := deferredSlotReassign tx.slot rt
  let newRef := slotRefAt rt.own tx.slot
  let tx := { tx with slotReassigned := true, newRef := some newRef }
  match tx.region with
  | none => (false, tx, rt)
  | some ref =>
    match regionLeaseReassign ref tx.oldRef newRef rt.own with
    | none => (false, tx, rt)
    | some o => (true, tx, { rt with own := o })

def closeOnExec (s : C.Slot) (o : Own C) : Own C :=
  match o.files s with
  | none => o
  | some f => fdCloseOnExec f o

def execTxnCommit (tx : ExecTxn C) (rt : Runtime C) : Option Errno × ExecTxn C × Runtime C :=
  if tx.phase ≠ .reserved then (some .einval, tx, rt)
  else
    match execRestoreParent { tx with phase := .committed } rt with
    | (some e, tx, rt) => (some e, tx, rt)
    | (none, tx, rt) =>
      match threadGroupStopExecPeers tx.slot 127 rt with
      | (false, rt) => (some .eagain, tx, rt)
      | (true, rt) =>
        match abortSlot tx.slot rt with
        | (false, rt) => (some .eagain, tx, rt)
        | (true, rt) =>
          match procFilesUnshare tx.slot rt.own with
          | (some _, o) => (some .enomem, tx, { rt with own := o })
          | (none, o) =>
            let (tx, rt) := execTxnDetachOld tx { rt with own := closeOnExec tx.slot o }
            match execReassign tx rt with
            | (false, tx, rt) => (some .eio, tx, rt)
            | (true, tx, rt) => (none, tx, clearDeviceMaps rt)

def execTxnResumeParent (tx : ExecTxn C) (rt : Runtime C) : ExecTxn C × Runtime C :=
  match tx.parentRestored && !tx.parentResumed, tx.parentRef with
  | true, some parent =>
    if slotRefIsCurrent rt.own parent then
      ({ tx with parentResumed := true }, (completeSlot parent tx.pid rt).2)
    else (tx, rt)
  | _, _ => (tx, rt)

def execTxnReportFailure (tx : ExecTxn C) (rt : Runtime C) : ExecTxn C × Runtime C :=
  let (tx, rt) := execTxnResumeParent tx rt
  (tx, reapToParent tx.ppid tx.pid 127 (!refIsCurrent rt.own tx.parentRef) rt)

/-- The fresh descriptor table, filesystem context and thread group give way to the old ones; the
fresh signal table replaces the old one. -/
def execAdoptOldResources (tx : ExecTxn C) (img : ImageTxn C) (o : Own C) :
    ExecTxn C × ImageTxn C × Own C :=
  let o := fsContextPut img.proc.fsContext (filesPut img.proc.files o)
  let o := groupPut img.proc.group o
  let img := { img with
    proc := { img.proc with
      files := tx.saved.files, fsContext := tx.saved.fsContext, group := tx.saved.group }
    blocked := tx.savedMask
    execFileIdx := tx.imageIndex
    vforkParent := tx.parentRef }
  ({ tx with saved := {} }, img, sighandPut tx.saved.sighand o)

def execReleaseImage (tx : ExecTxn C) (rt : Runtime C) : Bool × Runtime C :=
  match tx.image with
  | some img => imageTxnAbort img rt
  | none =>
    match tx.regionAcquired, tx.region, tx.newRef with
    | true, some ref, some newRef =>
      (true, { rt with own := if LeaseMatches rt.own.regions ref newRef 1 then
        regionReleaseIfOwned ref newRef rt.own else rt.own })
    | _, _, _ => (true, rt)

def execEnd (tx : ExecTxn C) (rt : Runtime C) : Runtime C :=
  let rt := { rt with own := imagePut tx.saved rt.own }
  let (tx, rt) := execTxnReportFailure { tx with saved := {} } rt
  let rt := primarySlotClear tx.slot (setRunnable tx.slot false (slotProcReset tx.slot rt))
  { rt with own := vforkGuardReset tx.slot rt.own }

/-- After the commit point the task is contained: its remaining objects and lease are released and
its end is reported to the parent. -/
def execTxnContain (tx : ExecTxn C) (rt : Runtime C) : Runtime C :=
  let (imageReleased, rt) := execReleaseImage tx rt
  if imageReleased then execEnd tx rt else rt

def releaseOldLease (tx : ExecTxn C) (o : Own C) : Own C :=
  match tx.regionAcquired, tx.region with
  | true, some ref => regionReleaseIfOwned ref tx.oldRef o
  | _, _ => o

def ExecPhase.beforeCommit : ExecPhase → Bool
  | .empty | .validated | .reserved => true
  | _ => false

def execTxnAbort (tx : ExecTxn C) (e : Errno) (rt : Runtime C) : Runtime C :=
  if tx.phase = .aborted ∨ tx.phase = .finished ∨ tx.terminal then rt
  else if tx.phase.beforeCommit then
    let rt := if tx.usesSnapshot then rt else { rt with own := releaseOldLease tx rt.own }
    (completeSlot tx.oldRef (-e.code) rt).2
  else if tx.oldDetached then
    execTxnContain tx rt
  else
    match abortSlot tx.slot rt with
    | (false, rt) => { rt with own := releaseOldLease tx rt.own }
    | (true, rt) =>
      let (tx, rt) := execTxnDetachOld tx rt
      let (_, tx, rt) := execReassign tx rt
      execTxnContain tx rt

def execPublish (tx : ExecTxn C) (img : ImageTxn C) (rt : Runtime C) : Runtime C :=
  match imageTxnPublish img rt with
  | (some e, img, rt) => execTxnAbort { tx with image := some img } e rt
  | (none, img, rt) =>
    match imageTxnStart img rt with
    | (some e, rt) => execTxnAbort { tx with image := some img, phase := .published } e rt
    | (none, rt) => setVforkParent tx.slot none (execTxnResumeParent tx rt).2

/-- From the committed transaction on: build, adopt, publish and start the new image. -/
def execFinish (tx : ExecTxn C) (l : LoadResult) (rt : Runtime C) : Runtime C :=
  match tx.region, tx.newRef with
  | some ref, some newRef =>
    let img : ImageTxn C := { slot := tx.slot, region := ref, owner := newRef, pid := tx.pid }
    match imageTxnPrepare img tx.ppid l rt with
    | (some e, img, rt) => execTxnAbort { tx with image := some img } e rt
    | (none, img, rt) =>
      let (tx, img, o) := execAdoptOldResources { tx with phase := .imageReady } img rt.own
      execPublish tx img { rt with own := o }
  | _, _ => rt

def handleExec (s : C.Slot) (l : LoadResult) (rt : Runtime C) : Runtime C :=
  match parkSlot s rt with
  | (false, rt) => rt
  | (true, rt) =>
    let rt := intentClear s rt
    let tx := execTxnInit s rt.own
    let (image, remote) := execImage tx.imageIndex rt
    match execTxnValidateImage tx image remote with
    | (some e, tx) => execTxnAbort tx e rt
    | (none, tx) =>
      match execTxnReserve tx rt with
      | (some e, tx, rt) => execTxnAbort tx e rt
      | (none, tx, rt) =>
        match execTxnCommit tx rt with
        | (some e, tx, rt) => execTxnAbort tx e rt
        | (none, tx, rt) => execFinish tx l rt

/-! ## What the steps around the commit leave alone -/

theorem stopPeers_schedOnly (source : C.Slot) (group : Option (Obj C)) (status : Nat)
    (l : List C.Slot) (r : Bool × Runtime C) :
    SchedOnly r.2 (l.foldl (stopPeer source group status) r).2 := by
  induction l generalizing r with
  | nil => exact .refl r.2
  | cons s l ih =>
    refine .trans ?_ (ih _)
    unfold stopPeer
    split
    · exact (abortSlot_schedOnly s r.2).trans (exitSlot_schedOnly s _ _ _ _)
    · exact .refl r.2

theorem threadGroupStopExecPeers_schedOnly (source : C.Slot) (status : Nat) (rt : Runtime C) :
    SchedOnly rt (threadGroupStopExecPeers source status rt).2 :=
  stopPeers_schedOnly source _ status _ (true, rt)

theorem execTxnResumeParent_schedOnly (tx : ExecTxn C) (rt : Runtime C) :
    SchedOnly rt (execTxnResumeParent tx rt).2 := by
  unfold execTxnResumeParent
  split
  · split
    · exact completeSlot_schedOnly _ _ _
    · exact .refl rt
  · exact .refl rt

theorem execTxnReportFailure_groupsOnly (tx : ExecTxn C) (rt : Runtime C) :
    GroupsOnly rt (execTxnReportFailure tx rt).2 :=
  (execTxnResumeParent_schedOnly tx rt).groupsOnly.trans (childEventPublish_groupsOnly _ _ _)

theorem execTxnResumeParent_slot (tx : ExecTxn C) (rt : Runtime C) :
    (execTxnResumeParent tx rt).1.slot = tx.slot := by
  unfold execTxnResumeParent
  split
  · split <;> rfl
  · rfl

end Lxp
