import Lxp.Run.Exec

/-!
# The exit handler and the primary events

Exit is retried until the native task is gone; only then are the task's references released, its
vfork parent restored and the end of its thread group reported.
-/

open Function

namespace Lxp

variable {C : Config}

def requestExitOf (g : Obj C) (status : Nat) (rt : Runtime C) (s : C.Slot) : Runtime C :=
  if rt.own.alive s = true ∧ rt.own.group s = some g then
    exitSlot s true (status % 256) .normal rt
  else rt

def threadGroupRequestExit (source : C.Slot) (status : Nat) (rt : Runtime C) : Runtime C :=
  match rt.own.group source with
  | none => rt
  | some g =>
    let rt := { rt with own := modifyGroup g (fun x =>
      { x with exiting := true, exitStatus := status % 256 }) rt.own }
    (List.finRange C.nslot).foldl (requestExitOf g status) rt

def threadGroupLive (o : Own C) (g : Option (Obj C)) : Bool :=
  (List.finRange C.nslot).any fun s => o.alive s && o.group s == g

/-- A vfork child that dies before its exec gives the parent its memory back.  The result says
whether the parent may still be resumed. -/
def exitRestoreParent (s : C.Slot) (rt : Runtime C) : Bool × Runtime C :=
  match rt.own.vforkParent s, rt.own.snapshot s with
  | some parent, some ref =>
    if slotRefIsCurrent rt.own parent then
      let self := slotRefAt rt.own s
      match vforkRestore parent.index ref self (rt.sched.resumeSp parent.index) rt with
      | none => (false, vforkContainStale self rt)
      | some rt => (true, { rt with own := regionReleaseIfOwned ref self rt.own })
    else (true, rt)
  | _, _ => (true, rt)

/-- The references of the task itself, once its native task is gone. -/
def exitRelease (s : C.Slot) (rt : Runtime C) : Bool × Runtime C :=
  let rt := clearDeviceMaps { rt with own := procResourcesPut s rt.own }
  let (resume, rt) := exitRestoreParent s (slotSignalReset s rt)
  let o := regionMmPut s rt.own
  let rt := setRunnable s false { rt with own := { o with alive := update o.alive s false } }
  (resume, deferredSlotReassign s rt)

def exitResumeParent (s : C.Slot) (parentRef : Option (SlotRef C)) (resume : Bool)
    (rt : Runtime C) : Runtime C :=
  match resume && refIsCurrent rt.own parentRef, parentRef with
  | true, some parent => (completeSlot parent (rt.own.pid s) rt).2
  | _, _ => rt

def exitReport (s : C.Slot) (parentRef : Option (SlotRef C)) (resume : Bool) (status : Nat)
    (rt : Runtime C) : Bool × Runtime C :=
  let group := (groupOf rt.own s).getD {}
  let dead := !threadGroupLive rt.own (rt.own.group s)
  if group.tgid = 1 ∧ dead then (true, { rt with own := procGroupPut s rt.own })
  else
    let rt := exitResumeParent s parentRef resume rt
    let rt := if dead then
        reapToParent group.ppid group.tgid status (!refIsCurrent rt.own parentRef) rt
      else rt
    (false, { rt with own := procGroupPut s rt.own })

/-- The first component tells the coordinator to stop: the initial process has ended. -/
def handleExit (s : C.Slot) (group : Bool) (rt : Runtime C) : Bool × Runtime C :=
  let rt := if group then threadGroupRequestExit s (rt.sched.ctl s).exitStatus rt else rt
  match abortSlot s rt with
  | (false, rt) => (false, primarySlotMark s rt)
  | (true, rt) =>
    let parentRef := rt.own.vforkParent s
    let (resume, rt) := exitRelease s rt
    exitReport s parentRef resume (rt.sched.ctl s).exitStatus rt

/-! ## Primary events -/

inductive Event where
  | none
  | defer
  | stop
  | fork (flags : CloneFlags) (childStack : Nat)
  | exec
  | exit (group : Bool)
  | park
deriving DecidableEq

def Wait.parks : Wait → Bool
  | .none => false
  | .hostfs => false
  | _ => true

def claimSlotEvent (s : C.Slot) (rt : Runtime C) : Event :=
  let c := rt.sched.ctl s
  if rt.own.alive s = false then .none
  else
    match c.intent with
    | .exit group => .exit group
    | .exec => .exec
    | .fork flags childStack => .fork flags childStack
    | i =>
      if i = .deferredSyscall ∧ rt.sched.deferred s = .ready then .defer
      else if rt.sched.runnable s = false then .none
      else if c.stopped ∧ c.stopKind = .ready then .stop
      else if c.wait.parks then .park
      else .none

def handleStop (s : C.Slot) (rt : Runtime C) : Runtime C :=
  match parkSlot s rt with
  | (false, rt) => rt
  | (true, rt) =>
    notifyParentStopped ((groupOf rt.own s).getD {}).ppid (rt.own.pid s) (rt.sched.ctl s).stopSig rt

/-! ## What a group exit leaves alone -/

theorem requestExit_schedOnly (g : Obj C) (status : Nat) (l : List C.Slot) (rt : Runtime C) :
    SchedOnly rt (l.foldl (requestExitOf g status) rt) := by
  induction l generalizing rt with
  | nil => exact .refl rt
  | cons s l ih =>
    refine .trans ?_ (ih _)
    unfold requestExitOf
    split
    · exact exitSlot_schedOnly s rt _ _ _
    · exact .refl rt

theorem threadGroupRequestExit_groupsOnly (source : C.Slot) (status : Nat) (rt : Runtime C) :
    GroupsOnly rt (threadGroupRequestExit source status rt) := by
  unfold threadGroupRequestExit
  split
  · exact .refl rt
  · refine .trans ?_ (requestExit_schedOnly _ status _ _).groupsOnly
    exact GroupsOnly.of_sched rfl rfl rfl

end Lxp
