import Lxp.Run.Region

/-!
# Parent-visible child events

A child's exit or stop completes a parent's eligible wait4, or is kept in the parent group's bounded
queue and announced with SIGCHLD.
-/

open Function

namespace Lxp

variable {C : Config}

def nsig : Nat := 65
def sigInt : Nat := 2
def sigKill : Nat := 9
def sigSegv : Nat := 11
def sigPipe : Nat := 13
def sigAlrm : Nat := 14
def sigChld : Nat := 17
def sigCont : Nat := 18
def sigStop : Nat := 19
def sigTstp : Nat := 20
def sigTtin : Nat := 21
def sigTtou : Nat := 22
def sigUrg : Nat := 23
def sigWinch : Nat := 28

def sigIsStop (sig : Nat) : Bool :=
  sig == sigStop || sig == sigTstp || sig == sigTtin || sig == sigTtou

def stopMask : Finset Nat := {sigStop, sigTstp, sigTtin, sigTtou}

/-- Generating SIGCONT discards pending stops and generating a stop discards a pending SIGCONT. -/
def signalLatch (sig : Nat) (st : SigState) : SigState :=
  if sig = 0 ∨ nsig ≤ sig then st
  else
    let kept := if sig = sigCont then st.pending \ stopMask
      else if sigIsStop sig then st.pending.erase sigCont else st.pending
    { st with pending := insert sig kept }

def modifySig (s : C.Slot) (f : SigState → SigState) (rt : Runtime C) : Runtime C :=
  { rt with sig.st := update rt.sig.st s (f (rt.sig.st s)) }

structure ChildEvent where
  pid : Nat
  value : Nat
  kind : ChildKind
  notify : Bool

def childWaitAccepts (w : Wait) (e : ChildEvent) : Bool :=
  match w with
  | .child pid untraced _ =>
    (decide (pid ≤ 0) || decide (pid = e.pid)) && (e.kind != .stopped || untraced)
  | _ => false

def groupOf (o : Own C) (s : C.Slot) : Option Group := (o.group s).map o.groups.val

def isTaskOf (o : Own C) (tgid : Nat) (s : C.Slot) : Bool :=
  o.alive s && (groupOf o s).any fun g => g.tgid == tgid

/-- A task whose wait takes the event, or else the first task of the group. -/
def parentTaskForChild (ppid : Nat) (e : ChildEvent) (rt : Runtime C) : Option C.Slot :=
  let tasks := (List.finRange C.nslot).filter (isTaskOf rt.own ppid)
  (tasks.find? fun s => childWaitAccepts (rt.sched.ctl s).wait e).or tasks.head?

def encodeWstatus (code : Nat) : Nat :=
  if 128 < code ∧ code ≤ 128 + 31 then code - 128 else code % 256 * 256

def encodeWstopped (stopsig : Nat) : Nat := stopsig % 256 * 256 + 127

def childWaitStatus (e : ChildEvent) : Nat :=
  match e.kind with
  | .stopped => encodeWstopped e.value
  | .exited => encodeWstatus e.value

def modifyGroup (g : Obj C) (f : Group → Group) (o : Own C) : Own C :=
  { o with groups := o.groups.set g (f (o.groups.val g)) }

/-- The event goes to the waiting task `p`, which is resumed with the child's pid. -/
def childWaitComplete (p : C.Slot) (e : ChildEvent) (rt : Runtime C) : Runtime C :=
  let rt := match (rt.sched.ctl p).wait with
    | .child _ _ 0 => rt
    | _ => { rt with sched.waitWord := update rt.sched.waitWord p (some (childWaitStatus e)) }
  let rt := (parkSlot p (waitFinish p rt)).2
  (completeSlot (slotRefAt rt.own p) e.pid rt).2

def childQueue (ppid : Nat) (g : Obj C) (e : ChildEvent) (rt : Runtime C) : Runtime C :=
  if (rt.own.groups.val g).children.length < C.maxChild then
    { rt with own := modifyGroup g (fun x =>
        { x with children := x.children ++ [⟨e.pid, e.value, e.kind⟩] }) rt.own }
  else if e.kind = .exited then
    { rt with log.dropped := (ppid, e.pid) :: rt.log.dropped }
  else rt

def childReaped (ppid : Nat) (g : Obj C) (e : ChildEvent) (rt : Runtime C) : Runtime C :=
  if e.kind = .exited then
    { rt with
      own := modifyGroup g (fun x => { x with liveChildren := x.liveChildren - 1 }) rt.own
      log.reaped := (ppid, e.pid) :: rt.log.reaped }
  else rt

def childEventPublish (ppid : Nat) (e : ChildEvent) (rt : Runtime C) : Runtime C :=
  match parentTaskForChild ppid e rt with
  | none => rt
  | some p =>
    match rt.own.group p with
    | none => rt
    | some g =>
      let rt := childReaped ppid g e rt
      if childWaitAccepts (rt.sched.ctl p).wait e then childWaitComplete p e rt
      else
        let rt := childQueue ppid g e rt
        if e.notify then modifySig p (signalLatch sigChld) rt else rt

def reapToParent (ppid cpid status : Nat) (sigchld : Bool) (rt : Runtime C) : Runtime C :=
  childEventPublish ppid ⟨cpid, status, .exited, sigchld⟩ rt

def notifyParentStopped (ppid cpid stopsig : Nat) (rt : Runtime C) : Runtime C :=
  childEventPublish ppid ⟨cpid, stopsig, .stopped, true⟩ rt

/-! ## What a child event leaves alone -/

/-- Of the objects only thread-group records change; an intent gives way to an exit only, and
results of the port are only read. -/
structure GroupsOnly (rt rt' : Runtime C) : Prop where
  own : rt'.own = { rt.own with groups := rt'.own.groups }
  intent : ∀ t, (rt.sched.ctl t).intent.Kept (rt'.sched.ctl t).intent
  abort : rt'.sched.port.abort <:+ rt.sched.port.abort
  launch : rt'.sched.port.launch <:+ rt.sched.port.launch
  resumeSp : rt'.sched.resumeSp = rt.sched.resumeSp
  ram : rt'.ram = rt.ram

theorem SchedOnly.groupsOnly {rt rt' : Runtime C} (h : SchedOnly rt rt') : GroupsOnly rt rt' :=
  ⟨by rw [h.own], h.intent, h.abort, h.launch, h.resumeSp, h.ram⟩

namespace GroupsOnly

variable {rt rt' rt'' : Runtime C}

theorem refl (rt : Runtime C) : GroupsOnly rt rt := (SchedOnly.refl rt).groupsOnly

theorem trans (h : GroupsOnly rt rt') (h' : GroupsOnly rt' rt'') : GroupsOnly rt rt'' := by
  refine ⟨?_, fun t => (h.intent t).trans (h'.intent t), h'.abort.trans h.abort,
    h'.launch.trans h.launch, h'.resumeSp.trans h.resumeSp, h'.ram.trans h.ram⟩
  rw [h'.own, h.own]

theorem of_sched (hown : rt'.own = { rt.own with groups := rt'.own.groups })
    (hsched : rt'.sched = rt.sched) (hram : rt'.ram = rt.ram) : GroupsOnly rt rt' :=
  ⟨hown, fun t => by rw [hsched]; exact .refl _, by rw [hsched], by rw [hsched],
    by rw [hsched], hram⟩

end GroupsOnly

theorem childWaitComplete_schedOnly (p : C.Slot) (e : ChildEvent) (rt : Runtime C) :
    SchedOnly rt (childWaitComplete p e rt) := by
  have hword : SchedOnly rt (match (rt.sched.ctl p).wait with
      | .child _ _ 0 => rt
      | _ => { rt with
          sched.waitWord := update rt.sched.waitWord p (some (childWaitStatus e)) }) := by
    split
    · exact .refl rt
    · exact .of_eq rfl rfl rfl rfl
  exact ((hword.trans (waitFinish_schedOnly p _)).trans (parkSlot_schedOnly p _)).trans
    (completeSlot_schedOnly _ _ _)

theorem childReaped_groupsOnly (ppid : Nat) (g : Obj C) (e : ChildEvent) (rt : Runtime C) :
    GroupsOnly rt (childReaped ppid g e rt) := by
  unfold childReaped
  split <;> exact GroupsOnly.of_sched rfl rfl rfl

theorem childQueue_groupsOnly (ppid : Nat) (g : Obj C) (e : ChildEvent) (rt : Runtime C) :
    GroupsOnly rt (childQueue ppid g e rt) := by
  unfold childQueue
  split
  · exact GroupsOnly.of_sched rfl rfl rfl
  · split <;> exact GroupsOnly.of_sched rfl rfl rfl

theorem childEventPublish_groupsOnly (ppid : Nat) (e : ChildEvent) (rt : Runtime C) :
    GroupsOnly rt (childEventPublish ppid e rt) := by
  unfold childEventPublish
  split
  · exact .refl rt
  rename_i p _
  split
  · exact .refl rt
  rename_i g _
  have hreaped := childReaped_groupsOnly ppid g e rt
  dsimp only
  split
  · exact hreaped.trans (childWaitComplete_schedOnly p e _).groupsOnly
  · have hqueued := hreaped.trans (childQueue_groupsOnly ppid g e _)
    split
    · exact hqueued.trans (GroupsOnly.of_sched rfl rfl rfl)
    · exact hqueued

end Lxp
