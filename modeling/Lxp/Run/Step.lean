import Lxp.Run.Exit

/-!
# Runs of the coordinator

A run starts with the launch of the initial program and proceeds by coordinator events and by
whatever the guests do between them.  Guest activity is bounded by a frame: it changes descriptors,
signal state, waits and intents, but no identity, region or child accounting.
-/

open Function RefPool

namespace Lxp

variable {C : Config}

/-! ## The initial program -/

def emptyPool {α : Type} (v : α) (n : Nat) : Pool α n := ⟨fun _ => 0, fun _ => v⟩

def resetRuntime (C : Config) : Runtime C where
  own :=
    { alive := fun _ => false
      generation := fun _ => 1
      pid := fun _ => 0
      mm := fun _ => none
      files := fun _ => none
      fsContext := fun _ => none
      sighand := fun _ => none
      group := fun _ => none
      vforkParent := fun _ => none
      snapshot := fun _ => none
      execFileIdx := fun _ => 0
      stackLo := fun _ => 0
      guards := fun _ => {}
      regions := fun _ => ⟨none, 0, 0⟩
      mms := emptyPool {} _
      filess := emptyPool {} _
      fsContexts := emptyPool {} _
      sighands := emptyPool {} _
      groups := emptyPool {} _
      ofds := emptyPool {} _
      nextPid := 2 }
  sched :=
    { ctl := fun _ => {}
      host := fun _ => .free
      runnable := fun _ => false
      deferred := fun _ => .idle
      marked := fun _ => false
      resumeSp := fun _ => 0
      r0 := fun _ => 0
      waitWord := fun _ => none
      port := {}
      asks := [] }
  sig := { st := fun _ => {}, frames := fun _ => [] }
  ram := { image := fun _ _ => 0, dynPool := fun _ _ => 0, arena := fun _ _ => 0 }
  stage := {}
  log := {}

def imageLaunch (tx : ImageTxn C) (ppid : Nat) (l : LoadResult) (rt : Runtime C) :
    Option (Runtime C) :=
  match imageTxnPrepare tx ppid l rt with
  | (some _, _, _) => none
  | (none, tx, rt) =>
    match imageTxnPublish tx rt with
    | (some _, _, _) => none
    | (none, tx, rt) =>
      match imageTxnStart tx rt with
      | (some _, _) => none
      | (none, rt) => some rt

def slot0 (C : Config) : C.Slot := ⟨0, C.nslot_pos⟩

def region0 (C : Config) : Fin C.nreg := ⟨0, C.nreg_pos⟩

/-- The state the event loop starts from; `none` when the initial program cannot be launched. -/
def boot (C : Config) (fileIndex : Int) (l : LoadResult) : Option (Runtime C) :=
  let rt := resetRuntime C
  let owner := slotRefAt rt.own (slot0 C)
  match regionReserve (region0 C) owner rt.own with
  | none => none
  | some (ref, o) =>
    (imageLaunch { slot := slot0 C, region := ref, owner := owner, pid := 1 } 0 l
      { rt with own := o }).map fun rt =>
        { rt with own.execFileIdx := update rt.own.execFileIdx (slot0 C) fileIndex }

/-! ## Steps -/

structure EventInput where
  port : Port := {}
  load : LoadResult := {}

def claimedEvent (s : C.Slot) (rt : Runtime C) : Event :=
  if rt.sched.marked s then claimSlotEvent s rt else .none

/-- One claimed event.  The deferred system call itself is the guest's step. -/
def coordinatorEvent (s : C.Slot) (i : EventInput) (rt : Runtime C) : Runtime C :=
  let rt' := primarySlotClear s { rt with sched.port := i.port }
  match claimedEvent s rt with
  | .exit group => (handleExit s group rt').2
  | .exec => handleExec s i.load rt'
  | .fork flags childStack => handleFork s flags childStack rt'
  | .stop => handleStop s rt'
  | .park => (parkSlot s rt').2
  | .defer | .none => rt'

/-- The child records of a group that a wait4 may take. -/
def waitable (pid : Int) (untraced : Bool) (r : ChildRec) : Bool :=
  (decide (pid ≤ 0) || decide (pid = r.pid)) && (r.kind != .stopped || untraced)

def sysWait4 (s : C.Slot) (pid : Int) (status : Nat) (nohang untraced : Bool)
    (rt : Runtime C) : Int × Runtime C :=
  match rt.own.group s with
  | none => (-Errno.echild.code, rt)
  | some g =>
    let group := rt.own.groups.val g
    match group.children.find? (waitable pid untraced) with
    | some r =>
      let word := match r.kind with
        | .stopped => encodeWstopped r.status
        | .exited => encodeWstatus r.status
      let rt := { rt with own := modifyGroup g (fun x =>
        { x with children := x.children.eraseP (waitable pid untraced) }) rt.own }
      (r.pid, if status = 0 then rt
        else { rt with sched.waitWord := update rt.sched.waitWord s (some word) })
    | none =>
      if group.liveChildren = 0 then (-Errno.echild.code, rt)
      else if nohang then (0, rt)
      else
        match waitBegin s (.child pid untraced status) rt with
        | none => (-Errno.eagain.code, rt)
        | some rt => (0, rt)

/-- A task is suspended while a vfork child of it has neither exec'd nor exited. -/
def suspended (o : Own C) (s : C.Slot) : Bool :=
  (List.finRange C.nslot).any fun v => o.alive v && o.vforkParent v == some (slotRefAt o s)

/-- What a guest step other than wait4, job-control stops and writes to its memory leaves alone. -/
structure GuestFrame (rt rt' : Runtime C) : Prop where
  own : rt'.own = { rt.own with
    files := rt'.own.files
    filess := rt'.own.filess
    fsContexts := rt'.own.fsContexts
    sighands := rt'.own.sighands
    ofds := rt'.own.ofds
    execFileIdx := rt'.own.execFileIdx
    mms := { rt.own.mms with val := rt'.own.mms.val }
    groups := { rt.own.groups with val := rt'.own.groups.val } }
  layout : ∀ m, (rt'.own.mms.val m).region = (rt.own.mms.val m).region ∧
    (rt'.own.mms.val m).regionHi = (rt.own.mms.val m).regionHi ∧
    (rt'.own.mms.val m).isDynamic = (rt.own.mms.val m).isDynamic
  family : ∀ g, (rt'.own.groups.val g).tgid = (rt.own.groups.val g).tgid ∧
    (rt'.own.groups.val g).ppid = (rt.own.groups.val g).ppid ∧
    (rt'.own.groups.val g).children = (rt.own.groups.val g).children ∧
    (rt'.own.groups.val g).liveChildren = (rt.own.groups.val g).liveChildren
  log : rt'.log = rt.log
  ram : rt'.ram = rt.ram
  -- An exit intent is not given up, and a suspended task asks for nothing else.
  exit : ∀ s, (rt.sched.ctl s).intent.isExit = true → (rt'.sched.ctl s).intent.isExit = true
  suspended : ∀ s, suspended rt.own s = true →
    (rt.sched.ctl s).intent.Kept (rt'.sched.ctl s).intent ∧
      rt'.sched.resumeSp s = rt.sched.resumeSp s

inductive Action (C : Config) where
  | event (s : C.Slot) (i : EventInput)
  | wait4 (s : C.Slot) (pid : Int) (status : Nat) (nohang untraced : Bool)
  | stopped (s : C.Slot) (sig : Nat)
  | write (s : C.Slot) (c : Cell) (b : UInt8)
  | guest

-- `stopped` is the notice of a stop that the coordinator applies to a task that is already parked;
-- `write` stores a byte in the region of the task's address space, an allocation in its arena.
inductive Step : Runtime C → Action C → Runtime C → Prop where
  | event (rt : Runtime C) (s : C.Slot) (i : EventInput) :
      Step rt (.event s i) (coordinatorEvent s i rt)
  | wait4 (rt : Runtime C) (s : C.Slot) (pid : Int) (status : Nat) (nohang untraced : Bool) :
      rt.own.alive s = true →
      Step rt (.wait4 s pid status nohang untraced) (sysWait4 s pid status nohang untraced rt).2
  | stopped (rt : Runtime C) (s : C.Slot) (sig : Nat) :
      rt.own.alive s = true →
      Step rt (.stopped s sig)
        (notifyParentStopped ((groupOf rt.own s).getD {}).ppid (rt.own.pid s) sig rt)
  | write (rt : Runtime C) (s : C.Slot) (c : Cell) (b : UInt8) (p : RegionRef C) :
      rt.own.alive s = true → mmRegion rt.own s = some p →
      Step rt (.write s c b) { rt with ram := rt.ram.write p.index b c }
  | guest (rt rt' : Runtime C) : GuestFrame rt rt' → Step rt .guest rt'

/-- The states a run reaches whose every step is admitted by `ok`, a condition on the state before
the step and on what the step is. -/
inductive RunsTo (ok : Runtime C → Action C → Prop) : Runtime C → Prop where
  | start {fileIndex : Int} {l : LoadResult} {rt : Runtime C} :
      boot C fileIndex l = some rt → RunsTo ok rt
  | step {rt rt' : Runtime C} {a : Action C} :
      RunsTo ok rt → ok rt a → Step rt a rt' → RunsTo ok rt'

variable {ok : Runtime C → Action C → Prop} {rt : Runtime C}

/-- An invariant of a run holds at the boot and is kept by every admitted step. -/
theorem RunsTo.invariant {Inv : Runtime C → Prop}
    (hboot : ∀ fileIndex l rt, boot C fileIndex l = some rt → Inv rt)
    (hstep : ∀ rt a rt', Inv rt → ok rt a → Step rt a rt' → Inv rt') (h : RunsTo ok rt) :
    Inv rt := by
  induction h with
  | start hb => exact hboot _ _ _ hb
  | step _ hok hs ih => exact hstep _ _ _ ih hok hs

/-! ## Scripted runs -/

/-- A guest's request for an intent; a task that is to exit asks for nothing any more, a suspended
one for nothing but its exit. -/
def guestAsk (s : C.Slot) (i : Intent) (rt : Runtime C) : Runtime C :=
  if (rt.sched.ctl s).intent.isExit ∨ suspended rt.own s ∧ i.isExit = false then rt
  else primarySlotMark s (modifyCtl s (fun c => { c with intent := i }) rt)

theorem GuestFrame.refl (rt : Runtime C) : GuestFrame rt rt :=
  ⟨rfl, fun _ => ⟨rfl, rfl, rfl⟩, fun _ => ⟨rfl, rfl, rfl, rfl⟩, rfl, rfl, fun _ h => h,
    fun _ _ => ⟨Intent.Kept.refl _, rfl⟩⟩

theorem guestAsk_frame (s : C.Slot) (i : Intent) (rt : Runtime C) :
    GuestFrame rt (guestAsk s i rt) := by
  unfold guestAsk
  split
  · exact .refl rt
  rename_i hno
  obtain ⟨hexit, hsusp⟩ := not_or.mp hno
  refine ⟨rfl, fun _ => ⟨rfl, rfl, rfl⟩, fun _ => ⟨rfl, rfl, rfl, rfl⟩, rfl, rfl, fun t ht => ?_,
    fun t ht => ⟨?_, rfl⟩⟩
  · by_cases hts : t = s
    · subst hts
      exact absurd ht hexit
    · show (update rt.sched.ctl s _ t).intent.isExit = true
      rw [update_of_ne hts]
      exact ht
  · show (rt.sched.ctl t).intent.Kept (update rt.sched.ctl s _ t).intent
    by_cases hts : t = s
    · subst hts
      exact Or.inr (by simpa [ht] using hsusp)
    · rw [update_of_ne hts]
      exact .refl _

inductive Move (C : Config) where
  | ask (s : C.Slot) (i : Intent)
  | act (a : Action C)

def Move.action : Move C → Action C
  | .ask _ _ => .guest
  | .act a => a

def Move.apply (rt : Runtime C) : Move C → Runtime C
  | .ask s i => guestAsk s i rt
  | .act (.event s i) => coordinatorEvent s i rt
  | .act (.wait4 s pid status nohang untraced) =>
    if rt.own.alive s then (sysWait4 s pid status nohang untraced rt).2 else rt
  | .act (.stopped s sig) =>
    if rt.own.alive s then
      notifyParentStopped ((groupOf rt.own s).getD {}).ppid (rt.own.pid s) sig rt
    else rt
  | .act (.write s c b) =>
    match rt.own.alive s, mmRegion rt.own s with
    | true, some p => { rt with ram := rt.ram.write p.index b c }
    | _, _ => rt
  | .act .guest => rt

def play (moves : List (Move C)) (rt : Runtime C) : Runtime C := moves.foldl Move.apply rt

def admitted (ok : Runtime C → Action C → Prop) : List (Move C) → Runtime C → Prop
  | [], _ => True
  | m :: moves, rt => ok rt m.action ∧ admitted ok moves (m.apply rt)

instance (ok : Runtime C → Action C → Prop) [∀ rt a, Decidable (ok rt a)] (moves : List (Move C))
    (rt : Runtime C) : Decidable (admitted ok moves rt) := by
  induction moves generalizing rt with
  | nil => exact isTrue trivial
  | cons m moves ih => exact @instDecidableAnd _ _ inferInstance (ih _)

theorem admitted_of_forall (h : ∀ rt a, ok rt a)
    (moves : List (Move C)) (rt : Runtime C) : admitted ok moves rt := by
  induction moves generalizing rt with
  | nil => exact trivial
  | cons m moves ih => exact ⟨h rt m.action, ih _⟩

/-- A scripted run is a run; a move of a dead task is no step. -/
theorem RunsTo.play {moves : List (Move C)}
    (h : RunsTo ok rt) (hok : admitted ok moves rt) : RunsTo ok (Lxp.play moves rt) := by
  induction moves generalizing rt with
  | nil => exact h
  | cons m moves ih =>
    refine ih ?_ hok.2
    cases m with
    | ask s i => exact h.step hok.1 (Step.guest rt _ (guestAsk_frame s i rt))
    | act a =>
      cases a with
      | event s i => exact h.step hok.1 (Step.event rt s i)
      | wait4 s pid status nohang untraced =>
        dsimp only [Move.apply]
        split
        · exact h.step hok.1 (Step.wait4 rt s pid status nohang untraced ‹_›)
        · exact h
      | stopped s sig =>
        dsimp only [Move.apply]
        split
        · exact h.step hok.1 (Step.stopped rt s sig ‹_›)
        · exact h
      | write s c b =>
        dsimp only [Move.apply]
        split
        · exact h.step hok.1 (Step.write rt s c b _ ‹_› ‹_›)
        · exact h
      | guest => exact h

def playFromBoot (moves : List (Move C)) : Option (Runtime C) := (boot C 0 {}).map (play moves)

theorem playFromBoot_runsTo {moves : List (Move C)} (h : playFromBoot moves = some rt)
    (hok : ∀ rt0, boot C 0 {} = some rt0 → admitted ok moves rt0) : RunsTo ok rt := by
  obtain ⟨rt0, hboot, hplay⟩ := Option.map_eq_some_iff.mp h
  rw [← hplay]
  exact (RunsTo.start hboot).play (hok rt0 hboot)

def smallConfig : Config where
  nslot := 4
  nreg := 3
  npool := 4
  maxChild := 4
  maxFds := 3
  nestMax := 2
  regionBase := fun r => 4096 * (r + 1)
  regionSize := 4096
  dynPool := none
  mapDevice := false
  fpuContext := false
  rootfs := []
  stageBase := 0
  stageCap := 0
  execMaxArgs := 64
  execArgBuf := 3072
  nslot_pos := by decide
  nreg_pos := by decide

instance : NeZero smallConfig.nslot := ⟨by decide⟩

instance : NeZero smallConfig.nreg := ⟨by decide⟩

instance : NeZero smallConfig.npool := ⟨by decide⟩

instance : NeZero smallConfig.maxFds := ⟨by decide⟩

end Lxp
