import Lxp.Lib.LeaseTable
import Lxp.Loader.Layout

/-!
# The coordinator's state

The runtime store of the coordinator and the process objects behind it.  The slot table is kept by
columns: a field of `lxp_proc_t` or of the slot record is a function from slots.  `Own` holds what
tasks own (identity, address space, descriptors, regions), `Sched` what they are doing, `Sig` what
is pending for them and `Ram` the guest memory the coordinator itself copies.

Generations are unbounded here; the source skips zero when its 32-bit counter wraps.
-/

open Function LeaseTable RefPool

namespace Lxp

structure FileImage where
  mem : Nat → UInt8
  addr : Nat
  size : Nat

structure Config where
  nslot : Nat
  nreg : Nat
  npool : Nat
  maxChild : Nat
  maxFds : Nat
  nestMax : Nat
  regionBase : Nat → Nat
  regionSize : Nat
  -- The size of a region's dynamic pool, when the port has one.
  dynPool : Option Nat
  mapDevice : Bool
  fpuContext : Bool
  rootfs : List FileImage
  -- The exec staging buffer; its capacity is zero when the port has none.
  stageBase : Nat
  stageCap : Nat
  -- The bounds of a captured argument vector: strings, and bytes with their terminators.
  execMaxArgs : Nat
  execArgBuf : Nat
  nslot_pos : 0 < nslot
  nreg_pos : 0 < nreg

abbrev Config.Slot (C : Config) := Fin C.nslot

def Config.nofd (C : Config) : Nat := C.nslot * C.maxFds

structure SlotRef (C : Config) where
  index : C.Slot
  generation : Nat
deriving DecidableEq

abbrev RegionRef (C : Config) := LeaseTable.Ref C.nreg

abbrev Obj (C : Config) := Fin C.npool

inductive Errno where
  | esrch
  | eio
  | e2big
  | enoexec
  | echild
  | eagain
  | enomem
  | eacces
  | efault
  | enodev
  | einval
  | enoent
  | enotdir
  | emfile
  | enametoolong
  | eloop
  | eintr
  | epipe
  | etimedout
  | erestartsys
deriving DecidableEq, Repr

def Errno.code : Errno → Int
  | .enoent => 2
  | .esrch => 3
  | .eintr => 4
  | .eio => 5
  | .e2big => 7
  | .enoexec => 8
  | .echild => 10
  | .eagain => 11
  | .enomem => 12
  | .eacces => 13
  | .efault => 14
  | .enodev => 19
  | .enotdir => 20
  | .einval => 22
  | .emfile => 24
  | .epipe => 32
  | .enametoolong => 36
  | .eloop => 40
  | .etimedout => 110
  | .erestartsys => 512

/-! ## Process objects -/

structure Mm (C : Config) where
  region : Option (RegionRef C) := none
  regionHi : Nat := 0
  isDynamic : Bool := false
  devMaps : List (Nat × Nat) := []

structure Ofd where
  kind : Nat := 0
  rw : Bool := false
  nonblock : Bool := false
  accmode : Nat := 0
  fileIdx : Int := 0
  offset : Nat := 0
deriving DecidableEq

structure Fd (C : Config) where
  ofd : Option (Fin C.nofd) := none
  cloexec : Bool := false
deriving DecidableEq

structure Files (C : Config) where
  fd : Fin C.maxFds → Fd C := fun _ => {}

structure FsContext where
  umask : Nat := 0
  cwd : Bytes := []
deriving DecidableEq

structure Sighand where
  handler : Nat → Nat := fun _ => 0
  restorer : Nat := 0
  restart : Finset Nat := ∅

inductive ChildKind where
  | exited
  | stopped
deriving DecidableEq

structure ChildRec where
  pid : Nat
  status : Nat
  kind : ChildKind
deriving DecidableEq

structure Group where
  tgid : Nat := 0
  ppid : Nat := 0
  pgid : Nat := 0
  exiting : Bool := false
  exitStatus : Nat := 0
  children : List ChildRec := []
  liveChildren : Nat := 0
deriving DecidableEq

structure VforkGuard (C : Config) where
  parent : Option (SlotRef C) := none
  parentRegion : Option (RegionRef C) := none
  snapshot : Option (RegionRef C) := none

structure Own (C : Config) where
  alive : C.Slot → Bool
  generation : C.Slot → Nat
  pid : C.Slot → Nat
  mm : C.Slot → Option (Obj C)
  files : C.Slot → Option (Obj C)
  fsContext : C.Slot → Option (Obj C)
  sighand : C.Slot → Option (Obj C)
  group : C.Slot → Option (Obj C)
  vforkParent : C.Slot → Option (SlotRef C)
  snapshot : C.Slot → Option (RegionRef C)
  execFileIdx : C.Slot → Int
  stackLo : C.Slot → Nat
  guards : C.Slot → VforkGuard C
  regions : Table (SlotRef C) C.nreg
  mms : Pool (Mm C) C.npool
  filess : Pool (Files C) C.npool
  fsContexts : Pool FsContext C.npool
  sighands : Pool Sighand C.npool
  groups : Pool Group C.npool
  ofds : Pool Ofd C.nofd
  nextPid : Nat

/-! ## Scheduling -/

structure CloneFlags where
  vm : Bool := false
  fs : Bool := false
  files : Bool := false
  sighand : Bool := false
  thread : Bool := false
deriving DecidableEq

inductive Intent where
  | none
  | deferredSyscall
  | fork (flags : CloneFlags) (childStack : Nat)
  | exec
  | exit (group : Bool)
deriving DecidableEq

inductive Wait where
  | none
  | timer (deadline : Nat)
  | child (pid : Int) (untraced : Bool) (status : Nat)
  | futex (uaddr deadline : Nat) (woken : Bool)
  | pipe
  | console
  | device
  | socket
  | netfs (execFetch : Bool)
  | hostfs
  | pty
  | sigsuspend
  | poll
deriving DecidableEq

inductive ExitReason where
  | none
  | normal
  | signal
  | signalDepth
  | memoryFault
  | hostTransition
  | execLoad
  | execResource
  | stateCorruption
deriving DecidableEq

inductive StopKind where
  | none
  | parked
  | ready
deriving DecidableEq

/-- What a process record says about its next step; a fresh record is all zero. -/
structure Control where
  intent : Intent := .none
  wait : Wait := .none
  exitStatus : Nat := 0
  exitReason : ExitReason := .none
  exitSignal : Nat := 0
  stopped : Bool := false
  stopKind : StopKind := .none
  stopSig : Nat := 0
  stopR0 : Int := 0
deriving DecidableEq

inductive HostState where
  | free
  | starting
  | running
  | parking
  | parked
  | resuming
  | exiting
  | dead
  | failed
deriving DecidableEq

inductive DeferState where
  | idle
  | filling
  | ready
  | running
deriving DecidableEq

/-- The results of the port's callbacks, each read once per call; an exhausted list answers
success. -/
structure Port where
  abort : List Bool := []
  park : List Bool := []
  resume : List Bool := []
  launch : List Bool := []
  map : List Bool := []
  publish : List Bool := []
deriving DecidableEq

inductive TaskRequest where
  | launch
  | resume (parked : Bool)
  | park
  | abort
deriving DecidableEq

structure Ask (C : Config) where
  slot : C.Slot
  request : TaskRequest
  ok : Bool
deriving DecidableEq

structure Sched (C : Config) where
  ctl : C.Slot → Control
  host : C.Slot → HostState
  runnable : C.Slot → Bool
  deferred : C.Slot → DeferState
  marked : C.Slot → Bool
  resumeSp : C.Slot → Nat
  -- The result the port was last asked to resume the slot with.
  r0 : C.Slot → Int
  -- The status word the slot's last completed wait4 stored.
  waitWord : C.Slot → Option Nat
  port : Port
  -- All task requests so far, the last one first.
  asks : List (Ask C)

/-! ## Signals and memory -/

structure SigState where
  blocked : Finset Nat := ∅
  pending : Finset Nat := ∅
  suspendMask : Finset Nat := ∅
  suspendActive : Bool := false
  alarmDeadline : Nat := 0
  alarmInterval : Nat := 0
deriving DecidableEq

structure Sig (C : Config) where
  st : C.Slot → SigState
  -- The masks saved by the active handlers, innermost first.
  frames : C.Slot → List (Finset Nat)

structure Ram (C : Config) where
  image : Fin C.nreg → Nat → UInt8
  dynPool : Fin C.nreg → Nat → UInt8
  arena : Fin C.nreg → Nat → UInt8

inductive Cell where
  | image (off : Nat)
  | dynPool (off : Nat)
  | arena (off : Nat)
deriving DecidableEq

def Ram.read {C : Config} (ram : Ram C) (r : Fin C.nreg) : Cell → UInt8
  | .image off => ram.image r off
  | .dynPool off => ram.dynPool r off
  | .arena off => ram.arena r off

def Ram.write {C : Config} (ram : Ram C) (r : Fin C.nreg) (b : UInt8) : Cell → Ram C
  | .image off => { ram with image := update ram.image r (update (ram.image r) off b) }
  | .dynPool off => { ram with dynPool := update ram.dynPool r (update (ram.dynPool r) off b) }
  | .arena off => { ram with arena := update ram.arena r (update (ram.arena r) off b) }

/-- The children counted against a parent at fork and what happened to the terminations published to
a living parent: `(ppid, pid)` of each. -/
structure Log where
  counted : List (Nat × Nat) := []
  reaped : List (Nat × Nat) := []
  dropped : List (Nat × Nat) := []
deriving DecidableEq

/-- The exec staging buffer: the slot it was claimed for and the image published in it. -/
structure Stage (C : Config) where
  owner : Option C.Slot := none
  image : FileImage := ⟨fun _ => 0, 0, 0⟩

structure Runtime (C : Config) where
  own : Own C
  sched : Sched C
  sig : Sig C
  ram : Ram C
  stage : Stage C
  log : Log

end Lxp
