import Lxp.Run.Blocked
import Lxp.Run.Execve
import Lxp.Run.Futex
import Lxp.Run.Step

/-!
# System calls at the trap and in the coordinator

A running guest traps, and the trap answers its call or publishes it for the coordinator, which runs
the deferred ones.  Unlike the guest steps of `Step`, which are bounded by a frame only, every
change to intents, waits and signals is the one the code makes.
-/

open Function

namespace Lxp

variable {C : Config}

/-! ## The trap -/

def sysExit (s : C.Slot) (status : Nat) (group : Bool) (rt : Runtime C) : Runtime C :=
  let rt := modifyCtl s (fun c => { c with
    intent := .exit group
    exitStatus := status % 256
    exitReason := .normal
    exitSignal := 0 }) rt
  match group, rt.own.group s with
  | true, some g => { rt with own := modifyGroup g (fun x =>
    { x with exiting := true, exitStatus := status % 256 }) rt.own }
  | _, _ => rt

/-- The calls that the trap does not defer.  `tkill` is tkill and tgkill. -/
inductive TrapCall where
  | kill (target : BitVec 32) (sig : Nat)
  | tkill (tid sig : Nat)
  | sigreturn
  | fork (flags : CloneFlags) (childStack : Nat)
  | futexWait (q : FutexWait)
  | futexWake (uaddr val : Nat)
  | exit (status : Nat) (group : Bool)
  | fast (result : Int)
  | deferred

def sigUsr1 : Nat := 10
def sigUsr2 : Nat := 12
def sigTerm : Nat := 15

def initShutdownSignal (sig : Nat) : Bool := sig == sigUsr1 || sig == sigUsr2 || sig == sigTerm

/-- A signal to oneself is delivered over the frame of the trap; number 0 only probes. -/
def selfSignal (s : C.Slot) (sig : Nat) (readable : Bool) (rt : Runtime C) : Runtime C :=
  if sig = 0 then rt else deliverSignal s sig 0 readable rt

def pgidOf (o : Own C) (s : C.Slot) : Nat := ((groupOf o s).getD {}).pgid

/-- The process group a target names: 0 the caller's own, below -1 the one of that number.  The
negation is of 32 bits, so the least target names a negative group. -/
def killGroup (o : Own C) (s : C.Slot) (target : BitVec 32) : Int :=
  if target = 0 then pgidOf o s else if target.toInt < -1 then (-target).toInt else 0

/-- The result of the call, and what it does.  A signal that is delivered at once gets the result 0
to return with. -/
def trapKill (s : C.Slot) (target : BitVec 32) (sig : Nat) (readable : Bool)
    (rt : Runtime C) : Int × Runtime C :=
  if nsig ≤ sig then (-Errno.einval.code, rt)
  -- A shutdown signal for the initial process ends the run.
  else if target = 1 ∧ initShutdownSignal sig then (0, rt)
  else if target.toInt = rt.own.pid s then (0, selfSignal s sig readable rt)
  else
    let want := killGroup rt.own s target
    -- `lxp_signal_send` takes a group that is not positive for no group.
    let (recipients, rt) := signalSend (some s) target.toInt.toNat want.toNat sig rt
    if target.toInt ≤ 0 ∧ target.toInt ≠ -1 ∧ pgidOf rt.own s = want then
      (0, selfSignal s sig readable rt)
    else (if recipients = 0 then -Errno.esrch.code else 0, rt)

def trapFork (s : C.Slot) (flags : CloneFlags) (childStack : Nat) (rt : Runtime C) :
    Option Int × Runtime C :=
  if cloneFlagsValid flags then
    match intentBegin s (.fork flags (if flags.vm then childStack else 0)) rt with
    | none => (some (-Errno.eagain.code), rt)
    | some rt => (none, parkFrame s rt)
  else (some (-Errno.einval.code), rt)

def setDeferred (s : C.Slot) (d : DeferState) (rt : Runtime C) : Runtime C :=
  { rt with sched.deferred := update rt.sched.deferred s d }

/-- The mailbox is filled only from idle, and not for a task that has something to do already. -/
def deferSyscall (s : C.Slot) (rt : Runtime C) : Option Int × Runtime C :=
  if rt.sched.deferred s = .idle then
    match intentBegin s .deferredSyscall rt with
    | none => (some (-Errno.eagain.code), rt)
    | some rt => (none, parkFrame s (setDeferred s .ready rt))
  else (some (-Errno.eagain.code), rt)

/-- The end of a call at which a pending signal is delivered. -/
def trapReturn (s : C.Slot) (result : Int) (readable : Bool) (rt : Runtime C) :
    Option Int × Runtime C :=
  if (rt.sched.ctl s).wait ≠ .none ∨ (rt.sched.ctl s).intent ≠ .none then (none, parkFrame s rt)
  else
    match pendingTake s rt with
    | (some sig, rt) => (some result, deliverSignal s sig result readable rt)
    | (none, rt) => (some result, rt)

/-- The result is `none` for a call that the coordinator finishes, and for the return from a
handler, which restores the interrupted call's. -/
def trapDispatch (s : C.Slot) (call : TrapCall) (readable : Bool) (rt : Runtime C) :
    Option Int × Runtime C :=
  match call with
  | .kill target sig =>
    let (result, rt) := trapKill s target sig readable rt
    (some result, rt)
  -- The thread that is named is not looked at.
  | .tkill _ sig =>
    if nsig ≤ sig then (some (-Errno.einval.code), rt) else (some 0, selfSignal s sig readable rt)
  | .sigreturn => (none, sigRestore s rt)
  | .fork flags childStack => trapFork s flags childStack rt
  | .futexWait q => futexWait s q rt
  | .futexWake uaddr val =>
    let (woken, rt) := futexWake uaddr val rt
    (some woken.length, rt)
  | .exit status group => trapReturn s 0 readable (sysExit s status group rt)
  | .fast result => trapReturn s result readable rt
  | .deferred => deferSyscall s rt

/-! ## Deferred system calls -/

inductive DeferredCall where
  | wait4 (pid : Int) (status : Nat) (nohang untraced : Bool)
  | sigaction (sig : Nat) (act : Option SigAct) (copied : Bool)
  | sigprocmask (how : SigHow) (set : Option (Finset Nat)) (size : Nat) (copied : Bool)
  | sigsuspend (set : Finset Nat) (size : Nat) (copied : Bool)
  | sigtimedwait (set : Finset Nat) (size : Nat) (copied : Bool)
  | setitimer (deadline interval : Nat)
  | execve (q : ExecRequest)
  -- A call that parks on something else than a child, a signal or a futex.
  | block (w : Wait)
  -- A write to a pipe without readers.
  | brokenPipe
  -- A write to a terminal whose line discipline finds a signal character.
  | terminal (pgid sig : Nat) (result : Int)
  | plain (result : Int)

def Wait.ofObject : Wait → Bool
  | .none | .child _ _ _ | .sigsuspend | .futex _ _ _ => false
  | _ => true

def waitPark (s : C.Slot) (w : Wait) (rt : Runtime C) : Int × Runtime C :=
  match waitBegin s w rt with
  | none => (-Errno.eagain.code, rt)
  | some rt => (0, rt)

def deferredSyscall (s : C.Slot) (call : DeferredCall) (rt : Runtime C) : Int × Runtime C :=
  match call with
  | .wait4 pid status nohang untraced => sysWait4 s pid status nohang untraced rt
  | .sigaction sig act copied => sysRtSigaction s sig act copied rt
  | .sigprocmask how set size copied => sysRtSigprocmask s how set size copied rt
  | .sigsuspend set size copied => sysRtSigsuspend s set size copied rt
  | .sigtimedwait set size copied => sysRtSigtimedwait s set size copied rt
  | .setitimer deadline interval =>
    (0, modifySig s (fun st => { st with
      alarmDeadline := deadline
      alarmInterval := interval }) rt)
  | .execve q =>
    match sysExecve s q rt with
    | (some e, rt) => (-e.code, rt)
    | (none, rt) => (0, rt)
  | .block w => if w.ofObject then waitPark s w rt else (0, rt)
  | .brokenPipe =>
    (-Errno.epipe.code,
      if sigHandlerGet rt.own s sigPipe = sigIgn then rt else signalTerminate s sigPipe .signal rt)
  | .terminal pgid sig result => (result, (signalProcessGroup pgid sig rt).2)
  | .plain result => (result, rt)

end Lxp
