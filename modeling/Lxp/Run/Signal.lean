import Lxp.Run.Child

/-!
# Signals

Which pending signal is delivered next, what its disposition means, the two ways of delivering it
(over the frame of a trap, or to a task parked in the coordinator), where a signal is sent, and the
system calls by which a guest changes all of this.

The registers of the interrupted context are left out: of a handler's frame only the saved mask is
kept.  Whether the handler's descriptor can be read is an input of a delivery.
-/

open Function

namespace Lxp

variable {C : Config}

def sigDfl : Nat := 0
def sigIgn : Nat := 1

/-! ## Policy -/

def sigHandlerGet (o : Own C) (s : C.Slot) (sig : Nat) : Nat :=
  match o.sighand s with
  | none => sigDfl
  | some h => if sig < nsig then (o.sighands.val h).handler sig else sigDfl

/-- SIGKILL and SIGSTOP are never blocked. -/
def sigBlocked (st : SigState) (sig : Nat) : Bool :=
  if sig = sigKill ∨ sig = sigStop then false else decide (sig ∈ st.blocked)

def signals : List Nat := List.range' 1 (nsig - 1)

/-- The lowest-numbered pending signal that is not blocked; it stays pending. -/
def pendingDeliverable (st : SigState) : Option Nat :=
  signals.find? fun sig => decide (sig ∈ st.pending) && !sigBlocked st sig

def clearPending (sig : Nat) (st : SigState) : SigState :=
  { st with pending := st.pending.erase sig }

def pendingTake (s : C.Slot) (rt : Runtime C) : Option Nat × Runtime C :=
  match pendingDeliverable (rt.sig.st s) with
  | none => (none, rt)
  | some sig => (some sig, modifySig s (clearPending sig) rt)

def sigDefaultIgnore (sig : Nat) : Bool :=
  sig == sigChld || sig == sigCont || sig == sigUrg || sig == sigWinch

def sigSwallowed (o : Own C) (s : C.Slot) (sig : Nat) : Bool :=
  let h := sigHandlerGet o s sig
  h == sigIgn || (h == sigDfl && sigDefaultIgnore sig)

/-- SIGSTOP always stops; the other stop signals only at their default disposition. -/
def sigStopsProc (o : Own C) (s : C.Slot) (sig : Nat) : Bool :=
  sigIsStop sig && (sig == sigStop || sigHandlerGet o s sig == sigDfl)

/-- The exit is that of the one task. -/
def signalTerminate (s : C.Slot) (sig : Nat) (reason : ExitReason) (rt : Runtime C) : Runtime C :=
  modifyCtl s (fun c => { c with
    intent := .exit false
    exitStatus := 128 + sig
    exitReason := reason
    exitSignal := sig }) rt

/-! ## Delivery -/

/-- The frame of a signal that ends a sigsuspend restores the mask from before the suspend. -/
def sigSavePush (s : C.Slot) (sig : Nat) (rt : Runtime C) : Option (Runtime C) :=
  if C.nestMax ≤ (rt.sig.frames s).length then none
  else
    let st := rt.sig.st s
    let saved := if st.suspendActive then st.suspendMask else st.blocked
    some { rt with
      sig.frames := update rt.sig.frames s (saved :: rt.sig.frames s)
      sig.st := update rt.sig.st s
        { st with suspendActive := false, blocked := insert sig st.blocked } }

inductive SignalAction where
  | invalid
  | stop
  | ignore
  | terminate
  | handler
deriving DecidableEq

def signalPrepare (s : C.Slot) (sig : Nat) (readable : Bool) (rt : Runtime C) :
    SignalAction × Runtime C :=
  if sig = 0 ∨ nsig ≤ sig then (.invalid, rt)
  else if sigStopsProc rt.own s sig then (.stop, rt)
  else if sigSwallowed rt.own s sig then (.ignore, rt)
  else if sigHandlerGet rt.own s sig = sigDfl then
    (.terminate, signalTerminate s sig .signal rt)
  else if readable = false then (.terminate, signalTerminate s sigSegv .memoryFault rt)
  else
    match sigSavePush s sig rt with
    | none => (.terminate, signalTerminate s sigSegv .signalDepth rt)
    | some rt => (.handler, rt)

def parkFrame (s : C.Slot) (rt : Runtime C) : Runtime C := primarySlotMark s rt

def setStopped (s : C.Slot) (kind : StopKind) (sig : Nat) (r0 : Int) (rt : Runtime C) : Runtime C :=
  modifyCtl s (fun c => { c with
    stopped := true
    stopKind := kind
    stopSig := sig
    stopR0 := r0 }) rt

/-- At a trap: a blocked signal stays pending, and a stop keeps the result of the finished call. -/
def deliverSignal (s : C.Slot) (sig : Nat) (ret : Int) (readable : Bool) (rt : Runtime C) :
    Runtime C :=
  if sig = 0 ∨ nsig ≤ sig then rt
  else if sigBlocked (rt.sig.st s) sig then modifySig s (signalLatch sig) rt
  else
    match signalPrepare s sig readable rt with
    | (.stop, rt) => parkFrame s (setStopped s .ready sig ret rt)
    | (.terminate, rt) => parkFrame s rt
    | (_, rt) => rt

def parentPid (o : Own C) (s : C.Slot) : Nat := ((groupOf o s).getD {}).ppid

/-- To a task parked in the coordinator, whose interrupted call returns `ret`. -/
def deliverSignalParked (s : C.Slot) (sig : Nat) (ret : Int) (readable : Bool)
    (rt : Runtime C) : Runtime C :=
  let ret := if ret = -Errno.erestartsys.code then -Errno.eintr.code else ret
  match signalPrepare s sig readable rt with
  | (.ignore, rt) => (completeSlot (slotRefAt rt.own s) ret rt).2
  | (.stop, rt) =>
    let rt := (completeSlot (slotRefAt rt.own s) ret (setStopped s .parked sig 0 rt)).2
    notifyParentStopped (parentPid rt.own s) (rt.own.pid s) sig rt
  | (.terminate, rt) => primarySlotMark s rt
  | (.handler, rt) => (resumeSlot s sig rt).2
  | (.invalid, rt) => rt

def sigRestore (s : C.Slot) (rt : Runtime C) : Runtime C :=
  match rt.sig.frames s with
  | [] => rt
  | mask :: frames => modifySig s (fun st => { st with blocked := mask })
      { rt with sig.frames := update rt.sig.frames s frames }

/-! ## Sending -/

/-- The initial process takes no signal, and neither does the task `skip`. -/
def signalReaches (o : Own C) (skip : Option C.Slot) (pid pgid : Nat) (s : C.Slot) : Bool :=
  o.alive s && skip != some s && decide (1 < o.pid s) &&
    if 0 < pid then o.pid s == pid
    else pgid == 0 || (groupOf o s).any fun g => g.pgid == pgid

def signalSend (skip : Option C.Slot) (pid pgid sig : Nat) (rt : Runtime C) : Nat × Runtime C :=
  let targets := (List.finRange C.nslot).filter (signalReaches rt.own skip pid pgid)
  (targets.length, targets.foldl (fun rt s => modifySig s (signalLatch sig) rt) rt)

def signalProcessGroup (pgid sig : Nat) (rt : Runtime C) : Nat × Runtime C :=
  if pgid = 0 ∨ sig = 0 ∨ nsig ≤ sig then (0, rt) else signalSend none 0 pgid sig rt

/-! ## The signal system calls -/

structure SigAct where
  handler : Nat
  restorer : Nat
  restart : Bool

def sigactionSet (sig : Nat) (act : SigAct) (sighand : Sighand) : Sighand where
  handler := update sighand.handler sig act.handler
  restorer := act.restorer
  restart := if act.restart then insert sig sighand.restart else sighand.restart.erase sig

-- `copied` is whether the guest's structures could be read and written.
def sysRtSigaction (s : C.Slot) (sig : Nat) (act : Option SigAct) (copied : Bool)
    (rt : Runtime C) : Int × Runtime C :=
  if sig = 0 ∨ nsig ≤ sig then (-Errno.einval.code, rt)
  else if copied = false then (-Errno.efault.code, rt)
  else
    match act, rt.own.sighand s with
    | some act, some h =>
      (0, { rt with
        own.sighands := rt.own.sighands.set h (sigactionSet sig act (rt.own.sighands.val h)) })
    | _, _ => (0, rt)

inductive SigHow where
  | block
  | unblock
  | setmask
  | unknown
deriving DecidableEq

/-- The signals of a guest set that lie within its `size` bytes, in whole words. -/
def sigsetRead (set : Finset Nat) (size : Nat) : Finset Nat :=
  set.filter fun sig => 0 < sig ∧ sig ≤ 32 * (size / 4)

def neverBlocked : Finset Nat := {sigKill, sigStop}

def sysRtSigprocmask (s : C.Slot) (how : SigHow) (set : Option (Finset Nat)) (size : Nat)
    (copied : Bool) (rt : Runtime C) : Int × Runtime C :=
  if 8 < size then (-Errno.einval.code, rt)
  else if copied = false then (-Errno.efault.code, rt)
  else
    match set with
    | none => (0, rt)
    | some set =>
      if how = .unknown then (-Errno.einval.code, rt)
      else
        let new := sigsetRead set size
        (0, modifySig s (fun st => { st with blocked := (match how with
          | .block => st.blocked ∪ new
          | .unblock => st.blocked \ new
          | _ => new) \ neverBlocked }) rt)

def sysRtSigsuspend (s : C.Slot) (set : Finset Nat) (size : Nat) (copied : Bool)
    (rt : Runtime C) : Int × Runtime C :=
  if size ≠ 8 then (-Errno.einval.code, rt)
  else if copied = false then (-Errno.efault.code, rt)
  else
    let rt := modifySig s (fun st => { st with
      suspendMask := st.blocked
      blocked := sigsetRead set size \ neverBlocked
      suspendActive := true }) rt
    match pendingDeliverable (rt.sig.st s) with
    | some _ => (-Errno.eintr.code, rt)
    | none =>
      match waitBegin s .sigsuspend rt with
      | none => (-Errno.eagain.code, rt)
      | some rt => (-Errno.eintr.code, rt)

/-- A pending signal of the set is taken, blocked or not. -/
def sysRtSigtimedwait (s : C.Slot) (set : Finset Nat) (size : Nat) (copied : Bool)
    (rt : Runtime C) : Int × Runtime C :=
  if 8 < size then (-Errno.einval.code, rt)
  else if copied = false then (-Errno.efault.code, rt)
  else
    match signals.find? fun sig => decide (sig ∈ (rt.sig.st s).pending ∩ sigsetRead set size) with
    | none => (-Errno.eagain.code, rt)
    | some sig => (sig, modifySig s (clearPending sig) rt)

end Lxp
