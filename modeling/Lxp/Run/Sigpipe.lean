import Lxp.Run.Kill
import Lxp.Stream.Objects

/-!
# Broken pipes

A write to a pipe that nobody reads, refused at once by the system call or later by the retry of the
parked write.  Both paths settle what SIGPIPE does by themselves, by the one question whether the
writer ignores it; neither looks at the mask or at an installed handler.
-/

namespace Lxp

variable {C : Config}

/-- The call a write to a pipe comes to, by what the attempt on the ring answered; its only other
error is that the ring is full. -/
def pipeWriteCall (nonblock : Bool) (w : Wait) : Stream.IoReply → DeferredCall
  | .ok n => .plain n
  | .error .epipe => .brokenPipe
  | .error _ => if nonblock then .plain (-Errno.eagain.code) else .block w

def pipeRetry : Stream.IoReply → Retry
  | .ok n => .done n
  | .error .epipe => .done (-Errno.epipe.code)
  | .error _ => .again

/-- What SIGPIPE is configured to do, between the runtime `rt` of the refused write and the runtime
`rt'` it leaves: `quiet` is the one in which the call has returned EPIPE and done nothing else. -/
def SigpipeConfigured (s : C.Slot) (rt quiet rt' : Runtime C) : Prop :=
  if sigHandlerGet rt.own s sigPipe = sigIgn then rt' = quiet
  else if sigBlocked (rt.sig.st s) sigPipe then
    (rt'.sched.ctl s).intent.isExit = false ∧ sigPipe ∈ (rt'.sig.st s).pending
  else if sigHandlerGet rt.own s sigPipe = sigDfl then
    (rt'.sched.ctl s).intent = .exit false ∧ (rt'.sched.ctl s).exitSignal = sigPipe
  else
    (rt'.sched.ctl s).intent.isExit = false ∧
      (sigPipe ∈ (rt'.sig.st s).pending ∨ (rt.sig.frames s).length < (rt'.sig.frames s).length)

/-- Nothing but ending the task was configured. -/
def SigpipeSimple (s : C.Slot) (rt : Runtime C) : Prop :=
  sigHandlerGet rt.own s sigPipe = sigIgn ∨
    sigHandlerGet rt.own s sigPipe = sigDfl ∧ sigBlocked (rt.sig.st s) sigPipe = false

variable {s : C.Slot}

theorem sigpipeConfigured_quiet {rt quiet : Runtime C}
    (hign : sigHandlerGet rt.own s sigPipe = sigIgn) :
    SigpipeConfigured s rt quiet quiet ↔ SigpipeSimple s rt := by
  simp only [SigpipeConfigured, SigpipeSimple, hign, if_true, true_or]

theorem sigpipeConfigured_terminated {rt quiet rt' : Runtime C}
    (hign : sigHandlerGet rt.own s sigPipe ≠ sigIgn)
    (hintent : (rt'.sched.ctl s).intent = .exit false)
    (hsignal : (rt'.sched.ctl s).exitSignal = sigPipe) :
    SigpipeConfigured s rt quiet rt' ↔ SigpipeSimple s rt := by
  have hexit : (rt'.sched.ctl s).intent.isExit = true := by rw [hintent]; rfl
  unfold SigpipeConfigured SigpipeSimple
  rw [if_neg hign]
  cases hblocked : sigBlocked (rt.sig.st s) sigPipe with
  | true => simp [hign, hexit]
  | false =>
    by_cases hdfl : sigHandlerGet rt.own s sigPipe = sigDfl
    · simp [hdfl, hintent, hsignal]
    · simp [hign, hdfl, hexit]

theorem signalTerminate_ctl (s : C.Slot) (sig : Nat) (reason : ExitReason) (rt : Runtime C) :
    ((signalTerminate s sig reason rt).sched.ctl s).intent = .exit false ∧
      ((signalTerminate s sig reason rt).sched.ctl s).exitSignal = sig := by
  simp [signalTerminate, modifyCtl]

theorem brokenPipe_configured (s : C.Slot) (rt : Runtime C) :
    SigpipeConfigured s rt rt (deferredSyscall s .brokenPipe rt).2 ↔ SigpipeSimple s rt := by
  dsimp only [deferredSyscall]
  split
  next hign => exact sigpipeConfigured_quiet hign
  next hign =>
    have hctl := signalTerminate_ctl s sigPipe .signal rt
    exact sigpipeConfigured_terminated hign hctl.1 hctl.2

theorem blockedRetryPipe_configured {i : ScanInput C} {x : ScanState C}
    (hretry : i.retry s = .done (-Errno.epipe.code)) :
    SigpipeConfigured s x.rt (waitReturn s (-Errno.epipe.code) x).rt (blockedRetryPipe i s x).rt ↔
      SigpipeSimple s x.rt := by
  simp only [blockedRetryPipe, hretry, true_and]
  split
  next hign =>
    have hctl := signalTerminate_ctl s sigPipe .signal (waitFinish s x.rt)
    exact sigpipeConfigured_terminated hign hctl.1 hctl.2
  next hign => exact sigpipeConfigured_quiet (not_not.mp hign)

/-- A write to a pipe without readers fails with EPIPE on either path, and SIGPIPE has the effect
that was configured for it exactly when it is ignored, or neither blocked nor caught. -/
theorem sigpipe_configured_iff (pp : Stream.Pipe) (bytes : Bytes) (hreaders : pp.readers = 0)
    (nonblock : Bool) (w : Wait) (i : ScanInput C) (s : C.Slot) (x : ScanState C)
    (hretry : i.retry s = pipeRetry (pp.tryWrite bytes).1) :
    let now := deferredSyscall s (pipeWriteCall nonblock w (pp.tryWrite bytes).1) x.rt
    now.1 = -Errno.epipe.code ∧ (SigpipeConfigured s x.rt x.rt now.2 ↔ SigpipeSimple s x.rt) ∧
      (SigpipeConfigured s x.rt (waitReturn s (-Errno.epipe.code) x).rt
        (blockedRetryPipe i s x).rt ↔
        SigpipeSimple s x.rt) := by
  have hwrite : (pp.tryWrite bytes).1 = .error .epipe := by
    rw [Stream.Pipe.tryWrite, if_pos hreaders]
  rw [hwrite] at hretry ⊢
  exact ⟨rfl, brokenPipe_configured s x.rt, blockedRetryPipe_configured hretry⟩

def blockedWriter : Runtime smallConfig :=
  (sysRtSigprocmask 1 .block (some {sigPipe}) 8 true threeTasks).2

def refusedRetry : ScanInput smallConfig :=
  { now := 0, retry := fun _ => .done (-Errno.epipe.code) }

def scanOf (rt : Runtime C) : ScanState C := { rt := rt, sv := blockedFairReset C, scan := {} }

theorem sigpipe_configured_threeTasks :
    SigpipeConfigured 1 threeTasks threeTasks (deferredSyscall 1 .brokenPipe threeTasks).2 ∧
      SigpipeConfigured 1 threeTasks (waitReturn 1 (-Errno.epipe.code) (scanOf threeTasks)).rt
        (blockedRetryPipe refusedRetry 1 (scanOf threeTasks)).rt := by
  have h := sigpipe_configured_iff (Stream.Pipe.zero 4) [7] rfl false .none refusedRetry 1
    (scanOf threeTasks) rfl
  have hsimple : SigpipeSimple 1 threeTasks := .inr (by decide)
  exact ⟨h.2.1.mpr hsimple, h.2.2.mpr hsimple⟩

/-- SIGPIPE stays blocked, and the writer is told to exit all the same. -/
theorem sigpipe_kills_blocked : sigBlocked (blockedWriter.sig.st 1) sigPipe = true ∧
      ((deferredSyscall 1 .brokenPipe blockedWriter).2.sched.ctl 1).intent = .exit false ∧
      ((blockedRetryPipe refusedRetry 1 (scanOf blockedWriter)).rt.sched.ctl 1).intent =
        .exit false ∧
      ¬ SigpipeConfigured 1 blockedWriter blockedWriter
        (deferredSyscall 1 .brokenPipe blockedWriter).2 := by
  refine ⟨by decide +kernel, by decide +kernel, by decide +kernel, fun h => ?_⟩
  have hsimple : ¬ SigpipeSimple 1 blockedWriter := by unfold SigpipeSimple; decide +kernel
  exact hsimple ((brokenPipe_configured 1 blockedWriter).mp h)

end Lxp
