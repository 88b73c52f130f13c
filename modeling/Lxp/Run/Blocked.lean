import Lxp.Run.Signal

/-!
# The scan of blocked tasks

When no event is pending the coordinator scans the slot table: it acts on signals and continued
stops of parked tasks, and retries the waits of one service class, chosen by a weighted cycle in
which a class that has waited long enough comes first.

The retries of pipes, devices, sockets, files and the console belong to other subsystems; what each
of them answers in this pass is an input of the scan.
-/

open Function

namespace Lxp

variable {C : Config}

/-! ## Service classes -/

inductive ServiceClass where
  | fs
  | socket
  | console
  | ordinary
deriving DecidableEq

def waitServiceClass : Wait → Option ServiceClass
  | .hostfs => some .fs
  | .socket | .poll => some .socket
  | .console => some .console
  | .timer _ | .futex _ _ _ | .pipe | .device | .netfs _ | .pty => some .ordinary
  | .none | .child _ _ _ | .sigsuspend => none

def serviceAging : Nat := 20000

def serviceSchedule : List ServiceClass :=
  [.fs, .fs, .fs, .fs, .socket, .socket, .socket, .console, .console, .ordinary]

structure Service (C : Config) where
  cursor : Fin serviceSchedule.length
  slotCursor : ServiceClass → C.Slot
  fsReady : Bool

def Service.startBehind (cls : ServiceClass) (s : C.Slot) (sv : Service C) : Service C :=
  { sv with
    slotCursor := update sv.slotCursor cls ⟨(s + 1) % C.nslot, Nat.mod_lt _ C.nslot_pos⟩ }

def blockedFairReset (C : Config) : Service C where
  cursor := ⟨0, by decide⟩
  slotCursor := fun _ => ⟨0, C.nslot_pos⟩
  fsReady := false

def nextCursor (cursor : Fin serviceSchedule.length) : Fin serviceSchedule.length :=
  ⟨(cursor + 1) % serviceSchedule.length, Nat.mod_lt _ (by decide)⟩

/-- The first class of the cycle, from the cursor on, that `eligible` admits. -/
def scheduleFrom (eligible : ServiceClass → Bool) :
    Nat → Fin serviceSchedule.length → Option ServiceClass × Fin serviceSchedule.length
  | 0, cursor => (none, cursor)
  | n + 1, cursor =>
    let cls := serviceSchedule.get cursor
    if eligible cls then (some cls, nextCursor cursor)
    else scheduleFrom eligible n (nextCursor cursor)

def blockedServiceSelect (pending : ServiceClass → Bool) (oldest : ServiceClass → Nat) (now : Nat)
    (sv : Service C) : Option ServiceClass × Service C :=
  if pending .fs && sv.fsReady then (some .fs, { sv with fsReady := false })
  else
    let aged := fun cls =>
      pending cls && decide (oldest cls ≤ now) && decide (serviceAging ≤ now - oldest cls)
    let anyAged := aged .fs || aged .socket || aged .console || aged .ordinary
    let (cls, cursor) := scheduleFrom (fun cls => if anyAged then aged cls else pending cls)
      serviceSchedule.length sv.cursor
    (cls, { sv with cursor := cursor })

/-! ## One pass -/

def uint64Max : Nat := 2 ^ 64 - 1

structure Scan where
  progress : Bool := false
  anyAlive : Bool := false
  anyBusy : Bool := false
  -- Whether some task waits for the console, a socket, or an object without readiness events.
  consoleWait : Bool := false
  socketWait : Bool := false
  pollWait : Bool := false
  nextDeadline : Nat := uint64Max
deriving DecidableEq

def Scan.noteDeadline (deadline : Nat) (scan : Scan) : Scan :=
  if deadline ≠ 0 ∧ deadline < scan.nextDeadline then { scan with nextDeadline := deadline }
  else scan

def Scan.made (scan : Scan) : Scan := { scan with progress := true }

def Scan.busy (scan : Scan) : Scan := { scan with anyBusy := true }

def Scan.waitPolicy (w : Wait) (scan : Scan) : Scan :=
  match w with
  | .pipe | .device | .netfs _ | .pty | .futex _ _ _ => { scan with pollWait := true }
  | .console => { scan with consoleWait := true }
  | .socket | .poll => { scan with socketWait := true }
  | _ => scan

/-- What a retry answers: still blocked, a result, an exec that the fetch has made ready, or the
console's ^C or ^Z. -/
inductive Retry where
  | again
  | done (rc : Int)
  | exec
  | interruptKey
  | suspendKey
deriving DecidableEq

structure ScanInput (C : Config) where
  now : Nat
  port : Port := {}
  enqueued : C.Slot → Nat := fun _ => 0
  view : C.Slot → Bool := fun _ => true
  readable : C.Slot → Bool := fun _ => true
  -- Whether a device wait is one on a block device.
  blockDevice : C.Slot → Bool := fun _ => false
  retry : C.Slot → Retry := fun _ => .again
  interrupt : Option Nat := none
  fgPgrp : Nat := 0

structure ScanState (C : Config) where
  rt : Runtime C
  sv : Service C
  scan : Scan

def blockedPendingFatal (o : Own C) (s : C.Slot) (st : SigState) : Option Nat :=
  signals.find? fun sig => decide (sig ∈ st.pending) && !sigBlocked st sig &&
    (sig == sigKill ||
      (sigHandlerGet o s sig == sigDfl && !sigDefaultIgnore sig && !sigIsStop sig))

def blockedClearStop (s : C.Slot) (rt : Runtime C) : Runtime C :=
  modifyCtl s (fun c => { c with
    stopped := false
    stopKind := .none
    stopSig := 0
    stopR0 := 0 }) rt

/-- A call that reads, writes or reaps may be restarted. -/
def blockedInterruptedResult : Wait → Int
  | .child _ _ _ | .pipe | .console | .device | .socket | .netfs _ | .hostfs | .pty =>
    -Errno.erestartsys.code
  | _ => -Errno.eintr.code

def sigCaught (o : Own C) (s : C.Slot) (sig : Nat) : Bool :=
  sigHandlerGet o s sig != sigDfl && sigHandlerGet o s sig != sigIgn

/-- A caught signal waits for a file or block request, whose side effect may be done already. -/
def blockedDeferStatefulSignal (i : ScanInput C) (rt : Runtime C) (s : C.Slot) (sig : Nat) : Bool :=
  ((rt.sched.ctl s).wait == .hostfs || (rt.sched.ctl s).wait == .device && i.blockDevice s) &&
    sigCaught rt.own s sig

/-- SIGCONT for a stopped task. -/
def blockedContinue (i : ScanInput C) (s : C.Slot) (rt : Runtime C) : Runtime C :=
  let c := rt.sched.ctl s
  let ready := c.stopKind == .ready
  let typedWait := c.wait != .none
  let caught := sigCaught rt.own s sigCont
  let blocked := caught && sigBlocked (rt.sig.st s) sigCont
  let deferred := caught && !blocked && typedWait && blockedDeferStatefulSignal i rt s sigCont
  let canDeliver := caught && !blocked && (ready || typedWait) && !deferred
  let rt := if !caught || canDeliver then modifySig s (clearPending sigCont) rt else rt
  let rt := blockedClearStop s rt
  if canDeliver then
    if ready then deliverSignalParked s sigCont c.stopR0 (i.readable s) rt
    else deliverSignalParked s sigCont (blockedInterruptedResult c.wait) (i.readable s)
      (waitFinish s rt)
  else if ready then (resumeSlot s c.stopR0 rt).2
  else rt

def blockedHandleStopped (i : ScanInput C) (s : C.Slot) (x : ScanState C) : Bool × ScanState C :=
  if (x.rt.sched.ctl s).stopped = false then (false, x)
  else
    let x := { x with scan := x.scan.busy }
    match blockedPendingFatal x.rt.own s (x.rt.sig.st s) with
    | some fatal =>
      let rt := blockedClearStop s (modifySig s (clearPending fatal) x.rt)
      (true, { x with
        rt := primarySlotMark s (signalTerminate s fatal .signal rt)
        scan := x.scan.made })
    | none =>
      if sigCont ∈ (x.rt.sig.st s).pending then
        (true, { x with rt := blockedContinue i s x.rt, scan := x.scan.made })
      else (true, x)

def blockedHandleSignal (i : ScanInput C) (s : C.Slot) (x : ScanState C) : Bool × ScanState C :=
  match (if x.rt.sched.runnable s then none else pendingDeliverable (x.rt.sig.st s)) with
  | none => (false, x)
  | some sig =>
    if sigStopsProc x.rt.own s sig then
      let rt := setStopped s .parked sig 0 (modifySig s (clearPending sig) x.rt)
      (true, { x with
        rt := notifyParentStopped (parentPid rt.own s) (rt.own.pid s) sig rt
        scan := x.scan.made })
    else if (x.rt.sched.ctl s).wait = .none then (false, x)
    else if blockedDeferStatefulSignal i x.rt s sig then (false, x)
    else
      let rt := modifySig s (clearPending sig) x.rt
      if sigSwallowed rt.own s sig then (false, { x with rt := rt })
      else
        (false, { x with
          rt := deliverSignalParked s sig (blockedInterruptedResult (x.rt.sched.ctl s).wait)
            (i.readable s) (waitFinish s rt)
          scan := x.scan.made })

/-- The wait is over and the call returns `r0`. -/
def waitReturn (s : C.Slot) (r0 : Int) (x : ScanState C) : ScanState C :=
  let rt := waitFinish s x.rt
  { x with rt := (completeSlot (slotRefAt rt.own s) r0 rt).2, scan := x.scan.made }

def blockedRetryTimer (i : ScanInput C) (s : C.Slot) (deadline : Nat) (x : ScanState C) :
    ScanState C :=
  let x := { x with scan := x.scan.busy }
  if deadline ≤ i.now then waitReturn s 0 x
  else { x with scan := x.scan.noteDeadline deadline }

def blockedRetryFutex (i : ScanInput C) (s : C.Slot) (deadline : Nat) (woken : Bool)
    (x : ScanState C) : ScanState C :=
  let x := { x with scan := x.scan.busy }
  if woken then waitReturn s 0 x
  else if deadline ≠ 0 ∧ deadline ≤ i.now then waitReturn s (-Errno.etimedout.code) x
  else { x with scan := x.scan.noteDeadline deadline }

def blockedRetryPipe (i : ScanInput C) (s : C.Slot) (x : ScanState C) : ScanState C :=
  match i.retry s with
  | .done rc =>
    if rc = -Errno.epipe.code ∧ sigHandlerGet x.rt.own s sigPipe ≠ sigIgn then
      { x with
        rt := primarySlotMark s (signalTerminate s sigPipe .signal (waitFinish s x.rt))
        scan := x.scan.made }
    else waitReturn s rc x
  | _ => x

def blockedRetryHostfs (i : ScanInput C) (s : C.Slot) (x : ScanState C) : ScanState C :=
  let x := { x with scan := x.scan.busy }
  match i.retry s with
  | .done rc =>
    match pendingTake s (waitFinish s x.rt) with
    | (some sig, rt) =>
      { x with rt := deliverSignalParked s sig rc (i.readable s) rt, scan := x.scan.made }
    | (none, _) => waitReturn s rc x
  | _ => x

def blockedRetryNetfs (i : ScanInput C) (s : C.Slot) (x : ScanState C) : ScanState C :=
  match i.retry s with
  | .done rc => waitReturn s rc x
  | .exec =>
    { x with
      rt := primarySlotMark s (modifyCtl s (fun c => { c with intent := .exec })
        (waitFinish s x.rt))
      scan := x.scan.made }
  | _ => x

-- ^Z leaves the reader waiting; ^C ends its read.
def blockedRetryConsole (i : ScanInput C) (s : C.Slot) (x : ScanState C) : ScanState C :=
  match i.retry s with
  | .done rc => waitReturn s rc x
  | .suspendKey =>
    { x with rt := (signalProcessGroup i.fgPgrp sigTstp x.rt).2, scan := x.scan.made }
  | .interruptKey =>
    waitReturn s (-Errno.eintr.code)
      { x with rt := (signalProcessGroup i.fgPgrp sigInt x.rt).2 }
  | _ => x

def blockedRetryIo (i : ScanInput C) (s : C.Slot) (x : ScanState C) : ScanState C :=
  match i.retry s with
  | .done rc => waitReturn s rc x
  | _ => x

def blockedRetry (i : ScanInput C) (s : C.Slot) (x : ScanState C) : ScanState C :=
  if x.rt.sched.runnable s then x
  else
    match (x.rt.sched.ctl s).wait with
    | .timer deadline => blockedRetryTimer i s deadline x
    | .futex _ deadline woken => blockedRetryFutex i s deadline woken x
    | .pipe => blockedRetryPipe i s x
    | .hostfs => blockedRetryHostfs i s x
    | .netfs _ => blockedRetryNetfs i s x
    | .console => blockedRetryConsole i s x
    | .device | .socket | .poll | .pty => blockedRetryIo i s x
    | .none | .child _ _ _ | .sigsuspend => x

def guestViewFailure (s : C.Slot) (rt : Runtime C) : Runtime C :=
  exitSlot s false 127 .stateCorruption rt

def guestViewBegin (i : ScanInput C) (s : C.Slot) (rt : Runtime C) : Bool :=
  slotRefIsCurrent rt.own (slotRefAt rt.own s) && (rt.own.mm s).isSome && i.view s

def blockedAlarm (i : ScanInput C) (s : C.Slot) (x : ScanState C) : ScanState C :=
  let st := x.rt.sig.st s
  if st.alarmDeadline = 0 ∨ x.rt.sched.runnable s then x
  else
    let rt := if st.alarmDeadline ≤ i.now then
        modifySig s (fun st => { signalLatch sigAlrm st with
          alarmDeadline := if st.alarmInterval = 0 then 0 else i.now + st.alarmInterval }) x.rt
      else x.rt
    { x with rt := rt, scan := x.scan.noteDeadline (rt.sig.st s).alarmDeadline }

/-- The deadline of a sleep or futex wait that is still to come, whichever class is served. -/
def blockedNoteWait (i : ScanInput C) (w : Wait) (scan : Scan) : Scan :=
  match w with
  | .timer deadline => if i.now < deadline then scan.noteDeadline deadline else scan
  | .futex _ deadline woken =>
    if woken = false ∧ i.now < deadline then scan.noteDeadline deadline else scan
  | _ => scan

def blockedService (i : ScanInput C) (selected : Option ServiceClass) (s : C.Slot)
    (x : ScanState C) : ScanState C :=
  match selected with
  | none => x
  | some cls =>
    if x.scan.progress = false ∧ waitServiceClass (x.rt.sched.ctl s).wait = some cls then
      let x := blockedRetry i s x
      if x.scan.progress then { x with sv := x.sv.startBehind cls s } else x
    else x

def scanUnstopped (i : ScanInput C) (selected : Option ServiceClass) (s : C.Slot)
    (x : ScanState C) : ScanState C :=
  let busy := if x.rt.sched.runnable s then x.scan.busy else x.scan
  let x := { x with scan := busy.waitPolicy (x.rt.sched.ctl s).wait }
  match blockedHandleSignal i s (blockedAlarm i s x) with
  | (true, x) => x
  | (false, x) =>
    blockedService i selected s
      { x with scan := blockedNoteWait i (x.rt.sched.ctl s).wait x.scan }

def scanSlot (i : ScanInput C) (selected : Option ServiceClass) (x : ScanState C)
    (s : C.Slot) : ScanState C :=
  if x.rt.own.alive s = false then x
  else
    let x := { x with scan := { x.scan with anyAlive := true } }
    if x.rt.sched.runnable s = false ∧ guestViewBegin i s x.rt = false then
      { x with rt := guestViewFailure s x.rt, scan := x.scan.made }
    else
      match blockedHandleStopped i s x with
      | (true, x) => x
      | (false, x) => scanUnstopped i selected s x

/-- The parked tasks that wait for a service of class `cls`. -/
def waitsForService (rt : Runtime C) (cls : ServiceClass) (s : C.Slot) : Bool :=
  rt.own.alive s && !rt.sched.runnable s && waitServiceClass (rt.sched.ctl s).wait == some cls

def servicePending (rt : Runtime C) (cls : ServiceClass) : Bool :=
  (List.finRange C.nslot).any (waitsForService rt cls)

def serviceOldest (i : ScanInput C) (rt : Runtime C) (cls : ServiceClass) : Nat :=
  ((List.finRange C.nslot).filter (waitsForService rt cls)).foldl
    (fun oldest s => min oldest (if i.enqueued s = 0 then i.now else i.enqueued s)) uint64Max

def rotation (start : C.Slot) : List C.Slot :=
  (List.finRange C.nslot).map fun k : C.Slot =>
    ⟨(start + k) % C.nslot, Nat.mod_lt _ C.nslot_pos⟩

def scanStart (i : ScanInput C) (sv : Service C) (rt : Runtime C) :
    Option ServiceClass × Service C :=
  blockedServiceSelect (servicePending rt) (serviceOldest i rt) i.now sv

def scanFrom (selected : Option ServiceClass) (sv : Service C) : C.Slot :=
  match selected with
  | none => ⟨0, C.nslot_pos⟩
  | some cls => sv.slotCursor cls

def scanSlots (i : ScanInput C) (selected : Option ServiceClass) (sv : Service C)
    (rt : Runtime C) : ScanState C :=
  (rotation (scanFrom selected sv)).foldl (scanSlot i selected)
    ⟨{ rt with sched.port := i.port }, sv, {}⟩

-- ^C or ^Z for a foreground program that is not reading the console.
def consolePollInterrupts (i : ScanInput C) (x : ScanState C) : ScanState C :=
  match i.interrupt with
  | none => x
  | some sig => { x with rt := (signalProcessGroup i.fgPgrp sig x.rt).2, scan := x.scan.made }

def scanBlocked (i : ScanInput C) (sv : Service C) (rt : Runtime C) : ScanState C :=
  let (selected, sv) := scanStart i sv rt
  let x := scanSlots i selected sv rt
  let x := match selected, x.scan.progress with
    | some cls, false => { x with sv := x.sv.startBehind cls (scanFrom selected sv) }
    | _, _ => x
  if x.scan.consoleWait then x else consolePollInterrupts i x

end Lxp
