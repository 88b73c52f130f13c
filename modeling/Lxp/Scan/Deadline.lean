import Lxp.Run.Blocked
import Lxp.Run.Step
import Mathlib.Data.Fintype.EquivFin
import Mathlib.Data.Nat.ModEq

/-!
# Deadlines and the scan

A scan that reports no progress lets the coordinator sleep until the deadline it reports.  Sleeps
and timed futex waits are of the ordinary class, and only one class is served in a pass; the
deadline of a wait that is due, or of a woken futex wait, is not noted when another class is.

`slotActs` says, of the state before the scan, whether the pass acts on a slot.  Up to the first
slot it acts on, a pass changes nothing but the signal records of the slots it has looked at
(`foldl_scanSlot_quiet`), so that it reports progress exactly when it acts on some slot.
-/

open Function List

namespace Lxp

variable {C : Config}
variable {i : ScanInput C} {s : C.Slot} {selected : Option ServiceClass} {x : ScanState C}
  {rt : Runtime C}
variable {l : List C.Slot}

/-! ## Noted deadlines -/

theorem Scan.noteDeadline_nextDeadline_le (n : Nat) (scan : Scan) (d : Nat) :
    (scan.noteDeadline n).nextDeadline ≤ d ↔ scan.nextDeadline ≤ d ∨ n ≠ 0 ∧ n ≤ d := by
  unfold Scan.noteDeadline
  split
  next h =>
    show n ≤ d ↔ _
    omega
  next h => omega

@[simp] theorem Scan.noteDeadline_progress (n : Nat) (scan : Scan) :
    (scan.noteDeadline n).progress = scan.progress := by
  unfold Scan.noteDeadline
  split <;> rfl

@[simp] theorem Scan.noteDeadline_consoleWait (n : Nat) (scan : Scan) :
    (scan.noteDeadline n).consoleWait = scan.consoleWait := by
  unfold Scan.noteDeadline
  split <;> rfl

theorem Scan.noteDeadline_zero (scan : Scan) : scan.noteDeadline 0 = scan := by
  unfold Scan.noteDeadline
  rw [if_neg (fun h => h.1 rfl)]

@[simp] theorem Scan.waitPolicy_progress (w : Wait) (scan : Scan) :
    (scan.waitPolicy w).progress = scan.progress := by
  unfold Scan.waitPolicy
  split <;> rfl

@[simp] theorem Scan.waitPolicy_nextDeadline (w : Wait) (scan : Scan) :
    (scan.waitPolicy w).nextDeadline = scan.nextDeadline := by
  unfold Scan.waitPolicy
  split <;> rfl

theorem Scan.waitPolicy_consoleWait (w : Wait) (scan : Scan) :
    (scan.waitPolicy w).consoleWait = (scan.consoleWait || w == .console) := by
  cases w <;> simp [Scan.waitPolicy]

@[simp] theorem blockedNoteWait_progress (i : ScanInput C) (w : Wait) (scan : Scan) :
    (blockedNoteWait i w scan).progress = scan.progress := by
  unfold blockedNoteWait
  split
  · split <;> simp
  · split <;> simp
  · rfl

@[simp] theorem blockedNoteWait_consoleWait (i : ScanInput C) (w : Wait) (scan : Scan) :
    (blockedNoteWait i w scan).consoleWait = scan.consoleWait := by
  unfold blockedNoteWait
  split
  · split <;> simp
  · split <;> simp
  · rfl

/-- The deadline of a wait that is still to come and that nothing else has ended. -/
def Wait.awaits (now n : Nat) (w : Wait) : Prop :=
  now < n ∧ (w = .timer n ∨ ∃ uaddr, w = .futex uaddr n false)

theorem blockedNoteWait_nextDeadline_le (i : ScanInput C) (w : Wait) (scan : Scan) (d : Nat) :
    (blockedNoteWait i w scan).nextDeadline ≤ d ↔
      scan.nextDeadline ≤ d ∨ ∃ n, w.awaits i.now n ∧ n ≤ d := by
  cases w with
  | timer n =>
    by_cases hn : i.now < n
    · simp [blockedNoteWait, Wait.awaits, hn, Scan.noteDeadline_nextDeadline_le]
      omega
    · simp [blockedNoteWait, Wait.awaits, hn]
  | futex uaddr n woken =>
    by_cases hn : woken = false ∧ i.now < n
    · simp [blockedNoteWait, Wait.awaits, hn, Scan.noteDeadline_nextDeadline_le]
      omega
    simp only [blockedNoteWait, if_neg hn]
    constructor
    · exact .inl
    · rintro (h | ⟨m, ⟨hm, h | ⟨u, h⟩⟩, -⟩)
      · exact h
      · cases h
      · cases h
        exact absurd ⟨rfl, hm⟩ hn
  | _ => simp [blockedNoteWait, Wait.awaits]

/-! ## What a pass acts on -/

def alarmed (i : ScanInput C) (rt : Runtime C) (s : C.Slot) : SigState :=
  let st := rt.sig.st s
  if (st.alarmDeadline = 0 ∨ rt.sched.runnable s) ∨ i.now < st.alarmDeadline then st
  else { signalLatch sigAlrm st with
    alarmDeadline := if st.alarmInterval = 0 then 0 else i.now + st.alarmInterval }

def stoppedActs (rt : Runtime C) (s : C.Slot) : Bool :=
  (blockedPendingFatal rt.own s (rt.sig.st s)).isSome || decide (sigCont ∈ (rt.sig.st s).pending)

def signalActs (i : ScanInput C) (rt : Runtime C) (s : C.Slot) (st : SigState) : Bool :=
  (pendingDeliverable st).any fun sig => sigStopsProc rt.own s sig ||
    ((rt.sched.ctl s).wait != .none && !blockedDeferStatefulSignal i rt s sig &&
      !sigSwallowed rt.own s sig)

def Retry.isDone : Retry → Bool
  | .done _ => true
  | _ => false

def retryActs (i : ScanInput C) (s : C.Slot) : Wait → Bool
  | .timer deadline => decide (deadline ≤ i.now)
  | .futex _ deadline woken => woken || decide (deadline ≠ 0 ∧ deadline ≤ i.now)
  | .pipe | .hostfs | .device | .socket | .poll | .pty => (i.retry s).isDone
  | .netfs _ => (i.retry s).isDone || i.retry s == .exec
  | .console => (i.retry s).isDone || i.retry s == .interruptKey || i.retry s == .suspendKey
  | .none | .child _ _ _ | .sigsuspend => false

def serviceActs (i : ScanInput C) (selected : Option ServiceClass) (rt : Runtime C)
    (s : C.Slot) : Bool :=
  (waitServiceClass (rt.sched.ctl s).wait).isSome &&
    waitServiceClass (rt.sched.ctl s).wait == selected && retryActs i s (rt.sched.ctl s).wait

/-- Whether a task is parked, so that the pass needs its guest view. -/
def viewFails (i : ScanInput C) (rt : Runtime C) (s : C.Slot) : Bool :=
  !rt.sched.runnable s && !guestViewBegin i s rt

def slotActs (i : ScanInput C) (selected : Option ServiceClass) (rt : Runtime C)
    (s : C.Slot) : Bool :=
  rt.own.alive s &&
    if viewFails i rt s then true
    else if (rt.sched.ctl s).stopped then stoppedActs rt s
    else !rt.sched.runnable s &&
      (signalActs i rt s (alarmed i rt s) || serviceActs i selected rt s)

def slotScanned (i : ScanInput C) (rt : Runtime C) (s : C.Slot) : Bool :=
  rt.own.alive s && !viewFails i rt s && !(rt.sched.ctl s).stopped

/-- What the alarm and the wait of an unstopped task note. -/
def UnstoppedNotes (i : ScanInput C) (rt : Runtime C) (s : C.Slot) (n : Nat) : Prop :=
  ((rt.sig.st s).alarmDeadline ≠ 0 ∧ rt.sched.runnable s = false ∧
      n = (alarmed i rt s).alarmDeadline ∧ n ≠ 0) ∨
    (rt.sched.ctl s).wait.awaits i.now n

/-- The deadlines a pass notes for a slot whichever class it serves. -/
def SlotNotes (i : ScanInput C) (rt : Runtime C) (s : C.Slot) (n : Nat) : Prop :=
  slotScanned i rt s = true ∧ UnstoppedNotes i rt s n

def consoleWaits (i : ScanInput C) (rt : Runtime C) (s : C.Slot) : Bool :=
  slotScanned i rt s && (rt.sched.ctl s).wait == .console

/-! ## Quiet slots -/

def withSig (rt : Runtime C) (s : C.Slot) (st : SigState) : Runtime C :=
  { rt with sig.st := update rt.sig.st s st }

theorem withSig_self (rt : Runtime C) (s : C.Slot) : withSig rt s (rt.sig.st s) = rt := by
  simp [withSig]

theorem withSig_withSig (rt : Runtime C) (s : C.Slot) (st st' : SigState) :
    withSig (withSig rt s st) s st' = withSig rt s st' := by
  simp [withSig]

theorem blockedAlarm_eq (i : ScanInput C) (s : C.Slot) (x : ScanState C) :
    blockedAlarm i s x = { x with
      rt := withSig x.rt s (alarmed i x.rt s)
      scan := x.scan.noteDeadline
        (if (x.rt.sig.st s).alarmDeadline = 0 ∨ x.rt.sched.runnable s then 0
          else (alarmed i x.rt s).alarmDeadline) } := by
  unfold blockedAlarm
  by_cases h : (x.rt.sig.st s).alarmDeadline = 0 ∨ x.rt.sched.runnable s
  · simp only [alarmed, h, if_true, true_or, withSig_self, Scan.noteDeadline_zero]
  · by_cases hd : (x.rt.sig.st s).alarmDeadline ≤ i.now
    · simp [alarmed, h, hd, Nat.not_lt.mpr hd, modifySig, withSig]
    · simp [alarmed, h, hd, Nat.not_le.mp hd, withSig]

theorem blockedHandleStopped_cases (i : ScanInput C) (hs : (x.rt.sched.ctl s).stopped = true) :
    (stoppedActs x.rt s = true ∧
      ∃ rt, blockedHandleStopped i s x = (true, { x with rt := rt, scan := x.scan.busy.made })) ∨
    (stoppedActs x.rt s = false ∧
      blockedHandleStopped i s x = (true, { x with scan := x.scan.busy })) := by
  simp only [blockedHandleStopped, stoppedActs, hs]
  cases hf : blockedPendingFatal x.rt.own s (x.rt.sig.st s) with
  | some fatal => exact .inl ⟨rfl, _, rfl⟩
  | none =>
    by_cases hc : sigCont ∈ (x.rt.sig.st s).pending
    · exact .inl ⟨by simp [hc], _, if_pos hc⟩
    · exact .inr ⟨by simp [hc], if_neg hc⟩

theorem blockedHandleSignal_cases (i : ScanInput C) (s : C.Slot) (x : ScanState C) :
    ((x.rt.sched.runnable s = false ∧ signalActs i x.rt s (x.rt.sig.st s) = true) ∧
      ∃ b rt, blockedHandleSignal i s x = (b, { x with rt := rt, scan := x.scan.made })) ∨
    ((x.rt.sched.runnable s = true ∨ signalActs i x.rt s (x.rt.sig.st s) = false) ∧
      ∃ st, blockedHandleSignal i s x = (false, { x with rt := withSig x.rt s st })) := by
  have hidle : ∃ st, (false, x) = (false, { x with rt := withSig x.rt s st }) :=
    ⟨x.rt.sig.st s, by rw [withSig_self]⟩
  unfold blockedHandleSignal
  cases hr : x.rt.sched.runnable s with
  | true => exact .inr ⟨.inl rfl, hidle⟩
  | false =>
    simp only [Bool.false_eq_true, if_false, signalActs]
    cases hp : pendingDeliverable (x.rt.sig.st s) with
    | none => exact .inr ⟨.inr rfl, hidle⟩
    | some sig =>
      cases hstop : sigStopsProc x.rt.own s sig with
      | true => exact .inl ⟨⟨trivial, by simp [hstop]⟩, true, _, if_pos hstop⟩
      | false =>
        simp only [Option.any_some, hstop]
        by_cases hw : (x.rt.sched.ctl s).wait = .none
        · exact .inr ⟨.inr (by simp [hw]), by rw [if_pos hw]; exact hidle⟩
        rw [if_neg hw]
        by_cases hd : blockedDeferStatefulSignal i x.rt s sig = true
        · exact .inr ⟨.inr (by simp [hd]), by rw [if_pos hd]; exact hidle⟩
        rw [if_neg hd]
        by_cases hsw : sigSwallowed x.rt.own s sig = true
        · exact .inr ⟨.inr (by simp [hsw]), clearPending sig (x.rt.sig.st s), if_pos hsw⟩
        · exact .inl ⟨⟨trivial, by simp [hw, hd, hsw]⟩, false, _, if_neg hsw⟩

theorem Scan.noteDeadline_of_le {n : Nat} {scan : Scan} (h : scan.nextDeadline ≤ n) :
    scan.noteDeadline n = scan := by
  unfold Scan.noteDeadline
  rw [if_neg (fun hn => absurd hn.2 (Nat.not_lt.mpr h))]

/-- A retry ends the wait, or only reports the task as busy when the deadline of its wait has been
noted before. -/
theorem blockedRetry_cases
    (hn : ∀ n, (x.rt.sched.ctl s).wait.awaits i.now n → x.scan.nextDeadline ≤ n) :
    ((x.rt.sched.runnable s = false ∧ retryActs i s (x.rt.sched.ctl s).wait = true) ∧
      (blockedRetry i s x).scan.progress = true) ∨
    ((x.rt.sched.runnable s = true ∨ retryActs i s (x.rt.sched.ctl s).wait = false) ∧
      ∃ busy, blockedRetry i s x = { x with scan := { x.scan with anyBusy := busy } }) := by
  have hidle : ∀ {y : ScanState C}, y = x →
      ∃ busy, y = { x with scan := { x.scan with anyBusy := busy } } := fun h => ⟨x.scan.anyBusy, h⟩
  unfold blockedRetry
  cases hr : x.rt.sched.runnable s with
  | true => exact .inr ⟨.inl rfl, hidle rfl⟩
  | false =>
    simp only [Bool.false_eq_true, if_false]
    cases hw : (x.rt.sched.ctl s).wait with
    | timer n =>
      rw [hw] at hn
      by_cases hdue : n ≤ i.now
      · exact .inl ⟨⟨trivial, decide_eq_true hdue⟩,
          by simp only [blockedRetryTimer, if_pos hdue]; rfl⟩
      · have hle : x.scan.busy.nextDeadline ≤ n := hn n ⟨Nat.not_le.mp hdue, .inl rfl⟩
        refine .inr ⟨.inr (decide_eq_false hdue), true, ?_⟩
        simp only [blockedRetryTimer, if_neg hdue, Scan.noteDeadline_of_le hle]
        rfl
    | futex uaddr n woken =>
      rw [hw] at hn
      by_cases hdue : woken = true ∨ n ≠ 0 ∧ n ≤ i.now
      · refine .inl ⟨⟨trivial, by simpa [retryActs] using hdue⟩, ?_⟩
        simp only [blockedRetryFutex]
        split
        · rfl
        · rename_i hnot
          rw [if_pos (hdue.resolve_left hnot)]
          rfl
      obtain ⟨hwoken, hnot⟩ := not_or.mp hdue
      have hnote : x.scan.busy.noteDeadline n = x.scan.busy := by
        by_cases hz : n = 0
        · rw [hz, Scan.noteDeadline_zero]
        · have hlt : i.now < n := by omega
          have hle : x.scan.busy.nextDeadline ≤ n := hn n ⟨hlt, .inr ⟨uaddr, by simpa using hwoken⟩⟩
          exact Scan.noteDeadline_of_le hle
      refine .inr ⟨.inr (by simpa [retryActs] using hdue), true, ?_⟩
      simp only [blockedRetryFutex, if_neg hwoken, if_neg hnot, hnote]
      rfl
    | pipe =>
      unfold blockedRetryPipe retryActs
      cases i.retry s with
      | done rc =>
        refine .inl ⟨⟨trivial, rfl⟩, ?_⟩
        dsimp only
        split <;> rfl
      | _ => exact .inr ⟨.inr rfl, hidle rfl⟩
    | hostfs =>
      unfold blockedRetryHostfs retryActs
      cases i.retry s with
      | done rc =>
        refine .inl ⟨⟨trivial, rfl⟩, ?_⟩
        dsimp only
        split <;> rfl
      | _ => exact .inr ⟨.inr rfl, true, rfl⟩
    | netfs b =>
      unfold blockedRetryNetfs retryActs
      cases i.retry s with
      | done | exec => exact .inl ⟨⟨trivial, rfl⟩, rfl⟩
      | _ => exact .inr ⟨.inr rfl, hidle rfl⟩
    | console =>
      unfold blockedRetryConsole retryActs
      cases i.retry s with
      | done | interruptKey | suspendKey => exact .inl ⟨⟨trivial, rfl⟩, rfl⟩
      | _ => exact .inr ⟨.inr rfl, hidle rfl⟩
    | none | child | sigsuspend => exact .inr ⟨.inr rfl, hidle rfl⟩
    | _ =>
      unfold blockedRetryIo retryActs
      cases i.retry s with
      | done => exact .inl ⟨⟨trivial, rfl⟩, rfl⟩
      | _ => exact .inr ⟨.inr rfl, hidle rfl⟩

theorem blockedService_cases (selected : Option ServiceClass) (hp : x.scan.progress = false)
    (hn : ∀ n, (x.rt.sched.ctl s).wait.awaits i.now n → x.scan.nextDeadline ≤ n) :
    ((x.rt.sched.runnable s = false ∧ serviceActs i selected x.rt s = true) ∧
      (blockedService i selected s x).scan.progress = true) ∨
    ((x.rt.sched.runnable s = true ∨ serviceActs i selected x.rt s = false) ∧
      ∃ busy, blockedService i selected s x =
        { x with scan := { x.scan with anyBusy := busy } }) := by
  unfold blockedService
  cases selected with
  | none =>
    refine .inr ⟨.inr ?_, x.scan.anyBusy, rfl⟩
    cases hc : waitServiceClass (x.rt.sched.ctl s).wait <;> simp [serviceActs, hc]
  | some cls =>
    dsimp only
    by_cases hcls : waitServiceClass (x.rt.sched.ctl s).wait = some cls
    · rw [if_pos ⟨hp, hcls⟩]
      have hacts : serviceActs i (some cls) x.rt s = retryActs i s (x.rt.sched.ctl s).wait := by
        simp [serviceActs, hcls]
      rw [hacts]
      rcases blockedRetry_cases hn with ⟨ha, hretry⟩ | ⟨hq, busy, hretry⟩
      · exact .inl ⟨ha, by rw [if_pos hretry]; exact hretry⟩
      · exact .inr ⟨hq, busy, by simp [hretry, hp]⟩
    · exact .inr ⟨.inr (by simp [serviceActs, hcls]), x.scan.anyBusy, if_neg fun h => hcls h.2⟩

/-! ## A whole pass -/

/-- Nothing was done for the slots of `l`: their alarms may have fired and signals they ignore been
dropped, and their deadlines and console waits have been noted. -/
structure Quieted (i : ScanInput C) (l : List C.Slot) (x x' : ScanState C) : Prop where
  frame : x'.rt = { x.rt with sig.st := x'.rt.sig.st }
  others : ∀ t ∉ l, x'.rt.sig.st t = x.rt.sig.st t
  progress : x'.scan.progress = false
  deadline : ∀ d, x'.scan.nextDeadline ≤ d ↔
    x.scan.nextDeadline ≤ d ∨ ∃ s ∈ l, ∃ n, SlotNotes i x.rt s n ∧ n ≤ d
  console : x'.scan.consoleWait = (x.scan.consoleWait || l.any (consoleWaits i x.rt))

theorem slotActs_withSig (i : ScanInput C) (selected : Option ServiceClass) (rt : Runtime C)
    (f : C.Slot → SigState) (s : C.Slot) (h : f s = rt.sig.st s) :
    slotActs i selected { rt with sig.st := f } s = slotActs i selected rt s := by
  simp only [slotActs, stoppedActs, signalActs, serviceActs, alarmed, viewFails, guestViewBegin,
    blockedDeferStatefulSignal, h]

def afterAlarm (i : ScanInput C) (s : C.Slot) (x : ScanState C) : ScanState C :=
  let busy := if x.rt.sched.runnable s then x.scan.busy else x.scan
  { x with
    rt := withSig x.rt s (alarmed i x.rt s)
    scan := (busy.waitPolicy (x.rt.sched.ctl s).wait).noteDeadline
      (if (x.rt.sig.st s).alarmDeadline = 0 ∨ x.rt.sched.runnable s then 0
        else (alarmed i x.rt s).alarmDeadline) }

theorem scanUnstopped_eq (i : ScanInput C) (selected : Option ServiceClass) (s : C.Slot)
    (x : ScanState C) :
    scanUnstopped i selected s x = match blockedHandleSignal i s (afterAlarm i s x) with
      | (true, x) => x
      | (false, x) => blockedService i selected s
          { x with scan := blockedNoteWait i (x.rt.sched.ctl s).wait x.scan } := by
  simp only [scanUnstopped]
  rw [blockedAlarm_eq]
  rfl

section

variable (i : ScanInput C) (s : C.Slot) (x : ScanState C)

theorem afterAlarm_progress : (afterAlarm i s x).scan.progress = x.scan.progress := by
  simp only [afterAlarm, Scan.noteDeadline_progress, Scan.waitPolicy_progress]
  split
  · rfl
  · rfl

theorem afterAlarm_consoleWait :
    (afterAlarm i s x).scan.consoleWait =
      (x.scan.consoleWait || (x.rt.sched.ctl s).wait == .console) := by
  simp only [afterAlarm, Scan.noteDeadline_consoleWait, Scan.waitPolicy_consoleWait]
  split
  · rfl
  · rfl

theorem afterAlarm_nextDeadline_le (d : Nat) :
    (afterAlarm i s x).scan.nextDeadline ≤ d ↔ x.scan.nextDeadline ≤ d ∨
      ∃ n, ((x.rt.sig.st s).alarmDeadline ≠ 0 ∧ x.rt.sched.runnable s = false ∧
        n = (alarmed i x.rt s).alarmDeadline ∧ n ≠ 0) ∧ n ≤ d := by
  have hbusy : (if x.rt.sched.runnable s then x.scan.busy else x.scan).nextDeadline =
      x.scan.nextDeadline := by
    split
    · rfl
    · rfl
  simp only [afterAlarm, Scan.noteDeadline_nextDeadline_le, Scan.waitPolicy_nextDeadline, hbusy]
  by_cases h : (x.rt.sig.st s).alarmDeadline = 0 ∨ x.rt.sched.runnable s
  · rw [if_pos h]
    constructor
    · rintro (hd | ⟨hz, -⟩)
      · exact .inl hd
      · exact absurd rfl hz
    · rintro (hd | ⟨n, ⟨hne, hr, -⟩, -⟩)
      · exact .inl hd
      · simp [hne, hr] at h
  rw [if_neg h]
  simp only [not_or, Bool.not_eq_true] at h
  constructor
  · rintro (hd | ⟨hz, hd⟩)
    · exact .inl hd
    · exact .inr ⟨_, ⟨h.1, h.2, rfl, hz⟩, hd⟩
  · rintro (hd | ⟨n, ⟨-, -, rfl, hz⟩, hd⟩)
    · exact .inl hd
    · exact .inr ⟨hz, hd⟩

theorem afterAlarm_signalActs :
    signalActs i (afterAlarm i s x).rt s ((afterAlarm i s x).rt.sig.st s) =
      signalActs i x.rt s (alarmed i x.rt s) := by
  simp [afterAlarm, withSig, signalActs, blockedDeferStatefulSignal]

end

theorem blockedService_scan (i : ScanInput C) (selected : Option ServiceClass) (s : C.Slot)
    (x : ScanState C) (hp : x.scan.progress = true) :
    (blockedService i selected s x).scan.progress = true := by
  cases selected with
  | none => exact hp
  | some cls => simp [blockedService, hp]

theorem scanUnstopped_cases (selected : Option ServiceClass) (hp : x.scan.progress = false) :
    ((x.rt.sched.runnable s = false ∧
        (signalActs i x.rt s (alarmed i x.rt s) = true ∨ serviceActs i selected x.rt s = true)) ∧
      (scanUnstopped i selected s x).scan.progress = true) ∨
    ((x.rt.sched.runnable s = true ∨
        signalActs i x.rt s (alarmed i x.rt s) = false ∧ serviceActs i selected x.rt s = false) ∧
      ∃ st scan, scanUnstopped i selected s x = { x with rt := withSig x.rt s st, scan := scan } ∧
        scan.progress = false ∧
        (∀ d, scan.nextDeadline ≤ d ↔
          x.scan.nextDeadline ≤ d ∨ ∃ n, UnstoppedNotes i x.rt s n ∧ n ≤ d) ∧
        scan.consoleWait = (x.scan.consoleWait || (x.rt.sched.ctl s).wait == .console)) := by
  rw [scanUnstopped_eq, ← afterAlarm_signalActs]
  rcases blockedHandleSignal_cases i s (afterAlarm i s x) with ⟨⟨hr, ha⟩, b, rt, hb⟩ | ⟨hq, st, hst⟩
  · refine .inl ⟨⟨hr, .inl ha⟩, ?_⟩
    rw [hb]
    cases b with
    | true => rfl
    | false =>
      apply blockedService_scan
      rw [blockedNoteWait_progress]
      rfl
  let noted := blockedNoteWait i (x.rt.sched.ctl s).wait (afterAlarm i s x).scan
  have hprogress : noted.progress = false := by
    rw [blockedNoteWait_progress, afterAlarm_progress, hp]
  have hdeadline : ∀ d, noted.nextDeadline ≤ d ↔
      x.scan.nextDeadline ≤ d ∨ ∃ n, UnstoppedNotes i x.rt s n ∧ n ≤ d := by
    intro d
    simp only [noted, blockedNoteWait_nextDeadline_le, afterAlarm_nextDeadline_le, or_assoc,
      UnstoppedNotes, or_and_right, exists_or]
  have hconsole : noted.consoleWait =
      (x.scan.consoleWait || (x.rt.sched.ctl s).wait == .console) := by
    rw [blockedNoteWait_consoleWait, afterAlarm_consoleWait]
  let y : ScanState C := ⟨withSig x.rt s st, x.sv, noted⟩
  have hrt : withSig (afterAlarm i s x).rt s st = y.rt := withSig_withSig ..
  rw [hst, hrt]
  rcases blockedService_cases selected (show y.scan.progress = false from hprogress)
    (fun n hn => (hdeadline n).mpr (.inr ⟨n, .inr hn, le_rfl⟩)) with
      ⟨⟨hr, ha⟩, hs⟩ | ⟨hq', busy, hs⟩
  · exact .inl ⟨⟨hr, .inr ha⟩, hs⟩
  · exact .inr ⟨hq.elim .inl fun h => hq'.imp id fun h' => ⟨h, h'⟩, st,
      { noted with anyBusy := busy },
      hs, hprogress, hdeadline, hconsole⟩

theorem Quieted.of_unscanned {x' : ScanState C} (hs : slotScanned i x.rt s = false)
    (hrt : x'.rt = x.rt) (hp : x'.scan.progress = false)
    (hd : x'.scan.nextDeadline = x.scan.nextDeadline)
    (hc : x'.scan.consoleWait = x.scan.consoleWait) : Quieted i [s] x x' where
  frame := by rw [hrt]
  others t _ := by rw [hrt]
  progress := hp
  deadline d := by simp [hd, SlotNotes, hs]
  console := by simp [hc, consoleWaits, hs]

theorem scanSlot_cases (selected : Option ServiceClass) (hp : x.scan.progress = false) :
    (slotActs i selected x.rt s = true ∧ (scanSlot i selected x s).scan.progress = true) ∨
    (slotActs i selected x.rt s = false ∧ Quieted i [s] x (scanSlot i selected x s)) := by
  unfold scanSlot
  by_cases ha : x.rt.own.alive s = false
  · rw [if_pos ha]
    exact .inr ⟨by simp [slotActs, ha],
      Quieted.of_unscanned (by simp [slotScanned, ha]) rfl hp rfl rfl⟩
  rw [if_neg ha]
  by_cases hview : x.rt.sched.runnable s = false ∧ guestViewBegin i s x.rt = false
  · simp only [if_pos hview]
    exact .inl ⟨by simp [slotActs, viewFails, ha, hview], rfl⟩
  simp only [if_neg hview]
  have hviewed : viewFails i x.rt s = false := by simpa [viewFails] using hview
  let y : ScanState C := { x with scan := { x.scan with anyAlive := true } }
  cases hs : (x.rt.sched.ctl s).stopped with
  | true =>
    have hacts : slotActs i selected x.rt s = stoppedActs x.rt s := by
      simp [slotActs, ha, hviewed, hs]
    rw [hacts]
    rcases blockedHandleStopped_cases i (show (y.rt.sched.ctl s).stopped = true from hs) with
      ⟨hst, rt, h⟩ | ⟨hst, h⟩
    · exact .inl ⟨hst, by rw [h]; rfl⟩
    · rw [h]
      exact .inr ⟨hst, Quieted.of_unscanned (by simp [slotScanned, hs]) rfl hp rfl rfl⟩
  | false =>
    simp only [blockedHandleStopped, hs, if_true]
    rcases scanUnstopped_cases selected (show y.scan.progress = false from hp) with
      ⟨⟨hr, hact⟩, h⟩ | ⟨hq, st, scan, hscan, hprogress, hdeadline, hconsole⟩
    · exact .inl ⟨by simpa [slotActs, ha, hviewed, hs] using And.intro hr hact, h⟩
    rw [hscan]
    have hscanned : slotScanned i x.rt s = true := by simp [slotScanned, ha, hviewed, hs]
    refine .inr ⟨?_, rfl, fun t ht => ?_, hprogress, fun d => ?_, ?_⟩
    · simp only [slotActs, ha, hviewed, hs]
      rcases hq with hr | hq
      · simp [show x.rt.sched.runnable s = true from hr]
      · simpa using fun _ => hq
    · exact update_of_ne (by simpa using ht) _ _
    · rw [hdeadline d]
      simp [SlotNotes, hscanned, y]
    · rw [hconsole]
      simp [consoleWaits, hscanned, y]

theorem scanSlot_scan (i : ScanInput C) (selected : Option ServiceClass) (x : ScanState C)
    (s : C.Slot) (hp : x.scan.progress = true) :
    (scanSlot i selected x s).scan.progress = true := by
  unfold scanSlot
  split
  · exact hp
  dsimp only
  split
  · rfl
  let y : ScanState C := { x with scan := { x.scan with anyAlive := true } }
  cases hs : (x.rt.sched.ctl s).stopped with
  | true =>
    rcases blockedHandleStopped_cases i (show (y.rt.sched.ctl s).stopped = true from hs) with
      ⟨-, rt, h⟩ | ⟨-, h⟩ <;> rw [h]
    · rfl
    · exact hp
  | false =>
    simp only [blockedHandleStopped, hs, if_true]
    rw [scanUnstopped_eq]
    have hy : (afterAlarm i s y).scan.progress = true := (afterAlarm_progress i s y).trans hp
    rcases blockedHandleSignal_cases i s (afterAlarm i s y) with ⟨-, _ | _, rt, h⟩ | ⟨-, st, h⟩ <;>
      rw [h]
    · exact blockedService_scan _ _ _ _ (blockedNoteWait_progress _ _ _)
    · rfl
    · exact blockedService_scan _ _ _ _ ((blockedNoteWait_progress _ _ _).trans hy)

theorem foldl_scanSlot_scan (i : ScanInput C) (selected : Option ServiceClass)
    (l : List C.Slot) (x : ScanState C) (hp : x.scan.progress = true) :
    (l.foldl (scanSlot i selected) x).scan.progress = true := by
  induction l generalizing x with
  | nil => exact hp
  | cons s l ih => exact ih _ (scanSlot_scan i selected x s hp)

theorem SlotNotes_withSig {f : C.Slot → SigState} (h : f s = rt.sig.st s) (n : Nat) :
    SlotNotes i { rt with sig.st := f } s n ↔ SlotNotes i rt s n := by
  simp only [SlotNotes, UnstoppedNotes, slotScanned, viewFails, guestViewBegin, alarmed, h]

theorem Quieted.refl (i : ScanInput C) (hp : x.scan.progress = false) : Quieted i [] x x :=
  ⟨rfl, fun _ _ => rfl, hp, fun d => by simp, by simp⟩

theorem Quieted.cons {y z : ScanState C} (hs : s ∉ l) (h : Quieted i [s] x y)
    (h' : Quieted i l y z) : Quieted i (s :: l) x z := by
  have hsame : ∀ t ∈ l, y.rt.sig.st t = x.rt.sig.st t := fun t ht =>
    h.others t (by simp only [mem_singleton]; rintro rfl; exact hs ht)
  refine ⟨?_, fun t ht => ?_, h'.progress, fun d => ?_, ?_⟩
  · rw [h'.frame, h.frame]
  · rw [mem_cons, not_or] at ht
    rw [h'.others t ht.2, h.others t (by simpa using ht.1)]
  · have hnotes : ∀ t ∈ l, ∀ n, SlotNotes i y.rt t n ↔ SlotNotes i x.rt t n := fun t ht n => by
      rw [h.frame]
      exact SlotNotes_withSig (hsame t ht) n
    rw [h'.deadline d, h.deadline d]
    simp only [mem_cons, not_mem_nil, or_false, exists_eq_left, exists_eq_or_imp, or_assoc]
    refine or_congr_right (or_congr_right ⟨?_, ?_⟩)
    · rintro ⟨t, ht, n, hn, hd⟩
      exact ⟨t, ht, n, (hnotes t ht n).mp hn, hd⟩
    · rintro ⟨t, ht, n, hn, hd⟩
      exact ⟨t, ht, n, (hnotes t ht n).mpr hn, hd⟩
  · have hconsole : l.any (consoleWaits i y.rt) = l.any (consoleWaits i x.rt) := by
      rw [h.frame]
      rfl
    rw [h'.console, h.console, hconsole]
    simp [Bool.or_assoc]

/-- A pass over slots none of which it acts on reports no progress and what they are waiting for. -/
theorem foldl_scanSlot_quiet (hl : l.Nodup) (hp : x.scan.progress = false)
    (hq : ∀ s ∈ l, slotActs i selected x.rt s = false) :
    Quieted i l x (l.foldl (scanSlot i selected) x) := by
  induction l generalizing x with
  | nil => exact Quieted.refl i hp
  | cons s l ih =>
    obtain ⟨hs, hl⟩ := nodup_cons.mp hl
    have hhead := ((scanSlot_cases selected hp).resolve_left fun h => by
      rw [hq s mem_cons_self] at h
      cases h.1).2
    refine hhead.cons hs (ih hl hhead.progress fun t ht => ?_)
    have hts : t ∉ [s] := by
      rw [mem_singleton]
      rintro rfl
      exact hs ht
    rw [hhead.frame, slotActs_withSig _ _ _ _ _ (hhead.others t hts)]
    exact hq t (mem_cons_of_mem s ht)

theorem foldl_scanSlot_acts (hl : l.Nodup) (ha : ∃ s ∈ l, slotActs i selected x.rt s = true) :
    (l.foldl (scanSlot i selected) x).scan.progress = true := by
  induction l generalizing x with
  | nil =>
    obtain ⟨s, hs, -⟩ := ha
    cases hs
  | cons s l ih =>
    cases hp : x.scan.progress with
    | true => exact foldl_scanSlot_scan i selected l _ (scanSlot_scan i selected x s hp)
    | false =>
      rcases scanSlot_cases selected hp with ⟨-, hs⟩ | ⟨hs, hhead⟩
      · exact foldl_scanSlot_scan i selected l _ hs
      obtain ⟨t, ht, hact⟩ := ha
      have hts : t ≠ s := by
        rintro rfl
        rw [hs] at hact
        cases hact
      refine ih (nodup_cons.mp hl).2 ⟨t, (mem_cons.mp ht).resolve_left hts, ?_⟩
      rw [hhead.frame, slotActs_withSig _ _ _ _ _ (hhead.others t (by simpa using hts))]
      exact hact

theorem rotation_injective (start : C.Slot) : Injective fun k : C.Slot =>
      (⟨(start + k) % C.nslot, Nat.mod_lt _ C.nslot_pos⟩ : C.Slot) := by
  intro k k' h
  have hmod : Nat.ModEq C.nslot (start + k) (start + k') := congrArg Fin.val h
  have hk : Nat.ModEq C.nslot k k' := Nat.ModEq.add_left_cancel' _ hmod
  exact Fin.ext (hk.eq_of_lt_of_lt k.isLt k'.isLt)

theorem rotation_nodup (start : C.Slot) : (rotation start).Nodup :=
  (nodup_finRange C.nslot).map (rotation_injective start)

theorem mem_rotation (start s : C.Slot) : s ∈ rotation start := by
  obtain ⟨k, hk⟩ := Finite.surjective_of_injective (rotation_injective start) s
  exact mem_map.mpr ⟨k, mem_finRange k, hk⟩

/-! ## The report of a scan -/

def scanPass (i : ScanInput C) (sv : Service C) (rt : Runtime C) : ScanState C :=
  scanSlots i (scanStart i sv rt).1 (scanStart i sv rt).2 rt

theorem scanBlocked_eq (i : ScanInput C) (sv : Service C) (rt : Runtime C) :
    ∃ sv', scanBlocked i sv rt = if (scanPass i sv rt).scan.consoleWait then
      { scanPass i sv rt with sv := sv' }
      else consolePollInterrupts i { scanPass i sv rt with sv := sv' } := by
  unfold scanBlocked scanPass
  dsimp only
  generalize scanSlots i (scanStart i sv rt).1 (scanStart i sv rt).2 rt = x
  split
  · exact ⟨_, rfl⟩
  · exact ⟨x.sv, rfl⟩

def interruptActs (i : ScanInput C) (rt : Runtime C) : Prop :=
  i.interrupt ≠ none ∧ ∀ s, consoleWaits i rt s = false

/-- Whether a pass acts on anything, told from the state before it. -/
def ScanActs (i : ScanInput C) (sv : Service C) (rt : Runtime C) : Prop :=
  (∃ s, slotActs i (scanStart i sv rt).1 rt s = true) ∨ interruptActs i rt

variable {sv : Service C}

theorem scanPass_quiet (h : ∀ s, slotActs i (scanStart i sv rt).1 rt s = false) :
    Quieted i (rotation (scanFrom (scanStart i sv rt).1 (scanStart i sv rt).2))
      ⟨{ rt with sched.port := i.port }, (scanStart i sv rt).2, {}⟩ (scanPass i sv rt) :=
  foldl_scanSlot_quiet (rotation_nodup _) rfl fun s _ => h s

theorem scanPass_consoleWait (h : ∀ s, slotActs i (scanStart i sv rt).1 rt s = false) :
    (scanPass i sv rt).scan.consoleWait = false ↔ ∀ s, consoleWaits i rt s = false := by
  rw [(scanPass_quiet h).console]
  simp only [Bool.false_or, any_eq_false, Bool.not_eq_true]
  constructor
  · intro hall s
    exact hall s (mem_rotation _ s)
  · intro hall s _
    exact hall s

theorem scanBlocked_progress (i : ScanInput C) (sv : Service C) (rt : Runtime C) :
    (scanBlocked i sv rt).scan.progress = true ↔ ScanActs i sv rt := by
  obtain ⟨sv', hx⟩ := scanBlocked_eq i sv rt
  rw [hx]
  by_cases ha : ∃ s, slotActs i (scanStart i sv rt).1 rt s = true
  · obtain ⟨s, hs⟩ := ha
    have hprogress : (scanPass i sv rt).scan.progress = true :=
      foldl_scanSlot_acts (rotation_nodup _) ⟨s, mem_rotation _ s, hs⟩
    refine iff_of_true ?_ (.inl ⟨s, hs⟩)
    split
    · exact hprogress
    · unfold consolePollInterrupts
      split
      · exact hprogress
      · rfl
  · have hquiet : ∀ s, slotActs i (scanStart i sv rt).1 rt s = false := by simpa using ha
    have hprogress := (scanPass_quiet hquiet).progress
    rw [show ScanActs i sv rt ↔ interruptActs i rt from or_iff_right ha, interruptActs,
      ← scanPass_consoleWait hquiet]
    cases hc : (scanPass i sv rt).scan.consoleWait with
    | true => simp [hprogress]
    | false =>
      cases hi : i.interrupt with
      | none => simp [consolePollInterrupts, hi, hprogress]
      | some sig => simp [consolePollInterrupts, hi, Scan.made]

/-- A scan that acts on nothing leaves all but signal records as they are, and reports the least of
the deadlines it notes. -/
theorem scanBlocked_quiet (h : ¬ ScanActs i sv rt) : (scanBlocked i sv rt).rt.own = rt.own ∧
      (scanBlocked i sv rt).rt.sched = { rt.sched with port := i.port } ∧
      ∀ d, (scanBlocked i sv rt).scan.nextDeadline ≤ d ↔
        uint64Max ≤ d ∨ ∃ s n, SlotNotes i rt s n ∧ n ≤ d := by
  have hquiet : ∀ s, slotActs i (scanStart i sv rt).1 rt s = false := by
    have := fun ha => h (.inl ha)
    simpa using this
  have hpass := scanPass_quiet hquiet
  have hsame : ∃ sv', scanBlocked i sv rt = { scanPass i sv rt with sv := sv' } := by
    obtain ⟨sv', hx⟩ := scanBlocked_eq i sv rt
    refine ⟨sv', ?_⟩
    rw [hx]
    split
    · rfl
    rename_i hc
    have hnone : i.interrupt = none := by
      by_contra hi
      refine h (.inr ⟨hi, ?_⟩)
      rw [← scanPass_consoleWait hquiet]
      simpa using hc
    simp only [consolePollInterrupts, hnone]
  obtain ⟨sv', hx⟩ := hsame
  rw [hx]
  refine ⟨?_, ?_, fun d => ?_⟩
  · rw [hpass.frame]
  · rw [hpass.frame]
  rw [hpass.deadline d]
  refine or_congr_right ⟨?_, ?_⟩
  · rintro ⟨s, -, n, hn, hd⟩
    exact ⟨s, n, hn, hd⟩
  · rintro ⟨s, n, hn, hd⟩
    exact ⟨s, mem_rotation _ s, n, hn, hd⟩

def ParkedUntil (rt : Runtime C) (s : C.Slot) (d : Nat) : Prop :=
  rt.own.alive s = true ∧ (rt.sched.ctl s).stopped = false ∧ rt.sched.runnable s = false ∧
    ((rt.sched.ctl s).wait = .timer d ∨
      d ≠ 0 ∧ ∃ uaddr woken, (rt.sched.ctl s).wait = .futex uaddr d woken)

/-- No sleep or futex wait has to be served now, and the deadline of a woken waiter, which a pass
over another class does not note, is not the earliest. -/
def OrdinaryIdle (i : ScanInput C) (rt : Runtime C) : Prop :=
  ∀ s d, ParkedUntil rt s d → i.now < d ∧
    ∀ uaddr, (rt.sched.ctl s).wait = .futex uaddr d true →
      uint64Max ≤ d ∨ ∃ t n, SlotNotes i rt t n ∧ n ≤ d

theorem ParkedUntil.scanned {d : Nat} (h : ParkedUntil rt s d)
    (hq : slotActs i selected rt s = false) : slotScanned i rt s = true := by
  obtain ⟨ha, hs, -, -⟩ := h
  have hview : viewFails i rt s = false := by
    by_contra hv
    simp [slotActs, ha, hv] at hq
  simp [slotScanned, ha, hs, hview]

theorem ParkedUntil.unserved {d : Nat} (h : ParkedUntil rt s d)
    (hq : slotActs i (some .ordinary) rt s = false) : (rt.sched.ctl s).wait.awaits i.now d := by
  have hscanned := h.scanned hq
  obtain ⟨ha, hs, hr, hw⟩ := h
  have hservice : serviceActs i (some .ordinary) rt s = false := by
    simp only [slotScanned, ha, hs, Bool.true_and, Bool.not_false, Bool.and_true,
      Bool.not_eq_true'] at hscanned
    have hboth : signalActs i rt s (alarmed i rt s) = false ∧
        serviceActs i (some .ordinary) rt s = false := by
      simpa [slotActs, ha, hs, hr, hscanned] using hq
    exact hboth.2
  rcases hw with hw | ⟨hd, uaddr, woken, hw⟩
  · rw [hw]
    have hlt : i.now < d := by simpa [serviceActs, hw, waitServiceClass, retryActs] using hservice
    exact ⟨hlt, .inl rfl⟩
  · rw [hw]
    have hboth : woken = false ∧ i.now < d := by
      simpa [serviceActs, hw, waitServiceClass, retryActs, hd] using hservice
    exact ⟨hboth.2, .inr ⟨uaddr, by rw [hboth.1]⟩⟩

/-- A scan without progress leaves no sleep or timed futex wait due and reports a deadline no later
than theirs, exactly when it serves the ordinary class, acts on something, or has nothing of the
ordinary class to serve. -/
theorem scanBlocked_deadlines_iff (i : ScanInput C) (sv : Service C) (rt : Runtime C) :
    ((scanBlocked i sv rt).scan.progress = false → ∀ s d, ParkedUntil (scanBlocked i sv rt).rt s d →
        i.now < d ∧ (scanBlocked i sv rt).scan.nextDeadline ≤ d) ↔
      (scanStart i sv rt).1 = some .ordinary ∨ ScanActs i sv rt ∨ OrdinaryIdle i rt := by
  by_cases hacts : ScanActs i sv rt
  · refine iff_of_true (fun hp => ?_) (.inr (.inl hacts))
    rw [(scanBlocked_progress i sv rt).mpr hacts] at hp
    cases hp
  have hprogress : (scanBlocked i sv rt).scan.progress = false := by
    rw [← Bool.not_eq_true, scanBlocked_progress]
    exact hacts
  have hquiet : ∀ s, slotActs i (scanStart i sv rt).1 rt s = false := by
    have := fun ha => hacts (.inl ha)
    simpa using this
  obtain ⟨hown, hsched, hdeadline⟩ := scanBlocked_quiet hacts
  have hparked : ∀ s d, ParkedUntil (scanBlocked i sv rt).rt s d ↔ ParkedUntil rt s d := by
    intro s d
    unfold ParkedUntil
    rw [hown, hsched]
  simp only [hprogress, true_imp_iff, hparked, hdeadline, hacts, false_or]
  constructor
  · intro h
    right
    intro s d hs
    exact ⟨(h s d hs).1, fun _ _ => (h s d hs).2⟩
  · rintro (hord | hidle) s d hs
    · have hawaits := hs.unserved (by rw [← hord]; exact hquiet s)
      exact ⟨hawaits.1, .inr ⟨s, d, ⟨hs.scanned (hquiet s), .inr hawaits⟩, le_rfl⟩⟩
    obtain ⟨hlt, hwoken⟩ := hidle s d hs
    refine ⟨hlt, ?_⟩
    have hnotes : ∀ w : Wait, (rt.sched.ctl s).wait = w → w.awaits i.now d →
        ∃ t n, SlotNotes i rt t n ∧ n ≤ d := fun w hw haw =>
      ⟨s, d, ⟨hs.scanned (hquiet s), .inr (by rw [hw]; exact haw)⟩, le_rfl⟩
    rcases hs.2.2.2 with hw | ⟨-, uaddr, woken, hw⟩
    · exact .inr (hnotes _ hw ⟨hlt, .inl rfl⟩)
    · cases woken with
      | true => exact hwoken uaddr hw
      | false => exact .inr (hnotes _ hw ⟨hlt, .inr ⟨uaddr, rfl⟩⟩)

/-- A task asleep until time 5 next to one that waits for a file. -/
def sleeperBesideFile : Runtime smallConfig :=
  { resetRuntime smallConfig with
    own.alive := fun s => s == 0 || s == 1
    own.mm := fun _ => some 0
    sched.host := fun _ => .parked
    sched.ctl := fun s => if s = 0 then { wait := .hostfs } else { wait := .timer 5 } }

/-- At time 10 the scan serves the file, whose request is not complete, and reports neither progress
nor a deadline. -/
theorem sleeperBesideFile_overslept :
    let x := scanBlocked { now := 10 } (blockedFairReset smallConfig) sleeperBesideFile
    x.scan.progress = false ∧ ¬ ∀ s d, ParkedUntil x.rt s d → 10 < d ∧ x.scan.nextDeadline ≤ d := by
  intro x
  have hx : x.scan.progress = false ∧ x.rt.own.alive 1 = true ∧
      (x.rt.sched.ctl 1).stopped = false ∧ x.rt.sched.runnable 1 = false ∧
      (x.rt.sched.ctl 1).wait = .timer 5 := by
    decide +kernel
  obtain ⟨hp, ha, hs, hr, hw⟩ := hx
  refine ⟨hp, fun h => ?_⟩
  have hlt := (h 1 5 ⟨ha, hs, hr, .inl hw⟩).1
  omega

end Lxp
