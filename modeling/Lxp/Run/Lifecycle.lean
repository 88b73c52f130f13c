import Lxp.Run.Objects

/-!
# Slot incarnations and the native task lifecycle

A slot reference is current while its generation is the slot's and the process is alive.  The
lifecycle requests are the only callers of the port's task callbacks; a callback that fails turns
into an exit of the task it was about.
-/

open Function List

namespace Lxp

variable {C : Config}

/-! ## Slot references -/

def slotRefAt (o : Own C) (s : C.Slot) : SlotRef C := ⟨s, o.generation s⟩

def slotRefIsCurrent (o : Own C) (r : SlotRef C) : Bool :=
  r.generation != 0 && o.generation r.index == r.generation && o.alive r.index

/-- A null reference is never current. -/
def refIsCurrent (o : Own C) (r : Option (SlotRef C)) : Bool := r.any (slotRefIsCurrent o)

def deferredSlotReassign (s : C.Slot) (rt : Runtime C) : Runtime C :=
  { rt with
    own.generation := update rt.own.generation s (rt.own.generation s + 1)
    sched.deferred := update rt.sched.deferred s .idle }

/-! ## Intents -/

def modifyCtl (s : C.Slot) (f : Control → Control) (rt : Runtime C) : Runtime C :=
  { rt with sched.ctl := update rt.sched.ctl s (f (rt.sched.ctl s)) }

def primarySlotMark (s : C.Slot) (rt : Runtime C) : Runtime C :=
  { rt with sched.marked := update rt.sched.marked s true }

def primarySlotClear (s : C.Slot) (rt : Runtime C) : Runtime C :=
  { rt with sched.marked := update rt.sched.marked s false }

/-- Only an idle record takes an intent or a wait; an exit overrides every intent. -/
def intentBegin (s : C.Slot) (i : Intent) (rt : Runtime C) : Option (Runtime C) :=
  if (rt.sched.ctl s).intent = .none ∧ (rt.sched.ctl s).wait = .none then
    some (modifyCtl s (fun c => { c with intent := i }) rt)
  else none

def intentClear (s : C.Slot) (rt : Runtime C) : Runtime C :=
  modifyCtl s (fun c => { c with intent := .none }) rt

def waitBegin (s : C.Slot) (w : Wait) (rt : Runtime C) : Option (Runtime C) :=
  if (rt.sched.ctl s).intent = .none ∧ (rt.sched.ctl s).wait = .none then
    some (modifyCtl s (fun c => { c with wait := w }) rt)
  else none

def waitFinish (s : C.Slot) (rt : Runtime C) : Runtime C :=
  modifyCtl s (fun c => { c with wait := .none }) rt

def exitSlot (s : C.Slot) (group : Bool) (status : Nat) (reason : ExitReason)
    (rt : Runtime C) : Runtime C :=
  primarySlotMark s (modifyCtl s (fun c => { c with
    exitStatus := status
    exitReason := reason
    exitSignal := 0
    intent := .exit group }) rt)

def slotTransitionFailed (s : C.Slot) (rt : Runtime C) : Runtime C :=
  if rt.own.alive s then exitSlot s false 127 .hostTransition rt else rt

/-! ## Port callbacks -/

def asked (s : C.Slot) (request : TaskRequest) (ok : Bool) (rt : Runtime C) : Runtime C :=
  { rt with sched.asks := ⟨s, request, ok⟩ :: rt.sched.asks }

def callAbort (s : C.Slot) (rt : Runtime C) : Bool × Runtime C :=
  let ok := rt.sched.port.abort.headD true
  (ok, asked s .abort ok { rt with sched.port.abort := rt.sched.port.abort.tail })

def callPark (s : C.Slot) (rt : Runtime C) : Bool × Runtime C :=
  let ok := rt.sched.port.park.headD true
  (ok, asked s .park ok { rt with sched.port.park := rt.sched.port.park.tail })

def callResume (s : C.Slot) (parked : Bool) (rt : Runtime C) : Bool × Runtime C :=
  let ok := rt.sched.port.resume.headD true
  (ok, asked s (.resume parked) ok { rt with sched.port.resume := rt.sched.port.resume.tail })

def callLaunch (s : C.Slot) (rt : Runtime C) : Bool × Runtime C :=
  let ok := rt.sched.port.launch.headD true
  (ok, asked s .launch ok { rt with sched.port.launch := rt.sched.port.launch.tail })

def callMap (rt : Runtime C) : Bool × Runtime C :=
  (rt.sched.port.map.headD true, { rt with sched.port.map := rt.sched.port.map.tail })

def callPublish (rt : Runtime C) : Bool × Runtime C :=
  (rt.sched.port.publish.headD true, { rt with sched.port.publish := rt.sched.port.publish.tail })

def setHost (s : C.Slot) (h : HostState) (rt : Runtime C) : Runtime C :=
  { rt with sched.host := update rt.sched.host s h }

def setRunnable (s : C.Slot) (b : Bool) (rt : Runtime C) : Runtime C :=
  { rt with sched.runnable := update rt.sched.runnable s b }

def setR0 (s : C.Slot) (r0 : Int) (rt : Runtime C) : Runtime C :=
  { rt with sched.r0 := update rt.sched.r0 s r0 }

/-! ## Lifecycle requests -/

/-- A failed abort leaves the native task in place, so its runnable view and every resource stay. -/
def abortSlot (s : C.Slot) (rt : Runtime C) : Bool × Runtime C :=
  match callAbort s (setHost s .exiting rt) with
  | (true, rt') => (true, setRunnable s false (setHost s .dead rt'))
  | (false, rt') =>
    (false, slotTransitionFailed s
      (setRunnable s (rt.sched.host s == .running) (setHost s .failed rt')))

def parkSlot (s : C.Slot) (rt : Runtime C) : Bool × Runtime C :=
  match rt.sched.host s with
  | .parked => (true, rt)
  | .running =>
    match callPark s (setHost s .parking rt) with
    | (true, rt) => (true, setRunnable s false (setHost s .parked rt))
    | (false, rt) =>
      (false, slotTransitionFailed s (abortSlot s (setRunnable s true (setHost s .running rt))).2)
  | _ => (false, slotTransitionFailed s rt)

def resumable (h : HostState) : Bool := h == .parked || h == .free || h == .dead

def Intent.isExit : Intent → Bool
  | .exit _ => true
  | _ => false

/-- An intent stays unless it gives way to an exit. -/
def Intent.Kept (i i' : Intent) : Prop := i' = i ∨ i'.isExit = true

theorem Intent.Kept.refl (i : Intent) : i.Kept i := Or.inl rfl

theorem Intent.Kept.isExit {i i' : Intent} (h : i.Kept i') (hi : i.isExit = true) :
    i'.isExit = true := by
  rcases h with rfl | h
  · exact hi
  · exact h

theorem Intent.Kept.trans {i i' i'' : Intent} (h : i.Kept i') (h' : i'.Kept i'') : i.Kept i'' := by
  rcases h' with rfl | h'
  · exact h
  · exact Or.inr h'

def duringResume (h : HostState) : HostState := if h = .parked then .resuming else .starting

def applyResume (s : C.Slot) (r0 : Int) (rt : Runtime C) : Bool × Runtime C :=
  if rt.own.alive s && !(rt.sched.ctl s).intent.isExit && resumable (rt.sched.host s) then
    match callResume s (rt.sched.host s == .parked)
        (setRunnable s true (setHost s (duringResume (rt.sched.host s)) rt)) with
    | (true, rt') => (true, setR0 s r0 (setHost s .running rt'))
    | (false, rt') =>
      (false, slotTransitionFailed s
        (abortSlot s (setRunnable s false (setHost s (rt.sched.host s) rt'))).2)
  else (false, rt)

def resumeSlot (s : C.Slot) (r0 : Int) (rt : Runtime C) : Bool × Runtime C :=
  if (rt.sched.ctl s).stopped then (false, rt) else applyResume s r0 rt

/-- Job control owns whether the task may run: a stopped one keeps the result until SIGCONT. -/
def completeSlot (r : SlotRef C) (r0 : Int) (rt : Runtime C) : Bool × Runtime C :=
  if slotRefIsCurrent rt.own r && (rt.own.mm r.index).isSome &&
      rt.sched.host r.index == .parked then
    if (rt.sched.ctl r.index).stopped then
      if (rt.sched.ctl r.index).stopKind = .parked then
        (true, modifyCtl r.index (fun c => { c with stopKind := .ready, stopR0 := r0 }) rt)
      else (false, rt)
    else resumeSlot r.index r0 rt
  else (false, rt)

def launchSlot (s : C.Slot) (rt : Runtime C) : Bool × Runtime C :=
  if rt.sched.host s = .free ∨ rt.sched.host s = .dead then
    match callLaunch s (setRunnable s true (setHost s .starting rt)) with
    | (true, rt) => (true, setHost s .running rt)
    | (false, rt) => (false, slotTransitionFailed s (setRunnable s false (setHost s .dead rt)))
  else (false, rt)

/-- A clear request first, then one map per device range; a slot without ranges needs no callback on
a port that has none. -/
def mapRanges : List (Nat × Nat) → Runtime C → Bool × Runtime C
  | [], rt => (true, rt)
  | _ :: ms, rt =>
    match callMap rt with
    | (true, rt) => mapRanges ms rt
    | (false, rt) => (false, (callMap rt).2)

def restoreMmMaps (maps : List (Nat × Nat)) (rt : Runtime C) : Bool × Runtime C :=
  if C.mapDevice then
    match callMap rt with
    | (true, rt) => mapRanges maps rt
    | (false, rt) => (false, rt)
  else (maps.isEmpty, rt)

def clearDeviceMaps (rt : Runtime C) : Runtime C :=
  if C.mapDevice then (callMap rt).2 else rt

/-! ## What a lifecycle request leaves alone -/

/-- Only the scheduling columns change, an intent gives way to an exit only, and results of the port
are only read. -/
structure SchedOnly (rt rt' : Runtime C) : Prop where
  frame : rt' = { rt with sched := rt'.sched }
  intent : ∀ t, (rt.sched.ctl t).intent.Kept (rt'.sched.ctl t).intent
  abort : rt'.sched.port.abort <:+ rt.sched.port.abort
  launch : rt'.sched.port.launch <:+ rt.sched.port.launch
  resumeSp : rt'.sched.resumeSp = rt.sched.resumeSp

namespace SchedOnly

variable {rt rt' rt'' : Runtime C}

theorem of_eq (hframe : rt' = { rt with sched := rt'.sched })
    (hctl : rt'.sched.ctl = rt.sched.ctl) (hport : rt'.sched.port = rt.sched.port)
    (hsp : rt'.sched.resumeSp = rt.sched.resumeSp) : SchedOnly rt rt' :=
  ⟨hframe, fun t => by rw [hctl]; exact .refl _, by rw [hport], by rw [hport], hsp⟩

theorem refl (rt : Runtime C) : SchedOnly rt rt := of_eq rfl rfl rfl rfl

section

variable (h : SchedOnly rt rt')
include h

theorem trans (h' : SchedOnly rt' rt'') : SchedOnly rt rt'' := by
  refine ⟨?_, fun t => (h.intent t).trans (h'.intent t), h'.abort.trans h.abort,
    h'.launch.trans h.launch, h'.resumeSp.trans h.resumeSp⟩
  rw [h'.frame, h.frame]

theorem own : rt'.own = rt.own := by rw [h.frame]
theorem sig : rt'.sig = rt.sig := by rw [h.frame]
theorem ram : rt'.ram = rt.ram := by rw [h.frame]
theorem log : rt'.log = rt.log := by rw [h.frame]

end

end SchedOnly

variable (s : C.Slot) (rt : Runtime C)

theorem setHost_schedOnly (h : HostState) : SchedOnly rt (setHost s h rt) :=
  SchedOnly.of_eq rfl rfl rfl rfl

theorem setRunnable_schedOnly (b : Bool) : SchedOnly rt (setRunnable s b rt) :=
  SchedOnly.of_eq rfl rfl rfl rfl

theorem setR0_schedOnly (r0 : Int) : SchedOnly rt (setR0 s r0 rt) := SchedOnly.of_eq rfl rfl rfl rfl

theorem primarySlotMark_schedOnly : SchedOnly rt (primarySlotMark s rt) :=
  SchedOnly.of_eq rfl rfl rfl rfl

theorem callAbort_schedOnly : SchedOnly rt (callAbort s rt).2 :=
  ⟨rfl, fun _ => Intent.Kept.refl _, tail_suffix _, suffix_refl _, rfl⟩

theorem callLaunch_schedOnly : SchedOnly rt (callLaunch s rt).2 :=
  ⟨rfl, fun _ => Intent.Kept.refl _, suffix_refl _, tail_suffix _, rfl⟩

theorem callPark_schedOnly : SchedOnly rt (callPark s rt).2 :=
  ⟨rfl, fun _ => Intent.Kept.refl _, suffix_refl _, suffix_refl _, rfl⟩

theorem callResume_schedOnly (parked : Bool) : SchedOnly rt (callResume s parked rt).2 :=
  ⟨rfl, fun _ => Intent.Kept.refl _, suffix_refl _, suffix_refl _, rfl⟩

theorem callMap_schedOnly : SchedOnly rt (callMap rt).2 :=
  ⟨rfl, fun _ => Intent.Kept.refl _, suffix_refl _, suffix_refl _, rfl⟩

theorem callPublish_schedOnly : SchedOnly rt (callPublish rt).2 :=
  ⟨rfl, fun _ => Intent.Kept.refl _, suffix_refl _, suffix_refl _, rfl⟩

theorem modifyCtl_schedOnly {f : Control → Control}
    (hf : (rt.sched.ctl s).intent.Kept (f (rt.sched.ctl s)).intent) :
    SchedOnly rt (modifyCtl s f rt) := by
  refine ⟨rfl, fun t => ?_, suffix_refl _, suffix_refl _, rfl⟩
  show (rt.sched.ctl t).intent.Kept (update rt.sched.ctl s _ t).intent
  by_cases hts : t = s
  · subst hts
    rw [update_self]
    exact hf
  · rw [update_of_ne hts]
    exact .refl _

theorem waitFinish_schedOnly :
    SchedOnly rt (waitFinish s rt) := modifyCtl_schedOnly s rt (Intent.Kept.refl _)

theorem exitSlot_schedOnly (group : Bool) (status : Nat) (reason : ExitReason) :
    SchedOnly rt (exitSlot s group status reason rt) :=
  (modifyCtl_schedOnly s rt (Or.inr rfl)).trans (primarySlotMark_schedOnly s _)

theorem exitSlot_exits (group : Bool) (status : Nat) (reason : ExitReason) :
    ((exitSlot s group status reason rt).sched.ctl s).intent.isExit = true := by
  simp [exitSlot, primarySlotMark, modifyCtl, Intent.isExit]

theorem slotTransitionFailed_schedOnly : SchedOnly rt (slotTransitionFailed s rt) := by
  unfold slotTransitionFailed
  split
  · exact exitSlot_schedOnly s rt _ _ _
  · exact .refl rt

theorem abortSlot_schedOnly : SchedOnly rt (abortSlot s rt).2 := by
  unfold abortSlot
  have hcall := (setHost_schedOnly s rt .exiting).trans (callAbort_schedOnly s _)
  generalize callAbort s (setHost s .exiting rt) = r at hcall ⊢
  obtain ⟨_ | _, rt1⟩ := r
  · exact (hcall.trans (setHost_schedOnly s rt1 .failed)).trans
      ((setRunnable_schedOnly s _ _).trans (slotTransitionFailed_schedOnly s _))
  · exact (hcall.trans (setHost_schedOnly s rt1 .dead)).trans (setRunnable_schedOnly s _ _)

/-- A live task whose native task cannot be stopped is to exit. -/
theorem abortSlot_failed (hs : rt.own.alive s = true) (h : (abortSlot s rt).1 = false) :
    ((abortSlot s rt).2.sched.ctl s).intent.isExit = true := by
  unfold abortSlot at h ⊢
  have hcall := (setHost_schedOnly s rt .exiting).trans (callAbort_schedOnly s _)
  generalize callAbort s (setHost s .exiting rt) = r at h hcall ⊢
  obtain ⟨_ | _, rt1⟩ := r
  · have halive : (setRunnable s (rt.sched.host s == .running)
        (setHost s .failed rt1)).own.alive s = true := by
      rw [← hs, ← hcall.own]
      rfl
    simp only [slotTransitionFailed, halive]
    exact exitSlot_exits s _ _ _ _
  · cases h

theorem abortSlot_ok (h : ∀ b ∈ rt.sched.port.abort, b = true) : (abortSlot s rt).1 = true := by
  have hcall : (callAbort s (setHost s .exiting rt)).1 = true := by
    show rt.sched.port.abort.headD true = true
    cases hl : rt.sched.port.abort with
    | nil => rfl
    | cons b bs => exact h b (by rw [hl]; exact mem_cons_self)
  unfold abortSlot
  generalize callAbort s (setHost s .exiting rt) = r at hcall ⊢
  obtain ⟨_ | _, rt1⟩ := r
  · cases hcall
  · rfl

theorem abortSlot_host (h : (abortSlot s rt).1 = true) :
    (abortSlot s rt).2.sched.host s = .dead := by
  unfold abortSlot at h ⊢
  generalize callAbort s (setHost s .exiting rt) = r at h ⊢
  obtain ⟨_ | _, rt1⟩ := r
  · cases h
  · exact update_self _ _ _

theorem parkSlot_schedOnly : SchedOnly rt (parkSlot s rt).2 := by
  unfold parkSlot
  split
  · exact .refl rt
  · have hcall := (setHost_schedOnly s rt .parking).trans (callPark_schedOnly s _)
    generalize callPark s (setHost s .parking rt) = r at hcall ⊢
    obtain ⟨_ | _, rt1⟩ := r
    · exact (hcall.trans (setHost_schedOnly s rt1 .running)).trans
        ((setRunnable_schedOnly s _ _).trans
          ((abortSlot_schedOnly s _).trans (slotTransitionFailed_schedOnly s _)))
    · exact (hcall.trans (setHost_schedOnly s rt1 .parked)).trans (setRunnable_schedOnly s _ _)
  · exact slotTransitionFailed_schedOnly s rt

theorem applyResume_schedOnly (r0 : Int) : SchedOnly rt (applyResume s r0 rt).2 := by
  unfold applyResume
  split
  · have hcall := ((setHost_schedOnly s rt (duringResume (rt.sched.host s))).trans
      (setRunnable_schedOnly s _ true)).trans
        (callResume_schedOnly s _ (rt.sched.host s == .parked))
    generalize callResume s _ _ = r at hcall ⊢
    obtain ⟨_ | _, rt1⟩ := r
    · exact (hcall.trans (setHost_schedOnly s rt1 _)).trans ((setRunnable_schedOnly s _ _).trans
          ((abortSlot_schedOnly s _).trans (slotTransitionFailed_schedOnly s _)))
    · exact (hcall.trans (setHost_schedOnly s rt1 .running)).trans (setR0_schedOnly s _ r0)
  · exact .refl rt

theorem resumeSlot_schedOnly (r0 : Int) : SchedOnly rt (resumeSlot s r0 rt).2 := by
  unfold resumeSlot
  split
  · exact .refl rt
  · exact applyResume_schedOnly s rt r0

theorem completeSlot_schedOnly (r : SlotRef C) (r0 : Int) :
    SchedOnly rt (completeSlot r r0 rt).2 := by
  unfold completeSlot
  split
  · split
    · split
      · exact modifyCtl_schedOnly r.index rt (f := fun c =>
          { c with stopKind := .ready, stopR0 := r0 })
          (Intent.Kept.refl _)
      · exact .refl rt
    · exact resumeSlot_schedOnly _ rt r0
  · exact .refl rt

theorem launchSlot_schedOnly : SchedOnly rt (launchSlot s rt).2 := by
  unfold launchSlot
  split
  · have hcall := ((setHost_schedOnly s rt .starting).trans (setRunnable_schedOnly s _ true)).trans
      (callLaunch_schedOnly s _)
    generalize callLaunch s _ = r at hcall ⊢
    obtain ⟨_ | _, rt1⟩ := r
    · exact (hcall.trans (setHost_schedOnly s rt1 .dead)).trans
        ((setRunnable_schedOnly s _ _).trans (slotTransitionFailed_schedOnly s _))
    · exact hcall.trans (setHost_schedOnly s rt1 .running)
  · exact .refl rt

theorem mapRanges_schedOnly (ms : List (Nat × Nat)) : SchedOnly rt (mapRanges ms rt).2 := by
  induction ms generalizing rt with
  | nil => exact .refl rt
  | cons m ms ih =>
    unfold mapRanges
    have hcall := callMap_schedOnly rt
    generalize callMap rt = r at hcall ⊢
    obtain ⟨_ | _, rt1⟩ := r
    · exact hcall.trans (callMap_schedOnly rt1)
    · exact hcall.trans (ih rt1)

theorem restoreMmMaps_schedOnly (ms : List (Nat × Nat)) : SchedOnly rt (restoreMmMaps ms rt).2 := by
  unfold restoreMmMaps
  split
  · have hcall := callMap_schedOnly rt
    generalize callMap rt = r at hcall ⊢
    obtain ⟨_ | _, rt1⟩ := r
    · exact hcall
    · exact hcall.trans (mapRanges_schedOnly rt1 ms)
  · exact .refl rt

theorem clearDeviceMaps_schedOnly : SchedOnly rt (clearDeviceMaps rt) := by
  unfold clearDeviceMaps
  split
  · exact callMap_schedOnly rt
  · exact .refl rt

end Lxp
