import Lxp.Run.Step

/-!
# The native task behind a slot

The coordinator knows a guest's native task only through the requests it makes: the port answers
each of them with the transition carried out or with its prior state intact.  What the coordinator
records of a slot follows that task through every sequence of requests, however often an abort is
refused.
-/

open Function List

namespace Lxp

variable {C : Config}

/-! ## The port's side -/

inductive Native where
  | none
  | parked
  | running
deriving DecidableEq

/-- A refused request leaves the task as it is; a refused launch has made none. -/
def Native.after (n : Native) : TaskRequest → Bool → Native
  | .launch, true => .running
  | .launch, false => .none
  | .resume _, true => .running
  | .park, true => .parked
  | .abort, true => .none
  | _, false => n

def native (s : C.Slot) : List (Ask C) → Native
  | [] => .none
  | a :: asks => if a.slot = s then (native s asks).after a.request a.ok else native s asks

/-- A launch needs a slot without a task; a resume a parked one, or a slot without one. -/
def TaskRequest.startsFrom : TaskRequest → Native → Prop
  | .launch, n => n = .none
  | .resume true, n => n = .parked
  | .resume false, n => n = .none
  | .park, _ => True
  | .abort, _ => True

def AsksSafe : List (Ask C) → Prop
  | [] => True
  | a :: asks => a.request.startsFrom (native a.slot asks) ∧ AsksSafe asks

theorem native_append_of_ne {s t : C.Slot} (h : t ≠ s) {new : List (Ask C)}
    (hnew : ∀ a ∈ new, a.slot = s) (asks : List (Ask C)) :
    native t (new ++ asks) = native t asks := by
  induction new with
  | nil => rfl
  | cons a new ih =>
    have ha := hnew a mem_cons_self
    simp only [cons_append, native]
    rw [if_neg (by rw [ha]; exact h.symm)]
    exact ih fun b hb => hnew b (mem_cons_of_mem a hb)

theorem native_cons_self (s : C.Slot) (r : TaskRequest) (ok : Bool) (asks : List (Ask C)) :
    native s (⟨s, r, ok⟩ :: asks) = (native s asks).after r ok := by
  simp [native]

/-- Whatever was asked so far was safe when it was asked. -/
theorem AsksSafe.suffix {asks asks' : List (Ask C)} (h : AsksSafe asks) (hs : asks' <:+ asks) :
    AsksSafe asks' := by
  induction asks with
  | nil =>
    rw [suffix_nil.mp hs]
    trivial
  | cons a asks ih =>
    rcases suffix_cons_iff.mp hs with rfl | hs
    · exact h
    · exact ih h.2 hs

/-! ## What the coordinator records -/

/-- The task a recorded state stands for.  A failed slot may have any. -/
def TaskTracked (h : HostState) (runnable : Bool) (n : Native) : Prop :=
  match h with
  | .free | .dead => n = .none
  | .parked => n = .parked ∧ runnable = false
  | .running => n = .running
  | _ => True

theorem TaskTracked.withdraw {h : HostState} {b b' : Bool} {n : Native} (ht : TaskTracked h b n)
    (hb : b' = true → b = true) : TaskTracked h b' n := by
  cases h with
  | parked =>
    obtain ⟨hn, rfl⟩ := ht
    exact ⟨hn, Bool.eq_false_iff.mpr fun hb' => Bool.false_ne_true (hb hb')⟩
  | _ => exact ht

structure Tracked (rt : Runtime C) : Prop where
  task : ∀ s, TaskTracked (rt.sched.host s) (rt.sched.runnable s) (native s rt.sched.asks)
  asks : AsksSafe rt.sched.asks

structure Moved (s : C.Slot) (h : HostState) (runnable : Bool) (new : List (Ask C))
    (rt rt' : Runtime C) : Prop where
  host : rt'.sched.host = update rt.sched.host s h
  runnable : rt'.sched.runnable = update rt.sched.runnable s runnable
  asks : rt'.sched.asks = new ++ rt.sched.asks
  slot : ∀ a ∈ new, a.slot = s

structure TasksKept (rt rt' : Runtime C) : Prop where
  host : rt'.sched.host = rt.sched.host
  runnable : rt'.sched.runnable = rt.sched.runnable
  asks : rt'.sched.asks = rt.sched.asks

section Requests

variable {s : C.Slot} {rt rt' rt'' : Runtime C}

variable {new : List (Ask C)}

theorem Tracked.moved (h : Tracked rt) {host : HostState} {runnable : Bool}
    (hm : Moved s host runnable new rt rt')
    (hself : TaskTracked host runnable (native s (new ++ rt.sched.asks)))
    (hsafe : AsksSafe (new ++ rt.sched.asks)) : Tracked rt' := by
  refine ⟨fun t => ?_, by rw [hm.asks]; exact hsafe⟩
  rw [hm.host, hm.runnable, hm.asks]
  by_cases ht : t = s
  · subst ht
    rw [update_self, update_self]
    exact hself
  · rw [update_of_ne ht, update_of_ne ht, native_append_of_ne ht hm.slot]
    exact h.task t

theorem Tracked.kept (h : Tracked rt) (hk : TasksKept rt rt') : Tracked rt' := by
  refine ⟨fun t => ?_, by rw [hk.asks]; exact h.asks⟩
  rw [hk.host, hk.runnable, hk.asks]
  exact h.task t

theorem Moved.kept {host : HostState} {runnable : Bool} (h : Moved s host runnable new rt rt')
    (hk : TasksKept rt' rt'') : Moved s host runnable new rt rt'' :=
  ⟨hk.host.trans h.host, hk.runnable.trans h.runnable, hk.asks.trans h.asks, h.slot⟩

theorem slotTransitionFailed_kept (s : C.Slot) (rt : Runtime C) :
    TasksKept rt (slotTransitionFailed s rt) := by
  unfold slotTransitionFailed
  split <;> exact ⟨rfl, rfl, rfl⟩

namespace Moved

variable {h h' : HostState} {b b' : Bool}

theorem refl (s : C.Slot) (rt : Runtime C) :
    Moved s (rt.sched.host s) (rt.sched.runnable s) [] rt rt :=
  ⟨(update_eq_self _ _).symm, (update_eq_self _ _).symm, rfl, by simp⟩

theorem setHost (hm : Moved s h b new rt rt') (h' : HostState) :
    Moved s h' b new rt (Lxp.setHost s h' rt') := by
  refine { hm with host := ?_ }
  show update rt'.sched.host s h' = _
  rw [hm.host, update_idem]

theorem setRunnable (hm : Moved s h b new rt rt') (b' : Bool) :
    Moved s h b' new rt (Lxp.setRunnable s b' rt') := by
  refine { hm with runnable := ?_ }
  show update rt'.sched.runnable s b' = _
  rw [hm.runnable, update_idem]

/-- A request adds itself and its answer; the recorded state is for the caller to set. -/
theorem ask (hm : Moved s h b new rt rt') {request : TaskRequest} {ok : Bool}
    (hhost : rt''.sched.host = rt'.sched.host) (hrun : rt''.sched.runnable = rt'.sched.runnable)
    (hasks : rt''.sched.asks = ⟨s, request, ok⟩ :: rt'.sched.asks) :
    Moved s h b (⟨s, request, ok⟩ :: new) rt rt'' := by
  refine ⟨hhost.trans hm.host, hrun.trans hm.runnable, ?_, ?_⟩
  · rw [hasks, hm.asks]
    rfl
  · intro a ha
    rcases mem_cons.mp ha with rfl | ha
    · rfl
    · exact hm.slot a ha

end Moved

def abortedHost (ok : Bool) : HostState := if ok then .dead else .failed

theorem abortSlot_moved {h : HostState} {b : Bool} (hm : Moved s h b new rt rt') :
    ∃ ok, Moved s (abortedHost ok) (!ok && h == .running) (⟨s, .abort, ok⟩ :: new) rt
      (abortSlot s rt').2 := by
  have hhost : rt'.sched.host s = h := by rw [hm.host, update_self]
  have hcall : Moved s .exiting b (⟨s, .abort, (callAbort s (setHost s .exiting rt')).1⟩ :: new) rt
      (callAbort s (setHost s .exiting rt')).2 := (hm.setHost .exiting).ask rfl rfl rfl
  unfold abortSlot
  generalize callAbort s (setHost s .exiting rt') = r at hcall ⊢
  obtain ⟨_ | _, rt1⟩ := r
  · refine ⟨false, ?_⟩
    rw [hhost]
    exact ((hcall.setHost .failed).setRunnable _).kept (slotTransitionFailed_kept s _)
  · exact ⟨true, (hcall.setHost .dead).setRunnable false⟩

section

variable (h : Tracked rt)
include h

theorem Tracked.abort (s : C.Slot) : Tracked (abortSlot s rt).2 := by
  obtain ⟨ok, hm⟩ := abortSlot_moved (Moved.refl s rt)
  apply h.moved hm
  · simp only [singleton_append, native_cons_self]
    cases ok <;> simp [abortedHost, TaskTracked, Native.after]
  · exact ⟨trivial, h.asks⟩

theorem Tracked.park (s : C.Slot) : Tracked (parkSlot s rt).2 := by
  unfold parkSlot
  split
  · exact h
  · have hcall : Moved s .parking (rt.sched.runnable s)
        [⟨s, .park, (callPark s (setHost s .parking rt)).1⟩] rt
        (callPark s (setHost s .parking rt)).2 :=
          ((Moved.refl s rt).setHost .parking).ask rfl rfl rfl
    generalize callPark s (setHost s .parking rt) = r at hcall ⊢
    obtain ⟨_ | _, rt1⟩ := r
    · -- The task that would not park is aborted.
      obtain ⟨ok, hm⟩ := abortSlot_moved ((hcall.setHost .running).setRunnable true)
      refine Tracked.kept (h.moved hm ?_ ?_) (slotTransitionFailed_kept s _)
      · simp only [cons_append, native_cons_self]
        cases ok <;> simp [abortedHost, TaskTracked, Native.after]
      · exact ⟨trivial, trivial, h.asks⟩
    · apply h.moved ((hcall.setHost .parked).setRunnable false)
      · simp only [singleton_append, native_cons_self]
        exact ⟨rfl, rfl⟩
      · exact ⟨trivial, h.asks⟩
  · exact h.kept (slotTransitionFailed_kept s rt)

/-- The task a resumable slot stands for is the one its resume mode asks for. -/
theorem Tracked.resumable (hr : resumable (rt.sched.host s) = true) :
    (TaskRequest.resume (rt.sched.host s == .parked)).startsFrom (native s rt.sched.asks) := by
  have htask := h.task s
  cases hh : rt.sched.host s with
  | free | dead => rw [hh] at htask; exact htask
  | parked => rw [hh] at htask; exact htask.1
  | _ => rw [hh] at hr; cases hr

theorem Tracked.applyResume (s : C.Slot) (r0 : Int) : Tracked (applyResume s r0 rt).2 := by
  unfold Lxp.applyResume
  split
  · rename_i hcond
    simp only [Bool.and_eq_true] at hcond
    have hstarts := h.resumable hcond.2
    have hcall :
        Moved s (duringResume (rt.sched.host s)) true [⟨s, .resume (rt.sched.host s == .parked),
        (callResume s (rt.sched.host s == .parked)
          (setRunnable s true (setHost s (duringResume (rt.sched.host s)) rt))).1⟩] rt
        (callResume s (rt.sched.host s == .parked)
          (setRunnable s true (setHost s (duringResume (rt.sched.host s)) rt))).2 :=
      (((Moved.refl s rt).setHost _).setRunnable true).ask rfl rfl rfl
    generalize callResume s _ _ = r at hcall ⊢
    obtain ⟨_ | _, rt1⟩ := r
    · -- A refused resume leaves the parked task, or none, to the abort.
      obtain ⟨ok, hm⟩ := abortSlot_moved ((hcall.setHost (rt.sched.host s)).setRunnable false)
      refine Tracked.kept (h.moved hm ?_ ?_) (slotTransitionFailed_kept s _)
      · simp only [cons_append, native_cons_self]
        cases ok <;> simp [abortedHost, TaskTracked, Native.after]
      · exact ⟨trivial, hstarts, h.asks⟩
    · refine Tracked.kept (h.moved (hcall.setHost .running) ?_ ?_) ⟨rfl, rfl, rfl⟩
      · simp only [singleton_append, native_cons_self]
        rfl
      · exact ⟨hstarts, h.asks⟩
  · exact h

theorem Tracked.resume (s : C.Slot) (r0 : Int) : Tracked (resumeSlot s r0 rt).2 := by
  unfold resumeSlot
  split
  · exact h
  · exact h.applyResume s r0

theorem Tracked.complete (r : SlotRef C) (r0 : Int) : Tracked (completeSlot r r0 rt).2 := by
  unfold completeSlot
  split
  · split
    · split
      · exact h.kept ⟨rfl, rfl, rfl⟩
      · exact h
    · exact h.resume r.index r0
  · exact h

theorem Tracked.launch (s : C.Slot) : Tracked (launchSlot s rt).2 := by
  unfold launchSlot
  split
  · rename_i hhost
    have hnone : native s rt.sched.asks = .none := by
      have htask := h.task s
      rcases hhost with hh | hh <;> rw [hh] at htask <;> exact htask
    have hcall : Moved s .starting true
        [⟨s, .launch, (callLaunch s (setRunnable s true (setHost s .starting rt))).1⟩] rt
        (callLaunch s (setRunnable s true (setHost s .starting rt))).2 :=
      (((Moved.refl s rt).setHost _).setRunnable true).ask rfl rfl rfl
    generalize callLaunch s _ = r at hcall ⊢
    obtain ⟨_ | _, rt1⟩ := r
    · refine Tracked.kept (h.moved ((hcall.setHost .dead).setRunnable false) ?_ ?_)
        (slotTransitionFailed_kept s _)
      · simp only [singleton_append, native_cons_self]
        rfl
      · exact ⟨hnone, h.asks⟩
    · apply h.moved (hcall.setHost .running)
      · simp only [singleton_append, native_cons_self]
        rfl
      · exact ⟨hnone, h.asks⟩
  · exact h

end

end Requests

/-! ## Every sequence of requests -/

inductive LifecycleRequest (C : Config) where
  | park (s : C.Slot)
  | resume (s : C.Slot) (r0 : Int)
  | launch (s : C.Slot)
  | complete (r : SlotRef C) (r0 : Int)
  | abort (s : C.Slot)

def lifecycleApply (rt : Runtime C) : LifecycleRequest C → Runtime C
  | .park s => (parkSlot s rt).2
  | .resume s r0 => (resumeSlot s r0 rt).2
  | .launch s => (launchSlot s rt).2
  | .complete r r0 => (completeSlot r r0 rt).2
  | .abort s => (abortSlot s rt).2

/-- The rest of the coordinator, the guests and the port between two requests: no native task is
touched, and a runnable view is at most withdrawn. -/
structure Elsewhere (rt rt' : Runtime C) : Prop where
  host : rt'.sched.host = rt.sched.host
  asks : rt'.sched.asks = rt.sched.asks
  runnable : ∀ s, rt'.sched.runnable s = true → rt.sched.runnable s = true

inductive LifecycleRun : Runtime C → Prop where
  | start {rt : Runtime C} : (∀ s, rt.sched.host s = .free) → rt.sched.asks = [] → LifecycleRun rt
  | request {rt : Runtime C} (r : LifecycleRequest C) :
      LifecycleRun rt → LifecycleRun (lifecycleApply rt r)
  | elsewhere {rt rt' : Runtime C} : LifecycleRun rt → Elsewhere rt rt' → LifecycleRun rt'

theorem LifecycleRun.tracked {rt : Runtime C} (h : LifecycleRun rt) : Tracked rt := by
  induction h with
  | start hfree hasks =>
    refine ⟨fun s => ?_, by rw [hasks]; trivial⟩
    rw [hfree, hasks]
    rfl
  | request r _ ih =>
    cases r with
    | park s => exact ih.park s
    | resume s r0 => exact ih.resume s r0
    | launch s => exact ih.launch s
    | complete r r0 => exact ih.complete r r0
    | abort s => exact ih.abort s
  | elsewhere _ he ih =>
    refine ⟨fun s => ?_, by rw [he.asks]; exact ih.asks⟩
    rw [he.host, he.asks]
    exact (ih.task s).withdraw (he.runnable s)

theorem LifecycleRun.foldl {rt : Runtime C} (h : LifecycleRun rt) (rs : List (LifecycleRequest C)) :
    LifecycleRun (rs.foldl lifecycleApply rt) := by
  induction rs generalizing rt with
  | nil => exact h
  | cons r rs ih => exact ih (.request r h)

/-- No slot is launched or resumed while its native task may be running, and a slot recorded as
parked is not runnable. -/
theorem lifecycleRun_safe {rt : Runtime C} (h : LifecycleRun rt) :
    (∀ a asks, a :: asks <:+ rt.sched.asks → a.request = .launch ∨ (∃ m, a.request = .resume m) →
        native a.slot asks ≠ .running) ∧
      ∀ s, rt.sched.host s = .parked → rt.sched.runnable s = false := by
  have htracked := h.tracked
  refine ⟨fun a asks hs hstart hrun => ?_, fun s hs => ?_⟩
  · have hfrom := (htracked.asks.suffix hs).1
    rw [hrun] at hfrom
    rcases hstart with hr | ⟨m, hr⟩
    · rw [hr] at hfrom
      cases hfrom
    · rw [hr] at hfrom
      cases m <;> cases hfrom
  · have htask := htracked.task s
    rw [hs] at htask
    exact htask.2

/-- A task that will neither park nor be aborted, and every attempt to use its slot again. -/
def refusedAborts : Runtime smallConfig :=
  [.launch 0, .park 0, .abort 0, .resume 0 0, .launch 0, .complete ⟨0, 1⟩ 0].foldl lifecycleApply
    { resetRuntime smallConfig with
      sched := { (resetRuntime smallConfig).sched with
        port := { park := [false], abort := [false, false] } } }

theorem refusedAborts_safe :
    refusedAborts.sched.host 0 = .failed ∧ native 0 refusedAborts.sched.asks = .running ∧
      (∀ a asks, a :: asks <:+ refusedAborts.sched.asks →
        a.request = .launch ∨ (∃ m, a.request = .resume m) → native a.slot asks ≠ .running) ∧
      ∀ s, refusedAborts.sched.host s = .parked → refusedAborts.sched.runnable s = false := by
  refine ⟨by decide, by decide, lifecycleRun_safe ?_⟩
  apply LifecycleRun.foldl
  exact .start (fun _ => rfl) rfl

end Lxp
