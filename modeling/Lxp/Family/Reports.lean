import Lxp.Family.Exec
import Lxp.Family.Fork
import Lxp.Loader.WriteSafety
import Lxp.Region.Safety

/-!
# Child accounting over whole runs

Every step of a run changes the family in the ways `FamilyStep` lists, as long as no task execs that
has live peers or is not the leader of its group: a failed exec reports the end of the task as that
of the group.
-/

open Function RefPool List

namespace Lxp

variable {C : Config}

/-! ## Boot -/

/-- The family of the initial program, alone. -/
structure BootKin (k : Kin C) (g : Obj C) : Prop where
  alive : k.alive = update (fun _ => false) (slot0 C) true
  group : k.group = update (fun _ => none) (slot0 C) (some g)
  nextPid : k.nextPid = 2
  counted : Counted k.groups k.group []
  record : k.groups.val g = { tgid := 1, ppid := 0, pgid := 1 }

theorem BootKin.only {k : Kin C} {g i : Obj C} (h : BootKin k g) {t : C.Slot}
    (ht : k.group t = some i) : i = g := by
  rw [h.group] at ht
  by_cases hts : t = slot0 C
  · rw [hts] at ht
    exact (Option.some.inj ht).symm
  · rw [update_of_ne hts] at ht
    cases ht

theorem BootKin.family {k : Kin C} {g : Obj C} (h : BootKin k g) : Family k {} where
  counted := h.counted
  member := fun t => by
    rw [h.alive, h.group]
    by_cases hts : t = slot0 C
    · rw [hts]
      rfl
    · rw [update_of_ne hts, update_of_ne hts]
      rfl
  unique := fun hs ht _ => (h.only hs).trans (h.only ht).symm
  ids := fun ht => by
    rw [h.only ht, h.record, h.nextPid]
    exact ⟨Nat.zero_lt_one, Nat.one_lt_two⟩
  live := fun ht => by
    rw [h.only ht, h.record]
    rfl
  known := fun ht hid => by
    rw [h.only ht, h.record] at hid
    exact absurd rfl hid
  silent := fun _ => not_mem_nil
  entries := fun e he => absurd he not_mem_nil
  distinct := nodup_nil
  once := nodup_nil
  reported := fun e he => absurd he not_mem_nil
  awaited := fun e he => absurd he not_mem_nil

theorem resetRuntime_kinAt (C : Config) :
    KinAt (resetRuntime C).own.kin (slot0 C) [] (resetRuntime C).own.kin := by
  refine KinAt.opened (fun i => ?_) (slot0 C)
  show 0 = holders (fun _ : C.Slot => (none : Option (Obj C))) i + 0
  rw [holders_eq_zero_iff.mpr (fun _ h => by cases h)]

variable {l : LoadResult} {rt : Runtime C}

/-- A launched image is in its slot, with a thread group of its own. -/
theorem imageLaunch_kin {k0 : Kin C} {img : ImageTxn C} {ppid : Nat} {rt' : Runtime C}
    (hl : imageLaunch img ppid l rt = some rt') (h : KinAt k0 img.slot [] rt.own.kin)
    (hbare : k0.group img.slot = none) (hproc : img.proc = {}) :
    ∃ g, KinAt k0 img.slot [g] rt'.own.kin ∧ rt'.own.alive img.slot = true ∧
      rt'.own.group img.slot = some g ∧ rt'.log = rt.log ∧
      rt'.own.groups.val g = { tgid := img.pid, ppid := ppid, pgid := img.pid } := by
  have hprep := imageTxnPrepare_kin h (fun g hg => by rw [hbare] at hg; cases hg) hproc ppid l
  unfold imageLaunch at hl
  generalize imageTxnPrepare img ppid l rt = q at hprep hl
  obtain ⟨hat, -, hlog, hslot, _, hgroup⟩ := hprep
  obtain ⟨_ | e, img1, rt1⟩ := q
  · obtain ⟨g, hg, hval⟩ := hgroup rfl
    dsimp only at hl
    rw [hg] at hat
    generalize hpub : imageTxnPublish img1 rt1 = q at hl
    obtain ⟨_, hok⟩ := imageTxnPublish_kin hpub
    obtain ⟨_ | e, img2, rt2⟩ := q
    · obtain ⟨_, hlog2, hkin2⟩ := hok rfl
      dsimp only at hl
      have hstart := imageTxnStart_family img2 rt2
      generalize imageTxnStart img2 rt2 = q at hstart hl
      obtain ⟨_ | e, rt3⟩ := q
      · injection hl with hl
        subst hl
        rw [hslot, hg] at hkin2
        have hkin := hstart.kin.trans hkin2
        refine ⟨g, ?_, ?_, ?_, hstart.log.trans (hlog2.trans hlog), ?_⟩
        · rw [hkin]
          exact hat.columns (fun _ ht => update_of_ne ht _ _)
            (fun _ ht => update_of_ne ht _ _) rfl rfl
        · exact (congrFun (congrArg Kin.alive hkin) _).trans (update_self _ _ _)
        · exact (congrFun (congrArg Kin.group hkin) _).trans (update_self _ _ _)
        · exact (congrFun (congrArg (·.groups.val) hkin) g).trans hval
      · cases hl
    · cases hl
  · cases hl

theorem boot_kin {fileIndex : Int}
    (h : boot C fileIndex l = some rt) : rt.log = {} ∧ ∃ g, BootKin rt.own.kin g := by
  unfold boot at h
  dsimp only at h
  split at h
  · cases h
  rename_i o hres
  have hopen : KinAt (resetRuntime C).own.kin (slot0 C) [] o.kin := by
    rw [regionReserve_kin hres]
    exact resetRuntime_kinAt C
  obtain ⟨rt1, hlaunch, hrt⟩ := Option.map_eq_some_iff.mp h
  obtain ⟨g, hat, halive, hgroup, hlog, hval⟩ := imageLaunch_kin hlaunch hopen rfl rfl
  subst hrt
  have hcol : rt1.own.kin.group = update (fun _ => none) (slot0 C) (some g) := by
    funext t
    by_cases hts : t = slot0 C
    · rw [hts]
      exact hgroup
    · rw [update_of_ne hts]
      exact hat.group t hts
  refine ⟨hlog, g, ?_, hcol, hat.nextPid, ?_, hval⟩
  · funext t
    by_cases hts : t = slot0 C
    · rw [hts]
      exact halive
    · rw [update_of_ne hts]
      exact hat.alive t hts
  · show Counted rt1.own.kin.groups rt1.own.kin.group []
    rw [hcol]
    have hstored := hat.counted.store (update_self _ _ _)
    rw [update_idem] at hstored
    exact hstored

/-! ## Steps -/

/-- A failed exec is reported as the end of the whole group, under the task's own id. -/
def execsSoleLeaders (rt : Runtime C) : Action C → Prop
  | .event s _ => claimedEvent s rt = .exec → soleLeader rt.own s = true
  | _ => True

instance (rt : Runtime C) : (a : Action C) → Decidable (execsSoleLeaders rt a)
  | .event _ _ => inferInstanceAs (Decidable (_ → _))
  | .wait4 .. | .stopped .. | .write .. | .guest => isTrue trivial

/-- The parent group of a task may take a stop notice. -/
def parentAdmits (admits : Group → Prop) (o : Own C) (s : C.Slot) : Prop :=
  ∀ p g, o.group p = some g → (o.groups.val g).tgid = ((groupOf o s).getD {}).ppid →
    admits (o.groups.val g)

def stopsAdmitted (admits : Group → Prop) (rt : Runtime C) : Action C → Prop
  | .event s _ => claimedEvent s rt = .stop → parentAdmits admits rt.own s
  | .stopped s _ => parentAdmits admits rt.own s
  | _ => True

section Steps

variable {admits : Group → Prop} {rt' : Runtime C}

section

variable (h : Family rt.own.kin rt.log)
include h

theorem handleStop_run {s : C.Slot}
    (hadmits : parentAdmits admits rt.own s) : FamilyRun admits rt (handleStop s rt) := by
  have hpark := parkSlot_schedOnly s rt
  unfold handleStop
  generalize parkSlot s rt = q at hpark ⊢
  obtain ⟨_ | _, rt1⟩ := q
  · exact hpark.family.run
  refine hpark.family.run.trans (FamilyRun.of_step (notifyParentStopped_step ?_ ?_ _ _))
  · rw [hpark.own, hpark.log]
    exact h
  · rw [hpark.own]
    exact hadmits

theorem coordinatorEvent_run {s : C.Slot} {i : EventInput}
    (hexec : execsSoleLeaders rt (.event s i)) (hstop : stopsAdmitted admits rt (.event s i)) :
    FamilyRun admits rt (coordinatorEvent s i rt) := by
  have hstart : SameFamily rt (eventStart s i rt) := ⟨rfl, rfl⟩
  have halive : claimedEvent s rt ≠ .none → (eventStart s i rt).own.alive s = true :=
    claimedEvent_alive
  have hfamily : Family (eventStart s i rt).own.kin (eventStart s i rt).log := h
  refine hstart.run.trans ?_
  dsimp only [coordinatorEvent]
  cases he : claimedEvent s rt with
  | none | defer => exact (SameFamily.refl _).run
  | park => exact (parkSlot_schedOnly s _).family.run
  | stop => exact handleStop_run hfamily (hstop he)
  | fork flags childStack => exact handleFork_run hfamily (halive (by simp [he])) flags childStack
  | exec => exact handleExec_run ⟨hfamily, halive (by simp [he]), hexec he⟩ i.load
  | exit group => exact handleExit_run hfamily (halive (by simp [he])) group

theorem sysWait4_run (s : C.Slot) (pid : Int) (status : Nat) (nohang untraced : Bool) :
    FamilyRun admits rt (sysWait4 s pid status nohang untraced rt).2 := by
  unfold sysWait4
  split
  · exact (SameFamily.refl rt).run
  rename_i g hg
  dsimp only
  split
  · have hstep : FamilyStep admits rt.own.kin rt.log (rt.own.kin.setGroup g
        { rt.own.groups.val g with
          children := (rt.own.groups.val g).children.eraseP (waitable pid untraced) }) rt.log :=
      h.set_step ⟨rfl, rfl, rfl⟩ (length_eraseP_le)
    split
    · exact .of_step hstep
    · exact .of_step hstep
  split
  · exact (SameFamily.refl rt).run
  split
  · exact (SameFamily.refl rt).run
  split
  · exact (SameFamily.refl rt).run
  rename_i hbegin
  unfold waitBegin at hbegin
  split at hbegin
  · injection hbegin with hbegin
    subst hbegin
    exact SameFamily.run ⟨rfl, rfl⟩
  · cases hbegin

theorem GuestFrame.familyStep (hg : GuestFrame rt rt') :
    FamilyStep admits rt.own.kin rt.log rt'.own.kin rt'.log := by
  have halive : rt'.own.alive = rt.own.alive := by rw [hg.own]
  have hgroup : rt'.own.group = rt.own.group := by rw [hg.own]
  have hpid : rt'.own.nextPid = rt.own.nextPid := by rw [hg.own]
  have hrefs : rt'.own.groups.refs = rt.own.groups.refs := by rw [hg.own]
  have hsteady : Steady rt.own.kin rt'.own.kin :=
    ⟨halive, hgroup, hpid, fun i => (congrFun hrefs i).trans (h.counted i), fun _ g _ =>
      ⟨(hg.family g).1, (hg.family g).2.1, (hg.family g).2.2.2⟩⟩
  rw [hg.log]
  exact .steady hsteady fun _ g _ => (congrArg List.length (hg.family g).2.2.1).le

theorem step_familyRun {a : Action C} (hexec : execsSoleLeaders rt a)
    (hstop : stopsAdmitted admits rt a) (hs : Step rt a rt') : FamilyRun admits rt rt' := by
  cases hs with
  | event s i => exact coordinatorEvent_run h hexec hstop
  | wait4 s pid status nohang untraced _ => exact sysWait4_run h s pid status nohang untraced
  | stopped s sig _ => exact .of_step (notifyParentStopped_step h hstop _ _)
  | write s c b p _ _ => exact SameFamily.run ⟨rfl, rfl⟩
  | guest _ hg => exact .of_step (hg.familyStep h)

end

end Steps

theorem stopsAdmitted_all (rt : Runtime C) (a : Action C) : stopsAdmitted (fun _ => True) rt a := by
  cases a with
  | event s i => exact fun _ _ _ _ _ => trivial
  | stopped s sig => exact fun _ _ _ _ => trivial
  | _ => exact trivial

theorem boot_family {fileIndex : Int}
    (h : boot C fileIndex l = some rt) : Family rt.own.kin rt.log := by
  obtain ⟨hlog, g, hkin⟩ := boot_kin h
  rw [hlog]
  exact hkin.family

theorem runsTo_family (h : RunsTo execsSoleLeaders rt) : Family rt.own.kin rt.log := by
  induction h with
  | start hboot => exact boot_family hboot
  | step _ hok hs ih => exact (step_familyRun ih hok (stopsAdmitted_all _ _) hs).family ih

/-- In every run whose execs are of sole leaders, each counted child of a living parent is reported
exactly once, when it has ended, and the parent's count is what is left to report. -/
theorem runsTo_childrenReported {rt : Runtime C} (h : RunsTo execsSoleLeaders rt) :
    ChildrenReported rt := (runsTo_family h).childrenReported

/-! ## An exec with live peers -/

/-- A program of one text and one data segment. -/
def programBytes : Bytes :=
  elfHeader 2 ++ phdrBytes ⟨elfPtLoad, 0, 0, 116, 116, 5⟩ ++
    phdrBytes ⟨elfPtLoad, 112, 0x1000, 4, 4, 6⟩

abbrev programConfig : Config :=
  { smallConfig with rootfs := [⟨bytesAt 4096 programBytes, 4096, 116⟩] }

/-- Every file of the new image is there, its initial stack does not fit. -/
def stackTooSmall : EventInput := { load := { stack := false } }

/-- A child execs, and its new image cannot be started. -/
def execFailure : List (Move programConfig) :=
  [.ask 0 (.fork {} 0), .act (.event 0 {}), .ask 1 .exec, .act (.event 1 stackTooSmall)]

theorem execFailure_childrenReported : ∃ rt : Runtime programConfig,
    playFromBoot execFailure = some rt ∧ rt.log.reaped = [(1, 2)] ∧
    RunsTo execsSoleLeaders rt ∧ ChildrenReported rt := by
  have hruns : (playFromBoot execFailure).any (fun rt => decide (rt.log.reaped = [(1, 2)])) = true ∧
      (boot programConfig 0 {}).all (fun rt0 =>
        decide (admitted execsSoleLeaders execFailure rt0)) = true := by
    decide +kernel
  obtain ⟨rt, hrt, hreaped⟩ := (Option.any_eq_true _ _).mp hruns.1
  have hreached : RunsTo execsSoleLeaders rt := playFromBoot_runsTo hrt fun rt0 hboot => by
    have hall := hruns.2
    rw [hboot] at hall
    exact of_decide_eq_true hall
  exact ⟨rt, hrt, of_decide_eq_true hreaped, hreached, runsTo_childrenReported hreached⟩

/-- The same with a second thread in the child, which ends after the exec has failed. -/
def threadedExecFailure : List (Move programConfig) :=
  [.ask 0 (.fork {} 0), .act (.event 0 {}),
   .ask 1 (.fork { vm := true, sighand := true, thread := true } 0), .act (.event 1 {}),
   .ask 1 .exec, .act (.event 1 stackTooSmall), .act (.event 2 {})]

/-- The child is reported twice. -/
theorem threadedExecFailure_reports_twice : ∃ rt : Runtime programConfig,
    RunsTo (fun _ _ => True) rt ∧ rt.log.reaped = [(1, 2), (1, 2)] ∧ ¬ ChildrenReported rt := by
  have htwice : (playFromBoot threadedExecFailure).any (fun rt =>
      decide (rt.log.reaped = [(1, 2), (1, 2)])) = true := by
    decide +kernel
  obtain ⟨rt, hrt, hreaped⟩ := (Option.any_eq_true _ _).mp htwice
  replace hreaped := of_decide_eq_true hreaped
  refine ⟨rt, playFromBoot_runsTo hrt (fun rt0 _ => admitted_of_forall (fun _ _ => trivial) _ _),
    hreaped, fun h => ?_⟩
  have honce := h.once
  rw [hreaped] at honce
  exact absurd honce (by decide)

end Lxp
