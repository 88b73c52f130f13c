import Lxp.Family.Working

/-!
# Child events and exits in the family

A published termination takes one child off the parent's count and is handed over, queued or
dropped.  An exit removes the task; with the last task of a group goes the group.
-/

open Function RefPool List

namespace Lxp

variable {C : Config}
variable {s : C.Slot} {rt : Runtime C} {admits : Group → Prop}
variable {o : Own C}

/-! ## Child events -/

variable {ppid : Nat} {k : Kin C} {g : Obj C}

theorem parentTaskForChild_some {e : ChildEvent} {p : C.Slot}
    (h : parentTaskForChild ppid e rt = some p) : isTaskOf rt.own ppid p = true := by
  rcases Option.or_eq_some_iff.mp h with h | ⟨_, h⟩
  · exact (mem_filter.mp (mem_of_find?_eq_some h)).2
  · exact (mem_filter.mp (mem_of_head? h)).2

theorem parentTaskForChild_none {e : ChildEvent} (h : parentTaskForChild ppid e rt = none)
    (t : C.Slot) : isTaskOf rt.own ppid t = false := by
  have hnil := List.head?_eq_none_iff.mp (Option.or_eq_none_iff.mp h).2
  have := filter_eq_nil_iff.mp hnil t (mem_finRange t)
  simpa using this

theorem isTaskOf_iff {id : Nat} {t : C.Slot} : isTaskOf o id t = true ↔
      o.alive t = true ∧ ∃ g, o.group t = some g ∧ (o.groups.val g).tgid = id := by
  simp [isTaskOf, groupOf, Option.any_eq_true]

/-- A termination reaches a task of the parent, or there is none. -/
inductive Reported (ppid : Nat) (r : ChildRec) (rt rt' : Runtime C) : Prop where
  | orphan : (∀ t, isTaskOf rt.own ppid t = false) → SameFamily rt rt' → Reported ppid r rt rt'
  | parent {p : C.Slot} {g : Obj C} {x' : Group} : isTaskOf rt.own ppid p = true →
      rt.own.group p = some g → Delivery C (rt.own.groups.val g) rt.log ppid r x' rt'.log →
      rt'.own.kin = rt.own.kin.setGroup g x' → Reported ppid r rt rt'

theorem SameFamily.reported {rt' rt'' : Runtime C} {r : ChildRec}
    (h : Reported ppid r rt rt') (hs : SameFamily rt' rt'') : Reported ppid r rt rt'' := by
  cases h with
  | orphan hnone hsame => exact .orphan hnone (hsame.trans hs)
  | parent hp hg hd hk => exact .parent hp hg (by rw [hs.log]; exact hd) (hs.kin.trans hk)

theorem reapToParent_reported (ppid cpid status : Nat) (sigchld : Bool) (rt : Runtime C) :
    Reported ppid ⟨cpid, status, .exited⟩ rt (reapToParent ppid cpid status sigchld rt) := by
  unfold reapToParent childEventPublish
  split
  · rename_i hnone
    exact .orphan (parentTaskForChild_none hnone) (SameFamily.refl rt)
  rename_i p hp
  have htask := parentTaskForChild_some hp
  split
  · rename_i hnone
    obtain ⟨_, g, hg, _⟩ := isTaskOf_iff.mp htask
    rw [hnone] at hg
    cases hg
  rename_i g hg
  have hreaped : childReaped ppid g ⟨cpid, status, .exited, sigchld⟩ rt = { rt with
      own := modifyGroup g (fun x => { x with liveChildren := x.liveChildren - 1 }) rt.own
      log.reaped := (ppid, cpid) :: rt.log.reaped } := if_pos rfl
  have hval : (childReaped ppid g ⟨cpid, status, .exited, sigchld⟩ rt).own.groups.val g =
      { rt.own.groups.val g with liveChildren := (rt.own.groups.val g).liveChildren - 1 } := by
    exact update_self _ _ _
  dsimp only
  split
  · exact SameFamily.reported (.parent htask hg .handed (by rw [hreaped]; rfl))
      (childWaitComplete_schedOnly p _ _).family
  have hqueued : Reported ppid ⟨cpid, status, .exited⟩ rt
      (childQueue ppid g ⟨cpid, status, .exited, sigchld⟩
        (childReaped ppid g ⟨cpid, status, .exited, sigchld⟩ rt)) := by
    unfold childQueue
    rw [hval]
    split
    · rename_i hroom
      refine .parent htask hg (.queued hroom) ?_
      rw [hreaped]
      simp only [Own.kin, modifyGroup, Kin.setGroup, Pool.set, update_self, update_idem]
    · rename_i hfull
      exact .parent htask hg (.dropped (not_lt.mp hfull)) rfl
  split
  · exact SameFamily.reported hqueued ⟨rfl, rfl⟩
  · exact hqueued

/-- A stop notice is dropped, handed over, or added to the parent's queue. -/
theorem notifyParentStopped_step (h : Family rt.own.kin rt.log)
    (hadmits : ∀ p g, rt.own.group p = some g →
      (rt.own.groups.val g).tgid = ppid → admits (rt.own.groups.val g))
    (cpid stopsig : Nat) :
    FamilyStep admits rt.own.kin rt.log (notifyParentStopped ppid cpid stopsig rt).own.kin
      (notifyParentStopped ppid cpid stopsig rt).log := by
  have hsame : ∀ rt', SameFamily rt rt' →
      FamilyStep admits rt.own.kin rt.log rt'.own.kin rt'.log := by
    intro rt' hs
    rw [hs.kin, hs.log]
    exact .steady ⟨rfl, rfl, rfl, h.counted, fun _ _ _ => Group.Keeps.refl _⟩ fun _ _ _ => le_rfl
  unfold notifyParentStopped childEventPublish
  split
  · exact hsame _ (SameFamily.refl rt)
  rename_i p hp
  obtain ⟨_, g', hg', hid⟩ := isTaskOf_iff.mp (parentTaskForChild_some hp)
  split
  · exact hsame _ (SameFamily.refl rt)
  rename_i g hg
  obtain rfl : g' = g := Option.some.inj (hg'.symm.trans hg)
  dsimp only
  split
  · exact hsame _ (childWaitComplete_schedOnly p _ rt).family
  unfold childQueue
  rw [if_pos rfl]
  split
  · rename_i hroom
    exact .stop hg (hadmits p g' hg hid) hroom
  · exact hsame _ ⟨rfl, rfl⟩

/-! ## Exits -/

theorem groupPut_kinAt {k0 : Kin C} {g : Option (Obj C)} {owed : List (Obj C)}
    (h : KinAt k0 s (g.toList ++ owed) o.kin) : KinAt k0 s owed (groupPut g o).kin := by
  cases g with
  | none => exact h
  | some g => exact h.put

theorem procGroupPut_kinAt {k0 : Kin C} (h : KinAt k0 s (o.group s).toList o.kin) :
    KinAt k0 s [] (procGroupPut s o).kin := by
  have hput : KinAt k0 s [] (groupPut (o.group s) o).kin :=
    groupPut_kinAt (by rw [append_nil]; exact h)
  refine hput.columns (fun _ _ => rfl) (fun t ht => ?_) rfl rfl
  have hcol : (groupPut (o.group s) o).group = o.group := by
    unfold groupPut
    split <;> rfl
  show update o.group s none t = (groupPut (o.group s) o).group t
  rw [update_of_ne ht, hcol]

theorem exitRestoreParent_family (s : C.Slot) (rt : Runtime C) :
    SameFamily rt (exitRestoreParent s rt).2 := by
  unfold exitRestoreParent
  split
  · split
    · dsimp only
      split
      · exact vforkContainStale_family _ rt
      · rename_i hrestore
        exact (vforkRestore_family hrestore).trans ⟨rfl, rfl⟩
    · exact .refl rt
  · exact .refl rt

/-- A dead task that still names its group. -/
def Kin.mute (k : Kin C) (s : C.Slot) : Kin C := { k with alive := update k.alive s false }

theorem Kin.mute_self (k : Kin C) (s : C.Slot) : (k.mute s).alive s = false := update_self _ _ _

theorem Kin.mute_of_ne (k : Kin C) {t : C.Slot} (h : t ≠ s) :
    (k.mute s).alive t = k.alive t := update_of_ne h _ _

/-- Up to the report the task is dead and still names its group. -/
theorem exitRelease_family (s : C.Slot) (rt : Runtime C) :
    (exitRelease s rt).2.own.kin = rt.own.kin.mute s ∧ (exitRelease s rt).2.log = rt.log := by
  have hmaps : SameFamily rt
      (slotSignalReset s (clearDeviceMaps { rt with own := procResourcesPut s rt.own })) :=
    ((SameFamily.setOwn (procResourcesPut_only s rt.own).kin).trans
      (clearDeviceMaps_schedOnly _).family).trans ⟨rfl, rfl⟩
  have hparent := hmaps.trans (exitRestoreParent_family s _)
  have hput := (regionMmPut_kin s (exitRestoreParent s
    (slotSignalReset s (clearDeviceMaps { rt with own := procResourcesPut s rt.own }))).2.own).trans
      hparent.kin
  unfold exitRelease
  dsimp only
  generalize exitRestoreParent s
    (slotSignalReset s (clearDeviceMaps { rt with own := procResourcesPut s rt.own })) = q
    at hparent hput ⊢
  obtain ⟨resume, rt1⟩ := q
  refine ⟨?_, hparent.log⟩
  show (regionMmPut s rt1.own).kin.mute s = rt.own.kin.mute s
  rw [hput]

theorem Family.muted {log : Log} (h : Family k log) (s : C.Slot) :
    KinAt k s (k.group s).toList (k.mute s) :=
  (KinAt.opened h.counted s).columns (fun _ ht => update_of_ne ht _ _) (fun _ _ => rfl) rfl rfl

theorem threadGroupLive_iff :
    threadGroupLive o (some g) = true ↔ ∃ t, o.alive t = true ∧ o.group t = some g := by
  simp [threadGroupLive]

theorem exitResumeParent_schedOnly (s : C.Slot) (parentRef : Option (SlotRef C))
    (resume : Bool) (rt : Runtime C) : SchedOnly rt (exitResumeParent s parentRef resume rt) := by
  unfold exitResumeParent
  split
  · exact completeSlot_schedOnly _ _ _
  · exact .refl rt

/-- The parent's record changes before the task lets go of its own group. -/
theorem Leaves.of_reported {gp : Obj C} {x' : Group} (hat : KinAt k s [g] (k.mute s))
    (hg : k.group s = some g) (ho : o.kin = (k.mute s).setGroup gp x') :
    Leaves k s (onGroup gp x') (procGroupPut s o).kin := by
  have hboth := hat.set_both gp x'
  rw [← ho] at hboth
  have hgroup : o.group s = some g := by
    show o.kin.group s = some g
    rw [ho]
    exact hg
  have hput := procGroupPut_kinAt (by rw [hgroup]; exact hboth)
  have halive : (procGroupPut s o).kin.alive s = false := by
    show (groupPut (o.group s) o).alive s = false
    have : (groupPut (o.group s) o).alive = o.kin.alive := by
      unfold groupPut
      split <;> rfl
    rw [this, ho]
    exact update_self _ _ _
  have hleft := hput.left halive (update_self _ _ _)
  exact { hleft with
      vals := fun t i hts ht => (hleft.vals t i hts ht).trans (k.setGroup_val gp i x') }

theorem Leaves.of_put (hat : KinAt k s [g] (k.mute s)) (hg : k.group s = some g)
    (ho : o.kin = k.mute s) : Leaves k s unchanged (procGroupPut s o).kin := by
  have hset : o.kin = (k.mute s).setGroup g (k.groups.val g) := by
    rw [ho]
    simp [Kin.setGroup, Kin.mute, Pool.set]
  have hleft := Leaves.of_reported hat hg hset
  refine { hleft with vals := fun t i hts ht => ?_ }
  rw [hleft.vals t i hts ht, onGroup]
  split
  · rename_i hi
    rw [hi]
    rfl
  · rfl

theorem exitReport_step (h : Family k rt.log) (halive : k.alive s = true)
    (hk : rt.own.kin = k.mute s) (parentRef : Option (SlotRef C)) (resume : Bool) (status : Nat) :
    FamilyStep admits k rt.log (exitReport s parentRef resume status rt).2.own.kin
      (exitReport s parentRef resume status rt).2.log := by
  obtain ⟨g, hg⟩ := Option.isSome_iff_exists.mp ((h.member s).symm.trans halive)
  have hat : KinAt k s [g] (k.mute s) := by
    have := h.muted s
    rw [hg] at this
    exact this
  have hgroup : rt.own.group s = some g := by
    show rt.own.kin.group s = some g
    rw [hk]
    exact hg
  have hval : (groupOf rt.own s).getD {} = k.groups.val g := by
    unfold groupOf
    rw [hgroup]
    show rt.own.kin.groups.val g = _
    rw [hk]
    rfl
  -- Another live task of the group, or none.
  have hpeer : threadGroupLive rt.own (some g) = true ↔ ∃ t, t ≠ s ∧ k.group t = some g := by
    rw [threadGroupLive_iff]
    show (∃ t, rt.own.kin.alive t = true ∧ rt.own.kin.group t = some g) ↔ _
    rw [hk]
    constructor
    · rintro ⟨t, ht, hgt⟩
      refine ⟨t, ?_, hgt⟩
      rintro rfl
      rw [Kin.mute_self] at ht
      cases ht
    · rintro ⟨t, hts, hgt⟩
      refine ⟨t, ?_, hgt⟩
      rw [Kin.mute_of_ne k hts, h.member, hgt]
      rfl
  unfold exitReport
  rw [hval, hgroup]
  cases hlive : threadGroupLive rt.own (some g) with
  | true =>
    obtain ⟨t, hts, ht⟩ := hpeer.mp hlive
    have hresume := (exitResumeParent_schedOnly s parentRef resume rt).family
    simp only [Bool.not_true, Bool.false_eq_true, and_false, if_false]
    have hleft := Leaves.of_put hat hg (hresume.kin.trans hk)
    rw [hresume.log]
    exact .peer hts hg ht hleft
  | false =>
    have hlast : ∀ t, t ≠ s → k.group t ≠ some g := by
      intro t hts ht
      rw [hpeer.mpr ⟨t, hts, ht⟩] at hlive
      cases hlive
    simp only [Bool.not_false, and_true, if_true]
    split
    · rename_i hinit
      exact .last hg hlast (Or.inl hinit) (Leaves.of_put hat hg hk)
    have hresume := (exitResumeParent_schedOnly s parentRef resume rt).family
    generalize exitResumeParent s parentRef resume rt = rt1 at hresume ⊢
    have hk1 := hresume.kin.trans hk
    have hreport := reapToParent_reported (k.groups.val g).ppid (k.groups.val g).tgid status
      (!refIsCurrent rt1.own parentRef) rt1
    generalize reapToParent (k.groups.val g).ppid (k.groups.val g).tgid status
      (!refIsCurrent rt1.own parentRef) rt1 = rt2 at hreport ⊢
    cases hreport with
    | orphan hnone hsame =>
      rw [hsame.log, hresume.log]
      refine .last hg hlast (Or.inr ?_) (Leaves.of_put hat hg (hsame.kin.trans hk1))
      rintro ⟨t, i, ht, hid⟩
      have hts : t ≠ s := by
        rintro rfl
        obtain rfl : g = i := Option.some.inj (hg.symm.trans ht)
        exact absurd hid (h.ids hg).1.ne'
      have htask : isTaskOf rt1.own (k.groups.val g).ppid t = true := by
        refine isTaskOf_iff.mpr ⟨?_, i, ?_, ?_⟩
        · show rt1.own.kin.alive t = true
          rw [hk1, Kin.mute_of_ne k hts, h.member, ht]
          rfl
        · show rt1.own.kin.group t = some i
          rw [hk1]
          exact ht
        · show (rt1.own.kin.groups.val i).tgid = _
          rw [hk1]
          exact hid
      rw [hnone t] at htask
      cases htask
    | parent hp hgp hd hk2 =>
      rename_i p gp x'
      obtain ⟨-, gp', hgp', hid⟩ := isTaskOf_iff.mp hp
      obtain rfl : gp = gp' := Option.some.inj (hgp.symm.trans hgp')
      have hgk : k.group p = some gp := by
        have : rt1.own.kin.group p = some gp := hgp
        rw [hk1] at this
        exact this
      have hvals : rt1.own.groups.val gp = k.groups.val gp := by
        show rt1.own.kin.groups.val gp = _
        rw [hk1]
        rfl
      rw [hvals] at hd hid
      rw [hresume.log] at hd
      rw [hk1] at hk2
      exact .report hg hlast hgk hid rfl rfl hd (Leaves.of_reported hat hg hk2)

theorem threadGroupRequestExit_run (h : Family rt.own.kin rt.log) (s : C.Slot) (status : Nat) :
    FamilyRun admits rt (threadGroupRequestExit s status rt) := by
  unfold threadGroupRequestExit
  split
  · exact (SameFamily.refl rt).run
  rename_i g _
  have hmark : FamilyRun admits rt { rt with own := modifyGroup g (fun x =>
      { x with exiting := true, exitStatus := status % 256 }) rt.own } :=
    FamilyRun.of_step (h.set_step ⟨rfl, rfl, rfl⟩ le_rfl)
  exact hmark.trans (requestExit_schedOnly g status _ _).family.run

theorem handleExit_run (h : Family rt.own.kin rt.log) (halive : rt.own.alive s = true)
    (group : Bool) : FamilyRun admits rt (handleExit s group rt).2 := by
  have hrequest : FamilyRun admits rt (if group then
      threadGroupRequestExit s (rt.sched.ctl s).exitStatus rt else rt) := by
    split
    · exact threadGroupRequestExit_run h s _
    · exact (SameFamily.refl rt).run
  have halive' : (if group then threadGroupRequestExit s (rt.sched.ctl s).exitStatus rt
      else rt).own.alive s = true := by
    split
    · rw [(threadGroupRequestExit_groupsOnly s _ rt).own]
      exact halive
    · exact halive
  unfold handleExit
  dsimp only
  generalize (if group then threadGroupRequestExit s (rt.sched.ctl s).exitStatus rt else rt) = rt1
    at hrequest halive' ⊢
  have habort := abortSlot_schedOnly s rt1
  generalize abortSlot s rt1 = q at habort ⊢
  obtain ⟨_ | _, rt2⟩ := q
  · exact (hrequest.trans habort.family.run).trans (primarySlotMark_schedOnly s rt2).family.run
  have hrun := hrequest.trans habort.family.run
  have hk := hrun.family h
  have halive2 : rt2.own.kin.alive s = true := by
    rw [habort.family.kin]
    exact halive'
  obtain ⟨hkin, hlog⟩ := exitRelease_family s rt2
  refine hrun.trans (FamilyRun.of_step ?_)
  rw [← hlog] at hk ⊢
  exact exitReport_step hk halive2 hkin _ _ _

end Lxp
