import Lxp.Region.Fork

/-!
# Regions across exit

A vfork child that exits gives its snapshot region back when it restores the parent or contains
both.  With no current vfork parent neither happens, and the lease stays with a slot incarnation
that is gone.
-/

open Function

namespace Lxp

variable {C : Config}
variable {child : SlotRef C} {s : C.Slot}
variable {rt rt0 : Runtime C} {held : Option (RegionRef C)} {par : C.Slot} {ref : RegionRef C}

/-! ## Snapshots -/

variable {rt' : Runtime C} {sp : Nat}

/-- A restore copies the snapshot over the region of a live parent and drops the guard. -/
theorem vforkRestore_eq (h : vforkRestore par ref child sp rt = some rt') :
    vforkRestorable par ref child rt.own = true ∧ ∃ m p, mmRegion rt.own par = some p ∧
      rt' = { rt with
        own := vforkGuardReset child.index rt.own
        ram := restoreRam par m p.index ref.index sp rt.own rt.ram } := by
  unfold vforkRestore at h
  split at h
  · rename_i hcheck
    split at h
    · rename_i m p _ hp
      injection h with h
      exact ⟨hcheck, m, p, hp, h.symm⟩
    · cases h
  · cases h

theorem vforkRestore_own (h : vforkRestore par ref child sp rt = some rt') :
    rt'.own = vforkGuardReset child.index rt.own := by
  obtain ⟨_, m, p, _, rfl⟩ := vforkRestore_eq h
  rfl

theorem restoreRam_cells (par : C.Slot) (m : Obj C) (p rsnap : Fin C.nreg) (sp : Nat)
    (o : Own C) (ram : Ram C) {j : Fin C.nreg} (hj : j ≠ p) :
    (restoreRam par m p rsnap sp o ram).cells j = ram.cells j := by
  simp only [Ram.cells, restoreRam, update_of_ne hj]

theorem vforkRestore_at (hr : vforkRestore par ref child sp rt = some rt')
    (h : RunAt rt0 child.index held [] [] rt) : RunAt rt0 child.index held [] [] rt' := by
  obtain ⟨hcheck, m, p, hp, rfl⟩ := vforkRestore_eq hr
  have hpar : rt.own.alive par = true := by
    simp only [vforkRestorable, Bool.and_eq_true] at hcheck
    exact hcheck.1.1.1.1.1.1.1.2
  have hrun := h.setRam (fun j hj => restoreRam_cells par m p.index ref.index sp rt.own rt.ram hj)
    fun t q hts ht hq => h.own.snapshot_ne_used hpar hp hts ht hq
  exact hrun.setOwn h.own.guardReset

theorem vforkContainParent_schedOnly (child : SlotRef C) (rt : Runtime C) :
    SchedOnly rt (vforkContainParent child rt) := by
  unfold vforkContainParent
  split
  · exact .refl rt
  · exact exitSlot_schedOnly _ rt _ _ _

/-- The child's guard names the lease it holds, if any. -/
theorem vforkLeaseRelease_at {o0 o : Own C} (hchild : child = slotRefAt o child.index)
    (h : OwnAt o0 child.index held [] [] o)
    (hguard : ∀ ref, held = some ref → (o.guards child.index).snapshot = some ref) :
    OwnAt o0 child.index none [] [] (vforkLeaseRelease child o) := by
  unfold vforkLeaseRelease
  cases held with
  | none =>
    split
    · exact h
    · rename_i ref _
      rw [hchild, h.release_none ref]
      exact h
  | some ref =>
    rw [hguard ref rfl]
    have hrel := h.release
    rw [← hchild] at hrel
    exact hrel

theorem vforkContainStale_at (hchild : child = slotRefAt rt.own child.index)
    (h : RunAt rt0 child.index held [] [] rt)
    (hguard : ∀ ref, held = some ref → (rt.own.guards child.index).snapshot = some ref) :
    RunAt rt0 child.index none [] [] (vforkContainStale child rt) := by
  have honly := vforkContainParent_schedOnly child rt
  have hreleased : OwnAt rt0.own child.index none [] []
      (vforkLeaseRelease child (vforkContainParent child rt).own) := by
    rw [honly.own]
    exact vforkLeaseRelease_at hchild h.own hguard
  have hdone := (h.schedOnly honly).setOwn
    ((hreleased.guardReset.setVforkParent none).setSnapshot none)
  exact hdone.schedOnly (exitSlot_schedOnly child.index _ false 127 .stateCorruption)

theorem vforkContainStale_columns (child : SlotRef C) (rt : Runtime C) :
    (vforkContainStale child rt).own.alive = rt.own.alive ∧
      (vforkContainStale child rt).own.snapshot child.index = none ∧
      (vforkContainStale child rt).own.vforkParent child.index = none := by
  refine ⟨?_, update_self _ _ _, update_self _ _ _⟩
  show (vforkLeaseRelease child (vforkContainParent child rt).own).alive = rt.own.alive
  rw [(vforkContainParent_schedOnly child rt).own, vforkLeaseRelease]
  split <;> rfl

/-! ## The exit handler -/

/-- Whatever becomes of the parent's memory, the child holds no lease afterwards. -/
theorem exitRestoreParent_at (h : RunAt rt0 s (rt.own.snapshot s) [] [] rt)
    (hguard : ∀ ref, rt.own.snapshot s = some ref → (rt.own.guards s).snapshot = some ref)
    (hcur : rt.own.snapshot s ≠ none → refIsCurrent rt.own (rt.own.vforkParent s) = true) :
    RunAt rt0 s none [] [] (exitRestoreParent s rt).2 ∧
      (exitRestoreParent s rt).2.own.alive = rt.own.alive := by
  unfold exitRestoreParent
  split
  · rename_i parent ref hpar hsnap
    have hparent : slotRefIsCurrent rt.own parent = true := by
      have := hcur (by rw [hsnap]; simp)
      rw [hpar] at this
      exact this
    rw [if_pos hparent]
    rw [hsnap] at h
    dsimp only
    split
    · have hself : slotRefAt rt.own s = slotRefAt rt.own (slotRefAt rt.own s).index := rfl
      refine ⟨vforkContainStale_at hself h (fun q hq => ?_), (vforkContainStale_columns _ rt).1⟩
      exact hguard q (hsnap.trans hq)
    rename_i rt1 hres
    have h1 : RunAt rt0 s (some ref) [] [] rt1 := vforkRestore_at hres h
    have hown := vforkRestore_own hres
    have hself : slotRefAt rt.own s = slotRefAt rt1.own s := by
      rw [hown]
      rfl
    rw [hself]
    refine ⟨h1.setOwn h1.own.release, ?_⟩
    rw [hown]
    rfl
  · rename_i hno
    cases hsnap : rt.own.snapshot s with
    | none =>
      rw [hsnap] at h
      exact ⟨h, rfl⟩
    | some ref =>
      cases hpar : rt.own.vforkParent s with
      | none =>
        have := hcur (by rw [hsnap]; simp)
        rw [hpar] at this
        cases this
      | some parent => exact absurd hsnap (hno parent ref hpar)

theorem exitRelease_at (halive : rt.own.alive s = true)
    (h : RunAt rt0 s (rt.own.snapshot s) [] [] rt)
    (hguard : ∀ ref, rt.own.snapshot s = some ref → (rt.own.guards s).snapshot = some ref)
    (hcur : rt.own.snapshot s ≠ none → refIsCurrent rt.own (rt.own.vforkParent s) = true) :
    RunAt rt0 s none [] [] (exitRelease s rt).2 ∧ (exitRelease s rt).2.own.alive s = false ∧
      (exitRelease s rt).2.own.mm s = none := by
  have hres := procResourcesPut_only s rt.own
  have hmaps := clearDeviceMaps_schedOnly { rt with own := procResourcesPut s rt.own }
  -- Up to here only descriptors, device maps and signal frames have been dropped.
  have hown :
      (slotSignalReset s (clearDeviceMaps { rt with own := procResourcesPut s rt.own })).own =
      procResourcesPut s rt.own := hmaps.own
  have hrun : RunAt rt0 s (rt.own.snapshot s) [] []
      (slotSignalReset s (clearDeviceMaps { rt with own := procResourcesPut s rt.own })) :=
    ((h.setOwn (h.own.resources hres)).schedOnly hmaps).record rfl (fun _ _ => rfl) rfl
  unfold exitRelease
  dsimp only
  generalize slotSignalReset s (clearDeviceMaps { rt with own := procResourcesPut s rt.own }) = rt1
    at hown hrun ⊢
  have hsnap : rt1.own.snapshot s = rt.own.snapshot s := by rw [hown, hres.sameColumns.snapshot]
  have hrestored := exitRestoreParent_at (hsnap.symm ▸ hrun) (fun ref href => ?_) (fun hne => ?_)
  · obtain ⟨hrun2, halive2⟩ := hrestored
    have hlive : (exitRestoreParent s rt1).2.own.alive s = true := by
      rw [halive2, hown, hres.sameColumns.alive, halive]
    have hput := hrun2.own.regionMmPut hlive
    have hmm := regionMmPut_mm s (exitRestoreParent s rt1).2.own
    refine ⟨?_, update_self _ _ _, hmm⟩
    exact (hrun2.setOwn (hput.setDead hmm).renew).record rfl (fun _ _ => rfl) rfl
  · rw [hsnap] at href
    rw [hown, hres]
    exact hguard ref href
  · rw [hsnap] at hne
    rw [hown, hres]
    exact hcur hne

theorem exitReport_at (h : RunAt rt0 s none [] [] rt) (parentRef : Option (SlotRef C))
    (resume : Bool) (status : Nat) :
    RunAt rt0 s none [] [] (exitReport s parentRef resume status rt).2 ∧
      (exitReport s parentRef resume status rt).2.own.alive = rt.own.alive ∧
      (exitReport s parentRef resume status rt).2.own.mm = rt.own.mm := by
  have hgroup : ∀ o : Own C, (procGroupPut s o).mm = o.mm := by
    intro o
    unfold procGroupPut groupPut
    split <;> rfl
  have hput : ∀ rt1 : Runtime C, GroupsOnly rt rt1 →
      RunAt rt0 s none [] [] { rt1 with own := procGroupPut s rt1.own } ∧
        (procGroupPut s rt1.own).alive = rt.own.alive ∧
          (procGroupPut s rt1.own).mm = rt.own.mm := by
    intro rt1 honly
    have h1 := h.groupsOnly honly
    refine ⟨h1.setOwn h1.own.procGroupPut, ?_, ?_⟩
    · rw [(procGroupPut_same s rt1.own).alive, honly.own]
    · rw [hgroup, honly.own]
  unfold exitReport
  dsimp only
  split
  · exact hput rt (GroupsOnly.refl rt)
  refine hput _ ?_
  have hresume : SchedOnly rt (exitResumeParent s parentRef resume rt) := by
    unfold exitResumeParent
    split
    · exact completeSlot_schedOnly _ _ _
    · exact .refl rt
  split
  · exact hresume.groupsOnly.trans (childEventPublish_groupsOnly _ _ _)
  · exact hresume.groupsOnly

def exitEnd (s : C.Slot) (rt : Runtime C) : Runtime C :=
  (exitReport s (rt.own.vforkParent s) (exitRelease s rt).1
    ((exitRelease s rt).2.sched.ctl s).exitStatus (exitRelease s rt).2).2

/-- The exit is tried again later, or it goes through. -/
theorem handleExit_cases (s : C.Slot) (group : Bool) (rt : Runtime C) :
    GroupsOnly rt (handleExit s group rt).2 ∨
      ∃ rt', GroupsOnly rt rt' ∧ (handleExit s group rt).2 = exitEnd s rt' := by
  have hrequest : GroupsOnly rt (if group then
      threadGroupRequestExit s (rt.sched.ctl s).exitStatus rt else rt) := by
    split
    · exact threadGroupRequestExit_groupsOnly s _ rt
    · exact .refl rt
  unfold handleExit
  dsimp only
  generalize (if group then threadGroupRequestExit s (rt.sched.ctl s).exitStatus rt else rt) = rt1
    at hrequest ⊢
  have honly := hrequest.trans (abortSlot_schedOnly s rt1).groupsOnly
  generalize abortSlot s rt1 = r at honly ⊢
  obtain ⟨_ | _, rt2⟩ := r
  · exact .inl (honly.trans (primarySlotMark_schedOnly s rt2).groupsOnly)
  · exact .inr ⟨rt2, honly, rfl⟩

section

variable (h : RegionsOk rt) (halive : rt.own.alive s = true)
  (hcur : rt.own.snapshot s ≠ none → refIsCurrent rt.own (rt.own.vforkParent s) = true)
include h halive hcur

theorem exitEnd_ok : Settled rt (· ≠ s) (exitEnd s rt) ∧ (exitEnd s rt).own.alive s = false := by
  obtain ⟨hrun, hdead, hmm⟩ := exitRelease_at halive (h.openAlive halive)
    (fun ref href => (h.ledger.kept s ref halive href).2) hcur
  unfold exitEnd
  generalize exitRelease s rt = q at hrun hdead hmm ⊢
  obtain ⟨resume, rt1⟩ := q
  obtain ⟨hrep, halive1, hmm1⟩ := exitReport_at hrun (rt.own.vforkParent s) resume
    (rt1.sched.ctl s).exitStatus
  have hgone : (exitReport s (rt.own.vforkParent s) resume (rt1.sched.ctl s).exitStatus
      rt1).2.own.alive s = false := by
    rw [halive1]
    exact hdead
  refine ⟨hrep.closeDead h hgone ?_, hgone⟩
  rw [hmm1]
  exact hmm

/-- The exit handler keeps the regions when a vfork child still has its parent. -/
theorem handleExit_ok (group : Bool) : Settled rt (· ≠ s) (handleExit s group rt).2 ∧
      (GroupsOnly rt (handleExit s group rt).2 ∨
        (handleExit s group rt).2.own.alive s = false) := by
  rcases handleExit_cases s group rt with honly | ⟨rt', honly, heq⟩
  · exact ⟨h.settled honly _, .inl honly⟩
  · have halive' : rt'.own.alive s = true := by rw [honly.own]; exact halive
    obtain ⟨hdone, hgone⟩ := exitEnd_ok (h.groupsOnly honly) halive' (by rw [honly.own]; exact hcur)
    rw [heq]
    exact ⟨hdone.of_kept fun t _ => honly.kept t, .inr hgone⟩

end

end Lxp
