import Lxp.Region.Image

/-!
# Regions across exec

The exec transaction works under one lease: the vfork snapshot's own, or a fresh region's.  Before
the commit an abort leaves it as it was, afterwards either the new image takes it over or it is
given back with the contained task.
-/

open Function LeaseTable

namespace Lxp

variable {C : Config}
variable {tx : ExecTxn C} {rt0 rt : Runtime C} {ref : RegionRef C}
  {r : Option Errno × ExecTxn C × Runtime C} {s : C.Slot}
variable {img : ImageTxn C}

/-! ## Containment -/

/-- An exec past its commit point is over.  Unless the port refuses to stop a task, the slot owes no
vfork parent any more. -/
structure ExecDone (rt0 : Runtime C) (s : C.Slot) (rt : Runtime C) : Prop where
  settled : Settled rt0 (· ≠ s) rt
  unlinked : (∀ b ∈ rt0.sched.port.abort, b = true) →
    rt.own.alive s = false ∨ rt.own.vforkParent s = none

theorem execEnd_ok (h0 : RegionsOk rt0) (h : RunAt rt0 tx.slot none [] [] rt)
    (hmm : rt.own.mm tx.slot = none) (hsaved : tx.saved.mm = none) :
    ExecDone rt0 tx.slot (execEnd tx rt) := by
  have hput : OwnAt rt0.own tx.slot none [] [] (imagePut tx.saved rt.own) := by
    refine OwnAt.imagePut ?_
    rw [hsaved]
    exact h.own
  have hreport := execTxnReportFailure_groupsOnly { tx with saved := {} }
    { rt with own := imagePut tx.saved rt.own }
  have hslot : (execTxnReportFailure { tx with saved := {} }
      { rt with own := imagePut tx.saved rt.own }).1.slot = tx.slot := execTxnResumeParent_slot _ _
  have hrun := (h.setOwn hput).groupsOnly hreport
  unfold execEnd
  dsimp only
  generalize execTxnReportFailure { tx with saved := {} }
    { rt with own := imagePut tx.saved rt.own } = q at hreport hslot hrun ⊢
  obtain ⟨tx1, rt1⟩ := q
  rw [hslot]
  have hmm1 : rt1.own.mm tx.slot = none := by
    rw [hreport.own]
    rw [(imagePut_slots tx.saved rt.own).mm]
    exact hmm
  have hreset := hrun.own.childReset hmm1
  have hdone : RunAt rt0 tx.slot none [] [] { (primarySlotClear tx.slot (setRunnable tx.slot false
      (slotProcReset tx.slot rt1))) with
      own := vforkGuardReset tx.slot (procChildReset tx.slot rt1.own) } :=
    (hrun.setOwn hreset.guardReset).record rfl (fun t ht => update_of_ne ht _ _) rfl
  exact ⟨hdone.closeDead h0 (update_self _ _ _) (update_self _ _ _),
    fun _ => .inl (update_self _ _ _)⟩

theorem execTxnContain_ok (h0 : RegionsOk rt0) (hsaved : tx.saved.mm = none)
    (h : (execReleaseImage tx rt).1 = true ∧ RunAt rt0 tx.slot none [] []
      (execReleaseImage tx rt).2 ∧ (execReleaseImage tx rt).2.own.mm tx.slot = none) :
    ExecDone rt0 tx.slot (execTxnContain tx rt) := by
  obtain ⟨hreleased, hrun, hmm⟩ := h
  unfold execTxnContain
  dsimp only
  rw [if_pos hreleased]
  exact execEnd_ok h0 hrun hmm hsaved

/-! ## The detached transaction -/

/-- After the old image is gone: the slot is empty and its new incarnation holds the lease. -/
structure ExecDetached (rt0 : Runtime C) (tx : ExecTxn C) (ref : RegionRef C) (rt : Runtime C) :
    Prop where
  run : RunAt rt0 tx.slot (some ref) [] [] rt
  dead : rt.own.alive tx.slot = false
  vacant : rt.own.mm tx.slot = none
  host : rt.sched.host tx.slot = .dead
  region : tx.region = some ref
  newRef : tx.newRef = some (slotRefAt rt.own tx.slot)
  acquired : tx.regionAcquired = true
  saved : tx.saved.mm = none
  detached : tx.oldDetached = true
  running : tx.terminal = false
  phase : tx.phase = .committed
  image : tx.image = none

theorem execReleaseImage_none (h : ExecDetached rt0 tx ref rt) :
    (execReleaseImage tx rt).1 = true ∧ RunAt rt0 tx.slot none [] [] (execReleaseImage tx rt).2 ∧
      (execReleaseImage tx rt).2.own.mm tx.slot = none := by
  have hmatch : LeaseMatches rt.own.regions ref (slotRefAt rt.own tx.slot) 1 :=
    h.run.own.ledger.own ref rfl
  unfold execReleaseImage
  rw [h.image, h.acquired, h.region, h.newRef]
  dsimp only
  rw [if_pos hmatch]
  exact ⟨rfl, h.run.setOwn h.run.own.release, h.vacant⟩

theorem OwnAt.reassign {o0 o : Own C} {extra : List (Obj C)} {float : List (RegionRef C)}
    (h : OwnAt o0 s (some ref) extra float o) : OwnAt o0 s (some ref) extra float { o with
      generation := update o.generation s (o.generation s + 1)
      regions := setOwner o.regions ref.index (some ⟨s, o.generation s + 1⟩) } :=
  h.step h.ledger.reassign (fun _ _ => rfl) (fun _ _ => rfl) (fun _ _ => rfl)
    fun _ ht => Own.space_of_val rfl (fun _ _ => rfl) rfl (update_of_ne ht _ _) rfl

/-- Between the restored parent and the detached old image. -/
structure ExecStopping (rt0 : Runtime C) (tx : ExecTxn C) (ref : RegionRef C) (rt : Runtime C) :
    Prop where
  run : RunAt rt0 tx.slot (some ref) [] [] rt
  alive : rt.own.alive tx.slot = true
  untied : rt.own.snapshot tx.slot = none
  region : tx.region = some ref
  oldRef : tx.oldRef = slotRefAt rt.own tx.slot
  acquired : tx.regionAcquired = true
  attached : tx.oldDetached = false
  running : tx.terminal = false
  phase : tx.phase = .committed
  image : tx.image = none

theorem ExecStopping.schedOnly {rt' : Runtime C} (h : ExecStopping rt0 tx ref rt)
    (hs : SchedOnly rt rt') : ExecStopping rt0 tx ref rt' :=
  { h with
    run := h.run.schedOnly hs
    alive := by rw [hs.own]; exact h.alive
    untied := by rw [hs.own]; exact h.untied
    oldRef := by rw [hs.own]; exact h.oldRef }

theorem ExecStopping.resources {o : Own C} (h : ExecStopping rt0 tx ref rt)
    (ho : ResourcesOnly rt.own o) : ExecStopping rt0 tx ref { rt with own := o } :=
  { h with
    run := h.run.setOwn (h.run.own.resources ho)
    alive := by rw [← h.alive]; exact congrFun ho.sameColumns.alive _
    untied := by rw [← h.untied]; exact congrFun ho.sameColumns.snapshot _
    oldRef := by
      rw [h.oldRef]
      exact congrArg _ (congrFun ho.sameColumns.generation _).symm }

/-- The lease matches the incarnation it was taken for, so it goes along to the next one. -/
theorem execReassign_eq (h : RunAt rt0 tx.slot (some ref) [] [] rt) (hregion : tx.region = some ref)
    (hold : tx.oldRef = slotRefAt rt.own tx.slot) : execReassign tx rt = (true,
      { tx with slotReassigned := true, newRef := some ⟨tx.slot, rt.own.generation tx.slot + 1⟩ },
      { deferredSlotReassign tx.slot rt with own := { rt.own with
        generation := update rt.own.generation tx.slot (rt.own.generation tx.slot + 1)
        regions := setOwner rt.own.regions ref.index
          (some ⟨tx.slot, rt.own.generation tx.slot + 1⟩) } }) := by
  have hmatch : LeaseMatches rt.own.regions ref (slotRefAt rt.own tx.slot) 1 :=
    h.own.ledger.own ref rfl
  have hnew : slotRefAt (deferredSlotReassign tx.slot rt).own tx.slot =
      ⟨tx.slot, rt.own.generation tx.slot + 1⟩ :=
    congrArg (SlotRef.mk tx.slot) (update_self _ _ _)
  have hreassign : ∀ new, regionLeaseReassign ref tx.oldRef new
      (deferredSlotReassign tx.slot rt).own =
      some { (deferredSlotReassign tx.slot rt).own with
        regions := setOwner rt.own.regions ref.index (some new) } := by
    intro new
    unfold regionLeaseReassign leaseReassign
    rw [hold, if_pos]
    · rfl
    · exact hmatch
  unfold execReassign
  dsimp only
  rw [hregion, hnew]
  dsimp only
  rw [hreassign]
  rfl

theorem execTxnDetachOld_at (h : ExecStopping rt0 tx ref rt) {r : ExecTxn C × Runtime C}
    (hr : execTxnDetachOld tx rt = r) :
    RunAt rt0 tx.slot (some ref) [] [] r.2 ∧ r.2.own.alive tx.slot = false ∧
      r.2.own.mm tx.slot = none ∧ r.2.own.generation = rt.own.generation ∧
      r.2.sched.host = rt.sched.host ∧
      ∃ saved mask, saved.mm = none ∧
        r.1 = { tx with saved := saved, savedMask := mask, oldDetached := true } := by
  have hcleared : OwnAt rt0.own tx.slot (some ref) [] [] { rt.own with
      files := update rt.own.files tx.slot none
      fsContext := update rt.own.fsContext tx.slot none
      sighand := update rt.own.sighand tx.slot none
      group := update rt.own.group tx.slot none } := h.run.own.of_view rfl rfl
  have hput := hcleared.regionMmPut h.alive
  unfold execTxnDetachOld at hr
  rw [h.attached] at hr
  simp only [Bool.false_eq_true] at hr
  generalize hcl : { rt.own with
      files := update rt.own.files tx.slot none
      fsContext := update rt.own.fsContext tx.slot none
      sighand := update rt.own.sighand tx.slot none
      group := update rt.own.group tx.slot none } = o1 at hput hr
  have hmm := regionMmPut_mm tx.slot o1
  have hgen : (regionMmPut tx.slot o1).generation = rt.own.generation := by
    rw [(regionMmPut_same tx.slot o1).generation, ← hcl]
  subst hr
  refine ⟨?_, update_self _ _ _, hmm, hgen, rfl, _, _, ?_, rfl⟩
  · have hdead := (hput.setSnapshot none).setDead hmm
    exact (h.run.setOwn hdead).record rfl (fun _ _ => rfl) rfl
  · rfl

/-- Detaching the old image and reassigning the slot, with the native task already stopped. -/
theorem execDetach_at (h : ExecStopping rt0 tx ref rt) (hhost : rt.sched.host tx.slot = .dead)
    {r : ExecTxn C × Runtime C} (hr : execTxnDetachOld tx rt = r) :
    ∃ tx' rt', execReassign r.1 r.2 = (true, tx', rt') ∧ ExecDetached rt0 tx' ref rt' ∧
      tx'.slot = tx.slot := by
  obtain ⟨hrun, hdead, hmm, hgen, hsame, saved, mask, hsaved, htx⟩ := execTxnDetachOld_at h hr
  obtain ⟨tx1, rt1⟩ := r
  subst htx
  have hold : tx.oldRef = slotRefAt rt1.own tx.slot := by
    rw [h.oldRef, slotRefAt, slotRefAt, hgen]
  refine ⟨_, _, execReassign_eq hrun h.region hold, ?_, rfl⟩
  have hnext : RunAt rt0 tx.slot (some ref) [] [] { deferredSlotReassign tx.slot rt1 with
      own := { rt1.own with
        generation := update rt1.own.generation tx.slot (rt1.own.generation tx.slot + 1)
        regions := setOwner rt1.own.regions ref.index
          (some ⟨tx.slot, rt1.own.generation tx.slot + 1⟩) } } :=
    (hrun.setOwn hrun.own.reassign).record rfl (fun _ _ => rfl) rfl
  refine ⟨hnext, hdead, hmm, ?_, h.region, ?_, h.acquired, hsaved, rfl, h.running, h.phase, h.image⟩
  · rw [← hhost, ← hsame]
    rfl
  · exact congrArg (fun g => some (SlotRef.mk tx.slot g))
      (update_self tx.slot (rt1.own.generation tx.slot + 1) rt1.own.generation).symm

/-! ## Aborts -/

/-- A transaction past its commit whose failure is contained. -/
structure ExecOwns (tx : ExecTxn C) : Prop where
  saved : tx.saved.mm = none
  detached : tx.oldDetached = true
  running : tx.terminal = false
  phase : tx.phase.beforeCommit = false
  opened : tx.phase ≠ .aborted ∧ tx.phase ≠ .finished

theorem execTxnAbort_contains (h : ExecOwns tx) (e : Errno) (rt : Runtime C) :
    execTxnAbort tx e rt = execTxnContain tx rt := by
  have hnot : ¬ (tx.phase = .aborted ∨ tx.phase = .finished ∨ tx.terminal = true) := by
    rw [h.running]
    simp [h.opened.1, h.opened.2]
  unfold execTxnAbort
  rw [if_neg hnot, h.phase, h.detached]
  rfl

theorem ExecDetached.owns (h : ExecDetached rt0 tx ref rt) : ExecOwns tx :=
  { h with phase := by rw [h.phase]; rfl, opened := by rw [h.phase]; decide }

/-- An exec that fails around its commit ends the task or leaves it to exit. -/
theorem execTxnAbort_stopping (h0 : RegionsOk rt0) (h : ExecStopping rt0 tx ref rt) (e : Errno) :
    ExecDone rt0 tx.slot (execTxnAbort tx e rt) := by
  have hnot : ¬ (tx.phase = .aborted ∨ tx.phase = .finished ∨ tx.terminal = true) := by
    rw [h.phase, h.running]
    decide
  have hbefore : tx.phase.beforeCommit = false := by
    rw [h.phase]
    rfl
  have hstop := h.schedOnly (abortSlot_schedOnly tx.slot rt)
  have hfailed := abortSlot_failed tx.slot rt h.alive
  have hok : (∀ b ∈ rt0.sched.port.abort, b = true) → (abortSlot tx.slot rt).1 = true :=
    fun hport => abortSlot_ok tx.slot rt fun b hb => hport b (h.run.abort.subset hb)
  have hhost := abortSlot_host tx.slot rt
  unfold execTxnAbort
  rw [if_neg hnot, hbefore, h.attached]
  generalize abortSlot tx.slot rt = q at hstop hfailed hok hhost ⊢
  obtain ⟨_ | _, rt1⟩ := q
  · dsimp only
    refine ⟨?_, fun hport => by cases hok hport⟩
    -- The native task cannot be stopped: the lease goes, the task is already to exit.
    have hrel : releaseOldLease tx rt1.own =
        regionReleaseIfOwned ref (slotRefAt rt1.own tx.slot) rt1.own := by
      unfold releaseOldLease
      rw [h.acquired, h.region, hstop.oldRef]
    rw [hrel]
    refine (hstop.run.setOwn hstop.run.own.release).closeAlive h0 hstop.alive hstop.untied
      (fun ref href => by cases href) ⟨fun hsnap => absurd hstop.untied hsnap, fun _ _ => ?_⟩
    exact hfailed rfl
  · dsimp only
    obtain ⟨tx2, rt2, heq, hdet, hslot⟩ := execDetach_at hstop (hhost rfl) rfl
    have hcontain := execTxnContain_ok h0 hdet.saved (execReleaseImage_none hdet)
    rw [heq, ← hslot]
    exact hcontain

/-! ## The commit -/

/-- A reserved transaction: its region is the vfork snapshot, or the task is no vfork child. -/
structure ExecReserved (rt0 : Runtime C) (tx : ExecTxn C) (ref : RegionRef C) (rt : Runtime C) :
    Prop where
  run : RunAt rt0 tx.slot (some ref) [] [] rt
  alive : rt.own.alive tx.slot = true
  tied : (rt.own.snapshot tx.slot = none ∧ tx.parentRef = none) ∨
    (rt.own.snapshot tx.slot = some ref ∧ (rt.own.guards tx.slot).snapshot = some ref ∧
      tx.parentRef ≠ none)
  region : tx.region = some ref
  oldRef : tx.oldRef = slotRefAt rt.own tx.slot
  acquired : tx.regionAcquired = true
  attached : tx.oldDetached = false
  running : tx.terminal = false
  phase : tx.phase = .reserved
  image : tx.image = none

theorem execContained_ok (h0 : RegionsOk rt0) (h : ExecReserved rt0 tx ref rt)
    (hguard : (rt.own.guards tx.slot).snapshot = some ref) :
    ExecDone rt0 tx.slot (vforkContainStale tx.oldRef rt) := by
  have hslot : tx.oldRef.index = tx.slot := by rw [h.oldRef]; rfl
  obtain ⟨halive, hsnap, hparent⟩ := vforkContainStale_columns tx.oldRef rt
  have hopen : RunAt rt0 tx.oldRef.index (some ref) [] [] rt := by
    rw [hslot]
    exact h.run
  have hrun := vforkContainStale_at (by rw [hslot]; exact h.oldRef) hopen (fun q hq => by
    rw [hslot, hguard]
    exact hq)
  rw [hslot] at hrun hsnap hparent
  refine ⟨hrun.closeAlive h0 ?_ hsnap (fun q hq => by cases hq)
    ⟨fun hne => absurd hsnap hne, fun hne _ => absurd hparent hne⟩, fun _ => .inr hparent⟩
  rw [halive]
  exact h.alive

theorem execRestoreParent_holds (h0 : RegionsOk rt0) (h : ExecReserved rt0 tx ref rt)
    (hr : execRestoreParent { tx with phase := .committed } rt = r) :
    (r.1 = none → ExecStopping rt0 r.2.1 ref r.2.2) ∧
      (r.1 ≠ none → ExecDone rt0 tx.slot r.2.2 ∧ r.2.1.terminal = true) ∧ r.2.1.slot = tx.slot := by
  unfold execRestoreParent at hr
  rw [← and_assoc]
  split at hr
  · rename_i hnone
    subst hr
    refine ⟨⟨fun _ => { h with untied := ?_, phase := rfl }, absurd rfl⟩, rfl⟩
    rcases h.tied with ⟨hsnap, _⟩ | ⟨_, _, hparent⟩
    · exact hsnap
    · exact absurd hnone hparent
  rename_i parent hparent
  rcases h.tied with ⟨_, hnone⟩ | ⟨hsnap, hguard, _⟩
  · have hsome : tx.parentRef = some parent := hparent
    rw [hnone] at hsome
    cases hsome
  dsimp only at hr
  split at hr
  · subst hr
    exact ⟨⟨nofun, fun _ => ⟨execContained_ok h0 h hguard, rfl⟩⟩, rfl⟩
  rename_i rt1 hrestored
  subst hr
  refine ⟨⟨fun _ => ?_, absurd rfl⟩, rfl⟩
  have hres : ∃ par sp, vforkRestore par ref tx.oldRef sp rt = some rt1 := by
    split at hrestored
    · rename_i hq
      rw [hsnap] at hq
      injection hq with hq
      subst hq
      exact ⟨_, _, hrestored⟩
    · cases hrestored
  obtain ⟨par, sp, hres⟩ := hres
  have hslot : tx.oldRef.index = tx.slot := by rw [h.oldRef]; rfl
  have hown : rt1.own = vforkGuardReset tx.slot rt.own := by
    rw [vforkRestore_own hres, hslot]
  have hrun := vforkRestore_at hres (by rw [hslot]; exact h.run)
  rw [hslot] at hrun
  refine { h with
      run := hrun.setOwn (hrun.own.setSnapshot none), alive := ?_, untied := update_self _ _ _,
        oldRef := ?_, phase := rfl }
  · show rt1.own.alive tx.slot = true
    rw [hown]
    exact h.alive
  · show tx.oldRef = slotRefAt rt1.own tx.slot
    rw [hown, h.oldRef]
    rfl

theorem closeOnExec_only (s : C.Slot) (o : Own C) : ResourcesOnly o (closeOnExec s o) := by
  unfold closeOnExec
  split
  · exact .refl o
  · exact fdCloseOnExec_only _ o

/-- A commit ends with the parent's restore, or stops the old tasks and may end there, or detaches
the old image. -/
theorem execTxnCommit_cases (hphase : tx.phase = .reserved) (hr : execTxnCommit tx rt = r) :
    (r.1 ≠ none ∧ execRestoreParent { tx with phase := .committed } rt = r) ∨
    ∃ tx1 rt1 rt2 o, execRestoreParent { tx with phase := .committed } rt = (none, tx1, rt1) ∧
      SchedOnly rt1 rt2 ∧ ResourcesOnly rt2.own o ∧
      ((∃ e, r = (some e, tx1, { rt2 with own := o })) ∨
        (rt2.sched.host tx1.slot = .dead ∧ ∃ q, execReassign
            (execTxnDetachOld tx1 { rt2 with own := o }).1
            (execTxnDetachOld tx1 { rt2 with own := o }).2 = q ∧
          r = if q.1 then (none, q.2.1, clearDeviceMaps q.2.2) else (some .eio, q.2))) := by
  unfold execTxnCommit at hr
  rw [if_neg (not_not_intro hphase)] at hr
  generalize execRestoreParent { tx with phase := .committed } rt = q at hr ⊢
  obtain ⟨_ | e, tx1, rt1⟩ := q
  · dsimp only at hr
    refine .inr ⟨tx1, rt1, ?_⟩
    have hpeers := threadGroupStopExecPeers_schedOnly tx1.slot 127 rt1
    generalize threadGroupStopExecPeers tx1.slot 127 rt1 = q at hpeers hr
    obtain ⟨_ | _, rt2⟩ := q
    · exact ⟨rt2, rt2.own, rfl, hpeers, .refl _, .inl ⟨_, hr.symm⟩⟩
    dsimp only at hr
    have habort := hpeers.trans (abortSlot_schedOnly tx1.slot rt2)
    have hhost := abortSlot_host tx1.slot rt2
    generalize abortSlot tx1.slot rt2 = q at habort hhost hr
    obtain ⟨_ | _, rt3⟩ := q
    · exact ⟨rt3, rt3.own, rfl, habort, .refl _, .inl ⟨_, hr.symm⟩⟩
    dsimp only at hr
    have hunshare := procFilesUnshare_only tx1.slot rt3.own
    generalize procFilesUnshare tx1.slot rt3.own = q at hunshare hr
    obtain ⟨_ | e, o⟩ := q
    · refine ⟨rt3, _, rfl, habort, hunshare.trans (closeOnExec_only tx1.slot o),
        .inr ⟨hhost rfl, ?_⟩⟩
      dsimp only at hr
      generalize execReassign _ _ = q at hr ⊢
      obtain ⟨_ | _, q⟩ := q
      · exact ⟨_, rfl, hr.symm⟩
      · exact ⟨_, rfl, hr.symm⟩
    · exact ⟨rt3, o, rfl, habort, hunshare, .inl ⟨_, hr.symm⟩⟩
  · subst hr
    exact .inl ⟨by simp, rfl⟩

/-- A committed transaction is detached; a failed commit aborts to a consistent state. -/
theorem execTxnCommit_holds (h0 : RegionsOk rt0) (h : ExecReserved rt0 tx ref rt)
    (hr : execTxnCommit tx rt = r) : (r.1 = none → ExecDetached rt0 r.2.1 ref r.2.2) ∧
      (r.1 ≠ none → ∀ e, ExecDone rt0 tx.slot (execTxnAbort r.2.1 e r.2.2)) ∧
      r.2.1.slot = tx.slot := by
  obtain ⟨hok, hfail, hslot⟩ := execRestoreParent_holds h0 h rfl
  rcases execTxnCommit_cases h.phase hr with ⟨hne, hq⟩ | ⟨tx1, rt1, rt2, o, hq, hsched, hres, hend⟩
  · rw [hq] at hfail hslot
    obtain ⟨hdone, hterminal⟩ := hfail hne
    refine ⟨fun hnone => absurd hnone hne, fun _ e => ?_, hslot⟩
    unfold execTxnAbort
    rw [if_pos (.inr (.inr hterminal))]
    exact hdone
  rw [hq] at hok hslot
  have hstopped := ((hok rfl).schedOnly hsched).resources hres
  rcases hend with ⟨e, rfl⟩ | ⟨hhost, q, hre, rfl⟩
  · exact ⟨nofun, fun _ => hslot ▸ execTxnAbort_stopping h0 hstopped, hslot⟩
  obtain ⟨tx2, rt4, heq, hdet, hslot2⟩ := execDetach_at hstopped hhost rfl
  rw [heq] at hre
  subst hre
  refine ⟨fun _ => ?_, absurd rfl, hslot2.trans hslot⟩
  have hmaps := clearDeviceMaps_schedOnly rt4
  show ExecDetached rt0 tx2 ref (clearDeviceMaps rt4)
  exact { hdet with
    run := hdet.run.schedOnly hmaps
    dead := by rw [hmaps.own]; exact hdet.dead
    vacant := by rw [hmaps.own]; exact hdet.vacant
    host := by rw [clearDeviceMaps_host]; exact hdet.host
    newRef := by rw [hmaps.own]; exact hdet.newRef }

/-! ## The new image -/

theorem ExecOwns.withImage (h : ExecOwns tx) (img : ImageTxn C) :
    ExecOwns { tx with image := some img } :=
  { h with }

/-- An exec that fails with its image off the slot is contained. -/
theorem execTxnAbort_image (h0 : RegionsOk rt0) (htx : ExecOwns tx) (himage : tx.image = some img)
    (h : ImageHolds rt0 img rt) (hslot : img.slot = tx.slot) (hmm : rt.own.mm tx.slot = none)
    (e : Errno) : ExecDone rt0 tx.slot (execTxnAbort tx e rt) := by
  rw [execTxnAbort_contains htx]
  obtain ⟨hok, hrun, hslots⟩ := imageTxnAbort_unpublished h
  have hrelease : execReleaseImage tx rt = imageTxnAbort img rt := by
    rw [execReleaseImage, himage]
  refine execTxnContain_ok h0 htx.saved ?_
  rw [hrelease]
  refine ⟨hok, ?_, ?_⟩
  · rw [hslot] at hrun
    exact hrun
  · rw [hslots.mm]
    exact hmm

/-- Adopting the old descriptors, context and group leaves the address space alone. -/
theorem execAdoptOldResources_holds (h : ImageHolds rt0 img rt) {r : ExecTxn C × ImageTxn C × Own C}
    (hr : execAdoptOldResources tx img rt.own = r) :
    ImageHolds rt0 r.2.1 { rt with own := r.2.2 } ∧ SameSlots rt.own r.2.2 ∧
      r.2.1.slot = img.slot ∧ r.1 = { tx with saved := {} } := by
  unfold execAdoptOldResources at hr
  dsimp only at hr
  have hres := (filesPut_only img.proc.files rt.own).trans (fsContextPut_only img.proc.fsContext _)
  have hown := h.run.own.resources hres
  have hmms : (fsContextPut img.proc.fsContext (filesPut img.proc.files rt.own)).mms =
      rt.own.mms := by rw [hres]
  generalize fsContextPut img.proc.fsContext (filesPut img.proc.files rt.own) = o1
    at hres hown hmms hr
  have hgroup := hown.groupPut img.proc.group
  have hgroupSlots := hres.sameSlots.trans (groupPut_slots img.proc.group o1)
  have hgroupMms : (groupPut img.proc.group o1).mms = rt.own.mms := by
    rw [← hmms]
    unfold groupPut
    split <;> rfl
  generalize groupPut img.proc.group o1 = o2 at hgroup hgroupSlots hgroupMms hr
  have hsig := sighandPut_only tx.saved.sighand o2
  subst hr
  have hslots := hgroupSlots.trans hsig.sameSlots
  refine ⟨⟨h.run.setOwn (hgroup.resources hsig), h.unpublished, ?_, fun m hm => ?_⟩, hslots,
    rfl, rfl⟩
  · rw [h.owner, slotRefAt, slotRefAt, hslots.generation]
  · rw [hsig]
    rw [hgroupMms]
    exact h.named m hm

/-- The image starts, or the task is contained.  A launch that fails can be contained only when the
new native task can be stopped. -/
theorem execPublish_ok (h0 : RegionsOk rt0) (htx : ExecOwns tx) (h : ImageHolds rt0 img rt)
    (hslot : img.slot = tx.slot) (hdead : rt.own.alive img.slot = false)
    (hmm : rt.own.mm img.slot = none) (hhost : rt.sched.host img.slot = .dead)
    (hport : (∀ b ∈ rt0.sched.port.launch, b = true) ∨ ∀ b ∈ rt0.sched.port.abort, b = true) :
    ExecDone rt0 tx.slot (execPublish tx img rt) := by
  unfold execPublish
  generalize hpub : imageTxnPublish img rt = q
  obtain ⟨hsame, hhost1, hfail, hok⟩ := imageTxnPublish_holds h hdead hmm hpub
  obtain ⟨_ | e, img1, rt1⟩ := q
  · dsimp only
    obtain ⟨m, hpublished⟩ := hok rfl
    have hslot1 : img1.slot = tx.slot := hsame.slot.trans hslot
    have hhost2 : rt1.sched.host img1.slot = .dead := by
      rw [hhost1, hsame.slot]
      exact hhost
    generalize hstart : imageTxnStart img1 rt1 = q
    obtain ⟨_ | e, rt2⟩ := q
    · obtain ⟨hrun, halive, hsnap, _⟩ := imageTxnStart_ok hpublished hstart
      have honly := execTxnResumeParent_schedOnly tx rt2
      have hresumed := hrun.schedOnly honly
      rw [hslot1] at hresumed halive hsnap
      have hsnap' : (execTxnResumeParent tx rt2).2.own.snapshot tx.slot = none := by
        rw [honly.own]
        exact hsnap
      refine ⟨(hresumed.setOwn (hresumed.own.setVforkParent none)).closeAlive h0 ?_ hsnap'
        (fun q hq => by cases hq) ⟨fun hne => absurd hsnap' hne, fun hne => ?_⟩,
        fun _ => .inr (update_self _ _ _)⟩
      · rw [honly.own]
        exact halive
      · exact absurd (update_self _ _ _) hne
    · obtain ⟨hpublished2, hrefused⟩ := imageTxnStart_failed hpublished hhost2 hstart
      have hstops : ∀ b ∈ rt2.sched.port.abort, b = true := by
        rcases hport with hlaunch | habort
        · cases hlaunch false (hpublished.launch.subset hrefused)
        · exact fun b hb => habort b (hpublished2.abort.subset hb)
      obtain ⟨hdone, hrun, hgone⟩ := imageTxnAbort_published hpublished2 hstops
      rw [hslot1] at hrun hgone
      have howns : ExecOwns { tx with image := some img1, phase := .published } :=
        { htx with phase := rfl, opened := by simp }
      dsimp only
      rw [execTxnAbort_contains howns]
      show ExecDone rt0 ({ tx with image := some img1, phase := .published } : ExecTxn C).slot _
      exact execTxnContain_ok h0 htx.saved ⟨hdone, hrun, hgone⟩
  · obtain ⟨hholds, hown⟩ := hfail (by simp)
    refine execTxnAbort_image h0 (htx.withImage img1) rfl hholds (hsame.slot.trans hslot) ?_ e
    rw [hown, ← hslot]
    exact hmm

theorem execFinish_ok (h0 : RegionsOk rt0) (h : ExecDetached rt0 tx ref rt) (l : LoadResult)
    (hport : (∀ b ∈ rt0.sched.port.launch, b = true) ∨ ∀ b ∈ rt0.sched.port.abort, b = true) :
    ExecDone rt0 tx.slot (execFinish tx l rt) := by
  unfold execFinish
  split
  · rename_i hregion hnew
    rw [h.region] at hregion
    injection hregion with hregion
    rw [h.newRef] at hnew
    injection hnew with hnew
    subst hregion hnew
    dsimp only
    generalize hprep : imageTxnPrepare _ tx.ppid l rt = q
    obtain ⟨hholds, hsame, hslots, hsched⟩ := imageTxnPrepare_holds hprep h.run rfl rfl rfl
    obtain ⟨_ | e, img1, rt1⟩ := q
    · dsimp only
      generalize hadopted : execAdoptOldResources _ img1 rt1.own = q
      obtain ⟨hadopt, haslots, haslot, htx1⟩ := execAdoptOldResources_holds hholds hadopted
      obtain ⟨tx2, img2, o2⟩ := q
      have hslot : img2.slot = tx.slot := haslot.trans hsame.slot
      have hall := hslots.trans haslots
      subst htx1
      show ExecDone rt0 ({ tx with phase := .imageReady, saved := {} } : ExecTxn C).slot _
      refine execPublish_ok h0 ⟨rfl, h.detached, h.running, rfl, by simp⟩ hadopt hslot ?_
        ?_ ?_ hport
      · rw [hslot]
        exact (congrFun hall.alive _).trans h.dead
      · rw [hslot]
        exact (congrFun hall.mm _).trans h.vacant
      · rw [hslot]
        exact (congrFun (congrArg Sched.host hsched) _).trans h.host
    · refine execTxnAbort_image h0 (h.owns.withImage img1) rfl hholds hsame.slot ?_ e
      exact (congrFun hslots.mm _).trans h.vacant
  · rename_i hno
    exact absurd h.newRef (hno _ _ h.region)

/-! ## The handler -/

/-- What the handler does with a reserved transaction. -/
def execReserved (tx : ExecTxn C) (l : LoadResult) (rt : Runtime C) : Runtime C :=
  match execTxnCommit tx rt with
  | (some e, tx, rt) => execTxnAbort tx e rt
  | (none, tx, rt) => execFinish tx l rt

theorem execReserved_ok (h0 : RegionsOk rt0) (h : ExecReserved rt0 tx ref rt) (l : LoadResult)
    (hport : (∀ b ∈ rt0.sched.port.launch, b = true) ∨ ∀ b ∈ rt0.sched.port.abort, b = true) :
    ExecDone rt0 tx.slot (execReserved tx l rt) := by
  unfold execReserved
  generalize hcom : execTxnCommit tx rt = q
  obtain ⟨hdetached, hfailed, hslot⟩ := execTxnCommit_holds h0 h hcom
  obtain ⟨_ | e, tx1, rt1⟩ := q
  · rw [← hslot]
    exact execFinish_ok h0 (hdetached rfl) l hport
  · exact hfailed (by simp) e

/-- A transaction that fails before it holds anything resumes its task unchanged. -/
theorem execTxnAbort_early (hphase : tx.phase = .empty ∨ tx.phase = .validated)
    (hacq : tx.regionAcquired = false) (hrun : tx.terminal = false) (e : Errno) (rt : Runtime C) :
    SchedOnly rt (execTxnAbort tx e rt) := by
  have hnot : ¬ (tx.phase = .aborted ∨ tx.phase = .finished ∨ tx.terminal = true) := by
    rcases hphase with hp | hp <;> rw [hp, hrun] <;> decide
  have hbefore : tx.phase.beforeCommit = true := by
    rcases hphase with hp | hp <;> rw [hp] <;> rfl
  have hkeep :
      (if tx.usesSnapshot then rt else { rt with own := releaseOldLease tx rt.own }) = rt := by
    split
    · rfl
    · rw [releaseOldLease, hacq]
  unfold execTxnAbort
  rw [if_neg hnot, hbefore]
  simp only [hkeep]
  exact completeSlot_schedOnly rt _ _

/-- A reservation is refused with the task unchanged, or holds the vfork snapshot or a region that
was free. -/
theorem execTxnReserve_holds (h : RegionsOk rt) (halive : rt.own.alive tx.slot = true)
    (htx : tx.phase = .validated ∧ tx.regionAcquired = false ∧ tx.oldDetached = false ∧
      tx.terminal = false ∧ tx.image = none)
    (hold : tx.oldRef = slotRefAt rt.own tx.slot)
    (hparent : tx.parentRef = rt.own.vforkParent tx.slot)
    (hpair : rt.own.vforkParent tx.slot ≠ none → rt.own.snapshot tx.slot ≠ none)
    (hr : execTxnReserve tx rt = r) :
    (r.1 = none → ∃ ref, ExecReserved rt r.2.1 ref r.2.2 ∧ r.2.1.slot = tx.slot ∧
      (∀ q, rt.own.snapshot tx.slot = some q → ref = q ∧ r.2.1.parentRef = tx.parentRef ∧
        r.2.2 = rt)) ∧
      (r.1 ≠ none → ∀ e, SchedOnly rt (execTxnAbort r.2.1 e r.2.2)) := by
  obtain ⟨hphase, hacq, hatt, hrun, himage⟩ := htx
  have hopen := h.openAlive halive
  have hearly := execTxnAbort_early (.inr hphase) hacq hrun
  unfold execTxnReserve at hr
  split at hr
  · subst hr
    exact ⟨nofun, fun _ e => hearly e rt⟩
  split at hr
  · rename_i ref hsnap
    obtain ⟨hmatch, hguard⟩ := h.ledger.kept tx.slot ref halive hsnap
    have hlease : LeaseMatches rt.own.regions ref tx.oldRef 1 := by
      rw [hold]
      exact hmatch
    rw [if_pos hlease] at hr
    subst hr
    refine ⟨fun _ => ⟨ref, ?_, rfl, fun q hq => ⟨?_, rfl, rfl⟩⟩, absurd rfl⟩
    · rw [hsnap] at hopen
      refine ⟨hopen, halive, .inr ⟨hsnap, hguard, ?_⟩, rfl, hold, rfl, hatt, hrun, rfl, himage⟩
      rw [hparent]
      exact (h.vforked tx.slot halive).parent (by rw [hsnap]; simp)
    · rw [hsnap] at hq
      injection hq
  · rename_i hsnap
    rw [hsnap] at hopen
    split at hr
    · subst hr
      exact ⟨nofun, fun _ e => hearly e rt⟩
    split at hr
    · subst hr
      exact ⟨nofun, fun _ e => hearly e rt⟩
    rename_i ref o hres
    subst hr
    refine ⟨fun _ => ⟨ref, ?_, rfl, fun q hq => ?_⟩, absurd rfl⟩
    · rw [hold] at hres
      have hown := hopen.own.reserve hres
      have hcols := regionReserve_slots hres
      refine ⟨hopen.setOwn hown, ?_, .inl ⟨?_, ?_⟩, rfl, ?_, rfl, hatt, hrun, rfl, himage⟩
      · exact (congrFun hcols.alive _).trans halive
      · exact (congrFun hcols.snapshot _).trans hsnap
      · rw [hparent]
        by_contra hne
        exact hpair hne hsnap
      · rw [hold, slotRefAt, slotRefAt, hcols.generation]
    · rw [hsnap] at hq
      cases hq

theorem execTxnValidateImage_cases (tx : ExecTxn C) (image : Option FileImage) (remote : Bool) :
    execTxnValidateImage tx image remote = (some .enoexec, tx) ∨
      execTxnValidateImage tx image remote = (none, { tx with phase := .validated }) := by
  unfold execTxnValidateImage
  split
  · split
    · exact .inr rfl
    · exact .inl rfl
  · exact .inl rfl

/-- The state in which the handler of `s` has taken the task's intent. -/
structure ExecOpened (rt : Runtime C) (s : C.Slot) (rt' : Runtime C) : Prop where
  regions : RegionsOk rt'
  kept : ∀ t, t ≠ s → Kept rt t rt'
  own : rt'.own = rt.own
  ram : rt'.ram = rt.ram
  sp : rt'.sched.resumeSp = rt.sched.resumeSp
  abort : rt'.sched.port.abort <:+ rt.sched.port.abort
  launch : rt'.sched.port.launch <:+ rt.sched.port.launch

theorem ExecOpened.schedOnly {rt1 rt2 : Runtime C} (h : ExecOpened rt s rt1)
    (hs : SchedOnly rt1 rt2) : ExecOpened rt s rt2 :=
  ⟨h.regions.groupsOnly hs.groupsOnly, fun t ht => (h.kept t ht).trans (hs.groupsOnly.kept t),
    hs.own.trans h.own, hs.ram.trans h.ram, hs.resumeSp.trans h.sp, hs.abort.trans h.abort,
    hs.launch.trans h.launch⟩

theorem ExecOpened.intentClear {rt1 : Runtime C} (h : ExecOpened rt s rt1)
    (hpair : rt.own.vforkParent s ≠ none → rt.own.snapshot s ≠ none) :
    ExecOpened rt s (intentClear s rt1) := by
  refine { h with regions := h.regions.intentClear fun _ => ?_, kept := fun t ht => ?_ }
  · rw [h.own]
    exact hpair
  obtain ⟨halive, hparent, hsnap, hspace, hintent, hsp, hsaved⟩ := h.kept t ht
  refine ⟨halive, hparent, hsnap, hspace, ?_, hsp, hsaved⟩
  show (rt.sched.ctl t).intent.Kept (update rt1.sched.ctl s _ t).intent
  rw [update_of_ne ht]
  exact hintent

section

variable (h : RegionsOk rt) (halive : rt.own.alive s = true)
  (hpair : rt.own.vforkParent s ≠ none → rt.own.snapshot s ≠ none) (l : LoadResult)
include h halive hpair

/-- The exec handler refuses the request with the task's objects unchanged, or commits a
transaction that holds a lease: a vfork child's that of its snapshot. -/
theorem handleExec_cases :
    ExecOpened rt s (handleExec s l rt) ∨ ∃ rt1 rt2 tx ref, ExecOpened rt s rt1 ∧
      ExecReserved rt1 tx ref rt2 ∧ tx.slot = s ∧ handleExec s l rt = execReserved tx l rt2 ∧
      (∀ q, rt.own.snapshot s = some q →
        ref = q ∧ tx.parentRef = rt.own.vforkParent s ∧ rt2 = rt1) := by
  have hrefl : ExecOpened rt s rt := ⟨h, fun t _ => (GroupsOnly.refl rt).kept t, rfl, rfl, rfl,
    List.suffix_refl _, List.suffix_refl _⟩
  have hpark := hrefl.schedOnly (parkSlot_schedOnly s rt)
  unfold handleExec
  generalize parkSlot s rt = q at hpark ⊢
  obtain ⟨_ | _, rt1⟩ := q
  · exact .inl hpark
  dsimp only
  have hopen := hpark.intentClear hpair
  generalize intentClear s rt1 = rt2 at hopen ⊢
  rcases execTxnValidateImage_cases (execTxnInit s rt2.own)
    (execImage (execTxnInit s rt2.own).imageIndex rt2).1
    (execImage (execTxnInit s rt2.own).imageIndex rt2).2 with hval | hval
  · rw [hval]
    exact .inl (hopen.schedOnly (execTxnAbort_early (.inl rfl) rfl rfl _ _))
  rw [hval]
  dsimp only
  generalize hres : execTxnReserve _ rt2 = q
  obtain ⟨hreserved, hfailed⟩ := execTxnReserve_holds hopen.regions
    (by rw [hopen.own]; exact halive) ⟨rfl, rfl, rfl, rfl, rfl⟩ rfl rfl
    (by rw [hopen.own]; exact hpair) hres
  obtain ⟨_ | e, tx, rt3⟩ := q
  · obtain ⟨ref, htx, hslot, hsnap⟩ := hreserved rfl
    refine .inr ⟨rt2, rt3, tx, ref, hopen, htx, hslot, rfl, fun q hq => ?_⟩
    rw [← hopen.own] at hq ⊢
    exact hsnap q hq
  · exact .inl (hopen.schedOnly (hfailed (by simp) e))

/-- The exec handler keeps the regions unless the port refuses both the launch of the new task and
its abort. -/
theorem handleExec_ok
    (hport : (∀ b ∈ rt.sched.port.launch, b = true) ∨ ∀ b ∈ rt.sched.port.abort, b = true) :
    Settled rt (· ≠ s) (handleExec s l rt) := by
  rcases handleExec_cases h halive hpair l with hopen | ⟨rt1, rt2, tx, ref, hopen, htx,
    hslot, heq, _⟩
  · exact ⟨hopen.regions, hopen.kept⟩
  rw [heq]
  have hport1 : (∀ b ∈ rt1.sched.port.launch, b = true) ∨ ∀ b ∈ rt1.sched.port.abort, b = true := by
    rcases hport with hl | ha
    · exact .inl fun b hb => hl b (hopen.launch.subset hb)
    · exact .inr fun b hb => ha b (hopen.abort.subset hb)
  have hdone := (execReserved_ok hopen.regions htx l hport1).settled
  rw [hslot] at hdone
  exact hdone.of_kept hopen.kept

end

end Lxp
