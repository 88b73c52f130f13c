import Lxp.Region.Working

/-!
# Regions across fork, vfork and clone

The child's slot is dead until the publish.  Until then the transaction holds one reference to the
parent's region and, for vfork, the snapshot's lease; the abort gives back exactly these.
-/

open Function RefPool

namespace Lxp

variable {C : Config}
variable {rt0 rt : Runtime C} {tx : ForkTxn C}
variable {r : Option Errno × Runtime C} {child : C.Slot} {flags : CloneFlags}

/-! ## Building and discarding a child -/

theorem shareOrNew_ok {α : Type} {share : Bool} {p p' : Pool α C.npool} {i j : Obj C} {fresh : α}
    (h : shareOrNew share p i fresh = .ok (j, p')) :
    (j = i ∧ p' = p.get i) ∨ p.new fresh = some (j, p') := by
  unfold shareOrNew at h
  split at h
  · split at h
    · cases h
    · injection h with h
      injection h with hj hp
      exact .inl ⟨hj.symm, hp.symm⟩
  split at h
  · cases h
  · rename_i hnew
    injection h with h
    rw [h] at hnew
    exact .inr hnew

namespace OwnAt

variable {o0 o : Own C} {s parent : C.Slot} {held : Option (RegionRef C)}
  {extra : List (Obj C)} {float : List (RegionRef C)}

section

variable (h : OwnAt o0 s held extra float o)
include h

theorem childReset (hmm : o.mm s = none) : OwnAt o0 s held extra float (procChildReset s o) := by
  refine (((h.setDead hmm).setSnapshot none).setVforkParent none).of_view ?_ rfl
    (fun _ ht => update_of_ne ht _ _)
  have hsame : update o.mm s none = o.mm := by rw [← hmm, update_eq_self]
  simp only [procChildReset, Own.regionView, hsame]

theorem childDiscard (hs : o.alive s = false) :
    OwnAt o0 s held extra float (procChildDiscard s o) := by
  have hres := h.resources (procResourcesPut_only s o)
  have hdead : (procResourcesPut s o).alive s = false := by
    rw [(procResourcesPut_only s o).sameColumns.alive]
    exact hs
  refine (hres.procMmPut hdead).procGroupPut.childReset ?_
  unfold Lxp.procGroupPut Lxp.groupPut
  split <;> exact update_self _ _ _

/-- The child shares the parent's address space or gets a copy of its record. -/
theorem mmFork (hs : o.alive s = false) (hmm : o.mm s = none)
    (parent : C.Slot) (flags : CloneFlags) :
    OwnAt o0 s held extra float (procMmFork s parent flags o).2 := by
  have hsame : update o.mm s none = o.mm := by rw [← hmm, update_eq_self]
  unfold procMmFork
  split
  · exact h
  dsimp only
  rw [hsame]
  split
  · exact h
  rename_i hok
  rcases shareOrNew_ok hok with ⟨rfl, rfl⟩ | hnew
  · exact h.step ((h.ledger.getMm _).storeMm hs hmm) (fun _ _ => rfl) (fun _ _ => rfl)
      (fun _ _ => rfl) fun _ ht =>
        Own.space_of_val (update_of_ne ht _ _) (fun _ _ => rfl) rfl rfl rfl
  · exact h.step ((h.ledger.newMm hnew).storeMm hs hmm) (fun _ _ => rfl) (fun _ _ => rfl)
      (fun _ _ => rfl) fun _ ht => Own.space_of_val (update_of_ne ht _ _)
        (fun _ hm' => h.ledger.counted.new_val hnew hm') rfl rfl rfl

end

end OwnAt

theorem procMmFork_same (child parent : C.Slot) (flags : CloneFlags) (o : Own C) :
    SameColumns o (procMmFork child parent flags o).2 := by
  unfold procMmFork
  split
  · exact ⟨rfl, rfl, rfl, rfl⟩
  · dsimp only
    split <;> exact ⟨rfl, rfl, rfl, rfl⟩

theorem procGroupFork_only (child parent : C.Slot) (flags : CloneFlags) (pid : Nat) (o : Own C) :
    GroupRecordsOnly o (procGroupFork child parent flags pid o).2 := by
  unfold procGroupFork
  split
  · rfl
  · dsimp only
    split <;> rfl

/-- A slot under construction: dead, and without ties to a vfork parent. -/
structure Unborn (generation : Nat) (s : C.Slot) (o : Own C) : Prop where
  alive : o.alive s = false
  generation : o.generation s = generation
  vforkParent : o.vforkParent s = none
  snapshot : o.snapshot s = none

variable {s parent : C.Slot} {pid sp : Nat}

theorem Unborn.same {generation : Nat} {o o' : Own C} (h : Unborn generation s o)
    (hc : SameColumns o o') : Unborn generation s o' :=
  ⟨by rw [hc.alive, h.alive], by rw [hc.generation, h.generation],
    by rw [hc.vforkParent, h.vforkParent], by rw [hc.snapshot, h.snapshot]⟩

theorem unborn_reset (s : C.Slot) (o : Own C) : Unborn (o.generation s) s (procChildReset s o) :=
  ⟨update_self _ _ _, rfl, update_self _ _ _, update_self _ _ _⟩

theorem unborn_discard {generation : Nat} {o : Own C}
    (h : Unborn generation s o) : Unborn generation s (procChildDiscard s o) := by
  have hc := ((procResourcesPut_only s o).sameColumns.trans (procMmPut_same s _)).trans
    (procGroupPut_same s _)
  have hreset := unborn_reset s (procGroupPut s (procMmPut s (procResourcesPut s o)))
  rw [hc.generation, h.generation] at hreset
  exact hreset

/-- A child is built off the parent, or nothing of it is left. -/
theorem procInitChild_at {o0 o : Own C}
    {float : List (RegionRef C)} {r : Option Errno × Own C} (h : OwnAt o0 child none [] float o)
    (hmm : o.mm child = none) (hr : procInitChild child parent flags pid o = r) :
    OwnAt o0 child none [] float r.2 ∧ Unborn (o.generation child) child r.2 ∧
      (r.1 ≠ none → r.2.mm child = none) := by
  have hcopy : OwnAt o0 child none [] float (procChildCopyValues child parent pid o) :=
    (h.childReset hmm).of_view rfl rfl fun _ ht =>
      (update_of_ne ht _ _).trans (update_of_ne ht _ _).symm
  have hunborn : Unborn (o.generation child) child (procChildCopyValues child parent pid o) :=
    (unborn_reset child o).same ⟨rfl, rfl, rfl, rfl⟩
  have hmmCopy : (procChildCopyValues child parent pid o).mm child = none := update_self _ _ _
  unfold procInitChild at hr
  dsimp only at hr
  generalize procChildCopyValues child parent pid o = o1 at hcopy hunborn hmmCopy hr
  have hmmFork := hcopy.mmFork hunborn.alive hmmCopy parent flags
  have hunborn2 := hunborn.same (procMmFork_same child parent flags o1)
  have hdiscard : ∀ {o2 : Own C}, OwnAt o0 child none [] float o2 →
      Unborn (o.generation child) child o2 → ∀ e : Errno,
      OwnAt o0 child none [] float (procChildDiscard child o2) ∧
        Unborn (o.generation child) child (procChildDiscard child o2) ∧
        ((some e) ≠ none → (procChildDiscard child o2).mm child = none) :=
    fun h2 hu _ => ⟨h2.childDiscard hu.alive, unborn_discard hu, fun _ => update_self _ _ _⟩
  generalize procMmFork child parent flags o1 = r1 at hmmFork hunborn2 hr
  obtain ⟨_ | e, o2⟩ := r1
  · dsimp only at hr
    have hres := hmmFork.resources (procResourcesFork_at child parent flags o2).only
    have hunborn3 := hunborn2.same (procResourcesFork_at child parent flags o2).only.sameColumns
    generalize procResourcesFork child parent flags o2 = r2 at hres hunborn3 hr
    obtain ⟨_ | e, o3⟩ := r2
    · dsimp only at hr
      have hgroup := hres.groupRecords (procGroupFork_only child parent flags pid o3)
      have hunborn4 :=
        hunborn3.same (procGroupFork_only child parent flags pid o3).sameSlots.toSameColumns
      generalize procGroupFork child parent flags pid o3 = r3 at hgroup hunborn4 hr
      obtain ⟨_ | e, o4⟩ := r3
      · subst hr
        exact ⟨hgroup, hunborn4, absurd rfl⟩
      · subst hr
        exact hdiscard hgroup hunborn4 e
    · subst hr
      exact hdiscard hres hunborn3 e
  · subst hr
    exact hdiscard hmmFork hunborn2 e

theorem clearRecord_at {held : Option (RegionRef C)} {extra : List (Obj C)}
    {float : List (RegionRef C)} (h : RunAt rt0 s held extra float rt) :
    RunAt rt0 s held extra float (clearRecord s rt) :=
  h.record rfl (fun _ ht => update_of_ne ht _ _) rfl

theorem initChild_at {float : List (RegionRef C)}
    (h : RunAt rt0 child none [] float rt) (hdead : rt.own.alive child = false)
    (hmm : rt.own.mm child = none) (hr : initChild child parent flags pid rt = r) :
    RunAt rt0 child none [] float r.2 ∧ r.2.own.alive child = false ∧
      r.2.own.generation child = rt.own.generation child ∧
      (r.1 = none → Unborn (rt.own.generation child) child r.2.own) ∧
      (r.1 ≠ none → r.2.own.mm child = none) := by
  unfold initChild at hr
  split at hr
  · obtain ⟨hown, hunborn, hbare⟩ := procInitChild_at h.own hmm (r := procInitChild child parent
      flags pid rt.own) rfl
    generalize procInitChild child parent flags pid rt.own = q at hown hunborn hbare hr
    obtain ⟨_ | e, o⟩ := q
    · subst hr
      refine ⟨?_, hunborn.alive, hunborn.generation, fun _ => hunborn, hbare⟩
      exact ((clearRecord_at h).setOwn hown).record rfl (fun _ _ => rfl) rfl
    · subst hr
      exact ⟨(clearRecord_at h).setOwn hown, hunborn.alive, hunborn.generation, nofun, hbare⟩
  · subst hr
    exact ⟨h, hdead, rfl, nofun, fun _ => hmm⟩

/-! ## The fork transaction -/

def ForkTxn.held (tx : ForkTxn C) (o : Own C) : Option (RegionRef C) :=
  if tx.childConstructed then o.snapshot tx.child else none

def ForkTxn.float (tx : ForkTxn C) : List (RegionRef C) :=
  if tx.regionAcquired then tx.parentRegion.toList else []

/-- What an open fork transaction owns. -/
structure ForkHolds (rt0 : Runtime C) (tx : ForkTxn C) (rt : Runtime C) : Prop where
  run : RunAt rt0 tx.child (tx.held rt.own) [] tx.float rt
  dead : rt.own.alive tx.child = false
  bare : tx.childConstructed = false → rt.own.mm tx.child = none
  childRef : tx.childRef = slotRefAt rt.own tx.child
  opened : tx.phase = .preparing ∨ tx.phase = .prepared
  fresh : rt0.own.alive tx.child = false

/-- Every task alive at the fork is a bystander. -/
theorem ForkHolds.settled {rt' : Runtime C} (h : ForkHolds rt0 tx rt)
    (hs : Settled rt0 (· ≠ tx.child) rt') : Settled rt0 (rt0.own.alive · = true) rt' := by
  refine hs.mono fun t ht hts => ?_
  rw [hts, h.fresh] at ht
  cases ht

theorem countChild_only (parent : C.Slot) (o : Own C) :
    GroupRecordsOnly o (countChild parent o) := by
  unfold countChild
  split <;> rfl

theorem uncountChild_only (parent : C.Slot) (o : Own C) :
    GroupRecordsOnly o (uncountChild parent o) := by
  unfold uncountChild
  split <;> rfl

/-- The abort gives back the lease, the region reference and the child's address space. -/
theorem forkTxnRelease_at (h : ForkHolds rt0 tx rt) :
    OwnAt rt0.own tx.child none [] [] (forkTxnRelease tx rt.own) ∧
      (forkTxnRelease tx rt.own).alive tx.child = false ∧
      (forkTxnRelease tx rt.own).mm tx.child = none := by
  obtain ⟨⟨hown, _, _, _, _, _⟩, hdead, hbare, href, _⟩ := h
  -- The child count is no part of the ledger.
  have hcount : ∃ o1, (if tx.childCounted then uncountChild tx.parent rt.own else rt.own) = o1 ∧
      GroupRecordsOnly rt.own o1 := by
    split
    · exact ⟨_, rfl, uncountChild_only _ _⟩
    · exact ⟨_, rfl, rfl⟩
  obtain ⟨o1, ho1, honly⟩ := hcount
  have hsame := honly.sameSlots
  unfold forkTxnRelease
  dsimp only
  rw [ho1]
  have hown1 : OwnAt rt0.own tx.child (tx.held rt.own) [] tx.float o1 := hown.groupRecords honly
  have hdead1 : o1.alive tx.child = false := by rw [hsame.alive, hdead]
  have hmm1 : o1.mm = rt.own.mm := hsame.mm
  have href1 : tx.childRef = slotRefAt o1 tx.child := by
    rw [href, slotRefAt, slotRefAt, hsame.generation]
  unfold ForkTxn.held at hown1
  rw [← hsame.snapshot] at hown1
  have hput : ∀ {o2 : Own C},
      OwnAt rt0.own tx.child none [] (if tx.regionAcquired then tx.parentRegion.toList else []) o2 →
      OwnAt rt0.own tx.child none [] [] (if tx.regionAcquired then regionPut tx.parentRegion o2
        else o2) := by
    intro o2 h2
    cases hacq : tx.regionAcquired with
    | false =>
      rw [hacq] at h2
      exact h2
    | true =>
      rw [hacq] at h2
      refine OwnAt.regionPut ?_
      rw [List.append_nil]
      exact h2
  have hkeep : ∀ o2 : Own C,
      (if tx.regionAcquired then regionPut tx.parentRegion o2 else o2).alive = o2.alive ∧
      (if tx.regionAcquired then regionPut tx.parentRegion o2 else o2).mm = o2.mm := by
    intro o2
    split
    · exact ⟨(regionPut_same _ o2).alive, by cases tx.parentRegion <;> rfl⟩
    · exact ⟨rfl, rfl⟩
  cases hcon : tx.childConstructed with
  | false =>
    rw [hcon] at hown1
    refine ⟨hput hown1, ?_, ?_⟩
    · exact (congrFun (hkeep o1).1 tx.child).trans hdead1
    · exact (congrFun (hkeep o1).2 tx.child).trans ((congrFun hmm1 _).trans (hbare hcon))
  | true =>
    rw [hcon] at hown1
    cases hsnap : o1.snapshot tx.child with
    | none =>
      rw [hsnap] at hown1
      have hdead2 := (congrFun (hkeep o1).1 tx.child).trans hdead1
      exact ⟨(hput hown1).childDiscard hdead2, update_self _ _ _, update_self _ _ _⟩
    | some ref =>
      rw [hsnap] at hown1
      have hown2 := hown1.release
      rw [← href1] at hown2
      have hdead2 := (congrFun (hkeep (regionReleaseIfOwned ref tx.childRef o1)).1 tx.child).trans
        hdead1
      exact ⟨(hput hown2).childDiscard hdead2, update_self _ _ _, update_self _ _ _⟩

theorem forkTxnAbort_ok (h0 : RegionsOk rt0) (h : ForkHolds rt0 tx rt) :
    Settled rt0 (rt0.own.alive · = true) (forkTxnAbort tx rt).2 := by
  obtain ⟨rt1, hs, rt2, hrt2, habort⟩ := forkTxnAbort_eq rt (h.opened.imp_right .inl)
  have hrun : RunAt rt0 tx.child (tx.held rt.own) [] tx.float rt2 := by
    rcases hrt2 with rfl | rfl
    · exact h.run.schedOnly hs
    · exact clearRecord_at (h.run.schedOnly hs)
  obtain ⟨hown, hdead, hmm⟩ := forkTxnRelease_at h
  rw [habort]
  have hdone : RunAt rt0 tx.child (tx.held rt.own) [] tx.float (primarySlotClear tx.child
      (setRunnable tx.child false (slotSignalReset tx.child rt2))) :=
    hrun.record rfl (fun _ _ => rfl) rfl
  exact h.settled ((hdone.setOwn hown.guardReset).closeDead h0 hdead hmm)

theorem forkFail_ok (h0 : RegionsOk rt0) (h : ForkHolds rt0 tx rt) (e : Errno) :
    Settled rt0 (rt0.own.alive · = true) (forkFail tx e rt) :=
  (forkTxnAbort_ok h0 h).groupsOnly (forkParentResumeError_schedOnly _ _ _).groupsOnly

/-! ## Phases -/

/-- A transaction that is ready to publish: the child has every object and no ties yet. -/
structure ForkPrepared (rt0 : Runtime C) (tx : ForkTxn C) (rt : Runtime C) : Prop
    extends ForkHolds rt0 tx rt where
  prepared : tx.phase = .prepared
  constructed : tx.childConstructed = true
  unborn : Unborn tx.childRef.generation tx.child rt.own

theorem forkTxnBegin_at (h0 : RegionsOk rt0) (parent : C.Slot)
    (hdead : rt0.own.alive child = false) :
    RunAt rt0 child none [] [] (forkTxnBegin parent child rt0).2 := by
  have hopen := h0.openDead hdead
  exact (hopen.setOwn hopen.own.renew.guardReset).record rfl (fun _ _ => rfl) rfl

theorem forkTxnPrepare_holds (h0 : RegionsOk rt0)
    (hdead : rt0.own.alive child = false) {r : Option Errno × ForkTxn C × Runtime C}
    (hr : forkTxnPrepare parent child flags pid rt0 = r) :
    ForkHolds rt0 r.2.1 r.2.2 ∧ (r.1 = none → ForkPrepared rt0 r.2.1 r.2.2) := by
  have hbegin := forkTxnBegin_at h0 parent hdead
  have hmm : rt0.own.mm child = none := h0.ledger.dead child hdead
  unfold forkTxnPrepare at hr
  dsimp only at hr
  split at hr
  · subst hr
    exact ⟨⟨hbegin, hdead, fun _ => hmm, rfl, .inl rfl, hdead⟩, fun h => by cases h⟩
  rename_i o hget
  have hacquired := hbegin.setOwn (hbegin.own.regionGet hget)
  rw [List.append_nil] at hacquired
  obtain ⟨_, regions, -, -, ho⟩ := regionGet_eq hget
  have hdead2 : o.alive child = false := by
    rw [ho]
    exact hdead
  have hmm2 : o.mm child = none := by
    rw [ho]
    exact hmm
  have href : (forkTxnBegin parent child rt0).1.childRef = ⟨child, o.generation child⟩ := by
    rw [ho]
    rfl
  obtain ⟨hrun, hdead3, hgen, hunborn, hbare⟩ := initChild_at hacquired hdead2 hmm2
    rfl
  generalize initChild child parent flags pid _ = q at hrun hdead3 hgen hunborn hbare hr
  obtain ⟨_ | e, rt2⟩ := q
  · have hunborn := hunborn rfl
    -- The maps change nothing that the transaction owns.
    have hmaps := restoreMmMaps_schedOnly (slotSignalClone child parent rt2)
      (childMaps rt2.own child)
    have hclone : RunAt rt0 child none [] _ (slotSignalClone child parent rt2) :=
      hrun.record rfl (fun _ _ => rfl) rfl
    have hrun3 := hclone.schedOnly hmaps
    have hunborn3 : Unborn (o.generation child) child (restoreMmMaps (childMaps rt2.own child)
        (slotSignalClone child parent rt2)).2.own := by
      rw [hmaps.own]
      exact hunborn
    have hholds : ∀ rt3 : Runtime C, RunAt rt0 child none []
        (forkTxnBegin parent child rt0).1.parentRegion.toList rt3 →
        Unborn (o.generation child) child rt3.own → ∀ phase : ForkPhase,
        phase = .preparing ∨ phase = .prepared →
        ForkHolds rt0 { (forkTxnBegin parent child rt0).1 with
          regionAcquired := true
          childConstructed := true
          mapsTouched := true
          phase := phase } rt3 := by
      intro rt3 h3 hu phase hphase
      refine ⟨?_, hu.alive, (fun hcon => by cases hcon), ?_, hphase, hdead⟩
      · have hheld : rt3.own.snapshot child = none := hu.snapshot
        show RunAt rt0 child (rt3.own.snapshot child) [] _ rt3
        rw [hheld]
        exact h3
      · rw [href, ← hu.generation]
        rfl
    dsimp only at hr
    generalize restoreMmMaps _ _ = m at hrun3 hunborn3 hr
    obtain ⟨_ | _, rt3⟩ := m
    · subst hr
      exact ⟨hholds rt3 hrun3 hunborn3 .preparing (.inl rfl), fun h => by cases h⟩
    subst hr
    have hopen := hholds rt3 hrun3 hunborn3 .prepared (.inr rfl)
    refine ⟨hopen, fun _ => ⟨hopen, rfl, rfl, ?_⟩⟩
    rw [href]
    exact hunborn3
  · subst hr
    refine ⟨⟨hrun, hdead3, fun _ => hbare (by simp), ?_, .inl rfl, hdead⟩, ?_⟩
    · show (forkTxnBegin parent child rt0).1.childRef = ⟨child, rt2.own.generation child⟩
      rw [href, hgen]
    · intro hnone
      cases hnone

/-- Counting the child is no part of the ledger. -/
theorem ForkPrepared.count (h : ForkPrepared rt0 tx rt) :
    ForkPrepared rt0 { tx with childCounted := true }
      { rt with own := countChild tx.parent rt.own } := by
  have honly := countChild_only tx.parent rt.own
  have hsame := honly.sameSlots.toSameColumns
  have hrun := h.run.setOwn (h.run.own.groupRecords honly)
  refine ⟨⟨?_, (h.unborn.same hsame).alive, fun hcon => ?_, ?_, h.opened, h.fresh⟩,
    h.prepared, h.constructed, h.unborn.same hsame⟩
  · unfold ForkTxn.held at hrun
    rw [← hsame.snapshot] at hrun
    exact hrun
  · rw [h.constructed] at hcon
    cases hcon
  · show tx.childRef = ⟨tx.child, (countChild tx.parent rt.own).generation tx.child⟩
    rw [hsame.generation]
    exact h.childRef

/-- The region reference of the transaction becomes the published child's. -/
theorem OwnAt.publish {o0 o : Own C} {held : Option (RegionRef C)}
    (h : OwnAt o0 s held [] (mmRegion o s).toList o) (hs : o.alive s = false) :
    OwnAt o0 s held [] [] { o with alive := update o.alive s true } := by
  refine h.step ?_ (fun _ ht => update_of_ne ht _ _) (fun _ _ => rfl) (fun _ _ => rfl)
  cases hregion : mmRegion o s with
  | some ref =>
    have hledger := h.ledger
    rw [hregion] at hledger
    exact hledger.landLive hs hregion
  | none =>
    have hledger := h.ledger
    rw [hregion] at hledger
    have huse : RegionView.use { o.regionView with alive := update o.regionView.alive s true } s =
        o.regionView.use s := by
      rw [RegionView.use_of_dead (v := o.regionView) hs]
      simp only [RegionView.use, update_self]
      exact hregion
    have hcols := hledger.own_columns true (o.regionView.snapshot s) (o.regionView.guard s) huse
    rw [update_eq_self, update_eq_self] at hcols
    exact hcols

theorem forkPublishCommit_ok (h0 : RegionsOk rt0) (h : ForkHolds rt0 tx rt)
    (hguard : ∀ ref, rt.own.snapshot tx.child = some ref →
      (rt.own.guards tx.child).snapshot = some ref)
    (hpair : rt.own.snapshot tx.child = none ↔ rt.own.vforkParent tx.child = none)
    {r : Option Errno × ForkTxn C × Runtime C} (hr : forkPublishCommit tx rt = r) :
    (r.1 = none → Settled rt0 (rt0.own.alive · = true) r.2.2) ∧
      (r.1 ≠ none → ForkHolds rt0 r.2.1 r.2.2) := by
  rcases forkPublishCommit_cases tx rt with hrefused | ⟨hvalid, hdone⟩
  · subst hr
    rw [hrefused]
    exact ⟨nofun, fun _ => h⟩
  subst hr
  rw [hdone]
  refine ⟨fun _ => ?_, absurd rfl⟩
  simp only [forkTxnValid, Bool.and_eq_true, beq_iff_eq] at hvalid
  obtain ⟨⟨⟨⟨⟨⟨⟨⟨⟨⟨_, hacq⟩, hcon⟩, _⟩, _⟩, _⟩, _⟩, _⟩, _⟩, _⟩, hregion⟩ := hvalid
  have hrun := h.run
  unfold ForkTxn.held ForkTxn.float at hrun
  rw [hacq, hcon, ← hregion] at hrun
  have hpublished : OwnAt rt0.own tx.child (rt.own.snapshot tx.child) [] [] { rt.own with
      alive := update rt.own.alive tx.child true
      nextPid := rt.own.nextPid + 1 } :=
    (hrun.own.publish h.dead).of_view rfl rfl
  have hcommitted : RunAt rt0 tx.child (rt.own.snapshot tx.child) [] [] { rt with
      own := { rt.own with
        alive := update rt.own.alive tx.child true
        nextPid := rt.own.nextPid + 1 }
      log := countedLog { tx with phase := .published }
        { rt.own with alive := update rt.own.alive tx.child true } rt.log } :=
    (hrun.setOwn hpublished).record rfl (fun _ _ => rfl) rfl
  refine h.settled (hcommitted.closeAlive h0 (update_self _ _ _) rfl hguard
    ⟨fun hsnap hpar => ?_, fun hpar hsnap => absurd (hpair.mp hsnap) hpar⟩)
  exact hsnap (hpair.mpr hpar)

theorem cloneShared_ok (h0 : RegionsOk rt0) (h : ForkPrepared rt0 tx rt) (flags : CloneFlags)
    (childStack childPid : Nat) :
    Settled rt0 (rt0.own.alive · = true) (cloneShared tx flags childStack childPid rt) := by
  have hcount : ∀ {r : Option Errno × ForkTxn C × Runtime C},
      (if flags.thread then (none, tx, rt) else forkTxnCountChild tx rt) = r →
      ForkPrepared rt0 r.2.1 r.2.2 := by
    intro r hr
    split at hr
    · subst hr
      exact h
    · subst hr
      rcases forkTxnCountChild_cases tx rt with hcount | hcount <;> rw [hcount]
      · exact h
      · exact h.count
  unfold cloneShared
  have hcounted := hcount rfl
  generalize (if flags.thread then (none, tx, rt) else forkTxnCountChild tx rt) = r at hcounted ⊢
  obtain ⟨_ | e, tx1, rt1⟩ := r
  · dsimp only
    -- Handing the stack over touches neither the transaction nor an object.
    have hstack : ForkPrepared rt0 tx1 (resumeCloneForFork tx1 childStack rt1).2 := by
      unfold resumeCloneForFork
      split
      · exact hcounted
      · have hidx : tx1.childRef.index = tx1.child := by rw [hcounted.childRef]; rfl
        exact ⟨{ hcounted with
            run := hcounted.run.record rfl (fun _ _ => rfl) rfl fun _ ht =>
              update_of_ne (hidx ▸ ht) _ _ }, hcounted.prepared,
          hcounted.constructed, hcounted.unborn⟩
    generalize resumeCloneForFork tx1 childStack rt1 = q at hstack ⊢
    obtain ⟨_ | e, rt2⟩ := q
    · dsimp only
      obtain ⟨hok, hfail⟩ := forkPublishCommit_ok h0 hstack.toForkHolds
        (fun ref hsnap => by rw [hstack.unborn.snapshot] at hsnap; cases hsnap)
        ⟨fun _ => hstack.unborn.vforkParent, fun _ => hstack.unborn.snapshot⟩
        rfl
      generalize forkPublishCommit tx1 rt2 = p at hok hfail ⊢
      obtain ⟨_ | e, tx2, rt3⟩ := p
      · have hdone := (hok rfl).groupsOnly (parkSlot_schedOnly tx2.parent rt3).groupsOnly
        have hdone := hdone.groupsOnly (completeSlot_schedOnly _ tx2.parentRef childPid).groupsOnly
        dsimp only
        split
        · exact hdone.groupsOnly (resumeSlot_schedOnly tx2.child _ 0).groupsOnly
        · exact hdone
      · exact forkFail_ok h0 (hfail (by simp)) e
    · exact forkFail_ok h0 hstack.toForkHolds e
  · exact forkFail_ok h0 hcounted.toForkHolds e

theorem snapshotRam_cells (par : C.Slot) (m : Obj C) (p rsnap : Fin C.nreg) (sp : Nat)
    (o : Own C) (ram : Ram C) {j : Fin C.nreg} (hj : j ≠ rsnap) :
    (snapshotRam par m p rsnap sp o ram).cells j = ram.cells j := by
  simp only [Ram.cells, snapshotRam, update_of_ne hj]

/-- The snapshot's lease is the child's, and its guard names it. -/
theorem vforkSnapshot_at {rt' : Runtime C} {par : C.Slot} {child : SlotRef C}
    {extra : List (Obj C)} {float : List (RegionRef C)} {ref : RegionRef C}
    (h : RunAt rt0 child.index none extra float rt) (hchild : child = slotRefAt rt.own child.index)
    (hs : vforkSnapshot par child sp rt = some (ref, rt')) :
    RunAt rt0 child.index (some ref) extra float rt' ∧ SameColumns rt.own rt'.own ∧
      (rt'.own.guards child.index).snapshot = some ref := by
  obtain ⟨m, p, o, -, -, hfree, -, hres, rfl⟩ := vforkSnapshot_eq hs
  have hown : OwnAt rt0.own child.index (some ref) extra float o := by
    rw [hchild] at hres
    exact h.own.reserve hres
  have hrun := h.setRam (fun j hj => snapshotRam_cells par m p.index ref.index sp rt.own rt.ram hj)
    fun t ref' hts ht href hr => by
      have howner := (h.own.snapshot_leased hts ht href).2.2.2
      rw [hr, firstFreeRegion_unleased hfree] at howner
      cases howner
  refine ⟨hrun.setOwn (hown.setGuard _), { regionReserve_slots hres with }, ?_⟩
  show (update o.guards child.index _ child.index).snapshot = some ref
  rw [update_self]

/-- Recording the snapshot in the child's record, as the lease that the transaction holds. -/
theorem ForkHolds.setSnapshot {held : Option (RegionRef C)}
    (hrun : RunAt rt0 tx.child held [] tx.float rt) (hcon : tx.childConstructed = true)
    (hdead : rt.own.alive tx.child = false) (href : tx.childRef = slotRefAt rt.own tx.child)
    (hopen : tx.phase = .preparing ∨ tx.phase = .prepared)
    (hfresh : rt0.own.alive tx.child = false) :
    ForkHolds rt0 tx (setSnapshot tx.child held rt) := by
  refine ⟨?_, hdead, fun hcon' => ?_, href, hopen, hfresh⟩
  · have hheld : tx.held (Lxp.setSnapshot tx.child held rt).own = held := by
      unfold ForkTxn.held
      rw [if_pos hcon]
      exact update_self _ _ _
    rw [hheld]
    exact hrun.setOwn (hrun.own.setSnapshot held)
  · rw [hcon] at hcon'
    cases hcon'

theorem forkTxnSnapshot_holds (h : ForkHolds rt0 tx rt)
    (hcon : tx.childConstructed = true) (hprep : tx.phase = .prepared)
    (hsnap : rt.own.snapshot tx.child = none) (hr : forkTxnSnapshot tx sp rt = r) :
    ForkHolds rt0 tx r.2 ∧ (r.1 = none → ∃ ref, r.2.own.snapshot tx.child = some ref ∧
      (r.2.own.guards tx.child).snapshot = some ref ∧
      r.2.own.vforkParent tx.child = rt.own.vforkParent tx.child) := by
  have hrun := h.run
  unfold ForkTxn.held at hrun
  rw [if_pos hcon, hsnap] at hrun
  have hphase : ¬ (tx.phase ≠ .prepared ∨ tx.childConstructed = false) := by
    rw [hprep, hcon]
    decide
  unfold forkTxnSnapshot at hr
  rw [if_neg hphase] at hr
  split at hr
  · subst hr
    exact ⟨ForkHolds.setSnapshot hrun hcon h.dead h.childRef h.opened h.fresh, nofun⟩
  rename_i ref rt1 hvs
  subst hr
  have hchild : tx.childRef.index = tx.child := by rw [h.childRef]; rfl
  have hrun' : RunAt rt0 tx.childRef.index none [] tx.float rt := by
    rw [hchild]
    exact hrun
  obtain ⟨hrun1, hsame, hguard⟩ := vforkSnapshot_at hrun' (by rw [hchild]; exact h.childRef) hvs
  rw [hchild] at hrun1 hguard
  have hdead : rt1.own.alive tx.child = false := by rw [hsame.alive, h.dead]
  have href : tx.childRef = slotRefAt rt1.own tx.child := by
    rw [h.childRef, slotRefAt, slotRefAt, hsame.generation]
  refine ⟨ForkHolds.setSnapshot hrun1 hcon hdead href h.opened h.fresh,
    fun _ => ⟨ref, ?_, hguard, ?_⟩⟩
  · exact update_self _ _ _
  · exact congrFun hsame.vforkParent _

theorem forkVfork_counted (h0 : RegionsOk rt0) (h : ForkPrepared rt0 tx rt) {parent : SlotRef C}
    (hr : forkTxnSnapshot tx sp (setVforkParent tx.child (some parent) rt) = r) :
    ForkHolds rt0 tx r.2 ∧ ∀ {q : Option Errno × ForkTxn C × Runtime C}, r.1 = none →
      forkPublishCommit tx r.2 = q →
      (q.1 = none → Settled rt0 (rt0.own.alive · = true) q.2.2) ∧
        (q.1 ≠ none → ForkHolds rt0 q.2.1 q.2.2) := by
  have htied : ForkHolds rt0 tx (setVforkParent tx.child (some parent) rt) :=
    { h with run := h.run.setOwn (h.run.own.setVforkParent _) }
  obtain ⟨hholds, hsome⟩ := forkTxnSnapshot_holds htied h.constructed h.prepared
    h.unborn.snapshot hr
  refine ⟨hholds, fun hnone hq => ?_⟩
  obtain ⟨ref, hsnap, hguard, hpar⟩ := hsome hnone
  refine forkPublishCommit_ok h0 hholds (fun ref' hsnap' => ?_) ?_ hq
  · rw [hguard, ← hsnap, hsnap']
  rw [hsnap, hpar]
  have hparent : (setVforkParent tx.child (some parent) rt).own.vforkParent tx.child =
      some parent := update_self _ _ _
  rw [hparent]
  simp

theorem forkVfork_ok (h0 : RegionsOk rt0) (h : ForkPrepared rt0 tx rt) :
    Settled rt0 (rt0.own.alive · = true) (forkVfork tx rt) := by
  unfold forkVfork
  rcases forkTxnCountChild_cases tx rt with hcount | hcount <;> rw [hcount]
  · exact forkFail_ok h0 h.toForkHolds _
  · have hcounted := h.count
    generalize { tx with childCounted := true } = tx1 at hcounted ⊢
    dsimp only
    split
    · refine forkFail_ok h0 ?_ _
      exact { hcounted with run := hcounted.run.setOwn (hcounted.run.own.setVforkParent _) }
    generalize hr : forkTxnSnapshot tx1 _ _ = r
    obtain ⟨hholds, hpub⟩ := forkVfork_counted h0 hcounted hr
    obtain ⟨_ | e, rt2⟩ := r
    · obtain ⟨hok, hfail⟩ := hpub rfl rfl
      dsimp only
      generalize forkPublishCommit tx1 rt2 = q at hok hfail ⊢
      obtain ⟨_ | e, tx2, rt3⟩ := q
      · have hdone := (hok rfl).groupsOnly (parkSlot_schedOnly tx2.parent rt3).groupsOnly
        dsimp only
        split
        · exact hdone.groupsOnly (resumeSlot_schedOnly tx2.child _ 0).groupsOnly
        · exact hdone
      · exact forkFail_ok h0 (hfail (by simp)) e
    · exact forkFail_ok h0 hholds e

/-- The fork handler keeps the regions, whatever fails on the way. -/
theorem handleFork_ok (h : RegionsOk rt)
    (hparent : rt.own.alive parent = true → rt.own.vforkParent parent ≠ none →
      rt.own.snapshot parent ≠ none)
    (flags : CloneFlags) (childStack : Nat) :
    Settled (intentClear parent rt) (rt.own.alive · = true)
      (handleFork parent flags childStack rt) := by
  have h0 := h.intentClear hparent
  have hown : (intentClear parent rt).own = rt.own := rfl
  unfold handleFork
  dsimp only
  generalize intentClear parent rt = rt1 at h0 hown ⊢
  rw [← hown]
  split
  · exact h0.settled (forkParentResumeError_schedOnly _ _ _).groupsOnly _
  split
  · exact h0.settled (forkParentResumeError_schedOnly _ _ _).groupsOnly _
  rename_i child hchild
  have hdead : rt1.own.alive child = false := by
    have := List.find?_some hchild
    simpa using this
  obtain ⟨hholds, hprep⟩ := forkTxnPrepare_holds h0 hdead
    rfl
  generalize forkTxnPrepare parent child flags rt1.own.nextPid rt1 = r at hholds hprep ⊢
  obtain ⟨_ | e, tx, rt2⟩ := r
  · dsimp only
    split
    · exact cloneShared_ok h0 (hprep rfl) flags childStack _
    · exact forkVfork_ok h0 (hprep rfl)
  · exact forkFail_ok h0 hholds e

end Lxp
