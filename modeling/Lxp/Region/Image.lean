import Lxp.Region.Exit

/-!
# Regions across the image transaction

An image is built under the lease of its slot.  Publishing makes the lease's count the address
space's; an abort gives the lease back whether or not the image was published.
-/

open Function LeaseTable RefPool

namespace Lxp

variable {C : Config}
variable {r : Option Errno × ImageTxn C × Runtime C} {float : List (RegionRef C)}
  {extra : List (Obj C)}

/-! ## Objects off a slot -/

theorem mmPut_slots (m : Option (Obj C)) (o : Own C) : SameSlots o (mmPut m o) := by
  cases m <;> exact ⟨⟨rfl, rfl, rfl, rfl⟩, rfl⟩

theorem groupPut_slots (g : Option (Obj C)) (o : Own C) : SameSlots o (groupPut g o) := by
  cases g <;> exact ⟨⟨rfl, rfl, rfl, rfl⟩, rfl⟩

theorem imagePut_slots (p : ImageProc C) (o : Own C) : SameSlots o (imagePut p o) :=
  ((imageResourcesPut_only p o).sameSlots.trans (mmPut_slots _ _)).trans (groupPut_slots _ _)

theorem imageAlloc_slots (o : Own C) : SameSlots o (imageAlloc o).2 := by
  obtain ⟨_, _, _, _, _, _, _, _, _, _, heq, _, _⟩ := imageAlloc_eq o
  rw [heq]
  exact ⟨⟨rfl, rfl, rfl, rfl⟩, rfl⟩

namespace OwnAt

variable {o0 o : Own C} {s : C.Slot} {held : Option (RegionRef C)}

theorem imageAlloc (h : OwnAt o0 s held [] [] o) :
    OwnAt o0 s held (imageAlloc o).1.mm.toList [] (imageAlloc o).2 ∧
      ∀ m, (Lxp.imageAlloc o).1.mm = some m → ∀ t, (Lxp.imageAlloc o).2.mm t ≠ some m := by
  obtain ⟨m, mms, _, _, _, _, _, _, _, _, heq, hmms, _⟩ := imageAlloc_eq o
  rw [heq]
  cases m with
  | none =>
    obtain rfl : mms = o.mms := hmms
    exact ⟨h.of_view rfl rfl, nofun⟩
  | some m =>
    refine ⟨h.step (h.ledger.newMm hmms) (fun _ _ => rfl) (fun _ _ => rfl) (fun _ _ => rfl)
      fun _ _ => Own.space_of_val rfl
        (fun _ hm => h.ledger.counted.new_val hmms hm) rfl rfl rfl, ?_⟩
    rintro _ ⟨⟩ t
    exact h.ledger.counted.unheld (Pool.new_eq hmms).1 t

theorem imagePut {p : ImageProc C} (h : OwnAt o0 s held p.mm.toList [] o) :
    OwnAt o0 s held [] [] (imagePut p o) := by
  have hres := h.resources (imageResourcesPut_only p o)
  refine OwnAt.groupPut ?_ p.group
  cases hp : p.mm with
  | none =>
    rw [hp] at hres
    exact hres
  | some m =>
    rw [hp] at hres
    exact hres.step (hres.ledger.putMm {}) (fun _ _ => rfl) (fun _ _ => rfl) (fun _ _ => rfl)
      fun _ _ => Own.space_of_val rfl (fun _ hm => hres.ledger.counted.put_val {} hm) rfl rfl rfl

end OwnAt

variable {o0 o : Own C} {rt0 rt rt' : Runtime C} {img : ImageTxn C} {m : Obj C}

variable {held : Option (RegionRef C)}

/-- A new process has an address space that no slot names yet, or nothing is left of it. -/
theorem procInit_at {s : C.Slot} {brk : Bool}
    (h : OwnAt o0 s held [] [] o) {r : Option (ImageProc C) × Own C} (hr : procInit brk o = r) :
    SameSlots o r.2 ∧ (r.1 = none → OwnAt o0 s held [] [] r.2) ∧
      ∀ p, r.1 = some p → OwnAt o0 s held p.mm.toList [] r.2 ∧
        ∃ m g, p.mm = some m ∧ p.group = some g ∧ ∀ t, r.2.mm t ≠ some m := by
  obtain ⟨halloc, hfresh⟩ := h.imageAlloc
  have hslots := imageAlloc_slots o
  unfold procInit at hr
  dsimp only at hr
  generalize imageAlloc o = a at halloc hfresh hslots hr
  obtain ⟨p, o1⟩ := a
  split at hr
  · rename_i m g f c d hm hg _ _ _
    have hset : OwnAt o0 s held p.mm.toList [] { o1 with
        groups := o1.groups.set g { tgid := 1, pgid := 1 } } := halloc.of_view rfl rfl
    have hsetSlots : SameSlots o { o1 with groups := o1.groups.set g { tgid := 1, pgid := 1 } } :=
      hslots.trans ⟨⟨rfl, rfl, rfl, rfl⟩, rfl⟩
    have hconsole := installConsole_only f { o1 with
      groups := o1.groups.set g { tgid := 1, pgid := 1 } }
    have hown := hset.resources hconsole
    have hownSlots := hsetSlots.trans hconsole.sameSlots
    generalize installConsole f _ = q at hconsole hown hownSlots hr
    obtain ⟨_ | _, o2⟩ := q
    · subst hr
      exact ⟨hownSlots.trans (imagePut_slots p o2), fun _ => hown.imagePut, fun p hp => by cases hp⟩
    dsimp only at hr
    split at hr
    · subst hr
      refine ⟨hownSlots, nofun, fun p' hp => ?_⟩
      injection hp with hp
      subst hp
      refine ⟨hown, m, g, hm, hg, ?_⟩
      rw [hownSlots.mm, ← hslots.mm]
      exact hfresh m hm
    · subst hr
      exact ⟨hownSlots.trans (imagePut_slots p o2), fun _ => hown.imagePut, fun p hp => by cases hp⟩
  · subst hr
    exact ⟨hslots.trans (imagePut_slots p o1), fun _ => halloc.imagePut, fun p hp => by cases hp⟩

/-! ## An image off its slot -/

structure ImageHolds (rt0 : Runtime C) (img : ImageTxn C) (rt : Runtime C) : Prop where
  run : RunAt rt0 img.slot (some img.region) img.proc.mm.toList [] rt
  unpublished : img.published = false
  owner : img.owner = slotRefAt rt.own img.slot
  named : ∀ m, img.proc.mm = some m → (rt.own.mms.val m).region = some img.region

theorem setImageObjects_at (img : ImageTxn C) (ppid : Nat) (l : LoadResult)
    {p : ImageProc C} (h : OwnAt o0 img.slot held p.mm.toList [] o)
    (hp : ∃ m g, p.mm = some m ∧ p.group = some g ∧ ∀ t, o.mm t ≠ some m) :
    OwnAt o0 img.slot held p.mm.toList [] (setImageObjects img ppid l p o) ∧
      SameSlots o (setImageObjects img ppid l p o) ∧
      ∀ m, p.mm = some m →
        ((setImageObjects img ppid l p o).mms.val m).region = some img.region := by
  obtain ⟨m, g, hm, hg, hfree⟩ := hp
  unfold setImageObjects
  rw [hm, hg]
  rw [hm] at h
  refine ⟨h.step (h.ledger.setMm _ hfree) (fun _ _ => rfl) (fun _ _ => rfl) (fun _ _ => rfl)
    fun t _ => Own.space_of_val rfl
      (fun m' hm' => update_of_ne (fun heq => hfree t (by rw [← heq]; exact hm')) _ _)
      rfl rfl rfl, ⟨⟨rfl, rfl, rfl, rfl⟩, rfl⟩, fun m' hm' => ?_⟩
  injection hm' with hm'
  subst hm'
  show (update o.mms.val m _ m).region = some img.region
  rw [update_self]

/-- What a prepared image keeps of the transaction it started as. -/
structure SameImage (img img' : ImageTxn C) : Prop where
  slot : img'.slot = img.slot
  region : img'.region = img.region
  owner : img'.owner = img.owner
  vforkParent : img'.vforkParent = img.vforkParent

theorem loadRam_cells {r j : Fin C.nreg} (l : LoadResult) (ram : Ram C) (hj : j ≠ r) :
    (loadRam r l ram).cells j = ram.cells j := by
  simp only [Ram.cells, loadRam, update_of_ne hj]

theorem imageTxnPrepare_holds {ppid : Nat} {l : LoadResult} (hr : imageTxnPrepare img ppid l rt = r)
    (h : RunAt rt0 img.slot (some img.region) [] [] rt) (hproc : img.proc = {})
    (hpub : img.published = false) (howner : img.owner = slotRefAt rt.own img.slot) :
    ImageHolds rt0 r.2.1 r.2.2 ∧ SameImage img r.2.1 ∧ SameSlots rt.own r.2.2.own ∧
      r.2.2.sched = rt.sched := by
  have hopen : ∀ rt1 : Runtime C, RunAt rt0 img.slot (some img.region) [] [] rt1 →
      SameSlots rt.own rt1.own → ImageHolds rt0 img rt1 := by
    intro rt1 h1 hslots
    refine ⟨by rw [hproc]; exact h1, hpub, ?_, fun m hm => ?_⟩
    · rw [howner, slotRefAt, slotRefAt, hslots.generation]
    · rw [hproc] at hm
      cases hm
  have hsame : SameImage img img := ⟨rfl, rfl, rfl, rfl⟩
  unfold imageTxnPrepare at hr
  split at hr
  · subst hr
    exact ⟨hopen rt h (SameSlots.refl _), hsame, SameSlots.refl _, rfl⟩
  dsimp only at hr
  have hload : RunAt rt0 img.slot (some img.region) [] []
      { rt with ram := loadRam img.region.index l rt.ram } :=
    h.setRam (fun j hj => loadRam_cells l rt.ram hj)
      fun t ref hts ht href => h.own.snapshot_ne_held hts ht href
  split at hr
  · subst hr
    exact ⟨hopen _ hload (SameSlots.refl _), hsame, SameSlots.refl _, rfl⟩
  obtain ⟨hslots, hfail, hsome⟩ := procInit_at h.own rfl
  generalize procInit l.brk rt.own = q at hslots hfail hsome hr
  obtain ⟨_ | p, o⟩ := q
  · subst hr
    exact ⟨hopen _ (hload.setOwn (hfail rfl)) hslots, hsame, hslots, rfl⟩
  obtain ⟨hown, hp⟩ := hsome p rfl
  dsimp only at hr
  have hset := setImageObjects_at { img with
    proc := p, stackLo := l.stackLo, copiedText := l.copiedText } ppid l hown hp
  generalize setImageObjects _ ppid l p o = o1 at hset hr
  obtain ⟨hown1, hslots1, hnamed⟩ := hset
  have hall := hslots.trans hslots1
  have howner1 : img.owner = slotRefAt o1 img.slot := by
    rw [howner, slotRefAt, slotRefAt, hall.generation]
  split at hr
  · subst hr
    exact ⟨⟨hload.setOwn hown1, hpub, howner1, hnamed⟩, ⟨rfl, rfl, rfl, rfl⟩, hall, rfl⟩
  · subst hr
    exact ⟨⟨hload.setOwn hown1, hpub, howner1, hnamed⟩, ⟨rfl, rfl, rfl, rfl⟩, hall, rfl⟩

/-! ## Giving an image back -/

/-- The lease goes with the address space that took it over. -/
theorem OwnAt.putOwned {s : C.Slot} {ref : RegionRef C} (h : OwnAt o0 s (some ref) extra float o) :
    OwnAt o0 s none extra float (Lxp.regionPut (some ref) o) :=
  h.step h.ledger.release (fun _ _ => rfl) (fun _ _ => rfl) (fun _ _ => rfl)

theorem imageLeaseRelease_none (h : OwnAt o0 img.slot none extra float o)
    (howner : img.owner = slotRefAt o img.slot) : imageLeaseRelease img o = o := by
  unfold imageLeaseRelease
  split
  · rw [howner]
    exact h.release_none img.region
  · rfl

theorem imageLeaseRelease_at (h : OwnAt o0 img.slot (some img.region) extra float o)
    (howner : img.owner = slotRefAt o img.slot) :
    OwnAt o0 img.slot none extra float (imageLeaseRelease img o) := by
  have hmatch : LeaseMatches o.regions img.region img.owner 1 := by
    rw [howner]
    exact h.ledger.own img.region rfl
  unfold imageLeaseRelease
  rw [if_pos hmatch, howner]
  exact h.release

/-- An image that was not published leaves nothing behind. -/
theorem imageTxnAbort_unpublished (h : ImageHolds rt0 img rt) :
    (imageTxnAbort img rt).1 = true ∧ RunAt rt0 img.slot none [] [] (imageTxnAbort img rt).2 ∧
      SameSlots rt.own (imageTxnAbort img rt).2.own := by
  have hres := imageResourcesPut_only img.proc rt.own
  have hown := h.run.own.resources hres
  have howner : img.owner = slotRefAt (imageResourcesPut img.proc rt.own) img.slot := by
    rw [h.owner, slotRefAt, slotRefAt, hres.sameColumns.generation]
  have hnamed : ∀ m, img.proc.mm = some m →
      ((imageResourcesPut img.proc rt.own).mms.val m).region = some img.region := by
    rw [hres]
    exact h.named
  have hreleased : SameSlots rt.own (imageTxnRelease img rt.own) ∧
      OwnAt rt0.own img.slot none [] [] (imageLeaseRelease img (imageTxnRelease img rt.own)) := by
    unfold imageTxnRelease
    rw [h.unpublished]
    simp only [Bool.false_eq_true, if_false]
    generalize imageResourcesPut img.proc rt.own = o1 at hres hown howner hnamed ⊢
    cases hp : img.proc.mm with
    | none =>
      rw [hp] at hown
      refine ⟨hres.sameSlots.trans (groupPut_slots _ o1), ?_⟩
      refine imageLeaseRelease_at (hown.groupPut _) ?_
      rw [howner, slotRefAt, slotRefAt, (groupPut_same img.proc.group o1).generation]
    | some m =>
      rw [hp] at hown
      dsimp only
      rw [if_pos (hnamed m hp)]
      -- Dropping the address space's region reference ends the lease.
      have hput := hown.putOwned
      have hgone : OwnAt rt0.own img.slot none [] []
          (mmPut (some m) (regionPut (some img.region) o1)) :=
        hput.step (hput.ledger.putMm {}) (fun _ _ => rfl) (fun _ _ => rfl) (fun _ _ => rfl)
          fun _ _ => Own.space_of_val rfl
            (fun _ hm => hput.ledger.counted.put_val {} hm) rfl rfl rfl
      have hslots : SameSlots o1 (groupPut img.proc.group
          (mmPut (some m) (regionPut (some img.region) o1))) := by
        refine .trans ?_ (groupPut_slots _ _)
        exact ⟨⟨rfl, rfl, rfl, rfl⟩, rfl⟩
      refine ⟨hres.sameSlots.trans hslots, ?_⟩
      rw [imageLeaseRelease_none (hgone.groupPut _)]
      · exact hgone.groupPut _
      · rw [howner, slotRefAt, slotRefAt, hslots.generation]
  obtain ⟨hslots, hdone⟩ := hreleased
  have hlease : SameSlots (imageTxnRelease img rt.own)
      (imageLeaseRelease img (imageTxnRelease img rt.own)) := by
    unfold imageLeaseRelease
    split <;> exact ⟨⟨rfl, rfl, rfl, rfl⟩, rfl⟩
  unfold imageTxnAbort
  rw [h.unpublished]
  exact ⟨rfl, h.run.setOwn hdone, hslots.trans hlease⟩

/-! ## A published image -/

/-- The slot's state between publish and commit: what it was before, `o`, with the address space `m`
moved in.  The lease still holds the region's only count. -/
structure ImagePublished (rt0 : Runtime C) (img : ImageTxn C) (o : Own C) (m : Obj C)
    (rt : Runtime C) : Prop where
  before : OwnAt rt0.own img.slot (some img.region) [m] [] o
  named : (o.mms.val m).region = some img.region
  dead : o.alive img.slot = false
  vacant : o.mm img.slot = none
  owner : img.owner = slotRefAt o img.slot
  published : img.published = true
  view : rt.own.regionView = { o.regionView with
    alive := update o.alive img.slot true
    mm := update o.mm img.slot (some m)
    snapshot := update o.snapshot img.slot none }
  parents : ∀ t, t ≠ img.slot → rt.own.vforkParent t = o.vforkParent t
  stackLo : ∀ t, t ≠ img.slot → rt.own.stackLo t = o.stackLo t
  guards : rt.own.guards = o.guards
  parent : rt.own.vforkParent img.slot = img.vforkParent
  intent : ∀ t, t ≠ img.slot → (rt0.sched.ctl t).intent.Kept (rt.sched.ctl t).intent
  abort : rt.sched.port.abort <:+ rt0.sched.port.abort
  launch : rt.sched.port.launch <:+ rt0.sched.port.launch
  resumeSp : ∀ t, t ≠ img.slot → rt.sched.resumeSp t = rt0.sched.resumeSp t
  saved : ∀ t ref, t ≠ img.slot → rt0.own.alive t = true → rt0.own.snapshot t = some ref →
    rt.ram.cells ref.index = rt0.ram.cells ref.index

theorem ImagePublished.schedOnly
    (h : ImagePublished rt0 img o m rt) (hs : SchedOnly rt rt') : ImagePublished rt0 img o m rt' :=
  { h with
    view := by rw [hs.own]; exact h.view
    parents := by rw [hs.own]; exact h.parents
    stackLo := by rw [hs.own]; exact h.stackLo
    guards := by rw [hs.own]; exact h.guards
    parent := by rw [hs.own]; exact h.parent
    resumeSp := by rw [hs.resumeSp]; exact h.resumeSp
    saved := by rw [hs.ram]; exact h.saved
    intent := fun t ht => (h.intent t ht).trans (hs.intent t)
    abort := hs.abort.trans h.abort
    launch := hs.launch.trans h.launch }

namespace ImagePublished

section

variable (h : ImagePublished rt0 img o m rt)
include h

theorem alive_eq : rt.own.alive = update o.alive img.slot true := congrArg RegionView.alive h.view

theorem snapshot_eq : rt.own.snapshot = update o.snapshot img.slot none :=
  congrArg RegionView.snapshot h.view

theorem space_eq {t : C.Slot} (ht : t ≠ img.slot) : rt.own.space t = o.space t := by
  have hmm : rt.own.mm t = o.mm t :=
    (congrFun (congrArg RegionView.mm h.view) t).trans (update_of_ne ht _ _)
  refine Own.space_of_val hmm (fun i _ => ?_) (h.stackLo t ht)
    (congrFun (congrArg RegionView.generation h.view) t) (congrFun h.guards t)
  exact congrFun (congrArg (fun v => v.mms.val) h.view) i

/-- The other slots are as they were when the handler started. -/
theorem setOwn {o' : Own C} (hledger : LedgerAt img.slot none [] [] o'.regionView)
    (halive : ∀ t, t ≠ img.slot → o'.alive t = rt.own.alive t)
    (hparent : ∀ t, t ≠ img.slot → o'.vforkParent t = rt.own.vforkParent t)
    (hsnap : ∀ t, t ≠ img.slot → o'.snapshot t = rt.own.snapshot t)
    (hspace : ∀ t, t ≠ img.slot → o'.space t = o.space t) :
    RunAt rt0 img.slot none [] [] { rt with own := o' } := by
  refine { h with
      own := h.before.step hledger (fun t ht => ?_) (fun t ht => ?_) (fun t ht => ?_) hspace }
  · rw [halive t ht, h.alive_eq, update_of_ne ht]
  · rw [hparent t ht, h.parents t ht]
  · rw [hsnap t ht, h.snapshot_eq, update_of_ne ht]

end

end ImagePublished

theorem clearDeviceMaps_host (rt : Runtime C) :
    (clearDeviceMaps rt).sched.host = rt.sched.host := by
  unfold clearDeviceMaps
  split <;> rfl

theorem imageTxnPublish_holds (h : ImageHolds rt0 img rt)
    (hdead : rt.own.alive img.slot = false) (hmm : rt.own.mm img.slot = none)
    (hr : imageTxnPublish img rt = r) : SameImage img r.2.1 ∧ r.2.2.sched.host = rt.sched.host ∧
      (r.1 ≠ none → ImageHolds rt0 r.2.1 r.2.2 ∧ r.2.2.own = rt.own) ∧
      (r.1 = none → ∃ m, ImagePublished rt0 r.2.1 rt.own m r.2.2) := by
  have hsame : SameImage img img := ⟨rfl, rfl, rfl, rfl⟩
  unfold imageTxnPublish at hr
  split at hr
  · subst hr
    exact ⟨hsame, rfl, fun _ => ⟨h, rfl⟩, nofun⟩
  rename_i hcond
  have hcall : SchedOnly rt (if img.copiedText then callPublish rt else (true, rt)).2 ∧
      (if img.copiedText then callPublish rt else (true, rt)).2.sched.host = rt.sched.host := by
    split
    · exact ⟨callPublish_schedOnly rt, rfl⟩
    · exact ⟨SchedOnly.refl rt, rfl⟩
  obtain ⟨hcall, hhost⟩ := hcall
  generalize (if img.copiedText then callPublish rt else (true, rt)) = q at hcall hhost hr
  have hholds : ImageHolds rt0 img q.2 :=
    ⟨h.run.schedOnly hcall, h.unpublished, by rw [hcall.own]; exact h.owner,
      by rw [hcall.own]; exact h.named⟩
  obtain ⟨_ | _, rt1⟩ := q
  · subst hr
    exact ⟨hsame, hhost, fun _ => ⟨hholds, hcall.own⟩, nofun⟩
  dsimp only at hr
  split at hr
  · subst hr
    exact ⟨hsame, hhost, fun _ => ⟨hholds, hcall.own⟩, nofun⟩
  rename_i hpub
  subst hr
  have hm : ∃ m, img.proc.mm = some m := by
    cases hp : img.proc.mm with
    | none => exact absurd (.inr (.inr (.inl (by rw [hp]; rfl)))) hcond
    | some m => exact ⟨m, rfl⟩
  obtain ⟨m, hm⟩ := hm
  unfold slotPublishImage at hpub
  split at hpub
  · injection hpub with hpub
    subst hpub
    refine ⟨⟨rfl, rfl, rfl, rfl⟩, ?_, absurd rfl, fun _ => ⟨m, ?_⟩⟩
    · exact (clearDeviceMaps_host _).trans hhost
    refine ImagePublished.schedOnly ?_ (clearDeviceMaps_schedOnly _)
    have hrun := hholds.run
    refine ⟨?_, h.named m hm, hdead, hmm, h.owner, rfl, ?_, fun t ht => ?_, fun t ht => ?_,
      ?_, ?_, fun t ht => ?_, hrun.abort, hrun.launch, hrun.resumeSp, hrun.saved⟩
    · have hbefore := h.run.own
      rw [hm] at hbefore
      exact hbefore
    · rw [← hcall.own, ← hm]
      rfl
    · rw [← hcall.own]
      exact update_of_ne ht _ _
    · rw [← hcall.own]
      exact update_of_ne ht _ _
    · rw [← hcall.own]
      rfl
    · exact update_self _ _ _
    · show (rt0.sched.ctl t).intent.Kept (update rt1.sched.ctl img.slot _ t).intent
      rw [update_of_ne ht]
      exact hrun.intent t ht
  · cases hpub

/-- Starting the image turns the lease into the published address space's reference. -/
theorem imageTxnStart_ok
    (h : ImagePublished rt0 img o m rt) (hr : imageTxnStart img rt = (none, rt')) :
    RunAt rt0 img.slot none [] [] rt' ∧ rt'.own.alive img.slot = true ∧
      rt'.own.snapshot img.slot = none ∧ rt'.own.vforkParent img.slot = img.vforkParent := by
  have hlaunch := h.schedOnly (launchSlot_schedOnly img.slot rt)
  unfold imageTxnStart at hr
  rw [h.published, if_pos rfl] at hr
  generalize launchSlot img.slot rt = q at hlaunch hr
  obtain ⟨_ | _, rt1⟩ := q
  · cases hr
  dsimp only at hr
  split at hr
  · cases hr
  rename_i hcommit
  injection hr with _ hr
  subst hr
  simp only [regionCommitAddressSpace, commit, Option.map_eq_some_iff] at hcommit
  obtain ⟨regions, hregions, rfl⟩ := hcommit
  split at hregions
  · injection hregions with hregions
    subst hregions
    have hstored := (h.before.ledger.unlease.storeMm h.dead h.vacant).setSnapshot none
    have hlanded := hstored.landLive h.dead (by
      show (update o.mm img.slot (some m) img.slot).bind _ = some img.region
      rw [update_self]
      exact h.named)
    have hview : Own.regionView { rt1.own with
        regions := setOwner rt1.own.regions img.region.index none } =
        { rt1.own.regionView with
          regions := setOwner rt1.own.regionView.regions img.region.index none } := rfl
    have hled : LedgerAt img.slot none [] [] (Own.regionView { rt1.own with
        regions := setOwner rt1.own.regions img.region.index none }) := by
      rw [hview, hlaunch.view]
      exact hlanded
    refine ⟨hlaunch.setOwn hled (fun _ _ => rfl) (fun _ _ => rfl) (fun _ _ => rfl)
      fun t ht => hlaunch.space_eq ht, ?_, ?_, hlaunch.parent⟩
    · rw [hlaunch.alive_eq, update_self]
    · rw [hlaunch.snapshot_eq, update_self]
  · cases hregions

/-- Only a launch that the port refuses keeps a published image from starting. -/
theorem imageTxnStart_failed {e : Errno} (h : ImagePublished rt0 img o m rt)
    (hhost : rt.sched.host img.slot = .dead) (hr : imageTxnStart img rt = (some e, rt')) :
    ImagePublished rt0 img o m rt' ∧ false ∈ rt.sched.port.launch := by
  have hlaunch := h.schedOnly (launchSlot_schedOnly img.slot rt)
  unfold imageTxnStart at hr
  rw [h.published, if_pos rfl] at hr
  have hrefused : (launchSlot img.slot rt).1 = false → false ∈ rt.sched.port.launch := by
    unfold launchSlot
    rw [if_pos (.inr hhost)]
    intro hfalse
    have hhead : rt.sched.port.launch.headD true = false := by
      cases hl : rt.sched.port.launch.headD true with
      | false => rfl
      | true =>
        have hcall : callLaunch img.slot
            (setRunnable img.slot true (setHost img.slot .starting rt)) =
            (true, _) := Prod.ext hl rfl
        rw [hcall] at hfalse
        cases hfalse
    cases hl : rt.sched.port.launch with
    | nil =>
      rw [hl] at hhead
      cases hhead
    | cons b bs =>
      rw [hl] at hhead
      rw [← show b = false from hhead]
      exact List.mem_cons_self
  generalize launchSlot img.slot rt = q at hlaunch hrefused hr
  obtain ⟨_ | _, rt1⟩ := q
  · injection hr with _ hr
    subst hr
    exact ⟨hlaunch, hrefused rfl⟩
  dsimp only at hr
  split at hr
  · rename_i hcommit
    -- The lease is still the slot's, so the commit cannot be refused.
    have hown : LeaseMatches o.regions img.region (slotRefAt o img.slot) 1 :=
      h.before.ledger.own img.region rfl
    have hregions : rt1.own.regions = o.regions := congrArg RegionView.regions hlaunch.view
    simp only [regionCommitAddressSpace, commit] at hcommit
    rw [hregions, h.owner, if_pos] at hcommit
    · cases hcommit
    · exact ⟨hown.1, hown.2.1, by rw [hown.2.2.1]; decide, hown.2.2.2⟩
  · cases hr

theorem procChildReset_view (s : C.Slot) (o : Own C) : (procChildReset s o).regionView =
      { o.regionView with
        alive := update o.regionView.alive s false
        mm := update o.regionView.mm s none
        snapshot := update o.regionView.snapshot s none } := rfl

/-- The release of a published image, on the ledger: the address space and the lease go, the slot is
as empty as before the publish. -/
theorem imageTxnRelease_published (h : ImagePublished rt0 img o m rt) :
    (procChildReset img.slot (imageTxnRelease img rt.own)).regionView = { o.regionView with
        mms := o.mms.put {} m
        regions := LeaseTable.put o.regions img.region
        snapshot := update o.snapshot img.slot none } ∧
      SameColumns rt.own (imageTxnRelease img rt.own) ∧
      (imageTxnRelease img rt.own).stackLo = rt.own.stackLo ∧
      (imageTxnRelease img rt.own).guards = rt.own.guards := by
  have hres := procResourcesPut_only img.slot rt.own
  have hview : (procResourcesPut img.slot rt.own).regionView = _ := hres.regionView.trans h.view
  unfold imageTxnRelease
  rw [h.published]
  simp only [if_true]
  have hcols := hres.sameColumns
  have hkept : (procResourcesPut img.slot rt.own).stackLo = rt.own.stackLo ∧
      (procResourcesPut img.slot rt.own).guards = rt.own.guards := by
    rw [hres]
    exact ⟨rfl, rfl⟩
  generalize procResourcesPut img.slot rt.own = o1 at hview hcols hkept ⊢
  have hmm : o1.mm img.slot = some m := by
    have := congrFun (congrArg RegionView.mm hview) img.slot
    rw [show o1.mm img.slot = o1.regionView.mm img.slot from rfl, this]
    exact update_self _ _ _
  have hmms : o1.mms = o.mms := congrArg RegionView.mms hview
  have hregion : mmRegion o1 img.slot = some img.region := by
    rw [mmRegion, hmm, hmms]
    exact h.named
  have hput : regionMmPut img.slot o1 = { o1 with
        regions := LeaseTable.put o1.regions img.region
        mms := o1.mms.put {} m
        mm := update o1.mm img.slot none } := by
    unfold regionMmPut
    rw [hregion, hmm]
    unfold procMmPut
    rw [show (regionPut (some img.region) o1).mm img.slot = some m from hmm]
    rfl
  rw [if_pos hregion, hput]
  have hgroupKept : ∀ o2 : Own C, (procGroupPut img.slot o2).stackLo = o2.stackLo ∧
      (procGroupPut img.slot o2).guards = o2.guards := by
    intro o2
    unfold procGroupPut groupPut
    split <;> exact ⟨rfl, rfl⟩
  refine ⟨?_, ?_, (hgroupKept _).1.trans hkept.1, (hgroupKept _).2.trans hkept.2⟩
  · have hgroup : ∀ o2 : Own C, (procGroupPut img.slot o2).regionView = o2.regionView := by
      intro o2
      unfold procGroupPut groupPut
      split <;> rfl
    have halive : update (update o.alive img.slot true) img.slot false = o.alive := by
      rw [update_idem, ← h.dead, update_eq_self]
    have hvacant : update (update (update o.mm img.slot (some m)) img.slot none) img.slot none =
        o.mm := by
      rw [update_idem, update_idem, ← h.vacant, update_eq_self]
    rw [procChildReset_view, hgroup]
    show { o1.regionView with
      alive := update o1.regionView.alive img.slot false
      mm := update (update o1.regionView.mm img.slot none) img.slot none
      mms := o1.regionView.mms.put {} m
      regions := LeaseTable.put o1.regionView.regions img.region
      snapshot := update o1.regionView.snapshot img.slot none } = _
    rw [hview]
    rw [halive, hvacant, update_idem]
    rfl
  · refine hcols.trans (SameColumns.trans ?_ (procGroupPut_same _ _))
    exact ⟨rfl, rfl, rfl, rfl⟩

/-- A published image whose native task can be stopped leaves nothing behind either. -/
theorem imageTxnAbort_published
    (h : ImagePublished rt0 img o m rt) (habort : ∀ b ∈ rt.sched.port.abort, b = true) :
    (imageTxnAbort img rt).1 = true ∧ RunAt rt0 img.slot none [] [] (imageTxnAbort img rt).2 ∧
      (imageTxnAbort img rt).2.own.mm img.slot = none := by
  have halive : rt.own.alive img.slot = true := by rw [h.alive_eq, update_self]
  have hok := abortSlot_ok img.slot rt habort
  have hstop := h.schedOnly (abortSlot_schedOnly img.slot rt)
  unfold imageTxnAbort
  rw [h.published, halive]
  generalize abortSlot img.slot rt = q at hok hstop ⊢
  obtain ⟨_ | _, rt1⟩ := q
  · cases hok
  obtain ⟨hview, hcols, hstack, hguards⟩ := imageTxnRelease_published hstop
  have hledger : LedgerAt img.slot none [] []
      (procChildReset img.slot (imageTxnRelease img rt1.own)).regionView := by
    rw [hview]
    exact (h.before.ledger.release.putMm {}).setSnapshot none
  have hreset := hstop.setOwn hledger (fun t ht => ?_) (fun t ht => ?_) (fun t ht => ?_)
    fun t ht => ?_
  · have hnone : imageLeaseRelease img (procChildReset img.slot (imageTxnRelease img rt1.own)) =
        procChildReset img.slot (imageTxnRelease img rt1.own) := by
      refine imageLeaseRelease_none hreset.own ?_
      have hgen : (procChildReset img.slot (imageTxnRelease img rt1.own)).generation =
          o.generation := congrArg RegionView.generation hview
      show img.owner = ⟨img.slot, (procChildReset img.slot
        (imageTxnRelease img rt1.own)).generation img.slot⟩
      rw [hgen, h.owner]
      rfl
    refine ⟨rfl, ?_, ?_⟩
    · show RunAt rt0 img.slot none [] [] { (slotSignalReset img.slot (primarySlotClear img.slot
        (setRunnable img.slot false (slotProcReset img.slot
          { rt1 with own := imageTxnRelease img rt1.own })))) with
        own := imageLeaseRelease img (procChildReset img.slot (imageTxnRelease img rt1.own)) }
      rw [hnone]
      exact hreset.record rfl (fun t ht => update_of_ne ht _ _) rfl
    · show (imageLeaseRelease img (procChildReset img.slot
        (imageTxnRelease img rt1.own))).mm img.slot = none
      rw [hnone]
      exact update_self _ _ _
  · exact (update_of_ne ht _ _).trans (congrFun hcols.alive t)
  · exact (update_of_ne ht _ _).trans (congrFun hcols.vforkParent t)
  · exact (update_of_ne ht _ _).trans (congrFun hcols.snapshot t)
  · refine Own.space_of_val (congrFun (congrArg RegionView.mm hview) t) (fun i hi => ?_) ?_
      (congrFun (congrArg RegionView.generation hview) t) ?_
    · refine (congrFun (congrArg (fun v => v.mms.val) hview) i).trans ?_
      exact h.before.ledger.counted.put_val {} hi
    · refine (update_of_ne ht _ _).trans ?_
      rw [hstack, hstop.stackLo t ht]
    · show (imageTxnRelease img rt1.own).guards t = o.guards t
      rw [hguards, hstop.guards]

end Lxp
