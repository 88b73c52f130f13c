import Lxp.Region.Ledger

/-!
# A handler at work on one slot

`RegionsOk` is the invariant between events: the ledger, and that a task which still owes its vfork
parent a restore holds the snapshot or is about to exit.  Inside a handler `OwnAt` and `RunAt` carry
the ledger of the slot it works on and say that the other slots' columns are those it started from.
-/

open Function LeaseTable RefPool List

namespace Lxp

variable {C : Config}
variable {t : C.Slot}
variable {bystander : C.Slot → Prop}

structure Vforked (rt : Runtime C) (t : C.Slot) : Prop where
  parent : rt.own.snapshot t ≠ none → rt.own.vforkParent t ≠ none
  pending : rt.own.vforkParent t ≠ none → rt.own.snapshot t = none →
    (rt.sched.ctl t).intent.isExit = true

structure RegionsOk (rt : Runtime C) : Prop where
  ledger : Ledger rt.own.regionView
  vforked : ∀ t, rt.own.alive t = true → Vforked rt t

variable {o o' o0 : Own C} {rt rt' rt0 : Runtime C} {s : C.Slot} {ref : RegionRef C}
  {held : Option (RegionRef C)} {extra : List (Obj C)} {float : List (RegionRef C)}

theorem ResourcesOnly.regionView (h : ResourcesOnly o o') : o'.regionView = o.regionView := by
  rw [h]
  rfl

theorem RegionsOk.groupsOnly (h : RegionsOk rt) (hg : GroupsOnly rt rt') : RegionsOk rt' := by
  have hview : rt'.own.regionView = rt.own.regionView := by
    rw [hg.own]
    rfl
  refine ⟨hview ▸ h.ledger, fun t ht => ?_⟩
  rw [hg.own] at ht
  obtain ⟨hparent, hpending⟩ := h.vforked t ht
  refine ⟨fun hsnap => ?_, fun hpar hsnap => ?_⟩
  · rw [hg.own] at hsnap ⊢
    exact hparent hsnap
  · rw [hg.own] at hpar hsnap
    exact (hg.intent t).isExit (hpending hpar hsnap)

theorem RegionsOk.intentClear (h : RegionsOk rt)
    (hs : rt.own.alive s = true → rt.own.vforkParent s ≠ none → rt.own.snapshot s ≠ none) :
    RegionsOk (intentClear s rt) := by
  refine ⟨h.ledger, fun t ht => ⟨(h.vforked t ht).parent, fun hpar hsnap => ?_⟩⟩
  by_cases hts : t = s
  · subst hts
    exact absurd hsnap (hs ht hpar)
  · show (update rt.sched.ctl s _ t).intent.isExit = true
    rw [update_of_ne hts]
    exact (h.vforked t ht).pending hpar hsnap

/-! ## Objects -/

/-- What a handler at work on another slot never changes of a task: its address space, incarnation
and vfork record. -/
def Own.space (o : Own C) (t : C.Slot) : Option (Mm C) × Nat × Nat × VforkGuard C :=
  ((o.mm t).map o.mms.val, o.stackLo t, o.generation t, o.guards t)

structure OwnAt (o0 : Own C) (s : C.Slot) (held : Option (RegionRef C)) (extra : List (Obj C))
    (float : List (RegionRef C)) (o : Own C) : Prop where
  ledger : LedgerAt s held extra float o.regionView
  alive : ∀ t, t ≠ s → o.alive t = o0.alive t
  vforkParent : ∀ t, t ≠ s → o.vforkParent t = o0.vforkParent t
  snapshot : ∀ t, t ≠ s → o.snapshot t = o0.snapshot t
  space : ∀ t, t ≠ s → o.space t = o0.space t

theorem Own.space_of_val (hmm : o'.mm t = o.mm t)
    (hval : ∀ m, o.mm t = some m → o'.mms.val m = o.mms.val m) (hstack : o'.stackLo t = o.stackLo t)
    (hgen : o'.generation t = o.generation t) (hguard : o'.guards t = o.guards t) :
    o'.space t = o.space t := by
  have hspace : (o'.mm t).map o'.mms.val = (o.mm t).map o.mms.val := by
    rw [hmm]
    cases hm : o.mm t with
    | none => rfl
    | some m => exact congrArg some (hval m hm)
  rw [Own.space, Own.space, hspace, hstack, hgen, hguard]

variable {r : Fin C.nreg}

namespace OwnAt

variable {held' : Option (RegionRef C)} {extra' : List (Obj C)} {float' : List (RegionRef C)}

section

variable (h : OwnAt o0 s held extra float o)
include h

/-- The objects move on with the other slots' columns as they are. -/
theorem step (hledger : LedgerAt s held' extra' float' o'.regionView)
    (halive : ∀ t, t ≠ s → o'.alive t = o.alive t)
    (hparent : ∀ t, t ≠ s → o'.vforkParent t = o.vforkParent t)
    (hsnap : ∀ t, t ≠ s → o'.snapshot t = o.snapshot t)
    (hspace : ∀ t, t ≠ s → o'.space t = o.space t := by intros; rfl) :
    OwnAt o0 s held' extra' float' o' :=
  ⟨hledger, fun t ht => (halive t ht).trans (h.alive t ht),
    fun t ht => (hparent t ht).trans (h.vforkParent t ht),
    fun t ht => (hsnap t ht).trans (h.snapshot t ht),
    fun t ht => (hspace t ht).trans (h.space t ht)⟩

theorem of_view (hview : o'.regionView = o.regionView) (hparent : o'.vforkParent = o.vforkParent)
    (hstack : ∀ t, t ≠ s → o'.stackLo t = o.stackLo t := by intros; rfl)
    (hguard : ∀ t, t ≠ s → o'.guards t = o.guards t := by intros; rfl) :
    OwnAt o0 s held extra float o' := by
  refine h.step (hview ▸ h.ledger) (fun t _ => ?_) (fun t _ => by rw [hparent]) (fun t _ => ?_)
    fun t ht => ?_
  · exact congrFun (congrArg RegionView.alive hview) t
  · exact congrFun (congrArg RegionView.snapshot hview) t
  · refine Own.space_of_val (congrFun (congrArg RegionView.mm hview) t) (fun m _ => ?_)
      (hstack t ht) (congrFun (congrArg RegionView.generation hview) t) (hguard t ht)
    exact congrFun (congrArg (fun v => v.mms.val) hview) m

theorem resources (hres : ResourcesOnly o o') : OwnAt o0 s held extra float o' :=
  h.of_view hres.regionView (by rw [hres]) (fun t _ => by rw [hres]) (fun t _ => by rw [hres])

/-- The slot's own snapshot, guard and vfork parent may change at any time. -/
theorem setGuard (guard : VforkGuard C) :
    OwnAt o0 s held extra float { o with guards := update o.guards s guard } := by
  refine h.step ?_ (fun _ _ => rfl) (fun _ _ => rfl) (fun _ _ => rfl)
    fun t ht => Own.space_of_val rfl (fun _ _ => rfl) rfl rfl (update_of_ne ht _ _)
  have hguard : Own.regionView { o with guards := update o.guards s guard } =
      { o.regionView with guard := update o.regionView.guard s guard.snapshot } := by
    simp only [Own.regionView, RegionView.mk.injEq, true_and, and_true]
    exact comp_update VforkGuard.snapshot o.guards s guard
  rw [hguard]
  exact h.ledger.setGuard guard.snapshot

theorem guardReset : OwnAt o0 s held extra float (vforkGuardReset s o) := h.setGuard {}

end

theorem renew (h : OwnAt o0 s none extra float o) : OwnAt o0 s none extra float
      { o with generation := update o.generation s (o.generation s + 1) } :=
  h.step h.ledger.renew (fun _ _ => rfl) (fun _ _ => rfl) (fun _ _ => rfl)
    fun _ ht => Own.space_of_val rfl (fun _ _ => rfl) rfl (update_of_ne ht _ _) rfl

section

variable (h : OwnAt o0 s held extra float o)
include h

theorem setSnapshot (snapshot : Option (RegionRef C)) :
    OwnAt o0 s held extra float { o with snapshot := update o.snapshot s snapshot } :=
  h.step (h.ledger.setSnapshot snapshot) (fun _ _ => rfl) (fun _ _ => rfl)
    (fun _ ht => update_of_ne ht _ _)

theorem setVforkParent (parent : Option (SlotRef C)) :
    OwnAt o0 s held extra float { o with vforkParent := update o.vforkParent s parent } :=
  h.step h.ledger (fun _ _ => rfl) (fun _ ht => update_of_ne ht _ _) (fun _ _ => rfl)

theorem setDead (hmm : o.mm s = none) :
    OwnAt o0 s held extra float { o with alive := update o.alive s false } :=
  h.step (h.ledger.setDead hmm) (fun _ ht => update_of_ne ht _ _) (fun _ _ => rfl) (fun _ _ => rfl)

end

theorem reserve (h : OwnAt o0 s none extra float o)
    (hr : regionReserve r (slotRefAt o s) o = some (ref, o')) :
    OwnAt o0 s (some ref) extra float o' := by
  obtain ⟨t, hres, rfl⟩ := regionReserve_eq hr
  exact h.step (h.ledger.reserve hres) (fun _ _ => rfl) (fun _ _ => rfl) (fun _ _ => rfl)

theorem regionGet {r : Option (RegionRef C)} (h : OwnAt o0 s held extra float o)
    (hg : regionGet r o = some o') : OwnAt o0 s held extra (r.toList ++ float) o' := by
  obtain ⟨ref, t, rfl, hget, rfl⟩ := regionGet_eq hg
  exact h.step (h.ledger.getRegion hget) (fun _ _ => rfl) (fun _ _ => rfl) (fun _ _ => rfl)

theorem regionPut {r : Option (RegionRef C)} (h : OwnAt o0 s held extra (r.toList ++ float) o) :
    OwnAt o0 s held extra float (regionPut r o) := by
  cases r with
  | none => exact h
  | some ref =>
    exact h.step h.ledger.putRegion (fun _ _ => rfl) (fun _ _ => rfl) (fun _ _ => rfl)

theorem release (h : OwnAt o0 s (some ref) extra float o) :
    OwnAt o0 s none extra float (regionReleaseIfOwned ref (slotRefAt o s) o) := by
  refine h.step ?_ (fun _ _ => rfl) (fun _ _ => rfl) (fun _ _ => rfl)
  have hput : (regionReleaseIfOwned ref (slotRefAt o s) o).regionView =
      { o.regionView with regions := LeaseTable.put o.regionView.regions ref } := by
    rw [← h.ledger.releaseIfOwned_eq_put]
    rfl
  rw [hput]
  exact h.ledger.release

theorem release_none (h : OwnAt o0 s none extra float o) (ref : RegionRef C) :
    regionReleaseIfOwned ref (slotRefAt o s) o = o := by
  have hno : (o.regions ref.index).leaseOwner ≠ some (slotRefAt o s) := by
    intro howner
    rcases h.ledger.lease ref.index _ howner with ⟨hidx, _⟩ | ⟨hheld, _⟩
    · exact hidx rfl
    · cases hheld
  simp only [regionReleaseIfOwned, releaseIfOwned, hno, false_and, if_false]

/-- Dropping an address space of the slot leaves the other tasks' as they are. -/
theorem putMm_space {m : Obj C} (hcount : Counted o.mms (update o.mm s none) (m :: extra))
    (ht : t ≠ s) (regions : Table (SlotRef C) C.nreg) : Own.space { o with
      regions := regions, mms := o.mms.put {} m, mm := update o.mm s none } t = o.space t := by
  refine Own.space_of_val (update_of_ne ht _ _) (fun m' hm' => ?_) rfl rfl rfl
  exact hcount.put_val {} (show update o.mm s none t = some m' by rw [update_of_ne ht]; exact hm')

theorem procMmPut (h : OwnAt o0 s held extra float o) (hs : o.alive s = false) :
    OwnAt o0 s held extra float (procMmPut s o) := by
  unfold Lxp.procMmPut
  cases hmm : o.mm s with
  | none =>
    refine h.of_view ?_ rfl
    show { o.regionView with mm := update o.mm s none } = o.regionView
    rw [← hmm, update_eq_self]
    rfl
  | some m =>
    exact h.step ((h.ledger.takeMm hs hmm).putMm {}) (fun _ _ => rfl) (fun _ _ => rfl)
      (fun _ _ => rfl) fun t ht => putMm_space (h.ledger.takeMm hs hmm).counted ht o.regions

/-- A live task's address space is dropped together with its region reference. -/
theorem regionMmPut (h : OwnAt o0 s held extra float o) (hs : o.alive s = true) :
    OwnAt o0 s held extra float (regionMmPut s o) := by
  unfold Lxp.regionMmPut
  cases hmm : o.mm s with
  | none => exact h
  | some m =>
    have hregion : mmRegion o s = (o.mms.val m).region := by
      rw [mmRegion, hmm]
      rfl
    have htaken := h.ledger.takeLive hs hmm
    rw [hregion]
    cases hr : (o.mms.val m).region with
    | none =>
      have htaken' : LedgerAt s held (m :: extra) float
          { o.regionView with mm := update o.mm s none } := by
        rw [show (o.regionView.mms.val m).region = none from hr] at htaken
        exact htaken
      have hdone : Lxp.procMmPut s (Lxp.regionPut none o) =
          { o with mms := o.mms.put {} m, mm := update o.mm s none } := by
        rw [Lxp.procMmPut, Lxp.regionPut, hmm]
        rfl
      rw [hdone]
      exact h.step (htaken'.putMm {}) (fun _ _ => rfl) (fun _ _ => rfl) (fun _ _ => rfl)
        fun t ht => putMm_space htaken'.counted ht o.regions
    | some ref =>
      have htaken' : LedgerAt s held (m :: extra) (ref :: float)
          { o.regionView with mm := update o.mm s none } := by
        rw [show (o.regionView.mms.val m).region = some ref from hr] at htaken
        exact htaken
      have hdone : Lxp.procMmPut s (Lxp.regionPut (some ref) o) = { o with
            regions := LeaseTable.put o.regions ref
            mms := o.mms.put {} m
            mm := update o.mm s none } := by
        rw [Lxp.procMmPut, Lxp.regionPut, hmm]
        rfl
      rw [hdone]
      exact h.step (htaken'.putRegion.putMm {}) (fun _ _ => rfl) (fun _ _ => rfl)
        (fun _ _ => rfl) fun t ht => putMm_space htaken'.counted ht _

end OwnAt

theorem regionMmPut_mm (s : C.Slot) (o : Own C) : (regionMmPut s o).mm s = none := by
  unfold regionMmPut
  split
  · rename_i hnone
    exact Option.isNone_iff_eq_none.mp hnone
  · exact update_self _ _ _

/-- The columns that say which incarnation a slot is and what it owes its vfork parent. -/
structure SameColumns (o o' : Own C) : Prop where
  alive : o'.alive = o.alive
  generation : o'.generation = o.generation
  vforkParent : o'.vforkParent = o.vforkParent
  snapshot : o'.snapshot = o.snapshot

theorem SameColumns.trans {o'' : Own C} (h : SameColumns o o') (h' : SameColumns o' o'') :
    SameColumns o o'' :=
  ⟨h'.alive.trans h.alive, h'.generation.trans h.generation, h'.vforkParent.trans h.vforkParent,
    h'.snapshot.trans h.snapshot⟩

theorem ResourcesOnly.sameColumns (h : ResourcesOnly o o') : SameColumns o o' := by
  rw [h]
  exact ⟨rfl, rfl, rfl, rfl⟩

/-- The columns above and the address spaces the slots name. -/
structure SameSlots (o o' : Own C) : Prop extends SameColumns o o' where
  mm : o'.mm = o.mm

namespace SameSlots

variable {o'' : Own C}

theorem refl (o : Own C) : SameSlots o o := ⟨⟨rfl, rfl, rfl, rfl⟩, rfl⟩

theorem trans (h : SameSlots o o') (h' : SameSlots o' o'') : SameSlots o o'' :=
  ⟨h.toSameColumns.trans h'.toSameColumns, h'.mm.trans h.mm⟩

end SameSlots

theorem ResourcesOnly.sameSlots (h : ResourcesOnly o o') : SameSlots o o' :=
  ⟨h.sameColumns, by rw [h]⟩

theorem regionReserve_slots {owner : SlotRef C}
    (h : regionReserve r owner o = some (ref, o')) : SameSlots o o' := by
  obtain ⟨t, -, rfl⟩ := regionReserve_eq h
  exact ⟨⟨rfl, rfl, rfl, rfl⟩, rfl⟩

theorem mmPut_same (m : Option (Obj C)) (o : Own C) : SameColumns o (mmPut m o) := by
  cases m <;> exact ⟨rfl, rfl, rfl, rfl⟩

theorem groupPut_same (g : Option (Obj C)) (o : Own C) : SameColumns o (groupPut g o) := by
  cases g <;> exact ⟨rfl, rfl, rfl, rfl⟩

theorem procMmPut_same (s : C.Slot) (o : Own C) : SameColumns o (procMmPut s o) :=
  (mmPut_same (o.mm s) o).trans ⟨rfl, rfl, rfl, rfl⟩

theorem procGroupPut_same (s : C.Slot) (o : Own C) : SameColumns o (procGroupPut s o) :=
  (groupPut_same (o.group s) o).trans ⟨rfl, rfl, rfl, rfl⟩

theorem regionPut_same (r : Option (RegionRef C)) (o : Own C) : SameColumns o (regionPut r o) := by
  cases r <;> exact ⟨rfl, rfl, rfl, rfl⟩

theorem regionMmPut_same (s : C.Slot) (o : Own C) : SameColumns o (regionMmPut s o) := by
  unfold regionMmPut
  split
  · exact ⟨rfl, rfl, rfl, rfl⟩
  · exact (regionPut_same _ o).trans (procMmPut_same s _)

/-- Only thread groups and the slots' pointers to them change. -/
def GroupRecordsOnly (o o' : Own C) : Prop := o' = { o with group := o'.group, groups := o'.groups }

theorem GroupRecordsOnly.sameSlots (h : GroupRecordsOnly o o') : SameSlots o o' := by
  rw [h]
  exact ⟨⟨rfl, rfl, rfl, rfl⟩, rfl⟩

theorem OwnAt.groupRecords (h : OwnAt o0 s held extra float o)
    (hg : GroupRecordsOnly o o') : OwnAt o0 s held extra float o' := by
  rw [hg]
  exact h.of_view rfl rfl

/-- Another task's snapshot is leased to it alone. -/
theorem OwnAt.snapshot_leased
    (h : OwnAt o0 s held extra float o) (hts : t ≠ s) (ht : o.alive t = true)
    (href : o.snapshot t = some ref) : LeaseMatches o.regions ref (slotRefAt o t) 1 :=
  (h.ledger.kept t ref hts ht href).1

theorem OwnAt.snapshot_ne_held {held : RegionRef C} (h : OwnAt o0 s (some held) extra float o)
    (hts : t ≠ s) (ht : o.alive t = true) (href : o.snapshot t = some ref) :
    ref.index ≠ held.index := by
  have howner := (h.snapshot_leased hts ht href).2.2.2
  have hself := (h.ledger.own held rfl).2.2.2
  intro hidx
  rw [hidx] at howner
  have hsame : some (slotRefAt o t) = some (slotRefAt o s) := howner.symm.trans hself
  injection hsame with hsame
  exact hts (congrArg SlotRef.index hsame)

section

variable (h : OwnAt o0 s held extra float o)
include h

/-- The region of a live task is no other task's snapshot. -/
theorem OwnAt.snapshot_ne_used {par : C.Slot} {p : RegionRef C}
    (hpar : o.alive par = true) (hp : mmRegion o par = some p)
    (hts : t ≠ s) (ht : o.alive t = true) (href : o.snapshot t = some ref) : ref.index ≠ p.index :=
  h.ledger.balanced.leased_ne_used ((RegionView.use_of_alive hpar).trans hp)
    (h.snapshot_leased hts ht href)

theorem OwnAt.groupPut (g : Option (Obj C)) : OwnAt o0 s held extra float (groupPut g o) := by
  cases g <;> exact h.of_view rfl rfl

theorem OwnAt.procGroupPut : OwnAt o0 s held extra float (procGroupPut t o) :=
  (h.groupPut (o.group t)).of_view rfl rfl

end

/-! ## Runs -/

/-- The memory of a region, of its dynamic pool and of its allocator record. -/
def Ram.cells (ram : Ram C) (r : Fin C.nreg) : (Nat → UInt8) × (Nat → UInt8) × (Nat → UInt8) :=
  (ram.image r, ram.dynPool r, ram.arena r)

structure RunAt (rt0 : Runtime C) (s : C.Slot) (held : Option (RegionRef C))
    (extra : List (Obj C)) (float : List (RegionRef C)) (rt : Runtime C) : Prop where
  own : OwnAt rt0.own s held extra float rt.own
  intent : ∀ t, t ≠ s → (rt0.sched.ctl t).intent.Kept (rt.sched.ctl t).intent
  abort : rt.sched.port.abort <:+ rt0.sched.port.abort
  launch : rt.sched.port.launch <:+ rt0.sched.port.launch
  resumeSp : ∀ t, t ≠ s → rt.sched.resumeSp t = rt0.sched.resumeSp t
  -- The snapshot taken for another task.
  saved : ∀ t ref, t ≠ s → rt0.own.alive t = true → rt0.own.snapshot t = some ref →
    rt.ram.cells ref.index = rt0.ram.cells ref.index

/-- What an event leaves of a task that it is not about. -/
structure Kept (rt0 : Runtime C) (t : C.Slot) (rt : Runtime C) : Prop where
  alive : rt.own.alive t = rt0.own.alive t
  vforkParent : rt.own.vforkParent t = rt0.own.vforkParent t
  snapshot : rt.own.snapshot t = rt0.own.snapshot t
  space : rt.own.space t = rt0.own.space t
  intent : (rt0.sched.ctl t).intent.Kept (rt.sched.ctl t).intent
  resumeSp : rt.sched.resumeSp t = rt0.sched.resumeSp t
  saved : ∀ ref, rt0.own.alive t = true → rt0.own.snapshot t = some ref →
    rt.ram.cells ref.index = rt0.ram.cells ref.index

theorem GroupsOnly.kept (h : GroupsOnly rt rt') (t : C.Slot) : Kept rt t rt' :=
  ⟨by rw [h.own], by rw [h.own], by rw [h.own], by rw [h.own]; rfl, h.intent t, by rw [h.resumeSp],
    fun _ _ _ => by rw [h.ram]⟩

theorem Kept.trans {rt'' : Runtime C} (h : Kept rt t rt') (h' : Kept rt' t rt'') : Kept rt t rt'' :=
  ⟨h'.alive.trans h.alive, h'.vforkParent.trans h.vforkParent, h'.snapshot.trans h.snapshot,
    h'.space.trans h.space, h.intent.trans h'.intent, h'.resumeSp.trans h.resumeSp,
    fun ref ht href => (h'.saved ref (h.alive.trans ht) (h.snapshot.trans href)).trans
      (h.saved ref ht href)⟩

/-- A handler is done: the regions are accounted for and the `bystander`s are kept. -/
structure Settled (rt0 : Runtime C) (bystander : C.Slot → Prop) (rt : Runtime C) : Prop where
  regions : RegionsOk rt
  kept : ∀ t, bystander t → Kept rt0 t rt

theorem Settled.groupsOnly (h : Settled rt0 bystander rt)
    (hg : GroupsOnly rt rt') : Settled rt0 bystander rt' :=
  ⟨h.regions.groupsOnly hg, fun t ht => (h.kept t ht).trans (hg.kept t)⟩

theorem RegionsOk.settled (h : RegionsOk rt) (hg : GroupsOnly rt rt')
    (bystander : C.Slot → Prop) : Settled rt bystander rt' :=
  ⟨h.groupsOnly hg, fun t _ => hg.kept t⟩

theorem Settled.of_kept (h : Settled rt bystander rt')
    (hk : ∀ t, bystander t → Kept rt0 t rt) : Settled rt0 bystander rt' :=
  ⟨h.regions, fun t ht => (hk t ht).trans (h.kept t ht)⟩

theorem Settled.mono {p q : C.Slot → Prop} (h : Settled rt0 p rt)
    (hpq : ∀ t, q t → p t) : Settled rt0 q rt :=
  ⟨h.regions, fun t ht => h.kept t (hpq t ht)⟩

theorem RegionsOk.openDead (h : RegionsOk rt)
    (hs : rt.own.alive s = false) : RunAt rt s none [] [] rt :=
  ⟨⟨h.ledger.openDead hs, fun _ _ => rfl, fun _ _ => rfl, fun _ _ => rfl, fun _ _ => rfl⟩,
    fun _ _ => Intent.Kept.refl _, suffix_refl _, suffix_refl _, fun _ _ => rfl,
      fun _ _ _ _ _ => rfl⟩

theorem RegionsOk.openAlive (h : RegionsOk rt)
    (hs : rt.own.alive s = true) : RunAt rt s (rt.own.snapshot s) [] [] rt :=
  ⟨⟨h.ledger.openAlive hs, fun _ _ => rfl, fun _ _ => rfl, fun _ _ => rfl, fun _ _ => rfl⟩,
    fun _ _ => Intent.Kept.refl _, suffix_refl _, suffix_refl _, fun _ _ => rfl,
      fun _ _ _ _ _ => rfl⟩

namespace RunAt

variable {held' : Option (RegionRef C)} {extra' : List (Obj C)} {float' : List (RegionRef C)}

section

variable (h : RunAt rt0 s held extra float rt)
include h

theorem setOwn (ho : OwnAt rt0.own s held' extra' float' o) :
    RunAt rt0 s held' extra' float' { rt with own := o } :=
  { h with own := ho }

theorem groupsOnly (hg : GroupsOnly rt rt') : RunAt rt0 s held extra float rt' := by
  refine ⟨h.own.of_view ?_ ?_ (fun t _ => ?_) fun t _ => ?_,
    fun t hts => (h.intent t hts).trans (hg.intent t), hg.abort.trans h.abort,
    hg.launch.trans h.launch,
    fun t hts => by rw [hg.resumeSp]; exact h.resumeSp t hts,
    fun t ref hts ht hsnap => by rw [hg.ram]; exact h.saved t ref hts ht hsnap⟩
  · rw [hg.own]
    rfl
  · rw [hg.own]
  · rw [hg.own]
  · rw [hg.own]

theorem schedOnly (hg : SchedOnly rt rt') : RunAt rt0 s held extra float rt' :=
  h.groupsOnly hg.groupsOnly

theorem record (hown : rt'.own = rt.own)
    (hctl : ∀ t, t ≠ s → rt'.sched.ctl t = rt.sched.ctl t) (hport : rt'.sched.port = rt.sched.port)
    (hsp : ∀ t, t ≠ s → rt'.sched.resumeSp t = rt.sched.resumeSp t := by intros; rfl)
    (hram : rt'.ram = rt.ram := by rfl) : RunAt rt0 s held extra float rt' := by
  refine ⟨hown ▸ h.own, fun t hts => ?_, hport ▸ h.abort, hport ▸ h.launch,
    fun t hts => (hsp t hts).trans (h.resumeSp t hts), hram ▸ h.saved⟩
  rw [hctl t hts]
  exact h.intent t hts

/-- The memory of a region that is no other task's snapshot may change. -/
theorem setRam {ram : Ram C} (hram : ∀ j, j ≠ r → ram.cells j = rt.ram.cells j)
    (hr : ∀ t ref, t ≠ s → rt.own.alive t = true → rt.own.snapshot t = some ref → ref.index ≠ r) :
    RunAt rt0 s held extra float { rt with ram := ram } := by
  refine { h with saved := fun t ref hts ht hsnap => ?_ }
  refine (hram ref.index ?_).trans (h.saved t ref hts ht hsnap)
  exact hr t ref hts ((h.own.alive t hts).trans ht) ((h.own.snapshot t hts).trans hsnap)

theorem vforked_of_ne (h0 : RegionsOk rt0) (hts : t ≠ s)
    (ht : rt.own.alive t = true) : Vforked rt t := by
  obtain ⟨hparent, hpending⟩ := h0.vforked t (by rw [← h.own.alive t hts]; exact ht)
  refine ⟨fun hsnap => ?_, fun hpar hsnap => ?_⟩
  · rw [h.own.snapshot t hts] at hsnap
    rw [h.own.vforkParent t hts]
    exact hparent hsnap
  · rw [h.own.vforkParent t hts] at hpar
    rw [h.own.snapshot t hts] at hsnap
    exact (h.intent t hts).isExit (hpending hpar hsnap)

theorem kept (hts : t ≠ s) : Kept rt0 t rt :=
  ⟨h.own.alive t hts, h.own.vforkParent t hts, h.own.snapshot t hts, h.own.space t hts,
    h.intent t hts, h.resumeSp t hts, fun ref => h.saved t ref hts⟩

end

theorem closeDead (h : RunAt rt0 s none [] [] rt) (h0 : RegionsOk rt0)
    (hs : rt.own.alive s = false) (hmm : rt.own.mm s = none) : Settled rt0 (· ≠ s) rt := by
  refine ⟨⟨h.own.ledger.closeDead hs hmm, fun t ht => h.vforked_of_ne h0 (fun hts => ?_) ht⟩,
    fun t => h.kept⟩
  rw [hts, hs] at ht
  cases ht

theorem closeAlive (h : RunAt rt0 s held [] [] rt) (h0 : RegionsOk rt0)
    (hs : rt.own.alive s = true) (hsnap : rt.own.snapshot s = held)
    (hguard : ∀ ref, held = some ref → (rt.own.guards s).snapshot = some ref)
    (hvforked : Vforked rt s) : Settled rt0 (· ≠ s) rt := by
  refine ⟨⟨h.own.ledger.closeAlive hs hsnap hguard, fun t ht => ?_⟩, fun t => h.kept⟩
  by_cases hts : t = s
  · rw [hts]
    exact hvforked
  · exact h.vforked_of_ne h0 hts ht

end RunAt

end Lxp
