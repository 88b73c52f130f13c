import Lxp.Region.Exec

/-!
# Region accounting over whole runs

In every state between events the region counts are the live tasks that name the region plus its
lease, and every lease is a current vfork child's snapshot.  Two kinds of steps break this: a vfork
child that exits after its parent has gone, and an exec whose new task can neither be launched nor
aborted.
-/

open Function LeaseTable RefPool Option

namespace Lxp

variable {C : Config}

/-! ## Boot -/

theorem resetRuntime_ok (C : Config) : RegionsOk (resetRuntime C) := by
  have hmms : Counted (resetRuntime C).own.mms (resetRuntime C).own.mm [] := by
    intro i
    show 0 = holders (fun _ : C.Slot => (none : Option (Obj C))) i + 0
    rw [holders_eq_zero_iff.mpr (fun _ h => by cases h)]
  have hregions : Balanced (resetRuntime C).own.regions (resetRuntime C).own.regionView.use [] := by
    refine ⟨fun k => ?_, fun t r hr => ?_, fun r hr => ?_, fun k hk => absurd rfl hk⟩
    · rw [holders_eq_zero_iff.mpr (fun _ h => by cases h)]
      rfl
    · cases hr
    · cases hr
  refine ⟨⟨hmms, hregions, fun _ _ => rfl, fun t => ?_, fun r owner h => ?_, fun t ref ht => ?_⟩,
    fun t ht => ?_⟩
  · exact one_ne_zero
  · cases h
  · cases ht
  · cases ht

variable {rt : Runtime C} {s : C.Slot}

/-- The initial program's region is the address space's by the time the loop starts. -/
theorem boot_ok {fileIndex : Int} {l : LoadResult}
    (h : boot C fileIndex l = some rt) : RegionsOk rt := by
  have h0 := resetRuntime_ok C
  have hopen := h0.openDead (s := slot0 C) rfl
  unfold boot at h
  dsimp only at h
  split at h
  · cases h
  rename_i hres
  have hown := hopen.own.reserve hres
  have hcols := regionReserve_slots hres
  obtain ⟨rt1, hlaunch, hrt⟩ := map_eq_some_iff.mp h
  unfold imageLaunch at hlaunch
  generalize hprep : imageTxnPrepare _ 0 l _ = q at hlaunch
  obtain ⟨hholds, hsame, hslots, _⟩ := imageTxnPrepare_holds hprep (hopen.setOwn hown) rfl rfl (by
    rw [slotRefAt, slotRefAt, hcols.generation])
  obtain ⟨_ | e, img1, rt2⟩ := q
  · dsimp only at hlaunch
    have hslot : img1.slot = slot0 C := hsame.slot
    have hall := hcols.trans hslots
    generalize hpub : imageTxnPublish img1 rt2 = q at hlaunch
    obtain ⟨hsame1, _, _, hok⟩ := imageTxnPublish_holds hholds
      (by rw [hall.alive]; rfl) (by rw [hall.mm]; rfl) hpub
    obtain ⟨_ | e, img2, rt3⟩ := q
    · dsimp only at hlaunch
      obtain ⟨m, hpublished⟩ := hok rfl
      generalize hstart : imageTxnStart img2 rt3 = q at hlaunch
      obtain ⟨_ | e, rt4⟩ := q
      · injection hlaunch with hlaunch
        subst hlaunch
        obtain ⟨hrun, halive, hsnap, hparent⟩ := imageTxnStart_ok hpublished hstart
        have hslot2 : img2.slot = slot0 C := hsame1.slot.trans hslot
        have hnone : img2.vforkParent = none := hsame1.vforkParent.trans hsame.vforkParent
        rw [hnone] at hparent
        rw [hslot2] at hrun halive hsnap hparent
        subst hrt
        have hdone : OwnAt (resetRuntime C).own (slot0 C) none [] [] { rt4.own with
            execFileIdx := update rt4.own.execFileIdx (slot0 C) fileIndex } :=
          hrun.own.of_view rfl rfl
        exact ((hrun.setOwn hdone).closeAlive h0 halive hsnap (fun q hq => by cases hq)
          ⟨fun hne => absurd hsnap hne, fun hne => absurd hparent hne⟩).regions
      · cases hlaunch
    · cases hlaunch
  · cases hlaunch

/-! ## Steps -/

/-- The two steps that lose track of a region: the exit of a vfork child whose parent is gone, and
an exec that the port refuses to launch and to abort. -/
def keepsRegions (rt : Runtime C) : Action C → Prop
  | .event s i =>
    match claimedEvent s rt with
    | .exit _ => rt.own.snapshot s = none ∨ refIsCurrent rt.own (rt.own.vforkParent s) = true
    | .exec => ¬ (false ∈ i.port.launch ∧ false ∈ i.port.abort)
    | _ => True
  | _ => True

instance (rt : Runtime C) (a : Action C) : Decidable (keepsRegions rt a) := by
  unfold keepsRegions
  split
  · split <;> infer_instance
  · infer_instance

theorem all_true_of_not_mem {l : List Bool} (h : false ∉ l) : ∀ b ∈ l, b = true := by
  intro b hb
  cases b with
  | true => rfl
  | false => exact absurd hb h

/-- A task with a claimed fork or exec still has the snapshot that it owes its vfork parent. -/
theorem RegionsOk.pair (h : RegionsOk rt) (hintent : (rt.sched.ctl s).intent.isExit = false) :
    rt.own.alive s = true → rt.own.vforkParent s ≠ none → rt.own.snapshot s ≠ none := by
  intro halive hparent hsnap
  have hexit := (h.vforked s halive).pending hparent hsnap
  rw [hintent] at hexit
  cases hexit

/-- A claimed event belongs to a live task; a fork or exec of one that is not to exit. -/
theorem claimedEvent_alive (h : claimedEvent s rt ≠ .none) : rt.own.alive s = true := by
  cases halive : rt.own.alive s with
  | true => rfl
  | false =>
    refine absurd ?_ h
    unfold claimedEvent claimSlotEvent
    split <;> rfl

theorem claimedEvent_intent (s : C.Slot) (rt : Runtime C) :
    (claimedEvent s rt = .exec → (rt.sched.ctl s).intent = .exec) ∧
      ∀ flags childStack, claimedEvent s rt = .fork flags childStack →
        (rt.sched.ctl s).intent = .fork flags childStack := by
  unfold claimedEvent claimSlotEvent
  dsimp only
  repeat' split
  all_goals simp_all

def eventStart (s : C.Slot) (i : EventInput) (rt : Runtime C) : Runtime C :=
  primarySlotClear s { rt with sched.port := i.port }

theorem eventStart_kept (s t : C.Slot) (i : EventInput) (rt : Runtime C) :
    Kept rt t (eventStart s i rt) :=
  ⟨rfl, rfl, rfl, rfl, Intent.Kept.refl _, rfl, fun _ _ _ => rfl⟩

theorem eventStart_ok (h : RegionsOk rt) (s : C.Slot) (i : EventInput) :
    RegionsOk (eventStart s i rt) :=
  ⟨h.ledger, fun t ht => ⟨(h.vforked t ht).parent, (h.vforked t ht).pending⟩⟩

def Event.quiet : Event → Bool
  | .none | .defer | .stop | .park => true
  | _ => false

/-- An event other than a fork, exec or exit moves no object but thread groups. -/
theorem coordinatorEvent_quiet (i : EventInput) (h : (claimedEvent s rt).quiet = true) :
    GroupsOnly (eventStart s i rt) (coordinatorEvent s i rt) := by
  dsimp only [coordinatorEvent]
  rw [← eventStart]
  generalize eventStart s i rt = rt'
  cases he : claimedEvent s rt with
  | none | defer => exact .refl rt'
  | park => exact (parkSlot_schedOnly s rt').groupsOnly
  | stop =>
    have hpark := parkSlot_schedOnly s rt'
    unfold handleStop
    generalize parkSlot s rt' = q at hpark ⊢
    obtain ⟨_ | _, rt1⟩ := q
    · exact hpark.groupsOnly
    · exact hpark.groupsOnly.trans (childEventPublish_groupsOnly _ _ _)
  | _ => rw [he] at h; cases h

section Claimed

variable (h : RegionsOk rt) (i : EventInput)
include h

theorem coordinatorEvent_fork {flags : CloneFlags} {childStack : Nat}
    (he : claimedEvent s rt = .fork flags childStack) :
    coordinatorEvent s i rt = handleFork s flags childStack (eventStart s i rt) ∧
      Settled (intentClear s (eventStart s i rt)) (rt.own.alive · = true)
        (coordinatorEvent s i rt) := by
  have hintent := congrArg Intent.isExit ((claimedEvent_intent s rt).2 _ _ he)
  have hev : coordinatorEvent s i rt = handleFork s flags childStack (eventStart s i rt) := by
    unfold coordinatorEvent
    rw [he]
    rfl
  refine ⟨hev, ?_⟩
  rw [hev]
  exact handleFork_ok (eventStart_ok h s i) ((eventStart_ok h s i).pair hintent) flags childStack

theorem coordinatorEvent_exec (he : claimedEvent s rt = .exec)
    (hok : keepsRegions rt (.event s i)) :
    coordinatorEvent s i rt = handleExec s i.load (eventStart s i rt) ∧
      Settled (eventStart s i rt) (· ≠ s) (coordinatorEvent s i rt) := by
  have halive := claimedEvent_alive (by rw [he]; simp)
  have hintent := congrArg Intent.isExit ((claimedEvent_intent s rt).1 he)
  have hev : coordinatorEvent s i rt = handleExec s i.load (eventStart s i rt) := by
    unfold coordinatorEvent
    rw [he]
    rfl
  refine ⟨hev, ?_⟩
  rw [hev]
  unfold keepsRegions at hok
  dsimp only at hok
  rw [he] at hok
  refine handleExec_ok (eventStart_ok h s i) halive
    ((eventStart_ok h s i).pair hintent halive) i.load ?_
  rcases not_and_or.mp hok with hl | ha
  · exact Or.inl (all_true_of_not_mem hl)
  · exact Or.inr (all_true_of_not_mem ha)

theorem coordinatorEvent_exit {group : Bool} (he : claimedEvent s rt = .exit group)
    (hok : keepsRegions rt (.event s i)) :
    coordinatorEvent s i rt = (handleExit s group (eventStart s i rt)).2 ∧
      Settled (eventStart s i rt) (· ≠ s) (coordinatorEvent s i rt) ∧
      (GroupsOnly (eventStart s i rt) (coordinatorEvent s i rt) ∨
        (coordinatorEvent s i rt).own.alive s = false) := by
  have halive := claimedEvent_alive (by rw [he]; simp)
  have hev : coordinatorEvent s i rt = (handleExit s group (eventStart s i rt)).2 := by
    unfold coordinatorEvent
    rw [he]
    rfl
  refine ⟨hev, ?_⟩
  rw [hev]
  unfold keepsRegions at hok
  dsimp only at hok
  rw [he] at hok
  refine handleExit_ok (eventStart_ok h s i) halive (fun hne => ?_) group
  rcases hok with hnone | hcur
  · exact absurd hnone hne
  · exact hcur

/-- An event accounts for the regions and keeps every live task but its own. -/
theorem coordinatorEvent_settled (hok : keepsRegions rt (.event s i)) :
    Settled rt (fun t => t ≠ s ∧ rt.own.alive t = true) (coordinatorEvent s i rt) := by
  have hstart : ∀ t : C.Slot, t ≠ s ∧ rt.own.alive t = true → Kept rt t (eventStart s i rt) :=
    fun t _ => eventStart_kept s t i rt
  cases hq : (claimedEvent s rt).quiet with
  | true => exact ((eventStart_ok h s i).settled (coordinatorEvent_quiet i hq) _).of_kept hstart
  | false =>
    cases he : claimedEvent s rt with
    | fork flags childStack =>
      refine ((coordinatorEvent_fork h i he).2.mono fun t ht => ht.2).of_kept fun t ht => ?_
      -- Only the intent of the task itself has been taken.
      obtain ⟨_, _, _, _, _, _, hsaved⟩ := hstart t ht
      refine ⟨rfl, rfl, rfl, rfl, ?_, rfl, hsaved⟩
      show (rt.sched.ctl t).intent.Kept (update rt.sched.ctl s _ t).intent
      rw [update_of_ne ht.1]
      exact .refl _
    | exec => exact ((coordinatorEvent_exec h i he hok).2.mono fun t ht => ht.1).of_kept hstart
    | exit group => exact ((coordinatorEvent_exit h i he hok).2.1.mono fun t ht =>
        ht.1).of_kept hstart
    | _ => rw [he] at hq; cases hq

end Claimed

/-- Guest activity moves no region and ends no task. -/
theorem GuestFrame.regionsOk {rt' : Runtime C} (hg : GuestFrame rt rt') (h : RegionsOk rt) :
    RegionsOk rt' := by
  have hview : rt'.own.regionView = { rt.own.regionView with mms := rt'.own.mms } := by
    rw [hg.own]
    rfl
  have hrefs : rt'.own.mms.refs = rt.own.mms.refs := by rw [hg.own]
  have huse : RegionView.use { rt.own.regionView with mms := rt'.own.mms } =
      rt.own.regionView.use := by
    funext t
    simp only [RegionView.use, RegionView.mmRegion]
    cases hm : rt.own.regionView.mm t with
    | none => rfl
    | some m =>
      simp only [bind_some]
      rw [(hg.layout m).1]
      rfl
  refine ⟨?_, fun t ht => ?_⟩
  · rw [hview]
    refine { h.ledger with counted := fun m => ?_, balanced := ?_ }
    · rw [show ({ rt.own.regionView with mms := rt'.own.mms } : RegionView C).mms.refs m =
        rt.own.mms.refs m from congrFun hrefs m]
      exact h.ledger.counted m
    · rw [huse]
      exact h.ledger.balanced
  rw [hg.own] at ht
  obtain ⟨hparent, hpending⟩ := h.vforked t ht
  refine ⟨fun hsnap => ?_, fun hpar hsnap => hg.exit t (hpending ?_ ?_)⟩
  · rw [hg.own] at hsnap ⊢
    exact hparent hsnap
  · rw [hg.own] at hpar
    exact hpar
  · rw [hg.own] at hsnap
    exact hsnap

theorem sysWait4_groupsOnly (s : C.Slot) (pid : Int) (status : Nat) (nohang untraced : Bool)
    (rt : Runtime C) : GroupsOnly rt (sysWait4 s pid status nohang untraced rt).2 := by
  unfold sysWait4
  split
  · exact .refl rt
  dsimp only
  split
  · split
    · exact GroupsOnly.of_sched rfl rfl rfl
    · exact ⟨rfl, fun _ => Intent.Kept.refl _, List.suffix_refl _, List.suffix_refl _, rfl, rfl⟩
  split
  · exact .refl rt
  split
  · exact .refl rt
  split
  · exact .refl rt
  rename_i hbegin
  unfold waitBegin at hbegin
  split at hbegin
  · injection hbegin with hbegin
    subst hbegin
    exact (modifyCtl_schedOnly s rt (f := fun c => { c with wait := .child pid untraced status })
      (Intent.Kept.refl _)).groupsOnly
  · cases hbegin

theorem step_regionsOk {rt' : Runtime C} {a : Action C} (h : RegionsOk rt)
    (hok : keepsRegions rt a) (hs : Step rt a rt') : RegionsOk rt' := by
  cases hs with
  | event s i => exact (coordinatorEvent_settled h i hok).regions
  | wait4 s pid status nohang untraced _ => exact h.groupsOnly (sysWait4_groupsOnly _ _ _ _ _ rt)
  | stopped s sig _ => exact h.groupsOnly (childEventPublish_groupsOnly _ _ rt)
  | write s c b p _ _ => exact ⟨h.ledger, fun t ht =>
      ⟨(h.vforked t ht).parent, (h.vforked t ht).pending⟩⟩
  | guest _ hg => exact hg.regionsOk h

/-! ## The accounting -/

/-- The live tasks whose address space names the region under its present generation. -/
def liveNaming (o : Own C) (r : Fin C.nreg) : Nat :=
  (Finset.univ.filter fun s => o.alive s = true ∧ mmRegion o s = some (refAt o.regions r)).card

/-- Every region count is its live users plus its lease, every lease is a current vfork child's
snapshot, and a region that is handed out has neither. -/
structure RegionsAccounted (o : Own C) : Prop where
  refs : ∀ r, (o.regions r).refs = liveNaming o r + LeaseTable.lease (o.regions r)
  leased : ∀ r owner, (o.regions r).leaseOwner = some owner →
    slotRefIsCurrent o owner = true ∧ o.snapshot owner.index = some (refAt o.regions r)
  free : ∀ r, firstFreeRegion o = some r →
    liveNaming o r = 0 ∧ LeaseTable.lease (o.regions r) = 0

theorem liveNaming_eq (o : Own C) (r : Fin C.nreg) :
    liveNaming o r = holders o.regionView.use (refAt o.regions r) := by
  unfold liveNaming
  congr 1
  ext s
  simp only [Finset.mem_filter, Finset.mem_univ, true_and]
  show _ ↔ (if o.alive s = true then mmRegion o s else none) = _
  split
  · rename_i halive
    simp [halive]
  · rename_i hdead
    simp [hdead]

theorem Ledger.accounted {o : Own C} (h : Ledger o.regionView) : RegionsAccounted o := by
  have hrefs : ∀ r, (o.regions r).refs = liveNaming o r + LeaseTable.lease (o.regions r) := by
    intro r
    have hcount := h.balanced.count r
    rw [liveNaming_eq]
    exact hcount
  refine ⟨hrefs, fun r owner howner => ?_, fun r hfree => ?_⟩
  · obtain ⟨hcur, hsnap⟩ := h.lease r owner howner
    refine ⟨?_, hsnap⟩
    have hgen : o.generation owner.index = owner.generation := congrArg SlotRef.generation hcur.1
    have halive : o.alive owner.index = true := hcur.2
    have hstarted : o.generation owner.index ≠ 0 := h.started owner.index
    simp only [slotRefIsCurrent, halive, hgen, beq_self_eq_true, Bool.and_true, bne_iff_ne]
    rw [← hgen]
    exact hstarted
  · have hzero : (o.regions r).refs = 0 := by
      have := List.find?_some hfree
      simp only [regionFree, Bool.and_eq_true, beq_iff_eq] at this
      exact this.1.2
    have hr := hrefs r
    omega

/-- In every run whose steps all keep track of the regions, the accounts hold in every state
between events. -/
theorem runsTo_regionsAccounted {rt : Runtime C} (h : RunsTo keepsRegions rt) :
    RegionsAccounted rt.own :=
  (h.invariant (fun _ _ _ => boot_ok) fun _ _ _ hinv hok hs =>
    step_regionsOk hinv hok hs).ledger.accounted

/-! ## A vfork child that outlives its parent -/

/-- The initial task vforks a child, which starts a thread and then vforks a child of its own. -/
def vforkFamily : List (Move smallConfig) :=
  [.ask 0 (.fork {} 0), .act (.event 0 {}),
   .ask 1 (.fork { vm := true, sighand := true, thread := true } 0), .act (.event 1 {}),
   .ask 1 (.fork {} 0), .act (.event 1 {})]

/-- The thread ends its group, the grandchild's vfork parent with it; then the grandchild exits. -/
def vforkOrphan : List (Move smallConfig) :=
  vforkFamily ++
    [.ask 2 (.exit true), .act (.event 2 {}), .act (.event 1 {}),
     .ask 3 (.exit false), .act (.event 3 {})]

/-- The grandchild exits first. -/
def vforkReturn : List (Move smallConfig) :=
  vforkFamily ++ [.ask 3 (.exit false), .act (.event 3 {})]

theorem vforkReturn_accounted : ∃ rt : Runtime smallConfig, playFromBoot vforkReturn = some rt ∧
    RunsTo keepsRegions rt ∧ RegionsAccounted rt.own := by
  have hruns : (playFromBoot vforkReturn).isSome = true ∧
      (boot smallConfig 0 {}).all (fun rt0 => decide (admitted keepsRegions vforkReturn rt0)) := by
    decide +kernel
  obtain ⟨rt, hrt⟩ := isSome_iff_exists.mp hruns.1
  have hreached : RunsTo keepsRegions rt := playFromBoot_runsTo hrt fun rt0 hboot => by
    have hall := hruns.2
    rw [hboot] at hall
    exact of_decide_eq_true hall
  exact ⟨rt, hrt, hreached, runsTo_regionsAccounted hreached⟩

/-- The region lent to the grandchild stays leased to an incarnation that is gone. -/
theorem vforkOrphan_leaks : ∃ rt : Runtime smallConfig,
    RunsTo (fun _ _ => True) rt ∧ ¬ RegionsAccounted rt.own := by
  have hleak : (playFromBoot vforkOrphan).any (fun rt =>
      (rt.own.regions 2).leaseOwner.any fun owner => !slotRefIsCurrent rt.own owner) = true := by
    decide +kernel
  obtain ⟨rt, hrt, hstale⟩ := (any_eq_true _ _).mp hleak
  obtain ⟨owner, howner, hnot⟩ := (any_eq_true _ _).mp hstale
  refine ⟨rt, playFromBoot_runsTo hrt
    (fun rt0 _ => admitted_of_forall (fun _ _ => trivial) _ _), ?_⟩
  intro haccounted
  have hcurrent := (haccounted.leased 2 owner howner).1
  rw [hcurrent] at hnot
  cases hnot

end Lxp
