import Lxp.Vfork.Restore

/-!
# The vfork window

From a vfork to the exec or exit of its child the parent is suspended while the child, and any other
task of the address space, runs in the parent's region.  Over every run of such a window the
snapshot keeps the saved cells as they were at the fork, so the parent is resumed with those; a
write that another task made meanwhile is gone.
-/

open Function

namespace Lxp

variable {C : Config}

/-! ## The fork -/

variable {rt rt' rt0 : Runtime C} {child parent : SlotRef C} {ref p : RegionRef C} {tx : ForkTxn C}
  {e : Extent C}

theorem forkFail_dead (h : ForkHolds rt0 tx rt) (e : Errno) :
    (forkFail tx e rt).own.alive tx.child = false := by
  obtain ⟨_, hdead, _⟩ := forkTxnRelease_at h
  obtain ⟨-, -, rt2, -, habort⟩ := forkTxnAbort_eq rt (h.opened.imp_right .inl)
  unfold forkFail
  rw [(forkParentResumeError_schedOnly _ _ _).own, habort]
  exact hdead

/-- What a vfork that goes through leaves behind. -/
structure VforkOpened (rt : Runtime C) (par child : C.Slot) (e : Extent C) (p ref : RegionRef C)
    (rt' : Runtime C) : Prop where
  extent : extentOf rt.own par = some e
  region : e.region = some p
  sp : e.stackLo ≤ rt.sched.resumeSp par ∧ rt.sched.resumeSp par ≤ e.regionHi
  snapshot : rt'.own.snapshot child = some ref
  guard : rt'.own.guards child = ⟨some (slotRefAt rt.own par), some p, some ref⟩
  saved : ∀ c, savedCell e p.index (rt.sched.resumeSp par) c →
    rt'.ram.read ref.index c = rt.ram.read p.index c

theorem VforkOpened.schedOnly {rt1 rt2 : Runtime C} {par child : C.Slot}
    (h : VforkOpened rt par child e p ref rt1) (hs : SchedOnly rt1 rt2) :
    VforkOpened rt par child e p ref rt2 :=
  { h with
    snapshot := by rw [hs.own]; exact h.snapshot
    guard := by rw [hs.own]; exact h.guard
    saved := by rw [hs.ram]; exact h.saved }

theorem forkPublishCommit_child (tx : ForkTxn C) (rt : Runtime C) :
    (forkPublishCommit tx rt).2.1.child = tx.child := by
  rcases forkPublishCommit_cases tx rt with h | ⟨-, h⟩
  · rw [h]
  · rw [h]
    rfl

/-- Publishing the child touches neither its guard nor any memory. -/
theorem forkPublishCommit_published {tx' : ForkTxn C}
    (h : forkPublishCommit tx rt = (none, tx', rt')) :
    rt'.own.snapshot = rt.own.snapshot ∧ rt'.own.guards = rt.own.guards ∧ rt'.ram = rt.ram := by
  rcases forkPublishCommit_cases tx rt with hrefused | ⟨-, hdone⟩
  · rw [hrefused] at h
    cases h
  · rw [hdone] at h
    cases h
    exact ⟨rfl, rfl, rfl⟩

/-- A vfork whose child lives has taken the snapshot. -/
theorem forkVfork_opens (h0 : RegionsOk rt0)
    (h : ForkPrepared rt0 tx rt) (halive : (forkVfork tx rt).own.alive tx.child = true) :
    ∃ e p ref, VforkOpened rt tx.parent tx.child e p ref (forkVfork tx rt) := by
  have hdead : ∀ {tx' : ForkTxn C} {rt' : Runtime C} (e : Errno), ForkHolds rt0 tx' rt' →
      tx'.child = tx.child → (forkFail tx' e rt').own.alive tx.child ≠ true := by
    intro tx' rt' e hholds hchild
    rw [← hchild, forkFail_dead hholds e]
    simp
  unfold forkVfork at halive ⊢
  rcases forkTxnCountChild_cases tx rt with hcount | hcount
  · rw [hcount] at halive
    exact absurd halive (hdead _ h.toForkHolds rfl)
  rw [hcount] at halive ⊢
  dsimp only at halive ⊢
  have hcounted := h.count
  have honly := countChild_only tx.parent rt.own
  split at halive
  · exact absurd halive (hdead _ { hcounted with
      run := hcounted.run.setOwn (hcounted.run.own.setVforkParent _) } rfl)
  rename_i hcur
  rw [if_neg hcur]
  generalize hsnap : forkTxnSnapshot _ _ _ = r at halive ⊢
  obtain ⟨hholds, hpub⟩ := forkVfork_counted h0 hcounted hsnap
  obtain ⟨_ | e, rt1⟩ := r
  · obtain ⟨_, hfail⟩ := hpub rfl rfl
    dsimp only at halive ⊢
    have hchild := forkPublishCommit_child { tx with childCounted := true } rt1
    generalize hcommit : forkPublishCommit _ rt1 = q at hfail hchild halive ⊢
    obtain ⟨_ | e, tx2, rt2⟩ := q
    · obtain ⟨hsnapshot, hguards, hram⟩ := forkPublishCommit_published hcommit
      -- The snapshot of the parent as it was counted.
      unfold forkTxnSnapshot at hsnap
      split at hsnap
      · cases hsnap
      split at hsnap
      · cases hsnap
      rename_i ref rt3 hvs
      injection hsnap with _ hsnap
      subst hsnap
      obtain ⟨m, p, o', hm, hp, -, hsp, -, hrt3⟩ := vforkSnapshot_eq hvs
      have hidx : tx.childRef.index = tx.child := by rw [h.childRef]; rfl
      subst hrt3
      rw [honly] at hm hp hsp
      replace hm : rt.own.mm tx.parent = some m := hm
      obtain ⟨ext, hextent⟩ : ∃ ext, extentOf rt.own tx.parent = some ext :=
        ⟨_, congrArg (Option.map _) hm⟩
      have hext := extentOf_some hextent hm
      have hopened : VforkOpened rt tx.parent tx.child ext p ref rt2 := by
        refine ⟨hextent, ?_, by rw [hext]; exact hsp, ?_, ?_, fun c hc => ?_⟩
        · replace hp : mmRegion rt.own tx.parent = some p := hp
          rw [mmRegion, hm] at hp
          rw [hext]
          exact hp
        · rw [hsnapshot]
          exact update_self _ _ _
        · rw [hguards]
          show update o'.guards tx.childRef.index _ tx.child = _
          rw [hidx, update_self, honly]
          rfl
        rw [hram]
        show (snapshotRam tx.parent m p.index ref.index (rt.sched.resumeSp tx.parent) _
          rt.ram).read ref.index c = _
        rw [honly]
        exact snapshotRam_read hextent hm rt.ram hc
      refine ⟨ext, p, ref, ?_⟩
      dsimp only
      have hparked := hopened.schedOnly (parkSlot_schedOnly tx2.parent rt2)
      split
      · exact hparked.schedOnly (resumeSlot_schedOnly tx2.child _ 0)
      · exact hparked
    · exact absurd halive (hdead e (hfail (by simp)) hchild)
  · exact absurd halive (hdead e hholds rfl)

theorem forkTxnPrepare_kept (parent child : C.Slot) (flags : CloneFlags) (pid : Nat)
    (rt : Runtime C) : (forkTxnPrepare parent child flags pid rt).2.1.child = child ∧
      (forkTxnPrepare parent child flags pid rt).2.1.parent = parent ∧
      (forkTxnPrepare parent child flags pid rt).2.2.ram = rt.ram := by
  unfold forkTxnPrepare
  dsimp only
  split
  · exact ⟨rfl, rfl, rfl⟩
  rename_i o _
  have hinit : ∀ rt1 : Runtime C, (initChild child parent flags pid rt1).2.ram = rt1.ram := by
    intro rt1
    unfold initChild
    split
    · generalize procInitChild child parent flags pid rt1.own = q
      obtain ⟨_ | e, -⟩ := q <;> rfl
    · rfl
  have hram := hinit { (forkTxnBegin parent child rt).2 with own := o }
  generalize initChild child parent flags pid _ = q at hram ⊢
  obtain ⟨_ | e, rt1⟩ := q
  · dsimp only
    have hmaps := (restoreMmMaps_schedOnly (slotSignalClone child parent rt1)
      (childMaps rt1.own child)).ram.trans hram
    generalize restoreMmMaps _ _ = q at hmaps ⊢
    obtain ⟨_ | _, rt2⟩ := q <;> exact ⟨rfl, rfl, hmaps⟩
  · exact ⟨rfl, rfl, hram⟩

/-- A fork without a shared address space that brings its child to life is a vfork. -/
theorem handleFork_opens (h : RegionsOk rt) {parent child : C.Slot}
    (hself : rt.own.alive parent = true)
    (hparent : rt.own.alive parent = true → rt.own.vforkParent parent ≠ none →
      rt.own.snapshot parent ≠ none)
    {flags : CloneFlags} (hvm : flags.vm = false) (childStack : Nat)
    (hslot : firstDeadSlot rt.own = some child)
    (halive : (handleFork parent flags childStack rt).own.alive child = true) :
    ∃ e p ref, VforkOpened rt parent child e p ref (handleFork parent flags childStack rt) := by
  have h0 := h.intentClear hparent
  have hdead : rt.own.alive child = false := by
    have := List.find?_some hslot
    simpa using this
  have hne : parent ≠ child := by
    intro heq
    rw [heq, hdead] at hself
    cases hself
  have hstart : (intentClear parent rt).own = rt.own ∧ (intentClear parent rt).ram = rt.ram ∧
      (intentClear parent rt).sched.resumeSp = rt.sched.resumeSp := ⟨rfl, rfl, rfl⟩
  unfold handleFork at halive ⊢
  dsimp only at halive
  generalize intentClear parent rt = rt1 at h0 hstart halive ⊢
  obtain ⟨hown1, hram1, hsp1⟩ := hstart
  split at halive
  · rw [(forkParentResumeError_schedOnly parent .eagain rt1).own, hown1, hdead] at halive
    cases halive
  rename_i hcap
  rw [if_neg hcap]
  have hslot1 : firstDeadSlot rt1.own = some child := by rw [hown1]; exact hslot
  rw [hslot1] at halive ⊢
  dsimp only at halive ⊢
  obtain ⟨hholds, hprep⟩ := forkTxnPrepare_holds h0 (hown1.symm ▸ hdead)
    rfl
  obtain ⟨hchild, hpar, hram⟩ := forkTxnPrepare_kept parent child flags rt1.own.nextPid rt1
  generalize forkTxnPrepare parent child flags rt1.own.nextPid rt1 = r
    at hholds hprep hchild hpar hram halive ⊢
  obtain ⟨_ | err, tx, rt2⟩ := r
  · have htx := hprep rfl
    rw [hvm] at halive ⊢
    rw [← hchild] at halive
    obtain ⟨e, p, ref, hopened⟩ := forkVfork_opens h0 htx halive
    rw [hchild, hpar] at hopened
    -- The parent is a bystander of the preparation.
    have hrun := htx.run
    rw [hchild] at hrun
    have hspace : rt2.own.space parent = rt.own.space parent := by
      rw [hrun.own.space parent hne, hown1]
    have hself : slotRefAt rt2.own parent = slotRefAt rt.own parent :=
      congrArg (SlotRef.mk parent) (congrArg (fun q => q.2.2.1) hspace)
    have hsp : rt2.sched.resumeSp parent = rt.sched.resumeSp parent := by
      rw [hrun.resumeSp parent hne, hsp1]
    refine ⟨e, p, ref, ?_, hopened.region, ?_, hopened.snapshot, ?_, ?_⟩
    · rw [← extentOf_of_space hspace]
      exact hopened.extent
    · rw [← hsp]
      exact hopened.sp
    · rw [← hself]
      exact hopened.guard
    · rw [← hsp, ← hram1, ← hram]
      exact hopened.saved
  · rw [← hchild, forkFail_dead hholds err] at halive
    cases halive

/-! ## The window -/

/-- Child and parent live on, and the child has neither exec'd nor exited. -/
def vforkTied (o : Own C) (child parent : SlotRef C) : Bool :=
  slotRefIsCurrent o child && slotRefIsCurrent o parent && o.vforkParent child.index == some parent

/-- The event in which `parent`, whose address space has extent `e` in region `p`, vforks
`child`. -/
structure Vforks (rt : Runtime C) (i : EventInput) (child parent : SlotRef C) (e : Extent C)
    (p : RegionRef C) : Prop where
  current : slotRefAt rt.own parent.index = parent
  extent : extentOf rt.own parent.index = some e
  region : e.region = some p
  fork : ∃ flags childStack, claimedEvent parent.index rt = .fork flags childStack ∧
    flags.vm = false
  slot : firstDeadSlot rt.own = some child.index
  tied : vforkTied (coordinatorEvent parent.index i rt).own child parent = true

/-- The regions are accounted for, and the port stops whom the exec of a vfork child stops. -/
def keepsWindow (rt : Runtime C) : Action C → Prop
  | .event s i => keepsRegions rt (.event s i) ∧
      (claimedEvent s rt = .exec → rt.own.vforkParent s ≠ none → false ∉ i.port.abort)
  | _ => True

/-- The last byte that a task other than the child and its parent has stored in each cell. -/
def noteWrite (child parent : SlotRef C) (rt : Runtime C) (w : Cell → Option UInt8) :
    Action C → Cell → Option UInt8
  | .write s c b =>
    if s ≠ child.index ∧ s ≠ parent.index ∧ mmRegion rt.own s = mmRegion rt.own parent.index then
      update w c (some b)
    else w
  | _ => w

/-- The states a run reaches in the window of a vfork event in `rt0`, with the writes of others. -/
inductive Window (ok : Runtime C → Action C → Prop) (child parent : SlotRef C) (e : Extent C)
    (p : RegionRef C) (rt0 : Runtime C) : Runtime C → (Cell → Option UInt8) → Prop where
  | fork {i : EventInput} : RunsTo ok rt0 → ok rt0 (.event parent.index i) →
      Vforks rt0 i child parent e p →
      Window ok child parent e p rt0 (coordinatorEvent parent.index i rt0) fun _ => none
  | step {rt rt' : Runtime C} {w : Cell → Option UInt8} {a : Action C} :
      Window ok child parent e p rt0 rt w → ok rt a → Step rt a rt' →
      vforkTied rt'.own child parent = true →
      Window ok child parent e p rt0 rt' (noteWrite child parent rt w a)

/-! ## What holds in the window -/

structure Lent (rt0 : Runtime C) (child parent : SlotRef C) (e : Extent C) (p ref : RegionRef C)
    (rt : Runtime C) : Prop where
  regions : RegionsOk rt
  lends : Lends rt.own child parent p ref e
  apart : child.index ≠ parent.index
  sp : rt.sched.resumeSp parent.index = rt0.sched.resumeSp parent.index
  intent : (rt.sched.ctl parent.index).intent = .none ∨
    (rt.sched.ctl parent.index).intent.isExit = true
  saved : ∀ c, savedCell e p.index (rt0.sched.resumeSp parent.index) c →
    rt.ram.read ref.index c = rt0.ram.read p.index c
  inStack : e.stackLo ≤ rt0.sched.resumeSp parent.index ∧
    rt0.sched.resumeSp parent.index ≤ e.regionHi

theorem keepsWindow.regions {a : Action C} (h : keepsWindow rt a) : keepsRegions rt a := by
  cases a with
  | event s i => exact h.1
  | _ => exact trivial

theorem RunsTo.regionsOk (h : RunsTo keepsWindow rt) : RegionsOk rt :=
  h.invariant (fun _ _ _ => boot_ok) fun _ _ _ hinv hok hs => step_regionsOk hinv hok.regions hs

theorem slotRefIsCurrent_kept {o o' : Own C} {r : SlotRef C}
    (halive : o'.alive r.index = o.alive r.index) (hspace : o'.space r.index = o.space r.index) :
    slotRefIsCurrent o' r = slotRefIsCurrent o r := by
  have hgen : o'.generation r.index = o.generation r.index := congrArg (fun q => q.2.2.1) hspace
  rw [slotRefIsCurrent, slotRefIsCurrent, halive, hgen]

namespace Lent

variable {rt1 : Runtime C}

section

variable (h : Lent rt0 child parent e p ref rt)
include h

/-- What is kept of child and parent keeps the window. -/
theorem of_kept (hown : rt1.own = rt.own)
    (hram : rt1.ram = rt.ram) (hchild : Kept rt1 child.index rt')
    (hparent : Kept rt parent.index rt')
    (hr : RegionsOk rt') : Lent rt0 child parent e p ref rt' := by
  obtain ⟨halive, hlink, hsnap, hspace, _, _, hsaved⟩ := hchild
  rw [hown] at halive hlink hsnap hspace hsaved
  rw [hram] at hsaved
  refine ⟨hr, ⟨?_, ?_, ?_, ?_, ?_, ?_, h.lends.region⟩, h.apart, ?_, ?_, fun c hc => ?_, h.inStack⟩
  · rw [slotRefIsCurrent_kept halive hspace]
    exact h.lends.childCurrent
  · rw [slotRefIsCurrent_kept hparent.alive hparent.space]
    exact h.lends.parentCurrent
  · rw [hlink]
    exact h.lends.link
  · rw [hsnap]
    exact h.lends.snapshot
  · rw [← h.lends.guard]
    exact congrArg (fun q => q.2.2.2) hspace
  · rw [extentOf_of_space hparent.space]
    exact h.lends.extent
  · rw [hparent.resumeSp]
    exact h.sp
  · rcases hparent.intent with heq | hexit
    · rw [heq]
      exact h.intent
    · exact .inr hexit
  · rw [← h.saved c hc]
    exact Ram.read_of_cells (hsaved ref h.lends.child_alive h.lends.snapshot) c

theorem groupsOnly (hg : GroupsOnly rt rt') : Lent rt0 child parent e p ref rt' :=
  h.of_kept rfl rfl (hg.kept _) (hg.kept _) (h.regions.groupsOnly hg)

theorem tied : vforkTied rt.own child parent = true := by
  simp [vforkTied, h.lends.childCurrent, h.lends.parentCurrent, h.lends.link]

theorem suspended : suspended rt.own parent.index = true := by
  refine List.any_eq_true.mpr ⟨child.index, List.mem_finRange _, ?_⟩
  simp [h.lends.child_alive, h.lends.link, h.lends.parent_at]

theorem bounds :
    e.stackLo ≤ rt.sched.resumeSp parent.index ∧ rt.sched.resumeSp parent.index ≤ e.regionHi := by
  rw [h.sp]
  exact h.inStack

/-- A restore of what the window holds gives the parent its memory as it was at the fork. -/
theorem restored (hr : Restores e p.index ref.index (rt.sched.resumeSp parent.index) rt.ram rt'.ram)
    {c : Cell} (hc : savedCell e p.index (rt0.sched.resumeSp parent.index) c) :
    rt'.ram.read p.index c = rt0.ram.read p.index c := by
  rw [← h.saved c hc]
  refine hr.saved c ?_
  rw [h.sp]
  exact hc

theorem write {s : C.Slot} {q : RegionRef C}
    (hs : rt.own.alive s = true) (hq : mmRegion rt.own s = some q) (c : Cell) (b : UInt8) :
    Lent rt0 child parent e p ref { rt with ram := rt.ram.write q.index b c } := by
  have hne := h.lends.ne_used h.regions.ledger hs hq
  refine { h with regions := ?_, saved := fun c' hc' => ?_ }
  · exact ⟨h.regions.ledger,
      fun t ht => ⟨(h.regions.vforked t ht).parent, (h.regions.vforked t ht).pending⟩⟩
  · rw [← h.saved c' hc']
    exact Ram.read_of_cells (Ram.write_cells rt.ram b c hne) c'

/-- Guest activity neither moves an address space nor wakes the parent. -/
theorem guest (hg : GuestFrame rt rt') : Lent rt0 child parent e p ref rt' := by
  have hl := h.lends
  obtain ⟨hintent, hsp⟩ := hg.suspended _ h.suspended
  have hextent : extentOf rt'.own parent.index = extentOf rt.own parent.index := by
    unfold extentOf
    rw [show rt'.own.mm parent.index = rt.own.mm parent.index by rw [hg.own],
      show rt'.own.stackLo parent.index = rt.own.stackLo parent.index by rw [hg.own]]
    cases rt.own.mm parent.index with
    | none => rfl
    | some m => simp only [Option.map_some, hg.layout m]
  refine ⟨hg.regionsOk h.regions, ⟨?_, ?_, ?_, ?_, ?_, hextent.trans hl.extent, hl.region⟩, h.apart,
    hsp.trans h.sp, ?_, fun c hc => ?_, h.inStack⟩
  · rw [hg.own]
    exact hl.childCurrent
  · rw [hg.own]
    exact hl.parentCurrent
  · rw [hg.own]
    exact hl.link
  · rw [hg.own]
    exact hl.snapshot
  · rw [hg.own]
    exact hl.guard
  · rcases hintent with heq | hexit
    · rw [heq]
      exact h.intent
    · exact .inr hexit
  · rw [hg.ram]
    exact h.saved c hc

end

end Lent

/-! ## Events in the window -/

namespace Lent

variable (h : Lent rt0 child parent e p ref rt) (i : EventInput)
include h

theorem eventStart (s : C.Slot) : Lent rt0 child parent e p ref (eventStart s i rt) :=
  h.of_kept rfl rfl (eventStart_kept s _ i rt) (eventStart_kept s _ i rt)
    (eventStart_ok h.regions s i)

theorem event_other {s : C.Slot} (hchild : child.index ≠ s) (hparent : parent.index ≠ s)
    (hok : keepsRegions rt (.event s i)) :
    Lent rt0 child parent e p ref (coordinatorEvent s i rt) := by
  have hsettled := coordinatorEvent_settled h.regions i hok
  exact h.of_kept rfl rfl (hsettled.kept _ ⟨hchild, h.lends.child_alive⟩)
    (hsettled.kept _ ⟨hparent, h.lends.parent_alive⟩) hsettled.regions

/-- The suspended parent can do nothing but exit. -/
theorem event_parent (hok : keepsRegions rt (.event parent.index i))
    (hcur : slotRefIsCurrent (coordinatorEvent parent.index i rt).own parent = true) :
    Lent rt0 child parent e p ref (coordinatorEvent parent.index i rt) := by
  cases hq : (claimedEvent parent.index rt).quiet with
  | true => exact (h.eventStart i parent.index).groupsOnly (coordinatorEvent_quiet i hq)
  | false =>
    cases he : claimedEvent parent.index rt with
    | fork flags childStack =>
      have hintent := h.intent
      rw [(claimedEvent_intent _ rt).2 _ _ he] at hintent
      rcases hintent with hnone | hexit <;> contradiction
    | exec =>
      have hintent := h.intent
      rw [(claimedEvent_intent _ rt).1 he] at hintent
      rcases hintent with hnone | hexit <;> contradiction
    | exit group =>
      rcases (coordinatorEvent_exit h.regions i he hok).2.2 with honly | hdead
      · exact (h.eventStart i parent.index).groupsOnly honly
      · rw [(slotRefIsCurrent_iff.mp hcur).2.2] at hdead
        cases hdead
    | _ => rw [he] at hq; cases hq

/-- The child is done: it no longer holds its parent, whose memory is back. -/
def Returned (child parent : SlotRef C) (e : Extent C) (p ref : RegionRef C) (rt rt' : Runtime C) :
    Prop :=
  vforkTied rt'.own child parent = false ∧
    Restores e p.index ref.index (rt.sched.resumeSp parent.index) rt.ram rt'.ram

theorem event_exec (he : claimedEvent child.index rt = .exec)
    (hok : keepsWindow rt (.event child.index i)) :
    Lent rt0 child parent e p ref (coordinatorEvent child.index i rt) ∨
      Returned child parent e p ref rt (coordinatorEvent child.index i rt) := by
  have hl := h.lends
  have hstart := h.eventStart i child.index
  have hintent := congrArg Intent.isExit ((claimedEvent_intent _ rt).1 he)
  obtain ⟨hev, _⟩ := coordinatorEvent_exec h.regions i he hok.1
  have hcases := handleExec_cases hstart.regions hl.child_alive
    (hstart.regions.pair hintent hl.child_alive) i.load
  rw [← hev] at hcases
  rcases hcases with hopen | ⟨rt1, rt2, tx, ref', hopen, htx, hslot, heq, hsnap⟩
  · exact .inl (h.of_kept hopen.own hopen.ram ((GroupsOnly.refl _).kept _)
      ((eventStart_kept _ _ i rt).trans (hopen.kept _ h.apart.symm)) hopen.regions)
  obtain ⟨rfl, hparent, rfl⟩ := hsnap ref hl.snapshot
  have hport : ∀ b ∈ rt2.sched.port.abort, b = true := fun b hb =>
    all_true_of_not_mem (hok.2 he (by rw [hl.link]; simp)) b (hopen.abort.subset hb)
  have hdone := (execReserved_ok hopen.regions htx i.load (.inr hport)).unlinked hport
  have hlends : Lends rt2.own child parent p ref' e := by
    rw [hopen.own]
    exact hl
  have hback := execReserved_restores hopen.regions htx hslot (hparent.trans hl.link) hlends
    hopen.regions.ledger (by rw [hopen.sp]; exact h.bounds) i.load
  rw [hopen.sp, hopen.ram] at hback
  rw [heq]
  refine .inr ⟨?_, hback⟩
  rw [hslot] at hdone
  rcases hdone with hdead | hunlinked
  · simp [vforkTied, slotRefIsCurrent, hdead]
  · simp [vforkTied, hunlinked]

theorem event_exit {group : Bool} (he : claimedEvent child.index rt = .exit group)
    (hok : keepsRegions rt (.event child.index i)) :
    Lent rt0 child parent e p ref (coordinatorEvent child.index i rt) ∨
      Returned child parent e p ref rt (coordinatorEvent child.index i rt) := by
  have hstart := h.eventStart i child.index
  obtain ⟨hev, _⟩ := coordinatorEvent_exit h.regions i he hok
  rw [hev]
  rcases handleExit_cases child.index group (Lxp.eventStart child.index i rt) with
    honly | ⟨rt1, honly, heq⟩
  · exact .inl (hstart.groupsOnly honly)
  have hlent := hstart.groupsOnly honly
  obtain ⟨_, hdead⟩ := exitEnd_ok hlent.regions hlent.lends.child_alive (fun _ => by
    rw [hlent.lends.link]
    exact hlent.lends.parentCurrent)
  have hback := exitEnd_restores hlent.lends hlent.regions.ledger hlent.bounds
  rw [honly.ram, honly.resumeSp] at hback
  rw [heq]
  refine .inr ⟨?_, hback⟩
  simp [vforkTied, slotRefIsCurrent, hdead]

/-- Of its own events only an exec that commits and an exit that goes through end the child's
hold. -/
theorem event_child (hok : keepsWindow rt (.event child.index i)) :
    Lent rt0 child parent e p ref (coordinatorEvent child.index i rt) ∨
      Returned child parent e p ref rt (coordinatorEvent child.index i rt) := by
  cases hq : (claimedEvent child.index rt).quiet with
  | true => exact .inl ((h.eventStart i child.index).groupsOnly (coordinatorEvent_quiet i hq))
  | false =>
    cases he : claimedEvent child.index rt with
    | fork flags childStack =>
      obtain ⟨_, hforked⟩ := coordinatorEvent_fork h.regions i he
      have hsettled := coordinatorEvent_settled h.regions i hok.1
      have hown : (intentClear child.index (Lxp.eventStart child.index i rt)).own = rt.own := rfl
      exact .inl (h.of_kept hown rfl (hforked.kept _ h.lends.child_alive)
        (hsettled.kept _ ⟨h.apart.symm, h.lends.parent_alive⟩) hsettled.regions)
    | exec => exact h.event_exec i he hok
    | exit group => exact h.event_exit i he hok.1
    | _ => rw [he] at hq; cases hq

end Lent

/-- A step keeps the window, or is the one in which the child gives its parent back. -/
theorem Lent.step {a : Action C} (h : Lent rt0 child parent e p ref rt)
    (hok : keepsWindow rt a) (hs : Step rt a rt') (hcur : slotRefIsCurrent rt'.own parent = true) :
    Lent rt0 child parent e p ref rt' ∨ Lent.Returned child parent e p ref rt rt' := by
  cases hs with
  | event s i =>
    by_cases hchild : child.index = s
    · subst hchild
      exact h.event_child i hok
    · by_cases hparent : parent.index = s
      · subst hparent
        exact .inl (h.event_parent i hok.1 hcur)
      · exact .inl (h.event_other i hchild hparent hok.1)
  | wait4 s pid status nohang untraced _ =>
    exact .inl (h.groupsOnly (sysWait4_groupsOnly _ _ _ _ _ rt))
  | stopped s sig _ => exact .inl (h.groupsOnly (childEventPublish_groupsOnly _ _ rt))
  | write s c b q hs hq => exact .inl (h.write hs hq c b)
  | guest _ hg => exact .inl (h.guest hg)

/-- A vfork opens its window. -/
theorem Vforks.lent {i : EventInput} (h : RegionsOk rt) (hv : Vforks rt i child parent e p) :
    ∃ ref, Lent rt child parent e p ref (coordinatorEvent parent.index i rt) := by
  obtain ⟨flags, childStack, he, hvm⟩ := hv.fork
  have hself : rt.own.alive parent.index = true := claimedEvent_alive (by rw [he]; simp)
  have hintent := congrArg Intent.isExit ((claimedEvent_intent _ rt).2 _ _ he)
  have htied := hv.tied
  simp only [vforkTied, Bool.and_eq_true, beq_iff_eq] at htied
  obtain ⟨⟨hchild, hparent⟩, hlink⟩ := htied
  obtain ⟨hev, hsettled⟩ := coordinatorEvent_fork h i he
  have hkept := hsettled.kept _ hself
  have hborn := (slotRefIsCurrent_iff.mp hchild).2.2
  rw [hev] at hborn
  obtain ⟨e', p', ref, hopened⟩ := handleFork_opens (eventStart_ok h parent.index i) hself
    ((eventStart_ok h parent.index i).pair hintent) hvm childStack hv.slot hborn
  rw [← hev] at hopened
  obtain rfl : e' = e := Option.some.inj (hopened.extent.symm.trans hv.extent)
  obtain rfl : p' = p := Option.some.inj (hopened.region.symm.trans hv.region)
  refine ⟨ref, hsettled.regions, ⟨hchild, hparent, hlink, hopened.snapshot, ?_, ?_, hv.region⟩,
    fun heq => ?_, hkept.resumeSp, ?_, hopened.saved, hopened.sp⟩
  · rw [hopened.guard]
    exact congrArg (VforkGuard.mk · _ _) (congrArg some hv.current)
  · rw [extentOf_of_space hkept.space]
    exact hv.extent
  · have hdead := List.find?_some hv.slot
    rw [heq] at hdead
    simp [hself] at hdead
  · rcases hkept.intent with heq | hexit
    · exact .inl (heq.trans (by simp [intentClear, modifyCtl]))
    · exact .inr hexit

theorem Window.lent {w : Cell → Option UInt8} (h : Window keepsWindow child parent e p rt0 rt w) :
    ∃ ref, Lent rt0 child parent e p ref rt := by
  induction h with
  | fork hrun _ hv => exact hv.lent hrun.regionsOk
  | step _ hok hs htied ih =>
    obtain ⟨ref, hlent⟩ := ih
    have hcur := htied
    simp only [vforkTied, Bool.and_eq_true] at hcur
    rcases hlent.step hok hs hcur.1.2 with hkept | ⟨hgone, _⟩
    · exact ⟨ref, hkept⟩
    · rw [htied] at hgone
      cases hgone

/-- When the child has given its parent back, the parent's saved memory is as it was at the fork
with the last writes of others kept exactly when none of those writes left a value other than the
one at the fork. -/
theorem window_return_iff {rt0 rt rt' : Runtime C} {child parent : SlotRef C} {e : Extent C}
    {p : RegionRef C} {w : Cell → Option UInt8} {a : Action C}
    (h : Window keepsWindow child parent e p rt0 rt w) (hok : keepsWindow rt a)
    (hs : Step rt a rt') (hcur : slotRefIsCurrent rt'.own parent = true)
    (hgone : vforkTied rt'.own child parent = false) :
    (∀ c, savedCell e p.index (rt0.sched.resumeSp parent.index) c →
      rt'.ram.read p.index c = (w c).getD (rt0.ram.read p.index c)) ↔
    ∀ c b, savedCell e p.index (rt0.sched.resumeSp parent.index) c → w c = some b →
      b = rt0.ram.read p.index c := by
  obtain ⟨ref, hlent⟩ := h.lent
  rcases hlent.step hok hs hcur with hkept | ⟨_, hback⟩
  · rw [hkept.tied] at hgone
    cases hgone
  refine ⟨fun hall c b hc hb => ?_, fun hall c hc => ?_⟩
  · have hread := hall c hc
    rw [hlent.restored hback hc, hb] at hread
    exact hread.symm
  · rw [hlent.restored hback hc]
    cases hw : w c with
    | none => rfl
    | some b => exact (hall c b hc hw).symm

/-! ## A thread that writes in the window -/

instance (rt : Runtime C) : (a : Action C) → Decidable (keepsWindow rt a)
  | .event _ _ => inferInstanceAs (Decidable (_ ∧ _))
  | .wait4 .. | .stopped .. | .write .. | .guest => isTrue trivial

/-- The initial task starts a thread and asks for a vfork. -/
def sharedVfork : List (Move smallConfig) :=
  [.ask 0 (.fork { vm := true, sighand := true, thread := true } 0), .act (.event 0 {}),
   .ask 0 (.fork {} 0)]

def sharedParent : SlotRef smallConfig := ⟨0, 1⟩

def sharedChild : SlotRef smallConfig := ⟨2, 2⟩

def sharedRegion : RegionRef smallConfig := ⟨0, 1⟩

def sharedExtent : Extent smallConfig := ⟨some sharedRegion, 8192, false, 0⟩

def sharedFork (rt0 : Runtime smallConfig) : Runtime smallConfig :=
  coordinatorEvent sharedParent.index {} rt0

def sharedWrite (rt0 : Runtime smallConfig) : Runtime smallConfig :=
  { sharedFork rt0 with ram := (sharedFork rt0).ram.write sharedRegion.index 7 (.image 0) }

def sharedAsk (rt0 : Runtime smallConfig) : Runtime smallConfig :=
  guestAsk 2 (.exit false) (sharedWrite rt0)

def sharedExit (rt0 : Runtime smallConfig) : Runtime smallConfig :=
  coordinatorEvent 2 {} (sharedAsk rt0)

/-- The run from the vfork to the return; thread and child share the parent's region. -/
structure SharedRun (rt0 : Runtime smallConfig) : Prop where
  runs : RunsTo keepsWindow rt0
  forks : Vforks rt0 {} sharedChild sharedParent sharedExtent sharedRegion ∧
    keepsWindow rt0 (.event 0 {})
  shares : ∀ s ∈ [(0 : Fin smallConfig.nslot), 1, 2], (sharedFork rt0).own.alive s = true ∧
    mmRegion (sharedFork rt0).own s = some sharedRegion
  tied : vforkTied (sharedAsk rt0).own sharedChild sharedParent = true
  exits : keepsWindow (sharedAsk rt0) (.event 2 {}) ∧
    slotRefIsCurrent (sharedExit rt0).own sharedParent = true ∧
    vforkTied (sharedExit rt0).own sharedChild sharedParent = false
  saved : savedCell sharedExtent sharedRegion.index (rt0.sched.resumeSp 0) (.image 0)
  reverted : (sharedExit rt0).ram.read sharedRegion.index (.image 0) = 0

theorem sharedVfork_runs : ∃ rt0 : Runtime smallConfig, SharedRun rt0 := by
  have hruns : (playFromBoot sharedVfork).any (fun rt0 => decide (
        (slotRefAt rt0.own 0 = sharedParent ∧ extentOf rt0.own 0 = some sharedExtent ∧
          claimedEvent 0 rt0 = .fork {} 0 ∧ firstDeadSlot rt0.own = some 2 ∧
          vforkTied (sharedFork rt0).own sharedChild sharedParent = true) ∧
        keepsWindow rt0 (.event 0 {}) ∧
        (∀ s ∈ [(0 : Fin smallConfig.nslot), 1, 2], (sharedFork rt0).own.alive s = true ∧
          mmRegion (sharedFork rt0).own s = some sharedRegion) ∧
        vforkTied (sharedAsk rt0).own sharedChild sharedParent = true ∧
        (keepsWindow (sharedAsk rt0) (.event 2 {}) ∧
          slotRefIsCurrent (sharedExit rt0).own sharedParent = true ∧
          vforkTied (sharedExit rt0).own sharedChild sharedParent = false) ∧
        savedCell sharedExtent sharedRegion.index (rt0.sched.resumeSp 0) (.image 0) ∧
        (sharedExit rt0).ram.read sharedRegion.index (.image 0) = 0)) = true ∧
      (boot smallConfig 0 {}).all (fun rt0 => decide (admitted keepsWindow sharedVfork rt0)) := by
    decide +kernel
  obtain ⟨rt0, hrt0, hfacts⟩ := (Option.any_eq_true _ _).mp hruns.1
  obtain ⟨⟨hself, hextent, hfork, hslot, htied⟩, hok, hshares, hasked, hexits, hsaved, hreverted⟩ :=
    of_decide_eq_true hfacts
  refine ⟨rt0, playFromBoot_runsTo hrt0 fun rt hboot => ?_,
    ⟨⟨hself, hextent, rfl, ⟨_, _, hfork, rfl⟩,
    hslot, htied⟩, hok⟩, hshares, hasked, hexits, hsaved, hreverted⟩
  have hall := hruns.2
  rw [hboot] at hall
  exact of_decide_eq_true hall

/-- Whichever task stores the byte, the run stays in the window up to the child's exit. -/
theorem SharedRun.window {rt0 : Runtime smallConfig} (h : SharedRun rt0) {s : Fin smallConfig.nslot}
    (hs : s ∈ [(0 : Fin smallConfig.nslot), 1, 2]) :
    Window keepsWindow sharedChild sharedParent sharedExtent sharedRegion rt0 (sharedAsk rt0)
      (noteWrite sharedChild sharedParent (sharedFork rt0) (fun _ => none)
        (.write s (.image 0) 7)) := by
  obtain ⟨halive, hregion⟩ := h.shares s hs
  have hwrite : Step (sharedFork rt0) (.write s (.image 0) 7) (sharedWrite rt0) :=
    Step.write (sharedFork rt0) s (.image 0) 7 sharedRegion halive hregion
  have hask : Step (sharedWrite rt0) .guest (sharedAsk rt0) :=
    Step.guest _ _ (guestAsk_frame 2 (.exit false) _)
  have hopen : Window keepsWindow sharedChild sharedParent sharedExtent sharedRegion rt0
      (sharedFork rt0) fun _ => none := Window.fork h.runs h.forks.2 h.forks.1
  have htied : vforkTied (sharedWrite rt0).own sharedChild sharedParent = true := h.forks.1.tied
  have hwritten := hopen.step (a := .write s (.image 0) 7) trivial hwrite htied
  exact hwritten.step (a := .guest) trivial hask h.tied

/-- A run in which only the child writes: its parent gets the old bytes back. -/
theorem sharedVfork_returns : ∃ rt0 : Runtime smallConfig, SharedRun rt0 ∧
    ∀ c, savedCell sharedExtent sharedRegion.index (rt0.sched.resumeSp 0) c →
      (sharedExit rt0).ram.read sharedRegion.index c = rt0.ram.read sharedRegion.index c := by
  obtain ⟨rt0, h⟩ := sharedVfork_runs
  have hreturn := window_return_iff (h.window (s := 2) (by decide)) h.exits.1
    (Step.event _ 2 {}) h.exits.2.1 h.exits.2.2
  refine ⟨rt0, h, fun c hc => hreturn.mpr (fun c b _ hb => ?_) c hc⟩
  cases hb

/-- The byte that the thread stored while its process was suspended in a vfork is lost. -/
theorem threadWrite_lost : ∃ (rt0 rt rt' : Runtime smallConfig) (w : Cell → Option UInt8)
    (a : Action smallConfig),
    Window keepsWindow sharedChild sharedParent sharedExtent sharedRegion rt0 rt w ∧
    keepsWindow rt a ∧ Step rt a rt' ∧ slotRefIsCurrent rt'.own sharedParent = true ∧
    vforkTied rt'.own sharedChild sharedParent = false ∧
    ¬ ∀ c, savedCell sharedExtent sharedRegion.index (rt0.sched.resumeSp sharedParent.index) c →
      rt'.ram.read sharedRegion.index c = (w c).getD (rt0.ram.read sharedRegion.index c) := by
  obtain ⟨rt0, h⟩ := sharedVfork_runs
  refine ⟨rt0, sharedAsk rt0, sharedExit rt0, _, .event 2 {}, h.window (s := 1) (by decide),
    h.exits.1, Step.event _ 2 {}, h.exits.2.1, h.exits.2.2, fun hall => ?_⟩
  have hread := hall (.image 0) h.saved
  have hnoted : noteWrite sharedChild sharedParent (sharedFork rt0) (fun _ => none)
      (.write 1 (.image 0) 7) (.image 0) = some 7 := by
    have hregion : mmRegion (sharedFork rt0).own 1 =
        mmRegion (sharedFork rt0).own sharedParent.index :=
      (h.shares 1 (by decide)).2.trans (h.shares 0 (by decide)).2.symm
    rw [noteWrite, if_pos ⟨by decide, by decide, hregion⟩, update_self]
  rw [h.reverted, hnoted] at hread
  simp at hread

end Lxp
