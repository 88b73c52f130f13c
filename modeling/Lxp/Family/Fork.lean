import Lxp.Family.Exit

/-!
# Fork in the family

Until the commit the child's group reference is the transaction's and the parent's count is one too
high; an abort gives both back, a commit makes the child a member.
-/

open Function RefPool Bool

namespace Lxp

variable {C : Config}
variable {k0 : Kin C} {r : Option Errno × ForkTxn C × Runtime C} {log0 : Log}
variable {parent child : C.Slot}

/-! ## Counting -/

def Kin.count (k : Kin C) (p : C.Slot) : Kin C :=
  match k.group p with
  | none => k
  | some g => k.setGroup g { k.groups.val g with liveChildren := (k.groups.val g).liveChildren + 1 }

theorem countChild_kin (p : C.Slot) (o : Own C) : (countChild p o).kin = o.kin.count p := by
  unfold countChild
  show _ = match o.group p with | none => _ | some g => _
  cases o.group p <;> rfl

theorem Kin.count_group (k : Kin C) (p : C.Slot) : (k.count p).group = k.group := by
  unfold Kin.count
  split <;> rfl

variable {k : Kin C} {s p : C.Slot} {o : Own C} {flags : CloneFlags} {tx : ForkTxn C}
  {rt : Runtime C}

theorem KinAt.count {owed : List (Obj C)}
    (h : KinAt k0 s owed k) (hps : p ≠ s) : KinAt (k0.count p) s owed (k.count p) := by
  unfold Kin.count
  rw [h.group p hps]
  cases hp : k0.group p with
  | none => exact h
  | some g =>
    dsimp only
    rw [h.vals p g hp fun h => absurd h hps]
    exact h.set_both g _

/-- Taking the child off again leaves the record as it was. -/
theorem KinAt.uncount {owed : List (Obj C)} (h : KinAt (k0.count p) s owed o.kin) (hps : p ≠ s) :
    KinAt k0 s owed (uncountChild p o).kin := by
  have hgroup : o.group p = k0.group p := by
    rw [← Kin.count_group k0 p]
    exact h.group p hps
  unfold uncountChild
  rw [hgroup]
  unfold Kin.count at h
  cases hp : k0.group p with
  | none =>
    rw [hp] at h
    exact h
  | some g =>
    rw [hp] at h
    have hval : o.groups.val g =
        { k0.groups.val g with liveChildren := (k0.groups.val g).liveChildren + 1 } := by
      refine (h.vals p g hp fun h => absurd h hps).trans ?_
      exact update_self _ _ _
    have hback : (k0.setGroup g { k0.groups.val g with
        liveChildren := (k0.groups.val g).liveChildren + 1 }).setGroup g
          (k0.groups.val g) = k0 := by
      simp [Kin.setGroup, Pool.set]
    have hset := h.set_both g (k0.groups.val g)
    rw [hback] at hset
    have hkin : (modifyGroup g (fun x => { x with liveChildren := x.liveChildren - 1 }) o).kin =
        o.kin.setGroup g (k0.groups.val g) := by
      show o.kin.setGroup g { o.groups.val g with
        liveChildren := (o.groups.val g).liveChildren - 1 } = _
      rw [hval]
      rfl
    rw [hkin]
    exact hset

/-! ## The child's group -/

def bornGroup (k0 : Kin C) (g : Obj C) : Group :=
  { tgid := k0.nextPid, ppid := (k0.groups.val g).tgid, pgid := (k0.groups.val g).pgid }

/-- The group a child is given: the parent's for a thread, else a new one that names the
parent's. -/
structure Born (k0 : Kin C) (parent : C.Slot) (flags : CloneFlags) (g' : Obj C) (k : Kin C) :
    Prop where
  valid : flags.thread = true → flags.vm = true
  thread : flags.thread = true → k0.group parent = some g'
  child : flags.thread = false → (∀ t, k0.group t ≠ some g') ∧
    ∃ g, k0.group parent = some g ∧ k.groups.val g' = bornGroup k0 g

theorem procMmFork_kin (child parent : C.Slot) (flags : CloneFlags) (o : Own C) :
    (procMmFork child parent flags o).2.kin = o.kin := by
  unfold procMmFork
  split
  · rfl
  · dsimp only
    split <;> rfl

theorem procChildDiscard_kinAt
    (h : KinAt k0 s (o.group s).toList o.kin) : KinAt k0 s [] (procChildDiscard s o).kin := by
  have hres := (procMmPut_kin s (procResourcesPut s o)).trans (procResourcesPut_only s o).kin
  have hgroup : (procMmPut s (procResourcesPut s o)).group s = o.group s :=
    congrFun (congrArg Kin.group hres) s
  have hput : KinAt k0 s [] (procGroupPut s (procMmPut s (procResourcesPut s o))).kin := by
    refine procGroupPut_kinAt ?_
    rw [hgroup, hres]
    exact h
  exact hput.columns (fun _ ht => update_of_ne ht _ _) (fun _ ht => update_of_ne ht _ _) rfl rfl

/-- What building a child comes to: nothing is left of it, or it holds one reference to its
group. -/
structure ChildBuilt (k0 : Kin C) (child parent : C.Slot) (flags : CloneFlags)
    (r : Option Errno × Own C) : Prop where
  failed : r.1 ≠ none → KinAt k0 child [] r.2.kin ∧ r.2.group child = none
  built : r.1 = none → ∃ g', r.2.group child = some g' ∧ KinAt k0 child [g'] r.2.kin ∧
    Born k0 parent flags g' r.2.kin
  dead : r.2.alive child = false

theorem procGroupFork_built (h : KinAt k0 child [] o.kin)
    (hfree : k0.group child = none) (hdead : o.alive child = false) (hps : parent ≠ child)
    (hvalid : flags.thread = true → flags.vm = true) (hnone : o.group child = none) :
    ChildBuilt k0 child parent flags (procGroupFork child parent flags k0.nextPid o) := by
  have hown : ∀ g, k0.group child = some g → g ∈ ([] : List (Obj C)) := by
    intro g hg
    rw [hfree] at hg
    cases hg
  have hgroup : o.group parent = k0.group parent := h.group parent hps
  have hclear : update o.group child none = o.group := by rw [← hnone, update_eq_self]
  unfold procGroupFork
  rw [hgroup]
  cases hg : k0.group parent with
  | none => exact ⟨fun _ => ⟨h, hnone⟩, nofun, hdead⟩
  | some g =>
    have hval : o.groups.val g = k0.groups.val g := h.vals parent g hg fun h => absurd h hps
    have hstored : ∀ {i : Obj C} {q : Pool Group C.npool},
        KinAt k0 child [i] { o.kin with groups := q } →
        KinAt k0 child [i] { o.kin with groups := q, group := update o.group child (some i) } :=
      fun hi => hi.columns (fun _ _ => rfl) (fun _ ht => update_of_ne ht _ _) rfl rfl
    dsimp only
    rw [hclear]
    unfold shareOrNew
    cases hthread : flags.thread with
    | true =>
      rw [if_pos rfl]
      split
      · rename_i heq
        split at heq
        · exact ⟨fun _ => ⟨h, hnone⟩, (fun he => by cases heq; cases he), hdead⟩
        · cases heq
      rename_i heq
      split at heq
      · cases heq
      injection heq with heq
      injection heq with hi hq
      subst hi hq
      refine ⟨absurd rfl, fun _ => ⟨g, update_self _ _ _,
        hstored (h.get hown g), hvalid, fun _ => hg, fun hno => ?_⟩, hdead⟩
      rw [hthread] at hno
      cases hno
    | false =>
      simp only [false_eq_true, if_false]
      split
      · rename_i heq
        split at heq
        · exact ⟨fun _ => ⟨h, hnone⟩, (fun he => by cases heq; cases he), hdead⟩
        · cases heq
      rename_i i q heq
      split at heq
      · cases heq
      rename_i hnew
      injection heq with heq
      subst heq
      obtain ⟨hat, hfresh⟩ := h.new hown hnew
      refine ⟨absurd rfl, fun _ => ⟨i, update_self _ _ _, hstored hat,
        hvalid, fun hyes => ?_, fun _ => ⟨hfresh, g, hg, ?_⟩⟩, hdead⟩
      · rw [hthread] at hyes
        cases hyes
      · obtain ⟨_, rfl⟩ := Pool.new_eq hnew
        show update o.groups.val i _ i = _
        rw [update_self, hval]
        rfl

theorem procInitChild_built (h : KinAt k0 child [] o.kin) (hfree : k0.group child = none)
    (hps : parent ≠ child) (hvalid : flags.thread = true → flags.vm = true) :
    ChildBuilt k0 child parent flags (procInitChild child parent flags k0.nextPid o) := by
  have hdiscard : ∀ {o1 : Own C}, KinAt k0 child [] o1.kin → o1.group child = none → ∀ e : Errno,
      ChildBuilt k0 child parent flags (some e, procChildDiscard child o1) := by
    intro o1 h1 hnone e
    refine ⟨fun _ => ⟨procChildDiscard_kinAt (by rw [hnone]; exact h1), update_self _ _ _⟩,
      nofun, update_self _ _ _⟩
  have hcopy : KinAt k0 child [] (procChildCopyValues child parent k0.nextPid o).kin :=
    h.columns (fun _ ht => update_of_ne ht _ _) (fun _ ht => update_of_ne ht _ _) rfl rfl
  have hcols : (procChildCopyValues child parent k0.nextPid o).group child = none ∧
      (procChildCopyValues child parent k0.nextPid o).alive child = false :=
    ⟨update_self _ _ _, update_self _ _ _⟩
  unfold procInitChild
  dsimp only
  generalize procChildCopyValues child parent k0.nextPid o = o1 at hcopy hcols ⊢
  have hmm := procMmFork_kin child parent flags o1
  generalize procMmFork child parent flags o1 = r1 at hmm ⊢
  obtain ⟨e1, o2⟩ := r1
  have hres := (procResourcesFork_at child parent flags o2).only.kin.trans hmm
  cases e1 with
  | some e =>
    exact hdiscard (by rw [hmm]; exact hcopy)
      ((congrFun (congrArg Kin.group hmm) child).trans hcols.1) e
  | none =>
    dsimp only
    generalize procResourcesFork child parent flags o2 = r2 at hres ⊢
    obtain ⟨e2, o3⟩ := r2
    have hat3 : KinAt k0 child [] o3.kin := by
      rw [hres]
      exact hcopy
    have hnone3 : o3.group child = none := (congrFun (congrArg Kin.group hres) child).trans hcols.1
    have hdead3 : o3.alive child = false := (congrFun (congrArg Kin.alive hres) child).trans hcols.2
    cases e2 with
    | some e => exact hdiscard hat3 hnone3 e
    | none =>
      have hgroup := procGroupFork_built hat3 hfree hdead3 hps hvalid hnone3
      dsimp only
      generalize procGroupFork child parent flags k0.nextPid o3 = r3 at hgroup ⊢
      obtain ⟨_ | e, o4⟩ := r3
      · exact hgroup
      · obtain ⟨hat4, hnone4⟩ := hgroup.failed (by simp)
        exact hdiscard hat4 hnone4 e

/-! ## The transaction -/

def Kin.counting (k0 : Kin C) (tx : ForkTxn C) : Kin C :=
  if tx.childCounted then k0.count tx.parent else k0

/-- A fork transaction in progress: the child is dead and its group reference is the
transaction's. -/
structure ForkKin (k0 : Kin C) (log0 : Log) (flags : CloneFlags) (tx : ForkTxn C)
    (rt : Runtime C) : Prop where
  working : KinAt (k0.counting tx) tx.child (rt.own.group tx.child).toList rt.own.kin
  log : rt.log = log0
  dead : rt.own.alive tx.child = false
  free : k0.group tx.child = none
  parent : tx.parent ≠ tx.child
  bare : tx.childConstructed = false → rt.own.group tx.child = none
  born : tx.childConstructed = true → ∃ g', rt.own.group tx.child = some g' ∧
    Born k0 tx.parent flags g' rt.own.kin
  opened : tx.phase = .preparing ∨ tx.phase = .prepared

theorem ForkKin.same {rt' : Runtime C}
    (h : ForkKin k0 log0 flags tx rt) (hs : SameFamily rt rt') : ForkKin k0 log0 flags tx rt' := by
  have hgroup : rt'.own.group = rt.own.group := congrArg Kin.group hs.kin
  have halive : rt'.own.alive = rt.own.alive := congrArg Kin.alive hs.kin
  refine { h with
    working := ?_
    log := hs.log.trans h.log
    dead := by rw [halive]; exact h.dead
    bare := by rw [hgroup]; exact h.bare
    born := by rw [hgroup, hs.kin]; exact h.born }
  rw [hgroup, hs.kin]
  exact h.working

theorem uncountChild_group (p : C.Slot) (o : Own C) :
    (uncountChild p o).group = o.group ∧ (uncountChild p o).alive = o.alive := by
  unfold uncountChild
  split <;> exact ⟨rfl, rfl⟩

/-- Of what an abort releases, the lease and the region reference are not of the family. -/
theorem forkTxnRelease_eq (tx : ForkTxn C) (o : Own C) : ∃ o1 : Own C,
    o1.kin = (if tx.childCounted then uncountChild tx.parent o else o).kin ∧
      forkTxnRelease tx o = if tx.childConstructed then procChildDiscard tx.child o1 else o1 := by
  refine ⟨_, ?_, rfl⟩
  split
  · rw [regionPut_kin]
    split <;> rfl
  · split <;> rfl

/-- An abort gives the child's reference and the parent's count back. -/
theorem forkTxnRelease_kin
    (h : ForkKin k0 log0 flags tx rt) : KinAt k0 tx.child [] (forkTxnRelease tx rt.own).kin ∧
      (forkTxnRelease tx rt.own).group tx.child = none ∧
      (forkTxnRelease tx rt.own).alive tx.child = false := by
  obtain ⟨o1, hkin, heq⟩ := forkTxnRelease_eq tx rt.own
  have huncount : KinAt k0 tx.child (rt.own.group tx.child).toList o1.kin ∧
      o1.group = rt.own.group ∧ o1.alive = rt.own.alive := by
    have hgroup : o1.group = _ := congrArg Kin.group hkin
    have halive : o1.alive = _ := congrArg Kin.alive hkin
    have hat := h.working
    unfold Kin.counting at hat
    rw [hgroup, halive, hkin]
    split
    · rename_i hc
      rw [if_pos hc] at hat
      exact ⟨hat.uncount h.parent, uncountChild_group _ _⟩
    · rename_i hc
      rw [if_neg hc] at hat
      exact ⟨hat, rfl, rfl⟩
  obtain ⟨hat, hgroup, halive⟩ := huncount
  rw [← hgroup] at hat
  rw [heq]
  split
  · exact ⟨procChildDiscard_kinAt hat, update_self _ _ _, update_self _ _ _⟩
  rename_i hcon
  have hnone := h.bare (by simpa using hcon)
  rw [← hgroup] at hnone
  rw [hnone] at hat
  exact ⟨hat, hnone, (congrFun halive tx.child).trans h.dead⟩

/-- A failed fork leaves the family as it was. -/
theorem forkFail_run {admits : Group → Prop} {rt0 : Runtime C} (h0 : Family rt0.own.kin rt0.log)
    (h : ForkKin rt0.own.kin rt0.log flags tx rt)
    (e : Errno) : FamilyRun admits rt0 (forkFail tx e rt) := by
  obtain ⟨rt1, hs, rt2, hrt2, heq⟩ := forkTxnAbort_eq rt (h.opened.imp_right .inl)
  have hlog : rt2.log = rt.log := by
    rcases hrt2 with rfl | rfl <;> exact hs.family.log
  obtain ⟨hat, hnone, hdead⟩ := forkTxnRelease_kin h
  have hfree : rt0.own.kin.alive tx.child = false := by
    rw [h0.member, h.free]
    rfl
  have hback : KinAt rt0.own.kin tx.child (rt0.own.kin.group tx.child).toList
      (forkTxnRelease tx rt.own).kin := by
    rw [h.free]
    exact hat
  obtain ⟨hsteady, hvals⟩ := hback.back (hdead.trans hfree.symm) (hnone.trans h.free.symm)
  have habort : FamilyRun admits rt0 (forkTxnAbort tx rt).2 := by
    refine .of_step ?_
    rw [heq]
    show FamilyStep admits rt0.own.kin rt0.log (forkTxnRelease tx rt.own).kin rt2.log
    rw [hlog, h.log]
    exact .steady hsteady fun t g ht => by rw [hvals t g ht]
  exact habort.trans (forkParentResumeError_schedOnly tx.parent e _).family.run

/-! ## The handler -/

/-- A prepared transaction, counted or not. -/
structure ForkReady (k0 : Kin C) (log0 : Log) (flags : CloneFlags) (tx : ForkTxn C)
    (rt : Runtime C) : Prop extends ForkKin k0 log0 flags tx rt where
  constructed : tx.childConstructed = true

theorem ForkReady.same {rt' : Runtime C}
    (h : ForkReady k0 log0 flags tx rt) (hs : SameFamily rt rt') :
    ForkReady k0 log0 flags tx rt' := ⟨h.toForkKin.same hs, h.constructed⟩

theorem initChild_kin (h : KinAt k0 child [] rt.own.kin) (hfree : k0.group child = none)
    (hdead : rt.own.alive child = false) (hnone : rt.own.group child = none) (hps : parent ≠ child)
    {r : Option Errno × Runtime C} (hr : initChild child parent flags k0.nextPid rt = r) :
    ChildBuilt k0 child parent flags (r.1, r.2.own) ∧ r.2.log = rt.log := by
  unfold initChild at hr
  split at hr
  · rename_i hvalid
    have hflags : flags.thread = true → flags.vm = true := by
      intro hthread
      simp only [initChildValid, cloneFlagsValid, and_eq_true, or_eq_true] at hvalid
      rcases hvalid.2.2 with hno | ⟨hvm, _⟩
      · rw [hthread] at hno
        cases hno
      · exact hvm
    have hbuilt := procInitChild_built h hfree hps hflags
    generalize procInitChild child parent flags k0.nextPid rt.own = q at hbuilt hr
    obtain ⟨_ | e, o⟩ := q
    · subst hr
      exact ⟨hbuilt, rfl⟩
    · subst hr
      exact ⟨hbuilt, rfl⟩
  · subst hr
    exact ⟨⟨fun _ => ⟨h, hnone⟩, nofun, hdead⟩, rfl⟩

theorem forkTxnPrepare_kin (h : Family rt.own.kin rt.log) (hdead : rt.own.alive child = false)
    (hps : parent ≠ child) (hr : forkTxnPrepare parent child flags rt.own.nextPid rt = r) :
    ForkKin rt.own.kin rt.log flags r.2.1 r.2.2 ∧
      (r.1 = none → r.2.1.childConstructed = true) ∧ r.2.1.parent = parent ∧
      r.2.1.childCounted = false := by
  have hfree : rt.own.kin.group child = none := by
    have := h.member child
    rw [show rt.own.kin.alive child = false from hdead] at this
    exact Option.isNone_iff_eq_none.mp (by simpa using this.symm)
  have hopen : KinAt rt.own.kin child [] rt.own.kin := by
    have := KinAt.opened h.counted child
    rw [hfree] at this
    exact this
  unfold forkTxnPrepare forkTxnBegin at hr
  dsimp only at hr
  split at hr
  · subst hr
    refine ⟨⟨?_, rfl, hdead, hfree, hps, fun _ => hfree, nofun, .inl rfl⟩,
      nofun, rfl, rfl⟩
    show KinAt rt.own.kin child (rt.own.kin.group child).toList rt.own.kin
    rw [hfree]
    exact hopen
  rename_i o hget
  have hkin : o.kin = rt.own.kin := by
    obtain ⟨_, -, -, -, rfl⟩ := regionGet_eq hget
    rfl
  have hgroup : o.group child = none := (congrFun (congrArg Kin.group hkin) child).trans hfree
  have halive : o.alive child = false := (congrFun (congrArg Kin.alive hkin) child).trans hdead
  generalize hinit : initChild child parent flags rt.own.nextPid _ = q at hr
  have hat : KinAt rt.own.kin child [] o.kin := by
    rw [hkin]
    exact hopen
  obtain ⟨⟨hfailed, hborn, hdead1⟩, hlog⟩ := initChild_kin hat hfree halive hgroup hps hinit
  obtain ⟨_ | e, rt1⟩ := q
  · dsimp only at hr
    obtain ⟨g', hg', hat, hb⟩ := hborn rfl
    have hready : ∀ phase, phase = .preparing ∨ phase = .prepared → ForkKin rt.own.kin rt.log flags
          { phase := phase
            parent := parent
            child := child
            parentRef := slotRefAt rt.own parent
            childRef := slotRefAt (deferredSlotReassign child rt).own child
            parentRegion := mmRegion rt.own parent
            regionAcquired := true
            childConstructed := true
            mapsTouched := true } rt1 := by
      intro phase hphase
      refine ⟨?_, hlog, hdead1, hfree, hps, nofun, fun _ => ⟨g', hg', hb⟩, hphase⟩
      rw [hg']
      exact hat
    have hmaps := (restoreMmMaps_schedOnly (slotSignalClone child parent rt1)
      (childMaps rt1.own child)).family
    have hclone : SameFamily rt1 (slotSignalClone child parent rt1) := ⟨rfl, rfl⟩
    generalize restoreMmMaps (childMaps rt1.own child) (slotSignalClone child parent rt1) = q
      at hmaps hr
    obtain ⟨_ | _, rt2⟩ := q
    · subst hr
      exact ⟨(hready _ (.inl rfl)).same (hclone.trans hmaps), nofun, rfl, rfl⟩
    · subst hr
      exact ⟨(hready _ (.inr rfl)).same (hclone.trans hmaps), fun _ => rfl, rfl, rfl⟩
  · subst hr
    obtain ⟨hat, hnone⟩ := hfailed (by simp)
    refine ⟨⟨?_, hlog, hdead1, hfree, hps, fun _ => hnone, nofun, .inl rfl⟩,
      nofun, rfl, rfl⟩
    rw [hnone]
    exact hat

theorem Kin.count_val {g : Obj C} (hp : k.group p = some g) (i : Obj C) :
    (k.count p).groups.val i = oneMore g i (k.groups.val i) := by
  unfold Kin.count
  rw [hp]
  rw [Kin.setGroup_val, onGroup, oneMore]
  split
  · rename_i hi
    rw [hi]
  · rfl

theorem ForkReady.count (h : ForkReady k0 log0 flags tx rt) (hno : tx.childCounted = false) :
    ForkReady k0 log0 flags { tx with childCounted := true }
      { rt with own := countChild tx.parent rt.own } := by
  have hkin := countChild_kin tx.parent rt.own
  have hgroup : (countChild tx.parent rt.own).group = rt.own.group :=
    (congrArg Kin.group hkin).trans (Kin.count_group _ _)
  have halive : (countChild tx.parent rt.own).alive = rt.own.alive := by
    unfold countChild
    split <;> rfl
  have hat := h.working
  unfold Kin.counting at hat
  rw [hno] at hat
  have hparent : rt.own.kin.group tx.parent = k0.group tx.parent := hat.group _ h.parent
  refine ⟨⟨?_, h.log, ?_, h.free, h.parent, ?_, fun hc => ?_, h.opened⟩, h.constructed⟩
  · rw [hgroup, hkin]
    exact hat.count h.parent
  · rw [halive]
    exact h.dead
  · rw [hgroup]
    exact h.bare
  obtain ⟨g', hg', hborn⟩ := h.born hc
  refine ⟨g', by rw [← hg']; exact congrFun hgroup _, hborn.valid, hborn.thread, fun hthread => ?_⟩
  obtain ⟨hfresh, g, hg, hval⟩ := hborn.child hthread
  refine ⟨hfresh, g, hg, ?_⟩
  have hne : g' ≠ g := by
    rintro rfl
    exact hfresh _ hg
  rw [hkin, Kin.count_val (hparent.trans hg), oneMore, if_neg hne]
  exact hval

def Kin.enrol (k : Kin C) (c : C.Slot) : Kin C :=
  { k with alive := update k.alive c true, nextPid := k.nextPid + 1 }

theorem KinAt.joined {k1 : Kin C} {c : C.Slot} {g' : Obj C} (h : KinAt k1 c [g'] k)
    (hfree : k1.group c = none) (hg : k.group c = some g') :
    Joins k1 c g' unchanged (k.enrol c) := by
  have hgroup : k.group = update k1.group c (some g') := by
    funext t
    by_cases htc : t = c
    · rw [htc, hg, update_self]
    · rw [update_of_ne htc]
      exact h.group t htc
  refine ⟨hfree, ?_, hgroup, congrArg (· + 1) h.nextPid, ?_, fun t i ht =>
    h.vals t i ht fun htc => ?_⟩
  · show update k.alive c true = update k1.alive c true
    funext t
    by_cases htc : t = c
    · rw [htc, update_self, update_self]
    · rw [update_of_ne htc, update_of_ne htc]
      exact h.alive t htc
  · have hstored := h.counted.store (update_self _ _ _)
    rw [update_idem, ← hgroup] at hstored
    exact hstored
  · rw [htc, hfree] at ht
    cases ht

theorem Joins.of_count {k' : Kin C} {c : C.Slot} {g g' : Obj C}
    (h : Joins (k0.count p) c g' unchanged k') (hp : k0.group p = some g) :
    Joins k0 c g' (oneMore g) k' := by
  have hcount : k0.count p = k0.setGroup g
      { k0.groups.val g with liveChildren := (k0.groups.val g).liveChildren + 1 } := by
    unfold Kin.count
    rw [hp]
  have hvals := h.vals
  rw [hcount] at h
  refine { h with vals := fun t i ht => ?_ }
  rw [hvals t i (by rw [Kin.count_group]; exact ht)]
  exact Kin.count_val hp i

/-- The parent's group has room for one more child. -/
def hasRoom (k : Kin C) (p : C.Slot) : Prop :=
  ∀ g, k.group p = some g →
    (k.groups.val g).children.length + (k.groups.val g).liveChildren < C.maxChild

theorem forkPublishCommit_kin (admits : Group → Prop) (h : ForkReady k0 log0 flags tx rt)
    (hroom : flags.thread = false → hasRoom k0 tx.parent) (hcount : tx.childCounted = !flags.thread)
    (hr : forkPublishCommit tx rt = r) :
    (r.1 = none → FamilyStep admits k0 log0 r.2.2.own.kin r.2.2.log) ∧
      (r.1 ≠ none → ForkKin k0 log0 flags r.2.1 r.2.2) := by
  rcases forkPublishCommit_cases tx rt with hrefused | ⟨-, hdone⟩
  · subst hr
    rw [hrefused]
    exact ⟨nofun, fun _ => h.toForkKin⟩
  subst hr
  rw [hdone]
  refine ⟨fun _ => ?_, absurd rfl⟩
  obtain ⟨g', hg', hborn⟩ := h.born h.constructed
  have hat := h.working
  rw [hg'] at hat
  unfold Kin.counting at hat
  show FamilyStep admits k0 log0 (rt.own.kin.enrol tx.child)
    (countedLog { tx with phase := .published }
      { rt.own with alive := update rt.own.alive tx.child true } rt.log)
  rw [h.log]
  unfold countedLog
  cases hthread : flags.thread with
  | true =>
    rw [hcount, hthread] at hat ⊢
    exact .thread (hborn.thread hthread) (hat.joined h.free hg')
  | false =>
    obtain ⟨_, g, hg, hval⟩ := hborn.child hthread
    rw [hcount, hthread] at hat ⊢
    have hlog : groupOf { rt.own with alive := update rt.own.alive tx.child true } tx.child =
        some (bornGroup k0 g) := by
      unfold groupOf
      rw [hg']
      exact congrArg some hval
    have hjoin := hat.joined ((congrFun (Kin.count_group k0 tx.parent) _).trans h.free) hg'
    rw [hlog]
    exact .child hg (hroom hthread g hg) (hjoin.of_count hg) hval

section Handler

variable {admits : Group → Prop} {rt0 : Runtime C}

theorem forkTxnCountChild_kin (h : ForkReady k0 log0 flags tx rt) (hno : tx.childCounted = false)
    (hr : forkTxnCountChild tx rt = r) :
    ForkReady k0 log0 flags r.2.1 r.2.2 ∧ r.2.1.parent = tx.parent ∧
      (r.1 = none → r.2.1.childCounted = true) := by
  subst hr
  rcases forkTxnCountChild_cases tx rt with hcount | hcount <;> rw [hcount]
  · exact ⟨h, rfl, nofun⟩
  · exact ⟨h.count hno, rfl, fun _ => rfl⟩

theorem cloneShared_run (h0 : Family rt0.own.kin rt0.log)
    (h : ForkReady rt0.own.kin rt0.log flags tx rt) (hno : tx.childCounted = false)
    (hroom : flags.thread = false → hasRoom rt0.own.kin tx.parent) (childStack childPid : Nat) :
    FamilyRun admits rt0 (cloneShared tx flags childStack childPid rt) := by
  have hcounted : ∀ {r : Option Errno × ForkTxn C × Runtime C},
      (if flags.thread then (none, tx, rt) else forkTxnCountChild tx rt) = r →
      ForkReady rt0.own.kin rt0.log flags r.2.1 r.2.2 ∧ r.2.1.parent = tx.parent ∧
        (r.1 = none → r.2.1.childCounted = !flags.thread) := by
    intro r hr
    split at hr
    · rename_i hthread
      subst hr
      exact ⟨h, rfl, fun _ => by rw [hno, hthread]; rfl⟩
    · rename_i hthread
      obtain ⟨h1, hp, hc⟩ := forkTxnCountChild_kin h hno hr
      exact ⟨h1, hp, fun he => by rw [hc he]; simp [hthread]⟩
  unfold cloneShared
  generalize hq : (if flags.thread then (none, tx, rt) else forkTxnCountChild tx rt) = q
  obtain ⟨h1, hparent, hcount⟩ := hcounted hq
  obtain ⟨_ | e, tx1, rt1⟩ := q
  · dsimp only
    have hstack : SameFamily rt1 (resumeCloneForFork tx1 childStack rt1).2 := by
      unfold resumeCloneForFork
      split <;> exact ⟨rfl, rfl⟩
    generalize resumeCloneForFork tx1 childStack rt1 = q at hstack ⊢
    obtain ⟨_ | e, rt2⟩ := q
    · dsimp only
      generalize hcommit : forkPublishCommit tx1 rt2 = q
      obtain ⟨hok, hfail⟩ := forkPublishCommit_kin admits (h1.same hstack)
        (by rw [hparent]; exact hroom) (hcount rfl) hcommit
      obtain ⟨_ | e, tx2, rt3⟩ := q
      · dsimp only
        have hdone := (FamilyRun.of_step (hok rfl)).trans ((parkSlot_schedOnly tx2.parent rt3).trans
            (completeSlot_schedOnly _ tx2.parentRef childPid)).family.run
        split
        · exact hdone.trans (resumeSlot_schedOnly tx2.child _ 0).family.run
        · exact hdone
      · exact forkFail_run h0 (hfail (by simp)) e
    · exact forkFail_run h0 (h1.same hstack).toForkKin e
  · exact forkFail_run h0 h1.toForkKin e

theorem forkTxnSnapshot_family (tx : ForkTxn C) (sp : Nat) (rt : Runtime C) :
    SameFamily rt (forkTxnSnapshot tx sp rt).2 := by
  unfold forkTxnSnapshot
  split
  · exact .refl rt
  split
  · exact ⟨rfl, rfl⟩
  rename_i ref rt1 hsnap
  obtain ⟨m, p, o, -, -, -, -, hreserve, rfl⟩ := vforkSnapshot_eq hsnap
  have hkin := regionReserve_kin hreserve
  exact ⟨hkin, rfl⟩

theorem forkVfork_run (h0 : Family rt0.own.kin rt0.log)
    (h : ForkReady rt0.own.kin rt0.log flags tx rt) (hno : tx.childCounted = false)
    (hthread : flags.thread = false) (hroom : hasRoom rt0.own.kin tx.parent) :
    FamilyRun admits rt0 (forkVfork tx rt) := by
  unfold forkVfork
  generalize hq : forkTxnCountChild tx rt = q
  obtain ⟨h1, hparent, hcount⟩ := forkTxnCountChild_kin h hno hq
  obtain ⟨_ | e, tx1, rt1⟩ := q
  · dsimp only
    have hlink :
        SameFamily rt1 (setVforkParent tx1.child (some (slotRefAt rt1.own tx1.parent)) rt1) :=
      ⟨rfl, rfl⟩
    generalize setVforkParent tx1.child (some (slotRefAt rt1.own tx1.parent)) rt1 = rt2 at hlink ⊢
    have h2 := h1.same hlink
    split
    · exact forkFail_run h0 h2.toForkKin _
    have hsnap := forkTxnSnapshot_family tx1 (rt2.sched.resumeSp tx1.parent) rt2
    generalize forkTxnSnapshot tx1 (rt2.sched.resumeSp tx1.parent) rt2 = q at hsnap ⊢
    obtain ⟨_ | e, rt3⟩ := q
    · dsimp only
      generalize hcommit : forkPublishCommit tx1 rt3 = q
      obtain ⟨hok, hfail⟩ := forkPublishCommit_kin admits (h2.same hsnap)
        (fun _ => by rw [hparent]; exact hroom) (by rw [hcount rfl, hthread]; rfl) hcommit
      obtain ⟨_ | e, tx2, rt4⟩ := q
      · dsimp only
        have hdone := (FamilyRun.of_step (hok rfl)).trans
          (parkSlot_schedOnly tx2.parent rt4).family.run
        split
        · exact hdone.trans (resumeSlot_schedOnly tx2.child _ 0).family.run
        · exact hdone
      · exact forkFail_run h0 (hfail (by simp)) e
    · exact forkFail_run h0 (h2.same hsnap).toForkKin e
  · exact forkFail_run h0 h1.toForkKin e

theorem hasRoom_of_capacity (h : forkCapacityAvailable o s = true) : hasRoom o.kin s := by
  intro g hg
  unfold forkCapacityAvailable groupOf at h
  rw [show o.group s = some g from hg] at h
  simp only [Option.map_some, and_eq_true, decide_eq_true_eq] at h
  show (o.groups.val g).children.length + (o.groups.val g).liveChildren < C.maxChild
  omega

theorem handleFork_run (h : Family rt.own.kin rt.log) (halive : rt.own.alive parent = true)
    (flags : CloneFlags) (childStack : Nat) :
    FamilyRun admits rt (handleFork parent flags childStack rt) := by
  have hclear : SameFamily rt (intentClear parent rt) := ⟨rfl, rfl⟩
  refine hclear.run.trans ?_
  have hfamily : Family (intentClear parent rt).own.kin (intentClear parent rt).log := h
  have hparent : (intentClear parent rt).own.alive parent = true := halive
  unfold handleFork
  dsimp only
  generalize intentClear parent rt = rt0 at hfamily hparent ⊢
  split
  · exact (forkParentResumeError_schedOnly parent _ rt0).family.run
  rename_i hcap
  split
  · exact (forkParentResumeError_schedOnly parent _ rt0).family.run
  rename_i child hchild
  have hdead : rt0.own.alive child = false := by simpa using List.find?_some hchild
  have hps : parent ≠ child := by
    rintro rfl
    rw [hparent] at hdead
    cases hdead
  have hroom : flags.thread = false → hasRoom rt0.own.kin parent := by
    intro hthread
    exact hasRoom_of_capacity (by simpa [hthread] using hcap)
  generalize hprep : forkTxnPrepare parent child flags rt0.own.nextPid rt0 = q
  obtain ⟨h1, hcon, htxp, hno⟩ := forkTxnPrepare_kin hfamily hdead hps hprep
  obtain ⟨_ | e, tx1, rt1⟩ := q
  · dsimp only
    have hready : ForkReady rt0.own.kin rt0.log flags tx1 rt1 := ⟨h1, hcon rfl⟩
    split
    · exact cloneShared_run hfamily hready hno (by rw [htxp]; exact hroom) _ _
    rename_i hvm
    obtain ⟨g', _, hborn⟩ := h1.born (hcon rfl)
    have hthread : flags.thread = false := by
      cases ht : flags.thread with
      | false => rfl
      | true => exact absurd (hborn.valid ht) hvm
    exact forkVfork_run hfamily hready hno hthread (by rw [htxp]; exact hroom hthread)
  · exact forkFail_run hfamily h1 e

end Handler

end Lxp
