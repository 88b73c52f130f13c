import Lxp.Clone.Child
import Lxp.Region.Fork

/-!
# Aborting a fork

An attempt to make a child can end at any point before its commit.  The abort then gives back the
count with the parent, the snapshot lease, the region reference and the child's objects, so that
every count is what it was before the call.
-/

open Function LeaseTable RefPool Option Bool

namespace Lxp

variable {C : Config}
variable {ref : Option (RegionRef C)}
variable {t : Table (SlotRef C) C.nreg} {r : Option Errno}

/-! ## What is built stays with the child -/

def record (o : Own C) (s : C.Slot) :=
  (o.alive s, o.mm s, o.files s, o.fsContext s, o.sighand s, o.group s)

def OthersKept (child : C.Slot) (o o' : Own C) : Prop :=
  ∀ s, s ≠ child → record o' s = record o s

namespace OthersKept

variable {child : C.Slot} {o o' o'' : Own C}

theorem trans (h : OthersKept child o o') (h' : OthersKept child o' o'') : OthersKept child o o'' :=
  fun s hs => (h' s hs).trans (h s hs)

theorem refl (child : C.Slot) (o : Own C) : OthersKept child o o := fun _ _ => rfl

theorem of_at (h : ResourcesAt child o o') : OthersKept child o o' := by
  intro s hs
  have halive : o'.alive s = o.alive s := by rw [h.only]
  have hmm : o'.mm s = o.mm s := by rw [h.only]
  have hgroup : o'.group s = o.group s := by rw [h.only]
  have hpointers := h.others s hs
  simp only [Prod.mk.injEq] at hpointers
  simp only [record, halive, hmm, hgroup, hpointers]

end OthersKept

def ChildOnly (child : C.Slot) (o o' : Own C) : Prop :=
  OthersKept child o o' ∧ o'.regions = o.regions ∧ o'.snapshot = o.snapshot

theorem ChildOnly.trans {child : C.Slot} {o o' o'' : Own C} (h : ChildOnly child o o')
    (h' : ChildOnly child o' o'') : ChildOnly child o o'' :=
  ⟨h.1.trans h'.1, h'.2.1.trans h.2.1, h'.2.2.trans h.2.2⟩

theorem ChildOnly.of_at {child : C.Slot} {o o' : Own C} (h : ResourcesAt child o o') :
    ChildOnly child o o' := ⟨.of_at h, by rw [h.only], by rw [h.only]⟩

section Build

variable {child parent : C.Slot} {flags : CloneFlags} {childPid : Nat}

theorem procChildReset_others (child : C.Slot) (o : Own C) :
    OthersKept child o (procChildReset child o) := fun s hs => by
  simp only [record, procChildReset, update_of_ne hs]

section

variable (child parent : C.Slot) (flags : CloneFlags)

theorem procMmFork_child (o : Own C) : ChildOnly child o (procMmFork child parent flags o).2 := by
  have hset : ∀ mms i, OthersKept child o { o with mms := mms, mm := update o.mm child i } :=
    fun _ _ _ hs => by simp only [record, update_of_ne hs]
  unfold procMmFork
  split
  · exact ⟨OthersKept.refl child o, rfl, rfl⟩
  dsimp only
  split
  · exact ⟨hset _ _, rfl, rfl⟩
  · rename_i mms _
    rw [update_idem]
    exact ⟨hset mms _, rfl, rfl⟩

theorem procGroupFork_child (childPid : Nat) (o : Own C) :
    ChildOnly child o (procGroupFork child parent flags childPid o).2 := by
  have hset : ∀ groups i, OthersKept child o
      { o with groups := groups, group := update o.group child i } :=
    fun _ _ _ hs => by simp only [record, update_of_ne hs]
  unfold procGroupFork
  split
  · exact ⟨OthersKept.refl child o, rfl, rfl⟩
  dsimp only
  split
  · exact ⟨hset _ _, rfl, rfl⟩
  · rename_i groups _
    rw [update_idem]
    exact ⟨hset groups _, rfl, rfl⟩

/-- The child under construction has no snapshot, and no region changes hands. -/
theorem procBuildChild_others (childPid : Nat)
    (o : Own C) : OthersKept child o (procBuildChild child parent flags childPid o).2 ∧
      (procBuildChild child parent flags childPid o).2.regions = o.regions ∧
      (procBuildChild child parent flags childPid o).2.snapshot child = none := by
  have hcopy : OthersKept child o (procChildCopyValues child parent childPid o) := by
    refine (procChildReset_others child o).trans ?_
    exact fun _ _ => rfl
  have hsnap : (procChildCopyValues child parent childPid o).snapshot child = none :=
    update_self _ _ _
  have hregions : (procChildCopyValues child parent childPid o).regions = o.regions := rfl
  unfold procBuildChild
  dsimp only
  generalize procChildCopyValues child parent childPid o = o1 at hcopy hsnap hregions ⊢
  have hbuilt : ∀ {o'}, ChildOnly child o1 o' →
      OthersKept child o o' ∧ o'.regions = o.regions ∧ o'.snapshot child = none :=
    fun h => ⟨hcopy.trans h.1, h.2.1.trans hregions, (congrFun h.2.2 child).trans hsnap⟩
  have hmm := procMmFork_child child parent flags o1
  generalize procMmFork child parent flags o1 = q at hmm ⊢
  obtain ⟨_ | e, o2⟩ := q
  · dsimp only
    have hres := ChildOnly.of_at (procResourcesFork_at child parent flags o2)
    generalize procResourcesFork child parent flags o2 = q at hres ⊢
    obtain ⟨_ | e, o3⟩ := q
    · exact hbuilt ((hmm.trans hres).trans (procGroupFork_child child parent flags childPid o3))
    · exact hbuilt (hmm.trans hres)
  · exact hbuilt hmm

end

theorem procMmPut_child (child : C.Slot) (o : Own C) : ChildOnly child o (procMmPut child o) := by
  unfold procMmPut
  cases o.mm child <;>
    exact ⟨fun _ hs => by simp only [record, mmPut, update_of_ne hs], rfl, rfl⟩

theorem procGroupPut_child (child : C.Slot) (o : Own C) :
    ChildOnly child o (procGroupPut child o) := by
  unfold procGroupPut
  cases o.group child <;>
    exact ⟨fun _ hs => by simp only [record, groupPut, update_of_ne hs], rfl, rfl⟩

theorem procChildDiscard_others (child : C.Slot) (o : Own C) :
    OthersKept child o (procChildDiscard child o) ∧
      (procChildDiscard child o).regions = o.regions := by
  have hput :=
    ((ChildOnly.of_at (procResourcesPut_at child o)).trans (procMmPut_child child _)).trans
    (procGroupPut_child child _)
  exact ⟨hput.1.trans (procChildReset_others child _), hput.2.1⟩

end Build

/-! ## What an abort has to restore -/

/-- The counts and leases of the regions, whose generations may have advanced. -/
def RegionsKept (o o' : Own C) : Prop :=
  ∀ r, (o'.regions r).refs = (o.regions r).refs ∧
    (o'.regions r).leaseOwner = (o.regions r).leaseOwner

theorem RegionsKept.of_eq {o o' : Own C} (h : o'.regions = o.regions) : RegionsKept o o' := by
  intro r
  rw [h]
  exact ⟨rfl, rfl⟩

/-- The counts and objects of all pools, the counts and leases of all regions, and the slots. -/
structure ForkUndone (o o' : Own C) : Prop where
  objects : ObjectsKept o o'
  regions : RegionsKept o o'
  alive : o'.alive = o.alive
  mm : o'.mm = o.mm
  files : o'.files = o.files
  fsContext : o'.fsContext = o.fsContext
  sighand : o'.sighand = o.sighand
  group : o'.group = o.group

/-- What a slot's record names and the pools it names them in. -/
structure SameObjects (s : C.Slot) (o o' : Own C) : Prop extends SameResources s o o' where
  mm : o'.mm s = o.mm s
  mms : o'.mms = o.mms
  group : o'.group s = o.group s
  groups : o'.groups = o.groups

theorem procChildDiscard_congr {s : C.Slot} {o o' : Own C} (h : SameObjects s o o') :
    objectPools (procChildDiscard s o') = objectPools (procChildDiscard s o) := by
  rw [procChildDiscard_pools, procChildDiscard_pools,
    procResourcesPut_congr h.toSameResources, h.mm,
    h.group]
  cases o.mm s <;> cases o.group s <;> simp only [mmPut, groupPut, h.mms, h.groups]

section Undone

variable {child : C.Slot} {o x : Own C}

theorem slotVacant_record (h : slotVacant o child = true) :
    record o child = (false, none, none, none, none, none) := by
  simp only [slotVacant, and_eq_true, not_eq_true', isNone_iff_eq_none] at h
  obtain ⟨⟨⟨⟨⟨h1, h2⟩, h3⟩, h4⟩, h5⟩, h6⟩ := h
  simp only [record, h1, h2, h3, h4, h5, h6]

theorem procChildDiscard_vacant (child : C.Slot) (o : Own C) :
    slotVacant (procChildDiscard child o) child = true := by
  simp only [slotVacant, procChildDiscard, procChildReset, update_self]
  rfl

/-- Between two states in which the slot is vacant only the pools are left to compare. -/
theorem forkUndone_iff (hv : slotVacant o child = true) (hx : slotVacant x child = true)
    (h : OthersKept child o x) (hregions : RegionsKept o x) : ForkUndone o x ↔ ObjectsKept o x := by
  have hrecord : ∀ s, record x s = record o s := by
    intro s
    by_cases hs : s = child
    · rw [hs, slotVacant_record hv, slotVacant_record hx]
    · exact h s hs
  simp only [record, Prod.mk.injEq, forall_and] at hrecord
  obtain ⟨h1, h2, h3, h4, h5, h6⟩ := hrecord
  exact ⟨fun hu => hu.objects, fun hk => ⟨hk, hregions, funext h1, funext h2, funext h3, funext h4,
    funext h5, funext h6⟩⟩

end Undone

/-! ## The points of an attempt -/

section Points

variable (parent child : C.Slot) (flags : CloneFlags) (childPid : Nat) (rt : Runtime C)

/-- Every point at which an attempt can end before its commit: what the transaction owns by then,
and the runtime.  What follows the preparation need not come in the order of the handler. -/
inductive ForkReaches : ForkTxn C → Runtime C → Prop where
  | begun {tx rt1} : forkTxnBegin parent child rt = (tx, rt1) → ForkReaches tx rt1
  | acquired {tx rt1 o} : forkTxnBegin parent child rt = (tx, rt1) →
      regionGet tx.parentRegion rt1.own = some o →
      ForkReaches { tx with regionAcquired := true } { rt1 with own := o }
  | refused {tx rt1 o e rt2} : forkTxnBegin parent child rt = (tx, rt1) →
      regionGet tx.parentRegion rt1.own = some o →
      initChild child parent flags childPid { rt1 with own := o } = (some e, rt2) →
      ForkReaches { tx with regionAcquired := true } rt2
  | constructed {tx rt1 o rt2} : forkTxnBegin parent child rt = (tx, rt1) →
      regionGet tx.parentRegion rt1.own = some o →
      initChild child parent flags childPid { rt1 with own := o } = (none, rt2) →
      ForkReaches { tx with regionAcquired := true, childConstructed := true } rt2
  | mapped {tx rt1 ok rt2} : ForkReaches tx rt1 → tx.childConstructed = true →
      restoreMmMaps (childMaps rt1.own child) (slotSignalClone child parent rt1) = (ok, rt2) →
      ForkReaches { tx with mapsTouched := true } rt2
  | prepared {tx rt1} : ForkReaches tx rt1 → tx.childConstructed = true →
      tx.phase = .preparing → ForkReaches { tx with phase := .prepared } rt1
  | counted {tx tx' rt1 rt2} : ForkReaches tx rt1 →
      forkTxnCountChild tx rt1 = (none, tx', rt2) → ForkReaches tx' rt2
  | tied {tx rt1} (ref : SlotRef C) : ForkReaches tx rt1 → tx.phase = .prepared →
      ForkReaches tx (setVforkParent tx.child (some ref) rt1)
  | framed {tx rt1 sp r rt2} : ForkReaches tx rt1 →
      resumeCloneForFork tx sp rt1 = (r, rt2) → ForkReaches tx rt2
  | snapshot {tx rt1 sp r rt2} : ForkReaches tx rt1 → rt1.own.snapshot tx.child = none →
      forkTxnSnapshot tx sp rt1 = (r, rt2) → ForkReaches tx rt2
  | published {tx tx' rt1 rt2} : ForkReaches tx rt1 →
      forkTxnPublish tx rt1 = (none, tx', rt2) → ForkReaches tx' rt2

end Points

/-! ## After the construction -/

/-- What has happened to the objects since the child was built. -/
structure SinceBuilt (b : Own C) (tx : ForkTxn C) (o : Own C) : Prop where
  alive : ∀ s, s ≠ tx.child → o.alive s = b.alive s
  mm : o.mm = b.mm
  files : o.files = b.files
  fsContext : o.fsContext = b.fsContext
  sighand : o.sighand = b.sighand
  group : o.group = b.group
  mms : o.mms = b.mms
  filess : o.filess = b.filess
  fsContexts : o.fsContexts = b.fsContexts
  sighands : o.sighands = b.sighands
  ofds : o.ofds = b.ofds
  groups : o.groups = if tx.childCounted then (countChild tx.parent b).groups else b.groups
  regions : match o.snapshot tx.child with
    | none => o.regions = b.regions
    | some ref => (b.regions ref.index).leaseOwner = none ∧
        reserve b.regions ref.index tx.childRef = some (ref, o.regions)

section Later

variable {b : Own C} {tx tx' : ForkTxn C} {rt rt' : Runtime C}

theorem countChild_groups (p : C.Slot) {a : Own C} (hgroup : a.group = b.group)
    (hgroups : a.groups = b.groups) : (countChild p a).groups = (countChild p b).groups := by
  unfold countChild modifyGroup
  rw [hgroup]
  split
  · exact hgroups
  · rw [hgroups]

theorem uncountChild_groups (p : C.Slot) {a : Own C} (hgroup : a.group = b.group)
    (hgroups : a.groups = (countChild p b).groups) : (uncountChild p a).groups = b.groups := by
  unfold countChild at hgroups
  unfold uncountChild
  rw [hgroup]
  cases hp : b.group p with
  | none =>
    rw [hp] at hgroups
    exact hgroups
  | some g =>
    rw [hp] at hgroups
    dsimp only [modifyGroup] at hgroups ⊢
    rw [hgroups]
    simp only [Pool.set, update_self, update_idem, Nat.add_sub_cancel]
    rw [update_eq_self]

theorem countChild_eq (p : C.Slot) (o : Own C) :
    countChild p o = { o with groups := (countChild p o).groups } := by
  unfold countChild
  split <;> rfl

theorem uncountChild_eq (p : C.Slot) (o : Own C) :
    uncountChild p o = { o with groups := (uncountChild p o).groups } := by
  unfold uncountChild
  split <;> rfl

namespace SinceBuilt

theorem counted (h : SinceBuilt b tx rt.own)
    (hc : forkTxnCountChild tx rt = (none, tx', rt')) : SinceBuilt b tx' rt'.own := by
  unfold forkTxnCountChild at hc
  split at hc
  · cases hc
  rename_i hcond
  cases hc
  have hnot : tx.childCounted = false := by simpa using (not_or.mp hcond).2
  have hgroups := countChild_groups tx.parent h.group (by simpa [hnot] using h.groups)
  rw [countChild_eq]
  exact { h with groups := hgroups }

theorem published (h : SinceBuilt b tx rt.own)
    (hp : forkTxnPublish tx rt = (none, tx', rt')) : SinceBuilt b tx' rt'.own := by
  unfold forkTxnPublish at hp
  split at hp
  · cases hp
    exact { h with alive := fun s hs => (update_of_ne hs _ _).trans (h.alive s hs) }
  · cases hp

theorem snapshot {sp : Nat} (h : SinceBuilt b tx rt.own) (hnone : rt.own.snapshot tx.child = none)
    (hs : forkTxnSnapshot tx sp rt = (r, rt')) : SinceBuilt b tx rt'.own := by
  have hregions := h.regions
  rw [hnone] at hregions
  unfold forkTxnSnapshot at hs
  split at hs
  · cases hs
    exact h
  split at hs
  · cases hs
    refine { h with regions := ?_ }
    dsimp only [setSnapshot]
    rw [update_self]
    exact hregions
  rename_i hsnap
  cases hs
  obtain ⟨m, p, o', -, -, hfree, -, hreserve, rfl⟩ := vforkSnapshot_eq hsnap
  obtain ⟨regions, hres, rfl⟩ := regionReserve_eq hreserve
  refine { h with regions := ?_ }
  dsimp only [setSnapshot]
  rw [update_self]
  rw [← hregions]
  exact ⟨firstFreeRegion_unleased hfree, hres⟩

end SinceBuilt

end Later

section Release

variable {o o1 b : Own C} {tx : ForkTxn C}

/-- The abort takes the region back to where it was before the attempt, snapshot or not. -/
theorem release_regions {ref : RegionRef C} (snap : Option (RegionRef C)) (owner : SlotRef C)
    {regions : Table (SlotRef C) C.nreg} (hget : LeaseTable.get o.regions C.nslot ref = some t)
    (hsnap : match snap with
      | none => regions = t
      | some r => (t r.index).leaseOwner = none ∧ reserve t r.index owner = some (r, regions)) :
    RegionsKept o { o with regions := put (match snap with
      | none => regions
      | some r => releaseIfOwned regions r owner) ref } := by
  cases snap with
  | none =>
    dsimp only
    rw [hsnap, put_get hget]
    exact .of_eq rfl
  | some r =>
    dsimp only
    obtain ⟨howner, hres⟩ := hsnap
    obtain ⟨hne, hrefs, hsame⟩ := get_ne_reserve hget hres
    rw [release_reserve hres, put_update_of_ne _ hne.symm, put_get hget]
    intro k
    by_cases hk : k = r.index
    · subst hk
      dsimp only
      rw [update_self]
      rw [hsame] at hrefs howner
      exact ⟨hrefs.symm, howner.symm⟩
    · dsimp only
      rw [update_of_ne hk]
      exact ⟨rfl, rfl⟩

/-- The releases of an abort leave the built child to be discarded, with its objects as they were
built and the regions as they were before. -/
theorem SinceBuilt.release (h : SinceBuilt b tx o1) {ref : RegionRef C}
    (hregion : tx.parentRegion = some ref) (hacquired : tx.regionAcquired = true)
    (hbuilt : tx.childConstructed = true) (hget : LeaseTable.get o.regions C.nslot ref = some t)
    (hregions : b.regions = t) :
    ∃ x, forkTxnRelease tx o1 = procChildDiscard tx.child x ∧ SameObjects tx.child b x ∧
      OthersKept tx.child b x ∧ RegionsKept o x := by
  have hgroups : (if tx.childCounted then uncountChild tx.parent o1 else o1).groups = b.groups := by
    cases hc : tx.childCounted with
    | false => simpa [hc] using h.groups
    | true => exact uncountChild_groups tx.parent h.group (by simpa [hc] using h.groups)
  have heq : (if tx.childCounted then uncountChild tx.parent o1 else o1) =
      { o1 with groups := b.groups } := by
    rw [← hgroups]
    split
    · exact uncountChild_eq tx.parent o1
    · rfl
  have hsame : ∀ regions, SameObjects tx.child b
      { o1 with groups := b.groups, regions := regions } ∧
      OthersKept tx.child b { o1 with groups := b.groups, regions := regions } := fun regions =>
    ⟨⟨{ h with
        files := congrFun h.files _, fsContext := congrFun h.fsContext _,
        sighand := congrFun h.sighand _ }, congrFun h.mm _, h.mms, congrFun h.group _, rfl⟩,
      fun s hs => by
        simp only [record, h.alive s hs, h.mm, h.files, h.fsContext, h.sighand, h.group]⟩
  have hsnap := h.regions
  unfold forkTxnRelease
  rw [heq, hacquired, hbuilt, hregion]
  dsimp only
  cases hs : o1.snapshot tx.child with
  | none =>
    rw [hs, hregions] at hsnap
    obtain ⟨hobjects, hothers⟩ := hsame (put o1.regions ref)
    have hback := release_regions none tx.childRef hget hsnap
    exact ⟨_, rfl, hobjects, hothers, hback⟩
  | some r =>
    rw [hs, hregions] at hsnap
    obtain ⟨hobjects, hothers⟩ := hsame (put (releaseIfOwned o1.regions r tx.childRef) ref)
    have hback := release_regions (some r) tx.childRef hget hsnap
    exact ⟨_, rfl, hobjects, hothers, hback⟩

end Release

/-! ## Every point -/

structure ForkTxnOf (parent child : C.Slot) (rt : Runtime C) (tx : ForkTxn C) : Prop where
  ofParent : tx.parent = parent
  ofChild : tx.child = child
  region : tx.parentRegion = mmRegion rt.own parent
  phase : tx.phase = .preparing ∨ tx.phase = .prepared ∨ tx.phase = .published
  constructed : tx.phase ≠ .preparing → tx.childConstructed = true

def forkBase (parent child : C.Slot) (rt : Runtime C) : Own C :=
  (forkTxnBegin parent child rt).2.own

inductive ForkPoint (parent child : C.Slot) (flags : CloneFlags) (childPid : Nat)
    (rt : Runtime C) : ForkTxn C → Own C → Prop where
  | begun {tx} : tx.regionAcquired = false → tx.childConstructed = false →
      tx.childCounted = false → ForkPoint parent child flags childPid rt tx
        (forkBase parent child rt)
  | acquired {tx o} : tx.regionAcquired = true → tx.childConstructed = false →
      tx.childCounted = false →
      regionGet (mmRegion rt.own parent) (forkBase parent child rt) = some o →
      ForkPoint parent child flags childPid rt tx o
  | refused {tx o} : tx.regionAcquired = true → tx.childConstructed = false →
      tx.childCounted = false →
      regionGet (mmRegion rt.own parent) (forkBase parent child rt) = some o →
      initChildValid child parent flags childPid rt.own = true →
      ForkPoint parent child flags childPid rt tx
        (procChildDiscard child (procBuildChild child parent flags childPid o).2)
  | built {tx o o'} : tx.regionAcquired = true → tx.childConstructed = true →
      regionGet (mmRegion rt.own parent) (forkBase parent child rt) = some o →
      initChildValid child parent flags childPid rt.own = true →
      SinceBuilt (procBuildChild child parent flags childPid o).2 tx o' →
      ForkPoint parent child flags childPid rt tx o'

section Main

variable {child parent : C.Slot} {flags : CloneFlags} {childPid : Nat} {rt rt' : Runtime C}
  {tx : ForkTxn C}

variable {o o' : Own C}

theorem initChildValid_regions (h : regionGet ref (forkBase parent child rt) = some o) :
    initChildValid child parent flags childPid o =
      initChildValid child parent flags childPid rt.own := by
  obtain ⟨r, t, _, _, rfl⟩ := regionGet_eq h
  rfl

theorem procInitChild_own (h : procInitChild child parent flags childPid o = (r, o')) :
    o' = match r with
      | none => (procBuildChild child parent flags childPid o).2
      | some _ => procChildDiscard child (procBuildChild child parent flags childPid o).2 := by
  rw [procInitChild_eq] at h
  generalize procBuildChild child parent flags childPid o = q at h ⊢
  obtain ⟨_ | e, o1⟩ := q
  · cases h
    rfl
  · cases h
    rfl

theorem forkTxnValid_constructed (h : forkTxnValid tx o = true) : tx.childConstructed = true := by
  simp only [forkTxnValid, and_eq_true] at h
  obtain ⟨⟨⟨⟨⟨⟨⟨⟨⟨⟨_, _⟩, hbuilt⟩, _⟩, _⟩, _⟩, _⟩, _⟩, _⟩, _⟩, _⟩ := h
  exact hbuilt

theorem SinceBuilt.refl {b : Own C} (hsnap : b.snapshot tx.child = none)
    (hcounted : tx.childCounted = false) : SinceBuilt b tx b := by
  refine ⟨fun _ _ => rfl, rfl, rfl, rfl, rfl, rfl, rfl, rfl, rfl, rfl, rfl, ?_, ?_⟩
  · simp [hcounted]
  · rw [hsnap]

theorem ForkPoint.later {tx' : ForkTxn C} (h : ForkPoint parent child flags childPid rt tx o)
    (hc : tx.childConstructed = true) (hstep : ∀ b, SinceBuilt b tx o → SinceBuilt b tx' o')
    (hacquired : tx'.regionAcquired = tx.regionAcquired)
    (hbuilt : tx'.childConstructed = tx.childConstructed) :
    ForkPoint parent child flags childPid rt tx' o' := by
  cases h with
  | begun _ hno _ | acquired _ hno _ _ | refused _ hno _ _ _ => rw [hc] at hno; cases hno
  | built ha hb hget hv hsince =>
    exact .built (hacquired.trans ha) (hbuilt.trans hb) hget hv (hstep _ hsince)

/-- The result of `initChild` on the objects, with the region in hand. -/
theorem initChild_cases {rt1 rt2 : Runtime C}
    (hget : regionGet ref (forkBase parent child rt) = some o)
    (hi : initChild child parent flags childPid { rt1 with own := o } = (r, rt2)) :
    (initChildValid child parent flags childPid rt.own = false ∧ r ≠ none ∧ rt2.own = o) ∨
      (initChildValid child parent flags childPid rt.own = true ∧
        procInitChild child parent flags childPid o = (r, rt2.own)) := by
  unfold initChild at hi
  rw [initChildValid_regions hget] at hi
  split at hi
  · rename_i hv
    refine .inr ⟨hv, ?_⟩
    generalize procInitChild child parent flags childPid o = q at hi ⊢
    obtain ⟨_ | e, o1⟩ := q
    · cases hi
      rfl
    · cases hi
      rfl
  · rename_i hv
    cases hi
    exact .inl ⟨by simpa using hv, by simp, rfl⟩

/-- Every point that is reached has one of the four shapes. -/
theorem ForkReaches.point (h : ForkReaches parent child flags childPid rt tx rt') :
    ForkTxnOf parent child rt tx ∧ ForkPoint parent child flags childPid rt tx rt'.own := by
  induction h with
  | begun hb =>
    cases hb
    exact ⟨⟨rfl, rfl, rfl, .inl rfl, absurd rfl⟩, .begun rfl rfl rfl⟩
  | acquired hb hget =>
    cases hb
    exact ⟨⟨rfl, rfl, rfl, .inl rfl, absurd rfl⟩, .acquired rfl rfl rfl hget⟩
  | refused hb hget hi =>
    cases hb
    refine ⟨⟨rfl, rfl, rfl, .inl rfl, absurd rfl⟩, ?_⟩
    obtain ⟨_, _, hown⟩ | ⟨hv, hown⟩ := initChild_cases hget hi
    · rw [hown]
      exact .acquired rfl rfl rfl hget
    · rw [procInitChild_own hown]
      exact .refused rfl rfl rfl hget hv
  | constructed hb hget hi =>
    cases hb
    refine ⟨⟨rfl, rfl, rfl, .inl rfl, fun _ => rfl⟩, ?_⟩
    obtain ⟨_, hne, _⟩ | ⟨hv, hown⟩ := initChild_cases hget hi
    · exact absurd rfl hne
    · rw [procInitChild_own hown]
      refine .built rfl rfl hget hv (SinceBuilt.refl ?_ rfl)
      exact (procBuildChild_others child parent flags childPid _).2.2
  | @mapped _ rt1 _ _ hr hc hm ih =>
    obtain ⟨htx, hpoint⟩ := ih
    have hown := (restoreMmMaps_schedOnly (slotSignalClone child parent rt1)
      (childMaps rt1.own child)).own
    rw [hm] at hown
    rw [hown]
    exact ⟨{ htx with }, hpoint.later hc (fun b hb => { hb with }) rfl rfl⟩
  | prepared hr hc hp ih =>
    obtain ⟨htx, hpoint⟩ := ih
    exact ⟨{ htx with phase := .inr (.inl rfl), constructed := fun _ => hc },
      hpoint.later hc (fun b hb => { hb with }) rfl rfl⟩
  | counted hr hcount ih =>
    obtain ⟨htx, hpoint⟩ := ih
    have hc := hcount
    unfold forkTxnCountChild at hc
    split at hc
    · cases hc
    rename_i hcond
    have hphase := not_not.mp (not_or.mp hcond).1
    have hbuilt := htx.constructed (by rw [hphase]; decide)
    cases hc
    exact ⟨{ htx with }, hpoint.later hbuilt (fun b hb => hb.counted hcount) rfl rfl⟩
  | tied ref hr hp ih =>
    obtain ⟨htx, hpoint⟩ := ih
    exact ⟨htx, hpoint.later (htx.constructed (by rw [hp]; decide)) (fun b hb => { hb with })
      rfl rfl⟩
  | framed hr hf ih =>
    obtain ⟨htx, hpoint⟩ := ih
    refine ⟨htx, ?_⟩
    unfold resumeCloneForFork at hf
    split at hf
    · cases hf
      exact hpoint
    · cases hf
      exact hpoint
  | @snapshot tx1 _ _ _ _ hr hnone hs ih =>
    obtain ⟨htx, hpoint⟩ := ih
    refine ⟨htx, ?_⟩
    by_cases hbuilt : tx1.childConstructed = true
    · exact hpoint.later hbuilt (fun b hb => hb.snapshot hnone hs) rfl rfl
    · unfold forkTxnSnapshot at hs
      rw [if_pos (.inr (by simpa using hbuilt))] at hs
      cases hs
      exact hpoint
  | published hr hp ih =>
    obtain ⟨htx, hpoint⟩ := ih
    have hc := hp
    unfold forkTxnPublish at hc
    split at hc
    · rename_i hvalid
      have hbuilt := forkTxnValid_constructed hvalid
      cases hc
      exact ⟨{ htx with phase := .inr (.inr rfl), constructed := fun _ => hbuilt },
        hpoint.later hbuilt (fun b hb => hb.published hp) rfl rfl⟩
    · cases hc

theorem forkTxnAbort_own (h : ForkTxnOf parent child rt tx) (rt' : Runtime C) :
    (forkTxnAbort tx rt').1.phase = .aborted ∧
      (forkTxnAbort tx rt').2.own = vforkGuardReset tx.child (forkTxnRelease tx rt'.own) := by
  obtain ⟨-, -, rt2, -, habort⟩ := forkTxnAbort_eq rt' h.phase
  rw [habort]
  exact ⟨rfl, rfl⟩

/-- A transaction that has been aborted is not aborted again. -/
theorem forkTxnAbort_again (h : ForkTxnOf parent child rt tx) (rt' : Runtime C) :
    forkTxnAbort (forkTxnAbort tx rt').1 (forkTxnAbort tx rt').2 = forkTxnAbort tx rt' := by
  have hphase := (forkTxnAbort_own h rt').1
  unfold forkTxnAbort
  rw [if_pos (.inl hphase)]

theorem forkUndone_base (parent : C.Slot) {x : Own C} :
    ForkUndone rt.own (vforkGuardReset child x) ↔ ForkUndone (forkBase parent child rt) x :=
  ⟨fun h => { h with objects := (ObjectsKept.congr (by rfl) (by rfl)).mp h.objects },
    fun h => { h with objects := (ObjectsKept.congr (by rfl) (by rfl)).mp h.objects }⟩

theorem ForkUndone.refl (o : Own C) : ForkUndone o o :=
  ⟨⟨.refl o, .refl _, .refl _⟩, .of_eq rfl, rfl, rfl, rfl, rfl, rfl, rfl⟩

/-- The attempt comes as far as copying the descriptor table, and the copy takes a description's
count out of its 16 bits. -/
def forkLoses (parent child : C.Slot) (flags : CloneFlags) (childPid : Nat) (o : Own C) : Prop :=
  (regionGet (mmRegion o parent) o).isSome ∧
    initChildValid child parent flags childPid o = true ∧
    (∃ m, o.mm parent = some m ∧ obtainable flags.vm o.mms m) ∧ copyLoses parent flags o

theorem forkBase_source (h : ForkSource child parent rt.own)
    (ho : o = { forkBase parent child rt with regions := t }) : ForkSource child parent o := by
  subst ho
  exact { h with }

theorem forkBase_get (child : C.Slot) (h : (regionGet ref rt.own).isSome) :
    ∃ o, regionGet ref (forkBase parent child rt) = some o := by
  obtain ⟨o, ho⟩ := isSome_iff_exists.mp h
  obtain ⟨r, t, rfl, ht, _⟩ := regionGet_eq ho
  have ht' : LeaseTable.get (forkBase parent child rt).regions C.nslot r = some t := ht
  exact ⟨{ forkBase parent child rt with regions := t }, by simp only [regionGet, ht', map_some]⟩

theorem initChildValid_objects (h : initChildValid child parent flags childPid o = true) :
    (∃ m, o.mm parent = some m) ∧ ∃ g, o.group parent = some g := by
  simp only [initChildValid, and_eq_true] at h
  obtain ⟨⟨⟨⟨⟨⟨⟨_, _⟩, hm⟩, _⟩, _⟩, _⟩, hg⟩, _⟩ := h
  exact ⟨isSome_iff_exists.mp hm, isSome_iff_exists.mp hg⟩

/-- Discarding the child built with the region in hand restores the pools unless a count was
lost. -/
theorem built_discarded_iff (h : ForkSource child parent rt.own)
    (hget : regionGet (mmRegion rt.own parent) (forkBase parent child rt) = some o)
    (hv : initChildValid child parent flags childPid rt.own = true) :
    ObjectsKept (forkBase parent child rt)
        (procChildDiscard child (procBuildChild child parent flags childPid o).2) ↔
      ¬ forkLoses parent child flags childPid rt.own := by
  obtain ⟨⟨m, hm⟩, g, hg⟩ := initChildValid_objects hv
  obtain ⟨r, t, href, ht, ho⟩ := regionGet_eq hget
  have hiff := procBuildChild_discarded_iff flags childPid
    (forkBase_source h ho) (by rw [ho]; exact hm) (by rw [ho]; exact hg)
  have hbase : ObjectsKept o
      (procChildDiscard child (procBuildChild child parent flags childPid o).2) ↔
      ObjectsKept (forkBase parent child rt)
        (procChildDiscard child (procBuildChild child parent flags childPid o).2) := by
    subst ho
    exact ObjectsKept.congr rfl rfl
  have hget' : (regionGet (mmRegion rt.own parent) rt.own).isSome := by
    rw [href]
    show (Option.map _ (LeaseTable.get rt.own.regions C.nslot r)).isSome
    have ht' : LeaseTable.get rt.own.regions C.nslot r = some t := ht
    rw [ht']
    rfl
  rw [← hbase, hiff, ho]
  refine not_congr ⟨fun ⟨h1, h2⟩ => ⟨hget', hv, ⟨m, hm, h1⟩, h2⟩, ?_⟩
  rintro ⟨_, _, ⟨m', hm', h1⟩, h2⟩
  obtain rfl := Option.some.inj (hm.symm.trans hm')
  exact ⟨h1, h2⟩

/-- With the region in hand and the child refused or built, the abort restores everything unless a
count was lost. -/
theorem forkTxnRelease_undone_iff (h : ForkSource child parent rt.own)
    (htx : ForkTxnOf parent child rt tx) (hacquired : tx.regionAcquired = true)
    (hget : regionGet (mmRegion rt.own parent) (forkBase parent child rt) = some o)
    (hv : initChildValid child parent flags childPid rt.own = true)
    (hpoint : (tx.childConstructed = false ∧ tx.childCounted = false ∧
        o' = procChildDiscard child (procBuildChild child parent flags childPid o).2) ∨
      (tx.childConstructed = true ∧
        SinceBuilt (procBuildChild child parent flags childPid o).2 tx o')) :
    ForkUndone (forkBase parent child rt) (forkTxnRelease tx o') ↔
      ¬ forkLoses parent child flags childPid rt.own := by
  obtain ⟨ref, t, href, ht, ho⟩ := regionGet_eq hget
  have hregion : tx.parentRegion = some ref := htx.region.trans href
  obtain ⟨hothers, hregions, _⟩ := procBuildChild_others child parent flags childPid o
  have hbase : OthersKept child (forkBase parent child rt) o := by
    rw [ho]
    exact fun _ _ => rfl
  have hvacant : slotVacant (forkBase parent child rt) child = true := h.vacant
  rw [← built_discarded_iff h hget hv]
  obtain ⟨hbuilt, hcounted, rfl⟩ | ⟨hbuilt, hsince⟩ := hpoint
  · -- The refused child is already discarded: only the region is to be given back.
    have hrelease : ∀ x : Own C, forkTxnRelease tx x = { x with regions := put x.regions ref } := by
      intro x
      unfold forkTxnRelease
      rw [hbuilt, hcounted, hacquired, hregion]
      rfl
    obtain ⟨hdiscarded, hreg⟩ := procChildDiscard_others child
      (procBuildChild child parent flags childPid o).2
    have hvac := procChildDiscard_vacant child (procBuildChild child parent flags childPid o).2
    rw [hrelease]
    have hall := (hbase.trans hothers).trans hdiscarded
    have hregt : o.regions = t := by rw [ho]
    rw [hregions, hregt] at hreg
    generalize procChildDiscard child _ = x at hall hreg hvac ⊢
    rw [forkUndone_iff (x := { x with regions := put x.regions ref }) hvacant hvac hall
      (RegionsKept.of_eq (by rw [hreg]; exact put_get ht))]
    exact ObjectsKept.congr rfl rfl
  · obtain ⟨x, heq, hsame, hlater, hkept⟩ :=
      hsince.release hregion hacquired hbuilt ht (by rw [hregions, ho])
    rw [htx.ofChild] at heq hsame hlater
    obtain ⟨hdiscarded, hreg⟩ := procChildDiscard_others child x
    rw [heq, forkUndone_iff hvacant (procChildDiscard_vacant child x)
      (((hbase.trans hothers).trans hlater).trans hdiscarded) (by
        intro k
        rw [hreg]
        exact hkept k)]
    exact ObjectsKept.congr rfl (procChildDiscard_congr hsame)

/-- Wherever an attempt ends, its abort restores all counts, the child's slot and the parent's
children, and a second abort changes nothing, exactly when no copied description's count leaves
its 16 bits. -/
theorem forkTxnAbort_undone_iff (h : ForkSource child parent rt.own) :
    (∀ tx rt', ForkReaches parent child flags childPid rt tx rt' →
      ForkUndone rt.own (forkTxnAbort tx rt').2.own ∧
        forkTxnAbort (forkTxnAbort tx rt').1 (forkTxnAbort tx rt').2 = forkTxnAbort tx rt') ↔
      ¬ forkLoses parent child flags childPid rt.own := by
  constructor
  · intro hall hloses
    obtain ⟨hisSome, hv, _⟩ := id hloses
    obtain ⟨o, hget⟩ := forkBase_get child hisSome
    generalize hi : initChild child parent flags childPid
      { (forkTxnBegin parent child rt).2 with own := o } = q
    obtain ⟨r, rt2⟩ := q
    obtain ⟨hno, _⟩ | ⟨_, hown⟩ := initChild_cases hget hi
    · rw [hv] at hno
      cases hno
    have hpoint := procInitChild_own hown
    -- Where the child is built or refused the counts are already lost.
    have hkept : ∀ {tx}, ForkReaches parent child flags childPid rt tx rt2 →
        ForkTxnOf parent child rt tx ∧
          ForkUndone (forkBase parent child rt) (forkTxnRelease tx rt2.own) := by
      intro tx hreach
      have htx := hreach.point.1
      have hundone := (hall _ _ hreach).1
      rw [(forkTxnAbort_own htx rt2).2, htx.ofChild, forkUndone_base parent] at hundone
      exact ⟨htx, hundone⟩
    cases r with
    | none =>
      obtain ⟨htx, hundone⟩ := hkept (.constructed rfl hget hi)
      refine (forkTxnRelease_undone_iff h htx rfl hget hv (.inr ⟨rfl, ?_⟩)).mp hundone hloses
      rw [hpoint]
      exact .refl (procBuildChild_others child parent flags childPid _).2.2 rfl
    | some e =>
      obtain ⟨htx, hundone⟩ := hkept (.refused rfl hget hi)
      exact (forkTxnRelease_undone_iff h htx rfl hget hv (.inl ⟨rfl, rfl, hpoint⟩)).mp
        hundone hloses
  · intro hno tx rt' hreach
    obtain ⟨htx, hpoint⟩ := hreach.point
    refine ⟨?_, forkTxnAbort_again htx rt'⟩
    rw [(forkTxnAbort_own htx rt').2, htx.ofChild, forkUndone_base parent]
    generalize rt'.own = o' at hpoint ⊢
    cases hpoint with
    | begun ha hb hc =>
      unfold forkTxnRelease
      rw [ha, hb, hc]
      exact .refl _
    | acquired ha hb hc hget =>
      obtain ⟨ref, t, href, ht, ho⟩ := regionGet_eq hget
      unfold forkTxnRelease
      rw [ha, hb, hc, htx.region, href, ho]
      show ForkUndone _ { forkBase parent child rt with regions := put t ref }
      rw [put_get ht]
      exact .refl _
    | refused ha hb hc hget hv =>
      exact (forkTxnRelease_undone_iff h htx ha hget hv (.inl ⟨hb, hc, rfl⟩)).mpr hno
    | built ha hb hget hv hsince =>
      exact (forkTxnRelease_undone_iff h htx ha hget hv (.inr ⟨hb, hsince⟩)).mpr hno

end Main

/-! ## The handler -/

section Handler

variable {child parent : C.Slot} {flags : CloneFlags} {childPid : Nat} {rt rt' : Runtime C}
  {tx : ForkTxn C}

theorem forkTxnPrepare_reaches (h : forkTxnPrepare parent child flags childPid rt = (r, tx, rt')) :
    ForkReaches parent child flags childPid rt tx rt' := by
  unfold forkTxnPrepare at h
  generalize hb : forkTxnBegin parent child rt = q at h
  dsimp only at h
  split at h
  · cases h
    exact .begun hb
  rename_i hget
  split at h
  · rename_i hi
    cases h
    exact .refused hb hget hi
  rename_i hi
  have hreach := ForkReaches.constructed hb hget hi
  split at h
  · rename_i hm
    cases h
    exact .mapped hreach rfl hm
  rename_i hm
  cases h
  refine .prepared (.mapped hreach rfl hm) rfl ?_
  cases hb
  rfl

end Handler

/-! ## A description named twice -/

theorem smallConfig_nofd_pos : 0 < smallConfig.nofd := by decide

def firstDescription : Fin smallConfig.nofd := ⟨0, smallConfig_nofd_pos⟩

/-- One process, in slot 0, whose descriptors 0 and 1 name a description with `n` references. -/
def descriptionHolders (n : Nat) : Runtime smallConfig :=
  { resetRuntime smallConfig with
    own := { (resetRuntime smallConfig).own with
      alive := update (fun _ => false) 0 true
      mm := update (fun _ => none) 0 (some 0)
      files := update (fun _ => none) 0 (some 0)
      fsContext := update (fun _ => none) 0 (some 0)
      sighand := update (fun _ => none) 0 (some 0)
      group := update (fun _ => none) 0 (some 0)
      regions := update (fun _ => ⟨none, 0, 0⟩) 0 ⟨none, 1, 1⟩
      mms := ⟨update (fun _ => 0) 0 1, fun _ => { region := some ⟨0, 1⟩ }⟩
      filess := ⟨update (fun _ => 0) 0 1, fun _ =>
        ⟨fun fd => if fd.val < 2 then { ofd := some firstDescription } else {}⟩⟩
      fsContexts := ⟨update (fun _ => 0) 0 1, fun _ => {}⟩
      sighands := ⟨update (fun _ => 0) 0 1, fun _ => {}⟩
      groups := ⟨update (fun _ => 0) 0 1, fun _ => { tgid := 1 }⟩
      ofds := ⟨update (fun _ => 0) firstDescription n, fun _ => {}⟩ } }

theorem descriptionHolders_source {n : Nat} (hn : n ≤ uint16Max) :
    ForkSource 1 0 (descriptionHolders n).own := by
  have hone : ∀ i : Obj smallConfig, some 0 = some i →
      update (fun _ => 0) (0 : Obj smallConfig) 1 i ≠ 0 := by
    intro i hi
    obtain rfl : 0 = i := Option.some.inj hi
    exact Nat.one_ne_zero
  refine ⟨by decide, rfl, hone, hone, hone, hone, hone, fun k => ?_⟩
  show update (fun _ => 0) firstDescription n k ≤ uint16Max
  rw [update_apply]
  split
  · exact hn
  · exact Nat.zero_le _

theorem descriptionHolders_two_undone : ForkSource 1 0 (descriptionHolders 2).own ∧
      ∀ tx rt', ForkReaches 0 1 {} 2 (descriptionHolders 2) tx rt' →
        ForkUndone (descriptionHolders 2).own (forkTxnAbort tx rt').2.own ∧
          forkTxnAbort (forkTxnAbort tx rt').1 (forkTxnAbort tx rt').2 = forkTxnAbort tx rt' := by
  have hsource := descriptionHolders_source (n := 2) (by decide)
  refine ⟨hsource, (forkTxnAbort_undone_iff hsource).mpr ?_⟩
  rintro ⟨_, _, _, _, _, f, hf, _, hover⟩
  obtain rfl : 0 = f := Option.some.inj hf
  obtain ⟨k, _, hlt⟩ := hover
  have hrefs : (descriptionHolders 2).own.ofds.refs k ≤ 2 := by
    show update (fun _ => 0) firstDescription 2 k ≤ 2
    rw [update_apply]
    split <;> omega
  have hnames := names_le ((descriptionHolders 2).own.filess.val 0) k
  simp only [uint16Max, smallConfig] at hlt hnames
  omega

/-- With room for one more count the copy takes two, and the abort finds nothing to give back. -/
theorem descriptionHolders_full_not_undone : ForkSource 1 0 (descriptionHolders 65534).own ∧
      ∃ tx rt', ForkReaches 0 1 {} 2 (descriptionHolders 65534) tx rt' ∧
        (descriptionHolders 65534).own.ofds.refs firstDescription = 65534 ∧
        (forkTxnAbort tx rt').2.own.ofds.refs firstDescription = 0 := by
  refine ⟨descriptionHolders_source (by decide), ?_⟩
  generalize hp : forkTxnPrepare 0 1 {} 2 (descriptionHolders 65534) = q
  obtain ⟨r, tx, rt'⟩ := q
  refine ⟨tx, rt', forkTxnPrepare_reaches hp, rfl, ?_⟩
  have hrefs : (let q := forkTxnPrepare 0 1 {} 2 (descriptionHolders 65534);
      (forkTxnAbort q.2.1 q.2.2).2.own.ofds.refs firstDescription) = 0 := by
    decide +kernel
  rw [hp] at hrefs
  exact hrefs

end Lxp
