import Lxp.Clone.Resources

/-!
# Building a child and taking it apart

The objects of a new process are acquired one after another.  Whatever has been acquired when the
attempt ends, discarding the child gives every pool back the counts and objects it had, unless the
copy of the descriptor table has taken a description's count out of its 16 bits.
-/

open Function RefPool

namespace Lxp

variable {C : Config}
variable {o' : Own C}

/-! ## Releasing the resources -/

section Contexts

variable {child : C.Slot} {f fs sh : Obj C} {o : Own C}

theorem ContextsReleased.again {o1 : Own C} (h : ContextsReleased child f o o1) :
    ContextsReleased child f o (procResourcesPut child o1) := by
  have hagain := procResourcesPut_again child o1
  simp only [resourcePools, Prod.mk.injEq] at hagain
  obtain ⟨ha1, ha2, ha3, ha4⟩ := hagain
  obtain ⟨htables, hfs, hsh⟩ := h
  exact ⟨by rw [ha1, ha2]; exact htables, ha3.symm ▸ hfs, ha4.symm ▸ hsh⟩

theorem forkContexts_released (flags : CloneFlags) (rc : Option Errno)
    (hfiles : o.files child = some f)
    (hnofs : o.fsContext child = none) (hnosh : o.sighand child = none)
    (hfs : o.fsContexts.refs fs ≠ 0) (hsh : o.sighands.refs sh ≠ 0) :
    ContextsReleased child f o (forkContexts child fs sh flags rc o).2 := by
  unfold forkContexts
  by_cases hobt : obtainable flags.fs o.fsContexts fs
  · obtain ⟨i, q, hok, hsame⟩ := shareOrNew_obtains (o.fsContexts.val fs) hobt hfs
    rw [hok]
    dsimp only
    by_cases hobt' : obtainable flags.sighand o.sighands sh
    · obtain ⟨j, p, hok', hsame'⟩ := shareOrNew_obtains (o.sighands.val sh) hobt' hsh
      rw [hok']
      exact .of_holding rfl rfl hfiles (update_self _ _ _) (update_self _ _ _) (hsame {})
        (hsame' {})
    · rw [shareOrNew_error hobt']
      refine ContextsReleased.again ?_
      exact .of_holding rfl rfl hfiles (update_self _ _ _) hnosh (hsame {}) (.refl _)
  · rw [shareOrNew_error hobt]
    refine ContextsReleased.again ?_
    exact .of_holding rfl rfl hfiles hnofs hnosh (.refl _) (.refl _)

end Contexts

/-- The child's table is a copy that has taken a count out of its 16 bits. -/
def copyLoses (parent : C.Slot) (flags : CloneFlags) (o : Own C) : Prop :=
  HoldsResources o parent ∧ flags.files = false ∧
    ∃ f, o.files parent = some f ∧ tableCopies o f ∧ copyOverflows o f

section Released

variable {child parent : C.Slot} {flags : CloneFlags} {o : Own C}

theorem TableTaken.released_iff {fs sh g : Obj C} {rc : Option Errno} {o1 : Own C}
    (h : TableTaken child parent flags fs sh g rc o o1) (gives : Prop)
    (hfs : o.fsContexts.refs fs ≠ 0) (hsh : o.sighands.refs sh ≠ 0)
    (hgives : ∀ o2 : Own C, o2.filess = o1.filess → o2.ofds = o1.ofds →
      (tableReturned o g o2 ↔ gives)) :
    ResourcesKept o (procResourcesPut child (procResourcesFork child parent flags o).2) ↔
      gives := by
  have hreleased := forkContexts_released flags rc h.files h.fsContext h.sighand
    (by rw [h.fsContexts]; exact hfs) (by rw [h.sighands]; exact hsh)
  obtain ⟨⟨o2, hf2, hd2, hr1, hr2⟩, hkfs, hksh⟩ := hreleased
  rw [h.fsContexts] at hkfs
  rw [h.sighands] at hksh
  rw [h.eq, ← hgives o2 hf2 hd2]
  unfold tableReturned
  rw [← hr1, ← hr2]
  exact ⟨fun hkept => ⟨hkept.filess, hkept.ofds⟩, fun hback => ⟨hback.1, hback.2, hkfs, hksh⟩⟩

/-- Releasing whatever the child got of its parent's resources restores the pools exactly when no
count was lost. -/
theorem procResourcesFork_released_iff (flags : CloneFlags)
    (h : ForkReadyResources child parent o) :
    ResourcesKept o (procResourcesPut child (procResourcesFork child parent flags o).2) ↔
      ¬ copyLoses parent flags o := by
  by_cases hall : HoldsResources o parent
  · obtain ⟨f, hf⟩ := Option.isSome_iff_exists.mp hall.1
    obtain ⟨fs, hfs⟩ := Option.isSome_iff_exists.mp hall.2.1
    obtain ⟨sh, hsh⟩ := Option.isSome_iff_exists.mp hall.2.2
    have hloses : copyLoses parent flags o ↔
        flags.files = false ∧ tableCopies o f ∧ copyOverflows o f := by
      constructor
      · rintro ⟨_, hflag, f', hf', hcopy⟩
        obtain rfl := Option.some.inj (hf.symm.trans hf')
        exact ⟨hflag, hcopy⟩
      · rintro ⟨hflag, hcopy⟩
        exact ⟨hall, hflag, f, hf, hcopy⟩
    rw [hloses]
    cases procResourcesFork_outcome flags h hf hfs hsh with
    | refused hno hq heq =>
      rw [heq]
      refine ⟨fun _ hcopy => hno hcopy.1 hcopy.2.1, fun _ => ?_⟩
      exact (ResourcesKept.congr rfl (procResourcesPut_again child _)).mpr
        (procResourcesPut_nothing h hq)
    | shared hflag htaken hback =>
      rw [htaken.released_iff True (h.fsContext fs hfs) (h.sighand sh hsh)
        fun o2 hf2 hd2 => iff_true_intro (hback o2 hf2 hd2)]
      simp [hflag]
    | copied hflag hcopies htaken hback =>
      rw [htaken.released_iff _ (h.fsContext fs hfs) (h.sighand sh hsh) hback]
      simp [hflag, hcopies]
  · rw [procResourcesFork_lacking hall]
    exact ⟨fun _ hloses => hall hloses.1, fun _ => procResourcesPut_nothing h (Pool.Same.refl _)⟩

end Released

/-! ## Building and discarding -/

/-- The objects of `proc_init_child`, up to the first that is refused. -/
def procBuildChild (child parent : C.Slot) (flags : CloneFlags) (childPid : Nat) (o : Own C) :
    Option Errno × Own C :=
  let o := procChildCopyValues child parent childPid o
  match procMmFork child parent flags o with
  | (some e, o) => (some e, o)
  | (none, o) =>
    match procResourcesFork child parent flags o with
    | (some e, o) => (some e, o)
    | (none, o) => procGroupFork child parent flags childPid o

theorem procInitChild_eq (child parent : C.Slot) (flags : CloneFlags) (childPid : Nat)
    (o : Own C) : procInitChild child parent flags childPid o =
      match procBuildChild child parent flags childPid o with
      | (some e, o) => (some e, procChildDiscard child o)
      | (none, o) => (none, o) := by
  rcases hm : procMmFork child parent flags (procChildCopyValues child parent childPid o)
    with ⟨_ | e, o1⟩
  · rcases hr : procResourcesFork child parent flags o1 with ⟨_ | e, o2⟩
    · rcases hg : procGroupFork child parent flags childPid o2 with ⟨_ | e, o3⟩ <;>
        simp only [procInitChild, procBuildChild, hm, hr, hg]
    · simp only [procInitChild, procBuildChild, hm, hr]
  · simp only [procInitChild, procBuildChild, hm]

/-- Counts and objects of all the pools a child takes from. -/
structure ObjectsKept (o o' : Own C) : Prop where
  resources : ResourcesKept o o'
  mms : Pool.Same o.mms o'.mms
  groups : Pool.Same o.groups o'.groups

def objectPools (o : Own C) :=
  (resourcePools o, o.mms, o.groups)

theorem ObjectsKept.congr {a a' b b' : Own C} (ha : objectPools a' = objectPools a)
    (hb : objectPools b' = objectPools b) : ObjectsKept a' b' ↔ ObjectsKept a b := by
  simp only [objectPools, Prod.mk.injEq] at ha hb
  obtain ⟨hares, hamms, hagroups⟩ := ha
  obtain ⟨hbres, hbmms, hbgroups⟩ := hb
  have hres := ResourcesKept.congr hares hbres
  constructor
  · rintro ⟨h1, h2, h3⟩
    exact ⟨hres.mp h1, hamms ▸ hbmms ▸ h2, hagroups ▸ hbgroups ▸ h3⟩
  · rintro ⟨h1, h2, h3⟩
    exact ⟨hres.mpr h1, hamms ▸ hbmms ▸ h2, hagroups ▸ hbgroups ▸ h3⟩

variable {o : Own C}

theorem fdClose_congr (f : Obj C) (hfiless : o'.filess = o.filess)
    (hofds : o'.ofds = o.ofds) (fd : Fin C.maxFds) :
    (fdClose f o' fd).filess = (fdClose f o fd).filess ∧
      (fdClose f o' fd).ofds = (fdClose f o fd).ofds := by
  have hlook : fdLookup o' f fd = fdLookup o f fd := by
    unfold fdLookup
    rw [hfiless, hofds]
  unfold fdClose
  rw [hlook]
  split
  · exact ⟨hfiless, hofds⟩
  · unfold setFd
    rw [hfiless, hofds]
    exact ⟨rfl, rfl⟩

theorem foldl_fdClose_congr (f : Obj C) (fds : List (Fin C.maxFds))
    (hfiless : o'.filess = o.filess) (hofds : o'.ofds = o.ofds) :
    (fds.foldl (fdClose f) o').filess = (fds.foldl (fdClose f) o).filess ∧
      (fds.foldl (fdClose f) o').ofds = (fds.foldl (fdClose f) o).ofds := by
  induction fds generalizing o o' with
  | nil => exact ⟨hfiless, hofds⟩
  | cons fd fds ih =>
    obtain ⟨h1, h2⟩ := fdClose_congr f hfiless hofds fd
    exact ih h1 h2

theorem filesPut_congr (g : Option (Obj C)) (hfiless : o'.filess = o.filess)
    (hofds : o'.ofds = o.ofds) : (filesPut g o').filess = (filesPut g o).filess ∧
      (filesPut g o').ofds = (filesPut g o).ofds := by
  cases g with
  | none => exact ⟨hfiless, hofds⟩
  | some f =>
    obtain ⟨h1, h2⟩ := foldl_fdClose_congr f (List.finRange C.maxFds) hfiless hofds
    unfold filesPut fdCloseAll
    dsimp only
    rw [hfiless]
    split
    · rw [h1, h2]
      exact ⟨rfl, rfl⟩
    · rw [hfiless, hofds]
      exact ⟨rfl, rfl⟩

theorem procChildDiscard_pools (s : C.Slot) (o : Own C) :
    objectPools (procChildDiscard s o) = (resourcePools (procResourcesPut s o),
      (mmPut (o.mm s) o).mms, (groupPut (o.group s) o).groups) := by
  have hres := procResourcesPut_only s o
  unfold procChildDiscard procMmPut procGroupPut
  rw [hres]
  cases hmm : o.mm s <;> cases hgroup : o.group s <;> simp [mmPut, hgroup] <;> rfl

/-- What a process record has of the four resource pools, and the pools. -/
structure SameResources (s : C.Slot) (o o' : Own C) : Prop where
  files : o'.files s = o.files s
  fsContext : o'.fsContext s = o.fsContext s
  sighand : o'.sighand s = o.sighand s
  filess : o'.filess = o.filess
  ofds : o'.ofds = o.ofds
  fsContexts : o'.fsContexts = o.fsContexts
  sighands : o'.sighands = o.sighands

theorem procResourcesPut_congr {s : C.Slot} (h : SameResources s o o') :
    resourcePools (procResourcesPut s o') = resourcePools (procResourcesPut s o) := by
  obtain ⟨hc1, hc2⟩ := filesPut_congr (o.files s) h.filess h.ofds
  rw [procResourcesPut_pools s o' h.files h.fsContext h.sighand,
    procResourcesPut_pools s o rfl rfl rfl, hc1, hc2]
  cases o.fsContext s <;> cases o.sighand s <;>
    simp only [fsContextPut, sighandPut, h.fsContexts, h.sighands]

/-- A parent whose objects are allocated and a slot that holds nothing. -/
structure ForkSource (child parent : C.Slot) (o : Own C) : Prop where
  distinct : child ≠ parent
  vacant : slotVacant o child = true
  mm : ∀ i, o.mm parent = some i → o.mms.refs i ≠ 0
  files : ∀ i, o.files parent = some i → o.filess.refs i ≠ 0
  fsContext : ∀ i, o.fsContext parent = some i → o.fsContexts.refs i ≠ 0
  sighand : ∀ i, o.sighand parent = some i → o.sighands.refs i ≠ 0
  group : ∀ i, o.group parent = some i → o.groups.refs i ≠ 0
  words : ∀ k, o.ofds.refs k ≤ uint16Max

structure ChildCleared (child : C.Slot) (o o' : Own C) : Prop where
  mm : o'.mm = update o.mm child none
  files : o'.files = update o.files child none
  fsContext : o'.fsContext = update o.fsContext child none
  sighand : o'.sighand = update o.sighand child none
  group : o'.group = update o.group child none
  mms : o'.mms = o.mms
  filess : o'.filess = o.filess
  fsContexts : o'.fsContexts = o.fsContexts
  sighands : o'.sighands = o.sighands
  groups : o'.groups = o.groups
  ofds : o'.ofds = o.ofds

theorem procChildCopyValues_cleared (child parent : C.Slot) (childPid : Nat) (o : Own C) :
    ChildCleared child o (procChildCopyValues child parent childPid o) :=
  ⟨rfl, rfl, rfl, rfl, rfl, rfl, rfl, rfl, rfl, rfl, rfl⟩

theorem ChildCleared.pools {child : C.Slot} (h : ChildCleared child o o') :
    resourcePools o' = resourcePools o := by
  rw [resourcePools, h.filess, h.ofds, h.fsContexts, h.sighands]
  rfl

section Build

variable {child parent : C.Slot} {flags : CloneFlags} {childPid : Nat}

theorem ForkSource.resources (h : ForkSource child parent o)
    (hfiles : o'.files = update o.files child none)
    (hfs : o'.fsContext = update o.fsContext child none)
    (hsh : o'.sighand = update o.sighand child none) (hfiless : o'.filess = o.filess)
    (hcontexts : o'.fsContexts = o.fsContexts) (hsighands : o'.sighands = o.sighands)
    (hofds : o'.ofds = o.ofds) : ForkReadyResources child parent o' := by
  have hne := h.distinct.symm
  refine ⟨?_, ?_, ?_, ?_, ?_, ?_, ?_⟩
  · rw [hfiles, update_self]
  · rw [hfs, update_self]
  · rw [hsh, update_self]
  · rw [hfiles, update_of_ne hne, hfiless]
    exact h.files
  · rw [hfs, update_of_ne hne, hcontexts]
    exact h.fsContext
  · rw [hsh, update_of_ne hne, hsighands]
    exact h.sighand
  · rw [hofds]
    exact h.words

theorem copyLoses_congr (hfiles : o'.files parent = o.files parent)
    (hfs : o'.fsContext parent = o.fsContext parent) (hsh : o'.sighand parent = o.sighand parent)
    (hfiless : o'.filess = o.filess) (hofds : o'.ofds = o.ofds) :
    copyLoses parent flags o' ↔ copyLoses parent flags o := by
  unfold copyLoses HoldsResources tableCopies copyOverflows fdLookup
  rw [hfiles, hfs, hsh, hfiless, hofds]

variable {m g : Obj C}

theorem procMmFork_ok (child : C.Slot) (hm : o.mm parent = some m)
    (hobt : obtainable flags.vm o.mms m) (hrefs : o.mms.refs m ≠ 0) :
    ∃ i q, procMmFork child parent flags o =
        (none, { o with mms := q, mm := update o.mm child (some i) }) ∧
      ∀ e, Pool.Same o.mms (q.put e i) := by
  obtain ⟨i, q, hok, hsame⟩ := shareOrNew_obtains (o.mms.val m) hobt hrefs
  refine ⟨i, q, ?_, hsame⟩
  unfold procMmFork
  rw [hm]
  dsimp only
  rw [hok]
  simp only [update_idem]

theorem procMmFork_refused (child : C.Slot) (hm : o.mm parent = some m)
    (hobt : ¬ obtainable flags.vm o.mms m) :
    ∃ e, procMmFork child parent flags o = (some e, { o with mm := update o.mm child none }) := by
  unfold procMmFork
  rw [hm]
  dsimp only
  rw [shareOrNew_error hobt]
  cases flags.vm <;> exact ⟨_, rfl⟩

/-- Whether or not there is a thread group for the child, giving it back restores the pool. -/
theorem procGroupFork_released (child : C.Slot) (flags : CloneFlags) (childPid : Nat)
    (hg : o.group parent = some g) (hrefs : o.groups.refs g ≠ 0) :
    ∃ r q i, procGroupFork child parent flags childPid o =
        (r, { o with groups := q, group := update o.group child i }) ∧
      Pool.Same o.groups (groupPut i { o with groups := q }).groups := by
  unfold procGroupFork
  rw [hg]
  dsimp only
  generalize ({
    tgid := childPid
    ppid := (o.groups.val g).tgid
    pgid := (o.groups.val g).pgid } : Group) = fresh
  by_cases hobt : obtainable flags.thread o.groups g
  · obtain ⟨i, q, hok, hsame⟩ := shareOrNew_obtains fresh hobt hrefs
    rw [hok]
    refine ⟨none, q, some i, ?_, hsame {}⟩
    simp only [update_idem]
  · rw [shareOrNew_error hobt]
    exact ⟨_, o.groups, none, rfl, Pool.Same.refl _⟩

theorem objectsKept_iff {P : Prop} (hres : ResourcesKept o (procResourcesPut child o') ↔ P)
    (hmm : Pool.Same o.mms (mmPut (o'.mm child) o').mms)
    (hgroup : Pool.Same o.groups (groupPut (o'.group child) o').groups) :
    ObjectsKept o (procChildDiscard child o') ↔ P := by
  have hpools := procChildDiscard_pools child o'
  simp only [objectPools, Prod.mk.injEq] at hpools
  obtain ⟨h1, h2, h3⟩ := hpools
  rw [← hres, ← ResourcesKept.congr rfl h1]
  exact ⟨fun h => h.resources, fun h => ⟨h, h2.symm ▸ hmm, h3.symm ▸ hgroup⟩⟩

/-- A child that was refused its address space holds nothing. -/
theorem objectsKept_of_bare (h : ChildCleared child o o') :
    ObjectsKept o (procChildDiscard child o') := by
  have hbare : ResourcesKept o (procResourcesPut child o') := by
    rw [ResourcesKept.congr rfl (procResourcesPut_pools child o' (by rw [h.files, update_self])
      (by rw [h.fsContext, update_self]) (by rw [h.sighand, update_self]))]
    exact (ResourcesKept.congr rfl h.pools).mpr (.refl o)
  refine (objectsKept_iff (iff_true_intro hbare) ?_ ?_).mpr trivial
  · rw [h.mm, update_self]
    exact h.mms.symm ▸ Pool.Same.refl _
  · rw [h.group, update_self]
    exact h.groups.symm ▸ Pool.Same.refl _

/-- With the address space in hand, the resources decide. -/
theorem objectsKept_of_mm (h : ForkSource child parent o) {i : Obj C} {o2 : Own C}
    (hg : o.group parent = some g) (hfiles : o2.files = update o.files child none)
    (hfs : o2.fsContext = update o.fsContext child none)
    (hsh : o2.sighand = update o.sighand child none)
    (hgroup : o2.group = update o.group child none) (hfiless : o2.filess = o.filess)
    (hcontexts : o2.fsContexts = o.fsContexts) (hsighands : o2.sighands = o.sighands)
    (hofds : o2.ofds = o.ofds) (hgroups : o2.groups = o.groups) (hmm : o2.mm child = some i)
    (hmms : Pool.Same o.mms (o2.mms.put {} i)) :
    ObjectsKept o (procChildDiscard child (match procResourcesFork child parent flags o2 with
      | (some e, o) => ((some e, o) : Option Errno × Own C)
      | (none, o) => procGroupFork child parent flags childPid o).2) ↔
      ¬ copyLoses parent flags o := by
  have hne := h.distinct.symm
  have hready := h.resources hfiles hfs hsh hfiless hcontexts hsighands hofds
  have hres := procResourcesFork_released_iff flags hready
  have hpools : resourcePools o2 = resourcePools o := by
    rw [resourcePools, hfiless, hofds, hcontexts, hsighands]
    rfl
  rw [ResourcesKept.congr hpools rfl, copyLoses_congr
    (by rw [hfiles, update_of_ne hne]) (by rw [hfs, update_of_ne hne])
    (by rw [hsh, update_of_ne hne]) hfiless hofds] at hres
  have honly := (procResourcesFork_at child parent flags o2).only
  generalize procResourcesFork child parent flags o2 = q at hres honly ⊢
  obtain ⟨r, o3⟩ := q
  dsimp only at honly
  have hmm3 : o3.mm child = some i := by rw [honly]; exact hmm
  have hmms3 : o3.mms = o2.mms := by rw [honly]
  have hgroup3 : o3.group = update o.group child none := by rw [honly]; exact hgroup
  have hgroups3 : o3.groups = o.groups := by rw [honly]; exact hgroups
  have hput : ∀ o4 : Own C, o4.mm child = some i → o4.mms = o3.mms →
      Pool.Same o.mms (mmPut (o4.mm child) o4).mms := by
    intro o4 h4 h4'
    rw [h4]
    show Pool.Same o.mms (o4.mms.put {} i)
    rw [h4', hmms3]
    exact hmms
  cases r with
  | some e =>
    refine objectsKept_iff hres (hput o3 hmm3 rfl) ?_
    rw [hgroup3, update_self]
    exact hgroups3.symm ▸ Pool.Same.refl _
  | none =>
    dsimp only
    have hg3 : o3.group parent = some g := by rw [hgroup3, update_of_ne hne, hg]
    obtain ⟨r', q, j, hfork, hsame⟩ := procGroupFork_released child flags childPid hg3
      (by rw [hgroups3]; exact h.group g hg)
    rw [hfork]
    refine objectsKept_iff ?_ (hput _ hmm3 rfl) ?_
    · rw [← hres]
      exact ResourcesKept.congr rfl (procResourcesPut_congr ⟨rfl, rfl, rfl, rfl, rfl, rfl, rfl⟩)
    · rw [hgroups3] at hsame
      dsimp only
      rw [update_self]
      cases j <;> exact hsame

/-- Discarding whatever was built restores every pool exactly when no count was lost on the way. -/
theorem procBuildChild_discarded_iff (flags : CloneFlags) (childPid : Nat)
    (h : ForkSource child parent o) (hm : o.mm parent = some m) (hg : o.group parent = some g) :
    ObjectsKept o (procChildDiscard child (procBuildChild child parent flags childPid o).2) ↔
      ¬ (obtainable flags.vm o.mms m ∧ copyLoses parent flags o) := by
  have hne := h.distinct.symm
  have hcl := procChildCopyValues_cleared child parent childPid o
  unfold procBuildChild
  generalize procChildCopyValues child parent childPid o = o1 at hcl ⊢
  have hm1 : o1.mm parent = some m := by rw [hcl.mm, update_of_ne hne, hm]
  by_cases hobt : obtainable flags.vm o.mms m
  · simp only [hobt, true_and]
    obtain ⟨i, q, hfork, hsame⟩ := procMmFork_ok child hm1 (by rw [hcl.mms]; exact hobt)
      (by rw [hcl.mms]; exact h.mm m hm)
    rw [hfork]
    rw [hcl.mms] at hsame
    exact objectsKept_of_mm h hg hcl.files hcl.fsContext hcl.sighand hcl.group hcl.filess
      hcl.fsContexts hcl.sighands hcl.ofds hcl.groups (update_self _ _ _) (hsame {})
  · simp only [hobt, false_and, not_false_eq_true, iff_true]
    obtain ⟨e, hfork⟩ := procMmFork_refused child hm1 (by rw [hcl.mms]; exact hobt)
    rw [hfork]
    refine objectsKept_of_bare { hcl with mm := ?_ }
    rw [hcl.mm, update_idem]

end Build

end Lxp
