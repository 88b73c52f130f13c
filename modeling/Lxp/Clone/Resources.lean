import Lxp.Descriptors.Table
import Lxp.Run.Step

/-!
# What a clone takes of its parent's resources

`procResourcesFork` acquires a descriptor table, a filesystem context and a signal table for the
child, each shared or of its own.  It reports what happened through one variable, which a copied
descriptor table leaves at success: a shared object whose count is full is then missed.
-/

open Function RefPool Option

namespace Lxp

variable {C : Config}
variable {q : Pool (Files C) C.npool}
variable {o1 : Own C}

/-! ## Acquiring one object -/

/-- The object can be shared, or there is a free one. -/
def obtainable {α : Type} (share : Bool) (p : Pool α C.npool) (i : Obj C) : Prop :=
  if share then p.refs i ≠ uint16Max else p.free? ≠ none

instance {α : Type} (share : Bool) (p : Pool α C.npool) (i : Obj C) :
    Decidable (obtainable share p i) := by
  unfold obtainable
  infer_instance

theorem shareOrNew_error {α : Type} {share : Bool} {p : Pool α C.npool} {i : Obj C} {fresh : α}
    (h : ¬ obtainable share p i) :
    shareOrNew share p i fresh = .error (if share then none else some .enomem) := by
  unfold obtainable at h
  unfold shareOrNew Pool.new
  cases share with
  | true =>
    simp only [if_true, not_not] at h ⊢
    rw [if_pos h]
  | false =>
    simp only [Bool.false_eq_true, if_false, not_not] at h
    rw [h]
    rfl

theorem shareOrNew_obtains {α : Type} {share : Bool} {p : Pool α C.npool} {i : Obj C} (fresh : α)
    (h : obtainable share p i) (hi : p.refs i ≠ 0) :
    ∃ j q, shareOrNew share p i fresh = .ok (j, q) ∧ ∀ e, Pool.Same p (q.put e j) := by
  unfold shareOrNew
  cases share with
  | true =>
    rw [if_neg h]
    exact ⟨i, _, rfl, fun e => Pool.Same.put_get e hi⟩
  | false =>
    obtain ⟨j, hj⟩ := ne_none_iff_exists'.mp h
    have hnew : p.new fresh = some (j, ⟨update p.refs j 1, update p.val j fresh⟩) := by
      rw [Pool.new, hj]
      rfl
    rw [hnew]
    exact ⟨j, _, rfl, fun e => Pool.Same.put_new e hnew⟩

/-! ## Acquiring the descriptor table -/

/-- There is a free table, and no description the parent's table names has a full count. -/
def tableCopies (o : Own C) (f : Obj C) : Prop :=
  o.filess.free? ≠ none ∧ ∀ fd k, fdLookup o f fd = some k → o.ofds.refs k ≠ uint16Max

/-- The entries of one more table take the count of some description out of its 16 bits. -/
def copyOverflows (o : Own C) (f : Obj C) : Prop :=
  ∃ k, o.ofds.refs k ≠ 0 ∧ uint16Max < o.ofds.refs k + names (o.filess.val f) k

/-- The four pools a clone takes from, with the counts and objects they had. -/
structure ResourcesKept (o o' : Own C) : Prop where
  filess : Pool.Same o.filess o'.filess
  ofds : Pool.Same o.ofds o'.ofds
  fsContexts : Pool.Same o.fsContexts o'.fsContexts
  sighands : Pool.Same o.sighands o'.sighands

def resourcePools (o : Own C) :=
  (o.filess, o.ofds, o.fsContexts, o.sighands)

theorem ResourcesKept.refl (o : Own C) : ResourcesKept o o := ⟨.refl _, .refl _, .refl _, .refl _⟩

theorem resourcesKept_iff (o o' : Own C) : ResourcesKept o o' ↔
    Pool.Same (resourcePools o).1 (resourcePools o').1 ∧
      Pool.Same (resourcePools o).2.1 (resourcePools o').2.1 ∧
      Pool.Same (resourcePools o).2.2.1 (resourcePools o').2.2.1 ∧
      Pool.Same (resourcePools o).2.2.2 (resourcePools o').2.2.2 :=
  ⟨fun h => ⟨h.1, h.2, h.3, h.4⟩, fun h => ⟨h.1, h.2.1, h.2.2.1, h.2.2.2⟩⟩

theorem ResourcesKept.congr {a a' b b' : Own C} (ha : resourcePools a' = resourcePools a)
    (hb : resourcePools b' = resourcePools b) : ResourcesKept a' b' ↔ ResourcesKept a b := by
  rw [resourcesKept_iff, ha, hb, ← resourcesKept_iff]

section Files

variable {o : Own C} {f copy : Obj C}

theorem fdTableRetain_none (h : ¬ ∀ fd k, fdLookup o f fd = some k →
    o.ofds.refs k ≠ uint16Max) : fdTableRetain f o = none := by
  unfold fdTableRetain
  rw [if_pos]
  simp only [not_forall] at h
  obtain ⟨fd, k, hk, hfull⟩ := h
  simp only [List.any_eq_true]
  refine ⟨fd, List.mem_finRange fd, ?_⟩
  rw [hk]
  simpa using hfull

theorem fdTableRetain_some (hword : ∀ k, o.ofds.refs k ≤ uint16Max)
    (h : ∀ fd k, fdLookup o f fd = some k → o.ofds.refs k ≠ uint16Max) :
    fdTableRetain f o = some (retainOfds o (names (o.filess.val f))) := by
  unfold fdTableRetain
  rw [if_neg, foldl_fdRetain f _ hword]
  · rfl
  simp only [List.any_eq_true, not_exists, not_and]
  intro fd _
  cases hk : fdLookup o f fd with
  | none => simp
  | some k => simpa using h fd k hk

/-- A table that cannot be copied leaves every table and description as it was. -/
theorem fdForkInherit_refused (h : ¬ tableCopies o f) :
    ∃ e q, fdForkInherit f o = (.error e, { o with filess := q }) ∧ Pool.Same o.filess q := by
  unfold fdForkInherit
  cases hnew : o.filess.new (o.filess.val f) with
  | none => exact ⟨_, o.filess, rfl, Pool.Same.refl _⟩
  | some r =>
    obtain ⟨copy, q⟩ := r
    obtain ⟨-, hq⟩ := Pool.new_eq hnew
    have hfull : ¬ ∀ fd k, fdLookup { o with filess := q } copy fd = some k →
        o.ofds.refs k ≠ uint16Max := by
      intro hall
      apply h
      refine ⟨?_, fun fd k hk => hall fd k ?_⟩
      · intro hnone
        rw [Pool.new, hnone] at hnew
        cases hnew
      have hval : q.val copy = o.filess.val f := by
        rw [hq]
        exact update_self _ _ _
      unfold fdLookup at ⊢
      rw [hval]
      exact hk
    dsimp only
    rw [fdTableRetain_none hfull]
    exact ⟨_, _, rfl, Pool.Same.put_new {} hnew⟩

theorem fdForkInherit_copied (hword : ∀ k, o.ofds.refs k ≤ uint16Max) (h : tableCopies o f) :
    ∃ copy q, fdForkInherit f o =
        (.ok copy, retainOfds { o with filess := q } (names (o.filess.val f))) ∧
      o.filess.new (o.filess.val f) = some (copy, q) := by
  obtain ⟨hfree, hfull⟩ := h
  obtain ⟨copy, hcopy⟩ := ne_none_iff_exists'.mp hfree
  have hnew : o.filess.new (o.filess.val f) =
      some (copy, ⟨update o.filess.refs copy 1, update o.filess.val copy (o.filess.val f)⟩) := by
    rw [Pool.new, hcopy]
    rfl
  have hval : update o.filess.val copy (o.filess.val f) copy = o.filess.val f := update_self _ _ _
  unfold fdForkInherit
  rw [hnew]
  dsimp only
  rw [fdTableRetain_some]
  · dsimp only
    rw [hval]
    exact ⟨copy, _, rfl, rfl⟩
  · exact hword
  intro fd k hk
  apply hfull fd k
  unfold fdLookup at hk
  dsimp only at hk
  rw [hval] at hk
  exact hk

section

variable (hnew : o.filess.new (o.filess.val f) = some (copy, q)) (hfiless : o1.filess = q)
  (hofds : o1.ofds = (retainOfds o (names (o.filess.val f))).ofds)
include hnew hfiless hofds

theorem filesPut_copy :
    Pool.Same o.filess (filesPut (some copy) o1).filess ∧
      (∀ k, (filesPut (some copy) o1).ofds.refs k =
        retained (o.ofds.refs k) (names (o.filess.val f) k) - names (o.filess.val f) k) ∧
      ∀ k, names (o.filess.val f) k < retained (o.ofds.refs k) (names (o.filess.val f) k) →
        (filesPut (some copy) o1).ofds.val k = o.ofds.val k := by
  obtain ⟨-, hq⟩ := Pool.new_eq hnew
  have hone : o1.filess.refs copy = 1 := by
    rw [hfiless, hq]
    exact update_self _ _ _
  have hval : o1.filess.val copy = o.filess.val f := by
    rw [hfiless, hq]
    exact update_self _ _ _
  have hclosed := fdCloseAll_closed copy o1
  unfold filesPut
  dsimp only
  rw [if_pos hone]
  generalize fdCloseAll copy o1 = o2 at hclosed ⊢
  refine ⟨?_, fun k => ?_, fun k hk => ?_⟩
  · have hput : o2.filess.put {} copy = o1.filess.put {} copy := by
      rw [hclosed.own]
      simp only [Pool.put, Pool.set, hone, if_true, update_idem]
    rw [hput, hfiless]
    exact Pool.Same.put_new {} hnew
  · rw [hclosed.refs, hval, hofds]
    rfl
  · have hlt : namesIn (o1.filess.val copy) (List.finRange C.maxFds) k < o1.ofds.refs k := by
      rw [hval, hofds]
      exact hk
    rw [hclosed.val k hlt, hofds]
    rfl

theorem filesPut_copy_iff :
    (Pool.Same o.filess (filesPut (some copy) o1).filess ∧
      Pool.Same o.ofds (filesPut (some copy) o1).ofds) ↔ ¬ copyOverflows o f := by
  obtain ⟨hsame, hrefs, hval⟩ := filesPut_copy hnew hfiless hofds
  constructor
  · -- The count that left its 16 bits is zero once the copy is closed again.
    rintro ⟨-, hback⟩ ⟨k, hk, hfull⟩
    have hback := congrFun hback.refs k
    rw [hrefs, retained, if_pos (Or.inr hfull)] at hback
    omega
  intro hno
  have hfits : ∀ k, o.ofds.refs k ≠ 0 → retained (o.ofds.refs k) (names (o.filess.val f) k) =
        o.ofds.refs k + names (o.filess.val f) k := by
    intro k hk
    unfold retained
    rw [if_neg]
    rintro (hzero | hover)
    · exact hk hzero
    · exact hno ⟨k, hk, hover⟩
  refine ⟨hsame, ?_, fun k hk => ?_⟩
  · funext k
    rw [hrefs]
    by_cases hk : o.ofds.refs k = 0
    · rw [hk]
      simp [retained]
    · rw [hfits k hk]
      omega
  · apply hval
    rw [hfits k hk]
    omega

end

end Files

/-! ## Giving everything back -/

theorem filesPut_own (g : Option (Obj C)) (o : Own C) : filesPut g o =
    { o with filess := (filesPut g o).filess, ofds := (filesPut g o).ofds } := by
  cases g with
  | none => rfl
  | some f =>
    unfold filesPut
    dsimp only
    split
    · have hown := (fdCloseAll_closed f o).own
      rw [hown]
    · rfl

theorem procResourcesPut_pools (s : C.Slot) (o : Own C) {f i j : Option (Obj C)}
    (hf : o.files s = f) (hfs : o.fsContext s = i) (hsh : o.sighand s = j) :
    resourcePools (procResourcesPut s o) = ((filesPut f o).filess, (filesPut f o).ofds,
      (fsContextPut i o).fsContexts, (sighandPut j o).sighands) := by
  have hown := filesPut_own f o
  unfold procResourcesPut
  rw [hf, hfs, hsh]
  rw [hown]
  cases i <;> cases j <;> rfl

/-- A second release finds nothing to give back. -/
theorem procResourcesPut_again (s : C.Slot) (o : Own C) :
    resourcePools (procResourcesPut s (procResourcesPut s o)) =
      resourcePools (procResourcesPut s o) :=
  procResourcesPut_pools (f := none) (i := none) (j := none) s _ (update_self _ _ _)
    (update_self _ _ _) (update_self _ _ _)

def HoldsResources (o : Own C) (s : C.Slot) : Prop :=
  (o.files s).isSome ∧ (o.fsContext s).isSome ∧ (o.sighand s).isSome

theorem procResourcesPut_bare (s : C.Slot) (o : Own C) :
    ¬ HoldsResources (procResourcesPut s o) s := by
  intro h
  have hnone : (procResourcesPut s o).files s = none := update_self _ _ _
  have hsome := h.1
  rw [hnone] at hsome
  cases hsome

/-! ## The whole acquisition -/

/-- The filesystem context and the signal table, once the child has its descriptor table. -/
def forkContexts (child : C.Slot) (fs sh : Obj C) (flags : CloneFlags) (rc : Option Errno)
    (o : Own C) : Option Errno × Own C :=
  match shareOrNew flags.fs o.fsContexts fs (o.fsContexts.val fs) with
  | .error e => (e.or rc, procResourcesPut child o)
  | .ok (i, fsContexts) =>
    let o := { o with fsContexts := fsContexts, fsContext := update o.fsContext child (some i) }
    match shareOrNew flags.sighand o.sighands sh (o.sighands.val sh) with
    | .error e => (e.or rc, procResourcesPut child o)
    | .ok (i, sighands) =>
      (none, { o with sighands := sighands, sighand := update o.sighand child (some i) })

/-- Which of the two is refused first, and whether it was to be shared. -/
def firstRefusedShared (flags : CloneFlags) (fs sh : Obj C) (o : Own C) : Option Bool :=
  if ¬ obtainable flags.fs o.fsContexts fs then some flags.fs
  else if ¬ obtainable flags.sighand o.sighands sh then some flags.sighand
  else none

/-- The pools once the child has given back what it got, whether or not it got everything. -/
structure ContextsReleased (child : C.Slot) (f : Obj C) (o o' : Own C) : Prop where
  tables : ∃ o1 : Own C, o1.filess = o.filess ∧ o1.ofds = o.ofds ∧
    (procResourcesPut child o').filess = (filesPut (some f) o1).filess ∧
    (procResourcesPut child o').ofds = (filesPut (some f) o1).ofds
  fsContexts : Pool.Same o.fsContexts (procResourcesPut child o').fsContexts
  sighands : Pool.Same o.sighands (procResourcesPut child o').sighands

structure ContextsRefused (child : C.Slot) (f : Obj C) (shared : Bool) (rc : Option Errno)
    (o : Own C) (r : Option Errno × Own C) : Prop where
  result : r.1 = (if shared then none else some Errno.enomem).or rc
  bare : ¬ HoldsResources r.2 child
  tables : ∃ o1 : Own C, o1.filess = o.filess ∧ o1.ofds = o.ofds ∧
    r.2.filess = (filesPut (some f) o1).filess ∧ r.2.ofds = (filesPut (some f) o1).ofds
  fsContexts : Pool.Same o.fsContexts r.2.fsContexts
  sighands : Pool.Same o.sighands r.2.sighands

section Contexts

variable {child : C.Slot} {f fs sh : Obj C} {flags : CloneFlags} {o : Own C}

theorem ContextsReleased.of_holding {i j : Option (Obj C)} (hfiless : o1.filess = o.filess)
    (hofds : o1.ofds = o.ofds) (hf : o1.files child = some f) (hi : o1.fsContext child = i)
    (hj : o1.sighand child = j) (hfs : Pool.Same o.fsContexts (fsContextPut i o1).fsContexts)
    (hsh : Pool.Same o.sighands (sighandPut j o1).sighands) : ContextsReleased child f o o1 := by
  have hpools := procResourcesPut_pools child o1 hf hi hj
  simp only [resourcePools, Prod.mk.injEq] at hpools
  obtain ⟨hp1, hp2, hp3, hp4⟩ := hpools
  exact ⟨⟨o1, hfiless, hofds, hp1, hp2⟩, hp3.symm ▸ hfs, hp4.symm ▸ hsh⟩

theorem forkContexts_ok (rc : Option Errno) (hfiles : o.files child = some f)
    (hfs : o.fsContexts.refs fs ≠ 0)
    (hsh : o.sighands.refs sh ≠ 0) (h : firstRefusedShared flags fs sh o = none) :
    (forkContexts child fs sh flags rc o).1 = none ∧
      HoldsResources (forkContexts child fs sh flags rc o).2 child := by
  unfold firstRefusedShared at h
  split at h
  · cases h
  rename_i hobt
  split at h
  · cases h
  rename_i hobt'
  obtain ⟨i, q, hok, _⟩ := shareOrNew_obtains (o.fsContexts.val fs) (not_not.mp hobt) hfs
  obtain ⟨j, p, hok', _⟩ := shareOrNew_obtains (o.sighands.val sh) (not_not.mp hobt') hsh
  unfold forkContexts
  rw [hok]
  dsimp only
  rw [hok']
  refine ⟨rfl, ?_, ?_, ?_⟩
  · simp [hfiles]
  · simp
  · simp

theorem forkContexts_refused (rc : Option Errno) (hfiles : o.files child = some f)
    (hnofs : o.fsContext child = none)
    (hnosh : o.sighand child = none) (hfs : o.fsContexts.refs fs ≠ 0) {shared : Bool}
    (h : firstRefusedShared flags fs sh o = some shared) :
    ContextsRefused child f shared rc o (forkContexts child fs sh flags rc o) := by
  unfold firstRefusedShared at h
  split at h
  · rename_i hno
    obtain rfl := Option.some.inj h
    have hrel : ContextsReleased child f o o :=
      .of_holding rfl rfl hfiles hnofs hnosh (.refl _) (.refl _)
    unfold forkContexts
    rw [shareOrNew_error hno]
    exact ⟨rfl, procResourcesPut_bare child o, hrel.tables, hrel.fsContexts, hrel.sighands⟩
  rename_i hobt
  split at h
  · rename_i hno
    obtain rfl := Option.some.inj h
    obtain ⟨i, q, hok, hsame⟩ := shareOrNew_obtains (o.fsContexts.val fs) (not_not.mp hobt) hfs
    have hrel : ContextsReleased child f o
        { o with fsContexts := q, fsContext := update o.fsContext child (some i) } :=
      .of_holding rfl rfl hfiles (update_self _ _ _) hnosh (hsame {}) (.refl _)
    unfold forkContexts
    rw [hok]
    dsimp only
    rw [shareOrNew_error hno]
    exact ⟨rfl, procResourcesPut_bare child _, hrel.tables, hrel.fsContexts, hrel.sighands⟩
  · cases h

end Contexts

theorem procResourcesFork_eq (child : C.Slot) (flags : CloneFlags) {parent : C.Slot} {o : Own C}
    {f fs sh : Obj C} (hf : o.files parent = some f) (hfs : o.fsContext parent = some fs)
    (hsh : o.sighand parent = some sh) :
    procResourcesFork child parent flags o =
      match forkFiles child f flags { o with
        files := update o.files child none
        fsContext := update o.fsContext child none
        sighand := update o.sighand child none } with
      | (.error e, o) => (some e, procResourcesPut child o)
      | (.ok (), o) =>
        forkContexts child fs sh flags (if flags.files then some Errno.eagain else none) o := by
  unfold procResourcesFork
  rw [hf, hfs, hsh]
  rfl

/-- A child record that holds nothing yet, a parent whose objects are allocated, and description
counts of 16 bits. -/
structure ForkReadyResources (child parent : C.Slot) (o : Own C) : Prop where
  files_none : o.files child = none
  fsContext_none : o.fsContext child = none
  sighand_none : o.sighand child = none
  files : ∀ f, o.files parent = some f → o.filess.refs f ≠ 0
  fsContext : ∀ i, o.fsContext parent = some i → o.fsContexts.refs i ≠ 0
  sighand : ∀ i, o.sighand parent = some i → o.sighands.refs i ≠ 0
  words : ∀ k, o.ofds.refs k ≤ uint16Max

/-- Success is reported exactly when the child holds all three objects; on failure the pools are as
they were. -/
def ResourcesForked (child parent : C.Slot) (flags : CloneFlags) (o : Own C) : Prop :=
  ((procResourcesFork child parent flags o).1 = none ↔
      HoldsResources (procResourcesFork child parent flags o).2 child) ∧
    ((procResourcesFork child parent flags o).1 ≠ none →
      ResourcesKept o (procResourcesFork child parent flags o).2)

/-- After a copied descriptor table nothing is refused, or what is refused is an exhausted pool and
the copy has taken no count out of its 16 bits. -/
def refusalsNoticed (parent : C.Slot) (flags : CloneFlags) (o : Own C) : Prop :=
  ∀ f fs sh, o.files parent = some f → o.fsContext parent = some fs → o.sighand parent = some sh →
    flags.files = false → tableCopies o f →
    ∀ shared, firstRefusedShared flags fs sh o = some shared → shared = false ∧ ¬ copyOverflows o f

section Forked

variable {child parent : C.Slot} {flags : CloneFlags} {o : Own C} {f fs sh : Obj C}

section

variable (h : ForkReadyResources child parent o)
include h

theorem ForkReadyResources.cleared : ({ o with
      files := update o.files child none
      fsContext := update o.fsContext child none
      sighand := update o.sighand child none } : Own C) = o := by
  have h1 : update o.files child none = o.files := by rw [← h.files_none, update_eq_self]
  have h2 : update o.fsContext child none = o.fsContext := by
    rw [← h.fsContext_none, update_eq_self]
  have h3 : update o.sighand child none = o.sighand := by rw [← h.sighand_none, update_eq_self]
  rw [h1, h2, h3]

/-- The child has no table: nothing was taken. -/
theorem procResourcesPut_nothing (hq : Pool.Same o.filess q) :
    ResourcesKept o (procResourcesPut child { o with filess := q }) := by
  rw [ResourcesKept.congr rfl (procResourcesPut_pools child { o with filess := q } h.files_none
    h.fsContext_none h.sighand_none)]
  exact ⟨hq, .refl _, .refl _, .refl _⟩

theorem resourcesForked_of_error {e : Errno} (hq : Pool.Same o.filess q)
    (heq : procResourcesFork child parent flags o =
      (some e, procResourcesPut child { o with filess := q })) :
    ResourcesForked child parent flags o := by
  unfold ResourcesForked
  rw [heq]
  refine ⟨?_, fun _ => procResourcesPut_nothing h hq⟩
  constructor
  · intro hnone
    cases hnone
  · intro hholds
    exact absurd hholds (procResourcesPut_bare child _)

end

theorem filesPut_shared (hf : o.filess.refs f ≠ 0) (hfiless : o1.filess = o.filess.get f)
    (hofds : o1.ofds = o.ofds) : Pool.Same o.filess (filesPut (some f) o1).filess ∧
      Pool.Same o.ofds (filesPut (some f) o1).ofds := by
  have hcount : o1.filess.refs f = o.filess.refs f + 1 := by
    rw [hfiless]
    exact update_self _ _ _
  unfold filesPut
  dsimp only
  rw [if_neg (by omega), hfiless, hofds]
  exact ⟨Pool.Same.put_get {} hf, Pool.Same.refl _⟩

/-- What the release of the child's table makes of the tables and descriptions. -/
def tableReturned (o : Own C) (g : Obj C) (o1 : Own C) : Prop :=
  Pool.Same o.filess (filesPut (some g) o1).filess ∧ Pool.Same o.ofds (filesPut (some g) o1).ofds

/-- With a table `g` in the child's hands, the contexts are asked for. -/
structure TableTaken (child parent : C.Slot) (flags : CloneFlags) (fs sh g : Obj C)
    (rc : Option Errno) (o o1 : Own C) : Prop where
  eq : procResourcesFork child parent flags o = forkContexts child fs sh flags rc o1
  files : o1.files child = some g
  fsContext : o1.fsContext child = none
  sighand : o1.sighand child = none
  fsContexts : o1.fsContexts = o.fsContexts
  sighands : o1.sighands = o.sighands

/-- The three ways the descriptor table is dealt with. -/
inductive TableOutcome (child parent : C.Slot) (flags : CloneFlags) (f fs sh : Obj C)
    (o : Own C) : Prop where
  | refused {e : Errno} {q : Pool (Files C) C.npool} :
      (flags.files = false → ¬ tableCopies o f) → Pool.Same o.filess q →
      procResourcesFork child parent flags o =
        (some e, procResourcesPut child { o with filess := q }) →
      TableOutcome child parent flags f fs sh o
  | shared {o1 : Own C} :
      flags.files = true → TableTaken child parent flags fs sh f (some .eagain) o o1 →
      (∀ o2 : Own C, o2.filess = o1.filess → o2.ofds = o1.ofds → tableReturned o f o2) →
      TableOutcome child parent flags f fs sh o
  | copied {g : Obj C} {o1 : Own C} :
      flags.files = false → tableCopies o f → TableTaken child parent flags fs sh g none o o1 →
      (∀ o2 : Own C, o2.filess = o1.filess → o2.ofds = o1.ofds →
        (tableReturned o g o2 ↔ ¬ copyOverflows o f)) →
      TableOutcome child parent flags f fs sh o

theorem procResourcesFork_outcome (flags : CloneFlags) (h : ForkReadyResources child parent o)
    (hf : o.files parent = some f) (hfs : o.fsContext parent = some fs)
    (hsh : o.sighand parent = some sh) : TableOutcome child parent flags f fs sh o := by
  have heq := procResourcesFork_eq child flags hf hfs hsh
  rw [h.cleared] at heq
  unfold forkFiles at heq
  cases hflag : flags.files with
  | true =>
    rw [hflag] at heq
    by_cases hfull : o.filess.refs f = uint16Max
    · rw [if_pos hfull] at heq
      exact .refused (fun hno => by rw [hflag] at hno; cases hno) (Pool.Same.refl _) heq
    · rw [if_neg hfull] at heq
      refine .shared hflag ⟨heq, update_self _ _ _, h.fsContext_none, h.sighand_none, rfl, rfl⟩ ?_
      intro o2 hf2 hd2
      exact filesPut_shared (h.files f hf) hf2 hd2
  | false =>
    rw [hflag] at heq
    by_cases hcopies : tableCopies o f
    · obtain ⟨copy, q, hin, hnew⟩ := fdForkInherit_copied h.words hcopies
      rw [hin] at heq
      refine .copied hflag hcopies
        ⟨heq, update_self _ _ _, h.fsContext_none, h.sighand_none, rfl, rfl⟩ ?_
      intro o2 hf2 hd2
      exact filesPut_copy_iff hnew hf2 hd2
    · obtain ⟨e, q, hin, hq⟩ := fdForkInherit_refused hcopies
      rw [hin] at heq
      exact .refused (fun _ => hcopies) hq heq

theorem procResourcesFork_lacking (hall : ¬ HoldsResources o parent) :
    procResourcesFork child parent flags o = (some .einval, o) := by
  unfold procResourcesFork
  split
  · rename_i hf hfs hsh
    exact absurd ⟨by rw [hf]; rfl, by rw [hfs]; rfl, by rw [hsh]; rfl⟩ hall
  · rfl

/-- What is left to decide then is how a refusal is reported and whether the table can be given
back. -/
theorem TableTaken.forked_iff {rc : Option Errno} {g : Obj C}
    (h : TableTaken child parent flags fs sh g rc o o1) (gives : Prop)
    (hfs : o.fsContexts.refs fs ≠ 0) (hsh : o.sighands.refs sh ≠ 0)
    (hgives : ∀ o2 : Own C, o2.filess = o1.filess → o2.ofds = o1.ofds →
      (tableReturned o g o2 ↔ gives)) :
    ResourcesForked child parent flags o ↔
      ∀ shared, firstRefusedShared flags fs sh o = some shared →
        (rc ≠ none ∨ shared = false) ∧ gives := by
  have hfirst : firstRefusedShared flags fs sh o1 = firstRefusedShared flags fs sh o := by
    unfold firstRefusedShared
    rw [h.fsContexts, h.sighands]
  unfold ResourcesForked
  rw [h.eq]
  cases hcase : firstRefusedShared flags fs sh o with
  | none =>
    obtain ⟨hnone, hholds⟩ := forkContexts_ok rc h.files (by rw [h.fsContexts]; exact hfs)
      (by rw [h.sighands]; exact hsh) (hfirst.trans hcase)
    refine ⟨(fun _ shared hs => by cases hs), fun _ => ⟨⟨fun _ => hholds, fun _ => hnone⟩, ?_⟩⟩
    exact fun hne => absurd hnone hne
  | some shared =>
    obtain ⟨hresult, hbare, ⟨o2, hf2, hd2, hr1, hr2⟩, hkfs, hksh⟩ :=
      forkContexts_refused rc h.files h.fsContext h.sighand (by rw [h.fsContexts]; exact hfs)
        (hfirst.trans hcase)
    have hback := hgives o2 hf2 hd2
    rw [h.fsContexts] at hkfs
    rw [h.sighands] at hksh
    have hreport : (forkContexts child fs sh flags rc o1).1 ≠ none ↔
        rc ≠ none ∨ shared = false := by
      rw [hresult]
      cases shared <;> cases rc <;> simp
    constructor
    · rintro ⟨hiff, hkept⟩ shared' hs
      obtain rfl := Option.some.inj hs
      have hfail : (forkContexts child fs sh flags rc o1).1 ≠ none := fun hnone =>
        hbare (hiff.mp hnone)
      refine ⟨hreport.mp hfail, hback.mp ?_⟩
      unfold tableReturned
      rw [← hr1, ← hr2]
      exact ⟨(hkept hfail).filess, (hkept hfail).ofds⟩
    · intro hall
      obtain ⟨hrep, hgive⟩ := hall shared rfl
      have hfail := hreport.mpr hrep
      refine ⟨⟨fun hnone => absurd hnone hfail, fun hholds => absurd hholds hbare⟩, fun _ => ?_⟩
      obtain ⟨hs1, hs2⟩ := hback.mpr hgive
      rw [← hr1] at hs1
      rw [← hr2] at hs2
      exact ⟨hs1, hs2, hkfs, hksh⟩

theorem resourcesForked_of_lacking (h : ForkReadyResources child parent o)
    (hall : ¬ HoldsResources o parent) : ResourcesForked child parent flags o := by
  unfold ResourcesForked
  rw [procResourcesFork_lacking hall]
  refine ⟨⟨nofun, fun hholds => ?_⟩, fun _ => ?_⟩
  · have hsome := hholds.1
    rw [h.files_none] at hsome
    cases hsome
  · exact .refl o

/-- Sharing or copying a parent's resources is reported and undone as it should be exactly when the
refusals that follow a copied descriptor table are noticed. -/
theorem procResourcesFork_forked_iff (h : ForkReadyResources child parent o) :
    ResourcesForked child parent flags o ↔ refusalsNoticed parent flags o := by
  by_cases hall : HoldsResources o parent
  · obtain ⟨f, hf⟩ := isSome_iff_exists.mp hall.1
    obtain ⟨fs, hfs⟩ := isSome_iff_exists.mp hall.2.1
    obtain ⟨sh, hsh⟩ := isSome_iff_exists.mp hall.2.2
    have hnoticed : refusalsNoticed parent flags o ↔ (flags.files = false → tableCopies o f →
        ∀ shared, firstRefusedShared flags fs sh o = some shared →
          shared = false ∧ ¬ copyOverflows o f) := by
      constructor
      · intro hn
        exact hn f fs sh hf hfs hsh
      · intro hn f' fs' sh' hf' hfs' hsh'
        obtain rfl := Option.some.inj (hf.symm.trans hf')
        obtain rfl := Option.some.inj (hfs.symm.trans hfs')
        obtain rfl := Option.some.inj (hsh.symm.trans hsh')
        exact hn
    rw [hnoticed]
    cases procResourcesFork_outcome flags h hf hfs hsh with
    | refused hno hq heq =>
      have hforked := resourcesForked_of_error h hq heq
      exact ⟨fun _ hflag hcopies => absurd hcopies (hno hflag), fun _ => hforked⟩
    | shared hflag htaken hback =>
      have hforked := (htaken.forked_iff True (h.fsContext fs hfs) (h.sighand sh hsh)
        fun o2 hf2 hd2 => iff_true_intro (hback o2 hf2 hd2)).mpr
          fun shared _ => ⟨Or.inl (by simp), trivial⟩
      refine ⟨fun _ hno => ?_, fun _ => hforked⟩
      rw [hflag] at hno
      cases hno
    | copied hflag hcopies htaken hback =>
      rw [htaken.forked_iff _ (h.fsContext fs hfs) (h.sighand sh hsh) hback]
      simp [hflag, hcopies]
  · refine ⟨fun _ f fs sh hf hfs hsh => ?_, fun _ => resourcesForked_of_lacking h hall⟩
    exact absurd ⟨by rw [hf]; rfl, by rw [hfs]; rfl, by rw [hsh]; rfl⟩ hall

end Forked

/-! ## A shared context with a full count -/

/-- One process, in slot 0, whose filesystem context has `n` holders. -/
def contextHolders (n : Nat) : Own smallConfig :=
  { (resetRuntime smallConfig).own with
    files := update (fun _ => none) 0 (some 0)
    fsContext := update (fun _ => none) 0 (some 0)
    sighand := update (fun _ => none) 0 (some 0)
    filess := ⟨update (fun _ => 0) 0 1, fun _ => {}⟩
    fsContexts := ⟨update (fun _ => 0) 0 n, fun _ => {}⟩
    sighands := ⟨update (fun _ => 0) 0 1, fun _ => {}⟩ }

def shareFs : CloneFlags := { fs := true }

theorem contextHolders_ready {n : Nat} (hn : n ≠ 0) :
    ForkReadyResources 1 0 (contextHolders n) := by
  refine ⟨rfl, rfl, rfl, fun f hf => ?_, fun i hi => ?_, fun i hi => ?_, fun k => Nat.zero_le _⟩
  · obtain rfl : 0 = f := Option.some.inj hf
    exact Nat.one_ne_zero
  · obtain rfl : 0 = i := Option.some.inj hi
    exact hn
  · obtain rfl : 0 = i := Option.some.inj hi
    exact Nat.one_ne_zero

/-- Every signal table is taken, and the parent's descriptors name a description. -/
def fullSighands : Own smallConfig :=
  { contextHolders 1 with
    filess := ⟨update (fun _ => 0) 0 1, fun _ => ⟨fun _ => { ofd := some ⟨0, by decide⟩ }⟩⟩
    ofds := ⟨fun _ => 3, fun _ => {}⟩
    sighands := ⟨fun _ => 1, fun _ => {}⟩ }

/-- The child has a copied table and a context by then; the failure is reported and both are
undone. -/
theorem fullSighands_undone : (procResourcesFork 1 0 {} fullSighands).1 = some .enomem ∧
    ResourcesForked 1 0 {} fullSighands := by
  have hready : ForkReadyResources 1 0 fullSighands :=
    { contextHolders_ready Nat.one_ne_zero with
      sighand := fun _ _ => Nat.one_ne_zero
      words := fun _ => show 3 ≤ uint16Max by decide }
  refine ⟨by decide +kernel, (procResourcesFork_forked_iff hready).mpr ?_⟩
  intro f fs sh hf hfs hsh _ _ shared hrefused
  constructor
  · unfold firstRefusedShared at hrefused
    split_ifs at hrefused <;> exact (Option.some.inj hrefused).symm
  · rintro ⟨k, -, hover⟩
    have hnames := names_le (fullSighands.filess.val f) k
    change uint16Max < 3 + _ at hover
    simp only [uint16Max, smallConfig] at hover hnames
    omega

/-- Success is reported to a child without a filesystem context. -/
theorem contextHolders_full_not_forked : ForkReadyResources 1 0 (contextHolders uint16Max) ∧
      (procResourcesFork 1 0 shareFs (contextHolders uint16Max)).1 = none ∧
      (procResourcesFork 1 0 shareFs (contextHolders uint16Max)).2.fsContext 1 = none ∧
      ¬ ResourcesForked 1 0 shareFs (contextHolders uint16Max) := by
  have hrun : (procResourcesFork 1 0 shareFs (contextHolders uint16Max)).1 = none ∧
      (procResourcesFork 1 0 shareFs (contextHolders uint16Max)).2.fsContext 1 = none := by
    decide +kernel
  refine ⟨contextHolders_ready (by decide), hrun.1, hrun.2, fun hforked => ?_⟩
  have hholds := (hforked.1.mp hrun.1).2.1
  cases hholds

end Lxp
