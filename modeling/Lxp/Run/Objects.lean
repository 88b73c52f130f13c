import Lxp.Run.State

/-!
# Descriptor tables and process objects

The descriptor operations the coordinator uses and the reference-counted objects of a process:
descriptor table, filesystem context, signal table, address space and thread group.  `Own`
functions name an object by its pool index; those of a slot also clear or set the slot's column.
-/

open Function RefPool

namespace Lxp

variable {C : Config}

def uint16Max : Nat := 65535

def fdConsole : Nat := 1
def oRdwr : Nat := 2

/-! ## Descriptors -/

/-- A stale entry, whose description has no references left, is no descriptor. -/
def fdLookup (o : Own C) (f : Obj C) (fd : Fin C.maxFds) : Option (Fin C.nofd) :=
  match ((o.filess.val f).fd fd).ofd with
  | none => none
  | some k => if o.ofds.refs k = 0 then none else some k

def fdGetCloexec (o : Own C) (f : Obj C) (fd : Fin C.maxFds) : Bool :=
  (fdLookup o f fd).isSome && ((o.filess.val f).fd fd).cloexec

def setFd (o : Own C) (f : Obj C) (fd : Fin C.maxFds) (e : Fd C) : Own C :=
  { o with filess := o.filess.set f ⟨update (o.filess.val f).fd fd e⟩ }

def fdSetCloexec (o : Own C) (f : Obj C) (fd : Fin C.maxFds) (v : Bool) : Own C :=
  if (fdLookup o f fd).isNone then o
  else setFd o f fd { (o.filess.val f).fd fd with cloexec := v }

def fdClose (f : Obj C) (o : Own C) (fd : Fin C.maxFds) : Own C :=
  match fdLookup o f fd with
  | none => o
  | some k => { setFd o f fd {} with ofds := o.ofds.put {} k }

def fdCloseAll (f : Obj C) (o : Own C) : Own C := (List.finRange C.maxFds).foldl (fdClose f) o

def fdCloseOnExec (f : Obj C) (o : Own C) : Own C :=
  (List.finRange C.maxFds).foldl (fun o fd => if fdGetCloexec o f fd then fdClose f o fd else o) o

/-- The count is 16 bits wide and not checked here. -/
def fdRetain (f : Obj C) (o : Own C) (fd : Fin C.maxFds) : Own C :=
  match fdLookup o f fd with
  | none => o
  | some k => { o with ofds := { o.ofds with
      refs := update o.ofds.refs k ((o.ofds.refs k + 1) % (uint16Max + 1)) } }

def fdTableRetain (f : Obj C) (o : Own C) : Option (Own C) :=
  if (List.finRange C.maxFds).any fun fd =>
      match fdLookup o f fd with
      | none => false
      | some k => o.ofds.refs k == uint16Max then
    none
  else some ((List.finRange C.maxFds).foldl (fdRetain f) o)

def fdInstall (f : Obj C) (o : Own C) (kind : Nat) (backing : Int) (accmode : Nat) :
    Option (Fin C.maxFds × Own C) :=
  match o.ofds.new { kind := kind, accmode := accmode, fileIdx := backing } with
  | none => none
  | some (k, ofds) =>
    match (List.finRange C.maxFds).find? fun fd => ((o.filess.val f).fd fd).ofd == none with
    | none => none
    | some fd => some (fd, { setFd o f fd { ofd := some k } with ofds := ofds })

/-! ## Releasing objects -/

def filesPut (f : Option (Obj C)) (o : Own C) : Own C :=
  match f with
  | none => o
  | some f =>
    let o := if o.filess.refs f = 1 then fdCloseAll f o else o
    { o with filess := o.filess.put {} f }

def fsContextPut (f : Option (Obj C)) (o : Own C) : Own C :=
  match f with
  | none => o
  | some f => { o with fsContexts := o.fsContexts.put {} f }

def sighandPut (h : Option (Obj C)) (o : Own C) : Own C :=
  match h with
  | none => o
  | some h => { o with sighands := o.sighands.put {} h }

def mmPut (m : Option (Obj C)) (o : Own C) : Own C :=
  match m with
  | none => o
  | some m => { o with mms := o.mms.put {} m }

def groupPut (g : Option (Obj C)) (o : Own C) : Own C :=
  match g with
  | none => o
  | some g => { o with groups := o.groups.put {} g }

def procResourcesPut (s : C.Slot) (o : Own C) : Own C :=
  let o' := sighandPut (o.sighand s) (fsContextPut (o.fsContext s) (filesPut (o.files s) o))
  { o' with
    files := update o.files s none
    fsContext := update o.fsContext s none
    sighand := update o.sighand s none }

def procMmPut (s : C.Slot) (o : Own C) : Own C :=
  { mmPut (o.mm s) o with mm := update o.mm s none }

def procGroupPut (s : C.Slot) (o : Own C) : Own C :=
  { groupPut (o.group s) o with group := update o.group s none }

/-! ## Sharing and copying -/

-- `clone(2)` shares an object or gives the child one of its own.  A full count is left to the
-- caller to report.
def shareOrNew {α : Type} (share : Bool) (p : Pool α C.npool) (i : Obj C) (fresh : α) :
    Except (Option Errno) (Obj C × Pool α C.npool) :=
  if share then
    if p.refs i = uint16Max then .error none else .ok (i, p.get i)
  else
    match p.new fresh with
    | none => .error (some .enomem)
    | some r => .ok r

def fdForkInherit (f : Obj C) (o : Own C) : Except Errno (Obj C) × Own C :=
  match o.filess.new (o.filess.val f) with
  | none => (.error .enomem, o)
  | some (copy, filess) =>
    match fdTableRetain copy { o with filess := filess } with
    | some o => (.ok copy, o)
    | none => (.error .eagain, { o with filess := filess.put {} copy })

def procFilesUnshare (s : C.Slot) (o : Own C) : Option Errno × Own C :=
  match o.files s with
  | none => (some .einval, o)
  | some shared =>
    if o.filess.refs shared = 1 then (none, o)
    else
      match fdForkInherit shared o with
      | (.error e, o) => (some e, o)
      | (.ok copy, o) =>
        (none, { o with
          files := update o.files s (some copy)
          filess :=
            { o.filess with refs := update o.filess.refs shared (o.filess.refs shared - 1) } })

def forkFiles (child : C.Slot) (f : Obj C) (flags : CloneFlags) (o : Own C) :
    Except Errno Unit × Own C :=
  if flags.files then
    if o.filess.refs f = uint16Max then (.error .eagain, o)
    else (.ok (), { o with filess := o.filess.get f, files := update o.files child (some f) })
  else
    match fdForkInherit f o with
    | (.error e, o) => (.error e, o)
    | (.ok copy, o) => (.ok (), { o with files := update o.files child (some copy) })

def procResourcesFork (child parent : C.Slot) (flags : CloneFlags) (o : Own C) :
    Option Errno × Own C :=
  match o.files parent, o.fsContext parent, o.sighand parent with
  | some f, some fs, some sh =>
    let o := { o with
      files := update o.files child none
      fsContext := update o.fsContext child none
      sighand := update o.sighand child none }
    match forkFiles child f flags o with
    | (.error e, o) => (some e, procResourcesPut child o)
    | (.ok (), o) =>
      -- What `rc` holds from here on: a copied table has overwritten the initial error with 0.
      let rc := if flags.files then some Errno.eagain else none
      match shareOrNew flags.fs o.fsContexts fs (o.fsContexts.val fs) with
      | .error e => (e.or rc, procResourcesPut child o)
      | .ok (i, fsContexts) =>
        let o := { o with fsContexts := fsContexts, fsContext := update o.fsContext child (some i) }
        match shareOrNew flags.sighand o.sighands sh (o.sighands.val sh) with
        | .error e => (e.or rc, procResourcesPut child o)
        | .ok (i, sighands) =>
          (none, { o with sighands := sighands, sighand := update o.sighand child (some i) })
  | _, _, _ => (some .einval, o)

def procMmFork (child parent : C.Slot) (flags : CloneFlags) (o : Own C) : Option Errno × Own C :=
  match o.mm parent with
  | none => (some .einval, o)
  | some m =>
    let o := { o with mm := update o.mm child none }
    match shareOrNew flags.vm o.mms m (o.mms.val m) with
    | .error e => (e.or (some .eagain), o)
    | .ok (i, mms) => (none, { o with mms := mms, mm := update o.mm child (some i) })

def procGroupFork (child parent : C.Slot) (flags : CloneFlags) (childPid : Nat) (o : Own C) :
    Option Errno × Own C :=
  match o.group parent with
  | none => (some .einval, o)
  | some g =>
    let o := { o with group := update o.group child none }
    let parentGroup := o.groups.val g
    match shareOrNew flags.thread o.groups g
        { tgid := childPid, ppid := parentGroup.tgid, pgid := parentGroup.pgid } with
    | .error e => (e.or (some .eagain), o)
    | .ok (i, groups) => (none, { o with groups := groups, group := update o.group child (some i) })

/-- What a child keeps of its parent's record; everything else starts from zero. -/
def procChildReset (child : C.Slot) (o : Own C) : Own C :=
  { o with
    alive := update o.alive child false
    pid := update o.pid child 0
    mm := update o.mm child none
    files := update o.files child none
    fsContext := update o.fsContext child none
    sighand := update o.sighand child none
    group := update o.group child none
    vforkParent := update o.vforkParent child none
    snapshot := update o.snapshot child none
    execFileIdx := update o.execFileIdx child 0
    stackLo := update o.stackLo child 0 }

def procChildCopyValues (child parent : C.Slot) (childPid : Nat) (o : Own C) : Own C :=
  { procChildReset child o with
    pid := update o.pid child childPid
    execFileIdx := update o.execFileIdx child (o.execFileIdx parent)
    stackLo := update o.stackLo child (o.stackLo parent) }

def procChildDiscard (child : C.Slot) (o : Own C) : Own C :=
  procChildReset child (procGroupPut child (procMmPut child (procResourcesPut child o)))

def cloneFlagsValid (flags : CloneFlags) : Bool :=
  (!flags.sighand || flags.vm) && (!flags.thread || (flags.vm && flags.sighand))

def initChildValid (child parent : C.Slot) (flags : CloneFlags) (childPid : Nat)
    (o : Own C) : Bool :=
  child != parent && childPid != 0 && (o.mm parent).isSome && (o.files parent).isSome &&
    (o.fsContext parent).isSome && (o.sighand parent).isSome && (o.group parent).isSome &&
    cloneFlagsValid flags

/-- The object part of `proc_init_child`.  A failure discards what the child already holds. -/
def procInitChild (child parent : C.Slot) (flags : CloneFlags) (childPid : Nat) (o : Own C) :
    Option Errno × Own C :=
  let o := procChildCopyValues child parent childPid o
  match procMmFork child parent flags o with
  | (some e, o) => (some e, procChildDiscard child o)
  | (none, o) =>
    match procResourcesFork child parent flags o with
    | (some e, o) => (some e, procChildDiscard child o)
    | (none, o) =>
      match procGroupFork child parent flags childPid o with
      | (some e, o) => (some e, procChildDiscard child o)
      | (none, o) => (none, o)

/-! ## A process built off its slot -/

structure ImageProc (C : Config) where
  mm : Option (Obj C) := none
  files : Option (Obj C) := none
  fsContext : Option (Obj C) := none
  sighand : Option (Obj C) := none
  group : Option (Obj C) := none

def imageResourcesPut (p : ImageProc C) (o : Own C) : Own C :=
  sighandPut p.sighand (fsContextPut p.fsContext (filesPut p.files o))

def imagePut (p : ImageProc C) (o : Own C) : Own C :=
  groupPut p.group (mmPut p.mm (imageResourcesPut p o))

/-- An exhausted pool leaves a null pointer. -/
def allocFrom {α : Type} (pool : Own C → Pool α C.npool)
    (store : Own C → Pool α C.npool → Own C) (fresh : α) (o : Own C) : Option (Obj C) × Own C :=
  match (pool o).new fresh with
  | none => (none, o)
  | some (i, p) => (some i, store o p)

/-- The five pools in the order of `lxp_proc_init`. -/
def imageAlloc (o : Own C) : ImageProc C × Own C :=
  let (m, o) := allocFrom Own.mms (fun o p => { o with mms := p }) {} o
  let (g, o) := allocFrom Own.groups (fun o p => { o with groups := p }) {} o
  let (f, o) := allocFrom Own.filess (fun o p => { o with filess := p }) {} o
  let (c, o) := allocFrom Own.fsContexts (fun o p => { o with fsContexts := p })
    { umask := 18, cwd := [47] } o
  let (h, o) := allocFrom Own.sighands (fun o p => { o with sighands := p }) {} o
  ({ mm := m, files := f, fsContext := c, sighand := h, group := g }, o)

def installConsole (f : Obj C) (o : Own C) : Bool × Own C :=
  match fdInstall f o fdConsole 0 oRdwr with
  | none => (false, o)
  | some (fd0, o) =>
    match fdInstall f o fdConsole 1 oRdwr with
    | none => (false, o)
    | some (fd1, o) =>
      match fdInstall f o fdConsole 1 oRdwr with
      | none => (false, o)
      | some (fd2, o) => (fd0.val == 0 && fd1.val == 1 && fd2.val == 2, o)

-- `brk` is whether the program break could be carved from the arena.
def procInit (brk : Bool) (o : Own C) : Option (ImageProc C) × Own C :=
  let (p, o) := imageAlloc o
  match p.mm, p.group, p.files, p.fsContext, p.sighand with
  | some _, some g, some f, some _, some _ =>
    let o := { o with groups := o.groups.set g { tgid := 1, pgid := 1 } }
    match installConsole f o with
    | (false, o) => (none, imagePut p o)
    | (true, o) => if brk then (some p, o) else (none, imagePut p o)
  | _, _, _, _, _ => (none, imagePut p o)

def Taken {α : Type} (pool : Pool α C.npool) (fresh : α) (i : Option (Obj C))
    (left : Pool α C.npool) : Prop :=
  match i with
  | none => left = pool
  | some i => pool.new fresh = some (i, left)

theorem allocFrom_eq {α : Type} (pool : Own C → Pool α C.npool)
    (store : Own C → Pool α C.npool → Own C) (fresh : α) (o : Own C)
    (hstore : store o (pool o) = o) :
    ∃ i left, allocFrom pool store fresh o = (i, store o left) ∧ Taken (pool o) fresh i left := by
  unfold allocFrom
  split
  · exact ⟨none, pool o, by rw [hstore], rfl⟩
  · rename_i i left hnew
    exact ⟨some i, left, rfl, hnew⟩

/-- The new objects come from five pools; nothing else changes. -/
theorem imageAlloc_eq (o : Own C) : ∃ m mms g groups f filess c contexts h sighands,
    imageAlloc o = ({ mm := m, files := f, fsContext := c, sighand := h, group := g }, { o with
        mms := mms, groups := groups, filess := filess, fsContexts := contexts
        sighands := sighands }) ∧
      Taken o.mms {} m mms ∧ Taken o.groups {} g groups := by
  unfold imageAlloc
  obtain ⟨m, mms, hm, hmms⟩ := allocFrom_eq Own.mms (fun o p => { o with mms := p }) {} o rfl
  rw [hm]
  dsimp only
  obtain ⟨g, groups, hg, hgroups⟩ := allocFrom_eq Own.groups (fun o p => { o with groups := p }) {}
    { o with mms := mms } rfl
  rw [hg]
  obtain ⟨f, filess, hf, _⟩ := allocFrom_eq Own.filess (fun o p => { o with filess := p }) {}
    { o with mms := mms, groups := groups } rfl
  rw [hf]
  obtain ⟨c, contexts, hc, _⟩ := allocFrom_eq Own.fsContexts
    (fun o p => { o with fsContexts := p }) { umask := 18, cwd := [47] }
    { o with mms := mms, groups := groups, filess := filess } rfl
  rw [hc]
  obtain ⟨h, sighands, hh, _⟩ := allocFrom_eq Own.sighands (fun o p => { o with sighands := p }) {}
    { o with mms := mms, groups := groups, filess := filess, fsContexts := contexts } rfl
  rw [hh]
  exact ⟨m, mms, g, groups, f, filess, c, contexts, h, sighands, rfl, hmms, hgroups⟩

/-! ## What the resource operations leave alone -/

/-- Descriptor tables, descriptions, filesystem contexts and signal tables may change, and the
slots' pointers to them; everything else of `Own` is kept. -/
def ResourcesOnly (o o' : Own C) : Prop :=
  o' = { o with
    files := o'.files
    fsContext := o'.fsContext
    sighand := o'.sighand
    filess := o'.filess
    fsContexts := o'.fsContexts
    sighands := o'.sighands
    ofds := o'.ofds }

namespace ResourcesOnly

variable {o o' o'' : Own C}

theorem refl (o : Own C) : ResourcesOnly o o := rfl

theorem trans (h : ResourcesOnly o o') (h' : ResourcesOnly o' o'') : ResourcesOnly o o'' := by
  unfold ResourcesOnly at *
  rw [h'] at *
  rw [h]

end ResourcesOnly

/-- Of the slots' pointers only those of `s` may change. -/
structure ResourcesAt (s : C.Slot) (o o' : Own C) : Prop where
  only : ResourcesOnly o o'
  others : ∀ t, t ≠ s →
    (o'.files t, o'.fsContext t, o'.sighand t) = (o.files t, o.fsContext t, o.sighand t)

namespace ResourcesAt

variable {s : C.Slot} {o o' o'' : Own C}

theorem refl (s : C.Slot) (o : Own C) : ResourcesAt s o o := ⟨rfl, fun _ _ => rfl⟩

theorem trans (h : ResourcesAt s o o') (h' : ResourcesAt s o' o'') : ResourcesAt s o o'' :=
  ⟨h.only.trans h'.only, fun t ht => (h'.others t ht).trans (h.others t ht)⟩

end ResourcesAt

theorem fdClose_only (f : Obj C) (o : Own C) (fd : Fin C.maxFds) :
    ResourcesOnly o (fdClose f o fd) := by
  unfold fdClose
  split <;> rfl

theorem fdCloseOnExec_only (f : Obj C) (o : Own C) : ResourcesOnly o (fdCloseOnExec f o) := by
  refine List.foldlRecOn _ _ (.refl o) fun o' h fd _ => h.trans ?_
  split
  · exact fdClose_only f o' fd
  · exact .refl o'

theorem fdTableRetain_at (s : C.Slot) {f : Obj C} {o o' : Own C}
    (h : fdTableRetain f o = some o') : ResourcesAt s o o' := by
  unfold fdTableRetain at h
  split at h
  · cases h
  injection h with h
  subst h
  refine List.foldlRecOn _ _ (.refl s o) fun o' h fd _ => h.trans ?_
  unfold fdRetain
  split <;> exact ⟨rfl, fun _ _ => rfl⟩

theorem fdInstall_only {f : Obj C} {o o' : Own C} {kind accmode : Nat} {backing : Int}
    {fd : Fin C.maxFds} (h : fdInstall f o kind backing accmode = some (fd, o')) :
    ResourcesOnly o o' := by
  unfold fdInstall at h
  split at h
  · cases h
  split at h
  · cases h
  · injection h with h
    injection h with _ h
    subst h
    rfl

theorem filesPut_only (f : Option (Obj C)) (o : Own C) : ResourcesOnly o (filesPut f o) := by
  unfold filesPut
  split
  · exact .refl o
  · split
    · refine .trans (List.foldlRecOn _ _ (.refl o) fun o' h fd _ => ?_) rfl
      exact h.trans (fdClose_only _ o' fd)
    · rfl

theorem fsContextPut_only (f : Option (Obj C)) (o : Own C) :
    ResourcesOnly o (fsContextPut f o) := by
  cases f <;> rfl

theorem sighandPut_only (h : Option (Obj C)) (o : Own C) : ResourcesOnly o (sighandPut h o) := by
  cases h <;> rfl

theorem imageResourcesPut_only (p : ImageProc C) (o : Own C) :
    ResourcesOnly o (imageResourcesPut p o) :=
  ((filesPut_only _ o).trans (fsContextPut_only _ _)).trans (sighandPut_only _ _)

theorem procResourcesPut_only (s : C.Slot) (o : Own C) : ResourcesOnly o (procResourcesPut s o) :=
  (((filesPut_only _ o).trans (fsContextPut_only _ _)).trans (sighandPut_only _ _)).trans rfl

theorem procResourcesPut_at (s : C.Slot) (o : Own C) : ResourcesAt s o (procResourcesPut s o) :=
  ⟨procResourcesPut_only s o, fun t ht => by simp only [procResourcesPut, update_of_ne ht]⟩

theorem fdForkInherit_at (s : C.Slot) (f : Obj C) (o : Own C) :
    ResourcesAt s o (fdForkInherit f o).2 := by
  unfold fdForkInherit
  split
  · exact .refl s o
  split
  · rename_i hretain
    refine .trans ?_ (fdTableRetain_at s hretain)
    exact ⟨rfl, fun _ _ => rfl⟩
  · exact ⟨rfl, fun _ _ => rfl⟩

theorem procFilesUnshare_only (s : C.Slot) (o : Own C) :
    ResourcesOnly o (procFilesUnshare s o).2 := by
  unfold procFilesUnshare
  split
  · exact .refl o
  split
  · exact .refl o
  rename_i f _ _
  have hin := (fdForkInherit_at s f o).only
  generalize fdForkInherit f o = r at hin ⊢
  obtain ⟨_ | _, o1⟩ := r
  · exact hin
  · exact hin.trans rfl

theorem forkFiles_at (child : C.Slot) (f : Obj C) (flags : CloneFlags) (o : Own C) :
    ResourcesAt child o (forkFiles child f flags o).2 := by
  have hfiles : ∀ (o : Own C) filess i, ResourcesAt child o
      { o with filess := filess, files := update o.files child i } :=
    fun _ _ _ => ⟨rfl, fun t ht => by simp only [update_of_ne ht]⟩
  unfold forkFiles
  split
  · split
    · exact .refl child o
    · exact hfiles o _ _
  have hin := fdForkInherit_at child f o
  generalize fdForkInherit f o = r at hin ⊢
  obtain ⟨_ | _, o1⟩ := r
  · exact hin
  · exact hin.trans (hfiles o1 _ _)

theorem procResourcesFork_at (child parent : C.Slot) (flags : CloneFlags) (o : Own C) :
    ResourcesAt child o (procResourcesFork child parent flags o).2 := by
  unfold procResourcesFork
  split
  · rename_i f fs sh _ _ _
    have hfiles : ResourcesAt child o (forkFiles child f flags { o with
        files := update o.files child none
        fsContext := update o.fsContext child none
        sighand := update o.sighand child none }).2 := by
      refine .trans ?_ (forkFiles_at child f flags _)
      exact ⟨rfl, fun t ht => by simp only [update_of_ne ht]⟩
    dsimp only
    generalize forkFiles child f flags _ = r at hfiles ⊢
    obtain ⟨_ | _, o1⟩ := r
    · exact hfiles.trans (procResourcesPut_at child o1)
    dsimp only
    split
    · exact hfiles.trans (procResourcesPut_at child o1)
    rename_i i fsContexts _
    have hcontext : ResourcesAt child o1 { o1 with
        fsContexts := fsContexts, fsContext := update o1.fsContext child (some i) } :=
      ⟨rfl, fun t ht => by simp only [update_of_ne ht]⟩
    split
    · exact (hfiles.trans hcontext).trans (procResourcesPut_at child _)
    · refine (hfiles.trans hcontext).trans ?_
      exact ⟨rfl, fun t ht => by simp only [update_of_ne ht]⟩
  · exact .refl child o

theorem installConsole_only (f : Obj C) (o : Own C) : ResourcesOnly o (installConsole f o).2 := by
  unfold installConsole
  split
  · exact .refl o
  rename_i h0
  split
  · exact fdInstall_only h0
  rename_i h1
  split
  · exact (fdInstall_only h0).trans (fdInstall_only h1)
  · rename_i h2
    exact ((fdInstall_only h0).trans (fdInstall_only h1)).trans (fdInstall_only h2)

end Lxp
