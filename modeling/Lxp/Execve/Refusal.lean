import Lxp.Run.Execve
import Lxp.Run.Step

/-!
# What a refused execve leaves behind

`callerView` is what a program can see of its own descriptors, working directory, signal state and
current image.  An execve that returns an error has been refused by the system call, by the retry
that takes a fetched image, or by the coordinator before its commit; other tasks may run in between,
so between these stages the runtime may change in everything but the caller's view.
-/

open Function RefPool List Option

namespace Lxp

variable {C : Config}
variable {s : C.Slot} {rt rt' : Runtime C} {e : Errno}
variable {o : Own C} {image : Except Errno FileImage} {f : Obj C}

/-! ## The caller's view -/

structure CallerView (C : Config) where
  files : Option (Obj C)
  sharers : Nat
  fd : Fin C.maxFds → Option (Fin C.nofd × Ofd)
  cloexec : Fin C.maxFds → Bool
  execFileIdx : Int
  fsContext : Option FsContext
  sighand : Option Sighand
  sig : SigState
  frames : List (Finset Nat)

def callerView (s : C.Slot) (rt : Runtime C) : CallerView C :=
  let o := rt.own
  { files := o.files s
    sharers := ((o.files s).map o.filess.refs).getD 0
    fd := fun fd => (o.files s).bind fun f => (fdLookup o f fd).map fun k => (k, o.ofds.val k)
    cloexec := fun fd => (o.files s).any fun f => fdGetCloexec o f fd
    execFileIdx := o.execFileIdx s
    fsContext := (o.fsContext s).map o.fsContexts.val
    sighand := (o.sighand s).map o.sighands.val
    sig := rt.sig.st s
    frames := rt.sig.frames s }

theorem callerView_congr (s : C.Slot) (hown : rt'.own = rt.own) (hsig : rt'.sig = rt.sig) :
    callerView s rt' = callerView s rt := by
  unfold callerView
  rw [hown, hsig]

/-! ## Refusals -/

/-- The error the coordinator resumes the caller with before its commit, if it does. -/
def execRefusal (s : C.Slot) (rt : Runtime C) : Option Errno :=
  match parkSlot s rt with
  | (false, _) => none
  | (true, rt) =>
    let rt := intentClear s rt
    let tx := execTxnInit s rt.own
    let (image, remote) := execImage tx.imageIndex rt
    match execTxnValidateImage tx image remote with
    | (some e, _) => some e
    | (none, tx) =>
      match execTxnReserve tx rt with
      | (some e, tx, _) => if tx.terminal then none else some e
      | (none, _, _) => none

/-- A call that has left its exec intent for the coordinator. -/
inductive ExecPending (s : C.Slot) (q : ExecRequest) (rt : Runtime C) : Runtime C → Prop where
  | called {image : FileImage} {idx : Int} {rt1 : Runtime C} :
      execTarget s q rt.own = .ok (some (image, idx)) → sysExecve s q rt = (none, rt1) →
      ExecPending s q rt rt1
  | fetched {rt1 rt2 rt3 : Runtime C} {image : Except Errno FileImage} :
      execTarget s q rt.own = .ok none → sysExecve s q rt = (none, rt1) →
      callerView s rt2 = callerView s rt1 → netfsExecRetry s image rt2 = (none, rt3) →
      ExecPending s q rt rt3

inductive RefusedBy where
  | syscall
  | fetch
  | coordinator
deriving DecidableEq

/-- The call returns the error to its program, which then runs on in the given runtime. -/
inductive ExecveReturns (s : C.Slot) (q : ExecRequest) (rt : Runtime C) :
    RefusedBy → Errno → Runtime C → Prop where
  | syscall {e : Errno} {rt' : Runtime C} :
      sysExecve s q rt = (some e, rt') → ExecveReturns s q rt .syscall e rt'
  | fetch {e : Errno} {rt1 rt2 rt' : Runtime C} {image : Except Errno FileImage} :
      execTarget s q rt.own = .ok none → sysExecve s q rt = (none, rt1) →
      callerView s rt2 = callerView s rt1 → netfsExecRetry s image rt2 = (some e, rt') →
      ExecveReturns s q rt .fetch e rt'
  | coordinator {e : Errno} {rt1 rt2 : Runtime C} {l : LoadResult} :
      ExecPending s q rt rt1 → callerView s rt2 = callerView s rt1 → execRefusal s rt2 = some e →
      ExecveReturns s q rt .coordinator e (handleExec s l rt2)

/-- The descriptor table is the caller's own and has no close-on-exec entry. -/
def descriptorsReady (s : C.Slot) (o : Own C) : Prop :=
  ∃ f, o.files s = some f ∧ o.filess.refs f = 1 ∧ ∀ fd, fdGetCloexec o f fd = false

/-- When a refused call has changed nothing its caller can see. -/
def execveKeepsCaller (s : C.Slot) (q : ExecRequest) (rt : Runtime C) (r : RefusedBy) : Prop :=
  match execTarget s q rt.own with
  | .error _ => True
  | .ok none => r = .coordinator → rt.own.execFileIdx s = execStaged
  | .ok (some (image, idx)) =>
    (idx < 0 ∧ (execStageCopy s image rt).1 ≠ none) ∨ (procFilesUnshare s rt.own).1 ≠ none ∨
      (descriptorsReady s rt.own ∧ rt.own.execFileIdx s = if idx < 0 then execStaged else idx)

/-! ## Descriptors -/

theorem fdGetCloexec_of_fdClose {x fd : Fin C.maxFds}
    (h : fdGetCloexec (fdClose f o x) f fd = true) : fdGetCloexec o f fd = true := by
  unfold fdClose at h
  split at h
  · exact h
  rename_i k hk
  by_cases hfd : fd = x
  · subst hfd
    simp [fdGetCloexec, setFd, Pool.set] at h
  have hentry : ((setFd o f x {}).filess.val f).fd fd = (o.filess.val f).fd fd := by
    simp [setFd, Pool.set, hfd]
  simp only [fdGetCloexec, fdLookup, hentry, Bool.and_eq_true] at h ⊢
  refine ⟨?_, h.2⟩
  revert h
  cases ((o.filess.val f).fd fd).ofd with
  | none => simp
  | some j =>
    intro h
    have hrefs : (o.ofds.put {} k).refs j ≠ 0 := by
      intro h0
      simp [h0] at h
    have : o.ofds.refs j ≠ 0 := by
      intro h0
      rw [Pool.put_refs] at hrefs
      by_cases hj : j = k
      · subst hj
        simp [h0] at hrefs
      · simp [hj, h0] at hrefs
    simp [this]

theorem fdClose_clears (f : Obj C) (o : Own C) (fd : Fin C.maxFds) :
    fdGetCloexec (fdClose f o fd) f fd = false := by
  unfold fdClose
  split
  · rename_i hnone
    simp [fdGetCloexec, hnone]
  · simp [fdGetCloexec, setFd, Pool.set]

theorem fdCloseOnExec_clears (f : Obj C) (o : Own C) (fd : Fin C.maxFds) :
    fdGetCloexec (fdCloseOnExec f o) f fd = false := by
  suffices h : ∀ (l : List (Fin C.maxFds)) (o : Own C), fd ∈ l ∨ fdGetCloexec o f fd = false →
      fdGetCloexec (l.foldl (fun o fd => if fdGetCloexec o f fd then fdClose f o fd else o) o) f fd
        = false from h _ o (.inl (mem_finRange fd))
  intro l
  induction l with
  | nil => exact fun o h => h.resolve_left (not_mem_nil)
  | cons x l ih =>
    intro o h
    refine ih _ ?_
    by_cases hfd : fd = x
    · subst hfd
      refine .inr ?_
      dsimp only
      split
      · exact fdClose_clears f o fd
      · rename_i hno
        exact Bool.eq_false_iff.mpr hno
    · refine h.imp (fun hm => (mem_cons.mp hm).resolve_left hfd) fun hno => ?_
      dsimp only
      split
      · exact Bool.eq_false_iff.mpr fun hyes => by
          rw [fdGetCloexec_of_fdClose hyes] at hno
          cases hno
      · exact hno

theorem fdCloseOnExec_eq_self (h : ∀ fd, fdGetCloexec o f fd = false) : fdCloseOnExec f o = o := by
  unfold fdCloseOnExec
  induction List.finRange C.maxFds with
  | nil => rfl
  | cons x l ih =>
    rw [foldl_cons, h x]
    exact ih

/-! ## The steps of the call -/

theorem execStageClaim_own (s : C.Slot) (rt : Runtime C) :
    (execStageClaim s rt).2.own = rt.own ∧ (execStageClaim s rt).2.sig = rt.sig := by
  unfold execStageClaim
  split
  · exact ⟨rfl, rfl⟩
  · split <;> exact ⟨rfl, rfl⟩

theorem execStagePublish_own (s : C.Slot) (image : FileImage) (rt : Runtime C) :
    (execStagePublish s image rt).own = rt.own ∧ (execStagePublish s image rt).sig = rt.sig := by
  unfold execStagePublish
  split <;> exact ⟨rfl, rfl⟩

theorem execStageCopy_own (s : C.Slot) (image : FileImage) (rt : Runtime C) :
    (execStageCopy s image rt).2.own = rt.own ∧ (execStageCopy s image rt).2.sig = rt.sig := by
  unfold execStageCopy
  split
  · exact ⟨rfl, rfl⟩
  have hclaim := execStageClaim_own s rt
  generalize execStageClaim s rt = r at hclaim ⊢
  obtain ⟨_ | e, rt1⟩ := r
  · dsimp only
    split
    · exact hclaim
    · have hpub := execStagePublish_own s image rt1
      exact ⟨hpub.1.trans hclaim.1, hpub.2.trans hclaim.2⟩
  · exact hclaim

theorem intentBegin_own {i : Intent} (h : intentBegin s i rt = some rt') :
    rt'.own = rt.own ∧ rt'.sig = rt.sig := by
  unfold intentBegin at h
  split at h
  · injection h with h
    rw [← h]
    exact ⟨rfl, rfl⟩
  · cases h

theorem waitBegin_own {w : Wait} (h : waitBegin s w rt = some rt') :
    rt'.own = rt.own ∧ rt'.sig = rt.sig := by
  unfold waitBegin at h
  split at h
  · injection h with h
    rw [← h]
    exact ⟨rfl, rfl⟩
  · cases h

theorem netfsExecFetch_own (s : C.Slot) (queued : Bool) (rt : Runtime C) :
    (netfsExecFetch s queued rt).2.own = rt.own ∧ (netfsExecFetch s queued rt).2.sig = rt.sig := by
  unfold netfsExecFetch
  have hclaim := execStageClaim_own s rt
  generalize execStageClaim s rt = r at hclaim ⊢
  obtain ⟨_ | e, rt1⟩ := r
  · dsimp only
    split
    · split
      · exact hclaim
      · rename_i hwait
        have := waitBegin_own hwait
        exact ⟨this.1.trans hclaim.1, this.2.trans hclaim.2⟩
    · exact hclaim
  · exact hclaim

/-- A finished fetch changes nothing the caller sees until its exec intent is published. -/
theorem netfsExecRetry_own {e : Option Errno} (h : netfsExecRetry s image rt = (e, rt')) :
    rt'.sig = rt.sig ∧ rt'.own = if e = none then
      { rt.own with execFileIdx := update rt.own.execFileIdx s execStaged } else rt.own := by
  unfold netfsExecRetry at h
  cases image with
  | error e' =>
    cases h
    exact ⟨rfl, rfl⟩
  | ok image =>
    dsimp only at h
    split at h
    · cases h
      exact ⟨rfl, rfl⟩
    have hpub := execStagePublish_own s image (waitFinish s rt)
    split at h
    · cases h
      exact ⟨hpub.2, hpub.1⟩
    rename_i hintent
    have hown := intentBegin_own hintent
    cases h
    refine ⟨hown.2.trans hpub.2, ?_⟩
    simp only [hown.1, hpub.1]
    rfl

variable {o' : Own C} {idx : Int} {q : ExecRequest} {tx : ExecTxn C}

theorem execPrepareCaller_own (idx : Int) (h : procFilesUnshare s rt.own = (none, o)) :
    (execPrepareCaller s idx rt).2.sig = rt.sig ∧ (execPrepareCaller s idx rt).2.own =
      { closeOnExec s o with execFileIdx := update (closeOnExec s o).execFileIdx s idx } := by
  unfold execPrepareCaller
  rw [h]
  dsimp only
  split
  · exact ⟨rfl, rfl⟩
  · rename_i hintent
    have hown := intentBegin_own hintent
    exact ⟨hown.2, hown.1⟩

/-! ## Unsharing the descriptor table -/

theorem fdForkInherit_copy {copy : Obj C} (hf : o.filess.refs f ≠ 0)
    (h : fdForkInherit f o = (.ok copy, o')) : copy ≠ f := by
  unfold fdForkInherit at h
  split at h
  · cases h
  rename_i hnew
  have hfree := (Pool.new_eq hnew).1
  split at h
  · cases h
    rintro rfl
    exact hf hfree
  · cases h

theorem fdForkInherit_error (hf : o.filess.refs f ≠ 0) (h : fdForkInherit f o = (.error e, o')) :
    o' = { o with filess := o'.filess } ∧ o'.filess.refs f = o.filess.refs f ∧
      o'.filess.val f = o.filess.val f := by
  unfold fdForkInherit at h
  split at h
  · cases h
    exact ⟨rfl, rfl, rfl⟩
  rename_i copy filess hnew
  obtain ⟨hfree, hpool⟩ := Pool.new_eq hnew
  have hne : f ≠ copy := by
    rintro rfl
    exact hf hfree
  split at h
  · cases h
  cases h
  refine ⟨rfl, ?_, ?_⟩
  · rw [Pool.put_refs, update_of_ne hne, hpool]
    exact update_of_ne hne _ _
  · rw [Pool.put_val_of_ne hne, hpool]
    exact update_of_ne hne _ _

theorem callerView_filess (hown : rt'.own = { rt.own with filess := rt'.own.filess })
    (hsig : rt'.sig = rt.sig)
    (hfiles : ∀ f, rt.own.files s = some f → rt'.own.filess.refs f = rt.own.filess.refs f ∧
      rt'.own.filess.val f = rt.own.filess.val f) :
    callerView s rt' = callerView s rt := by
  have hf : rt'.own.files s = rt.own.files s := by rw [hown]
  cases hcase : rt.own.files s with
  | none =>
    unfold callerView
    rw [hsig, hown]
    simp [hcase]
  | some f =>
    obtain ⟨hrefs, hval⟩ := hfiles f hcase
    have hlook : ∀ fd, fdLookup rt'.own f fd = fdLookup rt.own f fd := by
      intro fd
      unfold fdLookup
      rw [hval, hown]
    have hflag : ∀ fd, fdGetCloexec rt'.own f fd = fdGetCloexec rt.own f fd := by
      intro fd
      unfold fdGetCloexec
      rw [hlook, hval]
    unfold callerView
    simp only [hf, hcase, map_some, bind_some, any_some, hlook, hflag, hrefs, hsig]
    rw [hown]

theorem procFilesUnshare_error (hheld : ∀ f, o.files s = some f → o.filess.refs f ≠ 0)
    (h : procFilesUnshare s o = (some e, o')) :
    o' = { o with filess := o'.filess } ∧ ∀ f, o.files s = some f →
      o'.filess.refs f = o.filess.refs f ∧ o'.filess.val f = o.filess.val f := by
  unfold procFilesUnshare at h
  split at h
  · rename_i hnone
    cases h
    exact ⟨rfl, fun f hf => by simp [hnone] at hf⟩
  rename_i f hf
  split at h
  · cases h
  generalize hin : fdForkInherit f o = r at h
  obtain ⟨_ | _, o1⟩ := r
  · cases h
    obtain ⟨hown, hrefs, hval⟩ := fdForkInherit_error (hheld f hf) hin
    refine ⟨hown, fun g hg => ?_⟩
    rw [hf] at hg
    injection hg with hg
    subst hg
    exact ⟨hrefs, hval⟩
  · cases h

/-- A shared table is replaced by another object. -/
theorem procFilesUnshare_shared (hf : o.files s = some f) (h0 : o.filess.refs f ≠ 0)
    (h1 : o.filess.refs f ≠ 1) (h : procFilesUnshare s o = (none, o')) : o'.files s ≠ some f := by
  unfold procFilesUnshare at h
  rw [hf] at h
  dsimp only at h
  rw [if_neg h1] at h
  generalize hin : fdForkInherit f o = r at h
  obtain ⟨_ | copy, o1⟩ := r
  · cases h
  cases h
  have hne := fdForkInherit_copy h0 hin
  show update o1.files s (some copy) s ≠ some f
  rw [update_self]
  exact fun hc => hne (Option.some.inj hc)

theorem procFilesUnshare_own (hf : o.files s = some f) (h1 : o.filess.refs f = 1) :
    procFilesUnshare s o = (none, o) := by
  unfold procFilesUnshare
  rw [hf]
  simp [h1]

/-! ## The caller after the call -/

theorem execPrepareCaller_error (hheld : ∀ f, rt.own.files s = some f → rt.own.filess.refs f ≠ 0)
    (h : procFilesUnshare s rt.own = (some e, o)) :
    callerView s (execPrepareCaller s idx rt).2 = callerView s rt := by
  have hown := procFilesUnshare_error hheld h
  unfold execPrepareCaller
  rw [h]
  exact callerView_filess hown.1 rfl hown.2

theorem fdCloseOnExec_files (f : Obj C) (o : Own C) : (fdCloseOnExec f o).files = o.files := by
  unfold fdCloseOnExec
  induction List.finRange C.maxFds generalizing o with
  | nil => rfl
  | cons x l ih =>
    rw [foldl_cons, ih]
    split
    · unfold fdClose
      split <;> rfl
    · rfl

theorem closeOnExec_files (s : C.Slot) (o : Own C) : (closeOnExec s o).files = o.files := by
  unfold closeOnExec
  split
  · rfl
  · exact fdCloseOnExec_files _ o

theorem execPrepareCaller_view_iff
    (hheld : ∀ f, rt.own.files s = some f → rt.own.filess.refs f ≠ 0) :
    callerView s (execPrepareCaller s idx rt).2 = callerView s rt ↔
      (procFilesUnshare s rt.own).1 ≠ none ∨
        (descriptorsReady s rt.own ∧ rt.own.execFileIdx s = idx) := by
  generalize hun : procFilesUnshare s rt.own = r
  obtain ⟨_ | e, o⟩ := r
  · obtain ⟨hsig, hown⟩ := execPrepareCaller_own idx hun
    have hidx : (callerView s (execPrepareCaller s idx rt).2).execFileIdx = idx := by
      show (execPrepareCaller s idx rt).2.own.execFileIdx s = idx
      rw [hown]
      exact update_self _ _ _
    have hfiles : (callerView s (execPrepareCaller s idx rt).2).files = o.files s := by
      show (execPrepareCaller s idx rt).2.own.files s = o.files s
      rw [hown]
      exact congrFun (closeOnExec_files s o) s
    simp only [ne_eq, not_true_eq_false, false_or]
    constructor
    · intro hview
      refine ⟨?_, by rw [hview] at hidx; exact hidx⟩
      have hsame : o.files s = rt.own.files s := by rw [← hfiles, hview]; rfl
      cases hf : rt.own.files s with
      | none =>
        unfold procFilesUnshare at hun
        rw [hf] at hun
        cases hun
      | some f =>
        -- A table that was not the caller's own would have been replaced.
        have h1 : o.filess.refs f = 1 ∧ o = rt.own := by
          by_cases h1 : rt.own.filess.refs f = 1
          · rw [procFilesUnshare_own hf h1] at hun
            cases hun
            exact ⟨h1, rfl⟩
          · exact absurd (hsame.trans hf) (procFilesUnshare_shared hf (hheld f hf) h1 hun)
        obtain ⟨h1, rfl⟩ := h1
        refine ⟨f, hf, h1, fun fd => ?_⟩
        have hflag := congrFun (congrArg CallerView.cloexec hview) fd
        simp only [callerView, hown, closeOnExec_files, hf, any_some] at hflag
        rw [← hflag]
        simp only [closeOnExec, hf]
        exact fdCloseOnExec_clears f rt.own fd
    · rintro ⟨⟨f, hf, h1, hno⟩, hidx⟩
      rw [procFilesUnshare_own hf h1] at hun
      cases hun
      refine callerView_congr s ?_ hsig
      rw [hown]
      simp only [closeOnExec, hf, fdCloseOnExec_eq_self hno, ← hidx, update_eq_self]
  · simp only [ne_eq, reduceCtorEq, not_false_eq_true, true_or, iff_true]
    exact execPrepareCaller_error hheld hun

theorem sysExecve_view_iff {image : FileImage}
    (hheld : ∀ f, rt.own.files s = some f → rt.own.filess.refs f ≠ 0)
    (h : execTarget s q rt.own = .ok (some (image, idx))) :
    callerView s (sysExecve s q rt).2 = callerView s rt ↔
      (idx < 0 ∧ (execStageCopy s image rt).1 ≠ none) ∨ (procFilesUnshare s rt.own).1 ≠ none ∨
        (descriptorsReady s rt.own ∧
          rt.own.execFileIdx s = if idx < 0 then execStaged else idx) := by
  unfold sysExecve
  rw [h]
  by_cases hneg : idx < 0
  · simp only [hneg, if_true, true_and]
    obtain ⟨hown, hsig⟩ := execStageCopy_own s image rt
    generalize execStageCopy s image rt = r at hown hsig ⊢
    obtain ⟨_ | e, rt1⟩ := r
    · rw [← callerView_congr s hown hsig, execPrepareCaller_view_iff (by rw [hown]; exact hheld),
        hown]
      simp
    · simp only [ne_eq, reduceCtorEq, not_false_eq_true, true_or, iff_true]
      exact callerView_congr s hown hsig
  · simp only [hneg, false_and, false_or]
    exact execPrepareCaller_view_iff hheld

theorem sysExecve_view (h : ∀ p, execTarget s q rt.own ≠ .ok (some p)) :
    callerView s (sysExecve s q rt).2 = callerView s rt := by
  unfold sysExecve
  split
  · rfl
  · have hown := netfsExecFetch_own s q.fetchQueued rt
    exact callerView_congr s hown.1 hown.2
  · rename_i ht
    exact absurd ht (h _)

/-! ## The coordinator's refusal -/

theorem execTxnValidateImage_error {tx' : ExecTxn C} {image : Option FileImage} {remote : Bool}
    (h : execTxnValidateImage tx image remote = (some e, tx')) : tx' = tx := by
  unfold execTxnValidateImage at h
  split at h
  · split at h
    · cases h
    · cases h
      rfl
  · cases h
    rfl

theorem execTxnReserve_refused {tx' : ExecTxn C} (h : execTxnReserve tx rt = (some e, tx', rt'))
    (hterm : tx'.terminal = false) : tx' = tx ∧ rt' = rt := by
  unfold execTxnReserve at h
  split at h
  · cases h
    exact ⟨rfl, rfl⟩
  split at h
  · dsimp only at h
    split at h
    · cases h
    · cases h
      cases hterm
  split at h
  · cases h
    exact ⟨rfl, rfl⟩
  · split at h
    · cases h
      exact ⟨rfl, rfl⟩
    · cases h

theorem execTxnAbort_unreserved (hphase : tx.phase.beforeCommit = true)
    (hterm : tx.terminal = false) (hacq : tx.regionAcquired = false) (e : Errno) (rt : Runtime C) :
    execTxnAbort tx e rt = (completeSlot tx.oldRef (-e.code) rt).2 := by
  have hend : ¬ (tx.phase = .aborted ∨ tx.phase = .finished ∨ tx.terminal = true) := by
    rintro (h | h | h)
    · rw [h] at hphase
      cases hphase
    · rw [h] at hphase
      cases hphase
    · rw [h] at hterm
      cases hterm
  unfold execTxnAbort
  rw [if_neg hend, if_pos hphase]
  simp [releaseOldLease, hacq]

/-- A refused call is completed with the error in the state it was handled in. -/
theorem handleExec_refused (l : LoadResult) (h : execRefusal s rt = some e) :
    ∃ rt1, rt1.own = rt.own ∧ rt1.sig = rt.sig ∧
      handleExec s l rt = (completeSlot (slotRefAt rt.own s) (-e.code) rt1).2 := by
  unfold execRefusal at h
  unfold handleExec
  have hpark := parkSlot_schedOnly s rt
  generalize parkSlot s rt = r at h hpark ⊢
  obtain ⟨_ | _, rt1⟩ := r
  · cases h
  dsimp only at h ⊢
  refine ⟨intentClear s rt1, hpark.own, hpark.sig, ?_⟩
  have href : slotRefAt rt.own s = (execTxnInit s (intentClear s rt1).own).oldRef := by
    show slotRefAt rt.own s = slotRefAt rt1.own s
    rw [hpark.own]
  rw [href]
  generalize intentClear s rt1 = rt2 at h ⊢
  generalize hval : execTxnValidateImage _ _ _ = v at h ⊢
  obtain ⟨_ | e', tx⟩ := v
  · dsimp only at h ⊢
    have htx : tx.phase = .validated ∧ tx.regionAcquired = false ∧
        tx.oldRef = (execTxnInit s rt2.own).oldRef := by
      unfold execTxnValidateImage at hval
      split at hval
      · split at hval
        · cases hval
          exact ⟨rfl, rfl, rfl⟩
        · cases hval
      · cases hval
    generalize hres : execTxnReserve tx rt2 = v at h ⊢
    obtain ⟨_ | e', tx', rt3⟩ := v
    · cases h
    dsimp only at h ⊢
    split at h
    · cases h
    rename_i hterm
    injection h with h
    subst h
    obtain ⟨rfl, rfl⟩ := execTxnReserve_refused hres (Bool.eq_false_iff.mpr hterm)
    rw [execTxnAbort_unreserved (by rw [htx.1]; rfl) (Bool.eq_false_iff.mpr hterm) htx.2.1, htx.2.2]
  · injection h with h
    subst h
    rw [execTxnValidateImage_error hval]
    exact execTxnAbort_unreserved rfl rfl rfl _ _

theorem handleExec_refused_view (l : LoadResult) (h : execRefusal s rt = some e) :
    callerView s (handleExec s l rt) = callerView s rt := by
  obtain ⟨rt1, hown, hsig, heq⟩ := handleExec_refused l h
  have hdone := completeSlot_schedOnly rt1 (slotRefAt rt.own s) (-e.code)
  rw [heq]
  exact callerView_congr s (hdone.own.trans hown) (hdone.sig.trans hsig)

/-! ## Every refused call -/

theorem callerView_setExecFileIdx (s : C.Slot) (idx : Int) (rt : Runtime C) :
    callerView s { rt with own.execFileIdx := update rt.own.execFileIdx s idx } =
      { callerView s rt with execFileIdx := idx } := by
  simp only [callerView, update_self]
  rfl

theorem netfsExecRetry_view (h : netfsExecRetry s image rt = (none, rt')) :
    callerView s rt' = { callerView s rt with execFileIdx := execStaged } := by
  obtain ⟨hsig, hown⟩ := netfsExecRetry_own h
  rw [← callerView_setExecFileIdx]
  exact callerView_congr s hown hsig

/-- A refused execve leaves its caller as it was exactly when it was refused before it reached the
caller's descriptor table, or had nothing to change there and no new program to name. -/
theorem execveReturns_view_iff {s : C.Slot} {q : ExecRequest} {rt rt' : Runtime C}
    {r : RefusedBy} {e : Errno} (hheld : ∀ f, rt.own.files s = some f → rt.own.filess.refs f ≠ 0)
    (h : ExecveReturns s q rt r e rt') :
    callerView s rt' = callerView s rt ↔ execveKeepsCaller s q rt r := by
  unfold execveKeepsCaller
  cases h with
  | syscall hcall =>
    have hrt : rt' = (sysExecve s q rt).2 := by rw [hcall]
    rw [hrt]
    split
    · rename_i ht
      exact iff_of_true (sysExecve_view fun p hp => by rw [ht] at hp; cases hp) trivial
    · rename_i ht
      exact iff_of_true (sysExecve_view fun p hp => by rw [ht] at hp; cases hp) nofun
    · rename_i ht
      exact sysExecve_view_iff hheld ht
  | fetch ht hcall hhop hretry =>
    rw [ht]
    refine iff_of_true ?_ nofun
    obtain ⟨hsig, hown⟩ := netfsExecRetry_own hretry
    have hview : callerView s (sysExecve s q rt).2 = callerView s rt :=
      sysExecve_view fun p hp => by rw [ht] at hp; cases hp
    rw [hcall] at hview
    exact ((callerView_congr s hown hsig).trans hhop).trans hview
  | coordinator hpending hhop hrefused =>
    rw [handleExec_refused_view _ hrefused, hhop]
    cases hpending with
    | called ht hcall =>
      have hview := sysExecve_view_iff hheld ht
      rw [hcall] at hview
      rw [ht]
      exact hview
    | fetched ht hcall hhop' hretry =>
      rw [ht]
      have hview : callerView s (sysExecve s q rt).2 = callerView s rt :=
        sysExecve_view fun p hp => by rw [ht] at hp; cases hp
      rw [hcall] at hview
      rw [netfsExecRetry_view hretry, hhop', hview]
      constructor
      · intro hsame _
        exact (congrArg CallerView.execFileIdx hsame).symm
      · intro hidx
        have := hidx rfl
        rw [← this]
        rfl

/-! ## Running a text file -/

/-- Entry 1 is a three-byte text, which the loader refuses only when the coordinator validates
it. -/
abbrev textConfig : Config := { smallConfig with rootfs := [nullImage, ⟨fun _ => 104, 4096, 3⟩] }

def textCall : ExecRequest := { path := .ok [47, 116], found := .ok (.rootfs 1) }

def selfCall : ExecRequest := { path := .ok procSelfExe, found := .error .enoent }

def fcntlCloexec (s : C.Slot) (fd : Fin C.maxFds) (rt : Runtime C) : Runtime C :=
  match rt.own.files s with
  | none => rt
  | some f => { rt with own := fdSetCloexec rt.own f fd true }

theorem fcntlCloexec_frame (s : C.Slot) (fd : Fin C.maxFds) (rt : Runtime C) :
    GuestFrame rt (fcntlCloexec s fd rt) := by
  unfold fcntlCloexec fdSetCloexec
  split
  · exact .refl rt
  · split
    · exact .refl rt
    · exact ⟨rfl, fun _ => ⟨rfl, rfl, rfl⟩, fun _ => ⟨rfl, rfl, rfl, rfl⟩, rfl, rfl, fun _ h => h,
        fun _ _ => ⟨Intent.Kept.refl _, rfl⟩⟩

theorem eq_ok_of_toOption_join {ε α : Type} {t : Except ε (Option α)} {a : α}
    (h : t.toOption.join = some a) : t = .ok (some a) := by
  match t, h with
  | .ok _, h => exact congrArg Except.ok h

theorem execPending_of_sysExecve (htarget : (execTarget s q rt.own).toOption.join.isSome)
    (hcall : (sysExecve s q rt).1 = none) : ExecPending s q rt (sysExecve s q rt).2 := by
  obtain ⟨⟨image, idx⟩, htarget⟩ := isSome_iff_exists.mp htarget
  exact .called (eq_ok_of_toOption_join htarget) (Prod.ext hcall rfl)

/-- A program that runs itself again, with a table of its own and nothing to close, is as before
when the coordinator refuses its image. -/
theorem selfCall_kept : ∃ rt rt' : Runtime textConfig, boot textConfig 0 {} = some rt ∧
    ExecveReturns 0 selfCall rt .coordinator .enoexec rt' ∧
    callerView 0 rt' = callerView 0 rt := by
  have hrun : (boot textConfig 0 {}).any (fun rt =>
      let rt1 := sysExecve 0 selfCall rt
      decide ((execTarget 0 selfCall rt.own).toOption.join.any (fun p => p.2 = 0) ∧
        rt1.1 = none ∧ execRefusal 0 rt1.2 = some .enoexec ∧ rt.own.execFileIdx 0 = 0 ∧
        rt.own.files 0 = some 0 ∧ rt.own.filess.refs 0 = 1 ∧
        ∀ fd, fdGetCloexec rt.own 0 fd = false)) = true := by
    decide +kernel
  obtain ⟨rt, hboot, hrun⟩ := (any_eq_true _ _).mp hrun
  obtain ⟨htarget, hcall, hrefused, hidx, hfiles, hrefs, hno⟩ := of_decide_eq_true hrun
  obtain ⟨⟨image, idx⟩, htarget, hzero⟩ := (any_eq_true _ _).mp htarget
  obtain rfl : idx = 0 := of_decide_eq_true hzero
  have hpending := execPending_of_sysExecve (by rw [htarget]; rfl) hcall
  have hreturns : ExecveReturns 0 selfCall rt .coordinator .enoexec
      (handleExec 0 {} (sysExecve 0 selfCall rt).2) := .coordinator hpending rfl hrefused
  refine ⟨rt, _, hboot, hreturns, (execveReturns_view_iff ?_ hreturns).mpr ?_⟩
  · intro f hf
    rw [hfiles] at hf
    injection hf with hf
    rw [← hf, hrefs]
    decide
  · unfold execveKeepsCaller
    rw [eq_ok_of_toOption_join htarget]
    exact .inr (.inr ⟨⟨0, hfiles, hrefs, hno⟩, hidx⟩)

/-- A call of a text file gives `ENOEXEC` to a program that has lost descriptor 2 by then and whose
`/proc/self/exe` names the text. -/
theorem textCall_changes : ∃ rt rt' : Runtime textConfig, RunsTo (fun _ _ => True) rt ∧
    ExecveReturns 0 textCall rt .coordinator .enoexec rt' ∧
    (callerView 0 rt).fd 2 ≠ none ∧ (callerView 0 rt').fd 2 = none ∧
    (callerView 0 rt).execFileIdx = 0 ∧ (callerView 0 rt').execFileIdx = 1 ∧
    callerView 0 rt' ≠ callerView 0 rt := by
  have hrun : (boot textConfig 0 {}).any (fun rt =>
      let rt := fcntlCloexec 0 2 rt
      let rt1 := sysExecve 0 textCall rt
      let rt' := handleExec 0 {} rt1.2
      decide ((execTarget 0 textCall rt.own).toOption.join.isSome ∧ rt1.1 = none ∧
        execRefusal 0 rt1.2 = some .enoexec ∧ (callerView 0 rt).fd 2 ≠ none ∧
        (callerView 0 rt').fd 2 = none ∧ rt.own.execFileIdx 0 = 0 ∧
        rt'.own.execFileIdx 0 = 1)) = true := by
    decide +kernel
  obtain ⟨rt, hboot, hrun⟩ := (any_eq_true _ _).mp hrun
  obtain ⟨htarget, hcall, hrefused, hopen, hclosed, hidx, hidx'⟩ := of_decide_eq_true hrun
  have hpending := execPending_of_sysExecve htarget hcall
  refine ⟨fcntlCloexec 0 2 rt, _, (RunsTo.start hboot).step trivial
    (Step.guest rt _ (fcntlCloexec_frame 0 2 rt)), .coordinator hpending rfl hrefused,
    hopen, hclosed, hidx, hidx', fun hview => ?_⟩
  rw [hview] at hclosed
  exact hopen hclosed

end Lxp
