import Lxp.Overlay.Content

/-!
# What an open leaves behind

An open makes or empties the file before it knows whether a description can be had, so one that
fails may have changed the file system.  And it does not look at the exclusive flag: a name that is
there already is opened all the same.
-/

open ByteMemory Function

namespace Lxp

variable {K : WfsConfig} {x x' : Wfs K}

/-- A description of a new node can be made. -/
def Vacant (x : Wfs K) (room : Bool) : Prop := room = true ∧ ∃ d, x.ofds d = .free

instance (x : Wfs K) (room : Bool) : Decidable (Vacant x room) :=
  inferInstanceAs (Decidable (_ ∧ _))

/-- The name is nowhere, and a node for it can be had. -/
def Creatable (x : Wfs K) (path : AbsPath) : Prop :=
  wfsFind path.chars x = none ∧ fsLookup K path.chars = none ∧
    (wfsCreate path.chars .reg 0o644 x).isSome = true

theorem openNew_vacant (hs : Sound x) {path : AbsPath} {flags : OpenFlags}
    (hcreat : flags.creat = true) (hfind : wfsFind path.chars x = none)
    (hroot : fsLookup K path.chars = none) (room : Bool) :
    ∃ r x', FileOp.run (.opens path flags room) x = .ok (r, x') ∧
      (¬Creatable x path ∧ r = .failed .emfile ∧ x' = x ∨ Creatable x path ∧
        wfsFind path.chars x' ≠ none ∧
        if Vacant x room then ∃ n, r = .number n else r = .failed .emfile) := by
  have hw : flags.writes = true := by simp [OpenFlags.writes, hcreat]
  simp only [FileOp.run, overlayOpen]
  rw [if_pos hw, hfind]
  rw [hroot]
  rw [if_neg (by simp [hcreat])]
  rcases wfsCreate_cases hs path.chars .reg 0o644 with hno | ⟨i, x1, hsome, hc, hnode, -, -⟩
  · rw [hno]
    exact ⟨_, x, rfl, .inl ⟨fun h => by simp [Creatable, hno] at h, rfl, rfl⟩⟩
  have hnew : Creatable x path := ⟨hfind, hroot, by rw [hsome]; rfl⟩
  rw [hsome]
  simp only
  have hl : labels x1 i = some (path.chars, .reg) := by rw [hc.labels, update_self]
  have hname : wfsFind path.chars x1 ≠ none := by
    rw [wfsFind_made hfind hc.labels]
    simp
  have hvacant : Available x1 i room ↔ Vacant x room := by
    simp only [Available, hnode, hc.ofds]
    exact and_iff_right (by decide)
  rcases sysFdAlloc_cases hc.sound hl (if flags.append then (x1.nodes i).size else 0) flags room
    with ⟨heq, hno⟩ | ⟨d, x', heq, hyes, -, -, -, hlabels, -⟩
  · rw [heq]
    refine ⟨_, x1, rfl, .inr ⟨hnew, hname, ?_⟩⟩
    rw [if_neg (hvacant.not.mp hno)]
  · rw [heq]
    refine ⟨_, x', rfl, .inr ⟨hnew, by rwa [wfsFind_congr hlabels], ?_⟩⟩
    rw [if_pos (hvacant.mp hyes)]
    exact ⟨d, rfl⟩

/-! ## Failed opens -/

def Unchanged (x x' : Wfs K) : Prop := labels x' = labels x ∧ content x' = content x

/-- The file is made or emptied, and then there is no description for it. -/
def SpoilsUnopened (x : Wfs K) (path : AbsPath) (flags : OpenFlags) (room : Bool) : Prop :=
  flags.creat = true ∧ Creatable x path ∧ ¬Vacant x room ∨
    EmptiesUnopened x (.opens path flags room)

/-- From every state of every run, a failed open leaves the file system unchanged exactly when it is
not one that makes or empties a file it then cannot open. -/
theorem failedOpen_unchanged_iff (h : WfsRuns K (fun _ _ => True) x) (path : AbsPath)
    (flags : OpenFlags) (room : Bool) :
    (∀ e x', FileOp.run (.opens path flags room) x = .ok (.failed e, x') → Unchanged x x') ↔
      ¬SpoilsUnopened x path flags room := by
  have hs := h.sound
  constructor
  · rintro hall (⟨hcreat, hnew, hvacant⟩ | hempty)
    · obtain ⟨r, x', hrun, hr⟩ := openNew_vacant hs hcreat hnew.1 hnew.2.1 room
      obtain ⟨-, hname, hr⟩ := hr.resolve_left fun h => h.1 hnew
      rw [if_neg hvacant] at hr
      subst hr
      refine hname ?_
      rw [wfsFind_congr (hall _ _ hrun).1]
      exact hnew.1
    · obtain ⟨x', hrun, hne⟩ := emptiesUnopened_run hs hempty
      exact hne (hall _ _ hrun).2
  · intro hno e x' hrun
    obtain ⟨r, x1, hrun1, -, hlabels, hstep⟩ := overlayOpen_cases hs path flags room
    rw [hrun] at hrun1
    cases hrun1
    have hfiles : content x' = content x := (hstep fun hempty => hno (.inr hempty)).failed_files
    refine ⟨hlabels.resolve_right ?_, hfiles⟩
    rintro ⟨hcreat, i, hwas, hnone, hroot, hmade⟩
    obtain ⟨r, x1, hrun1, hr⟩ := openNew_vacant hs hcreat (wfsFind_eq_none.mpr hnone) hroot room
    rw [hrun] at hrun1
    cases hrun1
    rcases hr with ⟨-, -, rfl⟩ | ⟨hnew, -, hr⟩
    · rw [hmade, update_self] at hwas
      cases hwas
    split at hr
    · obtain ⟨n, hn⟩ := hr
      cases hn
    · rename_i hvacant
      exact hno (.inl ⟨hcreat, hnew, hvacant⟩)

/-- A new file stays behind when the caller has no free descriptor. -/
theorem failedOpen_creates : ∃ x x', WfsRuns smallWfs (fun _ _ => True) x ∧
    FileOp.run (.opens fileF openWrite false) x = .ok (.failed .emfile, x') ∧ ¬Unchanged x x' :=
  ⟨_, _, runOps_runs [] rfl, rfl, fun h => absurd (congrFun h.1 0) (by decide +kernel)⟩

theorem failedOpen_unchanged_oneByte : ∃ x, runOps oneByte = .ok x ∧
    ((∀ e x', FileOp.run (.opens fileF openWrite false) x = .ok (.failed e, x') →
      Unchanged x x') ↔ ¬SpoilsUnopened x fileF openWrite false) :=
  ⟨_, rfl, failedOpen_unchanged_iff (runOps_runs oneByte rfl) fileF openWrite false⟩

/-! ## Exclusive opens -/

/-- The name is there, and the open succeeds all the same; a root that is no entry of the image is
even created. -/
def Reopens (x : Wfs K) (path : AbsPath) (room : Bool) : Prop :=
  (∃ i, wfsFind path.chars x = some i ∧ (x.nodes i).type ≠ .dir ∧ Available x i room) ∨
    path.chars = ['/'] ∧ Creatable x path ∧ Vacant x room

section Exclusive

variable {path : AbsPath} {flags : OpenFlags} {room : Bool}

theorem creatingOpen_cases (hs : Sound x) (path : AbsPath) (hcreat : flags.creat = true)
    (room : Bool) :
    ∃ r x', FileOp.run (.opens path flags room) x = .ok (r, x') ∧
      ((∃ n, r = .number n) ↔ (∃ i, wfsFind path.chars x = some i ∧ (x.nodes i).type ≠ .dir ∧
        Available x i room) ∨ Creatable x path ∧ Vacant x room) ∧
      ((∃ n, r = .number n) → wfsFind path.chars x' ≠ none) := by
  have hw : flags.writes = true := by simp [OpenFlags.writes, hcreat]
  cases hfind : wfsFind path.chars x with
  | some i =>
    have hnew : ¬Creatable x path := fun h => by simp [Creatable, hfind] at h
    by_cases hdir : (x.nodes i).type = .dir
    · refine ⟨.failed .eisdir, x, ?_, by simp [hdir, hnew], by simp⟩
      simp only [FileOp.run, overlayOpen]
      rw [if_pos hw, hfind]
      simp only
      rw [if_pos hdir]
      rfl
    · obtain ⟨r, x', hrun, -, hlabels, hyes, -⟩ := openOld_cases hs hfind hdir flags hw room
      refine ⟨r, x', hrun, by simp [hdir, hnew, hyes], fun _ => ?_⟩
      rw [wfsFind_congr hlabels, hfind]
      simp
  | none =>
    cases hroot : fsLookup K path.chars with
    | some fi =>
      simp only [FileOp.run, overlayOpen]
      rw [if_pos hw, hfind]
      rw [hroot]
      exact ⟨_, x, rfl, by simp [Creatable, hroot], by simp⟩
    | none =>
      obtain ⟨r, x', hrun, ⟨hno, rfl, -⟩ | ⟨hnew, hname, hr⟩⟩ :=
        openNew_vacant hs hcreat hfind hroot room
      · exact ⟨_, x', hrun, by simp [hno], by simp⟩
      refine ⟨r, x', hrun, ?_, fun _ => hname⟩
      split at hr
      · rename_i hvacant
        simpa [hnew, hvacant] using hr
      · rename_i hvacant
        subst hr
        simp [hvacant]

theorem overlayStat_eq_none : overlayStat path.chars x = none ↔ wfsFind path.chars x = none ∧
    fsLookup K path.chars = none ∧ path.chars ≠ ['/'] := by
  constructor
  · intro h
    exact overlayStat_isSome_eq_false (by rw [h]; rfl)
  · rintro ⟨hfind, hroot, hne⟩
    simp [overlayStat, hfind, hroot, hne]

theorem exclusiveOpen_iff (hs : Sound x) (hcreat : flags.creat = true) :
    (∀ n x', FileOp.run (.opens path flags room) x = .ok (.number n, x') →
      overlayStat path.chars x = none) ↔ ¬Reopens x path room := by
  obtain ⟨r, x1, hrun, hyes, -⟩ := creatingOpen_cases hs path hcreat room
  constructor
  · rintro hall hre
    obtain ⟨n, rfl⟩ := hyes.mpr (hre.imp_right And.right)
    obtain ⟨hfind, -, hne⟩ := overlayStat_eq_none.mp (hall _ _ hrun)
    rcases hre with ⟨i, hi, -⟩ | ⟨hroot, -⟩
    · rw [hfind] at hi
      cases hi
    · exact hne hroot
  · intro hno n x' hrun'
    rw [hrun] at hrun'
    cases hrun'
    rcases hyes.mp ⟨n, rfl⟩ with hold | ⟨hnew, hvacant⟩
    · exact absurd (.inl hold) hno
    · exact overlayStat_eq_none.mpr
        ⟨hnew.1, hnew.2.1, fun hroot => hno (.inr ⟨hroot, hnew, hvacant⟩)⟩

def FileResult.opened : FileResult → Bool
  | .number _ => true
  | _ => false

/-- The states of the runs whose exclusive opens of `path` are all admitted by `ok`, and whether one
of them has succeeded since the name was last gone. -/
inductive LockRuns (K : WfsConfig) (path : AbsPath) (ok : Wfs K → Bool → Prop) :
    Wfs K → Bool → Prop where
  | start (mem : Mem) : LockRuns K path ok (wfsBoot K mem) false
  | other {x x' : Wfs K} {held : Bool} (op : WfsOp K) : LockRuns K path ok x held →
      op.run x = .ok x' → LockRuns K path ok x' (held && (overlayStat path.chars x').isSome)
  | exclusive {x x' : Wfs K} {held : Bool} {r : FileResult} (flags : OpenFlags) (room : Bool) :
      LockRuns K path ok x held → flags.creat = true → ok x room →
      FileOp.run (.opens path flags room) x = .ok (r, x') →
      LockRuns K path ok x' (r.opened || held && (overlayStat path.chars x').isSome)

theorem LockRuns.sound {ok : Wfs K → Bool → Prop} {held : Bool} (h : LockRuns K path ok x held) :
    Sound x ∧ (held = true → overlayStat path.chars x ≠ none) := by
  induction h with
  | start mem => exact ⟨wfsBoot_sound mem, nofun⟩
  | other op _ hrun ih =>
    obtain ⟨x1, hrun1, hs1, -⟩ := op.run_cases ih.1
    rw [hrun] at hrun1
    cases hrun1
    refine ⟨hs1, fun hheld => ?_⟩
    exact Option.isSome_iff_ne_none.mp (Bool.and_eq_true_iff.mp hheld).2
  | @exclusive x x' held r flags room _ hcreat _ hrun ih =>
    obtain ⟨r1, x1, hrun1, hs1, -⟩ := FileOp.run_cases ih.1 (.opens path flags room)
    rw [hrun] at hrun1
    cases hrun1
    refine ⟨hs1, fun hheld => ?_⟩
    rcases Bool.or_eq_true_iff.mp hheld with hopened | hheld
    · obtain ⟨r1, x1, hrun1, -, hname⟩ := creatingOpen_cases ih.1 path hcreat room
      rw [hrun] at hrun1
      cases hrun1
      cases r with
      | number n => exact fun hnone => hname ⟨n, rfl⟩ (overlayStat_eq_none.mp hnone).1
      | _ => cases hopened
    · exact Option.isSome_iff_ne_none.mp (Bool.and_eq_true_iff.mp hheld).2

end Exclusive

/-- In every run whose exclusive opens do not reopen the name, the next one succeeds only where the
name is nothing, and never while the name of an earlier success is still there, exactly when it does
not reopen the name either. -/
theorem exclusiveOpen_once_iff {path : AbsPath} {held : Bool}
    (h : LockRuns K path (fun x room => ¬Reopens x path room) x held) {flags : OpenFlags}
    (hcreat : flags.creat = true) (room : Bool) :
    (∀ n x', FileOp.run (.opens path flags room) x = .ok (.number n, x') →
      overlayStat path.chars x = none ∧ held = false) ↔ ¬Reopens x path room := by
  obtain ⟨hs, hheld⟩ := h.sound
  rw [← exclusiveOpen_iff hs hcreat]
  refine forall₃_congr fun n x' _ => and_iff_left_of_imp fun hnone => ?_
  exact Bool.eq_false_iff.mpr fun hyes => hheld hyes hnone

/-- Two exclusive opens of one name succeed one after the other. -/
theorem exclusiveOpen_twice : ∃ x x', LockRuns smallWfs fileF (fun _ _ => True) x true ∧
    FileOp.run (.opens fileF openWrite true) x = .ok (.number 1, x') :=
  ⟨_, _, .exclusive (r := .number 0) openWrite true
    (.start (Mem.ofBytes fun _ => 7)) rfl trivial rfl,
    rfl⟩

theorem exclusiveOpen_once_again : ∃ x : Wfs smallWfs,
    LockRuns smallWfs fileF (fun x room => ¬Reopens x fileF room) x true ∧
    ¬Reopens x fileF false ∧
    ∀ n x', FileOp.run (.opens fileF openWrite false) x ≠ .ok (.number n, x') := by
  have habsent : ∀ {x : Wfs smallWfs} {room : Bool}, wfsFind fileF.chars x = none →
      ¬Reopens x fileF room := by
    rintro x room hnone (⟨i, hi, -⟩ | ⟨hroot, -⟩)
    · rw [hnone] at hi
      cases hi
    · cases hroot
  -- The name is made, removed and made again.
  obtain ⟨x, hrun⟩ : ∃ x : Wfs smallWfs,
      LockRuns smallWfs fileF (fun x room => ¬Reopens x fileF room) x true :=
    ⟨_, .exclusive (r := .number 1) openWrite true (.other (.remove fileF false)
      (.exclusive (r := .number 0) openWrite true (.start (Mem.ofBytes fun _ => 7)) rfl
        (habsent (by decide +kernel)) rfl) rfl) rfl (habsent (by decide +kernel)) rfl⟩
  have hno : ¬Reopens x fileF false := by
    rintro (⟨i, -, -, -, hroom, -⟩ | ⟨hroot, -⟩)
    · cases hroom
    · cases hroot
  refine ⟨x, hrun, hno, fun n x' hopen => ?_⟩
  cases ((exclusiveOpen_once_iff hrun rfl false).mpr hno n x' hopen).2

end Lxp
