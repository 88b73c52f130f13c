import Lxp.Overlay.Content

/-!
# The namespace of the overlay

Nothing but their paths ties nodes together.  What keeps the table a tree, with one node to a path,
are conditions on the operations that the overlay itself does not check: that the parent of a new
name is a directory, and that nothing lies below the new name of a directory.
-/

open ByteMemory Function List

namespace Lxp

variable {K : WfsConfig}
variable {l : Path × FileType}

/-! ## One node to a path -/

def Unique (L : K.Node → Option (Path × FileType)) : Prop :=
  ∀ i j l l', L i = some l → L j = some l' → l.1 = l'.1 → i = j

/-- A node stands where one below a directory that is moved would come to stand. -/
def Collides (x : Wfs K) : WfsOp K → Prop
  | .rename src dst => ∃ i, Renames x src dst i ∧ (x.nodes i).type = .dir ∧
      ∃ j l k l', j ≠ i ∧ labels x j = some l ∧ pathUnder l.1 src.chars = true ∧
        labels x k = some l' ∧ pathUnder l'.1 src.chars = false ∧
        l'.1 = movedPath src.chars dst.chars l.1
  | _ => False

section Unique

variable {x : Wfs K} {L L' : K.Node → Option (Path × FileType)}

theorem pathUnder_split {path dir : Path} (h : pathUnder path dir = true) :
    ∃ rest, path = dir ++ rest := by
  unfold pathUnder at h
  split at h
  · rename_i hroot
    subst hroot
    cases path with
    | nil => cases h
    | cons c rest =>
      obtain rfl : c = '/' := by simpa using h
      exact ⟨rest, rfl⟩
  · simp only [Bool.and_eq_true, decide_eq_true_eq] at h
    obtain ⟨rest, hrest⟩ := h.1.2
    exact ⟨rest, hrest.symm⟩

theorem movedPath_append (old new rest : Path) : movedPath old new (old ++ rest) = new ++ rest := by
  rw [movedPath, drop_left]

theorem Unique.forget (hu : Unique L) (t : K.Node) : Unique (update L t none) := by
  intro i j l l' hi hj heq
  by_cases hit : i = t
  · rw [hit, update_self] at hi
    cases hi
  by_cases hjt : j = t
  · rw [hjt, update_self] at hj
    cases hj
  · rw [update_of_ne hit] at hi
    rw [update_of_ne hjt] at hj
    exact hu i j l l' hi hj heq

variable {type : FileType}

theorem Unique.make (hu : Unique L) {path : Path} (h : Makes K path type L L') : Unique L' := by
  obtain ⟨t, -, hfresh, -, rfl⟩ := h
  intro i j l l' hi hj heq
  by_cases hit : i = t
  · by_cases hjt : j = t
    · rw [hit, hjt]
    rw [hit, update_self] at hi
    rw [update_of_ne hjt] at hj
    cases hi
    subst heq
    exact absurd hj (hfresh j l'.2)
  rw [update_of_ne hit] at hi
  by_cases hjt : j = t
  · rw [hjt, update_self] at hj
    cases hj
    subst heq
    exact absurd hi (hfresh i l.2)
  · rw [update_of_ne hjt] at hj
    exact hu i j l l' hi hj heq

theorem moveLabels_of_ne {i j : K.Node} {old new : Path} (hji : j ≠ i)
    (h : moveLabels i type old new L j = some l) : ∃ l0, L j = some l0 ∧ l0.2 = l.2 ∧
      (type = .dir ∧ (∃ rest, l0.1 = old ++ rest ∧ l.1 = new ++ rest) ∧ pathUnder l0.1 old = true ∨
        l0.1 = l.1 ∧ (type = .dir → pathUnder l0.1 old = false)) := by
  unfold moveLabels at h
  rw [if_neg hji, Option.map_eq_some_iff] at h
  obtain ⟨l0, hl0, heq⟩ := h
  refine ⟨l0, hl0, ?_⟩
  split at heq
  · rename_i hmoves
    obtain ⟨hdir, hunder⟩ := hmoves
    obtain ⟨rest, hrest⟩ := pathUnder_split hunder
    subst heq
    refine ⟨rfl, .inl ⟨hdir, ⟨rest, hrest, ?_⟩, hunder⟩⟩
    rw [hrest, movedPath_append]
  · rename_i hstays
    subst heq
    refine ⟨rfl, .inr ⟨rfl, fun hdir => ?_⟩⟩
    by_contra hunder
    exact hstays ⟨hdir, by simpa using hunder⟩

theorem Unique.move (hu : Unique L) {i : K.Node} {old new : Path}
    (hi : L i = some (old, type)) (hfresh : ∀ j t, L j ≠ some (new, t))
    (hclash : type = .dir → ∀ j l k l', j ≠ i → L j = some l → pathUnder l.1 old = true →
      L k = some l' → pathUnder l'.1 old = false → l'.1 ≠ movedPath old new l.1) :
    Unique (moveLabels i type old new L) := by
  have hself : moveLabels i type old new L i = some (new, type) := if_pos rfl
  -- No other node has the new name.
  have hown : ∀ j l, j ≠ i → moveLabels i type old new L j = some l → l.1 ≠ new := by
    intro j l hji hj heq
    obtain ⟨l0, hl0, -, ⟨-, ⟨rest, hold, hnew⟩, -⟩ | ⟨hsame, -⟩⟩ := moveLabels_of_ne hji hj
    · have hnil : rest = [] := append_right_eq_self.mp (hnew.symm.trans heq)
      rw [hnil, append_nil] at hold
      exact hji (hu j i l0 _ hl0 hi hold)
    · exact hfresh j l0.2 (by rw [hl0, ← heq, ← hsame])
  -- A moved node and one that stayed.
  have hmixed : ∀ (j k : K.Node) (l l' l0 l0' : Path × FileType), j ≠ i → L j = some l0 →
      L k = some l0' → type = .dir →
      (∃ rest, l0.1 = old ++ rest ∧ l.1 = new ++ rest) → pathUnder l0.1 old = true →
      l0'.1 = l'.1 → pathUnder l0'.1 old = false → l.1 ≠ l'.1 := by
    rintro j k l l' l0 l0' hji hl0 hl0' hdir ⟨rest, hold, hnew⟩ hunder hsame hout heq
    refine hclash hdir j l0 k l0' hji hl0 hunder hl0' hout ?_
    rw [hsame, ← heq, hnew, hold, movedPath_append]
  intro j k l l' hj hk heq
  by_cases hji : j = i
  · by_cases hki : k = i
    · rw [hji, hki]
    · rw [hji, hself] at hj
      cases hj
      exact absurd heq.symm (hown k l' hki hk)
  by_cases hki : k = i
  · rw [hki, hself] at hk
    cases hk
    exact absurd heq (hown j l hji hj)
  obtain ⟨l0, hl0, -, hcase⟩ := moveLabels_of_ne hji hj
  obtain ⟨l0', hl0', -, hcase'⟩ := moveLabels_of_ne hki hk
  rcases hcase with ⟨hdir, hmoved, hunder⟩ | ⟨hsame, hout⟩
  · rcases hcase' with ⟨-, ⟨rest', hold', hnew'⟩, -⟩ | ⟨hsame', hout'⟩
    · obtain ⟨rest, hold, hnew⟩ := hmoved
      have hrest : rest = rest' := append_cancel_left (hnew.symm.trans (heq.trans hnew'))
      exact hu j k l0 l0' hl0 hl0' (by rw [hold, hold', hrest])
    · exact absurd heq (hmixed j k l l' l0 l0' hji hl0 hl0' hdir hmoved hunder hsame' (hout' hdir))
  · rcases hcase' with ⟨hdir, hmoved', hunder'⟩ | ⟨hsame', -⟩
    · exact absurd heq.symm
        (hmixed k j l' l l0' l0 hki hl0' hl0 hdir hmoved' hunder' hsame (hout hdir))
    · exact hu j k l0 l0' hl0 hl0' (by rw [hsame, hsame', heq])

theorem Unique.cleared (hu : Unique (labels x)) {dst : AbsPath}
    (hdst : wfsFind dst.chars x = none ∧ L = labels x ∨
      ∃ t, wfsFind dst.chars x = some t ∧ L = update (labels x) t none) :
    Unique L ∧ (∀ j t, L j ≠ some (dst.chars, t)) ∧ (∀ j l, L j = some l → labels x j = some l) ∧
      ∀ j l, labels x j = some l → l.1 ≠ dst.chars → L j = some l := by
  rcases hdst with ⟨hfind, rfl⟩ | ⟨t, hfind, rfl⟩
  · exact ⟨hu, wfsFind_eq_none.mp hfind, fun j l h => h, fun j l h _ => h⟩
  have ht := wfsFind_eq_some hfind
  refine ⟨hu.forget t, ?_, ?_, ?_⟩
  · intro j type hj
    by_cases hjt : j = t
    · rw [hjt, update_self] at hj
      cases hj
    · rw [update_of_ne hjt] at hj
      exact hjt (hu j t _ _ hj ht rfl)
  · intro j l hj
    by_cases hjt : j = t
    · rw [hjt, update_self] at hj
      cases hj
    · rwa [update_of_ne hjt] at hj
  · intro j l hj hne
    by_cases hjt : j = t
    · rw [hjt, ht] at hj
      cases hj
      exact absurd rfl hne
    · rwa [update_of_ne hjt]

theorem Unique.step (hu : Unique (labels x)) {op : WfsOp K} (hok : ¬ Collides x op)
    (hstep : NameStep x op L') : Unique L' := by
  cases hstep with
  | same => exact hu
  | made hop hmakes => exact hu.make hmakes
  | removed hop hfind hempty => exact hu.forget _
  | @renamed src dst i L hop hmoves hdst =>
    subst hop
    obtain ⟨hfind, hne, -, -⟩ := id hmoves
    obtain ⟨huL, hfresh, hback, hkeep⟩ := hu.cleared hdst
    refine huL.move (hkeep i _ (wfsFind_eq_some hfind) hne) hfresh ?_
    intro hdir j l k l' hji hj hunder hk hout heq
    exact hok ⟨i, hmoves, hdir, j, l, k, l', hji, hback j l hj, hunder, hback k l' hk, hout, heq⟩

end Unique

/-- In every run whose directory renames move nothing onto another node, a path has at most one
linked node. -/
theorem wfsRuns_unique {x : Wfs K} (h : WfsRuns K (fun x op => ¬ Collides x op) x)
    (i j : K.Node) (hi : (x.nodes i).used = true ∧ (x.nodes i).linked = true)
    (hj : (x.nodes j).used = true ∧ (x.nodes j).linked = true)
    (hpath : (x.nodes i).path = (x.nodes j).path) : i = j := by
  have hlabel : ∀ k, (x.nodes k).used = true ∧ (x.nodes k).linked = true →
      labels x k = some ((x.nodes k).path, (x.nodes k).type) := by
    intro k hk
    simp only [labels, Wnode.label, hk.1, hk.2, Bool.and_self, if_true]
  have hinv : Sound x ∧ Unique (labels x) := by
    refine h.invariant (fun x => Sound x ∧ Unique (labels x)) ?_ ?_
    · intro mem
      exact ⟨wfsBoot_sound mem, fun i j l l' hi => by cases hi⟩
    rintro x op x' ⟨hs, hu⟩ hok hrun
    obtain ⟨x1, hrun1, hs1, hstep⟩ := op.run_cases hs
    rw [hrun] at hrun1
    cases hrun1
    exact ⟨hs1, hu.step hok hstep⟩
  exact hinv.2 i j _ _ (hlabel i hi) (hlabel j hj) hpath

def dirA : AbsPath := ⟨[['a']], by decide⟩

def dirB : AbsPath := ⟨[['b']], by decide⟩

def fileAX : AbsPath := ⟨[['a'], ['x']], by decide⟩

def fileBX : AbsPath := ⟨[['b'], ['x']], by decide⟩

-- `/a/x` is made although there is no `/a`, and then the directory `/b` with its `x` becomes `/a`.
def collidingOps : List (WfsOp smallWfs) :=
  [.mkdir dirB 0o755, .file (.opens fileBX openWrite true), .file (.opens fileAX openWrite true),
    .rename dirB dirA]

theorem subtreeRename_collides : ∃ x, runOps collidingOps = .ok x ∧
    WfsRuns smallWfs (fun _ _ => True) x ∧ ∃ i j, i ≠ j ∧
      ((x.nodes i).used = true ∧ (x.nodes i).linked = true) ∧
      ((x.nodes j).used = true ∧ (x.nodes j).linked = true) ∧
      (x.nodes i).path = fileAX.chars ∧ (x.nodes j).path = fileAX.chars :=
  ⟨_, rfl, runOps_runs collidingOps rfl, 1, 2, by decide, by decide +kernel, by decide +kernel,
    by decide +kernel, by decide +kernel⟩

theorem not_collides_of_under {x : Wfs K} {src dst : AbsPath}
    (h : ∀ k, (labels x k).all (fun l => pathUnder l.1 src.chars) = true) :
    ¬ Collides x (.rename src dst) := by
  rintro ⟨-, -, -, -, -, k, l', -, -, -, hk, hout, -⟩
  have hunder := h k
  rw [hk, Option.all_some, hout] at hunder
  cases hunder

theorem subtreeRename_unique : ∃ x : Wfs smallWfs,
    WfsRuns smallWfs (fun x op => ¬ Collides x op) x ∧
    labels x 0 = some (dirA.chars, .dir) ∧ labels x 1 = some (fileAX.chars, .reg) ∧
    ∀ i j, (x.nodes i).used = true ∧ (x.nodes i).linked = true →
      (x.nodes j).used = true ∧ (x.nodes j).linked = true →
      (x.nodes i).path = (x.nodes j).path → i = j := by
  obtain ⟨x, hrun, hdir, hfile⟩ : ∃ x : Wfs smallWfs,
      WfsRuns smallWfs (fun x op => ¬ Collides x op) x ∧
      labels x 0 = some (dirA.chars, .dir) ∧ labels x 1 = some (fileAX.chars, .reg) := by
    exact ⟨_, .step (.rename dirB dirA) (.step (.file (.opens fileBX openWrite true))
      (.step (.mkdir dirB 0o755) (.start (Mem.ofBytes fun _ => 7)) id rfl) id rfl)
        (not_collides_of_under (by decide +kernel)) rfl, by decide +kernel, by decide +kernel⟩
  exact ⟨x, hrun, hdir, hfile, wfsRuns_unique hrun⟩

/-! ## Renaming -/

/-- The table `x'` after node `i` was renamed: what was below it moved with it, and the node at the
new path is unlinked. -/
structure Renamed (x : Wfs K) (i : K.Node) (type : FileType) (old new : Path) (x' : Wfs K) :
    Prop where
  ofds : x'.ofds = x.ofds
  node : x'.nodes i = { x.nodes i with path := new } ∧ content x' i = content x i
  target : ∀ t, wfsFind new x = some t → x'.nodes t = (x.nodes t).unlinked ∧
    ((x.nodes t).openRefs ≠ 0 → content x' t = content x t)
  other : ∀ j, j ≠ i → wfsFind new x ≠ some j → content x' j = content x j ∧
    x'.nodes j = if type = .dir ∧ (x.nodes j).below old then
      { x.nodes j with path := movedPath old new (x.nodes j).path } else x.nodes j

/-- A rename that fails changes nothing. -/
theorem wfsRename_frame (hs : Sound x) {old : Path} (hl : labels x i = some (old, type))
    (new : Path) :
    ∃ r x', wfsRename i new x = .ok (r, x') ∧
      (r ≠ .ok () ∧ x' = x ∨ r = .ok () ∧ (old = new ∧ x' = x ∨ Renamed x i type old new x')) := by
  rcases wfsRename_cases hs hl new with ⟨r, heq, hsame⟩ | ⟨x1, heq, -, -, hs1, hl1, htarget⟩
  · refine ⟨r, x, heq, ?_⟩
    by_cases hok : r = .ok ()
    · exact .inr ⟨hok, .inl ⟨hsame hok, rfl⟩⟩
    · exact .inl ⟨hok, rfl⟩
  obtain ⟨-, -, hcontent⟩ := moved_spec hs1 hl1 new
  refine ⟨_, _, heq, .inr ⟨rfl, .inr ?_⟩⟩
  have hnode : ∀ j, j ≠ i →
      (setNode i (fun n => { n with path := new }) (moveBelow i new x1)).nodes j =
        if type = .dir ∧ (x1.nodes j).below old then
          { x1.nodes j with path := movedPath old new (x1.nodes j).path } else x1.nodes j := by
    intro j hji
    cases entry_of_label hl1
    simp [moveBelow, hji]
  have hfreed : x1.ofds = x.ofds ∧ wfsFind new x ≠ some i ∧
      (∀ t, wfsFind new x = some t → x1.nodes t = (x.nodes t).unlinked ∧
        ((x.nodes t).openRefs ≠ 0 → content x1 t = content x t)) ∧
      ∀ j, wfsFind new x ≠ some j → x1.nodes j = x.nodes j ∧ content x1 j = content x j := by
    rcases htarget with ⟨hnone, rfl⟩ | ⟨t, htarget, hti, hofds, hnodes, hfreed⟩
    · simp [hnone]
    rw [htarget, hnodes, hfreed]
    refine ⟨hofds, fun h => hti (Option.some.inj h).symm, fun t' ht => ?_, fun j hj => ?_⟩
    · cases ht
      exact ⟨update_self .., fun h => by rw [if_neg h]⟩
    have hjt : j ≠ t := fun h => hj (by rw [h])
    refine ⟨update_of_ne hjt _ _, ?_⟩
    split
    · exact update_of_ne hjt _ _
    · rfl
  obtain ⟨hofds, hi, htarget, hother⟩ := hfreed
  refine ⟨hofds, ⟨?_, (congrFun hcontent i).trans (hother i hi).2⟩, fun t ht => ?_,
    fun j hji hj => ?_⟩
  · simp [moveBelow, (hother i hi).1]
  · obtain ⟨hgone, hkept⟩ := htarget t ht
    refine ⟨?_, fun h => (congrFun hcontent t).trans (hkept h)⟩
    have hti : t ≠ i := by
      rintro rfl
      exact hi ht
    -- an unlinked node is below nothing
    rw [hnode t hti, hgone]
    unfold Wnode.below Wnode.unlinked
    split <;> simp
  · obtain ⟨hsame, hkept⟩ := hother j hj
    refine ⟨(congrFun hcontent j).trans hkept, ?_⟩
    rw [hnode j hji, hsame]

theorem subtreeRename_moves : ∃ x x', runOps (collidingOps.take 2) = .ok x ∧
    labels x 0 = some (dirB.chars, .dir) ∧ labels x 1 = some (fileBX.chars, .reg) ∧
    wfsRename 0 dirA.chars x = .ok (.ok (), x') ∧ Renamed x 0 .dir dirB.chars dirA.chars x' ∧
    (x'.nodes 1).path = fileAX.chars := by
  obtain ⟨x, x1, hrun, hl, hfile, hbelow, heq⟩ : ∃ x x1, runOps (collidingOps.take 2) = .ok x ∧
      labels x 0 = some (dirB.chars, .dir) ∧ labels x 1 = some (fileBX.chars, .reg) ∧
      ((x.nodes 1).below dirB.chars = true ∧ wfsFind dirA.chars x = none) ∧
      wfsRename 0 dirA.chars x = .ok (.ok (), x1) :=
    ⟨_, _, rfl, by decide +kernel, by decide +kernel, by decide +kernel, rfl⟩
  obtain ⟨r, x', heq', hcase⟩ := wfsRename_frame (runOps_runs _ hrun).sound hl dirA.chars
  cases heq.symm.trans heq'
  rcases hcase with ⟨hfail, -⟩ | ⟨-, ⟨hsame, -⟩ | hren⟩
  · exact absurd rfl hfail
  · exact absurd hsame (by decide)
  have hnode := (hren.other 1 (by decide) (by rw [hbelow.2]; nofun)).2
  rw [if_pos ⟨rfl, hbelow.1⟩] at hnode
  refine ⟨x, _, hrun, hl, hfile, heq, hren, ?_⟩
  rw [hnode, show (x.nodes 1).path = fileBX.chars from
    congrArg Prod.fst (entry_of_label hfile).symm]
  rfl

/-! ## Parents -/

def AbsPath.parent (p : AbsPath) : AbsPath :=
  ⟨p.names.dropLast, fun c hc => p.ok c (List.dropLast_subset _ hc)⟩

theorem AbsPath.parent_names (p : AbsPath) : p.parent.names = p.names.dropLast := rfl

/-- The rootfs, or the root itself where the image has no entry for it, has a directory there. -/
def RootDir (K : WfsConfig) (p : AbsPath) : Prop :=
  match fsLookup K p.chars with
  | some fi => (K.rootfs[fi]?).map RootEntry.type = some .dir
  | none => p.names = []

def DirAt (K : WfsConfig) (L : K.Node → Option (Path × FileType)) (p : AbsPath) : Prop :=
  (∃ i, L i = some (p.chars, .dir)) ∨ RootDir K p

/-- No entry of the rootfs lies at or below the path. -/
def RootClear (K : WfsConfig) (path : Path) : Prop :=
  ∀ e ∈ K.rootfs, pathUnder e.path path = false

/-- Every node has a parent, and a node hides no entry of the rootfs. -/
structure Tree (K : WfsConfig) (L : K.Node → Option (Path × FileType)) : Prop where
  unique : Unique L
  path : ∀ i l, L i = some l → ∃ p : AbsPath, l.1 = p.chars ∧ p.names ≠ []
  unhidden : ∀ i l, L i = some l → fsLookup K l.1 = none
  parent : ∀ i (p : AbsPath) t, L i = some (p.chars, t) → DirAt K L p.parent

/-- What the caller has to see to.  A new name is not the root and stands in a directory.  A name
that is replaced is of the same kind, and a directory that is moved takes nothing of the rootfs with
it and finds nothing below its new name. -/
def WellPlaced (x : Wfs K) (op : WfsOp K) : Prop :=
  (∀ path type, op.makes = some (path, type) → wfsFind path.chars x = none →
    fsLookup K path.chars = none →
    path.names ≠ [] ∧ overlayStat path.parent.chars x = some .dir) ∧
  ∀ src dst i, op = .rename src dst → Renames x src dst i →
    dst.names ≠ [] ∧ overlayStat dst.parent.chars x = some .dir ∧
    (∀ t, wfsFind dst.chars x = some t → ((x.nodes i).type = .dir ↔ (x.nodes t).type = .dir)) ∧
    ((x.nodes i).type = .dir → wfsHasDescendant dst.chars x = false ∧
      RootClear K src.chars ∧ RootClear K dst.chars)

section Tree

variable {x : Wfs K} {L L' : K.Node → Option (Path × FileType)}

/-- On a tree the merged namespace has a directory exactly where a directory node or a directory of
the rootfs is. -/
theorem Tree.stat_iff (ht : Tree K (labels x)) (p : AbsPath) :
    overlayStat p.chars x = some .dir ↔ DirAt K (labels x) p := by
  unfold overlayStat DirAt RootDir
  split
  · rename_i i hfind
    have hi := wfsFind_eq_some hfind
    have hclear := ht.unhidden i _ hi
    have hroot : p.names ≠ [] := by
      obtain ⟨q, hq, hne⟩ := ht.path i _ hi
      rw [AbsPath.chars_injective hq]
      exact hne
    rw [hclear]
    constructor
    · intro hdir
      injection hdir with hdir
      rw [hdir] at hi
      exact .inl ⟨i, hi⟩
    · rintro (⟨j, hj⟩ | habs)
      · obtain rfl := ht.unique i j _ _ hi hj rfl
        rw [hi] at hj
        injection hj with hj
        rw [(Prod.mk.inj hj).2]
      · exact absurd habs hroot
  · rename_i hfind
    have hnone : ¬ ∃ i, labels x i = some (p.chars, .dir) := by
      rintro ⟨i, hi⟩
      exact wfsFind_eq_none.mp hfind i _ hi
    cases fsLookup K p.chars with
    | some fi => simp only [hnone, false_or]
    | none =>
      simp only [hnone, AbsPath.chars_eq_root]
      by_cases hp : p.names = []
      · simp [hp]
      · simp [hp]

theorem DirAt.mono {p : AbsPath} (h : DirAt K L p)
    (hsub : ∀ i l, L i = some l → ∃ j, L' j = some l) : DirAt K L' p := by
  rcases h with ⟨i, hi⟩ | hroot
  · obtain ⟨j, hj⟩ := hsub i _ hi
    exact .inl ⟨j, hj⟩
  · exact .inr hroot

variable {type : FileType} {i j : K.Node}

theorem Tree.make (ht : Tree K L) {path : AbsPath} (h : Makes K path.chars type L L')
    (hne : path.names ≠ []) (hparent : DirAt K L path.parent) : Tree K L' := by
  have hunique := ht.unique.make h
  obtain ⟨i, hnone, -, hclear, rfl⟩ := h
  have hsub : ∀ j l, L j = some l → ∃ k, update L i (some (path.chars, type)) k = some l := by
    intro j l hj
    refine ⟨j, ?_⟩
    rw [update_of_ne, hj]
    rintro rfl
    rw [hnone] at hj
    cases hj
  refine ⟨hunique, ?_, ?_, ?_⟩
  · intro j l hj
    by_cases hji : j = i
    · rw [hji, update_self] at hj
      cases hj
      exact ⟨path, rfl, hne⟩
    · rw [update_of_ne hji] at hj
      exact ht.path j l hj
  · intro j l hj
    by_cases hji : j = i
    · rw [hji, update_self] at hj
      cases hj
      exact hclear
    · rw [update_of_ne hji] at hj
      exact ht.unhidden j l hj
  intro j p t hj
  by_cases hji : j = i
  · rw [hji, update_self] at hj
    injection hj with hj
    rw [AbsPath.chars_injective (Prod.mk.inj hj).1] at hparent
    exact hparent.mono hsub
  · rw [update_of_ne hji] at hj
    exact (ht.parent j p t hj).mono hsub

theorem Tree.remove (ht : Tree K L) {q : AbsPath} (hi : L i = some (q.chars, type))
    (hempty : type = .dir → ∀ j l, L j = some l → pathChildName q.chars l.1 = none) :
    Tree K (update L i none) := by
  have hback : ∀ j l, update L i none j = some l → j ≠ i ∧ L j = some l := by
    intro j l hj
    by_cases hji : j = i
    · rw [hji, update_self] at hj
      cases hj
    · rw [update_of_ne hji] at hj
      exact ⟨hji, hj⟩
  refine ⟨ht.unique.forget i, fun j l hj => ht.path j l (hback j l hj).2,
    fun j l hj => ht.unhidden j l (hback j l hj).2, ?_⟩
  intro j p t hj
  obtain ⟨-, hLj⟩ := hback j _ hj
  rcases ht.parent j p t hLj with ⟨k, hk⟩ | hroot
  · refine .inl ⟨k, ?_⟩
    rw [update_of_ne, hk]
    rintro rfl
    -- The parent would be the node that goes.
    rw [hi] at hk
    injection hk with hk
    obtain ⟨hq, htype⟩ := Prod.mk.inj hk
    obtain ⟨p', hp', hne⟩ := ht.path j _ hLj
    obtain rfl := AbsPath.chars_injective hp'
    have hchild : pathChildName q.chars p.chars = some (p.names.getLast hne) := by
      rw [AbsPath.childName_iff, AbsPath.chars_injective hq]
      exact (dropLast_append_getLast hne).symm
    rw [hempty htype j _ hLj] at hchild
    cases hchild
  · exact .inr hroot

theorem moveLabels_stay {old new : Path} (hji : j ≠ i) (hj : L j = some l)
    (hout : type = .dir → pathUnder l.1 old = false) : moveLabels i type old new L j = some l := by
  unfold moveLabels
  rw [if_neg hji, hj, Option.map_some, if_neg]
  rintro ⟨hdir, hunder⟩
  rw [hout hdir] at hunder
  cases hunder

theorem moveLabels_go {old new : Path} (hji : j ≠ i) (hj : L j = some l)
    (hunder : pathUnder l.1 old = true) :
    moveLabels i .dir old new L j = some (movedPath old new l.1, l.2) := by
  unfold moveLabels
  rw [if_neg hji, hj, Option.map_some, if_pos ⟨rfl, hunder⟩]

section Move

variable {src dst : AbsPath}

theorem Tree.label_before (ht : Tree K L) (hi : L i = some (src.chars, type)) (hne : dst.names ≠ [])
    (hji : j ≠ i) (hl : moveLabels i type src.chars dst.chars L j = some l) :
    ∃ p : AbsPath, l.1 = p.chars ∧
      (type = .dir ∧ (∃ (q : AbsPath) (es : List Path), L j = some (q.chars, l.2) ∧
          q.names = src.names ++ es ∧ es ≠ [] ∧ p.names = dst.names ++ es) ∨
        L j = some l ∧ (type = .dir → ¬ src.names <+: p.names)) := by
  obtain ⟨r, hr, hsrc⟩ := ht.path i _ hi
  obtain rfl := AbsPath.chars_injective hr
  obtain ⟨l0, hl0, htype, ⟨hdir, ⟨rest, hold, hnew⟩, hunder⟩ | ⟨hsame, hout⟩⟩ :=
    moveLabels_of_ne hji hl
  · obtain ⟨q, hq, -⟩ := ht.path j _ hl0
    rw [hq, AbsPath.under_iff] at hunder
    obtain ⟨es, hes⟩ := hunder
    have hrest : rest = spell es := by
      rw [hq, AbsPath.chars_append hsrc hes.symm] at hold
      exact (append_cancel_left hold).symm
    have hok : ∀ c ∈ es, IsName c := fun c hc => q.ok c (hes ▸ mem_append_right _ hc)
    refine ⟨dst.extend es hok, ?_, .inl ⟨hdir, q, es, ?_, hes.symm, ?_, rfl⟩⟩
    · rw [hnew, hrest]
      exact (AbsPath.chars_append hne rfl).symm
    · rw [hl0, ← hq, ← htype]
    · rintro rfl
      rw [append_nil] at hes
      exact hji (ht.unique j i _ _ hl0 hi (by rw [hq, AbsPath.ext hes]))
  · obtain ⟨p, hp, -⟩ := ht.path j _ hl0
    refine ⟨p, hsame ▸ hp, .inr ⟨?_, fun hdir hpre => ?_⟩⟩
    · rw [hl0]
      exact congrArg some (Prod.ext hsame htype)
    · have := hout hdir
      rw [hp, (AbsPath.under_iff p src).mpr hpre] at this
      cases this

theorem not_rootDir_under {p d : AbsPath} (hclear : RootClear K d.chars) (hd : d.names ≠ [])
    (hpre : d.names <+: p.names) : ¬ RootDir K p := by
  unfold RootDir
  split
  · rename_i hfi
    obtain ⟨e, he, hpath⟩ := fsLookup_some hfi
    have := hclear e (mem_of_getElem? he)
    rw [hpath, (AbsPath.under_iff p d).mpr hpre] at this
    cases this
  · intro hp
    rw [hp, prefix_nil] at hpre
    exact hd hpre

theorem DirAt.stay {p : AbsPath} (h : DirAt K L p) (hi : L i = some (src.chars, type))
    (hout : type = .dir → ¬ src.names <+: p.names) :
    DirAt K (moveLabels i type src.chars dst.chars L) p := by
  rcases h with ⟨k, hk⟩ | hroot
  · refine .inl ⟨k, moveLabels_stay ?_ hk fun hdir => ?_⟩
    · rintro rfl
      rw [hi] at hk
      injection hk with hk
      obtain ⟨hp, htype⟩ := Prod.mk.inj hk
      exact hout htype (by rw [AbsPath.chars_injective hp])
    · by_contra hunder
      exact hout hdir ((AbsPath.under_iff p src).mp (by simpa using hunder))
  · exact .inr hroot

theorem parent_isFront (p : AbsPath) : p.parent.names <+: p.names := dropLast_prefix _

theorem Tree.move (ht : Tree K L) (hi : L i = some (src.chars, type))
    (hfresh : ∀ j t, L j ≠ some (dst.chars, t)) (hclear : fsLookup K dst.chars = none)
    (hne : dst.names ≠ []) (hparent : DirAt K L dst.parent)
    (hnest : type = .dir → ¬ src.names <+: dst.names)
    (hdir : type = .dir → (∀ j l, L j = some l → pathUnder l.1 dst.chars = false) ∧
      RootClear K src.chars ∧ RootClear K dst.chars) :
    Tree K (moveLabels i type src.chars dst.chars L) := by
  obtain ⟨r, hr, hsrc⟩ := ht.path i _ hi
  obtain rfl := AbsPath.chars_injective hr
  have hself : moveLabels i type src.chars dst.chars L i = some (dst.chars, type) := if_pos rfl
  have hunique : Unique (moveLabels i type src.chars dst.chars L) := by
    refine ht.unique.move hi hfresh ?_
    intro htype j l k l' _ hj hunder hk _ heq
    obtain ⟨q, hq, -⟩ := ht.path j _ hj
    obtain ⟨p, hp, -⟩ := ht.path k _ hk
    obtain ⟨rest, hrest⟩ := pathUnder_split hunder
    rw [hq, AbsPath.under_iff] at hunder
    obtain ⟨es, hes⟩ := hunder
    -- Nothing stands below the new name, so nothing is in the way.
    have hbelow := (hdir htype).1 k l' hk
    have hok : ∀ c ∈ es, IsName c := fun c hc => q.ok c (hes ▸ mem_append_right _ hc)
    have hpc : p = dst.extend es hok := by
      apply AbsPath.chars_injective
      rw [AbsPath.chars_append (p := dst.extend es hok) hne rfl, ← hp, heq, hrest, movedPath_append]
      rw [hq, AbsPath.chars_append hsrc hes.symm] at hrest
      rw [append_cancel_left hrest]
    have hpnames : dst.names <+: p.names := ⟨es, by rw [hpc]; rfl⟩
    rw [hp, (AbsPath.under_iff p dst).mpr hpnames] at hbelow
    cases hbelow
  refine ⟨hunique, ?_, ?_, ?_⟩
  · intro j l hj
    by_cases hji : j = i
    · rw [hji, hself] at hj
      cases hj
      exact ⟨dst, rfl, hne⟩
    obtain ⟨p, hp, hcase⟩ := ht.label_before hi hne hji hj
    refine ⟨p, hp, ?_⟩
    rcases hcase with ⟨-, q, es, -, -, hes, hpn⟩ | ⟨hstay, -⟩
    · rw [hpn]
      simp [hes]
    · obtain ⟨p', hp', hne'⟩ := ht.path j _ hstay
      rwa [AbsPath.chars_injective (hp.symm.trans hp')]
  · intro j l hj
    by_cases hji : j = i
    · rw [hji, hself] at hj
      cases hj
      exact hclear
    obtain ⟨p, hp, ⟨htype, q, es, -, -, -, hpn⟩ | ⟨hstay, -⟩⟩ := ht.label_before hi hne hji hj
    · cases hlook : fsLookup K l.1 with
      | none => rfl
      | some fi =>
        obtain ⟨e, he, hpath⟩ := fsLookup_some hlook
        have := (hdir htype).2.2 e (mem_of_getElem? he)
        rw [hpath, hp, (AbsPath.under_iff p dst).mpr ⟨es, hpn.symm⟩] at this
        cases this
    · exact ht.unhidden j l hstay
  · intro j p t hj
    by_cases hji : j = i
    · rw [hji, hself] at hj
      injection hj with hj
      rw [← AbsPath.chars_injective (Prod.mk.inj hj).1]
      exact hparent.stay hi fun htype hpre => hnest htype (hpre.trans (parent_isFront dst))
    obtain ⟨p', hp', hcase⟩ := ht.label_before hi hne hji hj
    obtain rfl := AbsPath.chars_injective hp'
    rcases hcase with ⟨rfl, q, es, hq, hqn, hes, hpn⟩ | ⟨hstay, hout⟩
    · have hqp : q.parent.names = src.names ++ es.dropLast := by
        rw [AbsPath.parent_names, hqn, dropLast_append_of_ne_nil hes]
      have hpp : p.parent.names = dst.names ++ es.dropLast := by
        rw [AbsPath.parent_names, hpn, dropLast_append_of_ne_nil hes]
      rcases ht.parent j q t hq with ⟨k, hk⟩ | hroot
      · refine .inl ⟨k, ?_⟩
        by_cases hki : k = i
        · -- The parent is the directory that is renamed.
          rw [hki, hi] at hk
          injection hk with hk
          have hnames := congrArg AbsPath.names (AbsPath.chars_injective (Prod.mk.inj hk).1)
          rw [hqp] at hnames
          have hnil : es.dropLast = [] := self_eq_append_right.mp hnames
          have hpd : p.parent = dst := AbsPath.ext (by rw [hpp, hnil, append_nil])
          rw [hki, hself, hpd]
        · have hunder : pathUnder q.parent.chars src.chars = true :=
            (AbsPath.under_iff _ _).mpr ⟨_, hqp.symm⟩
          rw [moveLabels_go hki hk hunder, AbsPath.chars_append hsrc hqp, movedPath_append,
            AbsPath.chars_append hne hpp]
      · exact absurd hroot (not_rootDir_under (hdir rfl).2.1 hsrc ⟨_, hqp.symm⟩)
    · exact (ht.parent j p t hstay).stay hi
        fun htype hpre => hout htype (hpre.trans (parent_isFront p))

end Move

theorem hasDescendant_eq_false {dir : Path} (h : wfsHasDescendant dir x = false)
    (hj : labels x j = some l) (hunder : pathUnder l.1 dir = true) : l.1 = dir := by
  obtain ⟨hused, hlinked⟩ := linked_of_label hj
  have hpath : (x.nodes j).path = l.1 := (congrArg Prod.fst (entry_of_label hj)).symm
  have hall := any_eq_false.mp h j (mem_finRange j)
  simpa [Wnode.below, hused, hlinked, hpath, hunder] using hall

theorem Tree.cleared (ht : Tree K (labels x)) {t : K.Node} {dst : AbsPath}
    (hfind : wfsFind dst.chars x = some t) (hempty : wfsHasDescendant dst.chars x = false) :
    Tree K (update (labels x) t none) := by
  refine ht.remove (wfsFind_eq_some hfind) fun _ j l hj => ?_
  obtain ⟨p, hp, -⟩ := ht.path j l hj
  cases hchild : pathChildName dst.chars l.1 with
  | none => rfl
  | some c =>
    rw [hp, AbsPath.childName_iff] at hchild
    have hunder : pathUnder l.1 dst.chars = true := by
      rw [hp, AbsPath.under_iff]
      exact ⟨[c], hchild.symm⟩
    have hsame := hasDescendant_eq_false hempty hj hunder
    rw [hp] at hsame
    rw [AbsPath.chars_injective hsame] at hchild
    exact absurd hchild.symm (by simp)

theorem renameRefused_eq_none {new : Path} (h : renameRefused i new x = none) :
    ((x.nodes i).type = .dir → pathUnder new (x.nodes i).path = false) ∧
      ((wfsFind new x).isSome = true → wfsHasDescendant new x = false) := by
  unfold renameRefused at h
  dsimp only at h
  split at h
  · cases h
  split at h
  · cases h
  rename_i hnest
  split at h
  · cases h
  rename_i hempty
  exact ⟨fun hdir => by simpa [hdir] using hnest, fun hsome => by simpa [hsome] using hempty⟩

theorem Tree.step (ht : Tree K (labels x)) {op : WfsOp K} (hok : WellPlaced x op)
    (hstep : NameStep x op L') : Tree K L' := by
  cases hstep with
  | same => exact ht
  | @made path type L' hop hmakes =>
    obtain ⟨i, -, hfresh, hclear, -⟩ := id hmakes
    obtain ⟨hne, hparent⟩ := hok.1 path type hop (wfsFind_eq_none.mpr hfresh) hclear
    exact ht.make hmakes hne ((ht.stat_iff _).mp hparent)
  | removed hop hfind hempty => exact ht.remove (wfsFind_eq_some hfind) hempty
  | @renamed src dst i L hop hmoves hdst =>
    obtain ⟨hroot, hparent, -, hdir⟩ := hok.2 src dst i hop hmoves
    obtain ⟨hfind, hne, hfits, hrootfs⟩ := hmoves
    obtain ⟨hnest, hempty⟩ := renameRefused_eq_none hfits
    have hparent := (ht.stat_iff _).mp hparent
    obtain ⟨-, hfresh, hback, hkeep⟩ := ht.unique.cleared hdst
    have htL : Tree K L := by
      rcases hdst with ⟨-, rfl⟩ | ⟨t, htarget, rfl⟩
      · exact ht
      · exact ht.cleared htarget (hempty (by rw [htarget]; rfl))
    have hclear : fsLookup K dst.chars = none := by
      rcases hdst with ⟨hnone, -⟩ | ⟨t, htarget, -⟩
      · exact hrootfs hnone
      · exact ht.unhidden t _ (wfsFind_eq_some htarget)
    refine htL.move (hkeep i _ (wfsFind_eq_some hfind) hne) hfresh hclear hroot ?_ ?_ ?_
    · -- The parent of the new name is not the node that is replaced.
      rcases hparent with ⟨k, hk⟩ | hrootDir
      · refine .inl ⟨k, hkeep k _ hk fun hsame => ?_⟩
        have hnames := congrArg (fun p => p.names.length) (AbsPath.chars_injective hsame)
        have hpos := length_pos_iff.mpr hroot
        simp only [AbsPath.parent_names, length_dropLast] at hnames
        omega
      · exact .inr hrootDir
    · intro htype hpre
      have hout := hnest htype
      have hpath : (x.nodes i).path = src.chars :=
        congrArg Prod.fst (entry_of_label (wfsFind_eq_some hfind)).symm
      rw [hpath, (AbsPath.under_iff dst src).mpr hpre] at hout
      cases hout
    · intro htype
      obtain ⟨hempty, hsrc, hdst'⟩ := hdir htype
      refine ⟨fun j l hj => ?_, hsrc, hdst'⟩
      by_contra hunder
      have hsame := hasDescendant_eq_false hempty (hback j l hj) (by simpa using hunder)
      exact hfresh j l.2 (by rw [hj, ← hsame])

theorem Tree.dirAt_iff (ht : Tree K L) {p : AbsPath}
    (hi : L i = some (p.chars, type)) : DirAt K L p ↔ type = .dir := by
  constructor
  · rintro (⟨k, hk⟩ | hroot)
    · have hki := ht.unique k i _ _ hk hi rfl
      rw [hki, hi] at hk
      exact congrArg Prod.snd (Option.some.inj hk)
    have hclear : fsLookup K p.chars = none := ht.unhidden i _ hi
    obtain ⟨q, hq, hne⟩ := ht.path i _ hi
    rw [← AbsPath.chars_injective hq] at hne
    simp only [RootDir, hclear] at hroot
    exact absurd hroot hne
  · rintro rfl
    exact .inl ⟨i, hi⟩

theorem Tree.replace (ht : Tree K (labels x)) {src dst : AbsPath}
    (hok : WellPlaced x (.rename src dst)) (hstep : NameStep x (.rename src dst) L')
    (hthere : (overlayStat dst.chars x).isSome = true) :
    DirAt K L' dst ↔ DirAt K (labels x) dst := by
  have ht' := ht.step hok hstep
  cases hstep with
  | same => rfl
  | made hop | removed hop => cases hop
  | @renamed _ _ i L hop hmoves hdst =>
    cases hop
    obtain ⟨hroot, -, hkind, -⟩ := hok.2 src dst i rfl hmoves
    rcases hdst with ⟨hnone, -⟩ | ⟨t, htarget, -⟩
    · have hnamed : dst.chars ≠ ['/'] := fun h => hroot (AbsPath.chars_eq_root.mp h)
      simp [overlayStat, hnone, hmoves.2.2.2 hnone, hnamed] at hthere
    · have hi : moveLabels i (x.nodes i).type src.chars dst.chars L i =
          some (dst.chars, (x.nodes i).type) := if_pos rfl
      rw [ht'.dirAt_iff hi, ht.dirAt_iff (wfsFind_eq_some htarget)]
      exact hkind t htarget

end Tree

/-- In every run of well-placed operations, the parent of a linked node is an existing directory of
the merged namespace, and what a rename leaves at a name that existed is a directory exactly when
a directory was there. -/
theorem wfsRuns_tree {x : Wfs K} (h : WfsRuns K WellPlaced x) :
    (∀ i, (x.nodes i).used = true → (x.nodes i).linked = true →
      ∃ p : AbsPath, (x.nodes i).path = p.chars ∧ p.names ≠ [] ∧
        overlayStat p.parent.chars x = some .dir) ∧
    ∀ (src dst : AbsPath) (r : Except FsErrno Unit) (x' : Wfs K), WellPlaced x (.rename src dst) →
      overlayRename src.chars dst.chars x = .ok (r, x') →
      (overlayStat dst.chars x).isSome = true →
      (overlayStat dst.chars x' = some .dir ↔ overlayStat dst.chars x = some .dir) := by
  have hinv : Sound x ∧ Tree K (labels x) := by
    refine h.invariant (fun x => Sound x ∧ Tree K (labels x)) ?_ ?_
    · intro mem
      refine ⟨wfsBoot_sound mem, fun i j l l' hi => ?_, fun i l hi => ?_, fun i l hi => ?_,
        fun i p t hi => ?_⟩ <;> cases hi
    rintro x op x' ⟨hs, ht⟩ hok hrun
    obtain ⟨x1, hrun1, hs1, hstep⟩ := op.run_cases hs
    rw [hrun] at hrun1
    cases hrun1
    exact ⟨hs1, ht.step hok hstep⟩
  obtain ⟨hs, ht⟩ := hinv
  constructor
  · intro i hused hlinked
    have hlabel : labels x i = some ((x.nodes i).path, (x.nodes i).type) := by
      simp only [labels, Wnode.label, hused, hlinked, Bool.and_self, if_true]
    obtain ⟨p, hp, hne⟩ := ht.path i _ hlabel
    refine ⟨p, hp, hne, (ht.stat_iff _).mpr (ht.parent i p (x.nodes i).type ?_)⟩
    rw [hlabel]
    exact congrArg (fun path => some (path, (x.nodes i).type)) hp
  · intro src dst r x' hok hrun hthere
    obtain ⟨r1, x1, hrun1, -, hstep⟩ := overlayRename_cases hs src dst
    rw [hrun] at hrun1
    cases hrun1
    rw [(ht.step hok hstep).stat_iff, ht.stat_iff]
    exact ht.replace hok hstep hthere

def orphanOps : List (WfsOp smallWfs) := [.file (.opens fileAX openWrite true)]

def replacingOps : List (WfsOp smallWfs) :=
  [.mkdir dirA 0o755, .file (.opens fileF openWrite true)]

theorem orphan_and_replacement :
    (∃ x, runOps orphanOps = .ok x ∧ WfsRuns smallWfs (fun _ _ => True) x ∧
      (x.nodes 0).used = true ∧ (x.nodes 0).linked = true ∧ (x.nodes 0).path = fileAX.chars ∧
      overlayStat fileAX.parent.chars x = none) ∧
    ∃ x x', runOps replacingOps = .ok x ∧ WfsRuns smallWfs (fun _ _ => True) x ∧
      overlayStat fileF.chars x = some .reg ∧ overlayStat dirA.chars x = some .dir ∧
      overlayRename fileF.chars dirA.chars x = .ok (.ok (), x') ∧
      overlayStat dirA.chars x' = some .reg :=
  ⟨⟨_, rfl, runOps_runs orphanOps rfl, by decide +kernel, by decide +kernel, by decide +kernel,
      by decide +kernel⟩,
    _, _, rfl, runOps_runs replacingOps rfl, by decide +kernel, by decide +kernel, rfl,
    by decide +kernel⟩

theorem wellPlaced_make {x : Wfs K} {op : WfsOp K} {path : AbsPath} {type : FileType}
    (hop : op.makes = some (path, type)) (hne : path.names ≠ [])
    (hdir : overlayStat path.parent.chars x = some .dir) : WellPlaced x op := by
  refine ⟨fun path' type' hop' _ _ => ?_, ?_⟩
  · cases hop.symm.trans hop'
    exact ⟨hne, hdir⟩
  · rintro src dst i rfl
    cases hop

theorem wellPlaced_rename {x : Wfs K} {src dst : AbsPath} {i : K.Node}
    (hfind : wfsFind src.chars x = some i) (hne : dst.names ≠ [])
    (hdir : overlayStat dst.parent.chars x = some .dir)
    (hkind : ∀ t, wfsFind dst.chars x = some t →
      ((x.nodes i).type = .dir ↔ (x.nodes t).type = .dir))
    (hempty : wfsHasDescendant dst.chars x = false)
    (hroot : RootClear K src.chars ∧ RootClear K dst.chars) : WellPlaced x (.rename src dst) := by
  refine ⟨nofun, fun src' dst' i' hop hmoves => ?_⟩
  cases hop
  cases hfind.symm.trans hmoves.1
  exact ⟨hne, hdir, hkind, fun _ => ⟨hempty, hroot⟩⟩

theorem dirRename_tree : ∃ x x' : Wfs smallWfs, WfsRuns smallWfs WellPlaced x ∧
    labels x 1 = some (fileBX.chars, .reg) ∧ overlayStat fileBX.parent.chars x = some .dir ∧
    overlayStat dirA.chars x = some .dir ∧
    overlayRename dirB.chars dirA.chars x = .ok (.ok (), x') ∧
    labels x' 1 = some (fileAX.chars, .reg) ∧ overlayStat dirA.chars x' = some .dir := by
  obtain ⟨x, x', hrun, hfile, hplaced, hstat, heq, hmoved⟩ : ∃ x x' : Wfs smallWfs,
      WfsRuns smallWfs WellPlaced x ∧ labels x 1 = some (fileBX.chars, .reg) ∧
      WellPlaced x (.rename dirB dirA) ∧ overlayStat dirA.chars x = some .dir ∧
      overlayRename dirB.chars dirA.chars x = .ok (.ok (), x') ∧
      labels x' 1 = some (fileAX.chars, .reg) := by
    refine ⟨_, _, .step (.mkdir dirA 0o755) (.step (.file (.opens fileBX openWrite true))
      (.step (.mkdir dirB 0o755) (.start (Mem.ofBytes fun _ => 7)) (wellPlaced_make rfl (by decide)
        (by decide +kernel)) rfl) (wellPlaced_make rfl (by decide) (by decide +kernel)) rfl)
      (wellPlaced_make rfl (by decide) (by decide +kernel)) rfl, by decide +kernel,
      wellPlaced_rename (i := 0) (by decide +kernel) (by decide) (by decide +kernel)
        (by decide +kernel) (by decide +kernel) ?_, by decide +kernel, rfl, by decide +kernel⟩
    unfold RootClear
    decide
  obtain ⟨hparent, hkind⟩ := wfsRuns_tree hrun
  obtain ⟨hused, hlinked⟩ := linked_of_label hfile
  obtain ⟨p, hp, -, hdir⟩ := hparent 1 hused hlinked
  have hpath : fileBX.chars = p.chars := (congrArg Prod.fst (entry_of_label hfile)).trans hp
  rw [← AbsPath.chars_injective hpath] at hdir
  exact ⟨x, x', hrun, hfile, hdir, hstat, heq, hmoved,
    (hkind dirB dirA _ x' hplaced heq (by rw [hstat]; rfl)).mpr hstat⟩

end Lxp
