import Lxp.Overlay.Steps

/-!
# Files as byte lists

The abstract file system knows, for each node, the list of its bytes, and for each description its
offset.  Every file operation of the overlay is a step of it, from any state a run reaches, apart
from one: an open that empties the file and then finds no description to return.
-/

open ByteMemory Function RefPool ByteFile Bool

namespace Lxp

variable {K : WfsConfig}

/-! ## The abstract file system -/

@[ext] structure AbsFs (K : WfsConfig) where
  names : Path → Option K.Node
  files : K.Node → Bytes
  ofds : K.Ofd → OfdSlot K

def view (x : Wfs K) : AbsFs K := ⟨fun path => wfsFind path x, content x, x.ofds⟩

def AbsFs.seek (v : AbsFs K) (d : K.Ofd) (s : WOfd K) (offset : Nat) : AbsFs K :=
  { v with ofds := update v.ofds d (.tmpfs (s.seek offset)) }

def AbsFs.store (v : AbsFs K) (i : K.Node) (bs : Bytes) : AbsFs K :=
  { v with files := update v.files i bs }

/-- What a file operation with a given result does.  A failed one leaves everything as it was, but
for three: a position that cannot be returned has been taken, one that cannot be stored as well, and
a file that finds no description has been made. -/
inductive AbsStep : AbsFs K → FileOp K → FileResult → AbsFs K → Prop where
  | failed {v v' : AbsFs K} {op : FileOp K} {e : FsErrno} (hsame : v' = v) :
      AbsStep v op (.failed e) v'
  | lseekTooFar {v : AbsFs K} {d : K.Ofd} {s : WOfd K} {off : BitVec 32} {whence : Whence}
      {pos : Nat} (hd : v.ofds d = .tmpfs s)
      (hpos : vfsSeek K.word s.offset (v.files s.node).length off.toInt whence = .ok pos)
      (hfar : 2 ^ 31 - 1 < pos) : AbsStep v (.lseek d off whence) (.failed .eoverflow)
        (v.seek d s pos)
  | llseekUnstored {v : AbsFs K} {d : K.Ofd} {s : WOfd K} {off : BitVec 64} {whence : Whence}
      {pos : Nat} (hd : v.ofds d = .tmpfs s)
      (hpos : vfsSeek K.word s.offset (v.files s.node).length off.toInt whence = .ok pos) :
      AbsStep v (.llseek d off whence false) (.failed .efault) (v.seek d s pos)
  | madeUnopened {v : AbsFs K} {path : AbsPath} {flags : OpenFlags} {room : Bool}
      {i : K.Node} (hnone : v.names path.chars = none) (hcreat : flags.creat = true)
      (hnil : v.files i = []) : AbsStep v (.opens path flags room) (.failed .emfile)
        { v with names := update v.names path.chars (some i) }
  | read {v : AbsFs K} {d : K.Ofd} {s : WOfd K} {len : Nat} {bs : Bytes}
      (hd : v.ofds d = .tmpfs s) (hbs : bs = readAt s.offset len (v.files s.node)) :
      AbsStep v (.read d len true) (.bytes bs) (v.seek d s (s.offset + bs.length))
  | pread {v : AbsFs K} {d : K.Ofd} {s : WOfd K} {len off : Nat}
      (hd : v.ofds d = .tmpfs s) :
      AbsStep v (.pread d len off true) (.bytes (readAt off len (v.files s.node))) v
  | write {v : AbsFs K} {d : K.Ofd} {s : WOfd K} {src : Bytes}
      (hd : v.ofds d = .tmpfs s) :
      AbsStep v (.write d src true) (.number src.length)
        ((v.store s.node (writeAt s.offset src (v.files s.node))).seek d s (s.offset + src.length))
  | pwrite {v : AbsFs K} {d : K.Ofd} {s : WOfd K} {off : Nat} {src : Bytes}
      (hd : v.ofds d = .tmpfs s) :
      AbsStep v (.pwrite d off src true) (.number src.length)
        (v.store s.node (writeAt off src (v.files s.node)))
  | lseek {v : AbsFs K} {d : K.Ofd} {s : WOfd K} {off : BitVec 32} {whence : Whence}
      {pos : Nat} (hd : v.ofds d = .tmpfs s)
      (hpos : vfsSeek K.word s.offset (v.files s.node).length off.toInt whence = .ok pos)
      (hfits : ¬2 ^ 31 - 1 < pos) : AbsStep v (.lseek d off whence) (.number pos) (v.seek d s pos)
  | llseek {v : AbsFs K} {d : K.Ofd} {s : WOfd K} {off : BitVec 64} {whence : Whence}
      {pos : Nat} (hd : v.ofds d = .tmpfs s)
      (hpos : vfsSeek K.word s.offset (v.files s.node).length off.toInt whence = .ok pos) :
      AbsStep v (.llseek d off whence true) (.number 0) (v.seek d s pos)
  | ftruncate {v : AbsFs K} {d : K.Ofd} {s : WOfd K} {len : Nat}
      (hd : v.ofds d = .tmpfs s) :
      AbsStep v (.ftruncate d len) (.number 0) (v.store s.node (resize len (v.files s.node)))
  -- The file opened is the one of that name, or a new and empty one.
  | opens {v v' : AbsFs K} {path : AbsPath} {flags : OpenFlags} {i : K.Node}
      {d : K.Ofd} (hnames : v'.names = update v.names path.chars (some i))
      (hold : v.names path.chars = some i ∨
        v.names path.chars = none ∧ flags.creat = true ∧ v.files i = [])
      (hfree : v.ofds d = .free)
      (hfiles : v'.files = if flags.writes && flags.trunc then update v.files i [] else v.files)
      (hofds : v'.ofds = update v.ofds d (.tmpfs
        ⟨i, if flags.writes && flags.append then (v'.files i).length else 0, flags.acc,
          flags.append⟩)) :
      AbsStep v (.opens path flags true) (.number d) v'
  | opensRootfs {v : AbsFs K} {path : AbsPath} {flags : OpenFlags} {d : K.Ofd}
      (hname : v.names path.chars = none) (hread : flags.writes = false)
      (hroot : ((fsLookup K path.chars).bind K.follow).isSome = true) (hfree : v.ofds d = .free) :
      AbsStep v (.opens path flags true) (.number d) { v with ofds := update v.ofds d .other }

theorem AbsStep.failed_files {v v' : AbsFs K} {op : FileOp K} {e : FsErrno}
    (h : AbsStep v op (.failed e) v') : v'.files = v.files := by
  cases h with
  | failed hsame => rw [hsame]
  | lseekTooFar | llseekUnstored | madeUnopened => rfl

/-! ## Every operation is a step -/

/-- The file of that name is not empty and would be, but no description can be made. -/
def EmptiesUnopened (x : Wfs K) : FileOp K → Prop
  | .opens path flags room =>
    flags.writes = true ∧ flags.trunc = true ∧ ∃ i, wfsFind path.chars x = some i ∧
      (x.nodes i).type ≠ .dir ∧ (x.nodes i).size ≠ 0 ∧ ¬ Available x i room
  | _ => False

section Refinement

variable {x x' : Wfs K}

theorem ofTmpfs_eq_some {d : K.Ofd} {s : WOfd K} (h : ofTmpfs d x = some s) :
    x.ofds d = .tmpfs s := by
  unfold ofTmpfs at h
  split at h
  · rename_i ht
    injection h with h
    rw [ht, h]
  · cases h

theorem names_congr (h : labels x' = labels x) : (view x').names = (view x).names :=
  funext fun path => wfsFind_congr h path

theorem Becomes.view {files : K.Node → Bytes} (h : Becomes x x' files) :
    view x' = { Lxp.view x with files := files } := by
  ext1
  · exact names_congr h.labels
  · exact h.files
  · exact h.ofds

theorem Sound.seek (hs : Sound x) {d : K.Ofd} {s : WOfd K} (hd : x.ofds d = .tmpfs s)
    (offset : Nat) : Sound (setOfd d (.tmpfs (s.seek offset)) x) ∧
      Lxp.view (setOfd d (.tmpfs (s.seek offset)) x) = (Lxp.view x).seek d s offset := by
  obtain ⟨hstored, hcontent⟩ := hs.toStored.relabel ⟨fun _ => rfl, fun _ => rfl, fun _ => rfl,
    hs.unused⟩ (update x.ofds d (.tmpfs (s.seek offset)))
  have hheld : heldNode x.ofds d = some s.node := by
    rw [heldNode, hd]
    rfl
  refine ⟨⟨hstored, fun i => ?_⟩, ?_⟩
  · rw [setOfd_ofds, heldNode_update]
    show _ = holders (update (heldNode x.ofds) d (some s.node)) i
    rw [holders_update_same hheld]
    exact hs.counted i
  · ext1
    · rfl
    · exact hcontent
    · rfl

def Refines (op : FileOp K) (x : Wfs K) : Prop :=
  ∃ r x', op.run x = .ok (r, x') ∧ Sound x' ∧ labels x' = labels x ∧
    AbsStep (view x) op r (view x')

section

variable (hs : Sound x)
include hs

theorem refused {op : FileOp K} {e : FsErrno} :
    ∃ r x', Except.ok (.failed e, x) = (.ok (r, x') : Except Fault _) ∧ Sound x' ∧
      labels x' = labels x ∧ AbsStep (view x) op r (view x') :=
  ⟨_, x, rfl, hs, rfl, .failed rfl⟩

section

variable (d : K.Ofd)
include d

theorem sysRead_refines (len : Nat) (ok : Bool) : Refines (.read d len ok) x := by
  unfold Refines
  simp only [FileOp.run, sysRead]
  split
  · exact refused hs
  rename_i s hd
  have hd := ofTmpfs_eq_some hd
  cases ok with
  | false => exact refused hs
  | true =>
    simp only [true_eq_false, if_false]
    split
    · exact refused hs
    rcases fopPread_spec x s.node len s.offset with ⟨e, he⟩ | hok
    · rw [he]
      exact refused hs
    · rw [hok]
      obtain ⟨hs', -⟩ := hs.seek hd (s.offset + (readAt s.offset len (content x s.node)).length)
      refine ⟨_, _, rfl, hs', rfl, ?_⟩
      exact .read hd rfl

theorem sysPread_refines (len off : Nat) (ok : Bool) : Refines (.pread d len off ok) x := by
  unfold Refines
  simp only [FileOp.run, sysPread]
  split
  · exact refused hs
  rename_i s hd
  have hd := ofTmpfs_eq_some hd
  cases ok with
  | false => exact refused hs
  | true =>
    simp only [true_eq_false, if_false]
    split
    · exact refused hs
    rcases fopPread_spec x s.node len off with ⟨e, he⟩ | hok
    · rw [he]
      exact refused hs
    · rw [hok]
      exact ⟨_, x, rfl, hs, rfl, .pread hd⟩

theorem sysWrite_refines (src : Bytes) (ok : Bool) : Refines (.write d src ok) x := by
  unfold Refines
  simp only [FileOp.run, sysWrite]
  split
  · exact refused hs
  rename_i s hd
  have hd := ofTmpfs_eq_some hd
  cases ok with
  | false => exact refused hs
  | true =>
    simp only [true_eq_false, if_false]
    split
    · exact refused hs
    rcases fopPwrite_spec hs.toStored (hs.used_of_held hd) s.offset src with
      ⟨e, x1, heq, hb⟩ | ⟨x1, heq, hb⟩
    · rw [heq]
      exact ⟨_, x1, rfl, hb.sound hs, hb.labels, .failed hb.view⟩
    rw [heq]
    have hd1 : x1.ofds d = .tmpfs s := by rw [hb.ofds, hd]
    obtain ⟨hs', hview⟩ := (hb.sound hs).seek hd1 (s.offset + src.length)
    refine ⟨_, _, rfl, hs', hb.labels, ?_⟩
    rw [hview, hb.view]
    exact .write hd

theorem sysPwrite_refines (off : Nat) (src : Bytes)
    (ok : Bool) : Refines (.pwrite d off src ok) x := by
  unfold Refines
  simp only [FileOp.run, sysPwrite]
  split
  · exact refused hs
  rename_i hd
  have hd := ofTmpfs_eq_some hd
  cases ok with
  | false => exact refused hs
  | true =>
    simp only [true_eq_false, if_false]
    split
    · exact refused hs
    rcases fopPwrite_spec hs.toStored (hs.used_of_held hd) off src with
      ⟨e, x1, heq, hb⟩ | ⟨x1, heq, hb⟩
    · rw [heq]
      exact ⟨_, x1, rfl, hb.sound hs, hb.labels, .failed hb.view⟩
    · rw [heq]
      refine ⟨_, x1, rfl, hb.sound hs, hb.labels, ?_⟩
      rw [hb.view]
      exact .pwrite hd

theorem sysFtruncate_refines (len : Nat) : Refines (.ftruncate d len) x := by
  unfold Refines
  simp only [FileOp.run, sysFtruncate]
  split
  · exact refused hs
  split
  · exact refused hs
  rename_i hd
  have hd := ofTmpfs_eq_some hd
  split
  · exact refused hs
  rcases fopFtruncate_spec hs.toStored (hs.used_of_held hd) len with
    ⟨e, x1, heq, hb⟩ | ⟨x1, heq, hb⟩
  · rw [heq]
    exact ⟨_, x1, rfl, hb.sound hs, hb.labels, .failed hb.view⟩
  · rw [heq]
    refine ⟨_, x1, rfl, hb.sound hs, hb.labels, ?_⟩
    rw [hb.view]
    exact .ftruncate hd

theorem fdSeek_cases (off : Int) (whence : Whence) : (∃ e, fdSeek d off whence x = (.error e, x)) ∨
    ∃ s pos x', fdSeek d off whence x = (.ok pos, x') ∧ x.ofds d = .tmpfs s ∧
      vfsSeek K.word s.offset (content x s.node).length off whence = .ok pos ∧ Sound x' ∧
      labels x' = labels x ∧ view x' = (view x).seek d s pos := by
  unfold fdSeek
  split
  · exact .inl ⟨_, rfl⟩
  rename_i s hd
  have hd := ofTmpfs_eq_some hd
  split
  · exact .inl ⟨_, rfl⟩
  rename_i pos hpos
  obtain ⟨hs', hview⟩ := hs.seek hd pos
  refine .inr ⟨s, pos, _, rfl, hd, ?_, hs', rfl, hview⟩
  rw [content_length]
  exact hpos

theorem sysLseek_refines (off : BitVec 32) (whence : Whence) : Refines (.lseek d off whence) x := by
  unfold Refines
  simp only [FileOp.run, sysLseek]
  rcases fdSeek_cases hs d off.toInt whence with
    ⟨e, he⟩ | ⟨s, pos, x', heq, hd, hpos, hs', hlabels, hview⟩
  · rw [he]
    exact refused hs
  rw [heq]
  simp only
  split
  · rename_i hfar
    refine ⟨_, x', rfl, hs', hlabels, ?_⟩
    rw [hview]
    exact .lseekTooFar hd hpos hfar
  · rename_i hfits
    refine ⟨_, x', rfl, hs', hlabels, ?_⟩
    rw [hview]
    exact .lseek hd hpos hfits

theorem sysLlseek_refines (off : BitVec 64) (whence : Whence)
    (ok : Bool) : Refines (.llseek d off whence ok) x := by
  unfold Refines
  simp only [FileOp.run, sysLlseek]
  rcases fdSeek_cases hs d off.toInt whence with
    ⟨e, he⟩ | ⟨s, pos, x', heq, hd, hpos, hs', hlabels, hview⟩
  · rw [he]
    exact refused hs
  rw [heq]
  cases ok with
  | false =>
    refine ⟨_, x', rfl, hs', hlabels, ?_⟩
    rw [hview]
    exact .llseekUnstored hd hpos
  | true =>
    refine ⟨_, x', rfl, hs', hlabels, ?_⟩
    rw [hview]
    exact .llseek hd hpos

end

end

theorem wfsFind_made {i : K.Node} {path : Path} {type : FileType} (hno : wfsFind path x = none)
    (hl : labels x' = update (labels x) i (some (path, type))) : wfsFind path x' = some i := by
  cases hfind : wfsFind path x' with
  | none =>
    refine absurd ?_ (wfsFind_eq_none.mp hfind i type)
    rw [hl, update_self]
  | some j =>
    have hj := wfsFind_eq_some hfind
    by_cases hji : j = i
    · rw [hji]
    · rw [hl, update_of_ne hji] at hj
      exact absurd hj (wfsFind_eq_none.mp hno j _)

theorem names_made {i : K.Node} {path : Path} {type : FileType} (hno : wfsFind path x = none)
    (hc : Creates i path type x x') : (view x').names = update (view x).names path (some i) := by
  funext p
  by_cases hp : p = path
  · rw [hp, update_self]
    exact wfsFind_made hno hc.labels
  rw [update_of_ne hp]
  show wfsFind p x' = wfsFind p x
  unfold wfsFind
  congr 1
  funext j
  rw [Bool.eq_iff_iff, named_iff, named_iff]
  show (∃ t, labels x' j = some (p, t)) ↔ ∃ t, labels x j = some (p, t)
  by_cases hji : j = i
  · rw [hji, hc.labels, update_self, hc.was]
    simp [Ne.symm hp]
  · rw [hc.labels, update_of_ne hji]

theorem openOld_cases (hs : Sound x) {path : AbsPath} {i : K.Node}
    (hfind : wfsFind path.chars x = some i) (hdir : (x.nodes i).type ≠ .dir) (flags : OpenFlags)
    (hw : flags.writes = true) (room : Bool) :
    ∃ r x', FileOp.run (.opens path flags room) x = .ok (r, x') ∧ Sound x' ∧
      labels x' = labels x ∧ (Available x i room ↔ ∃ n, r = .number n) ∧
      (if flags.trunc = true ∧ (x.nodes i).size ≠ 0 ∧ ¬ Available x i room then
        r = .failed .emfile ∧ content x' ≠ content x
      else AbsStep (view x) (.opens path flags room) r (view x')) := by
  have hl := wfsFind_eq_some hfind
  obtain ⟨x1, hx1, hb, hcases⟩ := openNode_cases hs hl flags.trunc
    (fun y => if flags.append then (y.nodes i).size else 0) flags room
  simp only [FileOp.run, overlayOpen]
  rw [if_pos hw, hfind]
  simp only
  rw [if_neg hdir, ← hx1]
  rcases hcases with ⟨heq, hno⟩ | ⟨d, x', heq, hyes, hfree, hofds, hs', hlabels, hcontent⟩
  · rw [heq]
    refine ⟨_, x1, rfl, hb.sound hs, hb.labels, ⟨fun h => absurd h hno, by simp⟩, ?_⟩
    split
    · rename_i hempty
      -- Without a description the file is empty all the same.
      refine ⟨rfl, fun hsame => hempty.2.1 ?_⟩
      rw [hb.files, if_pos hempty.1] at hsame
      rw [← content_length, ← hsame, update_self]
      rfl
    rename_i hempty
    refine .failed (hb.view.trans (congrArg (fun files => { view x with files }) ?_))
    show _ = content x
    split
    · rename_i htrunc
      have hsize : (x.nodes i).size = 0 := by
        by_contra hne
        exact hempty ⟨htrunc, hne, hno⟩
      rw [← content_of_size_eq_zero hsize, update_eq_self]
    · rfl
  · rw [heq]
    refine ⟨_, x', rfl, hs', hlabels, ⟨fun _ => ⟨d, rfl⟩, fun _ => hyes⟩, ?_⟩
    rw [if_neg fun h => h.2.2 hyes]
    obtain ⟨-, rfl, -⟩ := hyes
    refine .opens ?_ (.inl hfind) hfree ?_ ?_
    · exact (names_congr hlabels).trans (update_eq_self_iff.mpr hfind.symm).symm
    · rw [hw]
      exact hcontent.trans hb.files
    · rw [hw]
      show x'.ofds = update x.ofds d (.tmpfs ⟨i, if flags.append then (content x' i).length else 0,
        flags.acc, flags.append⟩)
      rw [hofds, hcontent, content_length]

theorem openNew_cases (hs : Sound x) {path : AbsPath} (hfind : wfsFind path.chars x = none)
    (hroot : fsLookup K path.chars = none) (flags : OpenFlags) (hw : flags.writes = true)
    (hcreat : flags.creat = true) (room : Bool) :
    ∃ r x', FileOp.run (.opens path flags room) x = .ok (r, x') ∧ Sound x' ∧
      (labels x' = labels x ∨ Makes K path.chars .reg (labels x) (labels x')) ∧
      AbsStep (view x) (.opens path flags room) r (view x') := by
  simp only [FileOp.run, overlayOpen]
  rw [if_pos hw, hfind]
  rw [hroot]
  rw [if_neg (by simp [hcreat])]
  rcases wfsCreate_cases hs path.chars .reg 0o644 with hno | ⟨i, x1, hsome, hc, hnode, hsame, hnil⟩
  · rw [hno]
    exact ⟨_, x, rfl, hs, .inl rfl, .failed rfl⟩
  rw [hsome]
  simp only
  have hl : labels x1 i = some (path.chars, .reg) := by rw [hc.labels, update_self]
  have hmakes : Makes K path.chars .reg (labels x) (labels x1) :=
    ⟨i, hc.was, fun j t => wfsFind_eq_none.mp hfind j t, hroot, hc.labels⟩
  have hnames := names_made hfind hc
  rcases sysFdAlloc_cases hc.sound hl (if flags.append then (x1.nodes i).size else 0) flags room
    with ⟨heq, -⟩ | ⟨d, x', heq, hyes, hfree, hofds, hs', hlabels, hcontent⟩
  · rw [heq]
    refine ⟨_, x1, rfl, hc.sound, .inr hmakes, ?_⟩
    have hview : view x1 = { view x with names := update (view x).names path.chars (some i) } :=
      AbsFs.ext hnames hsame hc.ofds
    rw [hview]
    exact .madeUnopened hfind hcreat hnil
  rw [heq]
  obtain ⟨-, rfl, -⟩ := hyes
  have hfiles : content x' = content x := hcontent.trans hsame
  rw [hc.ofds] at hfree hofds
  refine ⟨_, x', rfl, hs', .inr (hlabels ▸ hmakes), .opens
    ((names_congr hlabels).trans hnames) (.inr ⟨hfind, hcreat, hnil⟩) hfree ?_ ?_⟩
  · show content x' = _
    rw [hfiles]
    split
    · show content x = update (content x) i []
      rw [← hnil, update_eq_self]
    · rfl
  · show x'.ofds = update x.ofds d (.tmpfs ⟨i, if flags.writes && flags.append then
      (content x' i).length else 0, flags.acc, flags.append⟩)
    rw [hofds, hw, hfiles, hnil, hnode]
    rfl

/-- An open is an abstract step unless it empties the file without opening it. -/
theorem overlayOpen_cases (hs : Sound x) (path : AbsPath) (flags : OpenFlags) (room : Bool) :
    ∃ r x', FileOp.run (.opens path flags room) x = .ok (r, x') ∧ Sound x' ∧
      (labels x' = labels x ∨ flags.creat = true ∧ Makes K path.chars .reg (labels x) (labels x')) ∧
      (¬ EmptiesUnopened x (.opens path flags room) →
        AbsStep (view x) (.opens path flags room) r (view x')) := by
  by_cases hw : flags.writes = true
  · cases hfind : wfsFind path.chars x with
    | some i =>
      by_cases hdir : (x.nodes i).type = .dir
      · refine ⟨.failed .eisdir, x, ?_, hs, .inl rfl, fun _ => .failed rfl⟩
        simp only [FileOp.run, overlayOpen]
        rw [if_pos hw, hfind]
        simp only
        rw [if_pos hdir]
        rfl
      · obtain ⟨r, x', hrun, hs', hlabels, -, hstep⟩ := openOld_cases hs hfind hdir flags hw room
        refine ⟨r, x', hrun, hs', .inl hlabels, fun hno => ?_⟩
        rwa [if_neg fun h => hno ⟨hw, h.1, i, hfind, hdir, h.2⟩] at hstep
    | none =>
      cases hroot : fsLookup K path.chars with
      | some fi =>
        simp only [FileOp.run, overlayOpen]
        rw [if_pos hw, hfind]
        rw [hroot]
        exact ⟨_, x, rfl, hs, .inl rfl, fun _ => .failed rfl⟩
      | none =>
        by_cases hcreat : flags.creat = true
        · obtain ⟨r, x', hrun, hs', hlabels, hstep⟩ :=
            openNew_cases hs hfind hroot flags hw hcreat room
          exact ⟨r, x', hrun, hs', hlabels.imp id fun h => ⟨hcreat, h⟩, fun _ => hstep⟩
        refine ⟨.failed .enoent, x, ?_, hs, .inl rfl, fun _ => .failed rfl⟩
        simp only [FileOp.run, overlayOpen]
        rw [if_pos hw, hfind]
        rw [hroot]
        rw [if_pos (by simpa using hcreat)]
        rfl
  · simp only [FileOp.run, overlayOpen]
    rw [if_neg hw]
    split
    · rename_i hfind
      obtain ⟨x1, hx1, -, hcases⟩ := openNode_cases hs (wfsFind_eq_some hfind) false
        (fun _ => 0) flags room
      subst hx1
      rcases hcases with ⟨heq, -⟩ | ⟨d, x', heq, hyes, hfree, hofds, hs', hlabels, hcontent⟩
      · rw [heq]
        exact ⟨_, x1, rfl, hs, .inl rfl, fun _ => .failed rfl⟩
      rw [heq]
      obtain ⟨-, rfl, -⟩ := hyes
      refine ⟨_, x', rfl, hs', .inl hlabels, fun _ => .opens ((names_congr hlabels).trans
        (update_eq_self_iff.mpr hfind.symm).symm) (.inl hfind) hfree ?_ ?_⟩
      · simp only [Bool.eq_false_of_not_eq_true hw]
        exact hcontent
      · simp only [Bool.eq_false_of_not_eq_true hw]
        exact hofds
    · rename_i hfind
      split
      · exact ⟨_, x, rfl, hs, .inl rfl, fun _ => .failed rfl⟩
      rename_i hroot
      rcases fdOpen_cases .other room x with ⟨hno, -⟩ | ⟨d, hsome, rfl, hfree⟩
      · rw [hno]
        exact ⟨_, x, rfl, hs, .inl rfl, fun _ => .failed rfl⟩
      rw [hsome]
      have hs' := hs.setOther (o := .other) (by rw [hfree]; rfl) rfl
      refine ⟨_, _, rfl, hs', .inl rfl, fun _ => ?_⟩
      exact .opensRootfs hfind (Bool.eq_false_of_not_eq_true hw) (by rw [hroot]; rfl) hfree

theorem emptiesUnopened_run (hs : Sound x) {op : FileOp K} (h : EmptiesUnopened x op) :
    ∃ x', op.run x = .ok (.failed .emfile, x') ∧ content x' ≠ content x := by
  cases op with
  | opens path flags room =>
    obtain ⟨hw, htrunc, i, hfind, hdir, hsize, hno⟩ := h
    obtain ⟨r, x', hrun, -, -, -, hstep⟩ := openOld_cases hs hfind hdir flags hw room
    rw [if_pos ⟨htrunc, hsize, hno⟩] at hstep
    obtain ⟨rfl, hne⟩ := hstep
    exact ⟨x', hrun, hne⟩
  | _ => exact h.elim

theorem FileOp.run_cases (hs : Sound x) (op : FileOp K) :
    ∃ r x', op.run x = .ok (r, x') ∧ Sound x' ∧ NameStep x (.file op) (labels x') ∧
      (¬ EmptiesUnopened x op → AbsStep (view x) op r (view x')) := by
  have hrest : ∀ {op : FileOp K}, Refines op x →
      ∃ r x', op.run x = .ok (r, x') ∧ Sound x' ∧ NameStep x (.file op) (labels x') ∧
        (¬ EmptiesUnopened x op → AbsStep (view x) op r (view x')) := by
    rintro op ⟨r, x', hrun, hs', hlabels, hstep⟩
    refine ⟨r, x', hrun, hs', ?_, fun _ => hstep⟩
    rw [hlabels]
    exact .same
  cases op with
  | read d len ok => exact hrest (sysRead_refines hs d len ok)
  | pread d len off ok => exact hrest (sysPread_refines hs d len off ok)
  | write d src ok => exact hrest (sysWrite_refines hs d src ok)
  | pwrite d off src ok => exact hrest (sysPwrite_refines hs d off src ok)
  | lseek d off whence => exact hrest (sysLseek_refines hs d off whence)
  | llseek d off whence ok => exact hrest (sysLlseek_refines hs d off whence ok)
  | ftruncate d len => exact hrest (sysFtruncate_refines hs d len)
  | opens path flags room =>
    obtain ⟨r, x', hrun, hs', hlabels, hstep⟩ := overlayOpen_cases hs path flags room
    refine ⟨r, x', hrun, hs', ?_, hstep⟩
    rcases hlabels with h | ⟨hcreat, h⟩
    · rw [h]
      exact .same
    · exact .made (by simp only [WfsOp.makes, hcreat, if_true]) h

end Refinement

/-! ## Runs -/

section Runs

variable {x x' : Wfs K} {ok : Wfs K → WfsOp K → Prop}

theorem WfsOp.run_cases (hs : Sound x) (op : WfsOp K) :
    ∃ x', op.run x = .ok x' ∧ Sound x' ∧ NameStep x op (labels x') := by
  -- the names change with the call, whatever it answers
  have answered : ∀ {α : Type} {run : Except Fault (α × Wfs K)},
      Names x op run →
      ∃ x', (run >>= fun r => .ok r.2) = .ok x' ∧ Sound x' ∧ NameStep x op (labels x') := by
    rintro α run ⟨r, x', rfl, hs', hname⟩
    exact ⟨x', rfl, hs', hname⟩
  cases op with
  | file op =>
    obtain ⟨r, x', hrun, hs', hname, -⟩ := op.run_cases hs
    exact answered ⟨r, x', hrun, hs', hname⟩
  | close d =>
    obtain ⟨x', hrun, hs', hlabels⟩ := ofdClose_spec hs d
    refine ⟨x', hrun, hs', ?_⟩
    rw [hlabels]
    exact .same
  | occupy room =>
    simp only [WfsOp.run]
    rcases fdOpen_cases .other room x with ⟨hno, -⟩ | ⟨d, hsome, -, hfree⟩
    · rw [hno]
      exact ⟨x, rfl, hs, .same⟩
    · rw [hsome]
      exact ⟨_, rfl, hs.setOther (by rw [hfree]; rfl) rfl, .same⟩
  | mkdir path perm =>
    obtain ⟨hs', hname⟩ := overlayMkdir_cases hs path perm
    exact ⟨_, rfl, hs', hname⟩
  | remove path dir => exact answered (overlayRemove_cases hs path dir)
  | symlink target path => exact answered (overlaySymlink_cases hs target path)
  | link src dst => exact answered (overlayLink_cases hs src dst)
  | rename src dst => exact answered (overlayRename_cases hs src dst)
  | chmod path perm =>
    obtain ⟨hs', hname⟩ := overlayChmod_cases hs path perm
    exact ⟨_, rfl, hs', hname⟩

theorem wfsBoot_sound (mem : Mem) : Sound (wfsBoot K mem) := by
  refine ⟨⟨.inl ⟨fun _ => rfl, .inl rfl, fun _ => rfl⟩, fun _ _ => rfl, fun _ => Nat.le_refl _,
    fun _ _ => rfl⟩, fun i => ?_⟩
  exact (holders_eq_zero_iff.mpr fun d hd => by cases hd).symm

theorem WfsRuns.sound (h : WfsRuns K ok x) : Sound x := by
  refine h.invariant Sound wfsBoot_sound fun x op x' hs _ hrun => ?_
  obtain ⟨x1, hrun1, hs1, -⟩ := op.run_cases hs
  rw [hrun] at hrun1
  cases hrun1
  exact hs1

/-- Every sequence of operations goes through; afterwards the bytes of each file lie in the pool, no
two files share one of them, and each node is counted by the descriptions that hold it. -/
theorem wfsOps_apart (mem : Mem) (ops : List (WfsOp K)) :
    ∃ x, ops.foldlM (fun x op => op.run x) (wfsBoot K mem) = .ok x ∧
      (∀ i, (x.nodes i).openRefs = holders (heldNode x.ofds) i) ∧
      (∀ i, 0 < (x.nodes i).size → K.poolBase ≤ (x.nodes i).data ∧
        (x.nodes i).data + (x.nodes i).size ≤ K.poolBase + K.pool) ∧
      ∀ i j, i ≠ j → 0 < (x.nodes i).size → 0 < (x.nodes j).size →
        (x.nodes i).data + (x.nodes i).size ≤ (x.nodes j).data ∨
          (x.nodes j).data + (x.nodes j).size ≤ (x.nodes i).data := by
  have hall : ∀ x : Wfs K, Sound x →
      ∃ x', ops.foldlM (fun x op => op.run x) x = .ok x' ∧ Sound x' := by
    induction ops with
    | nil => exact fun x hs => ⟨x, rfl, hs⟩
    | cons op ops ih =>
      intro x hs
      obtain ⟨x1, hrun, hs1, -⟩ := op.run_cases hs
      rw [List.foldlM_cons, hrun]
      exact ih x1 hs1
  obtain ⟨x, hrun, hs⟩ := hall _ (wfsBoot_sound mem)
  have hdata : ∀ {k}, 0 < (x.nodes k).size → (x.nodes k).data ≠ 0 :=
    fun hk hzero => hk.ne' (hs.size_eq_zero hzero)
  have hpool : ∀ {k}, 0 < (x.nodes k).size → ∃ bs, Pooled x bs :=
    fun hk => hs.pool.resolve_left fun hun => hdata hk (hun.data _)
  refine ⟨x, hrun, hs.counted, fun i hi => ?_, fun i j hij hi hj => ?_⟩
  · obtain ⟨bs, hp⟩ := hpool hi
    obtain ⟨l, hl, hcap⟩ := hp.live i (hdata hi)
    have hfits := hs.fits i
    have hbounds := BlockList.live_bounds hl
    have hend := hp.valid.extent_eq
    rw [hp.extent.1] at hbounds
    rw [hp.extent.2] at hend
    omega
  obtain ⟨bs, hp⟩ := hpool hi
  obtain ⟨l, hl, hcap⟩ := hp.live i (hdata hi)
  obtain ⟨l', hl', hcap'⟩ := hp.live j (hdata hj)
  have hfits := hs.fits i
  have hfits' := hs.fits j
  have hapart := live_apart hl hl' fun heq =>
    hij (hp.distinct i j (hdata hi) (congrArg Prod.fst heq))
  omega

/-- From every state of every run, a file operation is a step of the abstract file system exactly
when it is not an open that empties a file without opening it. -/
theorem fileOp_refines_iff (h : WfsRuns K (fun _ _ => True) x) (op : FileOp K) :
    (∃ r x', op.run x = .ok (r, x') ∧ AbsStep (view x) op r (view x')) ↔
      ¬ EmptiesUnopened x op := by
  constructor
  · rintro ⟨r, x', hrun, hstep⟩ hempty
    obtain ⟨x1, hrun1, hne⟩ := emptiesUnopened_run h.sound hempty
    rw [hrun] at hrun1
    cases hrun1
    exact hne hstep.failed_files
  · intro hno
    obtain ⟨r, x', hrun, -, -, hstep⟩ := op.run_cases h.sound
    exact ⟨r, x', hrun, hstep hno⟩

/-- A sequence of file operations with what they return. -/
inductive FileRun : Wfs K → List (FileOp K × FileResult) → Wfs K → Prop where
  | nil (x : Wfs K) : FileRun x [] x
  | cons {x x1 x' : Wfs K} {op : FileOp K} {r : FileResult} {rest : List (FileOp K × FileResult)}
      (hrun : op.run x = .ok (r, x1)) (hok : ¬ EmptiesUnopened x op) (h : FileRun x1 rest x') :
      FileRun x ((op, r) :: rest) x'

inductive AbsRun : AbsFs K → List (FileOp K × FileResult) → AbsFs K → Prop where
  | nil (v : AbsFs K) : AbsRun v [] v
  | cons {v v1 v' : AbsFs K} {op : FileOp K} {r : FileResult} {rest : List (FileOp K × FileResult)}
      (hstep : AbsStep v op r v1) (h : AbsRun v1 rest v') : AbsRun v ((op, r) :: rest) v'

/-- Whole runs of file operations are runs of the abstract file system. -/
theorem FileRun.refines {ops : List (FileOp K × FileResult)} (hs : Sound x)
    (h : FileRun x ops x') : AbsRun (view x) ops (view x') := by
  induction h with
  | nil => exact .nil _
  | cons hrun hok _ ih =>
    obtain ⟨r, x1, hrun1, hs1, -, hstep⟩ := FileOp.run_cases hs _
    rw [hrun] at hrun1
    cases hrun1
    exact .cons (hstep hok) (ih hs1)

/-- A write through a description opened for appending appends exactly when the description's offset
is the end of the file at that moment; a write of nothing must only not lie behind the end. -/
theorem appendWrite_appends_iff (h : WfsRuns K (fun _ _ => True) x) {d : K.Ofd} {s : WOfd K}
    (hd : x.ofds d = .tmpfs s) (_happend : s.append = true) {src : Bytes} {ok : Bool} {n : Nat}
    (hrun : sysWrite d src ok x = .ok (.number n, x')) :
    content x' s.node = content x s.node ++ src ↔
      s.offset = (x.nodes s.node).size ∨ src = [] ∧ s.offset ≤ (x.nodes s.node).size := by
  obtain ⟨r, x1, hrun1, -, -, hstep⟩ := sysWrite_refines h.sound d src ok
  rw [show FileOp.run (.write d src ok) x = sysWrite d src ok x from rfl, hrun] at hrun1
  cases hrun1
  generalize hv' : view x' = v' at hstep
  cases hstep with
  | write hd' =>
    obtain rfl : s = _ := by
      have := hd.symm.trans hd'
      injection this
    have hcontent : content x' s.node = writeAt s.offset src (content x s.node) := by
      have := congrArg (fun v => v.files s.node) hv'
      simpa [AbsFs.seek, AbsFs.store, view] using this
    rw [hcontent, writeAt_eq_append_iff, content_length]

end Runs

/-! ## Two runs -/

/-- A small pool, three nodes and three descriptions, and a rootfs with nothing but its root. -/
def smallWfs : WfsConfig where
  word := .word32
  nmap := 1
  nwnode := 3
  nofd := 3
  pathMax := 64
  poolBase := 16
  pool := 512
  rootfs := [⟨['/'], .dir, 0o755, []⟩]
  follow := some
  base_aligned := by decide
  pool_least := by decide
  pool_aligned := by decide
  pool_fits := by decide

instance : NeZero smallWfs.nofd := ⟨by decide⟩

instance : NeZero smallWfs.nwnode := ⟨by decide⟩

def fileF : AbsPath := ⟨[['f']], by decide⟩

def runOps (ops : List (WfsOp smallWfs)) : Except Fault (Wfs smallWfs) :=
  ops.foldlM (fun x op => op.run x) (wfsBoot smallWfs (Mem.ofBytes fun _ => 7))

theorem runOps_runs (ops : List (WfsOp smallWfs)) {x : Wfs smallWfs} (h : runOps ops = .ok x) :
    WfsRuns smallWfs (fun _ _ => True) x := by
  have hall : ∀ (ops : List (WfsOp smallWfs)) (x x' : Wfs smallWfs),
      WfsRuns smallWfs (fun _ _ => True) x → ops.foldlM (fun x op => op.run x) x = .ok x' →
      WfsRuns smallWfs (fun _ _ => True) x' := by
    intro ops
    induction ops with
    | nil =>
      intro x x' hx heq
      cases heq
      exact hx
    | cons op ops ih =>
      intro x x' hx heq
      rw [List.foldlM_cons] at heq
      obtain ⟨x1, hrun, -⟩ := op.run_cases hx.sound
      rw [hrun] at heq
      exact ih x1 x' (.step op hx trivial hrun) heq
  exact hall ops _ x (.start _) h

def openWrite : OpenFlags := { acc := .wronly, creat := true }

/-- A file of one byte. -/
def oneByte : List (WfsOp smallWfs) :=
  [.file (.opens fileF openWrite true), .file (.write 0 [1] true)]

/-- The caller has no free descriptor: the open fails, and the byte is gone. -/
theorem failedOpen_empties : ∃ x x', runOps oneByte = .ok x ∧
    WfsRuns smallWfs (fun _ _ => True) x ∧ content x 0 = [1] ∧
    FileOp.run (.opens fileF { openWrite with trunc := true } false) x =
      .ok (.failed .emfile, x') ∧ content x' 0 = [] :=
  ⟨_, _, rfl, runOps_runs oneByte rfl, by decide +kernel, rfl, by decide +kernel⟩

def openAppend : OpenFlags := { acc := .wronly, creat := true, append := true }

/-- Two descriptions opened for appending, and a byte written through the first. -/
def twoAppenders : List (WfsOp smallWfs) :=
  [.file (.opens fileF openAppend true), .file (.opens fileF openAppend true),
    .file (.write 0 [1] true)]

/-- The second description still stands at the start and overwrites the byte of the first. -/
theorem appendWrite_overwrites : ∃ x x' s, runOps twoAppenders = .ok x ∧
    WfsRuns smallWfs (fun _ _ => True) x ∧ x.ofds 1 = .tmpfs s ∧ s.append = true ∧
    content x s.node = [1] ∧ sysWrite 1 [2] true x = .ok (.number 1, x') ∧
    content x' s.node = [2] :=
  ⟨_, _, _, rfl, runOps_runs twoAppenders rfl, rfl, rfl, by decide +kernel, rfl, by decide +kernel⟩

/-- The first description stands at the end of the file, and the second does not matter. -/
theorem appendWrite_first : ∃ x x' s, runOps twoAppenders = .ok x ∧ x.ofds 0 = .tmpfs s ∧
    s.append = true ∧ sysWrite 0 [2] true x = .ok (.number 1, x') ∧ content x s.node = [1] ∧
    content x' s.node = content x s.node ++ [2] := by
  obtain ⟨x, x', s, hrun, hd, happend, hwrite, hone, hoffset⟩ :
      ∃ x x' s, runOps twoAppenders = .ok x ∧ x.ofds 0 = .tmpfs s ∧ s.append = true ∧
        sysWrite 0 [2] true x = .ok (.number 1, x') ∧ content x s.node = [1] ∧
        s.offset = (x.nodes s.node).size :=
    ⟨_, _, _, rfl, rfl, rfl, rfl, by decide +kernel, by decide +kernel⟩
  exact ⟨x, x', s, hrun, hd, happend, hwrite, hone,
    (appendWrite_appends_iff (runOps_runs _ hrun) hd happend hwrite).mpr (.inl hoffset)⟩

/-- The byte is read through a second description. -/
theorem fileOp_refines_oneByte : ∃ x x',
    runOps (oneByte ++ [.file (.opens fileF {} true)]) = .ok x ∧
    FileOp.run (.read 1 4 true) x = .ok (.bytes [1], x') ∧
    AbsStep (view x) (.read 1 4 true) (.bytes [1]) (view x') := by
  obtain ⟨x, x', hrun, hread⟩ : ∃ x x',
      runOps (oneByte ++ [.file (.opens fileF {} true)]) = .ok x ∧
      FileOp.run (.read 1 4 true) x = .ok (.bytes [1], x') := ⟨_, _, rfl, rfl⟩
  obtain ⟨r, x1, hread1, hstep⟩ :=
    (fileOp_refines_iff (runOps_runs _ hrun) (.read 1 4 true)).mpr id
  cases hread.symm.trans hread1
  exact ⟨x, _, hrun, hread, hstep⟩

theorem oneByte_refines : ∃ x', AbsRun (view (wfsBoot smallWfs (Mem.ofBytes fun _ => 7)))
    [(.opens fileF openWrite true, .number 0), (.write 0 [1] true, .number 1),
      (.opens fileF {} true, .number 1), (.read 1 4 true, .bytes [1])] (view x') :=
  ⟨_, FileRun.refines (wfsBoot_sound _) (.cons rfl (by simp [EmptiesUnopened, openWrite])
    (.cons rfl id (.cons rfl (by simp [EmptiesUnopened]) (.cons rfl id (.nil _)))))⟩

end Lxp
