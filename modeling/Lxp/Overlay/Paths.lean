import Mathlib.Data.List.Infix
import Mathlib.Tactic.Common

/-!
# Paths

Path system calls collapse `.`, `..` and repeated slashes before any table is searched, and the
tables compare the resulting strings.  `AbsPath` is a path after that step: a list of names, written
out with a slash in front of each.
-/

open List

namespace Lxp

abbrev Path := List Char

variable {outlen : Nat} {cs : List Path}

inductive FsErrno where
  | eperm
  | enoent
  | ebadf
  | efault
  | eexist
  | enotdir
  | eisdir
  | einval
  | emfile
  | efbig
  | enospc
  | erofs
  | enametoolong
  | enotempty
  | eoverflow
deriving DecidableEq

/-! ## Normalization -/

def dropComponent (out : Path) : Path := ((out.reverse.dropWhile (· != '/')).drop 1).reverse

def normalizeSeg (outlen : Nat) (out seg : Path) : Except FsErrno Path :=
  if seg = [] then .ok out
  else if seg = ['.'] then .ok out
  else if seg = ['.', '.'] then .ok (dropComponent out)
  else if outlen ≤ out.length + 1 + seg.length then .error .enametoolong
  else .ok (out ++ '/' :: seg)

def normalizeWalk (outlen : Nat) (out seg : Path) : Path → Except FsErrno Path
  | [] => normalizeSeg outlen out seg
  | c :: rest =>
    if c = '/' then do
      let out ← normalizeSeg outlen out seg
      normalizeWalk outlen out [] rest
    else normalizeWalk outlen out (seg ++ [c]) rest

def normalizeAbs (outlen : Nat) (path : Path) : Except FsErrno Path := do
  let out ← normalizeWalk outlen [] [] path
  .ok (if out = [] then ['/'] else out)

/-! ## Tests on path strings -/

/-- Whether `path` is `dir` or lies below it. -/
def pathUnder (path dir : Path) : Bool :=
  if dir = ['/'] then path.head? == some '/'
  else !dir.isEmpty && decide (dir <+: path) &&
    ((path.drop dir.length).isEmpty || (path.drop dir.length).head? == some '/')

/-- The name of a direct child of `dir`. -/
def pathChildName (dir path : Path) : Option Path :=
  let rest := if dir = ['/'] then some path
    else if dir <+: path then some (path.drop dir.length) else none
  match rest with
  | some ('/' :: name) => if name = [] ∨ '/' ∈ name then none else some name
  | _ => none

/-! ## Names -/

abbrev IsName (c : Path) : Prop := c ≠ [] ∧ '/' ∉ c ∧ c ≠ ['.'] ∧ c ≠ ['.', '.']

/-- Each name with a slash in front of it. -/
def spell (names : List Path) : Path := names.flatMap fun c => '/' :: c

structure AbsPath where
  names : List Path
  ok : ∀ c ∈ names, IsName c

def AbsPath.chars (p : AbsPath) : Path := if p.names = [] then ['/'] else spell p.names

@[ext] theorem AbsPath.ext {p q : AbsPath} (h : p.names = q.names) : p = q := by
  cases p
  cases q
  congr

/-- What may stand behind a name in a path. -/
abbrev AtSlash (rest : Path) : Prop := rest = [] ∨ rest.head? = some '/'

theorem spell_cons (c : Path) (cs : List Path) : spell (c :: cs) = '/' :: (c ++ spell cs) := by
  simp [spell]

theorem spell_append (cs ds : List Path) : spell (cs ++ ds) = spell cs ++ spell ds := by
  simp [spell]

theorem spell_atSlash (cs : List Path) : AtSlash (spell cs) := by
  cases cs with
  | nil => exact .inl rfl
  | cons c cs => exact .inr (by rw [spell_cons]; rfl)

theorem spell_eq_nil : spell cs = [] ↔ cs = [] := by
  cases cs with
  | nil => simp [spell]
  | cons c cs => simp [spell_cons]

theorem name_append_inj {c d r s : Path} (hc : '/' ∉ c) (hd : '/' ∉ d) (hr : AtSlash r)
    (hs : AtSlash s) (heq : c ++ r = d ++ s) : c = d ∧ r = s := by
  have htake : ∀ {c r : Path}, '/' ∉ c → AtSlash r → (c ++ r).takeWhile (· != '/') = c := by
    intro c r hc hr
    rw [takeWhile_append_of_pos]
    · rcases hr with rfl | hr
      · simp
      cases r with
      | nil => simp
      | cons x r =>
        obtain rfl : x = '/' := by simpa using hr
        simp
    · intro x hx
      simp only [bne_iff_ne]
      rintro rfl
      exact hc hx
  have h1 : c = d := by rw [← htake hc hr, heq, htake hd hs]
  subst h1
  exact ⟨rfl, append_cancel_left heq⟩

/-- A path continues another one at a slash exactly when its names do. -/
theorem spell_eq_append_iff {ds : List Path} {r : Path} (hc : ∀ c ∈ cs, '/' ∉ c)
    (hd : ∀ d ∈ ds, '/' ∉ d) (hr : AtSlash r) :
    spell cs = spell ds ++ r ↔ ∃ es, cs = ds ++ es ∧ r = spell es := by
  constructor
  · intro heq
    induction ds generalizing cs with
    | nil => exact ⟨cs, rfl, by simpa [spell] using heq.symm⟩
    | cons d ds ih =>
      cases cs with
      | nil => simp [spell] at heq
      | cons c cs =>
        rw [spell_cons, spell_cons, cons_append, append_assoc] at heq
        have hrest : AtSlash (spell ds ++ r) := by
          cases ds with
          | nil => simpa [spell] using hr
          | cons e ds => exact .inr (by rw [spell_cons]; rfl)
        obtain ⟨rfl, htail⟩ := name_append_inj (hc c mem_cons_self)
          (hd d mem_cons_self) (spell_atSlash cs) hrest (cons_injective heq)
        obtain ⟨es, rfl, hes⟩ := ih (fun x hx => hc x (mem_cons_of_mem _ hx))
          (fun x hx => hd x (mem_cons_of_mem _ hx)) htail
        exact ⟨es, rfl, hes⟩
  · rintro ⟨es, rfl, rfl⟩
    exact spell_append ds es

theorem spell_injective {ds : List Path} (hc : ∀ c ∈ cs, '/' ∉ c) (hd : ∀ d ∈ ds, '/' ∉ d)
    (heq : spell cs = spell ds) : cs = ds := by
  obtain ⟨es, rfl, hes⟩ := (spell_eq_append_iff hc hd (.inl rfl)).mp (by simpa using heq)
  rw [spell_eq_nil.mp hes.symm, append_nil]

/-! ## The tests on names -/

namespace AbsPath

theorem slashFree (p : AbsPath) : ∀ c ∈ p.names, '/' ∉ c := fun c hc => (p.ok c hc).2.1

theorem spell_ne_root (p : AbsPath) : spell p.names ≠ ['/'] := by
  intro heq
  cases hn : p.names with
  | nil => simp [hn, spell] at heq
  | cons c cs =>
    rw [hn] at heq
    have hc : c = [] := by
      have := cons_injective heq
      exact (append_eq_nil_iff.mp this).1
    exact (p.ok c (by rw [hn]; exact mem_cons_self)).1 hc

theorem chars_head (p : AbsPath) : p.chars.head? = some '/' := by
  unfold chars
  split
  · rfl
  · rename_i hne
    cases hn : p.names with
    | nil => exact absurd hn hne
    | cons c cs => rw [spell_cons]; rfl

theorem chars_ne_nil (p : AbsPath) : p.chars ≠ [] := by
  intro heq
  have := p.chars_head
  rw [heq] at this
  cases this

variable {p : AbsPath}

theorem chars_eq_root : p.chars = ['/'] ↔ p.names = [] := by
  unfold chars
  split
  · next h => simp [h]
  · next h => simp [h, p.spell_ne_root]

theorem chars_injective {q : AbsPath} (heq : p.chars = q.chars) : p = q := by
  apply AbsPath.ext
  by_cases hp : p.names = []
  · rw [hp, chars_eq_root.mp (heq ▸ chars_eq_root.mpr hp)]
  · have hq : q.names ≠ [] := fun h => hp (chars_eq_root.mp (heq ▸ chars_eq_root.mpr h))
    unfold chars at heq
    rw [if_neg hp, if_neg hq] at heq
    exact spell_injective p.slashFree q.slashFree heq

def extend (d : AbsPath) (es : List Path) (hok : ∀ c ∈ es, IsName c) : AbsPath :=
  ⟨d.names ++ es, fun c hc => (List.mem_append.mp hc).elim (d.ok c) (hok c)⟩

theorem chars_append {d : AbsPath} {es : List Path} (hd : d.names ≠ [])
    (hp : p.names = d.names ++ es) : p.chars = d.chars ++ spell es := by
  have hdc : d.chars = spell d.names := if_neg hd
  have hpc : p.chars = spell p.names := if_neg (by rw [hp]; simp [hd])
  rw [hdc, hpc, hp, spell_append]

/-- `lxp_path_under` decides whether the names of one path begin those of the other. -/
theorem under_iff (p d : AbsPath) : pathUnder p.chars d.chars = true ↔ d.names <+: p.names := by
  unfold pathUnder
  split
  · rename_i hroot
    rw [chars_eq_root.mp hroot, p.chars_head]
    simp
  rename_i hroot
  have hd : d.names ≠ [] := fun h => hroot (chars_eq_root.mpr h)
  have hdc : d.chars = spell d.names := if_neg hd
  simp only [Bool.and_eq_true, Bool.not_eq_true', isEmpty_eq_false_iff, decide_eq_true_eq,
    Bool.or_eq_true, List.isEmpty_iff, beq_iff_eq]
  constructor
  · rintro ⟨⟨-, r, hr⟩, hslash⟩
    rw [← hr, drop_left] at hslash
    have hp : p.names ≠ [] := by
      intro hp
      have hroot' := chars_eq_root.mpr hp
      rw [hroot', hdc] at hr
      rcases hslash with rfl | hslash
      · exact d.spell_ne_root (by simpa using hr)
      have hlen := congrArg List.length hr
      have h1 : spell d.names ≠ [] := fun h => hd (spell_eq_nil.mp h)
      have h2 := length_pos_iff.mpr h1
      have h3 : r ≠ [] := by
        rintro rfl
        cases hslash
      have h4 := length_pos_iff.mpr h3
      simp only [length_append, length_singleton] at hlen
      omega
    have hpc : p.chars = spell p.names := if_neg hp
    rw [hdc, hpc] at hr
    obtain ⟨es, hes, -⟩ := (spell_eq_append_iff p.slashFree d.slashFree hslash).mp hr.symm
    exact ⟨es, hes.symm⟩
  · rintro ⟨es, hes⟩
    have hpc : p.chars = d.chars ++ spell es := chars_append hd hes.symm
    refine ⟨⟨d.chars_ne_nil, ⟨_, hpc.symm⟩⟩, ?_⟩
    rw [hpc, drop_left]
    exact spell_atSlash es

theorem childName_spell {es : List Path} (hok : ∀ c ∈ es, IsName c) (c : Path) :
    (match some (spell es) with
      | some ('/' :: name) => if name = [] ∨ '/' ∈ name then none else some name
      | _ => none) = some c ↔ es = [c] := by
  match es with
  | [] => simp [spell]
  | [e] =>
    have he := hok e mem_cons_self
    have hspell : spell [e] = '/' :: e := by simp [spell]
    simp [hspell, he.1, he.2.1]
  | e :: e' :: es =>
    simp [spell_cons]

theorem childName_iff (p d : AbsPath) (c : Path) :
    pathChildName d.chars p.chars = some c ↔ p.names = d.names ++ [c] := by
  unfold pathChildName
  by_cases hd : d.names = []
  · rw [if_pos (chars_eq_root.mpr hd), hd]
    by_cases hp : p.names = []
    · rw [chars_eq_root.mpr hp, hp]
      simp
    · have hpc : p.chars = spell p.names := if_neg hp
      rw [hpc]
      exact childName_spell p.ok c
  rw [if_neg fun h => hd (chars_eq_root.mp h)]
  by_cases hunder : d.names <+: p.names
  · obtain ⟨es, hes⟩ := hunder
    have hpc : p.chars = d.chars ++ spell es := chars_append hd hes.symm
    have hok : ∀ e ∈ es, IsName e := fun e he => p.ok e (hes ▸ mem_append_right _ he)
    rw [if_pos ⟨_, hpc.symm⟩, hpc, drop_left, ← hes, append_cancel_left_eq]
    exact childName_spell hok c
  constructor
  · intro h
    split at h
    · rename_i hpre
      simp only at h
      split at h
      · rename_i hrest
        refine absurd ((under_iff p d).mp ?_) hunder
        unfold pathUnder
        rw [if_neg fun h => hd (chars_eq_root.mp h)]
        injection hrest with hrest
        simp [d.chars_ne_nil, hpre, hrest]
      · cases h
    · cases h
  · intro h
    exact absurd ⟨[c], h.symm⟩ hunder

end AbsPath

/-! ## What normalization yields -/

theorem dropComponent_spell (hok : ∀ c ∈ cs, '/' ∉ c) :
    dropComponent (spell cs) = spell cs.dropLast := by
  induction cs using List.reverseRecOn with
  | nil => rfl
  | append_singleton cs c _ =>
    have hc : '/' ∉ c := hok c (by simp)
    have hdrop : (c.reverse ++ '/' :: (spell cs).reverse).dropWhile (· != '/') =
        '/' :: (spell cs).reverse := by
      rw [dropWhile_append_of_pos]
      · simp
      · intro x hx
        simp only [bne_iff_ne]
        rintro rfl
        exact hc (mem_reverse.mp hx)
    have hspell : (spell (cs ++ [c])).reverse = c.reverse ++ '/' :: (spell cs).reverse := by
      simp [spell]
    rw [dropComponent, hspell, hdrop, drop_one, tail_cons, reverse_reverse, dropLast_concat]

variable {seg out mid : Path}

def pushComponent (stack : List Path) (c : Path) : List Path :=
  if c = [] ∨ c = ['.'] then stack
  else if c = ['.', '.'] then stack.dropLast
  else stack ++ [c]

def pushPath (stack : List Path) (path : Path) : List Path :=
  (path.splitOn '/').foldl pushComponent stack

theorem splitOn_name (hseg : '/' ∉ seg) : seg.splitOn '/' = [seg] := by
  refine splitOnP_eq_singleton fun x hx => ?_
  simp only [beq_eq_false_iff_ne]
  rintro rfl
  exact hseg hx

theorem pushPath_append (stack : List Path) (dir path : Path) :
    pushPath stack (dir ++ '/' :: path) = pushPath (pushPath stack dir) path := by
  unfold pushPath List.splitOn
  rw [splitOnP_append_cons _ _ (by simp), foldl_append]

theorem pushPath_name (stack : List Path) (hseg : '/' ∉ seg) :
    pushPath stack seg = pushComponent stack seg := by
  rw [pushPath, splitOn_name hseg]
  rfl

theorem pushPath_spell (stack : List Path) (hok : ∀ c ∈ cs, IsName c) :
    pushPath stack (spell cs) = stack ++ cs := by
  induction cs using List.reverseRecOn with
  | nil => simp [pushPath, spell, pushComponent]
  | append_singleton cs c ih =>
    have hc := hok c (by simp)
    have hspell : spell (cs ++ [c]) = spell cs ++ '/' :: c := by simp [spell]
    rw [hspell, pushPath_append, ih fun d hd => hok d (by simp [hd]), pushPath_name _ hc.2.1,
      pushComponent, if_neg (not_or.mpr ⟨hc.1, hc.2.2.1⟩), if_neg hc.2.2.2, append_assoc]

theorem pushComponent_names (hok : ∀ c ∈ cs, IsName c) (hseg : '/' ∉ seg) :
    ∀ c ∈ pushComponent cs seg, IsName c := by
  unfold pushComponent
  intro c hc
  split at hc
  · exact hok c hc
  rename_i h1
  split at hc
  · exact hok c (dropLast_subset _ hc)
  rename_i h2
  rcases mem_append.mp hc with hc | hc
  · exact hok c hc
  · rw [mem_singleton.mp hc]
    exact ⟨(not_or.mp h1).1, hseg, (not_or.mp h1).2, h2⟩

theorem normalizeSeg_spell (hok : ∀ c ∈ cs, IsName c)
    (h : normalizeSeg outlen (spell cs) seg = .ok out) : out = spell (pushComponent cs seg) := by
  unfold normalizeSeg at h
  unfold pushComponent
  split at h
  · injection h with h
    rw [if_pos (.inl ‹_›), h]
  split at h
  · injection h with h
    rw [if_pos (.inr ‹_›), h]
  rw [if_neg (not_or.mpr ⟨‹_›, ‹_›⟩)]
  split at h
  · injection h with h
    rw [if_pos ‹_›, ← h, dropComponent_spell fun c hc => (hok c hc).2.1]
  rw [if_neg ‹_›]
  split at h
  · cases h
  injection h with h
  rw [← h]
  simp [spell]

/-- The walk leaves the names that are on the stack after the components of its path. -/
theorem normalizeWalk_spell (cs : List Path) {path : Path} (hok : ∀ c ∈ cs, IsName c)
    (hseg : '/' ∉ seg) (h : normalizeWalk outlen (spell cs) seg path = .ok out) :
    (∀ c ∈ pushPath cs (seg ++ path), IsName c) ∧ out = spell (pushPath cs (seg ++ path)) := by
  induction path generalizing cs seg with
  | nil =>
    rw [append_nil, pushPath_name cs hseg]
    exact ⟨pushComponent_names hok hseg, normalizeSeg_spell hok h⟩
  | cons c rest ih =>
    rw [normalizeWalk] at h
    split at h
    · rename_i hc
      generalize hs : normalizeSeg outlen (spell cs) seg = q at h
      cases q with
      | error e => cases h
      | ok mid =>
        rw [normalizeSeg_spell hok hs] at h
        rw [hc, pushPath_append, pushPath_name cs hseg]
        exact ih _ (pushComponent_names hok hseg) not_mem_nil h
    · rename_i hc
      rw [← singleton_append, ← append_assoc]
      refine ih cs hok ?_ h
      simp [hseg, Ne.symm hc]

/-- What the path system calls hand on is a list of names. -/
theorem normalizeAbs_chars {path : Path} (h : normalizeAbs outlen path = .ok out) :
    ∃ p : AbsPath, p.names = pushPath [] path ∧ out = p.chars := by
  unfold normalizeAbs at h
  generalize hw : normalizeWalk outlen [] [] path = q at h
  cases q with
  | error e => cases h
  | ok mid =>
    obtain ⟨hok, rfl⟩ := normalizeWalk_spell [] (by simp) not_mem_nil hw
    injection h with h
    refine ⟨⟨_, hok⟩, rfl, ?_⟩
    rw [← h]
    simp only [AbsPath.chars, spell_eq_nil]

theorem dropComponent_length (out : Path) : (dropComponent out).length ≤ out.length := by
  have hdrop : (out.reverse.dropWhile (· != '/')).length ≤ out.reverse.length :=
    (dropWhile_suffix _).length_le
  simp only [dropComponent, length_reverse, length_drop] at hdrop ⊢
  omega

theorem normalizeSeg_length (h : normalizeSeg outlen out seg = .ok mid) :
    mid.length ≤ out.length + seg.length + 1 ∧ (out.length < outlen → mid.length < outlen) := by
  have hdrop := dropComponent_length out
  unfold normalizeSeg at h
  split at h
  · cases h
    omega
  split at h
  · cases h
    omega
  split at h
  · cases h
    omega
  split at h
  · cases h
  · cases h
    rw [length_append, length_cons]
    omega

/-- The walk writes no more than it reads, and stays within the buffer. -/
theorem normalizeWalk_length {path : Path} (h : normalizeWalk outlen out seg path = .ok mid) :
    mid.length ≤ out.length + seg.length + path.length + 1 ∧
      (out.length < outlen → mid.length < outlen) := by
  induction path generalizing out seg with
  | nil => exact normalizeSeg_length h
  | cons c rest ih =>
    rw [normalizeWalk] at h
    rw [length_cons]
    split at h
    · generalize hs : normalizeSeg outlen out seg = q at h
      cases q with
      | error e => cases h
      | ok next =>
        have hnext := normalizeSeg_length hs
        have hrest := ih h
        rw [length_nil] at hrest
        omega
    · have hrest := ih h
      rw [length_append, length_singleton] at hrest
      omega

/-- A path shorter than the output buffer is not refused. -/
theorem normalizeWalk_short (out seg path : Path)
    (h : out.length + seg.length + path.length + 1 < outlen) :
    ∃ mid, normalizeWalk outlen out seg path = .ok mid := by
  have hfits : ∀ out seg : Path, out.length + seg.length + 1 < outlen →
      ∃ mid, normalizeSeg outlen out seg = .ok mid := by
    intro out seg hlen
    unfold normalizeSeg
    rw [if_neg (show ¬ outlen ≤ out.length + 1 + seg.length by omega)]
    split
    · exact ⟨_, rfl⟩
    split
    · exact ⟨_, rfl⟩
    split <;> exact ⟨_, rfl⟩
  induction path generalizing out seg with
  | nil => exact hfits out seg h
  | cons c rest ih =>
    rw [length_cons] at h
    rw [normalizeWalk]
    split
    · obtain ⟨next, hnext⟩ := hfits out seg (by omega)
      have hlen := (normalizeSeg_length hnext).1
      rw [hnext]
      exact ih _ _ (by rw [length_nil]; omega)
    · exact ih _ _ (by simp only [length_append, length_cons, length_nil]; omega)

theorem normalizeWalk_name {c rest : Path} (hc : '/' ∉ c) :
    normalizeWalk outlen out seg (c ++ rest) = normalizeWalk outlen out (seg ++ c) rest := by
  induction c generalizing seg with
  | nil => simp
  | cons x c ih =>
    have hx : x ≠ '/' := fun h => hc (h ▸ mem_cons_self)
    rw [cons_append, normalizeWalk, if_neg hx,
      ih fun h => hc (mem_cons_of_mem _ h), append_assoc, singleton_append]

theorem normalizeWalk_names (hok : ∀ c ∈ cs, IsName c)
    (hseg : normalizeSeg outlen out seg = .ok mid)
    (hlen : mid.length + (spell cs).length < outlen) :
    normalizeWalk outlen out seg (spell cs) = .ok (mid ++ spell cs) := by
  induction cs generalizing out seg mid with
  | nil => simpa [spell, normalizeWalk] using hseg
  | cons c cs ih =>
    have hc := hok c mem_cons_self
    rw [spell_cons] at hlen ⊢
    simp only [length_cons, length_append] at hlen
    rw [normalizeWalk, hseg]
    show normalizeWalk outlen mid [] (c ++ spell cs) = _
    have hnext : normalizeSeg outlen mid c = .ok (mid ++ '/' :: c) := by
      unfold normalizeSeg
      rw [if_neg hc.1, if_neg hc.2.2.1, if_neg hc.2.2.2, if_neg (by omega)]
    rw [normalizeWalk_name hc.2.1, nil_append,
      ih (fun d hd => hok d (mem_cons_of_mem _ hd)) hnext (by simp; omega)]
    simp

/-- A path that is normal already is handed on as it is. -/
theorem normalizeAbs_self (p : AbsPath) (hlen : p.chars.length < outlen) :
    normalizeAbs outlen p.chars = .ok p.chars := by
  have hempty : normalizeSeg outlen [] [] = .ok [] := if_pos rfl
  unfold normalizeAbs
  by_cases hp : p.names = []
  · rw [AbsPath.chars_eq_root.mpr hp]
    rfl
  have hpc : p.chars = spell p.names := if_neg hp
  rw [hpc] at hlen ⊢
  rw [normalizeWalk_names p.ok hempty (by simpa using hlen)]
  show Except.ok (if [] ++ spell p.names = [] then ['/'] else [] ++ spell p.names) = _
  rw [nil_append, if_neg fun h => hp (spell_eq_nil.mp h)]

end Lxp
