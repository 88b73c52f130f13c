import Lxp.Overlay.Paths
import Mathlib.Logic.Relation

/-!
# Resolving paths and following links

A path is joined onto the working directory in a buffer of its own and then normalized.  The target
of a symbolic link is joined onto the directory of the link.
-/

open List

namespace Lxp

def pathMax : Nat := 256

/-! ## Against a directory -/

-- `s` behind `joined`, with `spare` bytes left in the buffer at every step.
def joinChars (spare : Nat) (joined : Path) : Path → Except FsErrno Path
  | [] => .ok joined
  | c :: s =>
    if pathMax ≤ joined.length + spare then .error .enametoolong
    else joinChars spare (joined ++ [c]) s

def resolveFrom (base path : Path) (outlen : Nat) : Except FsErrno Path := do
  let joined ← if path.head? = some '/' then .ok [] else do
    let joined ← joinChars 2 [] base
    .ok (joined ++ ['/'])
  let joined ← joinChars 1 joined path
  normalizeAbs outlen joined

def resolvedNames (cwd : AbsPath) (path : Path) : List Path :=
  pushPath (if path.head? = some '/' then [] else cwd.names) path

def joinedPath (cwd : AbsPath) (path : Path) : Path :=
  if path.head? = some '/' then path else cwd.chars ++ '/' :: path

section Resolve

variable {outlen spare : Nat} {path joined out : Path}

theorem joinChars_iff (s : Path) : joinChars spare joined s = .ok out ↔
    out = joined ++ s ∧ (s = [] ∨ out.length + spare ≤ pathMax) := by
  induction s generalizing joined with
  | nil => simp [joinChars, eq_comm]
  | cons c s ih =>
    rw [joinChars]
    split
    · refine ⟨nofun, ?_⟩
      rintro ⟨rfl, h | h⟩
      · cases h
      · simp only [length_append, length_cons] at h
        omega
    rw [ih, append_assoc, singleton_append]
    refine and_congr_right fun hout => ?_
    simp only [reduceCtorEq, false_or, or_iff_right_iff_imp]
    rintro rfl
    rw [hout, length_append, length_singleton]
    omega

/-- The join is refused exactly when it does not fit the buffer. -/
theorem resolveFrom_iff (cwd : AbsPath) (path : Path) :
    resolveFrom cwd.chars path outlen = .ok out ↔
    (joinedPath cwd path).length < pathMax ∧
      normalizeAbs outlen (joinedPath cwd path) = .ok out := by
  have hbind : ∀ joined : Path, (joinChars 1 joined path >>= normalizeAbs outlen) = .ok out ↔
      (path = [] ∨ (joined ++ path).length < pathMax) ∧
        normalizeAbs outlen (joined ++ path) = .ok out := by
    intro joined
    cases hjoin : joinChars 1 joined path with
    | error e =>
      refine ⟨nofun, fun ⟨hfits, _⟩ => ?_⟩
      rw [(joinChars_iff path).mpr ⟨rfl, hfits⟩] at hjoin
      cases hjoin
    | ok full =>
      obtain ⟨rfl, hfits⟩ := (joinChars_iff path).mp hjoin
      exact ⟨fun h => ⟨hfits, h⟩, fun h => h.2⟩
  unfold resolveFrom joinedPath
  split
  · rename_i habs
    have hne : path ≠ [] := by
      rintro rfl
      cases habs
    have h := hbind []
    simp only [hne, false_or] at h
    exact h
  have hne := cwd.chars_ne_nil
  cases hjoin : joinChars 2 [] cwd.chars with
  | error e =>
    refine ⟨nofun, fun ⟨hfits, _⟩ => ?_⟩
    simp only [length_append, length_cons] at hfits
    have hok : joinChars 2 [] cwd.chars = .ok cwd.chars :=
      (joinChars_iff _).mpr ⟨rfl, .inr (by omega)⟩
    rw [hok] at hjoin
    cases hjoin
  | ok full =>
    obtain ⟨rfl, hfits⟩ := (joinChars_iff _).mp hjoin
    have hroom := hfits.resolve_left hne
    have h := hbind (cwd.chars ++ ['/'])
    simp only [append_assoc, singleton_append] at h
    refine h.trans (and_congr_left fun _ => or_iff_right_of_imp ?_)
    rintro rfl
    simp only [nil_append] at hroom
    simp only [length_append, length_singleton]
    omega

theorem joinedPath_head (cwd : AbsPath) (path : Path) :
    ∃ rest, joinedPath cwd path = '/' :: rest := by
  have hhead : (joinedPath cwd path).head? = some '/' := by
    unfold joinedPath
    split
    · assumption
    · simp [cwd.chars_head]
  exact ⟨_, (cons_head?_tail hhead).symm⟩

theorem pushPath_joinedPath (cwd : AbsPath) (path : Path) :
    pushPath [] (joinedPath cwd path) = resolvedNames cwd path := by
  unfold joinedPath resolvedNames
  split
  · rfl
  rw [pushPath_append]
  unfold AbsPath.chars
  split
  · rename_i hroot
    rw [hroot]
    rfl
  · rw [pushPath_spell [] cwd.ok, nil_append]

/-- What resolving a path hands on is the stack of its components, pushed on the working directory:
names only, within the output buffer, and unchanged if it is resolved once more.  A path that fits
the two buffers is not refused. -/
theorem resolveFrom_stack (cwd : AbsPath) (path : Path) (outlen : Nat) (hout : 2 ≤ outlen) :
    ((joinedPath cwd path).length < pathMax → (joinedPath cwd path).length < outlen →
      ∃ out, resolveFrom cwd.chars path outlen = .ok out) ∧
    ∀ out, resolveFrom cwd.chars path outlen = .ok out →
      (∃ p : AbsPath, p.names = resolvedNames cwd path ∧ out = p.chars) ∧ out.length < outlen ∧
        ∀ cwd' : AbsPath, resolveFrom cwd'.chars out outlen = .ok out := by
  obtain ⟨rest, hrest⟩ := joinedPath_head cwd path
  have hwalk : normalizeWalk outlen [] [] (joinedPath cwd path) =
      normalizeWalk outlen [] [] rest := by
    rw [hrest]
    rfl
  constructor
  · intro hmax hlen
    obtain ⟨mid, hmid⟩ := normalizeWalk_short [] [] rest (by rw [hrest] at hlen; simpa using hlen)
    have hnorm : normalizeAbs outlen (joinedPath cwd path) =
        .ok (if mid = [] then ['/'] else mid) := by
      rw [normalizeAbs, hwalk, hmid]
      rfl
    exact ⟨_, (resolveFrom_iff cwd path).mpr ⟨hmax, hnorm⟩⟩
  · intro out hok
    obtain ⟨hmax, hnorm⟩ := (resolveFrom_iff cwd path).mp hok
    obtain ⟨p, hp, rfl⟩ := normalizeAbs_chars hnorm
    rw [pushPath_joinedPath] at hp
    have hlen : p.chars.length < outlen ∧ p.chars.length < pathMax := by
      unfold normalizeAbs at hnorm
      rw [hwalk] at hnorm
      cases hmid : normalizeWalk outlen [] [] rest with
      | error e =>
        rw [hmid] at hnorm
        cases hnorm
      | ok mid =>
        rw [hmid] at hnorm
        injection hnorm with hchars
        have hmidlen := normalizeWalk_length hmid
        rw [hrest] at hmax
        simp only [length_nil, length_cons] at hmidlen hmax
        rw [← hchars]
        split
        · exact ⟨hout, by decide⟩
        · omega
    refine ⟨⟨p, hp, rfl⟩, hlen.1, fun cwd' => (resolveFrom_iff cwd' _).mpr ?_⟩
    rw [joinedPath, if_pos p.chars_head]
    exact ⟨hlen.2, normalizeAbs_self p hlen.1⟩

theorem resolveFrom_stack_up : 2 ≤ 8 ∧
    resolveFrom ['/', 'a'] ['.', '.', '/', 'b'] 8 = .ok ['/', 'b'] ∧ ['/', 'b'].length < 8 :=
  ⟨by decide, rfl,
    ((resolveFrom_stack ⟨[['a']], by decide⟩ ['.', '.', '/', 'b'] 8 (by decide)).2 _ rfl).2.1⟩

end Resolve

/-! ## Links of the root filesystem -/

structure RootFile where
  path : Path
  data : Option Path
  mode : Nat

def fileMode (f : RootFile) : Nat := if f.mode = 0 then 0x81a4 else f.mode

def isLink (f : RootFile) : Bool := fileMode f &&& 0xf000 == 0xa000

/-- Up to the last slash, unless the target is absolute. -/
def linkDir (link target : Path) : Path :=
  if target.head? = some '/' then [] else (link.reverse.dropWhile (· != '/')).reverse

def upToNul (s : Path) : Path := s.takeWhile (· != '\x00')

def pathLinkTarget (link target : Path) (outlen : Nat) : Except FsErrno Path :=
  let dir := linkDir link target
  if pathMax ≤ dir.length ∨ pathMax ≤ dir.length + target.length then .error .enametoolong
  else normalizeAbs outlen (upToNul (dir ++ target))

section Links

variable {n : Nat} (fs : Fin n → RootFile)

def fsxLookup (abspath : Path) : Option (Fin n) :=
  (List.finRange n).find? fun i => (fs i).path == abspath

def linkNext (i : Fin n) : Option (Fin n) :=
  match (fs i).data with
  | none | some [] => none
  | some target =>
    match pathLinkTarget (fs i).path target pathMax with
    | .error _ => none
    | .ok abspath => fsxLookup fs abspath

def symloopMax : Nat := 8

/-- With `hops` left of the `LXP_SYMLOOP_MAX`. -/
def fsxFollow : Nat → Option (Fin n) → Option (Fin n)
  | 0, idx => idx
  | _ + 1, none => none
  | hops + 1, some i => if isLink (fs i) then fsxFollow hops (linkNext fs i) else some i

-- `j` bears the path that the target of the link `i` resolves to in the directory of `i`.
def Leads (i j : Fin n) : Prop :=
  isLink (fs i) = true ∧ ∃ target p, (fs i).data = some target ∧
    AbsPath.names p = pushPath [] (upToNul (linkDir (fs i).path target ++ target)) ∧
    (fs j).path = p.chars

/-- What following links from `i` may return. -/
def Followed (i : Fin n) (r : Option (Fin n)) : Prop :=
  ∀ j, r = some j → isLink (fs j) = false ∧ Relation.ReflTransGen (Leads fs) i j

/-- The link that is reached over `hops` links. -/
def linkAfter : Nat → Fin n → Option (Fin n)
  | 0, i => some i
  | hops + 1, i => if isLink (fs i) then (linkNext fs i).bind (linkAfter hops) else none

variable {fs}

theorem linkNext_leads {i j : Fin n} (hlink : isLink (fs i) = true)
    (h : linkNext fs i = some j) : Leads fs i j := by
  unfold linkNext at h
  split at h
  · cases h
  · cases h
  rename_i target _ hdata
  split at h
  · cases h
  rename_i abspath htarget
  have hpath : (fs j).path = abspath := by simpa using find?_some h
  unfold pathLinkTarget at htarget
  dsimp only at htarget
  split at htarget
  · cases htarget
  obtain ⟨p, hp, rfl⟩ := normalizeAbs_chars htarget
  exact ⟨hlink, target, p, hdata, hp, hpath⟩

/-- Whatever is returned is reached over links, and is a link only where the hops ran out. -/
theorem fsxFollow_reached (hops : Nat) (i j : Fin n) (h : fsxFollow fs hops (some i) = some j) :
    Relation.ReflTransGen (Leads fs) i j ∧
      (isLink (fs j) = true → linkAfter fs hops i = some j) := by
  induction hops generalizing i with
  | zero =>
    obtain rfl : i = j := Option.some.inj h
    exact ⟨.refl, fun _ => rfl⟩
  | succ hops ih =>
    rw [fsxFollow] at h
    split at h
    · rename_i hlink
      cases hnext : linkNext fs i with
      | none =>
        rw [hnext] at h
        cases hops <;> cases h
      | some k =>
        rw [hnext] at h
        obtain ⟨hreach, hlast⟩ := ih k h
        refine ⟨.head (linkNext_leads hlink hnext) hreach, fun hj => ?_⟩
        rw [linkAfter, if_pos hlink, hnext]
        exact hlast hj
    · rename_i hlink
      obtain rfl : i = j := Option.some.inj h
      exact ⟨.refl, fun hj => absurd hj hlink⟩

theorem fsxFollow_exhausted (hops : Nat) (i j : Fin n) (h : linkAfter fs hops i = some j) :
    fsxFollow fs hops (some i) = some j := by
  induction hops generalizing i with
  | zero => exact h
  | succ hops ih =>
    rw [linkAfter] at h
    split at h
    · rename_i hlink
      obtain ⟨k, hnext, hk⟩ := Option.bind_eq_some_iff.mp h
      rw [fsxFollow, if_pos hlink, hnext]
      exact ih k hk
    · cases h

/-- Following links ends at an entry that is none, unless `LXP_SYMLOOP_MAX` links lead to one more
link. -/
theorem fsxFollow_followed_iff (fs : Fin n → RootFile) (i : Fin n) :
    Followed fs i (fsxFollow fs symloopMax (some i)) ↔
      ∀ j, linkAfter fs symloopMax i = some j → isLink (fs j) = false := by
  constructor
  · intro h j hj
    exact (h j (fsxFollow_exhausted symloopMax i j hj)).1
  · intro h j hj
    obtain ⟨hreach, hlast⟩ := fsxFollow_reached symloopMax i j hj
    refine ⟨?_, hreach⟩
    cases hlink : isLink (fs j) with
    | false => rfl
    | true => rw [← hlink, h j (hlast hlink)]

end Links

def selfLink : Fin 1 → RootFile := fun _ => ⟨['/', 'a'], some ['a'], 0xa1ff⟩

theorem selfLink_not_followed : fsxFollow selfLink symloopMax (some 0) = some 0 ∧
    isLink (selfLink 0) = true ∧ ¬ Followed selfLink 0
      (fsxFollow selfLink symloopMax (some 0)) := by
  have hrun : fsxFollow selfLink symloopMax (some 0) = some 0 := by decide +kernel
  refine ⟨hrun, by decide, fun h => ?_⟩
  have hlink := (h 0 hrun).1
  cases hlink

end Lxp
