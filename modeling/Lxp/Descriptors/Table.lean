import Lxp.Run.Objects

/-!
# Descriptor tables by counts

Retaining a table adds to the count of every description the number of entries that name it, and
closing the table takes the same number away.  A count that leaves its 16 bits on the way becomes
zero and stays there: its entries are stale from then on.
-/

open Function RefPool List

namespace Lxp

variable {C : Config}
variable {fds : List (Fin C.maxFds)} {fd : Fin C.maxFds}

/-! ## Entries that name a description -/

def namesIn (t : Files C) (fds : List (Fin C.maxFds)) (k : Fin C.nofd) : Nat :=
  fds.countP fun fd => (t.fd fd).ofd = some k

def names (t : Files C) (k : Fin C.nofd) : Nat := namesIn t (List.finRange C.maxFds) k

theorem names_le (t : Files C) (k : Fin C.nofd) : names t k ≤ C.maxFds := by
  calc _ ≤ (List.finRange C.maxFds).length := countP_le_length
    _ = C.maxFds := length_finRange

theorem namesIn_cons (t : Files C) (fd : Fin C.maxFds) (fds : List (Fin C.maxFds))
    (k : Fin C.nofd) :
    namesIn t (fd :: fds) k = namesIn t [fd] k + namesIn t fds k := by
  simp only [namesIn, countP_cons, countP_nil]
  omega

variable {t : Files C} {o : Own C}

theorem namesIn_congr {t' : Files C} (h : ∀ fd ∈ fds, t'.fd fd = t.fd fd) (k : Fin C.nofd) :
    namesIn t' fds k = namesIn t fds k := by
  apply countP_congr
  intro fd hfd
  rw [h fd hfd]

theorem namesIn_none (h : (t.fd fd).ofd = none) (k : Fin C.nofd) : namesIn t [fd] k = 0 := by
  simp [namesIn, h]

theorem namesIn_some {i : Fin C.nofd} (h : (t.fd fd).ofd = some i) (k : Fin C.nofd) :
    namesIn t [fd] k = if i = k then 1 else 0 := by
  simp [namesIn, h]

/-! ## Retaining -/

/-- What a count `r` becomes when `n` entries retain it. -/
def retained (r n : Nat) : Nat := if r = 0 ∨ uint16Max < r + n then 0 else r + n

theorem retained_zero {r : Nat} (h : r ≤ uint16Max) : retained r 0 = r := by
  unfold retained
  split <;> omega

theorem retained_one {r : Nat} (hr : r ≠ 0) (h : r ≤ uint16Max) :
    retained r 1 = (r + 1) % (uint16Max + 1) := by
  unfold retained uint16Max at *
  split <;> omega

theorem retained_add (r m n : Nat) : retained (retained r m) n = retained r (m + n) := by
  unfold retained
  split_ifs <;> omega

theorem retained_le (r n : Nat) : retained r n ≤ uint16Max := by
  unfold retained
  split <;> omega

def retainOfds (o : Own C) (n : Fin C.nofd → Nat) : Own C :=
  { o with ofds := { o.ofds with refs := fun k => retained (o.ofds.refs k) (n k) } }

theorem fdRetain_eq (f : Obj C) (hword : ∀ k, o.ofds.refs k ≤ uint16Max)
    (fd : Fin C.maxFds) : fdRetain f o fd = retainOfds o (namesIn (o.filess.val f) [fd]) := by
  have hkeep : ∀ {n : Fin C.nofd → Nat}, (∀ k, retained (o.ofds.refs k) (n k) = o.ofds.refs k) →
      o = retainOfds o n := by
    intro n hn
    unfold retainOfds
    simp only [hn]
  unfold fdRetain fdLookup
  cases he : ((o.filess.val f).fd fd).ofd with
  | none =>
    apply hkeep
    intro k
    rw [namesIn_none he, retained_zero (hword k)]
  | some i =>
    dsimp only
    by_cases hi : o.ofds.refs i = 0
    · rw [if_pos hi]
      apply hkeep
      intro k
      rw [namesIn_some he]
      split
      · rename_i hik
        rw [← hik, hi]
        rfl
      · exact retained_zero (hword k)
    · rw [if_neg hi]
      unfold retainOfds
      have hrefs : update o.ofds.refs i ((o.ofds.refs i + 1) % (uint16Max + 1)) =
          fun k => retained (o.ofds.refs k) (namesIn (o.filess.val f) [fd] k) := by
        funext k
        rw [namesIn_some he]
        by_cases hki : k = i
        · subst hki
          rw [update_self, if_pos rfl, retained_one hi (hword k)]
        · rw [update_of_ne hki, if_neg (Ne.symm hki), retained_zero (hword k)]
      dsimp only
      rw [hrefs]

theorem foldl_fdRetain (f : Obj C) (fds : List (Fin C.maxFds))
    (hword : ∀ k, o.ofds.refs k ≤ uint16Max) :
    fds.foldl (fdRetain f) o = retainOfds o (namesIn (o.filess.val f) fds) := by
  induction fds generalizing o with
  | nil =>
    unfold retainOfds
    simp only [foldl_nil, namesIn, countP_nil, retained_zero (hword _)]
  | cons fd fds ih =>
    rw [foldl_cons, fdRetain_eq f hword, ih (fun k => retained_le _ _)]
    unfold retainOfds
    simp only [retained_add, ← namesIn_cons]

/-! ## Closing -/

/-- What closing the given descriptors of a table comes to. -/
structure ClosedFds (f : Obj C) (fds : List (Fin C.maxFds)) (o o' : Own C) : Prop where
  own : o' = { o with filess := o.filess.set f (o'.filess.val f), ofds := o'.ofds }
  table : ∀ fd, fd ∉ fds → (o'.filess.val f).fd fd = (o.filess.val f).fd fd
  refs : ∀ k, o'.ofds.refs k = o.ofds.refs k - namesIn (o.filess.val f) fds k
  val : ∀ k, namesIn (o.filess.val f) fds k < o.ofds.refs k → o'.ofds.val k = o.ofds.val k

theorem ClosedFds.refl (f : Obj C) (o : Own C) : ClosedFds f [] o o := by
  refine ⟨?_, fun _ _ => rfl, fun _ => rfl, fun _ _ => rfl⟩
  have hset : o.filess.set f (o.filess.val f) = o.filess := by
    unfold Pool.set
    rw [update_eq_self]
  rw [hset]

theorem fdClose_closed (f : Obj C) (o : Own C) (fd : Fin C.maxFds) :
    ClosedFds f [fd] o (fdClose f o fd) := by
  have hkeep : (∀ k, o.ofds.refs k = o.ofds.refs k - namesIn (o.filess.val f) [fd] k) →
      ClosedFds f [fd] o o := fun hrefs =>
    ⟨(ClosedFds.refl f o).own, fun _ _ => rfl, hrefs, fun _ _ => rfl⟩
  unfold fdClose fdLookup
  cases he : ((o.filess.val f).fd fd).ofd with
  | none =>
    apply hkeep
    intro k
    rw [namesIn_none he, Nat.sub_zero]
  | some i =>
    dsimp only
    by_cases hi : o.ofds.refs i = 0
    · rw [if_pos hi]
      apply hkeep
      intro k
      rw [namesIn_some he]
      split
      · rename_i hik
        rw [← hik, hi]
      · rfl
    rw [if_neg hi]
    have hval : (setFd o f fd {}).filess.val f = ⟨update (o.filess.val f).fd fd {}⟩ :=
      update_self _ _ _
    refine ⟨?_, ?_, ?_, ?_⟩
    · rw [hval]
      rfl
    · intro e hne
      rw [hval]
      exact update_of_ne (fun h => hne (mem_singleton.mpr h)) _ _
    · intro k
      rw [namesIn_some he, Pool.put_refs]
      by_cases hki : k = i
      · subst hki
        rw [update_self, if_pos rfl]
      · rw [update_of_ne hki, if_neg (Ne.symm hki), Nat.sub_zero]
    intro k hk
    rw [namesIn_some he] at hk
    by_cases hki : k = i
    · subst hki
      rw [if_pos rfl] at hk
      rw [Pool.put_val_of_shared (by omega)]
    · exact Pool.put_val_of_ne hki

theorem ClosedFds.trans {f : Obj C} {o' o'' : Own C} (hnew : fd ∉ fds) (h : ClosedFds f [fd] o o')
    (h' : ClosedFds f fds o' o'') : ClosedFds f (fd :: fds) o o'' := by
  have hnames : ∀ k, namesIn (o'.filess.val f) fds k = namesIn (o.filess.val f) fds k := by
    apply namesIn_congr
    intro e he
    apply h.table
    rintro hmem
    rw [mem_singleton.mp hmem] at he
    exact hnew he
  refine ⟨?_, ?_, ?_, ?_⟩
  · rw [h'.own, h.own]
    simp only [Pool.set, update_self, update_idem]
  · intro e he
    rw [mem_cons, not_or] at he
    rw [h'.table e he.2, h.table e (by simpa using he.1)]
  · intro k
    rw [h'.refs, h.refs, hnames, namesIn_cons _ fd fds]
    omega
  · intro k hk
    rw [namesIn_cons _ fd fds] at hk
    rw [h'.val k (by rw [h.refs, hnames]; omega), h.val k (by omega)]

theorem foldl_fdClose (f : Obj C) (hnodup : fds.Nodup) (o : Own C) :
    ClosedFds f fds o (fds.foldl (fdClose f) o) := by
  induction fds generalizing o with
  | nil => exact ClosedFds.refl f o
  | cons fd fds ih =>
    obtain ⟨hnew, hrest⟩ := nodup_cons.mp hnodup
    exact (fdClose_closed f o fd).trans hnew (ih hrest _)

theorem fdCloseAll_closed (f : Obj C) (o : Own C) :
    ClosedFds f (List.finRange C.maxFds) o (fdCloseAll f o) :=
  foldl_fdClose f (nodup_finRange _) o

end Lxp
