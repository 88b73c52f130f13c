import Lxp.Run.Signal

/-!
# Futexes

A wait parks while the word still has the expected value and some other task could wake it.  A wake
only marks waiters; the scan of blocked tasks resumes them.
-/

namespace Lxp

variable {C : Config}

/-- Another live task in the same address space; a suspended vfork parent wakes nobody. -/
def futexHasCorunner (o : Own C) (s : C.Slot) : Bool :=
  (o.mm s).isSome && (List.finRange C.nslot).any fun t =>
    t != s && o.alive t && o.mm t == o.mm s && !(o.vforkParent s).any fun p => p.index == t

/-- What the caller passes and what reading it from the guest's memory comes to. -/
structure FutexWait where
  uaddr : Nat
  -- The word at `uaddr`, when it can be read.
  observed : Option Nat
  val : Nat
  -- The timeout in microseconds, when there is one; `none` inside when it cannot be read.
  timeout : Option (Option Nat) := none
  -- An absolute timeout, as FUTEX_WAIT_BITSET has it.
  absolute : Bool := false
  now : Nat := 0

/-- Zero stands for no timeout, so that a deadline is never zero. -/
def futexDeadline (q : FutexWait) (timeout : Nat) : Nat :=
  let deadline := (if q.absolute then timeout else q.now + timeout) % 2 ^ 64
  if deadline = 0 then 1 else deadline

-- `none` when the caller is parked.
def futexWait (s : C.Slot) (q : FutexWait) (rt : Runtime C) : Option Int × Runtime C :=
  match q.observed with
  | none => (some (-Errno.efault.code), rt)
  | some observed =>
    if observed ≠ q.val then (some (-Errno.eagain.code), rt)
    else if futexHasCorunner rt.own s = false then (some (-Errno.eagain.code), rt)
    else
      match q.timeout with
      | some none => (some (-Errno.efault.code), rt)
      | timeout =>
        let deadline := match timeout with
          | some (some t) => futexDeadline q t
          | _ => 0
        match waitBegin s (.futex q.uaddr deadline false) rt with
        | none => (some (-Errno.eagain.code), rt)
        | some rt => (none, parkFrame s rt)

/-- A waiter that an earlier wake has marked is not counted again. -/
def futexWaits (rt : Runtime C) (uaddr : Nat) (s : C.Slot) : Bool :=
  rt.own.alive s && match (rt.sched.ctl s).wait with
    | .futex addr _ false => addr == uaddr
    | _ => false

def futexMark (s : C.Slot) (rt : Runtime C) : Runtime C :=
  modifyCtl s (fun c => { c with wait := match c.wait with
    | .futex uaddr deadline _ => .futex uaddr deadline true
    | w => w }) rt

def futexWakeSlot (uaddr val : Nat) (x : List C.Slot × Runtime C) (s : C.Slot) :
    List C.Slot × Runtime C :=
  if x.1.length < val ∧ futexWaits x.2 uaddr s = true then (s :: x.1, futexMark s x.2) else x

/-- The waiters that were marked; the call returns their number. -/
def futexWake (uaddr val : Nat) (rt : Runtime C) : List C.Slot × Runtime C :=
  (List.finRange C.nslot).foldl (futexWakeSlot uaddr val) ([], rt)

open List

theorem futexMark_waits (s t : C.Slot) (uaddr : Nat) (rt : Runtime C) :
    futexWaits (futexMark s rt) uaddr t = (!(t == s) && futexWaits rt uaddr t) := by
  unfold futexWaits futexMark modifyCtl
  by_cases hts : t = s
  · subst hts
    cases hw : (rt.sched.ctl t).wait <;> simp [hw]
  · simp [hts]

theorem futexMarks_waits (uaddr : Nat) (woken : List C.Slot) (rt : Runtime C)
    (t : C.Slot) : futexWaits (woken.foldl (flip futexMark) rt) uaddr t =
      (!woken.contains t && futexWaits rt uaddr t) := by
  induction woken generalizing rt with
  | nil => simp
  | cons s woken ih =>
    rw [foldl_cons, ih, flip, futexMark_waits, contains_cons, Bool.not_or, Bool.and_left_comm,
      Bool.and_assoc]

theorem futexWake_fold (uaddr val : Nat) (l woken : List C.Slot) (hl : l.Nodup) (rt : Runtime C) :
    l.foldl (futexWakeSlot uaddr val) (woken, rt) =
      (((l.filter (futexWaits rt uaddr)).take (val - woken.length)).reverse ++ woken,
        ((l.filter (futexWaits rt uaddr)).take (val - woken.length)).foldl
          (flip futexMark) rt) := by
  induction l generalizing woken rt with
  | nil => simp
  | cons s l ih =>
    obtain ⟨hs, hl⟩ := nodup_cons.mp hl
    rw [foldl_cons, futexWakeSlot]
    by_cases hw : futexWaits rt uaddr s = true
    · by_cases hlen : woken.length < val
      · have hrest : l.filter (futexWaits (futexMark s rt) uaddr) =
            l.filter (futexWaits rt uaddr) :=
          filter_congr fun t ht => by simp [futexMark_waits, ne_of_mem_of_not_mem ht hs]
        have hleft : val - woken.length = val - (woken.length + 1) + 1 := by omega
        rw [if_pos ⟨hlen, hw⟩, ih _ hl, hrest, filter_cons_of_pos hw, hleft]
        simp [flip]
      · rw [if_neg (by simp [hlen]), ih _ hl]
        simp [Nat.sub_eq_zero_of_le (Nat.le_of_not_lt hlen)]
    · rw [if_neg (by simp [hw]), ih _ hl, filter_cons_of_neg hw]

/-- The waiters on an address that no wake has marked yet, in slot order. -/
def futexWaiters (rt : Runtime C) (uaddr : Nat) : List C.Slot :=
  (finRange C.nslot).filter (futexWaits rt uaddr)

/-- A wake marks the first waiters in slot order and changes nothing else, and they no longer count
as waiters; so two wakes mark and count what one with the sum of their counts does. -/
theorem futexWake_add (uaddr a b : Nat) (rt : Runtime C) :
    let first := futexWake uaddr a rt
    let second := futexWake uaddr b first.2
    let marked := (futexWaiters rt uaddr).take a
    first = (marked.reverse, marked.foldl (flip futexMark) rt) ∧
      futexWaiters first.2 uaddr = (futexWaiters rt uaddr).drop a ∧
      (second.1 ++ first.1, second.2) = futexWake uaddr (a + b) rt := by
  have heq := fun val rt => futexWake_fold uaddr val _ [] (nodup_finRange C.nslot) rt
  simp only [length_nil, Nat.sub_zero, append_nil] at heq
  have hdisj := disjoint_take_drop ((nodup_finRange C.nslot).filter (futexWaits rt uaddr)) a.le_refl
  simp only [futexWake, heq, futexWaiters]
  generalize hwaiters : (finRange C.nslot).filter (futexWaits rt uaddr) = waiters at hdisj ⊢
  have hleft : (finRange C.nslot).filter (futexWaits ((waiters.take a).foldl (flip futexMark) rt)
      uaddr) = waiters.drop a := by
    rw [funext (futexMarks_waits uaddr _ rt), ← filter_filter, hwaiters]
    nth_rewrite 2 [← take_append_drop a waiters]
    rw [filter_append, filter_eq_nil_iff.mpr (by simp), filter_eq_self.mpr, nil_append]
    exact fun t ht => by simpa using fun hmem => hdisj hmem ht
  refine ⟨trivial, hleft, ?_⟩
  rw [hleft, take_add, reverse_append, foldl_append]

end Lxp
