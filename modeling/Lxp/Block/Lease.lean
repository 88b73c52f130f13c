import Lxp.Lib.RefPool
import Lxp.Stream.Objects

/-!
# The lease of the block device

The raw disk and its four partitions are five device nodes over one provider, and their opens share
its lease: readers, or one writer.  Whether a node is present and what the provider answers are
inputs; other devices hold slots of the same pool of open devices.
-/

open Function RefPool
open Lxp.Stream (IoReply errnoFromErr)

namespace Lxp.Block

inductive Call where
  | opened (write : Bool)
  | closed (write : Bool)

structure Disk (N : Nat) where
  openCount : Fin 5 → Nat := fun _ => 0
  -- The node of an open device, and whether its lease is a writer's.
  opens : Fin N → Option (Fin 5 × Bool) := fun _ => none
  readers : Nat := 0
  writer : Bool := false
  -- The leases the provider has granted and got back, newest first.
  calls : List Call := []

variable {N : Nat} {x y : Disk N} {d : Fin 5} {write present : Bool} {answer : Option Stream.LxpErr}

def countOpen (d : Fin 5) (x : Disk N) : Disk N :=
  { x with openCount := update x.openCount d (x.openCount d + 1) }

/-- Only a full success writes the lease of the instance. -/
def blockOpen (d : Fin 5) (write present : Bool) (answer : Option Stream.LxpErr) (x : Disk N) :
    IoReply × Bool × Disk N :=
  if present = false then (.error .enodev, false, x)
  else if x.openCount d = 255 then (.error .emfile, false, x)
  else if write then
    if x.writer = true ∨ x.readers ≠ 0 then (.error .ebusy, false, x)
    else
      match answer with
      | some e => (errnoFromErr e, false, x)
      | none =>
        (.ok 0, true, countOpen d { x with writer := true, calls := .opened true :: x.calls })
  else if x.writer = true ∨ x.readers = 255 then (.error .ebusy, false, x)
  else if x.readers = 0 then
    match answer with
    | some e => (errnoFromErr e, false, x)
    | none => (.ok 0, false, countOpen d { x with readers := 1, calls := .opened false :: x.calls })
  else (.ok 0, false, countOpen d { x with readers := x.readers + 1 })

def devOpenNew (busy : Fin N → Bool) (d : Fin 5) (write present : Bool)
    (answer : Option Stream.LxpErr) (x : Disk N) : IoReply × Disk N :=
  match (List.finRange N).find? fun oi => (x.opens oi).isNone && !busy oi with
  | none => (.error .emfile, x)
  | some oi =>
    match blockOpen d write present answer x with
    | (.error e, _, x) => (.error e, x)
    | (.ok _, lease, x) => (.ok oi, { x with opens := update x.opens oi (some (d, lease)) })

def blockRelease (d : Fin 5) (write : Bool) (x : Disk N) : Disk N :=
  let x := { x with openCount := update x.openCount d (x.openCount d - 1) }
  if write then
    if x.writer then { x with writer := false, calls := .closed true :: x.calls } else x
  else if x.readers = 0 then x
  else { x with
    readers := x.readers - 1
    calls := if x.readers = 1 then .closed false :: x.calls else x.calls }

def devClose (oi : Fin N) (x : Disk N) : Disk N :=
  match x.opens oi with
  | none => x
  | some (d, write) => { blockRelease d write x with opens := update x.opens oi none }

inductive Op (N : Nat) where
  | openNew (busy : Fin N → Bool) (d : Fin 5) (write present : Bool) (answer : Option Stream.LxpErr)
  | close (oi : Fin N)

def Op.run (x : Disk N) : Op N → Disk N
  | .openNew busy d write present answer => (devOpenNew busy d write present answer x).2
  | .close oi => devClose oi x

/-- A refused lease is not reported as the end of a file: that error is answered as success. -/
def Op.Answered : Op N → Prop
  | .openNew _ _ _ _ answer => answer ≠ some .eof
  | .close _ => True

/-! ## What the provider sees -/

/-- The lease the provider has granted and not got back, if its calls are balanced. -/
def held : List Call → Option (Option Bool)
  | [] => some none
  | .opened write :: calls => if held calls = some none then some (some write) else none
  | .closed write :: calls => if held calls = some (some write) then some none else none

def Disk.nodes (x : Disk N) : Fin N → Option (Fin 5) := Option.map Prod.fst ∘ x.opens
def Disk.leases (x : Disk N) : Fin N → Option Bool := Option.map Prod.snd ∘ x.opens

/-- The provider's lease is the one its open instances need, and every instance is counted. -/
structure Balanced (x : Disk N) : Prop where
  calls : held x.calls = some (if holders x.leases true ≠ 0 then some true
    else if holders x.leases false ≠ 0 then some false else none)
  single : holders x.leases true ≤ 1
  apart : holders x.leases true ≠ 0 → holders x.leases false = 0
  count : ∀ d, x.openCount d = holders x.nodes d

/-! ## Counters -/

def Disk.lease (x : Disk N) (write : Bool) : Nat := if write then x.writer.toNat else x.readers

/-- The counters agree with what the provider has been told. -/
structure Exclusive (x : Disk N) : Prop where
  apart : x.writer = true → x.readers = 0
  held : held x.calls =
    some (if x.writer then some true else if x.readers = 0 then none else some false)

-- `y` counts one instance more than `x`.
structure CountsMore (d : Fin 5) (write : Bool) (x y : Disk N) : Prop where
  opens : y.opens = x.opens
  node : ∀ e, y.openCount e = x.openCount e + if d = e then 1 else 0
  lease : ∀ w, y.lease w = x.lease w + if write = w then 1 else 0

structure Leased (x : Disk N) : Prop extends Exclusive x where
  node : ∀ d, x.openCount d = holders x.nodes d
  lease : ∀ w, x.lease w = holders x.leases w

theorem Leased.balanced (h : Leased x) : Balanced x := by
  have hwriters := h.lease true
  have hreaders := h.lease false
  have happart := h.apart
  have hheld := h.held
  simp only [Disk.lease] at hwriters hreaders
  refine ⟨?_, ?_, ?_, h.node⟩
  · rw [hheld, ← hwriters, ← hreaders]
    cases x.writer <;> simp
  · rw [← hwriters]
    exact Bool.toNat_le _
  · cases hw : x.writer <;> simp_all

theorem errnoFromErr_error {e : Stream.LxpErr} (he : e ≠ .eof) :
    ∃ c, errnoFromErr e = .error c := by
  cases e <;> simp [errnoFromErr] at he ⊢

theorem countOpen_node (x : Disk N) (e : Fin 5) :
    (countOpen d x).openCount e = x.openCount e + if d = e then 1 else 0 := by
  rcases eq_or_ne d e with rfl | he
  · simp [countOpen]
  · simp [countOpen, he, he.symm]

theorem blockOpen_spec (h : Exclusive x) (d : Fin 5) (write present : Bool)
    (ha : answer ≠ some .eof) :
    (∃ e, blockOpen d write present answer x = (.error e, false, x)) ∨
    ∃ y, blockOpen d write present answer x = (.ok 0, write, y) ∧ CountsMore d write x y ∧
      Exclusive y := by
  obtain ⟨-, hheld⟩ := h
  have hrefused : ∀ e, answer = some e →
      ∃ c, (errnoFromErr e, false, x) = (.error c, false, x) := by
    rintro e rfl
    obtain ⟨c, hc⟩ := errnoFromErr_error (fun he => ha (he ▸ rfl))
    exact ⟨c, by rw [hc]⟩
  unfold blockOpen
  split
  · exact .inl ⟨_, rfl⟩
  split
  · exact .inl ⟨_, rfl⟩
  cases write with
  | true =>
    rw [if_pos rfl]
    split
    · exact .inl ⟨_, rfl⟩
    next hfree =>
      simp only [not_or, not_not] at hfree
      cases answer with
      | some e => exact .inl (hrefused e rfl)
      | none =>
        refine .inr ⟨_, rfl, ⟨rfl, countOpen_node _, fun w => ?_⟩, fun _ => hfree.2, ?_⟩
        · cases w <;> simp [Disk.lease, countOpen, hfree]
        · simp [held, countOpen, hheld, hfree]
  | false =>
    rw [if_neg (by decide)]
    split
    · exact .inl ⟨_, rfl⟩
    next hfree =>
      simp only [not_or] at hfree
      split
      next hreaders =>
        cases answer with
        | some e => exact .inl (hrefused e rfl)
        | none =>
          refine .inr ⟨_, rfl, ⟨rfl, countOpen_node _, fun w => ?_⟩, ?_, ?_⟩
          · cases w <;> simp [Disk.lease, countOpen, hreaders]
          · simp [countOpen, hfree]
          · simp [held, countOpen, hheld, hfree, hreaders]
      next hreaders =>
        refine .inr ⟨_, rfl, ⟨rfl, countOpen_node _, fun w => ?_⟩, ?_, ?_⟩
        · cases w <;> simp [Disk.lease, countOpen]
        · simp [countOpen, hfree]
        · simp [countOpen, hheld, hreaders]

theorem blockRelease_spec (h : Exclusive x) (hd : 0 < x.openCount d) (hw : 0 < x.lease write) :
    CountsMore d write (blockRelease d write x) x ∧ Exclusive (blockRelease d write x) := by
  obtain ⟨happart, hheld⟩ := h
  have hnode : ∀ e, x.openCount e =
      update x.openCount d (x.openCount d - 1) e + if d = e then 1 else 0 := by
    intro e
    rcases eq_or_ne d e with rfl | he
    · simp
      omega
    · simp [he, he.symm]
  unfold blockRelease
  cases write with
  | true =>
    have hwriter : x.writer = true := by
      by_contra hno
      simp [Disk.lease, Bool.eq_false_of_not_eq_true hno] at hw
    rw [if_pos rfl, if_pos hwriter]
    refine ⟨⟨rfl, hnode, fun w => ?_⟩, nofun, ?_⟩
    · cases w <;> simp [Disk.lease, hwriter]
    · simp [held, hheld, hwriter, happart]
  | false =>
    have hreaders : 0 < x.readers := by simpa [Disk.lease] using hw
    have hwriter : x.writer = false := by
      by_contra hwriter
      have := happart (by simpa using hwriter)
      omega
    rw [if_neg (by decide), if_neg hreaders.ne']
    refine ⟨⟨rfl, hnode, fun w => ?_⟩, ?_, ?_⟩
    · cases w <;> simp [Disk.lease]
      omega
    · simp [hwriter]
    · by_cases hone : x.readers = 1
      · simp [held, hheld, hwriter, hone]
      · simp [hheld, hone, hreaders.ne', show x.readers - 1 ≠ 0 by omega]

theorem devOpenNew_leased (h : Leased x) (busy : Fin N → Bool) (ha : answer ≠ some .eof) :
    Leased (devOpenNew busy d write present answer x).2 := by
  unfold devOpenNew
  split
  · exact h
  next oi hfind =>
    have hfree : x.opens oi = none := by
      have hfound := List.find?_some hfind
      simp_all
    have hnode : x.nodes oi = none := congrArg (Option.map Prod.fst) hfree
    have hlease : x.leases oi = none := congrArg (Option.map Prod.snd) hfree
    rcases blockOpen_spec h.toExclusive d write present ha with
      ⟨e, hopen⟩ | ⟨y, hopen, hmore, hexcl⟩
    · rw [hopen]
      exact h
    rw [hopen]
    refine ⟨⟨hexcl.apart, hexcl.held⟩, fun e => ?_, fun w => ?_⟩
    · rw [Disk.nodes, comp_update, hmore.opens]
      refine Eq.trans ?_ (holders_update_some hnode d e).symm
      rw [← h.node]
      exact hmore.node e
    · rw [Disk.leases, comp_update, hmore.opens]
      refine Eq.trans ?_ (holders_update_some hlease write w).symm
      rw [← h.lease]
      exact hmore.lease w

theorem devClose_leased (h : Leased x) (oi : Fin N) : Leased (devClose oi x) := by
  unfold devClose
  split
  · exact h
  next d write hopen =>
    have hnode : x.nodes oi = some d := congrArg (Option.map Prod.fst) hopen
    have hlease : x.leases oi = some write := congrArg (Option.map Prod.snd) hopen
    obtain ⟨hmore, hexcl⟩ := blockRelease_spec h.toExclusive (h.node d ▸ holders_pos hnode)
      (h.lease write ▸ holders_pos hlease)
    refine ⟨⟨hexcl.apart, hexcl.held⟩, fun e => ?_, fun w => ?_⟩
    · have hcount := holders_update_none hnode e
      rw [← h.node, hmore.node] at hcount
      rw [Disk.nodes, comp_update]
      exact (Nat.add_right_cancel hcount).symm
    · have hcount := holders_update_none hlease w
      rw [← h.lease, hmore.lease] at hcount
      rw [Disk.leases, comp_update]
      exact (Nat.add_right_cancel hcount).symm

theorem Op.run_leased (op : Op N) (h : Leased x) (ha : op.Answered) : Leased (op.run x) := by
  cases op with
  | openNew busy d write present answer => exact devOpenNew_leased h busy ha
  | close oi => exact devClose_leased h oi

theorem empty_leased : Leased ({} : Disk N) := by
  refine ⟨⟨nofun, rfl⟩, fun d => ?_, fun w => ?_⟩
  · simp [holders, Disk.nodes]
  · cases w <;> simp [holders, Disk.lease, Disk.leases]

/-- Opens and closes, failed or not, keep the provider's lease balanced. -/
theorem leases_balanced (ops : List (Op N)) (h : ∀ op ∈ ops, op.Answered) :
    Balanced (ops.foldl Op.run {}) :=
  (List.foldlRecOn ops Op.run empty_leased fun _ hx op hop => op.run_leased hx (h op hop)).balanced

theorem leases_balanced_handover : Balanced (([.openNew (fun _ => false) 1 false true none,
      .openNew (fun _ => false) 0 true true none, .close 0,
      .openNew (fun _ => false) 0 true true none] : List (Op 2)).foldl Op.run {}) :=
  leases_balanced _ (by simp [Op.Answered])

/-- The first open is answered as success without a lease, and its close takes the second's. -/
def refusedOpen : Disk 2 :=
  [.openNew (fun _ => false) 0 false true (some .eof), .openNew (fun _ => false) 0 false true none,
    .close 0].foldl Op.run {}

theorem refusedOpen_uncounted : refusedOpen.openCount 0 ≠ holders refusedOpen.nodes 0 := by
  decide +kernel

end Lxp.Block
