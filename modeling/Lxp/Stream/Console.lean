import Lxp.Stream.Objects

/-!
# Console input

A byte typed at the console is taken by a read, by the retry of a parked read, or by the probe with
which a scan looks for signal characters, and which keeps the other bytes as typeahead.  What the
transport answers, whether input is ready and how many bytes it hands out, is an input of a step;
one that cannot be polled is always ready.
-/

open Function

namespace Lxp.Stream

inductive Fate where
  | delivered (ch : UInt8)
  | raised (pgrp : Int) (sig : Nat)
deriving DecidableEq

/-- A byte taken from the input, the settings in force then, and what became of it. -/
structure Taken where
  tty : Tty
  byte : UInt8
  fate : Fate

structure Console where
  tty : Tty := {}
  typeahead : Bytes := []
  input : Bytes := []
  -- The lengths of the parked reads, by task.
  waits : Nat → Option Nat := fun _ => none
  -- All that was typed, and what was taken of it.
  typed : Bytes := []
  taken : List Taken := []

/-! ## The three readers -/

def consoleInputXlate (tty : Tty) (ch : UInt8) : UInt8 :=
  if tty.termios.icrnl ∧ ch = 13 then 10 else ch

def consoleInputReady (c : Console) (ready : Bool) : Bool := !c.typeahead.isEmpty || ready

/-- Each byte read, with the byte stored for it.  A transfer of several bytes is not translated. -/
def consoleStored (tty : Tty) : Bytes → List (UInt8 × UInt8)
  | [b] => [(b, consoleInputXlate tty b)]
  | raw => raw.map fun b => (b, b)

def consoleRead (len got : Nat) (c : Console) : List (UInt8 × UInt8) × Console :=
  if len ≠ 0 ∧ c.typeahead ≠ [] then
    (consoleStored c.tty (c.typeahead.take 1), { c with typeahead := c.typeahead.drop 1 })
  else
    (consoleStored c.tty (c.input.take (min len got)),
      { c with input := c.input.drop (min len got) })

def Console.deliver (bytes : List (UInt8 × UInt8)) (c : Console) : Console :=
  { c with taken := c.taken ++ bytes.map fun b => ⟨c.tty, b.1, .delivered b.2⟩ }

def consoleSignalFg (b : UInt8) (sig : Nat) (c : Console) : Console :=
  { c with taken := c.taken ++ [⟨c.tty, b, .raised c.tty.fgPgrp sig⟩] }

def fopReadConsole (s len : Nat) (ready : Bool) (got : Nat) (c : Console) : Console :=
  if consoleInputReady c ready = false then { c with waits := update c.waits s (some len) }
  else
    let (bytes, c) := consoleRead len got c
    c.deliver bytes

def blockedRetryConsole (s : Nat) (ready : Bool) (got : Nat) (c : Console) : Console :=
  match c.waits s with
  | none => c
  | some len =>
    if consoleInputReady c ready = false then c
    else
      let (bytes, c) := consoleRead len got c
      let done : Console := { c with waits := update c.waits s none }
      match bytes with
      | [(b, ch)] =>
        match ttySignalFor c.tty ch with
        | some sig => consoleSignalFg b sig (if sig = sigtstp then c else done)
        | none => done.deliver bytes
      | bytes => done.deliver bytes

def consolePollInterrupts (room : Nat) (ready got : Bool) (c : Console) : Console :=
  if c.tty.termios.isig = false ∨ c.typeahead.length = room ∨ ready = false then c
  else
    match got, c.input with
    | true, b :: rest =>
      match ttySignalFor c.tty b with
      | some sig => consoleSignalFg b sig { c with input := rest }
      | none => { c with input := rest, typeahead := c.typeahead ++ [b] }
    | _, _ => c

inductive ConsoleOp where
  | typed (bytes : Bytes)
  | ioctl (tty : Tty)
  | read (s len : Nat) (ready : Bool) (got : Nat)
  | retry (s : Nat) (ready : Bool) (got : Nat)
  | probe (ready got : Bool)
  | interrupt (s : Nat)

def Console.step (room : Nat) (c : Console) : ConsoleOp → Console
  | .typed bytes => { c with input := c.input ++ bytes, typed := c.typed ++ bytes }
  | .ioctl tty => { c with tty := tty }
  | .read s len ready got => fopReadConsole s len ready got c
  | .retry s ready got => blockedRetryConsole s ready got c
  | .probe ready got => consolePollInterrupts room ready got c
  | .interrupt s => { c with waits := update c.waits s none }

def Console.run (room : Nat) (c : Console) (ops : List ConsoleOp) : Console :=
  ops.foldl (Console.step room) c

/-! ## What is expected of a byte -/

def Tty.fate (tty : Tty) (b : UInt8) : Fate :=
  match ttySignalFor tty b with
  | some sig => .raised tty.fgPgrp sig
  | none => .delivered (consoleInputXlate tty b)

def Taken.Right (e : Taken) : Prop := e.fate = e.tty.fate e.byte

def Taken.read (e : Taken) : Bool := e.fate matches .delivered _

/-- What was read and is still to be read is in the order of typing, and no byte is lost or
doubled. -/
def Console.Once (c : Console) : Prop :=
  ((c.taken.filter Taken.read).map Taken.byte ++ (c.typeahead ++ c.input)).Sublist c.typed ∧
    (c.taken.map Taken.byte ++ (c.typeahead ++ c.input)).Perm c.typed

def Console.Faithful (c : Console) : Prop := c.Once ∧ ∀ e ∈ c.taken, e.Right

/-! ## When the three readers agree -/

def Console.next (len got : Nat) (c : Console) : Bytes :=
  if len ≠ 0 ∧ c.typeahead ≠ [] then c.typeahead.take 1 else c.input.take (min len got)

/-- A read does not look for signal characters, and a retry only at a single byte, after
translation. -/
def Tty.Alike (tty : Tty) (retry : Bool) : Bytes → Prop
  | [b] => ttySignalFor tty b = if retry then ttySignalFor tty (consoleInputXlate tty b) else none
  | bytes => ∀ b ∈ bytes, ttySignalFor tty b = none ∧ consoleInputXlate tty b = b

def ConsoleOp.Fits (c : Console) : ConsoleOp → Prop
  | .read _ len ready got => consoleInputReady c ready → c.tty.Alike false (c.next len got)
  | .retry s ready got =>
    ∀ len ∈ c.waits s, consoleInputReady c ready → c.tty.Alike true (c.next len got)
  | _ => True

def AllFit (room : Nat) : Console → List ConsoleOp → Prop
  | _, [] => True
  | c, op :: ops => op.Fits c ∧ AllFit room (c.step room op) ops

theorem right_delivered (tty : Tty) (b ch : UInt8) : (⟨tty, b, .delivered ch⟩ : Taken).Right ↔
    ttySignalFor tty b = none ∧ consoleInputXlate tty b = ch := by
  unfold Taken.Right Tty.fate
  cases ttySignalFor tty b <;> simp [eq_comm]

theorem right_raised (tty : Tty) (b : UInt8) (sig : Nat) :
    (⟨tty, b, .raised tty.fgPgrp sig⟩ : Taken).Right ↔ ttySignalFor tty b = some sig := by
  unfold Taken.Right Tty.fate
  cases ttySignalFor tty b <;> simp [eq_comm]

section Steps

variable {c c' : Console} {fits : Prop} {l : List Taken} {raw : Bytes}

/-- What is taken between two consoles is right just when `fits` holds. -/
def Takes (c c' : Console) (fits : Prop) : Prop :=
  ∃ l, c'.taken = c.taken ++ l ∧ ((∀ e ∈ l, e.Right) ↔ fits) ∧ (c.Once → c'.Once)

theorem Takes.front (h : c'.taken = c.taken ++ l)
    (hqueue : l.map Taken.byte ++ (c'.typeahead ++ c'.input) = c.typeahead ++ c.input)
    (htyped : c'.typed = c.typed) (hfits : (∀ e ∈ l, e.Right) ↔ fits) : Takes c c' fits := by
  refine ⟨l, h, hfits, fun ⟨horder, honce⟩ => ?_⟩
  have hread : ((l.filter Taken.read).map Taken.byte).Sublist (l.map Taken.byte) :=
    List.filter_sublist.map _
  have hqueued := hread.append_right (c'.typeahead ++ c'.input)
  unfold Console.Once
  rw [h, htyped, List.filter_append, List.map_append, List.map_append, List.append_assoc,
    List.append_assoc, hqueue]
  rw [hqueue] at hqueued
  exact ⟨(hqueued.append_left _).trans horder, honce⟩

theorem Takes.nothing (h : c'.taken = c.taken)
    (hqueue : c'.typeahead ++ c'.input = c.typeahead ++ c.input) (htyped : c'.typed = c.typed)
    (hfits : fits) : Takes c c' fits :=
  .front (l := []) (by rw [h, List.append_nil]) hqueue htyped (by simp [hfits])

theorem consoleRead_eq (len got : Nat) (c : Console) : ∃ ta rest,
    consoleRead len got c = (consoleStored c.tty (c.next len got),
      { c with typeahead := ta, input := rest }) ∧
    c.next len got ++ (ta ++ rest) = c.typeahead ++ c.input := by
  unfold consoleRead Console.next
  split
  · exact ⟨_, _, rfl, by rw [← List.append_assoc, List.take_append_drop]⟩
  by_cases hlen : len = 0
  · simp [hlen]
  · have hta : c.typeahead = [] := by tauto
    simp [hta]

theorem Takes.deliver {ta rest : Bytes} (hqueue : raw ++ (ta ++ rest) = c.typeahead ++ c.input)
    (waits : Nat → Option Nat) (hfits : fits = c.tty.Alike false raw) :
    Takes c (({ c with typeahead := ta, input := rest, waits := waits } : Console).deliver
      (consoleStored c.tty raw)) fits := by
  refine .front rfl ?_ rfl ?_
  · refine Eq.trans (congrArg (· ++ _) ?_) hqueue
    unfold consoleStored
    split <;> simp [comp_def]
  · rw [hfits]
    unfold consoleStored Tty.Alike
    split <;> simp [right_delivered]

theorem fopReadConsole_takes (s len : Nat) (ready : Bool) (got : Nat) (c : Console) :
    Takes c (fopReadConsole s len ready got c) ((ConsoleOp.read s len ready got).Fits c) := by
  unfold fopReadConsole ConsoleOp.Fits
  split
  · rename_i hpark
    exact .nothing rfl rfl rfl (by simp [hpark])
  · rename_i hready
    obtain ⟨ta, rest, hread, hqueue⟩ := consoleRead_eq len got c
    rw [hread]
    exact .deliver hqueue c.waits (by simp [hready])

theorem blockedRetryConsole_takes (s : Nat) (ready : Bool) (got : Nat) (c : Console) :
    Takes c (blockedRetryConsole s ready got c) ((ConsoleOp.retry s ready got).Fits c) := by
  unfold blockedRetryConsole ConsoleOp.Fits
  split
  · rename_i hwait
    exact .nothing rfl rfl rfl (by simp [hwait])
  rename_i len hwait
  split
  · rename_i hidle
    exact .nothing rfl rfl rfl (by simp [hidle])
  rename_i hready
  obtain ⟨ta, rest, hread, hqueue⟩ := consoleRead_eq len got c
  rw [hread]
  simp only [hwait, Option.mem_some_iff, forall_eq', hready, true_implies]
  revert hqueue
  generalize c.next len got = raw
  intro hqueue
  match raw with
  | [] => exact .deliver hqueue _ rfl
  | _ :: _ :: _ => exact .deliver hqueue _ rfl
  | [b] =>
    dsimp only [consoleStored, Tty.Alike]
    cases hsig : ttySignalFor c.tty (consoleInputXlate c.tty b) with
    | none => exact .deliver hqueue _ rfl
    | some sig =>
      have hraised : (∀ e ∈ [(⟨c.tty, b, .raised c.tty.fgPgrp sig⟩ : Taken)], e.Right) ↔
          ttySignalFor c.tty b = some sig := by simp [right_raised]
      dsimp only
      split
      · exact .front rfl hqueue rfl hraised
      · exact .front rfl hqueue rfl hraised

theorem consolePollInterrupts_takes (room : Nat) (ready got : Bool) (c : Console) :
    Takes c (consolePollInterrupts room ready got c) True := by
  unfold consolePollInterrupts
  split
  · exact .nothing rfl rfl rfl trivial
  split
  · rename_i b rest hinput
    cases hsig : ttySignalFor c.tty b with
    | none => exact .nothing rfl (by simp [hinput]) rfl trivial
    | some sig =>
      refine ⟨_, rfl, by simp [right_raised, hsig], fun ⟨horder, honce⟩ => ?_⟩
      have hskip : (c.typeahead ++ rest).Sublist (c.typeahead ++ b :: rest) :=
        (List.sublist_cons_self b rest).append_left _
      rw [hinput] at horder honce
      simp only [Console.Once, consoleSignalFg, List.map_append, List.map_cons,
        List.map_nil, List.append_assoc, List.singleton_append]
      exact ⟨(hskip.append_left _).trans (by simpa [Taken.read] using horder),
        (List.perm_middle.symm.append_left _).trans honce⟩
  · exact .nothing rfl rfl rfl trivial

theorem Console.step_takes (room : Nat) (c : Console) (op : ConsoleOp) :
    Takes c (c.step room op) (op.Fits c) := by
  cases op with
  | typed bytes =>
    refine ⟨[], by simp [Console.step], by simp [ConsoleOp.Fits], fun ⟨horder, honce⟩ => ?_⟩
    simp only [Console.Once, Console.step, ← List.append_assoc] at horder honce ⊢
    exact ⟨horder.append_right bytes, honce.append_right bytes⟩
  | ioctl | interrupt => exact .nothing rfl rfl rfl trivial
  | read s len ready got => exact fopReadConsole_takes s len ready got c
  | retry s ready got => exact blockedRetryConsole_takes s ready got c
  | probe ready got => exact consolePollInterrupts_takes room ready got c

theorem Console.run_takes (room : Nat) (ops : List ConsoleOp) (c : Console) :
    Takes c (c.run room ops) (AllFit room c ops) := by
  induction ops generalizing c with
  | nil => exact .nothing rfl rfl rfl trivial
  | cons op ops ih =>
    obtain ⟨l, htaken, hright, honce⟩ := c.step_takes room op
    obtain ⟨l', htaken', hright', honce'⟩ := ih (c.step room op)
    refine ⟨l ++ l', ?_, ?_, honce' ∘ honce⟩
    · rw [← List.append_assoc, ← htaken]
      exact htaken'
    · rw [List.forall_mem_append, hright, hright']
      rfl

end Steps

/-- Whatever is typed and however reads, retries, probes and new settings come, each byte is treated
as expected just when the three readers agree on every transfer of the run. -/
theorem console_input_delivered_iff (room : Nat) (tty : Tty) (ops : List ConsoleOp) :
    (Console.run room { tty := tty } ops).Faithful ↔ AllFit room { tty := tty } ops := by
  obtain ⟨l, htaken, hright, honce⟩ := Console.run_takes room ops { tty := tty }
  unfold Console.Faithful
  rw [htaken, List.nil_append, hright]
  exact and_iff_right (honce ⟨.refl _, .refl _⟩)

/-- The interrupt character, typed before the read is made, is read like any other byte. -/
theorem console_read_interrupt : ¬(Console.run 64 {} [.typed [3], .read 0 1 true 1]).Faithful := by
  intro h
  have hright : Fate.delivered 3 = Tty.fate {} 3 := h.2 ⟨{}, 3, .delivered 3⟩ (.head _)
  exact absurd hright (by decide)

end Lxp.Stream
