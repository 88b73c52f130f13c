import Lxp.Stream.Fifo

/-!
# The line discipline of a terminal

What the two rings of a terminal stand for: queues of bytes that grow by one byte at a time.  On
that rest when an attempt would block and what `poll` says about it, that the master reads what the
slave wrote, and which input a slave in canonical mode reads as records.
-/

open Function RingBuffer ByteMemory List

namespace Lxp.Stream

variable {master : Bool}

/-! ## Rings by the byte -/

section Rings

variable {r : RingBuf UInt8}

theorem ringPutc_eq (h : r.Wf) (hs : 0 < r.space) (c : UInt8) : ringPutc r c = (r.write [c]).2 := by
  have hw := RingBuf.wpos_lt h
  unfold RingBuf.space at hs
  have h1 : min 1 r.space = 1 := by
    unfold RingBuf.space
    omega
  have h2 : min (r.cap - r.wpos) 1 = 1 := by omega
  unfold ringPutc RingBuf.write
  rw [if_pos (by omega)]
  simp only [length_singleton, h1, h2, splice]
  rw [set_eq_take_append_cons_drop, if_pos (show r.wpos < r.buf.length from hw)]
  simp

/-- Bytes that fit are appended to the queue. -/
theorem foldl_ringPutc (h : r.Wf) {bytes : Bytes} (hs : bytes.length ≤ r.space) :
    (bytes.foldl ringPutc r).Wf ∧ (bytes.foldl ringPutc r).contents = r.contents ++ bytes := by
  induction bytes generalizing r with
  | nil => exact ⟨h, (append_nil _).symm⟩
  | cons c bytes ih =>
    rw [length_cons] at hs
    have hput := ringPutc_eq h (by omega) c
    have hspace : (ringPutc r c).space = r.space - 1 := by
      rw [hput, RingBuf.space, RingBuf.write_cap h]
      show r.cap - (r.count + min 1 r.space) = r.space - 1
      unfold RingBuf.space at ⊢
      omega
    have hwf : (ringPutc r c).Wf := hput ▸ RingBuf.write_wf h [c]
    obtain ⟨hwf', hcontents⟩ := ih hwf (by omega)
    refine ⟨hwf', hcontents.trans ?_⟩
    rw [hput, RingBuf.write_snd h, RingBuf.write_fst, length_singleton,
      Nat.min_eq_left (by omega), append_assoc]
    rfl

end Rings

/-! ## When an attempt would block -/

def Termios.crnl (t : Termios) (c : UInt8) : UInt8 := if t.icrnl ∧ c = 13 then 10 else c

/-- What the master is to read for bytes of the slave. -/
def Termios.expand (t : Termios) (bytes : Bytes) : Bytes :=
  bytes.flatMap fun c => if t.opost ∧ t.onlcr ∧ c = 10 then [13, 10] else [c]

/-- The byte cannot be taken: what it would put into the ring does not fit. -/
def Pty.stuck (pt : Pty) (master : Bool) (c : UInt8) : Prop :=
  let t := pt.tty.termios
  if master then
    ttySignalFor pt.tty (t.crnl c) = none ∧
      if t.icanon then
        ¬(t.crnl c = t.verase ∨ t.crnl c = 8) ∧
          if t.crnl c = 10 then pt.m2s.space < pt.canon.length + 1
          else t.crnl c = t.veof ∧ pt.m2s.space < pt.canon.length
      else pt.m2s.space = 0
  else if t.opost ∧ t.onlcr ∧ c = 10 then pt.s2m.space < 2
  else pt.s2m.space = 0

def Pty.typed (pt : Pty) (c : UInt8) : Pty :=
  let t := pt.tty.termios
  if (ttySignalFor pt.tty c).isSome then pt
  else if !t.icanon then ({ pt with m2s := ringPutc pt.m2s c } : Pty).echo [c]
  else if c = t.verase ∨ c = 8 then
    if pt.canon ≠ [] then ({ pt with canon := pt.canon.dropLast } : Pty).echo [8, 32, 8] else pt
  else if c = 10 then
    ({ pt with m2s := (pt.canon ++ [10]).foldl ringPutc pt.m2s, canon := [] } : Pty).echo [13, 10]
  else if c = t.veof then
    { pt with
      m2s := pt.canon.foldl ringPutc pt.m2s, m2sEof := pt.m2sEof || pt.canon.isEmpty, canon := [] }
  else if pt.canon.length < ptyCanon then ({ pt with canon := pt.canon ++ [c] } : Pty).echo [c]
  else pt

theorem Termios.crnl_eq (t : Termios) (c : UInt8) :
    t.crnl c = if t.icrnl = true ∧ c = 13 then 10 else c := rfl

/-- Input is taken byte by byte, up to the first that is stuck. -/
theorem Pty.input_cons (pt : Pty) (consumed : Nat) (raised : List (Int × Nat)) (c : UInt8)
    (rest : Bytes) :
    (pt.stuck true c ∧ pt.input consumed raised (c :: rest) = (stopped consumed, pt, raised)) ∨
    (¬ pt.stuck true c ∧ ∃ raised', pt.input consumed raised (c :: rest) =
      (pt.typed (pt.tty.termios.crnl c)).input (consumed + 1) raised' rest) := by
  simp only [Pty.stuck, Pty.input, if_true, ← Termios.crnl_eq]
  cases hsig : ttySignalFor pt.tty (pt.tty.termios.crnl c) with
  | some sig =>
    rw [Pty.typed, hsig]
    exact .inr ⟨(fun h => by cases h.1), _, rfl⟩
  | none =>
    simp only [Pty.typed, hsig, true_and, Option.isSome_none]
    by_cases hcanon : pt.tty.termios.icanon = true
    · simp only [hcanon, Bool.not_true, Bool.false_eq_true, if_false]
      by_cases herase : pt.tty.termios.crnl c = pt.tty.termios.verase ∨ pt.tty.termios.crnl c = 8
      · simp only [herase, if_true, not_true_eq_false, false_and]
        refine .inr ⟨not_false, raised, ?_⟩
        split <;> rfl
      simp only [herase, not_false_eq_true, true_and]
      by_cases hnl : pt.tty.termios.crnl c = 10
      · simp only [eq_true hnl]
        by_cases hs : pt.m2s.space < pt.canon.length + 1
        · exact .inl ⟨hs, if_pos hs⟩
        · exact .inr ⟨hs, raised, if_neg hs⟩
      simp only [eq_false hnl]
      by_cases heof : pt.tty.termios.crnl c = pt.tty.termios.veof
      · simp only [eq_true heof, true_and]
        by_cases hs : pt.m2s.space < pt.canon.length
        · exact .inl ⟨hs, if_pos hs⟩
        · exact .inr ⟨hs, raised, if_neg hs⟩
      · simp only [eq_false heof, if_false, false_and]
        refine .inr ⟨not_false, raised, ?_⟩
        split <;> rfl
    · simp only [hcanon]
      by_cases hs : pt.m2s.space = 0
      · exact .inl ⟨hs, if_pos hs⟩
      · exact .inr ⟨hs, raised, if_neg hs⟩

theorem Pty.input_ok (pt : Pty) {consumed : Nat} (h : 0 < consumed) (raised : List (Int × Nat))
    (bytes : Bytes) : ∃ n, (pt.input consumed raised bytes).1 = .ok n := by
  induction bytes generalizing pt consumed raised with
  | nil => exact ⟨_, rfl⟩
  | cons c rest ih =>
    rcases pt.input_cons consumed raised c rest with ⟨-, heq⟩ | ⟨-, raised', heq⟩
    · rw [heq]
      exact ⟨consumed, if_neg (by omega)⟩
    · rw [heq]
      exact ih _ (Nat.succ_pos _) _

instance (pt : Pty) (master : Bool) (c : UInt8) : Decidable (pt.stuck master c) := by
  unfold Pty.stuck
  infer_instance

theorem Pty.output_cons (pt : Pty) (consumed : Nat) (c : UInt8) (rest : Bytes) :
    pt.output consumed (c :: rest) =
      if pt.stuck false c then (stopped consumed, pt)
      else Pty.output { pt with s2m := (pt.tty.termios.expand [c]).foldl ringPutc pt.s2m }
        (consumed + 1) rest := by
  simp only [Pty.output, Pty.stuck, Termios.expand, flatMap_singleton, Bool.false_eq_true, if_false]
  by_cases hnl : pt.tty.termios.opost = true ∧ pt.tty.termios.onlcr = true ∧ c = 10
  · simp only [if_pos hnl, foldl_cons, foldl_nil]
  · simp only [if_neg hnl, foldl_cons, foldl_nil]

theorem Pty.output_ok (pt : Pty) {consumed : Nat} (h : 0 < consumed) (bytes : Bytes) :
    ∃ n, (pt.output consumed bytes).1 = .ok n := by
  induction bytes generalizing pt consumed with
  | nil => exact ⟨_, rfl⟩
  | cons c rest ih =>
    rw [pt.output_cons]
    split
    · exact ⟨consumed, if_neg (by omega)⟩
    · exact ih _ (Nat.succ_pos _)

variable {pt : Pty}

theorem Pty.write_eagain_iff (hused : pt.used = true) (master : Bool) (c : UInt8)
    (rest : Bytes) : (pt.write master (c :: rest)).1 = .error .eagain ↔ pt.stuck master c := by
  unfold Pty.write
  simp only [hused, Bool.not_true, reduceCtorEq]
  cases master with
  | true =>
    rcases pt.input_cons 0 [] c rest with ⟨hstuck, heq⟩ | ⟨hstuck, raised', heq⟩
    · simp [heq, hstuck, stopped]
    · obtain ⟨n, hn⟩ := (pt.typed (pt.tty.termios.crnl c)).input_ok Nat.one_pos raised' rest
      simp [heq, hn, hstuck]
  | false =>
    simp only [Bool.false_eq_true, if_false, Pty.output_cons]
    split
    · next hstuck => simp [hstuck, stopped]
    · rename_i hstuck
      obtain ⟨n, hn⟩ := Pty.output_ok { pt with
        s2m := (pt.tty.termios.expand [c]).foldl ringPutc pt.s2m } Nat.one_pos rest
      simp [hn, hstuck]

/-! ## Polling -/

/-- What `poll` reports: readable, and writable. -/
def Pty.poll (pt : Pty) (master : Bool) : Bool × Bool :=
  if !pt.used then (false, false)
  else if master then
    (decide (0 < pt.s2m.count ∨ pt.slaves = 0), decide (0 < pt.m2s.space))
  else
    (decide (0 < pt.m2s.count ∨ pt.masters = 0 ∨ pt.m2sEof = true), decide (0 < pt.s2m.space))

theorem Pty.poll_read (hused : pt.used = true) (master : Bool) :
    (pt.poll master).1 = true ↔ (pt.read master 1).1 ≠ .error .eagain := by
  unfold Pty.poll Pty.read
  cases master with
  | true =>
    by_cases hcount : 0 < pt.s2m.count
    · simp [hused, hcount]
    · by_cases hgone : pt.slaves = 0 <;> simp [hused, hcount, hgone]
  | false =>
    by_cases hcount : 0 < pt.m2s.count
    · by_cases hcanon : pt.tty.termios.icanon = true <;> simp [hused, hcount, hcanon]
    · by_cases hgone : pt.masters = 0
      · simp [hused, hcount, hgone]
      · by_cases heof : pt.m2sEof = true <;> simp [hused, hcount, hgone, heof]

/-- A byte that is neither a signal nor an erase and that no mapping changes. -/
def Tty.plain (t : Tty) (c : UInt8) : Prop :=
  ¬(t.termios.icrnl = true ∧ c = 13) ∧ ttySignalFor t c = none ∧ c ≠ t.termios.verase ∧ c ≠ 8

/-- Room in the ring is room for any byte: the line that a newline or an end of file passes on fits
as well, and so does the expansion of a newline. -/
def Pty.roomy (pt : Pty) (master : Bool) : Prop :=
  let t := pt.tty.termios
  if master then
    t.icanon = true → 0 < pt.m2s.space →
      (pt.tty.plain 10 → pt.canon.length < pt.m2s.space) ∧
        (pt.tty.plain t.veof → pt.canon.length ≤ pt.m2s.space)
  else ¬(t.opost = true ∧ t.onlcr = true ∧ pt.s2m.space = 1)

theorem Termios.crnl_fixed {t : Termios} {c : UInt8} (h : ¬(t.icrnl = true ∧ c = 13)) :
    t.crnl c = c := if_neg h

theorem Termios.crnl_ne (t : Termios) (c : UInt8) : ¬(t.icrnl = true ∧ t.crnl c = 13) := by
  rintro ⟨hicrnl, heq⟩
  unfold Termios.crnl at heq
  split at heq
  · cases heq
  · next h => exact h ⟨hicrnl, heq⟩

theorem Pty.roomy_iff (pt : Pty) (master : Bool) : pt.roomy master ↔
      (0 < (if master then pt.m2s.space else pt.s2m.space) → ∀ c, ¬ pt.stuck master c) := by
  cases master with
  | true =>
    simp only [Pty.roomy, Pty.stuck, if_true]
    by_cases hcanon : pt.tty.termios.icanon = true
    · simp only [hcanon, if_true, true_imp_iff]
      constructor
      · rintro h hs c ⟨hsig, herase, hfull⟩
        have hplain : pt.tty.plain (pt.tty.termios.crnl c) :=
          ⟨Termios.crnl_ne _ c, hsig, fun he => herase (.inl he), fun he => herase (.inr he)⟩
        split at hfull
        · rename_i hnl
          have := (h hs).1 (hnl ▸ hplain)
          omega
        · have := (h hs).2 (hfull.1 ▸ hplain)
          omega
      · intro h hs
        have hline : pt.tty.plain 10 → pt.canon.length < pt.m2s.space := by
          rintro ⟨hmap, hsig, herase, hback⟩
          have := h hs 10
          rw [Termios.crnl_fixed hmap] at this
          simp only [hsig, herase, hback, true_and, or_self, if_true, not_false_eq_true] at this
          omega
        refine ⟨hline, fun heof => ?_⟩
        by_cases hnl : pt.tty.termios.veof = 10
        · exact Nat.le_of_lt (hline (hnl ▸ heof))
        obtain ⟨hmap, hsig, herase, hback⟩ := heof
        have := h hs pt.tty.termios.veof
        rw [Termios.crnl_fixed hmap] at this
        simp only [hsig, herase, hback, hnl, true_and, or_self, if_false, not_false_eq_true] at this
        omega
    · simp only [hcanon, Bool.false_eq_true, if_false, false_imp_iff, true_iff]
      exact fun hs c h => by omega
  | false =>
    simp only [Pty.stuck, Bool.false_eq_true, if_false]
    constructor
    · intro h hs c
      split
      · next hnl => exact fun hlt => h ⟨hnl.1, hnl.2.1, by omega⟩
      · omega
    · rintro h ⟨hopost, honlcr, hone⟩
      have := h (by omega) 10
      simp [hopost, honlcr, hone] at this

/-- `poll` tells what an attempt would answer exactly while room in the ring is room for any
byte. -/
theorem Pty.poll_attempt {pt : Pty} (hused : pt.used = true) (master : Bool) :
    (((pt.poll master).1 = true ↔ (pt.read master 1).1 ≠ .error .eagain) ∧
      ((pt.poll master).2 = true → ∀ c, (pt.write master [c]).1 ≠ .error .eagain)) ↔
    pt.roomy master := by
  have hout : (pt.poll master).2 = true ↔ 0 < (if master then pt.m2s.space else pt.s2m.space) := by
    cases master <;> simp [Pty.poll, hused]
  rw [pt.roomy_iff, hout]
  simp only [ne_eq, Pty.write_eagain_iff hused]
  exact and_iff_right (Pty.poll_read hused master)

/-- Two letters wait for their newline, and there is room for it. -/
def typedPty : Pty := (Pty.write { Pty.zero 4 with used := true } true [97, 98]).2.1

theorem poll_attempt_typed : typedPty.canon = [97, 98] ∧ (typedPty.poll true).2 = true ∧
    ((typedPty.poll true).1 = true ↔ (typedPty.read true 1).1 ≠ .error .eagain) ∧
    ∀ c, (typedPty.write true [c]).1 ≠ .error .eagain := by
  have hused : typedPty.used = true := rfl
  have hpoll := (Pty.poll_attempt hused true).mpr fun _ _ =>
    ⟨fun _ => by decide, fun _ => by decide⟩
  exact ⟨rfl, rfl, hpoll.1, hpoll.2 rfl⟩

/-- With four letters typed the master is reported writable, and a newline would block. -/
theorem poll_writable_newline_blocks : ∃ sent got x,
    StreamRuns smallStreams (fun _ _ => True) sent got x ∧ (x.ptys 0).used = true ∧
      ((x.ptys 0).poll true).2 = true ∧ ((x.ptys 0).write true [10]).1 = .error .eagain := by
  have hboot : StreamRuns smallStreams (fun _ _ => True) _ _ _ :=
    .boot (Mem.ofBytes UInt8.ofNat) (fun _ _ _ _ => true) () ()
  have hrun := ((hboot.step (.openMaster true false true true) trivial).step
    (.openSlave 0 true false true true) trivial).step (.write 0 0 97 4) trivial
  exact ⟨_, _, _, hrun, by decide +kernel, by decide +kernel, by decide +kernel⟩

/-! ## Output -/

def accepted : IoReply → Nat
  | .ok n => n
  | .error _ => 0

theorem accepted_stopped (consumed : Nat) : accepted (stopped consumed) = consumed := by
  unfold stopped
  split
  · next h => exact h.symm
  · rfl

theorem Pty.expand_fits {c : UInt8} (h : ¬ pt.stuck false c) :
    (pt.tty.termios.expand [c]).length ≤ pt.s2m.space := by
  simp only [Pty.stuck, Bool.false_eq_true, if_false] at h
  simp only [Termios.expand, flatMap_singleton]
  split at h
  · rename_i hnl
    rw [if_pos hnl]
    exact Nat.not_lt.mp h
  · rename_i hnl
    rw [if_neg hnl]
    exact Nat.pos_of_ne_zero h

theorem Termios.expand_append (t : Termios) (bytes bytes' : Bytes) :
    t.expand (bytes ++ bytes') = t.expand bytes ++ t.expand bytes' := flatMap_append

/-- The bytes a slave's write takes are appended expanded. -/
theorem Pty.output_spec (pt : Pty) (hwf : pt.s2m.Wf) (consumed : Nat) (bytes : Bytes) :
    ∃ n ring, accepted (pt.output consumed bytes).1 = consumed + n ∧
      (pt.output consumed bytes).2 = { pt with s2m := ring } ∧ RingBuf.Wf ring ∧
      ring.contents = pt.s2m.contents ++ pt.tty.termios.expand (bytes.take n) := by
  induction bytes generalizing pt consumed with
  | nil => exact ⟨0, pt.s2m, rfl, rfl, hwf, (append_nil _).symm⟩
  | cons c rest ih =>
    rw [pt.output_cons]
    split
    · exact ⟨0, pt.s2m, accepted_stopped consumed, rfl, hwf, (append_nil _).symm⟩
    rename_i hroom
    obtain ⟨hput, hcontents⟩ := foldl_ringPutc hwf (Pty.expand_fits hroom)
    obtain ⟨n, ring, hn, hpt, hring, heq⟩ := ih
      { pt with s2m := (pt.tty.termios.expand [c]).foldl ringPutc pt.s2m } hput (consumed + 1)
    refine ⟨n + 1, ring, by omega, hpt, hring, ?_⟩
    show _ = _ ++ pt.tty.termios.expand ([c] ++ rest.take n)
    rw [heq, hcontents, Termios.expand_append, append_assoc]

inductive PtyOp where
  | read (master : Bool) (len : Nat)
  | write (master : Bool) (bytes : Bytes)
  | setfl (master nb : Bool)
  | setPgrp (pgrp : Int)
  | setLock (locked : Bool)
  -- Other descriptions of its ends are opened and closed.
  | ends (masters slaves : Nat)

/-- The retry of a parked call makes the same attempt again. -/
def PtyOp.run : PtyOp → Pty → Pty
  | .read master len, pt => (pt.read master len).2
  | .write master bytes, pt => (pt.write master bytes).2.1
  | .setfl master nb, pt => pt.setfl master nb
  | .setPgrp pgrp, pt => { pt with tty := { pt.tty with fgPgrp := pgrp } }
  | .setLock locked, pt => { pt with locked := locked }
  | .ends masters slaves, pt => { pt with masters := masters, slaves := slaves }

/-- The bytes that the slave was told were written. -/
def PtyOp.sent : PtyOp → Pty → Bytes
  | .write false bytes, pt => bytes.take (accepted (pt.write false bytes).1)
  | _, _ => []

/-- The bytes that the master read. -/
def PtyOp.got : PtyOp → Pty → Bytes
  | .read true len, pt => ((pt.read true len).1.toOption).getD []
  | _, _ => []

def Pty.after (pt : Pty) (ops : List PtyOp) : Pty := ops.foldl (fun pt op => op.run pt) pt

/-- What the operations of a sequence contribute, each in the state it finds. -/
def gather {α : Type} (f : PtyOp → Pty → List α) : List PtyOp → Pty → List α
  | [], _ => []
  | op :: ops, pt => f op pt ++ gather f ops (op.run pt)

theorem Pty.echo_eq (pt : Pty) (bytes : Bytes) : pt.echo bytes = { pt with
    s2m := if pt.tty.termios.echo then bytes.foldl ringPutc pt.s2m else pt.s2m } := by
  unfold Pty.echo
  split <;> rfl

theorem Pty.typed_keeps (pt : Pty) (c : UInt8) :
    (pt.typed c).tty = pt.tty ∧ (pt.tty.termios.echo = false → (pt.typed c).s2m = pt.s2m) := by
  simp only [Pty.typed, Pty.echo_eq]
  split_ifs <;> simp_all

theorem Pty.input_quiet (pt : Pty) (h : pt.tty.termios.echo = false) (consumed : Nat)
    (raised : List (Int × Nat)) (bytes : Bytes) :
    (pt.input consumed raised bytes).2.1.s2m = pt.s2m ∧
      (pt.input consumed raised bytes).2.1.tty = pt.tty := by
  induction bytes generalizing pt consumed raised with
  | nil => exact ⟨rfl, rfl⟩
  | cons c rest ih =>
    rcases pt.input_cons consumed raised c rest with ⟨-, heq⟩ | ⟨-, raised', heq⟩
    · rw [heq]
      exact ⟨rfl, rfl⟩
    · obtain ⟨htty, hquiet⟩ := pt.typed_keeps (pt.tty.termios.crnl c)
      obtain ⟨hring, htty'⟩ := ih _ (htty ▸ h) (consumed + 1) raised'
      rw [heq]
      exact ⟨hring.trans (hquiet h), htty'.trans htty⟩

section Output

theorem Pty.read_output (hwf : pt.s2m.Wf) (len : Nat) :
    (pt.read true len).2.s2m.Wf ∧ (pt.read true len).2.tty = pt.tty ∧
      pt.s2m.contents = (PtyOp.read true len).got pt ++ (pt.read true len).2.s2m.contents := by
  show _ ∧ _ ∧ pt.s2m.contents = (pt.read true len).1.toOption.getD [] ++ _
  simp only [Pty.read, if_true]
  split_ifs
  · exact ⟨hwf, rfl, rfl⟩
  · exact ⟨hwf, rfl, rfl⟩
  · refine ⟨RingBuf.read_wf hwf len, rfl, ?_⟩
    show pt.s2m.contents = (pt.s2m.read len).1 ++ (pt.s2m.read len).2.contents
    rw [RingBuf.read_fst hwf, RingBuf.read_snd hwf, take_append_drop]
  · exact ⟨hwf, rfl, rfl⟩
  · exact ⟨hwf, rfl, rfl⟩

theorem Pty.read_slave_output (pt : Pty) (len : Nat) :
    (pt.read false len).2.s2m = pt.s2m ∧ (pt.read false len).2.tty = pt.tty := by
  unfold Pty.read
  simp only [Bool.false_eq_true, if_false]
  split_ifs <;> exact ⟨rfl, rfl⟩

theorem Pty.write_output (hwf : pt.s2m.Wf) (bytes : Bytes) :
    (pt.write false bytes).2.1.s2m.Wf ∧ (pt.write false bytes).2.1.tty = pt.tty ∧
      pt.s2m.contents ++ pt.tty.termios.expand ((PtyOp.write false bytes).sent pt) =
        (pt.write false bytes).2.1.s2m.contents := by
  show _ ∧ _ ∧ _ ++ pt.tty.termios.expand (bytes.take (accepted (pt.write false bytes).1)) = _
  simp only [Pty.write, Bool.false_eq_true, if_false]
  split_ifs
  · exact ⟨hwf, rfl, append_nil _⟩
  · exact ⟨hwf, rfl, append_nil _⟩
  · obtain ⟨n, ring, hn, hpt, hring, heq⟩ := pt.output_spec hwf 0 bytes
    rw [hpt, hn, Nat.zero_add]
    exact ⟨hring, rfl, heq.symm⟩

/-- One operation: what it sends is what it gets and what it leaves in the ring. -/
theorem PtyOp.output_step (op : PtyOp) (hwf : pt.s2m.Wf) (hecho : pt.tty.termios.echo = false) :
    (op.run pt).s2m.Wf ∧ (op.run pt).tty.termios = pt.tty.termios ∧
      pt.s2m.contents ++ pt.tty.termios.expand (op.sent pt) =
        op.got pt ++ (op.run pt).s2m.contents := by
  have hsame : ∀ {pt' : Pty}, pt'.s2m = pt.s2m → pt'.tty.termios = pt.tty.termios →
      pt'.s2m.Wf ∧ pt'.tty.termios = pt.tty.termios ∧
        pt.s2m.contents ++ pt.tty.termios.expand [] = [] ++ pt'.s2m.contents := by
    intro pt' hring hmodes
    rw [hring]
    exact ⟨hwf, hmodes, append_nil _⟩
  cases op with
  | read master len =>
    cases master with
    | true =>
      obtain ⟨hwf', htty, heq⟩ := Pty.read_output hwf len
      exact ⟨hwf', congrArg _ htty, (append_nil _).trans heq⟩
    | false => exact hsame (pt.read_slave_output len).1 (congrArg _ (pt.read_slave_output len).2)
  | write master bytes =>
    cases master with
    | true =>
      have hkeep : (pt.write true bytes).2.1.s2m = pt.s2m ∧
          (pt.write true bytes).2.1.tty = pt.tty := by
        simp only [Pty.write]
        split_ifs
        · exact ⟨rfl, rfl⟩
        · exact ⟨rfl, rfl⟩
        · exact pt.input_quiet hecho 0 [] bytes
      exact hsame hkeep.1 (congrArg _ hkeep.2)
    | false =>
      obtain ⟨hwf', htty, heq⟩ := Pty.write_output hwf bytes
      exact ⟨hwf', congrArg _ htty, heq⟩
  | setfl master nb =>
    refine hsame ?_ ?_ <;>
    · simp only [PtyOp.run, Pty.setfl]
      split_ifs <;> rfl
  | _ => exact hsame rfl rfl

/-- With echo off the master reads the slave's bytes, newlines expanded, in order; what it has not
read yet is in the ring. -/
theorem Pty.output_in_order (hwf : pt.s2m.Wf) (hecho : pt.tty.termios.echo = false)
    (ops : List PtyOp) : gather PtyOp.got ops pt <+:
        pt.s2m.contents ++ pt.tty.termios.expand (gather PtyOp.sent ops pt) ∧
      pt.s2m.contents ++ pt.tty.termios.expand (gather PtyOp.sent ops pt) =
        gather PtyOp.got ops pt ++ (pt.after ops).s2m.contents := by
  suffices heq : pt.s2m.contents ++ pt.tty.termios.expand (gather PtyOp.sent ops pt) =
      gather PtyOp.got ops pt ++ (pt.after ops).s2m.contents from ⟨⟨_, heq.symm⟩, heq⟩
  induction ops generalizing pt with
  | nil => exact append_nil _
  | cons op ops ih =>
    obtain ⟨hwf', hmodes, hstep⟩ := op.output_step hwf hecho
    have hrest := ih hwf' (hmodes ▸ hecho)
    rw [hmodes] at hrest
    show _ ++ pt.tty.termios.expand (op.sent pt ++ _) = (op.got pt ++ _) ++ _
    rw [Termios.expand_append, ← append_assoc, hstep, append_assoc, hrest, append_assoc]
    rfl

end Output

/-- Three bytes in a ring of three: the newline takes two places, and the third byte waits. -/
theorem Pty.output_in_order_partial : let modes : Tty := { termios := { echo := false } }
    let pt : Pty := { Pty.zero 3 with tty := modes, used := true, slaves := 1, masters := 1 }
    let ops : List PtyOp :=
      [.write false [97, 10, 98], .read true 2, .write false [98], .read true 9]
    gather PtyOp.sent ops pt = [97, 10, 98] ∧ gather PtyOp.got ops pt = [97, 13, 10, 98] ∧
      gather PtyOp.got ops pt <+: [] ++ modes.termios.expand (gather PtyOp.sent ops pt) :=
  ⟨by decide +kernel, by decide +kernel,
    (Pty.output_in_order (RingBuf.wf_empty (by decide)) rfl _).1⟩

/-! ## The other end is closed -/

section Hangup

variable {K : StreamConfig} {x : Streams K}

/-- How many descriptions of the other end are open. -/
def Pty.peers (pt : Pty) (master : Bool) : Nat := if master then pt.slaves else pt.masters

/-- The end, the direction, the terminal and the buffer of a call, or of the retry of one. -/
def StreamOp.ptyCall (x : Streams K) : StreamOp K → Option (Bool × Bool × Fin K.npty × Nat × Nat)
  | .read _ d buf len =>
    (x.ofds d).bind fun o =>
      match o.slot with
      | .pty i => some (o.rw, false, i, buf, len)
      | _ => none
  | .write _ d buf len =>
    (x.ofds d).bind fun o =>
      match o.slot with
      | .pty i => some (o.rw, true, i, buf, len)
      | _ => none
  | .retry s _ _ =>
    match (x.wait s).map Parked.call with
    | some (.pty master w i buf len) => some (master, w, i, buf, len)
    | _ => none
  | _ => none

/-- Nothing but the state of the terminal keeps the call from parking. -/
def StreamOp.mayPark (x : Streams K) : StreamOp K → Bool
  | .read s d buf len =>
    x.access s buf len true && (x.wait s).isNone && !x.exiting s &&
      (x.ofds d).any fun o => o.reads &&
        match o.slot with
        | .pty i => !(x.ptys i).nonblock o.rw
        | _ => true
  | .write s d buf len =>
    x.access s buf len false && (x.wait s).isNone && !x.exiting s &&
      (x.ofds d).any fun o => o.writes &&
        match o.slot with
        | .pty i => !(x.ptys i).nonblock o.rw
        | _ => true
  | _ => true

variable {i : Fin K.npty} {buf len : Nat}

theorem ptyRead_eagain (hgone : (x.ptys i).peers master = 0) :
    (ptyRead i master buf len x).1 ≠ .error .eagain := by
  have hread : ((x.ptys i).read master len).1 ≠ .error .eagain := by
    unfold Pty.peers at hgone
    unfold Pty.read
    cases master <;> split_ifs <;> simp_all
  unfold ptyRead
  cases hr : ((x.ptys i).read master len).1 with
  | error e => simpa [hr] using hread
  | ok bytes => simp [hr]

theorem ptyWrite_eagain : (ptyWrite i master buf len x).1 = .error .eagain ↔
      (x.ptys i).used = true ∧ 0 < len ∧ (x.ptys i).stuck master (x.mem.bytes buf) := by
  show ((x.ptys i).write master (bytesFrom x.mem.bytes buf len)).1 = _ ↔ _
  cases hused : (x.ptys i).used with
  | false => simp [Pty.write, hused]
  | true =>
    cases len with
    | zero => simp [Pty.write, hused, bytesFrom]
    | succ len =>
      rw [Nat.add_comm, bytesFrom_add]
      show ((x.ptys i).write master (x.mem.bytes buf :: _)).1 = _ ↔ _
      rw [Pty.write_eagain_iff hused]
      simp

theorem Pty.write_stuck (hused : pt.used = true) {c : UInt8} (h : pt.stuck master c)
    (rest : Bytes) : pt.write master (c :: rest) = (.error .eagain, pt, []) := by
  unfold Pty.write
  simp only [hused]
  cases master with
  | true =>
    rcases pt.input_cons 0 [] c rest with ⟨-, heq⟩ | ⟨hroom, -⟩
    · exact heq
    · exact absurd h hroom
  | false =>
    rw [Pty.output_cons, if_pos h]
    rfl

theorem ptyWrite_again (h : (ptyWrite i master buf len x).1 = .error .eagain) :
    (ptyWrite i master buf len x).2 = x := by
  obtain ⟨hused, hlen, hstuck⟩ := ptyWrite_eagain.mp h
  obtain ⟨n, rfl⟩ := Nat.exists_eq_succ_of_ne_zero hlen.ne'
  have hwrite : (x.ptys i).write master (bytesFrom x.mem.bytes buf (n + 1)) =
      (.error .eagain, x.ptys i, []) := by
    rw [Nat.add_comm, bytesFrom_add]
    exact Pty.write_stuck hused hstuck _
  simp only [ptyWrite, hwrite, setPty, update_eq_self, append_nil]

theorem parkOn_parked {again : Streams K → IoResult × Streams K} {a : IoReply × Streams K} :
    (parkOn again a).1 = .parked ↔ a.1 = .error .eagain ∧ (again a.2).1 = .parked := by
  obtain ⟨r, x⟩ := a
  by_cases hr : r = .error .eagain
  · subst hr
    simp [parkOn]
  refine iff_of_false ?_ fun h => hr h.1
  unfold parkOn
  split
  · rename_i heq
    cases heq
    exact absurd rfl hr
  · exact fun h => by cases h

theorem waitPark_parked (s : K.Task) (call : IoWait K) (x : Streams K) :
    (waitPark s call x).1 = .parked ↔ x.wait s = none ∧ x.exiting s = false := by
  unfold waitPark
  cases hw : x.wait s <;> cases he : x.exiting s <;> simp [fails]

theorem retry_parked {s : K.Task} {w : Parked K} (room : Bool) (mapped : IoReply)
    (hw : x.wait s = some w)
    (hmmap : ∀ phys len attrs i, w.call ≠ .device (.mmap phys len attrs) i) :
    (retry s room mapped x).1 = .parked ↔ (attempt s room w.call x).1 = .error .eagain := by
  rw [retry_eq room mapped hw hmmap]
  split
  · next heq => simp [heq]
  · rename_i hne heq
    rw [heq]
    exact iff_of_false nofun hne

/-- With the other end closed a read completes; a write parks exactly when its first byte is stuck,
and no one will make room. -/
theorem hangup_parks {op : StreamOp K} {master w : Bool} {i : Fin K.npty} {buf len : Nat}
    (hcall : op.ptyCall x = some (master, w, i, buf, len)) (hgone : (x.ptys i).peers master = 0) :
    (op.run x).1 ≠ .parked ↔ ¬(op.mayPark x = true ∧ w = true ∧ (x.ptys i).used = true ∧ 0 < len ∧
        (x.ptys i).stuck master (x.mem.bytes buf)) := by
  rw [not_iff_not]
  cases op with
  | read s d b n =>
    simp only [StreamOp.ptyCall, Option.bind_eq_some_iff] at hcall
    obtain ⟨o, hd, ho⟩ := hcall
    split at ho
    · rename_i hslot
      cases ho
      refine iff_of_false (fun hparked => ?_) (by simp)
      simp only [StreamOp.run, sysRead, hd, hslot] at hparked
      split_ifs at hparked
      · cases hparked
      · cases hparked
      · exact ptyRead_eagain hgone (parkOn_parked.mp hparked).1
    · cases ho
  | write s d b n =>
    simp only [StreamOp.ptyCall, Option.bind_eq_some_iff] at hcall
    obtain ⟨o, hd, ho⟩ := hcall
    split at ho
    · rename_i hslot
      cases ho
      have hparks : (fopWritePty s o i buf len x).1 = .parked ↔
          (ptyWrite i o.rw buf len x).1 = .error .eagain ∧ (x.ptys i).nonblock o.rw = false ∧
            x.wait s = none ∧ x.exiting s = false := by
        refine parkOn_parked.trans (and_congr_right fun hagain => ?_)
        rw [ptyWrite_again hagain]
        cases (x.ptys i).nonblock o.rw with
        | true => simp [fails]
        | false => simpa using waitPark_parked s _ x
      simp only [StreamOp.run, sysWrite, StreamOp.mayPark, hd, hslot, Option.any_some]
      cases haccess : x.access s buf len false <;> cases hwrites : o.writes <;>
        simp [fails, hparks, ptyWrite_eagain]
      tauto
    · cases ho
  | retry s room mapped =>
    simp only [StreamOp.ptyCall] at hcall
    split at hcall
    · rename_i heq
      cases hcall
      obtain ⟨p, hp, hwait⟩ := Option.map_eq_some_iff.mp heq
      rw [StreamOp.run, retry_parked room mapped hp (by simp [hwait]), hwait]
      cases w with
      | true => simpa [StreamOp.mayPark, attempt] using ptyWrite_eagain
      | false => exact iff_of_false (ptyRead_eagain hgone) (by simp)
    · cases hcall
  | _ => cases hcall

end Hangup

/-- The slave is opened and closed again. -/
theorem hungUp : ∃ sent got x, StreamRuns smallStreams (fun _ _ => True) sent got x ∧
    (x.ptys 0).used = true ∧ (x.ptys 0).peers true = 0 ∧
      (StreamOp.read 0 0 0 1).ptyCall x = some (true, false, 0, 0, 1) ∧
      (StreamOp.write 0 0 10 1).ptyCall x = some (true, true, 0, 10, 1) ∧
      ((StreamOp.write 0 0 10 1).run x).1 = .parked := by
  have hboot : StreamRuns smallStreams (fun _ _ => True) _ _ _ :=
    .boot (Mem.ofBytes UInt8.ofNat) (fun _ _ _ _ => true) () ()
  have hrun := (((hboot.step (.openMaster true false true true) trivial).step
    (.openSlave 0 true false true true) trivial).step (.close 1) trivial).step
    (.write 0 0 97 4) trivial
  exact ⟨_, _, _, hrun, by decide +kernel, by decide +kernel, rfl, rfl, by decide +kernel⟩

theorem hangup_parks_read : ∃ sent got x,
    StreamRuns smallStreams (fun _ _ => True) sent got x ∧ (x.ptys 0).peers true = 0 ∧
      ((StreamOp.read 0 0 0 1).run x).1 ≠ .parked := by
  obtain ⟨sent, got, x, hrun, -, hgone, hread, -⟩ := hungUp
  exact ⟨sent, got, x, hrun, hgone, (hangup_parks hread hgone).mpr (by simp)⟩

/-- The slave is gone and four letters are typed: the newline after them parks the writer. -/
theorem hangup_write_parks : ∃ sent got x,
    StreamRuns smallStreams (fun _ _ => True) sent got x ∧ (x.ptys 0).used = true ∧
      (x.ptys 0).peers true = 0 ∧
      (StreamOp.write 0 0 10 1).ptyCall x = some (true, true, 0, 10, 1) ∧
      ((StreamOp.write 0 0 10 1).run x).1 = .parked := by
  obtain ⟨sent, got, x, hrun, hused, hgone, -, hwrite, hparked⟩ := hungUp
  exact ⟨sent, got, x, hrun, hused, hgone, hwrite, hparked⟩

end Lxp.Stream
