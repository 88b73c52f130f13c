import Lxp.Stream.Terminal

/-!
# Canonical input as records

A slave in canonical mode should read a queue of records: a line with its newline, or what was typed
before an end of file, which is empty when nothing was.  The source keeps the bytes of all records
in one ring and one flag for an end of file, so that records stay apart only under conditions on
what is queued when one is passed on.
-/

open RingBuffer List

namespace Lxp.Stream

variable {bytes : Bytes}

/-! ## Records of a byte queue -/

/-- The queue cut after each newline. -/
def lines : Bytes → List Bytes
  | [] => []
  | c :: cs =>
    if c = 10 then [c] :: lines cs
    else
      match lines cs with
      | [] => [[c]]
      | l :: ls => (c :: l) :: ls

/-- Nothing stands after the last newline. -/
def Ended (bytes : Bytes) : Prop := ∀ c ∈ bytes.getLast?, c = 10

theorem lines_ne_nil : [] ∉ lines bytes := by
  induction bytes with
  | nil => exact not_mem_nil
  | cons c cs ih =>
    unfold lines
    split
    · simpa using ih
    split
    · simp
    · rename_i heq
      rw [heq] at ih
      simp only [mem_cons, not_or] at ih ⊢
      exact ⟨cons_ne_nil _ _ ∘ Eq.symm, ih.2⟩

theorem lines_eq_nil : lines bytes = [] ↔ bytes = [] := by
  cases bytes with
  | nil => simp [lines]
  | cons c cs =>
    unfold lines
    split
    · simp
    · split <;> simp

theorem Ended.of_cons {c : UInt8} {cs : Bytes} (h : Ended (c :: cs)) : Ended cs := by
  cases cs with
  | nil => exact nofun
  | cons d ds => rwa [Ended] at h

theorem lines_append (h : Ended bytes) (more : Bytes) :
    lines (bytes ++ more) = lines bytes ++ lines more := by
  induction bytes with
  | nil => rfl
  | cons c cs ih =>
    have hrest := ih h.of_cons
    simp only [cons_append, lines, hrest]
    by_cases hnl : c = 10
    · simp only [if_pos hnl, cons_append]
    simp only [if_neg hnl]
    cases hls : lines cs with
    | nil =>
      rw [lines_eq_nil] at hls
      subst hls
      exact absurd (h c (by simp)) hnl
    | cons l ls => rfl

theorem lines_segment (h : 10 ∉ bytes) (hne : bytes ≠ []) : lines bytes = [bytes] := by
  induction bytes with
  | nil => exact absurd rfl hne
  | cons c cs ih =>
    simp only [mem_cons, not_or] at h
    rw [lines, if_neg (Ne.symm h.1)]
    cases cs with
    | nil => rfl
    | cons d ds => rw [ih h.2 (cons_ne_nil d ds)]

theorem lines_line (h : 10 ∉ bytes) : lines (bytes ++ [10]) = [bytes ++ [10]] := by
  induction bytes with
  | nil => rfl
  | cons c cs ih =>
    simp only [mem_cons, not_or] at h
    rw [cons_append, lines, if_neg (Ne.symm h.1), ih h.2]

/-! ## Reading a line -/

section ReadLine

variable {r : RingBuf UInt8}

theorem ring_pop (h : r.Wf) (hcount : r.count ≠ 0) :
    ∃ r', r' = { r with rpos := (r.rpos + 1) % r.cap, count := r.count - 1 } ∧ r'.Wf ∧
      r.contents = r.buf.getD r.rpos 0 :: r'.contents := by
  have hlt := h.rpos_lt
  have hmin : min 1 r.count = 1 := by omega
  have hpop : (r.read 1).2 = { r with rpos := (r.rpos + 1) % r.cap, count := r.count - 1 } := by
    simp only [RingBuf.read, hmin]
  refine ⟨_, hpop.symm ▸ rfl, hpop ▸ RingBuf.read_wf h 1, ?_⟩
  have hhead : r.contents.take 1 = [r.buf.getD r.rpos 0] := by
    have hpos : r.rpos < r.buf.length := hlt
    rw [← RingBuf.read_fst h 1]
    simp only [RingBuf.read, hmin, show min (r.cap - r.rpos) 1 = 1 by omega]
    rw [drop_eq_getElem_cons hpos, getD_eq_getElem _ _ hpos]
    rfl
  rw [← hpop, RingBuf.read_snd h]
  calc r.contents = r.contents.take 1 ++ r.contents.drop 1 := (take_append_drop 1 _).symm
    _ = _ := by rw [hhead]; rfl

/-- A read returns the first record, or as much of it as there is room for. -/
theorem ringReadLine_spec (h : r.Wf) {len : Nat} (hlen : 0 < len) {l : Bytes}
    {ls : List Bytes} (hlines : lines r.contents = l :: ls) :
    (ringReadLine r len).2.Wf ∧ (ringReadLine r len).1 = l.take len ∧
      lines (ringReadLine r len).2.contents = if l.length ≤ len then ls else l.drop len :: ls := by
  induction len generalizing r l ls with
  | zero => omega
  | succ len ih =>
    have hcount : r.count ≠ 0 := by
      intro hzero
      have hnil : r.contents = [] := by simp [RingBuf.contents, hzero]
      rw [hnil] at hlines
      cases hlines
    obtain ⟨r', hr', hwf', hcontents⟩ := ring_pop h hcount
    rw [ringReadLine, if_neg hcount, ← hr']
    rw [hcontents, lines] at hlines
    by_cases hnl : r.buf.getD r.rpos 0 = 10
    · simp only [if_pos hnl] at hlines ⊢
      cases hlines
      exact ⟨hwf', by simp, by simp⟩
    simp only [if_neg hnl] at hlines ⊢
    cases hrest : lines r'.contents with
    | nil =>
      rw [hrest] at hlines
      cases hlines
      have hzero : r'.count = 0 := by
        rw [← RingBuf.contents_length hwf', lines_eq_nil.mp hrest, length_nil]
      have hread : ringReadLine r' len = ([], r') := by
        cases len with
        | zero => rfl
        | succ len => rw [ringReadLine, if_pos hzero]
      rw [hread]
      exact ⟨hwf', by simp, by simp [hrest]⟩
    | cons l' ls' =>
      rw [hrest] at hlines
      cases hlines
      cases len with
      | zero =>
        have hne : l' ≠ [] := by
          rintro rfl
          exact lines_ne_nil (hrest ▸ mem_cons_self)
        refine ⟨hwf', rfl, hrest.trans ?_⟩
        rw [if_neg (by simpa using hne)]
        rfl
      | succ len =>
        obtain ⟨hwf, hline, hlines⟩ := ih hwf' (Nat.succ_pos _) hrest
        refine ⟨hwf, congrArg _ hline, hlines.trans ?_⟩
        simp only [length_cons, Nat.add_le_add_iff_right]
        rfl

end ReadLine

/-! ## The queue of records -/

/-- What canonical input is for: the line being typed and the records passed on. -/
structure LineQueue where
  line : Bytes := []
  records : List Bytes := []

namespace LineQueue

def type (t : Termios) (q : LineQueue) (c : UInt8) : LineQueue :=
  let c := t.crnl c
  if (ttySignalFor { termios := t } c).isSome then q
  else if c = t.verase ∨ c = 8 then { q with line := q.line.dropLast }
  else if c = 10 then { line := [], records := q.records ++ [q.line ++ [10]] }
  else if c = t.veof then { line := [], records := q.records ++ [q.line] }
  else { q with line := q.line ++ [c] }

/-- A read that has room for less than the first record leaves the rest of it. -/
def read (q : LineQueue) (len : Nat) : Except IoErrno Bytes × LineQueue :=
  if len = 0 then (.ok [], q)
  else
    match q.records with
    | [] => (.error .eagain, q)
    | l :: ls => (.ok (l.take len),
        { q with records := if l.length ≤ len then ls else l.drop len :: ls })

end LineQueue

inductive LineEvent where
  | typed (bytes : Bytes)
  | got (len : Nat) (reply : Except IoErrno Bytes)

/-- The input that was accepted and the answers to the slave's reads. -/
def PtyOp.event : PtyOp → Pty → List LineEvent
  | .write true bytes, pt => [.typed (bytes.take (accepted (pt.write true bytes).1))]
  | .read false len, pt => [.got len (pt.read false len).1]
  | _, _ => []

/-- The answers are those of the queue of records. -/
def LineQueue.Explains (t : Termios) : LineQueue → List LineEvent → Prop
  | _, [] => True
  | q, .typed bytes :: rest => Explains t (bytes.foldl (type t) q) rest
  | q, .got len reply :: rest => reply = (q.read len).1 ∧ Explains t (q.read len).2 rest

/-! ## When the ring keeps records apart -/

/-- The byte `c` does not run a record into the one before it: no end of file is pending when a
record is passed on, the ring does not end inside a segment that bytes would be appended to, and the
line has room for one more byte. -/
def Pty.separates (pt : Pty) (c : UInt8) : Prop :=
  let t := pt.tty.termios
  (ttySignalFor pt.tty c).isSome ∨ c = t.verase ∨ c = 8 ∨
    if c = 10 ∨ c = t.veof then
      pt.m2sEof = false ∧ (c = 10 ∨ pt.canon ≠ [] → Ended pt.m2s.contents)
    else pt.canon.length < ptyCanon

/-- Every byte of a write that is taken finds the ring so. -/
def Pty.Separates (pt : Pty) : Bytes → Prop
  | [] => True
  | c :: rest => pt.stuck true c ∨
      pt.separates (pt.tty.termios.crnl c) ∧ (pt.typed (pt.tty.termios.crnl c)).Separates rest

def PtyOp.Separates : PtyOp → Pty → Prop
  | .write true bytes, pt => pt.Separates bytes
  -- There is a master to write as long as the run goes on.
  | .ends masters _, _ => masters ≠ 0
  | _, _ => True

def Separated : List PtyOp → Pty → Prop
  | [], _ => True
  | op :: ops, pt => op.Separates pt ∧ Separated ops (op.run pt)

instance (bytes : Bytes) : Decidable (Ended bytes) := Option.decidableForallMem _

instance (pt : Pty) (c : UInt8) : Decidable (pt.separates c) := by
  unfold Pty.separates
  infer_instance

instance Pty.decSeparates : (pt : Pty) → (bytes : Bytes) → Decidable (pt.Separates bytes)
  | _, [] => inferInstanceAs (Decidable True)
  | pt, c :: rest =>
    have := Pty.decSeparates (pt.typed (pt.tty.termios.crnl c)) rest
    inferInstanceAs (Decidable (_ ∨ _ ∧ _))

instance : (ops : List PtyOp) → (pt : Pty) → Decidable (Separated ops pt)
  | [], _ => inferInstanceAs (Decidable True)
  | op :: ops, pt =>
    have := instDecidableSeparated ops (op.run pt)
    have : Decidable (op.Separates pt) := by
      unfold PtyOp.Separates
      split <;> infer_instance
    inferInstanceAs (Decidable (_ ∧ _))

structure Pty.Tied (pt : Pty) (q : LineQueue) : Prop where
  wf : pt.m2s.Wf
  used : pt.used = true
  masters : pt.masters ≠ 0
  icanon : pt.tty.termios.icanon = true
  line : q.line = pt.canon
  noNewline : 10 ∉ pt.canon
  records : q.records = lines pt.m2s.contents ++ if pt.m2sEof then [[]] else []

section Simulation

variable {pt : Pty} {q : LineQueue}

theorem Pty.Tied.congr (h : pt.Tied q) {pt' : Pty} (hring : pt'.m2s = pt.m2s)
    (hused : pt'.used = pt.used) (hmasters : pt'.masters ≠ 0)
    (hmodes : pt'.tty.termios = pt.tty.termios) (hcanon : pt'.canon = pt.canon)
    (heof : pt'.m2sEof = pt.m2sEof) : pt'.Tied q where
  wf := hring ▸ h.wf
  used := hused ▸ h.used
  masters := hmasters
  icanon := hmodes ▸ h.icanon
  line := hcanon ▸ h.line
  noNewline := hcanon ▸ h.noNewline
  records := by rw [hring, heof, h.records]

theorem Pty.Tied.echo (h : pt.Tied q) (bytes : Bytes) : (pt.echo bytes).Tied q := by
  rw [Pty.echo_eq]
  exact h.congr rfl rfl h.masters rfl rfl rfl

theorem Pty.Tied.typed (h : pt.Tied q) {c : UInt8} (hroom : ¬ pt.stuck true c)
    (hsep : pt.separates (pt.tty.termios.crnl c)) :
    (pt.typed (pt.tty.termios.crnl c)).Tied (q.type pt.tty.termios c) := by
  unfold Pty.typed LineQueue.type
  rw [show ttySignalFor { termios := pt.tty.termios } = ttySignalFor pt.tty from rfl]
  simp only [Pty.stuck, Pty.separates, if_true, h.icanon, Bool.not_true, Bool.false_eq_true,
    if_false] at hroom hsep ⊢
  generalize pt.tty.termios.crnl c = c at hroom hsep ⊢
  by_cases hsig : (ttySignalFor pt.tty c).isSome = true
  · simpa only [if_pos hsig] using h
  have hnone : ttySignalFor pt.tty c = none := by simpa using hsig
  simp only [if_neg hsig]
  by_cases herase : c = pt.tty.termios.verase ∨ c = 8
  · simp only [if_pos herase]
    split
    · apply Pty.Tied.echo
      refine { h with line := congrArg _ h.line, noNewline := ?_ }
      exact fun hmem => h.noNewline (mem_of_mem_dropLast hmem)
    rename_i hcanon
    have hline : q.line.dropLast = pt.canon := by
      rw [h.line, not_not.mp hcanon]
      rfl
    exact { h with line := hline }
  have hback : c ≠ pt.tty.termios.verase ∧ c ≠ 8 := not_or.mp herase
  simp only [hback, false_or, hnone, not_false_eq_true, true_and,
    Option.isSome_none, Bool.false_eq_true] at hroom hsep ⊢
  by_cases hnl : c = 10
  · simp only [hnl, if_true, true_or, true_imp_iff] at hroom hsep ⊢
    obtain ⟨heof, hended⟩ := hsep
    have hspace : (pt.canon ++ [10]).length ≤ pt.m2s.space := by
      rw [length_append, length_singleton]
      omega
    obtain ⟨hwf, hcontents⟩ := foldl_ringPutc h.wf hspace
    apply Pty.Tied.echo
    refine ⟨hwf, h.used, h.masters, h.icanon, rfl, not_mem_nil, ?_⟩
    simp only [hcontents, lines_append hended, lines_line h.noNewline, h.records, h.line, heof]
    simp
  simp only [hnl, if_false, false_or] at hroom hsep ⊢
  by_cases hveof : c = pt.tty.termios.veof
  · simp only [hveof, true_and] at hroom hsep ⊢
    obtain ⟨heof, hended⟩ := hsep
    have hspace : pt.canon.length ≤ pt.m2s.space := by omega
    obtain ⟨hwf, hcontents⟩ := foldl_ringPutc h.wf hspace
    refine ⟨hwf, h.used, h.masters, h.icanon, rfl, not_mem_nil, ?_⟩
    by_cases hcanon : pt.canon = []
    · simp [hcanon, h.records, h.line, heof]
    · simp [hcontents, lines_append (hended hcanon), lines_segment h.noNewline hcanon, h.records,
        h.line, heof, hcanon]
  · simp only [hveof, if_false] at hsep ⊢
    rw [if_pos hsep]
    apply Pty.Tied.echo
    refine { h with line := congrArg (· ++ [c]) h.line, noNewline := ?_ }
    simpa [h.noNewline] using Ne.symm hnl

theorem Pty.Tied.input (h : pt.Tied q) (hsep : pt.Separates bytes) (consumed : Nat)
    (raised : List (Int × Nat)) : ∃ n, accepted (pt.input consumed raised bytes).1 = consumed + n ∧
      (pt.input consumed raised bytes).2.1.tty = pt.tty ∧
      (pt.input consumed raised bytes).2.1.Tied
        ((bytes.take n).foldl (LineQueue.type pt.tty.termios) q) := by
  induction bytes generalizing pt q consumed raised with
  | nil => exact ⟨0, rfl, rfl, h⟩
  | cons c rest ih =>
    rcases pt.input_cons consumed raised c rest with ⟨-, heq⟩ | ⟨hroom, raised', heq⟩
    · rw [heq]
      exact ⟨0, accepted_stopped consumed, rfl, h⟩
    obtain ⟨hbyte, hrest⟩ := hsep.resolve_left hroom
    have htty := (pt.typed_keeps (pt.tty.termios.crnl c)).1
    obtain ⟨n, hn, htty', htied⟩ := ih (h.typed hroom hbyte) hrest (consumed + 1) raised'
    rw [heq]
    rw [htty] at htty' htied
    exact ⟨n + 1, by omega, htty', htied⟩

theorem Pty.Tied.read (h : pt.Tied q) (len : Nat) :
    (pt.read false len).1 = (q.read len).1 ∧ (pt.read false len).2.tty = pt.tty ∧
      (pt.read false len).2.Tied (q.read len).2 := by
  have hread : pt.read false len = if len = 0 then (.ok [], pt) else if 0 < pt.m2s.count then
        (.ok (ringReadLine pt.m2s len).1, { pt with m2s := (ringReadLine pt.m2s len).2 })
      else if pt.m2sEof then (.ok [], { pt with m2sEof := false })
      else (.error .eagain, pt) := by
    simp [Pty.read, h.used, h.icanon, h.masters]
  by_cases hlen : len = 0
  · rw [hread, LineQueue.read, if_pos hlen, if_pos hlen]
    exact ⟨rfl, rfl, h⟩
  rw [hread, LineQueue.read, if_neg hlen, if_neg hlen]
  have hrecords := h.records
  by_cases hcount : 0 < pt.m2s.count
  · rw [if_pos hcount]
    cases hlines : lines pt.m2s.contents with
    | nil =>
      have := RingBuf.contents_length h.wf
      rw [lines_eq_nil.mp hlines, length_nil] at this
      omega
    | cons l ls =>
      obtain ⟨hwf, hline, hrest⟩ := ringReadLine_spec h.wf (Nat.pos_of_ne_zero hlen) hlines
      rw [hlines, cons_append] at hrecords
      rw [hrecords, hline]
      refine ⟨rfl, rfl, hwf, h.used, h.masters, h.icanon, h.line, h.noNewline, ?_⟩
      rw [hrest]
      dsimp only
      split <;> rfl
  · have hnil : pt.m2s.contents = [] := by
      apply eq_nil_of_length_eq_zero
      rw [RingBuf.contents_length h.wf]
      omega
    rw [hnil] at hrecords
    rw [if_neg hcount]
    cases heof : pt.m2sEof with
    | true =>
      rw [heof] at hrecords
      rw [hrecords]
      refine ⟨by simp [lines], rfl, h.wf, h.used, h.masters, h.icanon, h.line, h.noNewline, ?_⟩
      simp [hnil, lines]
    | false =>
      rw [heof] at hrecords
      rw [hrecords]
      exact ⟨rfl, rfl, h⟩

theorem Pty.output_ring (pt : Pty) (consumed : Nat) (bytes : Bytes) :
    ∃ ring, (pt.output consumed bytes).2 = { pt with s2m := ring } := by
  induction bytes generalizing pt consumed with
  | nil => exact ⟨pt.s2m, rfl⟩
  | cons c rest ih =>
    rw [pt.output_cons]
    split
    · exact ⟨pt.s2m, rfl⟩
    · exact ih _ _

theorem PtyOp.tied_step (op : PtyOp) (h : pt.Tied q) (hsep : op.Separates pt) :
    ∃ q', (op.run pt).Tied q' ∧ (op.run pt).tty.termios = pt.tty.termios ∧
      ∀ rest, q'.Explains pt.tty.termios rest →
        q.Explains pt.tty.termios (op.event pt ++ rest) := by
  have hkeep : ∀ {pt' : Pty}, pt'.m2s = pt.m2s → pt'.used = pt.used → pt'.masters ≠ 0 →
      pt'.tty.termios = pt.tty.termios → pt'.canon = pt.canon → pt'.m2sEof = pt.m2sEof →
      ∃ q', pt'.Tied q' ∧ pt'.tty.termios = pt.tty.termios ∧
        ∀ rest, q'.Explains pt.tty.termios rest → q.Explains pt.tty.termios ([] ++ rest) :=
    fun hring hused hmasters hmodes hcanon heof =>
      ⟨q, h.congr hring hused hmasters hmodes hcanon heof, hmodes, fun _ hrest => hrest⟩
  cases op with
  | read master len =>
    cases master with
    | true =>
      refine hkeep ?_ ?_ ?_ ?_ ?_ ?_
      all_goals
        simp only [PtyOp.run, Pty.read]
        split_ifs <;> first | rfl | exact h.masters
    | false =>
      obtain ⟨hreply, htty, htied⟩ := h.read len
      exact ⟨_, htied, congrArg _ htty, fun _ hrest => ⟨hreply, hrest⟩⟩
  | write master bytes =>
    cases master with
    | true =>
      have hwrite : pt.write true bytes = pt.input 0 [] bytes := by
        simp only [Pty.write, h.used, Bool.not_true, Bool.false_eq_true, if_false]
        split
        · next hnil => rw [hnil, Pty.input]
        · rfl
      obtain ⟨n, hn, htty, htied⟩ := h.input hsep 0 []
      rw [← hwrite] at hn htty htied
      refine ⟨_, htied, congrArg _ htty, fun rest hrest => ?_⟩
      show LineQueue.Explains _ ((bytes.take (accepted (pt.write true bytes).1)).foldl _ q) rest
      rwa [hn, Nat.zero_add]
    | false =>
      obtain ⟨ring, hring⟩ : ∃ ring, (pt.write false bytes).2.1 = { pt with s2m := ring } := by
        simp only [Pty.write, Bool.false_eq_true, if_false]
        split_ifs
        · exact ⟨pt.s2m, rfl⟩
        · exact ⟨pt.s2m, rfl⟩
        · exact pt.output_ring 0 bytes
      show ∃ q', (pt.write false bytes).2.1.Tied q' ∧ (pt.write false bytes).2.1.tty.termios = _ ∧ _
      rw [hring]
      exact hkeep rfl rfl h.masters rfl rfl rfl
  | setfl master nb =>
    refine hkeep ?_ ?_ ?_ ?_ ?_ ?_
    all_goals
      simp only [PtyOp.run, Pty.setfl]
      split_ifs <;> first | rfl | exact h.masters
  | setPgrp | setLock => exact hkeep rfl rfl h.masters rfl rfl rfl
  | ends masters slaves => exact hkeep rfl rfl hsep rfl rfl rfl

theorem Pty.Tied.explains (h : pt.Tied q) {ops : List PtyOp} (hsep : Separated ops pt) :
    q.Explains pt.tty.termios (gather PtyOp.event ops pt) := by
  induction ops generalizing pt q with
  | nil => exact trivial
  | cons op ops ih =>
    obtain ⟨q', htied, hmodes, hexplains⟩ := op.tied_step h hsep.1
    exact hexplains _ (hmodes ▸ ih htied hsep.2)

end Simulation

def Pty.opened (cap : Nat) (t : Termios) : Pty :=
  { Pty.zero cap with used := true, masters := 1, tty := { termios := t } }

theorem Pty.opened_tied {cap : Nat} (hcap : 0 < cap) {t : Termios} (hcanon : t.icanon = true) :
    (Pty.opened cap t).Tied {} where
  wf := RingBuf.wf_empty (ne_nil_of_length_pos (by simpa using hcap))
  used := rfl
  masters := Nat.one_ne_zero
  icanon := hcanon
  line := rfl
  noNewline := not_mem_nil
  records := by simp [Pty.opened, Pty.zero, RingBuf.contents, lines]

/-- While every byte that is taken separates, the slave's reads are those of a queue of records. -/
theorem Pty.records_in_order {cap : Nat} (hcap : 0 < cap) {t : Termios} (hcanon : t.icanon = true)
    {ops : List PtyOp} (hsep : Separated ops (Pty.opened cap t)) :
    LineQueue.Explains t {} (gather PtyOp.event ops (Pty.opened cap t)) :=
  (Pty.opened_tied hcap hcanon).explains hsep

/-- Two lines, the second with an erased byte, and an end of file after they were read. -/
theorem Pty.records_in_order_two_lines :
    let ops : List PtyOp := [.write true [97, 10, 98, 99, 127, 10], .read false 9, .read false 1,
      .read false 9, .write true [4], .read false 9, .read false 9]
    LineQueue.Explains {} {} (gather PtyOp.event ops (Pty.opened 8 {})) :=
  Pty.records_in_order (by decide) rfl (by decide +kernel)

/-- A segment ended by an end of file and the line after it are read as one record. -/
theorem Pty.records_merged : ¬ LineQueue.Explains {} {}
      (gather PtyOp.event [.write true [97, 4, 98, 10], .read false 9] (Pty.opened 8 {})) := by
  intro h
  exact absurd h.1 (by decide +kernel)

end Lxp.Stream
