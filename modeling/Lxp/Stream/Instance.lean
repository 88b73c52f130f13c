import Lxp.Stream.Fifo

/-!
# Retries and the objects they were issued on

A wait record names an entry of a pool by its index.  When the object is closed while a task waits
for it, by a task that shares the descriptor table, the entry is free; a later open may put another
object there, and the retry then works on that one.  As long as no open takes an entry that a wait
record names, every retry works on the object its call was made on or finds the entry free.
-/

open Function ByteMemory

namespace Lxp.Stream

variable {K : StreamConfig} {x x' : Streams K} {s : K.Task} {w : Parked K}

/-! ## The invariant of parked tasks -/

/-- The operation takes no entry that a parked task waits for. -/
def Unclaimed (x : Streams K) (op : StreamOp K) : Prop :=
  ∀ k, op.takes x = some k → ∀ s w, x.wait s = some w → w.call.slot ≠ k

/-- A parked task waits for the object its call was made on, or for a free entry. -/
def Bound (x : Streams K) : Prop :=
  ∀ s w, x.wait s = some w →
    occupant x w.call.slot = some w.born ∨ occupant x w.call.slot = none

theorem Bound.step {op : StreamOp K} (h : Bound x) (hstep : LifeStep x op x')
    (hfree : Unclaimed x op) : Bound x' := by
  intro s w hw
  rcases hstep.wait s with hsame | hnone | ⟨w', hs, hocc⟩
  · have hw' : x.wait s = some w := hsame ▸ hw
    rcases hstep.occ w.call.slot with hocc | hocc | ⟨htakes, -⟩
    · rw [hocc]
      exact h s w hw'
    · exact .inr hocc
    · exact absurd rfl (hfree _ htakes s w hw')
  · rw [hnone] at hw
    cases hw
  · rw [hs] at hw
    cases hw
    exact .inl hocc

theorem StreamRuns.bound {sent got : PipeLog} (h : StreamRuns K Unclaimed sent got x) :
    Bound x := by
  induction h with
  | boot mem access net drv => exact nofun
  | step op h hok ih => exact ih.step (op.run_step h.fifo.toEnds).life hok

/-- Numbers are given out in order, so an object created later has a number of its own. -/
structure Numbered (x : Streams K) : Prop where
  occ : ∀ k b, occupant x k = some b → b < x.births
  wait : ∀ s w, x.wait s = some w → w.born < x.births

theorem Numbered.step {op : StreamOp K} (h : Numbered x) (hstep : LifeStep x op x') :
    Numbered x' := by
  have hocc : ∀ k b, occupant x' k = some b → b < x'.births := by
    intro k b hb
    rcases hstep.occ k with hsame | hnone | ⟨-, -, hnew, hlt⟩
    · exact Nat.lt_of_lt_of_le (h.occ k b (hsame ▸ hb)) hstep.births
    · rw [hnone] at hb
      cases hb
    · rw [hnew] at hb
      cases hb
      exact hlt
  refine ⟨hocc, fun s w hw => ?_⟩
  rcases hstep.wait s with hsame | hnone | ⟨w', hs, hthere⟩
  · exact Nat.lt_of_lt_of_le (h.wait s w (hsame ▸ hw)) hstep.births
  · rw [hnone] at hw
    cases hw
  · rw [hs] at hw
    cases hw
    exact hocc _ _ hthere

theorem StreamRuns.numbered {ok : Streams K → StreamOp K → Prop} {sent got : PipeLog}
    (h : StreamRuns K ok sent got x) : Numbered x := by
  induction h with
  | boot mem access net drv => exact ⟨fun k => by cases k <;> exact nofun, nofun⟩
  | step op h hok ih => exact ih.step (op.run_step h.fifo.toEnds).life

/-! ## What a retry reaches -/

structure Untouched (x x' : Streams K) : Prop where
  pipes : x'.pipes = x.pipes
  ptys : x'.ptys = x.ptys
  socks : x'.socks = x.socks
  devs : x'.devs = x.devs
  net : x'.net = x.net
  drv : x'.drv = x.drv
  bytes : x'.mem.bytes = x.mem.bytes

/-- What a retry answers when the object is gone. -/
def IoWait.goneReply (mapped : IoReply) : IoWait K → IoReply
  | .pipe false _ _ _ => .ok 0
  | .pipe true _ _ _ => .error .epipe
  | .device (.mmap _ _ _) _ => mapped
  | _ => .error .ebadf

section Retry

variable (room : Bool) (mapped : IoReply)

theorem sigpipe_outside {j : Slot K} (h : Outside j x x') (s : K.Task) (r : IoReply) :
    Outside j x (sigpipe s r x') := by
  unfold sigpipe
  split
  · exact { h with }
  · exact h

theorem retry_outside {j : Slot K} (hw : x.wait s = some w)
    (h : Outside j x (attempt s room w.call x).2) : Outside j x (retry s room mapped x).2 := by
  by_cases hmmap : ∃ phys len attrs i, w.call = .device (.mmap phys len attrs) i
  · obtain ⟨phys, len, attrs, i, hcall⟩ := hmmap
    obtain ⟨call, b⟩ := w
    cases hcall
    unfold retry
    rw [hw]
    exact .same rfl rfl rfl rfl
  rw [retry_eq room mapped hw fun phys len attrs i hcall => hmmap ⟨phys, len, attrs, i, hcall⟩]
  generalize attempt s room w.call x = a at h
  obtain ⟨r, x1⟩ := a
  have hdone : Outside j x (waitComplete s x1) := { h with }
  split
  · rename_i heq
    cases heq
    exact h
  rename_i heq
  cases heq
  split
  · exact sigpipe_outside hdone s _
  · exact hdone

/-- A retry changes the entry that its record names, or puts an accepted socket into a free one. -/
theorem retry_frame (hw : x.wait s = some w) : Outside w.call.slot x (retry s room mapped x).2 ∨
    ∃ c, (x.socks c).used = false ∧ Outside (.sock c) x (retry s room mapped x).2 := by
  obtain ⟨call, b⟩ := w
  cases call with
  | pipe write i buf len =>
    refine .inl (retry_outside room mapped hw ?_)
    cases write with
    | false => exact (pipeTryRead_local i buf len x).toOutside
    | true => exact (pipeTryWrite_local i buf len x).toOutside
  | pty master write i buf len =>
    refine .inl (retry_outside room mapped hw ?_)
    cases write with
    | false => exact (ptyRead_local i master buf len x).toOutside
    | true => exact (ptyWrite_local i master buf len x).toOutside
  | socket op i buf len =>
    rcases sockRetry_touch s op i buf len room x with hlocal | ⟨-, c, hc, htouch⟩
    · exact .inl (retry_outside room mapped hw hlocal.toOutside)
    · exact .inr ⟨c, firstFree_free hc, retry_outside room mapped hw htouch.toOutside⟩
  | device req i => exact .inl (retry_outside room mapped hw (devAttempt_local s req i x).toOutside)

theorem attempt_gone (hends : Ends x) {call : IoWait K} (hgone : occupant x call.slot = none)
    (hmmap : ∀ phys len attrs i, call ≠ .device (.mmap phys len attrs) i) :
    (attempt s room call x).1 = call.goneReply mapped ∧
      Untouched x (attempt s room call x).2 := by
  have hrefl : Untouched x x := ⟨rfl, rfl, rfl, rfl, rfl, rfl, rfl⟩
  cases call with
  | pipe write i buf len =>
    have hidle := hends.idle i (by simpa [occupant, IoWait.slot] using hgone)
    cases write with
    | false =>
      have hread : (x.pipes i).tryRead len = (.ok [], x.pipes i) := by
        rw [hidle]
        rfl
      simp only [attempt, pipeTryRead, hread, setPipe_self]
      refine ⟨rfl, rfl, rfl, rfl, rfl, rfl, rfl, funext fun a => ?_⟩
      exact if_neg (by simp)
    | true =>
      have hwrite : ∀ bytes, (x.pipes i).tryWrite bytes = (.error .epipe, x.pipes i) := by
        intro bytes
        rw [hidle]
        rfl
      simp only [attempt, pipeTryWrite, hwrite, setPipe_self]
      exact ⟨rfl, hrefl⟩
  | pty master write i buf len =>
    have hunused : (x.ptys i).used = false := by simpa [occupant, IoWait.slot] using hgone
    cases write with
    | false =>
      have hread : (x.ptys i).read master len = (.error .ebadf, x.ptys i) := by
        simp [Pty.read, hunused]
      simp only [attempt, ptyRead, hread, setPty, update_eq_self]
      exact ⟨rfl, rfl, rfl, rfl, rfl, rfl, rfl, rfl⟩
    | true =>
      have hwrite : ∀ bytes, (x.ptys i).write master bytes = (.error .ebadf, x.ptys i, []) := by
        simp [Pty.write, hunused]
      simp only [attempt, ptyWrite, hwrite, setPty, update_eq_self]
      exact ⟨rfl, rfl, rfl, rfl, rfl, rfl, rfl, rfl⟩
  | socket op i buf len =>
    have hunused : (x.socks i).used = false := by simpa [occupant, IoWait.slot] using hgone
    simp only [attempt, sockRetry, hunused]
    exact ⟨rfl, hrefl⟩
  | device req i =>
    have hunused : (x.devs i).used = false := by simpa [occupant, IoWait.slot] using hgone
    have hreply : (IoWait.device req i).goneReply mapped = .error .ebadf := by
      cases req with
      | mmap phys len attrs => exact absurd rfl (hmmap phys len attrs i)
      | _ => rfl
    rw [hreply]
    simp only [attempt, devAttempt, hunused]
    exact ⟨rfl, hrefl⟩

theorem Untouched.complete (h : Untouched x x') (s : K.Task) : Untouched x (waitComplete s x') :=
  { h with }

theorem Untouched.sigpipe (h : Untouched x x') (s : K.Task) (r : IoReply) :
    Untouched x (sigpipe s r x') := by
  unfold Stream.sigpipe
  split
  · exact { h with }
  · exact h

/-- A retry that finds its entry free touches no object. -/
theorem retry_gone (hends : Ends x) (hw : x.wait s = some w)
    (hgone : occupant x w.call.slot = none) :
    (retry s room mapped x).1 = .done (w.call.goneReply mapped) ∧
      Untouched x (retry s room mapped x).2 := by
  by_cases hmmap : ∃ phys len attrs i, w.call = .device (.mmap phys len attrs) i
  · obtain ⟨phys, len, attrs, i, hcall⟩ := hmmap
    obtain ⟨call, b⟩ := w
    cases hcall
    unfold retry
    rw [hw]
    exact ⟨rfl, Untouched.complete ⟨rfl, rfl, rfl, rfl, rfl, rfl, rfl⟩ s⟩
  have hother : ∀ phys len attrs i, w.call ≠ .device (.mmap phys len attrs) i :=
    fun phys len attrs i hcall => hmmap ⟨phys, len, attrs, i, hcall⟩
  obtain ⟨hreply, huntouched⟩ := attempt_gone room mapped (s := s) hends hgone hother
  have hnotAgain : w.call.goneReply mapped ≠ .error .eagain := by
    obtain ⟨call, b⟩ := w
    rcases call with ⟨_ | _⟩ | _ | _ | ⟨req, i⟩
    · exact nofun
    · exact nofun
    · exact nofun
    · exact nofun
    · cases req with
      | mmap phys len attrs => exact absurd rfl (hother phys len attrs i)
      | _ => exact nofun
  rw [retry_eq room mapped hw hother]
  generalize attempt s room w.call x = a at hreply huntouched
  obtain ⟨r, x1⟩ := a
  have hr : r = w.call.goneReply mapped := hreply
  split
  · rename_i heq
    cases heq
    exact absurd hr.symm hnotAgain
  rename_i heq
  cases heq
  refine ⟨by rw [hr], ?_⟩
  split
  · exact (huntouched.complete s).sigpipe s _
  · exact huntouched.complete s

end Retry

/-- The object a wait record stands for: the retry finds the object its call was made on, and
changes no other entry in use, or finds the entry free and touches nothing. -/
def OwnObject (x : Streams K) (s : K.Task) (w : Parked K) : Prop :=
  ∀ room mapped,
    (occupant x w.call.slot = some w.born ∧
      (Outside w.call.slot x (retry s room mapped x).2 ∨
        ∃ c, (x.socks c).used = false ∧ Outside (.sock c) x (retry s room mapped x).2)) ∨
    occupant x w.call.slot = none ∧
      (retry s room mapped x).1 = .done (w.call.goneReply mapped) ∧
      Untouched x (retry s room mapped x).2

/-- Where no open takes an entry that a parked task waits for, every retry keeps to its object; the
numbers that tell objects apart are all below the next one. -/
theorem retry_ownObject {sent got : PipeLog} (h : StreamRuns K Unclaimed sent got x) :
    ∀ s w, x.wait s = some w → OwnObject x s w ∧ w.born < x.births := by
  intro s w hw
  refine ⟨fun room mapped => ?_, h.numbered.wait s w hw⟩
  rcases h.bound s w hw with hocc | hgone
  · exact .inl ⟨hocc, retry_frame room mapped hw⟩
  · exact .inr ⟨hgone, retry_gone room mapped h.fifo.toEnds hw hgone⟩

/-- A reader whose pipe is closed under it, and no pipe is opened after that. -/
theorem retry_ownObject_closed : ∃ sent got x w, StreamRuns smallStreams Unclaimed sent got x ∧
    x.wait 0 = some w ∧ occupant x w.call.slot = none ∧ OwnObject x 0 w := by
  have hboot : StreamRuns smallStreams Unclaimed _ _ _ :=
    .boot (Mem.ofBytes UInt8.ofNat) (fun _ _ _ _ => true) () ()
  have hrun := (((hboot.step (.pipe 0 0 2 false) fun _ _ _ _ hw => nomatch hw).step
    (.read 0 0 32 1) nofun).step (.close 0) nofun).step (.close 1) nofun
  exact ⟨_, _, _, ⟨.pipe false 0 32 1, 0⟩, hrun, rfl, rfl, (retry_ownObject hrun 0 _ rfl).1⟩

/-- A task waits to read from pipe 0; others that share its descriptors close both ends, open pipe 1
and write to it; the retry reads the byte of pipe 1. -/
theorem retry_reads_later_pipe : ∃ sent got x w,
    StreamRuns smallStreams (fun _ _ => True) sent got x ∧ x.wait 0 = some w ∧ w.born = 0 ∧
      occupant x w.call.slot = some 1 ∧
      (StreamOp.retry 0 true (.ok 0)).got x got 1 = got 1 ++ [16] ∧ ¬ OwnObject x 0 w := by
  have hboot : StreamRuns smallStreams (fun _ _ => True) _ _ _ :=
    .boot (Mem.ofBytes UInt8.ofNat) (fun _ _ _ _ => true) () ()
  have hrun := (((((hboot.step (.pipe 0 0 2 false) trivial).step (.read 0 0 32 1) trivial).step
    (.close 0) trivial).step (.close 1) trivial).step (.pipe 1 0 2 false) trivial).step
    (.write 1 1 16 1) trivial
  refine ⟨_, _, _, ⟨.pipe false 0 32 1, 0⟩, hrun, rfl, rfl, rfl, by decide +kernel, fun hown => ?_⟩
  rcases hown true (.ok 0) with ⟨hocc, -⟩ | ⟨hgone, -⟩
  · cases hocc
  · cases hgone

end Lxp.Stream
