import Lxp.Stream.Frames
import Lxp.Lib.RefPool

/-!
# What an operation can do

Every operation on the streams either leaves the pipes alone or does one thing to one pipe: take
bytes from it, give bytes to it, open it, or close an end.  It keeps the objects of the pools, frees
an entry, or puts a new object into the first free entry of one pool; and a task it parks is parked
on an object that is there.
-/

open Function ByteMemory RefPool

namespace Lxp.Stream

variable {K : StreamConfig} {x x' : Streams K} {s : K.Task}

/-! ## Runs and the bytes moved in them -/

/-- The pipe a call or a retry works on, its direction and its buffer. -/
def StreamOp.transfer (x : Streams K) : StreamOp K → Option (Bool × Fin K.npipe × Nat × Nat)
  | .read _ d buf len =>
    match (x.ofds d).map Desc.slot with
    | some (.pipe i) => some (false, i, buf, len)
    | _ => none
  | .write _ d buf len =>
    match (x.ofds d).map Desc.slot with
    | some (.pipe i) => some (true, i, buf, len)
    | _ => none
  | .retry s _ _ =>
    match (x.wait s).map Parked.call with
    | some (.pipe w i buf len) => some (w, i, buf, len)
    | _ => none
  | _ => none

abbrev PipeLog := Nat → Bytes

def PipeLog.add (log : PipeLog) (b : Nat) (bytes : Bytes) : PipeLog :=
  update log b (log b ++ bytes)

/-- The bytes that the writers of each pipe were told were written. -/
def StreamOp.sent (op : StreamOp K) (x : Streams K) (log : PipeLog) : PipeLog :=
  match op.transfer x, (op.run x).1 with
  | some (true, i, buf, _), .done (.ok n) => log.add (x.pipes i).born (bytesFrom x.mem.bytes buf n)
  | _, _ => log

/-- The bytes that the readers of each pipe found in their buffers. -/
def StreamOp.got (op : StreamOp K) (x : Streams K) (log : PipeLog) : PipeLog :=
  match op.transfer x, (op.run x).1 with
  | some (false, i, buf, _), .done (.ok n) =>
    log.add (x.pipes i).born (bytesFrom (op.run x).2.mem.bytes buf n)
  | _, _ => log

/-- The states that sequences of operations, each allowed by `ok` where it is made, lead to, with
the bytes sent to and got from every pipe on the way. -/
inductive StreamRuns (K : StreamConfig) (ok : Streams K → StreamOp K → Prop) :
    PipeLog → PipeLog → Streams K → Prop
  | boot (mem : Mem) (access : K.Task → Nat → Nat → Bool → Bool) (net : K.net.State)
      (drv : K.drv.State) :
      StreamRuns K ok (fun _ => []) (fun _ => []) (streamsBoot K mem access net drv)
  | step {sent got : PipeLog} {x : Streams K} (op : StreamOp K) (h : StreamRuns K ok sent got x)
      (hok : ok x op) : StreamRuns K ok (op.sent x sent) (op.got x got) (op.run x).2

/-! ## Ends -/

def Desc.pipeEnd (o : Desc K) : Option (Fin K.npipe × Bool) :=
  match o.slot with
  | .pipe i => some (i, o.rw)
  | _ => none

def pipeEnds (x : Streams K) (d : K.Ofd) : Option (Fin K.npipe × Bool) :=
  (x.ofds d).bind Desc.pipeEnd

theorem pipeEnds_congr (h : x'.ofds = x.ofds) : pipeEnds x' = pipeEnds x := by
  unfold pipeEnds
  rw [h]

theorem pipeEnds_update (x : Streams K) (d : K.Ofd) (o : Option (Desc K)) :
    pipeEnds { x with ofds := update x.ofds d o } =
      update (pipeEnds x) d (o.bind Desc.pipeEnd) := by
  funext e
  unfold pipeEnds
  by_cases he : e = d
  · subst he
    simp
  · simp [he]

/-! ## Steps -/

/-- What an operation does to the pipes. -/
inductive PipeStep (x : Streams K) (op : StreamOp K) (x' : Streams K) : Prop
  | elsewhere (hpipes : x'.pipes = x.pipes) (hends : pipeEnds x' = pipeEnds x)
      (hbirths : x.births ≤ x'.births) (hsent : ∀ log, op.sent x log = log)
      (hgot : ∀ log, op.got x log = log)
  | took (i : Fin K.npipe) (len : Nat) (bytes : Bytes)
      (hread : ((x.pipes i).tryRead len).1 = .ok bytes)
      (hpipes : x'.pipes = update x.pipes i ((x.pipes i).tryRead len).2)
      (hends : pipeEnds x' = pipeEnds x) (hbirths : x'.births = x.births)
      (hsent : ∀ log, op.sent x log = log)
      (hgot : ∀ log, op.got x log = log.add (x.pipes i).born bytes)
  | gave (i : Fin K.npipe) (bytes : Bytes) (n : Nat)
      (hwrite : ((x.pipes i).tryWrite bytes).1 = .ok n)
      (hpipes : x'.pipes = update x.pipes i ((x.pipes i).tryWrite bytes).2)
      (hends : pipeEnds x' = pipeEnds x) (hbirths : x'.births = x.births)
      (hsent : ∀ log, op.sent x log = log.add (x.pipes i).born (bytes.take n))
      (hgot : ∀ log, op.got x log = log)
  | opened (i : Fin K.npipe) (r w : K.Ofd) (hfree : (x.pipes i).used = false)
      (hr : pipeEnds x r = none) (hw : pipeEnds x w = none) (hrw : w ≠ r)
      (hpipes : x'.pipes = update x.pipes i { Pipe.zero K.pipeBuf with
        used := true, born := x.births, readers := 1, writers := 1 })
      (hends : pipeEnds x' = update (update (pipeEnds x) r (some (i, false))) w (some (i, true)))
      (hbirths : x'.births = x.births + 1) (hsent : ∀ log, op.sent x log = log)
      (hgot : ∀ log, op.got x log = log)
  | closed (d : K.Ofd) (i : Fin K.npipe) (w : Bool) (hd : pipeEnds x d = some (i, w))
      (hpipes : x'.pipes = (pipeEndClose i w x).pipes)
      (hends : pipeEnds x' = update (pipeEnds x) d none) (hbirths : x'.births = x.births)
      (hsent : ∀ log, op.sent x log = log) (hgot : ∀ log, op.got x log = log)

/-- The entry a call puts a new object into, if it gets that far. -/
def StreamOp.takes (x : Streams K) : StreamOp K → Option (Slot K)
  | .pipe _ _ _ _ => (firstFree fun i => (x.pipes i).used).map .pipe
  | .openMaster _ _ _ _ => (firstFree fun i => (x.ptys i).used).map .pty
  | .socket _ _ _ _ => (firstFree fun i => (x.socks i).used).map .sock
  | .openDevice _ _ _ _ _ => (firstFree fun i => (x.devs i).used).map .dev
  | .sock _ _ (.accept _ _ _ _) => (firstFree fun i => (x.socks i).used).map .sock
  | .retry s _ _ =>
    match (x.wait s).map Parked.call with
    | some (.socket .accept _ _ _) => (firstFree fun i => (x.socks i).used).map .sock
    | _ => none
  | _ => none

/-- What an operation does to the objects of the pools and to the tasks that wait for them. -/
structure LifeStep (x : Streams K) (op : StreamOp K) (x' : Streams K) : Prop where
  births : x.births ≤ x'.births
  occ : ∀ k, occupant x' k = occupant x k ∨ occupant x' k = none ∨
    op.takes x = some k ∧ occupant x k = none ∧ occupant x' k = some x.births ∧ x.births < x'.births
  wait : ∀ s, x'.wait s = x.wait s ∨ x'.wait s = none ∨
    ∃ w, x'.wait s = some w ∧ occupant x' w.call.slot = some w.born

/-- The read end of a pipe is open for reading and the write end for writing. -/
def Flags (x : Streams K) : Prop :=
  ∀ d o i, x.ofds d = some o → o.slot = .pipe i → o.reads = !o.rw ∧ o.writes = o.rw

structure OpStep (x : Streams K) (op : StreamOp K) (x' : Streams K) : Prop where
  pipes : PipeStep x op x'
  life : LifeStep x op x'
  flags : Flags x → Flags x'

/-! ## The ends of pipes are counted -/

/-- The rings are well formed, the counts of a pipe are the descriptions of its ends, and an entry
that is not in use is clear. -/
structure Ends (x : Streams K) : Prop where
  cap : ∀ i, (x.pipes i).ring.cap = K.pipeBuf
  wf : ∀ i, (x.pipes i).ring.Wf
  readers : ∀ i, (x.pipes i).readers = holders (pipeEnds x) (i, false)
  writers : ∀ i, (x.pipes i).writers = holders (pipeEnds x) (i, true)
  few : ∀ e, holders (pipeEnds x) e ≤ 1
  idle : ∀ i, (x.pipes i).used = false → x.pipes i = Pipe.zero K.pipeBuf
  young : ∀ i, (x.pipes i).used = true → (x.pipes i).born < x.births
  apart : ∀ i j, (x.pipes i).used = true → (x.pipes j).used = true →
    (x.pipes i).born = (x.pipes j).born → i = j

theorem Ends.used {α : Type} (h : Ends x) {i : Fin K.npipe} (f : Pipe → α)
    (hi : f (x.pipes i) ≠ f (Pipe.zero K.pipeBuf)) : (x.pipes i).used = true := by
  by_contra hused
  exact hi (by rw [h.idle i (by simpa using hused)])

/-! ## Putting steps together -/

/-- The operation moves no bytes of a pipe. -/
def StreamOp.Quiet (op : StreamOp K) (x : Streams K) : Prop :=
  op.transfer x = none ∨ ∀ n, (op.run x).1 ≠ .done (.ok n)

section Combine

variable {op : StreamOp K} {k : Slot K} {new : Bool}

theorem StreamOp.Quiet.ne (h : op.Quiet x) {t : Bool × Fin K.npipe × Nat × Nat}
    (ht : op.transfer x = some t) (n : Nat) : (op.run x).1 ≠ .done (.ok n) := by
  rcases h with h | h
  · rw [h] at ht
    cases ht
  · exact h n

theorem StreamOp.Quiet.sent_eq (h : op.Quiet x) (log : PipeLog) : op.sent x log = log := by
  unfold StreamOp.sent
  split
  · next ht hrun => exact absurd hrun (h.ne ht _)
  · rfl

theorem StreamOp.Quiet.got_eq (h : op.Quiet x) (log : PipeLog) : op.got x log = log := by
  unfold StreamOp.got
  split
  · next ht hrun => exact absurd hrun (h.ne ht _)
  · rfl

theorem Desc.pipeEnd_eq_none {o : Desc K} (hk : ∀ i, k ≠ .pipe i) (ho : o.slot = k) :
    o.pipeEnd = none := by
  unfold Desc.pipeEnd
  split
  · next i hi => exact absurd (ho.symm.trans hi) (hk i)
  · rfl

theorem Touch.pipeEnds_eq (h : Touch new k x x') (hk : ∀ i, k ≠ .pipe i) :
    pipeEnds x' = pipeEnds x := by
  funext d
  unfold pipeEnds
  rcases h.ofds d with hsame | ⟨hold, hnew⟩
  · rw [hsame]
  have hnone : ∀ {o : Option (Desc K)}, (∀ o', o = some o' → o'.slot = k) →
      o.bind Desc.pipeEnd = none := by
    intro o ho
    cases o with
    | none => rfl
    | some o => exact Desc.pipeEnd_eq_none hk (ho o rfl)
  rw [hnone hold, hnone hnew]

theorem Touch.life (h : Touch new k x x') (hnew : new = true → op.takes x = some k) :
    LifeStep x op x' where
  births := h.births
  occ j := by
    by_cases hj : j = k
    · rw [hj]
      rcases h.occ with hocc | hocc | ⟨htrue, hocc⟩
      · exact .inl hocc
      · exact .inr (.inl hocc)
      · exact .inr (.inr ⟨hnew htrue, hocc⟩)
    · exact .inl (h.toOutside.occupant_eq hj)
  wait s := .inl (congrFun h.wait s)

theorem PipeStep.congr {x'' : Streams K} (h : PipeStep x op x') (hpipes : x''.pipes = x'.pipes)
    (hends : pipeEnds x'' = pipeEnds x') (hbirths : x''.births = x'.births) :
    PipeStep x op x'' := by
  cases h with
  | elsewhere h1 h2 h3 h4 h5 =>
    exact .elsewhere (hpipes.trans h1) (hends.trans h2) (hbirths ▸ h3) h4 h5
  | took i len bytes h1 h2 h3 h4 h5 h6 =>
    exact .took i len bytes h1 (hpipes.trans h2) (hends.trans h3) (hbirths.trans h4) h5 h6
  | gave i bytes n h1 h2 h3 h4 h5 h6 =>
    exact .gave i bytes n h1 (hpipes.trans h2) (hends.trans h3) (hbirths.trans h4) h5 h6
  | opened i r w h1 h2 h3 h4 h5 h6 h7 h8 h9 =>
    exact .opened i r w h1 h2 h3 h4 (hpipes.trans h5) (hends.trans h6) (hbirths.trans h7) h8 h9
  | closed d i w h1 h2 h3 h4 h5 h6 =>
    exact .closed d i w h1 (hpipes.trans h2) (hends.trans h3) (hbirths.trans h4) h5 h6

namespace OpStep

theorem of_touch (h : Touch new k x x') (hnew : new = true → op.takes x = some k)
    (hk : ∀ i, k ≠ .pipe i) (hquiet : op.Quiet x) : OpStep x op x' where
  pipes := .elsewhere (h.toOutside.pipes_eq hk) (h.pipeEnds_eq hk) h.births hquiet.sent_eq
    hquiet.got_eq
  life := h.life hnew
  flags hflags d o i hd ho := by
    rcases h.ofds d with hsame | ⟨-, hslot⟩
    · exact hflags d o i (hsame ▸ hd) ho
    · exact absurd ((hslot o hd).symm.trans ho) (hk i)

theorem of_local (h : Local k x x') (hk : ∀ i, k ≠ .pipe i) (hquiet : op.Quiet x) :
    OpStep x op x' :=
  of_touch (h.touch : Touch false k x x') nofun hk hquiet

theorem congr {x'' : Streams K} (h : OpStep x op x') (hpipes : x''.pipes = x'.pipes)
    (hends : pipeEnds x'' = pipeEnds x') (hflags : Flags x' → Flags x'')
    (hbirths : x''.births = x'.births)
    (hocc : ∀ k, occupant x'' k = occupant x' k)
    (hwait : ∀ s, x''.wait s = x'.wait s ∨ x''.wait s = none ∨
      ∃ w, x''.wait s = some w ∧ occupant x' w.call.slot = some w.born) : OpStep x op x'' where
  pipes := h.pipes.congr hpipes hends hbirths
  life.births := hbirths ▸ h.life.births
  life.occ k := by
    rw [hocc, hbirths]
    exact h.life.occ k
  life.wait s := by
    rcases hwait s with hs | hs | ⟨w, hs, hw⟩
    · rw [hs]
      rcases h.life.wait s with h1 | h1 | ⟨w, h1, h2⟩
      · exact .inl h1
      · exact .inr (.inl h1)
      · exact .inr (.inr ⟨w, h1, (hocc _).trans h2⟩)
    · exact .inr (.inl hs)
    · exact .inr (.inr ⟨w, hs, (hocc _).trans hw⟩)
  flags hold := hflags (h.flags hold)

theorem same (hquiet : op.Quiet x) : OpStep x op x where
  pipes := .elsewhere rfl rfl (Nat.le_refl _) hquiet.sent_eq hquiet.got_eq
  life := ⟨Nat.le_refl _, fun _ => .inl rfl, fun _ => .inl rfl⟩
  flags := id

theorem of_fails {e : IoErrno} (hrun : op.run x = fails e x) : OpStep x op (op.run x).2 := by
  have hquiet : op.Quiet x := .inr fun n => by
    rw [hrun]
    exact nofun
  rw [hrun]
  exact same hquiet

theorem rest (h : OpStep x op x') {mem : Mem} {access : K.Task → Nat → Nat → Bool → Bool}
    {sigpipeIgnored exiting : K.Task → Bool} {net : K.net.State} {drv : K.drv.State} :
    OpStep x op { x' with
      mem := mem, access := access, sigpipeIgnored := sigpipeIgnored, exiting := exiting,
      net := net, drv := drv } :=
  h.congr rfl rfl id rfl (fun k => by cases k <;> rfl) fun _ => .inl rfl

theorem rewait (h : OpStep x op x') (s : K.Task) {w : Option (Parked K)}
    (hw : ∀ p, w = some p → occupant x' p.call.slot = some p.born) :
    OpStep x op { x' with wait := update x'.wait s w } := by
  refine h.congr rfl rfl id rfl (fun k => by cases k <;> rfl) fun t => ?_
  by_cases ht : t = s
  · subst ht
    cases w with
    | none => exact .inr (.inl (update_self ..))
    | some p => exact .inr (.inr ⟨p, update_self .., hw p rfl⟩)
  · exact .inl (update_of_ne ht ..)

theorem complete (h : OpStep x op x') (s : K.Task) : OpStep x op (waitComplete s x') :=
  h.rewait s nofun

theorem park (h : OpStep x op x') {call : IoWait K} {b : Nat}
    (hocc : occupant x' call.slot = some b) (s : K.Task) : OpStep x op (waitPark s call x').2 := by
  unfold waitPark
  split
  · exact h
  · refine h.rewait s ?_
    rintro p ⟨rfl⟩
    rw [hocc]
    rfl

theorem of_call {a : IoResult × Streams K} (h : CallStep s k x a) (hk : ∀ i, k ≠ .pipe i)
    (hquiet : op.Quiet x) : OpStep x op a.2 := by
  cases h with
  | done h => exact of_local h hk hquiet
  | parked h hslot hocc =>
    refine (of_local h hk hquiet).rewait s ?_
    rintro p ⟨rfl⟩
    rw [hslot, h.occ, hocc]

theorem sigpipe (h : OpStep x op x') (s : K.Task) (r : IoReply) : OpStep x op (sigpipe s r x') := by
  unfold Stream.sigpipe
  split
  · exact h.rest
  · exact h

end OpStep

end Combine

/-! ## Pipes -/

section PipeOps

variable {op : StreamOp K} {i : Fin K.npipe} {buf len : Nat}

theorem setPipe_self (i : Fin K.npipe) (x : Streams K) : setPipe i (x.pipes i) x = x := by
  unfold setPipe
  rw [update_eq_self]

theorem Pipe.tryRead_cases (pp : Pipe) (len : Nat) :
    0 < pp.writers ∧ pp.tryRead len = (.error .eagain, pp) ∨
    ∃ bytes, pp.tryRead len = (.ok bytes, (pp.tryRead len).2) := by
  unfold Pipe.tryRead
  by_cases hcount : pp.ring.count = 0
  · by_cases hwriters : 0 < pp.writers
    · exact .inl ⟨hwriters, by simp [hcount, hwriters]⟩
    · exact .inr ⟨[], by simp [hcount, hwriters]⟩
  · exact .inr ⟨(pp.ring.read len).1, by simp [hcount]⟩

theorem Pipe.tryWrite_cases (pp : Pipe) (bytes : Bytes) :
    pp.readers = 0 ∧ pp.tryWrite bytes = (.error .epipe, pp) ∨
    pp.readers ≠ 0 ∧ pp.tryWrite bytes = (.error .eagain, pp) ∨
    pp.readers ≠ 0 ∧ ∃ n, pp.tryWrite bytes = (.ok n, (pp.tryWrite bytes).2) := by
  unfold Pipe.tryWrite
  by_cases hreaders : pp.readers = 0
  · exact .inl ⟨hreaders, by simp [hreaders]⟩
  · by_cases hfull : pp.ring.count = pp.ring.cap
    · exact .inr (.inl ⟨hreaders, by simp [hreaders, hfull]⟩)
    · exact .inr (.inr ⟨hreaders, (pp.ring.write bytes).1, by simp [hreaders, hfull]⟩)

theorem Pipe.tryWrite_le {pp : Pipe} {bytes : Bytes} {n : Nat}
    (h : (pp.tryWrite bytes).1 = .ok n) : n ≤ bytes.length := by
  unfold Pipe.tryWrite at h
  split at h
  · cases h
  split at h
  · cases h
  · injection h with h
    rw [← h]
    exact Nat.min_le_left ..

theorem pipeTryRead_cases (i : Fin K.npipe) (buf len : Nat) (x : Streams K) :
    (x.pipes i).writers ≠ 0 ∧ pipeTryRead i buf len x = (.error .eagain, x) ∨
    ∃ bytes, ((x.pipes i).tryRead len).1 = .ok bytes ∧ pipeTryRead i buf len x =
      (.ok bytes.length, { setPipe i ((x.pipes i).tryRead len).2 x with
        mem := x.mem.write buf bytes }) := by
  unfold pipeTryRead
  rcases (x.pipes i).tryRead_cases len with ⟨hwriters, hread⟩ | ⟨bytes, hread⟩
  · refine .inl ⟨Nat.pos_iff_ne_zero.mp hwriters, ?_⟩
    rw [hread]
    simp only [setPipe_self]
  · refine .inr ⟨bytes, by rw [hread], ?_⟩
    rw [hread]

theorem pipeTryWrite_cases (i : Fin K.npipe) (buf len : Nat) (x : Streams K) :
    (x.pipes i).readers = 0 ∧ pipeTryWrite i buf len x = (.error .epipe, x) ∨
    (x.pipes i).readers ≠ 0 ∧ pipeTryWrite i buf len x = (.error .eagain, x) ∨
    (x.pipes i).readers ≠ 0 ∧ ∃ n,
      ((x.pipes i).tryWrite (bytesFrom x.mem.bytes buf len)).1 = .ok n ∧
      pipeTryWrite i buf len x =
        (.ok n, setPipe i ((x.pipes i).tryWrite (bytesFrom x.mem.bytes buf len)).2 x) := by
  unfold pipeTryWrite
  rcases (x.pipes i).tryWrite_cases (bytesFrom x.mem.bytes buf len) with
    ⟨hreaders, hwrite⟩ | ⟨hreaders, hwrite⟩ | ⟨hreaders, n, hwrite⟩
  · refine .inl ⟨hreaders, ?_⟩
    rw [hwrite]
    simp only [setPipe_self]
  · refine .inr (.inl ⟨hreaders, ?_⟩)
    rw [hwrite]
    simp only [setPipe_self]
  · refine .inr (.inr ⟨hreaders, n, by rw [hwrite], ?_⟩)
    rw [hwrite]

theorem OpStep.took (htransfer : op.transfer x = some (false, i, buf, len)) {bytes : Bytes}
    (hread : ((x.pipes i).tryRead len).1 = .ok bytes)
    (hrun : (op.run x).1 = .done (.ok bytes.length))
    (hmem : (op.run x).2.mem = x.mem.write buf bytes) :
    OpStep x op { setPipe i ((x.pipes i).tryRead len).2 x with mem := x.mem.write buf bytes } where
  pipes := by
    refine .took i len bytes hread rfl rfl rfl (fun log => ?_) fun log => ?_
    · unfold StreamOp.sent
      rw [htransfer]
    · unfold StreamOp.got
      rw [htransfer, hrun]
      simp only [hmem, bytesFrom_write]
  life := by
    have hlocal := pipeTryRead_local i buf len x
    rcases pipeTryRead_cases i buf len x with ⟨-, hagain⟩ | ⟨bytes', hread', hok⟩
    · unfold pipeTryRead at hagain
      rw [← Prod.eta ((x.pipes i).tryRead len), hread] at hagain
      cases hagain
    obtain rfl : bytes = bytes' := by
      rw [hread] at hread'
      injection hread'
    rw [hok] at hlocal
    exact (hlocal.touch : Touch false _ _ _).life nofun
  flags := id

theorem OpStep.gave (htransfer : op.transfer x = some (true, i, buf, len)) {n : Nat}
    (hwrite : ((x.pipes i).tryWrite (bytesFrom x.mem.bytes buf len)).1 = .ok n)
    (hrun : (op.run x).1 = .done (.ok n)) :
    OpStep x op (setPipe i ((x.pipes i).tryWrite (bytesFrom x.mem.bytes buf len)).2 x) where
  pipes := by
    refine .gave i _ n hwrite rfl rfl rfl (fun log => ?_) fun log => ?_
    · have hn := Pipe.tryWrite_le hwrite
      rw [bytesFrom_length] at hn
      unfold StreamOp.sent
      rw [htransfer, hrun]
      simp only [bytesFrom_take, Nat.min_eq_left hn]
    · unfold StreamOp.got
      rw [htransfer]
  life := ((pipeTryWrite_local i buf len x).touch : Touch false _ _ _).life nofun
  flags := id

theorem occupant_pipe (h : (x.pipes i).used = true) :
    occupant x (.pipe i) = some (x.pipes i).born := by
  simp [occupant, h]

theorem waitPark_ne (s : K.Task) (call : IoWait K) (x : Streams K) (n : Nat) :
    (waitPark s call x).1 ≠ .done (.ok n) := by
  unfold waitPark
  split <;> exact nofun

theorem OpStep.of_park {nonblock : Bool} {call : IoWait K} {b : Nat}
    (heq : op.run x = if nonblock then fails .eagain x else waitPark s call x)
    (hocc : occupant x call.slot = some b) : OpStep x op (op.run x).2 := by
  split at heq
  · exact .of_fails heq
  · rw [heq]
    refine (OpStep.same (.inr fun n => ?_)).park hocc s
    rw [heq]
    exact waitPark_ne s _ x n

theorem fopReadPipe_step (h : Ends x) {o : Desc K}
    (htransfer : op.transfer x = some (false, i, buf, len))
    (hrun : op.run x = fopReadPipe s o i buf len x) : OpStep x op (op.run x).2 := by
  by_cases hrw : o.rw = true
  · exact .of_fails (hrun.trans (if_pos hrw))
  rcases pipeTryRead_cases i buf len x with ⟨hwriters, hread⟩ | ⟨bytes, hbytes, hread⟩
  · have heq : op.run x =
        if o.nonblock then fails .eagain x else waitPark s (.pipe false i buf len) x := by
      rw [hrun, fopReadPipe, if_neg hrw, hread]
      rfl
    exact .of_park heq (occupant_pipe (h.used Pipe.writers hwriters))
  have heq : op.run x = (.done (.ok bytes.length),
      { setPipe i ((x.pipes i).tryRead len).2 x with mem := x.mem.write buf bytes }) := by
    rw [hrun, fopReadPipe, if_neg hrw, hread]
    rfl
  rw [heq]
  exact .took htransfer hbytes (by rw [heq]) (by rw [heq])

theorem fopWritePipe_step (h : Ends x) {o : Desc K}
    (htransfer : op.transfer x = some (true, i, buf, len))
    (hrun : op.run x = fopWritePipe s o i buf len x) : OpStep x op (op.run x).2 := by
  by_cases hrw : (!o.rw) = true
  · exact .of_fails (hrun.trans (if_pos hrw))
  rcases pipeTryWrite_cases i buf len x with
    ⟨-, hwrite⟩ | ⟨hreaders, hwrite⟩ | ⟨-, n, hn, hwrite⟩
  · have heq : op.run x = (.done (.error .epipe), sigpipe s (.error .epipe) x) := by
      rw [hrun, fopWritePipe, if_neg hrw, hwrite]
      rfl
    have hsame : OpStep x op x := .same (.inr fun n => by rw [heq]; exact nofun)
    rw [heq]
    exact hsame.sigpipe s _
  · have heq : op.run x =
        if o.nonblock then fails .eagain x else waitPark s (.pipe true i buf len) x := by
      rw [hrun, fopWritePipe, if_neg hrw, hwrite]
      rfl
    exact .of_park heq (occupant_pipe (h.used Pipe.readers hreaders))
  · have heq : op.run x = (.done (.ok n),
        setPipe i ((x.pipes i).tryWrite (bytesFrom x.mem.bytes buf len)).2 x) := by
      rw [hrun, fopWritePipe, if_neg hrw, hwrite]
      rfl
    rw [heq]
    exact .gave htransfer hn (by rw [heq])

theorem pipeEndOpen_eq {writeEnd : Bool} {pp : Pipe} (hi : x.pipes i = pp) (hused : pp.used = true)
    (hfirst : (if writeEnd then pp.writers else pp.readers) = 0) : pipeEndOpen i writeEnd x =
      setPipe i (if writeEnd then { pp with writers := 1 } else { pp with readers := 1 }) x := by
  unfold pipeEndOpen
  cases writeEnd <;> simp_all [endsMax]

/-- `pipe2` fails and leaves everything as it was, save for the number a pipe had for a moment, or
there is a new pipe with two ends. -/
theorem sysPipe_cases (h : Ends x) (s : K.Task) (fds room : Nat) (nonblock : Bool) :
    (∃ e, sysPipe s fds room nonblock x = fails e x) ∨
    (∃ e, sysPipe s fds room nonblock x = fails e { x with births := x.births + 1 }) ∨
    ∃ i r w, (firstFree fun i => (x.pipes i).used) = some i ∧ x.ofds r = none ∧ x.ofds w = none ∧
      w ≠ r ∧ sysPipe s fds room nonblock x = (.done (.ok 0), { x with
        pipes := update x.pipes i { Pipe.zero K.pipeBuf with
          used := true, born := x.births, readers := 1, writers := 1 }
        ofds := update (update x.ofds r (some (pipeEnd i false nonblock))) w
          (some (pipeEnd i true nonblock))
        births := x.births + 1 }) := by
  unfold sysPipe
  split
  · exact .inl ⟨_, rfl⟩
  unfold pipeAlloc
  cases hfree : firstFree fun i => (x.pipes i).used with
  | none => exact .inl ⟨_, rfl⟩
  | some i =>
    have hidle := h.idle i (firstFree_free hfree)
    -- Clearing the entry again gives the pipes that were there.
    have hcleared : ∀ pp, update (update x.pipes i pp) i (Pipe.zero K.pipeBuf) = x.pipes := by
      intro pp
      rw [update_idem, ← hidle, update_eq_self]
    have hdiscard : pipeDiscard i { setPipe i { Pipe.zero K.pipeBuf with
          used := true, born := x.births } x with births := x.births + 1 } =
        { x with births := x.births + 1 } := by
      unfold pipeDiscard
      rw [if_pos (by simp [setPipe, Pipe.zero])]
      simp only [setPipe, hcleared]
    right
    dsimp only
    split
    · exact .inl ⟨_, by rw [hdiscard]⟩
    split
    · exact .inl ⟨_, by rw [hdiscard]⟩
    rename_i r x1 hopen
    obtain ⟨hr, rfl⟩ := fdOpen_eq hopen
    rw [pipeEndOpen_eq (update_self ..) rfl rfl]
    split
    · refine .inl ⟨.emfile, congrArg (fails _) ?_⟩
      have hr : x.ofds r = none := hr
      simp only [pipeEndClose, setPipe, update_self, Bool.not_true, Bool.false_eq_true,
        if_false, Pipe.dropEnd]
      rw [if_pos ⟨trivial, rfl⟩]
      simp only [update_idem, ← hidle, update_eq_self, ← hr]
    rename_i w x2 hopen2
    obtain ⟨hw, rfl⟩ := fdOpen_eq hopen2
    rw [pipeEndOpen_eq (update_self ..) rfl rfl]
    have hwr : w ≠ r := by
      intro heq
      rw [heq] at hw
      exact absurd hw (by simp [setPipe])
    refine .inr ⟨i, r, w, rfl, hr, ?_, hwr, ?_⟩
    · simpa [setPipe, hwr] using hw
    · simp only [setPipe, update_idem]
      rfl

theorem sysPipe_step (h : Ends x) (s : K.Task) (fds room : Nat) (nonblock : Bool) :
    OpStep x (.pipe s fds room nonblock) (sysPipe s fds room nonblock x).2 := by
  have hquiet : (StreamOp.pipe s fds room nonblock).Quiet x := .inl rfl
  rcases sysPipe_cases h s fds room nonblock with
    ⟨e, heq⟩ | ⟨e, heq⟩ | ⟨i, r, w, hfree, hr, hw, hwr, heq⟩ <;> rw [heq]
  · exact .same hquiet
  · refine ⟨.elsewhere rfl rfl (Nat.le_succ _) hquiet.sent_eq hquiet.got_eq,
      ⟨Nat.le_succ _, fun k => .inl ?_, fun _ => .inl rfl⟩, id⟩
    cases k <;> rfl
  have hunused := firstFree_free hfree
  have hnone : ∀ {d}, x.ofds d = none → pipeEnds x d = none := by
    intro d hd
    rw [pipeEnds, hd]
    rfl
  refine ⟨.opened i r w hunused (hnone hr) (hnone hw) hwr rfl ?_ rfl hquiet.sent_eq
    hquiet.got_eq, ⟨Nat.le_succ _, fun k => ?_, fun _ => .inl rfl⟩,
    fun hflags d o j hd ho => ?_⟩
  · funext d
    simp only [pipeEnds, update_apply]
    split
    · rfl
    · split <;> rfl
  · by_cases hk : k = .pipe i
    · subst hk
      refine .inr (.inr ⟨?_, by simp [occupant, hunused], by simp [occupant], Nat.lt_succ_self _⟩)
      rw [StreamOp.takes, hfree]
      rfl
    · exact .inl ((Outside.setPipe i _ x).occupant_eq hk)
  simp only [update_apply] at hd
  split at hd
  · cases hd
    exact ⟨rfl, rfl⟩
  · split at hd
    · cases hd
      exact ⟨rfl, rfl⟩
    · exact hflags d o j hd ho

theorem pipeEndClose_touch (i : Fin K.npipe) (writeEnd : Bool) (x : Streams K) :
    Touch false (.pipe i) x (pipeEndClose i writeEnd x) := by
  have hkeeps : ((x.pipes i).dropEnd writeEnd).used = (x.pipes i).used ∧
      ((x.pipes i).dropEnd writeEnd).born = (x.pipes i).born := by
    unfold Pipe.dropEnd
    split <;> exact ⟨rfl, rfl⟩
  unfold pipeEndClose
  dsimp only
  split
  · exact Touch.refl ..
  refine (Touch.refl false (.pipe i) x).andThen (Outside.setPipe i _ x) ?_ (fun _ => .inl rfl)
    rfl rfl
  split
  · exact .inr (by simp [occupant, setPipe, Pipe.zero])
  · exact .inl (by simp [occupant, setPipe, hkeeps])

end PipeOps

/-! ## Every operation is such a step -/

theorem fopClose_touch (o : Desc K) (x : Streams K) : Touch false o.slot x (fopClose o x) := by
  unfold fopClose
  cases ho : o.slot with
  | pipe i => exact pipeEndClose_touch i o.rw x
  | pty i => exact ptyEndClose_touch i o.rw x
  | sock i => exact sockClose_touch i x
  | dev i => exact (Touch.refl false (.dev i) x).devClose

theorem fopClose_ofds (o : Desc K) (x : Streams K) : (fopClose o x).ofds = x.ofds := by
  unfold fopClose
  split
  · unfold pipeEndClose
    dsimp only
    split <;> rfl
  · unfold ptyEndClose
    dsimp only
    split <;> rfl
  · unfold sockClose
    dsimp only
    split <;> rfl
  unfold devClose
  dsimp only
  split
  · rfl
  · split <;> rfl

theorem ofdClose_step (d : K.Ofd) (x : Streams K) : OpStep x (.close d) (ofdClose d x).2 := by
  have hquiet : (StreamOp.close d).Quiet x := .inl rfl
  unfold ofdClose
  split
  · exact .same hquiet
  rename_i o hd
  have htouch : Touch false o.slot x { fopClose o x with ofds := update x.ofds d none } := by
    refine (fopClose_touch o x).andThen (.same rfl rfl rfl rfl) (.inl ?_) (fun e => ?_) rfl rfl
    · cases o.slot <;> rfl
    rw [fopClose_ofds]
    by_cases he : e = d
    · subst he
      refine .inr ⟨fun o' ho' => ?_, fun o' ho' => ?_⟩
      · rw [hd] at ho'
        rw [Option.some.inj ho']
      · simp at ho'
    · exact .inl (update_of_ne he ..)
  by_cases hpipe : ∃ i, o.slot = .pipe i
  · obtain ⟨i, hi⟩ := hpipe
    have hend : o.pipeEnd = some (i, o.rw) := by
      unfold Desc.pipeEnd
      rw [hi]
    have hclose : fopClose o x = pipeEndClose i o.rw x := by
      unfold fopClose
      rw [hi]
    have hbirths : (pipeEndClose i o.rw x).births = x.births := by
      unfold pipeEndClose
      dsimp only
      split <;> rfl
    refine ⟨.closed d i o.rw ?_ ?_ ?_ ?_ hquiet.sent_eq hquiet.got_eq, htouch.life nofun,
      fun hflags e o' j he ho' => ?_⟩
    · rw [pipeEnds, hd]
      exact hend
    · rw [hclose]
    · exact pipeEnds_update x d none
    · rw [hclose]
      exact hbirths
    · simp only [update_apply] at he
      split at he
      · cases he
      · exact hflags e o' j he ho'
  · exact .of_touch htouch nofun (fun i hi => hpipe ⟨i, hi⟩) hquiet

theorem setfl_local (o : Desc K) (nonblock : Bool) (x : Streams K) :
    Local o.slot x (setfl o nonblock x) := by
  unfold setfl
  cases o.slot with
  | pipe i => exact .refl _ x
  | pty i =>
    refine Local.setPty ?_ ?_ <;>
    · unfold Pty.setfl
      split_ifs <;> rfl
  | sock i =>
    dsimp only
    split
    · exact Local.setSock rfl rfl
    · exact .refl _ x
  | dev i =>
    dsimp only
    split
    · exact Local.setDev rfl rfl
    · exact .refl _ x

theorem setfl_pipes (o : Desc K) (nonblock : Bool) (x : Streams K) :
    (setfl o nonblock x).pipes = x.pipes := by
  unfold setfl
  split
  · rfl
  · rfl
  · split <;> rfl
  · split <;> rfl

theorem sysSetfl_step (d : K.Ofd) (nonblock : Bool) (x : Streams K) :
    OpStep x (.setfl d nonblock) (sysSetfl d nonblock x).2 := by
  have hquiet : (StreamOp.setfl d nonblock).Quiet x := .inl rfl
  unfold sysSetfl
  split
  · exact .same hquiet
  rename_i o hd
  generalize hx1 : ({ x with ofds := update x.ofds d (some { o with nonblock := nonblock }) } :
    Streams K) = x1
  have hlocal := setfl_local o nonblock x1
  have hends : pipeEnds x1 = pipeEnds x := by
    have hsame : (some { o with nonblock := nonblock }).bind Desc.pipeEnd = pipeEnds x d := by
      rw [pipeEnds, hd]
      rfl
    rw [← hx1, pipeEnds_update, hsame, update_eq_self]
  refine (OpStep.same hquiet).congr ?_ ((pipeEnds_congr hlocal.ofds).trans hends)
    (fun hflags e o' j he ho' => ?_) ?_ (fun k => ?_) fun s => .inl ?_
  · rw [setfl_pipes, ← hx1]
  · rw [hlocal.ofds, ← hx1] at he
    simp only [update_apply] at he
    split at he
    · cases he
      exact hflags d o j hd ho'
    · exact hflags e o' j he ho'
  · rw [hlocal.births, ← hx1]
  · rw [hlocal.occupant_eq, ← hx1]
    cases k <;> rfl
  · rw [hlocal.wait, ← hx1]

theorem ptyIoctl_local (i : Fin K.npty) (call : PtyIoctl) (x : Streams K) :
    Local (.pty i) x (ptyIoctl i call x).2 := by
  unfold ptyIoctl
  dsimp only
  split
  · exact .refl _ x
  · cases call <;> exact Local.setPty rfl rfl

theorem sysPtyIoctl_step (d : K.Ofd) (call : PtyIoctl) (x : Streams K) :
    OpStep x (.ptyIoctl d call) (sysPtyIoctl d call x).2 := by
  have hquiet : (StreamOp.ptyIoctl d call).Quiet x := .inl rfl
  unfold sysPtyIoctl
  split
  · next i _ => exact .of_local (ptyIoctl_local i call x) nofun hquiet
  · exact .same hquiet

section Calls

variable {op : StreamOp K}

theorem sockAccept_step {i : Fin K.nsock} {uaddr uaddrlen : Nat} {nonblock room : Bool}
    (htakes : op.takes x = (firstFree fun i => (x.socks i).used).map .sock) (hquiet : op.Quiet x) :
    OpStep x op (sockAccept s i uaddr uaddrlen nonblock room x).2 := by
  unfold sockAccept
  dsimp only
  split
  · exact .same hquiet
  rename_i hused
  split
  · exact .same hquiet
  have hocc := occupant_sock hused
  -- The listening socket is in use, so it is not the entry that is taken.
  have haccept : OpStep x op (doAccept s i uaddr uaddrlen nonblock room x).2 ∧
      occupant (doAccept s i uaddr uaddrlen nonblock room x).2 (.sock i) =
        some (x.socks i).born := by
    rcases doAccept_touch s i uaddr uaddrlen nonblock room x with ⟨e, heq⟩ | ⟨c, hc, htouch⟩
    · rw [heq]
      exact ⟨.same hquiet, hocc⟩
    have hic : Slot.sock i ≠ .sock c := by
      rintro ⟨rfl⟩
      simp [firstFree_free hc] at hused
    rw [htouch.toOutside.occupant_eq hic]
    exact ⟨.of_touch htouch (fun _ => by rw [htakes, hc]; rfl) nofun hquiet, hocc⟩
  generalize doAccept s i uaddr uaddrlen nonblock room x = a at haccept
  obtain ⟨r, x1⟩ := a
  unfold parkOn
  split
  · rename_i heq
    cases heq
    split
    · exact haccept.1
    · have hthere : occupant x1 (IoWait.socket .accept i uaddr uaddrlen).slot =
          some (x.socks i).born := haccept.2
      exact haccept.1.park hthere s
  · rename_i heq
    cases heq
    exact haccept.1

theorem sysSock_step (s : K.Task) (d : K.Ofd) (call : SockCall) (x : Streams K) :
    OpStep x (.sock s d call) (sysSock s d call x).2 := by
  have hquiet : (StreamOp.sock s d call).Quiet x := .inl rfl
  unfold sysSock
  split
  · cases call with
    | connect uaddr addrlen => exact .of_call (sockConnect_step uaddr addrlen) nofun hquiet
    | accept uaddr uaddrlen nonblock room => exact sockAccept_step rfl hquiet
    | send buf len dontwait udest destlen => exact .of_call (sockSend_step ..) nofun hquiet
    | recv buf len dontwait usrc usrclen => exact .of_call (sockRecv_step ..) nofun hquiet
  · exact .same hquiet

theorem sysDevice_opStep (s : K.Task) (d : K.Ofd) (call : DevCall) (x : Streams K) :
    OpStep x (.device s d call) (sysDevice s d call x).2 := by
  have hquiet : (StreamOp.device s d call).Quiet x := .inl rfl
  rcases sysDevice_step d call with ⟨i, hstep⟩ | ⟨e, heq⟩
  · exact .of_call hstep nofun hquiet
  · rw [heq]
    exact .same hquiet

theorem sysRead_step (h : Ends x) (s : K.Task) (d : K.Ofd) (buf len : Nat) :
    OpStep x (.read s d buf len) (sysRead s d buf len x).2 := by
  cases hd : x.ofds d with
  | none => exact .of_fails (by rw [StreamOp.run, sysRead, hd])
  | some o =>
    by_cases haccess : (!x.access s buf len true) = true
    · exact .of_fails (by rw [StreamOp.run, sysRead, hd]; exact if_pos haccess)
    by_cases hreads : (!o.reads) = true
    · refine .of_fails (e := .ebadf) ?_
      rw [StreamOp.run, sysRead, hd]
      exact (if_neg haccess).trans (if_pos hreads)
    by_cases hpipe : ∃ i, o.slot = .pipe i
    · obtain ⟨i, hi⟩ := hpipe
      have htransfer : (StreamOp.read s d buf len).transfer x = some (false, i, buf, len) := by
        simp [StreamOp.transfer, hd, hi]
      have hrun : (StreamOp.read s d buf len).run x = fopReadPipe s o i buf len x := by
        simp [StreamOp.run, sysRead, hd, haccess, hreads, hi]
      exact fopReadPipe_step h htransfer hrun
    have hquiet : (StreamOp.read s d buf len).Quiet x := by
      refine .inl ?_
      simp only [StreamOp.transfer, hd]
      split
      · next i hi => exact absurd ⟨i, Option.some.inj hi⟩ hpipe
      · rfl
    unfold sysRead
    rw [hd]
    simp only [haccess, hreads]
    cases hi : o.slot with
    | pipe i => exact absurd ⟨i, hi⟩ hpipe
    | pty i => exact .of_call (fopReadPty_step o i buf len) nofun hquiet
    | sock i => exact .of_call (sockRecv_step buf len false 0 0) nofun hquiet
    | dev i => exact .of_call (devRead_step buf len) nofun hquiet

theorem sysWrite_step (h : Ends x) (s : K.Task) (d : K.Ofd) (buf len : Nat) :
    OpStep x (.write s d buf len) (sysWrite s d buf len x).2 := by
  cases hd : x.ofds d with
  | none => exact .of_fails (by rw [StreamOp.run, sysWrite, hd])
  | some o =>
    by_cases haccess : (!x.access s buf len false) = true
    · exact .of_fails (by rw [StreamOp.run, sysWrite, hd]; exact if_pos haccess)
    by_cases hwrites : (!o.writes) = true
    · refine .of_fails (e := .ebadf) ?_
      rw [StreamOp.run, sysWrite, hd]
      exact (if_neg haccess).trans (if_pos hwrites)
    by_cases hpipe : ∃ i, o.slot = .pipe i
    · obtain ⟨i, hi⟩ := hpipe
      have htransfer : (StreamOp.write s d buf len).transfer x = some (true, i, buf, len) := by
        simp [StreamOp.transfer, hd, hi]
      have hrun : (StreamOp.write s d buf len).run x = fopWritePipe s o i buf len x := by
        simp [StreamOp.run, sysWrite, hd, haccess, hwrites, hi]
      exact fopWritePipe_step h htransfer hrun
    have hquiet : (StreamOp.write s d buf len).Quiet x := by
      refine .inl ?_
      simp only [StreamOp.transfer, hd]
      split
      · next i hi => exact absurd ⟨i, Option.some.inj hi⟩ hpipe
      · rfl
    unfold sysWrite
    rw [hd]
    simp only [haccess, hwrites]
    cases hi : o.slot with
    | pipe i => exact absurd ⟨i, hi⟩ hpipe
    | pty i => exact .of_call (fopWritePty_step o i buf len) nofun hquiet
    | sock i => exact .of_call (sockSend_step buf len false 0 0) nofun hquiet
    | dev i => exact .of_call (devWrite_step buf len) nofun hquiet

end Calls

section Retries

variable {w : Parked K}

theorem sockRetry_touch (s : K.Task) (op : SockWait) (i : Fin K.nsock) (buf len : Nat)
    (room : Bool) (x : Streams K) : Local (.sock i) x (sockRetry s op i buf len room x).2 ∨
    op = .accept ∧ ∃ c, (firstFree fun i => (x.socks i).used) = some c ∧
      Touch true (.sock c) x (sockRetry s op i buf len room x).2 := by
  unfold sockRetry
  dsimp only
  split
  · exact .inl (.refl _ x)
  cases op with
  | connect => exact .inl (sockConnectPoll_local i x)
  | send => exact .inl (sockTrySend_local i buf len none x)
  | recv => exact .inl (sockTryRecv_local i buf len _ _ x)
  | accept =>
    rcases doAccept_touch s i buf len false room x with ⟨e, heq⟩ | htouch
    · refine .inl ?_
      simp only [heq]
      exact .refl _ x
    · exact .inr ⟨rfl, htouch⟩

theorem retry_eq (room : Bool) (mapped : IoReply) (hw : x.wait s = some w)
    (hmmap : ∀ phys len attrs i, w.call ≠ .device (.mmap phys len attrs) i) :
    retry s room mapped x = match attempt s room w.call x with
      | (.error .eagain, x) => (.parked, x)
      | (r, x) => (.done r, (if w.call.isPipe then sigpipe s r else id) (waitComplete s x)) := by
  unfold retry
  rw [hw]
  split
  · next h => cases h
  · rename_i h
    cases h
    exact absurd rfl (hmmap _ _ _ _)
  · rename_i h
    cases h
    rfl

theorem retry_step_of_touch {room : Bool} {mapped : IoReply} {new : Bool} {k : Slot K}
    (hw : x.wait s = some w) (hmmap : ∀ phys len attrs i, w.call ≠ .device (.mmap phys len attrs) i)
    (hpipe : w.call.isPipe = false) (htouch : Touch new k x (attempt s room w.call x).2)
    (hk : ∀ i, k ≠ .pipe i) (hnew : new = true → (StreamOp.retry s room mapped).takes x = some k) :
    OpStep x (.retry s room mapped) (retry s room mapped x).2 := by
  have hquiet : (StreamOp.retry s room mapped).Quiet x := by
    refine .inl ?_
    simp only [StreamOp.transfer, hw]
    split
    · rename_i hcall
      rw [Option.some.inj hcall] at hpipe
      cases hpipe
    · rfl
  have hstep : OpStep x (.retry s room mapped) (attempt s room w.call x).2 :=
    .of_touch htouch hnew hk hquiet
  rw [retry_eq room mapped hw hmmap, hpipe]
  generalize attempt s room w.call x = a at hstep
  obtain ⟨r, x1⟩ := a
  split
  · rename_i heq
    cases heq
    exact hstep
  · rename_i heq
    cases heq
    exact hstep.complete s

theorem sigpipe_ok (s : K.Task) (n : Nat) (x : Streams K) : sigpipe s (.ok n) x = x :=
  if_neg fun h => nomatch h.1

theorem retryRead_step {i : Fin K.npipe} {buf len b : Nat} (room : Bool) (mapped : IoReply)
    (hw : x.wait s = some ⟨.pipe false i buf len, b⟩) :
    OpStep x (.retry s room mapped) (retry s room mapped x).2 := by
  have heq := retry_eq room mapped hw nofun
  simp only [attempt] at heq
  rcases pipeTryRead_cases i buf len x with ⟨-, hread⟩ | ⟨bytes, hbytes, hread⟩
  · have hrun : (StreamOp.retry s room mapped).run x = (.parked, x) := by
      rw [StreamOp.run, heq, hread]
    rw [heq, hread]
    exact .same (.inr fun n => by rw [hrun]; exact nofun)
  have hrun : (StreamOp.retry s room mapped).run x = (.done (.ok bytes.length), waitComplete s
      { setPipe i ((x.pipes i).tryRead len).2 x with mem := x.mem.write buf bytes }) := by
    rw [StreamOp.run, heq, hread]
    exact congrArg (Prod.mk _) (sigpipe_ok s bytes.length _)
  have htransfer : (StreamOp.retry s room mapped).transfer x = some (false, i, buf, len) := by
    simp [StreamOp.transfer, hw]
  have hstep := OpStep.took htransfer hbytes (by rw [hrun]) (by rw [hrun]; rfl)
  show OpStep x _ ((StreamOp.retry s room mapped).run x).2
  rw [hrun]
  exact hstep.complete s

theorem retryWrite_step {i : Fin K.npipe} {buf len b : Nat} (room : Bool) (mapped : IoReply)
    (hw : x.wait s = some ⟨.pipe true i buf len, b⟩) :
    OpStep x (.retry s room mapped) (retry s room mapped x).2 := by
  have heq := retry_eq room mapped hw nofun
  simp only [attempt] at heq
  show OpStep x _ ((StreamOp.retry s room mapped).run x).2
  rcases pipeTryWrite_cases i buf len x with
    ⟨-, hwrite⟩ | ⟨-, hwrite⟩ | ⟨-, n, hn, hwrite⟩
  · have hrun : (StreamOp.retry s room mapped).run x =
        (.done (.error .epipe), sigpipe s (.error .epipe) (waitComplete s x)) := by
      rw [StreamOp.run, heq, hwrite]
      rfl
    have hstep : OpStep x (.retry s room mapped) (waitComplete s x) :=
      (OpStep.same (.inr fun n => by rw [hrun]; exact nofun)).complete s
    rw [hrun]
    exact hstep.sigpipe s _
  · have hrun : (StreamOp.retry s room mapped).run x = (.parked, x) := by
      rw [StreamOp.run, heq, hwrite]
    have hstep : OpStep x (.retry s room mapped) x :=
      .same (.inr fun n => by rw [hrun]; exact nofun)
    rw [hrun]
    exact hstep
  have hrun : (StreamOp.retry s room mapped).run x = (.done (.ok n), waitComplete s
      (setPipe i ((x.pipes i).tryWrite (bytesFrom x.mem.bytes buf len)).2 x)) := by
    rw [StreamOp.run, heq, hwrite]
    exact congrArg (Prod.mk _) (sigpipe_ok s n _)
  have htransfer : (StreamOp.retry s room mapped).transfer x = some (true, i, buf, len) := by
    simp [StreamOp.transfer, hw]
  have hstep := OpStep.gave htransfer hn (by rw [hrun])
  rw [hrun]
  exact hstep.complete s

theorem retry_step (s : K.Task) (room : Bool) (mapped : IoReply) (x : Streams K) :
    OpStep x (.retry s room mapped) (retry s room mapped x).2 := by
  cases hw : x.wait s with
  | none => exact .of_fails (by rw [StreamOp.run, retry, hw])
  | some w =>
    obtain ⟨call, b⟩ := w
    cases call with
    | pipe write i buf len =>
      cases write with
      | false => exact retryRead_step room mapped hw
      | true => exact retryWrite_step room mapped hw
    | pty master write i buf len =>
      have hlocal : Local (.pty i) x (attempt s room (.pty master write i buf len) x).2 := by
        cases write with
        | false => exact ptyRead_local i master buf len x
        | true => exact ptyWrite_local i master buf len x
      exact retry_step_of_touch hw nofun rfl (hlocal.touch : Touch false _ _ _) nofun nofun
    | socket op i buf len =>
      rcases sockRetry_touch s op i buf len room x with hlocal | ⟨rfl, c, hc, htouch⟩
      · exact retry_step_of_touch hw nofun rfl (hlocal.touch : Touch false _ _ _) nofun nofun
      · refine retry_step_of_touch hw nofun rfl htouch nofun fun _ => ?_
        simp [StreamOp.takes, hw, hc]
    | device req i =>
      by_cases hmmap : ∃ phys len attrs, req = .mmap phys len attrs
      · obtain ⟨phys, len, attrs, rfl⟩ := hmmap
        have hquiet : (StreamOp.retry s room mapped).Quiet x := by
          refine .inl ?_
          simp [StreamOp.transfer, hw]
        unfold retry
        rw [hw]
        exact (OpStep.same hquiet).complete s
      · refine retry_step_of_touch hw (fun phys len attrs j heq => ?_) rfl
          ((devAttempt_local s req i x).touch : Touch false _ _ _) nofun nofun
        injection heq with hreq
        exact hmmap ⟨phys, len, attrs, hreq⟩

end Retries

/-- Every operation is a step of the kind described above. -/
theorem StreamOp.run_step (h : Ends x) (op : StreamOp K) : OpStep x op (op.run x).2 := by
  cases op with
  | pipe s fds room nonblock => exact sysPipe_step h s fds room nonblock
  | openMaster room nonblock reads writes =>
    rcases openMaster_touch room nonblock reads writes x with ⟨e, heq⟩ | ⟨i, hi, htouch⟩
    · exact .of_fails heq
    · exact .of_touch htouch (fun _ => by rw [StreamOp.takes, hi]; rfl) nofun (.inl rfl)
  | openSlave num room nonblock reads writes =>
    rcases openSlave_touch num room nonblock reads writes x with ⟨e, heq⟩ | ⟨i, htouch⟩
    · exact .of_fails heq
    · exact .of_touch htouch nofun nofun (.inl rfl)
  | socket type protocol room nonblock =>
    rcases sysSocket_touch type protocol room nonblock x with ⟨e, heq⟩ | ⟨i, hi, htouch⟩
    · exact .of_fails heq
    · exact .of_touch htouch (fun _ => by rw [StreamOp.takes, hi]; rfl) nofun (.inl rfl)
  | openDevice dev room nonblock reads writes =>
    rcases openDevice_touch dev room nonblock reads writes x with ⟨e, heq⟩ | ⟨i, hi, htouch⟩
    · exact .of_fails heq
    · exact .of_touch htouch (fun _ => by rw [StreamOp.takes, hi]; rfl) nofun (.inl rfl)
  | read s d buf len => exact sysRead_step h s d buf len
  | write s d buf len => exact sysWrite_step h s d buf len
  | sock s d call => exact sysSock_step s d call x
  | device s d call => exact sysDevice_opStep s d call x
  | ptyIoctl d call => exact sysPtyIoctl_step d call x
  | setfl d nonblock => exact sysSetfl_step d nonblock x
  | close d => exact ofdClose_step d x
  | retry s room mapped => exact retry_step s room mapped x
  | interrupt s => exact (OpStep.same (.inl rfl)).complete s
  | vacate s => exact ((OpStep.same (.inl rfl)).complete s).rest
  | world mem access sigpipeIgnored net drv => exact (OpStep.same (.inl rfl)).rest

end Lxp.Stream
