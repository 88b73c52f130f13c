import Lxp.Stream.Steps

/-!
# Pipes are queues

The bytes given to a pipe are the bytes taken from it followed by what its ring still holds, in
every run.
-/

open Function RingBuffer ByteMemory RefPool List Option

namespace Lxp.Stream

variable {K : StreamConfig} {x x' : Streams K} {s : K.Task}

/-! ## The law of one step -/

structure Fifo (sent got : PipeLog) (x : Streams K) : Prop extends Ends x where
  live : ∀ i, (x.pipes i).used = true →
    sent (x.pipes i).born = got (x.pipes i).born ++ (x.pipes i).ring.contents
  past : ∀ b, got b <+: sent b
  fresh : ∀ b, x.births ≤ b → sent b = [] ∧ got b = []

theorem PipeLog.add_nil (log : PipeLog) (b : Nat) : log.add b [] = log := by
  rw [PipeLog.add, append_nil, update_eq_self]

theorem PipeLog.add_self (log : PipeLog) (b : Nat) (bytes : Bytes) :
    log.add b bytes b = log b ++ bytes := update_self ..

theorem PipeLog.add_of_ne (log : PipeLog) {b c : Nat} (h : c ≠ b) (bytes : Bytes) :
    log.add b bytes c = log c := update_of_ne h ..

theorem Pipe.zero_wf (K : StreamConfig) : (Pipe.zero K.pipeBuf).ring.Wf :=
  RingBuf.wf_empty (ne_nil_of_length_pos (by simpa using K.pipeBuf_pos))

theorem Pipe.zero_cap (n : Nat) : (Pipe.zero n).ring.cap = n := length_replicate ..

section Step

variable {sent got : PipeLog} {i : Fin K.npipe}

theorem Ends.no_ends (h : Ends x) (hi : (x.pipes i).used = false) (w : Bool) :
    holders (pipeEnds x) (i, w) = 0 := by
  cases w with
  | false => rw [← h.readers, h.idle i hi]; rfl
  | true => rw [← h.writers, h.idle i hi]; rfl

theorem Ends.used_of_end (h : Ends x) {d : K.Ofd} {w : Bool}
    (hd : pipeEnds x d = some (i, w)) : (x.pipes i).used = true := by
  by_contra hused
  have := holders_pos hd
  rw [h.no_ends (by simpa using hused)] at this
  cases this

/-- What the entry `i` has to satisfy after a step that changes no other entry and the ends of no
other pipe. -/
structure Renewed (i : Fin K.npipe) (x x' : Streams K) : Prop where
  other : ∀ j, j ≠ i → x'.pipes j = x.pipes j
  ends : ∀ e : Fin K.npipe × Bool, e.1 ≠ i → holders (pipeEnds x') e = holders (pipeEnds x) e
  births : x.births ≤ x'.births
  cap : (x'.pipes i).ring.cap = K.pipeBuf
  wf : (x'.pipes i).ring.Wf
  readers : (x'.pipes i).readers = holders (pipeEnds x') (i, false)
  writers : (x'.pipes i).writers = holders (pipeEnds x') (i, true)
  few : ∀ w, holders (pipeEnds x') (i, w) ≤ 1
  idle : (x'.pipes i).used = false → x'.pipes i = Pipe.zero K.pipeBuf
  -- Its number is the one it had, or new.
  young : (x'.pipes i).used = true → (x'.pipes i).born < x'.births
  born : (x'.pipes i).used = true →
    (x.pipes i).used = true ∧ (x'.pipes i).born = (x.pipes i).born ∨ (x'.pipes i).born = x.births

theorem Ends.born_ne (h : Ends x) (hnew : Renewed i x x') (hi : (x'.pipes i).used = true)
    {j : Fin K.npipe} (hji : j ≠ i) (hj : (x.pipes j).used = true) :
    (x.pipes j).born ≠ (x'.pipes i).born := by
  intro heq
  rcases hnew.born hi with ⟨hused, hborn⟩ | hborn
  · exact hji (h.apart j i hj hused (heq.trans hborn))
  · have := h.young j hj
    omega

theorem Ends.renew (h : Ends x) (hnew : Renewed i x x') : Ends x' := by
  -- Every clause is old for the other entries and in `Renewed` for this one.
  have split : ∀ {P : Fin K.npipe → Prop}, P i → (∀ j, j ≠ i → P j) → ∀ j, P j := by
    intro P hi hother j
    by_cases hj : j = i
    · rw [hj]
      exact hi
    · exact hother j hj
  refine ⟨split hnew.cap fun j hj => ?_, split hnew.wf fun j hj => ?_,
    split hnew.readers fun j hj => ?_, split hnew.writers fun j hj => ?_, fun e => ?_,
    split hnew.idle fun j hj hused => ?_, split hnew.young fun j hj hused => ?_,
    split (split (fun _ _ _ => rfl) fun k hk hi hused heq => ?_) fun j hj =>
      split (fun hused hi heq => ?_) fun k hk => ?_⟩
  · rw [hnew.other j hj]
    exact h.cap j
  · rw [hnew.other j hj]
    exact h.wf j
  · rw [hnew.other j hj, hnew.ends _ hj]
    exact h.readers j
  · rw [hnew.other j hj, hnew.ends _ hj]
    exact h.writers j
  · by_cases he : e.1 = i
    · have : e = (i, e.2) := by rw [← he]
      rw [this]
      exact hnew.few e.2
    · rw [hnew.ends e he]
      exact h.few e
  · rw [hnew.other j hj] at hused ⊢
    exact h.idle j hused
  · rw [hnew.other j hj] at hused ⊢
    exact Nat.lt_of_lt_of_le (h.young j hused) hnew.births
  · rw [hnew.other k hk] at hused heq
    exact absurd heq.symm (h.born_ne hnew hi hk hused)
  · rw [hnew.other j hj] at hused heq
    exact absurd heq (h.born_ne hnew hi hj hused)
  · rw [hnew.other j hj, hnew.other k hk]
    exact h.apart j k

section

variable (h : Fifo sent got x)
include h

theorem Fifo.elsewhere (hpipes : x'.pipes = x.pipes)
    (hends : pipeEnds x' = pipeEnds x) (hbirths : x.births ≤ x'.births) : Fifo sent got x' where
  cap i := hpipes ▸ h.cap i
  wf i := hpipes ▸ h.wf i
  readers i := by rw [hpipes, hends, h.readers]
  writers i := by rw [hpipes, hends, h.writers]
  few e := hends ▸ h.few e
  idle i := hpipes ▸ h.idle i
  young i hi := Nat.lt_of_lt_of_le (hpipes ▸ h.young i (hpipes ▸ hi)) hbirths
  apart i j hi hj heq := h.apart i j (hpipes ▸ hi) (hpipes ▸ hj) (hpipes ▸ heq)
  live i hi := by
    rw [hpipes] at hi ⊢
    exact h.live i hi
  past := h.past
  fresh b hb := h.fresh b (Nat.le_trans hbirths hb)

theorem Fifo.renew (hnew : Renewed i x x') : ∀ j, j ≠ i → (x'.pipes j).used = true →
    sent (x'.pipes j).born = got (x'.pipes j).born ++ (x'.pipes j).ring.contents := by
  intro j hj hused
  rw [hnew.other j hj] at hused ⊢
  exact h.live j hused

theorem Fifo.setRing (hused : (x.pipes i).used = true) {ring : RingBuf UInt8}
    {out inp : Bytes} (hwf : ring.Wf) (hcap : ring.cap = K.pipeBuf)
    (hring : (x.pipes i).ring.contents ++ inp = out ++ ring.contents)
    (hpipes : x'.pipes = update x.pipes i { x.pipes i with ring := ring })
    (hends : pipeEnds x' = pipeEnds x) (hbirths : x'.births = x.births) :
    Fifo (sent.add (x.pipes i).born inp) (got.add (x.pipes i).born out) x' := by
  have hi : x'.pipes i = { x.pipes i with ring := ring } := by rw [hpipes, update_self]
  have hrenewed : Renewed i x x' := by
    refine ⟨fun j hj => by rw [hpipes, update_of_ne hj], fun e _ => by rw [hends],
      Nat.le_of_eq hbirths.symm, ?_, ?_, ?_, ?_, fun w => hends ▸ h.few _, ?_, ?_, ?_⟩ <;> rw [hi]
    · exact hcap
    · exact hwf
    · rw [hends]
      exact h.readers i
    · rw [hends]
      exact h.writers i
    · intro hfree
      rw [show (x.pipes i).used = false from hfree] at hused
      cases hused
    · intro _
      rw [hbirths]
      exact h.young i hused
    · exact fun _ => .inl ⟨hused, rfl⟩
  have hlive := h.live i hused
  have hlog : sent (x.pipes i).born ++ inp = got (x.pipes i).born ++ out ++ ring.contents := by
    rw [hlive, append_assoc, hring, append_assoc]
  refine ⟨h.toEnds.renew hrenewed, fun j hj => ?_, fun b => ?_, fun b hb => ?_⟩
  · by_cases hji : j = i
    · rw [hji, hi]
      simp only [PipeLog.add_self]
      exact hlog
    have hold := h.renew hrenewed j hji hj
    rw [hrenewed.other j hji] at hj hold ⊢
    have hne : (x.pipes j).born ≠ (x.pipes i).born := fun heq => hji (h.apart j i hj hused heq)
    rw [PipeLog.add_of_ne _ hne, PipeLog.add_of_ne _ hne]
    exact hold
  · by_cases hb : b = (x.pipes i).born
    · subst hb
      rw [PipeLog.add_self, PipeLog.add_self, hlog]
      exact prefix_append _ _
    · rw [PipeLog.add_of_ne _ hb, PipeLog.add_of_ne _ hb]
      exact h.past b
  · have hne : b ≠ (x.pipes i).born := by
      have := h.young i hused
      omega
    rw [PipeLog.add_of_ne _ hne, PipeLog.add_of_ne _ hne]
    exact h.fresh b (hbirths ▸ hb)

theorem Fifo.took {len : Nat} {bytes : Bytes} (hread : ((x.pipes i).tryRead len).1 = .ok bytes)
    (hpipes : x'.pipes = update x.pipes i ((x.pipes i).tryRead len).2)
    (hends : pipeEnds x' = pipeEnds x) (hbirths : x'.births = x.births) :
    Fifo sent (got.add (x.pipes i).born bytes) x' := by
  unfold Pipe.tryRead at hread hpipes
  by_cases hcount : (x.pipes i).ring.count = 0
  · rw [if_pos hcount] at hread hpipes
    have hnil : bytes = [] := by
      by_cases hw : 0 < (x.pipes i).writers
      · simp [hw] at hread
      · simpa [hw] using hread.symm
    rw [hnil, PipeLog.add_nil]
    exact h.elsewhere (by rw [hpipes, update_eq_self]) hends (Nat.le_of_eq hbirths.symm)
  · rw [if_neg hcount] at hread hpipes
    injection hread with hread
    have hwf := h.wf i
    rw [← PipeLog.add_nil sent (x.pipes i).born, ← hread]
    refine h.setRing (h.toEnds.used (fun p => p.ring.count) hcount) (RingBuf.read_wf hwf len)
      (h.cap i) ?_ hpipes
      hends hbirths
    rw [RingBuf.read_fst hwf, RingBuf.read_snd hwf, take_append_drop, append_nil]

theorem Fifo.gave {bytes : Bytes} {n : Nat} (hwrite : ((x.pipes i).tryWrite bytes).1 = .ok n)
    (hpipes : x'.pipes = update x.pipes i ((x.pipes i).tryWrite bytes).2)
    (hends : pipeEnds x' = pipeEnds x) (hbirths : x'.births = x.births) :
    Fifo (sent.add (x.pipes i).born (bytes.take n)) got x' := by
  unfold Pipe.tryWrite at hwrite hpipes
  by_cases hreaders : (x.pipes i).readers = 0
  · rw [if_pos hreaders] at hwrite
    cases hwrite
  rw [if_neg hreaders] at hwrite hpipes
  by_cases hfull : (x.pipes i).ring.count = (x.pipes i).ring.cap
  · rw [if_pos hfull] at hwrite
    cases hwrite
  rw [if_neg hfull] at hwrite hpipes
  injection hwrite with hwrite
  have hwf := h.wf i
  rw [← PipeLog.add_nil got (x.pipes i).born, ← hwrite]
  refine h.setRing (h.toEnds.used Pipe.readers hreaders) (RingBuf.write_wf hwf bytes) ?_ ?_ hpipes
    hends hbirths
  · rw [RingBuf.write_cap hwf, h.cap]
  · rw [RingBuf.write_snd hwf, nil_append]

theorem Fifo.opened {r w : K.Ofd} (hfree : (x.pipes i).used = false)
    (hr : pipeEnds x r = none) (hw : pipeEnds x w = none) (hrw : w ≠ r)
    (hpipes : x'.pipes = update x.pipes i { Pipe.zero K.pipeBuf with
      used := true, born := x.births, readers := 1, writers := 1 })
    (hends : pipeEnds x' = update (update (pipeEnds x) r (some (i, false))) w (some (i, true)))
    (hbirths : x'.births = x.births + 1) : Fifo sent got x' := by
  have hold : ∀ e, holders (pipeEnds x') e = holders (pipeEnds x) e + if e.1 = i then 1 else 0 := by
    rintro ⟨j, b⟩
    rw [hends, holders_update_some (by rw [update_of_ne hrw, hw]), holders_update_some hr]
    by_cases hj : j = i
    · subst hj
      cases b <;> simp
    · have hne : ∀ b', (i, b') ≠ (j, b) := fun b' heq => hj (congrArg Prod.fst heq).symm
      simp [hne, hj]
  have hone : ∀ w, holders (pipeEnds x') (i, w) = 1 := by
    intro w
    rw [hold, h.no_ends hfree, if_pos rfl]
  have hi : x'.pipes i = { Pipe.zero K.pipeBuf with
      used := true, born := x.births, readers := 1, writers := 1 } := by
    rw [hpipes, update_self]
  have hrenewed : Renewed i x x' := by
    refine ⟨fun j hj => by rw [hpipes, update_of_ne hj], fun e he => by rw [hold, if_neg he]; rfl,
      by omega, ?_, ?_, ?_, ?_, fun w => Nat.le_of_eq (hone w), ?_, ?_, ?_⟩ <;> rw [hi]
    · exact Pipe.zero_cap _
    · exact Pipe.zero_wf K
    · rw [hone]
    · rw [hone]
    · exact nofun
    · intro _
      rw [hbirths]
      exact Nat.lt_succ_self _
    · exact fun _ => .inr rfl
  refine ⟨h.toEnds.renew hrenewed, fun j hj => ?_, h.past, fun b hb => h.fresh b (by omega)⟩
  by_cases hji : j = i
  · obtain ⟨hsent, hgot⟩ := h.fresh x.births (Nat.le_refl _)
    rw [hji, hi]
    rw [hsent, hgot]
    rfl
  · exact h.renew hrenewed j hji hj

theorem Fifo.closed {d : K.Ofd} {w : Bool}
    (hd : pipeEnds x d = some (i, w)) (hpipes : x'.pipes = (pipeEndClose i w x).pipes)
    (hends : pipeEnds x' = update (pipeEnds x) d none) (hbirths : x'.births = x.births) :
    Fifo sent got x' := by
  have hused := h.toEnds.used_of_end hd
  have hold : ∀ e, holders (pipeEnds x') e + (if (i, w) = e then 1 else 0) =
      holders (pipeEnds x) e := by
    intro e
    rw [hends]
    exact holders_update_none hd e
  -- The entry is cleared with its last end and keeps its ring and its number before.
  have hclosed : (x'.pipes i = Pipe.zero K.pipeBuf ∨
      (x'.pipes i).ring = (x.pipes i).ring ∧ (x'.pipes i).born = (x.pipes i).born ∧
        (x'.pipes i).used = true) ∧
      (x'.pipes i).readers = holders (pipeEnds x') (i, false) ∧
      (x'.pipes i).writers = holders (pipeEnds x') (i, true) := by
    have hr := h.readers i
    have hw := h.writers i
    have hr' := hold (i, false)
    have hw' := hold (i, true)
    rw [hpipes]
    unfold pipeEndClose
    simp only [hused, Bool.not_true, Bool.false_eq_true, if_false, setPipe, update_self]
    cases w <;> simp only [Pipe.dropEnd, if_false, if_true, Prod.mk.injEq,
      true_and, reduceCtorEq] at hr' hw' ⊢ <;> split
    · exact ⟨.inl rfl, by simp only [Pipe.zero]; omega, by simp only [Pipe.zero]; omega⟩
    · exact ⟨.inr ⟨rfl, rfl, hused⟩, by simp only; omega, by simp only; omega⟩
    · exact ⟨.inl rfl, by simp only [Pipe.zero]; omega, by simp only [Pipe.zero]; omega⟩
    · exact ⟨.inr ⟨rfl, rfl, hused⟩, by simp only; omega, by simp only; omega⟩
  obtain ⟨hentry, hreaders, hwriters⟩ := hclosed
  have hkept : (x'.pipes i).used = true → (x'.pipes i).ring = (x.pipes i).ring ∧
      (x'.pipes i).born = (x.pipes i).born := by
    intro hi
    rcases hentry with hzero | ⟨hring, hborn, -⟩
    · rw [hzero] at hi
      cases hi
    · exact ⟨hring, hborn⟩
  have hrenewed : Renewed i x x' := by
    refine ⟨fun j hj => ?_, fun e he => ?_, Nat.le_of_eq hbirths.symm, ?_, ?_, hreaders, hwriters,
      fun w' => ?_, fun hi => ?_, fun hi => ?_, fun hi => .inl ⟨hused, (hkept hi).2⟩⟩
    · rw [hpipes]
      simp [pipeEndClose, hused, setPipe, hj]
    · have := hold e
      rwa [if_neg (fun heq => he (congrArg Prod.fst heq).symm)] at this
    · rcases hentry with hzero | ⟨hring, -, -⟩
      · rw [hzero]
        exact Pipe.zero_cap _
      · rw [hring]
        exact h.cap i
    · rcases hentry with hzero | ⟨hring, -, -⟩
      · rw [hzero]
        exact Pipe.zero_wf K
      · rw [hring]
        exact h.wf i
    · have := hold (i, w')
      have := h.few (i, w')
      omega
    · rcases hentry with hzero | ⟨-, -, hstill⟩
      · exact hzero
      · rw [hstill] at hi
        cases hi
    · rw [(hkept hi).2, hbirths]
      exact h.young i hused
  refine ⟨h.toEnds.renew hrenewed, fun j hj => ?_, h.past, fun b hb => h.fresh b (hbirths ▸ hb)⟩
  by_cases hji : j = i
  · subst hji
    obtain ⟨hring, hborn⟩ := hkept hj
    rw [hring, hborn]
    exact h.live j hused
  · exact h.renew hrenewed j hji hj

theorem Fifo.step {op : StreamOp K} (hstep : PipeStep x op x') :
    Fifo (op.sent x sent) (op.got x got) x' := by
  cases hstep with
  | elsewhere hpipes hends hbirths hsent hgot =>
    rw [hsent, hgot]
    exact h.elsewhere hpipes hends hbirths
  | took i len bytes hread hpipes hends hbirths hsent hgot =>
    rw [hsent, hgot]
    exact h.took hread hpipes hends hbirths
  | gave i bytes n hwrite hpipes hends hbirths hsent hgot =>
    rw [hsent, hgot]
    exact h.gave hwrite hpipes hends hbirths
  | opened i r w hfree hr hw hrw hpipes hends hbirths hsent hgot =>
    rw [hsent, hgot]
    exact h.opened hfree hr hw hrw hpipes hends hbirths
  | closed d i w hd hpipes hends hbirths hsent hgot =>
    rw [hsent, hgot]
    exact h.closed hd hpipes hends hbirths

end

end Step

/-! ## Runs -/

section Runs

variable {ok : Streams K → StreamOp K → Prop} {sent got : PipeLog}

theorem Fifo.boot (mem : Mem) (access : K.Task → Nat → Nat → Bool → Bool) (net : K.net.State)
    (drv : K.drv.State) : Fifo (fun _ => []) (fun _ => []) (streamsBoot K mem access net drv) where
  cap _ := Pipe.zero_cap _
  wf _ := Pipe.zero_wf K
  readers _ := (holders_eq_zero_iff.mpr nofun).symm
  writers _ := (holders_eq_zero_iff.mpr nofun).symm
  few e := by
    rw [holders_eq_zero_iff.mpr nofun]
    exact Nat.zero_le 1
  idle _ _ := rfl
  young _ := nofun
  apart _ _ := nofun
  live _ := nofun
  past _ := prefix_rfl
  fresh _ _ := ⟨rfl, rfl⟩

theorem StreamRuns.fifo (h : StreamRuns K ok sent got x) : Fifo sent got x := by
  induction h with
  | boot mem access net drv => exact .boot mem access net drv
  | step op h hok ih => exact ih.step (op.run_step ih.toEnds).pipes

theorem StreamRuns.flags (h : StreamRuns K ok sent got x) : Flags x := by
  induction h with
  | boot mem access net drv => exact nofun
  | step op h hok ih => exact (op.run_step h.fifo.toEnds).flags ih

/-- What was written to a pipe is what was read from it and then what its ring holds; its counts are
the descriptions of its ends. -/
theorem pipe_conserved (h : StreamRuns K ok sent got x) (i : Fin K.npipe)
    (hused : (x.pipes i).used = true) :
    sent (x.pipes i).born = got (x.pipes i).born ++ (x.pipes i).ring.contents ∧
      (x.pipes i).readers = holders (pipeEnds x) (i, false) ∧
      (x.pipes i).writers = holders (pipeEnds x) (i, true) :=
  ⟨h.fifo.live i hused, h.fifo.readers i, h.fifo.writers i⟩

end Runs

/-! ## End of file and broken pipes -/

section Answers

variable {op : StreamOp K} {i : Fin K.npipe} {buf len : Nat}

theorem Ends.no_reader_iff (h : Ends x) :
    (x.pipes i).readers = 0 ↔ ∀ d, pipeEnds x d ≠ some (i, false) := by
  rw [h.readers, holders_eq_zero_iff]

theorem Ends.no_writer_iff (h : Ends x) :
    (x.pipes i).writers = 0 ↔ ∀ d, pipeEnds x d ≠ some (i, true) := by
  rw [h.writers, holders_eq_zero_iff]

theorem Pipe.tryRead_nil {pp : Pipe} (hwf : pp.ring.Wf) (hlen : 0 < len)
    (h : (pp.tryRead len).1 = .ok []) : pp.ring.count = 0 ∧ pp.writers = 0 := by
  unfold Pipe.tryRead at h
  by_cases hcount : pp.ring.count = 0
  · rw [if_pos hcount] at h
    by_cases hwriters : 0 < pp.writers
    · simp [hwriters] at h
    · exact ⟨hcount, Nat.eq_zero_of_not_pos hwriters⟩
  rw [if_neg hcount] at h
  injection h with h
  have hlength := congrArg List.length h
  rw [RingBuf.read_fst hwf, length_take, RingBuf.contents_length hwf, length_nil] at hlength
  omega

theorem transfer_cases {w : Bool} (h : op.transfer x = some (w, i, buf, len)) :
    (∃ s d o, x.ofds d = some o ∧ o.slot = .pipe i ∧
      op = if w then .write s d buf len else .read s d buf len) ∨
    ∃ s room mapped b, op = .retry s room mapped ∧ x.wait s = some ⟨.pipe w i buf len, b⟩ := by
  cases op with
  | read s d buf' len' | write s d buf' len' =>
    simp only [StreamOp.transfer] at h
    split at h
    · rename_i hj
      cases h
      obtain ⟨o, hd, ho⟩ := map_eq_some_iff.mp hj
      exact .inl ⟨s, d, o, hd, ho, rfl⟩
    · cases h
  | retry s room mapped =>
    simp only [StreamOp.transfer] at h
    split at h
    · rename_i hcall
      cases h
      obtain ⟨⟨-, b⟩, hw, rfl⟩ := map_eq_some_iff.mp hcall
      exact .inr ⟨s, room, mapped, b, rfl, hw⟩
    · cases h
  | _ => cases h

/-- A read of a pipe fails, parks or answers what an attempt answers. -/
theorem read_answers (h : op.transfer x = some (false, i, buf, len)) :
    (∃ e, (op.run x).1 = .done (.error e)) ∨ (op.run x).1 = .parked ∨
    ∃ bytes, ((x.pipes i).tryRead len).1 = .ok bytes ∧ (op.run x).1 = .done (.ok bytes.length) := by
  rcases transfer_cases h with ⟨s, d, o, hd, ho, rfl⟩ | ⟨s, room, mapped, b, rfl, hw⟩
  · simp only [Bool.false_eq_true, if_false, StreamOp.run, sysRead, hd, ho]
    split
    · exact .inl ⟨_, rfl⟩
    split
    · exact .inl ⟨_, rfl⟩
    unfold fopReadPipe
    split
    · exact .inl ⟨_, rfl⟩
    rcases pipeTryRead_cases i buf len x with ⟨-, hread⟩ | ⟨bytes, hbytes, hread⟩
    · simp only [hread, parkOn]
      split
      · exact .inl ⟨_, rfl⟩
      · unfold waitPark
        split
        · exact .inl ⟨_, rfl⟩
        · exact .inr (.inl rfl)
    · simp only [hread]
      exact .inr (.inr ⟨bytes, hbytes, rfl⟩)
  · rw [StreamOp.run, retry_eq room mapped hw (by simp)]
    simp only [attempt]
    rcases pipeTryRead_cases i buf len x with ⟨-, hread⟩ | ⟨bytes, hbytes, hread⟩
    · rw [hread]
      exact .inr (.inl rfl)
    · rw [hread]
      exact .inr (.inr ⟨bytes, hbytes, rfl⟩)

theorem fopWritePipe_fst {o : Desc K} (hrw : o.rw = true) :
    (fopWritePipe s o i buf len x).1 = .done (.error .epipe) ↔ (x.pipes i).readers = 0 := by
  unfold fopWritePipe
  rw [hrw]
  simp only [Bool.not_true, Bool.false_eq_true, if_false]
  rcases pipeTryWrite_cases i buf len x with
    ⟨hreaders, hwrite⟩ | ⟨hreaders, hwrite⟩ | ⟨hreaders, n, -, hwrite⟩
  · rw [hwrite]
    exact iff_of_true rfl hreaders
  · refine iff_of_false ?_ hreaders
    rw [hwrite]
    simp only [parkOn, waitPark]
    split
    · exact nofun
    · split <;> exact nofun
  · rw [hwrite]
    exact iff_of_false nofun hreaders

theorem retryWrite_fst {b : Nat} {room : Bool} {mapped : IoReply}
    (hw : x.wait s = some ⟨.pipe true i buf len, b⟩) :
    (retry s room mapped x).1 = .done (.error .epipe) ↔ (x.pipes i).readers = 0 := by
  rw [retry_eq room mapped hw (by simp)]
  simp only [attempt]
  rcases pipeTryWrite_cases i buf len x with
    ⟨hreaders, hwrite⟩ | ⟨hreaders, hwrite⟩ | ⟨hreaders, n, -, hwrite⟩
  · rw [hwrite]
    exact iff_of_true rfl hreaders
  · rw [hwrite]
    exact iff_of_false (by simp) hreaders
  · rw [hwrite]
    exact iff_of_false (by simp) hreaders

theorem write_epipe (h : op.transfer x = some (true, i, buf, len))
    (hrun : (op.run x).1 = .done (.error .epipe)) : (x.pipes i).readers = 0 := by
  rcases transfer_cases h with ⟨s, d, o, hd, ho, rfl⟩ | ⟨s, room, mapped, b, rfl, hw⟩
  · simp only [if_true, StreamOp.run, sysWrite, hd, ho] at hrun
    split at hrun
    · cases hrun
    split at hrun
    · cases hrun
    · by_cases hrw : o.rw = true
      · exact (fopWritePipe_fst hrw).mp hrun
      · rw [fopWritePipe, if_pos (by simpa using hrw)] at hrun
        cases hrun
  · exact (retryWrite_fst hw).mp hrun

theorem Flags.sysWrite_eq (h : Flags x) {d : K.Ofd} (hd : pipeEnds x d = some (i, true))
    (haccess : x.access s buf len false = true) :
    ∃ o, o.rw = true ∧ sysWrite s d buf len x = fopWritePipe s o i buf len x := by
  obtain ⟨o, ho, hend⟩ := bind_eq_some_iff.mp hd
  unfold Desc.pipeEnd at hend
  split at hend
  · rename_i j hslot
    simp only [Option.some.injEq, Prod.mk.injEq] at hend
    obtain ⟨rfl, hrw⟩ := hend
    have hwrites := (h d o j ho hslot).2
    refine ⟨o, hrw, ?_⟩
    simp [sysWrite, ho, haccess, hwrites, hrw, hslot]
  · cases hend

theorem pipeTryRead_again : (pipeTryRead i buf len x).1 = .error .eagain ↔
    ((x.pipes i).tryRead len).1 = .error .eagain := by
  unfold pipeTryRead
  rcases (x.pipes i).tryRead len with ⟨e | -, -⟩
  · simp
  · simp

theorem Pipe.poll_read (pp : Pipe) : pp.poll false = true ↔ (pp.tryRead 1).1 ≠ .error .eagain := by
  unfold Pipe.poll Pipe.tryRead
  by_cases hcount : pp.ring.count = 0
  · by_cases hwriters : pp.writers = 0
    · simp [hcount]
    · simp [hcount]
  · simp [hcount, Nat.pos_of_ne_zero hcount]

theorem Pipe.poll_write {pp : Pipe} (hwf : pp.ring.Wf) (bytes : Bytes) :
    pp.poll true = true ↔ (pp.tryWrite bytes).1 ≠ .error .eagain := by
  have hle := hwf.count_le
  unfold Pipe.poll Pipe.tryWrite
  by_cases hreaders : pp.readers = 0
  · simp [hreaders]
  · by_cases hfull : pp.ring.count = pp.ring.cap
    · simp [hreaders, hfull]
    · have hlt : pp.ring.count < pp.ring.cap := by omega
      simp [hreaders, hfull, hlt]

end Answers

/-- In every run: what was read from a pipe is the beginning of what was written to it, the rings
are well formed, end of file means an empty pipe without writers, a write fails with `EPIPE` exactly
when there is no reader, and `poll` says whether a byte could be moved at once. -/
theorem pipe_queue {sent got : PipeLog} (h : StreamRuns K (fun _ _ => True) sent got x) :
    (∀ b, got b <+: sent b) ∧
    (∀ i, (x.pipes i).ring.wpos = ((x.pipes i).ring.rpos + (x.pipes i).ring.count) % K.pipeBuf ∧
      (x.pipes i).ring.count ≤ K.pipeBuf) ∧
    (∀ (op : StreamOp K) i buf len, op.transfer x = some (false, i, buf, len) → 0 < len →
      (op.run x).1 = .done (.ok 0) →
      (x.pipes i).ring.count = 0 ∧ ∀ d, pipeEnds x d ≠ some (i, true)) ∧
    (∀ (op : StreamOp K) i buf len, op.transfer x = some (true, i, buf, len) →
      (op.run x).1 = .done (.error .epipe) → ∀ d, pipeEnds x d ≠ some (i, false)) ∧
    (∀ s d i buf len, pipeEnds x d = some (i, true) → x.access s buf len false = true →
      (∀ d', pipeEnds x d' ≠ some (i, false)) →
      (sysWrite s d buf len x).1 = .done (.error .epipe)) ∧
    (∀ s i buf len b room mapped, x.wait s = some ⟨.pipe true i buf len, b⟩ →
      (∀ d, pipeEnds x d ≠ some (i, false)) →
      (retry s room mapped x).1 = .done (.error .epipe)) ∧
    ∀ i buf, ((x.pipes i).poll false = true ↔ (pipeTryRead i buf 1 x).1 ≠ .error .eagain) ∧
      ((x.pipes i).poll true = true ↔ (pipeTryWrite i buf 1 x).1 ≠ .error .eagain) := by
  have hfifo := h.fifo
  have hends := hfifo.toEnds
  refine ⟨hfifo.past, fun i => ?_, fun op i buf len htransfer hlen hrun => ?_,
    fun op i buf len htransfer hrun => ?_, fun s d i buf len hd haccess hnone => ?_,
    fun s i buf len b room mapped hw hnone => ?_, fun i buf => ⟨?_, ?_⟩⟩
  · rw [← hends.cap i]
    exact ⟨(hends.wf i).wpos_eq, (hends.wf i).count_le⟩
  · rcases read_answers htransfer with ⟨e, he⟩ | hparked | ⟨bytes, hbytes, hdone⟩
    · rw [he] at hrun
      cases hrun
    · rw [hparked] at hrun
      cases hrun
    rw [hdone] at hrun
    injection hrun with hrun
    injection hrun with hrun
    rw [eq_nil_of_length_eq_zero hrun] at hbytes
    obtain ⟨hcount, hwriters⟩ := Pipe.tryRead_nil (hends.wf i) hlen hbytes
    exact ⟨hcount, hends.no_writer_iff.mp hwriters⟩
  · exact hends.no_reader_iff.mp (write_epipe htransfer hrun)
  · obtain ⟨o, hrw, heq⟩ := h.flags.sysWrite_eq hd haccess
    rw [heq]
    exact (fopWritePipe_fst hrw).mpr (hends.no_reader_iff.mpr hnone)
  · exact (retryWrite_fst hw).mpr (hends.no_reader_iff.mpr hnone)
  · rw [Pipe.poll_read, ne_eq, ne_eq, pipeTryRead_again]
  · rw [Pipe.poll_write (hends.wf i) (bytesFrom x.mem.bytes buf 1)]
    rfl

def noNet : NetOps where
  State := Unit
  Sock := Unit
  null := ()
  sockOpen _ _ n := (.error ⟨.noMemory, by decide⟩, n)
  setNonblock _ n := (none, n)
  sockClose _ n := n
  connect _ _ n := (some .netRefused, n)
  pollOut _ n := (true, n)
  getError _ n := (none, n)
  send _ _ _ n := (.error .netClosed, n)
  recv _ _ n := (.error .netClosed, n)
  recvfrom _ _ n := (.error .netClosed, n)
  accept _ n := (.error ⟨.wouldBlock, by decide⟩, n)
  getpeername _ n := (.error .netClosed, n)

def noDrivers : DevOps where
  State := Unit
  Priv := Unit
  zero := ()
  ndev := 0
  present _ _ := false
  «open» _ := none
  release _ := none
  read _ := none
  write _ := none
  ioctl _ := none
  sync _ := none
  mmap _ := none

abbrev smallStreams : StreamConfig where
  nslot := 2
  nofd := 4
  npipe := 1
  pipeBuf := 4
  npty := 1
  ptyBuf := 4
  nsock := 1
  ndevopen := 1
  net := noNet
  drv := noDrivers
  pipeBuf_pos := Nat.succ_pos 3
  ptyBuf_pos := Nat.succ_pos 3

theorem pipe_queue_two_of_three : ∃ sent got x,
    StreamRuns smallStreams (fun _ _ => True) sent got x ∧ sent 0 = [16, 17, 18] ∧
      got 0 = [16, 17] ∧ got 0 <+: sent 0 := by
  have hboot : StreamRuns smallStreams (fun _ _ => True) _ _ _ :=
    .boot (Mem.ofBytes UInt8.ofNat) (fun _ _ _ _ => true) () ()
  have hrun := ((hboot.step (.pipe 0 0 2 false) trivial).step (.write 0 1 16 3) trivial).step
    (.read 0 0 32 2) trivial
  exact ⟨_, _, _, hrun, by decide +kernel, by decide +kernel, (pipe_queue hrun).1 0⟩

theorem pipe_conserved_three : ∃ sent got x,
    StreamRuns smallStreams (fun _ _ => True) sent got x ∧
      sent 0 = got 0 ++ (x.pipes 0).ring.contents := by
  have hboot : StreamRuns smallStreams (fun _ _ => True) _ _ _ :=
    .boot (Mem.ofBytes UInt8.ofNat) (fun _ _ _ _ => true) () ()
  have hrun := (hboot.step (.pipe 0 0 2 false) trivial).step (.write 0 1 16 3) trivial
  exact ⟨_, _, _, hrun, (pipe_conserved hrun 0 (by decide +kernel)).1⟩

end Lxp.Stream
