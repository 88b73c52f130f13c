import Lxp.Stream.Model

/-!
# What a call on one object leaves alone

An attempt on a pool entry changes that entry, guest memory and the providers, and keeps which
object is in the entry.  `Local` says so once; every attempt and every call is then put together
from it.
-/

open Function ByteMemory Bool

namespace Lxp.Stream

variable {K : StreamConfig} {x x' x'' : Streams K} {j : Slot K} {s : K.Task}
variable {o : SockOpen K.net} {net : K.net.State} {drv : K.drv.State}

/-- No entry but `j` changes. -/
structure Outside (j : Slot K) (x x' : Streams K) : Prop where
  pipes : ∀ i, Slot.pipe i ≠ j → x'.pipes i = x.pipes i
  ptys : ∀ i, Slot.pty i ≠ j → x'.ptys i = x.ptys i
  socks : ∀ i, Slot.sock i ≠ j → x'.socks i = x.socks i
  devs : ∀ i, Slot.dev i ≠ j → x'.devs i = x.devs i

namespace Outside

theorem refl (j : Slot K) (x : Streams K) : Outside j x x :=
  ⟨fun _ _ => rfl, fun _ _ => rfl, fun _ _ => rfl, fun _ _ => rfl⟩

theorem same (hpipes : x'.pipes = x.pipes) (hptys : x'.ptys = x.ptys) (hsocks : x'.socks = x.socks)
    (hdevs : x'.devs = x.devs) : Outside j x x' :=
  ⟨fun i _ => congrFun hpipes i, fun i _ => congrFun hptys i, fun i _ => congrFun hsocks i,
    fun i _ => congrFun hdevs i⟩

theorem trans (h : Outside j x x') (h' : Outside j x' x'') : Outside j x x'' where
  pipes i hi := (h'.pipes i hi).trans (h.pipes i hi)
  ptys i hi := (h'.ptys i hi).trans (h.ptys i hi)
  socks i hi := (h'.socks i hi).trans (h.socks i hi)
  devs i hi := (h'.devs i hi).trans (h.devs i hi)

theorem occupant_eq (h : Outside j x x') {k : Slot K} (hk : k ≠ j) :
    occupant x' k = occupant x k := by
  cases k with
  | pipe i => simp only [occupant, h.pipes i hk]
  | pty i => simp only [occupant, h.ptys i hk]
  | sock i => simp only [occupant, h.socks i hk]
  | dev i => simp only [occupant, h.devs i hk]

theorem pipes_eq (h : Outside j x x') (hj : ∀ i, j ≠ .pipe i) : x'.pipes = x.pipes :=
  funext fun i => h.pipes i fun hi => hj i hi.symm

theorem setPipe (i : Fin K.npipe) (pp : Pipe) (x : Streams K) :
    Outside (.pipe i) x (setPipe i pp x) where
  pipes k hk := update_of_ne (fun h => hk (by rw [h])) _ _
  ptys _ _ := rfl
  socks _ _ := rfl
  devs _ _ := rfl

theorem setPty (i : Fin K.npty) (pt : Pty) (x : Streams K) :
    Outside (.pty i) x (setPty i pt x) where
  pipes _ _ := rfl
  ptys k hk := update_of_ne (fun h => hk (by rw [h])) _ _
  socks _ _ := rfl
  devs _ _ := rfl

theorem setSock (i : Fin K.nsock) (o : SockOpen K.net) (x : Streams K) :
    Outside (.sock i) x (setSock i o x) where
  pipes _ _ := rfl
  ptys _ _ := rfl
  socks k hk := update_of_ne (fun h => hk (by rw [h])) _ _
  devs _ _ := rfl

theorem setDev (i : Fin K.ndevopen) (o : DevOpen K.drv) (x : Streams K) :
    Outside (.dev i) x (setDev i o x) where
  pipes _ _ := rfl
  ptys _ _ := rfl
  socks _ _ := rfl
  devs k hk := update_of_ne (fun h => hk (by rw [h])) _ _

end Outside

/-- Only the entry `j` changes, and it keeps its object. -/
structure Local (j : Slot K) (x x' : Streams K) : Prop extends Outside j x x' where
  occ : occupant x' j = occupant x j
  ofds : x'.ofds = x.ofds
  wait : x'.wait = x.wait
  births : x'.births = x.births

namespace Local

theorem refl (j : Slot K) (x : Streams K) : Local j x x := ⟨.refl j x, rfl, rfl, rfl, rfl⟩

theorem trans (h : Local j x x') (h' : Local j x' x'') : Local j x x'' where
  toOutside := h.toOutside.trans h'.toOutside
  occ := h'.occ.trans h.occ
  ofds := h'.ofds.trans h.ofds
  wait := h'.wait.trans h.wait
  births := h'.births.trans h.births

theorem occupant_eq (h : Local j x x') (k : Slot K) : occupant x' k = occupant x k := by
  by_cases hk : k = j
  · rw [hk, h.occ]
  · exact h.toOutside.occupant_eq hk

theorem setPipe {i : Fin K.npipe} {pp : Pipe} (hused : pp.used = (x.pipes i).used)
    (hborn : pp.born = (x.pipes i).born) : Local (.pipe i) x (setPipe i pp x) where
  toOutside := .setPipe i pp x
  occ := by simp only [occupant, Stream.setPipe, update_self, hused, hborn]
  ofds := rfl
  wait := rfl
  births := rfl

theorem setPty {i : Fin K.npty} {pt : Pty} (hused : pt.used = (x.ptys i).used)
    (hborn : pt.born = (x.ptys i).born) : Local (.pty i) x (setPty i pt x) where
  toOutside := .setPty i pt x
  occ := by simp only [occupant, Stream.setPty, update_self, hused, hborn]
  ofds := rfl
  wait := rfl
  births := rfl

theorem setSock {i : Fin K.nsock} (hused : o.used = (x.socks i).used)
    (hborn : o.born = (x.socks i).born) : Local (.sock i) x (setSock i o x) where
  toOutside := .setSock i o x
  occ := by simp only [occupant, Stream.setSock, update_self, hused, hborn]
  ofds := rfl
  wait := rfl
  births := rfl

theorem setDev {i : Fin K.ndevopen} {o : DevOpen K.drv} (hused : o.used = (x.devs i).used)
    (hborn : o.born = (x.devs i).born) : Local (.dev i) x (setDev i o x) where
  toOutside := .setDev i o x
  occ := by simp only [occupant, Stream.setDev, update_self, hused, hborn]
  ofds := rfl
  wait := rfl
  births := rfl

theorem rest (h : Local j x x') {mem : Mem} {raised : List (Int × Nat)} {exiting : K.Task → Bool} :
    Local j x
      { x' with mem := mem, net := net, drv := drv, raised := raised, exiting := exiting } :=
  ⟨{ h with }, h.occ, h.ofds, h.wait, h.births⟩

end Local

/-! ## Attempts -/

theorem pipeTryRead_local (i : Fin K.npipe) (buf len : Nat) (x : Streams K) :
    Local (.pipe i) x (pipeTryRead i buf len x).2 := by
  have hkeep : ((x.pipes i).tryRead len).2.used = (x.pipes i).used ∧
      ((x.pipes i).tryRead len).2.born = (x.pipes i).born := by
    unfold Pipe.tryRead
    split <;> exact ⟨rfl, rfl⟩
  have hset := Local.setPipe hkeep.1 hkeep.2
  unfold pipeTryRead
  dsimp only
  split
  · exact hset
  · exact hset.rest

theorem pipeTryWrite_local (i : Fin K.npipe) (buf len : Nat) (x : Streams K) :
    Local (.pipe i) x (pipeTryWrite i buf len x).2 := by
  have hkeep : ((x.pipes i).tryWrite (bytesFrom x.mem.bytes buf len)).2.used = (x.pipes i).used ∧
      ((x.pipes i).tryWrite (bytesFrom x.mem.bytes buf len)).2.born = (x.pipes i).born := by
    unfold Pipe.tryWrite
    split_ifs <;> exact ⟨rfl, rfl⟩
  exact Local.setPipe hkeep.1 hkeep.2

def Pty.entry (pt : Pty) : Bool × Nat × Bool × Bool := (pt.used, pt.born, pt.mNb, pt.sNb)

theorem Pty.echo_keeps (pt : Pty) (bytes : Bytes) : (pt.echo bytes).entry = pt.entry := by
  unfold Pty.echo
  split <;> rfl

theorem Pty.input_keeps (pt : Pty) (consumed : Nat) (raised : List (Int × Nat))
    (bytes : Bytes) : (pt.input consumed raised bytes).2.1.entry = pt.entry := by
  fun_induction Pty.input pt consumed raised bytes <;> first
      | rfl
      | (simp only [Pty.echo_keeps] at *; assumption)
      | assumption

theorem Pty.output_keeps (pt : Pty) (consumed : Nat) (bytes : Bytes) :
    (pt.output consumed bytes).2.entry = pt.entry := by
  fun_induction Pty.output pt consumed bytes <;> first
      | rfl
      | assumption

theorem Pty.read_keeps (pt : Pty) (master : Bool) (len : Nat) :
    (pt.read master len).2.entry = pt.entry := by
  unfold Pty.read
  split_ifs <;> rfl

theorem Pty.write_keeps (pt : Pty) (master : Bool) (bytes : Bytes) :
    (pt.write master bytes).2.1.entry = pt.entry := by
  unfold Pty.write
  split_ifs
  · rfl
  · rfl
  · exact pt.input_keeps 0 [] bytes
  · exact pt.output_keeps 0 bytes

theorem ptyRead_local (i : Fin K.npty) (master : Bool) (buf len : Nat) (x : Streams K) :
    Local (.pty i) x (ptyRead i master buf len x).2 := by
  have hkeep := (x.ptys i).read_keeps master len
  have hset := Local.setPty (congrArg Prod.fst hkeep) (congrArg (·.2.1) hkeep)
  unfold ptyRead
  dsimp only
  split
  · exact hset
  · exact hset.rest

theorem ptyWrite_local (i : Fin K.npty) (master : Bool) (buf len : Nat) (x : Streams K) :
    Local (.pty i) x (ptyWrite i master buf len x).2 := by
  have hkeep := (x.ptys i).write_keeps master (bytesFrom x.mem.bytes buf len)
  exact (Local.setPty (congrArg Prod.fst hkeep) (congrArg (·.2.1) hkeep)).rest

theorem copySockaddrOut_local (h : Local j x x') (uaddr uaddrlen : Nat) (a : SockAddr) :
    Local j x (copySockaddrOut s uaddr uaddrlen a x') := by
  unfold copySockaddrOut
  dsimp only
  split_ifs
  · exact h
  · exact h
  · exact h
  · exact h.rest
  · exact h.rest

theorem sockConnectPoll_local (i : Fin K.nsock) (x : Streams K) :
    Local (.sock i) x (sockConnectPoll i x).2 := by
  unfold sockConnectPoll
  split
  · exact (Local.refl _ x).rest
  · have hset : Local (.sock i) x (setSock i { x.socks i with connecting := false } x) :=
      Local.setSock rfl rfl
    dsimp only
    split <;> exact hset.rest

theorem sockTrySend_local (i : Fin K.nsock) (buf len : Nat) (dest : Option SockAddr)
    (x : Streams K) : Local (.sock i) x (sockTrySend i buf len dest x).2 := by
  unfold sockTrySend
  split <;> exact (Local.refl _ x).rest

theorem sockTryRecv_local (i : Fin K.nsock) (buf len usrc usrclen : Nat) (x : Streams K) :
    Local (.sock i) x (sockTryRecv s i buf len usrc usrclen x).2 := by
  unfold sockTryRecv
  split
  · split
    · exact copySockaddrOut_local (Local.refl _ x).rest usrc usrclen _
    · exact (Local.refl _ x).rest
  · split <;> exact (Local.refl _ x).rest

theorem devApply_local (i : Fin K.ndevopen) (f : DevCursor K.drv.Priv → Mem → K.drv.State →
      IoReply × DevCursor K.drv.Priv × Mem × K.drv.State) (x : Streams K) :
    Local (.dev i) x (devApply i f x).2 := by
  have hset : Local (.dev i) x
      (setDev i { x.devs i with cursor := (f (x.devs i).cursor x.mem x.drv).2.1 } x) :=
    Local.setDev rfl rfl
  exact hset.rest

theorem devAttempt_local (s : K.Task) (req : DevReq) (i : Fin K.ndevopen) (x : Streams K) :
    Local (.dev i) x (devAttempt s req i x).2 := by
  unfold devAttempt
  dsimp only
  split
  · exact .refl _ x
  cases req <;> dsimp only <;> first
      | exact .refl _ x
      | (split
         · exact .refl _ x
         · exact devApply_local i _ x)

/-! ## Calls -/

/-- A call on the entry `j` answers, or parks the task on the object that is there. -/
inductive CallStep (s : K.Task) (j : Slot K) (x : Streams K) : IoResult × Streams K → Prop
  | done {r : IoReply} {x' : Streams K} (h : Local j x x') : CallStep s j x (.done r, x')
  | parked {x1 : Streams K} {call : IoWait K} {b : Nat} (h : Local j x x1) (hslot : call.slot = j)
      (hocc : occupant x j = some b) :
      CallStep s j x (.parked, { x1 with wait := update x1.wait s (some ⟨call, b⟩) })

theorem fails_step (h : Local j x x') (e : IoErrno) : CallStep s j x (fails e x') := .done h

theorem waitPark_step (h : Local j x x') {call : IoWait K} (hslot : call.slot = j) {b : Nat}
    (hocc : occupant x j = some b) : CallStep s j x (waitPark s call x') := by
  unfold waitPark
  split
  · exact fails_step h _
  · rw [hslot, h.occ, hocc]
    exact .parked h hslot hocc

theorem parkOn_step {again : Streams K → IoResult × Streams K} {a : IoReply × Streams K}
    (h : Local j x a.2) (hagain : a.1 = .error .eagain → CallStep s j x (again a.2)) :
    CallStep s j x (parkOn again a) := by
  obtain ⟨r, x1⟩ := a
  unfold parkOn
  split
  · rename_i heq
    cases heq
    exact hagain rfl
  · rename_i heq
    cases heq
    exact .done h

theorem ptyRead_used {i : Fin K.npty} {master : Bool} {buf len : Nat}
    (h : (ptyRead i master buf len x).1 = .error .eagain) :
    occupant x (.pty i) = some (x.ptys i).born := by
  unfold ptyRead Pty.read at h
  cases hused : (x.ptys i).used with
  | true => simp [occupant, hused]
  | false => simp [hused] at h

theorem ptyWrite_used {i : Fin K.npty} {master : Bool} {buf len : Nat}
    (h : (ptyWrite i master buf len x).1 = .error .eagain) :
    occupant x (.pty i) = some (x.ptys i).born := by
  unfold ptyWrite Pty.write at h
  cases hused : (x.ptys i).used with
  | true => simp [occupant, hused]
  | false => simp [hused] at h

theorem fopReadPty_step (o : Desc K) (i : Fin K.npty) (buf len : Nat) :
    CallStep s (.pty i) x (fopReadPty s o i buf len x) := by
  have hlocal := ptyRead_local i o.rw buf len x
  refine parkOn_step hlocal fun hagain => ?_
  split
  · exact fails_step hlocal _
  · exact waitPark_step hlocal rfl (ptyRead_used hagain)

theorem fopWritePty_step (o : Desc K) (i : Fin K.npty) (buf len : Nat) :
    CallStep s (.pty i) x (fopWritePty s o i buf len x) := by
  have hlocal := ptyWrite_local i o.rw buf len x
  refine parkOn_step hlocal fun hagain => ?_
  split
  · exact fails_step hlocal _
  · exact waitPark_step hlocal rfl (ptyWrite_used hagain)

section Sockets

variable {i : Fin K.nsock}

theorem occupant_sock (h : ¬ (!(x.socks i).used) = true) :
    occupant x (.sock i) = some (x.socks i).born := by
  simp only [not_eq_true'] at h
  simp [occupant, h]

theorem sockConnect_step (uaddr addrlen : Nat) :
    CallStep s (.sock i) x (sockConnect s i uaddr addrlen x) := by
  have hrefl := Local.refl (.sock i) x
  unfold sockConnect
  dsimp only
  split
  · exact fails_step hrefl _
  rename_i hused
  have hocc := occupant_sock hused
  split
  · have hpoll := sockConnectPoll_local i x
    generalize sockConnectPoll i x = a at hpoll
    obtain ⟨r, x1⟩ := a
    split
    · rename_i heq
      cases heq
      split
      · exact fails_step hpoll _
      · exact waitPark_step hpoll rfl hocc
    · rename_i heq
      cases heq
      exact fails_step hpoll _
    · rename_i heq
      cases heq
      exact fails_step hpoll _
  · split
    · exact fails_step hrefl _
    split
    · exact fails_step hrefl _
    split
    · exact .done hrefl.rest
    split
    · have hset : Local (.sock i) x (setSock i { x.socks i with connecting := true } x) :=
        Local.setSock rfl rfl
      split
      · exact fails_step hset.rest _
      · exact waitPark_step hset.rest rfl hocc
    · exact .done hrefl.rest

theorem sockSend_step (buf len : Nat) (dontwait : Bool) (udest destlen : Nat) :
    CallStep s (.sock i) x (sockSend s i buf len dontwait udest destlen x) := by
  have hrefl := Local.refl (.sock i) x
  unfold sockSend
  dsimp only
  split
  · exact fails_step hrefl _
  rename_i hused
  split
  · exact fails_step hrefl _
  split
  · exact fails_step hrefl _
  have hlocal := sockTrySend_local i buf len
    (if udest = 0 then none else some (guestSin x.mem.bytes udest)) x
  refine parkOn_step hlocal fun _ => ?_
  split
  · exact fails_step hlocal _
  · exact waitPark_step hlocal rfl (occupant_sock hused)

theorem sockRecv_step (buf len : Nat) (dontwait : Bool) (usrc usrclen : Nat) :
    CallStep s (.sock i) x (sockRecv s i buf len dontwait usrc usrclen x) := by
  have hrefl := Local.refl (.sock i) x
  unfold sockRecv
  dsimp only
  split
  · exact fails_step hrefl _
  rename_i hused
  split
  · exact fails_step hrefl _
  have hlocal := sockTryRecv_local (s := s) i buf len usrc usrclen x
  refine parkOn_step hlocal fun _ => ?_
  split
  · exact fails_step hlocal _
  · refine waitPark_step ?_ rfl (occupant_sock hused)
    exact hlocal.trans (Local.setSock rfl rfl)

end Sockets

section Devices

variable {i : Fin K.ndevopen}

theorem devAttempt_used {req : DevReq} (h : (devAttempt s req i x).1 = .error .eagain) :
    occupant x (.dev i) = some (x.devs i).born := by
  unfold devAttempt at h
  cases hused : (x.devs i).used with
  | true => simp [occupant, hused]
  | false => simp [hused] at h

theorem devCall_step (req : DevReq) : CallStep s (.dev i) x (devCall s req i x) := by
  have hlocal := devAttempt_local s req i x
  refine parkOn_step hlocal fun hagain => ?_
  split
  · exact fails_step hlocal _
  · exact waitPark_step hlocal rfl (devAttempt_used hagain)

theorem devRead_step (buf len : Nat) : CallStep s (.dev i) x (devRead s i buf len x) := by
  unfold devRead
  split
  · exact fails_step (Local.refl _ x) _
  · exact devCall_step _

theorem devWrite_step (buf len : Nat) : CallStep s (.dev i) x (devWrite s i buf len x) := by
  unfold devWrite
  split
  · exact fails_step (Local.refl _ x) _
  · exact devCall_step _

theorem devMmap_step (len pgoff : Nat) : CallStep s (.dev i) x (devMmap s i len pgoff x) := by
  have hrefl := Local.refl (.dev i) x
  unfold devMmap
  dsimp only
  split
  · exact fails_step hrefl _
  rename_i hused
  have hocc : occupant x (.dev i) = some (x.devs i).born := by
    simp only [not_eq_true'] at hused
    simp [occupant, hused]
  split
  · exact fails_step hrefl _
  · split
    · exact fails_step hrefl.rest _
    · exact waitPark_step hrefl.rest rfl hocc

theorem sysDevice_step (d : K.Ofd) (call : DevCall) :
    (∃ i, CallStep s (.dev i) x (sysDevice s d call x)) ∨
      ∃ e, sysDevice s d call x = fails e x := by
  unfold sysDevice
  split
  · exact .inr ⟨_, rfl⟩
  split
  · rename_i i _
    refine .inl ⟨i, ?_⟩
    have hrefl := Local.refl (.dev i) x
    cases call with
    | ioctl cmd arg => exact devCall_step _
    | pread | pwrite =>
      dsimp only
      split
      · exact fails_step hrefl _
      · split
        · exact fails_step hrefl _
        · exact devCall_step _
    | fsync => exact devCall_step _
    | mmap len pgoff => exact devMmap_step _ _
  · exact .inr ⟨_, rfl⟩

end Devices

/-! ## Opening and closing -/

theorem firstFree_free {n : Nat} {used : Fin n → Bool} {i : Fin n} (h : firstFree used = some i) :
    used i = false := by
  simpa using List.find?_some h

theorem fdOpen_eq {o : Desc K} {room : Bool} {d : K.Ofd} (h : fdOpen o room x = some (d, x')) :
    x.ofds d = none ∧ x' = { x with ofds := update x.ofds d (some o) } := by
  unfold fdOpen at h
  split at h
  · cases h
  split at h
  · cases h
  · rename_i hfind
    cases h
    exact ⟨by simpa using List.find?_some hfind, rfl⟩

/-- Entry `k` and its descriptions change; where `new` is set, an object may have been put there. -/
structure Touch (new : Bool) (k : Slot K) (x x' : Streams K) : Prop extends Outside k x x' where
  occ : occupant x' k = occupant x k ∨ occupant x' k = none ∨
    new = true ∧ occupant x k = none ∧ occupant x' k = some x.births ∧ x.births < x'.births
  ofds : ∀ d, x'.ofds d = x.ofds d ∨
    (∀ o, x.ofds d = some o → o.slot = k) ∧ ∀ o, x'.ofds d = some o → o.slot = k
  wait : x'.wait = x.wait
  births : x.births ≤ x'.births

theorem Local.touch {new : Bool} (h : Local j x x') : Touch new j x x' :=
  ⟨h.toOutside, .inl h.occ, fun d => .inl (congrFun h.ofds d), h.wait, Nat.le_of_eq h.births.symm⟩

namespace Touch

variable {new : Bool} {k : Slot K}

theorem refl (new : Bool) (k : Slot K) (x : Streams K) : Touch new k x x := (Local.refl k x).touch

theorem andThen (h : Touch new k x x') (hout : Outside k x' x'')
    (hocc : occupant x'' k = occupant x' k ∨ occupant x'' k = none)
    (hofds : ∀ d, x''.ofds d = x'.ofds d ∨
      (∀ o, x'.ofds d = some o → o.slot = k) ∧ ∀ o, x''.ofds d = some o → o.slot = k)
    (hwait : x''.wait = x'.wait) (hbirths : x'.births = x''.births) : Touch new k x x'' where
  toOutside := h.toOutside.trans hout
  occ := by
    rcases hocc with hocc | hocc
    · rw [hocc, ← hbirths]
      exact h.occ
    · exact .inr (.inl hocc)
  ofds d := by
    rcases h.ofds d with h1 | ⟨h1, h2⟩
    · rw [← h1]
      exact hofds d
    · rcases hofds d with h3 | ⟨-, h4⟩
      · exact .inr ⟨h1, by rwa [h3]⟩
      · exact .inr ⟨h1, h4⟩
  wait := hwait.trans h.wait
  births := hbirths ▸ h.births

theorem andLocal (h : Touch new k x x') (h' : Local k x' x'') : Touch new k x x'' :=
  h.andThen h'.toOutside (.inl h'.occ) (fun d => .inl (congrFun h'.ofds d)) h'.wait h'.births.symm

theorem open_ (h : Touch new k x x') {o : Desc K} {room : Bool} {d : K.Ofd}
    (hopen : fdOpen o room x' = some (d, x'')) (ho : o.slot = k) : Touch new k x x'' := by
  obtain ⟨hd, rfl⟩ := fdOpen_eq hopen
  refine h.andThen (.same rfl rfl rfl rfl) (.inl ?_) (fun e => ?_) rfl rfl
  · cases k <;> rfl
  by_cases he : e = d
  · subst he
    refine .inr ⟨fun o' ho' => ?_, fun o' ho' => ?_⟩
    · rw [hd] at ho'
      cases ho'
    · simp only [update_self, Option.some.injEq] at ho'
      rw [← ho', ho]
  · exact .inl (update_of_ne he _ _)

end Touch

theorem ptyEndOpen_local (i : Fin K.npty) (master : Bool) (x : Streams K) :
    Local (.pty i) x (ptyEndOpen i master x) := by
  unfold ptyEndOpen
  dsimp only
  split_ifs <;> first | exact .refl _ x | exact Local.setPty rfl rfl

theorem openMaster_touch (room nonblock reads writes : Bool) (x : Streams K) :
    (∃ e, openMaster room nonblock reads writes x = fails e x) ∨
    ∃ i, (firstFree fun i => (x.ptys i).used) = some i ∧
      Touch true (.pty i) x (openMaster room nonblock reads writes x).2 := by
  unfold openMaster ptyOpenMaster
  cases hfree : firstFree fun i => (x.ptys i).used with
  | none => exact .inl ⟨_, rfl⟩
  | some i =>
    refine .inr ⟨i, rfl, ?_⟩
    have hunused := firstFree_free hfree
    dsimp only
    generalize hx1 : ({ setPty i _ x with births := x.births + 1 } : Streams K) = x1
    have htouch : Touch true (.pty i) x x1 := by
      subst hx1
      refine ⟨⟨fun _ _ => rfl, (Outside.setPty i _ x).ptys, fun _ _ => rfl, fun _ _ => rfl⟩, ?_,
        fun _ => .inl rfl, rfl, Nat.le_succ _⟩
      refine .inr (.inr ⟨rfl, ?_, ?_, Nat.lt_succ_self _⟩)
      · simp [occupant, hunused]
      · simp [occupant, setPty]
    split
    · next hopen => exact (htouch.open_ hopen rfl).andLocal (ptyEndOpen_local i true _)
    show Touch true (.pty i) x (ptyDiscard i x1)
    unfold ptyDiscard
    split
    · refine htouch.andThen (Outside.setPty i _ _) (.inr ?_) (fun _ => .inl rfl) rfl rfl
      simp [occupant, setPty, Pty.zero]
    · exact htouch

theorem openSlave_touch (num : Nat) (room nonblock reads writes : Bool) (x : Streams K) :
    (∃ e, openSlave num room nonblock reads writes x = fails e x) ∨
    ∃ i, Touch false (.pty i) x (openSlave num room nonblock reads writes x).2 := by
  unfold openSlave ptyOpenSlave
  by_cases hnum : num < K.npty
  · rw [dif_pos hnum]
    by_cases hused : (x.ptys ⟨num, hnum⟩).used = true
    · rw [if_pos hused]
      refine .inr ⟨⟨num, hnum⟩, ?_⟩
      have hset : Local (.pty ⟨num, hnum⟩) x
          (setPty ⟨num, hnum⟩ { x.ptys ⟨num, hnum⟩ with sNb := nonblock } x) :=
        Local.setPty rfl rfl
      have htouch : Touch false (.pty ⟨num, hnum⟩) x _ := hset.touch
      dsimp only
      split
      · next hopen => exact (htouch.open_ hopen rfl).andLocal (ptyEndOpen_local _ false _)
      · exact htouch
    · rw [if_neg hused]
      exact .inl ⟨_, rfl⟩
  · rw [dif_neg hnum]
    exact .inl ⟨_, rfl⟩

section NewSocket

variable {i : Fin K.nsock}

theorem setSock_idle (hfree : (x.socks i).used = false) (ho : o.used = false) :
    Touch true (.sock i) x { setSock i o x with net := net } where
  toOutside := ⟨fun _ _ => rfl, fun _ _ => rfl, (Outside.setSock i o x).socks, fun _ _ => rfl⟩
  occ := .inl (by simp [occupant, setSock, hfree, ho])
  ofds _ := .inl rfl
  wait := rfl
  births := Nat.le_refl _

theorem setSock_new (hfree : (x.socks i).used = false) (ho : o.used = true)
    (hborn : o.born = x.births) : Touch true (.sock i) x { setSock i o (setSock i {} x) with
      net := net, births := x.births + 1 } where
  toOutside := ⟨fun _ _ => rfl, fun _ _ => rfl,
    ((Outside.setSock i {} x).trans (Outside.setSock i o _)).socks, fun _ _ => rfl⟩
  occ := .inr (.inr ⟨rfl, by simp [occupant, hfree], by simp [occupant, setSock, ho, hborn],
    Nat.lt_succ_self _⟩)
  ofds _ := .inl rfl
  wait := rfl
  births := Nat.le_succ _

theorem Touch.unmakeSock {new : Bool} (h : Touch new (.sock i) x x') (ho : o.used = false) :
    Touch new (.sock i) x { setSock i o x' with net := net } := by
  refine h.andThen ⟨fun _ _ => rfl, fun _ _ => rfl, (Outside.setSock i o x').socks, fun _ _ => rfl⟩
    (.inr ?_) (fun _ => .inl rfl) rfl rfl
  simp [occupant, setSock, ho]

theorem sockClose_touch (i : Fin K.nsock) (x : Streams K) :
    Touch false (.sock i) x (sockClose i x) := by
  unfold sockClose
  dsimp only
  split
  · exact .refl ..
  · exact (Touch.refl false (.sock i) x).unmakeSock rfl

theorem sysSocket_touch (type : SockType) (protocol : Int) (room nonblock : Bool) (x : Streams K) :
    (∃ e, sysSocket type protocol room nonblock x = fails e x) ∨
    ∃ i, (firstFree fun i => (x.socks i).used) = some i ∧
      Touch true (.sock i) x (sysSocket type protocol room nonblock x).2 := by
  unfold sysSocket sockNew
  cases hfree : firstFree fun i => (x.socks i).used with
  | none => exact .inl ⟨_, rfl⟩
  | some i =>
    refine .inr ⟨i, rfl, ?_⟩
    have hunused := firstFree_free hfree
    dsimp only
    rcases K.net.sockOpen type (if type = .raw then protocol else 0) (setSock i {} x).net with
      ⟨e | h, net⟩
    · exact setSock_idle hunused rfl
    dsimp only
    rcases K.net.setNonblock h net with ⟨_ | e, net⟩
    · dsimp only
      have hnew : Touch true (.sock i) x { setSock i
          { used := true, type := type, nonblock := nonblock, sock := h,
            born := (setSock i {} x).births } (setSock i {} x) with
          net := net, births := (setSock i {} x).births + 1 } :=
        setSock_new hunused rfl rfl
      split
      · next hopen => exact hnew.open_ hopen rfl
      · simp only [sockClose]
        split
        · exact hnew
        · exact hnew.unmakeSock rfl
    · exact setSock_idle hunused rfl

theorem acceptName_local (h : K.net.Sock) (uaddr uaddrlen : Nat) (x : Streams K) :
    Local j x (acceptName s h uaddr uaddrlen x) := by
  unfold acceptName
  split
  · exact .refl j x
  · split
    · exact (Local.refl j x).rest
    · exact copySockaddrOut_local (Local.refl j x).rest _ _ _

theorem doAccept_touch (s : K.Task) (i : Fin K.nsock) (uaddr uaddrlen : Nat)
    (nonblock room : Bool) (x : Streams K) :
    (∃ r, doAccept s i uaddr uaddrlen nonblock room x = (.error r, x)) ∨
    ∃ c, (firstFree fun i => (x.socks i).used) = some c ∧
      Touch true (.sock c) x (doAccept s i uaddr uaddrlen nonblock room x).2 := by
  unfold doAccept
  cases hfree : firstFree fun i => (x.socks i).used with
  | none => exact .inl ⟨_, rfl⟩
  | some c =>
    refine .inr ⟨c, rfl, ?_⟩
    have hunused := firstFree_free hfree
    dsimp only
    rcases K.net.accept (x.socks i).sock (setSock c {} x).net with ⟨e | h, net⟩
    · exact setSock_idle hunused rfl
    dsimp only
    rcases K.net.setNonblock h net with ⟨_ | e, net⟩
    · dsimp only
      have hnew : Touch true (.sock c) x { setSock c
          { used := true, nonblock := nonblock, sock := h, born := (setSock c {} x).births }
          (setSock c {} x) with
          net := net, births := (setSock c {} x).births + 1 } :=
        setSock_new hunused rfl rfl
      have hnamed := hnew.andLocal (acceptName_local (s := s) h uaddr uaddrlen _)
      split
      · next hopen => exact hnamed.open_ hopen rfl
      · exact hnamed.unmakeSock rfl
    · exact setSock_idle hunused rfl

end NewSocket

section NewDevice

variable {i : Fin K.ndevopen}

theorem setDev_idle (hfree : (x.devs i).used = false) {o : DevOpen K.drv} (ho : o.used = false) :
    Touch true (.dev i) x { setDev i o x with drv := drv } where
  toOutside := ⟨fun _ _ => rfl, fun _ _ => rfl, fun _ _ => rfl, (Outside.setDev i o x).devs⟩
  occ := .inl (by simp [occupant, setDev, hfree, ho])
  ofds _ := .inl rfl
  wait := rfl
  births := Nat.le_refl _

theorem setDev_new (hfree : (x.devs i).used = false) {o : DevOpen K.drv} (ho : o.used = true)
    (hborn : o.born = x.births) :
    Touch true (.dev i) x { setDev i o x with drv := drv, births := x.births + 1 } where
  toOutside := ⟨fun _ _ => rfl, fun _ _ => rfl, fun _ _ => rfl, (Outside.setDev i o x).devs⟩
  occ := .inr (.inr ⟨rfl, by simp [occupant, hfree], by simp [occupant, setDev, ho, hborn],
    Nat.lt_succ_self _⟩)
  ofds _ := .inl rfl
  wait := rfl
  births := Nat.le_succ _

theorem Touch.devClose {new : Bool} (h : Touch new (.dev i) x x') :
    Touch new (.dev i) x (devClose i x') := by
  unfold Stream.devClose
  dsimp only
  split
  · exact h
  have hset : Touch new (.dev i) x (setDev i { x'.devs i with used := false } x') := by
    refine h.andThen (Outside.setDev i _ x') (.inr ?_) (fun _ => .inl rfl) rfl rfl
    simp [occupant, setDev]
  split
  · exact hset
  · exact hset.andLocal (Local.refl _ _).rest

theorem openDevice_touch (dev : Nat) (room nonblock reads writes : Bool) (x : Streams K) :
    (∃ e, openDevice dev room nonblock reads writes x = fails e x) ∨
    ∃ i, (firstFree fun i => (x.devs i).used) = some i ∧
      Touch true (.dev i) x (openDevice dev room nonblock reads writes x).2 := by
  unfold openDevice devOpenNew
  by_cases hdev : K.drv.ndev ≤ dev
  · rw [if_pos hdev]
    exact .inl ⟨_, rfl⟩
  rw [if_neg hdev]
  cases hfree : firstFree fun i => (x.devs i).used with
  | none => exact .inl ⟨_, rfl⟩
  | some i =>
    refine .inr ⟨i, rfl, ?_⟩
    have hunused := firstFree_free hfree
    by_cases hpresent : K.drv.present dev x.drv = true
    · rw [hpresent]
      simp only [Bool.not_true, Bool.false_eq_true, if_false]
      -- An open that succeeded still needs a description.
      rcases K.drv.open dev with _ | f
      · dsimp only
        split
        · rename_i hopen
          exact (setDev_new hunused rfl rfl).open_ hopen rfl
        · exact (setDev_new hunused rfl rfl).devClose
      dsimp only
      rcases f reads writes nonblock ⟨0, K.drv.zero⟩ x.drv with ⟨e | c, -⟩
      · exact setDev_idle hunused rfl
      dsimp only
      split
      · rename_i hopen
        exact (setDev_new hunused rfl rfl).open_ hopen rfl
      · exact (setDev_new hunused rfl rfl).devClose
    · simp only [not_eq_true] at hpresent
      rw [hpresent]
      exact setDev_idle hunused rfl

end NewDevice

theorem Pty.dropEnd_keeps (pt : Pty) (master : Bool) :
    (pt.dropEnd master).used = pt.used ∧ (pt.dropEnd master).born = pt.born := by
  unfold Pty.dropEnd
  split <;> exact ⟨rfl, rfl⟩

theorem ptyEndClose_touch (i : Fin K.npty) (master : Bool) (x : Streams K) :
    Touch false (.pty i) x (ptyEndClose i master x) := by
  unfold ptyEndClose
  dsimp only
  split
  · exact .refl ..
  refine (Touch.refl false (.pty i) x).andThen (Outside.setPty i _ x) ?_ (fun _ => .inl rfl)
    rfl rfl
  split
  · exact .inr (by simp [occupant, setPty, Pty.zero])
  · exact .inl (by simp [occupant, setPty, Pty.dropEnd_keeps])

end Lxp.Stream
