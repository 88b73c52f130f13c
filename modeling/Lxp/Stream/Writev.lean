import Lxp.Stream.Objects

/-!
# Vectored writes

`writev` hands its segments one after the other to the write operation of the descriptor's kind.  A
kind whose tasks wait for one buffer gets one segment a call.  A host file waits for the whole call
instead: the coordinator makes it again from its first segment, whatever was written before.
-/

open ByteMemory List

namespace Lxp.Stream

/-! ## Descriptors and what is behind them -/

inductive FdKind where
  | console
  | file
  | pipe
  | tmpfs
  | proc
  | dev
  | socket
  | eventfd
  | pty
  | net
  | hostfs
deriving DecidableEq

def FdKind.singleSegment : FdKind → Bool
  | .pipe | .dev | .socket | .pty | .net => true
  | _ => false

/-- The write operation of a kind, with the state it works on. -/
structure WriteOps where
  State : Type
  write : Bytes → State → IoReply × State
  write_le : ∀ buf σ n, (write buf σ).1 = .ok n → n ≤ buf.length

/-- The host file system: the error, if any, and the number of bytes done. -/
structure HostOps where
  State : Type
  fileWrite : Bytes → State → (Option LxpErr × Nat) × State

structure VecConfig where
  maxIov : Nat
  quantum : Nat
  ops : WriteOps
  host : HostOps

structure OpenFile where
  kind : FdKind
  writable : Bool
  nonblock : Bool
  -- For a host file: whether the open is still there, is a directory, is on a read-only mount.
  hostUsed : Bool
  hostDir : Bool
  hostReadOnly : Bool

/-- Guest memory while the call is made, and which of it may be read. -/
structure GuestMem where
  bytes : Nat → UInt8
  access : Nat → Nat → Bool

/-! ## The calling task -/

/-- A parked task waits with one buffer, or with the whole call. -/
inductive VecWait where
  | buffer (base len : Nat)
  | syscall
deriving DecidableEq

structure Writer (V : VecConfig) where
  ops : V.ops.State
  host : V.host.State
  -- The task has an intent that is still to be served.
  intent : Bool
  wait : Option VecWait
  -- The bytes the operations said they took.
  given : Bytes

variable {V : VecConfig}

def waitBegin (w : VecWait) (t : Writer V) : Bool × Writer V :=
  if t.wait.isSome || t.intent then (false, t) else (true, { t with wait := some w })

def directWrite (buf : Bytes) (t : Writer V) : IoReply × Writer V :=
  match V.ops.write buf t.ops with
  | (.error e, σ) => (.error e, { t with ops := σ })
  | (.ok n, σ) => (.ok n, { t with ops := σ, given := t.given ++ buf.take n })

def parkBuffer (nonblock : Bool) (base len : Nat) (t : Writer V) : IoReply × Writer V :=
  if nonblock then (.error .eagain, t)
  else
    match waitBegin (.buffer base len) t with
    | (true, t) => (.ok 0, t)
    | (false, t) => (.error .eagain, t)

def streamWrite (nonblock : Bool) (g : GuestMem) (base len : Nat) (t : Writer V) :
    IoReply × Writer V :=
  match directWrite (bytesFrom g.bytes base len) t with
  | (.error .eagain, t) => parkBuffer nonblock base len t
  | (r, t) => (r, t)

/-- A call that would block is kept in the wait record. -/
def hostfsPark (t : Writer V) : Writer V :=
  if t.wait.isSome then t else (waitBegin .syscall t).2

def hostfsWrite (f : OpenFile) (buf : Bytes) (t : Writer V) : IoReply × Writer V :=
  if !f.hostUsed then (.error .ebadf, t)
  else if f.hostDir then (.error .eisdir, t)
  else if f.hostReadOnly then (.error .erofs, t)
  else
    match V.host.fileWrite buf t.host with
    | ((rc, done), σ) =>
      let t := { t with host := σ }
      if rc = some .wouldBlock then (.error .eagain, hostfsPark t)
      else if buf.length < done then (.error .eio, t)
      else
        match rc with
        | none => (.ok done, { t with given := t.given ++ buf.take done })
        | some e => (errnoFromErr e, t)

def opsWrite (f : OpenFile) (g : GuestMem) (base len : Nat) (t : Writer V) : IoReply × Writer V :=
  match f.kind with
  | .console | .tmpfs | .eventfd => directWrite (bytesFrom g.bytes base len) t
  | .pipe | .dev | .socket | .pty => streamWrite f.nonblock g base len t
  | .hostfs => hostfsWrite f (bytesFrom g.bytes base len) t
  | .file | .proc | .net => (.error .ebadf, t)

def vecWrite (f : OpenFile) (g : GuestMem) (base len : Nat) (t : Writer V) : IoReply × Writer V :=
  if !g.access base len then (.error .efault, t)
  else if !f.writable then (.error .ebadf, t)
  else opsWrite f g base len t

/-! ## The call -/

def segBase (g : GuestMem) (iov i : Nat) : Nat := le32 g.bytes (iov + 8 * i)

def segLen (g : GuestMem) (iov i : Nat) : Nat := le32 g.bytes (iov + 8 * i + 4)

def orTotal (total : Nat) (e : IoErrno) : IoReply := if total = 0 then .error e else .ok total

/-- The segments from `i` on, of which there are `n`. -/
def writevLoop (f : OpenFile) (g : GuestMem) (iov : Nat) :
    Nat → Nat → Nat → Nat → Writer V → IoReply × Writer V
  | 0, _, total, _, t => (.ok total, t)
  | n + 1, i, total, budget, t =>
    if !g.access (iov + 8 * i) 8 then (orTotal total .efault, t)
    else if segLen g iov i = 0 then writevLoop f g iov n (i + 1) total budget t
    else
      let len := min (segLen g iov i) budget
      match vecWrite f g (segBase g iov i) len t with
      | (.error e, t) => (orTotal total e, t)
      | (.ok r, t) =>
        if len < r then (orTotal total .eio, t)
        else if f.kind.singleSegment ∨ r < len ∨ len < segLen g iov i ∨ budget - r = 0 then
          (.ok (total + r), t)
        else writevLoop f g iov n (i + 1) (total + r) (budget - r) t

def sysWritev (f : Option OpenFile) (g : GuestMem) (iov : Nat) (iovcnt : Int) (t : Writer V) :
    IoReply × Writer V :=
  if iovcnt < 0 ∨ (V.maxIov : Int) < iovcnt then (.error .einval, t)
  else if iovcnt ≠ 0 ∧ !g.access iov (8 * iovcnt.toNat) then (.error .efault, t)
  else
    match f with
    | none => (.error .ebadf, t)
    | some f => writevLoop f g iov iovcnt.toNat 0 0 V.quantum t

inductive VecPhase where
  | parked
  | done (r : IoReply)

/-- A task that waits keeps waiting, whatever the call answered. -/
def executeWritev (f : Option OpenFile) (g : GuestMem) (iov : Nat) (iovcnt : Int) (t : Writer V) :
    VecPhase × Writer V :=
  match sysWritev f g iov iovcnt t with
  | (r, t) => if t.wait.isSome then (.parked, t) else (.done r, t)

def retryWritev (f : Option OpenFile) (g : GuestMem) (iov : Nat) (iovcnt : Int) (t : Writer V) :
    VecPhase × Writer V :=
  match t.wait with
  | none => (.done (.error .einval), t)
  | some (.buffer base len) =>
    match directWrite (bytesFrom g.bytes base len) t with
    | (.error .eagain, t) => (.parked, t)
    | (r, t) => (.done r, { t with wait := none })
  | some .syscall =>
    match sysWritev f g iov iovcnt t with
    | (r, t) =>
      if r = .error .eagain ∧ t.wait = some .syscall then (.parked, t)
      else (.done r, { t with wait := none })

/-- The states of one call: it is made, others change what is behind the descriptor while the task
is parked, and the coordinator retries. -/
inductive WritevRuns (V : VecConfig) (f : Option OpenFile) (g : GuestMem) (iov : Nat)
    (iovcnt : Int) : VecPhase → Writer V → Prop
  | issue (ops : V.ops.State) (host : V.host.State) (intent : Bool) :
      WritevRuns V f g iov iovcnt (executeWritev f g iov iovcnt ⟨ops, host, intent, none, []⟩).1
        (executeWritev f g iov iovcnt ⟨ops, host, intent, none, []⟩).2
  | world {t : Writer V} (ops : V.ops.State) (host : V.host.State) (intent : Bool)
      (h : WritevRuns V f g iov iovcnt .parked t) :
      WritevRuns V f g iov iovcnt .parked { t with ops := ops, host := host, intent := intent }
  | retry {t : Writer V} (h : WritevRuns V f g iov iovcnt .parked t) :
      WritevRuns V f g iov iovcnt (retryWritev f g iov iovcnt t).1 (retryWritev f g iov iovcnt t).2

/-! ## What is given -/

/-- The bytes of the `n` segments from `i` on, one after the other. -/
def vecBytes (g : GuestMem) (iov : Nat) : Nat → Nat → Bytes
  | _, 0 => []
  | i, n + 1 => bytesFrom g.bytes (segBase g iov i) (segLen g iov i) ++ vecBytes g iov (i + 1) n

def liveSegs (g : GuestMem) (iov : Nat) : Nat → Nat → Nat
  | _, 0 => 0
  | i, n + 1 => (if segLen g iov i = 0 then 0 else 1) + liveSegs g iov (i + 1) n

def byteCount : IoReply → Nat
  | .ok n => n
  | .error _ => 0

def HostOps.Prompt (H : HostOps) : Prop := ∀ buf σ, (H.fileWrite buf σ).1.1 ≠ some .wouldBlock

section Write

variable {f : OpenFile} {g : GuestMem} {base len : Nat}

/-- What one write does. -/
inductive Wrote (f : OpenFile) (g : GuestMem) (base len : Nat) (t : Writer V) :
    IoReply × Writer V → Prop
  | took {n : Nat} {t' : Writer V} (hn : n ≤ len) (hgiven : t'.given = t.given ++
      (bytesFrom g.bytes base len).take n) (hwait : t'.wait = t.wait) :
        Wrote f g base len t (.ok n, t')
  | refused {e : IoErrno} {t' : Writer V} (hgiven : t'.given = t.given) (hwait : t'.wait = t.wait) :
      Wrote f g base len t (.error e, t')
  | parked {t' : Writer V} (hsingle : f.kind.singleSegment = true) (hgiven : t'.given = t.given)
      (hnone : t.wait = none) (hwait : t'.wait = some (.buffer base len)) :
      Wrote f g base len t (.ok 0, t')
  | stalled {t' : Writer V} (hkind : f.kind = .hostfs) (hprompt : ¬ V.host.Prompt)
      (hgiven : t'.given = t.given) (hnone : t.wait = none) (hwait : t'.wait = some .syscall) :
      Wrote f g base len t (.error .eagain, t')

theorem directWrite_wrote (t : Writer V) :
    Wrote f g base len t (directWrite (bytesFrom g.bytes base len) t) := by
  unfold directWrite
  split
  · exact .refused rfl rfl
  · rename_i n σ heq
    refine .took ?_ rfl rfl
    have hle := V.ops.write_le (bytesFrom g.bytes base len) t.ops n (by rw [heq])
    rwa [bytesFrom_length] at hle

theorem parkBuffer_wrote {t t' : Writer V} (hsingle : f.kind.singleSegment = true)
    (nonblock : Bool) (hgiven : t'.given = t.given) (hwait : t'.wait = t.wait) :
    Wrote f g base len t (parkBuffer nonblock base len t') := by
  unfold parkBuffer waitBegin
  split
  · exact .refused hgiven hwait
  split
  · rename_i heq
    split at heq
    · cases heq
    rename_i hfree
    cases heq
    have hnone : t'.wait = none := by
      cases hw : t'.wait with
      | none => rfl
      | some w => simp [hw] at hfree
    exact .parked hsingle hgiven (hwait ▸ hnone) rfl
  · rename_i heq
    split at heq
    · cases heq
      exact .refused hgiven hwait
    · cases heq

theorem streamWrite_wrote (hsingle : f.kind.singleSegment = true) (nonblock : Bool)
    (t : Writer V) : Wrote f g base len t (streamWrite nonblock g base len t) := by
  have hdirect : Wrote f g base len t (directWrite (bytesFrom g.bytes base len) t) :=
    directWrite_wrote t
  have hkept : ∀ e t', directWrite (bytesFrom g.bytes base len) t = (.error e, t') →
      t'.given = t.given ∧ t'.wait = t.wait := by
    intro e t' heq
    unfold directWrite at heq
    split at heq
    · cases heq
      exact ⟨rfl, rfl⟩
    · cases heq
  unfold streamWrite
  split
  · rename_i heq
    obtain ⟨hgiven, hwait⟩ := hkept _ _ heq
    exact parkBuffer_wrote hsingle nonblock hgiven hwait
  · next heq => rwa [heq] at hdirect

theorem hostfsPark_cases (t : Writer V) :
    hostfsPark t = t ∨ t.wait = none ∧ hostfsPark t = { t with wait := some .syscall } := by
  unfold hostfsPark waitBegin
  cases hw : t.wait with
  | some w => exact .inl rfl
  | none =>
    cases t.intent with
    | true => exact .inl rfl
    | false => exact .inr ⟨rfl, rfl⟩

theorem errnoFromErr_ok {e : LxpErr} {n : Nat} (h : errnoFromErr e = .ok n) : n = 0 := by
  cases e <;> cases h
  rfl

theorem hostfsWrite_wrote (hkind : f.kind = .hostfs) (t : Writer V) :
    Wrote f g base len t (hostfsWrite f (bytesFrom g.bytes base len) t) := by
  unfold hostfsWrite
  split
  · exact .refused rfl rfl
  split
  · exact .refused rfl rfl
  split
  · exact .refused rfl rfl
  rcases hw : V.host.fileWrite (bytesFrom g.bytes base len) t.host with ⟨⟨rc, done⟩, σ⟩
  dsimp only
  split
  · rename_i hrc
    have hprompt : ¬ V.host.Prompt := by
      intro hprompt
      apply hprompt (bytesFrom g.bytes base len) t.host
      rw [hw]
      exact hrc
    rcases hostfsPark_cases { t with host := σ } with heq | ⟨hnone, heq⟩
    · rw [heq]
      exact .refused rfl rfl
    · rw [heq]
      exact .stalled hkind hprompt rfl hnone rfl
  · split
    · exact .refused rfl rfl
    rename_i hle
    rw [bytesFrom_length] at hle
    cases rc with
    | none => exact .took (by omega) rfl rfl
    | some e =>
      dsimp only
      cases herr : errnoFromErr e with
      | error e => exact .refused rfl rfl
      | ok n =>
        obtain rfl := errnoFromErr_ok herr
        exact .took (Nat.zero_le _) (by simp) rfl

theorem vecWrite_wrote (f : OpenFile) (g : GuestMem) (base len : Nat) (t : Writer V) :
    Wrote f g base len t (vecWrite f g base len t) := by
  unfold vecWrite
  split
  · exact .refused rfl rfl
  split
  · exact .refused rfl rfl
  unfold opsWrite
  cases hkind : f.kind with
  | console | tmpfs | eventfd => exact directWrite_wrote t
  | pipe | dev | socket | pty => exact streamWrite_wrote (by rw [hkind]; rfl) f.nonblock t
  | hostfs => exact hostfsWrite_wrote hkind t
  | _ => exact .refused rfl rfl

end Write

/-! ## Whole calls -/

section Loop

/-- What the loop leaves: `k` bytes of the segments from `i` on were given. -/
structure Looped (f : OpenFile) (g : GuestMem) (iov i n total : Nat) (t : Writer V)
    (a : IoReply × Writer V) (k : Nat) : Prop where
  le : k ≤ (vecBytes g iov i n).length
  given : a.2.given = t.given ++ (vecBytes g iov i n).take k
  answer : a.1 = .ok (total + k) ∨ total + k = 0 ∧ ∃ e, a.1 = .error e
  -- A task that the loop parked has given nothing.
  wait : a.2.wait = t.wait ∨ total + k = 0 ∧ t.wait = none ∧
    ((f.kind = .hostfs ∧ a.2.wait = some .syscall) ∨
      ∃ base len, a.2.wait = some (.buffer base len) ∧
        bytesFrom g.bytes base len <+: vecBytes g iov i n)

theorem orTotal_answer (total : Nat) (e : IoErrno) :
    orTotal total e = .ok (total + 0) ∨ total + 0 = 0 ∧ ∃ e', orTotal total e = .error e' := by
  unfold orTotal
  split
  · next hzero => exact .inr ⟨hzero, e, rfl⟩
  · exact .inl rfl

theorem bytesFrom_front (h : Nat → UInt8) (a : Nat) {m n : Nat} (hle : m ≤ n) :
    bytesFrom h a m <+: bytesFrom h a n := by
  obtain ⟨d, rfl⟩ := Nat.exists_eq_add_of_le hle
  rw [bytesFrom_add]
  exact prefix_append _ _

theorem writevLoop_looped (f : OpenFile) (g : GuestMem) (iov n i total budget : Nat) (t : Writer V)
    (hsingle : f.kind.singleSegment = true → total = 0)
    (hcalm : f.kind = .hostfs → V.host.Prompt ∨
      liveSegs g iov i n + (if total = 0 then 0 else 1) ≤ 1) :
    ∃ k, Looped f g iov i n total t (writevLoop f g iov n i total budget t) k := by
  induction n generalizing i total budget t with
  | zero => exact ⟨0, Nat.le_refl _, by simp [writevLoop], .inl rfl, .inl rfl⟩
  | succ n ih =>
    rw [writevLoop]
    split
    · exact ⟨0, Nat.zero_le _, by simp, orTotal_answer total _, .inl rfl⟩
    split
    · rename_i hempty
      have hskip : vecBytes g iov i (n + 1) = vecBytes g iov (i + 1) n := by
        rw [vecBytes, hempty]
        rfl
      obtain ⟨k, hk⟩ := ih (i + 1) total budget t hsingle fun hkind => by
        rcases hcalm hkind with h | h
        · exact .inl h
        · rw [liveSegs] at h
          exact .inr (by omega)
      exact ⟨k, hskip ▸ hk.le, hskip ▸ hk.given, hk.answer, hskip ▸ hk.wait⟩
    · rename_i hlive
      dsimp only
      generalize hlen : min (segLen g iov i) budget = len
      have hle : len ≤ segLen g iov i := by omega
      have hfront : bytesFrom g.bytes (segBase g iov i) len <+: vecBytes g iov i (n + 1) :=
        (bytesFrom_front g.bytes _ hle).trans (prefix_append _ _)
      have hfrontLength := hfront.length_le
      rw [bytesFrom_length] at hfrontLength
      have hwrote := vecWrite_wrote f g (segBase g iov i) len t
      generalize vecWrite f g (segBase g iov i) len t = a at hwrote
      cases hwrote with
      | @took r t' hr hgiven hwait =>
        have htaken : (bytesFrom g.bytes (segBase g iov i) len).take r =
            (vecBytes g iov i (n + 1)).take r := by
          obtain ⟨rest, hrest⟩ := hfront
          rw [← hrest, take_append_of_le_length (by rwa [bytesFrom_length])]
        dsimp only
        rw [if_neg (by omega)]
        split
        · exact ⟨r, by omega, by rw [hgiven, htaken], .inl rfl, .inl hwait⟩
        rename_i hmore
        -- The segment was taken whole and there is budget left.
        simp only [not_or, Bool.not_eq_true] at hmore
        obtain ⟨hmulti, hall, hfit, -⟩ := hmore
        have hrlen : r = segLen g iov i := by omega
        obtain ⟨k, hk⟩ := ih (i + 1) (total + r) (budget - r) t'
          (fun h => by rw [hmulti] at h; cases h) fun hkind => by
            rcases hcalm hkind with h | h
            · exact .inl h
            · rw [liveSegs, if_neg hlive] at h
              right
              split <;> omega
        have hvec : vecBytes g iov i (n + 1) =
            bytesFrom g.bytes (segBase g iov i) r ++ vecBytes g iov (i + 1) n := by
          rw [hrlen]
          rfl
        have hkle := hk.le
        refine ⟨r + k, ?_, ?_, ?_, ?_⟩
        · rw [hvec, length_append, bytesFrom_length]
          omega
        · rw [hk.given, hgiven, hvec, show len = r by omega, take_append]
          simp
        · rw [← Nat.add_assoc]
          exact hk.answer
        · rcases hk.wait with h | ⟨h, -⟩
          · exact .inl (h.trans hwait)
          · omega
      | refused hgiven hwait =>
        exact ⟨0, Nat.zero_le _, by simp [hgiven], orTotal_answer total _, .inl hwait⟩
      | parked hpark hgiven hnone hwait =>
        dsimp only
        rw [if_neg (Nat.not_lt_zero _), if_pos (.inl hpark)]
        exact ⟨0, Nat.zero_le _, by simp [hgiven], .inl rfl,
          .inr ⟨hsingle hpark, hnone, .inr ⟨_, _, hwait, hfront⟩⟩⟩
      | stalled hkind hprompt hgiven hnone hwait =>
        have htotal : total = 0 := by
          rcases hcalm hkind with h | h
          · exact absurd h hprompt
          · rw [liveSegs, if_neg hlive] at h
            by_contra hne
            rw [if_neg hne] at h
            omega
        exact ⟨0, Nat.zero_le _, by simp [hgiven], orTotal_answer total _,
          .inr ⟨htotal, hnone, .inl ⟨hkind, hwait⟩⟩⟩

end Loop

section Runs

variable {f : Option OpenFile} {g : GuestMem} {iov : Nat} {iovcnt : Int}

/-- The descriptor is not that of a host file, or the host file system never blocks, or there is one
segment at most that has bytes. -/
def Calm (V : VecConfig) (f : Option OpenFile) (g : GuestMem) (iov : Nat) (iovcnt : Int) : Prop :=
  ∀ o, f = some o → o.kind = .hostfs → V.host.Prompt ∨ liveSegs g iov 0 iovcnt.toNat ≤ 1

abbrev callBytes (g : GuestMem) (iov : Nat) (iovcnt : Int) : Bytes :=
  vecBytes g iov 0 iovcnt.toNat

/-- The answer `r` and the bytes given agree. -/
def Honest (g : GuestMem) (iov : Nat) (iovcnt : Int) (r : IoReply) (t : Writer V) : Prop :=
  byteCount r ≤ (callBytes g iov iovcnt).length ∧
    t.given = (callBytes g iov iovcnt).take (byteCount r)

/-- A parked task has given nothing, and what it waits with is the beginning of the call's bytes. -/
def Waiting (g : GuestMem) (iov : Nat) (iovcnt : Int) (t : Writer V) : Prop :=
  t.given = [] ∧ (t.wait = some .syscall ∨
    ∃ base len, t.wait = some (.buffer base len) ∧
      bytesFrom g.bytes base len <+: callBytes g iov iovcnt)

variable {t : Writer V}

section

variable (hcalm : Calm V f g iov iovcnt)
include hcalm

/-- One dispatch of the call by a task that has given nothing. -/
theorem sysWritev_spec (hgiven : t.given = []) :
    Honest g iov iovcnt (sysWritev f g iov iovcnt t).1 (sysWritev f g iov iovcnt t).2 ∧
    ((sysWritev f g iov iovcnt t).2.wait = t.wait ∨
      Waiting g iov iovcnt (sysWritev f g iov iovcnt t).2) := by
  have hrefused : ∀ e, Honest g iov iovcnt (.error e) t := fun e => ⟨Nat.zero_le _, hgiven⟩
  unfold sysWritev
  split
  · exact ⟨hrefused _, .inl rfl⟩
  split
  · exact ⟨hrefused _, .inl rfl⟩
  cases f with
  | none => exact ⟨hrefused _, .inl rfl⟩
  | some o =>
    dsimp only
    obtain ⟨k, hk⟩ := writevLoop_looped o g iov iovcnt.toNat 0 0 V.quantum t
      (fun _ => rfl) fun hkind => by simpa using hcalm o rfl hkind
    generalize writevLoop o g iov iovcnt.toNat 0 0 V.quantum t = a at hk
    have hgave : a.2.given = (callBytes g iov iovcnt).take k := by
      rw [hk.given, hgiven, nil_append]
    refine ⟨?_, ?_⟩
    · rcases hk.answer with hr | ⟨hzero, e, hr⟩
      · rw [Nat.zero_add] at hr
        rw [hr]
        exact ⟨hk.le, hgave⟩
      · obtain rfl : k = 0 := by omega
        rw [hr]
        exact ⟨Nat.zero_le _, hgave⟩
    · rcases hk.wait with h | ⟨hzero, -, h⟩
      · exact .inl h
      obtain rfl : k = 0 := by omega
      refine .inr ⟨hgave, ?_⟩
      rcases h with ⟨-, h⟩ | h
      · exact .inl h
      · exact .inr h

/-- What is kept between the steps of a call. -/
def VecKept (g : GuestMem) (iov : Nat) (iovcnt : Int) : VecPhase → Writer V → Prop
  | .parked, t => Waiting g iov iovcnt t
  | .done r, t => Honest g iov iovcnt r t

theorem executeWritev_kept (hgiven : t.given = []) (hnone : t.wait = none) :
    VecKept g iov iovcnt (executeWritev f g iov iovcnt t).1 (executeWritev f g iov iovcnt t).2 := by
  obtain ⟨hhonest, hwait⟩ := sysWritev_spec hcalm hgiven
  unfold executeWritev
  generalize sysWritev f g iov iovcnt t = a at hhonest hwait
  obtain ⟨r, t'⟩ := a
  dsimp only
  split
  · rename_i hsome
    rcases hwait with h | h
    · rw [show t'.wait = none from h.trans hnone] at hsome
      cases hsome
    · exact h
  · exact hhonest

theorem retryWritev_kept (h : Waiting g iov iovcnt t) :
    VecKept g iov iovcnt (retryWritev f g iov iovcnt t).1 (retryWritev f g iov iovcnt t).2 := by
  obtain ⟨hgiven, hwait | ⟨base, len, hwait, hfront⟩⟩ := h
  · obtain ⟨hhonest, hkept⟩ := sysWritev_spec hcalm hgiven
    unfold retryWritev
    rw [hwait]
    dsimp only
    generalize sysWritev f g iov iovcnt t = a at hhonest hkept
    obtain ⟨r, t'⟩ := a
    split
    · rename_i hagain
      -- The call would still block: the dispatch gave nothing.
      obtain ⟨hr, hstill⟩ := hagain
      obtain ⟨-, hgave⟩ := hhonest
      rw [show r = .error .eagain from hr] at hgave
      exact ⟨hgave, .inl hstill⟩
    · exact hhonest
  · unfold retryWritev
    rw [hwait]
    dsimp only
    split
    · rename_i heq
      unfold directWrite at heq
      split at heq
      · cases heq
        exact ⟨hgiven, .inr ⟨base, len, hwait, hfront⟩⟩
      · cases heq
    rename_i heq
    unfold directWrite at heq
    split at heq
    · cases heq
      exact ⟨Nat.zero_le _, hgiven⟩
    rename_i n σ hwrite
    cases heq
    have hle := V.ops.write_le _ _ n (congrArg Prod.fst hwrite)
    obtain ⟨rest, hrest⟩ := hfront
    refine ⟨?_, ?_⟩
    · rw [← hrest, length_append]
      exact Nat.le_add_right_of_le hle
    · show t.given ++ (bytesFrom g.bytes base len).take n = (callBytes g iov iovcnt).take n
      rw [hgiven, ← hrest, take_append_of_le_length hle, nil_append]

theorem WritevRuns.kept {phase : VecPhase}
    (h : WritevRuns V f g iov iovcnt phase t) : VecKept g iov iovcnt phase t := by
  induction h with
  | issue ops host intent => exact executeWritev_kept hcalm rfl rfl
  | world ops host intent h ih => exact ih
  | retry h ih => exact retryWritev_kept hcalm ih

end

end Runs

/-- Where a host file gets one segment with bytes at most, or its file system never blocks, a
`writev` gives the first `n` bytes of its segments, where `n` is what it answers. -/
theorem writev_gives {f : Option OpenFile} {g : GuestMem} {iov : Nat} {iovcnt : Int}
    (hcalm : Calm V f g iov iovcnt) {r : IoReply} {t : Writer V}
    (h : WritevRuns V f g iov iovcnt (.done r) t) : byteCount r ≤ (callBytes g iov iovcnt).length ∧
      t.given = (callBytes g iov iovcnt).take (byteCount r) :=
  h.kept hcalm

def twoSegments : GuestMem where
  bytes a := if a = 0 then 32 else if a = 8 then 33 else if a = 4 ∨ a = 12 then 1
    else if a = 32 then 65 else if a = 33 then 66 else 0
  access _ _ := true

def blocksOnce : VecConfig where
  maxIov := 4
  quantum := 16
  ops :=
    { State := Nat
      write := fun buf σ => if σ = 0 then (.error .eagain, 1) else (.ok buf.length, σ)
      write_le := by
        intro buf σ n h
        split at h
        · cases h
        · injection h with h
          exact Nat.le_of_eq h.symm }
  host :=
    { State := Nat
      fileWrite := fun buf σ =>
        if σ = 1 then ((some .wouldBlock, 0), 2) else ((none, buf.length), σ + 1) }

def openAs (kind : FdKind) : OpenFile := ⟨kind, true, false, true, false, false⟩

theorem writev_gives_pipe : ∃ (r : IoReply) (t : Writer blocksOnce),
    WritevRuns blocksOnce (some (openAs .pipe)) twoSegments 0 2 (.done r) t ∧ r = .ok 1 ∧
      t.given = (callBytes twoSegments 0 2).take (byteCount r) := by
  have hcalm : Calm blocksOnce (some (openAs .pipe)) twoSegments 0 2 := by
    intro o ho hkind
    cases ho
    cases hkind
  have hparked : WritevRuns blocksOnce (some (openAs .pipe)) twoSegments 0 2 .parked _ :=
    @WritevRuns.issue blocksOnce (some (openAs .pipe)) twoSegments 0 2 (0 : Nat) (0 : Nat) false
  have hdone : WritevRuns blocksOnce (some (openAs .pipe)) twoSegments 0 2 (.done _) _ :=
    hparked.retry
  exact ⟨_, _, hdone, rfl, (writev_gives hcalm hdone).2⟩

/-- The second segment of a write to a host file blocks after the first went through: the retry
writes the first again, and the call answers 2 for three bytes. -/
theorem writev_repeats : ∃ (r : IoReply) (t : Writer blocksOnce),
    WritevRuns blocksOnce (some (openAs .hostfs)) twoSegments 0 2 (.done r) t ∧ r = .ok 2 ∧
      callBytes twoSegments 0 2 = [65, 66] ∧ t.given = [65, 65, 66] := by
  have hparked : WritevRuns blocksOnce (some (openAs .hostfs)) twoSegments 0 2 .parked _ :=
    @WritevRuns.issue blocksOnce (some (openAs .hostfs)) twoSegments 0 2 (0 : Nat) (0 : Nat) false
  have hdone : WritevRuns blocksOnce (some (openAs .hostfs)) twoSegments 0 2 (.done _) _ :=
    hparked.retry
  exact ⟨_, _, hdone, rfl, by decide +kernel, by decide +kernel⟩

end Lxp.Stream
