import Lxp.Netfs.Reply

/-!
# Tasks, open descriptions and the 9P client

`pump`, the calls a guest makes, the retry of a parked call, cancellation, and the ways in which a
task ends, as events of one system.  A run is any sequence of events; between two events the
coordinator holds no other state.
-/

namespace Lxp.Netfs

open Function

namespace Client

variable {C : Config}

/-! ## The pump -/

def ownedBy (r : NetReq C.nslot) (v : Option (View C.nslot)) : Bool :=
  match r.owner, v with
  | some owner, some v => owner == v.ref
  | _, _ => false

/-- The reply loop of `pump` for the request in flight.  It answers whether the pass goes on; every
message takes seven bytes at least, so as many turns as bytes are enough. -/
def drain (v : Option (View C.nslot)) (ri : Fin nreq) : Nat → Client C → Bool × Client C
  | 0, x => (true, x)
  | turns + 1, x =>
    match rxMessage x.rx with
    | none => (false, { x with overread := true })
    | some .bad => (false, x.connDrop)
    | some .incomplete => (true, x)
    | some (.message len) =>
      match (x.rx[4]?).bind fun type => x.handleReply v ri type ((x.rx.take len).drop 7) with
      | none => (false, { x with overread := true })
      | some y =>
        let y := y.rxConsume len
        if (y.reqs ri).state = .inflight ∧ y.inflight ≠ none then
          -- the reply advanced a step
          match y.reqBuild ri with
          | (some e, y) => (true, y.complete ri e.neg)
          | (none, y) =>
            match y.txFlush with
            | (.failed, y) => (false, y.connDrop)
            | (_, y) => drain v ri turns y
        else if y.inflight ≠ none then drain v ri turns y
        else (true, y)

/-- The queued request with the lowest sequence number below `bseq`. -/
def best (x : Client C) : Option (Fin nreq) :=
  ((List.finRange nreq).foldl
    (fun (acc : Option (Fin nreq) × Nat) ri =>
      if (x.reqs ri).state = .queued ∧ (x.reqs ri).seq < acc.2 then (some ri, (x.reqs ri).seq)
      else acc)
    (none, 0xffffffff)).1

def firstFree (x : Client C) : Option (Fin nreq) :=
  (List.finRange nreq).find? fun ri => (x.reqs ri).state = .free

/-- The end of a launch: a transport error drops the connection. -/
def flushOrDrop (x : Client C) : Client C :=
  match x.txFlush with
  | (.failed, x) => x.connDrop
  | (_, x) => x

/-- A queued guest request goes on the wire. -/
def launchRequest (x : Client C) (ri : Fin nreq) : Client C :=
  match x.reqBuild ri with
  | (some e, x) => x.complete ri e.neg
  | (none, x) =>
    flushOrDrop
      { x.updReq ri fun r => { r with state := .inflight } with inflight := some ri }

/-- A background clunk through a throwaway internal request. -/
def launchClunk (x : Client C) (ri : Fin nreq) (f : Nat) (rest : List Nat) : Client C :=
  let x :=
    { x.updReq ri fun _ => { op := .clunk, fid := f, state := .inflight } with
      clunks := rest
      inflight := some ri }
  flushOrDrop (x.post (.clunk f))

/-- The last part of `pump`. -/
def launch (x : Client C) (v : Option (View C.nslot)) : Client C :=
  if x.inflight = none ∧ x.tx = [] then
    match x.best with
    | some ri => if ownedBy (x.reqs ri) v then x.launchRequest ri else x
    | none =>
      match x.clunks, x.firstFree with
      | f :: rest, some ri => x.launchClunk ri f rest
      | _, _ => x
  else x

/-- The part of `pump` on an established connection. -/
def pumpUp (x : Client C) (v : Option (View C.nslot)) : Client C :=
  match x.txFlush with
  | (.failed, x) => x.connDrop
  | (.more, x) => x
  | (.flushed, x) =>
    match x.inflight with
    | none => x.launch v
    | some ri =>
      let r := x.reqs ri
      if r.op ≠ .clunk ∧ r.owner ≠ none ∧ ownedBy r v = false then x
      else
        match x.rxFill with
        | none => x.connDrop
        | some x =>
          match drain v ri x.rx.length x with
          | (false, x) => x
          | (true, x) => x.launch v

def pump (x : Client C) (v : Option (View C.nslot)) (now : Nat) : Client C :=
  let x := if x.conn = .up then x else x.connAdvance now
  if x.conn = .up then x.pumpUp v else x

def withWire (x : Client C) (wire : Wire) : Client C := { x with wire := wire }

def guestOwned (x : Client C) (ri : Fin nreq) : Bool := (x.reqs ri).owner.isSome

def tick (x : Client C) (now : Nat) : Client C :=
  if x.inflight.any x.guestOwned then x
  else if (List.finRange nreq).any fun ri => (x.reqs ri).state = .queued ∧ x.guestOwned ri then x
  else x.pump none now

def close (x : Client C) (oi : Fin nopen) : Client C :=
  let op := x.opens oi
  if op.used then
    (if op.stale = false ∧ 0 < op.fid then x.clunkEnqueue op.fid else x.fidFree op.fid).updOpen oi
      fun o => { o with used := false }
  else x

end Client

/-! ## Tasks -/

inductive Intent where
  | none
  | exit (group : Bool)
  -- A staged image is to be executed.
  | exec
deriving DecidableEq, Repr

structure NetWait where
  op : Op
  -- `none` once the result was taken or the request cancelled.
  request : Option (Fin nreq)
deriving DecidableEq, Repr

def NetWait.taken (w : NetWait) : NetWait := { w with request := none }

structure Task where
  alive : Bool := false
  generation : Nat := 0
  group : Nat := 0
  stopped : Bool := false
  intent : Intent := .none
  wait : Option NetWait := none
deriving DecidableEq, Repr

structure World (C : Config) where
  net : Client C := {}
  tasks : C.Slot → Task := fun _ => {}
  -- Open file descriptions of remote files; the other kinds are not part of this system.
  descs : Fin C.nofd → Option (Fin nopen) := fun _ => none
  stageOwner : Option C.Slot := none

namespace World

variable {C : Config}

def ref (x : World C) (s : C.Slot) : SlotRef C.nslot := ⟨s, (x.tasks s).generation⟩

def updTask (x : World C) (s : C.Slot) (f : Task → Task) : World C :=
  { x with tasks := update x.tasks s (f (x.tasks s)) }

/-- A task in a system call: it runs, and nothing is pending for it. -/
def calling (x : World C) (s : C.Slot) : Bool :=
  (x.tasks s).alive && (x.tasks s).wait.isNone && (x.tasks s).intent == .none &&
    !(x.tasks s).stopped

/-! ## Calls that park -/

/-- What `req_new` and its callers make of the free request `ri`; the task waits for it. -/
def issue (x : World C) (s : C.Slot) (ri : Fin nreq) (r : NetReq C.nslot) : World C :=
  let r := { r with
    state := .queued, owner := some (x.ref s), seq := x.net.reqSeq, id := x.net.nextId }
  let net := { x.net.updReq ri fun _ => r with
    reqSeq := (x.net.reqSeq + 1) % 2 ^ 32
    nextId := x.net.nextId + 1
    log := .issue r.id (x.ref s) r.buffer.1 r.buffer.2 :: x.net.log }
  { x with net := net }.updTask s fun t =>
    { t with wait := some { op := r.op, request := some ri } }

-- `req_new`; `none` where no request is free.
def reqNew (x : World C) (s : C.Slot) (r : NetReq C.nslot) : Option (World C) :=
  x.net.firstFree.map fun ri => x.issue s ri r

/-- What a call did: it answered at once, or its task is parked. -/
inductive Outcome where
  | answer (rc : Int)
  | parked
deriving DecidableEq, Repr

def park (x : World C) (s : C.Slot) (r : NetReq C.nslot) : Outcome × World C :=
  match x.reqNew s r with
  | none => (.answer Errno.emfile.neg, x)
  | some x => (.parked, x)

def oWriteMask : Nat := 0x1 ||| 0x2 ||| 0x40 ||| 0x200

-- `path` is what `relpath` leaves of the absolute path.
def netfsOpen (x : World C) (s : C.Slot) (path : Bytes) (flags : Nat) : Outcome × World C :=
  if flags &&& oWriteMask ≠ 0 then (.answer Errno.erofs.neg, x)
  else if path.length ≥ pathMax then (.answer Errno.enametoolong.neg, x)
  else
    match (List.finRange nopen).find? fun oi => !(x.net.opens oi).used with
    | none => (.answer Errno.emfile.neg, x)
    | some oi =>
      match x.reqNew s { op := .openFile, oi := oi, flags := flags, path := path } with
      | none => (.answer Errno.emfile.neg, x)
      | some x => (.parked, { x with net := x.net.updOpen oi fun _ => { used := true } })

def netfsRead (x : World C) (s : C.Slot) (oi : Fin nopen) (ubuf len : Nat)
    (access : Nat → Nat → Bool) : Outcome × World C :=
  match x.net.openSlot oi with
  | none => (.answer Errno.ebadf.neg, x)
  | some op =>
    if op.stale then (.answer Errno.estale.neg, x)
    else if op.isDir then (.answer Errno.eisdir.neg, x)
    else if len = 0 then (.answer 0, x)
    else if !access ubuf len then (.answer Errno.efault.neg, x)
    else x.park s { op := .read, oi := oi, ubuf := ubuf, ulen := len }

def netfsGetdents (x : World C) (s : C.Slot) (oi : Fin nopen) (ubuf cap : Nat) (is64 : Bool)
    (access : Nat → Nat → Bool) : Outcome × World C :=
  match x.net.openSlot oi with
  | none => (.answer Errno.ebadf.neg, x)
  | some op =>
    if op.stale then (.answer Errno.estale.neg, x)
    else if !op.isDir then (.answer Errno.enotdir.neg, x)
    else if !access ubuf cap then (.answer Errno.efault.neg, x)
    else x.park s { op := .getdents, oi := oi, ubuf := ubuf, ulen := cap, is64 := is64 }

-- `lxp_netfs_stat`, which also serves `lxp_netfs_access` and `lxp_netfs_chdir`.
def netfsStat (x : World C) (s : C.Slot) (path : Bytes) (ustat : Nat)
    (statkind : StatKind) : Outcome × World C :=
  if path.length ≥ pathMax then (.answer Errno.enametoolong.neg, x)
  else x.park s { op := .stat, ubuf := ustat, statkind := statkind, path := path }

def netfsAccess (x : World C) (s : C.Slot) (path : Bytes) (mode : Nat) : Outcome × World C :=
  if mode &&& 2 ≠ 0 then (.answer Errno.erofs.neg, x) else x.netfsStat s path 0 .exists

def netfsChdir (x : World C) (s : C.Slot) (path : Bytes) : Outcome × World C :=
  x.netfsStat s path 0 .chdir

def waitsForStage (t : Task) : Bool :=
  t.alive &&
    (t.intent == .exec || t.wait.any fun w => w.op == .execfetch)

def execStageClaim (x : World C) (s : C.Slot) : Option Errno × World C :=
  if C.stageCap = 0 then (some .enomem, x)
  else if x.stageOwner.any fun o => o ≠ s ∧ waitsForStage (x.tasks o) then (some .eagain, x)
  else (none, { x with stageOwner := some s })

def netfsExecFetch (x : World C) (s : C.Slot) (path : Bytes) : Outcome × World C :=
  if path.length ≥ pathMax then (.answer Errno.enametoolong.neg, x)
  else
    match x.execStageClaim s with
    | (some e, x) => (.answer e.neg, x)
    | (none, x) =>
      { x with net := { x.net with execSize := 0 } }.park s { op := .execfetch, path := path }

/-- `execve` of a local program.  One that cannot be loaded in place is staged, `size` bytes. -/
def sysExecve (x : World C) (s : C.Slot) (size : Option Nat) : World C :=
  match size.elim (none, x) fun _ => x.execStageClaim s with
  | (some _, x) => x
  | (none, x) =>
    if size.any (C.stageCap < ·) then x else x.updTask s fun t => { t with intent := .exec }

def netfsLseek (x : World C) (oi : Fin nopen) (off : Int) (whence : Nat) : Int × World C :=
  match x.net.openSlot oi with
  | none => (Errno.ebadf.neg, x)
  | some op =>
    if op.isDir then (Errno.eisdir.neg, x)
    else
      let base := if whence = 1 then op.rdOff else if whence = 2 then op.size else 0
      if base > 2 ^ 63 - 1 ∨ (off > 0 ∧ (base : Int) > 2 ^ 63 - 1 - off) then
        (Errno.eoverflow.neg, x)
      else if (base : Int) + off < 0 then (Errno.einval.neg, x)
      else
        (base + off,
          { x with net := x.net.updOpen oi fun o => { o with rdOff := (base + off).toNat } })

/-! ## Retrying and cancelling -/

/-- What the rest of the system answers to one retry. -/
structure RetryInput (C : Config) where
  now : Nat
  wire : Wire
  access : Nat → Nat → Bool
  -- The description that `lxp_fd_install` takes, `none` where it finds none or no descriptor.
  install : Option (Fin C.nofd)
  -- `lxp_loader_validate_fdpic` accepts the staged image.
  imageOk : Bool

/-- The request is free and its result taken. -/
def taken (x : World C) (s : C.Slot) (ri : Fin nreq) : World C :=
  let net := (x.net.updReq ri fun r => { r with state := .free }).record
    (.take (x.net.reqs ri).id (x.ref s))
  { x with net := net }.updTask s fun t => { t with wait := t.wait.map NetWait.taken }

/-- What `lxp_netfs_retry` does with a finished request. -/
def takeResult (x : World C) (s : C.Slot) (ri : Fin nreq) (input : RetryInput C) : Int × World C :=
  let r := x.net.reqs ri
  let x := x.taken s ri
  if r.op = .openFile ∧ r.result ≥ 0 then
    match input.install.filter fun d => (x.descs d).isNone with
    | none => (Errno.emfile.neg, { x with net := x.net.close r.oi })
    | some d => (d.val, { x with descs := update x.descs d (some r.oi) })
  else if r.op = .execfetch ∧ r.result ≥ 0 then
    if input.imageOk then
      let x := x.updTask s fun t => { t with wait := none }
      if (x.tasks s).intent = .none then (0, x.updTask s fun t => { t with intent := .exec })
      else (Errno.eagain.neg, x)
    else (Errno.enoexec.neg, x)
  else (r.result, x)

def netfsRetry (x : World C) (s : C.Slot) (w : NetWait) (input : RetryInput C) : Int × World C :=
  match w.request with
  | none => (Errno.ebadf.neg, x)
  | some ri =>
    if (x.net.reqs ri).owner ≠ some (x.ref s) then (Errno.estale.neg, x)
    else
      let v := some { ref := x.ref s, access := input.access }
      let x := { x with net := (x.net.withWire input.wire).pump v input.now }
      if (x.net.reqs ri).state ≠ .done then (Errno.eagain.neg, x)
      else x.takeResult s ri input

-- `lxp_blocked_retry_netfs`: `none` where the task stays parked.
def blockedRetry (x : World C) (s : C.Slot) (input : RetryInput C) : Option Int × World C :=
  match (x.tasks s).wait with
  | none => (none, x)
  | some w =>
    match x.netfsRetry s w input with
    | (rc, x) =>
      if rc = Errno.eagain.neg then (none, x)
      else (some rc, x.updTask s fun t => { t with wait := none })

/-- The owner is detached; a request that is not on the wire is reclaimed at once. -/
def cancelled (x : World C) (ri : Fin nreq) : World C :=
  let net := (x.net.updReq ri fun r => { r with owner := none, ubuf := 0 }).record
    (.interrupt (x.net.reqs ri).id)
  { x with net :=
      if (x.net.reqs ri).state = .inflight then net
      else (net.release ri).updReq ri fun r => { r with state := .free } }

def netfsCancel (x : World C) (s : C.Slot) : World C :=
  match (x.tasks s).wait with
  | none => x
  | some w =>
    match w.request with
    | none => x
    | some ri => if (x.net.reqs ri).owner ≠ some (x.ref s) then x else x.cancelled ri

def interruptWait (x : World C) (s : C.Slot) : World C :=
  (x.netfsCancel s).updTask s fun t => { t with wait := none }

def setIntent (x : World C) (s : C.Slot) (intent : Intent) : World C :=
  x.updTask s fun t => { t with intent := intent }

def requestExit (x : World C) (s : C.Slot) : World C :=
  { x with tasks := fun p =>
      if (x.tasks p).alive ∧ (x.tasks p).group = (x.tasks s).group then
        { x.tasks p with intent := .exit true }
      else x.tasks p }

def stopExecPeers (x : World C) (s : C.Slot) : World C :=
  { x with tasks := fun p =>
      if p ≠ s ∧ (x.tasks p).alive ∧ (x.tasks p).group = (x.tasks s).group then
        { x.tasks p with intent := .exit false }
      else x.tasks p }

/-- The generation is a 32-bit counter that skips zero. -/
def nextGeneration (g : Nat) : Nat := if (g + 1) % 2 ^ 32 = 0 then 1 else (g + 1) % 2 ^ 32

def reassign (x : World C) (s : C.Slot) : World C :=
  let x := { x with net := x.net.record (.exit (x.ref s)) }
  x.updTask s fun t => { t with generation := nextGeneration t.generation }

/-- `lxp_handle_exit`; the descriptors it puts are closed by `close` events before it. -/
def handleExit (x : World C) (s : C.Slot) : World C :=
  let x := if (x.tasks s).intent = .exit true then x.requestExit s else x
  (x.updTask s fun t => { t with alive := false }).reassign s

/-! ## Events -/

inductive Event (C : Config) where
  | netfsOpen (s : C.Slot) (path : Bytes) (flags : Nat)
  | netfsRead (s : C.Slot) (d : Fin C.nofd) (ubuf len : Nat) (access : Nat → Nat → Bool)
  | netfsGetdents (s : C.Slot) (d : Fin C.nofd) (ubuf cap : Nat) (is64 : Bool)
      (access : Nat → Nat → Bool)
  | netfsStat (s : C.Slot) (path : Bytes) (ustat : Nat) (statkind : StatKind)
  | netfsAccess (s : C.Slot) (path : Bytes) (mode : Nat)
  | netfsChdir (s : C.Slot) (path : Bytes)
  | netfsExecFetch (s : C.Slot) (path : Bytes)
  | sysExecve (s : C.Slot) (size : Option Nat)
  | netfsLseek (d : Fin C.nofd) (off : Int) (whence : Nat)
  | close (d : Fin C.nofd)
  | retry (s : C.Slot) (input : RetryInput C)
  | tick (now : Nat) (wire : Wire)
  -- A signal reaches a parked task; a fatal one makes it exit.
  | signal (s : C.Slot) (fatal : Bool)
  | stop (s : C.Slot)
  -- `SIGCONT`, with a handler to run or without.
  | cont (s : C.Slot) (caught : Bool)
  -- A fatal signal for a stopped task.
  | kill (s : C.Slot)
  | exitCall (s : C.Slot) (group : Bool)
  | containment (s : C.Slot)
  -- `execve` reaches its commit point: the peers go, the slot is reassigned.
  | execCommit (s : C.Slot)
  | handleExit (s : C.Slot)
  | spawn (s : C.Slot) (group : Nat)

def step (x : World C) : Event C → World C
  | .netfsOpen s path flags => if x.calling s then (x.netfsOpen s path flags).2 else x
  | .netfsRead s d ubuf len access =>
    match x.descs d with
    | none => x
    | some oi => if x.calling s then (x.netfsRead s oi ubuf len access).2 else x
  | .netfsGetdents s d ubuf cap is64 access =>
    match x.descs d with
    | none => x
    | some oi => if x.calling s then (x.netfsGetdents s oi ubuf cap is64 access).2 else x
  | .netfsStat s path ustat statkind =>
    if x.calling s then (x.netfsStat s path ustat statkind).2 else x
  | .netfsAccess s path mode => if x.calling s then (x.netfsAccess s path mode).2 else x
  | .netfsChdir s path => if x.calling s then (x.netfsChdir s path).2 else x
  | .netfsExecFetch s path => if x.calling s then (x.netfsExecFetch s path).2 else x
  | .sysExecve s size => if x.calling s then x.sysExecve s size else x
  | .netfsLseek d off whence =>
    match x.descs d with
    | none => x
    | some oi => (x.netfsLseek oi off whence).2
  | .close d =>
    match x.descs d with
    | none => x
    | some oi => { x with net := x.net.close oi, descs := update x.descs d none }
  | .retry s input =>
    if (x.tasks s).alive ∧ (x.tasks s).stopped = false then (x.blockedRetry s input).2 else x
  | .tick now wire => { x with net := (x.net.withWire wire).tick now }
  | .signal s fatal =>
    if (x.tasks s).alive ∧ (x.tasks s).stopped = false ∧ (x.tasks s).wait ≠ none then
      let x := x.interruptWait s
      if fatal then x.setIntent s (.exit false) else x
    else x
  | .stop s => if (x.tasks s).alive then x.updTask s fun t => { t with stopped := true } else x
  | .cont s caught =>
    if (x.tasks s).alive ∧ (x.tasks s).stopped then
      let x := x.updTask s fun t => { t with stopped := false }
      if caught then x.interruptWait s else x
    else x
  | .kill s =>
    if (x.tasks s).alive ∧ (x.tasks s).stopped then
      (x.updTask s fun t => { t with stopped := false }).setIntent s (.exit false)
    else x
  | .exitCall s group => if x.calling s then x.setIntent s (.exit group) else x
  | .containment s => if (x.tasks s).alive then x.setIntent s (.exit false) else x
  | .execCommit s =>
    if (x.tasks s).alive ∧ (x.tasks s).intent = .exec ∧ (x.tasks s).wait = none then
      ((x.stopExecPeers s).setIntent s .none).reassign s
    else x
  | .handleExit s =>
    if (x.tasks s).alive ∧ (x.tasks s).intent ∈ [Intent.exit true, .exit false] then
      x.handleExit s
    else x
  | .spawn s group =>
    if (x.tasks s).alive then x
    else
      (x.updTask s fun t => { alive := true, generation := t.generation, group := group }).reassign
        s

/-- `lxp_netfs_init`: an empty client that starts to connect. -/
def init (C : Config) (now : Nat) (wire : Wire) : World C :=
  { net := (({} : Client C).withWire wire).connAdvance now }

/-- States reached by events that all meet `ok` in the state before them. -/
inductive Runs (ok : World C → Event C → Prop) : World C → Prop where
  | init (now : Nat) (wire : Wire) : Runs ok (init C now wire)
  | step {x : World C} (e : Event C) : Runs ok x → ok x e → Runs ok (x.step e)

def run (x : World C) (events : List (Event C)) : World C := events.foldl step x

end World

end Lxp.Netfs
