import Lxp.Stream.Objects

/-!
# Streams that tasks wait on

The pools of pipes, terminals, sockets and open devices, the open-file descriptions that hold their
entries, and the wait records of parked tasks.  A call that would block leaves a record that names
the pool entry by its index; the coordinator repeats the attempt from the record.

Descriptor tables are not in this model: a description is closed when its last descriptor is, by
whichever task that is.  The network provider and the device drivers are arbitrary functions of a
state of their own.
-/

open Function ByteMemory

namespace Lxp.Stream

/-! ## Providers -/

inductive SockType where
  | stream
  | dgram
  | raw
deriving DecidableEq

structure SockAddr where
  port : Nat
  addr : Bytes

/-- Opening or accepting a socket never answers end of file. -/
def Refusal := { e : LxpErr // e ≠ .eof }

def Refusal.errno (e : Refusal) : IoErrno :=
  match netErrnoFromErr e.1 with
  | .error errno => errno
  | .ok _ => .eio

structure NetOps where
  State : Type
  Sock : Type
  null : Sock
  sockOpen : SockType → Int → State → Except Refusal Sock × State
  setNonblock : Sock → State → Option Refusal × State
  sockClose : Sock → State → State
  connect : Sock → SockAddr → State → Option LxpErr × State
  -- Whether the socket is writable, failed or hung up.
  pollOut : Sock → State → Bool × State
  getError : Sock → State → Option LxpErr × State
  send : Sock → Bytes → Option SockAddr → State → Except LxpErr Nat × State
  recv : Sock → Nat → State → Except LxpErr Bytes × State
  recvfrom : Sock → Nat → State → Except LxpErr (Bytes × SockAddr) × State
  accept : Sock → State → Except Refusal Sock × State
  getpeername : Sock → State → Except LxpErr SockAddr × State

structure DevCursor (Priv : Type) where
  pos : Nat
  priv : Priv

structure DevOps where
  State : Type
  Priv : Type
  zero : Priv
  ndev : Nat
  present : Nat → State → Bool
  -- Whether the open reads, writes and is non-blocking.
  «open» : Nat → Option (Bool → Bool → Bool → DevCursor Priv → State →
    Except IoErrno (DevCursor Priv) × State)
  release : Nat → Option (DevCursor Priv → State → State)
  -- The task, the buffer and the length.
  read : Nat → Option (DevCursor Priv → Nat → Nat → Nat → Mem → State →
    IoReply × DevCursor Priv × Mem × State)
  write : Nat → Option (DevCursor Priv → Nat → Nat → Nat → Mem → State →
    IoReply × DevCursor Priv × Mem × State)
  -- The task, the command and the argument.
  ioctl : Nat → Option (DevCursor Priv → Nat → Nat → Nat → Mem → State →
    IoReply × DevCursor Priv × Mem × State)
  sync : Nat → Option (DevCursor Priv → Nat → Mem → State → IoReply × DevCursor Priv × Mem × State)
  -- The length and the page offset; the answer is an address with its attributes.
  mmap : Nat → Option (DevCursor Priv → Nat → Nat → State → Except IoErrno (Nat × Nat) × State)

/-! ## State -/

structure StreamConfig where
  nslot : Nat
  nofd : Nat
  npipe : Nat
  pipeBuf : Nat
  npty : Nat
  ptyBuf : Nat
  nsock : Nat
  ndevopen : Nat
  net : NetOps
  drv : DevOps
  pipeBuf_pos : 0 < pipeBuf
  ptyBuf_pos : 0 < ptyBuf

abbrev StreamConfig.Task (K : StreamConfig) := Fin K.nslot

abbrev StreamConfig.Ofd (K : StreamConfig) := Fin K.nofd

inductive Slot (K : StreamConfig) where
  | pipe (i : Fin K.npipe)
  | pty (i : Fin K.npty)
  | sock (i : Fin K.nsock)
  | dev (i : Fin K.ndevopen)
deriving DecidableEq

structure SockOpen (N : NetOps) where
  used : Bool := false
  connecting : Bool := false
  type : SockType := .stream
  nonblock : Bool := false
  rxSrc : Nat := 0
  rxSrclen : Nat := 0
  sock : N.Sock := N.null
  born : Nat := 0

structure DevOpen (D : DevOps) where
  used : Bool := false
  dev : Nat := 0
  reads : Bool := false
  writes : Bool := false
  nonblock : Bool := false
  cursor : DevCursor D.Priv := ⟨0, D.zero⟩
  born : Nat := 0

/-- An open-file description: `rw` marks the write end of a pipe and the master of a terminal. -/
structure Desc (K : StreamConfig) where
  slot : Slot K
  rw : Bool := false
  nonblock : Bool := false
  reads : Bool
  writes : Bool

inductive SockWait where
  | connect
  | send
  | recv
  | accept
deriving DecidableEq

inductive DevReq where
  | read (buf len : Nat)
  | write (buf len : Nat)
  | ioctl (cmd arg : Nat)
  | pread (buf len off : Nat)
  | pwrite (buf len off : Nat)
  | sync
  | mmap (phys len attrs : Nat)
deriving DecidableEq

inductive IoWait (K : StreamConfig) where
  | pipe (write : Bool) (object : Fin K.npipe) (buffer length : Nat)
  | pty (master write : Bool) (object : Fin K.npty) (buffer length : Nat)
  | socket (op : SockWait) (object : Fin K.nsock) (buffer length : Nat)
  | device (op : DevReq) (object : Fin K.ndevopen)

def IoWait.slot {K : StreamConfig} : IoWait K → Slot K
  | .pipe _ i _ _ => .pipe i
  | .pty _ _ i _ _ => .pty i
  | .socket _ i _ _ => .sock i
  | .device _ i => .dev i

/-- A wait record, and the number of the object the call was made on, which the record lacks. -/
structure Parked (K : StreamConfig) where
  call : IoWait K
  born : Nat

structure Streams (K : StreamConfig) where
  mem : Mem
  -- Whether a task may use a range of addresses, for writing when the flag is set.
  access : K.Task → Nat → Nat → Bool → Bool
  sigpipeIgnored : K.Task → Bool
  -- The task has an intent that is still to be served.
  exiting : K.Task → Bool
  wait : K.Task → Option (Parked K)
  ofds : K.Ofd → Option (Desc K)
  pipes : Fin K.npipe → Pipe
  ptys : Fin K.npty → Pty
  socks : Fin K.nsock → SockOpen K.net
  devs : Fin K.ndevopen → DevOpen K.drv
  net : K.net.State
  drv : K.drv.State
  -- Signals sent to process groups by the line discipline.
  raised : List (Int × Nat)
  -- The number of the next object.
  births : Nat

variable {K : StreamConfig}

/-- The object in a pool entry, if it is in use. -/
def occupant (x : Streams K) : Slot K → Option Nat
  | .pipe i => if (x.pipes i).used then some (x.pipes i).born else none
  | .pty i => if (x.ptys i).used then some (x.ptys i).born else none
  | .sock i => if (x.socks i).used then some (x.socks i).born else none
  | .dev i => if (x.devs i).used then some (x.devs i).born else none

def setPipe (i : Fin K.npipe) (pp : Pipe) (x : Streams K) : Streams K :=
  { x with pipes := update x.pipes i pp }

def setPty (i : Fin K.npty) (pt : Pty) (x : Streams K) : Streams K :=
  { x with ptys := update x.ptys i pt }

def setSock (i : Fin K.nsock) (o : SockOpen K.net) (x : Streams K) : Streams K :=
  { x with socks := update x.socks i o }

def setDev (i : Fin K.ndevopen) (o : DevOpen K.drv) (x : Streams K) : Streams K :=
  { x with devs := update x.devs i o }

def firstFree {n : Nat} (used : Fin n → Bool) : Option (Fin n) :=
  (List.finRange n).find? fun i => !used i

inductive IoResult where
  | done (r : IoReply)
  | parked
deriving DecidableEq

def fails (e : IoErrno) (x : Streams K) : IoResult × Streams K := (.done (.error e), x)

def waitPark (s : K.Task) (call : IoWait K) (x : Streams K) : IoResult × Streams K :=
  if (x.wait s).isSome ∨ x.exiting s then fails .eagain x
  else
    (.parked, { x with
      wait := update x.wait s (some ⟨call, (occupant x call.slot).getD 0⟩) })

/-- What `read` and `write` do with an attempt: park when it would block. -/
def parkOn (again : Streams K → IoResult × Streams K) : IoReply × Streams K → IoResult × Streams K
  | (.error .eagain, x) => again x
  | (r, x) => (.done r, x)

/-! ## Descriptions -/

def fdOpen (o : Desc K) (room : Bool) (x : Streams K) : Option (K.Ofd × Streams K) :=
  if !room then none
  else
    match (List.finRange K.nofd).find? fun d => (x.ofds d).isNone with
    | none => none
    | some d => some (d, { x with ofds := update x.ofds d (some o) })

/-- The description of a pipe end, and of an end of a terminal. -/
def pipeEnd (i : Fin K.npipe) (writeEnd nonblock : Bool) : Desc K :=
  { slot := .pipe i, rw := writeEnd, nonblock := nonblock, reads := !writeEnd, writes := writeEnd }

def ptyEnd (i : Fin K.npty) (master nonblock reads writes : Bool) : Desc K :=
  { slot := .pty i, rw := master, nonblock := nonblock, reads := reads, writes := writes }

def sockDesc (i : Fin K.nsock) (nonblock : Bool) : Desc K :=
  { slot := .sock i, nonblock := nonblock, reads := true, writes := true }

def devDesc (i : Fin K.ndevopen) (nonblock reads writes : Bool) : Desc K :=
  { slot := .dev i, nonblock := nonblock, reads := reads, writes := writes }

/-! ## Pipes -/

def pipeAlloc (x : Streams K) : Option (Fin K.npipe × Streams K) :=
  match firstFree fun i => (x.pipes i).used with
  | none => none
  | some i =>
    some (i, { setPipe i { Pipe.zero K.pipeBuf with used := true, born := x.births } x with
      births := x.births + 1 })

def pipeEndOpen (i : Fin K.npipe) (writeEnd : Bool) (x : Streams K) : Streams K :=
  let pp := x.pipes i
  if !pp.used then x
  else if writeEnd then
    if pp.writers = endsMax then x else setPipe i { pp with writers := pp.writers + 1 } x
  else
    if pp.readers = endsMax then x else setPipe i { pp with readers := pp.readers + 1 } x

def pipeEndClose (i : Fin K.npipe) (writeEnd : Bool) (x : Streams K) : Streams K :=
  let pp := x.pipes i
  if !pp.used then x
  else
    let pp := pp.dropEnd writeEnd
    setPipe i (if pp.readers = 0 ∧ pp.writers = 0 then Pipe.zero K.pipeBuf else pp) x

def pipeDiscard (i : Fin K.npipe) (x : Streams K) : Streams K :=
  if (x.pipes i).readers = 0 ∧ (x.pipes i).writers = 0 then setPipe i (Pipe.zero K.pipeBuf) x else x

def pipeTryRead (i : Fin K.npipe) (buf len : Nat) (x : Streams K) : IoReply × Streams K :=
  let (r, pp) := (x.pipes i).tryRead len
  match r with
  | .error e => (.error e, setPipe i pp x)
  | .ok bytes => (.ok bytes.length, { setPipe i pp x with mem := x.mem.write buf bytes })

def pipeTryWrite (i : Fin K.npipe) (buf len : Nat) (x : Streams K) : IoReply × Streams K :=
  let (r, pp) := (x.pipes i).tryWrite (bytesFrom x.mem.bytes buf len)
  (r, setPipe i pp x)

/-- The task is told to exit unless it ignores the signal. -/
def sigpipe (s : K.Task) (r : IoReply) (x : Streams K) : Streams K :=
  if r = .error .epipe ∧ x.sigpipeIgnored s = false then
    { x with exiting := update x.exiting s true }
  else x

def fopReadPipe (s : K.Task) (o : Desc K) (i : Fin K.npipe) (buf len : Nat) (x : Streams K) :
    IoResult × Streams K :=
  if o.rw then fails .ebadf x
  else
    parkOn (fun x => if o.nonblock then fails .eagain x else waitPark s (.pipe false i buf len) x)
      (pipeTryRead i buf len x)

def fopWritePipe (s : K.Task) (o : Desc K) (i : Fin K.npipe) (buf len : Nat) (x : Streams K) :
    IoResult × Streams K :=
  if !o.rw then fails .ebadf x
  else
    let (r, x) := pipeTryWrite i buf len x
    parkOn (fun x => if o.nonblock then fails .eagain x else waitPark s (.pipe true i buf len) x)
      (r, sigpipe s r x)

/-! ## Terminals -/

def ptyRead (i : Fin K.npty) (master : Bool) (buf len : Nat) (x : Streams K) :
    IoReply × Streams K :=
  let (r, pt) := (x.ptys i).read master len
  match r with
  | .error e => (.error e, setPty i pt x)
  | .ok bytes => (.ok bytes.length, { setPty i pt x with mem := x.mem.write buf bytes })

def ptyWrite (i : Fin K.npty) (master : Bool) (buf len : Nat) (x : Streams K) :
    IoReply × Streams K :=
  let (r, pt, raised) := (x.ptys i).write master (bytesFrom x.mem.bytes buf len)
  (r, { setPty i pt x with raised := x.raised ++ raised })

def fopReadPty (s : K.Task) (o : Desc K) (i : Fin K.npty) (buf len : Nat) (x : Streams K) :
    IoResult × Streams K :=
  parkOn (fun x => if (x.ptys i).nonblock o.rw then fails .eagain x
      else waitPark s (.pty o.rw false i buf len) x)
    (ptyRead i o.rw buf len x)

def fopWritePty (s : K.Task) (o : Desc K) (i : Fin K.npty) (buf len : Nat) (x : Streams K) :
    IoResult × Streams K :=
  parkOn (fun x => if (x.ptys i).nonblock o.rw then fails .eagain x
      else waitPark s (.pty o.rw true i buf len) x)
    (ptyWrite i o.rw buf len x)

def ptyOpenMaster (nonblock : Bool) (x : Streams K) : Option (Fin K.npty × Streams K) :=
  match firstFree fun i => (x.ptys i).used with
  | none => none
  | some i =>
    some (i, { setPty i { Pty.zero K.ptyBuf with
        used := true, locked := true, mNb := nonblock, born := x.births } x with
      births := x.births + 1 })

def ptyOpenSlave (num : Nat) (nonblock : Bool) (x : Streams K) : Option (Fin K.npty × Streams K) :=
  if h : num < K.npty then
    let pt := x.ptys ⟨num, h⟩
    if pt.used then some (⟨num, h⟩, setPty ⟨num, h⟩ { pt with sNb := nonblock } x) else none
  else none

def ptyEndOpen (i : Fin K.npty) (master : Bool) (x : Streams K) : Streams K :=
  let pt := x.ptys i
  if !pt.used then x
  else if master then
    if pt.masters = endsMax then x else setPty i { pt with masters := pt.masters + 1 } x
  else
    if pt.slaves = endsMax then x else setPty i { pt with slaves := pt.slaves + 1 } x

def ptyEndClose (i : Fin K.npty) (master : Bool) (x : Streams K) : Streams K :=
  let pt := x.ptys i
  if !pt.used then x
  else
    let pt := pt.dropEnd master
    setPty i (if pt.masters = 0 ∧ pt.slaves = 0 then Pty.zero K.ptyBuf else pt) x

def ptyDiscard (i : Fin K.npty) (x : Streams K) : Streams K :=
  if (x.ptys i).masters = 0 ∧ (x.ptys i).slaves = 0 then setPty i (Pty.zero K.ptyBuf) x else x

/-! ## Sockets -/

/-- A guest address: family, port in network order, four address bytes and eight bytes of
padding. -/
def sinBytes (a : SockAddr) : Bytes :=
  [2, 0, UInt8.ofNat (a.port / 256), UInt8.ofNat a.port] ++ (a.addr ++ List.replicate 4 0).take 4 ++
    List.replicate 8 0

def guestSin (f : Nat → UInt8) (p : Nat) : SockAddr :=
  { port := (f (p + 2)).toNat * 256 + (f (p + 3)).toNat, addr := bytesFrom f (p + 4) 4 }

def copySockaddrOut (s : K.Task) (uaddr uaddrlen : Nat) (a : SockAddr) (x : Streams K) :
    Streams K :=
  if uaddr = 0 ∨ uaddrlen = 0 then x
  else if !x.access s uaddrlen 4 false then x
  else
    let n := min (le32 x.mem.bytes uaddrlen) 16
    if !x.access s uaddr n true then x
    else
      let x := { x with mem := x.mem.write uaddr ((sinBytes a).take n) }
      if !x.access s uaddrlen 4 true then x else { x with mem := x.mem.store uaddrlen 4 16 }

def sockNew (type : SockType) (protocol : Int) (nonblock : Bool) (x : Streams K) :
    Except IoErrno (Fin K.nsock) × Streams K :=
  match firstFree fun i => (x.socks i).used with
  | none => (.error .emfile, x)
  | some i =>
    let x := setSock i {} x
    match K.net.sockOpen type (if type = .raw then protocol else 0) x.net with
    | (.error e, net) => (.error e.errno, { x with net := net })
    | (.ok h, net) =>
      match K.net.setNonblock h net with
      | (some e, net) => (.error e.errno, { x with net := K.net.sockClose h net })
      | (none, net) =>
        let o : SockOpen K.net :=
          { used := true, type := type, nonblock := nonblock, sock := h, born := x.births }
        (.ok i, { setSock i o x with net := net, births := x.births + 1 })

def sockClose (i : Fin K.nsock) (x : Streams K) : Streams K :=
  let o := x.socks i
  if !o.used then x
  else { setSock i { o with used := false } x with net := K.net.sockClose o.sock x.net }

def sockConnectPoll (i : Fin K.nsock) (x : Streams K) : IoReply × Streams K :=
  match K.net.pollOut (x.socks i).sock x.net with
  | (false, net) => (.error .eagain, { x with net := net })
  | (true, net) =>
    match K.net.getError (x.socks i).sock net with
    | (e, net) =>
      let x := { setSock i { x.socks i with connecting := false } x with net := net }
      match e with
      | none => (.ok 0, x)
      | some e => (connectErrno e, x)

def sockTrySend (i : Fin K.nsock) (buf len : Nat) (dest : Option SockAddr) (x : Streams K) :
    IoReply × Streams K :=
  match K.net.send (x.socks i).sock (bytesFrom x.mem.bytes buf len) dest x.net with
  | (.ok sent, net) => (.ok sent, { x with net := net })
  | (.error e, net) => (netErrnoFromErr e, { x with net := net })

/-- A peer's orderly shutdown is end of file. -/
def recvErrno (e : LxpErr) : IoReply := if e = .netClosed then .ok 0 else netErrnoFromErr e

def sockTryRecv (s : K.Task) (i : Fin K.nsock) (buf len usrc usrclen : Nat) (x : Streams K) :
    IoReply × Streams K :=
  if usrc ≠ 0 then
    match K.net.recvfrom (x.socks i).sock len x.net with
    | (.ok (bytes, src), net) =>
      (.ok bytes.length, copySockaddrOut s usrc usrclen src
        { x with net := net, mem := x.mem.write buf bytes })
    | (.error e, net) => (recvErrno e, { x with net := net })
  else
    match K.net.recv (x.socks i).sock len x.net with
    | (.ok bytes, net) => (.ok bytes.length, { x with net := net, mem := x.mem.write buf bytes })
    | (.error e, net) => (recvErrno e, { x with net := net })

def sockConnect (s : K.Task) (i : Fin K.nsock) (uaddr addrlen : Nat) (x : Streams K) :
    IoResult × Streams K :=
  let o := x.socks i
  if !o.used then fails .ebadf x
  else if o.connecting then
    match sockConnectPoll i x with
    | (.error .eagain, x) =>
      if o.nonblock then fails .ealready x else waitPark s (.socket .connect i 0 0) x
    | (.ok _, x) => fails .eisconn x
    | (.error e, x) => fails e x
  else if uaddr = 0 ∨ addrlen < 16 ∨ !x.access s uaddr 16 false then fails .efault x
  else if le16 x.mem.bytes uaddr ≠ 2 then fails .eafnosupport x
  else
    match K.net.connect o.sock (guestSin x.mem.bytes uaddr) x.net with
    | (none, net) => (.done (.ok 0), { x with net := net })
    | (some e, net) =>
      if e = .timeout then
        let x := { setSock i { o with connecting := true } x with net := net }
        if o.nonblock then fails .einprogress x else waitPark s (.socket .connect i 0 0) x
      else (.done (connectErrno e), { x with net := net })

/-- The peer's address for the caller, when it asked for one. -/
def acceptName (s : K.Task) (h : K.net.Sock) (uaddr uaddrlen : Nat) (x : Streams K) : Streams K :=
  if uaddr = 0 then x
  else
    match K.net.getpeername h x.net with
    | (.error _, net) => { x with net := net }
    | (.ok a, net) => copySockaddrOut s uaddr uaddrlen a { x with net := net }

/-- A pending connection becomes a socket with a description of its own. -/
def doAccept (s : K.Task) (i : Fin K.nsock) (uaddr uaddrlen : Nat) (nonblock room : Bool)
    (x : Streams K) : IoReply × Streams K :=
  match firstFree fun c => (x.socks c).used with
  | none => (.error .emfile, x)
  | some c =>
    let h := (x.socks i).sock
    let x := setSock c {} x
    match K.net.accept h x.net with
    | (.error e, net) => (.error e.errno, { x with net := net })
    | (.ok h, net) =>
      match K.net.setNonblock h net with
      | (some e, net) => (.error e.errno, { x with net := K.net.sockClose h net })
      | (none, net) =>
        let o : SockOpen K.net :=
          { used := true, nonblock := nonblock, sock := h, born := x.births }
        let x := acceptName s h uaddr uaddrlen
          { setSock c o x with net := net, births := x.births + 1 }
        match fdOpen (sockDesc c nonblock) room x with
        | some (d, x) => (.ok d.val, x)
        | none =>
          (.error .emfile, { setSock c { o with used := false } x with
            net := K.net.sockClose h x.net })

def sockAccept (s : K.Task) (i : Fin K.nsock) (uaddr uaddrlen : Nat) (nonblock room : Bool)
    (x : Streams K) : IoResult × Streams K :=
  let lo := x.socks i
  if !lo.used then fails .ebadf x
  else if uaddr ≠ 0 ∧ (uaddrlen = 0 ∨ !x.access s uaddrlen 4 true) then fails .efault x
  else
    parkOn (fun x => if lo.nonblock then fails .eagain x
        else waitPark s (.socket .accept i uaddr uaddrlen) x)
      (doAccept s i uaddr uaddrlen nonblock room x)

def sockSend (s : K.Task) (i : Fin K.nsock) (buf len : Nat) (dontwait : Bool)
    (udest destlen : Nat) (x : Streams K) : IoResult × Streams K :=
  let o := x.socks i
  if !o.used then fails .ebadf x
  else if len ≠ 0 ∧ (buf = 0 ∨ !x.access s buf len false) then fails .efault x
  else if udest ≠ 0 ∧ (destlen < 16 ∨ !x.access s udest 16 false) then fails .efault x
  else
    let dest := if udest = 0 then none else some (guestSin x.mem.bytes udest)
    parkOn (fun x => if udest ≠ 0 ∨ o.nonblock ∨ dontwait then fails .eagain x
        else waitPark s (.socket .send i buf len) x)
      (sockTrySend i buf len dest x)

def sockRecv (s : K.Task) (i : Fin K.nsock) (buf len : Nat) (dontwait : Bool)
    (usrc usrclen : Nat) (x : Streams K) : IoResult × Streams K :=
  let o := x.socks i
  if !o.used then fails .ebadf x
  else if len ≠ 0 ∧ (buf = 0 ∨ !x.access s buf len true) then fails .efault x
  else
    parkOn (fun x => if o.nonblock ∨ dontwait then fails .eagain x
        else waitPark s (.socket .recv i buf len)
          (setSock i { x.socks i with rxSrc := usrc, rxSrclen := usrclen } x))
      (sockTryRecv s i buf len usrc usrclen x)

/-! ## Devices -/

def devOpenNew (dev : Nat) (reads writes nonblock : Bool) (x : Streams K) :
    Except IoErrno (Fin K.ndevopen) × Streams K :=
  if K.drv.ndev ≤ dev then (.error .enoent, x)
  else
    match firstFree fun i => (x.devs i).used with
    | none => (.error .emfile, x)
    | some i =>
      let o : DevOpen K.drv :=
        { used := true, dev := dev, reads := reads, writes := writes, nonblock := nonblock,
          born := x.births }
      if !K.drv.present dev x.drv then (.error .enodev, setDev i { o with used := false } x)
      else
        match K.drv.open dev with
        | none => (.ok i, { setDev i o x with births := x.births + 1 })
        | some f =>
          match f reads writes nonblock o.cursor x.drv with
          | (.error e, drv) => (.error e, { setDev i { o with used := false } x with drv := drv })
          | (.ok c, drv) =>
            (.ok i, { setDev i { o with cursor := c } x with drv := drv, births := x.births + 1 })

def devClose (i : Fin K.ndevopen) (x : Streams K) : Streams K :=
  let o := x.devs i
  if !o.used then x
  else
    let x := setDev i { o with used := false } x
    match K.drv.release o.dev with
    | none => x
    | some f => { x with drv := f o.cursor x.drv }

/-- A driver operation works on the cursor of the open, guest memory and the driver's state. -/
def devApply (i : Fin K.ndevopen)
    (f : DevCursor K.drv.Priv → Mem → K.drv.State →
      IoReply × DevCursor K.drv.Priv × Mem × K.drv.State)
    (x : Streams K) : IoReply × Streams K :=
  let (r, c, mem, drv) := f (x.devs i).cursor x.mem x.drv
  (r, { setDev i { x.devs i with cursor := c } x with mem := mem, drv := drv })

/-- Positioned transfers use the same operation with another position. -/
def positioned (off : Nat)
    (f : DevCursor K.drv.Priv → Mem → K.drv.State →
      IoReply × DevCursor K.drv.Priv × Mem × K.drv.State)
    (c : DevCursor K.drv.Priv) (mem : Mem) (drv : K.drv.State) :
    IoReply × DevCursor K.drv.Priv × Mem × K.drv.State :=
  let (r, c', mem, drv) := f { c with pos := off } mem drv
  (r, { c' with pos := c.pos }, mem, drv)

def devAttempt (s : K.Task) (req : DevReq) (i : Fin K.ndevopen) (x : Streams K) :
    IoReply × Streams K :=
  let o := x.devs i
  if !o.used then (.error .ebadf, x)
  else
    match req with
    | .read buf len =>
      match K.drv.read o.dev with
      | none => (.error .einval, x)
      | some f => devApply i (fun c => f c s buf len) x
    | .write buf len =>
      match K.drv.write o.dev with
      | none => (.error .einval, x)
      | some f => devApply i (fun c => f c s buf len) x
    | .ioctl cmd arg =>
      match K.drv.ioctl o.dev with
      | none => (.error .enotty, x)
      | some f => devApply i (fun c => f c s cmd arg) x
    | .pread buf len off =>
      match K.drv.read o.dev with
      | none => (.error .einval, x)
      | some f => devApply i (positioned off fun c => f c s buf len) x
    | .pwrite buf len off =>
      match K.drv.write o.dev with
      | none => (.error .einval, x)
      | some f => devApply i (positioned off fun c => f c s buf len) x
    | .sync =>
      match K.drv.sync o.dev with
      | none => (.ok 0, x)
      | some f => devApply i (fun c => f c s) x
    | .mmap _ _ _ => (.error .einval, x)

def devCall (s : K.Task) (req : DevReq) (i : Fin K.ndevopen) (x : Streams K) :
    IoResult × Streams K :=
  parkOn (fun x => if (x.devs i).nonblock then fails .eagain x else waitPark s (.device req i) x)
    (devAttempt s req i x)

def devRead (s : K.Task) (i : Fin K.ndevopen) (buf len : Nat) (x : Streams K) :
    IoResult × Streams K :=
  if !(x.devs i).used || !(x.devs i).reads then fails .ebadf x else devCall s (.read buf len) i x

def devWrite (s : K.Task) (i : Fin K.ndevopen) (buf len : Nat) (x : Streams K) :
    IoResult × Streams K :=
  if !(x.devs i).used || !(x.devs i).writes then fails .ebadf x else devCall s (.write buf len) i x

/-- The coordinator installs the mapping, so the call always parks. -/
def devMmap (s : K.Task) (i : Fin K.ndevopen) (len pgoff : Nat) (x : Streams K) :
    IoResult × Streams K :=
  let o := x.devs i
  if !o.used then fails .ebadf x
  else
    match K.drv.mmap o.dev with
    | none => fails .enodev x
    | some f =>
      match f o.cursor len pgoff x.drv with
      | (.error e, drv) => fails e { x with drv := drv }
      | (.ok (phys, attrs), drv) =>
        waitPark s (.device (.mmap phys len attrs) i) { x with drv := drv }

/-! ## Calls -/

def sysPipe (s : K.Task) (fds room : Nat) (nonblock : Bool) (x : Streams K) :
    IoResult × Streams K :=
  if !x.access s fds 8 true then fails .efault x
  else
    match pipeAlloc x with
    | none => fails .emfile x
    | some (i, x) =>
      if room < 2 then fails .emfile (pipeDiscard i x)
      else
        match fdOpen (pipeEnd i false nonblock) true x with
        | none => fails .emfile (pipeDiscard i x)
        | some (r, x) =>
          let x := pipeEndOpen i false x
          match fdOpen (pipeEnd i true nonblock) true x with
          | none => fails .emfile { pipeEndClose i false x with ofds := update x.ofds r none }
          | some (_, x) => (.done (.ok 0), pipeEndOpen i true x)

def openMaster (room nonblock reads writes : Bool) (x : Streams K) : IoResult × Streams K :=
  match ptyOpenMaster nonblock x with
  | none => fails .emfile x
  | some (i, x) =>
    match fdOpen (ptyEnd i true nonblock reads writes) room x with
    | some (d, x) => (.done (.ok d.val), ptyEndOpen i true x)
    | none => fails .emfile (ptyDiscard i x)

def openSlave (num : Nat) (room nonblock reads writes : Bool) (x : Streams K) :
    IoResult × Streams K :=
  match ptyOpenSlave num nonblock x with
  | none => fails .enoent x
  | some (i, x) =>
    match fdOpen (ptyEnd i false nonblock reads writes) room x with
    | some (d, x) => (.done (.ok d.val), ptyEndOpen i false x)
    | none => fails .emfile x

def sysSocket (type : SockType) (protocol : Int) (room nonblock : Bool) (x : Streams K) :
    IoResult × Streams K :=
  match sockNew type protocol nonblock x with
  | (.error e, x) => fails e x
  | (.ok i, x) =>
    match fdOpen (sockDesc i nonblock) room x with
    | some (d, x) => (.done (.ok d.val), x)
    | none => fails .emfile (sockClose i x)

def openDevice (dev : Nat) (room nonblock reads writes : Bool) (x : Streams K) :
    IoResult × Streams K :=
  match devOpenNew dev reads writes nonblock x with
  | (.error e, x) => fails e x
  | (.ok i, x) =>
    match fdOpen (devDesc i nonblock reads writes) room x with
    | some (d, x) => (.done (.ok d.val), x)
    | none => fails .emfile (devClose i x)

def sysRead (s : K.Task) (d : K.Ofd) (buf len : Nat) (x : Streams K) : IoResult × Streams K :=
  match x.ofds d with
  | none => fails .ebadf x
  | some o =>
    if !x.access s buf len true then fails .efault x
    else if !o.reads then fails .ebadf x
    else
      match o.slot with
      | .pipe i => fopReadPipe s o i buf len x
      | .pty i => fopReadPty s o i buf len x
      | .sock i => sockRecv s i buf len false 0 0 x
      | .dev i => devRead s i buf len x

def sysWrite (s : K.Task) (d : K.Ofd) (buf len : Nat) (x : Streams K) : IoResult × Streams K :=
  match x.ofds d with
  | none => fails .ebadf x
  | some o =>
    if !x.access s buf len false then fails .efault x
    else if !o.writes then fails .ebadf x
    else
      match o.slot with
      | .pipe i => fopWritePipe s o i buf len x
      | .pty i => fopWritePty s o i buf len x
      | .sock i => sockSend s i buf len false 0 0 x
      | .dev i => devWrite s i buf len x

inductive SockCall where
  | connect (uaddr addrlen : Nat)
  | accept (uaddr uaddrlen : Nat) (nonblock room : Bool)
  | send (buf len : Nat) (dontwait : Bool) (udest destlen : Nat)
  | recv (buf len : Nat) (dontwait : Bool) (usrc usrclen : Nat)

def sysSock (s : K.Task) (d : K.Ofd) (call : SockCall) (x : Streams K) : IoResult × Streams K :=
  match (x.ofds d).map Desc.slot with
  | some (.sock i) =>
    match call with
    | .connect uaddr addrlen => sockConnect s i uaddr addrlen x
    | .accept uaddr uaddrlen nonblock room => sockAccept s i uaddr uaddrlen nonblock room x
    | .send buf len dontwait udest destlen => sockSend s i buf len dontwait udest destlen x
    | .recv buf len dontwait usrc usrclen => sockRecv s i buf len dontwait usrc usrclen x
  | _ => fails .enotsock x

inductive DevCall where
  | ioctl (cmd arg : Nat)
  | pread (buf len off : Nat)
  | pwrite (buf len off : Nat)
  | fsync
  | mmap (len pgoff : Nat)

def sysDevice (s : K.Task) (d : K.Ofd) (call : DevCall) (x : Streams K) : IoResult × Streams K :=
  match x.ofds d with
  | none => fails .ebadf x
  | some o =>
    match o.slot with
    | .dev i =>
      match call with
      | .ioctl cmd arg => devCall s (.ioctl cmd arg) i x
      | .pread buf len off =>
        if !x.access s buf len true then fails .efault x
        else if !o.reads then fails .ebadf x
        else devCall s (.pread buf len off) i x
      | .pwrite buf len off =>
        if !x.access s buf len false then fails .efault x
        else if !o.writes then fails .ebadf x
        else devCall s (.pwrite buf len off) i x
      | .fsync => devCall s .sync i x
      | .mmap len pgoff => devMmap s i len pgoff x
    | _ => fails .einval x

inductive PtyIoctl where
  | setTermios (t : Termios)
  | setPgrp (pgrp : Int)
  | setLock (locked : Bool)

/-- What the guest's argument says is read before this. -/
def ptyIoctl (i : Fin K.npty) (call : PtyIoctl) (x : Streams K) : IoResult × Streams K :=
  let pt := x.ptys i
  if !pt.used then fails .ebadf x
  else
    match call with
    | .setTermios t => (.done (.ok 0), setPty i { pt with tty := { pt.tty with termios := t } } x)
    | .setPgrp pgrp => (.done (.ok 0), setPty i { pt with tty := { pt.tty with fgPgrp := pgrp } } x)
    | .setLock locked => (.done (.ok 0), setPty i { pt with locked := locked } x)

def sysPtyIoctl (d : K.Ofd) (call : PtyIoctl) (x : Streams K) : IoResult × Streams K :=
  match (x.ofds d).map Desc.slot with
  | some (.pty i) => ptyIoctl i call x
  | _ => fails .enotty x

-- `F_SETFL`: the kinds that keep the flag themselves are told.
def setfl (o : Desc K) (nonblock : Bool) (x : Streams K) : Streams K :=
  match o.slot with
  | .pipe _ => x
  | .pty i => setPty i ((x.ptys i).setfl o.rw nonblock) x
  | .sock i =>
    if (x.socks i).used then setSock i { x.socks i with nonblock := nonblock } x else x
  | .dev i => if (x.devs i).used then setDev i { x.devs i with nonblock := nonblock } x else x

def sysSetfl (d : K.Ofd) (nonblock : Bool) (x : Streams K) : IoResult × Streams K :=
  match x.ofds d with
  | none => fails .ebadf x
  | some o =>
    (.done (.ok 0), setfl o nonblock
      { x with ofds := update x.ofds d (some { o with nonblock := nonblock }) })

def fopClose (o : Desc K) (x : Streams K) : Streams K :=
  match o.slot with
  | .pipe i => pipeEndClose i o.rw x
  | .pty i => ptyEndClose i o.rw x
  | .sock i => sockClose i x
  | .dev i => devClose i x

def ofdClose (d : K.Ofd) (x : Streams K) : IoResult × Streams K :=
  match x.ofds d with
  | none => fails .ebadf x
  | some o => (.done (.ok 0), { fopClose o x with ofds := update x.ofds d none })

/-! ## Retries -/

def sockRetry (s : K.Task) (op : SockWait) (i : Fin K.nsock) (buf len : Nat) (room : Bool)
    (x : Streams K) : IoReply × Streams K :=
  let o := x.socks i
  if !o.used then (.error .ebadf, x)
  else
    match op with
    | .connect => sockConnectPoll i x
    | .send => sockTrySend i buf len none x
    | .recv => sockTryRecv s i buf len o.rxSrc o.rxSrclen x
    | .accept => doAccept s i buf len false room x

/-- The attempt that a wait record describes. -/
def attempt (s : K.Task) (room : Bool) (call : IoWait K) (x : Streams K) : IoReply × Streams K :=
  match call with
  | .pipe false i buf len => pipeTryRead i buf len x
  | .pipe true i buf len => pipeTryWrite i buf len x
  | .pty master false i buf len => ptyRead i master buf len x
  | .pty master true i buf len => ptyWrite i master buf len x
  | .socket op i buf len => sockRetry s op i buf len room x
  | .device req i => devAttempt s req i x

def waitComplete (s : K.Task) (x : Streams K) : Streams K :=
  { x with wait := update x.wait s none }

def IoWait.isPipe : IoWait K → Bool
  | .pipe _ _ _ _ => true
  | _ => false

/-- The coordinator's retry.  A device mapping is not tried again but installed: `mapped` is what
that answers, and the open is not looked at. -/
def retry (s : K.Task) (room : Bool) (mapped : IoReply) (x : Streams K) : IoResult × Streams K :=
  match x.wait s with
  | none => fails .einval x
  | some ⟨.device (.mmap _ _ _) _, _⟩ => (.done mapped, waitComplete s x)
  | some w =>
    match attempt s room w.call x with
    | (.error .eagain, x) => (.parked, x)
    | (r, x) => (.done r, (if w.call.isPipe then sigpipe s r else id) (waitComplete s x))

/-! ## Runs -/

inductive StreamOp (K : StreamConfig) where
  | pipe (s : K.Task) (fds room : Nat) (nonblock : Bool)
  | openMaster (room nonblock reads writes : Bool)
  | openSlave (num : Nat) (room nonblock reads writes : Bool)
  | socket (type : SockType) (protocol : Int) (room nonblock : Bool)
  | openDevice (dev : Nat) (room nonblock reads writes : Bool)
  | read (s : K.Task) (d : K.Ofd) (buf len : Nat)
  | write (s : K.Task) (d : K.Ofd) (buf len : Nat)
  | sock (s : K.Task) (d : K.Ofd) (call : SockCall)
  | device (s : K.Task) (d : K.Ofd) (call : DevCall)
  | ptyIoctl (d : K.Ofd) (call : PtyIoctl)
  | setfl (d : K.Ofd) (nonblock : Bool)
  | close (d : K.Ofd)
  | retry (s : K.Task) (room : Bool) (mapped : IoReply)
  -- A signal ends the wait of a task.
  | interrupt (s : K.Task)
  -- The task of a slot is gone and another may take the slot.
  | vacate (s : K.Task)
  -- Guest code runs, address spaces change, providers and drivers go on by themselves.
  | world (mem : Mem) (access : K.Task → Nat → Nat → Bool → Bool)
      (sigpipeIgnored : K.Task → Bool) (net : K.net.State) (drv : K.drv.State)

def StreamOp.run : StreamOp K → Streams K → IoResult × Streams K
  | .pipe s fds room nonblock, x => sysPipe s fds room nonblock x
  | .openMaster room nonblock reads writes, x => Stream.openMaster room nonblock reads writes x
  | .openSlave num room nonblock reads writes, x =>
    Stream.openSlave num room nonblock reads writes x
  | .socket type protocol room nonblock, x => sysSocket type protocol room nonblock x
  | .openDevice dev room nonblock reads writes, x =>
    Stream.openDevice dev room nonblock reads writes x
  | .read s d buf len, x => sysRead s d buf len x
  | .write s d buf len, x => sysWrite s d buf len x
  | .sock s d call, x => sysSock s d call x
  | .device s d call, x => sysDevice s d call x
  | .ptyIoctl d call, x => sysPtyIoctl d call x
  | .setfl d nonblock, x => sysSetfl d nonblock x
  | .close d, x => ofdClose d x
  | .retry s room mapped, x => Stream.retry s room mapped x
  | .interrupt s, x => (.done (.ok 0), waitComplete s x)
  | .vacate s, x =>
    (.done (.ok 0), { waitComplete s x with exiting := update x.exiting s false })
  | .world mem access sigpipeIgnored net drv, x =>
    (.done (.ok 0), { x with
      mem := mem, access := access, sigpipeIgnored := sigpipeIgnored, net := net, drv := drv })

def streamsBoot (K : StreamConfig) (mem : Mem) (access : K.Task → Nat → Nat → Bool → Bool)
    (net : K.net.State) (drv : K.drv.State) : Streams K where
  mem := mem
  access := access
  sigpipeIgnored := fun _ => false
  exiting := fun _ => false
  wait := fun _ => none
  ofds := fun _ => none
  pipes := fun _ => Pipe.zero K.pipeBuf
  ptys := fun _ => Pty.zero K.ptyBuf
  socks := fun _ => {}
  devs := fun _ => {}
  net := net
  drv := drv
  raised := []
  births := 0

end Lxp.Stream
