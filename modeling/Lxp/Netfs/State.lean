import Mathlib.Logic.Function.Basic
import Lxp.Netfs.Wire

/-!
# State of the 9P client

The statics of `netfs/lxp_netfs.c` as one record: the connection, the fid bitmap, the pool of opens,
the queue of fids to clunk, the request pool and the transport buffers.  What the socket answers in
one pass is part of the record (`wire`), so that a pass is a function of the state.

Three fields are history and are read by no operation: `sent`, the messages of this connection,
`log`, what requests did so far, and the number `id` of a request.
-/

namespace Lxp.Netfs

open Function

structure Config where
  nslot : Nat
  nofd : Nat
  word : WordSize
  mountpoint : Bytes
  uname : Bytes
  aname : Bytes
  -- The engine's RAM staging buffer for a fetched program.
  stageCap : Nat

abbrev Config.Slot (C : Config) := Fin C.nslot

structure SlotRef (n : Nat) where
  index : Fin n
  generation : Nat
deriving DecidableEq

/-- A task whose guest memory the coordinator may write now, and where it may write it. -/
structure View (n : Nat) where
  ref : SlotRef n
  access : Nat → Nat → Bool

inductive Conn where
  | down
  | connecting
  | versionSend
  | versionRecv
  | attachSend
  | attachRecv
  | up
deriving DecidableEq, Repr

structure NetOpen where
  used : Bool := false
  isDir : Bool := false
  stale : Bool := false
  -- 0 where the open has no fid yet: fid 0 is the attached root.
  fid : Nat := 0
  generation : Nat := 0
  mode : Nat := 0
  size : Nat := 0
  mtime : Nat := 0
  ino : Nat := 0
  rdOff : Nat := 0
  dirOff : Nat := 0
deriving DecidableEq, Repr

inductive ReqState where
  | free
  | queued
  | inflight
  | done
deriving DecidableEq, Repr

inductive Op where
  | openFile
  | read
  | getdents
  | stat
  | execfetch
  -- `REQ_OP_CLUNK`
  | clunk
deriving DecidableEq, Repr

structure NetReq (n : Nat) where
  state : ReqState := .free
  op : Op := .clunk
  step : Nat := 0
  owner : Option (SlotRef n) := none
  seq : Nat := 0
  oi : Fin nopen := 0
  -- 0 for the source's -1: no fid walked yet.
  fid : Nat := 0
  off : Nat := 0
  ubuf : Nat := 0
  ulen : Nat := 0
  flags : Nat := 0
  statkind : StatKind := .kstat64
  is64 : Bool := false
  path : Bytes := []
  result : Int := 0
  -- The number of the request among all requests so far.
  id : Nat := 0

/-- Where the caller of a request asked for the answer, and for how many bytes. -/
def NetReq.buffer {n : Nat} (r : NetReq n) : Nat × Nat :=
  match r.op with
  | .read | .getdents => (r.ubuf, r.ulen)
  | .stat => (r.ubuf, r.statkind.recordSize)
  | .openFile | .execfetch | .clunk => (0, 0)

inductive LogEntry (n : Nat) where
  | issue (id : Nat) (ref : SlotRef n) (buf len : Nat)
  | complete (id : Nat)
  | take (id : Nat) (ref : SlotRef n)
  | copy (id : Nat) (ref : SlotRef n) (addr : Nat) (bytes : Bytes)
  | stage (id : Nat) (off : Nat) (bytes : Bytes)
  | interrupt (id : Nat)
  | exit (ref : SlotRef n)
deriving DecidableEq

/-! ## What the socket answers -/

inductive SendAnswer where
  | accepted (n : Nat)
  -- `LXP_ERR_TIMEOUT`: the send buffer is full
  | full
  | failed
deriving DecidableEq, Repr

inductive RecvAnswer where
  -- no bytes: the peer closed the connection
  | data (bytes : Bytes)
  | empty
  | failed
deriving DecidableEq, Repr

inductive ConnectAnswer where
  | ok
  | inProgress
  | failed
deriving DecidableEq, Repr

inductive PollAnswer where
  | failed
  | notReady
  | ready (error : Bool)
deriving DecidableEq, Repr

/-- The answers of one pass; a list that is used up answers that the call would block. -/
structure Wire where
  openOk : Bool := true
  nonblockOk : Bool := true
  connect : ConnectAnswer := .ok
  poll : PollAnswer := .notReady
  sends : List SendAnswer := []
  recvs : List RecvAnswer := []

structure Client (C : Config) where
  conn : Conn := .down
  msize : Nat := msizeMax
  generation : Nat := 0
  reconnectAt : Nat := 0
  -- 0 is no deadline.
  connDeadline : Nat := 0
  fids : Nat → Bool := fun _ => false
  opens : Fin nopen → NetOpen := fun _ => {}
  clunks : List Nat := []
  reqs : Fin nreq → NetReq C.nslot := fun _ => {}
  reqSeq : Nat := 0
  inflight : Option (Fin nreq) := none
  execSize : Nat := 0
  -- Working directories set by `chdir`, the last one first.
  cwds : List (SlotRef C.nslot × Bytes) := []
  tx : Bytes := []
  rx : Bytes := []
  wire : Wire := {}
  -- A byte outside of what was received has been read.
  overread : Bool := false
  nextId : Nat := 0
  sent : List TMsg := []
  log : List (LogEntry C.nslot) := []

namespace Client

variable {C : Config}

def updReq (x : Client C) (ri : Fin nreq) (f : NetReq C.nslot → NetReq C.nslot) : Client C :=
  { x with reqs := update x.reqs ri (f (x.reqs ri)) }

def updOpen (x : Client C) (oi : Fin nopen) (f : NetOpen → NetOpen) : Client C :=
  { x with opens := update x.opens oi (f (x.opens oi)) }

-- `msg_end`: the message replaces what the transmit buffer held.
def post (x : Client C) (m : TMsg) : Client C := { x with tx := m.encode, sent := m :: x.sent }

def record (x : Client C) (entry : LogEntry C.nslot) : Client C := { x with log := entry :: x.log }

/-! ## The fid allocator and the clunk queue -/

/-- The first fid that `fid_alloc` finds free. -/
def fidFirst (x : Client C) : Option Nat :=
  (List.range nfid).find? fun f => 0 < f && !x.fids f

def fidTake (x : Client C) (f : Nat) : Client C := { x with fids := update x.fids f true }

def fidFree (x : Client C) (f : Nat) : Client C :=
  if 0 < f ∧ f < nfid then { x with fids := update x.fids f false } else x

/-- A ring of `nclunk` cells holds one entry less. -/
def clunkEnqueue (x : Client C) (f : Nat) : Client C :=
  if f = 0 then x
  else if x.clunks.length + 1 = nclunk then x.fidFree f
  else { x with clunks := x.clunks ++ [f] }

end Client

end Lxp.Netfs
