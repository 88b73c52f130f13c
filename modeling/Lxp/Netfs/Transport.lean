import Lxp.Netfs.State

/-!
# The connection to the 9P server

Sending and receiving over the non-blocking socket, and the phases of a connection up to the point
where requests may use it (`tx_flush` to `conn_advance` of `netfs/lxp_netfs.c`).
-/

namespace Lxp.Netfs

inductive Flush where
  | flushed
  | more
  | failed
deriving DecidableEq, Repr

/-- The loop of `tx_flush` over the answers to its `sock_send` calls. -/
def flushWith : List SendAnswer → Bytes → Flush × Bytes × List SendAnswer
  | sends, [] => (.flushed, [], sends)
  | [], tx => (.more, tx, [])
  | .accepted n :: sends, tx => if n = 0 then (.more, tx, sends) else flushWith sends (tx.drop n)
  | .full :: sends, tx => (.more, tx, sends)
  | .failed :: sends, tx => (.failed, tx, sends)

/-- The loop of `rx_fill`; `none` where the connection failed or was closed. -/
def fillWith : List RecvAnswer → Bytes → Option (Bytes × List RecvAnswer)
  | [], rx => some (rx, [])
  | answer :: recvs, rx =>
    if rx.length ≥ msizeMax then some (rx, answer :: recvs)
    else
      match answer with
      | .data [] => none
      -- `sock_recv` is asked for no more than the buffer has room for
      | .data bytes => fillWith recvs (rx ++ bytes.take (msizeMax - rx.length))
      | .empty => some (rx, recvs)
      | .failed => none

namespace Client

variable {C : Config}

def txFlush (x : Client C) : Flush × Client C :=
  match flushWith x.wire.sends x.tx with
  | (f, tx, sends) => (f, { x with tx := tx, wire := { x.wire with sends := sends } })

def rxFill (x : Client C) : Option (Client C) :=
  match fillWith x.wire.recvs x.rx with
  | none => none
  | some (rx, recvs) => some { x with rx := rx, wire := { x.wire with recvs := recvs } }

def rxConsume (x : Client C) (len : Nat) : Client C := { x with rx := x.rx.drop len }

/-- What `conn_drop` makes of one request: nobody is left to take an owner-less result. -/
def dropReq (r : NetReq C.nslot) : NetReq C.nslot :=
  if r.state = .queued ∨ r.state = .inflight then
    if r.owner = none then { r with state := .free }
    else { r with result := Errno.eio.neg, state := .done }
  else r

def dropped (x : Client C) : List (Fin nreq) :=
  (List.finRange nreq).filter fun ri =>
    ((x.reqs ri).state = .queued ∨ (x.reqs ri).state = .inflight) ∧ (x.reqs ri).owner ≠ none

def connDrop (x : Client C) : Client C :=
  { x with
    conn := .down
    connDeadline := 0
    tx := []
    rx := []
    reqs := fun ri => dropReq (x.reqs ri)
    inflight := none
    opens := fun oi =>
      if (x.opens oi).used then { x.opens oi with stale := true } else x.opens oi
    log := x.dropped.map (fun ri => .complete (x.reqs ri).id) ++ x.log }

abbrev reconnectUs : Nat := 2000000

def connAttemptFailed (x : Client C) (now : Nat) : Client C :=
  { x with conn := .down, connDeadline := 0, tx := [], rx := [], reconnectAt := now + reconnectUs }

def connBeginVersion (x : Client C) (now : Nat) : Client C :=
  { x.post (.version msizeMax) with conn := .versionSend, connDeadline := now + 3000000 }

def connBeginAttach (x : Client C) (now : Nat) : Client C :=
  { x.post (.attach C.uname C.aname) with conn := .attachSend, connDeadline := now + 3000000 }

/-- A new transport connection: every fid of the last one is forgotten on both sides. -/
def connEstablished (x : Client C) (now : Nat) : Client C :=
  connBeginVersion { x with fids := fun _ => false, tx := [], rx := [], sent := [] } now

def connStart (x : Client C) (now : Nat) : Client C :=
  if now < x.reconnectAt then x
  else
    let x := { x with reconnectAt := now + reconnectUs }
    if !x.wire.openOk then x
    else if !x.wire.nonblockOk then x.connAttemptFailed now
    else
      match x.wire.connect with
      | .inProgress => { x with conn := .connecting, connDeadline := now + 5000000 }
      | .failed => x.connAttemptFailed now
      | .ok => x.connEstablished now

-- `CONN_VERSION_RECV` and `CONN_ATTACH_RECV` on a complete reply of `len` bytes; `none` is a read
-- outside of the reply.
def connReply (x : Client C) (now len : Nat) : Option (Client C) := do
  let type ← x.rx[4]?
  if x.conn = .versionRecv then
    if len < 13 ∨ type ≠ MsgType.rversion.code then some (x.connAttemptFailed now)
    else do
      let sm ← LittleEndian.read? (x.rx.take len) 7 4
      let x := { x with msize := min sm msizeMax }
      if x.msize < 512 then some (x.connAttemptFailed now)
      else some ((x.rxConsume len).connBeginAttach now)
  else if type ≠ MsgType.rattach.code then some (x.connAttemptFailed now)
  else
    some { x.rxConsume len with conn := .up, connDeadline := 0, generation := x.generation + 1 }

-- `CONN_CONNECTING`; the answer of a phase says whether the pass goes on to the next one.
def connPoll (x : Client C) (now : Nat) : Bool × Client C :=
  match x.wire.poll with
  | .failed => (false, x.connAttemptFailed now)
  | .notReady => (false, x)
  | .ready true => (false, x.connAttemptFailed now)
  | .ready false => (true, x.connEstablished now)

def connSend (x : Client C) (now : Nat) : Bool × Client C :=
  match x.txFlush with
  | (.failed, x) => (false, x.connAttemptFailed now)
  | (.more, x) => (false, x)
  | (.flushed, x) =>
    (true, { x with conn := if x.conn = .versionSend then .versionRecv else .attachRecv })

def connRecv (x : Client C) (now : Nat) : Bool × Client C :=
  match x.rxFill with
  | none => (false, x.connAttemptFailed now)
  | some x =>
    match rxMessage x.rx with
    | none => (false, { x with overread := true })
    | some .bad => (false, x.connAttemptFailed now)
    | some .incomplete => (false, x)
    | some (.message len) =>
      match x.connReply now len with
      | none => (false, { x with overread := true })
      | some x => (true, x)

def connPhase (x : Client C) (now : Nat) : Bool × Client C :=
  match x.conn with
  | .connecting => x.connPoll now
  | .versionSend | .attachSend => x.connSend now
  | .versionRecv | .attachRecv => x.connRecv now
  | .up | .down => (false, x)

/-- The loop of `conn_advance`, `n` phases at most. -/
def connSteps : Nat → Nat → Client C → Client C
  | 0, _, x => x
  | n + 1, now, x =>
    match x.connPhase now with
    | (true, x) => connSteps n now x
    | (false, x) => x

def connAdvance (x : Client C) (now : Nat) : Client C :=
  let x := if x.conn = .down then x.connStart now else x
  if x.conn = .down then x
  else if x.connDeadline ≠ 0 ∧ now ≥ x.connDeadline then x.connAttemptFailed now
  else connSteps 5 now x

end Client

end Lxp.Netfs
