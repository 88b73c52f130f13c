import Lxp.Netfs.Transport

/-!
# Requests and their replies

Building the message of a request's current step (`req_build`) and what a reply makes of the request
in flight (`handle_reply`).  A reply handler answers `none` where the source would read past the
received body.
-/

namespace Lxp.Netfs

open LittleEndian

-- `-(long)ecode`: a 32-bit `long` does not hold every 32-bit code.
def negLong : WordSize → Nat → Int
  | .word64, ecode => -(ecode : Int)
  | .word32, ecode => Int.bmod (-(ecode : Int)) (2 ^ 32)

def guestWritable {n : Nat} (v : Option (View n)) (addr len : Nat) : Bool :=
  match v with
  | none => false
  | some v => v.access addr len

/-- The copies of records to guest memory. -/
abbrev Sink := DirentSink (Nat × Bytes)

/-- The entries of an `Rreaddir`: qid[13] offset[8] type[1] name[s] each.  An entry takes 24 bytes
at least, so as many turns as the body has bytes are enough. -/
def readdirLoop {n : Nat} (v : Option (View n)) (body : Bytes) (stop : Nat) :
    Nat → Nat → Sink → Nat → Option (Sink × Nat)
  | 0, _, sink, lastOff => some (sink, lastOff)
  | turns + 1, o, sink, lastOff =>
    if o < stop ∧ o + 24 ≤ body.length then do
      let qt ← body[o]?
      let qpath ← read? body (o + 5) 8
      let doff ← read? body (o + 13) 8
      let dt9 ← body[o + 21]?
      let nlen ← read? body (o + 22) 2
      if o + 24 + nlen > body.length then some (sink, lastOff)
      else do
        let name ← slice? body (o + 24) nlen
        match direntPut pathMax (guestWritable v) nlen (fun addr _ => (addr, direntRecord sink.is64
            qpath doff (if dt9 ≠ 0 then dt9 else dtypeFromQid qt) name)) sink with
        | (true, sink) => readdirLoop v body stop turns (o + 24 + nlen) sink doff
        | (false, sink) => some (sink, lastOff)
    else some (sink, lastOff)

def expectedReply {n : Nat} (r : NetReq n) : Option MsgType :=
  match r.op, r.step with
  | .clunk, _ => some .rclunk
  | .read, _ => some .rread
  | .getdents, _ => some .rreaddir
  | _, 0 => some .rwalk
  | _, 1 => some .rlgetattr
  | .stat, 2 => some .rclunk
  | .openFile, 2 => some .rlopen
  | .execfetch, 2 => some .rlopen
  | .execfetch, 3 => some .rread
  | .execfetch, 4 => some .rclunk
  | _, _ => none

namespace Client

variable {C : Config}

def openSlot (x : Client C) (oi : Fin nopen) : Option NetOpen :=
  if (x.opens oi).used then some (x.opens oi) else none

/-! ## Building a message -/

def msgWalk (x : Client C) (ri : Fin nreq) : Option Errno × Client C :=
  match pathSplit (x.reqs ri).path with
  | none => (some .enametoolong, x)
  | some names =>
    match x.fidFirst with
    | none => (some .emfile, x)
    | some f =>
      (none, ((x.fidTake f).updReq ri fun r => { r with fid := f }).post (.walk f names))

/-- Bytes left in the staging buffer, as the source computes them. -/
def stageRoom (off : Nat) : Nat := (C.stageCap + 2 ^ 64 - off) % 2 ^ 32

def reqBuild (x : Client C) (ri : Fin nreq) : Option Errno × Client C :=
  let r := x.reqs ri
  match r.op with
  | .openFile | .stat | .execfetch =>
    match r.step with
    | 0 => x.msgWalk ri
    | 1 => (none, x.post (.lgetattr r.fid))
    | 2 => (none, x.post (if r.op = .stat then .clunk r.fid else .lopen r.fid))
    | 3 =>
      if r.op = .execfetch then
        let count := x.msize - 24
        let count := if r.off + count > C.stageCap then stageRoom (C := C) r.off else count
        (none, x.post (.read r.fid r.off count))
      else (some .einval, x)
    | 4 => if r.op = .execfetch then (none, x.post (.clunk r.fid)) else (some .einval, x)
    | _ => (some .einval, x)
  | .read =>
    match x.openSlot r.oi with
    | none => (some .ebadf, x)
    | some op => (none, x.post (.read op.fid op.rdOff (min (r.ulen % 2 ^ 32) (x.msize - 24))))
  | .getdents =>
    match x.openSlot r.oi with
    | none => (some .ebadf, x)
    | some op => (none, x.post (.readdir op.fid op.dirOff (x.msize - 24)))
  | .clunk => (none, x.post (.clunk r.fid))

/-! ## Ends of a request -/

def complete (x : Client C) (ri : Fin nreq) (result : Int) : Client C :=
  { (x.updReq ri fun r => { r with result := result, state := .done }).record
      (.complete (x.reqs ri).id) with
    inflight := none }

/-- The request slot is free again without a result. -/
def reclaim (x : Client C) (ri : Fin nreq) : Client C :=
  { x.updReq ri fun r => { r with state := .free } with inflight := none }

/-- The working fid goes to the clunk queue and a reserved open back to the pool. -/
def release (x : Client C) (ri : Fin nreq) : Client C :=
  let r := x.reqs ri
  let y := (x.clunkEnqueue r.fid).updReq ri fun r => { r with fid := 0 }
  if r.op = .openFile then
    y.updOpen r.oi fun o => { o with used := false }
  else y

def fail (x : Client C) (ri : Fin nreq) (result : Int) : Client C :=
  if (x.reqs ri).op = .clunk then
    ((x.fidFree (x.reqs ri).fid).updReq ri fun r => { r with fid := 0 }).reclaim ri
  else (x.release ri).complete ri result

/-- The reply to a request whose task was interrupted. -/
def abandon (x : Client C) (ri : Fin nreq) : Client C := (x.release ri).reclaim ri

/-- The last reply of an operation that clunked its own fid. -/
def clunked (x : Client C) (ri : Fin nreq) : Client C :=
  let x := (x.fidFree (x.reqs ri).fid).updReq ri fun r => { r with fid := 0 }
  x.complete ri (x.reqs ri).result

def setStep (x : Client C) (ri : Fin nreq) (step : Nat) : Client C :=
  x.updReq ri fun r => { r with step := step }

/-! ## Replies -/

def replyWalkAdvance (x : Client C) (ri : Fin nreq) (body : Bytes) : Option (Client C) :=
  if body.length < 2 then some (x.fail ri Errno.eio.neg)
  else do
    let walked ← read? body 0 2
    match pathSplit (x.reqs ri).path with
    | none => some (x.fail ri Errno.eio.neg)
    | some names =>
      if walked = names.length then some (x.setStep ri 1)
      else
        some (x.fail ri (if walked < names.length then Errno.enoent.neg else Errno.eio.neg))

/-- The common part of the `Rlgetattr` steps. -/
def replyGetattr (x : Client C) (ri : Fin nreq) (body : Bytes) (k : Attr → Client C) :
    Option (Client C) := do
  match ← parseGetattr body with
  | none => some (x.fail ri Errno.eio.neg)
  | some a => some (k a)

def replyOpen (x : Client C) (ri : Fin nreq) (body : Bytes) : Option (Client C) :=
  let r := x.reqs ri
  match r.step with
  | 0 => x.replyWalkAdvance ri body
  | 1 =>
    x.replyGetattr ri body fun a =>
      (x.updOpen r.oi fun o =>
        { o with isDir := a.isDir, mode := a.mode, size := a.size, mtime := a.mtime,
                 ino := a.ino }).setStep ri 2
  | 2 =>
    some ((x.updOpen r.oi fun o =>
      { o with used := true, stale := false, fid := r.fid, generation := x.generation,
               dirOff := 0 }).complete ri r.oi.val)
  | _ => some (x.fail ri Errno.eio.neg)

def recordCopies (x : Client C) (ri : Fin nreq) (v : Option (View C.nslot))
    (copies : List (Nat × Bytes)) : Client C :=
  match v with
  | none => x
  | some v =>
    { x with log := copies.map (fun c => .copy (x.reqs ri).id v.ref c.1 c.2) ++ x.log }

def replyRead (x : Client C) (v : Option (View C.nslot)) (ri : Fin nreq) (body : Bytes) :
    Option (Client C) := do
  let r := x.reqs ri
  let (count, o) ← replyDataCount body
  let count := min count r.ulen
  let bytes ← slice? body o count
  if count ≠ 0 ∧ guestWritable v r.ubuf count = false then
    some (x.complete ri Errno.efault.neg)
  else
    let x := if count ≠ 0 then x.recordCopies ri v [(r.ubuf, bytes)] else x
    let x :=
      if (x.opens r.oi).used then
        x.updOpen r.oi fun o => { o with rdOff := (o.rdOff + count) % 2 ^ 64 }
      else x
    some (x.complete ri count)

def replyGetdents (x : Client C) (v : Option (View C.nslot)) (ri : Fin nreq)
    (body : Bytes) : Option (Client C) := do
  let r := x.reqs ri
  let (count, o) ← replyDataCount body
  let lastOff := if (x.opens r.oi).used then (x.opens r.oi).dirOff else 0
  let (sink, lastOff) ←
    readdirLoop v body (o + count) body.length o
      { ubuf := r.ubuf, cap := r.ulen, is64 := r.is64 } lastOff
  let x := x.recordCopies ri v sink.records.reverse
  if sink.error then some (x.complete ri Errno.efault.neg)
  else
    let x :=
      if (x.opens r.oi).used then x.updOpen r.oi fun o => { o with dirOff := lastOff } else x
    some (x.complete ri sink.filled)

def statDeliver (x : Client C) (v : Option (View C.nslot)) (ri : Fin nreq) (a : Attr) :
    Int × Client C :=
  let r := x.reqs ri
  match r.statkind with
  | .exists => (0, x)
  | .kstat64 | .statx =>
    if guestWritable v r.ubuf r.statkind.recordSize then
      (0, x.recordCopies ri v [(r.ubuf, statRecord a r.statkind)])
    else (Errno.efault.neg, x)
  | .chdir =>
    if a.isDir then
      let below := if r.path = [47] then [] else r.path
      let cwd := C.mountpoint ++ below
      if cwd.length ≥ pathMax then (Errno.enametoolong.neg, x)
      else
        match v with
        | none => (0, x)
        | some v => (0, { x with cwds := (v.ref, if cwd = [] then [47] else cwd) :: x.cwds })
    else (Errno.enotdir.neg, x)

def replyStat (x : Client C) (v : Option (View C.nslot)) (ri : Fin nreq) (body : Bytes) :
    Option (Client C) :=
  match (x.reqs ri).step with
  | 0 => x.replyWalkAdvance ri body
  | 1 =>
    x.replyGetattr ri body fun a =>
      match x.statDeliver v ri a with
      | (result, x) => (x.updReq ri fun r => { r with result := result }).setStep ri 2
  | 2 => some (x.clunked ri)
  | _ => some (x.fail ri Errno.eio.neg)

def replyExecfetch (x : Client C) (ri : Fin nreq) (body : Bytes) : Option (Client C) :=
  let r := x.reqs ri
  match r.step with
  | 0 => x.replyWalkAdvance ri body
  | 1 =>
    x.replyGetattr ri body fun a =>
      if a.isReg then
        (x.updReq ri fun r => { r with ulen := C.word.wrap a.size }).setStep ri 2
      else (x.updReq ri fun r => { r with result := Errno.eacces.neg }).setStep ri 4
  | 2 => some ({ x.updReq ri fun r => { r with off := 0 } with execSize := 0 }.setStep ri 3)
  | 3 => do
    let (count, o) ← replyDataCount body
    let count := if r.off + count > C.stageCap then stageRoom (C := C) r.off else count
    let bytes ← slice? body o count
    let x := if count ≠ 0 then x.record (.stage r.id r.off bytes) else x
    let off := r.off + count
    let eof := count = 0 ∨ off ≥ r.ulen
    let full := off ≥ C.stageCap
    let result := if full ∧ ¬eof then Errno.enoexec.neg else r.result
    some ({ x.updReq ri fun r => { r with off := off, result := result } with
      execSize := off }.setStep ri (if eof ∨ full then 4 else 3))
  | 4 => some (x.clunked ri)
  | _ => some (x.fail ri Errno.eio.neg)

def handleReply (x : Client C) (v : Option (View C.nslot)) (ri : Fin nreq) (type : UInt8)
    (body : Bytes) : Option (Client C) :=
  let r := x.reqs ri
  if r.owner = none ∧ r.op ≠ .clunk then some (x.abandon ri)
  else if type = MsgType.rlerror.code then
    if body.length < 4 then some (x.fail ri Errno.eio.neg)
    else do
      let ecode ← read? body 0 4
      some (x.fail ri (negLong C.word ecode))
  else if (expectedReply r).map MsgType.code ≠ some type then some (x.fail ri Errno.eio.neg)
  else
    match r.op with
    | .openFile => x.replyOpen ri body
    | .read => x.replyRead v ri body
    | .getdents => x.replyGetdents v ri body
    | .stat => x.replyStat v ri body
    | .execfetch => x.replyExecfetch ri body
    | .clunk => some ((x.fidFree r.fid).reclaim ri)

end Client

end Lxp.Netfs
