import Lxp.Lib.ByteMemory
import Lxp.Lib.Ring

/-!
# Pipes and terminals by themselves

One pipe, and one pseudo-terminal with its line discipline, as the pools hold them: what an attempt
to read or to write answers and leaves.  Slots of the pools are used again; `born` is the number of
the object that is in the slot, which the source does not keep.
-/

open RingBuffer

namespace Lxp.Stream

/-! ## Error codes -/

/-- The provider results other than success. -/
inductive LxpErr where
  | notRegistered
  | invalidParam
  | noMemory
  | timeout
  | notSupported
  | queueFull
  | netRefused
  | netUnreachable
  | netAddrInUse
  | netReset
  | netDnsFail
  | netClosed
  | wouldBlock
  | eof
  | notFound
  | netAddrNotAvailable
  | alreadyExists
  | noSpace
  | notDir
  | isDir
  | notEmpty
  | readOnly
  | io
  | busy
  | nameTooLong
  | badHandle
  | permission
  | crossDevice
deriving DecidableEq, Repr

inductive IoErrno where
  | enoent
  | eio
  | ebadf
  | eagain
  | enomem
  | eacces
  | efault
  | ebusy
  | eexist
  | exdev
  | enodev
  | enotdir
  | eisdir
  | einval
  | emfile
  | enotty
  | enospc
  | erofs
  | epipe
  | enametoolong
  | enotempty
  | enotsock
  | eopnotsupp
  | eafnosupport
  | eaddrinuse
  | eaddrnotavail
  | enetunreach
  | econnreset
  | eisconn
  | etimedout
  | econnrefused
  | ealready
  | einprogress
  -- Any other code a device driver answers.
  | other (n : Nat)
deriving DecidableEq, Repr

abbrev IoReply := Except IoErrno Nat

def errnoFromErr : LxpErr → IoReply
  | .eof => .ok 0
  | .wouldBlock => .error .eagain
  | .queueFull => .error .eagain
  | .notRegistered => .error .enodev
  | .invalidParam => .error .einval
  | .busy => .error .ebusy
  | .readOnly => .error .erofs
  | .permission => .error .eacces
  | .noMemory => .error .enomem
  | .timeout => .error .etimedout
  | .notSupported => .error .eopnotsupp
  | .notFound => .error .enoent
  | .alreadyExists => .error .eexist
  | .noSpace => .error .enospc
  | .notDir => .error .enotdir
  | .isDir => .error .eisdir
  | .notEmpty => .error .enotempty
  | .nameTooLong => .error .enametoolong
  | .badHandle => .error .ebadf
  | .crossDevice => .error .exdev
  | .netRefused => .error .econnrefused
  | .netUnreachable => .error .enetunreach
  | .netAddrInUse => .error .eaddrinuse
  | .netAddrNotAvailable => .error .eaddrnotavail
  | .netReset => .error .econnreset
  | .netClosed => .error .epipe
  | .netDnsFail => .error .eio
  | .io => .error .eio

def netErrnoFromErr (e : LxpErr) : IoReply :=
  if e = .timeout then .error .eagain else errnoFromErr e

def connectErrno (e : LxpErr) : IoReply :=
  if e = .netReset then .error .econnrefused else netErrnoFromErr e

def endsMax : Nat := 65535

/-! ## Pipes -/

structure Pipe where
  ring : RingBuf UInt8
  readers : Nat := 0
  writers : Nat := 0
  used : Bool := false
  born : Nat := 0

def Pipe.zero (cap : Nat) : Pipe := { ring := { buf := List.replicate cap 0 } }

def Pipe.tryRead (pp : Pipe) (len : Nat) : Except IoErrno Bytes × Pipe :=
  if pp.ring.count = 0 then
    (if 0 < pp.writers then .error .eagain else .ok [], pp)
  else (.ok (pp.ring.read len).1, { pp with ring := (pp.ring.read len).2 })

def Pipe.tryWrite (pp : Pipe) (bytes : Bytes) : IoReply × Pipe :=
  if pp.readers = 0 then (.error .epipe, pp)
  else if pp.ring.count = pp.ring.cap then (.error .eagain, pp)
  else (.ok (pp.ring.write bytes).1, { pp with ring := (pp.ring.write bytes).2 })

def Pipe.dropEnd (pp : Pipe) (writeEnd : Bool) : Pipe :=
  if writeEnd then { pp with writers := pp.writers - 1 } else { pp with readers := pp.readers - 1 }

/-- Whether `poll` reports the read end readable, or the write end writable. -/
def Pipe.poll (pp : Pipe) (writeEnd : Bool) : Bool :=
  if writeEnd then decide (pp.ring.count < pp.ring.cap ∨ pp.readers = 0)
  else decide (0 < pp.ring.count ∨ pp.writers = 0)

/-! ## Terminals -/

structure Termios where
  icrnl : Bool := true
  opost : Bool := true
  onlcr : Bool := true
  icanon : Bool := true
  echo : Bool := true
  isig : Bool := true
  vintr : UInt8 := 3
  verase : UInt8 := 127
  veof : UInt8 := 4
  vsusp : UInt8 := 26
deriving DecidableEq

structure Tty where
  termios : Termios := {}
  fgPgrp : Int := 0
deriving DecidableEq

def sigint : Nat := 2
def sigtstp : Nat := 20

def ttySignalFor (tty : Tty) (c : UInt8) : Option Nat :=
  if !tty.termios.isig || c == 0 then none
  else if c = tty.termios.vintr then some sigint
  else if c = tty.termios.vsusp then some sigtstp
  else none

structure Pty where
  m2s : RingBuf UInt8
  s2m : RingBuf UInt8
  -- The line that is being typed.
  canon : Bytes := []
  tty : Tty := {}
  masters : Nat := 0
  slaves : Nat := 0
  used : Bool := false
  locked : Bool := false
  m2sEof : Bool := false
  mNb : Bool := false
  sNb : Bool := false
  born : Nat := 0

def Pty.zero (cap : Nat) : Pty :=
  { m2s := { buf := List.replicate cap 0 }, s2m := { buf := List.replicate cap 0 } }

def ptyCanon : Nat := 256

def ringPutc (r : RingBuf UInt8) (c : UInt8) : RingBuf UInt8 :=
  if r.count < r.cap then
    { r with buf := r.buf.set r.wpos c, wpos := (r.wpos + 1) % r.cap, count := r.count + 1 }
  else r

/-- Up to and including the first newline. -/
def ringReadLine (r : RingBuf UInt8) : Nat → Bytes × RingBuf UInt8
  | 0 => ([], r)
  | len + 1 =>
    if r.count = 0 then ([], r)
    else
      let c := r.buf.getD r.rpos 0
      let r := { r with rpos := (r.rpos + 1) % r.cap, count := r.count - 1 }
      if c = 10 then ([c], r)
      else
        let (line, r) := ringReadLine r len
        (c :: line, r)

/-- What a loop that cannot go on answers. -/
def stopped (consumed : Nat) : IoReply := if consumed = 0 then .error .eagain else .ok consumed

def Pty.echo (pt : Pty) (bytes : Bytes) : Pty :=
  if pt.tty.termios.echo then { pt with s2m := bytes.foldl ringPutc pt.s2m } else pt

/-- A write to the master: input for the slave.  Signals for the foreground group are collected in
`raised`. -/
def Pty.input (pt : Pty) (consumed : Nat) (raised : List (Int × Nat)) :
    Bytes → IoReply × Pty × List (Int × Nat)
  | [] => (.ok consumed, pt, raised)
  | c :: rest =>
    let tio := pt.tty.termios
    let c := if tio.icrnl ∧ c = 13 then 10 else c
    match ttySignalFor pt.tty c with
    | some sig =>
      pt.input (consumed + 1)
        (if 0 < pt.tty.fgPgrp then raised ++ [(pt.tty.fgPgrp, sig)] else raised) rest
    | none =>
      if !tio.icanon then
        if pt.m2s.space = 0 then (stopped consumed, pt, raised)
        else Pty.input (({ pt with m2s := ringPutc pt.m2s c } : Pty).echo [c])
          (consumed + 1) raised rest
      else if c = tio.verase ∨ c = 8 then
        if pt.canon ≠ [] then
          Pty.input (({ pt with canon := pt.canon.dropLast } : Pty).echo [8, 32, 8]) (consumed + 1)
            raised rest
        else pt.input (consumed + 1) raised rest
      else if c = 10 then
        if pt.m2s.space < pt.canon.length + 1 then (stopped consumed, pt, raised)
        else
          Pty.input (({ pt with
              m2s := (pt.canon ++ [10]).foldl ringPutc pt.m2s
              canon := [] } : Pty).echo [13, 10])
            (consumed + 1) raised rest
      else if c = tio.veof then
        if pt.m2s.space < pt.canon.length then (stopped consumed, pt, raised)
        else
          Pty.input { pt with
              m2s := pt.canon.foldl ringPutc pt.m2s
              m2sEof := pt.m2sEof || pt.canon.isEmpty
              canon := [] }
            (consumed + 1) raised rest
      else if pt.canon.length < ptyCanon then
        Pty.input (({ pt with canon := pt.canon ++ [c] } : Pty).echo [c]) (consumed + 1) raised rest
      else pt.input (consumed + 1) raised rest

/-- A write to the slave: output for the master. -/
def Pty.output (pt : Pty) (consumed : Nat) : Bytes → IoReply × Pty
  | [] => (.ok consumed, pt)
  | c :: rest =>
    if pt.tty.termios.opost ∧ pt.tty.termios.onlcr ∧ c = 10 then
      if pt.s2m.space < 2 then (stopped consumed, pt)
      else Pty.output { pt with s2m := ringPutc (ringPutc pt.s2m 13) 10 } (consumed + 1) rest
    else
      if pt.s2m.space = 0 then (stopped consumed, pt)
      else Pty.output { pt with s2m := ringPutc pt.s2m c } (consumed + 1) rest

def Pty.read (pt : Pty) (master : Bool) (len : Nat) : Except IoErrno Bytes × Pty :=
  if !pt.used then (.error .ebadf, pt)
  else if len = 0 then (.ok [], pt)
  else if master then
    if 0 < pt.s2m.count then (.ok (pt.s2m.read len).1, { pt with s2m := (pt.s2m.read len).2 })
    else if pt.slaves = 0 then (.ok [], pt)
    else (.error .eagain, pt)
  else if 0 < pt.m2s.count then
    if pt.tty.termios.icanon then
      (.ok (ringReadLine pt.m2s len).1, { pt with m2s := (ringReadLine pt.m2s len).2 })
    else (.ok (pt.m2s.read len).1, { pt with m2s := (pt.m2s.read len).2 })
  else if pt.masters = 0 then (.ok [], pt)
  else if pt.m2sEof then (.ok [], { pt with m2sEof := false })
  else (.error .eagain, pt)

def Pty.write (pt : Pty) (master : Bool) (bytes : Bytes) : IoReply × Pty × List (Int × Nat) :=
  if !pt.used then (.error .ebadf, pt, [])
  else if bytes = [] then (.ok 0, pt, [])
  else if master then pt.input 0 [] bytes
  else
    let (r, pt) := pt.output 0 bytes
    (r, pt, [])

def Pty.dropEnd (pt : Pty) (master : Bool) : Pty :=
  if master then { pt with masters := pt.masters - 1 } else { pt with slaves := pt.slaves - 1 }

def Pty.nonblock (pt : Pty) (master : Bool) : Bool :=
  pt.used && if master then pt.mNb else pt.sNb

def Pty.setfl (pt : Pty) (master nb : Bool) : Pty :=
  if !pt.used then pt
  else if master then { pt with mNb := nb }
  else { pt with sNb := nb }

end Lxp.Stream
