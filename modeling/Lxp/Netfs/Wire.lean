import Lxp.Lib.LittleEndian
import Lxp.Arena.Heap
import Lxp.Overlay.Dirent

/-!
# 9P messages of the remote filesystem

The byte strings that the 9P2000.L client of `netfs/lxp_netfs.c` sends and the parsers of what it
receives.  Every read of a received byte goes through `LittleEndian.read?` or `[·]?` on the bytes
that were received, so a parser answers `none` exactly where the source would read past them.
-/

namespace Lxp.Netfs

open LittleEndian Option

abbrev msizeMax : Nat := 2048
abbrev nfid : Nat := 32
abbrev nopen : Nat := 16
abbrev nreq : Nat := 8
abbrev nclunk : Nat := 24
abbrev maxWelem : Nat := 16
abbrev pathMax : Nat := 256

inductive Errno where
  | enoent
  | esrch
  | eio
  | enoexec
  | ebadf
  | eagain
  | enomem
  | eacces
  | efault
  | enotdir
  | eisdir
  | einval
  | emfile
  | erofs
  | enametoolong
  | eoverflow
  | estale
deriving DecidableEq, Repr

def Errno.code : Errno → Nat
  | .enoent => 2
  | .esrch => 3
  | .eio => 5
  | .enoexec => 8
  | .ebadf => 9
  | .eagain => 11
  | .enomem => 12
  | .eacces => 13
  | .efault => 14
  | .enotdir => 20
  | .eisdir => 21
  | .einval => 22
  | .emfile => 24
  | .erofs => 30
  | .enametoolong => 36
  | .eoverflow => 75
  | .estale => 116

/-- What a call returns for an error. -/
def Errno.neg (e : Errno) : Int := -(e.code : Int)

theorem Errno.neg_lt (e : Errno) : e.neg < 0 := by
  cases e <;> decide

/-! ## Messages sent -/

inductive MsgType where
  | rlerror
  | tlopen
  | rlopen
  | tlgetattr
  | rlgetattr
  | treaddir
  | rreaddir
  | tversion
  | rversion
  | tattach
  | rattach
  | twalk
  | rwalk
  | tread
  | rread
  | tclunk
  | rclunk
deriving DecidableEq, Repr

def MsgType.code : MsgType → UInt8
  | .rlerror => 7
  | .tlopen => 12
  | .rlopen => 13
  | .tlgetattr => 24
  | .rlgetattr => 25
  | .treaddir => 40
  | .rreaddir => 41
  | .tversion => 100
  | .rversion => 101
  | .tattach => 104
  | .rattach => 105
  | .twalk => 110
  | .rwalk => 111
  | .tread => 116
  | .rread => 117
  | .tclunk => 120
  | .rclunk => 121

abbrev p9NoTag : Nat := 0xffff
abbrev p9NoFid : Nat := 0xffffffff
abbrev p9Tag : Nat := 1
abbrev p9RootFid : Nat := 0
abbrev p9GetattrBasic : Nat := 0x7ff

-- `msg_begin` to `msg_end`: size[4] type[1] tag[2] and the body.
def message (type : MsgType) (tag : Nat) (body : Bytes) : Bytes :=
  write 4 (7 + body.length) ++ [type.code] ++ write 2 tag ++ body

def putstr (s : Bytes) : Bytes := write 2 s.length ++ s

/-- What the client asks of the server. -/
inductive TMsg where
  | version (msize : Nat)
  | attach (uname aname : Bytes)
  | walk (newfid : Nat) (names : List Bytes)
  | lgetattr (fid : Nat)
  | lopen (fid : Nat)
  | read (fid offset count : Nat)
  | readdir (fid offset count : Nat)
  | clunk (fid : Nat)
deriving DecidableEq, Repr

def versionName : Bytes := [57, 80, 50, 48, 48, 48, 46, 76]

def messageIo (type : MsgType) (fid offset count : Nat) : Bytes :=
  message type p9Tag (write 4 fid ++ write 8 offset ++ write 4 count)

def messageFid (type : MsgType) (fid : Nat) : Bytes := message type p9Tag (write 4 fid)

def TMsg.encode : TMsg → Bytes
  | .version msize => message .tversion p9NoTag (write 4 msize ++ putstr versionName)
  | .attach uname aname =>
    message .tattach p9Tag
      (write 4 p9RootFid ++ write 4 p9NoFid ++ putstr uname ++ putstr aname ++ write 4 0)
  | .walk newfid names =>
    message .twalk p9Tag
      (write 4 p9RootFid ++ write 4 newfid ++ write 2 names.length ++ names.flatMap putstr)
  | .lgetattr fid => message .tlgetattr p9Tag (write 4 fid ++ write 8 p9GetattrBasic)
  | .lopen fid => message .tlopen p9Tag (write 4 fid ++ write 4 0)
  | .read fid offset count => messageIo .tread fid offset count
  | .readdir fid offset count => messageIo .treaddir fid offset count
  | .clunk fid => messageFid .tclunk fid

/-- `path_split`: the components between slashes, `none` for more than a walk may name. -/
def pathSplit (path : Bytes) : Option (List Bytes) :=
  let names := (path.splitOn 47).filter (fun name => !name.isEmpty)
  if names.length > maxWelem then none else some names

/-! ## Framing of what is received -/

inductive RxMessage where
  | incomplete
  | bad
  | message (len : Nat)
deriving DecidableEq, Repr

def rxMessage (rx : Bytes) : Option RxMessage :=
  if rx.length < 7 then some .incomplete
  else do
    let size ← read? rx 0 4
    if size < 7 ∨ size > msizeMax then some .bad
    else if rx.length < size then some .incomplete
    else some (.message size)

theorem rxMessage_isSome (rx : Bytes) : (rxMessage rx).isSome = true := by
  unfold rxMessage
  split
  · rfl
  obtain ⟨size, hsize⟩ := exists_read? (b := rx) (o := 0) (n := 4) (by omega)
  simp only [hsize, bind_eq_bind, bind_some]
  split
  · rfl
  · split <;> rfl

theorem rxMessage_message {rx : Bytes} {len : Nat}
    (h : rxMessage rx = some (.message len)) : 7 ≤ len ∧ len ≤ msizeMax ∧ len ≤ rx.length := by
  unfold rxMessage at h
  split at h
  · cases h
  obtain ⟨size, hsize⟩ := exists_read? (b := rx) (o := 0) (n := 4) (by omega)
  simp only [hsize, bind_eq_bind, bind_some] at h
  split at h
  · cases h
  · split at h
    · cases h
    · cases h
      omega

/-! ## Parsers of reply bodies -/

/-- `reply_data_count`: the length of the data, clamped to what was received, and where it
starts. -/
def replyDataCount (body : Bytes) : Option (Nat × Nat) :=
  if body.length < 4 then some (0, 0)
  else do
    let count ← read? body 0 4
    some (if count > body.length - 4 then body.length - 4 else count, 4)

theorem replyDataCount_spec (body : Bytes) :
    ∃ count o, replyDataCount body = some (count, o) ∧ o + count ≤ body.length ∧
      count < 2 ^ 32 := by
  unfold replyDataCount
  split
  · exact ⟨0, 0, rfl, by omega, by omega⟩
  obtain ⟨count, hcount⟩ := exists_read? (b := body) (o := 0) (n := 4) (by omega)
  have hlt := read?_lt hcount
  simp only [hcount]
  refine ⟨_, 4, rfl, ?_⟩
  split <;> omega

structure Attr where
  mode : Nat
  size : Nat
  mtime : Nat
  ino : Nat
deriving DecidableEq, Repr

-- `parse_getattr`; the inner `none` is a body too short for the fields.
def parseGetattr (body : Bytes) : Option (Option Attr) :=
  if 97 > body.length then some none
  else do
    let _valid ← read? body 0 8
    let _qtype ← read? body 8 1
    let _version ← read? body 9 4
    let ino ← read? body 13 8
    let mode ← read? body 21 4
    let _uid ← read? body 25 4
    let _gid ← read? body 29 4
    let _nlink ← read? body 33 8
    let _rdev ← read? body 41 8
    let size ← read? body 49 8
    let _blksize ← read? body 57 8
    let _blocks ← read? body 65 8
    let _atimeSec ← read? body 73 8
    let _atimeNsec ← read? body 81 8
    let mtime ← read? body 89 8
    some (some { mode := mode, size := size, mtime := mtime, ino := ino })

theorem parseGetattr_isSome (body : Bytes) : (parseGetattr body).isSome = true := by
  unfold parseGetattr
  split
  · rfl
  have hfield : ∀ {o n} {f : Nat → Option (Option Attr)}, o + n ≤ 97 →
      (∀ v, (f v).isSome = true) → (read? body o n >>= f).isSome = true := by
    intro o n f h hf
    obtain ⟨v, hv⟩ := exists_read? (show o + n ≤ body.length by omega)
    rw [hv]
    exact hf v
  -- one step for each field of the record
  iterate 15 refine hfield (by omega) fun _ => ?_
  rfl

abbrev sIfmt : Nat := 0xf000
abbrev sIfdir : Nat := 0x4000
abbrev sIfreg : Nat := 0x8000

def Attr.isDir (a : Attr) : Bool := a.mode &&& sIfmt == sIfdir
def Attr.isReg (a : Attr) : Bool := a.mode &&& sIfmt == sIfreg

/-! ## Records copied out -/

inductive StatKind where
  | kstat64
  | statx
  -- `NETFS_STAT_EXISTS`, `NETFS_STAT_CHDIR`
  | exists
  | chdir
deriving DecidableEq, Repr

def StatKind.recordSize : StatKind → Nat
  | .kstat64 => 104
  | .statx => 256
  | .exists | .chdir => 0

abbrev inoNetfs : Nat := 0x600000

/-- The inode number of `netfs_stat_record`. -/
def statIno (a : Attr) : Nat := (inoNetfs + a.ino) % 2 ^ 32

def statBlocks (a : Attr) : Nat := (a.size + 511) % 2 ^ 64 / 512

-- `fill_kstat64` of `fs/lxp_stat.c` on a record of `netfs_stat_record`, padding included.
def fillKstat64 (a : Attr) : List (Nat × Nat) :=
  [(8, 0xfe), (4, 0), (4, statIno a), (4, a.mode), (4, 1), (4, 0), (4, 0), (8, 0), (4, 0), (4, 0),
    (8, a.size), (4, if a.mode &&& sIfmt = 0x2000 then 1024 else 512), (4, 0), (8, statBlocks a),
    (4, 0), (4, 0), (4, a.mtime), (4, 0), (4, 0), (4, 0), (8, statIno a)]

-- `fill_statx`; the modification time is the last of the four times.
def fillStatx (a : Attr) : List (Nat × Nat) :=
  [(4, 0x7ff), (4, 512), (8, 0), (4, 1), (4, 0), (4, 0), (2, a.mode), (2, 0), (8, statIno a),
    (8, a.size), (8, statBlocks a), (8, 0), (48, 0), (8, a.mtime), (8, 0), (4, 0), (4, 0), (4, 0),
    (4, 0xfe), (112, 0)]

def statRecord (a : Attr) : StatKind → Bytes
  | .kstat64 => writeFields (fillKstat64 a)
  | .statx => writeFields (fillStatx a)
  | .exists | .chdir => []

theorem length_statRecord (a : Attr) (kind : StatKind) :
    (statRecord a kind).length = kind.recordSize := by
  cases kind with
  | kstat64 =>
    rw [statRecord, length_writeFields]
    simp [fillKstat64, StatKind.recordSize]
  | statx =>
    rw [statRecord, length_writeFields]
    simp [fillStatx, StatKind.recordSize]
  | «exists» | chdir => rfl

/-- The record that `lxp_dirent_put` builds for one name. -/
def direntRecord (is64 : Bool) (ino off : Nat) (type : UInt8) (name : Bytes) : Bytes :=
  let reclen := direntReclen is64 name.length
  if is64 then
    write 8 ino ++ write 8 off ++ write 2 reclen ++ [type] ++ name ++
      List.replicate (reclen - 19 - name.length) 0
  else
    write 4 ino ++ write 4 off ++ write 2 reclen ++ name ++
      List.replicate (reclen - 11 - name.length) 0 ++ [type]

theorem length_direntRecord (is64 : Bool) (ino off : Nat) (type : UInt8) (name : Bytes) :
    (direntRecord is64 ino off type name).length = direntReclen is64 name.length := by
  cases is64
  · simp [direntRecord, direntReclen, direntHead]
    omega
  · simp [direntRecord, direntReclen, direntHead]
    omega

def dtypeFromQid (qt : UInt8) : UInt8 :=
  if qt &&& 0x80 ≠ 0 then 4
  else if qt &&& 0x02 ≠ 0 then 10
  else 8

end Lxp.Netfs
