import Lxp.Arena.Safety
import Lxp.Overlay.Paths

/-!
# The writable overlay

Writable nodes in a flat table of absolute paths, over a read-only rootfs.  File bytes live in one
pool managed by the arena allocator.  Open-file descriptions are shared by every kind of file; those
of other kinds only occupy their places here.  Which descriptors name a description does not matter
to the nodes, so whether the caller's table has a free one is an input of an open, and so is whether
a guest buffer can be accessed.  The path of an open is the one that `lxp_mount_follow`, which reads
the links among the nodes and is not modelled, has left.
-/

open ByteMemory Function

namespace Lxp

inductive FileType where
  | reg
  | dir
  | lnk
  | chr
deriving DecidableEq

structure RootEntry where
  path : Path
  type : FileType
  perm : Nat
  data : Bytes
deriving DecidableEq

structure WfsConfig where
  word : WordSize
  -- The arena's mapping records, the nodes, and the open-file descriptions.
  nmap : Nat
  nwnode : Nat
  nofd : Nat
  pathMax : Nat
  poolBase : Nat
  pool : Nat
  rootfs : List RootEntry
  -- Where a rootfs entry leads when symbolic links are followed.
  follow : Nat → Option Nat
  base_aligned : 16 ∣ poolBase
  pool_least : 512 ≤ pool
  pool_aligned : 16 ∣ pool
  pool_fits : pool < 256 ^ word.bytes

abbrev WfsConfig.Node (K : WfsConfig) := Fin K.nwnode

abbrev WfsConfig.Ofd (K : WfsConfig) := Fin K.nofd

structure Wnode where
  path : Path := []
  type : FileType := .reg
  perm : Nat := 0
  data : Nat := 0
  size : Nat := 0
  cap : Nat := 0
  used : Bool := false
  linked : Bool := false
  openRefs : Nat := 0
deriving DecidableEq

inductive AccMode where
  | rdonly
  | wronly
  | rdwr
deriving DecidableEq

/-- A description of a node.  `append` is how it was opened; the source does not keep it. -/
structure WOfd (K : WfsConfig) where
  node : K.Node
  offset : Nat
  acc : AccMode
  append : Bool
deriving DecidableEq

inductive OfdSlot (K : WfsConfig) where
  | free
  | tmpfs (s : WOfd K)
  | other
deriving DecidableEq

structure Wfs (K : WfsConfig) where
  nodes : K.Node → Wnode
  arena : Arena K.word K.nmap
  ready : Bool
  ofds : K.Ofd → OfdSlot K

variable {K : WfsConfig}

def setNode (i : K.Node) (f : Wnode → Wnode) (x : Wfs K) : Wfs K :=
  { x with nodes := update x.nodes i (f (x.nodes i)) }

def setOfd (d : K.Ofd) (o : OfdSlot K) (x : Wfs K) : Wfs K :=
  { x with ofds := update x.ofds d o }

def setMem (f : Mem → Mem) (x : Wfs K) : Wfs K :=
  { x with arena := { x.arena with mem := f x.arena.mem } }

section Updates

variable (i : K.Node) (f : Wnode → Wnode) (d : K.Ofd) (o : OfdSlot K) (g : Mem → Mem)
  (x : Wfs K)

theorem setNode_nodes : (setNode i f x).nodes = update x.nodes i (f (x.nodes i)) := rfl

@[simp] theorem setNode_self : (setNode i f x).nodes i = f (x.nodes i) := update_self ..

@[simp] theorem setNode_of_ne {i j : K.Node} (h : j ≠ i) :
    (setNode i f x).nodes j = x.nodes j := update_of_ne h ..

@[simp] theorem setNode_arena : (setNode i f x).arena = x.arena := rfl

@[simp] theorem setNode_ofds : (setNode i f x).ofds = x.ofds := rfl

@[simp] theorem setOfd_nodes : (setOfd d o x).nodes = x.nodes := rfl

@[simp] theorem setOfd_ofds : (setOfd d o x).ofds = update x.ofds d o := rfl

@[simp] theorem setMem_nodes : (setMem g x).nodes = x.nodes := rfl

end Updates

def wfsBoot (K : WfsConfig) (mem : Mem) : Wfs K where
  nodes := fun _ => {}
  arena := ⟨0, 0, 0, 0, 0, fun _ => {}, mem⟩
  ready := false
  ofds := fun _ => .free

/-! ## Nodes -/

def fsLookup (K : WfsConfig) (path : Path) : Option Nat :=
  K.rootfs.findIdx? fun e => e.path == path

def Wnode.named (n : Wnode) (path : Path) : Bool := n.used && n.linked && n.path == path

def wfsFind (path : Path) (x : Wfs K) : Option K.Node :=
  (List.finRange K.nwnode).find? fun i => (x.nodes i).named path

def wfsCreate (path : Path) (type : FileType) (perm : Nat) (x : Wfs K) : Option (K.Node × Wfs K) :=
  if K.pathMax ≤ path.length then none
  else
    match (List.finRange K.nwnode).find? fun i => !(x.nodes i).used with
    | none => none
    | some i => some (i, setNode i (fun _ => { path, type, perm, used := true, linked := true }) x)

def maxPayload (K : WfsConfig) : Nat := K.pool - arenaAlign

def roundUp256 (need : Nat) : Nat := (need + 255) / 256 * 256

/-- The capacity to ask for first: twice the old one, within the pool. -/
def growCap (K : WfsConfig) (cap mincap : Nat) : Nat :=
  let ncap := if maxPayload K / 2 < cap then maxPayload K
    else if mincap < cap * 2 then cap * 2 else mincap
  if maxPayload K < ncap then maxPayload K else ncap

/-- The pool is handed to the arena on first use. -/
def wfsReady (x : Wfs K) : Except Fault (Wfs K) :=
  if x.ready then .ok x
  else do
    match ← arenaInit K.word K.nmap K.poolBase K.pool x.arena.mem with
    | .ok h => .ok { x with arena := h, ready := true }
    | .error _ => .ok { x with ready := true }

def wfsResize (i : K.Node) (cap : Nat) (x : Wfs K) : Except Fault (Bool × Wfs K) := do
  match ← arenaRealloc (x.nodes i).data cap x.arena with
  | (none, h) => .ok (false, { x with arena := h })
  | (some p, h) =>
    .ok (true, setNode i (fun n => { n with data := p, cap := cap }) { x with arena := h })

/-- Whether node `i` can hold `need` bytes now. -/
def wfsReserve (i : K.Node) (need : Nat) (x : Wfs K) : Except Fault (Bool × Wfs K) :=
  if need ≤ (x.nodes i).cap then .ok (true, x)
  else if maxPayload K < need then .ok (false, x)
  else if K.word.sizeMax - 255 < need then .ok (false, x)
  else do
    let mincap := roundUp256 need
    let ncap := growCap K (x.nodes i).cap mincap
    let x ← wfsReady x
    match ← wfsResize i ncap x with
    | (true, x) => .ok (true, x)
    | (false, x) => if ncap ≠ mincap then wfsResize i mincap x else .ok (false, x)

def wfsReclaim (i : K.Node) (x : Wfs K) : Except Fault (Wfs K) :=
  if (x.nodes i).data ≠ 0 then do
    let h ← arenaFree (x.nodes i).data x.arena
    .ok (setNode i (fun _ => {}) { x with arena := h })
  else .ok (setNode i (fun _ => {}) x)

def wfsOpen (i : K.Node) (x : Wfs K) : Option (Wfs K) :=
  if (x.nodes i).used = false ∨ (x.nodes i).openRefs = 65535 then none
  else some (setNode i (fun n => { n with openRefs := n.openRefs + 1 }) x)

def wfsClose (i : K.Node) (x : Wfs K) : Except Fault (Wfs K) :=
  if (x.nodes i).used = false ∨ (x.nodes i).openRefs = 0 then .ok x
  else
    let x := setNode i (fun n => { n with openRefs := n.openRefs - 1 }) x
    if (x.nodes i).openRefs = 0 ∧ (x.nodes i).linked = false then wfsReclaim i x else .ok x

/-- The bytes stay with the open descriptions. -/
def wfsFree (i : K.Node) (x : Wfs K) : Except Fault (Wfs K) :=
  if (x.nodes i).used = false then .ok x
  else
    let x := setNode i (fun n => { n with linked := false, path := [] }) x
    if (x.nodes i).openRefs = 0 then wfsReclaim i x else .ok x

def Wnode.below (n : Wnode) (dir : Path) : Bool :=
  n.used && n.linked && pathUnder n.path dir

def wfsHasDescendant (dir : Path) (x : Wfs K) : Bool :=
  (List.finRange K.nwnode).any fun j => (x.nodes j).below dir && (x.nodes j).path != dir

def movedPath (old new path : Path) : Path := new ++ path.drop old.length

def moveBelow (i : K.Node) (new : Path) (x : Wfs K) : Wfs K :=
  { x with nodes := fun j =>
      if (x.nodes i).type = .dir ∧ j ≠ i ∧ (x.nodes j).below (x.nodes i).path then
        { x.nodes j with path := movedPath (x.nodes i).path new (x.nodes j).path }
      else x.nodes j }

/-- The checks in front of a rename of node `i` to another path. -/
def renameRefused (i : K.Node) (new : Path) (x : Wfs K) : Option FsErrno :=
  let old := (x.nodes i).path
  if K.pathMax ≤ new.length then some .enametoolong
  else if (x.nodes i).type = .dir ∧ pathUnder new old then some .einval
  else if (wfsFind new x).isSome ∧ wfsHasDescendant new x then some .enotempty
  else if (x.nodes i).type = .dir ∧ (List.finRange K.nwnode).any fun j =>
      j != i && (x.nodes j).below old &&
        decide (K.pathMax ≤ (x.nodes j).path.length - old.length + new.length) then
    some .enametoolong
  else none

def wfsRename (i : K.Node) (new : Path) (x : Wfs K) : Except Fault (Except FsErrno Unit × Wfs K) :=
  if (x.nodes i).path = new then .ok (.ok (), x)
  else
    match renameRefused i new x with
    | some e => .ok (.error e, x)
    | none => do
      let x ← match wfsFind new x with
        | some t => wfsFree t x
        | none => .ok x
      .ok (.ok (), setNode i (fun n => { n with path := new }) (moveBelow i new x))

/-! ## Descriptions -/

structure OpenFlags where
  acc : AccMode := .rdonly
  creat : Bool := false
  trunc : Bool := false
  append : Bool := false
deriving DecidableEq

def OpenFlags.writes (flags : OpenFlags) : Bool := flags.acc != .rdonly || flags.creat

/-- The first free description; `room` is whether the caller has a free descriptor. -/
def fdOpen (o : OfdSlot K) (room : Bool) (x : Wfs K) : Option (K.Ofd × Wfs K) :=
  match (List.finRange K.nofd).find? fun d => x.ofds d = .free with
  | none => none
  | some d => if room then some (d, setOfd d o x) else none

def sysFdAlloc (i : K.Node) (offset : Nat) (flags : OpenFlags) (room : Bool) (x : Wfs K) :
    Except Fault (Except FsErrno K.Ofd × Wfs K) :=
  match wfsOpen i x with
  | none => .ok (.error .emfile, x)
  | some x =>
    match fdOpen (.tmpfs ⟨i, offset, flags.acc, flags.append⟩) room x with
    | some (d, x) => .ok (.ok d, x)
    | none => do
      let x ← wfsClose i x
      .ok (.error .emfile, x)

def overlayOpen (path : Path) (flags : OpenFlags) (room : Bool) (x : Wfs K) :
    Except Fault (Except FsErrno K.Ofd × Wfs K) :=
  let found := wfsFind path x
  if flags.writes then
    match found with
    | none =>
      match fsLookup K path with
      | some fi =>
        -- A rootfs name, followed to what a write would reach.
        let isDir := (K.follow fi).any fun fi => (K.rootfs[fi]?).any fun e => e.type == .dir
        .ok (.error (if isDir then .eisdir else .erofs), x)
      | none =>
        if flags.creat = false then .ok (.error .enoent, x)
        else
          match wfsCreate path .reg 0o644 x with
          | none => .ok (.error .emfile, x)
          | some (i, x) => sysFdAlloc i (if flags.append then (x.nodes i).size else 0) flags room x
    | some i =>
      if (x.nodes i).type = .dir then .ok (.error .eisdir, x)
      else
        let x := if flags.trunc then setNode i (fun n => { n with size := 0 }) x else x
        sysFdAlloc i (if flags.append then (x.nodes i).size else 0) flags room x
  else
    match found with
    | some i => sysFdAlloc i 0 flags room x
    | none =>
      match (fsLookup K path).bind K.follow with
      | none => .ok (.error .enoent, x)
      | some _ =>
        match fdOpen .other room x with
        | none => .ok (.error .emfile, x)
        | some (d, x) => .ok (.ok d, x)

/-- The last reference to a description is given up. -/
def ofdClose (d : K.Ofd) (x : Wfs K) : Except Fault (Wfs K) :=
  match x.ofds d with
  | .free => .ok x
  | .other => .ok (setOfd d .free x)
  | .tmpfs s => do
    let x ← wfsClose s.node x
    .ok (setOfd d .free x)

/-! ## File operations

`ok` is whether the guest buffer can be accessed. -/

def poolBytes (addr len : Nat) (x : Wfs K) : Bytes :=
  bytesFrom x.arena.mem.bytes addr len

def content (x : Wfs K) (i : K.Node) : Bytes :=
  poolBytes (x.nodes i).data (x.nodes i).size x

def vfsReadMem (data size len off : Nat) (ok : Bool) (x : Wfs K) : Except FsErrno Bytes :=
  if size ≤ off then .ok []
  else if ok = false then .error .efault
  else .ok (poolBytes (data + off) (min (size - off) len) x)

def fopPread (i : K.Node) (len off : Nat) (ok : Bool) (x : Wfs K) : Except FsErrno Bytes :=
  if (x.nodes i).type = .dir then .error .eisdir
  else vfsReadMem (x.nodes i).data (x.nodes i).size len off ok x

def fopPwrite (i : K.Node) (off : Nat) (src : Bytes) (ok : Bool) (x : Wfs K) :
    Except Fault (Except FsErrno Nat × Wfs K) :=
  if K.word.sizeMax < off then .ok (.error .efbig, x)
  else if (x.nodes i).type = .dir then .ok (.error .ebadf, x)
  else if K.word.wrap (off + src.length) < src.length then .ok (.error .einval, x)
  else do
    match ← wfsReserve i (off + src.length) x with
    | (false, x) => .ok (.error .efbig, x)
    | (true, x) =>
      -- The hole behind the end is filled first.
      let n := x.nodes i
      let x := if n.size < off then setMem (·.zero (n.data + n.size) (off - n.size)) x else x
      if ok = false then .ok (.error .efault, x)
      else
        let x := setMem (·.write (n.data + off) src) x
        .ok (.ok src.length, if n.size < off + src.length then
          setNode i (fun n => { n with size := off + src.length }) x else x)

def fopFtruncate (i : K.Node) (len : Nat) (x : Wfs K) :
    Except Fault (Except FsErrno Unit × Wfs K) :=
  if (x.nodes i).type = .dir then .ok (.error .eisdir, x)
  else if K.word.sizeMax < len then .ok (.error .efbig, x)
  else if (x.nodes i).size < len then do
    match ← wfsReserve i len x with
    | (false, x) => .ok (.error .efbig, x)
    | (true, x) =>
      let n := x.nodes i
      .ok (.ok (), setNode i (fun n => { n with size := len })
        (setMem (·.zero (n.data + n.size) (len - n.size)) x))
  else .ok (.ok (), setNode i (fun n => { n with size := len }) x)

inductive Whence where
  | set
  | cur
  | end_
  | unknown
deriving DecidableEq

def int64Max : Int := 2 ^ 63 - 1

def vfsSeek (word : WordSize) (offset size : Nat) (off : Int) (whence : Whence) :
    Except FsErrno Nat :=
  let base : Option Int := match whence with
    | .set => some 0
    | .cur => some offset
    | .end_ => some size
    | .unknown => none
  match base with
  | none => .error .einval
  | some base =>
    if 0 < off ∧ int64Max - off < base then .error .eoverflow
    else if base + off < 0 then .error .einval
    else if (word.sizeMax : Int) < base + off then .error .eoverflow
    else .ok (base + off).toNat

def WOfd.seek (offset : Nat) (s : WOfd K) : WOfd K := { s with offset := offset }

inductive FileOp (K : WfsConfig) where
  | read (d : K.Ofd) (len : Nat) (ok : Bool)
  | pread (d : K.Ofd) (len off : Nat) (ok : Bool)
  | write (d : K.Ofd) (src : Bytes) (ok : Bool)
  | pwrite (d : K.Ofd) (off : Nat) (src : Bytes) (ok : Bool)
  | lseek (d : K.Ofd) (off : BitVec 32) (whence : Whence)
  | llseek (d : K.Ofd) (off : BitVec 64) (whence : Whence) (ok : Bool)
  | ftruncate (d : K.Ofd) (len : Nat)
  | opens (path : AbsPath) (flags : OpenFlags) (room : Bool)

/-- What a file operation returns: the bytes read, a number (a count, a position, or the description
of an open), or an error. -/
inductive FileResult where
  | bytes (bs : Bytes)
  | number (n : Nat)
  | failed (e : FsErrno)
deriving DecidableEq

/-- Operations on a description of another kind are not this model's. -/
def ofTmpfs (d : K.Ofd) (x : Wfs K) : Option (WOfd K) :=
  match x.ofds d with
  | .tmpfs s => some s
  | _ => none

def sysRead (d : K.Ofd) (len : Nat) (ok : Bool) (x : Wfs K) : FileResult × Wfs K :=
  match ofTmpfs d x with
  | none => (.failed .ebadf, x)
  | some s =>
    if ok = false then (.failed .efault, x)
    else if s.acc = .wronly then (.failed .ebadf, x)
    else
      match fopPread s.node len s.offset ok x with
      | .error e => (.failed e, x)
      | .ok bs => (.bytes bs, setOfd d (.tmpfs (s.seek (s.offset + bs.length))) x)

def sysPread (d : K.Ofd) (len off : Nat) (ok : Bool) (x : Wfs K) : FileResult :=
  match ofTmpfs d x with
  | none => .failed .ebadf
  | some s =>
    if ok = false then .failed .efault
    else if s.acc = .wronly then .failed .ebadf
    else
      match fopPread s.node len off ok x with
      | .error e => .failed e
      | .ok bs => .bytes bs

def sysWrite (d : K.Ofd) (src : Bytes) (ok : Bool) (x : Wfs K) :
    Except Fault (FileResult × Wfs K) :=
  match ofTmpfs d x with
  | none => .ok (.failed .ebadf, x)
  | some s =>
    if ok = false then .ok (.failed .efault, x)
    else if s.acc = .rdonly then .ok (.failed .ebadf, x)
    else do
      match ← fopPwrite s.node s.offset src ok x with
      | (.error e, x) => .ok (.failed e, x)
      | (.ok n, x) => .ok (.number n, setOfd d (.tmpfs (s.seek (s.offset + n))) x)

def sysPwrite (d : K.Ofd) (off : Nat) (src : Bytes) (ok : Bool) (x : Wfs K) :
    Except Fault (FileResult × Wfs K) :=
  match ofTmpfs d x with
  | none => .ok (.failed .ebadf, x)
  | some s =>
    if ok = false then .ok (.failed .efault, x)
    else if s.acc = .rdonly then .ok (.failed .ebadf, x)
    else do
      match ← fopPwrite s.node off src ok x with
      | (.error e, x) => .ok (.failed e, x)
      | (.ok n, x) => .ok (.number n, x)

def sysFtruncate (d : K.Ofd) (len : Nat) (x : Wfs K) : Except Fault (FileResult × Wfs K) :=
  if 2 ^ 63 ≤ len then .ok (.failed .einval, x)
  else
    match ofTmpfs d x with
    | none => .ok (.failed .ebadf, x)
    | some s =>
      if s.acc = .rdonly then .ok (.failed .einval, x)
      else do
        match ← fopFtruncate s.node len x with
        | (.error e, x) => .ok (.failed e, x)
        | (.ok _, x) => .ok (.number 0, x)

def fdSeek (d : K.Ofd) (off : Int) (whence : Whence) (x : Wfs K) : Except FsErrno Nat × Wfs K :=
  match ofTmpfs d x with
  | none => (.error .ebadf, x)
  | some s =>
    match vfsSeek K.word s.offset (x.nodes s.node).size off whence with
    | .error e => (.error e, x)
    | .ok pos => (.ok pos, setOfd d (.tmpfs (s.seek pos)) x)

/-- A position the guest's 32 bits cannot hold is an error, but the offset has moved. -/
def sysLseek (d : K.Ofd) (off : BitVec 32) (whence : Whence) (x : Wfs K) : FileResult × Wfs K :=
  match fdSeek d off.toInt whence x with
  | (.error e, x) => (.failed e, x)
  | (.ok pos, x) => if 2 ^ 31 - 1 < pos then (.failed .eoverflow, x) else (.number pos, x)

-- `ok` is whether the position could be stored.
def sysLlseek (d : K.Ofd) (off : BitVec 64) (whence : Whence) (ok : Bool) (x : Wfs K) :
    FileResult × Wfs K :=
  match fdSeek d off.toInt whence x with
  | (.error e, x) => (.failed e, x)
  | (.ok _, x) => if ok then (.number 0, x) else (.failed .efault, x)

def FileOp.run (op : FileOp K) (x : Wfs K) : Except Fault (FileResult × Wfs K) :=
  match op with
  | .read d len ok => .ok (sysRead d len ok x)
  | .pread d len off ok => .ok (sysPread d len off ok x, x)
  | .write d src ok => sysWrite d src ok x
  | .pwrite d off src ok => sysPwrite d off src ok x
  | .lseek d off whence => .ok (sysLseek d off whence x)
  | .llseek d off whence ok => .ok (sysLlseek d off whence ok x)
  | .ftruncate d len => sysFtruncate d len x
  | .opens path flags room => do
    match ← overlayOpen path.chars flags room x with
    | (.error e, x) => .ok (.failed e, x)
    | (.ok d, x) => .ok (.number d, x)

/-! ## Names -/

/-- The merged namespace: a node shadows the rootfs entry of its path. -/
def overlayStat (path : Path) (x : Wfs K) : Option FileType :=
  match wfsFind path x with
  | some i => some (x.nodes i).type
  | none =>
    match fsLookup K path with
    | some fi => (K.rootfs[fi]?).map RootEntry.type
    | none => if path = ['/'] then some .dir else none

def overlayMkdir (path : Path) (perm : Nat) (x : Wfs K) : Except FsErrno Unit × Wfs K :=
  if (overlayStat path x).isSome then (.error .eexist, x)
  else
    match wfsCreate path .dir (perm % 0o1000) x with
    | none => (.error .enospc, x)
    | some (_, x) => (.ok (), x)

def overlayRemove (path : Path) (dir : Bool) (x : Wfs K) :
    Except Fault (Except FsErrno Unit × Wfs K) :=
  match wfsFind path x with
  | none => .ok (.error (if (fsLookup K path).isSome then .erofs else .enoent), x)
  | some i =>
    let isDir := (x.nodes i).type = .dir
    if dir = true ∧ ¬ isDir then .ok (.error .enotdir, x)
    else if dir = false ∧ isDir then .ok (.error .eisdir, x)
    else if isDir ∧ (List.finRange K.nwnode).any fun j =>
        (x.nodes j).used && (pathChildName path (x.nodes j).path).isSome then
      .ok (.error .enotempty, x)
    else do
      let x ← wfsFree i x
      .ok (.ok (), x)

/-- Where the bytes of a new node come from: a range of the pool, or somewhere else. -/
inductive ByteSource where
  | pool (addr len : Nat)
  | image (bs : Bytes)

def ByteSource.length : ByteSource → Nat
  | .pool _ len => len
  | .image bs => bs.length

def ByteSource.storeAt (dst : Nat) (s : ByteSource) (m : Mem) : Mem :=
  match s with
  | .pool addr len => m.copy dst addr len
  | .image bs => m.write dst bs

/-- The bytes of a new node, which is given up when the pool has no room for them. -/
def wfsFill (i : K.Node) (s : ByteSource) (x : Wfs K) :
    Except Fault (Except FsErrno Unit × Wfs K) := do
  match ← wfsReserve i s.length x with
  | (false, x) =>
    let x ← wfsFree i x
    .ok (.error .enospc, x)
  | (true, x) =>
    .ok (.ok (), setNode i (fun n => { n with size := s.length })
      (setMem (s.storeAt (x.nodes i).data) x))

def overlaySymlink (target : Bytes) (path : Path) (x : Wfs K) :
    Except Fault (Except FsErrno Unit × Wfs K) :=
  if (overlayStat path x).isSome then .ok (.error .eexist, x)
  else
    match wfsCreate path .lnk 0o777 x with
    | none => .ok (.error .enospc, x)
    | some (i, x) => wfsFill i (.image target) x

/-- What a hard link would name. -/
structure LinkSource where
  bytes : ByteSource
  type : FileType
  perm : Nat

def linkSource (path : Path) (x : Wfs K) : Option LinkSource :=
  match wfsFind path x with
  | some i =>
    some ⟨.pool (x.nodes i).data (x.nodes i).size, (x.nodes i).type, (x.nodes i).perm⟩
  | none =>
    ((fsLookup K path).bind fun fi => K.rootfs[fi]?).map fun e => ⟨.image e.data, e.type, e.perm⟩

/-- A link is an independent copy. -/
def overlayLink (src dst : Path) (x : Wfs K) : Except Fault (Except FsErrno Unit × Wfs K) :=
  if (overlayStat dst x).isSome then .ok (.error .eexist, x)
  else
    match linkSource src x with
    | none => .ok (.error .enoent, x)
    | some s =>
      if s.type = .dir then .ok (.error .eperm, x)
      else
        match wfsCreate dst .reg (s.perm % 0o1000) x with
        | none => .ok (.error .enospc, x)
        | some (i, x) => if 0 < s.bytes.length then wfsFill i s.bytes x else .ok (.ok (), x)

def overlayRename (src dst : Path) (x : Wfs K) : Except Fault (Except FsErrno Unit × Wfs K) :=
  match wfsFind src x with
  | none => .ok (.error (if (fsLookup K src).isSome then .erofs else .enoent), x)
  | some i =>
    if (wfsFind dst x).isNone ∧ (fsLookup K dst).isSome then .ok (.error .erofs, x)
    else wfsRename i dst x

def overlayChmod (path : Path) (perm : Nat) (x : Wfs K) : Except FsErrno Unit × Wfs K :=
  match wfsFind path x with
  | some i => (.ok (), setNode i (fun n => { n with perm := perm % 0o1000 }) x)
  | none => (if (overlayStat path x).isSome then .ok () else .error .enoent, x)

/-! ## Runs -/

inductive WfsOp (K : WfsConfig) where
  | file (op : FileOp K)
  | close (d : K.Ofd)
  -- A file of another kind is opened.
  | occupy (room : Bool)
  | mkdir (path : AbsPath) (perm : Nat)
  | remove (path : AbsPath) (dir : Bool)
  | symlink (target : Bytes) (path : AbsPath)
  | link (src dst : AbsPath)
  | rename (src dst : AbsPath)
  | chmod (path : AbsPath) (perm : Nat)

def WfsOp.run (op : WfsOp K) (x : Wfs K) : Except Fault (Wfs K) :=
  match op with
  | .file op => do
    let (_, x) ← op.run x
    .ok x
  | .close d => ofdClose d x
  | .occupy room => .ok (((fdOpen .other room x).map Prod.snd).getD x)
  | .mkdir path perm => .ok (overlayMkdir path.chars perm x).2
  | .remove path dir => do
    let (_, x) ← overlayRemove path.chars dir x
    .ok x
  | .symlink target path => do
    let (_, x) ← overlaySymlink target path.chars x
    .ok x
  | .link src dst => do
    let (_, x) ← overlayLink src.chars dst.chars x
    .ok x
  | .rename src dst => do
    let (_, x) ← overlayRename src.chars dst.chars x
    .ok x
  | .chmod path perm => .ok (overlayChmod path.chars perm x).2

/-- The states of the runs whose every operation is admitted by `ok`. -/
inductive WfsRuns (K : WfsConfig) (ok : Wfs K → WfsOp K → Prop) : Wfs K → Prop where
  | start (mem : Mem) : WfsRuns K ok (wfsBoot K mem)
  | step {x x' : Wfs K} (op : WfsOp K) : WfsRuns K ok x → ok x op → op.run x = .ok x' →
      WfsRuns K ok x'

theorem WfsRuns.invariant {ok : Wfs K → WfsOp K → Prop} (Inv : Wfs K → Prop)
    (hboot : ∀ mem, Inv (wfsBoot K mem))
    (hstep : ∀ x op x', Inv x → ok x op → op.run x = .ok x' → Inv x') {x : Wfs K}
    (h : WfsRuns K ok x) : Inv x := by
  induction h with
  | start mem => exact hboot mem
  | step op _ hok hrun ih => exact hstep _ op _ ih hok hrun

end Lxp
