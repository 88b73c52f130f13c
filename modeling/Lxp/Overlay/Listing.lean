import Lxp.Overlay.Dirent
import Lxp.Overlay.Names

/-!
# Directory listings

A directory of the local namespace lists the union of everything directly below its path: rootfs
entries, writable nodes, the host mount point, devices, terminals and the synthetic entries of
`/proc`.  A description resumes by the number of entries it has returned so far, which is an index
into the list as it is at the next call.
-/

open List

namespace Lxp

/-! ## Sources -/

inductive DirType where
  | reg
  | dir
  | chr
  | blk
  | lnk
  | fifo
  | sock
deriving DecidableEq

def FileType.dirType : FileType → DirType
  | .reg => .reg
  | .dir => .dir
  | .lnk => .lnk
  | .chr => .chr

structure DirEntry where
  ino : Nat
  name : Path
  type : DirType
deriving DecidableEq

/-- What there is besides the rootfs and the overlay. -/
structure DirSources where
  -- There may be no host file system.
  hostMount : Option Path
  -- The registered devices; one that is not present has no path.
  devices : List (Option (Path × DirType))
  -- Which terminals are in use.
  ptys : List Bool
  procFiles : List Path
  -- The processes of the last snapshot, and the caller.
  pents : List Nat
  self : Nat
  -- Inode numbers made from paths.
  hostInode : Path → Nat
  procInode : Path → Path → Nat

def inoRootfs : Nat := 0x000001
def inoTmpfs : Nat := 0x100000
def inoDev : Nat := 0x300000
def inoPty : Nat := 0x500000

variable {K : WfsConfig}

/-- A writable node of the same path shadows the rootfs entry, and so does the host mount. -/
def rootfsChildren (src : DirSources) (dir : Path) (x : Wfs K) : List DirEntry :=
  K.rootfs.zipIdx.filterMap fun (e, i) =>
    match pathChildName dir e.path with
    | none => none
    | some name =>
      if (wfsFind e.path x).isSome ∨ src.hostMount = some e.path then none
      else some ⟨inoRootfs + i, name, e.type.dirType⟩

def overlayChildren (src : DirSources) (dir : Path) (x : Wfs K) : List DirEntry :=
  (List.finRange K.nwnode).filterMap fun i =>
    if (x.nodes i).used = false ∨ src.hostMount = some (x.nodes i).path then none
    else
      (pathChildName dir (x.nodes i).path).map fun name =>
        ⟨inoTmpfs + i, name, (x.nodes i).type.dirType⟩

def mountChild (src : DirSources) (dir : Path) : List DirEntry :=
  match src.hostMount with
  | none => []
  | some path => ((pathChildName dir path).map fun name => ⟨src.hostInode path, name, .dir⟩).toList

def deviceChildren (src : DirSources) (dir : Path) : List DirEntry :=
  src.devices.zipIdx.filterMap fun (dev, i) =>
    match dev with
    | none => none
    | some (path, type) => (pathChildName dir path).map fun name => ⟨inoDev + i, name, type⟩

def decimal (n : Nat) : Path := Nat.toDigits 10 n

def ptyChildren (src : DirSources) (dir : Path) : List DirEntry :=
  if dir = "/dev/pts".toList then
    src.ptys.zipIdx.filterMap fun (used, n) =>
      if used then some ⟨inoPty + n, decimal n, .chr⟩ else none
  else []

/-! ## The synthetic entries -/

def procIs (abs : Path) : Bool := abs == "/proc".toList || decide ("/proc/".toList <+: abs)

/-- A pid is not read beyond six digits or so. -/
def pidDigits (digits : Path) : Nat :=
  digits.foldl (fun pid c => if pid < 1000000 then pid * 10 + (c.toNat - '0'.toNat) else pid) 0

/-- What follows the pid in a path. -/
def procRest (pid : Nat) : Path → Nat × Option Path
  | [] => (pid, none)
  | '/' :: file => (pid, some file)
  | _ => (0, none)

/-- The pid of `/proc/<pid|self>[/file]` with the file, or 0. -/
def procPid (abs : Path) (self : Nat) : Nat × Option Path :=
  if ¬ "/proc/".toList <+: abs then (0, none)
  else
    let s := abs.drop 6
    if "self".toList <+: s ∧ AtSlash (s.drop 4) then procRest self (s.drop 4)
    else if (s.head?.map Char.isDigit).getD false then
      procRest (pidDigits (s.takeWhile Char.isDigit)) (s.dropWhile Char.isDigit)
    else (0, none)

def procPidKnown (src : DirSources) (pid : Nat) : Bool :=
  pid == 1 || pid == src.self || src.pents.contains pid

def pidFiles : List Path := ["stat".toList, "cmdline".toList, "status".toList, "comm".toList]

def procEntry (src : DirSources) (dir : Path) (type : DirType) (name : Path) : DirEntry :=
  ⟨src.procInode dir name, name, type⟩

def procChildren (src : DirSources) (dir : Path) : List DirEntry :=
  if !procIs dir then []
  else if dir = "/proc".toList then
    src.procFiles.map (procEntry src dir .reg) ++ [procEntry src dir .lnk "self".toList] ++
      src.pents.map (fun pid => procEntry src dir .dir (decimal pid)) ++
      -- Before the first snapshot.
      (if 1 ∈ src.pents then [] else [procEntry src dir .dir (decimal 1)]) ++
      (if src.self ∈ src.pents ∨ src.self = 1 then []
        else [procEntry src dir .dir (decimal src.self)])
  else
    match procPid dir src.self with
    | (pid, none) =>
      if 0 < pid ∧ procPidKnown src pid then pidFiles.map (procEntry src dir .reg) else []
    | (_, some _) => []

/-- Everything a directory lists, in the order in which it is listed. -/
def dirEntries (src : DirSources) (dir : Path) (x : Wfs K) : List DirEntry :=
  rootfsChildren src dir x ++ overlayChildren src dir x ++ mountChild src dir ++
    deviceChildren src dir ++ ptyChildren src dir ++ procChildren src dir

/-! ## Records -/

structure Dirent where
  ino : Nat
  off : Nat
  reclen : Nat
  type : DirType
  name : Path
deriving DecidableEq

/-- A guest buffer: a check of the whole covers the checks of its parts. -/
structure GuestBuf where
  addr : Nat
  cap : Nat
  access : Nat → Nat → Bool
  sub : access addr cap = true → ∀ a n, addr ≤ a → a + n ≤ addr + cap → access a n = true

/-- The 32-bit layout has four bytes for the inode and the cookie. -/
def direntField (is64 : Bool) (n : Nat) : Nat := n % if is64 then 2 ^ 64 else 2 ^ 32

abbrev DirSink := DirentSink Dirent

def DirEntry.record (e : DirEntry) (is64 : Bool) (off : Nat) (_ reclen : Nat) : Dirent :=
  ⟨direntField is64 e.ino, direntField is64 off, reclen, e.type, e.name⟩

/-! ## The walk -/

/-- Entries before `offset` were returned by an earlier call; the rest go to the sink until it is
full.  The answer is whether it is, and the new offset. -/
def dirWalk (pathMax : Nat) (access : Nat → Nat → Bool) :
    List DirEntry → Nat → Nat → DirSink → Bool × Nat × DirSink
  | [], _, offset, sink => (false, offset, sink)
  | e :: es, pos, offset, sink =>
    if pos < offset then dirWalk pathMax access es (pos + 1) offset sink
    else
      match direntPut pathMax access e.name.length (e.record sink.is64 (pos + 1)) sink with
      | (true, sink) => dirWalk pathMax access es (pos + 1) (offset + 1) sink
      | (false, sink) => (true, offset, sink)

structure DirReply where
  result : Except FsErrno Nat
  offset : Nat
  records : List Dirent

def dirList (pathMax : Nat) (buf : GuestBuf) (is64 : Bool) (es : List DirEntry) (offset : Nat) :
    DirReply :=
  match dirWalk pathMax buf.access es 0 offset
    { ubuf := buf.addr, cap := buf.cap, is64 := is64 } with
  | (full, offset, sink) =>
    if sink.error then ⟨.error .efault, offset, sink.records⟩
    -- The buffer is too small for even one entry.
    else if full ∧ sink.filled = 0 then ⟨.error .einval, offset, sink.records⟩
    else ⟨.ok sink.filled, offset, sink.records⟩

structure DirState (K : WfsConfig) where
  wfs : Wfs K
  src : DirSources

/-- An open description whose kind lists this way. -/
inductive DirHandle (K : WfsConfig) where
  | rootfs (e : RootEntry)
  | tmpfs (i : K.Node)
  | proc (path : Path) (isDir : Bool)

def DirHandle.path (h : DirHandle K) (x : Wfs K) : Option Path :=
  match h with
  | .rootfs e => if e.type = .dir then some e.path else none
  | .tmpfs i => if (x.nodes i).type = .dir then some (x.nodes i).path else none
  | .proc path isDir => if isDir then some path else none

def sysGetdents (h : DirHandle K) (offset : Nat) (buf : GuestBuf) (is64 : Bool) (x : DirState K) :
    DirReply :=
  if !buf.access buf.addr buf.cap then ⟨.error .efault, offset, []⟩
  else
    match h.path x.wfs with
    | none => ⟨.error .enotdir, offset, []⟩
    | some dir =>
      dirList K.pathMax buf is64 (dirEntries x.src dir x.wfs) offset

/-- The names a call hands over; a call that fails hands over nothing. -/
def DirReply.names (r : DirReply) : List Path :=
  match r.result with
  | .ok _ => r.records.map Dirent.name
  | .error _ => []

def dirNames (h : DirHandle K) (x : DirState K) : List Path :=
  match h.path x.wfs with
  | none => []
  | some dir => (dirEntries x.src dir x.wfs).map DirEntry.name

/-! ## What one call returns -/

section Walk

variable {buf : GuestBuf} {sink : DirSink}

/-- The sink is over the buffer, and nothing failed. -/
structure SinkReady (buf : GuestBuf) (sink : DirSink) : Prop where
  ubuf : sink.ubuf = buf.addr
  cap : sink.cap = buf.cap
  error : sink.error = false

variable (haccess : buf.access buf.addr buf.cap = true)
include haccess

theorem DirEntry.put_cases (hs : SinkReady buf sink) (pathMax : Nat) (e : DirEntry) (off : Nat) :
    direntPut pathMax buf.access e.name.length (e.record sink.is64 off) sink = (false, sink) ∨
    ∃ sink', direntPut pathMax buf.access e.name.length (e.record sink.is64 off) sink =
        (true, sink') ∧ SinkReady buf sink' ∧ sink.filled < sink'.filled ∧
      sink'.records.map Dirent.name = sink.records.map Dirent.name ++ [e.name] := by
  have hpos := direntReclen_pos sink.is64 e.name.length
  rcases direntPut_cases pathMax buf.access e.name.length (e.record sink.is64 off) sink with
    heq | ⟨hroom, ⟨hno, -⟩ | heq⟩
  · exact .inl heq
  · rw [hs.cap] at hroom
    rw [hs.ubuf, buf.sub haccess _ _ (by omega) (by omega)] at hno
    cases hno
  · rw [hs.cap] at hroom
    exact .inr ⟨_, heq, { hs with }, Nat.lt_add_of_pos_right hpos, by
      simp [DirentSink.add, DirEntry.record]⟩

omit haccess in
theorem dirWalk_skip (access : Nat → Nat → Bool) (pathMax pos n : Nat) (es : List DirEntry)
    (sink : DirSink) : dirWalk pathMax access es pos (pos + n) sink =
      dirWalk pathMax access (es.drop n) (pos + n) (pos + n) sink := by
  induction n generalizing pos es with
  | zero => rfl
  | succ n ih =>
    cases es with
    | nil => rfl
    | cons e es =>
      have hnext : pos + (n + 1) = pos + 1 + n := by omega
      rw [dirWalk, if_pos (by omega), hnext, ih]
      rfl

/-- The first `k` of the entries went to the sink. -/
structure Walked (es : List DirEntry) (offset : Nat) (sink : DirSink) (r : Bool × Nat × DirSink)
    (k : Nat) : Prop where
  le : k ≤ es.length
  offset : r.2.1 = offset + k
  names : r.2.2.records.map Dirent.name =
    sink.records.map Dirent.name ++ (es.take k).map DirEntry.name
  full : r.1 = false → k = es.length
  filled : sink.filled + k ≤ r.2.2.filled
  error : r.2.2.error = false

theorem dirWalk_emit (pathMax : Nat) (hs : SinkReady buf sink) (es : List DirEntry) (offset : Nat) :
    ∃ k, Walked es offset sink (dirWalk pathMax buf.access es offset offset sink) k := by
  induction es generalizing offset sink with
  | nil => exact ⟨0, Nat.le_refl _, rfl, by simp [dirWalk], fun _ => rfl, Nat.le_refl _, hs.error⟩
  | cons e es ih =>
    rw [dirWalk, if_neg (Nat.lt_irrefl _)]
    rcases DirEntry.put_cases haccess hs pathMax e (offset + 1) with
      hput | ⟨sink', hput, hs', hfill, hnames⟩
    · rw [hput]
      exact ⟨0, Nat.zero_le _, rfl, by simp, nofun, Nat.le_refl _, hs.error⟩
    rw [hput]
    dsimp only
    obtain ⟨k, hk⟩ := ih hs' (offset + 1)
    have hfilled := hk.filled
    refine ⟨k + 1, Nat.succ_le_succ hk.le, ?_, ?_, fun hfull => ?_, by omega, hk.error⟩
    · rw [hk.offset]
      omega
    · rw [hk.names, hnames, append_assoc]
      rfl
    · rw [hk.full hfull]
      rfl

theorem dirList_spec (pathMax : Nat) (is64 : Bool) (es : List DirEntry) (offset : Nat) : ∃ k,
    (dirList pathMax buf is64 es offset).offset = offset + k ∧
    (dirList pathMax buf is64 es offset).names = ((es.drop offset).take k).map DirEntry.name ∧
    ((dirList pathMax buf is64 es offset).result = .ok 0 → es.drop offset = []) := by
  have hs : SinkReady buf { ubuf := buf.addr, cap := buf.cap, is64 := is64 } :=
    ⟨rfl, rfl, rfl⟩
  obtain ⟨k, hk⟩ := dirWalk_emit haccess pathMax hs (es.drop offset) offset
  have hwalk := dirWalk_skip buf.access pathMax 0 offset es
    { ubuf := buf.addr, cap := buf.cap, is64 := is64 }
  rw [Nat.zero_add] at hwalk
  rw [← hwalk] at hk
  refine ⟨k, ?_⟩
  unfold dirList
  generalize dirWalk pathMax buf.access es 0 offset _ = r at hk ⊢
  obtain ⟨full, offset', sink'⟩ := r
  have herror : sink'.error = false := hk.error
  have hfilled : 0 + k ≤ sink'.filled := hk.filled
  have hnames : sink'.records.map Dirent.name = ((es.drop offset).take k).map DirEntry.name :=
    hk.names
  simp only [herror, Bool.false_eq_true, if_false]
  split
  · -- Nothing fitted, so nothing was returned.
    obtain rfl : k = 0 := by omega
    exact ⟨hk.offset, rfl, nofun⟩
  rename_i hsome
  refine ⟨hk.offset, hnames, fun hzero => ?_⟩
  injection hzero with hzero
  have hfull : full = false := by simpa [hzero] using hsome
  have hlength := hk.full hfull
  exact eq_nil_of_length_eq_zero (by omega)

end Walk

section Call

variable {h : DirHandle K} {x : DirState K}

/-- A call returns the names from the offset on, as far as they fit, and answers 0 only when there
are none left. -/
theorem sysGetdents_spec (h : DirHandle K) (offset : Nat) (buf : GuestBuf) (is64 : Bool)
    (x : DirState K) : ∃ k,
    (sysGetdents h offset buf is64 x).offset = offset + k ∧
    (sysGetdents h offset buf is64 x).names = ((dirNames h x).drop offset).take k ∧
    ((sysGetdents h offset buf is64 x).result = .ok 0 → (dirNames h x).drop offset = []) := by
  unfold sysGetdents
  split
  · exact ⟨0, rfl, rfl, nofun⟩
  rename_i haccess
  unfold dirNames
  cases hpath : h.path x.wfs with
  | none => exact ⟨0, rfl, rfl, nofun⟩
  | some dir =>
    have hok : buf.access buf.addr buf.cap = true := by simpa using haccess
    obtain ⟨k, hoffset, hnames, hend⟩ :=
      dirList_spec hok K.pathMax is64 (dirEntries x.src dir x.wfs) offset
    refine ⟨k, hoffset, ?_, fun hzero => ?_⟩
    · rw [hnames, map_take, map_drop]
    · rw [← map_drop, hend hzero, map_nil]

end Call

/-! ## Whole listings -/

inductive DirChange (K : WfsConfig) where
  | wfs (op : WfsOp K)
  | sources (src : DirSources)

def DirChange.run (c : DirChange K) (x : DirState K) : Except Fault (DirState K) :=
  match c with
  | .wfs op => do
    let wfs ← op.run x.wfs
    .ok { x with wfs := wfs }
  | .sources src => .ok { x with src := src }

/-- A listing from its first call on, with the state of the last call, the state now, the offset and
the names returned so far.  What changes between two calls is admitted by `ok`, and `name` is there
all the time. -/
inductive DirScan (h : DirHandle K) (ok : DirState K → Nat → DirState K → Prop) (name : Path) :
    DirState K → DirState K → Nat → List Path → Prop
  | start (x : DirState K) (hname : name ∈ dirNames h x) : DirScan h ok name x x 0 []
  | change {last x x' : DirState K} {offset : Nat} {returned : List Path} (c : DirChange K) :
      DirScan h ok name last x offset returned → c.run x = .ok x' → name ∈ dirNames h x' →
      DirScan h ok name last x' offset returned
  | call {last x : DirState K} {offset : Nat} {returned : List Path} (buf : GuestBuf)
      (is64 : Bool) :
      DirScan h ok name last x offset returned → ok last offset x →
      DirScan h ok name x x (sysGetdents h offset buf is64 x).offset
        (returned ++ (sysGetdents h offset buf is64 x).names)

/-- Since the last call the names before the offset are as they were. -/
def KeepsReturned (h : DirHandle K) (last : DirState K) (offset : Nat) (x : DirState K) : Prop :=
  (dirNames h x).take offset = (dirNames h last).take offset

section DirScan

variable {h : DirHandle K} {name : Path} {last x : DirState K} {offset : Nat} {returned : List Path}

theorem DirScan.name_mem {ok : DirState K → Nat → DirState K → Prop}
    (hscan : DirScan h ok name last x offset returned) : name ∈ dirNames h x := by
  induction hscan with
  | start x hname | change c _ _ hname _ => exact hname
  | call buf is64 _ _ ih => exact ih

theorem DirScan.returned_eq (hscan : DirScan h (KeepsReturned h) name last x offset returned) :
    returned = (dirNames h last).take offset := by
  induction hscan with
  | start x hname => rfl
  | change c _ _ _ ih => exact ih
  | @call last x offset returned buf is64 _ hkeeps ih =>
    obtain ⟨k, hoffset, hnames, -⟩ := sysGetdents_spec h offset buf is64 x
    rw [hoffset, hnames, ih, ← hkeeps]
    exact (take_add ..).symm

/-- Where the names already returned are as they were at each next call and no name is listed twice
at the end, a name that is there all the time is returned exactly once. -/
theorem scan_once (hscan : DirScan h (KeepsReturned h) name last x offset returned)
    (hkeeps : KeepsReturned h last offset x) (hdistinct : (dirNames h x).Nodup) (buf : GuestBuf)
    (is64 : Bool) (hend : (sysGetdents h offset buf is64 x).result = .ok 0) :
    returned.count name = 1 := by
  have heq := hscan.returned_eq
  obtain ⟨k, -, -, hempty⟩ := sysGetdents_spec h offset buf is64 x
  have hlength := congrArg List.length (hempty hend)
  rw [length_drop, length_nil] at hlength
  rw [heq, ← hkeeps, take_of_length_le (by omega)]
  exact count_eq_one_of_mem hdistinct hscan.name_mem

end DirScan

/-- The root of the small configuration, and buffers with room for one name and for many. -/
def rootDir : DirHandle smallWfs := .rootfs ⟨['/'], .dir, 0o755, []⟩

def noSources : DirSources where
  hostMount := none
  devices := []
  ptys := []
  procFiles := []
  pents := []
  self := 1
  hostInode _ := 0
  procInode _ _ := 0

def openBuf (cap : Nat) : GuestBuf := ⟨0, cap, fun _ _ => true, fun _ _ _ _ _ => rfl⟩

def dirC : AbsPath := ⟨[['c']], by decide⟩

/-- Between the calls `a` is removed and made again, and `c` is new. -/
theorem scan_once_two_calls : ∃ (x : DirState smallWfs) (offset : Nat) (returned : List Path),
    DirScan rootDir (KeepsReturned rootDir) ['b'] x x offset returned ∧
      returned = [['a'], ['b'], ['c']] ∧ returned.count ['b'] = 1 := by
  obtain ⟨x, hx⟩ : ∃ x, runOps [.mkdir dirA 0o755, .mkdir dirB 0o755] = .ok x := ⟨_, rfl⟩
  obtain ⟨x1, hx1⟩ : ∃ x1, (DirChange.wfs (.remove dirA true)).run ⟨x, noSources⟩ = .ok x1 := by
    cases hx
    exact ⟨_, rfl⟩
  obtain ⟨x2, hx2⟩ : ∃ x2, (DirChange.wfs (.mkdir dirA 0o755)).run x1 = .ok x2 := by
    cases hx
    cases hx1
    exact ⟨_, rfl⟩
  obtain ⟨x3, hx3⟩ : ∃ x3, (DirChange.wfs (.mkdir dirC 0o755)).run x2 = .ok x3 := by
    cases hx
    cases hx1
    cases hx2
    exact ⟨_, rfl⟩
  have hnames : dirNames rootDir ⟨x, noSources⟩ = [['a'], ['b']] ∧ dirNames rootDir x1 = [['b']] ∧
      dirNames rootDir x2 = [['a'], ['b']] ∧ dirNames rootDir x3 = [['a'], ['b'], ['c']] ∧
      (sysGetdents rootDir 0 (openBuf 24) true ⟨x, noSources⟩).offset = 1 := by
    cases hx
    cases hx1
    cases hx2
    cases hx3
    decide +kernel
  obtain ⟨h0, h1, h2, h3, hoffset⟩ := hnames
  have hkeeps : KeepsReturned rootDir ⟨x, noSources⟩
      (sysGetdents rootDir 0 (openBuf 24) true ⟨x, noSources⟩).offset x3 := by
    rw [KeepsReturned, h0, h3, hoffset]
    rfl
  have hscan : DirScan rootDir (KeepsReturned rootDir) ['b'] x3 x3 _ _ :=
    ((((((DirScan.start ⟨x, noSources⟩ (by simp [h0])).call (openBuf 24) true rfl).change _ hx1
      (by simp [h1])).change _ hx2 (by simp [h2])).change _ hx3 (by simp [h3])).call
        (openBuf 24) true hkeeps).call (openBuf 24) true rfl
  refine ⟨x3, _, _, hscan, ?_, scan_once hscan rfl (by rw [h3]; decide) (openBuf 24) true ?_⟩
  all_goals
    cases hx
    cases hx1
    cases hx2
    cases hx3
  · decide +kernel
  · rfl

/-- A name is returned, then removed: the next call resumes behind the name that took its place, and
`b` is never returned.  And a device with the name of a node is a name returned twice. -/
theorem scan_skips_and_repeats :
    (∃ (x x' : DirState smallWfs) (offset : Nat) (returned : List Path),
      WfsRuns smallWfs (fun _ _ => True) x.wfs ∧
      (DirChange.wfs (.remove dirA true)).run x = .ok x' ∧
      DirScan rootDir (fun _ _ _ => True) ['b'] x' x' offset returned ∧
      (sysGetdents rootDir offset (openBuf 24) true x').result = .ok 0 ∧
      returned.count ['b'] = 0) ∧
    ∃ (x : DirState smallWfs) (offset : Nat) (returned : List Path),
      WfsRuns smallWfs (fun _ _ => True) x.wfs ∧
      DirScan rootDir (fun _ _ _ => True) ['a'] x x offset returned ∧
      (sysGetdents rootDir offset (openBuf 24) true x).result = .ok 0 ∧
      returned.count ['a'] = 2 := by
  constructor
  · obtain ⟨x, hx⟩ :
      ∃ x, runOps [.mkdir dirA 0o755, .mkdir dirB 0o755, .mkdir dirC 0o755] = .ok x :=
      ⟨_, rfl⟩
    obtain ⟨x', hx'⟩ : ∃ x', (DirChange.wfs (.remove dirA true)).run ⟨x, noSources⟩ = .ok x' := by
      cases hx
      exact ⟨_, rfl⟩
    have hbefore : ['b'] ∈ dirNames rootDir ⟨x, noSources⟩ := by
      cases hx
      decide +kernel
    have hafter : ['b'] ∈ dirNames rootDir x' := by
      cases hx
      cases hx'
      decide +kernel
    have hscan : DirScan rootDir (fun _ _ _ => True) ['b'] x' x' _ _ :=
      (((DirScan.start _ hbefore).call (openBuf 24) true trivial).change _ hx' hafter).call
        (openBuf 24) true trivial
    refine ⟨⟨x, noSources⟩, x', _, _, runOps_runs _ hx, hx', hscan, ?_, ?_⟩
    · cases hx
      cases hx'
      rfl
    · cases hx
      cases hx'
      decide +kernel
  · obtain ⟨x, hx⟩ : ∃ x, runOps [.mkdir dirA 0o755] = .ok x := ⟨_, rfl⟩
    have hname : ['a'] ∈ dirNames rootDir
        ⟨x, { noSources with devices := [some (dirA.chars, .chr)] }⟩ := by
      cases hx
      decide +kernel
    have hscan : DirScan rootDir (fun _ _ _ => True) ['a'] _ _ _ _ :=
      (DirScan.start _ hname).call (openBuf 64) true trivial
    refine ⟨_, _, _, runOps_runs _ hx, hscan, ?_, ?_⟩
    · cases hx
      rfl
    · cases hx
      decide +kernel

end Lxp
