import Lxp.Run.Exec

/-!
# The execve system call

`sys_execve` finds and checks the program, prepares the caller's descriptor table and leaves an exec
intent for the coordinator.  What it reads outside the process record (the argument vectors, the
path, the mounts) is an input here.
-/

open Function

namespace Lxp

variable {C : Config}

/-! ## Interpreter scripts -/

def scriptTokenCapacity : Nat := 64

structure ScriptSpec where
  interpreter : Bytes
  argument : Option Bytes
deriving DecidableEq

def isBlank (b : UInt8) : Bool := b == 32 || b == 9

def isTokenByte (b : UInt8) : Bool := !isBlank b && b != 10

/-- The string a NUL-terminated buffer holds. -/
def cString (bytes : Bytes) : Bytes := bytes.takeWhile (· != 0)

/-- The token at the front and the bytes after it. -/
def copyToken (bytes : Bytes) : Except Errno (Bytes × Bytes) :=
  let token := bytes.takeWhile isTokenByte
  if token = [] ∨ scriptTokenCapacity ≤ token.length then .error .enoexec
  else .ok (cString token, bytes.dropWhile isTokenByte)

def scriptParse : Bytes → Except Errno (Option ScriptSpec)
  | 35 :: 33 :: line => do
    let (interpreter, rest) ← copyToken (line.dropWhile isBlank)
    match rest.dropWhile isBlank with
    | [] | 10 :: _ => return some ⟨interpreter, none⟩
    | rest =>
      let (argument, _) ← copyToken rest
      return some ⟨interpreter, some argument⟩
  | _ => .ok none

def FileImage.bytes (image : FileImage) : Bytes :=
  (List.range image.size).map fun i => image.mem (image.addr + i)

def vecBytes (vec : List Bytes) : Nat := (vec.map fun str => str.length + 1).sum

def execRewriteScriptArgv (C : Config) (argv : List Bytes) (script : ScriptSpec)
    (path : Bytes) : Except Errno (List Bytes) :=
  let rewritten := script.interpreter :: script.argument.toList ++ path :: argv.tail
  if C.execMaxArgs < rewritten.length ∨ C.execArgBuf < vecBytes rewritten then .error .e2big
  else .ok rewritten

/-! ## Finding the program -/

/-- What the mount that holds the path answers. -/
inductive ExecFound where
  | fetching
  | rootfs (idx : Nat)
  | file (image : FileImage)

structure ExecRequest where
  pathNull : Bool := false
  argv : Except Errno (List Bytes) := .ok []
  envp : Except Errno (List Bytes) := .ok []
  -- The path made absolute and followed through the mounts.
  path : Except Errno Bytes
  found : Except Errno ExecFound
  -- The rootfs entry an interpreter path leads to.
  interpreter : Bytes → Option Nat := fun _ => none
  -- Whether the mount has a request left for a fetch.
  fetchQueued : Bool := true

def nullImage : FileImage := ⟨fun _ => 0, 0, 0⟩

def rootfsImage (C : Config) (idx : Nat) : FileImage := C.rootfs.getD idx nullImage

def procSelfExe : Bytes :=
  [47, 112, 114, 111, 99, 47, 115, 101, 108, 102, 47, 101, 120, 101]

/-- An image and its rootfs index, which is negative for a file that is no rootfs entry; `none`
while the mount fetches it. -/
def execLookup (q : ExecRequest) (path : Bytes) (s : C.Slot) (o : Own C) :
    Except Errno (Option (FileImage × Int)) :=
  if path = procSelfExe then
    let idx := o.execFileIdx s
    if idx < 0 ∨ C.rootfs.length ≤ idx then .error .enoent
    else .ok (some (rootfsImage C idx.toNat, idx))
  else
    match q.found with
    | .error e => .error e
    | .ok .fetching => .ok none
    | .ok (.rootfs idx) => .ok (some (rootfsImage C idx, idx))
    | .ok (.file image) => .ok (some (image, -1))

/-- A script is replaced by its interpreter, which is looked up in the rootfs only. -/
def execInterpreter (C : Config) (q : ExecRequest) (argv : List Bytes) (path : Bytes)
    (image : FileImage) (idx : Int) : Except Errno (FileImage × Int) := do
  match ← scriptParse image.bytes with
  | none => return (image, idx)
  | some script =>
    match q.interpreter script.interpreter with
    | none => .error .enoent
    | some interp =>
      let _ ← execRewriteScriptArgv C argv script path
      return (rootfsImage C interp, interp)

/-- Every check in front of the staging copy. -/
def execTarget (s : C.Slot) (q : ExecRequest) (o : Own C) :
    Except Errno (Option (FileImage × Int)) := do
  if q.pathNull then .error .efault
  else
    let argv ← q.argv
    let _ ← q.envp
    let path ← q.path
    match ← execLookup q path s o with
    | none => return none
    | some (image, idx) =>
      let (image, idx) ← execInterpreter C q argv path image idx
      if loaderAbiIncompatible C.fpuContext image.mem image.addr image.size then .error .enoexec
      else return some (image, idx)

/-! ## The staging buffer -/

def waitsForStage (s : C.Slot) (rt : Runtime C) : Bool :=
  rt.own.alive s &&
    ((rt.sched.ctl s).intent == .exec && rt.own.execFileIdx s == execStaged ||
      (rt.sched.ctl s).wait == .netfs true)

def execStageClaim (s : C.Slot) (rt : Runtime C) : Option Errno × Runtime C :=
  if C.stageCap = 0 then (some .enomem, rt)
  else if rt.stage.owner.any fun owner => owner != s && waitsForStage owner rt then
    (some .eagain, rt)
  else (none, { rt with stage := ⟨some s, { rt.stage.image with size := 0 }⟩ })

/-- The image's bytes at the address of the staging buffer. -/
def stagedCopy (C : Config) (image : FileImage) : FileImage :=
  ⟨fun a => image.mem (image.addr + (a - C.stageBase)), C.stageBase, image.size⟩

def execStagePublish (s : C.Slot) (image : FileImage) (rt : Runtime C) : Runtime C :=
  if rt.stage.owner = some s then { rt with stage.image := stagedCopy C image } else rt

def execStageCopy (s : C.Slot) (image : FileImage) (rt : Runtime C) : Option Errno × Runtime C :=
  match loaderValidateFdpic C.fpuContext image.mem image.addr image.size C.regionSize true with
  | .error _ => (some .enoexec, rt)
  | .ok () =>
    match execStageClaim s rt with
    | (some e, rt) => (some e, rt)
    | (none, rt) =>
      if C.stageCap < image.size then (some .enomem, rt)
      else (none, execStagePublish s image rt)

/-! ## Fetching from a remote mount -/

def netfsExecFetch (s : C.Slot) (queued : Bool) (rt : Runtime C) : Option Errno × Runtime C :=
  match execStageClaim s rt with
  | (some e, rt) => (some e, rt)
  | (none, rt) =>
    if queued then
      match waitBegin s (.netfs true) rt with
      | none => (some .emfile, rt)
      | some rt => (none, rt)
    else (some .emfile, rt)

/-- The retry that takes a finished fetch: an error of the transfer, or the image it staged. -/
def netfsExecRetry (s : C.Slot) (fetched : Except Errno FileImage) (rt : Runtime C) :
    Option Errno × Runtime C :=
  match fetched with
  | .error e => (some e, rt)
  | .ok image =>
    let staged := stagedCopy C image
    match loaderValidateFdpic C.fpuContext staged.mem staged.addr staged.size C.regionSize true with
    | .error _ => (some .enoexec, rt)
    | .ok () =>
      let rt := execStagePublish s image (waitFinish s rt)
      match intentBegin s .exec rt with
      | none => (some .eagain, rt)
      | some rt => (none, { rt with own.execFileIdx := update rt.own.execFileIdx s execStaged })

/-! ## The call -/

/-- Past every check: the caller gets a descriptor table of its own without the close-on-exec
entries, and its record names the new program. -/
def execPrepareCaller (s : C.Slot) (idx : Int) (rt : Runtime C) : Option Errno × Runtime C :=
  match procFilesUnshare s rt.own with
  | (some _, o) => (some .enomem, { rt with own := o })
  | (none, o) =>
    let o := closeOnExec s o
    let rt := { rt with own := { o with execFileIdx := update o.execFileIdx s idx } }
    match intentBegin s .exec rt with
    | none => (some .eagain, rt)
    | some rt => (none, rt)

/-- An error, or the caller parked: with an exec intent, or on a fetch that the retry finishes. -/
def sysExecve (s : C.Slot) (q : ExecRequest) (rt : Runtime C) : Option Errno × Runtime C :=
  match execTarget s q rt.own with
  | .error e => (some e, rt)
  | .ok none => netfsExecFetch s q.fetchQueued rt
  | .ok (some (image, idx)) =>
    if idx < 0 then
      match execStageCopy s image rt with
      | (some e, rt) => (some e, rt)
      | (none, rt) => execPrepareCaller s execStaged rt
    else execPrepareCaller s idx rt

end Lxp
