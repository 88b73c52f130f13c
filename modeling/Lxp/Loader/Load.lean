import Lxp.Loader.Layout

/-!
# The FDPIC loader

The load of one image, phase by phase as the source runs it: reserve and clear the region, place
the segments and write the loadmap, walk the dynamic table of the loaded copy, and relocate.  The
memory logs each store.  The relocation cursors are 32-bit registers that need not leave the table,
so the two loops over it run on fuel and report when the fuel ran out.
-/

open ByteMemory

namespace Lxp

def elfRArmAbs32 : Nat := 2
def elfRArmRelative : Nat := 23
def elfRArmFuncdesc : Nat := 163
def elfRArmFuncdescValue : Nat := 164

/-- The arguments of a load.  Image and region are two C objects of the 32-bit target: each lies in
the address space with the address past its end, and they share no byte. -/
structure LoadArgs where
  image : Nat
  imageSize : Nat
  region : Nat
  regionSize : Nat
  isInterp : Bool
  copyText : Bool
  image_end : image + imageSize < 4294967296
  region_end : region + regionSize < 4294967296
  disjoint : image + imageSize ≤ region ∨ region + regionSize ≤ image

/-- An entry of the loadmap: {u32 addr, u32 p_vaddr, u32 p_memsz}. -/
structure LoadSeg where
  addr : Nat
  vaddr : Nat
  memsz : Nat
deriving DecidableEq

def loadmapEntry (lm i : Nat) : Nat := lm + 4 + i * 12

def readLoadSeg (f : Nat → UInt8) (e : Nat) : LoadSeg where
  addr := le32 f e
  vaddr := le32 f (e + 4)
  memsz := le32 f (e + 8)

def loadmap (f : Nat → UInt8) (lm nseg : Nat) : List LoadSeg :=
  (List.range nseg).map fun i => readLoadSeg f (loadmapEntry lm i)

def fdpicRt (f : Nat → UInt8) (lm nseg vaddr : Nat) : Nat :=
  ((loadmap f lm nseg).findSome? fun s =>
    if s.vaddr ≤ vaddr ∧ vaddr < u32 (s.vaddr + s.memsz) then
      some (u32 (s.addr + (vaddr - s.vaddr)))
    else none).getD 0

/-- As `fdpicRt`, for a whole range; the sums are 64-bit here. -/
def fdpicRtN (f : Nat → UInt8) (lm nseg vaddr need : Nat) : Nat :=
  if vaddr > uint32Max then 0
  else ((loadmap f lm nseg).findSome? fun s =>
    if s.vaddr ≤ vaddr ∧ vaddr + need ≤ s.vaddr + s.memsz then
      some (u32 (s.addr + (vaddr - s.vaddr)))
    else none).getD 0

namespace LoadArgs

/-- Where the RW block starts, and where the loadmap sits past it. -/
def base (a : LoadArgs) (l : FdpicLayout) : Nat := a.region + l.textReserved

def lm (a : LoadArgs) (l : FdpicLayout) : Nat := a.base l + l.rwAligned

end LoadArgs

/-- The region before the segments are placed: cleared, with the loadmap header written. -/
def prepareRegion (a : LoadArgs) (l : FdpicLayout) (m : Mem) : Mem :=
  let m := if a.copyText then m.zero a.region l.textReserved else m
  let m := if l.rwSpan ≠ 0 then m.zero (a.base l) l.rwSpan else m
  (m.store (a.lm l) 2 0).store (a.lm l + 2) 2 l.nload

structure SegState where
  mem : Mem
  si : Nat := 0
  dataV : Nat := 0
  dataFsz : Nat := 0
  dataMsz : Nat := 0

def segAddr (a : LoadArgs) (l : FdpicLayout) (p : Phdr) : Nat :=
  if p.isExec then (if a.copyText then a.region else a.image + p.off)
  else a.base l + u32 (p.vaddr + 4294967296 - l.rwLo)

/-- Text that runs in place is the one kind of segment that is not copied. -/
def copySegment (a : LoadArgs) (l : FdpicLayout) (p : Phdr) (m : Mem) : Mem :=
  if p.isExec ∧ a.copyText = false then m
  else m.copy (segAddr a l p) (a.image + p.off) p.filesz

def writeLoadmapEntry (m : Mem) (e addr vaddr memsz : Nat) : Mem :=
  ((m.store e 4 addr).store (e + 4) 4 vaddr).store (e + 8) 4 memsz

def placeLoad (a : LoadArgs) (l : FdpicLayout) (s : SegState) (p : Phdr) : SegState :=
  let m := copySegment a l p s.mem
  let m := writeLoadmapEntry m (loadmapEntry (a.lm l) s.si) (segAddr a l p) p.vaddr p.memsz
  if p.isExec then { s with mem := m, si := s.si + 1 }
  else { mem := m, si := s.si + 1, dataV := p.vaddr, dataFsz := p.filesz, dataMsz := p.memsz }

def placeSegment (a : LoadArgs) (l : FdpicLayout) (s : SegState) (p : Phdr) : SegState :=
  if p.isLoad then placeLoad a l s p else s

/-- Pass 2 reads each header from the image again, so it sees its own earlier stores. -/
def placeSegments (a : LoadArgs) (l : FdpicLayout) (m : Mem) : SegState :=
  (List.range l.phnum).foldl
    (fun s i => placeSegment a l s (readPhdr s.mem.bytes (a.image + l.phoff + i * l.phentsize)))
    { mem := m }

structure DynInfo where
  relV : Nat := 0
  relSz : Nat := 0
  relEnt : Nat := 8
  pltgotV : Nat := 0
  symV : Nat := 0
  isDynamic : Bool := false
deriving DecidableEq

def DynInfo.add (d : DynInfo) (e : Nat × Nat) : DynInfo :=
  if e.1 = elfDtNeeded then { d with isDynamic := true }
  else if e.1 = elfDtRel then { d with relV := e.2 }
  else if e.1 = elfDtRelsz then { d with relSz := e.2 }
  else if e.1 = elfDtRelent then { d with relEnt := e.2 }
  else if e.1 = elfDtPltgot then { d with pltgotV := e.2 }
  else if e.1 = elfDtSymtab then { d with symV := e.2 }
  else d

def dynInfo (entries : List (Nat × Nat)) : DynInfo := entries.foldl DynInfo.add {}

/-- The dynamic table is read from the loaded copy, through the loadmap. -/
def loadedDynInfo (a : LoadArgs) (l : FdpicLayout) (f : Nat → UInt8) : DynInfo :=
  if l.dynVaddr = 0 then {}
  else
    let dp := fdpicRtN f (a.lm l) l.nload l.dynVaddr l.dynSize
    if dp = 0 then {} else dynInfo (dynEntries f dp l.dynSize)

/-- What the relocation loop reads and never changes. -/
structure RelocEnv where
  lm : Nat
  nload : Nat
  relSz : Nat
  relEnt : Nat
  rel0 : Nat
  symV : Nat
  gotBase : Nat
  fdpool : Nat

structure RelocState where
  mem : Mem
  poolUsed : Nat := 0

namespace RelocEnv

def rOffset (e : RelocEnv) (f : Nat → UInt8) (o : Nat) : Nat := le32 f (e.rel0 + o)
def rType (e : RelocEnv) (f : Nat → UInt8) (o : Nat) : Nat := le32 f (e.rel0 + o + 4) % 256
def rSym (e : RelocEnv) (f : Nat → UInt8) (o : Nat) : Nat := le32 f (e.rel0 + o + 4) / 256

def more (e : RelocEnv) (o : Nat) : Bool := u32 (o + e.relEnt) ≤ e.relSz

def next (e : RelocEnv) (o : Nat) : Nat := u32 (o + e.relEnt)

def sym (e : RelocEnv) (f : Nat → UInt8) (rSym : Nat) : Nat :=
  fdpicRtN f e.lm e.nload (e.symV + rSym * 16) 16

def symDefined (e : RelocEnv) (f : Nat → UInt8) (rSym : Nat) : Bool :=
  e.symV != 0 && e.sym f rSym != 0 && le16 f (e.sym f rSym + 14) != 0

/-- The slot a FUNCDESC_VALUE of the symbol relocates, 0 if there is none; `none` without fuel. -/
def findFuncdescValue (e : RelocEnv) (f : Nat → UInt8) (rSym : Nat) : Nat → Nat → Option Nat
  | 0, _ => none
  | fuel + 1, p =>
    if e.more p then
      if e.rType f p = elfRArmFuncdescValue ∧ e.rSym f p = rSym then
        some (fdpicRt f e.lm e.nload (e.rOffset f p))
      else e.findFuncdescValue f rSym fuel (e.next p)
    else some 0

def relocWord (e : RelocEnv) (s : RelocState) (loc : Nat) : RelocState :=
  let w := fdpicRt s.mem.bytes e.lm e.nload (le32 s.mem.bytes loc)
  { s with mem := s.mem.store loc 4 w }

-- {func, got}; an undefined symbol leaves a null descriptor.
def funcdescValue (e : RelocEnv) (f : Nat → UInt8) (rSym loc : Nat) : Nat × Nat :=
  if e.symDefined f rSym then
    let fnv := le32 f (e.sym f rSym + 4)
    let stbLocal := (f (e.sym f rSym + 12)).toNat / 16 = 0
    let fnv := if stbLocal then u32 (fnv + le32 f loc) else fnv
    (fdpicRt f e.lm e.nload fnv, e.gotBase)
  else (0, 0)

def relocFuncdescValue (e : RelocEnv) (s : RelocState) (rSym loc : Nat) : RelocState :=
  let w := e.funcdescValue s.mem.bytes rSym loc
  { s with mem := (s.mem.store loc 4 w.1).store (loc + 4) 4 w.2 }

/-- A fresh descriptor from the pool, as long as the pool lasts. -/
def allocFuncdesc (e : RelocEnv) (s : RelocState) (rSym loc : Nat) : RelocState × Nat :=
  if s.poolUsed + 8 ≤ u32 (maxFd e.relSz e.relEnt * 8) then
    let d := e.fdpool + s.poolUsed
    let f := s.mem.bytes
    let fn := fdpicRt f e.lm e.nload (u32 (le32 f (e.sym f rSym + 4) + le32 f loc))
    ({ mem := (s.mem.store d 4 fn).store (d + 4) 4 e.gotBase, poolUsed := s.poolUsed + 8 }, d)
  else (s, 0)

def relocFuncdesc (e : RelocEnv) (fuel : Nat) (s : RelocState) (rSym loc : Nat) :
    Option RelocState :=
  if e.symDefined s.mem.bytes rSym then
    match e.findFuncdescValue s.mem.bytes rSym fuel 0 with
    | none => none
    | some 0 =>
      let (s', descr) := e.allocFuncdesc s rSym loc
      some { s' with mem := s'.mem.store loc 4 descr }
    | some descr => some { s with mem := s.mem.store loc 4 descr }
  else some { s with mem := s.mem.store loc 4 0 }

def relocOne (e : RelocEnv) (fuel : Nat) (s : RelocState) (o : Nat) : Option RelocState :=
  let f := s.mem.bytes
  let loc := fdpicRtN f e.lm e.nload (e.rOffset f o) 8
  if loc = 0 then some s
  else if e.rType f o = elfRArmRelative ∨ e.rType f o = elfRArmAbs32 then
    some (e.relocWord s loc)
  else if e.rType f o = elfRArmFuncdescValue then
    some (e.relocFuncdescValue s (e.rSym f o) loc)
  else if e.rType f o = elfRArmFuncdesc then e.relocFuncdesc fuel s (e.rSym f o) loc
  else some s

/-- The flag says whether the cursor left the table before the fuel ran out. -/
def relocLoop (e : RelocEnv) (inner : Nat) : Nat → Nat → RelocState → Bool × RelocState
  | 0, _, s => (false, s)
  | fuel + 1, o, s =>
    if e.more o then
      match e.relocOne inner s o with
      | none => (false, s)
      | some s' => e.relocLoop inner fuel (e.next o) s'
    else (true, s)

end RelocEnv

structure FlatProg where
  region : Nat
  regionSize : Nat
  regionUsed : Nat
  entry : Nat
  textBase : Nat
  textSize : Nat
  textMapSize : Nat
  dataBase : Nat
  dataSize : Nat
  bssSize : Nat
  stackSize : Nat
  isFdpic : Bool
  loadmap : Nat
  phdr : Nat
  phnum : Nat
  isDynamic : Bool
  interp : Nat
  got : Nat
  dynamic : Nat
  regionExec : Bool

def poolOff (l : FdpicLayout) : Nat := align8 (l.rwAligned + l.loadmapSize)

def fillProg (a : LoadArgs) (l : FdpicLayout) (seg : SegState) (d : DynInfo) (gotBase : Nat)
    (s : RelocState) : FlatProg :=
  let f := s.mem.bytes
  let rt := fdpicRt f (a.lm l) l.nload
  { region := a.base l
    regionSize := a.regionSize
    regionUsed := l.textReserved + poolOff l + s.poolUsed
    textBase := if a.copyText then a.region else a.image + l.textOff
    textSize := l.textSize
    textMapSize := if a.copyText then l.textReserved else 0
    dataBase := rt seg.dataV
    dataSize := seg.dataFsz
    bssSize := seg.dataMsz - seg.dataFsz
    stackSize := 0x4000
    entry := rt l.entry
    isFdpic := true
    loadmap := a.lm l
    phdr := if a.copyText then u32 (a.region + (l.phoff + 4294967296 - l.textOff))
      else a.image + l.phoff
    phnum := l.phnum
    regionExec := a.copyText
    isDynamic := d.isDynamic
    interp := if l.interpSize ≠ 0 then a.image + l.interpOff else 0
    got := gotBase
    dynamic := if l.dynVaddr ≠ 0 then rt l.dynVaddr else 0 }

def relocEnv (a : LoadArgs) (l : FdpicLayout) (f : Nat → UInt8) (d : DynInfo) : RelocEnv where
  lm := a.lm l
  nload := l.nload
  relSz := d.relSz
  relEnt := d.relEnt
  rel0 := fdpicRtN f (a.lm l) l.nload d.relV d.relSz
  symV := d.symV
  gotBase := fdpicRt f (a.lm l) l.nload d.pltgotV
  fdpool := a.base l + poolOff l

/-- The loop's guard: only a static program with a mapped table is relocated here. -/
def relocates (a : LoadArgs) (d : DynInfo) (e : RelocEnv) : Bool :=
  !a.isInterp && !d.isDynamic && e.rel0 != 0

def relocate (a : LoadArgs) (d : DynInfo) (e : RelocEnv) (fuel : Nat) (m : Mem) :
    Bool × RelocState :=
  if relocates a d e then e.relocLoop fuel fuel 0 { mem := m } else (true, { mem := m })

/-- `lxp_loader_load_fdpic`: its result, `none` while it has not returned within `fuel` iterations
of a relocation loop, and the memory it leaves. -/
def loaderLoadFdpic (fpuContext : Bool) (fuel : Nat) (a : LoadArgs) (m : Mem) :
    Option (Except LxpErr FlatProg) × Mem :=
  if a.region = 0 then (some (.error .invalidParam), m)
  else
    match fdpicLayoutParse fpuContext m.bytes a.image a.imageSize a.regionSize a.copyText with
    | .error e => (some (.error e), m)
    | .ok l =>
      let seg := placeSegments a l (prepareRegion a l m)
      let d := loadedDynInfo a l seg.mem.bytes
      if d.relSz ≠ 0 ∧ d.relEnt < 8 then (some (.error .invalidParam), seg.mem)
      else if l.textReserved + poolOff l + maxFd d.relSz d.relEnt * 8 > a.regionSize then
        (some (.error .noMemory), seg.mem)
      else
        let e := relocEnv a l seg.mem.bytes d
        match relocate a d e fuel seg.mem with
        | (false, s) => (none, s.mem)
        | (true, s) => (some (.ok (fillProg a l seg d e.gotBase s)), s.mem)

end Lxp
