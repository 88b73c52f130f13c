import Lxp.Lib.BlockList
import Lxp.Lib.ByteMemory

/-!
# The arena allocator

A first-fit allocator over one buffer.  Block headers stand in the buffer itself and a guest may
overwrite them; the control block and the mapping table are the coordinator's.  An access to a
header outside the managed region is a fault here, and so is a walk that takes more steps than the
region has bytes, so that an operation that ends without a fault is one that stayed inside.

A null pointer is address 0 as an argument and `none` as a result.
-/

open Function ByteMemory

namespace Lxp

/-! ## Words and headers -/

/-- The targets' `size_t`. -/
inductive WordSize where
  | word32
  | word64
deriving DecidableEq

def WordSize.bytes : WordSize → Nat
  | .word32 => 4
  | .word64 => 8

-- `SIZE_MAX`, which is `UINTPTR_MAX` as well.
def WordSize.sizeMax (w : WordSize) : Nat := 256 ^ w.bytes - 1

def WordSize.wrap (w : WordSize) (n : Nat) : Nat := n % 256 ^ w.bytes

abbrev arenaAlign : Nat := 16

-- `struct lxp_arena_blk` without padding.
structure ArenaBlk where
  payload : Nat
  isFree : Nat
  magic : Nat
deriving DecidableEq

/-- The size of a header, rounded up so that the payload behind it is aligned. -/
abbrev arenaHdr : Nat := 16

example (w : WordSize) :
    (w.bytes + 4 + 4 + (arenaAlign - 1)) / arenaAlign * arenaAlign = arenaHdr := by
  cases w <;> rfl

def arenaMagic : Nat := 0x4f415242

def hdrAt (w : WordSize) (f : Nat → UInt8) (a : Nat) : ArenaBlk where
  payload := le f a w.bytes
  isFree := le f (a + w.bytes) 4
  magic := le f (a + w.bytes + 4) 4

/-! ## The arena -/

structure ArenaMapping where
  addr : Nat := 0
  len : Nat := 0
deriving DecidableEq

-- `nmap` is the number of mapping records.
structure Arena (w : WordSize) (nmap : Nat) where
  base : Nat
  size : Nat
  used : Nat
  highWater : Nat
  first : Nat
  mappings : Fin nmap → ArenaMapping
  mem : Mem

inductive Fault where
  | outside (addr : Nat)
  | unbounded
deriving DecidableEq

variable {w : WordSize} {nmap : Nat}

/-- Whether `len` bytes from `a` on are managed by the arena. -/
def Arena.holds (h : Arena w nmap) (a len : Nat) : Prop :=
  h.base ≤ a ∧ a + len ≤ h.base + h.size

instance (h : Arena w nmap) (a len : Nat) : Decidable (h.holds a len) :=
  inferInstanceAs (Decidable (_ ∧ _))

def readHdr (a : Nat) (h : Arena w nmap) : Except Fault ArenaBlk :=
  if h.holds a arenaHdr then .ok (hdrAt w h.mem.bytes a) else .error (.outside a)

def storeHdr (a off len v : Nat) (h : Arena w nmap) : Except Fault (Arena w nmap) :=
  if h.holds a arenaHdr then .ok { h with mem := h.mem.store (a + off) len v }
  else .error (.outside a)

def setPayload (a v : Nat) (h : Arena w nmap) : Except Fault (Arena w nmap) :=
  storeHdr a 0 w.bytes v h

def setIsFree (a v : Nat) (h : Arena w nmap) : Except Fault (Arena w nmap) :=
  storeHdr a w.bytes 4 v h

def setMagic (a v : Nat) (h : Arena w nmap) : Except Fault (Arena w nmap) :=
  storeHdr a (w.bytes + 4) 4 v h

def arenaAlignUp (w : WordSize) (n : Nat) : Nat :=
  if w.sizeMax - (arenaAlign - 1) < n then 0
  else (n + (arenaAlign - 1)) / arenaAlign * arenaAlign

def arenaNeed (w : WordSize) (size : Nat) : Nat := arenaAlignUp w (if size = 0 then 1 else size)

def arenaEnd (h : Arena w nmap) : Nat := h.base + h.size

def walkBound (h : Arena w nmap) : Nat := h.size + 1

/-! ## Walks -/

def layoutWalk (h : Arena w nmap) : Nat → Nat → Nat → Except Fault Bool
  | 0, _, _ => .error .unbounded
  | n + 1, cur, used =>
    if cur < arenaEnd h then
      if arenaEnd h - cur < arenaHdr then .ok false
      else do
        let b ← readHdr cur h
        if b.magic ≠ arenaMagic ∨ 1 < b.isFree ∨ b.payload < arenaAlign ∨
            b.payload % arenaAlign ≠ 0 ∨ arenaEnd h - cur - arenaHdr < b.payload then .ok false
        else if b.isFree = 0 then
          if h.size - (arenaHdr + b.payload) < used then .ok false
          else layoutWalk h n (cur + (arenaHdr + b.payload)) (used + (arenaHdr + b.payload))
        else layoutWalk h n (cur + (arenaHdr + b.payload)) used
    else .ok (cur == arenaEnd h && used == h.used)

def arenaLayoutValid (h : Arena w nmap) : Except Fault Bool :=
  if h.base = 0 ∨ h.first ≠ h.base ∨ h.size < arenaHdr + arenaAlign ∨
      h.size % arenaAlign ≠ 0 then .ok false
  else if h.base % arenaAlign ≠ 0 ∨ w.sizeMax - h.size < h.base then .ok false
  else layoutWalk h (walkBound h) h.base 0

/-- The block whose payload starts at `target`, and the block in front of it. -/
def findWalk (target : Nat) (h : Arena w nmap) :
    Nat → Nat → Option Nat → Except Fault (Option (Nat × Option Nat))
  | 0, _, _ => .error .unbounded
  | n + 1, cur, prev =>
    if cur < arenaEnd h then
      if cur + arenaHdr = target then .ok (some (cur, prev))
      else do
        let b ← readHdr cur h
        findWalk target h n (w.wrap (cur + arenaHdr + b.payload)) (some cur)
    else .ok none

def arenaFindPayload (target : Nat) (h : Arena w nmap) : Except Fault (Option (Nat × Option Nat)) :=
  findWalk target h (walkBound h) h.base none

def fitWalk (need : Nat) (h : Arena w nmap) : Nat → Nat → Except Fault (Option Nat)
  | 0, _ => .error .unbounded
  | n + 1, cur =>
    if cur < arenaEnd h then do
      let b ← readHdr cur h
      if b.isFree ≠ 0 ∧ need ≤ b.payload then .ok (some cur)
      else fitWalk need h n (w.wrap (cur + arenaHdr + b.payload))
    else .ok none

/-! ## Operations -/

def arenaLayFirst (h : Arena w nmap) : Except Fault (Arena w nmap) := do
  let h ← setPayload h.base (h.size - arenaHdr) h
  let h ← setIsFree h.base 1 h
  let h ← setMagic h.base arenaMagic h
  .ok { h with first := h.base, used := 0 }

inductive ArenaError where
  | invalidParam
  | noMemory
deriving DecidableEq

def arenaInit (w : WordSize) (nmap buf size : Nat) (mem : Mem) :
    Except Fault (Except ArenaError (Arena w nmap)) :=
  if buf = 0 then .ok (.error .invalidParam)
  else if w.sizeMax - (arenaAlign - 1) < buf then .ok (.error .invalidParam)
  else
    let start := (buf + (arenaAlign - 1)) / arenaAlign * arenaAlign
    if size ≤ start - buf then .ok (.error .invalidParam)
    else
      let usable := (size - (start - buf)) / arenaAlign * arenaAlign
      if usable < arenaHdr + arenaAlign then .ok (.error .noMemory)
      else do
        let h ← arenaLayFirst
          { base := start, size := usable, used := 0, highWater := 0, first := 0
            mappings := fun _ => {}, mem := mem }
        .ok (.ok h)

/-- The block at `b` keeps `need` bytes when the rest has room for a header and a minimal
payload. -/
def arenaSplit (b need : Nat) (h : Arena w nmap) : Except Fault (Arena w nmap) := do
  let hd ← readHdr b h
  if arenaHdr + arenaAlign ≤ hd.payload - need then
    let rest := b + arenaHdr + need
    let h ← setPayload rest (hd.payload - need - arenaHdr) h
    let h ← setIsFree rest 1 h
    let h ← setMagic rest arenaMagic h
    setPayload b need h
  else .ok h

def Arena.use (used : Nat) (h : Arena w nmap) : Arena w nmap :=
  { h with used := used, highWater := max h.highWater used }

def arenaTake (b need : Nat) (h : Arena w nmap) : Except Fault (Option Nat × Arena w nmap) := do
  let h ← arenaSplit b need h
  let hd ← readHdr b h
  if h.size - (arenaHdr + hd.payload) < h.used then .ok (none, h)
  else
    let h ← setIsFree b 0 h
    .ok (some (b + arenaHdr), h.use (h.used + (arenaHdr + hd.payload)))

def arenaAlloc (size : Nat) (h : Arena w nmap) : Except Fault (Option Nat × Arena w nmap) :=
  if h.first = 0 then .ok (none, h)
  else do
    let valid ← arenaLayoutValid h
    if valid = false then .ok (none, h)
    else if arenaNeed w size = 0 then .ok (none, h)
    else
      match ← fitWalk (arenaNeed w size) h (walkBound h) h.base with
      | none => .ok (none, h)
      | some b => arenaTake b (arenaNeed w size) h

def fillZero (a len : Nat) (h : Arena w nmap) : Except Fault (Arena w nmap) :=
  if h.holds a len then .ok { h with mem := h.mem.zero a len } else .error (.outside a)

def copyPayload (dst src len : Nat) (h : Arena w nmap) : Except Fault (Arena w nmap) :=
  if h.holds dst len ∧ h.holds src len then .ok { h with mem := h.mem.copy dst src len }
  else .error (.outside dst)

def arenaCalloc (size : Nat) (h : Arena w nmap) : Except Fault (Option Nat × Arena w nmap) :=
  if arenaNeed w size = 0 then .ok (none, h)
  else do
    match ← arenaAlloc size h with
    | (none, h) => .ok (none, h)
    | (some p, h) =>
      let h ← fillZero p (arenaNeed w size) h
      .ok (some p, h)

/-- The block behind `b` is added to it when that is free; its header is spoilt. -/
def arenaJoinNext (b : Nat) (h : Arena w nmap) : Except Fault (Arena w nmap) := do
  let hd ← readHdr b h
  let next := w.wrap (b + arenaHdr + hd.payload)
  if next < arenaEnd h then
    let nx ← readHdr next h
    if nx.isFree ≠ 0 then
      let h ← setPayload b (hd.payload + (arenaHdr + nx.payload)) h
      setMagic next 0 h
    else .ok h
  else .ok h

def arenaJoinPrev (b : Nat) (prev : Option Nat) (h : Arena w nmap) : Except Fault (Arena w nmap) :=
  match prev with
  | none => .ok h
  | some prev => do
    let pv ← readHdr prev h
    if pv.isFree ≠ 0 then
      let hd ← readHdr b h
      let h ← setPayload prev (pv.payload + (arenaHdr + hd.payload)) h
      setMagic b 0 h
    else .ok h

def arenaFreeBlock (ptr : Nat) (h : Arena w nmap) : Except Fault (Bool × Arena w nmap) :=
  if ptr = 0 then .ok (false, h)
  else do
    let valid ← arenaLayoutValid h
    if valid = false then .ok (false, h)
    else
      match ← arenaFindPayload ptr h with
      | none => .ok (false, h)
      | some (b, prev) =>
        let hd ← readHdr b h
        if hd.isFree ≠ 0 then .ok (false, h)
        else if h.used < arenaHdr + hd.payload then .ok (false, h)
        else
          let h ← setIsFree b 1 h
          let h ← arenaJoinNext b { h with used := h.used - (arenaHdr + hd.payload) }
          let h ← arenaJoinPrev b prev h
          .ok (true, h)

/-- Every record of `ptr` is replaced. -/
def retarget (ptr : Nat) (m : ArenaMapping) (mappings : Fin nmap → ArenaMapping) :
    Fin nmap → ArenaMapping :=
  fun i => if (mappings i).addr = ptr then m else mappings i

def arenaFree (ptr : Nat) (h : Arena w nmap) : Except Fault (Arena w nmap) := do
  match ← arenaFreeBlock ptr h with
  | (false, h) => .ok h
  | (true, h) => .ok { h with mappings := retarget ptr {} h.mappings }

/-- Growth into the free block behind; `none` when there is not enough. -/
def arenaGrow (ptr b old need size : Nat) (h : Arena w nmap) :
    Except Fault (Option (Arena w nmap)) :=
  let next := w.wrap (b + arenaHdr + old)
  if next < arenaEnd h then do
    let nx ← readHdr next h
    let combined := old + arenaHdr + nx.payload
    if nx.isFree ≠ 0 ∧ need ≤ combined then
      let h ← setMagic next 0 h
      let h ← setPayload b combined h
      let h ← arenaSplit b need h
      let hd ← readHdr b h
      .ok (some { h.use (h.used + (hd.payload - old)) with
        mappings := retarget ptr ⟨ptr, size⟩ h.mappings })
    else .ok none
  else .ok none

def mappingOf (ptr : Nat) (h : Arena w nmap) : Option (Fin nmap) :=
  (List.finRange nmap).find? fun i => (h.mappings i).addr == ptr

def arenaMove (ptr old size : Nat) (h : Arena w nmap) :
    Except Fault (Option Nat × Arena w nmap) := do
  match ← arenaAlloc size h with
  | (none, h) => .ok (none, h)
  | (some q, h) =>
    let h ← copyPayload q ptr (min old size) h
    let tracked := mappingOf ptr h
    match ← arenaFreeBlock ptr h with
    | (false, h) =>
      let h ← arenaFree q h
      .ok (none, h)
    | (true, h) =>
      match tracked with
      | none => .ok (some q, h)
      | some i => .ok (some q, { h with mappings := update h.mappings i ⟨q, size⟩ })

def arenaRealloc (ptr size : Nat) (h : Arena w nmap) : Except Fault (Option Nat × Arena w nmap) :=
  if ptr = 0 then arenaAlloc size h
  else do
    let valid ← arenaLayoutValid h
    if valid = false then .ok (none, h)
    else if arenaNeed w size = 0 then .ok (none, h)
    else
      match ← arenaFindPayload ptr h with
      | none => .ok (none, h)
      | some (b, _) =>
        let hd ← readHdr b h
        if hd.isFree ≠ 0 then .ok (none, h)
        else if arenaNeed w size ≤ hd.payload then .ok (some ptr, h)
        else
          match ← arenaGrow ptr b hd.payload (arenaNeed w size) size h with
          | some h => .ok (some ptr, h)
          | none => arenaMove ptr hd.payload size h

def arenaAllocTracked (size : Nat) (h : Arena w nmap) : Except Fault (Option Nat × Arena w nmap) :=
  match mappingOf 0 h with
  | none => .ok (none, h)
  | some i => do
    match ← arenaAlloc size h with
    | (none, h) => .ok (none, h)
    | (some p, h) => .ok (some p, { h with mappings := update h.mappings i ⟨p, size⟩ })

def arenaFreeTracked (ptr size : Nat) (h : Arena w nmap) : Except Fault (Bool × Arena w nmap) :=
  if ptr = 0 then .ok (false, h)
  else
    match (List.finRange nmap).find? fun i => h.mappings i == ⟨ptr, size⟩ with
    | none => .ok (false, h)
    | some i => do
      match ← arenaFreeBlock ptr h with
      | (false, h) => .ok (false, h)
      | (true, h) => .ok (true, { h with mappings := update h.mappings i {} })

def arenaReset (h : Arena w nmap) : Except Fault (Arena w nmap) :=
  if h.base = 0 then .ok h else arenaLayFirst { h with mappings := fun _ => {} }

end Lxp
