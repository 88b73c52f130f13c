import Lxp.Lib.ByteMemory

/-!
# The FDPIC layout parse

`fdpicLayoutParse` is the one definition of a loadable image: validation and loading both start
with it.  An image is a range of memory at address `image`; pointers and `size_t` are those of the
32-bit target, so every register operation of the source that may wrap goes through `u32`.
-/

open ByteMemory List

namespace Lxp

variable {imageSize regionSize : Nat} {f : Nat → UInt8}

/-- The error codes of the FDPIC loader. -/
inductive LxpErr where
  | invalidParam
  | noMemory
  | notSupported
deriving DecidableEq, Repr

def uint32Max : Nat := 4294967295

def elfEtDyn : Nat := 3
def elfEmArm : Nat := 40
def elfOsabiArmFdpic : UInt8 := 65
def elfInterpMax : Nat := 256

def elfPtLoad : Nat := 1
def elfPtDynamic : Nat := 2
def elfPtInterp : Nat := 3

def elfDtNull : Nat := 0
def elfDtNeeded : Nat := 1
def elfDtPltgot : Nat := 3
def elfDtSymtab : Nat := 6
def elfDtRel : Nat := 17
def elfDtRelsz : Nat := 18
def elfDtRelent : Nat := 19

structure Phdr where
  type : Nat
  off : Nat
  vaddr : Nat
  filesz : Nat
  memsz : Nat
  flags : Nat
deriving DecidableEq

def readPhdr (f : Nat → UInt8) (ph : Nat) : Phdr where
  type := le32 f ph
  off := le32 f (ph + 4)
  vaddr := le32 f (ph + 8)
  filesz := le32 f (ph + 16)
  memsz := le32 f (ph + 20)
  flags := le32 f (ph + 24)

namespace Phdr

def isLoad (p : Phdr) : Bool := p.type == elfPtLoad

def isExec (p : Phdr) : Bool := p.flags.testBit 0

end Phdr

def isElf (f : Nat → UInt8) (image : Nat) : Bool :=
  f image == 0x7f && f (image + 1) == 0x45 && f (image + 2) == 0x4c && f (image + 3) == 0x46

-- `fpuContext` is the build's `LXP_ENABLE_FPU_CONTEXT`.
def loaderAbiIncompatible (fpuContext : Bool) (f : Nat → UInt8) (image imageSize : Nat) : Bool :=
  if image = 0 ∨ imageSize < 40 then false
  else if isElf f image = false then false
  else if fpuContext then false
  else (le32 f (image + 36)).testBit 10

def fdpicHeaderCheck (fpuContext : Bool) (f : Nat → UInt8) (image imageSize : Nat) :
    Except LxpErr Unit :=
  if image = 0 ∨ imageSize < 52 then .error .invalidParam
  else if isElf f image = false ∨ f (image + 4) ≠ 1 then .error .invalidParam
  else if le16 f (image + 16) ≠ elfEtDyn ∨ le16 f (image + 18) ≠ elfEmArm then .error .invalidParam
  else if f (image + 7) ≠ elfOsabiArmFdpic ∧ (le32 f (image + 36)).testBit 28 = false then
    .error .notSupported
  else if loaderAbiIncompatible fpuContext f image imageSize then .error .notSupported
  else if le16 f (image + 42) < 32 ∨
      le32 f (image + 28) + le16 f (image + 44) * le16 f (image + 42) > imageSize then
    .error .invalidParam
  else .ok ()

/-- The accumulators of the program-header scan. -/
structure PhdrScan where
  textSz : Nat := 0
  textOff : Nat := 0
  rwLo : Nat := uint32Max
  rwHi : Nat := 0
  dynVaddr : Nat := 0
  dynSz : Nat := 0
  interpOff : Nat := 0
  interpSz : Nat := 0
  haveText : Bool := false
  nload : Nat := 0

/-- The bounds every `PT_LOAD` header has to meet. -/
def Phdr.bounded (imageSize : Nat) (p : Phdr) : Bool :=
  p.filesz ≤ p.memsz && p.off + p.filesz ≤ imageSize && p.vaddr + p.memsz ≤ uint32Max

def PhdrScan.noteTables (s : PhdrScan) (p : Phdr) : PhdrScan :=
  let s := if p.type = elfPtDynamic then { s with dynVaddr := p.vaddr, dynSz := p.memsz } else s
  if p.type = elfPtInterp then { s with interpOff := p.off, interpSz := p.filesz } else s

def PhdrScan.add (imageSize : Nat) (s : PhdrScan) (p : Phdr) : Except LxpErr PhdrScan :=
  let s := s.noteTables p
  if p.isLoad = false then .ok s
  else if p.bounded imageSize = false then .error .invalidParam
  else if p.isExec then
    if p.filesz ≠ p.memsz then .error .invalidParam
    else .ok { s with
      nload := s.nload + 1, textSz := p.memsz, textOff := p.off, haveText := true }
  else
    let segEnd := u32 (p.vaddr + p.memsz)
    .ok { s with
      nload := s.nload + 1
      rwLo := if p.vaddr < s.rwLo then p.vaddr else s.rwLo
      rwHi := if segEnd > s.rwHi then segEnd else s.rwHi }

def phdrTable (f : Nat → UInt8) (table phentsize phnum : Nat) : List Phdr :=
  (List.range phnum).map fun i => readPhdr f (table + i * phentsize)

def copiedTextMapSize (textSize regionSize : Nat) : Nat :=
  if regionSize < 64 ∨ regionSize &&& (regionSize - 1) ≠ 0 then 0
  else if textSize ≤ regionSize / 2 then regionSize / 2 else 0

/-- The file bytes behind `[vaddr, vaddr + need)`, or 0: the first `PT_LOAD` header whose file
part holds the range. -/
def fdpicFileRange (image imageSize : Nat) (phdrs : List Phdr) (vaddr need : Nat) : Nat :=
  (phdrs.findSome? fun p =>
    if p.isLoad ∧ p.vaddr ≤ vaddr ∧ vaddr - p.vaddr + need ≤ p.filesz ∧
        p.off + (vaddr - p.vaddr) + need ≤ imageSize then
      some (image + p.off + (vaddr - p.vaddr))
    else none).getD 0

/-- The `(d_tag, d_val)` pairs of a dynamic table, up to `DT_NULL`. -/
def dynEntries (f : Nat → UInt8) (dyn dynSz : Nat) : List (Nat × Nat) :=
  ((List.range (dynSz / 8)).map fun i =>
    (le32 f (dyn + 8 * i), le32 f (dyn + 8 * i + 4))).takeWhile fun e => e.1 != elfDtNull

-- `DT_RELSZ` and `DT_RELENT`, the last of each winning.
def relTags (entries : List (Nat × Nat)) : Nat × Nat :=
  entries.foldl (fun r e =>
    if e.1 = elfDtRelsz then (e.2, r.2)
    else if e.1 = elfDtRelent then (r.1, e.2) else r) (0, 8)

/-- The largest number of descriptors the relocation table can ask for. -/
def maxFd (relSz relEnt : Nat) : Nat := if relEnt ≠ 0 then relSz / relEnt else 0

def align4 (n : Nat) : Nat := u32 (n + 3) / 4 * 4

def align8 (n : Nat) : Nat := u32 (n + 7) / 8 * 8

structure FdpicLayout where
  entry : Nat
  phoff : Nat
  phentsize : Nat
  phnum : Nat
  nload : Nat
  textSize : Nat
  textOff : Nat
  rwLo : Nat
  rwSpan : Nat
  rwAligned : Nat
  loadmapSize : Nat
  textReserved : Nat
  dynVaddr : Nat
  dynSize : Nat
  interpOff : Nat
  interpSize : Nat

def fileRelTags (f : Nat → UInt8) (image imageSize : Nat) (phdrs : List Phdr) (s : PhdrScan) :
    Except LxpErr (Nat × Nat) :=
  if s.dynVaddr = 0 then .ok (0, 8)
  else if s.rwLo = uint32Max ∨ s.dynVaddr < s.rwLo ∨ s.dynVaddr + s.dynSz > s.rwHi then
    .error .invalidParam
  else
    let dyn := fdpicFileRange image imageSize phdrs s.dynVaddr s.dynSz
    if dyn = 0 then .error .invalidParam
    else .ok (relTags (dynEntries f dyn s.dynSz))

def PhdrScan.rwSpan (s : PhdrScan) : Nat := if s.rwHi > s.rwLo then s.rwHi - s.rwLo else 0

def PhdrScan.textReserved (s : PhdrScan) (regionSize : Nat) (copyText : Bool) : Nat :=
  if copyText then copiedTextMapSize s.textSz regionSize else 0

/-- The layout that follows from a finished scan, if it fits the region. -/
def fdpicLayoutPlace (f : Nat → UInt8) (image imageSize regionSize : Nat) (copyText : Bool)
    (phdrs : List Phdr) (s : PhdrScan) : Except LxpErr FdpicLayout :=
  if s.haveText = false ∨ s.nload = 0 then .error .invalidParam
  else if s.interpSz ≠ 0 ∧ (s.interpSz > elfInterpMax ∨ s.interpOff + s.interpSz > imageSize ∨
      f (image + u32 (s.interpOff + s.interpSz - 1)) ≠ 0) then .error .invalidParam
  else
    let rwSpan := s.rwSpan
    if rwSpan > regionSize then .error .noMemory
    else
      let rwA := align4 rwSpan
      let loadmapSz := 4 + s.nload * 12
      let textA := s.textReserved regionSize copyText
      if copyText = true ∧ textA = 0 then .error .noMemory
      else if textA + rwA + loadmapSz > regionSize then .error .noMemory
      else
        match fileRelTags f image imageSize phdrs s with
        | .error e => .error e
        | .ok (relSz, relEnt) =>
          if relSz ≠ 0 ∧ relEnt < 8 then .error .invalidParam
          else if textA + align8 (rwA + loadmapSz) + maxFd relSz relEnt * 8 > regionSize then
            .error .noMemory
          else .ok {
            entry := le32 f (image + 24)
            phoff := le32 f (image + 28)
            phentsize := le16 f (image + 42)
            phnum := le16 f (image + 44)
            nload := s.nload
            textSize := s.textSz
            textOff := s.textOff
            rwLo := s.rwLo
            rwSpan := rwSpan
            rwAligned := rwA
            loadmapSize := loadmapSz
            textReserved := textA
            dynVaddr := s.dynVaddr
            dynSize := s.dynSz
            interpOff := s.interpOff
            interpSize := s.interpSz }

def imagePhdrs (f : Nat → UInt8) (image : Nat) : List Phdr :=
  phdrTable f (image + le32 f (image + 28)) (le16 f (image + 42)) (le16 f (image + 44))

def fdpicLayoutParse (fpuContext : Bool) (f : Nat → UInt8) (image imageSize regionSize : Nat)
    (copyText : Bool) : Except LxpErr FdpicLayout := do
  fdpicHeaderCheck fpuContext f image imageSize
  let phdrs := imagePhdrs f image
  let s ← phdrs.foldlM (PhdrScan.add imageSize) {}
  fdpicLayoutPlace f image imageSize regionSize copyText phdrs s

def loaderValidateFdpic (fpuContext : Bool) (f : Nat → UInt8) (image imageSize regionSize : Nat)
    (copyText : Bool) : Except LxpErr Unit := do
  let _ ← fdpicLayoutParse fpuContext f image imageSize regionSize copyText
  return ()

/-! ## What an accepted image satisfies -/

/-- What the scan establishes of a header, for the RW bounds `rwLo` and `rwHi` it ends with. -/
structure Phdr.Scanned (imageSize rwLo rwHi : Nat) (p : Phdr) : Prop where
  filesz_le : p.filesz ≤ p.memsz
  file_end : p.off + p.filesz ≤ imageSize
  mem_end : p.vaddr + p.memsz ≤ uint32Max
  exec_full : p.isExec = true → p.filesz = p.memsz
  rw_lo : p.isExec = false → rwLo ≤ p.vaddr
  rw_hi : p.isExec = false → p.vaddr + p.memsz ≤ rwHi

theorem Phdr.Scanned.widen {lo hi lo' hi' : Nat} {p : Phdr} (h : p.Scanned imageSize lo hi)
    (hlo : lo' ≤ lo) (hhi : hi ≤ hi') : p.Scanned imageSize lo' hi' where
  filesz_le := h.filesz_le
  file_end := h.file_end
  mem_end := h.mem_end
  exec_full := h.exec_full
  rw_lo := fun hx => hlo.trans (h.rw_lo hx)
  rw_hi := fun hx => (h.rw_hi hx).trans hhi

theorem PhdrScan.noteTables_rw (s : PhdrScan) (p : Phdr) :
    (s.noteTables p).rwLo = s.rwLo ∧ (s.noteTables p).rwHi = s.rwHi ∧
      (s.noteTables p).nload = s.nload := by
  unfold noteTables
  split <;> split <;> exact ⟨rfl, rfl, rfl⟩

variable {s : PhdrScan} {image : Nat}

theorem PhdrScan.add_ok {s' : PhdrScan} {p : Phdr} (h : s.add imageSize p = .ok s') :
    s'.rwLo ≤ s.rwLo ∧ s.rwHi ≤ s'.rwHi ∧ s'.nload = s.nload + (if p.isLoad then 1 else 0) ∧
      (p.isLoad = true → p.Scanned imageSize s'.rwLo s'.rwHi) := by
  obtain ⟨hlo, hhi, hn⟩ := s.noteTables_rw p
  unfold add at h
  split at h
  · rename_i hload
    cases h
    rw [hlo, hhi, hn, hload]
    exact ⟨le_refl _, le_refl _, rfl, nofun⟩
  rename_i hload
  split at h
  · cases h
  rename_i hb
  have hb : p.bounded imageSize = true := by simpa using hb
  simp only [Phdr.bounded, Bool.and_eq_true, decide_eq_true_eq] at hb
  obtain ⟨⟨hfm, hfile⟩, hmem⟩ := hb
  split at h
  · rename_i hx
    split at h
    · cases h
    rename_i hfull
    cases h
    simp only [hlo, hhi, hn, hload, if_true]
    refine ⟨le_refl _, le_refl _, trivial, fun _ => ?_⟩
    exact ⟨hfm, hfile, hmem, fun _ => not_not.mp hfull, fun hf => by simp [hx] at hf,
      fun hf => by simp [hx] at hf⟩
  · rename_i hx
    cases h
    have hend : u32 (p.vaddr + p.memsz) = p.vaddr + p.memsz :=
      u32_eq_self (by simp only [uint32Max] at hmem; omega)
    simp only [hn, hload, if_true]
    refine ⟨by split <;> omega, by split <;> omega, trivial, fun _ => ?_⟩
    exact ⟨hfm, hfile, hmem, fun hf => absurd hf hx, fun _ => by split <;> omega,
      fun _ => by split <;> omega⟩

theorem scan_ok {phdrs : List Phdr} {s' : PhdrScan}
    (h : phdrs.foldlM (PhdrScan.add imageSize) s = .ok s') : s'.rwLo ≤ s.rwLo ∧ s.rwHi ≤ s'.rwHi ∧
      s'.nload = s.nload + (phdrs.filter Phdr.isLoad).length ∧
      ∀ p ∈ phdrs, p.isLoad = true → p.Scanned imageSize s'.rwLo s'.rwHi := by
  induction phdrs generalizing s with
  | nil =>
    cases h
    exact ⟨le_refl _, le_refl _, rfl, fun p hp => by cases hp⟩
  | cons p ps ih =>
    rw [foldlM_cons] at h
    cases hadd : s.add imageSize p with
    | error e =>
      rw [hadd] at h
      cases h
    | ok s1 =>
      rw [hadd] at h
      obtain ⟨hlo1, hhi1, hn1, hp⟩ := PhdrScan.add_ok hadd
      obtain ⟨hlo, hhi, hn, hps⟩ := ih h
      refine ⟨hlo.trans hlo1, hhi1.trans hhi, ?_, ?_⟩
      · rw [hn, hn1, filter_cons]
        split
        · rw [length_cons]
          omega
        · omega
      · intro q hq hload
        rcases mem_cons.mp hq with rfl | hq
        · exact (hp hload).widen hlo hhi
        · exact hps q hq hload

/-- Everything the load relies on in a layout that `fdpicLayoutParse` returned. -/
structure FdpicLayout.Parsed (f : Nat → UInt8) (image imageSize regionSize : Nat)
    (l : FdpicLayout) : Prop where
  image_ne : image ≠ 0
  header_size : 52 ≤ imageSize
  phentsize_ge : 32 ≤ l.phentsize
  table_end : l.phoff + l.phnum * l.phentsize ≤ imageSize
  phdrs_eq : imagePhdrs f image = phdrTable f (image + l.phoff) l.phentsize l.phnum
  scanned : ∀ p ∈ imagePhdrs f image, p.isLoad = true →
    p.Scanned imageSize l.rwLo (l.rwLo + l.rwSpan)
  nload_eq : l.nload = ((imagePhdrs f image).filter Phdr.isLoad).length
  rwSpan_le : l.rwSpan ≤ regionSize
  rwAligned_eq : l.rwAligned = align4 l.rwSpan
  loadmapSize_eq : l.loadmapSize = 4 + l.nload * 12
  fits : l.textReserved + l.rwAligned + l.loadmapSize ≤ regionSize

theorem fdpicHeaderCheck_ok {fpuContext : Bool}
    (h : fdpicHeaderCheck fpuContext f image imageSize = .ok ()) :
    image ≠ 0 ∧ 52 ≤ imageSize ∧ 32 ≤ le16 f (image + 42) ∧
      le32 f (image + 28) + le16 f (image + 44) * le16 f (image + 42) ≤ imageSize := by
  unfold fdpicHeaderCheck at h
  repeat' split at h
  all_goals first
    | contradiction
    | omega

theorem fdpicLayoutPlace_ok {copyText : Bool} {phdrs : List Phdr}
    {l : FdpicLayout} (h : fdpicLayoutPlace f image imageSize regionSize copyText phdrs s = .ok l) :
    l.phoff = le32 f (image + 28) ∧ l.phentsize = le16 f (image + 42) ∧
      l.phnum = le16 f (image + 44) ∧ l.nload = s.nload ∧ l.rwLo = s.rwLo ∧
      l.rwSpan = s.rwSpan ∧ l.rwSpan ≤ regionSize ∧
      l.rwAligned = align4 l.rwSpan ∧ l.loadmapSize = 4 + l.nload * 12 ∧
      l.textReserved + l.rwAligned + l.loadmapSize ≤ regionSize := by
  unfold fdpicLayoutPlace at h
  simp only at h
  split at h
  · cases h
  split at h
  · cases h
  split at h
  · cases h
  rename_i hspan
  split at h
  · cases h
  split at h
  · cases h
  rename_i hfits
  split at h
  · cases h
  split at h
  · cases h
  split at h
  · cases h
  cases h
  exact ⟨rfl, rfl, rfl, rfl, rfl, rfl, not_lt.mp hspan, rfl, rfl, not_lt.mp hfits⟩

theorem fdpicLayoutParse_ok {fpuContext : Bool} {copyText : Bool} {l : FdpicLayout}
    (h : fdpicLayoutParse fpuContext f image imageSize regionSize copyText = .ok l) :
    l.Parsed f image imageSize regionSize := by
  unfold fdpicLayoutParse at h
  cases hcheck : fdpicHeaderCheck fpuContext f image imageSize with
  | error e =>
    rw [hcheck] at h
    cases h
  | ok u =>
    rw [hcheck] at h
    cases hscan : (imagePhdrs f image).foldlM (PhdrScan.add imageSize) {} with
    | error e =>
      simp only [hscan] at h
      cases h
    | ok s =>
      simp only [hscan] at h
      obtain ⟨himage, hsize, hent, htable⟩ := fdpicHeaderCheck_ok hcheck
      obtain ⟨-, -, hn, hscanned⟩ := scan_ok hscan
      obtain ⟨hphoff, hphent, hphnum, hnload, hlo, hspan, hspanLe, hal, hlm, hfits⟩ :=
        fdpicLayoutPlace_ok h
      refine ⟨himage, hsize, ?_, ?_, ?_, ?_, ?_, hspanLe, hal, hlm, hfits⟩
      · rw [hphent]
        exact hent
      · rw [hphoff, hphent, hphnum]
        exact htable
      · rw [hphoff, hphent, hphnum]
        rfl
      · intro p hp hload
        have hsp := hscanned p hp hload
        rw [hlo, hspan]
        refine { hsp with rw_hi := ?_ }
        -- An empty RW range still holds a segment without bytes at its one address.
        intro hx
        have h2 := hsp.rw_hi hx
        unfold PhdrScan.rwSpan
        split <;> omega
      · rw [hnload, hn]
        exact Nat.zero_add _

end Lxp
