import Lxp.Loader.Load

/-!
# Placing the segments

Where the stores of the segment pass go, and what it leaves in the loadmap.  Everything here is for
a layout that was parsed from the image bytes `f`, and for text that fits the part of the region
reserved for it.
-/

open ByteMemory ByteMemory.Mem List

namespace Lxp

variable {p : Phdr}

/-- Reached from the untouched memory by stores that stayed in the region. -/
structure Contained (f : Nat → UInt8) (a : LoadArgs) (m : Mem) : Prop where
  stores : StoresOnly (fun _ => True) (Mem.ofBytes f) m
  within : m.WritesWithin a.region (a.region + a.regionSize)

namespace Contained

variable {f : Nat → UInt8} {a : LoadArgs} {m m' : Mem}

theorem start (f : Nat → UInt8) (a : LoadArgs) : Contained f a (Mem.ofBytes f) :=
  ⟨StoresOnly.refl _, writesWithin_ofBytes f _ _⟩

theorem step {P : Nat × Nat → Prop} (h : Contained f a m) (hs : StoresOnly P m m')
    (hP : ∀ s, P s → SpanIn a.region (a.region + a.regionSize) s) : Contained f a m' :=
  ⟨h.stores.trans (hs.mono fun _ _ => trivial), hs.writesWithin h.within hP⟩

theorem image_eq (h : Contained f a m) {k : Nat} (hk : k < a.imageSize) :
    m.bytes (a.image + k) = f (a.image + k) := by
  have hd := a.disjoint
  exact h.stores.bytes_eq_of_writesWithin h.within (by omega)

end Contained

/-- The image needs 52 bytes of the address space, so no sum below the region size wraps. -/
theorem regionSize_lt {f : Nat → UInt8} {a : LoadArgs} {l : FdpicLayout}
    (hl : l.Parsed f a.image a.imageSize a.regionSize) :
    a.regionSize + 52 ≤ 4294967296 := by
  have h1 := hl.header_size
  have h2 := a.image_end
  have h3 := a.region_end
  have h4 := a.disjoint
  omega

theorem le_align4 {n : Nat} (h : n + 3 < 4294967296) : n ≤ align4 n := by
  unfold align4
  rw [u32_eq_self h]
  omega

theorem le_align8 {n : Nat} (h : n + 7 < 4294967296) : n ≤ align8 n := by
  unfold align8
  rw [u32_eq_self h]
  omega

theorem rwSpan_le_rwAligned {f : Nat → UInt8} {a : LoadArgs} {l : FdpicLayout}
    (hl : l.Parsed f a.image a.imageSize a.regionSize) : l.rwSpan ≤ l.rwAligned := by
  have h1 := regionSize_lt hl
  have h2 := hl.rwSpan_le
  rw [hl.rwAligned_eq]
  exact le_align4 (by omega)

/-- An executable segment stays in the reserved text when it is copied. -/
def TextFits (a : LoadArgs) (l : FdpicLayout) (p : Phdr) : Prop :=
  a.copyText = true → p.isExec = true → p.filesz ≤ l.textReserved

section

variable {f : Nat → UInt8} {a : LoadArgs} {l : FdpicLayout}

theorem segAddr_rw (hp : p.Scanned a.imageSize l.rwLo (l.rwLo + l.rwSpan)) (hx : p.isExec = false) :
    segAddr a l p = a.base l + (p.vaddr - l.rwLo) := by
  have h1 := hp.rw_lo hx
  have h2 := hp.mem_end
  unfold segAddr u32
  simp only [uint32Max] at h2
  rw [if_neg (by rw [hx]; decide)]
  omega

theorem segAddr_copied (hc : a.copyText = true) (hx : p.isExec = true) :
    segAddr a l p = a.region := by
  unfold segAddr
  rw [if_pos hx, if_pos hc]

theorem segAddr_inPlace (hc : a.copyText = false) (hx : p.isExec = true) :
    segAddr a l p = a.image + p.off := by
  unfold segAddr
  rw [if_pos hx, if_neg (by rw [hc]; decide)]

/-- The part of the region that holds segment bytes. -/
def InSegments (a : LoadArgs) (l : FdpicLayout) (s : Nat × Nat) : Prop :=
  SpanIn a.region (a.region + l.textReserved) s ∨ SpanIn (a.base l) (a.base l + l.rwSpan) s

theorem copySegment_stores (hp : p.Scanned a.imageSize l.rwLo (l.rwLo + l.rwSpan))
    (hfit : TextFits a l p) (m : Mem) : StoresOnly (InSegments a l) m (copySegment a l p m) := by
  unfold copySegment
  split
  · exact .refl m
  rename_i hcopied
  apply StoresOnly.copy
  by_cases hx : p.isExec = true
  · have hc : a.copyText = true := by simpa [hx] using hcopied
    have hsz := hfit hc hx
    left
    rw [segAddr_copied hc hx]
    unfold SpanIn
    omega
  have hx : p.isExec = false := by simpa using hx
  have h1 := hp.rw_lo hx
  have h2 := hp.rw_hi hx
  have h3 := hp.filesz_le
  right
  rw [segAddr_rw hp hx]
  unfold SpanIn
  omega

theorem writeLoadmapEntry_stores (m : Mem) (e addr vaddr memsz : Nat) :
    StoresOnly (SpanIn e (e + 12)) m (writeLoadmapEntry m e addr vaddr memsz) := by
  refine ((StoresOnly.store _ _ ?_).trans (StoresOnly.store _ _ ?_)).trans
    (StoresOnly.store _ _ ?_) <;> unfold SpanIn <;> omega

theorem readLoadSeg_writeLoadmapEntry (m : Mem) (e addr vaddr memsz : Nat) :
    readLoadSeg (writeLoadmapEntry m e addr vaddr memsz).bytes e =
      { addr := u32 addr, vaddr := u32 vaddr, memsz := u32 memsz } := by
  unfold readLoadSeg writeLoadmapEntry
  rw [le32_store_of_disjoint _ (by omega), le32_store_of_disjoint _ (by omega), le32_store_same,
    le32_store_of_disjoint _ (by omega), le32_store_same, le32_store_same]

/-- A stretch of the loadmap that no permitted store reaches is unchanged. -/
theorem loadmap_eq_of_stores {P : Nat × Nat → Prop} {m m' : Mem} {lm n : Nat}
    (h : StoresOnly P m m') (hP : ∀ s, P s → s.1 + s.2 ≤ lm + 4 ∨ loadmapEntry lm n ≤ s.1) :
    loadmap m'.bytes lm n = loadmap m.bytes lm n := by
  apply map_congr_left
  intro i hi
  have hi := mem_range.mp hi
  have hout : ∀ k, k ≤ 8 →
      ∀ s, P s → loadmapEntry lm i + k + 4 ≤ s.1 ∨ s.1 + s.2 ≤ loadmapEntry lm i + k := by
    intro k hk s hs
    have := hP s hs
    unfold loadmapEntry at this ⊢
    omega
  unfold readLoadSeg
  rw [h.le32_eq (hout 0 (by omega)), h.le32_eq (hout 4 (by omega)), h.le32_eq (hout 8 (by omega))]

def loadSegOf (a : LoadArgs) (l : FdpicLayout) (p : Phdr) : LoadSeg where
  addr := u32 (segAddr a l p)
  vaddr := p.vaddr
  memsz := p.memsz

theorem placeLoad_mem (s : SegState) (p : Phdr) :
    (placeLoad a l s p).mem = writeLoadmapEntry (copySegment a l p s.mem)
      (loadmapEntry (a.lm l) s.si) (segAddr a l p) p.vaddr p.memsz := by
  unfold placeLoad
  split <;> rfl

theorem placeLoad_si (s : SegState) (p : Phdr) : (placeLoad a l s p).si = s.si + 1 := by
  unfold placeLoad
  split <;> rfl

/-- The stores of one iteration, the one entry of the loadmap it writes included. -/
def InPlaced (a : LoadArgs) (l : FdpicLayout) (si : Nat) (s : Nat × Nat) : Prop :=
  InSegments a l s ∨ SpanIn (loadmapEntry (a.lm l) si) (loadmapEntry (a.lm l) (si + 1)) s

theorem placeLoad_stores (hp : p.Scanned a.imageSize l.rwLo (l.rwLo + l.rwSpan))
    (hfit : TextFits a l p) (s : SegState) :
    StoresOnly (InPlaced a l s.si) s.mem (placeLoad a l s p).mem := by
  rw [placeLoad_mem]
  apply ((copySegment_stores hp hfit s.mem).mono fun _ h => .inl h).trans
  apply (writeLoadmapEntry_stores _ _ _ _ _).mono
  intro sp hsp
  right
  unfold SpanIn loadmapEntry at hsp ⊢
  omega

variable (hl : l.Parsed f a.image a.imageSize a.regionSize)

include hl

theorem inPlaced_region {si : Nat} (hsi : si < l.nload) {s : Nat × Nat}
    (hs : InPlaced a l si s) : SpanIn a.region (a.region + a.regionSize) s := by
  have h1 := rwSpan_le_rwAligned hl
  have h2 := hl.fits
  have h3 := hl.loadmapSize_eq
  unfold InPlaced InSegments SpanIn loadmapEntry LoadArgs.lm LoadArgs.base at hs
  unfold SpanIn
  omega

theorem inPlaced_loadmap {si : Nat} {s : Nat × Nat} (hs : InPlaced a l si s) :
    s.1 + s.2 ≤ a.lm l + 4 ∨ loadmapEntry (a.lm l) si ≤ s.1 := by
  have h1 := rwSpan_le_rwAligned hl
  unfold InPlaced InSegments SpanIn LoadArgs.lm LoadArgs.base at hs
  unfold LoadArgs.lm LoadArgs.base
  omega

/-- One iteration appends the segment's entry to the loadmap and keeps the entries before it. -/
theorem placeLoad_loadmap (hp : p.Scanned a.imageSize l.rwLo (l.rwLo + l.rwSpan))
    (hfit : TextFits a l p) (s : SegState) :
    loadmap (placeLoad a l s p).mem.bytes (a.lm l) (s.si + 1) =
      loadmap s.mem.bytes (a.lm l) s.si ++ [loadSegOf a l p] := by
  have hkept := loadmap_eq_of_stores (placeLoad_stores hp hfit s) fun _ h => inPlaced_loadmap hl h
  have hmem := hp.mem_end
  simp only [uint32Max] at hmem
  rw [← hkept]
  unfold loadmap
  rw [range_succ, map_append, map_singleton, placeLoad_mem,
    readLoadSeg_writeLoadmapEntry, u32_eq_self (n := p.vaddr) (by omega),
    u32_eq_self (n := p.memsz) (by omega)]
  rfl

theorem placeLoads_loadmap (ps : List Phdr)
    (hps : ∀ p ∈ ps, p.Scanned a.imageSize l.rwLo (l.rwLo + l.rwSpan))
    (hfit : ∀ p ∈ ps, TextFits a l p) (s : SegState) :
    loadmap (ps.foldl (placeLoad a l) s).mem.bytes (a.lm l) (s.si + ps.length) =
      loadmap s.mem.bytes (a.lm l) s.si ++ ps.map (loadSegOf a l) := by
  induction ps generalizing s with
  | nil => simp
  | cons p ps ih =>
    have hp := hps p mem_cons_self
    have hf := hfit p mem_cons_self
    have hlm := ih (fun q hq => hps q (mem_cons_of_mem p hq))
      (fun q hq => hfit q (mem_cons_of_mem p hq)) (placeLoad a l s p)
    rw [placeLoad_si, placeLoad_loadmap hl hp hf] at hlm
    rw [foldl_cons, length_cons, show s.si + (ps.length + 1) = s.si + 1 + ps.length by omega]
    rw [hlm, map_cons, append_assoc, singleton_append]

/-! ## The pass over the headers

The pass reads every header from memory at its turn.  As long as its own stores stay in the region
these are the headers of the untouched image, so the pass is a fold over them. -/

omit hl in
theorem readPhdr_congr {g : Nat → UInt8} {p : Nat} (h : ∀ k, k < 28 → f (p + k) = g (p + k)) :
    readPhdr f p = readPhdr g p := by
  have hw : ∀ j, j + 4 ≤ 28 → le32 f (p + j) = le32 g (p + j) := by
    intro j hj
    apply le32_congr
    intro k hk
    rw [Nat.add_assoc]
    exact h (j + k) (by omega)
  have h0 := hw 0 (by decide)
  simp only [Nat.add_zero] at h0
  unfold readPhdr
  rw [h0, hw 4 (by decide), hw 8 (by decide), hw 16 (by decide), hw 20 (by decide),
    hw 24 (by decide)]

theorem readPhdr_contained {m : Mem} (hm : Contained f a m) {i : Nat} (hi : i < l.phnum) :
    readPhdr m.bytes (a.image + l.phoff + i * l.phentsize) =
      readPhdr f (a.image + l.phoff + i * l.phentsize) := by
  have hent := hl.phentsize_ge
  have hend := hl.table_end
  have hrow : i * l.phentsize + l.phentsize ≤ l.phnum * l.phentsize := by
    rw [← Nat.succ_mul]
    exact Nat.mul_le_mul_right _ hi
  apply readPhdr_congr
  intro k hk
  rw [show a.image + l.phoff + i * l.phentsize + k = a.image + (l.phoff + i * l.phentsize + k) by
    omega]
  exact hm.image_eq (by omega)

omit hl in
theorem foldl_placeSegment (ps : List Phdr) (s : SegState) :
    ps.foldl (placeSegment a l) s = (ps.filter Phdr.isLoad).foldl (placeLoad a l) s := by
  rw [foldl_filter]
  rfl

/-- The headers the indices `is` name, as the untouched image has them. -/
def phdrsAt (f : Nat → UInt8) (a : LoadArgs) (l : FdpicLayout) (is : List Nat) : List Phdr :=
  is.map fun i => readPhdr f (a.image + l.phoff + i * l.phentsize)

def placeLoop (a : LoadArgs) (l : FdpicLayout) (is : List Nat) (s : SegState) : SegState :=
  is.foldl
    (fun s i => placeSegment a l s (readPhdr s.mem.bytes (a.image + l.phoff + i * l.phentsize))) s

theorem placeSegment_contained
    (hp : p.isLoad = true → p.Scanned a.imageSize l.rwLo (l.rwLo + l.rwSpan))
    (hfit : p.isLoad = true → TextFits a l p) {s : SegState}
    (hsi : p.isLoad = true → s.si < l.nload) (hs : Contained f a s.mem) :
    Contained f a (placeSegment a l s p).mem := by
  unfold placeSegment
  split
  · rename_i hload
    exact hs.step (placeLoad_stores (hp hload) (hfit hload) s)
      fun _ h => inPlaced_region hl (hsi hload) h
  · exact hs

theorem placeLoop_eq (is : List Nat) (his : ∀ i ∈ is, i < l.phnum)
    (hps : ∀ p ∈ phdrsAt f a l is, p.isLoad = true →
      p.Scanned a.imageSize l.rwLo (l.rwLo + l.rwSpan))
    (hfit : ∀ p ∈ phdrsAt f a l is, p.isLoad = true → TextFits a l p) (s : SegState)
    (hsi : s.si + ((phdrsAt f a l is).filter Phdr.isLoad).length ≤ l.nload)
    (hs : Contained f a s.mem) :
    placeLoop a l is s = (phdrsAt f a l is).foldl (placeSegment a l) s ∧
      Contained f a (placeLoop a l is s).mem := by
  induction is generalizing s with
  | nil => exact ⟨rfl, hs⟩
  | cons i is ih =>
    let p := readPhdr f (a.image + l.phoff + i * l.phentsize)
    have hread := readPhdr_contained hl hs (his i mem_cons_self)
    have hcons : phdrsAt f a l (i :: is) = p :: phdrsAt f a l is := rfl
    have hloop : placeLoop a l (i :: is) s = placeLoop a l is (placeSegment a l s p) := by
      change placeLoop a l is (placeSegment a l s (readPhdr s.mem.bytes _)) = _
      rw [hread]
    rw [hcons] at hsi
    rw [hloop]
    rw [filter_cons] at hsi
    apply ih (fun j hj => his j (mem_cons_of_mem i hj)) (fun q hq => hps q (mem_cons_of_mem p hq))
      (fun q hq => hfit q (mem_cons_of_mem p hq))
    · unfold placeSegment
      split
      · rename_i hload
        rw [if_pos hload, length_cons] at hsi
        rw [placeLoad_si]
        omega
      · rename_i hload
        rw [if_neg hload] at hsi
        exact hsi
    · apply placeSegment_contained hl (hps p mem_cons_self) (hfit p mem_cons_self) _ hs
      intro hload
      rw [if_pos hload, length_cons] at hsi
      omega

omit hl in
theorem prepareRegion_stores (m : Mem) :
    StoresOnly (fun s => InSegments a l s ∨ SpanIn (a.lm l) (a.lm l + 4) s) m
      (prepareRegion a l m) := by
  have hstart : ∀ m : Mem, StoresOnly (fun s => InSegments a l s ∨ SpanIn (a.lm l) (a.lm l + 4) s) m
      (if a.copyText then m.zero a.region l.textReserved else m) := by
    intro m
    split
    · exact StoresOnly.zero m (.inl (.inl ⟨le_refl _, le_refl _⟩))
    · exact .refl m
  have hrw : ∀ m : Mem, StoresOnly (fun s => InSegments a l s ∨ SpanIn (a.lm l) (a.lm l + 4) s) m
      (if l.rwSpan ≠ 0 then m.zero (a.base l) l.rwSpan else m) := by
    intro m
    split
    · exact StoresOnly.zero m (.inl (.inr ⟨le_refl _, le_refl _⟩))
    · exact .refl m
  refine (((hstart m).trans (hrw _)).trans (StoresOnly.store _ _ ?_)).trans
    (StoresOnly.store _ _ ?_)
  · right
    unfold SpanIn
    omega
  · right
    unfold SpanIn
    omega

theorem prepareRegion_contained : Contained f a (prepareRegion a l (Mem.ofBytes f)) := by
  apply (Contained.start f a).step (prepareRegion_stores _)
  intro s hs
  have h1 := rwSpan_le_rwAligned hl
  have h2 := hl.fits
  have h3 := hl.loadmapSize_eq
  unfold InSegments SpanIn LoadArgs.lm LoadArgs.base at hs
  unfold SpanIn
  omega

def imageLoads (f : Nat → UInt8) (a : LoadArgs) : List Phdr :=
  (imagePhdrs f a.image).filter Phdr.isLoad

theorem imageLoads_scanned (hp : p ∈ imageLoads f a) :
    p.Scanned a.imageSize l.rwLo (l.rwLo + l.rwSpan) := by
  obtain ⟨hmem, hload⟩ := mem_filter.mp hp
  exact hl.scanned p hmem hload

theorem phdrsAt_range : phdrsAt f a l (List.range l.phnum) = imagePhdrs f a.image :=
  hl.phdrs_eq.symm

/-- The segment pass over an image whose copied text fits: every store is in the region, and the
loadmap holds one entry for each `PT_LOAD` header. -/
theorem placeSegments_spec (hfit : ∀ p ∈ imageLoads f a, TextFits a l p) :
    placeSegments a l (prepareRegion a l (Mem.ofBytes f)) =
        (imageLoads f a).foldl (placeLoad a l) { mem := prepareRegion a l (Mem.ofBytes f) } ∧
      Contained f a (placeSegments a l (prepareRegion a l (Mem.ofBytes f))).mem ∧
      loadmap (placeSegments a l (prepareRegion a l (Mem.ofBytes f))).mem.bytes (a.lm l) l.nload =
        (imageLoads f a).map (loadSegOf a l) := by
  have hpass := placeLoop_eq hl (List.range l.phnum) (fun i hi => mem_range.mp hi)
    (by rw [phdrsAt_range hl]; exact hl.scanned)
    (by
      rw [phdrsAt_range hl]
      intro p hp hload
      exact hfit p (mem_filter.mpr ⟨hp, hload⟩))
    { mem := prepareRegion a l (Mem.ofBytes f) }
    (by
      rw [phdrsAt_range hl, hl.nload_eq]
      exact le_of_eq (Nat.zero_add _))
    (prepareRegion_contained hl)
  rw [phdrsAt_range hl, foldl_placeSegment] at hpass
  obtain ⟨heq, hcont⟩ := hpass
  refine ⟨heq, hcont, ?_⟩
  have hlm := placeLoads_loadmap hl (imageLoads f a) (fun p hp => imageLoads_scanned hl hp)
    hfit { mem := prepareRegion a l (Mem.ofBytes f) }
  have hn : 0 + (imageLoads f a).length = l.nload := by
    rw [hl.nload_eq]
    exact Nat.zero_add _
  rw [hn] at hlm
  change loadmap (placeLoop a l (List.range l.phnum) _).mem.bytes _ _ = _
  rw [heq]
  exact hlm

end

end Lxp
