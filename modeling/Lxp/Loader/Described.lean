import Lxp.Loader.Placement

/-!
# What the segments of an image describe

The segments are copied one after the other, so a region byte is that of the last segment laid over
it.  Said here is what the segments describe, from the file alone, and that the segment pass of the
load leaves just that: the bytes, the addresses of link-time ranges and the dynamic table.
-/

open ByteMemory ByteMemory.Mem List Option

namespace Lxp

theorem findSome?_guard_eq {α β : Type} (c : α → Prop) [DecidablePred c] (g : α → β) (xs : List α) :
    (xs.findSome? fun x => if c x then some (g x) else none) =
      (xs.find? fun x => decide (c x)).map g := by
  induction xs with
  | nil => rfl
  | cons x xs ih =>
    rw [List.findSome?_cons, List.find?_cons]
    by_cases hx : c x
    · simp only [if_pos hx, decide_eq_true hx, map_some]
    · simp only [if_neg hx, decide_eq_false hx]
      exact ih

/-- The first segment in table order that holds the range, the one `fdpicRtN` resolves it
through. -/
def firstLoad (loads : List Phdr) (vaddr need : Nat) : Option Phdr :=
  loads.find? fun p => p.vaddr ≤ vaddr ∧ vaddr + need ≤ p.vaddr + p.memsz

theorem firstLoad_some {loads : List Phdr} {vaddr need : Nat} {p : Phdr}
    (h : firstLoad loads vaddr need = some p) :
    p ∈ loads ∧ p.vaddr ≤ vaddr ∧ vaddr + need ≤ p.vaddr + p.memsz := by
  refine ⟨mem_of_find?_eq_some h, ?_⟩
  simpa using List.find?_some h

variable {a : LoadArgs} {l : FdpicLayout}

theorem fdpicRtN_eq {g : Nat → UInt8} {loads : List Phdr}
    {lm n : Nat} (hlm : loadmap g lm n = loads.map (loadSegOf a l)) {vaddr need : Nat}
    (hv : vaddr ≤ uint32Max) : fdpicRtN g lm n vaddr need =
      ((firstLoad loads vaddr need).map fun p =>
        u32 (u32 (segAddr a l p) + (vaddr - p.vaddr))).getD 0 := by
  unfold fdpicRtN firstLoad
  rw [if_neg (not_lt.mpr hv), hlm, List.findSome?_map, ← findSome?_guard_eq]
  rfl

def placedMem (a : LoadArgs) (l : FdpicLayout) (m : Mem) : Mem :=
  (placeSegments a l (prepareRegion a l m)).mem

/-- The byte at `addr` after one more segment was copied. -/
def overlay (f : Nat → UInt8) (a : LoadArgs) (l : FdpicLayout) (addr : Nat) (b : UInt8)
    (p : Phdr) : UInt8 :=
  if ¬ (p.isExec = true ∧ a.copyText = false) ∧ segAddr a l p ≤ addr ∧
      addr < segAddr a l p + p.filesz then
    f (a.image + p.off + (addr - segAddr a l p))
  else b

/-- The bytes the segments of the file describe: each region byte from the last segment copied over
it, zero where none was, and the image itself elsewhere. -/
def segmentImage (f : Nat → UInt8) (a : LoadArgs) (l : FdpicLayout) (addr : Nat) : UInt8 :=
  if a.region ≤ addr ∧ addr < a.region + a.regionSize then
    (imageLoads f a).foldl (overlay f a l addr) 0
  else f addr

/-- The address the first segment that holds a link-time range gives it, 0 if none does. -/
def linkAddr (f : Nat → UInt8) (a : LoadArgs) (l : FdpicLayout) (vaddr need : Nat) : Nat :=
  ((firstLoad (imageLoads f a) vaddr need).map fun p =>
    segAddr a l p + (vaddr - p.vaddr)).getD 0

/-- The dynamic table as the file's segments, laid over each other, describe it. -/
def describedTable (f : Nat → UInt8) (a : LoadArgs) (l : FdpicLayout) : DynInfo :=
  if l.dynVaddr = 0 then {}
  else
    let dp := linkAddr f a l l.dynVaddr l.dynSize
    if dp = 0 then {} else dynInfo (dynEntries (segmentImage f a l) dp l.dynSize)

section

variable {f : Nat → UInt8}

theorem dynEntries_congr {g h : Nat → UInt8} {p q n : Nat}
    (hbytes : ∀ k, k < n → g (p + k) = h (q + k)) : dynEntries g p n = dynEntries h q n := by
  have hw : ∀ j, j + 4 ≤ n → le32 g (p + j) = le32 h (q + j) := by
    intro j hj
    apply le32_congr
    intro k hk
    rw [Nat.add_assoc, Nat.add_assoc]
    exact hbytes (j + k) (by omega)
  unfold dynEntries
  congr 1
  apply map_congr_left
  intro i hi
  have hi := mem_range.mp hi
  rw [hw (8 * i) (by omega), Nat.add_assoc, hw (8 * i + 4) (by omega), Nat.add_assoc]

variable (hl : l.Parsed f a.image a.imageSize a.regionSize)
  (hfit : ∀ p ∈ imageLoads f a, TextFits a l p)

include hl

variable {addr : Nat}

omit hl in
theorem placeLoad_bytes {p : Phdr} (hp : p.Scanned a.imageSize l.rwLo (l.rwLo + l.rwSpan))
    {s : SegState} (hs : Contained f a s.mem) (haddr : addr < a.lm l) :
    (placeLoad a l s p).mem.bytes addr = overlay f a l addr (s.mem.bytes addr) p := by
  have hentry : ∀ m : Mem, (writeLoadmapEntry m (loadmapEntry (a.lm l) s.si) (segAddr a l p)
      p.vaddr p.memsz).bytes addr = m.bytes addr := by
    intro m
    apply (writeLoadmapEntry_stores _ _ _ _ _).bytes_eq
    intro sp hsp
    unfold SpanIn loadmapEntry at hsp
    omega
  rw [placeLoad_mem, hentry]
  unfold copySegment overlay
  split
  · rename_i hplace
    rw [if_neg (fun h => h.1 hplace)]
  rename_i hcopied
  by_cases hin : segAddr a l p ≤ addr ∧ addr < segAddr a l p + p.filesz
  · rw [copy_bytes_of_in _ hin, if_pos ⟨hcopied, hin⟩]
    have hfile := hp.file_end
    rw [Nat.add_assoc]
    exact hs.image_eq (by omega)
  · rw [copy_bytes_of_out _ (by omega), if_neg (fun h => hin h.2)]

include hfit

theorem placeLoads_bytes (haddr : addr < a.lm l) (ps : List Phdr)
    (hps : ∀ p ∈ ps, p ∈ imageLoads f a) (s : SegState) (hsi : s.si + ps.length ≤ l.nload)
    (hs : Contained f a s.mem) : (ps.foldl (placeLoad a l) s).mem.bytes addr =
      ps.foldl (overlay f a l addr) (s.mem.bytes addr) := by
  induction ps generalizing s with
  | nil => rfl
  | cons p ps ih =>
    have hmem := hps p mem_cons_self
    have hscan := imageLoads_scanned hl hmem
    rw [length_cons] at hsi
    rw [foldl_cons, foldl_cons, ← placeLoad_bytes hscan hs haddr]
    apply ih (fun q hq => hps q (mem_cons_of_mem p hq))
    · rw [placeLoad_si]
      omega
    · exact hs.step (placeLoad_stores hscan (hfit p hmem) s)
        fun _ h => inPlaced_region hl (by omega) h

section

variable (haddr : (a.copyText = true ∧ a.region ≤ addr ∧ addr < a.region + l.textReserved) ∨
  (a.base l ≤ addr ∧ addr < a.base l + l.rwSpan))
include haddr

omit hfit in
theorem prepareRegion_zero (m : Mem) : (prepareRegion a l m).bytes addr = 0 := by
  have hspan := rwSpan_le_rwAligned hl
  unfold prepareRegion
  rw [store_bytes_of_out _ (by unfold LoadArgs.lm LoadArgs.base at *; omega),
    store_bytes_of_out _ (by unfold LoadArgs.lm LoadArgs.base at *; omega)]
  rcases haddr with ⟨hc, hlo, hhi⟩ | ⟨hlo, hhi⟩
  · have htext : (m.zero a.region l.textReserved).bytes addr = 0 := zero_bytes_of_in _ ⟨hlo, hhi⟩
    split
    · rw [zero_bytes_of_out _ (by unfold LoadArgs.base; omega), htext]
    · exact htext
  · rw [if_pos (by omega), zero_bytes_of_in _ ⟨hlo, hhi⟩]

/-- The segment pass leaves in the region what the segments describe. -/
theorem placedMem_bytes : (placedMem a l (Mem.ofBytes f)).bytes addr = segmentImage f a l addr := by
  have hspan := rwSpan_le_rwAligned hl
  have hfits := hl.fits
  obtain ⟨heq, -, -⟩ := placeSegments_spec hl hfit
  have hin : a.region ≤ addr ∧ addr < a.region + a.regionSize := by
    unfold LoadArgs.base at haddr
    omega
  have hn : ({ mem := prepareRegion a l (Mem.ofBytes f) } : SegState).si +
      (imageLoads f a).length ≤ l.nload := by
    rw [hl.nload_eq]
    exact le_of_eq (Nat.zero_add _)
  unfold placedMem segmentImage
  rw [if_pos hin, heq, placeLoads_bytes hl hfit (by unfold LoadArgs.lm LoadArgs.base at *; omega)
    _ (fun _ hp => hp) _ hn (prepareRegion_contained hl), prepareRegion_zero hl haddr]

end

/-! ## Resolving a link-time range -/

variable {vaddr need : Nat}

theorem segment_range {p : Phdr} (hp : p ∈ imageLoads f a)
    (hlo : p.vaddr ≤ vaddr) (hhi : vaddr + need ≤ p.vaddr + p.memsz) :
    (a.copyText = true ∧ segAddr a l p = a.region ∧ vaddr - p.vaddr + need ≤ l.textReserved) ∨
      (a.base l ≤ segAddr a l p + (vaddr - p.vaddr) ∧
        segAddr a l p + (vaddr - p.vaddr) + need ≤ a.base l + l.rwSpan) ∨
      (a.copyText = false ∧ p.isExec = true ∧ segAddr a l p = a.image + p.off ∧
        p.off + (vaddr - p.vaddr) + need ≤ a.imageSize) := by
  have hscan := imageLoads_scanned hl hp
  by_cases hx : p.isExec = true
  · have hfull := hscan.exec_full hx
    have hfile := hscan.file_end
    by_cases hc : a.copyText = true
    · have hsz := hfit p hp hc hx
      exact .inl ⟨hc, segAddr_copied hc hx, by omega⟩
    · have hc : a.copyText = false := by simpa using hc
      exact .inr (.inr ⟨hc, hx, segAddr_inPlace hc hx, by omega⟩)
  · have hx : p.isExec = false := by simpa using hx
    have h1 := hscan.rw_lo hx
    have h2 := hscan.rw_hi hx
    right
    left
    rw [segAddr_rw hscan hx]
    omega

theorem linkAddr_lt (vaddr need : Nat) : linkAddr f a l vaddr need < 4294967296 := by
  unfold linkAddr
  cases hfirst : firstLoad (imageLoads f a) vaddr need with
  | none => exact (by decide : (0 : Nat) < 4294967296)
  | some p =>
    obtain ⟨hp, hlo, hhi⟩ := firstLoad_some hfirst
    have hrange := segment_range hl hfit hp hlo hhi
    have hi := a.image_end
    have hr := a.region_end
    have hspan := rwSpan_le_rwAligned hl
    have hfits := hl.fits
    simp only [map_some, getD_some]
    unfold LoadArgs.base at hrange
    omega

theorem linkAddr_ne (hregion : a.region ≠ 0) {p : Phdr}
    (hfirst : firstLoad (imageLoads f a) vaddr need = some p) : linkAddr f a l vaddr need ≠ 0 := by
  obtain ⟨hp, hlo, hhi⟩ := firstLoad_some hfirst
  have hrange := segment_range hl hfit hp hlo hhi
  have hi := hl.image_ne
  unfold linkAddr
  rw [hfirst]
  simp only [map_some, getD_some]
  unfold LoadArgs.base at hrange
  omega

theorem linkAddr_eq_zero (hregion : a.region ≠ 0) :
    linkAddr f a l vaddr need = 0 ↔ firstLoad (imageLoads f a) vaddr need = none := by
  cases hfirst : firstLoad (imageLoads f a) vaddr need with
  | none =>
    unfold linkAddr
    rw [hfirst]
    exact ⟨fun _ => rfl, fun _ => rfl⟩
  | some p =>
    have hne := linkAddr_ne hl hfit hregion hfirst
    exact ⟨fun h => absurd h hne, nofun⟩

/-- A loadmap that describes the segments resolves a range as they do. -/
theorem fdpicRtN_linkAddr {g : Nat → UInt8}
    (hlm : loadmap g (a.lm l) l.nload = (imageLoads f a).map (loadSegOf a l)) (vaddr need : Nat) :
    fdpicRtN g (a.lm l) l.nload vaddr need = linkAddr f a l vaddr need := by
  have hlt := linkAddr_lt hl hfit vaddr need
  by_cases hv : vaddr ≤ uint32Max
  · rw [fdpicRtN_eq hlm hv]
    unfold linkAddr at hlt ⊢
    cases hfirst : firstLoad (imageLoads f a) vaddr need with
    | none => rfl
    | some p =>
      rw [hfirst] at hlt
      simp only [map_some, getD_some] at hlt ⊢
      rw [u32_eq_self (n := segAddr a l p) (by omega), u32_eq_self hlt]
  · -- No segment reaches past the 32-bit addresses.
    have hnone : firstLoad (imageLoads f a) vaddr need = none := by
      cases hfirst : firstLoad (imageLoads f a) vaddr need with
      | none => rfl
      | some p =>
        obtain ⟨hp, -, hhi⟩ := firstLoad_some hfirst
        have hend := (imageLoads_scanned hl hp).mem_end
        omega
    unfold fdpicRtN linkAddr
    rw [if_pos (not_le.mp hv), hnone]
    rfl

theorem placed_fdpicRtN (vaddr need : Nat) :
    fdpicRtN (placedMem a l (Mem.ofBytes f)).bytes (a.lm l) l.nload vaddr need =
      linkAddr f a l vaddr need := by
  obtain ⟨-, -, hlm⟩ := placeSegments_spec hl hfit
  exact fdpicRtN_linkAddr hl hfit hlm vaddr need

theorem placed_range (hne : linkAddr f a l vaddr need ≠ 0) {k : Nat}
    (hk : k < need) : (placedMem a l (Mem.ofBytes f)).bytes (linkAddr f a l vaddr need + k) =
      segmentImage f a l (linkAddr f a l vaddr need + k) := by
  cases hfirst : firstLoad (imageLoads f a) vaddr need with
  | none =>
    unfold linkAddr at hne
    rw [hfirst] at hne
    exact absurd rfl hne
  | some p =>
    obtain ⟨hp, hlo, hhi⟩ := firstLoad_some hfirst
    have haddr : linkAddr f a l vaddr need = segAddr a l p + (vaddr - p.vaddr) := by
      unfold linkAddr
      rw [hfirst]
      rfl
    rw [haddr]
    rcases segment_range hl hfit hp hlo hhi with
      ⟨hc, hseg, hend⟩ | ⟨hstart, hend⟩ | ⟨-, -, hseg, hend⟩
    · exact placedMem_bytes hl hfit (.inl ⟨hc, by omega, by omega⟩)
    · exact placedMem_bytes hl hfit (.inr ⟨by omega, by omega⟩)
    obtain ⟨-, hcont, -⟩ := placeSegments_spec hl hfit
    have hd := a.disjoint
    unfold segmentImage
    rw [if_neg (by omega), hseg, Nat.add_assoc, Nat.add_assoc]
    exact hcont.image_eq (by omega)

theorem loadedDynInfo_placed :
    loadedDynInfo a l (placedMem a l (Mem.ofBytes f)).bytes = describedTable f a l := by
  unfold loadedDynInfo describedTable
  split
  · rfl
  simp only
  rw [placed_fdpicRtN hl hfit]
  split
  · rfl
  · rename_i hne
    rw [dynEntries_congr fun k hk => placed_range hl hfit hne hk]

end

end Lxp
