import Lxp.Loader.Described

/-!
# Which bytes a load writes

The stores of a load stay in the region exactly when the relocations it applies do not patch text
that runs in place and, for a load that copies its text, the executable segments fit the half of
the region reserved for them.  Which relocations those are can be read off the table that the
segments describe, as long as none of them patches the table itself.
-/

open ByteMemory ByteMemory.Mem List Option

namespace Lxp

variable {fpuContext : Bool} {s : RelocState} {a : LoadArgs} {l : FdpicLayout}

/-- The relocation types that store to the location they name. -/
def patching (type : Nat) : Bool :=
  type == elfRArmRelative || type == elfRArmAbs32 || type == elfRArmFuncdescValue ||
    type == elfRArmFuncdesc

namespace RelocEnv

def patches (e : RelocEnv) (f : Nat → UInt8) (o : Nat) : Bool := patching (e.rType f o)

def loc (e : RelocEnv) (f : Nat → UInt8) (o : Nat) : Nat :=
  fdpicRtN f e.lm e.nload (e.rOffset f o) 8

def poolSize (e : RelocEnv) : Nat := u32 (maxFd e.relSz e.relEnt * 8)

/-- Where one relocation may store: its location, and the next descriptor of the pool. -/
def InReloc (e : RelocEnv) (s : RelocState) (o : Nat) (sp : Nat × Nat) : Prop :=
  (e.loc s.mem.bytes o ≠ 0 ∧ e.patches s.mem.bytes o = true ∧
      SpanIn (e.loc s.mem.bytes o) (e.loc s.mem.bytes o + 8) sp) ∨
    (s.poolUsed + 8 ≤ e.poolSize ∧
      SpanIn (e.fdpool + s.poolUsed) (e.fdpool + s.poolUsed + 8) sp)

theorem allocFuncdesc_stores (e : RelocEnv) (s : RelocState) (rSym loc o : Nat) :
    StoresOnly (e.InReloc s o) s.mem (e.allocFuncdesc s rSym loc).1.mem ∧
      (e.allocFuncdesc s rSym loc).1.poolUsed ≤ max s.poolUsed e.poolSize := by
  unfold allocFuncdesc
  split
  · rename_i hroom
    refine ⟨(StoresOnly.store _ _ ?_).trans (StoresOnly.store _ _ ?_), ?_⟩
    · exact .inr ⟨hroom, by unfold SpanIn; omega⟩
    · exact .inr ⟨hroom, by unfold SpanIn; omega⟩
    · exact le_max_of_le_right hroom
  · exact ⟨StoresOnly.refl _, le_max_left _ _⟩

/-- What one relocation can do: it stores only to its location and to the pool, the pool cursor
moves on within the pool, and a patching type stores to its location. -/
theorem relocOne_spec {e : RelocEnv} {fuel o : Nat} {s' : RelocState}
    (h : e.relocOne fuel s o = some s') :
    StoresOnly (e.InReloc s o) s.mem s'.mem ∧
      s'.poolUsed ≤ max s.poolUsed e.poolSize ∧
      (e.loc s.mem.bytes o ≠ 0 → e.patches s.mem.bytes o = true →
        (e.loc s.mem.bytes o, 4) ∈ s'.mem.spans) := by
  have hsame : s.poolUsed ≤ max s.poolUsed e.poolSize := le_max_left _ _
  have hstore : e.loc s.mem.bytes o ≠ 0 → e.patches s.mem.bytes o = true → ∀ (m : Mem) (w : Nat),
      StoresOnly (e.InReloc s o) m (m.store (e.loc s.mem.bytes o) 4 w) := by
    intro hloc hpatch m w
    exact StoresOnly.store _ _ (.inl ⟨hloc, hpatch, by unfold SpanIn; omega⟩)
  unfold relocOne at h
  simp only at h
  split at h
  · rename_i hloc
    cases h
    exact ⟨StoresOnly.refl _, hsame, fun hne => absurd hloc hne⟩
  rename_i hloc
  split at h
  · rename_i htype
    have hpatch : e.patches s.mem.bytes o = true := by
      unfold patches
      rcases htype with ht | ht <;> rw [ht] <;> rfl
    cases h
    exact ⟨hstore hloc hpatch _ _, hsame, fun _ _ => mem_cons_self⟩
  split at h
  · rename_i htype
    have hpatch : e.patches s.mem.bytes o = true := by
      unfold patches
      rw [htype]
      rfl
    cases h
    refine ⟨(hstore hloc hpatch _ _).trans (StoresOnly.store _ _ ?_), hsame,
      fun _ _ => mem_cons_of_mem _ mem_cons_self⟩
    exact .inl ⟨hloc, hpatch, by unfold SpanIn loc; omega⟩
  split at h
  · rename_i htype
    have hpatch : e.patches s.mem.bytes o = true := by
      unfold patches
      rw [htype]
      rfl
    unfold relocFuncdesc at h
    split at h
    · split at h
      · cases h
      · cases h
        obtain ⟨halloc, hpool⟩ := e.allocFuncdesc_stores s (e.rSym s.mem.bytes o)
          (e.loc s.mem.bytes o) o
        exact ⟨halloc.trans (hstore hloc hpatch _ _), hpool, fun _ _ => mem_cons_self⟩
      · cases h
        exact ⟨hstore hloc hpatch _ _, hsame, fun _ _ => mem_cons_self⟩
    · cases h
      exact ⟨hstore hloc hpatch _ _, hsame, fun _ _ => mem_cons_self⟩
  · cases h
    refine ⟨StoresOnly.refl _, hsame, fun _ hpatch => ?_⟩
    unfold patches patching at hpatch
    simp only [Bool.or_eq_true, beq_iff_eq] at hpatch
    omega

theorem relocLoop_stores (e : RelocEnv) (inner fuel o : Nat) (s : RelocState) :
    StoresOnly (fun _ => True) s.mem (e.relocLoop inner fuel o s).2.mem := by
  induction fuel generalizing o s with
  | zero => exact .refl _
  | succ fuel ih =>
    unfold relocLoop
    split
    · split
      · exact .refl _
      · rename_i s' hone
        exact ((relocOne_spec hone).1.mono fun _ _ => trivial).trans (ih (e.next o) s')
    · exact .refl _

theorem next_mul (e : RelocEnv) (j : Nat) :
    e.next (u32 (j * e.relEnt)) = u32 ((j + 1) * e.relEnt) := by
  unfold next
  rw [u32_add_u32, Nat.succ_mul]

theorem more_mul (e : RelocEnv) (j : Nat) :
    e.more (u32 (j * e.relEnt)) = decide (u32 ((j + 1) * e.relEnt) ≤ e.relSz) := by
  unfold more
  rw [u32_add_u32, Nat.succ_mul]

variable {e : RelocEnv} {k : Nat}

section

variable (hk : e.relSz < u32 ((k + 1) * e.relEnt))
include hk

theorem findFuncdescValue_ends (f : Nat → UInt8) (rSym fuel j : Nat) (hj : j + fuel = k) :
    e.findFuncdescValue f rSym (fuel + 1) (u32 (j * e.relEnt)) ≠ none := by
  induction fuel generalizing j with
  | zero =>
    unfold findFuncdescValue
    rw [show j = k from hj, more_mul, decide_eq_false (not_le.mpr hk)]
    exact some_ne_none _
  | succ fuel ih =>
    unfold findFuncdescValue
    split
    · split
      · exact some_ne_none _
      · rw [next_mul]
        exact ih (j + 1) (by omega)
    · exact some_ne_none _

theorem relocOne_ends (s : RelocState) (o : Nat) : ∃ s', e.relocOne (k + 1) s o = some s' := by
  unfold relocOne
  simp only
  split
  · exact ⟨_, rfl⟩
  split
  · exact ⟨_, rfl⟩
  split
  · exact ⟨_, rfl⟩
  split
  · unfold relocFuncdesc
    split
    · have hfind := findFuncdescValue_ends hk s.mem.bytes (e.rSym s.mem.bytes o) k 0 (by omega)
      rw [Nat.zero_mul] at hfind
      split
      · rename_i hnone
        exact absurd hnone hfind
      · exact ⟨_, rfl⟩
      · exact ⟨_, rfl⟩
    · exact ⟨_, rfl⟩
  · exact ⟨_, rfl⟩

end

end RelocEnv

/-- The environment's loadmap is the layout's, and its pool lies in the region past it. -/
structure RelocEnv.For (a : LoadArgs) (l : FdpicLayout) (e : RelocEnv) : Prop where
  lm_eq : e.lm = a.lm l
  nload_eq : e.nload = l.nload
  pool_lo : a.lm l + l.loadmapSize ≤ e.fdpool
  pool_hi : e.fdpool + e.poolSize ≤ a.region + a.regionSize

/-! ## The whole load -/

def loadEnv (a : LoadArgs) (l : FdpicLayout) (m : Mem) : RelocEnv :=
  relocEnv a l (placedMem a l m).bytes (loadedDynInfo a l (placedMem a l m).bytes)

def tableAccepted (a : LoadArgs) (l : FdpicLayout) (d : DynInfo) : Bool :=
  decide (¬ (d.relSz ≠ 0 ∧ d.relEnt < 8) ∧
    l.textReserved + poolOff l + maxFd d.relSz d.relEnt * 8 ≤ a.regionSize)

theorem loaderLoadFdpic_eq {m : Mem} (hregion : a.region ≠ 0)
    (hparse : fdpicLayoutParse fpuContext m.bytes a.image a.imageSize a.regionSize
      a.copyText = .ok l)
    (fuel : Nat) : loaderLoadFdpic fpuContext fuel a m =
      let seg := placeSegments a l (prepareRegion a l m)
      let d := loadedDynInfo a l (placedMem a l m).bytes
      if tableAccepted a l d then
        match relocate a d (loadEnv a l m) fuel (placedMem a l m) with
        | (false, s) => (none, s.mem)
        | (true, s) => (some (.ok (fillProg a l seg d (loadEnv a l m).gotBase s)), s.mem)
      else (some (.error (if d.relSz ≠ 0 ∧ d.relEnt < 8 then .invalidParam else .noMemory)),
          placedMem a l m) := by
  unfold loaderLoadFdpic tableAccepted placedMem
  rw [if_neg hregion, hparse]
  simp only [decide_eq_true_eq]
  split
  · rename_i hent
    rw [if_neg (fun h => h.1 hent)]
  rename_i hent
  split
  · rename_i hroom
    rw [if_neg (fun h => not_lt.mpr h.2 hroom)]
  · rename_i hroom
    refine .trans ?_ (if_pos ⟨hent, not_lt.mp hroom⟩).symm
    rfl

theorem relocate_mem (a : LoadArgs) (d : DynInfo) (e : RelocEnv) (fuel : Nat) (m : Mem) :
    (relocate a d e fuel m).2.mem =
      if relocates a d e then (e.relocLoop fuel fuel 0 { mem := m }).2.mem else m := by
  unfold relocate
  split <;> rfl

theorem loaderLoadFdpic_mem {m : Mem} (hregion : a.region ≠ 0)
    (hparse : fdpicLayoutParse fpuContext m.bytes a.image a.imageSize a.regionSize
      a.copyText = .ok l)
    (fuel : Nat) : (loaderLoadFdpic fpuContext fuel a m).2 =
      if tableAccepted a l (loadedDynInfo a l (placedMem a l m).bytes) &&
          relocates a (loadedDynInfo a l (placedMem a l m).bytes) (loadEnv a l m) then
        ((loadEnv a l m).relocLoop fuel fuel 0 { mem := placedMem a l m }).2.mem
      else placedMem a l m := by
  rw [loaderLoadFdpic_eq hregion hparse]
  by_cases htable : tableAccepted a l (loadedDynInfo a l (placedMem a l m).bytes) = true
  · rw [if_pos htable, htable, Bool.true_and, ← relocate_mem]
    split <;> rename_i hrun <;> rw [hrun]
  · rw [if_neg htable, Bool.eq_false_iff.mpr htable, Bool.false_and, if_neg Bool.false_ne_true]

section

variable {f : Nat → UInt8}

theorem placeSegment_stores (s : SegState) (p : Phdr) :
    StoresOnly (fun _ => True) s.mem (placeSegment a l s p).mem := by
  unfold placeSegment
  split
  · rw [placeLoad_mem]
    have hcopy : StoresOnly (fun _ => True) s.mem (copySegment a l p s.mem) := by
      unfold copySegment
      split
      · exact .refl _
      · exact StoresOnly.copy _ _ trivial
    exact hcopy.trans ((writeLoadmapEntry_stores _ _ _ _ _).mono fun _ _ => trivial)
  · exact .refl _

theorem placeLoop_stores (is : List Nat) (s : SegState) :
    StoresOnly (fun _ => True) s.mem (placeLoop a l is s).mem :=
  StoresOnly.foldl SegState.mem _ is (fun s _ => placeSegment_stores s _) s

theorem placedMem_stores (m : Mem) : StoresOnly (fun _ => True) m (placedMem a l m) :=
  ((prepareRegion_stores m).mono fun _ _ => trivial).trans (placeLoop_stores _ _)

theorem loaderLoadFdpic_stores (fpuContext : Bool) (fuel : Nat) (a : LoadArgs) (m : Mem) :
    StoresOnly (fun _ => True) m (loaderLoadFdpic fpuContext fuel a m).2 := by
  by_cases hregion : a.region = 0
  · unfold loaderLoadFdpic
    rw [if_pos hregion]
    exact .refl m
  cases hparse :
      fdpicLayoutParse fpuContext m.bytes a.image a.imageSize a.regionSize a.copyText with
  | error e =>
    unfold loaderLoadFdpic
    rw [if_neg hregion, hparse]
    exact .refl m
  | ok l =>
    rw [loaderLoadFdpic_mem hregion hparse]
    split
    · exact (placedMem_stores m).trans (RelocEnv.relocLoop_stores _ _ _ _ _)
    · exact placedMem_stores m

/-- Text copied past the end of the region shows in the log, so a pass that stays in the region
copied no executable segment larger than it. -/
theorem placeLoop_text_le (hl : l.Parsed f a.image a.imageSize a.regionSize)
    (hc : a.copyText = true) (is : List Nat) (his : ∀ i ∈ is, i < l.phnum) (s : SegState)
    (hs : StoresOnly (fun _ => True) (Mem.ofBytes f) s.mem)
    (hw : (placeLoop a l is s).mem.WritesWithin a.region (a.region + a.regionSize)) :
    ∀ p ∈ phdrsAt f a l is, p.isLoad = true → p.isExec = true → p.filesz ≤ a.regionSize := by
  induction is generalizing s with
  | nil => exact fun p hp => absurd hp not_mem_nil
  | cons i is ih =>
    let q := readPhdr f (a.image + l.phoff + i * l.phentsize)
    have hcont : Contained f a s.mem := ⟨hs, (placeLoop_stores _ _).writesWithin_of hw⟩
    have hread := readPhdr_contained hl hcont (his i mem_cons_self)
    change (placeLoop a l is (placeSegment a l s (readPhdr s.mem.bytes _))).mem.WritesWithin
      _ _ at hw
    rw [hread] at hw
    intro p hp hload hx
    rcases mem_cons.mp hp with hpq | hp
    · have hpq : p = q := hpq
      rw [hpq] at hload hx ⊢
      have hin := (placeLoop_stores is (placeSegment a l s q)).writesWithin_of hw
      have hspan : (a.region, q.filesz) ∈ (placeSegment a l s q).mem.spans := by
        unfold placeSegment
        rw [if_pos hload, placeLoad_mem]
        apply (writeLoadmapEntry_stores _ _ _ _ _).mem_spans
        unfold copySegment
        rw [if_neg (by rw [hc]; simp), segAddr_copied hc hx]
        exact mem_cons_self
      by_contra hbig
      have := hin.span hspan (by omega)
      omega
    · exact ih (fun j hj => his j (mem_cons_of_mem i hj)) _
        (hs.trans (placeSegment_stores s q)) hw p hp hload hx

theorem loadEnv_for (hl : l.Parsed f a.image a.imageSize a.regionSize) (m : Mem)
    (htable : tableAccepted a l (loadedDynInfo a l (placedMem a l m).bytes) = true) :
    (loadEnv a l m).For a l := by
  have hsize := regionSize_lt hl
  have hfits := hl.fits
  have hpool : l.rwAligned + l.loadmapSize ≤ poolOff l := le_align8 (by omega)
  have hroom := (of_decide_eq_true htable).2
  refine ⟨rfl, rfl, ?_, ?_⟩
  · change a.base l + l.rwAligned + l.loadmapSize ≤ a.base l + poolOff l
    omega
  change a.region + l.textReserved + poolOff l + u32 _ ≤ a.region + a.regionSize
  have : u32 (maxFd (loadEnv a l m).relSz (loadEnv a l m).relEnt * 8) ≤
      maxFd (loadEnv a l m).relSz (loadEnv a l m).relEnt * 8 := Nat.mod_le _ _
  change _ + maxFd (loadEnv a l m).relSz (loadEnv a l m).relEnt * 8 ≤ _ at hroom
  omega

end

/-! ## The relocations as the segments describe them -/

/-- `r_offset` and type of entry `j` of the relocation table that the segments describe. -/
def describedReloc (f : Nat → UInt8) (a : LoadArgs) (l : FdpicLayout) (j : Nat) : Nat × Nat :=
  let d := describedTable f a l
  let entry := linkAddr f a l d.relV d.relSz + j * d.relEnt
  (le32 (segmentImage f a l) entry, le32 (segmentImage f a l) (entry + 4) % 256)

/-- The load relocates: the described table passes its checks, is that of a static program and lies
in a segment. -/
def TableRuns (f : Nat → UInt8) (a : LoadArgs) (l : FdpicLayout) : Prop :=
  let d := describedTable f a l
  tableAccepted a l d = true ∧ a.isInterp = false ∧ d.isDynamic = false ∧
    firstLoad (imageLoads f a) d.relV d.relSz ≠ none

/-- Entry `j` of the table stores into an executable segment left in the image. -/
def RelocInText (f : Nat → UInt8) (a : LoadArgs) (l : FdpicLayout) (j : Nat) : Prop :=
  a.copyText = false ∧ patching (describedReloc f a l j).2 = true ∧
    ∃ p, firstLoad (imageLoads f a) (describedReloc f a l j).1 8 = some p ∧ p.isExec = true

/-- Entry `j` of the table stores into the table. -/
def RelocInTable (f : Nat → UInt8) (a : LoadArgs) (l : FdpicLayout) (j : Nat) : Prop :=
  let d := describedTable f a l
  let table := linkAddr f a l d.relV d.relSz
  let loc := linkAddr f a l (describedReloc f a l j).1 8
  patching (describedReloc f a l j).2 = true ∧ loc ≠ 0 ∧ loc < table + d.relSz ∧ table < loc + 8

/-- The entries are walked once, within 32 bits, and none of them patches the table. -/
structure SteadyTable (f : Nat → UInt8) (a : LoadArgs) (l : FdpicLayout) : Prop where
  stride : 0 < (describedTable f a l).relEnt
  fits : (describedTable f a l).relSz + (describedTable f a l).relEnt < 2 ^ 32
  unpatched : ∀ j, (j + 1) * (describedTable f a l).relEnt ≤ (describedTable f a l).relSz →
    ¬ RelocInTable f a l j

/-- The environment's table is the described one. -/
structure RelocEnv.Described (f : Nat → UInt8) (a : LoadArgs) (l : FdpicLayout) (e : RelocEnv) :
    Prop where
  rel0_eq : e.rel0 = linkAddr f a l (describedTable f a l).relV (describedTable f a l).relSz
  relSz_eq : e.relSz = (describedTable f a l).relSz
  relEnt_eq : e.relEnt = (describedTable f a l).relEnt
  rel0_ne : e.rel0 ≠ 0
  stride_le : e.relSz ≠ 0 → 8 ≤ e.relEnt

/-- The stores so far are in the region, and the loadmap and the table are still as the segments
describe them. -/
structure Walking (f : Nat → UInt8) (a : LoadArgs) (l : FdpicLayout) (e : RelocEnv)
    (s : RelocState) : Prop where
  contained : Contained f a s.mem
  loadmap_eq : loadmap s.mem.bytes (a.lm l) l.nload = (imageLoads f a).map (loadSegOf a l)
  pool : s.poolUsed ≤ e.poolSize
  table : ∀ k, k < e.relSz → s.mem.bytes (e.rel0 + k) = segmentImage f a l (e.rel0 + k)

section Walk

variable {f : Nat → UInt8} {e : RelocEnv} {j : Nat}
  (hl : l.Parsed f a.image a.imageSize a.regionSize)
  (hfit : ∀ p ∈ imageLoads f a, TextFits a l p)

section

include hl

/-- Text left in the image is resolved to an address of the image. -/
theorem reloc_inImage (ht : RelocInText f a l j) :
    a.image ≤ linkAddr f a l (describedReloc f a l j).1 8 ∧
      linkAddr f a l (describedReloc f a l j).1 8 + 8 ≤ a.image + a.imageSize ∧
      linkAddr f a l (describedReloc f a l j).1 8 ≠ 0 := by
  obtain ⟨hc, -, p, hfirst, hx⟩ := ht
  obtain ⟨hp, hlo, hhi⟩ := firstLoad_some hfirst
  have hscan := imageLoads_scanned hl hp
  have hfull := hscan.exec_full hx
  have hfile := hscan.file_end
  have hne := hl.image_ne
  unfold linkAddr
  rw [hfirst, map_some, getD_some, segAddr_inPlace hc hx]
  omega

include hfit

/-- A location that is not text left in the image lies in the segment part of the region. -/
theorem reloc_inSegments (hloc : linkAddr f a l (describedReloc f a l j).1 8 ≠ 0)
    (hpatch : patching (describedReloc f a l j).2 = true) (hnot : ¬ RelocInText f a l j) :
    InSegments a l (linkAddr f a l (describedReloc f a l j).1 8, 8) := by
  cases hfirst : firstLoad (imageLoads f a) (describedReloc f a l j).1 8 with
  | none =>
    unfold linkAddr at hloc
    rw [hfirst] at hloc
    exact absurd rfl hloc
  | some p =>
    obtain ⟨hp, hlo, hhi⟩ := firstLoad_some hfirst
    unfold InSegments SpanIn linkAddr
    rw [hfirst]
    simp only [map_some, getD_some]
    rcases segment_range hl hfit hp hlo hhi with ⟨-, hseg, hend⟩ | ⟨hstart, hend⟩ | ⟨hc, hx, -, -⟩
    · left
      omega
    · exact .inr ⟨hstart, hend⟩
    · exact absurd ⟨hc, hpatch, p, hfirst, hx⟩ hnot

/-- The table lies below the loadmap, or in the image. -/
theorem table_outside (hd : e.Described f a l) {k : Nat} (hk : k < e.relSz) :
    e.rel0 + k < a.lm l ∨ a.region + a.regionSize ≤ e.rel0 + k := by
  have hspan := rwSpan_le_rwAligned hl
  have hne := hd.rel0_ne
  rw [hd.relSz_eq] at hk
  rw [hd.rel0_eq] at hne ⊢
  cases hfirst : firstLoad (imageLoads f a) (describedTable f a l).relV
      (describedTable f a l).relSz with
  | none =>
    unfold linkAddr at hne
    rw [hfirst] at hne
    exact absurd rfl hne
  | some p =>
    obtain ⟨hp, hlo, hhi⟩ := firstLoad_some hfirst
    have hrange := segment_range hl hfit hp hlo hhi
    have hdisjoint := a.disjoint
    unfold linkAddr
    rw [hfirst]
    simp only [map_some, getD_some]
    unfold LoadArgs.lm LoadArgs.base at *
    omega

end

variable (he : e.For a l) (hd : e.Described f a l) (hsteady : SteadyTable f a l)
include hd hsteady

theorem walking_entry (hs : Walking f a l e s) (hj : (j + 1) * e.relEnt ≤ e.relSz) :
    e.rOffset s.mem.bytes (j * e.relEnt) = (describedReloc f a l j).1 ∧
      e.rType s.mem.bytes (j * e.relEnt) = (describedReloc f a l j).2 := by
  have hpos := hd.relEnt_eq ▸ hsteady.stride
  rw [Nat.succ_mul] at hj
  have hlen := hd.stride_le (by omega)
  have hword : ∀ k, k + 4 ≤ 8 → le32 s.mem.bytes (e.rel0 + j * e.relEnt + k) =
      le32 (segmentImage f a l) (e.rel0 + j * e.relEnt + k) := by
    refine fun k hk => le32_congr fun i hi => ?_
    rw [Nat.add_assoc, Nat.add_assoc]
    exact hs.table _ (by omega)
  unfold RelocEnv.rOffset RelocEnv.rType describedReloc
  dsimp only
  rw [← hd.rel0_eq, ← hd.relEnt_eq]
  exact ⟨hword 0 (by decide), congrArg (· % 256) (hword 4 (by decide))⟩

/-- The cursor is a multiple of the stride, without a remainder. -/
theorem more_iff (hj : j * e.relEnt ≤ e.relSz) :
    e.more (j * e.relEnt) = true ↔ (j + 1) * e.relEnt ≤ e.relSz := by
  have hfits := hsteady.fits
  rw [← hd.relSz_eq, ← hd.relEnt_eq] at hfits
  unfold RelocEnv.more
  rw [u32_eq_self (by omega), decide_eq_true_iff, Nat.succ_mul]

theorem next_eq (hj : (j + 1) * e.relEnt ≤ e.relSz) :
    e.next (j * e.relEnt) = (j + 1) * e.relEnt := by
  have hfits := hsteady.fits
  rw [← hd.relSz_eq, ← hd.relEnt_eq] at hfits
  unfold RelocEnv.next
  rw [← Nat.add_one_mul, u32_eq_self (by omega)]

include hl hfit he

theorem walking_loc (hs : Walking f a l e s) (hj : (j + 1) * e.relEnt ≤ e.relSz) :
    e.loc s.mem.bytes (j * e.relEnt) = linkAddr f a l (describedReloc f a l j).1 8 := by
  unfold RelocEnv.loc
  rw [he.lm_eq, he.nload_eq, fdpicRtN_linkAddr hl hfit hs.loadmap_eq,
    (walking_entry hd hsteady hs hj).1]

theorem relocOne_walks {inner : Nat} {s' : RelocState} (hs : Walking f a l e s)
    (hj : (j + 1) * e.relEnt ≤ e.relSz) (hone : e.relocOne inner s (j * e.relEnt) = some s')
    (htext : ¬ RelocInText f a l j) : Walking f a l e s' := by
  obtain ⟨hstores, hpool, -⟩ := RelocEnv.relocOne_spec hone
  have hspan := rwSpan_le_rwAligned hl
  have hfits := hl.fits
  have hlmsz := hl.loadmapSize_eq
  have hlo := he.pool_lo
  have hhi := he.pool_hi
  have htype := (walking_entry hd hsteady hs hj).2
  have hrel0 := hd.rel0_eq
  have hsize := hd.relSz_eq
  -- Every store is in a segment and off the table, or in the pool.
  have hwhere : ∀ sp, e.InReloc s (j * e.relEnt) sp →
      (a.region ≤ sp.1 ∧ sp.1 + sp.2 ≤ a.lm l ∧
        (e.rel0 + e.relSz ≤ sp.1 ∨ sp.1 + sp.2 ≤ e.rel0)) ∨
      (a.lm l + l.loadmapSize ≤ sp.1 ∧ sp.1 + sp.2 ≤ a.region + a.regionSize) := by
    rintro sp (⟨hloc, hpatch, hsp⟩ | ⟨hroom, hsp⟩)
    · left
      unfold RelocEnv.patches at hpatch
      rw [htype] at hpatch
      rw [walking_loc hl hfit he hd hsteady hs hj] at hloc hsp
      have hseg := reloc_inSegments hl hfit hloc hpatch htext
      have hnot := hsteady.unpatched j (by rwa [← hd.relSz_eq, ← hd.relEnt_eq])
      have hoff : e.rel0 + e.relSz ≤ sp.1 ∨ sp.1 + sp.2 ≤ e.rel0 := by
        unfold SpanIn at hsp
        by_contra hin
        exact hnot ⟨hpatch, hloc, by omega, by omega⟩
      unfold InSegments SpanIn LoadArgs.base at hseg
      unfold SpanIn at hsp
      unfold LoadArgs.lm LoadArgs.base
      omega
    · right
      unfold SpanIn at hsp
      omega
  refine ⟨hs.contained.step hstores ?_, ?_, hpool.trans (max_le hs.pool (le_refl _)),
    fun k hk => ?_⟩
  · intro sp hsp
    have := hwhere sp hsp
    unfold LoadArgs.lm LoadArgs.base at this
    unfold SpanIn
    omega
  · rw [loadmap_eq_of_stores hstores, hs.loadmap_eq]
    intro sp hsp
    have := hwhere sp hsp
    unfold loadmapEntry
    omega
  · rw [← hs.table k hk]
    apply hstores.bytes_eq
    intro sp hsp
    have := hwhere sp hsp
    have hout := table_outside hl hfit hd hk
    omega

theorem relocOne_escapes {inner : Nat} {s' : RelocState} (hs : Walking f a l e s)
    (hj : (j + 1) * e.relEnt ≤ e.relSz) (hone : e.relocOne inner s (j * e.relEnt) = some s')
    (htext : RelocInText f a l j) : ¬ s'.mem.WritesWithin a.region (a.region + a.regionSize) := by
  intro hw
  obtain ⟨hlo, hhi, hne⟩ := reloc_inImage hl htext
  obtain ⟨-, -, hspan⟩ := RelocEnv.relocOne_spec hone
  have hpatch : e.patches s.mem.bytes (j * e.relEnt) = true := by
    unfold RelocEnv.patches
    rw [(walking_entry hd hsteady hs hj).2]
    exact htext.2.1
  rw [walking_loc hl hfit he hd hsteady hs hj] at hspan
  have hin := hw.span (hspan hne hpatch) (by decide)
  have hdisjoint := a.disjoint
  omega

/-- The walk stays in the region when none of the entries patches text. -/
theorem relocLoop_within (inner : Nat)
    (hall : ∀ j, (j + 1) * e.relEnt ≤ e.relSz → ¬ RelocInText f a l j) (fuel j : Nat)
    (s : RelocState) (hs : Walking f a l e s) (hj : j * e.relEnt ≤ e.relSz) :
    (e.relocLoop inner fuel (j * e.relEnt) s).2.mem.WritesWithin a.region
      (a.region + a.regionSize) := by
  induction fuel generalizing j s with
  | zero => exact hs.contained.within
  | succ fuel ih =>
    unfold RelocEnv.relocLoop
    split
    · rename_i hmore
      have happlied := (more_iff hd hsteady hj).mp hmore
      cases hone : e.relocOne inner s (j * e.relEnt) with
      | none => exact hs.contained.within
      | some s' =>
        have hs' := relocOne_walks hl hfit he hd hsteady hs happlied hone (hall j happlied)
        simp only [next_eq hd hsteady happlied]
        exact ih (j + 1) s' hs' happlied
    · exact hs.contained.within

/-- With enough fuel the walk comes to every entry of the table. -/
theorem relocLoop_covers {k : Nat} (hk : e.relSz < u32 ((k + 1) * e.relEnt)) (fuel j : Nat)
    (s : RelocState) (hs : Walking f a l e s)
    (hw : (e.relocLoop (k + 1) fuel (j * e.relEnt) s).2.mem.WritesWithin a.region
      (a.region + a.regionSize)) (i : Nat) (hji : j ≤ i) (hi : i < j + fuel)
    (happlied : (i + 1) * e.relEnt ≤ e.relSz) : ¬ RelocInText f a l i := by
  induction fuel generalizing j s with
  | zero => omega
  | succ fuel ih =>
    have hj : (j + 1) * e.relEnt ≤ e.relSz :=
      (Nat.mul_le_mul_right _ (Nat.succ_le_succ hji)).trans happlied
    have hj' : j * e.relEnt ≤ e.relSz := (Nat.mul_le_mul_right _ j.le_succ).trans hj
    obtain ⟨s', hone⟩ := RelocEnv.relocOne_ends hk s (j * e.relEnt)
    unfold RelocEnv.relocLoop at hw
    simp only [(more_iff hd hsteady hj').mpr hj, hone, next_eq hd hsteady hj, if_true] at hw
    have htext : ¬ RelocInText f a l j := fun htext =>
      relocOne_escapes hl hfit he hd hsteady hs hj hone htext
        ((e.relocLoop_stores _ _ _ s').writesWithin_of hw)
    by_cases hij : i = j
    · rwa [hij]
    · exact ih (j + 1) s' (relocOne_walks hl hfit he hd hsteady hs hj hone htext) hw
        (by omega) (by omega)

end Walk

section

variable {f : Nat → UInt8} (hl : l.Parsed f a.image a.imageSize a.regionSize)
  (hfit : ∀ p ∈ imageLoads f a, TextFits a l p)
include hl hfit

theorem loadEnv_table : (loadEnv a l (Mem.ofBytes f)).rel0 =
      linkAddr f a l (describedTable f a l).relV (describedTable f a l).relSz ∧
    (loadEnv a l (Mem.ofBytes f)).relSz = (describedTable f a l).relSz ∧
    (loadEnv a l (Mem.ofBytes f)).relEnt = (describedTable f a l).relEnt := by
  change fdpicRtN _ _ _ (loadedDynInfo _ _ _).relV (loadedDynInfo _ _ _).relSz = _ ∧
    (loadedDynInfo _ _ _).relSz = _ ∧ (loadedDynInfo _ _ _).relEnt = _
  rw [loadedDynInfo_placed hl hfit]
  exact ⟨placed_fdpicRtN hl hfit _ _, rfl, rfl⟩

theorem tableRuns_iff (hregion : a.region ≠ 0) : TableRuns f a l ↔
    (tableAccepted a l (describedTable f a l) &&
      relocates a (describedTable f a l) (loadEnv a l (Mem.ofBytes f))) = true := by
  unfold TableRuns relocates
  dsimp only
  rw [(loadEnv_table hl hfit).1, Ne, ← linkAddr_eq_zero hl hfit hregion]
  simp [and_assoc]

theorem loadEnv_described (hregion : a.region ≠ 0) (hruns : TableRuns f a l) :
    (loadEnv a l (Mem.ofBytes f)).Described f a l := by
  obtain ⟨hrel0, hrelSz, hrelEnt⟩ := loadEnv_table hl hfit
  refine ⟨hrel0, hrelSz, hrelEnt, ?_, fun hsize => ?_⟩
  · rw [hrel0, Ne, linkAddr_eq_zero hl hfit hregion]
    exact hruns.2.2.2
  · have hacc := (of_decide_eq_true hruns.1).1
    rw [hrelSz] at hsize
    rw [hrelEnt]
    by_contra hshort
    exact hacc ⟨hsize, by omega⟩

theorem placed_walking {e : RelocEnv} (hd : e.Described f a l) :
    Walking f a l e { mem := placedMem a l (Mem.ofBytes f) } := by
  obtain ⟨-, hcont, hlm⟩ := placeSegments_spec hl hfit
  refine ⟨hcont, hlm, Nat.zero_le _, fun k hk => ?_⟩
  have hne := hd.rel0_ne
  rw [hd.relSz_eq] at hk
  rw [hd.rel0_eq] at hne ⊢
  exact placed_range hl hfit hne hk

/-- On a steady table, whether a load stays in the region can be read off the described entries. -/
theorem loaderLoadFdpic_text_iff (hregion : a.region ≠ 0)
    (hparse : fdpicLayoutParse fpuContext f a.image a.imageSize a.regionSize a.copyText = .ok l)
    (hsteady : TableRuns f a l → SteadyTable f a l) :
    (∀ fuel, (loaderLoadFdpic fpuContext fuel a (Mem.ofBytes f)).2.WritesWithin a.region
        (a.region + a.regionSize)) ↔
      (TableRuns f a l → ∀ j, (j + 1) * (describedTable f a l).relEnt ≤
        (describedTable f a l).relSz → ¬ RelocInText f a l j) := by
  have htable := loadedDynInfo_placed hl hfit
  simp only [loaderLoadFdpic_mem (m := Mem.ofBytes f) hregion hparse, htable]
  by_cases hruns : TableRuns f a l
  · have hgo := (tableRuns_iff hl hfit hregion).mp hruns
    simp only [hgo, if_true, true_imp_iff, hruns]
    have hsteady := hsteady hruns
    have he := loadEnv_for hl (Mem.ofBytes f) (htable ▸ hruns.1)
    have hd := loadEnv_described hl hfit hregion hruns
    have hs := placed_walking hl hfit hd
    obtain ⟨-, hrelSz, hrelEnt⟩ := loadEnv_table hl hfit
    rw [← hrelSz, ← hrelEnt]
    generalize loadEnv a l (Mem.ofBytes f) = e at *
    constructor
    · intro hall i happlied
      have hpos := hrelEnt ▸ hsteady.stride
      have hfits := hsteady.fits
      rw [← hrelSz, ← hrelEnt] at hfits
      have hend : e.relSz < u32 ((e.relSz / e.relEnt + 1) * e.relEnt) := by
        have hlt := Nat.lt_div_mul_add hpos (a := e.relSz)
        have hle := Nat.div_mul_le_self e.relSz e.relEnt
        rw [Nat.succ_mul, u32_eq_self (by omega)]
        exact hlt
      have hi : i < 0 + (e.relSz / e.relEnt + 1) := by
        have := (Nat.le_div_iff_mul_le hpos).mpr happlied
        omega
      refine relocLoop_covers hl hfit he hd hsteady hend _ 0 _ hs ?_ i (Nat.zero_le i) hi happlied
      rw [Nat.zero_mul]
      exact hall _
    · intro hall fuel
      have hwithin := relocLoop_within hl hfit he hd hsteady fuel hall fuel 0 _ hs
      rw [Nat.zero_mul] at hwithin
      exact hwithin (Nat.zero_le _)
  · have hgo := mt (tableRuns_iff hl hfit hregion).mpr hruns
    simp only [if_neg hgo, hruns, false_imp_iff, iff_true]
    exact fun _ => (placeSegments_spec hl hfit).2.1.within

end

/-! ## The result -/

/-- Whatever the load returns, and however far it got, its stores are in the region and the image
is as it was. -/
def LoadContained (fpuContext : Bool) (a : LoadArgs) (f : Nat → UInt8) : Prop :=
  ∀ fuel, (loaderLoadFdpic fpuContext fuel a (Mem.ofBytes f)).2.WritesWithin a.region
      (a.region + a.regionSize) ∧
    ∀ k, k < a.imageSize →
      (loaderLoadFdpic fpuContext fuel a (Mem.ofBytes f)).2.bytes (a.image + k) = f (a.image + k)

/-- An accepted image whose copied executable segments fit the reserved half of the region, and
whose relocations, as its segments describe them, resolve neither to an executable segment left in
the image nor to their own table. -/
def ContainedImage (fpuContext : Bool) (a : LoadArgs) (f : Nat → UInt8) : Prop :=
  ∀ l, a.region ≠ 0 →
    fdpicLayoutParse fpuContext f a.image a.imageSize a.regionSize a.copyText = .ok l →
    (∀ p ∈ imageLoads f a, TextFits a l p) ∧ (TableRuns f a l → SteadyTable f a l ∧
      ∀ j, (j + 1) * (describedTable f a l).relEnt ≤ (describedTable f a l).relSz →
        ¬ RelocInText f a l j)

/-- An accepted image with relocations that patch their own table, or that are not walked once. -/
def TableUnsteady (fpuContext : Bool) (a : LoadArgs) (f : Nat → UInt8) : Prop :=
  ∃ l, fdpicLayoutParse fpuContext f a.image a.imageSize a.regionSize a.copyText = .ok l ∧
    TableRuns f a l ∧ ¬ SteadyTable f a l

/-- An accepted image with an executable segment that is copied over the RW half of the region,
though not past its end. -/
def TextSpills (fpuContext : Bool) (a : LoadArgs) (f : Nat → UInt8) : Prop :=
  ∃ l, fdpicLayoutParse fpuContext f a.image a.imageSize a.regionSize a.copyText = .ok l ∧
    a.copyText = true ∧ (∃ p ∈ imageLoads f a, p.isExec = true ∧ l.textReserved < p.filesz) ∧
    ∀ p ∈ imageLoads f a, p.isExec = true → p.filesz ≤ a.regionSize

theorem loadContained_iff_within (fpuContext : Bool) (a : LoadArgs) (f : Nat → UInt8) :
    LoadContained fpuContext a f ↔
      ∀ fuel, (loaderLoadFdpic fpuContext fuel a (Mem.ofBytes f)).2.WritesWithin a.region
        (a.region + a.regionSize) := by
  constructor
  · intro h fuel
    exact (h fuel).1
  · intro h fuel
    have hcont : Contained f a _ :=
      ⟨loaderLoadFdpic_stores fpuContext fuel a (Mem.ofBytes f), h fuel⟩
    exact ⟨h fuel, fun k hk => hcont.image_eq hk⟩

/-- A load that stays in its region has copied no segment larger than the region. -/
theorem text_le_of_within {f : Nat → UInt8} {fuel : Nat} (hregion : a.region ≠ 0)
    (hparse : fdpicLayoutParse fpuContext f a.image a.imageSize a.regionSize a.copyText = .ok l)
    (hw : (loaderLoadFdpic fpuContext fuel a (Mem.ofBytes f)).2.WritesWithin a.region
      (a.region + a.regionSize)) (hc : a.copyText = true) {p : Phdr} (hp : p ∈ imageLoads f a)
    (hx : p.isExec = true) : p.filesz ≤ a.regionSize := by
  have hl := fdpicLayoutParse_ok hparse
  have hplaced : (placedMem a l (Mem.ofBytes f)).WritesWithin a.region
      (a.region + a.regionSize) := by
    rw [loaderLoadFdpic_mem (m := Mem.ofBytes f) hregion hparse] at hw
    split at hw
    · exact (RelocEnv.relocLoop_stores _ _ _ _ _).writesWithin_of hw
    · exact hw
  have hmem := mem_filter.mp hp
  refine placeLoop_text_le hl hc (List.range l.phnum) (fun i hi => mem_range.mp hi)
    { mem := prepareRegion a l (Mem.ofBytes f) } (prepareRegion_contained hl).stores
    hplaced p ?_ hmem.2 hx
  rw [phdrsAt_range hl]
  exact hmem.1

/-- An ELF header for `phnum` program headers at offset 52. -/
def elfHeader (phnum : UInt8) : Bytes :=
  [0x7f, 0x45, 0x4c, 0x46, 1, 0, 0, 65, 0, 0, 0, 0, 0, 0, 0, 0,
   3, 0, 40, 0, 0, 0, 0, 0, 0, 0, 0, 0, 52, 0, 0, 0,
   0, 0, 0, 0, 0, 0, 0, 0, 0, 0, 32, 0, phnum, 0, 0, 0, 0, 0, 0, 0]

def leWord (n : Nat) : Bytes := (List.range 4).map (byteOf n)

def phdrBytes (p : Phdr) : Bytes :=
  leWord p.type ++ leWord p.off ++ leWord p.vaddr ++ leWord 0 ++ leWord p.filesz ++
    leWord p.memsz ++ leWord p.flags ++ leWord 0

def textPatchImage : Bytes :=
  elfHeader 3 ++ phdrBytes ⟨elfPtLoad, 0, 0, 156, 156, 5⟩ ++
    phdrBytes ⟨elfPtLoad, 156, 0x1000, 32, 32, 6⟩ ++
    phdrBytes ⟨elfPtDynamic, 156, 0x1000, 32, 32, 6⟩ ++
    leWord 0 ++ leWord elfRArmRelative ++
    leWord elfDtRel ++ leWord 148 ++ leWord elfDtRelsz ++ leWord 8 ++
    leWord elfDtRelent ++ leWord 8 ++ leWord elfDtNull ++ leWord 0

def bytesAt (image : Nat) (bs : Bytes) : Nat → UInt8 := fun a => bs.getD (a - image) 0

def textPatchArgs : LoadArgs where
  image := 4096
  imageSize := 188
  region := 65536
  regionSize := 256
  isInterp := false
  copyText := false
  image_end := by decide
  region_end := by decide
  disjoint := by decide

end Lxp
