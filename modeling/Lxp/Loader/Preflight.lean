import Lxp.Loader.WriteSafety

/-!
# What the validation of an image promises

`execve` validates an image before it gives up the old program and loads it after.  Validation reads
the dynamic table from the file, the load reads it back from the region, where a later segment may
have been copied over it, and only the load walks the relocations.  This module says which accepted
images load.
-/

open ByteMemory ByteMemory.Mem List Option

namespace Lxp

variable {e : RelocEnv}

/-! ## The relocation walk ends when its cursor leaves the table -/

/-- Some multiple of the stride, as a 32-bit register holds it, lies past the table. -/
def WalkEnds (relSz relEnt : Nat) : Prop := ∃ k, relSz < u32 ((k + 1) * relEnt)

namespace RelocEnv

variable {k : Nat}

section

variable (hk : e.relSz < u32 ((k + 1) * e.relEnt))
include hk

theorem relocLoop_ends (fuel j : Nat) (hj : j + fuel = k) (s : RelocState) :
    (e.relocLoop (k + 1) (fuel + 1) (u32 (j * e.relEnt)) s).1 = true := by
  induction fuel generalizing j s with
  | zero =>
    unfold relocLoop
    rw [show j = k from hj, more_mul, decide_eq_false (not_le.mpr hk), if_neg Bool.false_ne_true]
  | succ fuel ih =>
    unfold relocLoop
    split
    · obtain ⟨s', hone⟩ := relocOne_ends hk s (u32 (j * e.relEnt))
      rw [hone, next_mul]
      exact ih (j + 1) (by omega) s'
    · rfl

end

theorem relocLoop_diverges (hnever : ¬ WalkEnds e.relSz e.relEnt) (inner fuel j : Nat)
    (s : RelocState) : (e.relocLoop inner fuel (u32 (j * e.relEnt)) s).1 = false := by
  induction fuel generalizing j s with
  | zero => rfl
  | succ fuel ih =>
    have hmore : u32 ((j + 1) * e.relEnt) ≤ e.relSz := by
      by_contra hpast
      exact hnever ⟨j, not_le.mp hpast⟩
    unfold relocLoop
    rw [more_mul, decide_eq_true hmore, next_mul]
    cases e.relocOne inner s (u32 (j * e.relEnt)) with
    | none => rfl
    | some s' => exact ih (j + 1) s'

end RelocEnv

/-! ## The result -/

/-- The load returns, and returns success. -/
def LoadReturnsOk (fpuContext : Bool) (a : LoadArgs) (f : Nat → UInt8) : Prop :=
  ∃ fuel prog, (loaderLoadFdpic fpuContext fuel a (Mem.ofBytes f)).1 = some (.ok prog)

/-- The dynamic table passes the load's checks, and its relocations, if applied, come to an end. -/
def TableLoads (f : Nat → UInt8) (a : LoadArgs) (l : FdpicLayout) : Prop :=
  tableAccepted a l (describedTable f a l) = true ∧
    ((describedTable f a l).isDynamic = true ∨
      firstLoad (imageLoads f a) (describedTable f a l).relV (describedTable f a l).relSz = none ∨
      WalkEnds (describedTable f a l).relSz (describedTable f a l).relEnt)

/-- An image whose copied text fits and whose dynamic table, as its segments laid over each other
describe it, still passes the checks that validation made on the file's copy. -/
def Reloadable (fpuContext : Bool) (a : LoadArgs) (f : Nat → UInt8) : Prop :=
  ∃ l, fdpicLayoutParse fpuContext f a.image a.imageSize a.regionSize a.copyText = .ok l ∧
    (∀ p ∈ imageLoads f a, TextFits a l p) ∧ TableLoads f a l

/-- An image with an executable segment that is copied past the half reserved for text. -/
def TextOverruns (fpuContext : Bool) (a : LoadArgs) (f : Nat → UInt8) : Prop :=
  ∃ l, fdpicLayoutParse fpuContext f a.image a.imageSize a.regionSize a.copyText = .ok l ∧
    ∃ p ∈ imageLoads f a, ¬ TextFits a l p

theorem relocate_finishes_iff {a : LoadArgs} {d : DynInfo} (m : Mem) :
    (∃ fuel, (relocate a d e fuel m).1 = true) ↔
      (relocates a d e = true → WalkEnds e.relSz e.relEnt) := by
  constructor
  · rintro ⟨fuel, hfin⟩ hgo
    by_contra hnever
    unfold relocate at hfin
    rw [if_pos hgo] at hfin
    have hdiv := RelocEnv.relocLoop_diverges hnever fuel fuel 0 { mem := m }
    rw [Nat.zero_mul] at hdiv
    change (e.relocLoop fuel fuel 0 { mem := m }).1 = false at hdiv
    rw [hdiv] at hfin
    cases hfin
  · intro hend
    by_cases hgo : relocates a d e = true
    · obtain ⟨k, hk⟩ := hend hgo
      refine ⟨k + 1, ?_⟩
      unfold relocate
      rw [if_pos hgo]
      have hfin := RelocEnv.relocLoop_ends hk k 0 (Nat.zero_add k) { mem := m }
      rw [Nat.zero_mul] at hfin
      exact hfin
    · refine ⟨0, ?_⟩
      unfold relocate
      rw [if_neg hgo]

theorem loadReturnsOk_iff {fpuContext : Bool} {a : LoadArgs} {f : Nat → UInt8} {l : FdpicLayout}
    (hregion : a.region ≠ 0) (hinterp : a.isInterp = false)
    (hparse : fdpicLayoutParse fpuContext f a.image a.imageSize a.regionSize a.copyText = .ok l)
    (hfit : ∀ p ∈ imageLoads f a, TextFits a l p) :
    LoadReturnsOk fpuContext a f ↔ TableLoads f a l := by
  have hl := fdpicLayoutParse_ok hparse
  have htable := loadedDynInfo_placed hl hfit
  obtain ⟨hrel0, hsize⟩ := loadEnv_table hl hfit
  -- The loop is entered for a static table that resolves.
  have hgo : (relocates a (describedTable f a l) (loadEnv a l (Mem.ofBytes f)) = true →
        WalkEnds (describedTable f a l).relSz (describedTable f a l).relEnt) ↔
      ((describedTable f a l).isDynamic = true ∨
        firstLoad (imageLoads f a) (describedTable f a l).relV (describedTable f a l).relSz = none ∨
        WalkEnds (describedTable f a l).relSz (describedTable f a l).relEnt) := by
    rw [← linkAddr_eq_zero hl hfit hregion, ← hrel0]
    unfold relocates
    rw [hinterp]
    cases (describedTable f a l).isDynamic <;>
      by_cases h0 : (loadEnv a l (Mem.ofBytes f)).rel0 = 0 <;> simp [h0]
  unfold LoadReturnsOk TableLoads
  rw [← hgo, ← hsize.1, ← hsize.2, ← relocate_finishes_iff (placedMem a l (Mem.ofBytes f))]
  simp only [loaderLoadFdpic_eq (m := Mem.ofBytes f) hregion hparse, htable]
  by_cases hacc : tableAccepted a l (describedTable f a l) = true
  · simp only [if_pos hacc]
    constructor
    · rintro ⟨fuel, prog, hret⟩
      refine ⟨hacc, fuel, ?_⟩
      split at hret
      · cases hret
      · rename_i hrun
        rw [hrun]
    · rintro ⟨-, fuel, hfin⟩
      refine ⟨fuel, ?_⟩
      split
      · rename_i hrun
        rw [hrun] at hfin
        cases hfin
      · exact ⟨_, rfl⟩
  · simp only [if_neg hacc]
    constructor
    · rintro ⟨-, prog, hret⟩
      cases hret
    · rintro ⟨h, -⟩
      exact absurd h hacc

/-- An accepted image loads when it is reloadable, and one that loads is reloadable unless its
copied text overruns the half reserved for it. -/
theorem loaderValidateFdpic_load_iff (fpuContext : Bool) (a : LoadArgs) (f : Nat → UInt8)
    (hregion : a.region ≠ 0) (hinterp : a.isInterp = false)
    (hvalid : loaderValidateFdpic fpuContext f a.image a.imageSize a.regionSize a.copyText =
      .ok ()) :
    (Reloadable fpuContext a f → LoadReturnsOk fpuContext a f) ∧ (LoadReturnsOk fpuContext a f →
        Reloadable fpuContext a f ∨ TextOverruns fpuContext a f) := by
  constructor
  · rintro ⟨l, hparse, hfit, htable⟩
    exact (loadReturnsOk_iff hregion hinterp hparse hfit).mpr htable
  · intro hret
    cases hparse : fdpicLayoutParse fpuContext f a.image a.imageSize a.regionSize a.copyText with
    | error e =>
      unfold loaderValidateFdpic at hvalid
      rw [hparse] at hvalid
      cases hvalid
    | ok l =>
      by_cases hfit : ∀ p ∈ imageLoads f a, TextFits a l p
      · exact .inl ⟨l, hparse, hfit, (loadReturnsOk_iff hregion hinterp hparse hfit).mp hret⟩
      · right
        refine ⟨l, hparse, ?_⟩
        by_contra hall
        exact hfit fun p hp => by_contra fun hp' => hall ⟨p, hp, hp'⟩

theorem exists_ok_of_any {α : Type} {x : Except LxpErr α} {p : α → Bool}
    (h : x.toOption.any p = true) : ∃ v, x = .ok v ∧ p v = true := by
  cases x with
  | error e => cases h
  | ok v => exact ⟨v, rfl, h⟩

/-- The image that patches its own text is accepted, and it does load. -/
theorem loaderValidateFdpic_load_textPatch :
    LoadReturnsOk false textPatchArgs (bytesAt 4096 textPatchImage) := by
  obtain ⟨l, hparse, htable⟩ := exists_ok_of_any
    (x := fdpicLayoutParse false (bytesAt 4096 textPatchImage) 4096 188 256 false)
    (p := fun l => decide (tableAccepted textPatchArgs l
        (describedTable (bytesAt 4096 textPatchImage) textPatchArgs l) = true ∧
      (describedTable (bytesAt 4096 textPatchImage) textPatchArgs l).relSz <
        u32 ((1 + 1) * (describedTable (bytesAt 4096 textPatchImage) textPatchArgs l).relEnt)))
    (by decide +kernel)
  obtain ⟨hacc, hwalk⟩ := of_decide_eq_true htable
  have hload := loaderValidateFdpic_load_iff false textPatchArgs (bytesAt 4096 textPatchImage)
    (by decide) (by decide) (by
      rfl)
  exact hload.1 ⟨l, hparse, fun p hp hc => absurd hc (by decide), hacc, .inr (.inr ⟨1, hwalk⟩)⟩

/-! An image whose dynamic table has a `DT_RELENT` of zero and no `DT_RELSZ`.  Validation rejects a
short stride only for a table with entries; the load walks the empty table with stride zero. -/

def zeroStrideImage : Bytes :=
  elfHeader 3 ++ phdrBytes ⟨elfPtLoad, 0, 0, 148, 148, 5⟩ ++
    phdrBytes ⟨elfPtLoad, 148, 0x1000, 16, 16, 6⟩ ++
    phdrBytes ⟨elfPtDynamic, 148, 0x1000, 16, 16, 6⟩ ++
    leWord elfDtRelent ++ leWord 0 ++ leWord elfDtNull ++ leWord 0

theorem zeroStride_region_end : 65536 + 256 < 2 ^ 32 := by decide

def zeroStrideArgs : LoadArgs where
  image := 4096
  imageSize := 164
  region := 65536
  regionSize := 256
  isInterp := false
  copyText := false
  image_end := by decide
  region_end := zeroStride_region_end
  disjoint := by decide

/-- It is accepted, and no load of it ever returns. -/
theorem zeroStride_accepted_diverges :
    loaderValidateFdpic false (bytesAt 4096 zeroStrideImage) 4096 164 256 false = .ok () ∧
      ¬ LoadReturnsOk false zeroStrideArgs (bytesAt 4096 zeroStrideImage) := by
  obtain ⟨l, hparse, htable⟩ := exists_ok_of_any
    (x := fdpicLayoutParse false (bytesAt 4096 zeroStrideImage) 4096 164 256 false)
    (p := fun l => decide
      ((describedTable (bytesAt 4096 zeroStrideImage) zeroStrideArgs l).isDynamic = false ∧
        (firstLoad (imageLoads (bytesAt 4096 zeroStrideImage) zeroStrideArgs)
          (describedTable (bytesAt 4096 zeroStrideImage) zeroStrideArgs l).relV
          (describedTable (bytesAt 4096 zeroStrideImage) zeroStrideArgs l).relSz).isSome = true ∧
        (describedTable (bytesAt 4096 zeroStrideImage) zeroStrideArgs l).relEnt = 0))
    (by decide +kernel)
  obtain ⟨hstatic, hmapped, hent⟩ := of_decide_eq_true htable
  constructor
  · rfl
  · rw [loadReturnsOk_iff (a := zeroStrideArgs) (by decide) (by decide) hparse
      (fun p hp hc => absurd hc (by decide))]
    rintro ⟨-, hdyn | hnone | ⟨k, hk⟩⟩
    · rw [hstatic] at hdyn
      cases hdyn
    · rw [hnone] at hmapped
      cases hmapped
    · rw [hent] at hk
      exact absurd hk (Nat.not_lt_zero _)

end Lxp
