import Mathlib.Tactic.Ring

/-!
# The mapping in force over an MPU range

Where enabled regions overlap the highest-numbered one decides, and a region of 256 bytes or more
has eight subregions that can be disabled.  The check takes the first region from above that reaches
into the expected range and compares that one.
-/

namespace Lxp.Mpu

structure Region where
  rbar : BitVec 32
  rasr : BitVec 32
  base : Nat
  size : Nat
  subregionDisable : Nat
  texscb : Nat
  access : Nat
  executeNever : Nat
  enabled : Bool
deriving DecidableEq

/-- The size is a power of two, so rounding down to a multiple of it clears the low bits. -/
def regionDecode (rbar rasr : BitVec 32) : Option Region :=
  let sizeField := rasr.toNat / 2 % 32
  let enabled := decide (rasr.toNat % 2 = 1)
  if enabled = true ∧ sizeField < 4 then none
  else
    let size := if enabled then 2 ^ (sizeField + 1) else 0
    some
      { rbar := rbar
        rasr := rasr
        base := if enabled = true ∧ size < 2 ^ 32 then rbar.toNat / size * size else 0
        size := size
        subregionDisable := rasr.toNat / 2 ^ 8 % 256
        texscb := rasr.toNat / 2 ^ 16 % 64
        access := rasr.toNat / 2 ^ 24 % 8
        executeNever := rasr.toNat / 2 ^ 28 % 2
        enabled := enabled }

structure Snapshot where
  count : Nat
  regions : Nat → Region
  decoded : ∀ i < count, ∃ rbar rasr, regionDecode rbar rasr = some (regions i)

structure Expectation where
  base : Nat
  size : Nat
  subregionDisable : Nat
  texscb : Nat
  access : Nat
  executeNever : Nat

def regionOverlapsEnabled (r : Region) (base len : Nat) : Bool :=
  if r.enabled = false ∨ len = 0 ∨ 2 ^ 32 < base + len then false
  else if r.base + r.size ≤ base ∨ base + len ≤ r.base then false
  else if r.size < 256 ∨ r.subregionDisable = 0 then true
  else (List.range 8).any fun i => !r.subregionDisable.testBit i &&
    decide (base < r.base + i * (r.size / 8) + r.size / 8 ∧ r.base + i * (r.size / 8) < base + len)

def regionMatchesExpectation (r : Region) (e : Expectation) : Bool :=
  r.enabled && decide (r.base = e.base ∧ r.size = e.size ∧
    r.subregionDisable = e.subregionDisable ∧ r.texscb = e.texscb ∧ r.access = e.access ∧
    r.executeNever = e.executeNever)

def effectiveFrom (s : Snapshot) (e : Expectation) : Nat → Bool
  | 0 => false
  | i + 1 =>
    if regionOverlapsEnabled (s.regions i) e.base e.size then
      regionMatchesExpectation (s.regions i) e
    else effectiveFrom s e i

def snapshotEffectiveMatches (sizeMax : Nat) (s : Snapshot) (e : Expectation) : Bool :=
  if e.size = 0 ∨ s.count = 0 ∨ 16 < s.count ∨ sizeMax < e.size then false
  else effectiveFrom s e s.count

/-- In the range `base`, `size` and not in a subregion of it that is disabled. -/
def InRange (base size subregionDisable a : Nat) : Prop :=
  base ≤ a ∧ a < base + size ∧
    (256 ≤ size → subregionDisable.testBit ((a - base) / (size / 8)) = false)

def Region.Covers (r : Region) (a : Nat) : Prop :=
  r.enabled = true ∧ InRange r.base r.size r.subregionDisable a

theorem regionDecode_size {rbar rasr : BitVec 32} {r : Region}
    (h : regionDecode rbar rasr = some r) : 8 ∣ r.size := by
  unfold regionDecode at h
  simp only at h
  split at h
  · cases h
  rename_i hsize
  cases h
  split
  · rename_i hon
    exact Nat.pow_dvd_pow 2 (show 3 ≤ _ by simp only [hon, true_and] at hsize; omega)
  · exact Nat.dvd_zero 8

/-- A region that covers an address of the range is seen to overlap it. -/
theorem overlaps_of_covers {r : Region} {base len a : Nat} (hsize : 8 ∣ r.size) (h : r.Covers a)
    (hlo : base ≤ a) (hhi : a < base + len) (hend : base + len ≤ 2 ^ 32) :
    regionOverlapsEnabled r base len = true := by
  obtain ⟨hon, hfirst, hlast, hsub⟩ := h
  unfold regionOverlapsEnabled
  rw [if_neg (by simp only [hon, reduceCtorEq, false_or]; omega), if_neg (by omega)]
  split
  · rfl
  obtain ⟨n, hn⟩ := hsize
  have hpart : r.size / 8 = n := by omega
  rw [hpart] at hsub ⊢
  -- the subregion of the address
  have hmod := Nat.div_add_mod (a - r.base) n
  have hlt := Nat.mod_lt (a - r.base) (show 0 < n by omega)
  rw [Nat.mul_comm] at hmod
  refine List.any_eq_true.mpr ⟨(a - r.base) / n, List.mem_range.mpr ?_, ?_⟩
  · exact Nat.div_lt_of_lt_mul (by omega)
  · rw [hsub (by omega)]
    simp only [Bool.not_false, Bool.true_and, decide_eq_true_eq]
    omega

variable {s : Snapshot} {e : Expectation}

theorem effectiveFrom_found (n : Nat) (h : effectiveFrom s e n = true) :
    ∃ i < n, regionOverlapsEnabled (s.regions i) e.base e.size ∧
      regionMatchesExpectation (s.regions i) e ∧
      ∀ j, i < j → j < n → regionOverlapsEnabled (s.regions j) e.base e.size = false := by
  induction n with
  | zero => cases h
  | succ n ih =>
    rw [effectiveFrom] at h
    split at h
    · rename_i hover
      exact ⟨n, Nat.lt_succ_self n, hover, h, fun j _ _ => by omega⟩
    · rename_i hover
      obtain ⟨i, hi, hoveri, hmatch, habove⟩ := ih h
      refine ⟨i, by omega, hoveri, hmatch, fun j hj hjn => ?_⟩
      rcases Nat.lt_succ_iff_lt_or_eq.mp hjn with hlt | rfl
      · exact habove j hj hlt
      · exact Bool.eq_false_iff.mpr hover

/-- At every address of an accepted range the region in force has what is expected of it. -/
theorem effective_of_matches {sizeMax : Nat} (h : snapshotEffectiveMatches sizeMax s e = true)
    {a : Nat} (ha : InRange e.base e.size e.subregionDisable a) :
    ∃ i < s.count, (s.regions i).Covers a ∧ (s.regions i).texscb = e.texscb ∧
      (s.regions i).access = e.access ∧ (s.regions i).executeNever = e.executeNever ∧
      ∀ j, i < j → j < s.count → ¬ (s.regions j).Covers a := by
  unfold snapshotEffectiveMatches at h
  split at h
  · cases h
  obtain ⟨i, hi, hover, hmatch, habove⟩ := effectiveFrom_found s.count h
  simp only [regionMatchesExpectation, Bool.and_eq_true, decide_eq_true_eq] at hmatch
  obtain ⟨hon, hbase, hsize, hsub, htex, hacc, hxn⟩ := hmatch
  have hend : e.base + e.size ≤ 2 ^ 32 := by
    unfold regionOverlapsEnabled at hover
    split at hover
    · cases hover
    · omega
  have hcovers : (s.regions i).Covers a := by
    rw [Region.Covers, hbase, hsize, hsub]
    exact ⟨hon, ha⟩
  refine ⟨i, hi, hcovers, htex, hacc, hxn, fun j hj hjn hc => ?_⟩
  obtain ⟨_, _, hdecode⟩ := s.decoded j hjn
  have hseen := overlaps_of_covers (regionDecode_size hdecode) hc ha.1 ha.2.1 hend
  rw [habove j hj hjn] at hseen
  cases hseen

/-- A region of 512 bytes at 4096 that nothing may access, and over it one of 256 bytes for
everyone, its first subregion disabled. -/
def twoRegions : Snapshot where
  count := 2
  regions i :=
    if i = 0 then ⟨4096#32, 17#32, 4096, 512, 0, 0, 0, 0, true⟩
    else ⟨4096#32, 0x300010f#32, 4096, 256, 1, 0, 3, 0, true⟩
  decoded i hi := by
    obtain rfl | rfl : i = 0 ∨ i = 1 := by omega
    · exact ⟨4096#32, 17#32, by decide⟩
    · exact ⟨4096#32, 0x300010f#32, by decide⟩

/-- Both cover the address, and the upper one is in force. -/
theorem twoRegions_effective : (twoRegions.regions 0).Covers 4128 ∧
    (twoRegions.regions 0).access = 0 ∧ ∃ i < 2, (twoRegions.regions i).Covers 4128 ∧
      (twoRegions.regions i).access = 3 ∧ ∀ j, i < j → j < 2 →
        ¬ (twoRegions.regions j).Covers 4128 := by
  have ha : InRange 4096 256 1 4128 := ⟨by decide, by decide, fun _ => by decide⟩
  obtain ⟨i, hi, hcovers, -, haccess, -, habove⟩ := effective_of_matches (s := twoRegions)
    (e := ⟨4096, 256, 1, 0, 3, 0⟩) (a := 4128)
    (show snapshotEffectiveMatches (2 ^ 32 - 1) twoRegions _ = true by decide) ha
  exact ⟨⟨rfl, by decide, by decide, fun _ => by decide⟩, rfl, i, hi, hcovers, haccess, habove⟩

end Lxp.Mpu
