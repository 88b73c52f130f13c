import Lxp.Family.Steps

/-!
# The family inside a handler

While a handler works on one slot, references to thread groups are in its hands that no slot column
shows.  `KinAt` says what the family is then: the other slots as they were, and the counts with the
references the handler owes added.
-/

open Function RefPool List

namespace Lxp

variable {C : Config}
variable {rt rt' : Runtime C}

structure KinAt (k0 : Kin C) (s : C.Slot) (owed : List (Obj C)) (k : Kin C) : Prop where
  alive : ∀ t, t ≠ s → k.alive t = k0.alive t
  group : ∀ t, t ≠ s → k.group t = k0.group t
  nextPid : k.nextPid = k0.nextPid
  counted : Counted k.groups (update k0.group s none) owed
  vals : ∀ t g, k0.group t = some g → (t = s → g ∈ owed) → k.groups.val g = k0.groups.val g

namespace KinAt

variable {k0 k k' : Kin C} {s : C.Slot} {owed : List (Obj C)} {i : Obj C}

theorem update_none (h : k0.group s = none) : update k0.group s none = k0.group := by
  rw [← h, update_eq_self]

theorem opened (h : Counted k0.groups k0.group []) (s : C.Slot) :
    KinAt k0 s (k0.group s).toList k0 := by
  refine ⟨fun _ _ => rfl, fun _ _ => rfl, rfl, ?_, fun _ _ _ _ => rfl⟩
  cases hs : k0.group s with
  | none =>
    rw [update_none hs]
    exact h
  | some g => exact h.take hs

section

variable (h : KinAt k0 s owed k)
include h

theorem columns (halive : ∀ t, t ≠ s → k'.alive t = k.alive t)
    (hgroup : ∀ t, t ≠ s → k'.group t = k.group t) (hgroups : k'.groups = k.groups)
    (hpid : k'.nextPid = k.nextPid) : KinAt k0 s owed k' :=
  ⟨fun t ht => (halive t ht).trans (h.alive t ht), fun t ht => (hgroup t ht).trans (h.group t ht),
    hpid.trans h.nextPid, hgroups ▸ h.counted, hgroups ▸ h.vals⟩

/-- An object the handler owes or another slot names is not free. -/
theorem named {t : C.Slot} {g : Obj C} (ht : k0.group t = some g)
    (hg : t = s → g ∈ owed) : k.groups.refs g ≠ 0 := by
  have hcount := h.counted g
  by_cases hts : t = s
  · have := count_pos_iff.mpr (hg hts)
    omega
  have hheld : update k0.group s none t = some g := by
    rw [update_of_ne hts]
    exact ht
  have := holders_pos hheld
  omega

/-- A new object is none that a slot names, as long as the slot's own is not given up. -/
theorem new (hs : ∀ g, k0.group s = some g → g ∈ owed) {v : Group}
    {q : Pool Group C.npool} (hn : k.groups.new v = some (i, q)) :
    KinAt k0 s (i :: owed) { k with groups := q } ∧ ∀ t, k0.group t ≠ some i := by
  obtain ⟨hfree, hq⟩ := Pool.new_eq hn
  have hfresh : ∀ t, k0.group t ≠ some i := fun t ht =>
    h.named ht (fun hts => hs i (hts ▸ ht)) hfree
  refine ⟨⟨h.alive, h.group, h.nextPid, h.counted.new hn, fun t g ht hg => ?_⟩, hfresh⟩
  have hgi : g ≠ i := by
    rintro rfl
    exact hfresh t ht
  rw [← h.vals t g ht fun hts => (mem_cons.mp (hg hts)).resolve_left hgi, hq]
  exact update_of_ne hgi _ _

theorem get (hs : ∀ g, k0.group s = some g → g ∈ owed) (i : Obj C) :
    KinAt k0 s (i :: owed) { k with groups := k.groups.get i } :=
  ⟨h.alive, h.group, h.nextPid, h.counted.get i, fun t g ht _ =>
    h.vals t g ht fun hts => hs g (hts ▸ ht)⟩

end

theorem put (h : KinAt k0 s (i :: owed) k) :
    KinAt k0 s owed { k with groups := k.groups.put {} i } := by
  refine ⟨h.alive, h.group, h.nextPid, h.counted.put {}, fun t g ht hg => ?_⟩
  rw [← h.vals t g ht fun hts => mem_cons_of_mem _ (hg hts)]
  by_cases hts : t = s
  · -- What the handler still owes is not the last reference.
    by_cases hgi : g = i
    · subst hgi
      have hcount := h.counted g
      have hpos := count_pos_iff.mpr (hg hts)
      rw [count_cons_self] at hcount
      exact congrFun (Pool.put_val_of_shared (by omega)) g
    · exact Pool.put_val_of_ne hgi
  · exact h.counted.put_val {} (by rw [update_of_ne hts]; exact ht)

theorem set (h : KinAt k0 s owed k) (hi : ∀ t, k0.group t ≠ some i) (x : Group) :
    KinAt k0 s owed (k.setGroup i x) := by
  refine ⟨h.alive, h.group, h.nextPid, h.counted.set i x, fun t g ht hg => ?_⟩
  rw [← h.vals t g ht hg]
  exact update_of_ne (fun hgi : g = i => hi t (hgi ▸ ht)) _ _

/-- The record of a group another slot names changes for the handler as it does before it. -/
theorem set_both (h : KinAt k0 s owed k) (i : Obj C) (x : Group) :
    KinAt (k0.setGroup i x) s owed (k.setGroup i x) := by
  refine ⟨h.alive, h.group, h.nextPid, h.counted.set i x, fun t g ht hg => ?_⟩
  show update k.groups.val i x g = update k0.groups.val i x g
  by_cases hgi : g = i
  · rw [hgi, update_self, update_self]
  · rw [update_of_ne hgi, update_of_ne hgi]
    exact h.vals t g ht hg

/-! ### Leaving the handler -/

theorem back (h : KinAt k0 s (k0.group s).toList k) (halive : k.alive s = k0.alive s)
    (hgroup : k.group s = k0.group s) : Steady k0 k ∧
      ∀ t g, k0.group t = some g → k.groups.val g = k0.groups.val g := by
  have hvals : ∀ t g, k0.group t = some g → k.groups.val g = k0.groups.val g := fun t g ht =>
    h.vals t g ht fun hts => by rw [← hts, ht]; exact mem_singleton.mpr rfl
  refine ⟨⟨?_, ?_, h.nextPid, ?_, fun t g ht => ?_⟩, hvals⟩
  · funext t
    by_cases hts : t = s
    · rw [hts, halive]
    · exact h.alive t hts
  · funext t
    by_cases hts : t = s
    · rw [hts, hgroup]
    · exact h.group t hts
  · have hcounted := h.counted
    cases hs : k0.group s with
    | none =>
      rw [hs, update_none hs] at hcounted
      exact hcounted
    | some g =>
      rw [hs] at hcounted
      have hstored := hcounted.store (update_self _ _ _)
      rw [update_idem, ← hs, update_eq_self] at hstored
      exact hstored
  · rw [hvals t g ht]
    exact .refl _

theorem left (h : KinAt k0 s [] k) (halive : k.alive s = false) (hgroup : k.group s = none) :
    Leaves k0 s unchanged k := by
  have hcol : k.group = update k0.group s none := by
    funext t
    by_cases hts : t = s
    · rw [hts, hgroup, update_self]
    · rw [h.group t hts, update_of_ne hts]
  refine ⟨?_, hcol, h.nextPid, by rw [hcol]; exact h.counted, fun t g hts ht =>
    h.vals t g ht fun hts' => absurd hts' hts⟩
  funext t
  by_cases hts : t = s
  · rw [hts, halive, update_self]
  · rw [h.alive t hts, update_of_ne hts]

end KinAt

/-! ## Operations that leave the family alone -/

structure SameFamily (rt rt' : Runtime C) : Prop where
  kin : rt'.own.kin = rt.own.kin
  log : rt'.log = rt.log

theorem SameFamily.refl (rt : Runtime C) : SameFamily rt rt := ⟨rfl, rfl⟩

theorem SameFamily.trans {rt'' : Runtime C} (h : SameFamily rt rt') (h' : SameFamily rt' rt'') :
    SameFamily rt rt'' :=
  ⟨h'.kin.trans h.kin, h'.log.trans h.log⟩

theorem SameFamily.run {admits : Group → Prop} (h : SameFamily rt rt') :
    FamilyRun admits rt rt' := by
  unfold FamilyRun
  rw [h.kin, h.log]

theorem SchedOnly.family (h : SchedOnly rt rt') : SameFamily rt rt' := ⟨by rw [h.own], h.log⟩

theorem ResourcesOnly.kin {o o' : Own C} (h : ResourcesOnly o o') : o'.kin = o.kin := by rw [h]; rfl

theorem SameFamily.setOwn {o : Own C} (h : o.kin = rt.own.kin) :
    SameFamily rt { rt with own := o } := ⟨h, rfl⟩

theorem mmPut_kin (m : Option (Obj C)) (o : Own C) : (mmPut m o).kin = o.kin := by cases m <;> rfl

theorem procMmPut_kin (s : C.Slot) (o : Own C) : (procMmPut s o).kin = o.kin :=
  (mmPut_kin (o.mm s) o ▸ rfl : (procMmPut s o).kin = (mmPut (o.mm s) o).kin).trans
    (mmPut_kin (o.mm s) o)

theorem regionPut_kin (r : Option (RegionRef C)) (o : Own C) : (regionPut r o).kin = o.kin := by
  cases r <;> rfl

theorem regionMmPut_kin (s : C.Slot) (o : Own C) : (regionMmPut s o).kin = o.kin := by
  unfold regionMmPut
  split
  · rfl
  · rw [procMmPut_kin, regionPut_kin]

theorem vforkLeaseRelease_kin (child : SlotRef C) (o : Own C) :
    (vforkLeaseRelease child o).kin = o.kin := by
  unfold vforkLeaseRelease
  split <;> rfl

theorem vforkContainParent_family (child : SlotRef C) (rt : Runtime C) :
    SameFamily rt (vforkContainParent child rt) := by
  unfold vforkContainParent
  split
  · exact .refl rt
  · exact (exitSlot_schedOnly _ rt _ _ _).family

theorem vforkContainStale_family (child : SlotRef C) (rt : Runtime C) :
    SameFamily rt (vforkContainStale child rt) := by
  have hparent := vforkContainParent_family child rt
  have hreset : SameFamily (vforkContainParent child rt) { vforkContainParent child rt with
      own := { vforkGuardReset child.index
        (vforkLeaseRelease child (vforkContainParent child rt).own) with
        vforkParent :=
          update (vforkLeaseRelease child (vforkContainParent child rt).own).vforkParent
          child.index none
        snapshot := update (vforkLeaseRelease child (vforkContainParent child rt).own).snapshot
          child.index none } } :=
    SameFamily.setOwn (vforkLeaseRelease_kin child _)
  exact (hparent.trans hreset).trans (exitSlot_schedOnly child.index _ false 127 _).family

theorem vforkRestore_family {par : C.Slot} {ref : RegionRef C} {child : SlotRef C} {sp : Nat}
    (h : vforkRestore par ref child sp rt = some rt') : SameFamily rt rt' := by
  unfold vforkRestore at h
  split at h
  · split at h
    · injection h with h
      subst h
      exact ⟨rfl, rfl⟩
    · cases h
  · cases h

theorem regionReserve_kin {r : Fin C.nreg} {owner : SlotRef C} {o o' : Own C} {ref : RegionRef C}
    (h : regionReserve r owner o = some (ref, o')) : o'.kin = o.kin := by
  obtain ⟨t, -, rfl⟩ := regionReserve_eq h
  rfl

end Lxp
