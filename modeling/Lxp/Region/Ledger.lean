import Lxp.Run.Step

/-!
# Who holds which region

The part of the runtime that decides region ownership, and its invariant: every region count is the
number of live tasks whose address space names the region plus one for a lease, and every lease is
the snapshot of a current task.  While a handler works on one slot the invariant is kept for all the
others and `LedgerAt` says what that slot and the transaction hold.
-/

open Function LeaseTable RefPool

namespace Lxp

variable {C : Config}
variable {regions : Table (SlotRef C) C.nreg}
variable {held' : Option (RegionRef C)} {mms : Pool (Mm C) C.npool}

structure RegionView (C : Config) where
  alive : C.Slot → Bool
  generation : C.Slot → Nat
  mm : C.Slot → Option (Obj C)
  mms : Pool (Mm C) C.npool
  snapshot : C.Slot → Option (RegionRef C)
  guard : C.Slot → Option (RegionRef C)
  regions : Table (SlotRef C) C.nreg

def Own.regionView (o : Own C) : RegionView C where
  alive := o.alive
  generation := o.generation
  mm := o.mm
  mms := o.mms
  snapshot := o.snapshot
  guard := fun s => (o.guards s).snapshot
  regions := o.regions

namespace RegionView

def slotRef (v : RegionView C) (s : C.Slot) : SlotRef C := ⟨s, v.generation s⟩

def Current (v : RegionView C) (r : SlotRef C) : Prop :=
  v.slotRef r.index = r ∧ v.alive r.index = true

def mmRegion (v : RegionView C) (s : C.Slot) : Option (RegionRef C) :=
  (v.mm s).bind fun m => (v.mms.val m).region

def use (v : RegionView C) (s : C.Slot) : Option (RegionRef C) :=
  if v.alive s then v.mmRegion s else none

theorem use_of_dead {v : RegionView C} {s : C.Slot} (h : v.alive s = false) : v.use s = none := by
  rw [use, h]
  rfl

theorem use_of_alive {v : RegionView C} {s : C.Slot} (h : v.alive s = true) :
    v.use s = v.mmRegion s := by
  rw [use, h, if_pos rfl]

end RegionView

/-- Every lease is a live task's snapshot, and every live task's snapshot is its lease. -/
structure Ledger (v : RegionView C) : Prop where
  counted : Counted v.mms v.mm []
  balanced : Balanced v.regions v.use []
  dead : ∀ t, v.alive t = false → v.mm t = none
  started : ∀ t, v.generation t ≠ 0
  lease : ∀ r owner, (v.regions r).leaseOwner = some owner →
    v.Current owner ∧ v.snapshot owner.index = some (refAt v.regions r)
  kept : ∀ t ref, v.alive t = true → v.snapshot t = some ref →
    LeaseMatches v.regions ref (v.slotRef t) 1 ∧ v.guard t = some ref

/-- The ledger while a handler works on slot `s`: the slot holds at most the lease `held`, the
transaction the address spaces `extra` and the region references `float`. -/
structure LedgerAt (s : C.Slot) (held : Option (RegionRef C)) (extra : List (Obj C))
    (float : List (RegionRef C)) (v : RegionView C) : Prop where
  counted : Counted v.mms v.mm extra
  balanced : Balanced v.regions v.use float
  dead : ∀ t, t ≠ s → v.alive t = false → v.mm t = none
  started : ∀ t, v.generation t ≠ 0
  lease : ∀ r owner, (v.regions r).leaseOwner = some owner →
    (owner.index ≠ s ∧ v.Current owner ∧ v.snapshot owner.index = some (refAt v.regions r)) ∨
      (held = some (refAt v.regions r) ∧ owner = v.slotRef s)
  kept : ∀ t ref, t ≠ s → v.alive t = true → v.snapshot t = some ref →
    LeaseMatches v.regions ref (v.slotRef t) 1 ∧ v.guard t = some ref
  own : ∀ ref, held = some ref → LeaseMatches v.regions ref (v.slotRef s) 1

theorem Ledger.openDead {v : RegionView C} (h : Ledger v) {s : C.Slot}
    (hs : v.alive s = false) : LedgerAt s none [] [] v := by
  refine ⟨h.counted, h.balanced, fun t _ => h.dead t, h.started, fun r owner howner => ?_,
    fun t ref _ => h.kept t ref, fun ref href => nomatch href⟩
  obtain ⟨hcur, hsnap⟩ := h.lease r owner howner
  refine .inl ⟨fun hidx => ?_, hcur, hsnap⟩
  have halive := hcur.2
  rw [hidx, hs] at halive
  cases halive

theorem Ledger.openAlive {v : RegionView C} (h : Ledger v) {s : C.Slot}
    (hs : v.alive s = true) : LedgerAt s (v.snapshot s) [] [] v := by
  refine ⟨h.counted, h.balanced, fun t _ => h.dead t, h.started, fun r owner howner => ?_,
    fun t ref _ => h.kept t ref, fun ref href => (h.kept s ref hs href).1⟩
  obtain ⟨hcur, hsnap⟩ := h.lease r owner howner
  by_cases hidx : owner.index = s
  · subst hidx
    exact .inr ⟨hsnap, hcur.1.symm⟩
  · exact .inl ⟨hidx, hcur, hsnap⟩

namespace LedgerAt

variable {s : C.Slot} {held : Option (RegionRef C)} {extra : List (Obj C)}
  {float : List (RegionRef C)} {v : RegionView C} {ref : RegionRef C}

theorem closeDead (h : LedgerAt s none [] [] v) (hs : v.alive s = false) (hmm : v.mm s = none) :
    Ledger v := by
  refine { h with
      dead := fun t ht => ?_, lease := fun r owner howner => ?_, kept := fun t ref ht href => ?_ }
  · by_cases hts : t = s
    · rw [hts, hmm]
    · exact h.dead t hts ht
  · rcases h.lease r owner howner with ⟨_, hcur, hsnap⟩ | ⟨hheld, _⟩
    · exact ⟨hcur, hsnap⟩
    · cases hheld
  · refine h.kept t ref (fun hts => ?_) ht href
    rw [hts, hs] at ht
    cases ht

theorem closeAlive (h : LedgerAt s held [] [] v) (hs : v.alive s = true)
    (hsnap : v.snapshot s = held) (hguard : ∀ ref, held = some ref → v.guard s = some ref) :
    Ledger v := by
  refine { h with
      dead := fun t ht => ?_, lease := fun r owner howner => ?_, kept := fun t ref ht href => ?_ }
  · refine h.dead t (fun hts => ?_) ht
    rw [hts, hs] at ht
    cases ht
  · rcases h.lease r owner howner with ⟨_, hcur, hs'⟩ | ⟨hheld, rfl⟩
    · exact ⟨hcur, hs'⟩
    · exact ⟨⟨rfl, hs⟩, hsnap.trans hheld⟩
  by_cases hts : t = s
  · subst hts
    rw [hsnap] at href
    exact ⟨h.own ref href, hguard ref href⟩
  · exact h.kept t ref hts ht href

/-! ## What a change must respect -/

structure Apart (s : C.Slot) (v v' : RegionView C) : Prop where
  alive : ∀ t, t ≠ s → v'.alive t = v.alive t
  generation : ∀ t, t ≠ s → v'.generation t = v.generation t
  mm : ∀ t, t ≠ s → v'.mm t = v.mm t
  snapshot : ∀ t, t ≠ s → v'.snapshot t = v.snapshot t
  guard : ∀ t, t ≠ s → v'.guard t = v.guard t

variable {v' : RegionView C} {t : C.Slot} {extra' : List (Obj C)} {float' : List (RegionRef C)}
  {i : Obj C}

theorem Apart.slotRef (ha : Apart s v v') (hts : t ≠ s) : v'.slotRef t = v.slotRef t := by
  rw [RegionView.slotRef, ha.generation t hts]
  rfl

section

variable (h : LedgerAt s held extra float v)
include h

/-- Other leases stay where they are, and the slot's own is where the new state says. -/
theorem change (ha : Apart s v v')
    (hcount : Counted v'.mms v'.mm extra') (hbal : Balanced v'.regions v'.use float')
    (hstart : v'.generation s ≠ 0)
    (hlease : ∀ r owner, (v'.regions r).leaseOwner = some owner →
      owner.index ≠ s ∧ (v.regions r).leaseOwner = some owner ∧
        refAt v'.regions r = refAt v.regions r ∨
      held' = some (refAt v'.regions r) ∧ owner = v'.slotRef s)
    (hkept : ∀ t ref, t ≠ s → LeaseMatches v.regions ref (v.slotRef t) 1 →
      LeaseMatches v'.regions ref (v.slotRef t) 1)
    (hown : ∀ ref, held' = some ref → LeaseMatches v'.regions ref (v'.slotRef s) 1) :
    LedgerAt s held' extra' float' v' := by
  refine ⟨hcount, hbal, fun t hts ht => ?_, fun t => ?_, fun r owner howner => ?_,
    fun t ref hts ht href => ?_, hown⟩
  · rw [ha.mm t hts]
    exact h.dead t hts (by rw [← ha.alive t hts]; exact ht)
  · by_cases hts : t = s
    · rw [hts]
      exact hstart
    · rw [ha.generation t hts]
      exact h.started t
  · rcases hlease r owner howner with ⟨hidx, howner', hat⟩ | hmine
    · rcases h.lease r owner howner' with ⟨_, hcur, hsnap⟩ | ⟨_, rfl⟩
      · refine .inl ⟨hidx, ⟨?_, ?_⟩, ?_⟩
        · rw [ha.slotRef hidx]
          exact hcur.1
        · rw [ha.alive _ hidx]
          exact hcur.2
        · rw [ha.snapshot _ hidx, hat]
          exact hsnap
      · exact absurd rfl hidx
    · exact .inr hmine
  · rw [ha.alive t hts] at ht
    rw [ha.snapshot t hts] at href
    obtain ⟨hmatch, hguard⟩ := h.kept t ref hts ht href
    rw [ha.slotRef hts, ha.guard t hts]
    exact ⟨hkept t ref hts hmatch, hguard⟩

theorem slots (ha : Apart s v v') (hregions : v'.regions = v.regions)
    (hcount : Counted v'.mms v'.mm extra') (hbal : Balanced v'.regions v'.use float')
    (hself : v'.slotRef s = v.slotRef s) : LedgerAt s held extra' float' v' := by
  refine h.change ha hcount hbal ?_ (fun r owner howner => ?_) (fun t ref _ hmatch => ?_)
    (fun ref href => ?_)
  · rw [show v'.generation s = v.generation s from congrArg SlotRef.generation hself]
    exact h.started s
  · rw [hregions] at howner ⊢
    rw [hself]
    rcases h.lease r owner howner with ⟨hidx, _⟩ | hmine
    · exact .inl ⟨hidx, howner, rfl⟩
    · exact .inr hmine
  · rw [hregions]
    exact hmatch
  · rw [hregions, hself]
    exact h.own ref href

/-! ## Steps that leave the table of regions alone -/

/-- Columns of the slot itself may change, as long as its use of a region does not. -/
theorem own_columns (alive : Bool) (snapshot guard : Option (RegionRef C))
    (huse : RegionView.use { v with alive := update v.alive s alive } s = v.use s) :
    LedgerAt s held extra float { v with
      alive := update v.alive s alive
      snapshot := update v.snapshot s snapshot
      guard := update v.guard s guard } := by
  have huse' : RegionView.use { v with
      alive := update v.alive s alive
      snapshot := update v.snapshot s snapshot
      guard := update v.guard s guard } = v.use := by
    funext t
    by_cases hts : t = s
    · rw [hts]
      exact huse
    · simp only [RegionView.use, RegionView.mmRegion, update_of_ne hts]
  refine h.slots ⟨fun t ht => update_of_ne ht _ _, fun _ _ => rfl, fun _ _ => rfl,
    fun t ht => update_of_ne ht _ _, fun t ht => update_of_ne ht _ _⟩ rfl h.counted ?_ rfl
  rw [huse']
  exact h.balanced

theorem setSnapshot (snapshot : Option (RegionRef C)) :
    LedgerAt s held extra float { v with snapshot := update v.snapshot s snapshot } := by
  have hcols := h.own_columns (v.alive s) snapshot (v.guard s) (by rw [update_eq_self])
  rwa [update_eq_self, update_eq_self] at hcols

theorem setGuard (guard : Option (RegionRef C)) :
    LedgerAt s held extra float { v with guard := update v.guard s guard } := by
  have hcols := h.own_columns (v.alive s) (v.snapshot s) guard (by rw [update_eq_self])
  rwa [update_eq_self, update_eq_self] at hcols

/-- A slot without an address space is no user of a region, dead or alive. -/
theorem setDead (hmm : v.mm s = none) :
    LedgerAt s held extra float { v with alive := update v.alive s false } := by
  have huse : RegionView.use { v with alive := update v.alive s false } s = v.use s := by
    simp [RegionView.use, RegionView.mmRegion, hmm]
  have hcols := h.own_columns false (v.snapshot s) (v.guard s) huse
  rwa [update_eq_self, update_eq_self] at hcols

end

/-- A slot that holds no lease may start a new incarnation. -/
theorem renew (h : LedgerAt s none extra float v) : LedgerAt s none extra float
      { v with generation := update v.generation s (v.generation s + 1) } := by
  refine h.change ⟨fun _ _ => rfl, fun t ht => update_of_ne ht _ _, fun _ _ => rfl, fun _ _ => rfl,
    fun _ _ => rfl⟩ h.counted h.balanced ?_ (fun r owner howner => ?_) (fun _ _ _ hmatch => hmatch)
    (fun ref href => nomatch href)
  · show update _ _ _ _ ≠ 0
    rw [update_self]
    omega
  · rcases h.lease r owner howner with ⟨hidx, _⟩ | ⟨hheld, _⟩
    · exact .inl ⟨hidx, howner, rfl⟩
    · cases hheld

/-! ## Address spaces -/

section

variable (h : LedgerAt s held extra float v)
include h

/-- The address-space pool may change where no live task looks. -/
theorem pool {mm : C.Slot → Option (Obj C)} (hcount : Counted mms mm extra')
    (hmm : ∀ t, t ≠ s → mm t = v.mm t) (hval : ∀ t m, v.mm t = some m → mms.val m = v.mms.val m)
    (hs : v.alive s = true → mm s = v.mm s) :
    LedgerAt s held extra' float { v with mms := mms, mm := mm } := by
  have huse : RegionView.use { v with mms := mms, mm := mm } = v.use := by
    funext t
    cases ht : v.alive t
    · simp only [RegionView.use, ht]
      rfl
    have hsame : mm t = v.mm t := by
      by_cases hts : t = s
      · subst hts
        exact hs ht
      · exact hmm t hts
    simp only [RegionView.use, RegionView.mmRegion, hsame]
    cases hm : v.mm t with
    | none => rfl
    | some m => simp only [Option.bind_some, hval t m hm]
  refine h.slots ⟨fun _ _ => rfl, fun _ _ => rfl, hmm, fun _ _ => rfl, fun _ _ => rfl⟩ rfl
    hcount ?_ rfl
  rw [huse]
  exact h.balanced

theorem newMm {x : Mm C} (hnew : v.mms.new x = some (i, mms)) :
    LedgerAt s held (i :: extra) float { v with mms := mms } :=
  h.pool (h.counted.new hnew) (fun _ _ => rfl) (fun _ _ hm => h.counted.new_val hnew hm)
    (fun _ => rfl)

theorem getMm (i : Obj C) : LedgerAt s held (i :: extra) float { v with mms := v.mms.get i } :=
  h.pool (h.counted.get i) (fun _ _ => rfl) (fun _ _ _ => rfl) (fun _ => rfl)

end

theorem putMm (h : LedgerAt s held (i :: extra) float v) (e : Mm C) :
    LedgerAt s held extra float { v with mms := v.mms.put e i } :=
  h.pool (h.counted.put e) (fun _ _ => rfl) (fun _ _ hm => h.counted.put_val e hm) (fun _ => rfl)

/-- A dead slot's column takes or gives up an address space of the transaction. -/
theorem storeMm (h : LedgerAt s held (i :: extra) float v) (hs : v.alive s = false)
    (hmm : v.mm s = none) : LedgerAt s held extra float { v with mm := update v.mm s (some i) } :=
  h.pool (h.counted.store hmm) (fun _ ht => update_of_ne ht _ _) (fun _ _ _ => rfl)
    (fun halive => by rw [hs] at halive; cases halive)

theorem takeMm (h : LedgerAt s held extra float v) (hs : v.alive s = false)
    (hmm : v.mm s = some i) :
    LedgerAt s held (i :: extra) float { v with mm := update v.mm s none } :=
  h.pool (h.counted.take hmm) (fun _ ht => update_of_ne ht _ _) (fun _ _ _ => rfl)
    (fun halive => by rw [hs] at halive; cases halive)

theorem setMm (h : LedgerAt s held extra float v) (x : Mm C) (hfree : ∀ t, v.mm t ≠ some i) :
    LedgerAt s held extra float { v with mms := v.mms.set i x } := by
  refine h.pool (h.counted.set i x) (fun _ _ => rfl) (fun t m hm => ?_) (fun _ => rfl)
  have hmi : m ≠ i := fun hmi => hfree t (hmi ▸ hm)
  exact update_of_ne hmi _ _

/-! ## Regions -/

theorem leaseMatches_congr {owner : SlotRef C} (hcell : regions ref.index = v.regions ref.index)
    (h : LeaseMatches v.regions ref owner 1) : LeaseMatches regions ref owner 1 := by
  unfold LeaseMatches
  rw [hcell]
  exact h

/-- A change of one cell that no other task's snapshot lies in. -/
theorem cell (h : LedgerAt s held extra float v) {k : Fin C.nreg}
    (hbal : Balanced regions v.use float') (hother : ∀ j, j ≠ k → regions j = v.regions j)
    (hlease : ∀ owner, (regions k).leaseOwner = some owner → held' = some (refAt regions k) ∧
      owner = v.slotRef s)
    (hstay : ∀ j, j ≠ k → held = some (refAt v.regions j) → held' = held)
    (hkept : ∀ t ref, t ≠ s → LeaseMatches v.regions ref (v.slotRef t) 1 → ref.index ≠ k)
    (hown : ∀ ref, held' = some ref → LeaseMatches regions ref (v.slotRef s) 1) :
    LedgerAt s held' extra float' { v with regions := regions } := by
  have hat : ∀ j, j ≠ k → refAt regions j = refAt v.regions j := by
    intro j hj
    simp only [refAt, hother j hj]
  refine h.change ⟨fun _ _ => rfl, fun _ _ => rfl, fun _ _ => rfl, fun _ _ => rfl, fun _ _ => rfl⟩
    h.counted hbal (h.started s) (fun r owner howner => ?_)
    (fun t ref hts hmatch => leaseMatches_congr (hother _ (hkept t ref hts hmatch)) hmatch) hown
  by_cases hrk : r = k
  · subst hrk
    exact .inr (hlease owner howner)
  have howner' : (v.regions r).leaseOwner = some owner := by
    rw [← hother r hrk]
    exact howner
  rcases h.lease r owner howner' with ⟨hidx, _⟩ | ⟨hheld, heq⟩
  · exact .inl ⟨hidx, howner', hat r hrk⟩
  · refine .inr ⟨?_, heq⟩
    rw [hstay r hrk hheld, hheld]
    exact congrArg some (hat r hrk).symm

theorem reserve (h : LedgerAt s none extra float v) {k : Fin C.nreg}
    (hr : LeaseTable.reserve v.regions k (v.slotRef s) = some (ref, regions)) :
    LedgerAt s (some ref) extra float { v with regions := regions } := by
  have hbal := h.balanced.reserve hr
  unfold LeaseTable.reserve at hr
  split at hr
  · injection hr with hr
    injection hr with href hregions
    subst href hregions
    refine h.cell hbal (fun j hj => update_of_ne hj _ _) (fun owner howner => ?_)
      (fun j _ hheld => nomatch hheld) (fun t ref hts hmatch hidx => ?_) (fun ref href => ?_)
    · rw [update_self] at howner
      injection howner with howner
      exact ⟨by simp [refAt], howner.symm⟩
    · have hone := hmatch.2.2.1
      rw [hidx] at hone
      omega
    · injection href with href
      subst href
      simp [LeaseMatches]
  · cases hr

/-- The cell of the slot's own lease is nobody else's snapshot. -/
theorem own_ne (h : LedgerAt s (some ref) extra float v) {q : RegionRef C}
    (hts : t ≠ s) (hmatch : LeaseMatches v.regions q (v.slotRef t) 1) : q.index ≠ ref.index := by
  intro hidx
  have hmine := (h.own ref rfl).2.2.2
  have htheirs := hmatch.2.2.2
  rw [hidx, hmine] at htheirs
  injection htheirs with heq
  exact hts (congrArg SlotRef.index heq).symm

theorem held_stay {j : Fin C.nreg} (hj : j ≠ ref.index)
    (hheld : some ref = some (refAt v.regions j)) : held' = some ref := by
  injection hheld with hheld
  exact absurd (congrArg Ref.index hheld).symm hj

section

variable (h : LedgerAt s (some ref) extra float v)
include h

/-- Dropping a lease that is the cell's only reference. -/
theorem releaseIfOwned_eq_put :
    LeaseTable.releaseIfOwned v.regions ref (v.slotRef s) = LeaseTable.put v.regions ref := by
  obtain ⟨_, hgen, hone, howner⟩ := h.own ref rfl
  rw [releaseIfOwned, if_pos ⟨howner, hone, hgen⟩]

theorem put_own : LeaseTable.put v.regions ref =
      update v.regions ref.index ⟨none, 0, (v.regions ref.index).generation + 1⟩ := by
  obtain ⟨hgen0, hgen, hone, _⟩ := h.own ref rfl
  rw [put, if_pos ⟨hgen0, hgen, by omega⟩, drop, if_pos hone]

theorem release :
    LedgerAt s none extra float { v with regions := LeaseTable.put v.regions ref } := by
  have hbal := h.balanced.release (r := ref) (v.slotRef s)
  rw [h.releaseIfOwned_eq_put] at hbal
  refine h.cell hbal ?_ ?_ (fun j hj => held_stay hj)
    (fun t q hts => h.own_ne hts) (fun q hq => nomatch hq)
  · intro j hj
    rw [h.put_own, update_of_ne hj]
  · intro owner howner
    rw [h.put_own, update_self] at howner
    cases howner

/-- The lease becomes a reference in flight, to be stored with the published address space. -/
theorem unlease :
    LedgerAt s none extra (ref :: float)
      { v with regions := setOwner v.regions ref.index none } := by
  obtain ⟨_, hgen, _, howner⟩ := h.own ref rfl
  have hbal := h.balanced.unlease (by rw [howner]; rfl)
  rw [← eq_refAt hgen] at hbal
  refine h.cell hbal (fun j hj => update_of_ne hj _ _) ?_
    (fun j hj => held_stay hj) (fun t q hts => h.own_ne hts) (fun q hq => nomatch hq)
  intro owner howner
  rw [setOwner, update_self] at howner
  cases howner

/-- A slot that starts a new incarnation takes its lease along. -/
theorem reassign : LedgerAt s (some ref) extra float { v with
      generation := update v.generation s (v.generation s + 1)
      regions := setOwner v.regions ref.index (some ⟨s, v.generation s + 1⟩) } := by
  obtain ⟨hgen0, hgen, hone, howner⟩ := h.own ref rfl
  have hcell : ∀ j, j ≠ ref.index →
      setOwner v.regions ref.index (some ⟨s, v.generation s + 1⟩) j = v.regions j :=
    fun j hj => update_of_ne hj _ _
  have hat : ∀ j, refAt (setOwner v.regions ref.index (some ⟨s, v.generation s + 1⟩)) j =
      refAt v.regions j := refAt_update_same v.regions rfl
  refine h.change ⟨fun _ _ => rfl, fun t ht => update_of_ne ht _ _, fun _ _ => rfl, fun _ _ => rfl,
    fun _ _ => rfl⟩ h.counted (h.balanced.setOwner (by rw [howner]; rfl)) ?_ (fun r owner hr => ?_)
    (fun t q hts hmatch => leaseMatches_congr (hcell _ (h.own_ne hts hmatch)) hmatch)
      (fun q hq => ?_)
  · show update _ _ _ _ ≠ 0
    rw [update_self]
    omega
  · by_cases hrk : r = ref.index
    · subst hrk
      refine .inr ⟨by rw [hat, ← eq_refAt hgen], ?_⟩
      have hr' : (setOwner v.regions ref.index (some ⟨s, v.generation s + 1⟩)
          ref.index).leaseOwner = some owner := hr
      rw [setOwner, update_self] at hr'
      injection hr' with hr'
      rw [← hr']
      simp [RegionView.slotRef]
    · have hr' : (v.regions r).leaseOwner = some owner := by
        rw [← hcell r hrk]
        exact hr
      rcases h.lease r owner hr' with ⟨hidx, _⟩ | ⟨hheld, _⟩
      · exact .inl ⟨hidx, hr', hat r⟩
      · injection hheld with hheld
        exact absurd (congrArg Ref.index hheld).symm hrk
  · injection hq with hq
    subst hq
    simp [LeaseMatches, setOwner, hgen0, hgen, hone, RegionView.slotRef]

end

/-- A cell with a reference in flight and a count is nobody's snapshot. -/
theorem float_ne (h : LedgerAt s held extra (ref :: float) v) {q : RegionRef C}
    (hmatch : LeaseMatches v.regions q (v.slotRef t) 1) : q.index ≠ ref.index := by
  intro hidx
  have hlive := h.balanced.floatLive ref List.mem_cons_self
  have hcount := h.balanced.count ref.index
  rw [← hlive, List.count_cons_self] at hcount
  obtain ⟨_, _, hone, howner⟩ := hmatch
  rw [hidx] at hone howner
  have hleased : LeaseTable.lease (v.regions ref.index) = 1 := by
    rw [LeaseTable.lease, howner]
    rfl
  omega

theorem float_unleased (h : LedgerAt s held extra (ref :: float) v) :
    (v.regions ref.index).leaseOwner = none := by
  have hlive := h.balanced.floatLive ref List.mem_cons_self
  cases howner : (v.regions ref.index).leaseOwner with
  | none => rfl
  | some owner =>
    rcases h.lease ref.index owner howner with ⟨hidx, hcur, hsnap⟩ | ⟨hheld, _⟩
    · rw [← hlive] at hsnap
      exact absurd rfl (h.float_ne (h.kept owner.index ref hidx hcur.2 hsnap).1)
    · rw [← hlive] at hheld
      exact absurd rfl (h.float_ne (h.own ref hheld))

theorem getRegion (h : LedgerAt s held extra float v) {limit : Nat}
    (hg : LeaseTable.get v.regions limit ref = some regions) :
    LedgerAt s held extra (ref :: float) { v with regions := regions } := by
  have hbal := h.balanced.get hg
  unfold LeaseTable.get at hg
  split at hg
  · rename_i hcond
    obtain ⟨_, -, hnone, _, _⟩ := hcond
    injection hg with hg
    subst hg
    have hfree : (v.regions ref.index).leaseOwner = none := Option.isNone_iff_eq_none.mp hnone
    have hne : ∀ q (owner : SlotRef C), LeaseMatches v.regions q owner 1 → q.index ≠ ref.index := by
      intro q owner hmatch hidx
      have howner := hmatch.2.2.2
      rw [hidx, hfree] at howner
      cases howner
    refine h.cell hbal (fun j hj => update_of_ne hj _ _) ?_ (fun _ _ _ => rfl)
      (fun t q _ => hne q _) (fun q hq => ?_)
    · intro owner howner
      rw [update_self] at howner
      rw [hfree] at howner
      cases howner
    · have hmatch := h.own q hq
      exact leaseMatches_congr (update_of_ne (hne q _ hmatch) _ _) hmatch
  · cases hg

theorem putRegion (h : LedgerAt s held extra (ref :: float) v) :
    LedgerAt s held extra float { v with regions := LeaseTable.put v.regions ref } := by
  have hbal := h.balanced.put
  have hput : ∀ j, j ≠ ref.index → LeaseTable.put v.regions ref j = v.regions j := by
    intro j hj
    unfold put drop
    split
    · split <;> exact update_of_ne hj _ _
    · rfl
  refine h.cell hbal hput ?_ (fun _ _ _ => rfl)
    (fun t q _ hmatch => h.float_ne hmatch) (fun q hq => ?_)
  · intro owner howner
    have hnone := h.float_unleased
    unfold put drop at howner
    split at howner
    · split at howner
      · rw [update_self] at howner
        cases howner
      · rw [update_self, hnone] at howner
        cases howner
    · rw [hnone] at howner
      cases howner
  · have hmatch := h.own q hq
    exact leaseMatches_congr (hput _ (h.float_ne hmatch)) hmatch

/-! ## Coming and going of tasks -/

theorem takeLive {m : Obj C} (h : LedgerAt s held extra float v) (hs : v.alive s = true)
    (hmm : v.mm s = some m) : LedgerAt s held (m :: extra) ((v.mms.val m).region.toList ++ float)
      { v with mm := update v.mm s none } := by
  have huse : RegionView.use { v with mm := update v.mm s none } = update v.use s none := by
    funext t
    by_cases hts : t = s
    · subst hts
      simp [RegionView.use, RegionView.mmRegion]
    · simp [RegionView.use, RegionView.mmRegion, update_of_ne hts]
  have hregion : v.use s = (v.mms.val m).region := by
    rw [RegionView.use_of_alive hs, RegionView.mmRegion, hmm]
    rfl
  refine h.slots ⟨fun _ _ => rfl, fun _ _ => rfl, fun t ht => update_of_ne ht _ _, fun _ _ => rfl,
    fun _ _ => rfl⟩ rfl (h.counted.take hmm) ?_ rfl
  rw [huse]
  cases hr : (v.mms.val m).region with
  | none =>
    have hnone : update v.use s none = v.use := by
      rw [← hregion.trans hr, update_eq_self]
    rw [hnone]
    exact h.balanced
  | some r => exact h.balanced.lift (hregion.trans hr)

/-- A dead slot with an address space becomes a live task. -/
theorem landLive (h : LedgerAt s held extra (ref :: float) v) (hs : v.alive s = false)
    (hregion : v.mmRegion s = some ref) :
    LedgerAt s held extra float { v with alive := update v.alive s true } := by
  have huse : RegionView.use { v with alive := update v.alive s true } =
      update v.use s (some ref) := by
    funext t
    by_cases hts : t = s
    · subst hts
      simp only [RegionView.use, update_self]
      exact hregion
    · simp [RegionView.use, RegionView.mmRegion, update_of_ne hts]
  refine h.slots ⟨fun t ht => update_of_ne ht _ _, fun _ _ => rfl, fun _ _ => rfl, fun _ _ => rfl,
    fun _ _ => rfl⟩ rfl h.counted ?_ rfl
  rw [huse]
  exact h.balanced.land (RegionView.use_of_dead hs)

end LedgerAt

end Lxp
