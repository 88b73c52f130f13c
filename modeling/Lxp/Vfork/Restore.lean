import Lxp.Region.Safety

/-!
# What a vfork child gives back

A vfork saves its parent's image data, active stack, dynamic pool and arena record in a spare
region; the exec or exit of the child copies them back.  Between the two the parent's extent and
stack pointer stay, so both copies run over the same cells, and nothing after the restore writes the
parent's region any more.
-/

open Function LeaseTable

namespace Lxp

variable {C : Config}

/-! ## Saved cells -/

structure Extent (C : Config) where
  region : Option (RegionRef C)
  regionHi : Nat
  isDynamic : Bool
  stackLo : Nat
deriving DecidableEq

def extentOf (o : Own C) (s : C.Slot) : Option (Extent C) :=
  (o.mm s).map fun m =>
    ⟨(o.mms.val m).region, (o.mms.val m).regionHi, (o.mms.val m).isDynamic, o.stackLo s⟩

/-- Image data below the stack, the stack from `sp` on, the dynamic pool and the arena record. -/
def savedCell (e : Extent C) (p : Fin C.nreg) (sp : Nat) : Cell → Prop
  | .image off => off < e.stackLo - C.regionBase p ∨
      sp - C.regionBase p ≤ off ∧ off < e.regionHi - C.regionBase p
  | .dynPool off => off < if e.isDynamic then C.dynPool.getD 0 else 0
  | .arena _ => True

instance (e : Extent C) (p : Fin C.nreg) (sp : Nat) (c : Cell) :
    Decidable (savedCell e p sp c) := by
  cases c <;> unfold savedCell <;> infer_instance

variable {o : Own C} {e : Extent C} {rt : Runtime C} {child parent : SlotRef C}
  {p ref : RegionRef C}

theorem extentOf_of_space {o' : Own C} {t : C.Slot} (h : o'.space t = o.space t) :
    extentOf o' t = extentOf o t := by
  have hof : ∀ q : Own C, extentOf q t =
      (q.space t).1.map fun m => ⟨m.region, m.regionHi, m.isDynamic, (q.space t).2.1⟩ := by
    intro q
    unfold Own.space
    rw [Option.map_map]
    rfl
  rw [hof, hof, h]

theorem mmRegion_eq_extent (o : Own C) (s : C.Slot) :
    mmRegion o s = (extentOf o s).bind Extent.region := by
  unfold mmRegion extentOf
  cases o.mm s <;> rfl

theorem extentOf_some {s : C.Slot} {m : Obj C} (h : extentOf o s = some e) (hm : o.mm s = some m) :
    e = ⟨(o.mms.val m).region, (o.mms.val m).regionHi, (o.mms.val m).isDynamic, o.stackLo s⟩ := by
  unfold extentOf at h
  rw [hm] at h
  injection h with h
  exact h.symm

theorem Ram.read_of_cells {ram ram' : Ram C} {r r' : Fin C.nreg} (h : ram'.cells r' = ram.cells r)
    (c : Cell) : ram'.read r' c = ram.read r c := by
  injection h with himage h
  injection h with hpool harena
  cases c with
  | image off => exact congrFun himage off
  | dynPool off => exact congrFun hpool off
  | arena off => exact congrFun harena off

theorem Ram.write_cells (ram : Ram C) {r j : Fin C.nreg} (b : UInt8) (c : Cell) (hj : j ≠ r) :
    (ram.write r b c).cells j = ram.cells j := by
  cases c <;> simp only [Ram.write, Ram.cells, update_of_ne hj]

theorem copySpan_in {dst src : Nat → UInt8} {lo hi off : Nat} (h : lo ≤ off ∧ off < hi) :
    copySpan dst src lo hi off = src off :=
  if_pos h

theorem copySpan_out {dst src : Nat → UInt8} {lo hi off : Nat} (h : ¬ (lo ≤ off ∧ off < hi)) :
    copySpan dst src lo hi off = dst off :=
  if_neg h

section Copies

variable {par : C.Slot} {m : Obj C} {p rsnap : Fin C.nreg} {sp : Nat} {c : Cell}
  (he : extentOf o par = some e) (hm : o.mm par = some m) (ram : Ram C)
include he hm

theorem snapshotRam_read (hc : savedCell e p sp c) :
    (snapshotRam par m p rsnap sp o ram).read rsnap c = ram.read p c := by
  have hext := extentOf_some he hm
  subst hext
  cases c with
  | image off =>
    simp only [snapshotRam, Ram.read, update_self, dataEnd, stackSpan]
    by_cases hstack : sp - C.regionBase p ≤ off ∧ off < (o.mms.val m).regionHi - C.regionBase p
    · rw [copySpan_in hstack]
    · rw [copySpan_out hstack, copySpan_in ⟨Nat.zero_le _, hc.resolve_right hstack⟩]
  | dynPool off =>
    simp only [snapshotRam, Ram.read, update_self, dynPoolSize]
    rw [copySpan_in ⟨Nat.zero_le _, hc⟩]
  | arena off => simp only [snapshotRam, Ram.read, update_self]

/-- A restore with the stack pointer of the snapshot brings every saved cell back. -/
theorem restoreRam_read (hsp : e.stackLo ≤ sp ∧ sp ≤ e.regionHi) (hc : savedCell e p sp c) :
    (restoreRam par m p rsnap sp o ram).read p c = ram.read rsnap c := by
  have hext := extentOf_some he hm
  subst hext
  cases c with
  | image off =>
    simp only [restoreRam, Ram.read, update_self, dataEnd, stackSpan]
    rw [if_pos hsp]
    by_cases hstack : sp - C.regionBase p ≤ off ∧ off < (o.mms.val m).regionHi - C.regionBase p
    · rw [copySpan_in hstack]
    · rw [copySpan_out hstack, copySpan_in ⟨Nat.zero_le _, hc.resolve_right hstack⟩]
  | dynPool off =>
    simp only [restoreRam, Ram.read, update_self, dynPoolSize]
    rw [copySpan_in ⟨Nat.zero_le _, hc⟩]
  | arena off => simp only [restoreRam, Ram.read, update_self]

/-- The other cells of the region keep what they have. -/
theorem restoreRam_read_unsaved (hc : ¬ savedCell e p sp c) :
    (restoreRam par m p rsnap sp o ram).read p c = ram.read p c := by
  have hext := extentOf_some he hm
  subst hext
  cases c with
  | image off =>
    obtain ⟨hdata, hstack⟩ := not_or.mp hc
    have himage : copySpan (ram.image p) (ram.image rsnap) 0 (o.stackLo par - C.regionBase p) off =
        ram.image p off := copySpan_out fun h => hdata h.2
    simp only [restoreRam, Ram.read, update_self, dataEnd, stackSpan]
    split
    · rw [copySpan_out hstack, himage]
    · exact himage
  | dynPool off =>
    simp only [restoreRam, Ram.read, update_self]
    exact copySpan_out fun h => hc h.2
  | arena off => exact absurd trivial hc

end Copies

/-! ## The restore -/

/-- A vfork child with the snapshot of its parent, both of them current. -/
structure Lends (o : Own C) (child parent : SlotRef C) (p ref : RegionRef C) (e : Extent C) :
    Prop where
  childCurrent : slotRefIsCurrent o child = true
  parentCurrent : slotRefIsCurrent o parent = true
  link : o.vforkParent child.index = some parent
  snapshot : o.snapshot child.index = some ref
  guard : o.guards child.index = ⟨some parent, some p, some ref⟩
  extent : extentOf o parent.index = some e
  region : e.region = some p

/-- The saved cells of region `p` are those of the snapshot, the others as before. -/
structure Restores (e : Extent C) (p ref : Fin C.nreg) (sp : Nat) (ram ram' : Ram C) : Prop where
  saved : ∀ c, savedCell e p sp c → ram'.read p c = ram.read ref c
  unsaved : ∀ c, ¬ savedCell e p sp c → ram'.read p c = ram.read p c

theorem Restores.of_cells {p ref : Fin C.nreg} {sp : Nat} {ram ram' ram'' : Ram C}
    (h : Restores e p ref sp ram ram') (hc : ram''.cells p = ram'.cells p) :
    Restores e p ref sp ram ram'' :=
  ⟨fun c hs => (Ram.read_of_cells hc c).trans (h.saved c hs),
    fun c hs => (Ram.read_of_cells hc c).trans (h.unsaved c hs)⟩

theorem slotRefIsCurrent_iff {r : SlotRef C} :
    slotRefIsCurrent o r = true ↔
      r.generation ≠ 0 ∧ slotRefAt o r.index = r ∧ o.alive r.index = true := by
  have hat : slotRefAt o r.index = r ↔ o.generation r.index = r.generation := by
    obtain ⟨-, -⟩ := r
    simp [slotRefAt]
  simp [slotRefIsCurrent, hat, and_assoc]

namespace Lends

variable {o' : Own C}

section

variable (h : Lends o child parent p ref e)
include h

theorem child_at : slotRefAt o child.index = child := (slotRefIsCurrent_iff.mp h.childCurrent).2.1

theorem child_alive : o.alive child.index = true := (slotRefIsCurrent_iff.mp h.childCurrent).2.2

theorem parent_at : slotRefAt o parent.index = parent :=
  (slotRefIsCurrent_iff.mp h.parentCurrent).2.1

theorem parent_alive : o.alive parent.index = true := (slotRefIsCurrent_iff.mp h.parentCurrent).2.2

theorem mmRegion_eq : mmRegion o parent.index = some p := by
  rw [mmRegion_eq_extent, h.extent]
  exact h.region

theorem leased (hl : Ledger o.regionView) : LeaseMatches o.regions ref child 1 := by
  have hmatch := (hl.kept child.index ref h.child_alive h.snapshot).1
  rw [show RegionView.slotRef o.regionView child.index = child from h.child_at] at hmatch
  exact hmatch

/-- A live task's region is no snapshot. -/
theorem ne_used (hl : Ledger o.regionView) {s : C.Slot}
    {q : RegionRef C} (hs : o.alive s = true) (hq : mmRegion o s = some q) : ref.index ≠ q.index :=
  hl.balanced.leased_ne_used ((RegionView.use_of_alive hs).trans hq) (h.leased hl)

theorem resources (hr : ResourcesOnly o o') : Lends o' child parent p ref e := by
  obtain ⟨hchild, hparent, hlink, hsnap, hguard, hextent, hregion⟩ := h
  rw [hr]
  exact ⟨hchild, hparent, hlink, hsnap, hguard, hextent, hregion⟩

theorem restorable (hl : Ledger o.regionView) :
    vforkRestorable parent.index ref child o = true := by
  have hmm : (o.mm parent.index).isSome = true := by
    have hextent := h.extent
    unfold extentOf at hextent
    cases hm : o.mm parent.index with
    | none =>
      rw [hm] at hextent
      cases hextent
    | some m => rfl
  obtain ⟨_, hgen, hrefs, howner⟩ := h.leased hl
  simp only [vforkRestorable, h.childCurrent, h.parent_alive, hmm, h.guard, h.parent_at,
    h.mmRegion_eq,
    howner, hrefs, hgen, beq_self_eq_true, Bool.and_self]

end

/-- With parent and child current the restore goes through. -/
theorem restore {sp : Nat} (h : Lends rt.own child parent p ref e)
    (hl : Ledger rt.own.regionView) (hsp : e.stackLo ≤ sp ∧ sp ≤ e.regionHi) :
    ∃ rt', vforkRestore parent.index ref child sp rt = some rt' ∧
      Restores e p.index ref.index sp rt.ram rt'.ram := by
  obtain ⟨m, hm⟩ : ∃ m, rt.own.mm parent.index = some m := by
    have hextent := h.extent
    obtain ⟨m, hm, _⟩ := Option.map_eq_some_iff.mp hextent
    exact ⟨m, hm⟩
  refine ⟨{ rt with
      own := vforkGuardReset child.index rt.own
      ram := restoreRam parent.index m p.index ref.index sp rt.own rt.ram }, ?_,
    fun c hc => restoreRam_read h.extent hm rt.ram hsp hc,
    fun c hc => restoreRam_read_unsaved h.extent hm rt.ram hc⟩
  unfold vforkRestore
  rw [if_pos (h.restorable hl), hm, h.mmRegion_eq]

end Lends

/-! ## The exit of a vfork child -/

theorem exitRestoreParent_restores (h : Lends rt.own child parent p ref e)
    (hl : Ledger rt.own.regionView)
    (hsp : e.stackLo ≤ rt.sched.resumeSp parent.index ∧
      rt.sched.resumeSp parent.index ≤ e.regionHi) :
    Restores e p.index ref.index (rt.sched.resumeSp parent.index) rt.ram
      (exitRestoreParent child.index rt).2.ram := by
  obtain ⟨rt', hres, hback⟩ := h.restore hl hsp
  unfold exitRestoreParent
  rw [h.link, h.snapshot]
  dsimp only
  rw [if_pos h.parentCurrent, h.child_at, hres]
  exact hback

theorem exitReport_ram (s : C.Slot) (parentRef : Option (SlotRef C)) (resume : Bool)
    (status : Nat) (rt : Runtime C) : (exitReport s parentRef resume status rt).2.ram = rt.ram := by
  have hresume : (exitResumeParent s parentRef resume rt).ram = rt.ram := by
    unfold exitResumeParent
    split
    · exact (completeSlot_schedOnly _ _ _).ram
    · rfl
  unfold exitReport
  dsimp only
  split
  · rfl
  · split
    · exact (childEventPublish_groupsOnly _ _ _).ram.trans hresume
    · exact hresume

/-- With the child gone its parent has its memory back. -/
theorem exitEnd_restores (hl : Lends rt.own child parent p ref e)
    (hledger : Ledger rt.own.regionView)
    (hsp : e.stackLo ≤ rt.sched.resumeSp parent.index ∧
      rt.sched.resumeSp parent.index ≤ e.regionHi) :
    Restores e p.index ref.index (rt.sched.resumeSp parent.index) rt.ram
      (exitEnd child.index rt).ram := by
  have hres := procResourcesPut_only child.index rt.own
  have hmaps := clearDeviceMaps_schedOnly { rt with own := procResourcesPut child.index rt.own }
  -- Dropping descriptors, maps and signal frames comes before the restore.
  have hown : (slotSignalReset child.index (clearDeviceMaps
      { rt with own := procResourcesPut child.index rt.own })).own =
      procResourcesPut child.index rt.own := hmaps.own
  have hspEq : (slotSignalReset child.index (clearDeviceMaps
      { rt with own := procResourcesPut child.index rt.own })).sched.resumeSp =
      rt.sched.resumeSp := hmaps.resumeSp
  have hram : (slotSignalReset child.index (clearDeviceMaps
      { rt with own := procResourcesPut child.index rt.own })).ram = rt.ram := hmaps.ram
  unfold exitEnd
  rw [exitReport_ram]
  show Restores e p.index ref.index (rt.sched.resumeSp parent.index) rt.ram
    (exitRestoreParent child.index (slotSignalReset child.index (clearDeviceMaps
      { rt with own := procResourcesPut child.index rt.own }))).2.ram
  generalize slotSignalReset child.index (clearDeviceMaps
    { rt with own := procResourcesPut child.index rt.own }) = rt1 at hown hspEq hram ⊢
  rw [← hspEq] at hsp ⊢
  rw [← hram]
  refine exitRestoreParent_restores ?_ ?_ hsp
  · rw [hown]
    exact hl.resources hres
  · rw [hown, hres.regionView]
    exact hledger

/-! ## The exec of a vfork child

After its restore an exec writes no memory but that of the region it loads into. -/

section Memory

variable (rt : Runtime C)

theorem imageTxnPrepare_ram (img : ImageTxn C) (ppid : Nat) (l : LoadResult) {j : Fin C.nreg}
    (hj : j ≠ img.region.index) :
    (imageTxnPrepare img ppid l rt).2.2.ram.cells j = rt.ram.cells j := by
  have hload := loadRam_cells l rt.ram hj
  unfold imageTxnPrepare
  split
  · rfl
  dsimp only
  split
  · exact hload
  · split
    · exact hload
    · split <;> exact hload

theorem imageTxnPublish_ram (img : ImageTxn C) : (imageTxnPublish img rt).2.2.ram = rt.ram := by
  unfold imageTxnPublish
  split
  · rfl
  have hcall : (if img.copiedText then callPublish rt else (true, rt)).2.ram = rt.ram := by
    split <;> rfl
  generalize (if img.copiedText then callPublish rt else (true, rt)) = q at hcall ⊢
  obtain ⟨_ | _, rt1⟩ := q
  · exact hcall
  dsimp only
  unfold slotPublishImage
  split
  · exact hcall
  rename_i hpub
  split at hpub
  · injection hpub with hpub
    subst hpub
    exact (clearDeviceMaps_schedOnly _).ram.trans hcall
  · cases hpub

theorem imageTxnStart_ram (img : ImageTxn C) : (imageTxnStart img rt).2.ram = rt.ram := by
  have hlaunch := launchSlot_schedOnly img.slot rt
  unfold imageTxnStart
  split
  · generalize launchSlot img.slot rt = q at hlaunch ⊢
    obtain ⟨_ | _, rt1⟩ := q
    · exact hlaunch.ram
    · dsimp only
      split <;> exact hlaunch.ram
  · rfl

theorem imageTxnAbort_ram (img : ImageTxn C) : (imageTxnAbort img rt).2.ram = rt.ram := by
  have habort : (if img.published && rt.own.alive img.slot then abortSlot img.slot rt
      else (true, rt)).2.ram = rt.ram := by
    split
    · exact (abortSlot_schedOnly img.slot rt).ram
    · rfl
  unfold imageTxnAbort
  generalize (if img.published && rt.own.alive img.slot then abortSlot img.slot rt
    else (true, rt)) = q at habort ⊢
  obtain ⟨_ | _, rt1⟩ := q
  · exact habort
  · dsimp only
    split <;> exact habort

section

variable (tx : ExecTxn C)
include tx

theorem execTxnContain_ram : (execTxnContain tx rt).ram = rt.ram := by
  have himage : (execReleaseImage tx rt).2.ram = rt.ram := by
    unfold execReleaseImage
    split
    · exact imageTxnAbort_ram rt _
    · split <;> rfl
  unfold execTxnContain
  dsimp only
  split
  · exact (execTxnReportFailure_groupsOnly _ _).ram.trans himage
  · exact himage

theorem execTxnDetachOld_ram : (execTxnDetachOld tx rt).2.ram = rt.ram := by
  unfold execTxnDetachOld
  split <;> rfl

theorem execReassign_ram : (execReassign tx rt).2.2.ram = rt.ram := by
  unfold execReassign
  dsimp only
  split
  · rfl
  · split <;> rfl

theorem execTxnAbort_ram (e : Errno) : (execTxnAbort tx e rt).ram = rt.ram := by
  unfold execTxnAbort
  split
  · rfl
  split
  · refine (completeSlot_schedOnly _ _ _).ram.trans ?_
    split <;> rfl
  split
  · exact execTxnContain_ram rt tx
  have habort := (abortSlot_schedOnly tx.slot rt).ram
  generalize abortSlot tx.slot rt = q at habort ⊢
  obtain ⟨_ | _, rt1⟩ := q
  · exact habort
  · rw [execTxnContain_ram, execReassign_ram, execTxnDetachOld_ram]
    exact habort

theorem execPublish_ram (img : ImageTxn C) : (execPublish tx img rt).ram = rt.ram := by
  have hpub := imageTxnPublish_ram rt img
  unfold execPublish
  generalize imageTxnPublish img rt = q at hpub ⊢
  obtain ⟨_ | e, img1, rt1⟩ := q
  · dsimp only
    have hstart := imageTxnStart_ram rt1 img1
    generalize imageTxnStart img1 rt1 = q at hstart ⊢
    obtain ⟨_ | e, rt2⟩ := q
    · exact (execTxnResumeParent_schedOnly tx rt2).ram.trans (hstart.trans hpub)
    · exact (execTxnAbort_ram rt2 _ e).trans (hstart.trans hpub)
  · exact (execTxnAbort_ram rt1 _ e).trans hpub

theorem execFinish_ram (l : LoadResult) {j : Fin C.nreg} (hregion : tx.region = some ref)
    (hj : j ≠ ref.index) : (execFinish tx l rt).ram.cells j = rt.ram.cells j := by
  unfold execFinish
  rw [hregion]
  split
  · rename_i newRef hq _
    injection hq with hq
    subst hq
    dsimp only
    generalize himg : ({ slot := tx.slot, region := ref, owner := newRef, pid := tx.pid } :
      ImageTxn C) = img
    have hprep := imageTxnPrepare_ram rt img tx.ppid l
      (show j ≠ img.region.index by rw [← himg]; exact hj)
    generalize imageTxnPrepare img tx.ppid l rt = q at hprep ⊢
    obtain ⟨_ | e, img1, rt1⟩ := q
    · rw [execPublish_ram]
      exact hprep
    · rw [execTxnAbort_ram]
      exact hprep
  · rfl

end

theorem execTxnCommit_ram {tx : ExecTxn C} (hphase : tx.phase = .reserved) :
    (execTxnCommit tx rt).2.2.ram =
      (execRestoreParent { tx with phase := .committed } rt).2.2.ram := by
  generalize hr : execTxnCommit tx rt = r
  rcases execTxnCommit_cases hphase hr with ⟨-, hq⟩ | ⟨tx1, rt1, rt2, o, hq, hsched, -, hend⟩
  · rw [hq]
  rw [hq]
  rcases hend with ⟨e, rfl⟩ | ⟨-, q, hre, rfl⟩
  · exact hsched.ram
  have hreassign := (execTxnDetachOld_ram { rt2 with own := o } tx1).trans hsched.ram
  rw [← execReassign_ram, hre] at hreassign
  obtain ⟨_ | _, tx2, rt3⟩ := q
  · exact hreassign
  · exact (clearDeviceMaps_schedOnly rt3).ram.trans hreassign

end Memory

/-- The commit gives the parent its memory back, and the rest of the exec leaves it alone. -/
theorem execReserved_restores {rt0 : Runtime C} (h0 : RegionsOk rt0) {tx : ExecTxn C}
    (h : ExecReserved rt0 tx ref rt)
    (hslot : tx.slot = child.index) (hparent : tx.parentRef = some parent)
    (hl : Lends rt.own child parent p ref e) (hledger : Ledger rt.own.regionView)
    (hsp : e.stackLo ≤ rt.sched.resumeSp parent.index ∧ rt.sched.resumeSp parent.index ≤ e.regionHi)
    (l : LoadResult) : Restores e p.index ref.index (rt.sched.resumeSp parent.index) rt.ram
      (execReserved tx l rt).ram := by
  have hold : tx.oldRef = child := by
    rw [h.oldRef, hslot]
    exact hl.child_at
  obtain ⟨rt', hres, hback⟩ := hl.restore hledger hsp
  have hcommit : (execTxnCommit tx rt).2.2.ram = rt'.ram := by
    rw [execTxnCommit_ram rt h.phase]
    unfold execRestoreParent
    rw [hparent, hslot]
    dsimp only
    rw [hl.parentCurrent, hl.snapshot, hold]
    dsimp only
    rw [hres]
    rfl
  have hne : p.index ≠ ref.index := (hl.ne_used hledger hl.parent_alive hl.mmRegion_eq).symm
  obtain ⟨hdetached, _, _⟩ := execTxnCommit_holds h0 h rfl
  unfold execReserved
  generalize execTxnCommit tx rt = q at hcommit hdetached ⊢
  obtain ⟨_ | err, tx1, rt1⟩ := q
  · refine hback.of_cells ((execFinish_ram rt1 tx1 l (hdetached rfl).region hne).trans ?_)
    rw [hcommit]
  · refine hback.of_cells ?_
    rw [execTxnAbort_ram, hcommit]

end Lxp
