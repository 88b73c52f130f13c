import Lxp.Family.Exit
import Lxp.Region.Exec

/-!
# Exec in the family

An exec takes the task out of its thread group and puts it back in with the new image.  When the new
image cannot be started the task leaves for good, and its end is reported at once: correctly only if
it is the last task of its group and bears the group's id.
-/

open Function List Bool

namespace Lxp

variable {C : Config}
variable {img : ImageTxn C} {r : Option Errno × ExecTxn C × Runtime C}
variable {rt' : Runtime C}

/-- The only live task of its group, under the group's own id. -/
def soleLeader (o : Own C) (s : C.Slot) : Bool :=
  (groupOf o s).any (fun x => x.tgid == o.pid s) &&
    (List.finRange C.nslot).all fun t => t == s || !(o.alive t && o.group t == o.group s)

variable {o : Own C} {s : C.Slot} {rt : Runtime C}

theorem soleLeader_iff {log : Log} (h : Family o.kin log) {g : Obj C}
    (hg : o.group s = some g) : soleLeader o s = true ↔
      (o.groups.val g).tgid = o.pid s ∧ ∀ t, t ≠ s → o.group t ≠ some g := by
  have hmember : ∀ t, o.alive t = (o.group t).isSome := h.member
  simp only [soleLeader, groupOf, hg, Option.map_some, Option.any_some, and_eq_true,
    beq_iff_eq, all_eq_true, mem_finRange, true_implies, or_eq_true,
    not_eq_true', and_eq_false_iff, beq_eq_false_iff_ne]
  refine and_congr_right fun _ => forall_congr' fun t => ?_
  constructor
  · intro ht hts hgt
    rcases ht with rfl | hdead | hne
    · exact hts rfl
    · rw [hmember, hgt] at hdead
      cases hdead
    · exact hne hgt
  · intro ht
    by_cases hts : t = s
    · exact .inl hts
    · exact .inr (.inr (ht hts))

/-! ## Building an image -/

section Image

variable {k0 : Kin C} {owed : List (Obj C)}

structure SameMembers (o o' : Own C) : Prop where
  alive : o'.alive = o.alive
  group : o'.group = o.group

theorem SameMembers.of_kin {o' : Own C} (h : o'.kin = o.kin) : SameMembers o o' :=
  ⟨congrArg Kin.alive h, congrArg Kin.group h⟩

theorem SameMembers.trans {o' o'' : Own C} (h : SameMembers o o') (h' : SameMembers o' o'') :
    SameMembers o o'' := ⟨h'.alive.trans h.alive, h'.group.trans h.group⟩

theorem groupPut_members (g : Option (Obj C)) (o : Own C) : SameMembers o (groupPut g o) := by
  unfold groupPut
  split <;> exact ⟨rfl, rfl⟩

theorem imagePut_kin (p : ImageProc C) (o : Own C) :
    ∃ o1 : Own C, o1.kin = o.kin ∧ imagePut p o = groupPut p.group o1 :=
  ⟨mmPut p.mm (imageResourcesPut p o), (mmPut_kin _ _).trans (imageResourcesPut_only p o).kin, rfl⟩

theorem imagePut_kinAt {p : ImageProc C} (h : KinAt k0 s (p.group.toList ++ owed) o.kin) :
    KinAt k0 s owed (imagePut p o).kin ∧ SameMembers o (imagePut p o) := by
  obtain ⟨o1, hkin, heq⟩ := imagePut_kin p o
  rw [heq]
  refine ⟨groupPut_kinAt (by rw [hkin]; exact h), ?_⟩
  exact (SameMembers.of_kin hkin).trans (groupPut_members _ _)

theorem imageAlloc_kinAt (h : KinAt k0 s owed o.kin) (hs : ∀ g, k0.group s = some g → g ∈ owed)
    {r : ImageProc C × Own C} (hr : imageAlloc o = r) :
    KinAt k0 s (r.1.group.toList ++ owed) r.2.kin ∧ SameMembers o r.2 ∧
      ∀ g, r.1.group = some g → ∀ t, k0.group t ≠ some g := by
  obtain ⟨_, _, g, groups, _, _, _, _, _, _, heq, _, hgroups⟩ := imageAlloc_eq o
  rw [← hr, heq]
  cases g with
  | none =>
    obtain rfl : groups = o.groups := hgroups
    exact ⟨h, ⟨rfl, rfl⟩, nofun⟩
  | some g =>
    obtain ⟨hat, hfresh⟩ := h.new hs hgroups
    refine ⟨hat, ⟨rfl, rfl⟩, ?_⟩
    rintro _ ⟨⟩
    exact hfresh

/-- The outcome of building a process: its group is the image's, or nothing is left. -/
structure ImageBuilt (k0 : Kin C) (s : C.Slot) (owed : List (Obj C)) (o : Own C)
    (r : Option (ImageProc C) × Own C) : Prop where
  members : SameMembers o r.2
  failed : r.1 = none → KinAt k0 s owed r.2.kin
  built : ∀ p, r.1 = some p → ∃ g, p.group = some g ∧ p.mm.isSome = true ∧
    KinAt k0 s (g :: owed) r.2.kin ∧ ∀ t, k0.group t ≠ some g

theorem procInit_built (h : KinAt k0 s owed o.kin) (hs : ∀ g, k0.group s = some g → g ∈ owed)
    (brk : Bool) : ImageBuilt k0 s owed o (procInit brk o) := by
  unfold procInit
  generalize halloc : imageAlloc o = q
  obtain ⟨hat, hmembers, hfresh⟩ := imageAlloc_kinAt h hs halloc
  obtain ⟨p, o1⟩ := q
  dsimp only
  have hput : ∀ {o2 : Own C}, o2.kin = o1.kin ∨ (∃ g x, p.group = some g ∧
      o2.kin = o1.kin.setGroup g x) → ImageBuilt k0 s owed o (none, imagePut p o2) := by
    intro o2 ho2
    have hat2 : KinAt k0 s (p.group.toList ++ owed) o2.kin ∧ SameMembers o1 o2 := by
      rcases ho2 with hkin | ⟨g, x, hg, hkin⟩
      · exact ⟨by rw [hkin]; exact hat, SameMembers.of_kin hkin⟩
      · refine ⟨by rw [hkin]; exact hat.set (hfresh g hg) x, ?_, ?_⟩
        · exact congrArg Kin.alive hkin
        · exact congrArg Kin.group hkin
    obtain ⟨hdone, hsame⟩ := imagePut_kinAt hat2.1
    exact ⟨(hmembers.trans hat2.2).trans hsame, fun _ => hdone, fun p hp => by cases hp⟩
  split
  · rename_i g f c sh hm hg hf _ _
    have hcon :=
      (installConsole_only f { o1 with groups := o1.groups.set g { tgid := 1, pgid := 1 } }).kin
    generalize installConsole f _ = q at hcon ⊢
    obtain ⟨_ | _, o2⟩ := q
    · exact hput (.inr ⟨g, _, hg, hcon⟩)
    dsimp only
    split
    · refine ⟨hmembers.trans ⟨?_, ?_⟩, nofun, fun p' hp' => ?_⟩
      · exact congrArg Kin.alive hcon
      · exact congrArg Kin.group hcon
      injection hp' with hp'
      subst hp'
      refine ⟨g, hg, by rw [hm]; rfl, ?_, hfresh g hg⟩
      rw [hg] at hat
      rw [show o2.kin = o1.kin.setGroup g { tgid := 1, pgid := 1 } from hcon]
      exact hat.set (hfresh g hg) _
    · exact hput (.inr ⟨g, _, hg, hcon⟩)
  · exact hput (.inl rfl)

/-- An image in the making: its group, if any, is the transaction's. -/
structure ImageKin (k0 : Kin C) (s : C.Slot) (owed : List (Obj C)) (img : ImageTxn C)
    (ppid : Nat) (rt : Runtime C) (r : Option Errno × ImageTxn C × Runtime C) : Prop where
  working : KinAt k0 s (r.2.1.proc.group.toList ++ owed) r.2.2.own.kin
  members : SameMembers rt.own r.2.2.own
  log : r.2.2.log = rt.log
  slot : r.2.1.slot = img.slot
  published : r.2.1.published = img.published
  group : r.1 = none → ∃ g, r.2.1.proc.group = some g ∧
    r.2.2.own.groups.val g = { tgid := img.pid, ppid := ppid, pgid := img.pid }

theorem imageTxnPrepare_kin (h : KinAt k0 s owed rt.own.kin)
    (hs : ∀ g, k0.group s = some g → g ∈ owed) (hproc : img.proc = {}) (ppid : Nat) (l : LoadResult)
    : ImageKin k0 s owed img ppid rt (imageTxnPrepare img ppid l rt) := by
  have hnone : KinAt k0 s (img.proc.group.toList ++ owed) rt.own.kin := by
    rw [hproc]
    exact h
  unfold imageTxnPrepare
  split
  · exact ⟨hnone, ⟨rfl, rfl⟩, rfl, rfl, rfl, nofun⟩
  dsimp only
  split
  · exact ⟨hnone, ⟨rfl, rfl⟩, rfl, rfl, rfl, nofun⟩
  have hbuilt := procInit_built h hs l.brk
  generalize procInit l.brk rt.own = q at hbuilt ⊢
  obtain ⟨_ | p, o⟩ := q
  · refine ⟨?_, hbuilt.members, rfl, rfl, rfl, nofun⟩
    rw [hproc]
    exact hbuilt.failed rfl
  obtain ⟨g, hg, hm, hat, hfresh⟩ := hbuilt.built p rfl
  obtain ⟨m, hm⟩ := Option.isSome_iff_exists.mp hm
  have hset : ∀ tx : ImageTxn C, (setImageObjects tx ppid l p o).kin = o.kin.setGroup g
      { tgid := tx.pid, ppid := ppid, pgid := tx.pid } := by
    intro tx
    unfold setImageObjects
    rw [hm, hg]
    rfl
  have hmembers : ∀ tx : ImageTxn C, SameMembers rt.own (setImageObjects tx ppid l p o) := by
    intro tx
    refine hbuilt.members.trans ⟨?_, ?_⟩
    · exact congrArg Kin.alive (hset tx)
    · exact congrArg Kin.group (hset tx)
  have hwork : ∀ tx : ImageTxn C, KinAt k0 s (p.group.toList ++ owed)
      (setImageObjects tx ppid l p o).kin := by
    intro tx
    rw [hg, hset tx]
    exact hat.set hfresh _
  dsimp only
  split
  · refine ⟨hwork _, hmembers _, rfl, rfl, rfl, fun _ => ⟨g, hg, ?_⟩⟩
    refine (congrArg (fun k : Kin C => k.groups.val g) (hset _)).trans ?_
    exact update_self _ _ _
  · exact ⟨hwork _, hmembers _, rfl, rfl, rfl, nofun⟩

/-! ## Publishing and releasing it -/

theorem imageTxnPublish_kin {r : Option Errno × ImageTxn C × Runtime C}
    (hr : imageTxnPublish img rt = r) : (r.1 ≠ none → r.2.1 = img ∧ SameFamily rt r.2.2) ∧
      (r.1 = none → r.2.1 = { img with published := true, proc := {} } ∧ r.2.2.log = rt.log ∧
        r.2.2.own.kin = { rt.own.kin with
          alive := update rt.own.alive img.slot true
          group := update rt.own.group img.slot img.proc.group }) := by
  have hcall : SameFamily rt (if img.copiedText then callPublish rt else (true, rt)).2 := by
    split
    · exact (callPublish_schedOnly rt).family
    · exact .refl rt
  unfold imageTxnPublish at hr
  split at hr
  · subst hr
    exact ⟨fun _ => ⟨rfl, SameFamily.refl rt⟩, nofun⟩
  generalize (if img.copiedText then callPublish rt else (true, rt)) = q at hcall hr
  obtain ⟨_ | _, rt1⟩ := q
  · subst hr
    exact ⟨fun _ => ⟨rfl, hcall⟩, nofun⟩
  dsimp only at hr
  split at hr
  · subst hr
    exact ⟨fun _ => ⟨rfl, hcall⟩, nofun⟩
  rename_i rt2 hpub
  subst hr
  refine ⟨absurd rfl, fun _ => ⟨rfl, ?_, ?_⟩⟩
  · rw [(clearDeviceMaps_schedOnly rt2).log]
    unfold slotPublishImage at hpub
    split at hpub
    · injection hpub with hpub
      subst hpub
      exact hcall.log
    · cases hpub
  rw [(clearDeviceMaps_schedOnly rt2).own]
  unfold slotPublishImage at hpub
  split at hpub
  · injection hpub with hpub
    subst hpub
    rw [← hcall.kin]
    have halive : rt1.own.alive = rt.own.alive := congrArg Kin.alive hcall.kin
    have hgroup : rt1.own.group = rt.own.group := congrArg Kin.group hcall.kin
    rw [← halive, ← hgroup]
    rfl
  · cases hpub

theorem imageTxnStart_family (img : ImageTxn C) (rt : Runtime C) :
    SameFamily rt (imageTxnStart img rt).2 := by
  unfold imageTxnStart
  split
  · have hlaunch := (launchSlot_schedOnly img.slot rt).family
    generalize launchSlot img.slot rt = q at hlaunch ⊢
    obtain ⟨_ | _, rt1⟩ := q
    · exact hlaunch
    dsimp only
    split
    · exact hlaunch
    · rename_i hcommit
      obtain ⟨-, _, rfl⟩ := Option.map_eq_some_iff.mp hcommit
      exact hlaunch.trans ⟨rfl, rfl⟩
  · exact .refl rt

theorem imageLeaseRelease_kin (img : ImageTxn C) (o : Own C) :
    (imageLeaseRelease img o).kin = o.kin := by
  unfold imageLeaseRelease
  split <;> rfl

/-- The image's own group reference goes before the publish. -/
theorem imageTxnRelease_unpublished_kin (hno : img.published = false)
    (h : KinAt k0 s (img.proc.group.toList ++ owed) o.kin) :
    KinAt k0 s owed (imageTxnRelease img o).kin ∧ SameMembers o (imageTxnRelease img o) := by
  have heq : ∃ o1 : Own C, o1.kin = o.kin ∧ imageTxnRelease img o = groupPut img.proc.group o1 := by
    unfold imageTxnRelease
    rw [hno]
    refine ⟨_, ?_, rfl⟩
    have hres := (imageResourcesPut_only img.proc o).kin
    split
    · exact hres
    · split
      · exact ((mmPut_kin _ _).trans (regionPut_kin _ _)).trans hres
      · exact (mmPut_kin _ _).trans hres
  obtain ⟨o1, hkin, heq⟩ := heq
  rw [heq]
  exact ⟨groupPut_kinAt (by rw [hkin]; exact h),
    (SameMembers.of_kin hkin).trans (groupPut_members _ _)⟩

/-- After the publish it is the slot's that goes. -/
theorem imageTxnRelease_published_kin (hyes : img.published = true)
    (h : KinAt k0 img.slot (o.group img.slot).toList o.kin) :
    KinAt k0 img.slot [] (imageTxnRelease img o).kin := by
  have heq : ∃ o1 : Own C, o1.kin = o.kin ∧ imageTxnRelease img o = procGroupPut img.slot o1 := by
    unfold imageTxnRelease
    rw [hyes]
    refine ⟨_, ?_, rfl⟩
    have hres := (procResourcesPut_only img.slot o).kin
    split
    · exact (regionMmPut_kin _ _).trans hres
    · exact (procMmPut_kin _ _).trans hres
  obtain ⟨o1, hkin, heq⟩ := heq
  rw [heq]
  refine procGroupPut_kinAt ?_
  rw [show o1.group img.slot = o.group img.slot from congrFun (congrArg Kin.group hkin) _, hkin]
  exact h

end Image

/-! ## The end of a task in exec -/

/-- The transaction's record of the task it started with. -/
structure ExecOf (rt0 : Runtime C) (s : C.Slot) (tx : ExecTxn C) : Prop where
  slot : tx.slot = s
  pid : tx.pid = rt0.own.pid s
  ppid : tx.ppid = ((groupOf rt0.own s).map Group.ppid).getD 0

/-- Out of its slot, with `owed` still to be given back. -/
structure ExecOut (rt0 : Runtime C) (s : C.Slot) (owed : List (Obj C)) (rt : Runtime C) :
    Prop where
  working : KinAt rt0.own.kin s owed rt.own.kin
  dead : rt.own.alive s = false
  bare : rt.own.group s = none
  log : rt.log = rt0.log

theorem ExecOut.same {rt0 : Runtime C} {owed : List (Obj C)}
    (h : ExecOut rt0 s owed rt) (hs : SameFamily rt rt') : ExecOut rt0 s owed rt' :=
  ⟨by rw [hs.kin]; exact h.working, (congrFun (congrArg Kin.alive hs.kin) s).trans h.dead,
    (congrFun (congrArg Kin.group hs.kin) s).trans h.bare, hs.log.trans h.log⟩

theorem ExecOut.members {rt0 : Runtime C} {owed owed' : List (Obj C)}
    (h : ExecOut rt0 s owed rt) (hm : SameMembers rt.own o)
    (hat : KinAt rt0.own.kin s owed' o.kin) : ExecOut rt0 s owed' { rt with own := o } :=
  ⟨hat, (congrFun hm.alive s).trans h.dead, (congrFun hm.group s).trans h.bare, h.log⟩

theorem procChildReset_kin (hdead : o.alive s = false)
    (hnone : o.group s = none) : (procChildReset s o).kin = o.kin := by
  have halive : update o.alive s false = o.alive := by rw [← hdead, update_eq_self]
  have hgroup : update o.group s none = o.group := by rw [← hnone, update_eq_self]
  show Kin.mk (update o.alive s false) (update o.group s none) o.groups o.nextPid = o.kin
  rw [halive, hgroup]
  rfl

theorem Leaves.set {k k1 : Kin C} {gp : Obj C} (h : Leaves k s unchanged k1)
    (x' : Group) : Leaves k s (onGroup gp x') (k1.setGroup gp x') := by
  refine ⟨h.alive, h.group, h.nextPid, h.counted.set gp x', fun t i hts ht => ?_⟩
  rw [Kin.setGroup_val, h.vals t i hts ht]
  rfl

/-- The end of the sole task of a group, already out of its slot, as its parent hears of it. -/
theorem Reported.leave (admits : Group → Prop) {k : Kin C}
    {g : Obj C} {status : Nat} (h : Family k rt.log) (hg : k.group s = some g)
    (hlast : ∀ t, t ≠ s → k.group t ≠ some g) (hleft : Leaves k s unchanged rt.own.kin)
    (hr : Reported (k.groups.val g).ppid ⟨(k.groups.val g).tgid, status, .exited⟩ rt rt') :
    FamilyStep admits k rt.log rt'.own.kin rt'.log := by
  have hcases : ∀ {t i}, rt.own.group t = some i → t ≠ s ∧ k.group t = some i ∧
      rt.own.groups.val i = k.groups.val i := fun ht => hleft.cases ht
  cases hr with
  | orphan hnone hsame =>
    rw [hsame.log, hsame.kin]
    refine .last hg hlast (.inr ?_) hleft
    rintro ⟨t, i, ht, hid⟩
    have hts : t ≠ s := by
      rintro rfl
      obtain rfl : g = i := Option.some.inj (hg.symm.trans ht)
      exact absurd hid (h.ids hg).1.ne'
    have htask : isTaskOf rt.own (k.groups.val g).ppid t = true := by
      refine isTaskOf_iff.mpr ⟨?_, i, hleft.kept hts ht, ?_⟩
      · show rt.own.kin.alive t = true
        rw [hleft.alive, update_of_ne hts, h.member, ht]
        rfl
      · rw [← hid]
        exact congrArg Group.tgid (hleft.vals t i hts ht)
    rw [hnone t] at htask
    cases htask
  | parent hp hgp hd hk =>
    rename_i gp x'
    obtain ⟨_, gp', hgp', hid⟩ := isTaskOf_iff.mp hp
    obtain rfl : gp = gp' := Option.some.inj (hgp.symm.trans hgp')
    obtain ⟨_, hgk, hval⟩ := hcases hgp
    rw [hval] at hd hid
    rw [hk]
    exact .report hg hlast hgk hid rfl rfl hd (hleft.set x')

theorem execTxnResumeParent_ids (tx : ExecTxn C) (rt : Runtime C) :
    (execTxnResumeParent tx rt).1.slot = tx.slot ∧ (execTxnResumeParent tx rt).1.pid = tx.pid ∧
      (execTxnResumeParent tx rt).1.ppid = tx.ppid := by
  unfold execTxnResumeParent
  split
  · split <;> exact ⟨rfl, rfl, rfl⟩
  · exact ⟨rfl, rfl, rfl⟩

section End

variable {admits : Group → Prop} {rt0 : Runtime C} {tx : ExecTxn C}

/-- The task that asks for an exec is alone in its group. -/
structure ExecAlone (rt0 : Runtime C) (s : C.Slot) : Prop where
  family : Family rt0.own.kin rt0.log
  alive : rt0.own.alive s = true
  sole : soleLeader rt0.own s = true

section

variable (h0 : ExecAlone rt0 s) (htx : ExecOf rt0 s tx)
include h0 htx

theorem execEnd_run
    (h : ExecOut rt0 s tx.saved.group.toList rt) : FamilyRun admits rt0 (execEnd tx rt) := by
  obtain ⟨g, hg⟩ := Option.isSome_iff_exists.mp ((h0.family.member s).symm.trans h0.alive)
  obtain ⟨hleader, hlast⟩ := (soleLeader_iff h0.family hg).mp h0.sole
  have hppid : tx.ppid = (rt0.own.kin.groups.val g).ppid := by
    rw [htx.ppid, groupOf, show rt0.own.group s = some g from hg]
    rfl
  have hpid : tx.pid = (rt0.own.kin.groups.val g).tgid := htx.pid.trans hleader.symm
  have hsaved : KinAt rt0.own.kin s (tx.saved.group.toList ++ []) rt.own.kin := by
    rw [append_nil]
    exact h.working
  have hput := imagePut_kinAt hsaved
  have hout := h.members hput.2 hput.1
  have hids := execTxnResumeParent_ids { tx with saved := {} }
    { rt with own := imagePut tx.saved rt.own }
  have hresume := (execTxnResumeParent_schedOnly { tx with saved := {} }
    { rt with own := imagePut tx.saved rt.own }).family
  unfold execEnd execTxnReportFailure
  dsimp only
  generalize execTxnResumeParent { tx with saved := {} }
    { rt with own := imagePut tx.saved rt.own } = q at hids hresume ⊢
  obtain ⟨tx1, rt1⟩ := q
  obtain ⟨hslot1, hpid1, hppid1⟩ := hids
  have hout1 := hout.same hresume
  rw [hslot1, htx.slot, hpid1, hppid1, hpid, hppid]
  have hreport := reapToParent_reported (rt0.own.kin.groups.val g).ppid
    (rt0.own.kin.groups.val g).tgid 127 (!refIsCurrent rt1.own tx1.parentRef) rt1
  have honly := childEventPublish_groupsOnly (rt0.own.kin.groups.val g).ppid
    ⟨(rt0.own.kin.groups.val g).tgid, 127, .exited, !refIsCurrent rt1.own tx1.parentRef⟩ rt1
  change GroupsOnly rt1 (reapToParent _ _ _ _ rt1) at honly
  generalize reapToParent (rt0.own.kin.groups.val g).ppid (rt0.own.kin.groups.val g).tgid 127
    (!refIsCurrent rt1.own tx1.parentRef) rt1 = rt2 at hreport honly ⊢
  have hleft := hout1.working.left hout1.dead hout1.bare
  have hstep := Reported.leave admits (by rw [hout1.log]; exact h0.family) hg hlast hleft hreport
  rw [hout1.log] at hstep
  refine (FamilyRun.of_step hstep).trans (SameFamily.run ⟨?_, rfl⟩)
  refine procChildReset_kin ?_ ?_
  · rw [honly.own]
    exact hout1.dead
  · rw [honly.own]
    exact hout1.bare

theorem execTxnContain_none_run (himage : tx.image = none)
    (h : ExecOut rt0 s tx.saved.group.toList rt) : FamilyRun admits rt0 (execTxnContain tx rt) := by
  have hrelease : (execReleaseImage tx rt).1 = true ∧ SameFamily rt (execReleaseImage tx rt).2 := by
    unfold execReleaseImage
    rw [himage]
    dsimp only
    split
    · refine ⟨rfl, ?_, rfl⟩
      split <;> rfl
    · exact ⟨rfl, SameFamily.refl rt⟩
  unfold execTxnContain
  dsimp only
  rw [if_pos hrelease.1]
  exact execEnd_run h0 htx (h.same hrelease.2)

theorem execTxnContain_unpublished_run (himage : tx.image = some img) (hno : img.published = false)
    (h : ExecOut rt0 s (img.proc.group.toList ++ tx.saved.group.toList) rt) :
    FamilyRun admits rt0 (execTxnContain tx rt) := by
  obtain ⟨hat, hmembers⟩ := imageTxnRelease_unpublished_kin hno h.working
  have hout := h.members hmembers hat
  have heq : execReleaseImage tx rt =
      (true, { rt with own := imageLeaseRelease img (imageTxnRelease img rt.own) }) := by
    unfold execReleaseImage
    rw [himage]
    unfold imageTxnAbort
    simp only [hno, Bool.false_and, Bool.false_eq_true, if_false]
  unfold execTxnContain
  rw [heq]
  exact execEnd_run h0 htx (hout.same ⟨imageLeaseRelease_kin _ _, rfl⟩)

end

/-- Back in its slot with the old group. -/
structure ExecIn (rt0 : Runtime C) (s : C.Slot) (rt : Runtime C) : Prop where
  working : KinAt rt0.own.kin s (rt0.own.group s).toList rt.own.kin
  alive : rt.own.alive s = rt0.own.alive s
  group : rt.own.group s = rt0.own.group s
  log : rt.log = rt0.log

theorem ExecIn.same (h : ExecIn rt0 s rt) (hs : SameFamily rt rt') : ExecIn rt0 s rt' :=
  ⟨by rw [hs.kin]; exact h.working, (congrFun (congrArg Kin.alive hs.kin) s).trans h.alive,
    (congrFun (congrArg Kin.group hs.kin) s).trans h.group, hs.log.trans h.log⟩

theorem ExecIn.run (h : ExecIn rt0 s rt) : FamilyRun admits rt0 rt := by
  obtain ⟨hsteady, hvals⟩ := h.working.back h.alive h.group
  refine .of_step ?_
  rw [h.log]
  exact .steady hsteady fun t g ht => by rw [hvals t g ht]

theorem execTxnContain_published_run (h0 : ExecAlone rt0 s) (htx : ExecOf rt0 s tx)
    (hsaved : tx.saved.group = none) (himage : tx.image = some img) (hyes : img.published = true)
    (hslot : img.slot = s) (h : ExecIn rt0 s rt) : FamilyRun admits rt0 (execTxnContain tx rt) := by
  have hlive : rt.own.alive img.slot = true := by
    rw [hslot, h.alive]
    exact h0.alive
  have habort := (abortSlot_schedOnly img.slot rt).family
  unfold execTxnContain execReleaseImage
  rw [himage]
  dsimp only
  unfold imageTxnAbort
  rw [hyes, hlive]
  generalize abortSlot img.slot rt = q at habort ⊢
  obtain ⟨_ | _, rt1⟩ := q
  · exact (h.same habort).run
  have h1 := h.same habort
  have hat : KinAt rt0.own.kin img.slot (rt1.own.group img.slot).toList rt1.own.kin := by
    rw [hslot, h1.group]
    exact h1.working
  have hput := imageTxnRelease_published_kin hyes hat
  rw [hslot] at hput ⊢
  have hout : ExecOut rt0 s tx.saved.group.toList
      (slotSignalReset s (primarySlotClear s (setRunnable s false
        (slotProcReset s { rt1 with own := imageTxnRelease img rt1.own })))) := by
    rw [hsaved]
    refine ⟨?_, update_self _ _ _, update_self _ _ _, h1.log⟩
    exact hput.columns (fun _ ht => update_of_ne ht _ _) (fun _ ht => update_of_ne ht _ _) rfl rfl
  exact execEnd_run h0 htx (hout.same ⟨imageLeaseRelease_kin _ _, rfl⟩)

/-! ## After the commit -/

theorem execAdoptOldResources_kin {k0 : Kin C} {r : ExecTxn C × ImageTxn C × Own C}
    (hr : execAdoptOldResources tx img o = r)
    (h : KinAt k0 s (img.proc.group.toList ++ tx.saved.group.toList) o.kin) :
    KinAt k0 s tx.saved.group.toList r.2.2.kin ∧ SameMembers o r.2.2 ∧
      r.1 = { tx with saved := {} } ∧ r.2.1.proc.group = tx.saved.group ∧
      r.2.1.slot = img.slot ∧ r.2.1.published = img.published := by
  have hres : (fsContextPut img.proc.fsContext (filesPut img.proc.files o)).kin = o.kin :=
    ((filesPut_only _ o).trans (fsContextPut_only _ _)).kin
  have hput : KinAt k0 s tx.saved.group.toList
      (groupPut img.proc.group (fsContextPut img.proc.fsContext (filesPut img.proc.files o))).kin :=
    groupPut_kinAt (by rw [hres]; exact h)
  have hsig := (sighandPut_only tx.saved.sighand
    (groupPut img.proc.group (fsContextPut img.proc.fsContext (filesPut img.proc.files o)))).kin
  unfold execAdoptOldResources at hr
  subst hr
  refine ⟨by rw [hsig]; exact hput, ?_, rfl, rfl, rfl, rfl⟩
  exact ((SameMembers.of_kin hres).trans (groupPut_members _ _)).trans (SameMembers.of_kin hsig)

theorem execPublish_run (h0 : ExecAlone rt0 s) (htx : ExecOf rt0 s tx) (howns : ExecOwns tx)
    (hsaved : tx.saved = {}) (hslot : img.slot = s) (hno : img.published = false)
    (hgroup : img.proc.group = rt0.own.group s) (h : ExecOut rt0 s (rt0.own.group s).toList rt) :
    FamilyRun admits rt0 (execPublish tx img rt) := by
  unfold execPublish
  generalize hpub : imageTxnPublish img rt = q
  obtain ⟨hfail, hok⟩ := imageTxnPublish_kin hpub
  obtain ⟨_ | e, img1, rt1⟩ := q
  · obtain ⟨himg, hlog, hkin⟩ := hok rfl
    dsimp only
    subst himg
    have hin : ExecIn rt0 s rt1 := by
      refine ⟨?_, ?_, ?_, hlog.trans h.log⟩
      · rw [hkin, hslot]
        exact h.working.columns (fun _ ht => update_of_ne ht _ _) (fun _ ht => update_of_ne ht _ _)
          rfl rfl
      · refine (congrFun (congrArg Kin.alive hkin) s).trans ?_
        rw [h0.alive, hslot]
        exact update_self _ _ _
      · refine (congrFun (congrArg Kin.group hkin) s).trans ?_
        rw [← hgroup, hslot]
        exact update_self _ _ _
    have hstart := imageTxnStart_family { img with published := true, proc := {} } rt1
    generalize imageTxnStart { img with published := true, proc := {} } rt1 = q at hstart ⊢
    obtain ⟨_ | e, rt2⟩ := q
    · have hresume := (execTxnResumeParent_schedOnly tx rt2).family
      exact ((hin.same hstart).same (hresume.trans ⟨rfl, rfl⟩)).run
    dsimp only
    have howns' : ExecOwns { tx with
        image := some { img with published := true, proc := {} }, phase := .published } :=
      ⟨howns.saved, howns.detached, howns.running, rfl, by simp, by simp⟩
    rw [execTxnAbort_contains howns']
    refine execTxnContain_published_run h0 { htx with } ?_ rfl rfl hslot (hin.same hstart)
    rw [hsaved]
  · obtain ⟨himg, hsame⟩ := hfail (by simp)
    dsimp only
    subst himg
    rw [execTxnAbort_contains (howns.withImage img1)]
    refine execTxnContain_unpublished_run h0 { htx with } rfl hno (ExecOut.same ?_ hsame)
    rw [hgroup, hsaved, show (({} : ImageProc C).group).toList = [] from rfl, append_nil]
    exact h

theorem execFinish_run (h0 : ExecAlone rt0 s) (htx : ExecOf rt0 s tx) (howns : ExecOwns tx)
    (hsaved : tx.saved.group = rt0.own.group s) (hregion : tx.region ≠ none)
    (hnew : tx.newRef ≠ none) (h : ExecOut rt0 s (rt0.own.group s).toList rt) (l : LoadResult) :
    FamilyRun admits rt0 (execFinish tx l rt) := by
  have howed : ∀ g, rt0.own.kin.group s = some g → g ∈ (rt0.own.group s).toList := by
    intro g hg
    rw [show rt0.own.group s = some g from hg]
    exact mem_singleton.mpr rfl
  unfold execFinish
  split
  · rename_i ref newRef href hnewRef
    dsimp only
    generalize himg : ({ slot := tx.slot, region := ref, owner := newRef, pid := tx.pid } :
      ImageTxn C) = img
    have hproc : img.proc = {} := by rw [← himg]
    have hprep := imageTxnPrepare_kin h.working howed hproc tx.ppid l
    generalize imageTxnPrepare img tx.ppid l rt = q at hprep ⊢
    obtain ⟨hat, hmembers, hlog, hslot, hpub, _⟩ := hprep
    obtain ⟨r, img1, rt1⟩ := q
    rw [← himg] at hslot hpub
    have hout : ExecOut rt0 s (img1.proc.group.toList ++ tx.saved.group.toList) rt1 := by
      rw [hsaved]
      exact ⟨hat, (congrFun hmembers.alive s).trans h.dead,
        (congrFun hmembers.group s).trans h.bare, hlog.trans h.log⟩
    cases r with
    | none =>
      dsimp only
      generalize hadopt : execAdoptOldResources { tx with phase := .imageReady } img1 rt1.own = q
      obtain ⟨hat2, hmembers2, htx2, hgroup2, hslot2, hpub2⟩ :=
        execAdoptOldResources_kin hadopt hout.working
      obtain ⟨tx2, img2, o⟩ := q
      subst htx2
      have htx' : ExecOf rt0 s { tx with phase := .imageReady, saved := {} } := { htx with }
      refine execPublish_run h0 htx' ⟨rfl, howns.detached, howns.running, rfl, by simp, by simp⟩ rfl
        (hslot2.trans (hslot.trans htx.slot)) (hpub2.trans hpub) (hgroup2.trans hsaved)
        (hout.members hmembers2 ?_)
      rw [← hsaved]
      exact hat2
    | some e =>
      dsimp only
      rw [execTxnAbort_contains (howns.withImage img1)]
      exact execTxnContain_unpublished_run h0 { htx with } rfl hpub hout
  · rename_i hnot
    obtain ⟨ref, href⟩ := Option.ne_none_iff_exists'.mp hregion
    obtain ⟨newRef, hnewRef⟩ := Option.ne_none_iff_exists'.mp hnew
    exact absurd hnewRef (hnot ref newRef href)

/-! ## The commit -/

/-- Still in its slot, with the old image attached. -/
structure ExecStays (rt0 : Runtime C) (s : C.Slot) (tx : ExecTxn C) (rt : Runtime C) : Prop where
  of : ExecOf rt0 s tx
  same : SameFamily rt0 rt
  attached : tx.oldDetached = false
  image : tx.image = none

theorem ExecStays.step (h : ExecStays rt0 s tx rt) (hs : SameFamily rt rt') :
    ExecStays rt0 s tx rt' := { h with same := h.same.trans hs }

/-- Out of its slot, with the old group in the transaction's hands. -/
structure ExecGone (rt0 : Runtime C) (s : C.Slot) (tx : ExecTxn C) (rt : Runtime C) : Prop where
  of : ExecOf rt0 s tx
  owns : ExecOwns tx
  image : tx.image = none
  saved : tx.saved.group = rt0.own.group s
  newRef : tx.newRef ≠ none
  out : ExecOut rt0 s (rt0.own.group s).toList rt

theorem ExecGone.contain_run (h0 : ExecAlone rt0 s) (h : ExecGone rt0 s tx rt) :
    FamilyRun admits rt0 (execTxnContain tx rt) :=
  execTxnContain_none_run h0 h.of h.image (by rw [h.saved]; exact h.out)

theorem releaseOldLease_kin (tx : ExecTxn C) (o : Own C) : (releaseOldLease tx o).kin = o.kin := by
  unfold releaseOldLease
  split <;> rfl

theorem execTxnDetachOld_kin (h0 : Family rt0.own.kin rt0.log) (h : ExecStays rt0 s tx rt)
    {r : ExecTxn C × Runtime C} (hr : execTxnDetachOld tx rt = r) :
    ExecOut rt0 s (rt0.own.group s).toList r.2 ∧ ∃ saved mask, saved.mm = none ∧
      saved.group = rt0.own.group s ∧
      r.1 = { tx with saved := saved, savedMask := mask, oldDetached := true } := by
  obtain rfl : s = tx.slot := h.of.slot.symm
  have hgroup : rt.own.group tx.slot = rt0.own.group tx.slot :=
    congrFun (congrArg Kin.group h.same.kin) tx.slot
  have hopened : KinAt rt0.own.kin tx.slot (rt0.own.group tx.slot).toList rt.own.kin := by
    rw [h.same.kin]
    exact KinAt.opened h0.counted tx.slot
  unfold execTxnDetachOld at hr
  rw [h.attached] at hr
  simp only [false_eq_true] at hr
  generalize hcl : { rt.own with
      files := update rt.own.files tx.slot none
      fsContext := update rt.own.fsContext tx.slot none
      sighand := update rt.own.sighand tx.slot none
      group := update rt.own.group tx.slot none } = o1 at hr
  have hkin : (regionMmPut tx.slot o1).kin =
      { rt.own.kin with group := update rt.own.group tx.slot none } := by
    rw [regionMmPut_kin, ← hcl]
    rfl
  generalize regionMmPut tx.slot o1 = o at hkin hr
  have hgroups : o.groups = rt.own.groups := congrArg Kin.groups hkin
  have hpid : o.nextPid = rt.own.nextPid := congrArg Kin.nextPid hkin
  subst hr
  refine ⟨⟨?_, update_self _ _ _, ?_, h.same.log⟩, _, _, rfl, hgroup, rfl⟩
  · refine hopened.columns (fun t ht => ?_) (fun t ht => ?_) hgroups hpid
    · exact (update_of_ne ht _ _).trans (congrFun (congrArg Kin.alive hkin) t)
    · exact (congrFun (congrArg Kin.group hkin) t).trans (update_of_ne ht _ _)
  · exact (congrFun (congrArg Kin.group hkin) tx.slot).trans (update_self _ _ _)

theorem execReassign_family (tx : ExecTxn C) (rt : Runtime C) {r : Bool × ExecTxn C × Runtime C}
    (hr : execReassign tx rt = r) : SameFamily rt r.2.2 ∧ ∃ ref,
      r.2.1 = { tx with slotReassigned := true, newRef := some ref } := by
  unfold execReassign at hr
  dsimp only at hr
  split at hr
  · subst hr
    exact ⟨⟨rfl, rfl⟩, _, rfl⟩
  split at hr
  · subst hr
    exact ⟨⟨rfl, rfl⟩, _, rfl⟩
  · rename_i hre
    subst hr
    obtain ⟨_, _, rfl⟩ := Option.map_eq_some_iff.mp hre
    exact ⟨⟨rfl, rfl⟩, _, rfl⟩

theorem execDetach_gone (h0 : Family rt0.own.kin rt0.log) (h : ExecStays rt0 s tx rt)
    (hphase : tx.phase = .committed) (hrun : tx.terminal = false) {r : ExecTxn C × Runtime C}
    (hr : execTxnDetachOld tx rt = r) {q : Bool × ExecTxn C × Runtime C}
    (hq : execReassign r.1 r.2 = q) : ExecGone rt0 s q.2.1 q.2.2 ∧ q.2.1.region = tx.region := by
  obtain ⟨hout, saved, mask, hmm, hgroup, htx⟩ := execTxnDetachOld_kin h0 h hr
  obtain ⟨hsame, ref, htx'⟩ := execReassign_family r.1 r.2 hq
  rw [htx] at htx'
  rw [htx']
  refine ⟨⟨{ h.of with }, ?_, h.image, hgroup, by simp, hout.same hsame⟩, rfl⟩
  refine ⟨hmm, rfl, hrun, ?_, ?_⟩
  · rw [hphase]
    rfl
  · rw [hphase]
    decide

/-- A transaction that is already closed, or not yet committed, leaves the family alone. -/
theorem execTxnAbort_uncommitted (h : tx.terminal = true ∨ tx.phase.beforeCommit = true) (e : Errno)
    (rt : Runtime C) : SameFamily rt (execTxnAbort tx e rt) := by
  unfold execTxnAbort
  split
  · exact .refl rt
  rename_i hopen
  have hbefore : tx.phase.beforeCommit = true :=
    h.resolve_left fun hterm => hopen (.inr (.inr hterm))
  rw [if_pos hbefore]
  refine .trans ?_ (completeSlot_schedOnly _ _ _).family
  split
  · exact .refl rt
  · exact .setOwn (releaseOldLease_kin tx rt.own)

theorem execTxnAbort_stays_run (h0 : ExecAlone rt0 s) (h : ExecStays rt0 s tx rt)
    (hphase : tx.phase = .committed) (e : Errno) : FamilyRun admits rt0 (execTxnAbort tx e rt) := by
  by_cases hterm : tx.terminal = true
  · exact (h.same.trans (execTxnAbort_uncommitted (.inl hterm) e rt)).run
  rw [not_eq_true] at hterm
  have hnot : ¬ (tx.phase = .aborted ∨ tx.phase = .finished ∨ tx.terminal = true) := by
    rw [hphase, hterm]
    decide
  have hbefore : tx.phase.beforeCommit = false := by
    rw [hphase]
    rfl
  have habort := (abortSlot_schedOnly tx.slot rt).family
  unfold execTxnAbort
  rw [if_neg hnot, hbefore, h.attached]
  generalize abortSlot tx.slot rt = q at habort ⊢
  obtain ⟨_ | _, rt1⟩ := q
  · exact (h.same.trans (habort.trans (SameFamily.setOwn (releaseOldLease_kin tx rt1.own)))).run
  · exact (execDetach_gone h0.family (h.step habort) hphase hterm rfl rfl).1.contain_run h0

theorem execRestoreParent_stays (h : ExecStays rt0 s tx rt) (hr : execRestoreParent tx rt = r) :
    ExecStays rt0 s r.2.1 r.2.2 ∧ r.2.1.phase = tx.phase ∧ r.2.1.region = tx.region ∧
      (r.1 = none → r.2.1.terminal = tx.terminal) := by
  unfold execRestoreParent at hr
  split at hr
  · subst hr
    exact ⟨h, rfl, rfl, fun _ => rfl⟩
  dsimp only at hr
  split at hr
  · subst hr
    exact ⟨{ h with
        of := { h.of with }, same := h.same.trans (vforkContainStale_family _ _) }, rfl, rfl,
      nofun⟩
  rename_i rt1 hres
  subst hr
  have hsame : SameFamily rt rt1 := by
    split at hres
    · exact vforkRestore_family hres
    · cases hres
  exact ⟨{ h with
      of := { h.of with }, same := h.same.trans (hsame.trans ⟨rfl, rfl⟩) }, rfl, rfl, fun _ => rfl⟩

/-- A committed transaction has taken the task out; a failed commit aborts. -/
theorem execTxnCommit_run (admits : Group → Prop) (h0 : ExecAlone rt0 s) (h : ExecStays rt0 s tx rt)
    (hphase : tx.phase = .reserved) (hrun : tx.terminal = false) (hr : execTxnCommit tx rt = r) :
    (r.1 = none → ExecGone rt0 s r.2.1 r.2.2 ∧ r.2.1.region = tx.region) ∧
      (r.1 ≠ none → ∀ e, FamilyRun admits rt0 (execTxnAbort r.2.1 e r.2.2)) := by
  have hcommitted : ExecStays rt0 s { tx with phase := .committed } rt :=
    { h with of := { h.of with } }
  rcases execTxnCommit_cases hphase hr with ⟨hne, hq⟩ | ⟨tx1, rt1, rt2, o, hq, hsched, hres, hend⟩
  · obtain ⟨hstays, hphase1, -⟩ := execRestoreParent_stays hcommitted hq
    exact ⟨fun hnone => absurd hnone hne, fun _ => execTxnAbort_stays_run h0 hstays hphase1⟩
  obtain ⟨hstays, hphase1, hregion1, hrun1⟩ := execRestoreParent_stays hcommitted hq
  have hstopped := (hstays.step hsched.family).step (SameFamily.setOwn hres.kin)
  rcases hend with ⟨e, rfl⟩ | ⟨-, q, hre, rfl⟩
  · exact ⟨nofun, fun _ => execTxnAbort_stays_run h0 hstopped hphase1⟩
  obtain ⟨hgone, hregion⟩ := execDetach_gone h0.family hstopped hphase1
    ((hrun1 rfl).trans hrun) rfl hre
  obtain ⟨_ | _, tx5, rt5⟩ := q
  · refine ⟨nofun, fun _ e => ?_⟩
    rw [if_neg (by simp), execTxnAbort_contains hgone.owns]
    exact hgone.contain_run h0
  · have hmaps : SameFamily rt5 (clearDeviceMaps rt5) := (clearDeviceMaps_schedOnly rt5).family
    exact ⟨fun _ => ⟨{ hgone with out := hgone.out.same hmaps }, hregion.trans hregion1⟩,
      absurd rfl⟩

theorem execTxnReserve_stays (h : ExecStays rt0 s tx rt) (hphase : tx.phase = .validated)
    (hr : execTxnReserve tx rt = r) : ExecStays rt0 s r.2.1 r.2.2 ∧
      (r.1 = none → r.2.1.phase = .reserved ∧ r.2.1.terminal = tx.terminal ∧ r.2.1.region ≠ none) ∧
      (r.1 ≠ none → r.2.1.terminal = true ∨ r.2.1.phase.beforeCommit = true) := by
  have hbefore : tx.phase.beforeCommit = true := by
    rw [hphase]
    rfl
  unfold execTxnReserve at hr
  split at hr
  · subst hr
    exact ⟨h, nofun, fun _ => .inr hbefore⟩
  split at hr
  · dsimp only at hr
    split at hr
    · subst hr
      exact ⟨{ h with of := { h.of with } }, fun _ => ⟨rfl, rfl, by simp⟩, absurd rfl⟩
    · subst hr
      exact ⟨{ h with
          of := { h.of with }, same := h.same.trans (vforkContainStale_family _ _) }, nofun,
            fun _ => .inl rfl⟩
  split at hr
  · subst hr
    exact ⟨h, nofun, fun _ => .inr hbefore⟩
  split at hr
  · subst hr
    exact ⟨h, nofun, fun _ => .inr hbefore⟩
  rename_i hres
  subst hr
  exact ⟨{ h with
      of := { h.of with }, same := h.same.trans (SameFamily.setOwn (regionReserve_kin hres)) },
    fun _ => ⟨rfl, rfl, by simp⟩, absurd rfl⟩

theorem handleExec_run (h0 : ExecAlone rt0 s) (l : LoadResult) :
    FamilyRun admits rt0 (handleExec s l rt0) := by
  have hpark := parkSlot_schedOnly s rt0
  unfold handleExec
  generalize parkSlot s rt0 = q at hpark ⊢
  obtain ⟨_ | _, rt1⟩ := q
  · exact hpark.family.run
  dsimp only
  have hopened : ExecStays rt0 s (execTxnInit s (intentClear s rt1).own) (intentClear s rt1) := by
    refine ⟨?_, hpark.family.trans ⟨rfl, rfl⟩, rfl, rfl⟩
    rw [show (intentClear s rt1).own = rt0.own from hpark.own]
    exact ⟨rfl, rfl, rfl⟩
  have hinit : (execTxnInit s (intentClear s rt1).own).phase = .empty ∧
      (execTxnInit s (intentClear s rt1).own).terminal = false := ⟨rfl, rfl⟩
  generalize execTxnInit s (intentClear s rt1).own = tx at hopened hinit ⊢
  generalize intentClear s rt1 = rt2 at hopened ⊢
  obtain ⟨hempty, hrun⟩ := hinit
  rcases execTxnValidateImage_cases tx (execImage tx.imageIndex rt2).1
    (execImage tx.imageIndex rt2).2 with heq | heq
  · rw [heq]
    exact (hopened.same.trans (execTxnAbort_uncommitted (.inr (by rw [hempty]; rfl)) _ rt2)).run
  rw [heq]
  dsimp only
  have hvalid : ExecStays rt0 s { tx with phase := .validated } rt2 :=
    { hopened with of := { hopened.of with } }
  generalize hres : execTxnReserve { tx with phase := .validated } rt2 = q
  obtain ⟨hstays, hok, hfail⟩ := execTxnReserve_stays hvalid rfl hres
  obtain ⟨_ | e, tx3, rt3⟩ := q
  · obtain ⟨hphase, hrun3, hregion⟩ := hok rfl
    dsimp only
    generalize hcom : execTxnCommit tx3 rt3 = q
    obtain ⟨hgone, hfailed⟩ := execTxnCommit_run admits h0 hstays hphase (hrun3.trans hrun) hcom
    obtain ⟨_ | e, tx4, rt4⟩ := q
    · obtain ⟨hg, hregion4⟩ := hgone rfl
      exact execFinish_run h0 hg.of hg.owns hg.saved
        (by rw [hregion4]; exact hregion) hg.newRef hg.out l
    · exact hfailed (by simp) e
  · exact (hstays.same.trans (execTxnAbort_uncommitted (hfail (by simp)) e rt3)).run

end End

end Lxp
