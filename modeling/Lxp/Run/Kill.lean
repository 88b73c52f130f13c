import Lxp.Run.Machine

/-!
# Which tasks a kill reaches

`kill`, `tkill` and `tgkill` at the trap: the tasks the signal is latched on or, for the caller,
delivered to, and what the call answers, against the tasks that the call names.
-/

open List

namespace Lxp

variable {C : Config}

inductive KillTarget where
  | kill (target : BitVec 32)
  -- `tkill` and `tgkill`.
  | tkill (tid : Nat)
deriving DecidableEq

def KillTarget.call : KillTarget → Nat → TrapCall
  | .kill target, sig => .kill target sig
  | .tkill tid, sig => .tkill tid sig

/-- A shutdown signal to pid 1 is a request to halt. -/
def KillTarget.halts : KillTarget → Nat → Bool
  | .kill target, sig => target == 1 && initShutdownSignal sig
  | .tkill _, _ => false

/-- The tasks other than the caller that a target reaches. -/
def killOthers (o : Own C) (s : C.Slot) (target : BitVec 32) : List C.Slot :=
  (List.finRange C.nslot).filter
    (signalReaches o (some s) target.toInt.toNat (killGroup o s target).toNat)

/-- The tasks that get the signal, the caller last, and what the call answers. -/
def killSent (o : Own C) (s : C.Slot) : KillTarget → List C.Slot × Int
  | .tkill _ => ([s], 0)
  | .kill target =>
    if target.toInt = o.pid s then ([s], 0)
    else
      let sent := killOthers o s target
      if target.toInt ≤ 0 ∧ target.toInt ≠ -1 ∧ pgidOf o s = killGroup o s target then
        (sent ++ [s], 0)
      else (sent, if sent = [] then -Errno.esrch.code else 0)

theorem signalReaches_self (o : Own C) (s : C.Slot) (pid pgid : Nat) :
    signalReaches o (some s) pid pgid s = false := by
  simp [signalReaches]

theorem latched_own (sig : Nat) (sent : List C.Slot) (rt : Runtime C) :
    (sent.foldl (fun rt t => modifySig t (signalLatch sig) rt) rt).own = rt.own := by
  induction sent generalizing rt with
  | nil => rfl
  | cons t sent ih => exact ih (modifySig t (signalLatch sig) rt)

/-- What the trap does: the others get the signal pending, the caller takes it at once. -/
theorem trapDispatch_kill (s : C.Slot) {k : KillTarget} {sig : Nat} (hsig : sig < nsig)
    (hhalt : k.halts sig = false) (readable : Bool) (rt : Runtime C) :
    trapDispatch s (k.call sig) readable rt = (some (killSent rt.own s k).2,
      (if s ∈ (killSent rt.own s k).1 then selfSignal s sig readable else id)
        (((killSent rt.own s k).1.filter (· ≠ s)).foldl
          (fun rt t => modifySig t (signalLatch sig) rt) rt)) := by
  cases k with
  | tkill tid => simp [KillTarget.call, trapDispatch, killSent, hsig]
  | kill target =>
    have hhalt' : ¬(target = 1 ∧ initShutdownSignal sig = true) := by
      simpa [KillTarget.halts] using hhalt
    simp only [KillTarget.call, trapDispatch, trapKill, killSent, if_neg (Nat.not_le.mpr hsig),
      if_neg hhalt']
    by_cases hpid : target.toInt = rt.own.pid s
    · simp [hpid]
    simp only [if_neg hpid]
    have hnot : s ∉ killOthers rt.own s target := by
      rw [killOthers, mem_filter, signalReaches_self]
      simp
    have hothers : (killOthers rt.own s target).filter (· ≠ s) = killOthers rt.own s target :=
      filter_eq_self.mpr fun t ht => by simpa using fun h : t = s => hnot (h ▸ ht)
    have hsend : signalSend (some s) target.toInt.toNat (killGroup rt.own s target).toNat sig rt =
        ((killOthers rt.own s target).length, (killOthers rt.own s target).foldl
          (fun rt t => modifySig t (signalLatch sig) rt) rt) := rfl
    simp only [hsend, latched_own]
    split
    · rw [filter_append, hothers]
      simp
    · simp only [hothers, id_eq, length_eq_zero_iff]

/-! ## The tasks a call names -/

/-- The process group that a target of at most 0 stands for. -/
def namedGroup (o : Own C) (s : C.Slot) (target : BitVec 32) : Int :=
  if target = 0 then pgidOf o s else -target.toInt

def killNames (o : Own C) (s : C.Slot) : KillTarget → C.Slot → Prop
  | .tkill tid, t => o.pid t = tid
  | .kill target, t =>
    if 0 < target.toInt then o.pid t = target.toInt
    else if target.toInt = -1 then t ≠ s ∧ o.pid t ≠ 1
    else pgidOf o t = namedGroup o s target

instance (o : Own C) (s : C.Slot) (k : KillTarget) : DecidablePred (killNames o s k) :=
  fun t => by cases k <;> unfold killNames <;> infer_instance

/-- Live tasks have different pids, and each is in a group, whose id is an `int`. -/
structure ProcessTable (o : Own C) : Prop where
  pid_pos : ∀ t, o.alive t = true → 0 < o.pid t
  pid_inj : ∀ t u, o.alive t = true → o.alive u = true → o.pid t = o.pid u → t = u
  grouped : ∀ t, o.alive t = true → (groupOf o t).isSome = true
  pgid_lt : ∀ t, pgidOf o t < 2 ^ 31

/-- The signal goes to the live tasks named, init excepted, and the call fails when there are none
named. -/
def KillReaches (o : Own C) (s : C.Slot) (k : KillTarget) : Prop :=
  (∀ t, t ∈ (killSent o s k).1 ↔ o.alive t = true ∧ killNames o s k t ∧ o.pid t ≠ 1) ∧
  ((killSent o s k).2 = -Errno.esrch.code ↔ ∀ t, o.alive t = true → ¬ killNames o s k t)

/-- A thread is named only by itself; init names neither itself nor its own group, and is not the
only task named; a caller in group 0 has everyone in its group; and the least target, which an `int`
cannot negate, finds nobody but the caller and init. -/
def KillFits (o : Own C) (s : C.Slot) (k : KillTarget) : Prop :=
  (∀ tid, k = .tkill tid → tid = o.pid s) ∧ (killNames o s k s → o.pid s ≠ 1) ∧
  (∀ t, o.alive t = true → killNames o s k t → o.pid t = 1 →
    ∃ u, o.alive u = true ∧ killNames o s k u ∧ o.pid u ≠ 1) ∧
  (k = .kill 0 → pgidOf o s = 0 → ∀ t, o.alive t = true → o.pid t ≠ 1 → pgidOf o t = 0) ∧
  (k = .kill (BitVec.intMin 32) → ∀ t, o.alive t = true → t ≠ s → o.pid t = 1)

section Reach

variable {o : Own C} {s : C.Slot}

theorem signalReaches_iff (h : ProcessTable o) {t : C.Slot} {pid pgid : Nat} :
    signalReaches o (some s) pid pgid t = true ↔ o.alive t = true ∧ t ≠ s ∧ o.pid t ≠ 1 ∧
      if 0 < pid then o.pid t = pid else pgid = 0 ∨ pgidOf o t = pgid := by
  unfold signalReaches
  cases halive : o.alive t with
  | false => simp
  | true =>
    have hpos := h.pid_pos t halive
    obtain ⟨g, hg⟩ := Option.isSome_iff_exists.mp (h.grouped t halive)
    have hone : 1 < o.pid t ↔ o.pid t ≠ 1 := by omega
    have hne : s ≠ t ↔ t ≠ s := ne_comm
    split <;> simp [pgidOf, hg, hone, hne, and_assoc]

theorem killReaches_self (h : ProcessTable o) (hs : o.alive s = true) {k : KillTarget}
    (hsent : killSent o s k = ([s], 0)) {tid : Nat}
    (hnames : ∀ t, killNames o s k t ↔ o.pid t = tid) :
    KillReaches o s k ↔ tid = o.pid s ∧ o.pid s ≠ 1 := by
  unfold KillReaches
  simp only [hsent, hnames, mem_singleton]
  constructor
  · rintro ⟨hsent, -⟩
    obtain ⟨-, hpid, hone⟩ := (hsent s).mp rfl
    exact ⟨hpid.symm, hone⟩
  · rintro ⟨rfl, hone⟩
    refine ⟨fun t => ⟨?_, fun ⟨ht, hpid, _⟩ => h.pid_inj t s ht hs hpid⟩,
      iff_of_false (by decide) ?_⟩
    · rintro rfl
      exact ⟨hs, rfl, hone⟩
    · exact fun hnone => hnone s hs rfl

theorem killReaches_others {k : KillTarget} {sent : List C.Slot}
    (hsent : killSent o s k = (sent, if sent = [] then -Errno.esrch.code else 0))
    (hmem : ∀ t, t ∈ sent ↔ o.alive t = true ∧ killNames o s k t ∧ o.pid t ≠ 1) :
    KillReaches o s k ↔ ∀ t, o.alive t = true → killNames o s k t → o.pid t = 1 →
      ∃ u, o.alive u = true ∧ killNames o s k u ∧ o.pid u ≠ 1 := by
  have hfails : (if sent = [] then -Errno.esrch.code else 0) = -Errno.esrch.code ↔ sent = [] := by
    split <;> simp_all [Errno.code]
  unfold KillReaches
  simp only [hsent, hfails]
  simp only [hmem, implies_true, true_and, eq_nil_iff_forall_not_mem]
  constructor
  · intro hiff t ht hname hone
    by_contra hnone
    exact hiff.mp (fun u hu => hnone ⟨u, hu⟩) t ht hname
  · intro hfit
    refine ⟨fun hnone t ht hname => ?_, fun hnone t ht => hnone t ht.1 ht.2.1⟩
    by_cases hone : o.pid t = 1
    · obtain ⟨u, hu⟩ := hfit t ht hname hone
      exact hnone u hu
    · exact hnone t ⟨ht, hname, hone⟩

theorem mem_killOthers_iff (h : ProcessTable o) (target : BitVec 32) (t : C.Slot) :
    t ∈ killOthers o s target ↔ o.alive t = true ∧ t ≠ s ∧ o.pid t ≠ 1 ∧
      if 0 < target.toInt then (o.pid t : Int) = target.toInt
      else killGroup o s target ≤ 0 ∨ pgidOf o t = killGroup o s target := by
  have hpos : 0 < target.toInt.toNat ↔ 0 < target.toInt := by omega
  have hpid : 0 < target.toInt →
      (o.pid t = target.toInt.toNat ↔ (o.pid t : Int) = target.toInt) := by omega
  have hgroup : ((killGroup o s target).toNat = 0 ∨ pgidOf o t = (killGroup o s target).toNat) ↔
      (killGroup o s target ≤ 0 ∨ (pgidOf o t : Int) = killGroup o s target) := by omega
  rw [killOthers, mem_filter, signalReaches_iff h]
  simp only [mem_finRange, true_and, hpos]
  split
  · next ht => rw [hpid ht]
  · rw [hgroup]

theorem toInt_eq_zero_iff {target : BitVec 32} : target = 0 ↔ target.toInt = 0 :=
  BitVec.toInt_inj.symm

/-- All targets but the least are negated as the caller means it. -/
theorem killGroup_eq {target : BitVec 32} (hle : target.toInt ≤ 0) (hall : target.toInt ≠ -1)
    (hmin : target ≠ BitVec.intMin 32) : killGroup o s target = namedGroup o s target := by
  unfold killGroup namedGroup
  by_cases hzero : target = 0
  · rw [if_pos hzero, if_pos hzero]
  · have hne := mt toInt_eq_zero_iff.mpr hzero
    rw [if_neg hzero, if_neg hzero, if_pos (by omega), BitVec.toInt_neg_of_ne_intMin hmin]

theorem target_eq_zero {target : BitVec 32} (hle : target.toInt ≤ 0) (hall : target.toInt ≠ -1)
    (hmin : target ≠ BitVec.intMin 32) (hgroup : killGroup o s target ≤ 0) : target = 0 := by
  by_contra hzero
  have hne := mt toInt_eq_zero_iff.mpr hzero
  rw [killGroup_eq hle hall hmin, namedGroup, if_neg hzero] at hgroup
  omega

theorem killGroup_intMin : killGroup o s (BitVec.intMin 32) = -2 ^ 31 := rfl

/-- The least target names a group that no task can be in, and is sent to everyone. -/
theorem killReaches_intMin (h : ProcessTable o) :
    KillReaches o s (.kill (BitVec.intMin 32)) ↔ KillFits o s (.kill (BitVec.intMin 32)) := by
  have hnames : ∀ t, ¬ killNames o s (.kill (BitVec.intMin 32)) t := by
    intro t hname
    have hgroup : (pgidOf o t : Int) = 2 ^ 31 := hname
    have hlt := h.pgid_lt t
    omega
  have hsent : killSent o s (.kill (BitVec.intMin 32)) = (killOthers o s (BitVec.intMin 32),
      if killOthers o s (BitVec.intMin 32) = [] then -Errno.esrch.code else 0) := by
    have hpid : (BitVec.intMin 32).toInt ≠ o.pid s := by
      have htoInt : (BitVec.intMin 32).toInt = -2 ^ 31 := rfl
      omega
    simp only [killSent, if_neg hpid, killGroup_intMin]
    exact if_neg fun hgroup => by omega
  have hmem : ∀ t, t ∈ killOthers o s (BitVec.intMin 32) ↔
      o.alive t = true ∧ t ≠ s ∧ o.pid t ≠ 1 := by
    intro t
    rw [mem_killOthers_iff h, killGroup_intMin, if_neg (by decide)]
    simp
  constructor
  · rintro ⟨hiff, -⟩
    refine ⟨nofun, fun hname => absurd hname (hnames s), fun t _ hname => absurd hname (hnames t),
      nofun, fun _ t ht hts => ?_⟩
    by_contra hone
    have hin := (hmem t).mpr ⟨ht, hts, hone⟩
    rw [hsent] at hiff
    exact hnames t ((hiff t).mp hin).2.1
  · rintro ⟨-, -, -, -, halone⟩
    have hnil : killOthers o s (BitVec.intMin 32) = [] := by
      refine eq_nil_iff_forall_not_mem.mpr fun t ht => ?_
      obtain ⟨halive, hts, hone⟩ := (hmem t).mp ht
      exact hone (halone rfl t halive hts)
    unfold KillReaches
    simp [hsent, hnil, hnames]

section Target

variable {target : BitVec 32} (h : ProcessTable o) (hs : o.alive s = true)
  (hmin : target ≠ BitVec.intMin 32) (hpid : target.toInt ≠ o.pid s)
include h hs hmin hpid

/-- A kill of the caller's own group is delivered to the caller last. -/
theorem killReaches_group (hle : target.toInt ≤ 0) (hall : target.toInt ≠ -1)
    (hgrp : pgidOf o s = killGroup o s target) :
    KillReaches o s (.kill target) ↔ KillFits o s (.kill target) := by
  have hnames : ∀ t, killNames o s (.kill target) t ↔ pgidOf o t = killGroup o s target := by
    intro t
    simp only [killNames, if_neg (Int.not_lt.mpr hle), if_neg hall, killGroup_eq hle hall hmin]
  have hsent : killSent o s (.kill target) = (killOthers o s target ++ [s], 0) := by
    simp only [killSent, if_neg hpid]
    exact if_pos ⟨hle, hall, hgrp⟩
  have hmem : ∀ t, t ∈ killOthers o s target ↔ o.alive t = true ∧ t ≠ s ∧ o.pid t ≠ 1 ∧
      (killGroup o s target ≤ 0 ∨ pgidOf o t = killGroup o s target) := by
    intro t
    rw [mem_killOthers_iff h, if_neg (Int.not_lt.mpr hle)]
  unfold KillReaches KillFits
  simp only [hsent, hnames, mem_append, mem_singleton, hmem]
  constructor
  · rintro ⟨hiff, -⟩
    have hone := ((hiff s).mp (.inr rfl)).2.2
    refine ⟨nofun, fun _ => hone, fun _ _ _ _ => ⟨s, hs, hgrp, hone⟩,
      fun _ hzero t ht ht1 => ?_, fun hk => absurd (KillTarget.kill.inj hk) hmin⟩
    by_cases hts : t = s
    · rw [hts, hzero]
    · have hin := (hiff t).mp (.inl ⟨ht, hts, ht1, .inl (by omega)⟩)
      omega
  · rintro ⟨-, hone, -, hbroad, -⟩
    refine ⟨fun t => ⟨?_, fun ⟨ht, hin, ht1⟩ => ?_⟩,
      iff_of_false (by decide) fun hnone => hnone s hs hgrp⟩
    · rintro (⟨ht, -, ht1, hzero | hin⟩ | rfl)
      · -- A group of no positive number is the caller's own, asked for by target 0.
        have htarget := target_eq_zero hle hall hmin hzero
        have hin := hbroad (by rw [htarget]) (by omega) t ht ht1
        exact ⟨ht, by omega, ht1⟩
      · exact ⟨ht, hin, ht1⟩
      · exact ⟨hs, hgrp, hone hgrp⟩
    · by_cases hts : t = s
      · exact .inr hts
      · exact .inl ⟨ht, hts, ht1, .inr hin⟩

omit hs in
/-- A caller that is not among the tasks named hears whether there were any. -/
theorem killReaches_apart (hgroup : ¬ (target.toInt ≤ 0 ∧ target.toInt ≠ -1 ∧
      pgidOf o s = killGroup o s target)) :
    KillReaches o s (.kill target) ↔ KillFits o s (.kill target) := by
  have hsent : killSent o s (.kill target) = (killOthers o s target,
      if killOthers o s target = [] then -Errno.esrch.code else 0) := by
    simp only [killSent, if_neg hpid, if_neg hgroup]
  have hself : ¬ killNames o s (.kill target) s := by
    simp only [killNames]
    split_ifs with htarget hall
    · exact fun heq => hpid heq.symm
    · simp
    · rw [← killGroup_eq (by omega) hall hmin]
      exact fun heq => hgroup ⟨by omega, hall, heq⟩
  have hmem : ∀ t, t ∈ killOthers o s target ↔
      o.alive t = true ∧ killNames o s (.kill target) t ∧ o.pid t ≠ 1 := by
    intro t
    have hne : killNames o s (.kill target) t → t ≠ s := fun hname heq => hself (heq ▸ hname)
    rw [mem_killOthers_iff h]
    simp only [killNames] at hne ⊢
    split_ifs at hne ⊢ with htarget hall
    · tauto
    · have hwant : killGroup o s target ≤ 0 := by
        rw [killGroup, if_neg fun hzero => by simp [hzero] at hall, if_neg (by omega)]
      tauto
    rw [← killGroup_eq (by omega) hall hmin] at hne ⊢
    have hwant : ¬ killGroup o s target ≤ 0 := by
      intro hzero
      obtain rfl := target_eq_zero (by omega) hall hmin hzero
      exact hgroup ⟨le_rfl, hall, rfl⟩
    tauto
  rw [killReaches_others hsent hmem]
  refine ⟨fun hfit => ⟨nofun, fun hname => absurd hname hself, hfit, fun hk => ?_,
    fun hk => absurd (KillTarget.kill.inj hk) hmin⟩, fun hfits => hfits.2.2.1⟩
  cases hk
  exact absurd ⟨le_rfl, by decide, rfl⟩ hgroup

end Target

/-- The signal reaches the tasks the call names exactly when the call fits. -/
theorem killReaches_iff (h : ProcessTable o) (hs : o.alive s = true) (k : KillTarget) :
    KillReaches o s k ↔ KillFits o s k := by
  have hpos := h.pid_pos s hs
  cases k with
  | tkill tid =>
    rw [killReaches_self h hs (k := .tkill tid) rfl fun t => Iff.rfl]
    constructor
    · rintro ⟨rfl, hone⟩
      exact ⟨fun _ htid => by cases htid; rfl, fun _ => hone,
        fun t _ hname ht => absurd (hname.symm.trans ht) hone, nofun, nofun⟩
    · rintro ⟨htid, hself, -, -, -⟩
      exact ⟨htid tid rfl, hself (htid tid rfl).symm⟩
  | kill target =>
    by_cases hmin : target = BitVec.intMin 32
    · rw [hmin]
      exact killReaches_intMin h
    by_cases hpid : target.toInt = o.pid s
    · have hnames : ∀ t, killNames o s (.kill target) t ↔ o.pid t = o.pid s := by
        simp [killNames, hpid, hpos]
      rw [killReaches_self h hs (by simp [killSent, hpid]) hnames]
      unfold KillFits
      simp only [hnames, true_and, true_imp_iff]
      refine ⟨fun hone => ⟨nofun, hone, fun t _ ht h1 => absurd (ht ▸ h1) hone, fun hk => ?_,
        fun hk => absurd (KillTarget.kill.inj hk) hmin⟩, fun hfits => hfits.2.1⟩
      cases hk
      have hzero : (0 : Int) = o.pid s := hpid
      omega
    by_cases hgroup : target.toInt ≤ 0 ∧ target.toInt ≠ -1 ∧ pgidOf o s = killGroup o s target
    · exact killReaches_group h hs hmin hpid hgroup.1 hgroup.2.1 hgroup.2.2
    · exact killReaches_apart h hmin hpid hgroup

end Reach

/-- A kill with a valid signal reaches the tasks it names, and fails when there are none, exactly
when it fits. -/
theorem kill_reaches_named {rt : Runtime C} (h : ProcessTable rt.own) {s : C.Slot}
    (hs : rt.own.alive s = true) (k : KillTarget) (sig : Nat) (hsig : sig < nsig)
    (hhalt : k.halts sig = false) (readable : Bool) :
    trapDispatch s (k.call sig) readable rt = (some (killSent rt.own s k).2,
      (if s ∈ (killSent rt.own s k).1 then selfSignal s sig readable else id)
        (((killSent rt.own s k).1.filter (· ≠ s)).foldl
          (fun rt t => modifySig t (signalLatch sig) rt) rt)) ∧
    (KillReaches rt.own s k ↔ KillFits rt.own s k) :=
  ⟨trapDispatch_kill s hsig hhalt readable rt, killReaches_iff h hs k⟩

/-- Init and two tasks of another group. -/
def threeTasks : Runtime smallConfig :=
  { resetRuntime smallConfig with
    own.alive := fun s => s != 3
    own.pid := fun s => s + 1
    own.group := fun s => if s = 0 then some 0 else some 1
    own.groups := { emptyPool ({} : Group) _ with val := fun g => { pgid := g + 1 } } }

theorem threeTasks_table : ProcessTable threeTasks.own :=
  ⟨by decide, by decide, by decide, by decide⟩

theorem kill_reaches_group : KillReaches threeTasks.own 1 (.kill 0) ∧
    (killSent threeTasks.own 1 (.kill 0)).1 = [2, 1] ∧
    (trapDispatch 1 (.kill 0 15) true threeTasks).1 = some 0 := by
  have hfits : KillFits threeTasks.own 1 (.kill 0) :=
    ⟨nofun, by decide, by decide, fun _ h => absurd h (by decide), by decide⟩
  have hreach := kill_reaches_named threeTasks_table (s := 1) (by decide) (.kill 0) 15
    (by decide) rfl true
  exact ⟨hreach.2.mpr hfits, by decide, congrArg Prod.fst hreach.1⟩

/-- A thread that names another one takes the signal itself. -/
theorem tkill_reaches_caller : threeTasks.own.alive 2 = true ∧
    killNames threeTasks.own 1 (.tkill 3) 2 ∧ ¬ KillReaches threeTasks.own 1 (.tkill 3) ∧
    ((trapDispatch 1 (.tkill 3 15) true threeTasks).2.sig.st 2).pending =
      (threeTasks.sig.st 2).pending := by
  refine ⟨by decide, by decide, fun h => ?_, by decide +kernel⟩
  have hin := (h.1 2).mpr ⟨by decide, by decide, by decide⟩
  exact absurd hin (by decide)

end Lxp
