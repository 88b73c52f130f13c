import Lxp.Run.Step

/-!
# Thread groups as a family

What parent and child accounting rests on: which slots are live, which thread group each belongs to,
the group records and the log of children counted at fork and reported afterwards.  Every step of
the coordinator changes this view in one of a few ways; the invariant is proved over those.
-/

open RefPool

namespace Lxp

variable {C : Config}

structure Kin (C : Config) where
  alive : C.Slot → Bool
  group : C.Slot → Option (Obj C)
  groups : Pool Group C.npool
  nextPid : Nat

def Own.kin (o : Own C) : Kin C := ⟨o.alive, o.group, o.groups, o.nextPid⟩

/-- Some task belongs to the group with this id. -/
def Kin.lives (k : Kin C) (id : Nat) : Prop :=
  ∃ t g, k.group t = some g ∧ (k.groups.val g).tgid = id

/-- The children of a group that were counted and have not been reported yet. -/
def Log.unreported (log : Log) (id : Nat) : List (Nat × Nat) :=
  log.counted.filter fun e => e.1 == id && !log.reaped.contains e

theorem Log.mem_unreported {log : Log} {id : Nat} {e : Nat × Nat} :
    e ∈ log.unreported id ↔ e ∈ log.counted ∧ e.1 = id ∧ e ∉ log.reaped := by
  simp [Log.unreported]

/-! ## The invariant -/

structure Family (k : Kin C) (log : Log) : Prop where
  counted : Counted k.groups k.group []
  member : ∀ t, k.alive t = (k.group t).isSome
  unique : ∀ {s t g h}, k.group s = some g → k.group t = some h →
    (k.groups.val g).tgid = (k.groups.val h).tgid → g = h
  ids : ∀ {t g}, k.group t = some g →
    (k.groups.val g).ppid < (k.groups.val g).tgid ∧ (k.groups.val g).tgid < k.nextPid
  live : ∀ {t g}, k.group t = some g →
    (k.groups.val g).liveChildren = (log.unreported (k.groups.val g).tgid).length
  known : ∀ {t g}, k.group t = some g → (k.groups.val g).tgid ≠ 1 →
    ((k.groups.val g).ppid, (k.groups.val g).tgid) ∈ log.counted
  silent : ∀ {t g}, k.group t = some g →
    ((k.groups.val g).ppid, (k.groups.val g).tgid) ∉ log.reaped
  entries : ∀ e ∈ log.counted, 1 < e.2 ∧ e.1 < e.2 ∧ e.2 < k.nextPid
  distinct : (log.counted.map Prod.snd).Nodup
  once : log.reaped.Nodup
  reported : ∀ e ∈ log.reaped, e ∈ log.counted
  awaited : ∀ e ∈ log.counted, e ∉ log.reaped → k.lives e.1 → k.lives e.2

namespace Family

variable {k : Kin C} {log : Log}

/-- A child is known by its id alone. -/
theorem entry_eq (h : Family k log) {e e' : Nat × Nat} (he : e ∈ log.counted)
    (he' : e' ∈ log.counted) (hid : e.2 = e'.2) : e = e' :=
  List.inj_on_of_nodup_map h.distinct he he' hid

theorem entry_of (h : Family k log) {t : C.Slot} {g : Obj C} (ht : k.group t = some g)
    {e : Nat × Nat} (he : e ∈ log.counted) (hid : (k.groups.val g).tgid = e.2) :
    e = ((k.groups.val g).ppid, (k.groups.val g).tgid) := by
  have hone := (h.entries e he).1
  exact h.entry_eq he (h.known ht (by omega)) hid.symm

end Family

/-! ## Accounting as the parent sees it -/

def groupLives (o : Own C) (id : Nat) : Prop := ∃ s, isTaskOf o id s = true

instance (o : Own C) (id : Nat) : Decidable (groupLives o id) :=
  inferInstanceAs (Decidable (∃ s, isTaskOf o id s = true))

/-- Every counted child of a living parent is reported once it has ended, never before and never
again, and the parent's count is what is left to report. -/
structure ChildrenReported (rt : Runtime C) : Prop where
  once : rt.log.reaped.Nodup
  ended : ∀ e ∈ rt.log.counted, groupLives rt.own e.1 →
    (e ∈ rt.log.reaped ↔ ¬ groupLives rt.own e.2)
  live : ∀ s, rt.own.alive s = true → ∀ g, groupOf rt.own s = some g →
    g.liveChildren = (rt.log.unreported g.tgid).length

theorem groupLives_iff {o : Own C} {log : Log} (h : Family o.kin log) (id : Nat) :
    groupLives o id ↔ o.kin.lives id := by
  have hmember : ∀ t, o.alive t = (o.group t).isSome := h.member
  constructor
  · rintro ⟨t, ht⟩
    simp only [isTaskOf, groupOf, Bool.and_eq_true, Option.any_map, Option.any_eq_true] at ht
    obtain ⟨_, g, hg, hid⟩ := ht
    refine ⟨t, g, hg, ?_⟩
    show (o.groups.val g).tgid = id
    simpa using hid
  · rintro ⟨t, g, hg, hid⟩
    replace hg : o.group t = some g := hg
    replace hid : (o.groups.val g).tgid = id := hid
    refine ⟨t, ?_⟩
    simp [isTaskOf, groupOf, hmember, hg, hid]

theorem Family.childrenReported {rt : Runtime C} (h : Family rt.own.kin rt.log) :
    ChildrenReported rt := by
  refine ⟨h.once, fun e he hparent => ?_, fun s _ g hg => ?_⟩
  · rw [groupLives_iff h] at hparent
    rw [groupLives_iff h]
    constructor
    · rintro hreaped ⟨t, g, hg, hid⟩
      rw [h.entry_of hg he hid] at hreaped
      exact h.silent hg hreaped
    · intro hgone
      by_contra hsilent
      exact hgone (h.awaited e he hsilent hparent)
  · obtain ⟨i, hi, rfl⟩ := Option.map_eq_some_iff.mp hg
    exact h.live hi

end Lxp
