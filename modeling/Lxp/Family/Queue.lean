import Lxp.Family.Reports

/-!
# The child queue

A fork is admitted while the live children and the queued records leave room for one more.  Stop
notices take up queue entries as well: as long as each of them is sent with room to spare, the end
of every counted child finds a free entry.
-/

open Function List

namespace Lxp

variable {C : Config}

/-- Room for one more record beside those of the live children. -/
def childRoom (C : Config) (x : Group) : Prop := x.children.length + x.liveChildren < C.maxChild

instance (x : Group) : Decidable (childRoom C x) :=
  inferInstanceAs (Decidable (x.children.length + x.liveChildren < C.maxChild))

/-- No termination has been lost, and the children still to be reported have their entries. -/
structure QueueHolds (k : Kin C) (log : Log) : Prop where
  kept : log.dropped = []
  room : ∀ t g, k.group t = some g →
    (k.groups.val g).children.length + (k.groups.val g).liveChildren ≤ C.maxChild

variable {k k' : Kin C} {log log' : Log}

/-- A group that is to hear of a child has one to count down. -/
theorem Family.liveChildren_pos (h : Family k log) {s p : C.Slot} {g gp : Obj C}
    (hs : k.group s = some g) (hp : k.group p = some gp)
    (hppid : (k.groups.val gp).tgid = (k.groups.val g).ppid) :
    0 < (k.groups.val gp).liveChildren := by
  have hids := h.ids hs
  have hparent := h.ids hp
  have hentry := h.known hs (by omega)
  rw [h.live hp]
  exact length_pos_of_mem (Log.mem_unreported.mpr ⟨hentry, hppid.symm, h.silent hs⟩)

theorem QueueHolds.leaves {s : C.Slot} (h : QueueHolds k log) (hl : Leaves k s unchanged k') :
    QueueHolds k' log := by
  refine ⟨h.kept, fun t g ht => ?_⟩
  obtain ⟨-, ht', hval⟩ := hl.cases ht
  rw [hval]
  exact h.room t g ht'

theorem QueueHolds.joins {c : C.Slot} {g : Obj C} {f : Obj C → Group → Group}
    (hj : Joins k c g f k') (hkept : log'.dropped = [])
    (hnew : (k'.groups.val g).children.length + (k'.groups.val g).liveChildren ≤ C.maxChild)
    (hold : ∀ t i, k.group t = some i →
      (f i (k.groups.val i)).children.length + (f i (k.groups.val i)).liveChildren ≤ C.maxChild) :
    QueueHolds k' log' := by
  refine ⟨hkept, fun t i ht => ?_⟩
  rw [hj.group] at ht
  by_cases htc : t = c
  · rw [htc, update_self] at ht
    rw [← Option.some.inj ht]
    exact hnew
  · rw [update_of_ne htc] at ht
    rw [hj.vals t i ht]
    exact hold t i ht

theorem QueueHolds.report (h : QueueHolds k log) (hfamily : Family k log) {s p : C.Slot}
    {g gp : Obj C} {r : ChildRec} {x' : Group} (hs : k.group s = some g) (hp : k.group p = some gp)
    (hppid : (k.groups.val gp).tgid = (k.groups.val g).ppid)
    (hd : Delivery C (k.groups.val gp) log (k.groups.val g).ppid r x' log')
    (hl : Leaves k s (onGroup gp x') k') : QueueHolds k' log' := by
  have hpos := hfamily.liveChildren_pos hs hp hppid
  have hsum := h.room p gp hp
  have hrecord : log'.dropped = [] ∧ x'.children.length + x'.liveChildren ≤ C.maxChild := by
    cases hd with
    | handed =>
      refine ⟨h.kept, ?_⟩
      dsimp only
      omega
    | queued hroom =>
      refine ⟨h.kept, ?_⟩
      simp only [length_append, length_singleton]
      omega
    -- A full queue has no room for the child that was counted.
    | dropped hfull => omega
  refine ⟨hrecord.1, fun t i ht => ?_⟩
  obtain ⟨-, ht', hval⟩ := hl.cases ht
  rw [hval, onGroup]
  split
  · exact hrecord.2
  · exact h.room t i ht'

theorem FamilyStep.queueHolds (hstep : FamilyStep (childRoom C) k log k' log')
    (hfamily : Family k log) (h : QueueHolds k log) : QueueHolds k' log' := by
  cases hstep with
  | steady hk hlen =>
    refine ⟨h.kept, fun t g ht => ?_⟩
    rw [hk.group] at ht
    have := h.room t g ht
    have := hlen t g ht
    rw [(hk.vals t g ht).liveChildren]
    omega
  | stop hp hroom hlen =>
    refine ⟨h.kept, fun t i ht => ?_⟩
    rw [Kin.enqueue, Kin.setGroup_val, onGroup]
    split
    · have : _ < _ := hroom
      simp only [length_append, length_singleton]
      omega
    · exact h.room t i ht
  | thread hp hj =>
    refine QueueHolds.joins hj h.kept ?_ h.room
    rw [hj.vals _ _ hp]
    exact h.room _ _ hp
  | child hp hroom hj hval =>
    refine QueueHolds.joins hj h.kept ?_ fun t i ht => ?_
    · rw [hval]
      exact Nat.zero_le _
    have := h.room t i ht
    unfold oneMore
    split
    · rename_i hi
      rw [hi]
      dsimp only
      omega
    · exact this
  | peer _ _ _ hl | last _ _ _ hl => exact h.leaves hl
  | report hs _ hp hppid _ _ hd hl => exact h.report hfamily hs hp hppid hd hl

/-! ## Over whole runs -/

/-- Each stop notice finds room in the parent's queue beside the live children. -/
def stopsSpareRoom (rt : Runtime C) (a : Action C) : Prop :=
  execsSoleLeaders rt a ∧ stopsAdmitted (childRoom C) rt a

instance (o : Own C) (s : C.Slot) : Decidable (parentAdmits (childRoom C) o s) := by
  unfold parentAdmits
  infer_instance

instance (rt : Runtime C) : (a : Action C) → Decidable (stopsSpareRoom rt a)
  | .event _ _ => inferInstanceAs (Decidable (_ ∧ (_ → _)))
  | .stopped s _ => inferInstanceAs (Decidable (_ ∧ parentAdmits (childRoom C) rt.own s))
  | .wait4 .. | .write .. | .guest => isTrue ⟨trivial, trivial⟩

/-- Every termination was handed over or queued, and there is an entry for each that is to come. -/
structure TerminationsKept (rt : Runtime C) : Prop where
  kept : rt.log.dropped = []
  room : ∀ s, rt.own.alive s = true → ∀ g, groupOf rt.own s = some g →
    g.children.length + g.liveChildren ≤ C.maxChild

theorem boot_queueHolds {fileIndex : Int} {l : LoadResult} {rt : Runtime C}
    (h : boot C fileIndex l = some rt) : QueueHolds rt.own.kin rt.log := by
  obtain ⟨hlog, g, hkin⟩ := boot_kin h
  refine ⟨by rw [hlog], fun t i ht => ?_⟩
  rw [hkin.only ht, hkin.record]
  exact Nat.zero_le _

theorem runsTo_queueHolds {rt : Runtime C} (h : RunsTo stopsSpareRoom rt) :
    Family rt.own.kin rt.log ∧ QueueHolds rt.own.kin rt.log := by
  induction h with
  | start hboot => exact ⟨boot_family hboot, boot_queueHolds hboot⟩
  | step _ hok hs ih =>
    exact (step_familyRun ih.1 hok.1 hok.2 hs).invariant
      (fun k log => Family k log ∧ QueueHolds k log)
      (fun _ _ _ _ hstep hinv => ⟨hstep.family hinv.1, hstep.queueHolds hinv.1 hinv.2⟩) ih

/-- A child is stopped `n` times and then exits; the parent does not wait. -/
def stopsThenExit (n : Nat) : List (Move smallConfig) :=
  [.ask 0 (.fork {} 0), .act (.event 0 {})] ++ List.replicate n (.act (.stopped 1 20)) ++
    [.ask 1 (.exit true), .act (.event 1 {})]

end Lxp
