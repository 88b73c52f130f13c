import Lxp.Run.Blocked
import Lxp.Run.Step

/-!
# No service class waits for more than one cycle

A selection stops at the first entry of the cycle whose class may be served.  While a class may be
served the cursor cannot pass an entry of it, and every selection of another class brings the cursor
closer to it.
-/

open Function

namespace Lxp

theorem exists_entry (cls : ServiceClass) (cursor : Fin serviceSchedule.length) :
    ∃ d < 10, serviceSchedule.get (nextCursor^[d] cursor) = cls := by
  revert cursor
  cases cls <;> decide

/-- The cursor stops at or before an entry whose class may be served. -/
theorem scheduleFrom_stops {eligible : ServiceClass → Bool} {cursor : Fin serviceSchedule.length}
    {n d : Nat} (hd : d < n) (he : eligible (serviceSchedule.get (nextCursor^[d] cursor)) = true) :
    ∃ k ≤ d, eligible (serviceSchedule.get (nextCursor^[k] cursor)) = true ∧
      scheduleFrom eligible n cursor =
        (some (serviceSchedule.get (nextCursor^[k] cursor)), nextCursor^[k + 1] cursor) := by
  induction n generalizing cursor d with
  | zero => omega
  | succ n ih =>
    dsimp only [scheduleFrom]
    split
    · rename_i hyes
      exact ⟨0, Nat.zero_le d, hyes, rfl⟩
    rename_i hno
    cases d with
    | zero => exact absurd he hno
    | succ d =>
      obtain ⟨k, hk, hyes, heq⟩ := ih (Nat.lt_of_succ_lt_succ hd) he
      exact ⟨k + 1, by omega, hyes, heq⟩

/-- The classes a selection may take: the aged ones, and any pending one while none is aged. -/
def eligibleClass (aged pending : ServiceClass → Bool) (cls : ServiceClass) : Bool :=
  if aged .fs || aged .socket || aged .console || aged .ordinary then aged cls else pending cls

theorem eligibleClass_of_aged {aged pending : ServiceClass → Bool} {cls : ServiceClass}
    (h : aged cls = true) : eligibleClass aged pending cls = true := by
  cases cls <;> simp [eligibleClass, h]

theorem exists_eligibleClass {pending : ServiceClass → Bool} {cls : ServiceClass}
    (h : pending cls = true) (aged : ServiceClass → Bool) :
    ∃ c, eligibleClass aged pending c = true := by
  by_cases hany : ∃ c, aged c = true
  · exact hany.imp fun c hc => eligibleClass_of_aged hc
  · exact ⟨cls, by simpa [eligibleClass, not_exists.mp hany] using h⟩

variable {C : Config}

/-- Without a completion hint a selection takes the next class of the cycle that is eligible: only
pending classes are, the aged ones are, and one is whenever a class is pending. -/
theorem blockedServiceSelect_eq (pending : ServiceClass → Bool) (oldest : ServiceClass → Nat)
    (now : Nat) {sv : Service C} (h : sv.fsReady = false) : ∃ e : ServiceClass → Bool,
      blockedServiceSelect pending oldest now sv = ((scheduleFrom e 10 sv.cursor).1,
        { sv with cursor := (scheduleFrom e 10 sv.cursor).2 }) ∧
      (∀ c, e c = true → pending c = true) ∧
      (∀ c, pending c = true → oldest c + serviceAging ≤ now → e c = true) ∧
      ∀ c, pending c = true → ∃ c', e c' = true := by
  refine ⟨eligibleClass (fun c => pending c && decide (oldest c ≤ now) &&
    decide (serviceAging ≤ now - oldest c)) pending, ?_, fun c hc => ?_, fun c hc hold => ?_,
    fun c hc => exists_eligibleClass hc _⟩
  · unfold blockedServiceSelect
    rw [h, Bool.and_false, if_neg Bool.false_ne_true]
    rfl
  · unfold eligibleClass at hc
    split at hc
    · simp only [Bool.and_eq_true] at hc
      exact hc.1.1
    · exact hc
  · have hage : oldest c ≤ now ∧ serviceAging ≤ now - oldest c := by omega
    exact eligibleClass_of_aged (by simp [hc, hage])

/-- Calls of which none finds a completion hint, with a clock that does not go back: a class that
stays pending and has waited long enough is selected within ten calls; only pending classes are
selected, and one is whenever there is one.  Between two calls only the cursor has to be kept. -/
theorem serviceSelects_fair (pending : Nat → ServiceClass → Bool)
    (oldest : Nat → ServiceClass → Nat)
    (now : Nat → Nat) (sv : Nat → Service C)
    (hcursor : ∀ k, (sv (k + 1)).cursor =
      (blockedServiceSelect (pending k) (oldest k) (now k) (sv k)).2.cursor)
    (hhint : ∀ k, (sv k).fsReady = false) (hclock : Monotone now) :
    (∀ cls, (∀ k < 10, pending k cls = true ∧ oldest k cls ≤ oldest 0 cls) →
      oldest 0 cls + serviceAging ≤ now 0 →
      ∃ k < 10, (blockedServiceSelect (pending k) (oldest k) (now k) (sv k)).1 = some cls) ∧
    ∀ k, (∀ c, (blockedServiceSelect (pending k) (oldest k) (now k) (sv k)).1 = some c →
        pending k c = true) ∧
      ((blockedServiceSelect (pending k) (oldest k) (now k) (sv k)).1 = none ↔
        ∀ c, pending k c = false) := by
  refine ⟨fun cls hstays hwaited => ?_, fun k => ?_⟩
  · -- By induction on how far the cursor is in front of the next entry of the class.
    have hreach : ∀ d j, j + d < 10 → serviceSchedule.get (nextCursor^[d] (sv j).cursor) = cls →
        ∃ k < 10, (blockedServiceSelect (pending k) (oldest k) (now k) (sv k)).1 = some cls := by
      intro d
      induction d using Nat.strong_induction_on with
      | _ d ih =>
        intro j hj hentry
        obtain ⟨e, heq, -, haged, -⟩ := blockedServiceSelect_eq (pending j) (oldest j)
          (now j) (hhint j)
        have hlater := hclock (Nat.zero_le j)
        have hold := hstays j (by omega)
        obtain ⟨k, hk, -, hstop⟩ := scheduleFrom_stops (n := 10) (by omega)
          (hentry ▸ haged cls hold.1 (by omega))
        rw [hstop] at heq
        by_cases hkd : k = d
        · exact ⟨j, by omega, by rw [heq, hkd, hentry]⟩
        · refine ih (d - (k + 1)) (by omega) (j + 1) (by omega) ?_
          rw [hcursor, heq, ← iterate_add_apply, Nat.sub_add_cancel (by omega), hentry]
    obtain ⟨d, hd, hentry⟩ := exists_entry cls (sv 0).cursor
    exact hreach d 0 (by omega) hentry
  · obtain ⟨e, heq, hpending, -, hsome⟩ := blockedServiceSelect_eq (pending k) (oldest k)
      (now k) (hhint k)
    rw [heq]
    by_cases hno : ∀ c, e c = false
    · have hstop : ∀ cursor, (scheduleFrom (fun _ => false) 10 cursor).1 = none := by decide
      rw [funext hno, hstop]
      exact ⟨nofun, fun _ c => by simpa [hno] using mt (hsome c), fun _ => rfl⟩
    obtain ⟨c, hc⟩ : ∃ c, e c = true := by simpa using hno
    obtain ⟨d, hd, rfl⟩ := exists_entry c (sv k).cursor
    obtain ⟨i, -, hyes, hstop⟩ := scheduleFrom_stops hd hc
    rw [hstop]
    refine ⟨fun c hc => Option.some.inj hc ▸ hpending _ hyes, nofun, fun hall => ?_⟩
    simpa [hall] using hpending _ hyes

/-- The state before call `k` when all classes are pending and have waited long enough; each call
makes a scan that moves the slot cursor of its class. -/
def busyService : Nat → Service smallConfig
  | 0 => blockedFairReset smallConfig
  | k + 1 => (blockedServiceSelect (fun _ => true) (fun _ => 0) serviceAging
      (busyService k)).2.startBehind .fs 1

theorem busyService_fsReady (k : Nat) : (busyService k).fsReady = false := by
  induction k with
  | zero => rfl
  | succ k ih =>
    obtain ⟨e, heq, -⟩ := blockedServiceSelect_eq (fun _ => true) (fun _ => 0) serviceAging ih
    rw [busyService, heq]
    exact ih

/-- The ordinary class waits for the nine entries of the others, and no longer. -/
theorem ordinary_served : (∃ k < 10, (blockedServiceSelect (fun _ => true) (fun _ => 0) serviceAging
      (busyService k)).1 = some .ordinary) ∧
    (blockedServiceSelect (fun _ => true) (fun _ => 0) serviceAging (busyService 8)).1 =
      some .console :=
  ⟨(serviceSelects_fair (fun _ _ => true) (fun _ _ => 0) (fun _ => serviceAging) busyService
    (fun _ => rfl) busyService_fsReady monotone_const).1 .ordinary
      (fun _ _ => ⟨rfl, Nat.le_refl _⟩) (Nat.le_refl _), by decide⟩

end Lxp
