import Lxp.Run.Exit

/-!
# How many guest events go before a scan

The coordinator counts the ordinary events it handles and goes to the scan of the blocked tasks when
there are too many.  An event of the lifecycle of a task starts the count anew.
-/

namespace Lxp

def coordinatorEventBurst : Nat := 4

def coordinatorControlEvent : Event → Bool
  | .exit _ | .exec | .fork _ _ | .stop => true
  | .none | .defer | .park => false

inductive PrimaryFlow where
  | handled
  | scanBlocked
  | stop

/-- What one turn of the loop meets: the event it claims, whether a stop is out of date, whether an
exit ends the coordinator, and whether the scan makes progress. -/
structure Turn where
  claimed : Event
  stale : Bool := false
  halts : Bool := false
  progress : Bool := false

/-- How `lxp_handle_primary_event` ends. -/
def Turn.flow (t : Turn) : Event → PrimaryFlow
  | .none => .scanBlocked
  | .stop => if t.stale then .scanBlocked else .handled
  | .exit _ => if t.halts then .stop else .handled
  | .defer | .park | .fork _ _ | .exec => .handled

/-- The counter of the loop, and the ordinary events handled since the last scan. -/
structure Burst where
  guestEvents : Nat := 0
  sinceScan : Nat := 0

def Burst.turn (b : Burst) (t : Turn) : Burst :=
  -- An ordinary event over the limit is marked again and left to a later turn.
  let deferred := decide (t.claimed ≠ .none) && !coordinatorControlEvent t.claimed &&
    decide (coordinatorEventBurst ≤ b.guestEvents)
  let event := if deferred then .none else t.claimed
  let guestEvents := if deferred then 0 else b.guestEvents
  match t.flow event with
  | .stop => b
  | .handled =>
    if coordinatorControlEvent event then { b with guestEvents := 0 }
    else ⟨guestEvents + 1, b.sinceScan + 1⟩
  | .scanBlocked => ⟨if t.progress then 0 else guestEvents, 0⟩

/-- No control event is claimed between an ordinary event and the scan after it. -/
def Undisturbed : List Turn → Burst → Prop
  | [], _ => True
  | t :: ts, b =>
    (coordinatorControlEvent t.claimed = true → b.guestEvents = 0) ∧ Undisturbed ts (b.turn t)

theorem Burst.turn_bounded {b : Burst} {t : Turn}
    (hb : b.sinceScan ≤ b.guestEvents ∧ b.guestEvents ≤ coordinatorEventBurst)
    (ht : coordinatorControlEvent t.claimed = true → b.guestEvents = 0) :
    (b.turn t).sinceScan ≤ (b.turn t).guestEvents ∧
      (b.turn t).guestEvents ≤ coordinatorEventBurst := by
  obtain ⟨claimed, stale, halts, progress⟩ := t
  cases claimed with
  | none => cases progress <;> simp [turn, Turn.flow, hb.2]
  | defer | park =>
    by_cases hfull : coordinatorEventBurst ≤ b.guestEvents
    · cases progress <;> simp [turn, Turn.flow, coordinatorControlEvent, hfull]
    · simp [turn, Turn.flow, coordinatorControlEvent, hfull]
      omega
  | stop | exit _ | fork _ _ | exec =>
    -- The counter starts anew, and there was nothing since the last scan.
    have hzero := ht rfl
    have hnone : b.sinceScan = 0 := by omega
    cases stale <;> cases halts <;> cases progress <;>
      simp [turn, Turn.flow, coordinatorControlEvent, hzero, hnone]

/-- While control events do not come between them, the coordinator never handles more ordinary
events than the burst without a scan. -/
theorem turns_bounded (ts : List Turn) (h : Undisturbed ts {}) :
    (ts.foldl Burst.turn {}).sinceScan ≤ coordinatorEventBurst := by
  have hrun : ∀ (ts : List Turn) (b : Burst), Undisturbed ts b →
      b.sinceScan ≤ b.guestEvents ∧ b.guestEvents ≤ coordinatorEventBurst →
      (ts.foldl Burst.turn b).sinceScan ≤ coordinatorEventBurst := by
    intro ts
    induction ts with
    | nil => exact fun b _ hb => hb.1.trans hb.2
    | cons t ts ih => exact fun b h hb => ih _ h.2 (Burst.turn_bounded hb h.1)
  exact hrun ts {} h ⟨Nat.le_refl _, Nat.zero_le _⟩

theorem parks_bounded :
    ((List.replicate 5 (⟨.park, false, false, false⟩ : Turn)).foldl Burst.turn {}).sinceScan ≤ 4 :=
  turns_bounded _ (by simp [Undisturbed, coordinatorControlEvent])

/-- An exec in between lets a fifth event through. -/
theorem execAmongParks_unbounded : coordinatorEventBurst < ([.park, .park, .park, .park, .exec,
    .park].foldl (fun b e => Burst.turn b { claimed := e }) {}).sinceScan := by
  decide

end Lxp
