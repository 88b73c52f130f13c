import Lxp.Netfs.Moves

/-!
# Requests and the tasks that wait for them

A live task that waits for a request waits for one of its own (`Awaited`); that holds on every run.
The other direction, that a request with an owner is one its owner still waits for (`Attended`),
holds as long as no task is torn down in the middle of a call.
-/

namespace Lxp.Netfs

open Client Function

variable {C : Config}
variable {s : C.Slot} {ri : Fin nreq}

/-- A request that has an owner stays in use and keeps it. -/
def Held (x y : Client C) : Prop :=
  ∀ ri, (x.reqs ri).state ≠ .free → (x.reqs ri).owner ≠ none →
    (y.reqs ri).state ≠ .free ∧ (y.reqs ri).owner = (x.reqs ri).owner

theorem Held.refl (x : Client C) : Held x x := fun _ hused _ => ⟨hused, rfl⟩

theorem Held.of_same {x y : Client C} (h : Same x y) : Held x y := fun ri hused _ => by
  rw [(h.req ri).state]
  exact ⟨hused, (h.req ri).owner hused⟩

theorem Held.of_update {x y : Client C} {r : NetReq C.nslot} (hreqs : y.reqs = update x.reqs ri r)
    (hr : (x.reqs ri).state ≠ .free → (x.reqs ri).owner ≠ none →
      r.state ≠ .free ∧ r.owner = (x.reqs ri).owner) :
    Held x y := by
  intro rj hused howner
  rw [hreqs]
  by_cases h : rj = ri
  · subst h
    rw [update_self]
    exact hr hused howner
  · rw [update_of_ne h]
    exact ⟨hused, rfl⟩

theorem Held.connDrop (x : Client C) : Held x x.connDrop := by
  intro ri hused howner
  change (dropReq (x.reqs ri)).state ≠ .free ∧ (dropReq (x.reqs ri)).owner = _
  unfold dropReq
  split
  · exact ⟨by simp, rfl⟩
  · exact ⟨hused, rfl⟩

section Steps

variable {v : Option (SlotRef C.nslot)} {F : Faults} {x y : Client C}

theorem Act.held (h : Act v F x y) (hx : Sound x) : Held x y := by
  cases h with
  | quiet h _ | phase h _ _ => exact .of_same h
  | session _ _ h _ => exact fun ri hused howner => Held.of_same h ri hused howner
  | copy | stage => exact .refl x
  | seek | advance => exact .of_update rfl fun hused _ => ⟨hused, rfl⟩
  | abandon hin hop howner =>
    rw [abandon_eq]
    exact .of_update rfl fun _ hne => absurd howner hne
  | fail hin hop =>
    rw [fail_eq hop]
    exact .of_update rfl fun _ _ => ⟨by simp, rfl⟩
  | opened | finish =>
    exact .of_update rfl fun _ _ => ⟨by simp, rfl⟩
  | clunked =>
    rw [clunked_eq]
    exact .of_update rfl fun _ _ => ⟨by simp, rfl⟩
  | @clunkDone ri hin hop =>
    obtain ⟨fids, hfids⟩ := fidFree_eq x (x.reqs ri).fid
    rw [hfids]
    exact .of_update rfl fun hused hne => absurd ((hx.req ri).internal hused hop) hne

theorem Launch.held (h : Launch v x y) : Held x y := by
  cases h with
  | @walk ri f names =>
    exact .of_update (launched_reqs ..) fun _ _ => ⟨by simp, rfl⟩
  | io | refuse => exact .of_update rfl fun _ _ => ⟨by simp, rfl⟩
  | clunk _ _ hfree _ => exact .of_update rfl fun hused => absurd hfree hused

theorem Held.trans {z : Client C} (h : Held x y) (h' : Held y z) : Held x z := by
  intro ri hused howner
  obtain ⟨hused', howner'⟩ := h ri hused howner
  obtain ⟨hused'', howner''⟩ := h' ri hused' (by rw [howner']; exact howner)
  exact ⟨hused'', howner''.trans howner'⟩

theorem Passed.held (h : Passed v F x y) (hx : Sound x) : Held x y :=
  h.invariant hx (.refl x) (fun hy hP hact => hP.trans (hact.held hy))
    (fun _ hP hlaunch => hP.trans hlaunch.held) fun _ _ hP => hP.trans (.connDrop _)

end Steps

namespace World

/-- A live task waits for a request of its own. -/
def Awaited (x : World C) : Prop :=
  ∀ s w ri, (x.tasks s).alive = true → (x.tasks s).wait = some w → w.request = some ri →
    (x.net.reqs ri).state ≠ .free ∧ (x.net.reqs ri).owner = some (x.ref s)

/-- The owner of a request runs and waits for it. -/
def Attended (x : World C) : Prop :=
  ∀ ri ref, (x.net.reqs ri).state ≠ .free → (x.net.reqs ri).owner = some ref →
    x.Current ref ∧ ∃ w, (x.tasks ref.index).wait = some w ∧ w.request = some ri

section Moves

variable {F : Faults} {B : Breaches} {x y : World C}

theorem Awaited.held (hx : x.Awaited) (h : Held x.net y.net) (htasks : y.tasks = x.tasks) :
    y.Awaited := by
  intro s w ri halive hwait hri
  rw [htasks] at halive hwait
  obtain ⟨hused, howner⟩ := hx s w ri halive hwait hri
  obtain ⟨hused', howner'⟩ := h ri hused (by simp [howner])
  refine ⟨hused', howner'.trans ?_⟩
  rw [howner, ref, ref, htasks]

theorem Attended.kept (hx : x.Attended) (h : Kept x.net y.net) (htasks : y.tasks = x.tasks) :
    y.Attended := by
  intro ri ref hused howner
  rw [Current, htasks]
  rcases h ri hused with hkept | hclunk
  · exact hx ri ref hkept.used (by rw [← hkept.owner]; exact howner)
  · rw [hclunk.2] at howner
    cases howner

/-- A step that changes one task alone, which afterwards is gone or waits for no request, and no
request of another task. -/
theorem Awaited.idled (hx : x.Awaited) (hidle : (y.tasks s).alive = true → y.Idle s)
    (htasks : ∀ p, p ≠ s → y.tasks p = x.tasks p)
    (hreqs : ∀ rj, (x.net.reqs rj).owner ≠ some (x.ref s) → y.net.reqs rj = x.net.reqs rj) :
    y.Awaited := by
  intro p w rj halive hwait hrj
  by_cases hp : p = s
  · subst hp
    simp [hidle halive w hwait] at hrj
  rw [htasks p hp] at halive hwait
  obtain ⟨hused, howner⟩ := hx p w rj halive hwait hrj
  have hne : (x.net.reqs rj).owner ≠ some (x.ref s) := by
    rw [howner]
    intro h
    exact hp (congrArg SlotRef.index (Option.some.inj h))
  rw [hreqs rj hne, howner, ref, ref, htasks p hp]
  exact ⟨hused, rfl⟩

/-- A step that changes one task alone, and leaves no request that this task owns. -/
theorem Attended.idled (hx : x.Attended) (htasks : ∀ p, p ≠ s → y.tasks p = x.tasks p)
    (hreqs : ∀ rj ref, (y.net.reqs rj).state ≠ .free → (y.net.reqs rj).owner = some ref →
      (x.net.reqs rj).state ≠ .free ∧ (x.net.reqs rj).owner = some ref ∧ ref.index ≠ s) :
    y.Attended := by
  intro rj ref hused howner
  obtain ⟨hused', howner', hindex⟩ := hreqs rj ref hused howner
  rw [Current, htasks _ hindex]
  exact hx rj ref hused' howner'

variable {rj : Fin nreq}

theorem Attended.only (hx : x.Attended) (hwaits : x.Waits s ri)
    {ref : SlotRef C.nslot} (hused : (x.net.reqs rj).state ≠ .free)
    (howner : (x.net.reqs rj).owner = some ref) (hindex : ref.index = s) : rj = ri := by
  obtain ⟨-, w, hw, hrj⟩ := hx rj ref hused howner
  obtain ⟨w', hw', hri⟩ := hwaits.wait
  rw [hindex, hw'] at hw
  cases hw
  rw [hri] at hrj
  exact (Option.some.inj hrj).symm

theorem Attended.none_of_idle (hx : x.Attended) (hidle : x.Idle s)
    {ref : SlotRef C.nslot} (hused : (x.net.reqs rj).state ≠ .free)
    (howner : (x.net.reqs rj).owner = some ref) : ref.index ≠ s := by
  rintro rfl
  obtain ⟨-, w, hw, hrj⟩ := hx rj ref hused howner
  simp [hidle w hw] at hrj

theorem Awaited.issue (hx : x.Awaited) (s : C.Slot) (hfree : (x.net.reqs ri).state = .free)
    (r : NetReq C.nslot) : (x.issue s ri r).Awaited := by
  intro p w rj halive hwait hrj
  by_cases hp : p = s
  · subst hp
    have hw : w = { op := r.op, request := some ri } := by
      simpa [World.issue, updTask] using hwait.symm
    rw [hw] at hrj
    cases hrj
    simp [World.issue, updTask, updReq, ref]
  have htask : (x.issue s ri r).tasks p = x.tasks p := update_of_ne hp _ _
  rw [htask] at halive hwait
  obtain ⟨hused, howner⟩ := hx p w rj halive hwait hrj
  have hne : rj ≠ ri := by
    rintro rfl
    exact hused hfree
  have hreq : (x.issue s ri r).net.reqs rj = x.net.reqs rj := update_of_ne hne _ _
  rw [hreq, howner, ref, ref, htask]
  exact ⟨hused, rfl⟩

theorem Attended.issue (hx : x.Attended) (halive : (x.tasks s).alive = true)
    (hwait : (x.tasks s).wait = none) (ri : Fin nreq) (r : NetReq C.nslot) :
    (x.issue s ri r).Attended := by
  intro rj ref hused howner
  by_cases hrj : rj = ri
  · subst hrj
    have href : ref = x.ref s := by
      simpa [World.issue, updTask, updReq] using howner.symm
    subst href
    exact ⟨⟨by simpa [World.issue, updTask, World.ref] using halive,
      by simp [World.issue, updTask, World.ref]⟩, by simp [World.issue, updTask, World.ref]⟩
  have hreq : (x.issue s ri r).net.reqs rj = x.net.reqs rj := update_of_ne hrj _ _
  rw [hreq] at hused howner
  have hidle : x.Idle s := fun w hw => by simp [hwait] at hw
  have hindex := hx.none_of_idle hidle hused howner
  have htask : (x.issue s ri r).tasks ref.index = x.tasks ref.index := update_of_ne hindex _ _
  rw [Current, htask]
  exact hx rj ref hused howner

theorem taken_reqs_of_ne (h : rj ≠ ri) :
    (x.taken s ri).net.reqs rj = x.net.reqs rj := update_of_ne h _ _

theorem cancelled_reqs_of_ne (h : rj ≠ ri) : (x.cancelled ri).net.reqs rj = x.net.reqs rj := by
  by_cases hflight : (x.net.reqs ri).state = .inflight
  · rw [cancelled_inflight hflight]
    exact update_of_ne h _ _
  · rw [cancelled_parked hflight]
    exact update_of_ne h _ _

theorem cancelled_unowned :
    ((x.cancelled ri).net.reqs ri).state = .free ∨ ((x.cancelled ri).net.reqs ri).owner = none := by
  by_cases hflight : (x.net.reqs ri).state = .inflight
  · rw [cancelled_inflight hflight]
    simp
  · rw [cancelled_parked hflight]
    simp

theorem close_reqs (net : Client C) (oi : Fin nopen) : (net.close oi).reqs = net.reqs := by
  obtain ⟨fids, clunks, opens, h⟩ := net.close_eq oi
  rw [h]

theorem Move.awaited (h : Move F B x y) (hsound : Sound x.net) (hx : x.Awaited) : y.Awaited := by
  have hne : ∀ {s : C.Slot} {ri rj : Fin nreq}, x.Waits s ri →
      (x.net.reqs rj).owner ≠ some (x.ref s) → rj ≠ ri := by
    rintro s ri rj hwaits howner rfl
    exact howner hwaits.owner
  cases h with
  | tasks halive hgeneration hwait =>
    intro s w ri hs hw hri
    rw [halive] at hs
    rw [hwait] at hw
    have hown := hx s w ri hs hw hri
    rw [ref]
    rw [hgeneration]
    exact hown
  | quiet h _ => exact hx.held (.of_same h) rfl
  | stageOwner => exact hx
  | pump _ _ h => exact hx.held (h.held hsound) rfl
  | issue _ _ hfree => exact hx.issue _ hfree _
  | @issueOpen s ri r _ _ hfree => exact (hx.issue s hfree r).held (.refl _) rfl
  | @take s ri hwaits | @install s ri d hwaits =>
    exact hx.idled (fun _ => taken_idle s ri) (fun p hp => update_of_ne hp _ _)
      fun rj howner => taken_reqs_of_ne (hne hwaits howner)
  | @discard s ri hwaits =>
    refine hx.idled (fun _ => taken_idle s ri) (fun p hp => update_of_ne hp _ _) fun rj howner => ?_
    rw [close_reqs]
    exact taken_reqs_of_ne (hne hwaits howner)
  | @unwait s =>
    exact hx.idled (fun _ => by simp [Idle, World.unwait, updTask])
      (fun p hp => update_of_ne hp _ _) fun _ _ => rfl
  | @cancel s ri hwaits =>
    exact hx.idled (fun _ => by simp [Idle, World.unwait, updTask])
      (fun p hp => update_of_ne hp _ _) fun rj howner => cancelled_reqs_of_ne (hne hwaits howner)
  | @close d oi =>
    refine hx.held (fun ri hused howner => ?_) rfl
    rw [close_reqs]
    exact ⟨hused, rfl⟩
  | @exit s =>
    exact hx.idled (s := s) (fun h => by simp [World.reassign, updTask] at h)
      (fun p hp => by simp [World.reassign, updTask, update_of_ne hp]) fun _ _ => rfl
  | @reassign s hwait =>
    exact hx.idled (s := s) (fun _ => by simp [Idle, World.reassign, updTask, hwait])
      (fun p hp => by simp [World.reassign, updTask, update_of_ne hp]) fun _ _ => rfl
  | @spawn s group =>
    exact hx.idled (s := s) (fun _ => by simp [Idle, World.reassign, updTask])
      (fun p hp => by simp [World.reassign, updTask, update_of_ne hp]) fun _ _ => rfl

theorem Move.attended (h : Move F B x y) (htorn : ¬B.torn) (hsound : Sound x.net)
    (hx : x.Attended) : y.Attended := by
  -- a request that is free or has no owner afterwards was the only one of its task
  have hgone : ∀ {z : World C} {s : C.Slot} {ri : Fin nreq}, x.Waits s ri →
      (∀ p, p ≠ s → z.tasks p = x.tasks p) →
      (∀ rj, rj ≠ ri → z.net.reqs rj = x.net.reqs rj) →
      ((z.net.reqs ri).state = .free ∨ (z.net.reqs ri).owner = none) → z.Attended := by
    intro z s ri hwaits htasks hothers hri
    refine hx.idled htasks fun rj ref hused howner => ?_
    have hne : rj ≠ ri := by
      rintro rfl
      rcases hri with h | h
      · exact hused h
      · simp [h] at howner
    rw [hothers rj hne] at hused howner
    exact ⟨hused, howner, fun hindex => hne (hx.only hwaits hused howner hindex)⟩
  have htakenFree : ∀ {s : C.Slot} {ri : Fin nreq},
      ((x.taken s ri).net.reqs ri).state = .free ∨ ((x.taken s ri).net.reqs ri).owner = none := by
    simp [World.taken, updTask, record, updReq]
  cases h with
  | tasks halive hgeneration hwait =>
    intro ri ref hused howner
    rw [Current, halive, hgeneration, hwait]
    exact hx ri ref hused howner
  | quiet h _ => exact hx.kept (.of_same h) rfl
  | stageOwner => exact hx
  | pump _ _ h => exact hx.kept (h.kept hsound) rfl
  | issue halive hwait => exact hx.issue halive hwait _ _
  | @issueOpen s ri r halive hwait => exact (hx.issue halive hwait ri r).kept (.refl _) rfl
  | @take s ri hwaits | @install s ri d hwaits =>
    exact hgone hwaits (fun p hp => update_of_ne hp _ _) (fun rj => taken_reqs_of_ne) htakenFree
  | @discard s ri hwaits =>
    refine hgone hwaits (fun p hp => update_of_ne hp _ _) (fun rj hrj => ?_) ?_
    · rw [close_reqs]
      exact taken_reqs_of_ne hrj
    · rw [close_reqs]
      exact htakenFree
  | @unwait s hnone =>
    refine hx.idled (fun p hp => update_of_ne hp _ _) fun rj ref hused howner => ⟨hused, howner, ?_⟩
    rintro rfl
    obtain ⟨hcurrent, w, hw, hrj⟩ := hx rj ref hused howner
    refine hnone w rj hw hrj ?_
    have howner : (x.net.reqs rj).owner = some ref := howner
    rw [howner, World.ref, hcurrent.2]
  | @cancel s ri hwaits =>
    exact hgone hwaits (fun p hp => update_of_ne hp _ _) (fun rj => cancelled_reqs_of_ne)
      cancelled_unowned
  | @close d oi =>
    refine hx.kept (fun ri hused => ?_) rfl
    rw [close_reqs] at hused ⊢
    exact .inl (.refl hused)
  | @exit s halive hidle =>
    have hidle : x.Idle s := hidle.resolve_right htorn
    exact hx.idled (fun p hp => by simp [World.reassign, updTask, update_of_ne hp])
      fun rj ref hused howner => ⟨hused, howner, hx.none_of_idle hidle hused howner⟩
  | @reassign s hwait =>
    have hidle : x.Idle s := fun w hw => by simp [hwait] at hw
    exact hx.idled (fun p hp => by simp [World.reassign, updTask, update_of_ne hp])
      fun rj ref hused howner => ⟨hused, howner, hx.none_of_idle hidle hused howner⟩
  | @spawn s group hdead =>
    refine hx.idled (s := s) (fun p hp => by simp [World.reassign, updTask, update_of_ne hp])
      fun rj ref hused howner => ⟨hused, howner, ?_⟩
    rintro rfl
    have hcurrent := (hx rj ref hused howner).1.1
    rw [hdead] at hcurrent
    cases hcurrent

end Moves

/-! ## Runs -/

variable {x : World C}

theorem Runs.awaited {ok : World C → Event C → Prop} (h : Runs ok x) : Sound x.net ∧ x.Awaited :=
  h.induct (fun _ s w ri halive => by simp at halive) (fun _ _ _ s w ri halive => by simp at halive)
    fun {x e} _ _ _ => ⟨.any, .any,
      meets_any x e _ (fun _ _ _ _ => .inr trivial) trivial trivial trivial trivial trivial,
      fun _ hsound hP hmove => hmove.awaited hsound hP⟩

/-- A task is torn down only while it waits for no request. -/
def ExitsIdle (x : World C) : Event C → Prop
  | .handleExit s =>
    (x.tasks s).alive = true → (x.tasks s).intent ∈ [Intent.exit true, .exit false] → x.Idle s
  | _ => True

theorem Runs.attended (h : Runs ExitsIdle x) : x.Attended := by
  have hinduct := h.induct (fun wire ri ref hused => absurd rfl hused)
    (fun hsound hP hact => hP.kept (hact.kept hsound) rfl)
    fun {x e} _ _ hok => ⟨.any, ⟨True, True, False, True, True, True⟩,
      meets_any x e _ (fun s he halive hintent => by
      subst he
      exact .inl (hok halive hintent)) trivial trivial trivial trivial trivial,
      fun _ hsound hP hmove => hmove.attended (fun h => h) hsound hP⟩
  exact hinduct.2

/-- Tearing down a task that waits for a request leaves the request with an owner that is gone. -/
theorem handleExit_not_attended (hx : x.Awaited) (halive : (x.tasks s).alive = true)
    (hintent : (x.tasks s).intent ∈ [Intent.exit true, .exit false]) (hwaits : ¬x.Idle s) :
    ¬(x.step (.handleExit s)).Attended := by
  simp only [Idle, not_forall] at hwaits
  obtain ⟨w, hw, hne⟩ := hwaits
  obtain ⟨ri, hri⟩ := Option.ne_none_iff_exists'.mp hne
  obtain ⟨hused, howner⟩ := hx s w ri halive hw hri
  have hstep : x.step (.handleExit s) = x.handleExit s := if_pos ⟨halive, hintent⟩
  have hreqs : (x.handleExit s).net.reqs = x.net.reqs := by
    unfold handleExit
    split <;> rfl
  have hdead : ((x.handleExit s).tasks s).alive = false := by
    simp [handleExit, World.reassign, updTask]
  intro hattended
  rw [hstep] at hattended
  rw [← hreqs] at hused howner
  have hcurrent := (hattended ri _ hused howner).1.1
  rw [ref, hdead] at hcurrent
  cases hcurrent

/-- As long as only idle tasks are torn down, every request with an owner is one that its owner
waits for, so nobody who is gone has the connection; and the first exit of a task that waits breaks
it. -/
theorem owners_wait_iff_exitsIdle {x : World C} (h : Runs ExitsIdle x) : x.Attended ∧
      (∀ ri ref, x.net.inflight = some ri → (x.net.reqs ri).owner = some ref → x.Current ref) ∧
      ∀ e, (x.step e).Attended ↔ x.ExitsIdle e := by
  obtain ⟨hsound, hawaited⟩ := h.awaited
  refine ⟨h.attended, fun ri ref hin howner => ?_, fun e => ⟨fun hattended => ?_, fun hok => ?_⟩⟩
  · exact (h.attended ri ref (by simp [hsound.state_of_inflight hin]) howner).1
  · cases e with
    | handleExit s =>
      intro halive hintent
      by_contra hwaits
      exact handleExit_not_attended hawaited halive hintent hwaits hattended
    | _ => trivial
  · exact (Runs.step e h hok).attended

/-- Whatever happens, a task waits for a request that is in use and its own, so no two tasks wait
for the same. -/
theorem waits_own (now : Nat) (wire : Wire) (events : List (Event C)) :
    let x := (init C now wire).run events
    x.Awaited ∧ ∀ s t w w' ri, (x.tasks s).alive = true → (x.tasks t).alive = true →
      (x.tasks s).wait = some w → (x.tasks t).wait = some w' → w.request = some ri →
      w'.request = some ri → s = t := by
  intro x
  have hruns : Runs (fun _ _ => True) x := .run (.init now wire) fun _ _ _ => trivial
  have hx := hruns.awaited.2
  refine ⟨hx, fun s t w w' ri hs ht hw hw' hri hri' => ?_⟩
  have howner := (hx s w ri hs hw hri).2.symm.trans (hx t w' ri ht hw' hri').2
  exact congrArg SlotRef.index (Option.some.inj howner)

/-! ## A system of two tasks -/

def sample : Config where
  nslot := 2
  nofd := 2
  word := .word32
  mountpoint := [47]
  uname := []
  aname := []
  stageCap := 64

instance : NeZero sample.nslot := ⟨by decide⟩

instance : NeZero sample.nofd := ⟨by decide⟩

/-- A socket that takes every message and gives `recvs`. -/
def answers (recvs : List RecvAnswer) : Wire :=
  { sends := List.replicate 8 (.accepted msizeMax), recvs := recvs }

/-- The replies that bring the connection up. -/
def handshake : Wire :=
  answers
    [.data (message .rversion 1 (LittleEndian.write 4 msizeMax ++ putstr versionName)), .empty,
      .data (message .rattach 1 (LittleEndian.write 13 0)), .empty]

def retrying (recvs : List RecvAnswer) : RetryInput sample where
  now := 1
  wire := answers recvs
  access _ _ := true
  install := some 0
  imageOk := true

theorem exitsIdle_of_none {x : World C} (h : (x.tasks s).wait = none) :
    x.ExitsIdle (.handleExit s) := fun _ _ w hw => by simp [h] at hw

/-- Two threads leave by `exit_group` while neither waits, and slot 0 gets a new process. -/
theorem runs_regrouped : Runs ExitsIdle ((init sample 1 handshake).run
    [.spawn 0 1, .spawn 1 1, .exitCall 1 true, .handleExit 1, .handleExit 0, .spawn 0 2]) := by
  have hruns : Runs ExitsIdle ((init sample 1 handshake).run
      [.spawn 0 1, .spawn 1 1, .exitCall 1 true]) :=
    (Runs.init 1 handshake).run (by simp [ExitsIdle])
  have hexit := hruns.step (.handleExit 1) (exitsIdle_of_none (by decide +kernel))
  have hboth := hexit.step (.handleExit 0) (exitsIdle_of_none (by decide +kernel))
  exact hboth.step (.spawn 0 2) trivial

theorem owners_wait_of_stat : ((init sample 1 handshake).run [.spawn 0 1, .spawn 1 1,
      .exitCall 1 true, .handleExit 1, .handleExit 0, .spawn 0 2, .netfsStat 0 [97] 0 .kstat64,
      .retry 0 (retrying [])]).Attended :=
  (owners_wait_iff_exitsIdle ((runs_regrouped.step (.netfsStat 0 [97] 0 .kstat64) trivial).step
    (.retry 0 (retrying [])) trivial)).1

/-- Two threads of one process: one waits for a reply, the other one calls `exit_group`, and both
are torn down.  The request stays on the wire for a task that is gone. -/
def stranding : List (Event sample) :=
  [.spawn 0 1, .spawn 1 1, .netfsStat 0 [97] 4096 .kstat64, .retry 0 (retrying []),
    .exitCall 1 true, .handleExit 1, .handleExit 0]

theorem exit_group_strands_request :
    ∃ x : World sample, Runs (fun _ _ => True) x ∧ x.net.inflight = some 0 ∧
      (x.net.reqs 0).owner = some ⟨0, 1⟩ ∧ (x.tasks 0).alive = false ∧ ¬x.Attended := by
  refine ⟨(init sample 1 handshake).run stranding,
    (Runs.init 1 handshake).run (fun _ _ _ => trivial), by decide +kernel, by decide +kernel,
    by decide +kernel, fun hattended => ?_⟩
  have hcurrent := (hattended 0 ⟨0, 1⟩ (by decide +kernel) (by decide +kernel)).1.1
  exact absurd hcurrent (by decide +kernel)

end World

end Lxp.Netfs
