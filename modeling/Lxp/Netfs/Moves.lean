import Lxp.Netfs.Refine

/-!
# What one event does to tasks, descriptions and the client

Every event of the system is a sequence of the moves below.  An invariant of the whole system is
therefore proved once per move.
-/

namespace Lxp.Netfs

open Client Function Option

variable {C : Config}
variable {s : C.Slot}

/-- No open is queued or in flight. -/
def Client.NoOpen (x : Client C) : Prop :=
  ∀ ri, (x.reqs ri).op = .openFile → (x.reqs ri).state = .free ∨ (x.reqs ri).state = .done

/-- A queued open will find a fid. -/
def Client.FidsLeft (x : Client C) : Prop :=
  (∃ ri, (x.reqs ri).state = .queued ∧ (x.reqs ri).op = .openFile) → x.fidFirst ≠ none

/-- An open that will still install a descriptor or give its pool entry back. -/
def NetReq.Opening {n : Nat} (r : NetReq n) : Prop :=
  r.op = .openFile ∧
    (r.state = .queued ∨ r.state = .inflight ∨ (r.state = .done ∧ 0 ≤ r.result))

instance {n : Nat} (r : NetReq n) : Decidable r.Opening :=
  inferInstanceAs (Decidable (_ ∧ _))

/-- Who names a pool entry: descriptions, and opens in progress. -/
def names (descs : Fin C.nofd → Option (Fin nopen)) (x : Client C) :
    Fin C.nofd ⊕ Fin nreq → Option (Fin nopen)
  | .inl d => descs d
  | .inr ri => if (x.reqs ri).Opening then some (x.reqs ri).oi else none

namespace World

/-- Departures from what an invariant may need; a move that departs says so. -/
structure Breaches where
  -- A path with more components than one walk takes is opened.
  path : Prop
  -- An interrupted task's finished open gave its pool entry back, and somebody else has it.
  reused : Prop
  -- A task is torn down while it waits for a request.
  torn : Prop
  -- The connection drops while an open is queued or in flight.
  stranded : Prop
  -- An open is queued and no fid is free.
  exhausted : Prop
  -- A fid of an earlier connection is given back on this one.
  outdated : Prop

def Breaches.any : Breaches := ⟨True, True, True, True, True, True⟩

/-- What a pass finds. -/
structure Provided (F : Faults) (B : Breaches) (x : Client C) : Prop where
  opens : F.drop → x.NoOpen ∨ B.stranded
  fids : x.FidsLeft ∨ B.exhausted

def Current (x : World C) (ref : SlotRef C.nslot) : Prop :=
  (x.tasks ref.index).alive = true ∧ (x.tasks ref.index).generation = ref.generation

/-- A request as the calls make it. -/
structure Unsent (r : NetReq C.nslot) : Prop where
  op : r.op ≠ .clunk
  step : r.step = 0
  fid : r.fid = 0
  off : r.off = 0

/-- The task waits for exactly this request, which is its own. -/
structure Waits (x : World C) (s : C.Slot) (ri : Fin nreq) : Prop where
  alive : (x.tasks s).alive = true
  owner : (x.net.reqs ri).owner = some (x.ref s)
  wait : ∃ w, (x.tasks s).wait = some w ∧ w.request = some ri

def Idle (x : World C) (s : C.Slot) : Prop :=
  ∀ w, (x.tasks s).wait = some w → w.request = none

/-- Nobody has the pool entry of a failed open. -/
def EntryGone (x : World C) (ri : Fin nreq) : Prop :=
  (x.net.reqs ri).op = .openFile → (x.net.reqs ri).state = .done → (x.net.reqs ri).result < 0 →
    ∀ n, names x.descs x.net n ≠ some (x.net.reqs ri).oi

/-- A finished request has no fid, or it is a successful open of this connection. -/
def FidCurrent (x : World C) (ri : Fin nreq) : Prop :=
  (x.net.reqs ri).state = .done → (x.net.reqs ri).fid ≠ 0 →
    (x.net.reqs ri).Opening ∧ (x.net.opens (x.net.reqs ri).oi).stale = false

/-- The fid of an open of an earlier connection is not in use on this one. -/
def CloseCurrent (x : World C) (oi : Fin nopen) : Prop :=
  (x.net.opens oi).stale = true → x.net.fids (x.net.opens oi).fid = false

/-- The result of an open of an earlier connection finds a description. -/
def TakesCurrent (x : World C) (s : C.Slot) (install : Option (Fin C.nofd)) : Prop :=
  ∀ w ri, (x.tasks s).wait = some w → w.request = some ri →
    (x.net.opens (x.net.reqs ri).oi).stale = false ∨
      (install.filter fun d => (x.descs d).isNone) ≠ none

def unwait (x : World C) (s : C.Slot) : World C := x.updTask s fun t => { t with wait := none }

inductive Move (F : Faults) (B : Breaches) : World C → World C → Prop where
  | tasks {x : World C} {tasks : C.Slot → Task}
      (halive : ∀ s, (tasks s).alive = (x.tasks s).alive)
      (hgeneration : ∀ s, (tasks s).generation = (x.tasks s).generation)
      (hwait : ∀ s, (tasks s).wait = (x.tasks s).wait) : Move F B x { x with tasks := tasks }
  | quiet {x : World C} {net : Client C} (h : Same x.net net) (hconn : net.conn = x.net.conn) :
      Move F B x { x with net := net }
  | stageOwner {x : World C} {owner : Option C.Slot} :
      Move F B x { x with stageOwner := owner }
  | pump {x : World C} {net : Client C} {v : Option (SlotRef C.nslot)}
      (hv : ∀ ref, v = some ref → x.Current ref) (hfound : Provided F B x.net)
      (h : Passed v F x.net net) :
      Move F B x { x with net := net }
  | issue {x : World C} {s : C.Slot} {ri : Fin nreq} {r : NetReq C.nslot}
      (halive : (x.tasks s).alive = true) (hwait : (x.tasks s).wait = none)
      (hfree : (x.net.reqs ri).state = .free) (hr : Unsent r) (hop : r.op ≠ .openFile) :
      Move F B x (x.issue s ri r)
  | issueOpen {x : World C} {s : C.Slot} {ri : Fin nreq} {r : NetReq C.nslot}
      (halive : (x.tasks s).alive = true) (hwait : (x.tasks s).wait = none)
      (hfree : (x.net.reqs ri).state = .free) (hr : Unsent r) (hop : r.op = .openFile)
      (hunused : (x.net.opens r.oi).used = false)
      (hpath : pathSplit r.path ≠ none ∨ B.path) :
      Move F B x { x.issue s ri r with
        net := (x.issue s ri r).net.updOpen r.oi fun _ => { used := true } }
  | take {x : World C} {s : C.Slot} {ri : Fin nreq} (hwaits : x.Waits s ri)
      (hdone : (x.net.reqs ri).state = .done)
      (hnot : ¬((x.net.reqs ri).op = .openFile ∧ (x.net.reqs ri).result ≥ 0)) :
      Move F B x (x.taken s ri)
  | install {x : World C} {s : C.Slot} {ri : Fin nreq} {d : Fin C.nofd}
      (hwaits : x.Waits s ri) (hdone : (x.net.reqs ri).state = .done)
      (hop : (x.net.reqs ri).op = .openFile) (hresult : (x.net.reqs ri).result ≥ 0)
      (hd : x.descs d = none) :
      Move F B x { x.taken s ri with
        descs := update x.descs d (some (x.net.reqs ri).oi) }
  | discard {x : World C} {s : C.Slot} {ri : Fin nreq} (hwaits : x.Waits s ri)
      (hdone : (x.net.reqs ri).state = .done) (hop : (x.net.reqs ri).op = .openFile)
      (hresult : (x.net.reqs ri).result ≥ 0) (hroom : Roomy F x.net)
      (hfresh : (x.net.conn.inSession = true → (x.net.opens (x.net.reqs ri).oi).stale = false) ∨
        B.outdated) :
      Move F B x { x.taken s ri with net := (x.taken s ri).net.close (x.net.reqs ri).oi }
  | unwait {x : World C} {s : C.Slot}
      (h : ∀ w ri, (x.tasks s).wait = some w → w.request = some ri →
        (x.net.reqs ri).owner ≠ some (x.ref s)) : Move F B x (x.unwait s)
  | cancel {x : World C} {s : C.Slot} {ri : Fin nreq} (hwaits : x.Waits s ri)
      (hslot : x.EntryGone ri ∨ B.reused) (hfresh : x.FidCurrent ri ∨ B.outdated)
      (hroom : Roomy F x.net) : Move F B x ((x.cancelled ri).unwait s)
  | close {x : World C} {d : Fin C.nofd} {oi : Fin nopen} (hd : x.descs d = some oi)
      (hroom : Roomy F x.net) (hfresh : x.CloseCurrent oi ∨ B.outdated) :
      Move F B x { x with net := x.net.close oi, descs := update x.descs d none }
  | exit {x : World C} {s : C.Slot} (halive : (x.tasks s).alive = true)
      (hidle : x.Idle s ∨ B.torn) :
      Move F B x ((x.updTask s fun t => { t with alive := false }).reassign s)
  | reassign {x : World C} {s : C.Slot} (hwait : (x.tasks s).wait = none) :
      Move F B x (x.reassign s)
  | spawn {x : World C} {s : C.Slot} {group : Nat} (hdead : (x.tasks s).alive = false) :
      Move F B x ((x.updTask s fun t =>
        { alive := true, generation := t.generation, group := group }).reassign s)

abbrev Moves (F : Faults) (B : Breaches) : World C → World C → Prop :=
  Relation.ReflTransGen (Move F B)

/-- What an event needs for its moves to depart from nothing but `F` and `B`. -/
def Meets (F : Faults) (B : Breaches) (x : World C) : Event C → Prop
  | .netfsOpen _ path _ => pathSplit path ≠ none ∨ B.path
  | .retry s input =>
    Passing F (x.net.withWire input.wire) ∧ Provided F B x.net ∧
      (x.net.clunks.length + 2 < nclunk ∨ F.full) ∧ (x.TakesCurrent s input.install ∨ B.outdated)
  | .tick _ wire => Passing F (x.net.withWire wire) ∧ Provided F B x.net
  | .signal s _ | .cont s _ =>
    Roomy F x.net ∧
      ∀ w ri, (x.tasks s).wait = some w → w.request = some ri →
        (x.EntryGone ri ∨ B.reused) ∧ (x.FidCurrent ri ∨ B.outdated)
  | .close d =>
    Roomy F x.net ∧ ∀ oi, x.descs d = some oi → x.CloseCurrent oi ∨ B.outdated
  | .handleExit s =>
    (x.tasks s).alive = true → (x.tasks s).intent ∈ [Intent.exit true, .exit false] →
      x.Idle s ∨ B.torn
  | _ => True

section Steps

variable {F : Faults} {B : Breaches} {x : World C}

theorem move_task {f : Task → Task} (halive : ∀ t, (f t).alive = t.alive)
    (hgeneration : ∀ t, (f t).generation = t.generation) (hwait : ∀ t, (f t).wait = t.wait) :
    Move F B x (x.updTask s f) := by
  refine .tasks (fun p => ?_) (fun p => ?_) (fun p => ?_) <;>
    by_cases h : p = s <;> simp [h, halive, hgeneration, hwait]

theorem move_setIntent (s : C.Slot) (intent : Intent) : Move F B x (x.setIntent s intent) :=
  move_task (fun _ => rfl) (fun _ => rfl) (fun _ => rfl)

theorem firstFree_free {ri : Fin nreq} (h : x.net.firstFree = some ri) :
    (x.net.reqs ri).state = .free := by
  simpa using List.find?_some h

theorem execStageClaim_moves (x : World C) (s : C.Slot) : Moves F B x (x.execStageClaim s).2 := by
  unfold execStageClaim
  split
  · exact .refl
  split
  · exact .refl
  · exact .single .stageOwner

section

variable (h : x.calling s = true)
include h

theorem calling_spec : (x.tasks s).alive = true ∧ (x.tasks s).wait = none := by
  unfold calling at h
  simp only [Bool.and_eq_true, isNone_iff_eq_none] at h
  exact ⟨h.1.1.1, h.1.1.2⟩

theorem park_moves {r : NetReq C.nslot} (hr : Unsent r)
    (hop : r.op ≠ .openFile) : Moves F B x (x.park s r).2 := by
  obtain ⟨halive, hwait⟩ := calling_spec h
  unfold park reqNew
  cases hfree : x.net.firstFree with
  | none => exact .refl
  | some ri => exact .single (.issue halive hwait (firstFree_free hfree) hr hop)

theorem netfsOpen_moves {path : Bytes} (hpath : pathSplit path ≠ none ∨ B.path) (flags : Nat) :
    Moves F B x (x.netfsOpen s path flags).2 := by
  obtain ⟨halive, hwait⟩ := calling_spec h
  unfold netfsOpen
  split
  · exact .refl
  split
  · exact .refl
  split
  · exact .refl
  rename_i oi hoi
  have hunused : (x.net.opens oi).used = false := by
    simpa using List.find?_some hoi
  unfold reqNew
  cases hfree : x.net.firstFree with
  | none => exact .refl
  | some ri =>
    exact .single (.issueOpen halive hwait (firstFree_free hfree) ⟨by simp, rfl, rfl, rfl⟩ rfl
      hunused hpath)

theorem netfsStat_moves (path : Bytes) (ustat : Nat)
    (statkind : StatKind) : Moves F B x (x.netfsStat s path ustat statkind).2 := by
  unfold netfsStat
  split
  · exact .refl
  · exact park_moves h ⟨by simp, rfl, rfl, rfl⟩ (by simp)

theorem netfsRead_moves (oi : Fin nopen) (ubuf len : Nat)
    (access : Nat → Nat → Bool) : Moves F B x (x.netfsRead s oi ubuf len access).2 := by
  unfold netfsRead
  split
  · exact .refl
  split
  · exact .refl
  split
  · exact .refl
  split
  · exact .refl
  · split
    · exact .refl
    · exact park_moves h ⟨by simp, rfl, rfl, rfl⟩ (by simp)

theorem netfsGetdents_moves (oi : Fin nopen) (ubuf cap : Nat) (is64 : Bool)
    (access : Nat → Nat → Bool) : Moves F B x (x.netfsGetdents s oi ubuf cap is64 access).2 := by
  unfold netfsGetdents
  split
  · exact .refl
  split
  · exact .refl
  split
  · exact .refl
  · split
    · exact .refl
    · exact park_moves h ⟨by simp, rfl, rfl, rfl⟩ (by simp)

theorem netfsExecFetch_moves (path : Bytes) : Moves F B x (x.netfsExecFetch s path).2 := by
  have hclaim := execStageClaim_moves (F := F) (B := B) x s
  have hcalling : (x.execStageClaim s).2.calling s = true := by
    unfold execStageClaim
    split
    · exact h
    · split <;> exact h
  unfold netfsExecFetch
  split
  · exact .refl
  split
  · rename_i heq
    rwa [heq] at hclaim
  · rename_i y heq
    rw [heq] at hclaim hcalling
    have hreset : Move F B y { y with net := { y.net with execSize := 0 } } :=
      .quiet (.of_eq rfl) rfl
    have hpark := park_moves (F := F) (B := B) (x := { y with net := { y.net with execSize := 0 } })
      hcalling (r := { op := .execfetch, path := path }) ⟨by simp, rfl, rfl, rfl⟩ (by simp)
    exact (hclaim.tail hreset).trans hpark

end

theorem sysExecve_moves (size : Option Nat) : Moves F B x (x.sysExecve s size) := by
  have hclaim : Moves F B x (size.elim (none, x) fun _ => x.execStageClaim s).2 := by
    cases size with
    | none => exact .refl
    | some => exact execStageClaim_moves x s
  unfold sysExecve
  split
  · rename_i heq
    rwa [heq] at hclaim
  · rename_i heq
    rw [heq] at hclaim
    split
    · exact hclaim
    · exact hclaim.tail (move_setIntent s .exec)

theorem netfsLseek_moves (oi : Fin nopen) (off : Int) (whence : Nat) :
    Moves F B x (x.netfsLseek oi off whence).2 := by
  unfold netfsLseek
  split
  · exact .refl
  split
  · exact .refl
  dsimp only
  generalize (if whence = 1 then _ else _) = base
  split
  · exact .refl
  · split
    · exact .refl
    · exact .single (.quiet (.updOpen _ _ rfl rfl rfl) rfl)

theorem unwait_of_none (h : x.Idle s) : Move F B x (x.unwait s) :=
  .unwait fun w ri hw hri => by simp [h w hw] at hri

theorem interruptWait_moves (halive : (x.tasks s).alive = true) (hroom : Roomy F x.net)
    (hslot : ∀ w ri, (x.tasks s).wait = some w → w.request = some ri → (x.EntryGone ri ∨ B.reused) ∧
      (x.FidCurrent ri ∨ B.outdated)) :
    Moves F B x (x.interruptWait s) := by
  unfold interruptWait netfsCancel
  cases hwait : (x.tasks s).wait with
  | none => exact .single (unwait_of_none fun w hw => by simp [hwait] at hw)
  | some w =>
    cases hri : w.request with
    | none =>
      simp only [hri]
      exact .single (unwait_of_none fun w' hw' => by
        rw [hwait] at hw'
        cases hw'
        exact hri)
    | some ri =>
      simp only [hri]
      split
      · rename_i howner
        refine .single (.unwait fun w' rj hw' hrj => ?_)
        rw [hwait] at hw'
        cases hw'
        rw [hri] at hrj
        cases hrj
        exact howner
      · rename_i howner
        obtain ⟨hgone, hcurrent⟩ := hslot w ri hwait hri
        exact .single (.cancel ⟨halive, not_not.mp howner, w, hwait, hri⟩ hgone hcurrent hroom)

theorem taken_idle (s : C.Slot) (ri : Fin nreq) : (x.taken s ri).Idle s := by
  intro w hw
  simp only [taken, updTask, update_self, map_eq_some_iff] at hw
  obtain ⟨-, -, rfl⟩ := hw
  rfl

/-- A finished request: its result is taken, and the task no longer waits for a request. -/
theorem takeResult_moves {ri : Fin nreq} (hwaits : x.Waits s ri)
    (hdone : (x.net.reqs ri).state = .done) (hroom : Roomy F x.net) (input : RetryInput C)
    (hfresh : (input.install.filter fun d => (x.descs d).isNone) = none →
      (x.net.conn.inSession = true → (x.net.opens (x.net.reqs ri).oi).stale = false) ∨ B.outdated) :
    Moves F B x (x.takeResult s ri input).2 ∧ (x.takeResult s ri input).2.Idle s := by
  have htaken := taken_idle (x := x) s ri
  unfold takeResult
  dsimp only
  split
  · rename_i hopen
    split
    · rename_i hnone
      exact ⟨.single (.discard hwaits hdone hopen.1 hopen.2 hroom (hfresh hnone)), htaken⟩
    · rename_i d hd
      have hfree : x.descs d = none := isNone_iff_eq_none.mp (filter_eq_some_iff.mp hd).2
      exact ⟨.single (.install hwaits hdone hopen.1 hopen.2 hfree), htaken⟩
  rename_i hopen
  have htake : Move F B x (x.taken s ri) := .take hwaits hdone hopen
  split
  · split
    · have hunwait : Move F B (x.taken s ri) ((x.taken s ri).unwait s) := unwait_of_none htaken
      have hboth := (Relation.ReflTransGen.single htake).tail hunwait
      have hnone : ((x.taken s ri).unwait s).Idle s := by simp [Idle, unwait, updTask]
      split
      · exact ⟨hboth.tail (move_setIntent s .exec), by simp [Idle, updTask]⟩
      · exact ⟨hboth, hnone⟩
    · exact ⟨.single htake, htaken⟩
  · exact ⟨.single htake, htaken⟩

theorem blockedRetry_moves (hx : Sound x.net) (halive : (x.tasks s).alive = true)
    {input : RetryInput C} (hpass : Passing F (x.net.withWire input.wire))
    (hfound : Provided F B x.net) (hroom : x.net.clunks.length + 2 < nclunk ∨ F.full)
    (hfresh : x.TakesCurrent s input.install ∨ B.outdated) :
    Moves F B x (x.blockedRetry s input).2 := by
  unfold blockedRetry
  cases hwait : (x.tasks s).wait with
  | none => exact .refl
  | some w =>
    simp only
    -- the task stops waiting unless the call has to be retried again
    have hfinish : ∀ {rc : Int} {y : World C}, Moves F B x y →
        (rc ≠ Errno.eagain.neg → ∀ w, (y.tasks s).wait = some w → ∀ ri, w.request = some ri →
          (y.net.reqs ri).owner ≠ some (y.ref s)) →
        Moves F B x (if rc = Errno.eagain.neg then (none, y)
          else (some rc, y.updTask s fun t => { t with wait := none }) :
            Option Int × World C).2 := by
      intro rc y hmoves hnone
      split
      · exact hmoves
      · rename_i hrc
        exact hmoves.tail (.unwait fun w ri hw hri => hnone hrc w hw ri hri)
    unfold netfsRetry
    cases hri : w.request with
    | none =>
      refine hfinish .refl fun _ w' hw' ri hri' => ?_
      rw [hwait] at hw'
      cases hw'
      simp [hri] at hri'
    | some ri =>
      simp only
      by_cases howner : (x.net.reqs ri).owner = some (x.ref s)
      · rw [if_neg (not_not.mpr howner)]
        have hquiet : Move F B x { x with net := x.net.withWire input.wire } :=
          .quiet (.of_eq rfl) rfl
        have hsound : Sound (x.net.withWire input.wire) := { hx with }
        have hpassed := pump_passed hsound hpass
          (some { ref := x.ref s, access := input.access }) input.now
        revert hpassed
        generalize (x.net.withWire input.wire).pump
          (some { ref := x.ref s, access := input.access }) input.now = net
        intro hpassed
        have hpump : Move F B { x with net := x.net.withWire input.wire } { x with net := net } :=
          .pump (fun ref href => by
            cases href
            exact ⟨halive, rfl⟩) ⟨hfound.opens, hfound.fids⟩ hpassed
        have hpumped := (Relation.ReflTransGen.single hquiet).tail hpump
        split
        · exact hfinish hpumped fun hrc => absurd rfl hrc
        rename_i hdone
        have hdone : (net.reqs ri).state = .done := not_not.mp hdone
        have hkept : KeptReq (x.net.reqs ri) (net.reqs ri) := by
          have hclunk := ((hpassed.sound hsound).req ri).owned (.inr hdone)
          rcases hpassed.kept hsound ri (by simp [hdone]) with h | h
          · exact h
          · exact absurd h.1 hclunk.2
        have hwaits : ({ x with net := net } : World C).Waits s ri :=
          ⟨halive, hkept.owner.trans howner, w, hwait, hri⟩
        have hroomy : Roomy F net := by
          rcases hroom with h | h
          · have hle := hpassed.clunks_le
            have hsame : (x.net.withWire input.wire).clunks = x.net.clunks := rfl
            rw [hsame] at hle
            exact .inl (by omega)
          · exact .inr h
        have hstale : (input.install.filter fun d => (x.descs d).isNone) = none →
            (net.conn.inSession = true → (net.opens (net.reqs ri).oi).stale = false) ∨
              B.outdated := by
          intro hinstall
          refine hfresh.imp_left fun h hsession => ?_
          rw [hkept.oi]
          have hbefore := (h w ri hwait hri).resolve_right fun h => h hinstall
          by_contra hnot
          have hstale := hpassed.stale hsession (by simpa using hnot)
          exact absurd (hstale.symm.trans hbefore) (by simp)
        obtain ⟨htake, hnone⟩ := takeResult_moves hwaits hdone hroomy input hstale
        refine hfinish (Relation.ReflTransGen.trans hpumped htake) fun _ w' hw' rj hrj => ?_
        simp [hnone w' hw'] at hrj
      · rw [if_pos howner]
        refine hfinish .refl fun _ w' hw' rj hrj => ?_
        rw [hwait] at hw'
        cases hw'
        rw [hri] at hrj
        cases hrj
        exact howner

theorem tick_moves (hx : Sound x.net) {wire : Wire} (hpass : Passing F (x.net.withWire wire))
    (hfound : Provided F B x.net) (now : Nat) :
    Moves F B x { x with net := (x.net.withWire wire).tick now } := by
  have hquiet : Move F B x { x with net := x.net.withWire wire } := .quiet (.of_eq rfl) rfl
  have hsound : Sound (x.net.withWire wire) := { hx with }
  unfold tick
  split
  · exact .single hquiet
  split
  · exact .single hquiet
  · have hpump : Move F B { x with net := x.net.withWire wire }
        { x with net := (x.net.withWire wire).pump none now } :=
      .pump (by simp) ⟨hfound.opens, hfound.fids⟩ (pump_passed hsound hpass none now)
    exact (Relation.ReflTransGen.single hquiet).tail hpump

theorem move_requestExit (s : C.Slot) : Move F B x (x.requestExit s) := by
  refine .tasks (fun p => ?_) (fun p => ?_) (fun p => ?_) <;> dsimp only <;> split <;> rfl

theorem move_stopExecPeers (s : C.Slot) : Move F B x (x.stopExecPeers s) := by
  refine .tasks (fun p => ?_) (fun p => ?_) (fun p => ?_) <;> dsimp only <;> split <;> rfl

theorem handleExit_moves (halive : (x.tasks s).alive = true) (hidle : x.Idle s ∨ B.torn) :
    Moves F B x (x.handleExit s) := by
  unfold handleExit
  split
  · have hstep : Move F B x (x.requestExit s) := move_requestExit s
    refine (Relation.ReflTransGen.single hstep).tail (.exit ?_ ?_)
    · unfold requestExit
      dsimp only
      split <;> exact halive
    · unfold requestExit Idle
      dsimp only
      split <;> exact hidle
  · exact .single (.exit halive hidle)

theorem execCommit_moves (hwait : (x.tasks s).wait = none) :
    Moves F B x (((x.stopExecPeers s).setIntent s .none).reassign s) := by
  have hpeers : Move F B x (x.stopExecPeers s) := move_stopExecPeers s
  have hintent : Move F B (x.stopExecPeers s) ((x.stopExecPeers s).setIntent s .none) :=
    move_setIntent s .none
  refine ((Relation.ReflTransGen.single hpeers).tail hintent).tail (.reassign ?_)
  simp [setIntent, updTask, stopExecPeers, hwait]

/-- An event that does not apply leaves everything as it is. -/
theorem Moves.guarded {p : Prop} [Decidable p] {y : World C} (h : p → Moves F B x y) :
    Moves F B x (if p then y else x) := by
  split
  · next hp => exact h hp
  · exact .refl

/-- Every event is a sequence of moves. -/
theorem step_moves (hx : Sound x.net) {e : Event C} (h : Meets F B x e) :
    Moves F B x (x.step e) := by
  have hcont : ∀ s, Move F B x (x.updTask s fun t => { t with stopped := false }) := fun _ =>
    move_task (fun _ => rfl) (fun _ => rfl) (fun _ => rfl)
  cases e with
  | netfsOpen s path flags => exact .guarded fun hcalling => netfsOpen_moves hcalling h flags
  | netfsRead s d ubuf len access =>
    simp only [step]
    split
    · exact .refl
    · exact .guarded fun hcalling => netfsRead_moves hcalling _ ubuf len access
  | netfsGetdents s d ubuf cap is64 access =>
    simp only [step]
    split
    · exact .refl
    · exact .guarded fun hcalling => netfsGetdents_moves hcalling _ ubuf cap is64 access
  | netfsStat s path ustat statkind =>
    exact .guarded fun hcalling => netfsStat_moves hcalling path ustat statkind
  | netfsAccess s path mode =>
    refine .guarded fun hcalling => ?_
    unfold netfsAccess
    split
    · exact .refl
    · exact netfsStat_moves hcalling path 0 .exists
  | netfsChdir s path => exact .guarded fun hcalling => netfsStat_moves hcalling path 0 .chdir
  | netfsExecFetch s path => exact .guarded fun hcalling => netfsExecFetch_moves hcalling path
  | sysExecve s size => exact .guarded fun _ => sysExecve_moves size
  | netfsLseek d off whence =>
    simp only [step]
    split
    · exact .refl
    · exact netfsLseek_moves _ off whence
  | close d =>
    simp only [step]
    split
    · exact .refl
    · rename_i oi hd
      exact .single (.close hd h.1 (h.2 oi hd))
  | retry s input =>
    exact .guarded fun hs => blockedRetry_moves hx hs.1 h.1 h.2.1 h.2.2.1 h.2.2.2
  | tick now wire => exact tick_moves hx h.1 h.2 now
  | signal s fatal =>
    refine .guarded fun hs => ?_
    have hinterrupt := interruptWait_moves hs.1 h.1 h.2
    split
    · exact hinterrupt.tail (move_setIntent s _)
    · exact hinterrupt
  | stop s =>
    exact .guarded fun _ => .single (move_task (fun _ => rfl) (fun _ => rfl) (fun _ => rfl))
  | cont s caught =>
    refine .guarded fun hs => ?_
    split
    · refine .trans (.single (hcont s)) (interruptWait_moves ?_ h.1 ?_)
      · simpa [updTask] using hs.1
      · intro w ri hw hri
        exact h.2 w ri (by simpa [updTask] using hw) hri
    · exact .single (hcont s)
  | kill s =>
    exact .guarded fun _ => (Relation.ReflTransGen.single (hcont s)).tail (move_setIntent s _)
  | exitCall s group | containment s => exact .guarded fun _ => .single (move_setIntent s _)
  | execCommit s => exact .guarded fun hs => execCommit_moves hs.2.2
  | handleExit s => exact .guarded fun hs => handleExit_moves hs.1 (h hs.1 hs.2)
  | spawn s group =>
    simp only [step]
    split
    · exact .refl
    · rename_i hs
      exact .single (.spawn (by simpa using hs))

end Steps

theorem passing_any (x : Client C) : Passing .any x where
  sends := .inr trivial
  recvs _ _ := trivial
  frames _ _ _ _ := (frames_trivial _ _).mono (fun _ _ _ => .inr trivial) fun h => h
  clean _ _ := .inr trivial
  room := .inr trivial

theorem meets_any (x : World C) (e : Event C) (B : Breaches)
    (htorn : ∀ s, e = .handleExit s → (x.tasks s).alive = true →
      (x.tasks s).intent ∈ [Intent.exit true, .exit false] → x.Idle s ∨ B.torn)
    (hpath : B.path) (hreused : B.reused) (hstranded : B.stranded) (hexhausted : B.exhausted)
    (houtdated : B.outdated) : Meets .any B x e := by
  have hfound : Provided .any B x.net := ⟨fun _ => .inr hstranded, .inr hexhausted⟩
  cases e with
  | netfsOpen => exact .inr hpath
  | retry => exact ⟨passing_any _, hfound, .inr trivial, .inr houtdated⟩
  | tick => exact ⟨passing_any _, hfound⟩
  | signal | cont => exact ⟨.inr trivial, fun _ _ _ _ => ⟨.inr hreused, .inr houtdated⟩⟩
  | close => exact ⟨.inr trivial, fun _ _ => .inr houtdated⟩
  | handleExit s => exact htorn s rfl
  | _ => trivial

/-! ## Invariants of runs -/

variable {x : World C}

theorem cancelled_inflight {ri : Fin nreq} (h : (x.net.reqs ri).state = .inflight) :
    x.cancelled ri = { x with net :=
          { x.net with
            reqs := update x.net.reqs ri { x.net.reqs ri with owner := none, ubuf := 0 }
            log := .interrupt (x.net.reqs ri).id :: x.net.log } } := by
  unfold cancelled
  dsimp only
  rw [if_pos h]
  rfl

theorem cancelled_parked {ri : Fin nreq} (h : (x.net.reqs ri).state ≠ .inflight) : x.cancelled ri =
      { x with net :=
          { x.net with
            fids := (x.net.clunkEnqueue (x.net.reqs ri).fid).fids
            clunks := (x.net.clunkEnqueue (x.net.reqs ri).fid).clunks
            reqs := update x.net.reqs ri
              { released { x.net.reqs ri with owner := none, ubuf := 0 } with state := .free }
            opens :=
              if (x.net.reqs ri).op = .openFile then
                update x.net.opens (x.net.reqs ri).oi
                  { x.net.opens (x.net.reqs ri).oi with used := false }
              else x.net.opens
            log := .interrupt (x.net.reqs ri).id :: x.net.log } } := by
  unfold cancelled
  dsimp only
  rw [if_neg h]
  generalize hnet : (x.net.updReq ri fun r => { r with owner := none, ubuf := 0 }).record
    (.interrupt (x.net.reqs ri).id) = net
  have hreqs : net.reqs =
      update x.net.reqs ri { x.net.reqs ri with owner := none, ubuf := 0 } := by
    rw [← hnet]
    rfl
  obtain ⟨hfids, hclunks⟩ := clunkEnqueue_congr (x := x.net) (y := net) (by rw [← hnet]; rfl)
    (by rw [← hnet]; rfl) (x.net.reqs ri).fid
  rw [release_eq, hreqs, update_self, hfids, hclunks, ← hnet]
  simp [updReq, record]

theorem Move.sound {F : Faults} {B : Breaches} {y : World C} (h : Move F B x y)
    (hx : Sound x.net) : Sound y.net := by
  have hnotFlight : ∀ {ri : Fin nreq} {state : ReqState}, (x.net.reqs ri).state = state →
      state ≠ .inflight → (x.net.reqs ri).state ≠ .inflight := by
    rintro ri state rfl h
    exact h
  -- a result that is taken leaves a free request
  have htaken : ∀ {s : C.Slot} {ri : Fin nreq}, (x.net.reqs ri).state = .done →
      Sound (x.taken s ri).net := fun hdone =>
    hx.parked (hnotFlight hdone (by simp)) rfl (reqSound_free rfl) (by simp) rfl rfl
  have hissue : ∀ {s : C.Slot} {ri : Fin nreq} {r : NetReq C.nslot},
      (x.net.reqs ri).state = .free → Unsent r → Sound (x.issue s ri r).net := fun hfree hr =>
    hx.parked (hnotFlight hfree (by simp)) rfl
      ⟨fun _ => ⟨hr.step, hr.fid⟩, fun _ => ⟨by simp, hr.op⟩, fun _ h => absurd h hr.op,
        fun _ _ => hr.fid, fun _ _ => by simp [hr.off]⟩ (by simp) rfl rfl
  have hclose : ∀ {net : Client C} (oi : Fin nopen), Sound net → Sound (net.close oi) := by
    intro net oi hnet
    obtain ⟨fids, clunks, opens, hclose⟩ := net.close_eq oi
    rw [hclose]
    exact { hnet with }
  have hlogged : ∀ {log : List (LogEntry C.nslot)}, Sound { x.net with log := log } := { hx with }
  cases h with
  | tasks | stageOwner | unwait => exact hx
  | quiet h hconn => exact hx.congr h (by rw [hconn, h.inflight]; exact hx.idle)
  | pump _ _ h => exact h.sound hx
  | issue _ _ hfree hr => exact hissue hfree hr
  | @issueOpen s _ _ _ _ hfree hr =>
    have h := hissue (s := s) hfree hr
    exact { h with }
  | take _ hdone | install _ hdone => exact htaken hdone
  | discard _ hdone => exact hclose _ (htaken hdone)
  | @cancel s ri hwaits =>
    by_cases hflight : (x.net.reqs ri).state = .inflight
    · rw [cancelled_inflight hflight]
      have hin := (hx.flight ri).mp hflight
      have hr := hx.req ri
      exact hx.carried (.inl hin) rfl
        ⟨hr.queued, fun h => by simp [hflight] at h, fun _ _ => rfl, hr.io, hr.staged⟩ hflight hin
        (hx.up_of_inflight hin)
    · rw [cancelled_parked hflight]
      exact hx.parked hflight rfl (reqSound_free rfl) (by simp) rfl rfl
  | close => exact hclose _ hx
  | _ => exact hlogged

theorem sound_empty (wire : Wire) : Sound (({} : Client C).withWire wire) where
  flight _ := by simp [withWire]
  idle _ := rfl
  req _ := reqSound_free rfl

/-- The first steps of a client, from nothing. -/
theorem init_acts (F : Faults) (now : Nat) (wire : Wire) :
    Acts none F (({} : Client C).withWire wire) (init C now wire).net :=
  (connAdvance_phased (by simp [withWire]) (fun _ _ => .inl rfl) now).acts

variable {ok : World C → Event C → Prop}

/-- The rule for invariants of runs.  The faults and breaches of an event may depend on it and on
the state before it. -/
theorem Runs.induct {P : World C → Prop}
    (h : Runs ok x) (hinit : ∀ wire, P { net := ({} : Client C).withWire wire })
    (hact : ∀ {y z : Client C}, Sound y → P { net := y } → Act none .clear y z → P { net := z })
    (hstep : ∀ {x : World C} {e : Event C}, Sound x.net → P x → ok x e → ∃ F B, Meets F B x e ∧
        ∀ {y z : World C}, Moves F B x y → Sound y.net → P y → Move F B y z → P z) :
    Sound x.net ∧ P x := by
  induction h with
  | init now wire =>
    have hall : ∀ {y : Client C}, Acts none .clear (({} : Client C).withWire wire) y →
        Sound y ∧ P { net := y } := by
      intro y hy
      induction hy with
      | refl => exact ⟨sound_empty wire, hinit wire⟩
      | tail _ hstep ih => exact ⟨hstep.sound ih.1, hact ih.1 ih.2 hstep⟩
    exact hall (init_acts .clear now wire)
  | @step x e hruns hok ih =>
    obtain ⟨hsound, hP⟩ := ih
    obtain ⟨F, B, hmeets, hkeep⟩ := hstep hsound hP hok
    have hmoves := step_moves hsound hmeets
    have hall : ∀ {y : World C}, Moves F B x y → Sound y.net ∧ P y := by
      intro y hy
      induction hy with
      | refl => exact ⟨hsound, hP⟩
      | tail hmoves hmove ih => exact ⟨hmove.sound ih.1, hkeep hmoves ih.1 ih.2 hmove⟩
    exact hall hmoves

theorem Runs.run {events : List (Event C)} (h : Runs ok x) (hok : ∀ e ∈ events, ∀ y, ok y e) :
    Runs ok (x.run events) := by
  induction events generalizing x with
  | nil => exact h
  | cons e events ih =>
    exact ih (.step e h (hok e (.head _) x)) fun e he => hok e (.tail _ he)

end World

end Lxp.Netfs
