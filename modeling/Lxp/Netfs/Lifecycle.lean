import Mathlib.Logic.Relation
import Lxp.Netfs.World

/-!
# What one pass of the 9P client can do

A pass goes through connection phases, replies and at most one new message.  Seen from who owns what
(request slots, pool entries, fids, the connection) it is a sequence of the few steps below, `Act`
for what happens up to the last reply and `Launch` for the message that starts the next request.
Every fact about the ownership of requests, opens and fids is an invariant of these steps.
-/

namespace Lxp.Netfs

variable {x y : Client C} {v : Option (SlotRef C.nslot)} {ri : Fin nreq} {r : NetReq C.nslot}

open Client Function

/-- By the messages of one connection, the last one first, the server may have `f` bound. -/
def bound : List TMsg → Nat → Bool
  | [], _ => false
  | .walk g _ :: sent, f => g == f || bound sent f
  | .clunk g :: sent, f => g != f && bound sent f
  | _ :: sent, f => bound sent f

/-- Every walk named a new fid that was not bound when it was sent. -/
def walksFresh : List TMsg → Bool
  | [] => true
  | .walk f _ :: sent => !bound sent f && walksFresh sent
  | _ :: sent => walksFresh sent

/-- Messages that change what the server has bound. -/
def TMsg.binds : TMsg → Bool
  | .walk _ _ | .clunk _ => true
  | _ => false

variable {m : TMsg} {n : Nat} {F : Faults}

theorem bound_cons_of_not_binds (h : m.binds = false) (sent : List TMsg) (f : Nat) :
    bound (m :: sent) f = bound sent f := by
  cases m <;> first | rfl | cases h

theorem walksFresh_cons_of_not_binds (h : m.binds = false) (sent : List TMsg) :
    walksFresh (m :: sent) = walksFresh sent := by
  cases m <;> first | rfl | cases h

/-- The phases that share one transport connection. -/
def Conn.inSession : Conn → Bool
  | .down | .connecting => false
  | .versionSend | .versionRecv | .attachSend | .attachRecv | .up => true

/-- The steps whose message clunks the working fid of the request. -/
def NetReq.clunkStep {n : Nat} (r : NetReq n) : Bool :=
  match r.op, r.step with
  | .clunk, _ => true
  | .stat, 2 => true
  | .execfetch, 4 => true
  | _, _ => false

/-! ## Effects of the operations on single requests -/

namespace Client

variable {C : Config}

theorem fidFree_eq (x : Client C) (f : Nat) : ∃ fids, x.fidFree f = { x with fids := fids } := by
  unfold fidFree
  split
  · exact ⟨_, rfl⟩
  · exact ⟨x.fids, rfl⟩

theorem clunkEnqueue_eq (x : Client C) (f : Nat) :
    ∃ fids clunks, x.clunkEnqueue f = { x with fids := fids, clunks := clunks } := by
  unfold clunkEnqueue
  split
  · exact ⟨x.fids, x.clunks, rfl⟩
  · split
    · obtain ⟨fids, h⟩ := fidFree_eq x f
      exact ⟨fids, x.clunks, h⟩
    · exact ⟨x.fids, _, rfl⟩

theorem clunkEnqueue_congr (hfids : y.fids = x.fids) (hclunks : y.clunks = x.clunks) (f : Nat) :
    (y.clunkEnqueue f).fids = (x.clunkEnqueue f).fids ∧
      (y.clunkEnqueue f).clunks = (x.clunkEnqueue f).clunks := by
  unfold clunkEnqueue fidFree
  rw [hclunks, hfids]
  split
  · exact ⟨hfids, hclunks⟩
  split
  · split
    · exact ⟨rfl, rfl⟩
    · exact ⟨hfids, hclunks⟩
  · exact ⟨rfl, rfl⟩

def released (r : NetReq C.nslot) : NetReq C.nslot :=
  { r with fid := 0 }

theorem release_eq (x : Client C) (ri : Fin nreq) : x.release ri = { x with
        fids := (x.clunkEnqueue (x.reqs ri).fid).fids
        clunks := (x.clunkEnqueue (x.reqs ri).fid).clunks
        reqs := update x.reqs ri (released (x.reqs ri))
        opens :=
          if (x.reqs ri).op = .openFile then
            update x.opens (x.reqs ri).oi { x.opens (x.reqs ri).oi with used := false }
          else x.opens } := by
  obtain ⟨fids, clunks, h⟩ := clunkEnqueue_eq x (x.reqs ri).fid
  rw [release, h]
  by_cases hop : (x.reqs ri).op = .openFile
  · simp [hop, updReq, updOpen, released]
  · simp [hop, updReq, released]

theorem complete_eq (x : Client C) (ri : Fin nreq) (e : Int) : x.complete ri e = { x with
        reqs := update x.reqs ri { x.reqs ri with result := e, state := .done }
        inflight := none
        log := .complete (x.reqs ri).id :: x.log } := rfl

theorem reclaim_eq (x : Client C) (ri : Fin nreq) : x.reclaim ri = { x with
        reqs := update x.reqs ri { x.reqs ri with state := .free }
        inflight := none } := rfl

theorem fail_eq {x : Client C} (hop : (x.reqs ri).op ≠ .clunk) (e : Int) : x.fail ri e =
      { x.release ri with
        reqs := update x.reqs ri { released (x.reqs ri) with result := e, state := .done }
        inflight := none
        log := .complete (x.reqs ri).id :: x.log } := by
  rw [fail, if_neg hop, complete_eq, release_eq]
  simp [released]

theorem abandon_eq (x : Client C) (ri : Fin nreq) : x.abandon ri = { x.release ri with
        reqs := update x.reqs ri { released (x.reqs ri) with state := .free }
        inflight := none } := by
  rw [abandon, reclaim_eq, release_eq]
  simp

theorem clunked_eq (x : Client C) (ri : Fin nreq) : x.clunked ri = { x.fidFree (x.reqs ri).fid with
        reqs := update x.reqs ri { x.reqs ri with fid := 0, state := .done }
        inflight := none
        log := .complete (x.reqs ri).id :: x.log } := by
  obtain ⟨fids, h⟩ := fidFree_eq x (x.reqs ri).fid
  rw [clunked, h, complete_eq]
  simp [updReq]

theorem close_eq (x : Client C) (oi : Fin nopen) :
    ∃ fids clunks opens,
      x.close oi = { x with fids := fids, clunks := clunks, opens := opens } := by
  unfold close
  dsimp only
  split
  · split
    · obtain ⟨fids, clunks, h⟩ := clunkEnqueue_eq x (x.opens oi).fid
      rw [h]
      exact ⟨fids, clunks, _, rfl⟩
    · obtain ⟨fids, h⟩ := fidFree_eq x (x.opens oi).fid
      rw [h]
      exact ⟨fids, x.clunks, _, rfl⟩
  · exact ⟨x.fids, x.clunks, x.opens, rfl⟩

end Client

/-! ## Changes that ownership does not see -/

structure SameReq {n : Nat} (r r' : NetReq n) : Prop where
  state : r'.state = r.state
  op : r.state ≠ .free → r'.op = r.op
  step : r.state ≠ .free → r'.step = r.step
  owner : r.state ≠ .free → r'.owner = r.owner
  oi : r.state ≠ .free → r'.oi = r.oi
  fid : r.state ≠ .free → r'.fid = r.fid
  off : r.state ≠ .free → r'.off = r.off
  path : r.state ≠ .free → r'.path = r.path
  id : r.state ≠ .free → r'.id = r.id
  buffer : r.state ≠ .free → r'.buffer = r.buffer
  result : r.state = .done → r'.result = r.result

theorem SameReq.refl (r : NetReq n) : SameReq r r :=
  ⟨rfl, fun _ => rfl, fun _ => rfl, fun _ => rfl, fun _ => rfl, fun _ => rfl, fun _ => rfl,
    fun _ => rfl, fun _ => rfl, fun _ => rfl, fun _ => rfl⟩

theorem SameReq.trans {a b c : NetReq n} (h : SameReq a b) (h' : SameReq b c) : SameReq a c := by
  have hne : a.state ≠ .free → b.state ≠ .free := fun hs => h.state ▸ hs
  exact ⟨h'.state.trans h.state, fun hs => (h'.op (hne hs)).trans (h.op hs),
    fun hs => (h'.step (hne hs)).trans (h.step hs), fun hs =>
      (h'.owner (hne hs)).trans (h.owner hs),
    fun hs => (h'.oi (hne hs)).trans (h.oi hs), fun hs => (h'.fid (hne hs)).trans (h.fid hs),
    fun hs => (h'.off (hne hs)).trans (h.off hs), fun hs => (h'.path (hne hs)).trans (h.path hs),
    fun hs => (h'.id (hne hs)).trans (h.id hs),
    fun hs => (h'.buffer (hne hs)).trans (h.buffer hs),
    fun hs => (h'.result (h.state.trans hs)).trans (h.result hs)⟩

variable {C : Config}

structure Same (x y : Client C) : Prop where
  fids : y.fids = x.fids
  clunks : y.clunks = x.clunks
  inflight : y.inflight = x.inflight
  overread : y.overread = x.overread
  nextId : y.nextId = x.nextId
  log : y.log = x.log
  bound : ∀ f, bound y.sent f = bound x.sent f
  fresh : walksFresh y.sent = walksFresh x.sent
  used : ∀ oi, (y.opens oi).used = (x.opens oi).used
  stale : ∀ oi, (y.opens oi).stale = (x.opens oi).stale
  fid : ∀ oi, (y.opens oi).fid = (x.opens oi).fid
  req : ∀ ri, SameReq (x.reqs ri) (y.reqs ri)

/-- The transport buffers, the clock and the phase are free to change. -/
def Client.kept (x : Client C) :=
  (x.fids, x.clunks, x.inflight, x.overread, x.nextId, x.log, x.sent, x.opens, x.reqs)

theorem Same.of_eq (h : y.kept = x.kept) : Same x y := by
  simp only [Client.kept, Prod.mk.injEq] at h
  obtain ⟨h1, h2, h3, h4, h5, h6, hsent, hopens, hreqs⟩ := h
  refine ⟨h1, h2, h3, h4, h5, h6, ?_, ?_, ?_, ?_, ?_, fun ri => hreqs ▸ .refl _⟩
  all_goals simp [hsent, hopens]

theorem Same.refl (x : Client C) : Same x x := .of_eq rfl

theorem Same.trans {x y z : Client C} (h : Same x y) (h' : Same y z) : Same x z where
  fids := h'.fids.trans h.fids
  clunks := h'.clunks.trans h.clunks
  inflight := h'.inflight.trans h.inflight
  overread := h'.overread.trans h.overread
  nextId := h'.nextId.trans h.nextId
  log := h'.log.trans h.log
  bound f := (h'.bound f).trans (h.bound f)
  fresh := h'.fresh.trans h.fresh
  used oi := (h'.used oi).trans (h.used oi)
  stale oi := (h'.stale oi).trans (h.stale oi)
  fid oi := (h'.fid oi).trans (h.fid oi)
  req ri := (h.req ri).trans (h'.req ri)

theorem Same.post (x : Client C) (h : m.binds = false) : Same x (x.post m) := { refl x with
    bound := bound_cons_of_not_binds h x.sent
    fresh := walksFresh_cons_of_not_binds h x.sent }

theorem updOpen_opens {α : Type} (g : NetOpen → α) (x : Client C) {oi : Fin nopen}
    {f : NetOpen → NetOpen} (h : g (f (x.opens oi)) = g (x.opens oi)) (i : Fin nopen) :
    g ((x.updOpen oi f).opens i) = g (x.opens i) := by
  by_cases hi : i = oi
  · subst hi
    simpa [Client.updOpen] using h
  · simp [Client.updOpen, update_of_ne hi]

theorem Same.updOpen (x : Client C) (oi : Fin nopen) {f : NetOpen → NetOpen}
    (hused : (f (x.opens oi)).used = (x.opens oi).used)
    (hstale : (f (x.opens oi)).stale = (x.opens oi).stale)
    (hfid : (f (x.opens oi)).fid = (x.opens oi).fid) : Same x (x.updOpen oi f) :=
  { refl x with
    used := updOpen_opens NetOpen.used x hused
    stale := updOpen_opens NetOpen.stale x hstale
    fid := updOpen_opens NetOpen.fid x hfid }

theorem Same.updReq (x : Client C) (ri : Fin nreq) {f : NetReq C.nslot → NetReq C.nslot}
    (h : SameReq (x.reqs ri) (f (x.reqs ri))) : Same x (x.updReq ri f) := by
  refine { refl x with req := fun rj => ?_ }
  by_cases hrj : rj = ri
  · subst hrj
    simpa [Client.updReq] using h
  · simpa [Client.updReq, update_of_ne hrj] using SameReq.refl (x.reqs rj)

/-! ## Steps -/

/-- What may go wrong in a pass; a step that needs one of these says so. -/
structure Faults where
  -- The transport fails or the server breaks the framing.
  drop : Prop
  -- The server sends an error whose code does not negate to a negative number.
  code : Prop
  -- A connection comes up while a fid of an earlier one is still to be clunked.
  leftover : Prop
  -- The clunk queue is full.
  full : Prop

def Faults.any : Faults := ⟨True, True, True, True⟩

def Faults.clear : Faults := ⟨False, False, False, False⟩

def Roomy (F : Faults) (x : Client C) : Prop := x.clunks.length + 1 ≠ nclunk ∨ F.full

inductive Act (v : Option (SlotRef C.nslot)) (F : Faults) : Client C → Client C → Prop where
  | quiet {x y : Client C} (h : Same x y) (hconn : y.conn = x.conn) : Act v F x y
  | phase {x y : Client C} (h : Same x y) (hup : x.conn ≠ .up)
      (hsession : y.conn.inSession = true → x.conn.inSession = true) : Act v F x y
  | session {x y : Client C} (hdown : x.conn.inSession = false)
      (hclean : x.clunks = [] ∨ F.leftover)
      (h : Same { x with fids := fun _ => false, sent := [] } y) (hconn : y.conn = .versionSend) :
      Act v F x y
  | copy {x : Client C} {ri : Fin nreq} {ref : SlotRef C.nslot} {addr : Nat} {bytes : Bytes}
      (hin : x.inflight = some ri) (hop : (x.reqs ri).op ≠ .clunk)
      (howner : (x.reqs ri).owner = some ref) (hv : v = some ref)
      (hlow : (x.reqs ri).buffer.1 ≤ addr)
      (hhigh : addr + bytes.length ≤ (x.reqs ri).buffer.1 + (x.reqs ri).buffer.2) :
      Act v F x (x.record (.copy (x.reqs ri).id ref addr bytes))
  | stage {x : Client C} {ri : Fin nreq} {off : Nat} {bytes : Bytes}
      (hin : x.inflight = some ri) (hfit : off + bytes.length ≤ C.stageCap) :
      Act v F x (x.record (.stage (x.reqs ri).id off bytes))
  | seek {x : Client C} {ri : Fin nreq} {off : Nat} (hin : x.inflight = some ri)
      (hoff : off ≤ C.stageCap) : Act v F x (x.updReq ri fun r => { r with off := off })
  | advance {x : Client C} {ri : Fin nreq} {step : Nat} {m : TMsg} (hin : x.inflight = some ri)
      (hop : (x.reqs ri).op = .openFile ∨ (x.reqs ri).op = .stat ∨ (x.reqs ri).op = .execfetch)
      (hlast : (x.reqs ri).clunkStep = false)
      (hm : if ({ x.reqs ri with step := step } : NetReq C.nslot).clunkStep = true then
        m = .clunk (x.reqs ri).fid else m.binds = false) :
      Act v F x ((x.setStep ri step).post m)
  | abandon {x : Client C} {ri : Fin nreq} (hin : x.inflight = some ri)
      (hop : (x.reqs ri).op ≠ .clunk) (howner : (x.reqs ri).owner = none) (hroom : Roomy F x) :
      Act v F x (x.abandon ri)
  | fail {x : Client C} {ri : Fin nreq} {e : Int} (hin : x.inflight = some ri)
      (hop : (x.reqs ri).op ≠ .clunk) (howner : (x.reqs ri).owner ≠ none) (he : e < 0 ∨ F.code)
      (hroom : Roomy F x) : Act v F x (x.fail ri e)
  | opened {x : Client C} {ri : Fin nreq} {o : NetOpen} (hin : x.inflight = some ri)
      (hop : (x.reqs ri).op = .openFile) (howner : (x.reqs ri).owner ≠ none)
      (hused : o.used = true) (hstale : o.stale = false) (hfid : o.fid = (x.reqs ri).fid) :
      Act v F x ((x.updOpen (x.reqs ri).oi fun _ => o).complete ri (x.reqs ri).oi.val)
  | finish {x : Client C} {ri : Fin nreq} {e : Int} (hin : x.inflight = some ri)
      (hop : (x.reqs ri).op = .read ∨ (x.reqs ri).op = .getdents)
      (howner : (x.reqs ri).owner ≠ none) : Act v F x (x.complete ri e)
  | clunked {x : Client C} {ri : Fin nreq} (hin : x.inflight = some ri)
      (hop : (x.reqs ri).op = .stat ∨ (x.reqs ri).op = .execfetch)
      (hstep : (x.reqs ri).clunkStep = true) (howner : (x.reqs ri).owner ≠ none) :
      Act v F x (x.clunked ri)
  | clunkDone {x : Client C} {ri : Fin nreq} (hin : x.inflight = some ri)
      (hop : (x.reqs ri).op = .clunk) : Act v F x ((x.fidFree (x.reqs ri).fid).reclaim ri)

/-- The request whose message is being sent. -/
def Client.inFlight (x : Client C) (ri : Fin nreq) : Client C :=
  { x.updReq ri fun r => { r with state := .inflight } with inflight := some ri }

inductive Launch (v : Option (SlotRef C.nslot)) : Client C → Client C → Prop where
  | walk {x : Client C} {ri : Fin nreq} {f : Nat} {names : List Bytes}
      (hup : x.conn = .up) (hidle : x.inflight = none) (hqueued : (x.reqs ri).state = .queued)
      (hop : (x.reqs ri).op = .openFile ∨ (x.reqs ri).op = .stat ∨ (x.reqs ri).op = .execfetch)
      (hv : v ≠ none) (howner : (x.reqs ri).owner = v) (hfid : x.fidFirst = some f) :
      Launch v x
        ((((x.fidTake f).updReq ri fun r => { r with fid := f }).post (.walk f names)).inFlight ri)
  | io {x : Client C} {ri : Fin nreq} (hup : x.conn = .up) (hidle : x.inflight = none)
      (hqueued : (x.reqs ri).state = .queued)
      (hop : (x.reqs ri).op = .read ∨ (x.reqs ri).op = .getdents)
      (hv : v ≠ none) (howner : (x.reqs ri).owner = v) : Launch v x (x.inFlight ri)
  | refuse {x : Client C} {ri : Fin nreq} {e : Int} (hidle : x.inflight = none)
      (hqueued : (x.reqs ri).state = .queued) (he : e < 0)
      (hcause : (x.reqs ri).op = .openFile →
        pathSplit (x.reqs ri).path = none ∨ x.fidFirst = none) :
      Launch v x (x.complete ri e)
  | clunk {x : Client C} {ri : Fin nreq} {f : Nat} {rest : List Nat} (hup : x.conn = .up)
      (hidle : x.inflight = none) (hfree : (x.reqs ri).state = .free)
      (hclunks : x.clunks = f :: rest) :
      Launch v x
        ({ x.updReq ri fun _ => { op := .clunk, fid := f, state := .inflight } with
            clunks := rest
            inflight := some ri }.post (.clunk f))

theorem launched_reqs (x : Client C) (ri : Fin nreq) (f : Nat) (names : List Bytes) :
    ((((x.fidTake f).updReq ri fun r => { r with fid := f }).post (.walk f names)).inFlight
      ri).reqs =
      update x.reqs ri { x.reqs ri with fid := f, state := .inflight } := by
  simp [inFlight, updReq, post, fidTake]

abbrev Acts (v : Option (SlotRef C.nslot)) (F : Faults) : Client C → Client C → Prop :=
  Relation.ReflTransGen (Act v F)

/-! ## One request on the wire -/

/-- What a request pool entry looks like between two steps. -/
structure ReqSound (r : NetReq C.nslot) : Prop where
  queued : r.state = .queued → r.step = 0 ∧ r.fid = 0
  owned : r.state = .queued ∨ r.state = .done → r.owner ≠ none ∧ r.op ≠ .clunk
  internal : r.state ≠ .free → r.op = .clunk → r.owner = none
  io : r.state ≠ .free → r.op = .read ∨ r.op = .getdents → r.fid = 0
  staged : r.state ≠ .free → r.op = .execfetch → r.off ≤ C.stageCap

structure Sound (x : Client C) : Prop where
  flight : ∀ ri, (x.reqs ri).state = .inflight ↔ x.inflight = some ri
  idle : x.conn ≠ .up → x.inflight = none
  req : ∀ ri, ReqSound (x.reqs ri)

theorem ReqSound.congr {r r' : NetReq C.nslot} (h : SameReq r r') (hr : ReqSound r) :
    ReqSound r' where
  queued hs := by
    have hs' : r.state = .queued := h.state ▸ hs
    have hne : r.state ≠ .free := by simp [hs']
    rw [h.step hne, h.fid hne]
    exact hr.queued hs'
  owned hs := by
    have hs' : r.state = .queued ∨ r.state = .done := h.state ▸ hs
    have hne : r.state ≠ .free := by rcases hs' with hs' | hs' <;> simp [hs']
    rw [h.owner hne, h.op hne]
    exact hr.owned hs'
  internal hne hop := by
    rw [h.state] at hne
    rw [h.op hne] at hop
    rw [h.owner hne]
    exact hr.internal hne hop
  io hne hop := by
    rw [h.state] at hne
    rw [h.op hne] at hop
    rw [h.fid hne]
    exact hr.io hne hop
  staged hne hop := by
    rw [h.state] at hne
    rw [h.op hne] at hop
    rw [h.off hne]
    exact hr.staged hne hop

theorem reqSound_free (h : r.state = .free) : ReqSound r where
  queued hs := by simp [h] at hs
  owned hs := by simp [h] at hs
  internal hne := absurd h hne
  io hne := absurd h hne
  staged hne := absurd h hne

theorem Sound.congr (h : Same x y) (hconn : y.conn ≠ .up → y.inflight = none) (hx : Sound x) :
    Sound y where
  flight ri := by rw [(h.req ri).state, h.inflight]; exact hx.flight ri
  idle := hconn
  req ri := (hx.req ri).congr (h.req ri)

theorem Sound.replaced (hx : Sound x) (hreqs : y.reqs = update x.reqs ri r) (hr : ReqSound r)
    (hstate : r.state = .inflight ↔ y.inflight = some ri)
    (hothers : ∀ rj, rj ≠ ri → (x.inflight = some rj ↔ y.inflight = some rj))
    (hidle : y.conn ≠ .up → y.inflight = none) : Sound y where
  flight rj := by
    rw [hreqs]
    by_cases h : rj = ri
    · subst h
      simpa using hstate
    · rw [update_of_ne h, hx.flight rj, hothers rj h]
  idle := hidle
  req := by
    rw [hreqs]
    exact (forall_update_iff x.reqs fun _ => ReqSound).mpr ⟨hr, fun rj _ => hx.req rj⟩

section

variable (hx : Sound x) (hri : x.inflight = some ri ∨ x.inflight = none)
  (hreqs : y.reqs = update x.reqs ri r) (hr : ReqSound r)
include hx hri hreqs hr

/-- A step that changes the request `ri` alone, and takes it off the wire. -/
theorem Sound.ended (hstate : r.state ≠ .inflight) (hy : y.inflight = none) : Sound y := by
  refine hx.replaced hreqs hr (by simp [hstate, hy]) (fun rj h => ?_) fun _ => hy
  rcases hri with hri | hri <;> simp [hri, hy, h.symm]

/-- A step that changes the request `ri` alone and has it on the wire afterwards. -/
theorem Sound.carried (hstate : r.state = .inflight)
    (hy : y.inflight = some ri) (hup : y.conn = .up) : Sound y := by
  refine hx.replaced hreqs hr (by simp [hstate, hy]) (fun rj h => ?_) fun h => absurd hup h
  rcases hri with hri | hri <;> simp [hri, hy, h.symm]

end

/-- A step that changes the request `ri` alone, which is not on the wire before or after it. -/
theorem Sound.parked (hx : Sound x) (hri : (x.reqs ri).state ≠ .inflight)
    (hreqs : y.reqs = update x.reqs ri r) (hr : ReqSound r) (hstate : r.state ≠ .inflight)
    (hinflight : y.inflight = x.inflight) (hconn : y.conn = x.conn) : Sound y := by
  refine hx.replaced hreqs hr ?_ (fun _ _ => by rw [hinflight]) ?_
  · simp [hinflight, ← hx.flight ri, hstate, hri]
  · rw [hinflight, hconn]
    exact hx.idle

theorem Sound.state_of_inflight {x : Client C} (hx : Sound x) (hin : x.inflight = some ri) :
    (x.reqs ri).state = .inflight := (hx.flight ri).mpr hin

theorem Sound.up_of_inflight {x : Client C} (hx : Sound x) (hin : x.inflight = some ri) :
    x.conn = .up := by
  by_contra h
  rw [hx.idle h] at hin
  cases hin

theorem Sound.connDrop {x : Client C} (hx : Sound x) : Sound x.connDrop where
  flight ri := by
    have hflight : (dropReq (x.reqs ri)).state ≠ .inflight := by
      unfold dropReq
      split
      · split <;> simp
      · rename_i h
        exact fun hs => h (Or.inr hs)
    simp [Client.connDrop, hflight]
  idle _ := rfl
  req ri := by
    change ReqSound (dropReq (x.reqs ri))
    unfold dropReq
    split
    · split
      · exact reqSound_free rfl
      rename_i hpending howner
      have hr := hx.req ri
      have hne : (x.reqs ri).state ≠ .free := by rcases hpending with h | h <;> simp [h]
      have hop : (x.reqs ri).op ≠ .clunk := fun h => howner (hr.internal hne h)
      exact ⟨by simp, fun _ => ⟨howner, hop⟩, fun _ h => absurd h hop, fun _ => hr.io hne,
        fun _ => hr.staged hne⟩
    · exact hx.req ri

theorem Act.sound (h : Act v F x y) (hx : Sound x) : Sound y := by
  cases h with
  | quiet h hconn => exact hx.congr h (by rw [hconn, h.inflight]; exact hx.idle)
  | phase h hup _ => exact hx.congr h (fun _ => h.inflight.trans (hx.idle hup))
  | session hdown _ h _ =>
    have hidle : x.inflight = none := hx.idle (by rintro hup; simp [hup, Conn.inSession] at hdown)
    have hx' : Sound { x with fids := fun _ => false, sent := [] } := { hx with }
    exact hx'.congr h (fun _ => h.inflight.trans hidle)
  | copy | stage => exact { hx with }
  | @seek ri off hin hoff =>
    have hr := hx.req ri
    have hs := hx.state_of_inflight hin
    exact hx.carried (.inl hin) rfl
      { hr with staged := fun _ _ => hoff } hs hin (hx.up_of_inflight hin)
  | @advance ri step m hin =>
    have hr := hx.req ri
    have hs := hx.state_of_inflight hin
    exact hx.carried (.inl hin) rfl { hr with queued := fun h => by simp [hs] at h } hs hin
      (hx.up_of_inflight hin)
  | @abandon ri hin hop howner _ =>
    rw [abandon_eq]
    exact hx.ended (.inl hin) rfl (reqSound_free rfl) (by simp) rfl
  | @fail ri e hin hop howner _ _ =>
    rw [fail_eq hop]
    have hr := hx.req ri
    have hne : (x.reqs ri).state ≠ .free := by simp [hx.state_of_inflight hin]
    exact hx.ended (.inl hin) rfl
      ⟨by simp, fun _ => ⟨howner, hop⟩, fun _ h => absurd h hop, fun _ _ => rfl,
        fun _ => hr.staged hne⟩ (by simp) rfl
  | @opened ri o hin hop howner _ _ _ =>
    exact hx.ended (.inl hin) rfl ⟨by simp, fun _ => ⟨howner, by simp [updOpen, hop]⟩,
        by simp [updOpen, hop], by simp [updOpen, hop],
        by simp [updOpen, hop]⟩ (by simp) rfl
  | @finish ri e hin hop howner =>
    have hr := hx.req ri
    have hne : (x.reqs ri).state ≠ .free := by simp [hx.state_of_inflight hin]
    exact hx.ended (.inl hin) rfl
      ⟨by simp, fun _ => ⟨howner, by rcases hop with h | h <;> simp [h]⟩,
        fun _ => hr.internal hne, fun _ => hr.io hne, fun _ => hr.staged hne⟩ (by simp) rfl
  | @clunked ri hin hop _ howner =>
    rw [clunked_eq]
    have hr := hx.req ri
    have hne : (x.reqs ri).state ≠ .free := by simp [hx.state_of_inflight hin]
    exact hx.ended (.inl hin) rfl
      ⟨by simp, fun _ => ⟨howner, by rcases hop with h | h <;> simp [h]⟩,
        fun _ => hr.internal hne, fun _ _ => rfl, fun _ => hr.staged hne⟩ (by simp) rfl
  | @clunkDone ri hin hop =>
    obtain ⟨fids, hfids⟩ := fidFree_eq x (x.reqs ri).fid
    rw [hfids]
    exact hx.ended (.inl hin) rfl (reqSound_free rfl) (by simp) rfl

theorem Launch.sound (h : Launch v x y) (hx : Sound x) : Sound y := by
  cases h with
  | @walk ri f names hup hidle hqueued hop hv howner hfid =>
    have hr := hx.req ri
    have hne : (x.reqs ri).state ≠ .free := by simp [hqueued]
    refine hx.carried (.inr hidle) (launched_reqs ..)
      ⟨by simp, by simp, fun _ => hr.internal hne, ?_,
      fun _ => hr.staged hne⟩ rfl rfl hup
    intro _ hio
    rcases hop with h | h | h <;> simp [h] at hio
  | @io ri hup hidle hqueued hop hv howner =>
    have hr := hx.req ri
    have hne : (x.reqs ri).state ≠ .free := by simp [hqueued]
    exact hx.carried (.inr hidle) rfl
      ⟨by simp, by simp, fun _ => hr.internal hne, fun _ => hr.io hne, fun _ => hr.staged hne⟩
      rfl rfl hup
  | @refuse ri e hidle hqueued he _ =>
    have hr := hx.req ri
    have hne : (x.reqs ri).state ≠ .free := by simp [hqueued]
    exact hx.ended (.inr hidle) rfl
      ⟨by simp, fun _ => hr.owned (.inl hqueued), fun _ => hr.internal hne, fun _ => hr.io hne,
        fun _ => hr.staged hne⟩ (by simp) rfl
  | @clunk ri f rest hup hidle hfree hclunks =>
    exact hx.carried (.inr hidle) rfl
      ⟨by simp, by simp, fun _ _ => rfl, by simp, by simp⟩ rfl rfl hup

theorem Acts.sound (h : Acts v F x y) (hx : Sound x) : Sound y := by
  induction h with
  | refl => exact hx
  | tail _ hact ih => exact hact.sound ih

/-! ## Who a request belongs to -/

/-- A request that is in use after a step was in use before it, by the same owner and for the same
operation; or it is a new background clunk. -/
structure KeptReq {n : Nat} (r r' : NetReq n) : Prop where
  used : r.state ≠ .free
  owner : r'.owner = r.owner
  op : r'.op = r.op
  oi : r'.oi = r.oi
  id : r'.id = r.id
  path : r'.path = r.path
  buffer : r'.buffer = r.buffer
  queued : r'.state = .queued → r.state = .queued
  pending : r'.state ≠ .done → r.state ≠ .done

def Kept (x y : Client C) : Prop :=
  ∀ ri, (y.reqs ri).state ≠ .free →
    KeptReq (x.reqs ri) (y.reqs ri) ∨ ((y.reqs ri).op = .clunk ∧ (y.reqs ri).owner = none)

theorem KeptReq.refl {r : NetReq n} (h : r.state ≠ .free) : KeptReq r r :=
  ⟨h, rfl, rfl, rfl, rfl, rfl, rfl, fun h => h, fun h => h⟩

theorem KeptReq.trans {a b c : NetReq n} (h : KeptReq a b) (h' : KeptReq b c) : KeptReq a c :=
  ⟨h.used, h'.owner.trans h.owner, h'.op.trans h.op, h'.oi.trans h.oi, h'.id.trans h.id,
    h'.path.trans h.path, h'.buffer.trans h.buffer, fun hs => h.queued (h'.queued hs),
    fun hs => h.pending (h'.pending hs)⟩

theorem Kept.refl (x : Client C) : Kept x x := fun _ h => .inl (.refl h)

theorem Kept.trans {x y z : Client C} (h : Kept x y) (h' : Kept y z) : Kept x z := by
  intro ri hz
  rcases h' ri hz with hkept | hclunk
  · rcases h ri hkept.used with hkept' | ⟨hop, howner⟩
    · exact .inl (hkept'.trans hkept)
    · exact .inr ⟨hkept.op.trans hop, hkept.owner.trans howner⟩
  · exact .inr hclunk

theorem Kept.of_same (h : Same x y) : Kept x y := by
  intro ri hy
  have hreq := h.req ri
  have hne : (x.reqs ri).state ≠ .free := by
    rw [← hreq.state]
    exact hy
  exact .inl ⟨hne, hreq.owner hne, hreq.op hne, hreq.oi hne, hreq.id hne, hreq.path hne,
    hreq.buffer hne, by rw [hreq.state]; exact id, by rw [hreq.state]; exact id⟩

theorem Kept.of_update (hreqs : y.reqs = update x.reqs ri r)
    (hr : r.state ≠ .free → KeptReq (x.reqs ri) r ∨ (r.op = .clunk ∧ r.owner = none)) :
    Kept x y := by
  intro rj hy
  rw [hreqs] at hy ⊢
  by_cases h : rj = ri
  · subst h
    rw [update_self] at hy ⊢
    exact hr hy
  · rw [update_of_ne h] at hy ⊢
    exact .inl (.refl hy)

theorem Kept.connDrop (x : Client C) : Kept x x.connDrop := by
  intro ri hy
  change (dropReq (x.reqs ri)).state ≠ .free at hy
  change KeptReq (x.reqs ri) (dropReq (x.reqs ri)) ∨ _
  unfold dropReq at hy ⊢
  split at hy
  · rename_i hpending
    have hne : (x.reqs ri).state ≠ .free := by rcases hpending with h | h <;> simp [h]
    split at hy
    · simp at hy
    · rename_i howner
      rw [if_pos hpending, if_neg howner]
      exact .inl ⟨hne, rfl, rfl, rfl, rfl, rfl, rfl, by simp, by simp⟩
  · rename_i hpending
    rw [if_neg hpending]
    exact .inl (.refl hy)

theorem Act.kept (h : Act v F x y) (hx : Sound x) : Kept x y := by
  have hne : ∀ ri, x.inflight = some ri → (x.reqs ri).state ≠ .free := fun ri hin => by
    simp [hx.state_of_inflight hin]
  cases h with
  | quiet h _ | phase h _ _ => exact .of_same h
  | session _ _ h _ =>
    intro ri hy
    exact Kept.of_same h ri hy
  | copy | stage => exact fun _ hy => .inl (.refl hy)
  | @seek ri off hin hoff | @advance ri step m hin =>
    exact .of_update rfl fun _ => .inl ⟨hne ri hin, rfl, rfl, rfl, rfl, rfl, rfl, id, id⟩
  | @abandon ri hin =>
    rw [abandon_eq]
    exact .of_update rfl fun h => absurd rfl h
  | @fail ri e hin hop =>
    rw [fail_eq hop]
    exact .of_update rfl fun _ => .inl ⟨hne ri hin, rfl, rfl, rfl, rfl, rfl, rfl, by simp, by simp⟩
  | @opened ri o hin hop | @finish ri e hin hop =>
    exact .of_update rfl fun _ => .inl ⟨hne ri hin, rfl, rfl, rfl, rfl, rfl, rfl, by simp, by simp⟩
  | @clunked ri hin hop =>
    rw [clunked_eq]
    exact .of_update rfl fun _ => .inl ⟨hne ri hin, rfl, rfl, rfl, rfl, rfl, rfl, by simp, by simp⟩
  | @clunkDone ri hin hop =>
    obtain ⟨fids, hfids⟩ := fidFree_eq x (x.reqs ri).fid
    rw [hfids]
    exact .of_update rfl fun h => absurd rfl h

theorem Launch.kept (h : Launch v x y) : Kept x y := by
  cases h with
  | @walk ri f names hup hidle hqueued hop hv howner hfid =>
    exact .of_update (launched_reqs ..) fun _ =>
      .inl ⟨by simp [hqueued], rfl, rfl, rfl, rfl, rfl, rfl, by simp, by simp [hqueued]⟩
  | @io ri hup hidle hqueued hop hv howner =>
    exact .of_update rfl fun _ =>
      .inl ⟨by simp [hqueued], rfl, rfl, rfl, rfl, rfl, rfl, by simp, by simp [hqueued]⟩
  | @refuse ri e hidle hqueued he _ =>
    exact .of_update rfl fun _ =>
      .inl ⟨by simp [hqueued], rfl, rfl, rfl, rfl, rfl, rfl, by simp, by simp⟩
  | @clunk ri f rest hup hidle hfree hclunks =>
    exact .of_update rfl fun _ => .inr ⟨rfl, rfl⟩

end Lxp.Netfs
