import Lxp.Netfs.Owners

/-!
# The history of requests

`log` has an entry for each thing that happened to a request, the last one first.  A run keeps it
consistent: an entry never follows one that excludes it, and what a result or a copy refers to was
issued before.  The request pool is tied to the history by `TracedReq`.

Generations wrap, so a slot reference does not name an incarnation; the history does.  The
incarnation that issued a request is gone once the log has an exit of its slot after the issue
(`Issued`).  That this cannot be while the request has an owner needs `idle`: only tasks that wait
for nothing exit.
-/

namespace Lxp.Netfs

open Client Function List

/-! ## Consistent histories -/

namespace LogEntry

variable {n : Nat}

/-- The entry may be made after `old`. -/
def Follows (new old : LogEntry n) : Prop :=
  match new, old with
  | .issue id _ _ _, .issue id' _ _ _ => id ≠ id'
  | .complete id, .complete id' => id ≠ id'
  | .take id _, .take id' _ => id ≠ id'
  | .copy id _ _ _, .interrupt id' => id ≠ id'
  | _, _ => True

/-- The request was issued, and where `idle` holds its slot had no exit since. -/
def Issued (idle : Prop) (log : List (LogEntry n)) (id : Nat) (ref : SlotRef n) (buf len : Nat) :
    Prop :=
  ∃ since before, log = since ++ .issue id ref buf len :: before ∧
    (idle → ∀ ref', .exit ref' ∈ since → ref'.index ≠ ref.index)

/-- What the entry refers to is in the history before it, and its bytes fit there. -/
def Grounded (idle : Prop) (cap : Nat) (log : List (LogEntry n)) : LogEntry n → Prop
  | .take id ref => ∃ buf len, Issued idle log id ref buf len
  | .copy id ref addr bytes =>
    ∃ buf len, Issued idle log id ref buf len ∧ buf ≤ addr ∧ addr + bytes.length ≤ buf + len
  | .stage _ off bytes => off + bytes.length ≤ cap
  | .issue _ _ _ _ | .complete _ | .interrupt _ | .exit _ => True

def AllGrounded (idle : Prop) (cap : Nat) : List (LogEntry n) → Prop
  | [] => True
  | e :: log => e.Grounded idle cap log ∧ AllGrounded idle cap log

/-- The entry is about one of the first `next` requests. -/
def Before (next : Nat) : LogEntry n → Prop
  | .issue id _ _ _ | .complete id | .take id _ | .interrupt id => id < next
  | .copy _ _ _ _ | .stage _ _ _ | .exit _ => True

/-- The entry takes nothing away from what the request may still do. -/
def Spares (r : NetReq n) : LogEntry n → Prop
  | .complete id => id = r.id → r.state = .done
  | .take id _ => id ≠ r.id
  | .interrupt id => id = r.id → r.owner = none
  | .issue _ _ _ _ | .copy _ _ _ _ | .stage _ _ _ | .exit _ => True

variable {idle : Prop} {log : List (LogEntry n)}

section Issued

variable {id : Nat} {ref : SlotRef n} {buf len : Nat} (h : Issued idle log id ref buf len)
include h

theorem Issued.mem_of_split {e : LogEntry n} {all newer : List (LogEntry n)}
    (hsplit : all = newer ++ e :: log) : .issue id ref buf len ∈ all := by
  obtain ⟨since, before, rfl, -⟩ := h
  simp [hsplit]

theorem Issued.append {es : List (LogEntry n)}
    (hes : idle → ∀ ref', .exit ref' ∈ es → ref'.index ≠ ref.index) :
    Issued idle (es ++ log) id ref buf len := by
  obtain ⟨since, before, rfl, hsince⟩ := h
  refine ⟨es ++ since, before, by simp, fun hidle ref' href' => ?_⟩
  rcases mem_append.mp href' with h | h
  · exact hes hidle ref' h
  · exact hsince hidle ref' h

end Issued

theorem AllGrounded.split {cap : Nat} {e : LogEntry n} {newer older : List (LogEntry n)}
    (h : AllGrounded idle cap (newer ++ e :: older)) : e.Grounded idle cap older := by
  induction newer with
  | nil => exact h.1
  | cons e' newer ih => exact ih h.2

theorem Before.mono {next next' : Nat} {e : LogEntry n} (h : e.Before next) (hle : next ≤ next') :
    e.Before next' := by
  cases e with
  | issue | complete | take | interrupt => exact Nat.lt_of_lt_of_le h hle
  | _ => trivial

end LogEntry

/-- A request in use that a guest call made. -/
def NetReq.Guest {n : Nat} (r : NetReq n) : Prop := r.state ≠ .free ∧ r.op ≠ .clunk

variable {C : Config}

structure TracedReq (idle : Prop) (x : Client C) (r : NetReq C.nslot) : Prop where
  before : r.id < x.nextId
  issued : ∀ ref, r.owner = some ref → LogEntry.Issued idle x.log r.id ref r.buffer.1 r.buffer.2
  owned : ∀ ref, r.owner = some ref → .interrupt r.id ∉ x.log
  pending : r.state ≠ .done → .complete r.id ∉ x.log
  untaken : ∀ ref, .take r.id ref ∉ x.log

structure Traced (idle : Prop) (x : Client C) : Prop where
  order : x.log.Pairwise LogEntry.Follows
  grounded : LogEntry.AllGrounded idle C.stageCap x.log
  before : ∀ e ∈ x.log, e.Before x.nextId
  req : ∀ ri, (x.reqs ri).Guest → TracedReq idle x (x.reqs ri)
  distinct : ∀ ri rj, (x.reqs ri).Guest → (x.reqs rj).Guest → (x.reqs ri).id = (x.reqs rj).id →
    ri = rj
  overread : x.overread = false

/-- The same request later: it may have been completed, and its owner may be gone. -/
structure Continues {n : Nat} (r r' : NetReq n) : Prop where
  guest : r.Guest
  id : r'.id = r.id
  owner : ∀ ref, r'.owner = some ref → r.owner = some ref ∧ r'.buffer = r.buffer
  pending : r'.state ≠ .done → r.state ≠ .done

/-- A step that makes the entries `es`. -/
structure Extends (idle : Prop) (es : List (LogEntry C.nslot)) (x y : Client C) : Prop where
  log : y.log = es ++ x.log
  nextId : x.nextId ≤ y.nextId
  overread : y.overread = x.overread
  req : ∀ ri, (y.reqs ri).Guest → Continues (x.reqs ri) (y.reqs ri)
  order : es.Pairwise LogEntry.Follows
  follows : ∀ e ∈ es, ∀ e' ∈ x.log, e.Follows e'
  grounded : LogEntry.AllGrounded idle C.stageCap x.log →
    LogEntry.AllGrounded idle C.stageCap (es ++ x.log)
  before : ∀ e ∈ es, e.Before y.nextId
  spares : ∀ ri, (y.reqs ri).Guest → ∀ e ∈ es, e.Spares (y.reqs ri)
  exits : idle → ∀ ref, .exit ref ∈ es → ∀ ri ref', (y.reqs ri).Guest →
    (y.reqs ri).owner = some ref' → ref.index ≠ ref'.index

variable {idle : Prop} {x y : Client C} {es : List (LogEntry C.nslot)}

theorem Traced.extend (hx : Traced idle x) (h : Extends idle es x y) : Traced idle y where
  order := by
    rw [h.log]
    exact pairwise_append.mpr ⟨h.order, hx.order, h.follows⟩
  grounded := by
    rw [h.log]
    exact h.grounded hx.grounded
  before e he := by
    rw [h.log] at he
    rcases mem_append.mp he with he | he
    · exact h.before e he
    · exact (hx.before e he).mono h.nextId
  req ri hguest := by
    have hsame := h.req ri hguest
    have hr := hx.req ri hsame.guest
    have hspares := h.spares ri hguest
    have hlog := h.log
    refine ⟨?_, fun ref href => ?_, fun ref href hin => ?_, fun hdone hin => ?_, fun ref hin => ?_⟩
    · rw [hsame.id]
      exact Nat.lt_of_lt_of_le hr.before h.nextId
    · obtain ⟨howner, hbuffer⟩ := hsame.owner ref href
      rw [hlog, hsame.id, hbuffer]
      exact (hr.issued ref howner).append fun hidle ref' hin =>
        h.exits hidle ref' hin ri ref hguest href
    · rw [hlog] at hin
      rcases mem_append.mp hin with hin | hin
      · have hnone := hspares _ hin rfl
        rw [href] at hnone
        cases hnone
      · rw [hsame.id] at hin
        exact hr.owned ref (hsame.owner ref href).1 hin
    · rw [hlog] at hin
      rcases mem_append.mp hin with hin | hin
      · exact hdone (hspares _ hin rfl)
      · rw [hsame.id] at hin
        exact hr.pending (hsame.pending hdone) hin
    · rw [hlog] at hin
      rcases mem_append.mp hin with hin | hin
      · exact hspares _ hin rfl
      · rw [hsame.id] at hin
        exact hr.untaken ref hin
  distinct ri rj hi hj hid := by
    have hi' := h.req ri hi
    have hj' := h.req rj hj
    rw [hi'.id, hj'.id] at hid
    exact hx.distinct ri rj hi'.guest hj'.guest hid
  overread := h.overread.trans hx.overread

theorem Kept.continues (h : Kept x y) (ri : Fin nreq) (hguest : (y.reqs ri).Guest) :
    Continues (x.reqs ri) (y.reqs ri) := by
  rcases h ri hguest.1 with hkept | hclunk
  · exact ⟨⟨hkept.used, by rw [← hkept.op]; exact hguest.2⟩, hkept.id,
      fun ref href => ⟨by rw [← hkept.owner]; exact href, hkept.buffer⟩, hkept.pending⟩
  · exact absurd hclunk.1 hguest.2

theorem Extends.silent (hkept : Kept x y) (hlog : y.log = x.log)
    (hnext : y.nextId = x.nextId) (hover : y.overread = x.overread) : Extends idle [] x y :=
  ⟨hlog, hnext.ge, hover, hkept.continues, .nil, by simp, fun h => h, by simp, by simp, by simp⟩

theorem Extends.one {e : LogEntry C.nslot} (hlog : y.log = e :: x.log)
    (hnext : x.nextId ≤ y.nextId) (hover : y.overread = x.overread)
    (hreq : ∀ ri, (y.reqs ri).Guest → Continues (x.reqs ri) (y.reqs ri))
    (hfollows : ∀ e' ∈ x.log, e.Follows e') (hgrounded : e.Grounded idle C.stageCap x.log)
    (hbefore : e.Before y.nextId) (hspares : ∀ ri, (y.reqs ri).Guest → e.Spares (y.reqs ri))
    (hexits : idle → ∀ ref, e = .exit ref → ∀ ri ref', (y.reqs ri).Guest →
      (y.reqs ri).owner = some ref' → ref.index ≠ ref'.index) : Extends idle [e] x y where
  log := hlog
  nextId := hnext
  overread := hover
  req := hreq
  order := pairwise_singleton _ _
  follows := by simpa using hfollows
  grounded h := ⟨hgrounded, h⟩
  before := by simpa using hbefore
  spares := by simpa using hspares
  exits hidle ref href := hexits hidle ref (mem_singleton.mp href).symm

section Steps

variable {v : Option (SlotRef C.nslot)} {F : Faults} {ri : Fin nreq}

theorem complete_follows {id : Nat} (h : .complete id ∉ x.log) :
    ∀ e ∈ x.log, (LogEntry.complete id).Follows e := by
  intro e he
  cases e with
  | complete id' =>
    rintro rfl
    exact h he
  | _ => trivial

variable {r : NetReq C.nslot}

/-- The request `ri`, which was pending, is completed. -/
theorem Traced.completes (hx : Traced idle x) (hguest : (x.reqs ri).Guest)
    (hpending : (x.reqs ri).state ≠ .done)
    (hreqs : y.reqs = update x.reqs ri r) (hkept : KeptReq (x.reqs ri) r) (hdone : r.state = .done)
    (hlog : y.log = .complete (x.reqs ri).id :: x.log) (hnext : y.nextId = x.nextId)
    (hover : y.overread = x.overread) : Extends idle [.complete (x.reqs ri).id] x y := by
  have hreq := hx.req ri hguest
  have hcontinues := (Kept.of_update hreqs fun _ => .inl hkept).continues
  refine .one hlog hnext.ge hover hcontinues (complete_follows (hreq.pending hpending)) trivial
    (Nat.lt_of_lt_of_le hreq.before hnext.ge) (fun rj hrj hid => ?_) (by simp)
  have hsame := hcontinues rj hrj
  rw [hsame.id] at hid
  obtain rfl := hx.distinct _ _ hguest hsame.guest hid
  rw [hreqs, update_self]
  exact hdone

theorem Extends.connDrop (hx : Traced idle x) (hsound : Sound x) :
    Extends idle (x.dropped.map fun ri => .complete (x.reqs ri).id) x x.connDrop := by
  have hdropped : ∀ ri ∈ x.dropped, (x.reqs ri).Guest ∧ (x.reqs ri).state ≠ .done ∧
      (x.connDrop.reqs ri).state = .done := by
    intro ri hri
    simp only [dropped, mem_filter, decide_eq_true_eq] at hri
    obtain ⟨-, hpending, howner⟩ := hri
    have hne : (x.reqs ri).state ≠ .free := by rcases hpending with h | h <;> simp [h]
    have hnot : (x.reqs ri).state ≠ .done := by rcases hpending with h | h <;> simp [h]
    refine ⟨⟨hne, fun h => howner ((hsound.req ri).internal hne h)⟩, hnot, ?_⟩
    simp [Client.connDrop, Client.dropReq, hpending, howner]
  have hcontinues := (Kept.connDrop x).continues
  refine ⟨rfl, le_refl _, rfl, hcontinues, ?_, ?_, fun h => ?_, ?_, ?_, by simp⟩
  · -- different requests have different numbers
    rw [pairwise_map]
    have hnodup : x.dropped.Nodup := (nodup_finRange nreq).filter _
    refine List.Pairwise.imp_of_mem (fun hi hj hne hid => hne ?_) hnodup
    exact hx.distinct _ _ (hdropped _ hi).1 (hdropped _ hj).1 hid
  · intro e he
    obtain ⟨ri, hri, rfl⟩ := mem_map.mp he
    obtain ⟨hguest, hpending, -⟩ := hdropped ri hri
    exact complete_follows ((hx.req ri hguest).pending hpending)
  · induction x.dropped with
    | nil => exact h
    | cons ri rest ih => exact ⟨trivial, ih⟩
  · intro e he
    obtain ⟨ri, hri, rfl⟩ := mem_map.mp he
    exact (hx.req ri (hdropped ri hri).1).before
  intro rj hrj e he
  obtain ⟨ri, hri, rfl⟩ := mem_map.mp he
  intro hid
  have hsame := hcontinues rj hrj
  rw [hsame.id] at hid
  obtain rfl := hx.distinct _ _ (hdropped ri hri).1 hsame.guest hid
  exact (hdropped ri hri).2.2

theorem Act.extends (h : Act v F x y) (hsound : Sound x) (hx : Traced idle x) :
    ∃ es, Extends idle es x y := by
  have hkept := h.kept hsound
  -- a request on the wire is in use and not done
  have hflight : ∀ {ri : Fin nreq}, x.inflight = some ri → (x.reqs ri).op ≠ .clunk →
      (x.reqs ri).Guest ∧ (x.reqs ri).state ≠ .done := fun hin hop => by
    simp [NetReq.Guest, hsound.state_of_inflight hin, hop]
  cases h with
  | quiet h _ | phase h _ _ | session _ _ h _ =>
    exact ⟨[], .silent hkept h.log h.nextId h.overread⟩
  | @copy ri ref addr bytes hin hop howner _ hlow hhigh =>
    obtain ⟨hguest, -⟩ := hflight hin hop
    have hreq := hx.req ri hguest
    refine ⟨_, .one rfl (le_refl _) rfl hkept.continues (fun e he => ?_)
      ⟨_, _, hreq.issued ref howner, hlow, hhigh⟩ trivial (fun _ _ => trivial) (by simp)⟩
    cases e with
    | interrupt id =>
      rintro rfl
      exact hreq.owned ref howner he
    | _ => trivial
  | stage _ hfit =>
    refine ⟨_, .one rfl (le_refl _) rfl hkept.continues (fun e _ => ?_) hfit trivial
      (fun _ _ => trivial) (by simp)⟩
    cases e <;> trivial
  | seek | advance => exact ⟨[], .silent hkept rfl rfl rfl⟩
  | abandon hin =>
    rw [abandon_eq] at hkept ⊢
    rw [release_eq]
    exact ⟨[], .silent hkept rfl rfl rfl⟩
  | @fail ri e hin hop =>
    obtain ⟨hguest, hpending⟩ := hflight hin hop
    rw [fail_eq hop, release_eq]
    exact ⟨_, hx.completes hguest hpending rfl
      ⟨hguest.1, rfl, rfl, rfl, rfl, rfl, rfl, by simp, by simp⟩ rfl rfl rfl rfl⟩
  | @opened ri o hin hop =>
    obtain ⟨hguest, hpending⟩ := hflight hin (by simp [hop])
    exact ⟨_, hx.completes hguest hpending rfl
      ⟨hguest.1, rfl, rfl, rfl, rfl, rfl, rfl, by simp, by simp⟩ rfl rfl rfl rfl⟩
  | @finish ri e hin hop =>
    obtain ⟨hguest, hpending⟩ := hflight hin (by rcases hop with h | h <;> simp [h])
    exact ⟨_, hx.completes hguest hpending rfl
      ⟨hguest.1, rfl, rfl, rfl, rfl, rfl, rfl, by simp, by simp⟩ rfl rfl rfl rfl⟩
  | @clunked ri hin hop =>
    obtain ⟨hguest, hpending⟩ := hflight hin (by rcases hop with h | h <;> simp [h])
    obtain ⟨fids, hfids⟩ := fidFree_eq x (x.reqs ri).fid
    rw [clunked_eq, hfids]
    exact ⟨_, hx.completes hguest hpending rfl
      ⟨hguest.1, rfl, rfl, rfl, rfl, rfl, rfl, by simp, by simp⟩ rfl rfl rfl rfl⟩
  | @clunkDone ri hin hop =>
    obtain ⟨fids, hfids⟩ := fidFree_eq x (x.reqs ri).fid
    rw [hfids] at hkept ⊢
    exact ⟨[], .silent hkept rfl rfl rfl⟩

theorem Launch.extends (h : Launch v x y) (hsound : Sound x) (hx : Traced idle x) :
    ∃ es, Extends idle es x y := by
  have hkept := h.kept
  cases h with
  | walk | io | clunk => exact ⟨[], .silent hkept rfl rfl rfl⟩
  | @refuse ri e hidle hqueued =>
    have hclunk := ((hsound.req ri).owned (.inl hqueued)).2
    have hguest : (x.reqs ri).Guest := ⟨by simp [hqueued], hclunk⟩
    exact ⟨_, hx.completes hguest (by simp [hqueued]) rfl
      ⟨hguest.1, rfl, rfl, rfl, rfl, rfl, rfl, by simp, by simp⟩ rfl rfl rfl rfl⟩

theorem Traced.fresh (hx : Traced idle x) :
    (∀ ref buf len, .issue x.nextId ref buf len ∉ x.log) ∧ .complete x.nextId ∉ x.log ∧
      (∀ ref, .take x.nextId ref ∉ x.log) ∧ .interrupt x.nextId ∉ x.log :=
  ⟨fun _ _ _ h => Nat.lt_irrefl _ (hx.before _ h), fun h => Nat.lt_irrefl _ (hx.before _ h),
    fun _ h => Nat.lt_irrefl _ (hx.before _ h), fun h => Nat.lt_irrefl _ (hx.before _ h)⟩

theorem Traced.insert (hx : Traced idle x) (hr : TracedReq idle x r)
    (hnew : ∀ rj, (x.reqs rj).Guest → (x.reqs rj).id ≠ r.id)
    (hy : y = { x with reqs := update x.reqs ri r }) : Traced idle y := by
  subst hy
  have hself : update x.reqs ri r ri = r := update_self ..
  have hother : ∀ {rj : Fin nreq}, rj ≠ ri → update x.reqs ri r rj = x.reqs rj :=
    fun h => update_of_ne h _ _
  refine { hx with req := fun rj hrj => ?_, distinct := fun rj rk hj hk hid => ?_ }
  · dsimp only at hrj ⊢
    by_cases h : rj = ri
    · subst h
      rw [hself]
      exact { hr with }
    · rw [hother h] at hrj ⊢
      have hold := hx.req rj hrj
      exact { hold with }
  dsimp only at hj hk hid
  by_cases hji : rj = ri <;> by_cases hki : rk = ri
  · exact hji.trans hki.symm
  · rw [hother hki] at hk hid
    rw [hji, hself] at hid
    exact absurd hid.symm (hnew rk hk)
  · rw [hother hji] at hj hid
    rw [hki, hself] at hid
    exact absurd hid (hnew rj hj)
  · rw [hother hji] at hj hid
    rw [hother hki] at hk hid
    exact hx.distinct rj rk hj hk hid

theorem Traced.issue (hx : Traced idle x) {ref : SlotRef C.nslot} (hid : r.id = x.nextId)
    (howner : r.owner = some ref) (hreqs : y.reqs = update x.reqs ri r)
    (hlog : y.log = .issue r.id ref r.buffer.1 r.buffer.2 :: x.log)
    (hnext : y.nextId = x.nextId + 1) (hover : y.overread = x.overread) : Traced idle y := by
  obtain ⟨hissue, hcomplete, htake, hinterrupt⟩ := hx.fresh
  rw [hid] at hlog
  -- first the entry, with the pool as it was
  have hlogged : Traced idle { y with reqs := x.reqs } := by
    apply hx.extend
    refine .one hlog ?_ hover (Kept.refl x).continues (fun e he => ?_) trivial ?_
      (fun _ _ => trivial) (by simp)
    · simp [hnext]
    · cases e with
      | issue id ref' buf len =>
        rintro rfl
        exact hissue _ _ _ he
      | _ => trivial
    · simp [LogEntry.Before, hnext]
  have hy : y = { ({ y with reqs := x.reqs } : Client C) with reqs := update x.reqs ri r } := by
    rw [← hreqs]
  refine hlogged.insert ?_ ?_ hy
  · refine ⟨?_, fun ref' href' => ?_, fun ref' _ => ?_, fun _ => ?_, fun ref' => ?_⟩
    · simp [hid, hnext]
    · rw [howner] at href'
      cases href'
      exact ⟨[], x.log, by simp [hlog, hid], by simp⟩
    · simpa [hlog, hid] using hinterrupt
    · simpa [hlog, hid] using hcomplete
    · simpa [hlog, hid] using htake ref'
  · intro rj hrj
    rw [hid]
    exact Nat.ne_of_lt (hx.req rj hrj).before

theorem Passed.traced (h : Passed v F x y) (hsound : Sound x) (hx : Traced idle x) :
    Traced idle y := by
  refine h.invariant hsound hx (fun hy hP hact => ?_) (fun hy hP hlaunch => ?_)
    fun _ hy hP => hP.extend (.connDrop hP hy)
  · obtain ⟨es, hext⟩ := hact.extends hy hP
    exact hP.extend hext
  · obtain ⟨es, hext⟩ := hlaunch.extends hy hP
    exact hP.extend hext

end Steps

/-! ## What a consistent history says -/

section History

theorem Traced.issue_unique (hx : Traced idle x) {id : Nat} {ref ref' : SlotRef C.nslot}
    {buf buf' len len' : Nat} (h : .issue id ref buf len ∈ x.log)
    (h' : .issue id ref' buf' len' ∈ x.log) : ref' = ref ∧ buf' = buf ∧ len' = len := by
  by_contra hne
  have hsymm : Std.Symm fun e e' : LogEntry C.nslot => e.Follows e' ∨ e'.Follows e :=
    ⟨fun _ _ => Or.symm⟩
  have hboth : x.log.Pairwise fun e e' => e.Follows e' ∨ e'.Follows e := hx.order.imp .inl
  have hentries := hboth.forall h h' (by
    rintro ⟨⟩
    exact hne ⟨rfl, rfl, rfl⟩)
  rcases hentries with h | h <;> exact h rfl

theorem Traced.complete_once (hx : Traced idle x) (id : Nat) : x.log.count (.complete id) ≤ 1 := by
  have horder := hx.order
  revert horder
  generalize x.log = log
  intro horder
  induction log with
  | nil => simp
  | cons e log ih =>
    obtain ⟨hfirst, hrest⟩ := pairwise_cons.mp horder
    by_cases he : e = .complete id
    · subst he
      have hnone : .complete id ∉ log := fun h => hfirst _ h rfl
      rw [count_cons_self, count_eq_zero_of_not_mem hnone]
    · rw [count_cons_of_ne he]
      exact ih hrest

theorem Traced.copy_first (hx : Traced idle x) {newer older : List (LogEntry C.nslot)}
    {id addr : Nat} {ref : SlotRef C.nslot} {bytes : Bytes}
    (h : x.log = newer ++ .copy id ref addr bytes :: older) : .interrupt id ∉ older := by
  have horder := hx.order
  rw [h] at horder
  have hfollows := (pairwise_cons.mp (pairwise_append.mp horder).2.1).1
  exact fun hin => hfollows _ hin rfl

theorem Traced.grounded_of_split (hx : Traced idle x) {newer older : List (LogEntry C.nslot)}
    {e : LogEntry C.nslot} (h : x.log = newer ++ e :: older) :
    e.Grounded idle C.stageCap older := by
  have hgrounded := hx.grounded
  rw [h] at hgrounded
  exact hgrounded.split

end History

/-! ## Runs -/

namespace World

section Moves

variable {x y : World C} {s : C.Slot} {ri : Fin nreq}

/-- A slot is reassigned while it owns no request. -/
theorem traced_reassign (hx : Traced idle x.net)
    (hnone : idle → ∀ rj ref, (x.net.reqs rj).state ≠ .free → (x.net.reqs rj).owner = some ref →
      ref.index ≠ s) : Traced idle (x.reassign s).net := by
  refine hx.extend (Extends.one rfl (le_refl _) rfl (Kept.refl x.net).continues (fun e _ => ?_)
    trivial trivial (fun _ _ => trivial) ?_)
  · cases e <;> trivial
  · rintro hidle _ ⟨⟩ rj ref hguest howner
    exact (hnone hidle rj ref hguest.1 howner).symm

theorem extends_taken (hx : Traced idle x.net) (hsound : Sound x.net)
    (hwaits : x.Waits s ri) (hdone : (x.net.reqs ri).state = .done) :
    Extends idle [.take (x.net.reqs ri).id (x.ref s)] x.net (x.taken s ri).net := by
  have hguest : (x.net.reqs ri).Guest := ⟨by simp [hdone], ((hsound.req ri).owned (.inr hdone)).2⟩
  have hreq := hx.req ri hguest
  have hkept : Kept x.net (x.taken s ri).net := .of_update rfl fun h => absurd rfl h
  refine .one rfl (le_refl _) rfl hkept.continues (fun e he => ?_)
    ⟨_, _, hreq.issued _ hwaits.owner⟩ hreq.before (fun rj hrj hid => ?_) (by simp)
  · cases e with
    | take id ref =>
      rintro rfl
      exact hreq.untaken ref he
    | _ => trivial
  · have hsame := hkept.continues rj hrj
    rw [hsame.id] at hid
    obtain rfl := hx.distinct _ _ hguest hsame.guest hid
    exact hrj.1 (by simp [World.taken, updTask, record, updReq])

theorem cancelled_log (x : World C) (ri : Fin nreq) :
    (x.cancelled ri).net.log = .interrupt (x.net.reqs ri).id :: x.net.log ∧
      (x.cancelled ri).net.nextId = x.net.nextId ∧
      (x.cancelled ri).net.overread = x.net.overread := by
  by_cases hflight : (x.net.reqs ri).state = .inflight
  · rw [cancelled_inflight hflight]
    exact ⟨rfl, rfl, rfl⟩
  · rw [cancelled_parked hflight]
    exact ⟨rfl, rfl, rfl⟩

theorem cancelled_continues {rj : Fin nreq} (h : ((x.cancelled ri).net.reqs rj).Guest) :
    Continues (x.net.reqs rj) ((x.cancelled ri).net.reqs rj) := by
  by_cases hrj : rj = ri
  · subst hrj
    by_cases hflight : (x.net.reqs rj).state = .inflight
    · rw [cancelled_inflight hflight] at h ⊢
      dsimp only at h ⊢
      rw [update_self] at h ⊢
      exact ⟨h, rfl, by simp, fun h => h⟩
    · rw [cancelled_parked hflight] at h
      exact absurd (by simp) h.1
  · rw [cancelled_reqs_of_ne hrj] at h ⊢
    exact (Kept.refl x.net).continues rj h

theorem extends_cancelled (hx : Traced idle x.net)
    (hsound : Sound x.net) (hwaits : x.Waits s ri) (hused : (x.net.reqs ri).state ≠ .free) :
    Extends idle [.interrupt (x.net.reqs ri).id] x.net (x.cancelled ri).net := by
  have hclunk : (x.net.reqs ri).op ≠ .clunk := by
    intro hop
    have hnone := (hsound.req ri).internal hused hop
    rw [hwaits.owner] at hnone
    cases hnone
  have hguest : (x.net.reqs ri).Guest := ⟨hused, hclunk⟩
  obtain ⟨hlog, hnext, hover⟩ := cancelled_log x ri
  refine .one hlog hnext.ge hover (fun rj => cancelled_continues) (fun e _ => ?_) trivial ?_
    (fun rj hrj hid => ?_) (by simp)
  · cases e <;> trivial
  · rw [hnext]
    exact (hx.req ri hguest).before
  · have hsame := cancelled_continues hrj
    rw [hsame.id] at hid
    obtain rfl := hx.distinct _ _ hguest hsame.guest hid
    exact cancelled_unowned.resolve_left hrj.1

theorem Move.traced {F : Faults} {B : Breaches} (h : Move F B x y) (hsound : Sound x.net)
    (hawaited : x.Awaited) (hidle : idle → ¬B.torn ∧ x.Attended) (hx : Traced idle x.net) :
    Traced idle y.net := by
  have hclose : ∀ {net : Client C} (oi : Fin nopen), Traced idle net →
      Traced idle (net.close oi) := by
    intro net oi hnet
    obtain ⟨fids, clunks, opens, hclose⟩ := net.close_eq oi
    rw [hclose]
    exact hnet.extend (.silent (Kept.refl net) rfl rfl rfl)
  cases h with
  | tasks | stageOwner | unwait => exact hx
  | quiet h _ => exact hx.extend (.silent (.of_same h) h.log h.nextId h.overread)
  | pump _ _ h => exact h.traced hsound hx
  | issue => exact hx.issue rfl rfl rfl rfl rfl rfl
  | @issueOpen s ri r =>
    have hissue : Traced idle (x.issue s ri r).net := hx.issue rfl rfl rfl rfl rfl rfl
    exact hissue.extend (.silent (Kept.refl _) rfl rfl rfl)
  | take hwaits hdone | install hwaits hdone =>
    exact hx.extend (extends_taken hx hsound hwaits hdone)
  | discard hwaits hdone => exact hclose _ (hx.extend (extends_taken hx hsound hwaits hdone))
  | @cancel s ri hwaits =>
    obtain ⟨w, hw, hri⟩ := hwaits.wait
    have hused := (hawaited s w ri hwaits.alive hw hri).1
    exact hx.extend (extends_cancelled hx hsound hwaits hused)
  | close => exact hclose _ hx
  | @exit s _ htorn =>
    refine traced_reassign (x := x.updTask s fun t => { t with alive := false }) hx
      fun h rj ref hused howner => ?_
    obtain ⟨hnot, hattended⟩ := hidle h
    exact hattended.none_of_idle (htorn.resolve_right hnot) hused howner
  | reassign hwait =>
    refine traced_reassign hx fun h rj ref hused howner => ?_
    exact (hidle h).2.none_of_idle (fun w hw => by simp [hwait] at hw) hused howner
  | @spawn s group hdead =>
    refine traced_reassign
      (x := x.updTask s fun t => { alive := true, generation := t.generation, group := group }) hx
      fun h rj ref hused howner => ?_
    rintro rfl
    have halive := ((hidle h).2 rj ref hused howner).1.1
    rw [hdead] at halive
    cases halive

end Moves

theorem traced_empty (wire : Wire) : Traced idle (({} : Client C).withWire wire) where
  order := .nil
  grounded := trivial
  before := by simp [withWire]
  req ri hguest := absurd rfl hguest.1
  distinct ri rj hguest := absurd rfl hguest.1
  overread := rfl

/-- `idle` stands for the exits: where it holds, every event of the run meets `ExitsIdle`. -/
theorem Runs.traced {ok : World C → Event C → Prop} {x : World C} (h : Runs ok x) (idle : Prop)
    (hok : idle → ∀ y e, ok y e → y.ExitsIdle e) : Sound x.net ∧ Traced idle x.net := by
  have hall := h.induct (P := fun x => x.Awaited ∧ (idle → x.Attended) ∧ Traced idle x.net)
    (fun wire => ⟨fun s w ri halive => by simp at halive, fun _ ri ref hused => absurd rfl hused,
      traced_empty wire⟩)
    (fun {y z} hsound hP hact => ⟨fun s w ri halive => by simp at halive,
      fun hidle => (hP.2.1 hidle).kept (hact.kept hsound) rfl, ?_⟩)
    fun {x e} _ _ he => ⟨.any, ⟨True, True, ¬idle, True, True, True⟩,
      meets_any x e _ (fun s hs halive hintent => ?_) trivial trivial trivial trivial trivial,
      fun _ hsound hP hmove => ⟨hmove.awaited hsound hP.1,
        fun hidle => hmove.attended (not_not.mpr hidle) hsound (hP.2.1 hidle),
        hmove.traced hsound hP.1 (fun hidle => ⟨not_not.mpr hidle, hP.2.1 hidle⟩) hP.2.2⟩⟩
  · exact ⟨hall.1, hall.2.2.2⟩
  · obtain ⟨es, hext⟩ := hact.extends hsound hP.2.2
    exact hP.2.2.extend hext
  · subst hs
    by_cases hidle : idle
    · exact .inl (hok hidle x _ he halive hintent)
    · exact .inr hidle

/-- A `stat` call that is answered: the record is copied and the result taken. -/
def statCall : List (Event sample) :=
  [.netfsStat 0 [97] 4096 .kstat64, .retry 0 (retrying []),
    .retry 0 (retrying
      [.data (message .rwalk 1 (LittleEndian.write 2 1 ++ LittleEndian.write 13 0)),
        .data (message .rlgetattr 1 (LittleEndian.write 153 0)), .data (message .rclunk 1 [])])]

def statAnswered : World sample := (init sample 1 handshake).run (.spawn 0 1 :: statCall)

theorem statAnswered_runs : Runs (fun _ _ => True) statAnswered :=
  (Runs.init 1 handshake).run fun _ _ _ => trivial

/-- On every run one request at a time is on the wire, a request is completed once at most, and
nothing is copied to guest memory for a request that was interrupted.  Where only idle tasks exit, a
result goes to the incarnation that issued the request, and nothing is copied after that one
exited. -/
theorem requests_exclusive {ok : World C → Event C → Prop} {x : World C} (h : Runs ok x) :
    (∀ ri rj, (x.net.reqs ri).state = .inflight → (x.net.reqs rj).state = .inflight → ri = rj) ∧
    (∀ id, x.net.log.count (.complete id) ≤ 1) ∧
    (∀ newer older id ref addr bytes, x.net.log = newer ++ .copy id ref addr bytes :: older →
      .interrupt id ∉ older) ∧
    ((∀ y e, ok y e → y.ExitsIdle e) →
      (∀ newer older id ref, x.net.log = newer ++ .take id ref :: older →
        (∃ buf len, LogEntry.Issued True older id ref buf len) ∧
        ∀ ref' buf len, .issue id ref' buf len ∈ x.net.log → ref' = ref) ∧
      ∀ newer older id ref addr bytes, x.net.log = newer ++ .copy id ref addr bytes :: older →
        ∃ buf len, LogEntry.Issued True older id ref buf len) := by
  obtain ⟨hsound, htraced⟩ := h.traced False (fun h => h.elim)
  refine ⟨fun ri rj hi hj => ?_, htraced.complete_once,
    fun newer older id ref addr bytes hsplit => htraced.copy_first hsplit, fun hok => ?_⟩
  · have hri := (hsound.flight ri).mp hi
    rw [(hsound.flight rj).mp hj] at hri
    exact (Option.some.inj hri).symm
  have hidle := (h.traced True fun _ => hok).2
  refine ⟨fun newer older id ref hsplit => ?_, fun newer older id ref addr bytes hsplit => ?_⟩
  · obtain ⟨buf, len, hissued⟩ := hidle.grounded_of_split hsplit
    refine ⟨⟨buf, len, hissued⟩, fun ref' buf' len' h => ?_⟩
    have hmem := hissued.mem_of_split hsplit
    exact (htraced.issue_unique hmem h).1
  · obtain ⟨buf, len, hissued, -⟩ := hidle.grounded_of_split hsplit
    exact ⟨buf, len, hissued⟩

/-- A result and a copy for a process in a slot whose former one left by `exit_group`. -/
theorem stat_result_to_its_issuer :
    let x := ((init sample 1 handshake).run [.spawn 0 1, .spawn 1 1, .exitCall 1 true,
      .handleExit 1, .handleExit 0, .spawn 0 2]).run statCall
    (∃ newer older buf len, x.net.log = newer ++ .take 0 ⟨0, 3⟩ :: older ∧
      LogEntry.Issued True older 0 ⟨0, 3⟩ buf len) ∧
    ∃ newer older bytes buf len, x.net.log = newer ++ .copy 0 ⟨0, 3⟩ 4096 bytes :: older ∧
      LogEntry.Issued True older 0 ⟨0, 3⟩ buf len := by
  intro x
  have hruns : Runs ExitsIdle x := runs_regrouped.run (by simp [statCall, ExitsIdle])
  have hidle := (requests_exclusive hruns).2.2.2 fun _ _ h => h
  constructor
  · obtain ⟨newer, older, hsplit⟩ :=
      append_of_mem (show .take 0 ⟨0, 3⟩ ∈ x.net.log by decide +kernel)
    obtain ⟨⟨buf, len, hissued⟩, -⟩ := hidle.1 newer older 0 _ hsplit
    exact ⟨newer, older, buf, len, hsplit, hissued⟩
  · obtain ⟨newer, older, hsplit⟩ := append_of_mem (show
      .copy 0 ⟨0, 3⟩ 4096 (statRecord ⟨0, 0, 0, 0⟩ .kstat64) ∈ x.net.log by decide +kernel)
    obtain ⟨buf, len, hissued⟩ := hidle.2 newer older 0 _ _ _ hsplit
    exact ⟨newer, older, _, buf, len, hsplit, hissued⟩

/-! ## A generation comes again -/

/-- A process in slot 0 that starts and exits. -/
def life : List (Event sample) := [.spawn 0 1, .exitCall 0 false, .handleExit 0]

/-- What is left in the slot after `a + 1` reassignments. -/
def leftover (a : Nat) : Task :=
  { generation := a % 4294967295 + 1, group := 1, intent := .exit false }

theorem nextGeneration_mod (a : Nat) :
    nextGeneration (a % 4294967295 + 1) = (a + 1) % 4294967295 + 1 := by
  unfold nextGeneration
  split <;> omega

def livesLog (a : Nat) : Nat → List (LogEntry sample.nslot)
  | 0 => []
  | n + 1 => livesLog (a + 2) n ++
    [.exit ⟨0, (leftover (a + 1)).generation⟩, .exit ⟨0, (leftover a).generation⟩]

/-- `n` lives later nothing else has changed. -/
def after (x : World sample) (a n : Nat) : World sample :=
  { x with
    net := { x.net with log := livesLog a n ++ x.net.log }
    tasks := update x.tasks 0 (leftover (a + 2 * n)) }

theorem run_life {x : World sample} {a : Nat} (h : x.tasks 0 = leftover a) :
    x.run life = x.after a 1 := by
  simp [run, life, step, h, leftover, calling, updTask, World.reassign, setIntent,
    World.handleExit, nextGeneration_mod, ref, record, after, livesLog]

theorem runs_lives {x : World sample} {a : Nat} (n : Nat) (hruns : Runs (fun _ _ => True) x)
    (h : x.tasks 0 = leftover a) : Runs (fun _ _ => True) (x.after a n) := by
  induction n generalizing x a with
  | zero =>
    have hsame : x.after a 0 = x := by simp [after, livesLog, ← h]
    rwa [hsame]
  | succ n ih =>
    have hone : Runs (fun _ _ => True) (x.after a 1) := by
      rw [← run_life h]
      exact hruns.run fun _ _ _ => trivial
    have hstep : x.after a (n + 1) = (x.after a 1).after (a + 2) n := by
      simp [after, livesLog, Nat.mul_add, Nat.add_assoc, Nat.add_comm 2]
    rw [hstep]
    exact ih hone (by simp [after])

/-- The reply to the request of a task that is gone is copied to the memory of the process that has
its slot 2³² - 1 reassignments later. -/
theorem reply_reaches_next_owner : ∃ (x : World sample) (events : List (Event sample))
      (since before : List (LogEntry sample.nslot)) (bytes : Bytes),
    Runs (fun _ _ => True) x ∧ x.net.log = since ++ .issue 0 ⟨0, 1⟩ 4096 104 :: before ∧
      .exit ⟨0, 1⟩ ∈ since ∧ bytes ≠ [] ∧ (x.run events).net.log.take 3 =
        [.copy 0 ⟨0, 1⟩ 4096 bytes, .issue 1 ⟨0, 1⟩ 8192 104, .exit ⟨0, 4294967295⟩] := by
  let x : World sample := (init sample 1 handshake).run (stranding ++ life)
  have hruns : Runs (fun _ _ => True) x := (Runs.init 1 handshake).run fun _ _ _ => trivial
  have hlog : x.net.log = [.exit ⟨0, 3⟩, .exit ⟨0, 2⟩, .exit ⟨0, 1⟩, .exit ⟨1, 1⟩] ++
      .issue 0 ⟨0, 1⟩ 4096 104 :: [.exit ⟨1, 0⟩, .exit ⟨0, 0⟩] := by decide +kernel
  refine ⟨x.after 3 4294967293,
    [.spawn 0 1, .netfsStat 0 [98] 8192 .kstat64, .retry 0 (retrying
      [.data (message .rwalk 1 (LittleEndian.write 2 1 ++ LittleEndian.write 13 0)),
        .data (message .rlgetattr 1 (LittleEndian.write 153 0))])],
    _, _, statRecord ⟨0, 0, 0, 0⟩ .kstat64, runs_lives _ hruns (by decide +kernel),
    (congrArg (livesLog 3 4294967293 ++ ·) hlog).trans (append_assoc ..).symm, ?_, ?_, ?_⟩
  · exact mem_append_right _ (by decide)
  · decide +kernel
  · decide +kernel

/-- Whatever the server sends, no reply is read outside of what was received, every copy to guest
memory lies in the buffer that the call passed, and staged bytes lie below the capacity of the
staging buffer. -/
theorem replies_in_bounds {x : World C} (h : Runs (fun _ _ => True) x) : x.net.overread = false ∧
    (∀ id ref addr bytes, .copy id ref addr bytes ∈ x.net.log →
      ∃ buf len, .issue id ref buf len ∈ x.net.log ∧ buf ≤ addr ∧ addr + bytes.length ≤ buf + len ∧
        ∀ ref' buf' len', .issue id ref' buf' len' ∈ x.net.log → buf' = buf ∧ len' = len) ∧
    ∀ id off bytes, .stage id off bytes ∈ x.net.log → off + bytes.length ≤ C.stageCap := by
  obtain ⟨-, htraced⟩ := h.traced False (fun h => h.elim)
  refine ⟨htraced.overread, fun id ref addr bytes hcopy => ?_, fun id off bytes hstage => ?_⟩
  · obtain ⟨newer, older, hsplit⟩ := append_of_mem hcopy
    obtain ⟨buf, len, hissued, hlow, hhigh⟩ := htraced.grounded_of_split hsplit
    have hmem := hissued.mem_of_split hsplit
    exact ⟨buf, len, hmem, hlow, hhigh, fun _ _ _ h => (htraced.issue_unique hmem h).2⟩
  · obtain ⟨newer, older, hsplit⟩ := append_of_mem hstage
    exact htraced.grounded_of_split hsplit

theorem stat_copy_in_record : ∃ bytes, .copy 0 ⟨0, 1⟩ 4096 bytes ∈ statAnswered.net.log ∧
      ∃ buf len, .issue 0 ⟨0, 1⟩ buf len ∈ statAnswered.net.log ∧ buf ≤ 4096 ∧
        4096 + bytes.length ≤ buf + len := by
  have hcopy : .copy 0 ⟨0, 1⟩ 4096 (statRecord ⟨0, 0, 0, 0⟩ .kstat64) ∈ statAnswered.net.log := by
    decide +kernel
  obtain ⟨buf, len, hissue, hlow, hhigh, -⟩ :=
    (replies_in_bounds statAnswered_runs).2.1 _ _ _ _ hcopy
  exact ⟨_, hcopy, buf, len, hissue, hlow, hhigh⟩

end World

end Lxp.Netfs
