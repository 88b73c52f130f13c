import Lxp.Netfs.Slots

/-!
# Fids

The fid bitmap belongs to one connection, while opens and the queue of fids to clunk can outlive it.
On one connection every allocated fid has at most one holder: an open, the request in flight or the
queue.  What the server has bound is known from the messages sent: a holder's fid is bound until the
message that clunks it, and a walk never names a bound fid as new.
-/

namespace Lxp.Netfs

open Client Function Ownership List Bool

variable {C : Config}

def NetOpen.heldFid (o : NetOpen) : Option Nat :=
  if o.used = true ∧ o.stale = false ∧ o.fid ≠ 0 then some o.fid else none

def NetReq.heldFid {n : Nat} (r : NetReq n) : Option Nat :=
  if r.state = .inflight ∧ r.fid ≠ 0 then some r.fid else none

/-- The fids that open files and requests use on this connection. -/
def holds (x : Client C) : Fin nopen ⊕ Fin nreq → Option Nat
  | .inl oi => (x.opens oi).heldFid
  | .inr ri => (x.reqs ri).heldFid

/-- The last message of the request clunked its fid. -/
def clunking (x : Client C) : Fin nopen ⊕ Fin nreq → Bool
  | .inl _ => false
  | .inr ri => (x.reqs ri).clunkStep

/-- Who has a fid: its user, or the queue of fids to clunk. -/
def fidNames (x : Client C) : (Fin nopen ⊕ Fin nreq) ⊕ Nat → Option Nat
  | .inl n => holds x n
  | .inr f => if f ∈ x.clunks then some f else none

structure FidsOwned (x : Client C) : Prop where
  owned : Owned True x.fids (fidNames x)
  nodup : x.clunks.Nodup
  range : ∀ {f}, x.fids f = true → 0 < f ∧ f < nfid
  known : ∀ {f}, bound x.sent f = true → x.fids f = true
  server : ∀ {n f}, holds x n = some f → bound x.sent f = !clunking x n
  fresh : walksFresh x.sent = true

section Holders

variable {n : Nat} {r r' : NetReq n} {o : NetOpen}

theorem heldFid_of_inflight (h : r.state = .inflight) :
    r.heldFid = if r.fid = 0 then none else some r.fid := by
  by_cases hfid : r.fid = 0 <;> simp [NetReq.heldFid, h]

theorem heldFid_of_not_inflight (h : r.state ≠ .inflight) : r.heldFid = none := by
  simp [NetReq.heldFid, h]

theorem heldFid_of_current (hused : o.used = true) (hstale : o.stale = false) :
    o.heldFid = if o.fid = 0 then none else some o.fid := by
  by_cases hfid : o.fid = 0 <;> simp [NetOpen.heldFid, hused, hstale]

theorem heldFid_of_unused (h : o.used = false) : o.heldFid = none := by
  simp [NetOpen.heldFid, h]

theorem heldFid_of_stale (h : o.stale = true) : o.heldFid = none := by
  simp [NetOpen.heldFid, h]

theorem heldFid_of_zero (h : o.fid = 0) : o.heldFid = none := by
  simp [NetOpen.heldFid, h]

theorem SameReq.heldFid (h : SameReq r r') : r'.heldFid = r.heldFid := by
  by_cases hflight : r.state = .inflight
  · rw [heldFid_of_inflight hflight, heldFid_of_inflight (h.state.trans hflight),
      h.fid (by simp [hflight])]
  · rw [heldFid_of_not_inflight hflight, heldFid_of_not_inflight (by rw [h.state]; exact hflight)]

end Holders

section Session

variable {x y : Client C} {n m : Fin nopen ⊕ Fin nreq} {f : Nat}

def Others (x y : Client C) (n : Fin nopen ⊕ Fin nreq) : Prop :=
  ∀ k, k ≠ n → holds y k = holds x k ∧ clunking y k = clunking x k

theorem Others.old (h : Others x y n) (hn : holds y n = none) {k : Fin nopen ⊕ Fin nreq}
    (hk : holds y k = some f) : holds x k = some f ∧ clunking y k = clunking x k := by
  have hkn : k ≠ n := by
    rintro rfl
    rw [hn] at hk
    cases hk
  exact ⟨by rw [← (h k hkn).1]; exact hk, (h k hkn).2⟩

section

variable (hx : FidsOwned x)
include hx

theorem FidsOwned.not_clunked (hn : holds x n = some f) : f ∉ x.clunks := by
  intro hf
  have hqueue : fidNames x (.inr f) = some f := if_pos hf
  have hsame := hx.owned.inj (n := .inl n) hn hqueue
  cases hsame

theorem FidsOwned.ne_zero_of_clunks (hf : f ∈ x.clunks) : f ≠ 0 := by
  have hpos := (hx.range (hx.owned.live (n := .inr f) (if_pos hf))).1
  omega

/-- A step in which holders keep their fids or lose them. -/
theorem FidsOwned.shrink (hfids : y.fids = x.fids) (hclunks : y.clunks = x.clunks)
    (hbound : ∀ f, bound y.sent f = bound x.sent f) (hfresh : walksFresh y.sent = walksFresh x.sent)
    (hholds : ∀ n, holds y n = none ∨ (holds y n = holds x n ∧ clunking y n = clunking x n)) :
    FidsOwned y where
  owned := by
    refine hx.owned.lose trivial (fun _ => by rw [hfids]) fun n => ?_
    cases n with
    | inl n => exact (hholds n).symm.imp_left fun h => h.1
    | inr f => exact .inl (by simp only [fidNames, hclunks])
  nodup := hclunks ▸ hx.nodup
  range hf := hx.range (hfids ▸ hf)
  known hf := by
    rw [hbound] at hf
    rw [hfids]
    exact hx.known hf
  server {n f} hn := by
    rcases hholds n with h | ⟨hsame, hclunking⟩
    · rw [h] at hn
      cases hn
    · rw [hsame] at hn
      rw [hbound, hclunking]
      exact hx.server hn
  fresh := hfresh.trans hx.fresh

theorem FidsOwned.lose (hfids : y.fids = x.fids) (hclunks : y.clunks = x.clunks)
    (hsent : y.sent = x.sent) (hn : holds y n = none) (hother : Others x y n) : FidsOwned y := by
  refine hx.shrink hfids hclunks (fun _ => by rw [hsent]) (by rw [hsent]) fun k => ?_
  by_cases hk : k = n
  · exact .inl (hk ▸ hn)
  · exact .inr (hother k hk)

/-- A holder gives its fid to the queue, which has room. -/
theorem FidsOwned.enqueue (hroom : x.clunks.length + 1 ≠ nclunk)
    (hn : holds x n = if f = 0 then none else some f) (hfids : y.fids = (x.clunkEnqueue f).fids)
    (hclunks : y.clunks = (x.clunkEnqueue f).clunks) (hsent : y.sent = x.sent)
    (hn' : holds y n = none) (hother : Others x y n) : FidsOwned y := by
  by_cases hf : f = 0
  · have hnothing : x.clunkEnqueue f = x := by simp [clunkEnqueue, hf]
    rw [hnothing] at hfids hclunks
    exact hx.lose hfids hclunks hsent hn' hother
  have hqueued : x.clunkEnqueue f = { x with clunks := x.clunks ++ [f] } := by
    simp [clunkEnqueue, hf, hroom]
  rw [hqueued] at hfids hclunks
  rw [if_neg hf] at hn
  have hnot := hx.not_clunked hn
  refine ⟨?_, ?_, fun hg => hx.range (hfids ▸ hg), fun hg => ?_, fun hk => ?_, by
    rw [hsent]; exact hx.fresh⟩
  · refine hx.owned.transfer (n := .inl n) (m := .inr f) hn (if_neg hnot)
      (fun _ => by rw [hfids]) hn' ?_ fun k hkn hkf => ?_
    · simp [fidNames, hclunks]
    cases k with
    | inl k => exact (hother k fun h => hkn (by rw [h])).1
    | inr g =>
      have hgf : g ≠ f := fun h => hkf (by rw [h])
      simp [fidNames, hclunks, hgf]
  · rw [hclunks]
    refine nodup_append.mpr ⟨hx.nodup, by simp, fun g hg f' hf' => ?_⟩
    rintro rfl
    exact hnot (mem_singleton.mp hf' ▸ hg)
  · rw [hsent] at hg
    rw [hfids]
    exact hx.known hg
  · obtain ⟨hold, hclunking⟩ := hother.old hn' hk
    rw [hsent, hclunking]
    exact hx.server hold

/-- The fid of a holder that clunked it is free again. -/
theorem FidsOwned.free (hclunked : clunking x n = true)
    (hn : holds x n = if f = 0 then none else some f) (hfids : y.fids = (x.fidFree f).fids)
    (hclunks : y.clunks = x.clunks) (hsent : y.sent = x.sent) (hn' : holds y n = none)
    (hother : Others x y n) : FidsOwned y := by
  by_cases hf : f = 0
  · have hnothing : x.fidFree f = x := by simp [fidFree, hf]
    rw [hnothing] at hfids
    exact hx.lose hfids hclunks hsent hn' hother
  rw [if_neg hf] at hn
  have hlive : x.fids f = true := hx.owned.live (n := .inl n) hn
  have hfreed : y.fids = update x.fids f false := by
    rw [hfids, fidFree, if_pos (hx.range hlive)]
  have hunbound : bound x.sent f = false := by
    rw [hx.server hn, hclunked]
    rfl
  have hold : ∀ {g}, y.fids g = true → g ≠ f ∧ x.fids g = true := by
    intro g hg
    rw [hfreed] at hg
    by_cases hgf : g = f
    · simp [hgf] at hg
    · exact ⟨hgf, by simpa [update_of_ne hgf] using hg⟩
  refine ⟨?_, hclunks ▸ hx.nodup, fun hg => hx.range (hold hg).2, fun {g} hg => ?_,
    fun {k g} hk => ?_, by rw [hsent]; exact hx.fresh⟩
  · refine hx.owned.release (n := .inl n) hn (by simp [hfreed])
      (fun g hg => by simp [hfreed, update_of_ne hg]) hn' fun k hk => ?_
    cases k with
    | inl k => exact (hother k fun h => hk (by rw [h])).1
    | inr g => simp only [fidNames, hclunks]
  · rw [hsent] at hg
    have hgf : g ≠ f := by
      rintro rfl
      rw [hunbound] at hg
      cases hg
    rw [hfreed, update_of_ne hgf]
    exact hx.known hg
  · obtain ⟨hold, hclunking⟩ := hother.old hn' hk
    rw [hsent, hclunking]
    exact hx.server hold

theorem FidsOwned.walk (hfree : x.fids f = false) (hrange : 0 < f ∧ f < nfid) {names : List Bytes}
    (hn : holds x n = none) (hfids : y.fids = update x.fids f true) (hclunks : y.clunks = x.clunks)
    (hsent : y.sent = .walk f names :: x.sent) (hn' : holds y n = some f)
    (hclunking : clunking y n = false) (hother : Others x y n) : FidsOwned y := by
  have hunbound : bound x.sent f = false := by
    by_contra hbound
    rw [hx.known (by simpa using hbound)] at hfree
    cases hfree
  have hbound : ∀ g, bound y.sent g = (f == g || bound x.sent g) := by
    intro g
    rw [hsent]
    rfl
  refine ⟨?_, hclunks ▸ hx.nodup, fun {g} hg => ?_, fun {g} hg => ?_, fun {k g} hk => ?_, ?_⟩
  · refine hx.owned.assign (n := .inl n) hn hfree (by simp [hfids])
      (fun g hg => by simp [hfids, update_of_ne hg]) hn' fun k hk => ?_
    cases k with
    | inl k => exact (hother k fun h => hk (by rw [h])).1
    | inr g => simp only [fidNames, hclunks]
  · by_cases hgf : g = f
    · exact hgf ▸ hrange
    · rw [hfids, update_of_ne hgf] at hg
      exact hx.range hg
  · rw [hfids]
    by_cases hgf : g = f
    · simp [hgf]
    · rw [update_of_ne hgf]
      rw [hbound] at hg
      exact hx.known (by simpa [Ne.symm hgf] using hg)
  · by_cases hkn : k = n
    · subst hkn
      rw [hn'] at hk
      cases hk
      simp [hbound, hclunking]
    obtain ⟨hsame, hclunking'⟩ := hother k hkn
    rw [hsame] at hk
    have hgf : g ≠ f := by
      rintro rfl
      exact hx.owned.not_named hfree (.inl k) hk
    rw [hbound, hclunking', ← hx.server hk]
    simp [Ne.symm hgf]
  · rw [hsent]
    simp [walksFresh, hunbound, hx.fresh]

/-- The fid of a holder is clunked, and nobody else's. -/
theorem FidsOwned.clunk (howned : Owned True y.fids (fidNames y)) (hfids : y.fids = x.fids)
    (hnodup : y.clunks.Nodup) (hsent : y.sent = .clunk f :: x.sent) (hn : holds y n = some f)
    (hclunking : clunking y n = true) (hother : Others x y n) : FidsOwned y := by
  have hbound : ∀ g, bound y.sent g = (f != g && bound x.sent g) := by
    intro g
    rw [hsent]
    rfl
  refine ⟨howned, hnodup, fun hg => hx.range (hfids ▸ hg), fun {g} hg => ?_, fun {k g} hk => ?_, by
    rw [hsent]; exact hx.fresh⟩
  · rw [hbound, and_eq_true] at hg
    rw [hfids]
    exact hx.known hg.2
  by_cases hkn : k = n
  · subst hkn
    rw [hn] at hk
    cases hk
    simp [hbound, hclunking]
  obtain ⟨hsame, hclunking'⟩ := hother k hkn
  have hgf : g ≠ f := by
    rintro rfl
    exact hkn (Sum.inl.inj (howned.inj hk hn))
  rw [hsame] at hk
  rw [hbound, hclunking', ← hx.server hk]
  simp [Ne.symm hgf]

theorem FidsOwned.dequeue {rest : List Nat} (hclunks : x.clunks = f :: rest)
    (hfids : y.fids = x.fids) (hrest : y.clunks = rest) (hsent : y.sent = .clunk f :: x.sent)
    (hn : holds x n = none) (hn' : holds y n = some f) (hclunking : clunking y n = true)
    (hother : Others x y n) : FidsOwned y := by
  have hnodup : f ∉ rest ∧ rest.Nodup := by simpa [hclunks] using hx.nodup
  refine hx.clunk ?_ hfids (hrest ▸ hnodup.2) hsent hn' hclunking hother
  refine hx.owned.transfer (n := .inr f) (m := .inl n) (if_pos (by simp [hclunks])) hn
    (fun _ => by rw [hfids]) (if_neg (hrest ▸ hnodup.1)) hn' fun k hkf hkn => ?_
  cases k with
  | inl k => exact (hother k fun h => hkn (by rw [h])).1
  | inr g =>
    have hg : g ≠ f := fun h => hkf (by rw [h])
    simp [fidNames, hrest, hclunks, hg]

theorem FidsOwned.move (hn : holds x n = if f = 0 then none else some f)
    (hm : holds x m = none) (hfids : y.fids = x.fids) (hclunks : y.clunks = x.clunks)
    (hsent : y.sent = x.sent) (hn' : holds y n = none)
    (hm' : holds y m = if f = 0 then none else some f) (hclunking : clunking y m = clunking x n)
    (hother : ∀ k, k ≠ n → k ≠ m → holds y k = holds x k ∧ clunking y k = clunking x k) :
    FidsOwned y := by
  by_cases hf : f = 0
  · rw [if_pos hf] at hm'
    refine hx.shrink hfids hclunks (fun _ => by rw [hsent]) (by rw [hsent]) fun k => ?_
    by_cases hkn : k = n
    · exact .inl (hkn ▸ hn')
    · by_cases hkm : k = m
      · exact .inl (hkm ▸ hm')
      · exact .inr (hother k hkn hkm)
  rw [if_neg hf] at hn hm'
  refine ⟨?_, hclunks ▸ hx.nodup, fun hg => hx.range (hfids ▸ hg), fun hg => ?_, fun {k g} hk => ?_,
    by rw [hsent]; exact hx.fresh⟩
  · refine hx.owned.transfer (n := .inl n) (m := .inl m) hn hm (fun _ => by rw [hfids]) hn' hm'
      fun k hkn hkm => ?_
    cases k with
    | inl k => exact (hother k (fun h => hkn (by rw [h])) fun h => hkm (by rw [h])).1
    | inr g => simp only [fidNames, hclunks]
  · rw [hsent] at hg
    rw [hfids]
    exact hx.known hg
  rw [hsent]
  by_cases hkm : k = m
  · subst hkm
    rw [hm'] at hk
    cases hk
    rw [hclunking]
    exact hx.server hn
  have hkn : k ≠ n := by
    rintro rfl
    rw [hn'] at hk
    cases hk
  obtain ⟨hsame, hclunking'⟩ := hother k hkn hkm
  rw [hsame] at hk
  rw [hclunking']
  exact hx.server hk

end

end Session

/-! ## The state between two passes -/

/-- What the pool entry of an open in progress has, and that nothing is left of a connection that is
down. -/
structure FidState (x : Client C) : Prop where
  pending : ∀ {ri}, (x.reqs ri).Opening → (x.reqs ri).state ≠ .done →
    (x.opens (x.reqs ri).oi).fid = 0 ∧ (x.opens (x.reqs ri).oi).stale = false
  ready : ∀ {ri}, (x.reqs ri).Opening → (x.reqs ri).state = .done →
    (x.opens (x.reqs ri).oi).fid = (x.reqs ri).fid
  down : x.conn ≠ .up → ∀ oi, (x.opens oi).heldFid = none
  session : x.conn.inSession = true → FidsOwned x

section Steps

variable {lost : Prop} {descs : Fin C.nofd → Option (Fin nopen)} {x y : Client C} {ri : Fin nreq}
  {r : NetReq C.nslot}

/-- A request that is opening was opening the same entry, with the same fid if it is done. -/
def OpensAs (r0 r : NetReq C.nslot) : Prop :=
  r.Opening → r0.Opening ∧ r.oi = r0.oi ∧ (r.state = .done ↔ r0.state = .done) ∧
    (r.state = .done → r.fid = r0.fid)

theorem OpensAs.refl (r : NetReq C.nslot) : OpensAs r r := fun h => ⟨h, rfl, Iff.rfl, fun _ => rfl⟩

theorem FidState.entries (hx : FidState x) (hfid : ∀ oi, (y.opens oi).fid = (x.opens oi).fid)
    (hstale : ∀ oi, (y.opens oi).stale = (x.opens oi).stale)
    (hreq : ∀ ri, OpensAs (x.reqs ri) (y.reqs ri))
    (hdown : y.conn ≠ .up → ∀ oi, (y.opens oi).heldFid = none)
    (hsession : y.conn.inSession = true → FidsOwned y) : FidState y where
  pending {ri} hopening hpending := by
    obtain ⟨hopening', hoi, hdone, -⟩ := hreq ri hopening
    rw [hoi, hfid, hstale]
    exact hx.pending hopening' (mt hdone.mpr hpending)
  ready {ri} hopening hdone := by
    obtain ⟨hopening', hoi, hiff, hsame⟩ := hreq ri hopening
    rw [hoi, hfid, hsame hdone]
    exact hx.ready hopening' (hiff.mp hdone)
  down := hdown
  session := hsession

theorem holds_same (h : Same x y) (n : Fin nopen ⊕ Fin nreq) : holds y n = holds x n := by
  cases n with
  | inl oi =>
    simp only [holds, NetOpen.heldFid]
    rw [h.used, h.stale, h.fid]
  | inr ri => exact (h.req ri).heldFid

theorem heldFid_same (h : Same x y) (oi : Fin nopen) :
    (y.opens oi).heldFid = (x.opens oi).heldFid := holds_same h (.inl oi)

theorem FidsOwned.same (hx : FidsOwned x) (h : Same x y) : FidsOwned y := by
  refine hx.shrink h.fids h.clunks h.bound h.fresh fun n => ?_
  cases n with
  | inl oi => exact .inr ⟨holds_same h _, rfl⟩
  | inr ri =>
    by_cases hfree : (x.reqs ri).state = .free
    · refine .inl (heldFid_of_not_inflight ?_)
      rw [(h.req ri).state, hfree]
      simp
    · exact .inr ⟨holds_same h _, (h.req ri).clunkStep hfree⟩

theorem FidState.same {z : Client C} (hx : FidState x) (h : Same z y) (hopens : z.opens = x.opens)
    (hreqs : z.reqs = x.reqs) (hdown : y.conn ≠ .up → x.conn ≠ .up)
    (hsession : y.conn.inSession = true → FidsOwned z) : FidState y := by
  refine hx.entries (fun oi => by rw [h.fid, hopens]) (fun oi => by rw [h.stale, hopens])
    (fun ri hopening => ?_) (fun hup oi => ?_) fun hs => (hsession hs).same h
  · have hreq : SameReq (x.reqs ri) (y.reqs ri) := hreqs ▸ h.req ri
    have hused : (x.reqs ri).state ≠ .free := (hreq.opening.mp hopening).used
    exact ⟨hreq.opening.mp hopening, hreq.oi hused, by rw [hreq.state], fun _ => hreq.fid hused⟩
  · rw [heldFid_same h, hopens]
    exact hx.down (hdown hup) oi

variable {oi : Fin nopen}

theorem kept_of_open (h : y.opens oi = x.opens oi) :
    holds y (.inl oi) = holds x (.inl oi) ∧ clunking y (.inl oi) = clunking x (.inl oi) :=
  ⟨by simp only [holds, h], rfl⟩

theorem kept_of_req (h : y.reqs ri = x.reqs ri) :
    holds y (.inr ri) = holds x (.inr ri) ∧ clunking y (.inr ri) = clunking x (.inr ri) :=
  ⟨by simp only [holds, h], by simp only [clunking, h]⟩

theorem others_of_update (hopens : ∀ oi, (y.opens oi).heldFid = (x.opens oi).heldFid)
    (hreqs : y.reqs = update x.reqs ri r) : Others x y (.inr ri) := by
  intro k hk
  cases k with
  | inl oi => exact ⟨hopens oi, rfl⟩
  | inr rj =>
    have hrj : rj ≠ ri := fun h => hk (by rw [h])
    exact kept_of_req (by rw [hreqs, update_of_ne hrj])

theorem holds_of_update (hreqs : y.reqs = update x.reqs ri r) : holds y (.inr ri) = r.heldFid := by
  simp only [holds, hreqs, update_self]

theorem clunking_of_update (hreqs : y.reqs = update x.reqs ri r) :
    clunking y (.inr ri) = r.clunkStep := by
  simp only [clunking, hreqs, update_self]

theorem FidsOwned.updated (hx : FidsOwned x) (hfids : y.fids = x.fids)
    (hclunks : y.clunks = x.clunks)
    (hsent : y.sent = x.sent) (hopens : ∀ oi, (y.opens oi).heldFid = (x.opens oi).heldFid)
    (hreqs : y.reqs = update x.reqs ri r)
    (hr : r.heldFid = none ∨
      (r.heldFid = (x.reqs ri).heldFid ∧ r.clunkStep = (x.reqs ri).clunkStep)) :
    FidsOwned y := by
  refine hx.shrink hfids hclunks (fun _ => by rw [hsent]) (by rw [hsent]) fun k => ?_
  by_cases hk : k = .inr ri
  · subst hk
    rw [holds_of_update hreqs, clunking_of_update hreqs]
    exact hr
  · exact .inr (others_of_update hopens hreqs k hk)

theorem FidState.updated (hx : FidState x) (hfid : ∀ oi, (y.opens oi).fid = (x.opens oi).fid)
    (hstale : ∀ oi, (y.opens oi).stale = (x.opens oi).stale) (hreqs : y.reqs = update x.reqs ri r)
    (hr : OpensAs (x.reqs ri) r) (hdown : y.conn ≠ .up → ∀ oi, (y.opens oi).heldFid = none)
    (hsession : y.conn.inSession = true → FidsOwned y) : FidState y := by
  refine hx.entries hfid hstale (fun rj => ?_) hdown hsession
  rw [hreqs]
  by_cases h : rj = ri
  · subst h
    rwa [update_self]
  · rw [update_of_ne h]
    exact .refl _

def rest (x : Client C) := (x.fids, x.clunks, x.sent, x.opens, x.conn)

theorem FidState.request (hx : FidState x) (hrest : rest y = rest x)
    (hreqs : y.reqs = update x.reqs ri r) (hr : OpensAs (x.reqs ri) r)
    (hheld : r.heldFid = none ∨
      (r.heldFid = (x.reqs ri).heldFid ∧ r.clunkStep = (x.reqs ri).clunkStep)) : FidState y := by
  simp only [rest, Prod.mk.injEq] at hrest
  obtain ⟨hfids, hclunks, hsent, hopens, hconn⟩ := hrest
  refine hx.updated (fun _ => by rw [hopens]) (fun _ => by rw [hopens]) hreqs hr
    (by rw [hconn, hopens]; exact hx.down) fun hs => ?_
  exact (hx.session (hconn ▸ hs)).updated hfids hclunks hsent (fun _ => by rw [hopens]) hreqs hheld

theorem FidState.unchanged (hx : FidState x) (hrest : rest y = rest x) (hreqs : y.reqs = x.reqs) :
    FidState y := by
  have hupdate : y.reqs = update x.reqs 0 (x.reqs 0) := by rw [hreqs, update_eq_self]
  exact hx.request hrest hupdate (.refl _) (.inr ⟨rfl, rfl⟩)

theorem release_fid (x : Client C) (ri : Fin nreq) (oi : Fin nopen) :
    ((x.release ri).opens oi).fid = (x.opens oi).fid := by
  rw [release_eq]
  dsimp only
  split
  · by_cases h : oi = (x.reqs ri).oi
    · rw [h, update_self]
    · rw [update_of_ne h]
  · rfl

theorem release_heldFid (h : (x.reqs ri).op = .openFile → (x.opens (x.reqs ri).oi).fid = 0)
    (oi : Fin nopen) : ((x.release ri).opens oi).heldFid = (x.opens oi).heldFid := by
  rw [release_eq]
  dsimp only
  split
  · rename_i hop
    by_cases hoi : oi = (x.reqs ri).oi
    · rw [hoi, update_self, heldFid_of_unused rfl, heldFid_of_zero (h hop)]
    · rw [update_of_ne hoi]
  · rfl

theorem release_heldFid_or (x : Client C) (ri : Fin nreq) (oi : Fin nopen) :
    ((x.release ri).opens oi).heldFid = none ∨
      ((x.release ri).opens oi).heldFid = (x.opens oi).heldFid := by
  rw [release_eq]
  dsimp only
  split
  · by_cases hoi : oi = (x.reqs ri).oi
    · rw [hoi, update_self]
      exact .inl (heldFid_of_unused rfl)
    · rw [update_of_ne hoi]
      exact .inr rfl
  · exact .inr rfl

theorem Slots.oi_ne {rj : Fin nreq} (hx : Slots lost descs x) (hi : (x.reqs ri).Opening)
    (hj : (x.reqs rj).Opening) (hne : rj ≠ ri) : (x.reqs rj).oi ≠ (x.reqs ri).oi := by
  intro hoi
  have hname : names descs x (.inr rj) = some (x.reqs ri).oi := by
    rw [names_inr_of_opening hj, hoi]
  exact hne (Sum.inr.inj (hx.owned.inj hname (names_inr_of_opening hi)))

variable {v : Option (SlotRef C.nslot)} {F : Faults}

/-- The next message of a request that has not clunked its fid yet. -/
theorem FidsOwned.advance {step : Nat} {m : TMsg} (hx : FidsOwned x)
    (hflight : (x.reqs ri).state = .inflight) (hlast : (x.reqs ri).clunkStep = false)
    (hm : if ({ x.reqs ri with step := step } : NetReq C.nslot).clunkStep = true then
      m = .clunk (x.reqs ri).fid else m.binds = false) :
        FidsOwned ((x.setStep ri step).post m) := by
  have hreqs : ((x.setStep ri step).post m).reqs =
      update x.reqs ri { x.reqs ri with step := step } := rfl
  have hother : Others x ((x.setStep ri step).post m) (.inr ri) :=
    others_of_update (fun _ => rfl) hreqs
  have hsame : holds ((x.setStep ri step).post m) (.inr ri) = holds x (.inr ri) :=
    (holds_of_update hreqs).trans rfl
  have hall : ∀ n, holds ((x.setStep ri step).post m) n = holds x n := by
    intro n
    by_cases hn : n = .inr ri
    · rw [hn, hsame]
    · exact (hother n hn).1
  split at hm
  · rename_i hclunk
    have hclunking : clunking ((x.setStep ri step).post m) (.inr ri) = true :=
      (clunking_of_update hreqs).trans hclunk
    subst hm
    by_cases hfid : (x.reqs ri).fid = 0
    · -- fid 0 is nobody's, so that clunking it changes nothing
      refine hx.shrink rfl rfl (fun g => ?_) rfl fun n => ?_
      · have hroot : bound x.sent 0 = false := by
          by_contra hbound
          exact absurd (hx.range (hx.known (by simpa using hbound))).1 (by simp)
        by_cases hg : g = 0
        · subst hg
          simp [post, setStep, updReq, bound, hroot]
        · simp [post, setStep, updReq, bound, hfid, Ne.symm hg]
      · by_cases hn : n = .inr ri
        · refine .inl ?_
          rw [hn, hsame]
          exact (heldFid_of_inflight hflight).trans (if_pos hfid)
        · exact .inr (hother n hn)
    · refine hx.clunk (hx.owned.congr (fun _ => rfl) fun n => ?_) rfl hx.nodup rfl ?_
        hclunking hother
      · cases n with
        | inl n => exact hall n
        | inr f => rfl
      · rw [hsame]
        exact (heldFid_of_inflight hflight).trans (if_neg hfid)
  · rename_i hclunk
    have hclunking : clunking ((x.setStep ri step).post m) (.inr ri) = clunking x (.inr ri) := by
      rw [clunking_of_update hreqs]
      exact (eq_false_of_not_eq_true hclunk).trans hlast.symm
    refine hx.shrink rfl rfl (bound_cons_of_not_binds hm _) (walksFresh_cons_of_not_binds hm _)
      fun n => .inr ⟨hall n, ?_⟩
    by_cases hn : n = .inr ri
    · rw [hn, hclunking]
    · exact (hother n hn).2

/-- The request in flight ends and gives back what it has. -/
theorem FidState.release (hx : FidState x) (hflight : (x.reqs ri).state = .inflight)
    (hup : x.conn = .up) (hroom : x.clunks.length + 1 ≠ nclunk)
    (hreqs : y.reqs = update x.reqs ri r)
    (hopening : ¬r.Opening) (hr : r.state ≠ .inflight) (hopens : y.opens = (x.release ri).opens)
    (hfids : y.fids = (x.release ri).fids) (hclunks : y.clunks = (x.release ri).clunks)
    (hsent : y.sent = x.sent) (hconn : y.conn = x.conn) : FidState y := by
  have hzero : (x.reqs ri).op = .openFile → (x.opens (x.reqs ri).oi).fid = 0 := fun hop =>
    (hx.pending ⟨hop, .inr (.inl hflight)⟩ (by simp [hflight])).1
  refine hx.updated (fun oi => by rw [hopens, release_fid])
    (fun oi => by rw [hopens, release_stale]) hreqs
    (fun h => absurd h hopening) (fun hne => absurd (hconn.trans hup) hne) fun _ => ?_
  rw [release_eq] at hfids hclunks
  refine (hx.session (by simp [hup, Conn.inSession])).enqueue (n := .inr ri) hroom
    (heldFid_of_inflight hflight) hfids hclunks hsent
    ((holds_of_update hreqs).trans (heldFid_of_not_inflight hr))
      (others_of_update (fun oi => ?_) hreqs)
  rw [hopens]
  exact release_heldFid hzero oi

theorem FidState.opened {o : NetOpen} {e : Int} (hx : FidState x) (hslots : Slots lost descs x)
    (hflight : (x.reqs ri).state = .inflight) (hup : x.conn = .up)
    (hop : (x.reqs ri).op = .openFile)
    (hused : o.used = true) (hstale : o.stale = false) (hfid : o.fid = (x.reqs ri).fid) :
    FidState ((x.updOpen (x.reqs ri).oi fun _ => o).complete ri e) := by
  have hri : (x.reqs ri).Opening := ⟨hop, .inr (.inl hflight)⟩
  have hnext : ∀ {rj}, rj ≠ ri → ((x.updOpen (x.reqs ri).oi fun _ => o).complete ri e).reqs rj =
      x.reqs rj := fun h => update_of_ne h _ _
  have hopens : ∀ {oi}, oi ≠ (x.reqs ri).oi →
      ((x.updOpen (x.reqs ri).oi fun _ => o).complete ri e).opens oi = x.opens oi := fun h =>
    update_of_ne h _ _
  have hentry : ((x.updOpen (x.reqs ri).oi fun _ => o).complete ri e).opens (x.reqs ri).oi = o :=
    update_self ..
  have hdone : ((x.updOpen (x.reqs ri).oi fun _ => o).complete ri e).reqs ri =
      { x.reqs ri with result := e, state := .done } := update_self ..
  refine ⟨fun {rj} hopening hpending => ?_, fun {rj} hopening hready => ?_,
    fun hne => absurd hup hne, fun _ => ?_⟩
  · have hne : rj ≠ ri := by
      rintro rfl
      exact hpending (by rw [hdone])
    rw [hnext hne] at hopening hpending ⊢
    rw [hopens (hslots.oi_ne hri hopening hne)]
    exact hx.pending hopening hpending
  · by_cases hne : rj = ri
    · subst hne
      rw [hdone]
      exact (congrArg NetOpen.fid hentry).trans hfid
    · rw [hnext hne] at hopening hready ⊢
      rw [hopens (hslots.oi_ne hri hopening hne)]
      exact hx.ready hopening hready
  refine (hx.session (by simp [hup, Conn.inSession])).move (n := .inr ri) (m := .inl (x.reqs ri).oi)
    (heldFid_of_inflight hflight) (heldFid_of_zero (hx.pending hri (by simp [hflight])).1)
    rfl rfl rfl
    ?_ ?_ ?_ fun k hkn hkm => ?_
  · exact heldFid_of_not_inflight (by rw [hdone]; simp)
  · change NetOpen.heldFid _ = _
    rw [hentry, heldFid_of_current hused hstale, hfid]
  · simp [clunking, NetReq.clunkStep, hop]
  cases k with
  | inl oi =>
    have hoi : oi ≠ (x.reqs ri).oi := fun h => hkm (by rw [h])
    exact kept_of_open (hopens hoi)
  | inr rj =>
    have hrj : rj ≠ ri := fun h => hkn (by rw [h])
    exact kept_of_req (hnext hrj)

theorem Act.fidState (h : Act v F x y) (hsound : Sound x) (hcode : ¬F.code)
    (hleftover : ¬F.leftover) (hfull : ¬F.full)
    (hslots : Slots lost descs x) (hx : FidState x) : FidState y := by
  have hup : ∀ {ri : Fin nreq}, x.inflight = some ri → x.conn = .up := hsound.up_of_inflight
  have hown : ∀ {ri : Fin nreq}, x.inflight = some ri → FidsOwned x := fun hin =>
    hx.session (by simp [hup hin, Conn.inSession])
  have hflight : ∀ {ri : Fin nreq}, x.inflight = some ri → (x.reqs ri).state = .inflight :=
    hsound.state_of_inflight
  have hholds : ∀ {ri : Fin nreq}, x.inflight = some ri →
      holds x (.inr ri) = if (x.reqs ri).fid = 0 then none else some (x.reqs ri).fid := fun hin =>
    heldFid_of_inflight (hflight hin)
  cases h with
  | quiet h hconn =>
    exact hx.same h rfl rfl (fun hne => hconn ▸ hne) fun hs => hx.session (hconn ▸ hs)
  | phase h hne hsession =>
    exact hx.same h rfl rfl (fun _ => hne) fun hs => hx.session (hsession hs)
  | session hdown hclean h _ =>
    have hne : x.conn ≠ .up := fun hconn => by simp [hconn, Conn.inSession] at hdown
    have hclunks : x.clunks = [] := hclean.resolve_right hleftover
    -- the new connection starts with nothing
    have hnone : ∀ n, fidNames { x with fids := fun _ => false, sent := [] } n = none := by
      intro n
      rcases n with (oi | ri) | f
      · exact hx.down hne oi
      · refine heldFid_of_not_inflight fun hs => ?_
        rw [(hsound.flight ri).mp hs] at hup
        exact hne (hup rfl)
      · simp [fidNames, hclunks]
    refine hx.same h rfl rfl (fun _ => hne) fun _ => ?_
    refine ⟨⟨fun {n _ _} hn => ?_, fun {n _} hn => ?_, fun _ => .inr trivial⟩, by simp [hclunks],
      fun hf => by simp at hf, fun hf => by simp [bound] at hf, fun {n f} hn => ?_, rfl⟩
    · rw [hnone n] at hn
      cases hn
    · rw [hnone n] at hn
      cases hn
    · rw [show holds _ n = none from hnone (.inl n)] at hn
      cases hn
  | copy | stage => exact hx.unchanged rfl rfl
  | seek => exact hx.request rfl rfl (.refl _) (.inr ⟨rfl, rfl⟩)
  | @advance ri step m hin hop hlast hm =>
    refine hx.updated (fun _ => rfl) (fun _ => rfl) rfl (.refl _)
      hx.down fun _ => (hown hin).advance (hflight hin) hlast hm
  | @abandon ri hin _ _ hroom =>
    rw [abandon_eq]
    exact hx.release (hflight hin) (hup hin)
      (hroom.resolve_right hfull) rfl (not_opening_of_free rfl)
      (by simp) rfl rfl rfl (by rw [release_eq]) (by rw [release_eq])
  | @fail ri e hin hop _ he hroom =>
    have he := he.resolve_right hcode
    rw [fail_eq hop]
    refine hx.release (hflight hin) (hup hin)
      (hroom.resolve_right hfull) rfl ?_ (by simp) rfl rfl rfl
      (by rw [release_eq]) (by rw [release_eq])
    rintro ⟨-, h | h | h⟩
    · cases h
    · cases h
    · exact absurd h.2 (not_le.mpr he)
  | @opened ri o hin hop _ hused hstale hfid =>
    exact hx.opened hslots (hflight hin) (hup hin) hop hused hstale hfid
  | @finish ri e hin hop =>
    have hop' : (x.reqs ri).op ≠ .openFile := by rcases hop with h | h <;> simp [h]
    exact hx.request rfl rfl (fun h => absurd h.1 hop') (.inl (heldFid_of_not_inflight (by simp)))
  | @clunked ri hin hop hstep =>
    have hop' : (x.reqs ri).op ≠ .openFile := by rcases hop with h | h <;> simp [h]
    obtain ⟨fids, hfids⟩ := fidFree_eq x (x.reqs ri).fid
    have hfree : fids = (x.fidFree (x.reqs ri).fid).fids := by rw [hfids]
    rw [clunked_eq, hfids]
    refine hx.updated (fun _ => rfl)
      (fun _ => rfl) rfl (fun h => absurd h.1 hop') hx.down fun _ => ?_
    exact (hown hin).free (n := .inr ri) hstep (hholds hin) hfree rfl rfl
      ((holds_of_update rfl).trans (heldFid_of_not_inflight (by simp)))
      (others_of_update (fun _ => rfl) rfl)
  | @clunkDone ri hin hop =>
    obtain ⟨fids, hfids⟩ := fidFree_eq x (x.reqs ri).fid
    have hfree : fids = (x.fidFree (x.reqs ri).fid).fids := by rw [hfids]
    have hstep : (x.reqs ri).clunkStep = true := by simp [NetReq.clunkStep, hop]
    rw [hfids]
    refine hx.updated (fun _ => rfl)
      (fun _ => rfl) rfl (fun h => absurd rfl h.used) hx.down fun _ => ?_
    exact (hown hin).free (n := .inr ri) hstep (hholds hin) hfree rfl rfl
      ((holds_of_update rfl).trans (heldFid_of_not_inflight (by simp)))
      (others_of_update (fun _ => rfl) rfl)

theorem fidFirst_spec {f : Nat} (h : x.fidFirst = some f) :
    0 < f ∧ f < nfid ∧ x.fids f = false := by
  have hfound := List.find?_some h
  have hmem := mem_range.mp (mem_of_find?_eq_some h)
  simp only [and_eq_true, decide_eq_true_eq, not_eq_true'] at hfound
  exact ⟨hfound.1, hmem, hfound.2⟩

theorem Launch.fidState (h : Launch v x y) (hsound : Sound x) (hx : FidState x) : FidState y := by
  have hown : x.conn = .up → FidsOwned x := fun hup => hx.session (by simp [hup, Conn.inSession])
  cases h with
  | @walk ri f names hup hidle hqueued hop _ _ hfid =>
    obtain ⟨hpos, hlt, hfree⟩ := fidFirst_spec hfid
    have hreqs := launched_reqs x ri f names
    have hstep : (x.reqs ri).clunkStep = false := by
      have h0 := ((hsound.req ri).queued hqueued).1
      rcases hop with h | h | h <;> simp [NetReq.clunkStep, h, h0]
    refine hx.updated (fun _ => rfl) (fun _ => rfl) hreqs
      (fun h => ⟨⟨h.1, .inl hqueued⟩, rfl, by simp [hqueued], by simp⟩) hx.down fun _ => ?_
    exact (hown hup).walk (n := .inr ri) hfree ⟨hpos, hlt⟩
      (heldFid_of_not_inflight (by simp [hqueued])) rfl rfl rfl
      ((holds_of_update hreqs).trans ((heldFid_of_inflight rfl).trans (if_neg (by simp; omega))))
      ((clunking_of_update hreqs).trans hstep) (others_of_update (fun _ => rfl) hreqs)
  | @io ri hup hidle hqueued hop =>
    have hop' : (x.reqs ri).op ≠ .openFile := by rcases hop with h | h <;> simp [h]
    have hzero : (x.reqs ri).fid = 0 := ((hsound.req ri).queued hqueued).2
    exact hx.request rfl rfl (fun h => absurd h.1 hop')
      (.inl ((heldFid_of_inflight rfl).trans (if_pos hzero)))
  | @refuse ri e hidle hqueued he =>
    refine hx.request rfl rfl (fun h => ?_) (.inl (heldFid_of_not_inflight (by simp)))
    rcases h.2 with h | h | h
    · cases h
    · cases h
    · exact absurd h.2 (not_le.mpr he)
  | @clunk ri f rest hup hidle hfree hclunks =>
    have hf : f ≠ 0 := (hown hup).ne_zero_of_clunks (by simp [hclunks])
    refine hx.updated (fun _ => rfl) (fun _ => rfl) rfl (fun h => absurd h.1 (by simp)) hx.down
      fun _ => ?_
    exact (hown hup).dequeue (n := .inr ri) hclunks rfl rfl rfl
      (heldFid_of_not_inflight (by simp [hfree]))
      ((holds_of_update rfl).trans ((heldFid_of_inflight rfl).trans (if_neg hf)))
      ((clunking_of_update rfl).trans rfl) (others_of_update (fun _ => rfl) rfl)

theorem FidState.connDrop (hx : FidState x) : FidState x.connDrop := by
  have hfid : ∀ oi, (x.connDrop.opens oi).fid = (x.opens oi).fid := by
    intro oi
    simp only [Client.connDrop]
    split <;> rfl
  -- what was pending has failed
  have hreq : ∀ {ri}, (x.connDrop.reqs ri).Opening →
      x.connDrop.reqs ri = x.reqs ri ∧ (x.reqs ri).state = .done := by
    intro ri hopening
    rcases connDrop_req x ri with ⟨h, hpending⟩ | ⟨-, h⟩
    · rw [h] at hopening
      rcases hopening.2 with hs | hs | hs
      · exact absurd (.inl hs) hpending
      · exact absurd (.inr hs) hpending
      · exact ⟨h, hs.1⟩
    · exact absurd hopening h
  refine ⟨fun hopening hpending => ?_, fun hopening hdone => ?_, fun _ oi => ?_, fun h => ?_⟩
  · obtain ⟨hsame, hdone⟩ := hreq hopening
    exact absurd (hsame ▸ hdone) hpending
  · obtain ⟨hsame, hdone⟩ := hreq hopening
    rw [hsame, hfid]
    exact hx.ready (hsame ▸ hopening) hdone
  · by_cases hused : (x.opens oi).used = true
    · exact heldFid_of_stale (by simp [Client.connDrop, hused])
    · exact heldFid_of_unused (by simp [Client.connDrop, hused])
  · simp [Client.connDrop, Conn.inSession] at h

theorem Passed.fidState (h : Passed v F x y) (hsound : Sound x) (hcode : ¬F.code)
    (hleftover : ¬F.leftover) (hfull : ¬F.full) (hslots : Slots True descs x) (hx : FidState x) :
    FidState y := by
  have hall := h.invariant (P := fun y => Slots True descs y ∧ FidState y) hsound ⟨hslots, hx⟩
    (fun hy hP hact => ⟨hact.slots hy hcode hP.1, hact.fidState hy hcode hleftover hfull hP.1 hP.2⟩)
    (fun hy hP hlaunch => ⟨hlaunch.slots (.inr trivial) hP.1, hlaunch.fidState hy hP.2⟩)
    fun _ _ hP => ⟨hP.1.connDrop (.inr trivial), hP.2.connDrop⟩
  exact hall.2

theorem close_fids (hused : (x.opens oi).used = true) :
    ∃ z : Client C, z = (if (x.opens oi).stale = false ∧ 0 < (x.opens oi).fid then
        x.clunkEnqueue (x.opens oi).fid else x.fidFree (x.opens oi).fid) ∧
      (x.close oi).fids = z.fids ∧ (x.close oi).clunks = z.clunks := by
  refine ⟨_, rfl, ?_⟩
  rw [close, if_pos hused]
  exact ⟨rfl, rfl⟩

theorem fidFree_of_free {f : Nat} (h : x.fids f = false) : x.fidFree f = x := by
  unfold fidFree
  split
  · rw [← h, Function.update_eq_self]
  · rfl

theorem FidState.close (hx : FidState x) (hroom : x.clunks.length + 1 ≠ nclunk)
    (hfresh : x.conn.inSession = true →
      (x.opens oi).stale = true → x.fids (x.opens oi).fid = false) :
    FidState (x.close oi) := by
  by_cases hused : (x.opens oi).used = true
  · obtain ⟨fids, clunks, opens, hclose⟩ := close_eq x oi
    obtain ⟨z, hz, hfids, hclunks⟩ := close_fids hused
    have hopens := World.close_opens hused
    have hentry : ∀ {oj}, oj ≠ oi → (x.close oi).opens oj = x.opens oj := by
      intro oj hoj
      rw [hopens, update_of_ne hoj]
    have hgone : ((x.close oi).opens oi).heldFid = none := by
      rw [hopens, update_self]
      exact heldFid_of_unused rfl
    have hreqs : (x.close oi).reqs = x.reqs := by rw [hclose]
    have hconn : (x.close oi).conn = x.conn := by rw [hclose]
    have hsent : (x.close oi).sent = x.sent := by rw [hclose]
    have hother : Others x (x.close oi) (.inl oi) := by
      intro k hk
      cases k with
      | inl oj =>
        have hoj : oj ≠ oi := fun h => hk (by rw [h])
        exact kept_of_open (hentry hoj)
      | inr ri => exact kept_of_req (by rw [hreqs])
    refine hx.entries (fun oj => ?_) (fun oj => ?_) (fun ri h => ?_) (fun hne oj => ?_) fun hs => ?_
    · by_cases hoj : oj = oi
      · rw [hoj, hopens, update_self]
      · rw [hentry hoj]
    · by_cases hoj : oj = oi
      · rw [hoj, hopens, update_self]
      · rw [hentry hoj]
    · rw [hreqs] at h ⊢
      exact ⟨h, rfl, Iff.rfl, fun _ => rfl⟩
    · by_cases hoj : oj = oi
      · rw [hoj, hgone]
      · rw [hentry hoj]
        exact hx.down (hconn ▸ hne) oj
    rw [hconn] at hs
    by_cases hstale : (x.opens oi).stale = true
    · -- an entry of an earlier connection: its fid is not in use on this one
      rw [if_neg (by simp [hstale]), fidFree_of_free (hfresh hs hstale)] at hz
      subst hz
      exact (hx.session hs).lose (n := .inl oi) hfids hclunks hsent hgone hother
    have hstale : (x.opens oi).stale = false := by simpa using hstale
    have hqueue : z = x.clunkEnqueue (x.opens oi).fid := by
      rw [hz]
      split
      · rfl
      rename_i hnot
      have hzero : (x.opens oi).fid = 0 := by
        by_contra h
        exact hnot ⟨hstale, Nat.pos_of_ne_zero h⟩
      simp [hzero, clunkEnqueue, fidFree]
    subst hqueue
    exact (hx.session hs).enqueue (n := .inl oi) hroom (heldFid_of_current hused hstale) hfids
      hclunks hsent hgone hother
  · have hnothing : x.close oi = x := by simp [Client.close, hused]
    rw [hnothing]
    exact hx

end Steps

namespace World

section Moves

variable {F : Faults} {B : Breaches} {x y : World C}

theorem issueOpen_fidState (hslots : Slots True x.descs x.net) (hx : FidState x.net) (s : C.Slot)
    {ri : Fin nreq} {r : NetReq C.nslot} (hunused : (x.net.opens r.oi).used = false) :
    FidState ((x.issue s ri r).net.updOpen r.oi fun _ => { used := true }) := by
  obtain ⟨z, hz⟩ : ∃ z, z = (x.issue s ri r).net.updOpen r.oi fun _ => { used := true } := ⟨_, rfl⟩
  have hentry : z.opens r.oi = { used := true } := by
    rw [hz]
    exact update_self ..
  have hopens : ∀ {oi}, oi ≠ r.oi → z.opens oi = x.net.opens oi := by
    intro oi hoi
    rw [hz]
    exact update_of_ne hoi _ _
  have hreqs : z.reqs = update x.net.reqs ri { r with
      state := .queued, owner := some (x.ref s), seq := x.net.reqSeq, id := x.net.nextId } := by
    rw [hz]
    rfl
  have hheld : ∀ oi, (z.opens oi).heldFid = (x.net.opens oi).heldFid := by
    intro oi
    by_cases hoi : oi = r.oi
    · rw [hoi, hentry, heldFid_of_unused hunused]
      rfl
    · rw [hopens hoi]
  -- the entries of the other opens are in use, and so they are not the new one
  have hold : ∀ {rj}, rj ≠ ri → (z.reqs rj).Opening →
      z.reqs rj = x.net.reqs rj ∧ z.opens (z.reqs rj).oi = x.net.opens (x.net.reqs rj).oi := by
    intro rj hrj hopening
    have hsame : z.reqs rj = x.net.reqs rj := by rw [hreqs, update_of_ne hrj]
    rw [hsame] at hopening
    have hused : (x.net.opens (x.net.reqs rj).oi).used = true :=
      hslots.owned.live (names_inr_of_opening hopening)
    refine ⟨hsame, ?_⟩
    rw [hsame]
    refine hopens fun h => ?_
    rw [h, hunused] at hused
    cases hused
  have hnew : z.reqs ri = { r with
      state := .queued, owner := some (x.ref s), seq := x.net.reqSeq, id := x.net.nextId } := by
    rw [hreqs, update_self]
  rw [← hz]
  refine ⟨fun {rj} hopening hpending => ?_, fun {rj} hopening hdone => ?_, fun hne oi => ?_,
    fun hs => ?_⟩
  · by_cases hrj : rj = ri
    · subst hrj
      rw [hnew]
      exact ⟨congrArg NetOpen.fid hentry, congrArg NetOpen.stale hentry⟩
    · obtain ⟨hsame, hslot⟩ := hold hrj hopening
      rw [hslot]
      rw [hsame] at hopening hpending
      exact hx.pending hopening hpending
  · by_cases hrj : rj = ri
    · subst hrj
      rw [hnew] at hdone
      cases hdone
    · obtain ⟨hsame, hslot⟩ := hold hrj hopening
      rw [hslot, hsame]
      rw [hsame] at hopening hdone
      exact hx.ready hopening hdone
  · rw [hheld]
    rw [hz] at hne
    exact hx.down hne oi
  · rw [hz] at hs
    have hsession : FidsOwned x.net := hx.session hs
    exact hsession.updated (by rw [hz]; rfl) (by rw [hz]; rfl) (by rw [hz]; rfl) hheld hreqs
      (.inl (heldFid_of_not_inflight (by simp)))

theorem cancelled_fidState {ri : Fin nreq} (hsound : Sound x.net)
    (hslots : Slots True x.descs x.net) (hx : FidState x.net)
    (hused : (x.net.reqs ri).state ≠ .free) (hroom : x.net.clunks.length + 1 ≠ nclunk)
    (hfresh : x.FidCurrent ri) : FidState (x.cancelled ri).net := by
  by_cases hflight : (x.net.reqs ri).state = .inflight
  · rw [cancelled_inflight hflight]
    exact hx.request rfl rfl (.refl _) (.inr ⟨rfl, rfl⟩)
  obtain ⟨net, hnet⟩ : ∃ net, net = (x.cancelled ri).net := ⟨_, rfl⟩
  rw [← hnet]
  rw [cancelled_parked hflight] at hnet
  have hopens : net.opens = (x.net.release ri).opens := by rw [hnet, release_eq]
  have hreqs : net.reqs = update x.net.reqs ri
      { released { x.net.reqs ri with owner := none, ubuf := 0 } with state := .free } := by
    rw [hnet]
  have hfids : net.fids = (x.net.clunkEnqueue (x.net.reqs ri).fid).fids := by rw [hnet]
  have hclunks : net.clunks = (x.net.clunkEnqueue (x.net.reqs ri).fid).clunks := by rw [hnet]
  have hsent : net.sent = x.net.sent := by rw [hnet]
  have hconn : net.conn = x.net.conn := by rw [hnet]
  have hheld : ∀ oi, (net.opens oi).heldFid = none ∨
      (net.opens oi).heldFid = (x.net.opens oi).heldFid := by
    intro oi
    rw [hopens]
    exact release_heldFid_or x.net ri oi
  refine hx.updated (fun oi => by rw [hopens, release_fid])
    (fun oi => by rw [hopens, release_stale])
    hreqs (fun h => absurd rfl h.used) (fun hne oi => ?_) fun hs => ?_
  · exact (hheld oi).elim id fun h => h.trans (hx.down (hconn ▸ hne) oi)
  have hsession : FidsOwned x.net := hx.session (hconn ▸ hs)
  by_cases hfid : (x.net.reqs ri).fid = 0
  · have hnothing : x.net.clunkEnqueue (x.net.reqs ri).fid = x.net := by
      simp [clunkEnqueue, hfid]
    rw [hnothing] at hfids hclunks
    refine hsession.shrink hfids hclunks (fun _ => by rw [hsent]) (by rw [hsent]) fun n => ?_
    cases n with
    | inl oi => exact (hheld oi).imp_right fun h => ⟨h, rfl⟩
    | inr rj =>
      by_cases hrj : rj = ri
      · subst hrj
        exact .inl ((holds_of_update hreqs).trans (heldFid_of_not_inflight (by simp)))
      · exact .inr (kept_of_req (by rw [hreqs, update_of_ne hrj]))
  · -- the fid of an open that succeeded goes from its pool entry to the queue
    have hdone : (x.net.reqs ri).state = .done := by
      cases hstate : (x.net.reqs ri).state with
      | free => exact absurd hstate hused
      | queued => exact absurd ((hsound.req ri).queued hstate).2 hfid
      | inflight => exact absurd hstate hflight
      | done => rfl
    obtain ⟨hopening, hstale⟩ := hfresh hdone hfid
    have hentry : (x.net.opens (x.net.reqs ri).oi).used = true :=
      hslots.owned.live (names_inr_of_opening hopening)
    have hslot : net.opens = update x.net.opens (x.net.reqs ri).oi
        { x.net.opens (x.net.reqs ri).oi with used := false } := by
      rw [hnet]
      exact if_pos hopening.1
    refine hsession.enqueue (n := .inl (x.net.reqs ri).oi) hroom
      ((heldFid_of_current hentry hstale).trans (by rw [hx.ready hopening hdone])) hfids
        hclunks hsent
      ?_ fun k hk => ?_
    · change (net.opens _).heldFid = none
      rw [hslot, update_self]
      exact heldFid_of_unused rfl
    cases k with
    | inl oj =>
      have hoj : oj ≠ (x.net.reqs ri).oi := fun h => hk (by rw [h])
      exact kept_of_open (by rw [hslot, update_of_ne hoj])
    | inr rj =>
      by_cases hrj : rj = ri
      · subst hrj
        refine ⟨?_, (clunking_of_update hreqs).trans rfl⟩
        exact ((holds_of_update hreqs).trans (heldFid_of_not_inflight (by simp))).trans
          (heldFid_of_not_inflight (by simp [hdone])).symm
      · exact kept_of_req (by rw [hreqs, update_of_ne hrj])

theorem Move.fidState (h : Move F B x y) (hsound : Sound x.net) (hawaited : x.Awaited)
    (hcode : ¬F.code) (hleftover : ¬F.leftover) (hfull : ¬F.full) (houtdated : ¬B.outdated)
    (hslots : Slots True x.descs x.net) (hx : FidState x.net) : FidState y.net := by
  have htaken : ∀ (s : C.Slot) (ri : Fin nreq), FidState (x.taken s ri).net := fun s ri =>
    hx.request rfl rfl (fun h => absurd rfl h.used) (.inl (heldFid_of_not_inflight (by simp)))
  cases h with
  | tasks | stageOwner | unwait => exact hx
  | exit | reassign | spawn => exact hx.unchanged rfl rfl
  | quiet h hconn =>
    exact hx.same h rfl rfl (fun hne => hconn ▸ hne) fun hs => hx.session (hconn ▸ hs)
  | pump _ _ h => exact h.fidState hsound hcode hleftover hfull hslots hx
  | @issue s ri r _ _ hfree _ hop =>
    exact hx.request rfl rfl (fun h => absurd h.1 hop) (.inl (heldFid_of_not_inflight (by simp)))
  | issueOpen _ _ _ _ _ hunused => exact issueOpen_fidState hslots hx _ hunused
  | take | install => exact htaken _ _
  | discard _ _ _ _ hroom hfresh =>
    refine (htaken _ _).close (hroom.resolve_right hfull) fun hs hstale => ?_
    have hcurrent := hfresh.resolve_right houtdated hs
    change (x.net.opens _).stale = true at hstale
    rw [hcurrent] at hstale
    cases hstale
  | @cancel s ri hwaits _ hfresh hroom =>
    obtain ⟨w, hw, hri⟩ := hwaits.wait
    exact cancelled_fidState hsound hslots hx (hawaited s w ri hwaits.alive hw hri).1
      (hroom.resolve_right hfull) (hfresh.resolve_right houtdated)
  | close hd hroom hfresh =>
    exact hx.close (hroom.resolve_right hfull) fun _ => hfresh.resolve_right houtdated

end Moves

/-- A pass that mixes up no fids: error replies have codes that negate to a negative result, no fid
is left to be clunked when a connection comes up, and the queue is not full. -/
structure Orderly (x : Client C) (wire : Wire) : Prop where
  frames : x.conn = .up → ∀ rx recvs, fillWith wire.recvs x.rx = some (rx, recvs) →
    Frames (CodeOk C.word) True rx.length rx
  clean : x.conn.inSession = false → wire.connect = .ok ∨ wire.poll = .ready false → x.clunks = []
  room : x.clunks.length + 1 ≠ nclunk

def KeepsFids (x : World C) : Event C → Prop
  | .retry s input =>
    Orderly x.net input.wire ∧ x.net.clunks.length + 2 < nclunk ∧ x.TakesCurrent s input.install
  | .tick _ wire => Orderly x.net wire
  | .signal s _ | .cont s _ =>
    x.net.clunks.length + 1 ≠ nclunk ∧
      ∀ w ri, (x.tasks s).wait = some w → w.request = some ri → x.EntryGone ri ∧ x.FidCurrent ri
  | .close d =>
    x.net.clunks.length + 1 ≠ nclunk ∧ ∀ oi, x.descs d = some oi → x.CloseCurrent oi
  | _ => True

theorem Orderly.passing {net : Client C} {wire : Wire} (h : Orderly net wire) :
    Passing ⟨True, False, False, False⟩ (net.withWire wire) where
  sends := .inr trivial
  recvs _ _ := trivial
  frames hup rx recvs hfill := (h.frames hup rx recvs hfill).mono (fun _ _ => .inl) fun h => h
  clean hdown hcomes := .inl (h.clean hdown hcomes)
  room := .inl h.room

theorem KeepsFids.meets {x : World C} {e : Event C} (h : x.KeepsFids e) :
    Meets ⟨True, False, False, False⟩ ⟨True, False, True, True, True, False⟩ x e := by
  have hfound : Provided ⟨True, False, False, False⟩ ⟨True, False, True, True, True, False⟩ x.net :=
    ⟨fun _ => .inr trivial, .inr trivial⟩
  cases e with
  | netfsOpen => exact .inr trivial
  | retry => exact ⟨h.1.passing, hfound, .inl h.2.1, .inl h.2.2⟩
  | tick => exact ⟨h.passing, hfound⟩
  | signal | cont =>
    exact ⟨.inl h.1, fun w ri hw hri => ⟨.inl (h.2 w ri hw hri).1, .inl (h.2 w ri hw hri).2⟩⟩
  | close => exact ⟨.inl h.1, fun oi hoi => .inl (h.2 oi hoi)⟩
  | handleExit => exact fun _ _ => .inr trivial
  | _ => trivial

theorem fidState_empty (wire : Wire) : FidState (({} : Client C).withWire wire) where
  pending h := absurd rfl h.used
  ready h := absurd rfl h.used
  down _ _ := rfl
  session h := by simp [withWire, Conn.inSession] at h

theorem Runs.fidState {x : World C} (h : Runs KeepsFids x) : FidState x.net := by
  have hall := h.induct (P := fun x => x.Awaited ∧ Slots True x.descs x.net ∧ FidState x.net)
    (fun wire => ⟨fun s w ri halive => by simp at halive, slots_empty True wire,
      fidState_empty wire⟩)
    (fun {y z} hsound hP hact => ⟨fun s w ri halive => by simp at halive,
      hact.slots hsound (fun h => h) hP.2.1,
      hact.fidState hsound (fun h => h) (fun h => h) (fun h => h) hP.2.1 hP.2.2⟩)
    fun {x e} _ _ hok => ⟨_, _, hok.meets, fun _ hsound hP hmove => ⟨hmove.awaited hsound hP.1,
        hmove.slots hsound hP.1 (fun h => h) (fun h => h) (fun _ => trivial) (fun _ => trivial)
          (fun _ => trivial) hP.2.1,
        hmove.fidState hsound hP.1 (fun h => h) (fun h => h) (fun h => h)
          (fun h => h) hP.2.1 hP.2.2⟩⟩
  exact hall.2.2.2

/-- On one connection a fid has one holder.  A fid in use is allocated, and bound by the server
until the message of its own holder that clunks it.  No walk named a bound fid as new. -/
theorem fids_exclusive {x : World C} (h : Runs KeepsFids x)
    (hsession : x.net.conn.inSession = true) :
    (∀ n m f, fidNames x.net n = some f → fidNames x.net m = some f → n = m) ∧
    (∀ n f, holds x.net n = some f → x.net.fids f = true ∧ bound x.net.sent f = !clunking x.net n) ∧
    walksFresh x.net.sent = true := by
  have hfids := h.fidState.session hsession
  exact ⟨fun n m f hn hm => hfids.owned.inj hn hm,
    fun n f hn => ⟨hfids.owned.live (n := .inl n) hn, hfids.server hn⟩, hfids.fresh⟩

theorem fids_exclusive_walked :
    ∃ x : World sample, Runs KeepsFids x ∧ holds x.net (.inr 0) = some 1 ∧ x.net.fids 1 = true ∧
      bound x.net.sent 1 = true := by
  have hopen :
      Runs KeepsFids ((init sample 1 handshake).run [.spawn 0 1, .netfsOpen 0 [47, 97] 0]) :=
    .step (.netfsOpen 0 [47, 97] 0) (.step (.spawn 0 1) (.init 1 handshake) trivial) trivial
  have hwalk := Runs.step (.retry 0 (retrying [])) hopen ⟨⟨fun _ rx recvs h => by
        have hrx : rx = [] := by
          have hfill : fillWith [] ([] : Bytes) = some (rx, recvs) := h
          cases hfill
          rfl
        rw [hrx]
        trivial, fun hdown => absurd hdown (by decide +kernel), by decide +kernel⟩,
      by decide +kernel, fun w ri hw hri => .inr (by decide +kernel)⟩
  obtain ⟨-, hheld, -⟩ := fids_exclusive hwalk (by decide +kernel)
  have hone := hheld (.inr 0) 1 (by decide +kernel)
  exact ⟨_, hwalk, by decide +kernel, hone.1, hone.2.trans (by decide +kernel)⟩

/-- An open of the last connection is closed while another open has the same fid on this one: the
fid is free although it is in use. -/
theorem stale_close_frees_fid : ∃ x : World sample, Runs (fun _ _ => True) x ∧ x.net.conn = .up ∧
      holds x.net (.inr 0) = some 1 ∧ x.net.fids 1 = false := by
  refine ⟨(init sample 1 handshake).run
    [.spawn 0 1, .spawn 1 1, .netfsOpen 0 [97] 0, .retry 0 (retrying []), .retry 0 (retrying
        [.data (message .rwalk 1 (LittleEndian.write 2 1 ++ LittleEndian.write 13 0)),
          .data (message .rlgetattr 1 (LittleEndian.write 153 0)),
          .data (message .rlopen 1 (LittleEndian.write 17 0))]),
      .netfsRead 0 0 4096 16 (fun _ _ => true), .retry 0 (retrying []),
      .retry 0 (retrying [.failed]), .tick 3000000 handshake, .netfsOpen 1 [98] 0,
      .retry 1 (retrying []), .close 0],
    (Runs.init 1 handshake).run (fun _ _ _ => trivial), by decide +kernel, by decide +kernel,
    by decide +kernel⟩

end World

end Lxp.Netfs
