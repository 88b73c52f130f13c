import Lxp.Lib.Ownership
import Lxp.Netfs.Owners

/-!
# The pool of remote opens

A pool entry is reserved when an open is submitted and handed to a description when its result is
taken.  In between the request has it.  The entries in use are therefore those that a description or
an open in progress names, each by one of them, as long as nothing happens that loses an entry: a
drop of the connection in the middle of an open, an open that cannot be built, or an error reply
that looks like a success.  With `lost` an entry may lose its name, but it never has two.
-/

namespace Lxp.Netfs

open Client Function Ownership

variable {C : Config}

def Client.inUse (x : Client C) (oi : Fin nopen) : Bool := (x.opens oi).used

structure Slots (lost : Prop) (descs : Fin C.nofd → Option (Fin nopen)) (x : Client C) : Prop where
  owned : Owned lost x.inUse (names descs x)
  path : ∀ ri, (x.reqs ri).state = .queued → (x.reqs ri).op = .openFile →
    pathSplit (x.reqs ri).path ≠ none ∨ lost

section Requests

variable {n : Nat} {r r' : NetReq n}

theorem NetReq.Opening.used (h : r.Opening) : r.state ≠ .free := by
  rcases h.2 with h | h | h <;> simp [h]

theorem not_opening_of_op (h : r.op ≠ .openFile) : ¬r.Opening := fun hopening => h hopening.1

theorem not_opening_of_free (h : r.state = .free) : ¬r.Opening := fun hopening => hopening.used h

theorem opening_of_pending (hop : r.op = .openFile) (hused : r.state ≠ .free)
    (hpending : r.state ≠ .done) : r.Opening := by
  refine ⟨hop, ?_⟩
  cases h : r.state with
  | free => exact absurd h hused
  | queued => exact .inl rfl
  | inflight => exact .inr (.inl rfl)
  | done => exact absurd h hpending

theorem SameReq.opening (h : SameReq r r') : r'.Opening ↔ r.Opening := by
  by_cases hfree : r.state = .free
  · have hfree' : r'.state = .free := h.state.trans hfree
    exact ⟨fun h => absurd hfree' h.used, fun h => absurd hfree h.used⟩
  · unfold NetReq.Opening
    rw [h.state, h.op hfree]
    refine and_congr_right fun _ =>
      or_congr_right (or_congr_right (and_congr_right fun hdone => ?_))
    rw [h.result hdone]

end Requests

section Steps

variable {lost : Prop} {descs : Fin C.nofd → Option (Fin nopen)} {x y : Client C} {ri : Fin nreq}
  {r : NetReq C.nslot}

theorem names_inr_of_opening (h : (x.reqs ri).Opening) :
    names descs x (.inr ri) = some (x.reqs ri).oi := if_pos h

theorem names_inr_of_not_opening (h : ¬(x.reqs ri).Opening) : names descs x (.inr ri) = none :=
  if_neg h

theorem names_inr_congr (h : (y.reqs ri).Opening ↔ (x.reqs ri).Opening)
    (hoi : (x.reqs ri).Opening → (y.reqs ri).oi = (x.reqs ri).oi) :
    names descs y (.inr ri) = names descs x (.inr ri) := by
  by_cases hx : (x.reqs ri).Opening
  · rw [names_inr_of_opening hx, names_inr_of_opening (h.mpr hx), hoi hx]
  · rw [names_inr_of_not_opening hx, names_inr_of_not_opening (mt h.mp hx)]

def Queued (x y : Client C) : Prop :=
  ∀ ri, (y.reqs ri).state = .queued → (y.reqs ri).op = .openFile →
    (x.reqs ri).state = .queued ∧ (x.reqs ri).op = .openFile ∧ (y.reqs ri).path = (x.reqs ri).path

theorem Kept.queuedOpens (h : Kept x y) : Queued x y := by
  intro ri hqueued hop
  rcases h ri (by simp [hqueued]) with hkept | ⟨hclunk, -⟩
  · exact ⟨hkept.queued hqueued, by rw [← hkept.op]; exact hop, hkept.path⟩
  · rw [hop] at hclunk
    cases hclunk

theorem Queued.paths (h : Queued x y)
    (hx : ∀ ri, (x.reqs ri).state = .queued → (x.reqs ri).op = .openFile →
      pathSplit (x.reqs ri).path ≠ none ∨ lost) (ri : Fin nreq)
    (hqueued : (y.reqs ri).state = .queued) (hop : (y.reqs ri).op = .openFile) :
    pathSplit (y.reqs ri).path ≠ none ∨ lost := by
  obtain ⟨hqueued', hop', hpath⟩ := h ri hqueued hop
  rw [hpath]
  exact hx ri hqueued' hop'

section

variable (hx : Slots lost descs x)
include hx

/-- A step after which the same requests have the same entries. -/
theorem Slots.congr (hqueued : Queued x y) (hused : ∀ oi, (y.opens oi).used = (x.opens oi).used)
    (hreq : ∀ ri, (y.reqs ri).Opening ↔ (x.reqs ri).Opening)
    (hoi : ∀ ri, (x.reqs ri).Opening → (y.reqs ri).oi = (x.reqs ri).oi) : Slots lost descs y where
  owned := by
    refine hx.owned.congr hused fun n => ?_
    cases n with
    | inl d => rfl
    | inr ri => exact names_inr_congr (hreq ri) (hoi ri)
  path := hqueued.paths hx.path

theorem Slots.same {z : Client C} (h : Same z y) (hopens : z.opens = x.opens)
    (hreqs : z.reqs = x.reqs) : Slots lost descs y := by
  refine hx.congr (fun ri hqueued hop => ?_) (fun oi => by rw [h.used, hopens]) (fun ri => ?_)
    fun ri hri => ?_
  · rw [← hreqs]
    exact (Kept.of_same h).queuedOpens ri hqueued hop
  · rw [← hreqs]
    exact (h.req ri).opening
  · rw [← hreqs] at hri ⊢
    exact (h.req ri).oi hri.used

section

variable (hqueued : Queued x y) (hused : ∀ oi, (y.opens oi).used = (x.opens oi).used)
  (hreqs : y.reqs = update x.reqs ri r)
include hqueued hused hreqs

/-- A step that changes one request, and not what it has. -/
theorem Slots.of_update (hr : r.Opening ↔ (x.reqs ri).Opening)
    (hoi : (x.reqs ri).Opening → r.oi = (x.reqs ri).oi) : Slots lost descs y := by
  refine hx.congr hqueued hused (fun rj => ?_) fun rj hrj => ?_
  · rw [hreqs]
    by_cases h : rj = ri
    · subst h
      rw [update_self]
      exact hr
    · rw [update_of_ne h]
  · rw [hreqs]
    by_cases h : rj = ri
    · subst h
      rw [update_self]
      exact hoi hrj
    · rw [update_of_ne h]

/-- The same for a request that is not an open, before or after. -/
theorem Slots.other (hbefore : ¬(x.reqs ri).Opening) (hafter : ¬r.Opening) : Slots lost descs y :=
  hx.of_update hqueued hused hreqs ⟨fun h => absurd h hafter, fun h => absurd h hbefore⟩
    fun h => absurd h hbefore

end

theorem Slots.released (hqueued : Queued x y) (hopening : (x.reqs ri).Opening)
    (hopens : y.opens = update x.opens (x.reqs ri).oi { x.opens (x.reqs ri).oi with used := false })
    (hreqs : y.reqs = update x.reqs ri r) (hr : ¬r.Opening) : Slots lost descs y where
  owned := by
    refine hx.owned.release (names_inr_of_opening hopening) ?_ (fun oi hoi => ?_) ?_ fun n hn => ?_
    · simp [inUse, hopens]
    · simp [inUse, hopens, update_of_ne hoi]
    · refine names_inr_of_not_opening ?_
      rw [hreqs, update_self]
      exact hr
    cases n with
    | inl d => rfl
    | inr rj =>
      have hrj : rj ≠ ri := fun h => hn (by rw [h])
      have hsame : y.reqs rj = x.reqs rj := by rw [hreqs, update_of_ne hrj]
      exact names_inr_congr (by rw [hsame]) fun _ => by rw [hsame]
  path := hqueued.paths hx.path

theorem Slots.release (hqueued : Queued x y)
    (hopening : (x.reqs ri).op = .openFile → (x.reqs ri).Opening)
    (hopens : y.opens =
      if (x.reqs ri).op = .openFile then
        update x.opens (x.reqs ri).oi { x.opens (x.reqs ri).oi with used := false }
      else x.opens)
    (hreqs : y.reqs = update x.reqs ri r) (hr : ¬r.Opening) : Slots lost descs y := by
  by_cases hop : (x.reqs ri).op = .openFile
  · rw [if_pos hop] at hopens
    exact hx.released hqueued (hopening hop) hopens hreqs hr
  · rw [if_neg hop] at hopens
    exact hx.other hqueued (fun _ => by rw [hopens]) hreqs (not_opening_of_op hop) hr

end

variable {v : Option (SlotRef C.nslot)} {F : Faults}

theorem Act.slots (h : Act v F x y) (hsound : Sound x) (hcode : ¬F.code) (hx : Slots lost descs x) :
    Slots lost descs y := by
  have hold := (h.kept hsound).queuedOpens
  have hflight : ∀ {ri : Fin nreq}, x.inflight = some ri → (x.reqs ri).op = .openFile →
      (x.reqs ri).Opening := fun hin hop =>
    ⟨hop, .inr (.inl (hsound.state_of_inflight hin))⟩
  cases h with
  | quiet h _ | phase h _ _ | session _ _ h _ => exact hx.same h rfl rfl
  | copy | stage => exact hx.congr hold (fun _ => rfl) (fun _ => Iff.rfl) fun _ _ => rfl
  | seek | advance => exact hx.of_update hold (fun _ => rfl) rfl Iff.rfl fun _ => rfl
  | abandon hin =>
    rw [abandon_eq, release_eq] at hold ⊢
    exact hx.release hold (hflight hin) rfl rfl (not_opening_of_free rfl)
  | fail hin hop _ he =>
    have he := he.resolve_right hcode
    rw [fail_eq hop, release_eq] at hold ⊢
    refine hx.release hold (hflight hin) rfl rfl fun h => ?_
    rcases h.2 with h | h | h
    · cases h
    · cases h
    · exact absurd h.2 (not_le.mpr he)
  | @opened ri o hin hop _ hused =>
    have hopening := hflight hin hop
    have hinUse : (x.opens (x.reqs ri).oi).used = true :=
      hx.owned.live (names_inr_of_opening hopening)
    rw [complete_eq]
    refine hx.of_update hold (fun oi => ?_) rfl ⟨fun _ => hopening, fun _ => ?_⟩ fun _ => rfl
    · simp only [updOpen]
      by_cases h : oi = (x.reqs ri).oi
      · rw [h, update_self, hused, hinUse]
      · rw [update_of_ne h]
    · exact ⟨hop, .inr (.inr ⟨rfl, Int.natCast_nonneg _⟩)⟩
  | @finish ri e hin hop =>
    have hop' : (x.reqs ri).op ≠ .openFile := by rcases hop with h | h <;> simp [h]
    exact hx.other hold (fun _ => rfl) rfl (not_opening_of_op hop') (not_opening_of_op hop')
  | @clunked ri hin hop =>
    have hop' : (x.reqs ri).op ≠ .openFile := by rcases hop with h | h <;> simp [h]
    obtain ⟨fids, hfids⟩ := fidFree_eq x (x.reqs ri).fid
    rw [clunked_eq, hfids] at hold ⊢
    exact hx.other hold (fun _ => rfl) rfl (not_opening_of_op hop') (not_opening_of_op hop')
  | @clunkDone ri hin hop =>
    have hop' : (x.reqs ri).op ≠ .openFile := by simp [hop]
    obtain ⟨fids, hfids⟩ := fidFree_eq x (x.reqs ri).fid
    rw [hfids] at hold ⊢
    exact hx.other hold (fun _ => rfl) rfl (not_opening_of_op hop') (not_opening_of_free rfl)

theorem Slots.lose (hx : Slots lost descs x) (hlost : lost) (hqueued : Queued x y)
    (hused : ∀ oi, (y.opens oi).used = (x.opens oi).used)
    (hreq : ∀ ri, names descs y (.inr ri) = names descs x (.inr ri) ∨ ¬(y.reqs ri).Opening) :
    Slots lost descs y where
  owned := by
    refine hx.owned.lose hlost hused fun n => ?_
    cases n with
    | inl d => exact .inl rfl
    | inr ri => exact (hreq ri).imp_right names_inr_of_not_opening
  path := hqueued.paths hx.path

theorem connDrop_req (x : Client C) (ri : Fin nreq) :
    (x.connDrop.reqs ri = x.reqs ri ∧
      ¬((x.reqs ri).state = .queued ∨ (x.reqs ri).state = .inflight)) ∨
      (((x.reqs ri).state = .queued ∨ (x.reqs ri).state = .inflight) ∧
        ¬(x.connDrop.reqs ri).Opening) := by
  simp only [connDrop, dropReq]
  split
  · rename_i hpending
    refine .inr ⟨hpending, ?_⟩
    split
    · exact not_opening_of_free rfl
    · rintro ⟨-, h | h | h⟩
      · cases h
      · cases h
      · exact absurd h.2 (show ¬(0 : Int) ≤ Errno.eio.neg by decide)
  · rename_i hpending
    exact .inl ⟨rfl, hpending⟩

theorem Slots.connDrop (hx : Slots lost descs x) (hdrop : x.NoOpen ∨ lost) :
    Slots lost descs x.connDrop := by
  have hqueued := (Kept.connDrop x).queuedOpens
  have hused : ∀ oi, (x.connDrop.opens oi).used = (x.opens oi).used := by
    intro oi
    simp only [Client.connDrop]
    split <;> rfl
  have hreq := connDrop_req x
  rcases hdrop with hnone | hlost
  · have hopening : ∀ ri, x.connDrop.reqs ri = x.reqs ri ∨
        (¬(x.connDrop.reqs ri).Opening ∧ ¬(x.reqs ri).Opening) := by
      intro ri
      refine (hreq ri).imp (fun h => h.1) fun hreq => ⟨hreq.2, not_opening_of_op fun hop => ?_⟩
      have hpending := hreq.1
      rcases hnone ri hop with h | h <;> simp [h] at hpending
    refine hx.congr hqueued hused (fun ri => ?_) fun ri hri => ?_
    · rcases hopening ri with h | ⟨hafter, hbefore⟩
      · rw [h]
      · exact ⟨fun h => absurd h hafter, fun h => absurd h hbefore⟩
    · rcases hopening ri with h | ⟨-, hbefore⟩
      · rw [h]
      · exact absurd hri hbefore
  · refine hx.lose hlost hqueued hused fun ri => ?_
    rcases hreq ri with ⟨h, -⟩ | ⟨-, h⟩
    · exact .inl (names_inr_congr (by rw [h]) fun _ => by rw [h])
    · exact .inr h

theorem Launch.slots (h : Launch v x y) (hfids : x.FidsLeft ∨ lost) (hx : Slots lost descs x) :
    Slots lost descs y := by
  have hold := h.kept.queuedOpens
  cases h with
  | @walk ri f names hup hidle hqueued =>
    exact hx.of_update hold (fun _ => rfl) (launched_reqs ..)
      ⟨fun h => ⟨h.1, .inl hqueued⟩, fun h => ⟨h.1, .inr (.inl rfl)⟩⟩ fun _ => rfl
  | io _ _ hqueued =>
    exact hx.of_update hold (fun _ => rfl) rfl
      ⟨fun h => ⟨h.1, .inl hqueued⟩, fun h => ⟨h.1, .inr (.inl rfl)⟩⟩ fun _ => rfl
  | @refuse ri e hidle hqueued he hcause =>
    by_cases hop : (x.reqs ri).op = .openFile
    · have hlost : lost := by
        rcases hcause hop with h | h
        · exact (hx.path ri hqueued hop).resolve_left (not_not.mpr h)
        · exact hfids.resolve_left fun hleft => hleft ⟨ri, hqueued, hop⟩ h
      refine hx.lose hlost hold (fun _ => rfl) fun rj => ?_
      by_cases hrj : rj = ri
      · subst hrj
        refine .inr ?_
        rw [complete_eq]
        simpa [NetReq.Opening] using fun _ => he
      · have hsame : (x.complete ri e).reqs rj = x.reqs rj := update_of_ne hrj _ _
        exact .inl (names_inr_congr (by rw [hsame]) fun _ => by rw [hsame])
    · exact hx.other hold (fun _ => rfl) rfl (not_opening_of_op hop) (not_opening_of_op hop)
  | clunk _ _ hfree _ =>
    exact hx.other hold (fun _ => rfl) rfl (not_opening_of_free hfree) (not_opening_of_op (by simp))

/-! ### A pass -/

theorem Kept.noOpen (h : Kept x y) (hx : x.NoOpen) : y.NoOpen := by
  intro ri hop
  by_contra hnot
  rw [not_or] at hnot
  rcases h ri hnot.1 with hkept | ⟨hclunk, -⟩
  · rcases hx ri (by rw [← hkept.op]; exact hop) with hs | hs
    · exact hkept.used hs
    · exact hkept.pending hnot.2 hs
  · rw [hop] at hclunk
    cases hclunk

variable {g : Nat}

theorem fidFree_free (f : Nat) (h : x.fids g = false) : (x.fidFree f).fids g = false := by
  unfold fidFree
  split
  · by_cases hg : g = f
    · simp [hg]
    · simpa [update_of_ne hg] using h
  · exact h

theorem clunkEnqueue_free (f : Nat) (h : x.fids g = false) : (x.clunkEnqueue f).fids g = false := by
  unfold clunkEnqueue
  split
  · exact h
  · split
    · exact fidFree_free f h
    · exact h

theorem Act.fids_free (h : Act v F x y) (hg : x.fids g = false) : y.fids g = false := by
  cases h with
  | quiet h _ | phase h _ _ => rw [h.fids]; exact hg
  | session _ _ h _ => rw [h.fids]
  | copy | stage | seek | advance | opened | finish => exact hg
  | abandon =>
    rw [abandon_eq, release_eq]
    exact clunkEnqueue_free _ hg
  | fail _ hop =>
    rw [fail_eq hop, release_eq]
    exact clunkEnqueue_free _ hg
  | clunked =>
    exact fidFree_free _ hg
  | clunkDone => exact fidFree_free _ hg

theorem fidFirst_ne_none_iff : x.fidFirst ≠ none ↔ ∃ f, 0 < f ∧ f < nfid ∧ x.fids f = false := by
  unfold fidFirst
  simp only [ne_eq, List.find?_eq_none, List.mem_range, Bool.and_eq_true, decide_eq_true_eq,
    not_and, not_forall]
  constructor
  · rintro ⟨f, hlt, hpos, hfree⟩
    exact ⟨f, hpos, hlt, by simpa using hfree⟩
  · rintro ⟨f, hpos, hlt, hfree⟩
    exact ⟨f, hlt, hpos, by simpa using hfree⟩

theorem Act.fidsLeft (h : Act v F x y) (hsound : Sound x) (hx : x.FidsLeft) : y.FidsLeft := by
  rintro ⟨ri, hqueued, hop⟩
  have hold : ∃ ri, (x.reqs ri).state = .queued ∧ (x.reqs ri).op = .openFile := by
    obtain ⟨hqueued', hop', -⟩ := (h.kept hsound).queuedOpens ri hqueued hop
    exact ⟨ri, hqueued', hop'⟩
  obtain ⟨f, hpos, hlt, hfree⟩ := fidFirst_ne_none_iff.mp (hx hold)
  exact fidFirst_ne_none_iff.mpr ⟨f, hpos, hlt, h.fids_free hfree⟩

theorem Passed.slots (h : Passed v F x y) (hsound : Sound x) (hcode : ¬F.code)
    (hdrop : F.drop → x.NoOpen ∨ lost) (hfids : x.FidsLeft ∨ lost) (hx : Slots lost descs x) :
    Slots lost descs y := by
  have hkeep : ∀ {y z : Client C}, Kept y z → (F.drop → y.NoOpen ∨ lost) →
      F.drop → z.NoOpen ∨ lost := fun hkept hy h => (hy h).imp_left hkept.noOpen
  have hall := h.induct
    (P := fun y => Slots lost descs y ∧ (F.drop → y.NoOpen ∨ lost) ∧ (y.FidsLeft ∨ lost))
    (Q := fun y => Slots lost descs y ∧ (F.drop → y.NoOpen ∨ lost)) hsound ⟨hx, hdrop, hfids⟩
    (fun hy hP hact => ⟨hact.slots hy hcode hP.1, hkeep (hact.kept hy) hP.2.1,
      hP.2.2.imp_left (hact.fidsLeft hy)⟩)
    (fun hP => ⟨hP.1, hP.2.1⟩)
    (fun _ hP hlaunch => ⟨hlaunch.slots hP.2.2 hP.1, hkeep hlaunch.kept hP.2.1⟩)
    (fun _ hQ hsame _ => ⟨hQ.1.same hsame rfl rfl, hkeep (.of_same hsame) hQ.2⟩)
    fun hd _ hQ => ⟨hQ.1.connDrop (hQ.2 hd), hkeep (.connDrop _) hQ.2⟩
  exact hall.1

end Steps

/-! ## Runs -/

namespace World

section Moves

variable {lost : Prop} {F : Faults} {B : Breaches} {x y : World C}

variable {ri : Fin nreq}

theorem issue_slots (hx : Slots lost x.descs x.net) (s : C.Slot)
    (hfree : (x.net.reqs ri).state = .free) {r : NetReq C.nslot} (hop : r.op ≠ .openFile) :
    Slots lost x.descs (x.issue s ri r).net where
  owned := by
    refine hx.owned.congr (fun _ => rfl) fun n => ?_
    cases n with
    | inl d => rfl
    | inr rj =>
      by_cases h : rj = ri
      · subst h
        have hbefore : ¬(x.net.reqs rj).Opening := not_opening_of_free hfree
        have hafter : ¬((x.issue s rj r).net.reqs rj).Opening :=
          not_opening_of_op (by simpa [World.issue, updTask, updReq] using hop)
        rw [names_inr_of_not_opening hbefore, names_inr_of_not_opening hafter]
      · have hsame : (x.issue s ri r).net.reqs rj = x.net.reqs rj := update_of_ne h _ _
        exact names_inr_congr (by rw [hsame]) fun _ => by rw [hsame]
  path rj hqueued hop' := by
    by_cases h : rj = ri
    · subst h
      exact absurd hop' (by simpa [World.issue, updTask, updReq] using hop)
    · have hsame : (x.issue s ri r).net.reqs rj = x.net.reqs rj := update_of_ne h _ _
      rw [hsame] at hqueued hop' ⊢
      exact hx.path rj hqueued hop'

theorem issueOpen_slots (hx : Slots lost x.descs x.net) (s : C.Slot)
    (hfree : (x.net.reqs ri).state = .free) {r : NetReq C.nslot} (hop : r.op = .openFile)
    (hunused : (x.net.opens r.oi).used = false) (hpath : pathSplit r.path ≠ none ∨ lost) :
    Slots lost x.descs ((x.issue s ri r).net.updOpen r.oi fun _ => { used := true }) where
  owned := by
    refine hx.owned.assign (names_inr_of_not_opening (not_opening_of_free hfree))
      hunused ?_ (fun oi hoi => ?_) ?_ fun n hn => ?_
    · simp [inUse, updOpen]
    · simp [inUse, updOpen, update_of_ne hoi, World.issue, updTask, updReq]
    · have hopening : (((x.issue s ri r).net.updOpen r.oi fun _ => { used := true }).reqs
          ri).Opening :=
        opening_of_pending (by simpa [World.issue, updTask, updReq, updOpen] using hop)
          (by simp [World.issue, updTask, updReq, updOpen])
          (by simp [World.issue, updTask, updReq, updOpen])
      rw [names_inr_of_opening hopening]
      simp [World.issue, updTask, updReq, updOpen]
    · cases n with
      | inl d => rfl
      | inr rj =>
        have hrj : rj ≠ ri := fun h => hn (by rw [h])
        have hsame : ((x.issue s ri r).net.updOpen r.oi fun _ => { used := true }).reqs rj =
            x.net.reqs rj := update_of_ne hrj _ _
        exact names_inr_congr (by rw [hsame]) fun _ => by rw [hsame]
  path rj hqueued hop' := by
    by_cases h : rj = ri
    · subst h
      simpa [World.issue, updTask, updReq, updOpen] using hpath
    · have hsame : ((x.issue s ri r).net.updOpen r.oi fun _ => { used := true }).reqs rj =
          x.net.reqs rj := update_of_ne h _ _
      rw [hsame] at hqueued hop' ⊢
      exact hx.path rj hqueued hop'

theorem close_opens {net : Client C} {oi : Fin nopen} (h : (net.opens oi).used = true) :
    (net.close oi).opens = update net.opens oi { net.opens oi with used := false } := by
  unfold close
  rw [if_pos h]
  split
  · obtain ⟨fids, clunks, h⟩ := clunkEnqueue_eq net (net.opens oi).fid
    rw [h]
    rfl
  · obtain ⟨fids, h⟩ := fidFree_eq net (net.opens oi).fid
    rw [h]
    rfl

/-- A request that becomes free, the others as they were. -/
theorem taken_queued (s : C.Slot) (ri : Fin nreq) : Queued x.net (x.taken s ri).net :=
  (Kept.of_update rfl fun h => absurd rfl h : Kept x.net (x.taken s ri).net).queuedOpens

theorem cancelled_queued (ri : Fin nreq) : Queued x.net (x.cancelled ri).net := by
  intro rj hqueued hop
  have hne : rj ≠ ri := by
    rintro rfl
    by_cases hflight : (x.net.reqs rj).state = .inflight
    · rw [cancelled_inflight hflight] at hqueued
      simp [hflight] at hqueued
    · rw [cancelled_parked hflight] at hqueued
      simp at hqueued
  rw [cancelled_reqs_of_ne hne] at hqueued hop ⊢
  exact ⟨hqueued, hop, rfl⟩

theorem install_slots {s : C.Slot} {d : Fin C.nofd} (hx : Slots lost x.descs x.net)
    (hopening : (x.net.reqs ri).Opening) (hd : x.descs d = none) :
    Slots lost (update x.descs d (some (x.net.reqs ri).oi)) (x.taken s ri).net where
  owned := by
    refine hx.owned.transfer (m := .inl d) (names_inr_of_opening hopening) hd
      (fun _ => rfl) ?_ (update_self ..) fun n hn hm => ?_
    · refine names_inr_of_not_opening (not_opening_of_free ?_)
      simp [World.taken, updTask, record, updReq]
    cases n with
    | inl d' => exact update_of_ne (fun h => hm (by rw [h])) _ _
    | inr rj =>
      have hrj : rj ≠ ri := fun h => hn (by rw [h])
      have hsame : (x.taken s ri).net.reqs rj = x.net.reqs rj := taken_reqs_of_ne hrj
      exact names_inr_congr (by rw [hsame]) fun _ => by rw [hsame]
  path := (taken_queued s ri).paths hx.path

theorem close_slots {d : Fin C.nofd} {oi : Fin nopen} (hx : Slots lost x.descs x.net)
    (hd : x.descs d = some oi) : Slots lost (update x.descs d none) (x.net.close oi) := by
  have hused : (x.net.opens oi).used = true := hx.owned.live (n := .inl d) hd
  have hopens := close_opens hused
  refine ⟨hx.owned.release (n := .inl d) hd ?_ (fun oj hoj => ?_) (update_self ..)
    fun n hn => ?_, fun ri => ?_⟩
  · simp [inUse, hopens]
  · simp [inUse, hopens, update_of_ne hoj]
  · cases n with
    | inl d' => exact update_of_ne (fun h => hn (by rw [h])) _ _
    | inr rj => exact names_inr_congr (by rw [close_reqs]) fun _ => by rw [close_reqs]
  · rw [close_reqs]
    exact hx.path ri

theorem cancelled_slots (hx : Slots lost x.descs x.net) (hused : (x.net.reqs ri).state ≠ .free)
    (hslot : x.EntryGone ri) : Slots lost x.descs (x.cancelled ri).net := by
  have hqueued := cancelled_queued (x := x) ri
  by_cases hflight : (x.net.reqs ri).state = .inflight
  · rw [cancelled_inflight hflight] at hqueued ⊢
    exact hx.of_update hqueued (fun _ => rfl) rfl Iff.rfl fun _ => rfl
  rw [cancelled_parked hflight] at hqueued ⊢
  by_cases hfailed : (x.net.reqs ri).op = .openFile ∧ (x.net.reqs ri).state = .done ∧
      (x.net.reqs ri).result < 0
  · -- a failed open has no entry any more
    obtain ⟨hop, hdone, hresult⟩ := hfailed
    have hgone := hslot hop hdone hresult
    rw [if_pos hop]
    refine ⟨hx.owned.collect hgone (by simp [inUse])
      (fun oi hoi => by simp [inUse, update_of_ne hoi]) fun n => ?_,
      hqueued.paths hx.path⟩
    cases n with
    | inl d => rfl
    | inr rj =>
      by_cases hrj : rj = ri
      · subst hrj
        have hbefore : ¬(x.net.reqs rj).Opening := by
          rintro ⟨-, h | h | h⟩
          · simp [hdone] at h
          · simp [hdone] at h
          · exact absurd h.2 (not_le.mpr hresult)
        rw [names_inr_of_not_opening hbefore]
        exact names_inr_of_not_opening (not_opening_of_free (by simp))
      · exact names_inr_congr (by simp [update_of_ne hrj]) fun _ => by simp [update_of_ne hrj]
  · refine hx.release hqueued (fun hop => ⟨hop, ?_⟩) rfl rfl (not_opening_of_free rfl)
    cases hstate : (x.net.reqs ri).state with
    | free => exact absurd hstate hused
    | queued => exact .inl rfl
    | inflight => exact absurd hstate hflight
    | done => exact .inr (.inr ⟨rfl, not_lt.mp fun h => hfailed ⟨hop, hstate, h⟩⟩)

theorem Move.slots (h : Move F B x y) (hsound : Sound x.net) (hawaited : x.Awaited)
    (hcode : ¬F.code) (hreused : ¬B.reused) (hpath : B.path → lost) (hstranded : B.stranded → lost)
    (hexhausted : B.exhausted → lost) (hx : Slots lost x.descs x.net) :
    Slots lost y.descs y.net := by
  cases h with
  | tasks | stageOwner | unwait => exact hx
  | exit | reassign | spawn =>
    exact hx.congr (Kept.refl x.net).queuedOpens (fun _ => rfl) (fun _ => Iff.rfl) fun _ _ => rfl
  | quiet h _ => exact hx.same h rfl rfl
  | pump _ hfound h =>
    exact h.slots hsound hcode (fun h => (hfound.opens h).imp_right hstranded)
      (hfound.fids.imp_right hexhausted) hx
  | issue _ _ hfree _ hop => exact issue_slots hx _ hfree hop
  | issueOpen _ _ hfree _ hop hunused hsplit =>
    exact issueOpen_slots hx _ hfree hop hunused (hsplit.imp_right hpath)
  | @take s ri hwaits hdone hnot =>
    refine hx.other (taken_queued s ri) (fun _ => rfl) rfl ?_ (not_opening_of_free rfl)
    rintro ⟨hop, h | h | h⟩
    · simp [hdone] at h
    · simp [hdone] at h
    · exact hnot ⟨hop, h.2⟩
  | install hwaits hdone hop hresult hd =>
    exact install_slots hx ⟨hop, .inr (.inr ⟨hdone, hresult⟩)⟩ hd
  | @discard s ri hwaits hdone hop hresult =>
    have hopening : (x.net.reqs ri).Opening := ⟨hop, .inr (.inr ⟨hdone, hresult⟩)⟩
    have hused : ((x.taken s ri).net.opens (x.net.reqs ri).oi).used = true :=
      hx.owned.live (n := .inr ri) (names_inr_of_opening hopening)
    refine hx.released ?_ hopening (close_opens hused) (close_reqs _ _) (not_opening_of_free rfl)
    intro rj
    rw [close_reqs]
    exact taken_queued s ri rj
  | @cancel s ri hwaits hslot =>
    obtain ⟨w, hw, hri⟩ := hwaits.wait
    exact cancelled_slots hx (hawaited s w ri hwaits.alive hw hri).1 (hslot.resolve_right hreused)
  | close hd => exact close_slots hx hd

end Moves

/-- A pass in which no pool entry is lost: the transport fails only while no open is queued or in
flight, error replies have codes that negate to a negative result, and a queued open finds a fid. -/
structure Harmless (x : Client C) (wire : Wire) : Prop where
  sends : SendAnswer.failed ∉ wire.sends ∨ x.NoOpen
  recvs : x.conn = .up → fillWith wire.recvs x.rx = none → x.NoOpen
  frames : x.conn = .up → ∀ rx recvs, fillWith wire.recvs x.rx = some (rx, recvs) →
    Frames (CodeOk C.word) x.NoOpen rx.length rx
  fids : x.FidsLeft

def KeepsSlots (x : World C) : Event C → Prop
  | .netfsOpen _ path _ => pathSplit path ≠ none
  | .retry _ input => Harmless x.net input.wire
  | .tick _ wire => Harmless x.net wire
  | .signal s _ | .cont s _ =>
    ∀ w ri, (x.tasks s).wait = some w → w.request = some ri → x.EntryGone ri
  | _ => True

theorem Harmless.passing {net : Client C} {wire : Wire} (h : Harmless net wire) :
    Passing ⟨net.NoOpen, False, True, True⟩ (net.withWire wire) where
  sends := h.sends
  recvs := h.recvs
  frames hup rx recvs hfill := (h.frames hup rx recvs hfill).mono (fun _ _ => .inl) fun h => h
  clean _ _ := .inr trivial
  room := .inr trivial

theorem KeepsSlots.meets {x : World C} {e : Event C} (h : x.KeepsSlots e) :
    Meets ⟨x.net.NoOpen, False, True, True⟩ ⟨False, False, True, False, False, True⟩ x e := by
  have hfound : ∀ {wire : Wire}, Harmless x.net wire → Provided ⟨x.net.NoOpen, False, True, True⟩
      ⟨False, False, True, False, False, True⟩ x.net := fun h => ⟨.inl, .inl h.fids⟩
  cases e with
  | netfsOpen => exact .inl h
  | retry => exact ⟨h.passing, hfound h, .inr trivial, .inr trivial⟩
  | tick => exact ⟨h.passing, hfound h⟩
  | signal | cont =>
    exact ⟨.inr trivial, fun w ri hw hri => ⟨.inl (h w ri hw hri), .inr trivial⟩⟩
  | close => exact ⟨.inr trivial, fun _ _ => .inr trivial⟩
  | handleExit => exact fun _ _ => .inr trivial
  | _ => trivial

theorem slots_empty (lost : Prop) (wire : Wire) :
    Slots lost (fun _ => none : Fin C.nofd → Option (Fin nopen))
      (({} : Client C).withWire wire) where
  owned :=
    { inj := fun {n m s} hn => by cases n <;> simp [names, withWire, NetReq.Opening] at hn
      live := fun {n s} hn => by cases n <;> simp [names, withWire, NetReq.Opening] at hn
      named := fun {s} hs => by simp [inUse, withWire] at hs }
  path ri h := by simp [withWire] at h

theorem Runs.slots {x : World C} (h : Runs KeepsSlots x) : Slots False x.descs x.net := by
  have hall := h.induct (P := fun x => x.Awaited ∧ Slots False x.descs x.net)
    (fun wire => ⟨fun s w ri halive => by simp at halive, slots_empty False wire⟩)
    (fun {y z} hsound hP hact => ⟨fun s w ri halive => by simp at halive,
      hact.slots hsound (fun h => h) hP.2⟩)
    fun {x e} _ _ hok => ⟨_, _, hok.meets, fun _ hsound hP hmove =>
      ⟨hmove.awaited hsound hP.1, hmove.slots hsound hP.1 (fun h => h) (fun h => h) (fun h => h)
        (fun h => h) (fun h => h) hP.2⟩⟩
  exact hall.2.2

/-- Each pool entry in use is named once, by a description or by an open in progress. -/
theorem slots_named_once {x : World C} (h : Runs KeepsSlots x) (oi : Fin nopen)
    (hused : (x.net.opens oi).used = true) : ∃! n, names x.descs x.net n = some oi :=
  h.slots.owned.existsUnique hused

def noErrors : Nat → Bytes → Bool
  | 0, _ => true
  | n + 1, rx =>
    match rxMessage rx with
    | some .bad => false
    | some (.message len) => rx[4]? != some MsgType.rlerror.code && noErrors n (rx.drop len)
    | _ => true

theorem frames_of_noErrors {w : WordSize} {bad : Prop} {n : Nat} {rx : Bytes}
    (h : noErrors n rx = true) : Frames (CodeOk w) bad n rx := by
  induction n generalizing rx with
  | zero => trivial
  | succ n ih =>
    unfold Frames
    split
    · rename_i hbad
      simp [noErrors, hbad] at h
    · rename_i len hlen
      simp only [noErrors, hlen, Bool.and_eq_true, bne_iff_ne] at h
      exact ⟨fun type htype he => absurd (htype.trans (congrArg some he)) h.1, ih h.2⟩
    · trivial

theorem harmless_of_noErrors {x : Client C} {wire : Wire} (hsends : SendAnswer.failed ∉ wire.sends)
    (hrecvs : ((fillWith wire.recvs x.rx).any fun p => noErrors p.1.length p.1) = true)
    (hfids : x.fidFirst ≠ none) : Harmless x wire where
  sends := .inl hsends
  recvs _ hfill := by simp [hfill] at hrecvs
  frames _ rx recvs hfill := by
    rw [hfill] at hrecvs
    exact frames_of_noErrors hrecvs
  fids _ := hfids

/-- An open that is answered and handed over to a description, and another one in flight. -/
theorem slots_named_once_submitted :
    ∃ x : World sample, Runs KeepsSlots x ∧ x.descs 0 = some 0 ∧ x.net.inflight = some 0 ∧
      (∃! n, names x.descs x.net n = some 0) ∧ ∃! n, names x.descs x.net n = some 1 := by
  have hpath : pathSplit [47, 97] ≠ none := by decide +kernel
  have hopen :
      Runs KeepsSlots ((init sample 1 handshake).run [.spawn 0 1, .netfsOpen 0 [47, 97] 0]) :=
    .step (.netfsOpen 0 [47, 97] 0) (.step (.spawn 0 1) (.init 1 handshake) trivial) hpath
  have hwalk := hopen.step (.retry 0 (retrying []))
    (harmless_of_noErrors (by decide) (by decide +kernel) (by decide +kernel))
  have hhanded := hwalk.step
    (.retry 0 (retrying
      [.data (message .rwalk 1 (LittleEndian.write 2 1 ++ LittleEndian.write 13 0)),
        .data (message .rlgetattr 1 (LittleEndian.write 153 0)),
        .data (message .rlopen 1 (LittleEndian.write 17 0))]))
    (harmless_of_noErrors (by decide) (by decide +kernel) (by decide +kernel))
  have hnext := (hhanded.step (.netfsOpen 0 [47, 97] 0) hpath).step (.retry 0 (retrying []))
    (harmless_of_noErrors (by decide) (by decide +kernel) (by decide +kernel))
  exact ⟨_, hnext, by decide +kernel, by decide +kernel,
    slots_named_once hnext 0 (by decide +kernel), slots_named_once hnext 1 (by decide +kernel)⟩

/-- The connection fails while an open is in flight: its pool entry stays in use, and neither a
description nor a request names it any more. -/
theorem drop_leaks_slot :
    ∃ x : World sample, Runs (fun _ _ => True) x ∧ (x.net.opens 0).used = true ∧
      ∀ n, names x.descs x.net n ≠ some 0 := by
  refine ⟨(init sample 1 handshake).run
    [.spawn 0 1, .netfsOpen 0 [47, 97] 0, .retry 0 (retrying []), .retry 0 (retrying [.failed])],
    (Runs.init 1 handshake).run (fun _ _ _ => trivial), by decide +kernel, fun n => ?_⟩
  cases n with
  | inl d =>
    revert d
    decide +kernel
  | inr ri =>
    revert ri
    decide +kernel

end World

end Lxp.Netfs
