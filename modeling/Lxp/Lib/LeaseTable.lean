import Lxp.Lib.RefPool

/-! # Leased, generation-qualified capability tables

A table of cells, each with a reference count, a generation and at most one lease
owner.  A reference names a cell together with the generation it was handed out
under, so a reference that outlives its cell never matches again.  A cell is used
by holders (`use`), by references in flight (`float`) and by its lease; `Balanced`
says that the count is the sum of the three. -/

namespace LeaseTable

open Function RefPool List

structure Ref (n : Nat) where
  index : Fin n
  generation : Nat
  deriving DecidableEq, Repr

structure Cell (ω : Type*) where
  leaseOwner : Option ω
  refs : Nat
  generation : Nat

abbrev Table (ω : Type*) (n : Nat) := Fin n → Cell ω

variable {ω : Type*} {n : Nat}

def refAt (t : Table ω n) (k : Fin n) : Ref n := ⟨k, (t k).generation⟩

/-- The new generation is what distinguishes this tenancy from the earlier ones. -/
def reserve (t : Table ω n) (k : Fin n) (owner : ω) : Option (Ref n × Table ω n) :=
  if (t k).refs = 0 then
    some (⟨k, (t k).generation + 1⟩, update t k ⟨some owner, 1, (t k).generation + 1⟩)
  else none

def setOwner (t : Table ω n) (k : Fin n) (owner : Option ω) : Table ω n :=
  update t k { t k with leaseOwner := owner }

def get (t : Table ω n) (limit : Nat) (r : Ref n) : Option (Table ω n) :=
  if r.generation ≠ 0 ∧ (t r.index).generation = r.generation ∧
      (t r.index).leaseOwner.isNone ∧ (t r.index).refs ≠ 0 ∧ (t r.index).refs < limit then
    some (update t r.index { t r.index with refs := (t r.index).refs + 1 })
  else none

/-- The last reference also drops the lease and starts a new generation. -/
def drop (t : Table ω n) (k : Fin n) : Table ω n :=
  if (t k).refs = 1 then update t k ⟨none, 0, (t k).generation + 1⟩
  else update t k { t k with refs := (t k).refs - 1 }

def put (t : Table ω n) (r : Ref n) : Table ω n :=
  if r.generation ≠ 0 ∧ (t r.index).generation = r.generation ∧ (t r.index).refs ≠ 0 then
    drop t r.index
  else t

section Owned

variable [DecidableEq ω]

def LeaseMatches (t : Table ω n) (r : Ref n) (owner : ω) (refs : Nat) : Prop :=
  r.generation ≠ 0 ∧ (t r.index).generation = r.generation ∧ (t r.index).refs = refs ∧
    (t r.index).leaseOwner = some owner

instance (t : Table ω n) (r : Ref n) (owner : ω) (refs : Nat) :
    Decidable (LeaseMatches t r owner refs) := by
  unfold LeaseMatches; infer_instance

def commit (t : Table ω n) (r : Ref n) (owner : ω) : Option (Table ω n) :=
  if r.generation ≠ 0 ∧ (t r.index).generation = r.generation ∧ (t r.index).refs ≠ 0 ∧
      (t r.index).leaseOwner = some owner then
    some (setOwner t r.index none)
  else none

def releaseIfOwned (t : Table ω n) (r : Ref n) (owner : ω) : Table ω n :=
  if (t r.index).leaseOwner = some owner ∧ (t r.index).refs = 1 ∧
      (t r.index).generation = r.generation then
    put t r
  else t

def leaseReassign (t : Table ω n) (r : Ref n) (old new : ω) : Option (Table ω n) :=
  if LeaseMatches t r old 1 then some (setOwner t r.index (some new)) else none

end Owned

/-! ## Undoing -/

variable {t t' : Table ω n} {limit : Nat} {r : Ref n}

/-- Giving back a reference that was just taken restores the table. -/
theorem put_get (h : get t limit r = some t') : put t' r = t := by
  unfold get at h
  split at h
  · rename_i hcond
    obtain ⟨hnz, hgen, _, hrefs, _⟩ := hcond
    injection h with h
    subst h
    unfold put drop
    rw [update_self]
    dsimp only
    rw [if_pos ⟨hnz, hgen, Nat.succ_ne_zero _⟩, if_neg (by omega), update_idem]
    exact update_eq_self r.index t
  · cases h

variable {k : Fin n} {owner : ω}

/-- Releasing a fresh lease leaves the cell free, in a new generation. -/
theorem release_reserve [DecidableEq ω] (h : reserve t k owner = some (r, t')) :
    releaseIfOwned t' r owner = update t k ⟨none, 0, (t k).generation + 2⟩ := by
  unfold reserve at h
  split at h
  · injection h with h
    injection h with hr ht
    subst hr ht
    unfold releaseIfOwned put drop
    rw [update_self]
    rw [if_pos ⟨rfl, rfl, rfl⟩, if_pos ⟨Nat.succ_ne_zero _, rfl, one_ne_zero⟩, if_pos rfl,
      update_idem]
  · cases h

theorem reserve_index (h : reserve t k owner = some (r, t')) : r.index = k := by
  unfold reserve at h
  split at h
  · cases h
    rfl
  · cases h

/-- A cell that was just reserved is not the one a reference was taken to. -/
theorem get_ne_reserve {t'' : Table ω n} {s : Ref n}
    (hget : get t limit r = some t') (hres : reserve t' s.index owner = some (s, t'')) :
    s.index ≠ r.index ∧ (t' s.index).refs = 0 ∧ t' s.index = t s.index := by
  unfold get at hget
  split at hget
  · cases hget
    unfold reserve at hres
    split at hres
    · rename_i hzero
      have hne : s.index ≠ r.index := by
        intro heq
        rw [heq, update_self] at hzero
        exact Nat.succ_ne_zero _ hzero
      exact ⟨hne, hzero, update_of_ne hne _ _⟩
    · cases hres
  · cases hget

theorem put_update_of_ne (c : Cell ω) (h : r.index ≠ k) :
    put (update t k c) r = update (put t r) k c := by
  unfold put drop
  rw [update_of_ne h]
  split
  · split
    · exact (update_comm h _ _ _).symm
    · exact (update_comm h _ _ _).symm
  · rfl

/-! ## Balance -/

def lease (c : Cell ω) : Nat := if c.leaseOwner.isSome then 1 else 0

variable {ι : Type*} [Fintype ι]

structure Balanced (t : Table ω n) (use : ι → Option (Ref n)) (float : List (Ref n)) : Prop where
  count : ∀ k, (t k).refs = holders use (refAt t k) + float.count (refAt t k) + lease (t k)
  live : ∀ i r, use i = some r → r = refAt t r.index
  floatLive : ∀ r ∈ float, r = refAt t r.index
  started : ∀ k, (t k).refs ≠ 0 → (t k).generation ≠ 0

theorem refAt_update_of_ne (t : Table ω n) (c : Cell ω) {j : Fin n} (h : j ≠ k) :
    refAt (update t k c) j = refAt t j := by
  simp [refAt, update_of_ne h]

theorem refAt_update_same (t : Table ω n) {c : Cell ω}
    (h : c.generation = (t k).generation) (j : Fin n) : refAt (update t k c) j = refAt t j := by
  by_cases hj : j = k
  · subst hj
    simp [refAt, h]
  · exact refAt_update_of_ne t c hj

theorem eq_refAt (h : (t r.index).generation = r.generation) : r = refAt t r.index := by
  cases r
  simp_all [refAt]

namespace Balanced

variable {use : ι → Option (Ref n)} {float float' : List (Ref n)}

/-- A cell without references is named by nobody, under any generation. -/
theorem unused (h : Balanced t use float) (hk : (t k).refs = 0) :
    (∀ i r, use i = some r → r.index ≠ k) ∧ ∀ r ∈ float, r.index ≠ k := by
  have hcount := h.count k
  constructor
  · rintro i r hi rfl
    have hr := h.live i r hi
    have := holders_pos (hr ▸ hi)
    omega
  · rintro r hr rfl
    have hlive := h.floatLive r hr
    have := count_pos_iff.mpr (hlive ▸ hr)
    omega

/-- A cell that nothing names any more may start a new generation. -/
theorem renew (h : Balanced t use float) (c : Cell ω) (huse : ∀ i r, use i = some r → r.index ≠ k)
    (hfloat : ∀ r ∈ float', r.index ≠ k)
    (hother : ∀ r, r.index ≠ k → float'.count r = float.count r) (hc : c.refs = lease c)
    (hgen : c.refs ≠ 0 → c.generation ≠ 0) : Balanced (update t k c) use float' := by
  refine ⟨fun j => ?_, fun i r hi => ?_, fun r hr => ?_, fun j hj => ?_⟩
  · by_cases hj : j = k
    · subst hj
      rw [holders_eq_zero_iff.mpr fun i hi => huse i _ hi rfl,
        count_eq_zero.mpr fun hmem => hfloat _ hmem rfl, update_self]
      omega
    · rw [refAt_update_of_ne t c hj, update_of_ne hj, hother _ hj]
      exact h.count j
  · rw [refAt_update_of_ne t c (huse i r hi)]
    exact h.live i r hi
  · rw [refAt_update_of_ne t c (hfloat r hr)]
    refine h.floatLive r (count_pos_iff.mp ?_)
    rw [← hother r (hfloat r hr)]
    exact count_pos_iff.mpr hr
  · by_cases hjk : j = k
    · subst hjk
      rw [update_self] at hj ⊢
      exact hgen hj
    · rw [update_of_ne hjk] at hj ⊢
      exact h.started j hj

/-- Within one generation a cell may be recounted. -/
theorem recount (h : Balanced t use float) (c : Cell ω) (hgen : c.generation = (t k).generation)
    (hc : c.refs = holders use (refAt t k) + float'.count (refAt t k) + lease c)
    (hother : ∀ r, r.index ≠ k → float'.count r = float.count r)
    (hlive : ∀ r ∈ float', r.index = k → r = refAt t k) (hpos : (t k).refs ≠ 0) :
    Balanced (update t k c) use float' := by
  refine ⟨fun j => ?_, fun i r hi => ?_, fun r hr => ?_, fun j hj => ?_⟩
  · rw [refAt_update_same t hgen]
    by_cases hj : j = k
    · subst hj
      rw [update_self]
      exact hc
    · rw [update_of_ne hj, hother _ hj]
      exact h.count j
  · rw [refAt_update_same t hgen]
    exact h.live i r hi
  · rw [refAt_update_same t hgen]
    by_cases hrk : r.index = k
    · rw [hrk]
      exact hlive r hr hrk
    · refine h.floatLive r (count_pos_iff.mp ?_)
      rw [← hother r hrk]
      exact count_pos_iff.mpr hr
  · by_cases hjk : j = k
    · subst hjk
      rw [update_self, hgen]
      exact h.started j hpos
    · rw [update_of_ne hjk] at hj ⊢
      exact h.started j hj

section

variable (h : Balanced t use float)
include h

theorem reserve (hr : LeaseTable.reserve t k owner = some (r, t')) : Balanced t' use float := by
  unfold LeaseTable.reserve at hr
  split at hr
  · rename_i hzero
    injection hr with hr
    injection hr with _ ht
    subst ht
    exact h.renew _ (h.unused hzero).1 (h.unused hzero).2 (fun _ _ => rfl) (by simp [lease])
      (by simp)
  · cases hr

/-- Changing only who owns an existing lease does not change the balance. -/
theorem setOwner (howner : (t k).leaseOwner.isSome) :
    Balanced (LeaseTable.setOwner t k (some owner)) use float := by
  have hcount := h.count k
  have hlease : lease (t k) = 1 := by simp [lease, howner]
  refine h.recount { t k with leaseOwner := some owner } rfl ?_ (fun _ _ => rfl) ?_ (by omega)
  · rw [hcount, hlease]
    rfl
  · rintro r hr rfl
    exact h.floatLive r hr

/-- One more counted use of a cell is one more reference in flight. -/
theorem bump (c : Cell ω) (hgen : c.generation = (t k).generation)
    (hrefs : c.refs + lease (t k) = (t k).refs + lease c + 1) (hpos : (t k).refs ≠ 0) :
    Balanced (update t k c) use (refAt t k :: float) := by
  have hcount := h.count k
  refine h.recount c hgen ?_ ?_ ?_ hpos
  · rw [count_cons_self]
    omega
  · intro r hr
    exact count_cons_of_ne (fun heq => hr (congrArg Ref.index heq).symm)
  · rintro r hr rfl
    rcases mem_cons.mp hr with hr | hr
    · exact hr
    · exact h.floatLive r hr

theorem get {limit : Nat}
    (hg : LeaseTable.get t limit r = some t') : Balanced t' use (r :: float) := by
  unfold LeaseTable.get at hg
  split at hg
  · rename_i hcond
    obtain ⟨_, hgen, _, hpos, _⟩ := hcond
    injection hg with ht
    subst ht
    have hb := h.bump { t r.index with refs := (t r.index).refs + 1 } rfl
      (by simp only [lease]; omega) hpos
    rwa [← eq_refAt hgen] at hb
  · cases hg

/-- A lease turns into a reference in flight when its owner is dropped. -/
theorem unlease (howner : (t k).leaseOwner.isSome) :
    Balanced (LeaseTable.setOwner t k none) use (refAt t k :: float) := by
  have hcount := h.count k
  have hlease : lease (t k) = 1 := by simp [lease, howner]
  refine h.bump { t k with leaseOwner := none } rfl ?_ (by omega)
  rw [hlease]
  rfl

end

theorem drop (h : Balanced t use (refAt t k :: float)) :
    Balanced (LeaseTable.drop t k) use float := by
  have hcount := h.count k
  rw [count_cons_self] at hcount
  have hother : ∀ r, r.index ≠ k → float.count r = (refAt t k :: float).count r := by
    intro r hr
    exact (count_cons_of_ne (fun heq => hr (congrArg Ref.index heq).symm)).symm
  unfold LeaseTable.drop
  split
  · refine h.renew _ ?_ ?_ hother rfl (by simp)
    · rintro i r hi rfl
      exact holders_eq_zero_iff.mp (by omega) i (h.live i r hi ▸ hi)
    · rintro r hr rfl
      have hlive := h.floatLive r (mem_cons_of_mem _ hr)
      exact count_eq_zero.mp (by omega) (hlive ▸ hr)
  · refine h.recount _ rfl ?_ hother ?_ (by omega)
    · simp only [lease] at hcount ⊢
      omega
    · rintro r hr rfl
      exact h.floatLive r (mem_cons_of_mem _ hr)

theorem put (h : Balanced t use (r :: float)) : Balanced (LeaseTable.put t r) use float := by
  have hr := h.floatLive r mem_cons_self
  have hcount := h.count r.index
  rw [← hr, count_cons_self] at hcount
  have hstarted := h.started r.index (by omega)
  have hgen : (t r.index).generation = r.generation := (congrArg Ref.generation hr).symm
  rw [LeaseTable.put, if_pos ⟨hgen ▸ hstarted, hgen, by omega⟩]
  exact drop (hr ▸ h)

/-- Giving a lease back frees the cell. -/
theorem release [DecidableEq ω] (h : Balanced t use float) (owner : ω) :
    Balanced (releaseIfOwned t r owner) use float := by
  unfold releaseIfOwned
  split
  · rename_i hcond
    obtain ⟨howner, hone, hgen⟩ := hcond
    have hcount := h.count r.index
    have hlease : lease (t r.index) = 1 := by simp [lease, howner]
    have hstarted := h.started r.index (by omega)
    rw [LeaseTable.put, if_pos ⟨hgen ▸ hstarted, hgen, by omega⟩, LeaseTable.drop, if_pos hone]
    refine h.renew _ ?_ ?_ (fun _ _ => rfl) rfl (by simp)
    · rintro i r hi heq
      have hlive := h.live i r hi
      rw [heq] at hlive
      exact holders_eq_zero_iff.mp (by omega) i (hlive ▸ hi)
    · rintro r hr heq
      have hlive := h.floatLive r hr
      rw [heq] at hlive
      exact count_eq_zero.mp (by omega) (hlive ▸ hr)
  · exact h

variable {i : ι}

/-- A region with a single count, that of its lease, has no user. -/
theorem leased_ne_used (h : Balanced t use float) {ref : Ref n}
    (hi : use i = some r) (hlease : LeaseMatches t ref owner 1) : ref.index ≠ r.index := by
  obtain ⟨_, _, hrefs, howner⟩ := hlease
  intro hidx
  rw [hidx] at hrefs howner
  have hpos : 0 < holders use (refAt t r.index) :=
    holders_pos (hi.trans (congrArg some (h.live i r hi)))
  have hcount := h.count r.index
  rw [lease, howner] at hcount
  simp only [Option.isSome_some, if_true] at hcount
  omega

variable [DecidableEq ι]

/-- A reference in flight is stored with a holder. -/
theorem land (h : Balanced t use (r :: float)) (hi : use i = none) :
    Balanced t (update use i (some r)) float := by
  refine ⟨fun k => ?_, fun j q hj => ?_, fun q hq => ?_, h.started⟩
  · have hcount := h.count k
    rw [holders_update_some hi]
    by_cases hr : r = refAt t k
    · subst hr
      rw [count_cons_self] at hcount
      rw [if_pos rfl]
      omega
    · rw [count_cons_of_ne hr] at hcount
      rw [if_neg hr]
      omega
  · by_cases hji : j = i
    · subst hji
      rw [update_self] at hj
      injection hj with hj
      subst hj
      exact h.floatLive r mem_cons_self
    · rw [update_of_ne hji] at hj
      exact h.live j q hj
  · exact h.floatLive q (mem_cons_of_mem _ hq)

/-- A holder's reference is taken out and in flight again. -/
theorem lift (h : Balanced t use float) (hi : use i = some r) :
    Balanced t (update use i none) (r :: float) := by
  refine ⟨fun k => ?_, fun j q hj => ?_, fun q hq => ?_, h.started⟩
  · have hcount := h.count k
    have hdown := holders_update_none hi (refAt t k)
    by_cases hr : r = refAt t k
    · subst hr
      rw [if_pos rfl] at hdown
      rw [count_cons_self]
      omega
    · rw [if_neg hr] at hdown
      rw [count_cons_of_ne hr]
      omega
  · by_cases hji : j = i
    · subst hji
      rw [update_self] at hj
      cases hj
    · rw [update_of_ne hji] at hj
      exact h.live j q hj
  · rcases mem_cons.mp hq with rfl | hq
    · exact h.live i q hi
    · exact h.floatLive q hq

end Balanced

end LeaseTable
