import Mathlib.Data.Fintype.Card
import Mathlib.Data.Fintype.Basic
import Mathlib.Data.List.FinRange
import Mathlib.Logic.Function.Basic

/-! # Reference-counted object pools

A pool is a fixed array of objects, each with a reference count; an entry whose
count is zero is free.  Holders name entries through columns `ι → Option (Fin n)`,
and references in flight (taken, but not yet stored in a column) are listed
separately.  `Counted` says that every count is the number of names. -/

namespace RefPool

open Function List

/-! ## Counting the holders of a column -/

def holders {ι κ : Type*} [Fintype ι] [DecidableEq κ] (hold : ι → Option κ) (k : κ) : Nat :=
  (Finset.univ.filter fun i => hold i = some k).card

section Holders

variable {ι κ : Type*} [Fintype ι] [DecidableEq κ] {hold : ι → Option κ}

theorem holders_pos {i : ι} {k : κ} (h : hold i = some k) : 0 < holders hold k :=
  Finset.card_pos.mpr ⟨i, by simp [h]⟩

theorem holders_eq_zero {k : κ} (h : holders hold k = 0) (i : ι) : hold i ≠ some k := by
  intro hi
  have := holders_pos hi
  omega

theorem holders_eq_zero_iff {k : κ} : holders hold k = 0 ↔ ∀ i, hold i ≠ some k := by
  refine ⟨holders_eq_zero, fun h => ?_⟩
  simp [holders, h]

variable [DecidableEq ι]

theorem holders_update_some {i : ι} (h : hold i = none) (k j : κ) :
    holders (update hold i (some k)) j = holders hold j + if k = j then 1 else 0 := by
  unfold holders
  by_cases hkj : k = j
  · subst hkj
    rw [if_pos rfl, ← Finset.card_insert_of_notMem (a := i) (by simp [h])]
    congr 1
    ext x
    by_cases hx : x = i
    · simp [hx]
    · simp [hx]
  · rw [if_neg hkj]
    congr 1
    ext x
    by_cases hx : x = i
    · simp [hx, h, hkj]
    · simp [update_of_ne hx]

theorem holders_update_none {i : ι} {k : κ} (h : hold i = some k) (j : κ) :
    holders (update hold i none) j + (if k = j then 1 else 0) = holders hold j := by
  have hback : update (update hold i none) i (some k) = hold := by
    rw [update_idem, ← h, update_eq_self]
  have hcount := holders_update_some (show update hold i none i = none by simp) k j
  rw [hback] at hcount
  exact hcount.symm

theorem holders_update_same {i : ι} {k : Option κ} (h : hold i = k) (j : κ) :
    holders (update hold i k) j = holders hold j := by
  rw [← h, update_eq_self]

end Holders

/-! ## Pools -/

structure Pool (α : Type*) (n : Nat) where
  refs : Fin n → Nat
  val : Fin n → α

namespace Pool

variable {α : Type*} {n : Nat}

def free? (p : Pool α n) : Option (Fin n) := (List.finRange n).find? fun i => p.refs i == 0

def new (p : Pool α n) (v : α) : Option (Fin n × Pool α n) :=
  p.free?.map fun i => (i, { refs := update p.refs i 1, val := update p.val i v })

def set (p : Pool α n) (i : Fin n) (v : α) : Pool α n := { p with val := update p.val i v }

def get (p : Pool α n) (i : Fin n) : Pool α n := { p with refs := update p.refs i (p.refs i + 1) }

/-- The last reference also clears the object. -/
def put (p : Pool α n) (empty : α) (i : Fin n) : Pool α n :=
  if p.refs i = 1 then { refs := update p.refs i 0, val := update p.val i empty }
  else { p with refs := update p.refs i (p.refs i - 1) }

variable {p : Pool α n} {i : Fin n}

theorem free?_refs (h : p.free? = some i) : p.refs i = 0 := by
  have := List.find?_some h
  simpa using this

theorem new_eq {q : Pool α n} {v : α} (h : p.new v = some (i, q)) :
    p.refs i = 0 ∧ q = { refs := update p.refs i 1, val := update p.val i v } := by
  obtain ⟨j, hj, hq⟩ := Option.map_eq_some_iff.mp h
  injection hq with hij hq
  subst hij
  exact ⟨free?_refs hj, hq.symm⟩

theorem put_val_of_ne {e : α} {j : Fin n} (h : j ≠ i) : (p.put e i).val j = p.val j := by
  unfold put
  split
  · exact update_of_ne h _ _
  · rfl

theorem put_val_of_shared {e : α} (h : p.refs i ≠ 1) : (p.put e i).val = p.val := by
  rw [put, if_neg h]

theorem put_refs (p : Pool α n) (e : α) (i : Fin n) :
    (p.put e i).refs = update p.refs i (p.refs i - 1) := by
  unfold put
  split
  · rename_i h
    rw [h]
  · rfl

/-! ### Pools with the same objects -/

/-- The same counts, and the same objects in the entries that are not free. -/
structure Same (p q : Pool α n) : Prop where
  refs : q.refs = p.refs
  val : ∀ i, p.refs i ≠ 0 → q.val i = p.val i

namespace Same

variable {q : Pool α n}

theorem refl (p : Pool α n) : Same p p := ⟨rfl, fun _ _ => rfl⟩

theorem put_get {i : Fin n} (e : α) (hi : p.refs i ≠ 0) : Same p ((p.get i).put e i) := by
  have hcount : (p.get i).refs i = p.refs i + 1 := update_self _ _ _
  have hshared : (p.get i).refs i ≠ 1 := by omega
  refine ⟨?_, fun j _ => ?_⟩
  · rw [put_refs, hcount, Nat.add_sub_cancel]
    show update (update p.refs i _) i _ = p.refs
    rw [update_idem, update_eq_self]
  · rw [put_val_of_shared hshared]
    rfl

theorem put_new {i : Fin n} {v : α} (e : α) (h : p.new v = some (i, q)) : Same p (q.put e i) := by
  obtain ⟨hfree, rfl⟩ := new_eq h
  refine ⟨?_, fun j hj => ?_⟩
  · rw [put_refs]
    show update (update p.refs i 1) i (update p.refs i 1 i - 1) = p.refs
    rw [update_self, update_idem, Nat.sub_self, ← hfree, update_eq_self]
  · have hji : j ≠ i := fun h => hj (h ▸ hfree)
    rw [put_val_of_ne hji]
    exact update_of_ne hji _ _

end Same

end Pool

/-! ## Counted pools -/

def Counted {ι α : Type*} [Fintype ι] {n : Nat} (p : Pool α n) (hold : ι → Option (Fin n))
    (extra : List (Fin n)) : Prop :=
  ∀ i, p.refs i = holders hold i + extra.count i

namespace Counted

variable {ι α : Type*} [Fintype ι] {n : Nat} {p q : Pool α n}
  {hold : ι → Option (Fin n)} {extra : List (Fin n)}

variable {i : Fin n}

section

variable (h : Counted p hold extra)
include h

theorem unheld (hi : p.refs i = 0) (s : ι) : hold s ≠ some i := by
  have := h i
  exact holders_eq_zero (by omega) s

theorem new {v : α} (hn : p.new v = some (i, q)) : Counted q hold (i :: extra) := by
  obtain ⟨hfree, rfl⟩ := Pool.new_eq hn
  intro j
  have hj := h j
  show update p.refs i 1 j = _
  by_cases hji : j = i
  · subst hji
    rw [update_self, count_cons_self]
    omega
  · rw [update_of_ne hji, count_cons_of_ne (Ne.symm hji)]
    exact hj

theorem get (i : Fin n) : Counted (p.get i) hold (i :: extra) := by
  intro j
  have hj := h j
  show update p.refs i (p.refs i + 1) j = _
  by_cases hji : j = i
  · subst hji
    rw [update_self, count_cons_self]
    omega
  · rw [update_of_ne hji, count_cons_of_ne (Ne.symm hji)]
    exact hj

theorem set (i : Fin n) (v : α) : Counted (p.set i v) hold extra := h

end

/-- A reference in flight is stored in a column. -/
theorem store [DecidableEq ι] (h : Counted p hold (i :: extra)) {s : ι} (hs : hold s = none) :
    Counted p (update hold s (some i)) extra := by
  intro j
  have hj := h j
  rw [holders_update_some hs]
  by_cases hji : i = j
  · subst hji
    rw [count_cons_self] at hj
    rw [if_pos rfl]
    omega
  · rw [count_cons_of_ne hji] at hj
    rw [if_neg hji]
    exact hj

/-- A stored reference is taken out of its column. -/
theorem take [DecidableEq ι] (h : Counted p hold extra) {s : ι} (hs : hold s = some i) :
    Counted p (update hold s none) (i :: extra) := by
  intro j
  have hj := h j
  have hcount := holders_update_none hs j
  by_cases hji : i = j
  · subst hji
    rw [if_pos rfl] at hcount
    rw [count_cons_self]
    omega
  · rw [if_neg hji] at hcount
    rw [count_cons_of_ne hji]
    omega

theorem put (h : Counted p hold (i :: extra)) (e : α) : Counted (p.put e i) hold extra := by
  intro j
  have hj := h j
  rw [Pool.put_refs]
  by_cases hji : j = i
  · subst hji
    rw [count_cons_self] at hj
    rw [update_self]
    omega
  · rw [count_cons_of_ne (Ne.symm hji)] at hj
    rw [update_of_ne hji]
    exact hj

/-- Releasing one reference changes no object another holder still names. -/
theorem put_val {j : Fin n} (h : Counted p hold (i :: extra)) (e : α) {s : ι}
    (hs : hold s = some j) : (p.put e i).val j = p.val j := by
  by_cases hji : j = i
  · subst hji
    have hj := h j
    have hpos := holders_pos hs
    rw [count_cons_self] at hj
    rw [Pool.put_val_of_shared (by omega)]
  · exact Pool.put_val_of_ne hji

theorem new_val {j : Fin n} (h : Counted p hold extra) {v : α} (hn : p.new v = some (i, q))
    {s : ι} (hs : hold s = some j) : q.val j = p.val j := by
  obtain ⟨hfree, rfl⟩ := Pool.new_eq hn
  have hji : j ≠ i := fun hji => h.unheld hfree s (hji ▸ hs)
  exact update_of_ne hji _ _

end Counted

end RefPool
