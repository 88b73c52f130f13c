import Mathlib.Data.List.Chain
import Mathlib.Algebra.BigOperators.Group.List.Basic
import Mathlib.Tactic.Ring

/-!
# Blocks laid end to end

A region tiled by blocks, each a header of `hdr` bytes in front of its payload.  What the region's
memory says about a header is a relation between addresses and blocks, so nothing here depends on
how headers are encoded.
-/

open List

namespace BlockList

structure Block where
  payload : Nat
  free : Bool
deriving DecidableEq

variable (hdr : Nat)

def extent (bs : List Block) : Nat := (bs.map fun b => hdr + b.payload).sum

def allocated (bs : List Block) : Nat :=
  (bs.map fun b => if b.free then 0 else hdr + b.payload).sum

/-- Address and length of the payloads in use, for blocks from `a` on. -/
def live : Nat → List Block → List (Nat × Nat)
  | _, [] => []
  | a, b :: bs =>
    (if b.free then [] else [(a + hdr, b.payload)]) ++ live (a + hdr + b.payload) bs

/-- No two neighbours are both free. -/
def Coalesced (bs : List Block) : Prop :=
  bs.IsChain fun b c => b.free = false ∨ c.free = false

section Measures

variable {hdr} {a : Nat} {b : Block} {bs cs : List Block}

@[simp] theorem extent_nil : extent hdr [] = 0 := rfl

@[simp] theorem extent_cons : extent hdr (b :: bs) = hdr + b.payload + extent hdr bs := rfl

@[simp] theorem extent_append : extent hdr (bs ++ cs) = extent hdr bs + extent hdr cs := by
  simp [extent]

@[simp] theorem allocated_nil : allocated hdr [] = 0 := rfl

@[simp] theorem allocated_cons : allocated hdr (b :: bs) =
    (if b.free then 0 else hdr + b.payload) + allocated hdr bs := rfl

@[simp] theorem allocated_append :
    allocated hdr (bs ++ cs) = allocated hdr bs + allocated hdr cs := by
  simp [allocated]

variable (hdr) in
theorem allocated_le_extent (bs : List Block) : allocated hdr bs ≤ extent hdr bs := by
  induction bs with
  | nil => exact Nat.le_refl 0
  | cons b bs ih =>
    rw [allocated_cons, extent_cons]
    split <;> omega

@[simp] theorem live_nil : live hdr a [] = [] := rfl

theorem live_cons : live hdr a (b :: bs) =
    (if b.free then [] else [(a + hdr, b.payload)]) ++ live hdr (a + hdr + b.payload) bs := rfl

theorem live_append (a : Nat) (bs cs : List Block) :
    live hdr a (bs ++ cs) = live hdr a bs ++ live hdr (a + extent hdr bs) cs := by
  induction bs generalizing a with
  | nil => rfl
  | cons b bs ih =>
    rw [cons_append, live_cons, live_cons, ih, append_assoc, extent_cons]
    simp only [Nat.add_assoc]

/-- A payload in use belongs to an allocated block with everything before and after it. -/
theorem exists_of_mem_live {p : Nat × Nat} (h : p ∈ live hdr a bs) :
    ∃ pre post, bs = pre ++ ⟨p.2, false⟩ :: post ∧ p.1 = a + extent hdr pre + hdr := by
  induction bs generalizing a with
  | nil => cases h
  | cons b bs ih =>
    rw [live_cons, mem_append] at h
    rcases h with h | h
    · obtain ⟨l, _ | _⟩ := b
      · rw [if_neg (by simp), mem_singleton] at h
        exact ⟨[], bs, by rw [h]; rfl, by rw [h]; rfl⟩
      · simp at h
    · obtain ⟨pre, post, rfl, hp⟩ := ih h
      refine ⟨b :: pre, post, rfl, ?_⟩
      rw [extent_cons]
      omega

theorem mem_live_mid (a : Nat) (pre post : List Block) (l : Nat) :
    (a + extent hdr pre + hdr, l) ∈ live hdr a (pre ++ ⟨l, false⟩ :: post) := by
  rw [live_append, live_cons]
  simp

theorem live_bounds {p : Nat × Nat} (h : p ∈ live hdr a bs) :
    a + hdr ≤ p.1 ∧ p.1 + p.2 ≤ a + extent hdr bs := by
  obtain ⟨pre, -, rfl, hp⟩ := exists_of_mem_live h
  rw [extent_append, extent_cons]
  simp only
  omega

variable (hdr) in
/-- Payloads in use do not overlap. -/
theorem live_pairwise (a : Nat) (bs : List Block) :
    (live hdr a bs).Pairwise fun p q => p.1 + p.2 + hdr ≤ q.1 := by
  induction bs generalizing a with
  | nil => exact List.Pairwise.nil
  | cons b bs ih =>
    rw [live_cons, pairwise_append]
    refine ⟨?_, ih _, fun p hp q hq => ?_⟩
    · split
      · exact List.Pairwise.nil
      · exact pairwise_singleton _ _
    have hbound := (live_bounds hq).1
    split at hp
    · cases hp
    · rw [mem_singleton] at hp
      rw [hp]
      omega

theorem live_eq_nil_iff : live hdr a bs = [] ↔ ∀ b ∈ bs, b.free = true := by
  induction bs generalizing a with
  | nil => simp
  | cons b bs ih =>
    rw [live_cons, append_eq_nil_iff, ih, forall_mem_cons]
    cases b.free <;> simp

/-- Without a payload in use there is one block. -/
theorem Coalesced.eq_singleton (h : Coalesced bs) (hfree : ∀ b ∈ bs, b.free = true)
    (hne : bs ≠ []) : ∃ l, bs = [⟨l, true⟩] := by
  match bs, hne with
  | [⟨l, free⟩], _ =>
    have hl : free = true := hfree ⟨l, free⟩ (mem_singleton_self _)
    exact ⟨l, by rw [hl]⟩
  | b :: c :: bs, _ =>
    have hpair := (isChain_cons_cons.mp h).1
    rw [hfree b (by simp), hfree c (by simp)] at hpair
    simp at hpair

end Measures

/-! ## Blocks in memory

`R a b` says that the header at `a` describes `b`. -/

variable (R : Nat → Block → Prop)

def Tiles : Nat → List Block → Nat → Prop
  | a, [], e => a = e
  | a, b :: bs, e => R a b ∧ Tiles (a + hdr + b.payload) bs e

section Tiles

variable {hdr R} {R' : Nat → Block → Prop} {a e : Nat} {b : Block} {bs cs : List Block}

theorem tiles_cons :
    Tiles hdr R a (b :: bs) e ↔ R a b ∧ Tiles hdr R (a + hdr + b.payload) bs e := Iff.rfl

theorem Tiles.end_eq (h : Tiles hdr R a bs e) : e = a + extent hdr bs := by
  induction bs generalizing a with
  | nil => exact h.symm
  | cons b bs ih =>
    rw [ih h.2, extent_cons]
    omega

theorem tiles_append : Tiles hdr R a (bs ++ cs) e ↔
      Tiles hdr R a bs (a + extent hdr bs) ∧ Tiles hdr R (a + extent hdr bs) cs e := by
  induction bs generalizing a with
  | nil => exact ⟨fun h => ⟨rfl, h⟩, fun h => h.2⟩
  | cons b bs ih =>
    have hassoc : a + hdr + b.payload + extent hdr bs = a + extent hdr (b :: bs) := by
      rw [extent_cons]
      omega
    rw [cons_append, tiles_cons, tiles_cons, ih, hassoc, and_assoc]

/-- The headers of a tiling can be read anew wherever they still say the same. -/
theorem Tiles.imp (h : Tiles hdr R a bs e)
    (hR : ∀ x b, a ≤ x → x + hdr + b.payload ≤ e → R x b → R' x b) : Tiles hdr R' a bs e := by
  induction bs generalizing a with
  | nil => exact h
  | cons b bs ih =>
    have he := Tiles.end_eq h.2
    refine ⟨hR a b (Nat.le_refl a) (by omega) h.1, ih h.2 fun x c hx => ?_⟩
    exact hR x c (by omega)

/-- A tiling around one block. -/
theorem tiles_mid {pre post : List Block} : Tiles hdr R a (pre ++ b :: post) e ↔
      Tiles hdr R a pre (a + extent hdr pre) ∧ R (a + extent hdr pre) b ∧
        Tiles hdr R (a + extent hdr pre + hdr + b.payload) post e := by
  rw [tiles_append, tiles_cons]

end Tiles

/-! ## Splitting and joining -/

/-- A block of `total` bytes of which `need` are used: the rest is a block of its own when it has
room for a payload of `least` bytes. -/
def carve (least need total : Nat) : List Block :=
  if hdr + least ≤ total - need then [⟨need, false⟩, ⟨total - need - hdr, true⟩]
  else [⟨total, false⟩]

/-- A free payload together with the block behind it, when that is free. -/
def joinNext (p : Nat) : List Block → Nat × List Block
  | ⟨q, true⟩ :: post => (p + hdr + q, post)
  | post => (p, post)

/-- The blocks after the one between `pre` and `post` is freed. -/
def release (pre : List Block) (p : Nat) (post : List Block) : List Block :=
  match pre.getLast? with
  | some ⟨q, true⟩ =>
    pre.dropLast ++ ⟨q + hdr + (joinNext hdr p post).1, true⟩ :: (joinNext hdr p post).2
  | _ => pre ++ ⟨(joinNext hdr p post).1, true⟩ :: (joinNext hdr p post).2

section Join

variable {hdr} {pre post : List Block} {p least need total : Nat}

variable (hdr) in
theorem joinNext_cases (p : Nat) (post : List Block) :
    (∃ q post', post = ⟨q, true⟩ :: post' ∧ joinNext hdr p post = (p + hdr + q, post')) ∨
      joinNext hdr p post = (p, post) ∧ ∀ b, post.head? = some b → b.free = false := by
  match post with
  | [] => exact .inr ⟨rfl, nofun⟩
  | ⟨q, true⟩ :: post => exact .inl ⟨q, post, rfl, rfl⟩
  | ⟨q, false⟩ :: post =>
    refine .inr ⟨rfl, fun b hb => ?_⟩
    cases hb
    rfl

variable (hdr) in
theorem joinNext_allocated (p : Nat) (post : List Block) :
    allocated hdr (joinNext hdr p post).2 = allocated hdr post := by
  rcases joinNext_cases hdr p post with ⟨q, post', rfl, h⟩ | ⟨h, -⟩
  · rw [h]
    simp
  · rw [h]

variable (hdr) in
/-- What the freed payload ends up in front of. -/
theorem joinNext_live (a p : Nat) (post : List Block) :
    live hdr (a + (joinNext hdr p post).1) (joinNext hdr p post).2 = live hdr (a + p) post := by
  rcases joinNext_cases hdr p post with ⟨q, post', rfl, h⟩ | ⟨h, -⟩
  · have hassoc : a + p + hdr + q = a + (p + hdr + q) := by omega
    rw [h, live_cons, if_pos rfl, nil_append, hassoc]
  · rw [h]

variable (hdr) in
theorem release_cases (pre : List Block) (p : Nat) (post : List Block) :
    (∃ pre' q, pre = pre' ++ [⟨q, true⟩] ∧ release hdr pre p post =
      pre' ++ ⟨q + hdr + (joinNext hdr p post).1, true⟩ :: (joinNext hdr p post).2) ∨
    release hdr pre p post = pre ++ ⟨(joinNext hdr p post).1, true⟩ :: (joinNext hdr p post).2 ∧
      ∀ b, pre.getLast? = some b → b.free = false := by
  rcases eq_nil_or_concat' pre with rfl | ⟨pre', ⟨q, _ | _⟩, rfl⟩
  · exact .inr ⟨rfl, nofun⟩
  · refine .inr ⟨by simp [release], fun b hb => ?_⟩
    rw [List.getLast?_concat, Option.some.injEq] at hb
    rw [← hb]
  · exact .inl ⟨pre', q, rfl, by simp [release]⟩

variable (hdr) in
theorem release_allocated (pre : List Block) (p : Nat) (post : List Block) :
    allocated hdr (release hdr pre p post) + (hdr + p) =
      allocated hdr (pre ++ ⟨p, false⟩ :: post) := by
  have hnext := joinNext_allocated hdr p post
  rcases release_cases hdr pre p post with ⟨pre', q, rfl, h⟩ | ⟨h, -⟩
  · rw [h]
    simp
    omega
  · rw [h]
    simp
    omega

/-- Freeing a block takes its payload out of the ones in use and no other. -/
theorem release_live (a : Nat) (pre : List Block) (p : Nat) (post : List Block) :
    live hdr a (release hdr pre p post) =
      live hdr a pre ++ live hdr (a + extent hdr pre + hdr + p) post := by
  rcases release_cases hdr pre p post with ⟨pre', q, rfl, h⟩ | ⟨h, -⟩
  · rw [h, live_append, live_append, live_cons, if_pos rfl, nil_append, live_cons, if_pos rfl,
      nil_append, live_nil, append_nil, extent_append]
    have hnext := joinNext_live hdr (a + extent hdr pre' + (hdr + q) + hdr) p post
    simp only [extent_cons, extent_nil, Nat.add_zero]
    rw [← Nat.add_assoc a, ← hnext]
    congr 2
    omega
  · rw [h, live_append, live_cons, if_pos rfl, nil_append, joinNext_live]

theorem coalesced_mid {b : Block} : Coalesced (pre ++ b :: post) ↔
    Coalesced pre ∧ Coalesced (b :: post) ∧
      ∀ c, pre.getLast? = some c → c.free = false ∨ b.free = false := by
  unfold Coalesced
  rw [isChain_append]
  simp only [List.head?_cons, Option.mem_def, Option.some.injEq]
  refine and_congr_right fun _ => and_congr_right fun _ => ?_
  exact ⟨fun h c hc => h c hc b rfl, fun h c hc d hd => hd ▸ h c hc⟩

theorem coalesced_cons {b : Block} {bs : List Block} : Coalesced (b :: bs) ↔
    Coalesced bs ∧ ∀ c, bs.head? = some c → b.free = false ∨ c.free = false := by
  unfold Coalesced
  rw [isChain_cons]
  exact and_comm

variable (hdr) in
theorem joinNext_coalesced (p : Nat) (h : Coalesced post) :
    Coalesced (⟨(joinNext hdr p post).1, true⟩ :: (joinNext hdr p post).2) := by
  rcases joinNext_cases hdr p post with ⟨q, post', rfl, -⟩ | ⟨heq, hhead⟩
  · obtain ⟨hpost, hnext⟩ := coalesced_cons.mp h
    exact coalesced_cons.mpr ⟨hpost, fun c hc => hnext c hc⟩
  · rw [heq]
    exact coalesced_cons.mpr ⟨h, fun c hc => .inr (hhead c hc)⟩

theorem release_coalesced (h : Coalesced (pre ++ ⟨p, false⟩ :: post)) :
    Coalesced (release hdr pre p post) := by
  obtain ⟨hpre, hmid, -⟩ := coalesced_mid.mp h
  have hjoin := joinNext_coalesced hdr p (coalesced_cons.mp hmid).1
  rcases release_cases hdr pre p post with ⟨pre', q, rfl, heq⟩ | ⟨heq, hlast⟩
  · rw [heq]
    obtain ⟨hpre', -, hbefore⟩ := coalesced_mid.mp hpre
    refine coalesced_mid.mpr ⟨hpre', ?_, fun c hc => hbefore c hc⟩
    exact coalesced_cons.mpr ⟨(coalesced_cons.mp hjoin).1, (coalesced_cons.mp hjoin).2⟩
  · rw [heq]
    exact coalesced_mid.mpr ⟨hpre, hjoin, fun c hc => .inl (hlast c hc)⟩

variable (hdr least) in
theorem carve_extent (h : need ≤ total) :
    extent hdr (carve hdr least need total) = hdr + total := by
  unfold carve
  split
  · simp only [extent_cons, extent_nil]
    omega
  · simp

variable (hdr) in
/-- The payload in use at the front of what was carved. -/
theorem carve_cases (least need total : Nat) (h : need ≤ total) :
    ∃ l rest, carve hdr least need total = ⟨l, false⟩ :: rest ∧ need ≤ l ∧
      (∀ a, live hdr a rest = []) ∧ allocated hdr rest = 0 ∧
      (rest = [] ∨ rest = [⟨total - need - hdr, true⟩]) := by
  unfold carve
  split
  · exact ⟨need, [⟨total - need - hdr, true⟩], rfl, Nat.le_refl _, fun _ => rfl, rfl, .inr rfl⟩
  · exact ⟨total, [], rfl, h, fun _ => rfl, rfl, .inl rfl⟩

/-- A free block may be replaced by what is carved from it. -/
theorem carve_coalesced (hneed : need ≤ total) (hpre : Coalesced pre) (hpost : Coalesced post)
    (hnext : ∀ c, post.head? = some c → c.free = false) :
    Coalesced (pre ++ carve hdr least need total ++ post) := by
  obtain ⟨l, rest, heq, -, -, -, hrest⟩ := carve_cases hdr least need total hneed
  rw [heq, append_assoc]
  refine coalesced_mid.mpr ⟨hpre, coalesced_cons.mpr ⟨?_, fun c _ => .inl rfl⟩, fun c _ => .inr rfl⟩
  rcases hrest with rfl | rfl
  · exact hpost
  · exact coalesced_cons.mpr ⟨hpost, fun c hc => .inr (hnext c hc)⟩

end Join

end BlockList
