import Lxp.Family.Kin

/-!
# The ways a family changes

A step of the coordinator or of a guest leaves the family alone, queues a stop notice, adds a thread
or a child, or removes a task.  The last task of a group takes the group with it, and then its end
is reported to a living parent.
-/

open Function RefPool List

namespace Lxp

variable {C : Config}
variable {admits : Group → Prop}

/-! ## Changes -/

/-- The fields of a group record that identify it and count its children. -/
structure Group.Keeps (x x' : Group) : Prop where
  tgid : x'.tgid = x.tgid
  ppid : x'.ppid = x.ppid
  liveChildren : x'.liveChildren = x.liveChildren

theorem Group.Keeps.refl (x : Group) : x.Keeps x := ⟨rfl, rfl, rfl⟩

/-- The same tasks in the same groups, whose records keep what identifies them. -/
structure Steady (k k' : Kin C) : Prop where
  alive : k'.alive = k.alive
  group : k'.group = k.group
  nextPid : k'.nextPid = k.nextPid
  counted : Counted k'.groups k.group []
  vals : ∀ t g, k.group t = some g → (k.groups.val g).Keeps (k'.groups.val g)

/-- What the publication of a termination does to the parent's record and to the log. -/
inductive Delivery (C : Config) (x : Group) (log : Log) (ppid : Nat) (r : ChildRec) :
    Group → Log → Prop where
  | handed : Delivery C x log ppid r { x with liveChildren := x.liveChildren - 1 }
      { log with reaped := (ppid, r.pid) :: log.reaped }
  | queued : x.children.length < C.maxChild →
      Delivery C x log ppid r
        { x with liveChildren := x.liveChildren - 1, children := x.children ++ [r] }
        { log with reaped := (ppid, r.pid) :: log.reaped }
  | dropped : C.maxChild ≤ x.children.length →
      Delivery C x log ppid r { x with liveChildren := x.liveChildren - 1 }
        { log with
          reaped := (ppid, r.pid) :: log.reaped
          dropped := (ppid, r.pid) :: log.dropped }

section Delivery

variable {x x' : Group} {log log' : Log} {ppid : Nat} {r : ChildRec}

section

variable (h : Delivery C x log ppid r x' log')
include h

theorem Delivery.counted : log'.counted = log.counted := by cases h <;> rfl

theorem Delivery.reaped : log'.reaped = (ppid, r.pid) :: log.reaped := by
  cases h <;> rfl

theorem Delivery.record :
    x'.tgid = x.tgid ∧ x'.ppid = x.ppid ∧ x'.liveChildren = x.liveChildren - 1 := by
  cases h <;> exact ⟨rfl, rfl, rfl⟩

end

end Delivery

/-- The slot's task goes; the records of the groups that still have tasks are changed by `f`
only. -/
structure Leaves (k : Kin C) (s : C.Slot) (f : Obj C → Group → Group) (k' : Kin C) :
    Prop where
  alive : k'.alive = update k.alive s false
  group : k'.group = update k.group s none
  nextPid : k'.nextPid = k.nextPid
  counted : Counted k'.groups k'.group []
  vals : ∀ t g, t ≠ s → k.group t = some g → k'.groups.val g = f g (k.groups.val g)

/-- A task joins in a free slot. -/
structure Joins (k : Kin C) (c : C.Slot) (g : Obj C) (f : Obj C → Group → Group)
    (k' : Kin C) : Prop where
  free : k.group c = none
  alive : k'.alive = update k.alive c true
  group : k'.group = update k.group c (some g)
  nextPid : k'.nextPid = k.nextPid + 1
  counted : Counted k'.groups k'.group []
  vals : ∀ t h, k.group t = some h → k'.groups.val h = f h (k.groups.val h)

def onGroup (g : Obj C) (x' : Group) : Obj C → Group → Group := fun h x => if h = g then x' else x

def oneMore (g : Obj C) : Obj C → Group → Group :=
  fun h x => if h = g then { x with liveChildren := x.liveChildren + 1 } else x

def unchanged : Obj C → Group → Group := fun _ x => x

def Kin.setGroup (k : Kin C) (g : Obj C) (x : Group) : Kin C :=
  { k with groups := k.groups.set g x }

theorem Kin.setGroup_val (k : Kin C) (g i : Obj C) (x : Group) :
    (k.setGroup g x).groups.val i = onGroup g x i (k.groups.val i) := by
  show update k.groups.val g x i = if i = g then x else k.groups.val i
  rw [update_apply]

def Kin.enqueue (k : Kin C) (g : Obj C) (r : ChildRec) : Kin C :=
  k.setGroup g { k.groups.val g with children := (k.groups.val g).children ++ [r] }

-- `admits` limits the groups that take a stop notice.
inductive FamilyStep (admits : Group → Prop) : Kin C → Log → Kin C → Log → Prop where
  | steady {k k' : Kin C} {log : Log} : Steady k k' → (∀ t g, k.group t = some g →
      (k'.groups.val g).children.length ≤ (k.groups.val g).children.length) →
      FamilyStep admits k log k' log
  | stop {k : Kin C} {log : Log} {p : C.Slot} {g : Obj C} {r : ChildRec} :
      k.group p = some g → admits (k.groups.val g) → (k.groups.val g).children.length < C.maxChild →
      FamilyStep admits k log (k.enqueue g r) log
  | thread {k k' : Kin C} {log : Log} {p c : C.Slot} {g : Obj C} :
      k.group p = some g → Joins k c g unchanged k' → FamilyStep admits k log k' log
  | child {k k' : Kin C} {log : Log} {p c : C.Slot} {g g' : Obj C} {pgid : Nat} :
      k.group p = some g →
      (k.groups.val g).children.length + (k.groups.val g).liveChildren < C.maxChild →
      Joins k c g' (oneMore g) k' →
      k'.groups.val g' = { tgid := k.nextPid, ppid := (k.groups.val g).tgid, pgid := pgid } →
      FamilyStep admits k log k'
        { log with counted := ((k.groups.val g).tgid, k.nextPid) :: log.counted }
  | peer {k k' : Kin C} {log : Log} {s t : C.Slot} {g : Obj C} :
      t ≠ s → k.group s = some g → k.group t = some g →
      Leaves k s unchanged k' → FamilyStep admits k log k' log
  | last {k k' : Kin C} {log : Log} {s : C.Slot} {g : Obj C} :
      k.group s = some g → (∀ t, t ≠ s → k.group t ≠ some g) →
      ((k.groups.val g).tgid = 1 ∨ ¬ k.lives (k.groups.val g).ppid) →
      Leaves k s unchanged k' → FamilyStep admits k log k' log
  | report {k k' : Kin C} {log log' : Log} {s p : C.Slot} {g gp : Obj C} {r : ChildRec}
      {x' : Group} :
      k.group s = some g → (∀ t, t ≠ s → k.group t ≠ some g) →
      k.group p = some gp → (k.groups.val gp).tgid = (k.groups.val g).ppid →
      r.pid = (k.groups.val g).tgid → r.kind = .exited →
      Delivery C (k.groups.val gp) log (k.groups.val g).ppid r x' log' →
      Leaves k s (onGroup gp x') k' → FamilyStep admits k log k' log'

/-! ## Each change keeps the invariant -/

variable {k k' : Kin C} {log log' : Log}

namespace Family

theorem steady (h : Family k log) (hk : Steady k k') : Family k' log := by
  have hlives : ∀ id, k'.lives id ↔ k.lives id := by
    intro id
    simp only [Kin.lives, hk.group]
    constructor
    · rintro ⟨t, g, ht, hid⟩
      exact ⟨t, g, ht, by rw [← (hk.vals t g ht).tgid]; exact hid⟩
    · rintro ⟨t, g, ht, hid⟩
      exact ⟨t, g, ht, by rw [(hk.vals t g ht).tgid]; exact hid⟩
  refine
    { counted := by rw [hk.group]; exact hk.counted
      member := fun t => by rw [hk.alive, hk.group]; exact h.member t
      unique := fun {s t g j} hs ht hid => ?_
      ids := fun {t g} ht => ?_
      live := fun {t g} ht => ?_
      known := fun {t g} ht hid => ?_
      silent := fun {t g} ht => ?_
      entries := by rw [hk.nextPid]; exact h.entries
      distinct := h.distinct
      once := h.once
      reported := h.reported
      awaited := fun e he hno hparent =>
        (hlives _).mpr (h.awaited e he hno ((hlives _).mp hparent)) }
  all_goals rw [hk.group] at *
  · rw [(hk.vals s g hs).tgid, (hk.vals t j ht).tgid] at hid
    exact h.unique hs ht hid
  · rw [(hk.vals t g ht).ppid, (hk.vals t g ht).tgid, hk.nextPid]
    exact h.ids ht
  · rw [(hk.vals t g ht).liveChildren, (hk.vals t g ht).tgid]
    exact h.live ht
  · rw [(hk.vals t g ht).tgid] at hid
    rw [(hk.vals t g ht).ppid, (hk.vals t g ht).tgid]
    exact h.known ht hid
  · rw [(hk.vals t g ht).ppid, (hk.vals t g ht).tgid]
    exact h.silent ht

theorem steady_set (h : Family k log) {g : Obj C} {x : Group} (hx : (k.groups.val g).Keeps x) :
    Steady k (k.setGroup g x) := by
  refine ⟨rfl, rfl, rfl, h.counted.set g x, fun t j _ => ?_⟩
  show (k.groups.val j).Keeps (update k.groups.val g x j)
  by_cases hjg : j = g
  · subst hjg
    rw [update_self]
    exact hx
  · rw [update_of_ne hjg]
    exact Group.Keeps.refl _

/-- No group is new and no record changed; what has to be shown is that the children that are still
awaited are there. -/
theorem of_held (h : Family k log) (hcounted : Counted k'.groups k'.group [])
    (hmember : ∀ t, k'.alive t = (k'.group t).isSome) (hpid : k.nextPid ≤ k'.nextPid)
    (hheld : ∀ t g, k'.group t = some g → ∃ s, k.group s = some g ∧
      k'.groups.val g = k.groups.val g)
    (hawaited : ∀ e ∈ log.counted, e ∉ log.reaped → k'.lives e.1 → k'.lives e.2) :
    Family k' log where
  counted := hcounted
  member := hmember
  unique := by
    intro s t g j hs ht hid
    obtain ⟨s', hs', hg⟩ := hheld s g hs
    obtain ⟨t', ht', hj⟩ := hheld t j ht
    rw [hg, hj] at hid
    exact h.unique hs' ht' hid
  ids := by
    intro t g ht
    obtain ⟨s, hs, hg⟩ := hheld t g ht
    rw [hg]
    exact ⟨(h.ids hs).1, lt_of_lt_of_le (h.ids hs).2 hpid⟩
  live := by
    intro t g ht
    obtain ⟨s, hs, hg⟩ := hheld t g ht
    rw [hg]
    exact h.live hs
  known := by
    intro t g ht hid
    obtain ⟨s, hs, hg⟩ := hheld t g ht
    rw [hg] at hid ⊢
    exact h.known hs hid
  silent := by
    intro t g ht
    obtain ⟨s, hs, hg⟩ := hheld t g ht
    rw [hg]
    exact h.silent hs
  entries := fun e he => ⟨(h.entries e he).1, (h.entries e he).2.1,
    lt_of_lt_of_le (h.entries e he).2.2 hpid⟩
  distinct := h.distinct
  once := h.once
  reported := h.reported
  awaited := hawaited

theorem awaited_of_lives (h : Family k log) (hlives : ∀ id, k'.lives id ↔ k.lives id) :
    ∀ e ∈ log.counted, e ∉ log.reaped → k'.lives e.1 → k'.lives e.2 :=
  fun e he hno hparent => (hlives _).mpr (h.awaited e he hno ((hlives _).mp hparent))

end Family

/-! ### Joining -/

namespace Joins

variable {c : C.Slot} {g : Obj C} {f : Obj C → Group → Group}

section

variable (hj : Joins k c g f k')
include hj

theorem member (h : Family k log) (t : C.Slot) : k'.alive t = (k'.group t).isSome := by
  rw [hj.alive, hj.group]
  by_cases htc : t = c
  · subst htc
    rw [update_self, update_self]
    rfl
  · rw [update_of_ne htc, update_of_ne htc]
    exact h.member t

theorem cases {t : C.Slot} {i : Obj C} (ht : k'.group t = some i) : i = g ∨ k.group t = some i := by
  rw [hj.group] at ht
  by_cases htc : t = c
  · subst htc
    rw [update_self] at ht
    exact .inl (Option.some.inj ht).symm
  · rw [update_of_ne htc] at ht
    exact .inr ht

theorem kept {t : C.Slot} {i : Obj C} (ht : k.group t = some i) : k'.group t = some i := by
  have htc : t ≠ c := by
    rintro rfl
    rw [hj.free] at ht
    cases ht
  rw [hj.group, update_of_ne htc]
  exact ht

theorem self : k'.group c = some g := by
  rw [hj.group, update_self]

end

end Joins

variable {p s : C.Slot} {g : Obj C} {rt rt' : Runtime C}

theorem Family.thread (h : Family k log) {c : C.Slot} (hp : k.group p = some g)
    (hj : Joins k c g unchanged k') : Family k' log := by
  have hheld : ∀ t i, k'.group t = some i → ∃ s, k.group s = some i ∧
      k'.groups.val i = k.groups.val i := by
    intro t i ht
    rcases hj.cases ht with rfl | ht
    · exact ⟨p, hp, hj.vals p i hp⟩
    · exact ⟨t, ht, hj.vals t i ht⟩
  refine h.of_held hj.counted (hj.member h) (by rw [hj.nextPid]; omega) hheld
    (h.awaited_of_lives fun id => ⟨?_, ?_⟩)
  · rintro ⟨t, i, ht, hid⟩
    obtain ⟨s, hs, hval⟩ := hheld t i ht
    exact ⟨s, i, hs, by rw [← hval]; exact hid⟩
  · rintro ⟨t, i, ht, hid⟩
    exact ⟨t, i, hj.kept ht, by rw [hj.vals t i ht]; exact hid⟩

theorem oneMore_ids (g i : Obj C) (x : Group) :
    (oneMore g i x).tgid = x.tgid ∧ (oneMore g i x).ppid = x.ppid := by
  unfold oneMore
  split <;> exact ⟨rfl, rfl⟩

theorem Log.unreported_count {e : Nat × Nat} (he : e ∉ log.reaped) (id : Nat) :
    Log.unreported { log with counted := e :: log.counted } id =
      if e.1 = id then e :: log.unreported id else log.unreported id := by
  by_cases hid : e.1 = id <;> simp [Log.unreported, he, hid]

theorem Family.unreported_next (h : Family k log) : log.unreported k.nextPid = [] := by
  refine filter_eq_nil_iff.mpr fun e he => ?_
  have := h.entries e he
  simp only [Bool.and_eq_true, beq_iff_eq]
  omega

theorem Family.next_fresh (h : Family k log) (id : Nat) : (id, k.nextPid) ∉ log.reaped := by
  intro hin
  have := (h.entries _ (h.reported _ hin)).2.2
  exact absurd this (lt_irrefl _)

theorem Family.child (h : Family k log) {c : C.Slot} {g' : Obj C} {pgid : Nat}
    (hp : k.group p = some g) (hj : Joins k c g' (oneMore g) k')
    (hval : k'.groups.val g' = { tgid := k.nextPid, ppid := (k.groups.val g).tgid, pgid := pgid }) :
    Family k' { log with counted := ((k.groups.val g).tgid, k.nextPid) :: log.counted } := by
  have hparent := h.ids hp
  -- A group of the new state is the child's own, or an old one with its ids.
  have hheld : ∀ {t i}, k'.group t = some i → (i = g' ∧ k'.groups.val i =
        { tgid := k.nextPid, ppid := (k.groups.val g).tgid, pgid := pgid }) ∨
      (k.group t = some i ∧ k'.groups.val i = oneMore g i (k.groups.val i)) := by
    intro t i ht
    rcases hj.cases ht with rfl | ht
    · exact .inl ⟨rfl, hval⟩
    · exact .inr ⟨ht, hj.vals t i ht⟩
  have hold : ∀ {t i}, k.group t = some i → (k.groups.val i).tgid ≠ k.nextPid := by
    intro t i ht
    exact (h.ids ht).2.ne
  refine
    { counted := hj.counted
      member := hj.member h
      unique := ?_
      ids := ?_
      live := ?_
      known := ?_
      silent := ?_
      entries := ?_
      distinct := ?_
      once := h.once
      reported := fun e he => mem_cons_of_mem _ (h.reported e he)
      awaited := ?_ }
  · intro s t i j hs ht hid
    rcases hheld hs with ⟨rfl, hi⟩ | ⟨hs', hi⟩ <;> rcases hheld ht with ⟨rfl, hj'⟩ | ⟨ht', hj'⟩
    · rfl
    · rw [hi, hj', (oneMore_ids g j _).1] at hid
      exact absurd hid.symm (hold ht')
    · rw [hi, hj', (oneMore_ids g i _).1] at hid
      exact absurd hid (hold hs')
    · rw [hi, hj', (oneMore_ids g i _).1, (oneMore_ids g j _).1] at hid
      exact h.unique hs' ht' hid
  · intro t i ht
    rw [hj.nextPid]
    rcases hheld ht with ⟨_, hi⟩ | ⟨ht', hi⟩
    · rw [hi]
      exact ⟨hparent.2, Nat.lt_succ_self _⟩
    · have := h.ids ht'
      rw [hi, (oneMore_ids g i _).1, (oneMore_ids g i _).2]
      omega
  · intro t i ht
    rw [Log.unreported_count (h.next_fresh _)]
    rcases hheld ht with ⟨_, hi⟩ | ⟨ht', hi⟩
    · rw [hi, if_neg hparent.2.ne, h.unreported_next]
      rfl
    rw [hi, (oneMore_ids g i _).1]
    by_cases hig : i = g
    · subst hig
      rw [if_pos rfl, length_cons, ← h.live ht', oneMore, if_pos rfl]
    · rw [if_neg fun hid => hig (h.unique ht' hp hid.symm), ← h.live ht', oneMore, if_neg hig]
  · intro t i ht hid
    rcases hheld ht with ⟨_, hi⟩ | ⟨ht', hi⟩
    · rw [hi]
      exact mem_cons_self
    · rw [hi, (oneMore_ids g i _).1] at hid
      rw [hi, (oneMore_ids g i _).1, (oneMore_ids g i _).2]
      exact mem_cons_of_mem _ (h.known ht' hid)
  · intro t i ht
    rcases hheld ht with ⟨_, hi⟩ | ⟨ht', hi⟩
    · rw [hi]
      exact h.next_fresh _
    · rw [hi, (oneMore_ids g i _).1, (oneMore_ids g i _).2]
      exact h.silent ht'
  · intro e he
    rw [hj.nextPid]
    rcases mem_cons.mp he with rfl | he
    · exact ⟨by dsimp only; omega, hparent.2, Nat.lt_succ_self _⟩
    · have := h.entries e he
      omega
  · refine nodup_cons.mpr ⟨fun hin => ?_, h.distinct⟩
    obtain ⟨e, he, hid⟩ := mem_map.mp hin
    have hlt := (h.entries e he).2.2
    omega
  · intro e he hno hlives
    rcases mem_cons.mp he with rfl | he
    · exact ⟨c, g', hj.self, by rw [hval]⟩
    have hlt := h.entries e he
    have hparent' : k.lives e.1 := by
      obtain ⟨t, i, ht, hid⟩ := hlives
      rcases hheld ht with ⟨_, hi⟩ | ⟨ht', hi⟩
      · rw [hi] at hid
        dsimp only at hid
        omega
      · rw [hi, (oneMore_ids g i _).1] at hid
        exact ⟨t, i, ht', hid⟩
    obtain ⟨t, i, ht, hid⟩ := h.awaited e he hno hparent'
    refine ⟨t, i, hj.kept ht, ?_⟩
    rw [hj.vals t i ht, (oneMore_ids g i _).1]
    exact hid

/-! ### Leaving -/

namespace Leaves

variable {f : Obj C → Group → Group}

theorem member (hl : Leaves k s f k') (h : Family k log) (t : C.Slot) :
    k'.alive t = (k'.group t).isSome := by
  rw [hl.alive, hl.group]
  by_cases hts : t = s
  · subst hts
    rw [update_self, update_self]
    rfl
  · rw [update_of_ne hts, update_of_ne hts]
    exact h.member t

theorem cases (hl : Leaves k s f k') {t : C.Slot} {i : Obj C} (ht : k'.group t = some i) :
    t ≠ s ∧ k.group t = some i ∧ k'.groups.val i = f i (k.groups.val i) := by
  rw [hl.group] at ht
  by_cases hts : t = s
  · subst hts
    rw [update_self] at ht
    cases ht
  · rw [update_of_ne hts] at ht
    exact ⟨hts, ht, hl.vals t i hts ht⟩

theorem kept (hl : Leaves k s f k') {t : C.Slot} {i : Obj C} (hts : t ≠ s)
    (ht : k.group t = some i) : k'.group t = some i := by
  rw [hl.group, update_of_ne hts]
  exact ht

end Leaves

theorem Family.peer (h : Family k log) (hps : p ≠ s) (hs : k.group s = some g)
    (hp : k.group p = some g) (hl : Leaves k s unchanged k') : Family k' log := by
  refine h.of_held hl.counted (hl.member h) hl.nextPid.ge (fun t i ht => ?_)
    (h.awaited_of_lives fun id => ⟨?_, ?_⟩)
  · obtain ⟨_, ht', hval⟩ := hl.cases ht
    exact ⟨t, ht', hval⟩
  · rintro ⟨t, i, ht, hid⟩
    obtain ⟨_, ht', hval⟩ := hl.cases ht
    exact ⟨t, i, ht', by rw [hval] at hid; exact hid⟩
  rintro ⟨t, i, ht, hid⟩
  by_cases hts : t = s
  · subst hts
    obtain rfl : g = i := Option.some.inj (hs.symm.trans ht)
    exact ⟨p, g, hl.kept hps hp, by rw [hl.vals p g hps hp]; exact hid⟩
  · exact ⟨t, i, hl.kept hts ht, by rw [hl.vals t i hts ht]; exact hid⟩

/-- The last task of a group whose end nobody is to hear of. -/
theorem Family.last (h : Family k log) (hs : k.group s = some g)
    (horphan : (k.groups.val g).tgid = 1 ∨ ¬ k.lives (k.groups.val g).ppid)
    (hl : Leaves k s unchanged k') : Family k' log := by
  refine h.of_held hl.counted (hl.member h) hl.nextPid.ge
    (fun t i ht => ?_) fun e he hno hlives => ?_
  · obtain ⟨_, ht', hval⟩ := hl.cases ht
    exact ⟨t, ht', hval⟩
  have hparent : k.lives e.1 := by
    obtain ⟨t, i, ht, hid⟩ := hlives
    obtain ⟨_, ht', hval⟩ := hl.cases ht
    exact ⟨t, i, ht', by rw [hval] at hid; exact hid⟩
  obtain ⟨t, i, ht, hid⟩ := h.awaited e he hno hparent
  by_cases hts : t = s
  · subst hts
    obtain rfl : g = i := Option.some.inj (hs.symm.trans ht)
    rcases horphan with hinit | hdead
    · have := (h.entries e he).1
      omega
    · rw [h.entry_of hs he hid] at hparent
      exact absurd hparent hdead
  · exact ⟨t, i, hl.kept hts ht, by rw [hl.vals t i hts ht]; exact hid⟩

theorem Log.unreported_reap {e : Nat × Nat} (hreaped : log'.reaped = e :: log.reaped)
    (hcounted : log'.counted = log.counted) (id : Nat) :
    log'.unreported id = (log.unreported id).filter fun x => x ≠ e := by
  simp only [Log.unreported, hreaped, hcounted, filter_filter]
  refine filter_congr fun x _ => ?_
  by_cases hx : x = e <;> simp [hx]

theorem length_filter_ne {α : Type} [DecidableEq α] {l : List α} {a : α} (hl : l.Nodup)
    (ha : a ∈ l) : (l.filter fun x => x ≠ a).length = l.length - 1 := by
  have hfilter : (l.filter fun x => x ≠ a) = l.erase a := by
    rw [hl.erase_eq_filter]
    refine filter_congr fun x _ => ?_
    by_cases hx : x = a <;> simp [hx]
  rw [hfilter, length_erase_of_mem ha]

theorem Family.unreported_nodup (h : Family k log) (id : Nat) : (log.unreported id).Nodup :=
  (List.Nodup.of_map _ h.distinct).filter _

/-- The last task of a group whose parent hears of its end. -/
theorem Family.report (h : Family k log) {gp : Obj C} {r : ChildRec} {x' : Group}
    (hs : k.group s = some g) (hlast : ∀ t, t ≠ s → k.group t ≠ some g) (hp : k.group p = some gp)
    (hppid : (k.groups.val gp).tgid = (k.groups.val g).ppid) (hpid : r.pid = (k.groups.val g).tgid)
    (hd : Delivery C (k.groups.val gp) log (k.groups.val g).ppid r x' log')
    (hl : Leaves k s (onGroup gp x') k') : Family k' log' := by
  have hids := h.ids hs
  have hpids := h.ids hp
  obtain ⟨htgid, hpp, hlive⟩ := hd.record
  have hreaped := hd.reaped
  rw [hpid] at hreaped
  have hentry := h.known hs (by omega)
  -- A remaining group keeps its ids; only the parent's count changes.
  have hheld : ∀ {t i}, k'.group t = some i → t ≠ s ∧ k.group t = some i ∧
      k'.groups.val i = onGroup gp x' i (k.groups.val i) ∧
      (k'.groups.val i).tgid = (k.groups.val i).tgid ∧
      (k'.groups.val i).ppid = (k.groups.val i).ppid := by
    intro t i ht
    obtain ⟨hts, ht', hval⟩ := hl.cases ht
    refine ⟨hts, ht', hval, ?_⟩
    rw [hval, onGroup]
    split
    · rename_i hi
      rw [hi]
      exact ⟨htgid, hpp⟩
    · exact ⟨rfl, rfl⟩
  have hother : ∀ {t i}, t ≠ s → k.group t = some i →
      (k.groups.val i).tgid ≠ (k.groups.val g).tgid := by
    intro t i hts ht hid
    exact hlast t hts (by rw [ht, h.unique ht hs hid])
  refine
    { counted := hl.counted
      member := hl.member h
      unique := ?_
      ids := ?_
      live := ?_
      known := ?_
      silent := ?_
      entries := by rw [hl.nextPid, hd.counted]; exact h.entries
      distinct := by rw [hd.counted]; exact h.distinct
      once := ?_
      reported := ?_
      awaited := ?_ }
  · intro u t i j hu ht hid
    obtain ⟨_, hu', _, hi, _⟩ := hheld hu
    obtain ⟨_, ht', _, hj, _⟩ := hheld ht
    rw [hi, hj] at hid
    exact h.unique hu' ht' hid
  · intro t i ht
    obtain ⟨_, ht', _, hi, hi'⟩ := hheld ht
    rw [hi, hi', hl.nextPid]
    exact h.ids ht'
  · intro t i ht
    obtain ⟨_, ht', hval, hi, _⟩ := hheld ht
    rw [hi, Log.unreported_reap hreaped hd.counted]
    by_cases higp : i = gp
    · subst higp
      have hmem : ((k.groups.val g).ppid, (k.groups.val g).tgid) ∈
          log.unreported (k.groups.val i).tgid :=
        Log.mem_unreported.mpr ⟨hentry, hppid.symm, h.silent hs⟩
      rw [length_filter_ne (h.unreported_nodup _) hmem, ← h.live ht', hval, onGroup, if_pos rfl,
        hlive]
    have hid : (k.groups.val i).tgid ≠ (k.groups.val g).ppid := by
      rw [← hppid]
      exact fun hid => higp (h.unique ht' hp hid)
    have hnone : ((log.unreported (k.groups.val i).tgid).filter fun x =>
        x ≠ ((k.groups.val g).ppid, (k.groups.val g).tgid)) =
        log.unreported (k.groups.val i).tgid := by
      refine filter_eq_self.mpr fun e he => ?_
      have hfst := (Log.mem_unreported.mp he).2.1
      simp only [decide_eq_true_eq]
      rintro rfl
      exact hid hfst.symm
    rw [hnone, ← h.live ht', hval, onGroup, if_neg higp]
  · intro t i ht hid
    obtain ⟨_, ht', _, hi, hi'⟩ := hheld ht
    rw [hi] at hid
    rw [hi, hi', hd.counted]
    exact h.known ht' hid
  · intro t i ht
    obtain ⟨hts, ht', _, hi, hi'⟩ := hheld ht
    rw [hi, hi', hreaped]
    rw [mem_cons, not_or]
    refine ⟨fun heq => ?_, h.silent ht'⟩
    exact hother hts ht' (Prod.mk.inj heq).2
  · rw [hreaped]
    exact nodup_cons.mpr ⟨h.silent hs, h.once⟩
  · intro e he
    rw [hreaped] at he
    rw [hd.counted]
    rcases mem_cons.mp he with rfl | he
    · exact hentry
    · exact h.reported e he
  · intro e he hno hlives
    rw [hd.counted] at he
    rw [hreaped, mem_cons, not_or] at hno
    obtain ⟨hne, hno⟩ := hno
    have hparent : k.lives e.1 := by
      obtain ⟨t, i, ht, hid⟩ := hlives
      obtain ⟨_, ht', _, hi, _⟩ := hheld ht
      exact ⟨t, i, ht', by rw [← hi]; exact hid⟩
    obtain ⟨t, i, ht, hid⟩ := h.awaited e he hno hparent
    by_cases hts : t = s
    · subst hts
      obtain rfl : g = i := Option.some.inj (hs.symm.trans ht)
      exact absurd (h.entry_of hs he hid) hne
    · refine ⟨t, i, hl.kept hts ht, ?_⟩
      obtain ⟨_, _, _, hi, _⟩ := hheld (hl.kept hts ht)
      rw [hi]
      exact hid

/-- Every change of a family keeps its accounting. -/
theorem FamilyStep.family (hstep : FamilyStep admits k log k' log') (h : Family k log) :
    Family k' log' := by
  cases hstep with
  | steady hk _ => exact h.steady hk
  | stop hp _ _ => exact h.steady (h.steady_set ⟨rfl, rfl, rfl⟩)
  | thread hp hj => exact h.thread hp hj
  | child hp _ hj hval => exact h.child hp hj hval
  | peer hps hs hp hl => exact h.peer hps hs hp hl
  | last hs _ horphan hl => exact h.last hs horphan hl
  | report hs hlast hp hppid hpid _ hd hl => exact h.report hs hlast hp hppid hpid hd hl

theorem Family.set_step (h : Family k log) {x : Group} (hx : (k.groups.val g).Keeps x)
    (hlen : x.children.length ≤ (k.groups.val g).children.length) :
    FamilyStep admits k log (k.setGroup g x) log := by
  refine .steady (h.steady_set hx) fun t i _ => ?_
  rw [Kin.setGroup_val, onGroup]
  split
  · rename_i hi
    rw [hi]
    exact hlen
  · exact le_rfl

/-! ## Runs of changes -/

def FamilyRun (admits : Group → Prop) (rt rt' : Runtime C) : Prop :=
  Relation.ReflTransGen (fun a b : Kin C × Log => FamilyStep admits a.1 a.2 b.1 b.2)
    (rt.own.kin, rt.log) (rt'.own.kin, rt'.log)

theorem FamilyRun.trans {rt'' : Runtime C} (h : FamilyRun admits rt rt')
    (h' : FamilyRun admits rt' rt'') : FamilyRun admits rt rt'' :=
  Relation.ReflTransGen.trans h h'

theorem FamilyRun.of_step
    (h : FamilyStep admits rt.own.kin rt.log rt'.own.kin rt'.log) : FamilyRun admits rt rt' :=
  Relation.ReflTransGen.single h

/-- What every change keeps, a run of changes keeps. -/
theorem FamilyRun.invariant (Inv : Kin C → Log → Prop)
    (hstep : ∀ k log k' log', FamilyStep admits k log k' log' → Inv k log → Inv k' log')
    (h : FamilyRun admits rt rt') (hinv : Inv rt.own.kin rt.log) : Inv rt'.own.kin rt'.log := by
  refine Relation.ReflTransGen.head_induction_on (motive := fun a _ => Inv a.1 a.2 →
    Inv rt'.own.kin rt'.log) h (fun hend => hend) (fun hab _ ih ha => ?_) hinv
  exact ih (hstep _ _ _ _ hab ha)

theorem FamilyRun.family (h : FamilyRun admits rt rt')
    (hfamily : Family rt.own.kin rt.log) : Family rt'.own.kin rt'.log :=
  FamilyRun.invariant Family (fun _ _ _ _ hstep => hstep.family) h hfamily

end Lxp
