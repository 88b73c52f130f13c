import Mathlib.Logic.Function.Basic

/-!
# Pools whose entries have one owner each

`Owned lost used names` says that nobody names a free pool entry, that an entry has one name at most
and, unless entries may be `lost`, that an entry in use has one.  It is kept by what can happen to
an entry: it is taken from the pool, it goes back, or it changes hands.
-/

namespace Ownership

variable {N S : Type*}

structure Owned (lost : Prop) (used : S → Bool) (names : N → Option S) : Prop where
  inj : ∀ {n m s}, names n = some s → names m = some s → n = m
  live : ∀ {n s}, names n = some s → used s = true
  named : ∀ {s}, used s = true → (∃ n, names n = some s) ∨ lost

variable {lost : Prop} {used used' : S → Bool} {names names' : N → Option S}

theorem Owned.congr (h : Owned lost used names) (hused : ∀ s, used' s = used s)
    (hnames : ∀ n, names' n = names n) : Owned lost used' names' where
  inj hn hm := by
    rw [hnames] at hn hm
    exact h.inj hn hm
  live hn := by
    rw [hnames] at hn
    rw [hused]
    exact h.live hn
  named hs := by
    simp only [hnames]
    rw [hused] at hs
    exact h.named hs

variable {s : S} {n : N}

theorem Owned.existsUnique (h : Owned False used names) (hs : used s = true) :
    ∃! n, names n = some s := by
  obtain ⟨n, hn⟩ := (h.named hs).resolve_right fun h => h
  exact ⟨n, hn, fun m hm => h.inj hm hn⟩

section

variable (h : Owned lost used names)
include h

theorem Owned.not_named (hs : used s = false) (n : N) : names n ≠ some s := by
  intro hn
  rw [h.live hn] at hs
  cases hs

/-- A free entry is taken. -/
theorem Owned.assign (hn : names n = none) (hs : used s = false) (hs' : used' s = true)
    (hused : ∀ t, t ≠ s → used' t = used t) (hn' : names' n = some s)
    (hnames : ∀ m, m ≠ n → names' m = names m) : Owned lost used' names' := by
  have hold : ∀ {m t}, names' m = some t → (m = n ∧ t = s) ∨
      (m ≠ n ∧ t ≠ s ∧ names m = some t) := by
    intro m t hm
    by_cases hmn : m = n
    · subst hmn
      rw [hn'] at hm
      exact .inl ⟨rfl, (Option.some.inj hm).symm⟩
    · rw [hnames m hmn] at hm
      refine .inr ⟨hmn, ?_, hm⟩
      rintro rfl
      exact h.not_named hs m hm
  refine ⟨fun {a b t} ha hb => ?_, fun {m t} hm => ?_, fun {t} ht => ?_⟩
  · rcases hold ha with ⟨han, hat⟩ | ⟨-, hat, ha⟩ <;> rcases hold hb with ⟨hbn, hbt⟩ | ⟨-, hbt, hb⟩
    · exact han.trans hbn.symm
    · exact absurd hat hbt
    · exact absurd hbt hat
    · exact h.inj ha hb
  · rcases hold hm with ⟨-, rfl⟩ | ⟨-, ht, hm⟩
    · exact hs'
    · rw [hused t ht]
      exact h.live hm
  by_cases hts : t = s
  · subst hts
    exact .inl ⟨n, hn'⟩
  rw [hused t hts] at ht
  refine (h.named ht).imp_left fun ⟨m, hm⟩ => ⟨m, ?_⟩
  have hmn : m ≠ n := by
    rintro rfl
    rw [hn] at hm
    cases hm
  rw [hnames m hmn]
  exact hm

/-- An entry goes back to the pool. -/
theorem Owned.release (hn : names n = some s)
    (hs' : used' s = false) (hused : ∀ t, t ≠ s → used' t = used t) (hn' : names' n = none)
    (hnames : ∀ m, m ≠ n → names' m = names m) : Owned lost used' names' := by
  have hold : ∀ {m t}, names' m = some t → names m = some t ∧ t ≠ s := by
    intro m t hm
    have hmn : m ≠ n := by
      rintro rfl
      rw [hn'] at hm
      cases hm
    rw [hnames m hmn] at hm
    refine ⟨hm, ?_⟩
    rintro rfl
    exact hmn (h.inj hm hn)
  refine ⟨fun ha hb => h.inj (hold ha).1 (hold hb).1, fun {m t} hm => ?_, fun {t} ht => ?_⟩
  · rw [hused t (hold hm).2]
    exact h.live (hold hm).1
  have hts : t ≠ s := by
    rintro rfl
    rw [hs'] at ht
    cases ht
  rw [hused t hts] at ht
  refine (h.named ht).imp_left fun ⟨m, hm⟩ => ⟨m, ?_⟩
  have hmn : m ≠ n := by
    rintro rfl
    rw [hn] at hm
    exact hts (Option.some.inj hm).symm
  rw [hnames m hmn]
  exact hm

/-- An entry changes hands: it goes back to the pool and is taken again. -/
theorem Owned.transfer {m : N} (hn : names n = some s) (hm : names m = none)
    (hused : ∀ t, used' t = used t) (hn' : names' n = none) (hm' : names' m = some s)
    (hnames : ∀ k, k ≠ n → k ≠ m → names' k = names k) : Owned lost used' names' := by
  classical
  have hnm : m ≠ n := by
    rintro rfl
    rw [hn] at hm
    cases hm
  have hback : Owned lost (Function.update used s false) (Function.update names n none) :=
    h.release hn (by simp) (fun t ht => Function.update_of_ne ht _ _) (by simp)
      fun k hk => Function.update_of_ne hk _ _
  refine hback.assign (by rw [Function.update_of_ne hnm]; exact hm) (by simp)
    ((hused s).trans (h.live hn)) (fun t ht => ?_) hm' fun k hk => ?_
  · rw [Function.update_of_ne ht]
    exact hused t
  by_cases hkn : k = n
  · subst hkn
    rw [Function.update_self]
    exact hn'
  · rw [Function.update_of_ne hkn]
    exact hnames k hkn hk

/-- Where entries may be lost, a name may go and leave its entry in use. -/
theorem Owned.lose (hlost : lost) (hused : ∀ s, used' s = used s)
    (hnames : ∀ n, names' n = names n ∨ names' n = none) : Owned lost used' names' := by
  have hold : ∀ {n s}, names' n = some s → names n = some s := by
    intro n s hn
    rcases hnames n with h | h
    · rw [← h]
      exact hn
    · rw [h] at hn
      cases hn
  exact ⟨fun hn hm => h.inj (hold hn) (hold hm), fun hn => by rw [hused]; exact h.live (hold hn),
    fun _ => .inr hlost⟩

/-- An entry that nobody names goes back to the pool. -/
theorem Owned.collect (hs : ∀ n, names n ≠ some s)
    (hs' : used' s = false) (hused : ∀ t, t ≠ s → used' t = used t)
    (hnames : ∀ n, names' n = names n) : Owned lost used' names' where
  inj hn hm := by
    rw [hnames] at hn hm
    exact h.inj hn hm
  live {n t} hn := by
    rw [hnames] at hn
    have ht : t ≠ s := by
      rintro rfl
      exact hs n hn
    rw [hused t ht]
    exact h.live hn
  named {t} ht := by
    have hts : t ≠ s := by
      rintro rfl
      rw [hs'] at ht
      cases ht
    rw [hused t hts] at ht
    simp only [hnames]
    exact h.named ht

end

end Ownership
