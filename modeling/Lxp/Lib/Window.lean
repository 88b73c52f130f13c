import Mathlib.Data.Nat.Basic
import Mathlib.Tactic.Ring

/-!
# A window of a cyclic address space

Addresses are taken modulo `m`, and a window of `n` addresses starts at `base` and does not wrap.
Rows of `len` addresses each, a fixed pitch apart and given by their distance from `base`, lie in
the window exactly when the last row ends in it, provided that one pitch cannot step over the rest
of the address space.
-/

namespace Window

def Inside (m base n v : Nat) : Prop := base ≤ (base + v) % m ∧ (base + v) % m < base + n

variable {m base n v : Nat}

section

variable (hfits : base + n ≤ m)
include hfits

theorem inside_of_lt (h : v < n) : Inside m base n v := by
  unfold Inside
  rw [Nat.mod_eq_of_lt (by omega)]
  omega

theorem inside_iff (hv : v < m) : Inside m base n v ↔ v < n := by
  refine ⟨fun ⟨hlo, hhi⟩ => ?_, inside_of_lt hfits⟩
  by_cases hwrap : base + v < m
  · rw [Nat.mod_eq_of_lt hwrap] at hhi
    omega
  · -- Behind the end of the space an address is below the window.
    have hmod : (base + v) % m = base + v - m := by
      rw [Nat.mod_eq_sub_mod (by omega), Nat.mod_eq_of_lt (by omega)]
    omega

theorem row_inside_iff (hn : n < m) {start len : Nat} (hlen : 0 < len)
    (hstart : start < m) : (∀ c < len, Inside m base n (start + c)) ↔ start + len ≤ n := by
  constructor
  · intro h
    have hall : ∀ c < len, start + c < n := by
      intro c
      induction c with
      | zero =>
        intro hc
        exact (inside_iff hfits (by omega)).mp (h 0 hc)
      | succ c ih =>
        intro hc
        exact (inside_iff hfits (by omega)).mp (h (c + 1) hc)
    have hlast := hall (len - 1) (by omega)
    omega
  · intro h c hc
    exact inside_of_lt hfits (by omega)

/-- All rows lie in the window. -/
theorem rows_inside_iff (start pitch : Nat) {rows len : Nat} (hlen : 0 < len)
    (hrows : 0 < rows) (hstart : start < m) (hpitch : n + pitch ≤ m) (hn : n < m) :
    (∀ r < rows, ∀ c < len, Inside m base n (start + r * pitch + c)) ↔
      start + (rows - 1) * pitch + len ≤ n := by
  constructor
  · intro h
    have hall : ∀ r < rows, start + r * pitch + len ≤ n := by
      intro r
      induction r with
      | zero =>
        intro hr
        rw [Nat.zero_mul]
        exact (row_inside_iff hfits hn hlen hstart).mp fun c hc => by
          have hrow := h 0 hr c hc
          rwa [Nat.zero_mul] at hrow
      | succ r ih =>
        intro hr
        have hnext : start + (r + 1) * pitch = start + r * pitch + pitch := by ring
        exact (row_inside_iff hfits hn hlen (by omega)).mp (h (r + 1) hr)
    exact hall (rows - 1) (by omega)
  · intro h r hr c hc
    refine inside_of_lt hfits ?_
    have hle : r * pitch ≤ (rows - 1) * pitch := Nat.mul_le_mul_right _ (by omega)
    omega

end

end Window
