import Mathlib.Data.List.Basic
import Mathlib.Tactic.Ring

/-!
# Little-endian fields of a byte string

A reader of an untrusted byte string never indexes past its end by construction here: `read?`
answers `none` where it would.  A parser written over `read?` is safe exactly when it never answers
`none`, and `read?_isSome` says which length check makes one field readable.  `write` is the other
direction.
-/

open Option

namespace LittleEndian

variable {b : List UInt8}

/-- The number that the `n` bytes of `b` from `o` on spell, lowest byte first. -/
def read? (b : List UInt8) (o : Nat) : Nat → Option Nat
  | 0 => some 0
  | n + 1 => do
    let low ← b[o]?
    let high ← read? b (o + 1) n
    some (low.toNat + 256 * high)

/-- The `n` bytes of `b` from `o` on. -/
def slice? (b : List UInt8) (o n : Nat) : Option (List UInt8) :=
  if o + n ≤ b.length then some ((b.drop o).take n) else none

variable {o n : Nat}

theorem exists_slice? (h : o + n ≤ b.length) :
    ∃ bytes, slice? b o n = some bytes ∧ bytes.length = n := by
  refine ⟨(b.drop o).take n, if_pos h, ?_⟩
  rw [List.length_take, List.length_drop]
  omega

/-- The `n` lowest bytes of `v`, lowest first. -/
def write : Nat → Nat → List UInt8
  | 0, _ => []
  | n + 1, v => UInt8.ofNat (v % 256) :: write n (v / 256)

@[simp] theorem length_write (n v : Nat) : (write n v).length = n := by
  induction n generalizing v with
  | zero => rfl
  | succ n ih => simp [write, ih]

/-- A record, field after field, each given by its width and its value. -/
def writeFields : List (Nat × Nat) → List UInt8
  | [] => []
  | (n, v) :: fields => write n v ++ writeFields fields

theorem length_writeFields (fields : List (Nat × Nat)) :
    (writeFields fields).length = (fields.map Prod.fst).sum := by
  induction fields with
  | nil => rfl
  | cons field fields ih => simp [writeFields, ih]

theorem read?_isSome (h : o + n ≤ b.length) : (read? b o n).isSome = true := by
  induction n generalizing o with
  | zero => rfl
  | succ n ih =>
    have hlow : b[o]? = some b[o] := List.getElem?_eq_getElem (by omega)
    obtain ⟨high, hhigh⟩ := isSome_iff_exists.mp (ih (o := o + 1) (by omega))
    simp [read?, hlow, hhigh]

/-- The form a parser's proof uses: the length check hands over the value. -/
theorem exists_read? (h : o + n ≤ b.length) : ∃ v, read? b o n = some v :=
  isSome_iff_exists.mp (read?_isSome h)

theorem read?_lt {v : Nat} (h : read? b o n = some v) : v < 256 ^ n := by
  induction n generalizing o v with
  | zero =>
    cases h
    simp
  | succ n ih =>
    simp only [read?, bind_eq_bind, bind_eq_some_iff, Option.some.injEq] at h
    obtain ⟨low, -, high, hhigh, rfl⟩ := h
    have hlow := low.toNat_lt
    have hbound := ih hhigh
    omega

end LittleEndian
