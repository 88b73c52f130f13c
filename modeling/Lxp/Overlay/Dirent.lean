import Mathlib.Data.List.Basic

/-!
# Directory records

`lxp_dirent_put` puts one record behind the others in a guest buffer, for every file system that
lists directories.  How a record is kept is left to the caller.
-/

namespace Lxp

def direntHead (is64 : Bool) : Nat := if is64 then 19 else 10

/-- Rounded up to eight bytes. -/
def direntReclen (is64 : Bool) (namelen : Nat) : Nat :=
  (direntHead is64 + namelen + 1 + (if is64 then 0 else 1) + 7) / 8 * 8

/-- `lxp_dirent_sink_t`, with the records put so far. -/
structure DirentSink (α : Type) where
  ubuf : Nat
  cap : Nat
  is64 : Bool
  filled : Nat := 0
  -- The buffer could not be written.
  error : Bool := false
  records : List α := []

variable {α : Type}

def DirentSink.add (sink : DirentSink α) (reclen : Nat) (r : α) : DirentSink α :=
  { sink with filled := sink.filled + reclen, records := sink.records ++ [r] }

/-- `record` makes the record of an address and a length. -/
def direntPut (pathMax : Nat) (writable : Nat → Nat → Bool) (namelen : Nat) (record : Nat → Nat → α)
    (sink : DirentSink α) : Bool × DirentSink α :=
  let reclen := direntReclen sink.is64 namelen
  if sink.error then (false, sink)
  else if sink.cap < sink.filled + reclen ∨ pathMax + 32 < reclen then (false, sink)
  else if writable (sink.ubuf + sink.filled) reclen then
    (true, sink.add reclen (record (sink.ubuf + sink.filled) reclen))
  else (false, { sink with error := true })

theorem direntReclen_pos (is64 : Bool) (namelen : Nat) : 0 < direntReclen is64 namelen := by
  unfold direntReclen direntHead
  cases is64 <;> simp only [Bool.false_eq_true] <;> omega

theorem direntPut_cases (pathMax : Nat) (writable : Nat → Nat → Bool) (namelen : Nat)
    (record : Nat → Nat → α) (sink : DirentSink α) :
    direntPut pathMax writable namelen record sink = (false, sink) ∨
    sink.filled + direntReclen sink.is64 namelen ≤ sink.cap ∧
      ((writable (sink.ubuf + sink.filled) (direntReclen sink.is64 namelen) = false ∧
        direntPut pathMax writable namelen record sink = (false, { sink with error := true })) ∨
      direntPut pathMax writable namelen record sink = (true,
        sink.add (direntReclen sink.is64 namelen)
          (record (sink.ubuf + sink.filled) (direntReclen sink.is64 namelen)))) := by
  unfold direntPut
  dsimp only
  split
  · exact .inl rfl
  split
  · exact .inl rfl
  rename_i hroom
  refine .inr ⟨by omega, ?_⟩
  split
  · exact .inr rfl
  · rename_i hno
    exact .inl ⟨by simpa using hno, rfl⟩

end Lxp
