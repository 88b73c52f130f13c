import Lxp.Lib.ByteMemory

/-!
# A file is a list of bytes

Reading and writing at an offset, and setting the length.  What lies between the old end and the
place of a write is zero.  The last section says when a range of memory holds the list that an
operation yields.
-/

open ByteMemory List

namespace ByteFile

def readAt (off len : Nat) (l : Bytes) : Bytes := (l.drop off).take len

/-- A write of no bytes behind the end still moves the end. -/
def writeAt (off : Nat) (src l : Bytes) : Bytes :=
  l.take off ++ List.replicate (off - l.length) 0 ++ src ++ l.drop (off + src.length)

def resize (n : Nat) (l : Bytes) : Bytes := l.take n ++ List.replicate (n - l.length) 0

theorem writeAt_length (off : Nat) (src l : Bytes) :
    (writeAt off src l).length = max l.length (off + src.length) := by
  simp only [writeAt, length_append, length_take, length_replicate, length_drop]
  omega

/-- A write appends exactly when it starts at the end. -/
theorem writeAt_eq_append_iff {off : Nat} {src l : Bytes} :
    writeAt off src l = l ++ src ↔ off = l.length ∨ src = [] ∧ off ≤ l.length := by
  constructor
  · intro heq
    have hlen := congrArg List.length heq
    rw [writeAt_length, length_append] at hlen
    by_cases hsrc : src = []
    · subst hsrc
      exact Or.inr ⟨rfl, by omega⟩
    · have := length_pos_iff.mpr hsrc
      exact Or.inl (by omega)
  · rintro (rfl | ⟨rfl, hle⟩)
    · simp [writeAt]
    · have hzero : off - l.length = 0 := by omega
      simp [writeAt, hzero]

/-! ## In memory -/

theorem readAt_bytesFrom (f : Nat → UInt8) (a n off len : Nat) :
    readAt off len (bytesFrom f a n) = bytesFrom f (a + off) (min (n - off) len) := by
  rw [readAt, bytesFrom_drop, bytesFrom_take, Nat.min_comm]

theorem resize_bytesFrom_of_le {f : Nat → UInt8} {a n k : Nat} (h : k ≤ n) :
    resize k (bytesFrom f a n) = bytesFrom f a k := by
  rw [resize, bytesFrom_take, bytesFrom_length, Nat.min_eq_left h, Nat.sub_eq_zero_of_le h]
  exact append_nil _

theorem resize_bytesFrom_of_ge {m : Mem} {a n k : Nat} (h : n ≤ k) :
    resize k (bytesFrom m.bytes a n) = bytesFrom (m.zero (a + n) (k - n)).bytes a k := by
  obtain ⟨j, rfl⟩ := Nat.exists_eq_add_of_le h
  rw [resize, bytesFrom_take, bytesFrom_length, Nat.min_eq_right h, Nat.add_sub_cancel_left,
    bytesFrom_add, bytesFrom_zero]
  congr 1
  exact bytesFrom_congr fun k hk => (m.zero_bytes_of_out (by omega)).symm

/-- The hole is zeroed and then the bytes are copied. -/
theorem writeAt_bytesFrom (m : Mem) (a n off : Nat) (src : Bytes) :
    writeAt off src (bytesFrom m.bytes a n) =
      bytesFrom (((if n < off then m.zero (a + n) (off - n) else m)).write (a + off) src).bytes a
        (max n (off + src.length)) := by
  -- The memory with the hole filled holds a file that reaches up to the write.
  generalize hm' : (if n < off then m.zero (a + n) (off - n) else m) = m'
  have hfront : (bytesFrom m.bytes a n).take off ++ List.replicate (off - n) 0 =
      bytesFrom m'.bytes a off := by
    split at hm'
    · rename_i hlt
      rw [← hm', ← resize_bytesFrom_of_ge (Nat.le_of_lt hlt), resize, bytesFrom_length]
    · rw [← hm', Nat.sub_eq_zero_of_le (by omega), bytesFrom_take, Nat.min_eq_left (by omega)]
      exact append_nil _
  have hback : (bytesFrom m.bytes a n).drop (off + src.length) =
      bytesFrom m'.bytes (a + (off + src.length)) (n - (off + src.length)) := by
    rw [bytesFrom_drop]
    split at hm'
    · rw [show n - (off + src.length) = 0 by omega]
      rfl
    · rw [hm']
  have hsum : max n (off + src.length) = off + (src.length + (n - (off + src.length))) := by omega
  rw [writeAt, bytesFrom_length, hfront, hback, hsum, bytesFrom_add, bytesFrom_add, bytesFrom_write,
    append_assoc, Nat.add_assoc]
  congr 1
  · exact bytesFrom_congr fun k hk => (m'.write_bytes_of_out (by omega)).symm
  · congr 1
    exact bytesFrom_congr fun k hk => (m'.write_bytes_of_out (by omega)).symm

end ByteFile
