import Mathlib.Data.List.Rotate

/-!
# A ring buffer moved in at most two pieces

The buffer is a list of fixed length.  A read takes the piece up to the end of the buffer and then
the piece at its start; a write stores the same way.  `contents` is the queue the ring stands for:
the buffer turned so that the read position comes first, cut off after `count` entries.
-/

open List

namespace RingBuffer

structure RingBuf (α : Type) where
  buf : List α
  rpos : Nat := 0
  wpos : Nat := 0
  count : Nat := 0

variable {α : Type}

def splice (xs : List α) (i : Nat) (ys : List α) : List α :=
  xs.take i ++ ys ++ xs.drop (i + ys.length)

theorem splice_length {xs ys : List α} {i : Nat} (h : i + ys.length ≤ xs.length) :
    (splice xs i ys).length = xs.length := by
  simp only [splice, length_append, length_take, length_drop]
  omega

theorem splice_getElem? {xs ys : List α} {i : Nat} (h : i + ys.length ≤ xs.length) (j : Nat) :
    (splice xs i ys)[j]? = if i ≤ j ∧ j < i + ys.length then ys[j - i]? else xs[j]? := by
  have hlen : (xs.take i).length = i := by
    rw [length_take]
    omega
  unfold splice
  by_cases h1 : j < i
  · rw [if_neg (by omega), append_assoc, List.getElem?_append_left (by omega),
      List.getElem?_take_of_lt h1]
  by_cases h2 : j < i + ys.length
  · rw [if_pos ⟨by omega, h2⟩, List.getElem?_append_left (by rw [length_append]; omega),
      List.getElem?_append_right (by omega), hlen]
  · rw [if_neg (by omega), List.getElem?_append_right (by rw [length_append]; omega),
      List.getElem?_drop, length_append]
    congr 1
    omega

namespace RingBuf

def cap (r : RingBuf α) : Nat := r.buf.length

def space (r : RingBuf α) : Nat := r.cap - r.count

def read (r : RingBuf α) (len : Nat) : List α × RingBuf α :=
  let len := min len r.count
  let n1 := min (r.cap - r.rpos) len
  ((r.buf.drop r.rpos).take n1 ++ r.buf.take (len - n1),
    { r with rpos := (r.rpos + len) % r.cap, count := r.count - len })

def write (r : RingBuf α) (src : List α) : Nat × RingBuf α :=
  let len := min src.length r.space
  let n1 := min (r.cap - r.wpos) len
  let buf := splice r.buf r.wpos (src.take n1)
  (len, { r with
    buf := splice buf 0 ((src.drop n1).take (len - n1))
    wpos := (r.wpos + len) % r.cap
    count := r.count + len })

def contents (r : RingBuf α) : List α := (r.buf.rotate r.rpos).take r.count

structure Wf (r : RingBuf α) : Prop where
  rpos_lt : r.rpos < r.cap
  wpos_eq : r.wpos = (r.rpos + r.count) % r.cap
  count_le : r.count ≤ r.cap

variable {r : RingBuf α}

theorem contents_length (h : r.Wf) : r.contents.length = r.count := by
  have := h.count_le
  simp only [contents, length_take, length_rotate, cap] at *
  omega

theorem wf_empty {buf : List α} (h : buf ≠ []) : (⟨buf, 0, 0, 0⟩ : RingBuf α).Wf :=
  ⟨length_pos_iff.mpr h, by simp, Nat.zero_le _⟩

/-! ## Reading -/

theorem read_wf (h : r.Wf) (len : Nat) : (r.read len).2.Wf := by
  have hpos : 0 < r.cap := Nat.lt_of_le_of_lt (Nat.zero_le _) h.rpos_lt
  refine ⟨Nat.mod_lt _ hpos, ?_, ?_⟩
  · show r.wpos = ((r.rpos + min len r.count) % r.cap + (r.count - min len r.count)) % r.cap
    rw [h.wpos_eq, Nat.mod_add_mod]
    congr 1
    omega
  · show r.count - min len r.count ≤ r.cap
    have := h.count_le
    omega

/-- A read takes the first entries of the queue. -/
theorem read_fst (h : r.Wf) (len : Nat) : (r.read len).1 = r.contents.take len := by
  have hle := h.count_le
  have hlt := h.rpos_lt
  have hcap : r.buf.length = r.cap := rfl
  unfold read contents
  simp only
  rw [take_take, rotate_eq_drop_append_take (by omega), take_append, length_drop, take_take]
  congr 1
  · conv_rhs => rw [take_eq_take_min, length_drop]
    congr 1
    omega
  · congr 1
    omega

/-- A read leaves the rest of the queue. -/
theorem read_snd (h : r.Wf) (len : Nat) : (r.read len).2.contents = r.contents.drop len := by
  have hle := h.count_le
  have hlen : (r.buf.rotate r.rpos).length = r.cap := length_rotate ..
  show (r.buf.rotate ((r.rpos + min len r.count) % r.cap)).take (r.count - min len r.count) = _
  rw [cap, rotate_mod, ← rotate_rotate, rotate_eq_drop_append_take (by omega),
    take_append_of_le_length (by rw [length_drop]; omega), contents, drop_take]
  by_cases hcase : len ≤ r.count
  · rw [Nat.min_eq_left hcase]
  · rw [Nat.min_eq_right (by omega), Nat.sub_self, Nat.sub_eq_zero_of_le (by omega),
      take_zero, take_zero]

/-! ## Writing -/

theorem wpos_lt (h : r.Wf) : r.wpos < r.cap := by
  rw [h.wpos_eq]
  exact Nat.mod_lt _ (Nat.lt_of_le_of_lt (Nat.zero_le _) h.rpos_lt)

theorem write_buf_length (h : r.Wf) (src : List α) : (r.write src).2.buf.length = r.buf.length := by
  have hw := wpos_lt h
  have hcap : r.buf.length = r.cap := rfl
  simp only [write, space]
  rw [splice_length, splice_length]
  · rw [length_take]
    omega
  · rw [splice_length (by rw [length_take]; omega), length_take]
    omega

@[simp] theorem write_cap (h : r.Wf) (src : List α) : (r.write src).2.cap = r.cap :=
  write_buf_length h src

theorem write_buf_getElem? (h : r.Wf) (src : List α) (j : Nat) (hj : j < r.cap) :
    (r.write src).2.buf[j]? =
      if r.wpos ≤ j ∧ j < r.wpos + (r.write src).1 then src[j - r.wpos]?
      else if j + r.cap < r.wpos + (r.write src).1 then src[j + r.cap - r.wpos]?
      else r.buf[j]? := by
  have hw := wpos_lt h
  have hcap : r.buf.length = r.cap := rfl
  have hlen : (r.write src).1 = min src.length (r.cap - r.count) := rfl
  show (splice (splice r.buf r.wpos (src.take (min (r.cap - r.wpos) (r.write src).1))) 0
    ((src.drop (min (r.cap - r.wpos) (r.write src).1)).take
      ((r.write src).1 - min (r.cap - r.wpos) (r.write src).1)))[j]? = _
  generalize (r.write src).1 = len at hlen ⊢
  have h1 : (src.take (min (r.cap - r.wpos) len)).length = min (r.cap - r.wpos) len := by
    rw [length_take]
    omega
  have h2 : ((src.drop (min (r.cap - r.wpos) len)).take (len - min (r.cap - r.wpos) len)).length =
      len - min (r.cap - r.wpos) len := by
    rw [length_take, length_drop]
    omega
  rw [splice_getElem? (by rw [splice_length (by omega), h2]; omega),
    splice_getElem? (by rw [h1]; omega), h1]
  by_cases hin : r.wpos ≤ j ∧ j < r.wpos + len
  · rw [if_neg (by omega), if_pos (by omega), if_pos hin, List.getElem?_take_of_lt (by omega)]
  rw [if_neg hin]
  by_cases hwrap : j + r.cap < r.wpos + len
  · rw [if_pos (by omega), if_pos hwrap, List.getElem?_take_of_lt (by omega), List.getElem?_drop]
    congr 1
    omega
  · rw [if_neg (by omega), if_neg (by omega), if_neg hwrap]

theorem write_fst (r : RingBuf α) (src : List α) : (r.write src).1 = min src.length r.space := rfl

theorem write_wf (h : r.Wf) (src : List α) : (r.write src).2.Wf := by
  have hle := h.count_le
  refine ⟨?_, ?_, ?_⟩
  · rw [write_cap h]
    exact h.rpos_lt
  · show (r.wpos + (r.write src).1) % r.cap = _
    rw [write_cap h, h.wpos_eq, Nat.mod_add_mod, Nat.add_assoc]
    rfl
  · rw [write_cap h]
    show r.count + min src.length (r.cap - r.count) ≤ r.cap
    omega

/-- A write appends what fits. -/
theorem write_snd (h : r.Wf) (src : List α) :
    (r.write src).2.contents = r.contents ++ src.take (r.write src).1 := by
  have hle := h.count_le
  have hlt := h.rpos_lt
  have hfit : r.count + (r.write src).1 ≤ r.cap := by
    rw [write_fst, space]
    omega
  have hw := h.wpos_eq
  apply ext_getElem?
  intro k
  have hcount : (r.write src).2.count = r.count + (r.write src).1 := rfl
  by_cases hk : k < r.count + (r.write src).1
  · have hkcap : k < r.cap := by omega
    have hleft : (r.write src).2.contents[k]? = (r.write src).2.buf[(k + r.rpos) % r.cap]? := by
      rw [contents, hcount, List.getElem?_take_of_lt hk, List.getElem?_rotate
        (by rw [write_buf_length h]; exact hkcap), write_buf_length h]
      rfl
    rw [hleft, write_buf_getElem? h src _ (Nat.mod_lt _ (by omega))]
    -- Both positions wrap at most once.
    have hpos : (k + r.rpos) % r.cap = if k + r.rpos < r.cap then k + r.rpos
        else k + r.rpos - r.cap := by
      split
      · next hs => exact Nat.mod_eq_of_lt hs
      · next hs => rw [Nat.mod_eq_sub_mod (by omega), Nat.mod_eq_of_lt (by omega)]
    have hwpos : r.wpos = if r.rpos + r.count < r.cap then r.rpos + r.count
        else r.rpos + r.count - r.cap := by
      rw [hw]
      split
      · next hs => exact Nat.mod_eq_of_lt hs
      · next hs => rw [Nat.mod_eq_sub_mod (by omega), Nat.mod_eq_of_lt (by omega)]
    by_cases hold : k < r.count
    · rw [List.getElem?_append_left (by rw [contents_length h]; exact hold), contents,
        List.getElem?_take_of_lt hold, List.getElem?_rotate hkcap, if_neg, if_neg]
      · rfl
      · rw [hpos, hwpos]
        split_ifs <;> omega
      · rw [hpos, hwpos]
        split_ifs <;> omega
    rw [List.getElem?_append_right (by rw [contents_length h]; omega), contents_length h,
      List.getElem?_take_of_lt (by omega)]
    split
    · congr 1
      split_ifs at * <;> omega
    · rw [if_pos]
      · congr 1
        split_ifs at * <;> omega
      · split_ifs at * <;> omega
  · rw [List.getElem?_eq_none, List.getElem?_eq_none]
    · rw [length_append, contents_length h, length_take]
      omega
    · rw [contents_length (write_wf h src)]
      omega

end RingBuf

end RingBuffer
