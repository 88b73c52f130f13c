import Mathlib.Data.List.Basic
import Mathlib.Data.Nat.Bitwise
import Mathlib.Tactic.Ring

/-!
# A flat byte memory that remembers what was written

Addresses are natural numbers and every address holds a byte.  A store logs the span it covers, so
a program over this memory can be asked afterwards which bytes it wrote.  Multi-byte accesses are
little-endian; `u32` is the reduction a 32-bit register applies.
-/

open List

abbrev Bytes := List UInt8

namespace ByteMemory

variable {dst len a : Nat}

/-- The value a 32-bit register keeps. -/
def u32 (n : Nat) : Nat := n % 4294967296

variable {n : Nat} {f g : Nat → UInt8}

theorem u32_eq_self (h : n < 4294967296) : u32 n = n := Nat.mod_eq_of_lt h

theorem u32_add_u32 (m n : Nat) : u32 (u32 m + n) = u32 (m + n) := by
  simp only [u32, Nat.mod_add_mod]

def le16 (f : Nat → UInt8) (p : Nat) : Nat := (f p).toNat + 256 * (f (p + 1)).toNat

def le32 (f : Nat → UInt8) (p : Nat) : Nat :=
  (f p).toNat + 256 * (f (p + 1)).toNat + 65536 * (f (p + 2)).toNat +
    16777216 * (f (p + 3)).toNat

theorem le32_congr {p q : Nat} (h : ∀ k, k < 4 → f (p + k) = g (q + k)) : le32 f p = le32 g q := by
  have h0 := h 0 (by decide)
  have h1 := h 1 (by decide)
  have h2 := h 2 (by decide)
  have h3 := h 3 (by decide)
  simp only [Nat.add_zero] at h0
  simp only [le32, h0, h1, h2, h3]

/-- The little-endian number in the `n` bytes from `p` on. -/
def le (f : Nat → UInt8) (p : Nat) : Nat → Nat
  | 0 => 0
  | n + 1 => le f p n + 256 ^ n * (f (p + n)).toNat

theorem le_congr {p q : Nat} (h : ∀ k, k < n → f (p + k) = g (q + k)) : le f p n = le g q n := by
  induction n with
  | zero => rfl
  | succ n ih =>
    rw [le, le, ih fun k hk => h k (by omega), h n (by omega)]

/-- Byte `k` of the little-endian encoding of `v`. -/
def byteOf (v k : Nat) : UInt8 := UInt8.ofNat (v / 256 ^ k)

theorem byteOf_toNat (v k : Nat) : (byteOf v k).toNat = v / 256 ^ k % 256 := by
  simp only [byteOf, UInt8.toNat_ofNat']

structure Mem where
  bytes : Nat → UInt8
  /-- Every `(address, length)` stored so far, latest first. -/
  spans : List (Nat × Nat)

namespace Mem

/-- A memory nothing has been stored to yet. -/
def ofBytes (f : Nat → UInt8) : Mem := ⟨f, []⟩

/-- `memset(dst, 0, len)`. -/
def zero (m : Mem) (dst len : Nat) : Mem where
  bytes := fun a => if dst ≤ a ∧ a < dst + len then 0 else m.bytes a
  spans := (dst, len) :: m.spans

/-- `memcpy(dst, src, len)`. -/
def copy (m : Mem) (dst src len : Nat) : Mem where
  bytes := fun a => if dst ≤ a ∧ a < dst + len then m.bytes (src + (a - dst)) else m.bytes a
  spans := (dst, len) :: m.spans

/-- Store the `len` low bytes of `v`. -/
def store (m : Mem) (dst len v : Nat) : Mem where
  bytes := fun a => if dst ≤ a ∧ a < dst + len then byteOf v (a - dst) else m.bytes a
  spans := (dst, len) :: m.spans

/-- Bytes that come from elsewhere are stored from `dst` on. -/
def write (m : Mem) (dst : Nat) (bs : Bytes) : Mem where
  bytes := fun a => if dst ≤ a ∧ a < dst + bs.length then bs.getD (a - dst) 0 else m.bytes a
  spans := (dst, bs.length) :: m.spans

theorem zero_bytes_of_out (m : Mem) (h : a < dst ∨ dst + len ≤ a) :
    (m.zero dst len).bytes a = m.bytes a := by
  exact if_neg (by omega)

theorem zero_bytes_of_in (m : Mem) (h : dst ≤ a ∧ a < dst + len) :
    (m.zero dst len).bytes a = 0 := by
  exact if_pos h

theorem copy_bytes_of_out (m : Mem) {src : Nat} (h : a < dst ∨ dst + len ≤ a) :
    (m.copy dst src len).bytes a = m.bytes a := by
  exact if_neg (by omega)

theorem copy_bytes_of_in (m : Mem) {src : Nat} (h : dst ≤ a ∧ a < dst + len) :
    (m.copy dst src len).bytes a = m.bytes (src + (a - dst)) := by
  exact if_pos h

variable {v : Nat}

section

variable (m : Mem)
include m

theorem store_bytes_of_out (h : a < dst ∨ dst + len ≤ a) :
    (m.store dst len v).bytes a = m.bytes a := by
  exact if_neg (by omega)

theorem store_bytes_of_in (h : dst ≤ a ∧ a < dst + len) :
    (m.store dst len v).bytes a = byteOf v (a - dst) := by
  exact if_pos h

theorem write_bytes_of_out {bs : Bytes} (h : a < dst ∨ dst + bs.length ≤ a) :
    (m.write dst bs).bytes a = m.bytes a := by
  exact if_neg (by omega)

theorem write_bytes_of_in {bs : Bytes} (h : dst ≤ a ∧ a < dst + bs.length) :
    (m.write dst bs).bytes a = bs.getD (a - dst) 0 := by
  exact if_pos h

theorem le32_store_of_disjoint {p : Nat} (h : p + 4 ≤ dst ∨ dst + len ≤ p) :
    le32 (m.store dst len v).bytes p = le32 m.bytes p := by
  apply le32_congr
  intro k hk
  exact store_bytes_of_out m (by omega)

theorem le32_store_same (dst v : Nat) : le32 (m.store dst 4 v).bytes dst = u32 v := by
  have hbyte : ∀ k, k < 4 → ((m.store dst 4 v).bytes (dst + k)).toNat = v / 256 ^ k % 256 := by
    intro k hk
    rw [store_bytes_of_in m (by omega), byteOf_toNat, Nat.add_sub_cancel_left]
  have h0 := hbyte 0 (by decide)
  have h1 := hbyte 1 (by decide)
  have h2 := hbyte 2 (by decide)
  have h3 := hbyte 3 (by decide)
  simp only [Nat.add_zero] at h0
  unfold le32 u32
  omega

theorem le_store_of_disjoint {p : Nat} (h : p + n ≤ dst ∨ dst + len ≤ p) :
    le (m.store dst len v).bytes p n = le m.bytes p n := by
  apply le_congr
  intro k hk
  exact store_bytes_of_out m (by omega)

theorem le_store_same (dst n v : Nat) : le (m.store dst n v).bytes dst n = v % 256 ^ n := by
  have hpart : ∀ k, k ≤ n → le (m.store dst n v).bytes dst k = v % 256 ^ k := by
    intro k
    induction k with
    | zero =>
      intro _
      rw [le, Nat.pow_zero, Nat.mod_one]
    | succ k ih =>
      intro hk
      have hbyte : ((m.store dst n v).bytes (dst + k)).toNat = v / 256 ^ k % 256 := by
        rw [store_bytes_of_in m (by omega), byteOf_toNat, Nat.add_sub_cancel_left]
      rw [le, ih (by omega), hbyte, Nat.mod_pow_succ]
  exact hpart n (Nat.le_refl n)

end

end Mem

/-! ## Ranges of bytes -/

/-- The `n` bytes from `a` on. -/
def bytesFrom (f : Nat → UInt8) (a n : Nat) : Bytes := (List.range n).map fun k => f (a + k)

@[simp] theorem bytesFrom_length (f : Nat → UInt8) (a n : Nat) : (bytesFrom f a n).length = n := by
  rw [bytesFrom, length_map, length_range]

theorem bytesFrom_congr {b : Nat} (h : ∀ k, k < n → f (a + k) = g (b + k)) :
    bytesFrom f a n = bytesFrom g b n :=
  map_congr_left fun k hk => h k (mem_range.mp hk)

theorem bytesFrom_add (f : Nat → UInt8) (a m n : Nat) :
    bytesFrom f a (m + n) = bytesFrom f a m ++ bytesFrom f (a + m) n := by
  rw [bytesFrom, range_add, map_append, map_map]
  simp only [bytesFrom, Function.comp_def, Nat.add_assoc]

theorem bytesFrom_take (f : Nat → UInt8) (a n k : Nat) :
    (bytesFrom f a n).take k = bytesFrom f a (min k n) := by
  rw [bytesFrom, ← map_take, take_range, bytesFrom]

theorem bytesFrom_drop (f : Nat → UInt8) (a n k : Nat) :
    (bytesFrom f a n).drop k = bytesFrom f (a + k) (n - k) := by
  by_cases hk : k ≤ n
  · obtain ⟨j, rfl⟩ := Nat.exists_eq_add_of_le hk
    rw [bytesFrom_add, drop_append_of_le_length (by simp), drop_eq_nil_of_le (by simp),
      nil_append, Nat.add_sub_cancel_left]
  · rw [drop_eq_nil_of_le (by simp; omega), show n - k = 0 by omega]
    rfl

theorem bytesFrom_zero (m : Mem) (a n : Nat) :
    bytesFrom (m.zero a n).bytes a n = List.replicate n 0 := by
  refine eq_replicate_iff.mpr ⟨bytesFrom_length _ _ _, fun b hb => ?_⟩
  obtain ⟨k, hk, rfl⟩ := mem_map.mp hb
  exact m.zero_bytes_of_in ⟨by omega, by have := mem_range.mp hk; omega⟩

theorem bytesFrom_write (m : Mem) (a : Nat) (bs : Bytes) :
    bytesFrom (m.write a bs).bytes a bs.length = bs := by
  apply ext_getElem
  · rw [bytesFrom_length]
  · intro k hk hk'
    simp only [bytesFrom, getElem_map, getElem_range]
    rw [m.write_bytes_of_in ⟨by omega, by omega⟩, Nat.add_sub_cancel_left, getD_eq_getElem _ _ hk']

namespace Mem

/-! ## What a run of stores can have changed -/

/-- The span lies in `[lo, hi)`. -/
def SpanIn (lo hi : Nat) (s : Nat × Nat) : Prop := lo ≤ s.1 ∧ s.1 + s.2 ≤ hi

/-- Every byte stored so far lies in `[lo, hi)`. -/
def WritesWithin (m : Mem) (lo hi : Nat) : Prop :=
  ∀ s ∈ m.spans, ∀ a, s.1 ≤ a → a < s.1 + s.2 → lo ≤ a ∧ a < hi

theorem writesWithin_ofBytes (f : Nat → UInt8) (lo hi : Nat) : (ofBytes f).WritesWithin lo hi := by
  intro s hs
  cases hs

/-- `m'` is reached from `m` by stores whose spans all satisfy `P`: the log of `m'` extends the log
of `m` by such spans, and a byte outside all of them is unchanged. -/
def StoresOnly (P : Nat × Nat → Prop) (m m' : Mem) : Prop :=
  ∃ added, m'.spans = added ++ m.spans ∧ (∀ s ∈ added, P s) ∧
    ∀ a, (∀ s ∈ added, a < s.1 ∨ s.1 + s.2 ≤ a) → m'.bytes a = m.bytes a

namespace StoresOnly

variable {P Q : Nat × Nat → Prop} {m m1 m2 : Mem}

theorem refl (m : Mem) : StoresOnly P m m := ⟨[], rfl, (fun _ hs => nomatch hs), fun _ _ => rfl⟩

theorem trans (h : StoresOnly P m m1) (h' : StoresOnly P m1 m2) : StoresOnly P m m2 := by
  obtain ⟨xs, hxs, hPx, hx⟩ := h
  obtain ⟨ys, hys, hPy, hy⟩ := h'
  refine ⟨ys ++ xs, by rw [hys, hxs, append_assoc], ?_, ?_⟩
  · intro s hs
    rcases mem_append.mp hs with hs | hs
    · exact hPy s hs
    · exact hPx s hs
  · intro a ha
    rw [hy a (fun s hs => ha s (mem_append_left _ hs)),
      hx a (fun s hs => ha s (mem_append_right _ hs))]

theorem mono (h : StoresOnly P m m1) (hPQ : ∀ s, P s → Q s) : StoresOnly Q m m1 := by
  obtain ⟨xs, hxs, hPx, hx⟩ := h
  exact ⟨xs, hxs, fun s hs => hPQ s (hPx s hs), hx⟩

theorem zero (m : Mem) (h : P (dst, len)) : StoresOnly P m (m.zero dst len) := by
  refine ⟨[(dst, len)], rfl, ?_, ?_⟩
  · intro s hs
    rw [mem_singleton.mp hs]
    exact h
  · intro a ha
    exact zero_bytes_of_out m (ha (dst, len) mem_cons_self)

theorem copy (m : Mem) (src : Nat) (h : P (dst, len)) : StoresOnly P m (m.copy dst src len) := by
  refine ⟨[(dst, len)], rfl, ?_, ?_⟩
  · intro s hs
    rw [mem_singleton.mp hs]
    exact h
  · intro a ha
    exact copy_bytes_of_out m (ha (dst, len) mem_cons_self)

theorem store (m : Mem) (v : Nat) (h : P (dst, len)) : StoresOnly P m (m.store dst len v) := by
  refine ⟨[(dst, len)], rfl, ?_, ?_⟩
  · intro s hs
    rw [mem_singleton.mp hs]
    exact h
  · intro a ha
    exact store_bytes_of_out m (ha (dst, len) mem_cons_self)

/-- A byte that no permitted span covers is unchanged. -/
theorem bytes_eq (h : StoresOnly P m m1) (ha : ∀ s, P s → a < s.1 ∨ s.1 + s.2 ≤ a) :
    m1.bytes a = m.bytes a := by
  obtain ⟨xs, -, hPx, hx⟩ := h
  exact hx a (fun s hs => ha s (hPx s hs))

theorem le32_eq (h : StoresOnly P m m1) {p : Nat}
    (hp : ∀ s, P s → p + 4 ≤ s.1 ∨ s.1 + s.2 ≤ p) : le32 m1.bytes p = le32 m.bytes p := by
  apply le32_congr
  intro k hk
  apply h.bytes_eq
  intro s hs
  have := hp s hs
  omega

variable {lo hi : Nat}

section

variable (h : StoresOnly P m m1)
include h

theorem writesWithin (hw : m.WritesWithin lo hi)
    (hP : ∀ s, P s → SpanIn lo hi s) : m1.WritesWithin lo hi := by
  obtain ⟨xs, hxs, hPx, -⟩ := h
  intro s hs a h1 h2
  rw [hxs, mem_append] at hs
  rcases hs with hs | hs
  · obtain ⟨h3, h4⟩ := hP s (hPx s hs)
    omega
  · exact hw s hs a h1 h2

theorem mem_spans {s : Nat × Nat} (hs : s ∈ m.spans) : s ∈ m1.spans := by
  obtain ⟨xs, hxs, -, -⟩ := h
  rw [hxs]
  exact mem_append_right _ hs

theorem writesWithin_of (hw : m1.WritesWithin lo hi) : m.WritesWithin lo hi := by
  intro s hs
  exact hw s (h.mem_spans hs)

/-- Stores that stay in `[lo, hi)` change nothing outside it. -/
theorem bytes_eq_of_writesWithin (hw : m1.WritesWithin lo hi)
    (ha : a < lo ∨ hi ≤ a) : m1.bytes a = m.bytes a := by
  obtain ⟨xs, hxs, -, hx⟩ := h
  apply hx
  intro s hs
  by_contra hin
  have hb := hw s (by rw [hxs]; exact mem_append_left _ hs) a (by omega) (by omega)
  omega

end

/-- A loop whose every iteration stores only spans in `P` stores only such spans. -/
theorem foldl {σ β : Type} (mem : σ → Mem) (g : σ → β → σ) (xs : List β)
    (hstep : ∀ s x, StoresOnly P (mem s) (mem (g s x))) (s : σ) :
    StoresOnly P (mem s) (mem (xs.foldl g s)) := by
  induction xs generalizing s with
  | nil => exact refl _
  | cons x xs ih => exact (hstep s x).trans (ih (g s x))

end StoresOnly

/-- A logged span that is not empty lies in the range the log lies in. -/
theorem WritesWithin.span {m : Mem} {lo hi : Nat} (h : m.WritesWithin lo hi)
    (hs : (dst, len) ∈ m.spans) (hpos : 0 < len) : lo ≤ dst ∧ dst + len ≤ hi := by
  have h0 := h _ hs dst (le_refl _) (by simp only; omega)
  have h1 := h _ hs (dst + len - 1) (by simp only; omega) (by simp only; omega)
  omega

end Mem

end ByteMemory
