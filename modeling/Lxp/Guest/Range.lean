import Lxp.Arena.Heap

/-!
# Which guest memory a call may touch

A process may use its region, its dynamic pool and its device mappings, and read the shared root
file system.  A range is admitted when it starts in one of them and ends in the same.
-/

open Option Bool

namespace Lxp

/-- The bounds an address space has, each as its first address and the one behind its last. -/
structure AddressMap where
  region : Nat × Nat
  pool : Nat × Nat
  devMaps : List (Nat × Nat)
  rootfs : Nat × Nat

/-- In the order in which they are tried; the root file system is there for reading only. -/
def AddressMap.ranges (m : AddressMap) (write : Bool) : List (Nat × Nat) :=
  m.region :: m.pool :: m.devMaps ++ if write then [] else [m.rootfs]

def inRange (address : Nat) (range : Nat × Nat) : Bool :=
  decide (range.1 ≤ address) && decide (address < range.2)

def guestRangeHi (m : AddressMap) (address : Nat) (write : Bool) : Option Nat :=
  ((m.ranges write).find? (inRange address)).map Prod.snd

def guestRangeOk (w : WordSize) (m : AddressMap) (address length : Nat) (write : Bool) : Bool :=
  length == 0 ||
    let stop := w.wrap (address + length)
    !decide (stop < address) && (guestRangeHi m address write).any fun hi => decide (stop ≤ hi)

-- `lxp_guest_range_ok` with its access bits: 1 to read, 2 to write.
def guestRangeOkAs (w : WordSize) (m : AddressMap) (address length access : Nat) : Bool :=
  decide (0 < access ∧ access ≤ 3) && guestRangeOk w m address length (decide (2 ≤ access))

/-- The view of a dispatch: whether it is still current, and the accesses it grants. -/
structure GuestView where
  current : Bool := true
  reads : Bool := true
  writes : Bool := true

structure GuestProc where
  map : AddressMap
  view : Option GuestView := none

def GuestProc.grants (p : GuestProc) (write : Bool) : Bool :=
  p.view.all fun v => v.current && if write then v.writes else v.reads

def guestAccessOk (w : WordSize) (p : GuestProc) (address length : Nat) (write : Bool) : Bool :=
  p.grants write && guestRangeOk w p.map address length write

def strnlenLoop (bytes : Nat → UInt8) (src : Nat) : Nat → Nat → Option Nat × List Nat
  | 0, _ => (none, [])
  | n + 1, i =>
    if bytes (src + i) = 0 then (some i, [src + i])
    else
      let (r, reads) := strnlenLoop bytes src n (i + 1)
      (r, (src + i) :: reads)

-- `none` is EFAULT.
def guestStrnlen (p : GuestProc) (bytes : Nat → UInt8) (src max : Nat) : Option Nat × List Nat :=
  if p.grants false = false then (none, [])
  else
    match guestRangeHi p.map src false with
    | none => (none, [])
    | some hi => strnlenLoop bytes src (min (hi - src) max) 0

section Range

variable {w : WordSize} {m : AddressMap} {address length : Nat} {write : Bool}

theorem guestRangeHi_range {hi : Nat} (h : guestRangeHi m address write = some hi) :
    ∃ range ∈ m.ranges write, range.1 ≤ address ∧ address < hi ∧ hi = range.2 := by
  obtain ⟨range, hfind, rfl⟩ := map_eq_some_iff.mp h
  have hin := List.find?_some hfind
  simp only [inRange, and_eq_true, decide_eq_true_eq] at hin
  exact ⟨range, List.mem_of_find?_eq_some hfind, hin.1, hin.2, rfl⟩

theorem guestRangeHi_isSome {hi : Nat} (h : guestRangeHi m address write = some hi) {x : Nat}
    (hlo : address ≤ x) (hhi : x < hi) : ∃ hi', guestRangeHi m x write = some hi' ∧ x < hi' := by
  obtain ⟨range, hmem, hstart, -, rfl⟩ := guestRangeHi_range h
  -- Another range may come first for `x`, but there is one.
  have hx : (guestRangeHi m x write).isSome := by
    rw [guestRangeHi, isSome_map, List.find?_isSome]
    refine ⟨range, hmem, ?_⟩
    simp only [inRange, and_eq_true, decide_eq_true_eq]
    omega
  obtain ⟨hi', hhi'⟩ := isSome_iff_exists.mp hx
  obtain ⟨-, -, -, hlt, -⟩ := guestRangeHi_range hhi'
  exact ⟨hi', hhi', hlt⟩

theorem guestRangeOk_iff : guestRangeOk w m address length write = true ↔
    length = 0 ∨ address ≤ w.wrap (address + length) ∧
      ∃ hi, guestRangeHi m address write = some hi ∧ w.wrap (address + length) ≤ hi := by
  simp only [guestRangeOk, or_eq_true, beq_iff_eq, and_eq_true, not_eq_true',
    decide_eq_false_iff_not, Nat.not_lt, any_eq_true, decide_eq_true_eq]

/-- Every byte of an admitted range is admitted by itself. -/
theorem guestRangeOk_byte (h : guestRangeOk w m address length write = true)
    (haddress : address < 256 ^ w.bytes) (hlength : length < 256 ^ w.bytes) {x : Nat}
    (hlo : address ≤ x) (hhi : x < address + length) :
    address + length < 256 ^ w.bytes ∧ guestRangeOk w m x 1 write = true := by
  rcases guestRangeOk_iff.mp h with hzero | ⟨hwrap, hi, hhieq, hle⟩
  · omega
  have hend : address + length < 256 ^ w.bytes := by
    by_contra hge
    have hmod : w.wrap (address + length) = address + length - 256 ^ w.bytes := by
      rw [WordSize.wrap, Nat.mod_eq_sub_mod (by omega), Nat.mod_eq_of_lt (by omega)]
    omega
  have hstop : w.wrap (address + length) = address + length := Nat.mod_eq_of_lt hend
  have hone : w.wrap (x + 1) = x + 1 := Nat.mod_eq_of_lt (by omega)
  obtain ⟨hi', hhi', hlt⟩ := guestRangeHi_isSome hhieq hlo (by omega)
  exact ⟨hend, guestRangeOk_iff.mpr (Or.inr ⟨by omega, hi', hhi', by omega⟩)⟩

theorem strnlenLoop_spec (bytes : Nat → UInt8) (src n i : Nat) :
    (∀ x ∈ (strnlenLoop bytes src n i).2, src ≤ x ∧ x < src + i + n) ∧
      ∀ k, (strnlenLoop bytes src n i).1 = some k →
        i ≤ k ∧ k < i + n ∧ bytes (src + k) = 0 ∧ ∀ j, i ≤ j → j < k → bytes (src + j) ≠ 0 := by
  induction n generalizing i with
  | zero => exact ⟨nofun, nofun⟩
  | succ n ih =>
    obtain ⟨hreads, hfound⟩ := ih (i + 1)
    unfold strnlenLoop
    split
    · rename_i hnul
      refine ⟨fun x hx => ?_, fun k hk => ?_⟩
      · rw [List.mem_singleton.mp hx]
        omega
      · cases hk
        exact ⟨Nat.le_refl i, by omega, hnul, fun j _ _ => by omega⟩
    rename_i hother
    refine ⟨fun x hx => ?_, fun k hk => ?_⟩
    · rcases List.mem_cons.mp hx with rfl | hx
      · omega
      · have := hreads x hx
        omega
    obtain ⟨hle, hlt, hnul, hno⟩ := hfound k hk
    refine ⟨by omega, by omega, hnul, fun j hj hjk => ?_⟩
    by_cases hji : j = i
    · rw [hji]
      exact hother
    · exact hno j (by omega) hjk

/-- A range that is admitted lies in one window without wrapping, and the length of a string is
found without leaving the window that the string starts in. -/
theorem guestRange_contained (w : WordSize) (m : AddressMap) :
    (∀ address length access, address < 256 ^ w.bytes → length < 256 ^ w.bytes → length ≠ 0 →
      guestRangeOkAs w m address length access = true →
      ∃ range ∈ m.ranges (decide (2 ≤ access)), range.1 ≤ address ∧ address + length ≤ range.2 ∧
        address + length < 256 ^ w.bytes) ∧
    ∀ (p : GuestProc) (bytes : Nat → UInt8) (src max : Nat), p.map = m →
      (∀ x ∈ (guestStrnlen p bytes src max).2, ∃ range ∈ m.ranges false,
        range.1 ≤ src ∧ src ≤ x ∧ x < range.2 ∧ x < src + max) ∧
      ∀ n, (guestStrnlen p bytes src max).1 = some n →
        n < max ∧ bytes (src + n) = 0 ∧ ∀ k < n, bytes (src + k) ≠ 0 := by
  refine ⟨fun address length access haddress hlength hne h => ?_, fun p bytes src max hm => ?_⟩
  · have hok : guestRangeOk w m address length (decide (2 ≤ access)) = true :=
      (and_eq_true _ _ ▸ h).2
    have hend := (guestRangeOk_byte hok haddress hlength (Nat.le_refl address) (by omega)).1
    rcases guestRangeOk_iff.mp hok with hzero | ⟨-, hi, hhi, hle⟩
    · exact absurd hzero hne
    obtain ⟨range, hmem, hlo, -, rfl⟩ := guestRangeHi_range hhi
    rw [WordSize.wrap, Nat.mod_eq_of_lt hend] at hle
    exact ⟨range, hmem, hlo, hle, hend⟩
  unfold guestStrnlen
  split
  · exact ⟨nofun, nofun⟩
  split
  · exact ⟨nofun, nofun⟩
  rename_i hhi
  obtain ⟨range, hmem, hlo, -, rfl⟩ := guestRangeHi_range hhi
  obtain ⟨hreads, hfound⟩ := strnlenLoop_spec bytes src (min (range.2 - src) max) 0
  refine ⟨fun x hx => ?_, fun n hn => ?_⟩
  · have := hreads x hx
    exact ⟨range, hm ▸ hmem, hlo, by omega, by omega, by omega⟩
  · obtain ⟨-, hlt, hnul, hno⟩ := hfound n hn
    exact ⟨by omega, hnul, fun k hk => hno k (Nat.zero_le k) hk⟩

end Range

/-- A process with its region, a pool, one device window and the root file system. -/
def windowedProc : GuestProc where
  map := ⟨(4096, 8192), (16384, 20480), [(0x40000000, 0x40001000)], (65536, 131072)⟩

/-- A transfer to the device window, and a string in the root file system with its NUL. -/
theorem guestRange_contained_window :
    (∃ range ∈ windowedProc.map.ranges true, range.1 ≤ 0x40000f00 ∧
      0x40000f00 + 256 ≤ range.2 ∧ 0x40000f00 + 256 < 256 ^ WordSize.word32.bytes) ∧
    (guestStrnlen windowedProc (fun a => if a = 65540 then 0 else 97) 65536 64).1 = some 4 ∧
    ∀ k < 4, (if 65536 + k = 65540 then (0 : UInt8) else 97) ≠ 0 := by
  obtain ⟨hranges, hstrings⟩ := guestRange_contained .word32 windowedProc.map
  have hfound : (guestStrnlen windowedProc (fun a => if a = 65540 then 0 else 97) 65536 64).1 =
      some 4 := by decide
  exact ⟨hranges 0x40000f00 256 2 (by decide) (by decide) (by decide) (by decide), hfound,
    ((hstrings windowedProc _ 65536 64 rfl).2 4 hfound).2.2⟩

end Lxp
