import Lxp.Display.Blit

/-!
# The 2D accelerator's device

`LXP_DMA2D_SUBMIT` hands a guest's descriptor to the accelerator once every plane that its mode
touches was checked against the guest's memory.
-/

namespace Lxp

structure Dma2dPlane where
  addr : UInt32
  offset : UInt32
  cf : UInt32
  color : UInt32

/-- A descriptor; the operation has the same fields. -/
structure Dma2dSubmit where
  mode : UInt32
  w : UInt32
  h : UInt32
  output : Dma2dPlane
  fg : Dma2dPlane
  fgAlphaMode : UInt32
  fgAlpha : UInt32
  bg : Dma2dPlane
  bgAlphaMode : UInt32
  bgAlpha : UInt32

/-- Bytes per pixel, rounded up; 0 for a format that does not exist. -/
def dma2dBpp (cf : UInt32) : Nat :=
  if cf = 0 then 4
  else if cf = 1 then 3
  else if cf = 2 ∨ cf = 3 ∨ cf = 4 then 2
  else if cf = 9 ∨ cf = 10 then 1
  else 0

-- `LXP_DMA2D_R2M` reads no plane, and only the two blending modes read the background.
def readsFg (mode : UInt32) : Bool := mode != 4

def readsBg (mode : UInt32) : Bool := mode == 2 || mode == 3

/-- Pixels from the first to the last one of a plane. -/
def planePixels (w h offset : UInt32) : Nat :=
  (h.toNat - 1) * (w.toNat + offset.toNat) + w.toNat

def dma2dCheckPlane (word : WordSize) (p : GuestProc) (w h : UInt32) (plane : Dma2dPlane)
    (write : Bool) : Except FbErrno UInt32 :=
  let span := planePixels w h plane.offset * dma2dBpp plane.cf
  if dma2dBpp plane.cf = 0 ∨ w = 0 ∨ h = 0 ∨ 4096 < w ∨ 4096 < h ∨ 4096 < plane.offset then
    .error .einval
  else if span = 0 ∨ 16 * 1024 * 1024 < span then .error .einval
  else if !guestAccessOk word p plane.addr.toNat span write then .error .efault
  else .ok plane.addr

/-- A plane that is read in some modes only; its address is 0 in the others. -/
def dma2dCheckRead (word : WordSize) (p : GuestProc) (w h : UInt32) (plane : Dma2dPlane)
    (reads : Bool) : Except FbErrno UInt32 :=
  if reads then dma2dCheckPlane word p w h plane false else .ok 0

def dma2dPrepareOp (word : WordSize) (p : GuestProc) (s : Dma2dSubmit) :
    Except FbErrno Dma2dSubmit :=
  if 4 < s.mode ∨ 4 < s.output.cf ∨ 2 < s.fgAlphaMode ∨ 2 < s.bgAlphaMode then .error .einval
  else do
    let outAddr ← dma2dCheckPlane word p s.w s.h s.output true
    let fgAddr ← dma2dCheckRead word p s.w s.h s.fg (readsFg s.mode)
    let bgAddr ← dma2dCheckRead word p s.w s.h s.bg (readsBg s.mode)
    return { s with
      output := { s.output with addr := outAddr }
      fg := { s.fg with addr := fgAddr }
      bg := { s.bg with addr := bgAddr } }

/-- An A4 pixel is half a byte. -/
def pixelBits (cf : UInt32) : Nat := if cf = 10 then 4 else 8 * dma2dBpp cf

/-- The byte that holds bit `k` of pixel `c` of line `r`. -/
def Dma2dPlane.Touches (plane : Dma2dPlane) (w h : UInt32) (a : Nat) : Prop :=
  ∃ r < h.toNat, ∃ c < w.toNat, ∃ k < pixelBits plane.cf, a = plane.addr.toNat +
    ((r * (w.toNat + plane.offset.toNat) + c) * pixelBits plane.cf + k) / 8

section Plane

variable {word : WordSize} {p : GuestProc} {w h : UInt32} {plane : Dma2dPlane} {write : Bool}

theorem pixelBits_le (cf : UInt32) : pixelBits cf ≤ 8 * dma2dBpp cf := by
  unfold pixelBits
  split
  · rename_i hcf
    rw [hcf]
    decide
  · exact Nat.le_refl _

theorem touches_lt {a : Nat} (ha : plane.Touches w h a) : plane.addr.toNat ≤ a ∧
    a < plane.addr.toNat + planePixels w h plane.offset * dma2dBpp plane.cf := by
  obtain ⟨r, hr, c, hc, k, hk, rfl⟩ := ha
  refine ⟨Nat.le_add_right _ _, Nat.add_lt_add_left (Nat.div_lt_of_lt_mul ?_) _⟩
  have hrow : r * (w.toNat + plane.offset.toNat) ≤
      (h.toNat - 1) * (w.toNat + plane.offset.toNat) := Nat.mul_le_mul_right _ (by omega)
  calc (r * (w.toNat + plane.offset.toNat) + c) * pixelBits plane.cf + k
      < (r * (w.toNat + plane.offset.toNat) + c + 1) * pixelBits plane.cf := by
        rw [Nat.add_mul _ 1]
        omega
    _ ≤ planePixels w h plane.offset * (8 * dma2dBpp plane.cf) :=
        Nat.mul_le_mul (by unfold planePixels; omega) (pixelBits_le _)
    _ = 8 * (planePixels w h plane.offset * dma2dBpp plane.cf) := Nat.mul_left_comm ..

theorem dma2dCheckPlane_ok {addr : UInt32}
    (hok : dma2dCheckPlane word p w h plane write = .ok addr) : addr = plane.addr ∧
      ∀ a, plane.Touches w h a → guestAccessOk word p a 1 write = true := by
  unfold dma2dCheckPlane at hok
  dsimp only at hok
  split at hok
  · cases hok
  split at hok
  · cases hok
  split at hok
  · cases hok
  rename_i hspan haccess
  cases hok
  refine ⟨rfl, fun a ha => ?_⟩
  obtain ⟨hlo, hhi⟩ := touches_lt ha
  simp only [guestAccessOk, Bool.not_eq_true', Bool.not_eq_false, Bool.and_eq_true] at haccess ⊢
  have hcard := card_ge word
  have haddr := plane.addr.toNat_lt
  exact ⟨haccess.1, (guestRangeOk_byte haccess.2 (by omega) (by omega) hlo hhi).2⟩

theorem dma2dCheckRead_ok {reads : Bool} {addr : UInt32}
    (hok : dma2dCheckRead word p w h plane reads = .ok addr) :
    { plane with addr := addr } = (if reads then plane else { plane with addr := 0 }) ∧
      (reads → ∀ a, plane.Touches w h a → guestAccessOk word p a 1 false = true) := by
  cases reads with
  | true =>
    obtain ⟨rfl, hall⟩ := dma2dCheckPlane_ok hok
    exact ⟨rfl, fun _ => hall⟩
  | false =>
    cases hok
    exact ⟨rfl, nofun⟩

end Plane

theorem bind_ok {ε α β : Type} {x : Except ε α} {f : α → Except ε β} {b : β}
    (h : (x >>= f) = .ok b) : ∃ a, x = .ok a ∧ f a = .ok b := by
  cases x with
  | error => cases h
  | ok a => exact ⟨a, rfl, h⟩

/-- What is submitted are the planes of the descriptor, and the accelerator writes and reads only
what the caller may. -/
theorem dma2dPrepareOp_confined {word : WordSize} {p : GuestProc} {s op : Dma2dSubmit}
    (hok : dma2dPrepareOp word p s = .ok op) :
    op = { s with
      fg := if readsFg s.mode then s.fg else { s.fg with addr := 0 }
      bg := if readsBg s.mode then s.bg else { s.bg with addr := 0 } } ∧
    (∀ a, op.output.Touches op.w op.h a → guestAccessOk word p a 1 true = true) ∧
    (readsFg op.mode → ∀ a, op.fg.Touches op.w op.h a → guestAccessOk word p a 1 false = true) ∧
    (readsBg op.mode → ∀ a, op.bg.Touches op.w op.h a → guestAccessOk word p a 1 false = true) := by
  unfold dma2dPrepareOp at hok
  split at hok
  · cases hok
  obtain ⟨outAddr, hout, hok⟩ := bind_ok hok
  obtain ⟨fgAddr, hfg, hok⟩ := bind_ok hok
  obtain ⟨bgAddr, hbg, hok⟩ := bind_ok hok
  cases hok
  obtain ⟨rfl, hwrites⟩ := dma2dCheckPlane_ok hout
  obtain ⟨hfgEq, hreadsFg⟩ := dma2dCheckRead_ok hfg
  obtain ⟨hbgEq, hreadsBg⟩ := dma2dCheckRead_ok hbg
  rw [hfgEq, hbgEq]
  refine ⟨rfl, hwrites, fun hreads => ?_, fun hreads => ?_⟩
  · dsimp only at hreads ⊢
    rw [if_pos hreads]
    exact hreadsFg hreads
  · dsimp only at hreads ⊢
    rw [if_pos hreads]
    exact hreadsBg hreads

def smallBlend : Dma2dSubmit :=
  ⟨2, 2, 1, ⟨0x20000100, 0, 2, 0⟩, ⟨0x20000200, 0, 9, 0⟩, 0, 0, ⟨0x20000100, 0, 2, 0⟩, 0, 0⟩

theorem smallBlend_confined : dma2dPrepareOp .word32 blitProc smallBlend = .ok smallBlend ∧
    ∀ a, smallBlend.output.Touches 2 1 a → guestAccessOk .word32 blitProc a 1 true = true := by
  have hok : dma2dPrepareOp .word32 blitProc smallBlend = .ok smallBlend := rfl
  exact ⟨hok, (dma2dPrepareOp_confined hok).2.1⟩

end Lxp
