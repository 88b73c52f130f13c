import Lxp.Guest.Range
import Lxp.Lib.Window
import Mathlib.Data.Nat.ModEq

/-!
# The framebuffer blit

`LXP_FBIO_DMA2D_BLIT` copies a rectangle of guest pixels into the framebuffer.  The guest's
descriptor is checked in 32-bit arithmetic, and what is then handed to the accelerator are
addresses, line gaps and a size; the accelerator touches whatever these say.
-/

open ByteMemory Window Bool

namespace Lxp

/-! ## The driver -/

-- `lxp_fb_info_t`, whose fields are 16 bits wide.
structure FbInfo where
  width : UInt16
  height : UInt16
  strideBytes : UInt16

def FbInfo.size (i : FbInfo) : Nat := i.strideBytes.toNat * i.height.toNat

/-- The display of a board: its geometry, its accelerator and its buffer, which is all
addressable. -/
structure Display (w : WordSize) where
  info : FbInfo
  dma2d : Bool
  buffer : Option Nat
  fits : ∀ fb, buffer = some fb → fb + info.size ≤ 256 ^ w.bytes

structure FbBlit where
  src : UInt32
  srcStride : UInt32
  x : UInt32
  y : UInt32
  w : UInt32
  h : UInt32

structure Dma2dOp where
  w : UInt32
  h : UInt32
  outAddr : Nat
  outOffset : UInt32
  fgAddr : Nat
  fgOffset : UInt32

inductive FbErrno where
  | enosys
  | efault
  | einval
  | eio
deriving DecidableEq

def bpp : UInt32 := 2

/-- The descriptor as it stands in guest memory. -/
def fbBlitAt (f : Nat → UInt8) (arg : Nat) : FbBlit where
  src := UInt32.ofNat (le32 f arg)
  srcStride := UInt32.ofNat (le32 f (arg + 4))
  x := UInt32.ofNat (le32 f (arg + 8))
  y := UInt32.ofNat (le32 f (arg + 12))
  w := UInt32.ofNat (le32 f (arg + 16))
  h := UInt32.ofNat (le32 f (arg + 20))

/-- The bytes from the first source pixel to the last, as the driver computes them in 64 bits. -/
def FbBlit.srcSpan (b : FbBlit) : Nat :=
  (b.h - 1).toNat * b.srcStride.toNat + b.w.toNat * bpp.toNat

def FbBlit.refused (i : FbInfo) (b : FbBlit) : Bool :=
  b.w == 0 || b.h == 0 || decide (i.width.toUInt32 < b.x + b.w) ||
    decide (i.height.toUInt32 < b.y + b.h) || b.srcStride &&& 1 != 0 ||
    decide (b.srcStride < b.w * bpp)

def FbBlit.op (w : WordSize) (i : FbInfo) (fb : Nat) (b : FbBlit) : Dma2dOp where
  w := b.w
  h := b.h
  outAddr := w.wrap (fb + b.y.toNat * i.strideBytes.toNat + b.x.toNat * bpp.toNat)
  outOffset := i.strideBytes.toUInt32 / bpp - b.w
  fgAddr := b.src.toNat
  fgOffset := b.srcStride / bpp - b.w

/-- The operation that is submitted for the descriptor at `arg`. -/
def fbIoctlBlit (w : WordSize) (d : Display w) (p : GuestProc) (f : Nat → UInt8) (arg : Nat) :
    Except FbErrno Dma2dOp :=
  if !d.dma2d then .error .enosys
  else if !guestAccessOk w p arg 24 false then .error .efault
  else
    let b := fbBlitAt f arg
    if b.refused d.info then .error .einval
    else if !guestAccessOk w p b.src.toNat (w.wrap b.srcSpan) false then .error .efault
    else
      match d.buffer with
      | none => .error .eio
      | some fb => .ok (b.op w d.info fb)

/-! ## What the accelerator touches -/

/-- Byte `k` of pixel `c` of line `r`: the gap is counted in pixels. -/
def planeByte (w : WordSize) (addr : Nat) (width offset : UInt32) (r c k : Nat) : Nat :=
  w.wrap (addr + (r * (width.toNat + offset.toNat) + c) * bpp.toNat + k)

def Dma2dOp.Writes (w : WordSize) (op : Dma2dOp) (a : Nat) : Prop :=
  ∃ r < op.h.toNat, ∃ c < op.w.toNat, ∃ k < 2, a = planeByte w op.outAddr op.w op.outOffset r c k

def Dma2dOp.Reads (w : WordSize) (op : Dma2dOp) (a : Nat) : Prop :=
  ∃ r < op.h.toNat, ∃ c < op.w.toNat, ∃ k < 2, a = planeByte w op.fgAddr op.w op.fgOffset r c k

/-- Writes stay in the framebuffer and reads in memory the process may read. -/
def BlitContained (w : WordSize) (d : Display w) (p : GuestProc) (op : Dma2dOp) : Prop :=
  (∀ a, op.Writes w a → ∃ fb, d.buffer = some fb ∧ fb ≤ a ∧ a < fb + d.info.size) ∧
    ∀ a, op.Reads w a → guestRangeOk w p.map a 1 false = true

/-! ## When the rectangle fits -/

/-- Where the rectangle starts in the framebuffer and how far apart its lines are, in the address
arithmetic. -/
def FbBlit.start (w : WordSize) (i : FbInfo) (b : FbBlit) : Nat :=
  w.wrap (b.y.toNat * i.strideBytes.toNat + b.x.toNat * bpp.toNat)

def FbBlit.pitch (w : WordSize) (i : FbInfo) (b : FbBlit) : Nat :=
  w.wrap ((b.w.toNat + (i.strideBytes.toUInt32 / bpp - b.w).toNat) * bpp.toNat)

def FbBlit.Fits (w : WordSize) (i : FbInfo) (b : FbBlit) : Prop :=
  b.start w i + (b.h.toNat - 1) * b.pitch w i + 2 * b.w.toNat ≤ i.size

section Blit

variable {w : WordSize} {d : Display w} {p : GuestProc} {f : Nat → UInt8} {arg : Nat} {op : Dma2dOp}

theorem fbIoctlBlit_ok (h : fbIoctlBlit w d p f arg = .ok op) :
    ∃ fb, d.buffer = some fb ∧ (fbBlitAt f arg).refused d.info = false ∧
      guestAccessOk w p (fbBlitAt f arg).src.toNat (w.wrap (fbBlitAt f arg).srcSpan) false = true ∧
      op = (fbBlitAt f arg).op w d.info fb := by
  unfold fbIoctlBlit at h
  split at h
  · cases h
  split at h
  · cases h
  dsimp only at h
  split at h
  · cases h
  rename_i hrefused
  split at h
  · cases h
  rename_i haccess
  split at h
  · cases h
  · rename_i fb hfb
    injection h with h
    exact ⟨fb, hfb, eq_false_iff.mpr hrefused, by simpa using haccess, h.symm⟩

theorem card_ge (w : WordSize) : 2 ^ 32 ≤ 256 ^ w.bytes := by
  cases w <;> decide

theorem FbInfo.size_lt (i : FbInfo) : i.size ≤ 65535 * 65535 := by
  have hs := i.strideBytes.toNat_lt
  have hh := i.height.toNat_lt
  exact Nat.mul_le_mul (by omega) (by omega)

theorem FbBlit.pitch_le (i : FbInfo) (b : FbBlit) : i.size + b.pitch w i ≤ 256 ^ w.bytes := by
  have hsize := i.size_lt
  have hs := i.strideBytes.toNat_lt
  have hw := b.w.toNat_lt
  have hhalf : (i.strideBytes.toUInt32 / bpp).toNat = i.strideBytes.toNat / 2 := by
    rfl
  have hsub : (i.strideBytes.toUInt32 / bpp - b.w).toNat =
      (2 ^ 32 - b.w.toNat + i.strideBytes.toNat / 2) % 2 ^ 32 := by
    rw [UInt32.toNat_sub, hhalf]
  unfold FbBlit.pitch WordSize.wrap
  cases w with
  | word32 | word64 =>
    simp only [WordSize.bytes, show bpp.toNat = 2 from rfl]
    omega

theorem planeByte_eq (w : WordSize) (i : FbInfo) (fb : Nat) (b : FbBlit) (r c k : Nat) :
    planeByte w (b.op w i fb).outAddr b.w (b.op w i fb).outOffset r c k =
      (fb + (b.start w i + r * b.pitch w i + (2 * c + k))) % 256 ^ w.bytes := by
  have haddr : (b.op w i fb).outAddr ≡
      fb + b.y.toNat * i.strideBytes.toNat + b.x.toNat * bpp.toNat [MOD 256 ^ w.bytes] :=
    Nat.mod_modEq _ _
  have hstart : b.start w i ≡
      b.y.toNat * i.strideBytes.toNat + b.x.toNat * bpp.toNat [MOD 256 ^ w.bytes] :=
    Nat.mod_modEq _ _
  have hpitch : b.pitch w i ≡
      (b.w.toNat + (b.op w i fb).outOffset.toNat) * bpp.toNat [MOD 256 ^ w.bytes] :=
    Nat.mod_modEq _ _
  calc (b.op w i fb).outAddr + (r * (b.w.toNat + (b.op w i fb).outOffset.toNat) + c) *
        bpp.toNat + k
      ≡ fb + b.y.toNat * i.strideBytes.toNat + b.x.toNat * bpp.toNat +
        (r * (b.w.toNat + (b.op w i fb).outOffset.toNat) + c) * bpp.toNat + k
          [MOD 256 ^ w.bytes] := (haddr.add_right _).add_right _
    _ = fb + ((b.y.toNat * i.strideBytes.toNat + b.x.toNat * bpp.toNat) +
        r * ((b.w.toNat + (b.op w i fb).outOffset.toNat) * bpp.toNat) + (2 * c + k)) := by
        rw [show bpp.toNat = 2 from rfl]
        ring
    _ ≡ fb + (b.start w i + r * b.pitch w i + (2 * c + k)) [MOD 256 ^ w.bytes] :=
        (((hstart.symm.add (hpitch.symm.mul_left r))).add_right _).add_left _

theorem start_lt (w : WordSize) (i : FbInfo) (b : FbBlit) : b.start w i < 256 ^ w.bytes :=
  Nat.mod_lt _ (Nat.pow_pos (by decide))

variable {i : FbInfo} {b : FbBlit}

theorem FbBlit.size_pos (h : b.refused i = false) : 0 < b.w.toNat ∧ 0 < b.h.toNat := by
  simp only [FbBlit.refused, or_eq_false_iff, beq_eq_false_iff_ne] at h
  obtain ⟨⟨⟨⟨⟨hw, hh⟩, -⟩, -⟩, -⟩, -⟩ := h
  have hw' : b.w.toNat ≠ 0 := fun h0 => hw (UInt32.toNat_inj.mp h0)
  have hh' : b.h.toNat ≠ 0 := fun h0 => hh (UInt32.toNat_inj.mp h0)
  omega

/-- The bytes written are those of the rectangle's lines. -/
theorem writes_inside_iff {fb : Nat} (hfits : fb + i.size ≤ 256 ^ w.bytes)
    (hb : b.refused i = false) :
    (∀ a, (b.op w i fb).Writes w a → fb ≤ a ∧ a < fb + i.size) ↔ b.Fits w i := by
  obtain ⟨hw, hh⟩ := b.size_pos hb
  have hsize := i.size_lt
  have hcard := card_ge w
  have hlen : 0 < 2 * b.w.toNat := by omega
  have hrows := rows_inside_iff hfits (b.start w i) (b.pitch w i) hlen hh (start_lt w i b)
    (b.pitch_le i) (by omega)
  unfold FbBlit.Fits
  rw [← hrows]
  constructor
  · intro h r hr c hc
    have hin := h _ ⟨r, hr, c / 2, Nat.div_lt_of_lt_mul hc, c % 2, Nat.mod_lt _ (by decide), rfl⟩
    have heq := planeByte_eq w i fb b r (c / 2) (c % 2)
    rw [Nat.div_add_mod] at heq
    have hout : (b.op w i fb).w = b.w := rfl
    rw [hout, heq] at hin
    exact hin
  · rintro h a ⟨r, hr, c, hc, k, hk, rfl⟩
    have hc' : c < b.w.toNat := hc
    have hin := h r hr (2 * c + k) (by omega)
    have hout : (b.op w i fb).w = b.w := rfl
    rw [hout, planeByte_eq]
    exact hin

/-- The bytes read are checked, unless the span is more than a word holds. -/
theorem reads_checked {fb : Nat} (hb : b.refused i = false)
    (hfits : b.Fits w i) (hspan : b.srcSpan < 256 ^ w.bytes)
    (haccess : guestRangeOk w p.map b.src.toNat (w.wrap b.srcSpan) false = true) {a : Nat}
    (ha : (b.op w i fb).Reads w a) : guestRangeOk w p.map a 1 false = true := by
  obtain ⟨-, hh⟩ := b.size_pos hb
  obtain ⟨r, hr, c, hc, k, hk, rfl⟩ := ha
  have hr' : r < b.h.toNat := hr
  have hc' : c < b.w.toNat := hc
  have hsize := i.size_lt
  have hsrc := b.src.toNat_lt
  have hcard := card_ge w
  have hwidth : 2 * b.w.toNat < 2 ^ 32 := by
    unfold FbBlit.Fits at hfits
    omega
  simp only [FbBlit.refused, or_eq_false_iff, decide_eq_false_iff_not, bne_eq_false_iff_eq,
    UInt32.lt_iff_toNat_lt, UInt32.toNat_mul] at hb
  obtain ⟨⟨-, heven⟩, hstride⟩ := hb
  have htwo : bpp.toNat = 2 := rfl
  rw [htwo] at hstride
  have hmod : b.srcStride.toNat % 2 = 0 := by
    have h1 := congrArg UInt32.toNat heven
    have h2 : b.srcStride.toNat &&& 1 = 0 := h1
    rwa [Nat.and_one_is_mod] at h2
  -- The gap does not wrap, so that lines are one source stride apart.
  have hgap : (b.srcStride / bpp - b.w).toNat = b.srcStride.toNat / 2 - b.w.toNat := by
    have hle : b.w ≤ b.srcStride / bpp := by
      rw [UInt32.le_iff_toNat_le, UInt32.toNat_div, htwo]
      omega
    rw [UInt32.toNat_sub_of_le _ _ hle, UInt32.toNat_div, htwo]
  have hpred : (b.h - 1).toNat = b.h.toNat - 1 := by
    have hle : (1 : UInt32) ≤ b.h := by
      exact hh
    exact UInt32.toNat_sub_of_le _ _ hle
  have hspanEq : b.srcSpan = (b.h.toNat - 1) * b.srcStride.toNat + b.w.toNat * 2 := by
    rw [FbBlit.srcSpan, hpred, htwo]
  have hrow : r * b.srcStride.toNat ≤ (b.h.toNat - 1) * b.srcStride.toNat :=
    Nat.mul_le_mul_right _ (by omega)
  have hline : r * (b.w.toNat + (b.srcStride.toNat / 2 - b.w.toNat)) * 2 =
      r * b.srcStride.toNat := by
    have h2 : (b.w.toNat + (b.srcStride.toNat / 2 - b.w.toNat)) * 2 = b.srcStride.toNat := by omega
    rw [Nat.mul_assoc, h2]
  have hbyte : planeByte w (b.op w i fb).fgAddr (b.op w i fb).w (b.op w i fb).fgOffset r c k =
      w.wrap (b.src.toNat + (r * b.srcStride.toNat + c * 2 + k)) := by
    unfold planeByte FbBlit.op
    rw [hgap, htwo, Nat.add_mul, hline]
    simp only [Nat.add_assoc]
  have hwrap : w.wrap b.srcSpan = b.srcSpan := Nat.mod_eq_of_lt hspan
  rw [hwrap] at haccess
  have hin : b.src.toNat + (r * b.srcStride.toNat + c * 2 + k) < b.src.toNat + b.srcSpan := by
    omega
  obtain ⟨hend, hok⟩ := guestRangeOk_byte haccess (by omega) hspan (Nat.le_add_right _ _) hin
  rw [hbyte, WordSize.wrap, Nat.mod_eq_of_lt (by omega)]
  exact hok

end Blit

/-- An accepted blit stays inside when its rectangle fits and its source span is a word; and it
stays inside only when its rectangle fits. -/
theorem fbIoctlBlit_contained (w : WordSize) (d : Display w) (p : GuestProc) (f : Nat → UInt8)
    (arg : Nat) {op : Dma2dOp} (h : fbIoctlBlit w d p f arg = .ok op) :
    ((fbBlitAt f arg).Fits w d.info → (fbBlitAt f arg).srcSpan < 256 ^ w.bytes →
      BlitContained w d p op) ∧ (BlitContained w d p op → (fbBlitAt f arg).Fits w d.info) := by
  obtain ⟨fb, hfb, hb, haccess, rfl⟩ := fbIoctlBlit_ok h
  have hiff := writes_inside_iff (d.fits fb hfb) hb
  constructor
  · intro hfits hspan
    refine ⟨fun a ha => ⟨fb, hfb, hiff.mpr hfits a ha⟩, fun a ha => ?_⟩
    have hrange : guestRangeOk w p.map (fbBlitAt f arg).src.toNat
        (w.wrap (fbBlitAt f arg).srcSpan) false = true := by
      rw [guestAccessOk, and_eq_true] at haccess
      exact haccess.2
    exact reads_checked hb hfits hspan hrange ha
  · rintro ⟨hwrites, -⟩
    refine hiff.mp fun a ha => ?_
    obtain ⟨fb', hfb', hin⟩ := hwrites a ha
    rw [hfb] at hfb'
    cases hfb'
    exact hin

/-- A panel of 480 by 272 pixels and a process with one region. -/
def panel : Display .word32 where
  info := ⟨480, 272, 960⟩
  dma2d := true
  buffer := some 0xC0000000
  fits := by
    intro fb hfb
    cases hfb
    decide

def blitProc : GuestProc := { map := ⟨(0x20000000, 0x20010000), (0, 0), [], (0, 0)⟩ }

/-- A descriptor at the start of the region, followed by its pixels. -/
def descriptor (b : FbBlit) : Nat → UInt8 := fun a =>
  let word := [b.src, b.srcStride, b.x, b.y, b.w, b.h].getD ((a - 0x20000000) / 4) 0
  UInt8.ofNat (word.toNat / 256 ^ (a % 4))

def smallBlit : FbBlit := ⟨0x20000100, 4, 0, 0, 2, 2⟩

def wrappedBlit : FbBlit := ⟨0x20000100, 4, 0xFFFFFFFF, 0, 2, 1⟩

theorem fbIoctlBlit_contained_small :
    ∃ op, fbIoctlBlit .word32 panel blitProc (descriptor smallBlit) 0x20000000 = .ok op ∧
      BlitContained .word32 panel blitProc op := by
  have hok : fbIoctlBlit .word32 panel blitProc (descriptor smallBlit) 0x20000000 =
      .ok ((fbBlitAt (descriptor smallBlit) 0x20000000).op .word32 panel.info 0xC0000000) := rfl
  have hcontained := fbIoctlBlit_contained .word32 panel blitProc _ _ hok
  refine ⟨_, hok, hcontained.1 ?_ ?_⟩
  · unfold FbBlit.Fits
    decide +kernel
  · decide +kernel

/-- The sum of column and width wraps to 1, and the first pixel is written in front of the
framebuffer. -/
theorem fbIoctlBlit_writes_below :
    ∃ op, fbIoctlBlit .word32 panel blitProc (descriptor wrappedBlit) 0x20000000 = .ok op ∧
      op.Writes .word32 0xBFFFFFFE ∧ ¬ BlitContained .word32 panel blitProc op := by
  have hok : fbIoctlBlit .word32 panel blitProc (descriptor wrappedBlit) 0x20000000 =
      .ok ((fbBlitAt (descriptor wrappedBlit) 0x20000000).op .word32 panel.info 0xC0000000) := rfl
  have hwrites : ((fbBlitAt (descriptor wrappedBlit) 0x20000000).op .word32 panel.info
      0xC0000000).Writes .word32 0xBFFFFFFE :=
    ⟨0, by decide +kernel, 0, by decide +kernel, 0, by decide, by decide +kernel⟩
  refine ⟨_, hok, hwrites, fun hcontained => ?_⟩
  obtain ⟨fb, hfb, hle, -⟩ := hcontained.1 _ hwrites
  cases hfb
  revert hle
  decide

end Lxp
