import Lxp.Arena.Heap

/-!
# Valid layouts

The check in front of every operation accepts exactly the buffers whose headers tile the managed
region and whose allocated blocks add up to the used counter.  On such a buffer the walks find what
they look for and read only headers of blocks.
-/

open ByteMemory BlockList List

namespace Lxp

variable {w : WordSize} {nmap : Nat}

theorem ok_bind {α β : Type} (x : α) (f : α → Except Fault β) : (Except.ok x >>= f) = f x := rfl

theorem WordSize.bytes_le (w : WordSize) : w.bytes + 8 ≤ 16 := by
  cases w <;> decide

/-! ## Headers -/

section Headers

variable {f g : Nat → UInt8} {a v : Nat} {m : Mem}

theorem hdrAt_congr (h : ∀ x, a ≤ x → x < a + 16 → f x = g x) : hdrAt w f a = hdrAt w g a := by
  have hw := w.bytes_le
  have hpayload : le f a w.bytes = le g a w.bytes :=
    le_congr fun k hk => h (a + k) (by omega) (by omega)
  have hfree : le f (a + w.bytes) 4 = le g (a + w.bytes) 4 :=
    le_congr fun k hk => h (a + w.bytes + k) (by omega) (by omega)
  have hmagic : le f (a + w.bytes + 4) 4 = le g (a + w.bytes + 4) 4 :=
    le_congr fun k hk => h (a + w.bytes + 4 + k) (by omega) (by omega)
  simp only [hdrAt, hpayload, hfree, hmagic]

theorem hdrAt_store_payload (w : WordSize) (m : Mem) (a v : Nat) :
    hdrAt w (m.store a w.bytes v).bytes a =
      { hdrAt w m.bytes a with payload := v % 256 ^ w.bytes } := by
  simp only [hdrAt, Mem.le_store_same]
  rw [Mem.le_store_of_disjoint m (by omega), Mem.le_store_of_disjoint m (by omega)]

theorem hdrAt_store_isFree (w : WordSize) (m : Mem) (a v : Nat) :
    hdrAt w (m.store (a + w.bytes) 4 v).bytes a =
      { hdrAt w m.bytes a with isFree := v % 256 ^ 4 } := by
  simp only [hdrAt, Mem.le_store_same]
  rw [Mem.le_store_of_disjoint m (by omega), Mem.le_store_of_disjoint m (by omega)]

theorem hdrAt_store_magic (w : WordSize) (m : Mem) (a v : Nat) :
    hdrAt w (m.store (a + w.bytes + 4) 4 v).bytes a =
      { hdrAt w m.bytes a with magic := v % 256 ^ 4 } := by
  simp only [hdrAt, Mem.le_store_same]
  rw [Mem.le_store_of_disjoint m (by omega), Mem.le_store_of_disjoint m (by omega)]

theorem hdrAt_store_of_disjoint (w : WordSize) {dst len : Nat}
    (h : a + 16 ≤ dst ∨ dst + len ≤ a) : hdrAt w (m.store dst len v).bytes a = hdrAt w m.bytes a :=
  hdrAt_congr fun _ _ _ => Mem.store_bytes_of_out m (by omega)

end Headers

section Access

variable {h : Arena w nmap} {a v : Nat}

section

variable (hin : h.holds a 16)
include hin

theorem readHdr_ok : readHdr a h = .ok (hdrAt w h.mem.bytes a) := if_pos hin

theorem setPayload_ok :
    setPayload a v h = .ok { h with mem := h.mem.store a w.bytes v } := if_pos hin

theorem setIsFree_ok :
    setIsFree a v h = .ok { h with mem := h.mem.store (a + w.bytes) 4 v } := if_pos hin

theorem setMagic_ok :
    setMagic a v h = .ok { h with mem := h.mem.store (a + w.bytes + 4) 4 v } := if_pos hin

theorem setPayload_mem (m : Mem) :
    setPayload a v ({ h with mem := m } : Arena w nmap) =
      .ok { h with mem := m.store a w.bytes v } := if_pos hin

theorem setIsFree_mem (m : Mem) :
    setIsFree a v ({ h with mem := m } : Arena w nmap) =
      .ok { h with mem := m.store (a + w.bytes) 4 v } := if_pos hin

theorem setMagic_mem (m : Mem) :
    setMagic a v ({ h with mem := m } : Arena w nmap) =
      .ok { h with mem := m.store (a + w.bytes + 4) 4 v } := if_pos hin

end

end Access

/-! ## The layout -/

/-- The header at `a` describes the block `b`. -/
structure IsBlk (w : WordSize) (f : Nat → UInt8) (a : Nat) (b : Block) : Prop where
  header : hdrAt w f a = ⟨b.payload, b.free.toNat, arenaMagic⟩
  least : 16 ≤ b.payload
  aligned : 16 ∣ b.payload

variable {f : Nat → UInt8} {a e : Nat} {bs : List Block}

theorem IsBlk.congr {g : Nat → UInt8} {b : Block} (h : IsBlk w f a b)
    (hfg : ∀ x, a ≤ x → x < a + 16 → g x = f x) : IsBlk w g a b :=
  ⟨(hdrAt_congr hfg).trans h.header, h.least, h.aligned⟩

abbrev Laid (w : WordSize) (f : Nat → UInt8) : Nat → List Block → Nat → Prop :=
  Tiles 16 (IsBlk w f)

theorem Laid.congr {g : Nat → UInt8} (h : Laid w f a bs e)
    (hfg : ∀ x, a ≤ x → x < e → g x = f x) : Laid w g a bs e :=
  h.imp fun x b hx he hb => hb.congr fun y hy hy' => hfg y (by omega) (by omega)

theorem Laid.aligned (h : Laid w f a bs e) : 16 ∣ extent 16 bs := by
  induction bs generalizing a with
  | nil => exact ⟨0, rfl⟩
  | cons b bs ih =>
    have hb := h.1.aligned
    have hbs := ih h.2
    rw [extent_cons]
    omega

/-- The headers say what the blocks are. -/
theorem Laid.unique {cs : List Block} (h : Laid w f a bs e) (h' : Laid w f a cs e) : bs = cs := by
  induction bs generalizing a cs with
  | nil =>
    cases cs with
    | nil => rfl
    | cons c cs =>
      have hstart : a = e := h
      have hend := h'.2.end_eq
      omega
  | cons b bs ih =>
    cases cs with
    | nil =>
      have hstart : a = e := h'
      have hend := h.2.end_eq
      omega
    | cons c cs =>
      have hheader := h.1.header.symm.trans h'.1.header
      rw [ArenaBlk.mk.injEq] at hheader
      obtain ⟨p, free⟩ := b
      obtain ⟨q, free'⟩ := c
      obtain ⟨rfl, hfree, -⟩ := hheader
      have hfree : free = free' := by cases free <;> cases free' <;> simp_all
      rw [hfree, ih h.2 h'.2]

/-- What an arena is apart from its headers; `init` leaves it so and no operation changes it. -/
structure Intact (h : Arena w nmap) : Prop where
  nonnull : h.base ≠ 0
  first : h.first = h.base
  size : 32 ≤ h.size
  sizeAligned : 16 ∣ h.size
  baseAligned : 16 ∣ h.base
  sizeFits : h.size < 256 ^ w.bytes

structure Valid (h : Arena w nmap) (bs : List Block) : Prop extends Intact h where
  fits : h.base + h.size < 256 ^ w.bytes
  laid : Laid w h.mem.bytes h.base bs (h.base + h.size)
  used : h.used = allocated 16 bs

namespace Valid

variable {h : Arena w nmap} {pre post : List Block} {b : Block}

theorem extent_eq (hv : Valid h bs) : extent 16 bs = h.size := by
  have := hv.laid.end_eq
  omega

section

variable (hv : Valid h (pre ++ b :: post))
include hv

theorem mid : h.holds (h.base + extent 16 pre) 16 ∧
      h.base + extent 16 pre + 16 + b.payload ≤ h.base + h.size ∧
      IsBlk w h.mem.bytes (h.base + extent 16 pre) b := by
  have hext := hv.extent_eq
  rw [extent_append, extent_cons] at hext
  refine ⟨⟨by omega, by omega⟩, by omega, (tiles_mid.mp hv.laid).2.1⟩

theorem holds : h.holds (h.base + extent 16 pre) 16 := hv.mid.1

theorem isBlk :
    IsBlk w h.mem.bytes (h.base + extent 16 pre) b := hv.mid.2.2

theorem read : readHdr (h.base + extent 16 pre) h = .ok ⟨b.payload, b.free.toNat, arenaMagic⟩ := by
  rw [readHdr_ok hv.holds, hv.isBlk.header]

theorem preAligned : 16 ∣ extent 16 pre := Laid.aligned (tiles_mid.mp hv.laid).1

theorem wrap_next : w.wrap (h.base + extent 16 pre + 16 + b.payload) =
      h.base + extent 16 pre + 16 + b.payload := by
  have hle := hv.mid.2.1
  have hfits := hv.fits
  exact Nat.mod_eq_of_lt (by omega)

end

end Valid

section Walks

variable {h : Arena w nmap}

/-- From any place between two headers the check ends, and it accepts exactly the tilings of the
rest. -/
theorem layoutWalk_spec (n cur used : Nat) (hbase : h.base ≤ cur) (hcur : cur ≤ arenaEnd h)
    (hn : arenaEnd h - cur < n) (hused : used + h.base ≤ cur) :
    ∃ r, layoutWalk h n cur used = .ok r ∧
      (r = true ↔ ∃ bs, Laid w h.mem.bytes cur bs (arenaEnd h) ∧
        h.used = used + allocated 16 bs) := by
  induction n generalizing cur used with
  | zero => omega
  | succ n ih =>
    unfold layoutWalk
    by_cases hlt : cur < arenaEnd h
    · rw [if_pos hlt]
      simp only [arenaHdr, arenaAlign]
      -- A tiling of what is left starts with the header read here.
      have hnonempty : ∀ bs, Laid w h.mem.bytes cur bs (arenaEnd h) → ∃ b bs', bs = b :: bs' := by
        intro bs hbs
        cases bs with
        | nil => exact absurd hbs (by simp only [Tiles]; omega)
        | cons b bs' => exact ⟨b, bs', rfl⟩
      by_cases hroom : arenaEnd h - cur < 16
      · rw [if_pos hroom]
        refine ⟨false, rfl, nofun, fun ⟨bs, hbs, _⟩ => ?_⟩
        obtain ⟨b, bs', rfl⟩ := hnonempty bs hbs
        have hend := hbs.2.end_eq
        omega
      rw [if_neg hroom]
      have hin : h.holds cur 16 := ⟨hbase, by unfold arenaEnd at hroom hlt; omega⟩
      rw [readHdr_ok hin, ok_bind]
      generalize hhd : hdrAt w h.mem.bytes cur = hd
      obtain ⟨payload, isFree, magic⟩ := hd
      dsimp only
      split
      · rename_i hbad
        refine ⟨false, rfl, nofun, fun ⟨bs, hbs, _⟩ => ?_⟩
        obtain ⟨⟨q, free⟩, bs', rfl⟩ := hnonempty bs hbs
        have hheader := hbs.1.header
        rw [hhd] at hheader
        obtain ⟨rfl, rfl, rfl⟩ := hheader
        have hleast := hbs.1.least
        have haligned := hbs.1.aligned
        have hend := hbs.2.end_eq
        have hbool := Bool.toNat_le free
        simp only at hleast haligned hend hbad
        rcases hbad with h1 | h1 | h1 | h1 | h1 <;> omega
      · rename_i hgood
        have hgood' : magic = arenaMagic ∧ isFree ≤ 1 ∧ 16 ≤ payload ∧ payload % 16 = 0 ∧
            payload ≤ arenaEnd h - cur - 16 := by
          refine ⟨?_, by omega, by omega, by omega, by omega⟩
          by_contra hm
          exact hgood (.inl hm)
        obtain ⟨rfl, hbit, hleast, haligned, -⟩ := hgood'
        have hsize' : arenaEnd h = h.base + h.size := rfl
        -- The block read here is in front of every tiling from here.
        have hsplit : ∀ used' : Nat, used' = used + (if isFree = 0 then 16 + payload else 0) →
            ((∃ bs, Laid w h.mem.bytes (cur + (16 + payload)) bs (arenaEnd h) ∧
              h.used = used' + allocated 16 bs) ↔
            ∃ bs, Laid w h.mem.bytes cur bs (arenaEnd h) ∧
              h.used = used + allocated 16 bs) := by
          intro used' hused'
          constructor
          · rintro ⟨bs, hbs, hsum⟩
            refine ⟨⟨payload, isFree == 1⟩ :: bs, ⟨⟨?_, hleast, ?_⟩, ?_⟩, ?_⟩
            · rw [hhd]
              rcases Nat.le_one_iff_eq_zero_or_eq_one.mp hbit with rfl | rfl <;> rfl
            · exact Nat.dvd_of_mod_eq_zero haligned
            · rw [← Nat.add_assoc] at hbs
              exact hbs
            · rw [hsum, hused', Nat.add_assoc]
              rcases Nat.le_one_iff_eq_zero_or_eq_one.mp hbit with rfl | rfl <;> rfl
          · rintro ⟨bs, hbs, hsum⟩
            obtain ⟨⟨q, free⟩, bs', rfl⟩ := hnonempty bs hbs
            have hheader := hbs.1.header
            rw [hhd] at hheader
            obtain ⟨rfl, rfl, -⟩ := hheader
            refine ⟨bs', by rw [← Nat.add_assoc]; exact hbs.2, ?_⟩
            rw [hsum, hused', Nat.add_assoc]
            cases free <;> rfl
        split
        · rename_i hzero
          rw [if_neg (by omega)]
          obtain ⟨r, hr, hiff⟩ := ih (cur + (16 + payload)) (used + (16 + payload))
            (by omega) (by omega) (by omega) (by omega)
          refine ⟨r, hr, hiff.trans (hsplit _ ?_)⟩
          rw [if_pos hzero]
        · rename_i hzero
          obtain ⟨r, hr, hiff⟩ := ih (cur + (16 + payload)) used (by omega) (by omega)
            (by omega) (by omega)
          refine ⟨r, hr, hiff.trans (hsplit _ ?_)⟩
          rw [if_neg hzero, Nat.add_zero]
    · rw [if_neg hlt]
      have hend : cur = arenaEnd h := by omega
      refine ⟨_, rfl, ?_⟩
      simp only [hend, beq_self_eq_true, Bool.true_and, beq_iff_eq]
      constructor
      · intro heq
        exact ⟨[], rfl, heq.symm⟩
      · rintro ⟨bs, hbs, hsum⟩
        cases bs with
        | nil => exact hsum.symm
        | cons b bs =>
          have hnext := hbs.2.end_eq
          omega

theorem arenaLayoutValid_spec (hi : Intact h) :
    ∃ r, arenaLayoutValid h = .ok r ∧ (r = true ↔ ∃ bs, Valid h bs) := by
  have hsize := hi.size
  obtain ⟨k, hk⟩ := hi.sizeAligned
  obtain ⟨l, hl⟩ := hi.baseAligned
  have hctl : ¬ (h.base = 0 ∨ h.first ≠ h.base ∨ h.size < 16 + 16 ∨ h.size % 16 ≠ 0) := by
    rintro (h1 | h1 | h1 | h1)
    · exact hi.nonnull h1
    · exact h1 hi.first
    · omega
    · omega
  have hmax : w.sizeMax = 256 ^ w.bytes - 1 := rfl
  unfold arenaLayoutValid
  simp only [arenaAlign]
  rw [if_neg hctl]
  split
  · refine ⟨false, rfl, nofun, fun ⟨bs, hv⟩ => ?_⟩
    have := hv.fits
    omega
  obtain ⟨r, hr, hiff⟩ := layoutWalk_spec (walkBound h) h.base 0 (Nat.le_refl _)
    (by unfold arenaEnd; omega) (by unfold arenaEnd walkBound; omega) (by omega)
  refine ⟨r, hr, hiff.trans ⟨fun ⟨bs, hbs, hsum⟩ => ?_, fun ⟨bs, hv⟩ => ?_⟩⟩
  · exact ⟨bs, hi, by omega, hbs, by omega⟩
  · exact ⟨bs, hv.laid, by rw [hv.used, Nat.zero_add]⟩

theorem Valid.layoutValid (hv : Valid h bs) : arenaLayoutValid h = .ok true := by
  obtain ⟨r, hr, hiff⟩ := arenaLayoutValid_spec hv.toIntact
  rw [hr, hiff.mpr ⟨bs, hv⟩]

def prevOf (base : Nat) (pre : List Block) : Option Nat :=
  if pre = [] then none else some (base + extent 16 pre.dropLast)

theorem prevOf_concat (base : Nat) (pre : List Block) (b : Block) :
    prevOf base (pre ++ [b]) = some (base + extent 16 pre) := by
  simp [prevOf]

/-- The block of `bs` whose payload starts at `target`. -/
def PayloadAt (h : Arena w nmap) (bs : List Block) (target : Nat) (pre : List Block) (b : Block)
    (post : List Block) : Prop :=
  bs = pre ++ b :: post ∧ target = h.base + extent 16 pre + 16

theorem findWalk_spec (target : Nat) (n : Nat) (pre rest : List Block)
    (hv : Valid h (pre ++ rest)) (hn : extent 16 rest < n) :
    (∃ mid b post, PayloadAt h (pre ++ rest) target (pre ++ mid) b post ∧
      findWalk target h n (h.base + extent 16 pre) (prevOf h.base pre) =
        .ok (some (h.base + extent 16 (pre ++ mid), prevOf h.base (pre ++ mid)))) ∨
    findWalk target h n (h.base + extent 16 pre) (prevOf h.base pre) = .ok none ∧
      ∀ mid b post, ¬ PayloadAt h (pre ++ rest) target (pre ++ mid) b post := by
  induction n generalizing pre rest with
  | zero => omega
  | succ n ih =>
    have hext := hv.extent_eq
    unfold findWalk arenaEnd
    cases rest with
    | nil =>
      rw [extent_append, extent_nil] at hext
      rw [if_neg (by omega)]
      refine .inr ⟨rfl, fun mid b post hp => ?_⟩
      have hlen := congrArg List.length hp.1
      simp at hlen
    | cons b rest =>
      rw [extent_append, extent_cons] at hext
      rw [extent_cons] at hn
      rw [if_pos (by omega)]
      split
      · rename_i heq
        refine .inl ⟨[], b, rest, ⟨by simp, by simpa using heq.symm⟩, by simp⟩
      rename_i hne
      rw [hv.read, ok_bind]
      rw [hv.wrap_next]
      have hcur : h.base + extent 16 pre + 16 + b.payload =
          h.base + extent 16 (pre ++ [b]) := by
        rw [extent_append, extent_cons, extent_nil]
        omega
      have hlist : pre ++ b :: rest = pre ++ [b] ++ rest := by simp
      rw [hcur, ← prevOf_concat h.base pre b]
      rw [hlist] at hv
      rcases ih (pre ++ [b]) rest hv (by omega) with ⟨mid, c, post, hp, hfind⟩ | ⟨hfind, hno⟩
      · refine .inl ⟨b :: mid, c, post, ?_, ?_⟩
        · simpa [PayloadAt] using hp
        · rw [hfind]
          simp
      refine .inr ⟨hfind, fun mid c post hp => ?_⟩
      cases mid with
      | nil =>
        apply hne
        rw [hp.2, append_nil]
      | cons d mid =>
        have hhead : b = d := by
          have h1 := hp.1
          simp only [append_assoc, append_cancel_left_eq, cons_append, List.cons.injEq] at h1
          exact h1.1
        subst hhead
        apply hno mid c post
        simpa [PayloadAt] using hp

/-- A pointer is found exactly when a block's payload starts there. -/
theorem arenaFindPayload_spec (hv : Valid h bs) (target : Nat) :
    (∃ pre b post, PayloadAt h bs target pre b post ∧ arenaFindPayload target h =
      .ok (some (h.base + extent 16 pre, prevOf h.base pre))) ∨
    arenaFindPayload target h = .ok none ∧ ∀ pre b post, ¬ PayloadAt h bs target pre b post := by
  have hext := hv.extent_eq
  have hspec := findWalk_spec target (walkBound h) [] bs hv (by unfold walkBound; omega)
  simpa [arenaFindPayload, prevOf] using hspec

theorem fitWalk_spec (need : Nat) (n : Nat) (pre rest : List Block) (hv : Valid h (pre ++ rest))
    (hn : extent 16 rest < n) : (∃ mid p post, rest = mid ++ ⟨p, true⟩ :: post ∧ need ≤ p ∧
      fitWalk need h n (h.base + extent 16 pre) = .ok (some (h.base + extent 16 (pre ++ mid)))) ∨
    fitWalk need h n (h.base + extent 16 pre) = .ok none := by
  induction n generalizing pre rest with
  | zero => omega
  | succ n ih =>
    have hext := hv.extent_eq
    unfold fitWalk arenaEnd
    cases rest with
    | nil =>
      rw [extent_append, extent_nil] at hext
      rw [if_neg (by omega)]
      exact .inr rfl
    | cons b rest =>
      rw [extent_append, extent_cons] at hext
      rw [extent_cons] at hn
      rw [if_pos (by omega), hv.read, ok_bind]
      split
      · rename_i hfit
        obtain ⟨p, free⟩ := b
        cases free with
        | false => exact absurd rfl hfit.1
        | true => exact .inl ⟨[], p, rest, rfl, hfit.2, by simp⟩
      rw [hv.wrap_next]
      have hcur : h.base + extent 16 pre + 16 + b.payload =
          h.base + extent 16 (pre ++ [b]) := by
        rw [extent_append, extent_cons, extent_nil]
        omega
      rw [hcur]
      have hv' : Valid h (pre ++ [b] ++ rest) := by simpa using hv
      rcases ih (pre ++ [b]) rest hv' (by omega) with ⟨mid, p, post, rfl, hp, hfit⟩ | hfit
      · refine .inl ⟨b :: mid, p, post, rfl, hp, ?_⟩
        rw [hfit]
        simp
      · exact .inr hfit

end Walks

end Lxp
