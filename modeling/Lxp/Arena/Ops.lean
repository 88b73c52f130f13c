import Lxp.Arena.Layout

/-!
# What the operations do to the blocks

Each operation, from any valid layout: the layout it leaves, the payloads in use before and after,
and the bytes it does not touch.
-/

open Function ByteMemory BlockList List

namespace Lxp

variable {w : WordSize} {nmap : Nat}
variable {mappings : Fin nmap → ArenaMapping} {bs' : List Block}

/-- Some payload of `L` holds the byte at `x`. -/
def InUse (L : List (Nat × Nat)) (x : Nat) : Prop := ∃ q ∈ L, q.1 ≤ x ∧ x < q.1 + q.2

/-- The extent of the arena is the same, and so are the bytes at the addresses in `S`. -/
structure Untouched (S : Nat → Prop) (h h' : Arena w nmap) : Prop where
  base : h'.base = h.base
  size : h'.size = h.size
  first : h'.first = h.first
  bytes : ∀ x, S x → h'.mem.bytes x = h.mem.bytes x

namespace Untouched

variable {S T : Nat → Prop} {h h' : Arena w nmap}

theorem mono (hk : Untouched S h h') (hST : ∀ x, T x → S x) : Untouched T h h' :=
  { hk with bytes := fun x hx => hk.bytes x (hST x hx) }

end Untouched

variable {h : Arena w nmap}

theorem Intact.remap (hi : Intact h) : Intact ({ h with mappings := mappings } : Arena w nmap) :=
  { hi with }

variable {bs : List Block}

theorem Valid.remap (hv : Valid h bs) : Valid ({ h with mappings := mappings } : Arena w nmap) bs :=
  ⟨hv.toIntact.remap, hv.fits, hv.laid, hv.used⟩

-- `L'` has the payload `q` in addition to those of `L`.
def Gains (q : Nat × Nat) (L L' : List (Nat × Nat)) : Prop :=
  ∃ A B, L = A ++ B ∧ L' = A ++ q :: B

/-- A layout after an operation. -/
structure Relaid (h : Arena w nmap) (bs : List Block) (h' : Arena w nmap) (bs' : List Block) :
    Prop where
  base : h'.base = h.base
  size : h'.size = h.size
  valid : Valid h' bs'
  coalesced : Coalesced bs → Coalesced bs'

theorem Relaid.refl (hv : Valid h bs) : Relaid h bs h bs := ⟨rfl, rfl, hv, id⟩

variable {h' : Arena w nmap}

theorem Relaid.trans {h'' : Arena w nmap} {bs'' : List Block} (hr : Relaid h bs h' bs')
    (hr' : Relaid h' bs' h'' bs'') : Relaid h bs h'' bs'' :=
  ⟨hr'.base.trans hr.base, hr'.size.trans hr.size, hr'.valid,
    fun hc => hr'.coalesced (hr.coalesced hc)⟩

/-! ## Requests -/

theorem arenaNeed_spec {size : Nat} (h : arenaNeed w size ≠ 0) :
    size ≤ arenaNeed w size ∧ 16 ≤ arenaNeed w size ∧ 16 ∣ arenaNeed w size := by
  unfold arenaNeed arenaAlignUp at h ⊢
  simp only [arenaAlign]
  generalize hn : (if size = 0 then 1 else size) = n at h ⊢
  have hsize : size ≤ n ∧ 1 ≤ n := by
    split at hn <;> omega
  split
  · next hover => exact absurd (if_pos hover) h
  · omega

/-! ## Splitting a block -/

section Split

variable {pre post : List Block} {need : Nat}

def Within (lo hi : Nat) (h h' : Arena w nmap) : Prop :=
  Untouched (fun x => x < lo ∨ hi ≤ x) h h'

/-- The blocks in the middle of a layout may be laid anew. -/
theorem Valid.relay (old : List Block) {new : List Block} (hv : Valid h (pre ++ old ++ post))
    (hun : Within (h.base + extent 16 pre) (h.base + extent 16 (pre ++ old)) h h')
    (hnew : Laid w h'.mem.bytes (h.base + extent 16 pre) new (h.base + extent 16 (pre ++ old)))
    (hused : h'.used + allocated 16 old = h.used + allocated 16 new) :
    Valid h' (pre ++ new ++ post) := by
  cases h'
  obtain ⟨rfl, rfl, rfl, hbytes⟩ := hun
  obtain ⟨hkept, hpost⟩ := tiles_append.mp hv.laid
  have hpre := (tiles_append.mp hkept).1
  have hsum := hv.used
  rw [allocated_append, allocated_append] at hsum
  have hend : h.base + extent 16 (pre ++ new) = h.base + extent 16 (pre ++ old) := by
    rw [hnew.end_eq, extent_append, Nat.add_assoc]
  refine ⟨{ hv with }, hv.fits, tiles_append.mpr ⟨tiles_append.mpr ⟨?_, ?_⟩, ?_⟩, ?_⟩
  · exact Laid.congr hpre fun x _ hx => hbytes x (.inl hx)
  · rw [hend]
    exact hnew
  · rw [hend]
    exact Laid.congr hpost fun x hx _ => hbytes x (.inr hx)
  · rw [allocated_append, allocated_append]
    omega

/-- The headers a split leaves at the front of `[b, b + 16 + total)`. -/
theorem arenaSplit_spec (b total : Nat) {hd : ArenaBlk} (hin : h.holds b (16 + total))
    (hread : hdrAt w h.mem.bytes b = hd) (htotal : hd.payload = total)
    (hfits : total < 256 ^ w.bytes) (hneed : need ≤ total)
    (hleast : 16 ≤ need) (haligned : 16 ∣ need) (htotalAligned : 16 ∣ total) :
    ∃ h' l rest, arenaSplit b need h = .ok h' ∧ carve 16 16 need total = ⟨l, false⟩ :: rest ∧
      hdrAt w h'.mem.bytes b = { hd with payload := l } ∧
      Laid w h'.mem.bytes (b + 16 + l) rest (b + 16 + total) ∧ need ≤ l ∧ l ≤ total ∧ 16 ∣ l ∧
      h' = { h with mem := h'.mem } ∧
      (∀ x, x < b ∨ b + 16 ≤ x ∧ x < b + 16 + need ∨ b + 16 + total ≤ x →
        h'.mem.bytes x = h.mem.bytes x) := by
  obtain ⟨hlo, hhi⟩ := hin
  have hb : h.holds b 16 := ⟨hlo, by omega⟩
  unfold arenaSplit
  rw [readHdr_ok hb, ok_bind, hread]
  simp only [arenaHdr, arenaAlign, htotal]
  split
  · have hr : h.holds (b + 16 + need) 16 := ⟨by omega, by omega⟩
    have hw := w.bytes_le
    rw [setPayload_ok hr, ok_bind]
    rw [setIsFree_mem hr, ok_bind, setMagic_mem hr, ok_bind, setPayload_mem hb]
    refine ⟨_, need, [⟨total - need - 16, true⟩], rfl, by rw [carve, if_pos (by omega)], ?_,
      ⟨⟨?_, ?_, ?_⟩, ?_⟩, Nat.le_refl _, hneed, haligned, rfl, fun x hx => ?_⟩
    · rw [hdrAt_store_payload, hdrAt_store_of_disjoint w (by omega),
        hdrAt_store_of_disjoint w (by omega), hdrAt_store_of_disjoint w (by omega), hread,
        Nat.mod_eq_of_lt (by omega)]
    · rw [hdrAt_store_of_disjoint w (by omega), hdrAt_store_magic, hdrAt_store_isFree,
        hdrAt_store_payload, Nat.mod_eq_of_lt (by omega)]
      rfl
    · simp only
      omega
    · simp only
      omega
    · simp only [Tiles]
      omega
    · rw [Mem.store_bytes_of_out _ (by omega), Mem.store_bytes_of_out _ (by omega),
        Mem.store_bytes_of_out _ (by omega), Mem.store_bytes_of_out _ (by omega)]
  · refine ⟨h, total, [], rfl, by rw [carve, if_neg (by omega)], ?_, rfl, hneed, Nat.le_refl _,
      htotalAligned, rfl, fun _ _ => rfl⟩
    rw [hread, ← htotal]

end Split

section Alloc

variable {pre post : List Block} {p need : Nat}

theorem arenaTake_spec (hv : Valid h (pre ++ ⟨p, true⟩ :: post)) (hneed : need ≤ p)
    (hleast : 16 ≤ need) (haligned : 16 ∣ need) : ∃ h', arenaTake (h.base + extent 16 pre) need h =
        .ok (some (h.base + extent 16 pre + 16), h') ∧
      Valid h' (pre ++ carve 16 16 need p ++ post) ∧ h'.mappings = h.mappings ∧
      Within (h.base + extent 16 pre) (h.base + extent 16 pre + 16 + p) h h' := by
  obtain ⟨hin, hend, hblk⟩ := hv.mid
  have hp := hblk.aligned
  have hfits := hv.fits
  have hw := w.bytes_le
  simp only at hend
  obtain ⟨h1, l, rest, hsplit, hcarve, hread1, hrest, hl, hlp, hl16, heq1, hbytes1⟩ :=
    arenaSplit_spec (h.base + extent 16 pre) p ⟨hin.1, by omega⟩ hblk.header rfl
      (by omega) hneed hleast haligned hp
  have hbase1 : h1.base = h.base := by rw [heq1]
  have hsize1 : h1.size = h.size := by rw [heq1]
  have hused1 : h1.used = h.used := by rw [heq1]
  have hin1 : h1.holds (h.base + extent 16 pre) 16 := by
    unfold Arena.holds
    rw [hbase1, hsize1]
    exact hin
  -- The allocated blocks leave room for the free one.
  have hroom : h.used + (16 + p) ≤ h.size := by
    have hsum := allocated_le_extent 16 pre
    have hsum' := allocated_le_extent 16 post
    have hext := hv.extent_eq
    have hused := hv.used
    rw [extent_append, extent_cons] at hext
    rw [allocated_append, allocated_cons, if_pos rfl] at hused
    simp only at hext
    omega
  unfold arenaTake
  rw [hsplit, ok_bind, readHdr_ok hin1, ok_bind, hread1]
  simp only [arenaHdr]
  rw [if_neg (by omega), setIsFree_ok hin1]
  refine ⟨_, rfl, ?_⟩
  generalize hh' : (Arena.use _ _ : Arena w nmap) = h'
  have hmem : h'.mem = h1.mem.store (h.base + extent 16 pre + w.bytes) 4 0 := by rw [← hh']; rfl
  have hun : Within (h.base + extent 16 pre) (h.base + extent 16 pre + 16 + p) h h' := by
    refine ⟨by rw [← hh', heq1]; rfl, by rw [← hh', heq1]; rfl, by rw [← hh', heq1]; rfl,
      fun x hx => ?_⟩
    rw [hmem, Mem.store_bytes_of_out _ (by omega)]
    exact hbytes1 x (by omega)
  refine ⟨?_, by rw [← hh', heq1]; rfl, hun⟩
  have hold : h.base + extent 16 (pre ++ [⟨p, true⟩]) = h.base + extent 16 pre + 16 + p := by
    simp [Nat.add_assoc]
  obtain ⟨l', rest', hcarve', -, -, hzero, -⟩ := carve_cases 16 16 need p hneed
  obtain ⟨-, rfl⟩ := List.cons.inj (hcarve.symm.trans hcarve')
  refine Valid.relay [⟨p, true⟩] (by simpa using hv) (hold ▸ hun) ?_ ?_
  · rw [hold, hcarve, hmem]
    refine ⟨⟨?_, by simp only; omega, hl16⟩, Laid.congr hrest fun x hx hx' => ?_⟩
    · rw [hdrAt_store_isFree, hread1]
      rfl
    · rw [Mem.store_bytes_of_out _ (by omega)]
  · rw [hcarve, ← hh']
    simp [Arena.use, hused1, hzero]

/-- What is in use is disjoint from a free block. -/
theorem not_inUse_free {a x : Nat} (hx : InUse (live 16 a (pre ++ ⟨p, true⟩ :: post)) x) :
    x < a + extent 16 pre ∨ a + extent 16 pre + 16 + p ≤ x := by
  obtain ⟨q, hq, hx1, hx2⟩ := hx
  rw [live_append, live_cons, mem_append] at hq
  rcases hq with hq | hq
  · have hbound := live_bounds hq
    omega
  · have hbound := live_bounds hq
    simp only at hbound
    omega

variable (pre post) in
theorem carve_gains (hneed : need ≤ p) (a : Nat) :
    ∃ l, need ≤ l ∧ Gains (a + extent 16 pre + 16, l) (live 16 a (pre ++ ⟨p, true⟩ :: post))
      (live 16 a (pre ++ carve 16 16 need p ++ post)) := by
  have hext := carve_extent 16 16 hneed
  obtain ⟨l, rest, hcarve, hl, hlive, -⟩ := carve_cases 16 16 need p hneed
  refine ⟨l, hl, live 16 a pre, live 16 (a + extent 16 pre + 16 + p) post, ?_, ?_⟩
  · rw [live_append, live_cons, if_pos rfl, nil_append]
  · rw [live_append, live_append, extent_append, hext, hcarve, live_cons, if_neg (by simp), hlive,
      append_nil, append_assoc, singleton_append]
    simp only [Nat.add_assoc]

theorem arenaAlloc_spec (hv : Valid h bs) (size : Nat) : arenaAlloc size h = .ok (none, h) ∨
    ∃ ptr l h' bs', arenaAlloc size h = .ok (some ptr, h') ∧ Relaid h bs h' bs' ∧
      Gains (ptr, l) (live 16 h.base bs) (live 16 h.base bs') ∧ size ≤ l ∧
      arenaNeed w size ≤ l ∧ h'.mappings = h.mappings ∧
      Untouched (InUse (live 16 h.base bs)) h h' := by
  unfold arenaAlloc
  have hfirst : h.first ≠ 0 := by
    rw [hv.first]
    exact hv.nonnull
  rw [if_neg hfirst, hv.layoutValid, ok_bind, if_neg (by simp)]
  split
  · exact .inl rfl
  rename_i hneed
  obtain ⟨hsize, hleast, haligned⟩ := arenaNeed_spec hneed
  have hext := hv.extent_eq
  have hwalk := fitWalk_spec (arenaNeed w size) (walkBound h) [] bs hv (by unfold walkBound; omega)
  rw [extent_nil, Nat.add_zero] at hwalk
  rcases hwalk with ⟨mid, p, post, rfl, hp, hfit⟩ | hfit
  · rw [hfit]
    obtain ⟨h', htake, hvalid, hmap, hwithin⟩ := arenaTake_spec hv hp hleast haligned
    obtain ⟨l, hl, hgains⟩ := carve_gains mid post hp h.base
    refine .inr ⟨_, l, h', _, htake, ⟨hwithin.base, hwithin.size, hvalid, fun hc => ?_⟩,
      hgains, by omega, hl, hmap, hwithin.mono fun x hx => not_inUse_free hx⟩
    obtain ⟨hpre, hmid, -⟩ := coalesced_mid.mp hc
    obtain ⟨hpost, hnext⟩ := coalesced_cons.mp hmid
    refine carve_coalesced hp hpre hpost fun c hcc => ?_
    rcases hnext c hcc with hno | hyes
    · cases hno
    · exact hyes
  · rw [hfit]
    exact .inl rfl

end Alloc

/-! ## Freeing a block -/

section Free

variable {pre post : List Block} {b p e : Nat}

theorem arenaJoinNext_spec (hl : Laid w h.mem.bytes b (⟨p, true⟩ :: post) e) (hb : h.base ≤ b)
    (he : e = arenaEnd h) (hfits : e < 256 ^ w.bytes) :
    ∃ h', arenaJoinNext b h = .ok h' ∧ h' = { h with mem := h'.mem } ∧
      Laid w h'.mem.bytes b (⟨(joinNext 16 p post).1, true⟩ :: (joinNext 16 p post).2) e ∧
      (∀ x, x < b ∨ b + 16 + (joinNext 16 p post).1 ≤ x → h'.mem.bytes x = h.mem.bytes x) := by
  have hend := hl.end_eq
  have hw := w.bytes_le
  rw [extent_cons] at hend
  simp only at hend
  unfold arenaEnd at he
  have hin : h.holds b 16 := ⟨hb, by omega⟩
  unfold arenaJoinNext
  rw [readHdr_ok hin, ok_bind, hl.1.header]
  simp only [arenaHdr]
  have hwrap : w.wrap (b + 16 + p) = b + 16 + p := Nat.mod_eq_of_lt (by omega)
  rw [hwrap]
  cases post with
  | nil =>
    rw [if_neg (by rw [extent_nil] at hend; unfold arenaEnd; omega)]
    exact ⟨h, rfl, rfl, hl, fun _ _ => rfl⟩
  | cons c post =>
    obtain ⟨q, free⟩ := c
    rw [extent_cons] at hend
    simp only at hend
    have hnext : h.holds (b + 16 + p) 16 := ⟨by omega, by omega⟩
    have hc := hl.2.1
    have hcq := hc.aligned
    have hbp := hl.1.aligned
    simp only at hcq hbp
    rw [if_pos (by unfold arenaEnd; omega), readHdr_ok hnext, ok_bind, hc.header]
    cases free with
    | false =>
      exact ⟨h, rfl, rfl, hl, fun _ _ => rfl⟩
    | true =>
      rw [setPayload_ok hin, ok_bind, setMagic_mem hnext]
      refine ⟨_, rfl, rfl, ⟨⟨?_, ?_, ?_⟩, ?_⟩, fun x hx => ?_⟩
      · simp only [joinNext]
        rw [hdrAt_store_of_disjoint w (by omega), hdrAt_store_payload, hl.1.header,
          Nat.mod_eq_of_lt (by omega), Nat.add_assoc]
      · simp only [joinNext]
        omega
      · simp only [joinNext]
        omega
      · simp only [joinNext]
        have hplace : b + 16 + (p + 16 + q) = b + 16 + p + 16 + q := by omega
        rw [hplace]
        refine Laid.congr hl.2.2 fun x hx _ => ?_
        rw [Mem.store_bytes_of_out _ (by omega), Mem.store_bytes_of_out _ (by omega)]
      · simp only [joinNext] at hx
        rw [Mem.store_bytes_of_out _ (by omega), Mem.store_bytes_of_out _ (by omega)]

theorem arenaJoinPrev_spec (hpre : Laid w h.mem.bytes h.base pre b)
    (hl : Laid w h.mem.bytes b (⟨p, true⟩ :: post) (arenaEnd h))
    (hfits : arenaEnd h < 256 ^ w.bytes) :
    ∃ h' bs', arenaJoinPrev b (prevOf h.base pre) h = .ok h' ∧ h' = { h with mem := h'.mem } ∧
      Laid w h'.mem.bytes h.base bs' (arenaEnd h) ∧
      ((∃ pre' q, pre = pre' ++ [⟨q, true⟩] ∧ bs' = pre' ++ ⟨q + 16 + p, true⟩ :: post) ∨
        bs' = pre ++ ⟨p, true⟩ :: post ∧ ∀ c, pre.getLast? = some c → c.free = false) ∧
      (∀ x, InUse (live 16 h.base bs') x → h'.mem.bytes x = h.mem.bytes x) := by
  have hend := hl.end_eq
  have hstart := hpre.end_eq
  have hw := w.bytes_le
  rw [extent_cons] at hend
  simp only at hend
  -- Without a free block in front everything stays.
  have hstay : Laid w h.mem.bytes h.base (pre ++ ⟨p, true⟩ :: post) (arenaEnd h) := by
    apply tiles_append.mpr
    rw [← hstart]
    exact ⟨hpre, hl⟩
  rcases eq_nil_or_concat' pre with rfl | ⟨pre', ⟨q, free⟩, rfl⟩
  · exact ⟨h, _, rfl, rfl, hstay, .inr ⟨rfl, nofun⟩, fun _ _ => rfl⟩
  rw [extent_append, extent_cons, extent_nil] at hstart
  simp only at hstart
  obtain ⟨hpre', hlast, -⟩ := tiles_mid.mp hpre
  unfold arenaEnd at hend hfits
  have hinp : h.holds (h.base + extent 16 pre') 16 := ⟨by omega, by omega⟩
  have hin : h.holds b 16 := ⟨by omega, by omega⟩
  rw [prevOf_concat]
  unfold arenaJoinPrev
  dsimp only
  rw [readHdr_ok hinp, ok_bind, hlast.header]
  cases free with
  | false =>
    refine ⟨h, _, rfl, rfl, hstay, .inr ⟨rfl, fun c hc => ?_⟩, fun _ _ => rfl⟩
    rw [List.getLast?_concat, Option.some.injEq] at hc
    rw [← hc]
  | true =>
    rw [readHdr_ok hin, ok_bind, hl.1.header, setPayload_ok hinp, ok_bind, setMagic_mem hin]
    have hqa := hlast.aligned
    have hpa := hl.1.aligned
    simp only at hqa hpa
    refine ⟨_, pre' ++ ⟨q + 16 + p, true⟩ :: post, rfl, rfl, ?_,
      .inl ⟨pre', q, rfl, rfl⟩, fun x hx => ?_⟩
    · refine tiles_mid.mpr ⟨?_, ⟨?_, ?_, ?_⟩, ?_⟩
      · refine Laid.congr hpre' fun x _ hx => ?_
        rw [Mem.store_bytes_of_out _ (by omega), Mem.store_bytes_of_out _ (by omega)]
      · rw [hdrAt_store_of_disjoint w (by omega), hdrAt_store_payload, hlast.header]
        simp only [arenaHdr]
        rw [Nat.mod_eq_of_lt (by omega), Nat.add_assoc]
      · simp only
        omega
      · simp only
        omega
      · have hplace : h.base + extent 16 pre' + 16 + (q + 16 + p) = b + 16 + p := by omega
        rw [hplace]
        refine Laid.congr hl.2 fun x hx _ => ?_
        rw [Mem.store_bytes_of_out _ (by omega), Mem.store_bytes_of_out _ (by omega)]
    · have hout := not_inUse_free hx
      rw [Mem.store_bytes_of_out _ (by omega), Mem.store_bytes_of_out _ (by omega)]

/-- Blocks are told apart by where they start. -/
theorem eq_of_extent_eq {pre' post' : List Block} {c d : Block}
    (heq : pre ++ c :: post = pre' ++ d :: post') (hext : extent 16 pre = extent 16 pre') :
    c = d := by
  have hempty : ∀ l : List Block, extent 16 l = 0 → l = [] := by
    intro l hl
    cases l with
    | nil => rfl
    | cons c l =>
      rw [extent_cons] at hl
      omega
  have hpre : pre = pre' := by
    rcases append_eq_append_iff.mp heq with ⟨mid, rfl, -⟩ | ⟨mid, rfl, -⟩
    · rw [extent_append] at hext
      rw [hempty mid (by omega), append_nil]
    · rw [extent_append] at hext
      rw [hempty mid (by omega), append_nil]
  subst hpre
  exact (List.cons.inj (append_cancel_left heq)).1

theorem not_live_of_not_payloadAt {ptr : Nat} (hno : ∀ pre b post, ¬ PayloadAt h bs ptr pre b post)
    (l : Nat) : (ptr, l) ∉ live 16 h.base bs := by
  intro hmem
  obtain ⟨pre, post, heq, hp⟩ := exists_of_mem_live hmem
  exact hno pre _ post ⟨heq, hp⟩

theorem not_live_of_free {ptr : Nat} {b : Block} (hp : PayloadAt h bs ptr pre b post)
    (hfree : b.free = true) (l : Nat) : (ptr, l) ∉ live 16 h.base bs := by
  intro hmem
  obtain ⟨pre', post', heq, hp'⟩ := exists_of_mem_live hmem
  have hptr := hp.2
  obtain rfl := eq_of_extent_eq (hp.1.symm.trans heq) (by omega)
  cases hfree

/-- A pointer to a payload in use is freed, and no other. -/
theorem arenaFreeBlock_spec (hv : Valid h bs) (ptr : Nat) :
    arenaFreeBlock ptr h = .ok (false, h) ∧ (∀ l, (ptr, l) ∉ live 16 h.base bs) ∨
    ∃ l h' bs', arenaFreeBlock ptr h = .ok (true, h') ∧ Relaid h bs h' bs' ∧
      Gains (ptr, l) (live 16 h.base bs') (live 16 h.base bs) ∧ h'.mappings = h.mappings ∧
      Untouched (InUse (live 16 h.base bs')) h h' := by
  unfold arenaFreeBlock
  split
  · refine .inl ⟨rfl, fun l hmem => ?_⟩
    have := live_bounds hmem
    omega
  rw [hv.layoutValid, ok_bind, if_neg (by simp)]
  rcases arenaFindPayload_spec hv ptr with ⟨pre, ⟨p, free⟩, post, hp, hfind⟩ | ⟨hfind, hno⟩
  · rw [hfind, ok_bind]
    obtain ⟨rfl, hptr⟩ := id hp
    dsimp only
    rw [hv.read, ok_bind]
    cases free with
    | true =>
      exact .inl ⟨rfl, not_live_of_free hp rfl⟩
    | false =>
      obtain ⟨hin, -, hblk⟩ := hv.mid
      obtain ⟨hpre, -, hpost⟩ := tiles_mid.mp hv.laid
      have hfits := hv.fits
      have hused := hv.used
      have hw := w.bytes_le
      have hsum := hused
      rw [allocated_append, allocated_cons, if_neg (by simp)] at hsum
      simp only at hsum
      simp only [arenaHdr]
      rw [if_neg (by simp), if_neg (by omega), setIsFree_ok hin, ok_bind]
      -- The block is free now and everything else as before.
      generalize hh1 : ({ h with
        mem := h.mem.store (h.base + extent 16 pre + w.bytes) 4 1
        used := h.used - (16 + p) } : Arena w nmap) = h1
      have hbase1 : h1.base = h.base := by rw [← hh1]
      have hsize1 : h1.size = h.size := by rw [← hh1]
      have hend1 : arenaEnd h1 = h.base + h.size := by rw [arenaEnd, hbase1, hsize1]
      have hmem1 : h1.mem = h.mem.store (h.base + extent 16 pre + w.bytes) 4 1 := by rw [← hh1]
      have hl1 : Laid w h1.mem.bytes (h.base + extent 16 pre) (⟨p, true⟩ :: post)
          (h.base + h.size) := by
        refine ⟨{ hblk with header := ?_ }, ?_⟩
        · rw [hmem1, hdrAt_store_isFree, hblk.header]
          rfl
        · refine Laid.congr hpost fun x hx _ => ?_
          rw [hmem1, Mem.store_bytes_of_out _ (by omega)]
      obtain ⟨h2, hjoin, heq2, hl2, hbytes2⟩ := arenaJoinNext_spec hl1 (by omega) hend1.symm hfits
      have hbase2 : h2.base = h.base := by rw [heq2, hbase1]
      have hend2 : arenaEnd h2 = h.base + h.size := by
        rw [← hend1, heq2]
        rfl
      have hpre2 : Laid w h2.mem.bytes h2.base pre (h.base + extent 16 pre) := by
        rw [hbase2]
        refine Laid.congr hpre fun x _ hx => ?_
        rw [hbytes2 x (by omega), hmem1, Mem.store_bytes_of_out _ (by omega)]
      rw [hjoin, ok_bind, ← hbase2]
      rw [← hend2] at hl2
      obtain ⟨h3, bs', hprev, heq3, hl3, hcases, hbytes3⟩ := arenaJoinPrev_spec hpre2 hl2 (by omega)
      rw [hbase2] at hprev hl3 hbytes3 ⊢
      rw [hprev]
      have hbs' : bs' = release 16 pre p post := by
        rcases hcases with ⟨pre', q, rfl, rfl⟩ | ⟨rfl, hlast⟩
        · rcases release_cases 16 (pre' ++ [⟨q, true⟩]) p post with
            ⟨pre'', q', heq, hrel⟩ | ⟨-, hno⟩
          · obtain ⟨rfl, hlast⟩ := append_inj' heq rfl
            cases hlast
            exact hrel.symm
          · have := hno ⟨q, true⟩ (List.getLast?_concat)
            cases this
        · rcases release_cases 16 pre p post with ⟨pre'', q', rfl, -⟩ | ⟨hrel, -⟩
          · have := hlast ⟨q', true⟩ (List.getLast?_concat)
            cases this
          · exact hrel.symm
      subst hbs'
      have hall : h3 = { h with mem := h3.mem, used := h.used - (16 + p) } := by
        rw [heq3, heq2, ← hh1]
      refine .inr ⟨p, h3, release 16 pre p post, rfl,
        ⟨by rw [hall], by rw [hall], ?_, release_coalesced⟩, ?_,
        by rw [hall], by rw [hall], by rw [hall], by rw [hall], fun x hx => ?_⟩
      · refine ⟨by rw [hall]; exact { hv with }, by rw [hall]; exact hfits, ?_, ?_⟩
        · rw [hend2] at hl3
          rw [hall]
          exact hl3
        · have hfreed := release_allocated 16 pre p post
          rw [hall]
          simp only
          omega
      · refine ⟨live 16 h.base pre, live 16 (h.base + extent 16 pre + 16 + p) post,
          release_live _ _ _ _, ?_⟩
        rw [live_append, live_cons, if_neg (by simp), singleton_append, hptr]
      -- A payload still in use is neither the freed block nor a header of it.
      rw [hbytes3 x hx]
      obtain ⟨q, hq, hx1, hx2⟩ := hx
      rw [release_live, ← joinNext_live, mem_append] at hq
      have hout : x < h.base + extent 16 pre ∨
          h.base + extent 16 pre + 16 + (joinNext 16 p post).1 ≤ x := by
        rcases hq with hq | hq
        · have := live_bounds hq
          omega
        · have := live_bounds hq
          omega
      rw [hbytes2 x hout, hmem1, Mem.store_bytes_of_out _ (by omega)]
  · rw [hfind]
    exact .inl ⟨rfl, not_live_of_not_payloadAt hno⟩

end Free

/-! ## Payloads in use -/

section InUse

variable {q r : Nat × Nat} {L L' : List (Nat × Nat)}

theorem Gains.mem_iff (hg : Gains q L L') : r ∈ L' ↔ r = q ∨ r ∈ L := by
  obtain ⟨A, B, rfl, rfl⟩ := hg
  simp only [mem_append, mem_cons]
  tauto

theorem Gains.mem (hg : Gains q L L') : q ∈ L' := hg.mem_iff.mpr (.inl rfl)

theorem Gains.subset (hg : Gains q L L') : L ⊆ L' := fun _ hr => hg.mem_iff.mpr (.inr hr)

/-- The payloads do not overlap, and there is a header between any two. -/
abbrev Apart (q r : Nat × Nat) : Prop := q.1 + q.2 + 16 ≤ r.1 ∨ r.1 + r.2 + 16 ≤ q.1

variable {a : Nat}

theorem Gains.apart (hg : Gains q L (live 16 a bs')) (hr : r ∈ L) : Apart q r := by
  obtain ⟨A, B, rfl, heq⟩ := hg
  have hpair := live_pairwise 16 a bs'
  rw [heq, pairwise_append, pairwise_cons] at hpair
  obtain ⟨-, ⟨hafter, -⟩, hbefore⟩ := hpair
  rcases mem_append.mp hr with hr | hr
  · exact .inr (hbefore r hr q mem_cons_self)
  · exact .inl (hafter r hr)

theorem Gains.mem_iff_ne (hg : Gains q L (live 16 a bs')) : r ∈ L ↔ r ∈ live 16 a bs' ∧ r ≠ q := by
  constructor
  · intro hr
    refine ⟨hg.subset hr, ?_⟩
    rintro rfl
    have hself := hg.apart hr
    omega
  · rintro ⟨hr, hne⟩
    exact (hg.mem_iff.mp hr).resolve_left hne

theorem live_apart (hq : q ∈ live 16 a bs) (hr : r ∈ live 16 a bs) (hne : q ≠ r) : Apart q r := by
  obtain ⟨A, B, heq⟩ := append_of_mem hq
  have hg : Gains q (A ++ B) (live 16 a bs) := ⟨A, B, rfl, heq⟩
  rcases hg.mem_iff.mp hr with heq | hr
  · exact absurd heq.symm hne
  · exact hg.apart hr

section

variable (hv : Valid h bs) (hq : q ∈ live 16 h.base bs)
include hv hq

theorem Valid.holds_live {n : Nat} (hn : n ≤ q.2) : h.holds q.1 n := by
  have hbound := live_bounds hq
  have hext := hv.extent_eq
  exact ⟨by omega, by omega⟩

theorem Valid.live_aligned : 16 ∣ q.1 := by
  obtain ⟨pre, post, rfl, hp⟩ := exists_of_mem_live hq
  have h1 := hv.preAligned
  have h2 := hv.baseAligned
  omega

/-- The content of a payload in use is no header. -/
theorem Valid.store_live {m : Mem} (hm : ∀ x, x < q.1 ∨ q.1 + q.2 ≤ x → m.bytes x = h.mem.bytes x) :
    Valid ({ h with mem := m } : Arena w nmap) bs := by
  refine ⟨{ hv with }, hv.fits, ?_, hv.used⟩
  show Laid w m.bytes h.base bs (h.base + h.size)
  obtain ⟨pre, post, rfl, hp⟩ := exists_of_mem_live hq
  obtain ⟨hpre, hblk, hpost⟩ := tiles_mid.mp hv.laid
  refine tiles_mid.mpr ⟨Laid.congr hpre fun x _ hx => hm x (by omega),
    hblk.congr fun x _ hx => hm x (by omega), Laid.congr hpost fun x hx _ => hm x ?_⟩
  simp only at hx
  omega

end

theorem Relaid.store_live (hr : Relaid h bs h' bs') (hq : q ∈ live 16 h'.base bs') {m : Mem}
    (hm : ∀ x, x < q.1 ∨ q.1 + q.2 ≤ x → m.bytes x = h'.mem.bytes x) :
    Relaid h bs ({ h' with mem := m } : Arena w nmap) bs' :=
  { hr with valid := hr.valid.store_live hq hm }

end InUse

/-! ## Reallocation -/

section Realloc

variable {pre post : List Block} {p need size ptr : Nat}

/-- The block grows into the free one behind it, if that is enough. -/
theorem arenaGrow_spec (hv : Valid h (pre ++ ⟨p, false⟩ :: post)) (hneed : p < need)
    (haligned : 16 ∣ need) (ptr size : Nat) :
    arenaGrow ptr (h.base + extent 16 pre) p need size h = .ok none ∨
    ∃ q post' h', post = ⟨q, true⟩ :: post' ∧ need ≤ p + 16 + q ∧
      arenaGrow ptr (h.base + extent 16 pre) p need size h = .ok (some h') ∧
      Valid h' (pre ++ carve 16 16 need (p + 16 + q) ++ post') ∧
      h'.mappings = retarget ptr ⟨ptr, size⟩ h.mappings ∧
      Untouched (InUse (live 16 h.base (pre ++ ⟨p, false⟩ :: post))) h h' := by
  obtain ⟨hin, -, hblk⟩ := hv.mid
  have hfits := hv.fits
  have hw := w.bytes_le
  unfold arenaGrow
  simp only [arenaHdr]
  rw [hv.wrap_next]
  cases post with
  | nil =>
    have hext := hv.extent_eq
    rw [extent_append, extent_cons, extent_nil] at hext
    rw [if_neg (by unfold arenaEnd; simp only at hext ⊢; omega)]
    exact .inl rfl
  | cons c post =>
    obtain ⟨q, free⟩ := c
    obtain ⟨-, -, hpost⟩ := tiles_mid.mp hv.laid
    have hc := hpost.1
    have hcq := hc.aligned
    have hbp := hblk.aligned
    have hext := hv.extent_eq
    rw [extent_append, extent_cons, extent_cons] at hext
    simp only at hext hcq hbp
    have hnext : h.holds (h.base + extent 16 pre + 16 + p) 16 := ⟨by omega, by omega⟩
    rw [if_pos (by unfold arenaEnd; simp only; omega), readHdr_ok hnext, ok_bind, hc.header]
    split
    · rename_i hcond
      cases free with
      | false => exact absurd rfl hcond.1
      | true =>
        obtain ⟨-, hcomb⟩ := hcond
        rw [setMagic_ok hnext, ok_bind, setPayload_mem hin, ok_bind]
        generalize hm : ((h.mem.store (h.base + extent 16 pre + 16 + p + w.bytes + 4) 4
          0).store (h.base + extent 16 pre) w.bytes (p + 16 + q)) = m
        have hmb : ∀ x, x < h.base + extent 16 pre ∨
            h.base + extent 16 pre + 16 ≤ x ∧ x < h.base + extent 16 pre + 16 + p ∨
            h.base + extent 16 pre + 16 + p + 16 ≤ x → m.bytes x = h.mem.bytes x := by
          intro x hx
          rw [← hm, Mem.store_bytes_of_out _ (by omega), Mem.store_bytes_of_out _ (by omega)]
        have hhd : hdrAt w m.bytes (h.base + extent 16 pre) = ⟨p + 16 + q, 0, arenaMagic⟩ := by
          rw [← hm, hdrAt_store_payload, hdrAt_store_of_disjoint w (by omega), hblk.header,
            Nat.mod_eq_of_lt (by omega)]
          rfl
        obtain ⟨h1, l, rest, hsplit, hcarve, hread1, hrest, hl, -, hl16, heq1, hbytes1⟩ :=
          arenaSplit_spec (h := ({ h with mem := m } : Arena w nmap))
            (h.base + extent 16 pre) (p + 16 + q)
            ⟨hin.1, by simp only; omega⟩ hhd rfl (by omega) hcomb (by omega) haligned
            (by omega)
        have hbase1 : h1.base = h.base := by rw [heq1]
        have hsize1 : h1.size = h.size := by rw [heq1]
        have hin1 : h1.holds (h.base + extent 16 pre) 16 := by
          unfold Arena.holds
          rw [hbase1, hsize1]
          exact hin
        rw [hsplit, ok_bind, readHdr_ok hin1, hread1]
        have hbytes : ∀ x, x < h.base + extent 16 pre ∨
            h.base + extent 16 pre + 16 ≤ x ∧ x < h.base + extent 16 pre + 16 + p ∨
            h.base + extent 16 pre + 16 + (p + 16 + q) ≤ x → h1.mem.bytes x = h.mem.bytes x :=
          fun x hx => (hbytes1 x (by omega)).trans (hmb x (by omega))
        refine .inr ⟨q, post, _, rfl, hcomb, rfl, ?_, by rw [heq1], by rw [heq1]; rfl,
          by rw [heq1]; rfl, by rw [heq1]; rfl, fun x hx => hbytes x ?_⟩
        · have hold : h.base + extent 16 (pre ++ [⟨p, false⟩, ⟨q, true⟩]) =
              h.base + extent 16 pre + 16 + (p + 16 + q) := by
            simp [Nat.add_assoc]
          obtain ⟨l', rest', hcarve', -, -, hzero, -⟩ :=
            carve_cases 16 16 need (p + 16 + q) hcomb
          obtain ⟨-, rfl⟩ := List.cons.inj (hcarve.symm.trans hcarve')
          refine Valid.relay [⟨p, false⟩, ⟨q, true⟩] (by simpa using hv) ⟨by rw [heq1]; rfl,
            by rw [heq1]; rfl, by rw [heq1]; rfl, fun x hx => hbytes x (by omega)⟩ ?_ ?_
          · rw [hold, hcarve]
            exact ⟨⟨hread1, by simp only; omega, hl16⟩, hrest⟩
          · have hused1 : h1.used = h.used := by rw [heq1]
            rw [hcarve]
            simp [Arena.use]
            omega
        · -- A payload in use lies outside both blocks or is the one that grows.
          obtain ⟨r, hr, hx1, hx2⟩ := hx
          rw [live_append, live_cons, if_neg (by simp), live_cons, mem_append, mem_append,
            mem_singleton] at hr
          rcases hr with hr | rfl | hr
          · have := live_bounds hr
            omega
          · exact .inr (.inl ⟨hx1, hx2⟩)
          · have := live_bounds hr
            simp only at this
            omega
    · exact .inl rfl

variable (pre) in
theorem grow_gains {q : Nat} (post' : List Block) (hcomb : need ≤ p + 16 + q) (a : Nat) :
    ∃ l, need ≤ l ∧ ∃ A B, live 16 a (pre ++ ⟨p, false⟩ :: ⟨q, true⟩ :: post') =
        A ++ (a + extent 16 pre + 16, p) :: B ∧
      live 16 a (pre ++ carve 16 16 need (p + 16 + q) ++ post') =
        A ++ (a + extent 16 pre + 16, l) :: B := by
  have hext := carve_extent 16 16 hcomb
  obtain ⟨l, rest, hcarve, hl, hlive, -⟩ := carve_cases 16 16 need (p + 16 + q) hcomb
  refine ⟨l, hl, live 16 a pre, live 16 (a + extent 16 pre + 16 + p + 16 + q) post', ?_, ?_⟩
  · rw [live_append, live_cons, if_neg (by simp), live_cons, if_pos rfl, nil_append,
      singleton_append]
  · rw [live_append, live_append, extent_append, hext, hcarve, live_cons, if_neg (by simp), hlive,
      append_nil, append_assoc, singleton_append]
    simp only [Nat.add_assoc]

/-- The content moves to a payload of its own, and the old one is freed. -/
theorem arenaMove_spec (hv : Valid h bs) {old : Nat} (hold : (ptr, old) ∈ live 16 h.base bs)
    (size : Nat) : arenaMove ptr old size h = .ok (none, h) ∨
    ∃ q l h' bs' bs1, arenaMove ptr old size h = .ok (some q, h') ∧ Relaid h bs h' bs' ∧
      Gains (q, l) (live 16 h.base bs) (live 16 h.base bs1) ∧
      Gains (ptr, old) (live 16 h.base bs') (live 16 h.base bs1) ∧
      size ≤ l ∧ h'.mappings = (match mappingOf ptr h with
        | none => h.mappings
        | some i => update h.mappings i ⟨q, size⟩) ∧
      (∀ k, k < min old size → h'.mem.bytes (q + k) = h.mem.bytes (ptr + k)) ∧
      Untouched (fun x => InUse (live 16 h.base bs') x ∧ ¬ (q ≤ x ∧ x < q + l)) h h' := by
  unfold arenaMove
  rcases arenaAlloc_spec hv size with halloc | ⟨q, l, h1, bs1, halloc, hr1, hg1, hl, hln, hm1, hu1⟩
  · rw [halloc]
    exact .inl rfl
  rw [halloc, ok_bind]
  dsimp only
  have hbase1 := hr1.base
  have hq1 : (q, l) ∈ live 16 h1.base bs1 := hbase1 ▸ hg1.mem
  have hold1 : (ptr, old) ∈ live 16 h1.base bs1 := hbase1 ▸ hg1.subset hold
  have hapart : Apart (q, l) (ptr, old) := hg1.apart hold
  have hmin : min old size ≤ l := by omega
  have hcopy : copyPayload q ptr (min old size) h1 =
      .ok { h1 with mem := h1.mem.copy q ptr (min old size) } :=
    if_pos ⟨hr1.valid.holds_live hq1 hmin, hr1.valid.holds_live hold1 (Nat.min_le_left _ _)⟩
  rw [hcopy, ok_bind]
  have hr2 : Relaid h bs ({ h1 with mem := h1.mem.copy q ptr (min old size) } : Arena w nmap) bs1 :=
    hr1.store_live hq1 fun x hx => Mem.copy_bytes_of_out _ (by simp only at hx; omega)
  generalize hh2 : ({ h1 with mem := h1.mem.copy q ptr (min old size) } : Arena w nmap) = h2 at hr2
  have hmem2 : h2.mem = h1.mem.copy q ptr (min old size) := by rw [← hh2]
  have hmap2 : h2.mappings = h.mappings := by rw [← hh2, ← hm1]
  have htracked : mappingOf ptr h2 = mappingOf ptr h := by rw [mappingOf, mappingOf, hmap2]
  rw [htracked]
  rcases arenaFreeBlock_spec hr2.valid ptr with ⟨-, hno⟩ | ⟨l', h3, bs3, hfree, hr3, hg3, hm3, hu3⟩
  · rw [hr2.base] at hno
    exact absurd (hg1.subset hold) (hno old)
  rw [hr2.base] at hg3 hu3
  -- The freed payload is the old one.
  have hl' : l' = old := by
    by_contra hne
    have := live_apart hg3.mem (hg1.subset hold) (by simp [hne])
    omega
  subst hl'
  have hq3 : (q, l) ∈ live 16 h.base bs3 := by
    rcases hg3.mem_iff.mp hg1.mem with heq | hmem
    · rw [heq] at hapart
      omega
    · exact hmem
  have hcontent : ∀ k, k < min l' size → h3.mem.bytes (q + k) = h.mem.bytes (ptr + k) := by
    intro k hk
    rw [hu3.bytes (q + k) ⟨_, hq3, by simp only; omega, by simp only; omega⟩, hmem2,
      Mem.copy_bytes_of_in _ ⟨by omega, by omega⟩, Nat.add_sub_cancel_left]
    exact hu1.bytes _ ⟨_, hold, by simp only; omega, by simp only; omega⟩
  have hother : ∀ x, InUse (live 16 h.base bs3) x ∧ ¬ (q ≤ x ∧ x < q + l) →
      h3.mem.bytes x = h.mem.bytes x := by
    rintro x ⟨⟨r, hr, hx⟩, hout⟩
    rw [hu3.bytes x ⟨r, hr, hx⟩, hmem2, Mem.copy_bytes_of_out _ (by omega)]
    apply hu1.bytes
    rcases hg1.mem_iff.mp (hg3.subset hr) with rfl | hmem
    · exact absurd hx hout
    · exact ⟨r, hmem, hx⟩
  have hfirst : h3.first = h.first := by
    rw [hr3.valid.first, hv.first, hr3.base, hr2.base]
  rw [hfree]
  cases mappingOf ptr h with
  | none =>
    exact .inr ⟨q, l, h3, bs3, _, rfl, hr2.trans hr3, hg1, hg3, hl,
      hm3.trans hmap2, hcontent, hr3.base.trans hr2.base, hr3.size.trans hr2.size, hfirst,
      hother⟩
  | some i =>
    refine .inr ⟨q, l, { h3 with mappings := update h3.mappings i ⟨q, size⟩ }, bs3,
      _, rfl, ⟨hr3.base.trans hr2.base, hr3.size.trans hr2.size, ?_,
        (hr2.trans hr3).coalesced⟩, hg1, hg3, hl, ?_, hcontent,
      hr3.base.trans hr2.base, hr3.size.trans hr2.size, hfirst, hother⟩
    · exact hr3.valid.remap
    · rw [hm3, hmap2]

/-- What a reallocation does to the mapping records: nothing, the new length where the block stays,
or the new block in the first record of the old one. -/
def Remaps (ptr q size : Nat) (h h' : Arena w nmap) : Prop :=
  q = ptr ∧ (h'.mappings = h.mappings ∨ h'.mappings = retarget ptr ⟨ptr, size⟩ h.mappings) ∨
  h'.mappings = match mappingOf ptr h with
    | none => h.mappings
    | some i => update h.mappings i ⟨q, size⟩

/-- A reallocation fails without a trace, or the payload `(ptr, old)` in use becomes `(q, l)` with
its content, and every other payload stays. -/
theorem arenaRealloc_spec (hv : Valid h bs) (hptr : ptr ≠ 0) (size : Nat) :
    arenaRealloc ptr size h = .ok (none, h) ∨
    ∃ old q l h' bs', arenaRealloc ptr size h = .ok (some q, h') ∧ Relaid h bs h' bs' ∧
      (ptr, old) ∈ live 16 h.base bs ∧
      (∀ r, r ∈ live 16 h.base bs' ↔ r = (q, l) ∨ r ∈ live 16 h.base bs ∧ r ≠ (ptr, old)) ∧
      size ≤ l ∧ Remaps ptr q size h h' ∧ (q = ptr ∨ ∀ r ∈ live 16 h.base bs, r.1 ≠ q) ∧
      (∀ k, k < min old size → h'.mem.bytes (q + k) = h.mem.bytes (ptr + k)) ∧
      (∀ r ∈ live 16 h.base bs, r ≠ (ptr, old) → ∀ x, r.1 ≤ x → x < r.1 + r.2 →
        h'.mem.bytes x = h.mem.bytes x) := by
  unfold arenaRealloc
  rw [if_neg hptr, hv.layoutValid, ok_bind, if_neg (by simp)]
  split
  · exact .inl rfl
  rename_i hneed
  obtain ⟨hsize, -, haligned⟩ := arenaNeed_spec hneed
  rcases arenaFindPayload_spec hv ptr with ⟨pre, ⟨p, free⟩, post, ⟨rfl, hp⟩, hfind⟩ | ⟨hfind, -⟩
  · rw [hfind, ok_bind]
    dsimp only
    rw [hv.read, ok_bind]
    dsimp only
    cases free with
    | true =>
      exact .inl rfl
    | false =>
      rw [if_neg (by simp)]
      have hold : (ptr, p) ∈ live 16 h.base (pre ++ ⟨p, false⟩ :: post) :=
        hp ▸ mem_live_mid h.base pre post p
      split
      · refine .inr ⟨p, ptr, p, h, _, rfl, Relaid.refl hv, hold, fun r => ?_, by omega,
          .inl ⟨rfl, .inl rfl⟩, .inl rfl, fun _ _ => rfl, fun _ _ _ _ _ _ => rfl⟩
        by_cases hr : r = (ptr, p)
        · simp [hr, hold]
        · simp [hr]
      rcases arenaGrow_spec hv (by omega) haligned ptr size with
        hgrow | ⟨q, post', h', rfl, hcomb, hgrow, hvalid, hmap, hun⟩
      · rw [hgrow]
        rcases arenaMove_spec hv hold size with
          hmove | ⟨q, l, h', bs', bs1, hmove, hr, hg, hg', hl, hmap, hcopy, hun⟩
        · exact .inl hmove
        have hapart := hg.apart hold
        refine .inr ⟨p, q, l, h', bs', hmove, hr, hold, fun r => ?_, hl, .inr hmap,
          .inr fun r hr' => ?_, hcopy, fun r hr' hne x hx1 hx2 => ?_⟩
        · rw [hg'.mem_iff_ne, hg.mem_iff]
          refine ⟨fun ⟨hr, hne⟩ => hr.imp_right fun hr => ⟨hr, hne⟩, ?_⟩
          rintro (rfl | ⟨hr, hne⟩)
          · refine ⟨.inl rfl, fun heq => ?_⟩
            rw [heq] at hapart
            omega
          · exact ⟨.inr hr, hne⟩
        · have hout := hg.apart hr'
          omega
        · have hout := hg.apart hr'
          refine hun.bytes x ⟨⟨r, hg'.mem_iff_ne.mpr ⟨hg.subset hr', hne⟩, hx1, hx2⟩, ?_⟩
          omega
      · rw [hgrow]
        obtain ⟨l, hl, A, B, hA, hB⟩ := grow_gains pre post' hcomb h.base
        rw [← hp] at hA hB
        have hg : Gains (ptr, p) (A ++ B)
            (live 16 h.base (pre ++ ⟨p, false⟩ :: ⟨q, true⟩ :: post')) := ⟨A, B, rfl, hA⟩
        have hg' : Gains (ptr, l) (A ++ B)
            (live 16 h.base (pre ++ carve 16 16 (arenaNeed w size) (p + 16 + q) ++ post')) :=
          ⟨A, B, rfl, hB⟩
        refine .inr ⟨p, ptr, l, h', _, rfl, ⟨hun.base, hun.size, hvalid, fun hc => ?_⟩,
          hold, fun r => ?_, by omega, .inl ⟨rfl, .inr hmap⟩, .inl rfl,
          fun k hk => ?_, fun r hr _ x hx1 hx2 => hun.bytes x ⟨r, hr, hx1, hx2⟩⟩
        · obtain ⟨hpre, hmid, -⟩ := coalesced_mid.mp hc
          obtain ⟨hrest, -⟩ := coalesced_cons.mp hmid
          obtain ⟨hpost, hnext⟩ := coalesced_cons.mp hrest
          refine carve_coalesced hcomb hpre hpost fun c hcc => ?_
          exact (hnext c hcc).resolve_left (by simp)
        · rw [hg'.mem_iff, hg.mem_iff_ne]
        · exact hun.bytes _ ⟨_, hold, by simp only; omega, by simp only; omega⟩
  · rw [hfind]
    exact .inl rfl

end Realloc

end Lxp
