import Lxp.Arena.Ops

/-!
# Runs of the arena

What holds of the blocks after every sequence of operations on an initialised arena, and what holds
of every single operation when the buffer may say anything at all.
-/

open Function ByteMemory BlockList List

namespace Lxp

variable {w : WordSize} {nmap : Nat}

inductive ArenaOp where
  | alloc (size : Nat)
  | calloc (size : Nat)
  | realloc (ptr size : Nat)
  | free (ptr : Nat)
  | allocTracked (size : Nat)
  | freeTracked (ptr size : Nat)
  | reset
deriving DecidableEq

/-- The pointer is the result of the operations that return one. -/
def ArenaOp.run : ArenaOp → Arena w nmap → Except Fault (Option Nat × Arena w nmap)
  | .alloc size, h => arenaAlloc size h
  | .calloc size, h => arenaCalloc size h
  | .realloc ptr size, h => arenaRealloc ptr size h
  | .free ptr, h => do
    let h ← arenaFree ptr h
    .ok (none, h)
  | .allocTracked size, h => arenaAllocTracked size h
  | .freeTracked ptr size, h => do
    let (_, h) ← arenaFreeTracked ptr size h
    .ok (none, h)
  | .reset, h => do
    let h ← arenaReset h
    .ok (none, h)

def ArenaOp.bytes : ArenaOp → Nat
  | .alloc size | .calloc size | .realloc _ size | .allocTracked size => size
  | .free _ | .freeTracked _ _ | .reset => 0

/-! ## Mapping records -/

/-- Every record in use names the payload of a block of its own. -/
structure Tracks (h : Arena w nmap) (bs : List Block) : Prop where
  live : ∀ i, (h.mappings i).addr ≠ 0 → ∃ l, ((h.mappings i).addr, l) ∈ live 16 h.base bs
  distinct : ∀ i j, (h.mappings i).addr ≠ 0 → (h.mappings i).addr = (h.mappings j).addr → i = j

section Tracks

variable {h h' : Arena w nmap} {bs bs' : List Block}

/-- Records are given up or stay as they are, but for the one of `k` that names a block of its
own. -/
theorem Tracks.change (ht : Tracks h bs) (k : Option (Fin nmap)) (hkeep : ∀ i, k ≠ some i →
      (h'.mappings i).addr = 0 ∨ (h'.mappings i).addr = (h.mappings i).addr)
    (hnew : ∀ i j, k = some j → i ≠ j → (h'.mappings i).addr ≠ 0 →
      (h'.mappings i).addr ≠ (h'.mappings j).addr)
    (hlive : ∀ i, (h'.mappings i).addr ≠ 0 →
      ∃ l, ((h'.mappings i).addr, l) ∈ BlockList.live 16 h'.base bs') : Tracks h' bs' := by
  refine ⟨hlive, fun i j hi hij => ?_⟩
  by_contra hne
  by_cases hik : k = some i
  · exact hnew j i hik (Ne.symm hne) (hij ▸ hi) hij.symm
  by_cases hjk : k = some j
  · exact hnew i j hjk hne hi hij
  have hi' := (hkeep i hik).resolve_left hi
  rw [hi'] at hi hij
  exact hne (ht.distinct i j hi (hij.trans ((hkeep j hjk).resolve_left (hij ▸ hi))))

theorem Tracks.mono (ht : Tracks h bs) (hmap : h'.mappings = h.mappings)
    (hlive : BlockList.live 16 h.base bs ⊆ BlockList.live 16 h'.base bs') : Tracks h' bs' := by
  refine ht.change none (fun i _ => .inr (by rw [hmap])) nofun fun i hi => ?_
  rw [hmap] at hi ⊢
  obtain ⟨l, hl⟩ := ht.live i hi
  exact ⟨l, hlive hl⟩

variable {ptr l : Nat}

theorem Tracks.realloc (ht : Tracks h bs) (hbase : h'.base = h.base) {old q size : Nat}
    (hlive : ∀ r, r ∈ BlockList.live 16 h.base bs' ↔
      r = (q, l) ∨ r ∈ BlockList.live 16 h.base bs ∧ r ≠ (ptr, old))
    (hfresh : q = ptr ∨ ∀ r ∈ BlockList.live 16 h.base bs, r.1 ≠ q)
    (hmap : Remaps ptr q size h h') (hptr : ptr ≠ 0) : Tracks h' bs' := by
  -- A record of another block keeps it, and one of this block has the new one.
  have hblock : ∀ {a}, a = q ∨ a ≠ ptr ∧ (∃ k, (a, k) ∈ BlockList.live 16 h.base bs) →
      ∃ k, (a, k) ∈ BlockList.live 16 h'.base bs' := by
    rw [hbase]
    rintro a (rfl | ⟨ha, k, hk⟩)
    · exact ⟨l, (hlive _).mpr (.inl rfl)⟩
    · exact ⟨k, (hlive _).mpr (.inr ⟨hk, fun heq => ha (congrArg Prod.fst heq)⟩)⟩
  have hsame : (∀ i, (h'.mappings i).addr = (h.mappings i).addr) →
      (q = ptr ∨ ∀ i, (h.mappings i).addr ≠ ptr) → Tracks h' bs' := by
    intro haddr hq
    refine ht.change none (fun i _ => .inr (haddr i)) nofun fun i hi => hblock ?_
    rw [haddr] at hi ⊢
    by_cases hip : (h.mappings i).addr = ptr
    · exact .inl (hip.trans (hq.resolve_right fun hno => hno i hip).symm)
    · exact .inr ⟨hip, ht.live i hi⟩
  rcases hmap with ⟨hq, hmap | hmap⟩ | hmap
  · exact hsame (fun i => by rw [hmap]) (.inl hq)
  · refine hsame (fun i => ?_) (.inl hq)
    rw [hmap, retarget]
    split
    · next heq => exact heq.symm
    · rfl
  unfold mappingOf at hmap
  generalize hfind : (List.finRange nmap).find? (fun i => (h.mappings i).addr == ptr) = found
    at hmap
  cases found with
  | none =>
    refine hsame (fun i => by rw [hmap]) (.inr fun i heq => ?_)
    have := List.find?_eq_none.mp hfind i (mem_finRange i)
    simp [heq] at this
  | some k =>
    have hk : (h.mappings k).addr = ptr := by
      simpa using List.find?_some hfind
    dsimp only at hmap
    have hself : h'.mappings k = ⟨q, size⟩ := by rw [hmap, update_self]
    have helse : ∀ i, i ≠ k → h'.mappings i = h.mappings i := by
      intro i hi
      rw [hmap, update_of_ne hi]
    have hne : ∀ i, i ≠ k → (h.mappings i).addr ≠ ptr := by
      intro i hik heq
      exact hik (ht.distinct i k (heq ▸ hptr) (heq.trans hk.symm))
    refine ht.change (some k) (fun i hi => .inr (by rw [helse i (hi <| congrArg some ·.symm)]))
      (fun i j hj hij hi heq => ?_) fun i hi => hblock ?_
    · -- The new address is nobody else's.
      cases hj
      rw [helse i hij] at hi heq
      rw [hself] at heq
      rcases hfresh with rfl | hfresh
      · exact hne i hij heq
      · obtain ⟨m, hm⟩ := ht.live i hi
        exact hfresh _ hm heq
    · by_cases hik : i = k
      · exact .inl (by rw [hik, hself])
      · rw [helse i hik] at hi ⊢
        exact .inr ⟨hne i hik, ht.live i hi⟩

/-- Freeing a block and giving up the records of it. -/
theorem Tracks.freed (ht : Tracks h bs) (hbase : h'.base = h.base)
    (hg : Gains (ptr, l) (BlockList.live 16 h.base bs') (BlockList.live 16 h.base bs))
    (hclear : ∀ i, (h.mappings i).addr = ptr → (h'.mappings i).addr = 0)
    (helse : ∀ i, (h.mappings i).addr ≠ ptr → h'.mappings i = h.mappings i) : Tracks h' bs' := by
  have hkeep : ∀ i, (h'.mappings i).addr = 0 ∨
      (h.mappings i).addr ≠ ptr ∧ (h'.mappings i).addr = (h.mappings i).addr := by
    intro i
    by_cases hip : (h.mappings i).addr = ptr
    · exact .inl (hclear i hip)
    · exact .inr ⟨hip, by rw [helse i hip]⟩
  refine ht.change none (fun i _ => (hkeep i).imp_right fun h => h.2) nofun fun i hi => ?_
  obtain ⟨hip, heq⟩ := (hkeep i).resolve_left hi
  rw [heq] at hi ⊢
  obtain ⟨k, hk⟩ := ht.live i hi
  rw [hbase]
  exact ⟨k, hg.mem_iff_ne.mpr ⟨hk, fun h => hip (congrArg Prod.fst h)⟩⟩

/-- A new record for a block of its own. -/
theorem Tracks.record (ht : Tracks h bs) (hbase : h'.base = h.base) {size : Nat} {i : Fin nmap}
    (hg : Gains (ptr, l) (BlockList.live 16 h.base bs) (BlockList.live 16 h.base bs'))
    (hmap : h'.mappings = update h.mappings i ⟨ptr, size⟩) : Tracks h' bs' := by
  have helse : ∀ j, j ≠ i → h'.mappings j = h.mappings j := by
    intro j hj
    rw [hmap, update_of_ne hj]
  refine ht.change (some i) (fun j hj => .inr (by rw [helse j (hj <| congrArg some ·.symm)]))
    (fun j k hk hjk hj heq => ?_) fun j hj => ?_
  · cases hk
    rw [helse j hjk] at hj heq
    rw [hmap, update_self] at heq
    obtain ⟨k, hk⟩ := ht.live j hj
    have hout := hg.apart hk
    dsimp only at heq
    omega
  · rw [hbase]
    by_cases hji : j = i
    · rw [hji, hmap, update_self]
      exact ⟨l, hg.mem⟩
    · rw [helse j hji] at hj ⊢
      obtain ⟨k, hk⟩ := ht.live j hj
      exact ⟨k, hg.subset hk⟩

end Tracks

/-! ## One operation -/

section Run

variable {h : Arena w nmap} {bs : List Block}

theorem arenaLayFirst_spec (hsize : 32 ≤ h.size) (haligned : 16 ∣ h.size)
    (hfits : h.size < 256 ^ w.bytes) : ∃ h', arenaLayFirst h = .ok h' ∧
      h' = { h with mem := h'.mem, first := h.base, used := 0 } ∧
      Laid w h'.mem.bytes h.base [⟨h.size - 16, true⟩] (h.base + h.size) := by
  have hin : h.holds h.base 16 := ⟨Nat.le_refl _, by omega⟩
  unfold arenaLayFirst
  rw [setPayload_ok hin, ok_bind, setIsFree_mem hin, ok_bind, setMagic_mem hin]
  refine ⟨_, rfl, rfl, ⟨?_, ?_, ?_⟩, ?_⟩
  · rw [hdrAt_store_magic, hdrAt_store_isFree, hdrAt_store_payload, Nat.mod_eq_of_lt (by omega)]
    rfl
  · simp only
    omega
  · simp only
    omega
  · simp only [Tiles]
    omega

/-- What an operation leaves of a valid layout. -/
structure Runs (op : ArenaOp) (h : Arena w nmap) (bs : List Block) (r : Option Nat)
    (h' : Arena w nmap) (bs' : List Block) : Prop where
  relaid : Relaid h bs h' bs'
  result : ∀ p, r = some p → ∃ l, op.bytes ≤ l ∧ (p, l) ∈ live 16 h.base bs'
  tracks : Tracks h bs → Tracks h' bs'

theorem Runs.refl (op : ArenaOp) (hv : Valid h bs) : Runs op h bs none h bs :=
  ⟨Relaid.refl hv, nofun, id⟩

theorem arenaFree_spec (hv : Valid h bs) (ptr : Nat) :
    arenaFree ptr h = .ok h ∧ (∀ l, (ptr, l) ∉ live 16 h.base bs) ∨
    ∃ l h' bs', arenaFree ptr h = .ok h' ∧ Relaid h bs h' bs' ∧
      Gains (ptr, l) (live 16 h.base bs') (live 16 h.base bs) ∧
      h'.mappings = retarget ptr {} h.mappings ∧
      Untouched (InUse (live 16 h.base bs')) h h' := by
  unfold arenaFree
  rcases arenaFreeBlock_spec hv ptr with ⟨hfree, hno⟩ | ⟨l, h', bs', hfree, hr, hg, hm, hk⟩
  · rw [hfree]
    exact .inl ⟨rfl, hno⟩
  · rw [hfree]
    refine .inr ⟨l, _, bs', rfl, { hr with valid := hr.valid.remap }, hg, ?_,
      hk.base, hk.size, hk.first, hk.bytes⟩
    rw [hm]

theorem arenaAlloc_runs (hv : Valid h bs) (op : ArenaOp) :
    ∃ r h' bs', arenaAlloc op.bytes h = .ok (r, h') ∧ Runs op h bs r h' bs' := by
  rcases arenaAlloc_spec hv op.bytes with heq | ⟨p, l, h', bs', heq, hr, hg, hl, -, hm, -⟩
  · exact ⟨none, h, bs, heq, Runs.refl _ hv⟩
  refine ⟨some p, h', bs', heq, hr, fun q hq => ?_, fun ht => ht.mono hm ?_⟩
  · cases hq
    exact ⟨l, hl, hg.mem⟩
  · rw [hr.base]
    exact hg.subset

/-- Every operation on a valid layout ends in one. -/
theorem ArenaOp.run_valid (op : ArenaOp) (hv : Valid h bs) :
    ∃ r h' bs', op.run h = .ok (r, h') ∧ Runs op h bs r h' bs' := by
  cases op with
  | alloc size => exact arenaAlloc_runs hv (.alloc size)
  | calloc size =>
    simp only [ArenaOp.run]
    unfold arenaCalloc
    split
    · exact ⟨none, h, bs, rfl, Runs.refl _ hv⟩
    rcases arenaAlloc_spec hv size with heq | ⟨p, l, h', bs', heq, hr, hg, hl, hln, hm, -⟩
    · rw [heq]
      exact ⟨none, h, bs, rfl, Runs.refl _ hv⟩
    rw [heq, ok_bind]
    have hlive : (p, l) ∈ live 16 h'.base bs' := hr.base ▸ hg.mem
    have hfill : fillZero p (arenaNeed w size) h' =
        .ok { h' with mem := h'.mem.zero p (arenaNeed w size) } :=
      if_pos (hr.valid.holds_live hlive hln)
    dsimp only
    rw [hfill]
    have hr' : Relaid h bs
        ({ h' with mem := h'.mem.zero p (arenaNeed w size) } : Arena w nmap) bs' :=
      hr.store_live hlive fun x hx => Mem.zero_bytes_of_out _ (by simp only at hx; omega)
    refine ⟨some p, _, bs', rfl, hr', fun q hq => ?_, fun ht => ht.mono hm ?_⟩
    · cases hq
      exact ⟨l, hl, hg.mem⟩
    · rw [hr'.base]
      exact hg.subset
  | realloc ptr size =>
    by_cases hptr : ptr = 0
    · simp only [hptr]
      exact arenaAlloc_runs hv (.realloc 0 size)
    rcases arenaRealloc_spec hv hptr size with
      heq | ⟨old, q, l, h', bs', heq, hr, -, hlive, hl, hmap, hfresh, -, -⟩
    · exact ⟨none, h, bs, heq, Runs.refl _ hv⟩
    · refine ⟨some q, h', bs', heq, hr, fun p hp => ?_, fun ht => ?_⟩
      · cases hp
        exact ⟨l, hl, (hlive _).mpr (.inl rfl)⟩
      · exact ht.realloc hr.base hlive hfresh hmap hptr
  | free ptr =>
    simp only [ArenaOp.run]
    rcases arenaFree_spec hv ptr with ⟨heq, -⟩ | ⟨l, h', bs', heq, hr, hg, hm, -⟩
    · rw [heq]
      exact ⟨none, h, bs, rfl, Runs.refl _ hv⟩
    rw [heq]
    refine ⟨none, h', bs', rfl, hr, nofun, fun ht => ht.freed hr.base hg ?_ ?_⟩
    · intro i hi
      rw [hm, retarget, if_pos hi]
    · intro i hi
      rw [hm, retarget, if_neg hi]
  | allocTracked size =>
    simp only [ArenaOp.run]
    unfold arenaAllocTracked
    split
    · exact ⟨none, h, bs, rfl, Runs.refl _ hv⟩
    rcases arenaAlloc_spec hv size with heq | ⟨p, l, h', bs', heq, hr, hg, hl, -, hm, -⟩
    · rw [heq]
      exact ⟨none, h, bs, rfl, Runs.refl _ hv⟩
    rw [heq]
    refine ⟨some p, _, bs', rfl, { hr with valid := hr.valid.remap },
      fun q hq => ?_, fun ht => ht.record hr.base hg (by rw [hm])⟩
    cases hq
    exact ⟨l, hl, hg.mem⟩
  | freeTracked ptr size =>
    simp only [ArenaOp.run]
    unfold arenaFreeTracked
    split
    · exact ⟨none, h, bs, rfl, Runs.refl _ hv⟩
    rename_i hptr
    split
    · exact ⟨none, h, bs, rfl, Runs.refl _ hv⟩
    rename_i i hfind
    have hi : h.mappings i = ⟨ptr, size⟩ := by
      simpa using List.find?_some hfind
    rcases arenaFreeBlock_spec hv ptr with ⟨heq, -⟩ | ⟨l, h', bs', heq, hr, hg, hm, -⟩
    · rw [heq]
      exact ⟨none, h, bs, rfl, Runs.refl _ hv⟩
    rw [heq]
    refine ⟨none, { h' with mappings := update h'.mappings i {} }, bs', rfl,
      { hr with valid := hr.valid.remap }, nofun,
      fun ht => ht.freed hr.base hg ?_ ?_⟩
    · intro j hj
      have hji : j = i := ht.distinct j i (hj ▸ hptr) (by rw [hj, hi])
      simp only [hji, update_self]
    intro j hj
    have hji : j ≠ i := by
      rintro rfl
      exact hj (by rw [hi])
    simp only [update_of_ne hji, hm]
  | reset =>
    simp only [ArenaOp.run]
    unfold arenaReset
    rw [if_neg hv.nonnull]
    obtain ⟨h', heq, hh', hlaid⟩ := arenaLayFirst_spec
      (h := ({ h with mappings := fun _ => {} } : Arena w nmap)) hv.size hv.sizeAligned hv.sizeFits
    rw [heq]
    have hbase : h'.base = h.base := by rw [hh']
    have hsize : h'.size = h.size := by rw [hh']
    refine ⟨none, h', [⟨h.size - 16, true⟩], rfl, ⟨hbase, hsize, ⟨?_, ?_, ?_, ?_⟩, fun _ => ?_⟩,
      nofun, fun _ => ⟨fun i hi => ?_, fun i j hi _ => ?_⟩⟩
    · rw [hh']
      exact { hv with first := rfl }
    · rw [hbase, hsize]
      exact hv.fits
    · rw [hbase, hsize]
      exact hlaid
    · rw [hh']
      rfl
    · exact isChain_singleton _
    · rw [hh'] at hi
      exact absurd rfl hi
    · rw [hh'] at hi
      exact absurd rfl hi

/-- A buffer that is not accepted is left alone by everything but a reset. -/
theorem ArenaOp.run_invalid (op : ArenaOp) (hi : Intact h) (hbad : arenaLayoutValid h = .ok false)
    (hreset : op ≠ .reset) : op.run h = .ok (none, h) := by
  have hfirst : h.first ≠ 0 := by
    rw [hi.first]
    exact hi.nonnull
  have halloc : ∀ size, arenaAlloc size h = .ok (none, h) := by
    intro size
    unfold arenaAlloc
    rw [if_neg hfirst, hbad, ok_bind, if_pos rfl]
  have hfree : ∀ ptr, arenaFreeBlock ptr h = .ok (false, h) := by
    intro ptr
    unfold arenaFreeBlock
    rw [hbad, ok_bind, if_pos rfl, ite_self]
  cases op with
  | alloc size => exact halloc size
  | calloc size =>
    simp only [ArenaOp.run, arenaCalloc, halloc, ok_bind, ite_self]
  | realloc ptr size =>
    simp only [ArenaOp.run, arenaRealloc, halloc, hbad, ok_bind, if_true, ite_self]
  | free ptr =>
    simp only [ArenaOp.run, arenaFree, hfree, ok_bind]
  | allocTracked size =>
    simp only [ArenaOp.run, arenaAllocTracked, halloc]
    split <;> rfl
  | freeTracked ptr size =>
    simp only [ArenaOp.run, arenaFreeTracked, hfree]
    split
    · rfl
    · split <;> rfl
  | reset => exact absurd rfl hreset

theorem ArenaOp.run_reset (hi : Intact h) :
    ∃ h', ArenaOp.run .reset h = .ok (none, h') ∧ h' = { h with
        mem := h'.mem, first := h.base, used := 0, mappings := fun _ => {} } ∧
      Laid w h'.mem.bytes h.base [⟨h.size - 16, true⟩] (h.base + h.size) := by
  obtain ⟨h', heq, hh', hlaid⟩ := arenaLayFirst_spec
    (h := ({ h with mappings := fun _ => {} } : Arena w nmap)) hi.size hi.sizeAligned hi.sizeFits
  refine ⟨h', ?_, hh', hlaid⟩
  simp only [ArenaOp.run, arenaReset]
  rw [if_neg hi.nonnull, heq, ok_bind]

/-- Whatever stands in the buffer, an operation ends without an access outside the managed region,
and a pointer it returns has the requested bytes inside it. -/
theorem arenaOp_contained (h : Arena w nmap) (hi : Intact h) (op : ArenaOp) :
    ∃ r h', op.run h = .ok (r, h') ∧ h'.base = h.base ∧ h'.size = h.size ∧ Intact h' ∧
      ∀ p, r = some p → h.base ≤ p ∧ p + op.bytes ≤ h.base + h.size := by
  obtain ⟨valid, hcheck, hiff⟩ := arenaLayoutValid_spec hi
  cases valid with
  | true =>
    obtain ⟨bs, hv⟩ := hiff.mp rfl
    obtain ⟨r, h', bs', hrun, hruns⟩ := op.run_valid hv
    refine ⟨r, h', hrun, hruns.relaid.base, hruns.relaid.size, hruns.relaid.valid.toIntact,
      fun p hp => ?_⟩
    obtain ⟨l, hl, hmem⟩ := hruns.result p hp
    have hbound := live_bounds hmem
    have hext := hruns.relaid.valid.extent_eq
    rw [hruns.relaid.size] at hext
    omega
  | false =>
    by_cases hreset : op = .reset
    · subst hreset
      obtain ⟨h', hrun, hh', -⟩ := ArenaOp.run_reset hi
      refine ⟨none, h', hrun, by rw [hh'], by rw [hh'], ?_, nofun⟩
      rw [hh']
      exact { hi with first := rfl }
    · exact ⟨none, h, op.run_invalid hi hcheck hreset, rfl, rfl, hi, nofun⟩

/-- A buffer full of ones. -/
def garbageArena : Arena .word32 1 where
  base := 16
  size := 64
  used := 0
  highWater := 0
  first := 16
  mappings := fun _ => {}
  mem := Mem.ofBytes fun _ => 255

theorem garbage_contained : Intact garbageArena ∧
    ∃ r h', ArenaOp.run (.realloc 32 8) garbageArena = .ok (r, h') ∧
      ∀ p, r = some p → 16 ≤ p ∧ p + 8 ≤ 16 + 64 := by
  have hi : Intact garbageArena := ⟨by decide, rfl, by decide, by decide, by decide, by decide⟩
  obtain ⟨r, h', hrun, -, -, -, hp⟩ := arenaOp_contained garbageArena hi (.realloc 32 8)
  exact ⟨hi, r, h', hrun, hp⟩

/-- A reallocation of a payload in use keeps its content and every other payload, or nothing has
happened. -/
theorem arenaRealloc_framed (hv : Valid h bs) {ptr old : Nat}
    (hold : (ptr, old) ∈ live 16 h.base bs) (size : Nat) :
    ∃ r h', arenaRealloc ptr size h = .ok (r, h') ∧ (r = none → h' = h) ∧
      ∀ q, r = some q → ∃ bs' l, Valid h' bs' ∧ (q, l) ∈ live 16 h'.base bs' ∧ size ≤ l ∧
        (∀ k < min old size, h'.mem.bytes (q + k) = h.mem.bytes (ptr + k)) ∧
        ∀ p ∈ live 16 h.base bs, p ≠ (ptr, old) → p ∈ live 16 h'.base bs' ∧
          ∀ x, p.1 ≤ x → x < p.1 + p.2 → h'.mem.bytes x = h.mem.bytes x := by
  have hptr : ptr ≠ 0 := by
    have := live_bounds hold
    omega
  rcases arenaRealloc_spec hv hptr size with
    heq | ⟨old', q, l, h', bs', heq, hr, hold', hlive, hl, -, -, hcopy, hother⟩
  · exact ⟨none, h, heq, fun _ => rfl, nofun⟩
  -- A payload has one length.
  have hsame : old' = old := by
    by_contra hne
    have := live_apart hold hold' (by simp [Ne.symm hne])
    omega
  subst hsame
  refine ⟨some q, h', heq, nofun, fun q' hq => ?_⟩
  cases hq
  rw [hr.base]
  exact ⟨bs', l, hr.valid, (hlive _).mpr (.inl rfl), hl, hcopy, fun p hp hne =>
    ⟨(hlive p).mpr (.inr ⟨hp, hne⟩), hother p hp hne⟩⟩

/-- Two blocks in use, each with a free one behind it. -/
def twoBlocks : Arena .word32 0 where
  base := 16
  size := 160
  used := 64
  highWater := 160
  first := 16
  mappings := nofun
  mem := [(16, 16), (24, arenaMagic), (32, 7), (48, 32), (52, 1), (56, arenaMagic), (96, 16),
    (104, arenaMagic), (112, 9), (128, 32), (132, 1), (136, arenaMagic)].foldl
      (fun mem (addr, v) => mem.store addr 4 v) (Mem.ofBytes fun _ => 0)

theorem twoBlocks_framed : ∃ h' bs' l, arenaRealloc 32 40 twoBlocks = .ok (some 32, h') ∧
    Valid h' bs' ∧ (32, l) ∈ live 16 h'.base bs' ∧ 40 ≤ l ∧ (112, 16) ∈ live 16 h'.base bs' ∧
    h'.mem.bytes 32 = 7 ∧ h'.mem.bytes 112 = 9 := by
  have hv : Valid twoBlocks [⟨16, false⟩, ⟨32, true⟩, ⟨16, false⟩, ⟨32, true⟩] :=
    ⟨⟨by decide, rfl, by decide, by decide, by decide, by decide⟩, by decide,
      ⟨⟨by decide +kernel, by decide, by decide⟩, ⟨by decide +kernel, by decide, by decide⟩,
        ⟨by decide +kernel, by decide, by decide⟩, ⟨by decide +kernel, by decide, by decide⟩, rfl⟩,
      rfl⟩
  obtain ⟨r, h', heq, -, hgrown⟩ := arenaRealloc_framed hv (by decide : (32, 16) ∈ _) 40
  have hr : (arenaRealloc 32 40 twoBlocks).map Prod.fst = .ok (some 32) := by decide +kernel
  rw [heq] at hr
  cases hr
  obtain ⟨bs', l, hv', hin, hl, hcopy, hkept⟩ := hgrown 32 rfl
  obtain ⟨hother, hbytes⟩ := hkept (112, 16) (by decide) (by decide)
  exact ⟨h', bs', l, heq, hv', hin, hl, hother, (hcopy 0 (by decide)).trans (by decide +kernel),
    (hbytes 112 (by decide) (by decide)).trans (by decide +kernel)⟩

end Run

/-! ## Runs -/

section Sequence

variable {h h' : Arena w nmap}

/-- A buffer is turned down, or it becomes one free block. -/
theorem arenaInit_cases {size : Nat} (hsize : size < 256 ^ w.bytes) (buf : Nat) (mem : Mem) :
    (∃ e, arenaInit w nmap buf size mem = .ok (.error e)) ∨
    ∃ h : Arena w nmap, arenaInit w nmap buf size mem = .ok (.ok h) ∧ Intact h ∧
      Laid w h.mem.bytes h.base [⟨h.size - 16, true⟩] (h.base + h.size) ∧ h.used = 0 ∧
      (∀ i, (h.mappings i).addr = 0) ∧
      (16 ∣ buf → 16 ∣ size → h.base = buf ∧ h.size = size) := by
  unfold arenaInit
  simp only [arenaAlign, arenaHdr]
  split
  · exact .inl ⟨_, rfl⟩
  split
  · exact .inl ⟨_, rfl⟩
  split
  · exact .inl ⟨_, rfl⟩
  split
  · exact .inl ⟨_, rfl⟩
  rename_i hroom
  have husable : 16 ∣ (size - ((buf + (16 - 1)) / 16 * 16 - buf)) / 16 * 16 := Dvd.intro_left _ rfl
  have hstart : 16 ∣ (buf + (16 - 1)) / 16 * 16 := Dvd.intro_left _ rfl
  generalize hb : (buf + (16 - 1)) / 16 * 16 = start at hroom husable hstart ⊢
  generalize hu : (size - (start - buf)) / 16 * 16 = usable at hroom husable ⊢
  obtain ⟨h1, heq, hh1, hlaid⟩ := arenaLayFirst_spec
    (h := (⟨start, usable, 0, 0, 0, fun _ => {}, mem⟩ : Arena w nmap))
    (by simp only; omega) husable (by simp only; omega)
  rw [heq]
  refine .inr ⟨h1, rfl, ?_, ?_, by rw [hh1], fun i => by rw [hh1], fun _ _ => ?_⟩
  · rw [hh1]
    exact ⟨by simp only; omega, rfl, by simp only; omega, husable, hstart, by simp only; omega⟩
  · rw [hh1]
    exact hlaid
  · rw [hh1]
    exact ⟨by simp only; omega, by simp only; omega⟩

/-- The states of an arena: initialised over some buffer, then used by operations and by stores of
its clients into payloads that are theirs. -/
inductive ArenaRuns (w : WordSize) (nmap : Nat) : Arena w nmap → Prop where
  | start {buf size : Nat} {mem : Mem} {h : Arena w nmap} : size < 256 ^ w.bytes →
      arenaInit w nmap buf size mem = .ok (.ok h) → ArenaRuns w nmap h
  | op {h h' : Arena w nmap} {r : Option Nat} (op : ArenaOp) : ArenaRuns w nmap h →
      op.run h = .ok (r, h') → ArenaRuns w nmap h'
  | store {h : Arena w nmap} {bs : List Block} {q : Nat × Nat} (m : Mem) : ArenaRuns w nmap h →
      Valid h bs → q ∈ live 16 h.base bs →
      (∀ x, x < q.1 ∨ q.1 + q.2 ≤ x → m.bytes x = h.mem.bytes x) →
      ArenaRuns w nmap { h with mem := m }

/-- A buffer at the very end of the address space is never accepted. -/
structure Refused (h : Arena w nmap) : Prop extends Intact h where
  unfit : 256 ^ w.bytes ≤ h.base + h.size
  laid : Laid w h.mem.bytes h.base [⟨h.size - 16, true⟩] (h.base + h.size)
  used : h.used = 0
  unmapped : ∀ i, (h.mappings i).addr = 0

theorem Refused.layoutValid (hr : Refused h) : arenaLayoutValid h = .ok false := by
  obtain ⟨valid, hcheck, hiff⟩ := arenaLayoutValid_spec hr.toIntact
  cases valid with
  | false => exact hcheck
  | true =>
    obtain ⟨bs, hv⟩ := hiff.mp rfl
    have h1 := hv.fits
    have h2 := hr.unfit
    omega

theorem ArenaRuns.cases (hrun : ArenaRuns w nmap h) :
    Refused h ∨ ∃ bs, Valid h bs ∧ Coalesced bs ∧ Tracks h bs := by
  induction hrun with
  | @start buf size mem h hsize hinit =>
    rcases arenaInit_cases hsize buf mem with ⟨e, herr⟩ | ⟨h1, heq, hi, hlaid, hused, hmap, -⟩
    · rw [herr] at hinit
      cases hinit
    rw [heq] at hinit
    cases hinit
    by_cases hfits : h.base + h.size < 256 ^ w.bytes
    · refine .inr ⟨_, ⟨hi, hfits, hlaid, hused⟩, isChain_singleton _,
        fun i hne => absurd (hmap i) hne, fun i _ hne _ => absurd (hmap i) hne⟩
    · exact .inl ⟨hi, by omega, hlaid, hused, hmap⟩
  | @op h h' r op _ heq ih =>
    rcases ih with hr | ⟨bs, hv, hc, ht⟩
    · by_cases hreset : op = .reset
      · subst hreset
        obtain ⟨h1, hrun, hh1, hlaid⟩ := ArenaOp.run_reset hr.toIntact
        rw [hrun] at heq
        cases heq
        refine .inl ⟨?_, ?_, ?_, by rw [hh1], fun i => by rw [hh1]⟩
        · rw [hh1]
          exact { hr with first := rfl }
        · rw [hh1]
          exact hr.unfit
        · rw [hh1]
          exact hlaid
      · rw [op.run_invalid hr.toIntact hr.layoutValid hreset] at heq
        cases heq
        exact .inl hr
    · obtain ⟨r', h1, bs', hrun, hruns⟩ := op.run_valid hv
      rw [hrun] at heq
      cases heq
      exact .inr ⟨bs', hruns.relaid.valid, hruns.relaid.coalesced hc, hruns.tracks ht⟩
  | @store h bs q m _ hv hq hm ih =>
    rcases ih with hr | ⟨bs', hv', hc, ht⟩
    · have h1 := hv.fits
      have h2 := hr.unfit
      omega
    · obtain rfl := hv.laid.unique hv'.laid
      exact .inr ⟨bs, hv.store_live hq hm, hc, ht.live, ht.distinct⟩

def arenaFreeAll (ptrs : List Nat) (h : Arena w nmap) : Except Fault (Arena w nmap) :=
  ptrs.foldlM (fun h ptr => arenaFree ptr h) h

theorem arenaFreeAll_spec {bs : List Block} (ptrs : List Nat) (hv : Valid h bs)
    (hc : Coalesced bs) : ∃ h' bs', arenaFreeAll ptrs h = .ok h' ∧ Relaid h bs h' bs' ∧
      ∀ q, q ∈ live 16 h.base bs' → q ∈ live 16 h.base bs ∧ q.1 ∉ ptrs := by
  induction ptrs generalizing h bs with
  | nil => exact ⟨h, bs, rfl, Relaid.refl hv, fun q hq => ⟨hq, not_mem_nil⟩⟩
  | cons ptr ptrs ih =>
    unfold arenaFreeAll
    rw [foldlM_cons]
    rcases arenaFree_spec hv ptr with ⟨heq, hno⟩ | ⟨l, h1, bs1, heq, hr, hg, -⟩
    · rw [heq]
      obtain ⟨h', bs', hall, hr', hsub⟩ := ih hv hc
      refine ⟨h', bs', hall, hr', fun q hq => ?_⟩
      obtain ⟨hmem, hout⟩ := hsub q hq
      refine ⟨hmem, not_mem_cons_of_ne_of_not_mem (fun heq => hno q.2 ?_) hout⟩
      rw [← heq]
      exact hmem
    rw [heq]
    obtain ⟨h', bs', hall, hr', hsub⟩ := ih hr.valid (hr.coalesced hc)
    refine ⟨h', bs', hall, hr.trans hr', fun q hq => ?_⟩
    rw [← hr.base] at hq
    obtain ⟨hmem, hout⟩ := hsub q hq
    rw [hr.base] at hmem
    refine ⟨hg.subset hmem, not_mem_cons_of_ne_of_not_mem (fun heq => ?_) hout⟩
    have hapart := hg.apart hmem
    omega

end Sequence

end Lxp
