import Lxp.Lib.ByteFile
import Lxp.Lib.RefPool
import Lxp.Overlay.Model

/-!
# Where the bytes of files are

Every node's buffer is an allocated payload of the pool, no two nodes share one, and a file is never
longer than its buffer.  From that, what each operation on nodes does to the contents of all files:
growing a buffer may move it but changes nobody's bytes.
-/

open ByteMemory BlockList Function

namespace Lxp

/-! ## The invariant -/

/-- An arena that hands out nothing. -/
def Barren {w : WordSize} {nmap : Nat} (h : Arena w nmap) : Prop := h.first = 0 ∨ Refused h

variable {K : WfsConfig}

structure Pooled (x : Wfs K) (bs : List Block) : Prop where
  ready : x.ready = true
  valid : Valid x.arena bs
  extent : x.arena.base = K.poolBase ∧ x.arena.size = K.pool
  live : ∀ i, (x.nodes i).data ≠ 0 →
    ∃ l, ((x.nodes i).data, l) ∈ live 16 x.arena.base bs ∧ (x.nodes i).cap ≤ l
  distinct : ∀ i j, (x.nodes i).data ≠ 0 → (x.nodes i).data = (x.nodes j).data → i = j

structure Unpooled (x : Wfs K) : Prop where
  data : ∀ i, (x.nodes i).data = 0
  barren : Barren x.arena
  first : x.ready = false → x.arena.first = 0

structure Stored (x : Wfs K) : Prop where
  pool : Unpooled x ∨ ∃ bs, Pooled x bs
  empty : ∀ i, (x.nodes i).data = 0 → (x.nodes i).cap = 0
  fits : ∀ i, (x.nodes i).size ≤ (x.nodes i).cap
  unused : ∀ i, (x.nodes i).used = false → x.nodes i = {}

/-- What a node says apart from where its bytes are and how many. -/
def Wnode.entry (n : Wnode) : Wnode := { n with data := 0, size := 0, cap := 0 }

/-- A state in which only the bytes of files, or their places, are different. -/
structure Becomes (x x' : Wfs K) (files : K.Node → Bytes) : Prop where
  stored : Stored x'
  ofds : x'.ofds = x.ofds
  entry : ∀ j, (x'.nodes j).entry = (x.nodes j).entry
  files : content x' = files

section Content

variable {x x' : Wfs K} {i j : K.Node}

theorem content_length (x : Wfs K) (i : K.Node) : (content x i).length = (x.nodes i).size :=
  bytesFrom_length _ _ _

theorem content_congr (hsize : (x'.nodes j).size = (x.nodes j).size)
    (hbytes : ∀ k, k < (x.nodes j).size →
      x'.arena.mem.bytes ((x'.nodes j).data + k) = x.arena.mem.bytes ((x.nodes j).data + k)) :
    content x' j = content x j := by
  unfold content
  rw [hsize]
  exact bytesFrom_congr hbytes

theorem content_of_size_eq_zero (hsize : (x.nodes j).size = 0) : content x j = [] := by
  rw [← List.length_eq_zero_iff, content_length, hsize]

theorem Stored.size_eq_zero (hs : Stored x) (hdata : (x.nodes i).data = 0) :
    (x.nodes i).size = 0 := by
  have h1 := hs.fits i
  have h2 := hs.empty i hdata
  omega

theorem Stored.content_unpooled (hs : Stored x) (hdata : (x.nodes i).data = 0) : content x i = [] :=
  content_of_size_eq_zero (hs.size_eq_zero hdata)

theorem Becomes.refl (hs : Stored x) : Becomes x x (content x) := ⟨hs, rfl, fun _ => rfl, rfl⟩

variable {files : K.Node → Bytes}

theorem Becomes.trans {x'' : Wfs K} {files' : K.Node → Bytes}
    (h : Becomes x x' files) (h' : Becomes x' x'' files') : Becomes x x'' files' :=
  ⟨h'.stored, h'.ofds.trans h.ofds, fun j => (h'.entry j).trans (h.entry j), h'.files⟩

theorem Becomes.used (h : Becomes x x' files)
    (j : K.Node) : (x'.nodes j).used = (x.nodes j).used := by
  have := congrArg Wnode.used (h.entry j)
  exact this

end Content

/-! ## Buffers -/

section Buffers

variable {x x' : Wfs K} {i j : K.Node} {bs : List Block}

theorem Barren.realloc {w : WordSize} {nmap : Nat} {h : Arena w nmap} (hb : Barren h)
    (size : Nat) : arenaRealloc 0 size h = .ok (none, h) := by
  unfold arenaRealloc
  rw [if_pos rfl]
  rcases hb with hfirst | hr
  · unfold arenaAlloc
    rw [if_pos hfirst]
  · exact (ArenaOp.alloc size).run_invalid hr.toIntact hr.layoutValid nofun

theorem Barren.store {w : WordSize} {nmap : Nat} {h : Arena w nmap} (hb : Barren h) {m : Mem}
    (hm : ∀ a, m.bytes a = h.mem.bytes a) : Barren ({ h with mem := m } : Arena w nmap) := by
  rcases hb with hfirst | hr
  · exact .inl hfirst
  · refine .inr ⟨{ hr with }, hr.unfit, ?_, hr.used, hr.unmapped⟩
    exact Laid.congr hr.laid fun a _ _ => hm a

theorem live_unique {a p l l' : Nat} (h : (p, l) ∈ live 16 a bs) (h' : (p, l') ∈ live 16 a bs) :
    l = l' := by
  by_contra hne
  have hapart := live_apart h h' (by simpa using hne)
  omega

theorem Pooled.content_apart (hs : Stored x) (hp : Pooled x bs)
    (hdata : (x.nodes j).data ≠ 0) {k : Nat} (hk : k < (x.nodes j).size) :
    ∃ l, ((x.nodes j).data, l) ∈ BlockList.live 16 x.arena.base bs ∧ k < l := by
  obtain ⟨l, hl, hcap⟩ := hp.live j hdata
  have := hs.fits j
  exact ⟨l, hl, by omega⟩

/-! ### One node changes -/

section Update

variable {n : Wnode}

theorem Unpooled.of_update (hu : Unpooled x) (hnodes : x'.nodes = update x.nodes i n)
    (hn : n.data = 0) (hb : Barren x'.arena)
    (hfirst : x'.ready = false → x'.arena.first = 0) : Unpooled x' := by
  refine ⟨?_, hb, hfirst⟩
  rw [hnodes]
  exact (Function.forall_update_iff x.nodes fun _ n => n.data = 0).mpr ⟨hn, fun j _ => hu.data j⟩

/-- The other nodes keep their blocks, and what the node has now is a block of its own. -/
theorem Pooled.of_update (hp : Pooled x bs) {bs' : List Block}
    (hnodes : x'.nodes = update x.nodes i n) (hready : x'.ready = x.ready)
    (hv : Valid x'.arena bs') (hbase : x'.arena.base = x.arena.base)
    (hsize : x'.arena.size = x.arena.size)
    (hn : n.data ≠ 0 → (∃ l, (n.data, l) ∈ BlockList.live 16 x.arena.base bs' ∧ n.cap ≤ l) ∧
      ∀ j, j ≠ i → (x.nodes j).data ≠ 0 → (x.nodes j).data ≠ n.data)
    (hkeep : ∀ j, j ≠ i → (x.nodes j).data ≠ 0 → ∀ l,
      ((x.nodes j).data, l) ∈ BlockList.live 16 x.arena.base bs →
      ((x.nodes j).data, l) ∈ BlockList.live 16 x.arena.base bs') : Pooled x' bs' := by
  refine ⟨hready.trans hp.ready, hv, ⟨hbase.trans hp.extent.1, hsize.trans hp.extent.2⟩,
    fun j hj => ?_, fun a b ha hab => ?_⟩
  · rw [hnodes] at hj ⊢
    rw [hbase]
    by_cases hji : j = i
    · rw [hji, update_self] at hj ⊢
      exact (hn hj).1
    · rw [update_of_ne hji] at hj ⊢
      obtain ⟨l, hl, hcap⟩ := hp.live j hj
      exact ⟨l, hkeep j hji hj l hl, hcap⟩
  · rw [hnodes] at ha hab
    by_cases hai : a = i <;> by_cases hbi : b = i
    · rw [hai, hbi]
    · rw [hai, update_self, update_of_ne hbi] at hab
      rw [hai, update_self] at ha
      exact absurd hab.symm ((hn ha).2 b hbi (hab ▸ ha))
    · rw [hbi, update_self, update_of_ne hai] at hab
      rw [update_of_ne hai] at ha
      exact absurd hab ((hn (hab ▸ ha)).2 a hai ha)
    · rw [update_of_ne hai] at ha hab
      rw [update_of_ne hbi] at hab
      exact hp.distinct a b ha hab

theorem Stored.of_update (hs : Stored x) (hnodes : x'.nodes = update x.nodes i n)
    (hpool : Unpooled x' ∨ ∃ bs, Pooled x' bs) (hempty : n.data = 0 → n.cap = 0)
    (hfits : n.size ≤ n.cap) (hunused : n.used = false → n = {}) : Stored x' := by
  have hall : ∀ P : Wnode → Prop, P n → (∀ j, P (x.nodes j)) → ∀ j, P (x'.nodes j) := by
    intro P hn hx
    rw [hnodes]
    exact (Function.forall_update_iff x.nodes fun _ => P).mpr ⟨hn, fun j _ => hx j⟩
  exact ⟨hpool, hall (fun n => n.data = 0 → n.cap = 0) hempty hs.empty,
    hall (fun n => n.size ≤ n.cap) hfits hs.fits,
    hall (fun n => n.used = false → n = {}) hunused hs.unused⟩

theorem content_of_update {file : Bytes} (hnodes : x'.nodes = update x.nodes i n)
    (hi : content x' i = file)
    (hbytes : ∀ j, j ≠ i → ∀ k, k < (x.nodes j).size →
      x'.arena.mem.bytes ((x.nodes j).data + k) = x.arena.mem.bytes ((x.nodes j).data + k)) :
    content x' = update (content x) i file := by
  funext j
  by_cases hji : j = i
  · rw [hji, update_self, hi]
  have hj : x'.nodes j = x.nodes j := by rw [hnodes, update_of_ne hji]
  rw [update_of_ne hji]
  exact content_congr (by rw [hj]) fun k hk => by rw [hj, hbytes j hji k hk]

end Update

theorem Stored.data_ne_zero (hs : Stored x) {k : Nat} (hk : k < (x.nodes j).size) :
    (x.nodes j).data ≠ 0 := by
  intro hzero
  rw [hs.size_eq_zero hzero] at hk
  omega

theorem Stored.rebuffer (hs : Stored x) (hp : Pooled x bs) {h' : Arena K.word K.nmap}
    {bs' : List Block} {q l cap : Nat} (hbase : h'.base = x.arena.base)
    (hextent : h'.size = x.arena.size) (hv : Valid h' bs')
    (hq : (q, l) ∈ live 16 x.arena.base bs') (hcap : cap ≤ l) (hsize : (x.nodes i).size ≤ cap)
    (hused : (x.nodes i).used = true)
    (hne : ∀ j, j ≠ i → (x.nodes j).data ≠ 0 → (x.nodes j).data ≠ q)
    (hkeep : ∀ j, j ≠ i → ∀ l, (x.nodes j).data ≠ 0 →
      ((x.nodes j).data, l) ∈ live 16 x.arena.base bs →
      ((x.nodes j).data, l) ∈ live 16 x.arena.base bs' ∧
      ∀ k, k < l → h'.mem.bytes ((x.nodes j).data + k) = x.arena.mem.bytes ((x.nodes j).data + k))
    (hbytes : ∀ k, k < (x.nodes i).size →
      h'.mem.bytes (q + k) = x.arena.mem.bytes ((x.nodes i).data + k)) :
    Becomes x (setNode i (fun n => { n with data := q, cap := cap }) { x with arena := h' })
      (content x) := by
  have hq0 : q ≠ 0 := by
    have := live_bounds hq
    omega
  refine ⟨hs.of_update rfl (.inr ⟨bs', hp.of_update rfl rfl hv hbase hextent
    (fun _ => ⟨⟨l, hq, hcap⟩, hne⟩) fun j hji hj l hl => (hkeep j hji l hj hl).1⟩)
    (fun h => absurd h hq0) hsize (fun h => absurd (hused.symm.trans h) (by simp)), rfl,
    fun j => ?_, ?_⟩
  · by_cases hji : j = i
    · rw [hji, setNode_self]
      rfl
    · rw [setNode_of_ne _ _ hji]
  rw [content_of_update (x := x) rfl (content_congr (x := x) (j := i) ?_ ?_) ?_, update_eq_self]
  · rw [setNode_self]
  · simpa using hbytes
  · intro j hji k hk
    obtain ⟨lj, hlj, hklj⟩ := hp.content_apart hs (hs.data_ne_zero hk) hk
    exact (hkeep j hji lj (hs.data_ne_zero hk) hlj).2 k hklj

theorem wfsResize_spec (hs : Stored x) (hused : (x.nodes i).used = true) {cap : Nat}
    (hcap : (x.nodes i).size ≤ cap) : wfsResize i cap x = .ok (false, x) ∨
    ∃ x', wfsResize i cap x = .ok (true, x') ∧ Becomes x x' (content x) ∧
      (x'.nodes i).cap = cap := by
  unfold wfsResize
  rcases hs.pool with hu | ⟨bs, hp⟩
  · rw [hu.data i, hu.barren.realloc]
    exact .inl rfl
  by_cases hdata : (x.nodes i).data = 0
  · rw [hdata, arenaRealloc]
    rcases arenaAlloc_spec hp.valid cap with hnone | ⟨q, l, h', bs', heq, hr, hg, hl, -, -, hk⟩
    · rw [hnone]
      exact .inl rfl
    rw [heq]
    refine .inr ⟨_, rfl, hs.rebuffer hp hr.base hr.size hr.valid hg.mem hl hcap hused ?_ ?_ ?_,
      by simp only [setNode, update_self]⟩
    · rintro j - hj rfl
      obtain ⟨lj, hlj, -⟩ := hp.live j hj
      have := hg.apart hlj
      omega
    · intro j _ lj hj hlj
      refine ⟨hg.subset hlj, fun k hk' => hk.bytes _ ⟨_, hlj, ?_, ?_⟩⟩
      · omega
      · omega
    · intro k hk'
      rw [hs.size_eq_zero hdata] at hk'
      omega
  · rcases arenaRealloc_spec hp.valid hdata cap with
      hnone | ⟨old, q, l, h', bs', heq, hr, hold, hlive, hl, -, hq, hcopy, hothers⟩
    · rw [hnone]
      exact .inl rfl
    rw [heq]
    have hother : ∀ j, j ≠ i → ∀ lj, (x.nodes j).data ≠ 0 →
        ((x.nodes j).data, lj) ≠ ((x.nodes i).data, old) := by
      intro j hji lj hj heq
      exact hji (hp.distinct j i hj (congrArg Prod.fst heq))
    refine .inr ⟨_, rfl, hs.rebuffer hp hr.base hr.size hr.valid ((hlive _).mpr (.inl rfl)) hl
      hcap hused ?_ ?_ ?_, by simp only [setNode, update_self]⟩
    · intro j hji hj hjq
      obtain ⟨lj, hlj, -⟩ := hp.live j hj
      rcases hq with rfl | hq
      · exact hji (hp.distinct j i hj hjq)
      · exact hq _ hlj hjq
    · intro j hji lj hj hlj
      refine ⟨(hlive _).mpr (.inr ⟨hlj, hother j hji lj hj⟩), fun k hk => ?_⟩
      exact hothers _ hlj (hother j hji lj hj) _ (by simp only; omega) (by simp only; omega)
    · intro k hk
      obtain ⟨li, hli, hcapi⟩ := hp.live i hdata
      obtain rfl := live_unique hold hli
      have := hs.fits i
      exact hcopy k (by omega)

theorem Stored.unpooled_arena (hs : Stored x) (hdata : ∀ i, (x.nodes i).data = 0)
    {h' : Arena K.word K.nmap} (hpool : Barren h' ∨
      (∃ bs, Valid h' bs) ∧ h'.base = K.poolBase ∧ h'.size = K.pool) :
    Becomes x { x with arena := h', ready := true } (content x) := by
  refine ⟨{ hs with pool := ?_ }, rfl, fun _ => rfl, ?_⟩
  · rcases hpool with hb | ⟨⟨bs, hv⟩, hextent⟩
    · exact .inl ⟨hdata, hb, nofun⟩
    · exact .inr ⟨bs, rfl, hv, hextent, fun i hi => absurd (hdata i) hi, fun i _ hi =>
        absurd (hdata i) hi⟩
  · funext j
    rw [hs.content_unpooled (hdata j)]
    exact content_of_size_eq_zero (hs.size_eq_zero (hdata j))

theorem wfsReady_spec (hs : Stored x) : ∃ x', wfsReady x = .ok x' ∧ x'.nodes = x.nodes ∧
      Becomes x x' (content x) := by
  unfold wfsReady
  split
  · exact ⟨x, rfl, rfl, Becomes.refl hs⟩
  rename_i hready
  rcases hs.pool with hu | ⟨bs, hp⟩
  · rcases arenaInit_cases K.pool_fits K.poolBase x.arena.mem with
      ⟨e, herr⟩ | ⟨h, heq, hi, hlaid, hused, hmap, hextent⟩
    · rw [herr]
      exact ⟨_, rfl, rfl, hs.unpooled_arena hu.data (.inl hu.barren)⟩
    rw [heq]
    refine ⟨_, rfl, rfl, hs.unpooled_arena hu.data ?_⟩
    by_cases hfits : h.base + h.size < 256 ^ K.word.bytes
    · exact .inr ⟨⟨_, hi, hfits, hlaid, hused⟩, hextent K.base_aligned K.pool_aligned⟩
    · exact .inl (.inr ⟨hi, by omega, hlaid, hused, hmap⟩)
  · exact absurd hp.ready hready

theorem growCap_ge (K : WfsConfig) (cap : Nat) {need mincap : Nat} (hmin : need ≤ mincap)
    (hmax : need ≤ maxPayload K) : need ≤ growCap K cap mincap := by
  unfold growCap
  simp only
  split <;> split <;> (try split) <;> omega

theorem wfsReserve_spec (hs : Stored x) (hused : (x.nodes i).used = true) (need : Nat) :
    ∃ b x', wfsReserve i need x = .ok (b, x') ∧ Becomes x x' (content x) ∧
      (b = true → need ≤ (x'.nodes i).cap) := by
  unfold wfsReserve
  split
  · next hfit => exact ⟨true, x, rfl, Becomes.refl hs, fun _ => hfit⟩
  split
  · exact ⟨false, x, rfl, Becomes.refl hs, nofun⟩
  split
  · exact ⟨false, x, rfl, Becomes.refl hs, nofun⟩
  obtain ⟨x1, hready, hnodes, hb1⟩ := wfsReady_spec hs
  have hmin : need ≤ roundUp256 need := by
    unfold roundUp256
    omega
  have hgrow := growCap_ge K (x.nodes i).cap hmin (by omega)
  have hsize : ∀ {cap}, need ≤ cap → (x1.nodes i).size ≤ cap := by
    have := hs.fits i
    rw [hnodes]
    omega
  have hused1 : (x1.nodes i).used = true := by
    rw [hnodes]
    exact hused
  rw [hready, ok_bind]
  rcases wfsResize_spec hb1.stored hused1 (hsize hgrow) with
    hno | ⟨x2, heq, hb2, hcap⟩
  · rw [hno, ok_bind]
    simp only
    split
    · rcases wfsResize_spec hb1.stored hused1 (hsize hmin) with
        hno | ⟨x2, heq, hb2, hcap⟩
      · exact ⟨false, x1, hno, hb1, nofun⟩
      · refine ⟨true, x2, heq, hb1.trans (hb1.files ▸ hb2), fun _ => ?_⟩
        rw [hcap]
        exact hmin
    · exact ⟨false, x1, rfl, hb1, nofun⟩
  · rw [heq]
    refine ⟨true, x2, rfl, hb1.trans (hb1.files ▸ hb2), fun _ => ?_⟩
    rw [hcap]
    exact hgrow

/-- Stores into the buffer of a node, and a new length, are seen in that node's file only. -/
theorem Stored.poke (hs : Stored x) (hused : (x.nodes i).used = true) (m : Mem) (size : Nat)
    (hsize : size ≤ (x.nodes i).cap)
    (hm : ∀ a, a < (x.nodes i).data ∨ (x.nodes i).data + (x.nodes i).cap ≤ a →
      m.bytes a = x.arena.mem.bytes a) :
    Becomes x (setNode i (fun n => { n with size := size }) (setMem (fun _ => m) x))
      (update (content x) i (bytesFrom m.bytes (x.nodes i).data size)) := by
  -- Without a buffer nothing is stored at all.
  have hstill : (x.nodes i).data = 0 → ∀ a, m.bytes a = x.arena.mem.bytes a := by
    intro hzero a
    apply hm
    rw [hs.empty i hzero]
    omega
  refine ⟨hs.of_update rfl ?_ (hs.empty i) hsize (fun h => absurd (hused.symm.trans h) (by simp)),
    rfl, fun j => ?_, content_of_update (x := x) rfl ?_ ?_⟩
  · rcases hs.pool with hu | ⟨bs, hp⟩
    · exact .inl (hu.of_update rfl (hu.data i) (hu.barren.store (hstill (hu.data i))) hu.first)
    refine .inr ⟨bs, hp.of_update rfl rfl ?_ rfl rfl
      (fun hne => ⟨hp.live i hne, fun j hji hj heq => hji (hp.distinct j i hj heq)⟩)
      fun _ _ _ _ => id⟩
    by_cases hzero : (x.nodes i).data = 0
    · have hv := hp.valid
      exact ⟨{ hv with }, hv.fits, Laid.congr hv.laid fun a _ _ => hstill hzero a, hv.used⟩
    · obtain ⟨l, hl, hcapl⟩ := hp.live i hzero
      exact hp.valid.store_live hl fun a ha => hm a (by simp only at ha; omega)
  · by_cases hji : j = i
    · rw [hji, setNode_self]
      rfl
    · rw [setNode_of_ne _ _ hji]
      rfl
  · rw [content, poolBytes, setNode_self]
    rfl
  · intro j hji k hk
    by_cases hzero : (x.nodes i).data = 0
    · exact hstill hzero _
    -- Two buffers do not overlap.
    rcases hs.pool with hu | ⟨bs, hp⟩
    · exact absurd (hu.data i) hzero
    have hjzero := hs.data_ne_zero hk
    obtain ⟨l, hl, hcapl⟩ := hp.live i hzero
    obtain ⟨lj, hlj, hklj⟩ := hp.content_apart hs hjzero hk
    have hne : ((x.nodes i).data, l) ≠ ((x.nodes j).data, lj) := fun heq =>
      hji (hp.distinct j i hjzero (congrArg Prod.fst heq).symm)
    have hapart := live_apart hl hlj hne
    exact hm _ (by omega)

end Buffers

/-! ## Nodes -/

section Nodes

variable {x x' : Wfs K} {i j : K.Node}

/-- Buffers and lengths are as they were. -/
structure SameBuffers (nodes nodes' : K.Node → Wnode) : Prop where
  data : ∀ j, (nodes' j).data = (nodes j).data
  size : ∀ j, (nodes' j).size = (nodes j).size
  cap : ∀ j, (nodes' j).cap = (nodes j).cap
  unused : ∀ j, (nodes' j).used = false → nodes' j = {}

theorem Stored.relabel (hs : Stored x) {nodes' : K.Node → Wnode}
    (h : SameBuffers x.nodes nodes') (ofds' : K.Ofd → OfdSlot K) :
    Stored { x with nodes := nodes', ofds := ofds' } ∧
      content { x with nodes := nodes', ofds := ofds' } = content x := by
  refine ⟨⟨?_, ?_, ?_, h.unused⟩, ?_⟩
  · rcases hs.pool with hu | ⟨bs, hp⟩
    · exact .inl ⟨fun j => (h.data j).trans (hu.data j), hu.barren, hu.first⟩
    refine .inr ⟨bs, hp.ready, hp.valid, hp.extent, ?_, ?_⟩
    · intro j hj
      simp only [h.data, h.cap] at hj ⊢
      exact hp.live j hj
    · intro a b ha hab
      simp only [h.data] at ha hab
      exact hp.distinct a b ha hab
  · intro j hj
    simp only [h.data, h.cap] at hj ⊢
    exact hs.empty j hj
  · intro j
    simp only [h.size, h.cap]
    exact hs.fits j
  · funext j
    apply content_congr (h.size j)
    intro k _
    simp only [h.data]

theorem SameBuffers.update (hs : Stored x) {n : Wnode} (hdata : n.data = (x.nodes i).data)
    (hsize : n.size = (x.nodes i).size) (hcap : n.cap = (x.nodes i).cap)
    (hun : n.used = false → n = {}) : SameBuffers x.nodes (update x.nodes i n) := by
  refine ⟨?_, ?_, ?_, ?_⟩ <;> intro j <;> by_cases hji : j = i
  · rw [hji, update_self, hdata]
  · rw [update_of_ne hji]
  · rw [hji, update_self, hsize]
  · rw [update_of_ne hji]
  · rw [hji, update_self, hcap]
  · rw [update_of_ne hji]
  · rw [hji, update_self]
    exact hun
  · rw [update_of_ne hji]
    exact hs.unused j

theorem wfsReclaim_spec (hs : Stored x) (i : K.Node) :
    ∃ x', wfsReclaim i x = .ok x' ∧ Stored x' ∧ x'.ofds = x.ofds ∧
      x'.nodes = update x.nodes i {} ∧ content x' = update (content x) i [] := by
  -- With the buffer gone, what is left is the others' as it was.
  have hrest : ∀ h' : Arena K.word K.nmap,
      (Unpooled (setNode i (fun _ => {}) { x with arena := h' }) ∨
        ∃ bs, Pooled (setNode i (fun _ => {}) { x with arena := h' }) bs) →
      (∀ j, j ≠ i → ∀ k, k < (x.nodes j).size →
        h'.mem.bytes ((x.nodes j).data + k) = x.arena.mem.bytes ((x.nodes j).data + k)) →
      Stored (setNode i (fun _ => {}) { x with arena := h' }) ∧
        content (setNode i (fun _ => {}) { x with arena := h' }) = update (content x) i [] :=
    fun h' hpool hbytes => ⟨hs.of_update rfl hpool (fun _ => rfl) le_rfl fun _ => rfl,
      content_of_update (x := x) rfl (content_of_size_eq_zero (by rw [setNode_self])) hbytes⟩
  unfold wfsReclaim
  split
  · rename_i hdata
    rcases hs.pool with hu | ⟨bs, hp⟩
    · exact absurd (hu.data i) hdata
    obtain ⟨l, hl, -⟩ := hp.live i hdata
    rcases arenaFree_spec hp.valid (x.nodes i).data with
      ⟨-, hno⟩ | ⟨l', h', bs', heq, hr, hg, -, hk⟩
    · exact absurd hl (hno l)
    rw [heq]
    have hstays : ∀ j, j ≠ i → (x.nodes j).data ≠ 0 → ∀ lj,
        ((x.nodes j).data, lj) ∈ live 16 x.arena.base bs →
        ((x.nodes j).data, lj) ∈ live 16 x.arena.base bs' := by
      intro j hji hj lj hlj
      refine hg.mem_iff_ne.mpr ⟨hlj, fun heq => hji (hp.distinct j i hj ?_)⟩
      exact congrArg Prod.fst heq
    suffices hboth : _ ∧ _ from ⟨_, rfl, hboth.1, rfl, rfl, hboth.2⟩
    refine hrest h' (.inr ⟨bs', hp.of_update rfl rfl hr.valid hr.base hr.size
      (fun h => absurd rfl h) hstays⟩) fun j hji k hk' => ?_
    have hj := hs.data_ne_zero hk'
    obtain ⟨lj, hlj, hklj⟩ := hp.content_apart hs hj hk'
    exact hk.bytes _ ⟨_, hstays j hji hj lj hlj, by simp only; omega, by simp only; omega⟩
  · suffices hboth : _ ∧ _ from ⟨_, rfl, hboth.1, rfl, rfl, hboth.2⟩
    refine hrest x.arena ?_ fun _ _ _ _ => rfl
    rcases hs.pool with hu | ⟨bs, hp⟩
    · exact .inl (hu.of_update rfl rfl hu.barren hu.first)
    · exact .inr ⟨bs, hp.of_update rfl rfl hp.valid rfl rfl (fun h => absurd rfl h)
        fun _ _ _ _ => id⟩

end Nodes

end Lxp
