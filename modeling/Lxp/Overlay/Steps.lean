import Lxp.Overlay.Storage

/-!
# What each overlay operation does

The invariant of the whole state: buffers as in `Stored`, and every node counts the descriptions of
it.  For each operation, that it ends, that it keeps the invariant, and what it does to the names in
the node table.
-/

open ByteMemory Function RefPool ByteFile List

namespace Lxp

variable {K : WfsConfig}
variable {path : Path} {files : K.Node → Bytes}
variable {l : Path × FileType}

/-! ## Descriptions and labels -/

def OfdSlot.node : OfdSlot K → Option K.Node
  | .tmpfs s => some s.node
  | _ => none

def heldNode (ofds : K.Ofd → OfdSlot K) : K.Ofd → Option K.Node :=
  fun d => (ofds d).node

theorem heldNode_update (ofds : K.Ofd → OfdSlot K) (d : K.Ofd) (o : OfdSlot K) :
    heldNode (update ofds d o) = update (heldNode ofds) d o.node := by
  funext e
  by_cases hed : e = d
  · subst hed
    simp only [heldNode, update_self]
  · simp only [heldNode, update_of_ne hed]

structure Sound (x : Wfs K) : Prop extends Stored x where
  counted : ∀ i, (x.nodes i).openRefs = holders (heldNode x.ofds) i

def Wnode.label (n : Wnode) : Option (Path × FileType) :=
  if n.used && n.linked then some (n.path, n.type) else none

def labels (x : Wfs K) : K.Node → Option (Path × FileType) := fun i => (x.nodes i).label

section Sound

variable {x x' : Wfs K} {i j : K.Node}

theorem Sound.used_of_held (hs : Sound x) {d : K.Ofd} {s : WOfd K}
    (hd : x.ofds d = .tmpfs s) : (x.nodes s.node).used = true := by
  have hpos : 0 < holders (heldNode x.ofds) s.node :=
    holders_pos (i := d) (by simp only [heldNode, hd, OfdSlot.node])
  rw [← hs.counted] at hpos
  by_contra hun
  rw [hs.unused s.node (by simpa using hun)] at hpos
  exact Nat.lt_irrefl 0 hpos

theorem Becomes.openRefs (h : Becomes x x' files) (j : K.Node) :
    (x'.nodes j).openRefs = (x.nodes j).openRefs := by
  have := congrArg Wnode.openRefs (h.entry j)
  exact this

theorem Becomes.sound (h : Becomes x x' files) (hs : Sound x) : Sound x' := by
  refine ⟨h.stored, fun i => ?_⟩
  rw [h.openRefs, h.ofds]
  exact hs.counted i

theorem Becomes.labels (h : Becomes x x' files) : labels x' = labels x := by
  funext j
  have := congrArg Wnode.label (h.entry j)
  exact this

variable {n : Wnode}

theorem named_iff : n.named path = true ↔ ∃ type, n.label = some (path, type) := by
  unfold Wnode.named Wnode.label
  by_cases h : n.used && n.linked
  · simp [h]
  · simp [h]

theorem wfsFind_eq_some (h : wfsFind path x = some i) :
    labels x i = some (path, (x.nodes i).type) := by
  have hnamed := List.find?_some h
  simp only [Wnode.named, Bool.and_eq_true, beq_iff_eq] at hnamed
  simp [Lxp.labels, Wnode.label, hnamed.1, hnamed.2]

theorem wfsFind_eq_none : wfsFind path x = none ↔ ∀ i type, labels x i ≠ some (path, type) := by
  unfold wfsFind
  rw [List.find?_eq_none]
  constructor
  · intro h i type hi
    exact h i (mem_finRange i) (named_iff.mpr ⟨type, hi⟩)
  · intro h i _ hn
    obtain ⟨type, hi⟩ := named_iff.mp hn
    exact h i type hi

theorem wfsFind_congr (h : labels x' = labels x) (path : Path) :
    wfsFind path x' = wfsFind path x := by
  unfold wfsFind
  congr 1
  funext i
  have hi : (x'.nodes i).label = (x.nodes i).label := congrFun h i
  rw [Bool.eq_iff_iff, named_iff, named_iff, hi]

theorem linked_of_label (h : labels x i = some l) :
    (x.nodes i).used = true ∧ (x.nodes i).linked = true := by
  unfold Lxp.labels Wnode.label at h
  split at h
  · next hboth => simpa using hboth
  · cases h

theorem entry_of_label (h : labels x i = some l) : l = ((x.nodes i).path, (x.nodes i).type) := by
  unfold Lxp.labels Wnode.label at h
  split at h
  · injection h with h
    exact h.symm
  · cases h

theorem Sound.relabel (hs : Sound x) {nodes' : K.Node → Wnode}
    (h : SameBuffers x.nodes nodes') (hrefs : ∀ j, (nodes' j).openRefs = (x.nodes j).openRefs) :
    Sound { x with nodes := nodes' } ∧ content { x with nodes := nodes' } = content x := by
  obtain ⟨hstored, hcontent⟩ := hs.toStored.relabel h x.ofds
  refine ⟨⟨hstored, fun i => ?_⟩, hcontent⟩
  simp only [hrefs]
  exact hs.counted i

theorem labels_update (hnodes : x'.nodes = update x.nodes i n) :
    labels x' = update (labels x) i n.label := by
  funext j
  unfold Lxp.labels
  rw [hnodes]
  by_cases hji : j = i
  · rw [hji, update_self, update_self]
  · rw [update_of_ne hji, update_of_ne hji]

theorem Sound.setEntry (hs : Sound x) (hdata : n.data = (x.nodes i).data)
    (hsize : n.size = (x.nodes i).size) (hcap : n.cap = (x.nodes i).cap)
    (hrefs : n.openRefs = (x.nodes i).openRefs) (hun : n.used = false → n = {}) :
    Sound (setNode i (fun _ => n) x) ∧ content (setNode i (fun _ => n) x) = content x := by
  refine hs.relabel (SameBuffers.update hs.toStored hdata hsize hcap hun) fun j => ?_
  by_cases hji : j = i
  · rw [hji, update_self, hrefs]
  · rw [update_of_ne hji]

end Sound

/-! ## Creation and removal of nodes -/

section Nodes

variable {x x' : Wfs K} {i j : K.Node}

/-- A new node in place of an unused one. -/
structure Creates (i : K.Node) (path : Path) (type : FileType) (x x' : Wfs K) : Prop where
  sound : Sound x'
  was : labels x i = none
  labels : labels x' = update (labels x) i (some (path, type))
  ofds : x'.ofds = x.ofds

theorem wfsCreate_cases (hs : Sound x) (path : Path) (type : FileType) (perm : Nat) :
    wfsCreate path type perm x = none ∨
    ∃ i x', wfsCreate path type perm x = some (i, x') ∧ Creates i path type x x' ∧
      x'.nodes i = { path, type, perm, used := true, linked := true } ∧
      content x' = content x ∧ content x i = [] := by
  unfold wfsCreate
  split
  · exact .inl rfl
  split
  · exact .inl rfl
  rename_i i hfind
  have hun : (x.nodes i).used = false := by simpa using List.find?_some hfind
  have hzero := hs.unused i hun
  obtain ⟨hsound, hcontent⟩ := hs.setEntry
    (n := { path, type, perm, used := true, linked := true }) (by rw [hzero]) (by rw [hzero])
    (by rw [hzero]) (by rw [hzero]) nofun
  refine .inr ⟨i, _, rfl, ⟨hsound, ?_, ?_, rfl⟩, setNode_self .., hcontent,
    content_of_size_eq_zero (by rw [hzero])⟩
  · simp [Lxp.labels, Wnode.label, hzero]
  · exact labels_update (setNode_nodes ..)

def Wnode.unlinked (n : Wnode) : Wnode :=
  if n.openRefs = 0 then {} else { n with linked := false, path := [] }

theorem Wnode.unlinked_label (n : Wnode) : n.unlinked.label = none := by
  unfold Wnode.unlinked Wnode.label
  split <;> simp

/-- The node loses its name.  Its file is gone with it unless a description is open. -/
theorem wfsFree_spec (hs : Sound x) (hused : (x.nodes i).used = true) :
    ∃ x', wfsFree i x = .ok x' ∧ Sound x' ∧ x'.ofds = x.ofds ∧
      x'.nodes = update x.nodes i (x.nodes i).unlinked ∧
      content x' = if (x.nodes i).openRefs = 0 then update (content x) i [] else content x := by
  obtain ⟨hsound, hcontent⟩ := hs.setEntry (n := { x.nodes i with linked := false, path := [] })
    rfl rfl rfl rfl fun h => by simp [hused] at h
  unfold wfsFree Wnode.unlinked
  rw [if_neg (by simp [hused])]
  simp only [setNode_self]
  split
  · rename_i hrefs
    obtain ⟨x', heq, hstored, hofds, hnodes, hgone⟩ := wfsReclaim_spec hsound.toStored i
    refine ⟨x', heq, ⟨hstored, fun j => ?_⟩, hofds, by rw [hnodes, setNode_nodes, update_idem],
      by rw [hgone, hcontent]⟩
    rw [hofds, hnodes, setNode_nodes, update_idem]
    have hcount := hs.counted j
    by_cases hji : j = i
    · rw [hji, update_self]
      rw [hji, hrefs] at hcount
      exact hcount
    · rw [update_of_ne hji]
      exact hcount
  · exact ⟨_, rfl, hsound, rfl, rfl, hcontent⟩

/-! ## Files -/

theorem fopPread_spec (x : Wfs K) (i : K.Node) (len off : Nat) :
    (∃ e, fopPread i len off true x = .error e) ∨
    fopPread i len off true x = .ok (readAt off len (content x i)) := by
  unfold fopPread vfsReadMem
  split
  · exact .inl ⟨_, rfl⟩
  right
  have hread : readAt off len (content x i) =
      bytesFrom x.arena.mem.bytes ((x.nodes i).data + off) (min ((x.nodes i).size - off) len) :=
    readAt_bytesFrom ..
  rw [hread]
  split
  · rename_i hend
    rw [Nat.sub_eq_zero_of_le hend]
    rfl
  · simp [poolBytes]

theorem setNode_id (i : K.Node) (x : Wfs K) :
    setNode i (fun n => { n with size := (x.nodes i).size }) x = x := by
  unfold setNode
  rw [update_eq_self]

/-- A write fails and changes nothing, or the file is the old one overwritten at the offset. -/
theorem fopPwrite_spec (hs : Stored x) (hused : (x.nodes i).used = true) (off : Nat) (src : Bytes) :
    (∃ e x', fopPwrite i off src true x = .ok (.error e, x') ∧ Becomes x x' (content x)) ∨
    ∃ x', fopPwrite i off src true x = .ok (.ok src.length, x') ∧
      Becomes x x' (update (content x) i (writeAt off src (content x i))) := by
  unfold fopPwrite
  split
  · exact .inl ⟨_, x, rfl, Becomes.refl hs⟩
  split
  · exact .inl ⟨_, x, rfl, Becomes.refl hs⟩
  split
  · exact .inl ⟨_, x, rfl, Becomes.refl hs⟩
  obtain ⟨b, x1, hres, hb, hcap⟩ := wfsReserve_spec hs hused (off + src.length)
  rw [hres, ok_bind]
  cases b with
  | false => exact .inl ⟨_, x1, rfl, hb⟩
  | true =>
    right
    have hroom := hcap rfl
    have hfits := hb.stored.fits i
    simp only [Bool.true_eq_false]
    generalize hn : x1.nodes i = n at hroom hfits ⊢
    -- The memory after both stores, and the length after them.
    have hstate : (if n.size < off + src.length then
        setNode i (fun n => { n with size := off + src.length })
          (setMem (·.write (n.data + off) src) (if n.size < off then
            setMem (·.zero (n.data + n.size) (off - n.size)) x1 else x1))
        else setMem (·.write (n.data + off) src) (if n.size < off then
            setMem (·.zero (n.data + n.size) (off - n.size)) x1 else x1)) =
        setNode i (fun m => { m with size := max n.size (off + src.length) })
          (setMem (fun _ => (if n.size < off then
            x1.arena.mem.zero (n.data + n.size) (off - n.size)
            else x1.arena.mem).write (n.data + off) src) x1) := by
      have hmem : setMem (·.write (n.data + off) src) (if n.size < off then
            setMem (·.zero (n.data + n.size) (off - n.size)) x1 else x1) =
          setMem (fun _ => (if n.size < off then
            x1.arena.mem.zero (n.data + n.size) (off - n.size)
            else x1.arena.mem).write (n.data + off) src) x1 := by
        split <;> rfl
      rw [hmem]
      split
      · next hlt => rw [Nat.max_eq_right (Nat.le_of_lt hlt)]
      · rw [Nat.max_eq_left (by omega), ← hn]
        exact (setNode_id i _).symm
    rw [hstate]
    refine ⟨_, rfl, hb.trans ?_⟩
    have hused1 : (x1.nodes i).used = true := (hb.used i).trans hused
    have hpoke := hb.stored.poke hused1 ((if n.size < off then
      x1.arena.mem.zero (n.data + n.size) (off - n.size) else x1.arena.mem).write
      (n.data + off) src) (max n.size (off + src.length)) (by rw [hn]; omega) (by
        intro a ha
        rw [hn] at ha
        rw [Mem.write_bytes_of_out _ (by omega)]
        split
        · exact Mem.zero_bytes_of_out _ (by omega)
        · rfl)
    rw [hn] at hpoke
    rw [← hb.files, content, poolBytes, hn, writeAt_bytesFrom]
    exact hpoke

/-- Setting the length fails and changes nothing, or cuts the file or fills it up with zeros. -/
theorem fopFtruncate_spec (hs : Stored x) (hused : (x.nodes i).used = true) (len : Nat) :
    (∃ e x', fopFtruncate i len x = .ok (.error e, x') ∧ Becomes x x' (content x)) ∨
    ∃ x', fopFtruncate i len x = .ok (.ok (), x') ∧
      Becomes x x' (update (content x) i (resize len (content x i))) := by
  unfold fopFtruncate
  split
  · exact .inl ⟨_, x, rfl, Becomes.refl hs⟩
  split
  · exact .inl ⟨_, x, rfl, Becomes.refl hs⟩
  split
  · obtain ⟨b, x1, hres, hb, hcap⟩ := wfsReserve_spec hs hused len
    rw [hres]
    cases b with
    | false => exact .inl ⟨_, x1, rfl, hb⟩
    | true =>
      right
      have hroom := hcap rfl
      have hsize : (x1.nodes i).size ≤ len := by
        rw [← content_length, hb.files, content_length]
        omega
      refine ⟨_, rfl, hb.trans ?_⟩
      have hused1 : (x1.nodes i).used = true := (hb.used i).trans hused
      have hpoke := hb.stored.poke hused1 (x1.arena.mem.zero
        ((x1.nodes i).data + (x1.nodes i).size) (len - (x1.nodes i).size)) len hroom
        fun a ha => Mem.zero_bytes_of_out _ (by omega)
      rw [← resize_bytesFrom_of_ge hsize] at hpoke
      rw [← hb.files]
      exact hpoke
  · right
    refine ⟨_, rfl, ?_⟩
    have hfits := hs.fits i
    have hpoke := hs.poke hused x.arena.mem len (by omega) fun _ _ => rfl
    rw [← resize_bytesFrom_of_le (n := (x.nodes i).size) (by omega)] at hpoke
    exact hpoke

end Nodes

/-! ## Opening and closing -/

section Descriptions

variable {x x' : Wfs K} {i j : K.Node}

/-- A description of node `i` can be made. -/
def Available (x : Wfs K) (i : K.Node) (room : Bool) : Prop :=
  (x.nodes i).openRefs ≠ 65535 ∧ room = true ∧ ∃ d, x.ofds d = .free

instance (x : Wfs K) (i : K.Node) (room : Bool) : Decidable (Available x i room) :=
  inferInstanceAs (Decidable (_ ∧ _ ∧ _))

theorem fdOpen_cases (o : OfdSlot K) (room : Bool) (x : Wfs K) :
    fdOpen o room x = none ∧ (room = true → ∀ d, x.ofds d ≠ .free) ∨
    ∃ d, fdOpen o room x = some (d, setOfd d o x) ∧ room = true ∧ x.ofds d = .free := by
  unfold fdOpen
  split
  · rename_i hnone
    refine .inl ⟨rfl, fun _ d hd => ?_⟩
    have := List.find?_eq_none.mp hnone d (mem_finRange d)
    simp [hd] at this
  rename_i d hd
  have hfree : x.ofds d = .free := by simpa using List.find?_some hd
  cases room with
  | false => exact .inl ⟨rfl, nofun⟩
  | true => exact .inr ⟨d, rfl, rfl, hfree⟩

theorem Sound.setOther (hs : Sound x) {d : K.Ofd} {o : OfdSlot K} (hd : (x.ofds d).node = none)
    (ho : o.node = none) : Sound (setOfd d o x) := by
  obtain ⟨hstored, -⟩ := hs.toStored.relabel ⟨fun _ => rfl, fun _ => rfl, fun _ => rfl,
    hs.unused⟩ (update x.ofds d o)
  refine ⟨hstored, fun i => ?_⟩
  have hheld : heldNode x.ofds d = none := hd
  rw [setOfd_ofds, heldNode_update, ho, holders_update_same hheld]
  exact hs.counted i

/-- A description is made, or there was none to be had and nothing changes. -/
theorem sysFdAlloc_cases (hs : Sound x) (hl : labels x i = some l) (offset : Nat)
    (flags : OpenFlags) (room : Bool) :
    sysFdAlloc i offset flags room x = .ok (.error .emfile, x) ∧ ¬ Available x i room ∨
    ∃ d x', sysFdAlloc i offset flags room x = .ok (.ok d, x') ∧ Available x i room ∧
      x.ofds d = .free ∧ x'.ofds = update x.ofds d (.tmpfs ⟨i, offset, flags.acc, flags.append⟩) ∧
      Sound x' ∧ labels x' = labels x ∧ content x' = content x := by
  obtain ⟨hused, hlinked⟩ := linked_of_label hl
  unfold sysFdAlloc wfsOpen
  split
  · rename_i hnone
    split at hnone
    · rename_i hfull
      have hfull : (x.nodes i).openRefs = 65535 := by simpa [hused] using hfull
      exact .inl ⟨rfl, fun h => h.1 hfull⟩
    · cases hnone
  rename_i hsome
  split at hsome
  · cases hsome
  rename_i hroom
  cases hsome
  have hroom : (x.nodes i).openRefs ≠ 65535 := fun h => hroom (.inr h)
  rcases fdOpen_cases (.tmpfs ⟨i, offset, flags.acc, flags.append⟩) room
    (setNode i (fun n => { n with openRefs := n.openRefs + 1 }) x) with
    ⟨hnone, hno⟩ | ⟨d, hsome, hr, hfree⟩
  · left
    rw [hnone]
    refine ⟨?_, fun h => ?_⟩
    · simp only [wfsClose, setNode_self, hused, hlinked]
      simp only [setNode, update_self, update_idem, Nat.add_sub_cancel, update_eq_self,
        Bool.true_eq_false, and_false]
      rfl
    · obtain ⟨-, hr, d, hd⟩ := h
      exact hno hr d hd
  · right
    rw [hsome]
    refine ⟨d, _, rfl, ⟨hroom, hr, d, hfree⟩, hfree, rfl, ?_, ?_, ?_⟩
    · have hsame := SameBuffers.update
        (n := { x.nodes i with openRefs := (x.nodes i).openRefs + 1 }) hs.toStored rfl rfl
        rfl fun h => by simp [hused] at h
      refine ⟨(hs.toStored.relabel hsame _).1, fun j => ?_⟩
      have hd : heldNode x.ofds d = none := by
        rw [heldNode, show x.ofds d = .free from hfree]
        rfl
      rw [setOfd_ofds, setNode_ofds, heldNode_update, OfdSlot.node,
        holders_update_some hd, ← hs.counted j, setOfd_nodes]
      by_cases hji : j = i
      · rw [hji, setNode_self, if_pos rfl]
      · rw [setNode_of_ne _ _ hji, if_neg (Ne.symm hji), Nat.add_zero]
    · rw [labels_update (n := { x.nodes i with openRefs := (x.nodes i).openRefs + 1 }) rfl]
      exact update_eq_self _ _
    · have hsame := SameBuffers.update
        (n := { x.nodes i with openRefs := (x.nodes i).openRefs + 1 }) hs.toStored rfl rfl
        rfl fun h => by simp [hused] at h
      exact (hs.toStored.relabel hsame _).2

/-- The open of a node that is written: the file may be emptied before the description is made. -/
theorem openNode_cases (hs : Sound x) (hl : labels x i = some l) (trunc : Bool)
    (offset : Wfs K → Nat) (flags : OpenFlags) (room : Bool) :
    ∃ x1, x1 = (if trunc then setNode i (fun n => { n with size := 0 }) x else x) ∧
      Becomes x x1 (if trunc then update (content x) i [] else content x) ∧
      (sysFdAlloc i (offset x1) flags room x1 = .ok (.error .emfile, x1) ∧ ¬ Available x i room ∨
      ∃ d x', sysFdAlloc i (offset x1) flags room x1 = .ok (.ok d, x') ∧ Available x i room ∧
        x.ofds d = .free ∧
        x'.ofds = update x.ofds d (.tmpfs ⟨i, offset x1, flags.acc, flags.append⟩) ∧
        Sound x' ∧ labels x' = labels x ∧ content x' = content x1) := by
  have hb : Becomes x (if trunc then setNode i (fun n => { n with size := 0 }) x else x)
      (if trunc then update (content x) i [] else content x) := by
    cases trunc with
    | false => exact Becomes.refl hs.toStored
    | true =>
      exact hs.toStored.poke (linked_of_label hl).1 x.arena.mem 0 (Nat.zero_le _) fun _ _ => rfl
  refine ⟨_, rfl, hb, ?_⟩
  generalize (if trunc then setNode i (fun n => { n with size := 0 }) x else x) = x1 at hb ⊢
  have havail : Available x1 i room ↔ Available x i room := by
    unfold Available
    rw [hb.openRefs, hb.ofds]
  rcases sysFdAlloc_cases (hb.sound hs) (hb.labels ▸ hl) (offset x1) flags room with
    ⟨heq, hno⟩ | ⟨d, x', heq, hyes, hfree, hofds, hs', hlabels, hcontent⟩
  · exact .inl ⟨heq, havail.not.mp hno⟩
  · rw [hb.ofds] at hfree hofds
    exact .inr ⟨d, x', heq, havail.mp hyes, hfree, hofds, hs', hlabels.trans hb.labels, hcontent⟩

/-- The node is closed by a description that is given up. -/
def Wnode.released (n : Wnode) : Wnode :=
  if n.openRefs - 1 = 0 ∧ n.linked = false then {} else { n with openRefs := n.openRefs - 1 }

theorem Wnode.released_label {n : Wnode} : n.released.label = n.label := by
  unfold Wnode.released
  split
  · next h => simp [Wnode.label, h.2]
  · rfl

theorem Wnode.released_openRefs {n : Wnode} : n.released.openRefs = n.openRefs - 1 := by
  unfold Wnode.released
  split
  · next h => exact h.1.symm
  · rfl

theorem ofdClose_spec (hs : Sound x) (d : K.Ofd) :
    ∃ x', ofdClose d x = .ok x' ∧ Sound x' ∧ labels x' = labels x := by
  unfold ofdClose
  split
  · exact ⟨x, rfl, hs, rfl⟩
  · rename_i hd
    exact ⟨_, rfl, hs.setOther (by rw [hd]; rfl) rfl, rfl⟩
  rename_i s hd
  have hused := hs.used_of_held hd
  have hheld : heldNode x.ofds d = some s.node := by
    rw [heldNode, hd]
    rfl
  have hpos : (x.nodes s.node).openRefs ≠ 0 := by
    rw [hs.counted]
    exact Nat.pos_iff_ne_zero.mp (holders_pos hheld)
  have hsame := SameBuffers.update
    (n := { x.nodes s.node with openRefs := (x.nodes s.node).openRefs - 1 }) hs.toStored rfl
    rfl rfl fun h => by simp [hused] at h
  have hstored := (hs.toStored.relabel hsame x.ofds).1
  have hclose : ∃ x', wfsClose s.node x = .ok x' ∧ Stored x' ∧ x'.ofds = x.ofds ∧
      x'.nodes = update x.nodes s.node (x.nodes s.node).released := by
    unfold wfsClose
    rw [if_neg (by simp [hused, hpos])]
    simp only [setNode_self]
    unfold Wnode.released
    split
    · obtain ⟨x', heq, hstored', hofds, hnodes, -⟩ := wfsReclaim_spec hstored s.node
      refine ⟨x', heq, hstored', hofds, ?_⟩
      rw [hnodes]
      exact update_idem ..
    · exact ⟨_, rfl, hstored, rfl, rfl⟩
  obtain ⟨x', heq, hstored', hofds, hnodes⟩ := hclose
  rw [heq]
  refine ⟨_, rfl, ⟨(hstored'.relabel ⟨fun _ => rfl, fun _ => rfl, fun _ => rfl,
    hstored'.unused⟩ _).1, fun i => ?_⟩, ?_⟩
  · have hcount := holders_update_none hheld i
    rw [setOfd_ofds, heldNode_update, hofds, setOfd_nodes, hnodes]
    show _ = holders (update (heldNode x.ofds) d none) i
    have hi := hs.counted i
    by_cases hji : i = s.node
    · rw [hji, update_self, Wnode.released_openRefs]
      rw [hji, if_pos rfl] at hcount
      rw [hji] at hi
      omega
    · rw [update_of_ne hji]
      rw [if_neg (Ne.symm hji)] at hcount
      omega
  · have hlabels : labels (setOfd d .free x') = update (labels x) _ _ := labels_update hnodes
    rw [hlabels, Wnode.released_label]
    exact update_eq_self _ _

end Descriptions

/-! ## Names -/

section Names

variable {x x' : Wfs K} {i j : K.Node}

/-- A node of that name is in the table where there was none, and the rootfs has none. -/
def Makes (K : WfsConfig) (path : Path) (type : FileType)
    (L L' : K.Node → Option (Path × FileType)) : Prop :=
  ∃ i, L i = none ∧ (∀ j t, L j ≠ some (path, t)) ∧ fsLookup K path = none ∧
    L' = update L i (some (path, type))

theorem fsLookup_some {fi : Nat} (h : fsLookup K path = some fi) :
    ∃ e, K.rootfs[fi]? = some e ∧ e.path = path := by
  obtain ⟨hlt, hpath, -⟩ := List.findIdx?_eq_some_iff_getElem.mp h
  exact ⟨K.rootfs[fi], List.getElem?_eq_getElem hlt, by simpa using hpath⟩

theorem overlayStat_isSome_eq_false (h : (overlayStat path x).isSome = false) :
    wfsFind path x = none ∧ fsLookup K path = none ∧ path ≠ ['/'] := by
  unfold overlayStat at h
  split at h
  · cases h
  rename_i hfind
  split at h
  · rename_i hfi
    obtain ⟨e, he, -⟩ := fsLookup_some hfi
    rw [he] at h
    cases h
  · rename_i hroot
    refine ⟨hfind, hroot, fun hpath => ?_⟩
    rw [if_pos hpath] at h
    cases h

variable {type : FileType}

theorem Creates.makes (h : Creates i path type x x') (hfind : wfsFind path x = none)
    (hroot : fsLookup K path = none) : Makes K path type (Lxp.labels x) (Lxp.labels x') :=
  ⟨i, h.was, wfsFind_eq_none.mp hfind, hroot, h.labels⟩

def WfsOp.makes : WfsOp K → Option (AbsPath × FileType)
  | .file (.opens path flags _) => if flags.creat then some (path, .reg) else none
  | .mkdir path _ => some (path, .dir)
  | .symlink _ path => some (path, .lnk)
  | .link _ dst => some (dst, .reg)
  | _ => none

/-- The labels after node `i`, a node of type `type`, went from `old` to `new`. -/
def moveLabels (i : K.Node) (type : FileType) (old new : Path)
    (L : K.Node → Option (Path × FileType)) : K.Node → Option (Path × FileType) :=
  fun j =>
    if j = i then some (new, type)
    else (L j).map fun l =>
      if type = .dir ∧ pathUnder l.1 old then (movedPath old new l.1, l.2) else l

/-- Node `i` is moved: it is at the old path, and nothing keeps it from the new one. -/
def Renames (x : Wfs K) (src dst : AbsPath) (i : K.Node) : Prop :=
  wfsFind src.chars x = some i ∧ src.chars ≠ dst.chars ∧ renameRefused i dst.chars x = none ∧
    (wfsFind dst.chars x = none → fsLookup K dst.chars = none)

/-- What an operation does to the names in the node table. -/
inductive NameStep (x : Wfs K) (op : WfsOp K) :
    (K.Node → Option (Path × FileType)) → Prop where
  | same : NameStep x op (labels x)
  | made {path : AbsPath} {type : FileType} {L' : K.Node → Option (Path × FileType)}
      (hop : op.makes = some (path, type)) (hmakes : Makes K path.chars type (labels x) L') :
      NameStep x op L'
  | removed {path : AbsPath} {dir : Bool} {i : K.Node} (hop : op = .remove path dir)
      (hfind : wfsFind path.chars x = some i)
      (hempty : (x.nodes i).type = .dir →
        ∀ j l, labels x j = some l → pathChildName path.chars l.1 = none) :
      NameStep x op (update (labels x) i none)
  | renamed {src dst : AbsPath} {i : K.Node}
      {L : K.Node → Option (Path × FileType)} (hop : op = .rename src dst)
      (hmoves : Renames x src dst i)
      (hdst : wfsFind dst.chars x = none ∧ L = labels x ∨
        ∃ t, wfsFind dst.chars x = some t ∧ L = update (labels x) t none) :
      NameStep x op (moveLabels i (x.nodes i).type src.chars dst.chars L)

/-- The call returns, whatever it answers, and `op` may change the names as it did. -/
def Names {α : Type} (x : Wfs K) (op : WfsOp K) (run : Except Fault (α × Wfs K)) : Prop :=
  ∃ r x', run = .ok (r, x') ∧ Sound x' ∧ NameStep x op (labels x')

theorem Names.same {α : Type} {r : α} {op : WfsOp K} (hs : Sound x) : Names x op (.ok (r, x)) :=
  ⟨_, x, rfl, hs, .same⟩

theorem wfsFill_spec (hs : Sound x) (hl : labels x i = some l) (s : ByteSource) :
    ∃ r x', wfsFill i s x = .ok (r, x') ∧ Sound x' ∧
      (labels x' = labels x ∨ labels x' = update (labels x) i none) := by
  obtain ⟨hused, -⟩ := linked_of_label hl
  unfold wfsFill
  obtain ⟨b, x1, hres, hb, hcap⟩ := wfsReserve_spec hs.toStored hused s.length
  rw [hres, ok_bind]
  cases b with
  | false =>
    obtain ⟨x', heq, hs', -, hnodes, -⟩ := wfsFree_spec (hb.sound hs) ((hb.used i).trans hused)
    simp only
    rw [heq]
    refine ⟨_, x', rfl, hs', .inr ?_⟩
    rw [labels_update hnodes, Wnode.unlinked_label, hb.labels]
  | true =>
    have hpoke := hb.stored.poke ((hb.used i).trans hused)
      (s.storeAt (x1.nodes i).data x1.arena.mem) s.length (hcap rfl) (by
        have hroom := hcap rfl
        intro a ha
        cases s with
        | pool addr len =>
          exact Mem.copy_bytes_of_out _ (by simp only [ByteSource.length] at hroom; omega)
        | image bs =>
          exact Mem.write_bytes_of_out _ (by simp only [ByteSource.length] at hroom; omega))
    exact ⟨_, _, rfl, hpoke.sound (hb.sound hs), .inl (hpoke.labels.trans hb.labels)⟩

theorem created_then_filled (hc : Creates i path type x x') {op : WfsOp K}
    (hmade : NameStep x op (labels x')) (s : ByteSource) :
    Names x op (wfsFill i s x') := by
  obtain ⟨r, x'', heq, hs'', h | h⟩ := wfsFill_spec hc.sound (by rw [hc.labels, update_self]) s
  · exact ⟨r, x'', heq, hs'', h ▸ hmade⟩
  · refine ⟨r, x'', heq, hs'', ?_⟩
    rw [h, hc.labels, update_idem, ← hc.was, update_eq_self]
    exact .same

section

variable (hs : Sound x)
include hs

theorem overlayMkdir_cases (path : AbsPath) (perm : Nat) :
    Sound (overlayMkdir path.chars perm x).2 ∧
      NameStep x (.mkdir path perm) (labels (overlayMkdir path.chars perm x).2) := by
  unfold overlayMkdir
  split
  · exact ⟨hs, .same⟩
  rename_i hstat
  obtain ⟨hfind, hroot, -⟩ := overlayStat_isSome_eq_false (by simpa using hstat)
  rcases wfsCreate_cases hs path.chars .dir (perm % 0o1000) with
    hno | ⟨i, x', hsome, hc, -, -, -⟩
  · rw [hno]
    exact ⟨hs, .same⟩
  · rw [hsome]
    exact ⟨hc.sound, .made rfl (hc.makes hfind hroot)⟩

theorem overlaySymlink_cases (target : Bytes) (path : AbsPath) :
    Names x (.symlink target path) (overlaySymlink target path.chars x) := by
  unfold overlaySymlink
  split
  · exact .same hs
  rename_i hstat
  obtain ⟨hfind, hroot, -⟩ := overlayStat_isSome_eq_false (by simpa using hstat)
  rcases wfsCreate_cases hs path.chars .lnk 0o777 with hno | ⟨i, x1, hsome, hc, -, -, -⟩
  · rw [hno]
    exact .same hs
  rw [hsome]
  exact created_then_filled hc (.made rfl (hc.makes hfind hroot)) (.image target)

theorem overlayLink_cases (src dst : AbsPath) :
    Names x (.link src dst) (overlayLink src.chars dst.chars x) := by
  unfold overlayLink
  split
  · exact .same hs
  rename_i hstat
  obtain ⟨hfind, hroot, -⟩ := overlayStat_isSome_eq_false (by simpa using hstat)
  split
  · exact .same hs
  rename_i s _
  split
  · exact .same hs
  rcases wfsCreate_cases hs dst.chars .reg (s.perm % 0o1000) with
    hno | ⟨i, x1, hsome, hc, -, -, -⟩
  · rw [hno]
    exact .same hs
  have hmade : NameStep x (.link src dst) (labels x1) := .made rfl (hc.makes hfind hroot)
  rw [hsome]
  simp only
  split
  · exact created_then_filled hc hmade s.bytes
  · exact ⟨_, x1, rfl, hc.sound, hmade⟩

theorem overlayRemove_cases (path : AbsPath) (dir : Bool) :
    Names x (.remove path dir) (overlayRemove path.chars dir x) := by
  unfold overlayRemove
  split
  · exact .same hs
  rename_i hfind
  simp only
  split
  · exact .same hs
  split
  · exact .same hs
  split
  · exact .same hs
  rename_i hchild
  obtain ⟨x', heq, hs', -, hnodes, -⟩ := wfsFree_spec hs (linked_of_label (wfsFind_eq_some hfind)).1
  rw [heq]
  refine ⟨_, x', rfl, hs', ?_⟩
  rw [labels_update hnodes, Wnode.unlinked_label]
  refine .removed rfl hfind fun hdir j l hl => ?_
  by_contra hne
  apply hchild
  refine ⟨hdir, any_eq_true.mpr ⟨j, mem_finRange j, ?_⟩⟩
  cases entry_of_label hl
  rw [(linked_of_label hl).1]
  exact Option.isSome_iff_ne_none.mpr hne

theorem overlayChmod_cases (path : AbsPath) (perm : Nat) :
    Sound (overlayChmod path.chars perm x).2 ∧
      NameStep x (.chmod path perm) (labels (overlayChmod path.chars perm x).2) := by
  unfold overlayChmod
  split
  · rename_i i hfind
    obtain ⟨hused, -⟩ := linked_of_label (wfsFind_eq_some hfind)
    have hs' := (hs.setEntry (n := { x.nodes i with perm := perm % 0o1000 }) rfl rfl rfl
      rfl fun h => by simp [hused] at h).1
    refine ⟨hs', ?_⟩
    have hlabels : labels (setNode i (fun n => { n with perm := perm % 0o1000 }) x) = labels x := by
      rw [labels_update (setNode_nodes ..)]
      exact update_eq_self _ _
    rw [hlabels]
    exact .same
  · exact ⟨hs, .same⟩

theorem moved_spec {old : Path} (hl : labels x i = some (old, type)) (new : Path) :
    Sound (setNode i (fun n => { n with path := new }) (moveBelow i new x)) ∧
      labels (setNode i (fun n => { n with path := new }) (moveBelow i new x)) =
        moveLabels i type old new (labels x) ∧
      content (setNode i (fun n => { n with path := new }) (moveBelow i new x)) = content x := by
  obtain ⟨hused, hlinked⟩ := linked_of_label hl
  cases entry_of_label hl
  -- Every node is the old one up to its path, and a path changes only on a node in use.
  have hnode :
      ∀ j, ∃ path, (setNode i (fun n => { n with path := new }) (moveBelow i new x)).nodes j =
      { x.nodes j with path := path } ∧ ((x.nodes j).used = false → path = (x.nodes j).path) := by
    intro j
    by_cases hji : j = i
    · subst hji
      refine ⟨new, ?_, fun h => by simp [hused] at h⟩
      simp [moveBelow]
    rw [setNode_of_ne _ _ hji, moveBelow]
    simp only
    split
    · rename_i h
      refine ⟨_, rfl, fun hun => ?_⟩
      have := h.2.2
      simp [Wnode.below, hun] at this
    · exact ⟨(x.nodes j).path, rfl, fun _ => rfl⟩
  rw [← and_assoc, and_right_comm]
  refine ⟨hs.relabel ⟨?_, ?_, ?_, ?_⟩ ?_, ?_⟩
  · intro j
    obtain ⟨path, h, -⟩ := hnode j
    have hfield := congrArg Wnode.data h
    exact hfield
  · intro j
    obtain ⟨path, h, -⟩ := hnode j
    have hfield := congrArg Wnode.size h
    exact hfield
  · intro j
    obtain ⟨path, h, -⟩ := hnode j
    have hfield := congrArg Wnode.cap h
    exact hfield
  · intro j hun
    obtain ⟨path, h, hpath⟩ := hnode j
    have hun' : (x.nodes j).used = false := by
      rw [← hun]
      exact (congrArg Wnode.used h).symm
    refine h.trans ?_
    rw [hpath hun']
    exact hs.unused j hun'
  · intro j
    obtain ⟨path, h, -⟩ := hnode j
    have hfield := congrArg Wnode.openRefs h
    exact hfield
  funext j
  unfold moveLabels
  by_cases hji : j = i
  · subst hji
    rw [Lxp.labels]
    simp [moveBelow, Wnode.label, hused, hlinked]
  rw [if_neg hji, Lxp.labels, setNode_of_ne _ _ hji]
  by_cases hin : (x.nodes j).used && (x.nodes j).linked
  · have hlabel : labels x j = some ((x.nodes j).path, (x.nodes j).type) := if_pos hin
    have hbelow : (x.nodes j).below (x.nodes i).path =
        pathUnder (x.nodes j).path (x.nodes i).path := by
      rw [Wnode.below, hin, Bool.true_and]
    rw [hlabel, Option.map_some, moveBelow]
    simp only [hbelow, hji, ne_eq, not_false_eq_true, true_and]
    split
    · exact if_pos hin
    · exact if_pos hin
  · have hlabel : labels x j = none := if_neg hin
    have hbelow : (x.nodes j).below (x.nodes i).path = false := by
      rw [Wnode.below, Bool.eq_false_of_not_eq_true hin, Bool.false_and]
    rw [hlabel, moveBelow]
    simp only [hbelow, Bool.false_eq_true, and_false]
    exact hlabel

/-- The rename is refused, or the node at the new path is unlinked first. -/
theorem wfsRename_cases {old : Path} (hl : labels x i = some (old, type)) (new : Path) :
    (∃ r, wfsRename i new x = .ok (r, x) ∧ (r = .ok () → old = new)) ∨
    ∃ x1, wfsRename i new x =
        .ok (.ok (), setNode i (fun n => { n with path := new }) (moveBelow i new x1)) ∧
      old ≠ new ∧ renameRefused i new x = none ∧ Sound x1 ∧ labels x1 i = some (old, type) ∧
      (wfsFind new x = none ∧ x1 = x ∨
        ∃ t, wfsFind new x = some t ∧ i ≠ t ∧ x1.ofds = x.ofds ∧
          x1.nodes = update x.nodes t (x.nodes t).unlinked ∧
          content x1 =
            if (x.nodes t).openRefs = 0 then update (content x) t [] else content x) := by
  cases entry_of_label hl
  unfold wfsRename
  split
  · exact .inl ⟨_, rfl, fun _ => ‹_›⟩
  rename_i hne
  split
  · exact .inl ⟨_, rfl, nofun⟩
  rename_i hok
  cases htarget : wfsFind new x with
  | none => exact .inr ⟨x, rfl, hne, hok, hs, hl, .inl ⟨rfl, rfl⟩⟩
  | some t =>
    have hlt := wfsFind_eq_some htarget
    have hti : i ≠ t := by
      rintro rfl
      rw [hl] at hlt
      exact hne (congrArg Prod.fst (Option.some.inj hlt))
    obtain ⟨x1, heq, hs1, hofds, hnodes, hcontent⟩ := wfsFree_spec hs (linked_of_label hlt).1
    simp only
    rw [heq]
    refine .inr ⟨x1, rfl, hne, hok, hs1, ?_, .inr ⟨t, rfl, hti, hofds, hnodes, hcontent⟩⟩
    rw [labels_update hnodes, update_of_ne hti, hl]

theorem overlayRename_cases (src dst : AbsPath) :
    Names x (.rename src dst) (overlayRename src.chars dst.chars x) := by
  unfold overlayRename
  split
  · exact .same hs
  rename_i hfind
  split
  · exact .same hs
  rename_i hroot
  rcases wfsRename_cases hs (wfsFind_eq_some hfind) dst.chars with
    ⟨r, heq, -⟩ | ⟨x1, heq, hne, hok, hs1, hl1, htarget⟩
  · exact ⟨r, x, heq, hs, .same⟩
  obtain ⟨hs', hlabels, -⟩ := moved_spec hs1 hl1 dst.chars
  refine ⟨_, _, heq, hs', ?_⟩
  rw [hlabels]
  refine .renamed rfl ⟨hfind, hne, hok, fun hnone => by simpa [hnone] using hroot⟩ ?_
  rcases htarget with ⟨hnone, rfl⟩ | ⟨t, htarget, -, -, hnodes, -⟩
  · exact .inl ⟨hnone, rfl⟩
  · refine .inr ⟨t, htarget, ?_⟩
    rw [labels_update hnodes, Wnode.unlinked_label]

end

end Names

end Lxp
