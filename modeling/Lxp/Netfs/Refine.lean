import Lxp.Netfs.Lifecycle

/-!
# A pass of the client is a sequence of steps

`pump` refines `Acts` followed by at most one `Launch`.  The replies are classified first, one lemma
per reply handler, which also says that the handler never reads past the received body.
-/

namespace Lxp.Netfs

open Client Function LittleEndian List Option

variable {C : Config}
variable {view : Option (View C.nslot)} {y w : Client C} {r : NetReq C.nslot} {P : Client C → Prop}

/-- The steps that a reply can move a request to. -/
def nextStep : Op → Nat → Bool
  | .openFile, 1 | .openFile, 2 => true
  | .stat, 1 | .stat, 2 => true
  | .execfetch, 1 | .execfetch, 2 | .execfetch, 3 | .execfetch, 4 => true
  | _, _ => false

theorem op_of_nextStep {op : Op} {step : Nat} (h : nextStep op step = true) :
    op = .openFile ∨ op = .stat ∨ op = .execfetch := by
  cases op <;> simp [nextStep] at h ⊢

/-- What a reply to the request in flight does: it ends the request, or moves it to its next step
after changes that do not concern the connection. -/
inductive Replied (v : Option (SlotRef C.nslot)) (F : Faults) (x : Client C) (ri : Fin nreq) :
    Client C → Prop where
  | ended {y : Client C} (h : Acts v F x y) (hidle : y.inflight = none) (hconn : y.conn = x.conn)
      (hwire : y.wire = x.wire) : Replied v F x ri y
  | advanced {y : Client C} {step : Nat} (h : Acts v F x y) (hin : y.inflight = some ri)
      (hconn : y.conn = x.conn) (hwire : y.wire = x.wire) (hrx : y.rx = x.rx)
      (hclunks : y.clunks = x.clunks) (howner : (y.reqs ri).owner = (x.reqs ri).owner)
      (hop : (y.reqs ri).op = (x.reqs ri).op) (hlast : (y.reqs ri).clunkStep = false)
      (hnext : nextStep (x.reqs ri).op step = true) :
      Replied v F x ri (y.setStep ri step)

theorem nextStep_cases {op : Op} {step : Nat} (h : nextStep op step = true) :
    (step = 1 ∧ (op = .openFile ∨ op = .stat ∨ op = .execfetch)) ∨
      (step = 2 ∧ (op = .openFile ∨ op = .execfetch)) ∨ (step = 2 ∧ op = .stat) ∨
      (step = 3 ∧ op = .execfetch) ∨ (step = 4 ∧ op = .execfetch) := by
  unfold nextStep at h
  split at h <;> simp_all

variable {x : Client C} {v : Option (SlotRef C.nslot)}

theorem reqBuild_next {ri : Fin nreq} {step : Nat} (h : nextStep (x.reqs ri).op step = true) :
    ∃ m, (x.setStep ri step).reqBuild ri = (none, (x.setStep ri step).post m) ∧
      if ({ x.reqs ri with step := step } : NetReq C.nslot).clunkStep = true then
        m = .clunk (x.reqs ri).fid else m.binds = false := by
  have hreq : (x.setStep ri step).reqs ri = { x.reqs ri with step := step } := by
    simp [setStep, updReq]
  rcases nextStep_cases h with ⟨rfl, hop⟩ | ⟨rfl, hop⟩ | ⟨rfl, hop⟩ | ⟨rfl, hop⟩ | ⟨rfl, hop⟩
  · refine ⟨.lgetattr (x.reqs ri).fid, ?_, ?_⟩ <;> rcases hop with hop | hop | hop <;>
      simp [reqBuild, hreq, hop, NetReq.clunkStep, TMsg.binds]
  · refine ⟨.lopen (x.reqs ri).fid, ?_, ?_⟩ <;> rcases hop with hop | hop <;>
      simp [reqBuild, hreq, hop, NetReq.clunkStep, TMsg.binds]
  · refine ⟨.clunk (x.reqs ri).fid, ?_, ?_⟩ <;> simp [reqBuild, hreq, hop, NetReq.clunkStep]
  · refine ⟨.read (x.reqs ri).fid (x.reqs ri).off
      (if (x.reqs ri).off + (x.msize - 24) > C.stageCap then
        stageRoom (C := C) (x.reqs ri).off else x.msize - 24), ?_, ?_⟩
    · simp [reqBuild, hop, setStep, updReq]
    · simp [hop, NetReq.clunkStep, TMsg.binds]
  · refine ⟨.clunk (x.reqs ri).fid, ?_, ?_⟩ <;> simp [reqBuild, hreq, hop, NetReq.clunkStep]

/-! ## Replies that fail a request -/

section Replies

variable {F : Faults} {ri : Fin nreq}

/-- A request in flight whose owner is still there. -/
structure Awaited (F : Faults) (x : Client C) (ri : Fin nreq) : Prop where
  state : (x.reqs ri).state = .inflight
  inflight : x.inflight = some ri
  owner : (x.reqs ri).owner ≠ none
  room : Roomy F x

theorem Replied.failed (h : Awaited F x ri) (hop : (x.reqs ri).op ≠ .clunk) {e : Int}
    (he : e < 0 ∨ F.code) : Replied v F x ri (x.fail ri e) := by
  refine .ended (.single (.fail h.inflight hop h.owner he h.room)) ?_ ?_ ?_ <;>
    rw [fail_eq hop, release_eq]

theorem Replied.clunked (h : Awaited F x ri)
    (hop : (x.reqs ri).op = .stat ∨ (x.reqs ri).op = .execfetch)
    (hstep : (x.reqs ri).clunkStep = true) : Replied v F x ri (x.clunked ri) := by
  obtain ⟨fids, hfids⟩ := fidFree_eq x (x.reqs ri).fid
  refine .ended (.single (.clunked h.inflight hop hstep h.owner)) ?_ ?_ ?_ <;>
    rw [clunked_eq, hfids]

theorem Replied.step (hin : x.inflight = some ri) {step : Nat}
    (hlast : (x.reqs ri).clunkStep = false) (hnext : nextStep (x.reqs ri).op step = true) :
    Replied v F x ri (x.setStep ri step) :=
  .advanced .refl hin rfl rfl rfl rfl rfl rfl hlast hnext

variable {n : Nat}

theorem SameReq.clunkStep {r r' : NetReq n} (h : SameReq r r') (hused : r.state ≠ .free) :
    r'.clunkStep = r.clunkStep := by
  unfold NetReq.clunkStep
  rw [h.op hused, h.step hused]

theorem Replied.quietStep (hin : x.inflight = some ri) (h : Same x y) (hconn : y.conn = x.conn)
    (hwire : y.wire = x.wire) (hrx : y.rx = x.rx) (hstate : (x.reqs ri).state ≠ .free) {step : Nat}
    (hlast : (x.reqs ri).clunkStep = false) (hnext : nextStep (x.reqs ri).op step = true) :
    Replied v F x ri (y.setStep ri step) :=
  .advanced (.single (.quiet h hconn)) (h.inflight.trans hin) hconn hwire hrx h.clunks
    ((h.req ri).owner hstate) ((h.req ri).op hstate)
      (((h.req ri).clunkStep hstate).trans hlast) hnext

theorem replyWalkAdvance_replied (h : Awaited F x ri)
    (hop : (x.reqs ri).op = .openFile ∨ (x.reqs ri).op = .stat ∨ (x.reqs ri).op = .execfetch)
    (hstep : (x.reqs ri).step = 0) (body : Bytes) :
    ∃ y, x.replyWalkAdvance ri body = some y ∧ Replied v F x ri y := by
  have hfail : ∀ e : Errno, Replied v F x ri (x.fail ri e.neg) := fun e =>
    .failed h (by rcases hop with h | h | h <;> simp [h]) (.inl e.neg_lt)
  have hnext : nextStep (x.reqs ri).op 1 = true := by
    rcases hop with h | h | h <;> simp [h, nextStep]
  have hlast : (x.reqs ri).clunkStep = false := by
    rcases hop with h | h | h <;> simp [NetReq.clunkStep, h, hstep]
  unfold replyWalkAdvance
  split
  · exact ⟨_, rfl, hfail .eio⟩
  obtain ⟨walked, hwalked⟩ := exists_read? (b := body) (o := 0) (n := 2) (by omega)
  simp only [hwalked, bind_eq_bind, bind_some]
  split
  · exact ⟨_, rfl, hfail .eio⟩
  split
  · exact ⟨_, rfl, .step h.inflight hlast hnext⟩
  · refine ⟨_, rfl, ?_⟩
    split
    · exact hfail .enoent
    · exact hfail .eio

theorem replyGetattr_replied (h : Awaited F x ri) (hop : (x.reqs ri).op ≠ .clunk)
    (body : Bytes) {k : Attr → Client C} (hk : ∀ a, Replied v F x ri (k a)) :
    ∃ y, x.replyGetattr ri body k = some y ∧ Replied v F x ri y := by
  obtain ⟨attr, hattr⟩ := isSome_iff_exists.mp (parseGetattr_isSome body)
  unfold replyGetattr
  simp only [hattr]
  cases attr with
  | none => exact ⟨_, rfl, .failed h hop (.inl Errno.eio.neg_lt)⟩
  | some a => exact ⟨_, rfl, hk a⟩

theorem replyOpen_replied (h : Awaited F x ri) (hop : (x.reqs ri).op = .openFile)
    (body : Bytes) : ∃ y, x.replyOpen ri body = some y ∧ Replied v F x ri y := by
  have hclunk : (x.reqs ri).op ≠ .clunk := by simp [hop]
  dsimp only [replyOpen]
  split
  · rename_i hstep
    exact replyWalkAdvance_replied h (.inl hop) hstep body
  · refine replyGetattr_replied h hclunk body fun a => ?_
    exact .quietStep h.inflight (.updOpen x _ rfl rfl rfl) rfl rfl rfl (by simp [h.state])
      (by simp [NetReq.clunkStep, hop]) (by simp [hop, nextStep])
  · refine ⟨_, rfl, ?_⟩
    exact .ended (.single (.opened h.inflight hop h.owner rfl rfl rfl)) rfl rfl rfl
  · exact ⟨_, rfl, .failed h hclunk (.inl Errno.eio.neg_lt)⟩

/-! ## Replies that deliver data -/

/-- Every copy lies in the buffer that the caller passed. -/
def CopiesFit (r : NetReq C.nslot) (copies : List (Nat × Bytes)) : Prop :=
  ∀ c ∈ copies, r.buffer.1 ≤ c.1 ∧ c.1 + c.2.length ≤ r.buffer.1 + r.buffer.2

theorem recordCopies_acts (hin : x.inflight = some ri) (hop : (x.reqs ri).op ≠ .clunk)
    (hview : (x.reqs ri).owner = view.map View.ref) (copies : List (Nat × Bytes))
    (hfit : CopiesFit (x.reqs ri) copies) :
    Acts (view.map View.ref) F x (x.recordCopies ri view copies) := by
  cases view with
  | none => exact .refl
  | some view =>
    induction copies with
    | nil => exact .refl
    | cons c copies ih =>
      have hc := hfit c (by simp)
      have hrest := ih fun c' hc' => hfit c' (by simp [hc'])
      refine hrest.tail ?_
      have hin' : (x.recordCopies ri (some view) copies).inflight = some ri := hin
      exact .copy hin' hop hview rfl hc.1 hc.2

variable (x ri) in
theorem recordCopies_eq (view : Option (View C.nslot)) (copies : List (Nat × Bytes)) :
    ∃ log, x.recordCopies ri view copies = { x with log := log } := by
  cases view with
  | none => exact ⟨x.log, rfl⟩
  | some view => exact ⟨_, rfl⟩

/-- The last reply of a read: copies, perhaps a moved cursor, and the result. -/
theorem Replied.delivered (h : Awaited F x ri)
    (hop : (x.reqs ri).op = .read ∨ (x.reqs ri).op = .getdents)
    (hview : (x.reqs ri).owner = view.map View.ref) {copies : List (Nat × Bytes)}
    (hfit : CopiesFit (x.reqs ri) copies) {f : NetOpen → NetOpen}
    (hused : ∀ o, (f o).used = o.used) (hstale : ∀ o, (f o).stale = o.stale)
    (hfid : ∀ o, (f o).fid = o.fid)
    (hy : y = x.recordCopies ri view copies ∨
      y = (x.recordCopies ri view copies).updOpen (x.reqs ri).oi f)
    (e : Int) : Replied (view.map View.ref) F x ri (y.complete ri e) := by
  have hclunk : (x.reqs ri).op ≠ .clunk := by rcases hop with h | h <;> simp [h]
  obtain ⟨log, hlog⟩ := recordCopies_eq x ri view copies
  have hcopies := recordCopies_acts (F := F) h.inflight hclunk hview copies hfit
  have hsame : Same (x.recordCopies ri view copies) y := by
    rcases hy with rfl | rfl
    · exact .refl _
    · exact .updOpen _ _ (hused _) (hstale _) (hfid _)
  have hrest : y.reqs = x.reqs ∧ y.inflight = x.inflight ∧ y.conn = x.conn ∧ y.wire = x.wire := by
    rcases hy with rfl | rfl <;> rw [hlog] <;> exact ⟨rfl, rfl, rfl, rfl⟩
  obtain ⟨hreqs, hinflight, hconn, hwire⟩ := hrest
  have hquiet : Acts (view.map View.ref) F x y := hcopies.tail (.quiet hsame (by rw [hconn, hlog]))
  have hfinish : Act (view.map View.ref) F y (y.complete ri e) :=
    .finish (hinflight.trans h.inflight) (by rw [hreqs]; exact hop) (by rw [hreqs]; exact h.owner)
  exact .ended (hquiet.tail hfinish) rfl hconn hwire

theorem replyRead_replied (h : Awaited F x ri) (hop : (x.reqs ri).op = .read)
    (hview : (x.reqs ri).owner = view.map View.ref) (body : Bytes) :
    ∃ y, x.replyRead view ri body = some y ∧ Replied (view.map View.ref) F x ri y := by
  obtain ⟨count, o, hcount, hle, -⟩ := replyDataCount_spec body
  obtain ⟨bytes, hbytes, hlen⟩ :=
    exists_slice? (b := body) (o := o) (n := min count (x.reqs ri).ulen) (by omega)
  have hfit : CopiesFit (x.reqs ri) [((x.reqs ri).ubuf, bytes)] := by
    intro c hc
    rw [mem_singleton.mp hc]
    simp only [NetReq.buffer, hop]
    omega
  unfold replyRead
  simp only [hcount, hbytes, bind_eq_bind, bind_some]
  split
  · exact ⟨_, rfl, .ended (.single (.finish h.inflight (.inl hop) h.owner)) rfl rfl rfl⟩
  refine ⟨_, rfl, ?_⟩
  split
  · refine .delivered h (.inl hop) hview hfit
      (f := fun o => { o with rdOff := (o.rdOff + min count (x.reqs ri).ulen) % 2 ^ 64 })
      (fun _ => rfl) (fun _ => rfl) (fun _ => rfl) ?_ _
    split
    · exact .inr rfl
    · exact .inl rfl
  have hnil : x.recordCopies ri view [] = x := by cases view <;> rfl
  have hfit : CopiesFit (x.reqs ri) [] := by simp [CopiesFit]
  refine .delivered h (.inl hop) hview hfit
    (f := fun o => { o with rdOff := (o.rdOff + min count (x.reqs ri).ulen) % 2 ^ 64 })
    (fun _ => rfl) (fun _ => rfl) (fun _ => rfl) ?_ _
  rw [hnil]
  split
  · exact .inr rfl
  · exact .inl rfl

/-- A sink that was only ever filled below its capacity. -/
structure SinkFits (buf len : Nat) (sink : Sink) : Prop where
  ubuf : sink.ubuf = buf
  cap : sink.cap = len
  filled : sink.filled ≤ len
  records : ∀ c ∈ sink.records, buf ≤ c.1 ∧ c.1 + c.2.length ≤ buf + len

theorem direntPut_fits {buf len : Nat} {sink : Sink} (h : SinkFits buf len sink)
    (view : Option (View n)) (ino off : Nat) (type : UInt8) (name : Bytes) :
    SinkFits buf len (direntPut pathMax (guestWritable view) name.length
      (fun addr _ => (addr, direntRecord sink.is64 ino off type name)) sink).2 := by
  rcases direntPut_cases pathMax (guestWritable view) name.length
    (fun addr _ => (addr, direntRecord sink.is64 ino off type name)) sink with
    heq | ⟨hroom, ⟨-, heq⟩ | heq⟩
  · rw [heq]
    exact h
  · rw [heq]
    exact { h with }
  · rw [heq]
    refine ⟨h.ubuf, h.cap, h.cap ▸ hroom, fun c hc => ?_⟩
    rcases mem_append.mp hc with hc | hc
    · exact h.records c hc
    · rw [mem_singleton.mp hc, length_direntRecord, h.ubuf]
      have := h.cap
      omega

theorem readdirLoop_fits {buf len : Nat} (view : Option (View n)) (body : Bytes)
    (stop : Nat) (turns o : Nat) {sink : Sink} (h : SinkFits buf len sink) (lastOff : Nat) :
    ∃ sink' lastOff', readdirLoop view body stop turns o sink lastOff = some (sink', lastOff') ∧
      SinkFits buf len sink' := by
  induction turns generalizing o sink lastOff with
  | zero => exact ⟨sink, lastOff, rfl, h⟩
  | succ turns ih =>
    unfold readdirLoop
    split
    · rename_i hhead
      obtain ⟨-, hhead⟩ := hhead
      have hqt : body[o]? = some body[o] := List.getElem?_eq_getElem (by omega)
      have hdt : body[o + 21]? = some body[o + 21] := List.getElem?_eq_getElem (by omega)
      obtain ⟨qpath, hqpath⟩ := exists_read? (b := body) (o := o + 5) (n := 8) (by omega)
      obtain ⟨doff, hdoff⟩ := exists_read? (b := body) (o := o + 13) (n := 8) (by omega)
      obtain ⟨nlen, hnlen⟩ := exists_read? (n := 2) (by omega)
      simp only [hqt, hdt, hqpath, hdoff, hnlen, bind_eq_bind, bind_some]
      split
      · exact ⟨sink, lastOff, rfl, h⟩
      obtain ⟨name, hslice, hlength⟩ := exists_slice? (b := body) (o := o + 24) (n := nlen)
        (by omega)
      simp only [hslice, bind_some]
      have hput := direntPut_fits h view qpath doff
        (if body[o + 21] ≠ 0 then body[o + 21] else dtypeFromQid body[o]) name
      rw [hlength] at hput
      generalize direntPut _ _ _ _ sink = put at hput ⊢
      obtain ⟨fitted, sink'⟩ := put
      cases fitted with
      | true => exact ih (o + 24 + nlen) hput doff
      | false => exact ⟨sink', lastOff, rfl, hput⟩
    · exact ⟨sink, lastOff, rfl, h⟩

theorem replyGetdents_replied (h : Awaited F x ri) (hop : (x.reqs ri).op = .getdents)
    (hview : (x.reqs ri).owner = view.map View.ref) (body : Bytes) :
    ∃ y, x.replyGetdents view ri body = some y ∧ Replied (view.map View.ref) F x ri y := by
  obtain ⟨count, o, hcount, -, -⟩ := replyDataCount_spec body
  have hempty : SinkFits (x.reqs ri).ubuf (x.reqs ri).ulen
      { ubuf := (x.reqs ri).ubuf, cap := (x.reqs ri).ulen, is64 := (x.reqs ri).is64 } :=
    ⟨rfl, rfl, Nat.zero_le _, by simp⟩
  obtain ⟨sink, lastOff, hloop, hsink⟩ :=
    readdirLoop_fits view body (o + count) body.length o hempty
    (if (x.opens (x.reqs ri).oi).used = true then (x.opens (x.reqs ri).oi).dirOff else 0)
  have hfit : CopiesFit (x.reqs ri) sink.records.reverse := by
    intro c hc
    simpa [NetReq.buffer, hop] using hsink.records c (mem_reverse.mp hc)
  unfold replyGetdents
  simp only [hcount, hloop, bind_eq_bind, bind_some]
  split
  · exact ⟨_, rfl, .delivered h (.inr hop) hview hfit (fun _ => rfl)
      (fun _ => rfl) (fun _ => rfl) (.inl rfl) _⟩
  refine ⟨_, rfl, ?_⟩
  refine .delivered h (.inr hop) hview hfit
    (f := fun o => { o with dirOff := lastOff }) (fun _ => rfl) (fun _ => rfl) (fun _ => rfl) ?_ _
  split
  · exact .inr rfl
  · exact .inl rfl

/-! ## Replies of the operations with a working fid -/

theorem statDeliver_acts (hin : x.inflight = some ri) (hop : (x.reqs ri).op = .stat)
    (hview : (x.reqs ri).owner = view.map View.ref) (a : Attr) :
    Acts (view.map View.ref) F x (x.statDeliver view ri a).2 ∧
      ∃ log cwds, (x.statDeliver view ri a).2 = { x with log := log, cwds := cwds } := by
  unfold statDeliver
  dsimp only
  have hrecord : CopiesFit (x.reqs ri) [((x.reqs ri).ubuf, statRecord a (x.reqs ri).statkind)] := by
    intro c hc
    rw [mem_singleton.mp hc]
    simp [NetReq.buffer, hop, length_statRecord]
  have hcopied : Acts (view.map View.ref) F x
      (x.recordCopies ri view [((x.reqs ri).ubuf, statRecord a (x.reqs ri).statkind)]) ∧
      ∃ log cwds, x.recordCopies ri view
        [((x.reqs ri).ubuf, statRecord a (x.reqs ri).statkind)] =
          { x with log := log, cwds := cwds } := by
    refine ⟨recordCopies_acts hin (by simp [hop]) hview _ hrecord, ?_⟩
    obtain ⟨log, hlog⟩ := recordCopies_eq x ri view
      [((x.reqs ri).ubuf, statRecord a (x.reqs ri).statkind)]
    exact ⟨log, x.cwds, hlog⟩
  have hnone : Acts (view.map View.ref) F x x ∧
      ∃ log cwds, x = { x with log := log, cwds := cwds } :=
    ⟨.refl, x.log, x.cwds, rfl⟩
  split
  · exact hnone
  · split
    · exact hcopied
    · exact hnone
  · split
    · exact hcopied
    · exact hnone
  split
  · generalize C.mountpoint ++ (if (x.reqs ri).path = [47] then [] else (x.reqs ri).path) = cwd
    split
    · exact hnone
    · split
      · exact hnone
      · exact ⟨.single (.quiet (.of_eq rfl) rfl), _, _, rfl⟩
  · exact hnone

theorem sameReq_result (hs : r.state = .inflight) (hop : r.op = .stat ∨ r.op = .execfetch)
    (result : Int) : SameReq r { r with result := result } :=
  ⟨rfl, fun _ => rfl, fun _ => rfl, fun _ => rfl, fun _ => rfl, fun _ => rfl, fun _ => rfl,
    fun _ => rfl, fun _ => rfl,
    fun _ => by rcases hop with h | h <;> simp [NetReq.buffer], fun h => by simp [hs] at h⟩

theorem sameReq_ulen (hop : r.op = .execfetch) (ulen : Nat) : SameReq r { r with ulen := ulen } :=
  ⟨rfl, fun _ => rfl, fun _ => rfl, fun _ => rfl, fun _ => rfl, fun _ => rfl, fun _ => rfl,
    fun _ => rfl, fun _ => rfl, fun _ => by simp [NetReq.buffer, hop], fun _ => rfl⟩

theorem replyStat_replied (h : Awaited F x ri) (hop : (x.reqs ri).op = .stat)
    (hview : (x.reqs ri).owner = view.map View.ref) (body : Bytes) :
    ∃ y, x.replyStat view ri body = some y ∧ Replied (view.map View.ref) F x ri y := by
  have hclunk : (x.reqs ri).op ≠ .clunk := by simp [hop]
  unfold replyStat
  split
  · rename_i hstep
    exact replyWalkAdvance_replied h (.inr (.inl hop)) hstep body
  · rename_i hstep
    refine replyGetattr_replied h hclunk body fun a => ?_
    obtain ⟨hacts, log, cwds, hdeliver⟩ := statDeliver_acts h.inflight hop hview a
    revert hacts hdeliver
    generalize x.statDeliver view ri a = delivered
    obtain ⟨result, y⟩ := delivered
    rintro hacts rfl
    have hsame : SameReq (x.reqs ri) { x.reqs ri with result := result } :=
      sameReq_result h.state (.inl hop) result
    exact .advanced (hacts.tail (.quiet (.updReq _ ri hsame) rfl)) h.inflight rfl rfl rfl rfl
      (by simp [updReq]) (by simp [updReq])
      (by simp [updReq, NetReq.clunkStep, hstep]) (by simp [hop, nextStep])
  · rename_i hstep
    exact ⟨_, rfl, .clunked h (.inl hop) (by simp [NetReq.clunkStep, hop, hstep])⟩
  · exact ⟨_, rfl, .failed h hclunk (.inl Errno.eio.neg_lt)⟩

theorem stageRoom_eq {off count : Nat} (hoff : off ≤ C.stageCap) (hover : off + count > C.stageCap)
    (hcount : count < 2 ^ 32) : stageRoom (C := C) off = C.stageCap - off := by
  unfold stageRoom
  omega

theorem stage_fits {off count : Nat} (hoff : off ≤ C.stageCap) (hcount : count < 2 ^ 32) :
    let taken := if off + count > C.stageCap then stageRoom (C := C) off else count
    taken ≤ count ∧ off + taken ≤ C.stageCap := by
  split
  · rename_i hover
    rw [stageRoom_eq hoff hover hcount]
    omega
  · omega

theorem replyExecfetch_replied (hx : Sound x) (h : Awaited F x ri)
    (hop : (x.reqs ri).op = .execfetch)
    (body : Bytes) : ∃ y, x.replyExecfetch ri body = some y ∧ Replied v F x ri y := by
  have hclunk : (x.reqs ri).op ≠ .clunk := by simp [hop]
  obtain ⟨hs, hin, -, -⟩ := id h
  dsimp only [replyExecfetch]
  split
  · rename_i hstep
    exact replyWalkAdvance_replied h (.inr (.inr hop)) hstep body
  · rename_i hstep
    have hlast : (x.reqs ri).clunkStep = false := by simp [NetReq.clunkStep, hstep]
    refine replyGetattr_replied h hclunk body fun a => ?_
    split
    · exact .quietStep hin (.updReq x ri (sameReq_ulen hop _)) rfl rfl rfl (by simp [hs]) hlast
        (by simp [hop, nextStep])
    · exact .quietStep hin (.updReq x ri (sameReq_result hs (.inr hop) _)) rfl rfl rfl
        (by simp [hs]) hlast (by simp [hop, nextStep])
  · rename_i hstep
    refine ⟨_, rfl, ?_⟩
    have hseek : Acts v F x (x.updReq ri fun r => { r with off := 0 }) :=
      .single (.seek hin (Nat.zero_le _))
    exact .advanced (hseek.tail (.quiet (.of_eq rfl) rfl)) hin rfl rfl
      rfl rfl (by simp [updReq]) (by simp [updReq])
      (by simp [updReq, NetReq.clunkStep, hop, hstep]) (by simp [hop, nextStep])
  · rename_i hstep
    obtain ⟨count, o, hcount, hle, hlt⟩ := replyDataCount_spec body
    obtain ⟨htaken, hcap⟩ := stage_fits ((hx.req ri).staged (by simp [hs]) hop) hlt
    simp only [hcount, bind_eq_bind, bind_some]
    revert htaken hcap
    generalize (if (x.reqs ri).off + count > C.stageCap then
      stageRoom (x.reqs ri).off else count) = taken
    intro htaken hcap
    obtain ⟨bytes, hbytes, hlen⟩ := exists_slice? (b := body) (o := o) (n := taken) (by omega)
    simp only [hbytes]
    refine ⟨_, rfl, ?_⟩
    -- the data goes to the staging buffer, then the offset moves, then the result may be latched
    have hstage : ∃ z, (if taken ≠ 0 then x.record (.stage (x.reqs ri).id (x.reqs ri).off bytes)
        else x) = z ∧ Acts v F x z ∧ ∃ log, z = { x with log := log } := by
      refine ⟨_, rfl, ?_⟩
      split
      · exact ⟨.single (.stage hin (by rw [hlen]; exact hcap)), _, rfl⟩
      · exact ⟨.refl, x.log, rfl⟩
    obtain ⟨z, hz, hacts, log, hlog⟩ := hstage
    rw [hz]
    subst hlog
    generalize (if (x.reqs ri).off + taken ≥ C.stageCap ∧
      ¬(taken = 0 ∨ (x.reqs ri).off + taken ≥ (x.reqs ri).ulen) then Errno.enoexec.neg
      else (x.reqs ri).result) = result
    have hresult : SameReq (x.reqs ri) { x.reqs ri with result := result } :=
      sameReq_result hs (.inr hop) result
    have hlatched := hacts.tail
      (.quiet (.updReq _ ri (f := fun r => { r with result := result }) hresult) rfl)
    have hin' : ({ x with log := log }.updReq ri fun r => { r with result := result }).inflight =
        some ri := hin
    have hseek := hlatched.tail (.seek hin' hcap)
    have hboth : (({ x with log := log }.updReq ri fun r => { r with result := result }).updReq ri
        fun r => { r with off := (x.reqs ri).off + taken }) =
        { x with log := log }.updReq ri fun r =>
          { r with off := (x.reqs ri).off + taken, result := result } := by
      simp [updReq]
    rw [hboth] at hseek
    refine .advanced (hseek.tail (.quiet (.of_eq rfl) rfl)) hin rfl
      rfl rfl rfl (by simp [updReq]) (by simp [updReq])
      (by simp [updReq, NetReq.clunkStep, hstep]) ?_
    split <;> simp [hop, nextStep]
  · rename_i hstep
    exact ⟨_, rfl, .clunked h (.inr hop) (by simp [NetReq.clunkStep, hop, hstep])⟩
  · exact ⟨_, rfl, .failed h hclunk (.inl Errno.eio.neg_lt)⟩

/-! ## Any reply -/

theorem sameReq_free {r' : NetReq C.nslot} (h : r.state = .free) (h' : r'.state = .free) :
    SameReq r r' :=
  ⟨h'.trans h.symm, absurd h, absurd h, absurd h, absurd h, absurd h, absurd h, absurd h, absurd h,
    absurd h, fun hd => by simp [h] at hd⟩

theorem Replied.clunkDone (hin : x.inflight = some ri) (hop : (x.reqs ri).op = .clunk) :
    Replied v F x ri ((x.fidFree (x.reqs ri).fid).reclaim ri) := by
  refine .ended (.single (.clunkDone hin hop)) rfl ?_ ?_ <;>
    obtain ⟨fids, hfids⟩ := fidFree_eq x (x.reqs ri).fid <;>
    rw [hfids] <;> rfl

theorem Replied.clunkFailed (hin : x.inflight = some ri) (hop : (x.reqs ri).op = .clunk) (e : Int) :
    Replied v F x ri (x.fail ri e) := by
  obtain ⟨fids, hfids⟩ := fidFree_eq x (x.reqs ri).fid
  have hdone : Act v F x ((x.fidFree (x.reqs ri).fid).reclaim ri) := .clunkDone hin hop
  have hsame : Same ((x.fidFree (x.reqs ri).fid).reclaim ri) (x.fail ri e) := by
    rw [fail, if_pos hop, hfids]
    refine ⟨rfl, rfl, rfl, rfl, rfl, rfl, fun _ => rfl, rfl, fun _ => rfl, fun _ => rfl,
      fun _ => rfl, fun rj => ?_⟩
    by_cases h : rj = ri
    · subst h
      refine sameReq_free ?_ ?_ <;> simp [reclaim, updReq]
    · simpa [reclaim, updReq, update_of_ne h] using SameReq.refl (x.reqs rj)
  refine .ended ((Relation.ReflTransGen.single hdone).tail (.quiet hsame ?_)) ?_ ?_ ?_ <;>
    rw [fail, if_pos hop, hfids] <;> rfl

theorem Replied.abandoned (hin : x.inflight = some ri) (hop : (x.reqs ri).op ≠ .clunk)
    (howner : (x.reqs ri).owner = none) (hroom : Roomy F x) : Replied v F x ri (x.abandon ri) := by
  refine .ended (.single (.abandon hin hop howner hroom)) ?_ ?_ ?_ <;> rw [abandon_eq, release_eq]

/-- The code of an error reply makes a negative result. -/
def CodeOk (w : WordSize) (type : UInt8) (body : Bytes) : Prop :=
  type = MsgType.rlerror.code → ∀ ecode, read? body 0 4 = some ecode → negLong w ecode < 0

/-- A guest request in flight is handled only while its own task is active. -/
def Visible (view : Option (View C.nslot)) (x : Client C) (ri : Fin nreq) : Prop :=
  (x.reqs ri).op ≠ .clunk → (x.reqs ri).owner ≠ none → (x.reqs ri).owner = view.map View.ref

theorem handleReply_replied (hx : Sound x) (hin : x.inflight = some ri)
    (hvisible : Visible view x ri) (hroom : Roomy F x) (type : UInt8) (body : Bytes)
    (hcode : CodeOk C.word type body ∨ F.code) :
    ∃ y, x.handleReply view ri type body = some y ∧ Replied (view.map View.ref) F x ri y := by
  have hs := hx.state_of_inflight hin
  have hfail : ∀ e : Int, (x.reqs ri).op = .clunk ∨ (x.reqs ri).owner ≠ none → e < 0 ∨ F.code →
      Replied (view.map View.ref) F x ri (x.fail ri e) := by
    intro e howner he
    by_cases hop : (x.reqs ri).op = .clunk
    · exact .clunkFailed hin hop e
    · exact .failed ⟨hs, hin, howner.resolve_left hop, hroom⟩ hop he
  dsimp only [handleReply]
  split
  · rename_i h
    exact ⟨_, rfl, .abandoned hin h.2 h.1 hroom⟩
  have howner : (x.reqs ri).op = .clunk ∨ (x.reqs ri).owner ≠ none := by tauto
  split
  · rename_i hlerror
    split
    · exact ⟨_, rfl, hfail _ howner (.inl Errno.eio.neg_lt)⟩
    · obtain ⟨ecode, hecode⟩ := exists_read? (b := body) (o := 0) (n := 4) (by omega)
      simp only [hecode]
      exact ⟨_, rfl, hfail _ howner (hcode.imp_left fun hok => hok hlerror ecode hecode)⟩
  split
  · exact ⟨_, rfl, hfail _ howner (.inl Errno.eio.neg_lt)⟩
  have hawaited : (x.reqs ri).op ≠ .clunk → Awaited F x ri := fun hop =>
    ⟨hs, hin, howner.resolve_left hop, hroom⟩
  have hview : (x.reqs ri).op ≠ .clunk → (x.reqs ri).owner = view.map View.ref :=
    fun hop => hvisible hop (howner.resolve_left hop)
  split
  · rename_i hop
    exact replyOpen_replied (hawaited (by simp [hop])) hop body
  · rename_i hop
    exact replyRead_replied (hawaited (by simp [hop])) hop (hview (by simp [hop])) body
  · rename_i hop
    exact replyGetdents_replied (hawaited (by simp [hop])) hop (hview (by simp [hop])) body
  · rename_i hop
    exact replyStat_replied (hawaited (by simp [hop])) hop (hview (by simp [hop])) body
  · rename_i hop
    exact replyExecfetch_replied hx (hawaited (by simp [hop])) hop body
  · rename_i hop
    exact ⟨_, rfl, .clunkDone hin hop⟩

end Replies

/-! ## Sending -/

theorem flushWith_failed (sends : List SendAnswer) (tx : Bytes) (h : SendAnswer.failed ∉ sends) :
    (flushWith sends tx).1 ≠ .failed ∧ SendAnswer.failed ∉ (flushWith sends tx).2.2 := by
  induction sends generalizing tx with
  | nil => cases tx <;> simp [flushWith]
  | cons answer sends ih =>
    have hrest : SendAnswer.failed ∉ sends := fun hin => h (by simp [hin])
    cases tx with
    | nil => exact ⟨by simp [flushWith], by simpa [flushWith] using h⟩
    | cons b tx =>
      cases answer with
      | accepted n =>
        by_cases hn : n = 0
        · simpa [flushWith, hn] using hrest
        · simpa [flushWith, hn] using ih ((b :: tx).drop n) hrest
      | full => simpa [flushWith] using hrest
      | failed => simp at h

theorem txFlush_spec (x : Client C) :
    ∃ tx sends, x.txFlush.2 = { x with tx := tx, wire := { x.wire with sends := sends } } ∧
      (SendAnswer.failed ∉ x.wire.sends →
        x.txFlush.1 ≠ .failed ∧ SendAnswer.failed ∉ x.txFlush.2.wire.sends) :=
  ⟨_, _, rfl, flushWith_failed x.wire.sends x.tx⟩

/-! ## Framing -/

/-- The next `n` messages of `rx` all meet `P`, and `bad` holds if the framing breaks before. -/
def Frames (P : UInt8 → Bytes → Prop) (bad : Prop) : Nat → Bytes → Prop
  | 0, _ => True
  | n + 1, rx =>
    match rxMessage rx with
    | some .bad => bad
    | some (.message len) =>
      (∀ type, rx[4]? = some type → P type ((rx.take len).drop 7)) ∧ Frames P bad n (rx.drop len)
    | _ => True

theorem Frames.mono {P Q : UInt8 → Bytes → Prop} {bad bad' : Prop}
    (hP : ∀ type body, P type body → Q type body) (hbad : bad → bad') {n : Nat} {rx : Bytes}
    (h : Frames P bad n rx) : Frames Q bad' n rx := by
  induction n generalizing rx with
  | zero => trivial
  | succ n ih =>
    unfold Frames at h ⊢
    split at h
    · exact hbad h
    · exact ⟨fun type htype => hP _ _ (h.1 type htype), ih h.2⟩
    · trivial

theorem frames_trivial (n : Nat) (rx : Bytes) : Frames (fun _ _ => True) True n rx := by
  induction n generalizing rx with
  | zero => trivial
  | succ n ih =>
    unfold Frames
    split
    · trivial
    · exact ⟨fun _ _ => trivial, ih _⟩
    · trivial

/-! ## The reply loop -/

variable {F : Faults}

/-- The next message of a request that advanced is one step, up to the transport buffers. -/
theorem advance_acts {ri : Fin nreq} {step : Nat} (hin : x.inflight = some ri)
    (hlast : (x.reqs ri).clunkStep = false) (hnext : nextStep (x.reqs ri).op step = true) :
    ∃ y, (x.setStep ri step).reqBuild ri = (none, y) ∧ Acts v F x y ∧
      y.reqs = (x.setStep ri step).reqs ∧ y.inflight = some ri ∧ y.clunks = x.clunks ∧
      y.conn = x.conn ∧ y.wire = x.wire ∧ y.rx = x.rx := by
  obtain ⟨m, hbuild, hm⟩ := reqBuild_next hnext
  exact ⟨_, hbuild, .single (.advance hin (op_of_nextStep hnext) hlast hm), rfl, hin, rfl, rfl, rfl,
    rfl⟩

/-- What the reply loop finds at the start of each turn. -/
structure Draining (view : Option (View C.nslot)) (ri : Fin nreq) (F : Faults) (turns : Nat)
    (x : Client C) : Prop where
  sound : Sound x
  inflight : x.inflight = some ri
  visible : Visible view x ri
  room : Roomy F x
  sends : SendAnswer.failed ∉ x.wire.sends ∨ F.drop
  frames : Frames (fun type body => CodeOk C.word type body ∨ F.code) F.drop turns x.rx

theorem Draining.next {ri : Fin nreq} {turns len step : Nat} {z : Client C}
    (h : Draining view ri F (turns + 1) x) (hmessage : rxMessage x.rx = some (.message len))
    (hz : Sound z) (hin : z.inflight = some ri)
    (hreqs : z.reqs ri = { y.reqs ri with step := step }) (hop : (y.reqs ri).op = (x.reqs ri).op)
    (howner : (y.reqs ri).owner = (x.reqs ri).owner) (hclunks : z.clunks = x.clunks)
    (hrx : z.rx = x.rx.drop len) (hsends : SendAnswer.failed ∉ z.wire.sends ∨ F.drop) :
    Draining view ri F turns z where
  sound := hz
  inflight := hin
  visible := by
    unfold Visible
    rw [hreqs]
    rw [hop, howner]
    exact h.visible
  room := by
    unfold Roomy
    rw [hclunks]
    exact h.room
  sends := hsends
  frames := by
    have hframes := h.frames
    unfold Frames at hframes
    rw [hmessage] at hframes
    rw [hrx]
    exact hframes.2

/-- The reply loop: steps, and the pass goes on with the connection as it was, or drops it. -/
theorem drain_acts {ri : Fin nreq} (turns : Nat) (h : Draining view ri F turns x) :
    ∃ y, Acts (view.map View.ref) F x y ∧ ((drain view ri turns x = (true, y) ∧ y.conn = x.conn ∧
          (SendAnswer.failed ∉ y.wire.sends ∨ F.drop)) ∨
        (drain view ri turns x = (false, y.connDrop) ∧ F.drop)) := by
  induction turns generalizing x with
  | zero => exact ⟨x, .refl, .inl ⟨rfl, rfl, h.sends⟩⟩
  | succ turns ih =>
    obtain ⟨message, hmessage⟩ := isSome_iff_exists.mp (rxMessage_isSome x.rx)
    have hframes := h.frames
    unfold drain
    unfold Frames at hframes
    rw [hmessage] at hframes ⊢
    cases message with
    | incomplete => exact ⟨x, .refl, .inl ⟨rfl, rfl, h.sends⟩⟩
    | bad => exact ⟨x, .refl, .inr ⟨rfl, hframes⟩⟩
    | message len =>
      have hlen := rxMessage_message hmessage
      have htype : x.rx[4]? = some x.rx[4] := List.getElem?_eq_getElem (by omega)
      obtain ⟨y, hy, hreplied⟩ := handleReply_replied h.sound h.inflight h.visible h.room x.rx[4]
        ((x.rx.take len).drop 7) (hframes.1 _ htype)
      simp only [htype, bind_some, hy]
      cases hreplied with
      | ended hacts hidle hconn hwire =>
        have hquiet : Act (view.map View.ref) F y (y.rxConsume len) := .quiet (.of_eq rfl) rfl
        have hidle' : (y.rxConsume len).inflight = none := hidle
        simp only [hidle', ne_eq, not_true_eq_false, and_false]
        refine ⟨_, hacts.tail hquiet, .inl ⟨rfl, hconn, ?_⟩⟩
        change SendAnswer.failed ∉ y.wire.sends ∨ F.drop
        rw [hwire]
        exact h.sends
      | @advanced y step hacts hyin hconn hwire hrx hclunks howner hop hlast hnext =>
        have hconsumed : Acts (view.map View.ref) F x (y.rxConsume len) :=
          hacts.tail (.quiet (.of_eq rfl) rfl)
        have hstate : (((y.setStep ri step).rxConsume len).reqs ri).state = .inflight := by
          have hs := (hacts.sound h.sound).state_of_inflight hyin
          simpa [rxConsume, setStep, updReq] using hs
        have hyin' : ((y.setStep ri step).rxConsume len).inflight = some ri := hyin
        obtain ⟨z, hbuild, hadvance, hreqs, hzin, hzclunks, hzconn, hzwire, hzrx⟩ :=
          advance_acts (x := y.rxConsume len) hyin hlast (by rw [← hop] at hnext; exact hnext)
        have hbuild' : ((y.setStep ri step).rxConsume len).reqBuild ri = (none, z) := hbuild
        simp only [hstate, hyin', hbuild']
        obtain ⟨tx, sends, hflush, hok⟩ := txFlush_spec z
        have hflushed : Acts (view.map View.ref) F x z.txFlush.2 := (hconsumed.trans hadvance).tail
            (.quiet (by rw [hflush]; exact .of_eq rfl) (by rw [hflush]))
        have hzsends : SendAnswer.failed ∉ z.wire.sends ∨ F.drop := by
          rw [hzwire]
          change SendAnswer.failed ∉ y.wire.sends ∨ F.drop
          rw [hwire]
          exact h.sends
        have hreq : z.txFlush.2.reqs ri = { y.reqs ri with step := step } := by
          rw [hflush]
          rw [hreqs]
          simp [setStep, updReq, rxConsume]
        have hready : Draining view ri F turns z.txFlush.2 :=
          h.next hmessage (hflushed.sound h.sound) (by rw [hflush]; exact hzin) hreq hop howner
            (by rw [hflush]; exact hzclunks.trans hclunks)
            (by
              rw [hflush]
              rw [hzrx]
              change y.rx.drop len = _
              rw [hrx])
            (hzsends.imp_left fun h => (hok h).2)
        obtain ⟨w, hwacts, hw⟩ := ih hready
        have hwconn : z.txFlush.2.conn = x.conn := by
          exact hzconn.trans hconn
        rw [hwconn] at hw
        revert hw hwacts hflushed hok
        cases z.txFlush with
        | mk flush z' =>
          intro hok hflushed hwacts hw
          cases flush with
          | flushed | more => exact ⟨w, hflushed.trans hwacts, hw⟩
          | failed =>
            have hdrop : F.drop := hzsends.resolve_left fun h => absurd rfl (hok h).1
            exact ⟨z', hflushed, .inr ⟨rfl, hdrop⟩⟩

/-! ## Starting the next request -/

/-- The end of a pass: the new message is flushed, and a transport error drops the connection. -/
def Flushed (F : Faults) (z w : Client C) : Prop :=
  ∃ y, Same z y ∧ y.conn = z.conn ∧ (w = y ∨ (F.drop ∧ w = y.connDrop))

/-- Steps, at most one launch, and a flush. -/
def Passed (v : Option (SlotRef C.nslot)) (F : Faults) (x w : Client C) : Prop :=
  ∃ y z, Acts v F x y ∧ (z = y ∨ Launch v y z) ∧ Flushed F z w

theorem Flushed.refl (x : Client C) : Flushed F x x := ⟨x, .refl x, rfl, .inl rfl⟩

theorem Passed.of_acts (h : Acts v F x y) :
    Passed v F x y := ⟨y, y, h, .inl rfl, .refl y⟩

theorem Passed.dropped (h : Acts v F x y) (hdrop : F.drop) :
    Passed v F x y.connDrop := ⟨y, y, h, .inl rfl, y, .refl y, rfl, .inr ⟨hdrop, rfl⟩⟩

theorem Passed.prepend (h : Acts v F x y) (h' : Passed v F y w) : Passed v F x w := by
  obtain ⟨y', z, hacts, hlaunch, hrest⟩ := h'
  exact ⟨y', z, h.trans hacts, hlaunch, hrest⟩

theorem flushOrDrop_flushed
    (hsends : SendAnswer.failed ∉ x.wire.sends ∨ F.drop) : Flushed F x x.flushOrDrop := by
  obtain ⟨-, -, -, hok⟩ := txFlush_spec x
  have hsame : Same x x.txFlush.2 ∧ x.txFlush.2.conn = x.conn := by
    exact ⟨.of_eq rfl, rfl⟩
  unfold flushOrDrop
  revert hok hsame
  cases x.txFlush with
  | mk flush y =>
    rintro hok ⟨hsame, hconn⟩
    cases flush with
    | flushed | more => exact ⟨y, hsame, hconn, .inl rfl⟩
    | failed =>
      have hdrop : F.drop := hsends.resolve_left fun h => absurd rfl (hok h).1
      exact ⟨y, hsame, hconn, .inr ⟨hdrop, rfl⟩⟩

theorem reqBuild_queued {ri : Fin nreq} (hx : ReqSound (x.reqs ri))
    (hqueued : (x.reqs ri).state = .queued) : (∃ e, x.reqBuild ri = (some e, x) ∧
      ((x.reqs ri).op = .openFile → pathSplit (x.reqs ri).path = none ∨ x.fidFirst = none)) ∨
    (∃ f names, x.fidFirst = some f ∧
      ((x.reqs ri).op = .openFile ∨ (x.reqs ri).op = .stat ∨ (x.reqs ri).op = .execfetch) ∧
      x.reqBuild ri =
        (none, ((x.fidTake f).updReq ri fun r => { r with fid := f }).post (.walk f names))) ∨
    (∃ m : TMsg, m.binds = false ∧ ((x.reqs ri).op = .read ∨ (x.reqs ri).op = .getdents) ∧
      x.reqBuild ri = (none, x.post m)) := by
  have hstep := (hx.queued hqueued).1
  have hwalk : (x.reqs ri).op = .openFile ∨ (x.reqs ri).op = .stat ∨ (x.reqs ri).op = .execfetch →
      x.reqBuild ri = x.msgWalk ri := by
    rintro (hop | hop | hop) <;> simp [reqBuild, hop, hstep]
  by_cases hop : (x.reqs ri).op = .openFile ∨ (x.reqs ri).op = .stat ∨ (x.reqs ri).op = .execfetch
  · rw [hwalk hop]
    unfold msgWalk
    split
    · rename_i hpath
      exact .inl ⟨_, rfl, fun _ => .inl hpath⟩
    split
    · rename_i hfull
      exact .inl ⟨_, rfl, fun _ => .inr hfull⟩
    · rename_i names _ _ f hfirst
      exact .inr (.inl ⟨f, names, hfirst, hop, rfl⟩)
  · have hnot : (x.reqs ri).op ≠ .openFile := fun h => hop (.inl h)
    have hclunk := (hx.owned (.inl hqueued)).2
    cases hkind : (x.reqs ri).op with
    | openFile => exact absurd hkind hnot
    | stat | execfetch => simp [hkind] at hop
    | clunk => exact absurd hkind hclunk
    | read =>
      cases hopen : x.openSlot (x.reqs ri).oi with
      | none => exact .inl ⟨.ebadf, by simp [reqBuild, hkind, hopen], by simp⟩
      | some op =>
        exact .inr
          (.inr ⟨.read op.fid op.rdOff (min ((x.reqs ri).ulen % 2 ^ 32) (x.msize - 24)), rfl,
          by simp, by simp only [reqBuild, hkind, hopen]⟩)
    | getdents =>
      cases hopen : x.openSlot (x.reqs ri).oi with
      | none => exact .inl ⟨.ebadf, by simp [reqBuild, hkind, hopen], by simp⟩
      | some op =>
        exact .inr (.inr ⟨.readdir op.fid op.dirOff (x.msize - 24), rfl, by simp,
          by simp only [reqBuild, hkind, hopen]⟩)

theorem launchRequest_passed {ri : Fin nreq}
    (hx : Sound x) (hup : x.conn = .up) (hidle : x.inflight = none)
    (hqueued : (x.reqs ri).state = .queued) (hv : v ≠ none) (howner : (x.reqs ri).owner = v)
    (hsends : SendAnswer.failed ∉ x.wire.sends ∨ F.drop) : Passed v F x (x.launchRequest ri) := by
  rcases reqBuild_queued (hx.req ri) hqueued with
    ⟨e, hbuild, hcause⟩ | ⟨f, names, hfirst, hop, hbuild⟩ | ⟨m, hm, hop, hbuild⟩
  · have hlaunch : Launch v x (x.complete ri e.neg) := .refuse hidle hqueued e.neg_lt hcause
    refine ⟨x, _, .refl, .inr hlaunch, ?_⟩
    rw [launchRequest, hbuild]
    exact .refl _
  · have hlaunch : Launch v x
        ((((x.fidTake f).updReq ri fun r => { r with fid := f }).post
          (.walk f names)).inFlight ri) :=
      .walk hup hidle hqueued hop hv howner hfirst
    refine ⟨x, _, .refl, .inr hlaunch, ?_⟩
    rw [launchRequest, hbuild]
    exact flushOrDrop_flushed hsends
  · have hpost : Act v F x (x.post m) := .quiet (.post x hm) rfl
    have hlaunch : Launch v (x.post m) ((x.post m).inFlight ri) :=
      .io hup hidle hqueued hop hv howner
    refine ⟨x.post m, _, .single hpost, .inr hlaunch, ?_⟩
    rw [launchRequest, hbuild]
    exact flushOrDrop_flushed hsends

theorem best_queued {ri : Fin nreq} (h : x.best = some ri) : (x.reqs ri).state = .queued := by
  -- the fold only ever keeps queued requests
  have hfold : ∀ (l : List (Fin nreq)) (acc : Option (Fin nreq) × Nat),
      (∀ rj, acc.1 = some rj → (x.reqs rj).state = .queued) →
      ∀ rj, (l.foldl (fun (acc : Option (Fin nreq) × Nat) ri =>
        if (x.reqs ri).state = .queued ∧ (x.reqs ri).seq < acc.2 then (some ri, (x.reqs ri).seq)
        else acc) acc).1 = some rj → (x.reqs rj).state = .queued := by
    intro l
    induction l with
    | nil => exact fun acc hacc => hacc
    | cons rk l ih =>
      intro acc hacc
      rw [foldl_cons]
      apply ih
      intro rj hrj
      split at hrj
      · rename_i hqueued
        cases hrj
        exact hqueued.1
      · exact hacc rj hrj
  exact hfold _ (none, 0xffffffff) (by simp) ri h

theorem ownedBy_eq (h : ownedBy r view = true) :
    view.map View.ref ≠ none ∧ r.owner = view.map View.ref := by
  unfold ownedBy at h
  split at h
  · rename_i howner
    rw [howner]
    simpa using h
  · cases h

theorem launch_passed (hx : Sound x) (hup : x.conn = .up)
    (hsends : SendAnswer.failed ∉ x.wire.sends ∨ F.drop) :
    Passed (view.map View.ref) F x (x.launch view) := by
  unfold launch
  split
  · rename_i hidle
    split
    · rename_i hbest
      split
      · rename_i howned
        obtain ⟨hv, howner⟩ := ownedBy_eq howned
        exact launchRequest_passed hx hup hidle.1 (best_queued hbest) hv howner hsends
      · exact .of_acts .refl
    · split
      · rename_i ri hclunks hfree
        have hstate : (x.reqs ri).state = .free := by
          simpa using List.find?_some hfree
        exact ⟨x, _, .refl, .inr (.clunk hup hidle.1 hstate hclunks), flushOrDrop_flushed hsends⟩
      · exact .of_acts .refl
  · exact .of_acts .refl

/-! ## The phases of a connection -/

/-- What a phase may do: steps, with the sends that are left no worse than before, and a poll at
most as the first phase of a pass. -/
structure Phased (v : Option (SlotRef C.nslot)) (F : Faults) (x y : Client C) : Prop where
  acts : Acts v F x y
  sends : SendAnswer.failed ∉ x.wire.sends → SendAnswer.failed ∉ y.wire.sends
  inflight : y.inflight = x.inflight

theorem Phased.refl (x : Client C) : Phased v F x x := ⟨.refl, id, rfl⟩

theorem Phased.trans {z : Client C} (h : Phased v F x y) (h' : Phased v F y z) : Phased v F x z :=
  ⟨h.acts.trans h'.acts, fun hs => h'.sends (h.sends hs), h'.inflight.trans h.inflight⟩

section Phases

variable {now : Nat}

theorem Phased.attemptFailed (h : Phased v F x y) (hup : y.conn ≠ .up) :
    Phased v F x (y.connAttemptFailed now) :=
  { h with
      acts := h.acts.tail (.phase (.of_eq rfl) hup (by simp [connAttemptFailed, Conn.inSession])) }

theorem connEstablished_act (hdown : x.conn.inSession = false)
    (hclean : x.clunks = [] ∨ F.leftover) :
    Act v F x (x.connEstablished now) := by
  refine .session hdown hclean ?_ rfl
  have hpost := Same.post { x with fids := fun _ => false, sent := [] } (m := .version msizeMax) rfl
  exact hpost.trans (.of_eq rfl)

variable (now) in
theorem connSend_phased (hup : x.conn ≠ .up) (hsession : x.conn.inSession = true) :
    Phased v F x (x.connSend now).2 ∧ (x.connSend now).2.conn ≠ .connecting := by
  obtain ⟨tx, sends, hflush, hok⟩ := txFlush_spec x
  have hsame : Same x x.txFlush.2 := by
    exact .of_eq rfl
  have hconn : x.txFlush.2.conn = x.conn := by rw [hflush]
  have hne : x.conn ≠ .connecting := by
    intro h
    simp [h, Conn.inSession] at hsession
  have hphased : Phased v F x x.txFlush.2 :=
    ⟨.single (.quiet hsame hconn), fun h => (hok h).2, hsame.inflight⟩
  unfold connSend
  revert hsame hconn hphased
  cases x.txFlush with
  | mk flush y =>
    intro hsame hconn hphased
    cases flush with
    | failed =>
      exact ⟨hphased.attemptFailed (by rw [hconn]; exact hup), by simp [connAttemptFailed]⟩
    | more => exact ⟨hphased, by rw [hconn]; exact hne⟩
    | flushed =>
      refine ⟨{ hphased with
          acts := .single (.phase (hsame.trans (.of_eq rfl)) hup fun _ => hsession) }, ?_⟩
      dsimp only
      split <;> simp

theorem rxFill_same (h : x.rxFill = some y) :
    Same x y ∧ y.conn = x.conn ∧ y.wire.sends = x.wire.sends := by
  unfold rxFill at h
  split at h
  · cases h
  · cases h
    exact ⟨.of_eq rfl, rfl, rfl⟩

variable (now) in
theorem connReply_phased (hup : x.conn ≠ .up) (hsession : x.conn.inSession = true) {len : Nat}
    (hlow : 7 ≤ len) (hlen : len ≤ x.rx.length) :
    ∃ y, x.connReply now len = some y ∧ Phased v F x y ∧ y.conn ≠ .connecting := by
  have htype : x.rx[4]? = some x.rx[4] := List.getElem?_eq_getElem (by omega)
  have hfailed : ∀ msize, Phased v F x ({ x with msize := msize }.connAttemptFailed now) ∧
      ({ x with msize := msize }.connAttemptFailed now).conn ≠ .connecting := fun msize =>
    ⟨⟨.single (.phase (.of_eq rfl) hup (by simp [connAttemptFailed, Conn.inSession])), id, rfl⟩,
      by simp [connAttemptFailed]⟩
  unfold connReply
  simp only [htype, bind_eq_bind, bind_some]
  split
  · split
    · exact ⟨_, rfl, hfailed x.msize⟩
    have hread : 7 + 4 ≤ (x.rx.take len).length := by
      rw [length_take]
      omega
    obtain ⟨sm, hsm⟩ := exists_read? hread
    simp only [hsm, bind_some]
    split
    · exact ⟨_, rfl, hfailed _⟩
    · refine ⟨_, rfl, ⟨.single (.phase ?_ hup fun _ => hsession), id, rfl⟩,
        by simp [connBeginAttach]⟩
      exact (Same.post x rfl).trans (.of_eq rfl)
  · split
    · exact ⟨_, rfl, hfailed x.msize⟩
    · exact ⟨_, rfl, ⟨.single (.phase (.of_eq rfl) hup fun _ => hsession), id, rfl⟩, by simp⟩

variable (now) in
theorem connRecv_phased (hup : x.conn ≠ .up) (hsession : x.conn.inSession = true) :
    Phased v F x (x.connRecv now).2 ∧ (x.connRecv now).2.conn ≠ .connecting := by
  have hne : x.conn ≠ .connecting := by
    intro h
    simp [h, Conn.inSession] at hsession
  unfold connRecv
  cases hfill : x.rxFill with
  | none =>
    exact ⟨(Phased.refl x).attemptFailed hup, by simp [connAttemptFailed]⟩
  | some y =>
    obtain ⟨hsame, hconn, hwire⟩ := rxFill_same hfill
    have hphased : Phased v F x y :=
      ⟨.single (.quiet hsame hconn), by rw [hwire]; exact id, hsame.inflight⟩
    obtain ⟨message, hmessage⟩ := isSome_iff_exists.mp (rxMessage_isSome y.rx)
    simp only [hmessage]
    cases message with
    | incomplete => exact ⟨hphased, by rw [hconn]; exact hne⟩
    | bad =>
      exact ⟨hphased.attemptFailed (by rw [hconn]; exact hup), by simp [connAttemptFailed]⟩
    | message len =>
      obtain ⟨hlow, -, hlen⟩ := rxMessage_message hmessage
      obtain ⟨z, hz, hreply, hzconn⟩ := connReply_phased now
        (by rw [hconn]; exact hup) (by rw [hconn]; exact hsession) hlow hlen
      simp only [hz]
      exact ⟨hphased.trans hreply, hzconn⟩

variable (now) in
theorem connPhase_phased
    (hclean : x.conn = .connecting → x.wire.poll = .ready false → x.clunks = [] ∨ F.leftover) :
    Phased v F x (x.connPhase now).2 ∧
      ((x.connPhase now).1 = true → (x.connPhase now).2.conn ≠ .connecting) := by
  unfold connPhase
  cases hconn : x.conn with
  | connecting =>
    have hup : x.conn ≠ .up := by simp [hconn]
    have hself : Phased v F x x := .refl x
    simp only [connPoll]
    cases hpoll : x.wire.poll with
    | failed => exact ⟨hself.attemptFailed hup, by simp⟩
    | notReady => exact ⟨hself, by simp⟩
    | ready error =>
      cases error with
      | true => exact ⟨hself.attemptFailed hup, by simp⟩
      | false =>
        have hdown : x.conn.inSession = false := by simp [hconn, Conn.inSession]
        exact ⟨⟨.single (connEstablished_act hdown (hclean hconn hpoll)), id, rfl⟩, fun _ => by
          simp [connEstablished, connBeginVersion]⟩
  | versionSend | attachSend =>
    obtain ⟨h, hne⟩ := connSend_phased (x := x) now (by simp [hconn])
      (by simp [hconn, Conn.inSession])
    exact ⟨h, fun _ => hne⟩
  | versionRecv | attachRecv =>
    obtain ⟨h, hne⟩ := connRecv_phased (x := x) now (by simp [hconn])
      (by simp [hconn, Conn.inSession])
    exact ⟨h, fun _ => hne⟩
  | up | down => exact ⟨.refl x, by simp⟩

theorem connSteps_phased (n : Nat)
    (hclean : x.conn = .connecting → x.wire.poll = .ready false → x.clunks = [] ∨ F.leftover) :
    Phased v F x (connSteps n now x) := by
  induction n generalizing x with
  | zero => exact .refl x
  | succ n ih =>
    obtain ⟨hphased, hne⟩ := connPhase_phased now hclean
    unfold connSteps
    revert hphased hne
    cases x.connPhase now with
    | mk go y =>
      intro hphased hne
      cases go with
      | false => exact hphased
      | true =>
        exact hphased.trans (ih fun h => absurd h (hne rfl))

end Phases

/-- What one pass needs to know about its inputs for its faults to be among `F`. -/
structure Passing (F : Faults) (x : Client C) : Prop where
  sends : SendAnswer.failed ∉ x.wire.sends ∨ F.drop
  recvs : x.conn = .up → fillWith x.wire.recvs x.rx = none → F.drop
  frames : x.conn = .up → ∀ rx recvs, fillWith x.wire.recvs x.rx = some (rx, recvs) →
    Frames (fun type body => CodeOk C.word type body ∨ F.code) F.drop rx.length rx
  clean : x.conn.inSession = false → x.wire.connect = .ok ∨ x.wire.poll = .ready false →
    x.clunks = [] ∨ F.leftover
  room : Roomy F x

theorem connStart_phased (hdown : x.conn = .down)
    (hclean : x.wire.connect = .ok ∨ x.wire.poll = .ready false → x.clunks = [] ∨ F.leftover)
    (now : Nat) : Phased v F x (x.connStart now) ∧
      ((x.connStart now).conn = .connecting → (x.connStart now).wire.poll = .ready false →
        (x.connStart now).clunks = [] ∨ F.leftover) := by
  have hup : x.conn ≠ .up := by simp [hdown]
  have hsession : x.conn.inSession = false := by simp [hdown, Conn.inSession]
  have hself : Phased v F x { x with reconnectAt := now + reconnectUs } :=
    ⟨.single (.quiet (.of_eq rfl) rfl), id, rfl⟩
  unfold connStart
  dsimp only
  split
  · exact ⟨.refl x, fun h => by simp [hdown] at h⟩
  split
  · exact ⟨hself, fun h => by simp [hdown] at h⟩
  split
  · exact ⟨hself.attemptFailed hup, fun h => by simp [connAttemptFailed] at h⟩
  split
  · refine ⟨⟨.single (.phase (.of_eq rfl) hup
      (by simp [Conn.inSession])), id, rfl⟩, fun _ hpoll => ?_⟩
    exact hclean (.inr hpoll)
  · exact ⟨hself.attemptFailed hup, fun h => by simp [connAttemptFailed] at h⟩
  rename_i hconnect
  have hact : Act v F { x with reconnectAt := now + reconnectUs }
      ({ x with reconnectAt := now + reconnectUs }.connEstablished now) :=
    connEstablished_act hsession (hclean (.inl hconnect))
  exact ⟨⟨hself.acts.tail hact, id, rfl⟩, fun h => by simp [connEstablished, connBeginVersion] at h⟩

theorem connAdvance_phased (hup : x.conn ≠ .up)
    (hclean : x.conn.inSession = false → x.wire.connect = .ok ∨ x.wire.poll = .ready false →
      x.clunks = [] ∨ F.leftover) (now : Nat) : Phased v F x (x.connAdvance now) := by
  -- after `conn_start`, or from where the last pass stopped
  have hstarted : ∃ y, (if x.conn = .down then x.connStart now else x) = y ∧ Phased v F x y ∧
      y.conn ≠ .up ∧ (y.conn = .connecting → y.wire.poll = .ready false → y.clunks = [] ∨
        F.leftover) := by
    refine ⟨_, rfl, ?_⟩
    split
    · rename_i hdown
      have hsession : x.conn.inSession = false := by simp [hdown, Conn.inSession]
      obtain ⟨hphased, hclean⟩ := connStart_phased hdown (hclean hsession) now
      refine ⟨hphased, ?_, hclean⟩
      unfold connStart
      dsimp only
      split
      · exact hup
      split
      · exact hup
      · split
        · simp [connAttemptFailed]
        · split <;> simp [connAttemptFailed, connEstablished, connBeginVersion]
    · exact ⟨.refl x, hup, fun hconn hpoll => hclean (by simp [hconn, Conn.inSession]) (.inr hpoll)⟩
  obtain ⟨y, hy, hphased, hyup, hclean⟩ := hstarted
  unfold connAdvance
  rw [hy]
  dsimp only
  split
  · exact hphased
  · split
    · exact hphased.attemptFailed hyup
    · exact hphased.trans (connSteps_phased 5 hclean)

/-! ## A whole pass -/

theorem pumpUp_passed (hx : Sound x) (hup : x.conn = .up)
    (hsends : SendAnswer.failed ∉ x.wire.sends ∨ F.drop)
    (hpass : x.inflight ≠ none → Passing F x) : Passed (view.map View.ref) F x (x.pumpUp view) := by
  obtain ⟨tx, sends, hflush, hok⟩ := txFlush_spec x
  have hflushed : Act (view.map View.ref) F x x.txFlush.2 := by
    exact .quiet (.of_eq rfl) rfl
  unfold pumpUp
  revert hok hflush hflushed
  cases x.txFlush with
  | mk flush y =>
    rintro hy hok hflushed
    dsimp only at hy
    have hsends' : SendAnswer.failed ∉ y.wire.sends ∨ F.drop := hsends.imp_left fun h => (hok h).2
    have hacts : Acts (view.map View.ref) F x y := .single hflushed
    have hyup : y.conn = .up := by rw [hy]; exact hup
    have hinflight : y.inflight = x.inflight := by rw [hy]
    have hysound := hacts.sound hx
    cases flush with
    | failed =>
      have hdrop : F.drop := hsends.resolve_left fun h => absurd rfl (hok h).1
      exact .dropped hacts hdrop
    | more => exact .of_acts hacts
    | flushed =>
      dsimp only
      split
      · exact .prepend hacts (launch_passed hysound hyup hsends')
      rename_i ri hri
      have hbusy := hpass (by rw [← hinflight, hri]; simp)
      split
      · exact .of_acts hacts
      rename_i hvisible
      have hvis : Visible view y ri := by
        intro hop howner
        have howned : ownedBy (y.reqs ri) view = true := by
          by_contra h
          exact hvisible ⟨hop, howner, by simpa using h⟩
        exact (ownedBy_eq howned).2
      have hfill : fillWith y.wire.recvs y.rx = fillWith x.wire.recvs x.rx := by rw [hy]
      split
      · rename_i hrx
        have hnone : fillWith x.wire.recvs x.rx = none := by
          rw [← hfill]
          unfold rxFill at hrx
          split at hrx
          · assumption
          · cases hrx
        exact .dropped hacts (hbusy.recvs hup hnone)
      rename_i z hz
      obtain ⟨hsame, hzconn, hzsends⟩ := rxFill_same hz
      have hzacts : Acts (view.map View.ref) F x z := hacts.tail (.quiet hsame hzconn)
      have hframed : Frames (fun type body => CodeOk C.word type body ∨ F.code) F.drop
          z.rx.length z.rx := by
        unfold rxFill at hz
        rw [hfill] at hz
        split at hz
        · cases hz
        · rename_i rx recvs hfilled
          cases hz
          exact hbusy.frames hup rx recvs hfilled
      have hzvis : Visible view z ri := by
        have hs : (y.reqs ri).state ≠ .free := by simp [hysound.state_of_inflight hri]
        unfold Visible
        rw [(hsame.req ri).op hs, (hsame.req ri).owner hs]
        exact hvis
      have hzroom : Roomy F z := by
        unfold Roomy
        rw [hsame.clunks, hy]
        exact hbusy.room
      have hzsound := hzacts.sound hx
      obtain ⟨w, hwacts, ⟨hw, hwconn, hwsends⟩ | ⟨hw, hdrop⟩⟩ := drain_acts z.rx.length
        ⟨hzsound, hsame.inflight.trans hri, hzvis, hzroom, by rw [hzsends]; exact hsends', hframed⟩
      · rw [hw]
        exact .prepend (hzacts.trans hwacts)
          (launch_passed (hwacts.sound hzsound) (hwconn.trans (hzconn.trans hyup)) hwsends)
      · rw [hw]
        exact .dropped (hzacts.trans hwacts) hdrop

theorem pump_passed (hx : Sound x) (hpass : Passing F x)
    (view : Option (View C.nslot)) (now : Nat) :
    Passed (view.map View.ref) F x (x.pump view now) := by
  unfold pump
  by_cases hup : x.conn = .up
  · simp only [if_pos hup]
    exact pumpUp_passed hx hup hpass.sends fun _ => hpass
  simp only [if_neg hup]
  have hphased := connAdvance_phased (v := view.map View.ref) hup hpass.clean now
  split
  · rename_i hconn
    have hidle : (x.connAdvance now).inflight = none := hphased.inflight.trans (hx.idle hup)
    exact .prepend hphased.acts (pumpUp_passed (hphased.acts.sound hx) hconn
      (hpass.sends.imp_left hphased.sends) (absurd hidle))
  · exact .of_acts hphased.acts

theorem release_stale (x : Client C) (ri : Fin nreq) (oi : Fin nopen) :
    ((x.release ri).opens oi).stale = (x.opens oi).stale := by
  rw [release_eq]
  dsimp only
  split
  · by_cases h : oi = (x.reqs ri).oi
    · rw [h, update_self]
    · rw [update_of_ne h]
  · rfl

theorem Act.stale (h : Act v F x y) {oi : Fin nopen}
    (hstale : (y.opens oi).stale = true) : (x.opens oi).stale = true := by
  cases h with
  | quiet h _ | phase h _ _ => rw [← h.stale]; exact hstale
  | session _ _ h _ => rw [h.stale] at hstale; exact hstale
  | copy | stage | seek | advance | finish => exact hstale
  | abandon =>
    rw [← release_stale]
    exact hstale
  | fail _ hop =>
    rw [fail_eq hop] at hstale
    rw [← release_stale]
    exact hstale
  | @opened ri o _ _ _ _ hfresh =>
    rw [complete_eq] at hstale
    by_cases h : oi = (x.reqs ri).oi
    · simp [h, updOpen, hfresh] at hstale
    · simpa [updOpen, update_of_ne h] using hstale
  | @clunked ri =>
    obtain ⟨fids, hfids⟩ := fidFree_eq x (x.reqs ri).fid
    rw [clunked_eq, hfids] at hstale
    exact hstale
  | @clunkDone ri =>
    obtain ⟨fids, hfids⟩ := fidFree_eq x (x.reqs ri).fid
    rw [hfids] at hstale
    exact hstale

/-- An invariant of the steps is one of any number of them. -/
theorem Acts.induct (h : Acts v F x y) (hx : Sound x)
    (hP : P x) (hact : ∀ {y z : Client C}, Sound y → P y → Act v F y z → P z) : P y := by
  have hboth : Sound y ∧ P y := by
    induction h with
    | refl => exact ⟨hx, hP⟩
    | tail _ hstep ih => exact ⟨hstep.sound ih.1, hact ih.1 ih.2 hstep⟩
  exact hboth.2

section

variable (h : Passed v F x w)
include h

/-- The rule for a pass: what the steps keep, what a launch makes of it, and a drop at the end. -/
theorem Passed.induct {Q : Client C → Prop} (hx : Sound x) (hP : P x)
    (hact : ∀ {y z : Client C}, Sound y → P y → Act v F y z → P z)
    (hskip : ∀ {y : Client C}, P y → Q y)
    (hlaunch : ∀ {y z : Client C}, Sound y → P y → Launch v y z → Q z)
    (hsame : ∀ {y z : Client C}, Sound y → Q y → Same y z → z.conn = y.conn → Q z)
    (hdrop : ∀ {y : Client C}, F.drop → Sound y → Q y → Q y.connDrop) : Q w := by
  obtain ⟨y, z, hacts, hnew, w', hflush, hconn, hw⟩ := h
  have hy : Sound y := hacts.sound hx
  have hPy : P y := hacts.induct hx hP hact
  have hz : Sound z ∧ Q z := by
    rcases hnew with rfl | hnew
    · exact ⟨hy, hskip hPy⟩
    · exact ⟨hnew.sound hy, hlaunch hy hPy hnew⟩
  have hw' : Q w' := hsame hz.1 hz.2 hflush hconn
  have hsound : Sound w' := (Act.quiet (v := v) (F := F) hflush hconn).sound hz.1
  rcases hw with rfl | ⟨hd, rfl⟩
  · exact hw'
  · exact hdrop hd hsound hw'

theorem Passed.invariant
    (hx : Sound x) (hP : P x) (hact : ∀ {y z : Client C}, Sound y → P y → Act v F y z → P z)
    (hlaunch : ∀ {y z : Client C}, Sound y → P y → Launch v y z → P z)
    (hdrop : ∀ {y : Client C}, F.drop → Sound y → P y → P y.connDrop) : P w :=
  h.induct hx hP hact (fun h => h) hlaunch
    (fun hy hP hsame hconn => hact hy hP (.quiet hsame hconn)) hdrop

theorem Passed.sound (hx : Sound x) : Sound w :=
  h.invariant hx hx (fun _ hy hact => hact.sound hy) (fun _ hy hlaunch => hlaunch.sound hy)
    fun _ _ hy => hy.connDrop

theorem Passed.kept (hx : Sound x) : Kept x w :=
  h.invariant hx (.refl x) (fun hy hP hact => hP.trans (hact.kept hy))
    (fun _ hP hlaunch => hP.trans hlaunch.kept) fun _ _ hP => hP.trans (.connDrop _)

theorem Passed.stale {oi : Fin nopen} (hsession : w.conn.inSession = true)
    (hstale : (w.opens oi).stale = true) : (x.opens oi).stale = true := by
  obtain ⟨y, z, hacts, hlaunch, w', hsame, -, hw⟩ := h
  have hz : (z.opens oi).stale = true := by
    rcases hw with rfl | ⟨-, rfl⟩
    · rw [← hsame.stale]
      exact hstale
    · simp [connDrop, Conn.inSession] at hsession
  have hy : (y.opens oi).stale = true := by
    rcases hlaunch with rfl | hlaunch
    · exact hz
    · cases hlaunch <;> exact hz
  clear hlaunch hz hstale
  induction hacts with
  | refl => exact hy
  | tail _ hact ih => exact ih (hact.stale hy)

end

/-! ## The clunk queue grows by one entry at most -/

theorem clunkEnqueue_length (x : Client C) (f : Nat) :
    (x.clunkEnqueue f).clunks.length ≤ x.clunks.length + 1 := by
  unfold clunkEnqueue
  split
  · omega
  split
  · obtain ⟨fids, hfids⟩ := fidFree_eq x f
    rw [hfids]
    exact Nat.le_succ _
  · simp

/-- A request in flight may still add its fid. -/
def Client.clunkBound (x : Client C) : Nat :=
  x.clunks.length + if x.inflight = none then 0 else 1

theorem Act.clunkBound_le (h : Act v F x y) : y.clunkBound ≤ x.clunkBound := by
  have henqueue := fun ri => clunkEnqueue_length x (x.reqs ri).fid
  unfold clunkBound
  cases h with
  | quiet h _ | phase h _ _ | session _ _ h _ => rw [h.clunks, h.inflight]
  | copy | stage | seek | advance => exact le_refl _
  | @abandon ri hin =>
    rw [abandon_eq, release_eq, hin]
    simpa using henqueue ri
  | @fail ri e hin hop =>
    rw [fail_eq hop, release_eq, hin]
    simpa using henqueue ri
  | opened => simp [complete, updOpen, updReq, record]
  | finish => simp [complete, updReq, record]
  | @clunked ri hin =>
    obtain ⟨fids, hfids⟩ := fidFree_eq x (x.reqs ri).fid
    rw [clunked_eq, hfids]
    simp
  | @clunkDone ri hin =>
    obtain ⟨fids, hfids⟩ := fidFree_eq x (x.reqs ri).fid
    rw [hfids, reclaim_eq]
    simp

theorem Acts.clunkBound_le (h : Acts v F x y) : y.clunkBound ≤ x.clunkBound := by
  induction h with
  | refl => exact le_refl _
  | tail _ hact ih => exact hact.clunkBound_le.trans ih

theorem Passed.clunks_le (h : Passed v F x w) : w.clunks.length ≤ x.clunks.length + 1 := by
  obtain ⟨y, z, hacts, hlaunch, y', hsame, -, hw⟩ := h
  have hbound := hacts.clunkBound_le
  have hx : x.clunkBound ≤ x.clunks.length + 1 := by
    unfold clunkBound
    split <;> omega
  have hy : y.clunks.length ≤ y.clunkBound := Nat.le_add_right _ _
  have hz : z.clunks.length ≤ y.clunks.length := by
    rcases hlaunch with rfl | hlaunch
    · exact le_refl _
    · cases hlaunch with
      | walk | io | refuse => exact le_refl _
      | clunk _ _ _ hclunks => simp [post, hclunks]
  have hw' : w.clunks = z.clunks := by
    rcases hw with rfl | ⟨-, rfl⟩
    · exact hsame.clunks
    · exact hsame.clunks
  rw [hw']
  omega

end Lxp.Netfs
