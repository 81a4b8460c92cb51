import BeltServer.Circuit

/-!
# Every echo comes back as it was sent

While only the owner of the session is at its slot, what a client of the echo test has sent is, in
order, what it got back, what is somewhere on the way, and what it holds back itself. So its checks
never fail, whatever the threads and the kernels do, and its count of missing answers is exact.
-/

namespace BeltServer

set_option autoImplicit false

open Runs LengthPrefix Dummy

variable {ρ σ : Type} {S : Setting ρ σ}

/-! ### Streams with a read position -/

section Positions

variable {α : Type} {l bs : List α} {n : Nat}

theorem take_read (h : bs <+: l.drop n) : l.take (n + bs.length) = l.take n ++ bs := by
  rw [List.take_add, ← List.prefix_iff_eq_take.mp h]

theorem take_grown {l' : List α} (h : l <+: l') (hn : n ≤ l.length) : l'.take n = l.take n := by
  obtain ⟨more, rfl⟩ := h
  exact List.take_append_of_le_length hn

theorem read_le (h : bs <+: l.drop n) (hn : n ≤ l.length) : n + bs.length ≤ l.length := by
  have hle := h.length_le
  rw [List.length_drop] at hle
  omega

end Positions

/-! ### What the client takes -/

theorem checkOrder_counts (failFast : Bool) (e : Echoer) (seq : UInt64) :
    (e.checkOrder failFast seq).pending = e.pending ∧
    (e.checkOrder failFast seq).local_ = e.local_ ∧
    (e.checkOrder failFast seq).echoSent = e.echoSent := by
  unfold Echoer.checkOrder
  split
  · exact ⟨rfl, rfl, rfl⟩
  · split
    · exact ⟨rfl, rfl, rfl⟩
    · exact ⟨rfl, rfl, rfl⟩

/-- Frames were taken off, and nothing else about the client changed that is asked for here. -/
structure Dummy.Echoer.Took (e e' : Echoer) (fs : List (List UInt8)) : Prop where
  seed : e'.seed = e.seed
  sent : e'.sent = e.sent
  received : e'.received = e.received ++ fs
  dead : e'.dead = e.dead
  pending : (fs.length : Int) ≤ e.pending → e'.pending = e.pending - fs.length
  counted : e'.local_.echoRecv = e.local_.echoRecv + fs.length
  echoSent : e'.echoSent = e.echoSent

theorem onFrame_took {e : Echoer} {f : List UInt8} (now : Int64) (hf : WellFormed f)
    (hb : Built S.range e.seed f) : e.Took (S.onFrame now f e) [f] := by
  have hsame : S.onFrame now f e = e.onEcho S.range S.failFast now f := if_pos hf.2
  obtain ⟨hseed, -, hsent, hreceived⟩ := onEcho_frame S.range S.failFast e now (f := f)
  rw [hsame]
  refine ⟨hseed, hsent, hreceived, ?_, ?_, ?_, ?_⟩
  · rw [onEcho_built S.range S.failFast e now hf hb]
    exact (checkOrder_frame ..).2.2.2.2.2
  · intro hle
    rw [onEcho_built S.range S.failFast e now hf hb, (checkOrder_counts ..).1]
    have hpos : e.pending > 0 := hle
    exact if_pos hpos
  · rw [onEcho_built S.range S.failFast e now hf hb, (checkOrder_counts ..).2.1]
    rfl
  · rw [onEcho_built S.range S.failFast e now hf hb]
    exact (checkOrder_counts ..).2.2

/-- A run of the checker over the frames of one `read`. -/
theorem onFrames_took {e e₀ : Echoer} {fs : List (List UInt8)} (now : Nat → Int64)
    (hfs : ∀ f ∈ fs, WellFormed f ∧ Built S.range e.seed f) (hlive : e.dead = false)
    (h : Reach (echoStep S.range S.failFast) Any e₀ e) :
    e.Took (S.onFrames fs now e) fs ∧
    Reach (echoStep S.range S.failFast) Any e₀ (S.onFrames fs now e) := by
  induction fs generalizing e now with
  | nil =>
    refine ⟨⟨rfl, rfl, (List.append_nil _).symm, rfl, fun _ => ?_, rfl, rfl⟩, h⟩
    exact (Int.sub_zero _).symm
  | cons f fs ih =>
    obtain ⟨hf, hb⟩ := hfs f List.mem_cons_self
    have hone := onFrame_took (now 0) hf hb
    have hstep : echoStep S.range S.failFast (.receive (now 0) ⟨f, hf⟩) e =
        some (S.onFrame (now 0) f e) := by
      have hsame : S.onFrame (now 0) f e = e.onEcho S.range S.failFast (now 0) f := if_pos hf.2
      unfold echoStep
      rw [hlive, if_neg Bool.false_ne_true, hsame]
    have hmore : ∀ g ∈ fs, WellFormed g ∧ Built S.range (S.onFrame (now 0) f e).seed g := by
      rw [hone.seed]
      exact fun g hg => hfs g (List.mem_cons_of_mem f hg)
    obtain ⟨hrest, hreach⟩ := ih (fun i => now (i + 1)) hmore (hone.dead.trans hlive)
      (h.tail trivial hstep)
    refine ⟨⟨hrest.seed.trans hone.seed, hrest.sent.trans hone.sent, ?_,
      hrest.dead.trans hone.dead, ?_, ?_, hrest.echoSent.trans hone.echoSent⟩, hreach⟩
    · refine hrest.received.trans ?_
      rw [hone.received, List.append_assoc]
      rfl
    · intro hle
      have hfirst := hone.pending
      have hthen := hrest.pending
      rw [List.length_singleton] at hfirst
      rw [List.length_cons] at hle ⊢
      have hpos : ((1 : Nat) : Int) ≤ e.pending := by omega
      rw [hfirst hpos] at hthen
      refine (hthen ?_).trans ?_
      · omega
      · omega
    · refine hrest.counted.trans ?_
      rw [hone.counted, List.length_singleton, List.length_cons]
      omega

/-! ### The server's kernel -/

theorem Output.View.Step.wire {B : OutRing σ} {j : Nat} {a : Output.Act} {v v' : Output.View σ}
    (hs : Output.View.Step B j a v v') (ha : ¬a.Opens j) : v.conn.wire <+: v'.conn.wire := by
  cases hs with
  | opened => exact absurd ⟨_, _, _, rfl⟩ ha
  | call hop hd hm =>
    cases hm with
    | wrote => exact List.prefix_append _ _
    | _ => exact List.prefix_refl _
  | _ => exact List.prefix_refl _

theorem Output.wire_grows {B : OutRing σ} {j : Nat} {a : Output.Act} {s t : Output.State σ}
    (hsound : Output.Sound s) (h : Output.step B a s = some t) (ha : ¬a.Opens j) :
    (s.conns j).wire <+: (t.conns j).wire := by
  rcases (Output.moves h).view hsound j with hsame | hstep
  · have hconn := congrArg (fun v => v.conn.wire) hsame
    exact hconn ▸ List.prefix_refl _
  · exact hstep.wire ha

theorem deframed_start : DummyReader.Deframed [] {} := by
  have hsplit := @Format.split_short _ frameFormat [] (by decide)
  apply DummyReader.deframed_run (@Traced.refl _ _ _ (DummyReader.step false closesClient) _ _)
  · rw [hsplit]
  · rw [hsplit]
    rintro f ⟨⟩

/-! ### What holds all the time -/

namespace Circuit

/-- Where everything is. The stream up is what the client wrote, the stream down what the server's
kernel took. -/
structure Going (S : Setting ρ σ) (seed : UInt64) (L : Circuit ρ σ) : Prop where
  checked : Reach (echoStep S.range S.failFast) Any { seed } L.echoer
  alive : L.echoer.dead = true → L.client.state = .dead
  posted : L.written <+: L.echoer.sent.flatten
  held : L.client.state ≠ .dead → L.written ++ L.client.pend = L.echoer.sent.flatten
  got_le : L.got ≤ L.written.length
  framed : Framed S.recvRing (L.written.take L.got) L.recv
  reached : ∃ cap q, Reach (Output.step S.sendRing) Any (Output.State.init S.sendRing cap q) L.out
  lane : Output.Lane L.out S.owner S.slot (L.recv.frames.take L.answered)
  answered_le : L.answered ≤ L.recv.frames.length
  fetched_le : L.fetched ≤ (L.out.conns S.slot).wire.length
  deframed : DummyReader.Deframed ((L.out.conns S.slot).wire.take L.fetched) L.reader
  taken : L.echoer.received = L.reader.frames
  pending : L.client.state ≠ .dead →
    L.echoer.pending = (L.echoer.sent.length : Int) - L.echoer.received.length
  sent_counted : L.echoer.echoSent ≤ L.echoer.sent.length
  recv_counted : L.echoer.local_.echoRecv = L.echoer.received.length

namespace Going

variable {seed : UInt64} {L M : Circuit ρ σ}

/-- Every frame that was sent can come back. -/
theorem sent_frames (h : Going S seed L) :
    ∀ f ∈ L.echoer.sent, WellFormed f ∧ Built S.range L.echoer.seed f := by
  have hsound := sound_reach h.checked
  obtain ⟨ts, hsent, -⟩ := hsound.sends
  rw [hsent, hsound.seed_eq]
  intro f hf
  obtain ⟨i, hi, rfl⟩ := List.mem_mapIdx.mp hf
  refine ⟨wellFormed_echoFrame, ts[i], ?_⟩
  rw [seqOf_echoFrame]

theorem sent_whole (h : Going S seed L) : ∀ f ∈ L.echoer.sent, frameFormat.Whole f :=
  fun f hf => (h.sent_frames f hf).1.1

/-- The server finds what was sent. -/
theorem recv_frames (h : Going S seed L) : L.recv.frames <+: L.echoer.sent := by
  have hup : L.written.take L.got <+: L.echoer.sent.flatten :=
    (List.take_prefix _ _).trans h.posted
  have hfirst := Format.split_prefix h.sent_whole hup
  rw [h.framed.split] at hfirst
  exact hfirst

theorem log_prefix (h : Going S seed L) : (L.out.conns S.slot).log <+: L.echoer.sent :=
  h.lane.first.trans ((List.take_prefix _ _).trans h.recv_frames)

theorem wire_prefix (h : Going S seed L) (hB : S.sendRing.Fifo) :
    (L.out.conns S.slot).wire <+: (L.out.conns S.slot).log.flatten := by
  obtain ⟨cap, q, hreach⟩ := h.reached
  exact ⟨_, (Output.flowing hB hreach S.slot).stream.symm⟩

theorem reader_frames (h : Going S seed L) (hB : S.sendRing.Fifo) :
    L.reader.frames <+: L.echoer.sent := by
  have hdown : (L.out.conns S.slot).wire.take L.fetched <+:
      (L.out.conns S.slot).log.flatten := (List.take_prefix _ _).trans (h.wire_prefix hB)
  rw [h.deframed.frames]
  exact (Format.split_prefix (fun f hf => h.sent_whole f (h.log_prefix.subset hf)) hdown).trans
    h.log_prefix

/-! ### The steps of the client -/

theorem kill_sent (h : Going S seed L) : Going S seed { L with client := L.client.kill } where
  checked := h.checked
  alive _ := kill_dead
  posted := h.posted
  held hopen := absurd kill_dead hopen
  got_le := h.got_le
  framed := h.framed
  reached := h.reached
  lane := h.lane
  answered_le := h.answered_le
  fetched_le := h.fetched_le
  deframed := h.deframed
  taken := h.taken
  pending hopen := absurd kill_dead hopen
  sent_counted := h.sent_counted
  recv_counted := h.recv_counted

theorem sendEcho (h : Going S seed L) {now : Int64} {w : Dummy.Written}
    (hopen : L.client.state ≠ .dead) (hM : S.sendEcho L now w = some M) : Going S seed M := by
  obtain ⟨c, hpost, rfl⟩ := Option.map_eq_some_iff.mp hM
  have hlive : L.echoer.dead = false := by
    rw [← Bool.not_eq_true]
    exact fun hdead => hopen (h.alive hdead)
  have hstep : echoStep S.range S.failFast (.send now (decide (c.state = .dead))) L.echoer =
      some (L.echoer.sendEcho S.range now (decide (c.state = .dead))) := by
    unfold echoStep
    rw [hlive, if_neg Bool.false_ne_true]
  have hfields : (L.echoer.sendEcho S.range now (decide (c.state = .dead))).sent =
      L.echoer.sent ++ [echoFrame S.range L.echoer.seed (L.echoer.echoSeq + 1) now] ∧
      (L.echoer.sendEcho S.range now (decide (c.state = .dead))).received = L.echoer.received ∧
      ((L.echoer.sendEcho S.range now (decide (c.state = .dead))).dead = true →
        c.state = .dead) ∧
      (c.state ≠ .dead → (L.echoer.sendEcho S.range now (decide (c.state = .dead))).pending =
        L.echoer.pending + 1) ∧
      (L.echoer.sendEcho S.range now (decide (c.state = .dead))).echoSent ≤
        L.echoer.echoSent + 1 ∧
      (L.echoer.sendEcho S.range now (decide (c.state = .dead))).local_ = L.echoer.local_ := by
    unfold Echoer.sendEcho
    dsimp only
    split
    · next hdies =>
      have hdies := of_decide_eq_true hdies
      exact ⟨rfl, rfl, fun _ => hdies, fun hnot => absurd hdies hnot, Nat.le_succ _, rfl⟩
    · refine ⟨rfl, rfl, fun hdead => ?_, fun _ => rfl, Nat.le_refl _, rfl⟩
      exact absurd (hlive.symm.trans hdead) Bool.false_ne_true
  obtain ⟨hsent, hreceived, hdies, hpending, hcount, hlocal⟩ := hfields
  have hflat : (L.echoer.sendEcho S.range now (decide (c.state = .dead))).sent.flatten =
      L.echoer.sent.flatten ++ echoFrame S.range L.echoer.seed (L.echoer.echoSeq + 1) now := by
    rw [hsent, List.flatten_append, List.flatten_singleton]
  have hgrown : L.written <+: L.written ++ L.client.sendWrote
      (echoFrame S.range L.echoer.seed (L.echoer.echoSeq + 1) now) w := List.prefix_append _ _
  have hheld := h.held hopen
  have hbooks := post_books hpost
  constructor
  · exact h.checked.tail trivial hstep
  · exact hdies
  · dsimp only
    rw [hflat]
    rcases hbooks with ⟨-, hnone⟩ | ⟨-, hall⟩
    · rw [hnone, List.append_nil]
      exact h.posted.trans (List.prefix_append _ _)
    · refine ⟨c.pend, ?_⟩
      rw [List.append_assoc, hall, ← hheld, List.append_assoc]
  · intro hnot
    dsimp only
    rcases hbooks with ⟨hdead, -⟩ | ⟨-, hall⟩
    · exact absurd hdead hnot
    · rw [hflat, List.append_assoc, hall, ← hheld, List.append_assoc]
  · exact Nat.le_trans h.got_le hgrown.length_le
  · dsimp only
    rw [take_grown hgrown h.got_le]
    exact h.framed
  · exact h.reached
  · exact h.lane
  · exact h.answered_le
  · exact h.fetched_le
  · exact h.deframed
  · exact hreceived.trans h.taken
  · intro hnot
    dsimp only
    rw [hpending hnot, hsent, hreceived, h.pending hopen, List.length_append, List.length_singleton]
    omega
  · dsimp only
    rw [hsent, List.length_append, List.length_singleton]
    exact Nat.le_trans hcount (Nat.succ_le_succ h.sent_counted)
  · dsimp only
    rw [hlocal, hreceived]
    exact h.recv_counted

theorem onEvent (h : Going S seed L) {ev : Event} (hM : L.onEvent ev = some M) :
    Going S seed M := by
  obtain ⟨c, hevent, rfl⟩ := Option.map_eq_some_iff.mp hM
  have hgrown : L.written <+: L.written ++ L.client.eventWrote ev := List.prefix_append _ _
  -- a dead client stays as it is, and writes nothing
  have hbooks : (c.state ≠ .dead → L.client.state ≠ .dead ∧
        L.client.eventWrote ev ++ c.pend = L.client.pend) ∧
      (L.client.state = .dead → c.state = .dead) ∧
      L.written ++ L.client.eventWrote ev <+: L.echoer.sent.flatten := by
    by_cases hopen : L.client.state = .dead
    · have hsame : some L.client = some c := by
        unfold Client.onEvent at hevent
        rw [if_pos (Or.inl hopen)] at hevent
        exact hevent
      have hnone : L.client.eventWrote ev = [] := if_pos (Or.inl hopen)
      cases hsame
      refine ⟨fun hnot => absurd hopen hnot, id, ?_⟩
      rw [hnone, List.append_nil]
      exact h.posted
    · obtain ⟨hfirst, hrest⟩ := onEvent_books hopen hevent
      refine ⟨fun hnot => ⟨hopen, hrest.resolve_left hnot⟩, fun hdead => absurd hdead hopen, ?_⟩
      rw [← h.held hopen]
      exact (List.prefix_append_right_inj _).mpr hfirst
  obtain ⟨hheld, hdead, hposted⟩ := hbooks
  constructor
  · exact h.checked
  · exact fun hd => hdead (h.alive hd)
  · exact hposted
  · intro hnot
    obtain ⟨hopen, hall⟩ := hheld hnot
    dsimp only
    rw [List.append_assoc, hall]
    exact h.held hopen
  · exact Nat.le_trans h.got_le hgrown.length_le
  · dsimp only
    rw [take_grown hgrown h.got_le]
    exact h.framed
  · exact h.reached
  · exact h.lane
  · exact h.answered_le
  · exact h.fetched_le
  · exact h.deframed
  · exact h.taken
  · exact fun hnot => h.pending (hheld hnot).1
  · exact h.sent_counted
  · exact h.recv_counted

/-- What the client reads next is the continuation of what came down. -/
theorem down_prefix (h : Going S seed L) (hB : S.sendRing.Fifo) {bs : List UInt8}
    (hbs : bs <+: (L.out.conns S.slot).wire.drop L.fetched) :
    (L.out.conns S.slot).wire.take L.fetched ++ bs <+: (L.out.conns S.slot).log.flatten := by
  rw [← take_read hbs]
  exact (List.take_prefix _ _).trans (h.wire_prefix hB)

theorem onReadable (h : Going S seed L) (hB : S.sendRing.Fifo) {a : ReadAct} {now : Nat → Int64}
    (hopen : L.client.state ≠ .dead) (hM : S.onReadable L a now = some M) : Going S seed M := by
  unfold Setting.onReadable at hM
  simp only [Option.ite_none_right_eq_some] at hM
  obtain ⟨hbs, hM⟩ := hM
  obtain ⟨t, hread, rfl⟩ := Option.map_eq_some_iff.mp hM
  have hlive : L.echoer.dead = false := by
    rw [← Bool.not_eq_true]
    exact fun hdead => hopen (h.alive hdead)
  have hwhole : ∀ f ∈ (L.out.conns S.slot).log, frameFormat.Whole f :=
    fun f hf => h.sent_whole f (h.log_prefix.subset hf)
  have hdown := h.down_prefix hB hbs
  have hbefore := Format.split_fine hwhole ((List.prefix_append _ _).trans hdown)
  have hafter := Format.split_fine hwhole hdown
  have hfirst := (Format.split_prefix hwhole hdown).trans h.log_prefix
  have hclose : ∀ f ∈ (frameFormat.split ((L.out.conns S.slot).wire.take L.fetched ++
      DummyReader.received a L.reader)).frames, closesClient f = false := by
    intro f hf
    obtain ⟨hform, hb⟩ := h.sent_frames f (hfirst.subset hf)
    have hlong : kEchoMin ≤ frameSize f := by
      rw [((built_iff S.range hform).mp hb).1]
      exact (echoSizeFor_bounds S.range L.echoer.seed (seqOf f)).1
    have htype : frameType f ≠ S2C_JOIN_FAIL.toNat := by
      have hecho : frameType f = ECHO.toNat := hform.2
      rw [hecho]
      decide
    unfold closesClient
    rw [decide_eq_false htype, decide_eq_false (fun hshort => absurd hlong (by omega))]
    rfl
  have hdeframed := h.deframed.step hafter hclose hbefore hread
  have hgrown : L.reader.frames <+: t.frames := by
    rw [hdeframed.frames, Format.split_append hbefore, h.deframed.frames]
    exact List.prefix_append _ _
  have hnew : L.reader.frames ++ t.frames.drop L.reader.frames.length = t.frames :=
    (List.prefix_append_drop hgrown).symm
  have hback : t.frames <+: L.echoer.sent := by
    rw [hdeframed.frames]
    exact hfirst
  obtain ⟨htook, hreach⟩ := onFrames_took now
    (fun f hf => h.sent_frames f (hback.subset (List.mem_of_mem_drop hf))) hlive h.checked
  constructor
  · exact hreach
  · intro hdead
    exact absurd (hlive.symm.trans (htook.dead.symm.trans hdead)) Bool.false_ne_true
  · dsimp only
    rw [htook.sent]
    exact h.posted
  · intro hnot
    dsimp only at hnot ⊢
    rw [htook.sent]
    split at hnot
    · exact absurd kill_dead hnot
    · next hspared =>
      rw [if_neg hspared]
      exact h.held hopen
  · exact h.got_le
  · exact h.framed
  · exact h.reached
  · exact h.lane
  · exact h.answered_le
  · exact read_le hbs h.fetched_le
  · dsimp only
    rw [take_read hbs]
    exact hdeframed
  · dsimp only
    rw [htook.received, h.taken, hnew]
  · intro _
    have hsplit := congrArg List.length hnew
    have hle := hback.length_le
    have hbefore := h.pending hopen
    have htaken := h.taken
    rw [List.length_append] at hsplit
    rw [htaken] at hbefore
    have hpending := htook.pending (by omega)
    dsimp only
    rw [hpending, htook.sent, htook.received, List.length_append, htaken]
    omega
  · dsimp only
    rw [htook.echoSent, htook.sent]
    exact h.sent_counted
  · dsimp only
    rw [htook.counted, htook.received, h.recv_counted, List.length_append]

/-! ### The steps of the server -/

theorem readSession (h : Going S seed L) (hR : S.recvRing.Fifo) {a : ReadAct}
    (hM : S.readSession L a = some M) : Going S seed M := by
  unfold Setting.readSession at hM
  simp only [Option.ite_none_right_eq_some] at hM
  obtain ⟨hbs, hM⟩ := hM
  obtain ⟨t, hread, rfl⟩ := Option.map_eq_some_iff.mp hM
  have hframed := h.framed.step hR hread
  have hup : L.written.take L.got <+: L.echoer.sent.flatten :=
    (List.take_prefix _ _).trans h.posted
  have hgrown : L.recv.frames <+: t.frames := by
    have hbefore : (frameFormat.split (L.written.take L.got)).frames = L.recv.frames := by
      rw [h.framed.split]
    have hafter : (frameFormat.split (L.written.take L.got ++
        Reader.received S.recvRing a L.recv)).frames = t.frames := by
      rw [hframed.split]
    rw [← hafter, Format.split_append (Format.split_fine h.sent_whole hup), hbefore]
    exact List.prefix_append _ _
  constructor
  · exact h.checked
  · exact h.alive
  · exact h.posted
  · exact h.held
  · exact read_le hbs h.got_le
  · dsimp only
    rw [take_read hbs]
    exact hframed
  · exact h.reached
  · dsimp only
    rw [take_grown hgrown h.answered_le]
    exact h.lane
  · exact Nat.le_trans h.answered_le hgrown.length_le
  · exact h.fetched_le
  · exact h.deframed
  · exact h.taken
  · exact h.pending
  · exact h.sent_counted
  · exact h.recv_counted

theorem server (h : Going S seed L) {a : Output.Act} {out : Output.State σ} {n : Nat}
    (hstep : Output.step S.sendRing a L.out = some out) (hopens : ¬a.Opens S.slot)
    (hjoin : ∀ g, a ≠ .join g S.slot) (hn : n ≤ L.recv.frames.length)
    (hgives : L.recv.frames.take L.answered ++ a.gives S.slot = L.recv.frames.take n) :
    Going S seed { L with out, answered := n } := by
  obtain ⟨cap, q, hreach⟩ := h.reached
  have hsound := Output.sound_of_reach hreach
  have hgrown := Output.wire_grows hsound hstep hopens
  constructor
  · exact h.checked
  · exact h.alive
  · exact h.posted
  · exact h.held
  · exact h.got_le
  · exact h.framed
  · exact ⟨cap, q, hreach.tail trivial hstep⟩
  · exact hgives ▸ h.lane.step hsound hstep hopens hjoin
  · exact hn
  · exact Nat.le_trans h.fetched_le hgrown.length_le
  · dsimp only
    rw [take_grown hgrown h.fetched_le]
    exact h.deframed
  · exact h.taken
  · exact h.pending
  · exact h.sent_counted
  · exact h.recv_counted

/-- A frame of the echo test is sent back as it is. -/
theorem dispatch_echoed {f : List UInt8} (hf : WellFormed f) (st : Server) (idx : Nat)
    (remainUs : UInt32) : st.dispatch idx remainUs (.decode f) = .send (.echo f) := by
  have htype : leNat (bytesAt f 2 2) = ECHO.toNat := hf.2
  have hdecode : ClientMsg.decode f = .echo f := by
    unfold ClientMsg.decode
    dsimp only
    rw [htype, UInt16.ofNat_toNat, if_pos rfl]
  rw [hdecode]
  rfl

theorem dispatch (h : Going S seed L) {st : Server} {remainUs : UInt32}
    (hM : S.dispatch L st remainUs = some M) : Going S seed M := by
  unfold Setting.dispatch at hM
  cases hf : L.recv.frames[L.answered]? with
  | none =>
    rw [hf] at hM
    cases hM
  | some f =>
    obtain ⟨hlt, hget⟩ := List.getElem?_eq_some_iff.mp hf
    have hmem : f ∈ L.recv.frames := hget ▸ List.getElem_mem hlt
    have hform := (h.sent_frames f (h.recv_frames.subset hmem)).1
    rw [hf] at hM
    dsimp only at hM
    rw [dispatch_echoed hform] at hM
    obtain ⟨out, hout, rfl⟩ := Option.map_eq_some_iff.mp hM
    apply h.server hout
    · rintro ⟨_, _, _, heq⟩
      cases heq
    · rintro g heq
      cases heq
    · exact hlt
    · have hgives : (Output.Act.send S.owner S.slot (Msg.echo f).bytes).gives S.slot = [f] :=
        if_pos rfl
      rw [hgives, List.take_add_one, hf]
      rfl

theorem step (h : Going S seed L) (hR : S.recvRing.Fifo) (hB : S.sendRing.Fifo) {a : CircuitAct}
    (hM : S.step a L = some M) : Going S seed M := by
  cases a with
  | echo now w =>
    simp only [Setting.step, Option.ite_none_right_eq_some] at hM
    obtain ⟨⟨hactive, -⟩, hM⟩ := hM
    apply h.sendEcho _ hM
    rw [hactive]
    rintro ⟨⟩
  | event ev =>
    simp only [Setting.step, Option.ite_none_right_eq_some] at hM
    exact h.onEvent hM.2
  | read a now =>
    simp only [Setting.step, Option.ite_none_right_eq_some] at hM
    exact h.onReadable hB hM.1.1 hM.2
  | churn =>
    simp only [Setting.step, Option.ite_none_right_eq_some, Option.some.injEq] at hM
    obtain ⟨-, rfl⟩ := hM
    exact h.kill_sent
  | serve a =>
    simp only [Setting.step, Option.ite_none_right_eq_some] at hM
    exact h.readSession hR hM.2
  | answer st remainUs => exact h.dispatch hM
  | out a =>
    simp only [Setting.step, Option.ite_none_right_eq_some] at hM
    obtain ⟨helse, hM⟩ := hM
    obtain ⟨out, hout, rfl⟩ := Option.map_eq_some_iff.mp hM
    have hquiet : ¬a.Opens S.slot ∧ (∀ g, a ≠ .join g S.slot) ∧ a.gives S.slot = [] := by
      cases a with
      | send w idx m =>
        have hne : idx ≠ S.slot := of_decide_eq_true helse
        exact ⟨by rintro ⟨_, _, _, ⟨⟩⟩, by rintro g ⟨⟩, if_neg hne⟩
      | accept w idx fd ok =>
        have hne : idx ≠ S.slot := of_decide_eq_true helse
        refine ⟨?_, by rintro g ⟨⟩, rfl⟩
        rintro ⟨_, _, _, heq⟩
        cases heq
        exact hne rfl
      | join g idx =>
        have hne : idx ≠ S.slot := of_decide_eq_true helse
        refine ⟨by rintro ⟨_, _, _, ⟨⟩⟩, ?_, rfl⟩
        rintro g' heq
        cases heq
        exact hne rfl
      | _ => exact ⟨by rintro ⟨_, _, _, ⟨⟩⟩, by rintro g ⟨⟩, rfl⟩
    apply h.server hout hquiet.1 hquiet.2.1 h.answered_le
    rw [hquiet.2.2, List.append_nil]

theorem start {fd : Nat} {c : Client} {q : ρ} {out s : Output.State σ} {sock : Int} {cap : Nat}
    {q' : σ} (hR : S.recvRing.Fifo) (hq : S.recvRing.content q = [])
    (hs : Reach (Output.step S.sendRing) Any (Output.State.init S.sendRing cap q') s)
    (haccept : Output.step S.sendRing (.accept S.owner S.slot sock true) s = some out) :
    Going S seed (Circuit.start fd seed q c out) where
  checked := .refl
  alive := by rintro ⟨⟩
  posted := List.nil_prefix
  held _ := rfl
  got_le := Nat.le_refl 0
  framed := Framed.run hR hq .refl
  reached := ⟨cap, q', hs.tail trivial haccept⟩
  lane := .accepted haccept
  answered_le := Nat.le_refl 0
  fetched_le := Nat.zero_le _
  deframed := deframed_start
  taken := rfl
  pending _ := rfl
  sent_counted := Nat.le_refl 0
  recv_counted := rfl

end Going

/-! ### The result -/

def sessionOp (S : Setting ρ σ) (L : Circuit ρ σ) : Option Output.Op :=
  (L.out.net S.owner).opOn S.slot

/-- The bytes between the frames that came back and those that `SendEcho` has to write: in the
buffer of the client, in the connection, in the send ring, in the owner's hands, dispatched, in the
receive ring, in the connection, and held back by the client. -/
def underway (S : Setting ρ σ) (L : Circuit ρ σ) : List UInt8 :=
  L.reader.buf.content ++ (L.out.conns S.slot).wire.drop L.fetched ++
    (S.sendRing.content (L.out.conns S.slot).sendQ).drop (Output.unconsumed (L.sessionOp S)) ++
    (Output.sending (L.sessionOp S)).flatten ++ (L.recv.frames.drop L.answered).flatten ++
    S.recvRing.content L.recv.ring ++ L.written.drop L.got ++ L.client.pend

/-- Neither side has been cut, or is about to be. -/
structure Open (S : Setting ρ σ) (L : Circuit ρ σ) : Prop where
  client : L.client.state ≠ .dead
  session : (L.out.conns S.slot).dead = false
  kept : L.sessionOp S ≠ some .cut

namespace Going

variable {seed : UInt64} {L : Circuit ρ σ}

/-- The stages of the way round, one after the other. -/
theorem conserves (h : Going S seed L) (hB : S.sendRing.Fifo) (hopen : L.Open S) :
    L.echoer.sent.flatten = L.echoer.received.flatten ++ L.underway S := by
  obtain ⟨cap, q, hreach⟩ := h.reached
  have hclient := h.held hopen.client
  have hserver : L.recv.frames.flatten ++ S.recvRing.content L.recv.ring =
      L.written.take L.got := by
    have hflat := Format.split_flatten frameFormat (L.written.take L.got)
    rw [h.framed.split] at hflat
    exact hflat
  have hlane : (L.out.conns S.slot).log.flatten ++ (Output.sending (L.sessionOp S)).flatten =
      (L.recv.frames.take L.answered).flatten := by
    rw [← List.flatten_append]
    exact congrArg List.flatten (h.lane.all hopen.session hopen.kept)
  have hring : (L.out.conns S.slot).log.flatten = (L.out.conns S.slot).wire ++
      (S.sendRing.content (L.out.conns S.slot).sendQ).drop
        (Output.unconsumed (L.sessionOp S)) := by
    have hstream := (Output.flowing hB hreach S.slot).stream
    have hop : (L.out.view S.slot).op = L.sessionOp S := by
      unfold sessionOp Output.State.view
      rw [h.lane.owner]
    rw [hop] at hstream
    exact hstream
  have hback : L.echoer.received.flatten ++ L.reader.buf.content =
      (L.out.conns S.slot).wire.take L.fetched := by
    rw [h.taken, h.deframed.frames, h.deframed.content]
    exact Format.split_flatten frameFormat _
  have hframes : L.recv.frames.flatten =
      (L.recv.frames.take L.answered).flatten ++ (L.recv.frames.drop L.answered).flatten := by
    rw [← List.flatten_append, List.take_append_drop]
  have hup := List.take_append_drop L.got L.written
  have hdown := List.take_append_drop L.fetched (L.out.conns S.slot).wire
  rw [← hclient, ← hup, ← hserver, hframes, ← hlane, hring, ← hdown, ← hback]
  unfold underway
  simp only [List.append_assoc]

/-- With nothing underway, everything is back. -/
theorem all_back (h : Going S seed L) (hB : S.sendRing.Fifo) (hopen : L.Open S)
    (hempty : L.underway S = []) : L.echoer.received = L.echoer.sent := by
  have hall := h.conserves hB hopen
  rw [hempty, List.append_nil] at hall
  have hfirst : L.echoer.received <+: L.echoer.sent := h.taken ▸ h.reader_frames hB
  obtain ⟨more, hmore⟩ := hfirst
  have hrest : more.flatten = [] := by
    rw [← hmore, List.flatten_append] at hall
    exact List.append_right_eq_self.mp hall
  have hnone : more = [] := by
    cases more with
    | nil => rfl
    | cons f fs =>
      have hlen := (h.sent_whole f (hmore ▸ List.mem_append_right _ List.mem_cons_self)).2.1
      have hnil : f = [] := List.flatten_eq_nil_iff.mp hrest f List.mem_cons_self
      rw [hnil] at hlen
      exact absurd hlen (by decide)
  rw [← hmore, hnone, List.append_nil]

end Going

theorem going_of_reach {fd : Nat} {seed : UInt64} {c : Client} {q : ρ} {out s : Output.State σ}
    {sock : Int} {cap : Nat} {q' : σ} {L : Circuit ρ σ} (hR : S.recvRing.Fifo)
    (hB : S.sendRing.Fifo) (hq : S.recvRing.content q = [])
    (hs : Reach (Output.step S.sendRing) Any (Output.State.init S.sendRing cap q') s)
    (haccept : Output.step S.sendRing (.accept S.owner S.slot sock true) s = some out)
    (h : Reach S.step Any (Circuit.start fd seed q c out) L) : Going S seed L :=
  h.invariant (.start hR hq hs haccept) fun _ _ _ _ hgoing _ hstep => hgoing.step hR hB hstep

end Circuit

/-- Whatever the kernels cut and the threads do, no check of the client fails and no deframer cuts
the connection; what came back is the beginning of what was sent, and the count of missing answers
is exact. While neither side is cut, every byte that is not back is underway, in order. -/
theorem echo_returns {S : Setting ρ σ} (hR : S.recvRing.Fifo) (hB : S.sendRing.Fifo) {fd : Nat}
    {seed : UInt64} {c : Client} {q : ρ} {out s : Output.State σ} {sock : Int} {cap : Nat} {q' : σ}
    {L : Circuit ρ σ} (hq : S.recvRing.content q = [])
    (hs : Reach (Output.step S.sendRing) Any (Output.State.init S.sendRing cap q') s)
    (haccept : Output.step S.sendRing (.accept S.owner S.slot sock true) s = some out)
    (h : Reach S.step Any (Circuit.start fd seed q c out) L) :
    (Silent L.echoer ∧ L.echoer.lateArrival = 0 ∧ L.echoer.received <+: L.echoer.sent) ∧
    (L.reader.killed ≠ some .overrun ∧ L.reader.killed ≠ some .header ∧
      L.reader.killed ≠ some .frame) ∧
    (L.recv.cut ≠ some .header ∧ L.recv.cut ≠ some .overrun) ∧
    (L.client.state ≠ .dead →
      L.echoer.pending = (L.echoer.sent.length : Int) - L.echoer.received.length) ∧
    (L.Open S → L.echoer.sent.flatten = L.echoer.received.flatten ++ L.underway S ∧
      (L.underway S = [] → L.echoer.received = L.echoer.sent ∧ L.echoer.pending = 0)) := by
  have hgoing := Circuit.going_of_reach hR hB hq hs haccept h
  have hfirst : L.echoer.received <+: L.echoer.sent := hgoing.taken ▸ hgoing.reader_frames hB
  have hsilent : Silent L.echoer ∧ L.echoer.lateArrival = 0 := by
    have hsound := sound_reach hgoing.checked
    obtain ⟨sends, hsent, -⟩ := hsound.sends
    rw [hsent] at hfirst
    obtain ⟨ts, hrecv⟩ := numbered_prefix S.range seed hfirst
    obtain ⟨hsilent, hnone, -⟩ := hsound.silent ts 0 (hrecv ▸ .of_numbered ts)
    exact ⟨hsilent, hnone⟩
  have hcut : L.recv.cut ≠ some .header := by
    intro hcut
    have hup := (List.take_prefix L.got L.written).trans hgoing.posted
    have hfine := Format.split_fine hgoing.sent_whole hup
    rw [hgoing.framed.bad_iff.mpr hcut] at hfine
    cases hfine
  refine ⟨⟨hsilent.1, hsilent.2, hfirst⟩, hgoing.deframed.spared, ⟨hcut, hgoing.framed.no_overrun⟩,
    hgoing.pending, fun hopen => ⟨hgoing.conserves hB hopen, fun hempty => ?_⟩⟩
  have hall := hgoing.all_back hB hopen hempty
  refine ⟨hall, ?_⟩
  rw [hgoing.pending hopen.client, hall]
  omega

/-! ### Three echoes -/

/-- A server with one slot, and echoes with padding. -/
def oneSlot : Setting StRing Output.MtRing where
  recvRing := stRing
  sendRing := Output.mtRing
  range := padded
  failFast := true
  slot := 0
  owner := 0

def oneAccepted : Output.State Output.MtRing :=
  (Output.step Output.mtRing (.accept 0 0 5 true) (.init Output.mtRing 1 {})).getD
    (.init Output.mtRing 1 {})

def paddedEcho (seq : UInt64) (now : Int64) : List UInt8 := echoFrame padded 7 seq now

/-- Of the first echo 15 bytes go, the rest is held back with all of the second. -/
def twoEchoes : List CircuitAct :=
  [.event { out := true }, .echo 3 (.wrote 15), .echo 4 .again]

/-- The held bytes go in two parts. The answer to the first echo is cut short by the kernel of the
server and sent on with `EPOLLOUT`; when it is back, the client sends the third echo. -/
def thirdEcho : List CircuitAct :=
  [.serve .wake, .serve (.read (.bytes ((paddedEcho 1 3).take 15))), .serve (.read .again),
    .event { out := true, flushes := [.wrote 20, .again] }, .serve .wake,
    .serve (.read (.bytes ((paddedEcho 1 3).drop 15 ++ (paddedEcho 2 4).take 13))),
    .answer (.init 1 1 1) 0, .out (.net 0 {}), .out (.net 0 {}), .out (.net 0 { n := 10 }),
    .out (.net 0 {}), .out (.net 0 {}), .out (.net 0 {}), .serve (.read .again),
    .out (.epollOut 0 0), .out (.net 0 {}), .out (.net 0 { n := 12 }), .out (.net 0 {}),
    .out (.net 0 {}), .out (.net 0 {}), .out (.net 0 {}), .read .wake fun _ => 9,
    .read (.read (.bytes (paddedEcho 1 3))) fun _ => 9, .read (.read .again) fun _ => 9,
    .event { out := true, flushes := [.wrote 11] }, .echo 6 (.wrote 28), .serve .wake,
    .serve (.read (.bytes ((paddedEcho 2 4).drop 13 ++ paddedEcho 3 6))), .answer (.init 1 1 1) 0,
    .out (.net 0 {}), .out (.net 0 {}), .out (.net 0 { n := 24 }), .out (.net 0 {}),
    .out (.net 0 {}), .answer (.init 1 1 1) 0]

/-- The last two answers go at once, and come in two parts. -/
def lastAnswers : List CircuitAct :=
  [.out (.net 0 {}), .out (.net 0 {}), .out (.net 0 { n := 28 }), .out (.net 0 {}),
    .out (.net 0 {}), .serve (.read .again), .read .wake fun _ => 9,
    .read (.read (.bytes (paddedEcho 2 4 ++ (paddedEcho 3 6).take 5))) fun _ => 10,
    .read (.read (.bytes ((paddedEcho 3 6).drop 5))) fun _ => 11]

theorem echo_returns_three : ∃ L,
    run oneSlot.step (twoEchoes ++ thirdEcho ++ lastAnswers)
      (Circuit.start 7 7 {} {} oneAccepted) = some L ∧ Silent L.echoer ∧
    L.echoer.sent = [paddedEcho 1 3, paddedEcho 2 4, paddedEcho 3 6] ∧
    L.echoer.received = L.echoer.sent ∧ L.echoer.pending = 0 := by
  have hrun : (run oneSlot.step (twoEchoes ++ thirdEcho ++ lastAnswers)
      (Circuit.start 7 7 {} {} oneAccepted)).map (fun L =>
      (L.echoer.sent, L.underway oneSlot, decide (L.client.state = .dead ∨
        (L.out.conns 0).dead = true ∨ L.sessionOp oneSlot = some .cut))) =
      some ([paddedEcho 1 3, paddedEcho 2 4, paddedEcho 3 6], [], false) := by decide +kernel
  obtain ⟨L, hL, hproj⟩ := Option.map_eq_some_iff.mp hrun
  simp only [Prod.mk.injEq, decide_eq_false_iff_not, not_or] at hproj
  obtain ⟨hsent, hempty, hclient, hsession, hkept⟩ := hproj
  have haccept : Output.step Output.mtRing (.accept 0 0 5 true) (.init Output.mtRing 1 {}) =
      some oneAccepted := rfl
  have hfresh : Reach (Output.step oneSlot.sendRing) Any (.init oneSlot.sendRing 1 {})
      (.init Output.mtRing 1 {}) := .refl
  obtain ⟨hchecks, -, -, -, hbooks⟩ :=
    echo_returns (S := oneSlot) stRing_fifo Output.mtRing_fifo rfl hfresh haccept (reach_of_run hL)
  have hopen : L.Open oneSlot := ⟨hclient, Bool.not_eq_true _ ▸ hsession, hkept⟩
  obtain ⟨hback, hnone⟩ := (hbooks hopen).2 hempty
  exact ⟨L, hL, hchecks.1, hsent, hback, hnone⟩

end BeltServer
