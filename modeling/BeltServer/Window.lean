import BeltServer.Returns
import Mathlib.Data.List.Infix

/-!
# The window of the echo test

With `g_overSend` a client stops sending while so many answers are missing. Then what is underway
on its connection is bounded, and no buffer on the way round can be too small for it.
-/

namespace BeltServer

set_option autoImplicit false

open Runs LengthPrefix Dummy

variable {ρ σ : Type} {S : Setting ρ σ} {W : Nat} {L M : Circuit ρ σ}

/-- `Loop` passes a client over whose window is full. -/
def Windowed (W : Nat) : CircuitAct → Circuit ρ σ → Prop
  | .echo _ _, L => L.echoer.pending < W
  | _, _ => True

instance (W : Nat) (a : CircuitAct) (L : Circuit ρ σ) : Decidable (Windowed W a L) :=
  match a with
  | .echo _ _ => inferInstanceAs (Decidable (L.echoer.pending < W))
  | .event _ | .read _ _ | .churn | .serve _ | .answer _ _ | .out _ =>
    inferInstanceAs (Decidable True)

theorem length_echoFrame_le (r : PacketRange) (seed seq : UInt64) (t : Int64) :
    (echoFrame r seed seq t).length ≤ r.pktMax := by
  have hmin := r.echoMin_le
  have hle := r.min_le_max
  have hmax : r.pktMax ≤ 1024 := r.max_le
  rw [length_echoFrame]
  unfold echoSizeFor
  split
  · rw [UInt16.toNat_ofNat']
    omega
  · have hrem := Nat.mod_lt (mix64 (seed ^^^ (seq * 0xD1B54A32D192ED03))).toNat
      (Nat.succ_pos (r.pktMax - r.pktMin))
    simp only [UInt16.toNat_ofNat', Nat.succ_eq_add_one] at hrem ⊢
    omega

theorem length_flatten_le {α : Type} {n : Nat} {fs : List (List α)}
    (h : ∀ f ∈ fs, f.length ≤ n) : fs.flatten.length ≤ fs.length * n := by
  induction fs with
  | nil => exact Nat.zero_le _
  | cons f fs ih =>
    have hfirst := h f List.mem_cons_self
    have hrest := ih fun g hg => h g (List.mem_cons_of_mem f hg)
    rw [List.flatten_cons, List.length_append, List.length_cons, Nat.succ_mul]
    omega

/-- A message for which there is room is the end of the client only when the `write` fails. -/
theorem Dummy.post_fails {c d : Client} {data : List UInt8} {w : Dummy.Written}
    (hopen : c.state ≠ .dead) (hroom : c.pend.length + data.length ≤ kPendMax)
    (h : c.post data w = some d) (hdead : d.state = .dead) : w = .failed := by
  obtain ⟨e, hsend, hd⟩ := Option.map_eq_some_iff.mp h
  have hsame : e.state = .dead := by
    split at hd
    · next hkilled => exact hkilled
    · split at hd
      · subst hd
        exact (updateWrite_same _).1.symm.trans hdead
      · subst hd
        exact hdead
  have hsent (n : Nat) (he : c.sent data n = e) : e.state = c.state := by
    subst he
    unfold Client.sent
    split
    · rfl
    · rfl
  unfold Client.sendBytes at hsend
  split at hsend
  · rw [if_neg (by omega)] at hsend
    cases hsend
    exact absurd hsame hopen
  · cases w with
    | wrote n =>
      simp only [Option.ite_none_right_eq_some, Option.some.injEq] at hsend
      exact absurd ((hsent n hsend.2).symm.trans hsame) hopen
    | again => exact absurd ((hsent 0 (Option.some.inj hsend)).symm.trans hsame) hopen
    | intr => exact absurd ((hsent 0 (Option.some.inj hsend)).symm.trans hsame) hopen
    | failed => rfl

namespace Circuit

/-! ### What is missing -/

theorem onFrames_frame (fs : List (List UInt8)) (now : Nat → Int64) (e : Echoer) :
    (S.onFrames fs now e).sent = e.sent ∧
    e.received.length ≤ (S.onFrames fs now e).received.length := by
  induction fs generalizing now e with
  | nil => exact ⟨rfl, Nat.le_refl _⟩
  | cons f fs ih =>
    have hone : (S.onFrame (now 0) f e).sent = e.sent ∧
        e.received.length ≤ (S.onFrame (now 0) f e).received.length := by
      unfold Setting.onFrame
      split
      · obtain ⟨-, -, hsent, hreceived⟩ := onEcho_frame S.range S.failFast e (now 0) (f := f)
        rw [hsent, hreceived, List.length_append]
        exact ⟨rfl, Nat.le_add_right _ _⟩
      · exact ⟨rfl, Nat.le_refl _⟩
    obtain ⟨hsent, hreceived⟩ := ih (fun i => now (i + 1)) (S.onFrame (now 0) f e)
    exact ⟨hsent.trans hone.1, Nat.le_trans hone.2 hreceived⟩

theorem missing_step {a : CircuitAct} (h : S.step a L = some M) :
    (∃ now w, a = .echo now w ∧ L.client.state = .active ∧
      M.echoer.sent.length = L.echoer.sent.length + 1 ∧
      M.echoer.received = L.echoer.received) ∨
    (M.echoer.sent = L.echoer.sent ∧
      L.echoer.received.length ≤ M.echoer.received.length) := by
  cases a with
  | echo now w =>
    simp only [Setting.step, Option.ite_none_right_eq_some] at h
    obtain ⟨⟨hactive, -⟩, h⟩ := h
    obtain ⟨c, -, rfl⟩ := Option.map_eq_some_iff.mp h
    refine Or.inl ⟨now, w, rfl, hactive, ?_, ?_⟩
    · dsimp only [Echoer.sendEcho]
      split
      · exact List.length_append
      · exact List.length_append
    · dsimp only [Echoer.sendEcho]
      split
      · rfl
      · rfl
  | event ev =>
    simp only [Setting.step, Option.ite_none_right_eq_some] at h
    obtain ⟨c, -, rfl⟩ := Option.map_eq_some_iff.mp h.2
    exact Or.inr ⟨rfl, Nat.le_refl _⟩
  | read a now =>
    simp only [Setting.step, Setting.onReadable, Option.ite_none_right_eq_some] at h
    obtain ⟨t, -, rfl⟩ := Option.map_eq_some_iff.mp h.2.2
    exact Or.inr (onFrames_frame _ now L.echoer)
  | churn =>
    simp only [Setting.step, Option.ite_none_right_eq_some, Option.some.injEq] at h
    obtain ⟨-, rfl⟩ := h
    exact Or.inr ⟨rfl, Nat.le_refl _⟩
  | serve a =>
    simp only [Setting.step, Setting.readSession, Option.ite_none_right_eq_some] at h
    obtain ⟨t, -, rfl⟩ := Option.map_eq_some_iff.mp h.2.2
    exact Or.inr ⟨rfl, Nat.le_refl _⟩
  | answer st remainUs =>
    have h : S.dispatch L st remainUs = some M := h
    unfold Setting.dispatch at h
    split at h
    · cases h
    · split at h
      · obtain ⟨out, -, rfl⟩ := Option.map_eq_some_iff.mp h
        exact Or.inr ⟨rfl, Nat.le_refl _⟩
      · cases h
  | out a =>
    simp only [Setting.step, Option.ite_none_right_eq_some] at h
    obtain ⟨out, -, rfl⟩ := Option.map_eq_some_iff.mp h.2
    exact Or.inr ⟨rfl, Nat.le_refl _⟩

/-- The count of missing answers is exact, so the window bounds them. -/
theorem missing_le {fd : Nat} {seed : UInt64} {c : Client} {q : ρ} {out : Output.State σ}
    (hgoing : ∀ L, Reach S.step Any (Circuit.start fd seed q c out) L → Going S seed L)
    (h : Reach S.step (Windowed W) (Circuit.start fd seed q c out) L) :
    L.echoer.sent.length ≤ L.echoer.received.length + W := by
  apply h.invariant
  · exact Nat.zero_le _
  · intro L a M hL hle hok hstep
    rcases missing_step hstep with ⟨now, w, rfl, hactive, hsent, hreceived⟩ | ⟨hsent, hreceived⟩
    · have hpending := (hgoing L hL.any).pending (by rw [hactive]; rintro ⟨⟩)
      have hwindow : L.echoer.pending < W := hok
      rw [hsent, hreceived]
      omega
    · rw [hsent]
      omega

namespace Going

variable {seed : UInt64}

theorem missing_bytes (h : Going S seed L) (hB : S.sendRing.Fifo) {n : Nat}
    (hn : L.echoer.sent.length ≤ L.echoer.received.length + n) :
    L.echoer.sent.flatten.length ≤ L.echoer.received.flatten.length + n * S.range.pktMax := by
  have hfirst : L.echoer.received <+: L.echoer.sent := h.taken ▸ h.reader_frames hB
  obtain ⟨more, hmore⟩ := hfirst
  have hlong : ∀ f ∈ more, f.length ≤ S.range.pktMax := by
    intro f hf
    obtain ⟨-, t, hbuilt⟩ := h.sent_frames f (hmore ▸ List.mem_append_right _ hf)
    rw [hbuilt]
    exact length_echoFrame_le ..
  have hcount : more.length ≤ n := by
    rw [← hmore, List.length_append] at hn
    omega
  have hbytes := length_flatten_le hlong
  have hmul := Nat.mul_le_mul_right S.range.pktMax hcount
  rw [← hmore, List.flatten_append, List.length_append]
  omega

/-- What the client got is within what the server's kernel took. -/
theorem received_bytes (h : Going S seed L) :
    L.echoer.received.flatten.length ≤ (L.out.conns S.slot).wire.length := by
  have hflat := Format.split_flatten frameFormat ((L.out.conns S.slot).wire.take L.fetched)
  rw [← h.deframed.frames, ← h.taken] at hflat
  have hlen := congrArg List.length hflat
  rw [List.length_append, List.length_take] at hlen
  omega

theorem wire_bytes (h : Going S seed L) (hB : S.sendRing.Fifo) :
    (L.out.conns S.slot).wire.length ≤ L.written.length := by
  have hlog := (h.wire_prefix hB).length_le
  have hframes := (h.lane.first.trans (List.take_prefix _ _)).flatten.length_le
  have hflat := Format.split_flatten frameFormat (L.written.take L.got)
  rw [h.framed.split] at hflat
  have hlen := congrArg List.length hflat
  rw [List.length_append, List.length_take] at hlen
  dsimp only at hlen
  omega

/-- A client whose window is open has room for one more frame. -/
theorem held_bytes (h : Going S seed L) (hB : S.sendRing.Fifo) (hopen : L.client.state ≠ .dead)
    (hwindow : L.echoer.pending < W) :
    L.client.pend.length + S.range.pktMax ≤ W * S.range.pktMax := by
  have hpending := h.pending hopen
  have hfirst : L.echoer.received.length ≤ L.echoer.sent.length := by
    rw [h.taken]
    exact (h.reader_frames hB).length_le
  obtain ⟨n, rfl⟩ : ∃ n, W = n + 1 := ⟨W - 1, by omega⟩
  have hmissing := h.missing_bytes hB (n := n) (by omega)
  have hheld := congrArg List.length (h.held hopen)
  have hback := h.received_bytes
  have hwire := h.wire_bytes hB
  rw [List.length_append] at hheld
  rw [Nat.succ_mul]
  omega

theorem ring_bytes (h : Going S seed L) (hB : S.sendRing.Fifo)
    (hmissing : L.echoer.sent.length ≤ L.echoer.received.length + W) {m : List UInt8}
    (hop : L.sessionOp S = some (.send m)) :
    (S.sendRing.content (L.out.conns S.slot).sendQ).length + m.length ≤ W * S.range.pktMax := by
  obtain ⟨cap, q, hreach⟩ := h.reached
  have hlive := (((Output.sound_of_reach hreach).slot S.slot).call S.owner (.send m) hop).2.2
  have hlane := h.lane.all hlive (by
    rintro hcut
    cases hop.symm.trans hcut)
  have hsame : (L.out.net S.owner).opOn S.slot = some (.send m) := hop
  rw [hsame] at hlane
  have hsent : ((L.out.conns S.slot).log ++ [m]).flatten.length ≤
      L.echoer.sent.flatten.length := by
    have hprefix : (L.out.conns S.slot).log ++ [m] <+: L.echoer.sent :=
      hlane ▸ (List.take_prefix _ _).trans h.recv_frames
    exact hprefix.flatten.length_le
  have hstream := (Output.flowing hB hreach S.slot).stream
  have hview : (L.out.view S.slot).op = some (.send m) := by
    unfold Output.State.view
    rw [h.lane.owner]
    exact hop
  rw [hview] at hstream
  have hring : (L.out.conns S.slot).log.flatten.length = (L.out.conns S.slot).wire.length +
      (S.sendRing.content (L.out.conns S.slot).sendQ).length := by
    rw [← List.length_append]
    exact congrArg List.length hstream
  have hback := h.received_bytes
  have hbytes := h.missing_bytes hB hmissing
  rw [List.flatten_append, List.length_append, List.flatten_singleton] at hsent
  omega

end Going

end Circuit

/-- With a window whose frames fit into the buffer of the client and into the send ring: no more
answers than that are ever missing, `SendEcho` kills the client only when the kernel fails it, and
the server never finds the send ring full. -/
theorem echo_window {S : Setting ρ σ} {W room : Nat} (hR : S.recvRing.Fifo)
    (hB : S.sendRing.Fifo)
    (hroom : ∀ q m, (S.sendRing.content q).length + m.length ≤ room →
      (S.sendRing.enqueue q m).1 = m.length)
    (hheld : W * S.range.pktMax ≤ kPendMax) (hring : W * S.range.pktMax ≤ room)
    {fd : Nat} {seed : UInt64} {c : Client} {q : ρ} {out s : Output.State σ} {sock : Int}
    {cap : Nat} {q' : σ} {L : Circuit ρ σ} (hq : S.recvRing.content q = [])
    (hs : Reach (Output.step S.sendRing) Any (Output.State.init S.sendRing cap q') s)
    (haccept : Output.step S.sendRing (.accept S.owner S.slot sock true) s = some out)
    (h : Reach S.step (Windowed W) (Circuit.start fd seed q c out) L) :
    L.echoer.echoSent ≤ L.echoer.local_.echoRecv + W ∧
    (∀ now w M, Windowed W (.echo now w) L → S.step (.echo now w) L = some M →
      M.client.state = .dead → w = .failed) ∧
    ∀ m, L.sessionOp S = some (.send m) →
      (S.sendRing.enqueue (L.out.conns S.slot).sendQ m).1 = m.length := by
  have hall (L : Circuit ρ σ) (h : Reach S.step Any (Circuit.start fd seed q c out) L) :
      Circuit.Going S seed L := Circuit.going_of_reach hR hB hq hs haccept h
  have hgoing := hall L h.any
  have hmissing := Circuit.missing_le hall h
  refine ⟨?_, fun now w M hwindow hstep hdead => ?_, fun m hop => ?_⟩
  · rw [hgoing.recv_counted]
    exact Nat.le_trans hgoing.sent_counted hmissing
  · simp only [Setting.step, Option.ite_none_right_eq_some] at hstep
    obtain ⟨⟨hactive, -⟩, hstep⟩ := hstep
    obtain ⟨c', hpost, rfl⟩ := Option.map_eq_some_iff.mp hstep
    have hopen : L.client.state ≠ .dead := by
      rw [hactive]
      rintro ⟨⟩
    have hfits := hgoing.held_bytes hB hopen hwindow
    have hlen := length_echoFrame_le S.range L.echoer.seed (L.echoer.echoSeq + 1) now
    exact post_fails hopen (by omega) hpost hdead
  · apply hroom
    exact Nat.le_trans (hgoing.ring_bytes hB hmissing hop) hring

/-- With two echoes missing the window is closed; it opens again for the third, whose answer is
about to be put into the ring. -/
theorem echo_window_three : ∃ L M,
    runIf oneSlot.step (fun a L => decide (Windowed 2 a L)) twoEchoes
      (Circuit.start 7 7 {} {} oneAccepted) = some L ∧ ¬Windowed 2 (.echo 6 (.wrote 28)) L ∧
    runIf oneSlot.step (fun a L => decide (Windowed 2 a L)) thirdEcho L = some M ∧
    M.echoer.echoSent = 3 ∧ M.echoer.echoSent ≤ M.echoer.local_.echoRecv + 2 ∧
    (Output.mtRing.enqueue (M.out.conns 0).sendQ (paddedEcho 3 6)).1 = 28 := by
  have hrun : ((runIf oneSlot.step (fun a L => decide (Windowed 2 a L)) twoEchoes
      (Circuit.start 7 7 {} {} oneAccepted)).bind fun L =>
      (runIf oneSlot.step (fun a L => decide (Windowed 2 a L)) thirdEcho L).map fun M =>
        (decide (Windowed 2 (.echo 6 (.wrote 28)) L), M.echoer.echoSent, M.sessionOp oneSlot)) =
      some (false, 3, some (.send (paddedEcho 3 6))) := by decide +kernel
  obtain ⟨L, hL, hrest⟩ := Option.bind_eq_some_iff.mp hrun
  obtain ⟨M, hM, hproj⟩ := Option.map_eq_some_iff.mp hrest
  simp only [Prod.mk.injEq, decide_eq_false_iff_not] at hproj
  obtain ⟨hclosed, hsent, hop⟩ := hproj
  have haccept : Output.step Output.mtRing (.accept 0 0 5 true) (.init Output.mtRing 1 {}) =
      some oneAccepted := rfl
  have hfresh : Reach (Output.step oneSlot.sendRing) Any (.init oneSlot.sendRing 1 {})
      (.init Output.mtRing 1 {}) := .refl
  have hroom : ∀ q m, (oneSlot.sendRing.content q).length + m.length ≤ 16383 →
      (oneSlot.sendRing.enqueue q m).1 = m.length := by
    intro q m hle
    exact congrArg Prod.fst (if_pos hle)
  have hreach : Reach oneSlot.step (Windowed 2) (Circuit.start 7 7 {} {} oneAccepted) M :=
    (reach_of_runIf (fun _ _ h => of_decide_eq_true h) hL).trans
      (reach_of_runIf (fun _ _ h => of_decide_eq_true h) hM)
  obtain ⟨hwindow, -, htaken⟩ := echo_window (S := oneSlot) (W := 2) stRing_fifo Output.mtRing_fifo
    hroom (by decide) (by decide) rfl hfresh haccept hreach
  have hlen : (paddedEcho 3 6).length = 28 := by decide +kernel
  exact ⟨L, M, hL, hclosed, hM, hsent, hwindow, (htaken _ hop).trans hlen⟩

end BeltServer
