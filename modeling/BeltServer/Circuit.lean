import BeltServer.Deframers
import BeltServer.Echo
import BeltServer.Lane
import BeltServer.Writable

/-!
# The circuit of the echo test

One client of the load generator in echo mode that is no attacker, its connection, and the session
that the server has for it: `SendEcho`, the `write` of the client, `ReadSession` and `Dispatch`,
`SendBytes` with all its threads, and the `read` and the checks of the client. Every party takes its
steps when it likes, and the kernel cuts the bytes as it likes. Of the epoll workers only the owner
of the session is at its slot.
-/

namespace BeltServer

set_option autoImplicit false

open Runs LengthPrefix

/-! ### What a client writes -/

namespace Dummy.Client

/-- The bytes of a message that the `write` in `SendBytes` gives to the kernel. -/
def sendWrote (c : Client) (data : List UInt8) : Written → List UInt8
  | .wrote n => if c.pend = [] then data.take n else []
  | _ => []

/-- The bytes that the calls in `FlushPend` give to the kernel. -/
def flushWrote : List Written → Client → List UInt8
  | [], _ => []
  | w :: ws, c =>
    if c.pend = [] then []
    else
      match w with
      | .wrote n => c.pend.take n ++ flushWrote ws { c with pend := c.pend.drop n }
      | .intr => flushWrote ws c
      | _ => []

/-- Those of an event; a connect that completes in echo mode writes nothing. -/
def eventWrote (c : Client) (ev : Event) : List UInt8 :=
  if c.state = .dead ∨ c.fd < 0 ∨ ev.broken = true then []
  else if c.state = .connecting ∧ ev.out = true then []
  else if ev.out then c.flushWrote ev.flushes
  else []

end Dummy.Client

namespace Dummy

section Books

variable {c d : Client} {data : List UInt8}

/-- What is posted is written or held back, in order, unless the client dies over it; then nothing
of it is written. -/
theorem sendBytes_books {w : Written} (h : c.sendBytes data w = some d) :
    (d.state = .dead ∧ c.sendWrote data w = []) ∨
    (d.state = c.state ∧ c.sendWrote data w ++ d.pend = c.pend ++ data) := by
  unfold Client.sendBytes at h
  split at h
  · next hpend =>
    have hnone : c.sendWrote data w = [] := by
      cases w with
      | wrote n => exact if_neg hpend
      | _ => rfl
    split at h
    · cases h
      exact Or.inl ⟨kill_dead, hnone⟩
    · cases h
      refine Or.inr ⟨rfl, ?_⟩
      rw [hnone]
      rfl
  · next hpend =>
    rw [not_not] at hpend
    -- a part is written and the rest is held back
    have hpart (n : Nat) : (c.sent data n).state = c.state ∧
        data.take n ++ (c.sent data n).pend = c.pend ++ data := by
      unfold Client.sent
      split
      · refine ⟨rfl, ?_⟩
        dsimp only
        rw [hpend, List.nil_append, List.nil_append, List.take_append_drop]
      · refine ⟨rfl, ?_⟩
        rw [hpend, List.append_nil, List.nil_append]
        apply List.take_of_length_le
        omega
    cases w with
    | wrote n =>
      simp only [Option.ite_none_right_eq_some, Option.some.injEq] at h
      obtain ⟨-, rfl⟩ := h
      have hsome : c.sendWrote data (.wrote n) = data.take n := if_pos hpend
      rw [hsome]
      exact Or.inr (hpart n)
    | again =>
      cases h
      exact Or.inr (hpart 0)
    | intr =>
      cases h
      exact Or.inr (hpart 0)
    | failed =>
      cases h
      exact Or.inl ⟨kill_dead, rfl⟩

theorem flushPend_books {ws : List Written} (hopen : c.state ≠ .dead)
    (h : c.flushPend ws = some d) :
    c.flushWrote ws <+: c.pend ∧
    (d.state = .dead ∨ (d.state = c.state ∧ c.flushWrote ws ++ d.pend = c.pend)) := by
  induction ws generalizing c with
  | nil =>
    simp only [Client.flushPend, Option.ite_none_right_eq_some, Option.some.injEq] at h
    obtain ⟨-, rfl⟩ := h
    exact ⟨List.nil_prefix, Or.inr ⟨rfl, rfl⟩⟩
  | cons w ws ih =>
    unfold Client.flushPend at h
    unfold Client.flushWrote
    split at h
    · next hempty =>
      cases h
      rw [if_pos hempty]
      exact ⟨List.nil_prefix, Or.inr ⟨rfl, rfl⟩⟩
    next hpend =>
    rw [if_neg hpend]
    cases w with
    | wrote n =>
      simp only [Option.ite_none_right_eq_some] at h
      obtain ⟨hfirst, hrest⟩ := ih (c := { c with pend := c.pend.drop n }) hopen h.2
      dsimp only
      constructor
      · have htwo := (List.prefix_append_right_inj (c.pend.take n)).mpr hfirst
        rw [List.take_append_drop] at htwo
        exact htwo
      · rcases hrest with hdead | ⟨hstate, hall⟩
        · exact Or.inl hdead
        · refine Or.inr ⟨hstate, ?_⟩
          rw [List.append_assoc, hall, List.take_append_drop]
    | again =>
      cases h
      exact ⟨List.nil_prefix, Or.inr ⟨rfl, rfl⟩⟩
    | intr => exact ih hopen h
    | failed =>
      cases h
      exact ⟨List.nil_prefix, Or.inl kill_dead⟩

@[simp] theorem updateWrite_pend (want : Bool) : (c.updateWrite want).pend = c.pend := by
  unfold Client.updateWrite
  split
  · rfl
  · rfl

/-- The books of one event that ends before `OnReadable`. -/
theorem onEvent_books {ev : Event} (hopen : c.state ≠ .dead)
    (h : c.onEvent true { ev with readable := false } = some d) :
    c.eventWrote ev <+: c.pend ∧
    (d.state = .dead ∨ c.eventWrote ev ++ d.pend = c.pend) := by
  have hquiet (hnone : c.eventWrote ev = []) (hd : d.state = .dead ∨ d.pend = c.pend) :
      c.eventWrote ev <+: c.pend ∧ (d.state = .dead ∨ c.eventWrote ev ++ d.pend = c.pend) := by
    rw [hnone]
    exact ⟨List.nil_prefix, hd⟩
  unfold Client.onEvent at h
  split at h
  · next hshut =>
    cases h
    apply hquiet (if_pos (hshut.elim Or.inl fun hfd => Or.inr (Or.inl hfd)))
    exact Or.inr rfl
  next hlive =>
  split at h
  · next hbroken =>
    cases h
    apply hquiet (if_pos (Or.inr (Or.inr hbroken)))
    exact Or.inl kill_dead
  next hwhole =>
  have hgo : ¬(c.state = .dead ∨ c.fd < 0 ∨ ev.broken = true) := by
    rintro (hdead | hfd | hbroken)
    · exact hlive (Or.inl hdead)
    · exact hlive (Or.inr hfd)
    · exact hwhole hbroken
  split at h
  · next hdone =>
    apply hquiet
    · unfold Client.eventWrote
      rw [if_neg hgo, if_pos hdone]
    · unfold Client.completed at h
      split at h
      · cases h
        exact Or.inl kill_dead
      · rw [if_pos rfl] at h
        cases h
        exact Or.inr (updateWrite_pend _)
  · next hdone =>
    obtain ⟨e, he, hd⟩ := Option.map_eq_some_iff.mp h
    simp only [Bool.false_eq_true, if_false] at hd
    subst hd
    unfold Client.onWritable at he
    unfold Client.eventWrote
    rw [if_neg hgo, if_neg hdone]
    cases hout : ev.out with
    | false =>
      simp only [hout, Bool.false_eq_true, if_false, Option.some.injEq] at he
      subst he
      exact ⟨List.nil_prefix, Or.inr rfl⟩
    | true =>
      simp only [hout, if_true] at he ⊢
      obtain ⟨e', hflush, he'⟩ := Option.map_eq_some_iff.mp he
      obtain ⟨hfirst, hrest⟩ := flushPend_books hopen hflush
      have hsame : e.state = e'.state ∧ e.pend = e'.pend := by
        split at he'
        · subst he'
          exact ⟨(updateWrite_same _).1, updateWrite_pend _⟩
        · subst he'
          exact ⟨rfl, rfl⟩
      refine ⟨hfirst, ?_⟩
      rw [hsame.1, hsame.2]
      exact hrest.imp id fun hall => hall.2

theorem post_books {w : Written} (h : c.post data w = some d) :
    (d.state = .dead ∧ c.sendWrote data w = []) ∨
    (d.state = c.state ∧ c.sendWrote data w ++ d.pend = c.pend ++ data) := by
  obtain ⟨e, hsend, hd⟩ := Option.map_eq_some_iff.mp h
  have hsame : d.state = e.state ∧ d.pend = e.pend := by
    split at hd
    · subst hd
      exact ⟨rfl, rfl⟩
    · split at hd
      · subst hd
        exact ⟨(updateWrite_same _).1, updateWrite_pend _⟩
      · subst hd
        exact ⟨rfl, rfl⟩
  rw [hsame.1, hsame.2]
  exact sendBytes_books hsend

end Books

end Dummy

/-! ### The parties -/

open Dummy

structure Circuit (ρ σ : Type) where
  client : Client
  echoer : Echoer
  reader : DummyReader := {}
  /-- What the client's kernel took, and how much of it has come to the server. -/
  written : List UInt8 := []
  got : Nat := 0
  recv : Reader ρ
  /-- The number of dispatched frames that were answered. -/
  answered : Nat := 0
  out : Output.State σ
  /-- How much of what the server's kernel took has come to the client. -/
  fetched : Nat := 0

/-- The client sends, has an event, reads or gives up; the server reads or answers a frame, and
the threads of the server go on with what they do. -/
inductive CircuitAct where
  | echo (now : Int64) (w : Written)
  | event (ev : Event)
  | read (a : ReadAct) (now : Nat → Int64)
  | churn
  | serve (a : ReadAct)
  | answer (st : Server) (remainUs : UInt32)
  | out (a : Output.Act)

/-- What a run of the circuit fixes: the rings, the options of the load generator, the slot of the
session and its owner. -/
structure Setting (ρ σ : Type) where
  recvRing : ByteRing ρ
  sendRing : OutRing σ
  range : PacketRange
  failFast : Bool
  slot : Nat
  owner : Nat

def frameType (f : List UInt8) : Nat := leNat (bytesAt f 2 2)

/-- The frames whose handling in `ParseFrames` of the load generator kills the client. -/
def closesClient (f : List UInt8) : Bool :=
  decide (frameType f = ECHO.toNat ∧ frameSize f < kEchoMin) ||
    decide (frameType f = S2C_JOIN_FAIL.toNat)

/-- `OnEvent` up to its call of `OnReadable`. -/
def Circuit.onEvent {ρ σ : Type} (L : Circuit ρ σ) (ev : Event) : Option (Circuit ρ σ) :=
  (L.client.onEvent true { ev with readable := false }).map fun c =>
    { L with client := c, written := L.written ++ L.client.eventWrote ev }

namespace Setting

variable {ρ σ : Type} (S : Setting ρ σ)

/-- The switch in `ParseFrames` for one frame, at the time `now`. -/
def onFrame (now : Int64) (f : List UInt8) (e : Echoer) : Echoer :=
  if frameType f = ECHO.toNat then e.onEcho S.range S.failFast now f else e

/-- The frames of one call of `ParseFrames`, each with its own look at the clock. -/
def onFrames : List (List UInt8) → (Nat → Int64) → Echoer → Echoer
  | [], _, e => e
  | f :: fs, now, e => onFrames fs (fun i => now (i + 1)) (S.onFrame (now 0) f e)

variable (L : Circuit ρ σ)

def sendEcho (now : Int64) (w : Written) : Option (Circuit ρ σ) :=
  let frame := echoFrame S.range L.echoer.seed (L.echoer.echoSeq + 1) now
  (L.client.post frame w).map fun c =>
    { L with
      client := c
      echoer := L.echoer.sendEcho S.range now (decide (c.state = .dead))
      written := L.written ++ L.client.sendWrote frame w }

/-- One step of `OnReadable`; `read` returns bytes that have come. -/
def onReadable (a : ReadAct) (now : Nat → Int64) : Option (Circuit ρ σ) :=
  let bs := DummyReader.received a L.reader
  if bs <+: (L.out.conns S.slot).wire.drop L.fetched then
    (DummyReader.step false closesClient a L.reader).map fun t =>
      { L with
        reader := t
        echoer := S.onFrames (t.frames.drop L.reader.frames.length) now L.echoer
        client := if t.killed.isSome then L.client.kill else L.client
        fetched := L.fetched + bs.length }
  else none

def readSession (a : ReadAct) : Option (Circuit ρ σ) :=
  let bs := Reader.received S.recvRing a L.recv
  if bs <+: L.written.drop L.got then
    (Reader.step S.recvRing a L.recv).map fun t => { L with recv := t, got := L.got + bs.length }
  else none

/-- `Dispatch` of the next frame, up to the call of `SendBytes`. -/
def dispatch (st : Server) (remainUs : UInt32) : Option (Circuit ρ σ) :=
  match L.recv.frames[L.answered]? with
  | none => none
  | some f =>
    match st.dispatch S.slot remainUs (.decode f) with
    | .send m =>
      (Output.step S.sendRing (.send S.owner S.slot m.bytes) L.out).map fun out =>
        { L with out, answered := L.answered + 1 }
    | _ => none

/-- The step belongs to this session and is one of the others of the circuit, or it hands the slot
to another connection. -/
def elsewhere : Output.Act → Bool
  | .send _ idx _ => decide (idx ≠ S.slot)
  | .accept _ idx _ _ => decide (idx ≠ S.slot)
  | .join _ idx => decide (idx ≠ S.slot)
  | _ => true

/-- A thread of the load generator is in one call at a time, and so is the owner of the session: it
reads again when the frames of the last `read` are answered. -/
def step : CircuitAct → Circuit ρ σ → Option (Circuit ρ σ)
  | .echo now w, L =>
    if L.client.state = .active ∧ L.reader.reading = false then S.sendEcho L now w else none
  | .event ev, L => if L.reader.reading = false then L.onEvent ev else none
  | .read a now, L =>
    if L.client.state ≠ .dead ∧ 0 ≤ L.client.fd then S.onReadable L a now else none
  | .churn, L =>
    if L.client.state = .active ∧ L.reader.reading = false then
      some { L with client := L.client.kill }
    else none
  | .serve a, L =>
    if L.out.handles S.owner S.slot = true ∧ L.answered = L.recv.frames.length then
      S.readSession L a
    else none
  | .answer st remainUs, L => S.dispatch L st remainUs
  | .out a, L =>
    if S.elsewhere a then (Output.step S.sendRing a L.out).map fun out => { L with out } else none

end Setting

/-- The client after `StartConnect`, and the session after `HandleAccept`. -/
def Circuit.start {ρ σ : Type} (fd : Nat) (seed : UInt64) (q : ρ) (c : Client)
    (out : Output.State σ) : Circuit ρ σ where
  client := c.startConnect (some fd) true
  echoer := { seed }
  recv := { ring := q }
  out := out

end BeltServer
