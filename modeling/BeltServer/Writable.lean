import BeltServer.Lib.Runs
import Mathlib.Data.List.Basic

/-!
# The load generator waits for writability

The sending side of a client of the load generator that is not an attacker: its socket, what
`epoll` waits for, the bytes held back and the flag that shadows the registration. Calls of
`epoll_ctl` succeed.
-/

namespace BeltServer.Dummy

set_option autoImplicit false

open Runs

inductive CState where
  | idle
  | connecting
  | joining
  | active
  | dead
  deriving DecidableEq

structure Client where
  fd : Int := -1
  state : CState := .idle
  pend : List UInt8 := []
  wantWrite : Bool := false
  /-- `EPOLLOUT` is in the registered mask; the other bits of the mask never change. -/
  epollOut : Bool := false
  deriving DecidableEq

inductive Written where
  | wrote (n : Nat)
  | again
  | intr
  | failed
  deriving DecidableEq

/-- What `OnReadable` does to the rest of the client. -/
inductive ReadOutcome where
  | kept
  | joined
  | killed
  deriving DecidableEq

structure Event where
  /-- One of `EPOLLERR`, `EPOLLHUP` and `EPOLLRDHUP`. -/
  broken : Bool := false
  out : Bool := false
  readable : Bool := false
  /-- `SO_ERROR` after a connect. -/
  err : Bool := false
  /-- The `write` of the join message. -/
  join : Written := .again
  /-- The calls of `write` in `FlushPend`. -/
  flushes : List Written := []
  outcome : ReadOutcome := .kept
  deriving DecidableEq

def kPendMax : Nat := 4096

def joinBytes : List UInt8 := [6, 0, 10, 0, 1, 0]

namespace Client

variable (c : Client)

def kill : Client :=
  if c.state = .dead then c else { c with fd := -1, epollOut := false, state := .dead }

/-- `StartConnect`; `socket` is none when it fails, and `connected` tells whether `connect`
succeeds or is in progress. -/
def startConnect (socket : Option Nat) (connected : Bool) : Client :=
  match socket with
  | none => { c with fd := -1, state := .dead }
  | some fd =>
    if connected then { c with fd := fd, state := .connecting, pend := [], epollOut := true }
    else { c with fd := -1, state := .dead }

def updateWrite (want : Bool) : Client :=
  if c.wantWrite = want ∨ c.fd < 0 then c else { c with epollOut := want, wantWrite := want }

/-- What `SendBytes` does after a `write` of `n` bytes. -/
def sent (data : List UInt8) (n : Nat) : Client :=
  if n < data.length then { c with pend := c.pend ++ data.drop n, wantWrite := false } else c

def sendBytes (data : List UInt8) (w : Written) : Option Client :=
  if c.pend ≠ [] then
    if c.pend.length + data.length > kPendMax then some c.kill
    else some { c with pend := c.pend ++ data }
  else
    match w with
    | .wrote n => if n ≤ data.length then some (c.sent data n) else none
    | .again => some (c.sent data 0)
    | .intr => some (c.sent data 0)
    | .failed => some c.kill

/-- `FlushPend`; undefined when the loop makes more calls than there are results. -/
def flushPend : List Written → Client → Option Client
  | [], c => if c.pend = [] then some c else none
  | w :: ws, c =>
    if c.pend = [] then some c
    else
      match w with
      | .wrote n =>
        if 0 < n ∧ n ≤ c.pend.length then flushPend ws { c with pend := c.pend.drop n } else none
      | .again => some c
      | .intr => flushPend ws c
      | .failed => some c.kill

def onReadable : ReadOutcome → Client
  | .kept => c
  | .joined => if c.state = .joining then { c with state := .active } else c
  | .killed => c.kill

def completed (echoMode : Bool) (ev : Event) : Option Client :=
  if ev.err then some c.kill
  else if echoMode then some ({ c with state := .active }.updateWrite (c.pend ≠ []))
  else
    (c.sendBytes joinBytes ev.join).map fun c =>
      { c with state := .joining }.updateWrite (c.pend ≠ [])

/-- The branch of `OnEvent` for `EPOLLOUT`. -/
def onWritable (ev : Event) : Option Client :=
  if ev.out then
    (flushPend ev.flushes c).map fun c => if c.pend = [] then c.updateWrite false else c
  else some c

def onEvent (echoMode : Bool) (ev : Event) : Option Client :=
  if c.state = .dead ∨ c.fd < 0 then some c
  else if ev.broken then some c.kill
  else if c.state = .connecting ∧ ev.out = true then c.completed echoMode ev
  else
    (c.onWritable ev).map fun c => if ev.readable then c.onReadable ev.outcome else c

/-- A message from `Loop` or `SendEcho`. -/
def post (data : List UInt8) (w : Written) : Option Client :=
  (c.sendBytes data w).map fun c =>
    if c.state = .dead then c else if c.pend ≠ [] then c.updateWrite true else c

end Client

inductive Act where
  | connect (socket : Option Nat) (connected : Bool)
  | event (ev : Event)
  | post (data : List UInt8) (w : Written)
  | churn

/-- One operation from its start to its end. -/
def step (echoMode : Bool) : Act → Client → Option Client
  | .connect socket connected, c =>
    if c.state = .idle ∨ c.state = .dead then some (c.startConnect socket connected) else none
  | .event ev, c => c.onEvent echoMode ev
  | .post data w, c => if c.state = .active then c.post data w else none
  | .churn, c => if c.state = .active then some c.kill else none

/-- Once connected, an open socket waits for writability exactly when the flag says so and
exactly when there is something to write. -/
def Settled (c : Client) : Prop :=
  0 ≤ c.fd → c.state ≠ .connecting →
    (c.epollOut = true ↔ c.wantWrite = true) ∧ (c.epollOut = true ↔ c.pend ≠ [])

/-- The connect completes while the flag is down, and nothing has to wait: there is no join
message, or it is written whole. -/
def Unshadowed (echoMode : Bool) : Act → Client → Prop
  | .event ev, c =>
    (c.state = .connecting ∧ 0 ≤ c.fd) ∧ (ev.broken = false ∧ ev.out = true ∧ ev.err = false) ∧
      c.wantWrite = false ∧ (echoMode = true ∨ ev.join = .wrote joinBytes.length)
  | _, _ => False

section Parts

variable {c d : Client} {echoMode : Bool}

theorem kill_closed (h : c.state ≠ .dead) : c.kill.fd < 0 := by
  unfold Client.kill
  rw [if_neg h]
  exact (by decide : (-1 : Int) < 0)

theorem kill_dead : c.kill.state = .dead := by
  unfold Client.kill
  split
  · next h => exact h
  · rfl

theorem updateWrite_same (want : Bool) :
    (c.updateWrite want).state = c.state ∧ (c.updateWrite want).fd = c.fd := by
  unfold Client.updateWrite
  split
  · exact ⟨rfl, rfl⟩
  · exact ⟨rfl, rfl⟩

theorem settled_closed (h : c.fd < 0) : Settled c := fun hfd => absurd hfd (Int.not_le.mpr h)

theorem settled_kill (h : Settled c) : Settled c.kill := by
  unfold Client.kill
  split
  · exact h
  · apply settled_closed
    exact (by decide : (-1 : Int) < 0)

/-- The registration is brought in line with what is held back. -/
theorem settled_updateWrite {want : Bool} (hneed : want = true ↔ c.pend ≠ [])
    (hsame : 0 ≤ c.fd → c.wantWrite = want → c.epollOut = want) : Settled (c.updateWrite want) := by
  intro hfd _
  unfold Client.updateWrite at hfd ⊢
  split
  · next h =>
    rw [if_pos h] at hfd
    rcases h with heq | hclosed
    · rw [hsame hfd heq, heq]
      exact ⟨Iff.rfl, hneed⟩
    · omega
  · exact ⟨Iff.rfl, hneed⟩

/-- A part of a message that stays behind takes the flag down, so that the next
`UpdateWrite` registers it. -/
theorem sent_cases (data : List UInt8) (n : Nat) (hpend : c.pend = []) :
    (n ≥ data.length ∧ c.sent data n = c) ∨
    (n < data.length ∧ (c.sent data n).pend ≠ [] ∧ (c.sent data n).wantWrite = false) := by
  unfold Client.sent
  split
  · next h =>
    refine .inr ⟨h, ?_, rfl⟩
    dsimp only
    rw [hpend, List.nil_append]
    intro hnil
    have hlen := congrArg List.length hnil
    rw [List.length_drop, List.length_nil] at hlen
    omega
  · next h => exact .inl ⟨by omega, rfl⟩

/-- What `SendBytes` can do: kill, hold everything back behind what is held back, write the
whole message, or hold back a part of it with the flag down. -/
theorem sendBytes_cases {data : List UInt8} {w : Written} (h : c.sendBytes data w = some d) :
    d = c.kill ∨ (c.pend ≠ [] ∧ d = { c with pend := c.pend ++ data }) ∨
    (c.pend = [] ∧ (w = .wrote data.length ∨ data = []) ∧ d = c) ∨
    (c.pend = [] ∧ d.pend ≠ [] ∧ d.wantWrite = false ∧ d.fd = c.fd ∧ d.state = c.state) := by
  have hsent (n : Nat) : (c.sent data n).fd = c.fd ∧ (c.sent data n).state = c.state := by
    unfold Client.sent
    split
    · exact ⟨rfl, rfl⟩
    · exact ⟨rfl, rfl⟩
  unfold Client.sendBytes at h
  split at h
  · next hpend =>
    split at h
    · cases h
      exact .inl rfl
    · cases h
      exact .inr (.inl ⟨hpend, rfl⟩)
  · next hpend =>
    rw [not_not] at hpend
    have hpart (n : Nat) (hfull : n ≥ data.length → w = .wrote data.length ∨ data = [])
        (hd : c.sent data n = d) :
        (c.pend = [] ∧ (w = .wrote data.length ∨ data = []) ∧ d = c) ∨
        (c.pend = [] ∧ d.pend ≠ [] ∧ d.wantWrite = false ∧ d.fd = c.fd ∧ d.state = c.state) := by
      subst hd
      rcases sent_cases data n hpend with ⟨hn, heq⟩ | ⟨_, hrest, hflag⟩
      · exact .inl ⟨hpend, hfull hn, heq⟩
      · exact .inr ⟨hpend, hrest, hflag, hsent n⟩
    cases w with
    | wrote n =>
      simp only [Option.ite_none_right_eq_some, Option.some.injEq] at h
      refine .inr (.inr (hpart n (fun hn => .inl ?_) h.2))
      rw [Nat.le_antisymm h.1 hn]
    | again =>
      refine .inr (.inr (hpart 0 (fun hn => .inr ?_) (Option.some.inj h)))
      exact List.length_eq_zero_iff.mp (by omega)
    | intr =>
      refine .inr (.inr (hpart 0 (fun hn => .inr ?_) (Option.some.inj h)))
      exact List.length_eq_zero_iff.mp (by omega)
    | failed =>
      cases h
      exact .inl rfl

/-- `FlushPend` writes from the front of what is held back, or kills. -/
theorem flushPend_cases {ws : List Written} (hopen : c.state ≠ .dead)
    (h : c.flushPend ws = some d) :
    (∃ n, d = { c with pend := c.pend.drop n }) ∨ (d.fd < 0 ∧ d.state = .dead) := by
  induction ws generalizing c with
  | nil =>
    simp only [Client.flushPend, Option.ite_none_right_eq_some, Option.some.injEq] at h
    exact .inl ⟨0, h.2.symm⟩
  | cons w ws ih =>
    unfold Client.flushPend at h
    split at h
    · cases h
      exact .inl ⟨0, rfl⟩
    · cases w with
      | wrote n =>
        simp only [Option.ite_none_right_eq_some] at h
        rcases ih (c := { c with pend := c.pend.drop n }) hopen h.2 with ⟨m, hd⟩ | hclosed
        · refine .inl ⟨n + m, ?_⟩
          rw [hd]
          dsimp only
          rw [List.drop_drop]
        · exact .inr hclosed
      | again =>
        cases h
        exact .inl ⟨0, rfl⟩
      | intr => exact ih hopen h
      | failed =>
        cases h
        exact .inr ⟨kill_closed hopen, kill_dead⟩

theorem settled_post {data : List UInt8} {w : Written} (hs : Settled c) (hactive : c.state = .active)
    (h : c.post data w = some d) : Settled d := by
  obtain ⟨e, hsend, hd⟩ := Option.map_eq_some_iff.mp h
  have hopen : c.state ≠ .dead := by
    rw [hactive]
    exact nofun
  rcases sendBytes_cases hsend with rfl | ⟨hpend, rfl⟩ | ⟨hpend, _, rfl⟩ |
      ⟨hpend, hrest, hflag, hfd, hstate⟩
  · rw [if_pos kill_dead] at hd
    exact hd ▸ settled_kill hs
  · -- the flag was up and stays up
    have hmore : c.pend ++ data ≠ [] := fun hnil => hpend (List.append_eq_nil_iff.mp hnil).1
    rw [if_neg hopen, if_pos hmore] at hd
    subst hd
    refine settled_updateWrite ⟨fun _ => hmore, fun _ => rfl⟩ fun hfd _ => ?_
    exact (hs hfd (by rw [hactive]; exact nofun)).2.mpr hpend
  · rw [if_neg hopen, if_neg (not_not.mpr hpend)] at hd
    exact hd ▸ hs
  · rw [if_neg (hstate ▸ hopen), if_pos hrest] at hd
    subst hd
    exact settled_updateWrite ⟨fun _ => hrest, fun _ => rfl⟩ fun _ heq => by
      rw [hflag] at heq
      cases heq

theorem settled_onReadable (hs : Settled c) (hstate : c.state ≠ .connecting)
    (o : ReadOutcome) : Settled (c.onReadable o) := by
  cases o with
  | kept => exact hs
  | joined =>
    unfold Client.onReadable
    dsimp only
    split
    · exact fun hfd _ => hs hfd hstate
    · exact hs
  | killed => exact settled_kill hs

theorem onWritable_state {ev : Event} (hopen : c.state ≠ .dead) (hstate : c.state ≠ .connecting)
    (h : c.onWritable ev = some d) : d.state ≠ .connecting := by
  unfold Client.onWritable at h
  split at h
  · obtain ⟨e, hflush, hd⟩ := Option.map_eq_some_iff.mp h
    have hafter : e.state ≠ .connecting := by
      rcases flushPend_cases hopen hflush with ⟨n, rfl⟩ | ⟨_, hdead⟩
      · exact hstate
      · rw [hdead]
        exact nofun
    split at hd
    · rw [← hd, (updateWrite_same _).1]
      exact hafter
    · exact hd ▸ hafter
  · exact Option.some.inj h ▸ hstate

theorem settled_onWritable {ev : Event} (hs : Settled c) (hopen : c.state ≠ .dead)
    (hstate : c.state ≠ .connecting) (h : c.onWritable ev = some d) : Settled d := by
  unfold Client.onWritable at h
  split at h
  · obtain ⟨e, hflush, hd⟩ := Option.map_eq_some_iff.mp h
    rcases flushPend_cases hopen hflush with ⟨n, rfl⟩ | ⟨hclosed, _⟩
    · split at hd
      · next hempty =>
        subst hd
        refine settled_updateWrite ⟨nofun, fun hne => absurd hempty hne⟩ fun hfd heq => ?_
        have hdown : c.wantWrite = false := heq
        rw [← Bool.not_eq_true]
        intro hout
        have hup := (hs hfd hstate).1.mp hout
        rw [hdown] at hup
        cases hup
      · next hrest =>
        subst hd
        refine fun hfd _ => ⟨(hs hfd hstate).1, fun _ => hrest, fun _ => ?_⟩
        apply (hs hfd hstate).2.mpr
        intro hnone
        apply hrest
        dsimp only
        rw [hnone, List.drop_nil]
    · apply settled_closed
      split at hd
      · rw [← hd, (updateWrite_same _).2]
        exact hclosed
      · exact hd ▸ hclosed
  · exact Option.some.inj h ▸ hs

/-- What `OnEvent` can do: nothing, kill, complete the connect, or write and read. -/
theorem onEvent_cases {ev : Event} (h : c.onEvent echoMode ev = some d) :
    d = c ∨ d = c.kill ∨
    ((c.state = .connecting ∧ 0 ≤ c.fd) ∧ (ev.broken = false ∧ ev.out = true) ∧
      c.completed echoMode ev = some d) ∨
    ((c.state = .connecting → ev.out = false) ∧ c.state ≠ .dead ∧
      ∃ e, c.onWritable ev = some e ∧ d = if ev.readable then e.onReadable ev.outcome else e) := by
  unfold Client.onEvent at h
  split at h
  · exact .inl (Option.some.inj h).symm
  next hlive =>
  rw [not_or, Int.not_lt] at hlive
  split at h
  · exact .inr (.inl (Option.some.inj h).symm)
  next hwhole =>
  split at h
  · next hdone =>
    exact .inr (.inr (.inl ⟨⟨hdone.1, hlive.2⟩, ⟨Bool.not_eq_true _ ▸ hwhole, hdone.2⟩, h⟩))
  · next hdone =>
    obtain ⟨e, he, hd⟩ := Option.map_eq_some_iff.mp h
    refine .inr (.inr (.inr ⟨fun hstate => ?_, hlive.1, e, he, hd.symm⟩))
    rw [← Bool.not_eq_true]
    exact fun hout => hdone ⟨hstate, hout⟩

/-- While a client connects, `EPOLLOUT` is registered and nothing is held back. -/
def Armed (c : Client) : Prop := c.state = .connecting → c.epollOut = true ∧ c.pend = []

theorem armed_of_state (h : c.state ≠ .connecting) : Armed c := fun heq => absurd heq h

theorem armed_kill : Armed c.kill := armed_of_state (by rw [kill_dead]; exact nofun)

theorem completed_cases {ev : Event} (harmed : Armed c) (hstate : c.state = .connecting)
    (h : c.completed echoMode ev = some d) :
    d.fd < 0 ∧ d.state ≠ .connecting ∨
    (ev.err = false ∧ (echoMode = true ∨ ev.join = .wrote joinBytes.length) ∧
      ∃ e : Client, e.pend = [] ∧ e.epollOut = true ∧ e.wantWrite = c.wantWrite ∧
        e.state ≠ .connecting ∧ e.fd = c.fd ∧ d = e.updateWrite false) ∨
    (Settled d ∧ d.state ≠ .connecting) := by
  obtain ⟨hout, hpend⟩ := harmed hstate
  have hopen : c.state ≠ .dead := by
    rw [hstate]
    exact nofun
  unfold Client.completed at h
  split at h
  · cases h
    refine .inl ⟨kill_closed hopen, ?_⟩
    rw [kill_dead]
    exact nofun
  next herr =>
  have hfine : ev.err = false := Bool.not_eq_true _ ▸ herr
  split at h
  · next hecho =>
    cases h
    refine .inr (.inl ⟨hfine, .inl hecho, { c with state := .active }, hpend, hout, rfl, nofun,
      rfl, ?_⟩)
    rw [hpend]
    rfl
  · obtain ⟨e, hsend, hd⟩ := Option.map_eq_some_iff.mp h
    rcases sendBytes_cases hsend with rfl | ⟨hheld, _⟩ | ⟨_, hwhole, rfl⟩ |
        ⟨_, hrest, hflag, hfd, _⟩
    · subst hd
      refine .inl ⟨?_, ?_⟩
      · rw [(updateWrite_same _).2]
        exact kill_closed hopen
      · rw [(updateWrite_same _).1]
        exact nofun
    · exact absurd hpend hheld
    · subst hd
      refine .inr (.inl ⟨hfine, .inr (hwhole.resolve_right nofun),
        { e with state := .joining }, hpend, hout, rfl, nofun, rfl, ?_⟩)
      rw [hpend]
      rfl
    · subst hd
      refine .inr (.inr ⟨?_, ?_⟩)
      · refine settled_updateWrite (by simp [hrest]) fun _ heq => ?_
        have hdown : e.wantWrite = decide (e.pend ≠ []) := heq
        rw [hflag, decide_eq_true hrest] at hdown
        cases hdown
      · rw [(updateWrite_same _).1]
        exact nofun

/-- Nothing waits and the flag is down: `UpdateWrite` returns early. -/
theorem completed_unshadowed {ev : Event} (hpend : c.pend = []) (herr : ev.err = false)
    (hflag : c.wantWrite = false) (hwhole : echoMode = true ∨ ev.join = .wrote joinBytes.length) :
    ∃ s, s ≠ .connecting ∧ c.completed echoMode ev = some { c with state := s } := by
  have hearly (s : CState) :
      { c with state := s }.updateWrite (c.pend ≠ []) = { c with state := s } := by
    unfold Client.updateWrite
    rw [if_pos (.inl (by simp [hflag, hpend]))]
  have herr' : ¬ ev.err = true := by
    rw [herr]
    exact nofun
  unfold Client.completed
  rw [if_neg herr']
  split
  · exact ⟨.active, nofun, congrArg some (hearly _)⟩
  · next hgame =>
    have hsend : c.sendBytes joinBytes ev.join = some c := by
      rw [hwhole.resolve_left hgame]
      unfold Client.sendBytes
      rw [if_neg (not_not.mpr hpend)]
      rfl
    refine ⟨.joining, nofun, ?_⟩
    rw [hsend]
    exact congrArg some (hearly _)

theorem onReadable_connecting (hstate : c.state = .connecting) (o : ReadOutcome) :
    c.onReadable o = c ∨ c.onReadable o = c.kill := by
  cases o with
  | kept => exact .inl rfl
  | joined =>
    refine .inl (if_neg ?_)
    rw [hstate]
    exact nofun
  | killed => exact .inr rfl

theorem onReadable_state (o : ReadOutcome) (hstate : c.state ≠ .connecting) :
    (c.onReadable o).state ≠ .connecting := by
  cases o with
  | kept => exact hstate
  | joined =>
    unfold Client.onReadable
    dsimp only
    split
    · exact nofun
    · exact hstate
  | killed =>
    have hdead : (c.onReadable .killed).state = .dead := kill_dead
    rw [hdead]
    exact nofun

theorem onWritable_connecting {ev : Event} (hstate : c.state = .connecting)
    (hdone : c.state = .connecting → ev.out = false) {e : Client}
    (he : c.onWritable ev = some e) {o : ReadOutcome} :
    e = c ∧ (e.onReadable o = c ∨ e.onReadable o = c.kill) := by
  have hsame : e = c := by
    unfold Client.onWritable at he
    rw [hdone hstate] at he
    exact (Option.some.inj he).symm
  subst hsame
  exact ⟨rfl, onReadable_connecting hstate o⟩

theorem armed_event {ev : Event} (harmed : Armed c) (h : c.onEvent echoMode ev = some d) :
    Armed d := by
  rcases onEvent_cases h with rfl | rfl | ⟨hstate, _, hdone⟩ | ⟨hdone, hopen, e, he, rfl⟩
  · exact harmed
  · exact armed_kill
  · apply armed_of_state
    rcases completed_cases harmed hstate.1 hdone with ⟨_, hd⟩ |
        ⟨_, _, e, _, _, _, he, _, rfl⟩ | ⟨_, hd⟩
    · exact hd
    · rw [(updateWrite_same _).1]
      exact he
    · exact hd
  · rcases Decidable.em (c.state = .connecting) with hstate | hstate
    · obtain ⟨rfl, hread⟩ := onWritable_connecting (o := ev.outcome) hstate hdone he
      split
      · rcases hread with heq | heq
        · rw [heq]
          exact harmed
        · rw [heq]
          exact armed_kill
      · exact harmed
    · apply armed_of_state
      have hafter := onWritable_state hopen hstate he
      split
      · exact onReadable_state _ hafter
      · exact hafter

/-- An event keeps the registration in line, save that a connect completes unshadowed. -/
theorem settled_event {ev : Event} (hs : Settled c) (harmed : Armed c)
    (hok : ¬ Unshadowed echoMode (.event ev) c) (h : c.onEvent echoMode ev = some d) :
    Settled d := by
  rcases onEvent_cases h with rfl | rfl | ⟨hstate, hev, hdone⟩ | ⟨hdone, hopen, e, he, rfl⟩
  · exact hs
  · exact settled_kill hs
  · rcases completed_cases harmed hstate.1 hdone with ⟨hclosed, _⟩ |
        ⟨herr, hwhole, e, hpend, _, hflag, _, _, rfl⟩ | ⟨hd, _⟩
    · exact settled_closed hclosed
    · refine settled_updateWrite ⟨nofun, fun hne => absurd hpend hne⟩ fun _ hdown => ?_
      rw [hflag] at hdown
      exact absurd ⟨hstate, ⟨hev.1, hev.2, herr⟩, hdown, hwhole⟩ hok
    · exact hd
  · rcases Decidable.em (c.state = .connecting) with hstate | hstate
    · obtain ⟨rfl, hread⟩ := onWritable_connecting (o := ev.outcome) hstate hdone he
      split
      · rcases hread with heq | heq
        · rw [heq]
          exact hs
        · rw [heq]
          exact settled_kill hs
      · exact hs
    · have hsettled := settled_onWritable hs hopen hstate he
      split
      · exact settled_onReadable hsettled (onWritable_state hopen hstate he) _
      · exact hsettled

theorem settled_connect (socket : Option Nat) (connected : Bool) :
    Settled (c.startConnect socket connected) ∧ Armed (c.startConnect socket connected) := by
  unfold Client.startConnect
  split
  · exact ⟨settled_closed (by decide : (-1 : Int) < 0), armed_of_state nofun⟩
  · split
    · exact ⟨fun _ hne => absurd rfl hne, fun _ => ⟨rfl, rfl⟩⟩
    · exact ⟨settled_closed (by decide : (-1 : Int) < 0), armed_of_state nofun⟩

theorem armed_post {data : List UInt8} {w : Written} (hactive : c.state = .active)
    (h : c.post data w = some d) : Armed d := by
  apply armed_of_state
  obtain ⟨e, hsend, hd⟩ := Option.map_eq_some_iff.mp h
  have hstate : e.state ≠ .connecting := by
    rcases sendBytes_cases hsend with rfl | ⟨_, rfl⟩ | ⟨_, _, rfl⟩ | ⟨_, _, _, _, hsame⟩
    · rw [kill_dead]
      exact nofun
    · exact hactive ▸ nofun
    · exact hactive ▸ nofun
    · rw [hsame, hactive]
      exact nofun
  split at hd
  · exact hd ▸ hstate
  · split at hd
    · rw [← hd, (updateWrite_same _).1]
      exact hstate
    · exact hd ▸ hstate

theorem armed_step {a : Act} (harmed : Armed c) (h : step echoMode a c = some d) : Armed d := by
  cases a with
  | connect socket connected =>
    simp only [step, Option.ite_none_right_eq_some, Option.some.injEq] at h
    exact h.2 ▸ (settled_connect socket connected).2
  | event ev => exact armed_event harmed h
  | post data w =>
    simp only [step, Option.ite_none_right_eq_some] at h
    exact armed_post h.1 h.2
  | churn =>
    simp only [step, Option.ite_none_right_eq_some, Option.some.injEq] at h
    exact h.2 ▸ armed_kill

theorem settled_step {a : Act} (hs : Settled c) (harmed : Armed c)
    (hok : ¬ Unshadowed echoMode a c) (h : step echoMode a c = some d) : Settled d := by
  cases a with
  | connect socket connected =>
    simp only [step, Option.ite_none_right_eq_some, Option.some.injEq] at h
    exact h.2 ▸ (settled_connect socket connected).1
  | event ev => exact settled_event hs harmed hok h
  | post data w =>
    simp only [step, Option.ite_none_right_eq_some] at h
    exact settled_post hs h.1 h.2
  | churn =>
    simp only [step, Option.ite_none_right_eq_some, Option.some.injEq] at h
    exact h.2 ▸ settled_kill hs

/-- A connect that completes unshadowed stays registered for `EPOLLOUT` with nothing to write. -/
theorem unsettled_step {a : Act} (harmed : Armed c) (hlost : Unshadowed echoMode a c)
    (h : step echoMode a c = some d) : ¬ Settled d := by
  cases a with
  | event ev =>
    obtain ⟨⟨hstate, hfd⟩, ⟨hwhole, hout, herr⟩, hflag, hjoin⟩ := hlost
    obtain ⟨hreg, hpend⟩ := harmed hstate
    obtain ⟨s, hs, hdone⟩ := completed_unshadowed hpend herr hflag hjoin
    have hevent : c.onEvent echoMode ev = c.completed echoMode ev := by
      have hlive : ¬ (c.state = .dead ∨ c.fd < 0) := by
        rw [hstate, not_or, Int.not_lt]
        exact ⟨nofun, hfd⟩
      have hbroken : ¬ ev.broken = true := by
        rw [hwhole]
        exact nofun
      unfold Client.onEvent
      rw [if_neg hlive, if_neg hbroken, if_pos ⟨hstate, hout⟩]
    have hd : { c with state := s } = d := by
      have hstep : c.onEvent echoMode ev = some d := h
      rw [hevent, hdone] at hstep
      exact Option.some.inj hstep
    subst hd
    intro hsettled
    exact (hsettled hfd hs).2.mp hreg hpend
  | connect socket connected => exact hlost.elim
  | post data w => exact hlost.elim
  | churn => exact hlost.elim

end Parts

/-! ### Whole runs -/

theorem armed_reach {echoMode : Bool} {ok : Act → Client → Prop} {c : Client}
    (h : Reach (step echoMode) ok {} c) : Armed c :=
  h.invariant (armed_of_state nofun) fun _ _ _ _ harmed _ hstep => armed_step harmed hstep

/-- The registration follows what is held back in every run in which each connect completes
with the flag still up from an earlier connection or with the join message held back in part;
a connect that completes otherwise leaves it wrong. -/
theorem waits_for_writability (echoMode : Bool) :
    (∀ c, Reach (step echoMode) (fun a c => ¬ Unshadowed echoMode a c) {} c → Settled c) ∧
    ∀ a c d, Reach (step echoMode) Any {} c → Unshadowed echoMode a c →
      step echoMode a c = some d → ¬ Settled d :=
  ⟨fun _ h => h.invariant (settled_closed (by decide : (-1 : Int) < 0))
      fun _ _ _ hreach hs hok hstep => settled_step hs (armed_reach hreach) hok hstep,
    fun _ _ _ hreach hlost hstep => unsettled_step (armed_reach hreach) hlost hstep⟩

/-- A join message held back in part brings the registration in line; in echo mode the first
connect leaves it wrong. -/
theorem waits_for_writability_first :
    Settled
      { fd := 3, state := .joining, pend := [10, 0, 1, 0], wantWrite := true, epollOut := true } ∧
    ¬ Settled { fd := 3, state := .active, epollOut := true } := by
  constructor
  · have hconnecting : Reach (step false) (fun a c => ¬ Unshadowed false a c) {}
        { fd := 3, state := .connecting, epollOut := true } := by
      apply Reach.single (a := .connect (some 3) true)
      · exact not_false
      · rfl
    refine (waits_for_writability false).1 _
      (.tail (a := .event { out := true, join := .wrote 2 }) hconnecting ?_ rfl)
    exact fun hlost => absurd hlost.2.2.2 (by decide)
  · refine (waits_for_writability true).2 (.event { out := true })
      { fd := 3, state := .connecting, epollOut := true } _ ?_ ?_ rfl
    · exact .single (a := .connect (some 3) true) trivial rfl
    · exact ⟨⟨rfl, by decide⟩, ⟨rfl, rfl, rfl⟩, rfl, .inl rfl⟩

/-- The first connect of a client, with its join message written whole: `EPOLLOUT` stays
registered with nothing to write, and an event for it changes nothing. -/
theorem registered_while_idle :
    (¬ ∀ echoMode c, Reach (step echoMode) Any {} c → Settled c) ∧
    step false (.event { out := true }) { fd := 3, state := .joining, epollOut := true } =
      some { fd := 3, state := .joining, epollOut := true } := by
  refine ⟨fun hclaim => ?_, rfl⟩
  have hrun : Reach (step false) Any {} { fd := 3, state := .joining, epollOut := true } := by
    apply reach_of_run
    show run (step false) [.connect (some 3) true, .event { out := true, join := .wrote 6 }] {} = _
    rfl
  exact absurd ((hclaim false _ hrun (by decide) nofun).1.mp rfl) nofun

end BeltServer.Dummy
