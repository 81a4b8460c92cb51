import BeltServer.Flow
import BeltServer.Ownership

/-!
# Whose calls write to a socket

The machine of `Output` together with what that layer takes for granted: `Alloc` and `Release`, and
the tests by which a handler and the callback of `Drain` learn that they may go on, one load a step,
for any worker and any slot. As long as a slot has only the worker to which `Alloc` handed it, in its
handlers, its callback and its calls, every run is one of `Output`. Otherwise two workers can be in
`FlushSend` of one session, and the kernel gets the same bytes twice.
-/

namespace BeltServer

set_option autoImplicit false

namespace Outflow

open Runs

/-! ### The threads -/

/-- Where a call returns to: to the handler of an event, at one of its looks at `dead`, or to
`Drain` at word `i` with the bits `v` still to visit. -/
inductive Ret where
  | back (h : Epoll.Handler) (ret : Epoll.Ret)
  | drain (i : Nat) (v : BitVec 64)
  deriving DecidableEq

/-- What an epoll worker does next: in `HandleAccept` after `Alloc`, in a handler, in `Drain`, where
the lowest bit of `v` is the one that the callback was called with, or in a call. `cut` is the
exchange of `dead` at the head of `Disconnect`. -/
inductive Pc where
  | idle
  | opened (idx : Nat) (fd : Int) (ctlOk : Bool)
  | entering (idx : Nat) (ctlOk : Bool)
  | refused (idx : Nat)
  | head (e : Epoll.Event)
  | read (h : Epoll.Handler)
  | parse (h : Epoll.Handler)
  | check (h : Epoll.Handler) (ret : Epoll.Ret)
  | cut (h : Epoll.Handler) (ret : Epoll.Ret)
  | word (i : Nat)
  | bits (i : Nat) (v : BitVec 64)
  | owned (i : Nat) (v : BitVec 64)
  | alive (i : Nat) (v : BitVec 64)
  | call (idx : Nat) (ret : Ret) (op : Output.Op)
  deriving DecidableEq

def Ret.pc : Ret → Pc
  | .back _ .loop => .idle
  | .back h ret => .check h ret
  | .drain i v => .bits i v

/-- Where a call goes on: at its next access, or where it returns to. -/
def resume (idx : Nat) (ret : Ret) (next : Option Output.Op) : Pc := next.elim ret.pc (.call idx ret)

/-- What a turn of the loop of `ReadSession` comes to, the first four, or one of `ParseFrames`: too
few bytes, a size out of range, and of a whole frame that `Dispatch` cuts the session, is silent,
answers, or answers a JOIN that took a seat in a room of game worker `g`. -/
inductive Turn where
  | bytes
  | intr
  | again
  | ended
  | starved
  | malformed
  | reject
  | silent
  | answer (m : List UInt8)
  | join (g : Nat) (m : List UInt8)
  deriving DecidableEq

/-- `holder idx` is the worker to which `Alloc` handed the slot last. -/
structure State (ρ : Type) where
  cap : Nat
  conns : Nat → Output.Conn ρ
  gen : Nat → UInt32 := fun _ => 0
  dirty : DirtyMap
  batch : Nat → List Epoll.Event := fun _ => []
  net : Nat → Pc := fun _ => .idle
  game : Nat → Output.Post := fun _ => .idle
  holder : Nat → Option Nat := fun _ => none

/-- Epoll worker `w` takes a connection, calls `epoll_wait`, handles the next event, makes a turn of
one of its loops, cuts a session of its own at the end, starts `Drain`, or continues; game worker
`g` gives a session back, starts to send to one, or continues. -/
inductive Act where
  | accept (w idx : Nat) (fd : Int) (ctlOk : Bool)
  | wait (w : Nat) (es : List Epoll.Event)
  | handle (w : Nat)
  | turn (w : Nat) (r : Turn)
  | cleanup (w idx : Nat)
  | drain (w : Nat)
  | net (w : Nat) (r : Output.Sys)
  | leave (g idx : Nat)
  | look (g idx : Nat) (m : List UInt8)
  | game (g : Nat)

variable {ρ : Type} (B : OutRing ρ)

/-- A slot from `Alloc`, which leaves `owner` as it was. -/
def alloc (c : Output.Conn ρ) : Output.Conn ρ :=
  { sendQ := B.clear c.sendQ, owner := c.owner, netRef := true }

namespace State

def init (cap : Nat) (q : ρ) : State ρ where
  cap := cap
  conns _ := { sendQ := B.clear q }
  dirty := .init cap

variable (s : State ρ)

def setConn (idx : Nat) (c : Output.Conn ρ) : State ρ :=
  { s with conns := Function.update s.conns idx c }

def setNet (w : Nat) (pc : Pc) : State ρ := { s with net := Function.update s.net w pc }

/-- The end of `Release`: the last reference advances the generation. -/
def unref (idx : Nat) : State ρ :=
  if (s.conns idx).netRef = false ∧ (s.conns idx).seatedBy = none then
    { s with gen := Function.update s.gen idx (s.gen idx + 1) }
  else s

/-- `HandleSession` from the look at `dead` on. -/
def headTurn (w : Nat) (e : Epoll.Event) : State ρ :=
  if (s.conns e.idx).dead then s.setNet w .idle
  else if e.hup then s.setNet w (.cut e.handler .loop)
  else if e.input then s.setNet w (.read e.handler)
  else if e.output then s.setNet w (.call e.idx (.back e.handler .loop) .flush)
  else s.setNet w .idle

/-- One turn of the loop of `ReadSession`, up to `ParseFrames`. -/
def readTurn (w : Nat) (h : Epoll.Handler) : Turn → Option (State ρ)
  | .bytes => some (s.setNet w (.parse h))
  | .intr => some s
  | .again => some (s.setNet w (.check h .handleSession))
  | .ended => some (s.setNet w (.cut h .handleSession))
  | _ => none

/-- One turn of the loop of `ParseFrames`, up to `SendBytes` or `Disconnect`. -/
def parseTurn (w : Nat) (h : Epoll.Handler) : Turn → Option (State ρ)
  | .starved => some (s.setNet w (.check h .readSession))
  | .malformed => some (s.setNet w (.cut h .readSession))
  | .reject => some (s.setNet w (.cut h .parseFrames))
  | .silent => some (s.setNet w (.check h .parseFrames))
  | .answer m => some (s.setNet w (.call h.idx (.back h .parseFrames) (.send m)))
  | .join g m =>
    if (s.conns h.idx).seatedBy = none then
      some ((s.setConn h.idx { s.conns h.idx with seatedBy := some g }).setNet w
        (.call h.idx (.back h .parseFrames) (.send m)))
    else none
  | _ => none

/-- The look at `dead` after a call. -/
def checkTurn (w : Nat) (h : Epoll.Handler) : Epoll.Ret → State ρ
  | .parseFrames =>
    if (s.conns h.idx).dead then s.setNet w (.check h .readSession) else s.setNet w (.parse h)
  | .readSession =>
    if (s.conns h.idx).dead then s.setNet w (.check h .handleSession) else s.setNet w (.read h)
  | .handleSession =>
    if (s.conns h.idx).dead then s.setNet w .idle
    else if h.output then s.setNet w (.call h.idx (.back h .loop) .flush)
    else s.setNet w .idle
  | .loop => s.setNet w .idle

def netStep (w : Nat) (r : Output.Sys) : Option (State ρ) :=
  match s.net w with
  | .idle | .read _ | .parse _ => none
  | .opened idx fd ctlOk =>
    some ((s.setConn idx { s.conns idx with fd }).setNet w (.entering idx ctlOk))
  | .entering idx ctlOk =>
    if ctlOk then some ((s.setConn idx { s.conns idx with owner := w }).setNet w .idle)
    else
      some ((s.setConn idx { s.conns idx with fd := -1, owner := w, dead := true }).setNet w
        (.refused idx))
  | .refused idx =>
    some (((s.setConn idx { s.conns idx with netRef := false }).unref idx).setNet w .idle)
  | .head e => some (s.headTurn w e)
  | .check h ret => some (s.checkTurn w h ret)
  | .cut h ret =>
    if (s.conns h.idx).dead then some (s.setNet w (Ret.back h ret).pc)
    else
      some ((s.setConn h.idx { s.conns h.idx with dead := true }).setNet w
        (.call h.idx (.back h ret) .close))
  | .word i =>
    if i < s.dirty.stride then
      let (v, dirty) := s.dirty.exchange w i
      some ({ s with dirty }.setNet w (.bits i v))
    else some (s.setNet w .idle)
  | .bits i v =>
    if v = 0#64 then some (s.setNet w (.word (i + 1)))
    else
      let idx := i * 64 + BitWord.lowest v
      if idx < s.cap ∧ (s.conns idx).owner = w then some (s.setNet w (.owned i v))
      else some (s.setNet w (.bits i (BitWord.clearLowest v)))
  | .owned i v =>
    if (s.conns (i * 64 + BitWord.lowest v)).dead then
      some (s.setNet w (.bits i (BitWord.clearLowest v)))
    else some (s.setNet w (.alive i v))
  | .alive i v =>
    let idx := i * 64 + BitWord.lowest v
    if 0 ≤ (s.conns idx).fd then
      some (s.setNet w (.call idx (.drain i (BitWord.clearLowest v)) .flush))
    else some (s.setNet w (.bits i (BitWord.clearLowest v)))
  | .call idx ret op =>
    (op.step B r (s.conns idx)).map fun (c, next) =>
      let s := s.setConn idx c
      (if op = .release then s.unref idx else s).setNet w (resume idx ret next)

/-- The game workers are those of `Output`. -/
def gameStep (g : Nat) : Option (State ρ) :=
  let out : Output.State ρ := { cap := s.cap, conns := s.conns, dirty := s.dirty, game := s.game }
  (out.gameStep B g).map fun t => { s with conns := t.conns, dirty := t.dirty, game := t.game }

end State

/-- An event has the tag of a session that is open and whose owner the worker is. -/
def step : Act → State ρ → Option (State ρ)
  | .accept w idx fd ctlOk, s =>
    let c := s.conns idx
    if s.net w = .idle ∧ idx < s.cap ∧ 0 ≤ fd ∧ c.netRef = false ∧ c.seatedBy = none then
      some ({ s.setConn idx (alloc B c) with
        holder := Function.update s.holder idx (some w) }.setNet w (.opened idx fd ctlOk))
    else none
  | .wait w es, s =>
    if s.net w = .idle ∧ s.batch w = [] ∧ ∀ e ∈ es,
        (s.conns e.idx).owner = w ∧ 0 ≤ (s.conns e.idx).fd ∧ s.gen e.idx = e.gen then
      some { s with batch := Function.update s.batch w es }
    else none
  | .handle w, s =>
    if s.net w = .idle then
      match s.batch w with
      | [] => none
      | e :: es =>
        let s := { s with batch := Function.update s.batch w es }
        if e.idx < s.cap ∧ s.gen e.idx = e.gen then some (s.setNet w (.head e)) else some s
    else none
  | .turn w r, s =>
    match s.net w with
    | .read h => s.readTurn w h r
    | .parse h => s.parseTurn w h r
    | _ => none
  | .cleanup w idx, s =>
    let c := s.conns idx
    if s.net w = .idle ∧ s.batch w = [] ∧ c.owner = w ∧ 0 ≤ c.fd then
      some (s.setNet w (.cut ⟨idx, s.gen idx, false⟩ .loop))
    else none
  | .drain w, s =>
    if s.net w = .idle ∧ s.batch w = [] then some (s.setNet w (.word 0)) else none
  | .net w r, s => s.netStep B w r
  | .leave g idx, s =>
    let c := s.conns idx
    if s.game g = .idle ∧ c.seatedBy = some g then
      some ((s.setConn idx { c with seatedBy := none }).unref idx)
    else none
  | .look g idx m, s =>
    let c := s.conns idx
    if s.game g = .idle ∧ c.seatedBy = some g ∧ c.dead = false then
      some { s with game := Function.update s.game g (.enqueue idx c.owner m) }
    else none
  | .game g, s => s.gameStep B g

end Outflow

end BeltServer
