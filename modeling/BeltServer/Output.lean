import BeltServer.Lib.BitWord
import BeltServer.Lib.Runs
import Mathlib.Logic.Function.Basic

/-!
# The way out of a session

`SendBytes`, `FlushSend`, `UpdateWriteInterest` and the loop over the dirty map, cut at
every access to what two threads share: the send ring, the words of the map, the flag `dead`. The
rings are only known by their contract. A session is at most in one room, so at most one game
worker puts messages into its ring, next to its owner. This layer takes for granted that of the
epoll workers only the owner of an open session is in a handler, a callback or a call for it, so
that a handler starts with one look at the session.
-/

namespace BeltServer

set_option autoImplicit false

/-! ### The dirty map -/

/-- `DirtyMap`: one row of words for each epoll worker, one bit for each session. -/
structure DirtyMap where
  stride : Nat
  words : Nat → BitVec 64 := fun _ => 0#64

namespace DirtyMap

def init (maxSessions : Nat) : DirtyMap where
  stride := (maxSessions + 63) / 64

def mark (d : DirtyMap) (worker sessIdx : Nat) : DirtyMap :=
  let k := worker * d.stride + sessIdx / 64
  { d with words := Function.update d.words k (BitWord.set (d.words k) (sessIdx % 64)) }

/-- Word `w` of a row is taken and replaced by 0. -/
def exchange (d : DirtyMap) (worker w : Nat) : BitVec 64 × DirtyMap :=
  let k := worker * d.stride + w
  (d.words k, { d with words := Function.update d.words k 0#64 })

/-- The bit of a session in the row of a worker. -/
def marked (d : DirtyMap) (worker sessIdx : Nat) : Bool :=
  (d.words (worker * d.stride + sessIdx / 64)).getLsbD (sessIdx % 64)

variable {d : DirtyMap} {worker w' i j w : Nat}

/-- Rows do not overlap. -/
theorem word_inj {stride a b : Nat} (ha : a < stride) (hb : b < stride)
    (h : worker * stride + a = w' * stride + b) : worker = w' ∧ a = b := by
  have hworker : worker = w' := by
    have hdiv := congrArg (· / stride) h
    simp only [Nat.mul_comm _ stride] at hdiv
    rw [Nat.mul_add_div (by omega), Nat.mul_add_div (by omega), Nat.div_eq_of_lt ha,
      Nat.div_eq_of_lt hb] at hdiv
    omega
  subst hworker
  exact ⟨rfl, by omega⟩

theorem marked_mark (hi : i < 64 * d.stride) (hj : j < 64 * d.stride) :
    (d.mark worker i).marked w' j = (d.marked w' j || decide (w' = worker ∧ j = i)) := by
  unfold marked mark
  dsimp only
  by_cases hk : w' * d.stride + j / 64 = worker * d.stride + i / 64
  · obtain ⟨hw, hdiv⟩ := word_inj (by omega) (by omega) hk
    have hbit : j % 64 = i % 64 ↔ j = i := by omega
    rw [hk, Function.update_self, BitWord.getLsbD_set (by omega)]
    simp [hw, hbit]
  · have hne : ¬(w' = worker ∧ j = i) := by
      rintro ⟨rfl, rfl⟩
      exact hk rfl
    rw [Function.update_of_ne hk]
    simp [hne]

theorem exchange_fst (hj : j / 64 = w) :
    (d.exchange worker w).1.getLsbD (j % 64) = d.marked worker j := by
  rw [← hj]
  rfl

theorem marked_exchange (hw : w < d.stride) (hj : j < 64 * d.stride) :
    (d.exchange worker w).2.marked w' j =
      (d.marked w' j && !decide (w' = worker ∧ j / 64 = w)) := by
  unfold marked exchange
  dsimp only
  by_cases hk : w' * d.stride + j / 64 = worker * d.stride + w
  · obtain ⟨hrow, hdiv⟩ := word_inj (by omega) hw hk
    rw [hk, Function.update_self]
    simp [hrow, hdiv]
  · have hne : ¬(w' = worker ∧ j / 64 = w) := by
      rintro ⟨rfl, rfl⟩
      exact hk rfl
    rw [Function.update_of_ne hk]
    simp [hne]

end DirtyMap

/-! ### The send ring -/

/-- The calls on a `CRingBufferMT`, over the type of its states. -/
structure OutRing (ρ : Type) where
  /-- The bytes in the ring, oldest first. -/
  content : ρ → List UInt8
  enqueue : ρ → List UInt8 → Nat × ρ
  /-- `dataSize`, and the `directReadSize` bytes at `readPtr`. -/
  getSendInfo : ρ → Nat × List UInt8
  consume : ρ → Nat → ρ
  clear : ρ → ρ

/-- A byte FIFO with an `Enqueue` that takes all or nothing; `GetSendInfo` exposes a prefix of the
content, and `Consume` removes one. -/
structure OutRing.Fifo {ρ : Type} (B : OutRing ρ) : Prop where
  enqueue : ∀ q m,
    (B.enqueue q m).1 = m.length ∧ B.content (B.enqueue q m).2 = B.content q ++ m ∨
    (B.enqueue q m).1 = 0 ∧ B.content (B.enqueue q m).2 = B.content q
  size : ∀ q, (B.getSendInfo q).1 = (B.content q).length
  direct : ∀ q, (B.getSendInfo q).2 <+: B.content q
  consume : ∀ q n, n ≤ (B.content q).length → B.content (B.consume q n) = (B.content q).drop n
  clear : ∀ q, B.content (B.clear q) = []

namespace Output

/-! ### One session -/

/-- The sending side of a session slot. -/
structure Conn (ρ : Type) where
  sendQ : ρ
  dead : Bool := false
  fd : Int := -1
  owner : Nat := 0
  wantWrite : Bool := false
  /-- `EPOLLOUT` is in the mask registered for the socket. -/
  epollOut : Bool := false
  /-- The reference of the owner. -/
  netRef : Bool := false
  /-- The game worker with the session in one of its rooms; it holds a reference too. -/
  seatedBy : Option Nat := none
  /-- The messages whose `Enqueue` succeeded since the slot was handed out. -/
  log : List (List UInt8) := []
  /-- The bytes the kernel took since then. -/
  wire : List UInt8 := []

/-- `errno` after a `write` that returned no bytes. -/
inductive Errno where
  | again
  | intr
  | other
  deriving DecidableEq

/-- What a system call returns: the result of `write`, `errno`, and the success of `epoll_ctl`. -/
structure Sys where
  n : Int := 0
  errno : Errno := .again
  ctlOk : Bool := true
  deriving DecidableEq

/-- The next access of a worker inside `SendBytes`, `FlushSend`, `UpdateWriteInterest` or
`Disconnect`. -/
inductive Op where
  | send (m : List UInt8)
  | flush
  | write (buf : List UInt8)
  | consume (n : Nat) (short : Bool)
  | interest (want : Bool)
  | store (want : Bool)
  | cut
  | close
  | release
  deriving DecidableEq

variable {ρ : Type} (B : OutRing ρ)

/-- One access of the owner, and the next one of the call unless it returns. -/
def Op.step (r : Sys) (c : Conn ρ) : Op → Option (Conn ρ × Option Op)
  | .send m =>
    let (n, sendQ) := B.enqueue c.sendQ m
    if n = 0 then some ({ c with sendQ }, some .cut)
    else some ({ c with sendQ, log := c.log ++ [m] }, some .flush)
  | .flush =>
    let (dataSize, buf) := B.getSendInfo c.sendQ
    if dataSize = 0 then some (c, if c.wantWrite then some (.interest false) else none)
    else some (c, some (.write buf))
  | .write buf =>
    -- the kernel takes no more than it is given
    if buf.length < r.n then none
    else if 0 < r.n then
      some ({ c with wire := c.wire ++ buf.take r.n.toNat },
        some (.consume r.n.toNat (decide (r.n < buf.length))))
    else
      match r.errno with
      | .again => some (c, some (.interest true))
      | .intr => some (c, some .flush)
      | .other => some (c, some .cut)
  | .consume n short =>
    some ({ c with sendQ := B.consume c.sendQ n }, some (if short then .interest true else .flush))
  | .interest want =>
    if c.wantWrite = want then some (c, none)
    else if r.ctlOk then some ({ c with epollOut := want }, some (.store want))
    else some (c, none)
  | .store want => some ({ c with wantWrite := want }, none)
  | .cut => if c.dead then some (c, none) else some ({ c with dead := true }, some .close)
  | .close => some ({ c with fd := -1, epollOut := false }, some .release)
  | .release => some ({ c with netRef := false }, none)

def Conn.opened (c : Conn ρ) (w : Nat) (fd : Int) : Conn ρ :=
  { sendQ := B.clear c.sendQ, fd, owner := w, netRef := true }

/-- A slot whose socket could not be registered, after its `Release`. -/
def Conn.failed (c : Conn ρ) (w : Nat) : Conn ρ :=
  { sendQ := B.clear c.sendQ, dead := true, owner := w }

/-- The test of `Drain`'s callback. -/
def Conn.flushable (c : Conn ρ) (w : Nat) : Bool :=
  decide (c.owner = w) && !c.dead && decide (0 ≤ c.fd)

/-! ### All threads -/

/-- Where a call returns to: to the handler of an event, or to `Drain` at word `w` with the bits
`v` still to visit. -/
inductive Ret where
  | handler
  | drain (w : Nat) (v : BitVec 64)
  deriving DecidableEq

inductive Pc where
  | idle
  | word (w : Nat)
  | bits (w : Nat) (v : BitVec 64)
  | call (idx : Nat) (ret : Ret) (op : Op)
  deriving DecidableEq

def Ret.pc : Ret → Pc
  | .handler => .idle
  | .drain w v => .bits w v

/-- What a game worker does next: between its look at `dead` and the `Enqueue`, or between that
and `Mark`. `w` is the `sessOwner` of the member. -/
inductive Post where
  | idle
  | enqueue (idx w : Nat) (m : List UInt8)
  | mark (idx w : Nat)
  deriving DecidableEq

structure State (ρ : Type) where
  cap : Nat
  conns : Nat → Conn ρ
  dirty : DirtyMap
  net : Nat → Pc := fun _ => .idle
  game : Nat → Post := fun _ => .idle

/-- Epoll worker `w` takes a connection, starts a call for one of its sessions or `Drain`, or
continues; a session joins a room of game worker `g` or leaves it, `g` starts to send to one, or
continues. -/
inductive Act where
  | accept (w idx : Nat) (fd : Int) (ctlOk : Bool)
  | send (w idx : Nat) (m : List UInt8)
  | epollOut (w idx : Nat)
  | disconnect (w idx : Nat)
  | drain (w : Nat)
  | net (w : Nat) (r : Sys)
  | join (g idx : Nat)
  | leave (g idx : Nat)
  | look (g idx : Nat) (m : List UInt8)
  | game (g : Nat)

namespace State

def init (cap : Nat) (q : ρ) : State ρ where
  cap := cap
  conns _ := { sendQ := B.clear q }
  dirty := .init cap

variable (s : State ρ)

def setConn (idx : Nat) (c : Conn ρ) : State ρ :=
  { s with conns := Function.update s.conns idx c }

def setNet (w : Nat) (pc : Pc) : State ρ := { s with net := Function.update s.net w pc }

def setGame (g : Nat) (pc : Post) : State ρ := { s with game := Function.update s.game g pc }

/-- Worker `w` is in a handler of its own session, which is not cut. -/
def handles (w idx : Nat) : Bool :=
  decide (s.net w = .idle) && decide ((s.conns idx).owner = w) && (s.conns idx).netRef &&
    !(s.conns idx).dead

def netStep (w : Nat) (r : Sys) : Option (State ρ) :=
  match s.net w with
  | .idle => none
  | .word i =>
    if i < s.dirty.stride then
      let (v, dirty) := s.dirty.exchange w i
      some ({ s with dirty }.setNet w (.bits i v))
    else some (s.setNet w .idle)
  | .bits i v =>
    if v = 0#64 then some (s.setNet w (.word (i + 1)))
    else
      let idx := i * 64 + BitWord.lowest v
      let rest := BitWord.clearLowest v
      if idx < s.cap ∧ (s.conns idx).flushable w then
        some (s.setNet w (.call idx (.drain i rest) .flush))
      else some (s.setNet w (.bits i rest))
  | .call idx ret op =>
    (op.step B r (s.conns idx)).map fun (c, next) =>
      match next with
      | some op => (s.setConn idx c).setNet w (.call idx ret op)
      | none => (s.setConn idx c).setNet w ret.pc

def gameStep (g : Nat) : Option (State ρ) :=
  match s.game g with
  | .idle => none
  | .enqueue idx w m =>
    let c := s.conns idx
    let (n, sendQ) := B.enqueue c.sendQ m
    if n = m.length then
      some ((s.setConn idx { c with sendQ, log := c.log ++ [m] }).setGame g (.mark idx w))
    else some ((s.setConn idx { c with sendQ }).setGame g .idle)
  | .mark idx w => some ({ s with dirty := s.dirty.mark w idx }.setGame g .idle)

end State

/-- A slot is handed out when no reference to it is left. -/
def step : Act → State ρ → Option (State ρ)
  | .accept w idx fd ctlOk, s =>
    let c := s.conns idx
    if s.net w = .idle ∧ idx < s.cap ∧ 0 ≤ fd ∧ c.netRef = false ∧ c.seatedBy = none then
      some (s.setConn idx (if ctlOk then c.opened B w fd else c.failed B w))
    else none
  | .send w idx m, s =>
    if s.handles w idx then some (s.setNet w (.call idx .handler (.send m))) else none
  | .epollOut w idx, s =>
    if s.handles w idx then some (s.setNet w (.call idx .handler .flush)) else none
  | .disconnect w idx, s =>
    if s.handles w idx then
      some ((s.setConn idx { s.conns idx with dead := true }).setNet w (.call idx .handler .close))
    else none
  | .drain w, s => if s.net w = .idle then some (s.setNet w (.word 0)) else none
  | .net w r, s => s.netStep B w r
  | .join g idx, s =>
    let c := s.conns idx
    if c.netRef = true ∧ c.dead = false ∧ c.seatedBy = none then
      some (s.setConn idx { c with seatedBy := some g })
    else none
  | .leave g idx, s =>
    let c := s.conns idx
    if s.game g = .idle ∧ c.seatedBy = some g then
      some (s.setConn idx { c with seatedBy := none })
    else none
  | .look g idx m, s =>
    let c := s.conns idx
    if s.game g = .idle ∧ c.seatedBy = some g ∧ c.dead = false then
      some (s.setGame g (.enqueue idx c.owner m))
    else none
  | .game g, s => s.gameStep B g

end Output

end BeltServer
