import BeltServer.Framing

/-!
# The handlers of the epoll workers

`HandleAccept`, `HandleSession`, the callback of `Drain` and what they call, for any number of
workers over one session pool. A step goes to the next operation on the pool or to the next load of
`dead`, and in `HandleAccept` and the callback to the next access to `fd` or `owner`; within
`ReadSession`, `ParseFrames` and `FlushSend` every turn of the loop is a step of its own. What the
system calls and the room manager return comes with the step. Of the rooms only the references
that they hold are kept.
-/

namespace BeltServer

set_option autoImplicit false

namespace Epoll

open SwapList

/-- An event of `epoll_wait`: the tag its socket was registered with, and what is reported. `hup`
is any of `EPOLLERR`, `EPOLLHUP` and `EPOLLRDHUP`. -/
structure Event where
  idx : Nat
  gen : UInt32
  hup : Bool := false
  input : Bool := false
  output : Bool := false
  deriving DecidableEq

/-- The session that a handler was entered with, and whether `EPOLLOUT` is still to be handled. -/
structure Handler where
  idx : Nat
  gen : UInt32
  output : Bool := false
  deriving DecidableEq

/-- The function that a call returns to; each of the first three goes on with a look at `dead`. -/
inductive Ret where
  | parseFrames
  | readSession
  | handleSession
  | loop
  deriving DecidableEq

/-- What an epoll worker does next: in `HandleAccept` after `Alloc`, at the head of `HandleSession`
behind the test of the generation, in the callback of `Drain` behind the comparison with `owner`
and before or behind the look at `dead`, or further down. -/
inductive Pc where
  | idle
  | opened (idx : Nat) (fd : Int) (ctlOk : Bool)
  | entering (idx : Nat) (ctlOk : Bool)
  | refused (idx : Nat)
  | head (e : Event)
  | drained (h : Handler) (looked : Bool)
  | read (h : Handler)
  | parse (h : Handler)
  | dispatch (h : Handler) (f : List UInt8)
  | flush (h : Handler) (ret : Ret)
  | cut (h : Handler) (ret : Ret)
  | close (h : Handler) (ret : Ret)
  | release (h : Handler) (ret : Ret)
  | check (h : Handler) (ret : Ret)
  deriving DecidableEq

def Event.handler (e : Event) : Handler := ⟨e.idx, e.gen, e.output⟩

def Pc.back (h : Handler) : Ret → Pc
  | .loop => .idle
  | ret => .check h ret

/-- The outcome of one `write`; `short` when it took less than it was offered. -/
inductive WriteResult where
  | sent (n : Nat) (short : Bool)
  | again
  | intr
  | failed

/-- What the calls of a section return: `read`, `write`, `epoll_ctl`, `RoomManager::Join` with room
and seat, and `GetPingInfo` of a session in a room. -/
structure Sys where
  read : ReadResult := .again
  write : WriteResult := .again
  ctlOk : Bool := true
  join : Option (Nat × Nat) := none
  tick : UInt32 := 0
  remainUs : UInt32 := 0

/-- `batch w` are the events of the last `epoll_wait` that worker `w` has not handled yet,
`roomRefs` the references that rooms and their queues hold. -/
structure State where
  pool : SessionPool
  mySessions : Nat → List Nat := fun _ => []
  batch : Nat → List Event := fun _ => []
  roomRefs : Nat → Nat := fun _ => 0
  pc : Nat → Pc := fun _ => .idle

/-- Worker `w` takes a connection, calls `epoll_wait`, handles the next event, visits a marked
session of its dirty map or one of its own at the end, or continues; a game worker sends to a
session, or gives back a reference. -/
inductive Act where
  | accept (w : Nat) (fd : Int) (recvOk sendOk ctlOk : Bool)
  | wait (w : Nat) (es : List Event)
  | handle (w : Nat)
  | drain (w idx : Nat)
  | cleanup (w idx : Nat)
  | net (w : Nat) (r : Sys)
  | tell (idx : Nat) (m : Msg)
  | leave (idx : Nat)

namespace State

def init (capacity : Nat) : State where
  pool := .init capacity

def sess (s : State) (idx : Nat) : Session := s.pool.slots idx

def setPc (s : State) (w : Nat) (pc : Pc) : State := { s with pc := Function.update s.pc w pc }

def modSession (s : State) (idx : Nat) (f : Session → Session) : State :=
  { s with pool := s.pool.mod idx f }

/-- `HandleSession` up to the look at `dead`. -/
def handleSession (s : State) (w : Nat) (e : Event) : State :=
  if s.pool.cap ≤ e.idx ∨ (s.sess e.idx).gen ≠ e.gen then s else s.setPc w (.head e)

/-- `HandleSession` from the look at `dead` on. -/
def headTurn (s : State) (w : Nat) (e : Event) : State :=
  if (s.sess e.idx).dead then s.setPc w .idle
  else if e.hup then s.setPc w (.cut e.handler .loop)
  else if e.input then s.setPc w (.read e.handler)
  else if e.output then s.setPc w (.flush e.handler .loop)
  else s.setPc w .idle

/-- The callback of `Drain` up to the look at `dead`. -/
def drain (s : State) (w idx : Nat) : State :=
  if (s.sess idx).owner = w then s.setPc w (.drained ⟨idx, (s.sess idx).gen, false⟩ false) else s

/-- The two tests of the callback behind the comparison with `owner`. -/
def drainTurn (s : State) (w : Nat) (h : Handler) : Bool → State
  | false => if (s.sess h.idx).dead then s.setPc w .idle else s.setPc w (.drained h true)
  | true => if 0 ≤ (s.sess h.idx).fd then s.setPc w (.flush h .loop) else s.setPc w .idle

/-- `SendBytes` at the end of `Dispatch`, up to the flush. -/
def sendBytes (s : State) (w : Nat) (h : Handler) (m : Msg) : State :=
  match (s.sess h.idx).sendQ.enqueue m with
  | none => s.setPc w (.cut h .parseFrames)
  | some q => (s.modSession h.idx fun x => { x with sendQ := q }).setPc w (.flush h .parseFrames)

def joined (s : State) (idx r seat : Nat) : State :=
  { s.modSession idx fun x =>
      { x with refs := x.refs + 1, inRoom := true, roomIdx := r, actorId := seat } with
    roomRefs := Function.update s.roomRefs idx (s.roomRefs idx + 1) }

def dispatch (s : State) (w : Nat) (h : Handler) (r : Sys) : ClientMsg → State
  | .echo f => s.sendBytes w h (.echo f)
  | .join ver =>
    if ver ≠ kProtocolVersion then s.sendBytes w h (.joinFail versionMismatch)
    else if (s.sess h.idx).inRoom then s.sendBytes w h (.joinFail alreadyJoined)
    else
      match r.join with
      | none => s.sendBytes w h (.joinFail noCapacity)
      | some (room, seat) => (s.joined h.idx room seat).sendBytes w h (.joinOk seat room 0)
  | .input .. => s.setPc w (.check h .parseFrames)
  | .ping t =>
    if (s.sess h.idx).inRoom then s.sendBytes w h (.pong t r.tick r.remainUs)
    else s.sendBytes w h (.pong t 0 0)
  | .reject => s.setPc w (.cut h .parseFrames)

def interest (s : State) (idx : Nat) (want ctlOk : Bool) : State :=
  if (s.sess idx).wantWrite = want then s
  else if ctlOk then s.modSession idx fun x => { x with wantWrite := want }
  else s

/-- One turn of the loop of `ReadSession`, up to `ParseFrames`. -/
def readTurn (s : State) (w : Nat) (h : Handler) (res : ReadResult) : Option State :=
  let data := (s.sess h.idx).recvQ.data
  if data.length = recvCapacity then some (s.setPc w (.cut h .handleSession))
  else
    match res with
    | .bytes bs =>
      if bs = [] ∨ recvCapacity < data.length + bs.length then none
      else
        some ((s.modSession h.idx fun x =>
          { x with recvQ := { x.recvQ with data := data ++ bs } }).setPc w (.parse h))
    | .closed | .failed => some (s.setPc w (.cut h .handleSession))
    | .again => some (s.setPc w (.check h .handleSession))
    | .intr => some s

/-- One turn of the loop of `ParseFrames`, up to `Dispatch`. -/
def parseTurn (s : State) (w : Nat) (h : Handler) : State :=
  let data := (s.sess h.idx).recvQ.data
  let size := frameSize data
  if data.length < headerSize then s.setPc w (.check h .readSession)
  else if size < headerSize ∨ maxPacketSize < size then s.setPc w (.cut h .readSession)
  else if data.length < size then s.setPc w (.check h .readSession)
  else
    (s.modSession h.idx fun x =>
      { x with recvQ := { x.recvQ with data := data.drop size } }).setPc w
        (.dispatch h (data.take size))

def flushTurn (s : State) (w : Nat) (h : Handler) (ret : Ret) (r : Sys) : Option State :=
  let held := (s.sess h.idx).sendQ.held
  if held = 0 then some ((s.interest h.idx false r.ctlOk).setPc w (.back h ret))
  else
    match r.write with
    | .sent n short =>
      if n = 0 ∨ held < n then none
      else
        let s := s.modSession h.idx fun x => { x with sendQ := x.sendQ.consume n }
        if short then some ((s.interest h.idx true r.ctlOk).setPc w (.back h ret)) else some s
    | .again => some ((s.interest h.idx true r.ctlOk).setPc w (.back h ret))
    | .intr => some s
    | .failed => some (s.setPc w (.cut h ret))

def checkTurn (s : State) (w : Nat) (h : Handler) : Ret → State
  | .parseFrames =>
    if (s.sess h.idx).dead then s.setPc w (.check h .readSession) else s.setPc w (.parse h)
  | .readSession =>
    if (s.sess h.idx).dead then s.setPc w (.check h .handleSession) else s.setPc w (.read h)
  | .handleSession =>
    if (s.sess h.idx).dead then s.setPc w .idle
    else if h.output then s.setPc w (.flush h .loop)
    else s.setPc w .idle
  | .loop => s.setPc w .idle

def netStep (s : State) (w : Nat) (r : Sys) : Option State :=
  match s.pc w with
  | .idle => none
  | .opened idx fd ctlOk =>
    some ((s.modSession idx fun x => { x with fd }).setPc w (.entering idx ctlOk))
  | .entering idx ctlOk =>
    if ctlOk then
      some ({ s.modSession idx fun x => { x with owner := w } with
        mySessions := Function.update s.mySessions w (s.mySessions w ++ [idx]) }.setPc w .idle)
    else
      some ((s.modSession idx fun x => { x with fd := -1, owner := w, dead := true }).setPc w
        (.refused idx))
  | .refused idx => some ({ s with pool := s.pool.release idx }.setPc w .idle)
  | .head e => some (s.headTurn w e)
  | .drained h looked => some (s.drainTurn w h looked)
  | .read h => s.readTurn w h r.read
  | .parse h => some (s.parseTurn w h)
  | .dispatch h f => some (s.dispatch w h r (.decode f))
  | .flush h ret => s.flushTurn w h ret r
  | .cut h ret =>
    if (s.sess h.idx).dead then some (s.setPc w (.back h ret))
    else some ((s.modSession h.idx fun x => { x with dead := true }).setPc w (.close h ret))
  | .close h ret =>
    some ({ s.modSession h.idx fun x => { x with fd := -1, inRoom := false } with
      mySessions := Function.update s.mySessions w (swapRemove (s.mySessions w) h.idx) }.setPc w
        (.release h ret))
  | .release h ret => some ({ s with pool := s.pool.release h.idx }.setPc w (.back h ret))
  | .check h ret => some (s.checkTurn w h ret)

end State

/-- An event has the tag of a session that its worker has registered; `accept4` returns no negative
number. -/
def step : Act → State → Option State
  | .accept w fd recvOk sendOk ctlOk, s =>
    if s.pc w = .idle ∧ 0 ≤ fd then
      match s.pool.alloc recvOk sendOk with
      | (p, none) => some { s with pool := p }
      | (p, some idx) => some ({ s with pool := p }.setPc w (.opened idx fd ctlOk))
    else none
  | .wait w es, s =>
    if s.pc w = .idle ∧ s.batch w = [] ∧
        ∀ e ∈ es, e.idx ∈ s.mySessions w ∧ (s.sess e.idx).gen = e.gen then
      some { s with batch := Function.update s.batch w es }
    else none
  | .handle w, s =>
    if s.pc w = .idle then
      match s.batch w with
      | [] => none
      | e :: es => some ({ s with batch := Function.update s.batch w es }.handleSession w e)
    else none
  | .drain w idx, s =>
    if s.pc w = .idle ∧ s.batch w = [] ∧ idx < s.pool.cap then some (s.drain w idx) else none
  | .cleanup w idx, s =>
    if s.pc w = .idle ∧ s.batch w = [] ∧ idx ∈ s.mySessions w then
      some (s.setPc w (.cut ⟨idx, (s.sess idx).gen, false⟩ .loop))
    else none
  | .net w r, s => s.netStep w r
  | .tell idx m, s =>
    if 0 < s.roomRefs idx then
      match (s.sess idx).sendQ.enqueue m with
      | some q => some (s.modSession idx fun x => { x with sendQ := q })
      | none => some s
    else none
  | .leave idx, s =>
    if 0 < s.roomRefs idx then
      some { s with
        pool := s.pool.release idx
        roomRefs := Function.update s.roomRefs idx (s.roomRefs idx - 1) }
    else none

end Epoll

end BeltServer
