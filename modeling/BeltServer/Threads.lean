import BeltServer.Manager

/-!
# Interleaved operations

The same functions cut into their atomic sections, with one program counter for each epoll
worker and each game worker. A section that runs under a mutex is one step, and so is each
load or store of `Session::roomIdx`. The manager lock `_lock` is held across sections;
`lock` says by whom and how far its holder has come. A worker whose next step needs the
manager lock has to wait until it is free.
-/

namespace BeltServer

set_option autoImplicit false

/-- The holder of the manager lock: epoll worker `w` in `Join` for session `idx`, or game
worker `g` in `TransferRoom` of the room at index `i` of its list. -/
inductive LockPc where
  | free
  | scan (w idx : Nat)
  | mail (w idx r : Nat)
  | first (w idx r : Nat)
  | push (w idx r : Nat) (seat : Seat)
  | store (w idx r : Nat) (seat : Seat)
  | close (g i old nr : Nat)
  | move (g i old nr : Nat) (rest : List Seat) (moved : Int)
      (joins : List RoomJoinEntry) (leaves : List RoomLeaveEntry)
  | carry (g i old nr : Nat) (moved : Int)
      (joins : List RoomJoinEntry) (leaves : List RoomLeaveEntry)
  deriving DecidableEq

/-- What an epoll worker does next, and for which session. In `inJoin` it holds the manager
lock, as a game worker does in `moving`; the steps are those of `LockPc`. -/
inductive NetPc where
  | idle
  | joining (idx : Nat)
  | inJoin (idx : Nat)
  | joined (idx actorId roomId : Nat)
  | refused (idx : Nat)
  | leaveRead (idx : Nat)
  | leavePush (idx r : Nat)
  | release (idx : Nat)
  | inputPush (idx r : Nat) (c : InputCmd)
  deriving DecidableEq

/-- What a game worker does next with the room `r` at index `i` of its list; the two lists
are its local `joins` and `leaves` from the current entry on. -/
inductive GamePc where
  | idle
  | joins (i r : Nat) (joins : List RoomJoinEntry) (leaves : List RoomLeaveEntry)
  | skip (i r idx : Nat) (joins : List RoomJoinEntry) (leaves : List RoomLeaveEntry)
  | leaves (i r : Nat) (leaves : List RoomLeaveEntry)
  | drop (i r idx : Nat) (leaves : List RoomLeaveEntry)
  | free (i r : Nat)
  | exit (i r : Nat)
  | moving (i r : Nat)
  | announce (nr : Nat)
  deriving DecidableEq

structure System where
  srv : Server
  lock : LockPc := .free
  net : Nat → NetPc := fun _ => .idle
  game : Nat → GamePc := fun _ => .idle

/-- Starts an operation, or continues the one in progress: of epoll worker `w`, of the
holder of the manager lock, or of game worker `g`. -/
inductive Act where
  | accept (w : Nat) (fd : Int) (recvOk sendOk ctlOk : Bool)
  | frame (w idx : Nat) (f : List UInt8) (remainUs : UInt32)
  | disconnect (w idx : Nat)
  | flush (w idx n : Nat)
  | net (w : Nat)
  | lock
  | drain (g : Nat)
  | process (g i : Nat)
  | tick (g i : Nat)
  | game (g : Nat)
  deriving DecidableEq

namespace System

def init (sessionCapacity roomCapacity workerCount : Nat) : System where
  srv := .init sessionCapacity roomCapacity workerCount

def setNet (s : System) (w : Nat) (pc : NetPc) : System :=
  { s with net := Function.update s.net w pc }

def setGame (s : System) (g : Nat) (pc : GamePc) : System :=
  { s with game := Function.update s.game g pc }

def handles (s : System) (w idx : Nat) : Bool :=
  decide (s.net w = .idle) && decide (idx ∈ s.srv.mySessions w) && !(s.srv.sess idx).dead

/-- `Disconnect` of a session that is not cut yet, up to `OnSessionLeave`. -/
def cut (s : System) (w idx : Nat) : System :=
  { s with srv := s.srv.cut idx }.setNet w (.leaveRead idx)

/-- `SendBytes` as the last call of a handler. -/
def send (s : System) (w idx : Nat) (m : Msg) : System :=
  match s.srv.enqueue idx m with
  | some st => { s with srv := st }.setNet w .idle
  | none => { s with srv := s.srv.countFull }.cut w idx

/-- The handler of a frame up to its first change of the shared state. -/
def frame (s : System) (w idx : Nat) : Server.Dispatched → System
  | .send m => s.send w idx m
  | .join => s.setNet w (.joining idx)
  | .input r c => s.setNet w (.inputPush idx r c)
  | .ignore => s
  | .disconnect => s.cut w idx

def netStep (s : System) (w : Nat) : Option System :=
  match s.net w with
  | .idle => none
  | .joining idx =>
    if s.srv.workerCount = 0 then some (s.setNet w (.refused idx))
    else if s.lock = .free then some ({ s with lock := .scan w idx }.setNet w (.inJoin idx))
    else none
  | .inJoin _ => none
  | .joined idx actorId roomId => some (s.send w idx (.joinOk actorId roomId 0))
  | .refused idx => some (s.send w idx (.joinFail noCapacity))
  | .leaveRead idx =>
    match s.srv.leaveRead idx with
    | (st, none) => some ({ s with srv := st }.setNet w (.release idx))
    | (st, some r) => some ({ s with srv := st }.setNet w (.leavePush idx r))
  | .leavePush idx r => some ({ s with srv := s.srv.leavePush r idx }.setNet w (.release idx))
  | .release idx => some ({ s with srv := s.srv.dropNetRef w idx }.setNet w .idle)
  | .inputPush _ r c => some ({ s with srv := s.srv.inputPush r c }.setNet w .idle)

def lockStep (s : System) : Option System :=
  match s.lock with
  | .free => none
  | .scan w idx =>
    match s.srv.openRooms.getLast? with
    | some r =>
      match s.srv.scanOpen r with
      | (st, some seat) => some { s with srv := st, lock := .push w idx r seat }
      | (st, none) => some { s with srv := st }
    | none =>
      match s.srv.takeSlot with
      | none => some ({ s with lock := .free }.setNet w (.refused idx))
      | some (r, st) => some { s with srv := st.assign r st.leastLoaded, lock := .mail w idx r }
  | .mail w idx r =>
    some { s with srv := s.srv.post r (s.srv.rooms r).gameWorker, lock := .first w idx r }
  | .first w idx r =>
    some { s with srv := s.srv.openFirst r, lock := .push w idx r firstSeat }
  | .push w idx r seat =>
    some { s with srv := s.srv.pushJoin r idx seat, lock := .store w idx r seat }
  | .store w idx r seat =>
    some ({ s with srv := s.srv.storeJoin r idx seat, lock := .free }.setNet w
      (.joined idx seat.val r))
  | .close g i old nr =>
    some { s with
      srv := s.srv.closeOld old
      lock := .move g i old nr (List.finRange 4) 0 (s.srv.rooms old).pendingJoin
        (s.srv.rooms old).pendingLeave }
  | .move g i old nr (seat :: rest) moved joins leaves =>
    some { s with
      srv := s.srv.moveMember old nr seat
      lock := .move g i old nr rest
        (if ((s.srv.rooms old).members seat).used then moved + 1 else moved) joins leaves }
  | .move g i old nr [] moved joins leaves =>
    some { s with srv := s.srv.openNew old nr, lock := .carry g i old nr moved joins leaves }
  | .carry g i old nr moved (e :: joins) leaves =>
    some { s with srv := s.srv.carryJoin nr e, lock := .carry g i old nr moved joins leaves }
  | .carry g i old nr moved [] leaves =>
    some ({ s with
      srv := (s.srv.finishTransfer old nr moved leaves).replaceRoom g i nr
      lock := .free }.setGame g (.announce nr))

def gameStep (s : System) (g : Nat) : Option System :=
  match s.game g with
  | .idle => none
  | .joins i r (e :: js) ls =>
    if s.srv.staleJoin e then
      some ({ s with srv := s.srv.releaseSeat r e.actorId }.setGame g (.skip i r e.sessIdx js ls))
    else some ({ s with srv := s.srv.seatMember r e }.setGame g (.joins i r js ls))
  | .joins i r [] ls => some (s.setGame g (.leaves i r ls))
  | .skip i r idx js ls =>
    some ({ s with srv := s.srv.release idx }.setGame g (.joins i r js ls))
  | .leaves i r (e :: ls) =>
    match (s.srv.rooms r).findLeaver e with
    | some seat => some ({ s with srv := s.srv.unseat r seat }.setGame g (.drop i r e.sessIdx ls))
    | none => some (s.setGame g (.leaves i r ls))
  | .leaves i r [] =>
    if (s.srv.rooms r).judgedEmpty then
      some ({ s with srv := s.srv.markDead r }.setGame g (.free i r))
    else some (s.setGame g .idle)
  | .drop i r idx ls => some ({ s with srv := s.srv.release idx }.setGame g (.leaves i r ls))
  | .free i r =>
    if s.lock = .free then
      some ({ s with srv := (s.srv.freeDead r).removeRoom g i }.setGame g .idle)
    else none
  | .exit i r =>
    if s.lock = .free then
      match s.srv.takeSlot with
      | none => some (s.setGame g .idle)
      | some (nr, st) =>
        some ({ s with
          srv := st.assign nr (st.rooms r).gameWorker
          lock := .close g i r nr }.setGame g (.moving i r))
    else none
  | .moving _ _ => none
  | .announce nr => some ({ s with srv := s.srv.announce nr }.setGame g .idle)

def step : Act → System → Option System
  | .accept w fd recvOk sendOk ctlOk, s =>
    if s.net w = .idle then some { s with srv := s.srv.accept w fd recvOk sendOk ctlOk } else none
  | .frame w idx f remainUs, s =>
    if s.handles w idx && wellFramed f then
      some (s.frame w idx (s.srv.dispatch idx remainUs (.decode f)))
    else none
  | .disconnect w idx, s => if s.handles w idx then some (s.cut w idx) else none
  | .flush w idx n, s =>
    if s.handles w idx then
      some { s with srv := s.srv.modSession idx fun x => { x with sendQ := x.sendQ.consume n } }
    else none
  | .net w, s => s.netStep w
  | .lock, s => s.lockStep
  | .drain g, s => if s.game g = .idle then some { s with srv := s.srv.drainMail g } else none
  | .process g i, s =>
    if s.game g = .idle then
      match (s.srv.myRooms g)[i]? with
      | some r =>
        some ({ s with srv := s.srv.takeQueues r }.setGame g
          (.joins i r (s.srv.rooms r).pendingJoin (s.srv.rooms r).pendingLeave))
      | none => none
    else none
  | .tick g i, s =>
    if s.game g = .idle then
      match (s.srv.myRooms g)[i]? with
      | some r =>
        let s := { s with srv := s.srv.tickBody r }
        some (if (s.srv.rooms r).exitReady then s.setGame g (.exit i r) else s)
      | none => none
    else none
  | .game g, s => s.gameStep g

end System

end BeltServer
