import BeltServer.Server
import BeltServer.Lib.Runs

/-!
# Serial operations

The functions of `RoomManager.cpp` and `EpollWorker.cpp` as single steps, and the machine
that runs them in any order. Reserving a place and telling the client about it are two
operations, as `Join` and the `SendBytes` of its JOIN_OK are two calls; the worker does
nothing else in between (`reply`).
-/

namespace BeltServer

set_option autoImplicit false

namespace Server

def onSessionLeave (st : Server) (idx : Nat) : Server :=
  match st.leaveRead idx with
  | (st, none) => st
  | (st, some r) => st.leavePush r idx

def disconnect (st : Server) (w idx : Nat) : Server :=
  if (st.sess idx).dead then st else ((st.cut idx).onSessionLeave idx).dropNetRef w idx

def countFull (st : Server) : Server :=
  { st with metrics := { st.metrics with sendRingFull := st.metrics.sendRingFull + 1 } }

/-- `EpollWorker::SendBytes`; what the following flush writes is a step of its own. -/
def sendBytes (st : Server) (w idx : Nat) (m : Msg) : Server :=
  match st.enqueue idx m with
  | some st' => st'
  | none => st.countFull.disconnect w idx

/-- The search loop of `Join` over the open rooms, from the back. -/
def joinScan : List Nat → Server → Server × Option (Nat × Seat)
  | [], st => (st, none)
  | r :: rs, st =>
    match st.scanOpen r with
    | (st', some i) => (st', some (r, i))
    | (st', none) => joinScan rs st'

/-- The part of `Join` after the reservation. -/
def joinAt (st : Server) (r idx : Nat) (i : Seat) : Server :=
  (st.pushJoin r idx i).storeJoin r idx i

/-- `AllocRoom` and the first reservation in the new room. -/
def openRoom (st : Server) (r : Nat) : Server :=
  let g := st.leastLoaded
  ((st.assign r g).post r g).openFirst r

/-- `RoomManager::Join`; the room and seat, or no capacity. -/
def join (st : Server) (idx : Nat) : Server × Option (Nat × Seat) :=
  if st.workerCount = 0 then (st, none)
  else
    match joinScan st.openRooms.reverse st with
    | (st, some (r, i)) => (st.joinAt r idx i, some (r, i))
    | (st, none) =>
      match st.takeSlot with
      | none => (st, none)
      | some (r, st) => ((st.openRoom r).joinAt r idx firstSeat, some (r, firstSeat))

def processJoin (r : Nat) (st : Server) (e : RoomJoinEntry) : Server :=
  if st.staleJoin e then (st.releaseSeat r e.actorId).release e.sessIdx else st.seatMember r e

def processLeave (r : Nat) (st : Server) (e : RoomLeaveEntry) : Server :=
  match (st.rooms r).findLeaver e with
  | some i => (st.unseat r i).release e.sessIdx
  | none => st

def processEntries (st : Server) (r : Nat) : Server :=
  (st.rooms r).pendingLeave.foldl (processLeave r)
    ((st.rooms r).pendingJoin.foldl (processJoin r) (st.takeQueues r))

def processRoomQueues (st : Server) (r : Nat) : Server × Bool :=
  let st := st.processEntries r
  if (st.rooms r).judgedEmpty then ((st.markDead r).freeDead r, true) else (st, false)

/-- The member loop of `TransferRoom`, with its count of moved members. -/
def moveMembers (old nr : Nat) : List Seat → Server → Int → Server × Int
  | [], st, moved => (st, moved)
  | i :: is, st, moved =>
    moveMembers old nr is (st.moveMember old nr i)
      (if ((st.rooms old).members i).used then moved + 1 else moved)

/-- `TransferRoom` from the slot taken to the release of the manager lock. -/
def transferTo (st : Server) (old nr : Nat) : Server :=
  let st := st.assign nr (st.rooms old).gameWorker
  let moved := moveMembers old nr (List.finRange 4) (st.closeOld old) 0
  ((st.rooms old).pendingJoin.foldl (fun st e => st.carryJoin nr e)
    (moved.1.openNew old nr)).finishTransfer old nr moved.2 (st.rooms old).pendingLeave

/-- `RoomManager::TransferRoom`; the new room, or none when no slot is free. -/
def transferRoom (st : Server) (old : Nat) : Server × Option Nat :=
  match st.takeSlot with
  | none => (st, none)
  | some (nr, st) => ((st.transferTo old nr).announce nr, some nr)

def exitCheckAndMaybeTransfer (st : Server) (r : Nat) : Server × Option Nat :=
  if (st.rooms r).exitReady then st.transferRoom r else (st, none)

def roomTick (st : Server) (r : Nat) : Server × Option Nat :=
  (st.tickBody r).exitCheckAndMaybeTransfer r

/-- The loop of `TickOnce` over the worker's list, from index `i`; every turn leaves one room
less to visit, so that the length of the list is fuel enough. -/
def tickLoop (g : Nat) : Nat → Nat → Server → Server
  | 0, _, st => st
  | n + 1, i, st =>
    match (st.myRooms g)[i]? with
    | none => st
    | some r =>
      match st.processRoomQueues r with
      | (st, true) => tickLoop g n i (st.removeRoom g i)
      | (st, false) =>
        match st.roomTick r with
        | (st, some nr) => tickLoop g n (i + 1) (st.replaceRoom g i nr)
        | (st, none) => tickLoop g n (i + 1) st

def tickOnce (st : Server) (g : Nat) : Server :=
  tickLoop g ((st.drainMail g).myRooms g).length 0 (st.drainMail g)

/-- What `Dispatch` goes on to do with a frame. -/
inductive Dispatched where
  | send (m : Msg)
  | join
  | input (r : Nat) (c : InputCmd)
  | ignore
  | disconnect

/-- `EpollWorker::Dispatch` up to the call that changes the state, with the checks of
`PushInput` and `GetPingInfo` on the session. `remainUs` is the time to the next tick. -/
def dispatch (st : Server) (idx : Nat) (remainUs : UInt32) : ClientMsg → Dispatched
  | .echo f => .send (.echo f)
  | .join ver =>
    if ver ≠ kProtocolVersion then .send (.joinFail versionMismatch)
    else if (st.sess idx).inRoom then .send (.joinFail alreadyJoined)
    else .join
  | .input seq mx my attack skill =>
    let s := st.sess idx
    if !s.inRoom || decide (st.cap ≤ s.roomIdx) then .ignore
    else .input s.roomIdx
      { sessIdx := idx, sessGen := s.gen, actorId := s.actorId, seq, mx, my, attack, skill }
  | .ping t =>
    let s := st.sess idx
    if !s.inRoom || decide (st.cap ≤ s.roomIdx) then .send (.pong t 0 0)
    else .send (.pong t (st.pingTick idx) remainUs)
  | .reject => .disconnect

end Server

/-- The size check of `ParseFrames`; the frame is the `size` bytes taken from the ring. -/
def wellFramed (f : List UInt8) : Bool :=
  leNat (bytesAt f 0 2) == f.length && 4 ≤ f.length && f.length ≤ 1024

structure JoinReply where
  sessIdx : Nat
  actorId : Nat
  roomId : Nat
  deriving DecidableEq, Repr

structure Serial where
  srv : Server
  reply : Nat → Option JoinReply := fun _ => none

/-- The operations, with the epoll worker `w` or game worker `g` that runs them. Rooms are
processed and ticked through the worker's own list, in any order. -/
inductive Op where
  | accept (w : Nat) (fd : Int) (recvOk sendOk ctlOk : Bool)
  | frame (w idx : Nat) (f : List UInt8) (remainUs : UInt32)
  | joinOk (w : Nat)
  | disconnect (w idx : Nat)
  | flush (w idx n : Nat)
  | drain (g : Nat)
  | process (g i : Nat)
  | tick (g i : Nat)
  deriving DecidableEq

namespace Serial

def init (sessionCapacity roomCapacity workerCount : Nat) : Serial where
  srv := .init sessionCapacity roomCapacity workerCount

/-- Worker `w` may run a handler of session `idx`: it is not between a join and its reply,
it owns the session, and the session is not cut. -/
def handles (s : Serial) (w idx : Nat) : Bool :=
  (s.reply w).isNone && decide (idx ∈ s.srv.mySessions w) && !(s.srv.sess idx).dead

def frame (s : Serial) (w idx : Nat) : Server.Dispatched → Serial
  | .send m => { s with srv := s.srv.sendBytes w idx m }
  | .join =>
    match s.srv.join idx with
    | (st, some (r, i)) =>
      { srv := st, reply := Function.update s.reply w (some ⟨idx, i.val, r⟩) }
    | (st, none) => { s with srv := st.sendBytes w idx (.joinFail noCapacity) }
  | .input r c => { s with srv := s.srv.inputPush r c }
  | .ignore => s
  | .disconnect => { s with srv := s.srv.disconnect w idx }

def step : Op → Serial → Option Serial
  | .accept w fd recvOk sendOk ctlOk, s =>
    if (s.reply w).isNone then some { s with srv := s.srv.accept w fd recvOk sendOk ctlOk } else none
  | .frame w idx f remainUs, s =>
    if s.handles w idx && wellFramed f then
      some (s.frame w idx (s.srv.dispatch idx remainUs (.decode f)))
    else none
  | .joinOk w, s =>
    match s.reply w with
    | some rep =>
      some
        { srv := s.srv.sendBytes w rep.sessIdx (.joinOk rep.actorId rep.roomId 0)
          reply := Function.update s.reply w none }
    | none => none
  | .disconnect w idx, s =>
    if s.handles w idx then some { s with srv := s.srv.disconnect w idx } else none
  | .flush w idx n, s =>
    if s.handles w idx then
      some { s with srv := s.srv.modSession idx fun x => { x with sendQ := x.sendQ.consume n } }
    else none
  | .drain g, s => some { s with srv := s.srv.drainMail g }
  | .process g i, s =>
    match (s.srv.myRooms g)[i]? with
    | some r =>
      match s.srv.processRoomQueues r with
      | (st, true) => some { s with srv := st.removeRoom g i }
      | (st, false) => some { s with srv := st }
    | none => none
  | .tick g i, s =>
    match (s.srv.myRooms g)[i]? with
    | some r =>
      match s.srv.roomTick r with
      | (st, some nr) => some { s with srv := st.replaceRoom g i nr }
      | (st, none) => some { s with srv := st }
    | none => none

end Serial

end BeltServer
