import BeltServer.Room
import BeltServer.Session

/-!
# The shared state and its atomic sections

`Server` is what the epoll workers and game workers share or own: the session pool, the
room manager, the mailboxes and room lists of the game workers, the session lists of the
epoll workers, the dirty map and the counters. A room number is an index into `_slots`.

Each definition below is one section of `RoomManager.cpp` or `EpollWorker.cpp` that runs
under one mutex or touches data of one thread only. The serial operations
(`Manager.lean`) put them together; the interleaved machine (`Threads.lean`) takes them
one at a time.
-/

namespace BeltServer

set_option autoImplicit false

open SwapList

/-- The counters of `Metrics.h` that the modelled code reports events with. -/
structure Metrics where
  joins : Nat := 0
  inputsQueued : Nat := 0
  inputRingDrops : Nat := 0
  inputNeutralized : Nat := 0
  snapshotsSent : Nat := 0
  snapshotsDropped : Nat := 0
  roomMoves : Nat := 0
  sendRingFull : Nat := 0
  deriving DecidableEq, Repr

structure Server where
  pool : SessionPool
  rooms : Nat → Room := fun _ => {}
  cap : Nat
  freeRooms : List Nat
  openRooms : List Nat := []
  workerCount : Nat
  roomsPerWorker : Nat → UInt32 := fun _ => 0
  mail : Nat → List Nat := fun _ => []
  myRooms : Nat → List Nat := fun _ => []
  mySessions : Nat → List Nat := fun _ => []
  dirty : Nat → Nat → Bool := fun _ _ => false
  metrics : Metrics := {}

namespace Server

/-- `SessionPool::Init` and `RoomManager::Init`. -/
def init (sessionCapacity roomCapacity workerCount : Nat) : Server where
  pool := .init sessionCapacity
  cap := roomCapacity
  freeRooms := (List.range roomCapacity).reverse
  workerCount := workerCount

def sess (st : Server) (idx : Nat) : Session := st.pool.slots idx

def modRoom (st : Server) (r : Nat) (f : Room → Room) : Server :=
  { st with rooms := Function.update st.rooms r (f (st.rooms r)) }

def modSession (st : Server) (idx : Nat) (f : Session → Session) : Server :=
  { st with pool := st.pool.mod idx f }

def release (st : Server) (idx : Nat) : Server := { st with pool := st.pool.release idx }

def mark (st : Server) (worker idx : Nat) : Server :=
  { st with dirty := Function.update st.dirty worker (Function.update (st.dirty worker) idx true) }

def enqueue (st : Server) (idx : Nat) (m : Msg) : Option Server :=
  ((st.sess idx).sendQ.enqueue m).map fun q => st.modSession idx fun s => { s with sendQ := q }

/-! ### Accepting and cutting connections -/

/-- One accepted socket in `HandleAccept`; `ctlOk` is the outcome of `epoll_ctl`. -/
def accept (st : Server) (w : Nat) (fd : Int) (recvOk sendOk ctlOk : Bool) : Server :=
  match st.pool.alloc recvOk sendOk with
  | (p, none) => { st with pool := p }
  | (p, some idx) =>
    let st := { st with pool := p.mod idx fun s => { s with fd, owner := w } }
    if ctlOk then
      { st with mySessions := Function.update st.mySessions w (st.mySessions w ++ [idx]) }
    else (st.modSession idx fun s => { s with fd := -1, dead := true }).release idx

/-- The first part of `Disconnect`: the dead mark and the closed socket. -/
def cut (st : Server) (idx : Nat) : Server :=
  st.modSession idx fun s => { s with dead := true, fd := -1 }

/-- The unlocked part of `OnSessionLeave`: the room number it goes on with, if any. -/
def leaveRead (st : Server) (idx : Nat) : Server × Option Nat :=
  let s := st.sess idx
  if !s.inRoom || decide (st.cap ≤ s.roomIdx) then (st, none)
  else (st.modSession idx fun s => { s with inRoom := false }, some s.roomIdx)

/-- The locked part of `OnSessionLeave`. -/
def leavePush (st : Server) (r idx : Nat) : Server :=
  st.modRoom r fun R =>
    { R with pendingLeave := R.pendingLeave ++ [RoomLeaveEntry.mk idx (st.sess idx).gen] }

/-- The end of `Disconnect`: off the owner's list, and the owner's reference is returned. -/
def dropNetRef (st : Server) (w idx : Nat) : Server :=
  release { st with
    mySessions := Function.update st.mySessions w (swapRemove (st.mySessions w) idx) } idx

/-! ### Room slots and the open list -/

/-- `AllocRoomSlotLocked`: a free slot is taken and reset. -/
def takeSlot (st : Server) : Option (Nat × Server) :=
  match st.freeRooms.getLast? with
  | none => none
  | some r => some (r, ({ st with freeRooms := st.freeRooms.dropLast }).modRoom r Room.reset)

/-- `AllocRoomSlotLocked`: the least loaded worker, the first of several. -/
def leastLoaded (st : Server) : Nat :=
  (List.range' 1 (st.workerCount - 1)).foldl
    (fun best w => if st.roomsPerWorker w < st.roomsPerWorker best then w else best) 0

def assign (st : Server) (r g : Nat) : Server :=
  { st.modRoom r fun R => { R with gameWorker := g } with
    roomsPerWorker := Function.update st.roomsPerWorker g (st.roomsPerWorker g + 1) }

def post (st : Server) (r g : Nat) : Server :=
  { st with mail := Function.update st.mail g (st.mail g ++ [r]) }

/-- One turn of the search loop of `Join` on the room at the back of the open list. -/
def scanOpen (st : Server) (r : Nat) : Server × Option Seat :=
  let popped := { st with openRooms := st.openRooms.dropLast }
  if (st.rooms r).dead then (popped, none)
  else
    match (st.rooms r).firstFree with
    | none => (popped, none)
    | some i =>
      if ((st.rooms r).reserveSeat i).reservedSeats = 4 then
        (popped.modRoom r fun R => R.reserveSeat i, some i)
      else (st.modRoom r fun R => R.reserveSeat i, some i)

def openFirst (st : Server) (r : Nat) : Server :=
  { st.modRoom r fun R =>
      { R with
        seatUsed := Function.update R.seatUsed firstSeat true
        everReserved := true
        reservedSeats := 1 } with
    openRooms := st.openRooms ++ [r] }

/-- `AddRef` and the locked push of the join entry. -/
def pushJoin (st : Server) (r idx : Nat) (i : Seat) : Server :=
  ({ st with pool := st.pool.addRef idx }).modRoom r fun R =>
    { R with pendingJoin := R.pendingJoin ++ [RoomJoinEntry.mk idx (st.sess idx).gen i] }

def storeJoin (st : Server) (r idx : Nat) (i : Seat) : Server :=
  { st.modSession idx fun s => { s with inRoom := true, roomIdx := r, actorId := i.val } with
    metrics := { st.metrics with joins := st.metrics.joins + 1 } }

def freeRoomIfDrained (st : Server) (r : Nat) : Server :=
  { st.modRoom r fun R => { R with gen := R.gen + 1 } with freeRooms := st.freeRooms ++ [r] }

/-- The entries of the manager's lists that a room gives up when it is freed. -/
def forgetRoom (st : Server) (r : Nat) : Server :=
  let g := (st.rooms r).gameWorker
  { st with
    roomsPerWorker := Function.update st.roomsPerWorker g (st.roomsPerWorker g - 1)
    openRooms := swapRemove st.openRooms r }

/-! ### The queues of a room -/

def drainMail (st : Server) (g : Nat) : Server :=
  { st with
    myRooms := Function.update st.myRooms g (st.myRooms g ++ st.mail g)
    mail := Function.update st.mail g [] }

def takeQueues (st : Server) (r : Nat) : Server :=
  st.modRoom r fun R => { R with pendingJoin := [], pendingLeave := [] }

def staleJoin (st : Server) (e : RoomJoinEntry) : Bool :=
  (st.sess e.sessIdx).gen != e.sessGen || (st.sess e.sessIdx).dead

def releaseSeat (st : Server) (r : Nat) (i : Seat) : Server := st.modRoom r fun R => R.releaseSeat i

def seatMember (st : Server) (r : Nat) (e : RoomJoinEntry) : Server :=
  st.modRoom r fun R => R.seatMember e (st.sess e.sessIdx).owner

def unseat (st : Server) (r : Nat) (i : Seat) : Server :=
  st.modRoom r fun R => (R.unseat i).releaseSeat i

def markDead (st : Server) (r : Nat) : Server := st.modRoom r fun R => { R with dead := true }

/-- The end of a room that was judged empty, under the manager lock. -/
def freeDead (st : Server) (r : Nat) : Server := (st.forgetRoom r).freeRoomIfDrained r

/-! ### Ticks -/

def sendSnapshot (st : Server) (r : Nat) (snap : Snapshot) (i : Seat) : Server :=
  let m := (st.rooms r).members i
  let s := st.sess m.sessIdx
  if !m.used || s.gen != m.sessGen || s.dead then st
  else
    match st.enqueue m.sessIdx (.snapshot r snap) with
    | some st' =>
      { st'.mark m.sessOwner m.sessIdx with
        metrics := { st.metrics with snapshotsSent := st.metrics.snapshotsSent + 1 } }
    | none =>
      { st with metrics := { st.metrics with snapshotsDropped := st.metrics.snapshotsDropped + 1 } }

def snapshotDue (R : Room) : Bool := R.world.tick % 3 == 0 && R.memberCount != 0

/-- `RoomTick` up to the exit test. -/
def tickBody (st : Server) (r : Nat) : Server :=
  let R := st.rooms r
  let routed := R.routeInputs
  let st := { st.modRoom r Room.step with
    metrics := { st.metrics with
      inputRingDrops := st.metrics.inputRingDrops + routed.2
      inputNeutralized := st.metrics.inputNeutralized + routed.1.neutralized } }
  if snapshotDue (st.rooms r) then
    (List.finRange 4).foldl (fun st' i => st'.sendSnapshot r (st.rooms r).snapshot i) st
  else st

/-! ### Room transfer -/

/-- The locked section on the old room. -/
def closeOld (st : Server) (old : Nat) : Server :=
  st.modRoom old fun R =>
    { R with
      dead := true
      pendingJoin := []
      pendingLeave := []
      seatUsed := fun _ => false
      reservedSeats := 0 }

/-- One member moves with its record; its actor starts again at the spawn point. -/
def moveMember (st : Server) (old nr : Nat) (i : Seat) : Server :=
  let om := (st.rooms old).members i
  if !om.used then st
  else
    let st := (st.modRoom nr fun R =>
      { R with
        members := Function.update R.members i om
        world := { R.world with
          actors := Function.update R.world.actors (slotOf i)
            ((R.world.actors (slotOf i)).spawnPlayer i) } }).modRoom old fun R =>
      { R with members := Function.update R.members i { om with used := false } }
    if (st.sess om.sessIdx).gen = om.sessGen then
      st.modSession om.sessIdx fun s => { s with roomIdx := nr }
    else st

/-- The clock goes over, and the new room's seats are those of its members. -/
def openNew (st : Server) (old nr : Nat) : Server :=
  (st.modRoom nr fun R =>
    { R with
      world := { R.world with tick := (st.rooms old).world.tick }
      tickAtomic := (st.rooms old).world.tick
      everReserved := true
      seatUsed := fun i => (R.members i).used || R.seatUsed i
      reservedSeats := R.reservedSeats +
        (((List.finRange 4).countP fun i => (R.members i).used : Nat) : Int) }).modRoom old fun R =>
    { R with memberCount := 0 }

/-- One pending entry goes over with its seat. -/
def carryJoin (st : Server) (nr : Nat) (e : RoomJoinEntry) : Server :=
  let st := st.modRoom nr fun R =>
    if R.seatUsed e.actorId then { R with pendingJoin := R.pendingJoin ++ [e] }
    else
      { R with
        seatUsed := Function.update R.seatUsed e.actorId true
        reservedSeats := R.reservedSeats + 1
        pendingJoin := R.pendingJoin ++ [e] }
  if (st.sess e.sessIdx).gen = e.sessGen then
    st.modSession e.sessIdx fun s => { s with roomIdx := nr }
  else st

/-- The end of the locked part: the carried leaves, the lists, and the old slot freed. -/
def finishTransfer (st : Server) (old nr : Nat) (moved : Int) (leaves : List RoomLeaveEntry) :
    Server :=
  let st := st.modRoom nr fun R =>
    { R with pendingLeave := R.pendingLeave ++ leaves, memberCount := moved }
  let st := st.forgetRoom old
  let st := if (st.rooms nr).reservedSeats < 4 then { st with openRooms := st.openRooms ++ [nr] }
    else st
  let st := st.freeRoomIfDrained old
  { st with metrics := { st.metrics with roomMoves := st.metrics.roomMoves + 1 } }

/-- `ROOM_EVENT` for one seat of the new room. -/
def announceSeat (st : Server) (nr : Nat) (i : Seat) : Server :=
  let m := (st.rooms nr).members i
  let s := st.sess m.sessIdx
  if !m.used || s.gen != m.sessGen || s.dead then st
  else
    match st.enqueue m.sessIdx (.roomEvent roomMove i.val nr
        (quantPos (kPlayerSpawn i).1) (quantPos (kPlayerSpawn i).2)) with
    | some st' => st'.mark m.sessOwner m.sessIdx
    | none => st

def announce (st : Server) (nr : Nat) : Server :=
  (List.finRange 4).foldl (fun st i => st.announceSeat nr i) st

/-- `_myRooms[i] = moved;` -/
def replaceRoom (st : Server) (g i nr : Nat) : Server :=
  { st with myRooms := Function.update st.myRooms g ((st.myRooms g).set i nr) }

/-- `_myRooms[i] = _myRooms.back(); _myRooms.pop_back();` -/
def removeRoom (st : Server) (g i : Nat) : Server :=
  { st with myRooms := Function.update st.myRooms g (swapRemoveAt (st.myRooms g) i) }

/-! ### Inputs and pings -/

/-- `PushInput` after its checks: the locked push into the room read from the session. -/
def inputPush (st : Server) (r : Nat) (c : InputCmd) : Server :=
  { st.modRoom r fun R => { R with inQ := R.inQ ++ [c] } with
    metrics := { st.metrics with inputsQueued := st.metrics.inputsQueued + 1 } }

/-- The tick of `GetPingInfo`; the remaining time comes from the clock. -/
def pingTick (st : Server) (idx : Nat) : UInt32 :=
  let s := st.sess idx
  if !s.inRoom || decide (st.cap ≤ s.roomIdx) then 0 else (st.rooms s.roomIdx).tickAtomic

end Server

end BeltServer
