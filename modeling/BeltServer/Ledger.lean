import BeltServer.Threads

/-!
# The ledger

What the interleaved machine says about rooms, seats and references, and nothing about
time, inputs or bytes: who owns each room, which seats are promised and to whom, which
sessions are held by how many references. `Ledger.Trans` lists everything a step can do
to it. The ledger of a `System` is `System.ledger`; `LedgerSim.lean` proves that every
step of the machine is one of these transitions or leaves the ledger as it is.
-/

namespace BeltServer

set_option autoImplicit false

open SwapList

/-- A room's seats. `seated` names the session of each used member. -/
@[ext] structure RoomBook where
  owner : Nat
  dead : Bool
  everReserved : Bool
  seatUsed : Seat → Bool
  reservedSeats : Int
  pendingJoin : List RoomJoinEntry
  pendingLeave : List RoomLeaveEntry
  seated : Seat → Option RoomLeaveEntry
  memberCount : Int
  present : Seat → Bool

/-- A session's references and its place. -/
@[ext] structure SessBook where
  refs : Int
  gen : UInt32
  dead : Bool
  owner : Nat
  inRoom : Bool
  roomIdx : Nat
  actorId : Nat

@[ext] structure Books where
  cap : Nat
  freeRooms : List Nat
  openRooms : List Nat
  mail : Nat → List Nat
  myRooms : Nat → List Nat
  room : Nat → RoomBook
  sessCap : Nat
  freeSess : List Nat
  mySessions : Nat → List Nat
  sess : Nat → SessBook

structure Ledger extends Books where
  lock : LockPc
  net : Nat → NetPc
  game : Nat → GamePc

/-- Who takes a step: epoll worker `w` accepting or in a handler, the holder of the manager
lock, or game worker `g`. -/
inductive Actor where
  | accept (w : Nat)
  | net (w : Nat)
  | lock
  | game (g : Nat)
  deriving DecidableEq

def Act.actor : Act → Actor
  | .accept w _ _ _ _ => .accept w
  | .frame w _ _ _ | .disconnect w _ | .flush w _ _ | .net w => .net w
  | .lock => .lock
  | .drain g | .process g _ | .tick g _ | .game g => .game g

namespace RoomBook

def fresh (R : RoomBook) (g : Nat) : RoomBook :=
  { R with
    owner := g
    dead := false
    everReserved := false
    seatUsed := fun _ => false
    reservedSeats := 0
    pendingJoin := []
    pendingLeave := []
    seated := fun _ => none
    memberCount := 0
    present := fun _ => false }

def reserveSeat (R : RoomBook) (i : Seat) : RoomBook :=
  { R with
    seatUsed := Function.update R.seatUsed i true
    everReserved := true
    reservedSeats := R.reservedSeats + 1 }

def openFirst (R : RoomBook) : RoomBook :=
  { R with
    seatUsed := Function.update R.seatUsed firstSeat true
    everReserved := true
    reservedSeats := 1 }

def pushJoin (R : RoomBook) (e : RoomJoinEntry) : RoomBook :=
  { R with pendingJoin := R.pendingJoin ++ [e] }

def pushLeave (R : RoomBook) (e : RoomLeaveEntry) : RoomBook :=
  { R with pendingLeave := R.pendingLeave ++ [e] }

def takeQueues (R : RoomBook) : RoomBook := { R with pendingJoin := [], pendingLeave := [] }

def releaseSeat (R : RoomBook) (i : Seat) : RoomBook :=
  { R with
    seatUsed := Function.update R.seatUsed i false
    reservedSeats := R.reservedSeats - 1 }

def seat (R : RoomBook) (e : RoomJoinEntry) : RoomBook :=
  { R with
    seated := Function.update R.seated e.actorId (some ⟨e.sessIdx, e.sessGen⟩)
    memberCount := R.memberCount + 1
    present := Function.update R.present e.actorId true }

def findLeaver (R : RoomBook) (e : RoomLeaveEntry) : Option Seat :=
  (List.finRange 4).find? fun i => R.seated i == some e

def unseat (R : RoomBook) (i : Seat) : RoomBook :=
  { R with
    seated := Function.update R.seated i none
    memberCount := R.memberCount - 1
    present := Function.update R.present i false
    seatUsed := Function.update R.seatUsed i false
    reservedSeats := R.reservedSeats - 1 }

def judgedEmpty (R : RoomBook) : Bool :=
  !R.dead && R.everReserved && R.reservedSeats == 0 && R.pendingJoin.isEmpty

def markDead (R : RoomBook) : RoomBook := { R with dead := true }

def close (R : RoomBook) : RoomBook :=
  { R with
    dead := true
    pendingJoin := []
    pendingLeave := []
    seatUsed := fun _ => false
    reservedSeats := 0 }

def moveIn (R : RoomBook) (i : Seat) (e : RoomLeaveEntry) : RoomBook :=
  { R with
    seated := Function.update R.seated i (some e)
    present := Function.update R.present i true }

def moveOut (R : RoomBook) (i : Seat) : RoomBook :=
  { R with seated := Function.update R.seated i none }

/-- The seats of the members that moved in are taken. -/
def openMoved (R : RoomBook) : RoomBook :=
  { R with
    everReserved := true
    seatUsed := fun i => (R.seated i).isSome || R.seatUsed i
    reservedSeats := R.reservedSeats +
      (((List.finRange 4).countP fun i => (R.seated i).isSome : Nat) : Int) }

def empty (R : RoomBook) : RoomBook := { R with memberCount := 0 }

def carryJoin (R : RoomBook) (e : RoomJoinEntry) : RoomBook :=
  if R.seatUsed e.actorId then { R with pendingJoin := R.pendingJoin ++ [e] }
  else
    { R with
      seatUsed := Function.update R.seatUsed e.actorId true
      reservedSeats := R.reservedSeats + 1
      pendingJoin := R.pendingJoin ++ [e] }

def finish (R : RoomBook) (moved : Int) (leaves : List RoomLeaveEntry) : RoomBook :=
  { R with pendingLeave := R.pendingLeave ++ leaves, memberCount := moved }

end RoomBook

namespace SessBook

def opened (s : SessBook) (w : Nat) : SessBook :=
  { s with
    refs := 1
    dead := false
    owner := w
    inRoom := false
    roomIdx := 0
    actorId := 0 }

def addRef (s : SessBook) : SessBook := { s with refs := s.refs + 1 }

def cut (s : SessBook) : SessBook := { s with dead := true }

def left (s : SessBook) : SessBook := { s with inRoom := false }

def refused (s : SessBook) (w : Nat) : SessBook :=
  { s.opened w with refs := 0, gen := s.gen + 1, dead := true }

def released (s : SessBook) : SessBook :=
  { s with refs := s.refs - 1, gen := if s.refs = 1 then s.gen + 1 else s.gen }

def placed (s : SessBook) (r : Nat) (i : Seat) : SessBook :=
  { s with inRoom := true, roomIdx := r, actorId := i.val }

def moved (s : SessBook) (gen : UInt32) (r : Nat) : SessBook :=
  if s.gen = gen then { s with roomIdx := r } else s

end SessBook

namespace Books

def modRoom (b : Books) (r : Nat) (f : RoomBook → RoomBook) : Books :=
  { b with room := Function.update b.room r (f (b.room r)) }

def modSess (b : Books) (idx : Nat) (f : SessBook → SessBook) : Books :=
  { b with sess := Function.update b.sess idx (f (b.sess idx)) }

def release (b : Books) (idx : Nat) : Books :=
  { b.modSess idx (·.released) with
    freeSess := if (b.sess idx).refs = 1 then b.freeSess ++ [idx] else b.freeSess }

def dropSession (b : Books) (w idx : Nat) : Books :=
  { b with mySessions := Function.update b.mySessions w (swapRemove (b.mySessions w) idx) }

end Books

namespace Ledger

def modRoom (L : Ledger) (r : Nat) (f : RoomBook → RoomBook) : Ledger :=
  { L with toBooks := L.toBooks.modRoom r f }

def modSess (L : Ledger) (idx : Nat) (f : SessBook → SessBook) : Ledger :=
  { L with toBooks := L.toBooks.modSess idx f }

def release (L : Ledger) (idx : Nat) : Ledger := { L with toBooks := L.toBooks.release idx }

def dropSession (L : Ledger) (w idx : Nat) : Ledger :=
  { L with toBooks := L.toBooks.dropSession w idx }

def setNet (L : Ledger) (w : Nat) (pc : NetPc) : Ledger :=
  { L with net := Function.update L.net w pc }

def setGame (L : Ledger) (g : Nat) (pc : GamePc) : Ledger :=
  { L with game := Function.update L.game g pc }

/-- Worker `w` runs a handler of a session it owns and has not cut. -/
def Handling (L : Ledger) (w idx : Nat) : Prop :=
  (L.net w = .idle ∧ idx ∈ L.mySessions w ∧ (L.sess idx).dead = false) ∨
    L.net w = .refused idx ∨ ∃ actorId roomId, L.net w = .joined idx actorId roomId

def staleJoin (L : Ledger) (e : RoomJoinEntry) : Bool :=
  (L.sess e.sessIdx).gen != e.sessGen || (L.sess e.sessIdx).dead

/-- The transitions, with who takes them. Each is one section of the machine, or several that
look alike here. -/
inductive Trans (L : Ledger) : Actor → Ledger → Prop where
  | accept (w idx : Nat) (hw : L.net w = .idle) (hidx : L.freeSess.getLast? = some idx) :
      Trans L (.accept w) { L.modSess idx (·.opened w) with
        freeSess := L.freeSess.dropLast
        mySessions := Function.update L.mySessions w (L.mySessions w ++ [idx]) }
  | refuse (w idx : Nat) (hidx : L.freeSess.getLast? = some idx) :
      Trans L (.accept w) (L.modSess idx (·.refused w))
  | toIdle (w : Nat)
      (hw : (∃ idx, L.net w = .refused idx) ∨ (∃ idx a r, L.net w = .joined idx a r) ∨
        ∃ idx r c, L.net w = .inputPush idx r c) :
      Trans L (.net w) (L.setNet w .idle)
  | toInput (w idx r : Nat) (c : InputCmd) (hw : L.net w = .idle)
      (hmem : idx ∈ L.mySessions w) (hdead : (L.sess idx).dead = false) :
      Trans L (.net w) (L.setNet w (.inputPush idx r c))
  | toJoin (w idx : Nat) (hw : L.net w = .idle) (hmem : idx ∈ L.mySessions w)
      (hdead : (L.sess idx).dead = false) (hroom : (L.sess idx).inRoom = false) :
      Trans L (.net w) (L.setNet w (.joining idx))
  | cut (w idx : Nat) (hw : L.Handling w idx) :
      Trans L (.net w) ((L.modSess idx (·.cut)).setNet w (.leaveRead idx))
  | leaveNone (w idx : Nat) (hw : L.net w = .leaveRead idx)
      (hroom : (L.sess idx).inRoom = false ∨ L.cap ≤ (L.sess idx).roomIdx) :
      Trans L (.net w) (L.setNet w (.release idx))
  | leaveRead (w idx : Nat) (hw : L.net w = .leaveRead idx)
      (hroom : (L.sess idx).inRoom = true) (hcap : (L.sess idx).roomIdx < L.cap) :
      Trans L (.net w) ((L.modSess idx (·.left)).setNet w
        (.leavePush idx (L.sess idx).roomIdx))
  | leavePush (w idx r : Nat) (hw : L.net w = .leavePush idx r) :
      Trans L (.net w) ((L.modRoom r (·.pushLeave ⟨idx, (L.sess idx).gen⟩)).setNet w (.release idx))
  | netRelease (w idx : Nat) (hw : L.net w = .release idx) :
      Trans L (.net w) (((L.dropSession w idx).release idx).setNet w .idle)
  | noWorkers (w idx : Nat) (hw : L.net w = .joining idx) :
      Trans L (.net w) (L.setNet w (.refused idx))
  | scan (w idx : Nat) (hw : L.net w = .joining idx) (hlock : L.lock = .free) :
      Trans L (.net w) ({ L with lock := .scan w idx }.setNet w (.inJoin idx))
  | scanPop (w idx : Nat) (hlock : L.lock = .scan w idx) :
      Trans L .lock { L with openRooms := L.openRooms.dropLast }
  | scanTake (w idx r : Nat) (i : Seat) (hlock : L.lock = .scan w idx)
      (hr : L.openRooms.getLast? = some r) (hdead : (L.room r).dead = false)
      (hi : (L.room r).seatUsed i = false) :
      Trans L .lock { L.modRoom r (·.reserveSeat i) with
        openRooms :=
          if (L.room r).reservedSeats + 1 = 4 then L.openRooms.dropLast else L.openRooms
        lock := .push w idx r i }
  | scanRefuse (w idx : Nat) (hlock : L.lock = .scan w idx) :
      Trans L .lock ({ L with lock := .free }.setNet w (.refused idx))
  | scanAlloc (w idx r g : Nat) (hlock : L.lock = .scan w idx)
      (hr : L.freeRooms.getLast? = some r) :
      Trans L .lock { L.modRoom r (·.fresh g) with
        freeRooms := L.freeRooms.dropLast
        lock := .mail w idx r }
  | mail (w idx r : Nat) (hlock : L.lock = .mail w idx r) :
      Trans L .lock { L with
        mail := Function.update L.mail (L.room r).owner (L.mail (L.room r).owner ++ [r])
        lock := .first w idx r }
  | first (w idx r : Nat) (hlock : L.lock = .first w idx r) :
      Trans L .lock { L.modRoom r (·.openFirst) with
        openRooms := L.openRooms ++ [r]
        lock := .push w idx r firstSeat }
  | push (w idx r : Nat) (i : Seat) (hlock : L.lock = .push w idx r i) :
      Trans L .lock { (L.modSess idx (·.addRef)).modRoom r
          (·.pushJoin ⟨idx, (L.sess idx).gen, i⟩) with
        lock := .store w idx r i }
  | store (w idx r : Nat) (i : Seat) (hlock : L.lock = .store w idx r i) :
      Trans L .lock ({ L.modSess idx (·.placed r i) with lock := .free }.setNet w
        (.joined idx i.val r))
  | close (g i old nr : Nat) (hlock : L.lock = .close g i old nr) :
      Trans L .lock { L.modRoom old (·.close) with
        lock := .move g i old nr (List.finRange 4) 0 (L.room old).pendingJoin
          (L.room old).pendingLeave }
  | movePass (g i old nr : Nat) (seat : Seat) (rest : List Seat) (moved : Int)
      (joins : List RoomJoinEntry) (leaves : List RoomLeaveEntry)
      (hlock : L.lock = .move g i old nr (seat :: rest) moved joins leaves)
      (hseat : (L.room old).seated seat = none) :
      Trans L .lock { L with lock := .move g i old nr rest moved joins leaves }
  | moveSeat (g i old nr : Nat) (seat : Seat) (rest : List Seat) (moved : Int)
      (joins : List RoomJoinEntry) (leaves : List RoomLeaveEntry) (e : RoomLeaveEntry)
      (hlock : L.lock = .move g i old nr (seat :: rest) moved joins leaves)
      (hseat : (L.room old).seated seat = some e) :
      Trans L .lock { ((L.modRoom nr (·.moveIn seat e)).modRoom old (·.moveOut seat)).modSess
          e.sessIdx (·.moved e.sessGen nr) with
        lock := .move g i old nr rest (moved + 1) joins leaves }
  | moveEnd (g i old nr : Nat) (moved : Int) (joins : List RoomJoinEntry)
      (leaves : List RoomLeaveEntry)
      (hlock : L.lock = .move g i old nr [] moved joins leaves) :
      Trans L .lock { (L.modRoom nr (·.openMoved)).modRoom old (·.empty) with
        lock := .carry g i old nr moved joins leaves }
  | carry (g i old nr : Nat) (moved : Int) (e : RoomJoinEntry) (joins : List RoomJoinEntry)
      (leaves : List RoomLeaveEntry)
      (hlock : L.lock = .carry g i old nr moved (e :: joins) leaves) :
      Trans L .lock { (L.modRoom nr (·.carryJoin e)).modSess e.sessIdx (·.moved e.sessGen nr) with
        lock := .carry g i old nr moved joins leaves }
  | finish (g i old nr : Nat) (moved : Int) (leaves : List RoomLeaveEntry)
      (hlock : L.lock = .carry g i old nr moved [] leaves) :
      Trans L .lock ({ L.modRoom nr (·.finish moved leaves) with
        openRooms :=
          if (L.room nr).reservedSeats < 4 then swapRemove L.openRooms old ++ [nr]
          else swapRemove L.openRooms old
        freeRooms := L.freeRooms ++ [old]
        myRooms := Function.update L.myRooms g ((L.myRooms g).set i nr)
        lock := .free }.setGame g (.announce nr))
  | drain (g : Nat) (hg : L.game g = .idle) :
      Trans L (.game g) { L with
        myRooms := Function.update L.myRooms g (L.myRooms g ++ L.mail g)
        mail := Function.update L.mail g [] }
  | take (g i r : Nat) (hg : L.game g = .idle) (hr : (L.myRooms g)[i]? = some r) :
      Trans L (.game g) ((L.modRoom r (·.takeQueues)).setGame g
        (.joins i r (L.room r).pendingJoin (L.room r).pendingLeave))
  | skip (g i r : Nat) (e : RoomJoinEntry) (js : List RoomJoinEntry) (ls : List RoomLeaveEntry)
      (hg : L.game g = .joins i r (e :: js) ls) (hstale : L.staleJoin e = true) :
      Trans L (.game g) ((L.modRoom r (·.releaseSeat e.actorId)).setGame g
        (.skip i r e.sessIdx js ls))
  | seat (g i r : Nat) (e : RoomJoinEntry) (js : List RoomJoinEntry) (ls : List RoomLeaveEntry)
      (hg : L.game g = .joins i r (e :: js) ls) (hstale : L.staleJoin e = false) :
      Trans L (.game g) ((L.modRoom r (·.seat e)).setGame g (.joins i r js ls))
  | joinsEnd (g i r : Nat) (ls : List RoomLeaveEntry) (hg : L.game g = .joins i r [] ls) :
      Trans L (.game g) (L.setGame g (.leaves i r ls))
  | skipRelease (g i r idx : Nat) (js : List RoomJoinEntry) (ls : List RoomLeaveEntry)
      (hg : L.game g = .skip i r idx js ls) :
      Trans L (.game g) ((L.release idx).setGame g (.joins i r js ls))
  | unseat (g i r : Nat) (seat : Seat) (e : RoomLeaveEntry) (ls : List RoomLeaveEntry)
      (hg : L.game g = .leaves i r (e :: ls)) (hseat : (L.room r).findLeaver e = some seat) :
      Trans L (.game g) ((L.modRoom r (·.unseat seat)).setGame g (.drop i r e.sessIdx ls))
  | noLeaver (g i r : Nat) (e : RoomLeaveEntry) (ls : List RoomLeaveEntry)
      (hg : L.game g = .leaves i r (e :: ls)) (hseat : (L.room r).findLeaver e = none) :
      Trans L (.game g) (L.setGame g (.leaves i r ls))
  | dropRelease (g i r idx : Nat) (ls : List RoomLeaveEntry)
      (hg : L.game g = .drop i r idx ls) :
      Trans L (.game g) ((L.release idx).setGame g (.leaves i r ls))
  | die (g i r : Nat) (hg : L.game g = .leaves i r []) (hempty : (L.room r).judgedEmpty = true) :
      Trans L (.game g) ((L.modRoom r (·.markDead)).setGame g (.free i r))
  | live (g i r : Nat) (hg : L.game g = .leaves i r []) :
      Trans L (.game g) (L.setGame g .idle)
  | freeRoom (g i r : Nat) (hg : L.game g = .free i r) (hlock : L.lock = .free) :
      Trans L (.game g) ({ L with
        openRooms := swapRemove L.openRooms r
        freeRooms := L.freeRooms ++ [r]
        myRooms := Function.update L.myRooms g (swapRemoveAt (L.myRooms g) i) }.setGame g .idle)
  | exit (g i r : Nat) (hg : L.game g = .idle) (hr : (L.myRooms g)[i]? = some r) :
      Trans L (.game g) (L.setGame g (.exit i r))
  | stay (g i r : Nat) (hg : L.game g = .exit i r) : Trans L (.game g) (L.setGame g .idle)
  | transfer (g i old nr : Nat) (hg : L.game g = .exit i old) (hlock : L.lock = .free)
      (hnr : L.freeRooms.getLast? = some nr) :
      Trans L (.game g) ({ L.modRoom nr (·.fresh (L.room old).owner) with
        freeRooms := L.freeRooms.dropLast
        lock := .close g i old nr }.setGame g (.moving i old))
  | announced (g nr : Nat) (hg : L.game g = .announce nr) : Trans L (.game g) (L.setGame g .idle)

end Ledger

def Room.book (R : Room) : RoomBook where
  owner := R.gameWorker
  dead := R.dead
  everReserved := R.everReserved
  seatUsed := R.seatUsed
  reservedSeats := R.reservedSeats
  pendingJoin := R.pendingJoin
  pendingLeave := R.pendingLeave
  seated i :=
    if (R.members i).used then some ⟨(R.members i).sessIdx, (R.members i).sessGen⟩ else none
  memberCount := R.memberCount
  present i := (R.world.actors (slotOf i)).present

theorem Room.seated_isSome (R : Room) (i : Seat) : (R.book.seated i).isSome = (R.members i).used := by
  unfold Room.book
  cases hused : (R.members i).used <;> simp [hused]

theorem Room.seated_eq_some {R : Room} {i : Seat} {e : RoomLeaveEntry} :
    R.book.seated i = some e ↔ (R.members i).used = true ∧ (R.members i).sessIdx = e.sessIdx ∧
      (R.members i).sessGen = e.sessGen := by
  unfold Room.book
  cases hused : (R.members i).used
  · simp [hused]
  · simp only [hused, if_true, Option.some.injEq, true_and]
    exact RoomLeaveEntry.mk.injEq .. ▸ Iff.rfl

def Session.book (s : Session) : SessBook where
  refs := s.refs
  gen := s.gen
  dead := s.dead
  owner := s.owner
  inRoom := s.inRoom
  roomIdx := s.roomIdx
  actorId := s.actorId

def Server.books (st : Server) : Books where
  cap := st.cap
  freeRooms := st.freeRooms
  openRooms := st.openRooms
  mail := st.mail
  myRooms := st.myRooms
  room r := (st.rooms r).book
  sessCap := st.pool.cap
  freeSess := st.pool.free
  mySessions := st.mySessions
  sess idx := (st.sess idx).book

def System.ledger (s : System) : Ledger :=
  { s.srv.books with lock := s.lock, net := s.net, game := s.game }

end BeltServer
