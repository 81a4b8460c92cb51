import BeltServer.Sim

/-!
# Rooms

`Room.h` and the parts of `RoomManager.cpp` that touch one room only: the seat ledger
under `room.lock`, the members with their input rings, and the body of a tick up to the
snapshot. Counters that the source decrements are integers.
-/

namespace BeltServer

set_option autoImplicit false

structure InputCmd where
  sessIdx : Nat := 0
  sessGen : UInt32 := 0
  actorId : Nat := 0
  seq : UInt32 := 0
  mx : Int8 := 0
  my : Int8 := 0
  attack : UInt8 := 0
  skill : UInt8 := 0
  deriving DecidableEq, Repr

def InputCmd.isNeutral (c : InputCmd) : Bool :=
  c.mx == 0 && c.my == 0 && c.attack == 0 && c.skill == 0

abbrev kInputRingDepth : Nat := 8

structure RoomJoinEntry where
  sessIdx : Nat
  sessGen : UInt32
  actorId : Seat
  deriving DecidableEq, Repr

structure RoomLeaveEntry where
  sessIdx : Nat
  sessGen : UInt32
  deriving DecidableEq, Repr

structure Member where
  used : Bool := false
  sessIdx : Nat := 0
  sessGen : UInt32 := 0
  sessOwner : Nat := 0
  ring : Fin 8 → InputCmd := fun _ => {}
  ringHead : Nat := 0
  ringCount : Nat := 0
  held : InputCmd := {}
  lastInputSeq : UInt32 := 0
  emptyStreak : Nat := 0

namespace Member

def dropOldest (m : Member) : Member :=
  { m with ringHead := (m.ringHead + 1) % kInputRingDepth, ringCount := m.ringCount - 1 }

def store (m : Member) (c : InputCmd) : Member :=
  { m with
    ring := Function.update m.ring (Fin.ofNat 8 (m.ringHead + m.ringCount)) c
    ringCount := m.ringCount + 1 }

/-- One routed input, with the number of inputs dropped for it. -/
def push (m : Member) (c : InputCmd) : Member × Nat :=
  if m.ringCount = kInputRingDepth then (m.dropOldest.store c, 1) else (m.store c, 0)

/-- The one consumption of a tick, with the count it adds to `inputNeutralized`. -/
def consume (m : Member) : Member × Nat :=
  if 0 < m.ringCount then
    let held := m.ring (Fin.ofNat 8 m.ringHead)
    ({ m with
        held
        ringHead := (m.ringHead + 1) % kInputRingDepth
        ringCount := m.ringCount - 1
        lastInputSeq := held.seq
        emptyStreak := 0 }, 0)
  else if 10 < m.emptyStreak + 1 then
    ({ m with
        emptyStreak := m.emptyStreak + 1
        held := { m.held with mx := 0, my := 0, attack := 0, skill := 0 } },
      if m.held.isNeutral then 0 else 1)
  else ({ m with emptyStreak := m.emptyStreak + 1 }, 0)

theorem push_identity (m : Member) (c : InputCmd) :
    (m.push c).1.used = m.used ∧ (m.push c).1.sessIdx = m.sessIdx ∧
      (m.push c).1.sessGen = m.sessGen := by
  unfold push
  split <;> exact ⟨rfl, rfl, rfl⟩

theorem consume_identity (m : Member) :
    m.consume.1.used = m.used ∧ m.consume.1.sessIdx = m.sessIdx ∧
      m.consume.1.sessGen = m.sessGen := by
  unfold consume
  split
  · exact ⟨rfl, rfl, rfl⟩
  · split <;> exact ⟨rfl, rfl, rfl⟩

end Member

structure Room where
  gen : UInt32 := 0
  gameWorker : Nat := 0
  dead : Bool := false
  everReserved : Bool := false
  seatUsed : Seat → Bool := fun _ => false
  reservedSeats : Int := 0
  pendingJoin : List RoomJoinEntry := []
  pendingLeave : List RoomLeaveEntry := []
  inQ : List InputCmd := []
  members : Seat → Member := fun _ => {}
  memberCount : Int := 0
  world : SimWorld := {}
  tickAtomic : UInt32 := 0

namespace Room

/-- `AllocRoomSlotLocked` up to the choice of the worker. -/
def reset (R : Room) : Room :=
  { R with
    dead := false
    everReserved := false
    reservedSeats := 0
    seatUsed := fun _ => false
    pendingJoin := []
    pendingLeave := []
    members := fun _ => {}
    memberCount := 0
    inQ := []
    world := resetWorld
    tickAtomic := 0 }

def firstFree (R : Room) : Option Seat := (List.finRange 4).find? fun i => !R.seatUsed i

def reserveSeat (R : Room) (i : Seat) : Room :=
  { R with
    seatUsed := Function.update R.seatUsed i true
    everReserved := true
    reservedSeats := R.reservedSeats + 1 }

def releaseSeat (R : Room) (i : Seat) : Room :=
  { R with
    seatUsed := Function.update R.seatUsed i false
    reservedSeats := R.reservedSeats - 1 }

/-- The join entry becomes a member at its seat and its actor stands at the spawn point. -/
def seatMember (R : Room) (e : RoomJoinEntry) (owner : Nat) : Room :=
  { R with
    members := Function.update R.members e.actorId
      { used := true, sessIdx := e.sessIdx, sessGen := e.sessGen, sessOwner := owner }
    memberCount := R.memberCount + 1
    world := { R.world with
      actors := Function.update R.world.actors (slotOf e.actorId)
        ((R.world.actors (slotOf e.actorId)).spawnPlayer e.actorId) } }

/-- The first member that a leave entry names. -/
def findLeaver (R : Room) (e : RoomLeaveEntry) : Option Seat :=
  (List.finRange 4).find? fun i =>
    (R.members i).used && (R.members i).sessIdx == e.sessIdx && (R.members i).sessGen == e.sessGen

def unseat (R : Room) (i : Seat) : Room :=
  { R with
    members := Function.update R.members i { R.members i with used := false }
    memberCount := R.memberCount - 1
    world := { R.world with
      actors := Function.update R.world.actors (slotOf i)
        { R.world.actors (slotOf i) with present := false } } }

def judgedEmpty (R : Room) : Bool :=
  !R.dead && R.everReserved && R.reservedSeats == 0 && R.pendingJoin.isEmpty

/-- The routing of one queued input, with the number of inputs dropped for it. -/
def route (R : Room) (c : InputCmd) : Room × Nat :=
  if h : c.actorId < 4 then
    let i : Seat := ⟨c.actorId, h⟩
    let m := R.members i
    if !m.used || m.sessIdx != c.sessIdx || m.sessGen != c.sessGen then (R, 0)
    else ({ R with members := Function.update R.members i (m.push c).1 }, (m.push c).2)
  else (R, 0)

/-- The whole batch of a tick, with the inputs dropped so far in `drops`. -/
def routeAll : Room → List InputCmd → Nat → Room × Nat
  | R, [], drops => (R, drops)
  | R, c :: cs, drops => routeAll (R.route c).1 cs (drops + (R.route c).2)

/-- Exactly one input is consumed for each member. -/
def consumeAll (R : Room) : Room :=
  { R with members := fun i => if (R.members i).used then (R.members i).consume.1 else R.members i }

def neutralized (R : Room) : Nat :=
  ((List.finRange 4).map fun i => if (R.members i).used then (R.members i).consume.2 else 0).sum

def simInputs (R : Room) (i : Seat) : SimInput :=
  if (R.members i).used then
    { mx := (R.members i).held.mx.toInt, my := (R.members i).held.my.toInt }
  else {}

def simulate (R : Room) : Room :=
  { R with
    world := { simStep R.world R.simInputs with tick := R.world.tick + 1 }
    tickAtomic := R.world.tick + 1 }

/-- The queue is taken and routed to the rings of the members. -/
def routeInputs (R : Room) : Room × Nat := routeAll { R with inQ := [] } R.inQ 0

/-- The room part of `RoomTick` up to the snapshot. -/
def step (R : Room) : Room := R.routeInputs.1.consumeAll.simulate

def snapActor (a : SimActor) (i : Slot) : SnapActor :=
  if a.present then
    { id := UInt8.ofNat i.val, kind := a.kind, state := a.state, face := a.face
      qx := quantPos a.x, qy := quantPos a.y, hp := a.hp }
  else { id := UInt8.ofNat i.val, kind := a.kind, state := 255 }

def snapshot (R : Room) : Snapshot where
  serverTick := R.world.tick
  lastInputSeq i := if (R.members i).used then (R.members i).lastInputSeq else 0
  actors i := snapActor (R.world.actors i) i

/-- The exit test of `ExitCheckAndMaybeTransfer`. -/
def exitReady (R : Room) : Bool :=
  R.memberCount != 0 && (List.finRange 4).all fun i =>
    !(R.members i).used ||
      ((R.world.actors (slotOf i)).present && decide (EXIT_ZONE_X ≤ (R.world.actors (slotOf i)).x))

end Room

end BeltServer
