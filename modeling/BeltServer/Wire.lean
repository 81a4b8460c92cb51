import Mathlib.Data.Rat.Floor
import Mathlib.Data.Fintype.Pi

/-!
# Wire messages

Frames of `Protocol.h`: a frame starts with a 16-bit size, which counts the header, and a
16-bit type, both little-endian. Client frames are decoded from their bytes the way
`EpollWorker::Dispatch` reads them through the packed structs. Server messages are kept
as their fields; `Msg.size` is the `sizeof` of the packed struct.
-/

namespace BeltServer

set_option autoImplicit false

/-- A seat of a room; `kRoomMembers` and `kRoomMembersWire` are 4. -/
abbrev Seat := Fin 4

/-- The seat of the first reservation in a new room. -/
def firstSeat : Seat := ⟨0, by decide⟩

/-- An actor slot of a room, the four seats and then ten orcs; `kSnapActors` is 14. -/
abbrev Slot := Fin 14

/-- The actor slot of a seat is its own number. -/
def slotOf (i : Seat) : Slot := i.castLE (by decide)

def kProtocolVersion : UInt16 := 1

def ECHO : UInt16 := 1
def C2S_JOIN : UInt16 := 10
def C2S_INPUT : UInt16 := 11
def C2S_PING : UInt16 := 12

def versionMismatch : UInt8 := 1
def noCapacity : UInt8 := 2
def alreadyJoined : UInt8 := 3

def roomMove : UInt8 := 3

def kPosQuantScale : ℚ := 32

/-- `QuantPos`: 1/32 px, rounded half up, truncated to 16 bits by the cast. -/
def quantPos (v : ℚ) : UInt16 :=
  let v := if v < 0 then 0 else v
  UInt16.ofNat ⌊v * kPosQuantScale + 1 / 2⌋.toNat

def leNat : List UInt8 → Nat
  | [] => 0
  | b :: bs => b.toNat + 256 * leNat bs

def bytesAt (f : List UInt8) (off n : Nat) : List UInt8 := (f.drop off).take n

/-- A client frame as `Dispatch` understands it; `reject` stands for its two reasons to
disconnect, a length that is not the type's and an unknown type. -/
inductive ClientMsg where
  | echo (frame : List UInt8)
  | join (protocolVer : UInt16)
  | input (seq : UInt32) (mx my : Int8) (attack skill : UInt8)
  | ping (clientTimeUs : UInt64)
  | reject
  deriving DecidableEq, Repr

/-- The switch of `EpollWorker::Dispatch` over `header.type`, with its length checks. -/
def ClientMsg.decode (f : List UInt8) : ClientMsg :=
  let type := UInt16.ofNat (leNat (bytesAt f 2 2))
  if type = ECHO then .echo f
  else if type = C2S_JOIN then
    if f.length ≠ 6 then .reject
    else .join (UInt16.ofNat (leNat (bytesAt f 4 2)))
  else if type = C2S_INPUT then
    if f.length ≠ 12 then .reject
    else .input (UInt32.ofNat (leNat (bytesAt f 4 4)))
      (f.getD 8 0).toInt8 (f.getD 9 0).toInt8 (f.getD 10 0) (f.getD 11 0)
  else if type = C2S_PING then
    if f.length ≠ 12 then .reject
    else .ping (UInt64.ofNat (leNat (bytesAt f 4 8)))
  else .reject

structure SnapActor where
  id : UInt8 := 0
  kind : UInt8 := 0
  state : UInt8 := 0
  face : Int8 := 0
  qx : UInt16 := 0
  qy : UInt16 := 0
  hp : Int16 := 0
  deriving DecidableEq, Repr

/-- `MSG_S2C_SNAPSHOT` without its header; `actorCount` is the constant 14. -/
structure Snapshot where
  serverTick : UInt32
  lastInputSeq : Seat → UInt32
  actors : Slot → SnapActor
  deriving DecidableEq

/-- Messages the server puts into a send ring. Room and actor numbers are kept as the
indices they are; a snapshot also carries the number of the room it was taken of, which
is not on the wire and only serves to state what a client was told. -/
inductive Msg where
  | echo (frame : List UInt8)
  | joinOk (actorId roomId : Nat) (serverTick : UInt32)
  | joinFail (reason : UInt8)
  | snapshot (room : Nat) (snap : Snapshot)
  | pong (clientTimeUs : UInt64) (serverTick tickRemainUs : UInt32)
  | roomEvent (kind : UInt8) (actorId roomId : Nat) (spawnQX spawnQY : UInt16)
  deriving DecidableEq

/-- `sizeof` of the packed struct, or the length of the echoed frame. -/
def Msg.size : Msg → Nat
  | .echo frame => frame.length
  | .joinOk .. => 13
  | .joinFail .. => 5
  | .snapshot .. => 165
  | .pong .. => 20
  | .roomEvent .. => 14

end BeltServer
