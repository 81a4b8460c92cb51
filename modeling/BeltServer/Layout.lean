import BeltServer.Framing
import BeltServer.Lib.LittleEndian
import Mathlib.Algebra.Order.Ring.Rat
import Mathlib.Tactic.FieldSimp

/-!
# The wire format, twice

`Protocol.h` lays a message out as a packed struct; `belt-proto.js` reads and writes the same
bytes at literal offsets of a `DataView`. Both are written down here as they stand, and the
server's structs are what the client reads, the client's frames what the server reads.
-/

namespace BeltServer

set_option autoImplicit false

open LittleEndian LengthPrefix

/-! ### The packed structs -/

def u8 (x : UInt8) : Field := ⟨1, x.toNat, x.toNat_lt⟩
def u16 (x : UInt16) : Field := ⟨2, x.toNat, x.toNat_lt⟩
def u32 (x : UInt32) : Field := ⟨4, x.toNat, x.toNat_lt⟩
def i8 (x : Int8) : Field := ⟨1, x.toBitVec.toNat, x.toBitVec.isLt⟩
def i16 (x : Int16) : Field := ⟨2, x.toBitVec.toNat, x.toBitVec.isLt⟩
def i64 (x : Int64) : Field := ⟨8, x.toBitVec.toNat, x.toBitVec.isLt⟩

/-- `MsgType`, server to client. -/
def S2C_JOIN_OK : UInt16 := 100
def S2C_JOIN_FAIL : UInt16 := 101
def S2C_SNAPSHOT : UInt16 := 102
def S2C_PONG : UInt16 := 103
def S2C_ROOM_EVENT : UInt16 := 104

def kSnapActors : UInt8 := 14

def SnapActor.fields (a : SnapActor) : List Field :=
  [u8 a.id, u8 a.kind, u8 a.state, i8 a.face, u16 a.qx, u16 a.qy, i16 a.hp]

/-- A message with the fields of its struct after the header. -/
inductive ServerMsg where
  | joinOk (actorId : UInt8) (roomId serverTick : UInt32)
  | joinFail (reason : UInt8)
  | roomEvent (kind actorId : UInt8) (roomId : UInt32) (spawnQX spawnQY : UInt16)
  | snapshot (serverTick : UInt32) (actorCount : UInt8) (lastInputSeq : Seat → UInt32)
      (actors : Slot → SnapActor)
  | pong (clientTimeUs : Int64) (serverTick tickRemainUs : UInt32)

namespace ServerMsg

def type : ServerMsg → UInt16
  | .joinOk .. => S2C_JOIN_OK
  | .joinFail .. => S2C_JOIN_FAIL
  | .roomEvent .. => S2C_ROOM_EVENT
  | .snapshot .. => S2C_SNAPSHOT
  | .pong .. => S2C_PONG

def body : ServerMsg → List Field
  | .joinOk actorId roomId serverTick => [u8 actorId, u32 roomId, u32 serverTick]
  | .joinFail reason => [u8 reason]
  | .roomEvent kind actorId roomId spawnQX spawnQY =>
    [u8 kind, u8 actorId, u32 roomId, u16 spawnQX, u16 spawnQY]
  | .snapshot serverTick actorCount lastInputSeq actors =>
    [u32 serverTick, u8 actorCount] ++ (List.finRange 4).flatMap (fun i => [u32 (lastInputSeq i)]) ++
      (List.finRange 14).flatMap fun i => (actors i).fields
  | .pong clientTimeUs serverTick tickRemainUs =>
    [i64 clientTimeUs, u32 serverTick, u32 tickRemainUs]

def sizeof (m : ServerMsg) : Nat := headerSize + size m.body

def fields (m : ServerMsg) : List Field := u16 (UInt16.ofNat m.sizeof) :: u16 m.type :: m.body

def bytes (m : ServerMsg) : List UInt8 := pack m.fields

end ServerMsg

def Msg.bytes : Msg → List UInt8
  | .echo frame => frame
  | .joinOk actorId roomId serverTick =>
    (ServerMsg.joinOk (UInt8.ofNat actorId) (UInt32.ofNat roomId) serverTick).bytes
  | .joinFail reason => (ServerMsg.joinFail reason).bytes
  | .snapshot _ snap =>
    (ServerMsg.snapshot snap.serverTick kSnapActors snap.lastInputSeq snap.actors).bytes
  | .pong clientTimeUs serverTick tickRemainUs =>
    (ServerMsg.pong clientTimeUs.toInt64 serverTick tickRemainUs).bytes
  | .roomEvent kind actorId roomId spawnQX spawnQY =>
    (ServerMsg.roomEvent kind (UInt8.ofNat actorId) (UInt32.ofNat roomId) spawnQX spawnQY).bytes

/-! ### The client -/

namespace BeltProto

/-- The constants of `MSG` and their neighbours. -/
def MSG_C2S_JOIN : Nat := 10
def MSG_C2S_INPUT : Nat := 11
def MSG_C2S_PING : Nat := 12
def MSG_S2C_JOIN_OK : Nat := 100
def MSG_S2C_JOIN_FAIL : Nat := 101
def MSG_S2C_SNAPSHOT : Nat := 102
def MSG_S2C_PONG : Nat := 103
def MSG_S2C_ROOM_EVENT : Nat := 104
def PROTOCOL_VERSION : Int := 1
def POS_QUANT : ℚ := 32
def SNAP_ACTORS : Nat := 14

/-- `getUint8`, `getUint16` and `getUint32` of a `DataView`, little-endian; no value where it throws
a `RangeError`. -/
def getUint (d : List UInt8) (off n : Nat) : Option Nat :=
  if off + n ≤ d.length then some (value ((d.drop off).take n)) else none

/-- `getInt8`, `getInt16` and `getBigInt64`. -/
def getInt (d : List UInt8) (off n : Nat) : Option Int := (getUint d off n).map (signed (8 * n))

/-- The setters: an integer is stored modulo the range of the field, signed or not. -/
def setInt (d : List UInt8) (off n : Nat) (v : Int) : Option (List UInt8) :=
  if off + n ≤ d.length then some (d.take off ++ (Field.ofInt n v).bytes ++ d.drop (off + n))
  else none

def mkHeader (size type : Nat) : Option (List UInt8) := do
  let d ← setInt (List.replicate size 0) 0 2 size
  setInt d 2 2 type

/-- A call of one of the functions of `enc`; `attack` and `skill` are truth values. -/
inductive Call where
  | join
  | input (seq mx my : Int) (attack skill : Bool)
  | ping (timeUs : Int)
  deriving DecidableEq

def enc : Call → Option (List UInt8)
  | .join => do
    let d ← mkHeader 6 MSG_C2S_JOIN
    setInt d 4 2 PROTOCOL_VERSION
  | .input seq mx my attack skill => do
    let d ← mkHeader 12 MSG_C2S_INPUT
    let d ← setInt d 4 4 (seq % 2 ^ 32)
    let d ← setInt d 8 1 mx
    let d ← setInt d 9 1 my
    let d ← setInt d 10 1 (if attack then 1 else 0)
    setInt d 11 1 (if skill then 1 else 0)
  | .ping timeUs => do
    let d ← mkHeader 12 MSG_C2S_PING
    setInt d 4 8 timeUs

structure Actor where
  id : Nat
  kind : Nat
  state : Nat
  face : Int
  x : ℚ
  y : ℚ
  hp : Int

inductive Decoded where
  | joinOk (actorId roomId serverTick : Nat)
  | joinFail (reason : Nat)
  | pong (clientTimeUs : Int) (serverTick tickRemainUs : Nat)
  | roomEvent (kind actorId roomId spawnQX spawnQY : Nat)
  | snapshot (serverTick actorCount : Nat) (lastInputSeq : List Nat) (actors : List Actor)
  | other (type : Nat)

def decodeActor (d : List UInt8) (off : Nat) : Option Actor := do
  let id ← getUint d off 1
  let kind ← getUint d (off + 1) 1
  let state ← getUint d (off + 2) 1
  let face ← getInt d (off + 3) 1
  let qx ← getUint d (off + 4) 2
  let qy ← getUint d (off + 6) 2
  let hp ← getInt d (off + 8) 2
  some { id, kind, state, face, x := qx / POS_QUANT, y := qy / POS_QUANT, hp }

def decode (d : List UInt8) : Option Decoded := do
  let type ← getUint d 2 2
  if type = MSG_S2C_JOIN_OK then do
    let actorId ← getUint d 4 1
    let roomId ← getUint d 5 4
    let serverTick ← getUint d 9 4
    some (.joinOk actorId roomId serverTick)
  else if type = MSG_S2C_JOIN_FAIL then do
    let reason ← getUint d 4 1
    some (.joinFail reason)
  else if type = MSG_S2C_PONG then do
    let clientTimeUs ← getInt d 4 8
    let serverTick ← getUint d 12 4
    let tickRemainUs ← getUint d 16 4
    some (.pong clientTimeUs serverTick tickRemainUs)
  else if type = MSG_S2C_ROOM_EVENT then do
    let kind ← getUint d 4 1
    let actorId ← getUint d 5 1
    let roomId ← getUint d 6 4
    let spawnQX ← getUint d 10 2
    let spawnQY ← getUint d 12 2
    some (.roomEvent kind actorId roomId spawnQX spawnQY)
  else if type = MSG_S2C_SNAPSHOT then do
    let serverTick ← getUint d 4 4
    let actorCount ← getUint d 8 1
    let lastInputSeq ← (List.range 4).mapM fun i => getUint d (9 + i * 4) 4
    -- `off` starts at `9 + 16` and advances by 10
    let actors ← (List.range SNAP_ACTORS).mapM fun i => decodeActor d (9 + 16 + i * 10)
    some (.snapshot serverTick actorCount lastInputSeq actors)
  else some (.other type)

theorem reassembler_max : headerSize ≤ 4096 := by decide

/-- `Reassembler`: frames as the server has them, but of up to 4096 bytes; on any other size it
throws away what it has. -/
def reassembler : Format UInt8 := { frameFormat with max := 4096, header_le := reassembler_max }

theorem reassembler_whole {f : List UInt8} (h : frameFormat.Whole f) : reassembler.Whole f :=
  ⟨h.1, h.2.1, Nat.le_trans h.2.2 (by decide)⟩

end BeltProto

end BeltServer
