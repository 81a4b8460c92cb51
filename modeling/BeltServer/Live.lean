import BeltServer.Deframers
import BeltServer.Lib.Timeline
import BeltServer.RoundTrip

/-!
# The page that follows the server

`live.js`: what the page makes of the packets of the server, what it sends, and where it draws
the actors, 100 ms behind the last snapshot. Between page and server stands `relay.js`, which
passes on whatever arrives, piece by piece. This is the first connection of the page: 1.5 s after
`onclose` it connects anew, with its variables and timers as they are, and that is left out.
-/

namespace BeltServer

set_option autoImplicit false

open Runs BeltProto

/-! ### The relay -/

/-- One connection of `relay.js`: whether the `WebSocket` is `OPEN` and the TCP socket `writable`,
the counts of bytes, and the pieces written to either side. -/
structure Relay where
  wsOpen : Bool := true
  tcpWritable : Bool := true
  up : Nat := 0
  down : Nat := 0
  toServer : List (List UInt8) := []
  toBrowser : List (List UInt8) := []

/-- The events of its two sockets; neither opens again once it is closed. -/
inductive RelayAct where
  | message (data : List UInt8)
  | data (buf : List UInt8)
  | wsClosing
  | tcpEnded
  | bye

namespace Relay

def step : RelayAct → Relay → Option Relay
  | .message data, r => some { r with
      up := r.up + data.length
      toServer := if r.tcpWritable then r.toServer ++ [data] else r.toServer }
  | .data buf, r => some { r with
      down := r.down + buf.length
      toBrowser := if r.wsOpen then r.toBrowser ++ [buf] else r.toBrowser }
  | .wsClosing, r => some { r with wsOpen := false }
  | .tcpEnded, r => some { r with tcpWritable := false }
  | .bye, r => some { r with wsOpen := false, tcpWritable := false }

def fromBrowser : RelayAct → Relay → List (List UInt8)
  | .message data, _ => [data]
  | _, _ => []

def fromServer : RelayAct → Relay → List (List UInt8)
  | .data buf, _ => [buf]
  | _, _ => []

variable {r : Relay} {ps : List (List UInt8)}

/-- The server is given the pieces of the browser, in order and up to some point. -/
theorem upward (h : Traced step fromBrowser {} ps r) :
    r.toServer <+: ps ∧ (r.tcpWritable = true → r.toServer = ps) := by
  refine h.gated rfl fun s a t hstep => ?_
  cases a with
  | message data =>
    cases hstep
    exact ⟨rfl, id⟩
  | data | wsClosing | tcpEnded | bye =>
    cases hstep
    simp [fromBrowser]

/-- The browser is given the pieces of the server, in order and up to some point. -/
theorem downward (h : Traced step fromServer {} ps r) :
    r.toBrowser <+: ps ∧ (r.wsOpen = true → r.toBrowser = ps) := by
  refine h.gated rfl fun s a t hstep => ?_
  cases a with
  | data buf =>
    cases hstep
    exact ⟨rfl, id⟩
  | message | wsClosing | tcpEnded | bye =>
    cases hstep
    simp [fromServer]

end Relay

/-! ### The page -/

def interpMs : Int := 100

/-- An entry of `snaps`, with the time at which it came. -/
structure Snap where
  time : Int
  serverTick : Nat
  actors : List BeltProto.Actor

structure Page where
  myActorId : Int := -1
  roomId : Int := -1
  snaps : List Snap := []
  snapCount : Nat := 0
  moveEvents : Nat := 0
  rttMs : Int := 0
  lastServerTick : Nat := 0
  firstMyX : ℚ := -1
  lastMyX : ℚ := -1
  /-- The reason on the display after a JOIN_FAIL. -/
  refused : Option Nat := none
  /-- How often the two intervals were set. -/
  timers : Nat := 0

/-- `push`, and `shift` when the buffer has grown over 30 entries. -/
def keepSnap (snaps : List Snap) (x : Snap) : List Snap :=
  let snaps := snaps ++ [x]
  if 30 < snaps.length then snaps.tail else snaps

namespace Page

/-- The first and the last place of the own actor; the page throws if there is no such actor. -/
def watchMe (p : Page) (actors : List BeltProto.Actor) : Option Page :=
  if p.myActorId < 0 then some p
  else do
    let me ← actors[p.myActorId.toNat]?
    some { p with firstMyX := if p.firstMyX < 0 then me.x else p.firstMyX, lastMyX := me.x }

/-- `onPacket` after the decoding; `now` is what `Date.now()` returns. -/
def onDecoded (p : Page) (now : Int) : Decoded → Option Page
  | .joinOk actorId roomId _ =>
    some { p with myActorId := actorId, roomId := roomId, timers := p.timers + 1 }
  | .joinFail reason => some { p with refused := some reason }
  | .pong clientTimeUs _ _ => some { p with rttMs := now - clientTimeUs.tdiv 1000 }
  | .roomEvent kind _ roomId _ _ =>
    if kind = 3 then
      some { p with roomId := roomId, snaps := [], moveEvents := p.moveEvents + 1 }
    else some p
  | .snapshot serverTick _ _ actors =>
    { p with
      snapCount := p.snapCount + 1
      lastServerTick := serverTick
      snaps := keepSnap p.snaps ⟨now, serverTick, actors⟩ }.watchMe actors
  | .other _ => some p

def onPacket (p : Page) (now : Int) (packet : List UInt8) : Option Page :=
  (decode packet).bind (p.onDecoded now)

/-- The pair of snapshots to draw between: the first two neighbours around the time `t`, or the
oldest and the newest one. -/
def bracket (t : Int) (snaps : List Snap) (first last : Snap) : Snap × Snap :=
  (Timeline.around Snap.time t snaps).getD (first, last)

def ratio (t a b : Int) : ℚ := Timeline.weight (t : ℚ) a b

/-- One actor of two snapshots; 255 is the state of an empty slot. -/
def blend (r : ℚ) (av bv : BeltProto.Actor) : BeltProto.Actor :=
  if av.state = 255 ∨ bv.state = 255 then bv
  else { bv with x := Timeline.lerp r av.x bv.x, y := Timeline.lerp r av.y bv.y }

/-- `sampleActors`: the actors as they are drawn, `now` being the time. -/
def sampleActors (p : Page) (now : Int) : Option (List BeltProto.Actor) :=
  match p.snaps.head?, p.snaps.getLast? with
  | some first, some last =>
    let t := now - interpMs
    let (a, b) := bracket t p.snaps first last
    some (List.zipWith (blend (ratio t a.time b.time)) a.actors b.actors)
  | _, _ => none

end Page

/-! ### What the page sends -/

/-- The keys that are down. -/
structure Keys where
  left : Bool := false
  right : Bool := false
  up : Bool := false
  down : Bool := false
  attack : Bool := false
  skill : Bool := false

/-- `readInput`, as a call of `enc.input`; the probe walks to the right. -/
def readInput (probe : Bool) (snapCount : Nat) (k : Keys) (seq : Nat) : Call :=
  if probe then .input seq (if snapCount < 40 then 1 else 0) 0 false false
  else
    .input seq (if k.right then 1 else if k.left then -1 else 0)
      (if k.down then 1 else if k.up then -1 else 0) k.attack k.skill

/-- `Date.now()`, as long as its product with 1000 is an exact number. -/
abbrev Now := { t : Int // 0 ≤ t ∧ t * 1000 ≤ 2 ^ 53 }

/-- The page with its `WebSocket` and its reassembler, over its first connection. -/
structure Tab where
  page : Page := {}
  re : Reassembler := {}
  opened : Bool := false
  closed : Bool := false
  seq : Nat := 0
  /-- The calls of `enc` whose result was sent. -/
  sent : List Call := []

/-- Its events: the connection opens, a message comes with the readings of the clock for its
packets, an interval fires, the connection closes. -/
inductive TabAct where
  | onopen
  | onmessage (data : List UInt8)
  | input (keys : Keys)
  | ping (now : Now)
  | onclose

namespace Tab

/-- The packets that have come in since `re` was `old`, with their numbers. -/
def fresh (old new : Reassembler) : List (List UInt8 × Nat) :=
  (new.packets.drop old.packets.length).zipIdx old.packets.length

/-- One event; `clock n` is what `Date.now()` returns at the packet with number `n`. -/
def step (probe : Bool) (clock : Nat → Int) : TabAct → Tab → Option Tab
  | .onopen, t =>
    if t.opened || t.closed then none else some { t with opened := true, sent := t.sent ++ [.join] }
  | .onmessage data, t =>
    if t.opened && !t.closed then do
      let re ← t.re.push data
      let page ← (fresh t.re re).foldlM (fun p x => p.onPacket (clock x.2) x.1) t.page
      some { t with page, re }
    else none
  | .input keys, t =>
    if 0 < t.page.timers then
      let call := readInput probe t.page.snapCount keys (t.seq + 1)
      -- a closed socket swallows what it is given
      some { t with seq := t.seq + 1, sent := if t.closed then t.sent else t.sent ++ [call] }
    else none
  | .ping now, t =>
    if 0 < t.page.timers then
      some { t with sent := if t.closed then t.sent else t.sent ++ [.ping (now.val * 1000)] }
    else none
  | .onclose, t => some { t with closed := true }

def received : TabAct → Tab → List (List UInt8)
  | .onmessage data, _ => [data]
  | _, _ => []

end Tab

end BeltServer
