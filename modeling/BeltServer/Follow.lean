import BeltServer.Echo
import BeltServer.Live
import BeltServer.Position
import BeltServer.Whereabouts
import Mathlib.Data.List.DropRight

/-!
# From the send ring to the screen

Over its first connection the page is a function of the messages that have come through whole,
however the stream of the send ring was cut on its way; and what it draws lies between two of them.
-/

namespace BeltServer

set_option autoImplicit false

open Runs BeltProto LengthPrefix

/-! ### The messages of a run -/

/-- An echo is a frame of its type, and a JOIN_OK names a seat. -/
def Msg.Proper : Msg → Prop
  | .echo frame => Dummy.WellFormed frame
  | .joinOk actorId _ _ => actorId < 4
  | _ => True

def Msg.decoded : Msg → Decoded
  | .echo _ => .other ECHO.toNat
  | .joinOk actorId roomId serverTick =>
    (ServerMsg.joinOk (UInt8.ofNat actorId) (UInt32.ofNat roomId) serverTick).decoded
  | .joinFail reason => (ServerMsg.joinFail reason).decoded
  | .snapshot _ snap =>
    (ServerMsg.snapshot snap.serverTick kSnapActors snap.lastInputSeq snap.actors).decoded
  | .pong clientTimeUs serverTick tickRemainUs =>
    (ServerMsg.pong clientTimeUs.toInt64 serverTick tickRemainUs).decoded
  | .roomEvent kind actorId roomId spawnQX spawnQY =>
    (ServerMsg.roomEvent kind (UInt8.ofNat actorId) (UInt32.ofNat roomId) spawnQX spawnQY).decoded

theorem Msg.Proper.whole {m : Msg} (h : m.Proper) : frameFormat.Whole m.bytes := by
  apply m.whole
  intro f hf
  subst hf
  exact h.1

theorem decode_msg {m : Msg} (h : m.Proper) : decode m.bytes = some m.decoded := by
  cases m with
  | echo frame =>
    obtain ⟨⟨-, hlo, -⟩, hnat⟩ := h
    have hfits : 2 + 2 ≤ frame.length := hlo
    have htype : getUint frame 2 2 = some 1 := by
      rw [getUint, if_pos hfits]
      rw [leNat_eq_value] at hnat
      exact congrArg some hnat
    simp only [decode, Msg.bytes, htype, Option.bind_eq_bind, Option.bind_some]
    rfl
  | joinOk | joinFail | snapshot | pong | roomEvent => exact decode_bytes _

/-- The type that `Dispatch` echoes is the one in the header. -/
theorem decode_echo {f g : List UInt8} (h : ClientMsg.decode f = .echo g) :
    g = f ∧ leNat (bytesAt f 2 2) = ECHO.toNat := by
  unfold ClientMsg.decode at h
  dsimp only at h
  split at h
  · rename_i htype
    cases h
    refine ⟨rfl, ?_⟩
    have hnat := congrArg UInt16.toNat htype
    have hlt := LittleEndian.value_lt (bytesAt f 2 2)
    have hlen : (bytesAt f 2 2).length ≤ 2 := List.length_take_le ..
    rw [← leNat_eq_value] at hlt
    have hpow : 256 ^ (bytesAt f 2 2).length ≤ 256 ^ 2 := Nat.pow_le_pow_right (by decide) hlen
    rw [UInt16.toNat_ofNat_of_lt' (Nat.lt_of_lt_of_le hlt hpow)] at hnat
    exact hnat
  · split at h
    · split at h <;> cases h
    · split at h
      · split at h <;> cases h
      · split at h
        · split at h <;> cases h
        · cases h

theorem whole_of_wellFramed {f : List UInt8} (h : wellFramed f = true) : frameFormat.Whole f := by
  simp only [wellFramed, Bool.and_eq_true, beq_iff_eq, decide_eq_true_eq] at h
  exact ⟨h.1.1, h.1.2, h.2⟩

theorem dispatch_echo {st : Server} {idx : Nat} {remainUs : UInt32} {msg : ClientMsg}
    {frame : List UInt8} (h : st.dispatch idx remainUs msg = .send (.echo frame)) :
    msg = .echo frame := by
  cases msg <;> simp only [Server.dispatch] at h
  · cases h
    rfl
  · split at h
    · cases h
    · split at h <;> cases h
  · split at h <;> cases h
  · split at h <;> cases h
  · cases h

namespace System

variable {s t : System} {a : Act} {idx : Nat} {m : Msg}

/-- A worker that owes a JOIN_OK knows the seat. -/
def SeatsKnown (L : Ledger) : Prop := ∀ w idx a r, L.net w = .joined idx a r → a < 4

theorem seatsKnown_update {L : Ledger} {net : Nat → NetPc} {w : Nat} {pc : NetPc}
    (h : SeatsKnown L) (hnet : net = Function.update L.net w pc)
    (hpc : ∀ idx a r, pc = .joined idx a r → a < 4) (w' idx a r : Nat)
    (hw : net w' = .joined idx a r) : a < 4 := by
  subst hnet
  rcases eq_or_ne w' w with rfl | hne
  · rw [Function.update_self] at hw
    exact hpc idx a r hw
  · rw [Function.update_of_ne hne] at hw
    exact h w' idx a r hw

theorem seatsKnown_step {L L' : Ledger} {a : Actor} (h : SeatsKnown L) (ht : L.Trans a L') :
    SeatsKnown L' := by
  cases ht with
  | toIdle | toInput | toJoin | cut | leaveNone | leaveRead | leavePush | netRelease | noWorkers
  | scan | scanRefuse => exact seatsKnown_update h rfl nofun
  | store w idx r i hlock =>
    apply seatsKnown_update h rfl
    intro idx' a r' heq
    cases heq
    exact i.isLt
  | _ => exact h

theorem seatsKnown_run {ok : Act → System → Prop} {sessionCapacity roomCapacity workerCount : Nat}
    (h : Reach System.step ok (System.init sessionCapacity roomCapacity workerCount) s) :
    SeatsKnown s.ledger := by
  refine h.invariant (P := fun s => SeatsKnown s.ledger) nofun fun s a t _ hseats _ ht => ?_
  rcases s.trans_of_step ht with hsame | htrans
  · exact hsame ▸ hseats
  · exact seatsKnown_step hseats htrans

theorem Says.proper (hm : s.Says a idx m) (hseats : SeatsKnown s.ledger)
    (ht : step a s = some t) : m.Proper := by
  cases hm with
  | reply w _ f remainUs _ _ hd =>
    have hother := dispatch_of_send hd
    cases m with
    | echo frame =>
      obtain ⟨rfl, htype⟩ := decode_echo (dispatch_echo hd)
      simp only [step] at ht
      split at ht
      · rename_i hframe
        exact ⟨whole_of_wellFramed (Bool.and_eq_true_iff.mp hframe).2, htype⟩
      · cases ht
    | joinOk => cases hother.2
    | joinFail | snapshot | pong | roomEvent => trivial
  | joined w _ actorId roomId hw => exact hseats w idx actorId roomId hw
  | refused | snapshot | event => trivial

theorem proper_run {ok : Act → System → Prop} {sessionCapacity roomCapacity workerCount : Nat}
    (h : Reach System.step ok (System.init sessionCapacity roomCapacity workerCount) s)
    (idx : Nat) : ∀ m ∈ (s.srv.sess idx).sendQ.log, m.Proper := by
  refine h.invariant (P := fun s => ∀ m ∈ (s.srv.sess idx).sendQ.log, m.Proper) nofun
    fun s a t hreach hproper _ ht => ?_
  rcases log_step (System.consistent hreach) ht idx with ⟨hnew, -⟩ | ⟨-, hsame⟩ | ⟨m, hm, -, hlog⟩
  · rw [hnew]
    exact nofun
  · rw [hsame]
    exact hproper
  · intro m' hm'
    rw [hlog] at hm'
    rcases List.mem_append.mp hm' with hold | hnew
    · exact hproper m' hold
    · rw [List.mem_singleton.mp hnew]
      exact hm.proper (seatsKnown_run hreach) ht

end System

/-! ### What the page shows -/

/-- The page starts its buffer anew when its room moves. -/
def Msg.moves : Msg → Bool
  | .roomEvent kind _ _ _ _ => kind = roomMove
  | _ => false

def Msg.snap (time : Int) : Msg → Option Snap
  | .snapshot _ snap =>
    some ⟨time, snap.serverTick.toNat, (List.finRange 14).map fun j => (snap.actors j).decoded⟩
  | _ => none

/-- The messages behind the last room move, with their numbers. -/
def sinceMove (told : List Msg) : List (Msg × Nat) := told.zipIdx.rtakeWhile fun x => !x.1.moves

/-- The last 30 of the snapshots behind the last room move. -/
def buffered (clock : Nat → Int) (told : List Msg) : List Snap :=
  ((sinceMove told).filterMap fun x => x.1.snap (clock x.2)).rtake 30

structure Shows (clock : Nat → Int) (told : List Msg) (p : Page) : Prop where
  snaps : p.snaps = buffered clock told
  count : p.snapCount = (told.filterMap Msg.snapshot?).length
  moved : p.moveEvents = told.countP Msg.moves
  room : p.roomId = ((toldRoom told).map fun r => ((r % 2 ^ 32 : Nat) : Int)).getD (-1)
  tick : p.lastServerTick =
    ((told.filterMap Msg.snapshot?).getLast?.map fun x => x.serverTick.toNat).getD 0
  timers : p.timers = told.countP Msg.isJoinOk
  seat : p.myActorId < 4

section Shows
variable {clock : Nat → Int} {told : List Msg} {p : Page} {m : Msg}

theorem keepSnap_rtake (l : List Snap) (x : Snap) :
    keepSnap (l.rtake 30) x = (l ++ [x]).rtake 30 := by
  unfold keepSnap List.rtake
  dsimp only
  rw [List.length_append, List.length_drop, List.length_append, List.length_singleton]
  split
  · rw [← List.drop_append_of_le_length (by omega), List.tail_drop]
    congr 1
    omega
  · rw [← List.drop_append_of_le_length (by omega)]
    congr 1
    omega

theorem sinceMove_concat : sinceMove (told ++ [m]) =
    if m.moves then [] else sinceMove told ++ [(m, told.length)] := by
  unfold sinceMove
  rw [List.zipIdx_append, Nat.zero_add, List.zipIdx_singleton, List.rtakeWhile_concat]
  cases m.moves <;> rfl

theorem buffered_moves (h : m.moves = true) : buffered clock (told ++ [m]) = [] := by
  rw [buffered, sinceMove_concat, if_pos h]
  rfl

theorem sinceMove_stays (h : m.moves = false) :
    sinceMove (told ++ [m]) = sinceMove told ++ [(m, told.length)] := by
  rw [sinceMove_concat, h]
  rfl

theorem buffered_other (h : m.moves = false) (hsnap : m.snap (clock told.length) = none) :
    buffered clock (told ++ [m]) = buffered clock told := by
  rw [buffered, sinceMove_stays h]
  simp [hsnap, buffered]

theorem buffered_snap {x : Snap} (h : m.moves = false)
    (hsnap : m.snap (clock told.length) = some x) :
    buffered clock (told ++ [m]) = keepSnap (buffered clock told) x := by
  rw [buffered, sinceMove_stays h, buffered, keepSnap_rtake]
  simp [hsnap]

theorem roomMove_iff {kind : UInt8} : kind.toNat = 3 ↔ kind = roomMove := by
  constructor
  · intro h
    exact UInt8.toNat_inj.mp h
  · intro h
    rw [h]
    rfl

theorem Page.watchMe_some (p : Page) (actors : List BeltProto.Actor)
    (h : p.myActorId < actors.length) :
    ∃ x y, p.watchMe actors = some { p with firstMyX := x, lastMyX := y } := by
  unfold Page.watchMe
  split
  · exact ⟨p.firstMyX, p.lastMyX, rfl⟩
  · have hlt : p.myActorId.toNat < actors.length := by omega
    rw [List.getElem?_eq_getElem hlt]
    exact ⟨_, _, rfl⟩

theorem shows_nil (clock : Nat → Int) : Shows clock [] {} where
  snaps := rfl
  count := rfl
  moved := rfl
  room := rfl
  tick := rfl
  timers := rfl
  seat := by decide

theorem Shows.quiet (h : Shows clock told p) (hsnap : m.snapshot? = none) (hroom : m.room? = none)
    (hjoin : m.isJoinOk = false) {p' : Page} (hsnaps : p'.snaps = p.snaps)
    (hcount : p'.snapCount = p.snapCount) (hmoved : p'.moveEvents = p.moveEvents)
    (hroom' : p'.roomId = p.roomId) (htick : p'.lastServerTick = p.lastServerTick)
    (htimers : p'.timers = p.timers) (hseat : p'.myActorId = p.myActorId) :
    Shows clock (told ++ [m]) p' := by
  have hmoves : m.moves = false := by
    cases m with
    | roomEvent kind actorId roomId spawnQX spawnQY =>
      by_contra hkind
      have hmove : kind = roomMove := by simpa [Msg.moves] using hkind
      simp [Msg.room?, hmove] at hroom
    | _ => rfl
  have hnone : m.snap (clock told.length) = none := by
    cases m with
    | snapshot => cases hsnap
    | _ => rfl
  constructor
  · rw [hsnaps, h.snaps, buffered_other hmoves hnone]
  · simp [hcount, h.count, hsnap]
  · simp [hmoved, h.moved, hmoves]
  · rw [hroom', h.room, toldRoom_snoc_none hroom]
  · simp [htick, h.tick, hsnap]
  · simp [htimers, h.timers, hjoin]
  · rw [hseat]
    exact h.seat

theorem Shows.next (h : Shows clock told p) (hm : m.Proper) :
    ∃ p', p.onDecoded (clock told.length) m.decoded = some p' ∧ Shows clock (told ++ [m]) p' := by
  cases m with
  | echo frame => exact ⟨p, rfl, h.quiet rfl rfl rfl rfl rfl rfl rfl rfl rfl rfl⟩
  | joinFail reason => exact ⟨_, rfl, h.quiet rfl rfl rfl rfl rfl rfl rfl rfl rfl rfl⟩
  | pong => exact ⟨_, rfl, h.quiet rfl rfl rfl rfl rfl rfl rfl rfl rfl rfl⟩
  | joinOk actorId roomId serverTick =>
    refine ⟨_, rfl, ?_, ?_, ?_, ?_, ?_, ?_, ?_⟩
    · rw [buffered_other rfl rfl]
      exact h.snaps
    · simp [h.count, Msg.snapshot?]
    · simp [h.moved, Msg.moves]
    · rw [toldRoom_snoc rfl]
      rfl
    · simp [h.tick, Msg.snapshot?]
    · simp [h.timers, Msg.isJoinOk]
    · have hseat : actorId < 4 := hm
      have hnat : (UInt8.ofNat actorId).toNat = actorId :=
        UInt8.toNat_ofNat_of_lt' (Nat.lt_trans hseat (by decide))
      dsimp only
      rw [hnat]
      omega
  | roomEvent kind actorId roomId spawnQX spawnQY =>
    unfold Page.onDecoded
    simp only [Msg.decoded, ServerMsg.decoded, roomMove_iff]
    split
    · rename_i hmove
      subst hmove
      refine ⟨_, rfl, ?_, ?_, ?_, ?_, ?_, ?_, ?_⟩
      · rw [buffered_moves rfl]
      · simp [h.count, Msg.snapshot?]
      · simp [h.moved, Msg.moves]
      · rw [toldRoom_snoc rfl]
        rfl
      · simp [h.tick, Msg.snapshot?]
      · simp [h.timers, Msg.isJoinOk]
      · exact h.seat
    · rename_i hstay
      exact ⟨p, rfl, h.quiet rfl (by simp [Msg.room?, hstay]) rfl rfl rfl rfl rfl rfl rfl rfl⟩
  | snapshot room snap =>
    unfold Page.onDecoded
    simp only [Msg.decoded, ServerMsg.decoded]
    have hseat := h.seat
    have hlen : ((List.finRange 14).map fun j => (snap.actors j).decoded).length = 14 := by
      rw [List.length_map, List.length_finRange]
    obtain ⟨x, y, hwatch⟩ := Page.watchMe_some
      { p with
        snapCount := p.snapCount + 1
        lastServerTick := snap.serverTick.toNat
        snaps := keepSnap p.snaps ⟨clock told.length, snap.serverTick.toNat,
          (List.finRange 14).map fun j => (snap.actors j).decoded⟩ }
      ((List.finRange 14).map fun j => (snap.actors j).decoded) (by
        rw [hlen]
        dsimp only
        omega)
    refine ⟨_, hwatch, ?_, ?_, ?_, ?_, ?_, ?_, hseat⟩
    · rw [buffered_snap rfl rfl, h.snaps]
    · simp [h.count, Msg.snapshot?]
    · simp [h.moved, Msg.moves]
    · rw [toldRoom_snoc_none rfl]
      exact h.room
    · simp [Msg.snapshot?]
    · simp [h.timers, Msg.isJoinOk]

theorem Shows.feed (h : Shows clock told p) {more : List Msg} (hmore : ∀ m ∈ more, m.Proper) :
    ∃ p', ((more.map Msg.bytes).zipIdx told.length).foldlM
        (fun p x => p.onPacket (clock x.2) x.1) p = some p' ∧ Shows clock (told ++ more) p' := by
  induction more generalizing told p with
  | nil =>
    rw [List.append_nil]
    exact ⟨p, rfl, h⟩
  | cons m more ih =>
    have hm := hmore m List.mem_cons_self
    obtain ⟨p', hp', h'⟩ := h.next hm
    obtain ⟨p'', hp'', h''⟩ := ih h' fun m' hm' => hmore m' (List.mem_cons_of_mem m hm')
    rw [List.append_assoc, List.singleton_append] at h''
    refine ⟨p'', ?_, h''⟩
    rw [List.length_append, List.length_singleton] at hp''
    have hpacket : p.onPacket (clock told.length) m.bytes = some p' := by
      rw [Page.onPacket, decode_msg hm, Option.bind_some]
      exact hp'
    rw [List.map_cons, List.zipIdx_cons, List.foldlM_cons, hpacket]
    exact hp''

end Shows

/-! ### The stream of a connection -/

/-- The messages that have come through whole when `bytes` have come. -/
def whole (log : List Msg) (bytes : List UInt8) : List Msg :=
  log.take (packetFormat.split bytes).frames.length

section Stream
variable {log : List Msg} {bytes : List UInt8} (hlog : ∀ m ∈ log, m.Proper)
  (hbytes : bytes <+: (log.map Msg.bytes).flatten)
include hlog

theorem packets_whole : ∀ f ∈ log.map Msg.bytes, packetFormat.Whole f := by
  intro f hf
  obtain ⟨m, hm, rfl⟩ := List.mem_map.mp hf
  exact packet_of_frame (hlog m hm).whole

include hbytes

theorem frames_whole : (packetFormat.split bytes).frames = (whole log bytes).map Msg.bytes := by
  have hprefix := Format.split_prefix (packets_whole hlog) hbytes
  rw [whole, List.map_take]
  exact List.prefix_iff_eq_take.mp hprefix

theorem whole_came : Came (log.map Msg.bytes) ((whole log bytes).map Msg.bytes) bytes := by
  rw [← frames_whole hlog hbytes]
  exact Format.came (packets_whole hlog) hbytes

theorem whole_append (more : List UInt8) :
    ∃ ms, whole log (bytes ++ more) = whole log bytes ++ ms := by
  have hfine := Format.split_fine (packets_whole hlog) hbytes
  have hframes := congrArg (fun s => s.frames.length) (Format.split_append hfine more)
  simp only [List.length_append] at hframes
  have hle : whole log bytes <+: whole log (bytes ++ more) :=
    List.take_prefix_take_left (by omega)
  obtain ⟨ms, hms⟩ := hle
  exact ⟨ms, hms.symm⟩

end Stream

/-! ### The tab -/

structure Hears (clock : Nat → Int) (log : List Msg) (bytes : List UInt8) (t : Tab) : Prop where
  merged : Reassembler.Merged bytes t.re
  shows : Shows clock (whole log bytes) t.page

section Tab
variable {probe : Bool} {clock : Nat → Int} {log : List Msg} {bytes : List UInt8} {t t' : Tab}

theorem hears_start (clock : Nat → Int) (log : List Msg) : Hears clock log [] {} where
  merged := Reassembler.merged_start
  shows := by
    have hnone : whole log [] = [] := by
      have hsplit := @Format.split_short _ packetFormat [] (by decide)
      rw [whole, hsplit]
      rfl
    rw [hnone]
    exact shows_nil clock

theorem Hears.receive (h : Hears clock log bytes t) (hlog : ∀ m ∈ log, m.Proper) {data : List UInt8}
    (hdata : bytes ++ data <+: (log.map Msg.bytes).flatten) :
    ∃ re page, t.re.push data = some re ∧
      (Tab.fresh t.re re).foldlM (fun p x => p.onPacket (clock x.2) x.1) t.page = some page ∧
      Reassembler.Merged (bytes ++ data) re ∧ Shows clock (whole log (bytes ++ data)) page := by
  have hbytes := (List.prefix_append bytes data).trans hdata
  obtain ⟨re, hpush, hmerged⟩ := h.merged.push (Format.split_fine (packets_whole hlog) hdata)
  obtain ⟨ms, hms⟩ := whole_append hlog hbytes data
  have hold := h.merged.packets.trans (frames_whole hlog hbytes)
  have hnew := hmerged.packets.trans (frames_whole hlog hdata)
  have hfresh : Tab.fresh t.re re = (ms.map Msg.bytes).zipIdx (whole log bytes).length := by
    rw [Tab.fresh, hold, hnew, hms, List.map_append, List.drop_left, List.length_map]
  have hproper : ∀ m ∈ ms, m.Proper := by
    intro m hm
    have hmem : m ∈ whole log (bytes ++ data) := by
      rw [hms]
      exact List.mem_append_right _ hm
    exact hlog m (List.mem_of_mem_take hmem)
  obtain ⟨page, hpage, hshows⟩ := h.shows.feed hproper
  rw [hms]
  exact ⟨re, page, hpush, hfresh ▸ hpage, hmerged, hshows⟩

theorem Hears.takes (h : Hears clock log bytes t) (hlog : ∀ m ∈ log, m.Proper) {data : List UInt8}
    (hdata : bytes ++ data <+: (log.map Msg.bytes).flatten) (hopen : t.opened = true)
    (hstays : t.closed = false) : ∃ t', Tab.step probe clock (.onmessage data) t = some t' ∧
      t'.opened = true ∧ t'.closed = false := by
  obtain ⟨re, page, hpush, hfold, -⟩ := h.receive hlog hdata
  refine ⟨{ t with page, re }, ?_, hopen, hstays⟩
  simp only [Tab.step, hopen, hstays, hpush, Option.bind_eq_bind, Option.bind_some, hfold]
  rfl

theorem Hears.step (h : Hears clock log bytes t) (hlog : ∀ m ∈ log, m.Proper) {a : TabAct}
    (ht : Tab.step probe clock a t = some t')
    (hdata : bytes ++ (Tab.received a t).flatten <+: (log.map Msg.bytes).flatten) :
    Hears clock log (bytes ++ (Tab.received a t).flatten) t' := by
  cases a with
  | onmessage data =>
    simp only [Tab.received, List.flatten_singleton] at hdata ⊢
    obtain ⟨re, page, hpush, hfold, hmerged, hshows⟩ := h.receive hlog hdata
    simp only [Tab.step, hpush, Option.bind_eq_bind, Option.bind_some, hfold] at ht
    split at ht
    · cases ht
      exact ⟨hmerged, hshows⟩
    · cases ht
  | onopen =>
    simp only [Tab.received, List.flatten_nil, List.append_nil]
    simp only [Tab.step] at ht
    split at ht
    · cases ht
    · cases ht
      exact ⟨h.merged, h.shows⟩
  | input | ping =>
    simp only [Tab.received, List.flatten_nil, List.append_nil]
    simp only [Tab.step] at ht
    split at ht
    · cases ht
      exact ⟨h.merged, h.shows⟩
    · cases ht
  | onclose =>
    simp only [Tab.received, List.flatten_nil, List.append_nil]
    simp only [Tab.step] at ht
    cases ht
    exact ⟨h.merged, h.shows⟩

theorem hears_run {data : List (List UInt8)}
    (h : Traced (Tab.step probe clock) Tab.received {} data t) (hlog : ∀ m ∈ log, m.Proper)
    (hdata : data.flatten <+: (log.map Msg.bytes).flatten) : Hears clock log data.flatten t := by
  refine h.invariant (P := fun data t => data.flatten <+: (log.map Msg.bytes).flatten →
    Hears clock log data.flatten t) (fun _ => hears_start clock log) ?_ hdata
  intro es s a t _ hears ht hes
  rw [List.flatten_append] at hes ⊢
  have hbefore := (List.prefix_append es.flatten _).trans hes
  exact (hears hbefore).step hlog ht hes

end Tab

/-! ### What the buffer holds -/

section Buffer
variable {clock : Nat → Int} {log told : List Msg}

theorem mem_buffered {x : Snap} (h : x ∈ buffered clock told) :
    ∃ n room snap, (.snapshot room snap, n) ∈ sinceMove told ∧
      x = ⟨clock n, snap.serverTick.toNat,
        (List.finRange 14).map fun j => (snap.actors j).decoded⟩ := by
  have hmem := List.mem_of_mem_drop h
  obtain ⟨⟨m, n⟩, hmn, hsnap⟩ := List.mem_filterMap.mp hmem
  cases m with
  | snapshot room snap => exact ⟨n, room, snap, hmn, (Option.some.inj hsnap).symm⟩
  | _ => cases hsnap

theorem sinceMove_suffix (told : List Msg) : ∃ xs ys, told = xs ++ ys ∧
    (sinceMove told).map Prod.fst = ys ∧ ∀ m ∈ ys, m.moves = false := by
  obtain ⟨pre, hpre⟩ := List.rtakeWhile_suffix (fun x : Msg × Nat => !x.1.moves) told.zipIdx
  refine ⟨pre.map Prod.fst, (sinceMove told).map Prod.fst, ?_, rfl, ?_⟩
  · have hfst := congrArg (List.map Prod.fst) hpre
    rw [List.map_append, List.zipIdx_map_fst] at hfst
    exact hfst.symm
  · intro m hm
    obtain ⟨x, hx, rfl⟩ := List.mem_map.mp hm
    simpa using List.mem_rtakeWhile_imp hx

/-- The ticks in the buffer are those of the last snapshots. -/
theorem ticks_sublist (clock : Nat → Int) (told : List Msg) :
    ((buffered clock told).map Snap.serverTick).Sublist
      ((told.filterMap Msg.snapshot?).map fun x => x.serverTick.toNat) := by
  have hsuffix := (List.rtakeWhile_suffix (fun x : Msg × Nat => !x.1.moves) told.zipIdx).sublist
  have hall : ((told.zipIdx.filterMap fun x => x.1.snap (clock x.2)).map Snap.serverTick) =
      (told.filterMap Msg.snapshot?).map fun x => x.serverTick.toNat := by
    have hone (x : Msg × Nat) : (x.1.snap (clock x.2)).map Snap.serverTick =
        (x.1.snapshot?).map fun x => x.serverTick.toNat := by
      cases x.1 <;> rfl
    conv_rhs => rw [← List.zipIdx_map_fst 0 told]
    rw [List.map_filterMap, List.filterMap_map, List.map_filterMap]
    exact List.filterMap_congr fun x _ => hone x
  rw [← hall]
  exact ((List.drop_sublist _ _).trans (hsuffix.filterMap _)).map _

/-- Where every room move is announced and every JOIN_OK comes first, the buffer holds snapshots
of the room that the client was told last. -/
theorem buffered_room (htold : told <+: log) (hfirst : JoinOkFirst log) (hknown : RoomKnown log)
    {n room : Nat} {snap : Snapshot} (h : (.snapshot room snap, n) ∈ sinceMove told) :
    toldRoom told = some room := by
  obtain ⟨xs, ys, hsplit, hys, hstays⟩ := sinceMove_suffix told
  obtain ⟨more, rfl⟩ := htold
  have hmem : Msg.snapshot room snap ∈ ys := by
    rw [← hys]
    exact List.mem_map_of_mem h
  obtain ⟨us, vs, rfl⟩ := List.append_of_mem hmem
  have hlog : told ++ more = (xs ++ us) ++ .snapshot room snap :: (vs ++ more) := by
    rw [hsplit]
    simp
  obtain ⟨hjoin, hnone⟩ := hfirst _ _ _ hlog rfl
  have hroom := hknown _ room snap _ hlog hjoin
  have hquiet : (vs.filterMap Msg.room?) = [] := by
    rw [List.filterMap_eq_nil_iff]
    intro m hm
    have hjoinOk := hnone m (List.mem_append_left _ hm)
    have hmove := hstays m (List.mem_append_right _ (List.mem_cons_of_mem _ hm))
    cases m with
    | joinOk => cases hjoinOk
    | roomEvent kind =>
      refine if_neg fun hkind => ?_
      rw [Msg.moves, hkind] at hmove
      cases hmove
    | _ => rfl
  rw [hsplit, toldRoom, ← List.append_assoc, List.filterMap_append, List.filterMap_cons_none rfl,
    hquiet, List.append_nil]
  exact hroom

end Buffer

/-- What has come of the pieces of a stream is a beginning of the stream. -/
theorem flatten_prefix {data pieces : List (List UInt8)} {stream : List UInt8}
    (hdata : data <+: pieces) (hpieces : pieces.flatten <+: stream) : data.flatten <+: stream := by
  obtain ⟨rest, rfl⟩ := hdata
  rw [List.flatten_append] at hpieces
  exact (List.prefix_append _ _).trans hpieces

theorem reach_of_clocked {sessionCapacity roomCapacity workerCount : Nat} {es : List ClockEvent}
    {s : System} (h : Traced System.clocked System.clockEvents
      (System.init sessionCapacity roomCapacity workerCount) es s) :
    Reach System.step Any (System.init sessionCapacity roomCapacity workerCount) s := by
  refine h.reach.invariant (P := Reach System.step Any (System.init ..)) .refl
    fun s a t _ hreach _ ht => ?_
  exact hreach.tail trivial (System.step_of_clocked ht).2

/-! ### What is on display -/

structure Buffers (log told : List Msg) (p : Page) : Prop where
  few : p.snaps.length ≤ 30
  increasing : p.snaps.Pairwise fun x y => x.serverTick < y.serverTick
  multiples : ∀ x ∈ p.snaps, x.serverTick % 3 = 0
  /-- Where the room is known, the snapshots are of the room on display. -/
  ofRoom : JoinOkFirst log → RoomKnown log → ∀ x ∈ p.snaps, ∃ room snap,
    .snapshot room snap ∈ told ∧ x.serverTick = snap.serverTick.toNat ∧
      x.actors = ((List.finRange 14).map fun j => (snap.actors j).decoded) ∧
      p.roomId = (room % 2 ^ 32 : Nat)

section Buffers
variable {clock : Nat → Int} {log told : List Msg} {p : Page}

theorem Shows.buffers (h : Shows clock told p) (htold : told <+: log)
    (hticking : Ticking (log.filterMap Msg.snapshot?)) : Buffers log told p where
  few := by
    rw [h.snaps, buffered, List.rtake_eq_reverse_take_reverse, List.length_reverse]
    exact List.length_take_le ..
  increasing := by
    have hsub := (ticks_sublist clock told).trans ((htold.sublist.filterMap Msg.snapshot?).map _)
    have hincreasing : ((log.filterMap Msg.snapshot?).map
        fun x => x.serverTick.toNat).Pairwise (· < ·) := by
      rw [List.pairwise_map]
      exact hticking.increasing.imp fun hlt => UInt32.lt_iff_toNat_lt.mp hlt
    rw [h.snaps]
    exact List.pairwise_map.mp (hincreasing.sublist hsub)
  multiples := by
    intro x hx
    rw [h.snaps] at hx
    obtain ⟨n, room, snap, hmem, rfl⟩ := mem_buffered hx
    obtain ⟨xs, ys, hsplit, hys, -⟩ := sinceMove_suffix told
    have hsnap : Msg.snapshot room snap ∈ log := by
      apply htold.subset
      rw [hsplit, ← hys]
      exact List.mem_append_right xs (List.mem_map_of_mem hmem)
    have hthree := hticking.multiples snap (List.mem_filterMap.mpr ⟨_, hsnap, rfl⟩)
    have hnat := congrArg UInt32.toNat hthree
    rwa [UInt32.toNat_mod] at hnat
  ofRoom := by
    intro hfirst hknown x hx
    rw [h.snaps] at hx
    obtain ⟨n, room, snap, hmem, rfl⟩ := mem_buffered hx
    obtain ⟨xs, ys, hsplit, hys, -⟩ := sinceMove_suffix told
    refine ⟨room, snap, ?_, rfl, rfl, ?_⟩
    · rw [hsplit, ← hys]
      exact List.mem_append_right xs (List.mem_map_of_mem hmem)
    · rw [h.room, buffered_room htold hfirst hknown hmem]
      rfl

end Buffers

/-- The player of `twoTicks` gets two snapshots. -/
def twoShots : List Act := twoTicks ++ List.replicate 4 (.tick 0 0)

theorem relay_passes (ps : List (List UInt8)) :
    ∃ r, Traced Relay.step Relay.fromServer {} ps r ∧ r.toBrowser = ps ∧ r.wsOpen = true := by
  induction ps using List.reverseRecOn with
  | nil => exact ⟨{}, .refl, rfl, rfl⟩
  | append_singleton ps p ih =>
    obtain ⟨r, hr, hout, hopen⟩ := ih
    refine ⟨_, hr.tail (a := RelayAct.data p) rfl, ?_, hopen⟩
    dsimp only
    rw [if_pos hopen, hout]

theorem tab_takes (probe : Bool) (clock : Nat → Int) {log : List Msg} (hlog : ∀ m ∈ log, m.Proper)
    {ps : List (List UInt8)} (hps : ps.flatten <+: (log.map Msg.bytes).flatten) :
    ∃ t, Traced (Tab.step probe clock) Tab.received {} ps t ∧ t.opened = true ∧
      t.closed = false := by
  induction ps using List.reverseRecOn with
  | nil => exact ⟨_, .tail (a := TabAct.onopen) .refl rfl, rfl, rfl⟩
  | append_singleton ps p ih =>
    rw [List.flatten_append, List.flatten_singleton] at hps
    have hbefore := (List.prefix_append _ _).trans hps
    obtain ⟨t, ht, hopen, hstays⟩ := ih hbefore
    obtain ⟨u, hu, hopen', hstays'⟩ := (hears_run ht hlog hbefore).takes hlog hps hopen hstays
    exact ⟨u, ht.tail hu, hopen', hstays'⟩

theorem told_all {log told : List Msg} (htold : told <+: log)
    (h : Came (log.map Msg.bytes) (told.map Msg.bytes) (log.map Msg.bytes).flatten) :
    told = log := by
  have hlen := congrArg List.length h.all
  rw [List.length_map, List.length_map] at hlen
  exact htold.eq_of_length hlen

end BeltServer
