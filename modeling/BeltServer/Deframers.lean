import BeltServer.Framing

/-!
# The deframers of the clients

`Reassembler` of `belt-proto.js`, which merges what is left with each chunk, and `OnReadable`
with `ParseFrames` of the load generator, which moves what is left to the front of a fixed
buffer. Both do what the split of the whole stream says.
-/

namespace BeltServer

set_option autoImplicit false

open Runs LengthPrefix

/-! ### The browser -/

/-- A `Uint8Array`, a window on a buffer. -/
structure Uint8Array where
  buffer : List UInt8
  byteOffset : Nat
  length : Nat
  inside : byteOffset + length ≤ buffer.length

namespace Uint8Array

def bytes (u : Uint8Array) : List UInt8 := (u.buffer.drop u.byteOffset).take u.length

def ofBytes (bs : List UInt8) : Uint8Array := ⟨bs, 0, bs.length, by simp⟩

def get (u : Uint8Array) (i : Nat) : UInt8 := u.buffer.getD (u.byteOffset + i) 0

/-- `subarray(n)`: the same buffer seen from entry `n` on. -/
def subarray (u : Uint8Array) (n : Nat) : Uint8Array where
  buffer := u.buffer
  byteOffset := u.byteOffset + min n u.length
  length := u.length - n
  inside := by
    have h := u.inside
    omega

@[simp] theorem length_bytes (u : Uint8Array) : u.bytes.length = u.length := by
  have h := u.inside
  rw [bytes, List.length_take, List.length_drop]
  omega

@[simp] theorem bytes_ofBytes (bs : List UInt8) : (ofBytes bs).bytes = bs := by
  simp [bytes, ofBytes]

theorem bytes_subarray (u : Uint8Array) (n : Nat) (h : n ≤ u.length) :
    (u.subarray n).bytes = u.bytes.drop n := by
  unfold bytes subarray
  dsimp only
  rw [Nat.min_eq_left h, List.drop_take, List.drop_drop]

end Uint8Array

/-- `Reassembler`: the array `acc` and the packets that `onPacket` was called with. -/
structure Reassembler where
  acc : Uint8Array := .ofBytes []
  packets : List (List UInt8) := []

namespace Reassembler

/-- The loop of `push`; undefined when the fuel runs out. -/
def loop : Nat → Reassembler → Option Reassembler
  | 0, _ => none
  | n + 1, r =>
    if r.acc.length < 4 then some r
    else
      let size := (r.acc.get 0).toNat ||| (r.acc.get 1).toNat <<< 8
      if size < 4 ∨ 4096 < size then some { r with acc := .ofBytes [] }
      else if r.acc.length < size then some r
      else
        loop n
          { acc := r.acc.subarray size
            packets := r.packets ++ [(r.acc.buffer.drop r.acc.byteOffset).take size] }

def push (r : Reassembler) (chunk : List UInt8) : Option Reassembler :=
  let merged := Uint8Array.ofBytes (r.acc.bytes ++ chunk)
  loop (merged.length + 1) { r with acc := merged }

def pushAll (r : Reassembler) (chunks : List (List UInt8)) : Option Reassembler :=
  chunks.foldlM push r

end Reassembler

/-- Frames of 4 to 4096 bytes, as `push` accepts them. -/
def packetFormat : Format UInt8 where
  header := headerSize
  max := 4096
  size := frameSize
  header_pos := frameFormat.header_pos
  header_le := Nat.le_trans frameFormat.header_le (by decide)
  size_append := frameFormat.size_append

/-- What the load generator and the server take for a frame the browser takes for one. -/
theorem packet_of_frame {f : List UInt8} (h : frameFormat.Whole f) : packetFormat.Whole f := by
  obtain ⟨hsize, hlo, hhi⟩ := h
  exact ⟨hsize, hlo, Nat.le_trans hhi (by decide)⟩

namespace Reassembler

variable {r : Reassembler}

theorem size_eq (u : Uint8Array) (h : 4 ≤ u.length) :
    (u.get 0).toNat ||| (u.get 1).toNat <<< 8 = frameSize u.bytes := by
  have hin := u.inside
  have hbuffer : ∃ a b rest, u.buffer.drop u.byteOffset = a :: b :: rest := by
    cases hd : u.buffer.drop u.byteOffset with
    | nil =>
      have hlen := congrArg List.length hd
      rw [List.length_drop, List.length_nil] at hlen
      omega
    | cons a t =>
      cases t with
      | nil =>
        have hlen := congrArg List.length hd
        rw [List.length_drop, List.length_singleton] at hlen
        omega
      | cons b rest => exact ⟨a, b, rest, rfl⟩
  obtain ⟨a, b, rest, hd⟩ := hbuffer
  have hget (i : Nat) : u.get i = (u.buffer.drop u.byteOffset).getD i 0 := by
    simp [Uint8Array.get, List.getD_eq_getElem?_getD, List.getElem?_drop]
  have hbytes : bytesAt u.bytes 0 2 = [a, b] := by
    obtain ⟨n, hn⟩ : ∃ n, u.length = n + 2 := ⟨u.length - 2, by omega⟩
    rw [bytesAt, Uint8Array.bytes, hd, hn]
    rfl
  rw [frameSize, hbytes, hget, hget, hd]
  have ha := a.toNat_lt
  have hor := Nat.shiftLeft_add_eq_or_of_lt (i := 8) ha b.toNat
  rw [Nat.or_comm] at hor
  simp only [List.getD_cons_zero, List.getD_cons_succ]
  rw [← hor, Nat.shiftLeft_eq]
  simp only [leNat]
  omega

/-- One call of `push` ends, and takes the frames off that the split of `acc` says. -/
theorem loop_split {n : Nat} (hn : r.acc.length < n) :
    ∃ acc, loop n r = some { acc, packets := r.packets ++ (packetFormat.split r.acc.bytes).frames } ∧
      ((packetFormat.split r.acc.bytes).bad = false →
        acc.bytes = (packetFormat.split r.acc.bytes).rest) := by
  induction n generalizing r with
  | zero => omega
  | succ n ih =>
    have hlength : r.acc.bytes.length = r.acc.length := r.acc.length_bytes
    unfold loop
    by_cases hshort : r.acc.length < 4
    · have hsplit := Format.split_short (F := packetFormat) (hlength ▸ hshort)
      rw [if_pos hshort, hsplit, List.append_nil]
      exact ⟨_, rfl, fun _ => rfl⟩
    · rw [if_neg hshort, size_eq _ (by omega)]
      have hheader : packetFormat.header ≤ r.acc.bytes.length := by
        rw [hlength]
        exact Nat.le_of_not_lt hshort
      by_cases hrefused : packetFormat.Refused r.acc.bytes
      · have hbad : frameSize r.acc.bytes < 4 ∨ 4096 < frameSize r.acc.bytes := hrefused
        rw [Format.split_refused hheader hrefused]
        dsimp only
        rw [if_pos hbad, List.append_nil]
        exact ⟨_, rfl, nofun⟩
      · have hfine : ¬(frameSize r.acc.bytes < 4 ∨ 4096 < frameSize r.acc.bytes) := hrefused
        dsimp only
        rw [if_neg hfine]
        by_cases hwait : r.acc.length < frameSize r.acc.bytes
        · rw [if_pos hwait, Format.split_wait hheader hrefused (hlength ▸ hwait), List.append_nil]
          exact ⟨_, rfl, fun _ => rfl⟩
        · -- one packet, and the rest by induction
          have hfits : frameSize r.acc.bytes ≤ r.acc.length := by omega
          have hsplit := Format.split_frame hheader hrefused (hlength ▸ hfits)
          have hpacket : (r.acc.buffer.drop r.acc.byteOffset).take (frameSize r.acc.bytes)
              = r.acc.bytes.take (packetFormat.size r.acc.bytes) := by
            rw [Uint8Array.bytes, List.take_take]
            exact congrArg (fun n => List.take n _) (Nat.min_eq_left hfits).symm
          have hrest := r.acc.bytes_subarray _ hfits
          rw [if_neg hwait, hpacket, hsplit]
          obtain ⟨acc, hloop, hacc⟩ := ih (r :=
            { acc := r.acc.subarray (frameSize r.acc.bytes)
              packets := r.packets ++ [r.acc.bytes.take (packetFormat.size r.acc.bytes)] }) (by
            dsimp only [Uint8Array.subarray]
            omega)
          dsimp only at hloop hacc
          rw [hrest, List.append_assoc] at hloop
          rw [hrest] at hacc
          exact ⟨acc, hloop, hacc⟩

structure Merged (stream : List UInt8) (r : Reassembler) : Prop where
  packets : r.packets = (packetFormat.split stream).frames
  acc : r.acc.bytes = (packetFormat.split stream).rest

theorem Merged.push {stream chunk : List UInt8} (h : Merged stream r)
    (hfine : (packetFormat.split (stream ++ chunk)).bad = false) :
    ∃ r', r.push chunk = some r' ∧ Merged (stream ++ chunk) r' := by
  have hbefore : (packetFormat.split stream).bad = false := by
    cases hbad : (packetFormat.split stream).bad with
    | false => rfl
    | true =>
      rw [Format.split_append_of_bad hbad] at hfine
      cases hfine
  have happ := Format.split_append hbefore chunk
  obtain ⟨acc, hloop, hacc⟩ := loop_split
    (r := { r with acc := .ofBytes (r.acc.bytes ++ chunk) }) (Nat.lt_succ_self _)
  refine ⟨_, hloop, ?_⟩
  rw [happ] at hfine
  dsimp only at hacc
  rw [Uint8Array.bytes_ofBytes, h.acc] at hacc
  constructor
  · dsimp only
    rw [Uint8Array.bytes_ofBytes, h.acc, h.packets, happ]
  · rw [happ]
    exact hacc hfine

theorem Merged.pushAll {stream : List UInt8} {chunks : List (List UInt8)} (h : Merged stream r)
    (hfine : (packetFormat.split (stream ++ chunks.flatten)).bad = false) :
    ∃ r', r.pushAll chunks = some r' ∧ Merged (stream ++ chunks.flatten) r' := by
  induction chunks generalizing stream r with
  | nil =>
    rw [List.flatten_nil, List.append_nil]
    exact ⟨r, rfl, h⟩
  | cons chunk chunks ih =>
    rw [List.flatten_cons, ← List.append_assoc] at hfine ⊢
    have hfirst : (packetFormat.split (stream ++ chunk)).bad = false := by
      cases hbad : (packetFormat.split (stream ++ chunk)).bad with
      | false => rfl
      | true =>
        rw [Format.split_append_of_bad hbad] at hfine
        cases hfine
    obtain ⟨u, hpush, hu⟩ := h.push hfirst
    obtain ⟨r', hall, hr'⟩ := ih hu hfine
    refine ⟨r', ?_, hr'⟩
    unfold Reassembler.pushAll at hall ⊢
    rw [List.foldlM_cons, hpush]
    exact hall

theorem merged_start : Merged [] {} := by
  have hsplit := @Format.split_short _ packetFormat [] (by decide)
  constructor
  · rw [hsplit]
  · rw [hsplit]
    exact Uint8Array.bytes_ofBytes []

theorem push_terminates (r : Reassembler) (chunk : List UInt8) : ∃ r', r.push chunk = some r' := by
  obtain ⟨acc, hloop, -⟩ := loop_split
    (r := { r with acc := .ofBytes (r.acc.bytes ++ chunk) }) (Nat.lt_succ_self _)
  exact ⟨_, hloop⟩

end Reassembler

/-! ### The load generator -/

def recvBufSize : Nat := 4096

structure RecvBuf where
  bytes : List UInt8
  recvLen : Nat
  full : bytes.length = recvBufSize
  fits : recvLen ≤ recvBufSize

namespace RecvBuf

def content (b : RecvBuf) : List UInt8 := b.bytes.take b.recvLen

def empty : RecvBuf where
  bytes := List.replicate recvBufSize 0
  recvLen := 0
  full := List.length_replicate
  fits := Nat.zero_le _

/-- `read` stores behind what is there. -/
def store (b : RecvBuf) (bs : List UInt8) (h : b.recvLen + bs.length ≤ recvBufSize) : RecvBuf where
  bytes := b.bytes.take b.recvLen ++ bs ++ b.bytes.drop (b.recvLen + bs.length)
  recvLen := b.recvLen + bs.length
  full := by
    have hfull := b.full
    simp only [List.length_append, List.length_take, List.length_drop]
    omega
  fits := h

/-- The `memmove` to the front of the buffer. -/
def compact (b : RecvBuf) (off : Nat) : RecvBuf where
  bytes := (b.bytes.drop off).take (b.recvLen - off) ++ b.bytes.drop (b.recvLen - off)
  recvLen := b.recvLen - off
  full := by
    have hfull := b.full
    have hfits := b.fits
    simp only [List.length_append, List.length_take, List.length_drop]
    omega
  fits := Nat.le_trans (Nat.sub_le ..) b.fits

theorem length_content (b : RecvBuf) : b.content.length = b.recvLen := by
  have hfull := b.full
  have hfits := b.fits
  rw [content, List.length_take]
  omega

theorem content_store (b : RecvBuf) (bs : List UInt8) (h : b.recvLen + bs.length ≤ recvBufSize) :
    (b.store bs h).content = b.content ++ bs := by
  have hlen : (b.bytes.take b.recvLen ++ bs).length = b.recvLen + bs.length := by
    rw [List.length_append, ← content, length_content]
  unfold store
  rw [content]
  dsimp only
  rw [List.take_append_of_le_length (Nat.le_of_eq hlen.symm),
    List.take_of_length_le (Nat.le_of_eq hlen), content]

theorem content_compact (b : RecvBuf) (off : Nat) :
    (b.compact off).content = b.content.drop off := by
  have hfull := b.full
  have hfits := b.fits
  have hlen : ((b.bytes.drop off).take (b.recvLen - off)).length = b.recvLen - off := by
    rw [List.length_take, List.length_drop]
    omega
  unfold compact
  rw [content]
  dsimp only
  rw [List.take_append_of_le_length (Nat.le_of_eq hlen.symm), List.take_of_length_le
    (Nat.le_of_eq hlen), content, List.drop_take]

end RecvBuf

/-- Why a client was killed: a full buffer, a header out of range, a frame whose handling ends
the connection, the peer, an error of `read`. -/
inductive Killed where
  | overrun
  | header
  | frame
  | closed
  | failed
  deriving DecidableEq

/-- The receiving side of a client; `frames` are those that its loop has handled. -/
structure DummyReader where
  buf : RecvBuf := .empty
  killed : Option Killed := none
  frames : List (List UInt8) := []
  reading : Bool := false

namespace DummyReader

variable (slow : Bool) (closes : List UInt8 → Bool)

/-- The loop of `ParseFrames` from offset `off` on: the frames it handles and the offset it ends
at, or why it returned early. `closes` tells whether the handling of a frame kills the client. -/
def parseLoop (b : RecvBuf) :
    Nat → Nat → List (List UInt8) → Option (List (List UInt8) × Except Killed Nat)
  | 0, _, _ => none
  | n + 1, off, frames =>
    if b.recvLen - off < headerSize then some (frames, .ok off)
    else
      let size := frameSize (b.bytes.drop off)
      if size < headerSize ∨ maxPacketSize < size then some (frames, .error .header)
      else if b.recvLen - off < size then some (frames, .ok off)
      else
        let f := (b.bytes.drop off).take size
        if closes f then some (frames ++ [f], .error .frame)
        else parseLoop b n (off + size) (frames ++ [f])

def kill (s : DummyReader) (k : Killed) : DummyReader := { s with killed := some k, reading := false }

/-- `ParseFrames`; what is left is moved to the front when there was a frame. -/
def parseFrames (s : DummyReader) : Option DummyReader :=
  (parseLoop closes s.buf (s.buf.recvLen + 1) 0 s.frames).map fun out =>
    match out with
    | (frames, .ok off) => { s with frames, buf := if 0 < off then s.buf.compact off else s.buf }
    | (frames, .error k) => ({ s with frames } : DummyReader).kill k

def room (b : RecvBuf) : Nat :=
  if slow then (if recvBufSize - b.recvLen < 2048 then recvBufSize - b.recvLen else 2048)
  else recvBufSize - b.recvLen

def readTurn (s : DummyReader) (res : ReadResult) : Option DummyReader :=
  if s.buf.recvLen = recvBufSize then some (s.kill .overrun)
  else
    match res with
    | .bytes bs =>
      if h : s.buf.recvLen + bs.length ≤ recvBufSize then
        if bs = [] ∨ room slow s.buf < bs.length then none
        else
          (parseFrames closes { s with buf := s.buf.store bs h }).map fun t =>
            if slow then { t with reading := false } else t
      else none
    | .closed => some (s.kill .closed)
    | .again => some { s with reading := false }
    | .intr => some s
    | .failed => some (s.kill .failed)

def step : ReadAct → DummyReader → Option DummyReader
  | .wake, s => if s.reading || s.killed.isSome then none else some { s with reading := true }
  | .read res, s => if s.reading then s.readTurn slow closes res else none

def received : ReadAct → DummyReader → List UInt8
  | .read (.bytes bs), s => if s.buf.recvLen = recvBufSize then [] else bs
  | _, _ => []

theorem parseLoop_terminates (b : RecvBuf) {n off : Nat} (hn : b.recvLen - off < n)
    (frames : List (List UInt8)) : ∃ out, parseLoop closes b n off frames = some out := by
  induction n generalizing off frames with
  | zero => omega
  | succ n ih =>
    unfold parseLoop
    dsimp only
    split
    · exact ⟨_, rfl⟩
    split
    · exact ⟨_, rfl⟩
    next hlong hfine =>
    split
    · exact ⟨_, rfl⟩
    split
    · exact ⟨_, rfl⟩
    · have hfour : headerSize = 4 := rfl
      apply ih
      omega

/-- It handles the frames and stops where the split says. -/
theorem parseLoop_split (b : RecvBuf) {n off : Nat} (hn : b.recvLen - off < n)
    (hbad : (frameFormat.split (b.content.drop off)).bad = false)
    (hopen : ∀ f ∈ (frameFormat.split (b.content.drop off)).frames, closes f = false)
    (frames : List (List UInt8)) :
    ∃ stop, parseLoop closes b n off frames
        = some (frames ++ (frameFormat.split (b.content.drop off)).frames, .ok stop) ∧
      b.content.drop stop = (frameFormat.split (b.content.drop off)).rest ∧ off ≤ stop := by
  induction n generalizing off frames with
  | zero => omega
  | succ n ih =>
    have hlength : (b.content.drop off).length = b.recvLen - off := by
      rw [List.length_drop, b.length_content]
    -- the bytes in use are the first of those from the offset on
    have hbytes : b.bytes.drop off = b.content.drop off ++ b.bytes.drop (max off b.recvLen) := by
      by_cases hoff : off ≤ b.recvLen
      · rw [RecvBuf.content, List.drop_take, Nat.max_eq_right hoff]
        have htail := List.take_append_drop (b.recvLen - off) (b.bytes.drop off)
        rw [List.drop_drop, Nat.add_sub_cancel' hoff] at htail
        exact htail.symm
      · rw [Nat.max_eq_left (by omega), List.drop_of_length_le (l := b.content)
          (by rw [b.length_content]; omega), List.nil_append]
    unfold parseLoop
    by_cases hshort : b.recvLen - off < headerSize
    · have hsplit := Format.split_short (F := frameFormat) (hlength ▸ hshort)
      rw [if_pos hshort, hsplit, List.append_nil]
      exact ⟨off, rfl, rfl, Nat.le_refl _⟩
    · rw [if_neg hshort]
      have hheader : frameFormat.header ≤ (b.content.drop off).length := by
        rw [hlength]
        exact Nat.le_of_not_lt hshort
      have hsame : frameSize (b.bytes.drop off) = frameFormat.size (b.content.drop off) := by
        rw [hbytes]
        exact frameFormat.size_append _ _ hheader
      by_cases hrefused : frameFormat.Refused (b.content.drop off)
      · rw [Format.split_refused hheader hrefused] at hbad
        cases hbad
      · have hfine : ¬(frameFormat.size (b.content.drop off) < headerSize ∨
            maxPacketSize < frameFormat.size (b.content.drop off)) := hrefused
        dsimp only
        rw [hsame, if_neg hfine]
        by_cases hwait : b.recvLen - off < frameFormat.size (b.content.drop off)
        · rw [if_pos hwait, Format.split_wait hheader hrefused (hlength ▸ hwait), List.append_nil]
          exact ⟨off, rfl, rfl, Nat.le_refl _⟩
        · -- one frame, and the rest by induction
          have hfits : frameFormat.size (b.content.drop off) ≤ (b.content.drop off).length := by
            omega
          have hsplit := Format.split_frame hheader hrefused hfits
          have hframe : (b.bytes.drop off).take (frameFormat.size (b.content.drop off))
              = (b.content.drop off).take (frameFormat.size (b.content.drop off)) := by
            rw [hbytes, List.take_append_of_le_length hfits]
          have hnext : b.content.drop (off + frameFormat.size (b.content.drop off))
              = (b.content.drop off).drop (frameFormat.size (b.content.drop off)) := by
            rw [List.drop_drop]
          have hpos := (Format.size_pos hrefused).1
          have hfour : frameFormat.header = 4 := rfl
          rw [hsplit] at hbad hopen ⊢
          rw [if_neg hwait, hframe, hopen _ List.mem_cons_self, ← hnext]
          obtain ⟨stop, hloop, hrest, hle⟩ := ih (by omega) (hnext ▸ hbad)
            (hnext ▸ fun f hf => hopen f (List.mem_cons_of_mem _ hf))
            (frames ++ [(b.content.drop off).take (frameFormat.size (b.content.drop off))])
          refine ⟨stop, ?_, hrest, by omega⟩
          rw [List.append_assoc] at hloop
          exact hloop

/-- One call of `ParseFrames` over a tail to which nothing out of range has come. -/
theorem parseFrames_split {s : DummyReader}
    (hbad : (frameFormat.split s.buf.content).bad = false)
    (hopen : ∀ f ∈ (frameFormat.split s.buf.content).frames, closes f = false) :
    ∃ buf, s.parseFrames closes = some { s with
        buf, frames := s.frames ++ (frameFormat.split s.buf.content).frames } ∧
      buf.content = (frameFormat.split s.buf.content).rest := by
  have hzero : s.buf.content.drop 0 = s.buf.content := List.drop_zero
  obtain ⟨stop, hloop, hrest, -⟩ := @parseLoop_split closes s.buf (s.buf.recvLen + 1)
    0 (by omega) (hzero.symm ▸ hbad) (hzero.symm ▸ hopen) s.frames
  rw [hzero] at hloop hrest
  refine ⟨if 0 < stop then s.buf.compact stop else s.buf, ?_, ?_⟩
  · unfold parseFrames
    rw [hloop]
    rfl
  · split
    · rw [RecvBuf.content_compact, hrest]
    · next hstop =>
      have hnone : stop = 0 := by omega
      rw [hnone, List.drop_zero] at hrest
      exact hrest

theorem parseFrames_terminates (s : DummyReader) : ∃ t, s.parseFrames closes = some t := by
  obtain ⟨out, hloop⟩ := @parseLoop_terminates closes s.buf (s.buf.recvLen + 1) 0
    (by omega) s.frames
  unfold parseFrames
  rw [hloop]
  exact ⟨_, rfl⟩

/-- The client has done to the stream what the split does, and none of its own checks has
killed it. -/
structure Deframed (stream : List UInt8) (s : DummyReader) : Prop where
  frames : s.frames = (frameFormat.split stream).frames
  content : s.buf.content = (frameFormat.split stream).rest
  spared : s.killed ≠ some .overrun ∧ s.killed ≠ some .header ∧ s.killed ≠ some .frame
  idle : s.killed.isSome = true → s.reading = false

section Steps

variable {slow : Bool} {closes : List UInt8 → Bool} {stream : List UInt8} {s t : DummyReader}

theorem Deframed.recvLen_lt (h : Deframed stream s)
    (hbad : (frameFormat.split stream).bad = false) : s.buf.recvLen < maxPacketSize := by
  have hlt := Format.split_rest_lt frameFormat stream hbad
  rw [← h.content, RecvBuf.length_content] at hlt
  exact hlt

theorem Deframed.room_pos (h : Deframed stream s)
    (hbad : (frameFormat.split stream).bad = false) : 0 < room slow s.buf := by
  have hlt := h.recvLen_lt hbad
  have hmax : maxPacketSize = 1024 := rfl
  have hsize : recvBufSize = 4096 := rfl
  unfold room
  split
  · split
    · omega
    · exact Nat.succ_pos _
  · omega

theorem Deframed.kill (h : Deframed stream s) {k : Killed} (hk : k = .closed ∨ k = .failed) :
    Deframed stream (s.kill k) where
  frames := h.frames
  content := h.content
  spared := by
    rcases hk with rfl | rfl
    · exact ⟨nofun, nofun, nofun⟩
    · exact ⟨nofun, nofun, nofun⟩
  idle _ := rfl

theorem Deframed.stop (h : Deframed stream s) : Deframed stream { s with reading := false } where
  frames := h.frames
  content := h.content
  spared := h.spared
  idle _ := rfl

/-- A chunk is stored behind the tail, and the split goes on from there. -/
theorem Deframed.store (h : Deframed stream s) {bs : List UInt8}
    (hfits : s.buf.recvLen + bs.length ≤ recvBufSize)
    (hbad : (frameFormat.split (stream ++ bs)).bad = false)
    (hopen : ∀ f ∈ (frameFormat.split (stream ++ bs)).frames, closes f = false)
    (hbefore : (frameFormat.split stream).bad = false)
    (hparse : parseFrames closes { s with buf := s.buf.store bs hfits } = some t) :
    Deframed (stream ++ bs) t := by
  have happ := Format.split_append hbefore bs
  have hcontent : (s.buf.store bs hfits).content = (frameFormat.split stream).rest ++ bs := by
    rw [RecvBuf.content_store, h.content]
  rw [happ] at hbad hopen
  dsimp only at hbad hopen
  rw [← hcontent] at hbad hopen happ
  obtain ⟨buf, hsome, hbuf⟩ := parseFrames_split closes
    (s := { s with buf := s.buf.store bs hfits }) hbad
    fun f hf => hopen f (List.mem_append_right _ hf)
  rw [hsome] at hparse
  cases hparse
  refine ⟨?_, ?_, h.spared, h.idle⟩
  · rw [happ, h.frames]
  · rw [happ]
    exact hbuf

theorem Deframed.step (h : Deframed stream s) {a : ReadAct}
    (hbad : (frameFormat.split (stream ++ received a s)).bad = false)
    (hopen : ∀ f ∈ (frameFormat.split (stream ++ received a s)).frames, closes f = false)
    (hbefore : (frameFormat.split stream).bad = false)
    (hstep : DummyReader.step slow closes a s = some t) :
    Deframed (stream ++ received a s) t := by
  cases a with
  | wake =>
    have hnone : received .wake s = [] := rfl
    rw [hnone, List.append_nil]
    simp only [DummyReader.step] at hstep
    split at hstep
    · cases hstep
    · next hfree =>
      cases hstep
      refine ⟨h.frames, h.content, h.spared, fun hkilled => ?_⟩
      simp only [Bool.or_eq_true, not_or] at hfree
      exact absurd hkilled hfree.2
  | read res =>
    simp only [DummyReader.step, Option.ite_none_right_eq_some] at hstep
    obtain ⟨_, hstep⟩ := hstep
    have hlt := h.recvLen_lt hbefore
    have hmax : maxPacketSize = 1024 := rfl
    have hsize : recvBufSize = 4096 := rfl
    have hnot : s.buf.recvLen ≠ recvBufSize := by omega
    unfold readTurn at hstep
    rw [if_neg hnot] at hstep
    cases res with
    | bytes bs =>
      have hbs : received (.read (.bytes bs)) s = bs := if_neg hnot
      rw [hbs] at hbad hopen ⊢
      dsimp only at hstep
      split at hstep
      · next hfits =>
        split at hstep
        · cases hstep
        · obtain ⟨u, hparse, hu⟩ := Option.map_eq_some_iff.mp hstep
          have hframed := h.store hfits hbad hopen hbefore hparse
          split at hu
          · cases hu
            exact hframed.stop
          · cases hu
            exact hframed
      · cases hstep
    | closed =>
      cases hstep
      exact (List.append_nil stream).symm ▸ h.kill (.inl rfl)
    | again =>
      cases hstep
      exact (List.append_nil stream).symm ▸ h.stop
    | intr =>
      cases hstep
      exact (List.append_nil stream).symm ▸ h
    | failed =>
      cases hstep
      exact (List.append_nil stream).symm ▸ h.kill (.inr rfl)

theorem deframed_run (h : Traced (DummyReader.step slow closes) received {} stream s)
    (hbad : (frameFormat.split stream).bad = false)
    (hopen : ∀ f ∈ (frameFormat.split stream).frames, closes f = false) : Deframed stream s := by
  induction h with
  | refl =>
    have hsplit := @Format.split_short _ frameFormat [] (by decide)
    refine ⟨?_, ?_, ⟨nofun, nofun, nofun⟩, nofun⟩
    · rw [hsplit]
    · rw [hsplit]
      rfl
  | @tail stream s _ a _ hstep ih =>
    have hbefore : (frameFormat.split stream).bad = false := by
      cases hb : (frameFormat.split stream).bad with
      | false => rfl
      | true =>
        rw [Format.split_append_of_bad hb] at hbad
        cases hbad
    have hfirst : ∀ f ∈ (frameFormat.split stream).frames, closes f = false := fun f hf =>
      hopen f (by
        rw [Format.split_append hbefore]
        exact List.mem_append_left _ hf)
    exact (ih hbefore hfirst).step hbad hopen hbefore hstep

end Steps

end DummyReader

open DummyReader in
/-- However the frames of a stream are cut into chunks, the reassembler of the browser and the
load generator take off the same frames in order and keep the same beginning of a further one;
the load generator never finds its buffer full, and both loops end on every chunk. -/
theorem deframers_agree {fs : List (List UInt8)} {g tail : List UInt8}
    (hfs : ∀ f ∈ fs, frameFormat.Whole f) (hg : frameFormat.Whole g) (htail : tail <+: g)
    (hlt : tail.length < g.length) :
    (∀ chunks : List (List UInt8), chunks.flatten = fs.flatten ++ tail →
      ∃ r, Reassembler.pushAll {} chunks = some r ∧ r.packets = fs ∧ r.acc.bytes = tail) ∧
    (∀ slow closes s, (∀ f ∈ fs, closes f = false) →
      Traced (DummyReader.step slow closes) received {} (fs.flatten ++ tail) s →
      s.frames = fs ∧ s.buf.content = tail ∧ 0 < room slow s.buf ∧
        s.killed ≠ some .overrun ∧ s.killed ≠ some .header ∧ s.killed ≠ some .frame) ∧
    (∀ (r : Reassembler) chunk, ∃ r', r.push chunk = some r') ∧
    ∀ closes (s : DummyReader), ∃ t, s.parseFrames closes = some t := by
  refine ⟨fun chunks hchunks => ?_, fun slow closes s hopen h => ?_,
    Reassembler.push_terminates, parseFrames_terminates⟩
  · have hsplit := Format.split_join_tail (fun f hf => packet_of_frame (hfs f hf))
      (packet_of_frame hg) htail hlt
    obtain ⟨r, hpush, hmerged⟩ := @Reassembler.Merged.pushAll _ [] chunks Reassembler.merged_start
      (by rw [List.nil_append, hchunks, hsplit])
    rw [List.nil_append, hchunks] at hmerged
    refine ⟨r, hpush, ?_, ?_⟩
    · rw [hmerged.packets, hsplit]
    · rw [hmerged.acc, hsplit]
  · have hsplit := Format.split_join_tail hfs hg htail hlt
    have hbad : (frameFormat.split (fs.flatten ++ tail)).bad = false := by rw [hsplit]
    have hdeframed := deframed_run h hbad (by rw [hsplit]; exact hopen)
    refine ⟨?_, ?_, hdeframed.room_pos hbad, hdeframed.spared⟩
    · rw [hdeframed.frames, hsplit]
    · rw [hdeframed.content, hsplit]

/-- Two frames and the first three bytes of a third, in three pieces: pushed by the browser, and
read by a slow consumer in turns of its own. -/
theorem deframers_agree_two :
    (∃ r, Reassembler.pushAll {} [[4, 0, 9], [0, 5, 0, 1, 0, 7, 4], [0, 1]] = some r ∧
      r.packets = [[4, 0, 9, 0], [5, 0, 1, 0, 7]] ∧ r.acc.bytes = [4, 0, 1]) ∧
    ∃ s, Traced (DummyReader.step true fun _ => false) DummyReader.received {}
        [4, 0, 9, 0, 5, 0, 1, 0, 7, 4, 0, 1] s ∧
      s.frames = [[4, 0, 9, 0], [5, 0, 1, 0, 7]] ∧ s.buf.content = [4, 0, 1] ∧
      0 < DummyReader.room true s.buf := by
  have hwhole : ∀ f ∈ [[4, 0, 9, 0], [5, 0, 1, 0, 7]], frameFormat.Whole f := by
    intro f hf
    simp only [List.mem_cons, List.not_mem_nil, or_false] at hf
    rcases hf with rfl | rfl
    · exact ⟨by decide, by decide, by decide⟩
    · exact ⟨by decide, by decide, by decide⟩
  have hthird : frameFormat.Whole [4, 0, 1, 0] := ⟨by decide, by decide, by decide⟩
  have htail : [4, 0, 1] <+: [4, 0, 1, (0 : UInt8)] := ⟨[0], rfl⟩
  obtain ⟨hpushed, hread, -, -⟩ := deframers_agree hwhole hthird htail (by decide)
  have hrun : ((record (DummyReader.step true fun _ => false) DummyReader.received
      [.wake, .read (.bytes [4, 0, 9]), .wake, .read (.bytes [0, 5, 0, 1, 0, 7, 4]), .wake,
        .read .intr, .read (.bytes [0, 1])] {}).map Prod.fst) =
      some [4, 0, 9, 0, 5, 0, 1, 0, 7, 4, 0, 1] := by decide +kernel
  obtain ⟨⟨stream, s⟩, hrec, hstream⟩ := Option.map_eq_some_iff.mp hrun
  cases hstream
  have htraced := traced_of_record hrec
  obtain ⟨hframes, hcontent, hroom, -⟩ := hread true _ s (fun _ _ => rfl) htraced
  exact ⟨hpushed _ rfl, s, htraced, hframes, hcontent, hroom⟩

end BeltServer
