import BeltServer.Manager
import BeltServer.Lib.LengthPrefix

/-!
# From bytes to frames

`ReadSession` and `ParseFrames` over a receive ring that is only known by its contract. The
reader is a machine whose labels are the wake-ups and the results of `read`, so that its runs
are all ways in which a stream can arrive; what `Dispatch` is given is kept in order. The
reference is the split of the whole stream.
-/

namespace BeltServer

set_option autoImplicit false

open Runs LengthPrefix

/-- `MAX_PACKET_SIZE` and the `sizeof` of `MsgHeader`. -/
def maxPacketSize : Nat := 1024
def headerSize : Nat := 4

/-- The usable size of a receive ring of 8192 bytes. -/
def recvCapacity : Nat := 8191

def frameSize (bs : List UInt8) : Nat := leNat (bytesAt bs 0 2)

/-- The reference: frames of 4 to 1024 bytes by the size in their headers. -/
def frameFormat : Format UInt8 where
  header := headerSize
  max := maxPacketSize
  size := frameSize
  header_pos := by decide
  header_le := by decide
  size_append bs more h := by
    have hlen : 2 ≤ bs.length := Nat.le_trans (by decide) h
    rw [frameSize, frameSize, bytesAt, bytesAt, List.drop_zero, List.drop_zero,
      List.take_append_of_le_length hlen]

/-! ### The receive ring -/

/-- The calls on a `CRingBufferST`, over the type of its states. -/
structure ByteRing (ρ : Type) where
  /-- The bytes in the ring, oldest first. -/
  content : ρ → List UInt8
  getDataSize : ρ → Nat
  getDirectWriteSize : ρ → Nat
  /-- The bytes that `read` stored at the write pointer, and `MoveWritePtr` by their number. -/
  store : ρ → List UInt8 → ρ
  peek : ρ → Nat → List UInt8
  dequeue : ρ → Nat → List UInt8 × ρ

/-- A byte FIFO of capacity 8191 whose direct write size is 0 exactly when it is full. -/
structure ByteRing.Fifo {ρ : Type} (B : ByteRing ρ) : Prop where
  size : ∀ q, B.getDataSize q = (B.content q).length
  direct_zero : ∀ q, B.getDirectWriteSize q = 0 ↔ (B.content q).length = recvCapacity
  store : ∀ q bs, bs.length ≤ B.getDirectWriteSize q → B.content (B.store q bs) = B.content q ++ bs
  peek : ∀ q n, n ≤ (B.content q).length → B.peek q n = (B.content q).take n
  dequeue : ∀ q n, n ≤ (B.content q).length →
    (B.dequeue q n).1 = (B.content q).take n ∧ B.content (B.dequeue q n).2 = (B.content q).drop n

/-! ### The reader -/

/-- Why a session was cut: a header out of range, a full ring, the peer, an error of `read`. -/
inductive Cut where
  | header
  | overrun
  | closed
  | failed
  deriving DecidableEq

/-- The receiving side of a session: its ring, whether it is cut, what was dispatched, and whether
its worker is in the loop of `ReadSession`. -/
structure Reader (ρ : Type) where
  ring : ρ
  cut : Option Cut := none
  frames : List (List UInt8) := []
  reading : Bool := false

inductive ReadResult where
  | bytes (bs : List UInt8)
  | closed
  | again
  | intr
  | failed

/-- The worker enters `ReadSession`, or `read` returns in its loop. -/
inductive ReadAct where
  | wake
  | read (res : ReadResult)

namespace Reader

variable {ρ : Type} (B : ByteRing ρ)

def disconnect (s : Reader ρ) (c : Cut) : Reader ρ := { s with cut := some c, reading := false }

/-- `ParseFrames`; undefined when the fuel runs out. -/
def parseFrames : Nat → Reader ρ → Option (Reader ρ)
  | 0, _ => none
  | n + 1, s =>
    if B.getDataSize s.ring < headerSize then some s
    else
      let size := frameSize (B.peek s.ring headerSize)
      if size < headerSize ∨ maxPacketSize < size then some (s.disconnect .header)
      else if B.getDataSize s.ring < size then some s
      else
        let (buf, ring) := B.dequeue s.ring size
        let s := { s with ring, frames := s.frames ++ [buf] }
        if s.cut.isSome then some s else parseFrames n s

/-- One turn of the loop of `ReadSession`; a `read` returns at least one byte and at most as many
as it was offered. -/
def readTurn (s : Reader ρ) (res : ReadResult) : Option (Reader ρ) :=
  if B.getDirectWriteSize s.ring = 0 then some (s.disconnect .overrun)
  else
    match res with
    | .bytes bs =>
      if bs = [] ∨ B.getDirectWriteSize s.ring < bs.length then none
      else
        parseFrames B (B.getDataSize (B.store s.ring bs) + 1) { s with ring := B.store s.ring bs }
    | .closed => some (s.disconnect .closed)
    | .again => some { s with reading := false }
    | .intr => some s
    | .failed => some (s.disconnect .failed)

/-- A cut session is not read again: `HandleSession` and the loop check for it. -/
def step : ReadAct → Reader ρ → Option (Reader ρ)
  | .wake, s => if s.reading || s.cut.isSome then none else some { s with reading := true }
  | .read res, s => if s.reading then s.readTurn B res else none

def received : ReadAct → Reader ρ → List UInt8
  | .read (.bytes bs), s => if B.getDirectWriteSize s.ring = 0 then [] else bs
  | _, _ => []

end Reader

/-! ### One parse -/

section Parse
variable {ρ : Type} {B : ByteRing ρ} (hB : B.Fifo)
include hB

theorem frameSize_peek {q : ρ} (h : headerSize ≤ (B.content q).length) :
    frameSize (B.peek q headerSize) = frameSize (B.content q) := by
  have happ := frameFormat.size_append ((B.content q).take headerSize)
    ((B.content q).drop headerSize) (by rw [List.length_take]; exact Nat.le_min.mpr ⟨Nat.le_refl _, h⟩)
  rw [List.take_append_drop] at happ
  rw [hB.peek q headerSize h]
  exact happ.symm

/-- A parse ends, and it dispatches and leaves what the split of the ring's content says. -/
theorem parse_split {n : Nat} {s : Reader ρ} (hcut : s.cut = none)
    (hn : (B.content s.ring).length < n) :
    ∃ ring, B.content ring = (frameFormat.split (B.content s.ring)).rest ∧
      Reader.parseFrames B n s = some { s with
        ring
        cut := if (frameFormat.split (B.content s.ring)).bad then some .header else none
        frames := s.frames ++ (frameFormat.split (B.content s.ring)).frames
        reading := s.reading && !(frameFormat.split (B.content s.ring)).bad } := by
  induction n generalizing s with
  | zero => omega
  | succ n ih =>
    have hsize := hB.size s.ring
    unfold Reader.parseFrames
    by_cases hshort : (B.content s.ring).length < headerSize
    · refine ⟨s.ring, ?_, ?_⟩
      · rw [Format.split_short (F := frameFormat) hshort]
      · rw [if_pos (hsize ▸ hshort), Format.split_short (F := frameFormat) hshort]
        simp [← hcut]
    · have hheader : headerSize ≤ (B.content s.ring).length := by omega
      have hpeek := frameSize_peek hB hheader
      rw [if_neg (by omega), hpeek]
      by_cases hrefused : frameFormat.Refused (B.content s.ring)
      · have hbad : frameSize (B.content s.ring) < headerSize ∨
            maxPacketSize < frameSize (B.content s.ring) := hrefused
        refine ⟨s.ring, ?_, ?_⟩
        · rw [Format.split_refused hheader hrefused]
        · rw [Format.split_refused hheader hrefused]
          simp only [if_pos hbad]
          simp [Reader.disconnect]
      · have hfine : ¬(frameSize (B.content s.ring) < headerSize ∨
            maxPacketSize < frameSize (B.content s.ring)) := hrefused
        simp only [if_neg hfine]
        by_cases hwait : (B.content s.ring).length < frameSize (B.content s.ring)
        · refine ⟨s.ring, ?_, ?_⟩
          · rw [Format.split_wait hheader hrefused hwait]
          · rw [if_pos (hsize ▸ hwait), Format.split_wait hheader hrefused hwait]
            simp [← hcut]
        · -- one frame, and the rest by induction
          have hfits : frameSize (B.content s.ring) ≤ (B.content s.ring).length := by omega
          have hpos : headerSize ≤ frameSize (B.content s.ring) := (Format.size_pos hrefused).1
          have hsplit := Format.split_frame (F := frameFormat) hheader hrefused hfits
          obtain ⟨hbuf, hrest⟩ := hB.dequeue s.ring _ hfits
          rw [if_neg (by omega)]
          rcases hd : B.dequeue s.ring (frameSize (B.content s.ring)) with ⟨buf, ring⟩
          rw [hd] at hbuf hrest
          have hlen : (B.content ring).length < n := by
            rw [hrest, List.length_drop]
            have hfour : 0 < headerSize := by decide
            omega
          obtain ⟨ring', hcontent, hparse⟩ :=
            ih (s := { s with ring, frames := s.frames ++ [buf] }) hcut hlen
          have hnext : frameFormat.split (B.content ring) =
              frameFormat.split ((B.content s.ring).drop (frameFormat.size (B.content s.ring))) :=
            congrArg frameFormat.split hrest
          refine ⟨ring', ?_, ?_⟩
          · rw [hsplit, hcontent, hnext]
          · have halive : s.cut.isSome = false := by rw [hcut]; rfl
            simp only [hd, halive, Bool.false_eq_true, if_false]
            refine hparse.trans ?_
            have hframe : buf = (B.content s.ring).take (frameFormat.size (B.content s.ring)) := hbuf
            simp only [hsplit, hnext, hframe, List.append_assoc, List.singleton_append]

theorem parse_terminates (s : Reader ρ) : ∃ n t, Reader.parseFrames B n s = some t := by
  cases hcut : s.cut with
  | none =>
    obtain ⟨ring, -, hparse⟩ := parse_split hB hcut (Nat.lt_succ_self _)
    exact ⟨_, _, hparse⟩
  | some c =>
    -- a cut session dispatches one frame at most
    have hcases : ∃ t, Reader.parseFrames B 1 s = some t := by
      unfold Reader.parseFrames
      simp only [hcut, Option.isSome_some, if_true]
      split
      · exact ⟨_, rfl⟩
      · split
        · exact ⟨_, rfl⟩
        · split <;> exact ⟨_, rfl⟩
    obtain ⟨t, ht⟩ := hcases
    exact ⟨1, t, ht⟩

end Parse

/-! ### Runs -/

structure Framed {ρ : Type} (B : ByteRing ρ) (stream : List UInt8) (s : Reader ρ) : Prop where
  /-- The dispatched frames, the buffered tail, and the cut of a bad header. -/
  split : frameFormat.split stream = ⟨s.frames, B.content s.ring, decide (s.cut = some .header)⟩
  no_overrun : s.cut ≠ some .overrun
  idle : s.cut.isSome = true → s.reading = false

namespace Framed

variable {ρ : Type} {B : ByteRing ρ} {stream : List UInt8} {s t : Reader ρ}

theorem bad_iff (h : Framed B stream s) :
    (frameFormat.split stream).bad = true ↔ s.cut = some .header := by
  rw [h.split]
  exact decide_eq_true_iff

theorem rest_lt (h : Framed B stream s) (hcut : s.cut ≠ some .header) :
    (B.content s.ring).length < maxPacketSize := by
  have hbad : (frameFormat.split stream).bad = false := by
    rw [h.split]
    exact decide_eq_false hcut
  have hlt := Format.split_rest_lt frameFormat stream hbad
  rw [h.split] at hlt
  exact hlt

/-- There is always room for a `read`. -/
theorem direct_ne_zero (h : Framed B stream s) (hB : B.Fifo) (hcut : s.cut ≠ some .header) :
    B.getDirectWriteSize s.ring ≠ 0 := by
  intro hzero
  have hfull := (hB.direct_zero s.ring).mp hzero
  have hlt := h.rest_lt hcut
  rw [hfull] at hlt
  exact absurd hlt (by decide)

theorem reading_alive (h : Framed B stream s) (hreading : s.reading = true) : s.cut = none := by
  cases hcut : s.cut with
  | none => rfl
  | some c =>
    rw [h.idle (by rw [hcut]; rfl)] at hreading
    cases hreading

theorem disconnect (h : Framed B stream s) (hcut : s.cut = none) {c : Cut} (hc : c ≠ .header)
    (hc' : c ≠ .overrun) : Framed B stream (s.disconnect c) where
  split := by
    rw [h.split, hcut]
    simp [Reader.disconnect, hc]
  no_overrun hover := hc' (Option.some.inj hover)
  idle _ := rfl

/-- A chunk is appended to the buffered tail, and the split goes on from there. -/
theorem store (h : Framed B stream s) (hB : B.Fifo) (hcut : s.cut = none) {bs : List UInt8}
    (hbs : bs.length ≤ B.getDirectWriteSize s.ring) :
    ∃ t, Reader.parseFrames B (B.getDataSize (B.store s.ring bs) + 1)
        { s with ring := B.store s.ring bs } = some t ∧ Framed B (stream ++ bs) t := by
  have hcontent := hB.store s.ring bs hbs
  have hfuel : (B.content (B.store s.ring bs)).length < B.getDataSize (B.store s.ring bs) + 1 := by
    rw [hB.size]
    exact Nat.lt_succ_self _
  obtain ⟨ring, hring, hparse⟩ :=
    parse_split hB (s := { s with ring := B.store s.ring bs }) hcut hfuel
  refine ⟨_, hparse, ?_⟩
  have hbad : (frameFormat.split stream).bad = false := by
    rw [h.split, hcut]
    rfl
  have happ := Format.split_append hbad bs
  have hrest : (frameFormat.split stream).rest = B.content s.ring := by rw [h.split]
  have hframes : (frameFormat.split stream).frames = s.frames := by rw [h.split]
  rw [hrest, hframes, ← hcontent] at happ
  constructor
  · rw [happ, hring]
    dsimp only
    cases (frameFormat.split (B.content (B.store s.ring bs))).bad <;> rfl
  · dsimp only
    split <;> rintro ⟨⟩
  · dsimp only
    cases (frameFormat.split (B.content (B.store s.ring bs))).bad with
    | true =>
      intro _
      exact Bool.and_false _
    | false => rintro ⟨⟩

theorem step (h : Framed B stream s) (hB : B.Fifo) {a : ReadAct}
    (ht : Reader.step B a s = some t) : Framed B (stream ++ Reader.received B a s) t := by
  cases a with
  | wake =>
    have hnone : Reader.received B .wake s = [] := rfl
    rw [hnone, List.append_nil]
    simp only [Reader.step] at ht
    split at ht
    · cases ht
    · rename_i hfree
      cases ht
      refine ⟨h.split, h.no_overrun, fun hcut => ?_⟩
      simp only [Bool.or_eq_true, not_or] at hfree
      exact absurd hcut hfree.2
  | read res =>
    simp only [Reader.step] at ht
    split at ht
    · rename_i hreading
      have hcut := h.reading_alive hreading
      have hdirect := h.direct_ne_zero hB (by rw [hcut]; rintro ⟨⟩)
      unfold Reader.readTurn at ht
      rw [if_neg hdirect] at ht
      cases res with
      | bytes bs =>
        have hbs : Reader.received B (.read (.bytes bs)) s = bs := if_neg hdirect
        dsimp only at ht
        split at ht
        · cases ht
        · rename_i hfits
          obtain ⟨u, hparse, hframed⟩ := @Framed.store _ B stream s h hB hcut bs (by omega)
          rw [hparse] at ht
          cases ht
          rw [hbs]
          exact hframed
      | closed =>
        cases ht
        exact (List.append_nil stream).symm ▸ h.disconnect hcut (by rintro ⟨⟩) (by rintro ⟨⟩)
      | again =>
        cases ht
        exact (List.append_nil stream).symm ▸ ⟨h.split, h.no_overrun, fun _ => rfl⟩
      | intr =>
        cases ht
        exact (List.append_nil stream).symm ▸ h
      | failed =>
        cases ht
        exact (List.append_nil stream).symm ▸ h.disconnect hcut (by rintro ⟨⟩) (by rintro ⟨⟩)
    · cases ht

theorem run (hB : B.Fifo) {q : ρ} (hq : B.content q = [])
    (h : Traced (Reader.step B) (Reader.received B) { ring := q } stream s) : Framed B stream s := by
  induction h with
  | refl =>
    constructor
    · rw [hq, Format.split_short (by decide)]
      rfl
    · rintro ⟨⟩
    · rintro ⟨⟩
  | tail _ hstep ih => exact ih.step hB hstep

theorem enabled (h : Framed B stream s) (hB : B.Fifo) (hreading : s.reading = true)
    {bs : List UInt8} (hne : bs ≠ []) (hbs : bs.length ≤ B.getDirectWriteSize s.ring) :
    ∃ t, Reader.step B (.read (.bytes bs)) s = some t := by
  have hcut := h.reading_alive hreading
  have hdirect := h.direct_ne_zero hB (by rw [hcut]; rintro ⟨⟩)
  obtain ⟨t, hparse, -⟩ := h.store hB hcut hbs
  refine ⟨t, ?_⟩
  have hfits : ¬(bs = [] ∨ B.getDirectWriteSize s.ring < bs.length) := by
    rintro (hnil | hlt)
    · exact hne hnil
    · omega
  simp only [Reader.step, Reader.readTurn, if_pos hreading, if_neg hdirect, if_neg hfits]
  exact hparse

end Framed

theorem wellFramed_of_whole {f : List UInt8} (h : frameFormat.Whole f) : wellFramed f = true := by
  obtain ⟨hsize, hlo, hhi⟩ := h
  have hsize : leNat (bytesAt f 0 2) = f.length := hsize
  have hlo : 4 ≤ f.length := hlo
  have hhi : f.length ≤ 1024 := hhi
  simp [wellFramed, hsize, hlo, hhi]

/-- However a stream arrives, it is dispatched as the reference splits it: the frames in order, no
byte twice and none left out, the tail buffered, and the session cut when a header is out of
range, not before and for no full ring; every frame is one that `Dispatch` may be given. -/
theorem framing {ρ : Type} {B : ByteRing ρ} (hB : B.Fifo) {q : ρ} (hq : B.content q = [])
    {stream : List UInt8} {s : Reader ρ}
    (h : Traced (Reader.step B) (Reader.received B) { ring := q } stream s) :
    Framed B stream s ∧
    s.frames.flatten ++ B.content s.ring = stream ∧
    (∀ f ∈ s.frames, wellFramed f = true) ∧
    (s.cut = some .header → ∀ more, (frameFormat.split (stream ++ more)).frames = s.frames ∧
      (frameFormat.split (stream ++ more)).bad = true) ∧
    (s.cut ≠ some .header → (B.content s.ring).length < maxPacketSize ∧
      B.getDirectWriteSize s.ring ≠ 0) ∧
    (s.reading = true → ∀ bs, bs ≠ [] → bs.length ≤ B.getDirectWriteSize s.ring →
      ∃ t, Reader.step B (.read (.bytes bs)) s = some t) ∧
    ∀ u : Reader ρ, ∃ n t, Reader.parseFrames B n u = some t := by
  have hframed := Framed.run hB hq h
  have hframes : (frameFormat.split stream).frames = s.frames := by rw [hframed.split]
  have hrest : (frameFormat.split stream).rest = B.content s.ring := by rw [hframed.split]
  refine ⟨hframed, ?_, ?_, ?_, ?_, ?_, parse_terminates hB⟩
  · rw [← hframes, ← hrest]
    exact Format.split_flatten frameFormat stream
  · intro f hf
    exact wellFramed_of_whole (Format.split_whole frameFormat stream f (hframes ▸ hf))
  · intro hcut more
    have happ := Format.split_append_of_bad (hframed.bad_iff.mpr hcut) more
    rw [happ]
    exact ⟨hframes, rfl⟩
  · intro hcut
    exact ⟨hframed.rest_lt hcut, hframed.direct_ne_zero hB hcut⟩
  · intro hreading bs hne hbs
    exact hframed.enabled hB hreading hne hbs

/-! ### A ring that keeps the contract -/

/-- The bytes of a buffer of 8192 bytes from the read position on, one byte staying free. -/
structure StRing where
  read : Nat := 0
  data : List UInt8 := []
  bounded : data.length ≤ recvCapacity := by decide

/-- Writes go up to the end of the buffer or up to the byte before the read position. -/
def stRing : ByteRing StRing where
  content q := q.data
  getDataSize q := q.data.length
  getDirectWriteSize q :=
    min (recvCapacity - q.data.length) (8192 - (q.read + q.data.length) % 8192)
  store q bs :=
    if h : (q.data ++ bs).length ≤ recvCapacity then ⟨q.read, q.data ++ bs, h⟩ else q
  peek q n := q.data.take n
  dequeue q n := (q.data.take n, ⟨(q.read + n) % 8192, q.data.drop n, by
    have hbounded := q.bounded
    rw [List.length_drop]
    omega⟩)

theorem stRing_fifo : stRing.Fifo where
  size _ := rfl
  direct_zero q := by
    have hbounded := q.bounded
    have hlt := Nat.mod_lt (q.read + q.data.length) (by decide : 0 < 8192)
    show min (recvCapacity - q.data.length) (8192 - (q.read + q.data.length) % 8192) = 0 ↔
      q.data.length = recvCapacity
    omega
  store q bs h := by
    have h : bs.length ≤ min (recvCapacity - q.data.length)
      (8192 - (q.read + q.data.length) % 8192) := h
    have hfits : (q.data ++ bs).length ≤ recvCapacity := by
      have hbounded := q.bounded
      rw [List.length_append]
      omega
    show (if h : (q.data ++ bs).length ≤ recvCapacity then
      (⟨q.read, q.data ++ bs, h⟩ : StRing) else q).data = q.data ++ bs
    rw [dif_pos hfits]
  peek _ _ _ := rfl
  dequeue _ _ _ := ⟨rfl, rfl⟩

/-- A frame in two pieces, the second one with another frame and a header that says 3. -/
def twoPieces : List ReadAct :=
  [.wake, .read (.bytes [6, 0, 10]), .read .again, .wake,
    .read (.bytes [0, 1, 0, 4, 0, 1, 0, 3, 0, 0, 0])]

theorem framing_twoPieces : ∃ s,
    record (Reader.step stRing) (Reader.received stRing) twoPieces { ring := {} } =
      some ([6, 0, 10, 0, 1, 0, 4, 0, 1, 0, 3, 0, 0, 0], s) ∧
    Framed stRing [6, 0, 10, 0, 1, 0, 4, 0, 1, 0, 3, 0, 0, 0] s ∧
    s.frames = [[6, 0, 10, 0, 1, 0], [4, 0, 1, 0]] ∧ s.cut = some .header := by
  have hrun : (record (Reader.step stRing) (Reader.received stRing) twoPieces { ring := {} }).map
      (fun p => (p.1, p.2.frames, p.2.cut)) =
      some ([6, 0, 10, 0, 1, 0, 4, 0, 1, 0, 3, 0, 0, 0],
        [[6, 0, 10, 0, 1, 0], [4, 0, 1, 0]], some .header) := by decide +kernel
  obtain ⟨⟨stream, s⟩, hrec, hproj⟩ := Option.map_eq_some_iff.mp hrun
  simp only [Prod.mk.injEq] at hproj
  obtain ⟨rfl, hframes, hcut⟩ := hproj
  obtain ⟨hframed, -⟩ := framing stRing_fifo rfl (traced_of_record hrec)
  exact ⟨s, hrec, hframed, hframes, hcut⟩

end BeltServer
