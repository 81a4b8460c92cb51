import BeltServer.RoundTrip
import BeltServer.Quantile
import BeltServer.Lib.Runs

/-!
# The echo check

`SendEcho` and the branch of `ParseFrames` for `ECHO` of one connection of the load generator.
Size and padding of a frame are drawn from its sequence number, so the receiver builds them
again and compares. Verification is on.
-/

namespace BeltServer.Dummy

set_option autoImplicit false

open Runs LittleEndian LengthPrefix

/-- `kEchoMin`, the `sizeof` of `EchoHead`. -/
def kEchoMin : Nat := 20

/-- `g_pktMin` and `g_pktMax`. -/
structure PacketRange where
  pktMin : Nat
  pktMax : Nat
  echoMin_le : kEchoMin ≤ pktMin
  min_le_max : pktMin ≤ pktMax
  max_le : pktMax ≤ maxPacketSize

def mix64 (x : UInt64) : UInt64 :=
  let x := x + 0x9E3779B97F4A7C15
  let x := (x ^^^ (x >>> 30)) * 0xBF58476D1CE4E5B9
  let x := (x ^^^ (x >>> 27)) * 0x94D049BB133111EB
  x ^^^ (x >>> 31)

def echoSizeFor (r : PacketRange) (seed seq : UInt64) : UInt16 :=
  if r.pktMax ≤ r.pktMin then UInt16.ofNat r.pktMin
  else
    let span := r.pktMax - r.pktMin + 1
    UInt16.ofNat (r.pktMin + (mix64 (seed ^^^ (seq * 0xD1B54A32D192ED03))).toNat % span)

/-- The loop of `FillPad`, with `n` bytes to go. -/
def fillPadFrom (n : Nat) (s : UInt64) : List UInt8 :=
  if n = 0 then []
  else
    let s := mix64 s
    let chunk := if n < 8 then n else 8
    (bytes 8 s.toNat).take chunk ++ fillPadFrom (n - 8) s
termination_by n

def fillPad (n : Nat) (seed seq : UInt64) : List UInt8 := fillPadFrom n (seed ^^^ seq)

def u64 (x : UInt64) : Field := ⟨8, x.toNat, x.toNat_lt⟩

def echoHead (size : UInt16) (seq : UInt64) (sentNs : Int64) : List Field :=
  [u16 size, u16 ECHO, u64 seq, i64 sentNs]

def echoFrame (r : PacketRange) (seed seq : UInt64) (sentNs : Int64) : List UInt8 :=
  let size := echoSizeFor r seed seq
  pack (echoHead size seq sentNs) ++
    if size.toNat > kEchoMin then fillPad (size.toNat - kEchoMin) seed seq else []

/-- A frame of type `ECHO` as the loop of `ParseFrames` takes it off the buffer. -/
def WellFormed (f : List UInt8) : Prop := frameFormat.Whole f ∧ leNat (bytesAt f 2 2) = ECHO.toNat

def seqOf (f : List UInt8) : UInt64 := UInt64.ofNat (leNat (bytesAt f 4 8))

def sentNsOf (f : List UInt8) : Int64 := Int64.ofBitVec (BitVec.ofNat 64 (leNat (bytesAt f 12 8)))

inductive Violation where
  | short (size : Nat)
  | size (seq : UInt64) (want size : Nat)
  | pad (seq : UInt64) (size bad : Nat)
  | order (seq expectRecv : UInt64)
  deriving DecidableEq

/-- The client, the counters it moves, and the frames it has sent and taken so far. -/
structure Echoer where
  seed : UInt64
  dead : Bool := false
  echoSeq : UInt64 := 0
  expectRecv : UInt64 := 1
  pending : Int := 0
  lastRecvNs : Int64 := 0
  notRecvFlagged : Bool := false
  local_ : Local := {}
  echoSent : Nat := 0
  padError : Nat := 0
  orderError : Nat := 0
  lateArrival : Nat := 0
  violations : List Violation := []
  /-- `g_stop`. -/
  stop : Bool := false
  sent : List (List UInt8) := []
  received : List (List UInt8) := []

namespace Echoer

variable (r : PacketRange) (failFast : Bool) (s : Echoer)

/-- `SendEcho` at the time `now`; `dies` tells whether `SendBytes` kills the client. -/
def sendEcho (now : Int64) (dies : Bool) : Echoer :=
  let seq := s.echoSeq + 1
  let s := { s with echoSeq := seq, sent := s.sent ++ [echoFrame r s.seed seq now] }
  if dies then { s with dead := true }
  else { s with echoSent := s.echoSent + 1, pending := s.pending + 1 }

def padViolation (v : Violation) : Echoer :=
  { s with
    padError := s.padError + 1
    violations := s.violations ++ [v]
    stop := s.stop || failFast }

/-- The latency, which is taken whatever the comparison says. -/
def roundTrip (now : Int64) (f : List UInt8) : Echoer :=
  { s with
    local_ := s.local_.echoed ((now.toInt - (sentNsOf f).toInt).tdiv 1000)
    pending := if s.pending > 0 then s.pending - 1 else s.pending
    lastRecvNs := now
    notRecvFlagged := false }

/-- Size and padding against those built from the sequence number. -/
def checkBytes (f : List UInt8) : Echoer :=
  let size := frameSize f
  let seq := seqOf f
  let want := (echoSizeFor r s.seed seq).toNat
  if want ≠ size then s.padViolation failFast (.size seq want size)
  else if size > kEchoMin then
    let got := (f.drop kEchoMin).take (size - kEchoMin)
    let expect := fillPad (size - kEchoMin) s.seed seq
    if expect ≠ got then
      s.padViolation failFast (.pad seq size ((expect.zip got).findIdx fun b => b.1 ≠ b.2))
    else s
  else s

def checkOrder (seq : UInt64) : Echoer :=
  if seq = s.expectRecv then { s with expectRecv := s.expectRecv + 1 }
  else if seq < s.expectRecv then { s with lateArrival := s.lateArrival + 1 }
  else
    { s with
      orderError := s.orderError + 1
      violations := s.violations ++ [.order seq s.expectRecv]
      stop := s.stop || failFast
      expectRecv := seq + 1 }

/-- The branch of `ParseFrames` for `ECHO`. -/
def onEcho (now : Int64) (f : List UInt8) : Echoer :=
  let s := { s with received := s.received ++ [f] }
  if frameSize f < kEchoMin then
    { s.padViolation failFast (.short (frameSize f)) with dead := true }
  else ((s.roundTrip now f).checkBytes r failFast f).checkOrder failFast (seqOf f)

end Echoer

inductive EchoAct where
  | send (now : Int64) (dies : Bool)
  | receive (now : Int64) (f : { f : List UInt8 // WellFormed f })

/-- Sending and receiving in any order, until the client is dead. -/
def echoStep (r : PacketRange) (failFast : Bool) (a : EchoAct) (s : Echoer) : Option Echoer :=
  if s.dead then none
  else
    match a with
    | .send now dies => some (s.sendEcho r now dies)
    | .receive now f => some (s.onEcho r failFast now f)

def Silent (s : Echoer) : Prop := s.padError = 0 ∧ s.orderError = 0

/-! ### Frames -/

section Frames

variable {r : PacketRange} {seed seq : UInt64} {t : Int64} {f : List UInt8}

@[simp] theorem length_fillPadFrom (n : Nat) (s : UInt64) : (fillPadFrom n s).length = n := by
  fun_induction fillPadFrom n s with
  | case1 s => rfl
  | case2 n s hn s' chunk ih =>
    rw [List.length_append, List.length_take, length_bytes, ih]
    have hchunk : chunk = if n < 8 then n else 8 := rfl
    split at hchunk
    · omega
    · omega

@[simp] theorem length_fillPad (n : Nat) (seed seq : UInt64) : (fillPad n seed seq).length = n :=
  length_fillPadFrom ..

theorem echoSizeFor_bounds (r : PacketRange) (seed seq : UInt64) :
    kEchoMin ≤ (echoSizeFor r seed seq).toNat ∧ (echoSizeFor r seed seq).toNat ≤ maxPacketSize := by
  have hmin := r.echoMin_le
  have hle := r.min_le_max
  have hmax : r.pktMax ≤ 1024 := r.max_le
  unfold echoSizeFor
  split
  · rw [UInt16.toNat_ofNat']
    unfold maxPacketSize
    omega
  · have hrem := Nat.mod_lt (mix64 (seed ^^^ (seq * 0xD1B54A32D192ED03))).toNat
      (Nat.succ_pos (r.pktMax - r.pktMin))
    simp only [UInt16.toNat_ofNat', Nat.succ_eq_add_one] at hrem ⊢
    unfold maxPacketSize
    omega

theorem size_echoHead (size : UInt16) : LittleEndian.size (echoHead size seq t) = kEchoMin := rfl

theorem echoFrame_eq (r : PacketRange) (seed seq : UInt64) (t : Int64) :
    echoFrame r seed seq t = pack (echoHead (echoSizeFor r seed seq) seq t) ++
      fillPad ((echoSizeFor r seed seq).toNat - kEchoMin) seed seq := by
  unfold echoFrame
  dsimp only
  split
  · rfl
  · next h =>
    rw [Nat.sub_eq_zero_of_le (Nat.not_lt.mp h), fillPad, fillPadFrom, if_pos rfl]

theorem length_echoFrame :
    (echoFrame r seed seq t).length = (echoSizeFor r seed seq).toNat := by
  have hmin := (echoSizeFor_bounds r seed seq).1
  rw [echoFrame_eq, List.length_append, length_pack, size_echoHead, length_fillPad]
  omega

/-- A field of the head is read from the whole frame. -/
theorem leNat_echoFrame (pre post : List Field) (g : Field) {off n : Nat}
    (hfs : echoHead (echoSizeFor r seed seq) seq t = pre ++ g :: post) (hoff : size pre = off)
    (hn : g.width = n) : leNat (bytesAt (echoFrame r seed seq t) off n) = g.num := by
  have hread := leNat_pack pre post g hfs hoff hn
  have hend : off + n ≤ (pack (echoHead (echoSizeFor r seed seq) seq t)).length := by
    have hfits := size_add_width_le pre post g
    rw [← hfs, hoff, hn] at hfits
    exact hfits
  rw [← hread, echoFrame_eq]
  unfold bytesAt
  rw [List.drop_append_of_le_length (by omega), List.take_append_of_le_length]
  rw [List.length_drop]
  omega

theorem frameSize_echoFrame :
    frameSize (echoFrame r seed seq t) = (echoSizeFor r seed seq).toNat :=
  leNat_echoFrame [] _ (u16 _) rfl rfl rfl

theorem wellFormed_echoFrame : WellFormed (echoFrame r seed seq t) := by
  obtain ⟨hmin, hmax⟩ := echoSizeFor_bounds r seed seq
  refine ⟨⟨?_, ?_, ?_⟩, leNat_echoFrame [u16 _] _ (u16 ECHO) rfl rfl rfl⟩
  · rw [length_echoFrame]
    exact frameSize_echoFrame
  · rw [length_echoFrame]
    exact Nat.le_trans (by decide) hmin
  · rw [length_echoFrame]
    exact hmax

@[simp] theorem seqOf_echoFrame : seqOf (echoFrame r seed seq t) = seq := by
  have hread : leNat (bytesAt (echoFrame r seed seq t) 4 8) = seq.toNat :=
    leNat_echoFrame [u16 _, u16 ECHO] _ (u64 seq) rfl rfl rfl
  rw [seqOf, hread, UInt64.ofNat_toNat]

@[simp] theorem sentNsOf_echoFrame : sentNsOf (echoFrame r seed seq t) = t := by
  have hread : leNat (bytesAt (echoFrame r seed seq t) 12 8) = t.toBitVec.toNat :=
    leNat_echoFrame [u16 _, u16 ECHO, u64 seq] _ (i64 t) rfl rfl rfl
  rw [sentNsOf, hread, BitVec.ofNat_toNat, BitVec.setWidth_eq]
  exact Int64.ofBitVec_toBitVec t

theorem drop_echoFrame : (echoFrame r seed seq t).drop kEchoMin =
    fillPad ((echoSizeFor r seed seq).toNat - kEchoMin) seed seq := by
  rw [echoFrame_eq]
  exact List.drop_left' (length_pack _)

/-- A frame with the size and the padding of its own number is the frame that `SendEcho` writes
under this number at some time. -/
theorem eq_echoFrame (hf : WellFormed f) (hsize : frameSize f = (echoSizeFor r seed (seqOf f)).toNat)
    (hpad : f.drop kEchoMin = fillPad (frameSize f - kEchoMin) seed (seqOf f)) :
    f = echoFrame r seed (seqOf f) (sentNsOf f) := by
  have hmin : 20 ≤ f.length := by
    have hlen : frameSize f = f.length := hf.1.1
    rw [← hlen, hsize]
    exact (echoSizeFor_bounds r seed (seqOf f)).1
  have hshort (off n : Nat) : leNat (bytesAt f off n) < 256 ^ n := by
    rw [leNat_eq_value]
    refine Nat.lt_of_lt_of_le (value_lt _) (Nat.pow_le_pow_right (by decide) ?_)
    exact List.length_take_le ..
  have hseq : (seqOf f).toNat = leNat (bytesAt f 4 8) := by
    rw [seqOf, UInt64.toNat_ofNat']
    exact Nat.mod_eq_of_lt (hshort 4 8)
  have htime : (sentNsOf f).toBitVec.toNat = leNat (bytesAt f 12 8) := by
    exact Nat.mod_eq_of_lt (hshort 12 8)
  have hfield (g : Field) (off n : Nat) (hn : g.width = n) (hfits : off + n ≤ 20)
      (hnum : g.num = leNat (bytesAt f off n)) : g.bytes = (f.drop off).take g.width := by
    subst hn
    apply Field.bytes_of_value
    · rw [List.length_drop]
      omega
    · rw [hnum, leNat_eq_value]
      rfl
  have hhead : pack (echoHead (echoSizeFor r seed (seqOf f)) (seqOf f) (sentNsOf f)) =
      f.take kEchoMin := by
    refine pack_cons_eq_take (hfield (u16 _) 0 2 rfl (by decide) hsize.symm) ?_
    refine pack_cons_eq_take (hfield (u16 ECHO) 2 2 rfl (by decide) hf.2.symm) ?_
    rw [List.drop_drop]
    refine pack_cons_eq_take (hfield (u64 _) 4 8 rfl (by decide) hseq) ?_
    rw [List.drop_drop]
    exact pack_cons_eq_take (hfield (i64 _) 12 8 rfl (by decide) htime) rfl
  rw [echoFrame_eq, hhead, ← hsize, ← hpad, List.take_append_drop]

def untimed (f : List UInt8) : List UInt8 := f.take 12 ++ f.drop kEchoMin

theorem untimed_echoFrame (t t' : Int64) :
    untimed (echoFrame r seed seq t) = untimed (echoFrame r seed seq t') := by
  have hfront (t : Int64) : (echoFrame r seed seq t).take 12 =
      pack [u16 (echoSizeFor r seed seq), u16 ECHO, u64 seq] := by
    have hsplit : echoHead (echoSizeFor r seed seq) seq t =
        [u16 (echoSizeFor r seed seq), u16 ECHO, u64 seq] ++ [i64 t] := rfl
    rw [echoFrame_eq, hsplit, pack_append, List.append_assoc]
    exact List.take_left' (length_pack _)
  unfold untimed
  rw [hfront t, hfront t', drop_echoFrame, drop_echoFrame]

end Frames

/-! ### What is sent -/

section Sent

variable (r : PacketRange) (seed : UInt64)

/-- The frames under the numbers 1, 2, .. at the given times. -/
def numbered (ts : List Int64) : List (List UInt8) :=
  ts.mapIdx fun i t => echoFrame r seed (UInt64.ofNat (i + 1)) t

@[simp] theorem numbered_nil : numbered r seed [] = [] := List.mapIdx_nil

@[simp] theorem length_numbered (ts : List Int64) : (numbered r seed ts).length = ts.length :=
  List.length_mapIdx

theorem numbered_concat (ts : List Int64) (t : Int64) : numbered r seed (ts ++ [t]) =
    numbered r seed ts ++ [echoFrame r seed (UInt64.ofNat (ts.length + 1)) t] :=
  List.mapIdx_concat

theorem numbered_prefix {ts : List Int64} {fs : List (List UInt8)}
    (h : fs <+: numbered r seed ts) : ∃ ts', fs = numbered r seed ts' := by
  obtain ⟨rest, hrest⟩ := h
  obtain ⟨ts', _, _, hfs, _⟩ := List.mapIdx_eq_append_iff.mp hrest.symm
  exact ⟨ts', hfs.symm⟩

/-- The times apart, frames under the same numbers are the same. -/
theorem numbered_untimed (ts : List Int64) : (numbered r seed ts).map untimed =
    (List.range ts.length).map fun i =>
      untimed (echoFrame r seed (UInt64.ofNat (i + 1)) 0) := by
  apply List.ext_getElem
  · simp
  · intro i hi hi'
    simp only [numbered, List.getElem_map, List.getElem_mapIdx, List.getElem_range]
    exact untimed_echoFrame _ _

theorem numbered_untimed_prefix {ts ts' : List Int64} (h : ts.length ≤ ts'.length) :
    (numbered r seed ts).map untimed <+: (numbered r seed ts').map untimed := by
  rw [numbered_untimed, numbered_untimed]
  apply List.IsPrefix.map
  rw [List.prefix_iff_eq_take, List.take_range, List.length_range, Nat.min_eq_left h]

end Sent

/-! ### What one frame does -/

section Steps

variable (r : PacketRange) (failFast : Bool) (s : Echoer) (now : Int64) {f : List UInt8}

/-- The frame has the size and the padding of its number. -/
def Built (seed : UInt64) (f : List UInt8) : Prop :=
  ∃ t, f = echoFrame r seed (seqOf f) t

theorem built_iff {seed : UInt64} (hf : WellFormed f) : Built r seed f ↔
    frameSize f = (echoSizeFor r seed (seqOf f)).toNat ∧
      f.drop kEchoMin = fillPad (frameSize f - kEchoMin) seed (seqOf f) := by
  constructor
  · rintro ⟨t, h⟩
    have hsize : frameSize f = (echoSizeFor r seed (seqOf f)).toNat := by
      conv_lhs => rw [h]
      exact frameSize_echoFrame
    refine ⟨hsize, ?_⟩
    rw [hsize, ← drop_echoFrame, ← h]
  · rintro ⟨hsize, hpad⟩
    exact ⟨_, eq_echoFrame hf hsize hpad⟩

/-- The comparison passes exactly the frames that `SendEcho` can have written. -/
theorem checkBytes_cases (hf : WellFormed f) :
    (Built r s.seed f ∧ s.checkBytes r failFast f = s) ∨
    (¬ Built r s.seed f ∧ ∃ v, s.checkBytes r failFast f = s.padViolation failFast v) := by
  have hlen : frameSize f = f.length := hf.1.1
  rw [built_iff r hf]
  unfold Echoer.checkBytes
  dsimp only
  split
  · next hsize => exact .inr ⟨fun h => hsize h.1.symm, _, rfl⟩
  next hsize =>
  rw [not_not] at hsize
  have hgot : (f.drop kEchoMin).take (frameSize f - kEchoMin) = f.drop kEchoMin := by
    apply List.take_of_length_le
    rw [List.length_drop, hlen]
  split
  · split
    · next hpad =>
      refine .inr ⟨fun h => hpad ?_, _, rfl⟩
      rw [hgot, h.2]
    · next hpad =>
      rw [not_not, hgot] at hpad
      exact .inl ⟨⟨hsize.symm, hpad.symm⟩, rfl⟩
  · next hshort =>
    refine .inl ⟨⟨hsize.symm, ?_⟩, rfl⟩
    rw [Nat.sub_eq_zero_of_le (Nat.not_lt.mp hshort), fillPad, fillPadFrom, if_pos rfl]
    apply List.drop_eq_nil_of_le
    omega

theorem checkOrder_cases (seq : UInt64) :
    (seq = s.expectRecv ∧
      s.checkOrder failFast seq = { s with expectRecv := s.expectRecv + 1 }) ∨
    (seq < s.expectRecv ∧
      s.checkOrder failFast seq = { s with lateArrival := s.lateArrival + 1 }) ∨
    (s.expectRecv < seq ∧ (s.checkOrder failFast seq).orderError = s.orderError + 1) := by
  unfold Echoer.checkOrder
  split
  · next heq => exact .inl ⟨heq, rfl⟩
  next hne =>
  split
  · next hlt => exact .inr (.inl ⟨hlt, rfl⟩)
  · next hge =>
    refine .inr (.inr ⟨?_, rfl⟩)
    exact UInt64.lt_of_le_of_ne (UInt64.not_lt.mp hge) fun h => hne h.symm

theorem checkOrder_frame (seq : UInt64) : (s.checkOrder failFast seq).padError = s.padError ∧
    (s.checkOrder failFast seq).seed = s.seed ∧ (s.checkOrder failFast seq).echoSeq = s.echoSeq ∧
    (s.checkOrder failFast seq).sent = s.sent ∧
    (s.checkOrder failFast seq).received = s.received ∧
    (s.checkOrder failFast seq).dead = s.dead := by
  unfold Echoer.checkOrder
  split
  · exact ⟨rfl, rfl, rfl, rfl, rfl, rfl⟩
  · split
    · exact ⟨rfl, rfl, rfl, rfl, rfl, rfl⟩
    · exact ⟨rfl, rfl, rfl, rfl, rfl, rfl⟩

theorem onEcho_built (hf : WellFormed f) (hb : Built r s.seed f) : s.onEcho r failFast now f =
    ({ s with received := s.received ++ [f] }.roundTrip now f).checkOrder failFast (seqOf f) := by
  have hlong : ¬ frameSize f < kEchoMin := by
    rw [((built_iff r hf).mp hb).1]
    exact Nat.not_lt.mpr (echoSizeFor_bounds r s.seed (seqOf f)).1
  unfold Echoer.onEcho
  dsimp only
  rw [if_neg hlong]
  rcases checkBytes_cases r failFast ({ s with received := s.received ++ [f] }.roundTrip now f) hf
    with ⟨_, hsame⟩ | ⟨hnot, _⟩
  · rw [hsame]
  · exact absurd hb hnot

theorem onEcho_unbuilt (hf : WellFormed f) (hb : ¬ Built r s.seed f) :
    (s.onEcho r failFast now f).padError = s.padError + 1 := by
  unfold Echoer.onEcho
  dsimp only
  split
  · rfl
  rcases checkBytes_cases r failFast ({ s with received := s.received ++ [f] }.roundTrip now f) hf
    with ⟨hyes, _⟩ | ⟨_, v, hv⟩
  · exact absurd hyes hb
  · rw [hv, (checkOrder_frame ..).1]
    rfl

theorem onEcho_frame : (s.onEcho r failFast now f).seed = s.seed ∧
    (s.onEcho r failFast now f).echoSeq = s.echoSeq ∧
    (s.onEcho r failFast now f).sent = s.sent ∧
    (s.onEcho r failFast now f).received = s.received ++ [f] := by
  have hbytes (t : Echoer) : (t.checkBytes r failFast f).seed = t.seed ∧
      (t.checkBytes r failFast f).echoSeq = t.echoSeq ∧
      (t.checkBytes r failFast f).sent = t.sent ∧
      (t.checkBytes r failFast f).received = t.received := by
    unfold Echoer.checkBytes
    dsimp only
    split
    · exact ⟨rfl, rfl, rfl, rfl⟩
    · split
      · split
        · exact ⟨rfl, rfl, rfl, rfl⟩
        · exact ⟨rfl, rfl, rfl, rfl⟩
      · exact ⟨rfl, rfl, rfl, rfl⟩
  unfold Echoer.onEcho
  dsimp only
  split
  · exact ⟨rfl, rfl, rfl, rfl⟩
  · obtain ⟨_, hseed, hseq, hsent, hrecv, _⟩ := checkOrder_frame failFast
      (({ s with received := s.received ++ [f] }.roundTrip now f).checkBytes r failFast f) (seqOf f)
    obtain ⟨hseed', hseq', hsent', hrecv'⟩ :=
      hbytes ({ s with received := s.received ++ [f] }.roundTrip now f)
    exact ⟨hseed.trans hseed', hseq.trans hseq', hsent.trans hsent', hrecv.trans hrecv'⟩

/-- The three things that a frame of the right size and padding can do. -/
theorem onEcho_cases (hf : WellFormed f) (hb : Built r s.seed f) :
    ((s.onEcho r failFast now f).padError = s.padError) ∧
    ((seqOf f = s.expectRecv ∧ (s.onEcho r failFast now f).expectRecv = s.expectRecv + 1 ∧
        (s.onEcho r failFast now f).orderError = s.orderError ∧
        (s.onEcho r failFast now f).lateArrival = s.lateArrival) ∨
      (seqOf f < s.expectRecv ∧ (s.onEcho r failFast now f).expectRecv = s.expectRecv ∧
        (s.onEcho r failFast now f).orderError = s.orderError ∧
        (s.onEcho r failFast now f).lateArrival = s.lateArrival + 1) ∨
      (s.expectRecv < seqOf f ∧
        (s.onEcho r failFast now f).orderError = s.orderError + 1)) := by
  rw [onEcho_built r failFast s now hf hb]
  refine ⟨(checkOrder_frame ..).1, ?_⟩
  rcases checkOrder_cases failFast ({ s with received := s.received ++ [f] }.roundTrip now f)
      (seqOf f) with
    ⟨heq, hout⟩ | ⟨hlt, hout⟩ | ⟨hgt, hout⟩
  · rw [hout]
    exact .inl ⟨heq, rfl, rfl, rfl⟩
  · rw [hout]
    exact .inr (.inl ⟨hlt, rfl, rfl, rfl⟩)
  · exact .inr (.inr ⟨hgt, hout⟩)

end Steps

/-! ### Whole runs -/

/-- The frames under 1, 2, .. at the times `ts`, with `n` frames under lower numbers among
them. -/
inductive Follows (r : PacketRange) (seed : UInt64) :
    List Int64 → List (List UInt8) → Nat → Prop where
  | nil : Follows r seed [] [] 0
  | next {ts : List Int64} {fs : List (List UInt8)} {n : Nat} (t : Int64) : Follows r seed ts fs n →
      Follows r seed (ts ++ [t]) (fs ++ [echoFrame r seed (UInt64.ofNat (ts.length + 1)) t]) n
  | late {ts : List Int64} {fs : List (List UInt8)} {n : Nat} (seq : UInt64) (t : Int64) :
      Follows r seed ts fs n → seq < UInt64.ofNat (ts.length + 1) →
      Follows r seed ts (fs ++ [echoFrame r seed seq t]) (n + 1)

namespace Follows

variable {r : PacketRange} {seed : UInt64} {ts : List Int64} {fs : List (List UInt8)} {n : Nat}

theorem of_numbered (ts : List Int64) : Follows r seed ts (numbered r seed ts) 0 := by
  induction ts using List.reverseRecOn with
  | nil => exact .nil
  | append_singleton ts t ih =>
    rw [numbered_concat]
    exact .next t ih

theorem eq_numbered (h : Follows r seed ts fs n) (hn : n = 0) : fs = numbered r seed ts := by
  induction h with
  | nil => exact (numbered_nil r seed).symm
  | next t _ ih => rw [numbered_concat, ih hn]
  | late => cases hn

theorem concat {f : List UInt8} (h : Follows r seed ts (fs ++ [f]) n) :
    (∃ ts' t, ts = ts' ++ [t] ∧ f = echoFrame r seed (UInt64.ofNat (ts'.length + 1)) t ∧
      Follows r seed ts' fs n) ∨
    (∃ m seq t, n = m + 1 ∧ seq < UInt64.ofNat (ts.length + 1) ∧
      f = echoFrame r seed seq t ∧ Follows r seed ts fs m) := by
  generalize hall : fs ++ [f] = all at h
  cases h with
  | nil => exact absurd hall (List.append_ne_nil_of_right_ne_nil _ nofun)
  | next t h =>
    obtain ⟨rfl, hlast⟩ := List.append_inj' hall rfl
    exact .inl ⟨_, t, rfl, List.head_eq_of_cons_eq hlast, h⟩
  | late seq t h hlt =>
    obtain ⟨rfl, hlast⟩ := List.append_inj' hall rfl
    exact .inr ⟨_, seq, t, rfl, hlt, List.head_eq_of_cons_eq hlast, h⟩

end Follows

section Runs

variable {r : PacketRange} {failFast : Bool} {seed : UInt64} {s t : Echoer}

/-- What has been sent, and what it means that no check has failed. -/
structure Sound (r : PacketRange) (seed : UInt64) (s : Echoer) : Prop where
  seed_eq : s.seed = seed
  sends : ∃ ts, s.sent = numbered r seed ts ∧ s.echoSeq = UInt64.ofNat ts.length
  follows : Silent s → ∃ ts, Follows r seed ts s.received s.lateArrival ∧
    s.expectRecv = UInt64.ofNat (ts.length + 1)
  silent : ∀ ts n, Follows r seed ts s.received n →
    Silent s ∧ s.lateArrival = n ∧ s.expectRecv = UInt64.ofNat (ts.length + 1)

theorem sound_start : Sound r seed { seed } where
  seed_eq := rfl
  sends := ⟨[], (numbered_nil r seed).symm, rfl⟩
  follows _ := ⟨[], .nil, rfl⟩
  silent ts n h := by
    generalize hfs : ({ seed } : Echoer).received = fs at h
    cases h with
    | nil => exact ⟨⟨rfl, rfl⟩, rfl, rfl⟩
    | next => exact absurd hfs.symm (List.append_ne_nil_of_right_ne_nil _ nofun)
    | late => exact absurd hfs.symm (List.append_ne_nil_of_right_ne_nil _ nofun)

theorem Sound.send (h : Sound r seed s) (now : Int64) (dies : Bool) :
    Sound r seed (s.sendEcho r now dies) := by
  obtain ⟨ts, hsent, hseq⟩ := h.sends
  have hnext : s.echoSeq + 1 = UInt64.ofNat (ts.length + 1) := by
    rw [hseq, UInt64.ofNat_add]
    rfl
  have hsends : s.sent ++ [echoFrame r s.seed (s.echoSeq + 1) now] =
      numbered r seed (ts ++ [now]) := by
    rw [numbered_concat, hsent, hnext, h.seed_eq]
  have hlen : s.echoSeq + 1 = UInt64.ofNat (ts ++ [now]).length := by
    rw [hnext, List.length_append, List.length_singleton]
  cases dies with
  | true => exact ⟨h.seed_eq, ⟨_, hsends, hlen⟩, h.follows, h.silent⟩
  | false => exact ⟨h.seed_eq, ⟨_, hsends, hlen⟩, h.follows, h.silent⟩

theorem Sound.receive (h : Sound r seed s) (now : Int64) {f : List UInt8} (hf : WellFormed f) :
    Sound r seed (s.onEcho r failFast now f) := by
  obtain ⟨hseed, hseq, hsent, hrecv⟩ := onEcho_frame r failFast s now (f := f)
  refine ⟨hseed.trans h.seed_eq, ?_, ?_, ?_⟩
  · obtain ⟨ts, hs, hq⟩ := h.sends
    exact ⟨ts, hsent.trans hs, hseq.trans hq⟩
  · intro hsilent
    have hb : Built r s.seed f := by
      by_contra hnot
      have hone := onEcho_unbuilt r failFast s now hf hnot
      rw [hsilent.1] at hone
      omega
    obtain ⟨hpad, hcases⟩ := onEcho_cases r failFast s now hf hb
    obtain ⟨t, ht⟩ := hb
    rw [h.seed_eq] at ht
    rcases hcases with ⟨heq, he, ho, hl⟩ | ⟨hlt, he, ho, hl⟩ | ⟨_, ho⟩
    · obtain ⟨ts, hfol, hexp⟩ := h.follows ⟨hpad.symm.trans hsilent.1, ho.symm.trans hsilent.2⟩
      rw [heq, hexp] at ht
      refine ⟨ts ++ [t], ?_, ?_⟩
      · rw [hrecv, hl, ht]
        exact hfol.next t
      · rw [he, hexp, List.length_append, List.length_singleton, UInt64.ofNat_add (ts.length + 1)]
        rfl
    · obtain ⟨ts, hfol, hexp⟩ := h.follows ⟨hpad.symm.trans hsilent.1, ho.symm.trans hsilent.2⟩
      rw [hexp] at hlt
      refine ⟨ts, ?_, he.trans hexp⟩
      rw [hrecv, hl, ht]
      exact hfol.late _ t hlt
    · rw [hsilent.2] at ho
      omega
  · intro ts n hfol
    rw [hrecv] at hfol
    rcases hfol.concat with ⟨ts', t, rfl, hframe, hbefore⟩ | ⟨m, seq, t, rfl, hlow, hframe, hbefore⟩
    · obtain ⟨hsilent, hlate, hexp⟩ := h.silent _ _ hbefore
      have hnum : seqOf f = s.expectRecv := by rw [hframe, seqOf_echoFrame, hexp]
      have hb : Built r s.seed f := ⟨t, by rw [hnum, hexp, h.seed_eq, ← hframe]⟩
      obtain ⟨hpad, hcases⟩ := onEcho_cases r failFast s now hf hb
      rcases hcases with ⟨_, he, ho, hl⟩ | ⟨hlt, _⟩ | ⟨hgt, _⟩
      · refine ⟨⟨hpad.trans hsilent.1, ho.trans hsilent.2⟩, hl.trans hlate, ?_⟩
        rw [he, hexp, List.length_append, List.length_singleton, UInt64.ofNat_add (ts'.length + 1)]
        rfl
      · exact absurd (hnum ▸ hlt) (UInt64.lt_irrefl _)
      · exact absurd (hnum ▸ hgt) (UInt64.lt_irrefl _)
    · obtain ⟨hsilent, hlate, hexp⟩ := h.silent _ _ hbefore
      have hnum : seqOf f = seq := by rw [hframe, seqOf_echoFrame]
      have hb : Built r s.seed f := ⟨t, by rw [hnum, h.seed_eq, ← hframe]⟩
      obtain ⟨hpad, hcases⟩ := onEcho_cases r failFast s now hf hb
      rw [hnum, hexp] at hcases
      rcases hcases with ⟨heq, _⟩ | ⟨_, he, ho, hl⟩ | ⟨hgt, _⟩
      · exact absurd (heq ▸ hlow) (UInt64.lt_irrefl _)
      · exact ⟨⟨hpad.trans hsilent.1, ho.trans hsilent.2⟩, hl.trans (congrArg (· + 1) hlate), he⟩
      · exact absurd (UInt64.lt_trans hlow hgt) (UInt64.lt_irrefl _)

theorem Sound.step {a : EchoAct} (h : Sound r seed s) (hs : echoStep r failFast a s = some t) :
    Sound r seed t := by
  unfold echoStep at hs
  split at hs
  · cases hs
  · cases a with
    | send now dies => exact Option.some.inj hs ▸ h.send now dies
    | receive now f => exact Option.some.inj hs ▸ h.receive now f.property

theorem sound_reach (h : Reach (echoStep r failFast) Any { seed } s) : Sound r seed s :=
  h.invariant sound_start fun _ _ _ _ hsound _ hstep => hsound.step hstep

/-- A live client that has sent at the times `sends` and taken `fs`. -/
def Arrived (r : PacketRange) (failFast : Bool) (seed : UInt64) (sends : List Int64)
    (fs : List (List UInt8)) : Prop :=
  ∃ s, Reach (echoStep r failFast) Any { seed } s ∧ s.sent = numbered r seed sends ∧
    s.received = fs ∧ s.dead = false

theorem arrived_nil (sends : List Int64) : Arrived r failFast seed sends [] := by
  induction sends using List.reverseRecOn with
  | nil => exact ⟨_, .refl, (numbered_nil r seed).symm, rfl, rfl⟩
  | append_singleton sends now ih =>
    obtain ⟨s, hs, hsent, hrecv, hlive⟩ := ih
    refine ⟨s.sendEcho r now false, .tail (a := .send now false) hs trivial ?_, ?_, hrecv, hlive⟩
    · exact if_neg (Bool.not_eq_true _ ▸ hlive)
    · obtain ⟨ts, hsent', hseq⟩ := (sound_reach hs).sends
      have hlen : ts.length = sends.length := by
        rw [← length_numbered r seed ts, ← hsent', hsent, length_numbered]
      have hnext : s.echoSeq + 1 = UInt64.ofNat (sends.length + 1) := by
        rw [hseq, hlen, UInt64.ofNat_add]
        rfl
      rw [numbered_concat, ← hsent, ← hnext, ← (sound_reach hs).seed_eq]
      rfl

theorem Arrived.receive {sends : List Int64} {fs : List (List UInt8)}
    (h : Arrived r failFast seed sends fs) (seq : UInt64) (t : Int64) :
    Arrived r failFast seed sends (fs ++ [echoFrame r seed seq t]) := by
  obtain ⟨s, hs, hsent, hrecv, hlive⟩ := h
  have hf : WellFormed (echoFrame r seed seq t) := wellFormed_echoFrame
  have hb : Built r s.seed (echoFrame r seed seq t) :=
    ⟨t, by rw [seqOf_echoFrame, (sound_reach hs).seed_eq]⟩
  obtain ⟨_, _, hsent', hrecv'⟩ := onEcho_frame r failFast s 0 (f := echoFrame r seed seq t)
  refine ⟨s.onEcho r failFast 0 (echoFrame r seed seq t),
    .tail (a := .receive 0 ⟨_, hf⟩) hs trivial ?_, hsent'.trans hsent, ?_, ?_⟩
  · exact if_neg (Bool.not_eq_true _ ▸ hlive)
  · rw [hrecv', hrecv]
  · rw [onEcho_built r failFast s 0 hf hb]
    exact (checkOrder_frame ..).2.2.2.2.2.trans hlive

/-- Whatever has been sent, every sequence of frames of this kind can arrive, and no check
fails. -/
theorem follows_reached {ts : List Int64} {fs : List (List UInt8)} {n : Nat}
    (hfol : Follows r seed ts fs n) (sends : List Int64) :
    ∃ s, Reach (echoStep r failFast) Any { seed } s ∧ Silent s ∧
      s.sent = numbered r seed sends ∧ s.received = fs := by
  have harrived : Arrived r failFast seed sends fs := by
    induction hfol with
    | nil => exact arrived_nil sends
    | next t _ ih => exact ih.receive _ t
    | late seq t _ _ ih => exact ih.receive seq t
  obtain ⟨s, hs, hsent, rfl, _⟩ := harrived
  exact ⟨s, hs, ((sound_reach hs).silent ts n hfol).1, hsent, rfl⟩

/-- When no check fails, what is taken is 1, 2, .. as `SendEcho` writes them, with late frames
among them that are counted, and without late frames it is what was sent, the times apart. A
prefix of what was sent raises nothing. -/
theorem echo_check (r : PacketRange) (failFast : Bool) (seed : UInt64) (s : Echoer)
    (h : Reach (echoStep r failFast) Any { seed } s) :
    (Silent s → ∃ ts, Follows r seed ts s.received s.lateArrival) ∧
    (Silent s → s.lateArrival = 0 → s.received.length ≤ s.sent.length →
      s.received.map untimed <+: s.sent.map untimed) ∧
    (s.received <+: s.sent → Silent s ∧ s.lateArrival = 0) := by
  have hsound := sound_reach h
  obtain ⟨sends, hsent, _⟩ := hsound.sends
  refine ⟨fun hsilent => ?_, fun hsilent hnone hle => ?_, fun hprefix => ?_⟩
  · obtain ⟨ts, hfol, _⟩ := hsound.follows hsilent
    exact ⟨ts, hfol⟩
  · obtain ⟨ts, hfol, _⟩ := hsound.follows hsilent
    have hrecv := hfol.eq_numbered hnone
    rw [hrecv, hsent, length_numbered, length_numbered] at hle
    rw [hrecv, hsent]
    exact numbered_untimed_prefix r seed hle
  · rw [hsent] at hprefix
    obtain ⟨ts, hrecv⟩ := numbered_prefix r seed hprefix
    obtain ⟨hsilent, hnone, _⟩ := hsound.silent ts 0 (hrecv ▸ .of_numbered ts)
    exact ⟨hsilent, hnone⟩

def headOnly : PacketRange := ⟨20, 20, by decide, by decide, by decide⟩

def padded : PacketRange := ⟨22, 30, by decide, by decide, by decide⟩

/-- Three frames are sent, of 22, 24 and 28 bytes; two have come back, the first before the third
was sent. -/
def paddedRun : List EchoAct :=
  [.send 3 false, .send 4 false, .receive 5 ⟨echoFrame padded 7 1 3, wellFormed_echoFrame⟩,
    .send 6 false, .receive 7 ⟨echoFrame padded 7 2 4, wellFormed_echoFrame⟩]

theorem echo_check_padded : ∃ s, run (echoStep padded true) paddedRun { seed := 7 } = some s ∧
    s.sent.map List.length = [22, 24, 28] ∧ s.received.length = 2 ∧ Silent s ∧
    (∃ ts, Follows padded 7 ts s.received s.lateArrival) ∧
    s.received.map untimed <+: s.sent.map untimed := by
  have hrun : (run (echoStep padded true) paddedRun { seed := 7 }).map
      (fun s => (s.sent, s.received)) =
      some ([echoFrame padded 7 1 3, echoFrame padded 7 2 4, echoFrame padded 7 3 6],
        [echoFrame padded 7 1 3, echoFrame padded 7 2 4]) := by decide +kernel
  obtain ⟨s, hs, hproj⟩ := Option.map_eq_some_iff.mp hrun
  obtain ⟨hsent, hrecv⟩ := Prod.mk.inj hproj
  obtain ⟨hfollows, hprefix, hfine⟩ := echo_check padded true 7 s (reach_of_run hs)
  have hfirst : s.received <+: s.sent := by
    rw [hsent, hrecv]
    exact ⟨[echoFrame padded 7 3 6], rfl⟩
  obtain ⟨hsilent, hnone⟩ := hfine hfirst
  refine ⟨s, hs, ?_, ?_, hsilent, hfollows hsilent, hprefix hsilent hnone hfirst.length_le⟩
  · rw [hsent]
    decide +kernel
  · rw [hrecv]
    rfl

/-- A frame that comes twice, one with another time, and one that was never sent: no check
fails. -/
theorem silent_on_faults :
    (¬ ∀ s, Reach (echoStep headOnly true) Any { seed := 7 } s → Silent s →
      s.received <+: s.sent) ∧
    (∃ s, Reach (echoStep headOnly true) Any { seed := 7 } s ∧ Silent s ∧
      s.sent = [echoFrame headOnly 7 1 3] ∧
      s.received = [echoFrame headOnly 7 1 3, echoFrame headOnly 7 1 3]) ∧
    (∃ s, Reach (echoStep headOnly true) Any { seed := 7 } s ∧ Silent s ∧
      s.sent = [echoFrame headOnly 7 1 3] ∧ s.received = [echoFrame headOnly 7 1 4] ∧
      echoFrame headOnly 7 1 4 ≠ echoFrame headOnly 7 1 3) ∧
    ∃ s, Reach (echoStep headOnly true) Any { seed := 7 } s ∧ Silent s ∧
      s.sent = [] ∧ s.received = [echoFrame headOnly 7 1 3] := by
  have htwice : ∃ s, Reach (echoStep headOnly true) Any { seed := 7 } s ∧ Silent s ∧
      s.sent = [echoFrame headOnly 7 1 3] ∧
      s.received = [echoFrame headOnly 7 1 3, echoFrame headOnly 7 1 3] :=
    follows_reached (.late 1 3 (.next 3 .nil) (by decide)) [3]
  refine ⟨fun hclaim => ?_, htwice, ?_, ?_⟩
  · obtain ⟨s, hs, hsilent, hsent, hrecv⟩ := htwice
    have hlen := (hclaim s hs hsilent).length_le
    rw [hsent, hrecv] at hlen
    exact absurd hlen (by decide)
  · obtain ⟨s, hs, hsilent, hsent, hrecv⟩ := follows_reached (.next 4 .nil) [3]
    refine ⟨s, hs, hsilent, hsent, hrecv, fun heq => ?_⟩
    have htime := congrArg sentNsOf heq
    rw [sentNsOf_echoFrame, sentNsOf_echoFrame] at htime
    exact absurd htime (by decide)
  · exact follows_reached (.next 3 .nil) []

end Runs

end BeltServer.Dummy
