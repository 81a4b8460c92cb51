import BeltServer.Follow

/-!
# From the keys to the server

What the page sends of its own accord over its first connection: the JOIN as the first and only
one, then inputs numbered from 1 on and pings. However the relay and the kernel cut its bytes, the
server dispatches a beginning of what was sent, each frame as it was meant.
-/

namespace BeltServer

set_option autoImplicit false

open Runs BeltProto LengthPrefix LittleEndian

/-! ### What the page asks for -/

def BeltProto.Call.seq? : Call → Option Int
  | .input seq _ _ _ _ => some seq
  | _ => none

/-- One step in a direction, and the time of a clock in microseconds. -/
def BeltProto.Call.Modest : Call → Prop
  | .join => True
  | .input _ mx my _ _ => (-1 ≤ mx ∧ mx ≤ 1) ∧ -1 ≤ my ∧ my ≤ 1
  | .ping timeUs => 0 ≤ timeUs ∧ timeUs ≤ 2 ^ 53

def upTo (n : Nat) : List Int := (List.range' 1 n).map Int.ofNat

/-- The JOIN comes first and only once, the inputs count up from 1. -/
structure Orderly (calls : List Call) : Prop where
  joins : ∀ c rest, calls = c :: rest → c = .join ∧ .join ∉ rest
  numbered : ∃ n, calls.filterMap Call.seq? = upTo n
  modest : ∀ c ∈ calls, c.Modest

section Calls
variable {c : Call} {calls : List Call}

theorem BeltProto.Call.Modest.inRange (h : c.Modest) : c.InRange := by
  cases c with
  | join => trivial
  | input seq mx my attack skill =>
    obtain ⟨⟨hxlo, hxhi⟩, hylo, hyhi⟩ := h
    refine ⟨⟨?_, ?_⟩, ?_, ?_⟩ <;> omega
  | ping timeUs =>
    obtain ⟨hlo, hhi⟩ := h
    constructor <;> omega

theorem upTo_succ (n : Nat) : upTo (n + 1) = upTo n ++ [((n + 1 : Nat) : Int)] := by
  rw [upTo, List.range'_1_concat, List.map_append, Nat.add_comm 1 n]
  rfl

theorem Orderly.first {part : List Call} (h : Orderly calls) (hpart : part <+: calls) :
    Orderly part where
  joins := by
    obtain ⟨more, rfl⟩ := hpart
    intro c rest hrest
    obtain ⟨hjoin, hnone⟩ := h.joins c (rest ++ more) (by rw [hrest, List.cons_append])
    exact ⟨hjoin, fun hin => hnone (List.mem_append_left more hin)⟩
  numbered := by
    obtain ⟨n, hn⟩ := h.numbered
    have hprefix := hpart.filterMap Call.seq?
    rw [hn] at hprefix
    have hlen := hprefix.length_le
    rw [upTo, List.length_map, List.length_range'] at hlen
    refine ⟨(part.filterMap Call.seq?).length, ?_⟩
    have htake := List.prefix_iff_eq_take.mp hprefix
    rw [upTo, ← List.map_take, List.take_range'_of_length_ge hlen] at htake
    exact htake
  modest c hc := h.modest c (hpart.subset hc)

theorem Orderly.snoc (h : Orderly calls) (hsome : calls ≠ []) (hc : c.Modest) (hjoin : c ≠ .join)
    (hseq : ∃ n, calls.filterMap Call.seq? ++ [c].filterMap Call.seq? = upTo n) :
    Orderly (calls ++ [c]) where
  joins := by
    obtain ⟨first, rest, rfl⟩ := List.exists_cons_of_ne_nil hsome
    obtain ⟨rfl, hnone⟩ := h.joins first rest rfl
    intro d more hmore
    cases hmore
    refine ⟨rfl, fun hin => ?_⟩
    rcases List.mem_append.mp hin with hold | hnew
    · exact hnone hold
    · exact hjoin (List.mem_singleton.mp hnew).symm
  numbered := by
    rw [List.filterMap_append]
    exact hseq
  modest d hd := by
    rcases List.mem_append.mp hd with hold | hnew
    · exact h.modest d hold
    · rw [List.mem_singleton.mp hnew]
      exact hc

end Calls

/-! ### The tab -/

structure Tab.Sends (t : Tab) : Prop where
  orderly : Orderly t.sent
  before : t.opened = false → t.sent = [] ∧ t.page.timers = 0 ∧ t.seq = 0
  joined : t.opened = true → t.sent ≠ []
  seq : t.closed = false → t.sent.filterMap Call.seq? = upTo t.seq

section Sends
variable {probe : Bool} {clock : Nat → Int} {t t' : Tab}

theorem Tab.sends_start : Tab.Sends {} where
  orderly := ⟨nofun, ⟨0, rfl⟩, nofun⟩
  before _ := ⟨rfl, rfl, rfl⟩
  joined := nofun
  seq _ := rfl

theorem modest_readInput (probe : Bool) (snapCount : Nat) (k : Keys) (seq : Nat) :
    (readInput probe snapCount k seq).Modest := by
  unfold readInput
  split
  · refine ⟨?_, by decide⟩
    split <;> decide
  · constructor
    · cases k.right <;> cases k.left <;> decide
    · cases k.down <;> cases k.up <;> decide

theorem seq_readInput (probe : Bool) (snapCount : Nat) (k : Keys) (seq : Nat) :
    (readInput probe snapCount k seq).seq? = some (seq : Int) := by
  unfold readInput
  split <;> rfl

/-- A timer is only set while the connection has been open. -/
theorem Tab.Sends.opened (h : t.Sends) (htimers : 0 < t.page.timers) : t.opened = true := by
  cases hopen : t.opened with
  | true => rfl
  | false =>
    have hnone := (h.before hopen).2.1
    omega

theorem Tab.Sends.send (h : t.Sends) (htimers : 0 < t.page.timers) (seq : Nat) {c : Call}
    (hc : c.Modest) (hjoin : c ≠ .join) (hseq : upTo t.seq ++ [c].filterMap Call.seq? = upTo seq) :
    Tab.Sends { t with seq, sent := if t.closed then t.sent else t.sent ++ [c] } := by
  have hopen := h.opened htimers
  have hlate : t.opened ≠ false := by simp [hopen]
  by_cases hclosed : t.closed = true
  · rw [if_pos hclosed]
    refine ⟨h.orderly, fun hnot => absurd hnot hlate, fun _ => h.joined hopen, fun hnot => ?_⟩
    dsimp only at hnot
    rw [hclosed] at hnot
    cases hnot
  · have hopened := h.seq (Bool.eq_false_iff.mpr hclosed)
    have hnext : t.sent.filterMap Call.seq? ++ [c].filterMap Call.seq? = upTo seq := by
      rw [hopened, hseq]
    rw [if_neg hclosed]
    refine ⟨h.orderly.snoc (h.joined hopen) hc hjoin ⟨seq, hnext⟩, fun hnot => absurd hnot hlate,
      fun _ => by simp, fun _ => ?_⟩
    rw [List.filterMap_append]
    exact hnext

theorem Tab.Sends.step (h : t.Sends) {a : TabAct} (ht : Tab.step probe clock a t = some t') :
    t'.Sends := by
  cases a with
  | onopen =>
    simp only [Tab.step] at ht
    split at ht
    · cases ht
    · rename_i hnew
      cases ht
      rw [Bool.or_eq_true, not_or, Bool.not_eq_true, Bool.not_eq_true] at hnew
      obtain ⟨hsent, -, hseq⟩ := h.before hnew.1
      rw [hsent]
      refine ⟨⟨?_, ⟨0, rfl⟩, ?_⟩, fun hnot => ?_, fun _ => List.cons_ne_nil _ _, fun _ => ?_⟩
      · intro c rest hrest
        cases hrest
        exact ⟨rfl, List.not_mem_nil⟩
      · intro c hc
        rw [List.mem_singleton.mp hc]
        trivial
      · cases hnot
      · dsimp only
        rw [hseq]
        rfl
  | onmessage data =>
    simp only [Tab.step] at ht
    split at ht
    · rename_i hopen
      simp only [Option.bind_eq_bind, Option.bind_eq_some_iff] at ht
      obtain ⟨re, -, page, -, heq⟩ := ht
      cases heq
      rw [Bool.and_eq_true] at hopen
      refine ⟨h.orderly, fun hclosed => ?_, h.joined, h.seq⟩
      dsimp only at hclosed
      rw [hopen.1] at hclosed
      cases hclosed
    · cases ht
  | input keys =>
    simp only [Tab.step] at ht
    split at ht
    · rename_i htimers
      cases ht
      have hnumber := seq_readInput probe t.page.snapCount keys (t.seq + 1)
      apply h.send htimers (t.seq + 1) (modest_readInput ..)
      · intro heq
        rw [heq] at hnumber
        cases hnumber
      · rw [upTo_succ, List.filterMap_cons_some hnumber, List.filterMap_nil]
    · cases ht
  | ping now =>
    simp only [Tab.step] at ht
    split at ht
    · rename_i htimers
      cases ht
      have hrange := now.property
      apply h.send htimers t.seq
      · constructor <;> omega
      · intro heq
        cases heq
      · exact List.append_nil _
    · cases ht
  | onclose =>
    cases ht
    refine ⟨h.orderly, h.before, h.joined, fun hnot => ?_⟩
    cases hnot

theorem Tab.sends_run {data : List (List UInt8)}
    (h : Traced (Tab.step probe clock) Tab.received {} data t) : t.Sends := by
  apply h.reach.invariant (P := Tab.Sends) Tab.sends_start
  intro s a t _ hs _ ht
  exact hs.step ht

end Sends

/-! ### What the server makes of it -/

def BeltProto.Call.frame (c : Call) : List UInt8 := pack c.fields

theorem mapM_enc (calls : List Call) : calls.mapM enc = some (calls.map Call.frame) := by
  induction calls with
  | nil => rfl
  | cons c calls ih =>
    rw [List.mapM_cons, enc_eq, ih]
    rfl

theorem whole_frames (calls : List Call) : ∀ f ∈ calls.map Call.frame, frameFormat.Whole f := by
  intro f hf
  obtain ⟨c, -, rfl⟩ := List.mem_map.mp hf
  exact whole_fields c

theorem means_frames {calls : List Call} (h : ∀ c ∈ calls, c.Modest) :
    List.Forall₂ Call.Means calls ((calls.map Call.frame).map ClientMsg.decode) := by
  induction calls with
  | nil => exact .nil
  | cons c calls ih =>
    apply List.Forall₂.cons
    · exact decode_fields c (h c List.mem_cons_self).inRange
    · exact ih fun c' hc' => h c' (List.mem_cons_of_mem c hc')

/-- Nothing that the page means makes `Dispatch` disconnect. -/
theorem dispatch_of_means {c : Call} {m : ClientMsg} (h : c.Means m) (st : Server) (idx : Nat)
    (remainUs : UInt32) : st.dispatch idx remainUs m ≠ .disconnect := by
  intro hcut
  cases m with
  | reject =>
    cases c with
    | join => cases h
    | input =>
      obtain ⟨s, x, y, heq, -⟩ := h
      cases heq
    | ping =>
      obtain ⟨u, heq, -⟩ := h
      cases heq
  | echo => cases hcut
  | join =>
    simp only [Server.dispatch] at hcut
    split at hcut
    · cases hcut
    · split at hcut <;> cases hcut
  | input | ping =>
    simp only [Server.dispatch] at hcut
    split at hcut <;> cases hcut

/-- Whatever keys are pressed and however the bytes of the page are cut on their way through the
relay: the server dispatches the frames that have come whole, in order, and each means what was
called for. The first one is the JOIN and there is no other, the inputs count up from 1 in single
steps of direction, and `Dispatch` refuses none of the frames. -/
theorem page_heard {probe : Bool} {clock : Nat → Int} {data : List (List UInt8)} {t : Tab}
    (htab : Traced (Tab.step probe clock) Tab.received {} data t) {frames msgs : List (List UInt8)}
    (hframes : t.sent.mapM enc = some frames) (hmsgs : msgs <+: frames) {r : Relay}
    (hrelay : Traced Relay.step Relay.fromBrowser {} msgs r) {stream : List UInt8}
    (hstream : stream <+: r.toServer.flatten) {ρ : Type} {B : ByteRing ρ} (hB : B.Fifo) {q : ρ}
    (hq : B.content q = []) {s : Reader ρ}
    (hserver : Traced (Reader.step B) (Reader.received B) { ring := q } stream s) :
    Came frames s.frames stream ∧ s.cut ≠ some .header ∧ s.cut ≠ some .overrun ∧
    ∃ calls, calls <+: t.sent ∧ Orderly calls ∧
      List.Forall₂ Call.Means calls (s.frames.map ClientMsg.decode) ∧
      ∀ m ∈ s.frames.map ClientMsg.decode, ∀ (st : Server) (idx : Nat) (remainUs : UInt32),
        st.dispatch idx remainUs m ≠ .disconnect := by
  obtain rfl : t.sent.map Call.frame = frames :=
    Option.some.inj ((mapM_enc t.sent).symm.trans hframes)
  have horderly := (Tab.sends_run htab).orderly
  have hwhole := whole_frames t.sent
  have hpart : stream <+: (t.sent.map Call.frame).flatten := by
    apply hstream.trans
    exact flatten_prefix ((Relay.upward hrelay).1.trans hmsgs) (List.prefix_refl _)
  have hframed := Framed.run hB hq hserver
  have hcame := Format.came hwhole hpart
  have hsplit : (frameFormat.split stream).frames = s.frames := by rw [hframed.split]
  rw [hsplit] at hcame
  obtain ⟨n, hn⟩ : ∃ n, s.frames = (t.sent.take n).map Call.frame := by
    refine ⟨s.frames.length, ?_⟩
    rw [List.map_take]
    exact List.prefix_iff_eq_take.mp hcame.first
  have hcalls := horderly.first (List.take_prefix n t.sent)
  have hmeans := means_frames hcalls.modest
  rw [← hn] at hmeans
  refine ⟨hcame, ?_, hframed.no_overrun, t.sent.take n, List.take_prefix .., hcalls, hmeans, ?_⟩
  · intro hbad
    have hfine := Format.split_fine hwhole hpart
    rw [hframed.bad_iff.mpr hbad] at hfine
    cases hfine
  · intro m hm st idx remainUs
    obtain ⟨k, hk, rfl⟩ := List.getElem_of_mem hm
    have hlen : k < (t.sent.take n).length := by
      rw [hmeans.length_eq]
      exact hk
    exact dispatch_of_means (hmeans.get hlen hk) st idx remainUs

/-- The page joins seat 0, walks to the right and asks for the time. -/
def walking : List TabAct :=
  [.onopen, .onmessage (Msg.joinOk 0 0 0).bytes, .input { right := true },
    .ping ⟨5, by decide, by decide⟩]

def walkingFrames : List (List UInt8) :=
  [[6, 0, 10, 0, 1, 0], [12, 0, 11, 0, 1, 0, 0, 0, 1, 0, 0, 0],
    [12, 0, 12, 0, 136, 19, 0, 0, 0, 0, 0, 0]]

/-- All but the last two bytes come, in two pieces. -/
theorem page_heard_walking : ∃ t : Tab, ∃ s : Reader StRing, ∃ calls,
    run (Tab.step false fun _ => 0) walking {} = some t ∧
    record (Reader.step stRing) (Reader.received stRing) [.wake,
      .read (.bytes (walkingFrames.flatten.take 10)),
      .read (.bytes ((walkingFrames.flatten.take 28).drop 10))] { ring := {} } =
        some (walkingFrames.flatten.take 28, s) ∧
    calls <+: t.sent ∧ Orderly calls ∧
    List.Forall₂ Call.Means calls [.join kProtocolVersion, .input 1 1 0 0 0] := by
  have htab : (run (Tab.step false fun _ => 0) walking {}).map (fun t => t.sent) =
      some [.join, .input 1 1 0 false false, .ping 5000] := by decide +kernel
  obtain ⟨t, ht, hsent⟩ := Option.map_eq_some_iff.mp htab
  have hserver : (record (Reader.step stRing) (Reader.received stRing) [.wake,
      .read (.bytes (walkingFrames.flatten.take 10)),
      .read (.bytes ((walkingFrames.flatten.take 28).drop 10))] { ring := {} }).map
        (fun p => (p.1, p.2.frames.map ClientMsg.decode)) =
      some (walkingFrames.flatten.take 28, [.join kProtocolVersion, .input 1 1 0 0 0]) := by
    decide +kernel
  obtain ⟨⟨stream, s⟩, hrec, hproj⟩ := Option.map_eq_some_iff.mp hserver
  obtain ⟨rfl, hdecoded⟩ := Prod.mk.inj hproj
  have hframes : t.sent.mapM enc = some walkingFrames := by
    rw [hsent]
    decide +kernel
  have hrelay : (record Relay.step Relay.fromBrowser (walkingFrames.map .message) {}).map
      (fun p => (p.1, p.2.toServer)) = some (walkingFrames, walkingFrames) := by decide +kernel
  obtain ⟨⟨msgs, r⟩, hrun, hpieces⟩ := Option.map_eq_some_iff.mp hrelay
  obtain ⟨rfl, hout⟩ := Prod.mk.inj hpieces
  obtain ⟨data, hdata⟩ : ∃ data, Traced (Tab.step false fun _ => 0) Tab.received {} data t :=
    Traced.of_reach (reach_of_run ht)
  obtain ⟨-, -, -, calls, hcalls, horderly, hmeans, -⟩ := page_heard hdata hframes
    (List.prefix_refl _) (traced_of_record hrun) (by rw [hout]; exact List.take_prefix ..)
    stRing_fifo rfl (traced_of_record hrec)
  rw [hdecoded] at hmeans
  exact ⟨t, s, calls, ht, hrec, hcalls, horderly, hmeans⟩

end BeltServer
