import BeltServer.Follow

/-!
# Between two snapshots

Whatever has come in over the first connection and whenever it is drawn: the page draws an actor on
the way between its places in two snapshots of its buffer, 100 ms behind the clock. So what is on
the screen is where the simulation had put the actor, up to the rounding of the wire, and it is on
the stage. The weights are exact.
-/

namespace BeltServer

set_option autoImplicit false

open Runs BeltProto

/-! ### The pair and the weight -/

/-- The snapshots `x` and `y` and the weight that belong to the time `t`: neighbours around `t`, or
the ends of the buffer where `t` is outside of it. -/
inductive Around (t : Int) (snaps : List Snap) : Snap → Snap → ℚ → Prop where
  | between (pre post : List Snap) (x y : Snap) (hsplit : snaps = pre ++ x :: y :: post)
      (hway : x.time < y.time) (hxt : x.time ≤ t) (hty : t ≤ y.time) :
      Around t snaps x y (((t : ℚ) - x.time) / (y.time - x.time))
  | level (pre post : List Snap) (x y : Snap) (hsplit : snaps = pre ++ x :: y :: post)
      (hxt : x.time = t) (hty : y.time = t) : Around t snaps x y 1
  | newest (x y : Snap) (hx : snaps.head? = some x) (hy : snaps.getLast? = some y)
      (hty : y.time ≤ t ∨ y.time ≤ x.time) : Around t snaps x y 1
  | oldest (x y : Snap) (hx : snaps.head? = some x) (hy : snaps.getLast? = some y)
      (hway : x.time < y.time) (htx : t < x.time) : Around t snaps x y 0

section Around
variable {t : Int} {snaps : List Snap} {x y : Snap} {r : ℚ}

theorem ratio_within (hway : x.time < y.time) (hxt : x.time ≤ t) (hty : t ≤ y.time) :
    Page.ratio t x.time y.time = ((t : ℚ) - x.time) / (y.time - x.time) := by
  apply Timeline.weight_within
  · exact_mod_cast hway
  · exact_mod_cast hxt
  · exact_mod_cast hty

theorem ratio_after (h : y.time ≤ t ∨ y.time ≤ x.time) : Page.ratio t x.time y.time = 1 := by
  rcases h with hty | hback
  · apply Timeline.weight_after
    exact_mod_cast hty
  · have hnone : ¬(0 : ℚ) < (y.time : ℚ) - x.time := by
      rw [not_lt, sub_nonpos]
      exact_mod_cast hback
    exact if_neg hnone

theorem ratio_before (hway : x.time < y.time) (htx : t < x.time) :
    Page.ratio t x.time y.time = 0 := by
  apply Timeline.weight_before
  · exact_mod_cast hway
  · exact_mod_cast htx.le

theorem around_bracket (hx : snaps.head? = some x) (hy : snaps.getLast? = some y) :
    Around t snaps (Page.bracket t snaps x y).1 (Page.bracket t snaps x y).2
      (Page.ratio t (Page.bracket t snaps x y).1.time (Page.bracket t snaps x y).2.time) := by
  unfold Page.bracket
  cases hpair : Timeline.around Snap.time t snaps with
  | some p =>
    obtain ⟨a, b⟩ := p
    obtain ⟨pre, post, hsplit, hat, htb⟩ := Timeline.around_some hpair
    dsimp only [Option.getD_some]
    by_cases hway : a.time < b.time
    · rw [ratio_within hway hat htb]
      exact .between pre post a b hsplit hway hat htb
    · rw [ratio_after (.inr (not_lt.mp hway))]
      exact .level pre post a b hsplit (by omega) (by omega)
  | none =>
    dsimp only [Option.getD_none]
    by_cases hafter : y.time ≤ t ∨ y.time ≤ x.time
    · rw [ratio_after hafter]
      exact .newest x y hx hy hafter
    · rw [not_or, not_le, not_le] at hafter
      obtain ⟨hty, hway⟩ := hafter
      -- within the buffer there would be neighbours
      have htx : t < x.time := by
        by_contra hle
        have hlen : 1 < snaps.length := by
          cases snaps with
          | nil => cases hx
          | cons u rest =>
            cases rest with
            | nil =>
              cases hx
              cases hy
              exact absurd hway (lt_irrefl _)
            | cons v rest => exact Nat.lt_add_of_pos_left (Nat.succ_pos _)
        have hsome := Timeline.around_isSome hx hy hlen (not_lt.mp hle) hty.le
        rw [hpair] at hsome
        cases hsome
      rw [ratio_before hway htx]
      exact .oldest x y hx hy hway htx

theorem Around.weight (h : Around t snaps x y r) : 0 ≤ r ∧ r ≤ 1 := by
  cases h with
  | between pre post x y hsplit hway hxt hty =>
    rw [← ratio_within hway hxt hty]
    exact Timeline.weight_mem _ _ _
  | level | newest => exact ⟨zero_le_one, le_refl 1⟩
  | oldest => exact ⟨le_refl 0, zero_le_one⟩

theorem Around.mem (h : Around t snaps x y r) : x ∈ snaps ∧ y ∈ snaps ∧
    (snaps.Pairwise (fun a b => a.serverTick < b.serverTick) → x.serverTick ≤ y.serverTick) := by
  have hinner (pre post : List Snap) (hsplit : snaps = pre ++ x :: y :: post) : x ∈ snaps ∧
      y ∈ snaps ∧
      (snaps.Pairwise (fun a b => a.serverTick < b.serverTick) → x.serverTick ≤ y.serverTick) := by
    subst hsplit
    refine ⟨by simp, by simp, fun hsorted => ?_⟩
    have htail := (List.pairwise_append.mp hsorted).2.1
    exact (List.rel_of_pairwise_cons htail List.mem_cons_self).le
  have houter (hx : snaps.head? = some x) (hy : snaps.getLast? = some y) : x ∈ snaps ∧ y ∈ snaps ∧
      (snaps.Pairwise (fun a b => a.serverTick < b.serverTick) → x.serverTick ≤ y.serverTick) := by
    refine ⟨List.mem_of_mem_head? hx, List.mem_of_mem_getLast? hy, fun hsorted => ?_⟩
    cases snaps with
    | nil => cases hx
    | cons u rest =>
      cases hx
      rcases List.mem_cons.mp (List.mem_of_mem_getLast? hy) with rfl | hmem
      · exact le_refl _
      · exact (List.rel_of_pairwise_cons hsorted hmem).le
  cases h with
  | between pre post _ _ hsplit | level pre post _ _ hsplit => exact hinner pre post hsplit
  | newest _ _ hx hy | oldest _ _ hx hy => exact houter hx hy

end Around

/-- `sampleActors` blends the two snapshots that belong to its time. -/
theorem Page.sampleActors_eq {p : Page} {now : Int} {actors : List BeltProto.Actor}
    (h : p.sampleActors now = some actors) : ∃ a b r, Around (now - interpMs) p.snaps a b r ∧
      actors = List.zipWith (Page.blend r) a.actors b.actors := by
  unfold Page.sampleActors at h
  cases hx : p.snaps.head? with
  | none =>
    rw [hx] at h
    cases h
  | some x =>
    cases hy : p.snaps.getLast? with
    | none =>
      rw [hx, hy] at h
      cases h
    | some y =>
      rw [hx, hy] at h
      cases h
      exact ⟨_, _, _, around_bracket hx hy, rfl⟩

/-! ### The snapshots of a run -/

namespace System

variable {s t : System} {a : Act} {idx : Nat} {m : Msg}

/-- Room `r` was `R` after one of its ticks on the way from `s₀` to `s`. -/
def Ticked (s₀ s : System) (r : Nat) (R : Room) : Prop :=
  ∃ u v g k, Reach System.step Any s₀ u ∧ (u.srv.myRooms g)[k]? = some r ∧
    System.step (.tick g k) u = some v ∧ Reach System.step Any v s ∧ R = v.srv.rooms r

theorem Says.of_tick (hm : s.Says a idx m) {r : Nat} {snap : Snapshot}
    (heq : m = .snapshot r snap) (ht : System.step a s = some t) :
    ∃ g k, a = .tick g k ∧ (s.srv.myRooms g)[k]? = some r ∧ snap = (t.srv.rooms r).snapshot := by
  cases hm with
  | reply w _ f remainUs _ _ hd => exact absurd heq (dispatch_no_snapshot hd r snap)
  | joined | refused | event => cases heq
  | snapshot g k r' i _ hr =>
    obtain ⟨rfl, rfl⟩ := Msg.snapshot.inj heq
    refine ⟨g, k, rfl, hr, ?_⟩
    rw [room_of_tick hr ht]

/-- A snapshot in a send ring was taken when its room ticked. -/
theorem shot_run {s₀ : System} (hinit : ∀ idx, (s₀.srv.sess idx).sendQ.log = [])
    (hcons : ∀ s, Reach System.step Any s₀ s → Consistent s.ledger)
    (h : Reach System.step Any s₀ s) {r : Nat} {snap : Snapshot}
    (hmem : .snapshot r snap ∈ (s.srv.sess idx).sendQ.log) :
    ∃ R, Ticked s₀ s r R ∧ snap = R.snapshot := by
  induction h with
  | refl =>
    rw [hinit] at hmem
    cases hmem
  | @tail s t a hreach _ ht ih =>
    have hold (hin : .snapshot r snap ∈ (s.srv.sess idx).sendQ.log) :
        ∃ R, Ticked s₀ t r R ∧ snap = R.snapshot := by
      obtain ⟨R, ⟨u, v, g, k, hu, hr, huv, hvs, hroom⟩, hsnap⟩ := ih hin
      exact ⟨R, ⟨u, v, g, k, hu, hr, huv, hvs.tail trivial ht, hroom⟩, hsnap⟩
    rcases log_step (hcons s hreach) ht idx with ⟨hnew, -⟩ | ⟨-, hsame⟩ | ⟨m, hm, -, hlog⟩
    · rw [hnew] at hmem
      cases hmem
    · rw [hsame] at hmem
      exact hold hmem
    · rw [hlog] at hmem
      rcases List.mem_append.mp hmem with hin | hlast
      · exact hold hin
      · obtain ⟨g, k, rfl, hr, hsnap⟩ := hm.of_tick (List.mem_singleton.mp hlast).symm ht
        exact ⟨_, ⟨s, t, g, k, hreach, hr, ht, .refl, rfl⟩, hsnap⟩

theorem Ticked.onStage {s₀ : System} {r : Nat} {R : Room} (h : Ticked s₀ s r R) (j : Slot) :
    OnStage (R.world.actors j) := by
  obtain ⟨u, v, g, k, -, hr, huv, -, rfl⟩ := h
  rw [room_of_tick hr huv]
  exact Room.step_onStage _ j

end System

/-! ### The actors -/

/-- The drawn actor `d` of slot `j`, on the way from a world to a later one. -/
structure Pictured (W W' : SimWorld) (r : ℚ) (j : Slot) (d : BeltProto.Actor) : Prop where
  present : (W'.actors j).present = true
  id : d.id = j.val
  state : d.state = (W'.actors j).state.toNat
  onStage : (20 ≤ d.x ∧ d.x ≤ 1580) ∧ 0 ≤ d.y ∧ d.y ≤ 165
  /-- Without an earlier place it stands at the later one. -/
  near : ∃ v : SimActor, (v = W.actors j ∨ v = W'.actors j) ∧
    ((W.actors j).present = true → (W.actors j).state ≠ 255 → v = W.actors j) ∧
    |d.x - Timeline.lerp r v.x (W'.actors j).x| ≤ 1 / 64 ∧
    |d.y - Timeline.lerp r v.y (W'.actors j).y| ≤ 1 / 64

section Records
variable {R R' : Room} {r : ℚ} {j : Slot}

theorem snapActor_absent {a : SimActor} (h : a.present = false) (i : Slot) :
    (Room.snapActor a i).state = 255 := by
  simp [Room.snapActor, h]

theorem OnStage.decoded {a : SimActor} (h : OnStage a) (hpresent : a.present = true) (i : Slot) :
    (20 ≤ (Room.snapActor a i).decoded.x ∧ (Room.snapActor a i).decoded.x ≤ 1580) ∧
      0 ≤ (Room.snapActor a i).decoded.y ∧ (Room.snapActor a i).decoded.y ≤ 165 := by
  have hrecord : Room.snapActor a i =
      { id := UInt8.ofNat i.val, kind := a.kind, state := a.state, face := a.face
        qx := quantPos a.x, qy := quantPos a.y, hp := a.hp } := if_pos hpresent
  have hbetween {lo v hi : ℚ} {l u : Nat} (hlo : (quantPos lo).toNat = l)
      (hhi : (quantPos hi).toNat = u) (hlv : lo ≤ v) (hvu : v ≤ hi)
      (hfits : hi * 32 + 1 / 2 < 65536) :
      (l : ℚ) / 32 ≤ ((quantPos v).toNat : ℚ) / 32 ∧ ((quantPos v).toNat : ℚ) / 32 ≤ u / 32 := by
    have hlow := UInt16.le_iff_toNat_le.mp (quantPos_mono hlv (by linarith))
    have hhigh := UInt16.le_iff_toNat_le.mp (quantPos_mono hvu hfits)
    rw [hlo] at hlow
    rw [hhi] at hhigh
    constructor
    · gcongr
    · gcongr
  have hleft := h.left
  have hright := h.right
  have hback := h.back
  have hfront := h.front
  unfold WORLD_W at hright
  unfold DEPTH_MIN at hback
  unfold DEPTH_MAX at hfront
  have hx := hbetween (l := 640) (u := 50560) (by decide +kernel) (by decide +kernel) hleft hright
    (by norm_num)
  have hy := hbetween (l := 0) (u := 5280) (by decide +kernel) (by decide +kernel) hback hfront
    (by norm_num)
  rw [hrecord]
  unfold SnapActor.decoded
  norm_num at hx hy ⊢
  exact ⟨hx, hy⟩

theorem shown_of_state {a : SimActor} {i : Slot} (h : (Room.snapActor a i).state ≠ 255) :
    a.present = true := by
  by_contra habsent
  exact h (snapActor_absent (Bool.eq_false_iff.mpr habsent) i)

theorem decoded_state (a : SnapActor) : a.decoded.state = 255 ↔ a.state = 255 := by
  constructor
  · intro h
    exact UInt8.toNat_inj.mp h
  · intro h
    exact congrArg UInt8.toNat h

/-- What `sampleActors` makes of the records of an actor. -/
theorem pictured (hR : ∀ j, OnStage (R.world.actors j)) (hR' : ∀ j, OnStage (R'.world.actors j))
    (hr : 0 ≤ r ∧ r ≤ 1) (hstate : (R'.snapshot.actors j).state ≠ 255) :
    Pictured R.world R'.world r j
      (Page.blend r (R.snapshot.actors j).decoded (R'.snapshot.actors j).decoded) := by
  have hpresent : (R'.world.actors j).present = true := shown_of_state hstate
  have hstage := (hR' j).decoded hpresent j
  have hnear := (hR' j).near hpresent j
  have hrecord : R'.snapshot.actors j =
      { id := UInt8.ofNat j.val, kind := (R'.world.actors j).kind
        state := (R'.world.actors j).state, face := (R'.world.actors j).face
        qx := quantPos (R'.world.actors j).x, qy := quantPos (R'.world.actors j).y
        hp := (R'.world.actors j).hp } := if_pos hpresent
  have hid : (R'.snapshot.actors j).decoded.id = j.val := by
    rw [hrecord]
    have hj := j.isLt
    exact UInt8.toNat_ofNat_of_lt' (Nat.lt_trans hj (by decide))
  have hkept : (R'.snapshot.actors j).decoded.state = (R'.world.actors j).state.toNat := by
    rw [hrecord]
    rfl
  unfold Page.blend
  split
  · rename_i hhidden
    rw [decoded_state, decoded_state] at hhidden
    refine ⟨hpresent, hid, hkept, hstage, R'.world.actors j, .inr rfl, fun hp hs => ?_, ?_, ?_⟩
    · -- an actor that is there is shown in its state
      rcases hhidden with holder | hnewer
      · have hshown : (R.snapshot.actors j).state = (R.world.actors j).state :=
          congrArg SnapActor.state (if_pos hp)
        exact absurd (hshown.symm.trans holder) hs
      · exact absurd hnewer hstate
    · have hstill : Timeline.lerp r (R'.world.actors j).x (R'.world.actors j).x =
          (R'.world.actors j).x := by simp [Timeline.lerp]
      rw [hstill]
      exact hnear.x
    · have hstill : Timeline.lerp r (R'.world.actors j).y (R'.world.actors j).y =
          (R'.world.actors j).y := by simp [Timeline.lerp]
      rw [hstill]
      exact hnear.y
  · rename_i hboth
    rw [not_or, decoded_state, decoded_state] at hboth
    have hearlier : (R.world.actors j).present = true := shown_of_state hboth.1
    have hfrom := (hR j).decoded hearlier j
    have hnearly := (hR j).near hearlier j
    exact ⟨hpresent, hid, hkept,
      ⟨Timeline.lerp_mem hr hfrom.1 hstage.1, Timeline.lerp_mem hr hfrom.2 hstage.2⟩,
      R.world.actors j, .inl rfl, fun _ _ => rfl, Timeline.lerp_near hr hnearly.x hnear.x,
      Timeline.lerp_near hr hnearly.y hnear.y⟩

end Records

theorem buffered_ticked {sessionCapacity roomCapacity workerCount : Nat} {s : System}
    (h : Reach System.step Any (System.init sessionCapacity roomCapacity workerCount) s) {idx : Nat}
    {told : List Msg} (htold : told <+: (s.srv.sess idx).sendQ.log) {clock : Nat → Int} {x : Snap}
    (hx : x ∈ buffered clock told) : ∃ room R,
      System.Ticked (System.init sessionCapacity roomCapacity workerCount) s room R ∧
      x.serverTick = R.world.tick.toNat ∧
      x.actors = ((List.finRange 14).map fun j => (R.snapshot.actors j).decoded) ∧
      (JoinOkFirst (s.srv.sess idx).sendQ.log → RoomKnown (s.srv.sess idx).sendQ.log →
        toldRoom told = some room) := by
  obtain ⟨n, room, snap, hmem, rfl⟩ := mem_buffered hx
  obtain ⟨xs, ys, hsplit, hys, -⟩ := sinceMove_suffix told
  have hlogged : Msg.snapshot room snap ∈ (s.srv.sess idx).sendQ.log := by
    apply htold.subset
    rw [hsplit, ← hys]
    exact List.mem_append_right xs (List.mem_map_of_mem hmem)
  obtain ⟨R, hR, rfl⟩ := System.shot_run (fun _ => rfl) (fun _ => System.consistent) h hlogged
  exact ⟨room, R, hR, rfl, rfl, fun hfirst hknown => buffered_room htold hfirst hknown hmem⟩

/-- Whatever has come in and whenever it is drawn, the page draws two snapshots of its buffer on
the way from the earlier one to the later one. They are what a room was after two of its ticks, the
room on display where that is known; every actor that is drawn stands on the stage, within 1/64 px
of the way between the two places that the simulation had put it. -/
theorem page_draws {sessionCapacity roomCapacity workerCount : Nat} {es : List ClockEvent}
    {s : System} (h : Traced System.clocked System.clockEvents
      (System.init sessionCapacity roomCapacity workerCount) es s) (idx : Nat)
    {pieces : List (List UInt8)} {r : Relay}
    (hrelay : Traced Relay.step Relay.fromServer {} pieces r)
    (hpieces : pieces.flatten <+: ((s.srv.sess idx).sendQ.log.map Msg.bytes).flatten)
    {probe : Bool} {clock : Nat → Int} {data : List (List UInt8)} {t : Tab}
    (htab : Traced (Tab.step probe clock) Tab.received {} data t) (hdata : data <+: r.toBrowser)
    {now : Int} {actors : List BeltProto.Actor} (hdraw : t.page.sampleActors now = some actors) :
    ∃ a b weight, Around (now - interpMs) t.page.snaps a b weight ∧ a.serverTick ≤ b.serverTick ∧
    ∃ room room' R R',
      System.Ticked (System.init sessionCapacity roomCapacity workerCount) s room R ∧
      System.Ticked (System.init sessionCapacity roomCapacity workerCount) s room' R' ∧
      a.serverTick = R.world.tick.toNat ∧ b.serverTick = R'.world.tick.toNat ∧
      (JoinOkFirst (s.srv.sess idx).sendQ.log → RoomKnown (s.srv.sess idx).sendQ.log →
        room = room' ∧ t.page.roomId = (room % 2 ^ 32 : Nat)) ∧
      actors.length = 14 ∧ ∀ j : Slot, ∃ d, actors[j.val]? = some d ∧
        (d.state = 255 ∨ Pictured R.world R'.world weight j d) := by
  have hreach := reach_of_clocked h
  have hlog := System.proper_run hreach idx
  obtain ⟨-, -, hclock⟩ := ClockOk.run h
  have hstream : data.flatten <+: ((s.srv.sess idx).sendQ.log.map Msg.bytes).flatten :=
    flatten_prefix (hdata.trans (Relay.downward hrelay).1) hpieces
  have hshows := (hears_run htab hlog hstream).shows
  have htold : whole (s.srv.sess idx).sendQ.log data.flatten <+: (s.srv.sess idx).sendQ.log :=
    List.take_prefix ..
  have hbuffers := hshows.buffers htold (hclock.ticking idx)
  obtain ⟨a, b, weight, haround, rfl⟩ := Page.sampleActors_eq hdraw
  obtain ⟨ha, hb, hticks⟩ := haround.mem
  rw [hshows.snaps] at ha hb
  obtain ⟨room, R, hR, hatick, haactors, haroom⟩ := buffered_ticked hreach htold ha
  obtain ⟨room', R', hR', hbtick, hbactors, hbroom⟩ := buffered_ticked hreach htold hb
  refine ⟨a, b, weight, haround, hticks hbuffers.increasing, room, room', R, R', hR, hR', hatick,
    hbtick, fun hfirst hknown => ?_, ?_, fun j => ?_⟩
  · have hroom := haroom hfirst hknown
    have hsame := hroom.symm.trans (hbroom hfirst hknown)
    refine ⟨Option.some.inj hsame, ?_⟩
    rw [hshows.room, hroom]
    rfl
  · rw [haactors, hbactors, List.length_zipWith, List.length_map, List.length_map,
      List.length_finRange, Nat.min_self]
  · refine ⟨Page.blend weight (R.snapshot.actors j).decoded (R'.snapshot.actors j).decoded, ?_, ?_⟩
    · rw [haactors, hbactors, List.zipWith_map, List.getElem?_zipWith]
      simp
    · by_cases hhidden : (R'.snapshot.actors j).state = 255
      · left
        unfold Page.blend
        rw [if_pos (.inr ((decoded_state _).mpr hhidden))]
        exact (decoded_state _).mpr hhidden
      · right
        exact pictured hR.onStage hR'.onStage haround.weight hhidden

theorem Page.sampleActors_congr {p q : Page} (h : p.snaps = q.snaps) (now : Int) :
    p.sampleActors now = q.sampleActors now := by
  unfold Page.sampleActors
  rw [h]

/-- Half way between the two snapshots of `twoShots`, the player is drawn. -/
theorem page_draws_twoShots : ∃ es s, ∃ t : Tab, ∃ actors weight d, ∃ R R' : Room,
    record System.clocked System.clockEvents twoShots (System.init 1 1 1) = some (es, s) ∧
    t.page.sampleActors 175 = some actors ∧ actors.head? = some d ∧
    R.world.tick.toNat ≤ R'.world.tick.toNat ∧
    Pictured R.world R'.world weight ⟨0, by decide⟩ d := by
  have hrun : (record System.clocked System.clockEvents twoShots (System.init 1 1 1)).map
      (fun p => (Page.sampleActors
        { snaps := buffered (fun n => 50 * n) (p.2.srv.sess 0).sendQ.log } 175).map fun actors =>
          (actors.take 1).map fun d => d.state) = some (some [1]) := by
    decide +kernel
  obtain ⟨⟨es, s⟩, hrec, hdrawn⟩ := Option.map_eq_some_iff.mp hrun
  obtain ⟨actors, hactors, hstate⟩ := Option.map_eq_some_iff.mp hdrawn
  have hlog := System.proper_run (reach_of_clocked (traced_of_record hrec)) 0
  obtain ⟨bs, hbs⟩ : ∃ bs, bs = ((s.srv.sess 0).sendQ.log.map Msg.bytes).flatten := ⟨_, rfl⟩
  have hps : [bs].flatten <+: ((s.srv.sess 0).sendQ.log.map Msg.bytes).flatten := by
    rw [← hbs, List.flatten_singleton]
  obtain ⟨r, hrelay, hout, -⟩ := relay_passes [bs]
  obtain ⟨t, htab, -⟩ := tab_takes false (fun n => 50 * n) hlog hps
  have hears := hears_run htab hlog hps
  have hall : whole (s.srv.sess 0).sendQ.log [bs].flatten = (s.srv.sess 0).sendQ.log := by
    have hcame := whole_came hlog hps
    rw [List.flatten_singleton, hbs] at hcame ⊢
    exact told_all (List.take_prefix ..) hcame
  have hsnaps := hears.shows.snaps
  rw [hall] at hsnaps
  have hdraw : t.page.sampleActors 175 = some actors :=
    (Page.sampleActors_congr hsnaps 175).trans hactors
  obtain ⟨a, b, weight, -, hticks, room, room', R, R', -, -, ha, hb, -, -, hslots⟩ :=
    page_draws (traced_of_record hrec) 0 hrelay hps htab (by rw [hout]) hdraw
  obtain ⟨d, hd, hpictured⟩ := hslots ⟨0, by decide⟩
  have hhead : actors.head? = some d := List.head?_eq_getElem?.trans hd
  refine ⟨es, s, t, actors, weight, d, R, R', hrec, hdraw, hhead, ha ▸ hb ▸ hticks, ?_⟩
  rcases hpictured with hhidden | hpictured
  · cases actors with
    | nil => cases hhead
    | cons c rest =>
      cases hhead
      rw [List.take_succ_cons, List.map_cons, hhidden] at hstate
      cases hstate
  · exact hpictured

end BeltServer
