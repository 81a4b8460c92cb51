import BeltServer.Held
import Mathlib.Tactic.Linarith
import Mathlib.Tactic.NormNum
import Mathlib.Tactic.Ring

/-!
# How fast a player walks

The movement loop multiplies the axes of an input by the speed, and no stage on the way from
the frame to the loop looks at their range. So the speed is kept in every run in which the
clients keep to the range that the protocol names, and one frame is enough to break it.
-/

namespace BeltServer

set_option autoImplicit false

open Runs

/-- The range of the axes in the protocol: -1, 0 or 1. -/
structure InputCmd.InRange (c : InputCmd) : Prop where
  mx : c.mx.toInt.natAbs ≤ 1
  my : c.my.toInt.natAbs ≤ 1

theorem InputCmd.InRange.still {c : InputCmd} (hx : c.mx = 0) (hy : c.my = 0) : c.InRange := by
  constructor
  · rw [hx]
    decide
  · rw [hy]
    decide

/-- From one position of a player to the next one at the speed of the design. -/
structure WithinSpeed (p p' : SimActor) : Prop where
  x : |p'.x - p.x| ≤ P_SPEED_X * TICK_DT
  y : |p'.y - p.y| ≤ P_SPEED_Y * TICK_DT
  both : p'.x ≠ p.x → p'.y ≠ p.y →
    |p'.x - p.x| ≤ P_SPEED_X * TICK_DT * diagonal ∧ |p'.y - p.y| ≤ P_SPEED_Y * TICK_DT * diagonal

/-! ### One player -/

section Move

theorem WithinSpeed.stays {p p' : SimActor} (hx : p'.x = p.x) (hy : p'.y = p.y) :
    WithinSpeed p p' := by
  refine ⟨?_, ?_, fun hmoved => absurd hx hmoved⟩
  · rw [hx, sub_self, abs_zero]
    norm_num [P_SPEED_X, TICK_DT]
  · rw [hy, sub_self, abs_zero]
    norm_num [P_SPEED_Y, TICK_DT]

/-- One axis: the step is the speed times at most one. -/
theorem axis_le {n : ℤ} (h : n.natAbs ≤ 1) {v k : ℚ} (hv : 0 ≤ v) (hk : 0 ≤ k) (q : ℚ) :
    |q + n * v * TICK_DT * k - q| ≤ v * TICK_DT * k := by
  have hn : |(n : ℚ)| ≤ 1 := by
    have hz : |n| ≤ 1 := by
      rw [Int.abs_eq_natAbs]
      exact_mod_cast h
    exact_mod_cast hz
  have hpos : 0 ≤ v * TICK_DT * k := by
    apply mul_nonneg (mul_nonneg hv ?_) hk
    norm_num [TICK_DT]
  have hstep : q + n * v * TICK_DT * k - q = n * (v * TICK_DT * k) := by ring
  rw [hstep, abs_mul, abs_of_nonneg hpos]
  exact mul_le_of_le_one_left hpos hn

/-- The movement of one player whose input is in range. -/
theorem movePlayer_withinSpeed (p : SimActor) {input : SimInput} (hx : input.mx.natAbs ≤ 1)
    (hy : input.my.natAbs ≤ 1) : WithinSpeed p (movePlayer p input) := by
  have hvx : (0 : ℚ) ≤ P_SPEED_X := by norm_num [P_SPEED_X]
  have hvy : (0 : ℚ) ≤ P_SPEED_Y := by norm_num [P_SPEED_Y]
  have hdiag : (0 : ℚ) ≤ diagonal := by norm_num [diagonal]
  have hle : diagonal ≤ 1 := by norm_num [diagonal]
  unfold movePlayer
  split
  · exact .stays rfl rfl
  · split
    · by_cases hboth : input.mx ≠ 0 ∧ input.my ≠ 0
      · simp only [if_pos hboth]
        have hdx := axis_le hx hvx hdiag p.x
        have hdy := axis_le hy hvy hdiag p.y
        refine ⟨hdx.trans ?_, hdy.trans ?_, fun _ _ => ⟨hdx, hdy⟩⟩
        · apply mul_le_of_le_one_right ?_ hle
          norm_num [P_SPEED_X, TICK_DT]
        · apply mul_le_of_le_one_right ?_ hle
          norm_num [P_SPEED_Y, TICK_DT]
      · simp only [if_neg hboth]
        have hdx := (axis_le hx hvx zero_le_one p.x).trans_eq (mul_one _)
        have hdy := (axis_le hy hvy zero_le_one p.y).trans_eq (mul_one _)
        refine ⟨hdx, hdy, fun hmx hmy => ?_⟩
        -- one of the axes is zero, and its coordinate stays
        have hzero : input.mx = 0 ∨ input.my = 0 := by omega
        rcases hzero with hzero | hzero
        · exact absurd (by simp [hzero]) hmx
        · exact absurd (by simp [hzero]) hmy
    · exact .stays rfl rfl

end Move

/-! ### Rooms -/

/-- Every input that the member has, or once had in its ring, is in range. -/
structure Member.InRange (m : Member) : Prop where
  ring : ∀ k, (m.ring k).InRange
  held : m.held.InRange

namespace Member

theorem InRange.fresh (idx owner : Nat) (gen : UInt32) : InRange
    { used := true, sessIdx := idx, sessGen := gen, sessOwner := owner } :=
  ⟨fun _ => .still rfl rfl, .still rfl rfl⟩

theorem InRange.none : InRange {} := ⟨fun _ => .still rfl rfl, .still rfl rfl⟩

theorem InRange.store {m : Member} (h : m.InRange) {c : InputCmd} (hc : c.InRange) :
    (m.store c).InRange := by
  refine ⟨fun k => ?_, h.held⟩
  unfold Member.store
  dsimp only
  rcases eq_or_ne k (Fin.ofNat 8 (m.ringHead + m.ringCount)) with rfl | hk
  · rw [Function.update_self]
    exact hc
  · rw [Function.update_of_ne hk]
    exact h.ring k

theorem InRange.push {m : Member} (h : m.InRange) {c : InputCmd} (hc : c.InRange) :
    (m.push c).1.InRange := by
  unfold Member.push
  split
  · have hdropped : m.dropOldest.InRange := ⟨h.ring, h.held⟩
    exact hdropped.store hc
  · exact h.store hc

theorem InRange.pushAll {m : Member} (h : m.InRange) {cs : List InputCmd}
    (hcs : ∀ c ∈ cs, c.InRange) : (m.pushAll cs).InRange := by
  induction cs generalizing m with
  | nil => exact h
  | cons c cs ih =>
    apply ih (h.push (hcs c (List.mem_cons_self ..)))
    intro c' hc'
    exact hcs c' (List.mem_cons_of_mem _ hc')

theorem InRange.consume {m : Member} (h : m.InRange) : m.consume.1.InRange := by
  unfold Member.consume
  split
  · exact ⟨h.ring, h.ring _⟩
  · split
    · exact ⟨h.ring, .still rfl rfl⟩
    · exact ⟨h.ring, h.held⟩

end Member

structure Stage.InRange (S : Stage) : Prop where
  inQ : ∀ c ∈ S.inQ, c.InRange
  members : ∀ i, (S.members i).InRange

namespace Stage

theorem InRange.update {S S' : Stage} (h : S.InRange) {i : Seat} {m : Member} (hm : m.InRange)
    (hinQ : S'.inQ = S.inQ) (hmembers : S'.members = Function.update S.members i m) :
    S'.InRange := by
  refine ⟨hinQ ▸ h.inQ, fun j => ?_⟩
  rw [hmembers]
  rcases eq_or_ne j i with rfl | hj
  · rw [Function.update_self]
    exact hm
  · rw [Function.update_of_ne hj]
    exact h.members j

theorem InRange.set {stages : Nat → Stage} (h : ∀ r, (stages r).InRange) {r : Nat} {S : Stage}
    (hS : S.InRange) (r' : Nat) : (Function.update stages r S r').InRange := by
  rcases eq_or_ne r' r with rfl | hr
  · rw [Function.update_self]
    exact hS
  · rw [Function.update_of_ne hr]
    exact h r'

theorem InRange.cleared : Stage.InRange ⟨fun _ => {}, [], resetWorld⟩ := by
  refine ⟨fun c hc => ?_, fun _ => Member.InRange.none⟩
  cases hc

end Stage

namespace Room

def moved (R : Room) : Slot → SimActor :=
  movePlayers R.routeInputs.1.consumeAll.world.actors R.routeInputs.1.consumeAll.simInputs

theorem step_inRange {R : Room} (h : R.stage.InRange) (i : Seat) : (R.step.members i).InRange := by
  rw [step_members]
  split
  · apply Member.InRange.consume
    apply (h.members i).pushAll
    intro c hc
    exact h.inQ c (List.mem_filter.mp hc).1
  · exact h.members i

/-- A room whose inputs are in range moves nobody too fast. -/
theorem moved_withinSpeed {R : Room} (h : R.stage.InRange) (i : Seat) :
    WithinSpeed (R.world.actors (slotOf i)) (R.moved (slotOf i)) := by
  have hheld := (step_inRange h i).held
  have hinput : (R.routeInputs.1.consumeAll.simInputs i).mx.natAbs ≤ 1 ∧
      (R.routeInputs.1.consumeAll.simInputs i).my.natAbs ≤ 1 := by
    unfold simInputs
    split
    · exact ⟨hheld.mx, hheld.my⟩
    · exact ⟨Nat.zero_le 1, Nat.zero_le 1⟩
  have hworld : R.routeInputs.1.consumeAll.world = R.world := by
    obtain ⟨ms, hms⟩ := routeAll_eq { R with inQ := [] } R.inQ 0
    have hrouted : R.routeInputs.1 = { R with inQ := [], members := ms } := hms
    rw [hrouted]
    rfl
  have hmoved : R.moved (slotOf i) = movePlayer (R.world.actors (slotOf i))
      (R.routeInputs.1.consumeAll.simInputs i) := by
    unfold moved movePlayers
    rw [hworld]
    exact dif_pos i.isLt
  rw [hmoved]
  exact movePlayer_withinSpeed _ hinput.1 hinput.2

end Room

/-! ### Runs -/

/-- The axes of an input that is accepted in this step are in range. -/
def Walking : Act → System → Prop
  | .frame _ idx f remainUs, s =>
    ∀ r c, s.srv.dispatch idx remainUs (.decode f) = .input r c → c.InRange
  | _, _ => True

def walks : Act → System → Bool
  | .frame _ idx f remainUs, s =>
    match s.srv.dispatch idx remainUs (.decode f) with
    | .input _ c => decide (c.mx.toInt.natAbs ≤ 1) && decide (c.my.toInt.natAbs ≤ 1)
    | _ => true
  | _, _ => true

theorem walks_sound (a : Act) (s : System) (h : walks a s = true) : Walking a s := by
  cases a with
  | frame w idx f remainUs =>
    intro r c hd
    simp only [walks, hd, Bool.and_eq_true, decide_eq_true_eq] at h
    exact ⟨h.1, h.2⟩
  | _ => trivial

namespace System

structure InRange (s : System) : Prop where
  stage : ∀ r, (s.srv.stage r).InRange
  net : ∀ w idx r c, s.net w = .inputPush idx r c → c.InRange

section Step
variable {s t : System}

/-- What happens on the stages brings in no input but the one that is pushed. -/
theorem InRange.perform (h : s.InRange) (hs : Consistent s.ledger) {a : Act} {c : Cue}
    (hc : s.cue a = some c) (r' : Nat) : ((s.srv.perform (some c)).stage r').InRange := by
  cases cued_of_cue hc with
  | send w idx r c hw =>
    rw [Server.perform_send]
    apply Stage.InRange.set h.stage
    refine ⟨fun c' hc' => ?_, (h.stage r).members⟩
    rcases List.mem_append.mp hc' with hold | hnew
    · exact (h.stage r).inQ c' hold
    · rw [List.mem_singleton.mp hnew]
      exact h.net w idx r c hw
  | seat g k r e js ls hg hlive =>
    rw [Server.perform_seat]
    apply Stage.InRange.set h.stage
    exact (h.stage r).update (Member.InRange.fresh e.sessIdx (s.srv.sess e.sessIdx).owner e.sessGen)
      rfl rfl
  | unseat g k r i e ls hg hi =>
    rw [Server.perform_unseat]
    apply Stage.InRange.set h.stage
    exact (h.stage r).update (m := { (s.srv.rooms r).members i with used := false })
      ⟨((h.stage r).members i).ring, ((h.stage r).members i).held⟩ rfl rfl
  | clearNew w idx r hlock hr =>
    rw [Server.perform_clear]
    exact Stage.InRange.set h.stage .cleared r'
  | clearNext g k old nr hg hr =>
    rw [Server.perform_clear]
    exact Stage.InRange.set h.stage .cleared r'
  | tick g k r hr =>
    rw [Server.perform_tick]
    apply Stage.InRange.set h.stage
    refine ⟨fun c hc => ?_, fun i => Room.step_inRange (h.stage r) i⟩
    have hnone : c ∈ (s.srv.rooms r).step.inQ := hc
    rw [Room.step_inQ] at hnone
    cases hnone
  | move g k old nr i rest moved joins leaves hlock =>
    have htransfer : s.lock.transfer = some (g, k, old, nr) := by
      rw [hlock]
      rfl
    have hne : old ≠ nr := hs.places.transfer_ne htransfer
    have hmember := (h.stage old).members i
    cases hu : ((s.srv.stage old).members i).used with
    | false =>
      rw [Server.perform_move_unused s.srv hu]
      exact h.stage r'
    | true =>
      rw [Server.perform_move s.srv (Ne.symm hne) hu]
      apply Stage.InRange.set
      · exact Stage.InRange.set h.stage ((h.stage nr).update hmember rfl rfl)
      · exact (h.stage old).update (m := { (s.srv.stage old).members i with used := false })
          ⟨hmember.ring, hmember.held⟩ rfl rfl
  | resume g k old nr moved joins leaves hlock =>
    rw [Server.perform_resume]
    apply Stage.InRange.set h.stage
    exact ⟨(h.stage nr).inQ, (h.stage nr).members⟩

theorem InRange.step (h : s.InRange) (hs : Consistent s.ledger) {a : Act} (hok : Walking a s)
    (ht : step a s = some t) :
    t.InRange where
  stage r := by
    rw [stage_step ht]
    cases hc : s.cue a with
    | none => exact h.stage r
    | some c => exact h.perform hs hc r
  net w idx r c hw := by
    rcases inputPush_of_step ht hw with hold | ⟨f, remainUs, hf, hd⟩
    · exact h.net w idx r c hold
    · subst hf
      exact hok r c hd

end Step

theorem InRange.init (sessionCapacity roomCapacity workerCount : Nat) :
    (init sessionCapacity roomCapacity workerCount).InRange where
  stage r := by
    refine ⟨fun c hc => ?_, fun _ => Member.InRange.none⟩
    cases hc
  net w idx r c hw := by cases hw

end System

/-- In a run whose clients keep to the range of the protocol, no tick of any room moves a player
faster than the design says. -/
theorem player_speed {sessionCapacity roomCapacity workerCount : Nat} {s : System}
    (h : Reach System.step Walking (System.init sessionCapacity roomCapacity workerCount) s)
    (r : Nat) (i : Seat) :
    WithinSpeed ((s.srv.rooms r).world.actors (slotOf i)) ((s.srv.rooms r).moved (slotOf i)) := by
  have hrange := h.invariant (P := System.InRange) (.init ..) fun s a t hreach hs hok ht =>
    hs.step (System.consistent hreach) hok ht
  exact Room.moved_withinSpeed (hrange.stage r) i

theorem player_speed_playing : ∃ s, runIf System.step walks playing (System.init 1 1 1) = some s ∧
    ((s.srv.rooms 0).members firstSeat).used = true ∧
    ((s.srv.rooms 0).moved (slotOf firstSeat)).x = 180 + 215 / 60 ∧
    WithinSpeed ((s.srv.rooms 0).world.actors (slotOf firstSeat))
      ((s.srv.rooms 0).moved (slotOf firstSeat)) := by
  have hrun : (runIf System.step walks playing (System.init 1 1 1)).map (fun s =>
      (((s.srv.rooms 0).members firstSeat).used,
        ((s.srv.rooms 0).moved (slotOf firstSeat)).x)) = some (true, 180 + 215 / 60) := by
    decide +kernel
  obtain ⟨s, hs, hproj⟩ := Option.map_eq_some_iff.mp hrun
  simp only [Prod.mk.injEq] at hproj
  exact ⟨s, hs, hproj.1, hproj.2, player_speed (reach_of_runIf walks_sound hs) 0 firstSeat⟩

/-- A player whose frame has 2 on one axis. -/
def sprinting : List Act :=
  playing.dropLast.dropLast ++ [.frame 0 0 [12, 0, 11, 0, 7, 0, 0, 0, 2, 0, 0, 0] 0, .net 0]

theorem sprinting_overspeed : ∃ s, run System.step sprinting (System.init 1 1 1) = some s ∧
    ((s.srv.rooms 0).members firstSeat).used = true ∧
    ¬WithinSpeed ((s.srv.rooms 0).world.actors (slotOf firstSeat))
      ((s.srv.rooms 0).moved (slotOf firstSeat)) := by
  have hrun : (run System.step sprinting (System.init 1 1 1)).map (fun s =>
      (((s.srv.rooms 0).members firstSeat).used,
        ((s.srv.rooms 0).world.actors (slotOf firstSeat)).x,
        ((s.srv.rooms 0).moved (slotOf firstSeat)).x)) = some (true, 180, 180 + 2 * 215 / 60) := by
    decide +kernel
  obtain ⟨s, hs, hproj⟩ := Option.map_eq_some_iff.mp hrun
  simp only [Prod.mk.injEq] at hproj
  obtain ⟨hu, hx, hx'⟩ := hproj
  refine ⟨s, hs, hu, fun hspeed => ?_⟩
  have hfar := hspeed.x
  rw [hx, hx'] at hfar
  norm_num [P_SPEED_X, TICK_DT, abs_le] at hfar

end BeltServer
