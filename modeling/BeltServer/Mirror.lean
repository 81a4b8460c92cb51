import BeltServer.Sim
import BeltServer.Turns
import Mathlib.Tactic.NormNum

/-!
# The mirror

`SimStep` and `logic.js` are two hand-kept versions of movement, body separation and stage
border. On slots in which no other rule acts they keep the same world.
-/

namespace BeltServer.Logic

set_option autoImplicit false

/-- An actor of `logic.js` mirrors a slot of `SimWorld`: an empty slot is a dead actor, one
that is there idles or walks. -/
structure Mirrors (a : Actor ℚ) (p : SimActor) : Prop where
  x : a.x = p.x
  y : a.y = p.y
  face : a.face = p.face.toInt
  there : p.present = true → a.state = .idle ∨ a.state = .walk
  away : p.present = false → a.state = .dead

/-- The state of a present player as the two versions write it. -/
def SameState (a : Actor ℚ) (p : SimActor) : Prop :=
  (a.state = .idle ∧ p.state = ST_IDLE) ∨ (a.state = .walk ∧ p.state = ST_WALK)

/-- The player branch of the step with the input of a slot: neither attack nor skill. -/
def moveInput (input : SimInput) : Input where
  mx := input.mx
  my := input.my

/-- The movement of the player slots. The branch itself passes over dead actors. -/
def moveAll (sk : Skill) (actors : Actors ℚ 13) (inputs : Seat → SimInput) : Actors ℚ 13 :=
  fun j => if h : j.val < 4 then
    playerAct sk (List.ofFn actors) (actors j) (moveInput (inputs ⟨j.val, h⟩))
  else actors j

/-! ### The numbers -/

theorem tick_eq : (TICK_DT : ℚ) = BeltServer.TICK_DT := by
  norm_num [TICK_DT, TICK_HZ, BeltServer.TICK_DT]

theorem diagonal_eq : (diagonal : ℚ) = BeltServer.diagonal := by
  norm_num [diagonal, BeltServer.diagonal]

theorem speed_x_eq : ((P_SPEED_X : Nat) : ℚ) = BeltServer.P_SPEED_X := by
  norm_num [P_SPEED_X, BeltServer.P_SPEED_X]

theorem speed_y_eq : ((P_SPEED_Y : Nat) : ℚ) = BeltServer.P_SPEED_Y := by
  norm_num [P_SPEED_Y, BeltServer.P_SPEED_Y]

theorem half_w_eq : ((BODY_HALF_W : Nat) : ℚ) = BeltServer.BODY_HALF_W := by
  norm_num [BODY_HALF_W, BeltServer.BODY_HALF_W]

theorem half_d_eq : ((BODY_HALF_D : Nat) : ℚ) = BeltServer.BODY_HALF_D := by
  norm_num [BODY_HALF_D, BeltServer.BODY_HALF_D]

theorem mathAbs_eq (v : ℚ) : mathAbs v = fabs v := by
  unfold mathAbs fabs
  rw [Nat.cast_zero]

theorem clampX_eq (v : ℚ) : clampX v = clampd v 20 (BeltServer.WORLD_W - 20) := by
  have hhi : ((WORLD_W - 20 : Nat) : ℚ) = BeltServer.WORLD_W - 20 := by
    norm_num [WORLD_W, BeltServer.WORLD_W]
  unfold clampX clamp clampd
  rw [hhi]
  norm_num

theorem clampY_eq (v : ℚ) : clampY v = clampd v BeltServer.DEPTH_MIN BeltServer.DEPTH_MAX := by
  have hlo : ((DEPTH_MIN : Nat) : ℚ) = BeltServer.DEPTH_MIN := by
    norm_num [DEPTH_MIN, BeltServer.DEPTH_MIN]
  have hhi : ((DEPTH_MAX : Nat) : ℚ) = BeltServer.DEPTH_MAX := by
    norm_num [DEPTH_MAX, BeltServer.DEPTH_MAX]
  unfold clampY clamp clampd
  rw [hlo, hhi]

/-! ### Movement -/

/-- Which way a player faces after a move, in the numbers of both versions. -/
theorem face_toInt (mx : Int) (face : Int8) :
    (if mx ≠ 0 then (if mx > 0 then 1 else -1) else face.toInt) =
      (if mx ≠ 0 then (if mx > 0 then 1 else -1) else face : Int8).toInt := by
  split_ifs
  · rfl
  · rfl
  · rfl

theorem playerMove_mirrors {a : Actor ℚ} {p : SimActor} (h : Mirrors a p) (hp : p.present = true)
    (input : SimInput) :
    Mirrors (playerMove a (moveInput input)) (movePlayer p input) ∧
      SameState (playerMove a (moveInput input)) (movePlayer p input) := by
  have hthere : (movePlayer p input).present = true := (movePlayer_present p input).trans hp
  have haway {st : State} (hno : (movePlayer p input).present = false) : st = .dead :=
    absurd (hthere.symm.trans hno) Bool.true_eq_false.mp
  by_cases hmove : input.mx ≠ 0 ∨ input.my ≠ 0
  · have hsim : movePlayer p input = { p with
        x := p.x + input.mx * BeltServer.P_SPEED_X * BeltServer.TICK_DT *
          (if input.mx ≠ 0 ∧ input.my ≠ 0 then BeltServer.diagonal else 1)
        y := p.y + input.my * BeltServer.P_SPEED_Y * BeltServer.TICK_DT *
          (if input.mx ≠ 0 ∧ input.my ≠ 0 then BeltServer.diagonal else 1)
        face := if input.mx ≠ 0 then (if input.mx > 0 then 1 else -1) else p.face
        state := ST_WALK } := by
      unfold movePlayer
      rw [if_neg (by simp [hp]), if_pos hmove]
    unfold playerMove moveInput
    rw [if_pos hmove]
    refine ⟨⟨?_, ?_, ?_, fun _ => Or.inr (setState_state ..), haway⟩, Or.inr ⟨setState_state .., ?_⟩⟩
    · rw [hsim, setState_x, ← h.x, ← speed_x_eq, ← tick_eq, ← diagonal_eq]
      simp only [Nat.cast_one]
    · rw [hsim, setState_y, ← h.y, ← speed_y_eq, ← tick_eq, ← diagonal_eq]
      simp only [Nat.cast_one]
    · rw [hsim, setState_face, h.face]
      exact face_toInt input.mx p.face
    · rw [hsim]
  · have hsim : movePlayer p input = { p with state := ST_IDLE } := by
      unfold movePlayer
      rw [if_neg (by simp [hp]), if_neg hmove]
    unfold playerMove moveInput
    rw [if_neg hmove]
    refine ⟨⟨?_, ?_, ?_, fun _ => Or.inl (setState_state ..), haway⟩, Or.inl ⟨setState_state .., ?_⟩⟩
    · rw [hsim, setState_x]
      exact h.x
    · rw [hsim, setState_y]
      exact h.y
    · rw [hsim, setState_face]
      exact h.face
    · rw [hsim]

theorem playerAct_mirrors {a : Actor ℚ} {p : SimActor} (h : Mirrors a p) (sk : Skill)
    (actors : List (Actor ℚ)) (input : SimInput) :
    Mirrors (playerAct sk actors a (moveInput input)) (movePlayer p input) ∧
      (p.present = true →
        SameState (playerAct sk actors a (moveInput input)) (movePlayer p input)) := by
  unfold playerAct
  cases hp : p.present with
  | false =>
    have hsim : movePlayer p input = p := by
      unfold movePlayer
      rw [if_pos (by simp [hp])]
    rw [if_pos (h.away hp), hsim]
    exact ⟨h, fun hno => Bool.noConfusion hno⟩
  | true =>
    have hact : canAct a = true := (canAct_iff a).mpr (h.there hp)
    have halive : a.state ≠ .dead := by
      rcases h.there hp with hst | hst
      · rw [hst]
        exact State.noConfusion
      · rw [hst]
        exact State.noConfusion
    have hcounted : Mirrors { a with cool := a.cool - 1, skillCool := a.skillCool - 1 } p :=
      ⟨h.x, h.y, h.face, h.there, h.away⟩
    have hmoves := playerMove_mirrors hcounted hp input
    have hact' : canAct { a with cool := a.cool - 1, skillCool := a.skillCool - 1 } = true := hact
    rw [if_neg halive]
    unfold playerChoice
    rw [hact']
    exact ⟨hmoves.1, fun _ => hmoves.2⟩

theorem moveAll_mirrors {A : Actors ℚ 13} {P : Slot → SimActor} (h : ∀ j, Mirrors (A j) (P j))
    (sk : Skill) (inputs : Seat → SimInput) (j : Slot) :
    Mirrors (moveAll sk A inputs j) (movePlayers P inputs j) ∧
      (j.val < 4 → (P j).present = true →
        SameState (moveAll sk A inputs j) (movePlayers P inputs j)) := by
  unfold moveAll movePlayers
  by_cases hj : j.val < 4
  · rw [dif_pos hj, dif_pos hj]
    have hslot := playerAct_mirrors (h j) sk (List.ofFn A) (inputs ⟨j.val, hj⟩)
    exact ⟨hslot.1, fun _ => hslot.2⟩
  · rw [dif_neg hj, dif_neg hj]
    exact ⟨h j, fun hlt => absurd hlt hj⟩

/-! ### Separation and border -/

/-- The slots that separation passes over are the empty ones. -/
theorem Mirrors.passes {a : Actor ℚ} {p : SimActor} (h : Mirrors a p) : passes a = !p.present := by
  cases hp : p.present with
  | false =>
    have hdead := h.away hp
    simp [Logic.passes, hdead]
  | true =>
    rcases h.there hp with hst | hst
    · simp [Logic.passes, hst]
    · simp [Logic.passes, hst]

theorem update_mirrors {A : Actors ℚ 13} {P : Slot → SimActor} (h : ∀ s, Mirrors (A s) (P s))
    {i j : Slot} {a b : Actor ℚ} {p q : SimActor} (hi : Mirrors a p) (hj : Mirrors b q) (s : Slot) :
    Mirrors (Function.update (Function.update A i a) j b s)
      (Function.update (Function.update P i p) j q s) := by
  by_cases hsj : s = j
  · rw [hsj, Function.update_self, Function.update_self]
    exact hj
  · rw [Function.update_of_ne hsj, Function.update_of_ne hsj]
    by_cases hsi : s = i
    · rw [hsi, Function.update_self, Function.update_self]
      exact hi
    · rw [Function.update_of_ne hsi, Function.update_of_ne hsi]
      exact h s

theorem pushApart_mirrors {A : Actors ℚ 13} {P : Slot → SimActor} (h : ∀ s, Mirrors (A s) (P s))
    (i j s : Slot) : Mirrors (pushApart A i j s) (BeltServer.pushApart P i j s) := by
  have hsign (v : ℚ) : (if ((0 : Nat) : ℚ) ≤ v then ((1 : Nat) : ℚ) else -((1 : Nat) : ℚ)) =
      if v ≥ 0 then 1 else -1 := by
    rw [Nat.cast_zero, Nat.cast_one]
  unfold pushApart BeltServer.pushApart
  dsimp only
  rw [(h i).x, (h i).y, (h j).x, (h j).y, half_w_eq, half_d_eq, mathAbs_eq, mathAbs_eq, hsign, hsign]
  push_cast
  split
  · exact h s
  · split
    · refine update_mirrors h ?_ ?_ s
      · exact ⟨rfl, rfl, (h i).face, (h i).there, (h i).away⟩
      · exact ⟨rfl, rfl, (h j).face, (h j).there, (h j).away⟩
    · refine update_mirrors h ?_ ?_ s
      · exact ⟨rfl, rfl, (h i).face, (h i).there, (h i).away⟩
      · exact ⟨rfl, rfl, (h j).face, (h j).there, (h j).away⟩

/-- A loop whose body keeps the mirror keeps it. -/
theorem foldl_mirrors {β : Type} {body : Actors ℚ 13 → β → Actors ℚ 13}
    {body' : (Slot → SimActor) → β → (Slot → SimActor)}
    (hbody : ∀ A P b, (∀ s, Mirrors (A s) (P s)) → ∀ s, Mirrors (body A b s) (body' P b s))
    (l : List β) {A : Actors ℚ 13} {P : Slot → SimActor} (h : ∀ s, Mirrors (A s) (P s)) (s : Slot) :
    Mirrors (l.foldl body A s) (l.foldl body' P s) := by
  induction l generalizing A P with
  | nil => exact h s
  | cons b l ih => exact ih (hbody A P b h)

theorem separateFrom_mirrors {A : Actors ℚ 13} {P : Slot → SimActor} (h : ∀ s, Mirrors (A s) (P s))
    (i s : Slot) : Mirrors (separateFrom i A s) (BeltServer.separateFrom i P s) := by
  unfold separateFrom BeltServer.separateFrom
  rw [(h i).passes]
  split
  · exact h s
  · apply foldl_mirrors _ _ h
    intro A P j hAP s
    rw [(hAP j).passes]
    split
    · exact hAP s
    · exact pushApart_mirrors hAP i j s

theorem apart_mirrors {A : Actors ℚ 13} {P : Slot → SimActor} (h : ∀ s, Mirrors (A s) (P s))
    (s : Slot) : Mirrors (apart A s) (BeltServer.separate P s) := by
  unfold apart BeltServer.separate
  exact foldl_mirrors (fun A P i hAP => separateFrom_mirrors hAP i) _ h s

theorem separate_mirrors {A : Actors ℚ 13} {P : Slot → SimActor} (h : ∀ s, Mirrors (A s) (P s))
    (s : Slot) : Mirrors (separate A s) (clampActors (BeltServer.separate P) s) := by
  have hs := apart_mirrors h s
  unfold separate clampActors
  generalize apart A s = a at hs ⊢
  generalize BeltServer.separate P s = p at hs ⊢
  refine ⟨?_, ?_, hs.face, hs.there, hs.away⟩
  · dsimp only
    rw [clampX_eq, hs.x]
  · dsimp only
    rw [clampY_eq, hs.y]

/-! ### The state loop where no rule acts -/

/-- An actor the state loop only counts the tick of. -/
def Still (a : Actor ℚ) : Prop := a.state = .idle ∨ a.state = .walk ∨ a.state = .dead

theorem turn_still (sk : Skill) {A : Actors ℚ 13} {i : Slot} (h : Still (A i)) :
    turn sk A i = Function.update A i (advance (A i)) := by
  have hst : (Function.update A i (advance (A i)) i).state = (A i).state := by
    rw [Function.update_self]
    rfl
  unfold turn act
  rcases h with h | h | h
  · rw [hst, h]
  · rw [hst, h]
  · rw [hst, h]

theorem turns_still (sk : Skill) (l : List Slot) (hl : l.Nodup) {A : Actors ℚ 13}
    (h : ∀ j, Still (A j)) (j : Slot) :
    l.foldl (turn sk) A j = if j ∈ l then advance (A j) else A j := by
  induction l generalizing A with
  | nil => exact (if_neg List.not_mem_nil).symm
  | cons i l ih =>
    obtain ⟨hi, hl⟩ := List.nodup_cons.mp hl
    have hstill (s : Slot) : Still (Function.update A i (advance (A i)) s) := by
      by_cases hs : s = i
      · rw [hs, Function.update_self]
        exact h i
      · rw [Function.update_of_ne hs]
        exact h s
    rw [List.foldl_cons, turn_still sk (h i), ih hl hstill]
    by_cases hj : j = i
    · rw [hj, if_neg hi, Function.update_self, if_pos List.mem_cons_self]
    · rw [Function.update_of_ne hj]
      simp only [List.mem_cons, hj, false_or]

theorem Mirrors.still {a : Actor ℚ} {p : SimActor} (h : Mirrors a p) : Still a := by
  cases hp : p.present with
  | false => exact Or.inr (Or.inr (h.away hp))
  | true => exact (h.there hp).imp_right Or.inl

theorem progress_mirrors (sk : Skill) {A : Actors ℚ 13} {P : Slot → SimActor}
    (h : ∀ s, Mirrors (A s) (P s)) (s : Slot) :
    progress sk A s = advance (A s) ∧ Mirrors (progress sk A s) (P s) := by
  have hprogress : progress sk A s = advance (A s) := by
    have hturns := turns_still sk (List.finRange (13 + 1)) (List.nodup_finRange _)
      (fun j => (h j).still) s
    rw [if_pos (List.mem_finRange s)] at hturns
    exact hturns
  rw [hprogress]
  exact ⟨rfl, (h s).x, (h s).y, (h s).face, (h s).there, (h s).away⟩

/-! ### Ticks -/

/-- A tick of `logic.js` with the player branch on every player slot: movement, the state loop,
separation. -/
def mirrorTick (sk : Skill) (A : Actors ℚ 13) (inputs : Seat → SimInput) : Actors ℚ 13 :=
  separate (progress sk (moveAll sk A inputs))

def mirrorTicks (sk : Skill) (A : Actors ℚ 13) (inp : Nat → Seat → SimInput) : Nat → Actors ℚ 13
  | 0 => A
  | t + 1 => mirrorTick sk (mirrorTicks sk A inp t) (inp t)

def simTicks (w : SimWorld) (inp : Nat → Seat → SimInput) : Nat → SimWorld
  | 0 => w
  | t + 1 => simStep (simTicks w inp t) (inp t)

theorem sameState_of_eq {a a' : Actor ℚ} {p p' : SimActor} (h : SameState a p)
    (ha : a'.state = a.state) (hp : p'.state = p.state) : SameState a' p' := by
  unfold SameState
  rw [ha, hp]
  exact h

section Tick
variable (sk : Skill) {A : Actors ℚ 13} {w : SimWorld} (h : ∀ j, Mirrors (A j) (w.actors j))
  (inputs : Seat → SimInput)
include h

/-- Movement and separation on both sides. -/
theorem step_mirrors (j : Slot) :
    Mirrors (separate (moveAll sk A inputs) j) ((simStep w inputs).actors j) ∧
      (j.val < 4 → (w.actors j).present = true →
        SameState (separate (moveAll sk A inputs) j) ((simStep w inputs).actors j)) := by
  have hmove (s : Slot) := moveAll_mirrors h sk inputs s
  refine ⟨separate_mirrors (fun s => (hmove s).1) j, fun hj hthere => ?_⟩
  apply sameState_of_eq ((hmove j).2 hj hthere)
  · exact (separate_moved (moveAll sk A inputs) j).keeps fun _ _ _ => rfl
  · exact simStep_keeps (fun _ _ => rfl) (fun _ _ => rfl) w inputs j

/-- The same with the state loop in between. -/
theorem tick_mirrors (j : Slot) :
    Mirrors (mirrorTick sk A inputs j) ((simStep w inputs).actors j) ∧
      (j.val < 4 → (w.actors j).present = true →
        SameState (mirrorTick sk A inputs j) ((simStep w inputs).actors j)) := by
  have hmove (s : Slot) := moveAll_mirrors h sk inputs s
  have hprogress (s : Slot) := progress_mirrors sk (fun s => (hmove s).1) s
  refine ⟨separate_mirrors (fun s => (hprogress s).2) j, fun hj hthere => ?_⟩
  apply sameState_of_eq ((hmove j).2 hj hthere)
  · have hstate : (mirrorTick sk A inputs j).state = (progress sk (moveAll sk A inputs) j).state :=
      (separate_moved _ j).keeps fun _ _ _ => rfl
    rw [hstate, (hprogress j).1]
    rfl
  · exact simStep_keeps (fun _ _ => rfl) (fun _ _ => rfl) w inputs j

end Tick

/-- The two versions of a slot agree after a tick. -/
def Agree (a : Actor ℚ) (p : SimActor) (player : Prop) : Prop :=
  a.x = p.x ∧ a.y = p.y ∧ a.face = p.face.toInt ∧ (player → p.present = true → SameState a p)

/-- One tick of `SimStep` is the player branch of `logic.js` on every player slot and its
`separate`; and so are any number of ticks, the state loop included. -/
theorem sim_mirror (sk : Skill) (w : SimWorld) (A : Actors ℚ 13)
    (h : ∀ j, Mirrors (A j) (w.actors j)) :
    (∀ inputs j, Agree (separate (moveAll sk A inputs) j) ((simStep w inputs).actors j) (j.val < 4)) ∧
    (∀ inp t j, Agree (mirrorTicks sk A inp (t + 1) j) ((simTicks w inp (t + 1)).actors j)
      (j.val < 4)) := by
  have hticks (inp : Nat → Seat → SimInput) (t : Nat) (j : Slot) :
      Mirrors (mirrorTicks sk A inp t j) ((simTicks w inp t).actors j) := by
    induction t generalizing j with
    | zero => exact h j
    | succ t ih => exact (tick_mirrors sk ih (inp t) j).1
  refine ⟨fun inputs j => ?_, fun inp t j => ?_⟩
  · obtain ⟨hmirror, hsame⟩ := step_mirrors sk h inputs j
    refine ⟨hmirror.x, hmirror.y, hmirror.face, fun hj hthere => hsame hj ?_⟩
    rw [simStep_present] at hthere
    exact hthere
  · obtain ⟨hmirror, hsame⟩ := tick_mirrors sk (hticks inp t) (inp t) j
    refine ⟨hmirror.x, hmirror.y, hmirror.face, fun hj hthere => hsame hj ?_⟩
    rw [simTicks, simStep_present] at hthere
    exact hthere

/-- The actor of `logic.js` for a slot. -/
def mirror (j : Slot) (p : SimActor) : Actor ℚ :=
  { makeActor (j.val + 1) (if p.kind = 0 then .player else .orc) p.x p.y p.hp.toInt with
    face := p.face.toInt
    state := if p.present = true then (if p.state = ST_WALK then .walk else .idle) else .dead }

theorem mirror_mirrors (j : Slot) (p : SimActor) : Mirrors (mirror j p) p := by
  refine ⟨rfl, rfl, rfl, fun hp => ?_, fun hp => ?_⟩
  · have hst : (mirror j p).state = if p.state = ST_WALK then .walk else .idle := if_pos hp
    rw [hst]
    split
    · exact Or.inr rfl
    · exact Or.inl rfl
  · exact if_neg (Bool.eq_false_iff.mp hp)

/-- A room with a player in its first seat. -/
def oneSeated : SimWorld :=
  { resetWorld with
    actors := Function.update resetWorld.actors 0 (resetWorld.actors 0 |>.spawnPlayer firstSeat) }

theorem sim_mirror_oneSeated :
    (∀ j, Mirrors (mirror j (oneSeated.actors j)) (oneSeated.actors j)) ∧
      ∀ inputs j, Agree (separate (moveAll SKILL (fun j => mirror j (oneSeated.actors j)) inputs) j)
        ((simStep oneSeated inputs).actors j) (j.val < 4) :=
  ⟨fun j => mirror_mirrors j _,
    (sim_mirror SKILL oneSeated (fun j => mirror j (oneSeated.actors j)) fun j =>
      mirror_mirrors j _).1⟩

end BeltServer.Logic
