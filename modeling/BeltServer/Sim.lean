import BeltServer.Wire

/-!
# The simulation

`Constants.h`, the spawn tables of `Room.h`, `ResetWorld` and `SimStep`. Positions are
exact rationals in place of doubles; the expressions keep the order of the source.
-/

namespace BeltServer

set_option autoImplicit false

def TICK_DT : ℚ := 1 / 60
def WORLD_W : ℚ := 1600
def DEPTH_MIN : ℚ := 0
def DEPTH_MAX : ℚ := 165
def P_SPEED_X : ℚ := 215
def P_SPEED_Y : ℚ := 132
def BODY_HALF_W : ℚ := 17
def BODY_HALF_D : ℚ := 9
def EXIT_ZONE_X : ℚ := WORLD_W - 200

def diagonal : ℚ := 7071067811865476 / 10000000000000000

def ST_IDLE : UInt8 := 0
def ST_WALK : UInt8 := 1

structure SimActor where
  present : Bool := false
  kind : UInt8 := 0
  state : UInt8 := 0
  face : Int8 := 1
  x : ℚ := 0
  y : ℚ := 0
  hp : Int16 := 0

structure SimWorld where
  tick : UInt32 := 0
  actors : Slot → SimActor := fun _ => {}

structure SimInput where
  mx : Int := 0
  my : Int := 0

def kPlayerSpawn : Seat → ℚ × ℚ
  | 0 => (180, 100)
  | 1 => (140, 60)
  | 2 => (220, 140)
  | 3 => (100, 120)

def kOrcSpawn : Fin 10 → ℚ × ℚ
  | 0 => (520, 40)
  | 1 => (700, 120)
  | 2 => (980, 70)
  | 3 => (1180, 140)
  | 4 => (1330, 55)
  | 5 => (620, 150)
  | 6 => (840, 30)
  | 7 => (1060, 110)
  | 8 => (1240, 20)
  | 9 => (1450, 125)

/-- A player actor at the spawn point of its seat, as seating and room moves write it. -/
def SimActor.spawnPlayer (a : SimActor) (i : Seat) : SimActor :=
  { a with
    present := true
    kind := 0
    state := 0
    face := 1
    x := (kPlayerSpawn i).1
    y := (kPlayerSpawn i).2
    hp := 10 }

def spawnOrc (i : Fin 10) : SimActor :=
  { present := true, kind := 1, x := (kOrcSpawn i).1, y := (kOrcSpawn i).2, face := -1, hp := 3 }

/-- `ResetWorld`: tick 0, empty player slots, the ten orcs at their spawn points. -/
def resetWorld : SimWorld where
  tick := 0
  actors j := if h : j.val < 4 then {} else spawnOrc ⟨j.val - 4, by omega⟩

/-- One player of the movement loop of `SimStep`. -/
def movePlayer (p : SimActor) (input : SimInput) : SimActor :=
  if !p.present then p
  else if input.mx ≠ 0 ∨ input.my ≠ 0 then
    let k : ℚ := if input.mx ≠ 0 ∧ input.my ≠ 0 then diagonal else 1
    { p with
      x := p.x + input.mx * P_SPEED_X * TICK_DT * k
      y := p.y + input.my * P_SPEED_Y * TICK_DT * k
      face := if input.mx ≠ 0 then (if input.mx > 0 then 1 else -1) else p.face
      state := ST_WALK }
  else { p with state := ST_IDLE }

def movePlayers (actors : Slot → SimActor) (inputs : Seat → SimInput) : Slot → SimActor :=
  fun j => if h : j.val < 4 then movePlayer (actors j) (inputs ⟨j.val, h⟩) else actors j

def fabs (v : ℚ) : ℚ := if v < 0 then -v else v

/-- The body of the pair loop of `SimStep`, both actors being present. -/
def pushApart (actors : Slot → SimActor) (i j : Slot) : Slot → SimActor :=
  let a := actors i
  let b := actors j
  let dx := b.x - a.x
  let dy := b.y - a.y
  let ox := BODY_HALF_W * 2 - fabs dx
  let oy := BODY_HALF_D * 2 - fabs dy
  if ox ≤ 0 ∨ oy ≤ 0 then actors
  else if ox < oy then
    let push := (if dx ≥ 0 then 1 else -1) * ox * (1 / 2)
    Function.update (Function.update actors i { a with x := a.x - push }) j { b with x := b.x + push }
  else
    let push := (if dy ≥ 0 then 1 else -1) * oy * (1 / 2)
    Function.update (Function.update actors i { a with y := a.y - push }) j { b with y := b.y + push }

/-- The inner loop: actor `i` against every later one. -/
def separateFrom (i : Slot) (actors : Slot → SimActor) : Slot → SimActor :=
  if !(actors i).present then actors
  else ((List.finRange 14).filter (fun j => i < j)).foldl
    (fun actors j => if !(actors j).present then actors else pushApart actors i j) actors

def separate (actors : Slot → SimActor) : Slot → SimActor :=
  (List.finRange 14).foldl (fun actors i => separateFrom i actors) actors

def clampd (v lo hi : ℚ) : ℚ := if v < lo then lo else if hi < v then hi else v

/-- The stage border; empty slots are clamped too. -/
def clampActors (actors : Slot → SimActor) : Slot → SimActor := fun j =>
  { actors j with
    x := clampd (actors j).x 20 (WORLD_W - 20)
    y := clampd (actors j).y DEPTH_MIN DEPTH_MAX }

/-- `SimStep`: movement, body separation, stage border. -/
def simStep (w : SimWorld) (inputs : Seat → SimInput) : SimWorld :=
  { w with actors := clampActors (separate (movePlayers w.actors inputs)) }

theorem movePlayer_present (p : SimActor) (input : SimInput) :
    (movePlayer p input).present = p.present := by
  unfold movePlayer
  split
  · rfl
  · split <;> rfl

/-- A player who is there idles or walks. -/
theorem movePlayer_state {p : SimActor} (h : p.present = true) (input : SimInput) :
    (movePlayer p input).state = ST_IDLE ∨ (movePlayer p input).state = ST_WALK := by
  unfold movePlayer
  rw [if_neg (by simp [h])]
  split
  · exact Or.inr rfl
  · exact Or.inl rfl

theorem movePlayers_present (actors : Slot → SimActor) (inputs : Seat → SimInput) (j : Slot) :
    (movePlayers actors inputs j).present = (actors j).present := by
  unfold movePlayers
  split
  · exact movePlayer_present _ _
  · rfl

/-! ### What body separation and the border leave alone -/

section Keeps

variable {β : Type} {f : SimActor → β} (hx : ∀ a v, f { a with x := v } = f a)
  (hy : ∀ a v, f { a with y := v } = f a)
include hx hy

/-- A part of an actor that does not depend on its position. -/
theorem pushApart_keeps (actors : Slot → SimActor) (i j s : Slot) :
    f (pushApart actors i j s) = f (actors s) := by
  have htwo (a b : SimActor) (ha : f a = f (actors i)) (hb : f b = f (actors j)) :
      f (Function.update (Function.update actors i a) j b s) = f (actors s) := by
    by_cases hj : s = j
    · rw [hj, Function.update_self, hb]
    · rw [Function.update_of_ne hj]
      by_cases hi : s = i
      · rw [hi, Function.update_self, ha]
      · rw [Function.update_of_ne hi]
  unfold pushApart
  dsimp only
  split
  · rfl
  · split
    · exact htwo _ _ (hx _ _) (hx _ _)
    · exact htwo _ _ (hy _ _) (hy _ _)

theorem pushApart_foldl_keeps (i : Slot) (js : List Slot) (actors : Slot → SimActor) (s : Slot) :
    f (js.foldl (fun actors j => if !(actors j).present then actors else pushApart actors i j)
      actors s) = f (actors s) := by
  induction js generalizing actors with
  | nil => rfl
  | cons j js ih =>
    rw [List.foldl_cons, ih]
    split
    · rfl
    · exact pushApart_keeps hx hy actors i j s

theorem separateFrom_keeps (i : Slot) (actors : Slot → SimActor) (s : Slot) :
    f (separateFrom i actors s) = f (actors s) := by
  unfold separateFrom
  split
  · rfl
  · exact pushApart_foldl_keeps hx hy i _ actors s

theorem separate_keeps (actors : Slot → SimActor) (s : Slot) :
    f (separate actors s) = f (actors s) := by
  unfold separate
  generalize List.finRange 14 = is
  induction is generalizing actors with
  | nil => rfl
  | cons i is ih => rw [List.foldl_cons, ih, separateFrom_keeps hx hy]

theorem simStep_keeps (w : SimWorld) (inputs : Seat → SimInput) (s : Slot) :
    f ((simStep w inputs).actors s) = f (movePlayers w.actors inputs s) := by
  let a := separate (movePlayers w.actors inputs) s
  let b : SimActor := { a with x := clampd a.x 20 (WORLD_W - 20) }
  calc f ((simStep w inputs).actors s)
      = f { b with y := clampd a.y DEPTH_MIN DEPTH_MAX } := rfl
    _ = f b := hy b _
    _ = f a := hx a _
    _ = f (movePlayers w.actors inputs s) := separate_keeps hx hy _ s

end Keeps

/-- The simulation neither seats nor removes an actor. -/
@[simp] theorem simStep_present (w : SimWorld) (inputs : Seat → SimInput) (s : Slot) :
    ((simStep w inputs).actors s).present = (w.actors s).present := by
  rw [simStep_keeps (f := fun a => a.present) (fun _ _ => rfl) (fun _ _ => rfl)]
  exact movePlayers_present ..

end BeltServer
