import BeltServer.Life
import BeltServer.Lib.Runs
import Mathlib.Algebra.Order.Floor.Semiring
import Mathlib.Algebra.Order.Field.Rat
import Mathlib.Data.Rat.Floor
import Mathlib.Tactic.Linarith
import Mathlib.Tactic.NormNum
import Mathlib.Tactic.Ring

/-!
# The page that plays alone

`game.js`: the loop that feeds the rules at 60 Hz whatever the display does, and what it keeps for
the drawing: the column of the sheet for each actor, the flash of a hit, the shake of the stage and
the traces of an assault. Times are exact.
-/

namespace BeltServer.Logic

set_option autoImplicit false

open Runs

variable {R : Type} {n : Nat}

/-! ### The sheets -/

/-- The width of a column. -/
def FRAME : Nat := 100

def SKILL_SKIP : Nat := 3

/-- `SHEETS`: how many columns a sheet has, and the ticks for each; orcs have none for the
assault. -/
def SHEETS : Kind → State → Option (Nat × Nat)
  | .player, .idle => some (6, 8)
  | .player, .walk => some (8, 5)
  | .player, .attack => some (6, 3)
  | .player, .hurt => some (4, 3)
  | .player, .dead => some (4, 5)
  | .player, .skill => some (6, 3)
  | .orc, .idle => some (6, 8)
  | .orc, .walk => some (8, 5)
  | .orc, .attack => some (6, 3)
  | .orc, .hurt => some (4, 3)
  | .orc, .dead => some (4, 5)
  | .orc, .skill => none

/-- `frameIndex`, which throws without a sheet. -/
def frameIndex (a : Actor R) : Option Nat :=
  (SHEETS a.kind a.state).map fun (count, per) =>
    let i := a.stateTick / per
    let i := if a.state = .skill then i + SKILL_SKIP else i
    if a.state = .attack ∨ a.state = .skill ∨ a.state = .hurt ∨ a.state = .dead then
      min i (count - 1)
    else i % count

/-! ### What the page keeps -/

/-- `KEY`, by what the keys are for. -/
structure Pressed where
  left : Bool := false
  right : Bool := false
  up : Bool := false
  down : Bool := false
  attack : Bool := false
  skill : Bool := false

def Pressed.input (k : Pressed) : Input where
  mx := (if k.right then 1 else 0) - (if k.left then 1 else 0)
  my := (if k.down then 1 else 0) - (if k.up then 1 else 0)
  attack := k.attack
  skill := k.skill

/-- How far an image has come; `complete` is true of one that could not be read, too. -/
inductive Picture where
  | coming
  | loaded
  | broken
  deriving DecidableEq

/-- An entry of `ghosts`; its image is named by the kind and the state. -/
structure Ghost (R : Type) where
  img : Kind × State
  sx : Nat
  x : R
  y : R
  face : Int
  life : Int

/-- The variables of `game.js`; `last` is 0 before the first frame. -/
structure Game (R : Type) (n : Nat) where
  world : World R n
  acc : ℚ := 0
  last : ℚ := 0
  flash : Nat → Option Nat := fun _ => none
  prevHp : Nat → Option Int := fun _ => none
  shake : ℚ := 0
  ghosts : List (Ghost R) := []

namespace Game

variable (g : Game R n)

/-- The first loop of `detectHits`, for one actor. -/
def noticeHit (g : Game R n) (a : Actor R) : Game R n :=
  let hit := (g.prevHp a.id).any fun p => decide (a.hp < p)
  { g with
    flash := if hit then Function.update g.flash a.id (some 7) else g.flash
    shake := if hit then max g.shake (if a.kind = .player then 9 else 5) else g.shake
    prevHp := Function.update g.prevHp a.id (some a.hp) }

/-- The second one. -/
def fade : Game R n :=
  { g with flash := fun id => (g.flash id).bind fun k => if k ≤ 1 then none else some (k - 1) }

def detectHits : Game R n := ((List.ofFn g.world.actors).foldl noticeHit g).fade

/-- `pushGhost`; there is no image without a sheet. -/
def pushGhost (imgs : Kind × State → Picture) (a : Actor R) : Game R n :=
  match frameIndex a with
  | none => g
  | some i =>
    if imgs (a.kind, a.state) = .coming then g
    else
      let ghost : Ghost R :=
        { img := (a.kind, a.state)
          sx := i * FRAME
          x := a.x
          y := a.y
          face := a.face
          life := 14 }
      { g with ghosts := g.ghosts ++ [ghost] }

def player : Actor R := g.world.actors ⟨0, Nat.succ_pos n⟩

/-- The first loop of `drawGhosts`, and whether it got through: `drawTinted` throws at a broken
image. -/
def ageGhosts (imgs : Kind × State → Picture) : List (Ghost R) → List (Ghost R) × Bool
  | [] => ([], true)
  | x :: l =>
    if imgs x.img = .broken then (x :: l, false)
    else ({ x with life := x.life - 1 } :: (ageGhosts imgs l).1, (ageGhosts imgs l).2)

/-- `drawGhosts`; the traces that have run out go only when all were drawn. -/
def drawGhosts (imgs : Kind × State → Picture) (l : List (Ghost R)) : List (Ghost R) :=
  if (ageGhosts imgs l).2 then (ageGhosts imgs l).1.filter fun x => decide (0 < x.life)
  else (ageGhosts imgs l).1

/-- What the drawing of a frame changes; what follows the traces changes nothing that is kept. -/
def drawn (imgs : Kind × State → Picture) : Game R n :=
  { g with
    shake := if 0 < g.shake then (if g.shake * (82 / 100) < 4 / 10 then 0 else g.shake * (82 / 100))
      else g.shake
    ghosts := drawGhosts imgs g.ghosts }

/-- `dt`, cut off at a quarter of a second. -/
def elapsed (now : ℚ) : ℚ := min ((now - g.last) / 1000) (1 / 4)

/-- The number of turns that the inner loop takes. -/
def due (dt : ℚ) : Nat := ⌊(g.acc + dt) / (TICK_DT : ℚ)⌋₊

end Game

/-- A frame of the display, or the key that starts again. -/
inductive GameAct where
  | frame (now : ℚ) (k : Pressed) (imgs : Kind × State → Picture)
  | restart

/-- The time that a frame shows, an input that the rules are fed, and a new world. -/
inductive GameEvent where
  | shown (dt : ℚ)
  | fed (input : Input)
  | again

/-! ### The record of a run -/

def shownTime (es : List GameEvent) : ℚ :=
  (es.map fun | .shown dt => dt | _ => 0).sum

def inputs (es : List GameEvent) : List Input :=
  es.filterMap fun | .fed input => some input | _ => none

def restarts (es : List GameEvent) : Nat :=
  (es.filter fun | .again => true | _ => false).length

def Game.emits : GameAct → Game R n → List GameEvent
  | .frame now k _, g =>
    if g.last = 0 then []
    else .shown (g.elapsed now) :: List.replicate (g.due (g.elapsed now)) (.fed k.input)
  | .restart, _ => [.again]

theorem shownTime_append (es es' : List GameEvent) :
    shownTime (es ++ es') = shownTime es + shownTime es' := by
  unfold shownTime
  rw [List.map_append, List.sum_append]

theorem shownTime_fed (k : Nat) (input : Input) :
    shownTime (List.replicate k (.fed input)) = 0 := by
  induction k with
  | zero => rfl
  | succ k ih =>
    rw [List.replicate_succ]
    exact (zero_add _).trans ih

theorem inputs_append (es es' : List GameEvent) : inputs (es ++ es') = inputs es ++ inputs es' :=
  List.filterMap_append

theorem inputs_fed (k : Nat) (input : Input) :
    inputs (List.replicate k (.fed input)) = List.replicate k input := by
  induction k with
  | zero => rfl
  | succ k ih =>
    rw [List.replicate_succ, List.replicate_succ]
    exact congrArg (List.cons input) ih

theorem restarts_append (es es' : List GameEvent) :
    restarts (es ++ es') = restarts es + restarts es' := by
  unfold restarts
  rw [List.filter_append, List.length_append]

/-! ### What the hits leave alone -/

structure Alike (g g' : Game R n) : Prop where
  world : g'.world = g.world
  acc : g'.acc = g.acc
  last : g'.last = g.last
  ghosts : g'.ghosts = g.ghosts

namespace Alike

theorem refl (g : Game R n) : Alike g g := ⟨rfl, rfl, rfl, rfl⟩

theorem trans {g g' g'' : Game R n} (h : Alike g g') (h' : Alike g' g'') : Alike g g'' :=
  ⟨h'.world.trans h.world, h'.acc.trans h.acc, h'.last.trans h.last, h'.ghosts.trans h.ghosts⟩

end Alike

namespace Game

variable (g : Game R n) (imgs : Kind × State → Picture)

theorem noticeHits_alike (l : List (Actor R)) : Alike g (l.foldl noticeHit g) := by
  induction l generalizing g with
  | nil => exact .refl g
  | cons a l ih =>
    have hfirst : Alike g (g.noticeHit a) := ⟨rfl, rfl, rfl, rfl⟩
    exact hfirst.trans (ih (g.noticeHit a))

theorem detectHits_alike : Alike g g.detectHits := by
  have hfade (g : Game R n) : Alike g g.fade := ⟨rfl, rfl, rfl, rfl⟩
  exact (noticeHits_alike g _).trans (hfade _)

theorem pushGhost_fields (a : Actor R) :
    (g.pushGhost imgs a).world = g.world ∧ (g.pushGhost imgs a).acc = g.acc ∧
      (g.pushGhost imgs a).last = g.last := by
  unfold pushGhost
  split
  · exact ⟨rfl, rfl, rfl⟩
  · split
    · exact ⟨rfl, rfl, rfl⟩
    · exact ⟨rfl, rfl, rfl⟩

end Game

/-! ### The clock of the loop -/

theorem tickDt : (TICK_DT : ℚ) = 1 / 60 := by
  unfold TICK_DT TICK_HZ
  norm_num

namespace Game

variable (g : Game R n) (imgs : Kind × State → Picture)

def Settled : Prop := 0 ≤ g.acc ∧ g.acc < 1 / 60

theorem elapsed_bounds {now : ℚ} (hnow : g.last ≤ now) :
    0 ≤ g.elapsed now ∧ g.elapsed now ≤ 1 / 4 := by
  refine ⟨le_min ?_ (by norm_num), min_le_right _ _⟩
  apply div_nonneg
  · linarith
  · norm_num

theorem due_eq (dt : ℚ) : g.due dt = ⌊60 * (g.acc + dt)⌋₊ := by
  unfold due
  rw [tickDt]
  congr 1
  ring

/-- The turns of a frame are the whole ticks of what it owes. -/
theorem due_bounds {dt : ℚ} (hdt : 0 ≤ dt) (hacc : 0 ≤ g.acc) :
    (g.due dt : ℚ) / 60 ≤ g.acc + dt ∧ g.acc + dt < (g.due dt + 1) / 60 := by
  rw [due_eq]
  have hle := Nat.floor_le (show 0 ≤ 60 * (g.acc + dt) by linarith)
  have hlt := Nat.lt_floor_add_one (60 * (g.acc + dt))
  constructor
  · linarith
  · linarith

/-- Never more than a quarter of a second. -/
theorem due_le {now : ℚ} (hg : g.Settled) (hnow : g.last ≤ now) :
    g.due (g.elapsed now) ≤ 15 := by
  obtain ⟨hdt, hcut⟩ := g.elapsed_bounds hnow
  have hlo := (g.due_bounds hdt hg.1).1
  have hlt := hg.2
  have hcast : (g.due (g.elapsed now) : ℚ) < (16 : Nat) := by
    push_cast
    linarith
  exact Nat.lt_succ_iff.mp (Nat.cast_lt.mp hcast)

section Record
variable {g}

theorem emits_first (hlast : g.last = 0) (now : ℚ) (k : Pressed) :
    emits (.frame now k imgs) g = [] :=
  if_pos hlast

theorem emits_later (hlast : g.last ≠ 0) (now : ℚ) (k : Pressed) :
    emits (.frame now k imgs) g =
      .shown (g.elapsed now) :: List.replicate (g.due (g.elapsed now)) (.fed k.input) :=
  if_neg hlast

theorem inputs_later (hlast : g.last ≠ 0) (now : ℚ) (k : Pressed) :
    inputs (emits (.frame now k imgs) g) =
      List.replicate (g.due (g.elapsed now)) k.input := by
  rw [emits_later imgs hlast]
  exact inputs_fed _ _

theorem shownTime_later (hlast : g.last ≠ 0) (now : ℚ) (k : Pressed) :
    shownTime (emits (.frame now k imgs) g) = g.elapsed now := by
  rw [emits_later imgs hlast]
  unfold shownTime
  rw [List.map_cons, List.sum_cons]
  exact (congrArg (g.elapsed now + ·) (shownTime_fed _ _)).trans (add_zero _)

end Record

end Game

/-! ### The loop -/

variable [Add R] [Sub R] [Mul R] [Div R] [Neg R] [NatCast R] [IntCast R]
  [LE R] [LT R] [BEq R] [DecidableLE R] [DecidableLT R]

namespace Game

variable (sk : Skill) (fresh : World R n) (g : Game R n)

def tick (imgs : Kind × State → Picture) (input : Input) : Game R n :=
  let g := { g with world := step sk g.world input }
  let g := if g.player.state = .skill then g.pushGhost imgs g.player else g
  let g := g.detectHits
  { g with acc := g.acc - TICK_DT }

def catchUp (imgs : Kind × State → Picture) (input : Input) : Nat → Game R n → Option (Game R n)
  | 0, _ => none
  | fuel + 1, g =>
    if TICK_DT ≤ g.acc then catchUp imgs input fuel (g.tick sk imgs input) else some g

/-- `loop`. -/
def frame (now : ℚ) (k : Pressed) (imgs : Kind × State → Picture) : Option (Game R n) :=
  if g.last = 0 then some { g with last := now }
  else
    (catchUp sk imgs k.input (g.due (g.elapsed now) + 1)
      { g with acc := g.acc + g.elapsed now, last := now }).map fun g => g.drawn imgs

/-- The time stamps of the frames do not go back. -/
def step (sk : Skill) (fresh : World R n) : GameAct → Game R n → Option (Game R n)
  | .frame now k imgs, g => if now < g.last then none else g.frame sk now k imgs
  | .restart, g => some { g with world := fresh }

end Game

/-- The rules alone, on what is recorded. -/
def replay (sk : Skill) (fresh : World R n) (w : World R n) (es : List GameEvent) : World R n :=
  es.foldl (fun w => fun | .shown _ => w | .fed input => step sk w input | .again => fresh) w

theorem replay_append (sk : Skill) (fresh w : World R n) (es es' : List GameEvent) :
    replay sk fresh w (es ++ es') = replay sk fresh (replay sk fresh w es) es' :=
  List.foldl_append

/-- Without a restart the record is a run of the rules. -/
theorem replay_runs (sk : Skill) (fresh w : World R n) (inp : Nat → Input) (es : List GameEvent)
    (hagain : restarts es = 0) (hinp : ∀ t input, (inputs es)[t]? = some input → input = inp t) :
    replay sk fresh w es = runs sk w inp (inputs es).length := by
  induction es using List.reverseRecOn with
  | nil => rfl
  | append_singleton es e ih =>
    rw [restarts_append] at hagain
    have hes := ih (Nat.eq_zero_of_add_eq_zero_right hagain) fun t input ht => hinp t input ?_
    · rw [replay_append, hes, inputs_append, List.length_append]
      cases e with
      | shown dt => rfl
      | fed input =>
        have hlast := hinp (inputs es).length input ?_
        · rw [hlast]
          rfl
        · rw [inputs_append]
          exact List.getElem?_concat_length
      | again => cases hagain
    · rw [inputs_append]
      exact List.getElem?_append_left (List.getElem?_eq_some_iff.mp ht).1 ▸ ht

/-! ### A turn of the loop -/

namespace Game

variable (sk : Skill) (fresh : World R n) (g : Game R n) (imgs : Kind × State → Picture)
  (input : Input)

/-- What a turn of the inner loop has before it looks for hits. -/
def traced : Game R n :=
  let g := { g with world := Logic.step sk g.world input }
  if g.player.state = .skill then g.pushGhost imgs g.player else g

theorem tick_eq : g.tick sk imgs input =
    { (g.traced sk imgs input).detectHits with
      acc := (g.traced sk imgs input).detectHits.acc - TICK_DT } :=
  rfl

theorem traced_fields :
    (g.traced sk imgs input).world = Logic.step sk g.world input ∧
      (g.traced sk imgs input).acc = g.acc ∧ (g.traced sk imgs input).last = g.last := by
  unfold traced
  dsimp only
  split
  · exact pushGhost_fields _ imgs _
  · exact ⟨rfl, rfl, rfl⟩

theorem tick_world : (g.tick sk imgs input).world = Logic.step sk g.world input :=
  (detectHits_alike _).world.trans (traced_fields sk g imgs input).1

theorem tick_acc : (g.tick sk imgs input).acc = g.acc - 1 / 60 := by
  rw [tick_eq, tickDt]
  dsimp only
  rw [(detectHits_alike _).acc, (traced_fields sk g imgs input).2.1]

theorem tick_last : (g.tick sk imgs input).last = g.last :=
  (detectHits_alike _).last.trans (traced_fields sk g imgs input).2.2

def turns (k : Nat) (g : Game R n) : Game R n := (fun g => g.tick sk imgs input)^[k] g

theorem turns_succ (k : Nat) :
    turns sk imgs input (k + 1) g = turns sk imgs input k (g.tick sk imgs input) :=
  rfl

/-- What `k` turns do to the clock and the world. -/
theorem turns_fields (k : Nat) :
    (turns sk imgs input k g).acc = g.acc - k / 60 ∧
      (turns sk imgs input k g).last = g.last ∧
      (turns sk imgs input k g).world =
        replay sk fresh g.world (List.replicate k (.fed input)) := by
  induction k generalizing g with
  | zero =>
    refine ⟨?_, rfl, rfl⟩
    rw [Nat.cast_zero, zero_div, sub_zero]
    rfl
  | succ k ih =>
    obtain ⟨hacc, hlast, hworld⟩ := ih (g.tick sk imgs input)
    rw [turns_succ]
    refine ⟨?_, ?_, ?_⟩
    · rw [hacc, tick_acc, Nat.cast_succ]
      ring
    · rw [hlast, tick_last]
    · rw [hworld, tick_world, List.replicate_succ]
      rfl

/-- The inner loop takes as many turns as whole ticks have piled up, whatever fuel it has beyond
that. -/
theorem catchUp_turns (k fuel : Nat) (hfuel : k < fuel) (hlo : (k : ℚ) / 60 ≤ g.acc)
    (hhi : g.acc < (k + 1) / 60) :
    catchUp sk imgs input fuel g = some (turns sk imgs input k g) := by
  induction k generalizing g fuel with
  | zero =>
    obtain ⟨fuel, rfl⟩ := Nat.exists_eq_succ_of_ne_zero (Nat.ne_of_gt hfuel)
    have hdone : ¬TICK_DT ≤ g.acc := by
      rw [tickDt, not_le]
      rwa [Nat.cast_zero, zero_add] at hhi
    exact if_neg hdone
  | succ k ih =>
    obtain ⟨fuel, rfl⟩ := Nat.exists_eq_succ_of_ne_zero (Nat.ne_of_gt (Nat.zero_lt_of_lt hfuel))
    rw [Nat.cast_succ] at hlo hhi
    have hdue : TICK_DT ≤ g.acc := by
      rw [tickDt]
      have hk : (0 : ℚ) ≤ k := Nat.cast_nonneg k
      linarith
    have hrest := ih (g.tick sk imgs input) fuel (Nat.lt_of_succ_lt_succ hfuel) ?_ ?_
    · exact (if_pos hdue).trans hrest
    · rw [tick_acc]
      linarith
    · rw [tick_acc]
      linarith

/-- A frame does not get stuck. -/
theorem frame_turns {now : ℚ} (hg : g.Settled) (hnow : g.last ≤ now) (k : Pressed)
    (hlast : g.last ≠ 0) :
    g.frame sk now k imgs = some ((turns sk imgs k.input (g.due (g.elapsed now))
      { g with acc := g.acc + g.elapsed now, last := now }).drawn imgs) := by
  obtain ⟨hlo, hhi⟩ := g.due_bounds (g.elapsed_bounds hnow).1 hg.1
  have hloop := catchUp_turns sk { g with acc := g.acc + g.elapsed now, last := now } imgs
    k.input (g.due (g.elapsed now)) (g.due (g.elapsed now) + 1) (Nat.lt_succ_self _) hlo hhi
  unfold frame
  rw [if_neg hlast, hloop]
  rfl

theorem step_frame {now : ℚ} (hnow : g.last ≤ now) (k : Pressed) :
    g.step sk fresh (.frame now k imgs) = g.frame sk now k imgs :=
  if_neg (not_lt.mpr hnow)

end Game

/-- The world is what the rules alone make of the record, and what the frames have shown beyond
the ticks is still owed. -/
structure Paced (sk : Skill) (fresh w : World R n) (es : List GameEvent) (g : Game R n) : Prop where
  world : g.world = replay sk fresh w es
  owed : g.acc = shownTime es - (inputs es).length / 60
  settled : g.Settled

namespace Paced

variable {sk : Skill} {fresh w : World R n} {es : List GameEvent} {g g' : Game R n}

theorem init (sk : Skill) (fresh w : World R n) : Paced sk fresh w [] { world := w } := by
  refine ⟨rfl, ?_, le_refl _, by norm_num⟩
  exact ((sub_eq_zero.mpr (zero_div (60 : ℚ)).symm)).symm

theorem restart (h : Paced sk fresh w es g) :
    Paced sk fresh w (es ++ [.again]) { g with world := fresh } := by
  refine ⟨?_, ?_, h.settled⟩
  · rw [replay_append]
    rfl
  · rw [shownTime_append, inputs_append]
    simpa [shownTime, inputs] using h.owed

theorem frame (h : Paced sk fresh w es g) {now : ℚ} (hnow : g.last ≤ now) {k : Pressed}
    {imgs : Kind × State → Picture} (hg' : g.frame sk now k imgs = some g') :
    Paced sk fresh w (es ++ Game.emits (.frame now k imgs) g) g' := by
  by_cases hlast : g.last = 0
  · unfold Game.frame at hg'
    rw [if_pos hlast, Option.some.injEq] at hg'
    rw [Game.emits_first imgs hlast, List.append_nil, ← hg']
    exact ⟨h.world, h.owed, h.settled⟩
  · obtain ⟨hlo, hhi⟩ := g.due_bounds (g.elapsed_bounds hnow).1 h.settled.1
    rw [g.frame_turns sk imgs h.settled hnow k hlast, Option.some.injEq] at hg'
    obtain ⟨hacc, -, hworld⟩ := Game.turns_fields sk fresh
      { g with acc := g.acc + g.elapsed now, last := now } imgs k.input (g.due (g.elapsed now))
    have hacc' : g'.acc = g.acc + g.elapsed now - g.due (g.elapsed now) / 60 := by
      rw [← hg']
      exact hacc
    refine ⟨?_, ?_, ?_, ?_⟩
    · rw [replay_append, ← h.world, Game.emits_later imgs hlast, ← hg']
      exact hworld
    · rw [hacc', shownTime_append, inputs_append, Game.shownTime_later imgs hlast,
        Game.inputs_later imgs hlast, List.length_append, List.length_replicate, h.owed,
        Nat.cast_add]
      ring
    · rw [hacc']
      linarith
    · rw [hacc']
      linarith

theorem step (h : Paced sk fresh w es g) {a : GameAct} (hg' : g.step sk fresh a = some g') :
    Paced sk fresh w (es ++ Game.emits a g) g' := by
  cases a with
  | frame now k imgs =>
    simp only [Game.step, Option.ite_none_left_eq_some, not_lt] at hg'
    exact h.frame hg'.1 hg'.2
  | restart =>
    cases hg'
    exact h.restart

theorem run (h : Traced (Game.step sk fresh) Game.emits { world := w } es g) :
    Paced sk fresh w es g :=
  h.invariant (init sk fresh w) fun _ _ _ _ _ hs hstep => hs.step hstep

/-- As many ticks as whole sixtieths of a second have been shown. -/
theorem count (h : Paced sk fresh w es g) : (inputs es).length = ⌊60 * shownTime es⌋₊ := by
  obtain ⟨hlo, hhi⟩ := h.settled
  rw [h.owed] at hlo hhi
  have hlen : (0 : ℚ) ≤ (inputs es).length := Nat.cast_nonneg _
  symm
  apply (Nat.floor_eq_iff (by linarith)).mpr
  constructor
  · linarith
  · linarith

end Paced

/-- Whatever the display does, the world is the rules applied to the inputs once for each whole
sixtieth of a second shown, so that without a restart it does not depend on how the time was cut
into frames; no frame gets stuck or runs more than fifteen ticks. -/
theorem solo_paced {sk : Skill} {fresh w : World R n} {es : List GameEvent} {g : Game R n}
    (h : Traced (Game.step sk fresh) Game.emits { world := w } es g) :
    g.world = replay sk fresh w es ∧ (inputs es).length = ⌊60 * shownTime es⌋₊ ∧
      (restarts es = 0 → ∀ inp : Nat → Input,
        (∀ t input, (inputs es)[t]? = some input → input = inp t) →
        g.world = runs sk w inp ⌊60 * shownTime es⌋₊) ∧
      ∀ now k imgs, g.last ≤ now →
        (g.step sk fresh (.frame now k imgs)).isSome ∧
          (inputs (Game.emits (.frame now k imgs) g)).length ≤ 15 := by
  have hpaced : Paced sk fresh w es g := .run h
  refine ⟨hpaced.world, hpaced.count, fun hagain inp hinp => ?_, fun now k imgs hnow => ?_⟩
  · rw [hpaced.world, replay_runs sk fresh w inp es hagain hinp, hpaced.count]
  · rw [Game.step_frame sk fresh g imgs hnow]
    by_cases hlast : g.last = 0
    · unfold Game.frame
      rw [if_pos hlast, Game.emits_first imgs hlast]
      exact ⟨rfl, Nat.zero_le _⟩
    · rw [g.frame_turns sk imgs hpaced.settled hnow k hlast, Game.inputs_later imgs hlast,
        List.length_replicate]
      exact ⟨rfl, g.due_le hpaced.settled hnow⟩

/-- A display of 10 Hz, and one that drops a frame. -/
def slowDisplay : List GameAct :=
  [.frame 1000 { right := true } fun _ => .loaded, .frame 1100 { right := true } fun _ => .loaded,
    .frame 1150 { right := true } fun _ => .loaded]

theorem slow_record : ∃ (es : List GameEvent) (g : Game ℚ 5),
    Traced (Game.step SKILL createWorld) Game.emits { world := createWorld } es g ∧
    restarts es = 0 ∧ 60 * shownTime es = 9 ∧
    ∀ i ∈ inputs es, i.mx = 1 ∧ i.my = 0 ∧ i.attack = false ∧ i.skill = false := by
  have hrun : (record (Game.step SKILL createWorld) Game.emits slowDisplay
      { world := (createWorld : World ℚ 5) }).map (fun p : List GameEvent × Game ℚ 5 =>
        (restarts p.1, 60 * shownTime p.1, decide (∀ i ∈ inputs p.1,
          i.mx = 1 ∧ i.my = 0 ∧ i.attack = false ∧ i.skill = false))) =
      some (0, 9, true) := by decide +kernel
  obtain ⟨⟨es, g⟩, hrec, hproj⟩ := Option.map_eq_some_iff.mp hrun
  simp only [Prod.mk.injEq, decide_eq_true_eq] at hproj
  exact ⟨es, g, traced_of_record hrec, hproj⟩

theorem solo_paced_slow : ∃ (es : List GameEvent) (g : Game ℚ 5),
    Traced (Game.step SKILL createWorld) Game.emits { world := createWorld } es g ∧
    g.world = runs SKILL createWorld (fun _ => { mx := 1 }) 9 := by
  obtain ⟨es, g, htraced, hagain, hshown, hinputs⟩ := slow_record
  have hworld := (solo_paced htraced).2.2.1 hagain (fun _ => { mx := 1 }) fun t input ht => by
    obtain ⟨hmx, hmy, hattack, hskill⟩ := hinputs input (List.mem_of_getElem? ht)
    cases input
    cases hmx
    cases hmy
    cases hattack
    cases hskill
    rfl
  rw [hshown] at hworld
  exact ⟨es, g, htraced, by simpa using hworld⟩

end BeltServer.Logic
