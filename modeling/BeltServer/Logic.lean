import Mathlib.Data.Fintype.Basic
import Mathlib.Data.List.FinRange
import Mathlib.Logic.Function.Basic

/-!
# The rules of the game

`logic.js`: the actors, their decisions, hits, the assault and the step of the world.
Coordinates are over any type with the operations the code uses and without laws, so that
what is proved here without positions is proved of doubles as of exact numbers.
-/

namespace BeltServer.Logic

set_option autoImplicit false

inductive State where
  | idle | walk | attack | hurt | dead | skill
  deriving DecidableEq, Repr

inductive Kind where
  | player | orc
  deriving DecidableEq, Repr

def TICK_HZ : Nat := 60
def WORLD_W : Nat := 1600
def DEPTH_MIN : Nat := 0
def DEPTH_MAX : Nat := 165
def P_SPEED_X : Nat := 215
def P_SPEED_Y : Nat := 132
def E_SPEED_X : Nat := 98
def E_SPEED_Y : Nat := 62
def BODY_HALF_W : Nat := 17
def BODY_HALF_D : Nat := 9
def ATK_TICKS : Nat := 18
def ATK_HIT_TICK : Nat := 7
def ATK_RANGE : Nat := 64
def ATK_BACK : Nat := 8
def ATK_DEPTH : Nat := 26
def ATK_COOLDOWN : Nat := 4
def HURT_TICKS : Nat := 12
def KNOCK_X : Nat := 12
def E_ATK_RANGE : Nat := 52
def E_ATK_DEPTH : Nat := 22
def E_THINK_GAP : Nat := 70

/-- The object `SKILL`; a trial run may change its values. -/
structure Skill where
  ticks : Nat
  blinkTicks : Nat
  searchRange : Nat
  searchDepth : Nat
  passBy : Nat
  minDist : Nat
  defaultDist : Nat
  range : Nat
  depth : Nat
  dmg : Nat
  cooldown : Nat
  knock : Nat

def SKILL : Skill where
  ticks := 24
  blinkTicks := 10
  searchRange := 720
  searchDepth := 40
  passBy := 90
  minDist := 340
  defaultDist := 340
  range := 50
  depth := 30
  dmg := 2
  cooldown := 0
  knock := 20

structure Actor (R : Type) where
  id : Nat
  kind : Kind
  x : R
  y : R
  hp : Int
  maxHp : Int
  face : Int
  state : State
  stateTick : Nat
  hitDone : Bool
  hitIds : List Nat
  cool : Nat
  skillCool : Nat
  lastSkillHit : Nat
  dashFrom : R
  dashTo : R
  think : Nat

structure Input where
  mx : Int := 0
  my : Int := 0
  attack : Bool := false
  skill : Bool := false

/-- The actors in array order; the first one is `w.player`. -/
abbrev Actors (R : Type) (n : Nat) := Fin (n + 1) → Actor R

structure World (R : Type) (n : Nat) where
  tick : Nat
  actors : Actors R n
  cleared : Bool

variable {R : Type} [Add R] [Sub R] [Mul R] [Div R] [Neg R] [NatCast R] [IntCast R]
  [LE R] [LT R] [BEq R] [DecidableLE R] [DecidableLT R] {n : Nat}

def TICK_DT : R := (1 : Nat) / (TICK_HZ : R)

def diagonal : R := (7071067811865476 : Nat) / ((10000000000000000 : Nat) : R)

def clamp (v lo hi : R) : R := if v < lo then lo else if hi < v then hi else v

def mathAbs (v : R) : R := if v < (0 : Nat) then -v else v

def mathMin (v w : R) : R := if v ≤ w then v else w

def mathMax (v w : R) : R := if v ≤ w then w else v

/-- The horizontal border of the stage, 20 to `WORLD_W - 20`. -/
def clampX (v : R) : R := clamp v (20 : Nat) (WORLD_W - 20 : Nat)

def clampY (v : R) : R := clamp v DEPTH_MIN DEPTH_MAX

def makeActor (id : Nat) (kind : Kind) (x y : R) (hp : Int) : Actor R where
  id := id
  kind := kind
  x := x
  y := y
  hp := hp
  maxHp := hp
  face := 1
  state := .idle
  stateTick := 0
  hitDone := false
  hitIds := []
  cool := 0
  skillCool := 0
  lastSkillHit := 0
  dashFrom := (0 : Nat)
  dashTo := (0 : Nat)
  think := 0

/-- `createWorld` over a table of orc positions. -/
def createWorldOf (spawns : Fin n → R × R) : World R n where
  tick := 0
  actors := Fin.cons (makeActor 1 .player (180 : Nat) (100 : Nat) 10)
    fun i => makeActor (i.val + 2) .orc (spawns i).1 (spawns i).2 3
  cleared := false

def SPAWNS : Fin 5 → R × R
  | 0 => ((520 : Nat), (40 : Nat))
  | 1 => ((700 : Nat), (120 : Nat))
  | 2 => ((980 : Nat), (70 : Nat))
  | 3 => ((1180 : Nat), (140 : Nat))
  | 4 => ((1330 : Nat), (55 : Nat))

def createWorld : World R 5 := createWorldOf SPAWNS

/-- Entering the state one is in does nothing. -/
def setState (a : Actor R) (st : State) : Actor R :=
  if a.state = st then a
  else { a with state := st, stateTick := 0, hitDone := false, hitIds := [] }

def canAct (a : Actor R) : Bool := a.state = .idle ∨ a.state = .walk

/-! ### Separation -/

/-- The states that body separation passes over. -/
def passes (a : Actor R) : Bool := a.state = .dead ∨ a.state = .skill

/-- The body of the pair loop of `separate`. -/
def pushApart (actors : Actors R n) (i j : Fin (n + 1)) : Actors R n :=
  let a := actors i
  let b := actors j
  let dx := b.x - a.x
  let dy := b.y - a.y
  let ox := (BODY_HALF_W : R) * (2 : Nat) - mathAbs dx
  let oy := (BODY_HALF_D : R) * (2 : Nat) - mathAbs dy
  let sign (v : R) : R := if (0 : Nat) ≤ v then (1 : Nat) else -((1 : Nat) : R)
  if ox ≤ (0 : Nat) ∨ oy ≤ (0 : Nat) then actors
  else if ox < oy then
    let push := sign dx * ox * ((1 : Nat) / ((2 : Nat) : R))
    Function.update (Function.update actors i { a with x := a.x - push }) j { b with x := b.x + push }
  else
    let push := sign dy * oy * ((1 : Nat) / ((2 : Nat) : R))
    Function.update (Function.update actors i { a with y := a.y - push }) j { b with y := b.y + push }

/-- The inner loop: actor `i` against every later one. -/
def separateFrom (i : Fin (n + 1)) (actors : Actors R n) : Actors R n :=
  if passes (actors i) then actors
  else ((List.finRange (n + 1)).filter (fun j => i < j)).foldl
    (fun actors j => if passes (actors j) then actors else pushApart actors i j) actors

def apart (actors : Actors R n) : Actors R n :=
  (List.finRange (n + 1)).foldl (fun actors i => separateFrom i actors) actors

/-- Body separation and the border of the stage. -/
def separate (actors : Actors R n) : Actors R n := fun j =>
  { apart actors j with x := clampX (apart actors j).x, y := clampY (apart actors j).y }

/-! ### Hits -/

/-- What a cut does to its target, the common end of `resolveHit` and `resolveDash`. -/
def struck (face dmg : Int) (knock : Nat) (t : Actor R) : Actor R :=
  if t.hp - dmg ≤ 0 then setState { t with hp := 0 } .dead
  else
    { setState { t with hp := t.hp - dmg } .hurt with
      x := clampX (t.x + (face : R) * (knock : R))
      face := -face }

/-- One target of the loop of `resolveHit`, the attacker itself apart. -/
def hitAt (attacker : Actor R) (x0 x1 : R) (depth : Nat) (dmg : Int) (t : Actor R) : Actor R :=
  if t.state = .dead then t
  else if t.kind = attacker.kind then t
  else if t.state = .hurt then t
  else if t.x < x0 ∨ x1 < t.x then t
  else if (depth : R) < mathAbs (t.y - attacker.y) then t
  else struck attacker.face dmg KNOCK_X t

/-- An attack of actor `i`. The loop changes the target it looks at and reads nothing of the
others, so it is a map over the targets. -/
def resolveHit (actors : Actors R n) (i : Fin (n + 1)) (range depth : Nat) (dmg : Int) :
    Actors R n :=
  let attacker := actors i
  let x0 := if 0 < attacker.face then attacker.x - (ATK_BACK : R) else attacker.x - (range : R)
  let x1 := if 0 < attacker.face then attacker.x + (range : R) else attacker.x + (ATK_BACK : R)
  fun j => if j = i then actors j else hitAt attacker x0 x1 depth dmg (actors j)

/-- One candidate of `findAssaultTarget` against the best so far. The caster is of its own
kind, so it is passed over like its allies. -/
def consider (sk : Skill) (caster : Actor R) (best : Option (Actor R) × R) (t : Actor R) :
    Option (Actor R) × R :=
  if t.state = .dead ∨ t.kind = caster.kind then best
  else
    let d := (t.x - caster.x) * (caster.face : R)
    if d ≤ (0 : Nat) ∨ (sk.searchRange : R) < d then best
    else if (sk.searchDepth : R) < mathAbs (t.y - caster.y) then best
    else if best.2 < d ∨ ((d == best.2) = true ∧ best.1.any (fun b => t.id < b.id) = true) then
      (some t, d)
    else best

def findAssaultTarget (sk : Skill) (actors : List (Actor R)) (caster : Actor R) :
    Option (Actor R) :=
  (actors.foldl (consider sk caster) (none, -((1 : Nat) : R))).1

/-- One target of the loop of `resolveDash`, with the number of hits so far. -/
def dashAt (sk : Skill) (i : Fin (n + 1)) (x0 x1 : R) (s : Actors R n × Nat) (j : Fin (n + 1)) :
    Actors R n × Nat :=
  let caster := s.1 i
  let t := s.1 j
  if j = i ∨ t.state = .dead then s
  else if t.kind = caster.kind then s
  else if t.id ∈ caster.hitIds then s
  else if t.x < x0 ∨ x1 < t.x then s
  else if (sk.depth : R) < mathAbs (t.y - caster.y) then s
  else
    (Function.update (Function.update s.1 i { caster with hitIds := caster.hitIds ++ [t.id] }) j
      (struck caster.face sk.dmg sk.knock t), s.2 + 1)

/-- The cut of one tick of the assault of actor `i`, over the way from `fromX` to the tip. -/
def resolveDash (sk : Skill) (actors : Actors R n) (i : Fin (n + 1)) (fromX : R) :
    Actors R n × Nat :=
  let caster := actors i
  let tip := caster.x + (caster.face : R) * (sk.range : R)
  (List.finRange (n + 1)).foldl (dashAt sk i (mathMin fromX tip) (mathMax fromX tip)) (actors, 0)

/-! ### The step -/

def playerMove (p : Actor R) (input : Input) : Actor R :=
  if input.mx ≠ 0 ∨ input.my ≠ 0 then
    let k : R := if input.mx ≠ 0 ∧ input.my ≠ 0 then diagonal else (1 : Nat)
    setState
      { p with
        x := p.x + (input.mx : R) * (P_SPEED_X : R) * TICK_DT * k
        y := p.y + (input.my : R) * (P_SPEED_Y : R) * TICK_DT * k
        face := if input.mx ≠ 0 then (if input.mx > 0 then 1 else -1) else p.face } .walk
  else setState p .idle

/-- The start of an assault; the way is settled here, once. -/
def startAssault (sk : Skill) (actors : List (Actor R)) (p : Actor R) : Actor R :=
  let p :=
    { setState p .skill with skillCool := sk.cooldown, cool := sk.ticks, lastSkillHit := 0 }
  let want : R := match findAssaultTarget sk actors p with
    | some tg => (tg.x - p.x) * (p.face : R) + (sk.passBy : R)
    | none => (sk.defaultDist : R)
  let dist := if (sk.minDist : R) < want then want else (sk.minDist : R)
  { p with dashFrom := p.x, dashTo := clampX (p.x + (p.face : R) * dist) }

def startAttack (p : Actor R) : Actor R :=
  { setState p .attack with cool := ATK_TICKS + ATK_COOLDOWN }

/-- What the player does with its input, its counters being counted down. -/
def playerChoice (sk : Skill) (actors : List (Actor R)) (p : Actor R) (input : Input) : Actor R :=
  if canAct p && input.skill && p.skillCool == 0 then startAssault sk actors p
  else if canAct p && input.attack && p.cool == 0 then startAttack p
  else if canAct p then playerMove p input
  else p

def playerAct (sk : Skill) (actors : List (Actor R)) (p : Actor R) (input : Input) : Actor R :=
  if p.state = .dead then p
  else playerChoice sk actors { p with cool := p.cool - 1, skillCool := p.skillCool - 1 } input

/-- The direction of a step towards something `v` away, if it is more than `gap` away. -/
def toward (v : R) (gap : Nat) : Int :=
  if (gap : R) < mathAbs v then (if (0 : Nat) < v then 1 else -1) else 0

/-- An orc that is out of range lines up in depth and comes closer. -/
def orcApproach (e : Actor R) (dx dy : R) : Actor R :=
  let my := toward dy 6
  let mx := toward dx (E_ATK_RANGE - 12)
  let k : R := if mx ≠ 0 ∧ my ≠ 0 then diagonal else (1 : Nat)
  setState
    { e with
      x := e.x + (mx : R) * (E_SPEED_X : R) * TICK_DT * k
      y := e.y + (my : R) * (E_SPEED_Y : R) * TICK_DT * k
      face := if mx ≠ 0 then (if mx > 0 then 1 else -1) else e.face }
    (if mx ≠ 0 ∨ my ≠ 0 then .walk else .idle)

/-- What an orc `e` does about the player `p`, its counters being counted down. -/
def orcChoice (p e : Actor R) : Actor R :=
  if !canAct e then e
  else if p.state = .dead then setState e .idle
  else
    let dx := p.x - e.x
    let dy := p.y - e.y
    if mathAbs dx ≤ (E_ATK_RANGE : R) ∧ mathAbs dy ≤ (E_ATK_DEPTH : R) then
      let e := { e with face := if (0 : Nat) ≤ dx then 1 else -1 }
      if e.cool = 0 ∧ e.think = 0 then
        { setState e .attack with cool := ATK_TICKS + ATK_COOLDOWN, think := E_THINK_GAP }
      else setState e .idle
    else orcApproach e dx dy

def orcAct (p e : Actor R) : Actor R :=
  if e.kind ≠ .orc ∨ e.state = .dead then e
  else orcChoice p { e with cool := e.cool - 1, think := e.think - 1 }

/-- The decisions of a step: the player, then every orc. -/
def decisions (sk : Skill) (actors : Actors R n) (input : Input) : Actors R n :=
  let p := playerAct sk (List.ofFn actors) (actors 0) input
  fun j => orcAct p (Function.update actors 0 p j)

def advance (a : Actor R) : Actor R := { a with stateTick := a.stateTick + 1 }

def leave (actors : Actors R n) (i : Fin (n + 1)) : Actors R n :=
  Function.update actors i (setState (actors i) .idle)

/-- Whether an attacker lets its blow land now. -/
def strikes (a : Actor R) : Bool :=
  a.state = .attack ∧ a.hitDone = false ∧ ATK_HIT_TICK ≤ a.stateTick

def blow (actors : Actors R n) (i : Fin (n + 1)) : Actors R n :=
  if strikes (actors i) then
    let actors := Function.update actors i { actors i with hitDone := true }
    if (actors i).kind = .player then resolveHit actors i ATK_RANGE ATK_DEPTH 1
    else resolveHit actors i E_ATK_RANGE E_ATK_DEPTH 1
  else actors

/-- The caster within its blink, at the place of its `stateTick`. -/
def blinkTo (sk : Skill) (a : Actor R) : Actor R :=
  { a with
    x := a.dashFrom + (a.dashTo - a.dashFrom) * ((a.stateTick : R) / (sk.blinkTicks : R)) }

/-- A tick of the blink of actor `i`: it moves on and cuts what lies on the way. -/
def blink (sk : Skill) (actors : Actors R n) (i : Fin (n + 1)) : Actors R n :=
  let cut := resolveDash sk (Function.update actors i (blinkTo sk (actors i))) i (actors i).x
  let a := cut.1 i
  Function.update cut.1 i { a with lastSkillHit := a.lastSkillHit + cut.2 }

/-- The turn of actor `i` in the state loop, its `stateTick` being counted. -/
def act (sk : Skill) (actors : Actors R n) (i : Fin (n + 1)) : Actors R n :=
  match (actors i).state with
  | .attack =>
    let actors := blow actors i
    if ATK_TICKS ≤ (actors i).stateTick then leave actors i else actors
  | .skill =>
    let actors := if (actors i).stateTick ≤ sk.blinkTicks then blink sk actors i else actors
    if sk.ticks ≤ (actors i).stateTick then leave actors i else actors
  | .hurt => if HURT_TICKS ≤ (actors i).stateTick then leave actors i else actors
  | _ => actors

def turn (sk : Skill) (actors : Actors R n) (i : Fin (n + 1)) : Actors R n :=
  act sk (Function.update actors i (advance (actors i))) i

/-- The state loop: every actor takes its turn, in array order. -/
def progress (sk : Skill) (actors : Actors R n) : Actors R n :=
  (List.finRange (n + 1)).foldl (turn sk) actors

def step (sk : Skill) (w : World R n) (input : Input) : World R n :=
  let actors := separate (progress sk (decisions sk w.actors input))
  { tick := w.tick + 1
    actors := actors
    cleared := decide (∀ j, (actors j).kind ≠ .orc ∨ (actors j).state = .dead) }

/-- The world after `t` steps with the inputs `inp 0`, `inp 1`, .. -/
def runs (sk : Skill) (w : World R n) (inp : Nat → Input) : Nat → World R n
  | 0 => w
  | t + 1 => step sk (runs sk w inp t) (inp t)

end BeltServer.Logic
