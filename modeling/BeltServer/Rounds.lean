import BeltServer.Turns

/-!
# One step, actor by actor

The player takes the first turn of the state loop, so a step is: the decisions, the turn of
the player, the blows of the orcs on the player and the own turns of the orcs, separation.
-/

namespace BeltServer.Logic

set_option autoImplicit false

variable {R : Type} {n : Nat}

/-- What never changes about the actor at index `j`: its id, its kind, and that no orc is in
an assault. -/
structure Role (j : Fin (n + 1)) (a : Actor R) : Prop where
  id : a.id = j.val + 1
  kind : a.kind = if j = 0 then .player else .orc
  skill : j ≠ 0 → a.state ≠ .skill

def Cast (actors : Actors R n) : Prop := ∀ j, Role j (actors j)

namespace Cast

variable {actors : Actors R n}

theorem injective (h : Cast actors) : Function.Injective fun j => (actors j).id := by
  intro j k heq
  dsimp only at heq
  rw [(h j).id, (h k).id] at heq
  omega

theorem player (h : Cast actors) : (actors 0).kind = .player := by
  rw [(h 0).kind, if_pos rfl]

theorem orc (h : Cast actors) {j : Fin (n + 1)} (hj : j ≠ 0) : (actors j).kind = .orc := by
  rw [(h j).kind, if_neg hj]

end Cast

theorem Role.moved {j : Fin (n + 1)} {a b : Actor R} (h : Role j a) (hab : Moved a b) :
    Role j b := by
  obtain ⟨_, _, rfl⟩ := hab
  exact ⟨h.id, h.kind, h.skill⟩

theorem Role.ownTurn {j : Fin (n + 1)} {a : Actor R} (h : Role j a) : Role j (ownTurn a) := by
  unfold Logic.ownTurn settled
  split
  · refine ⟨?_, ?_, ?_⟩
    · rw [setState_id]
      exact h.id
    · rw [setState_kind]
      exact h.kind
    · intro _
      rw [setState_state]
      exact State.noConfusion
  · exact ⟨h.id, h.kind, h.skill⟩

theorem dashEnd_role (sk : Skill) {a : Actor R} {j : Fin (n + 1)} (h : Role j a) :
    Role j (dashEnd sk a) := by
  unfold dashEnd
  split
  · refine ⟨(setState_id ..).trans h.id, (setState_kind ..).trans h.kind, fun _ => ?_⟩
    rw [setState_state]
    exact State.noConfusion
  · exact h

theorem createWorldOf_cast [NatCast R] (spawns : Fin n → R × R) :
    Cast (createWorldOf spawns).actors := by
  intro j
  cases j using Fin.cases with
  | zero => exact ⟨rfl, rfl, fun h => absurd rfl h⟩
  | succ i => exact ⟨rfl, (if_neg (Fin.succ_ne_zero i)).symm, fun _ => State.noConfusion⟩

/-! ### Decisions -/

/-- What a decision does to the state of an actor. -/
inductive Decision (a b : Actor R) : Prop where
  | waits : canAct a = false → b.state = a.state → b.stateTick = a.stateTick →
      b.hitDone = a.hitDone → b.hitIds = a.hitIds → b.lastSkillHit = a.lastSkillHit →
      Decision a b
  | moves : canAct a = true → canAct b = true → (a.hitIds = [] → b.hitIds = []) → Decision a b
  | attacks : canAct a = true → b.state = .attack → b.stateTick = 0 → b.hitDone = false →
      b.hitIds = [] → Decision a b
  | assaults : canAct a = true → b.state = .skill → b.stateTick = 0 → b.hitIds = [] →
      b.lastSkillHit = 0 → Decision a b

structure Decided (a b : Actor R) : Prop where
  id : b.id = a.id
  kind : b.kind = a.kind
  hp : b.hp = a.hp
  maxHp : b.maxHp = a.maxHp
  decision : Decision a b

theorem setState_hitIds {a : Actor R} (st : State) (h : a.hitIds = []) :
    (setState a st).hitIds = [] := by
  unfold setState
  split
  · exact h
  · rfl

theorem setState_fresh (a : Actor R) (h : canAct a = true) (st : State) (hidle : st ≠ .idle)
    (hwalk : st ≠ .walk) :
    (setState a st).stateTick = 0 ∧ (setState a st).hitDone = false ∧
      (setState a st).hitIds = [] := by
  have hne : a.state ≠ st := by
    rcases (canAct_iff a).mp h with hst | hst
    · rw [hst]
      exact hidle.symm
    · rw [hst]
      exact hwalk.symm
  rw [setState_ne a st hne]
  exact ⟨rfl, rfl, rfl⟩

theorem canAct_moved (e : Actor R) (x y : R) (face : Int) {st : State} (h : st = .idle ∨ st = .walk) :
    canAct (setState { e with x := x, y := y, face := face } st) = true := by
  rw [canAct_iff, setState_state]
  exact h

/-- What every choice has in common. -/
theorem decision_moves {a : Actor R} (h : canAct a = true) (x y : R) (face : Int) {st : State}
    (hst : st = .idle ∨ st = .walk) :
    Decided a (setState { a with x := x, y := y, face := face } st) := by
  refine ⟨setState_id .., setState_kind .., setState_hp .., setState_maxHp .., ?_⟩
  exact .moves h (canAct_moved a x y face hst) fun hids => setState_hitIds st hids

/-- Counting down the counters is no decision. -/
theorem Decided.counted {a b : Actor R} (cool skillCool think : Nat)
    (h : Decided { a with cool := cool, skillCool := skillCool, think := think } b) :
    Decided a b := by
  refine ⟨h.id, h.kind, h.hp, h.maxHp, ?_⟩
  cases h.decision with
  | waits hact hst htick hdone hids hhit => exact .waits hact hst htick hdone hids hhit
  | moves hact hmoves hids => exact .moves hact hmoves hids
  | attacks hact hst htick hdone hids => exact .attacks hact hst htick hdone hids
  | assaults hact hst htick hids hhit => exact .assaults hact hst htick hids hhit

section Struck

variable [Add R] [Mul R] [NatCast R] [IntCast R] [LT R] [DecidableLT R]

theorem Role.struck {j : Fin (n + 1)} {a : Actor R} (h : Role j a) (face dmg : Int) (knock : Nat) :
    Role j (struck face dmg knock a) := by
  refine ⟨?_, ?_, ?_⟩
  · rw [struck_id]
    exact h.id
  · rw [struck_kind]
    exact h.kind
  · intro _
    rw [struck_state]
    split
    · exact State.noConfusion
    · exact State.noConfusion

theorem Role.swung {j : Fin (n + 1)} {a t t' : Actor R} (h : Role j t) (hswung : Swung a t t') :
    Role j t' := by
  rcases hswung with rfl | ⟨_, _, _, _, _, rfl⟩
  · exact h
  · exact h.struck _ _ _

/-- What the orcs do to the player in one round: at most one of their blows cuts it. -/
def Touched (p p' : Actor R) : Prop :=
  p' = p ∨ (p.state ≠ .dead ∧ p.state ≠ .hurt ∧ ∃ face, p' = struck face 1 KNOCK_X p)

theorem Touched.trans {p q r : Actor R} (hpq : Touched p q) (hqr : Touched q r) : Touched p r := by
  rcases hpq with rfl | ⟨hdead, hhurt, face, rfl⟩
  · exact hqr
  · rcases hqr with rfl | ⟨hdead', hhurt', _⟩
    · exact Or.inr ⟨hdead, hhurt, face, rfl⟩
    · -- a player who was cut is dead or hurt
      rw [struck_state] at hdead' hhurt'
      split at hdead'
      · exact absurd rfl hdead'
      · rw [if_neg (by assumption)] at hhurt'
        exact absurd rfl hhurt'

end Struck

/-! ### The state loop -/

section Loop

variable [Add R] [Sub R] [Mul R] [Div R] [Neg R] [NatCast R] [IntCast R]
  [LE R] [LT R] [DecidableLE R] [DecidableLT R]
variable (sk : Skill) {actors : Actors R n}

theorem turn_orc (h : Cast actors) {i : Fin (n + 1)} (hi : i ≠ 0) :
    Cast (turn sk actors i) ∧ Touched (actors 0) (turn sk actors i 0) ∧
      ∀ j ≠ 0, turn sk actors i j = if j = i then ownTurn (actors j) else actors j := by
  have hskill := (h i).skill hi
  have hother (j : Fin (n + 1)) (hij : j ≠ i) := turn_other sk actors i hskill hij
  have horcs (j : Fin (n + 1)) (hj : j ≠ 0) :
      turn sk actors i j = if j = i then ownTurn (actors j) else actors j := by
    by_cases hij : j = i
    · rw [if_pos hij, hij]
      exact turn_self sk actors i hskill
    · rw [if_neg hij]
      rcases hother j hij with hsame | ⟨_, hkind, _⟩
      · exact hsame
      · exact absurd (by rw [h.orc hj]; exact (h.orc hi).symm) hkind
  refine ⟨fun j => ?_, ?_, horcs⟩
  · by_cases hij : j = i
    · rw [hij, turn_self sk actors i hskill]
      exact (h i).ownTurn
    · exact (h j).swung (hother j hij)
  · rcases hother 0 hi.symm with hsame | ⟨_, _, hdead, hhurt, hcut⟩
    · exact Or.inl hsame
    · exact Or.inr ⟨hdead, hhurt, hcut⟩

/-- The turns of some orcs. -/
theorem turns_orcs (l : List (Fin (n + 1))) (hl : l.Nodup) (hpos : ∀ i ∈ l, i ≠ 0)
    (h : Cast actors) :
    Cast (l.foldl (turn sk) actors) ∧ Touched (actors 0) (l.foldl (turn sk) actors 0) ∧
      ∀ j ≠ 0, l.foldl (turn sk) actors j = if j ∈ l then ownTurn (actors j) else actors j := by
  induction l generalizing actors with
  | nil => exact ⟨h, Or.inl rfl, fun j _ => (if_neg List.not_mem_nil).symm⟩
  | cons i l ih =>
    obtain ⟨hi, hl⟩ := List.nodup_cons.mp hl
    obtain ⟨hcast, htouched, hturn⟩ := turn_orc sk h (hpos i List.mem_cons_self)
    obtain ⟨hcast', htouched', hturns⟩ :=
      ih hl (fun k hk => hpos k (List.mem_cons_of_mem _ hk)) hcast
    refine ⟨hcast', htouched.trans htouched', fun j hj => ?_⟩
    rw [List.foldl_cons, hturns j hj, hturn j hj]
    by_cases hij : j = i
    · rw [hij, if_neg hi, if_pos rfl, if_pos List.mem_cons_self]
    · rw [if_neg hij]
      simp only [List.mem_cons, hij, false_or]

/-- The turn of the player: it cuts along its way, or strikes at most one blow. -/
theorem turn_player (h : Cast actors) :
    Cast (turn sk actors 0) ∧
      (((actors 0).state = .skill ∧ ∃ cut, DashTurn sk actors (turn sk actors 0) 0 cut) ∨
        ((actors 0).state ≠ .skill ∧ turn sk actors 0 0 = ownTurn (actors 0) ∧
          ∀ j ≠ 0, Swung (advance (actors 0)) (actors j) (turn sk actors 0 j))) := by
  by_cases hst : (actors 0).state = .skill
  · obtain ⟨cut, hdash⟩ := turn_skill sk actors 0 h.injective hst
    refine ⟨fun j => ?_, Or.inl ⟨hst, cut, hdash⟩⟩
    by_cases hj : j = 0
    · obtain ⟨x, hcaster⟩ := hdash.caster
      rw [hj, hcaster]
      exact dashEnd_role sk ⟨(h 0).id, (h 0).kind, fun h0 => absurd rfl h0⟩
    · rw [hdash.others j hj]
      split
      · exact (h j).struck _ _ _
      · exact h j
  · have hself := turn_self sk actors 0 hst
    have hother (j : Fin (n + 1)) (hj : j ≠ 0) := turn_other sk actors 0 hst hj
    refine ⟨fun j => ?_, Or.inr ⟨hst, hself, hother⟩⟩
    by_cases hj : j = 0
    · rw [hj, hself]
      exact (h 0).ownTurn
    · exact (h j).swung (hother j hj)

/-- The state loop after the decisions `u`, and separation: what becomes of each actor. -/
structure Round (u z : Actors R n) : Prop where
  player : ∃ p, Touched (turn sk u 0 0) p ∧ Moved p (z 0)
  orc : ∀ j ≠ 0, Moved (ownTurn (turn sk u 0 j)) (z j)

theorem round (h : Cast actors) :
    Cast (separate (progress sk actors)) ∧ Round sk actors (separate (progress sk actors)) := by
  have hnodup : ((List.finRange n).map Fin.succ).Nodup :=
    (List.nodup_finRange n).map (Fin.succ_injective n)
  have hpos (i : Fin (n + 1)) (hi : i ∈ (List.finRange n).map Fin.succ) : i ≠ 0 := by
    obtain ⟨k, _, rfl⟩ := List.mem_map.mp hi
    exact Fin.succ_ne_zero k
  obtain ⟨hcast, htouched, hturns⟩ := turns_orcs sk _ hnodup hpos (turn_player sk h).1
  have hprogress : progress sk actors =
      ((List.finRange n).map Fin.succ).foldl (turn sk) (turn sk actors 0) := by
    unfold progress
    rw [List.finRange_succ, List.foldl_cons]
  rw [hprogress]
  refine ⟨fun j => (hcast j).moved (separate_moved _ j), ⟨_, htouched, separate_moved _ 0⟩, ?_⟩
  intro j hj
  have hturn := hturns j hj
  rw [if_pos] at hturn
  · rw [← hturn]
    exact separate_moved _ j
  · obtain ⟨k, rfl⟩ := Fin.exists_succ_eq_of_ne_zero hj
    exact List.mem_map.mpr ⟨k, List.mem_finRange k, rfl⟩

end Loop

/-! ### Choices -/

section Choices

variable [Add R] [Mul R] [Div R] [NatCast R] [IntCast R]

theorem playerMove_cases (p : Actor R) (input : Input) :
    ∃ x y face st, (st = .idle ∨ st = .walk) ∧
      playerMove p input = setState { p with x := x, y := y, face := face } st := by
  unfold playerMove
  split
  · exact ⟨_, _, _, _, Or.inr rfl, rfl⟩
  · exact ⟨p.x, p.y, p.face, _, Or.inl rfl, rfl⟩

variable [Neg R] [LT R] [DecidableLT R]

theorem orcApproach_cases (e : Actor R) (dx dy : R) :
    ∃ x y face st, (st = .idle ∨ st = .walk) ∧
      orcApproach e dx dy = setState { e with x := x, y := y, face := face } st := by
  refine ⟨_, _, _, _, ?_, rfl⟩
  split
  · exact Or.inr rfl
  · exact Or.inl rfl

variable [Sub R] [LE R] [DecidableLE R]

/-- The branches of an orc's choice. -/
theorem orcChoice_cases (p e : Actor R) :
    (canAct e = false ∧ orcChoice p e = e) ∨
    (canAct e = true ∧ e.cool = 0 ∧ e.think = 0 ∧ ∃ face, orcChoice p e =
      { setState { e with face := face } .attack with
        cool := ATK_TICKS + ATK_COOLDOWN, think := E_THINK_GAP }) ∨
    (canAct e = true ∧ ∃ x y face st, (st = .idle ∨ st = .walk) ∧
      orcChoice p e = setState { e with x := x, y := y, face := face } st) := by
  unfold orcChoice
  cases hact : canAct e with
  | false => exact Or.inl ⟨rfl, rfl⟩
  | true =>
    apply Or.inr
    rw [if_neg (by simp)]
    split
    · exact Or.inr ⟨rfl, e.x, e.y, e.face, _, Or.inl rfl, rfl⟩
    dsimp only
    split
    · split
      · rename_i hready
        exact Or.inl ⟨rfl, hready.1, hready.2, _, rfl⟩
      · exact Or.inr ⟨rfl, e.x, e.y, _, _, Or.inl rfl, rfl⟩
    · exact Or.inr ⟨rfl, orcApproach_cases e _ _⟩

theorem orcChoice_decided (p e : Actor R) : Decided e (orcChoice p e) := by
  rcases orcChoice_cases p e with ⟨hact, heq⟩ | ⟨hact, _, _, face, heq⟩ | ⟨hact, x, y, face, st, hst, heq⟩
  · rw [heq]
    exact ⟨rfl, rfl, rfl, rfl, .waits hact rfl rfl rfl rfl rfl⟩
  · obtain ⟨htick, hdone, hids⟩ :=
      setState_fresh { e with face := face } hact .attack (by decide) (by decide)
    rw [heq]
    exact ⟨setState_id .., setState_kind .., setState_hp .., setState_maxHp ..,
      .attacks hact (setState_state ..) htick hdone hids⟩
  · rw [heq]
    exact decision_moves hact x y face hst

theorem orcAct_decided (p e : Actor R) (he : e.kind = .orc) : Decided e (orcAct p e) := by
  unfold orcAct
  split
  · rename_i hdead
    rw [he] at hdead
    refine ⟨rfl, rfl, rfl, rfl, .waits ?_ rfl rfl rfl rfl rfl⟩
    simp_all [canAct]
  · exact (orcChoice_decided p _).counted

/-- No decision of an orc starts an assault. -/
theorem orcAct_skill (p e : Actor R) (he : e.state ≠ .skill) : (orcAct p e).state ≠ .skill := by
  unfold orcAct
  split
  · exact he
  rcases orcChoice_cases p { e with cool := e.cool - 1, think := e.think - 1 } with
    ⟨_, heq⟩ | ⟨_, _, _, face, heq⟩ | ⟨_, x, y, face, st, hst, heq⟩
  · rw [heq]
    exact he
  · rw [heq]
    dsimp only
    rw [setState_state]
    exact State.noConfusion
  · rw [heq, setState_state]
    rcases hst with rfl | rfl
    · exact State.noConfusion
    · exact State.noConfusion

variable [BEq R]

/-- The branches of the player's choice. -/
theorem playerChoice_cases (sk : Skill) (actors : List (Actor R)) (p : Actor R) (input : Input) :
    (canAct p = false ∧ playerChoice sk actors p input = p) ∨
    (canAct p = true ∧ playerChoice sk actors p input = startAssault sk actors p) ∨
    (canAct p = true ∧ p.cool = 0 ∧ playerChoice sk actors p input = startAttack p) ∨
    (canAct p = true ∧ playerChoice sk actors p input = playerMove p input) := by
  unfold playerChoice
  cases hact : canAct p with
  | false => exact Or.inl ⟨rfl, rfl⟩
  | true =>
    apply Or.inr
    simp only [Bool.true_and]
    split
    · exact Or.inl ⟨trivial, rfl⟩
    split
    · rename_i hattack
      rw [Bool.and_eq_true, beq_iff_eq] at hattack
      exact Or.inr (Or.inl ⟨trivial, hattack.2, rfl⟩)
    · exact Or.inr (Or.inr ⟨trivial, rfl⟩)

theorem playerChoice_decided (sk : Skill) (actors : List (Actor R)) (p : Actor R) (input : Input) :
    Decided p (playerChoice sk actors p input) := by
  rcases playerChoice_cases sk actors p input with
    ⟨hact, heq⟩ | ⟨hact, heq⟩ | ⟨hact, _, heq⟩ | ⟨hact, heq⟩
  · rw [heq]
    exact ⟨rfl, rfl, rfl, rfl, .waits hact rfl rfl rfl rfl rfl⟩
  · obtain ⟨htick, _, hids⟩ := setState_fresh p hact .skill (by decide) (by decide)
    rw [heq]
    unfold startAssault
    exact ⟨setState_id .., setState_kind .., setState_hp .., setState_maxHp ..,
      .assaults hact (setState_state ..) htick hids rfl⟩
  · obtain ⟨htick, hdone, hids⟩ := setState_fresh p hact .attack (by decide) (by decide)
    rw [heq]
    unfold startAttack
    exact ⟨setState_id .., setState_kind .., setState_hp .., setState_maxHp ..,
      .attacks hact (setState_state ..) htick hdone hids⟩
  · obtain ⟨x, y, face, st, hst, hmove⟩ := playerMove_cases p input
    rw [heq, hmove]
    exact decision_moves hact x y face hst

theorem playerAct_decided (sk : Skill) (actors : List (Actor R)) (p : Actor R) (input : Input) :
    Decided p (playerAct sk actors p input) := by
  unfold playerAct
  split
  · rename_i hdead
    refine ⟨rfl, rfl, rfl, rfl, .waits ?_ rfl rfl rfl rfl rfl⟩
    simp [canAct, hdead]
  · exact (playerChoice_decided sk actors _ input).counted

section Step
variable (sk : Skill) {actors : Actors R n} (input : Input)

theorem decisions_player (h : Cast actors) :
    decisions sk actors input 0 = playerAct sk (List.ofFn actors) (actors 0) input := by
  unfold decisions
  rw [Function.update_self]
  unfold orcAct
  apply if_pos
  rw [(playerAct_decided sk _ (actors 0) input).kind, h.player]
  exact Or.inl Kind.noConfusion

theorem decisions_orc {j : Fin (n + 1)} (hj : j ≠ 0) :
    decisions sk actors input j =
      orcAct (playerAct sk (List.ofFn actors) (actors 0) input) (actors j) := by
  unfold decisions
  rw [Function.update_of_ne hj]

theorem decisions_decided (h : Cast actors) (j : Fin (n + 1)) :
    Decided (actors j) (decisions sk actors input j) := by
  by_cases hj : j = 0
  · rw [hj, decisions_player sk input h]
    exact playerAct_decided ..
  · rw [decisions_orc sk input hj]
    exact orcAct_decided _ _ (h.orc hj)

theorem decisions_cast (h : Cast actors) : Cast (decisions sk actors input) := by
  intro j
  have hdecided := decisions_decided sk input h j
  refine ⟨hdecided.id.trans (h j).id, hdecided.kind.trans (h j).kind, fun hj => ?_⟩
  rw [decisions_orc sk input hj]
  exact orcAct_skill _ _ ((h j).skill hj)

end Step

/-! ### Runs -/

theorem runs_cast (sk : Skill) (spawns : Fin n → R × R) (inp : Nat → Input) (t : Nat) :
    Cast (runs sk (createWorldOf spawns) inp t).actors := by
  induction t with
  | zero => exact createWorldOf_cast spawns
  | succ t ih => exact (round sk (decisions_cast sk (inp t) ih)).1

end Choices

end BeltServer.Logic
