import BeltServer.Rounds

/-!
# Life and state

Every phase of a step keeps the health of an actor within its bounds and its state within
its time, and only lets it get older and weaker.
-/

namespace BeltServer.Logic

set_option autoImplicit false

variable {R : Type} {n : Nat}

/-- How long a state keeps an actor from acting. -/
def lockOut (sk : Skill) : State → Nat
  | .attack => ATK_TICKS
  | .skill => sk.ticks
  | .hurt => HURT_TICKS
  | _ => 0

structure Fit (sk : Skill) (a : Actor R) : Prop where
  nonneg : 0 ≤ a.hp
  le_max : a.hp ≤ a.maxHp
  dead : a.hp = 0 ↔ a.state = .dead
  locked : canAct a = false → a.state ≠ .dead → a.stateTick < lockOut sk a.state

/-- The second actor is the first one later in its life. -/
structure Evolves (a b : Actor R) : Prop where
  id : b.id = a.id
  kind : b.kind = a.kind
  maxHp : b.maxHp = a.maxHp
  hp : b.hp ≤ a.hp
  dead : a.state = .dead → b.state = .dead

namespace Evolves

theorem refl (a : Actor R) : Evolves a a := ⟨rfl, rfl, rfl, Int.le_refl _, fun h => h⟩

theorem trans {a b c : Actor R} (hab : Evolves a b) (hbc : Evolves b c) : Evolves a c :=
  ⟨hbc.id.trans hab.id, hbc.kind.trans hab.kind, hbc.maxHp.trans hab.maxHp,
    Int.le_trans hbc.hp hab.hp, fun h => hbc.dead (hab.dead h)⟩

end Evolves

/-- A change that keeps the invariant of an actor and is part of its life. -/
def Lives (sk : Skill) (a b : Actor R) : Prop := Fit sk a → Fit sk b ∧ Evolves a b

namespace Lives

variable {sk : Skill}

theorem refl (a : Actor R) : Lives sk a a := fun h => ⟨h, .refl a⟩

theorem trans {a b c : Actor R} (hab : Lives sk a b) (hbc : Lives sk b c) : Lives sk a c := by
  intro ha
  obtain ⟨hb, hevolves⟩ := hab ha
  obtain ⟨hc, hevolves'⟩ := hbc hb
  exact ⟨hc, hevolves.trans hevolves'⟩

theorem moved {a b : Actor R} (h : Moved a b) : Lives sk a b := by
  obtain ⟨x, y, rfl⟩ := h
  intro ha
  exact ⟨⟨ha.nonneg, ha.le_max, ha.dead, ha.locked⟩, ⟨rfl, rfl, rfl, Int.le_refl _, fun h => h⟩⟩

/-- A change of state without a change of health. -/
theorem of_state {a b : Actor R} (hid : b.id = a.id) (hkind : b.kind = a.kind) (hhp : b.hp = a.hp)
    (hmax : b.maxHp = a.maxHp) (hdead : b.state = .dead ↔ a.state = .dead)
    (hlocked : Fit sk a → canAct b = false → b.state ≠ .dead → b.stateTick < lockOut sk b.state) :
    Lives sk a b := by
  intro ha
  refine ⟨⟨?_, ?_, ?_, hlocked ha⟩, ⟨hid, hkind, hmax, hhp.le, hdead.mpr⟩⟩
  · rw [hhp]
    exact ha.nonneg
  · rw [hhp, hmax]
    exact ha.le_max
  · rw [hhp, hdead]
    exact ha.dead

end Lives

theorem canAct_alive {a : Actor R} (h : canAct a = true) : a.state ≠ .dead := by
  rcases (canAct_iff a).mp h with hst | hst
  · rw [hst]
    exact State.noConfusion
  · rw [hst]
    exact State.noConfusion

theorem Decided.lives {sk : Skill} (hticks : 0 < sk.ticks) {a b : Actor R} (h : Decided a b) :
    Lives sk a b := by
  have halive (hact : canAct a = true) {st : State} (hst : b.state = st) (hne : st ≠ .dead) :
      b.state = .dead ↔ a.state = .dead := by
    rw [hst]
    exact ⟨fun hdead => absurd hdead hne, fun hdead => absurd hdead (canAct_alive hact)⟩
  cases h.decision with
  | waits hact hst htick _ _ _ =>
    refine .of_state h.id h.kind h.hp h.maxHp (by rw [hst]) fun ha _ hdead => ?_
    rw [hst] at hdead ⊢
    rw [htick]
    exact ha.locked hact hdead
  | moves hact hmoves _ =>
    refine .of_state h.id h.kind h.hp h.maxHp (halive hact rfl (canAct_alive hmoves)) fun _ hno => ?_
    rw [hmoves] at hno
    cases hno
  | attacks hact hst htick _ _ =>
    refine .of_state h.id h.kind h.hp h.maxHp (halive hact hst State.noConfusion) fun _ _ _ => ?_
    rw [hst, htick]
    exact Nat.zero_lt_succ _
  | assaults hact hst htick _ _ =>
    refine .of_state h.id h.kind h.hp h.maxHp (halive hact hst State.noConfusion) fun _ _ _ => ?_
    rw [hst, htick]
    exact hticks

theorem idle_lives {sk : Skill} {a b : Actor R} (hst : a.state ≠ .dead)
    (hid : b.id = a.id) (hkind : b.kind = a.kind) (hhp : b.hp = a.hp)
    (hmax : b.maxHp = a.maxHp) : Lives sk a (setState b .idle) := by
  apply Lives.of_state ((setState_id ..).trans hid) ((setState_kind ..).trans hkind)
    ((setState_hp ..).trans hhp) ((setState_maxHp ..).trans hmax)
  · rw [setState_state]
    exact ⟨fun h => State.noConfusion h, fun h => absurd h hst⟩
  · intro _ hact
    rw [← Bool.not_eq_true, canAct_iff, setState_state] at hact
    exact absurd (Or.inl rfl) hact

theorem ownTurn_lives {sk : Skill} {a : Actor R} (hskill : a.state ≠ .skill) :
    Lives sk a (ownTurn a) := by
  unfold ownTurn settled
  split
  · rename_i hend
    refine idle_lives ?_ rfl rfl rfl rfl
    rcases hend with ⟨hst, _⟩ | ⟨hst, _⟩
    · change a.state = _ at hst
      rw [hst]
      exact State.noConfusion
    · change a.state = _ at hst
      rw [hst]
      exact State.noConfusion
  · rename_i hgoes
    refine .of_state rfl rfl rfl rfl Iff.rfl fun _ hact hdead => ?_
    change a.state ≠ _ at hdead
    change a.stateTick + 1 < lockOut sk a.state
    change ¬(a.state = _ ∧ _ ≤ a.stateTick + 1 ∨ a.state = _ ∧ _ ≤ a.stateTick + 1) at hgoes
    cases hst : a.state with
    | attack =>
      rw [hst] at hgoes
      change a.stateTick + 1 < ATK_TICKS
      by_contra hlast
      exact hgoes (Or.inl ⟨rfl, by omega⟩)
    | hurt =>
      rw [hst] at hgoes
      change a.stateTick + 1 < HURT_TICKS
      by_contra hlast
      exact hgoes (Or.inr ⟨rfl, by omega⟩)
    | skill => exact absurd hst hskill
    | dead => exact absurd hst hdead
    | idle => simp [canAct, landed, advance, hst] at hact
    | walk => simp [canAct, landed, advance, hst] at hact

theorem dashEnd_lives {sk : Skill} {a : Actor R} (hskill : a.state = .skill) (x : R)
    (ids : List Nat) : Lives sk a (dashEnd sk (dashed a x ids)) := by
  unfold dashEnd
  split
  · refine idle_lives ?_ rfl rfl rfl rfl
    rw [hskill]
    exact State.noConfusion
  · rename_i hgoes
    refine .of_state rfl rfl rfl rfl Iff.rfl fun _ _ _ => ?_
    change a.stateTick + 1 < lockOut sk a.state
    rw [hskill]
    exact not_le.mp hgoes

/-- An actor that cannot act is, after its own turn, free again or one tick further. -/
def Passes (a b : Actor R) : Prop :=
  b.hp = a.hp ∧ (canAct b = true ∨ (b.state = a.state ∧ b.stateTick = a.stateTick + 1))

theorem canAct_idle (a : Actor R) : canAct (setState a .idle) = true := by
  rw [canAct_iff, setState_state]
  exact Or.inl rfl

theorem ownTurn_passes (a : Actor R) : Passes a (ownTurn a) := by
  unfold ownTurn settled
  split
  · exact ⟨setState_hp .., Or.inl (canAct_idle _)⟩
  · exact ⟨rfl, Or.inr ⟨rfl, rfl⟩⟩

theorem dashEnd_passes (sk : Skill) (a : Actor R) (x : R) (ids : List Nat) :
    Passes a (dashEnd sk (dashed a x ids)) := by
  unfold dashEnd
  split
  · exact ⟨setState_hp .., Or.inl (canAct_idle _)⟩
  · exact ⟨rfl, Or.inr ⟨rfl, rfl⟩⟩

theorem Passes.moved {a b c : Actor R} (h : Passes a b) (hbc : Moved b c) : Passes a c := by
  obtain ⟨_, _, rfl⟩ := hbc
  exact h

theorem Decided.passes {a b c : Actor R} (h : Decided a b) (hact : canAct a = false)
    (hbc : Passes b c) : Passes a c := by
  unfold Passes
  cases h.decision with
  | waits _ hst htick _ _ _ =>
    rw [← h.hp, ← hst, ← htick]
    exact hbc
  | moves hyes _ _ => rw [hact] at hyes; cases hyes
  | attacks hyes _ _ _ _ => rw [hact] at hyes; cases hyes
  | assaults hyes _ _ _ _ => rw [hact] at hyes; cases hyes

theorem alive_hp {sk : Skill} {t : Actor R} (ht : Fit sk t) (halive : t.state ≠ .dead) : 0 < t.hp := by
  have hne : t.hp ≠ 0 := fun h => halive (ht.dead.mp h)
  have hnonneg := ht.nonneg
  omega

theorem createWorldOf_fit [NatCast R] (spawns : Fin n → R × R) (sk : Skill) (j : Fin (n + 1)) :
    Fit sk ((createWorldOf spawns).actors j) := by
  have hnew (id : Nat) (kind : Kind) (x y : R) (hp : Int) (hhp : 0 < hp) :
      Fit sk (makeActor id kind x y hp) :=
    ⟨hhp.le, Int.le_refl hp, ⟨fun h0 => absurd h0 hhp.ne', fun hst => State.noConfusion hst⟩,
      fun hact => Bool.noConfusion hact⟩
  cases j using Fin.cases with
  | zero => exact hnew _ _ _ _ _ (by decide)
  | succ i => exact hnew _ _ _ _ _ (by decide)

section Struck

variable [Add R] [Mul R] [NatCast R] [IntCast R] [LT R] [DecidableLT R]

section Cut
variable {sk : Skill} {t : Actor R} (ht : Fit sk t) (halive : t.state ≠ .dead) (face : Int)
  {dmg : Int} (knock : Nat)
include ht halive

/-- The health of a living target falls by the damage of the cut, as far as there is any. -/
theorem struck_falls (hdmg : 0 < dmg) :
    (struck face dmg knock t).hp < t.hp ∧ (struck face dmg knock t).hp = t.hp - Min.min dmg t.hp := by
  have hpos := alive_hp ht halive
  rw [struck_hp]
  split
  · omega
  · omega

end Cut

theorem struck_tick (face dmg : Int) (knock : Nat) (t : Actor R)
    (hstate : (struck face dmg knock t).state = .hurt) :
    (struck face dmg knock t).stateTick = if t.state = .hurt then t.stateTick else 0 := by
  rw [struck_state] at hstate
  split at hstate
  · cases hstate
  unfold struck
  rw [if_neg (by assumption)]
  unfold setState
  dsimp only
  split
  · rfl
  · rfl

theorem struck_lives {sk : Skill} {t : Actor R} (halive : t.state ≠ .dead) (face : Int) {dmg : Int}
    (hdmg : 0 < dmg) (knock : Nat) : Lives sk t (struck face dmg knock t) := by
  intro ht
  obtain ⟨hlt, _⟩ := struck_falls ht halive face knock hdmg
  have hpos := alive_hp ht halive
  have hmax := ht.le_max
  refine ⟨⟨?_, ?_, ?_, fun hact hdead => ?_⟩,
    ⟨struck_id .., struck_kind .., struck_maxHp .., hlt.le, fun h => absurd h halive⟩⟩
  · rw [struck_hp]
    split
    · omega
    · omega
  · rw [struck_maxHp]
    omega
  · rw [struck_hp, struck_state]
    split
    · exact ⟨fun _ => rfl, fun _ => rfl⟩
    · refine ⟨fun h => ?_, fun h => State.noConfusion h⟩
      omega
  · have hhurt : (struck face dmg knock t).state = .hurt := by
      rw [struck_state] at hdead ⊢
      split at hdead
      · exact absurd rfl hdead
      · exact if_neg (by assumption)
    rw [struck_tick face dmg knock t hhurt, hhurt]
    split
    · rename_i hst
      have hlocked := ht.locked (by simp [canAct, hst]) halive
      rw [hst] at hlocked
      exact hlocked
    · exact Nat.zero_lt_succ _

theorem Swung.lives {sk : Skill} {a t t' : Actor R} (h : Swung a t t') : Lives sk t t' := by
  rcases h with rfl | ⟨_, _, hdead, _, _, rfl⟩
  · exact .refl _
  · exact struck_lives hdead _ Int.one_pos _

theorem Touched.lives {sk : Skill} {p p' : Actor R} (h : Touched p p') : Lives sk p p' := by
  rcases h with rfl | ⟨hdead, _, _, rfl⟩
  · exact .refl _
  · exact struck_lives hdead _ Int.one_pos _

end Struck

/-! ### One step -/

/-- The values of `SKILL` that the life of the actors rests on. -/
structure Skill.Sound (sk : Skill) : Prop where
  ticks : 0 < sk.ticks
  dmg : 0 < sk.dmg

theorem SKILL_sound : SKILL.Sound := ⟨by decide, by decide⟩

section Turn

variable [Add R] [Sub R] [Mul R] [Div R] [Neg R] [NatCast R] [IntCast R]
  [LE R] [LT R] [DecidableLE R] [DecidableLT R]

theorem turn_player_hp (sk : Skill) {actors : Actors R n} (h : Cast actors) :
    (turn sk actors 0 0).hp = (actors 0).hp := by
  rcases (turn_player sk h).2 with ⟨_, cut, hdash⟩ | ⟨_, hself, _⟩
  · obtain ⟨x, hcaster⟩ := hdash.caster
    rw [hcaster]
    exact (dashEnd_passes ..).1
  · rw [hself]
    exact (ownTurn_passes _).1

variable {sk : Skill} (hsk : sk.Sound) {actors : Actors R n} (h : Cast actors)
include hsk h

theorem turn_player_lives (j : Fin (n + 1)) : Lives sk (actors j) (turn sk actors 0 j) := by
  rcases (turn_player sk h).2 with ⟨hskill, cut, hdash⟩ | ⟨hskill, hself, hother⟩
  · by_cases hj : j = 0
    · obtain ⟨x, hcaster⟩ := hdash.caster
      rw [hj, hcaster]
      exact dashEnd_lives hskill x _
    · rw [hdash.others j hj]
      split
      · rename_i hcut
        exact struck_lives (hdash.enemy j hcut).2.1 _ (Int.natCast_pos.mpr hsk.dmg) _
      · exact .refl _
  · by_cases hj : j = 0
    · rw [hj, hself]
      exact ownTurn_lives hskill
    · exact (hother j hj).lives

theorem round_lives {z : Actors R n} (hround : Round sk actors z) (j : Fin (n + 1)) :
    Lives sk (actors j) (z j) := by
  have hturn := turn_player_lives hsk h j
  by_cases hj : j = 0
  · subst hj
    obtain ⟨p, htouched, hmoved⟩ := hround.player
    exact (hturn.trans htouched.lives).trans (.moved hmoved)
  · have hskill := ((turn_player sk h).1 j).skill hj
    exact (hturn.trans (ownTurn_lives hskill)).trans (.moved (hround.orc j hj))

end Turn

section Arithmetic

variable [Add R] [Sub R] [Mul R] [Div R] [Neg R] [NatCast R] [IntCast R]
  [LE R] [LT R] [BEq R] [DecidableLE R] [DecidableLT R]

section Step
variable {sk : Skill} (hsk : sk.Sound) {w : World R n} (h : Cast w.actors) (input : Input)
include hsk h

theorem step_lives (j : Fin (n + 1)) : Lives sk (w.actors j) ((step sk w input).actors j) := by
  have hcast := decisions_cast sk input h
  exact ((decisions_decided sk input h j).lives hsk.ticks).trans
    (round_lives hsk hcast (round sk hcast).2 j)

/-- One step of an actor: unless it is struck, a decision and then its turn. -/
theorem step_passes (hfit : ∀ j, Fit sk (w.actors j)) (j : Fin (n + 1)) :
    ((step sk w input).actors j).hp < (w.actors j).hp ∨
      Passes (decisions sk w.actors input j) ((step sk w input).actors j) := by
  have hcast := decisions_cast sk input h
  have hround := (round sk hcast).2
  have hdecided := decisions_decided sk input h j
  have hfit' := (hdecided.lives hsk.ticks (hfit j)).1
  have hplayer := turn_player sk hcast
  have hlives := turn_player_lives hsk hcast j hfit'
  have hfalls {a b : Actor R} (ha : Fit sk a) (hhp : a.hp ≤ (w.actors j).hp)
      (halive : a.state ≠ .dead) {face dmg : Int} {knock : Nat} (hdmg : 0 < dmg)
      (hb : b.hp = (struck face dmg knock a).hp) : b.hp < (w.actors j).hp := by
    rw [hb]
    exact (struck_falls ha halive face knock hdmg).1.trans_le hhp
  by_cases hj : j = 0
  · subst hj
    have hpasses : Passes (decisions sk w.actors input 0)
        (turn sk (decisions sk w.actors input) 0 0) := by
      rcases hplayer.2 with ⟨_, cut, hdash⟩ | ⟨_, hself, _⟩
      · obtain ⟨x, hcaster⟩ := hdash.caster
        rw [hcaster]
        exact dashEnd_passes ..
      · rw [hself]
        exact ownTurn_passes _
    obtain ⟨p, hsame | ⟨hdead, _, face, hcut⟩, hmoved⟩ := hround.player
    · rw [hsame] at hmoved
      exact Or.inr (hpasses.moved hmoved)
    · apply Or.inl
      have hhp : ((step sk w input).actors 0).hp = p.hp := hmoved.keeps fun _ _ _ => rfl
      exact hfalls hlives.1 (by rw [hpasses.1, hdecided.hp]) hdead Int.one_pos
        (hhp.trans (congrArg Actor.hp hcut))
  · have hmoved := hround.orc j hj
    have hhp : ((step sk w input).actors j).hp = (turn sk (decisions sk w.actors input) 0 j).hp :=
      (hmoved.keeps fun _ _ _ => rfl).trans (ownTurn_passes _).1
    have hsame (heq : turn sk (decisions sk w.actors input) 0 j = decisions sk w.actors input j) :
        Passes (decisions sk w.actors input j) ((step sk w input).actors j) := by
      rw [heq] at hmoved
      exact (ownTurn_passes _).moved hmoved
    rcases hplayer.2 with ⟨_, cut, hdash⟩ | ⟨_, _, hother⟩
    · have hturn := hdash.others j hj
      split at hturn
      · rename_i hcut
        apply Or.inl
        exact hfalls hfit' hdecided.hp.le (hdash.enemy j hcut).2.1 (Int.natCast_pos.mpr hsk.dmg)
          (hhp.trans (by rw [hturn]))
      · exact Or.inr (hsame hturn)
    · rcases hother j hj with hturn | ⟨_, _, hdead, _, face, hturn⟩
      · exact Or.inr (hsame hturn)
      · apply Or.inl
        exact hfalls hfit' hdecided.hp.le hdead Int.one_pos (hhp.trans (by rw [hturn]))

end Step

/-! ### Every run -/

section Run
variable {sk : Skill} (hsk : sk.Sound) (spawns : Fin n → R × R) (inp : Nat → Input)
include hsk

theorem runs_fit (t : Nat) (j : Fin (n + 1)) :
    Fit sk ((runs sk (createWorldOf spawns) inp t).actors j) := by
  induction t with
  | zero => exact createWorldOf_fit spawns sk j
  | succ t ih => exact (step_lives hsk (runs_cast sk spawns inp t) (inp t) j ih).1

theorem runs_evolves {s t : Nat} (hst : s ≤ t) (j : Fin (n + 1)) :
    Evolves ((runs sk (createWorldOf spawns) inp s).actors j)
      ((runs sk (createWorldOf spawns) inp t).actors j) := by
  induction t, hst using Nat.le_induction with
  | base => exact .refl _
  | succ t _ ih =>
    exact ih.trans (step_lives hsk (runs_cast sk spawns inp t) (inp t) j
      (runs_fit hsk spawns inp t j)).2

/-- An actor that stays unable to act and is not struck is in one state, tick after tick. -/
theorem runs_locked (t k : Nat) (j : Fin (n + 1))
    (hlocked : ∀ m ≤ k, canAct ((runs sk (createWorldOf spawns) inp (t + m)).actors j) = false)
    (hhp : ∀ m ≤ k, ((runs sk (createWorldOf spawns) inp (t + m)).actors j).hp =
      ((runs sk (createWorldOf spawns) inp t).actors j).hp) :
    ((runs sk (createWorldOf spawns) inp (t + k)).actors j).state =
        ((runs sk (createWorldOf spawns) inp t).actors j).state ∧
      ((runs sk (createWorldOf spawns) inp (t + k)).actors j).stateTick =
        ((runs sk (createWorldOf spawns) inp t).actors j).stateTick + k := by
  induction k with
  | zero => exact ⟨rfl, rfl⟩
  | succ k ih =>
    obtain ⟨hstate, htick⟩ :=
      ih (fun m hm => hlocked m (Nat.le_succ_of_le hm)) fun m hm => hhp m (Nat.le_succ_of_le hm)
    have hcast := runs_cast sk spawns inp (t + k)
    have hpasses := step_passes hsk hcast (inp (t + k)) (runs_fit hsk spawns inp (t + k)) j
    have hdecided := decisions_decided sk (inp (t + k)) hcast j
    have hhp' := (hhp (k + 1) (Nat.le_refl _)).trans (hhp k (Nat.le_succ k)).symm
    rcases hpasses with hfall | hpasses
    · exact absurd hhp' hfall.ne
    obtain ⟨_, hfree | ⟨hstate', htick'⟩⟩ := hdecided.passes (hlocked k (Nat.le_succ k)) hpasses
    · exact absurd hfree (Bool.eq_false_iff.mp (hlocked (k + 1) (Nat.le_refl _)))
    · exact ⟨hstate'.trans hstate, htick'.trans (by rw [htick, Nat.add_assoc])⟩

end Run

theorem runs_cleared {spawns : Fin (n + 1) → R × R} (sk : Skill) (inp : Nat → Input) (t : Nat) :
    (runs sk (createWorldOf spawns) inp t).cleared = true ↔
      ∀ j, ((runs sk (createWorldOf spawns) inp t).actors j).kind = .orc →
        ((runs sk (createWorldOf spawns) inp t).actors j).state = .dead := by
  cases t with
  | zero =>
    refine ⟨fun h => Bool.noConfusion h, fun h => ?_⟩
    -- the first orc is idle
    exact State.noConfusion (h 1 rfl)
  | succ t =>
    refine decide_eq_true_iff.trans (forall_congr' fun j => ?_)
    exact Decidable.imp_iff_not_or.symm

/-- In every run: health within its bounds, no health exactly when dead, no orc in an assault,
no state beyond its time; health never rises and death is for good; cleared exactly when every
orc is dead, and for good; and an actor that is alive, cannot act and is not struck is free
again within the time of its state. -/
theorem life_and_state (spawns : Fin (n + 1) → R × R) (inp : Nat → Input) :
    let w := runs SKILL (createWorldOf spawns) inp
    (∀ t j, let a := (w t).actors j
      0 ≤ a.hp ∧ a.hp ≤ a.maxHp ∧ (a.hp = 0 ↔ a.state = .dead) ∧
      (a.kind = .orc → a.state ≠ .skill) ∧
      (a.state = .attack → a.stateTick < ATK_TICKS) ∧
      (a.state = .skill → a.stateTick < SKILL.ticks) ∧
      (a.state = .hurt → a.stateTick < HURT_TICKS)) ∧
    (∀ s t j, s ≤ t →
      ((w t).actors j).hp ≤ ((w s).actors j).hp ∧
      (((w s).actors j).state = .dead →
        ((w t).actors j).state = .dead ∧ ((w t).actors j).hp = 0)) ∧
    (∀ t, (w t).cleared = true ↔
      ∀ j, ((w t).actors j).kind = .orc → ((w t).actors j).state = .dead) ∧
    (∀ s t, s ≤ t → (w s).cleared = true → (w t).cleared = true) ∧
    (∀ t k j, ((w t).actors j).state ≠ .dead →
      (∀ m ≤ k, canAct ((w (t + m)).actors j) = false) →
      (∀ m ≤ k, ((w (t + m)).actors j).hp = ((w t).actors j).hp) →
      k < lockOut SKILL ((w t).actors j).state) := by
  have hfit := runs_fit SKILL_sound spawns inp
  have hevolves {s t : Nat} (hst : s ≤ t) := runs_evolves SKILL_sound spawns inp hst
  refine ⟨fun t j => ?_, fun s t j hst => ⟨(hevolves hst j).hp, fun hdead => ?_⟩,
    fun t => runs_cleared SKILL inp t, fun s t hst => ?_, fun t k j halive hlocked hhp => ?_⟩
  · have hlocked {st : State} (hst : ((runs SKILL (createWorldOf spawns) inp t).actors j).state = st)
        (hne : st ≠ .idle ∧ st ≠ .walk ∧ st ≠ .dead) :
        ((runs SKILL (createWorldOf spawns) inp t).actors j).stateTick < lockOut SKILL st := by
      rw [← hst] at hne ⊢
      apply (hfit t j).locked _ hne.2.2
      rw [← Bool.not_eq_true, canAct_iff]
      exact fun h => h.elim hne.1 hne.2.1
    refine ⟨(hfit t j).nonneg, (hfit t j).le_max, (hfit t j).dead, fun hkind => ?_,
      fun hst => hlocked hst (by decide), fun hst => hlocked hst (by decide),
      fun hst => hlocked hst (by decide)⟩
    have hcast := runs_cast SKILL spawns inp t
    apply (hcast j).skill
    intro hj
    rw [hj, hcast.player] at hkind
    cases hkind
  · have hdead' := (hevolves hst j).dead hdead
    exact ⟨hdead', (hfit t j).dead.mpr hdead'⟩
  · rw [runs_cleared, runs_cleared]
    intro hall j hkind
    rw [(hevolves hst j).kind] at hkind
    exact (hevolves hst j).dead (hall j hkind)
  · obtain ⟨hstate, htick⟩ := runs_locked SKILL_sound spawns inp t k j hlocked hhp
    have hbound := (hfit (t + k) j).locked (hlocked k (Nat.le_refl k)) (by rw [hstate]; exact halive)
    rw [hstate, htick] at hbound
    omega

/-! ### The stagger of the player -/

section Stagger
variable (sk : Skill) {w : World R n} (h : Cast w.actors) (input : Input)
include h

/-- The player loses nothing in a step, or one point and its footing. -/
theorem step_player_hp (hsk : sk.Sound) (hfit : ∀ j, Fit sk (w.actors j)) :
    ((step sk w input).actors 0).hp = (w.actors 0).hp ∨
      (((step sk w input).actors 0).hp = (w.actors 0).hp - 1 ∧
        (((step sk w input).actors 0).state = .dead ∨
          (((step sk w input).actors 0).state = .hurt ∧
            ((step sk w input).actors 0).stateTick = 0))) := by
  have hcast := decisions_cast sk input h
  have hhp : (turn sk (decisions sk w.actors input) 0 0).hp = (w.actors 0).hp :=
    (turn_player_hp sk hcast).trans (decisions_decided sk input h 0).hp
  obtain ⟨p, htouched, hmoved⟩ := (round sk hcast).2.player
  have hz : (step sk w input).actors 0 = separate (progress sk (decisions sk w.actors input)) 0 := rfl
  obtain ⟨x, y, hmoved⟩ := hmoved
  rw [hz, hmoved]
  rcases htouched with rfl | ⟨hdead, hhurt, face, rfl⟩
  · exact Or.inl hhp
  · apply Or.inr
    dsimp only
    rw [struck_hp, struck_state, (struck_fresh face 1 KNOCK_X _ hhurt hdead).1, hhp]
    have hfit' := turn_player_lives hsk hcast 0
      ((decisions_decided sk input h 0).lives hsk.ticks (hfit 0)).1
    have hpos := alive_hp hfit'.1 hdead
    rw [hhp] at hpos
    split
    · exact ⟨by omega, Or.inl rfl⟩
    · exact ⟨rfl, Or.inr ⟨rfl, rfl⟩⟩

/-- While its stagger lasts nothing can cut the player. -/
theorem step_player_hurt (hhurt : (w.actors 0).state = .hurt)
    (htick : (w.actors 0).stateTick + 1 < HURT_TICKS) :
    ((step sk w input).actors 0).hp = (w.actors 0).hp ∧
      ((step sk w input).actors 0).state = .hurt ∧
      ((step sk w input).actors 0).stateTick = (w.actors 0).stateTick + 1 := by
  have hcast := decisions_cast sk input h
  have hdecided := decisions_decided sk input h 0
  have hact : canAct (w.actors 0) = false := by simp [canAct, hhurt]
  obtain ⟨hst, hcount⟩ : (decisions sk w.actors input 0).state = .hurt ∧
      (decisions sk w.actors input 0).stateTick = (w.actors 0).stateTick := by
    cases hdecided.decision with
    | waits _ hst hcount _ _ _ => exact ⟨hst.trans hhurt, hcount⟩
    | moves hyes _ _ => rw [hact] at hyes; cases hyes
    | attacks hyes _ _ _ _ => rw [hact] at hyes; cases hyes
    | assaults hyes _ _ _ _ => rw [hact] at hyes; cases hyes
  have hself : turn sk (decisions sk w.actors input) 0 0 =
      advance (decisions sk w.actors input 0) := by
    rw [turn_self sk _ 0 (by rw [hst]; exact State.noConfusion)]
    unfold ownTurn settled
    rw [if_neg, landed_still]
    · exact fun h => State.noConfusion (hst.symm.trans h)
    · rintro (⟨hattack, _⟩ | ⟨_, hlast⟩)
      · exact State.noConfusion (hst.symm.trans hattack)
      · have hlast : HURT_TICKS ≤ (decisions sk w.actors input 0).stateTick + 1 := hlast
        omega
  obtain ⟨p, htouched, x, y, hmoved⟩ := (round sk hcast).2.player
  have hz : (step sk w input).actors 0 = separate (progress sk (decisions sk w.actors input)) 0 := rfl
  rw [hz, hmoved]
  rw [hself] at htouched
  rcases htouched with rfl | ⟨_, hstill, _⟩
  · exact ⟨hdecided.hp, hst, congrArg (· + 1) hcount⟩
  · exact absurd hst hstill

end Stagger

/-- However many orcs have the player in range: at a tick where the health of the player falls
it falls by one, and two such ticks are at least a stagger apart. -/
theorem no_stun_kill (spawns : Fin n → R × R) (inp : Nat → Input) :
    let p t := (runs SKILL (createWorldOf spawns) inp t).actors 0
    (∀ t, (p (t + 1)).hp < (p t).hp → (p (t + 1)).hp = (p t).hp - 1) ∧
    (∀ s t, s < t → (p (s + 1)).hp < (p s).hp → (p (t + 1)).hp < (p t).hp → s + HURT_TICKS ≤ t) := by
  have hcast := runs_cast SKILL spawns inp
  have hfit := runs_fit SKILL_sound spawns inp
  have hstep (t : Nat) := step_player_hp SKILL (hcast t) (inp t) SKILL_sound (hfit t)
  refine ⟨fun t hfall => ?_, fun s t hst hfalls hfallt => ?_⟩
  · rcases hstep t with hsame | ⟨hone, _⟩
    · exact absurd hsame hfall.ne
    · exact hone
  · -- from the fall at `s` on, the player is dead, or hurt and counting
    have hdown (k : Nat) (hk : k < HURT_TICKS) :
        ((runs SKILL (createWorldOf spawns) inp (s + 1 + k)).actors 0).state = .dead ∨
          (((runs SKILL (createWorldOf spawns) inp (s + 1 + k)).actors 0).state = .hurt ∧
            ((runs SKILL (createWorldOf spawns) inp (s + 1 + k)).actors 0).stateTick = k) := by
      induction k with
      | zero =>
        rcases hstep s with hsame | ⟨_, hdown⟩
        · exact absurd hsame hfalls.ne
        · exact hdown
      | succ k ih =>
        rcases ih (Nat.lt_of_succ_lt hk) with hdead | ⟨hhurt, htick⟩
        · exact Or.inl ((runs_evolves SKILL_sound spawns inp (Nat.le_succ _) 0).dead hdead)
        · obtain ⟨_, hhurt', htick'⟩ := step_player_hurt SKILL (hcast (s + 1 + k))
            (inp (s + 1 + k)) hhurt (by rw [htick]; exact hk)
          exact Or.inr ⟨hhurt', htick'.trans (by rw [htick])⟩
    by_contra hearly
    obtain ⟨k, rfl⟩ := Nat.exists_eq_add_of_le (Nat.succ_le_of_lt hst)
    rcases hdown k (by omega) with hdead | ⟨hhurt, htick⟩
    · have hzero := (hfit (s + 1 + k) 0).dead.mpr hdead
      have hnonneg := (hfit (s + 1 + k + 1) 0).nonneg
      rw [hzero] at hfallt
      exact absurd hfallt (not_lt.mpr hnonneg)
    · have hstill := step_player_hurt SKILL (hcast (s + 1 + k)) (inp (s + 1 + k)) hhurt
        (by rw [htick]; omega)
      exact absurd hstill.1 hfallt.ne

end Arithmetic

end BeltServer.Logic
