import BeltServer.Assault
import BeltServer.Lib.Cooldown

/-!
# The cadence of attacks

An entry into an attack leads to at most one blow, seven ticks into it; the counters of an
actor keep its entries apart whatever interrupts them.
-/

namespace BeltServer.Logic

set_option autoImplicit false

variable {R : Type} {n : Nat}

/-! ### What an actor does to itself -/

theorem canAct_not_attack {a : Actor R} (hact : canAct a = true) : a.state ≠ .attack := by
  intro hst
  simp [canAct, hst] at hact

theorem ownTurn_attack {a : Actor R} (hst : (ownTurn a).state = .attack) :
    a.state = .attack ∧ (ownTurn a).stateTick = a.stateTick + 1 ∧
      (ownTurn a).hitDone = (strikes (advance a) || a.hitDone) := by
  unfold ownTurn settled at hst ⊢
  split at hst
  · rw [setState_state] at hst
    cases hst
  · rw [if_neg (by assumption)]
    exact ⟨hst, rfl, rfl⟩

theorem dashEnd_not_attack {sk : Skill} {a : Actor R} (hst : a.state = .skill) (x : R)
    (ids : List Nat) : (dashEnd sk (dashed a x ids)).state ≠ .attack := by
  unfold dashEnd
  split
  · rw [setState_state]
    exact State.noConfusion
  · change a.state ≠ _
    rw [hst]
    exact State.noConfusion

theorem struck_flag {a : Actor R} (hst : a.state = .attack) :
    (strikes (advance a) || a.hitDone) = true ↔ a.hitDone = true ∨ ATK_HIT_TICK ≤ a.stateTick + 1 := by
  rw [Bool.or_eq_true, strikes_iff]
  cases hdone : a.hitDone with
  | true => exact ⟨fun _ => Or.inl rfl, fun _ => Or.inr rfl⟩
  | false =>
    constructor
    · rintro (⟨_, _, htick⟩ | hfalse)
      · exact Or.inr htick
      · exact Or.inl hfalse
    · rintro (hfalse | htick)
      · exact Or.inr hfalse
      · exact Or.inl ⟨hst, hdone, htick⟩

theorem ownTurn_counters (a : Actor R) :
    (ownTurn a).cool = a.cool ∧ (ownTurn a).think = a.think := by
  unfold ownTurn settled
  split
  · exact ⟨setState_cool .., setState_think ..⟩
  · exact ⟨rfl, rfl⟩

theorem dashEnd_counters (sk : Skill) (a : Actor R) (x : R) (ids : List Nat) :
    (dashEnd sk (dashed a x ids)).cool = a.cool ∧ (dashEnd sk (dashed a x ids)).think = a.think := by
  unfold dashEnd
  split
  · exact ⟨setState_cool .., setState_think ..⟩
  · exact ⟨rfl, rfl⟩

theorem struck_not_attack [Add R] [Mul R] [NatCast R] [IntCast R] [LT R] [DecidableLT R]
    (face dmg : Int) (knock : Nat) (t : Actor R) : (struck face dmg knock t).state ≠ .attack := by
  rw [struck_state]
  split
  · exact State.noConfusion
  · exact State.noConfusion

/-! ### When a turn comes -/

section Before

variable [Add R] [Sub R] [Mul R] [Div R] [Neg R] [NatCast R] [IntCast R]
  [LE R] [LT R] [DecidableLE R] [DecidableLT R]

def before (sk : Skill) (actors : Actors R n) (i : Fin (n + 1)) : Actors R n :=
  ((List.finRange (n + 1)).take i.val).foldl (turn sk) actors

variable (sk : Skill) {actors : Actors R n}

theorem before_player (actors : Actors R n) : before sk actors 0 = actors := rfl

theorem before_orc (h : Cast actors) {i : Fin (n + 1)} (hi : i ≠ 0) :
    before sk actors i i = turn sk actors 0 i := by
  obtain ⟨k, rfl⟩ := Fin.exists_succ_eq_of_ne_zero hi
  unfold before
  rw [Fin.val_succ, List.finRange_succ, List.take_succ_cons, List.foldl_cons, ← List.map_take]
  have hnodup : (((List.finRange n).take k.val).map Fin.succ).Nodup :=
    ((List.nodup_finRange n).sublist (List.take_sublist ..)).map (Fin.succ_injective n)
  have hpos (j : Fin (n + 1)) (hj : j ∈ ((List.finRange n).take k.val).map Fin.succ) : j ≠ 0 := by
    obtain ⟨m, _, rfl⟩ := List.mem_map.mp hj
    exact Fin.succ_ne_zero m
  obtain ⟨_, _, hturns⟩ := turns_orcs sk _ hnodup hpos (turn_player sk h).1
  rw [hturns _ hi, if_neg]
  intro hmem
  obtain ⟨m, hm, heq⟩ := List.mem_map.mp hmem
  rw [Fin.succ_injective n heq] at hm
  obtain ⟨p, hp, hget⟩ := List.mem_iff_getElem.mp hm
  rw [List.length_take] at hp
  rw [List.getElem_take, List.getElem_finRange] at hget
  have hval := congrArg Fin.val hget
  simp only [Fin.val_cast] at hval
  omega

/-- An actor that is in an attack when its turn comes has not been struck since its decision. -/
theorem before_attack (h : Cast actors) {i : Fin (n + 1)}
    (hst : (before sk actors i i).state = .attack) : before sk actors i i = actors i := by
  by_cases hi : i = 0
  · rw [hi, before_player]
  · rw [before_orc sk h hi] at hst ⊢
    rcases (turn_player sk h).2 with ⟨_, cut, hdash⟩ | ⟨_, _, hother⟩
    · rw [hdash.others i hi] at hst ⊢
      split at hst
      · exact absurd hst (struck_not_attack _ _ _ _)
      · exact if_neg (by assumption)
    · rcases hother i hi with hsame | ⟨_, _, _, _, face, hcut⟩
      · exact hsame
      · rw [hcut] at hst
        exact absurd hst (struck_not_attack _ _ _ _)

end Before

variable [Add R] [Sub R] [Mul R] [Div R] [Neg R] [NatCast R] [IntCast R]
  [LE R] [LT R] [BEq R] [DecidableLE R] [DecidableLT R]

def enters (sk : Skill) (w : World R n) (input : Input) (i : Fin (n + 1)) : Prop :=
  (w.actors i).state ≠ .attack ∧ (decisions sk w.actors input i).state = .attack

def hits (sk : Skill) (w : World R n) (input : Input) (i : Fin (n + 1)) : Prop :=
  strikes (advance (before sk (decisions sk w.actors input) i i)) = true

/-- Whether actor `i` starts an assault in the step; only the player does. -/
def assaults (sk : Skill) (w : World R n) (input : Input) (i : Fin (n + 1)) : Prop :=
  (w.actors i).state ≠ .skill ∧ (decisions sk w.actors input i).state = .skill

/-! ### One attack -/

section Step
variable {sk : Skill} {w : World R n} (h : Cast w.actors) (input : Input) {i : Fin (n + 1)}
include h

theorem step_attack_turn (hst : ((step sk w input).actors i).state = .attack) :
    Moved (ownTurn (before sk (decisions sk w.actors input) i i)) ((step sk w input).actors i) := by
  have hcast := decisions_cast sk input h
  have hround := (round sk hcast).2
  by_cases hi : i = 0
  · subst hi
    obtain ⟨p, htouched, hmoved⟩ := hround.player
    have hkeeps : ((step sk w input).actors 0).state = p.state := hmoved.keeps fun _ _ _ => rfl
    rw [hkeeps] at hst
    rcases htouched with rfl | ⟨_, _, face, rfl⟩
    · rcases (turn_player sk hcast).2 with ⟨hskill, cut, hdash⟩ | ⟨_, hself, _⟩
      · obtain ⟨x, hcaster⟩ := hdash.caster
        rw [hcaster] at hst
        exact absurd hst (dashEnd_not_attack hskill x _)
      · rw [hself] at hmoved
        exact hmoved
    · exact absurd hst (struck_not_attack _ _ _ _)
  · rw [before_orc sk hcast hi]
    exact hround.orc i hi

theorem step_attack (hst : ((step sk w input).actors i).state = .attack) :
    (decisions sk w.actors input i).state = .attack ∧
      before sk (decisions sk w.actors input) i i = decisions sk w.actors input i ∧
      ((step sk w input).actors i).stateTick = (decisions sk w.actors input i).stateTick + 1 ∧
      ((step sk w input).actors i).hitDone =
        (strikes (advance (decisions sk w.actors input i)) ||
          (decisions sk w.actors input i).hitDone) := by
  have hmoved := step_attack_turn h input hst
  have hstate : ((step sk w input).actors i).state =
      (ownTurn (before sk (decisions sk w.actors input) i i)).state :=
    hmoved.keeps fun _ _ _ => rfl
  rw [hstate] at hst
  obtain ⟨hattack, htick, hdone⟩ := ownTurn_attack hst
  have hsame := before_attack sk (decisions_cast sk input h) hattack
  rw [hsame] at hattack htick hdone hmoved
  refine ⟨hattack, hsame, ?_, ?_⟩
  · rw [← htick]
    exact hmoved.keeps fun _ _ _ => rfl
  · rw [← hdone]
    exact hmoved.keeps fun _ _ _ => rfl

theorem decided_attack (hst : (decisions sk w.actors input i).state = .attack) :
    (enters sk w input i ∧ (decisions sk w.actors input i).stateTick = 0 ∧
        (decisions sk w.actors input i).hitDone = false) ∨
      ((w.actors i).state = .attack ∧
        (decisions sk w.actors input i).stateTick = (w.actors i).stateTick ∧
        (decisions sk w.actors input i).hitDone = (w.actors i).hitDone) := by
  have hnot (hact : canAct (w.actors i) = true) : (w.actors i).state ≠ .attack := by
    intro hattack
    simp [canAct, hattack] at hact
  cases (decisions_decided sk input h i).decision with
  | waits _ hsame htick hdone _ _ => exact Or.inr ⟨hsame.symm.trans hst, htick, hdone⟩
  | moves _ hmoves _ => simp [canAct, hst] at hmoves
  | attacks hact _ htick hdone _ => exact Or.inl ⟨⟨hnot hact, hst⟩, htick, hdone⟩
  | assaults _ hskill _ _ _ => exact State.noConfusion (hskill.symm.trans hst)

/-- The blow of a turn is the one of the attack the actor decided on or was in. -/
theorem hits_iff : hits sk w input i ↔
    (before sk (decisions sk w.actors input) i i).state = .attack ∧
      (decisions sk w.actors input i).hitDone = false ∧
      ATK_HIT_TICK ≤ (decisions sk w.actors input i).stateTick + 1 := by
  unfold hits
  rw [strikes_iff]
  constructor
  · rintro ⟨hst, hdone, htick⟩
    have hst : (before sk (decisions sk w.actors input) i i).state = .attack := hst
    rw [before_attack sk (decisions_cast sk input h) hst] at hdone htick
    exact ⟨hst, hdone, htick⟩
  · rintro ⟨hst, hdone, htick⟩
    refine ⟨hst, ?_⟩
    rw [before_attack sk (decisions_cast sk input h) hst]
    exact ⟨hdone, htick⟩

end Step

/-! ### Attacks along a run -/

section Run
variable (sk : Skill) (spawns : Fin n → R × R) (inp : Nat → Input)

/-- An attack that lasts at time `t` was entered at time `s`, as long ago as it has ticks, and
has struck if it is past its blow. -/
structure AttackSince (i : Fin (n + 1)) (s t : Nat) : Prop where
  entered : enters sk (runs sk (createWorldOf spawns) inp s) (inp s) i
  before : s < t
  lasts : ∀ m, s < m → m ≤ t → ((runs sk (createWorldOf spawns) inp m).actors i).state = .attack
  stateTick : s + ((runs sk (createWorldOf spawns) inp t).actors i).stateTick = t
  hitDone : ((runs sk (createWorldOf spawns) inp t).actors i).hitDone = true ↔
    ATK_HIT_TICK ≤ ((runs sk (createWorldOf spawns) inp t).actors i).stateTick

theorem attack_since (i : Fin (n + 1)) (t : Nat)
    (hst : ((runs sk (createWorldOf spawns) inp t).actors i).state = .attack) :
    ∃ s, AttackSince sk spawns inp i s t := by
  induction t with
  | zero =>
    have hidle : ((createWorldOf spawns).actors i).state = .idle := by
      cases i using Fin.cases with
      | zero => rfl
      | succ k => rfl
    exact State.noConfusion (hidle.symm.trans hst)
  | succ t ih =>
    have hcast := runs_cast sk spawns inp t
    obtain ⟨hdecided, _, htick, hdone⟩ := step_attack hcast (inp t) hst
    have hflag := struck_flag hdecided
    rw [← hdone, ← htick] at hflag
    rcases decided_attack hcast (inp t) hdecided with
      ⟨hentry, hzero, hfresh⟩ | ⟨hlast, hsame, hsame'⟩
    · rw [hzero] at htick
      rw [hfresh] at hflag
      refine ⟨t, hentry, Nat.lt_succ_self t, fun m hm hle => ?_, ?_, ?_⟩
      · rw [Nat.le_antisymm hle hm]
        exact hst
      · exact congrArg (t + ·) htick
      · exact hflag.trans (or_iff_right Bool.false_ne_true)
    · obtain ⟨s, hsince⟩ := ih hlast
      rw [hsame', hsince.hitDone] at hflag
      have hcount := hsince.stateTick
      rw [hsame] at htick
      refine ⟨s, hsince.entered, Nat.lt_succ_of_lt hsince.before, fun m hm hle => ?_, ?_, ?_⟩
      · rcases Nat.lt_or_eq_of_le hle with hlt | rfl
        · exact hsince.lasts m hm (Nat.le_of_lt_succ hlt)
        · exact hst
      · have hnext : ((runs sk (createWorldOf spawns) inp (t + 1)).actors i).stateTick =
            ((runs sk (createWorldOf spawns) inp t).actors i).stateTick + 1 := htick
        omega
      · refine hflag.trans ⟨fun h => ?_, Or.inr⟩
        have hnext : ((runs sk (createWorldOf spawns) inp (t + 1)).actors i).stateTick =
            ((runs sk (createWorldOf spawns) inp t).actors i).stateTick + 1 := htick
        rcases h with hle | hle
        · omega
        · exact hle

theorem AttackSince.eq {sk : Skill} {spawns : Fin n → R × R} {inp : Nat → Input} {i : Fin (n + 1)}
    {s s' t : Nat} (h : AttackSince sk spawns inp i s t) (hst : s' < t)
    (hentry : enters sk (runs sk (createWorldOf spawns) inp s') (inp s') i)
    (hlasts : ∀ m, s' < m → m ≤ t →
      ((runs sk (createWorldOf spawns) inp m).actors i).state = .attack) : s = s' := by
  rcases Nat.lt_trichotomy s s' with hlt | heq | hgt
  · exact absurd (h.lasts s' hlt hst.le) hentry.1
  · exact heq
  · exact absurd (hlasts s hgt h.before.le) h.entered.1

/-- A blow lands at the seventh tick of an attack that was not interrupted. -/
theorem hits_since {i : Fin (n + 1)} {t : Nat}
    (hhits : hits sk (runs sk (createWorldOf spawns) inp t) (inp t) i) :
    ∃ s, AttackSince sk spawns inp i s t ∧ t = s + (ATK_HIT_TICK - 1) ∧
      (before sk (decisions sk (runs sk (createWorldOf spawns) inp t).actors (inp t)) i i).stateTick + 1
        = ATK_HIT_TICK := by
  have hcast := runs_cast sk spawns inp t
  obtain ⟨hst, hdone, htick⟩ := (hits_iff hcast (inp t)).mp hhits
  have hsame := before_attack sk (decisions_cast sk (inp t) hcast) hst
  rw [hsame] at hst ⊢
  rcases decided_attack hcast (inp t) hst with ⟨_, hzero, _⟩ | ⟨hlast, hcount, hdone'⟩
  · rw [hzero] at htick
    exact absurd htick (by decide)
  · obtain ⟨s, hsince⟩ := attack_since sk spawns inp i t hlast
    have hearly : ¬ATK_HIT_TICK ≤ ((runs sk (createWorldOf spawns) inp t).actors i).stateTick := by
      rw [← hsince.hitDone, ← hdone', hdone]
      exact Bool.false_ne_true
    have hsum := hsince.stateTick
    rw [hcount] at htick ⊢
    exact ⟨s, hsince, by omega, by omega⟩

theorem hits_of_entry {i : Fin (n + 1)} {s t : Nat} (hst : s ≤ t)
    (hentry : enters sk (runs sk (createWorldOf spawns) inp s) (inp s) i)
    (hlasts : ∀ m, s < m → m ≤ t →
      ((runs sk (createWorldOf spawns) inp m).actors i).state = .attack) :
    hits sk (runs sk (createWorldOf spawns) inp t) (inp t) i ↔
      t = s + (ATK_HIT_TICK - 1) ∧
        (before sk (decisions sk (runs sk (createWorldOf spawns) inp t).actors (inp t)) i i).state =
          .attack := by
  have hcast := runs_cast sk spawns inp t
  constructor
  · intro hhits
    obtain ⟨s', hsince, heq, _⟩ := hits_since sk spawns inp hhits
    have hlt : s < t := by
      rcases Nat.lt_or_eq_of_le hst with hlt | rfl
      · exact hlt
      · exact absurd (hsince.lasts s hsince.before (Nat.le_refl s)) hentry.1
    rw [hsince.eq hlt hentry hlasts] at heq
    exact ⟨heq, ((hits_iff hcast (inp t)).mp hhits).1⟩
  · rintro ⟨heq, hattack⟩
    have hlt : s < t := by
      rw [heq]
      exact Nat.lt_add_of_pos_right (by decide)
    have hlast := hlasts t hlt (Nat.le_refl t)
    obtain ⟨s', hsince⟩ := attack_since sk spawns inp i t hlast
    have hs := hsince.eq hlt hentry hlasts
    have hsum := hsince.stateTick
    have hsame := before_attack sk (decisions_cast sk (inp t) hcast) hattack
    rcases decided_attack hcast (inp t) (hsame ▸ hattack) with ⟨hnew, _, _⟩ | ⟨_, hcount, hdone⟩
    · exact absurd hlast hnew.1
    · refine (hits_iff hcast (inp t)).mpr ⟨hattack, ?_, ?_⟩
      · rw [hdone, ← Bool.not_eq_true, hsince.hitDone]
        omega
      · rw [hcount]
        omega

end Run

/-! ### The counters -/

section Counters
variable (sk : Skill) {w : World R n} (h : Cast w.actors) (input : Input)
include h

theorem step_counters (j : Fin (n + 1)) :
    ((step sk w input).actors j).cool = (decisions sk w.actors input j).cool ∧
      ((step sk w input).actors j).think = (decisions sk w.actors input j).think := by
  have hcast := decisions_cast sk input h
  have hround := (round sk hcast).2
  have hturn : (turn sk (decisions sk w.actors input) 0 j).cool = (decisions sk w.actors input j).cool ∧
      (turn sk (decisions sk w.actors input) 0 j).think = (decisions sk w.actors input j).think := by
    rcases (turn_player sk hcast).2 with ⟨_, cut, hdash⟩ | ⟨_, hself, hother⟩
    · by_cases hj : j = 0
      · obtain ⟨x, hcaster⟩ := hdash.caster
        rw [hj, hcaster]
        exact dashEnd_counters ..
      · rw [hdash.others j hj]
        split
        · exact ⟨struck_cool .., struck_think ..⟩
        · exact ⟨rfl, rfl⟩
    · by_cases hj : j = 0
      · rw [hj, hself]
        exact ownTurn_counters _
      · rcases hother j hj with hsame | ⟨_, _, _, _, face, hcut⟩
        · rw [hsame]
          exact ⟨rfl, rfl⟩
        · rw [hcut]
          exact ⟨struck_cool .., struck_think ..⟩
  by_cases hj : j = 0
  · subst hj
    obtain ⟨p, htouched, x, y, hmoved⟩ := hround.player
    have hz : (step sk w input).actors 0 =
        separate (progress sk (decisions sk w.actors input)) 0 := rfl
    rw [hz, hmoved]
    rcases htouched with rfl | ⟨_, _, face, rfl⟩
    · exact hturn
    · dsimp only
      rw [struck_cool, struck_think]
      exact hturn
  · obtain ⟨x, y, hmoved⟩ := hround.orc j hj
    have hz : (step sk w input).actors j =
        separate (progress sk (decisions sk w.actors input)) j := rfl
    rw [hz, hmoved]
    dsimp only
    rw [(ownTurn_counters _).1, (ownTurn_counters _).2]
    exact hturn

/-- The cooldown of the player: set by an attack, which waits for it, and by an assault. -/
theorem player_cool :
    (enters sk w input 0 → (w.actors 0).cool ≤ 1 ∧
      (decisions sk w.actors input 0).cool = ATK_TICKS + ATK_COOLDOWN) ∧
    (¬enters sk w input 0 → (w.actors 0).cool ≤ (decisions sk w.actors input 0).cool + 1 ∨
      sk.ticks ≤ (decisions sk w.actors input 0).cool) ∧
    (assaults sk w input 0 → (decisions sk w.actors input 0).cool = sk.ticks) := by
  unfold enters assaults
  rw [decisions_player sk input h]
  unfold playerAct
  split
  · exact ⟨fun hentry => absurd hentry.2 hentry.1, fun _ => Or.inl (Nat.le_succ _),
      fun hassault => absurd hassault.2 hassault.1⟩
  rcases playerChoice_cases sk (List.ofFn w.actors)
      { w.actors 0 with cool := (w.actors 0).cool - 1, skillCool := (w.actors 0).skillCool - 1 }
      input with
    ⟨_, heq⟩ | ⟨hact, heq⟩ | ⟨hact, hzero, heq⟩ | ⟨_, heq⟩
  · rw [heq]
    exact ⟨fun hentry => absurd hentry.2 hentry.1, fun _ => Or.inl (by dsimp only; omega),
      fun hassault => absurd hassault.2 hassault.1⟩
  · rw [heq]
    unfold startAssault
    refine ⟨fun hentry => ?_, fun _ => Or.inr (Nat.le_refl _), fun _ => rfl⟩
    have hst := hentry.2
    rw [setState_state] at hst
    cases hst
  · have hzero : (w.actors 0).cool - 1 = 0 := hzero
    have hentry : (w.actors 0).state ≠ .attack := canAct_not_attack hact
    rw [heq]
    unfold startAttack
    refine ⟨fun _ => ⟨by omega, rfl⟩, fun hno => absurd ⟨hentry, setState_state ..⟩ hno,
      fun hassault => ?_⟩
    have hst := hassault.2
    rw [setState_state] at hst
    cases hst
  · obtain ⟨x, y, face, st, hst, hmove⟩ := playerMove_cases
      { w.actors 0 with cool := (w.actors 0).cool - 1, skillCool := (w.actors 0).skillCool - 1 }
      input
    rw [heq, hmove, setState_state, setState_cool]
    refine ⟨fun hentry => ?_, fun _ => Or.inl (by dsimp only; omega), fun hassault => ?_⟩
    · rcases hst with rfl | rfl
      · exact State.noConfusion hentry.2
      · exact State.noConfusion hentry.2
    · rcases hst with rfl | rfl
      · exact State.noConfusion hassault.2
      · exact State.noConfusion hassault.2

end Counters

/-- The thinking gap of an orc: set by an attack, which waits for it. -/
theorem orc_think (sk : Skill) (w : World R n) (input : Input) {j : Fin (n + 1)} (hj : j ≠ 0) :
    (enters sk w input j → (w.actors j).think ≤ 1 ∧
      (decisions sk w.actors input j).think = E_THINK_GAP) ∧
    (¬enters sk w input j → (w.actors j).think ≤ (decisions sk w.actors input j).think + 1) := by
  unfold enters
  rw [decisions_orc sk input hj]
  generalize playerAct sk (List.ofFn w.actors) (w.actors 0) input = p
  unfold orcAct
  split
  · exact ⟨fun hentry => absurd hentry.2 hentry.1, fun _ => Nat.le_succ _⟩
  rcases orcChoice_cases p
      { w.actors j with cool := (w.actors j).cool - 1, think := (w.actors j).think - 1 } with
    ⟨_, heq⟩ | ⟨hact, _, hzero, face, heq⟩ | ⟨_, x, y, face, st, hst, heq⟩
  · rw [heq]
    exact ⟨fun hentry => absurd hentry.2 hentry.1, fun _ => by dsimp only; omega⟩
  · have hzero : (w.actors j).think - 1 = 0 := hzero
    have hentry : (w.actors j).state ≠ .attack := canAct_not_attack hact
    rw [heq]
    exact ⟨fun _ => ⟨by omega, rfl⟩, fun hno => absurd ⟨hentry, setState_state ..⟩ hno⟩
  · rw [heq, setState_state, setState_think]
    refine ⟨fun hentry => ?_, fun _ => by dsimp only; omega⟩
    rcases hst with rfl | rfl
    · exact State.noConfusion hentry.2
    · exact State.noConfusion hentry.2


/-- Every blow lands at the seventh tick of an attack that nothing interrupted, and an entry
leads to no other; entries of the player are an attack and its cooldown apart and do not fall
into the time of an assault, entries of an orc are a thinking gap apart. -/
theorem attack_cadence (spawns : Fin n → R × R) (inp : Nat → Input) :
    let w := runs SKILL (createWorldOf spawns) inp
    let entry (i : Fin (n + 1)) t := enters SKILL (w t) (inp t) i
    let blow (i : Fin (n + 1)) t := hits SKILL (w t) (inp t) i
    let atTurn (i : Fin (n + 1)) t := before SKILL (decisions SKILL (w t).actors (inp t)) i i
    (∀ i t, blow i t → ∃ s, entry i s ∧ t = s + (ATK_HIT_TICK - 1) ∧
      (∀ m, s < m → m ≤ t → ((w m).actors i).state = .attack) ∧
      (atTurn i t).state = .attack ∧ (atTurn i t).stateTick + 1 = ATK_HIT_TICK) ∧
    (∀ i s t, s ≤ t → entry i s → (∀ m, s < m → m ≤ t → ((w m).actors i).state = .attack) →
      (blow i t ↔ t = s + (ATK_HIT_TICK - 1) ∧ (atTurn i t).state = .attack)) ∧
    (∀ i s t, blow i s → blow i t → s < t → ∃ m, s < m ∧ m < t ∧ entry i m) ∧
    (∀ s t, entry 0 s → entry 0 t → s < t → s + (ATK_TICKS + ATK_COOLDOWN) ≤ t) ∧
    (∀ s t, assaults SKILL (w s) (inp s) 0 → entry 0 t → s < t → s + SKILL.ticks ≤ t) ∧
    (∀ i s t, i ≠ 0 → entry i s → entry i t → s < t → s + E_THINK_GAP ≤ t) := by
  have hcast := runs_cast SKILL spawns inp
  have hcool (t : Nat) := (step_counters SKILL (hcast t) (inp t) 0).1
  have hplayer (t : Nat) := player_cool SKILL (hcast t) (inp t)
  refine ⟨fun i t hblow => ?_, fun i s t hst hentry hlasts => ?_, fun i s t hs ht hst => ?_,
    fun s t hs ht hst => ?_, fun s t hs ht hst => ?_, fun i s t hi hs ht hst => ?_⟩
  · obtain ⟨s, hsince, heq, htick⟩ := hits_since SKILL spawns inp hblow
    exact ⟨s, hsince.entered, heq, hsince.lasts, ((hits_iff (hcast t) (inp t)).mp hblow).1, htick⟩
  · exact hits_of_entry SKILL spawns inp hst hentry hlasts
  · obtain ⟨t', ht', ht6, _⟩ := hits_since SKILL spawns inp ht
    obtain ⟨s', hs', hs6, _⟩ := hits_since SKILL spawns inp hs
    rcases Nat.lt_or_ge s t' with hlater | hearlier
    · exact ⟨t', hlater, ht'.before, ht'.entered⟩
    · -- both blows would belong to the same entry
      exfalso
      rcases Nat.lt_trichotomy s' t' with hlt | heq | hgt
      · exact ht'.entered.1 (hs'.lasts t' hlt hearlier)
      · omega
      · exact hs'.entered.1 (ht'.lasts s' hgt (by omega))
  · have hset : ATK_TICKS + ATK_COOLDOWN ≤
        ((runs SKILL (createWorldOf spawns) inp (s + 1)).actors 0).cool :=
      ((hcool s).trans ((hplayer s).1 hs).2).ge
    refine Cooldown.spaced hset (fun t ht => ((hplayer t).1 ht).1) (fun t ht => ?_) hst ht
    rcases (hplayer t).2.1 ht with hle | hle
    · exact Or.inl (hle.trans (Nat.succ_le_succ (hcool t).ge))
    · exact Or.inr ((by decide : ATK_TICKS + ATK_COOLDOWN ≤ SKILL.ticks).trans
        (hle.trans (hcool t).ge))
  · have hset : SKILL.ticks ≤ ((runs SKILL (createWorldOf spawns) inp (s + 1)).actors 0).cool :=
      ((hcool s).trans ((hplayer s).2.2 hs)).ge
    refine Cooldown.spaced hset (fun t ht => ((hplayer t).1 ht).1) (fun t ht => ?_) hst ht
    rcases (hplayer t).2.1 ht with hle | hle
    · exact Or.inl (hle.trans (Nat.succ_le_succ (hcool t).ge))
    · exact Or.inr (hle.trans (hcool t).ge)
  · have hthink (t : Nat) := (step_counters SKILL (hcast t) (inp t) i).2
    have horc (t : Nat) := orc_think SKILL (runs SKILL (createWorldOf spawns) inp t) (inp t) hi
    have hset : E_THINK_GAP ≤ ((runs SKILL (createWorldOf spawns) inp (s + 1)).actors i).think :=
      ((hthink s).trans ((horc s).1 hs).2).ge
    refine Cooldown.spaced hset (fun t ht => ((horc t).1 ht).1) (fun t ht => ?_) hst ht
    exact Or.inl (((horc t).2 ht).trans (Nat.succ_le_succ (hthink t).ge))

end BeltServer.Logic
