import BeltServer.Life

/-!
# The assault over a run

While an assault lasts the caster notes the id of everyone it cuts; the notes are what keeps
it from cutting anyone twice and what it counts.
-/

namespace BeltServer.Logic

set_option autoImplicit false

variable {R : Type} {n : Nat}

/-- The notes of an actor: none outside of an assault; in one, no id twice and as many as
counted. -/
structure Notes (a : Actor R) : Prop where
  empty : a.state ≠ .skill → a.hitIds = []
  nodup : a.state = .skill → a.hitIds.Nodup
  count : a.state = .skill → a.lastSkillHit = a.hitIds.length

theorem Notes.of_empty {a : Actor R} (hst : a.state ≠ .skill) (h : a.hitIds = []) : Notes a :=
  ⟨fun _ => h, fun hskill => absurd hskill hst, fun hskill => absurd hskill hst⟩

theorem Notes.moved {a b : Actor R} (h : Notes a) (hab : Moved a b) : Notes b := by
  obtain ⟨_, _, rfl⟩ := hab
  exact ⟨h.empty, h.nodup, h.count⟩

theorem canAct_skill {a : Actor R} (h : canAct a = true) : a.state ≠ .skill := by
  rcases (canAct_iff a).mp h with hst | hst
  · rw [hst]
    exact State.noConfusion
  · rw [hst]
    exact State.noConfusion

theorem Notes.decided {a b : Actor R} (h : Notes a) (hab : Decided a b) : Notes b := by
  cases hab.decision with
  | waits _ hst _ _ hids hhit =>
    refine ⟨fun hskill => ?_, fun hskill => ?_, fun hskill => ?_⟩
    · rw [hids]
      exact h.empty (by rw [← hst]; exact hskill)
    · rw [hids]
      exact h.nodup (by rw [← hst]; exact hskill)
    · rw [hids, hhit]
      exact h.count (by rw [← hst]; exact hskill)
  | moves hact hmoves hids =>
    exact .of_empty (canAct_skill hmoves) (hids (h.empty (canAct_skill hact)))
  | attacks _ hst _ _ hids =>
    apply Notes.of_empty _ hids
    rw [hst]
    exact State.noConfusion
  | assaults _ hst _ hids hhit =>
    refine ⟨fun hskill => absurd hst hskill, fun _ => ?_, fun _ => ?_⟩
    · rw [hids]
      exact List.nodup_nil
    · rw [hids, hhit]
      rfl

theorem Notes.idle {a : Actor R} (h : a.state ≠ .skill → a.hitIds = []) :
    Notes (setState a .idle) := by
  apply Notes.of_empty
  · rw [setState_state]
    exact State.noConfusion
  · unfold setState
    split
    · rename_i hst
      exact h (by rw [hst]; exact State.noConfusion)
    · rfl

theorem Notes.ownTurn {a : Actor R} (h : Notes a) (hst : a.state ≠ .skill) : Notes (ownTurn a) := by
  unfold Logic.ownTurn settled
  split
  · exact .idle fun _ => h.empty hst
  · exact .of_empty hst (h.empty hst)

theorem Notes.dashEnd {sk : Skill} {a : Actor R} (h : Notes a) (hst : a.state = .skill) (x : R)
    {ids : List Nat} (hnodup : ids.Nodup) (hnew : ∀ id ∈ ids, id ∉ a.hitIds) :
    Notes (dashEnd sk (dashed a x ids)) := by
  unfold Logic.dashEnd
  split
  · exact .idle fun hskill => absurd hst hskill
  · refine ⟨fun hskill => absurd hst hskill, fun _ => ?_, fun _ => ?_⟩
    · exact List.nodup_append.mpr ⟨h.nodup hst, hnodup, fun id hid id' hid' heq =>
        hnew id' hid' (by rw [← heq]; exact hid)⟩
    · unfold dashed
      dsimp only
      rw [h.count hst, List.length_append]

section Struck

variable [Add R] [Mul R] [NatCast R] [IntCast R] [LT R] [DecidableLT R]

theorem Notes.touched {p p' : Actor R} (h : Notes p) (htouched : Touched p p') : Notes p' := by
  rcases htouched with rfl | ⟨hdead, hhurt, face, rfl⟩
  · exact h
  · apply Notes.of_empty _ (struck_fresh _ _ _ _ hhurt hdead).2
    rw [struck_state]
    split
    · exact State.noConfusion
    · exact State.noConfusion

theorem DashTurn.new {sk : Skill} {actors actors' : Actors R n} {i : Fin (n + 1)}
    {cut : List (Fin (n + 1))} (h : DashTurn sk actors actors' i cut)
    (hids : Function.Injective fun j => (actors j).id) :
    (cut.map fun j => (actors j).id).Nodup ∧
      ∀ id ∈ cut.map (fun j => (actors j).id), id ∉ (actors i).hitIds := by
  refine ⟨h.nodup.map hids, fun id hid => ?_⟩
  obtain ⟨j, hj, rfl⟩ := List.mem_map.mp hid
  exact (h.enemy j hj).2.2.2

end Struck

section Turn

variable [Add R] [Sub R] [Mul R] [Div R] [Neg R] [NatCast R] [IntCast R]
  [LE R] [LT R] [DecidableLE R] [DecidableLT R]

theorem turn_player_notes (sk : Skill) {actors : Actors R n} (h : Cast actors)
    (hnotes : Notes (actors 0)) : Notes (turn sk actors 0 0) := by
  rcases (turn_player sk h).2 with ⟨hskill, cut, hdash⟩ | ⟨hskill, hself, _⟩
  · obtain ⟨x, hcaster⟩ := hdash.caster
    obtain ⟨hnodup, hnew⟩ := hdash.new h.injective
    rw [hcaster]
    exact hnotes.dashEnd hskill x hnodup hnew
  · rw [hself]
    exact hnotes.ownTurn hskill

end Turn

section Arithmetic

variable [Add R] [Sub R] [Mul R] [Div R] [Neg R] [NatCast R] [IntCast R]
  [LE R] [LT R] [BEq R] [DecidableLE R] [DecidableLT R]

theorem step_notes (sk : Skill) {w : World R n} (h : Cast w.actors) (input : Input)
    (hnotes : Notes (w.actors 0)) :
    Notes ((step sk w input).actors 0) := by
  have hcast := decisions_cast sk input h
  obtain ⟨p, htouched, hmoved⟩ := (round sk hcast).2.player
  have hturn := turn_player_notes sk hcast (hnotes.decided (decisions_decided sk input h 0))
  exact (hturn.touched htouched).moved hmoved

/-! ### What a step of an assault cuts -/

section Cut
variable {sk : Skill} (hsk : sk.Sound) {w : World R n} (h : Cast w.actors) (input : Input)

include h in
/-- Orcs lose health in the turn of the player only. -/
theorem step_orc_hp {j : Fin (n + 1)} (hj : j ≠ 0) :
    ((step sk w input).actors j).hp = (turn sk (decisions sk w.actors input) 0 j).hp := by
  have hmoved := (round sk (decisions_cast sk input h)).2.orc j hj
  exact (hmoved.keeps fun _ _ _ => rfl).trans (ownTurn_passes _).1

include hsk h in
theorem step_cut (hfit : ∀ j, Fit sk (w.actors j))
    (hskill : (decisions sk w.actors input 0).state = .skill) :
    ∃ cut, DashTurn sk (decisions sk w.actors input) (turn sk (decisions sk w.actors input) 0) 0 cut ∧
      ∀ j ≠ 0,
        (j ∈ cut → ((step sk w input).actors j).hp < (w.actors j).hp ∧
          ((step sk w input).actors j).hp = (w.actors j).hp - Min.min (sk.dmg : Int) (w.actors j).hp) ∧
        (j ∉ cut → ((step sk w input).actors j).hp = (w.actors j).hp) := by
  have hcast := decisions_cast sk input h
  obtain ⟨cut, hdash⟩ := turn_skill sk _ 0 hcast.injective hskill
  refine ⟨cut, hdash, fun j hj => ⟨fun hcut => ?_, fun hcut => ?_⟩⟩
  · have hdecided := decisions_decided sk input h j
    have hfit' := (hdecided.lives hsk.ticks (hfit j)).1
    rw [step_orc_hp h input hj, hdash.others j hj, if_pos hcut, ← hdecided.hp]
    exact struck_falls hfit' (hdash.enemy j hcut).2.1 _ _ (Int.natCast_pos.mpr hsk.dmg)
  · rw [step_orc_hp h input hj, hdash.others j hj, if_neg hcut]
    exact (decisions_decided sk input h j).hp

include h in
theorem step_noted (hskill : ((step sk w input).actors 0).state = .skill)
    {cut : List (Fin (n + 1))}
    (hdash : DashTurn sk (decisions sk w.actors input) (turn sk (decisions sk w.actors input) 0) 0 cut) :
    ((step sk w input).actors 0).hitIds = (decisions sk w.actors input 0).hitIds ++
      cut.map fun j => (decisions sk w.actors input j).id := by
  have hcast := decisions_cast sk input h
  obtain ⟨p, htouched, hmoved⟩ := (round sk hcast).2.player
  have hst : ((step sk w input).actors 0).state = p.state := hmoved.keeps fun _ _ _ => rfl
  have hids : ((step sk w input).actors 0).hitIds = p.hitIds := hmoved.keeps fun _ _ _ => rfl
  rw [hst] at hskill
  rw [hids]
  rcases htouched with rfl | ⟨_, _, face, rfl⟩
  · obtain ⟨x, hcaster⟩ := hdash.caster
    rw [hcaster] at hskill ⊢
    unfold dashEnd at hskill ⊢
    split at hskill
    · rw [setState_state] at hskill
      cases hskill
    · rw [if_neg (by assumption)]
      rfl
  · rw [struck_state] at hskill
    split at hskill
    · cases hskill
    · cases hskill

include h in
/-- Who ends a step in an assault was in it when its turn came. -/
theorem step_assaulting (hskill : ((step sk w input).actors 0).state = .skill) :
    (decisions sk w.actors input 0).state = .skill := by
  have hcast := decisions_cast sk input h
  obtain ⟨p, htouched, hmoved⟩ := (round sk hcast).2.player
  have hst : ((step sk w input).actors 0).state = p.state := hmoved.keeps fun _ _ _ => rfl
  rw [hst] at hskill
  rcases htouched with rfl | ⟨_, _, face, rfl⟩
  · rcases (turn_player sk hcast).2 with ⟨hassault, _⟩ | ⟨_, hself, _⟩
    · exact hassault
    · rw [hself] at hskill
      unfold ownTurn settled at hskill
      split at hskill
      · rw [setState_state] at hskill
        cases hskill
      · exact hskill
  · rw [struck_state] at hskill
    split at hskill
    · cases hskill
    · cases hskill

include hsk h in
theorem step_spares (hfit : ∀ j, Fit sk (w.actors j)) (hskill : (w.actors 0).state = .skill)
    {j : Fin (n + 1)} (hj : j ≠ 0) (hnoted : (w.actors j).id ∈ (w.actors 0).hitIds) :
    ((step sk w input).actors j).hp = (w.actors j).hp ∧
      (((step sk w input).actors 0).state = .skill →
        ((step sk w input).actors j).id ∈ ((step sk w input).actors 0).hitIds) := by
  have hdecided := decisions_decided sk input h 0
  obtain ⟨hst, hids⟩ : (decisions sk w.actors input 0).state = .skill ∧
      (decisions sk w.actors input 0).hitIds = (w.actors 0).hitIds := by
    cases hdecided.decision with
    | waits _ hst _ _ hids _ => exact ⟨hst.trans hskill, hids⟩
    | moves hact _ _ => exact absurd hskill (canAct_skill hact)
    | attacks hact _ _ _ _ => exact absurd hskill (canAct_skill hact)
    | assaults hact _ _ _ _ => exact absurd hskill (canAct_skill hact)
  have hid := (decisions_decided sk input h j).id
  obtain ⟨cut, hdash, hhp⟩ := step_cut hsk h input hfit hst
  refine ⟨(hhp j hj).2 fun hcut => ?_, fun hstill => ?_⟩
  · apply (hdash.enemy j hcut).2.2.2
    rw [hid, hids]
    exact hnoted
  · have hlives := (step_lives hsk h input j (hfit j)).2
    rw [step_noted h input hstill hdash, hids, hlives.id]
    exact List.mem_append_left _ hnoted

end Cut

/-- While the player is in an assault it notes nobody twice and counts what it notes; a new
assault starts without notes. Orcs lose health in the turn of the player only; in a tick of an
assault an orc loses the damage of the skill, as far as it has so much, or nothing; and who
lost it in one tick of an assault loses none in any later tick of the same one, the tick that
ends it included. The player loses nothing in its own turn. -/
theorem assault_counts (spawns : Fin n → R × R) (inp : Nat → Input) :
    let w := runs SKILL (createWorldOf spawns) inp
    let decided t := decisions SKILL (w t).actors (inp t)
    let turned t := turn SKILL (decided t) 0
    (∀ t, ((w t).actors 0).hitIds.Nodup) ∧
    (∀ t, ((w t).actors 0).state = .skill →
      ((w t).actors 0).lastSkillHit = ((w t).actors 0).hitIds.length) ∧
    (∀ t, ((w t).actors 0).state ≠ .skill → (decided t 0).state = .skill →
      ((w t).actors 0).hitIds = [] ∧ (decided t 0).hitIds = [] ∧ (decided t 0).lastSkillHit = 0) ∧
    (∀ t j, (decided t j).hp = ((w t).actors j).hp) ∧
    (∀ t j, j ≠ 0 → ((w (t + 1)).actors j).hp = (turned t j).hp) ∧
    (∀ t, (turned t 0).hp = (decided t 0).hp) ∧
    (∀ t j, j ≠ 0 → (decided t 0).state = .skill →
      ((w (t + 1)).actors j).hp = ((w t).actors j).hp ∨
      ((w (t + 1)).actors j).hp =
        ((w t).actors j).hp - Min.min (SKILL.dmg : Int) ((w t).actors j).hp) ∧
    (∀ t k j, j ≠ 0 → (∀ m ≤ k, ((w (t + 1 + m)).actors 0).state = .skill) →
      ((w (t + 1)).actors j).hp < ((w t).actors j).hp →
      ((w (t + 1 + k + 1)).actors j).hp = ((w (t + 1)).actors j).hp) := by
  have hcast := runs_cast SKILL spawns inp
  have hfit := runs_fit SKILL_sound spawns inp
  have hnotes (t : Nat) : Notes ((runs SKILL (createWorldOf spawns) inp t).actors 0) := by
    induction t with
    | zero => exact .of_empty State.noConfusion rfl
    | succ t ih => exact step_notes SKILL (hcast t) (inp t) ih
  have hdecided (t : Nat) (j : Fin (n + 1)) := decisions_decided SKILL (inp t) (hcast t) j
  refine ⟨fun t => ?_, fun t => (hnotes t).count,
    fun t hno hskill => ⟨(hnotes t).empty hno, ?_⟩, fun t j => (hdecided t j).hp,
    fun t j hj => step_orc_hp (hcast t) (inp t) hj,
    fun t => turn_player_hp SKILL (decisions_cast SKILL (inp t) (hcast t)),
    fun t j hj hskill => ?_, fun t k j hj hstill hfall => ?_⟩
  · by_cases hskill : ((runs SKILL (createWorldOf spawns) inp t).actors 0).state = .skill
    · exact (hnotes t).nodup hskill
    · exact (hnotes t).empty hskill ▸ List.nodup_nil
  · cases (hdecided t 0).decision with
    | waits _ hst _ _ _ _ => exact absurd (hst.symm.trans hskill) hno
    | moves _ hmoves _ => exact absurd hskill (canAct_skill hmoves)
    | attacks _ hst _ _ _ => exact State.noConfusion (hst.symm.trans hskill)
    | assaults _ _ _ hids hhit => exact ⟨hids, hhit⟩
  · obtain ⟨cut, _, hhp⟩ := step_cut SKILL_sound (hcast t) (inp t) (hfit t) hskill
    by_cases hcut : j ∈ cut
    · exact Or.inr ((hhp j hj).1 hcut).2
    · exact Or.inl ((hhp j hj).2 hcut)
  · -- the orc is noted at the end of its tick, and stays so
    have hnoted (m : Nat) (hm : m ≤ k) :
        ((runs SKILL (createWorldOf spawns) inp (t + 1 + m)).actors j).hp =
            ((runs SKILL (createWorldOf spawns) inp (t + 1)).actors j).hp ∧
          ((runs SKILL (createWorldOf spawns) inp (t + 1 + m)).actors j).id ∈
            ((runs SKILL (createWorldOf spawns) inp (t + 1 + m)).actors 0).hitIds := by
      induction m with
      | zero =>
        refine ⟨rfl, ?_⟩
        have hend := hstill 0 (Nat.zero_le k)
        have hskill := step_assaulting (hcast t) (inp t) hend
        obtain ⟨cut, hdash, hhp⟩ := step_cut SKILL_sound (hcast t) (inp t) (hfit t) hskill
        have hcut : j ∈ cut := by
          by_contra hcut
          exact absurd ((hhp j hj).2 hcut) hfall.ne
        have hid := (runs_evolves SKILL_sound spawns inp (Nat.le_succ t) j).id
        have hids := step_noted (hcast t) (inp t) hend hdash
        refine hids ▸ List.mem_append_right _ (List.mem_map.mpr ⟨j, hcut, ?_⟩)
        exact (hdecided t j).id.trans hid.symm
      | succ m ih =>
        obtain ⟨hsame, hin⟩ := ih (Nat.le_of_succ_le hm)
        obtain ⟨hsame', hin'⟩ := step_spares SKILL_sound (hcast (t + 1 + m)) (inp (t + 1 + m))
          (hfit (t + 1 + m)) (hstill m (Nat.le_of_succ_le hm)) hj hin
        exact ⟨hsame'.trans hsame, hin' (hstill (m + 1) hm)⟩
    obtain ⟨hsame, hin⟩ := hnoted k (Nat.le_refl k)
    obtain ⟨hsame', _⟩ := step_spares SKILL_sound (hcast (t + 1 + k)) (inp (t + 1 + k))
      (hfit (t + 1 + k)) (hstill k (Nat.le_refl k)) hj hin
    exact hsame'.trans hsame

end Arithmetic

end BeltServer.Logic
