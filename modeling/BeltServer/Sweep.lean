import BeltServer.Turns
import Mathlib.Algebra.Order.Ring.Rat
import Mathlib.Algebra.Order.Field.Basic
import Mathlib.Tactic.Linarith
import Mathlib.Tactic.Ring
import Mathlib.Tactic.FieldSimp
import Mathlib.Tactic.Positivity

/-!
# The way of an assault

With exact arithmetic: the segments that the ticks of a dash judge tile its whole way, so
who is cut does not depend on the number of ticks.
-/

namespace BeltServer.Logic

set_option autoImplicit false

variable {n : Nat}

/-! ### Segments of the way -/

def within (a b x : ℚ) : Prop := mathMin a b ≤ x ∧ x ≤ mathMax a b

instance (a b x : ℚ) : Decidable (within a b x) := by
  unfold within
  infer_instance

theorem within_of_le {a b : ℚ} (h : a ≤ b) (x : ℚ) : within a b x ↔ a ≤ x ∧ x ≤ b := by
  unfold within mathMin mathMax
  rw [if_pos h, if_pos h]

theorem within_of_ge {a b : ℚ} (h : b ≤ a) (x : ℚ) : within a b x ↔ b ≤ x ∧ x ≤ a := by
  rcases h.lt_or_eq with hlt | rfl
  · unfold within mathMin mathMax
    rw [if_neg (not_le.mpr hlt), if_neg (not_le.mpr hlt)]
  · exact within_of_le h x

/-- In the direction of the dash: how far `x` is on the way from `a`. -/
theorem within_iff {face : Int} (hface : face = 1 ∨ face = -1) {a b : ℚ}
    (h : 0 ≤ (b - a) * face) (x : ℚ) :
    within a b x ↔ 0 ≤ (x - a) * face ∧ (x - a) * face ≤ (b - a) * face := by
  rcases hface with rfl | rfl
  · push_cast at h ⊢
    rw [within_of_le (by linarith)]
    constructor
    · rintro ⟨h0, h1⟩
      constructor <;> linarith
    · rintro ⟨h0, h1⟩
      constructor <;> linarith
  · push_cast at h ⊢
    rw [within_of_ge (by linarith)]
    constructor
    · rintro ⟨h0, h1⟩
      constructor <;> linarith
    · rintro ⟨h0, h1⟩
      constructor <;> linarith

/-- The place of the caster after `k` of `N` ticks. -/
def place (dashFrom dashTo : ℚ) (N k : Nat) : ℚ := dashFrom + (dashTo - dashFrom) * ((k : ℚ) / (N : ℚ))

section Place
variable {dashFrom dashTo : ℚ} {N : Nat} {face : Int}

theorem place_zero : place dashFrom dashTo N 0 = dashFrom := by simp [place]

theorem place_end (hN : 1 ≤ N) : place dashFrom dashTo N N = dashTo := by
  have hne : (N : ℚ) ≠ 0 := Nat.cast_ne_zero.mpr (Nat.ne_of_gt hN)
  unfold place
  rw [div_self hne]
  ring

theorem place_mono (hway : 0 ≤ (dashTo - dashFrom) * face) (k : Nat) :
    0 ≤ (place dashFrom dashTo N k - dashFrom) * face ∧
      (place dashFrom dashTo N k - dashFrom) * face ≤
        (place dashFrom dashTo N (k + 1) - dashFrom) * face := by
  have hplace (m : Nat) : (place dashFrom dashTo N m - dashFrom) * face =
      (dashTo - dashFrom) * face * ((m : ℚ) / (N : ℚ)) := by
    unfold place
    ring
  rw [hplace, hplace]
  constructor
  · exact mul_nonneg hway (by positivity)
  · apply mul_le_mul_of_nonneg_left _ hway
    apply div_le_div_of_nonneg_right _ (Nat.cast_nonneg N)
    exact_mod_cast Nat.le_succ k

/-- The segments tile the way: what has been passed after a tick was passed before it or lies
on the segment of the tick. -/
theorem within_place (hface : face = 1 ∨ face = -1) (hway : 0 ≤ (dashTo - dashFrom) * face)
    {range : ℚ} (hrange : 0 ≤ range) (k : Nat) (x : ℚ) :
    within dashFrom (place dashFrom dashTo N (k + 1) + face * range) x ↔
      (0 < k ∧ within dashFrom (place dashFrom dashTo N k + face * range) x) ∨
        within (place dashFrom dashTo N k) (place dashFrom dashTo N (k + 1) + face * range) x := by
  obtain ⟨hpos, hmono⟩ := place_mono (N := N) hway k
  have hsq : (face : ℚ) * face = 1 := by
    rcases hface with rfl | rfl
    · norm_num
    · norm_num
  have hreach (m : Nat) (a : ℚ) : (place dashFrom dashTo N m + face * range - a) * face =
      (place dashFrom dashTo N m - dashFrom) * face - (a - dashFrom) * face + range := by
    calc (place dashFrom dashTo N m + face * range - a) * face
        = (place dashFrom dashTo N m - dashFrom) * face - (a - dashFrom) * face +
            range * (face * face) := by ring
      _ = _ := by rw [hsq, mul_one]
  have hfrom (m : Nat) : (place dashFrom dashTo N m + face * range - dashFrom) * face =
      (place dashFrom dashTo N m - dashFrom) * face + range := by
    rw [hreach, sub_self, zero_mul, sub_zero]
  have hx : (x - place dashFrom dashTo N k) * face =
      (x - dashFrom) * face - (place dashFrom dashTo N k - dashFrom) * face := by ring
  rw [within_iff hface (by rw [hfrom]; linarith), within_iff hface (by rw [hfrom]; linarith),
    within_iff hface (by rw [hreach]; linarith), hfrom, hfrom, hreach, hx]
  cases k with
  | zero =>
    rw [place_zero, sub_self, zero_mul, sub_zero, sub_zero]
    exact ⟨Or.inr, fun h => h.elim (fun h => absurd h.1 (Nat.lt_irrefl 0)) fun h => h⟩
  | succ k =>
    constructor
    · rintro ⟨h0, h1⟩
      rcases le_total ((x - dashFrom) * face)
        ((place dashFrom dashTo N (k + 1) - dashFrom) * face + range) with hle | hge
      · exact Or.inl ⟨Nat.succ_pos k, h0, hle⟩
      · exact Or.inr ⟨by linarith, by linarith⟩
    · rintro (⟨_, h0, h1⟩ | ⟨h0, h1⟩)
      · exact ⟨h0, by linarith⟩
      · exact ⟨by linarith, by linarith⟩

end Place

/-! ### A dash, tick by tick -/

/-- A tick of the dash of actor `i`: its `stateTick` is counted, it moves on and cuts. -/
def dashTick (sk : Skill) (i : Fin (n + 1)) (actors : Actors ℚ n) : Actors ℚ n :=
  blink sk (Function.update actors i (advance (actors i))) i

def enemy (sk : Skill) (actors : Actors ℚ n) (i j : Fin (n + 1)) : Prop :=
  j ≠ i ∧ (actors j).state ≠ .dead ∧ (actors j).kind ≠ (actors i).kind ∧
    mathAbs ((actors j).y - (actors i).y) ≤ (sk.depth : ℚ)

instance (sk : Skill) (actors : Actors ℚ n) (i j : Fin (n + 1)) :
    Decidable (enemy sk actors i j) := by
  unfold enemy
  infer_instance

/-- The enemies on the way from `dashFrom` to the tip at `x`. -/
def passed (sk : Skill) (actors : Actors ℚ n) (i : Fin (n + 1)) (x : ℚ) : List (Fin (n + 1)) :=
  (List.finRange (n + 1)).filter fun j =>
    enemy sk actors i j ∧
      within (actors i).dashFrom (x + ((actors i).face : ℚ) * (sk.range : ℚ)) (actors j).x

theorem mem_passed {sk : Skill} {actors : Actors ℚ n} {i : Fin (n + 1)} {x : ℚ} {j : Fin (n + 1)} :
    j ∈ passed sk actors i x ↔ enemy sk actors i j ∧
      within (actors i).dashFrom (x + ((actors i).face : ℚ) * (sk.range : ℚ)) (actors j).x := by
  unfold passed
  rw [List.mem_filter, decide_eq_true_iff]
  exact and_iff_right (List.mem_finRange j)

/-- A dash about to start: the caster faces one way, stands at `dashFrom` within the stage, has
settled where it goes and has cut nobody. -/
structure Ready (actors : Actors ℚ n) (i : Fin (n + 1)) (dist : ℚ) : Prop where
  ids : Function.Injective fun j => (actors j).id
  face : (actors i).face = 1 ∨ (actors i).face = -1
  inside : 20 ≤ (actors i).dashFrom ∧ (actors i).dashFrom ≤ (WORLD_W : ℚ) - 20
  forward : 0 ≤ dist
  dashTo : (actors i).dashTo = clamp ((actors i).dashFrom + (actors i).face * dist) 20
    ((WORLD_W : ℚ) - 20)
  x : (actors i).x = (actors i).dashFrom
  stateTick : (actors i).stateTick = 0
  hitIds : (actors i).hitIds = []

/-- The way of a dash goes where the caster looks, also when the stage border cuts it short. -/
theorem Ready.way {actors : Actors ℚ n} {i : Fin (n + 1)} {dist : ℚ} (h : Ready actors i dist) :
    0 ≤ ((actors i).dashTo - (actors i).dashFrom) * ((actors i).face : ℚ) := by
  obtain ⟨hlo, hhi⟩ := h.inside
  have hdist := h.forward
  rw [h.dashTo]
  unfold clamp
  rcases h.face with hface | hface
  · rw [hface]
    push_cast
    split_ifs with hbelow habove
    · linarith
    · linarith
    · linarith
  · rw [hface]
    push_cast
    split_ifs with hbelow habove
    · linarith
    · linarith
    · linarith

/-- The state of a dash after `k` ticks: the invariant of the sweep. -/
structure Swept (sk : Skill) (actors z : Actors ℚ n) (i : Fin (n + 1)) (k : Nat)
    (cut : List (Fin (n + 1))) : Prop where
  nodup : cut.Nodup
  mem : ∀ j, j ∈ cut ↔ 0 < k ∧ j ∈ passed sk actors i
    (place (actors i).dashFrom (actors i).dashTo sk.blinkTicks k)
  caster : z i = { actors i with
    x := place (actors i).dashFrom (actors i).dashTo sk.blinkTicks k
    stateTick := k
    hitIds := cut.map fun j => (actors j).id
    lastSkillHit := (actors i).lastSkillHit + cut.length }
  others : ∀ j ≠ i, z j =
    if j ∈ cut then struck (actors i).face sk.dmg sk.knock (actors j) else actors j

theorem Swept.start {sk : Skill} {actors : Actors ℚ n} {i : Fin (n + 1)} {dist : ℚ}
    (h : Ready actors i dist) : Swept sk actors actors i 0 [] := by
  refine ⟨List.nodup_nil, fun j => ?_, ?_, fun j _ => (if_neg List.not_mem_nil).symm⟩
  · exact ⟨fun hj => absurd hj List.not_mem_nil, fun hj => absurd hj.1 (Nat.lt_irrefl 0)⟩
  · rw [place_zero, List.map_nil, ← h.hitIds, ← h.x, ← h.stateTick]
    rfl

section Tick
variable {sk : Skill} {actors z : Actors ℚ n} {i : Fin (n + 1)} {dist : ℚ} {k : Nat}
  {cut : List (Fin (n + 1))}

theorem Swept.ids (h : Swept sk actors z i k cut) (j : Fin (n + 1)) : (z j).id = (actors j).id := by
  by_cases hij : j = i
  · rw [hij, h.caster]
  · rw [h.others j hij]
    split
    · exact struck_id ..
    · rfl

theorem Swept.mem_blinkCut (hids : Function.Injective fun j => (actors j).id)
    (h : Swept sk actors z i k cut) (j : Fin (n + 1)) :
    j ∈ blinkCut sk (Function.update z i (advance (z i))) i ↔
      j ∉ cut ∧ enemy sk actors i j ∧
        within (place (actors i).dashFrom (actors i).dashTo sk.blinkTicks k)
          (place (actors i).dashFrom (actors i).dashTo sk.blinkTicks (k + 1) +
            ((actors i).face : ℚ) * (sk.range : ℚ)) (actors j).x := by
  have hnoted : (actors j).id ∈ cut.map (fun j => (actors j).id) ↔ j ∈ cut := by
    rw [List.mem_map]
    exact ⟨fun ⟨m, hm, heq⟩ => hids heq ▸ hm, fun hm => ⟨j, hm, rfl⟩⟩
  rw [Logic.mem_blinkCut, Function.update_self, h.caster]
  unfold enemy
  by_cases hij : j = i
  · exact ⟨fun hcut => absurd hij hcut.1, fun hcut => absurd hij hcut.2.1.1⟩
  rw [Function.update_of_ne hij, h.others j hij]
  by_cases hj : j ∈ cut
  · refine ⟨fun hcut => ?_, fun hcut => absurd hj hcut.1⟩
    have hnew := hcut.2.2.2.1
    rw [if_pos hj, struck_id] at hnew
    exact absurd (hnoted.mpr hj) hnew
  · rw [if_neg hj]
    unfold within
    dsimp only [advance, blinkTo, place]
    rw [hnoted, not_or, not_lt, not_lt, not_lt]
    tauto

theorem Swept.mem_next (hready : Ready actors i dist) (h : Swept sk actors z i k cut)
    (j : Fin (n + 1)) :
    j ∈ cut ++ blinkCut sk (Function.update z i (advance (z i))) i ↔
      j ∈ passed sk actors i (place (actors i).dashFrom (actors i).dashTo sk.blinkTicks (k + 1)) := by
  rw [List.mem_append, h.mem_blinkCut hready.ids, h.mem, mem_passed, mem_passed,
    within_place hready.face hready.way (Nat.cast_nonneg sk.range)]
  tauto

theorem Swept.tick (hready : Ready actors i dist) (h : Swept sk actors z i k cut) :
    Swept sk actors (dashTick sk i z) i (k + 1)
      (cut ++ blinkCut sk (Function.update z i (advance (z i))) i) := by
  let counted := Function.update z i (advance (z i))
  have hself : counted i = advance (z i) := Function.update_self ..
  have hother (j : Fin (n + 1)) (hij : j ≠ i) : counted j = z j := Function.update_of_ne hij ..
  have hid (j : Fin (n + 1)) : (counted j).id = (actors j).id := by
    by_cases hij : j = i
    · rw [hij, hself]
      exact h.ids i
    · rw [hother j hij]
      exact h.ids j
  obtain ⟨hafter, hcaster⟩ := blink_eq sk counted i (by
    intro j m heq
    apply hready.ids
    dsimp only at heq
    rw [hid, hid] at heq
    exact heq)
  have hnew (j : Fin (n + 1)) (hj : j ∈ blinkCut sk counted i) : j ∉ cut :=
    ((h.mem_blinkCut hready.ids j).mp hj).1
  have hnext (j : Fin (n + 1)) := h.mem_next hready j
  have hnodup : (blinkCut sk counted i).Nodup := cutFrom_nodup ..
  have hface : (counted i).face = (actors i).face := by
    rw [hself, h.caster]
    rfl
  change ∀ j, j ∈ cut ++ blinkCut sk counted i ↔ _ at hnext
  change Swept sk actors (blink sk counted i) i (k + 1) (cut ++ blinkCut sk counted i)
  generalize blinkCut sk counted i = next at hafter hcaster hnew hnext hnodup ⊢
  refine ⟨?_, fun j => ?_, ?_, fun j hij => ?_⟩
  · exact List.nodup_append.mpr ⟨h.nodup, hnodup, fun j hj m hm heq => hnew m hm (heq ▸ hj)⟩
  · rw [hnext]
    exact (and_iff_right (Nat.succ_pos k)).symm
  · rw [hcaster, hself, h.caster]
    simp only [hid, List.map_append, List.length_append, ← Nat.add_assoc]
    rfl
  · rw [hafter j hij, hface, hother j hij, h.others j hij]
    simp only [List.mem_append]
    by_cases hcut : j ∈ next
    · have hj := hnew j hcut
      rw [if_pos hcut, if_neg hj, if_pos (Or.inr hcut)]
    · rw [if_neg hcut]
      by_cases hj : j ∈ cut
      · rw [if_pos hj, if_pos (Or.inl hj)]
      · rw [if_neg hj, if_neg (by tauto)]

theorem Swept.iterate (hready : Ready actors i dist) (k : Nat) :
    ∃ cut, Swept sk actors ((dashTick sk i)^[k] actors) i k cut := by
  induction k with
  | zero => exact ⟨[], .start hready⟩
  | succ k ih =>
    obtain ⟨cut, hswept⟩ := ih
    rw [Function.iterate_succ_apply']
    exact ⟨_, hswept.tick hready⟩

end Tick

/-- The state of a dash at its end, in terms of its start alone. -/
theorem dash_end {sk : Skill} {actors : Actors ℚ n} {i : Fin (n + 1)} {dist : ℚ}
    (hready : Ready actors i dist) (hN : 1 ≤ sk.blinkTicks) :
    let z := (dashTick sk i)^[sk.blinkTicks] actors
    let cut := passed sk actors i (actors i).dashTo
    (z i).x = (actors i).dashTo ∧
    (z i).hitIds.Perm (cut.map fun j => (actors j).id) ∧
    (z i).lastSkillHit = (actors i).lastSkillHit + cut.length ∧
    (∀ j ≠ i, z j =
      if j ∈ cut then struck (actors i).face sk.dmg sk.knock (actors j) else actors j) := by
  obtain ⟨cut, hswept⟩ : ∃ cut, Swept sk actors _ i sk.blinkTicks cut :=
    Swept.iterate hready sk.blinkTicks
  have hmem (j : Fin (n + 1)) : j ∈ cut ↔ j ∈ passed sk actors i (actors i).dashTo := by
    rw [hswept.mem, place_end hN]
    exact and_iff_right hN
  have hperm : cut.Perm (passed sk actors i (actors i).dashTo) :=
    (List.perm_ext_iff_of_nodup hswept.nodup ((List.nodup_finRange _).filter _)).mpr hmem
  refine ⟨?_, ?_, ?_, fun j hij => ?_⟩
  · rw [hswept.caster]
    exact place_end hN
  · rw [hswept.caster]
    exact hperm.map _
  · rw [hswept.caster, ← hperm.length_eq]
  · rw [hswept.others j hij]
    simp only [hmem]

/-- After its `N` ticks the caster is exactly at `dashTo`, and has cut exactly the enemies that
were alive, close enough in depth and between `dashFrom` and the tip at `dashTo`, each of them
once; none of this depends on `N`. -/
theorem no_tunnelling (sk : Skill) (actors : Actors ℚ n) (i : Fin (n + 1)) (dist : ℚ)
    (hready : Ready actors i dist) (hN : 1 ≤ sk.blinkTicks) :
    let z := (dashTick sk i)^[sk.blinkTicks] actors
    let cut (j : Fin (n + 1)) := j ≠ i ∧ (actors j).state ≠ .dead ∧
      (actors j).kind ≠ (actors i).kind ∧
      mathAbs ((actors j).y - (actors i).y) ≤ (sk.depth : ℚ) ∧
      within (actors i).dashFrom ((actors i).dashTo + ((actors i).face : ℚ) * (sk.range : ℚ))
        (actors j).x
    (z i).x = (actors i).dashTo ∧
    (z i).hitIds.Nodup ∧
    (∀ id, id ∈ (z i).hitIds ↔ ∃ j, cut j ∧ (actors j).id = id) ∧
    (z i).lastSkillHit = (actors i).lastSkillHit + (z i).hitIds.length ∧
    (∀ j, cut j → z j = struck (actors i).face sk.dmg sk.knock (actors j)) ∧
    (∀ j ≠ i, ¬cut j → z j = actors j) ∧
    (∀ N, 1 ≤ N →
      let z' := (dashTick { sk with blinkTicks := N } i)^[N] actors
      (z' i).x = (z i).x ∧ (z' i).hitIds.Perm (z i).hitIds ∧
      (z' i).lastSkillHit = (z i).lastSkillHit ∧ ∀ j ≠ i, z' j = z j) := by
  obtain ⟨hx, hids, hcount, hothers⟩ := dash_end hready hN
  have hcut (j : Fin (n + 1)) : j ∈ passed sk actors i (actors i).dashTo ↔
      j ≠ i ∧ (actors j).state ≠ .dead ∧ (actors j).kind ≠ (actors i).kind ∧
        mathAbs ((actors j).y - (actors i).y) ≤ (sk.depth : ℚ) ∧
        within (actors i).dashFrom ((actors i).dashTo + ((actors i).face : ℚ) * (sk.range : ℚ))
          (actors j).x := by
    rw [mem_passed]
    unfold enemy
    tauto
  have hnodup : ((passed sk actors i (actors i).dashTo).map fun j => (actors j).id).Nodup :=
    ((List.nodup_finRange _).filter _).map hready.ids
  refine ⟨hx, hids.nodup_iff.mpr hnodup, fun id => ?_, ?_, fun j hj => ?_, fun j hij hj => ?_,
    fun N hN' => ?_⟩
  · rw [hids.mem_iff, List.mem_map]
    exact exists_congr fun j => and_congr_left fun _ => hcut j
  · rw [hcount, hids.length_eq, List.length_map]
  · rw [hothers j hj.1]
    exact if_pos ((hcut j).mpr hj)
  · rw [hothers j hij]
    exact if_neg fun h => hj ((hcut j).mp h)
  · have hend := @dash_end n { sk with blinkTicks := N } actors i dist hready hN'
    obtain ⟨hx', hids', hcount', hothers'⟩ := hend
    exact ⟨hx'.trans hx.symm, hids'.trans hids.symm, hcount'.trans hcount.symm,
      fun j hij => (hothers' j hij).trans (hothers j hij).symm⟩

/-- A caster at 200 that looks left, and two orcs; the border at 20 cuts its way short. -/
def cornered : Actors ℚ 2
  | 0 =>
    { makeActor 1 .player 200 100 10 with
      face := -1, state := .skill, dashFrom := 200, dashTo := 20 }
  | 1 => makeActor 2 .orc 30 90 3
  | 2 => makeActor 3 .orc 210 100 3

theorem no_tunnelling_cornered :
    Ready cornered 0 340 ∧ 1 ≤ SKILL.blinkTicks ∧
      (((dashTick SKILL 0)^[SKILL.blinkTicks] cornered 0).x = 20 ∧
        2 ∈ ((dashTick SKILL 0)^[SKILL.blinkTicks] cornered 0).hitIds ∧
        3 ∉ ((dashTick SKILL 0)^[SKILL.blinkTicks] cornered 0).hitIds) := by
  have hready : Ready cornered 0 340 := by
    refine ⟨by decide, by decide, by decide +kernel, by decide, by decide +kernel, rfl, rfl, rfl⟩
  have hN : 1 ≤ SKILL.blinkTicks := by decide
  obtain ⟨hx, _, hids, _⟩ := no_tunnelling SKILL cornered 0 340 hready hN
  refine ⟨hready, hN, hx, (hids 2).mpr ⟨1, by decide +kernel⟩, fun h => ?_⟩
  have hno : ¬∃ j : Fin 3, (j ≠ 0 ∧ (cornered j).state ≠ .dead ∧
      (cornered j).kind ≠ (cornered 0).kind ∧
      mathAbs ((cornered j).y - (cornered 0).y) ≤ (SKILL.depth : ℚ) ∧
      within (cornered 0).dashFrom
        ((cornered 0).dashTo + ((cornered 0).face : ℚ) * (SKILL.range : ℚ)) (cornered j).x) ∧
      (cornered j).id = 3 := by decide +kernel
  exact hno ((hids 3).mp h)

end BeltServer.Logic
