import BeltServer.Logic
import Mathlib.Algebra.Order.Ring.Rat
import Mathlib.Data.List.Perm.Lattice
import Mathlib.Tactic.NormNum

/-!
# The target of an assault

`findAssaultTarget` is one pass with a running best. What it computes is the greatest
candidate in a total order on actors, so the order of the array does not matter. The distances are
taken as they are computed, with whatever rounding; only the comparisons between them, and with the
few constants of the search, have to come out as in a linear order.
-/

namespace BeltServer.Logic

set_option autoImplicit false

variable {R K : Type} [Sub R] [Mul R] [IntCast R] [LinearOrder K] {place : R → K} {sk : Skill}
  {caster t u v : Actor R} {l l' : List (Actor R)}

/-! ### The order on actors -/

/-- How far `t` is from the caster, in the direction it looks. -/
def ahead (caster t : Actor R) : R := (t.x - caster.x) * (caster.face : R)

/-- `t` is preferred to `u`: it is farther away, or as far with an id that is not larger. -/
def Preferred (place : R → K) (caster t u : Actor R) : Prop :=
  place (ahead caster u) < place (ahead caster t) ∨
    (place (ahead caster u) = place (ahead caster t) ∧ t.id ≤ u.id)

theorem Preferred.refl (t : Actor R) : Preferred place caster t t := Or.inr ⟨rfl, Nat.le_refl _⟩

theorem Preferred.trans (htu : Preferred place caster t u) (huv : Preferred place caster u v) :
    Preferred place caster t v := by
  rcases htu with hlt | ⟨heq, hid⟩
  · rcases huv with hlt' | ⟨heq', _⟩
    · exact Or.inl (hlt'.trans hlt)
    · exact Or.inl (heq' ▸ hlt)
  · rcases huv with hlt' | ⟨heq', hid'⟩
    · exact Or.inl (heq ▸ hlt')
    · exact Or.inr ⟨heq'.trans heq, Nat.le_trans hid hid'⟩

theorem Preferred.id_eq (htu : Preferred place caster t u) (hut : Preferred place caster u t) :
    t.id = u.id := by
  rcases htu with hlt | ⟨heq, hid⟩
  · rcases hut with hlt' | ⟨heq', _⟩
    · exact absurd hlt' hlt.not_gt
    · exact absurd heq' hlt.ne'
  · rcases hut with hlt' | ⟨_, hid'⟩
    · exact absurd heq hlt'.ne'
    · exact Nat.le_antisymm hid hid'

/-! ### What is compared -/

variable [Neg R] [NatCast R] [LT R] [DecidableLT R]

/-- The values that a search in `l` compares: the distances of the actors in both directions, the
bounds of the search, and the best distance it starts from. -/
inductive Compared (sk : Skill) (caster : Actor R) (l : List (Actor R)) : R → Prop where
  | zero : Compared sk caster l (0 : Nat)
  | start : Compared sk caster l (-((1 : Nat) : R))
  | searchRange : Compared sk caster l (sk.searchRange : R)
  | searchDepth : Compared sk caster l (sk.searchDepth : R)
  | ahead {t : Actor R} (h : t ∈ l) : Compared sk caster l (ahead caster t)
  | depth {t : Actor R} (h : t ∈ l) : Compared sk caster l (mathAbs (t.y - caster.y))

theorem Compared.mono (hsub : ∀ t ∈ l, t ∈ l') {a : R} (h : Compared sk caster l a) :
    Compared sk caster l' a := by
  cases h with
  | zero => exact .zero
  | start => exact .start
  | searchRange => exact .searchRange
  | searchDepth => exact .searchDepth
  | ahead ht => exact .ahead (hsub _ ht)
  | depth ht => exact .depth (hsub _ ht)

variable [LE R]

/-- A living enemy in front of the caster, within reach of the search. -/
structure Candidate (sk : Skill) (caster t : Actor R) : Prop where
  alive : t.state ≠ .dead
  kind : t.kind ≠ caster.kind
  front : ((0 : Nat) : R) < ahead caster t
  range : ahead caster t ≤ (sk.searchRange : R)
  depth : mathAbs (t.y - caster.y) ≤ (sk.searchDepth : R)

structure Chosen (place : R → K) (sk : Skill) (caster : Actor R) (l : List (Actor R))
    (t : Actor R) : Prop where
  mem : t ∈ l
  candidate : Candidate sk caster t
  preferred : ∀ u ∈ l, Candidate sk caster u → Preferred place caster t u

theorem Chosen.eq (hids : (l.map fun t => t.id).Nodup) (ht : Chosen place sk caster l t)
    (hu : Chosen place sk caster l u) : t = u := by
  have hid := (ht.preferred u hu.mem hu.candidate).id_eq (hu.preferred t ht.mem ht.candidate)
  exact List.inj_on_of_nodup_map hids ht.mem hu.mem hid

theorem Chosen.perm (hperm : l.Perm l') (h : Chosen place sk caster l' t) :
    Chosen place sk caster l t where
  mem := hperm.mem_iff.mpr h.mem
  candidate := h.candidate
  preferred u hu := h.preferred u (hperm.mem_iff.mp hu)

variable [BEq R]

/-- These values have places in a linear order, and are compared by them. Of doubles it says that
none of them is NaN. -/
structure Ordered (place : R → K) (sk : Skill) (caster : Actor R)
    (l : List (Actor R)) : Prop where
  lt : ∀ {a b}, Compared sk caster l a → Compared sk caster l b → (a < b ↔ place a < place b)
  le : ∀ {a b}, Compared sk caster l a → Compared sk caster l b → (a ≤ b ↔ place a ≤ place b)
  beq : ∀ {a b}, Compared sk caster l a → Compared sk caster l b →
    ((a == b) = true ↔ place a = place b)
  start : place (-((1 : Nat) : R)) < place (0 : Nat)

theorem Ordered.mono (hsub : ∀ t ∈ l, t ∈ l') (h : Ordered place sk caster l') :
    Ordered place sk caster l where
  lt ha hb := h.lt (ha.mono hsub) (hb.mono hsub)
  le ha hb := h.le (ha.mono hsub) (hb.mono hsub)
  beq ha hb := h.beq (ha.mono hsub) (hb.mono hsub)
  start := h.start

namespace Ordered

variable (h : Ordered place sk caster l) (ht : t ∈ l)
include h ht

/-- The comparison of two distances, as the search makes it. -/
theorem preferred_iff (hu : u ∈ l) : Preferred place caster t u ↔
    ahead caster u < ahead caster t ∨ (ahead caster u == ahead caster t) = true ∧ t.id ≤ u.id := by
  unfold Preferred
  rw [h.lt (.ahead hu) (.ahead ht), h.beq (.ahead hu) (.ahead ht)]

theorem front_iff : ¬ahead caster t ≤ ((0 : Nat) : R) ↔ ((0 : Nat) : R) < ahead caster t := by
  rw [h.le (.ahead ht) .zero, h.lt .zero (.ahead ht)]
  exact not_le

theorem range_iff : ¬(sk.searchRange : R) < ahead caster t ↔
    ahead caster t ≤ (sk.searchRange : R) := by
  rw [h.lt .searchRange (.ahead ht), h.le (.ahead ht) .searchRange]
  exact not_lt

theorem depth_iff : ¬(sk.searchDepth : R) < mathAbs (t.y - caster.y) ↔
    mathAbs (t.y - caster.y) ≤ (sk.searchDepth : R) := by
  rw [h.lt .searchDepth (.depth ht), h.le (.depth ht) .searchDepth]
  exact not_lt

end Ordered

/-! ### The pass -/

variable [DecidableLE R]

/-- The running best after the actors of `l`. -/
inductive Best (place : R → K) (sk : Skill) (caster : Actor R) (l : List (Actor R)) :
    Option (Actor R) × R → Prop where
  | none : (∀ t ∈ l, ¬Candidate sk caster t) → Best place sk caster l (none, -((1 : Nat) : R))
  | some {t : Actor R} : Chosen place sk caster l t →
      Best place sk caster l (some t, ahead caster t)

theorem consider_other {best : Option (Actor R) × R} (hord : Ordered place sk caster l)
    (ht : t ∈ l) (h : ¬Candidate sk caster t) : consider sk caster best t = best := by
  unfold consider
  dsimp only
  split_ifs with hdead hfar hdepth hbetter
  · rfl
  · rfl
  · rfl
  · rw [not_or] at hdead hfar
    exact absurd ⟨hdead.1, hdead.2, (hord.front_iff ht).mp hfar.1, (hord.range_iff ht).mp hfar.2,
      (hord.depth_iff ht).mp hdepth⟩ h
  · rfl

theorem consider_candidate {best : Option (Actor R) × R} (hord : Ordered place sk caster l)
    (ht : t ∈ l) (h : Candidate sk caster t) :
    consider sk caster best t =
      if best.2 < ahead caster t ∨
        ((ahead caster t == best.2) = true ∧ best.1.any (fun b => t.id < b.id) = true) then
        (some t, ahead caster t) else best := by
  have hreach : ¬((t.x - caster.x) * (caster.face : R) ≤ ((0 : Nat) : R) ∨
      (sk.searchRange : R) < (t.x - caster.x) * (caster.face : R)) :=
    not_or.mpr ⟨(hord.front_iff ht).mpr h.front, (hord.range_iff ht).mpr h.range⟩
  unfold consider
  rw [if_neg (not_or.mpr ⟨h.alive, h.kind⟩)]
  dsimp only
  rw [if_neg hreach, if_neg ((hord.depth_iff ht).mpr h.depth)]
  rfl

/-- One more actor: the step of the induction over the pass. -/
theorem Best.step {best : Option (Actor R) × R} (hord : Ordered place sk caster (l ++ [t]))
    (h : Best place sk caster l best) :
    Best place sk caster (l ++ [t]) (consider sk caster best t) := by
  have hlast : t ∈ l ++ [t] := List.mem_append_right _ List.mem_cons_self
  by_cases hcand : Candidate sk caster t
  · rw [consider_candidate hord hlast hcand]
    cases h with
    | none hno =>
      have hfront : -((1 : Nat) : R) < ahead caster t := by
        rw [hord.lt .start (.ahead hlast)]
        exact hord.start.trans ((hord.lt .zero (.ahead hlast)).mp hcand.front)
      rw [if_pos (Or.inl hfront)]
      refine .some ⟨hlast, hcand, fun u hu hu' => ?_⟩
      rcases List.mem_append.mp hu with hu | hu
      · exact absurd hu' (hno u hu)
      · rw [List.mem_singleton.mp hu]
        exact .refl t
    | @some b hb =>
      have hfirst : b ∈ l ++ [t] := List.mem_append_left _ hb.mem
      split_ifs with hbetter
      · have htb : Preferred place caster t b := by
          rw [hord.preferred_iff hlast hfirst]
          rcases hbetter with hlt | ⟨heq, hid⟩
          · exact Or.inl hlt
          · rw [hord.beq (.ahead hlast) (.ahead hfirst)] at heq
            rw [hord.beq (.ahead hfirst) (.ahead hlast)]
            exact Or.inr ⟨heq.symm, (of_decide_eq_true hid).le⟩
        refine .some ⟨hlast, hcand, fun u hu hu' => ?_⟩
        rcases List.mem_append.mp hu with hu | hu
        · exact htb.trans (hb.preferred u hu hu')
        · rw [List.mem_singleton.mp hu]
          exact .refl t
      · have hbt : Preferred place caster b t := by
          rw [not_or, hord.lt (.ahead hfirst) (.ahead hlast),
            hord.beq (.ahead hlast) (.ahead hfirst)] at hbetter
          rcases lt_or_eq_of_le (not_lt.mp hbetter.1) with hlt | heq
          · exact Or.inl hlt
          · refine Or.inr ⟨heq, not_lt.mp fun hid => ?_⟩
            exact hbetter.2 ⟨heq, decide_eq_true hid⟩
        refine .some ⟨hfirst, hb.candidate, fun u hu hu' => ?_⟩
        rcases List.mem_append.mp hu with hu | hu
        · exact hb.preferred u hu hu'
        · rw [List.mem_singleton.mp hu]
          exact hbt
  · rw [consider_other hord hlast hcand]
    cases h with
    | none hno =>
      refine .none fun u hu => ?_
      rcases List.mem_append.mp hu with hu | hu
      · exact hno u hu
      · rw [List.mem_singleton.mp hu]
        exact hcand
    | some hb =>
      refine .some ⟨List.mem_append_left _ hb.mem, hb.candidate, fun u hu hu' => ?_⟩
      rcases List.mem_append.mp hu with hu | hu
      · exact hb.preferred u hu hu'
      · rw [List.mem_singleton.mp hu] at hu'
        exact absurd hu' hcand

theorem best_foldl (hord : Ordered place sk caster l) :
    Best place sk caster l (l.foldl (consider sk caster) (none, -((1 : Nat) : R))) := by
  induction l using List.reverseRecOn with
  | nil => exact .none fun t ht => absurd ht List.not_mem_nil
  | append_singleton l t ih =>
    rw [List.foldl_append]
    exact .step hord (ih (hord.mono fun _ => List.mem_append_left _))

/-- What is found is the chosen one, and nothing is found only if there is no candidate. -/
theorem findAssaultTarget_spec (hord : Ordered place sk caster l) :
    (∃ t, findAssaultTarget sk l caster = some t ∧ Chosen place sk caster l t) ∨
      (findAssaultTarget sk l caster = none ∧ ∀ t ∈ l, ¬Candidate sk caster t) := by
  have hbest := best_foldl hord
  unfold findAssaultTarget
  generalize l.foldl (consider sk caster) (none, -((1 : Nat) : R)) = best at hbest ⊢
  cases hbest with
  | none hno => exact Or.inr ⟨rfl, hno⟩
  | some hchosen => exact Or.inl ⟨_, rfl, hchosen⟩

theorem findAssaultTarget_eq_some_iff (hids : (l.map fun t => t.id).Nodup)
    (hord : Ordered place sk caster l) :
    findAssaultTarget sk l caster = some t ↔ Chosen place sk caster l t := by
  rcases findAssaultTarget_spec hord with ⟨u, heq, hu⟩ | ⟨heq, hno⟩
  · rw [heq, Option.some_inj]
    constructor
    · rintro rfl
      exact hu
    · exact hu.eq hids
  · rw [heq]
    constructor
    · rintro ⟨⟩
    · exact fun ht => absurd ht.candidate (hno t ht.mem)

theorem findAssaultTarget_eq_none_iff (hord : Ordered place sk caster l) :
    findAssaultTarget sk l caster = none ↔ ∀ t ∈ l, ¬Candidate sk caster t := by
  rcases findAssaultTarget_spec hord with ⟨u, heq, hu⟩ | ⟨heq, hno⟩
  · rw [heq]
    constructor
    · rintro ⟨⟩
    · exact fun hno => absurd hu.candidate (hno u hu.mem)
  · exact ⟨fun _ => hno, fun _ => heq⟩

theorem findAssaultTarget_perm (hids : (l.map fun t => t.id).Nodup)
    (hord : Ordered place sk caster l) (hperm : l.Perm l') :
    findAssaultTarget sk l' caster = findAssaultTarget sk l caster := by
  have hord' : Ordered place sk caster l' := hord.mono fun _ => hperm.mem_iff.mpr
  rcases findAssaultTarget_spec hord' with ⟨u, heq, hu⟩ | ⟨heq, hno⟩
  · rw [heq, (findAssaultTarget_eq_some_iff hids hord).mpr (hu.perm hperm)]
  · rw [heq, (findAssaultTarget_eq_none_iff hord).mpr fun t ht => hno t (hperm.mem_iff.mp ht)]

/-- Whatever the order of the actors, the target is the living enemy in front of the caster and
within reach that is farthest away, of several as far the one with the smallest id; there is
none exactly if there is no such enemy. -/
theorem target_choice (place : R → K) (sk : Skill) (caster : Actor R) (l : List (Actor R))
    (hids : (l.map fun t => t.id).Nodup) (hord : Ordered place sk caster l) :
    (∀ l', l.Perm l' → findAssaultTarget sk l' caster = findAssaultTarget sk l caster) ∧
    (∀ t, findAssaultTarget sk l caster = some t ↔
      t ∈ l ∧ Candidate sk caster t ∧ ∀ u ∈ l, Candidate sk caster u →
        ahead caster u < ahead caster t ∨
          (ahead caster u == ahead caster t) = true ∧ t.id ≤ u.id) ∧
    (findAssaultTarget sk l caster = none ↔ ∀ t ∈ l, ¬Candidate sk caster t) := by
  refine ⟨fun l' => findAssaultTarget_perm hids hord, fun t => ?_,
    findAssaultTarget_eq_none_iff hord⟩
  rw [findAssaultTarget_eq_some_iff hids hord]
  constructor
  · intro ht
    exact ⟨ht.mem, ht.candidate, fun u hu hu' =>
      (hord.preferred_iff ht.mem hu).mp (ht.preferred u hu hu')⟩
  · rintro ⟨hmem, hcand, hbest⟩
    exact ⟨hmem, hcand, fun u hu hu' => (hord.preferred_iff hmem hu).mpr (hbest u hu hu')⟩

/-- Exact numbers are their own places. -/
theorem ordered_rat (sk : Skill) (caster : Actor ℚ) (l : List (Actor ℚ)) :
    Ordered (id : ℚ → ℚ) sk caster l where
  lt _ _ := Iff.rfl
  le _ _ := Iff.rfl
  beq _ _ := beq_iff_eq
  start := by
    push_cast
    norm_num

/-- Two orcs at the same distance: the one with the smaller id, in both orders. -/
theorem target_choice_tie :
    let orcs : List (Actor ℚ) := [makeActor 3 .orc 300 90 3, makeActor 2 .orc 300 110 3]
    let caster : Actor ℚ := makeActor 1 .player 180 100 10
    (orcs.map fun t => t.id).Nodup ∧
      findAssaultTarget SKILL orcs.reverse caster = findAssaultTarget SKILL orcs caster ∧
      (findAssaultTarget SKILL orcs caster).map (fun t => t.id) = some 2 := by
  refine ⟨by decide, ?_, by decide +kernel⟩
  exact (target_choice id SKILL _ _ (by decide) (ordered_rat ..)).1 _ (List.reverse_perm _).symm

end BeltServer.Logic
