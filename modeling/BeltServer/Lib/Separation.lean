import BeltServer.Lib.Tally
import Mathlib.Algebra.Order.Field.Basic
import Mathlib.Data.List.FinRange
import Mathlib.Tactic.Linarith
import Mathlib.Tactic.Ring

/-!
# Pushing boxes apart

Boxes of one size lie in the plane. A loop goes over pairs of them and pushes two that
overlap apart, each by half of the overlap along the axis that overlaps less. What one visit
of a pair does, and from it what a run over any list of pairs does.
-/

namespace Separation

set_option autoImplicit false

/-- The half extents of a box. -/
structure Body (R : Type) where
  halfW : R
  halfD : R

section Rule

variable {R : Type} [Field R] [LinearOrder R] (b : Body R) {p q d : R × R}

def Body.depthX (p q : R × R) : R := b.halfW * 2 - |q.1 - p.1|

def Body.depthY (p q : R × R) : R := b.halfD * 2 - |q.2 - p.2|

def Body.Overlap (p q : R × R) : Prop := 0 < b.depthX p q ∧ 0 < b.depthY p q

def sign (v : R) : R := if 0 ≤ v then 1 else -1

/-- The push that the second of two boxes gets; the first gets the opposite one. -/
def Body.push (p q : R × R) : R × R :=
  if b.depthX p q ≤ 0 ∨ b.depthY p q ≤ 0 then 0
  else if b.depthX p q < b.depthY p q then (sign (q.1 - p.1) * b.depthX p q * (1 / 2), 0)
  else (0, sign (q.2 - p.2) * b.depthY p q * (1 / 2))

/-- Boxes that do not overlap get no push. Others get one along the axis of the smaller
overlap, the second axis on a tie, of at most the half depth, and lie apart after it. -/
inductive Pushed (p q d : R × R) : Prop
  | clear (hclear : ¬ b.Overlap p q) (hd : d = 0)
  | alongX (hover : b.Overlap p q) (hless : b.depthX p q < b.depthY p q)
      (hmoved : d.1 ≠ 0) (hreach : |d.1| ≤ b.halfD) (hother : d.2 = 0)
      (hapart : ¬ b.Overlap (p - d) (q + d))
  | alongY (hover : b.Overlap p q) (hless : b.depthY p q ≤ b.depthX p q)
      (hmoved : d.2 ≠ 0) (hreach : |d.2| ≤ b.halfD) (hother : d.1 = 0)
      (hapart : ¬ b.Overlap (p - d) (q + d))

variable {b}

theorem Pushed.apart (h : Pushed b p q d) : ¬ b.Overlap (p - d) (q + d) := by
  cases h with
  | clear hclear hd =>
    rw [hd, sub_zero, add_zero]
    exact hclear
  | alongX _ _ _ _ _ hapart => exact hapart
  | alongY _ _ _ _ _ hapart => exact hapart

variable [IsStrictOrderedRing R]

theorem sign_mul_abs (v : R) : sign v * |v| = v := by
  unfold sign
  split
  · next h => rw [abs_of_nonneg h, one_mul]
  · next h => rw [abs_of_neg (not_le.mp h), neg_mul_neg, one_mul]

theorem abs_sign_mul {v m : R} (hm : 0 ≤ m) : |sign v * m| = m := by
  unfold sign
  split
  · rw [one_mul, abs_of_nonneg hm]
  · rw [neg_one_mul, abs_neg, abs_of_nonneg hm]

/-- Two ends that recede from each other by half of `m` each end `m` further apart. -/
theorem receded (v : R) {m : R} (hm : 0 ≤ m) :
    |v + sign v * m * (1 / 2) + sign v * m * (1 / 2)| = |v| + m := by
  have hsum : v + sign v * m * (1 / 2) + sign v * m * (1 / 2) = sign v * (|v| + m) := by
    calc v + sign v * m * (1 / 2) + sign v * m * (1 / 2) = v + sign v * m := by ring
      _ = sign v * |v| + sign v * m := by rw [sign_mul_abs]
      _ = sign v * (|v| + m) := by ring
  rw [hsum]
  apply abs_sign_mul
  exact add_nonneg (abs_nonneg v) hm

theorem half_push_ne {v m : R} (hm : 0 < m) : sign v * m * (1 / 2) ≠ 0 := by
  have habs : |sign v * (m * (1 / 2))| = m * (1 / 2) := abs_sign_mul (by linarith)
  intro h
  rw [mul_assoc] at h
  rw [h, abs_zero] at habs
  linarith

theorem half_push_le {v m l : R} (hm : 0 < m) (hl : m ≤ l * 2) : |sign v * m * (1 / 2)| ≤ l := by
  rw [mul_assoc, abs_sign_mul (by linarith)]
  linarith

theorem Body.depthY_le (p q : R × R) : b.depthY p q ≤ b.halfD * 2 := by
  have h := abs_nonneg (q.2 - p.2)
  unfold Body.depthY
  linarith

theorem apart_of_depthX (h : b.depthX p q ≤ 0) : ¬ b.Overlap p q := fun hover => by
  have hx := hover.1
  linarith

theorem apart_of_depthY (h : b.depthY p q ≤ 0) : ¬ b.Overlap p q := fun hover => by
  have hy := hover.2
  linarith

theorem push_pushed (p q : R × R) : Pushed b p q (b.push p q) := by
  unfold Body.push
  split
  · next hclear =>
    refine .clear (fun hover => ?_) rfl
    rcases hclear with hx | hy
    · exact apart_of_depthX hx hover
    · exact apart_of_depthY hy hover
  next hover =>
  rw [not_or, not_le, not_le] at hover
  split
  · next hless =>
    refine .alongX hover hless (half_push_ne hover.1) ?_ rfl (apart_of_depthX ?_)
    · apply half_push_le hover.1
      have hdepth := b.depthY_le p q
      linarith
    · -- the horizontal gap has grown to a full width
      have hgap := receded (q.1 - p.1) hover.1.le
      unfold Body.depthX at hgap ⊢
      have heq : ∀ u v w : R, v + w - (u - w) = v - u + w + w := fun u v w => by ring
      rw [Prod.fst_add, Prod.fst_sub, heq, hgap]
      linarith
  · next hless =>
    refine .alongY hover (not_lt.mp hless) (half_push_ne hover.2) ?_ rfl (apart_of_depthY ?_)
    · apply half_push_le hover.2
      exact b.depthY_le p q
    · have hgap := receded (q.2 - p.2) hover.2.le
      unfold Body.depthY at hgap ⊢
      have heq : ∀ u v w : R, v + w - (u - w) = v - u + w + w := fun u v w => by ring
      rw [Prod.snd_add, Prod.snd_sub, heq, hgap]
      linarith

/-- A push is at most the half depth along each axis. -/
theorem Pushed.reach (h : Pushed b p q d) (hpos : 0 ≤ b.halfD) :
    |d.1| ≤ b.halfD ∧ |d.2| ≤ b.halfD := by
  cases h with
  | clear _ hd =>
    rw [hd, Prod.fst_zero, Prod.snd_zero, abs_zero]
    exact ⟨hpos, hpos⟩
  | alongX _ _ _ hreach hother _ =>
    rw [hother, abs_zero]
    exact ⟨hreach, hpos⟩
  | alongY _ _ _ hreach hother _ =>
    rw [hother, abs_zero]
    exact ⟨hpos, hreach⟩

end Rule

/-! ### The loop -/

/-- The pairs of `active` in the order of the double loop. -/
def pairs {n : Nat} (active : Finset (Fin n)) : List (Fin n × Fin n) :=
  ((List.finRange n).filter (· ∈ active)).flatMap fun i =>
    (((List.finRange n).filter fun j => i < j).filter (· ∈ active)).map (Prod.mk i)

section Pairs

variable {n : Nat} {active : Finset (Fin n)} {α : Type}

theorem mem_pairs {p : Fin n × Fin n} :
    p ∈ pairs active ↔ p.1 ∈ active ∧ p.2 ∈ active ∧ p.1 < p.2 := by
  rcases p with ⟨i, j⟩
  simp only [pairs, List.mem_flatMap, List.mem_map, List.mem_filter, List.mem_finRange,
    decide_eq_true_eq, true_and, Prod.mk.injEq]
  constructor
  · rintro ⟨i', hi, j', ⟨hless, hj⟩, rfl, rfl⟩
    exact ⟨hi, hj, hless⟩
  · rintro ⟨hi, hj, hless⟩
    exact ⟨i, hi, j, ⟨hless, hj⟩, rfl, rfl⟩

theorem pairs_nodup : (pairs active).Nodup := by
  unfold pairs
  rw [List.nodup_flatMap]
  constructor
  · intro i _
    apply List.Nodup.map (Prod.mk_right_injective i)
    exact ((List.nodup_finRange n).filter _).filter _
  · apply ((List.nodup_finRange n).filter _).imp
    intro i i' hne p hp hp'
    obtain ⟨_, _, rfl⟩ := List.mem_map.mp hp
    obtain ⟨_, _, h⟩ := List.mem_map.mp hp'
    exact hne (congrArg Prod.fst h).symm

/-- A box meets every other one at most once. -/
theorem pairs_count {k : Fin n} (hk : k ∈ active) :
    (pairs active).countP (fun p => p.1 = k ∨ p.2 = k) + 1 ≤ active.card := by
  have hcard : ((pairs active).filter fun p => p.1 = k ∨ p.2 = k).toFinset.card
      ≤ (active.erase k).card := by
    apply Finset.card_le_card_of_injOn fun p => if p.1 = k then p.2 else p.1
    · intro p hp
      rw [Finset.mem_coe, List.mem_toFinset, List.mem_filter, mem_pairs, decide_eq_true_eq] at hp
      obtain ⟨⟨hi, hj, hless⟩, hat⟩ := hp
      rw [Finset.mem_coe, Finset.mem_erase]
      dsimp only
      split
      · next h => exact ⟨fun hjk => by omega, hj⟩
      · next h => exact ⟨h, hi⟩
    · intro p hp p' hp' heq
      rw [Finset.mem_coe, List.mem_toFinset, List.mem_filter, mem_pairs, decide_eq_true_eq]
        at hp hp'
      obtain ⟨⟨_, _, hless⟩, hat⟩ := hp
      obtain ⟨⟨_, _, hless'⟩, hat'⟩ := hp'
      rw [Prod.ext_iff]
      grind
  rw [List.toFinset_card_of_nodup (pairs_nodup.filter _), ← List.countP_eq_length_filter] at hcard
  have hone := Finset.card_erase_add_one hk
  omega

variable {f : α → Fin n × Fin n → α} {s : α → Fin n → Bool}
  (hkeep : ∀ A p i, s (f A p) i = s A i)
include hkeep

theorem foldl_keeps (xs : List (Fin n × Fin n)) (A : α) (i : Fin n) :
    s (xs.foldl f A) i = s A i := by
  induction xs generalizing A with
  | nil => rfl
  | cons p xs ih => rw [List.foldl_cons, ih, hkeep]

theorem foldl_inner {A : α} (hskip : ∀ i, s A i = decide (i ∉ active)) (i : Fin n)
    (js : List (Fin n)) :
    js.foldl (fun A j => if s A j then A else f A (i, j)) A
      = ((js.filter (· ∈ active)).map (Prod.mk i)).foldl f A := by
  induction js generalizing A with
  | nil => rfl
  | cons j js ih =>
    rw [List.foldl_cons, hskip]
    by_cases hj : j ∈ active
    · rw [List.filter_cons_of_pos (by simpa using hj), List.map_cons, List.foldl_cons,
        if_neg (by simpa using hj)]
      exact ih fun k => by rw [hkeep, hskip]
    · rw [List.filter_cons_of_neg (by simpa using hj), if_pos (by simpa using hj)]
      exact ih hskip

/-- A double loop that passes over what is not active goes over the active pairs. -/
theorem foldl_pairs {A : α} (hskip : ∀ i, s A i = decide (i ∉ active)) :
    (List.finRange n).foldl (fun A i => if s A i then A
      else ((List.finRange n).filter fun j => i < j).foldl
        (fun A j => if s A j then A else f A (i, j)) A) A
      = (pairs active).foldl f A := by
  unfold pairs
  generalize hjs : (fun i : Fin n => (List.finRange n).filter fun j => decide (i < j)) = js
  have hat (i : Fin n) : ((List.finRange n).filter fun j => decide (i < j)) = js i :=
    congrFun hjs i
  simp only [hat]
  induction List.finRange n generalizing A with
  | nil => rfl
  | cons i is ih =>
    rw [List.foldl_cons, hskip]
    by_cases hi : i ∈ active
    · rw [List.filter_cons_of_pos (by simpa using hi), List.flatMap_cons, List.foldl_append,
        if_neg (by simpa using hi), foldl_inner hkeep hskip]
      exact ih fun k => by rw [foldl_keeps hkeep, hskip]
    · rw [List.filter_cons_of_neg (by simpa using hi), if_pos (by simpa using hi)]
      exact ih hskip

end Pairs

section Run

variable {R : Type} [Field R] [LinearOrder R] {n : Nat}

def Body.visit (b : Body R) (S : Fin n → R × R) (p : Fin n × Fin n) : Fin n → R × R :=
  let d := b.push (S p.1) (S p.2)
  Function.update (Function.update S p.1 (S p.1 - d)) p.2 (S p.2 + d)

section Visit

variable {b : Body R} {S : Fin n → R × R} {p : Fin n × Fin n}

theorem visit_clear (h : b.depthX (S p.1) (S p.2) ≤ 0 ∨ b.depthY (S p.1) (S p.2) ≤ 0) :
    b.visit S p = S := by
  unfold Body.visit Body.push
  rw [if_pos h]
  simp

variable (h : ¬ (b.depthX (S p.1) (S p.2) ≤ 0 ∨ b.depthY (S p.1) (S p.2) ≤ 0))
include h

theorem visit_alongX (hless : b.depthX (S p.1) (S p.2) < b.depthY (S p.1) (S p.2)) {m : R}
    (hm : m = sign ((S p.2).1 - (S p.1).1) * b.depthX (S p.1) (S p.2) * (1 / 2)) :
    b.visit S p = Function.update (Function.update S p.1 ((S p.1).1 - m, (S p.1).2)) p.2
      ((S p.2).1 + m, (S p.2).2) := by
  unfold Body.visit Body.push
  rw [if_neg h, if_pos hless, ← hm]
  have hfirst : S p.1 - (m, 0) = ((S p.1).1 - m, (S p.1).2) := Prod.ext rfl (sub_zero _)
  have hsecond : S p.2 + (m, 0) = ((S p.2).1 + m, (S p.2).2) := Prod.ext rfl (add_zero _)
  dsimp only
  rw [hfirst, hsecond]

theorem visit_alongY (hless : ¬ b.depthX (S p.1) (S p.2) < b.depthY (S p.1) (S p.2)) {m : R}
    (hm : m = sign ((S p.2).2 - (S p.1).2) * b.depthY (S p.1) (S p.2) * (1 / 2)) :
    b.visit S p = Function.update (Function.update S p.1 ((S p.1).1, (S p.1).2 - m)) p.2
      ((S p.2).1, (S p.2).2 + m) := by
  unfold Body.visit Body.push
  rw [if_neg h, if_neg hless, ← hm]
  have hfirst : S p.1 - (0, m) = ((S p.1).1, (S p.1).2 - m) := Prod.ext (sub_zero _) rfl
  have hsecond : S p.2 + (0, m) = ((S p.2).1, (S p.2).2 + m) := Prod.ext (add_zero _) rfl
  dsimp only
  rw [hfirst, hsecond]

end Visit

/-- The two boxes of `p` move by opposite pushes, the others stay. -/
def Visited (b : Body R) (p : Fin n × Fin n) (S T : Fin n → R × R) : Prop :=
  ∃ d, Pushed b (S p.1) (S p.2) d ∧ T p.1 = S p.1 - d ∧ T p.2 = S p.2 + d ∧
    ∀ k, k ≠ p.1 → k ≠ p.2 → T k = S k

/-- What the loop over the pairs of `active` does; `states xs` is where the boxes are once the
pairs of `xs` have been visited. -/
structure Fair (b : Body R) (active : Finset (Fin n))
    (states : List (Fin n × Fin n) → Fin n → R × R) : Prop where
  visited : ∀ xs p ys, pairs active = xs ++ p :: ys →
    Visited b p (states xs) (states (xs ++ [p]))
  sumX : ∑ i ∈ active, (states (pairs active) i).1 = ∑ i ∈ active, (states [] i).1
  sumY : ∑ i ∈ active, (states (pairs active) i).2 = ∑ i ∈ active, (states [] i).2
  still : ∀ i, i ∉ active → states (pairs active) i = states [] i
  reachX : ∀ i ∈ active,
    |(states (pairs active) i).1 - (states [] i).1| ≤ b.halfD * (active.card - 1)
  reachY : ∀ i ∈ active,
    |(states (pairs active) i).2 - (states [] i).2| ≤ b.halfD * (active.card - 1)

variable [IsStrictOrderedRing R] {b : Body R} {active : Finset (Fin n)}

theorem visit_visited (S : Fin n → R × R) {p : Fin n × Fin n} (hne : p.1 ≠ p.2) :
    Visited b p S (b.visit S p) := by
  refine ⟨_, push_pushed (S p.1) (S p.2), ?_, Function.update_self .., fun k hi hj => ?_⟩
  · exact (Function.update_of_ne hne _ _).trans (Function.update_self ..)
  · exact (Function.update_of_ne hj _ _).trans (Function.update_of_ne hi _ _)

section Coordinate

/-! A coordinate `f` of the boxes. -/

variable {f : R × R → R} (hadd : ∀ p d, f (p + d) = f p + f d)
  (hsub : ∀ p d, f (p - d) = f p - f d)
include hadd hsub

theorem visit_sum (S : Fin n → R × R) {p : Fin n × Fin n} (hi : p.1 ∈ active)
    (hj : p.2 ∈ active) (hne : p.1 ≠ p.2) :
    ∑ i ∈ active, f (b.visit S p i) = ∑ i ∈ active, f (S i) := by
  obtain ⟨d, _, hfirst, hsecond, hrest⟩ := visit_visited (b := b) S hne
  have h := Tally.sum_change_two (f := fun i => f (S i)) (g := fun i => f (b.visit S p i))
    hi hj hne fun k hki hkj => congrArg f (hrest k hki hkj)
  rw [hfirst, hsecond, hsub, hadd] at h
  linarith

theorem run_sum {xs : List (Fin n × Fin n)} (hxs : ∀ p ∈ xs, p ∈ pairs active)
    (S : Fin n → R × R) :
    ∑ i ∈ active, f (xs.foldl b.visit S i) = ∑ i ∈ active, f (S i) := by
  induction xs generalizing S with
  | nil => rfl
  | cons p xs ih =>
    obtain ⟨hi, hj, hless⟩ := mem_pairs.mp (hxs p List.mem_cons_self)
    rw [List.foldl_cons, ih fun q hq => hxs q (List.mem_cons_of_mem _ hq)]
    exact visit_sum hadd hsub S hi hj (Fin.ne_of_lt hless)

/-- A box moves by at most the half depth for each pair it is in. -/
theorem run_reach (hreach : ∀ {p q d}, Pushed b p q d → |f d| ≤ b.halfD)
    {xs : List (Fin n × Fin n)} (hxs : ∀ p ∈ xs, p.1 ≠ p.2) (S : Fin n → R × R) (k : Fin n) :
    |f (xs.foldl b.visit S k) - f (S k)|
      ≤ b.halfD * (xs.countP fun p => p.1 = k ∨ p.2 = k : Nat) := by
  induction xs generalizing S with
  | nil => simp
  | cons p xs ih =>
    have htail := ih (fun q hq => hxs q (List.mem_cons_of_mem _ hq)) (b.visit S p)
    obtain ⟨d, hpushed, hfirst, hsecond, hrest⟩ :=
      visit_visited (b := b) S (hxs p List.mem_cons_self)
    have hd : |f d| ≤ b.halfD := hreach hpushed
    have htri := abs_sub_le (f (xs.foldl b.visit (b.visit S p) k)) (f (b.visit S p k)) (f (S k))
    rw [List.foldl_cons, List.countP_cons]
    by_cases hat : p.1 = k ∨ p.2 = k
    · have hone : |f (b.visit S p k) - f (S k)| ≤ b.halfD := by
        rcases hat with rfl | rfl
        · rw [hfirst, hsub, sub_sub_cancel_left, abs_neg]
          exact hd
        · rw [hsecond, hadd, add_sub_cancel_left]
          exact hd
      rw [if_pos (by simpa using hat), Nat.cast_add, Nat.cast_one, mul_add, mul_one]
      linarith
    · have hstill : b.visit S p k = S k := hrest k (by grind) (by grind)
      rw [if_neg (by simpa using hat), add_zero]
      rw [hstill] at htail
      exact htail

end Coordinate

theorem run_still {xs : List (Fin n × Fin n)} (hxs : ∀ p ∈ xs, p ∈ pairs active)
    (S : Fin n → R × R) {k : Fin n} (hk : k ∉ active) : xs.foldl b.visit S k = S k := by
  induction xs generalizing S with
  | nil => rfl
  | cons p xs ih =>
    obtain ⟨hi, hj, hless⟩ := mem_pairs.mp (hxs p List.mem_cons_self)
    obtain ⟨d, _, _, _, hrest⟩ := visit_visited (b := b) S (Fin.ne_of_lt hless)
    rw [List.foldl_cons, ih fun q hq => hxs q (List.mem_cons_of_mem _ hq)]
    apply hrest
    · exact fun h => hk (h ▸ hi)
    · exact fun h => hk (h ▸ hj)

/-- The loop pushes fairly, whatever the boxes it starts from. -/
theorem fair_run (hpos : 0 ≤ b.halfD) (active : Finset (Fin n)) (S : Fin n → R × R) :
    Fair b active fun xs => xs.foldl b.visit S := by
  have hne : ∀ p ∈ pairs active, p.1 ≠ p.2 := fun p hp => Fin.ne_of_lt (mem_pairs.mp hp).2.2
  have hbound {k : Fin n} (hk : k ∈ active) :
      b.halfD * ((pairs active).countP fun p => p.1 = k ∨ p.2 = k : Nat)
        ≤ b.halfD * (active.card - 1) := by
    apply mul_le_mul_of_nonneg_left _ hpos
    have hcount := pairs_count hk
    have hcast : ((pairs active).countP (fun p => p.1 = k ∨ p.2 = k) : R) + 1 ≤ active.card := by
      exact_mod_cast hcount
    linarith
  refine ⟨fun xs p ys hsplit => ?_, ?_, ?_, fun i hi => ?_, fun i hi => ?_, fun i hi => ?_⟩
  · rw [List.foldl_append]
    apply visit_visited
    apply hne
    rw [hsplit]
    exact List.mem_append_right _ List.mem_cons_self
  · exact run_sum (fun _ _ => rfl) (fun _ _ => rfl) (fun _ hp => hp) S
  · exact run_sum (fun _ _ => rfl) (fun _ _ => rfl) (fun _ hp => hp) S
  · exact run_still (fun _ hp => hp) S hi
  · exact (run_reach (fun _ _ => rfl) (fun _ _ => rfl) (fun h => (h.reach hpos).1)
      hne S i).trans (hbound hi)
  · exact (run_reach (fun _ _ => rfl) (fun _ _ => rfl) (fun h => (h.reach hpos).2)
      hne S i).trans (hbound hi)

end Run

end Separation
