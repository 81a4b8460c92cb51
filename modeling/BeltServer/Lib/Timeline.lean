import Mathlib.Algebra.Order.Field.Basic
import Mathlib.Tactic.FieldSimp
import Mathlib.Tactic.Linarith
import Mathlib.Tactic.Ring

/-!
# Between timed values

The two neighbours of a list around a time, and the value on the way from one to the other.
-/

namespace Timeline

set_option autoImplicit false

/-! ### Neighbours -/

section Neighbours
variable {α T : Type} [LinearOrder T]

def around (time : α → T) (t : T) : List α → Option (α × α)
  | x :: y :: rest => if time x ≤ t ∧ t ≤ time y then some (x, y) else around time t (y :: rest)
  | _ => none

variable {time : α → T} {t : T} {l : List α} {x y z : α}

theorem around_some (h : around time t l = some (x, y)) :
    ∃ pre post, l = pre ++ x :: y :: post ∧ time x ≤ t ∧ t ≤ time y := by
  induction l with
  | nil => cases h
  | cons u l ih =>
    cases l with
    | nil => cases h
    | cons v rest =>
      unfold around at h
      split at h
      · rename_i hin
        cases h
        exact ⟨[], rest, rfl, hin⟩
      · obtain ⟨pre, post, hsplit, hin⟩ := ih h
        refine ⟨u :: pre, post, ?_, hin⟩
        rw [hsplit, List.cons_append]

/-- From the first value on until the last one there are neighbours around every time, in
whatever order the values are. -/
theorem around_isSome (hx : l.head? = some x) (hz : l.getLast? = some z) (hlen : 1 < l.length)
    (hxt : time x ≤ t) (htz : t ≤ time z) : (around time t l).isSome = true := by
  induction l generalizing x with
  | nil => cases hx
  | cons u l ih =>
    cases l with
    | nil => exact absurd hlen (lt_irrefl 1)
    | cons v rest =>
      cases hx
      unfold around
      split
      · rfl
      · rename_i hout
        have hvt : time v < t := by
          by_contra hle
          exact hout ⟨hxt, not_lt.mp hle⟩
        rw [List.getLast?_cons_cons] at hz
        apply ih rfl hz _ (le_of_lt hvt)
        cases rest with
        | nil =>
          cases hz
          exact absurd htz (not_le.mpr hvt)
        | cons w rest => exact Nat.lt_add_of_pos_left (Nat.succ_pos _)

end Neighbours

/-! ### On the way -/

section Lerp
variable {K : Type} [Field K]

/-- The value at weight `r` between `u` and `v`. -/
def lerp (r u v : K) : K := u + (v - u) * r

theorem lerp_eq (r u v : K) : lerp r u v = (1 - r) * u + r * v := by
  unfold lerp
  ring

end Lerp

section Weight
variable {K : Type} [Field K] [LinearOrder K] [IsStrictOrderedRing K]
  {t a b r u v u' v' lo hi e : K}

/-- How far `t` is on the way from `a` to `b`, within the way; the end where there is no way. -/
def weight (t a b : K) : K := if 0 < b - a then min 1 (max 0 ((t - a) / (b - a))) else 1

theorem weight_mem (t a b : K) : 0 ≤ weight t a b ∧ weight t a b ≤ 1 := by
  unfold weight
  split
  · exact ⟨le_min zero_le_one (le_max_left _ _), min_le_left _ _⟩
  · exact ⟨zero_le_one, le_refl 1⟩

theorem weight_before (hab : a < b) (ht : t ≤ a) : weight t a b = 0 := by
  have hway : 0 < b - a := sub_pos.mpr hab
  have hback : (t - a) / (b - a) ≤ 0 := div_nonpos_of_nonpos_of_nonneg (by linarith) hway.le
  rw [weight, if_pos hway, max_eq_left hback]
  exact min_eq_right zero_le_one

theorem weight_after (ht : b ≤ t) : weight t a b = 1 := by
  unfold weight
  split
  · rename_i hway
    have hpast : 1 ≤ (t - a) / (b - a) := (one_le_div₀ hway).mpr (by linarith)
    exact min_eq_left (hpast.trans (le_max_right _ _))
  · rfl

theorem weight_within (hab : a < b) (hat : a ≤ t) (htb : t ≤ b) :
    weight t a b = (t - a) / (b - a) := by
  have hway : 0 < b - a := sub_pos.mpr hab
  have hlow : 0 ≤ (t - a) / (b - a) := div_nonneg (by linarith) hway.le
  have hhigh : (t - a) / (b - a) ≤ 1 := (div_le_one hway).mpr (by linarith)
  rw [weight, if_pos hway, max_eq_right hlow, min_eq_right hhigh]

theorem lerp_mem (hr : 0 ≤ r ∧ r ≤ 1) (hu : lo ≤ u ∧ u ≤ hi) (hv : lo ≤ v ∧ v ≤ hi) :
    lo ≤ lerp r u v ∧ lerp r u v ≤ hi := by
  have hr' : 0 ≤ 1 - r := sub_nonneg.mpr hr.2
  rw [lerp_eq]
  constructor
  · have hlow := add_le_add (mul_le_mul_of_nonneg_left hu.1 hr')
      (mul_le_mul_of_nonneg_left hv.1 hr.1)
    linarith
  · have hhigh := add_le_add (mul_le_mul_of_nonneg_left hu.2 hr')
      (mul_le_mul_of_nonneg_left hv.2 hr.1)
    linarith

/-- Values that are off by `e` at both ends are off by no more on the way. -/
theorem lerp_near (hr : 0 ≤ r ∧ r ≤ 1) (hu : |u - u'| ≤ e) (hv : |v - v'| ≤ e) :
    |lerp r u v - lerp r u' v'| ≤ e := by
  have hdiff : lerp r u v - lerp r u' v' = lerp r (u - u') (v - v') := by
    unfold lerp
    ring
  rw [hdiff, abs_le]
  exact lerp_mem hr (abs_le.mp hu) (abs_le.mp hv)

end Weight

end Timeline
