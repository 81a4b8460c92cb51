import Mathlib.Data.List.Basic
import Mathlib.Tactic.ByContra

/-!
# Countdowns that start over

A value that every event sets to `B`, that every other tick takes one from, and that is gone
instead of reaching zero: what it is tells when the last event was.
-/

namespace Countdown

set_option autoImplicit false

variable {B k : Nat}

def fade (v : Option Nat) : Option Nat := v.bind fun k => if k ≤ 1 then none else some (k - 1)

/-- The value after ticks with and without an event, the newest first. -/
def value (B : Nat) : List Bool → Option Nat
  | [] => none
  | true :: _ => some B
  | false :: l => fade (value B l)

theorem fade_eq_some (v : Option Nat) : fade v = some k ↔ 1 ≤ k ∧ v = some (k + 1) := by
  cases v with
  | none =>
    constructor
    · intro h
      cases h
    · rintro ⟨-, h⟩
      cases h
  | some m =>
    unfold fade
    rw [Option.bind_some, Option.some.injEq]
    split
    · constructor
      · intro h
        cases h
      · omega
    · rw [Option.some.injEq]
      omega

/-- The value is `B` less the ticks since the last event. -/
theorem value_eq_some (hB : 0 < B) (l : List Bool) :
    value B l = some k ↔
      1 ≤ k ∧ k ≤ B ∧ l[B - k]? = some true ∧ ∀ i < B - k, l[i]? = some false := by
  induction l generalizing k with
  | nil =>
    constructor
    · intro h
      cases h
    · rintro ⟨-, -, h, -⟩
      cases h
  | cons e l ih =>
    cases e with
    | true =>
      have hvalue : value B (true :: l) = some k ↔ B = k := Option.some.injEq B k ▸ Iff.rfl
      rw [hvalue]
      constructor
      · intro h
        subst h
        rw [Nat.sub_self]
        exact ⟨hB, Nat.le_refl B, rfl, fun i hi => absurd hi (Nat.not_lt_zero i)⟩
      · rintro ⟨-, hk, -, hquiet⟩
        by_contra hne
        have hfirst := hquiet 0 (by omega)
        cases hfirst
    | false =>
      have hvalue : value B (false :: l) = fade (value B l) := rfl
      rw [hvalue, fade_eq_some, ih]
      constructor
      · rintro ⟨hk, -, hkB, hlast, hquiet⟩
        have hsub : B - k = B - (k + 1) + 1 := by omega
        rw [hsub]
        refine ⟨hk, by omega, hlast, fun i hi => ?_⟩
        cases i with
        | zero => rfl
        | succ i => exact hquiet i (by omega)
      · rintro ⟨hk, hkB, hlast, hquiet⟩
        have hne : k ≠ B := by
          rintro rfl
          rw [Nat.sub_self] at hlast
          cases hlast
        have hsub : B - k = B - (k + 1) + 1 := by omega
        rw [hsub] at hlast hquiet
        exact ⟨hk, by omega, by omega, hlast, fun i hi => hquiet (i + 1) (by omega)⟩

end Countdown
