import Mathlib.Order.Basic

/-!
# Cooldowns

A counter over the ticks of a run that falls by at most one a tick, and an event that only
happens when the counter is about to run out: once the counter was set to `B`, the event
keeps away for `B` ticks.
-/

namespace Cooldown

set_option autoImplicit false

variable {c : Nat → Nat} {event : Nat → Prop} {B s : Nat}

/-- While the event keeps away the counter loses at most one a tick. -/
theorem lower_bound (hset : B ≤ c (s + 1)) (hready : ∀ t, event t → c t ≤ 1)
    (hfall : ∀ t, ¬event t → c t ≤ c (t + 1) + 1 ∨ B ≤ c (t + 1)) (m : Nat) (hm : m < B) :
    B ≤ c (s + 1 + m) + m := by
  induction m with
  | zero => exact hset
  | succ m ih =>
    have hbound := ih (Nat.lt_of_succ_lt hm)
    have hquiet : ¬event (s + 1 + m) := by
      intro hevent
      have hone := hready _ hevent
      omega
    have hnext : c (s + 1 + (m + 1)) = c (s + 1 + m + 1) := rfl
    rcases hfall _ hquiet with hone | hagain
    · omega
    · omega

/-- The event is at least `B` ticks after the tick `s` that set the counter. -/
theorem spaced (hset : B ≤ c (s + 1)) (hready : ∀ t, event t → c t ≤ 1)
    (hfall : ∀ t, ¬event t → c t ≤ c (t + 1) + 1 ∨ B ≤ c (t + 1)) {t : Nat} (hst : s < t)
    (hevent : event t) : s + B ≤ t := by
  by_contra hearly
  obtain ⟨m, rfl⟩ := Nat.exists_eq_add_of_le (Nat.succ_le_of_lt hst)
  have hbound := lower_bound hset hready hfall m (by omega)
  have hone : c (s + 1 + m) ≤ 1 := hready _ hevent
  omega

end Cooldown
