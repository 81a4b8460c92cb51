import Mathlib.Data.List.Induction
import Mathlib.Data.List.ReduceOption

/-!
# Values held over empty turns

Each turn brings a value or none. A holder keeps the last value for at most `n` empty turns in
a row and then lets it lapse; a lapse is a turn that brought a live value and has more than
`n` empty turns after it. Both can be followed turn by turn: how many empty turns the record
ends with and the last value are enough.
-/

namespace Holding

set_option autoImplicit false

universe u
variable {α : Type u}

/-- The empty turns since the last value. -/
def idle (ts : List (Option α)) : Nat := (ts.reverse.takeWhile Option.isNone).length

def last (ts : List (Option α)) : Option α := ts.reduceOption.getLast?

def holding (n : Nat) (ts : List (Option α)) : Option α := if idle ts ≤ n then last ts else none

/-- The next `k` turns are empty. -/
def empties : Nat → List (Option α) → Bool
  | 0, _ => true
  | k + 1, none :: ts => empties k ts
  | _ + 1, _ => false

def lapses (n : Nat) (live : α → Bool) : List (Option α) → Nat
  | [] => 0
  | none :: ts => lapses n live ts
  | some a :: ts =>
    (if live a && empties (n + 1) ts then 1 else 0) + lapses n live ts

/-- The lapse that one more turn brings about. -/
def lapsed (n : Nat) (live : α → Bool) (ts : List (Option α)) : Option α → Nat
  | none => if idle ts = n ∧ (last ts).any live = true then 1 else 0
  | some _ => 0

section Turns
variable (ts : List (Option α)) (a : α)

@[simp] theorem idle_none : idle (ts ++ [none]) = idle ts + 1 := by simp [idle]

@[simp] theorem idle_some : idle (ts ++ [some a]) = 0 := by simp [idle]

@[simp] theorem last_none : last (ts ++ [none]) = last ts := by
  simp [last, List.reduceOption_append]

@[simp] theorem last_some : last (ts ++ [some a]) = some a := by
  simp [last, List.reduceOption_append]

theorem idle_cons_some : idle (some a :: ts) = idle ts := by
  unfold idle
  rw [List.reverse_cons, List.takeWhile_append]
  split
  · rename_i hall
    simp [hall]
  · rfl

theorem last_cons_some : last (some a :: ts) = (last ts).or (some a) := by
  unfold last
  rw [List.reduceOption_cons_of_some, List.getLast?_cons]
  cases ts.reduceOption.getLast? <;> rfl

theorem last_cons_none : last (none :: ts) = last ts := by
  unfold last
  rw [List.reduceOption_cons_of_none]

end Turns

section Lapse
variable {n : Nat} {live : α → Bool} {ts : List (Option α)}

/-- Without a value so far every turn was empty. -/
theorem eq_replicate_of_last (h : last ts = none) : ts = List.replicate ts.length none := by
  induction ts with
  | nil => rfl
  | cons t ts ih =>
    cases t with
    | none =>
      rw [last_cons_none] at h
      exact congrArg (none :: ·) (ih h)
    | some a =>
      rw [last_cons_some] at h
      simp at h

theorem idle_replicate (k : Nat) : idle (List.replicate k (none : Option α)) = k := by
  unfold idle
  rw [List.reverse_replicate, List.takeWhile_replicate]
  simp

theorem idle_cons_none (h : last ts ≠ none) : idle (none :: ts) = idle ts := by
  induction ts using List.reverseRecOn with
  | nil => exact absurd rfl h
  | append_singleton ts t ih =>
    cases t with
    | none =>
      rw [last_none] at h
      rw [← List.cons_append, idle_none, idle_none, ih h]
    | some a => rw [← List.cons_append, idle_some, idle_some]

theorem empties_some (k : Nat) (a : α) : empties k (ts ++ [some a]) = empties k ts := by
  induction k generalizing ts with
  | zero => rfl
  | succ k ih =>
    cases ts with
    | nil => rfl
    | cons t ts =>
      cases t with
      | none => exact ih
      | some b => rfl

/-- Behind a value no run of empty turns is completed. -/
theorem empties_none (h : last ts ≠ none) (k : Nat) :
    empties k (ts ++ [none]) = empties k ts := by
  induction k generalizing ts with
  | zero => rfl
  | succ k ih =>
    cases ts with
    | nil => exact absurd rfl h
    | cons t ts =>
      cases t with
      | none =>
        rw [last_cons_none] at h
        exact ih h
      | some b => rfl

theorem empties_replicate (k m : Nat) :
    empties k (List.replicate m (none : Option α)) = decide (k ≤ m) := by
  induction k generalizing m with
  | zero => simp [empties]
  | succ k ih =>
    cases m with
    | zero => rfl
    | succ m =>
      rw [List.replicate_succ, empties, ih]
      simp

theorem lapses_some (a : α) : lapses n live (ts ++ [some a]) = lapses n live ts := by
  induction ts with
  | nil => cases h : live a <;> simp [lapses, empties, h]
  | cons t ts ih =>
    cases t with
    | none => exact ih
    | some b => rw [List.cons_append, lapses, lapses, ih, empties_some]

theorem lapses_none :
    lapses n live (ts ++ [none]) = lapses n live ts + lapsed n live ts none := by
  induction ts with
  | nil => simp [lapses, lapsed, last]
  | cons t ts ih =>
    cases t with
    | none =>
      have hsame : lapsed n live (none :: ts) none = lapsed n live ts none := by
        unfold lapsed
        rw [last_cons_none]
        cases hl : last ts with
        | none => simp
        | some b => rw [idle_cons_none (by simp [hl])]
      rw [hsame]
      exact ih
    | some a =>
      rw [List.cons_append, lapses, lapses, ih]
      unfold lapsed
      rw [idle_cons_some, last_cons_some]
      cases hl : last ts with
      | some b =>
        rw [empties_none (by simp [hl])]
        exact (Nat.add_assoc ..).symm
      | none =>
        -- the empty turns after the value are all there is
        have hts := eq_replicate_of_last hl
        generalize ts.length = k at hts
        subst hts
        rw [← List.replicate_succ', empties_replicate, empties_replicate, idle_replicate]
        simp only [Option.none_or, Option.any_some, Option.any_none]
        grind

/-- A record has one lapse more exactly when its next turn brings one about. -/
theorem lapses_append (t : Option α) :
    lapses n live (ts ++ [t]) = lapses n live ts + lapsed n live ts t := by
  cases t with
  | none => exact lapses_none
  | some a => exact lapses_some a

end Lapse

end Holding
