import BeltServer.Lib.Separation
import BeltServer.Turns
import BeltServer.Sim
import Mathlib.Algebra.Order.Ring.Rat

/-!
# Body separation

The pair loops of `separate` in `logic.js` and of `SimStep` in C++, before the border of
the stage, as runs of the separation of boxes.
-/

namespace BeltServer

set_option autoImplicit false

open Separation

namespace Logic

variable {R : Type} [Field R] [LinearOrder R] [IsStrictOrderedRing R] {n : Nat}

/-- The half extents that the loop takes for every actor. -/
def body : Body R where
  halfW := BODY_HALF_W
  halfD := BODY_HALF_D

def Actor.spot (a : Actor R) : R × R := (a.x, a.y)

def participants (A : Actors R n) : Finset (Fin (n + 1)) := {i | passes (A i) = false}

/-- The actors once the pairs of `xs` have been visited. -/
def pushes (A : Actors R n) (xs : List (Fin (n + 1) × Fin (n + 1))) : Actors R n :=
  xs.foldl (fun A p => pushApart A p.1 p.2) A

theorem mathAbs_eq_abs (v : R) : mathAbs v = |v| := by
  unfold mathAbs
  rw [Nat.cast_zero]
  split
  · next h => rw [abs_of_neg h]
  · next h => rw [abs_of_nonneg (not_lt.mp h)]

/-- One pair of the loop is one visit of the boxes. -/
theorem pushApart_spot (A : Actors R n) (p : Fin (n + 1) × Fin (n + 1)) :
    Actor.spot ∘ pushApart A p.1 p.2 = body.visit (Actor.spot ∘ A) p := by
  unfold pushApart
  simp only [mathAbs_eq_abs, Nat.cast_zero, Nat.cast_one, Nat.cast_ofNat]
  split
  · next hclear => exact (visit_clear (b := body) (S := Actor.spot ∘ A) hclear).symm
  next hover =>
  split
  · next hless =>
    rw [Function.comp_update, Function.comp_update]
    exact (visit_alongX (b := body) (S := Actor.spot ∘ A) hover hless rfl).symm
  · next hless =>
    rw [Function.comp_update, Function.comp_update]
    exact (visit_alongY (b := body) (S := Actor.spot ∘ A) hover hless rfl).symm

theorem pushes_spot (A : Actors R n) (xs : List (Fin (n + 1) × Fin (n + 1))) :
    Actor.spot ∘ pushes A xs = xs.foldl body.visit (Actor.spot ∘ A) := by
  unfold pushes
  induction xs generalizing A with
  | nil => rfl
  | cons p xs ih => rw [List.foldl_cons, List.foldl_cons, ih, pushApart_spot]

omit [IsStrictOrderedRing R] in
theorem pushApart_passes (A : Actors R n) (p : Fin (n + 1) × Fin (n + 1)) (i : Fin (n + 1)) :
    passes (pushApart A p.1 p.2 i) = passes (A i) := by
  obtain ⟨x, y, h⟩ := pushApart_moved A p.1 p.2 i
  rw [h]
  rfl

omit [IsStrictOrderedRing R] in
/-- The loop of the source visits the pairs of participants in order. -/
theorem apart_pushes (A : Actors R n) : apart A = pushes A (pairs (participants A)) := by
  apply foldl_pairs (f := fun A p => pushApart A p.1 p.2) (s := fun A i => passes (A i))
    pushApart_passes
  intro i
  simp [participants]

end Logic

/-! ### The server's loop -/

def body : Body ℚ where
  halfW := BODY_HALF_W
  halfD := BODY_HALF_D

def SimActor.spot (a : SimActor) : ℚ × ℚ := (a.x, a.y)

def participants (actors : Slot → SimActor) : Finset Slot := {j | (actors j).present}

def pushes (actors : Slot → SimActor) (xs : List (Slot × Slot)) : Slot → SimActor :=
  xs.foldl (fun actors p => pushApart actors p.1 p.2) actors

theorem fabs_eq_abs (v : ℚ) : fabs v = |v| := by
  unfold fabs
  split
  · next h => rw [abs_of_neg h]
  · next h => rw [abs_of_nonneg (not_lt.mp h)]

theorem pushApart_spot (actors : Slot → SimActor) (p : Slot × Slot) :
    SimActor.spot ∘ pushApart actors p.1 p.2 = body.visit (SimActor.spot ∘ actors) p := by
  unfold pushApart
  simp only [fabs_eq_abs, ge_iff_le]
  split
  · next hclear => exact (visit_clear (b := body) (S := SimActor.spot ∘ actors) hclear).symm
  next hover =>
  split
  · next hless =>
    rw [Function.comp_update, Function.comp_update]
    exact (visit_alongX (b := body) (S := SimActor.spot ∘ actors) hover hless rfl).symm
  · next hless =>
    rw [Function.comp_update, Function.comp_update]
    exact (visit_alongY (b := body) (S := SimActor.spot ∘ actors) hover hless rfl).symm

theorem pushes_spot (actors : Slot → SimActor) (xs : List (Slot × Slot)) :
    SimActor.spot ∘ pushes actors xs = xs.foldl body.visit (SimActor.spot ∘ actors) := by
  unfold pushes
  induction xs generalizing actors with
  | nil => rfl
  | cons p xs ih => rw [List.foldl_cons, List.foldl_cons, ih, pushApart_spot]

/-- The loop of the source visits the pairs of present actors in order. -/
theorem separate_pushes (actors : Slot → SimActor) :
    separate actors = pushes actors (pairs (participants actors)) := by
  apply foldl_pairs (f := fun actors p => pushApart actors p.1 p.2)
    (s := fun actors j => !(actors j).present)
  · intro actors p j
    have h := pushApart_keeps (f := SimActor.present) (fun _ _ => rfl) (fun _ _ => rfl)
      actors p.1 p.2 j
    rw [h]
  · intro j
    simp [participants]

/-- The pair loops of the browser and of the server push fairly, whatever the actors. -/
theorem separation_fair {R : Type} [Field R] [LinearOrder R] [IsStrictOrderedRing R] {n : Nat}
    (A : Logic.Actors R n) (actors : Slot → SimActor) :
    (Logic.apart A = Logic.pushes A (pairs (Logic.participants A)) ∧
      Fair Logic.body (Logic.participants A) fun xs => Logic.Actor.spot ∘ Logic.pushes A xs) ∧
    (separate actors = pushes actors (pairs (participants actors)) ∧
      Fair body (participants actors) fun xs => SimActor.spot ∘ pushes actors xs) := by
  constructor
  · refine ⟨Logic.apart_pushes A, ?_⟩
    simp only [Logic.pushes_spot]
    apply fair_run
    exact Nat.cast_nonneg _
  · refine ⟨separate_pushes actors, ?_⟩
    simp only [pushes_spot]
    apply fair_run
    exact (by decide : (0 : ℚ) ≤ 9)

/-- Three orcs on one spot, and the actors of a new room. -/
theorem separation_fair_crowd :
    Fair Logic.body
        (Logic.participants (fun i : Fin 3 => Logic.makeActor i.val .orc (100 : ℚ) 50 3))
        (fun xs => Logic.Actor.spot ∘
          Logic.pushes (fun i : Fin 3 => Logic.makeActor i.val .orc (100 : ℚ) 50 3) xs) ∧
      Fair body (participants resetWorld.actors)
        (fun xs => SimActor.spot ∘ pushes resetWorld.actors xs) := by
  have h := separation_fair
    (fun i : Fin 3 => Logic.makeActor i.val .orc (100 : ℚ) 50 3) resetWorld.actors
  exact ⟨h.1.2, h.2.2⟩

end BeltServer
