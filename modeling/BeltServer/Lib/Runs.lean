import Mathlib.Logic.Basic

/-!
# Runs of a labelled machine

A machine is a partial step function `step : L → S → Option S`; a label that is not
enabled yields `none`. `Reach step ok s₀ s` is reachability by steps whose label and
source state satisfy `ok`, so that a property of all runs that respect a condition is
a property of all states in one `Reach`.
-/

namespace Runs

set_option autoImplicit false

universe u v w x
variable {S : Type u} {L : Type v}

/-- Executes a list of labels; undefined as soon as one of them is not enabled. -/
def run (step : L → S → Option S) : List L → S → Option S
  | [], s => some s
  | a :: as, s => (step a s).bind (run step as)

/-- The states reached from `s₀` by steps that satisfy `ok`. -/
inductive Reach (step : L → S → Option S) (ok : L → S → Prop) (s₀ : S) : S → Prop where
  | refl : Reach step ok s₀ s₀
  | tail {s t : S} {a : L} : Reach step ok s₀ s → ok a s → step a s = some t → Reach step ok s₀ t

def Any (_ : L) (_ : S) : Prop := True

/-- Executes a list of labels as long as each of them passes the test. -/
def runIf (step : L → S → Option S) (test : L → S → Bool) : List L → S → Option S
  | [], s => some s
  | a :: as, s => if test a s then (step a s).bind (runIf step test as) else none

variable {step : L → S → Option S} {ok ok' : L → S → Prop} {s s₀ t : S}

namespace Reach

theorem single {a : L} (hok : ok a s) (h : step a s = some t) : Reach step ok s t :=
  .tail .refl hok h

theorem trans {u : S} (hst : Reach step ok s t) (htu : Reach step ok t u) : Reach step ok s u := by
  induction htu with
  | refl => exact hst
  | tail _ hok h ih => exact .tail ih hok h

theorem head {a : L} {u : S} (hok : ok a s) (h : step a s = some t)
    (htu : Reach step ok t u) : Reach step ok s u :=
  (single hok h).trans htu

theorem mono (hsub : ∀ a s, ok a s → ok' a s) (h : Reach step ok s₀ s) : Reach step ok' s₀ s := by
  induction h with
  | refl => exact .refl
  | tail _ hok h ih => exact .tail ih (hsub _ _ hok) h

theorem any (h : Reach step ok s₀ s) : Reach step Any s₀ s := h.mono fun _ _ _ => trivial

/-- What holds initially and is preserved by every admitted step holds in every state reached.
The step may use that its source state is itself reachable. -/
theorem invariant {P : S → Prop} (h : Reach step ok s₀ s) (base : P s₀)
    (preserved : ∀ s a t, Reach step ok s₀ s → P s → ok a s → step a s = some t → P t) : P s := by
  induction h with
  | refl => exact base
  | tail hs hok h ih => exact preserved _ _ _ hs ih hok h

end Reach

/-- A run takes only steps of its list. -/
theorem reach_of_run_mem {as : List L} (h : run step as s = some t) :
    Reach step (fun a _ => a ∈ as) s t := by
  induction as generalizing s with
  | nil =>
    cases h
    exact .refl
  | cons a as ih =>
    obtain ⟨u, hu, hrun⟩ := Option.bind_eq_some_iff.mp h
    refine .head (List.mem_cons_self ..) hu ((ih hrun).mono fun b _ hb => ?_)
    exact List.mem_cons_of_mem a hb

theorem reach_of_run {as : List L} (h : run step as s = some t) : Reach step Any s t :=
  (reach_of_run_mem h).any

theorem run_of_runIf {test : L → S → Bool} {as : List L} (h : runIf step test as s = some t) :
    run step as s = some t := by
  induction as generalizing s with
  | nil => exact h
  | cons a as ih =>
    simp only [runIf] at h
    split at h
    · obtain ⟨u, hu, hrun⟩ := Option.bind_eq_some_iff.mp h
      exact Option.bind_eq_some_iff.mpr ⟨u, hu, ih hrun⟩
    · cases h

theorem reach_of_runIf {test : L → S → Bool} (sound : ∀ a s, test a s = true → ok a s)
    {as : List L} (h : runIf step test as s = some t) : Reach step ok s t := by
  induction as generalizing s with
  | nil =>
    cases h
    exact .refl
  | cons a as ih =>
    simp only [runIf] at h
    split at h
    · rename_i htest
      obtain ⟨u, hu, hrun⟩ := Option.bind_eq_some_iff.mp h
      exact .head (sound a s htest) hu (ih hrun)
    · cases h

/-- One machine refines another when each of its steps is a run of the other between the
images of its end points; reachable states are then mapped to reachable states. -/
theorem Reach.refine {T : Type w} {M : Type x} {step₂ : M → T → Option T} {ok₂ : M → T → Prop}
    (f : S → T)
    (simulates : ∀ s a t, Reach step₂ ok₂ (f s₀) (f s) → step a s = some t →
      Reach step₂ ok₂ (f s) (f t))
    (h : Reach step ok s₀ s) : Reach step₂ ok₂ (f s₀) (f s) := by
  induction h with
  | refl => exact .refl
  | tail _ _ h ih => exact ih.trans (simulates _ _ _ ih h)

/-! ### Runs that keep a record -/

section Records
variable {E : Type w} {emit : L → S → List E}

/-- A run together with everything its steps emit, in order. -/
inductive Traced (step : L → S → Option S) (emit : L → S → List E) (s₀ : S) :
    List E → S → Prop where
  | refl : Traced step emit s₀ [] s₀
  | tail {es : List E} {s t : S} {a : L} : Traced step emit s₀ es s → step a s = some t →
      Traced step emit s₀ (es ++ emit a s) t

namespace Traced

theorem reach {es : List E} (h : Traced step emit s₀ es s) : Reach step Any s₀ s := by
  induction h with
  | refl => exact .refl
  | tail _ h ih => exact .tail ih trivial h

/-- Every run has a record. -/
theorem of_reach (h : Reach step ok s₀ s) : ∃ es, Traced step emit s₀ es s := by
  induction h with
  | refl => exact ⟨[], .refl⟩
  | tail _ _ h ih =>
    obtain ⟨es, hes⟩ := ih
    exact ⟨_, .tail hes h⟩

/-- A property of the record and the state, kept by every step. -/
theorem invariant {P : List E → S → Prop} {es : List E} (h : Traced step emit s₀ es s)
    (base : P [] s₀)
    (preserved : ∀ es s a t, Reach step Any s₀ s → P es s → step a s = some t →
      P (es ++ emit a s) t) : P es s := by
  induction h with
  | refl => exact base
  | tail hs h ih => exact preserved _ _ _ _ hs.reach ih h

/-- A gate passes on what the steps emit until it is shut, and does not open again. -/
theorem gated {out : S → List E} {gate : S → Bool} {es : List E} (h : Traced step emit s₀ es s)
    (base : out s₀ = [])
    (preserved : ∀ s a t, step a s = some t →
      out t = (if gate s then out s ++ emit a s else out s) ∧ (gate t = true → gate s = true)) :
    out s <+: es ∧ (gate s = true → out s = es) := by
  induction h with
  | refl =>
    rw [base]
    exact ⟨List.prefix_refl _, fun _ => rfl⟩
  | @tail es s t a _ hstep ih =>
    obtain ⟨hout, hgate⟩ := preserved s a t hstep
    cases hopen : gate s with
    | true =>
      rw [hopen, if_pos rfl, ih.2 hopen] at hout
      exact ⟨hout ▸ List.prefix_refl _, fun _ => hout⟩
    | false =>
      rw [hopen, if_neg Bool.false_ne_true] at hout
      refine ⟨?_, fun hopen' => ?_⟩
      · rw [hout]
        exact ih.1.trans (List.prefix_append _ _)
      · have htrue := hgate hopen'
        rw [hopen] at htrue
        cases htrue

end Traced

/-- What a list of labels emits along its run. -/
def record (step : L → S → Option S) (emit : L → S → List E) : List L → S → Option (List E × S)
  | [], s => some ([], s)
  | a :: as, s => (step a s).bind fun t => (record step emit as t).map fun p => (emit a s ++ p.1, p.2)

theorem Traced.trans {es es' : List E} (hst : Traced step emit s₀ es s)
    (htu : Traced step emit s es' t) : Traced step emit s₀ (es ++ es') t := by
  induction htu with
  | refl =>
    rw [List.append_nil]
    exact hst
  | tail _ h ih =>
    rw [← List.append_assoc]
    exact .tail ih h

theorem traced_of_record {as : List L} {es : List E} (h : record step emit as s = some (es, t)) :
    Traced step emit s es t := by
  induction as generalizing s es with
  | nil =>
    cases h
    exact .refl
  | cons a as ih =>
    obtain ⟨u, hu, hrest⟩ := Option.bind_eq_some_iff.mp h
    obtain ⟨⟨es', t'⟩, hrec, heq⟩ := Option.map_eq_some_iff.mp hrest
    cases heq
    exact Traced.trans (.tail .refl hu) (ih hrec)

theorem run_of_record {as : List L} {es : List E} (h : record step emit as s = some (es, t)) :
    run step as s = some t := by
  induction as generalizing s es with
  | nil =>
    cases h
    rfl
  | cons a as ih =>
    obtain ⟨u, hu, hrest⟩ := Option.bind_eq_some_iff.mp h
    obtain ⟨⟨es', t'⟩, hrec, heq⟩ := Option.map_eq_some_iff.mp hrest
    cases heq
    exact Option.bind_eq_some_iff.mpr ⟨u, hu, ih hrec⟩

end Records

end Runs
