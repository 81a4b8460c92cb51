import Mathlib.Data.List.Basic

/-!
# What has happened since

In a record of events, an event that has happened and has not been followed by a certain
kind of event. How this changes when the record grows.
-/

namespace History

set_option autoImplicit false

variable {E : Type} {e f : E} {ends : E → Prop} {log : List E}

def Since (e : E) (ends : E → Prop) (log : List E) : Prop :=
  ∃ before after, log = before ++ e :: after ∧ ∀ f ∈ after, ¬ ends f

theorem Since.mem (h : Since e ends log) : e ∈ log := by
  obtain ⟨before, after, rfl, _⟩ := h
  exact List.mem_append_right _ List.mem_cons_self

theorem since_now (e : E) (ends : E → Prop) (log : List E) : Since e ends (log ++ [e]) :=
  ⟨log, [], rfl, nofun⟩

theorem Since.snoc (h : Since e ends log) (hf : ¬ ends f) : Since e ends (log ++ [f]) := by
  obtain ⟨before, after, rfl, hafter⟩ := h
  refine ⟨before, after ++ [f], by simp, fun g hg => ?_⟩
  rcases List.mem_append.mp hg with hg | hg
  · exact hafter g hg
  · rw [List.mem_singleton.mp hg]
    exact hf

theorem Since.of_snoc (h : Since e ends (log ++ [f])) : f = e ∨ (Since e ends log ∧ ¬ ends f) := by
  obtain ⟨before, after, hsplit, hafter⟩ := h
  rcases List.eq_nil_or_concat after with rfl | ⟨rest, g, rfl⟩
  · obtain ⟨_, hlast⟩ := List.append_inj' hsplit rfl
    exact .inl (List.singleton_inj.mp hlast)
  · rw [List.concat_eq_append, ← List.cons_append, ← List.append_assoc] at hsplit
    obtain ⟨hlog, hlast⟩ := List.append_inj' hsplit rfl
    rw [List.singleton_inj.mp hlast]
    refine .inr ⟨⟨before, rest, hlog, fun h hh => hafter h ?_⟩, hafter g ?_⟩
    · rw [List.concat_eq_append]
      exact List.mem_append_left _ hh
    · rw [List.concat_eq_append]
      exact List.mem_append_right _ List.mem_cons_self

theorem not_since_nil : ¬ Since e ends [] := by
  rintro ⟨before, after, hsplit, _⟩
  cases before with
  | nil => cases hsplit
  | cons => cases hsplit

end History
