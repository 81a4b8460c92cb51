import Mathlib.Algebra.BigOperators.Fin
import Mathlib.Algebra.BigOperators.Group.Finset.Basic
import Mathlib.Algebra.BigOperators.Group.Finset.Piecewise
import Mathlib.Algebra.Order.Group.Multiset

/-!
# Tallies of tables

What happens to a finite sum when one summand changes, and the multiset of the entries of
a table with empty places. With these a counter kept next to a table, or a multiset of
things spread over several places, is followed through changes of one place at a time.
-/

namespace Tally

set_option autoImplicit false

universe u v w
variable {ι : Type u} {α : Type v} {β : Type w}

section Sums
variable {M : Type v} [AddCommMonoid M] [DecidableEq ι] {s : Finset ι} {f g : ι → M} {a : ι}

theorem sum_change (ha : a ∈ s) (h : ∀ x, x ≠ a → g x = f x) :
    ∑ x ∈ s, g x + f a = ∑ x ∈ s, f x + g a := by
  have hrest : ∑ x ∈ s.erase a, g x = ∑ x ∈ s.erase a, f x :=
    Finset.sum_congr rfl fun x hx => h x (Finset.ne_of_mem_erase hx)
  calc ∑ x ∈ s, g x + f a = g a + ∑ x ∈ s.erase a, f x + f a := by
        rw [← Finset.add_sum_erase s g ha, hrest]
    _ = f a + ∑ x ∈ s.erase a, f x + g a := by rw [add_assoc, add_comm (g a), add_comm (f a)]
    _ = ∑ x ∈ s, f x + g a := by rw [Finset.add_sum_erase s f ha]

theorem sum_change_two {b : ι} (ha : a ∈ s) (hb : b ∈ s) (hab : a ≠ b)
    (h : ∀ x, x ≠ a → x ≠ b → g x = f x) :
    ∑ x ∈ s, g x + (f a + f b) = ∑ x ∈ s, f x + (g a + g b) := by
  have hfirst := sum_change (f := f) (g := Function.update f b (g b)) hb fun x hx =>
    Function.update_of_ne hx ..
  have hsecond := sum_change (f := Function.update f b (g b)) (g := g) ha fun x hx => by
    by_cases hxb : x = b
    · subst hxb
      rw [Function.update_self]
    · rw [Function.update_of_ne hxb]
      exact h x hx hxb
  rw [Function.update_of_ne hab] at hsecond
  rw [Function.update_self] at hfirst
  calc ∑ x ∈ s, g x + (f a + f b) = (∑ x ∈ s, g x + f a) + f b := (add_assoc _ _ _).symm
    _ = (∑ x ∈ s, Function.update f b (g b) x + f b) + g a := by
        rw [hsecond, add_right_comm]
    _ = ∑ x ∈ s, f x + (g a + g b) := by rw [hfirst, add_right_comm, add_assoc]

end Sums

/-- Counting over `Fin n` as a list is a sum over `Fin n`. -/
theorem countP_finRange {n : Nat} (p : Fin n → Bool) :
    (List.finRange n).countP p = ∑ i, (p i).toNat := by
  have hlist (l : List (Fin n)) : l.countP p = (l.map fun i => (p i).toNat).sum := by
    induction l with
    | nil => rfl
    | cons i l ih =>
      rw [List.countP_cons, List.map_cons, List.sum_cons, ih]
      cases p i <;> simp [Nat.add_comm]
  rw [Fin.sum_univ_def, hlist]

section Tables
variable [Fintype ι]

def entry (m : ι → β → α) (i : ι) : Option β → Multiset α
  | some b => {m i b}
  | none => 0

/-- The entries of a table, each made from its place and its content. -/
def ofTable (m : ι → β → α) (f : ι → Option β) : Multiset α := ∑ i, entry m i (f i)

variable {m : ι → β → α} {f : ι → Option β} {i : ι} {b : β}

@[simp] theorem ofTable_none : ofTable m (fun _ => none) = 0 := by simp [ofTable, entry]

theorem mem_ofTable {x : α} : x ∈ ofTable m f ↔ ∃ i b, f i = some b ∧ m i b = x := by
  simp only [ofTable, Multiset.mem_sum, Finset.mem_univ, true_and]
  constructor
  · rintro ⟨i, hi⟩
    cases hf : f i with
    | none => simp [entry, hf] at hi
    | some b =>
      refine ⟨i, b, hf, ?_⟩
      simpa [entry, hf, eq_comm] using hi
  · rintro ⟨i, b, hf, rfl⟩
    exact ⟨i, by simp [entry, hf]⟩

theorem countP_ofTable (p : α → Prop) [DecidablePred p] :
    (ofTable m f).countP p = ∑ i, (f i).elim 0 fun b => if p (m i b) then 1 else 0 := by
  have hentry (i : ι) : (entry m i (f i)).countP p =
      (f i).elim 0 fun b => if p (m i b) then 1 else 0 := by
    cases f i with
    | none => rfl
    | some b =>
      have hone := Multiset.countP_cons p (m i b) 0
      simpa [entry] using hone
  calc (ofTable m f).countP p = ∑ i, (entry m i (f i)).countP p :=
        map_sum (Multiset.countPAddMonoidHom p) _ _
    _ = _ := Finset.sum_congr rfl fun i _ => hentry i

section Changes
variable [DecidableEq ι]

theorem ofTable_update (o : Option β) :
    ofTable m (Function.update f i o) + entry m i (f i) = ofTable m f + entry m i o := by
  have h := sum_change (s := Finset.univ) (a := i) (f := fun j => entry m j (f j))
    (g := fun j => entry m j (Function.update f i o j)) (Finset.mem_univ i) fun j hj => by
      rw [Function.update_of_ne hj]
  simpa [ofTable] using h

theorem ofTable_insert (hf : f i = none) :
    ofTable m (Function.update f i (some b)) = m i b ::ₘ ofTable m f := by
  have h := ofTable_update (m := m) (f := f) (i := i) (some b)
  rw [hf] at h
  simpa [entry, add_comm, Multiset.singleton_add] using h

theorem ofTable_erase (hf : f i = some b) :
    ofTable m f = m i b ::ₘ ofTable m (Function.update f i none) := by
  have h := ofTable_update (m := m) (f := f) (i := i) none
  rw [hf] at h
  simpa [entry, add_comm, Multiset.singleton_add] using h.symm

/-- Counting the entries made at one place. -/
theorem countP_place {k : α → ι} (hkey : ∀ i b, k (m i b) = i) (i : ι) :
    (ofTable m f).countP (fun x => k x = i) = (f i).isSome.toNat := by
  have hentry (j : ι) : ((f j).elim 0 fun b => if k (m j b) = i then 1 else 0) =
      if j = i then (f i).isSome.toNat else 0 := by
    by_cases hj : j = i
    · subst hj
      cases f j <;> simp [hkey]
    · cases f j <;> simp [hkey, hj]
  rw [countP_ofTable]
  calc _ = ∑ j, if j = i then (f i).isSome.toNat else 0 := Finset.sum_congr rfl fun j _ => hentry j
    _ = (f i).isSome.toNat := by simp

end Changes
end Tables

end Tally
