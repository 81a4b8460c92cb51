import Mathlib.Data.List.Nodup
import Mathlib.Data.List.Perm.Basic

/-!
# Vectors whose order does not matter

The stack operations of a vector (`getLast?` reads the back, `dropLast` pops it, `++ [x]`
pushes) and its constant-time removal, which overwrites the removed place by the back.
Only the multiset of the entries is stable under them, so every fact is about counts.
-/

namespace SwapList

set_option autoImplicit false

universe u
variable {α : Type u}

def swapRemoveAt (l : List α) (i : Nat) : List α :=
  match l.getLast? with
  | some b => (l.set i b).dropLast
  | none => []

/-- Removes the first occurrence of `x`, if any, by `swapRemoveAt`. -/
def swapRemove [DecidableEq α] (l : List α) (x : α) : List α :=
  match l.idxOf? x with
  | some i => swapRemoveAt l i
  | none => l

theorem dropLast_append_of_getLast? {l : List α} {x : α} (h : l.getLast? = some x) :
    l.dropLast ++ [x] = l :=
  List.dropLast_append_getLast? x h

theorem swapRemoveAt_perm {l : List α} {i : Nat} {x : α} (h : l[i]? = some x) :
    (x :: swapRemoveAt l i).Perm l := by
  induction l generalizing i with
  | nil => simp at h
  | cons a t ih =>
    cases t with
    | nil =>
      cases i with
      | zero =>
        have hax : a = x := by simpa using h
        subst hax
        simp [swapRemoveAt]
      | succ i => simp at h
    | cons c t =>
      obtain ⟨b, hb⟩ : ∃ b, (c :: t).getLast? = some b := ⟨_, List.getLast?_eq_some_getLast (by simp)⟩
      have hback : (a :: c :: t).getLast? = some b := by simpa using hb
      cases i with
      | zero =>
        have hax : a = x := by simpa using h
        subst hax
        have hsplit := dropLast_append_of_getLast? hb
        simp only [swapRemoveAt, hback, List.set_cons_zero, List.dropLast_cons_cons]
        calc (a :: b :: (c :: t).dropLast).Perm (a :: ((c :: t).dropLast ++ [b])) :=
              List.Perm.cons a (List.perm_append_singleton b _).symm
          _ = a :: c :: t := by rw [hsplit]
      | succ i =>
        have hx : (c :: t)[i]? = some x := by simpa using h
        have hrest := ih hx
        simp only [swapRemoveAt, hb] at hrest
        simp only [swapRemoveAt, hback, List.set_cons_succ]
        have hne : (c :: t).set i b ≠ [] := by
          cases i <;> simp
        rw [List.dropLast_cons_of_ne_nil hne]
        exact (List.Perm.swap a x _).trans (List.Perm.cons a hrest)

/-- The places before the removed one keep their entries. -/
theorem swapRemoveAt_take {l : List α} {i : Nat} {x : α} (h : l[i]? = some x) :
    (swapRemoveAt l i).take i = l.take i := by
  obtain ⟨hi, -⟩ := List.getElem?_eq_some_iff.mp h
  unfold swapRemoveAt
  cases hb : l.getLast? with
  | none =>
    rw [List.getLast?_eq_none_iff.mp hb] at hi
    cases hi
  | some b =>
    have hmin : min i ((l.set i b).length - 1) = i := by
      rw [List.length_set]
      omega
    dsimp only
    rw [List.dropLast_eq_take, List.take_take, hmin, List.take_set_of_le (Nat.le_refl i)]

/-- The places from the removed one on lose its entry. -/
theorem swapRemoveAt_drop {l : List α} {i : Nat} {x : α} (h : l[i]? = some x) :
    (x :: (swapRemoveAt l i).drop i).Perm (l.drop i) := by
  have hperm := swapRemoveAt_perm h
  rw [← List.take_append_drop i (swapRemoveAt l i), swapRemoveAt_take h] at hperm
  have hsplit : (l.take i ++ x :: (swapRemoveAt l i).drop i).Perm (l.take i ++ l.drop i) := by
    rw [List.take_append_drop]
    exact List.perm_middle.trans hperm
  exact (List.perm_append_left_iff _).mp hsplit

theorem nodup_dropLast {l : List α} (hl : l.Nodup) : l.dropLast.Nodup :=
  hl.sublist (List.dropLast_sublist l)

theorem nodup_push {l : List α} (hl : l.Nodup) {x : α} (hx : x ∉ l) : (l ++ [x]).Nodup := by
  rw [List.nodup_append]
  refine ⟨hl, by simp, ?_⟩
  intro a ha b hb hab
  have hb' : b = x := List.mem_singleton.mp hb
  subst hb'
  exact hx (hab ▸ ha)

section Counts
variable [DecidableEq α]

theorem count_dropLast {l : List α} {x : α} (h : l.getLast? = some x) (y : α) :
    l.dropLast.count y + (if x = y then 1 else 0) = l.count y := by
  conv_rhs => rw [← dropLast_append_of_getLast? h]
  rw [List.count_append, List.count_singleton]
  by_cases hxy : x = y <;> simp [hxy]

theorem count_swapRemoveAt {l : List α} {i : Nat} {x : α} (h : l[i]? = some x) (y : α) :
    (swapRemoveAt l i).count y + (if x = y then 1 else 0) = l.count y := by
  have hc := (swapRemoveAt_perm h).count_eq y
  rw [List.count_cons] at hc
  by_cases hxy : x = y <;> simp_all

theorem count_push (l : List α) (x y : α) :
    (l ++ [x]).count y = l.count y + (if x = y then 1 else 0) := by
  rw [List.count_append, List.count_singleton]
  by_cases hxy : x = y <;> simp [hxy]

theorem count_set {l : List α} {i : Nat} {x : α} (h : l[i]? = some x) (z y : α) :
    (l.set i z).count y + (if x = y then 1 else 0) = l.count y + (if z = y then 1 else 0) := by
  induction l generalizing i with
  | nil => simp at h
  | cons a t ih =>
    cases i with
    | zero =>
      have hax : a = x := by simpa using h
      subst hax
      simp only [List.set_cons_zero, List.count_cons, beq_iff_eq]
      omega
    | succ i =>
      have hx : t[i]? = some x := by simpa using h
      have hrest := ih hx
      simp only [List.set_cons_succ, List.count_cons]
      omega

theorem count_swapRemove (l : List α) (x y : α) :
    (swapRemove l x).count y = if x = y then l.count y - 1 else l.count y := by
  unfold swapRemove
  cases h : l.idxOf? x with
  | none =>
    have hx : x ∉ l := List.idxOf?_eq_none_iff.mp h
    by_cases hxy : x = y
    · subst hxy
      simp [List.count_eq_zero_of_not_mem hx]
    · simp [hxy]
  | some i =>
    have hat : l[i]? = some x := by
      obtain ⟨hi, hget, _⟩ := List.findIdx?_eq_some_iff_getElem.mp h
      rw [List.getElem?_eq_getElem hi]
      simpa using hget
    have hc := count_swapRemoveAt hat y
    by_cases hxy : x = y <;> simp [hxy] at hc ⊢ <;> omega

theorem mem_iff_count {l : List α} {x : α} : x ∈ l ↔ 0 < l.count x :=
  List.count_pos_iff.symm

/-- On a list without repetition the removal is exact. -/
theorem mem_swapRemove {l : List α} (hl : l.Nodup) {x y : α} :
    y ∈ swapRemove l x ↔ y ∈ l ∧ y ≠ x := by
  rw [mem_iff_count, mem_iff_count, count_swapRemove]
  by_cases hxy : x = y
  · subst hxy
    have := List.nodup_iff_count_le_one.mp hl x
    simp
    omega
  · simp [hxy, Ne.symm hxy]

theorem nodup_swapRemove {l : List α} (hl : l.Nodup) (x : α) : (swapRemove l x).Nodup := by
  rw [List.nodup_iff_count_le_one]
  intro y
  rw [count_swapRemove]
  have := List.nodup_iff_count_le_one.mp hl y
  split <;> omega

end Counts

end SwapList
