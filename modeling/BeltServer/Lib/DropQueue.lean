import Mathlib.Data.List.Basic
import Mathlib.Data.Fin.Basic
import Mathlib.Algebra.GroupWithZero.Nat

/-!
# Bounded queues that drop their oldest entry

`next n` says what a queue of depth `n` does: an arrival at a full queue pushes out the
oldest entry, and each turn serves the oldest entry if there is one. A record of events is
a history of the queue when `replay` accepts it; what such a history says about arrivals,
drops and services follows for every queue that has one. The last section is the circular
buffer with a head and a count.
-/

namespace DropQueue

set_option autoImplicit false

universe u v
variable {α : Type u} {β : Type v}

/-- An arrival with the entry it pushed out, or a turn with the entry it served. -/
inductive Event (α : Type u) where
  | arrive (a : α) (dropped : Option α)
  | serve (taken : Option α)
  deriving DecidableEq

def arrived (es : List (Event α)) : List α :=
  es.filterMap fun
    | .arrive a _ => some a
    | .serve _ => none

/-- The entries that left the queue in order; true for the served ones. -/
def left (es : List (Event α)) : List (α × Bool) :=
  es.filterMap fun
    | .arrive _ dropped => dropped.map (·, false)
    | .serve taken => taken.map (·, true)

def taken (es : List (Event α)) : List α := ((left es).filter (·.2)).map Prod.fst

def dropped (es : List (Event α)) : List α := ((left es).filter (!·.2)).map Prod.fst

theorem arrived_append (es es' : List (Event α)) : arrived (es ++ es') = arrived es ++ arrived es' :=
  List.filterMap_append

theorem left_append (es es' : List (Event α)) : left (es ++ es') = left es ++ left es' :=
  List.filterMap_append

theorem taken_append (es es' : List (Event α)) : taken (es ++ es') = taken es ++ taken es' := by
  simp [taken, left_append]

theorem dropped_append (es es' : List (Event α)) : dropped (es ++ es') = dropped es ++ dropped es' := by
  simp [dropped, left_append]

section Queue
variable [DecidableEq α] {n : Nat} {q q' : List α} {es : List (Event α)}

/-- The queue after an event; none if the queue does not do that. -/
def next (n : Nat) (q : List α) : Event α → Option (List α)
  | .arrive a dropped =>
    if q.length = n then
      if dropped = q.head? then some (q.tail ++ [a]) else none
    else if dropped = none then some (q ++ [a])
    else none
  | .serve taken => if taken = q.head? then some q.tail else none

def replay (n : Nat) : List α → List (Event α) → Option (List α)
  | q, [] => some q
  | q, e :: es => (next n q e).bind fun q' => replay n q' es

theorem replay_append (es es' : List (Event α)) :
    replay n q (es ++ es') = (replay n q es).bind fun q' => replay n q' es' := by
  induction es generalizing q with
  | nil => rfl
  | cons e es ih =>
    simp only [List.cons_append, replay, Option.bind_assoc]
    congr 1
    funext q'
    exact ih

/-- One event keeps the account of who arrived and who left. -/
theorem next_conserves (hn : 0 < n) {e : Event α} (h : next n q e = some q') :
    q ++ arrived [e] = (left [e]).map Prod.fst ++ q' := by
  cases e with
  | arrive a dropped =>
    simp only [next] at h
    split at h
    · rename_i hfull
      split at h
      · rename_i hd
        cases h
        cases q with
        | nil =>
          rw [List.length_nil] at hfull
          omega
        | cons b q =>
          subst hd
          rfl
      · cases h
    · split at h
      · rename_i hd
        cases h
        subst hd
        rfl
      · cases h
  | serve taken =>
    simp only [next] at h
    split at h
    · rename_i ht
      cases h
      subst ht
      cases q <;> simp [arrived, left]
    · cases h

theorem next_length (hn : 0 < n) {e : Event α} (h : next n q e = some q') (hq : q.length ≤ n) :
    q'.length ≤ n := by
  cases e with
  | arrive a dropped =>
    simp only [next] at h
    split at h
    · split at h
      · cases h
        rw [List.length_append, List.length_tail, List.length_singleton]
        omega
      · cases h
    · split at h
      · cases h
        rw [List.length_append, List.length_singleton]
        omega
      · cases h
  | serve taken =>
    simp only [next] at h
    split at h
    · cases h
      rw [List.length_tail]
      omega
    · cases h

/-- The arrivals are those who left, in order, and then those who are still there. -/
theorem replay_conserves (hn : 0 < n) (h : replay n q es = some q') :
    q ++ arrived es = (left es).map Prod.fst ++ q' := by
  induction es generalizing q with
  | nil =>
    cases h
    simp [arrived, left]
  | cons e es ih =>
    obtain ⟨q₁, hnext, hrest⟩ := Option.bind_eq_some_iff.mp h
    have hone := next_conserves hn hnext
    have hmore := ih hrest
    have harrived : arrived (e :: es) = arrived [e] ++ arrived es := arrived_append [e] es
    have hleft : left (e :: es) = left [e] ++ left es := left_append [e] es
    calc q ++ arrived (e :: es) = (q ++ arrived [e]) ++ arrived es := by
          rw [harrived, List.append_assoc]
      _ = (left [e]).map Prod.fst ++ (q₁ ++ arrived es) := by rw [hone, List.append_assoc]
      _ = (left (e :: es)).map Prod.fst ++ q' := by
          rw [hmore, hleft, List.map_append, List.append_assoc]

theorem replay_length (hn : 0 < n) (h : replay n q es = some q') (hq : q.length ≤ n) :
    q'.length ≤ n := by
  induction es generalizing q with
  | nil =>
    cases h
    exact hq
  | cons e es ih =>
    obtain ⟨q₁, hnext, hrest⟩ := Option.bind_eq_some_iff.mp h
    exact ih hrest (next_length hn hnext hq)

/-- The content is the newest part of the arrivals. -/
theorem replay_suffix (hn : 0 < n) (h : replay n [] es = some q') : q' <:+ arrived es := by
  have hall := replay_conserves hn h
  rw [List.nil_append] at hall
  rw [hall]
  exact List.suffix_append _ _

theorem taken_sublist (hn : 0 < n) (h : replay n [] es = some q') :
    (taken es).Sublist (arrived es) := by
  have hall := replay_conserves hn h
  rw [List.nil_append] at hall
  rw [hall]
  apply List.Sublist.trans ?_ (List.sublist_append_left _ _)
  exact List.filter_sublist.map _

end Queue

/-! ### Circular buffers -/

section Ring
variable {n : Nat} [NeZero n]

/-- The entries from the head on. -/
def contents (f : Fin n → α) (head count : Nat) : List α :=
  (List.range count).map fun k => f (Fin.ofNat n (head + k))

@[simp] theorem contents_length (f : Fin n → α) (head count : Nat) :
    (contents f head count).length = count := by
  simp [contents]

theorem contents_succ (f : Fin n → α) (head count : Nat) :
    contents f head (count + 1) = f (Fin.ofNat n head) :: contents f (head + 1) count := by
  simp only [contents, List.range_succ_eq_map, List.map_cons, List.map_map, Nat.add_zero]
  congr 1
  apply List.map_congr_left
  intro k _
  simp only [Function.comp_apply]
  congr 2
  omega

theorem contents_mod (f : Fin n → α) (head count : Nat) :
    contents f (head % n) count = contents f head count := by
  apply List.map_congr_left
  intro k _
  congr 1
  apply Fin.ext
  simp [Fin.ofNat, Nat.add_mod]

/-- Popping the head. -/
theorem contents_tail (f : Fin n → α) {head count : Nat} (h : 0 < count) :
    contents f ((head + 1) % n) (count - 1) = (contents f head count).tail := by
  obtain ⟨c, rfl⟩ : ∃ c, count = c + 1 := ⟨count - 1, by omega⟩
  rw [contents_succ, contents_mod]
  rfl

theorem contents_head (f : Fin n → α) {head count : Nat} (h : 0 < count) :
    (contents f head count).head? = some (f (Fin.ofNat n head)) := by
  obtain ⟨c, rfl⟩ : ∃ c, count = c + 1 := ⟨count - 1, by omega⟩
  rw [contents_succ]
  rfl

theorem ofNat_ne {head i j : Nat} (hi : i < j) (hj : j < n) :
    Fin.ofNat n (head + i) ≠ Fin.ofNat n (head + j) := by
  intro heq
  have hmod : (head + i) % n = (head + j) % n := congrArg Fin.val heq
  have hdvd : n ∣ (head + j) - (head + i) :=
    Nat.dvd_of_mod_eq_zero (Nat.sub_mod_eq_zero_of_mod_eq hmod.symm)
  have hle := Nat.le_of_dvd (by omega) hdvd
  omega

/-- Writing behind the last entry. -/
theorem contents_push (f : Fin n → α) {head count : Nat} (h : count < n) (a : α) :
    contents (Function.update f (Fin.ofNat n (head + count)) a) head (count + 1) =
      contents f head count ++ [a] := by
  simp only [contents, List.range_succ, List.map_append, List.map_cons, List.map_nil,
    Function.update_self]
  congr 1
  apply List.map_congr_left
  intro k hk
  exact Function.update_of_ne (ofNat_ne (List.mem_range.mp hk) h) ..

end Ring

end DropQueue
