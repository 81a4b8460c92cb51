import Mathlib.Algebra.BigOperators.Group.Finset.Basic
import Mathlib.Algebra.GroupWithZero.Nat
import Mathlib.Order.Defs.LinearOrder

/-!
# Histograms over edges

Samples are counted in buckets. Each bucket but the last has an upper edge, and a sample
goes to the first bucket whose edge it does not exceed.
-/

namespace Histogram

set_option autoImplicit false

variable {α : Type} [LinearOrder α] {edges : List α}

/-- Advances while the sample exceeds the edge; past the last edge lies the last bucket. -/
def bucketOf : List α → α → Nat
  | [], _ => 0
  | e :: es, v => if e < v then bucketOf es v + 1 else 0

def record (edges : List α) (buckets : Nat → Nat) (v : α) : Nat → Nat :=
  Function.update buckets (bucketOf edges v) (buckets (bucketOf edges v) + 1)

def fill (edges : List α) (samples : List α) : Nat → Nat :=
  samples.foldl (record edges) fun _ => 0

def total (buckets : Nat → Nat) (n : Nat) : Nat := ((List.range n).map buckets).sum

theorem bucketOf_le_length (edges : List α) (v : α) : bucketOf edges v ≤ edges.length := by
  induction edges with
  | nil => exact Nat.le_refl 0
  | cons e es ih =>
    unfold bucketOf
    split
    · exact Nat.succ_le_succ ih
    · exact Nat.zero_le _

/-- With increasing edges a sample lies in one of the first buckets exactly when it does not
exceed the edge of the last of them. -/
theorem bucketOf_le_iff (hinc : edges.Pairwise (· < ·)) {b : Nat} (hb : b < edges.length)
    (v : α) : bucketOf edges v ≤ b ↔ v ≤ edges[b] := by
  induction edges generalizing b with
  | nil => cases hb
  | cons e es ih =>
    rw [List.pairwise_cons] at hinc
    unfold bucketOf
    split
    · next hless =>
      cases b with
      | zero =>
        rw [List.getElem_cons_zero]
        exact ⟨fun h => by omega, fun h => absurd hless (not_lt.mpr h)⟩
      | succ b =>
        rw [List.getElem_cons_succ, ← ih hinc.2 (Nat.lt_of_succ_lt_succ hb)]
        omega
    · next hle =>
      rw [not_lt] at hle
      refine ⟨fun _ => ?_, fun _ => Nat.zero_le b⟩
      cases b with
      | zero => exact hle
      | succ b =>
        rw [List.getElem_cons_succ]
        exact hle.trans (hinc.1 _ (List.getElem_mem _)).le

theorem foldl_record (samples : List α) (buckets : Nat → Nat) (b : Nat) :
    samples.foldl (record edges) buckets b
      = buckets b + samples.countP fun v => bucketOf edges v = b := by
  induction samples generalizing buckets with
  | nil => rfl
  | cons v samples ih =>
    rw [List.foldl_cons, ih, List.countP_cons]
    unfold record
    by_cases hb : bucketOf edges v = b
    · rw [hb, Function.update_self, if_pos (by simp)]
      omega
    · rw [Function.update_of_ne (Ne.symm hb), if_neg (by simpa using hb)]
      omega

theorem fill_apply (samples : List α) (b : Nat) :
    fill edges samples b = samples.countP fun v => bucketOf edges v = b := by
  unfold fill
  rw [foldl_record, Nat.zero_add]

theorem total_succ (buckets : Nat → Nat) (n : Nat) :
    total buckets (n + 1) = total buckets n + buckets n := by
  unfold total
  rw [List.range_succ, List.map_append, List.sum_append, List.map_singleton, List.sum_singleton]

theorem total_fill (samples : List α) (n : Nat) :
    total (fill edges samples) n = samples.countP fun v => bucketOf edges v < n := by
  induction n with
  | zero => simp [total]
  | succ n ih =>
    rw [total_succ, ih, fill_apply]
    clear ih
    induction samples with
    | nil => rfl
    | cons v samples ih =>
      simp only [List.countP_cons, decide_eq_true_eq, Nat.lt_succ_iff] at ih ⊢
      split_ifs <;> omega

theorem total_all (samples : List α) :
    total (fill edges samples) (edges.length + 1) = samples.length := by
  rw [total_fill, List.countP_eq_length]
  intro v _
  exact decide_eq_true (Nat.lt_succ_of_le (bucketOf_le_length edges v))

/-- The buckets up to one with an edge hold the samples that do not exceed it. -/
theorem total_upto (hinc : edges.Pairwise (· < ·)) {b : Nat} (hb : b < edges.length)
    (samples : List α) :
    total (fill edges samples) (b + 1) = samples.countP fun v => v ≤ edges[b] := by
  rw [total_fill]
  congr
  funext v
  rw [decide_eq_decide, Nat.lt_succ_iff, bucketOf_le_iff hinc hb]

end Histogram
