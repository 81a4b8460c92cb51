import Mathlib.Algebra.Group.Nat.Even

/-!
# Words as sets of bits

A machine word stands for the set of its one bits. Setting a bit is the or with a shifted
one; the loop that takes the lowest bit and clears it with `v & (v - 1)` visits each bit of
the word once.
-/

namespace BitWord

set_option autoImplicit false

variable {n : Nat} {v : BitVec n}

def lowest (v : BitVec n) : Nat := v.ctz.toNat

def clearLowest (v : BitVec n) : BitVec n := v &&& (v - 1#n)

def set (v : BitVec n) (b : Nat) : BitVec n := v ||| 1#n <<< b

theorem getLsbD_set {b : Nat} (hb : b < n) (i : Nat) :
    (set v b).getLsbD i = (v.getLsbD i || decide (i = b)) := by
  rw [set, ← BitVec.twoPow_eq, BitVec.getLsbD_or, BitVec.getLsbD_twoPow]
  congr 1
  simp only [hb, decide_true, Bool.true_and, decide_eq_decide]
  exact eq_comm

theorem getLsbD_lowest (h : v ≠ 0#n) : v.getLsbD (lowest v) = true :=
  BitVec.getLsbD_true_ctz_of_ne_zero h

theorem lowest_lt (h : v ≠ 0#n) : lowest v < n := BitVec.lt_of_getLsbD (getLsbD_lowest h)

/-- A word is an odd multiple of the power of two at its lowest one bit. -/
theorem toNat_eq (h : v ≠ 0#n) :
    v.toNat = 2 ^ (lowest v + 1) * (v.toNat / 2 ^ (lowest v + 1)) + 2 ^ lowest v := by
  have hmod : v.toNat % 2 ^ (lowest v + 1) = 2 ^ lowest v := by
    apply Nat.eq_of_testBit_eq
    intro i
    rw [Nat.testBit_mod_two_pow, Nat.testBit_two_pow, BitVec.testBit_toNat]
    rcases Nat.lt_trichotomy i (lowest v) with hi | hi | hi
    · have hlow : v.getLsbD i = false := BitVec.getLsbD_false_of_lt_ctz hi
      simp [hlow, Nat.ne_of_gt hi]
    · simp [hi, getLsbD_lowest h]
    · simp [Nat.ne_of_lt hi]
      omega
  calc
    v.toNat = 2 ^ (lowest v + 1) * (v.toNat / 2 ^ (lowest v + 1)) + v.toNat % 2 ^ (lowest v + 1) :=
      (Nat.div_add_mod ..).symm
    _ = _ := by rw [hmod]

/-- The subtraction borrows up to the lowest one bit and leaves the bits above it. -/
theorem testBit_pred (h : v ≠ 0#n) (i : Nat) :
    (v.toNat - 1).testBit i = if i ≤ lowest v then decide (i < lowest v) else v.getLsbD i := by
  have hpos := Nat.two_pow_pos (lowest v)
  have hlt : 2 ^ lowest v < 2 ^ (lowest v + 1) := Nat.pow_lt_pow_right (by decide) (by omega)
  have hv := toNat_eq h
  have hpred : v.toNat - 1 =
      2 ^ (lowest v + 1) * (v.toNat / 2 ^ (lowest v + 1)) + (2 ^ lowest v - 1) := by omega
  rw [hpred, Nat.testBit_two_pow_mul_add _ (by omega), Nat.testBit_two_pow_sub_one]
  split
  · rw [if_pos (by omega)]
  · rw [if_neg (by omega), ← BitVec.testBit_toNat, hv, Nat.testBit_two_pow_mul_add _ hlt,
      if_neg (by omega), ← hv]

theorem getLsbD_clearLowest (h : v ≠ 0#n) (i : Nat) :
    (clearLowest v).getLsbD i = (v.getLsbD i && decide (i ≠ lowest v)) := by
  have hone : 1 ≤ v.toNat := by
    have := toNat_eq h
    have hpos := Nat.two_pow_pos (lowest v)
    omega
  have hpred : (v - 1#n).toNat = v.toNat - 1 := by
    have hn : 1 < 2 ^ n := Nat.one_lt_two_pow (by have := lowest_lt h; omega)
    rw [BitVec.toNat_sub_of_le, BitVec.toNat_ofNat, Nat.mod_eq_of_lt hn]
    rw [BitVec.le_def, BitVec.toNat_ofNat, Nat.mod_eq_of_lt hn]
    exact hone
  have hbit : (v - 1#n).getLsbD i = (v.toNat - 1).testBit i := by
    rw [← BitVec.testBit_toNat, hpred]
  rw [clearLowest, BitVec.getLsbD_and, hbit, testBit_pred h]
  rcases Nat.lt_trichotomy i (lowest v) with hi | hi | hi
  · have hlow : v.getLsbD i = false := BitVec.getLsbD_false_of_lt_ctz hi
    simp [hlow]
  · simp [hi]
  · rw [if_neg (by omega)]
    simp [Nat.ne_of_gt hi]

def bits (v : BitVec n) : List Nat := (List.range n).filter fun i => v.getLsbD i

theorem mem_bits {i : Nat} : i ∈ bits v ↔ v.getLsbD i = true := by
  rw [bits, List.mem_filter, List.mem_range]
  exact ⟨fun h => h.2, fun h => ⟨BitVec.lt_of_getLsbD h, h⟩⟩

theorem bits_increasing (v : BitVec n) : (bits v).Pairwise (· < ·) :=
  List.pairwise_lt_range.filter _

theorem bits_zero : bits (0#n) = [] := by simp [bits]

theorem length_bits_le (v : BitVec n) : (bits v).length ≤ n := by
  have h := List.length_filter_le (fun i => v.getLsbD i) (List.range n)
  rw [List.length_range] at h
  exact h

/-- The loop takes the one bits from the lowest to the highest. -/
theorem bits_eq_cons (h : v ≠ 0#n) : bits v = lowest v :: bits (clearLowest v) := by
  have hmem (i : Nat) : i ∈ bits v ↔ i ∈ lowest v :: bits (clearLowest v) := by
    rw [List.mem_cons, mem_bits, mem_bits, getLsbD_clearLowest h]
    by_cases hi : i = lowest v
    · simp [hi, getLsbD_lowest h]
    · simp [hi]
  have hinc : (lowest v :: bits (clearLowest v)).Pairwise (· < ·) := by
    rw [List.pairwise_cons]
    refine ⟨fun i hi => ?_, bits_increasing _⟩
    rw [mem_bits, getLsbD_clearLowest h, Bool.and_eq_true, decide_eq_true_eq] at hi
    have hnot : ¬ i < lowest v := fun hless => by
      have hlow : v.getLsbD i = false := BitVec.getLsbD_false_of_lt_ctz hless
      rw [hlow] at hi
      cases hi.1
    omega
  have hperm : (bits v).Perm (lowest v :: bits (clearLowest v)) := by
    apply (List.perm_ext_iff_of_nodup _ _).mpr hmem
    · exact (bits_increasing v).imp Nat.ne_of_lt
    · exact hinc.imp Nat.ne_of_lt
  apply hperm.eq_of_pairwise _ (bits_increasing v) hinc
  intro a b _ _ hab hba
  omega

end BitWord
