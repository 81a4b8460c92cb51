import Mathlib.Algebra.Order.Ring.Rat
import Mathlib.Data.List.FinRange
import Mathlib.Tactic.Common

/-!
# Packed little-endian records

A field is a width in bytes and a number, a record is its fields one after the other without
padding. A field is read back from the sum of the widths before it.
-/

namespace LittleEndian

set_option autoImplicit false

/-- The `n` bytes of `x`, the lowest first; higher bytes of `x` are dropped. -/
def bytes : Nat → Nat → List UInt8
  | 0, _ => []
  | n + 1, x => UInt8.ofNat x :: bytes n (x / 256)

def value : List UInt8 → Nat
  | [] => 0
  | b :: bs => b.toNat + 256 * value bs

/-- The number whose two's complement in `n` bits is `u`. -/
def signed (n u : Nat) : Int := if 2 * u < 2 ^ n then u else u - (2 ^ n : Nat)

@[simp] theorem length_bytes (n x : Nat) : (bytes n x).length = n := by
  induction n generalizing x with
  | zero => rfl
  | succ n ih => exact congrArg (· + 1) (ih (x / 256))

theorem value_bytes (n x : Nat) : value (bytes n x) = x % 256 ^ n := by
  induction n generalizing x with
  | zero => exact (Nat.mod_one x).symm
  | succ n ih =>
    have hsplit := Nat.mod_mul (x := x) (a := 256) (b := 256 ^ n)
    calc
      value (bytes (n + 1) x) = (UInt8.ofNat x).toNat + 256 * value (bytes n (x / 256)) := rfl
      _ = x % 256 + 256 * (x / 256 % 256 ^ n) := by rw [ih, UInt8.toNat_ofNat']
      _ = x % 256 ^ (n + 1) := by rw [← hsplit, Nat.pow_succ, Nat.mul_comm]

theorem value_bytes_of_lt {n x : Nat} (h : x < 256 ^ n) : value (bytes n x) = x := by
  rw [value_bytes, Nat.mod_eq_of_lt h]

theorem value_lt (bs : List UInt8) : value bs < 256 ^ bs.length := by
  induction bs with
  | nil => exact Nat.one_pos
  | cons b bs ih =>
    have hb : b.toNat < 256 := b.toNat_lt
    rw [value, List.length_cons, Nat.pow_succ]
    omega

theorem bytes_value (bs : List UInt8) : bytes bs.length (value bs) = bs := by
  induction bs with
  | nil => rfl
  | cons b bs ih =>
    have hb : b.toNat < 256 := b.toNat_lt
    have hlow : UInt8.ofNat (b.toNat + 256 * value bs) = b := by
      apply UInt8.toNat_inj.mp
      rw [UInt8.toNat_ofNat']
      omega
    have hhigh : (b.toNat + 256 * value bs) / 256 = value bs := by omega
    rw [List.length_cons, value, bytes, hlow, hhigh, ih]

theorem toInt_eq_signed {n : Nat} (b : BitVec n) : b.toInt = signed n b.toNat := by
  rw [BitVec.toInt_eq_toNat_cond]
  rfl

/-! ### Records -/

/-- A number with the width it is stored in. -/
structure Field where
  width : Nat
  num : Nat
  fits : num < 256 ^ width

/-- An integer as it is stored in `n` bytes, in two's complement. -/
def Field.ofInt (n : Nat) (v : Int) : Field where
  width := n
  num := (v % (256 ^ n : Nat)).toNat
  fits := by
    have hpos : 0 < 256 ^ n := Nat.pow_pos (by decide)
    have hlt := Int.emod_lt_of_pos v (Int.natCast_pos.mpr hpos)
    have hnonneg := Int.emod_nonneg v (Int.natCast_ne_zero.mpr (Nat.ne_of_gt hpos))
    omega

def Field.bytes (f : Field) : List UInt8 := LittleEndian.bytes f.width f.num

def pack (fs : List Field) : List UInt8 := fs.flatMap Field.bytes

def size : List Field → Nat
  | [] => 0
  | f :: fs => f.width + size fs

@[simp] theorem Field.length_bytes (f : Field) : f.bytes.length = f.width :=
  LittleEndian.length_bytes ..

theorem Field.value_bytes (f : Field) : value f.bytes = f.num := value_bytes_of_lt f.fits

@[simp] theorem pack_cons (f : Field) (fs : List Field) : pack (f :: fs) = f.bytes ++ pack fs := rfl

@[simp] theorem pack_append (fs gs : List Field) : pack (fs ++ gs) = pack fs ++ pack gs :=
  List.flatMap_append

@[simp] theorem size_cons (f : Field) (fs : List Field) : size (f :: fs) = f.width + size fs := rfl

@[simp] theorem size_append (fs gs : List Field) : size (fs ++ gs) = size fs + size gs := by
  induction fs with
  | nil => exact (Nat.zero_add _).symm
  | cons f fs ih => rw [List.cons_append, size_cons, ih, size_cons, Nat.add_assoc]

@[simp] theorem length_pack (fs : List Field) : (pack fs).length = size fs := by
  induction fs with
  | nil => rfl
  | cons f fs ih => rw [pack_cons, List.length_append, Field.length_bytes, ih, size_cons]

/-- A field that holds what is read at the front of a byte string is the front of it. -/
theorem Field.bytes_of_value {f : Field} {bs : List UInt8} (hlen : f.width ≤ bs.length)
    (h : f.num = value (bs.take f.width)) : f.bytes = bs.take f.width := by
  have hround := LittleEndian.bytes_value (bs.take f.width)
  rw [List.length_take, Nat.min_eq_left hlen] at hround
  rw [Field.bytes, h, hround]

/-- A record whose fields hold what is read, one after the other, is the front of what it is
read from. -/
theorem pack_cons_eq_take {f : Field} {fs : List Field} {bs : List UInt8}
    (hf : f.bytes = bs.take f.width) (hfs : pack fs = (bs.drop f.width).take (size fs)) :
    pack (f :: fs) = bs.take (size (f :: fs)) := by
  rw [pack_cons, hf, hfs, size_cons, List.take_add]

section Access
variable (pre post : List Field) (f g : Field)

/-- A field stands behind the fields before it. -/
theorem slice_pack : ((pack (pre ++ f :: post)).drop (size pre)).take f.width = f.bytes := by
  rw [pack_append, ← length_pack pre, List.drop_left, pack_cons]
  exact List.take_left' f.length_bytes

theorem size_add_width_le : size pre + f.width ≤ (pack (pre ++ f :: post)).length := by
  rw [length_pack, size_append, size_cons]
  omega

/-- Overwriting the bytes of a field overwrites the field. -/
theorem splice_pack (hwidth : f.width = g.width) :
    (pack (pre ++ f :: post)).take (size pre) ++ g.bytes ++
      (pack (pre ++ f :: post)).drop (size pre + g.width) = pack (pre ++ g :: post) := by
  have htail : (pack (pre ++ f :: post)).drop (size pre + g.width) = pack post := by
    rw [pack_append, ← length_pack pre, ← hwidth, List.drop_length_add_append, pack_cons]
    exact List.drop_left' f.length_bytes
  rw [htail, pack_append, ← length_pack pre, List.take_left, pack_append, pack_cons,
    List.append_assoc]

end Access

theorem size_flatMap {α : Type} {w : Nat} (g : α → List Field) (hw : ∀ a, size (g a) = w)
    (l : List α) : size (l.flatMap g) = l.length * w := by
  induction l with
  | nil => exact (Nat.zero_mul w).symm
  | cons a l ih =>
    rw [List.flatMap_cons, size_append, hw, ih, List.length_cons, Nat.succ_mul, Nat.add_comm]

/-- The records of an array are at multiples of their size. -/
theorem exists_record {n w : Nat} (g : Fin n → List Field) (hw : ∀ i, size (g i) = w) (i : Fin n) :
    ∃ pre post, (List.finRange n).flatMap g = pre ++ (g i ++ post) ∧ size pre = i * w := by
  have hi : i.val < (List.finRange n).length := by simp
  have hsplit := List.take_append_drop i.val (List.finRange n)
  rw [List.drop_eq_getElem_cons hi, List.getElem_finRange] at hsplit
  refine ⟨((List.finRange n).take i).flatMap g, ((List.finRange n).drop (i + 1)).flatMap g, ?_, ?_⟩
  · conv_lhs => rw [← hsplit]
    rw [List.flatMap_append, List.flatMap_cons]
    rfl
  · rw [size_flatMap g hw, List.length_take, List.length_finRange]
    congr 1
    omega

end LittleEndian
