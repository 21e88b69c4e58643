import Mathlib.Data.Nat.Size
import Reticulum.Lib.Bytes

/-!
# Byte strings as big-endian integers

Among byte strings of one length the order of the bytes is the order of the
integers, and the leading zero bits of a string are those its integer leaves.
-/

namespace Bytes

/-- The integer a byte string is in base 256, the first byte first. -/
def value : Bytes → Nat
  | [] => 0
  | x :: b => x.toNat * 256 ^ b.length + value b

/-- How many leading zero bits a byte string has. -/
def leadingZeroBits (b : Bytes) : Nat := 8 * b.length - b.value.size

theorem pow_256 (n : Nat) : 256 ^ n = 2 ^ (8 * n) := by
  rw [Nat.pow_mul]

theorem value_lt (b : Bytes) : b.value < 256 ^ b.length := by
  induction b with
  | nil => exact Nat.one_pos
  | cons x b ih =>
    have hx : x.toNat + 1 ≤ 256 := x.toNat_lt
    have hmul := Nat.mul_le_mul_right (256 ^ b.length) hx
    rw [value, List.length_cons, Nat.pow_succ]
    rw [Nat.add_mul] at hmul
    omega

theorem size_value_le (b : Bytes) : b.value.size ≤ 8 * b.length := by
  rw [Nat.size_le, ← pow_256]
  exact value_lt b

@[simp] theorem value_replicate_zero (n : Nat) : value (List.replicate n 0) = 0 := by
  induction n with
  | zero => rfl
  | succ n ih => rw [List.replicate_succ, value, ih, UInt8.toNat_zero, Nat.zero_mul]

theorem value_append (a b : Bytes) : value (a ++ b) = a.value * 256 ^ b.length + b.value := by
  induction a with
  | nil => rw [List.nil_append, value, Nat.zero_mul, Nat.zero_add]
  | cons x a ih =>
    rw [List.cons_append, value, ih, value, List.length_append, Nat.pow_add, Nat.add_mul, Nat.mul_assoc, Nat.add_assoc]

/-- A single byte among zeros. -/
theorem value_set_replicate {n i : Nat} (hi : i < n) (x : UInt8) :
    value ((List.replicate n 0).set i x) = x.toNat * 256 ^ (n - 1 - i) := by
  induction n generalizing i with
  | zero => exact absurd hi (Nat.not_lt_zero i)
  | succ n ih =>
    cases i with
    | zero => simp [List.replicate_succ, value]
    | succ i =>
      rw [List.replicate_succ, List.set_cons_succ, value, ih (Nat.lt_of_succ_lt_succ hi), UInt8.toNat_zero, Nat.zero_mul,
        Nat.zero_add]
      congr 2
      omega

theorem value_lt_value {a b : Bytes} (h : a.length = b.length) : a.value < b.value ↔ a < b := by
  induction a generalizing b with
  | nil =>
    cases b with
    | nil => exact ⟨fun h => absurd h (Nat.lt_irrefl _), fun h => absurd h (List.lt_irrefl _)⟩
    | cons y b => cases h
  | cons x a ih =>
    cases b with
    | nil => cases h
    | cons y b =>
      have hlen : a.length = b.length := Nat.succ.inj h
      have ha := value_lt a
      have hb := value_lt b
      rw [List.cons_lt_cons_iff, ← ih hlen, value, value, ← hlen, UInt8.lt_iff_toNat_lt, ← UInt8.toNat_inj]
      rw [← hlen] at hb
      generalize 256 ^ a.length = base at ha hb ⊢
      rcases Nat.lt_trichotomy x.toNat y.toNat with hlt | heq | hgt
      · have := Nat.mul_le_mul_right base hlt
        rw [Nat.succ_mul] at this
        simp only [hlt, true_or, iff_true]
        omega
      · simp [heq]
      · have := Nat.mul_le_mul_right base hgt
        rw [Nat.succ_mul] at this
        omega

theorem le_iff_value_le {a b : Bytes} (h : a.length = b.length) : a ≤ b ↔ a.value ≤ b.value := by
  rw [← List.not_lt, ← value_lt_value h.symm, Nat.not_lt]

/-! ## Integers as byte strings -/

/-- The low `k` bytes of an integer, the highest first. -/
def bigEndian : Nat → Nat → Bytes
  | 0, _ => []
  | k + 1, n => bigEndian k (n / 256) ++ [UInt8.ofNat (n % 256)]

@[simp] theorem length_bigEndian (k n : Nat) : (bigEndian k n).length = k := by
  induction k generalizing n with
  | zero => rfl
  | succ k ih => rw [bigEndian, List.length_append, ih, List.length_singleton]

theorem value_bigEndian {k n : Nat} (h : n < 256 ^ k) : value (bigEndian k n) = n := by
  induction k generalizing n with
  | zero =>
    rw [Nat.pow_zero] at h
    rw [Nat.lt_one_iff.mp h]
    rfl
  | succ k ih =>
    have hk : n / 256 < 256 ^ k := by
      rw [Nat.pow_succ] at h
      exact Nat.div_lt_of_lt_mul (by rwa [Nat.mul_comm] at h)
    have hlast : value [UInt8.ofNat (n % 256)] = n % 256 := by simp [value]
    rw [bigEndian, value_append, ih hk, hlast, List.length_singleton, Nat.pow_one]
    omega

/-! ## Leading zeros -/

theorem leadingZeroBits_cons_zero (b : Bytes) : leadingZeroBits (0 :: b) = 8 + b.leadingZeroBits := by
  have hle := size_value_le b
  rw [leadingZeroBits, leadingZeroBits, value, UInt8.toNat_zero, Nat.zero_mul, Nat.zero_add, List.length_cons]
  omega

theorem leadingZeroBits_cons {x : UInt8} (hx : x ≠ 0) (b : Bytes) : leadingZeroBits (x :: b) = 8 - x.toNat.size := by
  have hpos : 0 < x.toNat.size := Nat.size_pos.mpr (Nat.pos_of_ne_zero fun h => hx (UInt8.toNat_inj.mp h))
  have hsize : (value (x :: b)).size = 8 * b.length + x.toNat.size := by
    have hb := value_lt b
    rw [value]
    rw [pow_256] at hb ⊢
    apply Nat.le_antisymm
    · rw [Nat.size_le, Nat.pow_add]
      have hx : x.toNat + 1 ≤ 2 ^ x.toNat.size := Nat.lt_size_self _
      have hmul := Nat.mul_le_mul_left (2 ^ (8 * b.length)) hx
      rw [Nat.mul_add, Nat.mul_comm _ x.toNat] at hmul
      omega
    · have hx : 2 ^ (x.toNat.size - 1) ≤ x.toNat := Nat.lt_size.mp (by omega)
      have hmul := Nat.mul_le_mul_left (2 ^ (8 * b.length)) hx
      rw [← Nat.pow_add, Nat.mul_comm _ x.toNat] at hmul
      have hlt : 8 * b.length + (x.toNat.size - 1) < (x.toNat * 2 ^ (8 * b.length) + b.value).size :=
        Nat.lt_size.mpr (by omega)
      omega
  rw [leadingZeroBits, hsize, List.length_cons]
  omega

/-- Having `c` leading zero bits is being small. -/
theorem le_leadingZeroBits_iff {b : Bytes} {c : Nat} (hc : c ≤ 8 * b.length) :
    c ≤ b.leadingZeroBits ↔ b.value < 2 ^ (8 * b.length - c) := by
  have hle := size_value_le b
  rw [← Nat.size_le, leadingZeroBits]
  omega

end Bytes
