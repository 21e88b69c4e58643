import Mathlib.Algebra.Group.Nat.Defs
import Mathlib.Tactic.Common
import Mathlib.Data.List.Basic

/-!
# Byte strings, fixed-size arrays and ordered maps

`Arr n` is a byte string that carries its length, so a value of the wrong
size cannot be built. `chunks` and `chunksExact` cut a byte string at fixed
offsets; an ordered map is `Std.ExtTreeMap`, whose equality is equality of
lookups.
-/

open Std

abbrev Bytes := List UInt8

/-- A byte string of exactly `n` bytes. -/
abbrev Arr (n : Nat) := { b : Bytes // b.length = n }

namespace Arr

instance (n : Nat) : Ord (Arr n) := ⟨fun a b => compare a.1 b.1⟩

instance (n : Nat) : TransOrd (Arr n) :=
  inferInstanceAs <| TransCmp (compareOn fun a : Arr n => a.1)

instance (n : Nat) : LawfulEqOrd (Arr n) where
  eq_of_compare h := Subtype.ext (LawfulEqOrd.eq_of_compare h)

/-- The array with the bytes of a slice, if the slice has the right length. -/
def ofSlice? (n : Nat) (b : Bytes) : Option (Arr n) :=
  if h : b.length = n then some ⟨b, h⟩ else none

/-- The first `m` bytes of an array. -/
def prefixOf {n : Nat} (m : Nat) (h : m ≤ n) (a : Arr n) : Arr m :=
  ⟨a.1.take m, by simp [a.2, h]⟩

/-- The bytes of an array from offset `m` on. -/
def suffixFrom {n : Nat} (m : Nat) (a : Arr n) : Arr (n - m) :=
  ⟨a.1.drop m, by simp [a.2]⟩

/-- The `len` bytes at offset `off`, if the byte string reaches that far. -/
def slice? (b : Bytes) (off len : Nat) : Option (Arr len) := ofSlice? len ((b.drop off).take len)

theorem ofSlice?_eq_some {n : Nat} {b : Bytes} {a : Arr n} : ofSlice? n b = some a ↔ b = a.1 := by
  unfold ofSlice?
  constructor
  · intro h
    split at h
    · cases h; rfl
    · cases h
  · rintro rfl
    simp [a.2]

@[simp] theorem ofSlice?_val {n : Nat} (a : Arr n) : ofSlice? n a.1 = some a :=
  ofSlice?_eq_some.mpr rfl

theorem ofSlice?_of_length {n : Nat} {b : Bytes} (h : b.length = n) : ofSlice? n b = some ⟨b, h⟩ :=
  ofSlice?_eq_some.mpr rfl

theorem length_slice {b : Bytes} {n len : Nat} (off : Nat) (h : ¬ b.length < n) (hn : off + len ≤ n) :
    ((b.drop off).take len).length = len := by
  simp only [List.length_take, List.length_drop]
  omega

/-- The slice behind a prefix of known length. -/
theorem slice?_append {len off : Nat} {pre : Bytes} (h : pre.length = off) (a : Arr len) (rest : Bytes) :
    slice? (pre ++ (a.1 ++ rest)) off len = some a := by
  rw [slice?, List.drop_left' h, List.take_left' a.2, ofSlice?_val]

end Arr

/-! ## Ordered maps -/

/-- A map iterated in the order of its keys. -/
abbrev BTreeMap (K V : Type) [Ord K] := ExtTreeMap K V

/-- Pairs are ordered by their first component, then by their second. -/
instance ordProd {α β : Type} [Ord α] [Ord β] : Ord (α × β) := lexOrd

instance transOrdProd {α β : Type} [Ord α] [Ord β] [TransOrd α] [TransOrd β] : TransOrd (α × β) :=
  inferInstanceAs <| TransCmp (compareLex (compareOn Prod.fst) (compareOn Prod.snd))

instance lawfulEqOrdProd {α β : Type} [Ord α] [Ord β] [LawfulEqOrd α] [LawfulEqOrd β] :
    LawfulEqOrd (α × β) where
  eq_of_compare {a b} h := by
    have h : compareLex (compareOn Prod.fst) (compareOn Prod.snd) a b = .eq := h
    rw [compareLex_eq_eq] at h
    exact Prod.ext (LawfulEqOrd.eq_of_compare h.1) (LawfulEqOrd.eq_of_compare h.2)

namespace BTreeMap

variable {K V : Type} [Ord K] [TransOrd K] [LawfulEqOrd K] {m : BTreeMap K V} {k k' : K}

theorem getElem?_insert_ne {v : V} (h : k ≠ k') : (m.insert k v)[k']? = m[k']? := by
  rw [ExtTreeMap.getElem?_insert, if_neg]
  simpa using h

theorem getElem?_erase_ne (h : k ≠ k') : (m.erase k)[k']? = m[k']? := by
  rw [ExtTreeMap.getElem?_erase, if_neg]
  simpa using h

theorem insert_insert (m : BTreeMap K V) (k : K) (v v' : V) : (m.insert k v).insert k v' = m.insert k v' := by
  ext k' : 1
  simp only [ExtTreeMap.getElem?_insert]
  split <;> rfl

theorem insert_of_get {v : V} (h : m[k]? = some v) : m.insert k v = m := by
  ext k' : 1
  rw [ExtTreeMap.getElem?_insert]
  by_cases hk : k = k'
  · subst hk
    simp [h]
  · simp [hk]

theorem modify_eq_insert {v : V} (h : m[k]? = some v) (f : V → V) : m.modify k f = m.insert k (f v) := by
  ext k' : 1
  rw [ExtTreeMap.getElem?_modify, ExtTreeMap.getElem?_insert]
  by_cases hk : k = k'
  · subst hk
    simp [h]
  · simp [hk]

end BTreeMap

/-! ## Chunks -/

namespace Bytes

/-- The pieces of `k` bytes of `b`, a shorter rest left out. -/
def chunksExact (k : Nat) (b : Bytes) : List Bytes :=
  (List.range (b.length / k)).map fun i => (b.drop (i * k)).take k

/-- The pieces of `k` bytes of `b`, the last one possibly shorter. -/
def chunks (k : Nat) (b : Bytes) : List Bytes :=
  (List.range ((b.length + k - 1) / k)).map fun i => (b.drop (i * k)).take k

@[simp] theorem length_chunksExact (k : Nat) (b : Bytes) : (chunksExact k b).length = b.length / k := by
  simp [chunksExact]

theorem length_of_mem_chunksExact {k : Nat} {b c : Bytes} (h : c ∈ chunksExact k b) : c.length = k := by
  simp only [chunksExact, List.mem_map, List.mem_range] at h
  obtain ⟨i, hi, rfl⟩ := h
  have hk : 0 < k := Nat.pos_of_ne_zero fun h0 => by simp [h0] at hi
  have : i * k + k ≤ b.length := by
    calc i * k + k = (i + 1) * k := by rw [Nat.succ_mul]
      _ ≤ b.length / k * k := Nat.mul_le_mul_right _ hi
      _ ≤ b.length := Nat.div_mul_le_self ..
  simp; omega

/-! Pieces of one length, put together -/

section
variable {α : Type} {k : Nat} {f : α → Bytes} (hf : ∀ a, (f a).length = k)
include hf

theorem length_flatMap_of_length (l : List α) : (l.flatMap f).length = l.length * k := by
  induction l with
  | nil => simp
  | cons a l ih => rw [List.flatMap_cons, List.length_append, hf, ih, List.length_cons, Nat.succ_mul, Nat.add_comm]

theorem drop_flatMap (l : List α) (j : Nat) : (l.flatMap f).drop (j * k) = (l.drop j).flatMap f := by
  induction j generalizing l with
  | zero => simp
  | succ j ih =>
    cases l with
    | nil => simp
    | cons a l =>
      have hcut : (f a ++ l.flatMap f).drop k = l.flatMap f := List.drop_left' (hf a)
      rw [List.flatMap_cons, Nat.succ_mul, Nat.add_comm, ← List.drop_drop, hcut, ih, List.drop_succ_cons]

theorem take_flatMap (l : List α) (j : Nat) : (l.flatMap f).take (j * k) = (l.take j).flatMap f := by
  induction j generalizing l with
  | zero => simp
  | succ j ih =>
    cases l with
    | nil => simp
    | cons a l =>
      rw [List.flatMap_cons, List.take_succ_cons, List.flatMap_cons, List.take_append, hf, Nat.succ_mul,
        Nat.add_sub_cancel, ih, List.take_of_length_le (by rw [hf]; omega)]

theorem chunksExact_flatMap (hk : 0 < k) (l : List α) : chunksExact k (l.flatMap f) = l.map f := by
  unfold chunksExact
  rw [length_flatMap_of_length hf, Nat.mul_div_cancel _ hk]
  apply List.ext_getElem
  · simp
  · intro i h₁ h₂
    have hi : i < l.length := by simpa using h₂
    rw [List.getElem_map, List.getElem_range, drop_flatMap hf, List.getElem_map]
    rw [List.drop_eq_getElem_cons hi, List.flatMap_cons]
    exact List.take_left' (hf _)

/-- Pieces of one length and a shorter rest are the chunks of what they make. -/
theorem chunks_flatMap_append (l : List α) {tail : Bytes} (hne : 0 < tail.length) (htail : tail.length ≤ k) :
    chunks k (l.flatMap f ++ tail) = l.map f ++ [tail] := by
  have hlen := length_flatMap_of_length hf l
  have hcount : ((l.flatMap f ++ tail).length + k - 1) / k = l.length + 1 := by
    rw [List.length_append, hlen, Nat.div_eq_iff (by omega), Nat.succ_mul]
    omega
  unfold chunks
  rw [hcount]
  apply List.ext_getElem
  · simp
  · intro i h₁ h₂
    rw [List.getElem_map, List.getElem_range]
    by_cases hi : i < l.length
    · have hle : i * k ≤ (l.flatMap f).length := hlen ▸ Nat.mul_le_mul_right k (Nat.le_of_lt hi)
      rw [List.drop_append_of_le_length hle, drop_flatMap hf, List.drop_eq_getElem_cons hi, List.flatMap_cons, List.append_assoc,
        List.take_left' (hf _), List.getElem_append_left (by simpa using hi), List.getElem_map]
    · obtain rfl : i = l.length := by
        rw [List.length_append, List.length_map, List.length_singleton] at h₂
        omega
      rw [List.drop_left' hlen, List.take_of_length_le htail, List.getElem_append_right (by simp)]
      simp

end

theorem flatten_chunks {k : Nat} (hk : 0 < k) (b : Bytes) : (chunks k b).flatten = b := by
  have hstep (j : Nat) : ((List.range j).map fun i => (b.drop (i * k)).take k).flatten = b.take (j * k) := by
    induction j with
    | zero => simp
    | succ j ih =>
      rw [List.range_succ, List.map_append, List.flatten_append, ih, List.map_singleton, List.flatten_singleton,
        Nat.succ_mul, List.take_add]
  unfold chunks
  rw [hstep]
  apply List.take_of_length_le
  have hdiv := Nat.div_add_mod (b.length + k - 1) k
  have hmod := Nat.mod_lt (b.length + k - 1) hk
  rw [Nat.mul_comm] at hdiv
  omega

theorem length_chunks (k : Nat) (b : Bytes) : (chunks k b).length = (b.length + k - 1) / k := by simp [chunks]

end Bytes
