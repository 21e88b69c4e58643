import Mathlib.Tactic.Common
import Mathlib.Data.List.Basic

/-!
# Spaced times

Lists of times, each at least a gap after the one before it. Few of them can
lie close to any lower bound.
-/

namespace Spaced

/-- Of times spaced by `gap` from `b` on, at most `k` come before `b + gap * k`. -/
theorem length_le_filter {gap : Nat} {ts : List Nat} (h : ts.Pairwise (· + gap ≤ ·)) {b : Nat} (hb : ∀ t ∈ ts, b ≤ t)
    (k : Nat) : ts.length ≤ (ts.filter (b + gap * k ≤ ·)).length + k := by
  induction ts generalizing b k with
  | nil => exact Nat.zero_le _
  | cons t ts ih =>
    obtain ⟨ht, hts⟩ := List.pairwise_cons.mp h
    have hbt := hb t List.mem_cons_self
    cases k with
    | zero =>
      have hall : ∀ a ∈ t :: ts, decide (b + gap * 0 ≤ a) = true := fun a ha => by simpa using hb a ha
      exact Nat.le_of_eq (congrArg List.length (List.filter_eq_self.mpr hall)).symm
    | succ k =>
      have hrest : ∀ a ∈ ts, b + gap ≤ a := fun a ha => Nat.le_trans (Nat.add_le_add_right hbt gap) (ht a ha)
      have hlen := ih hts hrest k
      rw [Nat.add_assoc, show gap + gap * k = gap * (k + 1) by rw [Nat.mul_succ, Nat.add_comm]] at hlen
      have hsub := ((List.sublist_cons_self t ts).filter fun a => decide (b + gap * (k + 1) ≤ a)).length_le
      rw [List.length_cons]
      omega

theorem filter_length_mono {ts : List Nat} {a b : Nat} (h : a ≤ b) :
    (ts.filter (b ≤ ·)).length ≤ (ts.filter (a ≤ ·)).length := by
  refine (List.monotone_filter_right ts fun t ht => ?_).length_le
  rw [decide_eq_true_eq] at ht ⊢
  exact Nat.le_trans h ht

/-- The times `b`, `b + gap`, ..., `b + gap * (k - 1)`. -/
def ticks (gap b k : Nat) : List Nat := (List.range k).map fun j => b + gap * j

theorem length_ticks (gap b k : Nat) : (ticks gap b k).length = k := by simp [ticks]

theorem ticks_spaced (gap b k : Nat) : (ticks gap b k).Pairwise (· + gap ≤ ·) := by
  refine List.pairwise_map.mpr ((List.pairwise_lt_range (n := k)).imp fun {i j} hij => ?_)
  have := Nat.mul_le_mul_left gap (Nat.succ_le_of_lt hij)
  rw [Nat.mul_succ] at this
  omega

/-- Past the time of tick `j`, only the ticks after it count. -/
theorem length_filter_ticks_le {gap b c j : Nat} (h : b + gap * j < c) (k : Nat) :
    ((ticks gap b k).filter (c ≤ ·)).length ≤ k - (j + 1) := by
  induction k with
  | zero => simp [ticks]
  | succ k ih =>
    have hsucc : ticks gap b (k + 1) = ticks gap b k ++ [b + gap * k] := by
      rw [ticks, List.range_succ, List.map_append]
      rfl
    rw [hsucc, List.filter_append, List.length_append, List.filter_singleton]
    by_cases hc : c ≤ b + gap * k
    · have hjk : j < k := Nat.lt_of_mul_lt_mul_left (Nat.lt_of_add_lt_add_left (Nat.lt_of_lt_of_le h hc))
      rw [decide_eq_true hc, cond_true, List.length_singleton]
      omega
    · rw [decide_eq_false hc, cond_false, List.length_nil]
      omega

end Spaced
