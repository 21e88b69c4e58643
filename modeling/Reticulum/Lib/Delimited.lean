import Mathlib.Data.List.Infix
import Mathlib.Tactic.Common

/-!
# Delimited streams

A delimiter cuts a stream into segments, and closes one segment as it opens
the next. What is before the first delimiter was not opened, what is behind
the last one is not closed.
-/

namespace Delimited

variable {α : Type} [DecidableEq α] {d : α}

/-- The segments that are closed in a stream that starts behind a delimiter. -/
def closed (d : α) (stream : List α) : List (List α) := (stream.splitOn d).dropLast

/-- The segments between one delimiter and the next. -/
def between (d : α) (stream : List α) : List (List α) := (stream.splitOn d).tail.dropLast

theorem splitOn_segment {segment : List α} (h : d ∉ segment) (rest : List α) :
    (segment ++ d :: rest).splitOn d = segment :: rest.splitOn d := by
  rw [List.splitOn_append_cons_self, List.splitOn_eq_singleton h]
  rfl

theorem closed_of_not_mem {stream : List α} (h : d ∉ stream) : closed d stream = [] := by
  rw [closed, List.splitOn_eq_singleton h]
  rfl

theorem closed_segment {segment : List α} (h : d ∉ segment) (rest : List α) :
    closed d (segment ++ d :: rest) = segment :: closed d rest := by
  rw [closed, splitOn_segment h, List.dropLast_cons_of_ne_nil (List.splitOn_ne_nil d rest)]
  rfl

theorem between_of_not_mem {stream : List α} (h : d ∉ stream) : between d stream = [] := by
  rw [between, List.splitOn_eq_singleton h]
  rfl

theorem between_segment {skipped : List α} (h : d ∉ skipped) (rest : List α) :
    between d (skipped ++ d :: rest) = closed d rest := by
  rw [between, splitOn_segment h]
  rfl

/-- A stream is one open segment, or a segment that is closed and what follows it. -/
theorem segment_induction {P : List α → Prop} (opened : ∀ segment, d ∉ segment → P segment)
    (segment : ∀ segment rest, d ∉ segment → P rest → P (segment ++ d :: rest)) (stream : List α) : P stream := by
  induction hn : stream.length using Nat.strongRecOn generalizing stream with
  | ind n ih =>
    by_cases hmem : d ∈ stream
    · obtain ⟨first, rest, rfl, hfirst⟩ := List.eq_append_cons_of_mem hmem
      have hshort : rest.length < n := by
        rw [← hn, List.length_append, List.length_cons]
        omega
      exact segment first rest hfirst (ih _ hshort rest rfl)
    · exact opened stream hmem

theorem closed_append (a b : List α) : closed d (a ++ d :: b) = closed d (a ++ [d]) ++ closed d b := by
  induction a using segment_induction (d := d) with
  | opened segment h =>
    rw [closed_segment h, closed_segment h, closed_of_not_mem List.not_mem_nil]
    rfl
  | segment segment rest h ih =>
    rw [List.append_assoc, List.append_assoc, List.cons_append, List.cons_append, closed_segment h, closed_segment h, ih]
    rfl

theorem between_append (a b : List α) : between d (a ++ d :: b) = between d (a ++ [d]) ++ closed d b := by
  by_cases hmem : d ∈ a
  · obtain ⟨skipped, rest, rfl, hskipped⟩ := List.eq_append_cons_of_mem hmem
    rw [List.append_assoc, List.append_assoc, List.cons_append, List.cons_append, between_segment hskipped,
      between_segment hskipped, closed_append]
  · rw [between_segment hmem, between_segment hmem, closed_of_not_mem List.not_mem_nil]
    rfl

/-! ## Short runs -/

/-- No part of the stream without a delimiter is longer than so much. -/
def RunsWithin (d : α) (n : Nat) (stream : List α) : Prop := ∀ run, run <:+: stream → d ∉ run → run.length ≤ n

omit [DecidableEq α] in
theorem RunsWithin.of_suffix {n : Nat} {stream rest : List α} (h : RunsWithin d n stream) (hs : rest <:+ stream) :
    RunsWithin d n rest :=
  fun run hrun => h run (hrun.trans hs.isInfix)

omit [DecidableEq α] in
theorem RunsWithin.nil {n : Nat} : RunsWithin d n [] := fun run hrun _ => by
  rw [List.infix_nil.mp hrun]
  exact Nat.zero_le n

omit [DecidableEq α] in
/-- A run is in one segment. -/
theorem RunsWithin.segment {n : Nat} {segment rest : List α} (hseg : segment.length ≤ n) (h : RunsWithin d n rest) :
    RunsWithin d n (segment ++ d :: rest) := by
  intro run hrun hd
  rcases List.infix_append_iff.mp hrun with hin | hin | ⟨before, behind, rfl, hbefore, hbehind⟩
  · exact Nat.le_trans hin.length_le hseg
  · rcases List.infix_cons_iff.mp hin with hpre | hin
    · cases run with
      | nil => exact Nat.zero_le n
      | cons x run => exact absurd (List.mem_cons.mpr (.inl (List.cons_prefix_cons.mp hpre).1.symm)) hd
    · exact h run hin hd
  · cases behind with
    | nil =>
      rw [List.append_nil]
      exact Nat.le_trans hbefore.length_le hseg
    | cons x behind =>
      exact absurd (List.mem_append_right _ (List.mem_cons.mpr (.inl (List.cons_prefix_cons.mp hbehind).1.symm))) hd

end Delimited
