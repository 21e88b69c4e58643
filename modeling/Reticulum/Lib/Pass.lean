import Mathlib.Tactic.Common

/-!
# Passing something along a line

A line of stations, each of which takes what it is handed, changes its own
state and hands on what the next one gets.
-/

namespace Lts

variable {σ β : Type}

/-- `Pass step ss b ss' b'`: handed `b`, the line `ss` becomes `ss'` and hands on `b'`. -/
inductive Pass (step : σ → β → σ → β → Prop) : List σ → β → List σ → β → Prop
  | nil {b : β} : Pass step [] b [] b
  | cons {s s' : σ} {ss ss' : List σ} {b c d : β} : step s b s' c → Pass step ss c ss' d →
    Pass step (s :: ss) b (s' :: ss') d

namespace Pass

variable {step : σ → β → σ → β → Prop} {s s' : σ} {ss ss' ts ts' : List σ} {b c d : β}

theorem append (h : Pass step ss b ss' c) (h' : Pass step ts c ts' d) : Pass step (ss ++ ts) b (ss' ++ ts') d := by
  induction h with
  | nil => exact h'
  | cons hst _ ih => exact .cons hst (ih h')

theorem single (h : step s b s' c) : Pass step [s] b [s'] c := .cons h .nil

theorem length_eq (h : Pass step ss b ss' c) : ss'.length = ss.length := by
  induction h with
  | nil => rfl
  | cons _ _ ih => rw [List.length_cons, List.length_cons, ih]

/-- A line whose first station lets nothing through. -/
theorem not_of_head (hs : ∀ s ∈ ss, ∀ s' c, ¬ step s b s' c) (hne : ss ≠ []) : ¬ Pass step ss b ss' d := by
  rintro (_ | ⟨hst, _⟩)
  · exact hne rfl
  · exact hs _ List.mem_cons_self _ _ hst

theorem unique {step' : σ → β → σ → β → Prop} (hdet : ∀ s b s₁ s₂ c₁ c₂, step s b s₁ c₁ → step' s b s₂ c₂ → s₁ = s₂ ∧ c₁ = c₂)
    (h : Pass step ss b ss' c) (h' : Pass step' ss b ts' d) : ss' = ts' ∧ c = d := by
  induction h generalizing ts' with
  | nil =>
    cases h'
    exact ⟨rfl, rfl⟩
  | cons hst _ ih =>
    obtain _ | ⟨hst', hpass⟩ := h'
    obtain ⟨rfl, rfl⟩ := hdet _ _ _ _ _ _ hst hst'
    obtain ⟨rfl, rfl⟩ := ih hpass
    exact ⟨rfl, rfl⟩

/-- Up to a length, stations that hand something on from any state that meets `P` make a line that does. -/
theorem exists_of {P : σ → Prop} {Q : ℕ → β → Prop} {m : ℕ}
    (hs : ∀ s k b, k < m → P s → Q k b → ∃ s' c, step s b s' c ∧ Q (k + 1) c) (hss : ∀ s ∈ ss, P s) {k : ℕ}
    (hk : k + ss.length ≤ m) (hb : Q k b) : ∃ ss' c, Pass step ss b ss' c := by
  induction ss generalizing k b with
  | nil => exact ⟨[], b, .nil⟩
  | cons s ss ih =>
    rw [List.length_cons] at hk
    obtain ⟨s', c, hst, hc⟩ := hs s k b (by omega) (hss s List.mem_cons_self) hb
    obtain ⟨ss', d, hpass⟩ := ih (fun t ht => hss t (List.mem_cons_of_mem s ht)) (by omega) hc
    exact ⟨s' :: ss', d, .cons hst hpass⟩

end Pass

end Lts
