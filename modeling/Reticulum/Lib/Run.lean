import Mathlib.Tactic.Common
import Mathlib.Data.List.Induction

/-!
# Runs of a labelled transition system

A run is a list of labels, oldest first, with the states it leads between.
Histories are kept in the labels, so an invariant may relate a state to
everything that happened before it.
-/

namespace Lts

variable {σ ι τ : Type}

/-- `Run step s tr t`: the steps labelled `tr` lead from `s` to `t`. -/
inductive Run (step : σ → ι → σ → Prop) (s : σ) : List ι → σ → Prop
  | nil : Run step s [] s
  | snoc {tr : List ι} {t : σ} {l : ι} {u : σ} :
    Run step s tr t → step t l u → Run step s (tr ++ [l]) u

namespace Run

variable {step : σ → ι → σ → Prop} {s t u : σ} {tr tr' : List ι}

/-- A predicate preserved by every step holds along a run. -/
theorem preserve {I : σ → Prop} (hs : ∀ t l u, I t → step t l u → I u)
    (h₀ : I s) (h : Run step s tr t) : I t := by
  induction h with
  | nil => exact h₀
  | snoc _ hst ih => exact hs _ _ _ ih hst

theorem history {I : List ι → σ → Prop} (h₀ : I [] s)
    (hs : ∀ tr t l u, I tr t → step t l u → I (tr ++ [l]) u) (h : Run step s tr t) : I tr t := by
  induction h with
  | nil => exact h₀
  | snoc _ hst ih => exact hs _ _ _ _ ih hst

/-- A preserved predicate that also relies on a condition met by every label. -/
theorem preserve_of_labels {I : σ → Prop} {ok : σ → ι → Prop}
    (hs : ∀ t l u, I t → ok t l → step t l u → I u) (h₀ : I s)
    (h : Run (fun t l u => ok t l ∧ step t l u) s tr t) : I t :=
  preserve (fun t l u hi hst => hs t l u hi hst.1 hst.2) h₀ h

theorem append (h : Run step s tr t) (h' : Run step t tr' u) : Run step s (tr ++ tr') u := by
  induction h' with
  | nil => simpa using h
  | snoc _ hst ih => rw [← List.append_assoc]; exact snoc ih hst

theorem single {l : ι} (h : step s l t) : Run step s [l] t := by simpa using snoc nil h

theorem cons {l : ι} (h : step s l t) (h' : Run step t tr u) : Run step s (l :: tr) u :=
  append (single h) h'

theorem nil_inv (h : Run step s [] t) : t = s := by
  generalize hw : ([] : List ι) = w at h
  cases h with
  | nil => rfl
  | snoc => simp at hw

theorem snoc_inv {l : ι} (h : Run step s (tr ++ [l]) u) : ∃ t, Run step s tr t ∧ step t l u := by
  generalize hw : tr ++ [l] = w at h
  cases h with
  | nil => simp at hw
  | snoc hr hst =>
    obtain ⟨rfl, hl⟩ := List.append_inj' hw rfl
    cases hl
    exact ⟨_, hr, hst⟩

theorem split (h : Run step s (tr ++ tr') u) : ∃ t, Run step s tr t ∧ Run step t tr' u := by
  induction tr' using List.reverseRecOn generalizing u with
  | nil => exact ⟨u, by simpa using h, nil⟩
  | append_singleton tr' l ih =>
    rw [← List.append_assoc] at h
    obtain ⟨v, hv, hst⟩ := snoc_inv h
    obtain ⟨t, ht, ht'⟩ := ih hv
    exact ⟨t, ht, snoc ht' hst⟩

theorem cons_inv {l : ι} (h : Run step s (l :: tr) u) : ∃ t, step s l t ∧ Run step t tr u := by
  obtain ⟨t, ht, ht'⟩ := split (show Run step s ([l] ++ tr) u from h)
  obtain ⟨v, hv, hst⟩ := snoc_inv (show Run step s ([] ++ [l]) t from ht)
  cases nil_inv hv
  exact ⟨t, hst, ht'⟩

/-- A label that determines the next state makes the labels determine the last one. -/
theorem unique (hdet : ∀ s l t u, step s l t → step s l u → t = u) (h : Run step s tr t) (h' : Run step s tr u) :
    t = u := by
  induction h generalizing u with
  | nil => exact h'.nil_inv.symm
  | snoc _ hst ih =>
    obtain ⟨v, hv, hst'⟩ := snoc_inv h'
    cases ih hv
    exact hdet _ _ _ _ hst hst'

/-- A part of the state that takes steps of its own has a run of its own. -/
theorem map {step' : τ → ι → τ → Prop} (f : σ → τ) (hs : ∀ t l u, step t l u → step' (f t) l (f u))
    (h : Run step s tr t) : Run step' (f s) tr (f t) := by
  induction h with
  | nil => exact nil
  | snoc _ hst ih => exact snoc ih (hs _ _ _ hst)

theorem mono {step' : σ → ι → σ → Prop} (hs : ∀ t l u, step t l u → step' t l u)
    (h : Run step s tr t) : Run step' s tr t := h.map id hs

/-- A run whose labels all meet a condition is a run of the restricted system. -/
theorem restrict {ok : σ → ι → Prop} (hok : ∀ t, ∀ l ∈ tr, ok t l) (h : Run step s tr t) :
    Run (fun t l u => ok t l ∧ step t l u) s tr t := by
  induction h with
  | nil => exact nil
  | snoc _ hst ih =>
    exact snoc (ih fun t l hl => hok t l (List.mem_append_left _ hl))
      ⟨hok _ _ (List.mem_append_right _ (List.mem_singleton_self _)), hst⟩

/-- Every step of a run is taken from a state where a preserved predicate holds. -/
theorem guarded {I : σ → Prop} (hs : ∀ t l u, I t → step t l u → I u) (h₀ : I s) (h : Run step s tr t) :
    Run (fun t l u => I t ∧ step t l u) s tr t := by
  induction h with
  | nil => exact nil
  | snoc hr hst ih => exact snoc ih ⟨hr.preserve hs h₀, hst⟩

theorem mem_step {l : ι} (h : Run step s tr t) (hl : l ∈ tr) :
    ∃ tr₁ tr₂ v w, tr = tr₁ ++ l :: tr₂ ∧ Run step s tr₁ v ∧ step v l w ∧ Run step w tr₂ t := by
  obtain ⟨tr₁, tr₂, rfl⟩ := List.append_of_mem hl
  obtain ⟨v, hv, hv'⟩ := split h
  obtain ⟨w, hw, hw'⟩ := cons_inv hv'
  exact ⟨tr₁, tr₂, v, w, rfl, hv, hw, hw'⟩

end Run

end Lts
