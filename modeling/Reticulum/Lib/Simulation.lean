import Mathlib.Data.List.Forall2
import Reticulum.Lib.Run

/-!
# One system seen as another

Where every step of a system is a run of a second one, every run is. What the
steps show is what the runs show, piece by piece.
-/

namespace Lts

variable {σ τ ι κ α : Type} {step : σ → ι → σ → Prop} {step' : τ → κ → τ → Prop} {f : σ → τ} {I : σ → Prop}
  {Q : ι → List κ → Prop} {s t : σ} {ls : List ι} {trs : List (List κ)}

/-- The steps of the first system, seen through `f`, are runs of the second. -/
theorem Run.simulate (hs : ∀ t l u, I t → step t l u → I u ∧ ∃ tr, Run step' (f t) tr (f u) ∧ Q l tr) (hi : I s)
    (h : Run step s ls t) : I t ∧ ∃ trs, Run step' (f s) trs.flatten (f t) ∧ List.Forall₂ Q ls trs := by
  induction h with
  | nil => exact ⟨hi, [], .nil, .nil⟩
  | snoc _ hst ih =>
    obtain ⟨hi, trs, hr, hq⟩ := ih
    obtain ⟨hi, tr, hr', hq'⟩ := hs _ _ _ hi hst
    refine ⟨hi, trs ++ [tr], ?_, List.rel_append hq (.cons hq' .nil)⟩
    simpa using hr.append hr'

theorem flatMap_eq_of_forall₂ {g : ι → List α} {g' : κ → List α} (h : ∀ l tr, Q l tr → g l = tr.flatMap g')
    (hq : List.Forall₂ Q ls trs) : ls.flatMap g = trs.flatten.flatMap g' := by
  induction hq with
  | nil => rfl
  | cons hq _ ih => rw [List.flatMap_cons, h _ _ hq, ih, List.flatten_cons, List.flatMap_append]

end Lts
