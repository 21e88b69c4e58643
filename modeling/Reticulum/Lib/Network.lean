import Mathlib.Logic.Function.Basic
import Reticulum.Lib.Run

/-!
# Networks of transition systems

A family of systems that take their steps one at a time, in any order. A run
of the family is a run of each member.
-/

namespace Lts

variable {ν σ ι : Type}

/-- The members of a family of two. -/
inductive Side
  | near
  | far
  deriving DecidableEq

theorem Side.eq_of_ne {v w side : Side} (hv : side ≠ v) (hw : w ≠ v) : side = w := by
  cases v <;> cases w <;> cases side <;> simp_all

/-- One member takes a step, the others stay. -/
def Interleave (step : σ → ι → σ → Prop) (s : ν → σ) (l : ν × ι) (s' : ν → σ) : Prop :=
  step (s l.1) l.2 (s' l.1) ∧ ∀ v, v ≠ l.1 → s' v = s v

variable [DecidableEq ν]

/-- The labels of one member. -/
def own (v : ν) (tr : List (ν × ι)) : List ι := tr.filterMap fun l => if l.1 = v then some l.2 else none

@[simp] theorem mem_own {v : ν} {tr : List (ν × ι)} {l : ι} : l ∈ own v tr ↔ (v, l) ∈ tr := by
  simp only [own, List.mem_filterMap, Option.ite_none_right_eq_some, Option.some.injEq, Prod.exists]
  constructor
  · rintro ⟨w, l, hl, rfl, rfl⟩
    exact hl
  · intro hl
    exact ⟨v, l, hl, rfl, rfl⟩

theorem own_append (v : ν) (tr tr' : List (ν × ι)) : own v (tr ++ tr') = own v tr ++ own v tr' :=
  List.filterMap_append ..

theorem flatMap_own {α : Type} (v : ν) (f : ι → List α) (tr : List (ν × ι)) :
    (own v tr).flatMap f = tr.flatMap fun l => if l.1 = v then f l.2 else [] := by
  induction tr with
  | nil => rfl
  | cons l tr ih =>
    rw [← List.singleton_append, own_append, List.flatMap_append, List.flatMap_append, ih, List.flatMap_singleton]
    by_cases hv : l.1 = v <;> simp [own, hv]

variable {step : σ → ι → σ → Prop} {s s' : ν → σ} {tr : List (ν × ι)}

/-- What each of its own steps does to a member, while the steps of the others leave it alone. -/
theorem Run.project_of {R : (ν → σ) → ν × ι → (ν → σ) → Prop} {v : ν}
    (hown : ∀ s l s', R s (v, l) s' → step (s v) l (s' v))
    (hother : ∀ s l s', R s l s' → l.1 ≠ v → s' v = s v) (h : Run R s tr s') :
    Run step (s v) (own v tr) (s' v) := by
  induction h with
  | nil => exact .nil
  | @snoc tr t l u _ hst ih =>
    rw [own_append]
    by_cases hv : l.1 = v
    · subst hv
      rw [show own l.1 [l] = [l.2] by simp [own]]
      exact .snoc ih (hown t l.2 u hst)
    · rw [show own v [l] = [] by simp [own, hv], List.append_nil, hother t l u hst hv]
      exact ih

theorem Run.project (h : Run (Interleave step) s tr s') (v : ν) : Run step (s v) (own v tr) (s' v) :=
  h.project_of (fun _ _ _ hst => hst.1) fun _ _ _ hst hv => hst.2 v (Ne.symm hv)

theorem interleave_update {v : ν} {s : ν → σ} {t u : σ} {l : ι} (h : step t l u) :
    Interleave step (Function.update s v t) (v, l) (Function.update s v u) :=
  ⟨by simpa using h, fun w hw => by rw [Function.update_of_ne hw, Function.update_of_ne hw]⟩

theorem Run.lift_of {R : (ν → σ) → ν × ι → (ν → σ) → Prop} {v : ν} {s : ν → σ} {t : σ} {tr : List ι}
    (hR : ∀ t l u, step t l u → R (Function.update s v t) (v, l) (Function.update s v u))
    (h : Run step (s v) tr t) : Run R s (tr.map fun l => (v, l)) (Function.update s v t) := by
  induction h with
  | nil => simpa using Run.nil
  | @snoc tr t l u _ hst ih =>
    rw [List.map_append]
    exact .snoc ih (hR t l u hst)

theorem Run.lift {v : ν} {s : ν → σ} {t : σ} {tr : List ι} (h : Run step (s v) tr t) :
    Run (Interleave step) s (tr.map fun l => (v, l)) (Function.update s v t) :=
  h.lift_of fun _ _ _ => interleave_update

/-- A relation between the labels of one member, each before a later one. -/
theorem pairwise_own {R : ι → ι → Prop} (h : ∀ v, (own v tr).Pairwise R) :
    tr.Pairwise fun l l' => l.1 = l'.1 → R l.2 l'.2 := by
  induction tr with
  | nil => exact .nil
  | cons l tr ih =>
    have hown (v : ν) : own v (l :: tr) = own v [l] ++ own v tr := own_append v [l] tr
    refine List.pairwise_cons.mpr ⟨fun l' hl' hv => ?_, ih fun v => ?_⟩
    · have hp := h l.1
      rw [hown, List.pairwise_append] at hp
      exact hp.2.2 l.2 (by simp) l'.2 (by rw [hv]; simpa using hl')
    · have hp := h v
      rw [hown, List.pairwise_append] at hp
      exact hp.2.1

theorem own_pairwise {R : ι → ι → Prop} (h : tr.Pairwise fun l l' => l.1 = l'.1 → R l.2 l'.2) (v : ν) :
    (own v tr).Pairwise R := by
  refine List.Pairwise.filterMap _ (fun a a' hr b hb b' hb' => ?_) h
  simp only [Option.ite_none_right_eq_some, Option.some.injEq] at hb hb'
  obtain ⟨rfl, rfl⟩ := hb
  obtain ⟨ha, rfl⟩ := hb'
  exact hr ha.symm

end Lts
