import Reticulum.Lib.Run

/-!
# What flows through a system

A part of a system that hands on what it takes in, in order. Parts in a row
hand on as one part, and a run neither loses nor repeats nor reorders anything.
-/

namespace Lts

variable {σ ι α β : Type}

/-- With every step a place takes in `ins` and hands out `outs`, first in, first out. -/
def Fifo (step : σ → ι → σ → Prop) (ins outs : ι → List α) (contents : σ → List α) : Prop :=
  ∀ s l u, step s l u → contents s ++ ins l = outs l ++ contents u

namespace Fifo

variable {step : σ → ι → σ → Prop} {ins mids outs : ι → List α} {contents contents' : σ → List α} {s u : σ} {tr : List ι}

theorem run (h : Fifo step ins outs contents) (hr : Run step s tr u) :
    contents s ++ tr.flatMap ins = tr.flatMap outs ++ contents u := by
  induction hr with
  | nil => simp
  | snoc _ hst ih =>
    rw [List.flatMap_append, List.flatMap_append, ← List.append_assoc, ih, List.append_assoc]
    simp only [List.flatMap_singleton]
    rw [h _ _ _ hst, List.append_assoc]

/-- One place after the other. -/
theorem series (h : Fifo step ins mids contents) (h' : Fifo step mids outs contents') :
    Fifo step ins outs fun s => contents' s ++ contents s := by
  intro s l u hst
  calc contents' s ++ contents s ++ ins l
      = contents' s ++ (mids l ++ contents u) := by rw [List.append_assoc, h s l u hst]
    _ = outs l ++ (contents' u ++ contents u) := by rw [← List.append_assoc, h' s l u hst, List.append_assoc]

theorem filterMap (f : α → Option β) (h : Fifo step ins outs contents) :
    Fifo step (fun l => (ins l).filterMap f) (fun l => (outs l).filterMap f) fun s => (contents s).filterMap f := by
  intro s l u hst
  simp only [← List.filterMap_append, h s l u hst]

end Fifo

end Lts
