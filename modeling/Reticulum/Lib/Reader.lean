import Mathlib.Tactic.Common
import Reticulum.Lib.Cursor

/-!
# Readers that return the rest

A reader takes a value from the front of its input and returns what is behind
it, or fails. It reads a language when it succeeds just on the inputs that
start with a word of it; what it returns then does not depend on the rest.
-/

namespace Reader

open Cursor (Listed)

variable {ε α β τ : Type}

theorem bind_eq_ok {x : Except ε α} {f : α → Except ε β} {b : β} : x >>= f = .ok b ↔ ∃ a, x = .ok a ∧ f a = .ok b := by
  constructor
  · intro h
    cases x with
    | error e => cases h
    | ok a => exact ⟨a, rfl, h⟩
  · rintro ⟨a, rfl, h⟩
    exact h

/-- The reader succeeds just where a word of the language stands in front, and returns what is behind it. -/
def Reads (f : List τ → Except ε (α × List τ)) (R : List τ → α → Prop) : Prop :=
  ∀ (input : List τ) (a : α) (rest : List τ), f input = .ok (a, rest) ↔ ∃ w, R w a ∧ input = w ++ rest

variable {f : List τ → Except ε (α × List τ)} {R R' : List τ → α → Prop} {g : α × List τ → Except ε (β × List τ)}
  {S : α → List τ → β → Prop}

theorem Reads.congr (hf : Reads f R) (h : ∀ w a, R w a ↔ R' w a) : Reads f R' := by
  intro input a rest
  simp only [hf input a rest, h]

/-- A word of the language is read back, whatever follows it. -/
theorem Reads.read (hf : Reads f R) {w : List τ} {a : α} (h : R w a) (rest : List τ) : f (w ++ rest) = .ok (a, rest) :=
  (hf _ a rest).mpr ⟨w, h, rfl⟩

/-- What is behind the end of the input is left for the next reader. -/
theorem Reads.append (hf : Reads f R) {input rest : List τ} {a : α} (h : f input = .ok (a, rest)) (more : List τ) :
    f (input ++ more) = .ok (a, rest ++ more) := by
  obtain ⟨w, hw, rfl⟩ := (hf input a rest).mp h
  exact (hf _ a _).mpr ⟨w, hw, List.append_assoc ..⟩

theorem reads_fail (e : ε) : Reads (fun _ => (.error e : Except ε (α × List τ))) fun _ _ => False := by
  intro input a rest
  constructor
  · intro h
    cases h
  · rintro ⟨w, hw, -⟩
    exact hw.elim

/-- One reader after the other reads the words of the first followed by those of the second. -/
theorem Reads.bind (hf : Reads f R) (hg : ∀ a, Reads (fun input => g (a, input)) (S a)) :
    Reads (fun input => f input >>= g) fun w b => ∃ a u v, w = u ++ v ∧ R u a ∧ S a v b := by
  intro input b rest
  rw [bind_eq_ok]
  constructor
  · rintro ⟨⟨a, mid⟩, ha, hb⟩
    obtain ⟨u, hu, rfl⟩ := (hf input a mid).mp ha
    obtain ⟨v, hv, rfl⟩ := (hg a mid b rest).mp hb
    exact ⟨u ++ v, ⟨a, u, v, rfl, hu, hv⟩, (List.append_assoc ..).symm⟩
  · rintro ⟨_, ⟨a, u, v, rfl, hu, hv⟩, rfl⟩
    rw [List.append_assoc]
    exact ⟨(a, v ++ rest), hf.read hu _, (hg a).read hv rest⟩

theorem Reads.convert (hf : Reads f R) (check : α → Except ε β) :
    Reads (fun input => f input >>= fun r => check r.1 >>= fun b => pure (b, r.2)) fun w b => ∃ a, R w a ∧ check a = .ok b := by
  intro input b rest
  simp only [bind_eq_ok]
  constructor
  · rintro ⟨⟨a, mid⟩, ha, b', hb, hpure⟩
    cases hpure
    obtain ⟨w, hw, rfl⟩ := (hf input a mid).mp ha
    exact ⟨w, ⟨a, hw, hb⟩, rfl⟩
  · rintro ⟨w, ⟨a, hw, hb⟩, rfl⟩
    exact ⟨(a, _), hf.read hw _, b, hb, rfl⟩

theorem Reads.map (hf : Reads f R) (F : α → β) :
    Reads (fun input => f input >>= fun r => pure (F r.1, r.2)) fun w b => ∃ a, R w a ∧ b = F a := by
  refine (hf.convert fun a => pure (F a)).congr fun w b => ?_
  constructor
  · rintro ⟨a, ha, hb⟩
    cases hb
    exact ⟨a, ha, rfl⟩
  · rintro ⟨a, ha, rfl⟩
    exact ⟨a, ha, rfl⟩

theorem Reads.ite {c : Prop} [Decidable c] {f' : List τ → Except ε (α × List τ)} (hf : c → Reads f R) (hf' : ¬ c → Reads f' R) :
    Reads (fun input => if c then f input else f' input) R := by
  by_cases h : c
  · simpa only [h, if_true] using hf h
  · simpa only [h, if_false] using hf' h

/-! ## Repetition -/

/-- To read an item and put it into a state, as often as a count says. -/
def fold {σ : Type} (step : σ → List τ → Except ε (σ × List τ)) : Nat → σ → List τ → Except ε (σ × List τ)
  | 0, s, input => .ok (s, input)
  | n + 1, s, input => step s input >>= fun r => fold step n r.1 r.2

theorem reads_fold {σ : Type} {step : σ → List τ → Except ε (σ × List τ)} {put : σ → α → σ}
    (hstep : ∀ s, Reads (step s) fun w s' => ∃ a, R w a ∧ s' = put s a) (n : Nat) (s : σ) :
    Reads (fold step n s) fun w s' => ∃ as : List α, Listed R w as ∧ as.length = n ∧ s' = as.foldl put s := by
  induction n generalizing s with
  | zero =>
    intro input s' rest
    constructor
    · intro h
      cases h
      exact ⟨[], ⟨[], .nil, rfl, rfl⟩, rfl⟩
    · rintro ⟨w, ⟨as, hw, hlen, rfl⟩, rfl⟩
      cases hw with
      | nil => rfl
      | cons => cases hlen
  | succ n ih =>
    refine ((hstep s).bind fun s' => ih s').congr fun w s'' => ?_
    constructor
    · rintro ⟨_, u, v, rfl, ⟨a, hu, rfl⟩, as, hv, hlen, rfl⟩
      exact ⟨a :: as, .cons hu hv, congrArg Nat.succ hlen, rfl⟩
    · rintro ⟨as, hw, hlen, rfl⟩
      cases hw with
      | nil => cases hlen
      | @cons u v a as hu hv => exact ⟨put s a, u, v, rfl, ⟨a, hu, rfl⟩, as, hv, Nat.succ.inj hlen, rfl⟩

end Reader
