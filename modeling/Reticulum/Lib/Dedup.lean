import Mathlib.Algebra.GroupWithZero.Nat
import Reticulum.Lib.Bytes
import Reticulum.Lib.Run

/-!
# Time-limited duplicate filters

A filter remembers the keys it took, each until an expiry time, and forgets
the expired ones in sweeps that may come at any moment. A key is taken again
only after a sweep at or past its expiry.
-/

open Std

namespace Dedup

variable {K : Type} [Ord K] [TransOrd K] [LawfulEqOrd K]

/-- The keys taken, with the time each is remembered until. -/
abbrev Seen (K : Type) [Ord K] := BTreeMap K Nat

/-- Forgets what has expired. -/
def sweep (now : Nat) (s : Seen K) : Seen K := s.filter fun _ expiresAt => expiresAt > now

/-- A filter handles something at a moment: it may sweep, and then may take a new key. -/
inductive Step (expiry : Nat → Nat) (s : Seen K) (now : Nat) : Option K → Seen K → Prop
  | keep : Step expiry s now none s
  | swept : Step expiry s now none (sweep now s)
  | take {k : K} {s' : Seen K} : s' = s ∨ s' = sweep now s → s'[k]? = none →
    Step expiry s now (some k) (s'.insert k (expiry now))

variable {expiry : Nat → Nat} {s s' : Seen K} {now e : Nat} {k : K}

omit [LawfulEqOrd K] in
theorem getElem?_sweep : (sweep now s)[k]? = (s[k]?).filter fun e => e > now := by
  simp [sweep]

omit [LawfulEqOrd K] in
theorem getElem?_sweep_of_lt (h : s[k]? = some e) (hlt : now < e) : (sweep now s)[k]? = some e := by
  simp [getElem?_sweep, h, hlt]

omit [LawfulEqOrd K] in
theorem getElem?_of_sweep (h : (sweep now s)[k]? = some e) : s[k]? = some e ∧ now < e := by
  simpa [getElem?_sweep, Option.filter_eq_some_iff] using h

/-- Sweeping later forgets at least as much. -/
theorem sweep_sweep {now' : Nat} (h : now ≤ now') : sweep now' (sweep now s) = sweep now' s := by
  have hpred : (fun e => decide (e > now) && decide (e > now')) = fun e => decide (e > now') := by
    funext e
    rw [Bool.eq_iff_iff, Bool.and_eq_true, decide_eq_true_eq, decide_eq_true_eq]
    omega
  ext k : 1
  simp only [getElem?_sweep, Option.filter_filter, hpred]

theorem sweep_eq_self (h : ∀ (k : K) (e : Nat), s[k]? = some e → now < e) : sweep now s = s := by
  ext k : 1
  rw [getElem?_sweep]
  cases hk : s[k]? with
  | none => rfl
  | some e => simp [h k e hk]

omit [LawfulEqOrd K] in
theorem Step.idle (h : s' = s ∨ s' = sweep now s) : Step expiry s now none s' := by
  rcases h with rfl | rfl
  · exact .keep
  · exact .swept

/-- Until its expiry a key stays remembered and is not taken again. -/
theorem Step.remembered {a : Option K} (h : Step expiry s now a s') (hk : s[k]? = some e) (hlt : now < e) :
    s'[k]? = some e ∧ a ≠ some k := by
  have hold {m : Seen K} (hm : m = s ∨ m = sweep now s) : m[k]? = some e := by
    rcases hm with rfl | rfl
    · exact hk
    · exact getElem?_sweep_of_lt hk hlt
  cases h with
  | keep => exact ⟨hk, by simp⟩
  | swept => exact ⟨hold (.inr rfl), by simp⟩
  | @take k' m hm hnew =>
    have hne : k' ≠ k := by
      rintro rfl
      rw [hold hm] at hnew
      cases hnew
    exact ⟨by rw [BTreeMap.getElem?_insert_ne hne]; exact hold hm, by simpa using hne⟩

theorem Step.taken (h : Step expiry s now (some k) s') : s'[k]? = some (expiry now) := by
  cases h
  simp

/-! ## Runs -/

variable {σ ι : Type} {step : σ → ι → σ → Prop} {seen : σ → Seen K} {time : ι → Nat} {mark : ι → Option K}

/-- A system that owns a filter: what a label is marked with, its step takes. -/
def Filters (step : σ → ι → σ → Prop) (expiry : Nat → Nat) (seen : σ → Seen K) (time : ι → Nat)
    (mark : ι → Option K) : Prop :=
  ∀ s l s', step s l s' → ∃ a, Step expiry (seen s) (time l) a (seen s') ∧ ∀ k, mark l = some k → a = some k

/-- When time does not run backwards, a key is taken again at its expiry at the earliest, and each taken key
is past its expiry or still remembered. -/
theorem Filters.history (hf : Filters step expiry seen time mark) {s s' : σ} {tr : List ι} (h : Lts.Run step s tr s')
    (hmono : tr.Pairwise fun l l' => time l ≤ time l') :
    (tr.Pairwise fun l l' => ∀ k, mark l = some k → mark l' = some k → expiry (time l) ≤ time l') ∧
      ∀ l ∈ tr, ∀ k, mark l = some k →
        (∃ l' ∈ tr, expiry (time l) ≤ time l') ∨ (seen s')[k]? = some (expiry (time l)) := by
  let I (tr : List ι) (s : σ) : Prop := tr.Pairwise (fun l l' => time l ≤ time l') →
    (tr.Pairwise fun l l' => ∀ k, mark l = some k → mark l' = some k → expiry (time l) ≤ time l') ∧
      ∀ l ∈ tr, ∀ k, mark l = some k →
        (∃ l' ∈ tr, expiry (time l) ≤ time l') ∨ (seen s)[k]? = some (expiry (time l))
  have hinv : I tr s' := by
    refine h.history (I := I) (fun _ => ⟨.nil, by simp⟩) ?_
    intro tr t l u ih hst hmono
    obtain ⟨hold, -, hlast⟩ := List.pairwise_append.mp hmono
    obtain ⟨hsp, hmem⟩ := ih hold
    obtain ⟨a, hs, ha⟩ := hf t l u hst
    have hcase (l' : ι) (hl' : l' ∈ tr) (k : K) (hk : mark l' = some k) :
        expiry (time l') ≤ time l ∨ time l < expiry (time l') ∧ (seen t)[k]? = some (expiry (time l')) := by
      rcases hmem l' hl' k hk with ⟨l'', hl'', he⟩ | he
      · exact .inl (Nat.le_trans he (hlast l'' hl'' l (List.mem_singleton_self l)))
      · rcases Nat.lt_or_ge (time l) (expiry (time l')) with hlt | hge
        · exact .inr ⟨hlt, he⟩
        · exact .inl hge
    refine ⟨List.pairwise_append.mpr ⟨hsp, List.pairwise_singleton .., ?_⟩, ?_⟩
    · intro l' hl' l'' hl'' k hk hk'
      rw [List.mem_singleton.mp hl''] at hk' ⊢
      rcases hcase l' hl' k hk with hge | ⟨hlt, he⟩
      · exact hge
      · exact absurd (ha k hk') (hs.remembered he hlt).2
    · intro l' hl' k hk
      rcases List.mem_append.mp hl' with hl' | hl'
      · rcases hcase l' hl' k hk with hge | ⟨hlt, he⟩
        · exact .inl ⟨l, by simp, hge⟩
        · exact .inr (hs.remembered he hlt).1
      · rw [List.mem_singleton.mp hl'] at hk ⊢
        rw [ha k hk] at hs
        exact .inr hs.taken
  exact hinv hmono

theorem Filters.spaced (hf : Filters step expiry seen time mark) {s s' : σ} {tr : List ι} (h : Lts.Run step s tr s')
    (hmono : tr.Pairwise fun l l' => time l ≤ time l') :
    tr.Pairwise fun l l' => ∀ k, mark l = some k → mark l' = some k → expiry (time l) ≤ time l' :=
  (hf.history h hmono).1

/-- Of counts that are one at most, no two of them positive, the sum is one at most. -/
theorem sum_map_le_one {f : ι → Nat} {xs : List ι} (h : ∀ a ∈ xs, f a ≤ 1)
    (h' : xs.Pairwise fun a b => f a ≠ 0 → f b = 0) : (xs.map f).sum ≤ 1 := by
  induction xs with
  | nil => exact Nat.zero_le 1
  | cons a xs ih =>
    obtain ⟨ha, hxs⟩ := List.forall_mem_cons.mp h
    obtain ⟨hfirst, hrest⟩ := List.pairwise_cons.mp h'
    rw [List.map_cons, List.sum_cons]
    by_cases h0 : f a = 0
    · have := ih hxs hrest
      omega
    · have hnone : xs.map f = List.replicate xs.length 0 := List.map_eq_replicate_iff.mpr fun b hb => hfirst b hb h0
      rw [hnone, List.sum_replicate_nat, Nat.mul_zero]
      exact ha

/-- A system whose labels tell exactly what its filter takes. -/
def Records (step : σ → ι → σ → Prop) (expiry : Nat → Nat) (seen : σ → Seen K) (time : ι → Nat)
    (mark : ι → Option K) : Prop :=
  ∀ s l s', step s l s' → Step expiry (seen s) (time l) (mark l) (seen s')

omit [LawfulEqOrd K] in
theorem Records.filters (hr : Records step expiry seen time mark) : Filters step expiry seen time mark :=
  fun s l s' h => ⟨mark l, hr s l s' h, fun _ hk => hk⟩

/-- What a filter remembers was taken at some moment, with the expiry of that moment. -/
theorem Records.taken (hr : Records step expiry seen time mark) {s s' : σ} {tr : List ι} (h : Lts.Run step s tr s')
    (h₀ : seen s = ∅) : ∀ k e, (seen s')[k]? = some e → ∃ l ∈ tr, mark l = some k ∧ e = expiry (time l) := by
  refine h.history (I := fun tr s' => ∀ k e, (seen s')[k]? = some e → ∃ l ∈ tr, mark l = some k ∧ e = expiry (time l))
    (by simp [h₀]) fun tr t l u ih hst k e he => ?_
  have hold {m : Seen K} (hm : m = seen t ∨ m = sweep (time l) (seen t)) (he : m[k]? = some e) :
      ∃ l' ∈ tr ++ [l], mark l' = some k ∧ e = expiry (time l') := by
    have he : (seen t)[k]? = some e := by
      rcases hm with rfl | rfl
      · exact he
      · exact (getElem?_of_sweep he).1
    obtain ⟨l', hl', h⟩ := ih k e he
    exact ⟨l', List.mem_append_left _ hl', h⟩
  have hs := hr t l u hst
  generalize hm : mark l = a at hs
  generalize seen u = m at hs he
  cases hs with
  | keep => exact hold (.inl rfl) he
  | swept => exact hold (.inr rfl) he
  | @take k' m hm' =>
    by_cases hk : k' = k
    · subst hk
      rw [ExtTreeMap.getElem?_insert_self] at he
      exact ⟨l, by simp, hm, (Option.some.inj he).symm⟩
    · rw [BTreeMap.getElem?_insert_ne hk] at he
      exact hold hm' he

/-- After a sweep, the remembered keys are those taken and not yet expired. -/
theorem Records.remembers (hr : Records step expiry seen time mark) {s s' : σ} {tr : List ι} (h : Lts.Run step s tr s')
    (h₀ : seen s = ∅) (hmono : tr.Pairwise fun l l' => time l ≤ time l') {t : Nat} (ht : ∀ l ∈ tr, time l ≤ t) (k : K) :
    (sweep t (seen s')).contains k = true ↔ ∃ l ∈ tr, mark l = some k ∧ t < expiry (time l) := by
  rw [ExtTreeMap.contains_eq_isSome_getElem?, Option.isSome_iff_exists]
  constructor
  · rintro ⟨e, he⟩
    obtain ⟨he, hlt⟩ := getElem?_of_sweep he
    obtain ⟨l, hl, hk, rfl⟩ := hr.taken h h₀ k e he
    exact ⟨l, hl, hk, hlt⟩
  · rintro ⟨l, hl, hk, hlt⟩
    rcases (hr.filters.history h hmono).2 l hl k hk with ⟨l', hl', hle⟩ | he
    · have := ht l' hl'
      omega
    · exact ⟨_, getElem?_sweep_of_lt he hlt⟩

end Dedup
