import Mathlib.Data.List.Infix
import Mathlib.Tactic.Common

/-!
# Readers that move a cursor

A reader looks at an input through a position that it moves on, also when it
fails. What it recognises is a relation between the bytes it has moved over
and the value it returns, so that two bytes strings one of which continues the
other are never both recognised.
-/

/-- A computation that moves a position and may fail. -/
structure Cursor (ε α : Type) where
  run : Nat → Except ε α × Nat

namespace Cursor

variable {ε α β τ : Type}

instance instMonadCursor : Monad (Cursor ε) where
  pure a := ⟨fun p => (.ok a, p)⟩
  bind f g := ⟨fun p => match f.run p with
    | (.ok a, q) => (g a).run q
    | (.error e, q) => (.error e, q)⟩

def fail (e : ε) : Cursor ε α := ⟨fun p => (.error e, p)⟩

/-- Where the cursor is. -/
def position : Cursor ε Nat := ⟨fun p => (.ok p, p)⟩

/-- To return early with an error. -/
def reject (c : Prop) [Decidable c] (e : ε) : Cursor ε Unit := if c then fail e else pure ()

@[simp] theorem run_pure (a : α) (p : Nat) : (pure a : Cursor ε α).run p = (.ok a, p) := rfl

@[simp] theorem run_fail (e : ε) (p : Nat) : (fail e : Cursor ε α).run p = (.error e, p) := rfl

@[simp] theorem run_position (p : Nat) : (position : Cursor ε Nat).run p = (.ok p, p) := rfl

theorem run_bind_ok {f : Cursor ε α} {g : α → Cursor ε β} {p q : Nat} {a : α} (h : f.run p = (.ok a, q)) :
    (f >>= g).run p = (g a).run q := by
  change (match f.run p with | (.ok a, q) => (g a).run q | (.error e, q) => (.error e, q)) = _
  rw [h]

theorem run_bind_error {f : Cursor ε α} {g : α → Cursor ε β} {p q : Nat} {e : ε} (h : f.run p = (.error e, q)) :
    (f >>= g).run p = (.error e, q) := by
  change (match f.run p with | (.ok a, q) => (g a).run q | (.error e, q) => (.error e, q)) = _
  rw [h]

theorem bind_eq_ok {f : Cursor ε α} {g : α → Cursor ε β} {p r : Nat} {b : β} :
    (f >>= g).run p = (.ok b, r) ↔ ∃ a q, f.run p = (.ok a, q) ∧ (g a).run q = (.ok b, r) := by
  change (match f.run p with | (.ok a, q) => (g a).run q | (.error e, q) => (.error e, q)) = _ ↔ _
  rcases f.run p with ⟨e | a, q⟩ <;> simp

/-! ## What a reader recognises -/

/-- The reader succeeds just where a word of the language stands, and moves over it. -/
def Recognises (f : List τ → Cursor ε α) (R : List τ → α → Prop) : Prop :=
  ∀ (input : List τ) (p : Nat) (a : α) (q : Nat), p ≤ input.length →
    ((f input).run p = (.ok a, q) ↔ ∃ w, R w a ∧ w <+: input.drop p ∧ q = p + w.length)

variable {f : List τ → Cursor ε α} {R R' : List τ → α → Prop} {g : α → List τ → Cursor ε β} {S : α → List τ → β → Prop}

theorem append_prefix_iff {u v l : List τ} : u ++ v <+: l ↔ u <+: l ∧ v <+: l.drop u.length := by
  constructor
  · rintro ⟨t, rfl⟩
    rw [List.append_assoc]
    exact ⟨List.prefix_append .., by rw [List.drop_left]; exact List.prefix_append ..⟩
  · rintro ⟨⟨t, rfl⟩, hv⟩
    rw [List.drop_left] at hv
    obtain ⟨t', rfl⟩ := hv
    exact ⟨t', by rw [List.append_assoc]⟩

theorem Recognises.congr (hf : Recognises f R) (h : ∀ w a, R w a ↔ R' w a) : Recognises f R' := by
  intro input p a q hp
  simp only [hf input p a q hp, h]

theorem recognises_pure (a : α) : Recognises (fun _ => (pure a : Cursor ε α)) fun (w : List τ) b => w = [] ∧ b = a := by
  intro input p b q _
  rw [run_pure]
  constructor
  · intro h
    cases h
    exact ⟨[], ⟨rfl, rfl⟩, List.nil_prefix, rfl⟩
  · rintro ⟨w, ⟨rfl, rfl⟩, -, rfl⟩
    rfl

theorem recognises_fail (e : ε) : Recognises (fun _ => (fail e : Cursor ε α)) fun (_ : List τ) _ => False := by
  intro input p b q _
  simp

/-- One reader after the other recognises the words of the first followed by those of the second. -/
theorem Recognises.bind (hf : Recognises f R) (hg : ∀ a, Recognises (g a) (S a)) :
    Recognises (fun input => f input >>= fun a => g a input) fun w b => ∃ a u v, w = u ++ v ∧ R u a ∧ S a v b := by
  intro input p b r hp
  rw [bind_eq_ok]
  constructor
  · rintro ⟨a, q, ha, hb⟩
    obtain ⟨u, hu, hpre, rfl⟩ := (hf input p a q hp).mp ha
    have hlen : p + u.length ≤ input.length := by
      have := hpre.length_le
      rw [List.length_drop] at this
      omega
    obtain ⟨v, hv, hpre', rfl⟩ := (hg a input _ b r hlen).mp hb
    rw [← List.drop_drop] at hpre'
    exact ⟨u ++ v, ⟨a, u, v, rfl, hu, hv⟩, append_prefix_iff.mpr ⟨hpre, hpre'⟩, by rw [List.length_append, Nat.add_assoc]⟩
  · rintro ⟨_, ⟨a, u, v, rfl, hu, hv⟩, hpre, rfl⟩
    obtain ⟨hpre, hpre'⟩ := append_prefix_iff.mp hpre
    have hlen : p + u.length ≤ input.length := by
      have := hpre.length_le
      rw [List.length_drop] at this
      omega
    rw [List.drop_drop] at hpre'
    refine ⟨a, p + u.length, (hf input p a _ hp).mpr ⟨u, hu, hpre, rfl⟩, (hg a input _ b _ hlen).mpr ⟨v, hv, hpre', ?_⟩⟩
    rw [List.length_append, Nat.add_assoc]

theorem Recognises.ite {c : Prop} [Decidable c] {f' : List τ → Cursor ε α} (hf : c → Recognises f R)
    (hf' : ¬ c → Recognises f' R) : Recognises (fun input => if c then f input else f' input) R := by
  by_cases h : c
  · simpa only [h, if_true] using hf h
  · simpa only [h, if_false] using hf' h

theorem recognises_reject (c : Prop) [Decidable c] (e : ε) :
    Recognises (fun _ => reject c e) fun (w : List τ) _ => w = [] ∧ ¬ c := by
  unfold reject
  refine .ite (fun h => ?_) fun h => ?_
  · exact (recognises_fail e).congr fun w _ => by simp [h]
  · exact (recognises_pure ()).congr fun w _ => by simp [h]

theorem Recognises.bind_checked {c : α → Prop} [DecidablePred c] (e : ε) (hf : Recognises f R)
    (hg : ∀ a, Recognises (g a) (S a)) :
    Recognises (fun input => f input >>= fun a => reject (c a) e >>= fun _ => g a input)
      fun w b => ∃ a u v, w = u ++ v ∧ (R u a ∧ ¬ c a) ∧ S a v b := by
  refine (hf.bind fun a => (recognises_reject (c a) e).bind fun _ => hg a).congr fun w b => ⟨?_, ?_⟩
  · rintro ⟨a, u, _, rfl, hu, _, _, v, rfl, ⟨rfl, hc⟩, hv⟩
    exact ⟨a, u, v, rfl, ⟨hu, hc⟩, hv⟩
  · rintro ⟨a, u, v, rfl, ⟨hu, hc⟩, hv⟩
    exact ⟨a, u, v, rfl, hu, (), [], v, rfl, ⟨rfl, hc⟩, hv⟩

/-- A check that the input is long enough for every word changes nothing. -/
theorem Recognises.after_length_check {n : Nat} (e : ε) (hf : Recognises f R) (hlen : ∀ w a, R w a → n ≤ w.length) :
    Recognises (fun input => reject (n > input.length) e >>= fun _ => f input) R := by
  intro input p a q hp
  rw [← hf input p a q hp, bind_eq_ok]
  constructor
  · rintro ⟨_, r, hreject, hread⟩
    unfold reject at hreject
    split at hreject
    · cases hreject
    · cases hreject
      exact hread
  · intro hread
    obtain ⟨w, hw, hpre, -⟩ := (hf input p a q hp).mp hread
    have hle := (hlen w a hw).trans hpre.length_le
    rw [List.length_drop] at hle
    exact ⟨(), p, by rw [reject, if_neg (by omega)]; rfl, hread⟩

theorem Recognises.read (hf : Recognises f R) {w : List τ} {a : α} (h : R w a) (rest : List τ) :
    (f (w ++ rest)).run 0 = (.ok a, w.length) :=
  (hf _ 0 a _ (Nat.zero_le _)).mpr ⟨w, h, List.prefix_append .., (Nat.zero_add _).symm⟩

theorem Recognises.read_all (hf : Recognises f R) {w : List τ} {a : α} : (f w).run 0 = (.ok a, w.length) ↔ R w a := by
  rw [hf w 0 a _ (Nat.zero_le _)]
  constructor
  · rintro ⟨u, hu, hpre, hlen⟩
    rw [hpre.eq_of_length (by simpa using hlen.symm)] at hu
    exact hu
  · exact fun h => ⟨w, h, List.prefix_rfl, (Nat.zero_add _).symm⟩

theorem Recognises.prefix_free (hf : Recognises f R) {w w' : List τ} {a a' : α} (h : R w a) (h' : R w' a')
    (hpre : w <+: w') : w = w' ∧ a = a' := by
  obtain ⟨rest, rfl⟩ := hpre
  have hread := hf.read h' []
  rw [List.append_nil, hf.read h rest] at hread
  obtain ⟨ha, hlen⟩ := Prod.mk.inj hread
  cases ha
  rw [List.length_append] at hlen
  have hnil : rest = [] := List.length_eq_zero_iff.mp (by omega)
  rw [hnil, List.append_nil]
  exact ⟨rfl, rfl⟩

theorem Recognises.append_inj (hf : Recognises f R) {w w' rest rest' : List τ} {a a' : α} (h : R w a) (h' : R w' a')
    (happend : w ++ rest = w' ++ rest') : w = w' ∧ a = a' ∧ rest = rest' := by
  have hpre : w <+: w' ++ rest' := ⟨rest, happend⟩
  obtain ⟨rfl, rfl⟩ : w = w' ∧ a = a' := by
    rcases List.prefix_or_prefix_of_prefix hpre (List.prefix_append w' rest') with hle | hle
    · exact hf.prefix_free h h' hle
    · obtain ⟨hw, ha⟩ := hf.prefix_free h' h hle
      exact ⟨hw.symm, ha.symm⟩
  exact ⟨rfl, rfl, List.append_cancel_left happend⟩

/-! ## Where the cursor goes -/

/-- A reader never moves the position back, and never moves it past the input. -/
def Advances (f : List τ → Cursor ε α) : Prop :=
  ∀ (input : List τ) (p : Nat), p ≤ ((f input).run p).2 ∧ ((f input).run p).2 ≤ max p input.length

section
variable {f : List τ → Cursor ε α}

theorem advances_pure (a : α) : Advances fun (_ : List τ) => (pure a : Cursor ε α) :=
  fun _ p => ⟨Nat.le_refl p, Nat.le_max_left ..⟩

theorem advances_fail (e : ε) : Advances fun (_ : List τ) => (fail e : Cursor ε α) :=
  fun _ p => ⟨Nat.le_refl p, Nat.le_max_left ..⟩

theorem Advances.bind {g : α → List τ → Cursor ε β} (hf : Advances f) (hg : ∀ a, Advances (g a)) :
    Advances fun input => f input >>= fun a => g a input := by
  intro input p
  have hfirst := hf input p
  cases hrun : (f input).run p with
  | mk result q =>
    rw [hrun] at hfirst
    cases result with
    | error e =>
      rw [run_bind_error hrun]
      exact hfirst
    | ok a =>
      have hsecond := hg a input q
      rw [run_bind_ok hrun]
      dsimp only at hfirst
      omega

theorem Advances.ite {c : Prop} [Decidable c] {f' : List τ → Cursor ε α} (hf : Advances f) (hf' : Advances f') :
    Advances fun input => if c then f input else f' input := by
  by_cases h : c
  · simpa only [h, if_true] using hf
  · simpa only [h, if_false] using hf'

end

/-! ## Repetition -/

/-- A reader as often as a count says. -/
def times (f : Cursor ε Unit) : Nat → Cursor ε Unit
  | 0 => pure ()
  | n + 1 => f >>= fun _ => times f n

/-- A reader as often as a count says, and what it returns each time. -/
def collect (f : Cursor ε α) : Nat → Cursor ε (List α)
  | 0 => pure []
  | n + 1 => f >>= fun a => collect f n >>= fun as => pure (a :: as)

/-- So many words of a language one after the other. -/
def Sequence (P : List τ → Prop) : Nat → List τ → Prop
  | 0, w => w = []
  | n + 1, w => ∃ u v, w = u ++ v ∧ P u ∧ Sequence P n v

theorem Sequence.mono {P Q : List τ → Prop} (h : ∀ w, P w → Q w) {n : Nat} {w : List τ} (hw : Sequence P n w) :
    Sequence Q n w := by
  induction n generalizing w with
  | zero => exact hw
  | succ n ih =>
    obtain ⟨u, v, rfl, hu, hv⟩ := hw
    exact ⟨u, v, rfl, h u hu, ih hv⟩

theorem recognises_times {f : List τ → Cursor ε Unit} {P : List τ → Prop} (hf : Recognises f fun w _ => P w) (n : Nat) :
    Recognises (fun input => times (f input) n) fun w _ => Sequence P n w := by
  induction n with
  | zero => exact (recognises_pure ()).congr fun w _ => by simp [Sequence]
  | succ n ih => exact (hf.bind fun _ => ih).congr fun w _ => by simp [Sequence]

theorem Advances.times {f : List τ → Cursor ε Unit} (hf : Advances f) (n : Nat) : Advances fun input => times (f input) n := by
  induction n with
  | zero => exact advances_pure ()
  | succ n ih => exact hf.bind fun _ => ih

/-- A reader that gets on with every word fails before a count that what is left of the input cannot hold runs out, so
it does not matter what the count is. -/
theorem times_congr {f : Cursor ε Unit} {limit : Nat} (hf : ∀ p q, f.run p = (.ok (), q) → p < q ∧ q ≤ limit) {p n n' : Nat}
    (hn : limit - p < n) (hn' : limit - p < n') : (times f n).run p = (times f n').run p := by
  induction n generalizing p n' with
  | zero => omega
  | succ n ih =>
    obtain ⟨n', rfl⟩ : ∃ k, n' = k + 1 := ⟨n' - 1, by omega⟩
    change (f >>= fun _ => times f n).run p = (f >>= fun _ => times f n').run p
    cases hrun : f.run p with
    | mk result q =>
      cases result with
      | error e => rw [run_bind_error hrun, run_bind_error hrun]
      | ok _ =>
        have hstep := hf p q hrun
        rw [run_bind_ok hrun, run_bind_ok hrun]
        exact ih (by omega) (by omega)

/-- The words for the values of a list, one after the other. -/
inductive Listed (R : List τ → α → Prop) : List τ → List α → Prop
  | nil : Listed R [] []
  | cons {u v : List τ} {a : α} {as : List α} : R u a → Listed R v as → Listed R (u ++ v) (a :: as)

theorem Listed.length_le {w : List τ} {as : List α} (hne : ∀ u a, R u a → u ≠ []) (h : Listed R w as) : as.length ≤ w.length := by
  induction h with
  | nil => exact Nat.le_refl 0
  | cons hu _ ih =>
    have hpos := List.length_pos_iff.mpr (hne _ _ hu)
    rw [List.length_cons, List.length_append]
    omega

theorem Listed.exists_of_mem {w : List τ} {as : List α} (h : Listed R w as) {a : α} (ha : a ∈ as) : ∃ u, R u a := by
  induction h with
  | nil => cases ha
  | cons hu _ ih =>
    cases ha with
    | head => exact ⟨_, hu⟩
    | tail _ ha => exact ih ha

theorem listed_flatMap {enc : α → List τ} {as : List α} (h : ∀ a ∈ as, R (enc a) a) : Listed R (as.flatMap enc) as := by
  induction as with
  | nil => exact .nil
  | cons a as ih => exact .cons (h a List.mem_cons_self) (ih fun b hb => h b (List.mem_cons_of_mem _ hb))

theorem recognises_collect (hf : Recognises f R) (n : Nat) :
    Recognises (fun input => collect (f input) n) fun w as => Listed R w as ∧ as.length = n := by
  induction n with
  | zero =>
    refine (recognises_pure []).congr fun w as => ⟨?_, ?_⟩
    · rintro ⟨rfl, rfl⟩
      exact ⟨.nil, rfl⟩
    · rintro ⟨h, hlen⟩
      cases h with
      | nil => exact ⟨rfl, rfl⟩
      | cons => cases hlen
  | succ n ih =>
    refine (hf.bind fun a => ih.bind fun as => recognises_pure (a :: as)).congr fun w bs => ⟨?_, ?_⟩
    · rintro ⟨a, u, _, rfl, hu, as, v, _, rfl, ⟨hv, rfl⟩, rfl, rfl⟩
      rw [List.append_nil]
      exact ⟨.cons hu hv, rfl⟩
    · rintro ⟨h, hlen⟩
      cases h with
      | nil => cases hlen
      | @cons u v a as hu hv =>
        exact ⟨a, u, v, rfl, hu, as, v, [], (List.append_nil v).symm, ⟨hv, Nat.succ.inj hlen⟩, rfl, rfl⟩

end Cursor
