import Mathlib.Data.List.MinMax
import Mathlib.Data.Prod.Lex
import Reticulum.Carrying
import Reticulum.Sample

/-!
# Which route a path table ends up with

A table is called with offers for one destination and with sweeps, in any order.
While the held route has not expired, an offer replaces it exactly when it is
better, so the table computes an `argmin` of what it was offered.
-/

namespace Reticulum

/-! ## The preference -/

/-- Shorter, or as long and newer. -/
def PathEntry.Improves (e current : PathEntry) : Prop :=
  e.hops < current.hops ∨ (e.hops = current.hops ∧ current.timestamp < e.timestamp)

/-- Fewer hops first, then the later timestamp. -/
def PathEntry.rank (e : PathEntry) : Nat ×ₗ Natᵒᵈ := toLex (e.hops.toNat, OrderDual.toDual e.timestamp)

def PathEntry.hopsTimestamp (e : PathEntry) : UInt8 × Nat := (e.hops, e.timestamp)

theorem PathEntry.rank_lt_rank {e current : PathEntry} : e.rank < current.rank ↔ e.Improves current := by
  unfold rank Improves
  rw [Prod.Lex.toLex_lt_toLex, UInt8.lt_iff_toNat_lt, ← UInt8.toNat_inj]
  exact Iff.rfl

theorem PathEntry.rank_le_rank {e current : PathEntry} : e.rank ≤ current.rank ↔ ¬ current.Improves e := by
  rw [← rank_lt_rank, not_lt]

theorem PathEntry.rank_inj {e e' : PathEntry} : e.rank = e'.rank ↔ e.hopsTimestamp = e'.hopsTimestamp := by
  unfold rank hopsTimestamp
  rw [toLex_inj, Prod.mk.injEq, Prod.mk.injEq, OrderDual.toDual_inj, UInt8.toNat_inj]

/-- The earliest among the entries with the fewest hops and, among these, the latest timestamp. -/
structure PathEntry.Preferred (entries : List PathEntry) (e : PathEntry) : Prop where
  mem : e ∈ entries
  fewest : ∀ e' ∈ entries, e.hops ≤ e'.hops
  newest : ∀ e' ∈ entries, e'.hops = e.hops → e'.timestamp ≤ e.timestamp
  earliest : ∀ e' ∈ entries, e'.hops = e.hops → e'.timestamp = e.timestamp → entries.idxOf e ≤ entries.idxOf e'

theorem PathEntry.Preferred.not_improves {entries : List PathEntry} {e e' : PathEntry} (h : Preferred entries e)
    (hmem : e' ∈ entries) : ¬ e'.Improves e := by
  rintro (hlt | ⟨heq, hlt⟩)
  · exact absurd (h.fewest e' hmem) (UInt8.not_le.mpr hlt)
  · exact absurd (h.newest e' hmem heq) (Nat.not_le.mpr hlt)

theorem PathEntry.preferred_iff {entries : List PathEntry} {e : PathEntry} :
    e.Preferred entries ↔ e ∈ entries.argmin rank := by
  rw [List.mem_argmin_iff]
  constructor
  · intro h
    refine ⟨h.mem, fun e' he' => rank_le_rank.mpr (h.not_improves he'), ?_⟩
    intro e' he' hle
    have hsame : e'.hopsTimestamp = e.hopsTimestamp :=
      rank_inj.mp (le_antisymm hle (rank_le_rank.mpr (h.not_improves he')))
    obtain ⟨hhops, htime⟩ := Prod.mk.inj hsame
    exact h.earliest e' he' hhops htime
  · rintro ⟨hmem, hbest, hfirst⟩
    have hnot : ∀ e' ∈ entries, ¬ e'.Improves e := fun e' he' => rank_le_rank.mp (hbest e' he')
    refine ⟨hmem, ?_, ?_, ?_⟩
    · intro e' he'
      exact UInt8.not_lt.mp fun hlt => hnot e' he' (.inl hlt)
    · intro e' he' hhops
      exact Nat.not_lt.mp fun hlt => hnot e' he' (.inr ⟨hhops, hlt⟩)
    · intro e' he' hhops htime
      apply hfirst e' he'
      exact le_of_eq (rank_inj.mpr (Prod.ext hhops htime))

namespace PathTable

variable {t : PathTable} {d : Arr 16}

/-! ## One call -/

/-- What a table is called with: an offer for the destination, or a sweep. -/
inductive Call where
  | update (entry : PathEntry) (now : Nat)
  | prune (now : Nat)

def Call.now : Call → Nat
  | .update _ now => now
  | .prune now => now

def Call.offer : Call → Option PathEntry
  | .update entry _ => some entry
  | .prune _ => none

def call (t : PathTable) (d : Arr 16) : Call → PathTable
  | .update entry now => (t.update d entry now).1
  | .prune now => t.prune now

/-- The route the table holds for the destination, if any, has not expired. -/
def Unexpired (t : PathTable) (d : Arr 16) (now : Nat) : Prop := ∀ current, t.get d = some current → now < current.expiresAt

/-- On an unexpired route an offer is accepted when it improves on it. -/
theorem update_accepts_of_unexpired {now : Nat} (hlive : t.Unexpired d now) (e : PathEntry) :
    (t.update d e now).2 = true ↔ ∀ current, t.get d = some current → e.Improves current := by
  rw [update_accepts_iff]
  constructor
  · intro h current hc
    exact h current hc (hlive current hc)
  · intro h current hc _
    exact h current hc

theorem insert_accepts_iff {e : PathEntry} :
    (t.insert d e).2 = true ↔ ∀ current, t.get d = some current → e.Improves current := by
  unfold insert PathEntry.Improves
  dsimp only
  cases t.get d with
  | none => simp
  | some current =>
    dsimp only
    by_cases hlt : e.hops < current.hops
    · simp [hlt]
    · simp [hlt]

instance decidableUnexpired (t : PathTable) (d : Arr 16) (now : Nat) : Decidable (t.Unexpired d now) :=
  decidable_of_iff (∀ current ∈ t.get d, now < current.expiresAt) Iff.rfl

theorem insert_eq_update {now : Nat} (hlive : t.Unexpired d now) (e : PathEntry) : t.insert d e = t.update d e now := by
  have hsame : (t.insert d e).2 = (t.update d e now).2 :=
    Bool.eq_iff_iff.mpr (insert_accepts_iff.trans (update_accepts_of_unexpired hlive e).symm)
  have hi : (t.insert d e).1 = if (t.insert d e).2 then ⟨t.entries.insert d e⟩ else t := rfl
  have hu : (t.update d e now).1 = if (t.update d e now).2 then ⟨t.entries.insert d e⟩ else t := rfl
  exact Prod.ext (by rw [hi, hu, hsame]) hsame

theorem get_update (t : PathTable) (d : Arr 16) (e : PathEntry) (now : Nat) :
    (t.update d e now).1.get d = if (t.update d e now).2 then some e else t.get d := by
  rcases t.update_cases d e now with hu | hu
  · rw [hu]
    rfl
  · rw [hu]
    simp [get_insert_entry]

theorem get_update_of_ne {d' : Arr 16} (hne : d' ≠ d) (e : PathEntry) (now : Nat) :
    (t.update d e now).1.get d' = t.get d' := by
  rcases t.update_cases d e now with hu | hu
  · rw [hu]
  · rw [hu, get_insert_entry, if_neg (Ne.symm hne)]

theorem get_prune_of_unexpired {now : Nat} (hlive : t.Unexpired d now) : (t.prune now).get d = t.get d := by
  rw [get_prune]
  cases hc : t.get d with
  | none => rfl
  | some current =>
    rw [Option.filter_some, if_pos]
    simpa using hlive current hc

theorem call_argmin {entries : List PathEntry} {c : Call} (hheld : t.get d = entries.argmin PathEntry.rank)
    (hlive : t.Unexpired d c.now) :
    (t.call d c).get d = (entries ++ c.offer.toList).argmin PathEntry.rank := by
  cases c with
  | prune now =>
    have hkept : (t.prune now).get d = t.get d := get_prune_of_unexpired hlive
    simpa [call, Call.offer, hheld] using hkept
  | update e now =>
    have hlive : t.Unexpired d now := hlive
    have hrule := update_accepts_of_unexpired hlive e
    change (t.update d e now).1.get d = (entries ++ [e]).argmin PathEntry.rank
    rw [get_update, List.argmin_concat, ← hheld]
    cases hc : t.get d with
    | none =>
      rw [if_pos (hrule.mpr _)]
      intro current hcurrent
      rw [hc] at hcurrent
      cases hcurrent
    | some current =>
      have hone : (t.update d e now).2 = true ↔ e.rank < current.rank := by
        rw [hrule, PathEntry.rank_lt_rank]
        constructor
        · intro h
          exact h current hc
        · intro h c' hc'
          rw [hc] at hc'
          cases hc'
          exact h
      by_cases hlt : e.rank < current.rank
      · simp only [hone.mpr hlt, hlt, if_true]
      · simp only [hlt, if_false, Bool.eq_false_iff.mpr (hone.not.mpr hlt)]
        rfl

/-- A call leaves the routes of other destinations, but for the expired ones a sweep removes. -/
theorem call_get_of_ne {d' : Arr 16} (hne : d' ≠ d) (c : Call) (e : PathEntry) :
    (t.call d c).get d' = some e ↔ t.get d' = some e ∧ ∀ now, c = .prune now → now < e.expiresAt := by
  cases c with
  | update e' now =>
    rw [call, get_update_of_ne hne]
    simp
  | prune now =>
    rw [call, get_prune, Option.filter_eq_some_iff]
    simp

/-! ## A sequence of calls -/

def after (t : PathTable) (d : Arr 16) (calls : List Call) : PathTable := calls.foldl (fun t c => t.call d c) t

/-- The route held is unexpired at the time of every call. -/
def StaysLive (t : PathTable) (d : Arr 16) (calls : List Call) : Prop :=
  ∀ before c rest, calls = before ++ c :: rest → (t.after d before).Unexpired d c.now

/-- The route held at first, then the offers as they arrive. -/
def candidates (t : PathTable) (d : Arr 16) (calls : List Call) : List PathEntry :=
  (t.get d).toList ++ calls.filterMap Call.offer

@[simp] theorem after_nil (t : PathTable) (d : Arr 16) : t.after d [] = t := rfl

@[simp] theorem after_concat (t : PathTable) (d : Arr 16) (calls : List Call) (c : Call) :
    t.after d (calls ++ [c]) = (t.after d calls).call d c := by simp [after]

theorem candidates_concat (t : PathTable) (d : Arr 16) (calls : List Call) (c : Call) :
    t.candidates d (calls ++ [c]) = t.candidates d calls ++ c.offer.toList := by
  cases h : c.offer <;> simp [candidates, h]

theorem StaysLive.earlier {before rest : List Call} (h : t.StaysLive d (before ++ rest)) : t.StaysLive d before := by
  intro b c r heq
  exact h b c (r ++ rest) (by simp [heq])

theorem staysLive_nil : t.StaysLive d [] := by
  intro before c rest h
  simp at h

theorem staysLive_cons {c : Call} {calls : List Call} :
    t.StaysLive d (c :: calls) ↔ t.Unexpired d c.now ∧ (t.call d c).StaysLive d calls := by
  constructor
  · intro h
    refine ⟨h [] c calls rfl, ?_⟩
    intro before c' rest heq
    exact h (c :: before) c' rest (by rw [heq]; rfl)
  · rintro ⟨hnow, hrest⟩ before c' rest heq
    cases before with
    | nil =>
      cases heq
      exact hnow
    | cons b before =>
      cases heq
      exact hrest before c' rest rfl

/-- The table holds the best of what it was offered. -/
theorem after_argmin {calls : List Call} (hlive : t.StaysLive d calls) :
    (t.after d calls).get d = (t.candidates d calls).argmin PathEntry.rank := by
  induction calls using List.reverseRecOn with
  | nil =>
    cases hc : t.get d with
    | none => simp [candidates, hc]
    | some current => simp [candidates, hc]
  | append_singleton calls c ih =>
    rw [after_concat, candidates_concat]
    exact call_argmin (ih hlive.earlier) (hlive calls c [] rfl)

theorem candidates_perm {calls calls' : List Call} (h : calls.Perm calls') :
    (t.candidates d calls).Perm (t.candidates d calls') :=
  (h.filterMap Call.offer).append_left _

theorem argmin_perm {l l' : List PathEntry} (h : l.Perm l') :
    (l.argmin PathEntry.rank).map PathEntry.hopsTimestamp = (l'.argmin PathEntry.rank).map PathEntry.hopsTimestamp := by
  cases he : l.argmin PathEntry.rank with
  | none =>
    rw [List.argmin_eq_none] at he
    rw [he] at h
    rw [List.nil_perm.mp h]
    rfl
  | some e =>
    cases he' : l'.argmin PathEntry.rank with
    | none =>
      rw [List.argmin_eq_none] at he'
      rw [he'] at h
      rw [List.perm_nil.mp h] at he
      cases he
    | some e' =>
      have hmem : e ∈ l' := h.mem_iff.mp (List.argmin_mem he)
      have hmem' : e' ∈ l := h.mem_iff.mpr (List.argmin_mem he')
      have hsame : e.rank = e'.rank :=
        le_antisymm (List.le_of_mem_argmin hmem' he) (List.le_of_mem_argmin hmem he')
      rw [Option.map_some, Option.map_some, PathEntry.rank_inj.mp hsame]

theorem call_keeps_or_improves {c : Call} {current : PathEntry} (hc : t.get d = some current)
    (hlive : t.Unexpired d c.now) :
    ∃ next, (t.call d c).get d = some next ∧ (next = current ∨ next.Improves current) := by
  cases c with
  | prune now =>
    have hkept : (t.prune now).get d = t.get d := get_prune_of_unexpired hlive
    exact ⟨current, hkept.trans hc, .inl rfl⟩
  | update e now =>
    change ∃ next, (t.update d e now).1.get d = some next ∧ _
    have hlive : t.Unexpired d now := hlive
    rw [get_update]
    cases ha : (t.update d e now).2 with
    | false => exact ⟨current, hc, .inl rfl⟩
    | true => exact ⟨e, rfl, .inr ((update_accepts_of_unexpired hlive e).mp ha current hc)⟩

/-- An accepted offer is the first route or improves on the one held; one that is not leaves it. -/
theorem update_installs_iff {now : Nat} (hlive : t.Unexpired d now) (e : PathEntry) :
    (t.update d e now).2 = true ↔ (t.update d e now).1.get d = some e ∧
      (t.get d = none ∨ ∃ current, t.get d = some current ∧ e.Improves current) := by
  rw [get_update]
  constructor
  · intro ha
    rw [if_pos ha]
    refine ⟨rfl, ?_⟩
    cases hc : t.get d with
    | none => exact .inl rfl
    | some current => exact .inr ⟨current, rfl, (update_accepts_of_unexpired hlive e).mp ha current hc⟩
  · rintro ⟨-, hnone | ⟨current, hc, himp⟩⟩
    · rw [update_of_get_none hnone]
    · apply (update_accepts_of_unexpired hlive e).mpr
      intro c hc'
      rw [hc] at hc'
      cases hc'
      exact himp

theorem after_get_of_ne {d' : Arr 16} (hne : d' ≠ d) (calls : List Call) (e : PathEntry) :
    (t.after d calls).get d' = some e ↔ t.get d' = some e ∧ ∀ now, .prune now ∈ calls → now < e.expiresAt := by
  induction calls using List.reverseRecOn with
  | nil => simp
  | append_singleton calls c ih =>
    rw [after_concat, call_get_of_ne hne, ih]
    constructor
    · rintro ⟨⟨hget, hearlier⟩, hlast⟩
      refine ⟨hget, ?_⟩
      intro now hmem
      rcases List.mem_append.mp hmem with hmem | hmem
      · exact hearlier now hmem
      · exact hlast now (List.mem_singleton.mp hmem).symm
    · rintro ⟨hget, hall⟩
      refine ⟨⟨hget, fun now hmem => hall now (List.mem_append_left _ hmem)⟩, ?_⟩
      intro now hc
      exact hall now (by simp [hc])

end PathTable

/-! ## Route selection -/

/-- While the held route stays unexpired, whatever the order of the calls, the table holds the preferred
candidate; each call keeps or improves the route, and both replacement rules accept what improves it. Other
destinations lose expired routes to the sweeps, and nothing else. -/
theorem PathTable.route_selection (t : PathTable) (d : Arr 16) (calls : List Call) (hlive : t.StaysLive d calls) :
    (∀ e, (t.after d calls).get d = some e ↔ e.Preferred (t.candidates d calls)) ∧
    ((t.after d calls).get d = none ↔ t.candidates d calls = []) ∧
    (∀ calls' : List Call, calls.Perm calls' → t.StaysLive d calls' →
      ((t.after d calls').get d).map PathEntry.hopsTimestamp = ((t.after d calls).get d).map PathEntry.hopsTimestamp) ∧
    (∀ before c rest current, calls = before ++ c :: rest → (t.after d before).get d = some current →
      ∃ next, (t.after d (before ++ [c])).get d = some next ∧ (next = current ∨ next.Improves current)) ∧
    (∀ before e now rest, calls = before ++ .update e now :: rest →
      (((t.after d before).update d e now).2 = true ↔ (t.after d (before ++ [.update e now])).get d = some e ∧
        ((t.after d before).get d = none ∨ ∃ current, (t.after d before).get d = some current ∧ e.Improves current)) ∧
      (t.after d before).insert d e = (t.after d before).update d e now) ∧
    (∀ d' e, d' ≠ d → ((t.after d calls).get d' = some e ↔
      t.get d' = some e ∧ ∀ now, .prune now ∈ calls → now < e.expiresAt)) := by
  have hargmin := after_argmin hlive
  refine ⟨?_, ?_, ?_, ?_, ?_, ?_⟩
  · intro e
    rw [hargmin, PathEntry.preferred_iff]
    exact Iff.rfl
  · rw [hargmin, List.argmin_eq_none]
  · intro calls' hperm hlive'
    rw [hargmin, after_argmin hlive']
    exact argmin_perm (candidates_perm hperm.symm)
  · intro before c rest current heq hc
    rw [after_concat]
    exact call_keeps_or_improves hc (hlive before c rest heq)
  · intro before e now rest heq
    have hnow : (t.after d before).Unexpired d now := hlive before _ rest heq
    rw [after_concat]
    exact ⟨update_installs_iff hnow e, insert_eq_update hnow e⟩
  · intro d' e hne
    exact after_get_of_ne hne calls e

namespace Sample

def route (hops : UInt8) (timestamp expiresAt : Nat) : PathEntry where
  interface := 0
  nextHopTransportId := none
  hops := hops
  expiresAt := expiresAt
  timestamp := timestamp
  pub := ⟨arr 32 1, arr 32 2⟩
  ratchet := none

/-- A longer route, a sweep, a shorter one, a newer one of the same length and an older one. -/
def offers : List PathTable.Call :=
  [.update (route 4 20 100) 0, .prune 50, .update (route 3 10 100) 60, .update (route 3 11 200) 70,
    .update (route 3 9 300) 150]

theorem offers_live : PathTable.new.StaysLive (arr 16 1) offers := by
  simp only [offers, PathTable.staysLive_cons]
  refine ⟨?_, ?_, ?_, ?_, ?_, PathTable.staysLive_nil⟩ <;> decide +kernel

/-- A table with a route to another destination. -/
def elsewhere : PathTable := ⟨(∅ : BTreeMap (Arr 16) PathEntry).insert (arr 16 2) (route 1 0 5)⟩

end Sample

theorem PathTable.route_selection_offers :
    (new.after (Sample.arr 16 1) Sample.offers).get (Sample.arr 16 1) = some (Sample.route 3 11 200) ∧
    PathEntry.Preferred (new.candidates (Sample.arr 16 1) Sample.offers) (Sample.route 3 11 200) := by
  have hheld : (new.after (Sample.arr 16 1) Sample.offers).get (Sample.arr 16 1) = some (Sample.route 3 11 200) := by
    decide +kernel
  exact ⟨hheld, ((route_selection new (Sample.arr 16 1) Sample.offers Sample.offers_live).1 _).mp hheld⟩

/-- A sweep between the calls removes the expired route of another destination. And an offer that had expired
when it arrived is kept if it comes last, but replaced if it comes first. -/
theorem PathTable.route_selection_unguarded :
    (Sample.elsewhere.StaysLive (Sample.arr 16 1) [.prune 10] ∧
      Sample.elsewhere.get (Sample.arr 16 2) = some (Sample.route 1 0 5) ∧
      (Sample.elsewhere.after (Sample.arr 16 1) [.prune 10]).get (Sample.arr 16 2) = none) ∧
    (new.StaysLive (Sample.arr 16 1) [.update (Sample.route 2 0 100) 10, .update (Sample.route 1 0 5) 10] ∧
      (new.after (Sample.arr 16 1) [.update (Sample.route 2 0 100) 10, .update (Sample.route 1 0 5) 10]).get
        (Sample.arr 16 1) = some (Sample.route 1 0 5) ∧
      (new.after (Sample.arr 16 1) [.update (Sample.route 1 0 5) 10, .update (Sample.route 2 0 100) 10]).get
        (Sample.arr 16 1) = some (Sample.route 2 0 100)) := by
  simp only [staysLive_cons, and_assoc]
  refine ⟨?_, staysLive_nil, ?_, ?_, ?_, ?_, staysLive_nil, ?_, ?_⟩ <;> decide +kernel

end Reticulum
