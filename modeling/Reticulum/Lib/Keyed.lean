import Mathlib.Data.List.Perm.Subperm
import Mathlib.Data.List.Nodup
import Mathlib.Tactic.Common

/-!
# Records filled by keyed entries

Entries are put into a record one after the other, each under its key, the
later over the earlier. With as many entries as there are keys the record is
filled just if every key came once, in whatever order.
-/

namespace Keyed

variable {κ ε σ : Type} [DecidableEq κ] {key : ε → κ} {put : σ → ε → σ} {lookup : σ → κ → Option ε}

section
variable (hput : ∀ s e k, lookup (put s e) k = if key e = k then some e else lookup s k)
include hput

theorem mem_of_lookup {entries : List ε} {s : σ} {k : κ} {e : ε} (h : lookup (entries.foldl put s) k = some e) :
    e ∈ entries ∨ lookup s k = some e := by
  induction entries generalizing s with
  | nil => exact .inr h
  | cons x entries ih =>
    rcases ih h with hmem | hfound
    · exact .inl (List.mem_cons_of_mem x hmem)
    · rw [hput] at hfound
      split at hfound
      · cases hfound
        exact .inl List.mem_cons_self
      · exact .inr hfound

theorem lookup_of_not_mem {entries : List ε} {k : κ} (h : k ∉ entries.map key) (s : σ) :
    lookup (entries.foldl put s) k = lookup s k := by
  induction entries generalizing s with
  | nil => rfl
  | cons x entries ih =>
    rw [List.map_cons, List.mem_cons, not_or] at h
    rw [List.foldl_cons, ih h.2, hput, if_neg (Ne.symm h.1)]

theorem lookup_of_mem {entries : List ε} (hnodup : (entries.map key).Nodup) {e : ε} (h : e ∈ entries) (s : σ) :
    lookup (entries.foldl put s) (key e) = some e := by
  induction entries generalizing s with
  | nil => cases h
  | cons x entries ih =>
    obtain ⟨hx, hrest⟩ := List.nodup_cons.mp hnodup
    cases h with
    | head => rw [List.foldl_cons, lookup_of_not_mem hput hx, hput, if_pos rfl]
    | tail _ h => exact ih hrest h (put s x)

/-- All keys are found, with the entries of a table, just if the entries are those of the table in some order. -/
theorem filled_iff {entries : List ε} {s : σ} (hs : ∀ k, lookup s k = none) {keys : List κ} (hkeys : keys.Nodup)
    (hlen : entries.length = keys.length) {table : κ → ε} (htable : ∀ k, key (table k) = k) :
    (∀ k ∈ keys, lookup (entries.foldl put s) k = some (table k)) ↔ entries.Perm (keys.map table) := by
  have hback : (keys.map table).map key = keys := by
    rw [List.map_map]
    exact (List.map_congr_left fun k _ => htable k).trans (List.map_id keys)
  constructor
  · intro h
    have hsub : keys.map table ⊆ entries := by
      intro e he
      obtain ⟨k, hk, rfl⟩ := List.mem_map.mp he
      exact (mem_of_lookup hput (h k hk)).resolve_right fun hnone => by rw [hs] at hnone; cases hnone
    have hnodup : (keys.map table).Nodup := List.Nodup.of_map key (hback.symm ▸ hkeys)
    have hle : entries.length ≤ (keys.map table).length := by
      rw [List.length_map]
      exact Nat.le_of_eq hlen
    exact ((List.subperm_of_subset hnodup hsub).perm_of_length_le hle).symm
  · intro h k hk
    have hnodup : (entries.map key).Nodup := ((h.map key).trans (List.Perm.of_eq hback)).nodup_iff.mpr hkeys
    have hfound := lookup_of_mem hput hnodup (h.mem_iff.mpr (List.mem_map_of_mem hk)) s
    rwa [htable] at hfound

end

end Keyed
