import Reticulum.Sample
import Reticulum.Transfer

/-!
# Map updates

What an update of the map leaves behind. The entries are written one by one,
so an update that runs past the last slot is refused with its first entries
already in place.
-/

namespace Reticulum

namespace InboundResource

section
variable [Rmp]

/-- The segment and the entries of an update for this resource. -/
def updateOf (r : InboundResource) (data : Bytes) : Option (Nat × List Bytes) :=
  match unpackHashmapUpdate data with
  | .error _ => none
  | .ok (hash, segment, update) =>
    if hash = r.hash then some (segment, Bytes.chunksExact MAPHASH_LEN update) else none

/-- The map with the entries of a segment written as far as it reaches. -/
def writtenMap (r : InboundResource) (segment : Nat) (entries : List Bytes) : List (Option (Arr 4)) :=
  (writeEntries r.map (segment * HASHMAP_MAX_LEN) entries).1

theorem length_of_updateOf {r : InboundResource} {data : Bytes} {segment : Nat} {entries : List Bytes}
    (h : r.updateOf data = some (segment, entries)) : ∀ e ∈ entries, e.length = 4 := by
  unfold updateOf at h
  split at h
  · cases h
  · split at h
    · cases h
      exact length_of_mem_entries
    · cases h

/-- How an update ends. -/
inductive UpdateCase (r : InboundResource) (data : Bytes) : InboundResource × Except CoreError Unit → Prop
  | foreign (e : CoreError) : r.updateOf data = none → UpdateCase r data (r, .error e)
  | past {segment : Nat} {entries : List Bytes} : r.updateOf data = some (segment, entries) →
    r.map.length < segment * HASHMAP_MAX_LEN + entries.length →
    UpdateCase r data ({ r with map := r.writtenMap segment entries }, .error .invalidField)
  | written {segment : Nat} {entries : List Bytes} : r.updateOf data = some (segment, entries) →
    (entries = [] ∨ segment * HASHMAP_MAX_LEN + entries.length ≤ r.map.length) →
    UpdateCase r data ({ r with map := r.writtenMap segment entries, waitingForHmu := false }, .ok ())

theorem onHashmapUpdate_cases (r : InboundResource) (data : Bytes) : UpdateCase r data (r.onHashmapUpdate data) := by
  unfold onHashmapUpdate
  cases hun : unpackHashmapUpdate data with
  | error e => exact .foreign e (by simp [updateOf, hun])
  | ok u =>
    obtain ⟨hash, segment, update⟩ := u
    dsimp only
    by_cases hh : hash = r.hash
    · have hof : r.updateOf data = some (segment, Bytes.chunksExact MAPHASH_LEN update) := by simp [updateOf, hun, hh]
      have hlen : ∀ e ∈ Bytes.chunksExact MAPHASH_LEN update, e.length = 4 := length_of_mem_entries
      have hsnd := writeEntries_snd hlen r.map (segment * HASHMAP_MAX_LEN)
      rw [if_neg (not_not.mpr hh)]
      split
      · rename_i map hw
        have hpast := UpdateCase.past (r := r) hof (by
          by_contra hn
          rw [hw] at hsnd
          exact Bool.false_ne_true (hsnd.mpr (.inr (Nat.le_of_not_lt hn))))
        rwa [writtenMap, hw] at hpast
      · rename_i map hw
        have hfits := UpdateCase.written (r := r) hof (hsnd.mp (by rw [hw]))
        rwa [writtenMap, hw] at hfits
    · rw [if_pos hh]
      exact .foreign _ (by simp [updateOf, hun, hh])

/-- What an accepted update is to do: its entries in their slots, and nothing else but the flag changed. -/
structure Applied (r : InboundResource) (segment : Nat) (entries : List Bytes) (r' : InboundResource) : Prop where
  inside : ∀ k < entries.length, segment * HASHMAP_MAX_LEN + k < r.parts.length
  held : ∀ k e, entries[k]? = some e →
    ∃ h : Arr 4, h.1 = e ∧ r'.map[segment * HASHMAP_MAX_LEN + k]? = some (some h)
  others : ∀ i, i < segment * HASHMAP_MAX_LEN ∨ segment * HASHMAP_MAX_LEN + entries.length ≤ i → r'.map[i]? = r.map[i]?
  fields : r' = { r with map := r'.map, waitingForHmu := false }

/-- A refused update leaves the resource as it was, an accepted one is applied. -/
structure AtomicUpdate (r : InboundResource) (data : Bytes) : Prop where
  refused : ∀ e, (r.onHashmapUpdate data).2 = .error e → (r.onHashmapUpdate data).1 = r
  accepted : (r.onHashmapUpdate data).2 = .ok () →
    ∃ segment entries, r.updateOf data = some (segment, entries) ∧ Applied r segment entries (r.onHashmapUpdate data).1

/-- The update starts inside the map, runs past its end and has an entry the map has not. -/
def Overruns (r : InboundResource) (data : Bytes) : Prop :=
  ∃ segment entries, r.updateOf data = some (segment, entries) ∧
    r.parts.length < segment * HASHMAP_MAX_LEN + entries.length ∧
    ∃ k e, segment * HASHMAP_MAX_LEN + k < r.parts.length ∧ entries[k]? = some e ∧
      r.map[segment * HASHMAP_MAX_LEN + k]? ≠ some (Arr.ofSlice? 4 e)

omit [Rmp] in
/-- The slot of an entry that is inside the map. -/
theorem writtenMap_slot {r : InboundResource} {segment : Nat} {entries : List Bytes} (hlen : ∀ e ∈ entries, e.length = 4)
    {k : Nat} {e : Bytes} (hk : segment * HASHMAP_MAX_LEN + k < r.map.length) (he : entries[k]? = some e) :
    (r.writtenMap segment entries)[segment * HASHMAP_MAX_LEN + k]? = some (Arr.ofSlice? 4 e) := by
  rw [writtenMap, writeEntries_getElem? hlen, if_pos ⟨Nat.le_add_right .., hk⟩, Nat.add_sub_cancel_left, he]
  rfl

omit [Rmp] in
theorem writtenMap_other {r : InboundResource} {segment : Nat} {entries : List Bytes} (hlen : ∀ e ∈ entries, e.length = 4)
    {i : Nat} (hi : i < segment * HASHMAP_MAX_LEN ∨ segment * HASHMAP_MAX_LEN + entries.length ≤ i) :
    (r.writtenMap segment entries)[i]? = r.map[i]? := by
  rw [writtenMap, writeEntries_getElem? hlen]
  split
  · rw [List.getElem?_eq_none (by omega)]
    rfl
  · rfl

omit [Rmp] in
theorem applied_writtenMap {r : InboundResource} {segment : Nat} {entries : List Bytes} (hs : r.Sound)
    (hlen : ∀ e ∈ entries, e.length = 4)
    (hfits : entries = [] ∨ segment * HASHMAP_MAX_LEN + entries.length ≤ r.map.length) :
    Applied r segment entries { r with map := r.writtenMap segment entries, waitingForHmu := false } := by
  have hinside : ∀ k < entries.length, segment * HASHMAP_MAX_LEN + k < r.map.length := by
    intro k hk
    rcases hfits with rfl | hfits
    · cases hk
    · omega
  refine ⟨hs.slots ▸ hinside, ?_, fun i hi => writtenMap_other hlen hi, rfl⟩
  intro k e he
  have hk := (List.getElem?_eq_some_iff.mp he).1
  refine ⟨⟨e, hlen e (List.mem_of_getElem? he)⟩, rfl, ?_⟩
  rw [writtenMap_slot hlen (hinside k hk) he, Arr.ofSlice?_of_length (hlen e (List.mem_of_getElem? he))]

variable [Crypto]

theorem map_update_atomic_iff {r : InboundResource} (hr : r.Reachable) (data : Bytes) :
    r.AtomicUpdate data ↔ ¬ r.Overruns data := by
  have hs := hr.sound
  have hcase := r.onHashmapUpdate_cases data
  constructor
  · rintro ⟨hrefused, -⟩ ⟨segment, entries, hof, hpast, k, e, hk, he, hne⟩
    have hlen := length_of_updateOf hof
    rw [← hs.slots] at hpast hk
    generalize hout : r.onHashmapUpdate data = out at hcase hrefused
    cases hcase with
    | foreign _ hnone => exact absurd (hof.symm.trans hnone) (by simp)
    | past hof' _ =>
      cases hof.symm.trans hof'
      have hsame := congrArg InboundResource.map (hrefused _ rfl)
      apply hne
      rw [← hsame]
      exact writtenMap_slot hlen hk he
    | written hof' hfits =>
      cases hof.symm.trans hof'
      rcases hfits with rfl | hfits
      · cases he
      · omega
  · intro hno
    generalize hout : r.onHashmapUpdate data = out at hcase
    cases hcase with
    | foreign e _ => exact ⟨fun _ _ => by rw [hout], fun h => by rw [hout] at h; cases h⟩
    | @past segment entries hof hpast =>
      refine ⟨fun _ _ => ?_, fun h => by rw [hout] at h; cases h⟩
      have hlen := length_of_updateOf hof
      have hsame : r.writtenMap segment entries = r.map := by
        apply List.ext_getElem?
        intro i
        by_cases hi : segment * HASHMAP_MAX_LEN ≤ i ∧ i < r.map.length
        · obtain ⟨k, rfl⟩ := Nat.exists_eq_add_of_le hi.1
          have hk : k < entries.length := by omega
          rw [writtenMap_slot hlen hi.2 (List.getElem?_eq_getElem hk)]
          by_contra hne
          rw [hs.slots] at hpast hi
          exact hno ⟨segment, entries, hof, hpast, k, _, hi.2, List.getElem?_eq_getElem hk, Ne.symm hne⟩
        · by_cases hlt : i < segment * HASHMAP_MAX_LEN
          · exact writtenMap_other hlen (.inl hlt)
          · have hlast : r.map.length ≤ i := by omega
            have hsame : (r.writtenMap segment entries).length ≤ i := by rwa [writtenMap, length_writeEntries]
            rw [List.getElem?_eq_none hlast, List.getElem?_eq_none hsame]
      rw [hout, hsame]
    | written hof hfits =>
      constructor
      · intro e he
        rw [hout] at he
        cases he
      · intro _
        rw [hout]
        exact ⟨_, _, hof, applied_writtenMap hs (length_of_updateOf hof) hfits⟩

end

/-! ## Updates of two entries and of one for a resource of one part -/

section
open Sample

def onePart : ResourceAdvertisement where
  t := 100
  d := 10
  n := 1
  h := (arr 32 9).1
  r := (arr 4 1).1
  o := (arr 32 9).1
  i := 1
  l := 1
  q := none
  f := 1
  m := (arr 4 5).1

/-- The resource as it is advertised. -/
def advertised : InboundResource where
  hash := arr 32 9
  size := 100
  totalSize := 10
  randomHash := arr 4 1
  compressed := false
  map := [some (arr 4 5)]
  parts := [none]
  outstanding := []
  window := 4
  retries := 0
  lastRequest := 0
  waitingForHmu := false

theorem advertised_reachable : advertised.Reachable := .advertised (a := onePart) (by decide +kernel)

/-- Two entries from slot 0 on. -/
def twoEntries : Bytes := packHashmapUpdate (arr 32 9) 0 ((arr 4 6).1 ++ (arr 4 7).1)

theorem twoEntries_overruns : advertised.Overruns twoEntries :=
  ⟨0, [(arr 4 6).1, (arr 4 7).1], by decide +kernel, by decide, 0, (arr 4 6).1, by decide, rfl, by decide +kernel⟩

/-- Another entry for slot 0. -/
def oneEntry : Bytes := packHashmapUpdate (arr 32 9) 0 (arr 4 6).1

theorem oneEntry_fits : ¬ advertised.Overruns oneEntry := by
  rintro ⟨segment, entries, hof, hpast, -⟩
  have hread : advertised.updateOf oneEntry = some (0, [(arr 4 6).1]) := by decide +kernel
  cases hread.symm.trans hof
  exact absurd hpast (by decide)

theorem map_update_atomic_iff_advertised : ¬ advertised.AtomicUpdate twoEntries ∧ advertised.AtomicUpdate oneEntry :=
  ⟨fun h => (map_update_atomic_iff advertised_reachable twoEntries).mp h twoEntries_overruns,
    (map_update_atomic_iff advertised_reachable oneEntry).mpr oneEntry_fits⟩

/-- The refused update has replaced the entry of slot 0. -/
theorem map_update_not_atomic : ¬ ∀ (r : InboundResource) (data : Bytes), r.Reachable → r.AtomicUpdate data := by
  intro h
  have hrefused := (h advertised twoEntries advertised_reachable).refused .invalidField (by decide +kernel)
  exact absurd hrefused (by decide +kernel)

end

end InboundResource

end Reticulum
