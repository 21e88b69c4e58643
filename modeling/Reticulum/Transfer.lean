import Reticulum.ResourceState

/-!
# The receiver's half of a transfer

What holds of an inbound resource from its advertisement on, whatever parts,
map updates and retries follow. The first map entry decides whether a request
can be made at all: every filled slot has its entry.
-/

namespace Reticulum

namespace InboundResource

/-! ## Writing map entries -/

theorem length_writeEntries (entries : List Bytes) (map : List (Option (Arr 4))) (start : Nat) :
    (writeEntries map start entries).1.length = map.length := by
  induction entries generalizing map start with
  | nil => rfl
  | cons entry rest ih =>
    unfold writeEntries
    split
    · split
      · rw [ih, List.length_set]
      · rfl
    · rfl

/-- The slots from `start` on hold the entries, as far as the map reaches. -/
theorem writeEntries_getElem? {entries : List Bytes} (hlen : ∀ e ∈ entries, e.length = 4)
    (map : List (Option (Arr 4))) (start i : Nat) :
    (writeEntries map start entries).1[i]? =
      if start ≤ i ∧ i < map.length then (entries[i - start]?).elim map[i]? fun e => some (Arr.ofSlice? 4 e)
      else map[i]? := by
  induction entries generalizing map start with
  | nil => simp [writeEntries]
  | cons entry rest ih =>
    have ih := ih (fun e he => hlen e (List.mem_cons_of_mem _ he))
    have hentry := Arr.ofSlice?_of_length (hlen entry List.mem_cons_self)
    unfold writeEntries
    by_cases hs : start < map.length
    · rw [if_pos hs, hentry]
      dsimp only
      rw [ih, List.length_set]
      by_cases hi : i = start
      · subst hi
        rw [if_neg (by omega), if_pos ⟨Nat.le_refl i, hs⟩, List.getElem?_set_self hs]
        simp [hentry]
      · rw [List.getElem?_set_ne (Ne.symm hi)]
        by_cases hlt : start ≤ i ∧ i < map.length
        · rw [if_pos hlt, if_pos (by omega), show i - start = (i - (start + 1)) + 1 by omega, List.getElem?_cons_succ]
        · rw [if_neg hlt, if_neg (by omega)]
    · rw [if_neg hs, if_neg (by omega)]

theorem writeEntries_snd {entries : List Bytes} (hlen : ∀ e ∈ entries, e.length = 4) (map : List (Option (Arr 4)))
    (start : Nat) : (writeEntries map start entries).2 = true ↔ entries = [] ∨ start + entries.length ≤ map.length := by
  induction entries generalizing map start with
  | nil => simp [writeEntries]
  | cons entry rest ih =>
    have ih := ih (fun e he => hlen e (List.mem_cons_of_mem _ he))
    have hentry := Arr.ofSlice?_of_length (hlen entry List.mem_cons_self)
    unfold writeEntries
    by_cases hs : start < map.length
    · rw [if_pos hs, hentry]
      dsimp only
      rw [ih, List.length_set, List.length_cons]
      constructor
      · rintro (rfl | h)
        · exact .inr hs
        · exact .inr (by omega)
      · rintro (h | h)
        · cases h
        · exact .inr (by omega)
    · rw [if_neg hs, List.length_cons]
      constructor
      · intro h
        cases h
      · rintro (h | h)
        · cases h
        · omega

theorem length_of_mem_entries {update : Bytes} : ∀ e ∈ Bytes.chunksExact MAPHASH_LEN update, e.length = 4 :=
  fun _ => Bytes.length_of_mem_chunksExact

/-! ## Known slots -/

/-- The map entry of the slot has arrived. -/
def Known (r : InboundResource) (i : Nat) : Prop := ∃ h, r.map[i]? = some (some h)

theorem known_iff_join {r : InboundResource} {i : Nat} : r.Known i ↔ (r.map[i]?).join ≠ none := by
  unfold Known
  cases r.map[i]? with
  | none => simp
  | some e => cases e <;> simp

/-- Writing entries forgets none. -/
theorem writeEntries_known {entries : List Bytes} (hlen : ∀ e ∈ entries, e.length = 4) {map : List (Option (Arr 4))}
    (start : Nat) {i : Nat} (h : ∃ e, map[i]? = some (some e)) :
    ∃ e, (writeEntries map start entries).1[i]? = some (some e) := by
  rw [writeEntries_getElem? hlen]
  split
  · cases he : entries[i - start]? with
    | none => exact h
    | some e => exact ⟨_, congrArg some (Arr.ofSlice?_of_length (hlen e (List.mem_of_getElem? he)))⟩
  · exact h

/-! ## What holds of every transfer -/

structure Sound (r : InboundResource) : Prop where
  slots : r.map.length = r.parts.length
  nonempty : r.parts ≠ []
  window : 0 < r.window
  retries : r.retries ≤ MAX_RETRIES
  filled : ∀ i p, r.parts[i]? = some (some p) → r.Known i
  armed : r.lastRequest ≠ 0 → r.Known 0

/-- The states of an inbound resource: the advertised one, and what any handler makes of one. -/
inductive Reachable [Crypto] [Rmp] : InboundResource → Prop
  | advertised {a : ResourceAdvertisement} {r : InboundResource} : fromAdvertisement a = .ok r → Reachable r
  | asked {r : InboundResource} (now : Nat) : Reachable r → Reachable (r.nextRequest now).1
  | part {r : InboundResource} (p : Bytes) : Reachable r → Reachable (r.onPart p).1
  | updated {r : InboundResource} (data : Bytes) : Reachable r → Reachable (r.onHashmapUpdate data).1
  | retried {r : InboundResource} (now : Nat) : Reachable r → Reachable (r.retryDue now).1

theorem fromAdvertisement_ok {a : ResourceAdvertisement} {r : InboundResource} (h : fromAdvertisement a = .ok r) :
    ∃ (hash : Arr 32) (randomHash : Arr 4), a.h = hash.1 ∧ a.r = randomHash.1 ∧ 0 < a.n ∧
      a.n ≤ MAX_EFFICIENT_SIZE / MAPHASH_LEN ∧ a.encrypted = true ∧
      r = { hash := hash
            size := a.t
            totalSize := a.d
            randomHash := randomHash
            compressed := a.compressed
            map := (writeEntries (List.replicate a.n none) 0 (Bytes.chunksExact MAPHASH_LEN a.m)).1
            parts := List.replicate a.n none
            outstanding := []
            window := WINDOW
            retries := 0
            lastRequest := 0
            waitingForHmu := false } ∧
      (writeEntries (List.replicate a.n none) 0 (Bytes.chunksExact MAPHASH_LEN a.m)).2 = true := by
  unfold fromAdvertisement at h
  split at h
  · cases h
  · rename_i hguard
    obtain ⟨henc, hguard⟩ := not_or.mp hguard
    obtain ⟨hn, hmax⟩ := not_or.mp hguard
    split at h
    · rename_i hash randomHash hh hr
      split at h
      · cases h
      · rename_i map hw
        cases h
        refine ⟨hash, randomHash, Arr.ofSlice?_eq_some.mp hh, Arr.ofSlice?_eq_some.mp hr, Nat.pos_of_ne_zero hn,
          Nat.le_of_not_lt hmax, Bool.not_eq_false _ ▸ henc, ?_, ?_⟩
        · rw [hw]
        · rw [hw]
    · cases h

theorem fromAdvertisement_sound {a : ResourceAdvertisement} {r : InboundResource} (h : fromAdvertisement a = .ok r) :
    r.Sound := by
  obtain ⟨hash, randomHash, -, -, hn, -, -, rfl, -⟩ := fromAdvertisement_ok h
  refine ⟨?_, ?_, (by decide : 0 < WINDOW), Nat.zero_le _, ?_, fun h => absurd rfl h⟩
  · simp [length_writeEntries]
  · simp only [ne_eq, List.replicate_eq_nil_iff]
    omega
  · intro i p hp
    simp [List.getElem?_replicate] at hp

theorem isComplete_iff {r : InboundResource} : r.isComplete = true ↔ ∀ p ∈ r.parts, p.isSome = true := by
  simp [isComplete]

/-- An incomplete resource has a first missing slot. -/
theorem firstMissing_of_incomplete {r : InboundResource} (h : r.isComplete = false) :
    ∃ i, r.parts.findIdx? Option.isNone = some i := by
  have hex : ∃ p ∈ r.parts, p.isNone = true := by
    simpa [isComplete] using h
  obtain ⟨p, hp, hnone⟩ := hex
  exact Option.isSome_iff_exists.mp (by rw [List.findIdx?_isSome]; exact List.any_eq_true.mpr ⟨p, hp, hnone⟩)

theorem firstMissing_spec {r : InboundResource} {i : Nat} (h : r.parts.findIdx? Option.isNone = some i) :
    r.parts[i]? = some none ∧ ∀ j < i, ∃ p, r.parts[j]? = some (some p) := by
  obtain ⟨hlt, hi, hbefore⟩ := List.findIdx?_eq_some_iff_getElem.mp h
  refine ⟨?_, fun j hj => ?_⟩
  · rw [List.getElem?_eq_getElem hlt, Option.isNone_iff_eq_none.mp hi]
  · have hsome := hbefore j hj
    rw [Bool.not_eq_true, Option.isNone_eq_false_iff, Option.isSome_iff_exists] at hsome
    obtain ⟨p, hp⟩ := hsome
    exact ⟨p, by rw [List.getElem?_eq_getElem (by omega), hp]⟩

/-! ## Requests -/

theorem windowHashes_ne_nil {r : InboundResource} {first : Nat} {h : Arr 4} (hw : 0 < r.window)
    (hmissing : r.parts[first]? = some none) (hknown : r.map[first]? = some (some h)) :
    r.windowHashes first ≠ [] := by
  have hlt : first < r.parts.length := (List.getElem?_eq_some_iff.mp hmissing).1
  apply List.ne_nil_of_mem (a := h)
  refine List.mem_filterMap.mpr ⟨first, List.mem_range'_1.mpr ⟨Nat.le_refl _, by omega⟩, ?_⟩
  simp [hmissing, hknown]

/-- Once the first entry is known, an incomplete transfer has something to ask for. -/
theorem Sound.nextRequest {r : InboundResource} (hs : r.Sound) (hc : r.isComplete = false) (h0 : r.Known 0) (now : Nat) :
    ∃ request outstanding waiting, r.nextRequest now =
      ({ r with outstanding := outstanding, waitingForHmu := waiting, lastRequest := now }, some request) := by
  obtain ⟨first, hfirst⟩ := firstMissing_of_incomplete hc
  obtain ⟨hmissing, hbefore⟩ := firstMissing_spec hfirst
  unfold InboundResource.nextRequest
  rw [if_neg (by simp [hc]), hfirst]
  dsimp only
  cases hjoin : (r.map[first]?).join with
  | some h =>
    have hne := windowHashes_ne_nil hs.window hmissing (Option.join_eq_some_iff.mp hjoin)
    dsimp only
    rw [if_neg hne]
    exact ⟨_, _, _, rfl⟩
  | none =>
    have hpos : 0 < first := by
      apply Nat.pos_of_ne_zero
      rintro rfl
      exact known_iff_join.mp h0 hjoin
    -- the entry of the filled slot before the first missing one is among those searched
    obtain ⟨h, hh⟩ := h0
    have hmem : h ∈ (r.map.take first).reverse.filterMap id := by
      refine List.mem_filterMap.mpr ⟨some h, List.mem_reverse.mpr ?_, rfl⟩
      exact List.mem_of_getElem? (by rw [List.getElem?_take_of_lt hpos]; exact hh)
    obtain ⟨known, hknown⟩ := Option.isSome_iff_exists.mp (List.isSome_head?.mpr (List.ne_nil_of_mem hmem))
    dsimp only
    rw [hknown]
    exact ⟨_, _, _, rfl⟩

theorem Sound.nextRequest_unknown {r : InboundResource} (hs : r.Sound) (h0 : ¬ r.Known 0) (now : Nat) :
    r.nextRequest now = (r, none) := by
  have hjoin : (r.map[0]?).join = none := by simpa [known_iff_join] using h0
  have hmissing : r.parts.findIdx? Option.isNone = some 0 := by
    obtain ⟨p, ps, hps⟩ := List.exists_cons_of_ne_nil hs.nonempty
    have hp : p = none := by
      by_contra hp
      obtain ⟨part, rfl⟩ := Option.ne_none_iff_exists'.mp hp
      exact h0 (hs.filled 0 part (by simp [hps]))
    rw [hps, hp, List.findIdx?_cons]
    rfl
  have hc : r.isComplete = false := by
    rw [Bool.eq_false_iff]
    intro hc
    have := isComplete_iff.mp hc none (List.mem_of_getElem? (firstMissing_spec hmissing).1)
    cases this
  unfold InboundResource.nextRequest
  rw [if_neg (by simp [hc]), hmissing]
  simp [hjoin]

theorem nextRequest_complete {r : InboundResource} (hc : r.isComplete = true) (now : Nat) :
    r.nextRequest now = (r, none) := by
  unfold InboundResource.nextRequest
  rw [if_pos hc]

/-- A request changes nothing but what is outstanding and when it was made. -/
theorem Sound.nextRequest_fst {r : InboundResource} (hs : r.Sound) (now : Nat) :
    (r.nextRequest now).1 = r ∨ r.Known 0 ∧ ∃ outstanding waiting,
      (r.nextRequest now).1 = { r with outstanding := outstanding, waitingForHmu := waiting, lastRequest := now } := by
  by_cases hc : r.isComplete = true
  · exact .inl (by rw [nextRequest_complete hc])
  · by_cases h0 : r.Known 0
    · obtain ⟨_, o, w, h⟩ := hs.nextRequest (Bool.eq_false_iff.mpr hc) h0 now
      exact .inr ⟨h0, o, w, by rw [h]⟩
    · exact .inl (by rw [hs.nextRequest_unknown h0])

theorem Sound.asked {r : InboundResource} (hs : r.Sound) (now : Nat) : (r.nextRequest now).1.Sound := by
  rcases hs.nextRequest_fst now with h | ⟨h0, o, w, h⟩
  · rwa [h]
  · rw [h]
    exact ⟨hs.slots, hs.nonempty, hs.window, hs.retries, hs.filled, fun _ => h0⟩

/-! ## Retries -/

/-- The time for an answer to the last request is over. -/
def Overdue (r : InboundResource) (now : Nat) : Prop :=
  r.lastRequest ≠ 0 ∧ REQUEST_TIMEOUT_SECS ≤ now - r.lastRequest ∧ r.isComplete = false

instance (r : InboundResource) (now : Nat) : Decidable (r.Overdue now) := inferInstanceAs (Decidable (_ ∧ _ ∧ _))

theorem retryDue_idle {r : InboundResource} {now : Nat} (h : ¬ r.Overdue now) : r.retryDue now = (r, .ok none) := by
  unfold retryDue
  rw [if_pos]
  by_contra hn
  obtain ⟨hlast, hn⟩ := not_or.mp hn
  obtain ⟨htime, hc⟩ := not_or.mp hn
  exact h ⟨hlast, Nat.le_of_not_lt htime, Bool.eq_false_iff.mpr hc⟩

theorem Overdue.not_idle {r : InboundResource} {now : Nat} (h : r.Overdue now) :
    ¬ (r.lastRequest = 0 ∨ now - r.lastRequest < REQUEST_TIMEOUT_SECS ∨ r.isComplete = true) := by
  rintro (h0 | hlt | hc)
  · exact h.1 h0
  · exact Nat.not_lt.mpr h.2.1 hlt
  · exact absurd (h.2.2.symm.trans hc) (by decide)

theorem retryDue_exhausted {r : InboundResource} {now : Nat} (h : r.Overdue now) (hr : MAX_RETRIES ≤ r.retries) :
    r.retryDue now = (r, .error .unsupported) := by
  unfold retryDue
  rw [if_neg h.not_idle, if_pos hr]

/-- A retry is charged, and there is always a request to go with it. -/
theorem Sound.retryDue {r : InboundResource} (hs : r.Sound) {now : Nat} (h : r.Overdue now) (hr : r.retries < MAX_RETRIES) :
    ∃ request outstanding waiting, r.retryDue now =
      ({ r with
          retries := r.retries + 1, window := max (r.window - 1) WINDOW_MIN, outstanding := outstanding,
          waitingForHmu := waiting, lastRequest := now }, .ok (some request)) := by
  have hmin : (0 : Nat) < WINDOW_MIN := by decide
  have hs' : Sound { r with retries := r.retries + 1, window := max (r.window - 1) WINDOW_MIN } :=
    ⟨hs.slots, hs.nonempty, Nat.lt_of_lt_of_le hmin (Nat.le_max_right ..), hr, hs.filled, hs.armed⟩
  obtain ⟨request, o, w, hnext⟩ := hs'.nextRequest h.2.2 (hs.armed h.1) now
  refine ⟨request, o, w, ?_⟩
  unfold InboundResource.retryDue
  rw [if_neg h.not_idle, if_neg (Nat.not_le.mpr hr)]
  simp only [hnext]

theorem Sound.retried {r : InboundResource} (hs : r.Sound) (now : Nat) : (r.retryDue now).1.Sound := by
  by_cases h : r.Overdue now
  · by_cases hr : r.retries < MAX_RETRIES
    · obtain ⟨_, _, _, heq⟩ := hs.retryDue h hr
      rw [heq]
      exact ⟨hs.slots, hs.nonempty, Nat.lt_of_lt_of_le (by decide : 0 < WINDOW_MIN) (Nat.le_max_right ..), hr, hs.filled,
        fun _ => hs.armed h.1⟩
    · rw [retryDue_exhausted h (Nat.le_of_not_lt hr)]
      exact hs
  · rw [retryDue_idle h]
    exact hs

/-! ## Parts and map updates -/

section
variable [Crypto]

/-- An accepted part fills a missing slot whose entry it has. -/
structure Accepts (r : InboundResource) (part : Bytes) (i : Nat) : Prop where
  missing : r.parts[i]? = some none
  entry : r.map[i]? = some (some (mapHash part r.randomHash))

/-- What an accepted part leaves. -/
theorem onPart_ok {r : InboundResource} {part : Bytes} (h : (r.onPart part).2 = true) :
    ∃ i, r.Accepts part i ∧ ∃ outstanding window retries, (r.onPart part).1 =
      { r with
        parts := r.parts.set i (some part), outstanding := outstanding, window := window, retries := retries } ∧
      (window = r.window ∧ retries = r.retries ∨ window = min (r.window + 1) WINDOW_MAX ∧ retries = 0) := by
  unfold onPart at h ⊢
  dsimp only at h ⊢
  split
  · rename_i hnone
    rw [hnone] at h
    cases h
  · rename_i i hi
    have hacc : r.Accepts part i := by
      obtain ⟨hlt, hpred, -⟩ := List.findIdx?_eq_some_iff_getElem.mp hi
      rw [List.length_zip] at hlt
      simp only [List.getElem_zip, Bool.and_eq_true, decide_eq_true_eq, Option.isNone_iff_eq_none] at hpred
      exact ⟨by rw [List.getElem?_eq_getElem (by omega), hpred.2], by rw [List.getElem?_eq_getElem (by omega), hpred.1]⟩
    refine ⟨i, hacc, ?_⟩
    split
    · exact ⟨_, _, _, rfl, .inr ⟨rfl, rfl⟩⟩
    · exact ⟨_, _, _, rfl, .inl ⟨rfl, rfl⟩⟩

theorem onPart_refused {r : InboundResource} {part : Bytes} (h : (r.onPart part).2 = false) :
    (r.onPart part).1 = r := by
  unfold onPart at h ⊢
  dsimp only at h ⊢
  split
  · rfl
  · rename_i i hi
    rw [hi] at h
    dsimp only at h
    split at h <;> cases h

theorem Sound.part {r : InboundResource} (hs : r.Sound) (part : Bytes) : (r.onPart part).1.Sound := by
  cases hacc : (r.onPart part).2 with
  | false => rwa [onPart_refused hacc]
  | true =>
    obtain ⟨i, ha, o, w, k, heq, hwk⟩ := onPart_ok hacc
    have hw : 0 < w ∧ k ≤ MAX_RETRIES := by
      rcases hwk with ⟨rfl, rfl⟩ | ⟨rfl, rfl⟩
      · exact ⟨hs.window, hs.retries⟩
      · exact ⟨by have : 0 < WINDOW_MAX := by decide
                  omega, Nat.zero_le _⟩
    rw [heq]
    refine ⟨by simp [hs.slots], by simpa using hs.nonempty, hw.1, hw.2, ?_, hs.armed⟩
    intro j p hp
    by_cases hij : i = j
    · subst hij
      exact ⟨_, ha.entry⟩
    · dsimp only at hp
      rw [List.getElem?_set_ne hij] at hp
      exact hs.filled j p hp

theorem onPart_receivedParts {r : InboundResource} {part : Bytes} (h : (r.onPart part).2 = true) :
    (r.onPart part).1.receivedParts = r.receivedParts + 1 := by
  obtain ⟨i, ha, _, _, _, heq, -⟩ := onPart_ok h
  rw [heq]
  unfold receivedParts
  have hcount (l : List (Option Bytes)) (i : Nat) (h : l[i]? = some none) :
      ((l.set i (some part)).filter Option.isSome).length = (l.filter Option.isSome).length + 1 := by
    induction l generalizing i with
    | nil => cases h
    | cons x l ih =>
      cases i with
      | zero =>
        obtain rfl : x = none := by simpa using h
        simp
      | succ i =>
        have ih := ih i (by simpa using h)
        cases x with
        | none => simpa using ih
        | some x => simp [ih]
  exact hcount _ _ ha.missing

end

section
variable [Rmp]

/-- A map update writes entries, and clears the waiting flag if all of them fit. -/
theorem onHashmapUpdate_fst (r : InboundResource) (data : Bytes) :
    (r.onHashmapUpdate data).1 = r ∨ ∃ start update waiting, (r.onHashmapUpdate data).1 =
      { r with
        map := (writeEntries r.map start (Bytes.chunksExact MAPHASH_LEN update)).1, waitingForHmu := waiting } := by
  unfold onHashmapUpdate
  split
  · exact .inl rfl
  · rename_i hash segment update _
    split
    · exact .inl rfl
    · right
      refine ⟨segment * HASHMAP_MAX_LEN, update, ?_⟩
      dsimp only
      split
      · rename_i map hw
        exact ⟨r.waitingForHmu, by rw [hw]⟩
      · rename_i map hw
        exact ⟨false, by rw [hw]⟩

theorem Sound.updated {r : InboundResource} (hs : r.Sound) (data : Bytes) : (r.onHashmapUpdate data).1.Sound := by
  rcases r.onHashmapUpdate_fst data with h | ⟨start, update, w, h⟩
  · rwa [h]
  · have hknown (i : Nat) (hi : r.Known i) : (r.onHashmapUpdate data).1.Known i := by
      rw [h]
      exact writeEntries_known length_of_mem_entries start hi
    rw [h] at hknown ⊢
    exact ⟨by simp [length_writeEntries, hs.slots], hs.nonempty, hs.window, hs.retries,
      fun i p hp => hknown i (hs.filled i p hp), fun hl => hknown 0 (hs.armed hl)⟩

variable [Crypto]

theorem Reachable.sound {r : InboundResource} (h : r.Reachable) : r.Sound := by
  induction h with
  | advertised h => exact fromAdvertisement_sound h
  | asked now _ ih => exact ih.asked now
  | part p _ ih => exact ih.part p
  | updated data _ ih => exact ih.updated data
  | retried now _ ih => exact ih.retried now

end

end InboundResource

end Reticulum
