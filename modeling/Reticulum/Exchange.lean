import Mathlib.Logic.Relation
import Reticulum.Sender
import Reticulum.Transfer

/-!
# One transfer, both halves

The receiver starts from the advertisement and takes what the sender answers.
What it knows of the map agrees with the sender's, whole segments at a time,
and a part it takes goes into the slot it belongs to.
-/

namespace Reticulum

open OutboundResource

section
variable [Crypto] [Rmp]

namespace InboundResource

/-- The receiver, and the requests that it has made. -/
structure Exchange where
  receiver : InboundResource
  asked : List Bytes

/-- A step of the receiver: a request, a retry, or the sender's answer to a request. -/
inductive TransferStep (o : OutboundResource) (s : Exchange) : Exchange → Prop
  | asked (now : Nat) : TransferStep o s ⟨(s.receiver.nextRequest now).1, (s.receiver.nextRequest now).2.toList ++ s.asked⟩
  | retried (now : Nat) : TransferStep o s ⟨(s.receiver.retryDue now).1,
    (s.receiver.retryDue now).2.toOption.join.toList ++ s.asked⟩
  | part {p request : Bytes} {now : Nat} : request ∈ s.asked → .part p ∈ (o.onRequest request now).2 →
    TransferStep o s ⟨(s.receiver.onPart p).1, s.asked⟩
  | updated {update request : Bytes} {now : Nat} : request ∈ s.asked → .hashmapUpdate update ∈ (o.onRequest request now).2 →
    TransferStep o s ⟨(s.receiver.onHashmapUpdate update).1, s.asked⟩

/-- The exchange later in the transfer. -/
abbrev Later (o : OutboundResource) : Exchange → Exchange → Prop := Relation.ReflTransGen (TransferStep o)

/-- The states of the transfer that the advertisement starts. -/
def InTransfer (o : OutboundResource) (adv : Bytes) (s : Exchange) : Prop :=
  ∃ a r₀, ResourceAdvertisement.unpack adv = .ok a ∧ fromAdvertisement a = .ok r₀ ∧ Later o ⟨r₀, []⟩ s

/-- What the receiver has agrees with what the sender has. -/
structure Tracks (o : OutboundResource) (r : InboundResource) : Prop where
  sound : r.Sound
  hash : r.hash = o.hash
  randomHash : r.randomHash = o.randomHash
  slots : r.parts.length = o.parts.length
  window : r.window ≤ WINDOW_MAX
  entries : ∀ (i : Nat) (h : Arr 4), r.map[i]? = some (some h) → o.entries[i]? = some h.1
  segments : ∀ i j, i / HASHMAP_MAX_LEN = j / HASHMAP_MAX_LEN → j < r.parts.length → r.Known i → r.Known j
  known : r.Known 0

variable {o : OutboundResource} {adv : Bytes} {r : InboundResource} {s : Exchange}

omit [Crypto] [Rmp] in
theorem Tracks.of_eq {r' : InboundResource} (ht : Tracks o r) (hs : r'.Sound) (hhash : r'.hash = r.hash)
    (hrandom : r'.randomHash = r.randomHash) (hslots : r'.parts.length = r.parts.length) (hw : r'.window ≤ WINDOW_MAX)
    (hmap : r'.map = r.map) : Tracks o r' := by
  have hknown (i : Nat) : r'.Known i ↔ r.Known i := by rw [Known, Known, hmap]
  refine ⟨hs, hhash.trans ht.hash, hrandom.trans ht.randomHash, hslots.trans ht.slots, hw, hmap ▸ ht.entries, ?_,
    (hknown 0).mpr ht.known⟩
  intro i j hseg hj hi
  exact (hknown j).mpr (ht.segments i j hseg (hslots ▸ hj) ((hknown i).mp hi))

omit [Crypto] [Rmp] in
theorem Tracks.asked (ht : Tracks o r) (now : Nat) : Tracks o (r.nextRequest now).1 := by
  have hs := ht.sound.asked now
  rcases ht.sound.nextRequest_fst now with h | ⟨-, _, _, h⟩
  · rwa [h]
  · rw [h] at hs ⊢
    exact ht.of_eq hs rfl rfl rfl ht.window rfl

omit [Crypto] [Rmp] in
theorem Tracks.retried (ht : Tracks o r) (now : Nat) : Tracks o (r.retryDue now).1 := by
  have hs := ht.sound.retried now
  by_cases ho : r.Overdue now
  · by_cases hr : r.retries < MAX_RETRIES
    · obtain ⟨_, _, _, heq⟩ := ht.sound.retryDue ho hr
      rw [heq] at hs ⊢
      refine ht.of_eq hs rfl rfl rfl (Nat.max_le.mpr ⟨?_, by decide⟩) rfl
      exact Nat.le_trans (Nat.sub_le ..) ht.window
    · rwa [retryDue_exhausted ho (Nat.le_of_not_lt hr)]
  · rwa [retryDue_idle ho]

omit [Rmp] in
theorem Tracks.part (ht : Tracks o r) (p : Bytes) : Tracks o (r.onPart p).1 := by
  have hs := ht.sound.part p
  cases h : (r.onPart p).2 with
  | false => rwa [onPart_refused h]
  | true =>
    obtain ⟨i, -, out, w, retries, heq, hw⟩ := onPart_ok h
    rw [heq] at hs ⊢
    refine ht.of_eq hs rfl rfl List.length_set ?_ rfl
    rcases hw with ⟨hw, -⟩ | ⟨hw, -⟩
    · exact hw ▸ ht.window
    · exact hw ▸ Nat.min_le_right ..

variable [Bzip2] {data : Bytes} {k : Arr 64}

/-- The sizes of a map that the receiver takes. -/
theorem segmentUpdate_read (hR : Rmp.ReadsWritten) (hA : Crypto.AesInverts) (hm : Made data k o adv) {segment : Nat}
    (h : segment * HASHMAP_MAX_LEN * MAPHASH_LEN < o.map.length) :
    unpackHashmapUpdate (o.segmentUpdate segment) = .ok (o.hash, segment,
      (o.map.drop (segment * HASHMAP_MAX_LEN * MAPHASH_LEN)).take (HASHMAP_MAX_LEN * MAPHASH_LEN)) := by
  have hlen := hm.length_map
  have hmax := (hm.length_parts hA).2
  have hstretch : ((o.map.drop (segment * HASHMAP_MAX_LEN * MAPHASH_LEN)).take (HASHMAP_MAX_LEN * MAPHASH_LEN)).length =
      min HASHMAP_MAX_LEN (o.parts.length - segment * HASHMAP_MAX_LEN) * MAPHASH_LEN := by
    rw [List.length_take, List.length_drop, hlen, ← Nat.sub_mul, Nat.mul_min_mul_right]
  have hsmall : segment < 2 ^ 32 := by
    rw [hlen, MAPHASH_LEN, HASHMAP_MAX_LEN] at h
    rw [MAX_EFFICIENT_SIZE, MAPHASH_LEN] at hmax
    omega
  unfold segmentUpdate
  rw [Nat.min_eq_left (Nat.le_sub_one_of_lt hsmall)]
  apply unpackHashmapUpdate_pack hR o.hash hsmall
  · intro hnil
    rw [hnil, List.length_nil] at hstretch
    rw [hlen] at h
    rw [MAPHASH_LEN, HASHMAP_MAX_LEN] at *
    omega
  · rw [hstretch]
    exact Nat.mul_mod_left ..
  · rw [hstretch, MAPHASH_LEN, HASHMAP_MAX_LEN]
    omega

omit [Crypto] [Rmp] [Bzip2] in
theorem segment_entry (o : OutboundResource) (segment i : Nat) :
    ((o.entries.drop (segment * HASHMAP_MAX_LEN)).take HASHMAP_MAX_LEN)[i - segment * HASHMAP_MAX_LEN]? =
      if i < segment * HASHMAP_MAX_LEN + HASHMAP_MAX_LEN then
        o.entries[segment * HASHMAP_MAX_LEN + (i - segment * HASHMAP_MAX_LEN)]? else none := by
  have hpos : 0 < HASHMAP_MAX_LEN := by decide
  rw [List.getElem?_take, List.getElem?_drop]
  by_cases hi : i - segment * HASHMAP_MAX_LEN < HASHMAP_MAX_LEN
  · rw [if_pos hi, if_pos (by omega)]
  · rw [if_neg hi, if_neg (by omega)]

theorem Tracks.onHashmapUpdate_segment (hR : Rmp.ReadsWritten) (hA : Crypto.AesInverts) (hm : Made data k o adv)
    (ht : Tracks o r) {segment : Nat} (h : segment * HASHMAP_MAX_LEN * MAPHASH_LEN < o.map.length) :
    ∃ map, r.onHashmapUpdate (o.segmentUpdate segment) = ({ r with map := map, waitingForHmu := false }, .ok ()) ∧
      map.length = r.map.length ∧
      ∀ i < r.parts.length, (i / HASHMAP_MAX_LEN = segment → ∃ e : Arr 4, map[i]? = some (some e) ∧ o.entries[i]? = some e.1) ∧
        (i / HASHMAP_MAX_LEN ≠ segment → map[i]? = r.map[i]?) := by
  have hslots : r.map.length = o.parts.length := ht.sound.slots.trans ht.slots
  have hentries := hm.length_entries
  have hlen4 : ∀ e ∈ (o.entries.drop (segment * HASHMAP_MAX_LEN)).take HASHMAP_MAX_LEN, e.length = 4 := by
    intro e he
    exact Bytes.length_of_mem_chunksExact (List.mem_of_mem_drop (List.mem_of_mem_take he))
  have hchunks := hm.entries_stretch (segment * HASHMAP_MAX_LEN) HASHMAP_MAX_LEN
  have hfits := writeEntries_snd hlen4 r.map (segment * HASHMAP_MAX_LEN)
  have hget := writeEntries_getElem? hlen4 r.map (segment * HASHMAP_MAX_LEN)
  have hlength := length_writeEntries ((o.entries.drop (segment * HASHMAP_MAX_LEN)).take HASHMAP_MAX_LEN) r.map
    (segment * HASHMAP_MAX_LEN)
  have hinside : (writeEntries r.map (segment * HASHMAP_MAX_LEN)
      ((o.entries.drop (segment * HASHMAP_MAX_LEN)).take HASHMAP_MAX_LEN)).2 = true := by
    refine hfits.mpr (.inr ?_)
    rw [List.length_take, List.length_drop, hentries, hslots]
    rw [hm.length_map, MAPHASH_LEN, HASHMAP_MAX_LEN] at h
    rw [HASHMAP_MAX_LEN]
    omega
  generalize hw : writeEntries r.map (segment * HASHMAP_MAX_LEN)
    ((o.entries.drop (segment * HASHMAP_MAX_LEN)).take HASHMAP_MAX_LEN) = w at hinside hget hlength
  obtain ⟨map, done⟩ := w
  dsimp only at hinside hget hlength
  subst hinside
  refine ⟨map, ?_, hlength, fun i hi => ?_⟩
  · unfold onHashmapUpdate
    rw [segmentUpdate_read hR hA hm h]
    dsimp only
    rw [if_neg (by simp [ht.hash]), hchunks, hw]
  · have hin : i < r.map.length := by rwa [ht.sound.slots]
    rw [hget, segment_entry]
    constructor
    · intro hseg
      have hstart : segment * HASHMAP_MAX_LEN ≤ i ∧ i < segment * HASHMAP_MAX_LEN + HASHMAP_MAX_LEN := by
        rw [HASHMAP_MAX_LEN] at *
        omega
      obtain ⟨e, he⟩ : ∃ e, o.entries[i]? = some e := ⟨_, List.getElem?_eq_getElem (by omega)⟩
      have hfour : e.length = 4 := Bytes.length_of_mem_chunksExact (List.mem_of_getElem? he)
      rw [if_pos ⟨hstart.1, hin⟩, if_pos hstart.2, Nat.add_sub_cancel' hstart.1, he]
      exact ⟨⟨e, hfour⟩, congrArg some (Arr.ofSlice?_of_length hfour), rfl⟩
    · intro hseg
      by_cases hstart : segment * HASHMAP_MAX_LEN ≤ i
      · rw [if_pos ⟨hstart, hin⟩, if_neg]
        · rfl
        · rw [HASHMAP_MAX_LEN] at *
          omega
      · rw [if_neg (fun hlt => hstart hlt.1)]

theorem Tracks.updated (hR : Rmp.ReadsWritten) (hA : Crypto.AesInverts) (hm : Made data k o adv) (ht : Tracks o r) {segment : Nat}
    (h : segment * HASHMAP_MAX_LEN * MAPHASH_LEN < o.map.length) : Tracks o (r.onHashmapUpdate (o.segmentUpdate segment)).1 := by
  have hs := ht.sound.updated (o.segmentUpdate segment)
  obtain ⟨map, heq, hlength, hmap⟩ := ht.onHashmapUpdate_segment hR hA hm h
  rw [heq] at hs ⊢
  have hpos : 0 < r.parts.length := List.length_pos_iff.mpr ht.sound.nonempty
  refine ⟨hs, ht.hash, ht.randomHash, ht.slots, ht.window, ?_, ?_, ?_⟩
  · intro i e he
    have hi : i < r.parts.length := by
      have := (List.getElem?_eq_some_iff.mp he).1
      rwa [hlength, ht.sound.slots] at this
    by_cases hseg : i / HASHMAP_MAX_LEN = segment
    · obtain ⟨e', he', hentry⟩ := (hmap i hi).1 hseg
      cases he.symm.trans he'
      exact hentry
    · exact ht.entries i e (((hmap i hi).2 hseg).symm.trans he)
  · intro i j hij hj hknown
    by_cases hseg : j / HASHMAP_MAX_LEN = segment
    · obtain ⟨e, he, -⟩ := (hmap j hj).1 hseg
      exact ⟨e, he⟩
    · have hi : i < r.parts.length := by
        obtain ⟨e, he⟩ := hknown
        have := (List.getElem?_eq_some_iff.mp he).1
        rwa [hlength, ht.sound.slots] at this
      have hold : r.Known i := by
        obtain ⟨e, he⟩ := hknown
        exact ⟨e, ((hmap i hi).2 (hij ▸ hseg)).symm.trans he⟩
      obtain ⟨e, he⟩ := ht.segments i j hij hj hold
      exact ⟨e, ((hmap j hj).2 hseg).trans he⟩
  · by_cases hseg : 0 / HASHMAP_MAX_LEN = segment
    · obtain ⟨e, he, -⟩ := (hmap 0 hpos).1 hseg
      exact ⟨e, he⟩
    · obtain ⟨e, he⟩ := ht.known
      exact ⟨e, ((hmap 0 hpos).2 hseg).trans he⟩

theorem Tracks.step (hR : Rmp.ReadsWritten) (hA : Crypto.AesInverts) (hm : Made data k o adv) (ht : Tracks o s.receiver)
    {s' : Exchange} (h : TransferStep o s s') : Tracks o s'.receiver := by
  cases h with
  | asked now => exact ht.asked now
  | retried now => exact ht.retried now
  | part _ _ => exact ht.part _
  | updated _ hmem =>
    rcases mem_onRequest hmem with ⟨_, _, hout⟩ | ⟨segment, hlt, hout⟩
    · cases hout
    · cases hout
      exact ht.updated hR hA hm hlt

theorem Tracks.advertised (hR : Rmp.ReadsWritten) (hA : Crypto.AesInverts) (hm : Made data k o adv)
    {a : ResourceAdvertisement} (hun : ResourceAdvertisement.unpack adv = .ok a) (hfrom : fromAdvertisement a = .ok r) :
    Tracks o r := by
  have hs := fromAdvertisement_sound hfrom
  rw [hm.packed, ResourceAdvertisement.unpack_pack hR (hm.fits hA _)] at hun
  cases hun
  obtain ⟨hash, randomHash, hh, hr, -, -, -, rfl, -⟩ := fromAdvertisement_ok hfrom
  have hchunks := hm.entries_stretch 0 (min o.parts.length HASHMAP_MAX_LEN)
  rw [Nat.zero_mul, List.drop_zero, List.drop_zero] at hchunks
  have hlen4 : ∀ e ∈ o.entries.take (min o.parts.length HASHMAP_MAX_LEN), e.length = 4 := fun e he =>
    Bytes.length_of_mem_chunksExact (List.mem_of_mem_take he)
  have hget (i : Nat) := writeEntries_getElem? hlen4 (List.replicate o.parts.length none) 0 i
  have hmap (i : Nat) : (writeEntries (List.replicate o.parts.length none) 0
      (Bytes.chunksExact MAPHASH_LEN (o.advertisement (compressIfUseful data).2).m)).1[i]? =
      if i < o.parts.length then some (if i < HASHMAP_MAX_LEN then (o.entries[i]?).bind (Arr.ofSlice? 4) else none) else none := by
    have hentries : o.entries.length = o.parts.length := hm.length_entries
    rw [show (o.advertisement (compressIfUseful data).2).m = o.map.take (min o.parts.length HASHMAP_MAX_LEN * MAPHASH_LEN) from rfl,
      hchunks, hget, Nat.sub_zero, List.length_replicate, List.getElem?_take, List.getElem?_replicate]
    by_cases hi : i < o.parts.length
    · rw [if_pos ⟨Nat.zero_le i, hi⟩, if_pos hi, if_pos hi]
      by_cases hseg : i < HASHMAP_MAX_LEN
      · rw [if_pos (Nat.lt_min.mpr ⟨hi, hseg⟩), if_pos hseg, List.getElem?_eq_getElem (by omega)]
        rfl
      · rw [if_neg (fun hlt => hseg (Nat.lt_of_lt_of_le hlt (Nat.min_le_right ..))), if_neg hseg]
        rfl
    · rw [if_neg (fun hlt => hi hlt.2), if_neg hi, if_neg hi]
  have hfirst (j : Nat) (hj : j < o.parts.length) (hseg : j < HASHMAP_MAX_LEN) :
      ∃ e, (writeEntries (List.replicate o.parts.length none) 0
        (Bytes.chunksExact MAPHASH_LEN (o.advertisement (compressIfUseful data).2).m)).1[j]? = some (some e) := by
    obtain ⟨entry, hentry⟩ : ∃ entry, o.entries[j]? = some entry :=
      ⟨_, List.getElem?_eq_getElem (by rwa [hm.length_entries])⟩
    have hfour : entry.length = 4 := Bytes.length_of_mem_chunksExact (List.mem_of_getElem? hentry)
    refine ⟨⟨entry, hfour⟩, (hmap j).trans ?_⟩
    rw [if_pos hj, if_pos hseg, hentry]
    exact congrArg some (Arr.ofSlice?_of_length hfour)
  refine ⟨hs, Subtype.ext hh.symm, Subtype.ext hr.symm, List.length_replicate, (by decide : WINDOW ≤ WINDOW_MAX), ?_, ?_, ?_⟩
  · intro i e he
    have he := (hmap i).symm.trans he
    by_cases hi : i < o.parts.length
    · rw [if_pos hi, Option.some.injEq] at he
      by_cases hseg : i < HASHMAP_MAX_LEN
      · rw [if_pos hseg] at he
        obtain ⟨entry, hentry, hof⟩ := Option.bind_eq_some_iff.mp he
        rw [hentry, Arr.ofSlice?_eq_some.mp hof]
      · rw [if_neg hseg] at he
        cases he
    · rw [if_neg hi] at he
      cases he
  · intro i j hij hj hknown
    obtain ⟨e, he⟩ := hknown
    have he := (hmap i).symm.trans he
    have hj : j < o.parts.length := by
      rw [List.length_replicate] at hj
      exact hj
    have hi : i < HASHMAP_MAX_LEN := by
      by_contra hi
      rw [if_neg hi] at he
      split at he <;> cases he
    have hseg : j < HASHMAP_MAX_LEN := by
      rw [HASHMAP_MAX_LEN] at *
      omega
    exact hfirst j hj hseg
  · exact hfirst 0 (hm.length_parts hA).1 (by decide)

theorem accepted (hR : Rmp.ReadsWritten) (hA : Crypto.AesInverts) (hm : Made data k o adv) :
    ∃ a r₀, ResourceAdvertisement.unpack adv = .ok a ∧ fromAdvertisement a = .ok r₀ ∧
      r₀.parts = List.replicate o.parts.length none := by
  obtain ⟨hpos, hmax⟩ := hm.length_parts hA
  have hchunks := hm.entries_stretch 0 (min o.parts.length HASHMAP_MAX_LEN)
  rw [Nat.zero_mul, List.drop_zero, List.drop_zero] at hchunks
  have hlen4 : ∀ e ∈ o.entries.take (min o.parts.length HASHMAP_MAX_LEN), e.length = 4 := fun e he =>
    Bytes.length_of_mem_chunksExact (List.mem_of_mem_take he)
  have hfits : (writeEntries (List.replicate o.parts.length none) 0
      (Bytes.chunksExact MAPHASH_LEN (o.advertisement (compressIfUseful data).2).m)).2 = true := by
    rw [show (o.advertisement (compressIfUseful data).2).m = o.map.take (min o.parts.length HASHMAP_MAX_LEN * MAPHASH_LEN) from rfl,
      hchunks, writeEntries_snd hlen4, List.length_take, List.length_replicate, hm.length_entries]
    omega
  have henc : (o.advertisement (compressIfUseful data).2).encrypted = true := by
    have hflag : ∀ c : Bool, ((((0x01 : UInt8) ||| (c.toUInt8 <<< 1)) &&& 0x01) != 0) = true := by decide
    exact hflag _
  have hfrom : ∃ r₀, fromAdvertisement (o.advertisement (compressIfUseful data).2) = .ok r₀ := by
    generalize hw : writeEntries (List.replicate o.parts.length none) 0
      (Bytes.chunksExact MAPHASH_LEN (o.advertisement (compressIfUseful data).2).m) = w at hfits
    obtain ⟨map, done⟩ := w
    obtain rfl : done = true := hfits
    have hguard : ¬ ((o.advertisement (compressIfUseful data).2).encrypted = false ∨ o.parts.length = 0 ∨
        o.parts.length > MAX_EFFICIENT_SIZE / MAPHASH_LEN) := by
      rintro (h | h | h)
      · exact absurd (h.symm.trans henc) (by decide)
      · omega
      · omega
    unfold fromAdvertisement
    rw [show (o.advertisement (compressIfUseful data).2).n = o.parts.length from rfl, if_neg hguard,
      show (o.advertisement (compressIfUseful data).2).h = o.hash.1 from rfl,
      show (o.advertisement (compressIfUseful data).2).r = o.randomHash.1 from rfl, Arr.ofSlice?_val, Arr.ofSlice?_val]
    dsimp only
    rw [hw]
    exact ⟨_, rfl⟩
  obtain ⟨r₀, hr₀⟩ := hfrom
  refine ⟨_, r₀, by rw [hm.packed, ResourceAdvertisement.unpack_pack hR (hm.fits hA _)], hr₀, ?_⟩
  obtain ⟨_, _, -, -, -, -, -, rfl, -⟩ := fromAdvertisement_ok hr₀
  rfl

theorem InTransfer.tracks (hR : Rmp.ReadsWritten) (hA : Crypto.AesInverts) (hm : Made data k o adv) (h : InTransfer o adv s) :
    Tracks o s.receiver := by
  obtain ⟨a, r₀, hun, hfrom, hlater⟩ := h
  induction hlater with
  | refl => exact .advertised hR hA hm hun hfrom
  | tail _ hst ih => exact ih.step hR hA hm hst

/-! ## What a request names -/

omit [Bzip2] [Crypto] [Rmp] in
/-- The first missing slot, when its map entry has not arrived. -/
def unknownFirst (r : InboundResource) : Option Nat :=
  (r.parts.findIdx? Option.isNone).filter fun first => (r.map[first]?).join.isNone

/-- The slots that the next request names, in its order. -/
def namedSlots (r : InboundResource) : List Nat :=
  match r.parts.findIdx? Option.isNone with
  | none => []
  | some first =>
    if (r.map[first]?).join.isNone then []
    else (List.range' first (min (first + r.window) r.parts.length - first)).filter fun i =>
      r.parts[i]? = some none && (r.map[i]?).join.isSome

omit [Bzip2] [Crypto] [Rmp] in
theorem mem_namedSlots {r : InboundResource} {i : Nat} (h : i ∈ r.namedSlots) :
    r.parts[i]? = some none ∧ r.Known i ∧ ∃ first, r.parts.findIdx? Option.isNone = some first ∧ first ≤ i ∧ i < first + r.window := by
  unfold namedSlots at h
  split at h
  · cases h
  · rename_i first hfirst
    split at h
    · cases h
    · obtain ⟨hrange, hi⟩ := List.mem_filter.mp h
      obtain ⟨hle, hlt⟩ := List.mem_range'_1.mp hrange
      simp only [Bool.and_eq_true, decide_eq_true_eq] at hi
      refine ⟨hi.1, known_iff_join.mpr (Option.isSome_iff_ne_none.mp hi.2), first, hfirst, hle, ?_⟩
      omega

omit [Bzip2] [Crypto] [Rmp] in
theorem namedSlots_of_unknown {r : InboundResource} {first : Nat} (h : r.unknownFirst = some first) : r.namedSlots = [] := by
  obtain ⟨hfirst, hjoin⟩ := Option.filter_eq_some_iff.mp h
  unfold namedSlots
  rw [hfirst]
  exact if_pos hjoin

omit [Bzip2] [Crypto] [Rmp] in
theorem mem_namedSlots_first {r : InboundResource} {first : Nat} (hw : 0 < r.window)
    (hfirst : r.parts.findIdx? Option.isNone = some first) (hknown : r.Known first) : first ∈ r.namedSlots := by
  have hmissing := (firstMissing_spec hfirst).1
  have hlt := (List.getElem?_eq_some_iff.mp hmissing).1
  have hjoin := Option.isSome_iff_ne_none.mpr (known_iff_join.mp hknown)
  unfold namedSlots
  rw [hfirst]
  dsimp only
  rw [if_neg (by rw [Option.isNone_iff_eq_none]; exact known_iff_join.mp hknown)]
  refine List.mem_filter.mpr ⟨List.mem_range'_1.mpr (by omega), ?_⟩
  simp only [hmissing, hjoin, decide_true, Bool.and_self]

omit [Bzip2] [Crypto] [Rmp] in
theorem windowHashes_eq {r : InboundResource} {first : Nat} (hfirst : r.parts.findIdx? Option.isNone = some first)
    (hknown : r.Known first) : r.windowHashes first = r.namedSlots.filterMap fun i => (r.map[i]?).join := by
  have hjoin : (r.map[first]?).join.isNone = false := by
    rw [Option.isNone_eq_false_iff, Option.isSome_iff_ne_none]
    exact known_iff_join.mp hknown
  unfold windowHashes namedSlots
  rw [hfirst]
  dsimp only
  rw [hjoin, if_neg Bool.false_ne_true, List.filterMap_filter]
  refine List.filterMap_congr fun i _ => ?_
  by_cases hi : r.parts[i]? = some none
  · cases hm : (r.map[i]?).join <;> simp [hi]
  · simp [hi]

omit [Bzip2] [Crypto] [Rmp] in
/-- The two forms of a request. -/
theorem Sound.request_cases {r : InboundResource} (hs : r.Sound) {now : Nat} {request : Bytes}
    (h : (r.nextRequest now).2 = some request) :
    (r.unknownFirst = none ∧
      request = HASHMAP_IS_NOT_EXHAUSTED :: (r.hash.1 ++ (r.namedSlots.filterMap fun i => (r.map[i]?).join).flatMap (·.1))) ∨
    (∃ first known, r.unknownFirst = some first ∧ 0 < first ∧ first < r.parts.length ∧ ¬ r.Known first ∧
      r.map[first - 1]? = some (some known) ∧ request = HASHMAP_IS_EXHAUSTED :: (known.1 ++ r.hash.1)) := by
  unfold InboundResource.nextRequest at h
  split at h
  · cases h
  · split at h
    · cases h
    · rename_i first hfirst
      obtain ⟨hmissing, hbefore⟩ := firstMissing_spec hfirst
      split at h
      · rename_i hjoin
        right
        have hunknown : ¬ r.Known first := fun hk => known_iff_join.mp hk hjoin
        split at h
        · cases h
        · rename_i known hknown
          have hpos : 0 < first := by
            apply Nat.pos_of_ne_zero
            rintro rfl
            cases hknown
          obtain ⟨n, rfl⟩ : ∃ n, first = n + 1 := ⟨first - 1, by omega⟩
          obtain ⟨p, hp⟩ := hbefore n (Nat.lt_succ_self n)
          obtain ⟨e, he⟩ := hs.filled n p hp
          rw [List.take_add_one, he] at hknown
          simp only [Option.toList_some, List.reverse_append, List.reverse_cons, List.reverse_nil, List.nil_append,
            List.singleton_append, List.filterMap_cons_some (f := id) rfl, List.head?_cons, Option.some.injEq] at hknown
          subst hknown
          refine ⟨n + 1, e, ?_, hpos, (List.getElem?_eq_some_iff.mp hmissing).1, hunknown, he, (Option.some.inj h).symm⟩
          simp [unknownFirst, hfirst, hjoin]
      · rename_i e hjoin
        left
        have hknown : r.Known first := known_iff_join.mpr (by simp [hjoin])
        rw [windowHashes_eq hfirst hknown] at h
        dsimp only at h
        split at h
        · cases h
        · exact ⟨by simp [unknownFirst, hfirst, hjoin], (Option.some.inj h).symm⟩

/-! ## What stays -/

omit [Bzip2] [Rmp] in
theorem onPart_filled {r : InboundResource} {p p' : Bytes} {i : Nat} (h : r.parts[i]? = some (some p')) :
    ∃ p', (r.onPart p).1.parts[i]? = some (some p') := by
  cases hacc : (r.onPart p).2 with
  | false => exact ⟨p', by rwa [onPart_refused hacc]⟩
  | true =>
    obtain ⟨j, -, _, _, _, heq, -⟩ := onPart_ok hacc
    rw [heq]
    by_cases hij : j = i
    · subst hij
      exact ⟨p, List.getElem?_set_self (List.getElem?_eq_some_iff.mp h).1⟩
    · exact ⟨p', by rw [List.getElem?_set_ne hij]; exact h⟩

omit [Bzip2] in
theorem TransferStep.keeps {s' : Exchange} (hs : s.receiver.Sound) (h : TransferStep o s s') :
    (∀ i, s.receiver.Known i → s'.receiver.Known i) ∧
      ∀ i : Nat, (∃ p, s.receiver.parts[i]? = some (some p)) → ∃ p, s'.receiver.parts[i]? = some (some p) := by
  cases h with
  | asked now =>
    rcases hs.nextRequest_fst now with h | ⟨-, _, _, h⟩
    · rw [h]
      exact ⟨fun _ h => h, fun _ h => h⟩
    · rw [h]
      exact ⟨fun _ h => h, fun _ h => h⟩
  | retried now =>
    by_cases ho : s.receiver.Overdue now
    · by_cases hr : s.receiver.retries < MAX_RETRIES
      · obtain ⟨_, _, _, heq⟩ := hs.retryDue ho hr
        rw [heq]
        exact ⟨fun _ h => h, fun _ h => h⟩
      · rw [retryDue_exhausted ho (Nat.le_of_not_lt hr)]
        exact ⟨fun _ h => h, fun _ h => h⟩
    · rw [retryDue_idle ho]
      exact ⟨fun _ h => h, fun _ h => h⟩
  | @part p =>
    refine ⟨fun i hi => ?_, fun i hi => onPart_filled hi.choose_spec⟩
    cases hacc : (s.receiver.onPart p).2 with
    | false => rwa [onPart_refused hacc]
    | true =>
      obtain ⟨j, -, _, _, _, heq, -⟩ := onPart_ok hacc
      rw [heq]
      exact hi
  | @updated update =>
    rcases s.receiver.onHashmapUpdate_fst update with h | ⟨start, update, w, h⟩
    · rw [h]
      exact ⟨fun _ h => h, fun _ h => h⟩
    · rw [h]
      exact ⟨fun _ hi => writeEntries_known length_of_mem_entries start hi, fun _ h => h⟩

theorem Later.tracks (hR : Rmp.ReadsWritten) (hA : Crypto.AesInverts) (hm : Made data k o adv) {s' : Exchange}
    (h : Later o s s') (ht : Tracks o s.receiver) :
    Tracks o s'.receiver ∧ (∀ i, s.receiver.Known i → s'.receiver.Known i) ∧
      ∀ i : Nat, (∃ p, s.receiver.parts[i]? = some (some p)) → ∃ p, s'.receiver.parts[i]? = some (some p) := by
  induction h with
  | refl => exact ⟨ht, fun _ h => h, fun _ h => h⟩
  | tail _ hst ih =>
    obtain ⟨ht', hknown, hfilled⟩ := ih
    obtain ⟨hk, hf⟩ := hst.keeps ht'.sound
    exact ⟨ht'.step hR hA hm hst, fun i hi => hk i (hknown i hi), fun i hi => hf i (hfilled i hi)⟩

/-! ## Where a part goes -/

omit [Bzip2] [Rmp] in
theorem onPart_stores {r : InboundResource} {p : Bytes} {i : Nat} (hslots : r.map.length = r.parts.length)
    (hentry : r.map[i]? = some (some (mapHash p r.randomHash))) (hmissing : r.parts[i]? = some none)
    (hbefore : ∀ j < i, r.map[j]? = some (some (mapHash p r.randomHash)) → r.parts[j]? ≠ some none) :
    (r.onPart p).2 = true ∧ (r.onPart p).1.parts = r.parts.set i (some p) := by
  have hmem : (some (mapHash p r.randomHash), none) ∈ r.map.zip r.parts :=
    List.mem_of_getElem? (List.getElem?_zip_eq_some.mpr ⟨hentry, hmissing⟩)
  unfold onPart
  dsimp only
  split
  · rename_i hnone
    have := List.findIdx?_eq_none_iff.mp hnone _ hmem
    simp at this
  · rename_i j hj
    obtain ⟨hlt, hj, hfirst⟩ := List.findIdx?_eq_some_iff_getElem.mp hj
    rw [List.length_zip] at hlt
    simp only [List.getElem_zip, Bool.and_eq_true, decide_eq_true_eq, Option.isNone_iff_eq_none] at hj hfirst
    obtain rfl : j = i := by
      obtain hji | hji | hij := Nat.lt_trichotomy j i
      · refine absurd ?_ (hbefore j hji ?_)
        · rw [List.getElem?_eq_getElem (by omega), hj.2]
        · rw [List.getElem?_eq_getElem (by omega), hj.1]
      · exact hji
      · exact absurd ⟨(List.getElem?_eq_some_iff.mp hentry).2, (List.getElem?_eq_some_iff.mp hmissing).2⟩ (hfirst i hij)
    split
    · exact ⟨rfl, rfl⟩
    · exact ⟨rfl, rfl⟩

/-- The exchange after a request. -/
def Exchange.ask (s : Exchange) (now : Nat) : Exchange :=
  ⟨(s.receiver.nextRequest now).1, (s.receiver.nextRequest now).2.toList ++ s.asked⟩

/-- A named part that is still missing later goes into its own slot. -/
theorem Tracks.stores (hR : Rmp.ReadsWritten) (hA : Crypto.AesInverts) (hm : Made data k o adv) (ht : Tracks o s.receiver)
    {now i : Nat} (hi : i ∈ s.receiver.namedSlots) {p : Bytes} (hp : o.parts[i]? = some p) {s' : Exchange}
    (hlater : Later o (s.ask now) s') (hmissing : s'.receiver.parts[i]? = some none) :
    (s'.receiver.onPart p).2 = true ∧ (s'.receiver.onPart p).1.parts = s'.receiver.parts.set i (some p) := by
  obtain ⟨-, hknown, first, hfirst, hle, hwindow⟩ := mem_namedSlots hi
  obtain ⟨hkeeps, hfills⟩ := (TransferStep.asked (o := o) (s := s) now).keeps ht.sound
  obtain ⟨ht', hknown', hfilled'⟩ := hlater.tracks hR hA hm (ht.asked now)
  obtain ⟨e, he⟩ := hknown' i (hkeeps i hknown)
  have hentry := hm.entry hp
  have hhash : e = mapHash p o.randomHash := Subtype.ext (Option.some.inj ((ht'.entries i e he).symm.trans hentry))
  subst hhash
  rw [← ht'.randomHash] at he hentry
  refine onPart_stores ht'.sound.slots he hmissing fun j hj hje hjmissing => ?_
  -- the guard puts an equal entry before the window, where every slot is filled
  have hspaced := hm.guarded j i _ hj (ht'.entries j _ hje) hentry
  have hfar : j < first := by
    have := ht.window
    have : 0 < HASHMAP_MAX_LEN := by decide
    omega
  obtain ⟨q, hq⟩ := hfilled' j (hfills j ((firstMissing_spec hfirst).2 j hfar))
  cases hjmissing.symm.trans hq

end InboundResource

end

end Reticulum
