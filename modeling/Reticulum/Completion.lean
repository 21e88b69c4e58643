import Mathlib.Data.Finset.Card
import Reticulum.Lib.Run
import Reticulum.Serving

/-!
# A transfer without loss

The receiver asks, the sender answers, and the receiver is handed the whole
answer. Each round fills a slot or makes a segment of the map known, so the
loop ends, with every part in its own slot.
-/

namespace Reticulum

open OutboundResource

namespace InboundResource

section
variable [Crypto] [Rmp]

/-! ## The loop -/

/-- One answer of the sender reaches the receiver. The flag tells whether it is taken. -/
def take (r : InboundResource) : ResourceOutput → InboundResource × Bool
  | .part part => r.onPart part
  | .hashmapUpdate update =>
    let (r, result) := r.onHashmapUpdate update
    (r, result.isOk)

/-- All of them do, in the given order. -/
def takeAll (r : InboundResource) (outputs : List ResourceOutput) : InboundResource :=
  outputs.foldl (fun r output => (r.take output).1) r

def AllTaken : InboundResource → List ResourceOutput → Prop
  | _, [] => True
  | r, output :: rest => (r.take output).2 = true ∧ AllTaken (r.take output).1 rest

/-- Both ends of a transfer. -/
structure Session where
  sender : OutboundResource
  receiver : InboundResource

/-- A round: when the request is made and when it is answered, and the order in which the answers arrive. -/
structure Turn where
  asked : Nat
  answered : Nat
  order : List ResourceOutput

/-- `Round s l s'`: the receiver of `s` asks, and takes everything that the sender answers. -/
inductive Round (s : Session) (l : Turn) : Session → Prop
  | round {request : Bytes} (asks : (s.receiver.nextRequest l.asked).2 = some request)
    (answers : l.order.Perm (s.sender.onRequest request l.answered).2) :
    Round s l ⟨(s.sender.onRequest request l.answered).1, (s.receiver.nextRequest l.asked).1.takeAll l.order⟩

/-! ## What is left -/

/-- The slots without a part. -/
def missing (r : InboundResource) : Finset Nat := (Finset.range r.parts.length).filter fun i => r.parts[i]? = some none

/-- The slots without a map entry. -/
def unknown (r : InboundResource) : Finset Nat := (Finset.range r.parts.length).filter fun i => (r.map[i]?).join = none

omit [Crypto] [Rmp] in
theorem mem_missing {r : InboundResource} {i : Nat} : i ∈ r.missing ↔ r.parts[i]? = some none := by
  unfold missing
  rw [Finset.mem_filter, Finset.mem_range]
  exact ⟨And.right, fun h => ⟨(List.getElem?_eq_some_iff.mp h).1, h⟩⟩

omit [Crypto] [Rmp] in
theorem mem_unknown {r : InboundResource} {i : Nat} : i ∈ r.unknown ↔ i < r.parts.length ∧ ¬ r.Known i := by
  unfold unknown
  rw [Finset.mem_filter, Finset.mem_range, known_iff_join, not_not]

/-- What bounds the rounds still to come. -/
def rest (r : InboundResource) : Nat := r.missing.card + r.unknown.card

omit [Crypto] [Rmp] in
theorem rest_le (r : InboundResource) : r.rest ≤ 2 * r.parts.length := by
  have hmissing : r.missing.card ≤ r.parts.length := (Finset.card_filter_le _ _).trans_eq (Finset.card_range _)
  have hunknown : r.unknown.card ≤ r.parts.length := (Finset.card_filter_le _ _).trans_eq (Finset.card_range _)
  unfold rest
  omega

/-! ## What the loop keeps -/

variable [Bzip2] {data : Bytes} {k : Arr 64} {o : OutboundResource} {adv : Bytes} {r : InboundResource}

omit [Rmp] in
/-- The receiver tracks the sender, holds nothing but its parts, and knows what to make of them. -/
structure Copies (data : Bytes) (o : OutboundResource) (r : InboundResource) : Prop extends Tracks o r where
  placed : ∀ (i : Nat) (p : Bytes), r.parts[i]? = some (some p) → o.parts[i]? = some p
  totalSize : r.totalSize = data.length
  compressed : r.compressed = (compressIfUseful data).2

theorem Copies.advertised (hR : Rmp.ReadsWritten) (hA : Crypto.AesInverts) (hm : Made data k o adv)
    {a : ResourceAdvertisement} (hun : ResourceAdvertisement.unpack adv = .ok a) (hfrom : fromAdvertisement a = .ok r) :
    Copies data o r := by
  have ht := Tracks.advertised hR hA hm hun hfrom
  rw [hm.packed, ResourceAdvertisement.unpack_pack hR (hm.fits hA _)] at hun
  cases hun
  obtain ⟨hash, randomHash, -, -, -, -, -, rfl, -⟩ := fromAdvertisement_ok hfrom
  have hflag : ∀ c : Bool, ((((0x01 : UInt8) ||| (c.toUInt8 <<< 1)) &&& 0x02) != 0) = c := by decide
  refine ⟨ht, fun i p hp => ?_, hm.totalSize, hflag _⟩
  simp [List.getElem?_replicate] at hp

omit [Crypto] [Rmp] in
theorem Copies.asked (hc : Copies data o r) (now : Nat) : Copies data o (r.nextRequest now).1 := by
  have ht := hc.toTracks.asked now
  rcases hc.sound.nextRequest_fst now with h | ⟨-, _, _, h⟩
  · rwa [h]
  · rw [h] at ht ⊢
    exact ⟨ht, hc.placed, hc.totalSize, hc.compressed⟩

omit [Rmp] in
/-- A part in its own slot keeps the copy right. -/
theorem Copies.stored (hc : Copies data o r) {p : Bytes} {i : Nat} (hp : o.parts[i]? = some p) (hacc : (r.onPart p).2 = true)
    (hset : (r.onPart p).1.parts = r.parts.set i (some p)) : Copies data o (r.onPart p).1 := by
  obtain ⟨_, -, _, _, _, heq, -⟩ := onPart_ok hacc
  refine ⟨hc.toTracks.part p, fun j q hq => ?_, by rw [heq]; exact hc.totalSize, by rw [heq]; exact hc.compressed⟩
  rw [hset] at hq
  by_cases hij : i = j
  · subst hij
    have hlt : i < r.parts.length := hc.slots ▸ (List.getElem?_eq_some_iff.mp hp).1
    rw [List.getElem?_set_self hlt] at hq
    cases hq
    exact hp
  · rw [List.getElem?_set_ne hij] at hq
    exact hc.placed j q hq

theorem Copies.updated (hR : Rmp.ReadsWritten) (hA : Crypto.AesInverts) (hm : Made data k o adv) (hc : Copies data o r)
    {segment : Nat} (h : segment * HASHMAP_MAX_LEN * MAPHASH_LEN < o.map.length) :
    Copies data o (r.onHashmapUpdate (o.segmentUpdate segment)).1 := by
  have ht := hc.toTracks.updated hR hA hm h
  obtain ⟨map, heq, -, -⟩ := hc.toTracks.onHashmapUpdate_segment hR hA hm h
  rw [heq] at ht ⊢
  exact ⟨ht, hc.placed, hc.totalSize, hc.compressed⟩

omit [Crypto] [Rmp] [Bzip2] in
/-- Nothing is forgotten, and a slot that lacked its part or its entry lacks it no longer. -/
theorem rest_lt {r r' : InboundResource} (hlen : r'.parts.length = r.parts.length) (hknown : ∀ i, r.Known i → r'.Known i)
    (hfilled : ∀ i : Nat, (∃ p, r.parts[i]? = some (some p)) → ∃ p, r'.parts[i]? = some (some p))
    (hless : (∃ i ∈ r.missing, i ∉ r'.missing) ∨ ∃ i ∈ r.unknown, i ∉ r'.unknown) : r'.rest < r.rest := by
  have hmissing : r'.missing ⊆ r.missing := by
    intro i hi
    rw [mem_missing] at hi ⊢
    have hlt : i < r.parts.length := hlen ▸ (List.getElem?_eq_some_iff.mp hi).1
    cases hp : r.parts[i] with
    | none => rw [List.getElem?_eq_getElem hlt, hp]
    | some p =>
      obtain ⟨q, hq⟩ := hfilled i ⟨p, by rw [List.getElem?_eq_getElem hlt, hp]⟩
      cases hi.symm.trans hq
  have hunknown : r'.unknown ⊆ r.unknown := by
    intro i hi
    rw [mem_unknown] at hi ⊢
    exact ⟨hlen ▸ hi.1, fun hk => hi.2 (hknown i hk)⟩
  unfold rest
  rcases hless with ⟨i, hi, hi'⟩ | ⟨i, hi, hi'⟩
  · exact Nat.add_lt_add_of_lt_of_le
      (Finset.card_lt_card (Finset.ssubset_iff_subset_ne.mpr ⟨hmissing, fun h => hi' (h ▸ hi)⟩)) (Finset.card_le_card hunknown)
  · exact Nat.add_lt_add_of_le_of_lt (Finset.card_le_card hmissing)
      (Finset.card_lt_card (Finset.ssubset_iff_subset_ne.mpr ⟨hunknown, fun h => hi' (h ▸ hi)⟩))

/-! ## One round -/

theorem slot_unique (hm : Made data k o adv) (hd : o.entries.Nodup) {i j : Nat} {p : Bytes} (hi : o.parts[i]? = some p)
    (hj : o.parts[j]? = some p) : i = j := by
  have hentry := hm.entry hi
  exact (List.getElem?_inj (List.getElem?_eq_some_iff.mp hentry).1 hd).mp (hentry.trans (hm.entry hj).symm)

omit [Crypto] [Rmp] [Bzip2] in
theorem new_entry (hd : o.entries.Nodup) {i : Nat} (hi : i < o.entries.length) : ∀ j < i, o.entries[j]? ≠ o.entries[i]? := by
  intro j hj h
  exact absurd ((List.getElem?_inj (Nat.lt_trans hj hi) hd).mp h) (Nat.ne_of_lt hj)

omit [Crypto] [Rmp] [Bzip2] in
theorem namedSlots_nodup (r : InboundResource) : r.namedSlots.Nodup := by
  unfold namedSlots
  split
  · exact List.nodup_nil
  · split
    · exact List.nodup_nil
    · exact List.Nodup.filter _ List.nodup_range'

/-- The parts that the request names go into their slots, in whatever order they arrive. -/
theorem Copies.takeAll_parts (hR : Rmp.ReadsWritten) (hA : Crypto.AesInverts) (hm : Made data k o adv) (hd : o.entries.Nodup)
    {s : Exchange} (ht : Tracks o s.receiver) {now t : Nat} {request : Bytes} (hreq : request ∈ (s.ask now).asked)
    {order : List ResourceOutput} (hnodup : order.Nodup)
    (hnamed : ∀ out ∈ order, out ∈ (o.onRequest request t).2 ∧
      ∃ i ∈ s.receiver.namedSlots, ∃ p, o.parts[i]? = some p ∧ out = .part p)
    (hlater : Later o (s.ask now) ⟨r, (s.ask now).asked⟩) (hc : Copies data o r)
    (hmissing : ∀ i ∈ s.receiver.namedSlots, ∀ p, o.parts[i]? = some p → .part p ∈ order → r.parts[i]? = some none) :
    AllTaken r order ∧ Copies data o (r.takeAll order) ∧
      Later o ⟨r, (s.ask now).asked⟩ ⟨r.takeAll order, (s.ask now).asked⟩ ∧
      ∀ (i : Nat) (p : Bytes), o.parts[i]? = some p → .part p ∈ order → ∃ q, (r.takeAll order).parts[i]? = some (some q) := by
  induction order generalizing r with
  | nil => exact ⟨trivial, hc, .refl, fun _ _ _ h => (nomatch h)⟩
  | cons out rest ih =>
    obtain ⟨hout, hrest⟩ := List.nodup_cons.mp hnodup
    obtain ⟨hanswer, i, hi, p, hp, rfl⟩ := hnamed out List.mem_cons_self
    have hempty := hmissing i hi p hp List.mem_cons_self
    obtain ⟨hacc, hset⟩ := ht.stores hR hA hm hi hp hlater hempty
    have hstep : TransferStep o ⟨r, (s.ask now).asked⟩ ⟨(r.onPart p).1, (s.ask now).asked⟩ := .part hreq hanswer
    have hmissing' : ∀ j ∈ s.receiver.namedSlots, ∀ q, o.parts[j]? = some q → .part q ∈ rest →
        (r.onPart p).1.parts[j]? = some none := by
      intro j hj q hq hmem
      have hij : i ≠ j := by
        rintro rfl
        cases hp.symm.trans hq
        exact hout hmem
      rw [hset, List.getElem?_set_ne hij]
      exact hmissing j hj q hq (List.mem_cons_of_mem _ hmem)
    obtain ⟨htaken, hcopy, hend, hfilled⟩ :=
      ih hrest (fun out h => hnamed out (List.mem_cons_of_mem _ h)) (hlater.tail hstep) (hc.stored hp hacc hset) hmissing'
    refine ⟨⟨hacc, htaken⟩, hcopy, .head hstep hend, fun j q hq hmem => ?_⟩
    rcases List.mem_cons.mp hmem with hqp | hmem
    · cases hqp
      obtain rfl := slot_unique hm hd hp hq
      have hlt : i < r.parts.length := (List.getElem?_eq_some_iff.mp hempty).1
      refine (hend.tracks hR hA hm (hc.stored hp hacc hset).toTracks).2.2 i ⟨p, ?_⟩
      rw [hset, List.getElem?_set_self hlt]
    · exact hfilled j q hq hmem

/-- What a round comes to: everything is taken, the copy stays right and less is left. -/
structure Advances (data : Bytes) (o : OutboundResource) (r r' : InboundResource) (order : List ResourceOutput) : Prop where
  taken : AllTaken r' order
  copy : Copies data o (r'.takeAll order)
  less : (r'.takeAll order).rest < r.rest

theorem Copies.advances_parts (hR : Rmp.ReadsWritten) (hA : Crypto.AesInverts) (hm : Made data k o adv) (hd : o.entries.Nodup)
    (hc : Copies data o r) {now t : Nat} {request : Bytes} (hreq : (r.nextRequest now).2 = some request)
    (hnone : r.unknownFirst = none)
    (hrequest : request =
      HASHMAP_IS_NOT_EXHAUSTED :: (r.hash.1 ++ (r.namedSlots.filterMap fun i => (r.map[i]?).join).flatMap (·.1)))
    {order : List ResourceOutput} (horder : order.Perm (o.onRequest request t).2) :
    Advances data o r (r.nextRequest now).1 order := by
  have ht := hc.toTracks
  have hentries := hm.length_entries
  have hslot (i : Nat) (hi : i ∈ r.namedSlots) : i < o.parts.length :=
    ht.slots ▸ (List.getElem?_eq_some_iff.mp (mem_namedSlots hi).1).1
  have hfound : ∀ i ∈ r.namedSlots, o.FoundFirst i := fun i hi => foundFirst_of_new (new_entry hd (hentries ▸ hslot i hi))
  have hanswer := (ht.parts_answer_iff t).mpr hfound
  rw [← hrequest] at hanswer
  have hnodup : order.Nodup := by
    rw [horder.nodup_iff, hanswer]
    refine r.namedSlots_nodup.filterMap fun i j out hi hj => ?_
    obtain ⟨p, hp, rfl⟩ := Option.map_eq_some_iff.mp hi
    obtain ⟨q, hq, hpq⟩ := Option.map_eq_some_iff.mp hj
    cases hpq
    exact slot_unique hm hd hp hq
  have hask : request ∈ (Exchange.ask ⟨r, []⟩ now).asked := by simp [Exchange.ask, hreq]
  have hparts : (r.nextRequest now).1.parts = r.parts := by
    rcases ht.sound.nextRequest_fst now with h | ⟨-, _, _, h⟩ <;> rw [h]
  obtain ⟨htaken, hcopy, hlater, hfilled⟩ := Copies.takeAll_parts (s := ⟨r, []⟩) hR hA hm hd ht hask hnodup
    (fun out hout => by
      have hmem := horder.subset hout
      refine ⟨hmem, ?_⟩
      rw [hanswer] at hmem
      obtain ⟨i, hi, hout⟩ := List.mem_filterMap.mp hmem
      obtain ⟨p, hp, rfl⟩ := Option.map_eq_some_iff.mp hout
      exact ⟨i, hi, p, hp, rfl⟩)
    .refl (hc.asked now) (fun i hi _ _ _ => by rw [hparts]; exact (mem_namedSlots hi).1)
  refine ⟨htaken, hcopy, ?_⟩
  -- the first missing slot is among those named
  obtain ⟨first, hfirst⟩ : ∃ i, r.parts.findIdx? Option.isNone = some i := by
    refine firstMissing_of_incomplete (Bool.eq_false_iff.mpr fun h => ?_)
    rw [nextRequest_complete h] at hreq
    cases hreq
  have hknown : r.Known first := by
    simpa [unknownFirst, hfirst, Option.filter_eq_none_iff, ← known_iff_join] using hnone
  have hnamed := mem_namedSlots_first ht.sound.window hfirst hknown
  obtain ⟨p, hp⟩ : ∃ p, o.parts[first]? = some p := ⟨_, List.getElem?_eq_getElem (hslot first hnamed)⟩
  have hmem : .part p ∈ order := by
    refine horder.symm.subset ?_
    rw [hanswer]
    exact List.mem_filterMap.mpr ⟨first, hnamed, by rw [hp]; rfl⟩
  have hend : Later o ⟨r, []⟩ ⟨(r.nextRequest now).1.takeAll order, (Exchange.ask ⟨r, []⟩ now).asked⟩ :=
    .head (.asked now) hlater
  have hkeeps := hend.tracks hR hA hm ht
  refine rest_lt (hcopy.slots.trans ht.slots.symm) hkeeps.2.1 hkeeps.2.2
    (.inl ⟨first, mem_missing.mpr (firstMissing_spec hfirst).1, fun h => ?_⟩)
  obtain ⟨q, hq⟩ := hfilled first p hp hmem
  cases (mem_missing.mp h).symm.trans hq

theorem Copies.advances_map (hR : Rmp.ReadsWritten) (hA : Crypto.AesInverts) (hm : Made data k o adv) (hd : o.entries.Nodup)
    (hc : Copies data o r) {now t first : Nat} {known : Arr 4} (hpos : 0 < first) (hlt : first < r.parts.length)
    (hunknown : ¬ r.Known first) (hlast : r.map[first - 1]? = some (some known)) {order : List ResourceOutput}
    (horder : order.Perm (o.onRequest (HASHMAP_IS_EXHAUSTED :: (known.1 ++ r.hash.1)) t).2) :
    Advances data o r (r.nextRequest now).1 order := by
  have ht := hc.toTracks
  have hasked := ht.asked now
  have hinside : first / HASHMAP_MAX_LEN * HASHMAP_MAX_LEN * MAPHASH_LEN < o.map.length := by
    obtain ⟨-, hstart⟩ := ht.unknown_boundary hpos hlt hunknown ⟨known, hlast⟩
    rw [← hstart, hm.length_map, ← ht.slots, MAPHASH_LEN]
    omega
  have hnew := new_entry hd (i := first - 1) (by rw [hm.length_entries, ← ht.slots]; omega)
  rw [(ht.update_answer_iff hR hA hm hpos hlt hunknown hlast t).mpr hnew, List.perm_singleton] at horder
  subst horder
  have hsame : (r.nextRequest now).1.parts = r.parts ∧ (r.nextRequest now).1.map = r.map := by
    rcases ht.sound.nextRequest_fst now with h | ⟨-, _, _, h⟩ <;> rw [h] <;> exact ⟨rfl, rfl⟩
  obtain ⟨map, heq, hlength, hmap⟩ := hasked.onHashmapUpdate_segment hR hA hm hinside
  have hcopy := (hc.asked now).updated hR hA hm hinside
  have htake : ((r.nextRequest now).1.take (.hashmapUpdate (o.segmentUpdate (first / HASHMAP_MAX_LEN)))) =
      (((r.nextRequest now).1.onHashmapUpdate (o.segmentUpdate (first / HASHMAP_MAX_LEN))).1, true) := by
    simp only [take, heq]
    rfl
  refine ⟨⟨by rw [htake], trivial⟩, by simpa only [takeAll, List.foldl_cons, List.foldl_nil, htake] using hcopy, ?_⟩
  simp only [takeAll, List.foldl_cons, List.foldl_nil, htake]
  rw [heq]
  have hknown (i : Nat) (hi : i < r.parts.length) : r.Known i → ∃ e, map[i]? = some (some e) := by
    rintro ⟨e, he⟩
    have hi' : i < (r.nextRequest now).1.parts.length := by rwa [hsame.1]
    by_cases hseg : i / HASHMAP_MAX_LEN = first / HASHMAP_MAX_LEN
    · obtain ⟨e', he', -⟩ := (hmap i hi').1 hseg
      exact ⟨e', he'⟩
    · exact ⟨e, by rw [(hmap i hi').2 hseg, hsame.2, he]⟩
  refine rest_lt (congrArg List.length hsame.1) (fun i hi => ?_) (fun i hi => by rwa [← hsame.1] at hi)
    (.inr ⟨first, mem_unknown.mpr ⟨hlt, hunknown⟩, fun h => (mem_unknown.mp h).2 ?_⟩)
  · have hin : i < r.parts.length := by
      obtain ⟨e, he⟩ := hi
      exact ht.sound.slots ▸ (List.getElem?_eq_some_iff.mp he).1
    exact hknown i hin hi
  · obtain ⟨e, he, -⟩ := (hmap first (by rwa [hsame.1])).1 rfl
    exact ⟨e, he⟩

/-- Whatever is asked, the round advances the transfer. -/
theorem Copies.advances (hR : Rmp.ReadsWritten) (hA : Crypto.AesInverts) (hm : Made data k o adv) (hd : o.entries.Nodup)
    (hc : Copies data o r) {now t : Nat} {request : Bytes} (hreq : (r.nextRequest now).2 = some request)
    {order : List ResourceOutput} (horder : order.Perm (o.onRequest request t).2) :
    Advances data o r (r.nextRequest now).1 order := by
  rcases hc.sound.request_cases hreq with ⟨hnone, hrequest⟩ | ⟨first, known, -, hpos, hlt, hunknown, hlast, rfl⟩
  · exact hc.advances_parts hR hA hm hd hreq hnone hrequest horder
  · exact hc.advances_map hR hA hm hd hpos hlt hunknown hlast horder

/-! ## The end -/

omit [Crypto] [Rmp] in
/-- What was compressed is restored, and what was not is sent as it is. -/
theorem compressIfUseful_cases (hB : Bzip2.DecodesEncoded) {data : Bytes} (h : data.length ≤ MAX_EFFICIENT_SIZE) :
    (compressIfUseful data).2 = true ∧ decompressPayload (compressIfUseful data).1 = .ok data ∨
      compressIfUseful data = (data, false) := by
  have hsmall : data.length ≤ MAX_DECOMPRESSED_SIZE := Nat.le_trans h (by decide)
  unfold compressIfUseful
  split
  · rename_i hon
    rw [if_neg (Nat.not_lt.mpr hsmall)]
    split
    · rename_i compressed henc
      split
      · refine .inl ⟨rfl, ?_⟩
        unfold decompressPayload
        rw [if_pos hon, hB data compressed _ henc (Nat.lt_succ_of_le hsmall)]
        exact if_neg (Nat.not_lt.mpr hsmall)
      · exact .inr rfl
    · exact .inr rfl
  · exact .inr rfl

omit [Crypto] [Rmp] in
theorem Copies.parts_of_complete (hc : Copies data o r) (hcomplete : r.isComplete = true) : r.parts = o.parts.map some := by
  refine List.ext_getElem? fun i => ?_
  rw [List.getElem?_map]
  by_cases hi : i < r.parts.length
  · obtain ⟨p, hp⟩ := Option.isSome_iff_exists.mp (isComplete_iff.mp hcomplete _ (List.getElem_mem hi))
    have hget : r.parts[i]? = some (some p) := by rw [List.getElem?_eq_getElem hi, hp]
    rw [hget, hc.placed i p hget]
    rfl
  · rw [List.getElem?_eq_none (Nat.le_of_not_lt hi), List.getElem?_eq_none (by rw [← hc.slots]; exact Nat.le_of_not_lt hi)]
    rfl

theorem Copies.finalize (hA : Crypto.AesInverts) (hB : Bzip2.DecodesEncoded) (hm : Made data k o adv) (hc : Copies data o r)
    (hcomplete : r.isComplete = true) : r.finalize k = .ok data := by
  obtain ⟨pre, iv, hparts, -⟩ := hm.sealed
  have hstream : reassemble (r.parts.filterMap id) = Token.sealWithKey k (pre.1 ++ (compressIfUseful data).1) iv := by
    rw [hc.parts_of_complete hcomplete, List.filterMap_map, Function.id_comp, List.filterMap_some, hparts, splitParts,
      if_neg (by decide), reassemble]
    exact Bytes.flatten_chunks (by decide) _
  have hpayload : r.payload k = .ok data := by
    have hlong : ¬ (pre.1 ++ (compressIfUseful data).1).length < RANDOM_HASH_SIZE := by
      rw [List.length_append, pre.2, RANDOM_HASH_SIZE]
      omega
    have hdrop : (pre.1 ++ (compressIfUseful data).1).drop RANDOM_HASH_SIZE = (compressIfUseful data).1 := List.drop_left' pre.2
    unfold payload
    rw [hstream, Token.openWithKey_sealWithKey hA, hc.compressed]
    simp only [bind, Except.bind, hlong, if_false, pure, Except.pure, hdrop]
    rcases compressIfUseful_cases hB hm.efficient with ⟨hflag, hdata⟩ | hsame
    · rw [hflag, if_pos rfl, hdata]
    · rw [hsame]
      rfl
  have hsize : ¬ (data.length ≠ r.totalSize ∨ resourceHash data r.randomHash ≠ r.hash) := by
    rw [hc.totalSize, hc.randomHash, hc.hash, hm.hash]
    simp
  unfold InboundResource.finalize
  rw [hcomplete, if_neg (by decide), hpayload]
  simp only [bind, Except.bind, hsize, if_false]
  rfl

/-- The sender of the loop is the one that made the resource, but for the time of its last answer. -/
def SenderOf (o sender : OutboundResource) : Prop := ∃ time, sender = { o with lastActivity := time }

omit [Crypto] [Bzip2] in
theorem SenderOf.onRequest {sender : OutboundResource} (h : SenderOf o sender) (request : Bytes) (t : Nat) :
    SenderOf o (sender.onRequest request t).1 ∧ (sender.onRequest request t).2 = (o.onRequest request t).2 := by
  obtain ⟨time, rfl⟩ := h
  unfold OutboundResource.onRequest
  cases request with
  | nil => exact ⟨⟨time, rfl⟩, rfl⟩
  | cons flag rest =>
    dsimp only
    generalize (if flag = HASHMAP_IS_EXHAUSTED then 1 + MAPHASH_LEN else 1) = pad
    by_cases hhead : (flag :: rest).length < pad + 32 ∨ ((flag :: rest).drop pad).take 32 ≠ o.hash.1
    · rw [if_pos hhead, if_pos hhead]
      exact ⟨⟨time, rfl⟩, rfl⟩
    · rw [if_neg hhead, if_neg hhead]
      by_cases htail : ((flag :: rest).drop (pad + 32)).length % MAPHASH_LEN ≠ 0
      · rw [if_pos htail, if_pos htail]
        exact ⟨⟨time, rfl⟩, rfl⟩
      · rw [if_neg htail, if_neg htail]
        exact ⟨⟨t, rfl⟩, rfl⟩

theorem Copies.onProof (hm : Made data k o adv) (hc : Copies data o r) {sender : OutboundResource} (h : SenderOf o sender) :
    (sender.onProof (r.proofPacket data)).2 = true := by
  obtain ⟨time, rfl⟩ := h
  have hlen : (r.proofPacket data).length = 64 := by
    rw [proofPacket, List.length_append, r.hash.2, (resourceProof data r.hash).2]
  have htake : (r.proofPacket data).take 32 = o.hash.1 := by
    rw [proofPacket, List.take_left' r.hash.2, hc.hash]
  have hdrop : (r.proofPacket data).drop 32 = o.expectedProof.1 := by
    rw [proofPacket, List.drop_left' r.hash.2, hm.proof, hc.hash]
  simp [OutboundResource.onProof, hlen, htake, hdrop]

/-! ## The whole loop -/

/-- A state of the loop: both ends as they should be, and no more rounds behind it than slots filled. -/
structure Looping (data : Bytes) (o : OutboundResource) (rounds : Nat) (s : Session) : Prop where
  sender : SenderOf o s.sender
  copy : Copies data o s.receiver
  bound : rounds + s.receiver.rest ≤ 2 * o.parts.length

theorem Looping.round (hR : Rmp.ReadsWritten) (hA : Crypto.AesInverts) (hm : Made data k o adv) (hd : o.entries.Nodup)
    {n : Nat} {s s' : Session} {l : Turn} (h : Looping data o n s) (hround : Round s l s') : Looping data o (n + 1) s' := by
  obtain ⟨hreq, hanswers⟩ := hround
  obtain ⟨hsender, hsame⟩ := h.sender.onRequest _ l.answered
  have hadv := h.copy.advances hR hA hm hd hreq (hsame ▸ hanswers)
  have hless := hadv.less
  have hbound := h.bound
  exact ⟨hsender, hadv.copy, by dsimp only; omega⟩

theorem Looping.run (hR : Rmp.ReadsWritten) (hA : Crypto.AesInverts) (hm : Made data k o adv) (hd : o.entries.Nodup)
    {s s' : Session} {tr : List Turn} (h : Looping data o 0 s) (hrun : Lts.Run Round s tr s') :
    Looping data o tr.length s' := by
  refine hrun.history (I := fun tr s => Looping data o tr.length s) h fun tr t l u hi hst => ?_
  rw [List.length_append]
  exact hi.round hR hA hm hd hst

/-- The map entries of the first draw. -/
def firstEntries (data : Bytes) (k : Arr 64) (rng : Entropy) : List Bytes :=
  let (pre, rng) := Reticulum.randomHash rng
  let (iv, rng) := rng.fill 16
  let parts := splitParts (Token.sealWithKey k (pre.1 ++ (compressIfUseful data).1) iv) RESOURCE_SDU
  parts.map fun p => (mapHash p (Reticulum.randomHash rng).1).1

/-- Distinct entries pass the guard at once. -/
theorem new_of_distinct (hne : data ≠ []) (hmax : data.length ≤ MAX_EFFICIENT_SIZE) {rng : Entropy}
    (hd : (firstEntries data k rng).Nodup) (fuel now : Nat) :
    ∃ o adv rng', OutboundResource.new (fuel + 1) data k rng now = some (.ok (o, adv), rng') ∧ o.entries.Nodup := by
  have hsize : ¬ (data = [] ∨ data.length > MAX_EFFICIENT_SIZE) := by
    rintro (h | h)
    · exact hne h
    · exact Nat.not_lt.mpr hmax h
  have hchunks (parts : List Bytes) (random : Arr 4) : Bytes.chunksExact MAPHASH_LEN (hashmap parts random) =
      parts.map fun p => (mapHash p random).1 :=
    Bytes.chunksExact_flatMap (fun p => (mapHash p random).2) (by decide) _
  have hguarded : Guarded (firstEntries data k rng) := by
    intro i j e hij hi hj
    have hsame := (List.getElem?_inj (List.getElem?_eq_some_iff.mp hi).1 hd).mp (hi.trans hj.symm)
    exact absurd hsame (Nat.ne_of_lt hij)
  obtain ⟨map, rng', hdraw⟩ : ∃ map rng', drawMap (splitParts (Token.sealWithKey k
      ((Reticulum.randomHash rng).1.1 ++ (compressIfUseful data).1) ((Reticulum.randomHash rng).2.fill 16).1) RESOURCE_SDU)
      (fuel + 1) ((Reticulum.randomHash rng).2.fill 16).2 =
        some ((Reticulum.randomHash ((Reticulum.randomHash rng).2.fill 16).2).1, map, rng') := by
    unfold drawMap
    dsimp only
    rw [hchunks, collides_of_guarded hguarded (Nat.zero_le _), if_neg Bool.false_ne_true]
    exact ⟨_, _, rfl⟩
  obtain ⟨o, adv, rng', hnew, hparts, hrandom⟩ := new_of_drawMap hsize rfl hdraw
  refine ⟨o, adv, rng', hnew, ?_⟩
  rw [(new_made hnew).entries_eq, hparts, hrandom]
  exact hd

/-- The loop from the advertisement on: it can always go on while parts are missing, everything that the sender answers is
taken, it ends, and at its end both sides have what they wait for. -/
structure Lossless (data : Bytes) (k : Arr 64) (o : OutboundResource) (r₀ : InboundResource) : Prop where
  bounded : ∀ {tr : List Turn} {s : Session}, Lts.Run Round ⟨o, r₀⟩ tr s → tr.length ≤ 2 * o.parts.length
  asks : ∀ {tr : List Turn} {s : Session}, Lts.Run Round ⟨o, r₀⟩ tr s → s.receiver.isComplete = false →
    ∀ now, (s.receiver.nextRequest now).2.isSome = true
  taken : ∀ {tr : List Turn} {s : Session}, Lts.Run Round ⟨o, r₀⟩ tr s → ∀ {now t : Nat} {request : Bytes}
    {order : List ResourceOutput}, (s.receiver.nextRequest now).2 = some request →
      order.Perm (s.sender.onRequest request t).2 → AllTaken (s.receiver.nextRequest now).1 order
  finished : ∀ {tr : List Turn} {s : Session}, Lts.Run Round ⟨o, r₀⟩ tr s → s.receiver.isComplete = true →
    (∀ now, (s.receiver.nextRequest now).2 = none) ∧ s.receiver.finalize k = .ok data ∧
      (s.sender.onProof (s.receiver.proofPacket data)).2 = true

theorem Looping.start (hR : Rmp.ReadsWritten) (hA : Crypto.AesInverts) (hm : Made data k o adv) {a : ResourceAdvertisement}
    (hun : ResourceAdvertisement.unpack adv = .ok a) (hfrom : fromAdvertisement a = .ok r) : Looping data o 0 ⟨o, r⟩ := by
  have hc := Copies.advertised hR hA hm hun hfrom
  refine ⟨⟨o.lastActivity, rfl⟩, hc, ?_⟩
  have := r.rest_le
  rw [hc.slots] at this
  dsimp only
  omega

theorem Looping.lossless (hR : Rmp.ReadsWritten) (hA : Crypto.AesInverts) (hB : Bzip2.DecodesEncoded) (hm : Made data k o adv)
    (hd : o.entries.Nodup) (h : Looping data o 0 ⟨o, r⟩) : Lossless data k o r where
  bounded hrun := by
    have := (h.run hR hA hm hd hrun).bound
    omega
  asks hrun hc now := by
    have hs := (h.run hR hA hm hd hrun).copy
    obtain ⟨request, _, _, hnext⟩ := hs.sound.nextRequest hc hs.known now
    rw [hnext]
    rfl
  taken hrun := by
    intro now t request order hreq horder
    have hs := h.run hR hA hm hd hrun
    rw [(hs.sender.onRequest _ _).2] at horder
    exact (hs.copy.advances hR hA hm hd hreq horder).taken
  finished hrun hc := by
    have hs := h.run hR hA hm hd hrun
    exact ⟨fun now => by rw [nextRequest_complete hc], hs.copy.finalize hA hB hm hc, hs.copy.onProof hm hs.sender⟩

end

end InboundResource

open InboundResource

/-- Every transfer whose map entries are distinct comes to its end without loss. -/
theorem transfer_completes [Crypto] [Rmp] [Bzip2] (hR : Rmp.ReadsWritten) (hA : Crypto.AesInverts) (hB : Bzip2.DecodesEncoded)
    {data : Bytes} (hne : data ≠ []) (hmax : data.length ≤ MAX_EFFICIENT_SIZE) (k : Arr 64) (rng : Entropy) :
    ((firstEntries data k rng).Nodup → ∀ fuel now, ∃ o adv rng',
      OutboundResource.new (fuel + 1) data k rng now = some (.ok (o, adv), rng') ∧ o.entries.Nodup) ∧
    ∀ {fuel now : Nat} {o : OutboundResource} {adv : Bytes} {rng' : Entropy},
      OutboundResource.new fuel data k rng now = some (.ok (o, adv), rng') → o.entries.Nodup →
      ∃ a r₀, ResourceAdvertisement.unpack adv = .ok a ∧ fromAdvertisement a = .ok r₀ ∧ Lossless data k o r₀ := by
  refine ⟨fun hd fuel now => new_of_distinct hne hmax hd fuel now, fun hnew hd => ?_⟩
  have hm := new_made hnew
  obtain ⟨a, r₀, hun, hfrom, -⟩ := accepted hR hA hm
  exact ⟨a, r₀, hun, hfrom, (Looping.start hR hA hm hun hfrom).lossless hR hA hB hm hd⟩

section
open Collision

/-- A transfer of 101 parts, the map of which takes two segments. -/
theorem transfer_completes_pages : ∃ o adv rng' a r₀,
    OutboundResource.new 1 (pages 100) key rng 0 = some (.ok (o, adv), rng') ∧ HASHMAP_MAX_LEN < o.parts.length ∧
      ResourceAdvertisement.unpack adv = .ok a ∧ fromAdvertisement a = .ok r₀ ∧ Lossless (pages 100) key o r₀ := by
  have hlen := length_pages 100
  have hne : pages 100 ≠ [] := by
    intro h
    rw [h, List.length_nil] at hlen
    omega
  have hmax : (pages 100).length ≤ MAX_EFFICIENT_SIZE := by
    rw [hlen]
    decide
  have hbzip2 : Bzip2.DecodesEncoded := fun _ _ _ h => nomatch h
  have hentries : firstEntries (pages 100) key rng = (List.range 101).map fun i => Sample.toBE 4 (number 100 i) := by
    unfold firstEntries
    dsimp only
    rw [parts_eq (Nat.succ_pos 99), rng_fill.2.2, mapHashes_eq]
  have h := transfer_completes Sample.readsWritten aesInverts hbzip2 hne hmax key rng
  obtain ⟨o, adv, rng', hnew, hd⟩ := h.1 (hentries ▸ distinct (by decide)) 0 0
  obtain ⟨a, r₀, hun, hfrom, hlossless⟩ := h.2 hnew hd
  have hparts : o.parts.length = 101 := by
    obtain ⟨pre, iv, hparts, -⟩ := (new_made hnew).sealed
    rw [hparts, splitParts, if_neg (by decide), Bytes.length_chunks, Token.sealWithKey, Token.length_sealParts aesInverts,
      List.length_append, compressIfUseful_off, hlen, pre.2]
    rfl
  refine ⟨o, adv, rng', a, r₀, hnew, ?_, hun, hfrom, hlossless⟩
  rw [hparts]
  decide

end

end Reticulum
