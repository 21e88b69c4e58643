import Reticulum.Exchange
import Reticulum.Sample

/-!
# Which requests are served

The sender searches its map for the entries of a request, and for the entry
before a boundary of the map. It finds the slot that the receiver means, except
where an entry is repeated.
-/

namespace Reticulum

open OutboundResource

section
variable [Crypto] [Rmp]

namespace InboundResource

variable [Bzip2] {o : OutboundResource} {adv data : Bytes} {k : Arr 64} {r : InboundResource} {s : Exchange}

/-! ## What is served -/

/-- The sender's search ends at the slots that the request names, and at the last slot before the
unknown segment. -/
structure FindsNamed (o : OutboundResource) (r : InboundResource) : Prop where
  slots : ∀ i ∈ r.namedSlots, o.FoundFirst i
  boundary : ∀ first, r.unknownFirst = some first → ∀ j < first - 1, o.entries[j]? ≠ o.entries[first - 1]?

omit [Bzip2] in
/-- The request is answered with what it asks for, and the receiver puts each part where it belongs. -/
structure ServedRight (o : OutboundResource) (s : Exchange) (now : Nat) (request : Bytes) (t : Nat) : Prop where
  parts : s.receiver.unknownFirst = none →
    (o.onRequest request t).2 = s.receiver.namedSlots.filterMap fun i => (o.parts[i]?).map .part
  stored : ∀ i ∈ s.receiver.namedSlots, ∀ p, o.parts[i]? = some p → ∀ s', Later o (s.ask now) s' →
    s'.receiver.parts[i]? = some none →
      (s'.receiver.onPart p).2 = true ∧ (s'.receiver.onPart p).1.parts = s'.receiver.parts.set i (some p)
  update : ∀ first, s.receiver.unknownFirst = some first → ∃ segment, 0 < segment ∧ first = segment * HASHMAP_MAX_LEN ∧
    (o.onRequest request t).2 = [.hashmapUpdate (o.segmentUpdate segment)]

omit [Crypto] [Rmp] [Bzip2] in
theorem filterMap_eq_iff {α β : Type} {l : List α} {f g : α → Option β} (hf : ∀ a ∈ l, (f a).isSome)
    (hg : ∀ a ∈ l, (g a).isSome) : l.filterMap f = l.filterMap g ↔ ∀ a ∈ l, f a = g a := by
  induction l with
  | nil => simp
  | cons a l ih =>
    obtain ⟨b, hb⟩ := Option.isSome_iff_exists.mp (hf a List.mem_cons_self)
    obtain ⟨c, hc⟩ := Option.isSome_iff_exists.mp (hg a List.mem_cons_self)
    have ih := ih (fun a ha => hf a (List.mem_cons_of_mem _ ha)) (fun a ha => hg a (List.mem_cons_of_mem _ ha))
    rw [List.filterMap_cons_some hb, List.filterMap_cons_some hc, List.cons.injEq, ih, List.forall_mem_cons, hb, hc,
      Option.some.injEq]

omit [Crypto] [Bzip2] in
theorem Tracks.parts_answer_iff (ht : Tracks o r) (t : Nat) :
    (o.onRequest (HASHMAP_IS_NOT_EXHAUSTED ::
      (r.hash.1 ++ (r.namedSlots.filterMap fun i => (r.map[i]?).join).flatMap (·.1))) t).2 =
        (r.namedSlots.filterMap fun i => (o.parts[i]?).map .part) ↔ ∀ i ∈ r.namedSlots, o.FoundFirst i := by
  have hslot (i : Nat) (hi : i ∈ r.namedSlots) :
      ∃ (e : Arr 4) (p : Bytes), r.map[i]? = some (some e) ∧ o.entries[i]? = some e.1 ∧ o.parts[i]? = some p := by
    obtain ⟨hmissing, ⟨e, he⟩, -⟩ := mem_namedSlots hi
    have hlt : i < o.parts.length := ht.slots ▸ (List.getElem?_eq_some_iff.mp hmissing).1
    exact ⟨e, _, he, ht.entries i e he, List.getElem?_eq_getElem hlt⟩
  rw [ht.hash, onRequest_named, List.filterMap_filterMap, filterMap_eq_iff]
  · refine forall₂_congr fun i hi => ?_
    obtain ⟨e, p, he, hentry, hp⟩ := hslot i hi
    rw [← slotOf_part_iff hentry, he, Option.join_some, Option.bind_some]
    obtain ⟨j, -, hj, -, -⟩ := slotOf_spec hentry
    rw [hj, Option.bind_some, Option.bind_some]
    exact (Option.map_injective fun a b hab => ResourceOutput.part.inj hab).eq_iff
  · intro i hi
    obtain ⟨e, p, he, hentry, hp⟩ := hslot i hi
    obtain ⟨j, hle, hj, -, -⟩ := slotOf_spec hentry
    have hlt : j < o.parts.length := Nat.lt_of_le_of_lt hle (List.getElem?_eq_some_iff.mp hp).1
    simp [he, hj, hlt]
  · intro i hi
    obtain ⟨e, p, he, hentry, hp⟩ := hslot i hi
    rw [hp]
    rfl

omit [Crypto] [Rmp] [Bzip2] in
/-- A segment the receiver does not know begins where the known one ends. -/
theorem Tracks.unknown_boundary (ht : Tracks o r) {first : Nat} (hpos : 0 < first) (hlt : first < r.parts.length)
    (hunknown : ¬ r.Known first) (hknown : r.Known (first - 1)) :
    0 < first / HASHMAP_MAX_LEN ∧ first = first / HASHMAP_MAX_LEN * HASHMAP_MAX_LEN := by
  have hne : (first - 1) / HASHMAP_MAX_LEN ≠ first / HASHMAP_MAX_LEN := by
    intro hseg
    exact hunknown (ht.segments _ _ hseg hlt hknown)
  rw [HASHMAP_MAX_LEN] at *
  omega

theorem Tracks.update_answer_iff (hR : Rmp.ReadsWritten) (hA : Crypto.AesInverts) (hm : Made data k o adv) (ht : Tracks o r)
    {first : Nat} {known : Arr 4} (hpos : 0 < first) (hlt : first < r.parts.length) (hunknown : ¬ r.Known first)
    (hlast : r.map[first - 1]? = some (some known)) (t : Nat) :
    (o.onRequest (HASHMAP_IS_EXHAUSTED :: (known.1 ++ r.hash.1)) t).2 =
        [.hashmapUpdate (o.segmentUpdate (first / HASHMAP_MAX_LEN))] ↔
      ∀ j < first - 1, o.entries[j]? ≠ o.entries[first - 1]? := by
  obtain ⟨hseg, hstart⟩ := ht.unknown_boundary hpos hlt hunknown ⟨known, hlast⟩
  have hentry := ht.entries _ _ hlast
  have hlen := hm.length_map
  have hinside : first * MAPHASH_LEN < o.map.length := by
    rw [hlen, ← ht.slots, MAPHASH_LEN]
    omega
  rw [ht.hash, onRequest_exhausted, ← slotOf_eq_iff hentry]
  constructor
  · intro hanswer
    obtain ⟨j, -, hj, -, -⟩ := slotOf_spec hentry
    rw [hj] at hanswer ⊢
    dsimp only [Option.elim] at hanswer
    unfold updateAfter at hanswer
    by_cases hend : (j + 1) % HASHMAP_MAX_LEN = 0 ∧ (j + 1) * MAPHASH_LEN < o.map.length
    · rw [if_pos hend, List.cons.injEq, ResourceOutput.hashmapUpdate.injEq] at hanswer
      have hj : (j + 1) / HASHMAP_MAX_LEN * HASHMAP_MAX_LEN = j + 1 := Nat.div_mul_cancel (Nat.dvd_of_mod_eq_zero hend.1)
      -- the update says which segment it is
      have hsame := congrArg unpackHashmapUpdate hanswer.1
      rw [segmentUpdate_read hR hA hm (by rw [hj]; exact hend.2),
        segmentUpdate_read hR hA hm (by rwa [← hstart])] at hsame
      have hsame : (j + 1) / HASHMAP_MAX_LEN = first / HASHMAP_MAX_LEN := (Prod.mk.inj (Prod.mk.inj (Except.ok.inj hsame)).2).1
      rw [hsame, ← hstart] at hj
      rw [hj, Nat.add_sub_cancel]
    · rw [if_neg hend] at hanswer
      cases hanswer
  · intro hj
    have hsucc : first - 1 + 1 = first := Nat.sub_add_cancel hpos
    have hend : first % HASHMAP_MAX_LEN = 0 := by
      rw [HASHMAP_MAX_LEN] at *
      omega
    rw [hj]
    dsimp only [Option.elim]
    rw [updateAfter, hsucc, if_pos ⟨hend, hinside⟩]

/-! ## Slot by slot -/

omit [Crypto] [Rmp] [Bzip2] in
/-- The first `f` slots are filled, and no other. -/
def FilledTo (r : InboundResource) (f : Nat) : Prop := ∀ i : Nat, i < r.parts.length → (r.parts[i]? = some none ↔ f ≤ i)

omit [Crypto] [Rmp] [Bzip2] in
theorem FilledTo.first {f : Nat} (h : r.FilledTo f) (hf : f < r.parts.length) : r.parts.findIdx? Option.isNone = some f := by
  refine List.findIdx?_eq_some_iff_getElem.mpr ⟨hf, ?_, fun j hj => ?_⟩
  · have := (h f hf).mpr (Nat.le_refl f)
    rw [(List.getElem?_eq_some_iff.mp this).2]
    rfl
  · have hlt := Nat.lt_trans hj hf
    have hsome : r.parts[j]? ≠ some none := fun hnone => absurd ((h j hlt).mp hnone) (by omega)
    rw [List.getElem?_eq_getElem hlt, ne_eq, Option.some.injEq] at hsome
    simpa using hsome

omit [Crypto] [Rmp] [Bzip2] in
theorem FilledTo.incomplete {f : Nat} (h : r.FilledTo f) (hf : f < r.parts.length) : r.isComplete = false := by
  rw [Bool.eq_false_iff]
  intro hc
  have := isComplete_iff.mp hc none (List.mem_of_getElem? ((h f hf).mpr (Nat.le_refl f)))
  cases this

omit [Bzip2] in
theorem InTransfer.step {s' : Exchange} (h : InTransfer o adv s) (hst : TransferStep o s s') : InTransfer o adv s' := by
  obtain ⟨a, r₀, hun, hfrom, hlater⟩ := h
  exact ⟨a, r₀, hun, hfrom, hlater.tail hst⟩

/-- The map reaches the first missing slot, by an update if need be. -/
theorem InTransfer.learn (hR : Rmp.ReadsWritten) (hA : Crypto.AesInverts) (hm : Made data k o adv) (h : InTransfer o adv s)
    {f : Nat} (hfilled : s.receiver.FilledTo f) (hf : f < s.receiver.parts.length)
    (hlast : ∀ j < f - 1, o.entries[j]? ≠ o.entries[f - 1]?) :
    ∃ s', InTransfer o adv s' ∧ s'.receiver.FilledTo f ∧ s'.receiver.Known f := by
  by_cases hknown : s.receiver.Known f
  · exact ⟨s, h, hfilled, hknown⟩
  · have ht := h.tracks hR hA hm
    obtain ⟨request, out, waiting, hnext⟩ := ht.sound.nextRequest (hfilled.incomplete hf) ht.known 1
    have hreq : (s.receiver.nextRequest 1).2 = some request := by rw [hnext]
    rcases ht.sound.request_cases hreq with ⟨hnone, -⟩ | ⟨first, known, hsome, hpos, -, -, hentry, hrequest⟩
    · simp [unknownFirst, hfilled.first hf, Option.filter_eq_none_iff, ← known_iff_join, hknown] at hnone
    · obtain ⟨hfirst, -⟩ := Option.filter_eq_some_iff.mp hsome
      cases hfirst.symm.trans (hfilled.first hf)
      have hasked := ht.asked 1
      have hinside : f / HASHMAP_MAX_LEN * HASHMAP_MAX_LEN * MAPHASH_LEN < o.map.length := by
        obtain ⟨-, hstart⟩ := ht.unknown_boundary hpos hf hknown ⟨known, hentry⟩
        rw [← hstart, hm.length_map, ← ht.slots, MAPHASH_LEN]
        omega
      have hanswer := (ht.update_answer_iff hR hA hm hpos hf hknown hentry 1).mpr hlast
      rw [← hrequest] at hanswer
      have hasks : request ∈ (s.ask 1).asked := by simp [Exchange.ask, hreq]
      have hstep : TransferStep o (s.ask 1)
          ⟨((s.ask 1).receiver.onHashmapUpdate (o.segmentUpdate (f / HASHMAP_MAX_LEN))).1, (s.ask 1).asked⟩ :=
        .updated hasks (by rw [hanswer]; exact List.mem_singleton_self _)
      refine ⟨_, (h.step (.asked 1)).step hstep, ?_, ?_⟩
      · obtain ⟨map, heq, -⟩ := Tracks.onHashmapUpdate_segment hR hA hm hasked hinside
        rw [Exchange.ask, heq, hnext]
        exact hfilled
      · obtain ⟨map, heq, hlength, hmap⟩ := Tracks.onHashmapUpdate_segment hR hA hm hasked hinside
        rw [Exchange.ask, heq]
        obtain ⟨e, he, -⟩ := (hmap f (by rw [hnext]; exact hf)).1 rfl
        exact ⟨e, he⟩

theorem InTransfer.deliver (hR : Rmp.ReadsWritten) (hA : Crypto.AesInverts) (hm : Made data k o adv) (h : InTransfer o adv s)
    {f : Nat} (hfilled : s.receiver.FilledTo f) (hf : f < s.receiver.parts.length) (hknown : s.receiver.Known f)
    (hfound : o.FoundFirst f) : ∃ s', InTransfer o adv s' ∧ s'.receiver.FilledTo (f + 1) := by
  have ht := h.tracks hR hA hm
  have hfirst := hfilled.first hf
  have hmissing := (hfilled f hf).mpr (Nat.le_refl f)
  obtain ⟨request, out, waiting, hnext⟩ := ht.sound.nextRequest (hfilled.incomplete hf) ht.known 1
  have hreq : (s.receiver.nextRequest 1).2 = some request := by rw [hnext]
  have hnone : s.receiver.unknownFirst = none := by
    simp [unknownFirst, hfirst, Option.filter_eq_none_iff, ← known_iff_join, hknown]
  have hnamed : f ∈ s.receiver.namedSlots := mem_namedSlots_first ht.sound.window hfirst hknown
  obtain ⟨p, hp⟩ : ∃ p, o.parts[f]? = some p := ⟨_, List.getElem?_eq_getElem (ht.slots ▸ hf)⟩
  rcases ht.sound.request_cases hreq with ⟨-, hrequest⟩ | ⟨first, known, hsome, -⟩
  · have hmem : .part p ∈ (o.onRequest request 1).2 := by
      obtain ⟨e, he⟩ := hknown
      have hentry := ht.entries f e he
      have hfind := (slotOf_part_iff hentry).mpr hfound
      obtain ⟨j, -, hj, -, -⟩ := slotOf_spec hentry
      rw [hj, Option.bind_some, hp] at hfind
      rw [hrequest, ht.hash, onRequest_named]
      refine List.mem_filterMap.mpr ⟨e, List.mem_filterMap.mpr ⟨f, hnamed, by rw [he]; rfl⟩, ?_⟩
      rw [hj, Option.bind_some, hfind]
      rfl
    have hasks : request ∈ (s.ask 1).asked := by simp [Exchange.ask, hreq]
    have hstep : TransferStep o (s.ask 1) ⟨((s.ask 1).receiver.onPart p).1, (s.ask 1).asked⟩ := .part hasks hmem
    have hparts : (s.ask 1).receiver.parts = s.receiver.parts := by rw [Exchange.ask, hnext]
    have hset := (ht.stores hR hA hm hnamed hp .refl (by rw [hparts]; exact hmissing)).2
    refine ⟨_, (h.step (.asked 1)).step hstep, fun i hi => ?_⟩
    rw [hset, hparts] at hi ⊢
    rw [List.length_set] at hi
    by_cases hif : f = i
    · subst hif
      rw [List.getElem?_set_self hf]
      simp
    · rw [List.getElem?_set_ne hif, hfilled i hi]
      omega
  · cases hnone.symm.trans hsome

/-- As long as no entry repeats an earlier one, slot after slot is filled. -/
theorem InTransfer.fill (hR : Rmp.ReadsWritten) (hA : Crypto.AesInverts) (hm : Made data k o adv) {f : Nat}
    (hf : f ≤ o.parts.length) (hnew : ∀ i < f, ∀ j < i, o.entries[j]? ≠ o.entries[i]?) (h₀ : InTransfer o adv s)
    (hs : s.receiver.FilledTo 0) : ∃ s', InTransfer o adv s' ∧ s'.receiver.FilledTo f := by
  induction f with
  | zero => exact ⟨s, h₀, hs⟩
  | succ f ih =>
    obtain ⟨s₁, h₁, hfilled⟩ := ih (by omega) fun i hi => hnew i (by omega)
    have hlt : f < s₁.receiver.parts.length := by
      rw [(h₁.tracks hR hA hm).slots]
      omega
    have hlast : ∀ j < f - 1, o.entries[j]? ≠ o.entries[f - 1]? := hnew (f - 1) (by omega)
    obtain ⟨s₂, h₂, hfilled₂, hknown⟩ := h₁.learn hR hA hm hfilled hlt hlast
    have hlt₂ : f < s₂.receiver.parts.length := by
      rw [(h₂.tracks hR hA hm).slots]
      omega
    exact h₂.deliver hR hA hm hfilled₂ hlt₂ hknown (foundFirst_of_new (hnew f (Nat.lt_succ_self f)))

end InboundResource

open InboundResource

/-- A request of the transfer is served right exactly when the search from the start of the map
ends at the slots that it names. -/
theorem requested_part_served_iff [Bzip2] (hR : Rmp.ReadsWritten) (hA : Crypto.AesInverts) {data : Bytes} {k : Arr 64}
    {o : OutboundResource} {adv : Bytes} {fuel : Nat} {rng rng' : Entropy} {t₀ : Nat}
    (hnew : OutboundResource.new fuel data k rng t₀ = some (.ok (o, adv), rng')) {s : Exchange}
    (hs : InTransfer o adv s) {now : Nat} {request : Bytes} (hreq : (s.receiver.nextRequest now).2 = some request) (t : Nat) :
    ServedRight o s now request t ↔ FindsNamed o s.receiver := by
  have hm := new_made hnew
  have ht := hs.tracks hR hA hm
  rcases ht.sound.request_cases hreq with ⟨hnone, hrequest⟩ | ⟨first, known, hsome, hpos, hlt, hunknown, hlast, hrequest⟩
  · subst hrequest
    constructor
    · intro h
      exact ⟨(ht.parts_answer_iff t).mp (h.parts hnone), fun first hfirst => by cases hnone.symm.trans hfirst⟩
    · intro h
      exact ⟨fun _ => (ht.parts_answer_iff t).mpr h.slots, fun i hi p hp r' hlater => ht.stores hR hA hm hi hp hlater,
        fun first hfirst => by cases hnone.symm.trans hfirst⟩
  · subst hrequest
    obtain ⟨hseg, hstart⟩ := ht.unknown_boundary hpos hlt hunknown ⟨known, hlast⟩
    have hnamed : s.receiver.namedSlots = [] := namedSlots_of_unknown hsome
    have hiff := ht.update_answer_iff hR hA hm hpos hlt hunknown hlast t
    constructor
    · intro h
      refine ⟨fun i hi => (by rw [hnamed] at hi; cases hi), fun first' hfirst' => ?_⟩
      cases hsome.symm.trans hfirst'
      obtain ⟨segment, -, heq, hanswer⟩ := h.update first hsome
      have hpos' : 0 < HASHMAP_MAX_LEN := by decide
      rw [hstart, Nat.mul_right_cancel_iff hpos'] at heq
      exact hiff.mp (heq ▸ hanswer)
    · intro h
      refine ⟨fun hnone => (by cases hnone.symm.trans hsome), fun i hi => (by rw [hnamed] at hi; cases hi), fun first' hfirst' => ?_⟩
      cases hsome.symm.trans hfirst'
      exact ⟨_, hseg, hstart, hiff.mpr (h.boundary first hsome)⟩

end

/-! ## A repeated entry -/

open InboundResource

namespace Collision

theorem length_firstBytes (b : Bytes) : ((b ++ List.replicate 32 0).take 32).length = 32 := by simp

/-- The first bytes in place of a digest. -/
def firstBytes (b : Bytes) : Arr 32 := ⟨(b ++ List.replicate 32 0).take 32, length_firstBytes b⟩

@[reducible] def crypto : Crypto := { Sample.crypto with sha256 := firstBytes, hmac := fun _ _ => Sample.arr 32 0 }

@[reducible] def bzip2 : Bzip2 where
  compression := false
  encode _ := none
  decode _ _ := none

scoped instance instCrypto : Crypto := crypto

scoped instance instRmp : Rmp := Sample.rmp

scoped instance instBzip2 : Bzip2 := bzip2

theorem aesInverts : Crypto.AesInverts := by
  refine @Crypto.AesInverts.mk crypto (fun key iv p => ?_) (fun key iv p => ?_)
  · exact @Crypto.AesInverts.decrypt_encrypt Sample.crypto Sample.aesInverts key iv p
  · exact @Crypto.AesInverts.length_encrypt Sample.crypto Sample.aesInverts key iv p

def key : Arr 64 := Sample.arr 64 0

def rng : Entropy := fun _ => 0

/-- A part that begins with its number; the number of the last one is that of the first. -/
def block (i : Nat) : Bytes := Sample.toBE 4 (i % 226) ++ List.replicate 460 (if i = 226 then 1 else 0)

/-- The last part: padding and tag. -/
def tail : Bytes := List.replicate 16 16 ++ List.replicate 32 0

/-- What is sent, in this number of parts and the last one: the first part also holds what the sender puts before it. -/
def pages (count : Nat) : Bytes := ((List.range count).flatMap block).drop 20

def data : Bytes := pages 227

theorem length_block (i : Nat) : (block i).length = 464 := by
  rw [block, List.length_append, Sample.length_toBE, List.length_replicate]

section
variable {count : Nat}

theorem length_pages (count : Nat) : (pages count).length = count * 464 - 20 := by
  rw [pages, List.length_drop, Bytes.length_flatMap_of_length length_block, List.length_range]

theorem blocks_eq (hc : 0 < count) : (List.range count).flatMap block = List.replicate 20 0 ++ pages count := by
  obtain ⟨n, rfl⟩ := Nat.exists_eq_succ_of_ne_zero hc.ne'
  have hfirst : ((List.range (n + 1)).flatMap block).take 20 = List.replicate 20 0 := by
    rw [List.range_succ_eq_map, List.flatMap_cons, List.take_append_of_le_length (by rw [length_block]; decide)]
    decide
  rw [← hfirst, pages, List.take_append_drop]

theorem sealWithKey_full {p : Bytes} (h : p.length % 16 = 0) :
    Token.sealWithKey key p (Sample.arr 16 0) = List.replicate 16 0 ++ (p ++ tail) := by
  have hmask : Sample.mask (Token.splitKey key).2 (Sample.arr 16 0) = 0 := by decide
  have hpad : Sample.pad p = p ++ List.replicate 16 16 := by
    rw [Sample.pad, h]
    rfl
  have henc : Crypto.aesEncrypt (Token.splitKey key).2 (Sample.arr 16 0) p = p ++ List.replicate 16 16 := by
    show (Sample.pad p).map (· ^^^ Sample.mask _ _) = _
    rw [hmask, hpad]
    simp
  rw [Token.sealWithKey, Token.sealParts, henc, tail, List.append_assoc, List.append_assoc]
  rfl

theorem sealed_eq (hc : 0 < count) : Token.sealWithKey key (List.replicate 4 0 ++ pages count) (Sample.arr 16 0) =
    (List.range count).flatMap block ++ tail := by
  have hzeros : (List.replicate 20 (0 : UInt8)) = List.replicate 16 0 ++ List.replicate 4 0 := by decide
  have hlen := length_pages count
  rw [sealWithKey_full, blocks_eq hc, hzeros, List.append_assoc, List.append_assoc, List.append_assoc]
  rw [List.length_append, List.length_replicate]
  omega

theorem compressIfUseful_off (d : Bytes) : (compressIfUseful d).1 = d := by
  unfold compressIfUseful
  rw [if_neg (by decide)]

/-- Every draw from this source is zero. -/
theorem rng_fill : (Reticulum.randomHash rng).1 = Sample.arr 4 0 ∧ ((Reticulum.randomHash rng).2.fill 16).1 = Sample.arr 16 0 ∧
    (Reticulum.randomHash ((Reticulum.randomHash rng).2.fill 16).2).1 = Sample.arr 4 0 := by decide

theorem parts_eq (hc : 0 < count) : splitParts (Token.sealWithKey key ((Reticulum.randomHash rng).1.1 ++
    (compressIfUseful (pages count)).1) ((Reticulum.randomHash rng).2.fill 16).1) RESOURCE_SDU =
      (List.range count).map block ++ [tail] := by
  have hpre : (Sample.arr 4 0).1 = List.replicate 4 0 := rfl
  rw [rng_fill.1, rng_fill.2.1, hpre, compressIfUseful_off, sealed_eq hc, splitParts, if_neg (by decide)]
  exact Bytes.chunks_flatMap_append length_block _ (by decide) (by decide)

/-- The number that the map entry of a slot spells. -/
def number (count i : Nat) : Nat := if i < count then i % 226 else 0x10101010

theorem mapHash_eq {p : Bytes} (h : 4 ≤ p.length) : (mapHash p (Sample.arr 4 0)).1 = p.take 4 := by
  show ((((p ++ (Sample.arr 4 0).1) ++ List.replicate 32 0).take 32).take 4) = p.take 4
  rw [List.take_take, List.append_assoc, List.take_append_of_le_length (Nat.le_trans (Nat.min_le_left ..) h)]
  rfl

theorem mapHashes_eq (count : Nat) : ((List.range count).map block ++ [tail]).map (fun p => (mapHash p (Sample.arr 4 0)).1) =
    (List.range (count + 1)).map fun i => Sample.toBE 4 (number count i) := by
  have hblock (i : Nat) (hi : i ∈ List.range count) : (mapHash (block i) (Sample.arr 4 0)).1 = Sample.toBE 4 (number count i) := by
    rw [mapHash_eq (by rw [length_block]; decide), block, List.take_left' (Sample.length_toBE ..), number,
      if_pos (List.mem_range.mp hi)]
  have htail : (mapHash tail (Sample.arr 4 0)).1 = Sample.toBE 4 (number count count) := by
    rw [mapHash_eq (by decide), number, if_neg (Nat.lt_irrefl count)]
    decide
  rw [List.map_append, List.map_map, List.map_singleton, htail, List.range_succ, List.map_append, List.map_singleton]
  exact congrArg (· ++ _) (List.map_congr_left hblock)

theorem entries_eq (count : Nat) : Bytes.chunksExact MAPHASH_LEN (hashmap ((List.range count).map block ++ [tail]) (Sample.arr 4 0)) =
    (List.range (count + 1)).map fun i => Sample.toBE 4 (number count i) := by
  have hlen (p : Bytes) : (mapHash p (Sample.arr 4 0)).1.length = MAPHASH_LEN := (mapHash p (Sample.arr 4 0)).2
  rw [hashmap, Bytes.chunksExact_flatMap hlen (by decide), mapHashes_eq]

theorem getElem?_entries {i : Nat} {e : Bytes}
    (h : ((List.range (count + 1)).map fun i => Sample.toBE 4 (number count i))[i]? = some e) :
    i < count + 1 ∧ Sample.ofBE e = number count i := by
  rw [List.getElem?_map, Option.map_eq_some_iff] at h
  obtain ⟨i', hi', rfl⟩ := h
  obtain ⟨hlt, rfl⟩ := List.getElem?_eq_some_iff.mp hi'
  rw [List.length_range] at hlt
  rw [List.getElem_range]
  refine ⟨hlt, Sample.ofBE_toBE ?_⟩
  unfold number
  split <;> omega

/-- Equal entries are 226 slots apart. -/
theorem guarded (count : Nat) : Guarded ((List.range (count + 1)).map fun i => Sample.toBE 4 (number count i)) := by
  intro i j e hij hi hj
  obtain ⟨hi, hni⟩ := getElem?_entries hi
  obtain ⟨hj, hnj⟩ := getElem?_entries hj
  have hsame : number count i = number count j := hni.symm.trans hnj
  unfold number at hsame
  rw [WINDOW_MAX, HASHMAP_MAX_LEN]
  split at hsame <;> split at hsame <;> omega

/-- The first 226 parts and the last one have entries of their own. -/
theorem distinct (hc : count ≤ 226) : ((List.range (count + 1)).map fun i => Sample.toBE 4 (number count i)).Nodup := by
  refine List.pairwise_map.mpr (List.nodup_range.imp_of_mem fun {i j} hi hj hne h => hne ?_)
  have hnumber (i : Nat) : number count i < 256 ^ 4 := by
    unfold number
    split <;> omega
  have hsame : number count i = number count j := by
    rw [← Sample.ofBE_toBE (hnumber i), h, Sample.ofBE_toBE (hnumber j)]
  rw [List.mem_range] at hi hj
  unfold number at hsame
  split at hsame <;> split at hsame <;> omega

end

theorem new_eq : ∃ o adv rng', OutboundResource.new 1 data key rng 0 = some (.ok (o, adv), rng') ∧
    o.parts = (List.range 227).map block ++ [tail] ∧ o.randomHash = Sample.arr 4 0 := by
  have hsize : ¬ (data = [] ∨ data.length > MAX_EFFICIENT_SIZE) := by
    have hlen := length_pages 227
    rintro (h | h)
    · rw [show pages 227 = [] from h, List.length_nil] at hlen
      omega
    · rw [MAX_EFFICIENT_SIZE, data] at h
      omega
  obtain ⟨map, rng', hmap⟩ : ∃ map rng', drawMap ((List.range 227).map block ++ [tail]) 1
      ((Reticulum.randomHash rng).2.fill 16).2 = some (Sample.arr 4 0, map, rng') := by
    unfold drawMap
    dsimp only
    rw [rng_fill.2.2, entries_eq, collides_of_guarded (guarded _) (Nat.zero_le _), if_neg Bool.false_ne_true]
    exact ⟨_, _, rfl⟩
  exact new_of_drawMap hsize (parts_eq (Nat.succ_pos 226)) hmap

theorem entries_of_made {o : OutboundResource} {adv : Bytes} (hm : Made data key o adv)
    (hparts : o.parts = (List.range 227).map block ++ [tail]) (hrandom : o.randomHash = Sample.arr 4 0) :
    o.entries = (List.range 228).map fun i => Sample.toBE 4 (number 227 i) := by
  rw [OutboundResource.entries, hm.map, hparts, hrandom, entries_eq]

theorem entry_new {o : OutboundResource} (he : o.entries = (List.range 228).map fun i => Sample.toBE 4 (number 227 i)) {i : Nat}
    (hi : i < 226) (j : Nat) (hj : j < i) : o.entries[j]? ≠ o.entries[i]? := by
  intro hsame
  have hlt : i < o.entries.length := by
    rw [he]
    simp
    omega
  obtain ⟨e, hi'⟩ : ∃ e, o.entries[i]? = some e := ⟨_, List.getElem?_eq_getElem hlt⟩
  rw [he] at hsame hi'
  obtain ⟨-, hni⟩ := getElem?_entries hi'
  obtain ⟨-, hnj⟩ := getElem?_entries (hsame.trans hi')
  have hnumber := hni.symm.trans hnj
  rw [number, number, if_pos (by omega), if_pos (by omega), Nat.mod_eq_of_lt hi, Nat.mod_eq_of_lt (Nat.lt_trans hj hi)] at hnumber
  omega

theorem started {o : OutboundResource} {adv : Bytes} (hm : Made data key o adv) :
    ∃ s, InTransfer o adv s ∧ s.receiver.FilledTo 0 := by
  obtain ⟨a, r₀, hun, hfrom, hparts⟩ := accepted Sample.readsWritten aesInverts hm
  refine ⟨⟨r₀, []⟩, ⟨a, r₀, hun, hfrom, .refl⟩, fun i hi => ?_⟩
  dsimp only at hi ⊢
  rw [hparts, List.length_replicate] at hi
  rw [hparts, List.getElem?_replicate, if_pos hi]
  simp

end Collision

open Collision

/-- At the start of a transfer everything asked for is found. -/
theorem requested_part_served_start : ∃ o adv rng' s request,
    OutboundResource.new 1 data key rng 0 = some (.ok (o, adv), rng') ∧ InTransfer o adv s ∧
      (s.receiver.nextRequest 1).2 = some request ∧ ServedRight o s 1 request 1 := by
  obtain ⟨o, adv, rng', hnew, hparts, hrandom⟩ := new_eq
  have hm := new_made hnew
  have he := entries_of_made hm hparts hrandom
  obtain ⟨s, hs, hfilled⟩ := started hm
  have ht := hs.tracks Sample.readsWritten aesInverts hm
  have hlen : 0 < s.receiver.parts.length := List.length_pos_iff.mpr ht.sound.nonempty
  obtain ⟨request, out, waiting, hnext⟩ := ht.sound.nextRequest (hfilled.incomplete hlen) ht.known 1
  have hreq : (s.receiver.nextRequest 1).2 = some request := by rw [hnext]
  refine ⟨o, adv, rng', s, request, hnew, hs, hreq,
    (requested_part_served_iff Sample.readsWritten aesInverts hnew hs hreq 1).mpr ⟨fun i hi => ?_, fun first hfirst => ?_⟩⟩
  · obtain ⟨-, -, first, hfirst, -, hwindow⟩ := mem_namedSlots hi
    cases hfirst.symm.trans (hfilled.first hlen)
    have hi : i < 226 := by
      have := ht.window
      rw [WINDOW_MAX] at this
      omega
    exact foundFirst_of_new (entry_new he hi)
  · obtain ⟨hfirst, hjoin⟩ := Option.filter_eq_some_iff.mp hfirst
    cases hfirst.symm.trans (hfilled.first hlen)
    exact absurd (Option.isNone_iff_eq_none.mp hjoin) (known_iff_join.mp ht.known)

/-- The part asked for last but one is the first one for the sender. -/
theorem requested_part_not_served : ¬ ∀ (fuel : Nat) (data : Bytes) (k : Arr 64) (rng rng' : Entropy) (t₀ : Nat)
    (o : OutboundResource) (adv : Bytes) (s : Exchange) (now : Nat) (request : Bytes) (t : Nat),
    OutboundResource.new fuel data k rng t₀ = some (.ok (o, adv), rng') → InTransfer o adv s →
      (s.receiver.nextRequest now).2 = some request → ServedRight o s now request t := by
  intro h
  obtain ⟨o, adv, rng', hnew, hparts, hrandom⟩ := new_eq
  have hm := new_made hnew
  have he := entries_of_made hm hparts hrandom
  have hcount : o.parts.length = 228 := by simp [hparts]
  obtain ⟨s₀, hs₀, hfilled₀⟩ := started hm
  obtain ⟨s₁, hs₁, hfilled₁⟩ := hs₀.fill Sample.readsWritten aesInverts hm (f := 226) (by omega)
    (fun i hi => entry_new he hi) hfilled₀
  have hlt₁ : 226 < s₁.receiver.parts.length := by
    rw [(hs₁.tracks Sample.readsWritten aesInverts hm).slots, hcount]
    decide
  obtain ⟨s, hs, hfilled, hknown⟩ := hs₁.learn Sample.readsWritten aesInverts hm hfilled₁ hlt₁ (entry_new he (by decide))
  have ht := hs.tracks Sample.readsWritten aesInverts hm
  have hlt : 226 < s.receiver.parts.length := by
    rw [ht.slots, hcount]
    decide
  obtain ⟨request, out, waiting, hnext⟩ := ht.sound.nextRequest (hfilled.incomplete hlt) ht.known 1
  have hreq : (s.receiver.nextRequest 1).2 = some request := by rw [hnext]
  have hserved := h _ _ _ _ _ _ _ _ s 1 request 1 hnew hs hreq
  rcases ht.sound.request_cases hreq with ⟨hnone, hrequest⟩ | ⟨first, known, hsome, -⟩
  · have hanswer := hserved.parts hnone
    rw [hrequest] at hanswer
    have hnamed := mem_namedSlots_first ht.sound.window (hfilled.first hlt) hknown
    have hsame := (ht.parts_answer_iff 1).mp hanswer 226 hnamed 0 (by rw [he]; decide) (fun k hk => by omega)
    rw [hparts] at hsame
    exact absurd hsame (by decide)
  · obtain ⟨hfirst, hjoin⟩ := Option.filter_eq_some_iff.mp hsome
    cases hfirst.symm.trans (hfilled.first hlt)
    exact absurd (Option.isNone_iff_eq_none.mp hjoin) (known_iff_join.mp hknown)

end Reticulum
