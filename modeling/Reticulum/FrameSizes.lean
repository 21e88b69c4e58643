import Reticulum.ResourceCases
import Reticulum.StepCases

/-!
# The size of what a node says itself

Frames a node passes on are as long as others made them. The frames it makes
on its own account while it handles traffic are short: proofs, keepalives, and
the parts, requests and map updates of a transfer.
-/

namespace Reticulum

/-- The longest of them; a part of 464 bytes behind a header takes 483. -/
def OWN_FRAME_MAX : Nat := 500

/-- MessagePack markers are short: a byte and at most eight bytes of a number. -/
structure Rmp.Compact [Rmp] : Prop where
  arrayLen : ∀ n, (Rmp.writeArrayLen n).length ≤ 9
  uint : ∀ n, (Rmp.writeUint n).length ≤ 9
  bin : ∀ b, (Rmp.writeBin b).length ≤ 9 + b.length

theorem length_encode_newHeader1 (t k c : UInt8) (d : Arr 16) (data : Bytes) :
    (Packet.newHeader1 t k d c data).encode.length = 19 + data.length := by
  simp only [Packet.encode, Packet.newHeader1, HEADER_1, HEADER_2, List.length_cons, List.length_append, d.2]
  simp only [show ¬ (0 : UInt8) = 1 by decide, if_false, List.length_nil]
  omega

theorem length_sealWithKey [Crypto] (hA : Crypto.AesInverts) (k : Arr 64) (p : Bytes) (iv : Arr 16) :
    (Token.sealWithKey k p iv).length ≤ p.length + 64 := by
  rw [Token.sealWithKey, Token.length_sealParts hA]
  omega

/-! ## Resources -/

theorem length_of_mem_chunks {k : Nat} {b c : Bytes} (h : c ∈ Bytes.chunks k b) : c.length ≤ k := by
  obtain ⟨i, -, rfl⟩ := List.mem_map.mp h
  exact List.length_take_le _ _

namespace OutboundResource

/-- Every part fits the size a transfer cuts its data to. -/
def Cut (r : OutboundResource) : Prop := ∀ part ∈ r.parts, part.length ≤ RESOURCE_SDU

theorem new_cut [Crypto] [Rmp] [Bzip2] {fuel : Nat} {data : Bytes} {key : Arr 64} {rng rng' : Entropy} {now : Nat}
    {r : OutboundResource} {adv : Bytes} (h : new fuel data key rng now = some (.ok (r, adv), rng')) : r.Cut := by
  unfold new at h
  split at h
  · cases h
  · dsimp only at h
    split at h
    · cases h
    · cases h
      intro part hpart
      have hpart : part ∈ splitParts _ RESOURCE_SDU := hpart
      rw [splitParts, if_neg (by decide)] at hpart
      exact length_of_mem_chunks hpart

theorem onRequest_parts [Rmp] (r : OutboundResource) (request : Bytes) (now : Nat) :
    (r.onRequest request now).1.parts = r.parts := by
  rcases r.onRequest_cases request now with h | ⟨flag, requested, h⟩
  · rw [h]
  · rw [h.onRequest]

theorem length_segmentMap (r : OutboundResource) (segment : Nat) :
    (r.segmentMap segment).length ≤ HASHMAP_MAX_LEN * MAPHASH_LEN := by
  have hseg : (segment + 1) * HASHMAP_MAX_LEN * MAPHASH_LEN =
      segment * HASHMAP_MAX_LEN * MAPHASH_LEN + HASHMAP_MAX_LEN * MAPHASH_LEN := by
    rw [Nat.succ_mul, Nat.add_mul]
  rw [segmentMap, List.length_take]
  omega

theorem mapUpdateFor_length [Rmp] {r : OutboundResource} {known : Bytes} {o : ResourceOutput}
    (ho : o ∈ r.mapUpdateFor known) : ∃ segment map, o = .hashmapUpdate (packHashmapUpdate r.hash segment map) ∧
      map.length ≤ HASHMAP_MAX_LEN * MAPHASH_LEN := by
  unfold mapUpdateFor at ho
  split at ho
  · dsimp only at ho
    split at ho
    · split at ho
      · exact ⟨_, _, List.mem_singleton.mp ho, r.length_segmentMap _⟩
      · cases ho
    · cases ho
  · cases ho

/-- What a request is answered with: parts, and updates of at most one segment of the map. -/
theorem onRequest_outputs [Rmp] (r : OutboundResource) (request : Bytes) (now : Nat) {o : ResourceOutput}
    (ho : o ∈ (r.onRequest request now).2) :
    (∃ part ∈ r.parts, o = .part part) ∨ ∃ segment map, o = .hashmapUpdate (packHashmapUpdate r.hash segment map) ∧
      map.length ≤ HASHMAP_MAX_LEN * MAPHASH_LEN := by
  rcases r.onRequest_cases request now with h | ⟨flag, requested, h⟩
  · rw [h] at ho
    cases ho
  · rw [h.onRequest] at ho
    rcases List.mem_append.mp ho with ho | ho
    · obtain ⟨entry, -, he⟩ := List.mem_filterMap.mp ho
      split at he
      · obtain ⟨part, hp, rfl⟩ := Option.map_eq_some_iff.mp he
        exact .inl ⟨part, List.mem_of_getElem? hp, rfl⟩
      · cases he
    · split at ho
      · exact .inr (mapUpdateFor_length ho)
      · cases ho

end OutboundResource

namespace InboundResource

/-- The window of a transfer stays within its limit. -/
def Windowed (r : InboundResource) : Prop := r.window ≤ WINDOW_MAX

theorem nextRequest_window (r : InboundResource) (now : Nat) : (r.nextRequest now).1.window = r.window := by
  unfold nextRequest
  split
  · rfl
  · split
    · rfl
    · split
      · split <;> rfl
      · dsimp only
        split <;> rfl

theorem length_windowHashes (r : InboundResource) (first : Nat) : (r.windowHashes first).length ≤ r.window := by
  unfold windowHashes
  refine Nat.le_trans (List.length_filterMap_le _ _) ?_
  rw [List.length_range']
  omega

theorem length_flatMap_val (l : List (Arr 4)) : (l.flatMap (·.1)).length = l.length * 4 := by
  induction l with
  | nil => rfl
  | cons a l ih => rw [List.flatMap_cons, List.length_append, ih, a.2, List.length_cons]; omega

/-- A request names the resource and at most a window of map hashes. -/
theorem nextRequest_length (r : InboundResource) (now : Nat) {request : Bytes}
    (h : (r.nextRequest now).2 = some request) : request.length ≤ 37 + r.window * 4 := by
  unfold nextRequest at h
  split at h
  · cases h
  · split at h
    · cases h
    · split at h
      · split at h
        · cases h
        · rename_i known _
          cases h
          simp only [List.length_cons, List.length_append, known.2, r.hash.2]
          omega
      · dsimp only at h
        rename_i first _ _ _ _
        split at h
        · cases h
        · cases h
          have := r.length_windowHashes first
          simp only [List.length_cons, List.length_append, length_flatMap_val, r.hash.2]
          omega

theorem retryDue_window {r : InboundResource} (h : r.Windowed) (now : Nat) : (r.retryDue now).1.Windowed := by
  unfold retryDue Windowed at *
  split
  · exact h
  · split
    · exact h
    · dsimp only
      rw [nextRequest_window]
      have : WINDOW_MIN ≤ WINDOW_MAX := by decide
      dsimp only
      omega

theorem retryDue_length {r : InboundResource} (h : r.Windowed) (now : Nat) {request : Bytes}
    (hr : (r.retryDue now).2 = .ok (some request)) : request.length ≤ 37 + WINDOW_MAX * 4 := by
  unfold retryDue at hr
  split at hr
  · cases hr
  · split at hr
    · cases hr
    · dsimp only at hr
      have hl := nextRequest_length _ now (Except.ok.inj hr)
      have : WINDOW_MIN ≤ WINDOW_MAX := by decide
      unfold Windowed at h
      dsimp only at hl
      omega

theorem onPart_window [Crypto] {r : InboundResource} (h : r.Windowed) (part : Bytes) : (r.onPart part).1.Windowed := by
  unfold onPart Windowed at *
  dsimp only
  split
  · exact h
  · split
    · exact Nat.min_le_right _ _
    · exact h

theorem onHashmapUpdate_window [Rmp] {r : InboundResource} (h : r.Windowed) (data : Bytes) :
    (r.onHashmapUpdate data).1.Windowed := by
  unfold onHashmapUpdate
  split
  · exact h
  · split
    · exact h
    · dsimp only
      split <;> exact h

theorem fromAdvertisement_window {a : ResourceAdvertisement} {r : InboundResource}
    (h : fromAdvertisement a = .ok r) : r.Windowed := by
  unfold fromAdvertisement at h
  split at h
  · cases h
  · split at h
    · split at h
      · cases h
      · cases h
        change WINDOW ≤ WINDOW_MAX
        decide
    · cases h

end InboundResource

/-! ## Own frames -/

namespace Node

/-- Nothing leaves the queue, and every frame that is new in it is short. -/
def Short (n n' : Node) : Prop :=
  ∃ fs : List (UInt16 × Bytes), n'.outbound = n.outbound ++ fs ∧
    ∀ f ∈ fs, 2 ≤ f.2.length ∧ f.2.length ≤ OWN_FRAME_MAX

theorem Short.of_eq {n n' : Node} (h : n'.outbound = n.outbound) : n.Short n' := ⟨[], by simp [h], by simp⟩

theorem Short.refl (n : Node) : n.Short n := .of_eq rfl

theorem Short.trans {n m n' : Node} (h : n.Short m) (h' : m.Short n') : n.Short n' := by
  obtain ⟨fs, hf, hs⟩ := h
  obtain ⟨fs', hf', hs'⟩ := h'
  refine ⟨fs ++ fs', by rw [hf', hf, List.append_assoc], fun f hmem => ?_⟩
  exact (List.mem_append.mp hmem).elim (hs f) (hs' f)

/-- A packet without a transport id, behind whatever else has changed. -/
theorem Short.push {n m : Node} (h : m.outbound = n.outbound) (i : UInt16) {t k c : UInt8} {d : Arr 16} {data : Bytes}
    (hl : data.length ≤ 481) : n.Short (m.push i (Packet.newHeader1 t k d c data)) := by
  refine ⟨[(i, _)], by rw [Node.push, h], ?_⟩
  rintro f hf
  rw [List.mem_singleton.mp hf, length_encode_newHeader1, OWN_FRAME_MAX]
  exact ⟨by omega, by omega⟩

/-- The parts of every transfer are cut to size, and its window stays within its limit. -/
structure Bounded (n : Node) : Prop where
  cut : ∀ (key : ResourceKey) (r : OutboundResource), n.outboundResources[key]? = some r → r.Cut
  windowed : ∀ (key : ResourceKey) (r : InboundResource), n.inboundResources[key]? = some r → r.Windowed

theorem Bounded.of_eq {n n' : Node} (h : n.Bounded) (ho : n'.outboundResources = n.outboundResources)
    (hi : n'.inboundResources = n.inboundResources) : n'.Bounded := ⟨ho ▸ h.cut, hi ▸ h.windowed⟩

theorem Bounded.setInbound {n : Node} (h : n.Bounded) (key : ResourceKey) {r : InboundResource} (hr : r.Windowed) :
    (n.setInbound key r).Bounded := by
  refine ⟨h.cut, fun k r' hk => ?_⟩
  rw [setInbound_inboundResources, Std.ExtTreeMap.getElem?_insert] at hk
  split at hk
  · cases hk
    exact hr
  · exact h.windowed k r' hk

theorem Bounded.setOutbound {n : Node} (h : n.Bounded) (key : ResourceKey) {r : OutboundResource} (hr : r.Cut) :
    (n.setOutbound key r).Bounded := by
  refine ⟨fun k r' hk => ?_, h.windowed⟩
  rw [setOutbound_outboundResources, Std.ExtTreeMap.getElem?_insert] at hk
  split at hk
  · cases hk
    exact hr
  · exact h.cut k r' hk

theorem Bounded.dropInbound {n : Node} (h : n.Bounded) (key : ResourceKey) : (n.dropInbound key).Bounded := by
  refine ⟨h.cut, fun k r' hk => ?_⟩
  rw [dropInbound_inboundResources, Std.ExtTreeMap.getElem?_erase] at hk
  split at hk
  · cases hk
  · exact h.windowed k r' hk

theorem Bounded.dropOutbound {n : Node} (h : n.Bounded) (key : ResourceKey) : (n.dropOutbound key).Bounded := by
  refine ⟨fun k r' hk => ?_, h.windowed⟩
  rw [dropOutbound_outboundResources, Std.ExtTreeMap.getElem?_erase] at hk
  split at hk
  · cases hk
  · exact h.cut k r' hk

variable [Crypto]

/-- A sealed link packet of a short plaintext. -/
theorem short_enqueueEncrypted (hA : Crypto.AesInverts) {n m : Node} (h : m.outbound = n.outbound) (id : Arr 16) (i : UInt16)
    (c : UInt8) {pt : Bytes} (hpt : pt.length ≤ 417) (key : Arr 64) (rng : Entropy) :
    n.Short (m.enqueueEncryptedLinkContext id i c pt key rng).1 := by
  exact Short.push h i (Nat.le_trans (length_sealWithKey hA key pt _) (by omega))

section
variable [Rmp]

theorem short_sendOutput (hA : Crypto.AesInverts) (hR : Rmp.Compact) {r : OutboundResource} (hr : r.Cut) (id : Arr 16)
    (i : UInt16) (key : Arr 64) (s : Node × Entropy) {request : Bytes} {now : Nat} {o : ResourceOutput}
    (ho : o ∈ (r.onRequest request now).2) : s.1.Short (sendOutput id i key s o).1 := by
  rcases r.onRequest_outputs request now ho with ⟨part, hp, rfl⟩ | ⟨segment, map, rfl, hm⟩
  · have := hr part hp
    rw [RESOURCE_SDU] at this
    exact Short.push rfl i (by omega)
  · refine short_enqueueEncrypted hA rfl id i _ ?_ key s.2
    have := hR.arrayLen 2
    have := hR.uint segment
    have := hR.bin map
    rw [HASHMAP_MAX_LEN, MAPHASH_LEN] at hm
    simp only [packHashmapUpdate, List.length_append, r.hash.2]
    omega

theorem short_sendOutputs (hA : Crypto.AesInverts) (hR : Rmp.Compact) {r : OutboundResource} (hr : r.Cut) (id : Arr 16)
    (i : UInt16) (key : Arr 64) {request : Bytes} {now : Nat} (outputs : List ResourceOutput)
    (ho : ∀ o ∈ outputs, o ∈ (r.onRequest request now).2) (s : Node × Entropy) :
    s.1.Short (outputs.foldl (sendOutput id i key) s).1 := by
  induction outputs generalizing s with
  | nil => exact .refl _
  | cons o rest ih =>
    have h := short_sendOutput hA hR hr id i key s (ho o List.mem_cons_self)
    exact h.trans (ih (fun o ho' => ho o (List.mem_cons_of_mem _ ho')) _)

omit [Rmp] in
theorem short_requestNext (hA : Crypto.AesInverts) (n : Node) (id : Arr 16) (i : UInt16) (key : Arr 64) (hash : Arr 32)
    {r : InboundResource} (hr : n.inboundResources[(id, hash)]? = some r) (hw : r.Windowed) (rng : Entropy) :
    n.Short (n.requestNext id i key hash rng) := by
  unfold requestNext
  simp only [hr]
  split
  · rename_i request hreq
    refine short_enqueueEncrypted hA rfl id i _ ?_ key rng
    have := r.nextRequest_length n.nowSecs hreq
    unfold InboundResource.Windowed WINDOW_MAX at hw
    omega
  · exact .of_eq rfl

theorem short_handleResourceContext (hA : Crypto.AesInverts) (hR : Rmp.Compact) {n : Node} (hn : n.Bounded) (id : Arr 16)
    (i : UInt16) (key : Arr 64) (context : UInt8) (pt : Bytes) (rng : Entropy) :
    n.Short (n.handleResourceContext id i key context pt rng).1 := by
  unfold handleResourceContext
  split
  · split
    · exact .refl n
    · split
      · exact .refl n
      · rename_i hfrom
        exact short_requestNext hA (n.setInbound (id, _) _) id i key _ (by simp)
          (InboundResource.fromAdvertisement_window hfrom) rng
  · split
    · split
      · exact .refl n
      · split
        · exact .refl n
        · rename_i hr
          exact short_sendOutputs hA hR (hn.cut _ _ hr) id i key _ (fun _ ho => ho) (n.setOutbound (id, _) _, rng)
    · split
      · split
        · exact .refl n
        · split
          · exact .refl n
          · rename_i hr
            dsimp only
            split
            · exact .of_eq rfl
            · exact short_requestNext hA (n.setInbound (id, _) _) id i key _ (by simp)
                (InboundResource.onHashmapUpdate_window (hn.windowed _ _ hr) pt) rng
      · split
        · split <;> exact .of_eq rfl
        · exact .refl n

end

section
variable [Bzip2]

theorem short_partAccepted (hA : Crypto.AesInverts) (n : Node) (id : Arr 16) (i : UInt16) (key : Arr 64) (hash : Arr 32)
    {r : InboundResource} (hw : r.Windowed) (rng : Option Entropy) :
    n.Short (n.partAccepted id i key hash r rng).1 := by
  unfold partAccepted
  dsimp only
  split
  · split
    · refine Short.push rfl i ?_
      simp only [InboundResource.proofPacket, List.length_append, r.hash.2, (resourceProof _ _).2]
      omega
    · exact .of_eq rfl
  · split
    · exact .refl n
    · rename_i rng
      split
      · split
        · rename_i request hreq
          refine short_enqueueEncrypted hA rfl id i _ ?_ key rng
          have := r.nextRequest_length n.nowSecs (Option.filter_eq_some_iff.mp hreq).1
          unfold InboundResource.Windowed WINDOW_MAX at hw
          omega
        · exact .of_eq rfl
      · exact .refl n

theorem short_offerPart (hA : Crypto.AesInverts) {n : Node} (hn : n.Bounded) (id : Arr 16) (i : UInt16) (key : Arr 64)
    (part : Bytes) (rng : Option Entropy) (keys : List ResourceKey) :
    n.Short (n.offerPart id i key part rng keys).1 := by
  induction keys with
  | nil => exact .refl n
  | cons k rest ih =>
    unfold offerPart
    split
    · exact ih
    · rename_i r hr
      dsimp only
      split
      · exact ih
      · have hw := InboundResource.onPart_window (hn.windowed k r hr) part
        exact (Short.of_eq rfl : n.Short (n.setInbound k (r.onPart part).1)).trans (short_partAccepted hA _ id i key k.2 hw rng)

end

/-! ## Ticks -/

theorem short_tickResource (hA : Crypto.AesInverts) {n : Node} (hn : n.Bounded) (rng : Option Entropy) (key : ResourceKey) :
    n.Short (tickResource (n, rng) key).1 ∧ (tickResource (n, rng) key).1.Bounded := by
  have h := tickResource_cases n rng key
  generalize tickResource (n, rng) key = out at h
  cases h with
  | gone => exact ⟨.refl n, hn⟩
  | failed hr =>
    have hset := hn.setInbound key (InboundResource.retryDue_window (hn.windowed key _ hr) n.nowSecs)
    exact ⟨.of_eq rfl, (hset.dropInbound key).of_eq rfl rfl⟩
  | kept hr => exact ⟨.of_eq rfl, hn.setInbound key (InboundResource.retryDue_window (hn.windowed key _ hr) n.nowSecs)⟩
  | requested hr hdue =>
    have hw := hn.windowed key _ hr
    refine ⟨Short.push rfl _ (Nat.le_trans (length_sealWithKey hA _ _ _) ?_), ?_⟩
    · have := InboundResource.retryDue_length hw n.nowSecs hdue
      rw [WINDOW_MAX] at this
      omega
    · exact (hn.setInbound key (InboundResource.retryDue_window hw n.nowSecs)).of_eq rfl rfl

theorem short_tickResources (hA : Crypto.AesInverts) (keys : List ResourceKey) {s : Node × Option Entropy}
    (hs : s.1.Bounded) : s.1.Short (keys.foldl tickResource s).1 ∧ (keys.foldl tickResource s).1.Bounded := by
  induction keys generalizing s with
  | nil => exact ⟨.refl _, hs⟩
  | cons key rest ih =>
    obtain ⟨h₁, hb⟩ := short_tickResource hA hs s.2 key
    obtain ⟨h₂, hb'⟩ := ih (s := tickResource (s.1, s.2) key) hb
    exact ⟨h₁.trans h₂, hb'⟩

theorem short_tickInner (hA : Crypto.AesInverts) {n : Node} (hn : n.Bounded) (rng : Option Entropy) :
    n.Short (n.tickInner rng).1 ∧ (n.tickInner rng).1.Bounded := by
  have hlinks : n.Short n.tickLinks := by
    refine ⟨_, rfl, fun f hf => ?_⟩
    obtain ⟨⟨i, id⟩, -, rfl⟩ := List.mem_map.mp hf
    have hlen : (keepaliveFrame 0xFF i id).2.length = 20 := length_encode_newHeader1 LINK DATA KEEPALIVE id [0xFF]
    exact ⟨hlen ▸ by decide, hlen ▸ by decide⟩
  have hb : n.tickLinks.Bounded := hn.of_eq rfl rfl
  obtain ⟨hres, hb'⟩ := short_tickResources hA n.tickLinks.inboundResources.keys (s := (n.tickLinks, rng)) hb
  exact ⟨hlinks.trans (hres.trans (.of_eq rfl)), hb'.of_eq rfl rfl⟩

/-! ## Frames handled -/

variable [Rmp] [Bzip2]

theorem short_handleLinkData (hA : Crypto.AesInverts) (hR : Rmp.Compact) {n : Node} (hn : n.Bounded) (p : Packet)
    (id : Arr 16) (i : UInt16) (rng : Option Entropy) : n.Short (n.handleLinkData p id i rng).1 := by
  unfold handleLinkData
  split
  · exact .refl n
  · split
    · exact .refl n
    · split
      · exact .refl n
      · split
        · exact short_offerPart hA hn id i _ _ rng _
        · split
          · dsimp only
            split
            · exact Short.push (m := n) rfl i (by simp)
            · exact .of_eq rfl
          · split
            · exact .refl n
            · rename_i link hl _ _ key hkey _ _ _ pt _
              have htouch : n.Short (n.touch id link) := .of_eq rfl
              dsimp only
              split
              · exact htouch
              · split
                · split
                  · have hc : (n.touch id link).Short ((n.touch id link).closeLink id) ∧
                        ((n.touch id link).closeLink id).Bounded := by
                      have h := closeLink_cases (n.touch id link) id
                      generalize (n.touch id link).closeLink id = m at h
                      cases h <;> exact ⟨.of_eq rfl, hn.of_eq rfl rfl⟩
                    exact htouch.trans (hc.1.trans (short_tickInner hA hc.2 none).1)
                  · exact htouch
                · split
                  · exact htouch
                  · split
                    · exact htouch.trans (short_handleResourceContext (n := n.touch id link) hA hR (hn.of_eq rfl rfl) id i key _ pt _)
                    · exact htouch

/-- A packet the node passes on: the answer to a path request, an accepted announce, a forwarded packet. -/
inductive Passes (n : Node) (p : Packet) (d : Arr 16) (i : UInt16) : UInt16 × Packet → Prop
  | answer {target : Arr 16} {cached : Packet} : p.packetType = DATA → p.destType = PLAIN →
    d = Packet.pathRequestDestinationHash → n.Answers p target cached →
    Passes n p d i (i, n.answerFor target cached)
  | announce {a : Announce} {pub : PublicIdentity} {q : UInt16 × Packet} : p.packetType = ANNOUNCE →
    n.Announces p d a → PublicIdentity.fromBytes a.pub.1 = .ok pub →
    n.paths.update d (announcedEntry p a pub i n.nowSecs) n.nowSecs =
      (⟨n.paths.entries.insert d (announcedEntry p a pub i n.nowSecs)⟩, true) →
    q ∈ n.rebroadcastCopies p i → Passes n p d i q
  | forward {path : PathEntry} {q : Packet} : p.packetType = DATA → n.addressedElsewhere p = false →
    n.locals.find? (·.destHash = d) = none → n.Forwards p d i path q → Passes n p d i (path.interface, q)

/-- Every new frame is short, or one the node passes on. -/
def Says (n n' : Node) (p : Packet) (d : Arr 16) (i : UInt16) : Prop :=
  ∃ fs : List (UInt16 × Bytes), n'.outbound = n.outbound ++ fs ∧
    ∀ f ∈ fs, (2 ≤ f.2.length ∧ f.2.length ≤ OWN_FRAME_MAX) ∨ ∃ q, n.Passes p d i q ∧ f = (q.1, q.2.encode)

omit [Rmp] [Bzip2] in
theorem Short.says {n n' : Node} {p : Packet} {d : Arr 16} {i : UInt16} (h : n.Short n') : n.Says n' p d i := by
  obtain ⟨fs, hf, hs⟩ := h
  exact ⟨fs, hf, fun f hmem => .inl (hs f hmem)⟩

omit [Rmp] [Bzip2] in
theorem says_emit {n m : Node} {p : Packet} {d : Arr 16} {i : UInt16} (h : m.outbound = n.outbound)
    {ps : List (UInt16 × Packet)} (hps : ∀ q ∈ ps, n.Passes p d i q) : n.Says (m.emit ps) p d i := by
  refine ⟨_, by rw [emit_outbound, h], fun f hf => ?_⟩
  obtain ⟨q, hq, rfl⟩ := List.mem_map.mp hf
  exact .inr ⟨q, hps q hq, rfl⟩

omit [Rmp] [Bzip2] in
theorem short_handleLinkProof (hA : Crypto.AesInverts) (n : Node) (p : Packet) (id : Arr 16) (rng : Option Entropy) :
    n.Short (n.handleLinkProof p id rng).1 := by
  unfold handleLinkProof
  split
  · exact .refl n
  · split
    · exact .refl n
    · split
      · exact .refl n
      · split
        · exact .refl n
        · dsimp only
          split
          · exact short_enqueueEncrypted hA rfl id _ _ (by decide) _ _
          · exact .of_eq rfl

theorem dispatch_says (hA : Crypto.AesInverts) (hR : Rmp.Compact) {n : Node} (hn : n.Bounded) (p : Packet) (d : Arr 16)
    (i : UInt16) (rng : Option Entropy) : n.Says (n.dispatch p d i rng).1 p d i := by
  unfold dispatch
  split
  · rename_i hpr
    have h := n.handlePathRequest_case p i
    dsimp only
    generalize n.handlePathRequest p i = m at h
    cases h with
    | silent => exact Short.says (.of_eq rfl)
    | answered ha =>
      refine says_emit (n := n) (m := { n with seenPathRequests := n.pathRequestSeen p }) rfl fun q hq => ?_
      rw [List.mem_singleton.mp hq]
      exact .answer hpr.1 hpr.2.1 hpr.2.2 ha
  · split
    · split
      · rename_i rng
        have h := n.handleLinkRequest_cases p d i rng
        generalize n.handleLinkRequest p d i rng = out at h
        cases h with
        | ignored => exact Short.says (.refl n)
        | @accepted eph peer other =>
          refine Short.says (Short.push (m := (n.addSigned _).setLink _ _) rfl i ?_)
          simp [buildLinkProof, (n.identity.sign _).2, eph.x25519Pub.2]
      · exact Short.says (.refl n)
    · split
      · exact Short.says (short_handleLinkProof hA n p d rng)
      · split
        · have h := n.handleDeliveryProof_cases p d
          generalize n.handleDeliveryProof p d = out at h
          cases h <;> exact Short.says (.of_eq rfl)
        · split
          · have h := n.handleResourceProof_cases p d
            generalize n.handleResourceProof p d = out at h
            cases h <;> exact Short.says (.of_eq rfl)
          · split
            · exact Short.says (short_handleLinkData hA hR hn p d i rng)
            · split
              · rename_i hann
                have h := n.handleAnnounce_cases p d i
                generalize n.handleAnnounce p d i = out at h
                cases h with
                | accepted ha hpub hu => exact says_emit rfl fun q hq => .announce hann ha hpub hu hq
                | _ => exact Short.says (.of_eq rfl)
              · split
                · rename_i hdata
                  have h := n.handleData_cases p d i
                  generalize n.handleData p d i = out at h
                  cases h with
                  | relayed helse hloc =>
                    have hf := n.forwardData_cases p d i
                    generalize n.forwardData p d i = m at hf
                    cases hf with
                    | forwarded hf =>
                      refine says_emit (n := n) (m := n.prunePaths) rfl fun q hq => ?_
                      rw [List.mem_singleton.mp hq]
                      exact .forward hdata helse hloc hf
                    | _ => exact Short.says (.of_eq rfl)
                  | provenMessage =>
                    refine Short.says (Short.push (m := n.addSigned _) rfl i ?_)
                    simp [buildProof, (n.identity.sign _).2, p.fullPacketHash.2]
                  | _ => exact Short.says (.refl n)
                · exact Short.says (.refl n)

/-- What an inbound frame makes the node pass on: nothing, unless it is admitted. -/
inductive Relays (n : Node) (b : Bytes) (i : UInt16) : UInt16 × Packet → Prop
  | mk {p : Packet} {d : Arr 16} {q : UInt16 × Packet} : n.Admits b p d →
    (n.admitted p).Passes (received p) d i q → Relays n b i q

/-- Every frame that handling an inbound frame enqueues is short, or one the node relays. -/
theorem handleInboundInner_says (hA : Crypto.AesInverts) (hR : Rmp.Compact) {n : Node} (hn : n.Bounded) (b : Bytes)
    (i : UInt16) (rng : Option Entropy) :
    ∃ fs : List (UInt16 × Bytes), (n.handleInboundInner b i rng).1.outbound = n.outbound ++ fs ∧
      ∀ f ∈ fs, (2 ≤ f.2.length ∧ f.2.length ≤ OWN_FRAME_MAX) ∨ ∃ q, n.Relays b i q ∧ f = (q.1, q.2.encode) := by
  unfold handleInboundInner
  have h := n.admission_cases b
  generalize n.admission b = adm at h
  have hkeep := n.maybePrune_keeps n.nowSecs
  cases h with
  | malformed => exact ⟨[], by simp, by simp⟩
  | duplicate => exact ⟨[], by simp, by simp⟩
  | @admitted p d ha =>
    have hb : (n.admitted p).Bounded := hn.of_eq (by simp) (by simp)
    obtain ⟨fs, hf, hs⟩ := dispatch_says hA hR hb (received p) d i rng
    refine ⟨fs, by rw [hf]; simp, fun f hmem => (hs f hmem).imp_right ?_⟩
    rintro ⟨q, hq, rfl⟩
    exact ⟨q, .mk ha hq, rfl⟩

/-! ## Transfers stay cut to size -/

omit [Rmp] in
theorem OfferCase.bounded {n : Node} (hn : n.Bounded) {id : Arr 16} {i : UInt16} {key : Arr 64} {part : Bytes}
    {out : Node × List Event} (h : OfferCase n id i key part out) : out.1.Bounded := by
  cases h with
  | refused => exact hn
  | @taken hash r out hr _ hp =>
    have hw := InboundResource.onPart_window (hn.windowed _ r hr) part
    have hset := hn.setInbound (id, hash) hw
    cases hp with
    | completed => exact (hset.dropInbound (id, hash)).of_eq rfl rfl
    | corrupt => exact hset.dropInbound (id, hash)
    | waiting => exact hset
    | requested =>
      refine (hset.setInbound (id, hash) ?_).of_eq rfl rfl
      rw [InboundResource.Windowed, InboundResource.nextRequest_window]
      exact hw

omit [Crypto] [Bzip2] in
theorem ResourceContextCase.bounded {n : Node} (hn : n.Bounded) {id : Arr 16} {i : UInt16} {context : UInt8} {pt : Bytes}
    {out : Node × List Event} (h : ResourceContextCase n id i context pt out) : out.1.Bounded := by
  cases h with
  | ignored => exact hn
  | badAdvertisement => exact hn
  | @advertised a r ps _ _ hfrom =>
    refine (hn.setInbound (id, r.hash) ?_).of_eq rfl rfl
    rw [InboundResource.Windowed, InboundResource.nextRequest_window]
    exact InboundResource.fromAdvertisement_window hfrom
  | @served hash r ps hr =>
    refine (hn.setOutbound (id, hash) fun part hpart => ?_).of_eq rfl rfl
    rw [OutboundResource.onRequest_parts] at hpart
    exact hn.cut _ r hr part hpart
  | @badUpdate hash r hr =>
    exact hn.setInbound (id, hash) (InboundResource.onHashmapUpdate_window (hn.windowed _ r hr) pt)
  | @updated hash r ps hr =>
    refine (hn.setInbound (id, hash) ?_).of_eq rfl rfl
    rw [InboundResource.Windowed, InboundResource.nextRequest_window]
    exact InboundResource.onHashmapUpdate_window (hn.windowed _ r hr) pt
  | cancelled hash => exact (hn.dropInbound (id, hash)).dropOutbound (id, hash)

theorem LinkDataCase.bounded (hA : Crypto.AesInverts) {n : Node} (hn : n.Bounded) {p : Packet} {id : Arr 16} {i : UInt16}
    {out : Node × List Event} (h : LinkDataCase n p id i out) : out.1.Bounded := by
  cases h with
  | part _ _ ho => exact ho.bounded hn
  | @closed link =>
    have h := closeLink_cases (n.touch id link) id
    have hb : ((n.touch id link).closeLink id).Bounded := by
      generalize (n.touch id link).closeLink id = m at h
      cases h <;> exact hn.of_eq rfl rfl
    exact (short_tickInner hA hb none).2
  | @resource link key pt out _ _ hr => exact hr.bounded (hn.of_eq rfl rfl : (n.touch id link).Bounded)
  | _ => exact hn.of_eq rfl rfl

theorem DispatchCase.bounded (hA : Crypto.AesInverts) {n : Node} (hn : n.Bounded) {p : Packet} {d : Arr 16} {i : UInt16}
    {out : Node × List Event} (h : DispatchCase n p d i out) : out.1.Bounded := by
  cases h with
  | ignored => exact hn
  | pathRequest =>
    obtain ⟨_, _, heq, -⟩ := handlePathRequest_cases n p i
    rw [heq]
    exact hn.of_eq rfl rfl
  | linkRequest _ hr => cases hr <;> exact hn.of_eq rfl rfl
  | linkProof _ _ _ hr => cases hr <;> exact hn.of_eq rfl rfl
  | deliveryProof _ hr => cases hr <;> exact hn.of_eq rfl rfl
  | resourceProof _ _ _ hr =>
    cases hr with
    | ignored => exact hn
    | completed => exact hn.dropOutbound _
    | @kept hash r _ hr => exact hn.setOutbound (d, hash) (r := (r.onProof p.data).1) (hn.cut _ r hr)
  | linkData _ _ hr => exact hr.bounded hA hn
  | announce _ hr => cases hr <;> exact hn.of_eq rfl rfl
  | data _ _ _ hr =>
    cases hr with
    | relayed =>
      have hf := forwardData_cases n p d i
      generalize n.forwardData p d i = m at hf
      cases hf <;> exact hn.of_eq rfl rfl
    | _ => exact hn.of_eq rfl rfl

end Node

open Node in
theorem NodeStep.bounded [Crypto] [Rmp] [Bzip2] (hA : Crypto.AesInverts) {n n' : Node} {l : Label} (hn : n.Bounded)
    (h : NodeStep n l n') : n'.Bounded := by
  cases h.cases with
  | config _ hc =>
    rw [hc.eq]
    exact hn.of_eq rfl rfl
  | announce ha => cases ha <;> exact hn.of_eq rfl rfl
  | sent _ hs =>
    rw [hs.eq]
    exact hn.of_eq rfl rfl
  | establish he => cases he <;> exact hn.of_eq rfl rfl
  | linkSend hl => cases hl <;> exact hn.of_eq rfl rfl
  | sendResource hs =>
    cases hs with
    | failed => exact hn
    | sent _ hnew => exact (hn.setOutbound _ (OutboundResource.new_cut hnew)).of_eq rfl rfl
  | close hc => cases hc <;> exact hn.of_eq rfl rfl
  | tick => exact (short_tickInner hA hn _).2
  | inbound _ hi =>
    have hkeep := n.maybePrune_keeps n.nowSecs
    cases hi with
    | malformed => exact hn
    | duplicate => exact hn.of_eq (by simp) (by simp)
    | admitted ha hd => exact hd.bounded hA (hn.of_eq (by simp) (by simp))

theorem Node.bounded_withClock (identity : Identity) (clock : UInt64) : (withClock identity clock).Bounded :=
  ⟨fun _ _ h => by simp [withClock] at h, fun _ _ h => by simp [withClock] at h⟩

end Reticulum
