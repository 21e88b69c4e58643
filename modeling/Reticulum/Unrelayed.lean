import Reticulum.MultiHop

/-!
# What relays do not pass on

A link request is addressed to the first relay like a message, but relays
dispatch on the packet type first: a request is for the node itself, or for
nobody. Proofs are never passed on at all.
-/

namespace Reticulum

open Node

section
variable [Crypto] [Rmp] [Bzip2]

/-- `establish_link` at the source leads to `LinkEstablished` at both ends. -/
inductive LinkForms (source dest : Node) (line : List Relay) (i j : UInt16) (d : Arr 16) (rng : Entropy) : Prop
  | formed {id : Arr 16} {b b' g g' : Bytes} {line' back line'' : List Relay} {entropy entropy' : Option Entropy}
    {now : UInt64} (requested : (source.establishLink d rng).2 = .ok id)
    (sent : (i, b) ∈ source.enqueued (source.establishLink d rng).1)
    (carried : Lts.Pass Relay.Passes line b line' b')
    (there : .linkEstablished id ∈ (dest.handleInboundInner b' j entropy).2)
    (answered : (j, g) ∈ dest.enqueued (dest.handleInboundInner b' j entropy).1)
    (inTime : List.Forall₂ Relay.Later line' back)
    (carriedBack : Lts.Pass Relay.Passes (Relay.turnedBack back) g line'' g')
    (here : .linkEstablished id ∈ (((source.establishLink d rng).1.atTime now).handleInboundInner g' i entropy').2)

/-- `send_message_with_receipt` at the source leads to `Delivered` there. -/
inductive ProofReturns (source dest : Node) (line : List Relay) (i j : UInt16) (d : Arr 16) (pt : Bytes) (rng : Entropy) :
    Prop
  | returned {hash : Arr 32} {b b' g g' : Bytes} {line' back line'' : List Relay} {entropy entropy' : Option Entropy}
    {now : UInt64} (requested : (source.sendMessageWithReceipt d pt rng).2 = .ok hash)
    (sent : (i, b) ∈ source.enqueued (source.sendMessageWithReceipt d pt rng).1)
    (carried : Lts.Pass Relay.Passes line b line' b')
    (answered : (j, g) ∈ dest.enqueued (dest.handleInboundInner b' j entropy).1)
    (inTime : List.Forall₂ Relay.Later line' back)
    (carriedBack : Lts.Pass Relay.Passes (Relay.turnedBack back) g line'' g')
    (delivered :
      .delivered hash ∈ (((source.sendMessageWithReceipt d pt rng).1.atTime now).handleInboundInner g' i entropy').2)

theorem enqueued_eq_nil {n : Node} {b : Bytes} {i : UInt16} (rng : Option Entropy)
    (h : ∀ p d out, n.Admits b p d → DispatchCase (n.admitted p) (received p) d i out → out.1.outbound = n.outbound) :
    n.enqueued (n.handleInboundInner b i rng).1 = [] := by
  have hc := n.handleInboundInner_cases b i rng
  generalize n.handleInboundInner b i rng = out at hc
  cases hc with
  | malformed => exact enqueued_of_append (by simp)
  | duplicate => exact enqueued_of_append (by simp)
  | admitted ha hd => exact enqueued_of_append (by rw [h _ _ _ ha hd, List.append_nil])

/-- A node that is not the destination drops a link request. -/
theorem linkRequest_dropped {n : Node} {q : Packet} {d : Arr 16} (hw : q.WellFormed) (ht : q.packetType = LINKREQUEST)
    (hd : q.destHash = d.1) (hforeign : n.locals.any (·.destHash = d) = false) (i : UInt16) (rng : Option Entropy) :
    n.enqueued (n.handleInboundInner q.encode i rng).1 = [] := by
  refine enqueued_eq_nil rng fun p d' out ha hc => ?_
  cases (Packet.decode_encode hw).symm.trans ha.decoded
  obtain rfl : d' = d := Subtype.ext (ha.dest.symm.trans hd)
  have ht : (received q).packetType = LINKREQUEST := ht
  cases hc with
  | ignored => simp
  | linkRequest _ hr =>
    cases hr with
    | ignored => simp
    | accepted _ hsingle =>
      have hnot : (n.admitted q).hasSingle d' = false := by
        rw [hasSingle, admitted_locals, (maybePrune_keeps n n.nowSecs).2.2.1]
        rw [List.any_eq_false] at hforeign ⊢
        intro l hl h
        exact hforeign l hl (by simpa using (of_decide_eq_true h).1)
      rw [hnot] at hsingle
      cases hsingle
  | pathRequest h => exact absurd (ht.symm.trans h) (by decide)
  | linkProof h | deliveryProof h | resourceProof h | linkData h | announce h | data h =>
    exact absurd (ht.symm.trans h) (by decide)

theorem explicitProof_dropped (n : Node) (dest : Arr 16) (proof : Bytes) (i : UInt16) (rng : Option Entropy) :
    n.enqueued (n.handleInboundInner (Packet.explicitProof dest proof).encode i rng).1 = [] := by
  refine enqueued_eq_nil rng fun p d' out ha hc => ?_
  have hw : (Packet.explicitProof dest proof).WellFormed :=
    Packet.wellFormed_newHeader1 (by decide) (by decide) _ _ _
  cases (Packet.decode_encode hw).symm.trans ha.decoded
  have ht : (received (Packet.explicitProof dest proof)).packetType = PROOF := rfl
  cases hc with
  | ignored => simp
  | deliveryProof _ hr => cases hr <;> simp
  | linkProof _ h | resourceProof _ h => exact absurd h (by decide : ¬ SINGLE = LINK)
  | pathRequest h | linkRequest h | linkData h | announce h | data h => exact absurd (ht.symm.trans h) (by decide)

theorem Relay.not_passes {r r' : Relay} {f f' : Bytes} (h : r.node.enqueued (r.handled f).node = []) :
    ¬ r.Passes f r' f' := by
  intro hp
  have hs := hp.sent
  rw [hp.after, h] at hs
  cases hs

omit [Rmp] [Bzip2] in
theorem KnownAlong.foreign {d : Arr 16} {pub : PublicIdentity} {hash : Arr 16} {t : Option (Arr 16)} {h : Nat}
    {rs : List Relay} (hk : KnownAlong d pub hash t h rs) : ∀ r ∈ rs, r.node.locals.any (·.destHash = d) = false := by
  induction rs generalizing t h with
  | nil => simp
  | cons r rs ih =>
    intro s hs
    rcases List.mem_cons.mp hs with rfl | hs
    · exact hk.1.foreign
    · exact ih hk.2 s hs

omit [Rmp] [Bzip2] in
/-- What `establish_link` sends is a link request for the destination. -/
theorem linkRequest_sent {n : Node} {d : Arr 16} {rng : Entropy} {i : UInt16} {b : Bytes}
    (h : (i, b) ∈ n.enqueued (n.establishLink d rng).1) :
    ∃ q : Packet, b = q.encode ∧ q.WellFormed ∧ q.packetType = LINKREQUEST ∧ q.destHash = d.1 := by
  have hc := n.establishLink_cases d rng
  generalize n.establishLink d rng = r at h hc
  cases hc with
  | failed => simp [enqueued] at h
  | requested _ hr =>
    dsimp only at h
    rw [enqueued_emit (by simp)] at h
    obtain ⟨-, rfl⟩ := Prod.mk.inj (List.mem_singleton.mp h)
    have hs := route_sameContent hr
    exact ⟨_, rfl, route_wellFormed (linkRequestFor_wellFormed d rng) hr, hs.packetType, hs.destHash⟩

theorem not_linkForms {source dest : Node} {relays : List Relay} {i j : UInt16} {d : Arr 16} {rng : Entropy}
    (hne : relays ≠ []) (hforeign : ∀ r ∈ relays, r.node.locals.any (·.destHash = d) = false) :
    ¬ LinkForms source dest (Relay.turnedBack relays) i j d rng := by
  rintro ⟨-, hsent, hpass, -⟩
  obtain ⟨q, rfl, hw, ht, hd⟩ := linkRequest_sent hsent
  refine Lts.Pass.not_of_head (fun r hr r' f => ?_) (by simpa [Relay.turnedBack] using hne) hpass
  obtain ⟨s, hs, rfl⟩ := Relay.mem_turnedBack hr
  exact Relay.not_passes (linkRequest_dropped hw ht hd (hforeign s hs) _ _)

theorem Relay.PassesAlone.unique {r r₁ r₂ : Relay} {f f₁ f₂ : Bytes} (h : r.PassesAlone f r₁ f₁) (h' : r.Passes f r₂ f₂) :
    r₁ = r₂ ∧ f₁ = f₂ := by
  have hr : r₁ = r₂ := h.after.trans h'.after.symm
  have hs := h'.sent
  rw [← hr, h.sent] at hs
  exact ⟨hr, (Prod.mk.inj (List.mem_singleton.mp hs)).2.symm⟩

theorem KnownWay.not_proofReturns (hD : Crypto.DhCommutes) (hA : Crypto.AesInverts) {source dest : Node}
    {relays : List Relay} {i j : UInt16} {d : Arr 16} {pt : Bytes} {rng : Entropy}
    (h : KnownWay source dest relays i d (messageFor d dest.identity.public pt rng)) (hne : relays ≠ []) :
    ¬ ProofReturns source dest (Relay.turnedBack relays) i j d pt rng := by
  rintro @⟨hash, b, b', g, g', line', back, line'', entropy, entropy', now, -, hsent, hpass, hans, hlater, hback, -⟩
  obtain ⟨c, c', relays', hsent', -, hpass', -, hproof⟩ := h.carries hD hA true j entropy
  rw [sendMessageWithReceipt_fst, hsent'] at hsent
  obtain ⟨-, rfl⟩ := Prod.mk.inj (List.mem_singleton.mp hsent)
  obtain ⟨rfl, rfl⟩ := hpass'.unique (fun _ _ _ _ _ _ h h' => h.unique h') hpass
  obtain ⟨receipt, proof, hg⟩ := hproof _ hans
  have hg : g = (Packet.explicitProof receipt proof).encode := hg
  subst hg
  refine Lts.Pass.not_of_head (fun r _ r' f => Relay.not_passes (explicitProof_dropped _ _ _ _ _)) ?_ hback
  intro hnil
  have hlen := hpass'.length_eq
  rw [hlater.length_eq, ← Relay.length_turnedBack back, hnil, Relay.length_turnedBack] at hlen
  exact hne (List.length_eq_zero_iff.mp hlen.symm)

/-- Over one relay or more, whoever knows the way gets no link and no receipt. -/
theorem KnownWay.not_linkForms_or_proofReturns (hD : Crypto.DhCommutes) (hA : Crypto.AesInverts) {source dest : Node}
    {relays : List Relay} {i j : UInt16} {d : Arr 16} {pt : Bytes} {rng rng' : Entropy}
    (h : KnownWay source dest relays i d (messageFor d dest.identity.public pt rng)) (hne : relays ≠ []) :
    ¬ LinkForms source dest (Relay.turnedBack relays) i j d rng' ∧
      ¬ ProofReturns source dest (Relay.turnedBack relays) i j d pt rng :=
  ⟨not_linkForms hne h.known.foreign, h.not_proofReturns hD hA hne⟩

/-- Over one relay or more, links do not form and receipts do not return. -/
theorem no_links_or_receipts_over_relays (hS : Crypto.SignVerifies) (hD : Crypto.DhCommutes) (hA : Crypto.AesInverts)
    {source dest source' dest' : Node} {relays line : List Relay} {i j : UInt16} {d : Arr 16} {pt : Bytes}
    {rng rng' : Entropy} (hne : relays ≠ [])
    (h : ChainLearned source dest relays i j d (messageFor d dest.identity.public pt rng) source' line dest') :
    ¬ LinkForms source' dest' line i j d rng' ∧ ¬ ProofReturns source' dest' line i j d pt rng := by
  obtain ⟨back, rfl, hlen, hid, hway⟩ := h.knownWay hS rfl rfl
  rw [← hid] at hway
  have hback : back ≠ [] := by
    rintro rfl
    exact hne (List.length_eq_zero_iff.mp hlen.symm)
  exact hway.not_linkForms_or_proofReturns hD hA hback

end

section
open Sample

theorem no_links_or_receipts_over_relays_town :
    ¬ LinkForms townSource townListener townLine 4 0 townDest (entropy 21) ∧
      ¬ ProofReturns townSource townListener townLine 4 0 townDest [1, 2, 3] (entropy 11) :=
  no_links_or_receipts_over_relays signVerifies dhCommutes aesInverts (List.cons_ne_nil _ _) town_learned

/-- Two relays carry messages to the town, but no link and no receipt. -/
theorem relays_drop_links_and_receipts : ¬ ∀ (source dest source' dest' : Node) (relays line : List Relay) (i j : UInt16)
    (d : Arr 16) (pt : Bytes) (rng rng' : Entropy), relays ≠ [] →
    (∃ l, dest.locals.find? (·.destHash = d) = some l ∧ l.kind = .single true) →
    ChainLearned source dest relays i j d (messageFor d dest.identity.public pt rng) source' line dest' →
    LinkForms source' dest' line i j d rng' ∧ ProofReturns source' dest' line i j d pt rng := by
  intro h
  have hl : townProver.locals.find? (·.destHash = townDest) = some ⟨nameHash "town" [], townDest, .single true⟩ := by
    decide +kernel
  have hforms := (h _ _ _ _ _ _ _ _ _ _ _ (entropy 21) (List.cons_ne_nil _ _) ⟨_, hl, rfl⟩ town_learned).1
  obtain ⟨back, hline, hlen, -, hway⟩ := town_learned.knownWay signVerifies rfl rfl
  rw [hline] at hforms
  refine not_linkForms ?_ hway.known.foreign hforms
  rintro rfl
  exact absurd hlen (by decide)

end

end Reticulum
