import Reticulum.ResourceSteps
import Reticulum.Sample

/-!
# Frames that fail authentication

Every check comes before the first assignment: a forged announce, proof or
token leaves the node as it was, but for the dedup maps.
-/

namespace Reticulum

namespace Node

section
variable [Crypto]

/-- A packet for `d` that the node checks, and that fails the check. -/
inductive Forged (n : Node) (p : Packet) (d : Arr 16) : Prop
  | announce : p.packetType = ANNOUNCE →
    (∀ a, Announce.parse p.data p.contextFlag = .ok a → a.verify d ≠ .ok ()) → Forged n p d
  | linkProof : p.packetType = PROOF → p.destType = LINK → p.context = LRPROOF →
    (∀ link pub peer, n.links[d]? = some link → link.destinationPublic = some pub →
      verifyLinkProof pub d p.data ≠ .ok peer) → Forged n p d
  | deliveryProof : p.packetType = PROOF → p.destType = SINGLE →
    (∀ h receipt, Arr.slice? p.data 0 32 = some h → n.pendingReceipts[h]? = some receipt →
      verifyProof receipt.destinationPublic p.data ≠ .ok h) → Forged n p d
  | resourceProof : p.packetType = PROOF → p.destType = LINK → p.context = RESOURCE_PRF →
    (∀ (hash : Arr 32) (r : OutboundResource), n.outboundResources[(d, hash)]? = some r →
      p.data ≠ hash.1 ++ r.expectedProof.1) → Forged n p d
  | linkData : p.packetType = DATA → p.destType = LINK → p.context ≠ KEEPALIVE → p.context ≠ RESOURCE →
    (∀ link key pt, n.links[d]? = some link → link.derivedKey = some key → Token.openWithKey key p.data ≠ .ok pt) →
    Forged n p d
  | message {l : LocalDestination} : p.packetType = DATA → p.destType = SINGLE ∨ p.destType = GROUP →
    n.locals.find? (·.destHash = d) = some l → (∀ pt prove, n.openLocal l.kind p ≠ some (.ok pt, prove)) →
    Forged n p d

/-- No resource is kept once its proof has come. -/
def Unproven (n : Node) : Prop :=
  ∀ (key : ResourceKey) (r : OutboundResource), n.outboundResources[key]? = some r → r.completed = false

/-! ## Handlers -/

/-- The node as it was, with no event but an error. -/
def Refused (n : Node) (out : Node × List Event) : Prop := out.1 = n ∧ ∀ e ∈ out.2, ∃ error, e = .error error

variable {n : Node} {p : Packet} {d : Arr 16} {i : UInt16}

omit [Crypto] in
theorem Refused.silent : n.Refused (n, []) := ⟨rfl, by simp⟩

omit [Crypto] in
theorem Refused.failed (error : NodeError) : n.Refused (n, [.error error]) := ⟨rfl, by simp⟩

theorem AnnounceCase.refused {out : Node × List Event} (h : AnnounceCase n p d i out)
    (hf : ∀ a, Announce.parse p.data p.contextFlag = .ok a → a.verify d ≠ .ok ()) : n.Refused out := by
  cases h with
  | ignored => exact .silent
  | badSignature e => exact .failed _
  | notBetter ha => exact absurd ha.verified (hf _ ha.parsed)
  | accepted ha => exact absurd ha.verified (hf _ ha.parsed)

theorem LinkProofCase.refused {rng : Option Entropy} {out : Node × List Event} (h : LinkProofCase n p d rng out)
    (hf : ∀ link pub peer, n.links[d]? = some link → link.destinationPublic = some pub →
      verifyLinkProof pub d p.data ≠ .ok peer) : n.Refused out := by
  cases h with
  | ignored => exact .silent
  | badProof e => exact .failed _
  | proven hl _ _ hpub hv => exact absurd hv (hf _ _ _ hl hpub)

theorem verifyProof_ok {pub : PublicIdentity} {data : Bytes} {h : Arr 32} (hv : verifyProof pub data = .ok h) :
    Arr.slice? data 0 32 = some h := by
  unfold verifyProof at hv
  split at hv
  · cases hv
  · split at hv
    · cases hv
    · dsimp only at hv
      split at hv
      · cases hv
      · cases hv
        exact Arr.ofSlice?_eq_some.mpr (by simp)

theorem DeliveryProofCase.refused {out : Node × List Event} (h : DeliveryProofCase n p out)
    (hf : ∀ h receipt, Arr.slice? p.data 0 32 = some h → n.pendingReceipts[h]? = some receipt →
      verifyProof receipt.destinationPublic p.data ≠ .ok h) : n.Refused out := by
  cases h with
  | ignored => exact .silent
  | delivered hr hv => exact absurd hv (hf _ _ (verifyProof_ok hv) hr)

omit [Crypto] in
/-- A proof that does not match leaves a resource that waits for it as it is. -/
theorem onProof_of_ne {r : OutboundResource} {hash : Arr 32} {data : Bytes} (hr : r.completed = false)
    (hs : Arr.slice? data 0 32 = some hash) (hne : data ≠ hash.1 ++ r.expectedProof.1) :
    r.onProof data = (r, false) := by
  have hprefix : data.take 32 = hash.1 := by simpa [Arr.slice?] using Arr.ofSlice?_eq_some.mp hs
  have hmiss : ¬ (data.length = 64 ∧ data.take 32 = r.hash.1 ∧ data.drop 32 = r.expectedProof.1) := by
    rintro ⟨-, -, hd⟩
    apply hne
    rw [← hprefix, ← hd, List.take_append_drop]
  rw [OutboundResource.onProof, hr, decide_eq_false hmiss, Bool.false_or, ← hr]

omit [Crypto] in
theorem ResourceProofCase.refused {out : Node × List Event} (h : ResourceProofCase n p d out) (hu : n.Unproven)
    (hf : ∀ (hash : Arr 32) (r : OutboundResource), n.outboundResources[(d, hash)]? = some r →
      p.data ≠ hash.1 ++ r.expectedProof.1) : n.Refused out := by
  cases h with
  | ignored => exact .silent
  | completed hs hr hc =>
    rw [onProof_of_ne (hu _ _ hr) hs (hf _ _ hr)] at hc
    cases hc
  | kept hs hr _ =>
    rw [onProof_of_ne (hu _ _ hr) hs (hf _ _ hr)]
    refine ⟨?_, by simp⟩
    simp only [setOutbound, BTreeMap.insert_of_get hr]

theorem DataCase.refused {l : LocalDestination} {out : Node × List Event} (h : DataCase n p d i out)
    (hl : n.locals.find? (·.destHash = d) = some l) (hf : ∀ pt prove, n.openLocal l.kind p ≠ some (.ok pt, prove)) :
    n.Refused out := by
  cases h with
  | ignored => exact .silent
  | badToken e => exact .failed _
  | relayed _ hnone => cases hnone.symm.trans hl
  | message _ hl' ho =>
    cases hl'.symm.trans hl
    exact absurd ho (hf _ _)
  | provenMessage _ hl' ho =>
    cases hl'.symm.trans hl
    exact absurd ho (hf _ _)

theorem handleLinkData_refused [Rmp] [Bzip2] (rng : Option Entropy) (hk : p.context ≠ KEEPALIVE)
    (hr : p.context ≠ RESOURCE) (hf : ∀ link key pt, n.links[d]? = some link → link.derivedKey = some key →
      Token.openWithKey key p.data ≠ .ok pt) : n.Refused (n.handleLinkData p d i rng) := by
  unfold handleLinkData
  split
  · exact .silent
  · rename_i link hl
    split
    · exact .silent
    · split
      · exact .silent
      · rename_i key hkey
        split
        · exact .failed _
        · rename_i pt hopen
          exact absurd hopen (hf _ _ _ hl hkey)

theorem dispatch_refused [Rmp] [Bzip2] (rng : Option Entropy) (hu : n.Unproven) (hf : n.Forged p d) :
    n.Refused (n.dispatch p d i rng) := by
  have hkinds : ANNOUNCE ≠ DATA ∧ ANNOUNCE ≠ LINKREQUEST ∧ ANNOUNCE ≠ PROOF ∧ PROOF ≠ DATA ∧ PROOF ≠ LINKREQUEST ∧
      DATA ≠ LINKREQUEST ∧ DATA ≠ PROOF ∧ DATA ≠ ANNOUNCE := by decide
  have hdests : SINGLE ≠ LINK ∧ GROUP ≠ LINK ∧ SINGLE ≠ PLAIN ∧ GROUP ≠ PLAIN ∧ LINK ≠ PLAIN ∧ LINK ≠ SINGLE := by decide
  have hproofs : RESOURCE_PRF ≠ LRPROOF := by decide
  unfold dispatch
  cases hf with
  | announce ht hf => simpa [ht, hkinds] using (handleAnnounce_cases n p d i).refused hf
  | linkProof ht hd hc hf => simpa [ht, hd, hc, hkinds] using (handleLinkProof_cases n p d rng).refused hf
  | deliveryProof ht hd hf => simpa [ht, hd, hkinds, hdests] using (handleDeliveryProof_cases n p d).refused hf
  | resourceProof ht hd hc hf =>
    simpa [ht, hd, hc, hkinds, hdests, hproofs] using (handleResourceProof_cases n p d).refused hu hf
  | linkData ht hd hk hr hf => simpa [ht, hd, hkinds, hdests] using handleLinkData_refused rng hk hr hf
  | message ht hd hl hf =>
    have h := (handleData_cases n p d i).refused hl hf
    rcases hd with hd | hd <;> simpa [ht, hd, hkinds, hdests] using h

theorem Forged.received (hf : n.Forged p d) : n.Forged (received p) d := by
  cases hf with
  | announce ht hf => exact .announce ht hf
  | linkProof ht hd hc hf => exact .linkProof ht hd hc hf
  | deliveryProof ht hd hf => exact .deliveryProof ht hd hf
  | resourceProof ht hd hc hf => exact .resourceProof ht hd hc hf
  | linkData ht hd hk hr hf => exact .linkData ht hd hk hr hf
  | message ht hd hl hf => exact .message ht hd hl hf

/-- What a refused frame may change: the dedup maps, by the frame's own hash and by what has expired. -/
structure Untouched (n n' : Node) : Prop where
  eq : n' = { n with
    seenPackets := n'.seenPackets
    seenAnnounces := n'.seenAnnounces
    seenPathRequests := n'.seenPathRequests
    lastPrune := n'.lastPrune }
  seenAnnounces : n'.seenAnnounces = n.seenAnnounces ∨
    n'.seenAnnounces = n.seenAnnounces.filter fun _ expiresAt => expiresAt > n.nowSecs
  seenPathRequests : n'.seenPathRequests = n.seenPathRequests ∨
    n'.seenPathRequests = n.seenPathRequests.filter fun _ expiresAt => expiresAt > n.nowSecs

omit [Crypto] in
theorem untouched_maybePrune (n : Node) : n.Untouched (n.maybePrune n.nowSecs) := by
  unfold maybePrune
  split
  · exact ⟨rfl, .inl rfl, .inl rfl⟩
  · exact ⟨rfl, .inr rfl, .inr rfl⟩

omit [Crypto] in
theorem Untouched.withSeen {n' : Node} (h : n.Untouched n') (s : BTreeMap (Arr 16) Nat) :
    n.Untouched { n' with seenPackets := s } := ⟨by rw [h.eq], h.seenAnnounces, h.seenPathRequests⟩

omit [Crypto] in
theorem Untouched.unproven {n' : Node} (h : n.Untouched n') (hu : n.Unproven) : n'.Unproven := by
  rw [h.eq]
  exact hu

theorem Untouched.forged {n' : Node} (h : n.Untouched n') (hf : n.Forged p d) : n'.Forged p d := by
  rw [h.eq]
  cases hf with
  | announce ht hf => exact .announce ht hf
  | linkProof ht hd hc hf => exact .linkProof ht hd hc hf
  | deliveryProof ht hd hf => exact .deliveryProof ht hd hf
  | resourceProof ht hd hc hf => exact .resourceProof ht hd hc hf
  | linkData ht hd hk hr hf => exact .linkData ht hd hk hr hf
  | message ht hd hl hf => exact .message ht hd hl hf

/-! ## Steps -/

variable [Rmp] [Bzip2]

/-- A frame that arrives on any interface, with or without entropy, and is not what it claims to be. -/
theorem handleInboundInner_refused {b : Bytes} (rng : Option Entropy) (hu : n.Unproven) (hdec : Packet.decode b = .ok p)
    (hd : p.destHash = d.1) (hf : n.Forged p d) :
    n.Untouched (n.handleInboundInner b i rng).1 ∧
      ∀ e ∈ (n.handleInboundInner b i rng).2, ∃ error, e = .error error := by
  have h := n.admission_cases b
  unfold handleInboundInner
  generalize n.admission b = r at h
  cases h with
  | malformed => exact ⟨⟨rfl, .inl rfl, .inl rfl⟩, by simp⟩
  | duplicate => exact ⟨untouched_maybePrune n, by simp⟩
  | admitted ha =>
    cases ha.decoded.symm.trans hdec
    obtain rfl := Subtype.ext (ha.dest.symm.trans hd)
    have hsame : n.Untouched (n.admitted p) := (untouched_maybePrune n).withSeen _
    have hforged : (n.admitted p).Forged (received p) _ := (hsame.forged hf).received
    obtain ⟨hn, he⟩ := dispatch_refused rng (hsame.unproven hu) hforged
    dsimp only
    rw [hn]
    exact ⟨hsame, he⟩

end

end Node

open Node

section
variable [Crypto] [Rmp] [Bzip2]

theorem NodeStep.unproven {n n' : Node} {l : Label} (hu : n.Unproven) (h : NodeStep n l n') : n'.Unproven := by
  intro key r' hr'
  cases h.outboundOrigin hr' with
  | kept had =>
    obtain ⟨r, t, hr, rfl⟩ := had
    exact hu key r hr
  | sent _ hnew => exact OutboundResource.new_completed hnew

theorem unproven_of_run {identity : Identity} {clock : UInt64} {tr : List Label} {n : Node}
    (h : Lts.Run NodeStep (withClock identity clock) tr n) : n.Unproven :=
  h.preserve (fun _ _ _ hu hst => hst.unproven hu) (by simp [Unproven, withClock])

/-- A frame that fails its authentication check changes nothing but the dedup maps, and reports nothing but an error. -/
theorem forged_frame_changes_nothing {identity : Identity} {clock : UInt64} {tr : List Label} {n n' : Node} {l : Label}
    {b : Bytes} {i : UInt16} {rng : Option Entropy} {p : Packet} {d : Arr 16}
    (h : Lts.Run NodeStep (withClock identity clock) tr n) (hst : NodeStep n l n')
    (hop : l.1.inbound? = some (b, i, rng)) (hdec : Packet.decode b = .ok p) (hd : p.destHash = d.1)
    (hf : n.Forged p d) : n.Untouched n' ∧ ∀ e ∈ l.2.events, ∃ error, e = .error error := by
  have hout := handleInboundInner_refused (i := i) rng (unproven_of_run h) hdec hd hf
  rw [hst.inbound hop] at hout
  exact hout

end

section
open Sample

def clubKey : Arr 64 := arr 64 5

def clubDest : Arr 16 := ((withClock (identity 4) 100).registerGroupDestination "club" [] clubKey).2

/-- A node with a GROUP destination. -/
def clubhouse : Node := ((withClock (identity 4) 100).registerGroupDestination "club" [] clubKey).1

/-- A packet for the group from someone without its key. -/
def crashed : Packet := Packet.dataFor GROUP clubDest [1, 2, 3]

def clubMember : LocalDestination := ⟨nameHash "club" [], clubDest, .group clubKey⟩

theorem crashed_forged : clubhouse.Forged crashed clubDest := by
  refine .message rfl (.inr rfl) (show _ = some clubMember by decide +kernel) fun pt prove h => ?_
  have hfails : (clubhouse.openLocal clubMember.kind crashed).any (fun r => r.1.isOk) = false := by decide +kernel
  rw [h] at hfails
  cases hfails

theorem forged_frame_changes_nothing_club :
    clubhouse.Untouched (clubhouse.handleInbound crashed.encode 0).1 ∧
      ∀ e ∈ (clubhouse.handleInbound crashed.encode 0).2, ∃ error, e = .error error := by
  have hrun : Lts.Run NodeStep (withClock (identity 4) 100)
      [(.registerGroupDestination "club" [] clubKey, { ret := .dest clubDest })] clubhouse := .single rfl
  have hdec : Packet.decode crashed.encode = .ok crashed := Packet.decode_encode (wellFormed_dataFor (by decide) _ _)
  have hd : crashed.destHash = clubDest.1 := rfl
  have hrefused := forged_frame_changes_nothing hrun (clubhouse.step_handleInbound crashed.encode 0) rfl hdec hd
    crashed_forged
  dsimp only at hrefused
  exact hrefused

end

end Reticulum
