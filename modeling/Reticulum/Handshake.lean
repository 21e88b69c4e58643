import Reticulum.Chain
import Reticulum.KeyAgreement
import Reticulum.Token

/-!
# A link between neighbours

What the two ends of a link do with each other's frames when nothing stands in
the way: the request is answered, the proof verifies, and data is opened.
-/

namespace Reticulum

open Node

/-! ## How an entry goes on -/

/-- How the entry of a link goes on when the link is not asked for again. -/
inductive EntryMove (link : LinkEntry) : LinkEntry → Prop
  | kept (activity keepalive : Nat) : EntryMove link { link with lastActivity := activity, lastKeepalive := keepalive }
  | closed {link' : LinkEntry} : link'.status = .closed → EntryMove link link'
  | proven {link' : LinkEntry} : link.status = .pending → link'.status = .active → EntryMove link link'

namespace EntryMove

variable {link link' link'' : LinkEntry}

theorem refl (link : LinkEntry) : EntryMove link link := .kept link.lastActivity link.lastKeepalive

theorem trans (h : EntryMove link link') (h' : EntryMove link' link'') : EntryMove link link'' := by
  cases h' with
  | closed hc => exact .closed hc
  | kept =>
    cases h with
    | kept => exact .kept _ _
    | closed hc => exact .closed hc
    | proven hp ha => exact .proven hp ha
  | proven hp ha =>
    cases h with
    | kept => exact .proven hp ha
    | closed hc =>
      rw [hc] at hp
      cases hp
    | proven _ ha' =>
      rw [ha'] at hp
      cases hp

/-- An entry that is still Pending has kept what it was asked for with. -/
theorem of_pending (h : EntryMove link link') (hp : link'.status = .pending) :
    ∃ a k, link' = { link with lastActivity := a, lastKeepalive := k } := by
  cases h with
  | kept a k => exact ⟨a, k, rfl⟩
  | closed hc =>
    rw [hc] at hp
    cases hp
  | proven _ ha =>
    rw [ha] at hp
    cases hp

theorem of_active (h : EntryMove link link') (ha : link.status = .active) (ha' : link'.status = .active) :
    ∃ a k, link' = { link with lastActivity := a, lastKeepalive := k } := by
  cases h with
  | kept a k => exact ⟨a, k, rfl⟩
  | closed hc =>
    rw [hc] at ha'
    cases ha'
  | proven hp =>
    rw [ha] at hp
    cases hp

end EntryMove

section
variable [Crypto] [Rmp] [Bzip2]

theorem FreshStep.entryMove {n n' : Node} {l : Label} (hn : n.PendingOk) (h : FreshStep n l n') {id : Arr 16}
    {link : LinkEntry} (hl : n.links[id]? = some link) : ∃ link', n'.links[id]? = some link' ∧ EntryMove link link' := by
  cases h.2.linkChange hn id with
  | activity hc =>
    cases hc with
    | kept hl' => exact ⟨link, hl'.trans hl, .refl link⟩
    | touched hb _ hl' | keepalive hb _ hl' =>
      cases hl.symm.trans hb
      exact ⟨_, hl', .kept _ _⟩
    | closed hb _ t hl' => exact ⟨_, hl', .closed rfl⟩
  | requested hop hret =>
    rw [h.1 _ _ _ hop hret] at hl
    cases hl
  | accepted _ _ _ _ _ _ hfresh =>
    rw [hfresh] at hl
    cases hl
  | proven _ _ _ hb hp _ _ _ hl' =>
    cases hl.symm.trans hb
    exact ⟨_, hl', .proven hp rfl⟩

/-- An entry goes on in this way along every run that asks for no link twice. -/
theorem entryMove_of_run {n n' : Node} {tr : List Label} (hn : n.PendingOk) (h : Lts.Run FreshStep n tr n') {id : Arr 16}
    {link : LinkEntry} (hl : n.links[id]? = some link) :
    n'.PendingOk ∧ ∃ link', n'.links[id]? = some link' ∧ EntryMove link link' := by
  refine h.preserve (I := fun n' => n'.PendingOk ∧ ∃ link', n'.links[id]? = some link' ∧ EntryMove link link')
    (fun m l m' hm hst => ?_) ⟨hn, link, hl, .refl link⟩
  obtain ⟨hok, link', hl', hmove⟩ := hm
  obtain ⟨link'', hl'', hmove'⟩ := hst.entryMove hok hl'
  exact ⟨hst.2.pendingOk hok, link'', hl'', hmove.trans hmove'⟩

/-! ## The request -/

variable {n : Node} {d id : Arr 16} {i : UInt16}

omit [Rmp] [Bzip2] in
/-- A link is asked for with one frame, on the interface of the path. -/
theorem Node.establishLink_eq {e : PathEntry} (he : n.paths.get d = some e) (hlive : n.nowSecs < e.expiresAt)
    (hnear : e.hops.toNat ≤ 1) (rng : Entropy) : n.establishLink d rng =
      ((n.prunePaths.setLink (linkIdFromRequest (linkRequestFor d rng)) (n.requestedLink e (LinkEphemeral.generate rng).1)).emit
          [(e.interface, linkRequestFor d rng)],
        .ok (linkIdFromRequest (linkRequestFor d rng))) := by
  have hget : n.prunePaths.paths.get d = some e := PathTable.get_prune_of_lt he hlive
  have hroute : route e (linkRequestFor d rng) = .ok (linkRequestFor d rng) := by
    have hhops : ¬ e.hops > 1 := by
      rw [gt_iff_lt, UInt8.lt_iff_toNat_lt, UInt8.toNat_one]
      omega
    unfold route
    rw [if_neg hhops]
  have hroute' : route e (Packet.linkRequest d (linkRequestPayload (LinkEphemeral.generate rng).1)) =
    .ok (linkRequestFor d rng) := hroute
  unfold establishLink
  simp only [hget, hroute']
  rfl

/-- The packet of the frame has not been seen. -/
def Node.Unheard (n : Node) (f : Bytes) : Prop := ∀ p, Packet.decode f = .ok p → n.seenPackets[p.packetHash]? = none

omit [Rmp] [Bzip2] in
theorem Node.Unheard.admits {p : Packet} (h : n.Unheard p.encode) (hw : p.WellFormed) (h0 : p.hops = 0)
    (hd : p.destHash = d.1) : n.Admits p.encode p d := by
  have hdec := Packet.decode_encode hw
  refine ⟨hdec, ?_, ?_, hd⟩
  · rw [h0]
    decide
  · rw [Std.ExtTreeMap.contains_eq_isSome_getElem?, maybePrune_unseen (h p hdec)]
    rfl

/-! ## The answer -/

omit [Crypto] [Rmp] [Bzip2] in
theorem parseLinkRequest_payload (e : LinkEphemeral) : parseLinkRequest (linkRequestPayload e) = .ok (e.x25519Pub, e.ed25519Pub) := by
  have hlen : (linkRequestPayload e).length = LINK_REQUEST_LEN := by
    rw [linkRequestPayload, List.length_append, e.x25519Pub.2, e.ed25519Pub.2]
    rfl
  have hfirst : (linkRequestPayload e).take 32 = e.x25519Pub.1 := List.take_left' e.x25519Pub.2
  have hsecond : ((linkRequestPayload e).drop 32).take 32 = e.ed25519Pub.1 := by
    rw [linkRequestPayload, List.drop_left' e.x25519Pub.2, List.take_of_length_le e.ed25519Pub.2.le]
  unfold parseLinkRequest
  rw [dif_neg (fun h => h.1 hlen)]
  exact congrArg Except.ok (Prod.ext (Subtype.ext hfirst) (Subtype.ext hsecond))

/-- The answer of a destination to a request that it has not heard, for a link that it does not hold. -/
theorem Node.handleInbound_request {rng : Entropy} (hnew : n.Unheard (linkRequestFor d rng).encode) (hd : n.hasSingle d = true)
    (hid : id = linkIdFromRequest (linkRequestFor d rng)) (hl : n.links[id]? = none) (r : Entropy) :
    n.handleInboundInner (linkRequestFor d rng).encode i (some r) =
      ((((n.admitted (linkRequestFor d rng)).addSigned
            (linkProofMessage id (LinkEphemeral.generate r).1.x25519Pub n.identity.public.sigPub [])).setLink id
          (n.acceptedLink id (LinkEphemeral.generate r).1 (LinkEphemeral.generate rng).1.x25519Pub i)).emit
        [(i, Packet.proof id (buildLinkProof n.identity id (LinkEphemeral.generate r).1) LRPROOF)], [.linkEstablished id]) := by
  have hadm : n.Admits (linkRequestFor d rng).encode (linkRequestFor d rng) d :=
    hnew.admits (linkRequestFor_wellFormed d rng) rfl rfl
  have helse : (n.admitted (linkRequestFor d rng)).addressedElsewhere (received (linkRequestFor d rng)) = false := rfl
  have hsingle : (n.admitted (linkRequestFor d rng)).hasSingle d = true := by simpa [hasSingle] using hd
  have hid' : linkIdFromRequest (received (linkRequestFor d rng)) = id := hid.symm
  have hl' : (n.admitted (linkRequestFor d rng)).links[id]? = none := by simpa using hl
  have hparse : parseLinkRequest (received (linkRequestFor d rng)).data =
      .ok ((LinkEphemeral.generate rng).1.x25519Pub, (LinkEphemeral.generate rng).1.ed25519Pub) := parseLinkRequest_payload _
  have hkinds : LINKREQUEST ≠ DATA := by decide
  have hkind : (received (linkRequestFor d rng)).packetType = LINKREQUEST := rfl
  rw [handleInboundInner_of_admits hadm]
  unfold dispatch
  simp only [hkind, hkinds, false_and, if_false, if_true]
  unfold handleLinkRequest
  simp only [helse, hsingle, hparse, hid', hl', Bool.false_eq_true, Bool.true_eq_false, if_false]
  have hidentity : (n.admitted (linkRequestFor d rng)).identity = n.identity := (maybePrune_keeps n n.nowSecs).1
  have hlink (eph : LinkEphemeral) (peer : Arr 32) :
      n.acceptedLink id eph peer i = (n.admitted (linkRequestFor d rng)).acceptedLink id eph peer i := by
    simp [acceptedLink]
  rw [← hidentity, hlink]
  rfl

/-! ## The proof -/

omit [Rmp] [Bzip2] in
theorem verifyLinkProof_build (hS : Crypto.SignVerifies) (identity : Identity) (id : Arr 16) (e : LinkEphemeral) :
    verifyLinkProof identity.public id (buildLinkProof identity id e) = .ok e.x25519Pub := by
  let signed := linkProofMessage id e.x25519Pub identity.public.sigPub []
  have hlen : (buildLinkProof identity id e).length = 96 := by
    rw [buildLinkProof, List.length_append, (identity.sign _).2, e.x25519Pub.2]
  have hsig : (buildLinkProof identity id e).take 64 = (identity.sign signed).1 := List.take_left' (identity.sign signed).2
  have hpeer : ((buildLinkProof identity id e).drop 64).take 32 = e.x25519Pub.1 := by
    rw [buildLinkProof, List.drop_left' (identity.sign _).2, List.take_of_length_le e.x25519Pub.2.le]
  have hrest : (buildLinkProof identity id e).drop 96 = [] := List.drop_eq_nil_of_le hlen.le
  unfold verifyLinkProof
  rw [dif_neg (by omega), if_neg (fun h => h.1 hlen)]
  simp only [hsig, hpeer, hrest]
  rw [identity.verify_sign hS signed]

/-- The initiator's side of the proof: the link is active, and the handshake is finished with one frame. -/
theorem Node.handleInbound_linkProof {p : Packet} {link : LinkEntry} {pub : PublicIdentity} {peer : Arr 32} {proof : Bytes}
    (hp : p = Packet.proof id proof LRPROOF) (hnew : n.Unheard p.encode) (hl : n.links[id]? = some link) (hpend : link.status = .pending)
    (hinit : link.initiator = true) (hpub : link.destinationPublic = some pub) (hv : verifyLinkProof pub id proof = .ok peer)
    (r : Entropy) : n.handleInboundInner p.encode i (some r) =
      (((n.admitted p).setLink id (n.provenLink link id peer)).emit
        [(link.interface, Packet.linkContext id LRRTT
          (Token.sealWithKey (deriveLinkKey link.ephemeral.x25519Prv peer id) rttPlaintext (r.fill 16).1))],
        [.linkEstablished id]) := by
  subst hp
  have hadm : n.Admits (Packet.proof id proof LRPROOF).encode (Packet.proof id proof LRPROOF) id :=
    hnew.admits (wellFormed_proof id proof LRPROOF) rfl rfl
  have hl' : (n.admitted (Packet.proof id proof LRPROOF)).links[id]? = some link := by simpa using hl
  have hlink : n.provenLink link id peer = (n.admitted (Packet.proof id proof LRPROOF)).provenLink link id peer := by
    simp [provenLink]
  have hv' : verifyLinkProof pub id (received (Packet.proof id proof LRPROOF)).data = .ok peer := hv
  have hkind : (received (Packet.proof id proof LRPROOF)).packetType = PROOF := rfl
  have hdest : (received (Packet.proof id proof LRPROOF)).destType = LINK := rfl
  have hcontext : (received (Packet.proof id proof LRPROOF)).context = LRPROOF := rfl
  have hkinds : PROOF ≠ DATA ∧ PROOF ≠ LINKREQUEST := by decide
  rw [handleInboundInner_of_admits hadm, hlink]
  obtain ⟨status, initiator, _, _, destinationPublic, _, _, _, _⟩ := link
  cases hpend
  cases hinit
  cases hpub
  unfold dispatch
  simp only [hkind, hdest, hcontext, hkinds, false_and, and_self, if_false, if_true]
  unfold handleLinkProof
  simp only [hl', hv', and_self, not_true_eq_false, if_false]
  rfl

/-! ## Data over the link -/

omit [Rmp] [Bzip2] in
theorem Node.linkSend_eq {link : LinkEntry} {key : Arr 64} (ha : n.ActiveOn id i link key) (pt : Bytes) (rng : Entropy) :
    n.linkSend id pt rng =
      ((n.touch id link).emit [(i, Packet.linkData id (Token.sealWithKey key pt (rng.fill 16).1))], .ok ()) := by
  have hactive : n.activeLink id = some (key, i) := by
    unfold activeLink
    simp [ha.get, ha.status, ha.key, ha.interface]
  have hmod := BTreeMap.modify_eq_insert ha.get fun link => { link with lastActivity := n.nowSecs }
  unfold linkSend
  simp only [hactive, touch, emit, ← hmod]
  rfl

theorem Node.handleInbound_linkData (hA : Crypto.AesInverts) {p : Packet} {link : LinkEntry} {key : Arr 64} {pt : Bytes} {iv : Arr 16}
    (hp : p = Packet.linkData id (Token.sealWithKey key pt iv)) (hnew : n.Unheard p.encode) (ha : n.ActiveOn id i link key)
    (r : Option Entropy) : (n.handleInboundInner p.encode i r).2 = [.linkData id pt] := by
  subst hp
  let p := Packet.linkData id (Token.sealWithKey key pt iv)
  have hadm : n.Admits p.encode p id := hnew.admits (wellFormed_linkContext id 0 _) rfl rfl
  have hl : (n.admitted p).links[id]? = some link := by simpa using ha.get
  have hopen : Token.openWithKey key (received p).data = .ok pt := Token.openWithKey_sealWithKey hA key pt iv
  have hcontext : (received p).context = 0 := rfl
  have hcontexts : (0 : UInt8) ≠ RESOURCE ∧ (0 : UInt8) ≠ KEEPALIVE ∧ (0 : UInt8) ≠ LRRTT ∧ (0 : UInt8) ≠ LINKCLOSE := by decide
  rw [handleInboundInner_of_admits hadm, dispatch_linkData (p := received p) rfl rfl]
  unfold handleLinkData
  simp only [hl, ha.status, ha.interface, ha.key, hopen, hcontext, hcontexts, and_self, not_true_eq_false, if_false, if_true]

end

end Reticulum
