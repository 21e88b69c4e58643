import Reticulum.LinkSteps
import Reticulum.Sample

/-!
# Destinations and the keys behind them

A path entry comes from an announce that verifies under the key it carries.
Whether the destination hash is derived from that key is checked nowhere, so
the binding of destinations to keys rests on the announces a node takes up.
-/

namespace Reticulum

open Node

/-! ## How path entries appear -/

section
variable [Crypto]

/-- An announce frame that reaches the path table and is preferred there. -/
structure TakesUp (n : Node) (b : Bytes) (i : UInt16) (p : Packet) (d : Arr 16) (a : Announce)
    (pub : PublicIdentity) : Prop where
  admits : n.Admits b p d
  kind : p.packetType = ANNOUNCE
  announces : (n.admitted p).Announces (received p) d a
  key : PublicIdentity.fromBytes a.pub.1 = .ok pub
  preferred : (n.paths.update d (announcedEntry (received p) a pub i n.nowSecs) n.nowSecs).2 = true

namespace Node

/-- How a handler treats the path table. -/
inductive PathChange (n : Node) (p : Packet) (d : Arr 16) (i : UInt16) (n' : Node) : Prop
  | pruned (paths : n'.paths = n.paths ∨ n'.paths = n.paths.prune n.nowSecs)
  | learned {a : Announce} {pub : PublicIdentity} (kind : p.packetType = ANNOUNCE) (announces : n.Announces p d a)
    (key : PublicIdentity.fromBytes a.pub.1 = .ok pub)
    (preferred : (n.paths.update d (announcedEntry p a pub i n.nowSecs) n.nowSecs).2 = true)
    (paths : n'.paths = ⟨n.paths.entries.insert d (announcedEntry p a pub i n.nowSecs)⟩)

theorem DispatchCase.paths [Rmp] [Bzip2] {n : Node} {p : Packet} {d : Arr 16} {i : UInt16} {out : Node × List Event}
    (h : DispatchCase n p d i out) : n.PathChange p d i out.1 := by
  cases h with
  | pathRequest =>
    obtain ⟨_, _, heq, -⟩ := handlePathRequest_cases n p i
    rw [heq]
    exact .pruned (.inl rfl)
  | ignored => exact .pruned (.inl rfl)
  | linkRequest _ hr => cases hr <;> exact .pruned (.inl rfl)
  | linkProof _ _ _ hr => cases hr <;> exact .pruned (.inl rfl)
  | deliveryProof _ hr => cases hr <;> exact .pruned (.inl rfl)
  | resourceProof _ _ _ hr => cases hr <;> exact .pruned (.inl rfl)
  | linkData _ _ hr => exact .pruned (.inl hr.sameRoutes.paths)
  | announce hk hr =>
    cases hr with
    | accepted ha hpub hu => exact .learned hk ha hpub (by rw [hu]) rfl
    | _ => exact .pruned (.inl rfl)
  | data _ _ _ hr =>
    cases hr with
    | relayed =>
      have hf := forwardData_cases n p d i
      generalize n.forwardData p d i = m at hf
      cases hf with
      | dropped => exact .pruned (.inl rfl)
      | _ => exact .pruned (.inr rfl)
    | _ => exact .pruned (.inl rfl)

end Node

/-- An entry is in the table because it was there before or because the step takes up its announce. -/
theorem NodeStep.path [Rmp] [Bzip2] {n n' : Node} {l : Label} (h : NodeStep n l n') {d : Arr 16} {e : PathEntry}
    (he : n'.paths.get d = some e) :
    n.paths.get d = some e ∨ ∃ b i rng p a, l.1.inbound? = some (b, i, rng) ∧ TakesUp n b i p d a e.pub ∧
      e = announcedEntry (received p) a e.pub i n.nowSecs := by
  have hpruned {m m' : Node} (hm : m.paths = n.paths) (h : m'.paths = m.paths ∨ m'.paths = m.paths.prune m.nowSecs)
      (he : m'.paths.get d = some e) : n.paths.get d = some e := hm ▸ get_of_pruned h he
  cases h.cases with
  | config _ hc => exact .inl (hpruned rfl hc.paths he)
  | announce hc => cases hc <;> exact .inl he
  | sent _ hc => exact .inl (hpruned rfl hc.paths he)
  | establish hc => cases hc <;> exact .inl (hpruned (m := n) rfl (.inr rfl) he)
  | linkSend hc => cases hc <;> exact .inl he
  | sendResource hc => cases hc <;> exact .inl he
  | close hc => cases hc <;> exact .inl he
  | tick => exact .inl ((tickInner_sameRoutes n _).paths ▸ he)
  | @inbound _ b i rng _ _ hop hc =>
    generalize hout : (n', _) = out at hc
    cases hc with
    | malformed => cases hout; exact .inl he
    | duplicate => cases hout; exact .inl (by simpa using he)
    | @admitted p d' _ ha hd =>
      subst hout
      have hpaths : (n.admitted p).paths = n.paths := by simp
      cases hd.paths with
      | pruned hp => exact .inl (hpruned hpaths hp he)
      | @learned a pub hk hann hkey hpref hp =>
        rw [hp, PathTable.get_insert_entry] at he
        rw [hpaths, nowSecs_admitted] at hpref
        split at he
        · rename_i hd'
          subst hd'
          cases he
          refine .inr ⟨b, i, rng, p, a, hop, ⟨ha, hk, hann, hkey, hpref⟩, ?_⟩
          rw [nowSecs_admitted]
          rfl
        · exact .inl (by simpa using he)

/-! ## Bound destinations -/

/-- The destination hash is the one of the announce's name hash and of the key. -/
def Announce.Derives (a : Announce) (d : Arr 16) (pub : PublicIdentity) : Prop :=
  d = destinationHash a.nameHash pub.hash

/-- The announces a step takes up are for destinations derived from their own keys. -/
def Owned [Rmp] [Bzip2] (n : Node) (l : Label) : Prop :=
  ∀ b i rng p d a pub, l.1.inbound? = some (b, i, rng) → TakesUp n b i p d a pub → a.Derives d pub

/-- An announce among the frames of a run that verifies and offers the entry. -/
def InstalledBy (tr : List Label) (d : Arr 16) (e : PathEntry) (a : Announce) : Prop :=
  ∃ l ∈ tr, ∃ b i rng p now, l.1.inbound? = some (b, i, rng) ∧ Packet.decode b = .ok p ∧ p.packetType = ANNOUNCE ∧
    p.destHash = d.1 ∧ Announce.parse p.data p.contextFlag = .ok a ∧ a.verify d = .ok () ∧
    PublicIdentity.fromBytes a.pub.1 = .ok e.pub ∧ e = announcedEntry (received p) a e.pub i now

/-- A link proof among the frames of a run that verifies under the key. -/
def ProvenBy (tr : List Label) (id : Arr 16) (pub : PublicIdentity) (peer : Arr 32) : Prop :=
  ∃ l ∈ tr, ∃ b p, l.1.inbound?.map (·.1) = some b ∧ Packet.decode b = .ok p ∧ p.destHash = id.1 ∧
    verifyLinkProof pub id p.data = .ok peer

/-- A key that a call of `establish_link` in the run took from a derived announce of its destination. -/
def RequestedFor (tr : List Label) (id : Arr 16) (pub : PublicIdentity) : Prop :=
  ∃ d rng out e a, (Op.establishLink d rng, out) ∈ tr ∧ out.ret = .link (.ok id) ∧ e.pub = pub ∧
    InstalledBy tr d e a ∧ a.Derives d pub

/-- Everything a node knows about the key of a destination goes back to an announce of the run that derives
the destination from that key. -/
structure Bound (tr : List Label) (n : Node) : Prop where
  paths : ∀ d e, n.paths.get d = some e → ∃ a, InstalledBy tr d e a ∧ a.Derives d e.pub
  links : ∀ (id : Arr 16) (link : LinkEntry) (pub : PublicIdentity), n.links[id]? = some link →
    link.destinationPublic = some pub → RequestedFor tr id pub
  proofs : ∀ (id : Arr 16) (link : LinkEntry) (peer : Arr 32), n.links[id]? = some link → link.initiator = true →
    link.peerX25519Pub = some peer → ∃ pub, link.destinationPublic = some pub ∧ ProvenBy tr id pub peer

theorem InstalledBy.mono {tr tr' : List Label} {d : Arr 16} {e : PathEntry} {a : Announce} (h : InstalledBy tr d e a)
    (hsub : tr ⊆ tr') : InstalledBy tr' d e a := by
  obtain ⟨l, hl, h⟩ := h
  exact ⟨l, hsub hl, h⟩

theorem ProvenBy.mono {tr tr' : List Label} {id : Arr 16} {pub : PublicIdentity} {peer : Arr 32}
    (h : ProvenBy tr id pub peer) (hsub : tr ⊆ tr') : ProvenBy tr' id pub peer := by
  obtain ⟨l, hl, h⟩ := h
  exact ⟨l, hsub hl, h⟩

theorem RequestedFor.mono {tr tr' : List Label} {id : Arr 16} {pub : PublicIdentity} (h : RequestedFor tr id pub)
    (hsub : tr ⊆ tr') : RequestedFor tr' id pub := by
  obtain ⟨d, rng, out, e, a, hm, hr, he, ha, hd⟩ := h
  exact ⟨d, rng, out, e, a, hsub hm, hr, he, ha.mono hsub, hd⟩

theorem bound_init (identity : Identity) (clock : UInt64) : Bound [] (withClock identity clock) :=
  ⟨by simp [withClock], by simp [withClock], by simp [withClock]⟩

variable [Rmp] [Bzip2]

/-- A path entry stays bound, and a new one is bound by its announce. -/
theorem Bound.path_step {tr : List Label} {n n' : Node} {l : Label} (hb : Bound tr n) (ho : Owned n l)
    (h : NodeStep n l n') {d : Arr 16} {e : PathEntry} (he : n'.paths.get d = some e) :
    ∃ a, InstalledBy (tr ++ [l]) d e a ∧ a.Derives d e.pub := by
  rcases h.path he with he | ⟨b, i, rng, p, a, hop, ht, heq⟩
  · obtain ⟨a, ha, hd⟩ := hb.paths d e he
    exact ⟨a, ha.mono (List.subset_append_left _ _), hd⟩
  · exact ⟨a, ⟨l, by simp, b, i, rng, p, n.nowSecs, hop, ht.admits.decoded, ht.kind, ht.admits.dest,
      ht.announces.parsed, ht.announces.verified, ht.key, heq⟩, ho b i rng p d a e.pub hop ht⟩

theorem Bound.link_step {tr : List Label} {n n' : Node} {l : Label} (hb : Bound tr n) (hn : n.PendingOk)
    (h : NodeStep n l n') {id : Arr 16} {link : LinkEntry} (hl : n'.links[id]? = some link) {pub : PublicIdentity}
    (hpub : link.destinationPublic = some pub) : RequestedFor (tr ++ [l]) id pub := by
  have hsub : tr ⊆ tr ++ [l] := List.subset_append_left _ _
  cases h.linkChange hn id with
  | activity hc =>
    cases hc with
    | kept h => exact (hb.links id link pub (h ▸ hl) hpub).mono hsub
    | touched hb' _ h | keepalive hb' _ h | closed hb' _ _ h =>
      cases h.symm.trans hl
      exact (hb.links id _ pub hb' hpub).mono hsub
  | @requested d rng e hop hret hpath _ h =>
    cases h.symm.trans hl
    cases hpub
    obtain ⟨a, ha, hder⟩ := hb.paths d e hpath
    refine ⟨d, rng, l.2, e, a, ?_, hret, rfl, ha.mono hsub, hder⟩
    rw [← hop]
    exact List.mem_append_right _ (List.mem_singleton_self l)
  | accepted _ _ _ _ _ _ _ _ h =>
    cases h.symm.trans hl
    cases hpub
  | proven _ _ _ hb' _ _ _ _ h =>
    cases h.symm.trans hl
    exact (hb.links id _ pub hb' hpub).mono hsub

/-- The peer key of an initiator's entry comes from a proof that verifies under the destination key. -/
theorem Bound.proof_step {tr : List Label} {n n' : Node} {l : Label} (hb : Bound tr n) (hn : n.PendingOk)
    (h : NodeStep n l n') {id : Arr 16} {link : LinkEntry} (hl : n'.links[id]? = some link) {peer : Arr 32}
    (hinit : link.initiator = true) (hpeer : link.peerX25519Pub = some peer) :
    ∃ pub, link.destinationPublic = some pub ∧ ProvenBy (tr ++ [l]) id pub peer := by
  have hold {link' : LinkEntry} (hl' : n.links[id]? = some link') (hi : link'.initiator = true)
      (hp : link'.peerX25519Pub = some peer) :
      ∃ pub, link'.destinationPublic = some pub ∧ ProvenBy (tr ++ [l]) id pub peer := by
    obtain ⟨pub, hpub, hproof⟩ := hb.proofs id link' peer hl' hi hp
    exact ⟨pub, hpub, hproof.mono (List.subset_append_left _ _)⟩
  cases h.linkChange hn id with
  | activity hc =>
    cases hc with
    | kept h => exact hold (h ▸ hl) hinit hpeer
    | touched hb' _ h | keepalive hb' _ h | closed hb' _ _ h =>
      cases h.symm.trans hl
      have := hold hb' hinit hpeer
      exact this
  | requested _ _ _ _ h =>
    cases h.symm.trans hl
    cases hpeer
  | accepted _ _ _ _ _ _ _ _ h =>
    cases h.symm.trans hl
    cases hinit
  | @proven b p _ pub _ hop hadm _ _ _ _ hkey hv h =>
    cases h.symm.trans hl
    cases hpeer
    exact ⟨pub, hkey, l, by simp, b, p, hop, hadm.decoded, hadm.dest, hv⟩

theorem Bound.step {tr : List Label} {n n' : Node} {l : Label} (hb : Bound tr n) (hn : n.PendingOk) (ho : Owned n l)
    (h : NodeStep n l n') : Bound (tr ++ [l]) n' :=
  ⟨fun _ _ he => hb.path_step ho h he, fun _ _ _ hl hpub => hb.link_step hn h hl hpub,
    fun _ _ _ hl hi hp => hb.proof_step hn h hl hi hp⟩

/-- A frame that carries a message for a destination, encrypted to the key of its path entry. -/
def SealedFor (n : Node) (d : Arr 16) (pt : Bytes) (rng : Entropy) (e : PathEntry) (f : UInt16 × Bytes) : Prop :=
  n.paths.get d = some e ∧ ∃ p, route e (Packet.dataSingle d (sealedFor e pt rng)) = .ok p ∧
    f = (e.interface, p.encode)

omit [Rmp] [Bzip2] in
theorem sendSingleMessage_sealed (n : Node) (d : Arr 16) (pt : Bytes) (rng : Entropy) (receipt : Bool) :
    ∀ f ∈ n.enqueued (n.sendSingleMessage d pt rng receipt).1, ∃ e, SealedFor n d pt rng e f := by
  have h := n.sendSingleMessage_cases d pt rng receipt
  generalize n.sendSingleMessage d pt rng receipt = r at h
  cases h with
  | failed => simp [enqueued]
  | sent he hr _ | sentWithReceipt he hr _ =>
    intro f hf
    rw [enqueued_of_append rfl] at hf
    exact ⟨_, (PathTable.get_of_get_prune he).1, _, hr, List.mem_singleton.mp hf⟩

/-- As long as every announce a node takes up is for a destination derived from its own key, every path,
every link and every message it sends is bound to such a key. -/
theorem bound_of_owned {identity : Identity} {clock : UInt64} {tr : List Label} {n : Node}
    (h : Lts.Run (fun n l n' => Owned n l ∧ NodeStep n l n') (withClock identity clock) tr n) :
    Bound tr n ∧ ∀ (d : Arr 16) (pt : Bytes) (rng : Entropy) (out : Outcome) (n' : Node),
      NodeStep n (.sendMessage d pt rng, out) n' ∨ NodeStep n (.sendMessageWithReceipt d pt rng, out) n' →
      ∀ f ∈ n.enqueued n', ∃ e a, SealedFor n d pt rng e f ∧ InstalledBy tr d e a ∧ a.Derives d e.pub := by
  have hb : Bound tr n ∧ n.PendingOk := by
    refine h.history (I := fun tr n => Bound tr n ∧ n.PendingOk) ⟨bound_init _ _, fun e he => nomatch he⟩ ?_
    rintro tr t l u ⟨hb, hn⟩ ⟨ho, hst⟩
    exact ⟨hb.step hn ho hst, hst.pendingOk hn⟩
  refine ⟨hb.1, fun d pt rng out n' hsend f hf => ?_⟩
  have hsealed : ∃ e, SealedFor n d pt rng e f := by
    rcases hsend with hs | hs
    · cases hs
      have hf : f ∈ n.enqueued (n.sendMessage d pt rng).1 := hf
      exact sendSingleMessage_sealed n d pt rng false f (sendMessage_fst n d pt rng ▸ hf)
    · cases hs
      have hf : f ∈ n.enqueued (n.sendMessageWithReceipt d pt rng).1 := hf
      exact sendSingleMessage_sealed n d pt rng true f (sendMessageWithReceipt_fst n d pt rng ▸ hf)
  obtain ⟨e, he⟩ := hsealed
  obtain ⟨a, ha, hd⟩ := hb.1.paths d e he.1
  exact ⟨e, a, he, ha, hd⟩

end

/-! ## A stolen destination -/

section
open Sample

/-- The destination of one identity. -/
def ownedDest : Arr 16 := destinationHash (arr 10 1) (identity 3).hash

/-- An announce for it, signed by the given identity with its own key. -/
def announceBy (signer : Identity) : Packet :=
  Packet.announce ownedDest (Announce.build signer ownedDest (arr 10 1) (arr 10 5) []).toPayload

def listener : Node := withClock (identity 7) 100

/-- A one-step run in which a node hears the announce. -/
theorem hears (signer : Identity) :
    NodeStep listener (.handleInbound (announceBy signer).encode 0,
      { events := (listener.handleInbound (announceBy signer).encode 0).2 })
      (listener.handleInbound (announceBy signer).encode 0).1 := rfl

theorem announceBy_parse {signer : Identity} {p : Packet} {a : Announce}
    (hp : Packet.decode (announceBy signer).encode = .ok p) (ha : Announce.parse p.data p.contextFlag = .ok a) :
    p.destHash = ownedDest.1 ∧ Announce.parse (announceBy signer).data false = .ok a := by
  have hdec : Packet.decode (announceBy signer).encode = .ok (announceBy signer) :=
    Packet.decode_encode (Packet.wellFormed_announce _ _)
  cases hdec.symm.trans hp
  exact ⟨rfl, ha⟩

/-- Whether the announce derives the destination from the key it carries. -/
def derivesOwned (signer : Identity) : Option Bool :=
  match Announce.parse (announceBy signer).data false with
  | .ok a =>
    match PublicIdentity.fromBytes a.pub.1 with
    | .ok pub => some (decide (ownedDest = destinationHash a.nameHash pub.hash))
    | .error _ => none
  | .error _ => none

theorem derivesOwned_eq {signer : Identity} {a : Announce} {pub : PublicIdentity}
    (ha : Announce.parse (announceBy signer).data false = .ok a) (hpub : PublicIdentity.fromBytes a.pub.1 = .ok pub) :
    derivesOwned signer = some (decide (ownedDest = destinationHash a.nameHash pub.hash)) := by
  simp only [derivesOwned, ha, hpub]

/-- The owner's announce is derived from its key: the run meets the condition. -/
theorem bound_of_owned_honest : ∃ tr n, n.paths.get ownedDest ≠ none ∧ Bound tr n := by
  refine ⟨_, _, ?_, (bound_of_owned (.single ⟨?_, hears (identity 3)⟩)).1⟩
  · decide +kernel
  · rintro b i rng p d a pub hop ht
    cases hop
    obtain ⟨hd, hparse⟩ := announceBy_parse ht.admits.decoded ht.announces.parsed
    have hd : d = ownedDest := Subtype.ext (ht.admits.dest.symm.trans hd)
    have hgood : derivesOwned (identity 3) = some true := by decide +kernel
    rw [derivesOwned_eq hparse ht.key] at hgood
    rw [hd]
    show ownedDest = destinationHash a.nameHash pub.hash
    exact of_decide_eq_true (Option.some.inj hgood)

/-- An announce for another identity's destination is taken up, so the claimed binding fails. -/
theorem unbound_path : ¬ ∀ (identity : Identity) (clock : UInt64) (tr : List Label) (n : Node),
    Lts.Run NodeStep (withClock identity clock) tr n → ∀ d e, n.paths.get d = some e →
    ∃ a, InstalledBy tr d e a ∧ a.Derives d e.pub := by
  intro h
  have htaken : ∃ e, (listener.handleInbound (announceBy (identity 9)).encode 0).1.paths.get ownedDest = some e :=
    Option.isSome_iff_exists.mp (by decide +kernel)
  obtain ⟨e, he⟩ := htaken
  obtain ⟨a, ⟨l, hl, b, i, rng, p, now, hop, hdec, -, -, hparse, -, hkey, -⟩, hder⟩ :=
    h _ _ _ _ (.single (hears (identity 9))) ownedDest e he
  cases List.mem_singleton.mp hl
  cases hop
  obtain ⟨-, hparse⟩ := announceBy_parse hdec hparse
  have hbad : derivesOwned (identity 9) = some false := by decide +kernel
  rw [derivesOwned_eq hparse hkey] at hbad
  exact decide_eq_false_iff_not.mp (Option.some.inj hbad) hder

end

end Reticulum
