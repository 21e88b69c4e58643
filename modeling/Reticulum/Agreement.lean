import Reticulum.Expiry
import Reticulum.Speech

/-!
# Paths and cached announces

The path of a destination of another node and the announce kept for it come
from one packet and stay together. Whatever is sent as an announce carries the
payload of one that verified, or of the node's own.
-/

namespace Reticulum

open Node

section
variable [Crypto]

/-- A packet that announces the destination, and the announce in it. -/
structure Packet.Announces (p : Packet) (d : Arr 16) (a : Announce) : Prop where
  kind : p.packetType = ANNOUNCE
  destHash : p.destHash = d.1
  parsed : Announce.parse p.data p.contextFlag = .ok a
  verified : a.verify d = .ok ()

/-- The path is the one that the announce in the packet offers. -/
structure PathEntry.AgreesWith (e : PathEntry) (p : Packet) (a : Announce) : Prop where
  hops : p.hops = e.hops
  pub : a.pub = e.pub.toBytes
  ratchet : a.ratchet = e.ratchet
  timestamp : announceTimestamp a.randomHash = e.timestamp
  transportId : e.nextHopTransportId = if p.headerType = HEADER_2 then p.transportId else none

variable {n n' : Node} {l : Label} {d : Arr 16}

/-- How a step treats the path and the cached announce of a destination. -/
inductive Node.RouteChange (n n' : Node) (d : Arr 16) : Prop
  | kept (cached : n'.cachedAnnounces[d]? = n.cachedAnnounces[d]?)
    (path : ∀ e, n'.paths.get d = some e → n.paths.get d = some e)
  | own {local_ : LocalDestination} {appData : Bytes} {rng : Entropy} (mem : local_ ∈ n.locals) (dest : local_.destHash = d)
    (cached : n'.cachedAnnounces[d]? = some (Packet.announce d (n.announceFor local_ appData rng).toPayload))
  | learned {p : Packet} {a : Announce} {pub : PublicIdentity} {i : UInt16} (wellFormed : p.WellFormed) (announces : p.Announces d a)
    (key : PublicIdentity.fromBytes a.pub.1 = .ok pub) (cached : n'.cachedAnnounces[d]? = some p)
    (path : n'.paths.get d = some (announcedEntry p a pub i n.nowSecs))

variable [Rmp] [Bzip2]

namespace Node

omit [Rmp] [Bzip2] in
/-- Nothing of the two maps changes, except that paths expire. -/
theorem RouteChange.same (hc : n'.cachedAnnounces = n.cachedAnnounces)
    (hp : n'.paths = n.paths ∨ n'.paths = n.paths.prune n.nowSecs) : n.RouteChange n' d :=
  .kept (by rw [hc]) fun _ he => get_of_pruned hp he

omit [Rmp] [Bzip2] in
theorem AnnounceCase.routeChange {p : Packet} {d' : Arr 16} {i : UInt16} {out : Node × List Event} (h : AnnounceCase n p d' i out)
    (hk : p.packetType = ANNOUNCE) (hw : p.WellFormed) (hd : p.destHash = d'.1) : n.RouteChange out.1 d := by
  cases h with
  | ignored | badSignature | notBetter => exact .same rfl (.inl rfl)
  | @accepted a pub ha hpub hu =>
    have hpaths : ((n.learned p d' a pub i).emit (n.rebroadcastCopies p i)).paths =
      ⟨n.paths.entries.insert d' (announcedEntry p a pub i n.nowSecs)⟩ := rfl
    by_cases hdd : d' = d
    · subst hdd
      refine .learned (p := p) (i := i) hw ⟨hk, hd, ha.parsed, ha.verified⟩ hpub (by simp) ?_
      rw [hpaths, PathTable.get_insert_entry, if_pos rfl]
    · refine .kept (by simp [BTreeMap.getElem?_insert_ne hdd]) fun e he => ?_
      rwa [hpaths, PathTable.get_insert_entry, if_neg hdd] at he

theorem DispatchCase.routeChange {p : Packet} {d' : Arr 16} {i : UInt16} {out : Node × List Event} (h : DispatchCase n p d' i out)
    (hw : p.WellFormed) (hd : p.destHash = d'.1) : n.RouteChange out.1 d := by
  cases h with
  | ignored => exact .same rfl (.inl rfl)
  | pathRequest =>
    obtain ⟨_, _, heq, -⟩ := handlePathRequest_cases n p i
    rw [heq]
    exact .same rfl (.inl rfl)
  | linkRequest _ hr => cases hr <;> exact .same rfl (.inl rfl)
  | linkProof _ _ _ hr => cases hr <;> exact .same rfl (.inl rfl)
  | deliveryProof _ hr => cases hr <;> exact .same rfl (.inl rfl)
  | resourceProof _ _ _ hr => cases hr <;> exact .same rfl (.inl rfl)
  | linkData _ _ hr => exact .same hr.sameRoutes.cachedAnnounces (.inl hr.sameRoutes.paths)
  | announce hk hr => exact hr.routeChange hk hw hd
  | data _ _ _ hr =>
    cases hr with
    | relayed =>
      have hf := forwardData_cases n p d' i
      generalize n.forwardData p d' i = m at hf
      cases hf with
      | dropped => exact .same rfl (.inl rfl)
      | _ => exact .same rfl (.inr rfl)
    | _ => exact .same rfl (.inl rfl)

end Node

theorem Node.handleInboundInner_locals (n : Node) (b : Bytes) (i : UInt16) (rng : Option Entropy) :
    (n.handleInboundInner b i rng).1.locals = n.locals := by
  have hc := n.handleInboundInner_cases b i rng
  generalize n.handleInboundInner b i rng = out at hc
  cases hc with
  | malformed => rfl
  | duplicate => simp
  | admitted _ hd => exact hd.sameConfig.locals.trans (by simp)

theorem NodeStep.routeChange (h : NodeStep n l n') (d : Arr 16) : n.RouteChange n' d := by
  cases h.cases with
  | config _ hc => exact .same (by rw [hc.eq]) hc.paths
  | @announce d' appData rng i _ hc =>
    cases hc with
    | unknown => exact .same rfl (.inl rfl)
    | @sent local_ hmem hdest =>
      by_cases hd : d' = d
      · subst hd
        exact @RouteChange.own _ _ _ _ local_ appData rng hmem hdest (by simp)
      · exact .kept (by simp [BTreeMap.getElem?_insert_ne hd]) fun _ he => he
  | sent _ hc => exact .same (by rw [hc.eq]; rfl) hc.paths
  | establish hc => cases hc <;> exact .same rfl (.inr rfl)
  | linkSend hc => cases hc <;> exact .same rfl (.inl rfl)
  | sendResource hc => cases hc <;> exact .same rfl (.inl rfl)
  | close hc => cases hc <;> exact .same rfl (.inl rfl)
  | @tick _ rng =>
    have hsame := tickInner_sameRoutes n rng
    exact .same hsame.cachedAnnounces (.inl hsame.paths)
  | @inbound _ b i rng _ _ hop hc =>
    generalize hout : (n', _) = out at hc
    cases hc with
    | malformed => cases hout; exact .same rfl (.inl rfl)
    | duplicate => cases hout; exact .same (by simp) (.inl (by simp))
    | @admitted p d' _ ha hd =>
      subst hout
      have hw := received_wellFormed (Packet.decode_wellFormed ha.decoded)
      cases hd.routeChange (d := d) hw ha.dest with
      | kept hc hp => exact .kept (by simpa using hc) fun e he => by simpa using hp e he
      | @own local_ appData rng hmem hdest hc =>
        have hsame : (n.admitted p).announceFor local_ appData rng = n.announceFor local_ appData rng := by simp [announceFor]
        exact .own (by simpa using hmem) hdest (hsame ▸ hc)
      | learned hw ha hkey hc hp => exact .learned hw ha hkey hc (by rw [hp, nowSecs_admitted])

/-! ## Local destinations stay -/

/-- A function of a local destination that does not depend on its flag. -/
def FlagFree {β : Type} (g : LocalDestination → β) : Prop :=
  ∀ l before after, l.kind = .single before → g { l with kind := .single after } = g l

omit [Crypto] [Rmp] [Bzip2] in
theorem Node.map_setProveIn {β : Type} {g : LocalDestination → β} (hg : FlagFree g) (d : Arr 16) (enabled : Bool)
    (ls : List LocalDestination) : (setProveIn d enabled ls).1.map g = ls.map g := by
  induction ls with
  | nil => rfl
  | cons l ls ih =>
    unfold setProveIn
    split
    · split
      · rename_i hkind
        rw [List.map_cons, List.map_cons, hg l _ enabled hkind]
      · rfl
    · rw [List.map_cons, List.map_cons, ih]

omit [Crypto] [Rmp] [Bzip2] in
theorem Node.Sends.locals {ps : List (UInt16 × Packet)} (h : n.Sends n' ps) : n'.locals = n.locals := by
  rw [h.eq]
  rfl

theorem NodeStep.map_locals_prefix {β : Type} {g : LocalDestination → β} (hg : FlagFree g) (h : NodeStep n l n') :
    n.locals.map g <+: n'.locals.map g := by
  have hsame {m : Node} (hm : m.locals = n.locals) : n.locals.map g <+: m.locals.map g := by
    exact hm ▸ List.prefix_rfl
  have hadd (nameHash : Arr 10) (destHash : Arr 16) (kind : LocalDestinationKind) :
      n.locals.map g <+: (n.addLocal nameHash destHash kind).locals.map g := by
    rw [addLocal, List.map_append]
    exact List.prefix_append ..
  obtain ⟨op, out⟩ := l
  unfold NodeStep at h
  cases op with
  | setClock | enableTransport | unregisterInterface | prunePaths =>
    cases h
    exact hsame rfl
  | registerSingleDestination | registerGroupDestination | registerGroupDestinationWithIdentity | registerPlainDestination =>
    cases h
    exact hadd ..
  | registerInterface i =>
    cases h
    refine hsame ?_
    unfold registerInterface
    split <;> rfl
  | setProve d enabled =>
    cases h
    show _ <+: (setProveIn d enabled n.locals).1.map _
    exact (map_setProveIn hg d enabled n.locals).symm ▸ List.prefix_rfl
  | pollOutbound =>
    simp only [Node.step, pollOutbound] at h
    split at h <;> (cases h; exact hsame rfl)
  | sendAnnounce d appData rng i =>
    cases h
    have hc := sendAnnounce_cases n d appData rng i
    generalize n.sendAnnounce d appData rng i = m at hc
    cases hc <;> exact hsame rfl
  | requestPath d rng =>
    cases h
    exact hsame (requestPath_sends n d rng).choose_spec.locals
  | sendMessage d pt rng =>
    cases h
    obtain ⟨ps, hs⟩ := sendSingleMessage_sends n d pt rng false
    rw [← sendMessage_fst] at hs
    exact hsame hs.locals
  | sendMessageWithReceipt d pt rng =>
    cases h
    obtain ⟨ps, hs⟩ := sendSingleMessage_sends n d pt rng true
    rw [← sendMessageWithReceipt_fst] at hs
    exact hsame hs.locals
  | sendGroupMessage d pt rng =>
    cases h
    exact hsame (sendGroupMessage_sends n d pt rng).choose_spec.locals
  | sendPlainMessage d pt =>
    cases h
    exact hsame (n.enqueueDestinationPacket_sends (wellFormed_dataFor (by decide) d pt) rfl
      (by decide : PLAIN ≠ LINK) d).choose_spec.locals
  | establishLink d rng =>
    cases h
    have hc := establishLink_cases n d rng
    show _ <+: (n.establishLink d rng).1.locals.map _
    generalize n.establishLink d rng = r at hc
    cases hc <;> exact hsame rfl
  | linkSend id pt rng =>
    cases h
    have hc := linkSend_cases n id pt rng
    show _ <+: (n.linkSend id pt rng).1.locals.map _
    generalize n.linkSend id pt rng = r at hc
    cases hc <;> exact hsame rfl
  | sendResource fuel id data rng =>
    simp only [Node.step, Option.map_eq_some_iff] at h
    obtain ⟨r, hr, h⟩ := h
    cases h
    have hc := sendResource_cases hr
    cases hc <;> exact hsame rfl
  | closeLink id =>
    cases h
    have hc := closeLink_cases n id
    generalize n.closeLink id = m at hc
    cases hc <;> exact hsame rfl
  | tick =>
    cases h
    exact hsame (tickInner_sameRoutes n none).locals
  | tickWithEntropy rng =>
    cases h
    exact hsame (tickInner_sameRoutes n (some rng)).locals
  | handleInbound b i =>
    cases h
    exact hsame (handleInboundInner_locals n b i none)
  | handleInboundWithEntropy b i rng =>
    cases h
    exact hsame (handleInboundInner_locals n b i (some rng))

theorem NodeStep.locals_prefix (h : NodeStep n l n') : n.locals.map (·.destHash) <+: n'.locals.map (·.destHash) :=
  h.map_locals_prefix fun _ _ _ _ => rfl

/-- A SINGLE destination stays. -/
theorem NodeStep.hasSingle (h : NodeStep n l n') (hd : n.hasSingle d = true) : n'.hasSingle d = true := by
  have hflag : FlagFree fun l => (l.destHash, l.kind.isSingle) := by
    intro l before after hkind
    refine congrArg (Prod.mk l.destHash) ?_
    rw [hkind]
    rfl
  rw [Node.hasSingle, List.any_eq_true] at hd ⊢
  obtain ⟨local_, hmem, hsingle⟩ := hd
  obtain ⟨local', hmem', heq⟩ := List.mem_map.mp ((h.map_locals_prefix hflag).subset (List.mem_map_of_mem hmem))
  obtain ⟨hdest, hkind⟩ := Prod.mk.inj heq
  refine ⟨local', hmem', ?_⟩
  rw [hdest, hkind]
  exact hsingle

/-- A destination that is foreign after a step was foreign before it. -/
theorem NodeStep.foreign_before (h : NodeStep n l n') (hf : n'.locals.any (·.destHash = d) = false) :
    n.locals.any (·.destHash = d) = false := by
  rw [List.any_eq_false] at hf ⊢
  intro local_ hmem hd
  have hin := h.locals_prefix.subset (List.mem_map_of_mem hmem)
  obtain ⟨local', hmem', hdest⟩ := List.mem_map.mp hin
  exact hf local' hmem' (by simpa [hdest] using hd)

/-! ## What holds of every run -/

namespace Node

/-- Every path of a foreign destination agrees with the announce kept for it. -/
def PathsAgree (n : Node) : Prop :=
  ∀ (d : Arr 16) (e : PathEntry), n.paths.get d = some e → n.locals.any (·.destHash = d) = false →
    ∃ p a, n.cachedAnnounces[d]? = some p ∧ p.Announces d a ∧ e.AgreesWith p a

/-- Paths agree with the announces kept, and each of these is a valid one. A path has its announce whatever becomes of
its destination. -/
structure Agrees (n : Node) : Prop where
  valid : ∀ (d : Arr 16) (p : Packet), n.cachedAnnounces[d]? = some p → p.WellFormed ∧ ∃ a, p.Announces d a
  paths : n.PathsAgree
  kept : ∀ (d : Arr 16) (e : PathEntry), n.paths.get d = some e → ∃ p, n.cachedAnnounces[d]? = some p

omit [Rmp] [Bzip2] in
/-- A node's own announce is a valid one. -/
theorem announces_own (hS : Crypto.SignVerifies) (n : Node) {local_ : LocalDestination} (hd : local_.destHash = d) (appData : Bytes)
    (rng : Entropy) : (Packet.announce d (n.announceFor local_ appData rng).toPayload).Announces d
      (n.announceFor local_ appData rng) := by
  subst hd
  exact ⟨rfl, rfl, Announce.parse_toPayload _, Announce.verify_build hS ..⟩

omit [Crypto] [Rmp] [Bzip2] in
theorem agreesWith_announcedEntry (p : Packet) (a : Announce) {pub : PublicIdentity} (h : PublicIdentity.fromBytes a.pub.1 = .ok pub)
    (i : UInt16) (now : Nat) : (announcedEntry p a pub i now).AgreesWith p a :=
  ⟨rfl, (Subtype.ext (PublicIdentity.toBytes_of_fromBytes h)).symm, rfl, rfl, rfl⟩

theorem Agrees.step (hS : Crypto.SignVerifies) (ha : n.Agrees) (h : NodeStep n l n') : n'.Agrees := by
  constructor
  · intro d p hp
    cases h.routeChange d with
    | kept hc _ => exact ha.valid d p (hc ▸ hp)
    | own _ hdest hc =>
      cases hc.symm.trans hp
      exact ⟨Packet.wellFormed_announce _ _, _, announces_own hS n hdest _ _⟩
    | learned hw hann _ hc _ =>
      cases hc.symm.trans hp
      exact ⟨hw, _, hann⟩
  · intro d e he hforeign
    have hwas : n.locals.any (·.destHash = d) = false := h.foreign_before hforeign
    cases h.routeChange d with
    | kept hc hp =>
      obtain ⟨p, a, hcached, hann, hagrees⟩ := ha.paths d e (hp e he) hwas
      exact ⟨p, a, hc.trans hcached, hann, hagrees⟩
    | own hmem hdest _ =>
      have := List.any_eq_false.mp hwas _ hmem
      simp [hdest] at this
    | learned _ hann hkey hc hp =>
      cases hp.symm.trans he
      exact ⟨_, _, hc, hann, agreesWith_announcedEntry _ _ hkey _ _⟩
  · intro d e he
    cases h.routeChange d with
    | kept hc hp =>
      obtain ⟨p, hcached⟩ := ha.kept d e (hp e he)
      exact ⟨p, hc.trans hcached⟩
    | own _ _ hc | learned _ _ _ hc _ => exact ⟨_, hc⟩

end Node

/-! ## What is sent as an announce -/

namespace Node

omit [Rmp] [Bzip2] in
/-- Every frame that the step enqueues decodes, and if it is an announce, its payload verifies for its destination. -/
def AnnouncesValid (n n' : Node) : Prop :=
  ∀ s ∈ n.enqueued n', ∃ p, Packet.decode s.2 = .ok p ∧ (p.packetType = ANNOUNCE → ∃ d a, p.Announces d a)

omit [Rmp] [Bzip2] in
/-- An announce stays valid when only the header and the context change. -/
theorem announces_of_payload {p q : Packet} {d : Arr 16} {a : Announce} (h : p.Announces d a) (hk : q.packetType = p.packetType)
    (hd : q.destHash = p.destHash) (hf : q.contextFlag = p.contextFlag) (hp : q.data = p.data) : q.Announces d a :=
  ⟨hk.trans h.kind, hd.trans h.destHash, by rw [hp, hf]; exact h.parsed, h.verified⟩

omit [Rmp] [Bzip2] in
theorem pathResponse_announces {p : Packet} {a : Announce} (h : p.Announces d a) (isLocal : Bool) (path : Option PathEntry) :
    (n.pathResponse isLocal path p).Announces d a := by
  unfold pathResponse
  dsimp only
  split
  · exact announces_of_payload h rfl rfl rfl rfl
  · split
    · exact announces_of_payload h rfl rfl rfl rfl
    · exact announces_of_payload h rfl rfl rfl rfl

omit [Rmp] [Bzip2] in
theorem Speech.announces {s : UInt16 × Packet} (hv : ∀ (d : Arr 16) (p : Packet), n.cachedAnnounces[d]? = some p →
    p.WellFormed ∧ ∃ a, p.Announces d a) (hl : ∀ d appData rng i, l.1 ≠ .sendAnnounce d appData rng i) (h : n.Speech l s)
    (ht : s.2.packetType = ANNOUNCE) : ∃ d a, s.2.Announces d a := by
  cases h with
  | announce _ hop => exact absurd hop (hl _ _ _ _)
  | broadcast _ _ _ hk | reply _ _ hk =>
    rw [hk] at ht
    exact absurd ht (by decide)
  | routed _ _ _ hk =>
    rw [ht] at hk
    exact absurd hk (by decide)
  | onLink => exact absurd ht (by decide : ¬ DATA = ANNOUNCE)
  | @answer b i rng p cached target hop ha hk hp hans =>
    have hcached := hans.cached
    simp only [admitted_cachedAnnounces, maybePrune_keeps] at hcached
    obtain ⟨-, a, hann⟩ := hv _ _ hcached
    exact ⟨_, a, pathResponse_announces hann _ _⟩
  | forward hop ha hk hf =>
    have hsame := (forwardPacket_sameContent hf.forwarded).1.packetType
    rw [ht] at hsame
    exact absurd (hsame.trans hk) (by decide)
  | @rebroadcast b i j rng p d a pub hop ha hk hann hpub hpref _ haway =>
    exact ⟨d, a, hk, ha.dest, hann.parsed, hann.verified⟩

omit [Rmp] [Bzip2] in
theorem sendAnnounce_announcesValid (hS : Crypto.SignVerifies) (n : Node) (d : Arr 16) (appData : Bytes) (rng : Entropy) (i : UInt16) :
    n.AnnouncesValid (n.sendAnnounce d appData rng i) := by
  have hc := n.sendAnnounce_cases d appData rng i
  generalize n.sendAnnounce d appData rng i = m at hc
  intro s hs
  cases hc with
  | unknown => simp [enqueued] at hs
  | @sent local_ hmem hdest =>
    rw [enqueued_emit (by rfl), List.map_singleton, List.mem_singleton] at hs
    subst hs
    exact ⟨_, Packet.decode_encode (Packet.wellFormed_announce _ _), fun _ => ⟨d, _, announces_own hS n hdest appData rng⟩⟩

theorem Agrees.announcesValid (hS : Crypto.SignVerifies) (ha : n.Agrees) (h : NodeStep n l n') : n.AnnouncesValid n' := by
  by_cases hown : ∃ d appData rng i, l.1 = .sendAnnounce d appData rng i
  · obtain ⟨d, appData, rng, i, hop⟩ := hown
    obtain ⟨op, out⟩ := l
    dsimp only at hop
    subst hop
    cases h
    exact sendAnnounce_announcesValid hS n d appData rng i
  · obtain ⟨ps, hps, hspeech⟩ := h.speaks
    intro s hs
    rw [hps] at hs
    obtain ⟨q, hq, rfl⟩ := List.mem_map.mp hs
    have hsp := hspeech q hq
    have hw := hsp.wellFormed fun d p hp => (ha.valid d p hp).1
    exact ⟨q.2, Packet.decode_encode hw, hsp.announces ha.valid fun d appData rng i hop => hown ⟨d, appData, rng, i, hop⟩⟩

omit [Rmp] [Bzip2] in
theorem Agrees.start (identity : Identity) (clock : UInt64) : (withClock identity clock).Agrees := by
  constructor
  · intro d p hp
    simp [withClock] at hp
  · intro d e he
    simp [withClock] at he
  · intro d e he
    simp [withClock] at he

theorem agrees_of_run (hS : Crypto.SignVerifies) {identity : Identity} {clock : UInt64} {tr : List Label}
    (hrun : Lts.Run NodeStep (withClock identity clock) tr n) : n.Agrees :=
  hrun.preserve (fun _ _ _ ha hst => ha.step hS hst) (.start identity clock)

end Node

/-- In every run, paths agree with the announces kept, and every announce that goes out is a valid one. -/
theorem paths_agree_and_announces_valid (hS : Crypto.SignVerifies) {identity : Identity} {clock : UInt64} {tr : List Label}
    (hrun : Lts.Run NodeStep (withClock identity clock) tr n) :
    n.PathsAgree ∧ ∀ l n', NodeStep n l n' → n.AnnouncesValid n' := by
  have ha := agrees_of_run hS hrun
  exact ⟨ha.paths, fun l n' hst => ha.announcesValid hS hst⟩

end

/-! ## A relay -/

section
open Sample Node

/-- The announce of a stranger is taken up, and the path request for it answered. -/
theorem paths_agree_and_announces_valid_street :
    streetRelay.PathsAgree ∧ ∀ l n', NodeStep streetRelay l n' → streetRelay.AnnouncesValid n' := by
  let relay := (withClock (identity 5) 100).enableTransport true
  have h₁ : NodeStep (withClock (identity 5) 100) (.enableTransport true, {}) relay := rfl
  exact paths_agree_and_announces_valid signVerifies
    (.cons h₁ (.single (relay.step_handleInbound streetAnnounce.encode 0)))

end

end Reticulum
