import Reticulum.Mail

/-!
# Opportunistic mail, from driver to driver

A message that one driver sends along a chain of relays is reported by the
other as it was written, if the other has taken up an announce of the writer's
key.
-/

namespace Reticulum

open Node

section
variable [Crypto] [Rmp] [RmpF64] [Hkdf] [Bzip2] {owner : Identity} {ops : List Op} {h h' : Host} {pub : PublicIdentity}

/-! ## Who has met whom -/

/-- The command takes up an announce of the key. -/
def HostLabel.TakesUp (l : HostLabel) (n : Node) (pub : PublicIdentity) : Prop :=
  ∃ op b i rng p d a, l.op = .node op ∧ op.inbound? = some (b, i, rng) ∧ Reticulum.TakesUp n b i p d a pub

/-- A driver that has taken up an announce of `pub`, for whichever destination, and has heard no other key with the same
delivery destination. -/
structure Met (owner : Identity) (pub : PublicIdentity) (ops : List Op) (h : Host) : Prop where
  started : Started owner ops h
  heard : ∃ before h₁ l h₂ commands, Started owner before h₁ ∧ HostStep h₁ l h₂ ∧ l.TakesUp h₁.node pub ∧
    Lts.Run HostStep h₂ commands h
  sole : ∀ pub', HeardIn ops pub' → deliveryDestinationHash pub' = deliveryDestinationHash pub → pub' = pub

/-- The router takes messages from the key, at the delivery destination of the owner. -/
structure Host.TakesMailFrom (h : Host) (owner : Identity) (pub : PublicIdentity) (lxmf : LxmfRuntime) : Prop where
  runtime : h.lxmf = some lxmf
  address : lxmf.router.localDestination = deliveryDestinationHash owner.public
  free : lxmf.router.stampCost = none
  source : lxmf.router.sourceIdentities[deliveryDestinationHash pub]? = some pub

omit [Rmp] [RmpF64] [Hkdf] [Bzip2] in
theorem Host.remember_lxmf (h : Host) (event : Event) : (h.remember event).lxmf.isSome = h.lxmf.isSome := by
  unfold Host.remember
  split
  · split
    · rename_i hl
      rw [hl]
      rfl
    · rfl
  · rfl

omit [Rmp] [RmpF64] [Hkdf] [Bzip2] in
theorem Host.remember_node (h : Host) (event : Event) : (h.remember event).node = h.node := by
  unfold Host.remember
  split
  · split <;> rfl
  · rfl

omit [Hkdf] [Bzip2] in
theorem Host.sendPending_lxmf (h : Host) (rng : Entropy) (event : Event) :
    (h.sendPending rng event).1.lxmf.isSome = h.lxmf.isSome := by
  rcases h.sendPending_cases rng event with ⟨heq, -⟩ | ⟨linkId, lxmf, message, -, hl, -, heq⟩
  · rw [heq]
  · rw [heq, hl]
    rfl

/-- A driver keeps its LXMF runtime. -/
theorem HostStep.lxmf {l : HostLabel} (hst : HostStep h l h') (hl : h.lxmf.isSome = true) : h'.lxmf.isSome = true := by
  cases hst.cases with
  | @node op out node _ _ _ hnode hemit =>
    have hnew : ({ h with node := node } : Host).lxmf.isSome = true := hl
    refine (emitNodeEvents_spec (I := fun h => h.lxmf.isSome = true) (fun h rng event _ hl => ?_) hnew hemit).1
    rw [Host.sendPending_lxmf, Host.remember_lxmf]
    exact hl
  | direct => rfl
  | _ => exact hl

theorem Started.lxmf (hs : Started owner ops h) : h.lxmf.isSome = true :=
  hs.induction (I := fun _ h => h.lxmf.isSome = true) (fun _ _ _ _ => rfl) fun _ _ _ _ hl hst => hst.lxmf hl

omit [RmpF64] [Hkdf] in
theorem TakesUp.output {n : Node} {b : Bytes} {i : UInt16} {p : Packet} {d : Arr 16} {a : Announce}
    (ht : TakesUp n b i p d a pub) (rng : Option Entropy) :
    (n.handleInboundInner b i rng).2 = [.announce d (received p).hops] ∧
      ((n.handleInboundInner b i rng).1.paths.get d).map (·.pub) = some pub := by
  have hpref : ((n.admitted p).paths.update d (announcedEntry (received p) a pub i (n.admitted p).nowSecs)
      (n.admitted p).nowSecs).2 = true := by
    simpa using ht.preferred
  rw [handleInboundInner_of_admits ht.admits, dispatch_announce (p := received p) ht.kind,
    ht.announces.handleAnnounce_eq ht.key, if_pos hpref]
  exact ⟨rfl, congrArg (Option.map (·.pub)) (learned_get _ _ _ _ _ _ _)⟩

theorem Met.takesMail (hm : Met owner pub ops h) : ∃ lxmf, h.TakesMailFrom owner pub lxmf := by
  obtain ⟨before, h₁, l, h₂, commands, hs₁, hst, ⟨op, b, i, rng, p, d, a, hop, hin, htake⟩, hrun⟩ := hm.heard
  have hremembers : h₂.Remembers (deliveryDestinationHash pub) := by
    obtain ⟨hev, hpath⟩ := htake.output rng
    obtain ⟨entropy, hst⟩ := hst
    rw [hop, Host.step_announce hin hev] at hst
    have hafter : { h₁ with node := (h₁.node.handleInboundInner b i rng).1 }.remember (.announce d (received p).hops) = h₂ :=
      congrArg Prod.fst (Option.some.inj hst)
    rw [← hafter]
    exact Host.remember_announce hpath hs₁.lxmf
  have hlast : h.Remembers (deliveryDestinationHash pub) :=
    hrun.preserve (I := fun h => h.Remembers (deliveryDestinationHash pub)) (fun _ _ _ hr hst => hr.step hst) hremembers
  obtain ⟨lxmf, hl, hsome⟩ := hlast
  have hr := hm.started.trusting.router lxmf hl
  obtain ⟨pub', hpub'⟩ := Option.ne_none_iff_exists'.mp hsome
  have hsame : pub' = pub := hm.sole pub' (hr.sources _ _ hpub') (lxmf.router.addressed _ _ hpub')
  exact ⟨lxmf, hl, hr.address, hr.free, hsame ▸ hpub'⟩

theorem Met.step {l : HostLabel} (hm : Met owner pub ops h) (hst : HostStep h l h')
    (hsole : ∀ pub', HeardIn l.ops pub' → deliveryDestinationHash pub' = deliveryDestinationHash pub → pub' = pub) :
    Met owner pub (ops ++ l.ops) h' := by
  obtain ⟨before, h₁, l₁, h₂, commands, hs₁, hst₁, htake, hrun⟩ := hm.heard
  refine ⟨hm.started.step hst, ⟨before, h₁, l₁, h₂, _, hs₁, hst₁, htake, hrun.snoc hst⟩, fun pub' hp heq => ?_⟩
  obtain ⟨op, hop, hp⟩ := hp
  rcases List.mem_append.mp hop with hop | hop
  · exact hm.sole pub' ⟨op, hop, hp⟩ heq
  · exact hsole pub' ⟨op, hop, hp⟩ heq

/-! ## From driver to driver -/

omit [Bzip2] [Hkdf] [Rmp] [RmpF64] in
/-- The message that a driver writes when it is asked to send one. -/
def Host.letter (h : Host) (d : Arr 16) (title content fields : Bytes) : LxmfMessage :=
  LxmfMessage.build h.node.identity d (deliveryDestinationHash h.node.identity.public) (f64OfNat h.node.nowSecs) title content
    fields

theorem Started.lxmfMessage (hs : Started owner ops h) (d : Arr 16) (title content fields : Bytes) :
    h.lxmfMessage d title content fields = .ok (h.letter d title content fields) := by
  obtain ⟨lxmf, hl⟩ := Option.isSome_iff_exists.mp hs.lxmf
  unfold Host.lxmfMessage Host.letter
  rw [hl, hs.trusting.identity, ← (hs.trusting.router lxmf hl).address]

variable {reader writer : Identity} {a b : Host} {lxmf : LxmfRuntime} {title content fields : Bytes}

omit [Bzip2] in
/-- A letter from someone whose mail is taken is handed out, with its destination or behind it. -/
theorem Host.TakesMailFrom.receives (hS : Crypto.SignVerifies) (hR : Rmp.WritesShortest)
    (hb : b.TakesMailFrom reader a.node.identity.public lxmf) (htitle : title.length < 2 ^ 32)
    (hcontent : content.length < 2 ^ 32) (hfields : MessagePack.Map 64 fields) :
    lxmf.router.receiveDirect (a.letter (deliveryDestinationHash reader.public) title content fields).pack =
        some (.ok (.message (a.letter (deliveryDestinationHash reader.public) title content fields))) ∧
      lxmf.router.receiveOpportunistic (deliveryDestinationHash reader.public)
        ((a.letter (deliveryDestinationHash reader.public) title content fields).pack.drop 16) =
        some (.ok (.message (a.letter (deliveryDestinationHash reader.public) title content fields))) := by
  let m := a.letter (deliveryDestinationHash reader.public) title content fields
  have hform : m.WellFormed :=
    ⟨isFinite_f64OfNat a.node.clock.toNat_lt, htitle, hcontent, hfields, fun _ h => (nomatch h), rfl⟩
  have hfree : lxmf.router.StampPolicy m := LxmfRouter.stampPolicy_of_free fun cost h => by
    rw [hb.free] at h
    cases h
  have hdirect : lxmf.router.receiveDirect m.pack = some (.ok (.message m)) :=
    LxmfRouter.receiveDirect_iff.mpr ⟨LxmfMessage.unpack_pack hR hform, hb.address.symm,
      ⟨a.node.identity.public, hb.source, LxmfMessage.verify_build hS ..⟩, hfree⟩
  have hcut : m.destination.1 ++ m.pack.drop 16 = m.pack := by
    simp only [LxmfMessage.pack, List.append_assoc, List.drop_left' m.destination.2]
  refine ⟨hdirect, LxmfRouter.receiveOpportunistic_iff.mpr ⟨hb.address.symm, ?_⟩⟩
  show lxmf.router.receiveDirect (m.destination.1 ++ m.pack.drop 16) = some (.ok (.message m))
  rw [hcut]
  exact hdirect

/-- A frame with a message for the node: the driver makes mail of it. -/
theorem Host.step_message {op : Op} {f : Bytes} {i : UInt16} {rng : Option Entropy} {d : Arr 16} {pt : Bytes}
    {m : LxmfMessage} (hop : op.inbound? = some (f, i, rng)) (hev : (h.node.handleInboundInner f i rng).2 = [.message d pt])
    (hl : h.lxmf = some lxmf) (hr : lxmf.router.receiveOpportunistic d pt = some (.ok (.message m)))
    (entropy : Nat → Entropy) : h.step entropy (.node op) =
      some ({ h with node := (h.node.handleInboundInner f i rng).1 }, .unit, [lxmfEvent (.message m)]) := by
  unfold Host.step
  simp only [h.node.step_of_inbound hop, hev, Host.emitNodeEvents, Host.emitNodeEvent, Host.remember, Host.sendPending,
    Host.convert, hl, hr]
  rfl

theorem Host.step_sendAnnounce (h : Host) (d : Arr 16) (appData : Bytes) (rng : Entropy) (i : UInt16) :
    HostStep h ⟨.node (.sendAnnounce d appData rng i), .unit, []⟩ { h with node := h.node.sendAnnounce d appData rng i } :=
  ⟨fun _ _ => 0, rfl⟩

theorem Host.step_pollOutbound (h : Host) :
    HostStep h ⟨.node .pollOutbound, .frame h.node.pollOutbound.2, []⟩ { h with node := h.node.pollOutbound.1 } :=
  ⟨fun _ _ => 0, rfl⟩

theorem Host.step_setClock (h : Host) (now : UInt64) :
    HostStep h ⟨.node (.setClock now), .unit, []⟩ { h with node := h.node.atTime now } := ⟨fun _ _ => 0, rfl⟩

/-- A letter is sent as one frame, passes the relays and is all that the other driver reports. -/
def MailArrives (a b : Host) (line : List Relay) (i j : UInt16) (d : Arr 16) (title content fields : Bytes)
    (rng : Entropy) (entropy : Option Entropy) : Prop :=
  ∃ a' f line' f',
    HostStep a ⟨.lxmfSendOpportunistic d title content fields rng, .sent (.ok ()), []⟩ a' ∧
      a.node.enqueued a'.node = [(i, f)] ∧ Lts.Pass Relay.PassesAlone line f line' f' ∧
      ∀ op, op.inbound? = some (f', j, entropy) → ∀ rng', ∃ b',
        b.step rng' (.node op) = some (b', .unit, [lxmfEvent (.message (a.letter d title content fields))])

/-- Whatever the two drivers and the relays did before: when the writer knows its way to the reader, and the reader has met
the writer, every letter of the writer is reported by the reader. -/
theorem opportunistic_mail (hS : Crypto.SignVerifies) (hD : Crypto.DhCommutes) (hA : Crypto.AesInverts)
    (hR : Rmp.WritesShortest) {ops' : List Op} (ha : Started writer ops a) (hb : Met reader writer.public ops' b)
    (htitle : title.length < 2 ^ 32) (hcontent : content.length < 2 ^ 32) (hfields : MessagePack.Map 64 fields)
    {rng : Entropy} {relays : List Relay} {i : UInt16}
    (hway : KnownWay a.node b.node relays i (deliveryDestinationHash reader.public)
      (messageFor (deliveryDestinationHash reader.public) reader.public
        ((a.letter (deliveryDestinationHash reader.public) title content fields).pack.drop 16) rng))
    (j : UInt16) (entropy : Option Entropy) :
    MailArrives a b (Relay.turnedBack relays) i j (deliveryDestinationHash reader.public) title content fields rng entropy := by
  let d := deliveryDestinationHash reader.public
  let m := a.letter d title content fields
  obtain rfl : b.node.identity = reader := hb.started.trusting.identity
  obtain rfl : a.node.identity = writer := ha.trusting.identity
  obtain ⟨lxmf, hmail⟩ := hb.takesMail
  obtain ⟨lxmfA, hla⟩ := Option.isSome_iff_exists.mp ha.lxmf
  obtain ⟨f, f', line', hsent, hok, hpass, hev, -⟩ := hway.carries hD hA false j entropy
  have hresult : (a.node.sendMessage d (m.pack.drop 16) rng).2 = .ok () := by
    unfold sendMessage
    split
    · rename_i heq
      rw [heq] at hok
      cases hok
    · rfl
  refine ⟨{ a with node := (a.node.sendMessage d (m.pack.drop 16) rng).1 }, f, line', f', ⟨fun _ _ => 0, ?_⟩, ?_, hpass,
    fun op hop rng' => ⟨_, Host.step_message hop hev hmail.runtime (hmail.receives hS hR htitle hcontent hfields).2 rng'⟩⟩
  · simp only [Host.step, ha.lxmfMessage, hla, LxmfRouter.sendOpportunistic]
    exact congrArg (fun r => some (_, Ret.sent r, [])) hresult
  · show a.node.enqueued (a.node.sendMessage d (m.pack.drop 16) rng).1 = [(i, f)]
    rw [sendMessage_fst]
    exact hsent

end

/-! ## One relay between the two correspondents -/

section
open Sample

/-- The announce of the second as it leaves the relay. -/
def greetingCopy : Packet :=
  { greeting 2 with headerType := HEADER_2, propagation := TRANSPORT, hops := 1, transportId := some (identity 5).hash }

def mailRelay : Relay := (townRelay 5).turned.handled (greeting 2).encode

/-- The first, once it has heard the second by way of the relay. -/
def introduced : Host :=
  { correspondent 1 with node := ((correspondent 1).node.handleInboundInner greetingCopy.encode 4 none).1 }.remember
    (.announce (address 2) 2)

/-- The two of them, later. -/
def mailWriter : Host := { introduced with node := introduced.node.atTime 200 }

def mailAnnouncer : Host := { acquainted with node := acquainted.node.sendAnnounce (address 2) [] (entropy 1) 0 }

def mailPolled : Host := { mailAnnouncer with node := mailAnnouncer.node.pollOutbound.1 }

def mailReader : Host := { mailPolled with node := mailPolled.node.atTime 200 }

theorem mailWriter_started : Started (identity 1) [.handleInbound greetingCopy.encode 4, .setClock 200] mailWriter := by
  have hheard : HostStep (correspondent 1) ⟨.node (.handleInbound greetingCopy.encode 4), .unit,
      [.node (.announce (address 2) 2)]⟩ introduced := ⟨fun _ _ => 0, Host.step_announce rfl (by decide +kernel) _⟩
  exact .run .nil (.cons hheard (.single (introduced.step_setClock 200)))

/-- The announce inside the first greeting. -/
def greetingAnnounce : Announce :=
  (correspondent 1).node.announceFor ⟨nameHash "lxmf" ["delivery"], address 1, .single false⟩ [] (entropy 1)

theorem greeting_decodes (seed : UInt8) : Packet.decode (greeting seed).encode = .ok (greeting seed) :=
  Packet.decode_encode (Packet.wellFormed_announce _ _)

theorem greeting_parses : Announce.parse (greeting 1).data (greeting 1).contextFlag = .ok greetingAnnounce :=
  Announce.parse_toPayload _

theorem greeting_key : PublicIdentity.fromBytes greetingAnnounce.pub.1 = .ok (identity 1).public :=
  PublicIdentity.fromBytes_toBytes _

theorem greeting_takenUp :
    TakesUp (correspondent 2).node (greeting 1).encode 0 (greeting 1) (address 1) greetingAnnounce (identity 1).public where
  admits := ⟨greeting_decodes 1, by decide, by decide +kernel, rfl⟩
  kind := rfl
  announces := ⟨by decide +kernel, greeting_parses, Announce.verify_build signVerifies _ _ _ _ _, by decide +kernel⟩
  key := greeting_key
  preferred := by decide +kernel

theorem greeting_sole {ops : List Op} (h : ∀ op ∈ ops, ∀ b i rng, op.inbound? = some (b, i, rng) → b = (greeting 1).encode)
    {pub : PublicIdentity} (hp : HeardIn ops pub) : pub = (identity 1).public := by
  obtain ⟨op, hop, b, i, rng, p, d, a, hin, hdec, -, -, hparse, -, hkey⟩ := hp
  obtain rfl := h op hop b i rng hin
  cases (greeting_decodes 1).symm.trans hdec
  cases greeting_parses.symm.trans hparse
  cases greeting_key.symm.trans hkey
  rfl

theorem mailReader_met : Met (identity 2) (identity 1).public [.handleInbound (greeting 1).encode 0,
    .sendAnnounce (address 2) [] (entropy 1) 0, .pollOutbound, .setClock 200] mailReader := by
  have hannounced := acquainted.step_sendAnnounce (address 2) [] (entropy 1) 0
  have hpolled := mailAnnouncer.step_pollOutbound
  have hlater := Lts.Run.cons hannounced (.cons hpolled (.single (mailPolled.step_setClock 200)))
  refine ⟨.run .nil (.cons acquainted_step hlater), ?_, fun pub hp _ => greeting_sole ?_ hp⟩
  · exact ⟨[], correspondent 2, _, acquainted, _, .run .nil .nil, acquainted_step,
      ⟨_, _, _, _, _, _, _, rfl, rfl, greeting_takenUp⟩, hlater⟩
  · simp [Op.inbound?]

def mailLetter : LxmfMessage := mailWriter.letter (address 2) [1] [2, 3] fields

def mailLetterPacket : Packet := messageFor (address 2) (identity 2).public (mailLetter.pack.drop 16) (entropy 11)

theorem mail_learned : ChainLearned (correspondent 1).node acquainted.node [townRelay 5] 4 0 (address 2) mailLetterPacket
    mailWriter.node (Relay.turnedBack [mailRelay.polledAt 200]) mailReader.node := by
  have hwriter : mailWriter.node = ((correspondent 1).node.handleInboundInner greetingCopy.encode 4 none).1.atTime 200 := by
    show introduced.node.atTime 200 = _
    rw [introduced, Host.remember_node]
  have hreader : mailReader.node = (acquainted.node.sendAnnounce (address 2) [] (entropy 1) 0).polledAt 200 := by
    simp only [mailReader, mailPolled, mailAnnouncer, polledAt]
  rw [hwriter, hreader]
  have hl : acquainted.node.locals.find? (·.destHash = address 2) =
      some ⟨nameHash "lxmf" ["delivery"], address 2, .single false⟩ := by decide +kernel
  have hsent : (0, (greeting 2).encode) ∈
      acquainted.node.enqueued (acquainted.node.sendAnnounce (address 2) [] (entropy 1) 0) := by decide +kernel
  have hcarried : Lts.Pass Relay.Passes (Relay.turnedBack [townRelay 5]) (greeting 2).encode [mailRelay] greetingCopy.encode :=
    .single ⟨rfl, by decide +kernel⟩
  have hready : ∀ r ∈ [townRelay 5], r.Ready ∧ r.node.Unaware (address 2) (greeting 2) := by
    intro r hr
    obtain rfl := List.mem_singleton.mp hr
    exact ⟨⟨rfl, List.mem_cons_self, List.mem_cons_of_mem 0 (List.mem_singleton_self 1), (by decide : (0 : UInt16) ≠ 1)⟩,
      rfl, rfl, fun _ => rfl, rfl⟩
  have hsource : (correspondent 1).node.Unaware (address 2) (greeting 2) := ⟨by decide +kernel, rfl, fun _ => rfl, rfl⟩
  have hunseen : ∀ r ∈ [townRelay 5], r.node.seenPackets[mailLetterPacket.packetHash]? = none := by
    intro r hr
    obtain rfl := List.mem_singleton.mp hr
    exact town_unseen 5 _
  have hthere : acquainted.node.seenPackets[mailLetterPacket.packetHash]? = none := by decide +kernel
  have hhash : mailLetterPacket.packetHash = (greeting 2).packetHash →
      mailLetterPacket.hashablePart = (greeting 2).hashablePart := by
    intro h
    exact absurd h (by decide +kernel)
  have hkeeps : List.Forall₂ (Relay.Keeps (address 2) mailLetterPacket.packetHash) [mailRelay] [mailRelay.polledAt 200] :=
    .cons (Relay.keeps_polledAt (by decide +kernel)) .nil
  exact .learned hl rfl (by decide) hready hsource hsent (greeting_decodes 2) hcarried hunseen hthere hhash hkeeps
    (keepsPath_atTime (by decide +kernel)) (polledAt_stays _ _ _ _)

theorem opportunistic_mail_letter : MailArrives mailWriter mailReader (Relay.turnedBack [mailRelay.polledAt 200]) 4 0
    (address 2) [1] [2, 3] fields (entropy 11) none := by
  obtain ⟨back, hline, -, hid, hway⟩ := mail_learned.knownWay signVerifies rfl rfl
  rw [hline]
  exact opportunistic_mail signVerifies dhCommutes aesInverts writesShortest mailWriter_started mailReader_met (by decide)
    (by decide) map_fields hway 0 none

end

end Reticulum
