import Reticulum.Chain
import Reticulum.Token

/-!
# Messages along a chain of relays

A chain that has carried an announce carries messages back: each relay
addresses the next one, and the last hands the packet to the destination.
-/

namespace Reticulum

open Node

section
variable [Crypto]

/-- The packet of a message to a SINGLE destination. -/
def messageFor (d : Arr 16) (pub : PublicIdentity) (pt : Bytes) (rng : Entropy) : Packet :=
  Packet.dataSingle d (Token.encrypt pub pt (rng.fill 32).1 ((rng.fill 32).2.fill 16).1)

/-- The packet `m` on its way, with hop byte `k`: the relay `t` is to take it, when there are relays ahead. -/
structure Routed (m : Packet) (t : Option (Arr 16)) (ahead k : Nat) (q : Packet) : Prop where
  content : SameContent m q
  wellFormed : q.WellFormed
  hops : q.hops.toNat = k
  addressed : 0 < ahead → q.headerType = HEADER_2 ∧ q.transportId = t
  direct : ahead = 0 → q.headerType = HEADER_1

theorem Node.SameContent.packetHash {p q : Packet} (h : SameContent p q) : q.packetHash = p.packetHash := by
  simp only [Packet.packetHash, Packet.fullPacketHash, h.hashablePart]

variable [Rmp] [Bzip2]

/-- The relay handles the frame, reports nothing and sends one frame, to the far side. -/
structure Relay.PassesAlone (r : Relay) (f : Bytes) (r' : Relay) (f' : Bytes) : Prop where
  after : r' = r.handled f
  silent : (r.node.handleInboundInner f r.near r.rng).2 = []
  sent : r.node.enqueued r'.node = [(r.far, f')]

omit [Crypto] [Rmp] [Bzip2] in
/-- What a relay makes of the packet for the next one. -/
theorem Routed.forwarded {pub : PublicIdentity} {i : UInt16} {t s : Option (Arr 16)} {h k : Nat} {m q : Packet}
    {e : PathEntry} (hq : Routed m s (h + 1) k q) (he : e.Leads pub i t (h + 1))
    (hk : (received q).hops.toNat = k + 1) : ∃ q', forwardPacket e (received q) = some q' ∧ Routed m t h (k + 1) q' := by
  have hw := received_wellFormed hq.wellFormed
  unfold forwardPacket
  by_cases hfar : 0 < h
  · have hhops : e.hops > 1 := by
      rw [gt_iff_lt, UInt8.lt_iff_toNat_lt, he.hops]
      exact Nat.succ_lt_succ hfar
    obtain ⟨hnext, hsome⟩ := he.nextHop (Nat.succ_lt_succ hfar)
    obtain ⟨id, rfl⟩ := Option.isSome_iff_exists.mp hsome
    rw [if_pos hhops, hnext]
    have h2 : (received q).headerType = HEADER_2 := (hq.addressed (Nat.succ_pos h)).1
    exact ⟨_, rfl, ⟨hq.content.1, hq.content.2, hq.content.3, hq.content.4, hq.content.5⟩, hw.withTransportId h2 id, hk,
      fun _ => ⟨h2, rfl⟩, fun h0 => absurd h0 hfar.ne'⟩
  · have hhops : ¬ e.hops > 1 := by
      rw [gt_iff_lt, UInt8.lt_iff_toNat_lt, he.hops, UInt8.toNat_one]
      omega
    rw [if_neg hhops]
    exact ⟨_, rfl, ⟨hq.content.1, hq.content.2, hq.content.3, hq.content.4, hq.content.5⟩, hw.toHeader1, hk,
      fun h0 => absurd h0 hfar, fun _ => rfl⟩

/-- A relay that has learned the path passes a message on, to the relay that it learned it from. -/
theorem Relay.Knows.passes_message {d : Arr 16} {pub : PublicIdentity} {t : Option (Arr 16)} {h k : Nat} {r : Relay}
    {m q : Packet} (hr : r.Knows d pub m.packetHash t h) (hd : m.destHash = d.1) (ht : m.packetType = DATA)
    (hs : m.destType = SINGLE) (hq : Routed m (some r.node.identity.hash) (h + 1) k q) (hk : k < 127) :
    ∃ r' q', r.turned.PassesAlone q.encode r' q'.encode ∧ Routed m t h (k + 1) q' := by
  obtain ⟨e, hget, hleads, hlive⟩ := hr.path
  obtain ⟨h2, hid⟩ := hq.addressed (Nat.succ_pos h)
  have hhops : q.hops < PATHFINDER_MAX_HOPS := by
    rw [UInt8.lt_iff_toNat_lt, hq.hops]
    exact Nat.lt_succ_of_lt hk
  have hhops' : (received q).hops.toNat = k + 1 := (received_hops hhops).trans (by rw [hq.hops])
  have ha : r.node.Admits q.encode q d := by
    refine ⟨Packet.decode_encode hq.wellFormed, hhops, ?_, hq.content.destHash.trans hd⟩
    rw [hq.content.packetHash, Std.ExtTreeMap.contains_eq_isSome_getElem?, maybePrune_unseen hr.unseen]
    rfl
  obtain ⟨q', hq', hrouted⟩ := hq.forwarded hleads hhops'
  have hfw : (r.node.admitted q).Forwards (received q) d r.far e q' := by
    refine ⟨h2, ?_, ?_, ?_, hq'⟩
    · rw [UInt8.lt_iff_toNat_lt, hhops']
      exact Nat.succ_lt_succ hk
    · refine PathTable.get_prune_of_lt (by simpa using hget) ?_
      rw [nowSecs_admitted]
      exact hlive
    · rw [hleads.interface]
      exact hr.apart
  have helse : (r.node.admitted q).addressedElsewhere (received q) = false := by
    have hid' : (received q).transportId = some r.node.identity.hash := hid
    simp [addressedElsewhere, hr.transport, hid']
  have hnone : (r.node.admitted q).locals.find? (·.destHash = d) = none := by
    rw [admitted_locals, (maybePrune_keeps r.node r.node.nowSecs).2.2.1]
    simpa using hr.foreign
  have hout : r.node.handleInboundInner q.encode r.far r.rng =
      ((r.node.admitted q).prunePaths.emit [(e.interface, q')], []) := by
    have hsingle : (received q).destType = SINGLE := hq.content.destType.trans hs
    rw [handleInboundInner_of_admits ha, dispatch_data (p := received q) (hq.content.packetType.trans ht),
      hfw.handleData_eq helse hnone]
    · rw [hsingle]
      decide
    · rw [hsingle]
      exact fun h => absurd h.1 (by decide)
  refine ⟨_, q', ⟨rfl, congrArg Prod.snd hout, ?_⟩, hrouted⟩
  show r.node.enqueued (r.node.handleInboundInner q.encode r.far r.rng).1 = [(r.near, q'.encode)]
  rw [hout, ← hleads.interface]
  exact enqueued_emit (by simp) _

/-- A line that has learned the way passes a message on to its start. -/
theorem message_passes {d : Arr 16} {pub : PublicIdentity} {t : Option (Arr 16)} {h k : Nat} {rs : List Relay}
    {m q : Packet} (hrs : KnownAlong d pub m.packetHash t h rs) (hd : m.destHash = d.1) (ht : m.packetType = DATA)
    (hs : m.destType = SINGLE) (hq : Routed m (lastId t rs) (h + rs.length) k q) (hk : k + rs.length < 128) :
    ∃ rs' q', Lts.Pass Relay.PassesAlone (Relay.turnedBack rs) q.encode rs' q'.encode ∧
      Routed m t h (k + rs.length) q' := by
  induction rs generalizing t h with
  | nil => exact ⟨[], q, .nil, hq⟩
  | cons r rs ih =>
    rw [List.length_cons] at hk hq ⊢
    rw [Nat.add_comm rs.length 1, ← Nat.add_assoc] at hq
    obtain ⟨rs', q', hpass, hq'⟩ := ih hrs.2 hq (by omega)
    obtain ⟨r', q'', hlast, hq''⟩ := hrs.1.passes_message hd ht hs hq' (by omega)
    refine ⟨rs' ++ [r'], q'', ?_, hq''⟩
    rw [Relay.turnedBack_cons]
    exact hpass.append (.single hlast)

/-! ## The two ends -/

omit [Crypto] [Rmp] [Bzip2] in
theorem PathEntry.Leads.route_ok {e : PathEntry} {pub : PublicIdentity} {i : UInt16} {t : Option (Arr 16)} {h : Nat}
    {m : Packet} (he : e.Leads pub i t (h + 1)) (hw : m.WellFormed) (h1 : m.headerType = HEADER_1) (h0 : m.hops = 0) :
    ∃ q, route e m = .ok q ∧ Routed m t h 0 q := by
  unfold route
  by_cases hfar : 0 < h
  · have hhops : e.hops > 1 := by
      rw [gt_iff_lt, UInt8.lt_iff_toNat_lt, he.hops]
      exact Nat.succ_lt_succ hfar
    obtain ⟨hnext, hsome⟩ := he.nextHop (Nat.succ_lt_succ hfar)
    obtain ⟨id, rfl⟩ := Option.isSome_iff_exists.mp hsome
    rw [if_pos hhops, hnext]
    exact ⟨_, rfl, ⟨rfl, rfl, rfl, rfl, rfl⟩, hw.toHeader2 id, congrArg UInt8.toNat h0, fun _ => ⟨rfl, rfl⟩,
      fun h0 => absurd h0 hfar.ne'⟩
  · have hhops : ¬ e.hops > 1 := by
      rw [gt_iff_lt, UInt8.lt_iff_toNat_lt, he.hops, UInt8.toNat_one]
      omega
    rw [if_neg hhops]
    exact ⟨_, rfl, ⟨rfl, rfl, rfl, rfl, rfl⟩, hw, congrArg UInt8.toNat h0, fun h0 => absurd h0 hfar, fun _ => h1⟩

/-- The destination opens the message and reports nothing else; it sends nothing but a proof. -/
theorem Routed.received_message (hD : Crypto.DhCommutes) (hA : Crypto.AesInverts) {n : Node} {d : Arr 16} {pt : Bytes}
    {rng : Entropy} {t : Option (Arr 16)} {k : Nat} {q : Packet} {l : LocalDestination} {prove : Bool}
    (hq : Routed (messageFor d n.identity.public pt rng) t 0 k q) (hk : k < 128)
    (hl : n.locals.find? (·.destHash = d) = some l) (hkind : l.kind = .single prove)
    (hunseen : n.seenPackets[(messageFor d n.identity.public pt rng).packetHash]? = none) (i : UInt16)
    (entropy : Option Entropy) : (n.handleInboundInner q.encode i entropy).2 = [.message d pt] ∧
      ∀ s ∈ n.enqueued (n.handleInboundInner q.encode i entropy).1, ∃ dest proof,
        s.2 = (Packet.explicitProof dest proof).encode := by
  have hhops : q.hops < PATHFINDER_MAX_HOPS := by
    rw [UInt8.lt_iff_toNat_lt, hq.hops]
    exact hk
  have ha : n.Admits q.encode q d := by
    refine ⟨Packet.decode_encode hq.wellFormed, hhops, ?_, hq.content.destHash⟩
    rw [hq.content.packetHash, Std.ExtTreeMap.contains_eq_isSome_getElem?, maybePrune_unseen hunseen]
    rfl
  have h1 : (received q).headerType = HEADER_1 := hq.direct rfl
  have hsingle : (received q).destType = SINGLE := hq.content.destType
  have helse : (n.admitted q).addressedElsewhere (received q) = false := by
    simp only [addressedElsewhere, h1, (by decide : HEADER_1 ≠ HEADER_2), false_and, decide_false]
  have hopen : (n.admitted q).openLocal l.kind (received q) = some (.ok pt, prove) := by
    have hdata : (received q).data = (messageFor d n.identity.public pt rng).data := hq.content.data
    rw [hkind, openLocal, if_pos hsingle, hdata, admitted_identity, (maybePrune_keeps n n.nowSecs).1]
    exact congrArg (fun r => some (r, prove)) (Token.decrypt_encrypt hD hA n.identity pt _ _)
  have hfound : (n.admitted q).locals.find? (·.destHash = d) = some l := by
    rw [admitted_locals, (maybePrune_keeps n n.nowSecs).2.2.1]
    exact hl
  rw [handleInboundInner_of_admits ha, dispatch_data (p := received q) hq.content.packetType, handleData, helse, hfound]
  · simp only [hopen, Bool.false_eq_true, if_false]
    refine ⟨trivial, fun s hs => ?_⟩
    split at hs
    · rw [← addSigned, push_eq_emit, enqueued_emit (by simp)] at hs
      rw [List.mem_singleton.mp hs]
      exact ⟨_, _, rfl⟩
    · simp [enqueued] at hs
  · rw [hsingle]
    decide
  · rw [hsingle]
    exact fun h => absurd h.1 (by decide)

omit [Rmp] [Bzip2] in
/-- A message along a live path: one frame, on the interface of the path. -/
theorem Node.sendSingleMessage_eq {n : Node} {d : Arr 16} {e : PathEntry} {q : Packet} {pt : Bytes} {rng : Entropy}
    (he : n.paths.get d = some e) (hlive : n.nowSecs < e.expiresAt) (hr : route e (messageFor d e.pub pt rng) = .ok q)
    (receipt : Bool) : n.sendSingleMessage d pt rng receipt =
      if receipt then
        ((n.prunePaths.emit [(e.interface, q)]).addReceipt q.fullPacketHash
          ⟨e.pub, satAdd n.nowSecs RECEIPT_TIMEOUT_SECS⟩, .ok (some q.fullPacketHash))
      else (n.prunePaths.emit [(e.interface, q)], .ok none) := by
  have hget : n.prunePaths.paths.get d = some e := PathTable.get_prune_of_lt he hlive
  have hr : route e (Packet.dataSingle d (Token.encrypt e.pub pt (rng.fill 32).1 ((rng.fill 32).2.fill 16).1)) = .ok q := hr
  unfold sendSingleMessage
  dsimp only
  rw [hget]
  dsimp only
  rw [hr]
  rfl

/-- A message from the source is sent, passes the relays and is all that the destination reports. -/
structure Arrives (source dest : Node) (relays : List Relay) (i j : UInt16) (d : Arr 16) (pt : Bytes) (rng : Entropy)
    (entropy : Option Entropy) : Prop where
  sent : (source.sendMessage d pt rng).2 = .ok ()
  carried : ∃ b b' relays', source.enqueued (source.sendMessage d pt rng).1 = [(i, b)] ∧
    Lts.Pass Relay.PassesAlone relays b relays' b' ∧ (dest.handleInboundInner b' j entropy).2 = [.message d pt]

/-- A line of relays that knows its way to the destination, and a source that knows its way to the line. The relays are
listed from the destination on. -/
structure KnownWay (source dest : Node) (relays : List Relay) (i : UInt16) (d : Arr 16) (m : Packet) : Prop where
  path : ∃ e, source.paths.get d = some e ∧ source.nowSecs < e.expiresAt ∧
    e.Leads dest.identity.public i (lastId none relays) (relays.length + 1)
  known : KnownAlong d dest.identity.public m.packetHash none 0 relays
  short : relays.length < 128
  served : ∃ l prove, dest.locals.find? (·.destHash = d) = some l ∧ l.kind = .single prove
  unseen : dest.seenPackets[m.packetHash]? = none

/-- A chain that has carried the announce of a SINGLE destination, some time ago but within the expiry of the paths, and
whatever the nodes did since. At first no node of it knew anything of the destination; the message `m` is still unseen. -/
inductive ChainLearned (source dest : Node) (relays : List Relay) (i j : UInt16) (d : Arr 16) (m : Packet) :
    Node → List Relay → Node → Prop
  | learned {l : LocalDestination} {prove : Bool} {appData f g : Bytes} {rng : Entropy} {p : Packet}
    {heard later : List Relay} {entropy : Option Entropy} {source' dest' : Node}
    (served : dest.locals.find? (·.destHash = d) = some l) (kind : l.kind = .single prove)
    (short : relays.length < 128) (ready : ∀ r ∈ relays, r.Ready ∧ r.node.Unaware d p) (unaware : source.Unaware d p)
    (announced : (j, f) ∈ dest.enqueued (dest.sendAnnounce d appData rng j)) (decoded : Packet.decode f = .ok p)
    (carried : Lts.Pass Relay.Passes (Relay.turnedBack relays) f heard g)
    (unseen : ∀ r ∈ relays, r.node.seenPackets[m.packetHash]? = none) (unseenThere : dest.seenPackets[m.packetHash]? = none)
    (collisionFree : m.packetHash = p.packetHash → m.hashablePart = p.hashablePart)
    (inTime : List.Forall₂ (Relay.Keeps d m.packetHash) heard later)
    (soon : (source.handleInboundInner g i entropy).1.KeepsPath d source')
    (stays : (dest.sendAnnounce d appData rng j).Stays d m.packetHash dest') :
    ChainLearned source dest relays i j d m source' (Relay.turnedBack later) dest'

/-- What a chain has learned from the announce. -/
theorem ChainLearned.knownWay (hS : Crypto.SignVerifies) {source dest source' dest' : Node} {relays line : List Relay}
    {i j : UInt16} {d : Arr 16} {m : Packet} (ht : m.packetType = DATA) (hd : m.destType = SINGLE)
    (h : ChainLearned source dest relays i j d m source' line dest') :
    ∃ back, line = Relay.turnedBack back ∧ back.length = relays.length ∧ dest'.identity = dest.identity ∧
      KnownWay source' dest' back i d m := by
  obtain @⟨l, prove, appData, f, g, rng, p, heard, later, entropy, source', dest', hl, hkind, hlen, hrelays, hsource, hsent,
    hp, hpass, hunseen, hdest, hhash, hlater, hsoon, hstays⟩ := h
  obtain ⟨rfl, hby, hway⟩ := announce_sent hsent hp
  have hne : m.packetHash ≠ p.packetHash := by
    intro h
    obtain ⟨_, _, _, rfl⟩ := hby
    have hbyte := (List.cons.inj (hhash h)).1
    rw [ht, hd] at hbyte
    exact absurd hbyte (by decide : ¬ (((SINGLE &&& (0x3 : UInt8)) <<< (2 : UInt8)) ||| (DATA &&& (0x3 : UInt8)) =
      ((SINGLE &&& (0x3 : UInt8)) <<< (2 : UInt8)) ||| (ANNOUNCE &&& (0x3 : UInt8))))
  have hlength : later.length = relays.length := by
    rw [← hlater.length_eq, hpass.length_eq, Relay.length_turnedBack]
  have hready : ∀ r ∈ Relay.turnedBack relays, r.Ready ∧ r.node.Unaware d p ∧
      r.node.seenPackets[m.packetHash]? = none := by
    intro r hr
    obtain ⟨s, hs, rfl⟩ := Relay.mem_turnedBack hr
    exact ⟨(hrelays s hs).1.turned, (hrelays s hs).2, hunseen s hs⟩
  obtain ⟨hknown, q, rfl, hq⟩ := known_along hS hby hready hne hway
    (by rw [Relay.length_turnedBack]; omega) hpass hlater
  rw [Relay.length_turnedBack, Nat.zero_add, ← hlength] at hq
  have hear := hsource.hears hS hby hq (by omega) i entropy
  obtain ⟨e, hget, hleads, -⟩ := hear.path
  have hsame : (dest.sendAnnounce d appData rng j).identity = dest.identity ∧
      (dest.sendAnnounce d appData rng j).locals = dest.locals ∧
      (dest.sendAnnounce d appData rng j).seenPackets = dest.seenPackets := by
    have hc := dest.sendAnnounce_cases d appData rng j
    generalize dest.sendAnnounce d appData rng j = dest' at hc
    cases hc <;> exact ⟨rfl, rfl, rfl⟩
  obtain ⟨hget', hlive⟩ := hsoon e hget
  have hid : dest'.identity = dest.identity := hstays.identity.trans hsame.1
  have hserved : dest'.locals.find? (·.destHash = d) = some l := by rw [hstays.locals, hsame.2.1, hl]
  refine ⟨later, rfl, hlength, hid, ⟨e, hget', hlive, hid ▸ hleads⟩, hid ▸ hknown, by omega, ⟨l, prove, hserved, hkind⟩, ?_⟩
  exact hstays.unseen (hsame.2.2 ▸ hdest)

/-- The message over a known way: one frame at the source, one at each relay, and then it is opened. -/
theorem KnownWay.carries (hD : Crypto.DhCommutes) (hA : Crypto.AesInverts) {source dest : Node} {relays : List Relay}
    {i : UInt16} {d : Arr 16} {pt : Bytes} {rng : Entropy}
    (h : KnownWay source dest relays i d (messageFor d dest.identity.public pt rng)) (receipt : Bool) (j : UInt16)
    (entropy : Option Entropy) :
    ∃ b b' relays', source.enqueued (source.sendSingleMessage d pt rng receipt).1 = [(i, b)] ∧
      (source.sendSingleMessage d pt rng receipt).2.isOk = true ∧ Lts.Pass Relay.PassesAlone (Relay.turnedBack relays) b relays' b' ∧
      (dest.handleInboundInner b' j entropy).2 = [.message d pt] ∧
      ∀ s ∈ dest.enqueued (dest.handleInboundInner b' j entropy).1, ∃ receipt proof,
        s.2 = (Packet.explicitProof receipt proof).encode := by
  have hw : (messageFor d dest.identity.public pt rng).WellFormed := wellFormed_dataFor (by decide) _ _
  obtain ⟨e, he, hlive, hleads⟩ := h.path
  obtain ⟨l, prove, hl, hkind⟩ := h.served
  have hlen := h.short
  obtain ⟨q, hr, hq⟩ := hleads.route_ok hw rfl rfl
  have hr' : route e (messageFor d e.pub pt rng) = .ok q := by
    rw [hleads.pub]
    exact hr
  obtain ⟨relays', q', hpass, hq'⟩ := message_passes h.known rfl rfl rfl (by rwa [Nat.zero_add]) (by omega)
  have hopen := hq'.received_message hD hA (by omega) hl hkind h.unseen j entropy
  rw [sendSingleMessage_eq he hlive hr' receipt]
  refine ⟨q.encode, q'.encode, relays', ?_, ?_, hpass, hopen.1, hopen.2⟩
  · rw [← hleads.interface]
    cases receipt <;> exact enqueued_emit rfl _
  · cases receipt <;> rfl

theorem KnownWay.arrives (hD : Crypto.DhCommutes) (hA : Crypto.AesInverts) {source dest : Node} {relays : List Relay}
    {i : UInt16} {d : Arr 16} {pt : Bytes} {rng : Entropy}
    (h : KnownWay source dest relays i d (messageFor d dest.identity.public pt rng)) (j : UInt16) (entropy : Option Entropy) :
    Arrives source dest (Relay.turnedBack relays) i j d pt rng entropy := by
  obtain ⟨b, b', relays', hsent, hok, hpass, hev, -⟩ := h.carries hD hA false j entropy
  refine ⟨?_, b, b', relays', by rwa [sendMessage_fst], hpass, hev⟩
  unfold sendMessage
  split
  · rename_i heq
    rw [heq] at hok
    cases hok
  · rfl

/-- When the announce of a SINGLE destination has been carried along a chain of relays to a source that knew nothing of
it, every message from the source reaches the destination, for as long as no path expires. -/
theorem multi_hop_delivery (hS : Crypto.SignVerifies) (hD : Crypto.DhCommutes) (hA : Crypto.AesInverts)
    {source dest source' dest' : Node} {relays line : List Relay} {i j : UInt16} {d : Arr 16} {pt : Bytes} {rng : Entropy}
    {entropy : Option Entropy}
    (h : ChainLearned source dest relays i j d (messageFor d dest.identity.public pt rng) source' line dest') :
    Arrives source' dest' line i j d pt rng entropy := by
  obtain ⟨back, rfl, -, hid, hway⟩ := h.knownWay hS rfl rfl
  rw [← hid] at hway
  exact hway.arrives hD hA j entropy

end

/-! ## Two relays between a source and a town -/

section
open Sample

/-- A relay that has heard nothing yet. -/
def townRelay (seed : UInt8) : Relay where
  node := { withClock (identity seed) 100 with transportEnabled := true, interfaces := [0, 1] }
  near := 0
  far := 1
  rng := none

/-- The announce as it leaves a relay. -/
def townCopy (seed : UInt8) (hops : UInt8) : Packet :=
  { townAnnounce (entropy 1) with
    headerType := HEADER_2, propagation := TRANSPORT, hops := hops, transportId := some (identity seed).hash }

def townFar : Relay := (townRelay 7).turned.handled (townAnnounce (entropy 1)).encode

def townNear : Relay := (townRelay 5).turned.handled (townCopy 7 1).encode

theorem town_carried : Lts.Pass Relay.Passes (Relay.turnedBack [townRelay 5, townRelay 7])
    (townAnnounce (entropy 1)).encode [townFar, townNear] (townCopy 5 2).encode :=
  .cons ⟨rfl, by decide +kernel⟩ (.single ⟨rfl, by decide +kernel⟩)

theorem town_unaware (seed : UInt8) : (townRelay seed).node.Unaware townDest (townAnnounce (entropy 1)) :=
  ⟨rfl, rfl, fun _ => rfl, rfl⟩

theorem town_unseen (seed : UInt8) (hash : Arr 16) : (townRelay seed).node.seenPackets[hash]? = none := rfl

/-- The town with proofs turned on. -/
def townProver : Node := ((townNode 100).setProve townDest true).1

theorem setProve_seenPackets (n : Node) (d : Arr 16) (enabled : Bool) :
    (n.setProve d enabled).1.seenPackets = n.seenPackets := rfl

theorem townProver_unseen (hash : Arr 16) : townProver.seenPackets[hash]? = none := by
  rw [townProver, setProve_seenPackets]
  exact Std.ExtTreeMap.getElem?_empty

def townMessage : Packet := messageFor townDest townProver.identity.public [1, 2, 3] (entropy 11)

/-- The source, which has heard the announce on its interface 4. -/
def townSource : Node := ((withClock (identity 9) 100).handleInboundInner (townCopy 5 2).encode 4 none).1.polledAt 200

/-- The relays as the message finds them, and the town. -/
def townLine : List Relay := Relay.turnedBack [townFar.polledAt 200, townNear.polledAt 200]

def townListener : Node := (townProver.sendAnnounce townDest [] (entropy 1) 0).polledAt 200

theorem town_learned : ChainLearned (withClock (identity 9) 100) townProver [townRelay 5, townRelay 7] 4 0 townDest townMessage
    townSource townLine townListener := by
  have hl : townProver.locals.find? (·.destHash = townDest) = some ⟨nameHash "town" [], townDest, .single true⟩ := by
    decide +kernel
  have hsent : (0, (townAnnounce (entropy 1)).encode) ∈
      townProver.enqueued (townProver.sendAnnounce townDest [] (entropy 1) 0) := by
    decide +kernel
  have hready (seed : UInt8) : (townRelay seed).Ready :=
    ⟨rfl, List.mem_cons_self, List.mem_cons_of_mem 0 (List.mem_singleton_self 1), (by decide : (0 : UInt16) ≠ 1)⟩
  have hrelays : ∀ r ∈ [townRelay 5, townRelay 7], r.Ready ∧ r.node.Unaware townDest (townAnnounce (entropy 1)) := by
    intro r hr
    rcases List.mem_pair.mp hr with rfl | rfl
    · exact ⟨hready 5, town_unaware 5⟩
    · exact ⟨hready 7, town_unaware 7⟩
  have hsource : (withClock (identity 9) 100).Unaware townDest (townAnnounce (entropy 1)) := ⟨rfl, rfl, fun _ => rfl, rfl⟩
  have hunseen : ∀ r ∈ [townRelay 5, townRelay 7], r.node.seenPackets[townMessage.packetHash]? = none := by
    intro r hr
    rcases List.mem_pair.mp hr with rfl | rfl
    · exact town_unseen 5 _
    · exact town_unseen 7 _
  have hhash : townMessage.packetHash = (townAnnounce (entropy 1)).packetHash →
      townMessage.hashablePart = (townAnnounce (entropy 1)).hashablePart := by
    intro h
    exact absurd h (by decide +kernel)
  have hkeeps : List.Forall₂ (Relay.Keeps townDest townMessage.packetHash) [townFar, townNear]
      [townFar.polledAt 200, townNear.polledAt 200] :=
    .cons (Relay.keeps_polledAt (by decide +kernel)) (.cons (Relay.keeps_polledAt (by decide +kernel)) .nil)
  exact .learned hl rfl (by decide) hrelays hsource hsent (townAnnounce_decodes _) town_carried hunseen (townProver_unseen _)
    hhash hkeeps (polledAt_keepsPath (by decide +kernel)) (polledAt_stays _ _ _ _)

theorem multi_hop_delivery_town : Arrives townSource townListener townLine 4 0 townDest [1, 2, 3] (entropy 11) none :=
  multi_hop_delivery signVerifies dhCommutes aesInverts town_learned

end

end Reticulum
