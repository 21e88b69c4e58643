import Reticulum.Carrying
import Reticulum.Forwarding
import Reticulum.Lib.Pass
import Reticulum.Supersede

/-!
# An announce along a chain of relays

Relays stand in a line between two nodes. An announce that is carried along
the line leaves in each node on its way a path back: one hop longer at each,
over the interface it came in on, by way of the relay that handed it on.
-/

namespace Reticulum

open Node

/-- A transport node on the way, its interfaces to its two neighbours and what its driver hands to `handle_inbound`. -/
structure Relay where
  node : Node
  near : UInt16
  far : UInt16
  rng : Option Entropy

namespace Relay

/-- The relay as seen from the other end of the line. -/
def turned (r : Relay) : Relay := { r with near := r.far, far := r.near }

/-- The line of relays from its other end. -/
def turnedBack (rs : List Relay) : List Relay := (rs.map turned).reverse

theorem turnedBack_cons (r : Relay) (rs : List Relay) : turnedBack (r :: rs) = turnedBack rs ++ [r.turned] := by
  simp [turnedBack]

@[simp] theorem length_turnedBack (rs : List Relay) : (turnedBack rs).length = rs.length := by simp [turnedBack]

theorem mem_turnedBack {r : Relay} {rs : List Relay} (h : r ∈ turnedBack rs) : ∃ s ∈ rs, r = s.turned := by
  obtain ⟨s, hs, rfl⟩ := List.mem_map.mp (List.mem_reverse.mp h)
  exact ⟨s, hs, rfl⟩

/-- A relay that can pass packets on between its neighbours. -/
structure Ready (r : Relay) : Prop where
  transport : r.node.transportEnabled = true
  near : r.near ∈ r.node.interfaces
  far : r.far ∈ r.node.interfaces
  apart : r.near ≠ r.far

theorem Ready.turned {r : Relay} (h : r.Ready) : r.turned.Ready := ⟨h.transport, h.far, h.near, h.apart.symm⟩

variable [Crypto] [Rmp] [Bzip2]

/-- The relay when a frame from the near side is handled. -/
def handled (r : Relay) (f : Bytes) : Relay := { r with node := (r.node.handleInboundInner f r.near r.rng).1 }

/-- What comes from the near side is handled, and something goes out on the far side. -/
structure Passes (r : Relay) (f : Bytes) (r' : Relay) (f' : Bytes) : Prop where
  after : r' = r.handled f
  sent : (r.far, f') ∈ r.node.enqueued r'.node

end Relay

section
variable [Crypto]

/-- An announce that a node with this identity sends for `d`. -/
def AnnouncedBy (identity : Identity) (d : Arr 16) (p : Packet) : Prop :=
  ∃ nameHash randomHash appData,
    p = Packet.announce d (Announce.build identity d nameHash randomHash appData).toPayload

/-- The announce on its way: after `h` relays, the last of them with transport id `t`. -/
structure OnItsWay (p : Packet) (t : Option (Arr 16)) (h : Nat) (q : Packet) : Prop where
  carried : CarriedAs p q
  destType : q.destType = p.destType
  context : q.context = p.context
  wellFormed : q.WellFormed
  hops : q.hops.toNat = h
  relayed : 0 < h → q.headerType = HEADER_2 ∧ q.transportId = t

/-- What an announcing node sends is the announce at the start of its way. -/
theorem announce_sent {n : Node} {d : Arr 16} {appData f : Bytes} {rng : Entropy} {i : UInt16} {p : Packet}
    (hf : (i, f) ∈ n.enqueued (n.sendAnnounce d appData rng i)) (hp : Packet.decode f = .ok p) :
    f = p.encode ∧ AnnouncedBy n.identity d p ∧ OnItsWay p none 0 p := by
  have hc := n.sendAnnounce_cases d appData rng i
  generalize n.sendAnnounce d appData rng i = n' at hf hc
  cases hc with
  | unknown => simp [enqueued] at hf
  | @sent l hl hd =>
    rw [enqueued_of_append rfl] at hf
    obtain ⟨-, rfl⟩ := Prod.mk.inj (List.mem_singleton.mp hf)
    cases (Packet.decode_encode (Packet.wellFormed_announce _ _)).symm.trans hp
    refine ⟨rfl, ⟨l.nameHash, _, appData, by rw [announceFor, hd]⟩, ⟨rfl, rfl, rfl, rfl⟩, rfl, rfl,
      Packet.wellFormed_announce _ _, rfl, fun h => absurd h (Nat.lt_irrefl 0)⟩

/-- A node without any state for the destination, which has not seen the announce either. -/
structure Node.Unaware (n : Node) (d : Arr 16) (p : Packet) : Prop where
  foreign : n.locals.any (·.destHash = d) = false
  noPath : n.paths.get d = none
  noAnnounce : ∀ randomHash : Arr 10, n.seenAnnounces[(d, randomHash)]? = none
  unseen : n.seenPackets[p.packetHash]? = none

/-- A path of `h` hops over the interface `i`, by way of `t` when that is more than one hop. -/
structure PathEntry.Leads (e : PathEntry) (pub : PublicIdentity) (i : UInt16) (t : Option (Arr 16)) (h : Nat) : Prop where
  interface : e.interface = i
  hops : e.hops.toNat = h
  nextHop : 1 < h → e.nextHopTransportId = t ∧ t.isSome = true
  pub : e.pub = pub

/-- What becomes of a node that hears the announce on the interface `i`. -/
structure Node.Hears (n : Node) (p : Packet) (d : Arr 16) (pub : PublicIdentity) (i : UInt16) (t : Option (Arr 16)) (h : Nat)
    (q : Packet) (n' : Node) : Prop where
  path : ∃ e, n'.paths.get d = some e ∧ e.Leads pub i t (h + 1) ∧ e.expiresAt = satAdd n.nowSecs PATH_EXPIRY_SECS
  identity : n'.identity = n.identity
  clock : n'.clock = n.clock
  locals : n'.locals = n.locals
  interfaces : n'.interfaces = n.interfaces
  transportEnabled : n'.transportEnabled = n.transportEnabled
  copies : n.enqueued n' = (n.rebroadcastCopies (received q) i).map fun s => (s.1, s.2.encode)
  unseen : ∀ hash : Arr 16, n.seenPackets[hash]? = none → hash ≠ p.packetHash → n'.seenPackets[hash]? = none

theorem OnItsWay.packetHash {p q : Packet} {t : Option (Arr 16)} {h : Nat} (hq : OnItsWay p t h q) :
    q.packetHash = p.packetHash := by
  simp only [Packet.packetHash, Packet.fullPacketHash, Packet.hashablePart, hq.carried.packetType, hq.carried.destHash,
    hq.carried.data, hq.destType, hq.context]

omit [Crypto] in
theorem Node.maybePrune_unseen {n : Node} {hash : Arr 16} (h : n.seenPackets[hash]? = none) :
    (n.maybePrune n.nowSecs).seenPackets[hash]? = none := by
  rcases n.maybePrune_seenPackets n.nowSecs with hs | hs
  · rwa [hs]
  · rw [hs, Dedup.getElem?_sweep, h]
    rfl

variable [Rmp] [Bzip2]

theorem Node.Admits.unseen_other {n : Node} {b : Bytes} {p : Packet} {d : Arr 16} (ha : n.Admits b p d) {hash : Arr 16}
    (h : n.seenPackets[hash]? = none) (hne : hash ≠ p.packetHash) (i : UInt16) (rng : Option Entropy) :
    (n.handleInboundInner b i rng).1.seenPackets[hash]? = none := by
  rw [handleInboundInner_seenPackets, ha.admission_eq, admitted_seenPackets, Std.ExtTreeMap.getElem?_insert, if_neg]
  · exact maybePrune_unseen h
  · simpa using hne.symm

/-- A node without state for the destination takes the announce up. -/
theorem Node.Unaware.hears (hS : Crypto.SignVerifies) {identity : Identity} {d : Arr 16} {p q : Packet}
    {t : Option (Arr 16)} {h : Nat} {n : Node} (hp : AnnouncedBy identity d p) (hn : n.Unaware d p)
    (hq : OnItsWay p t h q) (hh : h < 128) (i : UInt16) (rng : Option Entropy) :
    n.Hears p d identity.public i t h q (n.handleInboundInner q.encode i rng).1 := by
  obtain ⟨nameHash, randomHash, appData, rfl⟩ := hp
  let a := Announce.build identity d nameHash randomHash appData
  have hhops : q.hops < PATHFINDER_MAX_HOPS := by
    rw [UInt8.lt_iff_toNat_lt, hq.hops]
    exact hh
  have ha : n.Admits q.encode q d := by
    refine ⟨Packet.decode_encode hq.wellFormed, hhops, ?_, hq.carried.destHash⟩
    rw [hq.packetHash, Std.ExtTreeMap.contains_eq_isSome_getElem?, maybePrune_unseen hn.unseen]
    rfl
  have hparse : Announce.parse q.data q.contextFlag = .ok a := by
    rw [hq.carried.data, hq.carried.contextFlag]
    exact Announce.parse_toPayload a
  have hpub : PublicIdentity.fromBytes a.pub.1 = .ok identity.public := PublicIdentity.fromBytes_toBytes _
  have hann : (n.admitted q).Announces (received q) d a := by
    refine ⟨by simpa using hn.foreign, hparse, Announce.verify_build hS identity d nameHash _ appData, ?_⟩
    have hnone : (n.admitted q).seenAnnounces[(d, a.randomHash)]? = none := by
      rw [admitted_seenAnnounces]
      rcases n.maybePrune_seenAnnounces n.nowSecs with hs | hs
      · rw [hs]
        exact hn.noAnnounce _
      · rw [hs, Dedup.getElem?_sweep, hn.noAnnounce]
        rfl
    rw [Std.ExtTreeMap.contains_eq_isSome_getElem?, hnone]
    rfl
  have hacc : ((n.admitted q).paths.update d
      (announcedEntry (received q) a identity.public i (n.admitted q).nowSecs) (n.admitted q).nowSecs).2 = true := by
    refine PathTable.update_accepts_iff.mpr fun e he _ => ?_
    have hget : n.paths.get d = some e := by simpa using he
    rw [hn.noPath] at hget
    cases hget
  have hout : n.handleInboundInner q.encode i rng =
      (((n.admitted q).learned (received q) d a identity.public i).emit ((n.admitted q).rebroadcastCopies (received q) i),
        [.announce d (received q).hops]) := by
    rw [handleInboundInner_of_admits ha, dispatch_announce (p := received q) hq.carried.packetType,
      hann.handleAnnounce_eq hpub, if_pos hacc]
  have hsame : (n.admitted q).rebroadcastCopies (received q) i = n.rebroadcastCopies (received q) i := by
    simp [rebroadcastCopies, rebroadcasts, rebroadcast]
  constructor
  · refine ⟨_, by rw [hout, learned_get], ⟨rfl, ?_, fun hlt => ?_, rfl⟩, by rw [nowSecs_admitted]; rfl⟩
    · exact (received_hops hhops).trans (by rw [hq.hops])
    · obtain ⟨h2, ht⟩ := hq.relayed (by omega)
      have hr : (received q).headerType = HEADER_2 := h2
      have hsome : q.transportId.isSome = true := hq.wellFormed.transportId.mpr h2
      simp only [announcedEntry, hr, if_true]
      exact ⟨ht, ht ▸ hsome⟩
  · simp [hout]
  · simp [hout]
  · simp [hout]
  · simp [hout]
  · simp [hout]
  · rw [hout, hsame]
    exact enqueued_emit (by simp) _
  · intro hash hnone hne
    exact ha.unseen_other hnone (by rwa [hq.packetHash]) i rng

theorem Relay.Passes.announce (hS : Crypto.SignVerifies) {identity : Identity} {d : Arr 16} {p q : Packet}
    {t : Option (Arr 16)} {h : Nat} {r r' : Relay} {f : Bytes} (hp : AnnouncedBy identity d p) (hn : r.node.Unaware d p)
    (hq : OnItsWay p t h q) (hh : h < 128) (hpass : r.Passes q.encode r' f) :
    r.node.Hears p d identity.public r.near t h q r'.node ∧
      ∃ q', f = q'.encode ∧ OnItsWay p (some r.node.identity.hash) (h + 1) q' := by
  have hear := hn.hears hS hp hq hh r.near r.rng
  have hafter : r'.node = (r.node.handleInboundInner q.encode r.near r.rng).1 := congrArg Relay.node hpass.after
  rw [← hafter] at hear
  refine ⟨hear, ?_⟩
  have hsent := hpass.sent
  rw [hear.copies, rebroadcastCopies] at hsent
  split at hsent
  · simp only [List.map_map, List.mem_map] at hsent
    obtain ⟨j, -, heq⟩ := hsent
    obtain ⟨-, rfl⟩ := Prod.mk.inj heq
    have hhops : q.hops < PATHFINDER_MAX_HOPS := by
      rw [UInt8.lt_iff_toNat_lt, hq.hops]
      exact hh
    refine ⟨_, rfl, ⟨hq.carried.1, hq.carried.2, hq.carried.3, hq.carried.4⟩, hq.destType, hq.context,
      (received_wellFormed hq.wellFormed).toHeader2 _, ?_, fun _ => ⟨rfl, rfl⟩⟩
    exact (received_hops hhops).trans (by rw [hq.hops])
  · cases hsent

theorem Relay.Ready.passes_announce (hS : Crypto.SignVerifies) {identity : Identity} {d : Arr 16} {p q : Packet}
    {t : Option (Arr 16)} {h : Nat} {r : Relay} (hr : r.Ready) (hp : AnnouncedBy identity d p) (hn : r.node.Unaware d p)
    (hq : OnItsWay p t h q) (hh : h < 127) : ∃ r' f, r.Passes q.encode r' f := by
  have hear := hn.hears hS hp hq (by omega) r.near r.rng
  have hhops : q.hops < PATHFINDER_MAX_HOPS := by
    rw [UInt8.lt_iff_toNat_lt, hq.hops]
    exact Nat.lt_succ_of_lt hh
  have hre : r.node.rebroadcasts (received q) := by
    refine ⟨hr.transport, ?_, ?_⟩
    · rw [UInt8.lt_iff_toNat_lt, received_hops hhops, hq.hops]
      exact Nat.succ_lt_succ hh
    · obtain ⟨_, _, _, rfl⟩ := hp
      show q.context ≠ PATH_RESPONSE
      rw [hq.context]
      show (0 : UInt8) ≠ PATH_RESPONSE
      decide
  refine ⟨_, (r.node.rebroadcast (received q)).encode, rfl, ?_⟩
  show _ ∈ r.node.enqueued (r.node.handleInboundInner q.encode r.near r.rng).1
  rw [hear.copies, rebroadcastCopies, if_pos hre]
  simpa using ⟨hr.far, hr.apart.symm⟩

/-! ## The whole line -/

/-- The relay nearest the end of the line, or who handed to the first. -/
def lastId : Option (Arr 16) → List Relay → Option (Arr 16)
  | t, [] => t
  | _, r :: rs => lastId (some r.node.identity.hash) rs

/-- The node at another time. -/
def Node.atTime (n : Node) (now : UInt64) : Node := { n with clock := now }

/-- The relay after a while, within the expiry of a path it has just learned. -/
structure Relay.Later (r r' : Relay) : Prop where
  eq : r' = { r with node := r.node.atTime r'.node.clock, rng := r'.rng }
  soon : r'.node.nowSecs < satAdd r.node.nowSecs PATH_EXPIRY_SECS

/-- The path that a node had for `d` is still there and has not expired. -/
def Node.KeepsPath (d : Arr 16) (n n' : Node) : Prop :=
  ∀ e, n.paths.get d = some e → n'.paths.get d = some e ∧ n'.nowSecs < e.expiresAt

/-- The node after a while, with whatever it did meanwhile: it is the same node, with the same registration for `d`, and
a packet that it had not seen it has not seen since. -/
structure Node.Stays (d hash : Arr 16) (n n' : Node) : Prop where
  identity : n'.identity = n.identity
  locals : n'.locals.find? (·.destHash = d) = n.locals.find? (·.destHash = d)
  unseen : n.seenPackets[hash]? = none → n'.seenPackets[hash]? = none

omit [Crypto] [Rmp] [Bzip2] in
theorem Node.Stays.foreign {d hash : Arr 16} {n n' : Node} (h : n.Stays d hash n')
    (hn : n.locals.any (·.destHash = d) = false) : n'.locals.any (·.destHash = d) = false := by
  rw [← List.isSome_find?, h.locals, List.isSome_find?]
  exact hn

/-- The relay after a while, with its path for `d`. -/
structure Relay.Keeps (d hash : Arr 16) (r r' : Relay) : Prop where
  near : r'.near = r.near
  far : r'.far = r.far
  transportEnabled : r'.node.transportEnabled = r.node.transportEnabled
  stays : r.node.Stays d hash r'.node
  path : r.node.KeepsPath d r'.node

omit [Crypto] [Rmp] [Bzip2] in
/-- A node that did nothing keeps its path until it expires. -/
theorem Node.keepsPath_atTime {d : Arr 16} {n : Node} {now : UInt64}
    (h : (n.paths.get d).all (fun e => now.toNat < e.expiresAt) = true) : n.KeepsPath d (n.atTime now) := by
  intro e he
  rw [he] at h
  exact ⟨he, of_decide_eq_true h⟩

/-- The node once its driver has taken a frame off it, at another time. -/
def Node.polledAt (n : Node) (now : UInt64) : Node := n.pollOutbound.1.atTime now

omit [Crypto] [Rmp] [Bzip2] in
theorem Node.polledAt_stays (d hash : Arr 16) (n : Node) (now : UInt64) : n.Stays d hash (n.polledAt now) := by
  unfold polledAt pollOutbound
  split <;> exact ⟨rfl, rfl, id⟩

omit [Crypto] [Rmp] [Bzip2] in
theorem Node.polledAt_keepsPath {d : Arr 16} {n : Node} {now : UInt64}
    (h : (n.paths.get d).all (fun e => now.toNat < e.expiresAt) = true) : n.KeepsPath d (n.polledAt now) := by
  intro e he
  rw [he] at h
  have hpaths : (n.polledAt now).paths = n.paths := by
    unfold polledAt pollOutbound
    split <;> rfl
  exact ⟨hpaths ▸ he, of_decide_eq_true h⟩

/-- The relay once its driver has taken a frame off it, at another time. -/
def Relay.polledAt (r : Relay) (now : UInt64) : Relay := { r with node := r.node.polledAt now }

omit [Crypto] [Rmp] [Bzip2] in
theorem Relay.keeps_polledAt {d hash : Arr 16} {r : Relay} {now : UInt64}
    (h : (r.node.paths.get d).all (fun e => now.toNat < e.expiresAt) = true) : r.Keeps d hash (r.polledAt now) := by
  refine ⟨rfl, rfl, ?_, r.node.polledAt_stays d hash now, Node.polledAt_keepsPath h⟩
  unfold Relay.polledAt Node.polledAt Node.pollOutbound
  split <;> rfl

/-- A relay with a live path of `h + 1` hops over its near side, which has not seen the message. -/
structure Relay.Knows (d : Arr 16) (pub : PublicIdentity) (hash : Arr 16) (t : Option (Arr 16)) (h : Nat) (r : Relay) :
    Prop where
  transport : r.node.transportEnabled = true
  apart : r.near ≠ r.far
  foreign : r.node.locals.any (·.destHash = d) = false
  path : ∃ e, r.node.paths.get d = some e ∧ e.Leads pub r.near t (h + 1) ∧ r.node.nowSecs < e.expiresAt
  unseen : r.node.seenPackets[hash]? = none

/-- Each relay of the line leads to the one before it. -/
def KnownAlong (d : Arr 16) (pub : PublicIdentity) (hash : Arr 16) : Option (Arr 16) → Nat → List Relay → Prop
  | _, _, [] => True
  | t, h, r :: rs => r.Knows d pub hash t h ∧ KnownAlong d pub hash (some r.node.identity.hash) (h + 1) rs

/-- The announce can be carried along any line of ready relays, up to the hop limit. -/
theorem announce_passes (hS : Crypto.SignVerifies) {identity : Identity} {d : Arr 16} {p q : Packet}
    {t : Option (Arr 16)} {h : Nat} {rs : List Relay} (hp : AnnouncedBy identity d p)
    (hrs : ∀ r ∈ rs, r.Ready ∧ r.node.Unaware d p) (hq : OnItsWay p t h q) (hlen : h + rs.length < 128) :
    ∃ rs' f, Lts.Pass Relay.Passes rs q.encode rs' f := by
  let on (k : Nat) (b : Bytes) : Prop := ∃ t q, b = q.encode ∧ OnItsWay p t k q
  refine Lts.Pass.exists_of (Q := on) (m := 127) ?_ hrs (Nat.le_of_lt_succ hlen) ⟨t, q, rfl, hq⟩
  rintro r k _ hk ⟨hr, hn⟩ ⟨t, q, rfl, hq⟩
  obtain ⟨r', f, hpass⟩ := hr.passes_announce hS hp hn hq hk
  obtain ⟨-, q', rfl, hq'⟩ := hpass.announce hS hp hn hq (by omega)
  exact ⟨r', _, hpass, _, q', rfl, hq'⟩

omit [Rmp] [Bzip2] in
theorem Node.Hears.knows {p q : Packet} {d : Arr 16} {pub : PublicIdentity} {hash : Arr 16} {t : Option (Arr 16)}
    {h : Nat} {r r' : Relay} {n' : Node} (hh : r.node.Hears p d pub r.near t h q n') (hr : r.Ready)
    (hforeign : r.node.locals.any (·.destHash = d) = false) (hunseen : r.node.seenPackets[hash]? = none)
    (hne : hash ≠ p.packetHash) (hkeeps : { r with node := n' }.Keeps d hash r') : r'.Knows d pub hash t h := by
  obtain ⟨hnear, hfar, htransport, hstays, hpath⟩ := hkeeps
  obtain ⟨e, hget, hleads, -⟩ := hh.path
  have hn' : n'.locals.any (·.destHash = d) = false := (congrArg (·.any (·.destHash = d)) hh.locals).trans hforeign
  constructor
  · exact htransport.trans (hh.transportEnabled.trans hr.transport)
  · rw [hnear, hfar]
    exact hr.apart
  · exact hstays.foreign hn'
  · obtain ⟨hget', hlive⟩ := hpath e hget
    exact ⟨e, hget', hnear.symm ▸ hleads, hlive⟩
  · exact hstays.unseen (hh.unseen hash hunseen hne)

theorem known_along (hS : Crypto.SignVerifies) {identity : Identity} {d : Arr 16} {p q : Packet} {hash : Arr 16}
    {t : Option (Arr 16)} {h : Nat} {rs rs' rs'' : List Relay} {f : Bytes} (hp : AnnouncedBy identity d p)
    (hrs : ∀ r ∈ rs, r.Ready ∧ r.node.Unaware d p ∧ r.node.seenPackets[hash]? = none) (hne : hash ≠ p.packetHash)
    (hq : OnItsWay p t h q) (hlen : h + rs.length ≤ 128) (hpass : Lts.Pass Relay.Passes rs q.encode rs' f)
    (hlater : List.Forall₂ (Relay.Keeps d hash) rs' rs'') :
    KnownAlong d identity.public hash t h rs'' ∧
      ∃ q', f = q'.encode ∧ OnItsWay p (lastId t rs'') (h + rs.length) q' := by
  generalize hb : q.encode = b at hpass
  induction hpass generalizing q t h rs'' with
  | nil =>
    subst hb
    cases hlater
    exact ⟨trivial, q, rfl, hq⟩
  | @cons r r' rs rs' b c f hstep hpass ih =>
    subst hb
    cases hlater with | @cons _ r'' _ rs'' hl hls
    obtain ⟨hr, hn, hunseen⟩ := hrs r List.mem_cons_self
    rw [List.length_cons] at hlen
    obtain ⟨hear, q', rfl, hq'⟩ := hstep.announce hS hp hn hq (by omega)
    have hr' : r' = { r with node := r'.node } := by
      rw [hstep.after]
      rfl
    have hid : r''.node.identity = r.node.identity := hl.stays.identity.trans hear.identity
    obtain ⟨hknown, q'', rfl, hq''⟩ := ih (fun s hs => hrs s (List.mem_cons_of_mem r hs)) hq' (by omega) hls rfl
    refine ⟨⟨hear.knows hr hn.foreign hunseen hne (hr' ▸ hl), ?_⟩, q'', rfl, ?_⟩
    · rw [hid]
      exact hknown
    · rw [lastId, hid, List.length_cons, Nat.add_comm rs.length 1, ← Nat.add_assoc]
      exact hq''

end

end Reticulum
