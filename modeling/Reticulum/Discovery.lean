import Reticulum.Agreement
import Reticulum.Carrying
import Reticulum.Chain

/-!
# Path discovery

A path request in either layout, the answer of a node that knows the way, and
what the asking node learns from it.
-/

namespace Reticulum

open Node

section
variable [Crypto]

theorem Announce.key_of_verify {a : Announce} {d : Arr 16} (h : a.verify d = .ok ()) :
    ∃ pub, PublicIdentity.fromBytes a.pub.1 = .ok pub := by
  unfold Announce.verify at h
  cases hkey : PublicIdentity.fromBytes a.pub.1 with
  | ok pub => exact ⟨pub, rfl⟩
  | error e =>
    rw [hkey] at h
    cases h

namespace Node

/-- What a node can tell of a destination: its own that it has announced, or one that it has a live path to. -/
inductive Offers (n : Node) (t : Arr 16) : Prop
  | own (local_ : n.locals.any (·.destHash = t) = true) (announced : n.cachedAnnounces[t]? ≠ none)
  | routed {e : PathEntry} (transport : n.transportEnabled = true) (path : n.paths.get t = some e)
    (live : n.nowSecs < e.expiresAt) (hops : e.hops < PATHFINDER_MAX_HOPS)

/-- The hops that the node gives in its answer. -/
def offeredHops (n : Node) (t : Arr 16) : UInt8 :=
  if n.locals.any (·.destHash = t) then 0 else ((n.paths.get t).map (·.hops)).getD 0

/-- The next hop that the node gives in its answer. -/
def offeredVia (n : Node) (t : Arr 16) : Option (Arr 16) :=
  if n.locals.any (·.destHash = t) then none else some n.identity.hash

/-- The request that `request_path` broadcasts. -/
def requestFor (n : Node) (t : Arr 16) (rng : Entropy) : Packet :=
  Packet.pathRequest t (if n.transportEnabled then some n.identity.hash else none) (rng.fill 16).1

/-- Neither the packet nor its tag has come before. -/
structure Fresh (n : Node) (t : Arr 16) (p : Packet) (tag : Arr 16) : Prop where
  packet : n.seenPackets[p.packetHash]? = none
  tag : n.seenPathRequests[(t, tag)]? = none

/-- A node that looks for the destination and has not seen the announce in the answer. -/
structure Seeks (n : Node) (t : Arr 16) (answer : Bytes) : Prop where
  foreign : n.locals.any (·.destHash = t) = false
  pathless : ∀ e, n.paths.get t = some e → e.expiresAt ≤ n.nowSecs
  unseen : ∀ p, Packet.decode answer = .ok p → n.seenPackets[p.packetHash]? = none
  unheard : ∀ p a, Packet.decode answer = .ok p → Announce.parse p.data p.contextFlag = .ok a →
    n.seenAnnounces[(t, a.randomHash)]? = none

/-- The node takes a path over so many hops by way of the next hop and the interface, and says nothing. -/
structure Learns (n : Node) (t : Arr 16) (i : UInt16) (hops : UInt8) (via : Option (Arr 16)) (n' : Node) : Prop where
  path : ∃ e, n'.paths.get t = some e ∧ e.hops = hops ∧ e.nextHopTransportId = via ∧ e.interface = i
  silent : n.enqueued n' = []

variable {n : Node} {t : Arr 16}

/-! ## The request -/

theorem parsePathRequest_pathRequest (t : Arr 16) (requester : Option (Arr 16)) (tag : Arr 16) :
    parsePathRequest (Packet.pathRequest t requester tag).data = some (t, requester, tag) := by
  have hnil : ([] : Bytes).length = 0 := rfl
  cases requester with
  | none =>
    have h1 := Arr.slice?_append hnil t tag.1
    have h2 := Arr.slice?_append t.2 tag []
    simp only [List.nil_append, List.append_nil] at h1 h2
    simp [parsePathRequest, Packet.pathRequest, t.2, tag.2, h1, h2]
  | some r =>
    have h32 : (t.1 ++ r.1).length = 32 := by simp [t.2, r.2]
    have h1 := Arr.slice?_append hnil t (r.1 ++ tag.1)
    have h2 := Arr.slice?_append t.2 r tag.1
    have h3 := Arr.slice?_append h32 tag []
    simp only [List.nil_append, List.append_nil, List.append_assoc] at h1 h2 h3
    simp [parsePathRequest, Packet.pathRequest, t.2, r.2, tag.2, h1, h2, h3]

theorem wellFormed_pathRequest (t : Arr 16) (requester : Option (Arr 16)) (tag : Arr 16) :
    (Packet.pathRequest t requester tag).WellFormed :=
  ⟨(by decide : HEADER_1 < 2), (by decide : DATA < 4), (by decide : PLAIN < 4), (by decide : BROADCAST < 2),
    Packet.pathRequestDestinationHash.2, by simp [Packet.pathRequest]; decide⟩

theorem enqueued_requestPath {rng : Entropy} {s : UInt16 × Bytes} (h : s ∈ n.enqueued (n.requestPath t rng)) :
    s.2 = (n.requestFor t rng).encode := by
  unfold requestPath at h
  dsimp only at h
  rw [pushAll_eq_emit, enqueued_emit (by rfl), List.map_map, List.mem_map] at h
  obtain ⟨i, -, rfl⟩ := h
  rfl

/-! ## The answer -/

/-- What the answer says of the way. -/
theorem Offers.answerFor_way (ho : n.Offers t) (cached : Packet) :
    (n.answerFor t cached).context = PATH_RESPONSE ∧ (n.answerFor t cached).hops = n.offeredHops t ∧
      (if (n.answerFor t cached).headerType = HEADER_2 then (n.answerFor t cached).transportId else none) = n.offeredVia t := by
  unfold answerFor pathResponse offeredHops offeredVia
  dsimp only
  cases hl : n.locals.any (·.destHash = t) with
  | true => exact ⟨rfl, rfl, if_neg (show ¬ HEADER_1 = HEADER_2 by decide)⟩
  | false =>
    cases ho with
    | own hown => exact absurd (hl.symm.trans hown) (by decide)
    | routed _ hpath =>
      rw [hpath]
      exact ⟨rfl, rfl, if_pos rfl⟩

omit [Crypto] in
theorem Offers.offeredHops_lt (ho : n.Offers t) : n.offeredHops t < PATHFINDER_MAX_HOPS := by
  unfold offeredHops
  cases hl : n.locals.any (·.destHash = t) with
  | true => exact (by decide : (0 : UInt8) < PATHFINDER_MAX_HOPS)
  | false =>
    cases ho with
    | own hown => exact absurd (hl.symm.trans hown) (by decide)
    | routed _ hpath _ hhops =>
      rw [hpath]
      exact hhops

/-- A node that can tell of the destination keeps a valid announce of it. -/
theorem Offers.cached (ho : n.Offers t) (ha : n.Agrees) :
    ∃ p a, n.cachedAnnounces[t]? = some p ∧ p.WellFormed ∧ p.Announces t a := by
  obtain ⟨p, hp⟩ : ∃ p, n.cachedAnnounces[t]? = some p := by
    cases ho with
    | own _ hsome => exact Option.ne_none_iff_exists'.mp hsome
    | routed _ hpath => exact ha.kept _ _ hpath
  obtain ⟨hw, a, hann⟩ := ha.valid t p hp
  exact ⟨p, a, hp, hw, hann⟩

omit [Crypto] in
theorem maybePrune_seenPathRequests {tag : Arr 16} (now : Nat) (h : n.seenPathRequests[(t, tag)]? = none) :
    (n.maybePrune now).seenPathRequests[(t, tag)]? = none := by
  unfold maybePrune
  split
  · exact h
  · show (Dedup.sweep now n.seenPathRequests)[(t, tag)]? = none
    rw [Dedup.getElem?_sweep, h]
    rfl

omit [Crypto] in
theorem maybePrune_unheard {k : Arr 16 × Arr 10} (h : n.seenAnnounces[k]? = none) :
    (n.maybePrune n.nowSecs).seenAnnounces[k]? = none := by
  rcases n.maybePrune_seenAnnounces n.nowSecs with hs | hs
  · rwa [hs]
  · rw [hs, Dedup.getElem?_sweep, h]
    rfl

variable [Rmp] [Bzip2]

theorem Offers.answers (ho : n.Offers t) {cached : Packet} (hcached : n.cachedAnnounces[t]? = some cached) {asker : Node}
    {rng : Entropy} (hf : n.Fresh t (asker.requestFor t rng) (rng.fill 16).1)
    (haway : ∀ e, n.paths.get t = some e → e.nextHopTransportId ≠ some asker.identity.hash) (j : UInt16) (r : Option Entropy) :
    n.enqueued (n.handleInboundInner (asker.requestFor t rng).encode j r).1 = [(j, (n.answerFor t cached).encode)] := by
  let p := asker.requestFor t rng
  have hadm : n.Admits p.encode p Packet.pathRequestDestinationHash := by
    refine ⟨Packet.decode_encode (wellFormed_pathRequest _ _ _), (by decide : (0 : UInt8) < PATHFINDER_MAX_HOPS), ?_, rfl⟩
    rw [Std.ExtTreeMap.contains_eq_isSome_getElem?, maybePrune_unseen hf.packet]
    rfl
  have hans : (n.admitted p).Answers (received p) t cached := by
    refine ⟨⟨_, _, parsePathRequest_pathRequest _ _ _, ?_, ?_⟩, ?_, by simpa using hcached⟩
    · rw [Std.ExtTreeMap.contains_eq_isSome_getElem?, admitted_seenPathRequests, maybePrune_seenPathRequests _ hf.tag]
      rfl
    · rintro ⟨hsome, hany⟩
      rw [Option.any_eq_true] at hany
      obtain ⟨e, he, hnext⟩ := hany
      have he : n.paths.get t = some e := by simpa using he
      cases ht : asker.transportEnabled with
      | false => simp [ht] at hsome
      | true => exact haway e he (by simpa [ht] using hnext)
    · cases ho with
      | own hown => exact .inl (by simpa using hown)
      | routed htr hpath => exact .inr ⟨by simpa using htr, by simp [hpath]⟩
  have hsame : (n.admitted p).answerFor t cached = n.answerFor t cached := by simp [answerFor, pathResponse]
  have hpath : (n.admitted p).dispatch (received p) Packet.pathRequestDestinationHash j r =
      ((n.admitted p).handlePathRequest (received p) j, []) := if_pos ⟨rfl, rfl, rfl⟩
  rw [handleInboundInner_of_admits hadm, hpath, hans.handlePathRequest_eq, hsame]
  exact enqueued_emit (by simp) _

theorem Seeks.learns {answer : Packet} {a : Announce} (hs : n.Seeks t answer.encode) (hw : answer.WellFormed)
    (hann : answer.Announces t a) (hcontext : answer.context = PATH_RESPONSE) (hhops : answer.hops < PATHFINDER_MAX_HOPS)
    (i : UInt16) (r : Option Entropy) :
    n.Learns t i (answer.hops + 1) (if answer.headerType = HEADER_2 then answer.transportId else none)
      (n.handleInboundInner answer.encode i r).1 := by
  have hdec := Packet.decode_encode hw
  have hadm : n.Admits answer.encode answer t := by
    refine ⟨hdec, hhops, ?_, hann.destHash⟩
    rw [Std.ExtTreeMap.contains_eq_isSome_getElem?, maybePrune_unseen (hs.unseen answer hdec)]
    rfl
  have hnew : (n.admitted answer).Announces (received answer) t a := by
    refine ⟨by simpa using hs.foreign, hann.parsed, hann.verified, ?_⟩
    rw [Std.ExtTreeMap.contains_eq_isSome_getElem?, admitted_seenAnnounces,
      maybePrune_unheard (hs.unheard answer a hdec hann.parsed)]
    rfl
  obtain ⟨pub, hpub⟩ := Announce.key_of_verify hann.verified
  have hpref : ((n.admitted answer).paths.update t (announcedEntry (received answer) a pub i (n.admitted answer).nowSecs)
      (n.admitted answer).nowSecs).2 = true := by
    refine PathTable.update_accepts_iff.mpr fun e he hlive => ?_
    rw [nowSecs_admitted] at hlive
    exact absurd (hs.pathless e (by simpa using he)) (Nat.not_le.mpr hlive)
  have hquiet : (n.admitted answer).rebroadcastCopies (received answer) i = [] :=
    if_neg fun h => h.2.2 hcontext
  rw [handleInboundInner_of_admits hadm, dispatch_announce (p := received answer) hann.kind, hnew.handleAnnounce_eq hpub,
    if_pos hpref, hquiet]
  refine ⟨⟨_, learned_get .., rfl, rfl, rfl⟩, ?_⟩
  exact enqueued_emit (by simp) _

end Node

variable [Rmp] [Bzip2]

open Node in
/-- A fresh path request to a node that can tell brings one answer, on the interface it came by, and with it a path. -/
theorem path_discovered (hS : Crypto.SignVerifies) {identity : Identity} {clock : UInt64} {tr : List Label} {b : Node}
    (hrun : Lts.Run NodeStep (withClock identity clock) tr b) {t : Arr 16} (ho : b.Offers t) {a : Node} {rng : Entropy}
    {k : UInt16} {f : Bytes} (hf : (k, f) ∈ a.enqueued (a.requestPath t rng))
    (hfresh : b.Fresh t (a.requestFor t rng) (rng.fill 16).1)
    (haway : ∀ e, b.paths.get t = some e → e.nextHopTransportId ≠ some a.identity.hash) (j : UInt16) (r : Option Entropy) :
    ∃ answer, b.enqueued (b.handleInboundInner f j r).1 = [(j, answer)] ∧
      ∀ (now : UInt64) (i : UInt16) (r' : Option Entropy), ({ a.requestPath t rng with clock := now } : Node).Seeks t answer →
        ({ a.requestPath t rng with clock := now } : Node).Learns t i (b.offeredHops t + 1) (b.offeredVia t)
          (({ a.requestPath t rng with clock := now } : Node).handleInboundInner answer i r').1 := by
  have ha := agrees_of_run hS hrun
  obtain ⟨cached, an, hcached, hw, hann⟩ := ho.cached ha
  have hframe : f = (a.requestFor t rng).encode := enqueued_requestPath hf
  subst hframe
  obtain ⟨hcontext, hhops, hvia⟩ := ho.answerFor_way cached
  refine ⟨_, ho.answers hcached hfresh haway j r, fun now i r' hs => ?_⟩
  have hlearns := hs.learns (pathResponse_wellFormed b hw _ _) (pathResponse_announces hann _ _) hcontext
    (by rw [hhops]; exact ho.offeredHops_lt) i r'
  rwa [hhops, hvia] at hlearns

end

/-! ## A stranger asks a relay -/

section
open Sample Node

/-- A node on one interface that knows nothing. -/
def stranger : Node := (withClock (identity 7) 100).registerInterface 0

theorem offers_street : streetRelay.Offers streetDest := by
  have hpath : (streetRelay.paths.get streetDest).isSome = true := by decide +kernel
  obtain ⟨e, he⟩ := Option.isSome_iff_exists.mp hpath
  have hgood : (streetRelay.paths.get streetDest).all
      (fun e => decide (streetRelay.nowSecs < e.expiresAt ∧ e.hops < PATHFINDER_MAX_HOPS)) = true := by decide +kernel
  rw [he, Option.all_some, decide_eq_true_eq] at hgood
  exact .routed (by decide +kernel) he hgood.1 hgood.2

/-- The stranger learns the way over the relay. -/
theorem path_discovered_street : ∃ answer,
    streetRelay.enqueued (streetRelay.handleInboundInner (stranger.requestFor streetDest (entropy 1)).encode 1 none).1 =
      [(1, answer)] ∧
      ({ stranger.requestPath streetDest (entropy 1) with clock := 101 } : Node).Learns streetDest 0
        (streetRelay.offeredHops streetDest + 1) (streetRelay.offeredVia streetDest)
        (({ stranger.requestPath streetDest (entropy 1) with clock := 101 } : Node).handleInboundInner answer 0 none).1 := by
  let relay := (withClock (identity 5) 100).enableTransport true
  have h₁ : NodeStep (withClock (identity 5) 100) (.enableTransport true, {}) relay := rfl
  have hrun : Lts.Run NodeStep (withClock (identity 5) 100) _ streetRelay :=
    .cons h₁ (.single (relay.step_handleInbound streetAnnounce.encode 0))
  have hf : ((0 : UInt16), (stranger.requestFor streetDest (entropy 1)).encode) ∈
      stranger.enqueued (stranger.requestPath streetDest (entropy 1)) := by decide +kernel
  have hfresh : streetRelay.Fresh streetDest (stranger.requestFor streetDest (entropy 1)) ((entropy 1).fill 16).1 :=
    ⟨by decide +kernel, by decide +kernel⟩
  have haway : ∀ e, streetRelay.paths.get streetDest = some e → e.nextHopTransportId ≠ some stranger.identity.hash := by
    intro e he hnext
    have hnone : (streetRelay.paths.get streetDest).all (fun e => decide (e.nextHopTransportId = none)) = true := by decide +kernel
    rw [he, Option.all_some, decide_eq_true_eq] at hnone
    cases hnone.symm.trans hnext
  obtain ⟨answer, hanswer, hlearns⟩ := path_discovered signVerifies hrun offers_street hf hfresh haway 1 none
  have hmaps : stranger.seenPackets = ∅ ∧ stranger.seenAnnounces = ∅ ∧ stranger.paths = PathTable.new := ⟨rfl, rfl, rfl⟩
  refine ⟨answer, hanswer, hlearns 101 0 none ⟨rfl, ?_, ?_, ?_⟩⟩
  · intro e he
    have he : stranger.paths.get streetDest = some e := he
    rw [hmaps.2.2, PathTable.get_new] at he
    cases he
  · intro p _
    show stranger.seenPackets[p.packetHash]? = none
    rw [hmaps.1]
    simp
  · intro p a _ _
    show stranger.seenAnnounces[(streetDest, a.randomHash)]? = none
    rw [hmaps.2.1]
    simp

end

end Reticulum
