import Reticulum.Binding
import Reticulum.Carrying
import Reticulum.Expiry
import Reticulum.Speech

/-!
# Advertised routes

An announce that a transport node passes on, or hands out as the answer to a
path request, tells the hearers to send their packets this way. Whether the
node then forwards them is decided elsewhere, by other conditions.
-/

namespace Reticulum

open Node

section
variable [Crypto]

namespace Node

/-- The step sends an announce of `d` on `i` with the node's own transport id. -/
def Advertises (n n' : Node) (i : UInt16) (d : Arr 16) : Prop :=
  ∃ f a, (i, f) ∈ n.enqueued n' ∧ Packet.decode f = .ok a ∧ a.packetType = ANNOUNCE ∧ a.destHash = d.1 ∧
    a.transportId = some n.identity.hash

/-- A packet for the destination `d` that names the relay to take it. -/
structure ForRelay (n : Node) (p : Packet) (d : Arr 16) : Prop where
  packetType : p.packetType = DATA
  offLink : p.destType ≠ LINK
  noRequest : ¬ (p.destType = PLAIN ∧ d = Packet.pathRequestDestinationHash)
  headerType : p.headerType = HEADER_2
  transportId : p.transportId = some n.identity.hash
  hops : p.hops < 127

variable [Rmp] [Bzip2]

/-- The node has a path for `d`, and until it expires every packet for `d` that comes on `i` and names this node is
forwarded along it, in one frame. -/
def Carries (n : Node) (d : Arr 16) (i : UInt16) : Prop :=
  ∃ path, n.paths.get d = some path ∧ ∀ (now : UInt64) (b : Bytes) (p : Packet) (rng : Option Entropy),
    now.toNat < path.expiresAt → ({ n with clock := now } : Node).Admits b p d → n.ForRelay p d →
    ∃ q, forwardPacket path (received p) = some q ∧
      ({ n with clock := now } : Node).enqueued (({ n with clock := now } : Node).handleInboundInner b i rng).1 =
        [(path.interface, q.encode)]

/-- A path that a packet can be readdressed along. -/
def Routable (e : PathEntry) : Prop := e.hops ≤ 1 ∨ e.nextHopTransportId.isSome = true

omit [Crypto] [Rmp] [Bzip2] in
theorem Routable.forwardPacket {e : PathEntry} (h : Routable e) (p : Packet) : ∃ q, forwardPacket e p = some q := by
  unfold Node.forwardPacket
  split
  · rename_i hhops
    rcases h with h | h
    · exact absurd hhops (UInt8.not_lt.mpr h)
    · obtain ⟨t, ht⟩ := Option.isSome_iff_exists.mp h
      rw [ht]
      exact ⟨_, rfl⟩
  · exact ⟨_, rfl⟩

/-- A routable path away from the interface carries what comes on it. -/
theorem carries_of_path {n : Node} {d : Arr 16} {i : UInt16} {path : PathEntry} (ht : n.transportEnabled = true)
    (hforeign : n.locals.any (·.destHash = d) = false) (hpath : n.paths.get d = some path) (haway : path.interface ≠ i)
    (hr : Routable path) : n.Carries d i := by
  refine ⟨path, hpath, fun now b p rng hlt ha hp => ?_⟩
  generalize hm : ({ n with clock := now } : Node) = m at ha
  have hnow : m.nowSecs = now.toNat := by rw [← hm]; rfl
  obtain ⟨q, hq⟩ := hr.forwardPacket (received p)
  refine ⟨q, hq, ?_⟩
  have helse : (m.admitted p).addressedElsewhere (received p) = false := by
    have hid : m.identity = n.identity ∧ m.transportEnabled = n.transportEnabled := by rw [← hm]; exact ⟨rfl, rfl⟩
    have htid : (received p).transportId = some n.identity.hash := hp.transportId
    simp [addressedElsewhere, hid, ht, htid]
  have hnone : (m.admitted p).locals.find? (·.destHash = d) = none := by
    have hl : m.locals = n.locals := by rw [← hm]
    rw [admitted_locals, (maybePrune_keeps m m.nowSecs).2.2.1, hl]
    simpa using hforeign
  have hroute : (m.admitted p).prunePaths.paths.get d = some path := by
    have hget : (m.admitted p).paths.get d = some path := by
      rw [show (m.admitted p).paths = m.paths by simp, ← hm]
      exact hpath
    exact PathTable.get_prune_of_lt hget (by rw [nowSecs_admitted, hnow]; exact hlt)
  have hhops : (received p).hops < PATHFINDER_MAX_HOPS := by
    have h127 : p.hops.toNat < 127 := by simpa [UInt8.lt_iff_toNat_lt] using hp.hops
    rw [UInt8.lt_iff_toNat_lt]
    simp only [received, UInt8.toNat_add, UInt8.toNat_one, PATHFINDER_MAX_HOPS]
    have h128 : (128 : UInt8).toNat = 128 := rfl
    omega
  have hfw : (m.admitted p).Forwards (received p) d i path q := ⟨hp.headerType, hhops, hroute, haway, hq⟩
  rw [handleInboundInner_of_admits ha, dispatch_data (p := received p) hp.packetType hp.offLink hp.noRequest,
    hfw.handleData_eq helse hnone]
  exact enqueued_emit (by simp) _

/-- The steps that keep every advertised route usable: no announce without a relay is taken up from further than one
hop, and no path request is answered on the interface the path itself goes out on. -/
structure KeepsRoutes (n : Node) (l : Label) : Prop where
  learns : ∀ b i rng p d a pub, l.1.inbound? = some (b, i, rng) → TakesUp n b i p d a pub →
    p.headerType = HEADER_2 ∨ p.hops = 0
  answers : ∀ b i rng p target cached e, l.1.inbound? = some (b, i, rng) →
    n.Admits b p Packet.pathRequestDestinationHash → p.packetType = DATA → p.destType = PLAIN →
    (n.admitted p).Answers (received p) target cached → n.locals.any (·.destHash = target) = false →
    n.paths.get target = some e → e.interface ≠ i

/-- Every path is routable, and every cached announce is one of the destination it is kept for. -/
structure RoutesOk (n : Node) : Prop where
  paths : ∀ d e, n.paths.get d = some e → Routable e
  cached : ∀ (t : Arr 16) (p : Packet), n.cachedAnnounces[t]? = some p →
    p.packetType = ANNOUNCE ∧ p.WellFormed ∧ p.destHash = t.1

omit [Crypto] [Rmp] [Bzip2] in
theorem routable_announcedEntry {p : Packet} (hw : p.WellFormed) (h : p.headerType = HEADER_2 ∨ p.hops = 0) (a : Announce)
    (pub : PublicIdentity) (i : UInt16) (now : Nat) : Routable (announcedEntry (received p) a pub i now) := by
  rcases h with h | h
  · right
    have hid : (received p).transportId.isSome = true := hw.transportId.mpr h
    have h2 : (received p).headerType = HEADER_2 := h
    simpa [announcedEntry, h2] using hid
  · left
    show p.hops + 1 ≤ 1
    rw [h]
    decide

theorem RoutesOk.step {n n' : Node} {l : Label} (hr : n.RoutesOk) (hk : n.KeepsRoutes l) (hst : NodeStep n l n') :
    n'.RoutesOk := by
  constructor
  · intro d e he
    rcases hst.path he with he | ⟨b, i, rng, p, a, hop, htake, heq⟩
    · exact hr.paths d e he
    · rw [heq]
      exact routable_announcedEntry (Packet.decode_wellFormed htake.admits.decoded)
        (hk.learns b i rng p d a e.pub hop htake) ..
  · intro t p hp
    rcases hst.cached hp with hp | hp
    · exact hr.cached t p hp
    · exact hp

/-- The two ways a frame comes to advertise a route. -/
inductive Advert (n : Node) (l : Label) (i : UInt16) (d : Arr 16) : Prop
  | passedOn {b : Bytes} {j : UInt16} {rng : Option Entropy} {p : Packet} {a : Announce} {pub : PublicIdentity} :
    l.1.inbound? = some (b, j, rng) → TakesUp n b j p d a pub → i ≠ j → Advert n l i d
  | answered {b : Bytes} {rng : Option Entropy} {p cached : Packet} {target : Arr 16} :
    l.1.inbound? = some (b, i, rng) → n.Admits b p Packet.pathRequestDestinationHash → p.packetType = DATA →
    p.destType = PLAIN → (n.admitted p).Answers (received p) target cached →
    ((n.admitted p).answerFor target cached).transportId = some n.identity.hash → cached.destHash = d.1 →
    Advert n l i d

omit [Rmp] [Bzip2] in
theorem answerFor_destHash (n : Node) (target : Arr 16) (cached : Packet) :
    (n.answerFor target cached).destHash = cached.destHash := by
  unfold answerFor pathResponse
  dsimp only
  split
  · rfl
  · split <;> rfl

omit [Rmp] [Bzip2] in
/-- An announce that carries a transport id was passed on or handed out. -/
theorem Speech.advert {n : Node} {l : Label} {s : UInt16 × Packet} {d : Arr 16} (h : n.Speech l s)
    (ht : s.2.packetType = ANNOUNCE) (hid : s.2.transportId = some n.identity.hash) (hd : s.2.destHash = d.1) :
    n.Advert l s.1 d := by
  cases h with
  | announce => cases hid
  | broadcast _ _ _ hk =>
    rw [hk] at ht
    exact absurd ht (by decide)
  | routed _ _ _ hk =>
    rw [ht] at hk
    exact absurd hk (by decide)
  | onLink => exact absurd ht (by decide : ¬ DATA = ANNOUNCE)
  | reply _ _ hk =>
    rw [hk] at ht
    exact absurd ht (by decide)
  | answer hop ha hk hp hans =>
    rw [answerFor_destHash] at hd
    exact .answered hop ha hk hp hans hid hd
  | forward _ _ hk hf =>
    have hsame := (forwardPacket_sameContent hf.forwarded).1.packetType
    rw [ht] at hsame
    exact absurd (hsame.trans hk) (by decide)
  | rebroadcast hop ha hk hann hpub hpref _ haway =>
    obtain rfl := Subtype.ext (ha.dest.symm.trans hd)
    exact .passedOn hop ⟨ha, hk, hann, hpub, hpref⟩ haway

/-- The path behind an advert, after the step: away from the interface of the advert. -/
theorem Advert.path {n n' : Node} {l : Label} {i : UInt16} {d : Arr 16} (h : n.Advert l i d) (hr : n.RoutesOk)
    (hk : n.KeepsRoutes l) (hst : NodeStep n l n') (hforeign : n.locals.any (·.destHash = d) = false) :
    n'.transportEnabled = n.transportEnabled ∧ n'.locals = n.locals ∧
      ∃ e, n'.paths.get d = some e ∧ e.interface ≠ i := by
  cases h with
  | @passedOn b j rng p a pub hop ht haway =>
    have hn' : (n.handleInboundInner b j rng).1 = n' := by rw [hst.inbound hop]
    rw [handleInboundInner_of_admits ht.admits, dispatch_announce (p := received p) ht.kind, ht.announces.handleAnnounce_eq ht.key] at hn'
    have hpref : ((n.admitted p).paths.update d (announcedEntry (received p) a pub j (n.admitted p).nowSecs)
        (n.admitted p).nowSecs).2 = true := by
      rw [nowSecs_admitted, show (n.admitted p).paths = n.paths by simp]
      exact ht.preferred
    rw [if_pos hpref] at hn'
    refine ⟨by simp [← hn'], by simp [← hn'], announcedEntry (received p) a pub j (n.admitted p).nowSecs, ?_, haway.symm⟩
    rw [← hn', learned_get]
  | @answered b rng p cached target hop ha ht hp hans hid hd =>
    have hc := hans.cached
    simp only [admitted_cachedAnnounces, maybePrune_keeps] at hc
    obtain rfl : target = d := Subtype.ext ((hr.cached _ _ hc).2.2.symm.trans hd)
    obtain ⟨-, hp'⟩ := hans.known.resolve_left (by rw [admitted_locals, (maybePrune_keeps n n.nowSecs).2.2.1, hforeign]; simp)
    obtain ⟨e, he⟩ := Option.ne_none_iff_exists'.mp hp'
    have hget : n.paths.get target = some e := by
      rw [← he]
      simp
    have haway := hk.answers b i rng p target cached e hop ha ht hp hans hforeign hget
    have hn' : (n.handleInboundInner b i rng).1 = n' := by rw [hst.inbound hop]
    have hpath : (n.admitted p).dispatch (received p) Packet.pathRequestDestinationHash i rng =
        ((n.admitted p).handlePathRequest (received p) i, []) := if_pos ⟨ht, hp, rfl⟩
    rw [handleInboundInner_of_admits ha, hpath, hans.handlePathRequest_eq] at hn'
    exact ⟨by simp [← hn'], by simp [← hn'], e, by rw [← hn']; exact he, haway⟩

omit [Crypto] [Rmp] [Bzip2] in
theorem RoutesOk.start (identity : Identity) (clock : UInt64) : (withClock identity clock).RoutesOk :=
  ⟨fun _ _ h => (nomatch h), fun _ _ h => (nomatch h)⟩

theorem RoutesOk.of_run {identity : Identity} {clock : UInt64} {tr : List Label} {n : Node}
    (h : Lts.Run (fun n l n' => n.KeepsRoutes l ∧ NodeStep n l n') (withClock identity clock) tr n) : n.RoutesOk :=
  h.preserve_of_labels (fun _ _ _ hr hk hst => hr.step hk hst) (.start identity clock)

end Node

variable [Rmp] [Bzip2]

open Node in
/-- In a run that keeps its routes, every route that a transport node advertises is carried from then on. -/
theorem advertised_route_carried {identity : Identity} {clock : UInt64} {tr : List Label} {n n' : Node} {l : Label}
    {i : UInt16} {d : Arr 16}
    (hrun : Lts.Run (fun n l n' => n.KeepsRoutes l ∧ NodeStep n l n') (withClock identity clock) tr n)
    (hk : n.KeepsRoutes l) (hst : NodeStep n l n') (ht : n.transportEnabled = true)
    (hforeign : n.locals.any (·.destHash = d) = false) (hadv : n.Advertises n' i d) : n'.Carries d i := by
  have hr : n.RoutesOk := .of_run hrun
  obtain ⟨f, a, hmem, hdec, hkind, hdest, hid⟩ := hadv
  obtain ⟨ps, hps, hspeech⟩ := hst.speaks
  rw [hps, List.mem_map] at hmem
  obtain ⟨s, hs, heq⟩ := hmem
  obtain ⟨rfl, rfl⟩ := Prod.mk.inj heq
  have hsp := hspeech s hs
  obtain rfl : s.2 = a := by simpa [Packet.decode_encode (hsp.wellFormed fun t p h => (hr.cached t p h).2.1)] using hdec
  obtain ⟨htr, hloc, e, he, haway⟩ := (hsp.advert hkind hid hdest).path hr hk hst hforeign
  exact carries_of_path (htr.trans ht) (by rw [hloc]; exact hforeign) he haway ((hr.step hk hst).paths d e he)

end

/-! ## An answer where the announce came in, and an announce passed on -/

section
open Sample Node

/-- A packet for the destination, by way of the relay. -/
def streetData : Packet :=
  { Packet.dataSingle streetDest [] with
    headerType := HEADER_2, propagation := TRANSPORT, transportId := some (identity 5).hash }

theorem streetData_decodes : Packet.decode streetData.encode = .ok streetData := by
  have h : (Packet.dataSingle streetDest []).WellFormed := Packet.wellFormed_newHeader1 (by decide) (by decide) _ _ _
  exact Packet.decode_encode (h.toHeader2 _)

/-- The announce as the relay passes it on, or hands it out. -/
def streetCopy (context : UInt8) : Packet :=
  { streetAnnounce with
    context := context, headerType := HEADER_2, propagation := TRANSPORT, hops := 1, transportId := some (identity 5).hash }

theorem advertises_streetCopy {n n' : Node} {i : UInt16} (context : UInt8) (hn : n.identity = identity 5)
    (h : (i, (streetCopy context).encode) ∈ n.enqueued n') : n.Advertises n' i streetDest := by
  have hw : Packet.WellFormed { streetAnnounce with context := context } := by
    have h := Packet.wellFormed_announce streetDest streetAnnounce.data
    exact ⟨h.1, h.2, h.3, h.4, h.5, h.6⟩
  refine ⟨_, streetCopy context, h, Packet.decode_encode ((hw.toHeader2 _).withHops _), rfl, rfl, ?_⟩
  rw [hn]
  rfl

/-- A path request is answered where the announce came in, and the packet that follows is dropped. -/
theorem advertised_route_dropped : ¬ ∀ (identity : Identity) (clock : UInt64) (tr : List Label) (n n' : Node) (l : Label)
    (i : UInt16) (d : Arr 16), Lts.Run NodeStep (withClock identity clock) tr n → NodeStep n l n' →
    n.transportEnabled = true → n.locals.any (·.destHash = d) = false → n.Advertises n' i d → n'.Carries d i := by
  intro h
  let relay := (withClock (identity 5) 100).enableTransport true
  have h₁ : NodeStep (withClock (identity 5) 100) (.enableTransport true, {}) relay := rfl
  have hrun := Lts.Run.cons h₁ (.single (relay.step_handleInbound streetAnnounce.encode 0))
  have hst := streetRelay.step_handleInbound streetRequest.encode 0
  generalize hn' : (streetRelay.handleInbound streetRequest.encode 0).1 = answered at hst
  have hadv : streetRelay.Advertises answered 0 streetDest := by
    refine advertises_streetCopy PATH_RESPONSE (by decide +kernel) ?_
    rw [← hn']
    decide +kernel
  have hcarries := h _ _ _ _ _ _ 0 streetDest hrun hst (by decide +kernel) (by decide +kernel) hadv
  obtain ⟨path, hpath, hcarry⟩ := hcarries
  have hlate : (100 : UInt64).toNat < path.expiresAt := by
    have h : (answered.paths.get streetDest).all (100 < ·.expiresAt) = true := by
      rw [← hn']
      decide +kernel
    rw [hpath] at h
    simpa using h
  have hunseen : ((({ answered with clock := 100 } : Node).maybePrune 100).seenPackets.contains streetData.packetHash) = false := by
    rw [← hn']
    decide +kernel
  have hfor : answered.ForRelay streetData streetDest := by
    refine ⟨rfl, by decide, by decide, rfl, ?_, by decide⟩
    rw [← hn']
    decide +kernel
  obtain ⟨q, -, hq⟩ := hcarry 100 _ streetData none hlate ⟨streetData_decodes, by decide, hunseen, rfl⟩ hfor
  have hnone : ({ answered with clock := 100 } : Node).enqueued
      (({ answered with clock := 100 } : Node).handleInboundInner streetData.encode 0 none).1 = [] := by
    rw [← hn']
    decide +kernel
  rw [hnone] at hq
  cases hq

/-- A relay that passes the announce on. -/
def streetCorner : Node := ((withClock (identity 5) 100).enableTransport true).registerInterface 1

theorem advertised_route_carried_street :
    (streetCorner.handleInbound streetAnnounce.encode 0).1.Carries streetDest 1 := by
  have hkeep {n : Node} {l : Label} (h : l.1.inbound? = none) : n.KeepsRoutes l := by
    constructor <;> intro b i rng <;> rw [h] <;> intros <;> contradiction
  have hrun : Lts.Run (fun n l n' => n.KeepsRoutes l ∧ NodeStep n l n') (withClock (identity 5) 100)
      [(.enableTransport true, {}), (.registerInterface 1, {})] streetCorner :=
    .cons ⟨hkeep rfl, rfl⟩ (.single ⟨hkeep rfl, rfl⟩)
  have hdec : Packet.decode streetAnnounce.encode = .ok streetAnnounce :=
    Packet.decode_encode (Packet.wellFormed_announce _ _)
  have hkeeps : streetCorner.KeepsRoutes
      (.handleInbound streetAnnounce.encode 0, { events := (streetCorner.handleInbound streetAnnounce.encode 0).2 }) := by
    constructor
    · intro b i rng p d a pub hop ht
      cases hop
      cases hdec.symm.trans ht.admits.decoded
      exact .inr rfl
    · intro b i rng p target cached e hop ha ht
      cases hop
      cases hdec.symm.trans ha.decoded
      exact absurd ht (by decide)
  refine advertised_route_carried hrun hkeeps (streetCorner.step_handleInbound _ 0) rfl ?_ ?_
  · decide +kernel
  · exact advertises_streetCopy 0 rfl (by decide +kernel)

end

end Reticulum
