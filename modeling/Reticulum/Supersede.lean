import Reticulum.Binding
import Reticulum.Carrying

/-!
# A later announce of the same destination

Between announces of equal hop count a node prefers the later emission time.
The receiver reads that time in the random hash, where the sender has put ten
random bytes.
-/

namespace Reticulum

open Node

section
variable [Crypto]

/-- A packet on its way through relays: they change the header only. -/
structure CarriedAs (p q : Packet) : Prop where
  packetType : q.packetType = p.packetType
  destHash : q.destHash = p.destHash
  contextFlag : q.contextFlag = p.contextFlag
  data : q.data = p.data

variable [Rmp] [Bzip2]

/-- A step that brings no announce of `d`. -/
def OtherThan (d : Arr 16) (l : Label) : Prop :=
  ∀ b i rng p, l.1.inbound? = some (b, i, rng) → Packet.decode b = .ok p → p.packetType = ANNOUNCE → p.destHash ≠ d.1

/-- A node that has taken up the announce `q` of `d`, heard on the interface `i`, and no other of `d` since. -/
inductive Heard (d : Arr 16) (q : Packet) (i : UInt16) (n : Node) : Prop
  | since {identity : Identity} {clock : UInt64} {tr tr' : List Label} {r r' : Node} {l : Label} {b : Bytes}
    {rng : Option Entropy} : Lts.Run NodeStep (withClock identity clock) tr r → NodeStep r l r' →
    l.1.inbound? = some (b, i, rng) → Packet.decode b = .ok q → .announce d (received q).hops ∈ l.2.events →
    Lts.Run (fun n l n' => OtherThan d l ∧ NodeStep n l n') r' tr' n → Heard d q i n

/-- The path of an announce just taken up. -/
theorem path_of_announced {r r' : Node} {l : Label} {b : Bytes} {i : UInt16} {rng : Option Entropy} {q : Packet}
    {d : Arr 16} (hq : q.packetType = ANNOUNCE) (hst : NodeStep r l r') (hop : l.1.inbound? = some (b, i, rng))
    (hdec : Packet.decode b = .ok q) (hev : .announce d (received q).hops ∈ l.2.events) :
    ∃ a pub, Announce.parse q.data q.contextFlag = .ok a ∧
      r'.paths.get d = some (announcedEntry (received q) a pub i r.nowSecs) := by
  have h := hst.inbound hop
  have hc := r.admission_cases b
  unfold handleInboundInner at h
  generalize r.admission b = x at hc h
  cases hc with
  | malformed | duplicate =>
    rw [← (Prod.mk.inj h).2] at hev
    cases hev
  | @admitted p d' ha =>
    cases ha.decoded.symm.trans hdec
    dsimp only at h
    rw [dispatch_announce (p := received q) hq] at h
    have hcase := handleAnnounce_cases (r.admitted q) (received q) d' i
    rw [h] at hcase
    generalize hout : (r', l.2.events) = out at hcase
    cases hcase with
    | ignored =>
      rw [(Prod.mk.inj hout).2] at hev
      cases hev
    | badSignature =>
      rw [(Prod.mk.inj hout).2] at hev
      cases List.mem_singleton.mp hev
    | notBetter =>
      rw [(Prod.mk.inj hout).2] at hev
      cases hev
    | @accepted a pub hann hpub hu =>
      obtain ⟨rfl, he⟩ := Prod.mk.inj hout
      rw [he] at hev
      obtain ⟨rfl, -⟩ := Event.announce.inj (List.mem_singleton.mp hev)
      refine ⟨a, pub, hann.parsed, ?_⟩
      rw [learned_get, nowSecs_admitted]

/-- As long as nothing else of the destination is heard, its path is the one of the announce, or gone. -/
theorem Heard.path {d : Arr 16} {q : Packet} {i : UInt16} {n : Node} (hq : q.packetType = ANNOUNCE) (h : Heard d q i n) :
    ∃ a pub now, Announce.parse q.data q.contextFlag = .ok a ∧
      ∀ e, n.paths.get d = some e → e = announcedEntry (received q) a pub i now := by
  obtain @⟨_, _, _, _, r, r', l, b, rng, -, hst, hop, hdec, hev, hrun⟩ := h
  obtain ⟨a, pub, hparse, hpath⟩ := path_of_announced hq hst hop hdec hev
  refine ⟨a, pub, r.nowSecs, hparse, ?_⟩
  refine hrun.preserve (I := fun n => ∀ e, n.paths.get d = some e → e = announcedEntry (received q) a pub i r.nowSecs)
    ?_ ?_
  · rintro t l u hold ⟨hother, hst⟩ e he
    rcases hst.path he with he | ⟨b, i, rng, p, a, hop, htake, -⟩
    · exact hold e he
    · exact absurd htake.admits.dest (hother b i rng p hop htake.admits.decoded htake.kind)
  · intro e he
    exact Option.some.inj (he.symm.trans hpath)

end

/-! ## Two announces, a hundred seconds apart -/

section
open Sample

def townDest : Arr 16 := ((withClock (identity 3) 100).registerSingleDestination "town" []).2

/-- The announcing node at a time. -/
def townNode (now : UInt64) : Node :=
  { ((withClock (identity 3) 100).registerSingleDestination "town" []).1 with clock := now }

def townAnnounce (rng : Entropy) : Packet :=
  Packet.announce townDest (Announce.build (identity 3) townDest (nameHash "town" []) (rng.fill 10).1 []).toPayload

theorem townAnnounce_decodes (rng : Entropy) : Packet.decode (townAnnounce rng).encode = .ok (townAnnounce rng) :=
  Packet.decode_encode (Packet.wellFormed_announce _ _)

end

end Reticulum
