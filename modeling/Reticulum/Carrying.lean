import Reticulum.InboundCases

/-!
# What a node does with a packet that meets the conditions

The other direction of the case lemmas: an equation for each way a packet of
another node is taken up, passed on or delivered.
-/

namespace Reticulum

theorem PathTable.update_accepts_iff {t : PathTable} {d : Arr 16} {e : PathEntry} {now : Nat} :
    (t.update d e now).2 = true ↔ ∀ current, t.get d = some current → now < current.expiresAt →
      e.hops < current.hops ∨ (e.hops = current.hops ∧ current.timestamp < e.timestamp) := by
  unfold update
  dsimp only
  cases t.get d with
  | none => simp
  | some current =>
    dsimp only
    constructor
    · intro h c hc hlive
      cases hc
      rw [if_neg (Nat.not_le.mpr hlive)] at h
      split at h
      · exact .inl ‹_›
      · exact .inr (by simpa using h)
    · intro h
      split
      · rfl
      · rename_i hlive
        rcases h current rfl (Nat.lt_of_not_le hlive) with hlt | heq
        · rw [if_pos hlt]
        · split
          · rfl
          · simpa using heq

theorem PathTable.update_of_accepts {t : PathTable} {d : Arr 16} {e : PathEntry} {now : Nat}
    (h : (t.update d e now).2 = true) : t.update d e now = (⟨t.entries.insert d e⟩, true) := by
  rcases t.update_cases d e now with hu | hu
  · rw [hu] at h
    cases h
  · exact hu

namespace Node

variable [Crypto] {n : Node} {p : Packet} {d : Arr 16} {i : UInt16}

theorem dispatch_announce [Rmp] [Bzip2] (ht : p.packetType = ANNOUNCE) (rng : Option Entropy) :
    n.dispatch p d i rng = n.handleAnnounce p d i := by
  have hkinds : ANNOUNCE ≠ DATA ∧ ANNOUNCE ≠ LINKREQUEST ∧ ANNOUNCE ≠ PROOF := by decide
  unfold dispatch
  simp only [ht, hkinds, false_and, if_false, if_true]

theorem dispatch_data [Rmp] [Bzip2] (ht : p.packetType = DATA) (hlink : p.destType ≠ LINK)
    (hpath : ¬ (p.destType = PLAIN ∧ d = Packet.pathRequestDestinationHash)) (rng : Option Entropy) :
    n.dispatch p d i rng = n.handleData p d i := by
  have hkinds : DATA ≠ LINKREQUEST ∧ DATA ≠ PROOF ∧ DATA ≠ ANNOUNCE := by decide
  unfold dispatch
  simp only [ht, hkinds, hlink, hpath, false_and, and_false, if_false, if_true]

theorem dispatch_linkData [Rmp] [Bzip2] (ht : p.packetType = DATA) (hlink : p.destType = LINK) (rng : Option Entropy) :
    n.dispatch p d i rng = n.handleLinkData p d i rng := by
  have hkinds : DATA ≠ LINKREQUEST ∧ DATA ≠ PROOF ∧ LINK ≠ PLAIN := by decide
  unfold dispatch
  simp only [ht, hlink, hkinds, and_self, false_and, and_false, if_false, if_true]

theorem handleInboundInner_of_admits [Rmp] [Bzip2] {b : Bytes} (ha : n.Admits b p d) (rng : Option Entropy) :
    n.handleInboundInner b i rng = (n.admitted p).dispatch (received p) d i rng := by
  rw [handleInboundInner, ha.admission_eq]

/-- A new announce is taken up, or noted as not better than the path there is. -/
theorem Announces.handleAnnounce_eq {a : Announce} {pub : PublicIdentity} (h : n.Announces p d a)
    (hpub : PublicIdentity.fromBytes a.pub.1 = .ok pub) (i : UInt16) :
    n.handleAnnounce p d i =
      if (n.paths.update d (announcedEntry p a pub i n.nowSecs) n.nowSecs).2 = true then
        ((n.learned p d a pub i).emit (n.rebroadcastCopies p i), [.announce d p.hops])
      else (n.noted d a, []) := by
  unfold handleAnnounce
  simp only [h.foreign, h.parsed, h.verified, h.unseen, hpub, Bool.false_eq_true, if_false]
  cases hu : (n.paths.update d (announcedEntry p a pub i n.nowSecs) n.nowSecs).2 with
  | false =>
    rw [if_neg Bool.false_ne_true]
    rfl
  | true =>
    rw [PathTable.update_of_accepts hu, if_pos rfl, rebroadcastCopies]
    by_cases hr : n.rebroadcasts p
    · rw [if_pos hr]
      have hr : n.transportEnabled = true ∧ p.hops < PATHFINDER_MAX_HOPS ∧ p.context ≠ PATH_RESPONSE := hr
      simp only [Bool.true_eq_false, if_false]
      rw [if_pos hr, pushAll_eq_emit]
      rfl
    · rw [if_neg hr, emit_nil]
      have hr : ¬ (n.transportEnabled = true ∧ p.hops < PATHFINDER_MAX_HOPS ∧ p.context ≠ PATH_RESPONSE) := hr
      simp only [Bool.true_eq_false, if_false]
      rw [if_neg hr]
      rfl

omit [Crypto] in
theorem learned_get (n : Node) (p : Packet) (d : Arr 16) (a : Announce) (pub : PublicIdentity) (i : UInt16)
    (ps : List (UInt16 × Packet)) :
    ((n.learned p d a pub i).emit ps).paths.get d = some (announcedEntry p a pub i n.nowSecs) := by
  have h := PathTable.get_insert_entry n.paths d d (announcedEntry p a pub i n.nowSecs)
  rw [if_pos rfl] at h
  exact h

omit [Crypto] in
theorem Forwards.forwardData_eq {path : PathEntry} {q : Packet} (h : n.Forwards p d i path q) :
    n.forwardData p d i = n.prunePaths.emit [(path.interface, q)] := by
  unfold forwardData
  rw [if_pos ⟨h.header, h.hops⟩]
  have hroute : (n.prunePaths.paths.get d).filter (·.interface ≠ i) = some path := by
    rw [h.route, Option.filter_some, if_pos (by simpa using h.away)]
  simp only [hroute, h.forwarded]
  rfl

theorem Forwards.handleData_eq {path : PathEntry} {q : Packet} (h : n.Forwards p d i path q)
    (helse : n.addressedElsewhere p = false) (hnone : n.locals.find? (·.destHash = d) = none) :
    n.handleData p d i = (n.prunePaths.emit [(path.interface, q)], []) := by
  unfold handleData
  simp only [helse, hnone, Bool.false_eq_true, if_false, h.forwardData_eq]

end Node

end Reticulum
