import Reticulum.Memory
import Reticulum.Sample

/-!
# Expired paths

Expiry is lazy. Every reader of the path table sweeps it first, except the
handler of path requests. A step is compared with the same step of the node
whose expired paths are gone.
-/

namespace Reticulum

theorem PathTable.update_prune (t : PathTable) (d : Arr 16) (e : PathEntry) (now : Nat) :
    ((t.prune now).update d e now).2 = (t.update d e now).2 := by
  unfold update
  dsimp only
  rw [get_prune]
  cases t.get d with
  | none => rfl
  | some current =>
    by_cases h : current.expiresAt ≤ now
    · have hnot : ¬ now < current.expiresAt := Nat.not_lt.mpr h
      rw [Option.filter_some, if_neg (by simpa using hnot)]
      simp [h]
    · have hlt : now < current.expiresAt := Nat.lt_of_not_le h
      rw [Option.filter_some, if_pos (by simpa using hlt)]

namespace Node

variable (n : Node)

@[simp] theorem prunePaths_prunePaths : n.prunePaths.prunePaths = n.prunePaths := by
  have hget : n.prunePaths.paths.prune n.nowSecs = n.prunePaths.paths := by
    show PathTable.mk _ = PathTable.mk _
    congr 1
    ext d e : 2
    simp [PathTable.prune]
  show { n.prunePaths with paths := n.prunePaths.paths.prune n.nowSecs } = n.prunePaths
  rw [hget]

theorem prunePaths_eq_aside : n.prunePaths = n.aside n.memory (n.paths.prune n.nowSecs) := rfl

theorem enqueueDestinationPacket_pruned (p : Packet) (d : Arr 16) :
    n.prunePaths.enqueueDestinationPacket p d = n.enqueueDestinationPacket p d := by
  unfold enqueueDestinationPacket
  rw [prunePaths_prunePaths]

theorem forwardData_pruned (p : Packet) (d : Arr 16) (i : UInt16) :
    (n.prunePaths.forwardData p d i).outbound = (n.forwardData p d i).outbound := by
  unfold forwardData
  rw [prunePaths_prunePaths]
  split <;> rfl

variable [Crypto]

theorem sendSingleMessage_pruned (d : Arr 16) (pt : Bytes) (rng : Entropy) (receipt : Bool) :
    n.prunePaths.sendSingleMessage d pt rng receipt = n.sendSingleMessage d pt rng receipt := by
  unfold sendSingleMessage
  rw [prunePaths_prunePaths]

theorem sendMessage_pruned (d : Arr 16) (pt : Bytes) (rng : Entropy) :
    n.prunePaths.sendMessage d pt rng = n.sendMessage d pt rng := by
  unfold sendMessage
  rw [sendSingleMessage_pruned]

theorem sendMessageWithReceipt_pruned (d : Arr 16) (pt : Bytes) (rng : Entropy) :
    n.prunePaths.sendMessageWithReceipt d pt rng = n.sendMessageWithReceipt d pt rng := by
  unfold sendMessageWithReceipt
  rw [sendSingleMessage_pruned]

theorem establishLink_pruned (d : Arr 16) (rng : Entropy) :
    n.prunePaths.establishLink d rng = n.establishLink d rng := by
  unfold establishLink
  rw [prunePaths_prunePaths]

theorem sendGroupMessage_pruned (d : Arr 16) (pt : Bytes) (rng : Entropy) :
    (n.prunePaths.sendGroupMessage d pt rng).1.outbound = (n.sendGroupMessage d pt rng).1.outbound := by
  have hkey : n.prunePaths.groupKey d = n.groupKey d := rfl
  unfold sendGroupMessage
  rw [hkey]
  split
  · rfl
  · exact congrArg (fun out => out.1.outbound) (enqueueDestinationPacket_pruned n _ d)

omit [Crypto] in
theorem Blind.outbound_pruned {α : Type} {f : Node → Node × α} (h : Blind f) :
    (f n.prunePaths).1.outbound = (f n).1.outbound := by
  rw [prunePaths_eq_aside, h]
  rfl

theorem handleAnnounce_pruned (p : Packet) (d : Arr 16) (i : UInt16) :
    (n.prunePaths.handleAnnounce p d i).1.outbound = (n.handleAnnounce p d i).1.outbound := by
  have hnow : n.prunePaths.nowSecs = n.nowSecs := rfl
  unfold handleAnnounce
  simp only [hnow, prunePaths_locals, prunePaths_seenAnnounces, prunePaths_paths, PathTable.update_prune]
  split
  · rfl
  · split
    · rfl
    · split
      · rfl
      · split
        · rfl
        · split
          · rfl
          · split
            · rfl
            · simp only [prunePaths_transportEnabled]
              split <;> rfl

theorem handleData_pruned (p : Packet) (d : Arr 16) (i : UInt16) :
    (n.prunePaths.handleData p d i).1.outbound = (n.handleData p d i).1.outbound := by
  have helse : n.prunePaths.addressedElsewhere p = n.addressedElsewhere p := rfl
  have hopen (kind : LocalDestinationKind) : n.prunePaths.openLocal kind p = n.openLocal kind p := rfl
  unfold handleData
  simp only [helse, prunePaths_locals, hopen]
  split
  · rfl
  · split
    · exact forwardData_pruned n p d i
    · split
      · rfl
      · rfl
      · split <;> rfl

/-! ## Path requests -/

/-- A path request that a node answers with an expired path. -/
structure AnswersExpired (p : Packet) (target : Arr 16) (cached : Packet) (e : PathEntry) : Prop where
  answers : n.Answers p target cached
  foreign : n.locals.any (·.destHash = target) = false
  path : n.paths.get target = some e
  expired : e.expiresAt ≤ n.nowSecs

variable {n}

theorem Answers.handlePathRequest_eq {p : Packet} {target : Arr 16} {cached : Packet} (h : n.Answers p target cached)
    (i : UInt16) : n.handlePathRequest p i =
      ({ n with seenPathRequests := n.pathRequestSeen p } : Node).emit [(i, n.answerFor target cached)] := by
  obtain ⟨requester, tag, hparse, hseen, hreq⟩ := h.parsed
  have hknown : ¬ (n.locals.any (·.destHash = target) = false ∧ (n.transportEnabled = false ∨ n.paths.get target = none)) := by
    rintro ⟨hl, ht⟩
    rcases h.known with hk | ⟨hk, hp⟩
    · rw [hl] at hk
      cases hk
    · rcases ht with ht | ht
      · rw [ht] at hk
        cases hk
      · exact hp ht
  unfold handlePathRequest pathRequestSeen
  simp only [hparse, hseen, Bool.false_eq_true, if_false]
  rw [if_neg hknown, if_neg hreq, h.cached]
  rfl

theorem enqueued_handlePathRequest (n : Node) (p : Packet) (i : UInt16) :
    n.enqueued (n.handlePathRequest p i) = [] ∨ ∃ target cached, n.Answers p target cached := by
  have h := n.handlePathRequest_case p i
  generalize n.handlePathRequest p i = m at h
  cases h with
  | silent => exact .inl (enqueued_of_append (by simp))
  | answered ha => exact .inr ⟨_, _, ha⟩

theorem Answers.enqueued_eq {p : Packet} {target : Arr 16} {cached : Packet} (h : n.Answers p target cached)
    (i : UInt16) : n.enqueued (n.handlePathRequest p i) = [(i, (n.answerFor target cached).encode)] := by
  rw [h.handlePathRequest_eq]
  exact enqueued_emit rfl _

/-- An answer that no expired path decides is given without the expired paths too. -/
theorem Answers.pruned {p : Packet} {target : Arr 16} {cached : Packet} (h : n.Answers p target cached)
    (hlive : ∀ e, n.locals.any (·.destHash = target) = false → n.paths.get target = some e → n.nowSecs < e.expiresAt) :
    n.prunePaths.Answers p target cached ∧ n.prunePaths.answerFor target cached = n.answerFor target cached := by
  obtain ⟨requester, tag, hparse, hseen, hreq⟩ := h.parsed
  have hget : n.prunePaths.paths.get target = (n.paths.get target).filter fun e => e.expiresAt > n.nowSecs :=
    PathTable.get_prune ..
  have hreq' : ¬ (requester.isSome = true ∧
      (n.prunePaths.paths.get target).any (·.nextHopTransportId = requester) = true) := by
    rintro ⟨hs, ha⟩
    rw [hget, Option.any_filter] at ha
    refine hreq ⟨hs, ?_⟩
    rw [Option.any_eq_true] at ha ⊢
    obtain ⟨e, he, hc⟩ := ha
    exact ⟨e, he, (Bool.and_eq_true_iff.mp hc).2⟩
  cases hl : n.locals.any (·.destHash = target) with
  | true =>
    refine ⟨⟨⟨requester, tag, hparse, hseen, hreq'⟩, .inl hl, h.cached⟩, ?_⟩
    simp only [answerFor, prunePaths_locals, hl]
    rfl
  | false =>
    obtain ⟨ht, hp⟩ := h.known.resolve_left (by rw [hl]; exact Bool.false_ne_true)
    obtain ⟨e, he⟩ := Option.ne_none_iff_exists'.mp hp
    have hsame : n.prunePaths.paths.get target = n.paths.get target := by
      rw [he]
      exact PathTable.get_prune_of_lt he (hlive e hl he)
    refine ⟨⟨⟨requester, tag, hparse, hseen, hreq'⟩, .inr ⟨ht, hsame ▸ hp⟩, h.cached⟩, ?_⟩
    simp only [answerFor, hsame, prunePaths_locals]
    rfl

theorem handlePathRequest_sublist {p : Packet} (h : ¬ ∃ target cached e, n.AnswersExpired p target cached e)
    (i : UInt16) :
    (n.enqueued (n.handlePathRequest p i)).Sublist (n.enqueued (n.prunePaths.handlePathRequest p i)) := by
  rcases n.enqueued_handlePathRequest p i with hnone | ⟨target, cached, ha⟩
  · rw [hnone]
    exact List.nil_sublist _
  · obtain ⟨ha', hsame⟩ := ha.pruned fun e hl he => Nat.lt_of_not_le fun hle => h ⟨target, cached, e, ha, hl, he, hle⟩
    have hq : n.enqueued (n.prunePaths.handlePathRequest p i) = [(i, (n.prunePaths.answerFor target cached).encode)] :=
      ha'.enqueued_eq i
    rw [ha.enqueued_eq, hq, hsame]

theorem AnswersExpired.not_sublist {p : Packet} {target : Arr 16} {cached : Packet} {e : PathEntry}
    (h : n.AnswersExpired p target cached e) (i : UInt16) :
    ¬ (n.enqueued (n.handlePathRequest p i)).Sublist (n.enqueued (n.prunePaths.handlePathRequest p i)) := by
  obtain ⟨_, _, hparse, -⟩ := h.answers.parsed
  rcases n.prunePaths.enqueued_handlePathRequest p i with hnone | ⟨target', _, ha⟩
  · have hq : n.enqueued (n.prunePaths.handlePathRequest p i) = [] := hnone
    rw [h.answers.enqueued_eq, hq]
    simp
  · obtain ⟨_, _, hparse', -⟩ := ha.parsed
    obtain ⟨rfl, -⟩ := Prod.mk.inj (Option.some.inj (hparse.symm.trans hparse'))
    have hgone : n.prunePaths.paths.get target = none := by
      have hget : n.prunePaths.paths.get target = (n.paths.get target).filter fun e => e.expiresAt > n.nowSecs :=
        PathTable.get_prune ..
      rw [hget, h.path, Option.filter_some, if_neg]
      simpa using h.expired
    rcases ha.known with hl | ⟨-, hp⟩
    · have hl : n.locals.any (·.destHash = target) = true := hl
      rw [h.foreign] at hl
      cases hl
    · exact absurd hgone hp

/-! ## Steps -/

variable [Rmp] [Bzip2]

/-- Path requests apart, every handler sends the same frames when the expired paths are gone. -/
theorem dispatch_pruned (p : Packet) (d : Arr 16) (i : UInt16) (rng : Option Entropy)
    (h : ¬ (p.packetType = DATA ∧ p.destType = PLAIN ∧ d = Packet.pathRequestDestinationHash)) :
    (n.prunePaths.dispatch p d i rng).1.outbound = (n.dispatch p d i rng).1.outbound := by
  unfold dispatch
  rw [if_neg h, if_neg h]
  split
  · split
    · exact Blind.outbound_pruned n (f := fun n => n.handleLinkRequest p d i _)
        fun n M T => n.handleLinkRequest_aside M T p d i _
    · rfl
  · split
    · exact Blind.outbound_pruned n (f := fun n => n.handleLinkProof p d rng)
        fun n M T => n.handleLinkProof_aside M T p d rng
    · split
      · exact Blind.outbound_pruned n (f := fun n => n.handleDeliveryProof p d)
          fun n M T => n.handleDeliveryProof_aside M T p d
      · split
        · exact Blind.outbound_pruned n (f := fun n => n.handleResourceProof p d)
            fun n M T => n.handleResourceProof_aside M T p d
        · split
          · exact Blind.outbound_pruned n (f := fun n => n.handleLinkData p d i rng)
              fun n M T => n.handleLinkData_aside M T p d i rng
          · split
            · exact n.handleAnnounce_pruned p d i
            · split
              · exact n.handleData_pruned p d i
              · rfl

omit [Crypto] [Rmp] [Bzip2] in
theorem maybePrune_pruned (n : Node) (now : Nat) : n.prunePaths.maybePrune now = (n.maybePrune now).prunePaths := by
  unfold maybePrune
  simp only [prunePaths_lastPrune]
  split <;> rfl

omit [Rmp] [Bzip2] in
theorem admission_pruned (n : Node) (b : Bytes) :
    n.prunePaths.admission b = ((n.admission b).1.prunePaths, (n.admission b).2) := by
  have hnow : n.prunePaths.nowSecs = n.nowSecs := rfl
  unfold admission
  simp only [hnow, maybePrune_pruned, prunePaths_seenPackets]
  split
  · rfl
  · split
    · rfl
    · split
      · rfl
      · split <;> rfl

/-- A local operation sends the same frames when the expired paths are gone. -/
theorem step_pruned {op : Op} (h : op.inbound? = none) {out : Node × Outcome} (hst : n.step op = some out) :
    ∃ out', n.prunePaths.step op = some out' ∧ out'.1.outbound = out.1.outbound := by
  cases hr : routing op with
  | false =>
    rw [prunePaths_eq_aside, step_aside n _ _ h hr, hst]
    exact ⟨_, rfl, rfl⟩
  | true =>
    cases op with
    | sendMessage d pt rng =>
      cases hst
      exact ⟨_, rfl, congrArg (·.1.outbound) (n.sendMessage_pruned d pt rng)⟩
    | sendMessageWithReceipt d pt rng =>
      cases hst
      exact ⟨_, rfl, congrArg (·.1.outbound) (n.sendMessageWithReceipt_pruned d pt rng)⟩
    | sendGroupMessage d pt rng =>
      cases hst
      exact ⟨_, rfl, n.sendGroupMessage_pruned d pt rng⟩
    | sendPlainMessage d pt =>
      cases hst
      exact ⟨_, rfl, congrArg (·.1.outbound) (n.enqueueDestinationPacket_pruned _ d)⟩
    | establishLink d rng =>
      cases hst
      exact ⟨_, rfl, congrArg (·.1.outbound) (n.establishLink_pruned d rng)⟩
    | prunePaths =>
      cases hst
      exact ⟨_, rfl, rfl⟩
    | _ => cases hr

/-- What the step enqueues, it enqueues without the expired paths too. -/
def LiveOnly (n : Node) (l : Label) (n' : Node) : Prop :=
  ∃ n'' out, NodeStep n.prunePaths (l.1, out) n'' ∧ (n.enqueued n').Sublist (n.prunePaths.enqueued n'')

/-- The frame is a path request, for a destination of another node, that an expired path answers. -/
def AsksExpired (n : Node) (b : Bytes) : Prop :=
  ∃ p target cached e, n.Admits b p Packet.pathRequestDestinationHash ∧ p.packetType = DATA ∧ p.destType = PLAIN ∧
    (n.admitted p).AnswersExpired (received p) target cached e

/-- The operation is no such path request. -/
def AsksLive (n : Node) (op : Op) : Prop := ∀ b i rng, op.inbound? = some (b, i, rng) → ¬ n.AsksExpired b

end Node

open Node

section
variable [Crypto] [Rmp] [Bzip2]

theorem Node.handleInboundInner_pruned (n : Node) (b : Bytes) (i : UInt16) (rng : Option Entropy) :
    (n.enqueued (n.handleInboundInner b i rng).1).Sublist (n.enqueued (n.prunePaths.handleInboundInner b i rng).1) ↔
      ¬ n.AsksExpired b := by
  have hcase := n.admission_cases b
  unfold handleInboundInner
  rw [admission_pruned]
  generalize n.admission b = r at hcase
  cases hcase with
  | malformed h =>
    refine iff_of_true (List.Sublist.refl _) ?_
    rintro ⟨p, _, _, _, ha, -⟩
    exact h p ha.decoded ha.hops
  | duplicate hdec _ hseen =>
    refine iff_of_true (List.Sublist.refl _) ?_
    rintro ⟨p, _, _, _, ha, -⟩
    cases ha.decoded.symm.trans hdec
    rw [ha.unseen] at hseen
    cases hseen
  | admitted ha =>
    rename_i p d
    have hout : ∀ m : Node, n.enqueued m = (n.admitted p).enqueued m := fun m => by simp [enqueued]
    dsimp only
    by_cases hreq : p.packetType = DATA ∧ p.destType = PLAIN ∧ d = Packet.pathRequestDestinationHash
    · obtain ⟨ht, hd, rfl⟩ := hreq
      have hpath (m : Node) : m.dispatch (received p) Packet.pathRequestDestinationHash i rng =
          (m.handlePathRequest (received p) i, []) := if_pos ⟨ht, hd, rfl⟩
      rw [hpath, hpath, hout, hout]
      constructor
      · rintro hs ⟨p', target, cached, e, ha', -, -, hx⟩
        cases ha.decoded.symm.trans ha'.decoded
        exact hx.not_sublist i hs
      · intro hn
        refine handlePathRequest_sublist (fun hx => hn ?_) i
        obtain ⟨target, cached, e, hx⟩ := hx
        exact ⟨p, target, cached, e, ha, ht, hd, hx⟩
    · refine iff_of_true ?_ ?_
      · rw [enqueued, enqueued, dispatch_pruned (received p) d i rng hreq]
      · rintro ⟨p', target, cached, e, ha', ht, hd, -⟩
        cases ha.decoded.symm.trans ha'.decoded
        exact hreq ⟨ht, hd, Subtype.ext (ha.dest.symm.trans ha'.dest)⟩

theorem NodeStep.liveOnly_iff {n n' : Node} {l : Label} (hst : NodeStep n l n') : n.LiveOnly l n' ↔ n.AsksLive l.1 := by
  cases hop : l.1.inbound? with
  | none =>
    refine iff_of_true ?_ ?_
    · obtain ⟨⟨n'', out⟩, hstep, hsame⟩ := step_pruned hop hst
      refine ⟨n'', out, hstep, ?_⟩
      have h : n.prunePaths.enqueued n'' = n.enqueued n' := congrArg (List.drop n.outbound.length) hsame
      rw [h]
    · intro b i rng hb
      rw [hop] at hb
      cases hb
  | some q =>
    obtain ⟨b, i, rng⟩ := q
    have hn' : (n.handleInboundInner b i rng).1 = n' := by rw [hst.inbound hop]
    have hiff := n.handleInboundInner_pruned b i rng
    rw [hn'] at hiff
    constructor
    · rintro ⟨n'', out, hstep, hs⟩ b' i' rng' hb
      cases hop.symm.trans hb
      have hn'' : (n.prunePaths.handleInboundInner b i rng).1 = n'' := by rw [hstep.inbound hop]
      exact hiff.mp (hn'' ▸ hs)
    · intro h
      exact ⟨_, _, n.prunePaths.step_of_inbound hop, hiff.mpr (h b i rng hop)⟩

/-- The runs in which no step uses an expired path are those in which none answers a path request with one. -/
theorem expired_paths_unused {identity : Identity} {clock : UInt64} {tr : List Label} {n : Node} :
    Lts.Run (fun n l n' => NodeStep n l n' ∧ n.LiveOnly l n') (withClock identity clock) tr n ↔
      Lts.Run (fun n l n' => NodeStep n l n' ∧ n.AsksLive l.1) (withClock identity clock) tr n := by
  constructor
  · intro h
    exact h.mono fun _ _ _ hst => ⟨hst.1, hst.1.liveOnly_iff.mp hst.2⟩
  · intro h
    exact h.mono fun _ _ _ hst => ⟨hst.1, hst.1.liveOnly_iff.mpr hst.2⟩

end

/-! ## A request after a week -/

section
open Sample

def streetDest : Arr 16 := destinationHash (nameHash "street" []) (identity 3).hash

def streetAnnounce : Packet :=
  Packet.announce streetDest
    (Announce.build (identity 3) streetDest (nameHash "street" []) (arr 10 5) []).toPayload

def streetRequest : Packet := Packet.pathRequest streetDest none (arr 16 1)

/-- A transport node that has heard the announce. -/
def streetRelay : Node := (((withClock (identity 5) 100).enableTransport true).handleInbound streetAnnounce.encode 0).1

/-- The same node when the path has long expired. -/
def lateRelay : Node := { streetRelay with clock := 700000 }

theorem lateRelay_run : ∃ tr, Lts.Run NodeStep (withClock (identity 5) 100) tr lateRelay := by
  let relay := (withClock (identity 5) 100).enableTransport true
  have h₁ : NodeStep (withClock (identity 5) 100) (.enableTransport true, {}) relay := rfl
  have h₂ := relay.step_handleInbound streetAnnounce.encode 0
  have h₃ : NodeStep streetRelay (.setClock 700000, {}) lateRelay := rfl
  exact ⟨_, .cons h₁ (.cons h₂ (.single h₃))⟩

/-- A path request is answered from a path that expired a day before. -/
theorem expired_path_answers : ¬ ∀ (identity : Identity) (clock : UInt64) (tr : List Label) (n n' : Node) (l : Label),
    Lts.Run NodeStep (withClock identity clock) tr n → NodeStep n l n' → n.LiveOnly l n' := by
  intro h
  obtain ⟨tr, hrun⟩ := lateRelay_run
  have hst := lateRelay.step_handleInbound streetRequest.encode 1
  obtain ⟨n'', out, hst', hs⟩ := h _ _ _ _ _ _ hrun hst
  have hn'' : (lateRelay.prunePaths.handleInboundInner streetRequest.encode 1 none).1 = n'' := by
    rw [hst'.inbound rfl]
  have hanswer : (lateRelay.enqueued (lateRelay.handleInbound streetRequest.encode 1).1).length = 1 := by
    decide +kernel
  have hnone : lateRelay.prunePaths.enqueued (lateRelay.prunePaths.handleInboundInner streetRequest.encode 1 none).1 =
      [] := by decide +kernel
  rw [← hn'', hnone, List.sublist_nil] at hs
  rw [hs] at hanswer
  cases hanswer

end

end Reticulum
