import Reticulum.Replay

/-!
# Overheard frames

Two runs of one node, one of which overhears a frame for somebody else first.
They stay apart by the dedup entry of that frame only, so they differ when a
copy of the packet arrives that is for the node itself.
-/

namespace Reticulum

/-! ## Two memories -/

namespace Memory

/-- `maybe_prune` on the memory alone. -/
def prune (M : Memory) (now : Nat) : Memory :=
  if M.lastPrune ≠ 0 ∧ now - M.lastPrune < 1 then M
  else
    { lastPrune := now
      seenPackets := Dedup.sweep now M.seenPackets
      seenAnnounces := Dedup.sweep now M.seenAnnounces
      seenPathRequests := Dedup.sweep now M.seenPathRequests }

/-- Memories that agree on everything but one packet hash. -/
structure SameBut (h : Arr 16) (M M' : Memory) : Prop where
  packets : ∀ k : Arr 16, k ≠ h → M.seenPackets[k]? = M'.seenPackets[k]?
  announces : M.seenAnnounces = M'.seenAnnounces
  pathRequests : M.seenPathRequests = M'.seenPathRequests
  lastPrune : M.lastPrune = M'.lastPrune

variable {h : Arr 16} {M M' : Memory}

theorem SameBut.refl (h : Arr 16) (M : Memory) : SameBut h M M := ⟨fun _ _ => rfl, rfl, rfl, rfl⟩

/-- A packet hash taken into the memory. -/
def take (M : Memory) (k : Arr 16) (expiresAt : Nat) : Memory := { M with seenPackets := M.seenPackets.insert k expiresAt }

theorem SameBut.take (hs : SameBut h M M') (k : Arr 16) (e : Nat) : SameBut h (M.take k e) (M'.take k e) := by
  refine ⟨fun k' hk' => ?_, hs.announces, hs.pathRequests, hs.lastPrune⟩
  simp only [Memory.take, Std.ExtTreeMap.getElem?_insert, hs.packets k' hk']

theorem sameBut_take (h : Arr 16) (M : Memory) (e : Nat) : SameBut h (M.take h e) M :=
  ⟨fun _ hk => BTreeMap.getElem?_insert_ne hk.symm, rfl, rfl, rfl⟩

theorem SameBut.trans {M'' : Memory} (hs : SameBut h M M') (hs' : SameBut h M' M'') : SameBut h M M'' :=
  ⟨fun k hk => (hs.packets k hk).trans (hs'.packets k hk), hs.announces.trans hs'.announces,
    hs.pathRequests.trans hs'.pathRequests, hs.lastPrune.trans hs'.lastPrune⟩

theorem SameBut.symm (hs : SameBut h M M') : SameBut h M' M :=
  ⟨fun k hk => (hs.packets k hk).symm, hs.announces.symm, hs.pathRequests.symm, hs.lastPrune.symm⟩

theorem SameBut.eq (hs : SameBut h M M') : M = { M' with seenPackets := M.seenPackets } := by
  obtain ⟨_, _, _, _⟩ := M
  obtain ⟨-, rfl, rfl, rfl⟩ := hs
  rfl

theorem SameBut.prune (hs : SameBut h M M') (now : Nat) : SameBut h (M.prune now) (M'.prune now) := by
  unfold Memory.prune
  rw [hs.lastPrune]
  split
  · exact hs
  · refine ⟨fun k hk => ?_, by rw [hs.announces], by rw [hs.pathRequests], rfl⟩
    simp only [Dedup.getElem?_sweep, hs.packets k hk]

/-- Pruning earlier makes no difference once both are pruned later. -/
theorem prune_prune (M : Memory) {t r : Nat} (h : t ≤ r) : (M.prune t).prune r = M.prune r := by
  unfold Memory.prune
  by_cases hkept : M.lastPrune ≠ 0 ∧ t - M.lastPrune < 1
  · rw [if_pos hkept]
  · rw [if_neg hkept]
    have hdue : ¬ (M.lastPrune ≠ 0 ∧ r - M.lastPrune < 1) := by omega
    rw [if_neg hdue]
    dsimp only
    split
    · obtain rfl : r = t := by omega
      rfl
    · simp only [Dedup.sweep_sweep h]

end Memory

namespace Node

theorem maybePrune_eq (n : Node) (now : Nat) : n.maybePrune now = n.withMemory (n.memory.prune now) := by
  unfold maybePrune Memory.prune
  by_cases h : n.lastPrune ≠ 0 ∧ now - n.lastPrune < 1
  · rw [if_pos h, if_pos (show n.memory.lastPrune ≠ 0 ∧ now - n.memory.lastPrune < 1 from h)]
    rfl
  · rw [if_neg h, if_neg (show ¬ (n.memory.lastPrune ≠ 0 ∧ now - n.memory.lastPrune < 1) from h)]
    rfl

theorem maybePrune_withMemory (n : Node) (now : Nat) (M : Memory) :
    (n.maybePrune now).withMemory M = n.withMemory M := by
  rw [maybePrune_eq]
  rfl

/-- Two nodes that differ, after any sweep from `t` on, by what they remember of one packet hash. -/
structure Apart (h : Arr 16) (t : Nat) (n n' : Node) : Prop where
  same : ∀ M, n.withMemory M = n'.withMemory M
  memory : ∀ r, t ≤ r → Memory.SameBut h (n.memory.prune r) (n'.memory.prune r)

variable {h : Arr 16} {t : Nat} {n n' : Node}

theorem Apart.of_sameBut (same : ∀ M, n.withMemory M = n'.withMemory M) (hm : Memory.SameBut h n.memory n'.memory) :
    Apart h t n n' :=
  ⟨same, fun r _ => hm.prune r⟩

theorem Apart.outbound (ha : Apart h t n n') : n.outbound = n'.outbound := by
  show (n.withMemory n.memory).outbound = (n'.withMemory n.memory).outbound
  rw [ha.same]

theorem Apart.nowSecs (ha : Apart h t n n') : n.nowSecs = n'.nowSecs := by
  show (n.withMemory n.memory).nowSecs = (n'.withMemory n.memory).nowSecs
  rw [ha.same]

variable [Crypto]

/-- A packet for another relay, or of a link that runs over another interface. -/
def ForOthers (n : Node) (p : Packet) (i : UInt16) : Prop :=
  (p.packetType = LINKREQUEST ∨ p.packetType = DATA ∧ p.destType ≠ LINK ∧
      ¬ (p.destType = PLAIN ∧ p.destHash = Packet.pathRequestDestinationHash.1)) ∧ n.addressedElsewhere p = true ∨
  p.packetType = DATA ∧ p.destType = LINK ∧
    ∃ (id : Arr 16) (link : LinkEntry), p.destHash = id.1 ∧ n.links[id]? = some link ∧ link.interface ≠ i

/-- A frame that the node ignores because it is not addressed to it. -/
structure Overhears (n : Node) (b : Bytes) (i : UInt16) (p : Packet) : Prop where
  decoded : Packet.decode b = .ok p
  hops : p.hops < PATHFINDER_MAX_HOPS
  others : n.ForOthers p i

/-- Whether the dedup map drops a packet that arrives now. -/
def remembers (n : Node) (h : Arr 16) : Bool := (n.maybePrune n.nowSecs).seenPackets.contains h

theorem ForOthers.of_eq {m : Node} {p : Packet} {i : UInt16} (ho : n.ForOthers p i) (hl : m.links = n.links)
    (he : m.addressedElsewhere p = n.addressedElsewhere p) : m.ForOthers p i := by
  rcases ho with ⟨hk, ho⟩ | ⟨hp, hd, id, link, hid, hget, hi⟩
  · exact .inl ⟨hk, he.trans ho⟩
  · exact .inr ⟨hp, hd, id, link, hid, hl ▸ hget, hi⟩

variable [Rmp] [Bzip2]

theorem dispatch_of_forOthers {p : Packet} {d : Arr 16} {i : UInt16} (hd : p.destHash = d.1) (ho : n.ForOthers p i)
    (rng : Option Entropy) : n.dispatch (received p) d i rng = (n, []) := by
  have helse : n.addressedElsewhere (received p) = n.addressedElsewhere p := rfl
  rcases ho with ⟨hreq | ⟨hdata, hlink, hpath⟩, ho⟩ | ⟨hdata, hlink, id, link, hid, hget, hi⟩
  · have hk : (received p).packetType = LINKREQUEST := hreq
    unfold dispatch
    rw [if_neg (by simp [hk, LINKREQUEST, DATA]), if_pos hk]
    cases rng with
    | none => rfl
    | some rng => simp only [handleLinkRequest, helse, ho, if_true]
  · have hk : (received p).packetType = DATA := hdata
    have ht : (received p).destType ≠ LINK := hlink
    have hpr : ¬ ((received p).packetType = DATA ∧ (received p).destType = PLAIN ∧ d = Packet.pathRequestDestinationHash) :=
      fun h => hpath ⟨h.2.1, hd.trans (congrArg Subtype.val h.2.2)⟩
    unfold dispatch
    rw [if_neg hpr, if_neg (by simp [hk, LINKREQUEST, DATA]), if_neg (by simp [hk, PROOF, DATA]),
      if_neg (by simp [hk, PROOF, DATA]), if_neg (by simp [hk, PROOF, DATA]), if_neg (by simp [ht]),
      if_neg (by simp [hk, ANNOUNCE, DATA]), if_pos hk]
    simp only [handleData, helse, ho, if_true]
  · have hk : (received p).packetType = DATA := hdata
    have ht : (received p).destType = LINK := hlink
    have hdid : d = id := Subtype.ext (hd.symm.trans hid)
    unfold dispatch
    rw [if_neg (by simp [ht, PLAIN, LINK]), if_neg (by simp [hk, LINKREQUEST, DATA]), if_neg (by simp [hk, PROOF, DATA]),
      if_neg (by simp [hk, PROOF, DATA]), if_neg (by simp [hk, PROOF, DATA]), if_pos ⟨hk, ht⟩]
    simp [handleLinkData, hdid, hget, hi]

omit [Rmp] [Bzip2] in
theorem admitted_eq (n : Node) (p : Packet) :
    n.admitted p = n.withMemory ((n.memory.prune n.nowSecs).take p.packetHash (packetExpiry n.nowSecs)) := by
  unfold admitted
  rw [maybePrune_eq]
  rfl

/-- Both runs handle an admitted packet in the same way. -/
theorem Apart.dispatch (hsame : ∀ M, n.withMemory M = n'.withMemory M) {A A' : Memory} (hm : Memory.SameBut h A A')
    (p : Packet) (d : Arr 16) (i : UInt16) (rng : Option Entropy) :
    ((n.withMemory A).dispatch p d i rng).2 = ((n'.withMemory A').dispatch p d i rng).2 ∧
      Apart h t ((n.withMemory A).dispatch p d i rng).1 ((n'.withMemory A').dispatch p d i rng).1 := by
  have heq : n.withMemory A = (n'.withMemory A').withSeen A.seenPackets := by
    rw [hsame, withSeen, withMemory_withMemory, memory_withMemory, ← hm.eq]
  have hseen : ((n'.withMemory A').dispatch p d i rng).1.seenPackets = A'.seenPackets :=
    (dispatch_cases _ p d i rng).sameConfig.seenPackets
  rw [heq, dispatch_withSeen]
  exact ⟨rfl, .of_sameBut (fun M => rfl) ⟨fun k hk => (hm.packets k hk).trans (by rw [Node.memory, hseen]), rfl, rfl, rfl⟩⟩

theorem Overhears.handle {b : Bytes} {i : UInt16} {p : Packet} (ho : n.Overhears b i p) (rng : Option Entropy) :
    (n.handleInboundInner b i rng).2 = [] ∧ (n.handleInboundInner b i rng).1.outbound = n.outbound ∧
      Apart p.packetHash n.nowSecs (n.handleInboundInner b i rng).1 n := by
  have hsame (M : Memory) : (n.maybePrune n.nowSecs).withMemory M = n.withMemory M := maybePrune_withMemory ..
  have h := n.admission_cases b
  unfold handleInboundInner
  generalize n.admission b = r at h
  cases h with
  | malformed h => exact absurd ho.hops (h p ho.decoded)
  | duplicate =>
    refine ⟨rfl, by simp, hsame, fun r hr => ?_⟩
    rw [maybePrune_eq, memory_withMemory, Memory.prune_prune _ hr]
    exact .refl _ _
  | admitted ha =>
    cases ha.decoded.symm.trans ho.decoded
    have hothers : (n.admitted p).ForOthers p i := ho.others.of_eq (by simp) (by simp [addressedElsewhere])
    simp only [dispatch_of_forOthers ha.dest hothers]
    refine ⟨trivial, by simp, fun M => ?_, fun r hr => ?_⟩
    · rw [admitted_eq, withMemory_withMemory]
    · have hprune := (Memory.sameBut_take p.packetHash (n.memory.prune n.nowSecs) (packetExpiry n.nowSecs)).prune r
      rw [Memory.prune_prune _ hr] at hprune
      rw [admitted_eq]
      exact hprune

/-- A copy of the overheard packet comes: it is not for this node either, or both runs know it or neither does. -/
def Undisturbed (h : Arr 16) (n n' : Node) (b : Bytes) (i : UInt16) : Prop :=
  frameHash b = some h → (∃ p, n.Overhears b i p) ∨ n.remembers h = n'.remembers h

omit [Rmp] [Bzip2] in
theorem Apart.remembers (ha : Apart h t n n') (ht : t ≤ n.nowSecs) {b : Bytes} {i : UInt16}
    (hu : Undisturbed h n n' b i) {p : Packet} (hd : Packet.decode b = .ok p) :
    n.remembers p.packetHash = n'.remembers p.packetHash ∨ p.packetHash = h ∧ ∃ q, n.Overhears b i q := by
  by_cases hk : p.packetHash = h
  · subst hk
    exact (hu (by simp [frameHash, hd, Except.toOption])).elim (fun ho => .inr ⟨rfl, ho⟩) .inl
  · refine .inl ?_
    simp only [Node.remembers, ← ha.nowSecs, maybePrune_eq, withMemory_seenPackets,
      Std.ExtTreeMap.contains_eq_isSome_getElem?, (ha.memory _ ht).packets _ hk]

omit [Rmp] [Bzip2] in
/-- An overheard frame that one run drops as a duplicate and the other ignores keeps the runs together. -/
theorem Apart.overheard (ha : Apart h t n n') (ht : t ≤ n.nowSecs) {p : Packet} (hk : p.packetHash = h) :
    Apart h t (n.maybePrune n.nowSecs) (n'.admitted p) ∧ Apart h t (n.admitted p) (n'.maybePrune n'.nowSecs) := by
  subst hk
  have hm := ha.memory _ ht
  rw [admitted_eq, admitted_eq, ← ha.nowSecs, maybePrune_eq, maybePrune_eq]
  exact ⟨.of_sameBut ha.same (hm.trans (Memory.sameBut_take _ _ _).symm),
    .of_sameBut ha.same ((Memory.sameBut_take _ _ _).trans hm)⟩

theorem Apart.inbound (ha : Apart h t n n') (ht : t ≤ n.nowSecs) {b : Bytes} {i : UInt16} {rng : Option Entropy}
    (hu : Undisturbed h n n' b i) : (n.handleInboundInner b i rng).2 = (n'.handleInboundInner b i rng).2 ∧
      Apart h t (n.handleInboundInner b i rng).1 (n'.handleInboundInner b i rng).1 := by
  have hm := ha.memory _ ht
  have hothers {p : Packet} (hd : Packet.decode b = .ok p) (ho : ∃ q, n.Overhears b i q) :
      (n.admitted p).ForOthers p i ∧ (n'.admitted p).ForOthers p i := by
    obtain ⟨q, ho⟩ := ho
    cases ho.decoded.symm.trans hd
    refine ⟨ho.others.of_eq (by simp) (by simp [addressedElsewhere]), ?_⟩
    rw [admitted_eq, ← withMemory_memory n', withMemory_withMemory, ← ha.same]
    exact ho.others.of_eq rfl rfl
  have h₁ := n.admission_cases b
  have h₂ := n'.admission_cases b
  unfold handleInboundInner
  generalize n.admission b = r₁ at h₁
  generalize n'.admission b = r₂ at h₂
  cases h₁ with
  | malformed hbad =>
    cases h₂ with
    | malformed => exact ⟨rfl, ha⟩
    | duplicate hd hh => exact absurd hh (hbad _ hd)
    | admitted ha' => exact absurd ha'.hops (hbad _ ha'.decoded)
  | @duplicate p hd hh hseen =>
    cases h₂ with
    | malformed hbad => exact absurd hh (hbad _ hd)
    | duplicate =>
      refine ⟨rfl, ?_⟩
      rw [← ha.nowSecs, maybePrune_eq, maybePrune_eq]
      exact .of_sameBut ha.same hm
    | admitted ha' =>
      cases hd.symm.trans ha'.decoded
      rcases ha.remembers ht hu hd with hr | ⟨hk, ho⟩
      · exact absurd (hr.symm.trans hseen) (by simp [Node.remembers, ha'.unseen])
      · simp only [dispatch_of_forOthers ha'.dest (hothers hd ho).2]
        exact ⟨trivial, (ha.overheard ht hk).1⟩
  | @admitted p d ha₁ =>
    cases h₂ with
    | malformed hbad => exact absurd ha₁.hops (hbad _ ha₁.decoded)
    | duplicate hd _ hseen =>
      cases hd.symm.trans ha₁.decoded
      rcases ha.remembers ht hu hd with hr | ⟨hk, ho⟩
      · exact absurd (hr.trans hseen) (by simp [Node.remembers, ha₁.unseen])
      · simp only [dispatch_of_forOthers ha₁.dest (hothers hd ho).1]
        exact ⟨trivial, (ha.overheard ht hk).2⟩
    | admitted ha₂ =>
      cases ha₁.decoded.symm.trans ha₂.decoded
      cases Subtype.ext (ha₁.dest.symm.trans ha₂.dest)
      dsimp only
      rw [admitted_eq, admitted_eq, ← ha.nowSecs]
      exact Apart.dispatch ha.same (hm.take _ _) _ _ _ _

end Node

open Node

section
variable [Crypto] [Rmp] [Bzip2]

/-- The same operation on two nodes, with both outcomes. Inbound frames come at `t` or later and do not
disturb the packet hash `h`. -/
structure PairStep (h : Arr 16) (t : Nat) (s : Node × Node) (l : Op × Outcome × Outcome) (s' : Node × Node) : Prop where
  left : NodeStep s.1 (l.1, l.2.1) s'.1
  right : NodeStep s.2 (l.1, l.2.2) s'.2
  later : l.1.inbound?.isSome = true → t ≤ s.1.nowSecs
  undisturbed : ∀ b i rng, l.1.inbound? = some (b, i, rng) → Undisturbed h s.1 s.2 b i

variable {h : Arr 16} {t : Nat} {s s' : Node × Node} {l : Op × Outcome × Outcome}

/-- The two runs stay together, and tell the same. -/
theorem PairStep.apart (ha : Apart h t s.1 s.2) (hst : PairStep h t s l s') : Apart h t s'.1 s'.2 ∧ l.2.1 = l.2.2 := by
  obtain ⟨op, out, out'⟩ := l
  cases hop : op.inbound? with
  | none =>
    have hl : s.1.step op = some (s'.1, out) := hst.left
    have hr : s.2.step op = some (s'.2, out') := hst.right
    have heq : s.1 = s.2.withMemory s.1.memory := ha.same s.1.memory
    rw [heq, step_withMemory _ _ hop, hr, Option.map_some, Option.some.injEq] at hl
    obtain ⟨hn, hout⟩ := Prod.mk.inj hl
    refine ⟨⟨fun M => by rw [← hn]; rfl, ?_⟩, hout.symm⟩
    rw [← hn, memory_withMemory, hst.right.memory_of_local hop]
    exact ha.memory
  | some q =>
    obtain ⟨b, i, rng⟩ := q
    have hl := hst.left.inbound hop
    have hr := hst.right.inbound hop
    have hout := hst.left.inbound_outcome hop
    have hout' := hst.right.inbound_outcome hop
    obtain ⟨hev, ha'⟩ := ha.inbound (hst.later (by simp [hop])) (hst.undisturbed b i rng hop)
    refine ⟨?_, hout.trans (hout'.trans (by rw [hev])).symm⟩
    rwa [hl, hr] at ha'

theorem pairStep_handleInbound {m n : Node} {b : Bytes} (i : UInt16) (hlater : t ≤ m.nowSecs)
    (hb : frameHash b ≠ some h) :
    PairStep h t (m, n) (.handleInbound b i, { events := (m.handleInbound b i).2 }, { events := (n.handleInbound b i).2 })
      ((m.handleInbound b i).1, (n.handleInbound b i).1) := by
  refine ⟨step_handleInbound _ _ _, step_handleInbound _ _ _, fun _ => hlater, fun b' i' rng' hop hb' => ?_⟩
  cases hop
  exact absurd hb' hb

/-- After an overheard frame, every run does what it does without it: the same results and events, and the
same frames enqueued, as long as no copy of the packet disturbs it. -/
theorem overheard_unnoticed {n : Node} {b : Bytes} {i : UInt16} (rng : Option Entropy) {p : Packet}
    {tr : List (Op × Outcome × Outcome)} (ho : n.Overhears b i p)
    (hrun : Lts.Run (PairStep p.packetHash n.nowSecs) ((n.handleInboundInner b i rng).1, n) tr s)
    (hst : PairStep p.packetHash n.nowSecs s l s') :
    l.2.1 = l.2.2 ∧ s.1.enqueued s'.1 = s.2.enqueued s'.2 := by
  have hs : Apart p.packetHash n.nowSecs s.1 s.2 :=
    hrun.preserve (I := fun s => Apart p.packetHash n.nowSecs s.1 s.2) (fun _ _ _ ha hst => (hst.apart ha).1)
      (ho.handle rng).2.2
  obtain ⟨hs', hout⟩ := hst.apart hs
  exact ⟨hout, by rw [enqueued, enqueued, hs.outbound, hs'.outbound]⟩

end

/-! ## A packet heard on its way to the last relay -/

section
open Sample

def hallDest : Arr 16 := ((withClock (identity 4) 100).registerPlainDestination "hall" []).2

/-- A node with a PLAIN destination. -/
def hall : Node := ((withClock (identity 4) 100).registerPlainDestination "hall" []).1

theorem hall_run : Lts.Run NodeStep (withClock (identity 4) 100)
    [(.registerPlainDestination "hall" [], { ret := .dest hallDest })] hall := .single rfl

/-- The packet as the last relay sends it, and as it was sent to that relay. -/
def hallPacket (payload : Bytes) : Packet := Packet.dataFor PLAIN hallDest payload

def relayedPacket (payload : Bytes) : Packet := viaNextHop (hallPacket payload) (arr 16 9)

theorem hall_overhears (payload : Bytes) : hall.Overhears (relayedPacket payload).encode 0 (relayedPacket payload) := by
  have hw : (relayedPacket payload).WellFormed := (wellFormed_dataFor (by decide) _ _).toHeader2 _
  refine ⟨Packet.decode_encode hw, (by decide : (0 : UInt8) < PATHFINDER_MAX_HOPS), .inl ⟨.inr ⟨rfl, ?_, ?_⟩, rfl⟩⟩
  · exact (by decide : PLAIN ≠ LINK)
  · have hne : hallDest ≠ Packet.pathRequestDestinationHash := by decide +kernel
    exact fun h => hne (Subtype.ext h.2)

def hallHearing : Node := (hall.handleInbound (relayedPacket [5]).encode 0).1

def otherFrame : Bytes := (hallPacket [6]).encode

/-- Having overheard one packet, the node still delivers another. -/
theorem overheard_unnoticed_other :
    (hallHearing.handleInbound otherFrame 0).2 = (hall.handleInbound otherFrame 0).2 ∧
      hallHearing.enqueued (hallHearing.handleInbound otherFrame 0).1 =
        hall.enqueued (hall.handleInbound otherFrame 0).1 := by
  have hother : frameHash otherFrame ≠ some (relayedPacket [5]).packetHash := by decide +kernel
  have hlater : hall.nowSecs ≤ hallHearing.nowSecs := by decide +kernel
  have hout := overheard_unnoticed none (hall_overhears [5]) .nil
    (pairStep_handleInbound (m := hallHearing) 0 hlater hother)
  dsimp only at hout
  exact ⟨(Outcome.mk.inj hout.1).2, hout.2⟩

/-- The packet the last relay readdressed is lost on a node that overheard it before. -/
theorem overheard_interferes : ¬ ∀ (identity : Identity) (clock : UInt64) (tr : List Label) (n : Node) (b b' : Bytes)
    (i i' : UInt16) (rng rng' : Entropy) (p : Packet), Lts.Run NodeStep (withClock identity clock) tr n →
    n.Overhears b i p →
    ((n.handleInboundWithEntropy b i rng).1.handleInboundWithEntropy b' i' rng').2 =
      (n.handleInboundWithEntropy b' i' rng').2 := by
  intro h
  have hsame := h _ _ _ _ _ (hallPacket [5]).encode 0 0 (entropy 1) (entropy 2) _ hall_run (hall_overhears [5])
  have hdelivered : (hall.handleInboundWithEntropy (hallPacket [5]).encode 0 (entropy 2)).2 = [.message hallDest [5]] := by
    decide +kernel
  have hlost : ((hall.handleInboundWithEntropy (relayedPacket [5]).encode 0 (entropy 1)).1.handleInboundWithEntropy
      (hallPacket [5]).encode 0 (entropy 2)).2 = [] := by decide +kernel
  rw [hdelivered, hlost] at hsame
  cases hsame

end

end Reticulum
