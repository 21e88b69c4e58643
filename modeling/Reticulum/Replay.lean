import Reticulum.Lib.Dedup
import Reticulum.LinkSteps
import Reticulum.Memory
import Reticulum.Sample

/-!
# Replayed frames

The dedup map of packet hashes is a time-limited filter, and the only guard
against a frame that arrives again. So a frame is delivered once as long as
no copy of it is handled past the expiry of its entry.
-/

namespace Reticulum

open Node

/-- A label with what the clock read when the call was made. -/
abbrev TimedLabel := Nat × Label

/-- When the entry of a packet taken now expires. -/
def packetExpiry (now : Nat) : Nat := satAdd now PACKET_HASH_TTL_SECS

/-- Whether an event hands a payload to the application. -/
def Event.isDelivery : Event → Bool
  | .message _ _ => true
  | .linkData _ _ => true
  | _ => false

section
variable [Crypto]

/-- The packet hash of a frame, when it decodes. -/
def frameHash (b : Bytes) : Option (Arr 16) := (Packet.decode b).toOption.map Packet.packetHash

/-- The packet hash of the frame an operation handles. -/
def Op.frameHash? (op : Op) : Option (Arr 16) := op.inbound?.bind fun s => frameHash s.1

/-- How many payloads a call hands out that came with a packet of hash `h`. -/
def deliveries (h : Arr 16) (l : Label) : Nat :=
  if l.1.frameHash? = some h then l.2.events.countP Event.isDelivery else 0

end

section
variable [Crypto] [Rmp] [Bzip2]

/-- A step of a node at what its clock reads. -/
def TimedStep (n : Node) (l : TimedLabel) (n' : Node) : Prop := l.1 = n.nowSecs ∧ NodeStep n l.2 n'

end

namespace Node

theorem maybePrune_seenPackets (n : Node) (now : Nat) :
    (n.maybePrune now).seenPackets = n.seenPackets ∨
      (n.maybePrune now).seenPackets = Dedup.sweep now n.seenPackets := by
  unfold maybePrune
  split
  · exact .inl rfl
  · exact .inr rfl

variable [Crypto]

/-- The hash of the packet that an inbound frame gets past the dedup map. -/
def takenHash (n : Node) (b : Bytes) : Option (Arr 16) := (n.admission b).2.map fun s => s.1.packetHash

theorem Admits.takenHash {n : Node} {b : Bytes} {p : Packet} {d : Arr 16} (h : n.Admits b p d) :
    n.takenHash b = some p.packetHash := by
  rw [Node.takenHash, h.admission_eq]
  rfl

theorem Admits.frameHash {n : Node} {b : Bytes} {p : Packet} {d : Arr 16} (h : n.Admits b p d) :
    frameHash b = some p.packetHash := by
  simp [Reticulum.frameHash, h.decoded, Except.toOption]

/-- Admission is a step of the dedup filter. -/
theorem admission_seenPackets (n : Node) (b : Bytes) :
    Dedup.Step packetExpiry n.seenPackets n.nowSecs (n.takenHash b) (n.admission b).1.seenPackets := by
  have h := n.admission_cases b
  unfold takenHash
  generalize n.admission b = r at h
  cases h with
  | malformed => exact .idle (.inl rfl)
  | duplicate => exact .idle (n.maybePrune_seenPackets _)
  | admitted ha =>
    exact .take (n.maybePrune_seenPackets _) (Std.ExtTreeMap.getElem?_eq_none_of_contains_eq_false ha.unseen)

variable [Rmp] [Bzip2]

theorem handleInboundInner_seenPackets (n : Node) (b : Bytes) (i : UInt16) (rng : Option Entropy) :
    (n.handleInboundInner b i rng).1.seenPackets = (n.admission b).1.seenPackets := by
  unfold handleInboundInner
  split
  · rename_i h
    rw [h]
  · rename_i h
    rw [h]
    exact (dispatch_cases _ _ _ _ _).sameConfig.seenPackets

theorem DispatchCase.countP_isDelivery {n : Node} {p : Packet} {d : Arr 16} {i : UInt16} {out : Node × List Event}
    (hn : n.PendingOk) (h : DispatchCase n p d i out) : out.2.countP Event.isDelivery ≤ 1 := by
  cases h with
  | ignored | pathRequest => exact Nat.zero_le _
  | linkRequest _ hr => cases hr <;> simp [Event.isDelivery]
  | linkProof _ _ _ hr => cases hr <;> simp [Event.isDelivery]
  | deliveryProof _ hr => cases hr <;> simp [Event.isDelivery]
  | resourceProof _ _ _ hr => cases hr <;> simp [Event.isDelivery]
  | announce _ hr => cases hr <;> simp [Event.isDelivery]
  | data _ _ _ hr => cases hr <;> simp [Event.isDelivery]
  | linkData _ _ hr =>
    cases hr with
    | @closed link _ ha =>
      rw [closeLink_touch n d ha.status]
      have hnone : ((n.closedByPeer d link).tickInner none).2.countP Event.isDelivery = 0 := by
        rw [List.countP_eq_zero]
        intro e he
        rcases mem_tickInner_events (hn.closedByPeer d link) he with ⟨_, rfl⟩ | ⟨_, _, rfl⟩ <;> simp [Event.isDelivery]
      exact (le_of_eq hnone).trans (Nat.zero_le 1)
    | part _ _ ho =>
      cases ho with
      | refused => exact Nat.zero_le _
      | taken _ _ hp => cases hp <;> simp [Event.isDelivery]
    | resource _ _ hr => cases hr <;> simp [Event.isDelivery]
    | _ => simp [Event.isDelivery]

end Node

section
variable [Crypto] [Rmp] [Bzip2] {n n' : Node} {l : Label}

theorem NodeStep.seenPackets_of_inbound (h : NodeStep n l n') {b : Bytes} {i : UInt16} {rng : Option Entropy}
    (hl : l.1.inbound? = some (b, i, rng)) :
    Dedup.Step packetExpiry n.seenPackets n.nowSecs (n.takenHash b) n'.seenPackets := by
  have hs := n.handleInboundInner_seenPackets b i rng
  rw [h.inbound hl] at hs
  exact hs ▸ n.admission_seenPackets b

/-- A call hands out at most one payload, and one only for a frame that gets past the dedup map. -/
theorem NodeStep.deliveries (hn : n.PendingOk) (h : NodeStep n l n') (k : Arr 16) :
    deliveries k l = 0 ∨ deliveries k l = 1 ∧
      ∃ b i rng, l.1.inbound? = some (b, i, rng) ∧ n.takenHash b = some k := by
  unfold Reticulum.deliveries
  split
  · rename_i hk
    obtain ⟨⟨b, i, rng⟩, hop, hb⟩ := Option.bind_eq_some_iff.mp hk
    have hc := n.handleInboundInner_cases b i rng
    rw [h.inbound hop] at hc
    generalize hout : (n', l.2.events) = out at hc
    cases hc with
    | malformed | duplicate => exact .inl (by rw [(Prod.mk.inj hout).2]; rfl)
    | admitted ha hd =>
      subst hout
      rcases Nat.le_one_iff_eq_zero_or_eq_one.mp (hd.countP_isDelivery (hn.of_eq (by simp))) with h0 | h1
      · exact .inl h0
      · exact .inr ⟨h1, b, i, rng, hop, ha.takenHash.trans (ha.frameHash.symm.trans hb)⟩
  · exact .inl rfl

/-- The hash, when a call hands out a payload that came with a packet of it. -/
def deliveredHash? (k : Arr 16) (l : TimedLabel) : Option (Arr 16) := if Reticulum.deliveries k l.2 = 0 then none else some k

/-- Every copy of the packet with hash `k` that is handled after a delivery comes before the expiry of its entry. -/
def WithinExpiry (k : Arr 16) (tr : List TimedLabel) : Prop :=
  tr.Pairwise fun l l' => Reticulum.deliveries k l.2 ≠ 0 → l'.2.1.frameHash? = some k → l'.1 < packetExpiry l.1

/-- A delivery is a key that the dedup filter takes. -/
theorem filters_deliveries (k : Arr 16) : Dedup.Filters (fun n l n' => n.PendingOk ∧ TimedStep n l n') packetExpiry
    Node.seenPackets Prod.fst (deliveredHash? k) := by
  rintro n l n' ⟨hn, htime, hst⟩
  cases hop : l.2.1.inbound? with
  | none =>
    have h0 : Reticulum.deliveries k l.2 = 0 := by simp [Reticulum.deliveries, Op.frameHash?, hop]
    refine ⟨none, .idle (.inl (congrArg Memory.seenPackets (hst.memory_of_local hop))), fun k' hk => ?_⟩
    rw [deliveredHash?, if_pos h0] at hk
    cases hk
  | some s =>
    obtain ⟨b, i, rng⟩ := s
    refine ⟨n.takenHash b, htime ▸ hst.seenPackets_of_inbound hop, fun k' hk => ?_⟩
    rcases hst.deliveries hn k with h0 | ⟨h1, b', i', rng', hop', htaken⟩
    · rw [deliveredHash?, if_pos h0] at hk
      cases hk
    · cases hop.symm.trans hop'
      rw [deliveredHash?, if_neg (by omega)] at hk
      exact htaken.trans hk

theorem NodeStep.deliveries_le_one (hn : n.PendingOk) (h : NodeStep n l n') (k : Arr 16) :
    Reticulum.deliveries k l ≤ 1 := by
  rcases h.deliveries hn k with h0 | ⟨h1, -⟩
  · omega
  · omega

omit [Rmp] [Bzip2] in
theorem frameHash?_of_deliveries {k : Arr 16} (h : Reticulum.deliveries k l ≠ 0) : l.1.frameHash? = some k := by
  by_contra hne
  exact h (if_neg hne)

/-- Along a run of a node whose clock does not go back, the copies of a packet deliver one payload at most, as long as
no copy comes past the expiry of the delivered one. -/
theorem delivered_at_most_once {identity : Identity} {clock : UInt64} {tr : List TimedLabel} {k : Arr 16}
    (h : Lts.Run TimedStep (withClock identity clock) tr n) (hclock : (tr.map (·.1)).Pairwise (· ≤ ·))
    (hw : WithinExpiry k tr) : (tr.map fun l => Reticulum.deliveries k l.2).sum ≤ 1 := by
  have hok : (withClock identity clock).PendingOk := fun _ h => nomatch h
  have hrun := h.guarded (I := PendingOk) (fun _ _ _ hi hst => hst.2.pendingOk hi) hok
  refine Dedup.sum_map_le_one (fun l hl => ?_) ?_
  · obtain ⟨-, -, v, w, -, -, ⟨hv, hst⟩, -⟩ := hrun.mem_step hl
    exact hst.2.deliveries_le_one hv k
  · have hspaced := (filters_deliveries k).spaced hrun (List.pairwise_map.mp hclock)
    refine (hspaced.and hw).imp fun {l l'} ⟨hsp, hin⟩ hl => ?_
    by_contra hl'
    have hle := hsp k (if_neg hl) (if_neg hl')
    have hlt := hin hl (frameHash?_of_deliveries hl')
    omega

end

/-! ## A copy that comes late -/

/-- A successful call that sends one payload. -/
def Label.sends : Label → Prop
  | (.sendMessage .., { ret := .sent (.ok ()), .. }) => True
  | (.sendGroupMessage .., { ret := .sent (.ok ()), .. }) => True
  | (.linkSend .., { ret := .sent (.ok ()), .. }) => True
  | _ => False

section
open Sample

def teamKey : Arr 64 := ⟨(arr 32 6).1 ++ (arr 32 7).1, rfl⟩

def teamDest : Arr 16 := ((withClock (identity 0) 0).registerGroupDestination "team" [] teamKey).2

/-- A member of the group, one that sends to it, and the frame it sends. -/
def member (seed : UInt8) : Node :=
  (((withClock (identity seed) 100).registerInterface 0).registerGroupDestination "team" [] teamKey).1

def teamSend : Node × Except NodeError Unit := (member 1).sendGroupMessage teamDest [7] (entropy 1)

def teamFrame : Bytes := (teamSend.1.outbound.headD (0, [])).2

def teamHash : Arr 16 := (frameHash teamFrame).getD (arr 16 0)

def memberRun : List TimedLabel :=
  [(100, .registerInterface 0, {}), (100, .registerGroupDestination "team" [] teamKey, { ret := .dest teamDest })]

theorem member_run (seed : UInt8) : Lts.Run TimedStep (withClock (identity seed) 100) memberRun (member seed) :=
  .cons ⟨rfl, rfl⟩ (.single ⟨rfl, rfl⟩)

/-- The frame arrives, and once more at another reading of the clock. -/
def heard : Node × List Event := (member 2).handleInbound teamFrame 0

def heardBy (now : UInt64) : Node := { heard.1 with clock := now }

def heardAgain (now : UInt64) : Node × List Event := (heardBy now).handleInbound teamFrame 0

def hearingRun (now : UInt64) : List TimedLabel :=
  memberRun ++ ([(100, .handleInbound teamFrame 0, { events := heard.2 }), (100, .setClock now, {}),
    (now.toNat, .handleInbound teamFrame 0, { events := (heardAgain now).2 })] : List TimedLabel)

theorem hearing_run (now : UInt64) :
    Lts.Run TimedStep (withClock (identity 2) 100) (hearingRun now) (heardAgain now).1 := by
  have hclock : 100 = heard.1.nowSecs := by decide +kernel
  have hfirst : TimedStep (member 2) (100, .handleInbound teamFrame 0, { events := heard.2 }) heard.1 :=
    ⟨rfl, step_handleInbound _ _ _⟩
  have hset : TimedStep heard.1 (100, .setClock now, {}) (heardBy now) := ⟨hclock, step_setClock _ now⟩
  have hsecond : TimedStep (heardBy now) (now.toNat, .handleInbound teamFrame 0, { events := (heardAgain now).2 })
      (heardAgain now).1 := ⟨rfl, step_handleInbound _ _ _⟩
  exact (member_run 2).append (.cons hfirst (.cons hset (.single hsecond)))

/-- After the copies, and long after the entry has expired, something else comes in. -/
def busyRun : List TimedLabel :=
  hearingRun 130 ++ ([(130, .setClock 300, {}), (300, .handleInbound [] 0, {})] : List TimedLabel)

theorem busy_run : Lts.Run TimedStep (withClock (identity 2) 100) busyRun { (heardAgain 130).1 with clock := 300 } := by
  have hclock : 130 = (heardAgain 130).1.nowSecs := by decide +kernel
  have hset : TimedStep (heardAgain 130).1 (130, .setClock 300, {}) { (heardAgain 130).1 with clock := 300 } :=
    ⟨hclock, step_setClock _ 300⟩
  exact (hearing_run 130).append (.cons hset (.single ⟨rfl, step_handleInbound _ _ _⟩))

/-- A copy thirty seconds later is not delivered. -/
theorem delivered_at_most_once_team : (busyRun.map fun l => deliveries teamHash l.2).sum ≤ 1 := by
  refine delivered_at_most_once busy_run ?_ ?_
  · simp [busyRun, hearingRun, memberRun]
  · have hearly : 100 < packetExpiry 100 ∧ 130 < packetExpiry 100 := by decide
    have hshort : frameHash [] ≠ some teamHash := nofun
    simp [WithinExpiry, busyRun, hearingRun, memberRun, deliveries, Op.frameHash?, Op.inbound?, hearly, hshort]

/-- A copy a hundred seconds later is: the network only has to hold the frame back. -/
theorem delivered_twice : ¬ ∀ (identity identity' : Identity) (clock clock' : UInt64) (tr tr' : List TimedLabel)
    (s s' r : Node) (l : Label) (f : UInt16 × Bytes) (k : Arr 16), Lts.Run TimedStep (withClock identity clock) tr s →
    NodeStep s l s' → l.sends → f ∈ s.enqueued s' → frameHash f.2 = some k →
    Lts.Run TimedStep (withClock identity' clock') tr' r → (tr'.map (·.1)).Pairwise (· ≤ ·) →
    (∀ l' ∈ tr', ∀ q, l'.2.1.inbound? = some q → ∃ i, (i, q.1) ∈ s'.outbound) →
    (tr'.map fun l => deliveries k l.2).sum ≤ 1 := by
  intro h
  have hsent : teamSend.2 = .ok () := by decide +kernel
  have hstep : NodeStep (member 1) (.sendGroupMessage teamDest [7] (entropy 1), { ret := .sent (.ok ()) }) teamSend.1 := by
    rw [← hsent]
    exact step_sendGroupMessage _ _ _ _
  have hout : (member 1).enqueued teamSend.1 = [(0, teamFrame)] ∧ teamSend.1.outbound = [(0, teamFrame)] := by
    decide +kernel
  have hmem : ((0 : UInt16), teamFrame) ∈ (member 1).enqueued teamSend.1 := hout.1 ▸ List.mem_singleton_self _
  have hk : frameHash ((0 : UInt16), teamFrame).2 = some teamHash := by decide +kernel
  have hmono : ((hearingRun 200).map (·.1)).Pairwise (· ≤ ·) := by simp [hearingRun, memberRun]
  have htwo : ((hearingRun 200).map fun l => deliveries teamHash l.2).sum = 2 := by decide +kernel
  have hone := h _ _ _ _ _ _ _ _ _ _ _ _ (member_run 1) hstep trivial hmem hk
    (hearing_run 200) hmono fun l' hl' q hq => ⟨0, ?_⟩
  · omega
  · simp only [hearingRun, memberRun, List.mem_append, List.mem_cons, List.not_mem_nil, or_false] at hl'
    rcases hl' with (rfl | rfl) | rfl | rfl | rfl <;> simp only [Op.inbound?, reduceCtorEq, Option.some.injEq] at hq
    all_goals
      subst hq
      simp [hout.2]

end

end Reticulum
