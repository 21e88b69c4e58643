import Reticulum.Lib.Network
import Reticulum.Binding
import Reticulum.Replay

/-!
# Forwarding

What a node passes on of the DATA and ANNOUNCE frames that come in, in a
network of any shape. Each copy is one hop further, and the two dedup maps
space the copies of one packet and of one announce.
-/

namespace Reticulum

open Node

section
variable [Crypto]

/-- The packet an operation handles. -/
def Op.packet? (op : Op) : Option Packet := op.inbound?.bind fun s => (Packet.decode s.1).toOption

def announceExpiry (now : Nat) : Nat := satAdd now PATH_EXPIRY_SECS

/-- The destination and the random hash of an announce. -/
def announceKey (p : Packet) : Option (Arr 16 × Arr 10) := do
  let d ← Arr.ofSlice? 16 p.destHash
  let a ← (Announce.parse p.data p.contextFlag).toOption
  return (d, a.randomHash)

namespace Node

/-- A packet that is not for the node itself: an announce, or DATA for a destination of another node. -/
def forwardable (n : Node) (p : Packet) : Bool :=
  p.packetType = ANNOUNCE ∨ p.packetType = DATA ∧ p.destType ≠ LINK ∧
    ¬ (p.destType = PLAIN ∧ p.destHash = Packet.pathRequestDestinationHash.1) ∧
    ∀ l ∈ n.locals, l.destHash.1 ≠ p.destHash

/-- What a call enqueues as forwards of the frame it handles. -/
def forwards (n n' : Node) (op : Op) : List (UInt16 × Bytes) :=
  match op.packet? with
  | some p => if n.forwardable p then n.enqueued n' else []
  | none => []

end Node

/-- A call, with the time, the registered interfaces and what it forwards. -/
structure Transit where
  time : Nat
  label : Label
  interfaces : List UInt16
  forwards : List (UInt16 × Bytes)

namespace Transit

/-- The packet hash of a forwarded DATA packet. -/
def dataHash? (l : Transit) : Option (Arr 16) :=
  if l.forwards = [] then none
  else l.label.1.packet?.bind fun p => if p.packetType = DATA then some p.packetHash else none

/-- The key of a rebroadcast announce. -/
def announceKey? (l : Transit) : Option (Arr 16 × Arr 10) :=
  if l.forwards = [] then none
  else l.label.1.packet?.bind fun p => if p.packetType = ANNOUNCE then announceKey p else none

end Transit

variable [Rmp] [Bzip2]

/-- A step of a node, with what it forwards. -/
structure TransitStep (n : Node) (l : Transit) (n' : Node) : Prop where
  time : l.time = n.nowSecs
  step : NodeStep n l.label n'
  interfaces : l.interfaces = n.interfaces
  forwards : l.forwards = n.forwards n' l.label.1

/-- The calls in order, as the network sees them. -/
def Node.transits (n : Node) : List Op → Option (Node × List Transit)
  | [] => some (n, [])
  | op :: ops =>
    match n.step op with
    | none => none
    | some (n', out) =>
      match transits n' ops with
      | none => none
      | some (m, tr) => some (m, ⟨n.nowSecs, (op, out), n.interfaces, n.forwards n' op⟩ :: tr)

theorem Node.transits_run {n m : Node} {ops : List Op} {tr : List Transit} (h : n.transits ops = some (m, tr)) :
    Lts.Run TransitStep n tr m := by
  induction ops generalizing n tr with
  | nil =>
    cases h
    exact .nil
  | cons op ops ih =>
    unfold transits at h
    split at h
    · cases h
    · rename_i n' out hstep
      split at h
      · cases h
      · rename_i m tr' htail
        cases h
        exact .cons ⟨rfl, hstep, rfl, rfl⟩ (ih htail)

/-! ## One step -/

/-- Every way a step can forward, with what it does to the dedup map of announces. -/
inductive ForwardsCase (n : Node) (l : Label) (n' : Node) : List (UInt16 × Bytes) → Prop
  | idle {k : Option (Arr 16 × Arr 10)} :
    Dedup.Step announceExpiry n.seenAnnounces n.nowSecs k n'.seenAnnounces → ForwardsCase n l n' []
  | data {b : Bytes} {i : UInt16} {rng : Option Entropy} {p q : Packet} {d : Arr 16} {path : PathEntry} :
    l.1.inbound? = some (b, i, rng) → n.Admits b p d → p.packetType = DATA →
    (n.admitted p).Forwards (received p) d i path q →
    Dedup.Step announceExpiry n.seenAnnounces n.nowSecs none n'.seenAnnounces →
    ForwardsCase n l n' [(path.interface, q.encode)]
  | announce {b : Bytes} {i : UInt16} {rng : Option Entropy} {p : Packet} {d : Arr 16} {a : Announce} :
    l.1.inbound? = some (b, i, rng) → n.Admits b p d → p.packetType = ANNOUNCE →
    (n.admitted p).Announces (received p) d a → (n.admitted p).rebroadcasts (received p) →
    Dedup.Step announceExpiry n.seenAnnounces n.nowSecs (some (d, a.randomHash)) n'.seenAnnounces →
    ForwardsCase n l n' ((n.interfaces.filter (· ≠ i)).map fun j => (j, (n.rebroadcast (received p)).encode))

namespace Node

variable {n n' : Node} {p : Packet} {d : Arr 16} {i : UInt16} {out : Node × List Event}

omit [Crypto] [Rmp] [Bzip2] in
theorem maybePrune_seenAnnounces (n : Node) (now : Nat) :
    (n.maybePrune now).seenAnnounces = n.seenAnnounces ∨
      (n.maybePrune now).seenAnnounces = Dedup.sweep now n.seenAnnounces := by
  unfold maybePrune
  split
  · exact .inl rfl
  · exact .inr rfl

theorem DispatchCase.seenAnnounces (h : DispatchCase n p d i out) (hp : p.packetType ≠ ANNOUNCE) :
    out.1.seenAnnounces = n.seenAnnounces := by
  cases h with
  | ignored => rfl
  | pathRequest =>
    obtain ⟨_, _, heq, -⟩ := handlePathRequest_cases n p i
    rw [heq]
    rfl
  | linkRequest _ hr => cases hr <;> rfl
  | linkProof _ _ _ hr => cases hr <;> rfl
  | deliveryProof _ hr => cases hr <;> rfl
  | resourceProof _ _ _ hr => cases hr <;> rfl
  | linkData _ _ hr => exact hr.sameRoutes.seenAnnounces
  | announce hk => exact absurd hk hp
  | data _ _ _ hr =>
    cases hr with
    | relayed =>
      have hf := forwardData_cases n p d i
      generalize n.forwardData p d i = m at hf
      cases hf <;> rfl
    | _ => rfl

omit [Rmp] [Bzip2] in
theorem forwardable_data (hf : n.forwardable p = true) (hp : p.packetType = DATA) (hd : p.destHash = d.1) :
    p.destType ≠ LINK ∧ ¬ (p.destType = PLAIN ∧ d = Packet.pathRequestDestinationHash) ∧
      n.locals.find? (·.destHash = d) = none := by
  simp only [forwardable, hp, show ¬ DATA = ANNOUNCE by decide, false_or, true_and, decide_eq_true_eq] at hf
  obtain ⟨hlink, hpath, hlocal⟩ := hf
  refine ⟨hlink, fun h => hpath ⟨h.1, hd.trans (congrArg Subtype.val h.2)⟩, ?_⟩
  rw [List.find?_eq_none]
  intro l hl h
  exact hlocal l hl (hd ▸ congrArg Subtype.val (of_decide_eq_true h))

omit [Rmp] [Bzip2] in
theorem forwards_eq_nil {op : Op} (h : n'.outbound = n.outbound) : n.forwards n' op = [] := by
  have hnone : n.enqueued n' = [] := by simp [enqueued, h]
  unfold forwards
  split
  · split
    · exact hnone
    · rfl
  · rfl

end Node

/-- What an admitted packet makes of the dedup map of announces and of the queue. -/
theorem forwardsCase_of_admits {n n' : Node} {l : Label} {b : Bytes} {i : UInt16} {rng : Option Entropy} {p : Packet}
    {d : Arr 16} {events : List Event} (hop : l.1.inbound? = some (b, i, rng)) (ha : n.Admits b p d)
    (h : DispatchCase (n.admitted p) (received p) d i (n', events)) : ForwardsCase n l n' (n.forwards n' l.1) := by
  have hpacket : l.1.packet? = some p := by simp [Op.packet?, hop, ha.decoded, Except.toOption]
  have hout : (n.admitted p).outbound = n.outbound := by simp
  -- no announce is taken: the map is as the admission leaves it
  have hkeep {m : Node} (hm : m.seenAnnounces = (n.admitted p).seenAnnounces) :
      Dedup.Step announceExpiry n.seenAnnounces n.nowSecs none m.seenAnnounces := by
    rw [hm, admitted_seenAnnounces]
    exact .idle (n.maybePrune_seenAnnounces n.nowSecs)
  have htake {m : Node} {a : Announce} (hann : (n.admitted p).Announces (received p) d a)
      (hm : m.seenAnnounces = ((n.admitted p).noted d a).seenAnnounces) :
      Dedup.Step announceExpiry n.seenAnnounces n.nowSecs (some (d, a.randomHash)) m.seenAnnounces := by
    rw [hm, noted_seenAnnounces, nowSecs_admitted]
    have hs := n.maybePrune_seenAnnounces n.nowSecs
    rw [← admitted_seenAnnounces n p] at hs
    exact .take hs (Std.ExtTreeMap.getElem?_eq_none_of_contains_eq_false hann.unseen)
  have hforwards (hf : n.forwardable p = true) : n.forwards n' l.1 = n.enqueued n' := by
    simp only [Node.forwards, hpacket, hf, if_true]
  -- a packet of another kind is forwarded by no handler
  have hother (hk : p.packetType ≠ ANNOUNCE) (hf : ¬ n.forwardable p = true) : ForwardsCase n l n' (n.forwards n' l.1) := by
    rw [show n.forwards n' l.1 = [] by simp only [Node.forwards, hpacket, hf, if_false, Bool.false_eq_true]]
    exact .idle (hkeep (h.seenAnnounces hk))
  have hquiet {k : Option (Arr 16 × Arr 10)} (ho : n'.outbound = n.outbound)
      (hs : Dedup.Step announceExpiry n.seenAnnounces n.nowSecs k n'.seenAnnounces) :
      ForwardsCase n l n' (n.forwards n' l.1) := by
    rw [forwards_eq_nil ho]
    exact .idle hs
  generalize hres : (n', events) = res at h
  have hkind (hk : p.packetType ≠ ANNOUNCE) (hd : p.packetType = DATA → p.destType = LINK ∨
      p.destType = PLAIN ∧ d = Packet.pathRequestDestinationHash) : ForwardsCase n l n' (n.forwards n' l.1) := by
    refine hother hk fun hf => ?_
    by_cases hdata : p.packetType = DATA
    · obtain ⟨hlink, hpath, -⟩ := forwardable_data hf hdata ha.dest
      exact (hd hdata).elim hlink hpath
    · simp [forwardable, hk, hdata] at hf
  cases h with
  | ignored => cases hres; exact hquiet hout (hkeep rfl)
  | pathRequest hk ht hd =>
    exact hkind (fun h => absurd (h.symm.trans hk) (by decide)) fun _ => .inr ⟨ht, hd⟩
  | linkRequest hk =>
    exact hkind (fun h => absurd (h.symm.trans hk) (by decide)) fun h => absurd (h.symm.trans hk) (by decide)
  | linkProof hk | deliveryProof hk | resourceProof hk =>
    exact hkind (fun h => absurd (h.symm.trans hk) (by decide)) fun h => absurd (h.symm.trans hk) (by decide)
  | linkData hk ht =>
    exact hkind (fun h => absurd (h.symm.trans hk) (by decide)) fun _ => .inl ht
  | announce hk hr =>
    cases hr with
    | ignored | badSignature => cases hres; exact hquiet hout (hkeep rfl)
    | notBetter hann => cases hres; exact hquiet hout (htake hann rfl)
    | accepted hann =>
      cases hres
      by_cases hr : (n.admitted p).rebroadcasts (received p)
      · have hf : n.forwardable p = true := by simp [forwardable, show p.packetType = ANNOUNCE from hk]
        have hcopies : ((n.admitted p).rebroadcastCopies (received p) i).map (fun s => (s.1, s.2.encode)) =
            (n.interfaces.filter (· ≠ i)).map fun j => (j, (n.rebroadcast (received p)).encode) := by
          simp [rebroadcastCopies, hr, rebroadcast]
        rw [hforwards hf, enqueued_emit (by exact hout), hcopies]
        exact .announce hop ha hk hann hr (htake hann rfl)
      · refine hquiet ?_ (htake hann rfl)
        rw [rebroadcastCopies, if_neg hr, emit_nil]
        exact hout
  | data hk hlink hpath hr =>
    cases hr with
    | ignored | badToken | message => cases hres; exact hquiet hout (hkeep rfl)
    | provenMessage _ hl =>
      refine hother (fun h => absurd (h.symm.trans hk) (by decide)) fun hf => ?_
      have hnone := (forwardable_data hf hk ha.dest).2.2
      rw [show (n.admitted p).locals = n.locals by simp, hnone] at hl
      cases hl
    | relayed =>
      by_cases hf : n.forwardable p = true
      · have hfw := forwardData_cases (n.admitted p) (received p) d i
        rw [← (Prod.mk.inj hres).1] at hfw
        clear hres
        cases hfw with
        | dropped | noRoute => exact hquiet hout (hkeep rfl)
        | forwarded hfwd =>
          rw [hforwards hf, enqueued_emit (by exact hout)]
          exact .data hop ha hk hfwd (hkeep rfl)
      · exact hother (fun h => absurd (h.symm.trans hk) (by decide)) hf

theorem NodeStep.forwardsCase {n n' : Node} {l : Label} (h : NodeStep n l n') :
    ForwardsCase n l n' (n.forwards n' l.1) := by
  cases hop : l.1.inbound? with
  | none =>
    have hnil : n.forwards n' l.1 = [] := by simp [Node.forwards, Op.packet?, hop]
    have hseen : n'.seenAnnounces = n.seenAnnounces := congrArg Memory.seenAnnounces (h.memory_of_local hop)
    rw [hnil]
    exact .idle (.idle (.inl hseen))
  | some s =>
    obtain ⟨b, i, rng⟩ := s
    have hc := n.handleInboundInner_cases b i rng
    rw [h.inbound hop] at hc
    generalize hout : (n', l.2.events) = out at hc
    cases hc with
    | malformed =>
      obtain ⟨rfl, -⟩ := Prod.mk.inj hout
      rw [forwards_eq_nil rfl]
      exact .idle .keep
    | duplicate =>
      obtain ⟨rfl, -⟩ := Prod.mk.inj hout
      rw [forwards_eq_nil (by simp)]
      exact .idle (.idle (n.maybePrune_seenAnnounces n.nowSecs))
    | admitted ha hd =>
      subst hout
      exact forwardsCase_of_admits hop ha hd

theorem TransitStep.forwardsCase {n n' : Node} {l : Transit} (h : TransitStep n l n') :
    ForwardsCase n l.label n' l.forwards := h.forwards ▸ h.step.forwardsCase

/-- What a forward has in common with the packet that came in, and where it goes. -/
structure ProperForward (p : Packet) (i j : UInt16) (q : Packet) : Prop where
  dest : q.destHash = p.destHash
  context : q.context = p.context
  data : q.data = p.data
  hops : q.hops.toNat = p.hops.toNat + 1
  limit : q.hops.toNat ≤ 127
  away : j ≠ i

omit [Crypto] [Rmp] [Bzip2] in
theorem received_hops {p : Packet} (h : p.hops < PATHFINDER_MAX_HOPS) : (received p).hops.toNat = p.hops.toNat + 1 := by
  have hlt : p.hops.toNat < 128 := by simpa [UInt8.lt_iff_toNat_lt, PATHFINDER_MAX_HOPS] using h
  simp only [received, UInt8.toNat_add, UInt8.toNat_one]
  omega

omit [Rmp] [Bzip2] in
theorem properForward {n : Node} {b : Bytes} {p q : Packet} {d : Arr 16} {i j : UInt16} (ha : n.Admits b p d)
    (hs : SameContent (received p) q) (hops : q.hops = (received p).hops)
    (hlt : (received p).hops < PATHFINDER_MAX_HOPS) (hj : j ≠ i) : ProperForward p i j q := by
  have hlimit : (received p).hops.toNat < 128 := by simpa [UInt8.lt_iff_toNat_lt, PATHFINDER_MAX_HOPS] using hlt
  refine ⟨hs.destHash, hs.context, hs.data, ?_, ?_, hj⟩
  · rw [hops, received_hops ha.hops]
  · rw [hops]
    omega

omit [Rmp] [Bzip2] in
/-- Every forward is one hop further and goes away from where the packet came from. -/
theorem ForwardsCase.proper {n n' : Node} {l : Label} {fs : List (UInt16 × Bytes)} (h : ForwardsCase n l n' fs)
    {f : UInt16 × Bytes} (hf : f ∈ fs) : ∃ b i rng p q, l.1.inbound? = some (b, i, rng) ∧ Packet.decode b = .ok p ∧
      Packet.decode f.2 = .ok q ∧ ProperForward p i f.1 q := by
  cases h with
  | idle => cases hf
  | @data b i rng p q d path hop ha _ hfw =>
    rw [List.mem_singleton.mp hf]
    have hw := received_wellFormed (Packet.decode_wellFormed ha.decoded)
    obtain ⟨hs, hops⟩ := forwardPacket_sameContent hfw.forwarded
    exact ⟨b, i, rng, p, q, hop, ha.decoded, Packet.decode_encode (forwardPacket_wellFormed hw hfw.header hfw.forwarded),
      properForward ha hs hops hfw.hops hfw.away⟩
  | @announce b i rng p d a hop ha _ _ hr =>
    obtain ⟨j, hj, rfl⟩ := List.mem_map.mp hf
    have hw := received_wellFormed (Packet.decode_wellFormed ha.decoded)
    refine ⟨b, i, rng, p, _, hop, ha.decoded, Packet.decode_encode (hw.toHeader2 _), ?_⟩
    exact properForward ha ⟨rfl, rfl, rfl, rfl, rfl⟩ rfl hr.2.1 (by simpa using (List.mem_filter.mp hj).2)

/-! ## Marks -/

namespace Transit

variable {l : Transit}

omit [Rmp] [Bzip2] in
theorem dataHash?_eq_some {k : Arr 16} : l.dataHash? = some k ↔
    l.forwards ≠ [] ∧ ∃ p, l.label.1.packet? = some p ∧ p.packetType = DATA ∧ p.packetHash = k := by
  unfold dataHash?
  split
  · simp [*]
  · simp [*, Option.bind_eq_some_iff]

omit [Crypto] [Rmp] [Bzip2] in
theorem announceKey?_eq_some {k : Arr 16 × Arr 10} : l.announceKey? = some k ↔
    l.forwards ≠ [] ∧ ∃ p, l.label.1.packet? = some p ∧ p.packetType = ANNOUNCE ∧ announceKey p = some k := by
  unfold announceKey?
  split
  · simp [*]
  · simp [*, Option.bind_eq_some_iff]

end Transit

omit [Rmp] [Bzip2] in
theorem packet?_of_admits {n : Node} {op : Op} {b : Bytes} {i : UInt16} {rng : Option Entropy} {p : Packet} {d : Arr 16}
    (hop : op.inbound? = some (b, i, rng)) (ha : n.Admits b p d) : op.packet? = some p := by
  simp [Op.packet?, hop, ha.decoded, Except.toOption]

/-- A forward of DATA took the packet hash, along a route that is still live. -/
theorem TransitStep.data {n n' : Node} {l : Transit} (h : TransitStep n l n') {k : Arr 16} (hk : l.dataHash? = some k) :
    ∃ b i rng p d path q, l.label.1.inbound? = some (b, i, rng) ∧ n.Admits b p d ∧ p.packetHash = k ∧
      (n.admitted p).Forwards (received p) d i path q ∧ l.forwards = [(path.interface, q.encode)] := by
  obtain ⟨hne, p, hp, hkind, rfl⟩ := Transit.dataHash?_eq_some.mp hk
  have hc := h.forwardsCase
  generalize hfs : l.forwards = fs at hc
  cases hc with
  | idle => exact absurd hfs hne
  | data hop ha _ hfw =>
    cases (packet?_of_admits hop ha).symm.trans hp
    exact ⟨_, _, _, _, _, _, _, hop, ha, rfl, hfw, rfl⟩
  | announce hop ha hann =>
    cases (packet?_of_admits hop ha).symm.trans hp
    exact absurd (hkind.symm.trans hann) (by decide)

theorem TransitStep.announce {n n' : Node} {l : Transit} (h : TransitStep n l n') {k : Arr 16 × Arr 10}
    (hk : l.announceKey? = some k) :
    Dedup.Step announceExpiry n.seenAnnounces n.nowSecs (some k) n'.seenAnnounces ∧
      ∃ i q, l.forwards = (n.interfaces.filter (· ≠ i)).map fun j => (j, Packet.encode q) := by
  obtain ⟨hne, p, hp, hkind, hkey⟩ := Transit.announceKey?_eq_some.mp hk
  have hc := h.forwardsCase
  generalize hfs : l.forwards = fs at hc
  cases hc with
  | idle => exact absurd hfs hne
  | data hop ha hdata =>
    cases (packet?_of_admits hop ha).symm.trans hp
    exact absurd (hdata.symm.trans hkind) (by decide)
  | @announce b i rng p' d a hop ha _ hann _ hs =>
    cases (packet?_of_admits hop ha).symm.trans hp
    have hparse : Announce.parse p.data p.contextFlag = .ok a := hann.parsed
    have hd := Arr.ofSlice?_eq_some.mpr ha.dest
    obtain rfl : (d, a.randomHash) = k := by simpa [announceKey, hd, hparse, Except.toOption] using hkey
    exact ⟨hs, i, _, rfl⟩

/-! ## Runs of one node -/

theorem filters_packets : Dedup.Filters TransitStep packetExpiry Node.seenPackets Transit.time Transit.dataHash? := by
  intro n l n' h
  cases hop : l.label.1.inbound? with
  | none =>
    refine ⟨none, .idle (.inl (congrArg Memory.seenPackets (h.step.memory_of_local hop))), fun k hk => ?_⟩
    obtain ⟨b, i, rng, _, _, _, _, hop', -⟩ := h.data hk
    rw [hop] at hop'
    cases hop'
  | some s =>
    obtain ⟨b, i, rng⟩ := s
    refine ⟨n.takenHash b, h.time ▸ h.step.seenPackets_of_inbound hop, fun k hk => ?_⟩
    obtain ⟨b', i', rng', p, d, _, _, hop', ha, rfl, -⟩ := h.data hk
    cases hop.symm.trans hop'
    exact ha.takenHash

theorem filters_announces :
    Dedup.Filters TransitStep announceExpiry Node.seenAnnounces Transit.time Transit.announceKey? := by
  intro n l n' h
  rw [h.time]
  cases hk : l.announceKey? with
  | none =>
    have hc := h.forwardsCase
    generalize l.forwards = fs at hc
    cases hc with
    | idle hs | announce _ _ _ _ _ hs | data _ _ _ _ hs => exact ⟨_, hs, fun k hk => nomatch hk⟩
  | some k => exact ⟨_, (h.announce hk).1, fun k' hk' => hk'⟩

theorem NodeStep.interfaces_nodup {n n' : Node} {l : Label} (h : NodeStep n l n') (hn : n.interfaces.Nodup) :
    n'.interfaces.Nodup := by
  cases h.cases with
  | config _ h => exact h.interfaces hn
  | announce h => cases h <;> exact hn
  | sent _ h => rw [h.eq]; exact hn
  | establish h => cases h <;> exact hn
  | linkSend h => cases h <;> exact hn
  | sendResource h => cases h <;> exact hn
  | close h => cases h <;> exact hn
  | tick => rw [(tickInner_sameRoutes _ _).interfaces]; exact hn
  | inbound _ h =>
    cases h with
    | malformed => exact hn
    | duplicate => simpa using hn
    | admitted _ h => rw [h.sameConfig.interfaces]; simpa using hn

/-- A frame that a call forwards, and the packet it comes from. -/
def IsForward (l : Transit) (f : UInt16 × Bytes) : Prop :=
  ∃ b i rng p q, l.label.1.inbound? = some (b, i, rng) ∧ Packet.decode b = .ok p ∧ Packet.decode f.2 = .ok q ∧
    ProperForward p i f.1 q

/-- The history of what a node forwards. -/
structure Forwarded (tr : List Transit) (n : Node) : Prop where
  interfaces : n.interfaces.Nodup
  expire : ∀ d e, n.paths.get d = some e → e.expiresAt ≤ U64_MAX
  proper : ∀ l ∈ tr, ∀ f ∈ l.forwards, IsForward l f
  data : ∀ l ∈ tr, ∀ k, l.dataHash? = some k → l.forwards.length = 1 ∧ l.time < U64_MAX
  announce : ∀ l ∈ tr, ∀ k, l.announceKey? = some k →
    (l.forwards.map (·.1)).Nodup ∧ ∀ f ∈ l.forwards, f.1 ∈ l.interfaces

theorem Forwarded.step {tr : List Transit} {l : Transit} {n n' : Node} (hi : Forwarded tr n) (h : TransitStep n l n') :
    Forwarded (tr ++ [l]) n' := by
  have hmem {P : Transit → Prop} (hold : ∀ l ∈ tr, P l) (hnew : P l) : ∀ l' ∈ tr ++ [l], P l' := by
    intro l' hl'
    rcases List.mem_append.mp hl' with hl' | hl'
    · exact hold l' hl'
    · exact List.mem_singleton.mp hl' ▸ hnew
  refine ⟨h.step.interfaces_nodup hi.interfaces, fun d e he => ?_, hmem hi.proper fun f hf => h.forwardsCase.proper hf,
    hmem hi.data fun k hk => ?_, hmem hi.announce fun k hk => ?_⟩
  · rcases h.step.path he with hold | ⟨b, i, rng, p, a, -, -, hnew⟩
    · exact hi.expire d e hold
    · have hexp := congrArg PathEntry.expiresAt hnew
      dsimp only [announcedEntry, satAdd] at hexp
      rw [hexp]
      exact Nat.min_le_right ..
  · obtain ⟨b, i, rng, p, d, path, q, -, -, -, hfw, hfs⟩ := h.data hk
    have hlive := PathTable.get_of_get_prune hfw.route
    simp only [nowSecs_admitted] at hlive
    rw [h.time, hfs]
    exact ⟨rfl, Nat.lt_of_lt_of_le hlive.2 (hi.expire d path (by simpa using hlive.1))⟩
  · obtain ⟨i, q, hfs⟩ := (h.announce hk).2
    rw [hfs, h.interfaces, List.map_map]
    have hfst : ((·.1) : UInt16 × Bytes → UInt16) ∘ (fun j => (j, q.encode)) = id := rfl
    rw [hfst, List.map_id]
    refine ⟨hi.interfaces.filter _, fun f hf => ?_⟩
    obtain ⟨j, hj, rfl⟩ := List.mem_map.mp hf
    exact (List.mem_filter.mp hj).1

theorem forwarded_of_run {identity : Identity} {clock : UInt64} {tr : List Transit} {n : Node}
    (h : Lts.Run TransitStep (withClock identity clock) tr n) : Forwarded tr n := by
  refine h.history (I := Forwarded) ?_ fun _ _ _ _ hi hst => hi.step hst
  refine ⟨.nil, fun d e he => ?_, by simp, by simp, by simp⟩
  simp [withClock] at he

/-! ## Networks -/

/-- The second call handles the frame that the first one enqueued. -/
def Follows (x y : Transit × UInt16 × Bytes) : Prop := ∃ i rng, y.1.label.1.inbound? = some (x.2.2, i, rng)

omit [Crypto] [Rmp] [Bzip2] in
/-- Along a chain of forwards the hop count rises to at most 127. -/
theorem hops_of_chain {c : List (Transit × UInt16 × Bytes)} {x : Transit × UInt16 × Bytes}
    (hc : (x :: c).IsChain Follows) (hf : ∀ y ∈ x :: c, IsForward y.1 y.2) {q : Packet}
    (hq : Packet.decode x.2.2 = .ok q) : q.hops.toNat + c.length ≤ 127 := by
  induction c generalizing x q with
  | nil =>
    obtain ⟨_, _, _, _, q', -, -, hq', hp⟩ := hf x (List.mem_singleton_self x)
    cases hq.symm.trans hq'
    exact hp.limit
  | cons y c ih =>
    rw [List.isChain_cons_cons] at hc
    obtain ⟨i', rng', hfollow⟩ := hc.1
    obtain ⟨b, i, rng, p, q', hop, hdec, hq', hp⟩ := hf y (by simp)
    cases hfollow.symm.trans hop
    cases hq.symm.trans hdec
    have hlen := ih hc.2 (fun z hz => hf z (List.mem_cons_of_mem _ hz)) hq'
    have hhops := hp.hops
    rw [List.length_cons]
    omega

/-- What forwarding does in a network. -/
structure LoopFree {ν : Type} (tr : List (ν × Transit)) : Prop where
  proper : ∀ l ∈ tr, ∀ f ∈ l.2.forwards, IsForward l.2 f
  dataAlone : ∀ l ∈ tr, ∀ k, l.2.dataHash? = some k → l.2.forwards.length = 1
  dataSpaced : tr.Pairwise fun l l' => l.1 = l'.1 → ∀ k, l.2.dataHash? = some k → l'.2.dataHash? = some k →
    l.2.time + 60 ≤ l'.2.time
  announceCopies : ∀ l ∈ tr, ∀ k, l.2.announceKey? = some k →
    (l.2.forwards.map (·.1)).Nodup ∧ ∀ f ∈ l.2.forwards, f.1 ∈ l.2.interfaces
  announceSpaced : tr.Pairwise fun l l' => l.1 = l'.1 → ∀ k, l.2.announceKey? = some k → l'.2.announceKey? = some k →
    l'.2.time < U64_MAX → l.2.time + 604800 ≤ l'.2.time
  chains : ∀ c : List (Transit × UInt16 × Bytes), (∀ x ∈ c, x.2 ∈ x.1.forwards ∧ ∃ v, (v, x.1) ∈ tr) →
    c.IsChain Follows → c.length ≤ 128

theorem forwarding_loop_free {ν : Type} [DecidableEq ν] {identity : ν → Identity} {clock : ν → UInt64}
    {tr : List (ν × Transit)} {s : ν → Node}
    (h : Lts.Run (Lts.Interleave TransitStep) (fun v => withClock (identity v) (clock v)) tr s)
    (hclock : tr.Pairwise fun l l' => l.1 = l'.1 → l.2.time ≤ l'.2.time) : LoopFree tr := by
  have hrun (v : ν) := h.project v
  have hinv (v : ν) := forwarded_of_run (hrun v)
  have hmono (v : ν) : (Lts.own v tr).Pairwise fun l l' => l.time ≤ l'.time := Lts.own_pairwise hclock v
  have hown {l : ν × Transit} (hl : l ∈ tr) : l.2 ∈ Lts.own l.1 tr := Lts.mem_own.mpr hl
  have hproper : ∀ l ∈ tr, ∀ f ∈ l.2.forwards, IsForward l.2 f := fun l hl => (hinv l.1).proper l.2 (hown hl)
  refine ⟨hproper, fun l hl k hk => ((hinv l.1).data l.2 (hown hl) k hk).1, ?_,
    fun l hl => (hinv l.1).announce l.2 (hown hl), ?_, fun c hc hchain => ?_⟩
  · refine Lts.pairwise_own (R := fun (l l' : Transit) => ∀ k, l.dataHash? = some k → l'.dataHash? = some k →
      l.time + 60 ≤ l'.time) fun v => ?_
    refine (filters_packets.spaced (hrun v) (hmono v)).imp_of_mem fun {l l'} _ hl' hsp k hk hk' => ?_
    have hlt := ((hinv v).data l' hl' k hk').2
    have hle := hsp k hk hk'
    simp only [packetExpiry, satAdd, PACKET_HASH_TTL_SECS] at hle
    omega
  · refine Lts.pairwise_own (R := fun (l l' : Transit) => ∀ k, l.announceKey? = some k → l'.announceKey? = some k →
      l'.time < U64_MAX → l.time + 604800 ≤ l'.time) fun v => ?_
    refine (filters_announces.spaced (hrun v) (hmono v)).imp fun {l l'} hsp k hk hk' hlt => ?_
    have hle := hsp k hk hk'
    simp only [announceExpiry, satAdd, PATH_EXPIRY_SECS] at hle
    omega
  · cases c with
    | nil => exact Nat.zero_le _
    | cons x c =>
      have hf : ∀ y ∈ x :: c, IsForward y.1 y.2 := fun y hy => by
        obtain ⟨hmem, v, hv⟩ := hc y hy
        exact hproper (v, y.1) hv y.2 hmem
      obtain ⟨_, _, _, _, q, -, -, hq, -⟩ := hf x List.mem_cons_self
      have hlen := hops_of_chain hchain hf hq
      rw [List.length_cons]
      omega

end

/-! ## A relay that hears an announce again -/

section
open Sample

/-- The relay hears an announce, and again when its clock reads `now`. -/
def relayOps (now : UInt64) : List Op :=
  [.enableTransport true, .registerInterface 0, .registerInterface 1,
    .handleInbound (announceBy (identity 3)).encode 0, .setClock now,
    .handleInbound (announceBy (identity 3)).encode 0]

def relayFrom (clock now : UInt64) : Option (Node × List Transit) := (withClock (identity 5) clock).transits (relayOps now)

def lastSecond : UInt64 := 0xFFFFFFFFFFFFFFFF

theorem forwarding_loop_free_relay : ∃ tr : List (Bool × Transit), LoopFree tr ∧
    (tr.map fun l => l.2.forwards.length) = [0, 0, 0, 1, 0, 0] := by
  obtain ⟨⟨n, tr⟩, hrun⟩ : ∃ r, relayFrom 100 200 = some r := Option.isSome_iff_exists.mp (by decide +kernel)
  have hlen : (relayFrom 100 200).map (fun r => r.2.map fun l => l.forwards.length) = some [0, 0, 0, 1, 0, 0] := by
    decide +kernel
  have htimes : (relayFrom 100 200).map (fun r => decide ((r.2.map (·.time)).Pairwise (· ≤ ·))) = some true := by
    decide +kernel
  simp only [hrun, Option.map_some, Option.some.injEq, decide_eq_true_eq, List.pairwise_map] at hlen htimes
  refine ⟨tr.map fun l => (true, l), ?_, by rw [List.map_map]; exact hlen⟩
  have hnet := Lts.Run.lift (s := fun _ : Bool => withClock (identity 5) 100) (v := true) (transits_run hrun)
  exact forwarding_loop_free hnet (by simpa [List.pairwise_map] using htimes)

/-- At the last reading of the clock the announce is forgotten early, and rebroadcast again. -/
theorem rebroadcast_twice : ¬ ∀ (ν : Type) (_ : DecidableEq ν) (identity : ν → Identity) (clock : ν → UInt64)
    (tr : List (ν × Transit)) (s : ν → Node),
    Lts.Run (Lts.Interleave TransitStep) (fun v => withClock (identity v) (clock v)) tr s →
    (tr.Pairwise fun l l' => l.1 = l'.1 → l.2.time ≤ l'.2.time) →
    tr.Pairwise fun l l' => l.1 = l'.1 → ∀ k, l.2.announceKey? = some k → l'.2.announceKey? = some k →
      l.2.time + 604800 ≤ l'.2.time := by
  intro h
  obtain ⟨⟨n, tr⟩, hrun⟩ : ∃ r, relayFrom (lastSecond - 100) lastSecond = some r :=
    Option.isSome_iff_exists.mp (by decide +kernel)
  have htimes : (relayFrom (lastSecond - 100) lastSecond).map
      (fun r => decide ((r.2.map (·.time)).Pairwise (· ≤ ·))) = some true := by decide +kernel
  have htwice : (relayFrom (lastSecond - 100) lastSecond).map (fun r =>
      decide (r.2.Pairwise fun l l' => l.announceKey? ≠ none → l.announceKey? = l'.announceKey? →
        l.time + 604800 ≤ l'.time)) = some false := by decide +kernel
  simp only [hrun, Option.map_some, Option.some.injEq, decide_eq_true_eq, decide_eq_false_iff_not,
    List.pairwise_map] at htimes htwice
  have hnet := Lts.Run.lift (s := fun _ : Unit => withClock (identity 5) (lastSecond - 100)) (v := ()) (transits_run hrun)
  have hspaced := h Unit inferInstance _ _ _ _ hnet (by simpa [List.pairwise_map] using htimes)
  refine htwice ((List.pairwise_map.mp hspaced).imp fun {l l'} hsp hne heq => ?_)
  obtain ⟨k, hk⟩ := Option.ne_none_iff_exists'.mp hne
  exact hsp rfl k hk (heq ▸ hk)

end

end Reticulum
