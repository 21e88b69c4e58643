import Reticulum.Forwarding
import Reticulum.Overheard

/-!
# Amortised pruning

A node sweeps its dedup maps at most once a second. It is compared with one
that sweeps them on every inbound frame: between two sweeps at one reading of
the clock nothing expires, so the sweep that is left out would remove nothing.
-/

namespace Reticulum

open Node

/-! ## Memories -/

namespace Memory

/-- A sweep of all three maps. -/
def sweep (M : Memory) (now : Nat) : Memory where
  lastPrune := now
  seenPackets := Dedup.sweep now M.seenPackets
  seenAnnounces := Dedup.sweep now M.seenAnnounces
  seenPathRequests := Dedup.sweep now M.seenPathRequests

/-- Nothing remembered expires by the time `t`. -/
structure Outlives (M : Memory) (t : Nat) : Prop where
  packets : ∀ (k : Arr 16) e, M.seenPackets[k]? = some e → t < e
  announces : ∀ (k : Arr 16 × Arr 10) e, M.seenAnnounces[k]? = some e → t < e
  pathRequests : ∀ (k : Arr 16 × Arr 16) e, M.seenPathRequests[k]? = some e → t < e

/-- The last sweep is not in the future, and nothing had expired at it. -/
structure Fresh (M : Memory) (now : Nat) : Prop where
  lastPrune : M.lastPrune ≤ now
  outlives : M.lastPrune ≠ 0 → M.Outlives M.lastPrune

variable {M : Memory} {now t : Nat}

theorem Outlives.sweep_eq (h : M.Outlives now) (hl : M.lastPrune = now) : M.sweep now = M := by
  obtain ⟨_, _, _, _⟩ := M
  subst hl
  simp only [sweep, Dedup.sweep_eq_self h.packets, Dedup.sweep_eq_self h.announces,
    Dedup.sweep_eq_self h.pathRequests]

theorem sweep_outlives (M : Memory) (now : Nat) : (M.sweep now).Outlives now :=
  ⟨fun _ _ h => (Dedup.getElem?_of_sweep h).2, fun _ _ h => (Dedup.getElem?_of_sweep h).2,
    fun _ _ h => (Dedup.getElem?_of_sweep h).2⟩

/-- The sweep that `maybe_prune` leaves out would change nothing. -/
theorem Fresh.prune_eq (h : M.Fresh now) : M.prune now = M.sweep now := by
  unfold prune
  split
  · rename_i hskip
    have hl : M.lastPrune = now := by
      have := h.lastPrune
      omega
    exact ((hl ▸ h.outlives hskip.1).sweep_eq hl).symm
  · rfl

theorem sweep_sweep (M : Memory) (h : t ≤ now) : (M.sweep t).sweep now = M.sweep now := by
  simp only [sweep, Dedup.sweep_sweep h]

theorem Fresh.sweep (M : Memory) (now : Nat) : (M.sweep now).Fresh now :=
  ⟨Nat.le_refl _, fun _ => M.sweep_outlives now⟩

theorem Fresh.later (h : M.Fresh t) (hle : t ≤ now) : M.Fresh now := ⟨h.lastPrune.trans hle, h.outlives⟩

end Memory

/-! ## What a frame puts into the maps -/

namespace Node

theorem lt_satAdd {now c : Nat} (h : now < U64_MAX) (hc : 0 < c) : now < satAdd now c := by
  unfold satAdd
  omega

section
variable [Crypto]

/-- A path request is noted with the expiry of the moment, or not at all. -/
theorem handlePathRequest_seen (n : Node) (p : Packet) (i : UInt16) :
    (n.handlePathRequest p i).seenPathRequests = n.seenPathRequests ∨
      ∃ k, (n.handlePathRequest p i).seenPathRequests = n.seenPathRequests.insert k (satAdd n.nowSecs 15) := by
  unfold handlePathRequest
  split
  · exact .inl rfl
  · rename_i target _ tag _
    dsimp only
    split
    · exact .inl rfl
    · right
      refine ⟨(target, tag), ?_⟩
      split
      · rfl
      · split
        · rfl
        · split <;> rfl

variable [Rmp] [Bzip2] {n : Node} {p : Packet} {d : Arr 16} {i : UInt16} {out : Node × List Event}

theorem DispatchCase.seenPathRequests (h : DispatchCase n p d i out) : out.1.seenPathRequests = n.seenPathRequests ∨
    ∃ k, out.1.seenPathRequests = n.seenPathRequests.insert k (satAdd n.nowSecs 15) := by
  cases h with
  | ignored => exact .inl rfl
  | pathRequest => exact handlePathRequest_seen n p i
  | linkRequest _ hr => cases hr <;> exact .inl rfl
  | linkProof _ _ _ hr => cases hr <;> exact .inl rfl
  | deliveryProof _ hr => cases hr <;> exact .inl rfl
  | resourceProof _ _ _ hr => cases hr <;> exact .inl rfl
  | linkData _ _ hr => exact .inl hr.sameRoutes.seenPathRequests
  | announce _ hr => cases hr <;> exact .inl rfl
  | data _ _ _ hr =>
    cases hr with
    | relayed =>
      have hf := forwardData_cases n p d i
      generalize n.forwardData p d i = m at hf
      cases hf <;> exact .inl rfl
    | _ => exact .inl rfl

theorem DispatchCase.seenAnnounces_cases (h : DispatchCase n p d i out) : out.1.seenAnnounces = n.seenAnnounces ∨
    ∃ k, out.1.seenAnnounces = n.seenAnnounces.insert k (announceExpiry n.nowSecs) := by
  by_cases hp : p.packetType = ANNOUNCE
  · cases h with
    | announce _ hr =>
      cases hr with
      | ignored | badSignature => exact .inl rfl
      | notBetter | accepted => exact .inr ⟨_, rfl⟩
    | ignored => exact .inl rfl
    | linkRequest hk | linkProof hk | deliveryProof hk | resourceProof hk | linkData hk | pathRequest hk | data hk =>
      exact absurd (hp.symm.trans hk) (by decide)
  · exact .inl (h.seenAnnounces hp)

theorem DispatchCase.outlives (h : DispatchCase n p d i out) (hnow : n.nowSecs < U64_MAX)
    (ho : n.memory.Outlives n.nowSecs) : out.1.memory.Outlives n.nowSecs := by
  constructor
  · rw [show out.1.memory.seenPackets = n.seenPackets from h.sameConfig.seenPackets]
    exact ho.packets
  · intro k e he
    have he : out.1.seenAnnounces[k]? = some e := he
    rcases h.seenAnnounces_cases with hs | ⟨k', hs⟩
    · rw [hs] at he
      exact ho.announces k e he
    · rw [hs] at he
      by_cases hk : k' = k
      · subst hk
        rw [Std.ExtTreeMap.getElem?_insert_self] at he
        exact Option.some.inj he ▸ lt_satAdd hnow (by decide)
      · rw [BTreeMap.getElem?_insert_ne hk] at he
        exact ho.announces k e he
  · intro k e he
    have he : out.1.seenPathRequests[k]? = some e := he
    rcases h.seenPathRequests with hs | ⟨k', hs⟩
    · rw [hs] at he
      exact ho.pathRequests k e he
    · rw [hs] at he
      by_cases hk : k' = k
      · subst hk
        rw [Std.ExtTreeMap.getElem?_insert_self] at he
        exact Option.some.inj he ▸ lt_satAdd hnow (by decide)
      · rw [BTreeMap.getElem?_insert_ne hk] at he
        exact ho.pathRequests k e he

end

/-! ## Two nodes -/

/-- The node after a sweep of all its dedup maps. -/
def swept (n : Node) : Node := n.withMemory (n.memory.sweep n.nowSecs)

section
variable [Crypto] [Rmp] [Bzip2]

/-- An operation of a node that sweeps its dedup maps on every inbound frame. -/
def sweepingStep (n : Node) (op : Op) : Option (Node × Outcome) :=
  if op.inbound?.isSome then n.swept.step op else n.step op

end

end Node

/-- A call, with the time and the packet hash it admits. -/
structure Admission where
  time : Nat
  label : Label
  admitted : Option (Arr 16)

section
variable [Crypto] [Rmp] [Bzip2]

/-- A step of a node that sweeps at most once a second, with what it admits. -/
structure AmortisedStep (n : Node) (l : Admission) (n' : Node) : Prop where
  time : l.time = n.nowSecs
  step : n.step l.label.1 = some (n', l.label.2)
  admitted : l.admitted = l.label.1.inbound?.bind fun s => n.takenHash s.1

/-- A step of a node that sweeps on every inbound frame, with what it admits. -/
structure SweepingStep (n : Node) (l : Admission) (n' : Node) : Prop where
  time : l.time = n.nowSecs
  step : n.sweepingStep l.label.1 = some (n', l.label.2)
  admitted : l.admitted = l.label.1.inbound?.bind fun s => n.swept.takenHash s.1

/-- Two nodes that are the same but for what they remember, and for that too after any sweep from `t` on. -/
structure Lockstep (t : Nat) (n n' : Node) : Prop where
  same : ∀ M, n.withMemory M = n'.withMemory M
  memory : ∀ r, t ≤ r → n.memory.sweep r = n'.memory.sweep r
  fresh : n.memory.Fresh t

variable {t : Nat} {n n' m m' : Node} {b : Bytes} {i : UInt16} {rng : Option Entropy}

omit [Crypto] [Rmp] [Bzip2] in
theorem Lockstep.nowSecs (h : Lockstep t n n') : n.nowSecs = n'.nowSecs := by
  show (n.withMemory n.memory).nowSecs = (n'.withMemory n.memory).nowSecs
  rw [h.same]

omit [Crypto] [Rmp] [Bzip2] in
theorem Lockstep.outbound (h : Lockstep t n n') : n.outbound = n'.outbound := by
  show (n.withMemory n.memory).outbound = (n'.withMemory n.memory).outbound
  rw [h.same]

omit [Crypto] [Rmp] [Bzip2] in
theorem Lockstep.later {r : Nat} (h : Lockstep t n n') (hle : t ≤ r) : Lockstep r n n' :=
  ⟨h.same, fun q hq => h.memory q (hle.trans hq), h.fresh.later hle⟩

omit [Crypto] [Rmp] [Bzip2] in
/-- On admission both nodes remember the same. -/
theorem Lockstep.maybePrune (h : Lockstep n.nowSecs n n') :
    n.maybePrune n.nowSecs = n'.swept.maybePrune n'.swept.nowSecs := by
  have hsweep : n'.swept.memory.prune n'.nowSecs = n'.memory.sweep n'.nowSecs := by
    have hfresh : n'.swept.memory.Fresh n'.nowSecs := Memory.Fresh.sweep _ _
    rw [hfresh.prune_eq]
    exact Memory.sweep_sweep _ (Nat.le_refl _)
  rw [maybePrune_eq, maybePrune_eq, h.fresh.prune_eq, show n'.swept.nowSecs = n'.nowSecs from rfl, hsweep,
    h.memory _ (Nat.le_refl _), ← h.nowSecs, h.same]
  rfl

omit [Rmp] [Bzip2] in
/-- A frame is dropped as malformed by both nodes, or admitted or dropped in the same way. -/
theorem admission_congr (hp : n.maybePrune n.nowSecs = m.maybePrune m.nowSecs) (hnow : n.nowSecs = m.nowSecs)
    (b : Bytes) : n.admission b = (n, none) ∧ m.admission b = (m, none) ∨ n.admission b = m.admission b := by
  unfold admission
  split
  · exact .inl ⟨rfl, rfl⟩
  · split
    · exact .inl ⟨rfl, rfl⟩
    · right
      have hp : n.maybePrune m.nowSecs = m.maybePrune m.nowSecs := hnow ▸ hp
      simp only [hp, hnow]

theorem fresh_handleInboundInner (hf : n.memory.Fresh n.nowSecs) (hnow : n.nowSecs < U64_MAX) (b : Bytes) (i : UInt16)
    (rng : Option Entropy) : (n.handleInboundInner b i rng).1.memory.Fresh n.nowSecs := by
  have hswept := Memory.sweep_outlives n.memory n.nowSecs
  have h := n.handleInboundInner_cases b i rng
  generalize n.handleInboundInner b i rng = out at h
  cases h with
  | malformed => exact hf
  | duplicate =>
    rw [maybePrune_eq, hf.prune_eq]
    exact Memory.Fresh.sweep _ _
  | @admitted p d _ ha hd =>
    have hm : (n.admitted p).memory = (n.memory.sweep n.nowSecs).take p.packetHash (packetExpiry n.nowSecs) := by
      rw [admitted_eq, hf.prune_eq]
      rfl
    have ho : (n.admitted p).memory.Outlives n.nowSecs := by
      rw [hm]
      refine ⟨fun k e he => ?_, hswept.announces, hswept.pathRequests⟩
      by_cases hk : p.packetHash = k
      · subst hk
        rw [Memory.take, Std.ExtTreeMap.getElem?_insert_self] at he
        exact Option.some.inj he ▸ lt_satAdd hnow (by decide)
      · rw [Memory.take, BTreeMap.getElem?_insert_ne hk] at he
        exact hswept.packets k e he
    have hl : out.1.memory.lastPrune = n.nowSecs := by
      rw [show out.1.memory.lastPrune = (n.admitted p).memory.lastPrune from hd.sameConfig.lastPrune, hm]
      rfl
    have hout : out.1.memory.Outlives n.nowSecs := by
      have := hd.outlives (by rw [nowSecs_admitted]; exact hnow) (by rw [nowSecs_admitted]; exact ho)
      rwa [nowSecs_admitted] at this
    exact ⟨hl.le, fun _ => hl ▸ hout⟩

theorem Lockstep.inbound (h : Lockstep n.nowSecs n n') (hnow : n.nowSecs < U64_MAX) (b : Bytes) (i : UInt16)
    (rng : Option Entropy) :
    (n.handleInboundInner b i rng).2 = (n'.swept.handleInboundInner b i rng).2 ∧
      n.takenHash b = n'.swept.takenHash b ∧
      Lockstep n.nowSecs (n.handleInboundInner b i rng).1 (n'.swept.handleInboundInner b i rng).1 := by
  have hfresh := fresh_handleInboundInner h.fresh hnow b i rng
  rcases admission_congr h.maybePrune h.nowSecs b with ⟨h1, h2⟩ | heq
  · have h3 : n.handleInboundInner b i rng = (n, []) := by simp only [handleInboundInner, h1]
    have h4 : n'.swept.handleInboundInner b i rng = (n'.swept, []) := by simp only [handleInboundInner, h2]
    refine ⟨by rw [h3, h4], by rw [takenHash, takenHash, h1, h2], ?_⟩
    rw [h3, h4]
    refine ⟨h.same, fun r hr => ?_, h.fresh⟩
    rw [h.memory r hr, show n'.swept.memory = n'.memory.sweep n'.nowSecs from rfl,
      Memory.sweep_sweep _ (h.nowSecs ▸ hr)]
  · have h3 : n.handleInboundInner b i rng = n'.swept.handleInboundInner b i rng := by
      simp only [handleInboundInner, heq]
    refine ⟨by rw [h3], by rw [takenHash, takenHash, heq], ?_⟩
    rw [h3] at hfresh ⊢
    exact ⟨fun _ => rfl, fun _ _ => rfl, hfresh⟩

/-- What `Lockstep` gives for one operation: either node can take it when the other can. -/
theorem Lockstep.step (h : Lockstep n.nowSecs n n') (hnow : n.nowSecs < U64_MAX) (op : Op) (out : Outcome) :
    (∀ m, n.step op = some (m, out) → ∃ m', n'.sweepingStep op = some (m', out) ∧ Lockstep n.nowSecs m m') ∧
      ∀ m', n'.sweepingStep op = some (m', out) → ∃ m, n.step op = some (m, out) ∧ Lockstep n.nowSecs m m' := by
  cases hop : op.inbound? with
  | none =>
    have hstep : n.step op = (n'.step op).map (outWithMemory n.memory) := by
      have heq : n = n'.withMemory n.memory := h.same n.memory
      conv_lhs => rw [heq]
      exact step_withMemory _ _ hop
    have hsweep : n'.sweepingStep op = n'.step op := by rw [sweepingStep, hop]; rfl
    have hlock {m m' : Node} (hm' : n'.step op = some (m', out)) (hm : m = m'.withMemory n.memory) :
        Lockstep n.nowSecs m m' := by
      subst hm
      have hmem : m'.memory = n'.memory := (show NodeStep n' (op, out) m' from hm').memory_of_local hop
      exact ⟨fun _ => rfl, fun r hr => by rw [memory_withMemory, hmem, h.memory r hr], h.fresh⟩
    constructor
    · intro m hm
      rw [hstep] at hm
      obtain ⟨⟨m', out'⟩, hm', heq⟩ := Option.map_eq_some_iff.mp hm
      obtain ⟨hmem, rfl⟩ := Prod.mk.inj heq
      exact ⟨m', hsweep.trans hm', hlock hm' hmem.symm⟩
    · intro m' hm'
      rw [hsweep] at hm'
      exact ⟨m'.withMemory n.memory, by rw [hstep, hm']; rfl, hlock hm' rfl⟩
  | some q =>
    obtain ⟨b, i, rng⟩ := q
    obtain ⟨hev, -, hlock⟩ := h.inbound hnow b i rng
    have hsweep : n'.sweepingStep op = n'.swept.step op := by rw [sweepingStep, hop]; rfl
    have hl : n.step op = some ((n.handleInboundInner b i rng).1, { events := (n.handleInboundInner b i rng).2 }) :=
      step_of_inbound n hop
    have hr : n'.sweepingStep op = some ((n'.swept.handleInboundInner b i rng).1,
        { events := (n'.swept.handleInboundInner b i rng).2 }) := hsweep.trans (step_of_inbound _ hop)
    constructor
    · intro m hm
      obtain ⟨rfl, rfl⟩ := Prod.mk.inj (Option.some.inj (hl.symm.trans hm))
      exact ⟨_, hev ▸ hr, hlock⟩
    · intro m' hm'
      obtain ⟨rfl, rfl⟩ := Prod.mk.inj (Option.some.inj (hr.symm.trans hm'))
      exact ⟨_, hev ▸ hl, hlock⟩

/-! ## Runs -/

theorem Lockstep.amortised {l : Admission} (h : Lockstep n.nowSecs n n') (hnow : n.nowSecs < U64_MAX)
    (hst : AmortisedStep n l m) : ∃ m', SweepingStep n' l m' ∧ Lockstep n.nowSecs m m' := by
  obtain ⟨m', hm', hlock⟩ := (h.step hnow _ _).1 m hst.step
  refine ⟨m', ⟨hst.time.trans h.nowSecs, hm', ?_⟩, hlock⟩
  rw [hst.admitted]
  exact congrArg _ (funext fun s => (h.inbound hnow s.1 0 none).2.1)

theorem Lockstep.sweeping {l : Admission} (h : Lockstep n.nowSecs n n') (hnow : n.nowSecs < U64_MAX)
    (hst : SweepingStep n' l m') : ∃ m, AmortisedStep n l m ∧ Lockstep n.nowSecs m m' := by
  obtain ⟨m, hm, hlock⟩ := (h.step hnow _ _).2 m' hst.step
  refine ⟨m, ⟨hst.time.trans h.nowSecs.symm, hm, ?_⟩, hlock⟩
  rw [hst.admitted]
  exact congrArg _ (funext fun s => (h.inbound hnow s.1 0 none).2.1.symm)

omit [Crypto] [Rmp] [Bzip2] in
theorem Lockstep.start (identity : Identity) (clock : UInt64) (t : Nat) :
    Lockstep t (withClock identity clock) (withClock identity clock) :=
  ⟨fun _ => rfl, fun _ _ => rfl, Nat.zero_le t, fun h => absurd rfl h⟩

/-- The readings of the clock do not decrease and stay below the last one of all. -/
structure Clocked (tr : List Admission) : Prop where
  mono : tr.Pairwise fun l l' => l.time ≤ l'.time
  below : ∀ l ∈ tr, l.time < U64_MAX

omit [Crypto] [Rmp] [Bzip2] in
theorem Clocked.init {tr : List Admission} {l : Admission} (h : Clocked (tr ++ [l])) :
    Clocked tr ∧ (∀ l' ∈ tr, l'.time ≤ l.time) ∧ l.time < U64_MAX := by
  obtain ⟨hmono, -, hlast⟩ := List.pairwise_append.mp h.mono
  exact ⟨⟨hmono, fun l' hl' => h.below l' (List.mem_append_left _ hl')⟩,
    fun l' hl' => hlast l' hl' l (List.mem_singleton_self l), h.below l (by simp)⟩

theorem amortised_run {identity : Identity} {clock : UInt64} {tr : List Admission}
    (h : Lts.Run AmortisedStep (withClock identity clock) tr n) (hc : Clocked tr) :
    ∃ n', Lts.Run SweepingStep (withClock identity clock) tr n' ∧
      ∀ t, (∀ l ∈ tr, l.time ≤ t) → Lockstep t n n' := by
  induction h with
  | nil => exact ⟨_, .nil, fun t _ => .start identity clock t⟩
  | @snoc tr n l m _ hst ih =>
    obtain ⟨hc, hle, hlt⟩ := hc.init
    obtain ⟨n', hr, hlock⟩ := ih hc
    rw [hst.time] at hle hlt
    obtain ⟨m', hst', hlock⟩ := (hlock _ hle).amortised hlt hst
    exact ⟨m', .snoc hr hst', fun t ht => hlock.later (hst.time ▸ ht l (by simp))⟩

theorem sweeping_run {identity : Identity} {clock : UInt64} {tr : List Admission}
    (h : Lts.Run SweepingStep (withClock identity clock) tr n') (hc : Clocked tr) :
    ∃ n, Lts.Run AmortisedStep (withClock identity clock) tr n ∧
      ∀ t, (∀ l ∈ tr, l.time ≤ t) → Lockstep t n n' := by
  induction h with
  | nil => exact ⟨_, .nil, fun t _ => .start identity clock t⟩
  | @snoc tr n' l m' _ hst ih =>
    obtain ⟨hc, hle, hlt⟩ := hc.init
    obtain ⟨n, hr, hlock⟩ := ih hc
    have htime : l.time = n.nowSecs := hst.time.trans (hlock l.time hle).nowSecs.symm
    rw [htime] at hle hlt
    obtain ⟨m, hst', hlock⟩ := (hlock _ hle).sweeping hlt hst
    exact ⟨m, .snoc hr hst', fun t ht => hlock.later (htime ▸ ht l (by simp))⟩

/-- The labels tell exactly what the dedup map of packets takes. -/
theorem records_admissions :
    Dedup.Records AmortisedStep packetExpiry Node.seenPackets Admission.time Admission.admitted := by
  intro n l n' h
  have hst : NodeStep n l.label n' := h.step
  rw [h.time, h.admitted]
  cases hop : l.label.1.inbound? with
  | none => exact .idle (.inl (congrArg Memory.seenPackets (hst.memory_of_local hop)))
  | some s => exact hst.seenPackets_of_inbound hop

omit [Rmp] [Bzip2] in
/-- A packet below the hop limit is dropped on admission exactly when its hash is remembered. -/
theorem admission_eq_none {p : Packet} (hdec : Packet.decode b = .ok p) (hops : p.hops < PATHFINDER_MAX_HOPS) :
    (n.admission b).2 = none ↔ (n.maybePrune n.nowSecs).seenPackets.contains p.packetHash = true := by
  have h := n.admission_cases b
  generalize n.admission b = r at h
  cases h with
  | malformed hbad => exact absurd hops (hbad p hdec)
  | duplicate hd _ hseen =>
    cases hd.symm.trans hdec
    exact ⟨fun _ => hseen, fun _ => rfl⟩
  | admitted ha =>
    cases ha.decoded.symm.trans hdec
    simp [ha.unseen]

/-- As long as the clock does not run backwards and reads less than `u64::MAX`, a node that sweeps at most once
a second has the same runs as one that sweeps on every inbound frame, with the same results, events and outbound
frames; and a packet is dropped as a duplicate exactly for sixty seconds after it was admitted. -/
theorem amortised_pruning_unobservable {identity : Identity} {clock : UInt64} {tr : List Admission} (hc : Clocked tr) :
    (∀ n, Lts.Run AmortisedStep (withClock identity clock) tr n →
      ∃ n', Lts.Run SweepingStep (withClock identity clock) tr n' ∧ n'.outbound = n.outbound) ∧
    (∀ n', Lts.Run SweepingStep (withClock identity clock) tr n' →
      ∃ n, Lts.Run AmortisedStep (withClock identity clock) tr n ∧ n.outbound = n'.outbound) ∧
    ∀ n b p, Lts.Run AmortisedStep (withClock identity clock) tr n → (∀ l ∈ tr, l.time ≤ n.nowSecs) →
      n.nowSecs < U64_MAX → Packet.decode b = .ok p → p.hops < PATHFINDER_MAX_HOPS →
      ((n.admission b).2 = none ↔ ∃ l ∈ tr, l.admitted = some p.packetHash ∧ l.time ≤ n.nowSecs ∧
        n.nowSecs < l.time + PACKET_HASH_TTL_SECS) := by
  have hlast : ∀ l ∈ tr, l.time ≤ U64_MAX := fun l hl => (hc.below l hl).le
  refine ⟨fun n h => ?_, fun n' h => ?_, fun n b p h hle hnow hdec hops => ?_⟩
  · obtain ⟨n', hr, hlock⟩ := amortised_run h hc
    exact ⟨n', hr, (hlock _ hlast).outbound.symm⟩
  · obtain ⟨n, hr, hlock⟩ := sweeping_run h hc
    exact ⟨n, hr, (hlock _ hlast).outbound⟩
  · obtain ⟨_, -, hlock⟩ := amortised_run h hc
    have hseen : (n.maybePrune n.nowSecs).seenPackets = Dedup.sweep n.nowSecs n.seenPackets := by
      rw [maybePrune_eq, (hlock _ hle).fresh.prune_eq]
      rfl
    rw [admission_eq_none hdec hops, hseen, records_admissions.remembers h rfl hc.mono hle]
    refine exists_congr fun l => and_congr_right fun hl => and_congr_right fun _ => ?_
    have := hle l hl
    simp only [packetExpiry, satAdd]
    omega

end

/-! ## Concrete runs -/

section
open Sample

theorem amortised_handleInbound (n : Node) (b : Bytes) (i : UInt16) :
    AmortisedStep n ⟨n.nowSecs, (.handleInbound b i, { events := (n.handleInbound b i).2 }), n.takenHash b⟩
      (n.handleInbound b i).1 := ⟨rfl, rfl, rfl⟩

theorem sweeping_handleInbound (n : Node) (b : Bytes) (i : UInt16) :
    SweepingStep n ⟨n.nowSecs, (.handleInbound b i, { events := (n.swept.handleInbound b i).2 }), n.swept.takenHash b⟩
      (n.swept.handleInbound b i).1 := ⟨rfl, rfl, rfl⟩

theorem sweeping_outcome {n n' : Node} {b : Bytes} {i : UInt16} {t : Nat} {k : Option (Arr 16)} {out : Outcome}
    (h : SweepingStep n ⟨t, (.handleInbound b i, out), k⟩ n') : out = { events := (n.swept.handleInbound b i).2 } :=
  (Prod.mk.inj (Option.some.inj h.step)).2.symm

/-- A member of the group at a reading of the clock, once it has heard the frame, and how it hears it again. -/
def memberAt (now : UInt64) : Node := { member 2 with clock := now }

def heardOnce (now : UInt64) : Node := ((memberAt now).handleInbound teamFrame 0).1

def heardTwice (now : UInt64) : Node := ((heardOnce now).handleInbound teamFrame 0).1

def sweptOnce (now : UInt64) : Node := ((memberAt now).swept.handleInbound teamFrame 0).1

def settingUp (now : UInt64) : List Admission :=
  [⟨100, (.registerInterface 0, {}), none⟩,
    ⟨100, (.registerGroupDestination "team" [] teamKey, { ret := .dest teamDest }), none⟩,
    ⟨100, (.setClock now, {}), none⟩]

def firstCopy (now : UInt64) : Admission :=
  ⟨now.toNat, (.handleInbound teamFrame 0, { events := [.message teamDest [7]] }), some teamHash⟩

def secondCopy (now : UInt64) : Admission := ⟨now.toNat, (.handleInbound teamFrame 0, {}), none⟩

theorem settingUp_run (now : UInt64) :
    Lts.Run AmortisedStep (withClock (identity 2) 100) (settingUp now) (memberAt now) ∧
      Lts.Run SweepingStep (withClock (identity 2) 100) (settingUp now) (memberAt now) :=
  ⟨.cons ⟨rfl, rfl, rfl⟩ (.cons ⟨rfl, rfl, rfl⟩ (.single ⟨rfl, rfl, rfl⟩)),
    .cons ⟨rfl, rfl, rfl⟩ (.cons ⟨rfl, rfl, rfl⟩ (.single ⟨rfl, rfl, rfl⟩))⟩

/-- Both copies at one reading of the clock: the second one is a duplicate to the node that sweeps once a second. -/
theorem copies_run (now : UInt64) (h1 : ((memberAt now).handleInbound teamFrame 0).2 = [.message teamDest [7]])
    (h2 : (memberAt now).takenHash teamFrame = some teamHash) (h3 : ((heardOnce now).handleInbound teamFrame 0).2 = [])
    (h4 : (heardOnce now).takenHash teamFrame = none) (h5 : (heardOnce now).nowSecs = now.toNat) :
    Lts.Run AmortisedStep (withClock (identity 2) 100) (settingUp now ++ [firstCopy now, secondCopy now])
      (heardTwice now) := by
  have hfirst := amortised_handleInbound (memberAt now) teamFrame 0
  have hsecond := amortised_handleInbound (heardOnce now) teamFrame 0
  rw [h1, h2] at hfirst
  rw [h3, h4, h5] at hsecond
  exact (settingUp_run now).1.append (.cons (t := heardOnce now) hfirst (.single hsecond))

theorem amortised_pruning_copies : ∃ n', Lts.Run SweepingStep (withClock (identity 2) 100)
    (settingUp 130 ++ [firstCopy 130, secondCopy 130]) n' ∧ n'.outbound = (heardTwice 130).outbound := by
  have hrun := copies_run 130 (by decide +kernel) (by decide +kernel) (by decide +kernel)
    (by decide +kernel) (by decide +kernel)
  refine (amortised_pruning_unobservable ⟨?_, ?_⟩).1 _ hrun
  · simp [settingUp, firstCopy, secondCopy]
  · have hbelow : 100 < U64_MAX ∧ 130 < U64_MAX := by decide
    simp [settingUp, firstCopy, secondCopy, hbelow]

/-- At the last reading of the clock an entry expires at once, and only the sweep that is left out would tell. -/
theorem lingering_at_max : ¬ ∀ (identity : Identity) (clock : UInt64) (tr : List Admission) (n : Node),
    Lts.Run AmortisedStep (withClock identity clock) tr n → (tr.Pairwise fun l l' => l.time ≤ l'.time) →
    ∃ n', Lts.Run SweepingStep (withClock identity clock) tr n' ∧ n'.outbound = n.outbound := by
  intro h
  let now : UInt64 := 0xFFFFFFFFFFFFFFFF
  have hrun := copies_run now (by decide +kernel) (by decide +kernel) (by decide +kernel)
    (by decide +kernel) (by decide +kernel)
  have hmono : (settingUp now ++ [firstCopy now, secondCopy now]).Pairwise fun l l' => l.time ≤ l'.time := by
    have hle : 100 ≤ now.toNat := by decide
    simp [settingUp, firstCopy, secondCopy, hle]
  obtain ⟨n', hr, -⟩ := h _ _ _ _ hrun hmono
  obtain ⟨m, hm, hst⟩ := Lts.Run.snoc_inv (show Lts.Run SweepingStep _
    ((settingUp now ++ [firstCopy now]) ++ [secondCopy now]) n' by simpa using hr)
  -- the sweeping node has taken the first copy too, and forgets it before the second
  have hfirst := sweeping_handleInbound (memberAt now) teamFrame 0
  have h1 : ((memberAt now).swept.handleInbound teamFrame 0).2 = [.message teamDest [7]] := by decide +kernel
  have h2 : (memberAt now).swept.takenHash teamFrame = some teamHash := by decide +kernel
  rw [h1, h2] at hfirst
  have hdet : ∀ s l t u, SweepingStep s l t → SweepingStep s l u → t = u := fun s l t u ht hu =>
    (Prod.mk.inj (Option.some.inj (ht.step.symm.trans hu.step))).1
  have hm' : m = sweptOnce now := hm.unique hdet ((settingUp_run now).2.append (.single hfirst))
  have hagain : ((sweptOnce now).swept.handleInbound teamFrame 0).2 = [.message teamDest [7]] := by decide +kernel
  have hnone := sweeping_outcome hst
  rw [hm', hagain] at hnone
  cases hnone

end

end Reticulum
