import Reticulum.AccessCode
import Reticulum.Advertised

/-!
# The access-code bit of what a node sends

The access code of an interface takes the top bit of a frame for its own. A
node never sets it in a packet it makes, but a packet it passes on keeps the
bit it came with, in the copy it caches as well as in the one it forwards.
-/

namespace Reticulum

open Node Ifac

/-! ## The bit and the packet -/

theorem or_and_distrib (x y m : UInt8) : (x ||| y) &&& m = (x &&& m) ||| (y &&& m) := by
  apply UInt8.toBitVec_inj.mp
  ext i hi
  simp [Bool.and_or_distrib_right]

/-- Of the fields of the first byte only the flag reaches its top bit. -/
theorem Packet.flags_top (p : Packet) : p.flags &&& IFAC_FLAG = if p.ifac then IFAC_FLAG else 0 := by
  have hlow : ∀ v : BitVec 8, ((UInt8.ofBitVec v &&& 0x1) <<< 6) &&& IFAC_FLAG = 0 ∧
      ((UInt8.ofBitVec v &&& 0x1) <<< 4) &&& IFAC_FLAG = 0 ∧ ((UInt8.ofBitVec v &&& 0x3) <<< 2) &&& IFAC_FLAG = 0 ∧
      (UInt8.ofBitVec v &&& 0x3) &&& IFAC_FLAG = 0 := by decide +kernel
  have hcontext : (p.contextFlag.toUInt8 <<< 5) &&& IFAC_FLAG = 0 := by cases p.contextFlag <;> rfl
  unfold flags
  simp only [or_and_distrib, (hlow p.headerType.toBitVec).1, (hlow p.propagation.toBitVec).2.1,
    (hlow p.destType.toBitVec).2.2.1, (hlow p.packetType.toBitVec).2.2.2, hcontext, UInt8.or_zero]
  cases p.ifac <;> rfl

theorem Packet.clear_encode {p : Packet} : Clear p.encode ↔ p.ifac = false := by
  change p.flags &&& IFAC_FLAG = 0 ↔ _
  rw [p.flags_top]
  cases p.ifac <;> decide

theorem Packet.clear_iff_of_decode {b : Bytes} {p : Packet} (h : decode b = .ok p) : Clear b ↔ p.ifac = false := by
  rw [← encode_decode h, clear_encode]

theorem route_ifac {e : PathEntry} {p q : Packet} (h : route e p = .ok q) : q.ifac = p.ifac := by
  rcases route_ok h with rfl | ⟨t, _, rfl⟩ <;> rfl

section
variable [Crypto]

theorem pathResponse_ifac (n : Node) (isLocal : Bool) (path : Option PathEntry) (p : Packet) :
    (n.pathResponse isLocal path p).ifac = p.ifac := by
  unfold pathResponse
  dsimp only
  split
  · rfl
  · split <;> rfl

omit [Crypto] in
theorem forwardPacket_ifac {path : PathEntry} {p q : Packet} (h : forwardPacket path p = some q) : q.ifac = p.ifac := by
  unfold forwardPacket at h
  split at h
  · obtain ⟨_, -, rfl⟩ := Option.map_eq_some_iff.mp h
    rfl
  · cases h
    rfl

namespace Node

/-! ## What is sent without the bit -/

/-- The frames a step enqueues are packets without the bit. -/
def Unflagged (n n' : Node) : Prop :=
  ∃ ps : List (UInt16 × Packet), n.enqueued n' = ps.map (fun s => (s.1, s.2.encode)) ∧ ∀ q ∈ ps, q.2.ifac = false

/-- No cached announce has the bit. -/
def CacheUnflagged (n : Node) : Prop := ∀ (t : Arr 16) (p : Packet), n.cachedAnnounces[t]? = some p → p.ifac = false

variable {n n' m : Node} {l : Label}

omit [Crypto] in
theorem Unflagged.silent (h : n'.outbound <:+ n.outbound) : n.Unflagged n' :=
  ⟨[], List.drop_of_length_le h.length_le, by simp⟩

omit [Crypto] in
theorem Unflagged.none (h : n'.outbound = n.outbound) : n.Unflagged n' := .silent (h ▸ List.suffix_rfl)

omit [Crypto] in
theorem Unflagged.emit {ps : List (UInt16 × Packet)} (hm : m.outbound = n.outbound) (h : ∀ q ∈ ps, q.2.ifac = false) :
    n.Unflagged (m.emit ps) := ⟨ps, enqueued_emit hm ps, h⟩

omit [Crypto] in
theorem Unflagged.emit_one {q : UInt16 × Packet} (hm : m.outbound = n.outbound) (h : q.2.ifac = false) :
    n.Unflagged (m.emit [q]) :=
  .emit hm fun _ hq => List.mem_singleton.mp hq ▸ h

omit [Crypto] in
theorem Unflagged.broadcast {p : Packet} (hm : m.outbound = n.outbound) (h : p.ifac = false) (is : List UInt16) :
    n.Unflagged (m.emit (is.map fun i => (i, p))) := by
  refine .emit hm fun q hq => ?_
  obtain ⟨i, -, rfl⟩ := List.mem_map.mp hq
  exact h

theorem sendSingleMessage_unflagged (d : Arr 16) (pt : Bytes) (rng : Entropy) (receipt : Bool) :
    n.Unflagged (n.sendSingleMessage d pt rng receipt).1 := by
  have h := n.sendSingleMessage_cases d pt rng receipt
  generalize n.sendSingleMessage d pt rng receipt = r at h
  cases h with
  | failed => exact .none rfl
  | sent _ hr _ | sentWithReceipt _ hr _ => exact .emit_one rfl (route_ifac hr)

omit [Crypto] in
theorem enqueueDestinationPacket_unflagged {p : Packet} (hp : p.ifac = false) (d : Arr 16) :
    n.Unflagged (n.enqueueDestinationPacket p d).1 := by
  have h := n.enqueueDestinationPacket_cases p d
  generalize n.enqueueDestinationPacket p d = r at h
  cases h with
  | failed => exact .none rfl
  | routed _ hr => exact .emit_one rfl ((route_ifac hr).trans hp)
  | broadcast => exact .broadcast rfl hp _

theorem establishLink_unflagged (d : Arr 16) (rng : Entropy) : n.Unflagged (n.establishLink d rng).1 := by
  have h := n.establishLink_cases d rng
  generalize n.establishLink d rng = r at h
  cases h with
  | failed => exact .none rfl
  | requested _ hr => exact .emit_one rfl (route_ifac hr)

theorem sendAnnounce_unflagged (d : Arr 16) (appData : Bytes) (rng : Entropy) (i : UInt16) :
    n.Unflagged (n.sendAnnounce d appData rng i) := by
  have h := n.sendAnnounce_cases d appData rng i
  generalize n.sendAnnounce d appData rng i = m at h
  cases h with
  | unknown => exact .none rfl
  | sent => exact .emit_one rfl rfl

theorem requestPath_unflagged (d : Arr 16) (rng : Entropy) : n.Unflagged (n.requestPath d rng) := by
  unfold requestPath
  dsimp only
  rw [pushAll_eq_emit]
  exact .broadcast rfl rfl _

theorem sendGroupMessage_unflagged (d : Arr 16) (pt : Bytes) (rng : Entropy) :
    n.Unflagged (n.sendGroupMessage d pt rng).1 := by
  unfold sendGroupMessage
  split
  · exact .none rfl
  · exact enqueueDestinationPacket_unflagged rfl d

theorem linkSend_unflagged (id : Arr 16) (pt : Bytes) (rng : Entropy) : n.Unflagged (n.linkSend id pt rng).1 := by
  have h := n.linkSend_cases id pt rng
  generalize n.linkSend id pt rng = r at h
  cases h with
  | failed => exact .none rfl
  | sent => exact .emit_one rfl rfl

theorem tickInner_unflagged (hm : m.outbound = n.outbound) (rng : Option Entropy) : n.Unflagged (m.tickInner rng).1 := by
  obtain ⟨_, _, requests, hr, heq⟩ := tickInner_result m rng
  rw [heq]
  refine .emit hm fun q hq => ?_
  rcases List.mem_append.mp hq with hq | hq
  · obtain ⟨_, -, rfl⟩ := List.mem_map.mp hq
    rfl
  · obtain ⟨-, key, r, link, -, hreq⟩ := hr.justified q hq
    obtain ⟨data, rfl⟩ := hreq.frame
    rfl

omit [Crypto] in
theorem Unflagged.linkFrames {id : Arr 16} {i : UInt16} {cs : List UInt8} {ps : List (UInt16 × Packet)}
    (hm : m.outbound = n.outbound) (hps : LinkFrames id i cs ps) : n.Unflagged (m.emit ps) := by
  refine .emit hm fun q hq => ?_
  obtain ⟨c, -, data, rfl⟩ := hps q hq
  rfl

theorem closeLink_unflagged (hm : m.outbound = n.outbound) (id : Arr 16) : n.Unflagged (m.closeLink id).tick.1 :=
  tickInner_unflagged ((closeLink_outbound id).trans hm) none

variable [Rmp] [Bzip2]

theorem LinkDataCase.unflagged {p : Packet} {id : Arr 16} {i : UInt16} {out : Node × List Event}
    (hm : m.outbound = n.outbound) (h : LinkDataCase m p id i out) : n.Unflagged out.1 := by
  cases h with
  | ignored | badToken | touched | data => exact .none hm
  | part _ _ ho =>
    cases ho with
    | refused => exact .none hm
    | taken _ _ hp =>
      cases hp with
      | completed => exact .emit_one hm rfl
      | corrupt | waiting => exact .none hm
      | requested _ hps => exact .linkFrames hm hps
  | keepalive _ hps => exact .linkFrames hm hps
  | @closed link _ _ => exact closeLink_unflagged (m := m.touch id link) hm id
  | resource _ _ hr =>
    cases hr with
    | advertised _ _ _ hps | served _ hps | updated _ hps => exact .linkFrames hm hps
    | _ => exact .none hm

/-! ## What is passed on -/

/-- The steps that pass nothing with the bit on: no frame that has it is an announce whose route the node takes up, or a
data packet that it forwards. -/
structure KeepsUnflagged (n : Node) (l : Label) : Prop where
  learns : ∀ b i rng p d a pub, l.1.inbound? = some (b, i, rng) → TakesUp n b i p d a pub → Clear b
  forwards : ∀ b i rng p d path q, l.1.inbound? = some (b, i, rng) → n.Admits b p d → p.packetType = DATA →
    (n.admitted p).addressedElsewhere (received p) = false → (n.admitted p).locals.find? (·.destHash = d) = none →
    (n.admitted p).Forwards (received p) d i path q → Clear b

theorem DispatchCase.unflagged {b : Bytes} {i : UInt16} {rng : Option Entropy} {p : Packet} {d : Arr 16}
    {out : Node × List Event} (hc : n.CacheUnflagged) (hk : n.KeepsUnflagged l) (hop : l.1.inbound? = some (b, i, rng))
    (ha : n.Admits b p d) (h : DispatchCase (n.admitted p) (received p) d i out) :
    n.Unflagged out.1 ∧ out.1.CacheUnflagged := by
  have hout : (n.admitted p).outbound = n.outbound := by simp
  have hcache : (n.admitted p).CacheUnflagged := fun t q hq => hc t q (by simpa using hq)
  have hsilent {m : Node} (ho : m.outbound = (n.admitted p).outbound)
      (hs : m.cachedAnnounces = (n.admitted p).cachedAnnounces) : n.Unflagged m ∧ m.CacheUnflagged :=
    ⟨.none (ho.trans hout), fun t q hq => hcache t q (hs ▸ hq)⟩
  cases h with
  | ignored => exact hsilent rfl rfl
  | pathRequest =>
    have hr := (n.admitted p).handlePathRequest_case (received p) i
    dsimp only
    generalize (n.admitted p).handlePathRequest (received p) i = k at hr
    cases hr with
    | silent => exact hsilent rfl rfl
    | answered hans =>
      exact ⟨.emit_one hout ((pathResponse_ifac _ _ _ _).trans (hcache _ _ hans.cached)), hcache⟩
  | linkRequest _ hr =>
    cases hr with
    | ignored => exact hsilent rfl rfl
    | accepted => exact ⟨.emit_one hout rfl, hcache⟩
  | linkProof _ _ _ hr =>
    cases hr with
    | ignored | badProof => exact hsilent rfl rfl
    | proven _ _ _ _ _ hps =>
      refine ⟨.emit hout fun q hq => ?_, hcache⟩
      obtain ⟨ct, rfl⟩ := hps q hq
      rfl
  | deliveryProof _ hr => cases hr <;> exact hsilent rfl rfl
  | resourceProof _ _ _ hr => cases hr <;> exact hsilent rfl rfl
  | linkData _ _ hr =>
    refine ⟨hr.unflagged hout, fun t q hq => hcache t q ?_⟩
    rwa [hr.sameRoutes.cachedAnnounces] at hq
  | announce ht hr =>
    cases hr with
    | ignored | badSignature | notBetter => exact hsilent rfl rfl
    | @accepted a pub hann hpub hu =>
      have hpref := congrArg Prod.snd hu
      rw [nowSecs_admitted, show (n.admitted p).paths = n.paths by simp] at hpref
      have hclear : (received p).ifac = false :=
        (Packet.clear_iff_of_decode ha.decoded).mp (hk.learns b i rng p d a pub hop ⟨ha, ht, hann, hpub, hpref⟩)
      constructor
      · refine .emit hout fun q hq => ?_
        unfold rebroadcastCopies at hq
        split at hq
        · obtain ⟨j, -, rfl⟩ := List.mem_map.mp hq
          exact hclear
        · cases hq
      · intro t q hq
        rw [emit_cachedAnnounces, learned_cachedAnnounces, Std.ExtTreeMap.getElem?_insert] at hq
        split at hq
        · cases hq
          exact hclear
        · exact hcache t q hq
  | data ht _ _ hr =>
    cases hr with
    | ignored | badToken | message => exact hsilent rfl rfl
    | provenMessage => exact ⟨.emit_one hout rfl, hcache⟩
    | relayed helse hloc =>
      have hf := forwardData_cases (n.admitted p) (received p) d i
      dsimp only
      generalize (n.admitted p).forwardData (received p) d i = k at hf
      cases hf with
      | dropped | noRoute => exact hsilent rfl rfl
      | forwarded hfw =>
        have hclear : (received p).ifac = false :=
          (Packet.clear_iff_of_decode ha.decoded).mp (hk.forwards b i rng p d _ _ hop ha ht helse hloc hfw)
        exact ⟨.emit_one hout ((forwardPacket_ifac hfw.forwarded).trans hclear), hcache⟩

theorem handleInboundInner_unflagged {b : Bytes} {i : UInt16} {rng : Option Entropy} (hc : n.CacheUnflagged)
    (hk : n.KeepsUnflagged l) (hop : l.1.inbound? = some (b, i, rng)) :
    n.Unflagged (n.handleInboundInner b i rng).1 ∧ (n.handleInboundInner b i rng).1.CacheUnflagged := by
  have h := n.handleInboundInner_cases b i rng
  generalize n.handleInboundInner b i rng = out at h
  cases h with
  | malformed => exact ⟨.none rfl, hc⟩
  | duplicate => exact ⟨.none (by simp), fun t q hq => hc t q (by simpa using hq)⟩
  | admitted ha hd => exact hd.unflagged hc hk hop ha

/-- A step that is no inbound frame caches nothing but an announce of its own. -/
theorem cacheUnflagged_of_local (hc : n.CacheUnflagged) (hl : l.1.inbound? = none) (h : NodeStep n l n') :
    n'.CacheUnflagged := by
  have hsame {m : Node} (hm : m.cachedAnnounces = n.cachedAnnounces) : m.CacheUnflagged := fun t q hq => hc t q (hm ▸ hq)
  cases h.cases with
  | config _ h => exact hsame (by rw [h.eq])
  | @announce d _ _ _ _ h =>
    cases h with
    | unknown => exact hc
    | sent =>
      intro t q hq
      rw [emit_cachedAnnounces, addSigned_cachedAnnounces, Std.ExtTreeMap.getElem?_insert] at hq
      split at hq
      · cases hq
        rfl
      · exact hc t q hq
  | sent _ h => exact hsame (by rw [h.eq]; rfl)
  | establish h => cases h <;> exact hc
  | linkSend h => cases h <;> exact hc
  | sendResource h => cases h <;> exact hc
  | close h => cases h <;> exact hc
  | tick => exact hsame (tickInner_sameRoutes _ _).cachedAnnounces
  | inbound hop _ =>
    rw [hl] at hop
    cases hop

theorem KeepsUnflagged.step (hc : n.CacheUnflagged) (hk : n.KeepsUnflagged l) (h : NodeStep n l n') :
    n.Unflagged n' ∧ n'.CacheUnflagged := by
  have hcache (hl : l.1.inbound? = none) : n'.CacheUnflagged := cacheUnflagged_of_local hc hl h
  obtain ⟨op, out⟩ := l
  cases op with
  | setClock | enableTransport | unregisterInterface | registerSingleDestination | registerGroupDestination
  | registerGroupDestinationWithIdentity | registerPlainDestination | setProve | prunePaths =>
    refine ⟨?_, hcache rfl⟩
    cases h
    exact .none rfl
  | registerInterface i =>
    refine ⟨?_, hcache rfl⟩
    cases h
    refine .none ?_
    unfold registerInterface
    split <;> rfl
  | pollOutbound =>
    refine ⟨?_, hcache rfl⟩
    simp only [NodeStep, Node.step, pollOutbound] at h
    split at h
    · cases h
      exact .none rfl
    · rename_i f rest ho
      cases h
      exact .silent (ho ▸ List.suffix_cons f rest)
  | sendAnnounce d appData rng i =>
    refine ⟨?_, hcache rfl⟩
    cases h
    exact sendAnnounce_unflagged d appData rng i
  | requestPath d rng =>
    refine ⟨?_, hcache rfl⟩
    cases h
    exact requestPath_unflagged d rng
  | sendMessage d pt rng =>
    refine ⟨?_, hcache rfl⟩
    have hs := n.sendSingleMessage_unflagged d pt rng false
    rw [← sendMessage_fst] at hs
    obtain ⟨rfl, -⟩ := Prod.mk.inj (Option.some.inj h)
    exact hs
  | sendMessageWithReceipt d pt rng =>
    refine ⟨?_, hcache rfl⟩
    have hs := n.sendSingleMessage_unflagged d pt rng true
    rw [← sendMessageWithReceipt_fst] at hs
    obtain ⟨rfl, -⟩ := Prod.mk.inj (Option.some.inj h)
    exact hs
  | sendGroupMessage d pt rng =>
    refine ⟨?_, hcache rfl⟩
    cases h
    exact sendGroupMessage_unflagged d pt rng
  | sendPlainMessage d pt =>
    refine ⟨?_, hcache rfl⟩
    cases h
    exact enqueueDestinationPacket_unflagged rfl d
  | establishLink d rng =>
    refine ⟨?_, hcache rfl⟩
    cases h
    exact establishLink_unflagged d rng
  | linkSend id pt rng =>
    refine ⟨?_, hcache rfl⟩
    cases h
    exact linkSend_unflagged id pt rng
  | sendResource fuel id data rng =>
    refine ⟨?_, hcache rfl⟩
    simp only [NodeStep, Node.step, Option.map_eq_some_iff] at h
    obtain ⟨r, hr, h⟩ := h
    obtain ⟨rfl, -⟩ := Prod.mk.inj h
    cases sendResource_cases hr with
    | failed => exact .none rfl
    | sent => exact .emit_one rfl rfl
  | closeLink id =>
    refine ⟨?_, hcache rfl⟩
    cases h
    exact .none (closeLink_outbound id)
  | tick | tickWithEntropy =>
    refine ⟨?_, hcache rfl⟩
    cases h
    exact tickInner_unflagged rfl _
  | handleInbound b i =>
    obtain ⟨rfl, -⟩ := Prod.mk.inj (Option.some.inj h)
    exact handleInboundInner_unflagged (b := b) (i := i) hc hk rfl
  | handleInboundWithEntropy b i rng =>
    obtain ⟨rfl, -⟩ := Prod.mk.inj (Option.some.inj h)
    exact handleInboundInner_unflagged (b := b) (i := i) hc hk rfl

/-! ## Behind an access code -/

omit [Rmp] [Bzip2] in
/-- The frame comes off every access code as it went on. -/
def PassesIfac [Hkdf] (frame : Bytes) : Prop :=
  Clear frame ∧ ∀ (key : Arr 64) (ifacSize : Nat), 1 ≤ ifacSize → ifacSize ≤ 64 → frame.length ≤ 8160 - ifacSize →
    ∃ wire, applyWithSize frame key ifacSize = .ok wire ∧ stripWithSize wire key ifacSize = .ok frame

omit [Rmp] [Bzip2] in
theorem passesIfac_of_clear [Hkdf] (hH : Hkdf.Limited) {p : Packet} (h : Clear p.encode) : PassesIfac p.encode := by
  refine ⟨h, fun key ifacSize hs hs' hlen => ?_⟩
  have hlong : 3 ≤ p.encode.length := by
    unfold Packet.encode
    simp only [List.length_cons, List.length_append]
    omega
  exact strip_applied hH key hs hs' hlong hlen h

end Node

variable [Rmp] [Bzip2]

/-- In a run that passes nothing with the bit on, every frame that is enqueued has the bit clear, and is the same
behind every access code. -/
theorem sends_pass_ifac [Hkdf] (hH : Hkdf.Limited) {identity : Identity} {clock : UInt64} {tr : List Label} {n n' : Node}
    {l : Label} (hrun : Lts.Run (fun n l n' => n.KeepsUnflagged l ∧ NodeStep n l n') (withClock identity clock) tr n)
    (hk : n.KeepsUnflagged l) (hst : NodeStep n l n') : ∀ s ∈ n.enqueued n', PassesIfac s.2 := by
  have hstart : (withClock identity clock).CacheUnflagged := fun _ _ h => nomatch h
  have hc : n.CacheUnflagged :=
    hrun.preserve_of_labels (fun _ _ _ hc hk hst => (hk.step hc hst).2) hstart
  obtain ⟨ps, hps, hflag⟩ := (hk.step hc hst).1
  intro s hs
  rw [hps, List.mem_map] at hs
  obtain ⟨q, hq, rfl⟩ := hs
  exact passesIfac_of_clear hH (Packet.clear_encode.mpr (hflag q hq))

end

/-! ## An announce passed on, without the bit and with it -/

section
open Sample

/-- The announce with the bit, as any neighbour may send it. -/
def flaggedAnnounce : Packet := { streetAnnounce with ifac := true }

theorem streetCorner_run : Lts.Run NodeStep (withClock (identity 5) 100)
    [(.enableTransport true, {}), (.registerInterface 1, {})] streetCorner := .cons rfl (.single rfl)

theorem keepsUnflagged_of_clear {n : Node} {l : Label} (h : ∀ b i rng, l.1.inbound? = some (b, i, rng) → Clear b) :
    n.KeepsUnflagged l :=
  ⟨fun b i rng _ _ _ _ hop _ => h b i rng hop, fun b i rng _ _ _ _ hop _ _ _ _ _ => h b i rng hop⟩

theorem sends_pass_ifac_street : ∃ frame,
    (1, frame) ∈ streetCorner.enqueued (streetCorner.handleInbound streetAnnounce.encode 0).1 ∧ PassesIfac frame := by
  have hkeep {n : Node} {l : Label} (h : l.1.inbound? = none) : n.KeepsUnflagged l := by
    apply keepsUnflagged_of_clear
    intro b i rng hop
    rw [h] at hop
    cases hop
  have hrun : Lts.Run (fun n l n' => n.KeepsUnflagged l ∧ NodeStep n l n') (withClock (identity 5) 100)
      [(.enableTransport true, {}), (.registerInterface 1, {})] streetCorner :=
    .cons ⟨hkeep rfl, rfl⟩ (.single ⟨hkeep rfl, rfl⟩)
  have hclear : streetCorner.KeepsUnflagged
      (.handleInbound streetAnnounce.encode 0, { events := (streetCorner.handleInbound streetAnnounce.encode 0).2 }) := by
    apply keepsUnflagged_of_clear
    intro b i rng hop
    cases hop
    exact Packet.clear_encode.mpr rfl
  have hmem : (1, (streetCopy 0).encode) ∈ streetCorner.enqueued (streetCorner.handleInbound streetAnnounce.encode 0).1 := by
    decide +kernel
  exact ⟨_, hmem, sends_pass_ifac hkdf_limited hrun hclear (streetCorner.step_handleInbound streetAnnounce.encode 0) _ hmem⟩

/-- An announce that came with the bit is passed on with it. -/
theorem sends_flagged : ¬ ∀ (identity : Identity) (clock : UInt64) (tr : List Label) (n n' : Node) (l : Label),
    Lts.Run NodeStep (withClock identity clock) tr n → NodeStep n l n' → ∀ s ∈ n.enqueued n', PassesIfac s.2 := by
  intro h
  have hmem : (1, { streetCopy 0 with ifac := true }.encode) ∈
      streetCorner.enqueued (streetCorner.handleInbound flaggedAnnounce.encode 0).1 := by decide +kernel
  have hpass := h _ _ _ _ _ _ streetCorner_run (streetCorner.step_handleInbound flaggedAnnounce.encode 0) _ hmem
  cases Packet.clear_encode.mp hpass.1

end

end Reticulum
