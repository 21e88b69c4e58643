import Reticulum.StepCases

/-!
# What a node does regardless of its dedup maps

The dedup maps and the time of their last sweep are read at two places only:
on admission, and by the announce and path request handlers. Everything else
does the same under any memory.
-/

namespace Reticulum

/-- The dedup maps and the time of their last sweep. -/
structure Memory where
  seenPackets : BTreeMap (Arr 16) Nat
  seenAnnounces : BTreeMap (Arr 16 × Arr 10) Nat
  seenPathRequests : BTreeMap (Arr 16 × Arr 16) Nat
  lastPrune : Nat

namespace Node

def memory (n : Node) : Memory := ⟨n.seenPackets, n.seenAnnounces, n.seenPathRequests, n.lastPrune⟩

/-- The node with other memories. -/
@[simps] def withMemory (n : Node) (M : Memory) : Node :=
  { n with
    seenPackets := M.seenPackets
    seenAnnounces := M.seenAnnounces
    seenPathRequests := M.seenPathRequests
    lastPrune := M.lastPrune }

@[simp] theorem withMemory_memory (n : Node) : n.withMemory n.memory = n := rfl

@[simp] theorem memory_withMemory (n : Node) (M : Memory) : (n.withMemory M).memory = M := rfl

@[simp] theorem withMemory_withMemory (n : Node) (M M' : Memory) : (n.withMemory M).withMemory M' = n.withMemory M' := rfl

@[simp] theorem withMemory_nowSecs (n : Node) (M : Memory) : (n.withMemory M).nowSecs = n.nowSecs := rfl

/-- A result of a call, the node in it with other memories. -/
def outWithMemory {α : Type} (M : Memory) (out : Node × α) : Node × α := (out.1.withMemory M, out.2)

/-- The node with other memories and other paths. -/
@[simps] def aside (n : Node) (M : Memory) (T : PathTable) : Node :=
  { n with
    seenPackets := M.seenPackets
    seenAnnounces := M.seenAnnounces
    seenPathRequests := M.seenPathRequests
    lastPrune := M.lastPrune
    paths := T }

@[simp] theorem aside_self (n : Node) : n.aside n.memory n.paths = n := rfl

@[simp] theorem aside_nowSecs (n : Node) (M : Memory) (T : PathTable) : (n.aside M T).nowSecs = n.nowSecs := rfl

def outAside {α : Type} (M : Memory) (T : PathTable) (out : Node × α) : Node × α := (out.1.aside M T, out.2)

variable (n : Node) (M : Memory) (T : PathTable)

theorem prunePaths_withMemory : (n.withMemory M).prunePaths = n.prunePaths.withMemory M := rfl

theorem registerInterface_aside (i : UInt16) :
    (n.aside M T).registerInterface i = (n.registerInterface i).aside M T := by
  unfold registerInterface
  simp only [aside_interfaces]
  split <;> rfl

theorem pollOutbound_aside : (n.aside M T).pollOutbound = outAside M T n.pollOutbound := by
  unfold pollOutbound
  simp only [aside_outbound]
  split <;> rfl

theorem enqueueDestinationPacket_withMemory (p : Packet) (d : Arr 16) :
    (n.withMemory M).enqueueDestinationPacket p d = outWithMemory M (n.enqueueDestinationPacket p d) := by
  unfold enqueueDestinationPacket
  simp only [prunePaths_withMemory, withMemory_paths, withMemory_interfaces]
  split
  · split <;> rfl
  · split <;> rfl

theorem closeLink_aside (id : Arr 16) : (n.aside M T).closeLink id = (n.closeLink id).aside M T := by
  unfold closeLink
  simp only [aside_links]
  split
  · rfl
  · split <;> rfl

theorem forwardData_withMemory (p : Packet) (d : Arr 16) (i : UInt16) :
    (n.withMemory M).forwardData p d i = (n.forwardData p d i).withMemory M := by
  unfold forwardData
  simp only [prunePaths_withMemory, withMemory_paths]
  split
  · split
    · rfl
    · split <;> rfl
  · rfl

variable [Crypto]

theorem sendAnnounce_aside (d : Arr 16) (appData : Bytes) (rng : Entropy) (i : UInt16) :
    (n.aside M T).sendAnnounce d appData rng i = (n.sendAnnounce d appData rng i).aside M T := by
  unfold sendAnnounce
  simp only [aside_locals]
  split <;> rfl

theorem sendSingleMessage_withMemory (d : Arr 16) (pt : Bytes) (rng : Entropy) (receipt : Bool) :
    (n.withMemory M).sendSingleMessage d pt rng receipt = outWithMemory M (n.sendSingleMessage d pt rng receipt) := by
  unfold sendSingleMessage
  simp only [prunePaths_withMemory, withMemory_paths]
  split
  · rfl
  · split
    · rfl
    · split <;> rfl

theorem sendMessage_withMemory (d : Arr 16) (pt : Bytes) (rng : Entropy) :
    (n.withMemory M).sendMessage d pt rng = outWithMemory M (n.sendMessage d pt rng) := by
  unfold sendMessage
  rw [sendSingleMessage_withMemory]
  generalize n.sendSingleMessage d pt rng false = r
  obtain ⟨m, _ | _⟩ := r <;> rfl

theorem sendMessageWithReceipt_withMemory (d : Arr 16) (pt : Bytes) (rng : Entropy) :
    (n.withMemory M).sendMessageWithReceipt d pt rng = outWithMemory M (n.sendMessageWithReceipt d pt rng) := by
  unfold sendMessageWithReceipt
  rw [sendSingleMessage_withMemory]
  generalize n.sendSingleMessage d pt rng true = r
  obtain ⟨m, _ | _ | _⟩ := r <;> rfl

theorem sendGroupMessage_withMemory (d : Arr 16) (pt : Bytes) (rng : Entropy) :
    (n.withMemory M).sendGroupMessage d pt rng = outWithMemory M (n.sendGroupMessage d pt rng) := by
  unfold sendGroupMessage groupKey
  simp only [withMemory_locals]
  split
  · rfl
  · exact enqueueDestinationPacket_withMemory _ _ _ _

theorem establishLink_withMemory (d : Arr 16) (rng : Entropy) :
    (n.withMemory M).establishLink d rng = outWithMemory M (n.establishLink d rng) := by
  unfold establishLink
  simp only [prunePaths_withMemory, withMemory_paths]
  split
  · rfl
  · split <;> rfl

omit [Crypto] in
theorem activeLink_aside (id : Arr 16) : (n.aside M T).activeLink id = n.activeLink id := rfl

theorem linkSend_aside (id : Arr 16) (pt : Bytes) (rng : Entropy) :
    (n.aside M T).linkSend id pt rng = outAside M T (n.linkSend id pt rng) := by
  unfold linkSend
  rw [activeLink_aside]
  split <;> rfl

theorem sendResource_aside [Rmp] [Bzip2] (fuel : Nat) (id : Arr 16) (data : Bytes) (rng : Entropy) :
    (n.aside M T).sendResource fuel id data rng = (n.sendResource fuel id data rng).map (outAside M T) := by
  unfold sendResource
  rw [activeLink_aside]
  split
  · rfl
  · rw [aside_nowSecs]
    split <;> rfl

/-! ## Tick -/

theorem tickResource_aside (rng : Option Entropy) (key : ResourceKey) :
    tickResource (n.aside M T, rng) key = outAside M T (tickResource (n, rng) key) := by
  unfold tickResource
  simp only [aside_inboundResources, aside_nowSecs]
  split
  · rfl
  · split
    · simp only [aside_links]
      split <;> rfl
    · rfl
    · rfl

theorem tickInner_aside (rng : Option Entropy) :
    (n.aside M T).tickInner rng = outAside M T (n.tickInner rng) := by
  have hloop (keys : List ResourceKey) (s : Node × Option Entropy) :
      keys.foldl tickResource (outAside M T s) = outAside M T (keys.foldl tickResource s) :=
    List.foldl_hom (outAside M T) fun s key => tickResource_aside s.1 M T s.2 key
  have htick : (n.aside M T).tickLinks = n.tickLinks.aside M T := rfl
  have h := hloop n.tickLinks.inboundResources.keys (n.tickLinks, rng)
  simp only [outAside] at h
  unfold tickInner tickResources
  rw [htick, aside_inboundResources, h]
  rfl

/-! ## Link traffic -/

theorem handleLinkRequest_aside (p : Packet) (d : Arr 16) (i : UInt16) (rng : Entropy) :
    (n.aside M T).handleLinkRequest p d i rng = outAside M T (n.handleLinkRequest p d i rng) := by
  have helse : (n.aside M T).addressedElsewhere p = n.addressedElsewhere p := rfl
  have hsingle : (n.aside M T).hasSingle d = n.hasSingle d := rfl
  unfold handleLinkRequest
  rw [helse, hsingle]
  split
  · rfl
  · split
    · rfl
    · split
      · rfl
      · simp only [aside_links]
        split <;> rfl

theorem handleLinkProof_aside (p : Packet) (id : Arr 16) (rng : Option Entropy) :
    (n.aside M T).handleLinkProof p id rng = outAside M T (n.handleLinkProof p id rng) := by
  unfold handleLinkProof
  simp only [aside_links]
  split
  · rfl
  · split
    · rfl
    · split
      · rfl
      · split
        · rfl
        · cases rng <;> rfl

omit [Crypto] in
theorem handleResourceProof_aside (p : Packet) (id : Arr 16) :
    (n.aside M T).handleResourceProof p id = outAside M T (n.handleResourceProof p id) := by
  unfold handleResourceProof
  simp only [aside_outboundResources]
  split
  · rfl
  · split
    · rfl
    · split <;> rfl

theorem requestNext_aside (id : Arr 16) (i : UInt16) (key : Arr 64) (hash : Arr 32) (rng : Entropy) :
    (n.aside M T).requestNext id i key hash rng = (n.requestNext id i key hash rng).aside M T := by
  unfold requestNext
  simp only [aside_inboundResources, aside_nowSecs]
  split
  · rfl
  · split <;> rfl

theorem sendOutput_aside (id : Arr 16) (i : UInt16) (key : Arr 64) (rng : Entropy) (o : ResourceOutput) :
    sendOutput id i key (n.aside M T, rng) o = outAside M T (sendOutput id i key (n, rng) o) := by
  cases o <;> rfl

theorem sendOutputs_aside (id : Arr 16) (i : UInt16) (key : Arr 64) (outputs : List ResourceOutput)
    (s : Node × Entropy) :
    outputs.foldl (sendOutput id i key) (outAside M T s) = outAside M T (outputs.foldl (sendOutput id i key) s) :=
  List.foldl_hom (outAside M T) fun s o => sendOutput_aside s.1 M T id i key s.2 o

theorem handleResourceContext_aside [Rmp] (id : Arr 16) (i : UInt16) (key : Arr 64) (context : UInt8)
    (pt : Bytes) (rng : Entropy) :
    (n.aside M T).handleResourceContext id i key context pt rng =
      outAside M T (n.handleResourceContext id i key context pt rng) := by
  have hnext (m : Node) (hash : Arr 32) (events : List Event) :
      ((m.aside M T).requestNext id i key hash rng, events) =
        outAside M T (m.requestNext id i key hash rng, events) := by
    rw [requestNext_aside]
    rfl
  unfold handleResourceContext
  simp only [aside_inboundResources, aside_outboundResources, aside_nowSecs]
  split
  · split
    · rfl
    · split
      · rfl
      · rename_i r _
        exact hnext (n.setInbound (id, r.hash) r) _ _
  · split
    · split
      · rfl
      · split
        · rfl
        · rename_i hash _ _ r _
          have h := sendOutputs_aside M T id i key (r.onRequest pt n.nowSecs).2
            (n.setOutbound (id, hash) (r.onRequest pt n.nowSecs).1, rng)
          exact congrArg (fun s => (s.1, [])) h
    · split
      · split
        · rfl
        · split
          · rfl
          · rename_i hash _ _ r _
            split
            · rfl
            · exact hnext (n.setInbound (id, hash) (r.onHashmapUpdate pt).1) _ _
      · split
        · split <;> rfl
        · rfl

section
variable [Bzip2]

theorem partAccepted_aside (id : Arr 16) (i : UInt16) (key : Arr 64) (hash : Arr 32) (r : InboundResource)
    (rng : Option Entropy) :
    (n.aside M T).partAccepted id i key hash r rng = outAside M T (n.partAccepted id i key hash r rng) := by
  unfold partAccepted
  dsimp only
  rw [aside_nowSecs]
  split
  · split <;> rfl
  · split
    · rfl
    · split
      · generalize Option.filter _ _ = request
        cases request <;> rfl
      · rfl

theorem offerPart_aside (id : Arr 16) (i : UInt16) (key : Arr 64) (part : Bytes) (rng : Option Entropy)
    (keys : List ResourceKey) :
    (n.aside M T).offerPart id i key part rng keys = outAside M T (n.offerPart id i key part rng keys) := by
  induction keys with
  | nil => rfl
  | cons k rest ih =>
    unfold offerPart
    simp only [aside_inboundResources]
    split
    · exact ih
    · split
      · exact ih
      · exact partAccepted_aside (n.setInbound k _) M T id i key k.2 _ rng

end

variable [Rmp] [Bzip2]

theorem handleLinkData_aside (p : Packet) (id : Arr 16) (i : UInt16) (rng : Option Entropy) :
    (n.aside M T).handleLinkData p id i rng = outAside M T (n.handleLinkData p id i rng) := by
  unfold handleLinkData
  simp only [aside_links]
  split
  · rfl
  · rename_i link _
    split
    · rfl
    · split
      · rfl
      · split
        · exact offerPart_aside _ _ _ _ _ _ _ _ _
        · split
          · split <;> rfl
          · split
            · rfl
            · split
              · rfl
              · split
                · split
                  · show (((n.touch id link).aside M T).closeLink id).tickInner none = _
                    rw [closeLink_aside]
                    exact tickInner_aside _ _ _ _
                  · rfl
                · split
                  · rfl
                  · split
                    · exact handleResourceContext_aside (n.touch id link) M T id i _ _ _ _
                    · rfl

/-! ## Other frames -/

omit [Rmp] [Bzip2] in
theorem handleDeliveryProof_aside (p : Packet) (d : Arr 16) :
    (n.aside M T).handleDeliveryProof p d = outAside M T (n.handleDeliveryProof p d) := by
  unfold handleDeliveryProof
  simp only [aside_pendingReceipts]
  split
  · rfl
  · split
    · rfl
    · split
      · rfl
      · split <;> rfl

omit [Rmp] [Bzip2] in
theorem handleData_withMemory (p : Packet) (d : Arr 16) (i : UInt16) :
    (n.withMemory M).handleData p d i = outWithMemory M (n.handleData p d i) := by
  have helse : (n.withMemory M).addressedElsewhere p = n.addressedElsewhere p := rfl
  have hopen (kind : LocalDestinationKind) : (n.withMemory M).openLocal kind p = n.openLocal kind p := rfl
  unfold handleData
  simp only [helse, withMemory_locals, hopen]
  split
  · rfl
  · split
    · rw [forwardData_withMemory]
      rfl
    · split
      · rfl
      · rfl
      · split <;> rfl

end Node

/-! ## Forgetful calls -/

namespace Node

/-- A call that neither reads nor writes the memory. -/
def Forgetful {α : Type} (f : Node → Node × α) : Prop := ∀ n M, f (n.withMemory M) = outWithMemory M (f n)

/-- A call that looks at the paths no more than at the memory. -/
def Blind {α : Type} (f : Node → Node × α) : Prop := ∀ n M T, f (n.aside M T) = outAside M T (f n)

theorem Blind.paths {α : Type} {f : Node → Node × α} (h : Blind f) (n : Node) : (f n).1.paths = n.paths := by
  have hn := h n n.memory n.paths
  rw [aside_self] at hn
  rw [hn]
  rfl

theorem Blind.forgetful {α : Type} {f : Node → Node × α} (h : Blind f) : Forgetful f := by
  intro n M
  have hn : f (n.withMemory M) = outAside M n.paths (f n) := h n M n.paths
  rw [hn, ← h.paths n]
  rfl

theorem Forgetful.memory {α : Type} {f : Node → Node × α} (h : Forgetful f) (n : Node) : (f n).1.memory = n.memory := by
  have hn := h n n.memory
  rw [withMemory_memory] at hn
  rw [hn]
  rfl

/-- The node with another dedup map of packets. -/
def withSeen (n : Node) (s : BTreeMap (Arr 16) Nat) : Node := n.withMemory { n.memory with seenPackets := s }

theorem Forgetful.withSeen {α : Type} (f : Node → Node × α) (h : Forgetful f) (n : Node) (s : BTreeMap (Arr 16) Nat) :
    f (n.withSeen s) = ((f n).1.withSeen s, (f n).2) := by
  rw [Node.withSeen, h, outWithMemory, Node.withSeen, h.memory]

variable [Crypto]

theorem handlePathRequest_withSeen (n : Node) (s : BTreeMap (Arr 16) Nat) (p : Packet) (i : UInt16) :
    (n.withSeen s).handlePathRequest p i = (n.handlePathRequest p i).withSeen s := by
  unfold handlePathRequest withSeen
  simp only [withMemory_seenPathRequests, memory, withMemory_cachedAnnounces, withMemory_locals, withMemory_paths,
    withMemory_transportEnabled]
  split
  · rfl
  · split
    · rfl
    · split
      · rfl
      · split
        · rfl
        · split <;> rfl

theorem handleAnnounce_withSeen (n : Node) (s : BTreeMap (Arr 16) Nat) (p : Packet) (d : Arr 16) (i : UInt16) :
    (n.withSeen s).handleAnnounce p d i = ((n.handleAnnounce p d i).1.withSeen s, (n.handleAnnounce p d i).2) := by
  unfold handleAnnounce withSeen
  simp only [withMemory_seenAnnounces, memory, withMemory_locals, withMemory_paths, withMemory_transportEnabled,
    withMemory_nowSecs, withMemory_interfaces]
  split
  · rfl
  · split
    · rfl
    · split
      · rfl
      · split
        · rfl
        · split
          · rfl
          · split
            · rfl
            · split <;> rfl

variable [Rmp] [Bzip2]

/-- No handler looks at the dedup map of packets. -/
theorem dispatch_withSeen (n : Node) (s : BTreeMap (Arr 16) Nat) (p : Packet) (d : Arr 16) (i : UInt16)
    (rng : Option Entropy) :
    (n.withSeen s).dispatch p d i rng = ((n.dispatch p d i rng).1.withSeen s, (n.dispatch p d i rng).2) := by
  unfold dispatch
  split
  · rw [handlePathRequest_withSeen]
  · split
    · split
      · exact Forgetful.withSeen (fun n => n.handleLinkRequest p d i _)
          (Blind.forgetful fun n M T => n.handleLinkRequest_aside M T p d i _) n s
      · rfl
    · split
      · exact Forgetful.withSeen (fun n => n.handleLinkProof p d rng)
          (Blind.forgetful fun n M T => n.handleLinkProof_aside M T p d rng) n s
      · split
        · exact Forgetful.withSeen (fun n => n.handleDeliveryProof p d)
            (Blind.forgetful fun n M T => n.handleDeliveryProof_aside M T p d) n s
        · split
          · exact Forgetful.withSeen (fun n => n.handleResourceProof p d)
              (Blind.forgetful fun n M T => n.handleResourceProof_aside M T p d) n s
          · split
            · exact Forgetful.withSeen (fun n => n.handleLinkData p d i rng)
                (Blind.forgetful fun n M T => n.handleLinkData_aside M T p d i rng) n s
            · split
              · exact handleAnnounce_withSeen n s p d i
              · split
                · exact Forgetful.withSeen (fun n => n.handleData p d i)
                    (fun n M => n.handleData_withMemory M p d i) n s
                · rfl

/-- The operations that look up a route, or sweep the routes. -/
def routing : Op → Bool
  | .sendMessage .. | .sendMessageWithReceipt .. | .sendGroupMessage .. | .sendPlainMessage .. | .establishLink ..
  | .prunePaths => true
  | _ => false

theorem step_aside (n : Node) (M : Memory) (T : PathTable) {op : Op} (h : op.inbound? = none)
    (hr : routing op = false) : (n.aside M T).step op = (n.step op).map (outAside M T) := by
  cases op with
  | handleInbound | handleInboundWithEntropy => cases h
  | sendMessage | sendMessageWithReceipt | sendGroupMessage | sendPlainMessage | establishLink | prunePaths => cases hr
  | registerInterface i => exact congrArg (fun m => some (m, _)) (n.registerInterface_aside M T i)
  | pollOutbound =>
    simp only [step, pollOutbound_aside]
    rfl
  | sendAnnounce d appData rng i => exact congrArg (fun m => some (m, _)) (n.sendAnnounce_aside M T d appData rng i)
  | linkSend id pt rng =>
    simp only [step, linkSend_aside]
    rfl
  | sendResource fuel id data rng =>
    simp only [step, sendResource_aside, Option.map_map]
    rfl
  | closeLink id => exact congrArg (fun m => some (m, _)) (n.closeLink_aside M T id)
  | tick =>
    simp only [step, tick, tickInner_aside]
    rfl
  | tickWithEntropy rng =>
    simp only [step, tickWithEntropy, tickInner_aside]
    rfl
  | _ => rfl

/-- A local operation neither reads nor writes the memory. -/
theorem step_withMemory (n : Node) (M : Memory) {op : Op} (h : op.inbound? = none) :
    (n.withMemory M).step op = (n.step op).map (outWithMemory M) := by
  cases hr : routing op with
  | false =>
    have hself := n.step_aside n.memory n.paths h hr
    have haside : (n.withMemory M).step op = (n.step op).map (outAside M n.paths) := n.step_aside M n.paths h hr
    rw [aside_self] at hself
    rw [haside]
    cases hout : n.step op with
    | none => rfl
    | some out =>
      rw [hout, Option.map_some, Option.some.injEq] at hself
      have hp : out.1.paths = n.paths := by
        rw [hself]
        rfl
      rw [← hp]
      rfl
  | true =>
    cases op with
    | sendMessage d pt rng =>
      simp only [step, sendMessage_withMemory]
      rfl
    | sendMessageWithReceipt d pt rng =>
      simp only [step, sendMessageWithReceipt_withMemory]
      rfl
    | sendGroupMessage d pt rng =>
      simp only [step, sendGroupMessage_withMemory]
      rfl
    | sendPlainMessage d pt =>
      simp only [step, sendPlainMessage, enqueueDestinationPacket_withMemory]
      rfl
    | establishLink d rng =>
      simp only [step, establishLink_withMemory]
      rfl
    | prunePaths => rfl
    | _ => cases hr

end Node

open Node in
theorem NodeStep.memory_of_local [Crypto] [Rmp] [Bzip2] {n n' : Node} {l : Label} (hst : NodeStep n l n')
    (hl : l.1.inbound? = none) : n'.memory = n.memory := by
  have hm := n.step_withMemory n.memory hl
  rw [withMemory_memory, show n.step l.1 = some (n', l.2) from hst, Option.map_some, Option.some.injEq] at hm
  rw [(Prod.mk.inj hm).1]
  rfl

end Reticulum
