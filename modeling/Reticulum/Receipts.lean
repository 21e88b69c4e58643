import Mathlib.Logic.Relation
import Reticulum.Authentication
import Reticulum.LinkSteps
import Reticulum.MultiHop

/-!
# Delivery receipts

A receipt waits for the proof of one packet hash under one key. What relays
rewrite is not hashed, so the receiver of a message proves the hash that the
sender waits for.
-/

namespace Reticulum

open Node

/-! ## What relays rewrite -/

/-- One rewriting of a packet between its sender and its receiver. -/
inductive Rewrite : Packet → Packet → Prop
  | hop (p : Packet) : Rewrite p { p with hops := satSucc p.hops }
  | forwarded {path : PathEntry} {p q : Packet} : forwardPacket path p = some q → Rewrite p q

/-- Any number of rewritings. -/
abbrev Rewrites : Packet → Packet → Prop := Relation.ReflTransGen Rewrite

theorem Rewrite.sameContent {p q : Packet} (h : Rewrite p q) : SameContent p q := by
  cases h with
  | hop => exact ⟨rfl, rfl, rfl, rfl, rfl⟩
  | forwarded hf => exact (forwardPacket_sameContent hf).1

theorem Node.SameContent.trans {p q r : Packet} (h : SameContent p q) (h' : SameContent q r) : SameContent p r :=
  ⟨h'.1.trans h.1, h'.2.trans h.2, h'.3.trans h.3, h'.4.trans h.4, h'.5.trans h.5⟩

theorem Rewrites.sameContent {p q : Packet} (h : Rewrites p q) : SameContent p q := by
  induction h with
  | refl => exact ⟨rfl, rfl, rfl, rfl, rfl⟩
  | tail _ hstep ih => exact ih.trans hstep.sameContent

section
variable [Crypto]

/-- Two packets that are one to every hash of the protocol. -/
structure SameHashes (p q : Packet) : Prop where
  full : q.fullPacketHash = p.fullPacketHash
  packet : q.packetHash = p.packetHash
  linkId : linkIdFromRequest q = linkIdFromRequest p

theorem Node.SameContent.sameHashes {p q : Packet} (h : SameContent p q) : SameHashes p q := by
  refine ⟨?_, h.packetHash, ?_⟩
  · simp only [Packet.fullPacketHash, h.hashablePart]
  · simp only [linkIdFromRequest, linkIdInput, h.hashablePart, h.data]

variable [Rmp] [Bzip2]

/-- A node that serves nothing under the address of a frame sends `b'` when it gets `b`. -/
inductive RelayedAs (b b' : Bytes) : Prop
  | relayed {n : Node} {i j : UInt16} {rng : Option Entropy} {p : Packet} (decoded : Packet.decode b = .ok p)
    (kind : p.packetType = DATA) (offLink : p.destType ≠ LINK)
    (noRequest : ¬ (p.destType = PLAIN ∧ p.destHash = Packet.pathRequestDestinationHash.1))
    (foreign : ∀ l ∈ n.locals, l.destHash.1 ≠ p.destHash)
    (sent : (j, b') ∈ n.enqueued (n.handleInboundInner b i rng).1)

theorem RelayedAs.rewrites {b b' : Bytes} (h : RelayedAs b b') :
    ∃ p q, Packet.decode b = .ok p ∧ Packet.decode b' = .ok q ∧ Rewrites p q := by
  obtain @⟨n, i, j, rng, p, hdec, hkind, hlink, hpath, hforeign, hsent⟩ := h
  have hc := n.handleInboundInner_cases b i rng
  generalize n.handleInboundInner b i rng = out at hc hsent
  have hnone {m : Node} (hm : m.outbound = n.outbound) : (j, b') ∉ n.enqueued m := by
    have happend : m.outbound = n.outbound ++ [] := by rw [hm, List.append_nil]
    rw [enqueued_of_append happend]
    exact List.not_mem_nil
  cases hc with
  | malformed => exact absurd hsent (hnone rfl)
  | duplicate => exact absurd hsent (hnone (by simp))
  | @admitted p' d _ ha hd =>
    cases hdec.symm.trans ha.decoded
    have hkind : (received p).packetType = DATA := hkind
    have hfound : (n.admitted p).locals.find? (·.destHash = d) = none := by
      rw [admitted_locals, (maybePrune_keeps n n.nowSecs).2.2.1, List.find?_eq_none]
      intro l hl h
      exact hforeign l hl (by rw [ha.dest, of_decide_eq_true h])
    cases hd with
    | ignored => exact absurd hsent (hnone (by simp))
    | pathRequest _ hplain hd =>
      exact absurd ⟨hplain, by rw [ha.dest, hd]⟩ hpath
    | linkRequest h | linkProof h | deliveryProof h | resourceProof h | announce h =>
      exact absurd (hkind.symm.trans h) (by decide)
    | linkData _ h => exact absurd h hlink
    | data _ _ _ hcase =>
      cases hcase with
      | ignored => exact absurd hsent (hnone (by simp))
      | badToken => exact absurd hsent (hnone (by simp))
      | message _ h | provenMessage _ h => exact absurd (hfound.symm.trans h) (by simp)
      | relayed =>
        have hf := (n.admitted p).forwardData_cases (received p) d i
        dsimp only at hsent
        generalize (n.admitted p).forwardData (received p) d i = m at hf hsent
        cases hf with
        | dropped | noRoute => exact absurd hsent (hnone (by simp))
        | @forwarded path q hfw =>
          rw [enqueued_emit (by simp)] at hsent
          obtain ⟨-, rfl⟩ := Prod.mk.inj (List.mem_singleton.mp hsent)
          have hw := forwardPacket_wellFormed (received_wellFormed (Packet.decode_wellFormed ha.decoded)) hfw.header
            hfw.forwarded
          refine ⟨p, q, ha.decoded, Packet.decode_encode hw, ?_⟩
          have hhop : { p with hops := satSucc p.hops } = received p := by rw [satSucc_of_lt ha.hops, received]
          exact .tail (.single (hhop ▸ .hop p)) (.forwarded hfw.forwarded)

/-- A frame that any number of nodes pass on. -/
abbrev Carried : Bytes → Bytes → Prop := Relation.ReflTransGen RelayedAs

theorem Carried.rewrites {b b' : Bytes} {p : Packet} (h : Carried b b') (hp : Packet.decode b = .ok p) :
    ∃ q, Packet.decode b' = .ok q ∧ Rewrites p q := by
  induction h with
  | refl => exact ⟨p, hp, .refl⟩
  | tail _ hstep ih =>
    obtain ⟨q, hq, hpq⟩ := ih
    obtain ⟨q', r, hq', hr, hqr⟩ := hstep.rewrites
    cases hq.symm.trans hq'
    exact ⟨r, hr, hpq.trans hqr⟩

/-! ## What a step does to the receipts -/

omit [Rmp] [Bzip2] in
theorem verifyProof_length {pub : PublicIdentity} {data : Bytes} {h : Arr 32} (hv : verifyProof pub data = .ok h) :
    data.length = 96 := by
  unfold verifyProof at hv
  split at hv
  · cases hv
  · split at hv
    · cases hv
    · exact Decidable.not_not.mp ‹_›

/-- A proof leaves the receipts alone, unless it satisfies one of them. -/
inductive ProofEffect (n : Node) (data : Bytes) : Node × List Event → Prop
  | ignored {out : Node × List Event} (pending : out.1.pendingReceipts = n.pendingReceipts)
    (silent : ∀ h, .delivered h ∉ out.2) : ProofEffect n data out
  | delivered {h : Arr 32} {r : PendingReceipt} {n' : Node} (awaited : n.pendingReceipts[h]? = some r)
    (verified : verifyProof r.destinationPublic data = .ok h)
    (pending : n'.pendingReceipts = n.pendingReceipts.erase h) : ProofEffect n data (n', [.delivered h])

/-- No receipt is new or changed, and none is reported as delivered. -/
structure ReceiptsFade (n : Node) (out : Node × List Event) : Prop where
  fewer : ∀ (h : Arr 32) (r : PendingReceipt), out.1.pendingReceipts[h]? = some r → n.pendingReceipts[h]? = some r
  silent : ∀ h, .delivered h ∉ out.2

namespace ReceiptsFade

variable {n : Node} {out : Node × List Event}

omit [Crypto] [Rmp] [Bzip2] in
theorem of_eq (hp : out.1.pendingReceipts = n.pendingReceipts) (hs : ∀ h, .delivered h ∉ out.2) : ReceiptsFade n out :=
  ⟨fun _ _ h => hp ▸ h, hs⟩

omit [Rmp] [Bzip2] in
theorem of_tick {m : Node} (hm : m.pendingReceipts = n.pendingReceipts) (hn : m.PendingOk) (rng : Option Entropy) :
    ReceiptsFade n (m.tickInner rng) := by
  refine ⟨fun h r hr => ?_, fun h he => ?_⟩
  · obtain ⟨_, _, _, -, heq⟩ := tickInner_result m rng
    rw [heq] at hr
    simp only [emit, Std.ExtTreeMap.getElem?_filter'] at hr
    exact hm ▸ (Option.filter_eq_some_iff.mp hr).1
  · rcases mem_tickInner_events hn he with ⟨_, h⟩ | ⟨_, _, h⟩ <;> cases h

end ReceiptsFade

theorem Node.LinkDataCase.receipts {n : Node} {p : Packet} {id : Arr 16} {i : UInt16} {out : Node × List Event}
    (hn : n.PendingOk) (h : LinkDataCase n p id i out) : ReceiptsFade n out := by
  cases h with
  | ignored | keepalive | badToken | touched | data => exact .of_eq rfl (by simp)
  | part _ _ ho =>
    cases ho with
    | refused => exact .of_eq rfl (by simp)
    | taken _ _ hp => cases hp <;> exact .of_eq rfl (by simp)
  | @closed link _ ha =>
    rw [closeLink_touch n id ha.status]
    have hp : (n.closedByPeer id link).pendingReceipts = n.pendingReceipts := rfl
    exact .of_tick hp (hn.closedByPeer id link) none
  | resource _ _ hr => cases hr <;> exact .of_eq rfl (by simp)

theorem Node.DispatchCase.proofEffect {n : Node} {p : Packet} {d : Arr 16} {i : UInt16} {out : Node × List Event}
    (h : DispatchCase n p d i out) (hk : p.packetType = PROOF) : ProofEffect n p.data out := by
  cases h with
  | ignored => exact .ignored rfl (by simp)
  | linkProof _ _ _ hr => cases hr <;> exact .ignored rfl (by simp)
  | resourceProof _ _ _ hr => cases hr <;> exact .ignored rfl (by simp)
  | deliveryProof _ hr =>
    cases hr with
    | ignored => exact .ignored rfl (by simp)
    | delivered hr hv => exact .delivered hr hv rfl
  | pathRequest h | linkRequest h | linkData h | announce h | data h => exact absurd (hk.symm.trans h) (by decide)

theorem Node.DispatchCase.receipts {n : Node} {p : Packet} {d : Arr 16} {i : UInt16} {out : Node × List Event}
    (hn : n.PendingOk) (h : DispatchCase n p d i out) (hk : p.packetType ≠ PROOF) : ReceiptsFade n out := by
  cases h with
  | ignored => exact .of_eq rfl (by simp)
  | pathRequest =>
    obtain ⟨_, _, heq, -⟩ := handlePathRequest_cases n p i
    exact .of_eq (by rw [heq]; rfl) (by simp)
  | linkRequest _ hr => cases hr <;> exact .of_eq rfl (by simp)
  | linkProof h | deliveryProof h | resourceProof h => exact absurd h hk
  | linkData _ _ hr => exact hr.receipts hn
  | announce _ hr => cases hr <;> exact .of_eq rfl (by simp)
  | data _ _ _ hr =>
    cases hr with
    | relayed =>
      have hf := forwardData_cases n p d i
      generalize n.forwardData p d i = m at hf
      cases hf <;> exact .of_eq rfl (by simp)
    | _ => exact .of_eq rfl (by simp)

/-- Of all the proofs a node gets, only one that satisfies a receipt touches the receipts. -/
theorem handleInbound_proofEffect (n : Node) {b : Bytes} {p : Packet} (hp : Packet.decode b = .ok p)
    (hk : p.packetType = PROOF) (i : UInt16) (rng : Option Entropy) :
    ProofEffect n p.data (n.handleInboundInner b i rng) := by
  have hc := n.handleInboundInner_cases b i rng
  generalize n.handleInboundInner b i rng = out at hc
  cases hc with
  | malformed => exact .ignored rfl (by simp)
  | duplicate => exact .ignored (by simp) (by simp)
  | admitted ha hd =>
    cases hp.symm.trans ha.decoded
    cases hd.proofEffect hk with
    | ignored hpending hsilent => exact .ignored (hpending.trans (by simp)) hsilent
    | delivered hr hv hpending => exact .delivered (by simpa using hr) hv (hpending.trans (by simp))

/-- What a step does to the receipts: some expire, a send adds one, its proof removes it. -/
inductive ReceiptStep (n : Node) : Label → Node → Prop
  | faded {l : Label} {n' : Node} (fades : ReceiptsFade n (n', l.2.events)) : ReceiptStep n l n'
  | issued {d : Arr 16} {pt : Bytes} {rng : Entropy} {h : Arr 32} {e : PathEntry} {expiresAt : Nat} {n' : Node}
    (path : n.prunePaths.paths.get d = some e)
    (pending : n'.pendingReceipts = n.pendingReceipts.insert h ⟨e.pub, expiresAt⟩) :
    ReceiptStep n (.sendMessageWithReceipt d pt rng, { ret := .hash (.ok h) }) n'
  | delivered {op : Op} {b : Bytes} {i : UInt16} {rng : Option Entropy} {p : Packet} {h : Arr 32} {r : PendingReceipt}
    {n' : Node} (inbound : op.inbound? = some (b, i, rng)) (decoded : Packet.decode b = .ok p)
    (kind : p.packetType = PROOF) (awaited : n.pendingReceipts[h]? = some r)
    (verified : verifyProof r.destinationPublic p.data = .ok h)
    (pending : n'.pendingReceipts = n.pendingReceipts.erase h) :
    ReceiptStep n (op, { events := [.delivered h] }) n'

omit [Crypto] [Rmp] [Bzip2] in
theorem enqueueDestinationPacket_receipts (n : Node) (p : Packet) (d : Arr 16) :
    (n.enqueueDestinationPacket p d).1.pendingReceipts = n.pendingReceipts := by
  have hc := n.enqueueDestinationPacket_cases p d
  generalize n.enqueueDestinationPacket p d = r at hc
  cases hc <;> rfl

omit [Rmp] [Bzip2] in
theorem sendMessage_receipts (n : Node) (d : Arr 16) (pt : Bytes) (rng : Entropy) :
    (n.sendMessage d pt rng).1.pendingReceipts = n.pendingReceipts := by
  rw [sendMessage_fst]
  have hc := n.sendSingleMessage_cases d pt rng false
  generalize n.sendSingleMessage d pt rng false = r at hc
  cases hc with
  | failed | sent => rfl
  | sentWithReceipt _ _ h => cases h

omit [Rmp] [Bzip2] in
theorem sendMessageWithReceipt_receipts (n : Node) (d : Arr 16) (pt : Bytes) (rng : Entropy) :
    ReceiptStep n (.sendMessageWithReceipt d pt rng, { ret := .hash (n.sendMessageWithReceipt d pt rng).2 })
      (n.sendMessageWithReceipt d pt rng).1 := by
  have hc := n.sendSingleMessage_cases d pt rng true
  unfold sendMessageWithReceipt
  generalize n.sendSingleMessage d pt rng true = r at hc
  cases hc with
  | failed => exact .faded (.of_eq rfl (by simp))
  | sent _ _ h => cases h
  | sentWithReceipt hpath => exact .issued hpath rfl

omit [Rmp] [Bzip2] in
theorem sendGroupMessage_receipts (n : Node) (d : Arr 16) (pt : Bytes) (rng : Entropy) :
    (n.sendGroupMessage d pt rng).1.pendingReceipts = n.pendingReceipts := by
  unfold sendGroupMessage
  split
  · rfl
  · exact enqueueDestinationPacket_receipts n _ d

omit [Rmp] [Bzip2] in
theorem establishLink_receipts (n : Node) (d : Arr 16) (rng : Entropy) :
    (n.establishLink d rng).1.pendingReceipts = n.pendingReceipts := by
  have hc := n.establishLink_cases d rng
  generalize n.establishLink d rng = r at hc
  cases hc <;> rfl

omit [Rmp] [Bzip2] in
theorem linkSend_receipts (n : Node) (id : Arr 16) (pt : Bytes) (rng : Entropy) :
    (n.linkSend id pt rng).1.pendingReceipts = n.pendingReceipts := by
  have hc := n.linkSend_cases id pt rng
  generalize n.linkSend id pt rng = r at hc
  cases hc <;> rfl

omit [Rmp] [Bzip2] in
theorem sendAnnounce_receipts (n : Node) (d : Arr 16) (appData : Bytes) (rng : Entropy) (i : UInt16) :
    (n.sendAnnounce d appData rng i).pendingReceipts = n.pendingReceipts := by
  have hc := n.sendAnnounce_cases d appData rng i
  generalize n.sendAnnounce d appData rng i = m at hc
  cases hc <;> rfl

omit [Crypto] [Rmp] [Bzip2] in
theorem closeLink_receipts (n : Node) (id : Arr 16) : (n.closeLink id).pendingReceipts = n.pendingReceipts := by
  have hc := n.closeLink_cases id
  generalize n.closeLink id = m at hc
  cases hc <;> rfl

theorem NodeStep.receipts {n n' : Node} {l : Label} (hn : n.PendingOk) (h : NodeStep n l n') : ReceiptStep n l n' := by
  obtain ⟨op, out⟩ := l
  unfold NodeStep at h
  have hsame {ret : Ret} {n' : Node} (hp : n'.pendingReceipts = n.pendingReceipts) :
      ReceiptStep n (op, { ret := ret }) n' := .faded (.of_eq hp (by simp))
  have hinbound {b : Bytes} {i : UInt16} {rng : Option Entropy} (hop : op.inbound? = some (b, i, rng)) :
      ReceiptStep n (op, { events := (n.handleInboundInner b i rng).2 }) (n.handleInboundInner b i rng).1 := by
    have hc := n.handleInboundInner_cases b i rng
    generalize n.handleInboundInner b i rng = out at hc
    cases hc with
    | malformed => exact .faded (.of_eq rfl (by simp))
    | duplicate => exact .faded (.of_eq (by simp) (by simp))
    | @admitted p _ _ ha hd =>
      have hpending : (n.admitted p).pendingReceipts = n.pendingReceipts := by simp
      by_cases hk : p.packetType = PROOF
      · cases hd.proofEffect hk with
        | ignored hp hs => exact .faded (.of_eq (hp.trans hpending) hs)
        | delivered hr hv hp => exact .delivered hop ha.decoded hk (hpending ▸ hr) hv (hpending ▸ hp)
      · have hf := hd.receipts (hn.of_eq (by simp)) hk
        exact .faded ⟨fun h r hr => hpending ▸ hf.fewer h r hr, hf.silent⟩
  cases op with
  | setClock | enableTransport | registerSingleDestination | registerGroupDestination
  | registerGroupDestinationWithIdentity | registerPlainDestination | setProve | unregisterInterface | prunePaths
  | requestPath =>
    cases h
    exact hsame rfl
  | registerInterface i =>
    cases h
    refine hsame ?_
    unfold registerInterface
    split <;> rfl
  | pollOutbound =>
    simp only [Node.step, pollOutbound] at h
    split at h <;> cases h <;> exact hsame rfl
  | sendAnnounce d appData rng i =>
    cases h
    exact hsame (sendAnnounce_receipts n d appData rng i)
  | sendMessage d pt rng =>
    cases h
    exact hsame (sendMessage_receipts n d pt rng)
  | sendMessageWithReceipt d pt rng =>
    cases h
    exact sendMessageWithReceipt_receipts n d pt rng
  | sendGroupMessage d pt rng =>
    cases h
    exact hsame (sendGroupMessage_receipts n d pt rng)
  | sendPlainMessage d pt =>
    cases h
    exact hsame (enqueueDestinationPacket_receipts n _ d)
  | establishLink d rng =>
    cases h
    exact hsame (establishLink_receipts n d rng)
  | linkSend id pt rng =>
    cases h
    exact hsame (linkSend_receipts n id pt rng)
  | sendResource fuel id data rng =>
    simp only [Node.step, Option.map_eq_some_iff] at h
    obtain ⟨r, hr, h⟩ := h
    cases h
    cases sendResource_cases hr <;> exact hsame rfl
  | closeLink id =>
    cases h
    exact hsame (closeLink_receipts n id)
  | tick =>
    cases h
    exact .faded (.of_tick rfl hn none)
  | tickWithEntropy rng =>
    cases h
    exact .faded (.of_tick rfl hn (some rng))
  | handleInbound | handleInboundWithEntropy =>
    cases h
    exact hinbound rfl

/-! ## Receipts along a run -/

variable {start : Node}

/-- A call before the end of `tr` returned `h`, when the key of its path was `pub`; `h` is not delivered since. -/
inductive Awaits (start : Node) (tr : List Label) (h : Arr 32) (pub : PublicIdentity) : Prop
  | sent {before after : List Label} {m : Node} {d : Arr 16} {pt : Bytes} {rng : Entropy} {e : PathEntry}
    (split : tr = before ++ (.sendMessageWithReceipt d pt rng, { ret := .hash (.ok h) }) :: after)
    (run : Lts.Run NodeStep start before m) (path : m.prunePaths.paths.get d = some e) (key : e.pub = pub)
    (once : ∀ l ∈ after, .delivered h ∉ l.2.events)

theorem Awaits.snoc {tr : List Label} {l : Label} {h : Arr 32} {pub : PublicIdentity} (ha : Awaits start tr h pub)
    (hl : .delivered h ∉ l.2.events) : Awaits start (tr ++ [l]) h pub := by
  obtain ⟨rfl, hrun, hpath, hkey, honce⟩ := ha
  refine .sent (List.append_assoc _ _ _) hrun hpath hkey fun l' hl' => ?_
  rcases List.mem_append.mp hl' with hl' | hl'
  · exact honce l' hl'
  · rwa [List.mem_singleton.mp hl']

/-- Every receipt stems from a call that returned its hash. -/
theorem awaits_of_run {identity : Identity} {clock : UInt64} {tr : List Label} {n : Node}
    (hrun : Lts.Run NodeStep (withClock identity clock) tr n) {h : Arr 32} {r : PendingReceipt}
    (hr : n.pendingReceipts[h]? = some r) : Awaits (withClock identity clock) tr h r.destinationPublic := by
  induction hrun generalizing h r with
  | nil => simp [withClock] at hr
  | @snoc tr n l n' hrun hstep ih =>
    cases hstep.receipts (pendingOk_of_run hrun) with
    | faded hf => exact (ih (hf.fewer h r hr)).snoc (hf.silent h)
    | issued hpath hp =>
      rw [hp, Std.ExtTreeMap.getElem?_insert] at hr
      split at hr
      · rename_i heq
        obtain rfl := Std.LawfulEqCmp.compare_eq_iff_eq.mp heq
        cases hr
        exact .sent rfl hrun hpath rfl (by simp)
      · exact (ih hr).snoc (by simp)
    | @delivered _ _ _ _ _ h' _ _ _ _ _ _ _ hp =>
      rw [hp, Std.ExtTreeMap.getElem?_erase] at hr
      split at hr
      · cases hr
      · rename_i hne
        refine (ih hr).snoc fun hmem => hne ?_
        cases List.mem_singleton.mp hmem
        exact Std.ReflCmp.compare_self

/-! ## The proof of the receiver -/

omit [Rmp] [Bzip2] in
theorem verifyProof_buildProof (hS : Crypto.SignVerifies) (identity : Identity) (h : Arr 32) :
    verifyProof identity.public (buildProof identity h) = .ok h := by
  have hlen : (buildProof identity h).length = 96 := by simp [buildProof, h.2, (identity.sign h.1).2]
  have htake : (buildProof identity h).take 32 = h.1 := List.take_left' h.2
  have hdrop : (buildProof identity h).drop 32 = (identity.sign h.1).1 := List.drop_left' h.2
  unfold verifyProof
  simp only [hlen, Nat.lt_irrefl, if_false, ne_eq, not_true_eq_false, dite_false, htake, hdrop]
  rw [identity.verify_sign hS h.1]

theorem dispatch_deliveryProof {n : Node} {p : Packet} {d : Arr 16} {i : UInt16} (ht : p.packetType = PROOF)
    (hs : p.destType = SINGLE) (rng : Option Entropy) : n.dispatch p d i rng = n.handleDeliveryProof p d := by
  have hkinds : PROOF ≠ DATA ∧ PROOF ≠ LINKREQUEST ∧ SINGLE ≠ LINK := by decide
  unfold dispatch
  simp only [ht, hs, hkinds, false_and, and_false, and_self, if_false, if_true]

/-- The packet in which a receiver proves a message. -/
def proofOf (identity : Identity) (h : Arr 32) : Packet :=
  Packet.explicitProof (proofDestinationHash h) (buildProof identity h)

/-- The proof of a message satisfies the receipt for it, however it got there. -/
theorem proof_satisfies (hS : Crypto.SignVerifies) {n : Node} {identity : Identity} {h : Arr 32} {r : PendingReceipt}
    {q : Packet} {f : Bytes} {t : Arr 16} (hr : n.pendingReceipts[h]? = some r)
    (hkey : r.destinationPublic = identity.public) (hq : Rewrites (proofOf identity h) q) (ha : n.Admits f q t)
    (i : UInt16) (rng : Option Entropy) : (n.handleInboundInner f i rng).2 = [.delivered h] := by
  have hs := hq.sameContent
  have ht : t = proofDestinationHash h := Subtype.ext (ha.dest.symm.trans hs.destHash)
  have hdata : (received q).data = buildProof identity h := hs.data
  have hslice : Arr.slice? (buildProof identity h) 0 32 = some h := verifyProof_ok (verifyProof_buildProof hS identity h)
  have hr : (n.admitted q).pendingReceipts[h]? = some r := by simpa using hr
  rw [handleInboundInner_of_admits ha, dispatch_deliveryProof (p := received q) hs.packetType hs.destType,
    handleDeliveryProof, hdata, hslice]
  simp only [ht, ne_eq, not_true_eq_false, if_false, hr, hkey, verifyProof_buildProof hS]

/-- A node that serves `d`, with proofs turned on, is handed the frame. -/
structure Proves (n : Node) (f : Bytes) (q : Packet) (d : Arr 16) : Prop where
  admits : n.Admits f q d
  here : n.addressedElsewhere q = false
  served : ∃ l, n.locals.find? (·.destHash = d) = some l ∧ l.kind = .single true

/-- A receiver opens a message under its key and answers with the proof of its hash. -/
theorem Proves.answers (hD : Crypto.DhCommutes) (hA : Crypto.AesInverts) {n : Node} {f : Bytes} {q : Packet} {d : Arr 16}
    {pt : Bytes} {rng : Entropy} (hp : Proves n f q d) (hq : SameContent (messageFor d n.identity.public pt rng) q)
    (i : UInt16) (entropy : Option Entropy) :
    (n.handleInboundInner f i entropy).2 = [.message d pt] ∧
      n.enqueued (n.handleInboundInner f i entropy).1 = [(i, (proofOf n.identity q.fullPacketHash).encode)] := by
  obtain ⟨l, hl, hkind⟩ := hp.served
  have hsingle : (received q).destType = SINGLE := hq.destType
  have hkeeps := n.maybePrune_keeps n.nowSecs
  have helse : (n.admitted q).addressedElsewhere (received q) = false := by
    have hhere := hp.here
    simpa only [addressedElsewhere, received, admitted_transportEnabled, admitted_identity, hkeeps] using hhere
  have hopen : (n.admitted q).openLocal l.kind (received q) = some (.ok pt, true) := by
    have hdata : (received q).data = (messageFor d n.identity.public pt rng).data := hq.data
    rw [hkind, openLocal, if_pos hsingle, hdata, admitted_identity, hkeeps.1]
    exact congrArg (fun r => some (r, true)) (Token.decrypt_encrypt hD hA n.identity pt _ _)
  have hfound : (n.admitted q).locals.find? (·.destHash = d) = some l := by
    rw [admitted_locals, hkeeps.2.2.1]
    exact hl
  have hhash : (received q).fullPacketHash = q.fullPacketHash := rfl
  rw [handleInboundInner_of_admits hp.admits, dispatch_data (p := received q) hq.packetType, handleData, helse, hfound]
  · simp only [hopen, Bool.false_eq_true, if_false, if_true]
    refine ⟨trivial, ?_⟩
    rw [← addSigned, push_eq_emit, enqueued_emit (by simp), admitted_identity, hkeeps.1, hhash]
    rfl
  · rw [hsingle]
    decide
  · rw [hsingle]
    exact fun h => absurd h.1 (by decide)

omit [Rmp] [Bzip2] in
/-- A send with a receipt puts one frame in the queue, and the receipt waits for its hash under the key of the path. -/
theorem sendMessageWithReceipt_sent {n : Node} {d : Arr 16} {pt : Bytes} {rng : Entropy} {h : Arr 32} {e : PathEntry}
    (hok : (n.sendMessageWithReceipt d pt rng).2 = .ok h) (he : n.prunePaths.paths.get d = some e) :
    ∃ p, SameContent (messageFor d e.pub pt rng) p ∧ p.fullPacketHash = h ∧
      n.enqueued (n.sendMessageWithReceipt d pt rng).1 = [(e.interface, p.encode)] ∧ Packet.decode p.encode = .ok p ∧
      ∃ r, (n.sendMessageWithReceipt d pt rng).1.pendingReceipts[h]? = some r ∧ r.destinationPublic = e.pub := by
  have hc := n.sendSingleMessage_cases d pt rng true
  unfold sendMessageWithReceipt at hok ⊢
  generalize n.sendSingleMessage d pt rng true = r at hc hok
  cases hc with
  | failed => cases hok
  | sent _ _ h => cases h
  | @sentWithReceipt e' p he' hr =>
    cases hok
    cases he'.symm.trans he
    refine ⟨p, route_sameContent hr, rfl, enqueued_emit rfl _,
      Packet.decode_encode (route_wellFormed (wellFormed_dataFor (by decide) _ _) hr),
      ⟨e.pub, satAdd n.nowSecs RECEIPT_TIMEOUT_SECS⟩, ?_, rfl⟩
    simp only [addReceipt]
    exact Std.ExtTreeMap.getElem?_insert_self

/-- A delivery is reported once for a call that returned its hash, on a proof under the key of the path at that time. -/
structure Authentic (start : Node) (tr : List Label) (l : Label) (h : Arr 32) : Prop where
  alone : l.2.events = [.delivered h]
  proven : ∃ b i rng p pub, l.1.inbound? = some (b, i, rng) ∧ Packet.decode b = .ok p ∧ p.packetType = PROOF ∧
    p.data.length = 96 ∧ verifyProof pub p.data = .ok h ∧ Awaits start tr h pub

theorem NodeStep.authentic {identity : Identity} {clock : UInt64} {tr : List Label} {n n' : Node} {l : Label} {h : Arr 32}
    (hrun : Lts.Run NodeStep (withClock identity clock) tr n) (hstep : NodeStep n l n') (he : .delivered h ∈ l.2.events) :
    Authentic (withClock identity clock) tr l h := by
  cases hstep.receipts (pendingOk_of_run hrun) with
  | faded hf => exact absurd he (hf.silent h)
  | issued => simp at he
  | delivered hop hdec hkind hr hv =>
    cases List.mem_singleton.mp he
    exact ⟨rfl, _, _, _, _, _, hop, hdec, hkind, verifyProof_length hv, hv, awaits_of_run hrun hr⟩

/-- From the receipt of a send to its delivery: the message gets through any relays to a receiver that has the key of
the path, and the proof that it sends satisfies the receipt. -/
structure Returns (source dest : Node) (d : Arr 16) (pt : Bytes) (rng : Entropy) (b' : Bytes) (h : Arr 32) : Prop where
  pending : ∃ r, (source.sendMessageWithReceipt d pt rng).1.pendingReceipts[h]? = some r ∧
    r.destinationPublic = dest.identity.public
  answered : ∀ j entropy, (dest.handleInboundInner b' j entropy).2 = [.message d pt] ∧
    dest.enqueued (dest.handleInboundInner b' j entropy).1 = [(j, (proofOf dest.identity h).encode)]
  satisfied : ∀ (n : Node) (r : PendingReceipt) (q : Packet) (f : Bytes) (t : Arr 16) (i : UInt16) (entropy : Option Entropy),
    n.pendingReceipts[h]? = some r → r.destinationPublic = dest.identity.public → Rewrites (proofOf dest.identity h) q →
    n.Admits f q t → (n.handleInboundInner f i entropy).2 = [.delivered h]

/-- Receipts are satisfied by genuine proofs only and once each, no other proof touches them, and what relays rewrite is
not hashed; so the proof of the receiver satisfies the receipt of the sender. -/
theorem receipts_authentic (hS : Crypto.SignVerifies) (hD : Crypto.DhCommutes) (hA : Crypto.AesInverts) :
    (∀ {identity : Identity} {clock : UInt64} {tr : List Label} {n n' : Node} {l : Label} {h : Arr 32},
      Lts.Run NodeStep (withClock identity clock) tr n → NodeStep n l n' → .delivered h ∈ l.2.events →
      Authentic (withClock identity clock) tr l h) ∧
    (∀ (n : Node) {b : Bytes} {p : Packet}, Packet.decode b = .ok p → p.packetType = PROOF →
      ∀ i rng, ProofEffect n p.data (n.handleInboundInner b i rng)) ∧
    (∀ {p q : Packet}, Rewrites p q → SameHashes p q) ∧
    (∀ {b b' : Bytes} {p : Packet}, Carried b b' → Packet.decode b = .ok p →
      ∃ q, Packet.decode b' = .ok q ∧ SameHashes p q) ∧
    ∀ {source dest : Node} {d : Arr 16} {pt : Bytes} {rng : Entropy} {h : Arr 32} {e : PathEntry} {i : UInt16}
      {b b' : Bytes} {q : Packet}, (source.sendMessageWithReceipt d pt rng).2 = .ok h →
      source.prunePaths.paths.get d = some e → e.pub = dest.identity.public →
      (i, b) ∈ source.enqueued (source.sendMessageWithReceipt d pt rng).1 → Carried b b' → Proves dest b' q d →
      Returns source dest d pt rng b' h := by
  refine ⟨NodeStep.authentic, fun n _ _ hp hk i rng => handleInbound_proofEffect n hp hk i rng,
    fun h => h.sameContent.sameHashes, fun h hp => ?_, ?_⟩
  · obtain ⟨q, hq, hrw⟩ := h.rewrites hp
    exact ⟨q, hq, hrw.sameContent.sameHashes⟩
  · intro source dest d pt rng h e i b b' q hok he hkey hb hcarried hproves
    obtain ⟨p, hp, hhash, hsent, hdec, r, hr, hrkey⟩ := sendMessageWithReceipt_sent hok he
    rw [hsent] at hb
    obtain ⟨-, rfl⟩ := Prod.mk.inj (List.mem_singleton.mp hb)
    obtain ⟨q', hq', hrw⟩ := hcarried.rewrites hdec
    cases hq'.symm.trans hproves.admits.decoded
    have hcontent : SameContent (messageFor d dest.identity.public pt rng) q := (hkey ▸ hp).trans hrw.sameContent
    have hfull : q.fullPacketHash = h := hrw.sameContent.sameHashes.full.trans hhash
    refine ⟨⟨r, hr, hrkey.trans hkey⟩, fun j entropy => ?_, fun n r q f t i entropy hr hkey hq ha => ?_⟩
    · rw [← hfull]
      exact hproves.answers hD hA hcontent j entropy
    · exact proof_satisfies hS hr hkey hq ha i entropy

end

section
open Sample

/-- The message on its way to the first relay, to the second one and to the town. -/
def townRouted : Packet := viaNextHop townMessage (identity 5).hash

def townRelayed : Packet := { townRouted with hops := 1, transportId := some (identity 7).hash }

def townArrived : Packet := { townMessage with hops := 2 }

theorem townMessage_wellFormed : townMessage.WellFormed := wellFormed_dataFor (by decide) _ _

theorem townRelayed_wellFormed : townRelayed.WellFormed :=
  ((townMessage_wellFormed.toHeader2 (identity 5).hash).withHops 1).withTransportId rfl _

theorem town_relays : Carried townRouted.encode townArrived.encode := by
  have hnear : (1, townRelayed.encode) ∈
      townNear.node.enqueued (townNear.node.handleInboundInner townRouted.encode 0 none).1 := by
    decide +kernel
  have hfar : (1, townArrived.encode) ∈
      townFar.node.enqueued (townFar.node.handleInboundInner townRelayed.encode 0 none).1 := by
    decide +kernel
  have hplain : SINGLE ≠ PLAIN := by decide
  have hrouted : Packet.decode townRouted.encode = .ok townRouted :=
    Packet.decode_encode (townMessage_wellFormed.toHeader2 _)
  have hfirst : RelayedAs townRouted.encode townRelayed.encode :=
    .relayed hrouted rfl (by decide) (fun h => hplain h.1) (by decide +kernel) hnear
  have hsecond : RelayedAs townRelayed.encode townArrived.encode :=
    .relayed (Packet.decode_encode townRelayed_wellFormed) rfl (by decide) (fun h => hplain h.1) (by decide +kernel) hfar
  exact .tail (.single hfirst) hsecond

theorem town_proves : Proves townProver townArrived.encode townArrived townDest :=
  ⟨⟨Packet.decode_encode (townMessage_wellFormed.withHops 2), by decide, by decide +kernel, rfl⟩, by decide +kernel,
    ⟨nameHash "town" [], townDest, .single true⟩, by decide +kernel, rfl⟩

theorem receipts_authentic_town : ∃ h, (townSource.sendMessageWithReceipt townDest [1, 2, 3] (entropy 11)).2 = .ok h ∧
    Returns townSource townProver townDest [1, 2, 3] (entropy 11) townArrived.encode h := by
  have hok : (townSource.sendMessageWithReceipt townDest [1, 2, 3] (entropy 11)).2 = .ok townRouted.fullPacketHash := by
    decide +kernel
  have hpath : ∃ e, townSource.prunePaths.paths.get townDest = some e ∧ e.pub = townProver.identity.public := by
    decide +kernel
  obtain ⟨e, he, hkey⟩ := hpath
  have hsent : (4, townRouted.encode) ∈
      townSource.enqueued (townSource.sendMessageWithReceipt townDest [1, 2, 3] (entropy 11)).1 := by
    decide +kernel
  exact ⟨_, hok, (receipts_authentic signVerifies dhCommutes aesInverts).2.2.2.2 hok he hkey hsent town_relays town_proves⟩

end

end Reticulum
