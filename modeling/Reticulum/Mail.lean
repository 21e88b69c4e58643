import Reticulum.Binding
import Reticulum.MultiHop
import Reticulum.Runtime

/-!
# Who a message is from

A driver reports a message only as coming from a key that an announce of its
run was signed with, and only if that key signed the message. The source that
is reported is the delivery destination of that key, whatever the announce was
for.
-/

namespace Reticulum

open Node

section
variable [Crypto]

/-- An announce among the inbound frames of these operations that verifies under its key. -/
def HeardIn (ops : List Op) (pub : PublicIdentity) : Prop :=
  ∃ op ∈ ops, ∃ b i rng p d a, op.inbound? = some (b, i, rng) ∧ Packet.decode b = .ok p ∧ p.packetType = ANNOUNCE ∧
    p.destHash = d.1 ∧ Announce.parse p.data p.contextFlag = .ok a ∧ a.verify d = .ok () ∧
    PublicIdentity.fromBytes a.pub.1 = .ok pub

theorem HeardIn.mono {ops ops' : List Op} {pub : PublicIdentity} (h : HeardIn ops pub) (hsub : ops ⊆ ops') :
    HeardIn ops' pub := by
  obtain ⟨op, hop, h⟩ := h
  exact ⟨op, hsub hop, h⟩

/-- The operations of the node among the commands. -/
def HostLabel.ops (l : HostLabel) : List Op :=
  match l.op with
  | .node op => [op]
  | _ => []

variable [Rmp] [RmpF64]

/-- A message event is addressed to the delivery destination of `owner`, and its source is the delivery destination of
a key that was heard and that signed the six fields. -/
def Genuine (owner : Identity) (ops : List Op) (event : DriverEvent) : Prop :=
  ∀ destination source timestamp title content fields,
    event = .lxmfMessage destination source timestamp title content fields →
    destination = deliveryDestinationHash owner.public ∧
    ∃ (pub : PublicIdentity) (m : LxmfMessage), HeardIn ops pub ∧ deliveryDestinationHash pub = source ∧
      m.WellFormed ∧ pub.verify m.signedPart m.signature = .ok () ∧
      event = lxmfEvent (.message m)

/-- The router of the driver, which asks for no stamp and remembers only who was heard. -/
structure RouterOf (owner : Identity) (ops : List Op) (r : LxmfRouter) : Prop where
  address : r.localDestination = deliveryDestinationHash owner.public
  free : r.stampCost = none
  sources : ∀ (d : Arr 16) (pub : PublicIdentity), r.sourceIdentities[d]? = some pub → HeardIn ops pub

/-- What a driver knows about others, it knows from announces. -/
structure Trusting (owner : Identity) (ops : List Op) (h : Host) : Prop where
  identity : h.node.identity = owner
  paths : ∀ d e, h.node.paths.get d = some e → HeardIn ops e.pub
  router : ∀ lxmf, h.lxmf = some lxmf → RouterOf owner ops lxmf.router

variable {owner : Identity} {ops ops' : List Op} {r : LxmfRouter} {h : Host}

omit [Rmp] [RmpF64] in
theorem RouterOf.mono (hr : RouterOf owner ops r) (hsub : ops ⊆ ops') : RouterOf owner ops' r :=
  ⟨hr.address, hr.free, fun d pub hs => (hr.sources d pub hs).mono hsub⟩

omit [Rmp] [RmpF64] in
theorem RouterOf.rememberSource (hr : RouterOf owner ops r) {pub : PublicIdentity} (hpub : HeardIn ops pub) :
    RouterOf owner ops (r.rememberSource pub).1 := by
  refine ⟨hr.address, hr.free, fun d pub' hs => ?_⟩
  simp only [LxmfRouter.rememberSource, Std.ExtTreeMap.getElem?_insert] at hs
  split at hs
  · cases hs
    exact hpub
  · exact hr.sources d pub' hs

omit [RmpF64] in
/-- A node operation adds no key that its frame does not verify under. -/
theorem Trusting.node [Bzip2] (ht : Trusting owner ops h) {l : Label} {n : Node} (hst : NodeStep h.node l n) :
    Trusting owner (ops ++ [l.1]) { h with node := n } := by
  have hsub : ops ⊆ ops ++ [l.1] := List.subset_append_left _ _
  refine ⟨hst.identity.trans ht.identity, fun d e he => ?_, fun lxmf hl => (ht.router lxmf hl).mono hsub⟩
  rcases hst.path he with he | ⟨b, i, rng, p, a, hop, htake, -⟩
  · exact (ht.paths d e he).mono hsub
  · exact ⟨l.1, by simp, b, i, rng, p, d, a, hop, htake.admits.decoded, htake.kind, htake.admits.dest,
      htake.announces.parsed, htake.announces.verified, htake.key⟩

omit [RmpF64] in
theorem Trusting.silent [Bzip2] (ht : Trusting owner ops h) {l : Label} {n : Node} (hst : NodeStep h.node l n)
    (hl : l.1.inbound? = none) : Trusting owner ops { h with node := n } := by
  refine ⟨hst.identity.trans ht.identity, fun d e he => ?_, ht.router⟩
  rcases hst.path he with he | ⟨b, i, rng, p, a, hop, -⟩
  · exact ht.paths d e he
  · rw [hl] at hop
    cases hop

omit [Rmp] [RmpF64] in
theorem Trusting.withRuntime (ht : Trusting owner ops h) (lxmf : LxmfRuntime) (hr : RouterOf owner ops lxmf.router) :
    Trusting owner ops { h with lxmf := some lxmf } :=
  ⟨ht.identity, ht.paths, fun _ hl => Option.some.inj hl ▸ hr⟩

omit [Rmp] [RmpF64] in
theorem Trusting.remember (ht : Trusting owner ops h) (event : Event) : Trusting owner ops (h.remember event) := by
  unfold Host.remember
  split
  · split
    · rename_i pub lxmf hpub hlxmf
      obtain ⟨e, he, rfl⟩ := Option.map_eq_some_iff.mp hpub
      exact ht.withRuntime _ ((ht.router lxmf hlxmf).rememberSource (ht.paths _ e he))
    · exact ht
  · exact ht

theorem Host.sendPending_cases (h : Host) (rng : Entropy) (event : Event) :
    ((h.sendPending rng event).1 = h ∧
      ∀ linkId lxmf, event = .linkEstablished linkId → h.lxmf = some lxmf → lxmf.pendingDirect[linkId]? = none) ∨
    ∃ linkId lxmf message, event = .linkEstablished linkId ∧ h.lxmf = some lxmf ∧
      lxmf.pendingDirect[linkId]? = some message ∧
      (h.sendPending rng event).1 =
        { node := (h.node.linkSend linkId message.pack rng).1
          lxmf := some { lxmf with pendingDirect := lxmf.pendingDirect.erase linkId } } := by
  unfold Host.sendPending
  split
  · rename_i linkId
    split
    · rename_i hl
      exact .inl ⟨rfl, fun _ _ _ hl' => nomatch hl.symm.trans hl'⟩
    · rename_i lxmf hl
      split
      · rename_i hm
        refine .inl ⟨rfl, fun _ _ he hl' => ?_⟩
        cases he
        cases hl.symm.trans hl'
        exact hm
      · rename_i message hm
        refine .inr ⟨linkId, lxmf, message, rfl, hl, hm, ?_⟩
        dsimp only [LxmfRouter.sendDirect]
        split <;> rename_i heq <;> rw [heq]
  · rename_i hother
    exact .inl ⟨rfl, fun linkId _ he => absurd he (hother linkId)⟩

theorem Trusting.sendPending [Bzip2] (ht : Trusting owner ops h) (rng : Entropy) (event : Event) :
    Trusting owner ops (h.sendPending rng event).1 := by
  rcases h.sendPending_cases rng event with ⟨heq, -⟩ | ⟨linkId, lxmf, message, -, hl, -, heq⟩
  · rwa [heq]
  · rw [heq]
    exact (ht.silent (h.node.step_linkSend linkId message.pack rng) rfl).withRuntime _ (ht.router lxmf hl)

variable [Hkdf]

/-- A message that the driver makes of an event. -/
structure Converted (h : Host) (event : Event) (m : LxmfMessage) : Prop where
  runtime : ∃ lxmf, h.lxmf = some lxmf ∧
    ((∃ d pt, event = .message d pt ∧ lxmf.router.receiveOpportunistic d pt = some (.ok (.message m))) ∨
      ∃ id pt, event = .linkData id pt ∧ lxmf.router.receiveDirect pt = some (.ok (.message m)))

theorem convert_cases {event : Event} {out : DriverEvent} (hout : h.convert event = some out) :
    out = .node event ∨ ∃ m, out = lxmfEvent (.message m) ∧ Converted h event m := by
  unfold Host.convert at hout
  dsimp only at hout
  obtain ⟨r, hr, hout⟩ := Option.map_eq_some_iff.mp hout
  subst hout
  split at hr
  · rename_i lxmf d pt hl
    obtain ⟨r', hr', rfl⟩ := Option.map_eq_some_iff.mp hr
    match r' with
    | .error _ => exact .inl rfl
    | .ok (.message m) => exact .inr ⟨m, rfl, lxmf, hl, .inl ⟨d, pt, rfl, hr'⟩⟩
  · rename_i lxmf id pt hl
    obtain ⟨r', hr', rfl⟩ := Option.map_eq_some_iff.mp hr
    match r' with
    | .error _ => exact .inl rfl
    | .ok (.message m) => exact .inr ⟨m, rfl, lxmf, hl, .inr ⟨id, pt, rfl, hr'⟩⟩
  · cases hr
    exact .inl rfl

omit [Hkdf] in
theorem genuine_node (event : Event) : Genuine owner ops (.node event) := by
  intro _ _ _ _ _ _ he
  cases he

/-- What the driver makes of an event of its node. -/
theorem Trusting.convert (ht : Trusting owner ops h) {event : Event} {out : DriverEvent}
    (hout : h.convert event = some out) : Genuine owner ops out := by
  rcases convert_cases hout with rfl | ⟨m, rfl, lxmf, hl, hm⟩
  · exact genuine_node _
  · have hr := ht.router lxmf hl
    have haccepts : lxmf.router.Accepts m := by
      rcases hm with ⟨d, pt, -, hm⟩ | ⟨id, pt, -, hm⟩
      · exact .of_receiveDirect (LxmfRouter.receiveOpportunistic_iff.mp hm).2
      · exact .of_receiveDirect hm
    intro _ _ _ _ _ _ he
    cases he
    obtain ⟨pub, hsource, haddr, hsigned⟩ := haccepts.signed
    exact ⟨haccepts.destination.trans hr.address, pub, m, hr.sources _ _ hsource, haddr, haccepts.wellFormed, hsigned, rfl⟩

variable [Bzip2]

omit [Bzip2] in
/-- What every event keeps holds after all of them; and what the driver hands out is an error, or was made of an event. -/
theorem emitNodeEvents_spec {I : Host → Prop} {h h' : Host} {rng : Nat → Entropy} {events : List Event}
    {out : List DriverEvent}
    (hI : ∀ h rng, ∀ event ∈ events, I h → I ((h.remember event).sendPending rng event).1) (hi : I h)
    (hout : h.emitNodeEvents rng events = some (h', out)) :
    I h' ∧ ∀ e ∈ out, (∃ error, e = .node (.error error)) ∨ ∃ h₁ event, I h₁ ∧ event ∈ events ∧ h₁.convert event = some e := by
  induction events generalizing h rng out with
  | nil =>
    cases hout
    exact ⟨hi, by simp⟩
  | cons event events ih =>
    unfold Host.emitNodeEvents at hout
    split at hout
    · cases hout
    rename_i h₁ first hfirst
    split at hout
    · cases hout
    rename_i h₂ rest hrest
    cases hout
    obtain ⟨e, he, heq⟩ := Option.map_eq_some_iff.mp hfirst
    cases heq
    have hi₁ := hI h (rng 0) event List.mem_cons_self hi
    obtain ⟨hlast, hmade⟩ := ih (fun h rng e' he' => hI h rng e' (List.mem_cons_of_mem _ he')) hi₁ hrest
    refine ⟨hlast, fun e he' => ?_⟩
    rcases List.mem_append.mp he' with he' | he'
    · rcases List.mem_cons.mp he' with rfl | he'
      · exact .inr ⟨_, event, hi₁, List.mem_cons_self, he⟩
      · obtain ⟨error, -, rfl⟩ := Option.map_eq_some_iff.mp (Option.mem_toList.mp he')
        exact .inl ⟨error, rfl⟩
    · rcases hmade e he' with herror | ⟨h₃, event', hi₃, hmem, hconv⟩
      · exact .inl herror
      · exact .inr ⟨h₃, event', hi₃, List.mem_cons_of_mem _ hmem, hconv⟩

theorem Trusting.emitNodeEvents {h' : Host} (ht : Trusting owner ops h) {rng : Nat → Entropy} {events : List Event}
    {out : List DriverEvent} (hout : h.emitNodeEvents rng events = some (h', out)) :
    Trusting owner ops h' ∧ ∀ e ∈ out, Genuine owner ops e := by
  obtain ⟨hlast, hmade⟩ := emitNodeEvents_spec (I := Trusting owner ops)
    (fun h rng event _ ht => (ht.remember event).sendPending rng event) ht hout
  refine ⟨hlast, fun e he => ?_⟩
  rcases hmade e he with ⟨error, rfl⟩ | ⟨h₁, event, ht₁, -, hconv⟩
  · exact genuine_node _
  · exact ht₁.convert hconv

omit [Hkdf] [Bzip2] in
theorem failures_genuine (ret : Ret) : ∀ e ∈ ret.failures, Genuine owner ops e := by
  intro e he
  unfold Ret.failures at he
  split at he
  · cases List.mem_singleton.mp he
    exact genuine_node _
  · cases he

/-- What a command does. -/
inductive HostStepCase (h : Host) : HostLabel → Host → Prop
  /-- The events of a node operation are handed out. -/
  | node {op : Op} {out : Outcome} {node : Node} {rng : Nat → Entropy} {h' : Host} {events : List DriverEvent} :
    NodeStep h.node (op, out) node → Host.emitNodeEvents { h with node := node } rng out.events = some (h', events) →
    HostStepCase h ⟨.node op, out.ret, out.ret.failures ++ events⟩ h'
  | opportunistic {destHash : Arr 16} {title content fields : Bytes} {rng : Entropy} {message : LxmfMessage} :
    h.lxmfMessage destHash title content fields = .ok message →
    HostStepCase h
      ⟨.lxmfSendOpportunistic destHash title content fields rng,
        .sent (h.node.sendMessage message.destination (message.pack.drop 16) rng).2, []⟩
      { h with node := (h.node.sendMessage message.destination (message.pack.drop 16) rng).1 }
  /-- The message waits for its link. -/
  | direct {destHash linkId : Arr 16} {title content fields : Bytes} {rng : Entropy} {message : LxmfMessage}
    {lxmf : LxmfRuntime} : h.lxmfMessage destHash title content fields = .ok message →
    (h.node.establishLink destHash rng).2 = .ok linkId → h.lxmf = some lxmf →
    HostStepCase h ⟨.lxmfSendDirect destHash title content fields rng, .link (.ok linkId), []⟩
      { node := (h.node.establishLink destHash rng).1
        lxmf := some { lxmf with pendingDirect := lxmf.pendingDirect.insert linkId message } }
  | unlinked {destHash : Arr 16} {title content fields : Bytes} {rng : Entropy} {e : NodeError} :
    (h.node.establishLink destHash rng).2 = .error e → HostStepCase h ⟨.lxmfSendDirect destHash title content fields rng, .link (.error e), []⟩
      { h with node := (h.node.establishLink destHash rng).1 }
  | refused {op : HostOp} {ret : Ret} : (∀ op', op ≠ .node op') → (∀ id, ret ≠ .link (.ok id)) → HostStepCase h ⟨op, ret, []⟩ h

theorem HostStep.cases {h' : Host} {l : HostLabel} (hst : HostStep h l h') : HostStepCase h l h' := by
  obtain ⟨op, ret, events⟩ := l
  obtain ⟨rng, hst⟩ := hst
  dsimp only at hst
  unfold Host.step at hst
  cases op with
  | node op =>
    dsimp only at hst
    split at hst
    · cases hst
    rename_i node out hnode
    split at hst
    · cases hst
    rename_i h₁ emitted hemit
    cases hst
    exact .node hnode hemit
  | lxmfSendOpportunistic destHash title content fields rng' =>
    dsimp only at hst
    split at hst
    · rename_i message lxmf hm hlxmf
      cases hst
      exact .opportunistic hm
    · cases hst
      exact .refused (by simp) (by simp)
    · cases hst
      exact .refused (by simp) (by simp)
  | lxmfSendDirect destHash title content fields rng' =>
    dsimp only at hst
    split at hst
    · cases hst
      exact .refused (by simp) (by simp)
    · rename_i message hm
      split at hst
      · rename_i node e heq
        cases hst
        have hnode : node = (h.node.establishLink destHash rng').1 := by rw [heq]
        rw [hnode]
        exact .unlinked (congrArg Prod.snd heq)
      · rename_i node linkId heq
        have hnode : node = (h.node.establishLink destHash rng').1 := by rw [heq]
        split at hst
        · rename_i hnone
          simp only [Host.lxmfMessage, hnone] at hm
          cases hm
        · rename_i lxmf hlxmf
          cases hst
          rw [hnode]
          exact .direct hm (congrArg Prod.snd heq) hlxmf

/-- A command keeps the driver trusting, and its events are genuine. -/
theorem Trusting.step {h' : Host} {l : HostLabel} (ht : Trusting owner ops h) (hst : HostStep h l h') :
    Trusting owner (ops ++ l.ops) h' ∧ ∀ e ∈ l.events, Genuine owner (ops ++ l.ops) e := by
  cases hst.cases with
  | node hnode hemit =>
    obtain ⟨hlast, hgenuine⟩ := (ht.node hnode).emitNodeEvents hemit
    refine ⟨hlast, fun e he => ?_⟩
    rcases List.mem_append.mp he with he | he
    · exact failures_genuine _ e he
    · exact hgenuine e he
  | @opportunistic _ _ _ _ rng message =>
    simp only [HostLabel.ops, List.append_nil]
    exact ⟨ht.silent (h.node.step_sendMessage message.destination (message.pack.drop 16) rng) rfl, by simp⟩
  | @direct destHash _ _ _ _ rng _ lxmf _ _ hl =>
    simp only [HostLabel.ops, List.append_nil]
    exact ⟨(ht.silent (h.node.step_establishLink destHash rng) rfl).withRuntime _ (ht.router lxmf hl), by simp⟩
  | @unlinked destHash _ _ _ rng =>
    simp only [HostLabel.ops, List.append_nil]
    exact ⟨ht.silent (h.node.step_establishLink destHash rng) rfl, by simp⟩
  | @refused op ret hop =>
    have hnone : HostLabel.ops ⟨op, ret, []⟩ = [] := by
      cases op with
      | node op => exact absurd rfl (hop op)
      | _ => rfl
    rw [hnone, List.append_nil]
    exact ⟨ht, by simp⟩

omit [Hkdf] [RmpF64] in
theorem Trusting.enableLxmf {node : Node} {tr : List Label} {clock : UInt64}
    (h : Lts.Run NodeStep (Node.withClock owner clock) tr node) :
    Trusting owner (tr.map Prod.fst) (Host.enableLxmf node).1 := by
  have hnode : Trusting owner (tr.map Prod.fst) { node, lxmf := none } := by
    refine h.history (I := fun tr n => Trusting owner (tr.map Prod.fst) { node := n, lxmf := none })
      ⟨rfl, by simp [Node.withClock], by simp⟩ fun tr n l n' ht hst => ?_
    rw [List.map_append]
    exact ht.node hst
  have hregistered := hnode.silent (node.step_registerSingleDestination "lxmf" ["delivery"]) rfl
  refine hregistered.withRuntime ⟨LxmfRouter.new node.identity.public, ∅⟩ ⟨?_, rfl, fun d pub hs => ?_⟩
  · rw [hnode.identity]
    rfl
  · simp [LxmfRouter.new] at hs

/-- A driver in the course of a run, after the operations `ops` of its node. -/
inductive Started (owner : Identity) : List Op → Host → Prop
  | run {clock : UInt64} {tr : List Label} {node : Node} {commands : List HostLabel} {h : Host} :
    Lts.Run NodeStep (Node.withClock owner clock) tr node → Lts.Run HostStep (Host.enableLxmf node).1 commands h →
    Started owner (tr.map Prod.fst ++ commands.flatMap HostLabel.ops) h

theorem Started.step {h' : Host} {l : HostLabel} (hs : Started owner ops h) (hst : HostStep h l h') :
    Started owner (ops ++ l.ops) h' := by
  obtain ⟨h₀, hrun⟩ := hs
  have := Started.run h₀ (hrun.append (.single hst))
  rwa [List.flatMap_append, List.flatMap_singleton, ← List.append_assoc] at this

/-- What holds when a driver starts and is kept by its steps holds in every run. -/
theorem Started.induction {I : List Op → Host → Prop} (hs : Started owner ops h)
    (hinit : ∀ (node : Node) (tr : List Label) (clock : UInt64), Lts.Run NodeStep (Node.withClock owner clock) tr node →
      I (tr.map Prod.fst) (Host.enableLxmf node).1)
    (hstep : ∀ ops h l h', I ops h → HostStep h l h' → I (ops ++ l.ops) h') : I ops h := by
  obtain @⟨_, tr, _, _, _, h₀, hrun⟩ := hs
  refine hrun.history (I := fun commands h => I (tr.map Prod.fst ++ commands.flatMap HostLabel.ops) h)
    (by simpa using hinit _ tr _ h₀) fun commands h l h' hi hst => ?_
  rw [List.flatMap_append, List.flatMap_singleton, ← List.append_assoc]
  exact hstep _ _ _ _ hi hst

theorem Started.trusting (hs : Started owner ops h) : Trusting owner ops h :=
  hs.induction (fun _ _ _ => Trusting.enableLxmf) fun _ _ _ _ ht hst => (ht.step hst).1

/-- Every message that a driver reports is addressed to its delivery destination, and its source is the delivery
destination of a key that was heard in a verified announce and has signed the message. -/
theorem lxmf_messages_authentic {h' : Host} {l : HostLabel} (hs : Started owner ops h) (hst : HostStep h l h') :
    ∀ e ∈ l.events, Genuine owner (ops ++ l.ops) e := (hs.trusting.step hst).2

/-! ## Who is remembered -/

omit [Rmp] [RmpF64] [Hkdf] [Bzip2] in
/-- The router has a key for the source. -/
def Host.Remembers (h : Host) (source : Arr 16) : Prop :=
  ∃ lxmf, h.lxmf = some lxmf ∧ lxmf.router.sourceIdentities[source]? ≠ none

variable {source : Arr 16}

omit [Rmp] [RmpF64] [Hkdf] [Bzip2] in
theorem Host.Remembers.remember (hr : h.Remembers source) (event : Event) : (h.remember event).Remembers source := by
  obtain ⟨lxmf, hl, hs⟩ := hr
  unfold Host.remember
  split
  · split
    · rename_i hl'
      cases hl.symm.trans hl'
      refine ⟨_, rfl, ?_⟩
      simp only [LxmfRouter.rememberSource, Std.ExtTreeMap.getElem?_insert]
      split
      · simp
      · exact hs
    · exact ⟨lxmf, hl, hs⟩
  · exact ⟨lxmf, hl, hs⟩

omit [Rmp] [RmpF64] [Hkdf] [Bzip2] in
/-- Whoever an announce is from is remembered, whatever it announces. -/
theorem Host.remember_announce {d : Arr 16} {hops : UInt8} {pub : PublicIdentity} (hpub : h.node.pathPublic d = some pub)
    (hl : h.lxmf.isSome = true) : (h.remember (.announce d hops)).Remembers (deliveryDestinationHash pub) := by
  obtain ⟨lxmf, hl⟩ := Option.isSome_iff_exists.mp hl
  unfold Host.remember
  simp only [hpub, hl]
  exact ⟨_, rfl, by simp [LxmfRouter.rememberSource]⟩

omit [Hkdf] [Bzip2] in
theorem Host.Remembers.sendPending (hr : h.Remembers source) (rng : Entropy) (event : Event) :
    (h.sendPending rng event).1.Remembers source := by
  rcases h.sendPending_cases rng event with ⟨heq, -⟩ | ⟨linkId, lxmf, message, -, hl, -, heq⟩
  · rwa [heq]
  · rw [heq]
    obtain ⟨lxmf', hl', hs⟩ := hr
    cases hl.symm.trans hl'
    exact ⟨_, rfl, hs⟩

theorem Host.Remembers.step {h' : Host} {l : HostLabel} (hr : h.Remembers source) (hst : HostStep h l h') :
    h'.Remembers source := by
  cases hst.cases with
  | @node op out node _ _ _ hnode hemit =>
    have hnew : Host.Remembers { h with node := node } source := hr
    exact (emitNodeEvents_spec (I := fun h => h.Remembers source)
      (fun h rng event _ hr => (hr.remember event).sendPending rng event) hnew hemit).1
  | direct _ _ hl =>
    obtain ⟨lxmf, hl', hs⟩ := hr
    cases hl.symm.trans hl'
    exact ⟨_, rfl, hs⟩
  | _ => exact hr

omit [Bzip2] in
theorem Host.convert_node (event : Event) (hm : ∀ d pt, event ≠ .message d pt) (hl : ∀ id pt, event ≠ .linkData id pt) :
    h.convert event = some (.node event) := by
  unfold Host.convert
  cases h.lxmf <;> cases event <;> first | rfl | exact absurd rfl (hm _ _) | exact absurd rfl (hl _ _)

/-- A frame with an announce: its source is remembered, and the event is handed on. -/
theorem Host.step_announce {op : Op} {b : Bytes} {i : UInt16} {rng : Option Entropy} {d : Arr 16} {hops : UInt8}
    (hop : op.inbound? = some (b, i, rng)) (hev : (h.node.handleInboundInner b i rng).2 = [.announce d hops])
    (entropy : Nat → Entropy) : h.step entropy (.node op) =
      some ({ h with node := (h.node.handleInboundInner b i rng).1 }.remember (.announce d hops), .unit,
        [.node (.announce d hops)]) := by
  unfold Host.step
  simp only [h.node.step_of_inbound hop, hev, Host.emitNodeEvents, Host.emitNodeEvent, Host.sendPending,
    Host.convert_node (.announce d hops) (by simp) (by simp)]
  rfl

end

/-! ## Two correspondents -/

section
open Sample

/-- The driver of an identity, with mail turned on. -/
def correspondent (seed : UInt8) : Host := (Host.enableLxmf (withClock (identity seed) 100)).1

/-- Its delivery destination. -/
def address (seed : UInt8) : Arr 16 := deliveryDestinationHash (identity seed).public

/-- The announce of that destination. -/
def greeting (seed : UInt8) : Packet :=
  Packet.announce (address seed) ((correspondent seed).node.announceFor ⟨nameHash "lxmf" ["delivery"], address seed, .single false⟩
    [] (entropy 1)).toPayload

/-- The second, who has heard the first. -/
def acquainted : Host :=
  { correspondent 2 with node := ((correspondent 2).node.handleInboundInner (greeting 1).encode 0 none).1 }.remember
    (.announce (address 1) 1)

theorem acquainted_step : HostStep (correspondent 2) ⟨.node (.handleInbound (greeting 1).encode 0), .unit,
    [.node (.announce (address 1) 1)]⟩ acquainted :=
  ⟨fun _ _ => 0, Host.step_announce rfl (by decide +kernel) _⟩

def postcard : LxmfMessage :=
  LxmfMessage.build (identity 1) (address 2) (address 1) (f64OfNat 100) [1] [2, 3] fields

def postcardPacket : Packet := messageFor (address 2) (identity 2).public (postcard.pack.drop 16) (entropy 11)

theorem lxmf_messages_authentic_postcard :
    Genuine (identity 2) [.handleInbound (greeting 1).encode 0, .handleInbound postcardPacket.encode 0]
      (lxmfEvent (.message postcard)) := by
  have hstarted : Started (identity 2) [.handleInbound (greeting 1).encode 0] acquainted := .run .nil (.single acquainted_step)
  have hread : (acquainted.step (fun _ _ => 0) (.node (.handleInbound postcardPacket.encode 0))).map (·.2.2) =
      some [lxmfEvent (.message postcard)] := by decide +kernel
  obtain ⟨⟨_, ret, _⟩, hstep, rfl⟩ := Option.map_eq_some_iff.mp hread
  exact lxmf_messages_authentic (l := ⟨.node (.handleInbound postcardPacket.encode 0), ret, _⟩) hstarted ⟨_, hstep⟩ _
    (List.mem_singleton_self _)

end

end Reticulum
