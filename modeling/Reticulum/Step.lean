import Reticulum.Inbound
import Reticulum.Lib.Run

/-!
# Runs of a node

One label per public operation, with its arguments, its result and the events
it returns. The clock is read from outside, so setting it is an operation too.
-/

namespace Reticulum

inductive Op
  | setClock (now : UInt64)
  | enableTransport (enabled : Bool)
  | registerInterface (interface : UInt16)
  | unregisterInterface (interface : UInt16)
  | registerSingleDestination (appName : String) (aspects : List String)
  | registerGroupDestination (appName : String) (aspects : List String) (groupKey : Arr 64)
  | registerGroupDestinationWithIdentity (appName : String) (aspects : List String) (identityHash : Arr 16)
    (groupKey : Arr 64)
  | registerPlainDestination (appName : String) (aspects : List String)
  | setProve (destHash : Arr 16) (enabled : Bool)
  | sendAnnounce (destHash : Arr 16) (appData : Bytes) (rng : Entropy) (interface : UInt16)
  | requestPath (destHash : Arr 16) (rng : Entropy)
  | pollOutbound
  | sendMessage (destHash : Arr 16) (plaintext : Bytes) (rng : Entropy)
  | sendMessageWithReceipt (destHash : Arr 16) (plaintext : Bytes) (rng : Entropy)
  | sendGroupMessage (destHash : Arr 16) (plaintext : Bytes) (rng : Entropy)
  | sendPlainMessage (destHash : Arr 16) (plaintext : Bytes)
  | establishLink (destHash : Arr 16) (rng : Entropy)
  | linkSend (linkId : Arr 16) (plaintext : Bytes) (rng : Entropy)
  | sendResource (fuel : Nat) (linkId : Arr 16) (data : Bytes) (rng : Entropy)
  | closeLink (linkId : Arr 16)
  | tick
  | tickWithEntropy (rng : Entropy)
  | handleInbound (bytes : Bytes) (interface : UInt16)
  | handleInboundWithEntropy (bytes : Bytes) (interface : UInt16) (rng : Entropy)
  | prunePaths

/-- What a call returns besides events. -/
inductive Ret
  | unit
  | flag (b : Bool)
  | count (k : Nat)
  | dest (destHash : Arr 16)
  | frame (frame : Option (UInt16 × Bytes))
  | sent (result : Except NodeError Unit)
  | link (result : Except NodeError (Arr 16))
  | hash (result : Except NodeError (Arr 32))

structure Outcome where
  ret : Ret := .unit
  events : List Event := []

namespace Node

variable [Crypto] [Rmp] [Bzip2]

/-- One public operation. `None` is a call that does not return. -/
def step (n : Node) : Op → Option (Node × Outcome)
  | .setClock now => some ({ n with clock := now }, {})
  | .enableTransport enabled => some (n.enableTransport enabled, {})
  | .registerInterface interface => some (n.registerInterface interface, {})
  | .unregisterInterface interface => some (n.unregisterInterface interface, {})
  | .registerSingleDestination appName aspects =>
    let (n, d) := n.registerSingleDestination appName aspects
    some (n, { ret := .dest d })
  | .registerGroupDestination appName aspects key =>
    let (n, d) := n.registerGroupDestination appName aspects key
    some (n, { ret := .dest d })
  | .registerGroupDestinationWithIdentity appName aspects identityHash key =>
    let (n, d) := n.registerGroupDestinationWithIdentity appName aspects identityHash key
    some (n, { ret := .dest d })
  | .registerPlainDestination appName aspects =>
    let (n, d) := n.registerPlainDestination appName aspects
    some (n, { ret := .dest d })
  | .setProve destHash enabled =>
    let (n, b) := n.setProve destHash enabled
    some (n, { ret := .flag b })
  | .sendAnnounce destHash appData rng interface => some (n.sendAnnounce destHash appData rng interface, {})
  | .requestPath destHash rng => some (n.requestPath destHash rng, {})
  | .pollOutbound =>
    let (n, frame) := n.pollOutbound
    some (n, { ret := .frame frame })
  | .sendMessage destHash plaintext rng =>
    let (n, r) := n.sendMessage destHash plaintext rng
    some (n, { ret := .sent r })
  | .sendMessageWithReceipt destHash plaintext rng =>
    let (n, r) := n.sendMessageWithReceipt destHash plaintext rng
    some (n, { ret := .hash r })
  | .sendGroupMessage destHash plaintext rng =>
    let (n, r) := n.sendGroupMessage destHash plaintext rng
    some (n, { ret := .sent r })
  | .sendPlainMessage destHash plaintext =>
    let (n, r) := n.sendPlainMessage destHash plaintext
    some (n, { ret := .sent r })
  | .establishLink destHash rng =>
    let (n, r) := n.establishLink destHash rng
    some (n, { ret := .link r })
  | .linkSend linkId plaintext rng =>
    let (n, r) := n.linkSend linkId plaintext rng
    some (n, { ret := .sent r })
  | .sendResource fuel linkId data rng =>
    (n.sendResource fuel linkId data rng).map fun (n, r) => (n, { ret := .hash r })
  | .closeLink linkId => some (n.closeLink linkId, {})
  | .tick =>
    let (n, events) := n.tick
    some (n, { events := events })
  | .tickWithEntropy rng =>
    let (n, events) := n.tickWithEntropy rng
    some (n, { events := events })
  | .handleInbound bytes interface =>
    let (n, events) := n.handleInbound bytes interface
    some (n, { events := events })
  | .handleInboundWithEntropy bytes interface rng =>
    let (n, events) := n.handleInboundWithEntropy bytes interface rng
    some (n, { events := events })
  | .prunePaths => some (n.prunePaths, { ret := .count (n.paths.pruneCount n.nowSecs) })

end Node

/-- An operation together with its outcome. -/
abbrev Label := Op × Outcome

/-- The operations in order, with what each of them returned. -/
def Node.exec [Crypto] [Rmp] [Bzip2] (n : Node) : List Op → Option (Node × List Label)
  | [] => some (n, [])
  | op :: ops =>
    match n.step op with
    | none => none
    | some (n, out) =>
      match exec n ops with
      | none => none
      | some (n, tr) => some (n, (op, out) :: tr)

/-- The node after the operations, if they all return. -/
def Node.after [Crypto] [Rmp] [Bzip2] (n : Node) (ops : List Op) : Node := ((n.exec ops).map (·.1)).getD n

namespace Op

/-- The bytes, the interface and the entropy of an inbound frame. -/
def inbound? : Op → Option (Bytes × UInt16 × Option Entropy)
  | .handleInbound bytes interface => some (bytes, interface, none)
  | .handleInboundWithEntropy bytes interface rng => some (bytes, interface, some rng)
  | _ => none

/-- The entropy a tick draws from, when the operation is one. -/
def tick? : Op → Option (Option Entropy)
  | .tick => some none
  | .tickWithEntropy rng => some (some rng)
  | _ => none

end Op

variable [Crypto] [Rmp] [Bzip2]

/-- `NodeStep n l n'`: the operation of `l` takes `n` to `n'` with the outcome of `l`. -/
def NodeStep (n : Node) (l : Label) (n' : Node) : Prop := n.step l.1 = some (n', l.2)

theorem Node.step_setClock (n : Node) (now : UInt64) : NodeStep n (.setClock now, {}) { n with clock := now } := rfl

theorem Node.step_tick (n : Node) : NodeStep n (.tick, { events := n.tick.2 }) n.tick.1 := rfl

theorem Node.step_tickWithEntropy (n : Node) (rng : Entropy) :
    NodeStep n (.tickWithEntropy rng, { events := (n.tickWithEntropy rng).2 }) (n.tickWithEntropy rng).1 := rfl

theorem Node.step_handleInbound (n : Node) (b : Bytes) (i : UInt16) :
    NodeStep n (.handleInbound b i, { events := (n.handleInbound b i).2 }) (n.handleInbound b i).1 := rfl

theorem Node.step_handleInboundWithEntropy (n : Node) (b : Bytes) (i : UInt16) (rng : Entropy) :
    NodeStep n (.handleInboundWithEntropy b i rng, { events := (n.handleInboundWithEntropy b i rng).2 })
      (n.handleInboundWithEntropy b i rng).1 := rfl

theorem Node.step_sendGroupMessage (n : Node) (d : Arr 16) (pt : Bytes) (rng : Entropy) :
    NodeStep n (.sendGroupMessage d pt rng, { ret := .sent (n.sendGroupMessage d pt rng).2 })
      (n.sendGroupMessage d pt rng).1 := rfl

theorem Node.step_linkSend (n : Node) (id : Arr 16) (pt : Bytes) (rng : Entropy) :
    NodeStep n (.linkSend id pt rng, { ret := .sent (n.linkSend id pt rng).2 }) (n.linkSend id pt rng).1 := rfl

theorem Node.step_sendMessage (n : Node) (d : Arr 16) (pt : Bytes) (rng : Entropy) :
    NodeStep n (.sendMessage d pt rng, { ret := .sent (n.sendMessage d pt rng).2 }) (n.sendMessage d pt rng).1 := rfl

theorem Node.step_establishLink (n : Node) (d : Arr 16) (rng : Entropy) :
    NodeStep n (.establishLink d rng, { ret := .link (n.establishLink d rng).2 }) (n.establishLink d rng).1 := rfl

theorem Node.step_registerSingleDestination (n : Node) (appName : String) (aspects : List String) :
    NodeStep n (.registerSingleDestination appName aspects, { ret := .dest (n.registerSingleDestination appName aspects).2 })
      (n.registerSingleDestination appName aspects).1 := rfl

theorem Node.exec_run {n n' : Node} {ops : List Op} {tr : List Label} (h : n.exec ops = some (n', tr)) :
    Lts.Run NodeStep n tr n' := by
  induction ops generalizing n tr with
  | nil =>
    cases h
    exact .nil
  | cons op ops ih =>
    unfold exec at h
    split at h
    · cases h
    · rename_i m out hstep
      split at h
      · cases h
      · rename_i n' tr' hexec
        cases h
        exact .cons (t := m) hstep (ih hexec)

theorem Node.exec_labels {n n' : Node} {ops : List Op} {tr : List Label} (h : n.exec ops = some (n', tr)) :
    tr.map (·.1) = ops := by
  induction ops generalizing n tr with
  | nil =>
    cases h
    rfl
  | cons op ops ih =>
    unfold exec at h
    split at h
    · cases h
    · split at h
      · cases h
      · rename_i hexec
        cases h
        simp [ih hexec]

/-- The operations of a run take the node through it again. -/
theorem Node.exec_of_run {n n' : Node} {tr : List Label} (h : Lts.Run NodeStep n tr n') :
    n.exec (tr.map (·.1)) = some (n', tr) := by
  induction tr generalizing n with
  | nil => rw [List.map_nil, exec, h.nil_inv]
  | cons l tr ih =>
    obtain ⟨m, hstep, hrun⟩ := h.cons_inv
    have hop : n.step l.1 = some (m, l.2) := hstep
    rw [List.map_cons, exec, hop]
    dsimp only
    rw [ih hrun]

theorem Node.after_run {n : Node} {ops : List Op} (h : (n.exec ops).isSome = true) :
    ∃ tr, Lts.Run NodeStep n tr (n.after ops) ∧ tr.map (·.1) = ops := by
  obtain ⟨⟨n', tr⟩, hexec⟩ := Option.isSome_iff_exists.mp h
  have hn : n.after ops = n' := by simp [after, hexec]
  exact ⟨tr, hn ▸ exec_run hexec, exec_labels hexec⟩

theorem NodeStep.inbound {n n' : Node} {l : Label} (h : NodeStep n l n') {b : Bytes} {i : UInt16}
    {rng : Option Entropy} (hl : l.1.inbound? = some (b, i, rng)) :
    n.handleInboundInner b i rng = (n', l.2.events) := by
  obtain ⟨op, out⟩ := l
  cases op <;> simp only [Op.inbound?, reduceCtorEq, Option.some.injEq, Prod.mk.injEq] at hl
  all_goals
    obtain ⟨rfl, rfl, rfl⟩ := hl
    simp only [NodeStep, Node.step, Option.some.injEq, Prod.mk.injEq] at h
    obtain ⟨h1, h2⟩ := h
    rw [← h1, ← h2]
    rfl

theorem Node.step_of_inbound (n : Node) {op : Op} {b : Bytes} {i : UInt16} {rng : Option Entropy}
    (h : op.inbound? = some (b, i, rng)) :
    n.step op = some ((n.handleInboundInner b i rng).1, { events := (n.handleInboundInner b i rng).2 }) := by
  cases op <;> simp only [Op.inbound?, reduceCtorEq, Option.some.injEq, Prod.mk.injEq] at h
  all_goals
    obtain ⟨rfl, rfl, rfl⟩ := h
    rfl

theorem NodeStep.inbound_outcome {n n' : Node} {l : Label} (h : NodeStep n l n') {q : Bytes × UInt16 × Option Entropy}
    (hl : l.1.inbound? = some q) : l.2 = { events := (n.handleInboundInner q.1 q.2.1 q.2.2).2 } := by
  obtain ⟨op, out⟩ := l
  cases op <;> simp only [Op.inbound?, reduceCtorEq, Option.some.injEq] at hl
  all_goals
    subst hl
    exact (Prod.mk.inj (Option.some.inj h)).2.symm

end Reticulum
