import Reticulum.Router
import Reticulum.Step

/-!
# LXMF inside the driver

`driver.rs`: the commands that send messages, and what the driver makes of the
events of its node. It remembers whoever is heard in an announce, sends a
waiting message once its link is there, and turns inbound data into messages.
-/

namespace Reticulum

/-- `n as f64` for a `u64`: to the nearest number, in a tie to the even one. -/
def f64OfNat (n : Nat) : UInt64 :=
  if n = 0 then 0
  else
    let e := n.log2
    let mantissa :=
      if e ≤ 52 then n * 2 ^ (52 - e)
      else
        let q := n / 2 ^ (e - 52)
        let r := n % 2 ^ (e - 52)
        let half := 2 ^ (e - 53)
        if half < r ∨ (r = half ∧ q % 2 = 1) then q + 1 else q
    -- a mantissa that is rounded up to `2 ^ 53` carries into the exponent
    UInt64.ofNat ((e + 1022) * 2 ^ 52 + mantissa)

theorem f64OfNat_le {n : Nat} (hn : n < 2 ^ 64) : (f64OfNat n).toNat ≤ 1087 * 2 ^ 52 := by
  unfold f64OfNat
  split
  · decide
  · rename_i hpos
    have hlog : n.log2 < 64 := (Nat.log2_lt hpos).mpr hn
    have hself : n < 2 ^ (n.log2 + 1) := Nat.lt_log2_self
    have hmantissa {m : Nat} (hm : m ≤ 2 ^ 53) :
        (UInt64.ofNat ((n.log2 + 1022) * 2 ^ 52 + m)).toNat ≤ 1087 * 2 ^ 52 := by
      rw [UInt64.toNat_ofNat']
      omega
    apply hmantissa
    split
    · rename_i he
      calc n * 2 ^ (52 - n.log2) ≤ 2 ^ (n.log2 + 1) * 2 ^ (52 - n.log2) := Nat.mul_le_mul_right _ hself.le
        _ = 2 ^ 53 := by rw [← Nat.pow_add]; congr 1; omega
    · rename_i he
      have hq : n / 2 ^ (n.log2 - 52) < 2 ^ 53 := by
        apply Nat.div_lt_of_lt_mul
        calc n < 2 ^ (n.log2 + 1) := hself
          _ = 2 ^ (n.log2 - 52) * 2 ^ 53 := by rw [← Nat.pow_add]; congr 1; omega
      dsimp only
      split
      · exact hq
      · exact hq.le

/-- A number of seconds is a finite time. -/
theorem isFinite_f64OfNat {n : Nat} (hn : n < 2 ^ 64) : isFinite (f64OfNat n) = true := by
  have hle := f64OfNat_le hn
  have hexp : ((f64OfNat n >>> 52) &&& 0x7ff).toNat ≤ 1087 := by
    simp only [UInt64.toNat_and, UInt64.toNat_shiftRight]
    refine Nat.and_le_left.trans ?_
    rw [Nat.shiftRight_eq_div_pow]
    show (f64OfNat n).toNat / 2 ^ 52 ≤ 1087
    omega
  unfold isFinite
  refine decide_eq_true fun h => ?_
  rw [h] at hexp
  exact absurd hexp (by decide)

/-- `100.0`, and a tie that goes up to the even number. -/
example : f64OfNat 100 = 0x4059000000000000 ∧ f64OfNat (2 ^ 53 + 3) = 0x4340000000000002 := by decide

/-- What the driver hands to its user. -/
inductive DriverEvent
  | node (event : Event)
  | lxmfMessage (destination source : Arr 16) (timestamp : UInt64) (title content fields : Bytes)
  deriving DecidableEq

def lxmfEvent : LxmfEvent → DriverEvent
  | .message m => .lxmfMessage m.destination m.source m.timestamp m.title m.content m.fields

namespace Node

def pathPublic (n : Node) (destHash : Arr 16) : Option PublicIdentity := (n.paths.get destHash).map (·.pub)

end Node

section
variable [Crypto] [Rmp] [RmpF64]

namespace LxmfRouter

/-- The link packet is addressed by its link id, so the message keeps its destination. -/
def sendDirect (_r : LxmfRouter) (node : Node) (linkId : Arr 16) (message : LxmfMessage) (rng : Entropy) :
    Node × Except NodeError Unit :=
  node.linkSend linkId message.pack rng

/-- The packet already carries the destination. -/
def sendOpportunistic (_r : LxmfRouter) (node : Node) (message : LxmfMessage) (rng : Entropy) :
    Node × Except NodeError Unit :=
  node.sendMessage message.destination (message.pack.drop 16) rng

end LxmfRouter

structure LxmfRuntime where
  router : LxmfRouter
  pendingDirect : BTreeMap (Arr 16) LxmfMessage

/-- The node of a driver and its LXMF runtime. -/
structure Host where
  node : Node
  lxmf : Option LxmfRuntime

namespace Host

def enableLxmf (node : Node) : Host × Arr 16 :=
  let router := LxmfRouter.new node.identity.public
  let (node, destination) := node.registerSingleDestination "lxmf" ["delivery"]
  ({ node, lxmf := some { router, pendingDirect := ∅ } }, destination)

def lxmfMessage (h : Host) (destination : Arr 16) (title content fields : Bytes) : Except NodeError LxmfMessage :=
  match h.lxmf with
  | none => .error .unknown
  | some lxmf =>
    .ok (LxmfMessage.build h.node.identity destination lxmf.router.localDestination (f64OfNat h.node.nowSecs) title content
      fields)

/-! ## `emit_node_events` -/

/-- The source of an announce is remembered. -/
def remember (h : Host) : Event → Host
  | .announce destHash _ =>
    match h.node.pathPublic destHash, h.lxmf with
    | some pub, some lxmf => { h with lxmf := some { lxmf with router := (lxmf.router.rememberSource pub).1 } }
    | _, _ => h
  | _ => h

/-- The message that waits for a link is sent over it. -/
def sendPending (h : Host) (rng : Entropy) : Event → Host × Option NodeError
  | .linkEstablished linkId =>
    match h.lxmf with
    | none => (h, none)
    | some lxmf =>
      match lxmf.pendingDirect[linkId]? with
      | none => (h, none)
      | some message =>
        let lxmf := { lxmf with pendingDirect := lxmf.pendingDirect.erase linkId }
        match lxmf.router.sendDirect h.node linkId message rng with
        | (node, .ok ()) => ({ node, lxmf := some lxmf }, none)
        | (node, .error e) => ({ node, lxmf := some lxmf }, some e)
  | _ => (h, none)

variable [Hkdf]

/-- Data that is a message for this driver. `None` where the source would panic. -/
def convert (h : Host) (event : Event) : Option DriverEvent :=
  let received :=
    match h.lxmf, event with
    | some lxmf, .message destHash plaintext => (lxmf.router.receiveOpportunistic destHash plaintext).map some
    | some lxmf, .linkData _ plaintext => (lxmf.router.receiveDirect plaintext).map some
    | _, _ => some none
  received.map fun r =>
    match r with
    | some (.ok message) => lxmfEvent message
    | _ => .node event

def emitNodeEvent (h : Host) (rng : Entropy) (event : Event) : Option (Host × List DriverEvent) :=
  let (h, sendError) := (h.remember event).sendPending rng event
  (h.convert event).map fun out => (h, out :: (sendError.map fun e => .node (.error e)).toList)

/-- The events in order; every call draws its own entropy. -/
def emitNodeEvents (h : Host) (rng : Nat → Entropy) : List Event → Option (Host × List DriverEvent)
  | [] => some (h, [])
  | event :: events =>
    match h.emitNodeEvent (rng 0) event with
    | none => none
    | some (h, out) =>
      match h.emitNodeEvents (fun k => rng (k + 1)) events with
      | none => none
      | some (h, rest) => some (h, out ++ rest)

end Host

/-! ## The commands -/

/-- What a driver does next: an operation of its node, or a command of its LXMF runtime. -/
inductive HostOp
  | node (op : Op)
  | lxmfSendOpportunistic (destHash : Arr 16) (title content fields : Bytes) (rng : Entropy)
  | lxmfSendDirect (destHash : Arr 16) (title content fields : Bytes) (rng : Entropy)

/-- The commands without a reply report their error as an event. -/
def Ret.failures : Ret → List DriverEvent
  | .sent (.error e) => [.node (.error e)]
  | _ => []

structure HostLabel where
  op : HostOp
  ret : Ret
  events : List DriverEvent

namespace Host

variable [Bzip2] [Hkdf]

def step (h : Host) (rng : Nat → Entropy) : HostOp → Option (Host × Ret × List DriverEvent)
  | .node op =>
    match h.node.step op with
    | none => none
    | some (node, out) =>
      match { h with node }.emitNodeEvents rng out.events with
      | none => none
      | some (h, events) => some (h, out.ret, out.ret.failures ++ events)
  | .lxmfSendOpportunistic destHash title content fields rng =>
    match h.lxmfMessage destHash title content fields, h.lxmf with
    | .ok message, some lxmf =>
      let (node, result) := lxmf.router.sendOpportunistic h.node message rng
      some ({ h with node }, .sent result, [])
    | .ok _, none => some (h, .sent (.error .unknown), [])
    | .error e, _ => some (h, .sent (.error e), [])
  | .lxmfSendDirect destHash title content fields rng =>
    match h.lxmfMessage destHash title content fields with
    | .error e => some (h, .link (.error e), [])
    | .ok message =>
      match h.node.establishLink destHash rng with
      | (node, .error e) => some ({ h with node }, .link (.error e), [])
      | (node, .ok linkId) =>
        match h.lxmf with
        | none => some ({ h with node }, .link (.error .unknown), [])
        | some lxmf =>
          some ({ node, lxmf := some { lxmf with pendingDirect := lxmf.pendingDirect.insert linkId message } },
            .link (.ok linkId), [])

end Host

/-- `HostStep h l h'`: the driver does what `l` says, with some entropy for the messages that were waiting. -/
def HostStep [Bzip2] [Hkdf] (h : Host) (l : HostLabel) (h' : Host) : Prop :=
  ∃ rng, h.step rng l.op = some (h', l.ret, l.events)

end

end Reticulum
