import Reticulum.Cases

/-!
# A send is made whole or not at all

Seven operations send on the caller's account. Each checks all it has to
before it touches anything but the path table, which it sweeps first.
-/

namespace Reticulum

namespace Node

/-- Nothing but expired paths is gone, and nothing has come. -/
structure OnlySwept (n n' : Node) : Prop where
  eq : n' = { n with paths := n'.paths }
  kept : ∀ d e, n'.paths.get d = some e → n.paths.get d = some e
  expired : ∀ d e, n.paths.get d = some e → n'.paths.get d = some e ∨ e.expiresAt ≤ n.nowSecs

/-- A send that fails only sweeps the paths; one that succeeds enqueues a frame, and what it returns is on record. -/
def Atomic {α : Type} (n : Node) (recorded : Node → α → Prop) : Node × Except NodeError α → Prop
  | (n', .error _) => n.OnlySwept n'
  | (n', .ok a) => (∃ f fs, n'.outbound = n.outbound ++ f :: fs) ∧ recorded n' a

variable {n : Node}

theorem OnlySwept.refl (n : Node) : n.OnlySwept n := ⟨rfl, fun _ _ h => h, fun _ _ h => .inl h⟩

theorem OnlySwept.prunePaths (n : Node) : n.OnlySwept n.prunePaths := by
  refine ⟨rfl, fun d e h => (PathTable.get_of_get_prune h).1, fun d e h => ?_⟩
  by_cases hlive : n.nowSecs < e.expiresAt
  · exact .inl (PathTable.get_prune_of_lt h hlive)
  · exact .inr (Nat.not_lt.mp hlive)

theorem emit_ne_nil {m : Node} {ps : List (UInt16 × Packet)} (hm : m.outbound = n.outbound) (hps : ps ≠ []) :
    ∃ f fs, (m.emit ps).outbound = n.outbound ++ f :: fs := by
  obtain ⟨p, ps, rfl⟩ := List.exists_cons_of_ne_nil hps
  exact ⟨_, _, by rw [emit_outbound, hm]; rfl⟩

theorem enqueueDestinationPacket_atomic (n : Node) (p : Packet) (d : Arr 16) :
    n.Atomic (fun _ _ => True) (n.enqueueDestinationPacket p d) := by
  unfold enqueueDestinationPacket
  dsimp only
  split
  · split
    · exact .prunePaths n
    · exact ⟨⟨_, [], rfl⟩, trivial⟩
  · split
    · exact .prunePaths n
    · rename_i hne
      rw [pushAll_eq_emit]
      refine ⟨emit_ne_nil rfl ?_, trivial⟩
      rw [ne_eq, List.map_eq_nil_iff]
      exact hne

variable [Crypto]

theorem sendSingleMessage_atomic (n : Node) (d : Arr 16) (pt : Bytes) (rng : Entropy) (receipt : Bool) :
    n.Atomic (fun n' r => if receipt then ∃ h, r = some h ∧ n'.pendingReceipts[h]? ≠ none else r = none)
      (n.sendSingleMessage d pt rng receipt) := by
  have h := n.sendSingleMessage_cases d pt rng receipt
  generalize n.sendSingleMessage d pt rng receipt = r at h
  cases h with
  | failed => exact .prunePaths n
  | sent _ _ hreceipt =>
    rw [hreceipt]
    exact ⟨⟨_, [], rfl⟩, rfl⟩
  | sentWithReceipt _ _ hreceipt =>
    rw [hreceipt]
    exact ⟨⟨_, [], rfl⟩, _, rfl, by simp⟩

theorem sendMessage_atomic (n : Node) (d : Arr 16) (pt : Bytes) (rng : Entropy) :
    n.Atomic (fun _ _ => True) (n.sendMessage d pt rng) := by
  have h := n.sendSingleMessage_atomic d pt rng false
  unfold sendMessage
  split
  · rename_i heq
    rw [heq] at h
    exact h
  · rename_i heq
    rw [heq] at h
    exact ⟨h.1, trivial⟩

theorem sendMessageWithReceipt_atomic (n : Node) (d : Arr 16) (pt : Bytes) (rng : Entropy) :
    n.Atomic (fun n' h => n'.pendingReceipts[h]? ≠ none) (n.sendMessageWithReceipt d pt rng) := by
  have h := n.sendSingleMessage_atomic d pt rng true
  unfold sendMessageWithReceipt
  split
  · rename_i heq
    rw [heq] at h
    exact h
  · rename_i heq
    rw [heq] at h
    obtain ⟨hsent, hash, hsome, hrecorded⟩ := h
    cases hsome
    exact ⟨hsent, hrecorded⟩
  · -- a send with a receipt returns a hash
    rename_i heq
    rw [heq] at h
    obtain ⟨-, hash, hsome, -⟩ := h
    cases hsome

theorem sendGroupMessage_atomic (n : Node) (d : Arr 16) (pt : Bytes) (rng : Entropy) :
    n.Atomic (fun _ _ => True) (n.sendGroupMessage d pt rng) := by
  unfold sendGroupMessage
  split
  · exact .refl n
  · exact enqueueDestinationPacket_atomic n _ d

theorem establishLink_atomic (n : Node) (d : Arr 16) (rng : Entropy) :
    n.Atomic (fun n' id => n'.links[id]? ≠ none) (n.establishLink d rng) := by
  have h := n.establishLink_cases d rng
  generalize n.establishLink d rng = r at h
  cases h with
  | failed => exact .prunePaths n
  | requested => exact ⟨⟨_, [], rfl⟩, by simp⟩

theorem linkSend_atomic (n : Node) (id : Arr 16) (pt : Bytes) (rng : Entropy) :
    n.Atomic (fun _ _ => True) (n.linkSend id pt rng) := by
  have h := n.linkSend_cases id pt rng
  generalize n.linkSend id pt rng = r at h
  cases h with
  | failed => exact .refl n
  | sent => exact ⟨⟨_, [], rfl⟩, trivial⟩

theorem sendResource_atomic [Rmp] [Bzip2] {fuel : Nat} {id : Arr 16} {data : Bytes} {rng : Entropy}
    {r : Node × Except NodeError (Arr 32)} (h : n.sendResource fuel id data rng = some r) :
    n.Atomic (fun n' h => n'.outboundResources[(id, h)]? ≠ none) r := by
  cases sendResource_cases h with
  | failed => exact .refl n
  | sent => exact ⟨⟨_, [], rfl⟩, by simp⟩

end Node

variable [Crypto] [Rmp] [Bzip2]

/-- Every send, from every state, is atomic. -/
theorem sends_atomic (n : Node) :
    (∀ d pt rng, n.Atomic (fun _ _ => True) (n.sendMessage d pt rng)) ∧
    (∀ d pt rng, n.Atomic (fun n' h => n'.pendingReceipts[h]? ≠ none) (n.sendMessageWithReceipt d pt rng)) ∧
    (∀ d pt rng, n.Atomic (fun _ _ => True) (n.sendGroupMessage d pt rng)) ∧
    (∀ d pt, n.Atomic (fun _ _ => True) (n.sendPlainMessage d pt)) ∧
    (∀ d rng, n.Atomic (fun n' id => n'.links[id]? ≠ none) (n.establishLink d rng)) ∧
    (∀ id pt rng, n.Atomic (fun _ _ => True) (n.linkSend id pt rng)) ∧
    (∀ fuel id data rng, ∀ r ∈ n.sendResource fuel id data rng,
      n.Atomic (fun n' h => n'.outboundResources[(id, h)]? ≠ none) r) :=
  ⟨n.sendMessage_atomic, n.sendMessageWithReceipt_atomic, n.sendGroupMessage_atomic,
    fun d pt => n.enqueueDestinationPacket_atomic (Packet.dataFor PLAIN d pt) d, n.establishLink_atomic, n.linkSend_atomic,
    fun _ _ _ _ _ h => Node.sendResource_atomic h⟩

end Reticulum
