import Reticulum.ResourceCases
import Reticulum.StepCases

/-!
# Where the resources of a node come from

What one step can do to the outbound resources: they are the ones there were,
or the one `send_resource` has just made.
-/

namespace Reticulum

namespace OutboundResource

theorem onRequest_fst [Rmp] (r : OutboundResource) (request : Bytes) (now : Nat) :
    ∃ t, (r.onRequest request now).1 = { r with lastActivity := t } := by
  rcases r.onRequest_cases request now with h | ⟨_, _, h⟩
  · exact ⟨r.lastActivity, by rw [h]⟩
  · exact ⟨now, by rw [h.onRequest]⟩

theorem onProof_of_false {r : OutboundResource} {data : Bytes} (h : (r.onProof data).2 = false) :
    (r.onProof data).1 = r := by
  have hr : r.completed = false := (Bool.or_eq_false_iff.mp h).1
  show { r with completed := (r.onProof data).2 } = r
  rw [h, ← hr]

theorem new_completed [Crypto] [Rmp] [Bzip2] {fuel : Nat} {data : Bytes} {key : Arr 64} {rng rng' : Entropy} {now : Nat}
    {r : OutboundResource} {adv : Bytes} (h : OutboundResource.new fuel data key rng now = some (.ok (r, adv), rng')) :
    r.completed = false := by
  unfold OutboundResource.new at h
  split at h
  · cases h
  · dsimp only at h
    split at h
    · cases h
    · cases h
      rfl

end OutboundResource

namespace Node

variable [Crypto] [Rmp] [Bzip2]

/-- The node had the resource already, but for the time it was last asked for. -/
def HadOutbound (n : Node) (key : ResourceKey) (r' : OutboundResource) : Prop :=
  ∃ r t, n.outboundResources[key]? = some r ∧ r' = { r with lastActivity := t }

/-- Where an outbound resource comes from: it was there, or a send has made it. -/
inductive OutboundOrigin (n : Node) (l : Label) (key : ResourceKey) (r' : OutboundResource) : Prop
  | kept (had : n.HadOutbound key r')
  | sent {fuel : Nat} {data : Bytes} {k : Arr 64} {rng rng' : Entropy} {adv : Bytes} :
    l.1 = .sendResource fuel key.1 data rng → OutboundResource.new fuel data k rng n.nowSecs = some (.ok (r', adv), rng') →
    key.2 = r'.hash → OutboundOrigin n l key r'

variable {n : Node} {l : Label} {key : ResourceKey} {r' : OutboundResource}

omit [Crypto] [Rmp] [Bzip2] in
theorem HadOutbound.same (h : n.outboundResources[key]? = some r') : n.HadOutbound key r' := ⟨r', r'.lastActivity, h, rfl⟩

omit [Crypto] [Rmp] [Bzip2] in
theorem HadOutbound.insert {m : BTreeMap ResourceKey OutboundResource} {k : ResourceKey} {r : OutboundResource}
    (hm : m = n.outboundResources.insert k r) (hr : n.HadOutbound k r) (h : m[key]? = some r') :
    n.HadOutbound key r' := by
  rw [hm, Std.ExtTreeMap.getElem?_insert] at h
  split at h
  · rename_i hk
    obtain rfl : k = key := by simpa using hk
    cases h
    exact hr
  · exact .same h

omit [Crypto] [Rmp] [Bzip2] in
theorem HadOutbound.erase {m : BTreeMap ResourceKey OutboundResource} {k : ResourceKey}
    (hm : m = n.outboundResources.erase k) (h : m[key]? = some r') : n.HadOutbound key r' := by
  rw [hm, Std.ExtTreeMap.getElem?_erase] at h
  split at h
  · cases h
  · exact .same h

omit [Crypto] [Rmp] [Bzip2] in
theorem HadOutbound.of_eq {m : Node} (he : m.outboundResources = n.outboundResources) (h : m.HadOutbound key r') :
    n.HadOutbound key r' := by
  obtain ⟨r, t, hr, ht⟩ := h
  exact ⟨r, t, he ▸ hr, ht⟩

theorem LinkDataCase.hadOutbound {p : Packet} {id : Arr 16} {i : UInt16} {out : Node × List Event}
    (h : LinkDataCase n p id i out) (hr : out.1.outboundResources[key]? = some r') : n.HadOutbound key r' := by
  cases h with
  | part _ _ ho =>
    cases ho with
    | refused => exact .same hr
    | taken _ _ hp => cases hp <;> exact .same hr
  | closed =>
    rename_i link k ha
    have hc := closeLink_cases (n.touch id link) id
    obtain ⟨_, _, _, -, heq⟩ := tickInner_result ((n.touch id link).closeLink id) none
    rw [tick, heq] at hr
    generalize (n.touch id link).closeLink id = m at hc hr
    cases hc <;> exact .same hr
  | resource _ _ hc =>
    cases hc with
    | served hget =>
      obtain ⟨t, ht⟩ := OutboundResource.onRequest_fst _ _ _
      exact .insert rfl ⟨_, t, hget, ht⟩ hr
    | cancelled => exact .erase rfl hr
    | _ => exact .same hr
  | _ => exact .same hr

theorem DispatchCase.hadOutbound {p : Packet} {d : Arr 16} {i : UInt16} {out : Node × List Event}
    (h : DispatchCase n p d i out) (hr : out.1.outboundResources[key]? = some r') : n.HadOutbound key r' := by
  cases h with
  | ignored => exact .same hr
  | pathRequest =>
    obtain ⟨_, _, heq, -⟩ := handlePathRequest_cases n p i
    rw [heq] at hr
    exact .same hr
  | linkRequest _ h => cases h <;> exact .same hr
  | linkProof _ _ _ h => cases h <;> exact .same hr
  | deliveryProof _ h => cases h <;> exact .same hr
  | resourceProof _ _ _ h =>
    cases h with
    | ignored => exact .same hr
    | completed => exact .erase rfl hr
    | kept _ hget hf =>
      rw [OutboundResource.onProof_of_false hf] at hr
      exact .insert rfl (.same hget) hr
  | linkData _ _ h => exact h.hadOutbound hr
  | announce _ h => cases h <;> exact .same hr
  | data _ _ _ h =>
    cases h with
    | relayed =>
      have hf := forwardData_cases n p d i
      dsimp only at hr
      generalize n.forwardData p d i = m at hf hr
      cases hf <;> exact .same hr
    | _ => exact .same hr

end Node

open Node in
theorem NodeStep.outboundOrigin [Crypto] [Rmp] [Bzip2] {n n' : Node} {l : Label} {key : ResourceKey}
    {r' : OutboundResource} (h : NodeStep n l n') (hr : n'.outboundResources[key]? = some r') :
    n.OutboundOrigin l key r' := by
  cases h.cases with
  | config _ h =>
    rw [h.eq] at hr
    exact .kept (.same hr)
  | announce h => cases h <;> exact .kept (.same hr)
  | sent _ h =>
    rw [h.eq] at hr
    exact .kept (.same hr)
  | establish h => cases h <;> exact .kept (.same hr)
  | linkSend h => cases h <;> exact .kept (.same hr)
  | sendResource h =>
    cases h with
    | failed => exact .kept (.same hr)
    | sent _ hnew =>
      rw [emit_outboundResources, setOutbound_outboundResources, Std.ExtTreeMap.getElem?_insert] at hr
      split at hr
      · rename_i hk
        cases (Std.LawfulEqOrd.eq_of_compare hk)
        cases hr
        exact .sent rfl hnew rfl
      · exact .kept (.same hr)
  | close h => cases h <;> exact .kept (.same hr)
  | tick =>
    obtain ⟨_, _, _, -, heq⟩ := tickInner_result n _
    rw [heq] at hr
    exact .kept (.same hr)
  | inbound _ h =>
    cases h with
    | malformed => exact .kept (.same hr)
    | duplicate => exact .kept (.same (by simpa using hr))
    | admitted ha h => exact .kept ((h.hadOutbound hr).of_eq (by simp))

end Reticulum
