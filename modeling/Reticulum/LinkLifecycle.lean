import Reticulum.LinkSteps
import Reticulum.Sample

/-!
# The life of a link

A link id goes from Pending to Active to Closed and never back. The history of
events is part of the invariant: entering Active is reported at that moment,
entering Closed is reported at once or stays pending until the next tick.
-/

namespace Reticulum

open Node

def Node.statusOf (n : Node) (id : Arr 16) : Option LinkStatus := (n.links[id]?).map (·.status)

/-- The moves of the status of a link id. -/
inductive LinkMove : Option LinkStatus → Option LinkStatus → Prop
  | stay (s : Option LinkStatus) : LinkMove s s
  | request : LinkMove none (some .pending)
  | accept : LinkMove none (some .active)
  | prove : LinkMove (some .pending) (some .active)
  | closePending : LinkMove (some .pending) (some .closed)
  | closeActive : LinkMove (some .active) (some .closed)

/-- The events of a run, oldest first. -/
def eventsOf (tr : List Label) : List Event := tr.flatMap (·.2.events)

theorem eventsOf_cons (l : Label) (tr : List Label) : eventsOf (l :: tr) = l.2.events ++ eventsOf tr := rfl

@[simp] theorem eventsOf_snoc (tr : List Label) (l : Label) : eventsOf (tr ++ [l]) = eventsOf tr ++ l.2.events := by
  simp [eventsOf]

section
variable [Crypto] [Rmp] [Bzip2]

/-- A fresh ephemeral gives a link id that the node does not hold. -/
def FreshLink (n : Node) (l : Label) : Prop :=
  ∀ d rng id, l.1 = .establishLink d rng → l.2.ret = .link (.ok id) → n.links[id]? = none

/-- A step of a node that draws fresh ephemerals. -/
def FreshStep (n : Node) (l : Label) (n' : Node) : Prop := FreshLink n l ∧ NodeStep n l n'

/-- What a step does to the status of one id, with the events it reports. -/
inductive StatusChange (n : Node) (l : Label) (n' : Node) (id : Arr 16) : Prop
  | stay (status : n'.statusOf id = n.statusOf id) (reports : n.Reports l.2.events n' id 0 0)
  | request (before : n.statusOf id = none) (after : n'.statusOf id = some .pending)
    (reports : n.Reports l.2.events n' id 0 0)
  | establish (before : n.statusOf id = none ∨ n.statusOf id = some .pending) (after : n'.statusOf id = some .active)
    (reports : n.Reports l.2.events n' id 1 0)
  | close {s : LinkStatus} (before : n.statusOf id = some s) (notClosed : s ≠ .closed)
    (after : n'.statusOf id = some .closed) (reports : n.Reports l.2.events n' id 0 1)

omit [Crypto] [Rmp] [Bzip2] in
theorem statusOf_eq {n : Node} {id : Arr 16} {link : LinkEntry} (h : n.links[id]? = some link) :
    n.statusOf id = some link.status := by
  simp [statusOf, h]

theorem FreshStep.statusChange {n n' : Node} {l : Label} (hn : n.PendingOk) (h : FreshStep n l n') (id : Arr 16) :
    StatusChange n l n' id := by
  cases h.2.linkChange hn id with
  | activity hc =>
    cases hc with
    | kept hl hr => exact .stay (by simp [statusOf, hl]) hr
    | touched hb _ hl hr | keepalive hb _ hl hr => exact .stay ((statusOf_eq hl).trans (statusOf_eq hb).symm) hr
    | closed hb hst _ hl hr => exact .close (statusOf_eq hb) hst (statusOf_eq hl) hr
  | requested hop hret _ _ hl hr =>
    exact .request (by simp [statusOf, h.1 _ _ _ hop hret]) (statusOf_eq hl) hr
  | accepted _ _ _ _ _ _ hfresh _ hl hr => exact .establish (.inl (by simp [statusOf, hfresh])) (statusOf_eq hl) hr
  | proven _ _ _ hb hp _ _ _ hl hr => exact .establish (.inr (hp ▸ statusOf_eq hb)) (statusOf_eq hl) hr

/-- What holds of a link id along a run: every report matches a move of its status. -/
structure Lifecycle (id : Arr 16) (tr : List Label) (n : Node) : Prop where
  pendingOk : n.PendingOk
  noHandshake : n.statusOf id ≠ some .handshake
  established : (eventsOf tr).count (.linkEstablished id) ≤ 1
  notYet : n.statusOf id = none ∨ n.statusOf id = some .pending → (eventsOf tr).count (.linkEstablished id) = 0
  closed : (eventsOf tr).count (.linkClosed id) + n.pendingEvents.count (.linkClosed id) =
    if n.statusOf id = some .closed then 1 else 0
  keyed : ∀ link, n.links[id]? = some link → link.status = .active → link.derivedKey.isSome = true

omit [Crypto] [Rmp] [Bzip2] in
theorem lifecycle_init (identity : Identity) (clock : UInt64) (id : Arr 16) :
    Lifecycle id [] (withClock identity clock) :=
  ⟨fun _ h => (nomatch h), by simp [statusOf, withClock], by simp [eventsOf], by simp [eventsOf],
    by simp [eventsOf, statusOf, withClock], by simp [withClock]⟩

/-- An Active entry has its key: it keeps it, or gets it on becoming Active. -/
theorem Lifecycle.keyed_step {id : Arr 16} {tr : List Label} {n n' : Node} {l : Label} (hi : Lifecycle id tr n)
    (h : NodeStep n l n') {link : LinkEntry} (hl : n'.links[id]? = some link) (hst : link.status = .active) :
    link.derivedKey.isSome = true := by
  cases h.linkChange hi.pendingOk id with
  | activity hc =>
    cases hc with
    | kept h => exact hi.keyed link (h ▸ hl) hst
    | touched hb hact h | keepalive hb hact h =>
      cases h.symm.trans hl
      have := hi.keyed _ hb hact
      exact this
    | closed _ _ _ h =>
      cases h.symm.trans hl
      cases hst
  | requested _ _ _ _ h =>
    cases h.symm.trans hl
    cases hst
  | accepted _ _ _ _ _ _ _ _ h | proven _ _ _ _ _ _ _ _ h =>
    cases h.symm.trans hl
    rfl

theorem Lifecycle.step {id : Arr 16} {tr : List Label} {n n' : Node} {l : Label} (hi : Lifecycle id tr n)
    (h : FreshStep n l n') : Lifecycle id (tr ++ [l]) n' := by
  have hest : (eventsOf (tr ++ [l])).count (.linkEstablished id) =
      (eventsOf tr).count (.linkEstablished id) + l.2.events.count (.linkEstablished id) := by simp
  have hclo : (eventsOf (tr ++ [l])).count (.linkClosed id) =
      (eventsOf tr).count (.linkClosed id) + l.2.events.count (.linkClosed id) := by simp
  have hpend := h.2.pendingOk hi.pendingOk
  have hkeyed : ∀ link, n'.links[id]? = some link → link.status = .active → link.derivedKey.isSome = true :=
    fun _ => hi.keyed_step h.2
  have hclosed := hi.closed
  cases h.statusChange hi.pendingOk id with
  | stay hs hr =>
    refine ⟨hpend, hs ▸ hi.noHandshake, ?_, fun h0 => ?_, ?_, hkeyed⟩
    · rw [hest, hr.established]
      exact hi.established
    · rw [hest, hr.established]
      exact hi.notYet (hs ▸ h0)
    · have := hr.closed
      rw [hs]
      omega
  | request hb ha hr =>
    refine ⟨hpend, by simp [ha], ?_, fun _ => ?_, ?_, hkeyed⟩
    · rw [hest, hr.established]
      exact hi.established
    · rw [hest, hr.established]
      exact hi.notYet (.inl hb)
    · have := hr.closed
      simp only [hb, ha, reduceCtorEq, if_false, Option.some.injEq] at hclosed ⊢
      omega
  | establish hb ha hr =>
    have hzero := hi.notYet hb
    have hopen : n.statusOf id ≠ some .closed := by
      rcases hb with hb | hb <;> simp [hb]
    refine ⟨hpend, by simp [ha], ?_, fun h0 => ?_, ?_, hkeyed⟩
    · rw [hest, hr.established, hzero]
    · simp [ha] at h0
    · have := hr.closed
      simp only [hopen, ha, reduceCtorEq, if_false, Option.some.injEq] at hclosed ⊢
      omega
  | close hb hst ha hr =>
    refine ⟨hpend, by simp [ha], ?_, fun h0 => ?_, ?_, hkeyed⟩
    · rw [hest, hr.established]
      exact hi.established
    · simp [ha] at h0
    · have := hr.closed
      simp only [hb, ha, Option.some.injEq, hst, if_false, if_true] at hclosed ⊢
      omega

theorem lifecycle_of_run {identity : Identity} {clock : UInt64} {tr : List Label} {n : Node}
    (h : Lts.Run FreshStep (withClock identity clock) tr n) (id : Arr 16) : Lifecycle id tr n :=
  h.history (lifecycle_init identity clock id) fun _ _ _ _ hi hst => hi.step hst

omit [Crypto] [Rmp] [Bzip2] in
theorem StatusChange.move {n n' : Node} {l : Label} {id : Arr 16} (hno : n.statusOf id ≠ some .handshake)
    (h : StatusChange n l n' id) : LinkMove (n.statusOf id) (n'.statusOf id) := by
  cases h with
  | stay hs => exact hs ▸ .stay _
  | request hb ha => exact hb ▸ ha ▸ .request
  | establish hb ha =>
    rw [ha]
    rcases hb with hb | hb <;> rw [hb]
    · exact .accept
    · exact .prove
  | @close s hb hst ha =>
    rw [hb, ha]
    cases s with
    | pending => exact .closePending
    | handshake => exact absurd hb hno
    | active => exact .closeActive
    | closed => exact absurd rfl hst

/-- In every run that draws fresh ephemerals, a link id moves along its life only forwards; it is reported
established exactly when it enters Active, and closed exactly once when it enters Closed; an Active link has
its key, and only an Active link hands out data. -/
theorem link_lifecycle {identity : Identity} {clock : UInt64} {tr : List Label} {n : Node}
    (h : Lts.Run FreshStep (withClock identity clock) tr n) (id : Arr 16) :
    (eventsOf tr).count (.linkEstablished id) ≤ 1 ∧
    (eventsOf tr).count (.linkClosed id) + n.pendingEvents.count (.linkClosed id) =
      (if n.statusOf id = some .closed then 1 else 0) ∧
    (∀ link, n.links[id]? = some link → link.status = .active → link.derivedKey.isSome = true) ∧
    ∀ l n', FreshStep n l n' →
      LinkMove (n.statusOf id) (n'.statusOf id) ∧
      l.2.events.count (.linkEstablished id) =
        (if n.statusOf id ≠ some .active ∧ n'.statusOf id = some .active then 1 else 0) ∧
      (l.1.tick?.isSome = true → (eventsOf (tr ++ [l])).count (.linkClosed id) =
        if n'.statusOf id = some .closed then 1 else 0) ∧
      ∀ pt, .linkData id pt ∈ l.2.events → n.statusOf id = some .active := by
  have hi := lifecycle_of_run h id
  refine ⟨hi.established, hi.closed, hi.keyed, fun l n' hst => ?_⟩
  have hc := hst.statusChange hi.pendingOk id
  refine ⟨hc.move hi.noHandshake, ?_, fun htick => ?_, fun pt he => ?_⟩
  · cases hc with
    | stay hs hr => rw [hr.established, if_neg (by rw [hs]; exact fun h => h.1 h.2)]
    | request _ ha hr => rw [hr.established, if_neg (by simp [ha])]
    | establish hb ha hr =>
      have hne : n.statusOf id ≠ some .active := by rcases hb with hb | hb <;> simp [hb]
      rw [hr.established, if_pos ⟨hne, ha⟩]
    | close _ _ ha hr => rw [hr.established, if_neg (by simp [ha])]
  · have hempty : n'.pendingEvents = [] := by
      obtain ⟨op, out⟩ := l
      have hstep := hst.2
      cases op <;> simp only [Op.tick?, Option.isSome_none, Bool.false_eq_true] at htick <;> cases hstep <;> rfl
    have := (hi.step hst).closed
    simpa [hempty] using this
  · obtain ⟨link, hl, hact⟩ := hst.2.linkData hi.pendingOk he
    rw [statusOf_eq hl, hact]

end

section
open Sample

/-- A destination, a request for a link to it, and the id of that link. -/
def chatDest : Arr 16 := destinationHash (nameHash "chat" []) (identity 3).hash

def chatRequest : Packet := linkRequestFor chatDest (entropy 1)

def chatLink : Arr 16 := linkIdFromRequest chatRequest

/-- The destination accepts the link. -/
def linkedOps : List Op :=
  [.registerSingleDestination "chat" [], .handleInboundWithEntropy chatRequest.encode 0 (entropy 2)]

def linked : Node := (withClock (identity 3) 100).after linkedOps

theorem linked_run : ∃ tr, Lts.Run NodeStep (withClock (identity 3) 100) tr linked ∧ tr.map (·.1) = linkedOps :=
  after_run (by decide +kernel)

/-- The destination accepts the link, closes it and ticks. -/
def closingOps : List Op :=
  [.registerSingleDestination "chat" [], .handleInboundWithEntropy chatRequest.encode 0 (entropy 2),
    .closeLink chatLink, .tick]

theorem link_lifecycle_closing : ∃ tr n, (withClock (identity 3) 100).exec closingOps = some (n, tr) ∧
    n.statusOf chatLink = some .closed ∧ (eventsOf tr).count (.linkEstablished chatLink) ≤ 1 ∧
    (eventsOf tr).count (.linkClosed chatLink) + n.pendingEvents.count (.linkClosed chatLink) = 1 := by
  obtain ⟨⟨n, tr⟩, hexec⟩ : ∃ r, (withClock (identity 3) 100).exec closingOps = some r :=
    Option.isSome_iff_exists.mp (by decide +kernel)
  have hst : n.statusOf chatLink = some .closed := by
    have h : ((withClock (identity 3) 100).exec closingOps).map (fun r => r.1.statusOf chatLink) =
      some (some .closed) := by decide +kernel
    simpa [hexec] using h
  have hrun : Lts.Run FreshStep (withClock (identity 3) 100) tr n := by
    refine (exec_run hexec).restrict fun t l hl d rng id hop => ?_
    have hmem : l.1 ∈ closingOps := exec_labels hexec ▸ List.mem_map_of_mem hl
    simp [closingOps, hop] at hmem
  have h := link_lifecycle hrun chatLink
  exact ⟨tr, n, hexec, hst, h.1, by simpa [hst] using h.2.1⟩

end

end Reticulum
