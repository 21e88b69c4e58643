import Reticulum.Carrying
import Reticulum.LinkSteps
import Reticulum.Retry

/-!
# What a step does to one inbound resource

Every way the state of an inbound resource can change in a step, with the
frame or the tick that changes it and the events returned about it.
-/

namespace Reticulum

namespace Node

variable [Crypto]

/-- The step handles a DATA frame of an Active link of the node. -/
structure LinkFrame (n : Node) (l : Label) (id : Arr 16) (i : UInt16) (rng : Option Entropy) (p : Packet)
    (link : LinkEntry) (k : Arr 64) : Prop where
  op : ∃ b, l.1.inbound? = some (b, i, rng) ∧ n.Admits b p id
  kind : p.packetType = DATA
  dest : p.destType = LINK
  active : n.ActiveOn id i link k

/-- The step opens a frame of the link in a context, in a call with entropy. -/
def Opens (n : Node) (l : Label) (id : Arr 16) (c : UInt8) (pt : Bytes) : Prop :=
  ∃ i rng p link k, n.LinkFrame l id i (some rng) p link k ∧ p.context = c ∧ Token.openWithKey k p.data = .ok pt

/-- The step runs the body of the tick on the node `m`. -/
inductive RunsTick (n : Node) (l : Label) (n' : Node) : Node → Option Entropy → Prop
  | called {rng : Option Entropy} : l.1.tick? = some rng → (n', l.2.events) = n.tickInner rng → RunsTick n l n' n rng
  | closing {id : Arr 16} {i : UInt16} {rng : Option Entropy} {p : Packet} {link : LinkEntry} {k : Arr 64} :
    n.LinkFrame l id i rng p link k → p.context = LINKCLOSE → Token.openWithKey k p.data = .ok id.1 →
    (n', l.2.events) = ((n.admitted p).closedByPeer id link).tickInner none →
    RunsTick n l n' ((n.admitted p).closedByPeer id link) none

theorem RunsTick.tickInner_eq {n n' m : Node} {l : Label} {rng : Option Entropy} (h : n.RunsTick l n' m rng) :
    (n', l.2.events) = m.tickInner rng := by
  cases h with
  | called _ h => exact h
  | closing _ _ _ h => exact h

theorem runsTick_tick (n : Node) : n.RunsTick (.tick, { events := n.tick.2 }) n.tick.1 n none := .called rfl rfl

theorem runsTick_tickWithEntropy (n : Node) (rng : Entropy) :
    n.RunsTick (.tickWithEntropy rng, { events := (n.tickWithEntropy rng).2 }) (n.tickWithEntropy rng).1 n (some rng) :=
  .called rfl rfl

/-- The interface and the key of a link entry, whatever its status. -/
def linkEnds (n : Node) (id : Arr 16) : Option (UInt16 × Option (Arr 64)) :=
  (n.links[id]?).map fun link => (link.interface, link.derivedKey)

omit [Crypto] in
theorem linkKey_of_linkEnds {n m : Node} {id : Arr 16} (h : m.linkEnds id = n.linkEnds id) : m.linkKey? id = n.linkKey? id := by
  have hkey (n : Node) : n.linkKey? id = (n.linkEnds id).bind (·.2) := by
    simp [linkKey?, linkEnds, Option.bind_map]
  rw [hkey, hkey, h]

/-- The tick works on the resources, the clock, the queue and the links the step begins with. -/
theorem RunsTick.begins {n n' m : Node} {l : Label} {rng : Option Entropy} (h : n.RunsTick l n' m rng) :
    m.inboundResources = n.inboundResources ∧ m.nowSecs = n.nowSecs ∧ m.outbound = n.outbound ∧
      (∀ id, m.linkEnds id = n.linkEnds id) ∧
      (∃ es, m.pendingEvents = n.pendingEvents ++ es ∧ ∀ e ∈ es, e.resource? = none) := by
  cases h with
  | called => exact ⟨rfl, rfl, rfl, fun _ => rfl, [], by simp, by simp⟩
  | @closing id _ _ p link k hf =>
    refine ⟨by simp, by simp [nowSecs], by simp, fun id' => ?_, [.linkClosed id], by simp, by simp [Event.resource?]⟩
    simp only [linkEnds, closedByPeer_links, admitted_links, Std.ExtTreeMap.getElem?_insert]
    split
    · rename_i h
      obtain rfl : id = id' := by simpa using h
      rw [hf.active.get]
      rfl
    · simp

/-! ## Frames -/

/-- How a frame can change the resource. -/
inductive FrameChange [Rmp] [Bzip2] (n : Node) (id : Arr 16) (p : Packet) (k : Arr 64) (rng : Option Entropy) (key : ResourceKey) :
    Node × List Event → Prop
  | kept {out : Node × List Event} : out.1.inboundResources[key]? = n.inboundResources[key]? →
    eventsFor key out.2 = [] → FrameChange n id p k rng key out
  | started {a : ResourceAdvertisement} {r : InboundResource} {pt : Bytes} {out : Node × List Event} :
    key.1 = id → p.context = RESOURCE_ADV → rng.isSome = true → Token.openWithKey k p.data = .ok pt →
    ResourceAdvertisement.unpack pt = .ok a → InboundResource.fromAdvertisement a = .ok r → r.hash = key.2 →
    out.1.inboundResources[key]? = some (r.nextRequest n.nowSecs).1 →
    eventsFor key out.2 = [.resourceStarted key.1 key.2 r.totalSize] → FrameChange n id p k rng key out
  | updated {r r' : InboundResource} {pt : Bytes} {out : Node × List Event} :
    key.1 = id → p.context = RESOURCE_HMU → rng.isSome = true → Token.openWithKey k p.data = .ok pt →
    Arr.slice? pt 0 32 = some key.2 → n.inboundResources[key]? = some r →
    (r' = (r.onHashmapUpdate pt).1 ∨ r' = ((r.onHashmapUpdate pt).1.nextRequest n.nowSecs).1) →
    out.1.inboundResources[key]? = some r' → eventsFor key out.2 = [] → FrameChange n id p k rng key out
  | cancelled {pt : Bytes} {out : Node × List Event} :
    key.1 = id → (p.context = RESOURCE_ICL ∨ p.context = RESOURCE_RCL) → rng.isSome = true → Token.openWithKey k p.data = .ok pt →
    Arr.slice? pt 0 32 = some key.2 → out.1.inboundResources[key]? = none →
    eventsFor key out.2 = [.resourceFailed key.1 key.2] → FrameChange n id p k rng key out
  | progressed {r r' : InboundResource} {out : Node × List Event} : key.1 = id → p.context = RESOURCE →
    n.inboundResources[key]? = some r → (r.onPart p.data).2 = true → (r.onPart p.data).1.isComplete = false →
    (r' = (r.onPart p.data).1 ∨ r' = ((r.onPart p.data).1.nextRequest n.nowSecs).1) →
    out.1.inboundResources[key]? = some r' →
    eventsFor key out.2 =
      [.resourceProgress key.1 key.2 (r.onPart p.data).1.receivedParts (r.onPart p.data).1.totalParts] →
    FrameChange n id p k rng key out
  | ended {r : InboundResource} {e : Event} {out : Node × List Event} : key.1 = id → p.context = RESOURCE →
    n.inboundResources[key]? = some r → (r.onPart p.data).2 = true → (r.onPart p.data).1.isComplete = true →
    ((∃ data, (r.onPart p.data).1.finalize k = .ok data ∧ e = .resourceComplete key.1 key.2 data) ∨
      (∃ err, (r.onPart p.data).1.finalize k = .error err) ∧ e = .resourceFailed key.1 key.2) →
    out.1.inboundResources[key]? = none →
    eventsFor key out.2 =
      [.resourceProgress key.1 key.2 (r.onPart p.data).1.receivedParts (r.onPart p.data).1.totalParts, e] →
    FrameChange n id p k rng key out

section
variable [Rmp] [Bzip2] {n : Node} {id : Arr 16} {p : Packet} {k : Arr 64} {rng : Option Entropy} {key : ResourceKey}
  {pt : Bytes}

theorem FrameChange.other {m : Node} {events : List Event} (hm : m.inboundResources[key]? = n.inboundResources[key]?)
    (he : ∀ e ∈ events, e.resource? ≠ some key) : FrameChange n id p k rng key (m, events) := by
  refine .kept hm (List.filter_eq_nil_iff.mpr fun e hmem => ?_)
  simpa using he e hmem

theorem FrameChange.of_eq {m : Node} {out : Node × List Event} (hi : m.inboundResources = n.inboundResources)
    (hc : m.nowSecs = n.nowSecs) (h : FrameChange m id p k rng key out) : FrameChange n id p k rng key out := by
  cases h with
  | kept h he => exact .kept (hi ▸ h) he
  | started h0 h1 h2 h3 h4 h5 h6 h7 h8 => exact .started h0 h1 h2 h3 h4 h5 h6 (hc ▸ h7) h8
  | updated h0 h1 h2 h3 h4 h5 h6 h7 h8 => exact .updated h0 h1 h2 h3 h4 (hi ▸ h5) (hc ▸ h6) h7 h8
  | cancelled h0 h1 h2 h3 h4 h5 h6 => exact .cancelled h0 h1 h2 h3 h4 h5 h6
  | progressed h0 h1 h2 h3 h4 h5 h6 h7 => exact .progressed h0 h1 (hi ▸ h2) h3 h4 (hc ▸ h5) h6 h7
  | ended h0 h1 h2 h3 h4 h5 h6 h7 => exact .ended h0 h1 (hi ▸ h2) h3 h4 h5 h6 h7

theorem FrameChange.of_received {out : Node × List Event} (h : FrameChange n id (received p) k rng key out) :
    FrameChange n id p k rng key out := by
  cases h with
  | kept h he => exact .kept h he
  | started h0 h1 h2 h3 h4 h5 h6 h7 h8 => exact .started h0 h1 h2 h3 h4 h5 h6 h7 h8
  | updated h0 h1 h2 h3 h4 h5 h6 h7 h8 => exact .updated h0 h1 h2 h3 h4 h5 h6 h7 h8
  | cancelled h0 h1 h2 h3 h4 h5 h6 => exact .cancelled h0 h1 h2 h3 h4 h5 h6
  | progressed h0 h1 h2 h3 h4 h5 h6 h7 => exact .progressed h0 h1 h2 h3 h4 h5 h6 h7
  | ended h0 h1 h2 h3 h4 h5 h6 h7 => exact .ended h0 h1 h2 h3 h4 h5 h6 h7

/-- A frame of another link changes nothing. -/
theorem FrameChange.kept_of_ne {out : Node × List Event} (h : FrameChange n id p k rng key out) (hkey : key.1 ≠ id) :
    out.1.inboundResources[key]? = n.inboundResources[key]? ∧ eventsFor key out.2 = [] := by
  cases h with
  | kept h he => exact ⟨h, he⟩
  | _ h => exact absurd h hkey

/-- A part changes the resource that takes it. -/
theorem OfferCase.frameChange {i : UInt16} {out : Node × List Event} (h : OfferCase n id i k p.data out)
    (hc : p.context = RESOURCE) : FrameChange n id p k rng key out := by
  cases h with
  | refused => exact .other rfl (by simp)
  | @taken hash r _ hr hacc hp =>
    by_cases hkey : (id, hash) = key
    · subst hkey
      have hself (m : Node) (r' : InboundResource) :
          (m.setInbound (id, hash) r').inboundResources[(id, hash)]? = some r' := by simp
      cases hp with
      | completed hcomp hfin =>
        refine .ended rfl hc hr hacc hcomp (.inl ⟨_, hfin, rfl⟩) (by simp) ?_
        rw [eventsFor_self rfl, eventsFor_self rfl, eventsFor_nil]
      | corrupt hcomp hfin =>
        refine .ended rfl hc hr hacc hcomp (.inr ⟨⟨_, hfin⟩, rfl⟩) (by simp) ?_
        rw [eventsFor_self rfl, eventsFor_self rfl, eventsFor_nil]
      | waiting hcomp =>
        refine .progressed rfl hc hr hacc hcomp (.inl rfl) (hself _ _) ?_
        rw [eventsFor_self rfl, eventsFor_nil]
      | requested hcomp =>
        refine .progressed rfl hc hr hacc hcomp (.inr rfl) (by simp [nowSecs]) ?_
        rw [eventsFor_self rfl, eventsFor_nil]
    · have hne : ∀ e : Event, e.resource? = some (id, hash) → e.resource? ≠ some key := by
        intro e he h
        exact hkey (Option.some.inj (he.symm.trans h))
      have hset (r' : InboundResource) : (n.setInbound (id, hash) r').inboundResources[key]? = n.inboundResources[key]? :=
        BTreeMap.getElem?_insert_ne hkey
      cases hp with
      | completed =>
        refine .other ((BTreeMap.getElem?_erase_ne hkey).trans (hset _)) ?_
        rintro e (_ | ⟨_, _ | ⟨_, _ | _⟩⟩) <;> exact hne _ rfl
      | corrupt =>
        refine .other ((BTreeMap.getElem?_erase_ne hkey).trans (hset _)) ?_
        rintro e (_ | ⟨_, _ | ⟨_, _ | _⟩⟩) <;> exact hne _ rfl
      | waiting =>
        refine .other (hset _) ?_
        rintro e (_ | ⟨_, _ | _⟩)
        exact hne _ rfl
      | requested =>
        refine .other ((BTreeMap.getElem?_insert_ne hkey).trans (hset _)) ?_
        rintro e (_ | ⟨_, _ | _⟩)
        exact hne _ rfl

/-- What an opened frame of a resource context changes. -/
theorem handleResourceContext_frameChange (hopen : Token.openWithKey k p.data = .ok pt) (i : UInt16) (g : Entropy) :
    FrameChange n id p k (some g) key (n.handleResourceContext id i k p.context pt g) := by
  have hsame : FrameChange n id p k (some g) key (n, []) := .other rfl (by simp)
  have hne {hash : Arr 32} (hkey : ¬ (id, hash) = key) {e : Event} (he : e.resource? = some (id, hash)) :
      e.resource? ≠ some key := fun h => hkey (Option.some.inj (he.symm.trans h))
  unfold handleResourceContext
  by_cases hadv : p.context = RESOURCE_ADV
  · rw [if_pos hadv]
    split
    · exact .other rfl (by simp [Event.resource?])
    · rename_i a hun
      split
      · exact .other rfl (by simp [Event.resource?])
      · rename_i r hfrom
        obtain ⟨ps, heq, -⟩ := requestNext_eq (n.setInbound (id, r.hash) r) id i k r.hash (r := r) (by simp) g
        rw [setInbound_setInbound] at heq
        simp only [setInbound, nowSecs] at heq ⊢
        rw [heq]
        by_cases hkey : (id, r.hash) = key
        · subst hkey
          exact .started rfl hadv rfl hopen hun hfrom rfl (by simp [nowSecs]) (by rw [eventsFor_self rfl, eventsFor_nil])
        · refine .other (BTreeMap.getElem?_insert_ne hkey) ?_
          rintro e (_ | ⟨_, _ | _⟩)
          exact hne hkey rfl
  · rw [if_neg hadv]
    split
    · -- RESOURCE_REQ
      split
      · exact hsame
      · split
        · exact hsame
        · rename_i hash _ _ r hr
          obtain ⟨ps, heq, -⟩ := sendOutputs_eq id i k (r.onRequest pt n.nowSecs).2
            (n.setOutbound (id, hash) (r.onRequest pt n.nowSecs).1, g)
          simp only [setOutbound] at heq ⊢
          rw [heq]
          exact .other rfl (by simp)
    · by_cases hhmu : p.context = RESOURCE_HMU
      · rw [if_pos hhmu]
        split
        · exact hsame
        · rename_i hash hslice
          split
          · exact hsame
          · rename_i r hr
            dsimp only
            by_cases hkey : (id, hash) = key
            · subst hkey
              split
              · exact .updated rfl hhmu rfl hopen hslice hr (.inl rfl) (by simp) rfl
              · obtain ⟨ps, heq, -⟩ := requestNext_eq (n.setInbound (id, hash) (r.onHashmapUpdate pt).1) id i k
                  hash (r := (r.onHashmapUpdate pt).1) (by simp) g
                rw [setInbound_setInbound] at heq
                simp only [setInbound, nowSecs] at heq ⊢
                rw [heq]
                exact .updated rfl hhmu rfl hopen hslice hr (.inr rfl) (by simp [nowSecs]) rfl
            · split
              · exact .other (BTreeMap.getElem?_insert_ne hkey) (by simp)
              · obtain ⟨ps, heq, -⟩ := requestNext_eq (n.setInbound (id, hash) (r.onHashmapUpdate pt).1) id i k
                  hash (r := (r.onHashmapUpdate pt).1) (by simp) g
                rw [setInbound_setInbound] at heq
                simp only [setInbound, nowSecs] at heq ⊢
                rw [heq]
                exact .other (BTreeMap.getElem?_insert_ne hkey) (by simp)
      · rw [if_neg hhmu]
        by_cases hcancel : p.context = RESOURCE_ICL ∨ p.context = RESOURCE_RCL
        · rw [if_pos hcancel]
          split
          · exact hsame
          · rename_i hash hslice
            by_cases hkey : (id, hash) = key
            · subst hkey
              exact .cancelled rfl hcancel rfl hopen hslice (by simp) (by rw [eventsFor_self rfl, eventsFor_nil])
            · refine .other (BTreeMap.getElem?_erase_ne hkey) ?_
              rintro e (_ | ⟨_, _ | _⟩)
              exact hne hkey rfl
        · rw [if_neg hcancel]
          exact hsame

/-- What a frame of an Active link changes: it runs the tick, or changes one resource. -/
theorem handleLinkData_frameChange {i : UInt16} {link : LinkEntry} (ha : n.ActiveOn id i link k) (rng : Option Entropy)
    (key : ResourceKey) :
    FrameChange n id p k rng key (n.handleLinkData p id i rng) ∨
      p.context = LINKCLOSE ∧ Token.openWithKey k p.data = .ok id.1 ∧
        n.handleLinkData p id i rng = (n.closedByPeer id link).tickInner none := by
  unfold handleLinkData
  simp only [ha.get, ha.status, ha.interface, ha.key, and_self, not_true_eq_false, if_false]
  by_cases hpart : p.context = RESOURCE
  · rw [if_pos hpart]
    exact .inl ((handleResourcePart_cases n id i k p.data rng).frameChange hpart)
  · rw [if_neg hpart]
    split
    · refine .inl (.other ?_ (by simp))
      split <;> rfl
    · split
      · exact .inl (.other rfl (by simp [Event.resource?]))
      · rename_i pt hopen
        split
        · exact .inl (.other rfl (by simp))
        · by_cases hclose : p.context = LINKCLOSE
          · rw [if_pos hclose]
            split
            · rename_i hpt
              rw [closeLink_touch n id ha.status]
              exact .inr ⟨hclose, hpt ▸ hopen, rfl⟩
            · exact .inl (.other rfl (by simp))
          · rw [if_neg hclose]
            split
            · exact .inl (.other rfl (by simp [Event.resource?]))
            · split
              · rename_i g
                have h : FrameChange (n.touch id link) id p k (some g) key _ := handleResourceContext_frameChange hopen i g
                exact .inl (FrameChange.of_eq (m := n.touch id link) rfl rfl h)
              · exact .inl (.other rfl (by simp))

theorem handleLinkData_inactive {i : UInt16} (h : ¬ ∃ link k, n.ActiveOn id i link k) :
    n.handleLinkData p id i rng = (n, []) := by
  unfold handleLinkData
  split
  · rfl
  · rename_i link hl
    split
    · rfl
    · rename_i hst
      obtain ⟨hst, hi⟩ := Decidable.not_not.mp hst
      split
      · rfl
      · rename_i k hk
        exact absurd ⟨link, k, hl, hst, hi, hk⟩ h

/-! ## Steps -/

/-- No event about a resource is ever left pending. -/
def NonePending (n : Node) : Prop := ∀ e ∈ n.pendingEvents, e.resource? = none

/-- How a step can change the resource. -/
inductive InboundChange (n : Node) (l : Label) (n' : Node) (key : ResourceKey) : Prop
  | kept : n'.inboundResources[key]? = n.inboundResources[key]? → eventsFor key l.2.events = [] →
    InboundChange n l n' key
  | proven {r : OutboundResource} : n.outboundResources[key]? = some r →
    n'.inboundResources[key]? = n.inboundResources[key]? →
    eventsFor key l.2.events = [.resourceComplete key.1 key.2 []] → InboundChange n l n' key
  | frame {i : UInt16} {rng : Option Entropy} {p : Packet} {link : LinkEntry} {k : Arr 64} :
    n.LinkFrame l key.1 i rng p link k → FrameChange n key.1 p k rng key (n', l.2.events) → InboundChange n l n' key
  | ticked {m : Node} {rng : Option Entropy} : n.RunsTick l n' m rng →
    n'.inboundResources[key]? = (n.inboundResources[key]?).bind (InboundResource.afterRetry n.nowSecs) →
    eventsFor key l.2.events = (if n.expiring key then [.resourceFailed key.1 key.2] else []) → InboundChange n l n' key

omit [Crypto] [Rmp] [Bzip2] in
theorem eventsFor_failures (key : ResourceKey) (keys : List ResourceKey) (hnd : keys.Nodup) :
    eventsFor key (keys.map fun k => .resourceFailed k.1 k.2) =
      if key ∈ keys then [.resourceFailed key.1 key.2] else [] := by
  induction keys with
  | nil => rfl
  | cons k keys ih =>
    obtain ⟨hk, hnd⟩ := List.nodup_cons.mp hnd
    rw [List.map_cons]
    by_cases h : k = key
    · subst h
      rw [eventsFor_self rfl, ih hnd, if_neg hk, if_pos List.mem_cons_self]
    · have hne : (Event.resourceFailed k.1 k.2).resource? ≠ some key := fun he => h (Option.some.inj he)
      rw [eventsFor_other hne, ih hnd]
      simp [Ne.symm h]

omit [Crypto] [Rmp] [Bzip2] in
theorem mem_filter_expiring {n : Node} {key : ResourceKey} :
    key ∈ n.inboundResources.keys.filter n.expiring ↔ n.expiring key = true := by
  rw [List.mem_filter]
  refine ⟨fun h => h.2, fun h => ⟨?_, h⟩⟩
  obtain ⟨r, hr, -⟩ := (Option.any_eq_true _ _).mp h
  rw [Std.ExtTreeMap.mem_keys, Std.ExtTreeMap.mem_iff_isSome_getElem?, hr]
  rfl

omit [Rmp] [Bzip2] in
theorem eventsFor_tickInner {m : Node} (hm : m.NonePending) (rng : Option Entropy) (key : ResourceKey) :
    eventsFor key (m.tickInner rng).2 = if m.expiring key then [.resourceFailed key.1 key.2] else [] := by
  obtain ⟨requests, h⟩ := m.tickInner_exact rng
  have hclosed : eventsFor key ((m.staleLinks m.nowSecs).map .linkClosed) = [] := by
    refine eventsFor_eq_nil fun e he => ?_
    obtain ⟨id, -, rfl⟩ := List.mem_map.mp he
    rfl
  rw [h.events, eventsFor_append, eventsFor_append, eventsFor_eq_nil hm, hclosed,
    eventsFor_failures _ _ (Std.ExtTreeMap.nodup_keys.filter _)]
  simp only [List.nil_append, mem_filter_expiring]

omit [Rmp] [Bzip2] in
/-- A pass of the tick, seen from the step that runs it. -/
theorem RunsTick.ticked {n n' m : Node} {l : Label} {rng : Option Entropy} (hn : n.NonePending)
    (h : n.RunsTick l n' m rng) (key : ResourceKey) :
    n'.inboundResources[key]? = (n.inboundResources[key]?).bind (InboundResource.afterRetry n.nowSecs) ∧
      eventsFor key l.2.events = if n.expiring key then [.resourceFailed key.1 key.2] else [] := by
  obtain ⟨hi, hc, -, -, es, hes, hquiet⟩ := h.begins
  have hm : m.NonePending := by
    intro e he
    rcases List.mem_append.mp (hes ▸ he) with he | he
    · exact hn e he
    · exact hquiet e he
  have hexp : m.expiring key = n.expiring key := by simp only [expiring, hi, hc]
  obtain ⟨requests, hex⟩ := m.tickInner_exact rng
  have hn' : n' = (m.tickInner rng).1 := congrArg Prod.fst h.tickInner_eq
  have hev : l.2.events = (m.tickInner rng).2 := congrArg Prod.snd h.tickInner_eq
  constructor
  · rw [hn', hex.resources key, hi, hc]
  · rw [hev, eventsFor_tickInner hm, hexp]

theorem RunsTick.change {n n' m : Node} {l : Label} {rng : Option Entropy} (hn : n.NonePending)
    (h : n.RunsTick l n' m rng) (key : ResourceKey) : n.InboundChange l n' key :=
  .ticked h (h.ticked hn key).1 (h.ticked hn key).2

end

end Node

open Node

variable [Crypto] [Rmp] [Bzip2]

theorem NodeStep.runsTick {n n' : Node} {l : Label} (h : NodeStep n l n') {rng : Option Entropy} (hl : l.1.tick? = some rng) :
    n.RunsTick l n' n rng := by
  obtain ⟨op, out⟩ := l
  cases op <;> cases hl <;> cases h <;> exact .called rfl rfl

theorem NodeStep.nonePending {n n' : Node} {l : Label} (hn : n.NonePending) (h : NodeStep n l n') : n'.NonePending := by
  have hsame {m : Node} (he : m.pendingEvents = n.pendingEvents) : m.NonePending := fun e hm => hn e (he ▸ hm)
  have htick (m : Node) (rng : Option Entropy) : (m.tickInner rng).1.NonePending := by
    intro e he
    cases he
  cases h.cases with
  | config _ hc => exact hsame (by rw [hc.eq])
  | announce hc => cases hc <;> exact hsame rfl
  | sent _ hc => exact hsame (by rw [hc.eq]; rfl)
  | establish hc => cases hc <;> exact hsame rfl
  | linkSend hc => cases hc <;> exact hsame rfl
  | sendResource hc => cases hc <;> exact hsame rfl
  | close hc =>
    cases hc with
    | unknown | already => exact hn
    | closed =>
      intro e he
      rcases List.mem_append.mp he with he | he
      · exact hn e he
      · rw [List.mem_singleton.mp he]
        rfl
  | tick => exact htick n _
  | inbound _ hc =>
    cases hc with
    | malformed => exact hn
    | duplicate => exact hsame (by simp)
    | @admitted p _ _ _ h =>
      have hsame {m : Node} (he : m.pendingEvents = (n.admitted p).pendingEvents) : m.NonePending :=
        hsame (he.trans (by simp))
      cases h.links with
      | kept h => exact hsame h.pending
      | request _ hr => cases hr <;> exact hsame rfl
      | proof _ hr => cases hr <;> exact hsame rfl
      | data h =>
        cases h with
        | kept h => exact hsame h.pending
        | touched _ h => exact hsame h.pending
        | data => exact hsame rfl
        | closed => exact htick _ _

theorem NodeStep.inboundChange {n n' : Node} {l : Label} (hn : n.NonePending) (h : NodeStep n l n') (key : ResourceKey) :
    n.InboundChange l n' key := by
  have hquiet : eventsFor key ([] : List Event) = [] := rfl
  have hsame {m : Node} {op : Op} {ret : Ret} (he : m.inboundResources = n.inboundResources) :
      n.InboundChange (op, { ret := ret }) m key := .kept (by rw [he]) hquiet
  have hstep := h
  cases h.cases with
  | config _ hc => exact hsame (by rw [hc.eq])
  | announce hc => cases hc <;> exact hsame rfl
  | sent _ hc => exact hsame (by rw [hc.eq]; rfl)
  | establish hc => cases hc <;> exact hsame rfl
  | linkSend hc => cases hc <;> exact hsame rfl
  | sendResource hc => cases hc <;> exact hsame rfl
  | close hc => cases hc <;> exact hsame rfl
  | @tick op rng hop => exact (RunsTick.called hop rfl).change hn key
  | @inbound op b i rng n' events hop hc =>
    have heq := hstep.inbound hop
    generalize hout : (n', events) = out at hc
    cases hc with
    | malformed => cases hout; exact .kept rfl hquiet
    | duplicate => cases hout; exact .kept (by simp) hquiet
    | @admitted p d _ ha hd =>
      subst hout
      rw [handleInboundInner_of_admits ha] at heq
      by_cases hlink : p.packetType = DATA ∧ p.destType = LINK
      · rw [dispatch_linkData (by exact hlink.1) (by exact hlink.2)] at heq
        by_cases hact : ∃ link k, n.ActiveOn d i link k
        · obtain ⟨link, k, hact⟩ := hact
          have hframe : n.LinkFrame (op, { events := events }) d i rng p link k := ⟨⟨b, hop, ha⟩, hlink.1, hlink.2, hact⟩
          have hact' : (n.admitted p).ActiveOn d i link k := ⟨by simpa using hact.get, hact.status, hact.interface, hact.key⟩
          rcases handleLinkData_frameChange (p := received p) hact' rng key with hf | ⟨hctx, hopen, htick⟩
          · rw [heq] at hf
            have hf := (hf.of_eq (n := n) (by simp) (by simp)).of_received
            by_cases hkey : key.1 = d
            · subst hkey
              exact .frame hframe hf
            · exact .kept (hf.kept_of_ne hkey).1 (hf.kept_of_ne hkey).2
          · exact (RunsTick.closing hframe hctx hopen (heq.symm.trans htick)).change hn key
        · have hact' : ¬ ∃ link k, (n.admitted p).ActiveOn d i link k := by
            rintro ⟨link, k, h⟩
            exact hact ⟨link, k, by simpa using h.get, h.status, h.interface, h.key⟩
          rw [handleLinkData_inactive hact'] at heq
          cases heq
          exact .kept (by simp) hquiet
      · clear heq
        generalize hout : (n', events) = out at hd
        cases hd with
        | ignored => cases hout; exact .kept (by simp) hquiet
        | pathRequest =>
          cases hout
          obtain ⟨_, _, heq, -⟩ := handlePathRequest_cases (n.admitted p) (received p) i
          rw [heq]
          exact .kept (by simp) hquiet
        | linkRequest _ hr => cases hr <;> cases hout <;> exact .kept (by simp) rfl
        | linkProof _ _ _ hr => cases hr <;> cases hout <;> exact .kept (by simp) rfl
        | deliveryProof _ hr => cases hr <;> cases hout <;> exact .kept (by simp) rfl
        | resourceProof _ _ _ hr =>
          cases hr with
          | ignored => cases hout; exact .kept (by simp) hquiet
          | kept => cases hout; exact .kept (by simp) hquiet
          | @completed hash r _ hr _ =>
            cases hout
            by_cases hkey : (d, hash) = key
            · subst hkey
              refine .proven (r := r) (by simpa using hr) (by simp) ?_
              exact eventsFor_self rfl []
            · refine .kept (by simp) ?_
              have hne : (Event.resourceComplete d hash []).resource? ≠ some key := fun h => hkey (Option.some.inj h)
              exact eventsFor_other hne []
        | linkData hk ht => exact absurd ⟨hk, ht⟩ hlink
        | announce _ hr => cases hr <;> cases hout <;> exact .kept (by simp) rfl
        | data _ _ _ hr =>
          cases hr with
          | relayed =>
            cases hout
            have hf := forwardData_cases (n.admitted p) (received p) d i
            generalize (n.admitted p).forwardData (received p) d i = m at hf
            cases hf <;> exact .kept (by simp) hquiet
          | _ => cases hout; exact .kept (by simp) rfl

/-! ## Runs -/

namespace InboundResource

omit [Rmp] [Bzip2] in
theorem onPart_hash (r : InboundResource) (part : Bytes) : (r.onPart part).1.hash = r.hash := by
  cases h : (r.onPart part).2 with
  | false => rw [onPart_refused h]
  | true =>
    obtain ⟨_, _, _, _, _, heq, -⟩ := onPart_ok h
    rw [heq]

omit [Crypto] [Bzip2] in
theorem onHashmapUpdate_hash (r : InboundResource) (data : Bytes) : (r.onHashmapUpdate data).1.hash = r.hash := by
  rcases r.onHashmapUpdate_fst data with h | ⟨_, _, _, h⟩ <;> rw [h]

omit [Crypto] [Rmp] [Bzip2] in
theorem afterRetry_eq {r r' : InboundResource} {now : Nat} (h : r.afterRetry now = some r') : r' = (r.retryDue now).1 := by
  unfold afterRetry at h
  split at h
  · rename_i heq
    rw [heq]
    exact (Option.some.inj h).symm
  · cases h

end InboundResource

/-- Every inbound resource is kept under its own hash, in a state the handlers lead to. -/
structure Node.ResourcesOk (n : Node) : Prop where
  pending : n.NonePending
  reachable : ∀ (key : ResourceKey) (r : InboundResource), n.inboundResources[key]? = some r → r.Reachable
  named : ∀ (key : ResourceKey) (r : InboundResource), n.inboundResources[key]? = some r → r.hash = key.2

theorem NodeStep.resourcesOk {n n' : Node} {l : Label} (hn : n.ResourcesOk) (h : NodeStep n l n') : n'.ResourcesOk := by
  have hone (key : ResourceKey) (r : InboundResource) (hr : n'.inboundResources[key]? = some r) :
      r.Reachable ∧ r.hash = key.2 := by
    cases h.inboundChange hn.pending key with
    | kept hk => exact ⟨hn.reachable key r (hk ▸ hr), hn.named key r (hk ▸ hr)⟩
    | proven _ hk => exact ⟨hn.reachable key r (hk ▸ hr), hn.named key r (hk ▸ hr)⟩
    | ticked _ hk =>
      obtain ⟨r₀, hr₀, hr'⟩ := Option.bind_eq_some_iff.mp (hk.symm.trans hr)
      rw [InboundResource.afterRetry_eq hr']
      exact ⟨(hn.reachable key r₀ hr₀).retried _, (r₀.retryDue_hash _).trans (hn.named key r₀ hr₀)⟩
    | @frame _ _ p _ _ _ hf =>
      cases hf with
      | kept hk => exact ⟨hn.reachable key r (hk ▸ hr), hn.named key r (hk ▸ hr)⟩
      | started _ _ _ _ _ hfrom hhash hk =>
        cases hk.symm.trans hr
        exact ⟨(InboundResource.Reachable.advertised hfrom).asked _, (InboundResource.nextRequest_hash _ _).trans hhash⟩
      | @updated r₀ _ pt _ _ _ _ _ _ hr₀ hr' hk =>
        cases hk.symm.trans hr
        have hup := (hn.reachable key r₀ hr₀).updated pt
        have hhash := (r₀.onHashmapUpdate_hash pt).trans (hn.named key r₀ hr₀)
        rcases hr' with rfl | rfl
        · exact ⟨hup, hhash⟩
        · exact ⟨hup.asked _, (InboundResource.nextRequest_hash _ _).trans hhash⟩
      | cancelled _ _ _ _ _ hk => cases hk.symm.trans hr
      | ended _ _ _ _ _ _ hk => cases hk.symm.trans hr
      | @progressed r₀ _ _ _ _ hr₀ _ _ hr' hk =>
        cases hk.symm.trans hr
        have hpart := (hn.reachable key r₀ hr₀).part p.data
        have hhash := (r₀.onPart_hash p.data).trans (hn.named key r₀ hr₀)
        rcases hr' with rfl | rfl
        · exact ⟨hpart, hhash⟩
        · exact ⟨hpart.asked _, (InboundResource.nextRequest_hash _ _).trans hhash⟩
  exact ⟨h.nonePending hn.pending, fun key r hr => (hone key r hr).1, fun key r hr => (hone key r hr).2⟩

theorem resourcesOk_of_run {identity : Identity} {clock : UInt64} {tr : List Label} {n : Node}
    (h : Lts.Run NodeStep (withClock identity clock) tr n) : n.ResourcesOk := by
  refine h.preserve (fun _ _ _ hi hst => hst.resourcesOk hi) ⟨?_, ?_, ?_⟩
  · intro e he
    cases he
  · intro key r hr
    simp [withClock] at hr
  · intro key r hr
    simp [withClock] at hr

end Reticulum
