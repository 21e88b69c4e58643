import Reticulum.StepCases
import Reticulum.Transfer

/-!
# The retry loop, resource by resource

The tick asks each inbound resource once whether a retry is due. What becomes
of the resource is decided by the resource and the clock alone; whether the
request goes out depends on the entropy and on the key of the link too.
-/

namespace Reticulum

/-- The resource an event is about. -/
def Event.resource? : Event → Option ResourceKey
  | .resourceStarted id hash _ => some (id, hash)
  | .resourceProgress id hash _ _ => some (id, hash)
  | .resourceComplete id hash _ => some (id, hash)
  | .resourceFailed id hash => some (id, hash)
  | _ => none

/-- The events about one resource. -/
def eventsFor (key : ResourceKey) (events : List Event) : List Event := events.filter (·.resource? = some key)

@[simp] theorem eventsFor_nil (key : ResourceKey) : eventsFor key [] = [] := rfl

@[simp] theorem eventsFor_append (key : ResourceKey) (es es' : List Event) :
    eventsFor key (es ++ es') = eventsFor key es ++ eventsFor key es' := List.filter_append ..

theorem eventsFor_eq_nil {key : ResourceKey} {events : List Event} (h : ∀ e ∈ events, e.resource? = none) :
    eventsFor key events = [] := by
  refine List.filter_eq_nil_iff.mpr fun e he => ?_
  simp [h e he]

theorem eventsFor_self {key : ResourceKey} {e : Event} (he : e.resource? = some key) (es : List Event) :
    eventsFor key (e :: es) = e :: eventsFor key es := List.filter_cons_of_pos (by simp [he])

theorem eventsFor_other {key : ResourceKey} {e : Event} (he : e.resource? ≠ some key) (es : List Event) :
    eventsFor key (e :: es) = eventsFor key es := List.filter_cons_of_neg (by simpa using he)

namespace InboundResource

/-- The resource after a pass of the retry loop, if it survives. -/
def afterRetry (now : Nat) (r : InboundResource) : Option InboundResource :=
  match r.retryDue now with
  | (r, .ok _) => some r
  | (_, .error _) => none

/-- The request of a retry, if one is made. -/
def retryRequest (now : Nat) (r : InboundResource) : Option Bytes :=
  match (r.retryDue now).2 with
  | .ok request => request
  | .error _ => none

theorem nextRequest_hash (r : InboundResource) (now : Nat) : (r.nextRequest now).1.hash = r.hash := by
  unfold nextRequest
  split
  · rfl
  · split
    · rfl
    · split
      · split <;> rfl
      · dsimp only
        split <;> rfl

theorem retryDue_hash (r : InboundResource) (now : Nat) : (r.retryDue now).1.hash = r.hash := by
  unfold retryDue
  split
  · rfl
  · split
    · rfl
    · exact nextRequest_hash _ _

/-- A request names its resource. -/
theorem nextRequest_names {r : InboundResource} {now : Nat} {request : Bytes} (h : (r.nextRequest now).2 = some request) :
    Node.requestHash request = some r.hash := by
  unfold nextRequest at h
  split at h
  · cases h
  · split at h
    · cases h
    · split at h
      · split at h
        · cases h
        · rename_i known _
          cases h
          have hfive : (HASHMAP_IS_EXHAUSTED :: known.1).length = 5 := by simp [known.2]
          have := Arr.slice?_append hfive r.hash []
          rw [List.append_nil] at this
          exact this
      · dsimp only at h
        split at h
        · cases h
        · cases h
          have hone : [HASHMAP_IS_NOT_EXHAUSTED].length = 1 := rfl
          exact Arr.slice?_append hone r.hash _

theorem retryRequest_names {r : InboundResource} {now : Nat} {request : Bytes} (h : r.retryRequest now = some request) :
    Node.requestHash request = some r.hash := by
  unfold retryRequest retryDue at h
  split at h
  · rename_i hreq
    subst h
    split at hreq
    · cases hreq
    · split at hreq
      · cases hreq
      · dsimp only at hreq
        have hnames := nextRequest_names (Except.ok.inj hreq)
        exact hnames
  · cases h

/-- With every invariant in place, the request of a retry is made exactly when the retry is charged. -/
theorem Sound.retryRequest_isSome {r : InboundResource} (hs : r.Sound) (now : Nat) :
    (r.retryRequest now).isSome = true ↔ r.Overdue now ∧ r.retries < MAX_RETRIES := by
  unfold retryRequest
  by_cases h : r.Overdue now
  · by_cases hr : r.retries < MAX_RETRIES
    · obtain ⟨_, _, _, heq⟩ := hs.retryDue h hr
      simp [heq, h, hr]
    · rw [retryDue_exhausted h (Nat.le_of_not_lt hr)]
      simp [hr]
  · rw [retryDue_idle h]
    simp [h]

end InboundResource

namespace Node

variable [Crypto]

/-- The pass of the retry loop ends the transfer. -/
def expiring (n : Node) (key : ResourceKey) : Bool :=
  (n.inboundResources[key]?).any fun r => (r.afterRetry n.nowSecs).isNone

/-- The key of the link entry, whatever its status. -/
def linkKey? (n : Node) (id : Arr 16) : Option (Arr 64) := (n.links[id]?).bind (·.derivedKey)

/-- The pass of the retry loop sends a request. -/
def asksAgain (n : Node) (rng : Option Entropy) (key : ResourceKey) : Bool :=
  rng.isSome && (n.linkKey? key.1).isSome && (n.inboundResources[key]?).any fun r => (r.retryRequest n.nowSecs).isSome

/-- The packet of a retry. -/
structure RetryFrame (n : Node) (key : ResourceKey) (q : UInt16 × Packet) : Prop where
  made : ∃ (r : InboundResource) (link : LinkEntry) (k : Arr 64) (request : Bytes) (iv : Arr 16),
    n.inboundResources[key]? = some r ∧ r.retryRequest n.nowSecs = some request ∧
      n.links[key.1]? = some link ∧ link.derivedKey = some k ∧
      q = (link.interface, Packet.linkContext key.1 RESOURCE_REQ (Token.sealWithKey k request iv))

/-- What the retry loop over `keys` does, exactly. -/
structure RetryExact (n : Node) (rng : Option Entropy) (keys : List ResourceKey) (m : Node)
    (requests : List (ResourceKey × UInt16 × Packet)) : Prop where
  eq : m = (n.retriedWith m.inboundResources (keys.filter n.expiring)).emit (requests.map (·.2))
  other : ∀ (key : ResourceKey), key ∉ keys → m.inboundResources[key]? = n.inboundResources[key]?
  retried : ∀ (key : ResourceKey), key ∈ keys → m.inboundResources[key]? = (n.inboundResources[key]?).bind (InboundResource.afterRetry n.nowSecs)
  asked : requests.map (·.1) = keys.filter (n.asksAgain rng)
  frames : ∀ q ∈ requests, n.RetryFrame q.1 q.2

theorem tickResource_exact (n : Node) (rng : Option Entropy) (key : ResourceKey) :
    ∃ requests, RetryExact n rng [key] (tickResource (n, rng) key).1 requests ∧
      (tickResource (n, rng) key).2.isSome = rng.isSome := by
  have hother (m : BTreeMap ResourceKey InboundResource) (r : InboundResource) (hm : m = n.inboundResources.insert key r)
      (k : ResourceKey) (hk : k ∉ [key]) : m[k]? = n.inboundResources[k]? := by
    rw [hm]
    exact BTreeMap.getElem?_insert_ne fun h => hk (List.mem_singleton.mpr h.symm)
  unfold tickResource
  dsimp only
  cases hr : n.inboundResources[key]? with
  | none =>
    refine ⟨[], ⟨?_, fun _ _ => rfl, ?_, ?_, by simp⟩, rfl⟩
    · simp [retriedWith, emit_nil, expiring, hr]
    · intro k hk
      rw [List.mem_singleton.mp hk, hr]
      rfl
    · simp [asksAgain, hr]
  | some r =>
    dsimp only
    cases hret : r.retryDue n.nowSecs with
    | mk r' result =>
      dsimp only
      cases result with
      | error e =>
        have hexp : n.expiring key = true := by simp [expiring, hr, InboundResource.afterRetry, hret]
        have hask : n.asksAgain rng key = false := by simp [asksAgain, hr, InboundResource.retryRequest, hret]
        refine ⟨[], ⟨?_, ?_, ?_, ?_, by simp⟩, rfl⟩
        · simp [retriedWith, emit_nil, hexp]
        · intro k hk
          have hne : key ≠ k := fun h => hk (List.mem_singleton.mpr h.symm)
          exact (BTreeMap.getElem?_erase_ne hne).trans (hother _ r' rfl k hk)
        · intro k hk
          rw [List.mem_singleton.mp hk, hr]
          simp [InboundResource.afterRetry, hret]
        · simp [hask]
      | ok request =>
        have hexp : n.expiring key = false := by simp [expiring, hr, InboundResource.afterRetry, hret]
        have hself : ∀ k ∈ [key], (n.inboundResources.insert key r')[k]? =
            (n.inboundResources[k]?).bind (InboundResource.afterRetry n.nowSecs) := by
          intro k hk
          rw [List.mem_singleton.mp hk, hr]
          simp [InboundResource.afterRetry, hret]
        have hquiet (hask : n.asksAgain rng key = false) :
            RetryExact n rng [key] (n.setInbound key r') [] := by
          refine ⟨?_, fun k hk => hother _ r' rfl k hk, hself, by simp [hask], by simp⟩
          simp [retriedWith, emit_nil, hexp, setInbound]
        cases request with
        | none =>
          have hask : n.asksAgain rng key = false := by simp [asksAgain, hr, InboundResource.retryRequest, hret]
          exact ⟨[], hquiet hask, rfl⟩
        | some request =>
          have hreq : r.retryRequest n.nowSecs = some request := by simp [InboundResource.retryRequest, hret]
          dsimp only
          cases rng with
          | none =>
            have hask : n.asksAgain none key = false := by simp [asksAgain]
            exact ⟨[], hquiet hask, rfl⟩
          | some g =>
            cases hlink : n.links[key.1]? with
            | none =>
              have hask : n.asksAgain (some g) key = false := by simp [asksAgain, linkKey?, hlink]
              exact ⟨[], hquiet hask, rfl⟩
            | some link =>
              cases hkey : link.derivedKey with
              | none =>
                have hask : n.asksAgain (some g) key = false := by simp [asksAgain, linkKey?, hlink, hkey]
                simp only [Option.bind_some, hkey, Option.map_none]
                exact ⟨[], hquiet hask, trivial⟩
              | some k =>
                have hask : n.asksAgain (some g) key = true := by simp [asksAgain, linkKey?, hlink, hkey, hr, hreq]
                simp only [Option.bind_some, hkey, Option.map_some]
                refine ⟨[(key, link.interface,
                    Packet.linkContext key.1 RESOURCE_REQ (Token.sealWithKey k request (g.fill 16).1))],
                  ⟨?_, fun k hk => hother _ r' rfl k hk, hself, by simp [hask], ?_⟩, rfl⟩
                · simp [retriedWith, emit, hexp, enqueueEncryptedLinkContext, push]
                · intro q hq
                  rw [List.mem_singleton.mp hq]
                  exact ⟨r, link, k, request, _, hr, hreq, hlink, hkey, rfl⟩

/-- The loop takes each resource once, so the state before the loop decides what it does. -/
theorem retryLoop_exact (keys : List ResourceKey) (hnd : keys.Nodup) (n : Node) (rng : Option Entropy) :
    ∃ requests, RetryExact n rng keys (keys.foldl tickResource (n, rng)).1 requests := by
  induction keys generalizing n rng with
  | nil =>
    refine ⟨[], ?_, fun _ _ => rfl, by simp, by simp, by simp⟩
    simp [retriedWith, emit_nil]
  | cons key rest ih =>
    obtain ⟨hkey, hrest⟩ := List.nodup_cons.mp hnd
    obtain ⟨req₁, h₁, hrng⟩ := tickResource_exact n rng key
    obtain ⟨req₂, h₂⟩ : ∃ requests, RetryExact (tickResource (n, rng) key).1 (tickResource (n, rng) key).2 rest
        (rest.foldl tickResource (tickResource (n, rng) key)).1 requests := ih hrest _ _
    rw [List.foldl_cons]
    generalize (tickResource (n, rng) key).2 = rng' at h₂ hrng
    generalize (rest.foldl tickResource (tickResource (n, rng) key)).1 = m' at h₂
    generalize (tickResource (n, rng) key).1 = m at h₁ h₂
    have hlinks : m.links = n.links := (congrArg Node.links h₁.eq).trans (by simp)
    have hclock : m.nowSecs = n.nowSecs := (congrArg Node.nowSecs h₁.eq).trans (by simp [nowSecs])
    have hsame (k : ResourceKey) (hk : k ∈ rest) : m.inboundResources[k]? = n.inboundResources[k]? :=
      h₁.other k fun h => hkey (List.mem_singleton.mp h ▸ hk)
    have hexp : rest.filter m.expiring = rest.filter n.expiring := List.filter_congr fun k hk => by
      simp only [expiring, hsame k hk, hclock]
    have hask : rest.filter (m.asksAgain rng') = rest.filter (n.asksAgain rng) := List.filter_congr fun k hk => by
      simp only [asksAgain, linkKey?, hsame k hk, hclock, hlinks, hrng]
    have hcons (p : ResourceKey → Bool) : (key :: rest).filter p = [key].filter p ++ rest.filter p :=
      List.filter_append [key] rest
    refine ⟨req₁ ++ req₂, ?_, ?_, ?_, ?_, ?_⟩
    · rw [hcons, List.map_append]
      refine h₂.eq.trans ?_
      rw [hexp]
      conv => lhs; rw [h₁.eq]
      simp [retriedWith, emit]
    · intro k hk
      rw [List.mem_cons, not_or] at hk
      exact (h₂.other k hk.2).trans (h₁.other k (by simpa using hk.1))
    · intro k hk
      rcases List.mem_cons.mp hk with rfl | hk
      · exact (h₂.other k hkey).trans (h₁.retried k (List.mem_singleton_self k))
      · rw [h₂.retried k hk, hsame k hk, hclock]
    · rw [hcons, List.map_append, h₁.asked, h₂.asked, hask]
    · intro q hq
      rcases List.mem_append.mp hq with hq | hq
      · exact h₁.frames q hq
      · obtain ⟨r, link, k, request, iv, hr, hreq, hl, hk, hq'⟩ := (h₂.frames q hq).made
        have hmem : q.1 ∈ rest := by
          have := List.mem_map_of_mem (f := (·.1)) hq
          rw [h₂.asked] at this
          exact (List.mem_filter.mp this).1
        exact ⟨r, link, k, request, iv, hsame _ hmem ▸ hr, hclock ▸ hreq, hlinks ▸ hl, hk, hq'⟩

/-! ## The tick -/

omit [Crypto] in
theorem tickedLink_keeps (now : Nat) (link : LinkEntry) :
    (tickedLink now link).derivedKey = link.derivedKey ∧ (tickedLink now link).interface = link.interface := by
  unfold tickedLink
  split <;> exact ⟨rfl, rfl⟩

/-- What the tick does to the resources, exactly. -/
structure TickExact (n : Node) (rng : Option Entropy) (m : Node) (events : List Event)
    (requests : List (ResourceKey × UInt16 × Packet)) : Prop where
  resources : ∀ key : ResourceKey, m.inboundResources[key]? = (n.inboundResources[key]?).bind (InboundResource.afterRetry n.nowSecs)
  events : events = n.pendingEvents ++ (n.staleLinks n.nowSecs).map .linkClosed ++
    (n.inboundResources.keys.filter n.expiring).map fun k => .resourceFailed k.1 k.2
  outbound : n.enqueued m = (n.keepalives ++ requests.map (·.2)).map fun s => (s.1, s.2.encode)
  asked : requests.map (·.1) = n.inboundResources.keys.filter (n.asksAgain rng)
  frames : ∀ q ∈ requests, n.RetryFrame q.1 q.2

theorem tickInner_exact (n : Node) (rng : Option Entropy) :
    ∃ requests, TickExact n rng (n.tickInner rng).1 (n.tickInner rng).2 requests := by
  obtain ⟨requests, h⟩ := retryLoop_exact n.tickLinks.inboundResources.keys Std.ExtTreeMap.nodup_keys n.tickLinks rng
  have hinner : n.tickInner rng = (n.tickLinks.inboundResources.keys.foldl tickResource (n.tickLinks, rng)).1.drainEvents :=
    rfl
  rw [hinner]
  generalize (n.tickLinks.inboundResources.keys.foldl tickResource (n.tickLinks, rng)).1 = m at h
  have hlink (id : Arr 16) : n.tickLinks.linkKey? id = n.linkKey? id := by
    simp only [linkKey?, tickLinks, Std.ExtTreeMap.getElem?_map, Option.bind_map, Function.comp_def,
      (tickedLink_keeps n.nowSecs _).1]
  have hexp : n.tickLinks.expiring = n.expiring := rfl
  have hask : n.tickLinks.asksAgain rng = n.asksAgain rng := by
    funext key
    simp only [asksAgain, hlink]
    rfl
  refine ⟨requests, ?_, ?_, ?_, ?_, ?_⟩
  · intro key
    by_cases hk : key ∈ n.tickLinks.inboundResources.keys
    · exact h.retried key hk
    · have hnone : n.inboundResources[key]? = none := by
        rw [Std.ExtTreeMap.mem_keys] at hk
        exact Std.ExtTreeMap.getElem?_eq_none hk
      refine (h.other key hk).trans ?_
      rw [hnone]
      exact hnone
  · rw [drainEvents, h.eq, hexp]
    rfl
  · rw [drainEvents, h.eq]
    apply enqueued_of_append
    simp only [emit, retriedWith, tickLinks, keepalives, List.map_append, List.map_map, List.append_assoc]
    rfl
  · rw [h.asked, hask]
    rfl
  · intro q hq
    obtain ⟨r, link, k, request, iv, hr, hreq, hl, hk, hq'⟩ := (h.frames q hq).made
    simp only [tickLinks, Std.ExtTreeMap.getElem?_map, Option.map_eq_some_iff] at hl
    obtain ⟨link', hl', rfl⟩ := hl
    have hkeep := tickedLink_keeps n.nowSecs link'
    exact ⟨r, link', k, request, iv, hr, hreq, hl', hkeep.1 ▸ hk, hkeep.2 ▸ hq'⟩

end Node

end Reticulum
