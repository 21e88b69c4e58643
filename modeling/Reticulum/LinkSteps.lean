import Mathlib.Data.List.Count
import Reticulum.StepCases

/-!
# What a step does to one link

Every way the entry of a link id can change in a step, with the
LinkEstablished and LinkClosed events that go with it. A close is reported at
once or left pending for the next tick.
-/

namespace Reticulum

/-- The link whose life or data an event is about. -/
def Event.link? : Event → Option (Arr 16)
  | .linkEstablished id => some id
  | .linkClosed id => some id
  | .linkData id _ => some id
  | _ => none

namespace Node

/-! ## Stale links -/

theorem mem_staleLinks {n : Node} {now : Nat} {id : Arr 16} :
    id ∈ n.staleLinks now ↔ ∃ link, n.links[id]? = some link ∧ linkTick now link = .stale := by
  simp only [staleLinks, List.mem_filterMap, Prod.exists]
  constructor
  · rintro ⟨id', link, hmem, hst⟩
    split at hst
    · cases hst
      exact ⟨link, Std.ExtTreeMap.mem_toList_iff_getElem?_eq_some.mp hmem, ‹_›⟩
    · cases hst
  · rintro ⟨link, hl, hst⟩
    exact ⟨id, link, Std.ExtTreeMap.mem_toList_iff_getElem?_eq_some.mpr hl, by simp [hst]⟩

theorem nodup_staleLinks (n : Node) (now : Nat) : (n.staleLinks now).Nodup := by
  have hk : n.links.toList.Pairwise fun a b => ¬ compare a.1 b.1 = .eq := Std.ExtTreeMap.distinct_keys_toList
  refine List.Pairwise.filterMap _ (fun a a' hne c hc c' hc' => ?_) hk
  simp only [Option.ite_none_right_eq_some, Option.some.injEq] at hc hc'
  rw [← hc.2, ← hc'.2]
  exact fun h => hne (Std.compare_eq_iff_eq.mpr h)

theorem count_staleLinks (n : Node) (now : Nat) (id : Arr 16) :
    (n.staleLinks now).count id = if id ∈ n.staleLinks now then 1 else 0 := by
  split
  · exact List.count_eq_one_of_mem (n.nodup_staleLinks now) ‹_›
  · exact List.count_eq_zero.mpr ‹_›

/-! ## Handlers and links -/

/-- The links and the pending events are as before, and no event is about the life or the data of a link. -/
structure KeepsLinks (n n' : Node) (events : List Event) : Prop where
  links : n'.links = n.links
  pending : n'.pendingEvents = n.pendingEvents
  events : ∀ e ∈ events, e.link? = none

theorem OfferCase.keepsLinks [Crypto] [Bzip2] {n n' : Node} {id : Arr 16} {i : UInt16} {key : Arr 64} {part : Bytes}
    {events : List Event} (h : OfferCase n id i key part (n', events)) : n.KeepsLinks n' events := by
  cases h with
  | refused => exact ⟨rfl, rfl, by simp⟩
  | taken _ _ hp =>
    generalize hout : (n', events) = out at hp
    cases hp <;> cases hout <;> exact ⟨rfl, rfl, by simp [Event.link?]⟩

theorem ResourceContextCase.keepsLinks [Crypto] [Rmp] {n n' : Node} {id : Arr 16} {i : UInt16} {context : UInt8}
    {pt : Bytes} {events : List Event} (h : ResourceContextCase n id i context pt (n', events)) :
    n.KeepsLinks n' events := by
  generalize hout : (n', events) = out at h
  cases h <;> cases hout <;> exact ⟨rfl, rfl, by simp [Event.link?]⟩

/-- How a link data frame treats the links: not at all, as activity on its own, or by closing it. -/
inductive LinkDataLinks [Crypto] (n : Node) (id : Arr 16) (i : UInt16) : Node → List Event → Prop
  | kept {n' : Node} {events : List Event} : n.KeepsLinks n' events → LinkDataLinks n id i n' events
  | touched {n' : Node} {events : List Event} {link : LinkEntry} {key : Arr 64} : n.ActiveOn id i link key →
    (n.touch id link).KeepsLinks n' events → LinkDataLinks n id i n' events
  | data {link : LinkEntry} {key : Arr 64} (pt : Bytes) : n.ActiveOn id i link key →
    LinkDataLinks n id i (n.touch id link) [.linkData id pt]
  | closed {link : LinkEntry} {key : Arr 64} : n.ActiveOn id i link key →
    LinkDataLinks n id i ((n.touch id link).closeLink id).tick.1 ((n.touch id link).closeLink id).tick.2

theorem LinkDataCase.links [Crypto] [Rmp] [Bzip2] {n n' : Node} {p : Packet} {id : Arr 16} {i : UInt16}
    {events : List Event} (h : LinkDataCase n p id i (n', events)) : n.LinkDataLinks id i n' events := by
  generalize hout : (n', events) = out at h
  cases h with
  | ignored => cases hout; exact .kept ⟨rfl, rfl, by simp⟩
  | part _ _ ho => cases hout; exact .kept ho.keepsLinks
  | keepalive ha => cases hout; exact .touched ha ⟨rfl, rfl, by simp⟩
  | badToken => cases hout; exact .kept ⟨rfl, rfl, by simp [Event.link?]⟩
  | touched ha => cases hout; exact .touched ha ⟨rfl, rfl, by simp⟩
  | closed ha =>
    obtain ⟨rfl, rfl⟩ := Prod.mk.inj hout
    exact .closed ha
  | data ha => cases hout; exact .data _ ha
  | resource ha _ hr => cases hout; exact .touched ha hr.keepsLinks

/-- An inbound packet reaches the links through three handlers only. -/
inductive DispatchLinks [Crypto] (n : Node) (p : Packet) (d : Arr 16) (i : UInt16) : Node → List Event → Prop
  | kept {n' : Node} {events : List Event} : n.KeepsLinks n' events → DispatchLinks n p d i n' events
  | request {rng : Entropy} {n' : Node} {events : List Event} : p.packetType = LINKREQUEST →
    LinkRequestCase n p d i rng (n', events) → DispatchLinks n p d i n' events
  | proof {rng : Option Entropy} {n' : Node} {events : List Event} : p.packetType = PROOF →
    LinkProofCase n p d rng (n', events) → DispatchLinks n p d i n' events
  | data {n' : Node} {events : List Event} : n.LinkDataLinks d i n' events → DispatchLinks n p d i n' events

theorem DispatchCase.links [Crypto] [Rmp] [Bzip2] {n n' : Node} {p : Packet} {d : Arr 16} {i : UInt16}
    {events : List Event} (h : DispatchCase n p d i (n', events)) : n.DispatchLinks p d i n' events := by
  generalize hout : (n', events) = out at h
  cases h with
  | ignored => cases hout; exact .kept ⟨rfl, rfl, by simp⟩
  | pathRequest =>
    cases hout
    obtain ⟨_, _, heq, -⟩ := handlePathRequest_cases n p i
    rw [heq]
    exact .kept ⟨rfl, rfl, by simp⟩
  | linkRequest ht hr => cases hout; exact .request ht hr
  | linkProof ht _ _ hr => cases hout; exact .proof ht hr
  | deliveryProof _ hr =>
    cases hr <;> cases hout <;> exact .kept ⟨rfl, rfl, by simp [Event.link?]⟩
  | resourceProof _ _ _ hr =>
    cases hr <;> cases hout <;> exact .kept ⟨rfl, rfl, by simp [Event.link?]⟩
  | linkData _ _ hr => cases hout; exact .data hr.links
  | announce _ hr =>
    cases hr <;> cases hout <;> exact .kept ⟨rfl, rfl, by simp [Event.link?]⟩
  | data _ _ _ hr =>
    cases hr with
    | relayed =>
      cases hout
      have hf := forwardData_cases n p d i
      generalize n.forwardData p d i = m at hf
      cases hf <;> exact .kept ⟨rfl, rfl, by simp⟩
    | _ => cases hout; exact .kept ⟨rfl, rfl, by simp [Event.link?]⟩

/-! ## Changes -/

/-- What a step tells about a link id: how often it is established, and how many closes it adds to
those reported or pending. -/
structure Reports (n : Node) (events : List Event) (n' : Node) (id : Arr 16) (established closed : Nat) : Prop where
  established : events.count (.linkEstablished id) = established
  closed : events.count (.linkClosed id) + n'.pendingEvents.count (.linkClosed id) =
    n.pendingEvents.count (.linkClosed id) + closed

/-- A change to the entry of a link id that keeps the keys: none, activity, or a close. -/
inductive ActivityChange (n n' : Node) (events : List Event) (id : Arr 16) : Prop
  | kept (links : n'.links[id]? = n.links[id]?) (reports : n.Reports events n' id 0 0)
  | touched {link : LinkEntry} (before : n.links[id]? = some link) (active : link.status = .active)
    (links : n'.links[id]? = some { link with lastActivity := n.nowSecs }) (reports : n.Reports events n' id 0 0)
  | keepalive {link : LinkEntry} (before : n.links[id]? = some link) (active : link.status = .active)
    (links : n'.links[id]? = some { link with lastKeepalive := n.nowSecs }) (reports : n.Reports events n' id 0 0)
  | closed {link : LinkEntry} (before : n.links[id]? = some link) (notClosed : link.status ≠ .closed) (t : Nat)
    (links : n'.links[id]? = some { link with status := .closed, lastActivity := t })
    (reports : n.Reports events n' id 0 1)

/-- The entry of a link id before and after a step. -/
inductive LinkChange [Crypto] (n : Node) (l : Label) (n' : Node) (id : Arr 16) : Prop
  | activity (change : n.ActivityChange n' l.2.events id)
  | requested {d : Arr 16} {rng : Entropy} {e : PathEntry} (op : l.1 = .establishLink d rng)
    (ret : l.2.ret = .link (.ok id)) (path : n.paths.get d = some e)
    (request : id = linkIdFromRequest (linkRequestFor d rng))
    (links : n'.links[id]? = some (n.requestedLink e (LinkEphemeral.generate rng).1))
    (reports : n.Reports l.2.events n' id 0 0)
  | accepted {b : Bytes} {i : UInt16} {rng : Entropy} {p : Packet} {d : Arr 16} {eph : LinkEphemeral}
    {peer other : Arr 32} (op : l.1.inbound?.map (·.1) = some b) (admits : n.Admits b p d)
    (kind : p.packetType = LINKREQUEST) (here : n.hasSingle d = true)
    (parsed : parseLinkRequest p.data = .ok (peer, other)) (request : id = linkIdFromRequest p)
    (fresh : n.links[id]? = none) (ephemeral : eph = (LinkEphemeral.generate rng).1)
    (links : n'.links[id]? = some (n.acceptedLink id eph peer i)) (reports : n.Reports l.2.events n' id 1 0)
  | proven {b : Bytes} {p : Packet} {link : LinkEntry} {pub : PublicIdentity} {peer : Arr 32}
    (op : l.1.inbound?.map (·.1) = some b) (admits : n.Admits b p id) (kind : p.packetType = PROOF)
    (before : n.links[id]? = some link) (pending : link.status = .pending) (initiator : link.initiator = true)
    (key : link.destinationPublic = some pub) (verified : verifyLinkProof pub id p.data = .ok peer)
    (links : n'.links[id]? = some (n.provenLink link id peer)) (reports : n.Reports l.2.events n' id 1 0)

theorem count_eq_zero_of_link? {events : List Event} (h : ∀ e ∈ events, e.link? = none) {e : Event} {id : Arr 16}
    (he : e.link? = some id) : events.count e = 0 :=
  List.count_eq_zero.mpr fun hmem => by simp [h e hmem] at he

theorem Reports.of_keeps {n n' : Node} {events : List Event} (hp : n'.pendingEvents = n.pendingEvents)
    (he : ∀ e ∈ events, e.link? = none) (id : Arr 16) : n.Reports events n' id 0 0 where
  established := count_eq_zero_of_link? he rfl
  closed := by
    have h : events.count (.linkClosed id) = 0 := count_eq_zero_of_link? he rfl
    rw [h, hp]
    omega

/-- Only closes and failures are ever left pending. -/
def PendingOk (n : Node) : Prop :=
  ∀ e ∈ n.pendingEvents, (∃ id, e = .linkClosed id) ∨ ∃ id hash, e = .resourceFailed id hash

theorem PendingOk.count_established {n : Node} (h : n.PendingOk) (id : Arr 16) :
    n.pendingEvents.count (.linkEstablished id) = 0 :=
  List.count_eq_zero.mpr fun hmem => by
    rcases h _ hmem with ⟨_, h⟩ | ⟨_, _, h⟩ <;> cases h

/-! ## Ticks -/

theorem count_map_linkClosed (ids : List (Arr 16)) (id : Arr 16) :
    (ids.map Event.linkClosed).count (.linkClosed id) = ids.count id :=
  List.count_map_of_injective ids _ (fun _ _ h => Event.linkClosed.inj h) id

theorem tickInner_change [Crypto] {n : Node} (hn : n.PendingOk) (rng : Option Entropy) (id : Arr 16) :
    n.ActivityChange (n.tickInner rng).1 (n.tickInner rng).2 id := by
  obtain ⟨resources, failures, requests, -, heq⟩ := tickInner_result n rng
  rw [heq]
  have hlinks := Std.ExtTreeMap.getElem?_map (t := n.links) (f := fun _ link => tickedLink n.nowSecs link) (k := id)
  -- the closes reported: those pending and the one of this tick
  have hreports (k : Nat) (hk : (n.staleLinks n.nowSecs).count id = k) (m : Node) (hm : m.pendingEvents = []) :
      n.Reports (n.pendingEvents ++ (n.staleLinks n.nowSecs).map .linkClosed ++
        failures.map fun k => Event.resourceFailed k.1 k.2) m id 0 k := by
    have hfail (e : Event) (he : ∀ k : Arr 16 × Arr 32, .resourceFailed k.1 k.2 ≠ e) :
        (failures.map fun k => Event.resourceFailed k.1 k.2).count e = 0 :=
      List.count_eq_zero.mpr fun h => by
        obtain ⟨k, -, hk⟩ := List.mem_map.mp h
        exact he k hk
    constructor
    · rw [List.count_append, List.count_append, hn.count_established, hfail _ (by simp), List.count_eq_zero.mpr]
      simp
    · rw [List.count_append, List.count_append, hfail _ (by simp), count_map_linkClosed, hk, hm]
      simp
  cases hl : n.links[id]? with
  | none =>
    have hstale : id ∉ n.staleLinks n.nowSecs := fun h => by
      obtain ⟨_, h, -⟩ := mem_staleLinks.mp h
      simp [hl] at h
    refine .kept (by simp [hlinks, hl]) (hreports 0 ?_ _ rfl)
    rw [count_staleLinks, if_neg hstale]
  | some link =>
    have hstale : id ∈ n.staleLinks n.nowSecs ↔ linkTick n.nowSecs link = .stale := by
      simp [mem_staleLinks, hl]
    have hcount := n.count_staleLinks n.nowSecs id
    simp only [hstale] at hcount
    have hafter : (n.links.map fun _ link => tickedLink n.nowSecs link)[id]? = some (tickedLink n.nowSecs link) := by
      simp [hlinks, hl]
    cases ht : linkTick n.nowSecs link with
    | idle =>
      refine .kept ?_ (hreports 0 (by simpa [ht] using hcount) _ rfl)
      simp [hl, tickedLink, ht]
    | stale =>
      have hst := linkTick_active n.nowSecs (by simp [ht] : linkTick n.nowSecs link ≠ .idle)
      refine .closed hl (by simp [hst]) link.lastActivity ?_ (hreports 1 (by simpa [ht] using hcount) _ rfl)
      simpa [tickedLink, ht] using hafter
    | keepalive =>
      refine .keepalive hl (linkTick_active n.nowSecs (by simp [ht])) ?_ (hreports 0 (by simpa [ht] using hcount) _ rfl)
      simpa [tickedLink, ht] using hafter

/-- The node after a LINKCLOSE frame, before the tick it runs. -/
@[simps] def closedByPeer (n : Node) (id : Arr 16) (link : LinkEntry) : Node :=
  { n with
    links := n.links.insert id { link with status := .closed, lastActivity := n.nowSecs }
    pendingEvents := n.pendingEvents ++ [.linkClosed id] }

theorem PendingOk.closedByPeer {n : Node} (hn : n.PendingOk) (id : Arr 16) (link : LinkEntry) :
    (n.closedByPeer id link).PendingOk := by
  intro e he
  rcases List.mem_append.mp he with he | he
  · exact hn e he
  · exact .inl ⟨id, List.mem_singleton.mp he⟩

theorem closeLink_touch (n : Node) (id : Arr 16) {link : LinkEntry} (h : link.status = .active) :
    (n.touch id link).closeLink id = n.closedByPeer id link := by
  simp [closeLink, touch, h, closedByPeer, BTreeMap.insert_insert]

theorem tick_closedByPeer_change [Crypto] {n : Node} {id : Arr 16} {i : UInt16} {link : LinkEntry} {key : Arr 64}
    (hn : n.PendingOk) (ha : n.ActiveOn id i link key) (id' : Arr 16) :
    n.ActivityChange (n.closedByPeer id link).tick.1 (n.closedByPeer id link).tick.2 id' := by
  have ht := tickInner_change (hn.closedByPeer id link) none id'
  change ActivityChange _ (n.closedByPeer id link).tick.1 (n.closedByPeer id link).tick.2 id' at ht
  have hcount : (n.closedByPeer id link).pendingEvents.count (.linkClosed id') =
      n.pendingEvents.count (.linkClosed id') + if id = id' then 1 else 0 := by
    by_cases hid : id = id' <;> simp [hid]
  by_cases hid : id = id'
  · subst hid
    -- the closed entry is idle in the tick
    cases ht with
    | kept hl hr =>
      refine .closed ha.get (by simp [ha.status]) n.nowSecs (hl.trans (by simp)) ⟨hr.established, ?_⟩
      rw [hr.closed, hcount, if_pos rfl]
    | touched hb hst _ _ | keepalive hb hst _ _ | closed hb hst _ _ _ => simp at hb; simp [← hb] at hst
  · have hsame : (n.closedByPeer id link).links[id']? = n.links[id']? := BTreeMap.getElem?_insert_ne hid
    rw [if_neg hid, Nat.add_zero] at hcount
    have hreports {e c : Nat} {m : Node} {events : List Event}
        (h : (n.closedByPeer id link).Reports events m id' e c) : n.Reports events m id' e c :=
      ⟨h.established, by rw [h.closed, hcount]⟩
    cases ht with
    | kept hl hr => exact .kept (hl.trans hsame) (hreports hr)
    | touched hb hst hl hr => exact .touched (hsame ▸ hb) hst hl (hreports hr)
    | keepalive hb hst hl hr => exact .keepalive (hsame ▸ hb) hst hl (hreports hr)
    | closed hb hst t hl hr => exact .closed (hsame ▸ hb) hst t hl (hreports hr)

/-! ## Steps -/

theorem ActivityChange.of_eq {n m n' : Node} {events : List Event} {id : Arr 16} (hl : m.links = n.links)
    (hp : m.pendingEvents = n.pendingEvents) (hc : m.nowSecs = n.nowSecs) (h : m.ActivityChange n' events id) :
    n.ActivityChange n' events id := by
  have hr {e c : Nat} (h : m.Reports events n' id e c) : n.Reports events n' id e c :=
    ⟨h.established, hp ▸ h.closed⟩
  cases h with
  | kept h hr' => exact .kept (hl ▸ h) (hr hr')
  | touched hb hst h hr' => exact .touched (hl ▸ hb) hst (hc ▸ h) (hr hr')
  | keepalive hb hst h hr' => exact .keepalive (hl ▸ hb) hst (hc ▸ h) (hr hr')
  | closed hb hst t h hr' => exact .closed (hl ▸ hb) hst t h (hr hr')

theorem ActivityChange.of_keeps {n n' : Node} {events : List Event} (h : n.KeepsLinks n' events) (id : Arr 16) :
    n.ActivityChange n' events id := .kept (by rw [h.links]) (.of_keeps h.pending h.events id)

/-- A touch of one entry is activity on it and nothing to the others. -/
theorem ActivityChange.of_touch {n n' : Node} {events : List Event} {id id' : Arr 16} {i : UInt16} {link : LinkEntry}
    {key : Arr 64} (ha : n.ActiveOn id i link key) (hl : n'.links = (n.touch id link).links)
    (hr : n.Reports events n' id' 0 0) : n.ActivityChange n' events id' := by
  by_cases hid : id = id'
  · subst hid
    exact .touched ha.get ha.status (by rw [hl]; simp) hr
  · exact .kept (by rw [hl, touch_links, BTreeMap.getElem?_insert_ne hid]) hr

theorem LinkDataLinks.change [Crypto] {n n' : Node} {id : Arr 16} {i : UInt16} {events : List Event}
    (hn : n.PendingOk) (h : n.LinkDataLinks id i n' events) (id' : Arr 16) : n.ActivityChange n' events id' := by
  cases h with
  | kept h => exact .of_keeps h id'
  | @touched _ _ link _ ha h =>
    have hr : (n.touch id link).Reports events n' id' 0 0 := .of_keeps h.pending h.events id'
    exact .of_touch ha h.links ⟨hr.established, hr.closed⟩
  | data pt ha => exact .of_touch ha rfl ⟨by simp, by simp⟩
  | closed ha =>
    rw [closeLink_touch n id ha.status]
    exact tick_closedByPeer_change hn ha id'

theorem linkIdFromRequest_received [Crypto] (p : Packet) : linkIdFromRequest (received p) = linkIdFromRequest p := rfl

theorem count_established (id id' : Arr 16) :
    [Event.linkEstablished id].count (.linkEstablished id') = if id = id' then 1 else 0 := by
  by_cases h : id = id' <;> simp [h]

theorem reports_established {n m : Node} (id : Arr 16) (h : m.pendingEvents = n.pendingEvents) (id' : Arr 16) :
    n.Reports [.linkEstablished id] m id' (if id = id' then 1 else 0) 0 :=
  ⟨count_established id id', by simp [h]⟩

/-- An inbound packet changes the entry of a link id in one of the listed ways. -/
theorem DispatchLinks.change [Crypto] {n n' : Node} {p : Packet} {d : Arr 16} {i : UInt16} {b : Bytes} {l : Label}
    (hn : n.PendingOk) (hop : l.1.inbound?.map (·.1) = some b) (ha : n.Admits b p d)
    (h : (n.admitted p).DispatchLinks (received p) d i n' l.2.events) (id : Arr 16) : n.LinkChange l n' id := by
  have hpending : (n.admitted p).pendingEvents = n.pendingEvents := by simp
  have hlinks : (n.admitted p).links = n.links := by simp
  have hactivity (h : (n.admitted p).ActivityChange n' l.2.events id) : n.LinkChange l n' id :=
    .activity (.of_eq hlinks hpending (nowSecs_admitted n p) h)
  generalize hev : l.2.events = events at h
  cases h with
  | kept h => exact hactivity (hev ▸ .of_keeps h id)
  | request ht hr =>
    cases hr with
    | ignored => exact hactivity (hev ▸ .of_keeps ⟨rfl, rfl, by simp⟩ id)
    | accepted helse hsingle hparse hfresh heph =>
      rw [linkIdFromRequest_received] at hfresh
      have hr {m : Node} (hm : m.pendingEvents = (n.admitted p).pendingEvents) :=
        reports_established (linkIdFromRequest p) (hm.trans hpending) id
      by_cases hid : linkIdFromRequest p = id
      · subst hid
        rw [if_pos rfl] at hr
        refine .accepted (i := i) hop ha ht (by simpa [hasSingle] using hsingle) hparse rfl (hlinks ▸ hfresh)
          heph ?_ (hev ▸ hr rfl)
        simp [linkIdFromRequest_received, acceptedLink]
      · rw [if_neg hid] at hr
        refine .activity (.kept ?_ (hev ▸ hr rfl))
        rw [emit_links, setLink_links, addSigned_links, hlinks, linkIdFromRequest_received,
          BTreeMap.getElem?_insert_ne hid]
  | proof ht hr =>
    cases hr with
    | ignored => exact hactivity (hev ▸ .of_keeps ⟨rfl, rfl, by simp⟩ id)
    | badProof => exact hactivity (hev ▸ .of_keeps ⟨rfl, rfl, by simp [Event.link?]⟩ id)
    | proven hl hp hi hk hv _ =>
      have hr {m : Node} (hm : m.pendingEvents = (n.admitted p).pendingEvents) :=
        reports_established d (hm.trans hpending) id
      by_cases hid : d = id
      · subst hid
        rw [if_pos rfl] at hr
        refine .proven hop ha ht (hlinks ▸ hl) hp hi hk hv ?_ (hev ▸ hr rfl)
        simp [provenLink]
      · rw [if_neg hid] at hr
        refine .activity (.kept ?_ (hev ▸ hr rfl))
        rw [emit_links, setLink_links, hlinks, BTreeMap.getElem?_insert_ne hid]
  | data h => exact hactivity (hev ▸ h.change (fun e he => hn e (hpending ▸ he)) id)

theorem InboundCase.change [Crypto] [Rmp] [Bzip2] {n n' : Node} {b : Bytes} {i : UInt16} {l : Label}
    (hn : n.PendingOk) (hop : l.1.inbound?.map (·.1) = some b) (h : n.InboundCase b i (n', l.2.events))
    (id : Arr 16) : n.LinkChange l n' id := by
  generalize hout : (n', l.2.events) = out at h
  cases h with
  | malformed =>
    obtain ⟨rfl, hev⟩ := Prod.mk.inj hout
    exact .activity (hev ▸ .of_keeps ⟨rfl, rfl, by simp⟩ id)
  | duplicate =>
    obtain ⟨rfl, hev⟩ := Prod.mk.inj hout
    exact .activity (hev ▸ .of_keeps ⟨by simp, by simp, by simp⟩ id)
  | admitted ha h =>
    subst hout
    exact h.links.change hn hop ha id

end Node

open Node in
theorem NodeStep.linkChange [Crypto] [Rmp] [Bzip2] {n n' : Node} {l : Label} (hn : n.PendingOk)
    (h : NodeStep n l n') (id : Arr 16) : n.LinkChange l n' id := by
  have hnone : ∀ e ∈ ([] : List Event), e.link? = none := by simp
  have hkeeps {n' : Node} (hl : n'.links = n.links) (hp : n'.pendingEvents = n.pendingEvents) :
      n.ActivityChange n' [] id := .of_keeps ⟨hl, hp, hnone⟩ id
  have hquiet {n' : Node} (hp : n'.pendingEvents = n.pendingEvents) : n.Reports [] n' id 0 0 :=
    .of_keeps hp hnone id
  cases h.cases with
  | config _ hc => exact .activity (hkeeps (by rw [hc.eq]) (by rw [hc.eq]))
  | announce hc => cases hc <;> exact .activity (hkeeps rfl rfl)
  | sent _ hc => exact .activity (hkeeps (by rw [hc.eq]; rfl) (by rw [hc.eq]; rfl))
  | @establish d rng _ _ hc =>
    cases hc with
    | failed => exact .activity (hkeeps rfl rfl)
    | requested he hr =>
      by_cases hid : linkIdFromRequest (linkRequestFor d rng) = id
      · subst hid
        refine .requested rfl rfl (PathTable.get_of_get_prune he).1 rfl ?_ (hquiet (by rfl))
        simp
      · refine .activity (.kept ?_ (hquiet (by rfl)))
        rw [emit_links, setLink_links, BTreeMap.getElem?_insert_ne hid]
        rfl
  | linkSend hc =>
    cases hc with
    | failed => exact .activity (hkeeps rfl rfl)
    | sent ha => exact .activity (.of_touch ha rfl (hquiet (by rfl)))
  | sendResource hc => cases hc <;> exact .activity (hkeeps rfl rfl)
  | @close id' _ hc =>
    cases hc with
    | unknown | already => exact .activity (hkeeps rfl rfl)
    | @closed link hl hst =>
      by_cases hid : id' = id
      · subst hid
        exact .activity (.closed hl hst link.lastActivity (by simp) ⟨by simp, by simp⟩)
      · refine .activity (.kept (BTreeMap.getElem?_insert_ne hid) ⟨by simp, by simp [hid]⟩)
  | tick => exact .activity (tickInner_change hn _ id)
  | inbound hop hc => exact hc.change hn (by simp [hop]) id

namespace Node

variable [Crypto]

/-! ## Pending events -/

omit [Crypto] in
theorem PendingOk.of_eq {n n' : Node} (h : n.PendingOk) (he : n'.pendingEvents = n.pendingEvents) : n'.PendingOk :=
  fun e hm => h e (he ▸ hm)

theorem pendingOk_tickInner (n : Node) (rng : Option Entropy) : (n.tickInner rng).1.PendingOk :=
  fun _ h => nomatch h

theorem mem_tickInner_events {n : Node} (hn : n.PendingOk) {rng : Option Entropy} {e : Event}
    (h : e ∈ (n.tickInner rng).2) : (∃ id, e = .linkClosed id) ∨ ∃ id hash, e = .resourceFailed id hash := by
  obtain ⟨_, failures, _, -, heq⟩ := tickInner_result n rng
  rw [heq, List.mem_append, List.mem_append] at h
  rcases h with (h | h) | h
  · exact hn e h
  · obtain ⟨id, -, rfl⟩ := List.mem_map.mp h
    exact .inl ⟨id, rfl⟩
  · obtain ⟨k, -, rfl⟩ := List.mem_map.mp h
    exact .inr ⟨k.1, k.2, rfl⟩

theorem DispatchLinks.pendingOk {n n' : Node} {p : Packet} {d : Arr 16} {i : UInt16} {events : List Event}
    (hn : n.PendingOk) (h : n.DispatchLinks p d i n' events) : n'.PendingOk := by
  cases h with
  | kept h => exact hn.of_eq h.pending
  | request _ hr => cases hr <;> exact hn
  | proof _ hr => cases hr <;> exact hn
  | data h =>
    cases h with
    | kept h => exact hn.of_eq h.pending
    | touched _ h => exact hn.of_eq h.pending
    | data => exact hn
    | closed => exact pendingOk_tickInner _ _

theorem DispatchLinks.linkData {n n' : Node} {p : Packet} {d : Arr 16} {i : UInt16} {events : List Event}
    (hn : n.PendingOk) (h : n.DispatchLinks p d i n' events) {id : Arr 16} {pt : Bytes}
    (he : .linkData id pt ∈ events) : ∃ link, n.links[id]? = some link ∧ link.status = .active := by
  have hno {m : Node} (h : m.KeepsLinks n' events) : False := by
    simpa [Event.link?] using h.events _ he
  cases h with
  | kept h => exact (hno h).elim
  | request _ hr => cases hr <;> simp at he
  | proof _ hr => cases hr <;> simp at he
  | data h =>
    cases h with
    | kept h => exact (hno h).elim
    | touched _ h => exact (hno h).elim
    | data pt' ha =>
      simp only [List.mem_singleton, Event.linkData.injEq] at he
      exact ⟨_, he.1 ▸ ha.get, ha.status⟩
    | @closed link _ ha =>
      rw [closeLink_touch n d ha.status] at he
      rcases mem_tickInner_events (hn.closedByPeer d link) he with ⟨_, h⟩ | ⟨_, _, h⟩ <;> cases h

end Node

open Node

variable [Crypto] [Rmp] [Bzip2]

theorem NodeStep.pendingOk {n n' : Node} {l : Label} (hn : n.PendingOk) (h : NodeStep n l n') : n'.PendingOk := by
  cases h.cases with
  | config _ hc => exact hn.of_eq (by rw [hc.eq])
  | announce hc => cases hc <;> exact hn
  | sent _ hc => exact hn.of_eq (by rw [hc.eq]; rfl)
  | establish hc => cases hc <;> exact hn
  | linkSend hc => cases hc <;> exact hn
  | sendResource hc => cases hc <;> exact hn
  | @close id _ hc =>
    cases hc with
    | unknown | already => exact hn
    | closed =>
      intro e he
      rcases List.mem_append.mp he with he | he
      · exact hn e he
      · exact .inl ⟨id, List.mem_singleton.mp he⟩
  | tick => exact pendingOk_tickInner _ _
  | inbound _ hc =>
    cases hc with
    | malformed => exact hn
    | duplicate => exact hn.of_eq (by simp)
    | admitted _ h => exact h.links.pendingOk (hn.of_eq (by simp))

theorem pendingOk_of_run {identity : Identity} {clock : UInt64} {tr : List Label} {n : Node}
    (h : Lts.Run NodeStep (withClock identity clock) tr n) : n.PendingOk :=
  h.preserve (fun _ _ _ hn hst => hst.pendingOk hn) (by simp [PendingOk, withClock])

theorem NodeStep.linkData {n n' : Node} {l : Label} (hn : n.PendingOk) (h : NodeStep n l n') {id : Arr 16}
    {pt : Bytes} (he : .linkData id pt ∈ l.2.events) : ∃ link, n.links[id]? = some link ∧ link.status = .active := by
  have hnone (h : .linkData id pt ∈ ([] : List Event)) : False := by simp at h
  cases h.cases with
  | config | announce | sent | establish | linkSend | sendResource | close => exact (hnone he).elim
  | tick => rcases mem_tickInner_events hn he with ⟨_, h⟩ | ⟨_, _, h⟩ <;> cases h
  | inbound _ hc =>
    generalize hout : (n', _) = out at hc
    cases hc with
    | malformed => cases hout; exact (hnone he).elim
    | duplicate => cases hout; exact (hnone he).elim
    | admitted _ h =>
      subst hout
      obtain ⟨link, hl, hst⟩ := h.links.linkData (hn.of_eq (by simp)) he
      exact ⟨link, by simpa using hl, hst⟩

end Reticulum
