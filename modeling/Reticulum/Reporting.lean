import Reticulum.ClosedLink
import Reticulum.InboundSteps
import Reticulum.ResourceSteps

/-!
# What a node tells about one inbound resource

A transfer is told as a start, the parts one by one, and one end. The state of
the resource says how far the story has come. Two frames break it: an
advertisement of a transfer that is running, and a cancel of one that is not.
-/

namespace Reticulum

/-- The progress events of the first `k` parts. -/
def progressTo (key : ResourceKey) (total k : Nat) : List Event :=
  (List.range k).map fun j => .resourceProgress key.1 key.2 (j + 1) total

/-- One transfer: started, the parts counted one by one, and completed at the last one or failed. -/
inductive Cycle (key : ResourceKey) : List Event → Prop
  | completed {size total : Nat} {data : Bytes} : 0 < total →
    Cycle key (.resourceStarted key.1 key.2 size :: (progressTo key total total ++ [.resourceComplete key.1 key.2 data]))
  | failed {size total k : Nat} :
    Cycle key (.resourceStarted key.1 key.2 size :: (progressTo key total k ++ [.resourceFailed key.1 key.2]))

/-- The events are the beginning of some transfers one after the other. -/
def OneProtocol (key : ResourceKey) (events : List Event) : Prop :=
  ∃ cycles : List (List Event), (∀ c ∈ cycles, Cycle key c) ∧ events <+: cycles.flatten

theorem progressTo_succ (key : ResourceKey) (total k : Nat) :
    progressTo key total (k + 1) = progressTo key total k ++ [.resourceProgress key.1 key.2 (k + 1) total] := by
  unfold progressTo
  rw [List.range_succ, List.map_append, List.map_singleton]

/-- What is told of a transfer that is running. -/
def ToldSoFar (key : ResourceKey) (r : InboundResource) (events : List Event) : Prop :=
  ∃ size, events = .resourceStarted key.1 key.2 size :: progressTo key r.totalParts r.receivedParts

namespace InboundResource

theorem receivedParts_of_complete {r : InboundResource} (h : r.isComplete = true) : r.receivedParts = r.totalParts := by
  unfold receivedParts totalParts
  rw [List.filter_eq_self.mpr (isComplete_iff.mp h)]

/-- The parts count as before. -/
structure SameParts (r r' : InboundResource) : Prop where
  received : r'.receivedParts = r.receivedParts
  total : r'.totalParts = r.totalParts

theorem SameParts.of_eq {r r' : InboundResource} (h : r'.parts = r.parts) : SameParts r r' := by
  constructor
  · rw [receivedParts, receivedParts, h]
  · rw [totalParts, totalParts, h]

theorem SameParts.trans {r r' r'' : InboundResource} (h : SameParts r r') (h' : SameParts r' r'') : SameParts r r'' :=
  ⟨h'.received.trans h.received, h'.total.trans h.total⟩

theorem SameParts.told {r r' : InboundResource} (h : SameParts r r') {key : ResourceKey} {events : List Event}
    (ht : ToldSoFar key r events) : ToldSoFar key r' events := by
  obtain ⟨size, rfl⟩ := ht
  exact ⟨size, by rw [h.received, h.total]⟩

theorem fromAdvertisement_receivedParts {a : ResourceAdvertisement} {r : InboundResource} (h : fromAdvertisement a = .ok r) :
    r.receivedParts = 0 := by
  obtain ⟨_, _, -, -, -, -, -, rfl, -⟩ := fromAdvertisement_ok h
  simp [receivedParts]

theorem onPart_totalParts [Crypto] (r : InboundResource) (part : Bytes) : (r.onPart part).1.totalParts = r.totalParts := by
  cases h : (r.onPart part).2 with
  | false => rw [onPart_refused h]
  | true =>
    obtain ⟨_, _, _, _, _, heq, -⟩ := onPart_ok h
    rw [heq]
    exact List.length_set

theorem Sound.nextRequest_parts {r : InboundResource} (hs : r.Sound) (now : Nat) : SameParts r (r.nextRequest now).1 := by
  rcases hs.nextRequest_fst now with h | ⟨-, _, _, h⟩ <;> rw [h] <;> exact .of_eq rfl

theorem Sound.afterRetry_parts {r r' : InboundResource} (hs : r.Sound) {now : Nat} (h : r.afterRetry now = some r') :
    SameParts r r' := by
  rw [afterRetry_eq h]
  by_cases ho : r.Overdue now
  · by_cases hr : r.retries < MAX_RETRIES
    · obtain ⟨_, _, _, heq⟩ := hs.retryDue ho hr
      rw [heq]
      exact .of_eq rfl
    · rw [retryDue_exhausted ho (Nat.le_of_not_lt hr)]
      exact .of_eq rfl
  · rw [retryDue_idle ho]
    exact .of_eq rfl

end InboundResource

section
variable [Crypto] [Rmp] [Bzip2]

omit [Crypto] [Bzip2] in
theorem onHashmapUpdate_parts (r : InboundResource) (data : Bytes) :
    InboundResource.SameParts r (r.onHashmapUpdate data).1 := by
  rcases r.onHashmapUpdate_fst data with h | ⟨_, _, _, h⟩ <;> rw [h] <;> exact .of_eq rfl

namespace Node

/-- The call sends a resource over the link and returns its hash. -/
def SendsResource (key : ResourceKey) (l : Label) : Prop :=
  (∃ fuel data rng, l.1 = .sendResource fuel key.1 data rng) ∧ l.2.ret = .hash (.ok key.2)

/-- The frame advertises a transfer that is running. -/
def Readvertises (n : Node) (l : Label) (key : ResourceKey) : Prop :=
  n.inboundResources[key]? ≠ none ∧
    ∃ pt a r, n.Opens l key.1 RESOURCE_ADV pt ∧ ResourceAdvertisement.unpack pt = .ok a ∧
      InboundResource.fromAdvertisement a = .ok r ∧ r.hash = key.2

/-- The frame cancels a transfer that is not running. -/
def CancelsNothing (n : Node) (l : Label) (key : ResourceKey) : Prop :=
  n.inboundResources[key]? = none ∧
    ∃ c pt, (c = RESOURCE_ICL ∨ c = RESOURCE_RCL) ∧ n.Opens l key.1 c pt ∧ Arr.slice? pt 0 32 = some key.2

/-- The peer starts a transfer when it is not running, and cancels it only while it is. -/
def InTurn (key : ResourceKey) (n : Node) (l : Label) : Prop :=
  ¬ n.Readvertises l key ∧ ¬ n.CancelsNothing l key

theorem unsent_step {key : ResourceKey} {n n' : Node} {l : Label} (h : NodeStep n l n') (hl : ¬ SendsResource key l)
    (hn : n.outboundResources[key]? = none) : n'.outboundResources[key]? = none := by
  cases hr : n'.outboundResources[key]? with
  | none => rfl
  | some r =>
    refine absurd ?_ hl
    cases h.outboundOrigin hr with
    | kept had =>
      obtain ⟨_, _, hget, -⟩ := had
      rw [hn] at hget
      cases hget
    | @sent fuel data k rng _ _ hop =>
      obtain ⟨op, out⟩ := l
      dsimp only at hop
      subst hop
      obtain ⟨res, hsend, heq⟩ := Option.map_eq_some_iff.mp h
      obtain ⟨rfl, rfl⟩ := Prod.mk.inj heq
      refine ⟨⟨fuel, data, rng, rfl⟩, ?_⟩
      have hcase := sendResource_cases hsend
      obtain ⟨m, result⟩ := res
      cases hcase with
      | failed =>
        rw [hn] at hr
        cases hr
      | sent =>
        dsimp only at hr ⊢
        rw [emit_outboundResources, setOutbound_outboundResources, Std.ExtTreeMap.getElem?_insert] at hr
        split at hr
        · rename_i hk
          exact congrArg (fun k : ResourceKey => Ret.hash (.ok k.2)) (Std.LawfulEqOrd.eq_of_compare hk)
        · rw [hn] at hr
          cases hr

/-- What the node has told of the resource fits what it keeps of it. -/
structure Told (key : ResourceKey) (tr : List Label) (n : Node) : Prop where
  ok : n.ResourcesOk
  unsent : n.outboundResources[key]? = none
  told : ∃ (cycles : List (List Event)) (rest : List Event), (∀ c ∈ cycles, Cycle key c) ∧ eventsFor key (eventsOf tr) = cycles.flatten ++ rest ∧
    (n.inboundResources[key]? = none → rest = []) ∧
    ∀ r, n.inboundResources[key]? = some r → ToldSoFar key r rest

omit [Bzip2] in
theorem Told.protocol {key : ResourceKey} {tr : List Label} {n : Node} (h : Told key tr n) :
    OneProtocol key (eventsFor key (eventsOf tr)) := by
  obtain ⟨cycles, rest, hcycles, heq, hnone, hsome⟩ := h.told
  cases hr : n.inboundResources[key]? with
  | none =>
    refine ⟨cycles, hcycles, ?_⟩
    have hall : eventsFor key (eventsOf tr) = cycles.flatten := by rw [heq, hnone hr, List.append_nil]
    exact hall ▸ List.prefix_rfl
  | some r =>
    -- the running transfer is the beginning of one that fails
    obtain ⟨size, hrest⟩ := hsome r hr
    refine ⟨cycles ++ [rest ++ [.resourceFailed key.1 key.2]], ?_, ?_⟩
    · intro c hc
      rcases List.mem_append.mp hc with hc | hc
      · exact hcycles c hc
      · rw [List.mem_singleton.mp hc, hrest]
        exact .failed
    · rw [heq, List.flatten_append, List.flatten_singleton, ← List.append_assoc]
      exact List.prefix_append _ _

omit [Crypto] [Rmp] [Bzip2] in
/-- The story goes on, or comes to its end. -/
theorem told_snoc {key : ResourceKey} {tr : List Label} {l : Label} {n' : Node} {cycles : List (List Event)}
    {rest rest' : List Event} (hcycles : ∀ c ∈ cycles, Cycle key c) (heq : eventsFor key (eventsOf tr) = cycles.flatten ++ rest)
    (hrest : rest ++ eventsFor key l.2.events = rest')
    (hnext : (Cycle key rest' ∧ n'.inboundResources[key]? = none) ∨
      (n'.inboundResources[key]? = none → rest' = []) ∧ ∀ r, n'.inboundResources[key]? = some r → ToldSoFar key r rest') :
    ∃ (cycles : List (List Event)) (rest : List Event), (∀ c ∈ cycles, Cycle key c) ∧
      eventsFor key (eventsOf (tr ++ [l])) = cycles.flatten ++ rest ∧ (n'.inboundResources[key]? = none → rest = []) ∧
      ∀ r, n'.inboundResources[key]? = some r → ToldSoFar key r rest := by
  have hall : eventsFor key (eventsOf (tr ++ [l])) = cycles.flatten ++ rest' := by
    rw [eventsOf_snoc, eventsFor_append, heq, List.append_assoc, hrest]
  rcases hnext with ⟨hcycle, hgone⟩ | ⟨hnone, hsome⟩
  · refine ⟨cycles ++ [rest'], [], ?_, ?_, fun _ => rfl, fun r hr => by rw [hgone] at hr; cases hr⟩
    · intro c hc
      rcases List.mem_append.mp hc with hc | hc
      · exact hcycles c hc
      · exact List.mem_singleton.mp hc ▸ hcycle
    · rw [hall, List.flatten_append, List.flatten_singleton, List.append_nil]
  · exact ⟨cycles, rest', hcycles, hall, hnone, hsome⟩

theorem Told.step {key : ResourceKey} {tr : List Label} {n n' : Node} {l : Label} (ht : Told key tr n) (h : NodeStep n l n')
    (hl : ¬ SendsResource key l) (hturn : InTurn key n l) : Told key (tr ++ [l]) n' := by
  refine ⟨h.resourcesOk ht.ok, unsent_step h hl ht.unsent, ?_⟩
  obtain ⟨cycles, rest, hcycles, heq, hnone, hsome⟩ := ht.told
  cases h.inboundChange ht.ok.pending key with
  | kept hk he =>
    refine told_snoc hcycles heq (by rw [he, List.append_nil]) (.inr ?_)
    rw [hk]
    exact ⟨hnone, hsome⟩
  | proven hr =>
    rw [ht.unsent] at hr
    cases hr
  | ticked _ hk he =>
    cases hr : n.inboundResources[key]? with
    | none =>
      rw [hr, Option.bind_none] at hk
      have hexp : n.expiring key = false := by simp [expiring, hr]
      rw [hexp] at he
      have hquiet : rest ++ eventsFor key l.2.events = rest := he ▸ List.append_nil rest
      refine told_snoc hcycles heq hquiet (.inr ⟨fun _ => hnone hr, ?_⟩)
      intro r' hr'
      rw [hk] at hr'
      cases hr'
    | some r =>
      rw [hr, Option.bind_some] at hk
      obtain ⟨size, hrest⟩ := hsome r hr
      have hexp : n.expiring key = (r.afterRetry n.nowSecs).isNone := by simp [expiring, hr]
      cases hret : r.afterRetry n.nowSecs with
      | none =>
        rw [hexp, hret, Option.isNone_none, if_pos rfl] at he
        refine told_snoc hcycles heq rfl (.inl ⟨?_, hk.trans hret⟩)
        rw [he, hrest]
        exact .failed
      | some r' =>
        rw [hexp, hret] at he
        have hget := hk.trans hret
        have hquiet : rest ++ eventsFor key l.2.events = rest := he ▸ List.append_nil rest
        refine told_snoc hcycles heq hquiet (.inr ⟨fun hno => ?_, fun r'' hr'' => ?_⟩)
        · rw [hget] at hno
          cases hno
        · cases hget.symm.trans hr''
          exact ((ht.ok.reachable key r hr).sound.afterRetry_parts hret).told ⟨size, hrest⟩
  | @frame i rng p link k hframe hf =>
    have hopens {c : UInt8} {pt : Bytes} (hc : p.context = c) (hrng : rng.isSome = true)
        (hopen : Token.openWithKey k p.data = .ok pt) : n.Opens l key.1 c pt := by
      obtain ⟨g, rfl⟩ := Option.isSome_iff_exists.mp hrng
      exact ⟨i, g, p, link, k, hframe, hc, hopen⟩
    have hlive {r' : InboundResource} {rest' : List Event} (hget : n'.inboundResources[key]? = some r')
        (htold : ToldSoFar key r' rest') :
        (n'.inboundResources[key]? = none → rest' = []) ∧
          ∀ r, n'.inboundResources[key]? = some r → ToldSoFar key r rest' := by
      refine ⟨fun hno => ?_, fun r hr => ?_⟩
      · rw [hget] at hno
        cases hno
      · cases hget.symm.trans hr
        exact htold
    cases hf with
    | kept hk he =>
      refine told_snoc hcycles heq (by rw [he, List.append_nil]) (.inr ?_)
      rw [hk]
      exact ⟨hnone, hsome⟩
    | @started a r pt _ _ hc hrng hopen hun hfrom hhash hget he =>
      have hfresh : n.inboundResources[key]? = none := by
        by_contra hrunning
        exact hturn.1 ⟨hrunning, pt, a, r, hopens hc hrng hopen, hun, hfrom, hhash⟩
      have hs := InboundResource.fromAdvertisement_sound hfrom
      refine told_snoc hcycles heq (by rw [he, hnone hfresh, List.nil_append]) (.inr (hlive hget ?_))
      refine ⟨r.totalSize, ?_⟩
      have hzero : (r.nextRequest n.nowSecs).1.receivedParts = 0 := by
        rw [(hs.nextRequest_parts n.nowSecs).received, InboundResource.fromAdvertisement_receivedParts hfrom]
      rw [hzero]
      rfl
    | @updated r r' pt _ _ _ _ _ _ hr hr' hget he =>
      have hs := (ht.ok.reachable key r hr).sound
      have hsame : InboundResource.SameParts r r' := by
        rcases hr' with rfl | rfl
        · exact onHashmapUpdate_parts r pt
        · exact (onHashmapUpdate_parts r pt).trans ((hs.updated pt).nextRequest_parts _)
      refine told_snoc hcycles heq (by rw [he, List.append_nil]) (.inr (hlive hget (hsame.told (hsome r hr))))
    | @cancelled pt _ _ hc hrng hopen hslice hget he =>
      cases hr : n.inboundResources[key]? with
      | none =>
        rcases hc with hc | hc
        · exact (hturn.2 ⟨hr, _, pt, .inl rfl, hopens hc hrng hopen, hslice⟩).elim
        · exact (hturn.2 ⟨hr, _, pt, .inr rfl, hopens hc hrng hopen, hslice⟩).elim
      | some r =>
        obtain ⟨size, hrest⟩ := hsome r hr
        refine told_snoc hcycles heq rfl (.inl ⟨?_, hget⟩)
        rw [he, hrest]
        exact .failed
    | @progressed r r' _ _ _ hr hacc _ hr' hget he =>
      have hs := (ht.ok.reachable key r hr).sound
      have hsame : InboundResource.SameParts (r.onPart p.data).1 r' := by
        rcases hr' with rfl | rfl
        · exact .of_eq rfl
        · exact (hs.part p.data).nextRequest_parts _
      have htold : ToldSoFar key (r.onPart p.data).1 (rest ++ eventsFor key l.2.events) := by
        obtain ⟨size, hrest⟩ := hsome r hr
        refine ⟨size, ?_⟩
        rw [he, hrest, InboundResource.onPart_totalParts, InboundResource.onPart_receivedParts hacc, progressTo_succ]
        rfl
      exact told_snoc hcycles heq rfl (.inr (hlive hget (hsame.told htold)))
    | @ended r e _ _ _ hr hacc hcomp hend hget he =>
      obtain ⟨size, hrest⟩ := hsome r hr
      have hstory : rest ++ eventsFor key l.2.events =
          .resourceStarted key.1 key.2 size ::
            (progressTo key (r.onPart p.data).1.totalParts (r.onPart p.data).1.receivedParts ++ [e]) := by
        rw [he, hrest, InboundResource.onPart_receivedParts hacc, progressTo_succ, InboundResource.onPart_totalParts, List.cons_append,
          List.append_assoc]
        rfl
      refine told_snoc hcycles heq hstory (.inl ⟨?_, hget⟩)
      rcases hend with ⟨data, -, rfl⟩ | ⟨-, rfl⟩
      · rw [InboundResource.receivedParts_of_complete hcomp]
        exact .completed (by rw [← InboundResource.receivedParts_of_complete hcomp, InboundResource.onPart_receivedParts hacc]; omega)
      · exact .failed

end Node

open Node

/-- As long as the peer keeps its turns, a node tells each transfer as one start, one count and one end. -/
theorem resource_events_in_order {identity : Identity} {clock : UInt64} {tr : List Label} {n : Node} {key : ResourceKey}
    (h : Lts.Run (fun n l n' => InTurn key n l ∧ NodeStep n l n') (withClock identity clock) tr n)
    (hsent : ∀ l ∈ tr, ¬ SendsResource key l) : OneProtocol key (eventsFor key (eventsOf tr)) := by
  have hinit : Told key [] (withClock identity clock) := by
    refine ⟨resourcesOk_of_run .nil, by simp [withClock], [], [], by simp, rfl, fun _ => rfl, ?_⟩
    intro r hr
    simp [withClock] at hr
  have hok : ∀ _ : Node, ∀ l ∈ tr, ¬ SendsResource key l := fun _ l hl => hsent l hl
  have hrun := h.restrict hok
  have htold : Told key tr n :=
    hrun.history hinit fun tr t l u hi hst => hi.step hst.2.2 hst.1 hst.2.1
  exact htold.protocol

end

/-! ## A cancel of nothing -/

theorem OneProtocol.starts {key : ResourceKey} {e : Event} {es : List Event} (h : OneProtocol key (e :: es)) :
    ∃ size, e = .resourceStarted key.1 key.2 size := by
  obtain ⟨cycles, hcycles, hprefix⟩ := h
  cases cycles with
  | nil => cases List.prefix_nil.mp hprefix
  | cons c cycles =>
    have hc := hcycles c List.mem_cons_self
    cases hc with
    | completed => exact ⟨_, (List.cons_prefix_cons.mp hprefix).1⟩
    | failed => exact ⟨_, (List.cons_prefix_cons.mp hprefix).1⟩

section
open Node Sample

/-- A frame is in turn if the node is ready for a transfer that it starts, and runs the one that it cancels. -/
theorem inTurn_of_packet {n : Node} {l : Label} {key : ResourceKey} {b : Bytes} {p : Packet}
    (hop : l.1.inbound?.map (·.1) = some b) (hdec : Packet.decode b = .ok p)
    (hadv : p.context = RESOURCE_ADV → n.inboundResources[key]? = none)
    (hcancel : p.context = RESOURCE_ICL ∨ p.context = RESOURCE_RCL → n.inboundResources[key]? ≠ none) : InTurn key n l := by
  have hsame {c : UInt8} {pt : Bytes} (h : n.Opens l key.1 c pt) : p.context = c := by
    obtain ⟨i, g, p', link, k, ⟨⟨b', hop', ha⟩, -, -, -⟩, hc, -⟩ := h
    rw [hop', Option.map_some, Option.some.injEq] at hop
    cases hop
    cases hdec.symm.trans ha.decoded
    exact hc
  constructor
  · rintro ⟨hrunning, pt, a, r, ho, -⟩
    exact hrunning (hadv (hsame ho))
  · rintro ⟨hnone, c, pt, hc, ho, -⟩
    rw [← hsame ho] at hc
    exact hcancel hc hnone

def chatFrame (context : UInt8) (pt : Bytes) (iv : UInt8) : Packet :=
  Packet.linkContext chatLink context (Token.sealWithKey chatKey pt (arr 16 iv))

theorem decode_chatFrame (context : UInt8) (pt : Bytes) (iv : UInt8) :
    Packet.decode (chatFrame context pt iv).encode = .ok (chatFrame context pt iv) :=
  Packet.decode_encode (wellFormed_linkContext _ _ _)

def chatOp (context : UInt8) (pt : Bytes) (iv : UInt8) : Op :=
  .handleInboundWithEntropy (chatFrame context pt iv).encode 0 (entropy 3)

theorem linked_inTurn {tr : List Label} (htr : tr.map (·.1) = linkedOps) (n : Node) :
    ∀ l ∈ tr, InTurn chatResource n l := by
  intro l hl
  have hop : l.1 ∈ linkedOps := htr ▸ List.mem_map_of_mem hl
  rcases List.mem_cons.mp hop with hop | hop
  · constructor
    · rintro ⟨-, _, _, _, ⟨_, _, _, _, _, ⟨⟨_, hin, -⟩, -⟩, -⟩, -⟩
      rw [hop] at hin
      cases hin
    · rintro ⟨-, _, _, -, ⟨_, _, _, _, _, ⟨⟨_, hin, -⟩, -⟩, -⟩, -⟩
      rw [hop] at hin
      cases hin
  · rw [List.mem_singleton] at hop
    exact inTurn_of_packet (b := chatRequest.encode) (p := chatRequest) (by rw [hop]; rfl)
      (Packet.decode_encode (linkRequestFor_wellFormed _ _)) (fun h => absurd h (by decide)) fun h => absurd h (by decide)

/-- The resource is advertised. -/
def running : Node :=
  (linked.handleInboundWithEntropy (chatFrame RESOURCE_ADV chatAdvertisement.pack 4).encode 0 (entropy 3)).1

/-- And cancelled. -/
def cancelled : Node := (running.handleInboundWithEntropy (chatFrame RESOURCE_ICL (arr 32 9).1 5).encode 0 (entropy 3)).1

def cancelOps : List Op :=
  linkedOps ++ [chatOp RESOURCE_ADV chatAdvertisement.pack 4, chatOp RESOURCE_ICL (arr 32 9).1 5,
    chatOp RESOURCE_ADV chatAdvertisement.pack 6]

theorem cancelOps_run : ∃ tr n,
    Lts.Run (fun n l n' => InTurn chatResource n l ∧ NodeStep n l n') (withClock (identity 3) 100) tr n ∧
      tr.map (·.1) = cancelOps := by
  obtain ⟨tr, hrun, htr⟩ := linked_run
  have hready : linked.inboundResources[chatResource]? = none := by
    have hread : (linked.inboundResources[chatResource]?).isNone = true := by decide +kernel
    simpa using hread
  have hbusy : running.inboundResources[chatResource]? ≠ none := by
    have hread : (running.inboundResources[chatResource]?).isSome = true := by decide +kernel
    exact Option.isSome_iff_ne_none.mp hread
  have hagain : cancelled.inboundResources[chatResource]? = none := by
    have hread : (cancelled.inboundResources[chatResource]?).isNone = true := by decide +kernel
    simpa using hread
  have hstep (n : Node) (context : UInt8) (pt : Bytes) (iv : UInt8) :
      NodeStep n (chatOp context pt iv, _) _ := n.step_handleInboundWithEntropy _ 0 (entropy 3)
  have hadvertised := (hrun.restrict fun t => linked_inTurn htr t).snoc (t := linked) (u := running)
    ⟨inTurn_of_packet rfl (decode_chatFrame _ _ _) (fun _ => hready) fun h => absurd h (by decide),
      hstep linked RESOURCE_ADV chatAdvertisement.pack 4⟩
  have hcancelled := hadvertised.snoc (u := cancelled)
    ⟨inTurn_of_packet rfl (decode_chatFrame _ _ _) (fun h => absurd h (by decide)) fun _ => hbusy,
      hstep running RESOURCE_ICL (arr 32 9).1 5⟩
  have hadvertised' := hcancelled.snoc
    ⟨inTurn_of_packet rfl (decode_chatFrame _ _ _) (fun _ => hagain) fun h => absurd h (by decide),
      hstep cancelled RESOURCE_ADV chatAdvertisement.pack 6⟩
  refine ⟨_, _, hadvertised', ?_⟩
  simp only [List.map_append, htr, List.map_cons, List.map_nil, List.append_assoc, List.cons_append, List.nil_append, cancelOps]

/-- A transfer that is cancelled, and begun again. -/
theorem resource_events_in_order_chat : ∃ tr n, Lts.Run NodeStep (withClock (identity 3) 100) tr n ∧
    tr.map (·.1) = cancelOps ∧ OneProtocol chatResource (eventsFor chatResource (eventsOf tr)) ∧
    eventsFor chatResource (eventsOf tr) =
      [.resourceStarted chatLink (arr 32 9) 10, .resourceFailed chatLink (arr 32 9),
        .resourceStarted chatLink (arr 32 9) 10] := by
  obtain ⟨tr, n, hordered, htr⟩ := cancelOps_run
  have hrun := hordered.mono fun _ _ _ h => h.2
  refine ⟨tr, n, hrun, htr, resource_events_in_order hordered ?_, ?_⟩
  · rintro l hl ⟨⟨fuel, data, rng, hsend⟩, -⟩
    have hop : l.1 ∈ cancelOps := htr ▸ List.mem_map_of_mem hl
    simp [cancelOps, linkedOps, chatOp, hsend] at hop
  · have hexec := exec_of_run hrun
    have hevents : ((withClock (identity 3) 100).exec cancelOps).map
        (fun s => eventsFor chatResource (eventsOf s.2)) = some [.resourceStarted chatLink (arr 32 9) 10,
          .resourceFailed chatLink (arr 32 9), .resourceStarted chatLink (arr 32 9) 10] := by decide +kernel
    rw [htr] at hexec
    rwa [hexec, Option.map_some, Option.some.injEq] at hevents

/-- The peer cancels a resource that it never advertised, and the node tells of its failure. -/
theorem resource_failed_unstarted : ¬ ∀ (identity : Identity) (clock : UInt64) (tr : List Label) (n : Node)
    (key : ResourceKey), Lts.Run NodeStep (withClock identity clock) tr n → (∀ l ∈ tr, ¬ SendsResource key l) →
    OneProtocol key (eventsFor key (eventsOf tr)) := by
  intro h
  obtain ⟨⟨n, tr⟩, hexec⟩ : ∃ r, (withClock (identity 3) 100).exec
      (linkedOps ++ [chatOp RESOURCE_RCL (arr 32 9).1 4]) = some r :=
    Option.isSome_iff_exists.mp (by decide +kernel)
  have hevents : ((withClock (identity 3) 100).exec
      (linkedOps ++ [chatOp RESOURCE_RCL (arr 32 9).1 4])).map
      (fun s => eventsFor chatResource (eventsOf s.2)) = some [.resourceFailed chatLink (arr 32 9)] := by decide +kernel
  rw [hexec, Option.map_some, Option.some.injEq] at hevents
  have hunsent : ∀ l ∈ tr, ¬ SendsResource chatResource l := by
    rintro l hl ⟨⟨fuel, data, rng, hsend⟩, -⟩
    have hop := List.mem_map_of_mem (f := (·.1)) hl
    rw [exec_labels hexec] at hop
    simp [linkedOps, chatOp, hsend] at hop
  have hordered := h _ _ _ _ chatResource (exec_run hexec) hunsent
  rw [hevents] at hordered
  obtain ⟨size, hstart⟩ := hordered.starts
  cases hstart

end

end Reticulum
