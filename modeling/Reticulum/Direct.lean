import Reticulum.Agreement
import Reticulum.Handshake
import Reticulum.Opportunistic

/-!
# Mail over a link

A driver that is asked for direct delivery asks for a link and keeps the letter
until the link is there. The letter is then the first thing it sends over it.
-/

namespace Reticulum

open Node

section
variable [Crypto] [Rmp] [RmpF64] [Bzip2] {owner : Identity} {ops : List Op} {h h' : Host} {l : HostLabel} {id : Arr 16}
  {m : LxmfMessage}

/-! ## What a driver does to its node -/

/-- The driver asks for no link that its node holds. -/
def HostLabel.Fresh (l : HostLabel) (h : Host) : Prop := ∀ id, l.ret = .link (.ok id) → h.node.links[id]? = none

theorem sendPending_run (h : Host) (rng : Entropy) (event : Event) :
    ∃ tr, Lts.Run FreshStep h.node tr (h.sendPending rng event).1.node := by
  rcases h.sendPending_cases rng event with ⟨heq, -⟩ | ⟨linkId, lxmf, message, -, -, -, heq⟩
  · rw [heq]
    exact ⟨[], .nil⟩
  · rw [heq]
    refine ⟨_, .single ⟨fun _ _ _ hop => ?_, h.node.step_linkSend linkId message.pack rng⟩⟩
    cases hop

variable [Hkdf]

def FreshHostStep (h : Host) (l : HostLabel) (h' : Host) : Prop := l.Fresh h ∧ HostStep h l h'

theorem emitNodeEvents_run {rng : Nat → Entropy} {events : List Event} {out : List DriverEvent}
    (hout : h.emitNodeEvents rng events = some (h', out)) : ∃ tr, Lts.Run FreshStep h.node tr h'.node := by
  refine (emitNodeEvents_spec (I := fun h' => ∃ tr, Lts.Run FreshStep h.node tr h'.node) (fun h' rng event _ hi => ?_)
    ⟨[], .nil⟩ hout).1
  obtain ⟨tr, hrun⟩ := hi
  obtain ⟨tr', hrun'⟩ := sendPending_run (h'.remember event) rng event
  rw [Host.remember_node] at hrun'
  exact ⟨_, hrun.append hrun'⟩

/-- A command is a run of the node; a fresh one draws fresh links. -/
theorem HostStep.node_run (hst : HostStep h l h') :
    ∃ tr, Lts.Run NodeStep h.node tr h'.node ∧ (l.Fresh h → Lts.Run FreshStep h.node tr h'.node) := by
  have hfresh {n n' : Node} {tr : List Label} (hrun : Lts.Run FreshStep n tr n') : Lts.Run NodeStep n tr n' :=
    hrun.mono fun _ _ _ hst => hst.2
  cases hst.cases with
  | @node op out node _ _ _ hnode hemit =>
    obtain ⟨tr, hrun⟩ := emitNodeEvents_run hemit
    refine ⟨_, .cons hnode (hfresh hrun), fun hf => .cons ⟨fun _ _ id _ hret => hf id hret, hnode⟩ hrun⟩
  | @opportunistic _ _ _ _ rng message =>
    have hsend := h.node.step_sendMessage message.destination (message.pack.drop 16) rng
    exact ⟨_, .single hsend, fun _ => .single ⟨fun _ _ _ hop => (nomatch hop), hsend⟩⟩
  | @direct d linkId _ _ _ rng _ _ _ hlink =>
    have hask := h.node.step_establishLink d rng
    rw [hlink] at hask
    exact ⟨_, .single hask, fun hf => .single ⟨fun _ _ id _ hret => hf id hret, hask⟩⟩
  | @unlinked d _ _ _ rng e hlink =>
    have hask := h.node.step_establishLink d rng
    rw [hlink] at hask
    exact ⟨_, .single hask, fun _ => .single ⟨fun _ _ _ _ hret => (nomatch hret), hask⟩⟩
  | refused => exact ⟨[], .nil, fun _ => .nil⟩

theorem FreshHostStep.node_run (hst : FreshHostStep h l h') : ∃ tr, Lts.Run FreshStep h.node tr h'.node := by
  obtain ⟨tr, -, hrun⟩ := HostStep.node_run hst.2
  exact ⟨tr, hrun hst.1⟩

theorem Started.node_run (hs : Started owner ops h) : ∃ clock tr, Lts.Run NodeStep (withClock owner clock) tr h.node := by
  refine hs.induction (I := fun _ h => ∃ clock tr, Lts.Run NodeStep (withClock owner clock) tr h.node)
    (fun node tr clock h₀ => ⟨clock, _, h₀.snoc (node.step_registerSingleDestination "lxmf" ["delivery"])⟩)
    fun _ h l h' hi hst => ?_
  obtain ⟨clock, tr, hrun⟩ := hi
  obtain ⟨tr', hrun', -⟩ := hst.node_run
  exact ⟨clock, _, hrun.append hrun'⟩

theorem Started.pendingOk (hs : Started owner ops h) : h.node.PendingOk := by
  obtain ⟨_, _, hrun⟩ := hs.node_run
  exact pendingOk_of_run hrun

theorem Started.hasSingle (hs : Started owner ops h) : h.node.hasSingle (deliveryDestinationHash owner.public) = true := by
  refine hs.induction (I := fun _ h => h.node.hasSingle (deliveryDestinationHash owner.public) = true)
    (fun node tr clock h₀ => ?_) fun _ h l h' hi hst => ?_
  · have hidentity : node.identity = owner := h₀.preserve (I := fun n => n.identity = owner)
      (fun _ _ _ hi hst => hst.identity.trans hi) rfl
    rw [← hidentity, Node.hasSingle, List.any_eq_true]
    exact ⟨⟨nameHash "lxmf" ["delivery"], deliveryDestinationHash node.identity.public, .single false⟩,
      List.mem_append_right _ (List.mem_singleton_self _), by simp [LocalDestinationKind.isSingle]⟩
  · obtain ⟨_, hrun, -⟩ := hst.node_run
    exact hrun.preserve (I := fun n => n.hasSingle (deliveryDestinationHash owner.public) = true)
      (fun _ _ _ hi hst => hst.hasSingle hi) hi

/-! ## The letter that waits -/

omit [Rmp] [RmpF64] [Hkdf] [Bzip2] in
/-- The letter waits for the link. -/
def Host.Waiting (h : Host) (id : Arr 16) (m : LxmfMessage) : Prop :=
  ∃ lxmf, h.lxmf = some lxmf ∧ lxmf.pendingDirect[id]? = some m

omit [Rmp] [RmpF64] [Hkdf] [Bzip2] in
theorem Host.waiting_remember {event : Event} : (h.remember event).Waiting id m ↔ h.Waiting id m := by
  unfold Host.remember
  split
  · split
    · rename_i lxmf _ hl
      simp [Host.Waiting, hl]
    · rfl
  · rfl

omit [Hkdf] [Bzip2] in
/-- Only the link that it waits for takes a letter out. -/
theorem Host.waiting_sendPending {rng : Entropy} {event : Event} :
    (h.sendPending rng event).1.Waiting id m ↔ h.Waiting id m ∧ event ≠ .linkEstablished id := by
  rcases h.sendPending_cases rng event with ⟨heq, hnone⟩ | ⟨linkId, lxmf, message, rfl, hl, hm, heq⟩
  · rw [heq]
    refine ⟨fun hw => ⟨hw, ?_⟩, fun hw => hw.1⟩
    rintro rfl
    obtain ⟨lxmf, hl, hm⟩ := hw
    rw [hnone id lxmf rfl hl] at hm
    cases hm
  · rw [heq]
    by_cases hid : linkId = id
    · subst hid
      simp [Host.Waiting]
    · simp [Host.Waiting, hl, hid, Std.ExtTreeMap.getElem?_erase]

omit [Bzip2] in
/-- The events of the node take out the letters of the links that they establish, and no other. -/
theorem Host.waiting_emitNodeEvents {rng : Nat → Entropy} {events : List Event} {out : List DriverEvent}
    (hout : h.emitNodeEvents rng events = some (h', out)) :
    (h'.Waiting id m → h.Waiting id m) ∧ (h.Waiting id m → .linkEstablished id ∉ events → h'.Waiting id m) := by
  constructor
  · refine (emitNodeEvents_spec (I := fun h' => h'.Waiting id m → h.Waiting id m) (fun h' rng event _ hi hw => ?_)
      (fun hw => hw) hout).1
    exact hi (Host.waiting_remember.mp (Host.waiting_sendPending.mp hw).1)
  · intro hw hnot
    refine (emitNodeEvents_spec (I := fun h' => h'.Waiting id m) (fun h' rng event hmem hw => ?_) hw hout).1
    refine Host.waiting_sendPending.mpr ⟨Host.waiting_remember.mpr hw, ?_⟩
    rintro rfl
    exact hnot hmem

omit [RmpF64] [Hkdf] in
theorem NodeStep.active_of_established {n n' : Node} {l : Label} (hn : n.PendingOk) (hst : NodeStep n l n')
    (he : .linkEstablished id ∈ l.2.events) : ∃ link, n'.links[id]? = some link ∧ link.status = .active := by
  have hcount : 0 < l.2.events.count (.linkEstablished id) := List.count_pos_iff.mpr he
  cases hst.linkChange hn id with
  | activity hc => cases hc <;> rename_i hr <;> exact absurd hr.established hcount.ne'
  | requested _ _ _ _ _ hr => exact absurd hr.established hcount.ne'
  | accepted _ _ _ _ _ _ _ _ hl => exact ⟨_, hl, rfl⟩
  | proven _ _ _ _ _ _ _ _ hl => exact ⟨_, hl, rfl⟩

omit [RmpF64] [Hkdf] in
theorem NodeStep.link_stays {n n' : Node} {l : Label} (hn : n.PendingOk) (hst : NodeStep n l n')
    (hl : n.links[id]? ≠ none) : n'.links[id]? ≠ none := by
  cases hst.linkChange hn id with
  | activity hc =>
    cases hc with
    | kept h => rwa [h]
    | touched _ _ h | keepalive _ _ h | closed _ _ _ h => simp [h]
  | requested _ _ _ _ h | accepted _ _ _ _ _ _ _ _ h | proven _ _ _ _ _ _ _ _ h => simp [h]

omit [RmpF64] [Hkdf] in
theorem link_stays_of_run {n n' : Node} {tr : List Label} (hn : n.PendingOk) (h : Lts.Run NodeStep n tr n')
    (hl : n.links[id]? ≠ none) : n'.links[id]? ≠ none :=
  (h.preserve (I := fun n => n.PendingOk ∧ n.links[id]? ≠ none)
    (fun _ _ _ hi hst => ⟨hst.pendingOk hi.1, hst.link_stays hi.1 hi.2⟩) ⟨hn, hl⟩).2

omit [Rmp] [RmpF64] [Hkdf] [Bzip2] in
theorem establishLink_held {n : Node} {d : Arr 16} {rng : Entropy} (h : (n.establishLink d rng).2 = .ok id) :
    (n.establishLink d rng).1.links[id]? ≠ none := by
  have hc := n.establishLink_cases d rng
  generalize n.establishLink d rng = r at hc h
  cases hc with
  | failed => cases h
  | requested =>
    cases h
    simp

theorem Started.held (hs : Started owner ops h) (hw : h.Waiting id m) : h.node.links[id]? ≠ none := by
  refine (hs.induction (I := fun _ h => h.node.PendingOk ∧ ∀ m, h.Waiting id m → h.node.links[id]? ≠ none)
    (fun node tr clock h₀ => ⟨?_, ?_⟩) fun _ h l h' hi hst => ?_).2 m hw
  · exact pendingOk_of_run (h₀.snoc (node.step_registerSingleDestination "lxmf" ["delivery"]))
  · rintro m ⟨lxmf, hl, hm⟩
    cases hl
    simp at hm
  · obtain ⟨tr, hrun, -⟩ := hst.node_run
    refine ⟨hrun.preserve (fun _ _ _ hi hst => hst.pendingOk hi) hi.1, fun m hw => ?_⟩
    have hbefore (hw : h.Waiting id m) : h'.node.links[id]? ≠ none := link_stays_of_run hi.1 hrun (hi.2 m hw)
    cases hst.cases with
    | node _ hemit => exact hbefore ((Host.waiting_emitNodeEvents hemit).1 hw)
    | @direct d linkId _ _ _ rng message lxmf _ hlink hl =>
      obtain ⟨lxmf', hl', hm⟩ := hw
      cases hl'
      rw [Std.ExtTreeMap.getElem?_insert] at hm
      split at hm
      · rename_i hid
        exact establishLink_held (Std.LawfulEqOrd.eq_of_compare hid ▸ hlink)
      · exact hbefore ⟨lxmf, hl, hm⟩
    | _ => exact hbefore hw

theorem FreshHostStep.waiting (hn : h.node.PendingOk) (hst : FreshHostStep h l h') (hw : h.Waiting id m)
    (hl : h.node.links[id]? ≠ none) (hp : h'.node.statusOf id = some .pending) : h'.Waiting id m := by
  obtain ⟨hfresh, hst⟩ := hst
  cases hst.cases with
  | @node op out node _ _ _ hnode hemit =>
    refine (Host.waiting_emitNodeEvents hemit).2 hw fun hmem => ?_
    obtain ⟨link, hl₁, ha⟩ := hnode.active_of_established hn hmem
    obtain ⟨tr, hrun⟩ := emitNodeEvents_run hemit
    obtain ⟨-, link', hl', hmove⟩ := entryMove_of_run (hnode.pendingOk hn) hrun hl₁
    rw [statusOf_eq hl', Option.some.injEq] at hp
    obtain ⟨_, _, rfl⟩ := hmove.of_pending hp
    rw [ha] at hp
    cases hp
  | @direct d linkId _ _ _ rng message lxmf _ hlink hlxmf =>
    have hne : linkId ≠ id := by
      rintro rfl
      exact hl (hfresh _ rfl)
    obtain ⟨lxmf', hl', hm⟩ := hw
    cases hlxmf.symm.trans hl'
    exact ⟨_, rfl, by simpa [Std.ExtTreeMap.getElem?_insert, hne] using hm⟩
  | _ => exact hw

/-! ## What a frame does to a driver -/

variable {op : Op} {f : Bytes} {i j : UInt16} {rng : Option Entropy}

theorem Host.step_established (hop : op.inbound? = some (f, i, rng))
    (hev : (h.node.handleInboundInner f i rng).2 = [.linkEstablished id]) (hw : ∀ m, ¬ h.Waiting id m) (entropy : Nat → Entropy) :
    h.step entropy (.node op) =
      some ({ h with node := (h.node.handleInboundInner f i rng).1 }, .unit, [.node (.linkEstablished id)]) := by
  let h₁ : Host := { h with node := (h.node.handleInboundInner f i rng).1 }
  have hsend : h₁.sendPending (entropy 0) (.linkEstablished id) = (h₁, none) := by
    unfold Host.sendPending
    cases hl : h.lxmf with
    | none => simp [h₁, hl]
    | some lxmf =>
      have hm : lxmf.pendingDirect[id]? = none := by
        by_contra hm
        obtain ⟨m, hm⟩ := Option.ne_none_iff_exists'.mp hm
        exact hw m ⟨lxmf, hl, hm⟩
      simp [h₁, hl, hm]
  have hremember : h₁.remember (.linkEstablished id) = h₁ := rfl
  unfold Host.step
  simp only [h.node.step_of_inbound hop, hev, Host.emitNodeEvents, Host.emitNodeEvent]
  rw [show ({ h with node := (h.node.handleInboundInner f i rng).1 } : Host) = h₁ from rfl, hremember, hsend]
  simp only [Host.convert_node (.linkEstablished id) (by simp) (by simp)]
  rfl

theorem Host.step_established_waiting {lxmf : LxmfRuntime} {node : Node} (hop : op.inbound? = some (f, i, rng))
    (hev : (h.node.handleInboundInner f i rng).2 = [.linkEstablished id]) (hl : h.lxmf = some lxmf)
    (hm : lxmf.pendingDirect[id]? = some m) {entropy : Nat → Entropy}
    (hsend : (h.node.handleInboundInner f i rng).1.linkSend id m.pack (entropy 0) = (node, .ok ())) :
    h.step entropy (.node op) =
      some ({ node, lxmf := some { lxmf with pendingDirect := lxmf.pendingDirect.erase id } }, .unit,
        [.node (.linkEstablished id)]) := by
  let h₁ : Host := { h with node := (h.node.handleInboundInner f i rng).1 }
  have hpending : h₁.sendPending (entropy 0) (.linkEstablished id) =
      ({ node, lxmf := some { lxmf with pendingDirect := lxmf.pendingDirect.erase id } }, none) := by
    unfold Host.sendPending
    simp only [h₁, hl, hm, LxmfRouter.sendDirect, hsend]
  have hremember : h₁.remember (.linkEstablished id) = h₁ := rfl
  unfold Host.step
  simp only [h.node.step_of_inbound hop, hev, Host.emitNodeEvents, Host.emitNodeEvent]
  rw [show ({ h with node := (h.node.handleInboundInner f i rng).1 } : Host) = h₁ from rfl, hremember, hpending]
  simp only [Host.convert_node (.linkEstablished id) (by simp) (by simp)]
  rfl

theorem Host.step_linkData {lxmf : LxmfRuntime} {pt : Bytes} (hop : op.inbound? = some (f, i, rng))
    (hev : (h.node.handleInboundInner f i rng).2 = [.linkData id pt]) (hl : h.lxmf = some lxmf)
    (hr : lxmf.router.receiveDirect pt = some (.ok (.message m))) (entropy : Nat → Entropy) :
    h.step entropy (.node op) =
      some ({ h with node := (h.node.handleInboundInner f i rng).1 }, .unit, [lxmfEvent (.message m)]) := by
  unfold Host.step
  simp only [h.node.step_of_inbound hop, hev, Host.emitNodeEvents, Host.emitNodeEvent, Host.remember, Host.sendPending,
    Host.convert, hl, hr]
  rfl

/-! ## The exchange -/

variable {writer reader : Identity} {a b : Host} {title content fields : Bytes} {letter : LxmfMessage}

omit [Rmp] [RmpF64] [Hkdf] [Bzip2] in
/-- The id of the link that is asked for with this entropy. -/
def askedLink (d : Arr 16) (rng : Entropy) : Arr 16 := linkIdFromRequest (linkRequestFor d rng)

/-- However long the link has been up, the reader makes the letter of this frame, once it has met the writer. -/
def ReadsMail (writer reader : Identity) (b : Host) (id : Arr 16) (j : UInt16) (mail : Bytes) (letter : LxmfMessage) : Prop :=
  ∀ b' commands ops op rng, Lts.Run FreshHostStep b commands b' → b'.node.statusOf id = some .active →
    Met reader writer.public ops b' → b'.node.Unheard mail → op.inbound? = some (mail, j, rng) →
    ∀ entropy, ∃ b'', b'.step entropy (.node op) = some (b'', .unit, [lxmfEvent (.message letter)])

/-- The letter stays with the writer for as long as the link is Pending, whatever else the writer does. -/
def KeepsMail (a : Host) (id : Arr 16) (letter : LxmfMessage) : Prop :=
  ∀ a' commands, Lts.Run FreshHostStep a commands a' → a'.node.statusOf id = some .pending → a'.Waiting id letter

/-- However long the writer has waited, the proof makes it finish the handshake, and the letter is the next frame. No
letter waits for the link then. -/
def SendsMail (writer reader : Identity) (a b : Host) (id : Arr 16) (i j : UInt16) (proof : Bytes) (letter : LxmfMessage) :
    Prop :=
  ∀ a' commands op k rng, Lts.Run FreshHostStep a commands a' → a'.node.statusOf id = some .pending →
    a'.node.Unheard proof → op.inbound? = some (proof, k, some rng) →
    ∀ entropy, ∃ a'' finish mail, a'.step entropy (.node op) = some (a'', .unit, [.node (.linkEstablished id)]) ∧
      a'.node.enqueued a''.node = [(i, finish), (i, mail)] ∧ (∀ m, ¬ a''.Waiting id m) ∧
      ReadsMail writer reader b id j mail letter

/-- A reader that does not hold the link answers the request with its proof. -/
def AnswersMail (writer reader : Identity) (a : Host) (id : Arr 16) (i : UInt16) (request : Bytes) (letter : LxmfMessage) :
    Prop :=
  ∀ b ops op j rng, Started reader ops b → b.node.links[id]? = none → b.node.Unheard request →
    op.inbound? = some (request, j, some rng) →
    ∀ entropy, ∃ b' proof, b.step entropy (.node op) = some (b', .unit, [.node (.linkEstablished id)]) ∧
      b.node.enqueued b'.node = [(j, proof)] ∧ SendsMail writer reader a b' id i j proof letter

theorem host_run {commands : List HostLabel} (hrun : Lts.Run FreshHostStep h commands h') :
    ∃ tr, Lts.Run FreshStep h.node tr h'.node := by
  refine hrun.preserve (I := fun h' => ∃ tr, Lts.Run FreshStep h.node tr h'.node) (fun _ _ _ hi hst => ?_) ⟨[], .nil⟩
  obtain ⟨tr, hrun⟩ := hi
  obtain ⟨tr', hrun'⟩ := hst.node_run
  exact ⟨_, hrun.append hrun'⟩

/-- The reader's part, from its end of the link on. -/
theorem reads_mail (hS : Crypto.SignVerifies) (hA : Crypto.AesInverts) (hR : Rmp.WritesShortest) {key : Arr 64}
    {link : LinkEntry} (hok : b.node.PendingOk) (hb : b.node.ActiveOn id j link key) (ha : a.node.identity = writer)
    (htitle : title.length < 2 ^ 32) (hcontent : content.length < 2 ^ 32) (hfields : MessagePack.Map 64 fields) (iv : Arr 16) :
    ReadsMail writer reader b id j
      (Packet.linkData id (Token.sealWithKey key
        (a.letter (deliveryDestinationHash reader.public) title content fields).pack iv)).encode
      (a.letter (deliveryDestinationHash reader.public) title content fields) := by
  intro b' commands ops op rng hrun hactive hmet hnew hop entropy
  obtain ⟨tr, hrun⟩ := host_run hrun
  obtain ⟨-, link', hl', hmove⟩ := entryMove_of_run hok hrun hb.get
  rw [statusOf_eq hl', Option.some.injEq] at hactive
  obtain ⟨_, _, rfl⟩ := hmove.of_active hb.status hactive
  have hb' : b'.node.ActiveOn id j _ key := ⟨hl', hb.status, hb.interface, hb.key⟩
  subst ha
  obtain ⟨lxmf, hmail⟩ := hmet.takesMail
  exact ⟨_, Host.step_linkData hop (handleInbound_linkData hA rfl hnew hb' rng) hmail.runtime
    (hmail.receives hS hR htitle hcontent hfields).1 entropy⟩

/-- A link that was asked for with the entry `link`, and the letter that waits for it. -/
structure Expects (h : Host) (id : Arr 16) (link : LinkEntry) (letter : LxmfMessage) : Prop where
  ok : h.node.PendingOk
  entry : ∃ link', h.node.links[id]? = some link' ∧ EntryMove link link'
  waiting : h.node.statusOf id = some .pending → h.Waiting id letter

theorem Expects.step {link : LinkEntry} (he : Expects h id link letter) (hst : FreshHostStep h l h') :
    Expects h' id link letter := by
  obtain ⟨tr, hrun⟩ := hst.node_run
  obtain ⟨link₁, hl₁, hmove₁⟩ := he.entry
  obtain ⟨hok, link₂, hl₂, hmove₂⟩ := entryMove_of_run he.ok hrun hl₁
  refine ⟨hok, ⟨link₂, hl₂, hmove₁.trans hmove₂⟩, fun hp => ?_⟩
  have hpending : link₂.status = .pending := by
    rw [statusOf_eq hl₂] at hp
    exact Option.some.inj hp
  obtain ⟨_, _, rfl⟩ := hmove₂.of_pending hpending
  exact hst.waiting he.ok (he.waiting ((statusOf_eq hl₁).trans (congrArg some hpending))) (by simp [hl₁]) hp

theorem expects_run {link : LinkEntry} (he : Expects h id link letter) {commands : List HostLabel}
    (hrun : Lts.Run FreshHostStep h commands h') : Expects h' id link letter :=
  hrun.preserve (I := fun h => Expects h id link letter) (fun _ _ _ he hst => he.step hst) he

/-- The writer's part, from the request on. -/
theorem sends_mail (hS : Crypto.SignVerifies) {link : LinkEntry} {e : LinkEphemeral} (ha : Expects a id link letter)
    (hinit : link.initiator = true) (hpub : link.destinationPublic = some reader.public)
    (hreads : ∀ iv, ReadsMail writer reader b id j
      (Packet.linkData id (Token.sealWithKey (deriveLinkKey link.ephemeral.x25519Prv e.x25519Pub id) letter.pack iv)).encode
      letter) :
    SendsMail writer reader a b id link.interface j (Packet.proof id (buildLinkProof reader id e) LRPROOF).encode letter := by
  intro a' commands op k rng hrun hpend hnew hop entropy
  have hexpects := expects_run ha hrun
  obtain ⟨link', hl, hmove⟩ := hexpects.entry
  obtain ⟨lxmf, hlxmf, hletter⟩ := hexpects.waiting hpend
  rw [statusOf_eq hl, Option.some.injEq] at hpend
  obtain ⟨activity, keepalive, rfl⟩ := hmove.of_pending hpend
  let key := deriveLinkKey link.ephemeral.x25519Prv e.x25519Pub id
  have hout := handleInbound_linkProof (i := k) rfl hnew hl hpend hinit hpub (verifyLinkProof_build hS reader id e) rng
  let n := (a'.node.handleInboundInner (Packet.proof id (buildLinkProof reader id e) LRPROOF).encode k (some rng)).1
  have hactive : n.ActiveOn id link.interface
      (a'.node.provenLink { link with lastActivity := activity, lastKeepalive := keepalive } id e.x25519Pub) key := by
    refine ⟨?_, rfl, rfl, rfl⟩
    show n.links[id]? = _
    rw [show n = _ from congrArg Prod.fst hout]
    simp
  have hsend := linkSend_eq hactive letter.pack (entropy 0)
  let finish := Packet.linkContext id LRRTT (Token.sealWithKey key rttPlaintext (rng.fill 16).1)
  refine ⟨_, finish.encode, _, Host.step_established_waiting hop (congrArg Prod.snd hout) hlxmf hletter hsend, ?_,
    fun m hw => ?_, hreads ((entropy 0).fill 16).1⟩
  · have hfirst : n.outbound = a'.node.outbound ++ [(link.interface, finish.encode)] := by
      rw [show n = _ from congrArg Prod.fst hout]
      simp [finish, key]
    refine enqueued_of_append ?_
    rw [emit_outbound, touch_outbound, hfirst, List.append_assoc]
    rfl
  · obtain ⟨lxmf', hl', hm⟩ := hw
    cases hl'
    simp at hm

theorem answers_mail (hS : Crypto.SignVerifies) (hD : Crypto.DhCommutes) (hA : Crypto.AesInverts) (hR : Rmp.WritesShortest)
    {source : Host} {link : LinkEntry} {asked : Entropy} (hid : id = askedLink (deliveryDestinationHash reader.public) asked)
    (hletter : letter = source.letter (deliveryDestinationHash reader.public) title content fields)
    (hsource : source.node.identity = writer) (ha : Expects a id link letter) (hinit : link.initiator = true)
    (hpub : link.destinationPublic = some reader.public) (heph : link.ephemeral = (LinkEphemeral.generate asked).1)
    (htitle : title.length < 2 ^ 32) (hcontent : content.length < 2 ^ 32) (hfields : MessagePack.Map 64 fields) :
    AnswersMail writer reader a id link.interface (linkRequestFor (deliveryDestinationHash reader.public) asked).encode
      letter := by
  intro b ops op j rng hb hnone hnew hop entropy
  obtain rfl : b.node.identity = reader := hb.trusting.identity
  have hout := handleInbound_request (i := j) hnew hb.hasSingle hid hnone rng
  have hwaits (m : LxmfMessage) : ¬ b.Waiting id m := fun hw => hb.held hw hnone
  have hstep := Host.step_established hop (congrArg Prod.snd hout) hwaits
  have hok := (hb.step (l := ⟨.node op, .unit, [.node (.linkEstablished id)]⟩) ⟨entropy, hstep entropy⟩).pendingOk
  refine ⟨_, _, hstep entropy, ?_, sends_mail hS ha hinit hpub (e := (LinkEphemeral.generate rng).1) fun iv => ?_⟩
  · show b.node.enqueued (b.node.handleInboundInner _ j (some rng)).1 = _
    rw [show (b.node.handleInboundInner _ j (some rng)).1 = _ from congrArg Prod.fst hout]
    exact enqueued_emit (by simp) _
  · have hkey : deriveLinkKey link.ephemeral.x25519Prv (LinkEphemeral.generate rng).1.x25519Pub id =
        deriveLinkKey (LinkEphemeral.generate rng).1.x25519Prv (LinkEphemeral.generate asked).1.x25519Pub id := by
      rw [heph, deriveLinkKey, deriveLinkKey, generate_ephemeral, generate_ephemeral, hD]
    rw [hkey, hletter]
    have hactive : (b.node.handleInboundInner (linkRequestFor (deliveryDestinationHash b.node.identity.public) asked).encode j
        (some rng)).1.ActiveOn id j (b.node.acceptedLink id (LinkEphemeral.generate rng).1 (LinkEphemeral.generate asked).1.x25519Pub j)
        (deriveLinkKey (LinkEphemeral.generate rng).1.x25519Prv (LinkEphemeral.generate asked).1.x25519Pub id) := by
      refine ⟨?_, rfl, rfl, rfl⟩
      rw [hout]
      simp
    exact reads_mail hS hA hR hok hactive hsource htitle hcontent hfields iv

/-- A writer with a direct path to the reader, and the reader's key, sends its letter over a link: the request is answered,
the letter waits for the proof and leaves with it, and a reader that has met the writer reports it as it was written, whatever
else the two have done in between. -/
theorem direct_mail (hS : Crypto.SignVerifies) (hD : Crypto.DhCommutes) (hA : Crypto.AesInverts) (hR : Rmp.WritesShortest)
    (ha : Started writer ops a) (htitle : title.length < 2 ^ 32) (hcontent : content.length < 2 ^ 32)
    (hfields : MessagePack.Map 64 fields) {e : PathEntry}
    (hpath : a.node.paths.get (deliveryDestinationHash reader.public) = some e) (hlive : a.node.nowSecs < e.expiresAt)
    (hnear : e.hops.toNat ≤ 1) (hkey : e.pub = reader.public) (rng : Entropy) :
    ∃ a', (∀ entropy, a.step entropy (.lxmfSendDirect (deliveryDestinationHash reader.public) title content fields rng) =
        some (a', .link (.ok (askedLink (deliveryDestinationHash reader.public) rng)), [])) ∧
      a.node.enqueued a'.node = [(e.interface, (linkRequestFor (deliveryDestinationHash reader.public) rng).encode)] ∧
      KeepsMail a' (askedLink (deliveryDestinationHash reader.public) rng)
        (a.letter (deliveryDestinationHash reader.public) title content fields) ∧
      AnswersMail writer reader a' (askedLink (deliveryDestinationHash reader.public) rng) e.interface
        (linkRequestFor (deliveryDestinationHash reader.public) rng).encode
        (a.letter (deliveryDestinationHash reader.public) title content fields) := by
  let d := deliveryDestinationHash reader.public
  obtain ⟨lxmf, hl⟩ := Option.isSome_iff_exists.mp ha.lxmf
  have hask := establishLink_eq hpath hlive hnear rng
  have hret : (a.node.establishLink d rng).2 = .ok (askedLink d rng) := by rw [hask]; rfl
  let a' : Host :=
    { node := (a.node.establishLink d rng).1
      lxmf := some { lxmf with pendingDirect := lxmf.pendingDirect.insert (askedLink d rng) (a.letter d title content fields) } }
  have hstep (entropy : Nat → Entropy) : a.step entropy (.lxmfSendDirect d title content fields rng) =
      some (a', .link (.ok (askedLink d rng)), []) := by
    simp only [Host.step, ha.lxmfMessage, hl]
    rw [show a.node.establishLink d rng = ((a.node.establishLink d rng).1, .ok (askedLink d rng)) from Prod.ext rfl hret]
  have hentry : a'.node.links[askedLink d rng]? = some (a.node.requestedLink e (LinkEphemeral.generate rng).1) := by
    show (a.node.establishLink d rng).1.links[askedLink d rng]? = _
    rw [hask]
    simp [askedLink, d]
  have hexpects : Expects a' (askedLink d rng) (a.node.requestedLink e (LinkEphemeral.generate rng).1)
      (a.letter d title content fields) :=
    ⟨(ha.step (l := ⟨.lxmfSendDirect d title content fields rng, _, []⟩) ⟨fun _ _ => 0, hstep _⟩).pendingOk, ⟨_, hentry, .refl _⟩, fun _ => ⟨_, rfl, by simp⟩⟩
  refine ⟨a', hstep, ?_, fun _ _ hrun hp => (expects_run hexpects hrun).waiting hp,
    answers_mail hS hD hA hR rfl rfl ha.trusting.identity hexpects rfl (congrArg some hkey) rfl htitle hcontent hfields⟩
  show a.node.enqueued (a.node.establishLink d rng).1 = _
  rw [hask]
  exact enqueued_emit rfl _

end

/-! ## Two neighbours -/

section
open Sample

/-- The first, once it has heard the second without a relay. -/
def neighbour : Host :=
  { correspondent 1 with node := ((correspondent 1).node.handleInboundInner (greeting 2).encode 0 none).1 }.remember
    (.announce (address 2) 1)

theorem neighbour_started : Started (identity 1) [.handleInbound (greeting 2).encode 0] neighbour := by
  have hheard : HostStep (correspondent 1) ⟨.node (.handleInbound (greeting 2).encode 0), .unit,
      [.node (.announce (address 2) 1)]⟩ neighbour := ⟨fun _ _ => 0, Host.step_announce rfl (by decide +kernel) _⟩
  exact .run .nil (.single hheard)

theorem acquainted_met : Met (identity 2) (identity 1).public [.handleInbound (greeting 1).encode 0] acquainted := by
  refine ⟨.run .nil (.single acquainted_step), ?_, fun pub hp _ => greeting_sole (by simp [Op.inbound?]) hp⟩
  exact ⟨[], correspondent 2, _, acquainted, [], .run .nil .nil, acquainted_step,
    ⟨_, _, _, _, _, _, _, rfl, rfl, greeting_takenUp⟩, .nil⟩

def neighbourLink : Arr 16 := askedLink (address 2) (entropy 1)

def neighbourRequest : Packet := linkRequestFor (address 2) (entropy 1)

def neighbourProof : Packet :=
  Packet.proof neighbourLink (buildLinkProof (identity 2) neighbourLink (LinkEphemeral.generate (entropy 2)).1) LRPROOF

/-- The key of the link. -/
def neighbourKey : Arr 64 :=
  deriveLinkKey (LinkEphemeral.generate (entropy 1)).1.x25519Prv (LinkEphemeral.generate (entropy 2)).1.x25519Pub neighbourLink

def neighbourFinish : Packet :=
  Packet.linkContext neighbourLink LRRTT (Token.sealWithKey neighbourKey rttPlaintext ((entropy 3).fill 16).1)

def neighbourLetter : LxmfMessage := neighbour.letter (address 2) [1] [2, 3] fields

def neighbourMail : Packet :=
  Packet.linkData neighbourLink (Token.sealWithKey neighbourKey neighbourLetter.pack ((entropy 4).fill 16).1)

theorem unheard_of_encode {n : Node} {p : Packet} (hw : p.WellFormed) (h : n.seenPackets[p.packetHash]? = none) :
    n.Unheard p.encode := by
  intro p' hp'
  cases (Packet.decode_encode hw).symm.trans hp'
  exact h

/-- What a test finds out about the driver after a command. -/
theorem Host.after_step {α : Type} {a b : Host} {op : HostOp} {ret : Ret} {events : List DriverEvent}
    {entropy : Nat → Entropy} (h : a.step entropy op = some (b, ret, events)) (f : Host → α) {x : α}
    (hf : (a.step entropy op).map (fun r => f r.1) = some x) : f b = x := by
  rw [h] at hf
  exact Option.some.inj hf

theorem neighbour_path : ∃ e, neighbour.node.paths.get (deliveryDestinationHash (identity 2).public) = some e ∧
    neighbour.node.nowSecs < e.expiresAt ∧ e.hops.toNat ≤ 1 ∧ e.pub = (identity 2).public := by
  have h : (neighbour.node.paths.get (deliveryDestinationHash (identity 2).public)).any (fun e =>
      neighbour.node.nowSecs < e.expiresAt ∧ e.hops.toNat ≤ 1 ∧ e.pub = (identity 2).public) = true := by decide +kernel
  obtain ⟨e, he, hok⟩ := (Option.any_eq_true _ _).mp h
  exact ⟨e, he, of_decide_eq_true hok⟩

theorem neighbourRequest_unheard : acquainted.node.Unheard neighbourRequest.encode :=
  unheard_of_encode (linkRequestFor_wellFormed _ _) (by decide +kernel)

/-- The first driver sends a letter over a link, and the second reports it. -/
theorem direct_mail_neighbour : ∃ a b a' b',
    neighbour.step (fun _ => entropy 4) (.lxmfSendDirect (address 2) [1] [2, 3] fields (entropy 1)) =
        some (a, .link (.ok neighbourLink), []) ∧
      acquainted.step (fun _ => entropy 4) (.node (.handleInboundWithEntropy neighbourRequest.encode 0 (entropy 2))) =
        some (b, .unit, [.node (.linkEstablished neighbourLink)]) ∧
      a.step (fun _ => entropy 4) (.node (.handleInboundWithEntropy neighbourProof.encode 0 (entropy 3))) =
        some (a', .unit, [.node (.linkEstablished neighbourLink)]) ∧
      b.step (fun _ => entropy 4) (.node (.handleInbound neighbourMail.encode 0)) =
        some (b', .unit, [lxmfEvent (.message neighbourLetter)]) := by
  obtain ⟨e, hpath, hlive, hnear, hkey⟩ := neighbour_path
  obtain ⟨a, hask, -, -, hanswers⟩ := @direct_mail _ _ _ _ _ _ (identity 1) (identity 2) neighbour [1] [2, 3] fields signVerifies
    dhCommutes aesInverts writesShortest neighbour_started (by decide) (by decide) map_fields e hpath hlive hnear hkey (entropy 1)
  have hasked : neighbour.step (fun _ => entropy 4) (.lxmfSendDirect (address 2) [1] [2, 3] fields (entropy 1)) =
      some (a, .link (.ok neighbourLink), []) := hask _
  let answering : Op := .handleInboundWithEntropy neighbourRequest.encode 0 (entropy 2)
  let finishing : Op := .handleInboundWithEntropy neighbourProof.encode 0 (entropy 3)
  let reading : Op := .handleInbound neighbourMail.encode 0
  obtain ⟨b, proof, hanswer, hproof, hsends⟩ := hanswers acquainted _ answering 0 (entropy 2) acquainted_met.started
    (by decide +kernel) neighbourRequest_unheard rfl (fun _ => entropy 4)
  obtain rfl : proof = neighbourProof.encode := by
    have h := Host.after_step hanswer (fun b => acquainted.node.enqueued b.node) (x := [(0, neighbourProof.encode)])
      (by decide +kernel)
    rw [hproof] at h
    simpa using h
  have hpending : a.node.statusOf neighbourLink = some .pending :=
    Host.after_step hasked (fun a => a.node.statusOf neighbourLink) (by decide +kernel)
  have hproofUnheard : a.node.Unheard neighbourProof.encode := unheard_of_encode (wellFormed_proof _ _ _)
    (Host.after_step hasked (fun a => a.node.seenPackets[neighbourProof.packetHash]?) (by decide +kernel))
  obtain ⟨a', finish, mail, hfinish, hmail, -, hreads⟩ := hsends a [] finishing 0 (entropy 3) .nil hpending hproofUnheard rfl
    (fun _ => entropy 4)
  obtain rfl : mail = neighbourMail.encode := by
    have htwo : ((neighbour.step (fun _ => entropy 4) (.lxmfSendDirect (address 2) [1] [2, 3] fields (entropy 1))).bind fun r =>
        (r.1.step (fun _ => entropy 4) (.node finishing)).map fun r' => r.1.node.enqueued r'.1.node) =
        some [(0, neighbourFinish.encode), (0, neighbourMail.encode)] := by decide +kernel
    rw [hasked, Option.bind_some] at htwo
    have h := Host.after_step hfinish (fun a' => a.node.enqueued a'.node) htwo
    rw [hmail] at h
    exact congrArg Prod.snd (List.cons.inj (List.cons.inj h).2).1
  have hactive : b.node.statusOf neighbourLink = some .active :=
    Host.after_step hanswer (fun b => b.node.statusOf neighbourLink) (by decide +kernel)
  have hmailUnheard : b.node.Unheard neighbourMail.encode := unheard_of_encode (wellFormed_linkContext _ _ _)
    (Host.after_step hanswer (fun b => b.node.seenPackets[neighbourMail.packetHash]?) (by decide +kernel))
  have hmet := acquainted_met.step (l := ⟨.node answering, .unit, [.node (.linkEstablished neighbourLink)]⟩) ⟨_, hanswer⟩
    fun pub hp _ => by
      obtain ⟨op, hop, b, i, rng, p, d, a, hin, hdec, hkind, -⟩ := hp
      obtain rfl := List.mem_singleton.mp hop
      cases hin
      cases (Packet.decode_encode (linkRequestFor_wellFormed _ _)).symm.trans hdec
      cases hkind
  obtain ⟨b', hread⟩ := hreads b [] _ reading none .nil hactive hmet hmailUnheard rfl (fun _ => entropy 4)
  exact ⟨a, b, a', b', hasked, hanswer, hfinish, hread⟩

end

end Reticulum
