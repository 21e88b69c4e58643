import Reticulum.ClosedLink
import Reticulum.InboundSteps
import Reticulum.Replay

/-!
# Activity on a link

What a frame of the peer does to the time of the last activity, and what that
time is worth: no tick within the next twelve minutes finds the link stale.
-/

namespace Reticulum

namespace Node

/-! ## Stale links -/

/-- Whatever entry of the link is Active, it was last active at `t` or later. -/
def ActiveSince (n : Node) (id : Arr 16) (t : Nat) : Prop :=
  ∀ link, n.links[id]? = some link → link.status = .active → t ≤ link.lastActivity

theorem ActiveSince.not_stale {n : Node} {id : Arr 16} {t now : Nat} (h : n.ActiveSince id t) (hnow : now < t + LINK_STALE_SECS) :
    id ∉ n.staleLinks now := by
  intro hmem
  obtain ⟨link, hl, hst⟩ := mem_staleLinks.mp hmem
  have hactive := linkTick_active now (by simp [hst] : linkTick now link ≠ .idle)
  have hlast := h link hl hactive
  have hyoung : ¬ now - link.lastActivity ≥ LINK_STALE_SECS := by
    rw [LINK_STALE_SECS] at hnow ⊢
    omega
  unfold linkTick at hst
  rw [if_neg (by simp [hactive]), if_neg hyoung] at hst
  split at hst <;> cases hst

variable [Crypto]

theorem RunsTick.activeSince {n n' m : Node} {l : Label} {rng : Option Entropy} (h : n.RunsTick l n' m rng) {id : Arr 16}
    {t : Nat} (hn : n.ActiveSince id t) : m.ActiveSince id t := by
  cases h with
  | called => exact hn
  | @closing id' _ _ p link _ hf =>
    intro link' hl hactive
    simp only [closedByPeer_links, admitted_links, Std.ExtTreeMap.getElem?_insert] at hl
    split at hl
    · cases hl
      cases hactive
    · exact hn link' (by simpa using hl) hactive

/-- The step runs the body of the tick, which closes the link as stale. -/
def Stales (n : Node) (l : Label) (n' : Node) (id : Arr 16) : Prop :=
  ∃ m rng, n.RunsTick l n' m rng ∧ id ∈ m.staleLinks m.nowSecs

theorem ActiveSince.not_stales {n n' : Node} {l : Label} {id : Arr 16} {t : Nat} (h : n.ActiveSince id t)
    (hnow : n.nowSecs < t + LINK_STALE_SECS) : ¬ n.Stales l n' id := by
  rintro ⟨m, rng, hrun, hmem⟩
  rw [hrun.begins.2.1] at hmem
  exact (hrun.activeSince h).not_stale hnow hmem

end Node

open Node

section
variable [Crypto] [Rmp] [Bzip2]

/-- A step at `t` or later leaves the link active since `t`. -/
theorem NodeStep.activeSince {n n' : Node} {l : Label} {id : Arr 16} {t : Nat} (hn : n.PendingOk) (h : NodeStep n l n')
    (ht : t ≤ n.nowSecs) (ha : n.ActiveSince id t) : n'.ActiveSince id t := by
  intro link' hl' hactive'
  cases h.linkChange hn id with
  | activity hc =>
    cases hc with
    | kept hl => exact ha link' (hl ▸ hl') hactive'
    | touched _ _ hl =>
      cases hl.symm.trans hl'
      exact ht
    | keepalive hb hact hl =>
      cases hl.symm.trans hl'
      have hold := ha _ hb hact
      exact hold
    | closed _ _ _ hl =>
      cases hl.symm.trans hl'
      cases hactive'
  | requested _ _ _ _ hl =>
    cases hl.symm.trans hl'
    cases hactive'
  | accepted _ _ _ _ _ _ _ _ hl =>
    cases hl.symm.trans hl'
    exact ht
  | proven _ _ _ _ _ _ _ _ hl =>
    cases hl.symm.trans hl'
    exact ht

/-- On a clock that does not go back, no step within twelve minutes of `t` closes the link as stale. -/
theorem never_stale_before {n n' n'' : Node} {tr : List TimedLabel} {l : TimedLabel} {id : Arr 16} {t : Nat} (hn : n.PendingOk)
    (ha : n.ActiveSince id t) (h : Lts.Run TimedStep n tr n') (hst : TimedStep n' l n'')
    (hclock : ∀ l' ∈ tr ++ [l], t ≤ l'.1) (hl : l.1 < t + LINK_STALE_SECS) : ¬ n'.Stales l.2 n'' id := by
  have hrun : Lts.Run (fun m l m' => t ≤ l.1 ∧ TimedStep m l m') n tr n' :=
    h.restrict fun _ l' hl' => hclock l' (List.mem_append_left _ hl')
  have hinv : n'.PendingOk ∧ n'.ActiveSince id t := by
    refine hrun.preserve (I := fun m => m.PendingOk ∧ m.ActiveSince id t) ?_ ⟨hn, ha⟩
    rintro m l' m' ⟨hok, hact⟩ ⟨ht, htime, hstep⟩
    exact ⟨hstep.pendingOk hok, hstep.activeSince hok (htime ▸ ht) hact⟩
  exact hinv.2.not_stales (hst.1 ▸ hl)

/-! ## Frames of the peer -/

namespace Node

/-- The dedup map knows the packet, once it is swept. -/
def Remembers (n : Node) (p : Packet) : Prop := (n.maybePrune n.nowSecs).seenPackets.contains p.packetHash = true

/-- A well-formed frame of the peer: a keepalive, a part that a transfer on the link takes, or a token
that opens. -/
structure PeerFrame (n : Node) (id : Arr 16) (k : Arr 64) (b : Bytes) (p : Packet) : Prop where
  decoded : Packet.decode b = .ok p
  hops : p.hops < PATHFINDER_MAX_HOPS
  kind : p.packetType = DATA
  dest : p.destType = LINK
  linkId : p.destHash = id.1
  traffic : p.context = KEEPALIVE ∨
    p.context = RESOURCE ∧ (∃ (hash : Arr 32) (r : InboundResource), n.inboundResources[(id, hash)]? = some r ∧ (r.onPart p.data).2 = true) ∨
    p.context ≠ RESOURCE ∧ ∃ pt, Token.openWithKey k p.data = .ok pt

/-- The frame counts as activity, which keeps the link from going stale, and a keepalive is answered. -/
structure KeptAlive (n n' : Node) (id : Arr 16) (i : UInt16) (p : Packet) : Prop where
  refreshed : ∃ link, n'.links[id]? = some link ∧ link.lastActivity = n.nowSecs
  lasting : ∀ (tr : List TimedLabel) (l : TimedLabel) (m m' : Node), Lts.Run TimedStep n' tr m → TimedStep m l m' →
    (n.nowSecs :: (tr ++ [l]).map (·.1)).Pairwise (· ≤ ·) → l.1 < n.nowSecs + LINK_STALE_SECS → ¬ m.Stales l.2 m' id
  answered : p.context = KEEPALIVE → p.data = [0xFF] →
    n.enqueued n' = [(i, (Packet.linkDataWithContext id [0xFE] KEEPALIVE).encode)]

variable {n : Node} {id : Arr 16} {i : UInt16} {link : LinkEntry} {k : Arr 64} {b : Bytes} {p : Packet}

theorem handleInboundInner_of_remembers (hf : n.PeerFrame id k b p) (hr : n.Remembers p) (rng : Option Entropy) :
    n.handleInboundInner b i rng = (n.maybePrune n.nowSecs, []) := by
  unfold Remembers at hr
  unfold handleInboundInner admission
  rw [hf.decoded]
  dsimp only
  rw [if_neg (UInt8.not_le.mpr hf.hops), if_pos hr]

omit [Rmp] [Bzip2] in
theorem PeerFrame.admits (hf : n.PeerFrame id k b p) (hr : ¬ n.Remembers p) : n.Admits b p id :=
  ⟨hf.decoded, hf.hops, Bool.eq_false_iff.mpr hr, hf.linkId⟩

/-- A part is no activity. -/
theorem handleLinkData_part_links (ha : n.ActiveOn id i link k) (hc : p.context = RESOURCE) (rng : Option Entropy) :
    (n.handleLinkData p id i rng).1.links = n.links := by
  unfold handleLinkData
  simp only [ha.get, ha.status, ha.interface, ha.key, and_self, not_true_eq_false, if_false]
  rw [if_pos hc]
  exact (handleResourcePart_cases n id i k p.data rng).keepsLinks.links

theorem handleLinkData_keepalive (ha : n.ActiveOn id i link k) (hc : p.context = KEEPALIVE) (rng : Option Entropy) :
    (n.handleLinkData p id i rng).1.links = (n.touch id link).links ∧
      (p.data = [0xFF] → (n.handleLinkData p id i rng).1.outbound =
        n.outbound ++ [(i, (Packet.linkDataWithContext id [0xFE] KEEPALIVE).encode)]) := by
  unfold handleLinkData
  simp only [ha.get, ha.status, ha.interface, ha.key, and_self, not_true_eq_false, if_false]
  rw [hc, if_neg (by decide : KEEPALIVE ≠ RESOURCE), if_pos rfl]
  constructor
  · split <;> rfl
  · intro hdata
    rw [if_pos hdata]
    rfl

theorem handleLinkData_opened (ha : n.ActiveOn id i link k) (hc : p.context ≠ RESOURCE) (hk : p.context ≠ KEEPALIVE)
    {pt : Bytes} (hopen : Token.openWithKey k p.data = .ok pt) (g : Entropy) :
    ∃ link', (n.handleLinkData p id i (some g)).1.links[id]? = some link' ∧ link'.lastActivity = n.nowSecs := by
  have htouched : (n.touch id link).links[id]? = some { link with lastActivity := n.nowSecs } := by simp
  unfold handleLinkData
  simp only [ha.get, ha.status, ha.interface, ha.key, and_self, not_true_eq_false, if_false]
  rw [if_neg hc, if_neg hk, hopen]
  dsimp only
  by_cases hrtt : p.context = LRRTT
  · rw [if_pos hrtt]
    exact ⟨_, htouched, rfl⟩
  · rw [if_neg hrtt]
    by_cases hclose : p.context = LINKCLOSE
    · rw [if_pos hclose]
      split
      · rw [closeLink_touch n id ha.status]
        obtain ⟨_, _, _, -, heq⟩ := tickInner_result (n.closedByPeer id link) none
        rw [tick, heq]
        refine ⟨{ link with status := .closed, lastActivity := n.nowSecs }, ?_, rfl⟩
        simp [tickedLink, linkTick]
      · exact ⟨_, htouched, rfl⟩
    · rw [if_neg hclose]
      split
      · exact ⟨_, htouched, rfl⟩
      · have hkeep : ((n.touch id link).handleResourceContext id i k p.context pt g).1.links = (n.touch id link).links :=
          (handleResourceContext_cases (n.touch id link) id i k p.context pt g).keepsLinks.links
        refine ⟨{ link with lastActivity := n.nowSecs }, ?_, rfl⟩
        rw [hkeep]
        exact htouched

theorem KeptAlive.of_refreshed {n' : Node} (hn : n'.PendingOk)
    (h : ∃ link, n'.links[id]? = some link ∧ link.lastActivity = n.nowSecs)
    (hans : p.context = KEEPALIVE → p.data = [0xFF] →
      n.enqueued n' = [(i, (Packet.linkDataWithContext id [0xFE] KEEPALIVE).encode)]) : KeptAlive n n' id i p := by
  refine ⟨h, ?_, hans⟩
  intro tr l m m' hrun hst hclock hl
  obtain ⟨link, hget, hlast⟩ := h
  have hactive : n'.ActiveSince id n.nowSecs := by
    intro link' hget' _
    cases hget.symm.trans hget'
    exact hlast.ge
  refine never_stale_before hn hactive hrun hst (fun l' hl' => ?_) hl
  exact (List.pairwise_cons.mp hclock).1 _ (List.mem_map_of_mem hl')

end Node

theorem peer_traffic_keeps_alive_iff {identity : Identity} {clock : UInt64} {tr : List Label} {n : Node} {id : Arr 16}
    {i : UInt16} {link : LinkEntry} {k : Arr 64} {b : Bytes} {p : Packet}
    (h : Lts.Run NodeStep (withClock identity clock) tr n) (ha : n.ActiveOn id i link k) (hf : n.PeerFrame id k b p)
    (rng : Entropy) :
    KeptAlive n (n.handleInboundWithEntropy b i rng).1 id i p ↔
      ¬ n.Remembers p ∧ p.context ≠ RESOURCE ∨
        link.lastActivity = n.nowSecs ∧ ¬ (n.Remembers p ∧ p.context = KEEPALIVE ∧ p.data = [0xFF]) := by
  have hok := (n.step_handleInboundWithEntropy b i rng).pendingOk (pendingOk_of_run h)
  have hinner : n.handleInboundWithEntropy b i rng = n.handleInboundInner b i (some rng) := rfl
  rw [hinner] at hok ⊢
  by_cases hr : n.Remembers p
  · -- the frame is dropped
    rw [handleInboundInner_of_remembers hf hr] at hok ⊢
    have hget : (n.maybePrune n.nowSecs).links[id]? = some link := by simpa using ha.get
    have hsilent : n.enqueued (n.maybePrune n.nowSecs) = [] := by simp [enqueued]
    simp only [hr, not_true_eq_false, false_and, false_or, true_and]
    constructor
    · intro hk
      obtain ⟨link', hget', hlast⟩ := hk.refreshed
      cases hget.symm.trans hget'
      refine ⟨hlast, fun hask => ?_⟩
      have hans := hk.answered hask.1 hask.2
      rw [hsilent] at hans
      cases hans
    · rintro ⟨hlast, hask⟩
      exact .of_refreshed hok ⟨link, hget, hlast⟩ fun hc hdata => absurd ⟨hc, hdata⟩ hask
  · have hadm := hf.admits hr
    have ha' : (n.admitted p).ActiveOn id i link k := ⟨by simpa using ha.get, ha.status, ha.interface, ha.key⟩
    have hnow : (n.admitted p).nowSecs = n.nowSecs := nowSecs_admitted n p
    rw [handleInboundInner_of_admits hadm, dispatch_linkData (by exact hf.kind) (by exact hf.dest)] at hok ⊢
    simp only [hr, not_false_eq_true, true_and, false_and, and_true]
    by_cases hc : p.context = RESOURCE
    · have hlinks := handleLinkData_part_links (p := received p) ha' hc (some rng)
      have hget : ((n.admitted p).handleLinkData (received p) id i (some rng)).1.links[id]? = some link := by
        rw [hlinks]
        exact ha'.get
      simp only [hc, ne_eq, not_true_eq_false, false_or]
      constructor
      · intro hk
        obtain ⟨link', hget', hlast⟩ := hk.refreshed
        cases hget.symm.trans hget'
        exact hlast
      · intro hlast
        exact .of_refreshed hok ⟨link, hget, hlast⟩ fun hka => absurd (hc.symm.trans hka) (by decide)
    · simp only [hc, ne_eq, not_false_eq_true, true_or, iff_true]
      by_cases hka : p.context = KEEPALIVE
      · obtain ⟨hlinks, hans⟩ := handleLinkData_keepalive (p := received p) ha' hka (some rng)
        refine .of_refreshed hok ⟨{ link with lastActivity := n.nowSecs }, ?_, rfl⟩ fun _ hdata => ?_
        · rw [hlinks, touch_links, hnow]
          simp
        · refine enqueued_of_append ((hans hdata).trans ?_)
          simp
      · obtain ⟨pt, hopen⟩ : ∃ pt, Token.openWithKey k p.data = .ok pt := by
          rcases hf.traffic with h | ⟨h, -⟩ | ⟨-, h⟩
          · exact absurd h hka
          · exact absurd h hc
          · exact h
        obtain ⟨link', hget, hlast⟩ := handleLinkData_opened (p := received p) ha' hc hka hopen rng
        exact .of_refreshed hok ⟨link', hget, hlast.trans hnow⟩ fun hka' => absurd hka' hka

end

/-! ## Two keepalives within a minute -/

section
open Sample

/-- What an initiator sends to ask whether the link lives. -/
def ping : Packet := Packet.linkDataWithContext chatLink [0xFF] KEEPALIVE

theorem decode_ping : Packet.decode ping.encode = .ok ping := Packet.decode_encode (wellFormed_linkContext _ _ _)

/-- Two keepalives ten seconds apart; the second one is still to be handled. -/
def pinged : Node := (withClock (identity 3) 100).after
  (linkedOps ++ [.setClock 110, .handleInboundWithEntropy ping.encode 0 (entropy 3), .setClock 120])

theorem peer_frame_ping (n : Node) (k : Arr 64) : n.PeerFrame chatLink k ping.encode ping :=
  ⟨decode_ping, by decide, rfl, rfl, rfl, .inl rfl⟩

theorem peer_traffic_keeps_alive_iff_ping :
    KeptAlive linked (linked.handleInboundWithEntropy ping.encode 0 (entropy 3)).1 chatLink 0 ping := by
  obtain ⟨tr, hrun, -⟩ := linked_run
  have hread : (linked.links[chatLink]?).map (fun link => (link.status, link.interface, link.derivedKey)) =
      some (.active, 0, some chatKey) := by decide +kernel
  obtain ⟨link, hget, hfields⟩ := Option.map_eq_some_iff.mp hread
  simp only [Prod.mk.injEq] at hfields
  have hfresh : ¬ linked.Remembers ping := by
    unfold Remembers
    decide +kernel
  exact (peer_traffic_keeps_alive_iff hrun ⟨hget, hfields.1, hfields.2.1, hfields.2.2⟩ (peer_frame_ping _ _) (entropy 3)).mpr
    (.inl ⟨hfresh, by decide⟩)

/-- The second keepalive is dropped as a duplicate of the first. -/
theorem peer_traffic_ignored : ¬ ∀ (identity : Identity) (clock : UInt64) (tr : List Label) (n : Node) (id : Arr 16)
    (i : UInt16) (link : LinkEntry) (k : Arr 64) (b : Bytes) (p : Packet) (rng : Entropy),
    Lts.Run NodeStep (withClock identity clock) tr n → n.ActiveOn id i link k → n.PeerFrame id k b p →
    KeptAlive n (n.handleInboundWithEntropy b i rng).1 id i p := by
  intro h
  obtain ⟨tr, hrun, -⟩ : ∃ tr, Lts.Run NodeStep (withClock (identity 3) 100) tr pinged ∧ _ := after_run (by decide +kernel)
  have hnow : pinged.nowSecs = 120 := by decide +kernel
  have hread : (pinged.links[chatLink]?).map (fun link => (link.status, link.interface, link.derivedKey)) =
      some (.active, 0, some chatKey) := by decide +kernel
  have hafter : ((pinged.handleInboundWithEntropy ping.encode 0 (entropy 4)).1.links[chatLink]?).map (·.lastActivity) =
      some 110 := by decide +kernel
  obtain ⟨link, hget, hfields⟩ := Option.map_eq_some_iff.mp hread
  simp only [Prod.mk.injEq] at hfields
  obtain ⟨link', hget', hlast⟩ := (h _ _ _ _ _ _ _ _ _ _ (entropy 4) hrun
    ⟨hget, hfields.1, hfields.2.1, hfields.2.2⟩ (peer_frame_ping pinged chatKey)).refreshed
  rw [hget', Option.map_some, Option.some.injEq, hlast, hnow] at hafter
  exact absurd hafter (by decide)

end

end Reticulum
