import Reticulum.InboundSteps
import Reticulum.ClosedLink

/-!
# What a retry costs

The tick charges a retry to a resource before it knows whether the request can
be sent: that takes entropy and a link entry that has a key.
-/

namespace Reticulum

/-- One member of the list has the property, and no other one. -/
def ExactlyOne {α : Type} (P : α → Prop) (l : List α) : Prop :=
  ∃ pre a post, l = pre ++ a :: post ∧ P a ∧ ∀ b ∈ pre ++ post, ¬ P b

theorem ExactlyOne.of_append {α : Type} {P : α → Prop} {l l' : List α} (hl : ∀ a ∈ l, ¬ P a) (h : ExactlyOne P l') :
    ExactlyOne P (l ++ l') := by
  obtain ⟨pre, a, post, rfl, ha, hrest⟩ := h
  refine ⟨l ++ pre, a, post, by simp, ha, fun b hb => ?_⟩
  rw [List.append_assoc] at hb
  rcases List.mem_append.mp hb with hb | hb
  · exact hl b hb
  · exact hrest b hb

/-- A keyed list in which one key satisfies the property, and that key stands once. -/
theorem ExactlyOne.of_keys {α κ : Type} {P : α → Prop} {f : α → κ} {l : List α} {k : κ} (hnd : (l.map f).Nodup)
    (hmem : k ∈ l.map f) (hP : ∀ a ∈ l, P a ↔ f a = k) : ExactlyOne P l := by
  obtain ⟨a, ha, hk⟩ := List.mem_map.mp hmem
  obtain ⟨pre, post, rfl⟩ := List.append_of_mem ha
  refine ⟨pre, a, post, rfl, (hP a ha).mpr hk, fun b hb hPb => ?_⟩
  have hb' : b ∈ pre ++ a :: post := by
    rcases List.mem_append.mp hb with hb | hb
    · exact List.mem_append_left _ hb
    · exact List.mem_append_right _ (List.mem_cons_of_mem _ hb)
  have hfb : f b = f a := ((hP b hb').mp hPb).trans hk.symm
  rw [List.map_append, List.map_cons, List.nodup_middle, List.nodup_cons] at hnd
  apply hnd.1
  rw [← hfb, ← List.map_append]
  exact List.mem_map_of_mem hb

theorem ExactlyOne.map {α β : Type} {P : β → Prop} {f : α → β} {l : List α} (h : ExactlyOne (fun a => P (f a)) l) :
    ExactlyOne P (l.map f) := by
  obtain ⟨pre, a, post, rfl, ha, hrest⟩ := h
  refine ⟨pre.map f, f a, post.map f, by simp, ha, fun b hb => ?_⟩
  rw [← List.map_append] at hb
  obtain ⟨c, hc, rfl⟩ := List.mem_map.mp hb
  exact hrest c hc

theorem ExactlyOne.exists {α : Type} {P : α → Prop} {l : List α} (h : ExactlyOne P l) : ∃ a ∈ l, P a := by
  obtain ⟨pre, a, post, rfl, ha, -⟩ := h
  exact ⟨a, by simp, ha⟩

namespace Node

variable [Crypto]

/-- The frame is a RESOURCE_REQ for the resource: it opens with the key of the link and names the hash. -/
def AsksFor (n : Node) (key : ResourceKey) (f : UInt16 × Bytes) : Prop :=
  ∃ p k request, Packet.decode f.2 = .ok p ∧ p.packetType = DATA ∧ p.destType = LINK ∧ p.context = RESOURCE_REQ ∧
    p.destHash = key.1.1 ∧ n.linkKey? key.1 = some k ∧ Token.openWithKey k p.data = .ok request ∧
    requestHash request = some key.2

/-- One of the counters of the resource changes. -/
def Charged (r r' : InboundResource) : Prop :=
  r'.retries ≠ r.retries ∨ r'.window ≠ r.window ∨ r'.lastRequest ≠ r.lastRequest

/-- If the resource is charged, one request for it goes out. -/
def ChargedWhenSent (n n' : Node) (key : ResourceKey) : Prop :=
  ∀ r r', n.inboundResources[key]? = some r → n'.inboundResources[key]? = some r' → Charged r r' →
    ExactlyOne (n.AsksFor key) (n.enqueued n')

omit [Crypto] in
/-- A retry is charged exactly when one is due and left. -/
theorem charged_iff {r r' : InboundResource} (hs : r.Sound) {now : Nat} (h : r.afterRetry now = some r') :
    Charged r r' ↔ r.Overdue now ∧ r.retries < MAX_RETRIES := by
  have hr' := InboundResource.afterRetry_eq h
  subst hr'
  by_cases ho : r.Overdue now
  · by_cases hr : r.retries < MAX_RETRIES
    · obtain ⟨_, _, _, heq⟩ := hs.retryDue ho hr
      refine iff_of_true ?_ ⟨ho, hr⟩
      rw [heq]
      exact .inl (Nat.succ_ne_self _)
    · rw [InboundResource.retryDue_exhausted ho (Nat.le_of_not_lt hr)]
      simp [Charged, hr]
  · rw [InboundResource.retryDue_idle ho]
    simp [Charged, ho]

theorem not_asksFor_keepalive {n : Node} {key : ResourceKey} {s : UInt16 × Packet} (hs : s ∈ n.keepalives) :
    ¬ n.AsksFor key (s.1, s.2.encode) := by
  rintro ⟨p, _, _, hdec, -, -, hc, -⟩
  obtain ⟨l, -, rfl⟩ := List.mem_map.mp hs
  cases hdec.symm.trans (Packet.decode_encode (wellFormed_linkContext _ _ _))
  exact absurd hc (by decide : KEEPALIVE ≠ RESOURCE_REQ)

/-- The frame of a retry asks for the resource it was made for, and for no other one. -/
theorem RetryFrame.asksFor_iff (hA : Crypto.AesInverts) {n m : Node} (hm : ∀ id, m.linkKey? id = n.linkKey? id)
    {key key' : ResourceKey} {q : UInt16 × Packet} (hq : m.RetryFrame key' q)
    (hnamed : ∀ r, m.inboundResources[key']? = some r → r.hash = key'.2) :
    n.AsksFor key (q.1, q.2.encode) ↔ key' = key := by
  obtain ⟨r, link, k, request, iv, hr, hreq, hl, hk, rfl⟩ := hq.made
  have hkey : n.linkKey? key'.1 = some k := by
    rw [← hm]
    simp [linkKey?, hl, hk]
  have hdec := Packet.decode_encode (wellFormed_linkContext key'.1 RESOURCE_REQ (Token.sealWithKey k request iv))
  have hname : requestHash request = some key'.2 := by rw [InboundResource.retryRequest_names hreq, hnamed r hr]
  constructor
  · rintro ⟨p, k', request', hdec', -, -, -, hd, hk', hopen, hname'⟩
    cases hdec'.symm.trans hdec
    have hid : key'.1 = key.1 := Subtype.ext hd
    rw [← hid] at hk'
    cases hkey.symm.trans hk'
    cases (Token.openWithKey_sealWithKey hA k request iv).symm.trans hopen
    exact Prod.ext hid (Option.some.inj (hname.symm.trans hname'))
  · rintro rfl
    exact ⟨_, k, request, hdec, rfl, rfl, rfl, rfl, hkey, Token.openWithKey_sealWithKey hA k request iv, hname⟩

variable [Rmp]

/-- The requests a run of the tick body sends for the resource: one if a retry is due, left and can be
sent, and else none. -/
theorem RunsTick.asks (hA : Crypto.AesInverts) {n n' m : Node} {l : Label} {rng : Option Entropy} (hn : n.ResourcesOk)
    (h : n.RunsTick l n' m rng) (key : ResourceKey) :
    (n.asksAgain rng key = true → ExactlyOne (n.AsksFor key) (n.enqueued n')) ∧
      (n.asksAgain rng key = false → ∀ f ∈ n.enqueued n', ¬ n.AsksFor key f) := by
  obtain ⟨hi, hc, hq, hends, -⟩ := h.begins
  have hlink (id : Arr 16) : m.linkKey? id = n.linkKey? id := linkKey_of_linkEnds (hends id)
  have hask : m.asksAgain rng key = n.asksAgain rng key := by simp only [asksAgain, hlink, hi, hc]
  obtain ⟨requests, hex⟩ := m.tickInner_exact rng
  have hn' : n' = (m.tickInner rng).1 := congrArg Prod.fst h.tickInner_eq
  have hout : n.enqueued n' = (m.keepalives ++ requests.map (·.2)).map fun s => (s.1, s.2.encode) := by
    rw [← hex.outbound, hn', enqueued, enqueued, hq]
  have hquiet : ∀ f ∈ m.keepalives.map (fun s => (s.1, s.2.encode)), ¬ n.AsksFor key f := by
    intro f hf
    obtain ⟨s, hs, rfl⟩ := List.mem_map.mp hf
    have hno : ¬ m.AsksFor key (s.1, s.2.encode) := not_asksFor_keepalive hs
    unfold AsksFor at hno ⊢
    simpa only [hlink] using hno
  have hiff : ∀ q ∈ requests, n.AsksFor key (q.2.1, q.2.2.encode) ↔ q.1 = key := fun q hq =>
    (hex.frames q hq).asksFor_iff hA hlink fun r hr => hn.named q.1 r (hi ▸ hr)
  have hmem : key ∈ requests.map (·.1) ↔ n.asksAgain rng key = true := by
    rw [hex.asked, List.mem_filter, hask]
    refine ⟨fun h => h.2, fun h => ⟨?_, h⟩⟩
    rw [asksAgain, Bool.and_eq_true] at h
    obtain ⟨r, hr, -⟩ := (Option.any_eq_true _ _).mp h.2
    rw [Std.ExtTreeMap.mem_keys, Std.ExtTreeMap.mem_iff_isSome_getElem?, hi, hr]
    rfl
  rw [hout, List.map_append, List.map_map]
  constructor
  · intro htrue
    have hnd : (requests.map (·.1)).Nodup := hex.asked ▸ Std.ExtTreeMap.nodup_keys.filter _
    exact .of_append hquiet (ExactlyOne.of_keys hnd (hmem.mpr htrue) hiff).map
  · intro hfalse f hf
    rcases List.mem_append.mp hf with hf | hf
    · exact hquiet f hf
    · obtain ⟨q, hq, rfl⟩ := List.mem_map.mp hf
      rw [Function.comp_apply, hiff q hq]
      rintro rfl
      have := hmem.mp (List.mem_map_of_mem hq)
      rw [hfalse] at this
      cases this

end Node

open Node

section
variable [Crypto] [Rmp] [Bzip2]

theorem retry_charged_when_sent_iff (hA : Crypto.AesInverts) {identity : Identity} {clock : UInt64} {tr : List Label}
    {n n' m : Node} {l : Label} {rng : Option Entropy} (hr : Lts.Run NodeStep (withClock identity clock) tr n)
    (ht : n.RunsTick l n' m rng) (key : ResourceKey) :
    n.ChargedWhenSent n' key ↔
      ∀ r, n.inboundResources[key]? = some r → r.Overdue n.nowSecs → r.retries < MAX_RETRIES →
        rng.isSome = true ∧ (n.linkKey? key.1).isSome = true := by
  have hn := resourcesOk_of_run hr
  obtain ⟨hi, hc, -⟩ := ht.begins
  obtain ⟨hasked, hsilent⟩ := ht.asks hA hn key
  obtain ⟨requests, hex⟩ := m.tickInner_exact rng
  have hn' : n' = (m.tickInner rng).1 := congrArg Prod.fst ht.tickInner_eq
  have hafter : n'.inboundResources[key]? = (n.inboundResources[key]?).bind (InboundResource.afterRetry n.nowSecs) := by
    rw [hn', hex.resources key, hi, hc]
  constructor
  · intro hsent r hget hover hleft
    have hs := (hn.reachable key r hget).sound
    obtain ⟨request, o, w, heq⟩ := hs.retryDue hover hleft
    have hr' : r.afterRetry n.nowSecs = some (r.retryDue n.nowSecs).1 := by simp [InboundResource.afterRetry, heq]
    have hone := hsent r _ hget (by rw [hafter, hget]; exact hr') ((charged_iff hs hr').mpr ⟨hover, hleft⟩)
    obtain ⟨f, hf, hask⟩ := hone.exists
    cases hb : n.asksAgain rng key with
    | true =>
      simp only [asksAgain, Bool.and_eq_true] at hb
      exact hb.1
    | false => exact absurd hask (hsilent hb f hf)
  · intro hcan r r' hget hget' hch
    have hs := (hn.reachable key r hget).sound
    have hr' : r.afterRetry n.nowSecs = some r' := by rwa [hafter, hget] at hget'
    obtain ⟨hover, hleft⟩ := (charged_iff hs hr').mp hch
    obtain ⟨hrng, hkey⟩ := hcan r hget hover hleft
    apply hasked
    have hreq := (hs.retryRequest_isSome n.nowSecs).mpr ⟨hover, hleft⟩
    simp [asksAgain, hrng, hkey, hget, hreq]

end

/-! ## A tick without entropy -/

section
open Sample

theorem tenSecondsLater_run : ∃ tr, Lts.Run NodeStep (withClock (identity 3) 100) tr tenSecondsLater := by
  obtain ⟨tr, hrun⟩ := midway_run
  have hlater : NodeStep midway (.setClock 110, {}) tenSecondsLater := midway.step_setClock 110
  exact ⟨_, hrun.snoc hlater⟩

theorem retry_charged_when_sent_iff_chat :
    tenSecondsLater.ChargedWhenSent (tenSecondsLater.tickWithEntropy (entropy 4)).1 chatResource := by
  obtain ⟨tr, hrun⟩ := tenSecondsLater_run
  have hkey : (tenSecondsLater.linkKey? chatLink).isSome = true := by decide +kernel
  have htick := tenSecondsLater.runsTick_tickWithEntropy (entropy 4)
  exact (retry_charged_when_sent_iff aesInverts hrun htick chatResource).mpr fun _ _ _ _ => ⟨rfl, hkey⟩

/-- The tick after a close of the link charges a retry and sends nothing. -/
theorem retry_charged_unsent : ¬ ∀ (identity : Identity) (clock : UInt64) (tr : List Label) (n n' m : Node) (l : Label)
    (rng : Option Entropy) (key : ResourceKey), Lts.Run NodeStep (withClock identity clock) tr n →
    n.RunsTick l n' m rng → n.ChargedWhenSent n' key := by
  intro h
  obtain ⟨tr, hrun⟩ := tenSecondsLater_run
  have hsent := h _ _ _ _ _ _ _ _ chatResource hrun tenSecondsLater.runsTick_tick
  have hbefore : (tenSecondsLater.inboundResources[chatResource]?).map (·.retries) = some 0 := by decide +kernel
  have hafter : (tenSecondsLater.tick.1.inboundResources[chatResource]?).map (·.retries) = some 1 := by decide +kernel
  have hnone : tenSecondsLater.enqueued tenSecondsLater.tick.1 = [] := by decide +kernel
  obtain ⟨r, hr, h0⟩ := Option.map_eq_some_iff.mp hbefore
  obtain ⟨r', hr', h1⟩ := Option.map_eq_some_iff.mp hafter
  have hcharged : Charged r r' := by
    refine .inl ?_
    rw [h0, h1]
    decide
  obtain ⟨f, hf, -⟩ := (hsent r r' hr hr' hcharged).exists
  rw [hnone] at hf
  cases hf

end

end Reticulum
