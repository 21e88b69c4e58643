import Reticulum.ClosedLink
import Reticulum.InboundSteps
import Reticulum.Lib.Spaced
import Reticulum.Replay

/-!
# The end of a transfer that gets no answer

Every pass of the tick at least two seconds after the last request charges a
retry, and the one after the last retry fails the transfer. The timer runs only
once a request was made, and it counts from a clock that may be ahead.
-/

namespace Reticulum

namespace InboundResource

/-- What a pass of the retry loop does to the resource. -/
theorem Sound.afterRetry {r : InboundResource} (hs : r.Sound) (now : Nat) :
    (¬ r.Overdue now ∧ r.afterRetry now = some r) ∨
    (r.Overdue now ∧ r.retries < MAX_RETRIES ∧ ∃ r', r.afterRetry now = some r' ∧ r'.retries = r.retries + 1 ∧
      r'.lastRequest = now ∧ r'.isComplete = r.isComplete) ∨
    (r.Overdue now ∧ r.retries = MAX_RETRIES ∧ r.afterRetry now = none) := by
  unfold InboundResource.afterRetry
  by_cases ho : r.Overdue now
  · by_cases hr : r.retries < MAX_RETRIES
    · obtain ⟨_, _, _, heq⟩ := hs.retryDue ho hr
      rw [heq]
      exact .inr (.inl ⟨ho, hr, _, rfl, rfl, rfl, rfl⟩)
    · rw [retryDue_exhausted ho (Nat.le_of_not_lt hr)]
      exact .inr (.inr ⟨ho, Nat.le_antisymm hs.retries (Nat.le_of_not_lt hr), rfl⟩)
  · rw [retryDue_idle ho]
    exact .inl ⟨ho, rfl⟩

end InboundResource

section
variable [Crypto] [Rmp] [Bzip2]

namespace Node

/-- A frame about the resource arrives: a part it takes, a map update, an advertisement or a cancel that
names it. -/
def Addressed (n : Node) (l : Label) (key : ResourceKey) : Prop :=
  ∃ i rng p link k, n.LinkFrame l key.1 i rng p link k ∧
    (p.context = RESOURCE ∧ (∃ r, n.inboundResources[key]? = some r ∧ (r.onPart p.data).2 = true) ∨
      ∃ pt, Token.openWithKey k p.data = .ok pt ∧
        (p.context = RESOURCE_ADV ∧ (∃ a, ResourceAdvertisement.unpack pt = .ok a ∧ a.h = key.2.1) ∨
          (p.context = RESOURCE_HMU ∨ p.context = RESOURCE_ICL ∨ p.context = RESOURCE_RCL) ∧
            Arr.slice? pt 0 32 = some key.2))

/-- A step in which no frame about the resource arrives, with the time it is taken at. -/
def QuietStep (key : ResourceKey) (n : Node) (l : TimedLabel) (n' : Node) : Prop :=
  TimedStep n l n' ∧ ¬ n.Addressed l.2 key

/-- The times of the calls of `tick_with_entropy`. -/
def tickTimes (tr : List TimedLabel) : List Nat :=
  (tr.filter fun l => (l.2.1.tick?.join).isSome).map (·.1)

/-- Without frames about it, 18 ticks two seconds apart, on a clock that does not go back, end the
transfer with one failure. -/
def EndsInTime (n : Node) (key : ResourceKey) : Prop :=
  ∀ (tr : List TimedLabel) (n' : Node), Lts.Run (QuietStep key) n tr n' → (n.nowSecs :: tr.map (·.1)).Pairwise (· ≤ ·) →
    (∃ ts : List Nat, ts.Sublist (tickTimes tr) ∧ ts.length = MAX_RETRIES + 2 ∧
      ts.Pairwise (· + REQUEST_TIMEOUT_SECS ≤ ·)) →
    n'.inboundResources[key]? = none ∧ (eventsOf (tr.map (·.2))).count (.resourceFailed key.1 key.2) = 1

omit [Crypto] [Rmp] [Bzip2] in
theorem count_failed {key : ResourceKey} (events : List Event) :
    events.count (.resourceFailed key.1 key.2) = (eventsFor key events).count (.resourceFailed key.1 key.2) := by
  unfold eventsFor
  rw [List.count_filter]
  simp [Event.resource?]

/-- A quiet step leaves the resource alone or runs the tick. -/
theorem QuietStep.change {key : ResourceKey} {n n' : Node} {l : TimedLabel} (hn : n.ResourcesOk) (h : QuietStep key n l n') :
    (l.2.1.tick? = none ∧ n'.inboundResources[key]? = n.inboundResources[key]? ∧
      l.2.2.events.count (.resourceFailed key.1 key.2) = 0) ∨
    (n'.inboundResources[key]? = (n.inboundResources[key]?).bind (InboundResource.afterRetry n.nowSecs) ∧
      l.2.2.events.count (.resourceFailed key.1 key.2) = if n.expiring key then 1 else 0) := by
  have hticked {m : Node} {rng : Option Entropy} (hr : n.RunsTick l.2 n' m rng) :
      n'.inboundResources[key]? = (n.inboundResources[key]?).bind (InboundResource.afterRetry n.nowSecs) ∧
        l.2.2.events.count (.resourceFailed key.1 key.2) = if n.expiring key then 1 else 0 := by
    obtain ⟨hres, hev⟩ := hr.ticked hn.pending key
    refine ⟨hres, ?_⟩
    rw [count_failed, hev]
    split <;> simp
  cases htick : l.2.1.tick? with
  | some rng => exact .inr (hticked (h.1.2.runsTick htick))
  | none =>
    cases h.1.2.inboundChange hn.pending key with
    | kept hk he => exact .inl ⟨rfl, hk, by rw [count_failed, he]; rfl⟩
    | proven _ hk he => exact .inl ⟨rfl, hk, by rw [count_failed, he]; simp⟩
    | ticked hr => exact .inr (hticked hr)
    | @frame i rng p link k hl hf =>
      have hnamed {pt : Bytes} (hopen : Token.openWithKey k p.data = .ok pt)
          (hc : p.context = RESOURCE_HMU ∨ p.context = RESOURCE_ICL ∨ p.context = RESOURCE_RCL)
          (hslice : Arr.slice? pt 0 32 = some key.2) : False :=
        h.2 ⟨i, rng, p, link, k, hl, .inr ⟨pt, hopen, .inr ⟨hc, hslice⟩⟩⟩
      have htaken {r : InboundResource} (hc : p.context = RESOURCE) (hr : n.inboundResources[key]? = some r)
          (hacc : (r.onPart p.data).2 = true) : False :=
        h.2 ⟨i, rng, p, link, k, hl, .inl ⟨hc, r, hr, hacc⟩⟩
      cases hf with
      | kept hk he => exact .inl ⟨rfl, hk, by rw [count_failed, he]; rfl⟩
      | @started a r pt _ _ hc _ hopen hun hfrom hhash =>
        obtain ⟨hash, _, hh, -, -, -, -, rfl, -⟩ := InboundResource.fromAdvertisement_ok hfrom
        exact (h.2 ⟨i, rng, p, link, k, hl, .inr ⟨pt, hopen, .inl ⟨hc, a, hun, hhash ▸ hh⟩⟩⟩).elim
      | updated _ hc _ hopen hslice => exact (hnamed hopen (.inl hc) hslice).elim
      | cancelled _ hc _ hopen hslice => exact (hnamed hopen (.inr hc) hslice).elim
      | progressed _ hc hr hacc => exact (htaken hc hr hacc).elim
      | ended _ hc hr hacc => exact (htaken hc hr hacc).elim

/-- A resource that is gone stays away, and no failure is told any more. -/
theorem gone_quiet {key : ResourceKey} {n n' : Node} {tr : List TimedLabel} (hn : n.ResourcesOk)
    (h : Lts.Run (QuietStep key) n tr n') (hgone : n.inboundResources[key]? = none) :
    n'.inboundResources[key]? = none ∧ (eventsOf (tr.map (·.2))).count (.resourceFailed key.1 key.2) = 0 := by
  let Gone (tr : List TimedLabel) (m : Node) : Prop := m.ResourcesOk ∧ m.inboundResources[key]? = none ∧
    (eventsOf (tr.map (·.2))).count (.resourceFailed key.1 key.2) = 0
  have hi : Gone tr n' := by
    refine h.history ⟨hn, hgone, rfl⟩ fun tr t l u hi hst => ⟨hst.1.2.resourcesOk hi.1, ?_⟩
    obtain ⟨hok, hnone, hcount⟩ := hi
    rw [List.map_append, List.map_singleton, eventsOf_snoc, List.count_append, hcount, Nat.zero_add]
    rcases hst.change hok with ⟨-, hk, he⟩ | ⟨hk, he⟩
    · exact ⟨hk.trans hnone, he⟩
    · rw [hk, he, hnone]
      exact ⟨rfl, by simp [expiring, hnone]⟩
  exact hi.2

omit [Crypto] [Rmp] [Bzip2] in
theorem expiring_iff {n : Node} {key : ResourceKey} {r : InboundResource} (hr : n.inboundResources[key]? = some r) :
    n.expiring key = (r.afterRetry n.nowSecs).isNone := by
  simp [expiring, hr]

omit [Crypto] [Rmp] [Bzip2] in
theorem tickTimes_cons (l : TimedLabel) (tr : List TimedLabel) :
    tickTimes (l :: tr) = (if (l.2.1.tick?.join).isSome then [l.1] else []) ++ tickTimes tr := by
  unfold tickTimes
  rw [List.filter_cons]
  split <;> rfl

/-- The time left: 17 passes less the retries charged, each at a time when the last request is two seconds old. -/
def LeftTicks (r : InboundResource) (ts : List Nat) : Nat := (ts.filter (r.lastRequest + REQUEST_TIMEOUT_SECS ≤ ·)).length

omit [Crypto] [Rmp] [Bzip2] in
theorem leftTicks_cons (r : InboundResource) (t : Nat) (ts : List Nat) :
    LeftTicks r (t :: ts) = LeftTicks r ts + if r.lastRequest + REQUEST_TIMEOUT_SECS ≤ t then 1 else 0 := by
  unfold LeftTicks
  rw [List.filter_cons]
  by_cases h : r.lastRequest + REQUEST_TIMEOUT_SECS ≤ t <;> simp [h]

/-- With enough ticks ahead the transfer ends, by induction on the run. -/
theorem ends_of_enough {key : ResourceKey} {tr : List TimedLabel} {n n' : Node} {r : InboundResource} {ts : List Nat}
    (h : Lts.Run (QuietStep key) n tr n') (hn : n.ResourcesOk) (hr : n.inboundResources[key]? = some r)
    (hc : r.isComplete = false) (harmed : r.lastRequest ≠ 0) (hclock : (tr.map (·.1)).Pairwise (· ≤ ·))
    (hsub : ts.Sublist (tickTimes tr)) (hts : ts.Pairwise (· + REQUEST_TIMEOUT_SECS ≤ ·))
    (henough : MAX_RETRIES + 1 ≤ LeftTicks r ts + r.retries) :
    n'.inboundResources[key]? = none ∧ (eventsOf (tr.map (·.2))).count (.resourceFailed key.1 key.2) = 1 := by
  induction tr generalizing n r ts with
  | nil =>
    have hnil : ts = [] := List.sublist_nil.mp hsub
    have := (hn.reachable key r hr).sound.retries
    subst hnil
    simp only [LeftTicks, List.filter_nil, List.length_nil] at henough
    omega
  | cons l tr ih =>
    obtain ⟨m, hst, hrun⟩ := h.cons_inv
    have hm := hst.1.2.resourcesOk hn
    obtain ⟨hafter, hclock⟩ := List.pairwise_cons.mp hclock
    have hlate : ∀ t ∈ ts, n.nowSecs ≤ t := by
      intro t ht
      rw [← hst.1.1]
      have hmem := hsub.subset ht
      rw [tickTimes, List.mem_map] at hmem
      obtain ⟨l', hl', rfl⟩ := hmem
      rcases List.mem_cons.mp (List.mem_filter.mp hl').1 with rfl | hl'
      · exact Nat.le_refl _
      · exact hafter _ (List.mem_map_of_mem hl')
    rw [List.map_cons, eventsOf_cons, List.count_append]
    -- the ticks after this step
    obtain ⟨ts', hsub', hts', hdrop⟩ : ∃ ts' : List Nat, ts'.Sublist (tickTimes tr) ∧
        ts'.Pairwise (· + REQUEST_TIMEOUT_SECS ≤ ·) ∧
        (ts' = ts ∨ (l.2.1.tick?.join).isSome = true ∧ ts = n.nowSecs :: ts') := by
      rw [tickTimes_cons] at hsub
      split at hsub
      · rename_i htick
        rw [List.singleton_append] at hsub
        cases hsub with
        | cons _ hsub => exact ⟨ts, hsub, hts, .inl rfl⟩
        | @cons_cons ts' _ _ hsub =>
          exact ⟨ts', hsub, (List.pairwise_cons.mp hts).2, .inr ⟨htick, by rw [hst.1.1]⟩⟩
      · exact ⟨ts, hsub, hts, .inl rfl⟩
    have hquiet (hget : m.inboundResources[key]? = some r) (hno : l.2.1.tick? = none ∨ ¬ r.Overdue n.nowSecs)
        (hcount : l.2.2.events.count (.resourceFailed key.1 key.2) = 0) :
        n'.inboundResources[key]? = none ∧ l.2.2.events.count (.resourceFailed key.1 key.2) +
          (eventsOf (tr.map (·.2))).count (.resourceFailed key.1 key.2) = 1 := by
      rw [hcount, Nat.zero_add]
      refine ih hrun hm hget hc harmed hclock hsub' hts' ?_
      rcases hdrop with rfl | ⟨htick, rfl⟩
      · exact henough
      · rcases hno with hno | hno
        · rw [hno] at htick
          cases htick
        · have hyoung : ¬ r.lastRequest + REQUEST_TIMEOUT_SECS ≤ n.nowSecs := fun hle => hno ⟨harmed, by omega, hc⟩
          rwa [leftTicks_cons, if_neg hyoung] at henough
    rcases hst.change hn with ⟨hno, hk, he⟩ | ⟨hk, he⟩
    · exact hquiet (hk.trans hr) (.inl hno) he
    · rw [hr, Option.bind_some] at hk
      rw [expiring_iff hr] at he
      rcases (hn.reachable key r hr).sound.afterRetry n.nowSecs with ⟨hno, hret⟩ | ⟨ho, hleft, r', hret, hretries, hlast, hc'⟩ |
        ⟨ho, hmax, hret⟩
      · exact hquiet (hk.trans hret) (.inr hno) (by rw [he, hret]; rfl)
      · have hcount : l.2.2.events.count (.resourceFailed key.1 key.2) = 0 := by
          rw [he, hret]
          rfl
        rw [hcount, Nat.zero_add]
        have hpos : r'.lastRequest ≠ 0 := by
          have := ho.2.1
          rw [REQUEST_TIMEOUT_SECS] at this
          omega
        refine ih hrun hm (hk.trans hret) (hc'.trans hc) hpos hclock hsub' hts' ?_
        have hfew : LeftTicks r ts ≤ ts.length := List.length_filter_le _ _
        -- of the ticks ahead at most one comes within two seconds of this one
        have hlen : ts.length ≤ LeftTicks r' ts' + 1 := by
          rw [LeftTicks, hlast]
          rcases hdrop with rfl | ⟨-, rfl⟩
          · exact Spaced.length_le_filter hts' hlate 1
          · exact Nat.succ_le_succ (Spaced.length_le_filter hts' (List.pairwise_cons.mp hts).1 0)
        omega
      · have hcount : l.2.2.events.count (.resourceFailed key.1 key.2) = 1 := by
          rw [he, hret]
          rfl
        obtain ⟨hgone, hzero⟩ := gone_quiet hm hrun (hk.trans hret)
        exact ⟨hgone, by rw [hcount, hzero]⟩

/-! ## Too few ticks -/

theorem quiet_tick_at {key : ResourceKey} {n : Node} (hn : n.ResourcesOk) (now : UInt64) (rng : Entropy) :
    ∃ m events, Lts.Run (QuietStep key) n
        [(n.nowSecs, .setClock now, {}), (now.toNat, .tickWithEntropy rng, { events := events })] m ∧
      m.ResourcesOk ∧ m.nowSecs = now.toNat ∧
      m.inboundResources[key]? = (n.inboundResources[key]?).bind (InboundResource.afterRetry now.toNat) := by
  have hset : QuietStep key n (n.nowSecs, .setClock now, {}) { n with clock := now } := by
    refine ⟨⟨rfl, n.step_setClock now⟩, ?_⟩
    rintro ⟨_, _, _, _, _, ⟨⟨_, hop, -⟩, -, -, -⟩, -⟩
    cases hop
  generalize hlater : ({ n with clock := now } : Node) = later at hset
  have hnow : later.nowSecs = now.toNat := by rw [← hlater]; rfl
  have hres : later.inboundResources = n.inboundResources := by rw [← hlater]
  have hlok := hset.1.2.resourcesOk hn
  have hstep := later.step_tickWithEntropy rng
  refine ⟨(later.tickWithEntropy rng).1, (later.tickWithEntropy rng).2, .cons hset (.single ⟨⟨hnow.symm, hstep⟩, ?_⟩),
    hstep.resourcesOk hlok, ?_, ?_⟩
  · rintro ⟨_, _, _, _, _, ⟨⟨_, hop, -⟩, -, -, -⟩, -⟩
    cases hop
  · have hclock := (tickInner_sameRoutes later (some rng)).clock
    exact (congrArg UInt64.toNat hclock).trans hnow
  · rw [← hnow, ← hres]
    exact ((later.runsTick_tickWithEntropy rng).ticked hlok.pending key).1

/-- A timer that is not armed, or that the ticks ahead do not wear out. -/
def Outlasts (r : InboundResource) (ts : List Nat) : Prop := r.lastRequest = 0 ∨ LeftTicks r ts + r.retries ≤ MAX_RETRIES

/-- Ticks that do not wear the timer out leave the resource in place, by induction on the ticks. -/
theorem still_there {key : ResourceKey} {n : Node} {r : InboundResource} {ts : List Nat} (hn : n.ResourcesOk)
    (hr : n.inboundResources[key]? = some r) (hlast : Outlasts r ts) (hts : ts.Pairwise (· + REQUEST_TIMEOUT_SECS ≤ ·))
    (hclock : ∀ t ∈ ts, n.nowSecs ≤ t ∧ t < 2 ^ 64) :
    ∃ (tr : List TimedLabel) (n' : Node), Lts.Run (QuietStep key) n tr n' ∧
      (n.nowSecs :: tr.map (·.1)).Pairwise (· ≤ ·) ∧ tickTimes tr = ts ∧ n'.inboundResources[key]? ≠ none := by
  induction ts generalizing n r with
  | nil => exact ⟨[], n, .nil, by simp, rfl, by simp [hr]⟩
  | cons t ts ih =>
    obtain ⟨hnext, hts⟩ := List.pairwise_cons.mp hts
    obtain ⟨hle, hlt⟩ := hclock t List.mem_cons_self
    have ht : (UInt64.ofNat t).toNat = t := UInt64.toNat_ofNat_of_lt' hlt
    obtain ⟨m, events, hrun, hm, hnow, (hres : m.inboundResources[key]? = _)⟩ :=
      quiet_tick_at hn (UInt64.ofNat t) fun _ => 0
    rw [ht] at hrun hnow hres
    rw [hr, Option.bind_some] at hres
    have hgo {r' : InboundResource} (hr' : m.inboundResources[key]? = some r') (hlast' : Outlasts r' ts) :
        ∃ (tr : List TimedLabel) (n' : Node), Lts.Run (QuietStep key) n tr n' ∧
          (n.nowSecs :: tr.map (·.1)).Pairwise (· ≤ ·) ∧ tickTimes tr = t :: ts ∧ n'.inboundResources[key]? ≠ none := by
      have hafter : ∀ a ∈ ts, m.nowSecs ≤ a ∧ a < 2 ^ 64 := by
        intro a ha
        have := hnext a ha
        exact ⟨by omega, (hclock a (List.mem_cons_of_mem _ ha)).2⟩
      obtain ⟨tr, n', hrun', hmono, htimes, hget⟩ := ih hm hr' hlast' hts hafter
      refine ⟨_, n', hrun.append hrun', ?_, ?_, hget⟩
      · rw [hnow] at hmono
        rw [List.map_append, List.map_cons, List.map_singleton, List.cons_append, List.cons_append, List.nil_append,
          List.pairwise_cons, List.pairwise_cons]
        have hfrom : ∀ a ∈ t :: tr.map (·.1), n.nowSecs ≤ a := by
          intro a ha
          rcases List.mem_cons.mp ha with rfl | ha
          · exact hle
          · exact Nat.le_trans hle ((List.pairwise_cons.mp hmono).1 a ha)
        refine ⟨fun a ha => ?_, hfrom, hmono⟩
        rcases List.mem_cons.mp ha with rfl | ha
        · exact Nat.le_refl _
        · exact hfrom a ha
      · rw [← htimes]
        rfl
    rcases (hn.reachable key r hr).sound.afterRetry t with ⟨-, hret⟩ | ⟨ho, -, r', hret, hretries, hlast', -⟩ | ⟨ho, hmax, -⟩
    · refine hgo (hres.trans hret) (hlast.imp_right fun hfew => ?_)
      rw [leftTicks_cons] at hfew
      omega
    · refine hgo (hres.trans hret) (.inr ?_)
      rcases hlast with hzero | hfew
      · exact absurd hzero ho.1
      · have hdue : r.lastRequest + REQUEST_TIMEOUT_SECS ≤ t := by
          have hdue := ho.2.1
          rw [REQUEST_TIMEOUT_SECS] at hdue ⊢
          omega
        have hsame : LeftTicks r' ts ≤ LeftTicks r ts := Spaced.filter_length_mono (by omega)
        rw [leftTicks_cons, if_pos hdue] at hfew
        omega
    · -- the last retry is charged, and this tick is one more that counts
      rcases hlast with hzero | hfew
      · exact absurd hzero ho.1
      · have hdue : r.lastRequest + REQUEST_TIMEOUT_SECS ≤ t := by
          have hdue := ho.2.1
          rw [REQUEST_TIMEOUT_SECS] at hdue ⊢
          omega
        rw [leftTicks_cons, if_pos hdue] at hfew
        omega

/-- The timer is armed, for a time that the ticks reach early enough. -/
def TimerRuns (n : Node) (r : InboundResource) : Prop :=
  r.lastRequest ≠ 0 ∧ r.lastRequest ≤ n.nowSecs + REQUEST_TIMEOUT_SECS * r.retries

omit [Crypto] [Rmp] [Bzip2] in
theorem TimerRuns.enough {n : Node} {r : InboundResource} (h : n.TimerRuns r) {ts : List Nat} (hlen : ts.length = MAX_RETRIES + 2)
    (hts : ts.Pairwise (· + REQUEST_TIMEOUT_SECS ≤ ·)) (hfrom : ∀ t ∈ ts, n.nowSecs ≤ t) :
    MAX_RETRIES + 1 ≤ LeftTicks r ts + r.retries := by
  have hle := Spaced.length_le_filter hts hfrom (r.retries + 1)
  have hmono : (ts.filter (n.nowSecs + REQUEST_TIMEOUT_SECS * (r.retries + 1) ≤ ·)).length ≤ LeftTicks r ts := by
    refine Spaced.filter_length_mono ?_
    have := h.2
    rw [Nat.mul_succ]
    omega
  omega

omit [Crypto] [Rmp] [Bzip2] in
theorem outlasts_ticks {n : Node} {r : InboundResource} (h : ¬ n.TimerRuns r) (hs : r.Sound) :
    Outlasts r (Spaced.ticks REQUEST_TIMEOUT_SECS n.nowSecs (MAX_RETRIES + 2)) := by
  by_cases h0 : r.lastRequest = 0
  · exact .inl h0
  · refine .inr ?_
    have hlate : n.nowSecs + REQUEST_TIMEOUT_SECS * r.retries < r.lastRequest := Nat.lt_of_not_le fun hle => h ⟨h0, hle⟩
    have hcount : LeftTicks r (Spaced.ticks REQUEST_TIMEOUT_SECS n.nowSecs (MAX_RETRIES + 2)) ≤
        MAX_RETRIES + 2 - (r.retries + 1 + 1) := by
      refine Spaced.length_filter_ticks_le ?_ _
      rw [Nat.mul_succ]
      omega
    have := hs.retries
    omega

theorem not_endsInTime {n : Node} {key : ResourceKey} {r : InboundResource} (hn : n.ResourcesOk)
    (hr : n.inboundResources[key]? = some r) (hno : ¬ n.TimerRuns r)
    (hroom : n.nowSecs + REQUEST_TIMEOUT_SECS * (MAX_RETRIES + 1) < 2 ^ 64) : ¬ n.EndsInTime key := by
  intro hends
  have hbound : ∀ t ∈ Spaced.ticks REQUEST_TIMEOUT_SECS n.nowSecs (MAX_RETRIES + 2), n.nowSecs ≤ t ∧ t < 2 ^ 64 := by
    intro t ht
    obtain ⟨j, hj, rfl⟩ := List.mem_map.mp ht
    have hle := Nat.mul_le_mul_left REQUEST_TIMEOUT_SECS (Nat.le_of_lt_succ (List.mem_range.mp hj))
    omega
  obtain ⟨tr, n', hrun, hmono, htimes, hget⟩ := still_there hn hr
    (outlasts_ticks hno (hn.reachable key r hr).sound) (Spaced.ticks_spaced _ _ _) hbound
  exact hget (hends tr n' hrun hmono ⟨_, by rw [htimes], Spaced.length_ticks _ _ _, Spaced.ticks_spaced _ _ _⟩).1

end Node

open Node

theorem unanswered_transfer_ends_iff {identity : Identity} {clock : UInt64} {tr : List Label} {n : Node}
    {key : ResourceKey} {r : InboundResource} (h : Lts.Run NodeStep (withClock identity clock) tr n)
    (hr : n.inboundResources[key]? = some r) (hc : r.isComplete = false) :
    n.EndsInTime key ↔ n.TimerRuns r ∨ 2 ^ 64 ≤ n.nowSecs + REQUEST_TIMEOUT_SECS * (MAX_RETRIES + 1) := by
  have hn := resourcesOk_of_run h
  constructor
  · intro hends
    by_contra hno
    obtain ⟨hno, hroom⟩ := not_or.mp hno
    exact not_endsInTime hn hr hno (Nat.lt_of_not_le hroom) hends
  · rintro hcond tr' n' hrun hmono ⟨ts, hsub, hlen, hts⟩
    obtain ⟨hfrom, hmono⟩ := List.pairwise_cons.mp hmono
    have hmem : ∀ t ∈ ts, ∃ l ∈ tr', t = l.1 := by
      intro t ht
      have hmem := hsub.subset ht
      rw [tickTimes, List.mem_map] at hmem
      obtain ⟨l, hl, rfl⟩ := hmem
      exact ⟨l, (List.mem_filter.mp hl).1, rfl⟩
    have hlate : ∀ t ∈ ts, n.nowSecs ≤ t := by
      intro t ht
      obtain ⟨l, hl, rfl⟩ := hmem t ht
      exact hfrom _ (List.mem_map_of_mem hl)
    rcases hcond with htimer | hroom
    · exact ends_of_enough hrun hn hr hc htimer.1 hmono hsub hts (htimer.enough hlen hts hlate)
    · -- the clock has no room for so many ticks
      have hcount := Spaced.length_le_filter hts hlate (MAX_RETRIES + 1)
      have hpos : 0 < (ts.filter (n.nowSecs + REQUEST_TIMEOUT_SECS * (MAX_RETRIES + 1) ≤ ·)).length := by omega
      obtain ⟨t, ht⟩ := List.exists_mem_of_length_pos hpos
      obtain ⟨ht, hge⟩ := List.mem_filter.mp ht
      obtain ⟨l, hl, rfl⟩ := hmem t ht
      obtain ⟨_, _, m, _, -, -, hst, -⟩ := hrun.mem_step hl
      have hlt : l.1 < 2 ^ 64 := hst.1.1 ▸ m.clock.toNat_lt
      rw [decide_eq_true_eq] at hge
      omega

end

/-! ## An advertisement without map entries -/

section
open Node Sample

theorem unanswered_transfer_ends_iff_chat : midway.EndsInTime chatResource := by
  obtain ⟨tr, hrun⟩ := midway_run
  have hread : (midway.inboundResources[chatResource]?).map (fun r => (r.isComplete, r.lastRequest)) = some (false, 100) := by
    decide +kernel
  obtain ⟨r, hr, hfields⟩ := Option.map_eq_some_iff.mp hread
  obtain ⟨hc, hlast⟩ := Prod.mk.inj hfields
  have hnow : midway.nowSecs = 100 := by decide +kernel
  have htimer : midway.TimerRuns r := ⟨by omega, by omega⟩
  exact (unanswered_transfer_ends_iff hrun hr hc).mpr (.inl htimer)

/-- The destination accepts the link, and an advertisement of a part whose map entry it leaves out. -/
def maplessOps : List Op :=
  [.registerSingleDestination "chat" [], .handleInboundWithEntropy chatRequest.encode 0 (entropy 2),
    .handleInboundWithEntropy
      (Packet.linkContext chatLink RESOURCE_ADV
        (Token.sealWithKey chatKey ({ chatAdvertisement with m := [] } : ResourceAdvertisement).pack (arr 16 4))).encode 0
      (entropy 3)]

/-- The transfer without a first map entry makes no request, so that its timer never runs. -/
theorem unanswered_transfer_hangs : ¬ ∀ (identity : Identity) (clock : UInt64) (tr : List Label) (n : Node)
    (key : ResourceKey) (r : InboundResource), Lts.Run NodeStep (withClock identity clock) tr n →
    n.inboundResources[key]? = some r → r.isComplete = false → n.EndsInTime key := by
  intro h
  obtain ⟨⟨n, tr⟩, hexec⟩ : ∃ r, (withClock (identity 3) 100).exec maplessOps = some r :=
    Option.isSome_iff_exists.mp (by decide +kernel)
  have hread : ((withClock (identity 3) 100).exec maplessOps).map (fun s =>
      (s.1.nowSecs, (s.1.inboundResources[chatResource]?).map fun r => (r.isComplete, r.lastRequest))) =
      some (100, some (false, 0)) := by decide +kernel
  rw [hexec, Option.map_some, Option.some.injEq] at hread
  obtain ⟨hnow, hread⟩ := Prod.mk.inj hread
  obtain ⟨r, hr, hfields⟩ := Option.map_eq_some_iff.mp hread
  obtain ⟨hc, hlast⟩ := Prod.mk.inj hfields
  have hrun := exec_run hexec
  have hroom : n.nowSecs + REQUEST_TIMEOUT_SECS * (MAX_RETRIES + 1) < 2 ^ 64 := by
    rw [hnow]
    decide
  exact not_endsInTime (resourcesOk_of_run hrun) hr (fun ht => ht.1 hlast) hroom (h _ _ _ _ _ _ hrun hr hc)

end

end Reticulum
