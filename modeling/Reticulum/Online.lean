import Reticulum.Driver
import Reticulum.Interface
import Reticulum.FrameSizes
import Reticulum.Binding
import Reticulum.Sample

/-!
# Interfaces that stay online

The driver with the node it is written for, and transports that never fail. A
task ends only on a frame its interface does not carry, and the only long
frames are those the node passes on and those its own user sends.
-/

namespace Reticulum

open Driver

/-- Whether an operation is neither an inbound frame nor a poll of the queue. -/
def Op.isCommand : Op → Bool
  | .handleInbound _ _ | .handleInboundWithEntropy _ _ _ | .pollOutbound => false
  | _ => true

/-- The node once the driver has taken its frames. -/
@[simps] def Node.flushed (n : Node) : Node := { n with outbound := [] }

section
variable [Crypto] [Rmp] [Bzip2]

/-- The driver takes the frames that a call has left. -/
def Node.Leaves (m n' : Node) (frames : List Frame) : Prop := n' = m.flushed ∧ frames = m.outbound

variable [Hkdf]

/-- The node behind a driver whose interfaces are `ports`; the transports under them never fail. -/
def nodeWorld (ports : UInt16 → Interface) : World Node where
  called n n' frames := ∃ ops m tr, (∀ op ∈ ops, op.isCommand = true) ∧ n.exec ops = some (m, tr) ∧ m.Leaves n' frames
  ticked n n' frames := ∃ rng, (n.tickWithEntropy rng).1.Leaves n' frames
  received n i b n' frames := ∃ rng, (n.handleInboundWithEntropy b i rng).1.Leaves n' frames
  registered n i n' frames := ∃ ops m tr, (∀ op ∈ ops, ∃ d appData rng, op = .sendAnnounce d appData rng i) ∧
    (n.registerInterface i).exec ops = some (m, tr) ∧ m.Leaves n' frames
  unregister n i := n.unregisterInterface i
  sends i b ok := ok = true ↔ (ports i).Takes b
  receives _ r := ∃ b, r = .packet b

/-- Commands leave only frames that `send_packet` takes, and what the node passes on is carried by the
interface it goes to. -/
def Driver.Carried (ports : UInt16 → Interface) (s : Driver Node) : DriverMove → Prop
  | .called frames | .reacted frames | .registered _ frames =>
    ∀ f ∈ frames, (ports f.1).Takes f.2
  | .received i b _ => ∀ q, s.node.Relays b i q → (ports q.1).Carries q.2.encode.length
  | _ => True

/-- A task that runs, with frames that its interface takes. -/
def InterfaceTask.Running (ports : UInt16 → Interface) (t : InterfaceTask) : Prop :=
  (∀ b ∈ t.outbound, (ports t.interface).Takes b) ∧
    match t.pc with
    | .select => True
    | .sending b => (ports t.interface).Takes b
    | .delivering m => m.gone? = none
    | .returned => False

/-- Every task runs behind its sender, and nothing is on its way that would end one. -/
structure Online (ports : UInt16 → Interface) (s : Driver Node) : Prop where
  wired : s.Wired
  bounded : s.node.Bounded
  flushed : s.node.outbound = []
  outbound : ∀ f ∈ s.outbound, (ports f.1).Takes f.2
  inbound : ∀ m ∈ s.inbound, m.gone? = none
  tasks : ∀ (k : Nat) (t : InterfaceTask), s.tasks[k]? = some t → s.interfaces[t.interface]? = some k ∧ t.Running ports

variable {ports : UInt16 → Interface} {s u : Driver Node} {l : DriverMove}

/-! ## Calls -/

omit [Hkdf] in
theorem Node.bounded_of_exec (hA : Crypto.AesInverts) {n m : Node} {ops : List Op} {tr : List Label} (hn : n.Bounded)
    (h : n.exec ops = some (m, tr)) : m.Bounded :=
  (Node.exec_run h).preserve (fun _ _ _ hi hst => hst.bounded hA hi) hn

omit [Rmp] [Bzip2] in
theorem Online.answer (h : Online ports s) {n : Node} {frames : List Frame} (hb : n.Bounded) (ho : n.outbound = [])
    (hf : ∀ f ∈ frames, (ports f.1).Takes f.2) : Online ports (s.answer n frames) :=
  ⟨h.wired, hb, ho, fun f hmem => (List.mem_append.mp hmem).elim (h.outbound f) (hf f), h.inbound, h.tasks⟩

omit [Rmp] [Bzip2] in
theorem Online.spawn (h : Online ports s) {i : UInt16} (hi : s.interfaces[i]? = none) : Online ports (s.spawn i) := by
  refine ⟨h.wired.spawn i, h.bounded, h.flushed, h.outbound, h.inbound, fun k t ht => ?_⟩
  simp only [Driver.spawn, List.getElem?_append] at ht
  split at ht
  · obtain ⟨hk, hrun⟩ := h.tasks k t ht
    have hne : i ≠ t.interface := fun he => by
      rw [← he, hi] at hk
      cases hk
    exact ⟨(BTreeMap.getElem?_insert_ne hne).trans hk, hrun⟩
  · rename_i hlen
    obtain ⟨hlt, rfl⟩ := List.getElem?_eq_some_iff.mp ht
    have hk : k = s.tasks.length := by
      simp only [List.length_singleton] at hlt
      omega
    subst hk
    simp [Driver.spawn, InterfaceTask.Running]

/-- One step of a task leaves it running. -/
theorem Online.task (h : Online ports s) {k : Nat} {t t' : InterfaceTask} {q : List Inbound} (ht : s.tasks[k]? = some t)
    (hst : TaskStep (nodeWorld ports) (s.interfaces[t.interface]? = some k) s.inbound t q t') :
    t'.interface = t.interface ∧ t'.Running ports ∧ ∀ m ∈ q, m.gone? = none := by
  obtain ⟨hk, hout, hpc⟩ := h.tasks k t ht
  cases hst with
  | take _ hq =>
    rw [hq, List.forall_mem_cons] at hout
    exact ⟨rfl, ⟨hout.2, hout.1⟩, h.inbound⟩
  | sent => exact ⟨rfl, ⟨hout, trivial⟩, h.inbound⟩
  | failed hs hfail =>
    rw [hs] at hpc
    exact absurd (hfail.mpr hpc) Bool.false_ne_true
  | receive _ hm =>
    obtain ⟨b, rfl⟩ := hm
    exact ⟨rfl, ⟨hout, rfl⟩, h.inbound⟩
  | deliver hs =>
    rw [hs] at hpc
    refine ⟨rfl, ⟨hout, ?_⟩, ?_⟩
    · rw [if_pos hpc]
      trivial
    · rw [List.forall_mem_append, List.forall_mem_singleton]
      exact ⟨h.inbound, hpc⟩
  | hungUp _ _ hnot => exact absurd hk hnot

omit [Rmp] [Bzip2] in
theorem Online.setTask (h : Online ports s) {k : Nat} {t t' : InterfaceTask} (ht : s.tasks[k]? = some t)
    (hi : t'.interface = t.interface) (hrun : t'.Running ports) : Online ports (s.setTask k t') := by
  refine ⟨h.wired.setTask ht hi, h.bounded, h.flushed, h.outbound, h.inbound, fun k' u hu => ?_⟩
  simp only [Driver.setTask, List.getElem?_set] at hu
  split at hu
  · rename_i hkk
    subst hkk
    split at hu
    · cases hu
      exact ⟨hi ▸ (h.tasks k t ht).1, hrun⟩
    · cases hu
  · exact h.tasks k' u hu

/-- A step under the condition keeps every task running, and is no removal. -/
theorem Online.step (hH : Hkdf.Limited) (hA : Crypto.AesInverts) (hR : Rmp.Compact) (h : Online ports s)
    (hc : s.Carried ports l) (hst : DriverStep (nodeWorld ports) s l u) :
    Online ports u ∧ l ≠ .refused ∧ ∀ i, l ≠ .removed i := by
  cases hst with
  | called _ hcall =>
    obtain ⟨ops, m, tr, -, hex, rfl, rfl⟩ := hcall
    exact ⟨h.answer ((Node.bounded_of_exec hA h.bounded hex).of_eq rfl rfl) rfl hc, by simp, by simp⟩
  | reacted _ hcall =>
    obtain ⟨ops, m, tr, -, hex, rfl, rfl⟩ := hcall
    exact ⟨h.answer ((Node.bounded_of_exec hA h.bounded hex).of_eq rfl rfl) rfl hc, by simp, by simp⟩
  | @registered i _ _ _ hi hreg =>
    obtain ⟨ops, m, tr, -, hex, rfl, rfl⟩ := hreg
    have hb : (s.node.registerInterface i).Bounded := by
      refine h.bounded.of_eq ?_ ?_ <;> unfold Node.registerInterface <;> split <;> rfl
    exact ⟨(h.spawn hi).answer ((Node.bounded_of_exec hA hb hex).of_eq rfl rfl) rfl hc, by simp, by simp⟩
  | ticked _ htick =>
    obtain ⟨rng, rfl, rfl⟩ := htick
    obtain ⟨⟨fs, hf, hs⟩, hb⟩ := Node.short_tickInner hA h.bounded (some rng)
    refine ⟨h.answer (hb.of_eq rfl rfl) rfl fun f hmem => ?_, by simp, by simp⟩
    rw [Node.tickWithEntropy, hf, h.flushed, List.nil_append] at hmem
    exact ((ports f.1).takes_iff hH (hs f hmem).1).mpr (Interface.carries_of_le (hs f hmem).2)
  | @received i b rest _ _ _ hq hrecv =>
    obtain ⟨rng, rfl, rfl⟩ := hrecv
    obtain ⟨fs, hf, hs⟩ := Node.handleInboundInner_says hA hR h.bounded b i (some rng)
    have hb : (s.node.handleInboundWithEntropy b i rng).1.Bounded :=
      NodeStep.bounded hA (l := (.handleInboundWithEntropy b i rng, _)) h.bounded rfl
    have hin : Online ports { s with inbound := rest } :=
      ⟨h.wired, h.bounded, h.flushed, h.outbound, fun m hm => h.inbound m (hq ▸ List.mem_cons_of_mem _ hm), h.tasks⟩
    refine ⟨hin.answer (hb.of_eq rfl rfl) rfl fun f hmem => ?_, by simp, by simp⟩
    rw [Node.handleInboundWithEntropy, hf, h.flushed, List.nil_append] at hmem
    rcases hs f hmem with hshort | ⟨q, hq, rfl⟩
    · exact ((ports f.1).takes_iff hH hshort.1).mpr (Interface.carries_of_le hshort.2)
    · exact ((ports q.1).takes_iff hH (by simp [Packet.encode])).mpr (hc q hq)
  | removed _ hq hgone =>
    rw [h.inbound _ (hq ▸ List.mem_cons_self)] at hgone
    cases hgone
  | shutdown => exact ⟨⟨h.wired, h.bounded, h.flushed, h.outbound, h.inbound, h.tasks⟩, by simp, by simp⟩
  | emitted => exact ⟨⟨h.wired, h.bounded, h.flushed, h.outbound, h.inbound, h.tasks⟩, by simp, by simp⟩
  | drained => exact ⟨⟨h.wired, h.bounded, h.flushed, h.outbound, h.inbound, h.tasks⟩, by simp, by simp⟩
  | unknown _ hout =>
    have hrest := (List.forall_mem_cons.mp (hout ▸ h.outbound)).2
    exact ⟨⟨h.wired, h.bounded, h.flushed, hrest, h.inbound, h.tasks⟩, by simp, by simp⟩
  | refused _ _ ht hret =>
    have hrun := (h.tasks _ _ (taskOf_eq_some.mp ht).2).2.2
    rw [hret] at hrun
    exact hrun.elim
  | @sent i b rest k t _ hout ht =>
    obtain ⟨hb, hrest⟩ := List.forall_mem_cons.mp (hout ▸ h.outbound)
    obtain ⟨hrun, hpc⟩ := (h.tasks k t (taskOf_eq_some.mp ht).2).2
    have hin : Online ports { s with outbound := rest } := ⟨h.wired, h.bounded, h.flushed, hrest, h.inbound, h.tasks⟩
    refine ⟨hin.setTask (taskOf_eq_some.mp ht).2 rfl ⟨?_, hpc⟩, by simp, by simp⟩
    rw [List.forall_mem_append, List.forall_mem_singleton]
    exact ⟨hrun, by rw [h.wired.interface ht]; exact hb⟩
  | @task k t t' q _ ht hstep =>
    obtain ⟨hi, hrun, hq⟩ := h.task ht hstep
    have hin : Online ports { s with inbound := q } := ⟨h.wired, h.bounded, h.flushed, h.outbound, hq, h.tasks⟩
    exact ⟨hin.setTask ht hi hrun, by simp, by simp⟩

omit [Rmp] [Bzip2] in
theorem Online.build {node : Node} (hb : node.Bounded) (ho : node.outbound = []) (keepAlive : Bool)
    {interfaces : List UInt16} (hnd : interfaces.Nodup) : Online ports (Driver.build node keepAlive interfaces) := by
  have h : ∀ s : Driver Node, Online ports s → (∀ i ∈ interfaces, s.interfaces[i]? = none) →
      Online ports (interfaces.foldl Driver.spawn s) := by
    induction interfaces with
    | nil => exact fun s hs _ => hs
    | cons i rest ih =>
      intro s hs hfree
      obtain ⟨hi, hrest⟩ := List.nodup_cons.mp hnd
      refine ih hrest (s.spawn i) (hs.spawn (hfree i List.mem_cons_self)) fun j hj => ?_
      have hne : i ≠ j := fun he => hi (he ▸ hj)
      exact (BTreeMap.getElem?_insert_ne hne).trans (hfree j (List.mem_cons_of_mem _ hj))
  refine h _ ⟨fun i k hk => ?_, hb, ho, by simp, by simp, by simp⟩ (by simp)
  simp at hk

/-- The interfaces a driver was given, first and later. -/
def Given (interfaces : List UInt16) (tr : List DriverMove) (i : UInt16) : Prop :=
  i ∈ interfaces ∨ ∃ frames, DriverMove.registered i frames ∈ tr

/-- No task has ended or is about to, and no interface was taken from the driver. -/
structure StaysOnline {N : Type} (interfaces : List UInt16) (tr : List DriverMove) (s : Driver N) : Prop where
  running : ∀ (k : Nat) (t : InterfaceTask), s.tasks[k]? = some t →
    t.pc ≠ .returned ∧ ∀ m, t.pc = .delivering m → m.gone? = none
  kept : ∀ l ∈ tr, l ≠ .refused ∧ ∀ i, l ≠ .removed i
  registered : ∀ i, Given interfaces tr i → ∃ k t, s.taskOf i = some (k, t)

omit [Rmp] [Bzip2] in
theorem Online.running (h : Online ports s) (k : Nat) (t : InterfaceTask) (ht : s.tasks[k]? = some t) :
    t.pc ≠ .returned ∧ ∀ m, t.pc = .delivering m → m.gone? = none := by
  have hrun := (h.tasks k t ht).2.2
  constructor
  · intro hpc
    rw [hpc] at hrun
    exact hrun
  · intro m hpc
    rw [hpc] at hrun
    exact hrun

end

/-- A step that removes no interface keeps those the driver has, and a registration adds its own. -/
theorem DriverStep.keeps_interfaces {N : Type} {W : World N} {s u : Driver N} {l : DriverMove} (h : DriverStep W s l u)
    (hl : l ≠ .refused ∧ ∀ i, l ≠ .removed i) (i : UInt16)
    (hi : s.interfaces[i]? ≠ none ∨ ∃ frames, l = .registered i frames) : u.interfaces[i]? ≠ none := by
  cases h with
  | removed => exact absurd rfl (hl.2 _)
  | refused => exact absurd rfl hl.1
  | @registered j =>
    simp only [answer, spawn, Std.ExtTreeMap.getElem?_insert]
    split
    · simp
    · rename_i hne
      refine hi.resolve_right ?_
      rintro ⟨frames, hf⟩
      cases hf
      simp at hne
  | _ => exact hi.resolve_right (by simp)

theorem Driver.build_interfaces {N : Type} (node : N) (keepAlive : Bool) {interfaces : List UInt16} {i : UInt16}
    (hi : i ∈ interfaces) : (Driver.build node keepAlive interfaces).interfaces[i]? ≠ none := by
  have h : ∀ s : Driver N, (i ∈ interfaces ∨ s.interfaces[i]? ≠ none) →
      (interfaces.foldl Driver.spawn s).interfaces[i]? ≠ none := by
    clear hi
    induction interfaces with
    | nil => exact fun s hs => hs.resolve_left List.not_mem_nil
    | cons j rest ih =>
      intro s hs
      refine ih (s.spawn j) ?_
      by_cases hj : j = i
      · subst hj
        exact .inr (by simp [Driver.spawn])
      · rcases hs with hs | hs
        · exact .inl ((List.mem_cons.mp hs).resolve_left fun he => hj he.symm)
        · exact .inr (by rw [Driver.spawn, BTreeMap.getElem?_insert_ne hj]; exact hs)
  exact h _ (.inl hi)

/-- While what the node passes on and what its user sends is carried by the interfaces it goes to, every
interface stays online, whatever arrives. -/
theorem interfaces_stay_online [Crypto] [Rmp] [Bzip2] [Hkdf] (hH : Hkdf.Limited) (hA : Crypto.AesInverts)
    (hR : Rmp.Compact) (ports : UInt16 → Interface) {identity : Identity} {clock : UInt64} {tr₀ : List Label}
    {node : Node} (h₀ : Lts.Run NodeStep (Node.withClock identity clock) tr₀ node) (hout : node.outbound = [])
    (keepAlive : Bool) {interfaces : List UInt16} (hnd : interfaces.Nodup) {tr : List DriverMove} {s : Driver Node}
    (h : Lts.Run (fun s l u => s.Carried ports l ∧ DriverStep (nodeWorld ports) s l u)
      (build node keepAlive interfaces) tr s) : StaysOnline interfaces tr s := by
  have hb : node.Bounded := h₀.preserve (fun _ _ _ hi hst => hst.bounded hA hi) (Node.bounded_withClock identity clock)
  have hrun := h.history (I := fun tr s => Online ports s ∧ (∀ l ∈ tr, l ≠ .refused ∧ ∀ i, l ≠ .removed i) ∧
    ∀ i, Given interfaces tr i → s.interfaces[i]? ≠ none) ?_ ?_
  · obtain ⟨hon, hkept, hgiven⟩ := hrun
    refine ⟨hon.running, hkept, fun i hi => ?_⟩
    obtain ⟨k, hk⟩ := Option.ne_none_iff_exists'.mp (hgiven i hi)
    obtain ⟨t, ht, -⟩ := hon.wired i k hk
    exact ⟨k, t, taskOf_eq_some.mpr ⟨hk, ht⟩⟩
  · refine ⟨.build hb hout keepAlive hnd, by simp, ?_⟩
    rintro i (hi | ⟨_, hf⟩)
    · exact build_interfaces node keepAlive hi
    · cases hf
  · rintro tr s l u ⟨hon, hkept, hgiven⟩ ⟨hc, hst⟩
    obtain ⟨hon', hl⟩ := hon.step hH hA hR hc hst
    refine ⟨hon', ?_, fun i hi => hst.keeps_interfaces hl i ?_⟩
    · rw [List.forall_mem_append, List.forall_mem_singleton]
      exact ⟨hkept, hl⟩
    · rcases hi with hi | ⟨frames, hf⟩
      · exact .inl (hgiven i (.inl hi))
      · rcases List.mem_append.mp hf with hf | hf
        · exact .inl (hgiven i (.inr ⟨frames, hf⟩))
        · exact .inr ⟨frames, (List.mem_singleton.mp hf).symm⟩

/-! ## A relay between two interfaces -/

/-- The driver of two interfaces whose second task has one frame to send. -/
def relayed {N : Type} (n : N) (f : Bytes) : Driver N :=
  { build n true [0, 1] with
    pc := .draining
    tasks := [{ interface := 0, outbound := [], pc := .select }, { interface := 1, outbound := [f], pc := .select }] }

/-- A frame comes in on the first interface, and the answer to it leaves on the second. -/
theorem relayed_run {N : Type} {W : World N} {n n' : N} {b f : Bytes} (hrecv : W.receives 0 (.packet b))
    (hans : W.received n 0 b n' [(1, f)]) {C : Driver N → DriverMove → Prop} (hC : ∀ s k, C s (.task k))
    (hC' : ∀ s, C s .emitted ∧ C s .sent) (hcall : ∀ s, s.node = n → C s (.received 0 b [(1, f)])) :
    Lts.Run (fun s l u => C s l ∧ DriverStep W s l u) (build n true [0, 1])
      [.task 0, .task 0, .received 0 b [(1, f)], .emitted, .sent] (relayed n' f) := by
  let start : Driver N := build n true [0, 1]
  let first : InterfaceTask := { interface := 0, outbound := [], pc := .select }
  let second : InterfaceTask := { interface := 1, outbound := [], pc := .select }
  let waiting : Driver N := { start with tasks := [{ first with pc := .delivering (.packet 0 b) }, second] }
  let handed : Driver N := { start with inbound := [.packet 0 b] }
  let answered : Driver N := { start with node := n', outbound := [(1, f)], pc := .emitting }
  have hpc : DriverPc.select ≠ .returned := by decide
  have hroom : 0 < INTERFACE_CAPACITY := by decide
  have h₁ : DriverStep W start (.task 0) waiting := .task (t := first) hpc rfl (.receive (r := .packet b) rfl hrecv)
  have h₂ : DriverStep W waiting (.task 0) handed :=
    .task (t := { first with pc := .delivering (.packet 0 b) }) hpc rfl (.deliver rfl hroom)
  have hin : handed.inbound = [.packet 0 b] := rfl
  have h₃ : DriverStep W handed (.received 0 b [(1, f)]) answered := .received rfl hin hans
  have h₄ : DriverStep W answered .emitted { answered with pc := .draining } := .emitted rfl
  have h₅ : DriverStep W { answered with pc := .draining } .sent (relayed n' f) := by
    have ht : taskOf { answered with pc := .draining } 1 = some (1, second) := by
      rw [taskOf_eq_some]
      exact ⟨Std.ExtTreeMap.getElem?_insert_self, rfl⟩
    exact .sent rfl rfl ht (by decide) hroom
  exact .cons ⟨hC _ _, h₁⟩ (.cons ⟨hC _ _, h₂⟩ (.cons ⟨hcall _ rfl, h₃⟩ (.cons ⟨(hC' _).1, h₄⟩
    (.single ⟨(hC' _).2, h₅⟩))))

/-- When `send_packet` refuses the frame, its interface is taken from the driver. -/
theorem relayed_removed {N : Type} {W : World N} {n : N} {f : Bytes} (hfail : W.sends 1 f false) :
    ∃ s, Lts.Run (DriverStep W) (relayed n f) [.task 1, .task 1, .task 1, .drained, .removed 1] s ∧
      s.interfaces[(1 : UInt16)]? = none ∧ (s.tasks[1]?).map (·.pc) = some .returned := by
  let start : Driver N := relayed n f
  let first : InterfaceTask := { interface := 0, outbound := [], pc := .select }
  let second : InterfaceTask := { interface := 1, outbound := [], pc := .select }
  let sending : Driver N := { start with tasks := [first, { second with pc := .sending f }] }
  let failing : Driver N := { start with tasks := [first, { second with pc := .delivering (.error 1) }] }
  let failed : Driver N :=
    { start with inbound := [.error 1], tasks := [first, { second with pc := .returned }] }
  have hpc : DriverPc.draining ≠ .returned := by decide
  have hroom : 0 < INTERFACE_CAPACITY := by decide
  have h₁ : DriverStep W start (.task 1) sending :=
    .task (t := { second with outbound := [f] }) hpc rfl (.take rfl rfl)
  have h₂ : DriverStep W sending (.task 1) failing :=
    .task (t := { second with pc := .sending f }) hpc rfl (.failed rfl hfail)
  have h₃ : DriverStep W failing (.task 1) failed :=
    .task (t := { second with pc := .delivering (.error 1) }) hpc rfl (.deliver rfl hroom)
  have h₄ : DriverStep W failed .drained { failed with pc := .select } := .drained rfl rfl
  have hin : failed.inbound = [.error 1] := rfl
  have h₅ : DriverStep W { failed with pc := .select } (.removed 1) _ := .removed rfl hin rfl
  exact ⟨_, .cons h₁ (.cons h₂ (.cons h₃ (.cons h₄ (.single h₅)))), Std.ExtTreeMap.getElem?_erase_self, rfl⟩

section
open Sample

theorem rmp_compact : Rmp.Compact := by
  have hlen (f m₈ m₁₆ m₃₂ : UInt8) (k : Nat) (has : Bool) (n : Nat) : (writeLen f m₈ m₁₆ m₃₂ k has n).length ≤ 9 := by
    unfold writeLen
    split <;> [skip; split <;> [skip; split]] <;> simp
  refine ⟨fun n => hlen _ _ _ _ _ _ n, fun n => ?_, fun b => ?_⟩
  · show (Sample.writeUint n).length ≤ 9
    unfold Sample.writeUint
    split <;> [skip; split <;> [skip; split <;> [skip; split]]] <;> simp
  · show (writeLen 0 0xC4 0xC5 0xC6 0 true b.length ++ b).length ≤ 9 + b.length
    rw [List.length_append]
    have := hlen 0 0xC4 0xC5 0xC6 0 true b.length
    omega

/-- A relay with a TCP and a serial interface. -/
def relayOf2 : Node := (((Node.withClock (identity 5) 100).enableTransport true).registerInterface 0).registerInterface 1

theorem relayOf2_run : Lts.Run NodeStep (Node.withClock (identity 5) 100)
    [(.enableTransport true, {}), (.registerInterface 0, {}), (.registerInterface 1, {})] relayOf2 :=
  .cons rfl (.cons rfl (.single rfl))

def tcpAndSerial (i : UInt16) : Interface := { transport := if i = 1 then .serial else .tcp, ifac := none }

/-- An announce with `len` bytes of app data. -/
def announceOf (len : Nat) : Packet :=
  Packet.announce ownedDest (Announce.build (identity 3) ownedDest (arr 10 1) (arr 10 5) (List.replicate len 0)).toPayload

/-- The relay passes it on over the serial interface, and then needs 183 bytes more than the app data. -/
theorem relayOf2_hears (len : Nat)
    (h : (relayOf2.handleInboundWithEntropy (announceOf len).encode 0 (entropy 0)).1.outbound.map
      (fun f => (f.1, f.2.length)) = [(1, 183 + len)]) :
    ∃ f, f.length = 183 + len ∧ (nodeWorld tcpAndSerial).received relayOf2 0 (announceOf len).encode
      (relayOf2.handleInboundWithEntropy (announceOf len).encode 0 (entropy 0)).1.flushed [(1, f)] := by
  generalize hm : (relayOf2.handleInboundWithEntropy (announceOf len).encode 0 (entropy 0)).1 = m at h
  obtain ⟨⟨i, f⟩, hf, hif⟩ := List.map_eq_singleton_iff.mp h
  obtain ⟨rfl, hl⟩ := Prod.mk.inj hif
  exact ⟨f, hl, entropy 0, by rw [hm], by rw [hm, hf]⟩

theorem relayOf2_relays {len : Nat} {q : UInt16 × Packet} (hq : relayOf2.Relays (announceOf len).encode 0 q) :
    q = (1, (relayOf2.admitted (announceOf len)).rebroadcast (Node.received (announceOf len))) := by
  obtain ⟨ha, hp⟩ := hq
  have hdec : Packet.decode (announceOf len).encode = .ok (announceOf len) :=
    Packet.decode_encode (Packet.wellFormed_announce _ _)
  cases hdec.symm.trans ha.decoded
  have hkind : (Node.received (announceOf len)).packetType ≠ DATA := by
    show ANNOUNCE ≠ DATA
    decide
  cases hp with
  | answer hdata => exact absurd hdata hkind
  | forward hdata => exact absurd hdata hkind
  | announce _ _ _ _ hmem =>
    have hi : (relayOf2.admitted (announceOf len)).interfaces = [0, 1] := by
      rw [Node.admitted_interfaces, (Node.maybePrune_keeps relayOf2 relayOf2.nowSecs).2.2.2.2.1]
      rfl
    unfold Node.rebroadcastCopies at hmem
    split at hmem
    · rw [hi] at hmem
      exact List.mem_singleton.mp hmem
    · cases hmem

/-- A short announce crosses the relay, and both interfaces stay. -/
theorem interfaces_stay_online_relay : ∃ (n : Node) (f : Bytes), StaysOnline [0, 1]
    [.task 0, .task 0, .received 0 (announceOf 0).encode [(1, f)], .emitted, .sent] (relayed n f) := by
  obtain ⟨f, -, hans⟩ := relayOf2_hears 0 (by decide +kernel)
  have hrecv : (nodeWorld tcpAndSerial).receives 0 (.packet (announceOf 0).encode) := ⟨_, rfl⟩
  have hnd : ([0, 1] : List UInt16).Nodup := by decide
  refine ⟨_, f, interfaces_stay_online hkdf_limited aesInverts rmp_compact tcpAndSerial relayOf2_run rfl true hnd
    (relayed_run hrecv hans (fun _ _ => trivial) (fun _ => ⟨trivial, trivial⟩) ?_)⟩
  rintro s hs q hq
  rw [hs] at hq
  rw [relayOf2_relays hq]
  decide +kernel

/-- An announce with 400 bytes of app data does not fit the serial interface, and takes it down. -/
theorem announce_takes_interface_down : ∃ tr s,
    Lts.Run (DriverStep (nodeWorld tcpAndSerial)) (build relayOf2 true [0, 1]) tr s ∧
      s.interfaces[(1 : UInt16)]? = none ∧ (s.tasks[1]?).map (·.pc) = some .returned := by
  obtain ⟨f, hlen, hans⟩ := relayOf2_hears 400 (by decide +kernel)
  have hfail : (nodeWorld tcpAndSerial).sends 1 f false := by
    have hnot : ¬ (tcpAndSerial 1).Takes f := by
      rw [Interface.takes_iff hkdf_limited _ (by omega), hlen]
      decide
    exact ⟨fun h => (nomatch h), fun h => absurd h hnot⟩
  have hrecv : (nodeWorld tcpAndSerial).receives 0 (.packet (announceOf 400).encode) := ⟨_, rfl⟩
  have hrun := relayed_run (C := fun _ _ => True) hrecv hans (fun _ _ => trivial) (fun _ => ⟨trivial, trivial⟩)
    fun _ _ => trivial
  obtain ⟨s, hs, hgone⟩ := relayed_removed (n := _) hfail
  exact ⟨_, s, (hrun.mono fun _ _ _ h => h.2).append hs, hgone⟩

end

end Reticulum
