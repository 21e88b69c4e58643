import Reticulum.Driver

/-!
# Waiting in a circle

The driver fills the queue of an interface while the task of the interface
fills the queue of the driver. They wait for each other once a call has left
more frames for one interface than its queue has room for.
-/

namespace Reticulum

open Driver

variable {N : Type}

namespace Driver

/-- The driver waits for room in the queue of `i`, whose task waits for room in the inbound queue. -/
def Deadlock (s : Driver N) (i : UInt16) : Prop :=
  s.pc = .draining ∧ ∃ b rest k t m, s.outbound = (i, b) :: rest ∧ s.taskOf i = some (k, t) ∧
    t.pc = .delivering m ∧ INTERFACE_CAPACITY ≤ t.outbound.length ∧ INTERFACE_CAPACITY ≤ s.inbound.length

/-- The frames for one interface. -/
def framesFor (i : UInt16) (frames : List Frame) : Nat := frames.countP fun f => f.1 = i

/-- Every frame has room in the queue it goes to, before any task takes one out. -/
def Fits (s : Driver N) (frames : List Frame) : Prop :=
  ∀ (i : UInt16) (k : Nat) (t : InterfaceTask), s.taskOf i = some (k, t) → t.pc ≠ .returned →
    framesFor i frames + t.outbound.length ≤ INTERFACE_CAPACITY

/-- No call leaves more frames for an interface than its queue has room for. -/
def Roomy (s : Driver N) : DriverMove → Prop
  | .called frames | .ticked frames | .received _ _ frames | .reacted frames => s.Fits (s.outbound ++ frames)
  | .registered i frames => (s.spawn i).Fits (s.outbound ++ frames)
  | _ => True

variable {s : Driver N} {i j : UInt16} {k : Nat} {t u : InterfaceTask}

/-! ## Frames and tasks -/

@[simp] theorem framesFor_nil (i : UInt16) : framesFor i [] = 0 := rfl

theorem framesFor_cons (i j : UInt16) (b : Bytes) (rest : List Frame) :
    framesFor i ((j, b) :: rest) = framesFor i rest + if j = i then 1 else 0 := by
  simp [framesFor, List.countP_cons]

theorem framesFor_le_cons (i : UInt16) (f : Frame) (rest : List Frame) : framesFor i rest ≤ framesFor i (f :: rest) := by
  rw [framesFor_cons]
  omega

theorem Fits.tail {f : Frame} {rest : List Frame} (h : s.Fits (f :: rest)) : s.Fits rest :=
  fun i k t ht hopen => Nat.le_trans (Nat.add_le_add_right (framesFor_le_cons i f rest) _) (h i k t ht hopen)

end Driver

/-- A step of a task keeps its interface, adds nothing to its queue and never revives it. -/
theorem TaskStep.keeps {W : World N} {r : Prop} {q q' : List Inbound} {t t' : InterfaceTask} (h : TaskStep W r q t q' t') :
    t'.interface = t.interface ∧ t'.outbound.length ≤ t.outbound.length ∧ (t'.pc ≠ .returned → t.pc ≠ .returned) := by
  cases h with
  | take hpc hq => simp [hpc, hq]
  | sent hpc => simp [hpc]
  | failed hpc => simp [hpc]
  | receive hpc => simp [hpc]
  | deliver hpc => simp [hpc]
  | hungUp hpc => simp [hpc]

/-! ## While everything fits -/

/-- The frames that are still to be drained have room in their queues. -/
structure Draining (s : Driver N) : Prop where
  wired : s.Wired
  fits : s.pc = .emitting ∨ s.pc = .draining → s.Fits s.outbound

theorem Draining.step {W : World N} {s u : Driver N} {l : DriverMove} (h : Draining s) (hr : s.Roomy l)
    (hst : DriverStep W s l u) : Draining u := by
  cases hst with
  | called => exact ⟨h.wired, fun _ => hr⟩
  | ticked => exact ⟨h.wired, fun _ => hr⟩
  | registered => exact ⟨h.wired.spawn _, fun _ => hr⟩
  | received => exact ⟨h.wired, fun _ => hr⟩
  | @removed i m rest hpc hq hm =>
    refine ⟨h.wired.erase i rfl, fun hd => ?_⟩
    simp only [remove] at hd
    split at hd <;> rcases hd with hd | hd <;> cases hd
  | shutdown => exact ⟨h.wired, fun hd => by rcases hd with hd | hd <;> cases hd⟩
  | reacted => exact ⟨h.wired, fun _ => hr⟩
  | emitted hpc => exact ⟨h.wired, fun _ => h.fits (.inl hpc)⟩
  | drained => exact ⟨h.wired, fun hd => by rcases hd with hd | hd <;> cases hd⟩
  | @unknown i b rest hpc hout hi =>
    exact ⟨h.wired, fun _ => (hout ▸ h.fits (.inr hpc)).tail⟩
  | @refused i b rest k t hpc hout ht hret =>
    refine ⟨h.wired.erase i rfl, fun _ j k' t' ht' hopen => ?_⟩
    obtain ⟨hk', hu⟩ := taskOf_eq_some.mp ht'
    simp only [Std.ExtTreeMap.getElem?_erase] at hk'
    split at hk'
    · cases hk'
    · exact (hout ▸ h.fits (.inr hpc)).tail j k' t' (taskOf_eq_some.mpr ⟨hk', hu⟩) hopen
  | @sent i b rest k t hpc hout ht hopen hroom =>
    refine ⟨h.wired.setTask (taskOf_eq_some.mp ht).2 rfl, fun _ j k' t' ht' hopen' => ?_⟩
    rcases taskOf_setTask ht' with ⟨rfl, rfl⟩ | ⟨-, ht'⟩
    · -- the frame has moved from the node's queue to the task's
      obtain ⟨hj, -⟩ := taskOf_eq_some.mp ht'
      obtain rfl : i = j := h.wired.eq_of_task ht (taskOf_eq_some.mpr ⟨hj, (taskOf_eq_some.mp ht).2⟩)
      have := h.fits (.inr hpc) i k' t ht hopen
      rw [hout, framesFor_cons, if_pos rfl] at this
      simp only [Driver.setTask, List.length_append, List.length_singleton]
      omega
    · exact (hout ▸ h.fits (.inr hpc)).tail j k' t' ht' hopen'
  | @task k t t' q hrun ht hstep =>
    obtain ⟨hi, hlen, hret⟩ := hstep.keeps
    refine ⟨Driver.Wired.setTask (s := { s with inbound := q }) h.wired ht hi, fun hpc j k' u hu hopen => ?_⟩
    rcases taskOf_setTask hu with ⟨rfl, rfl⟩ | ⟨-, hu⟩
    · have := h.fits hpc j k' t (taskOf_eq_some.mpr ⟨(taskOf_eq_some.mp hu).1, ht⟩) (hret hopen)
      simp only [Driver.setTask]
      omega
    · exact h.fits hpc j k' u hu hopen

theorem Draining.not_deadlock {s : Driver N} (h : Draining s) (i : UInt16) : ¬ s.Deadlock i := by
  rintro ⟨hpc, b, rest, k, t, m, hout, ht, hm, hfull, -⟩
  have := h.fits (.inr hpc) i k t ht (by simp [hm])
  rw [hout, framesFor_cons, if_pos rfl] at this
  omega

/-- While every call leaves no more frames for an interface than its queue has room for, the loop and the
tasks never wait for each other. -/
theorem driver_never_deadlocks (W : World N) (node : N) (keepAlive : Bool) (interfaces : List UInt16)
    {tr : List DriverMove} {s : Driver N}
    (h : Lts.Run (fun s l u => s.Roomy l ∧ DriverStep W s l u) (build node keepAlive interfaces) tr s) (i : UInt16) :
    ¬ s.Deadlock i := by
  have h₀ : Draining (build node keepAlive interfaces) :=
    ⟨build_wired node keepAlive interfaces, fun hd => by rw [build_pc] at hd; rcases hd with hd | hd <;> cases hd⟩
  exact (Lts.Run.preserve_of_labels (fun _ _ _ hi hr hst => hi.step hr hst) h₀ h).not_deadlock i

/-! ## Once something does not -/

namespace Driver

/-- A draining driver whose tasks all wait at their select, with queues within their capacity. -/
structure Idle (s : Driver N) : Prop where
  wired : s.Wired
  pc : s.pc = .draining
  tasks : ∀ (i : UInt16) (k : Nat) (t : InterfaceTask), s.taskOf i = some (k, t) →
    t.pc = .select ∧ t.outbound.length ≤ INTERFACE_CAPACITY
  inbound : s.inbound.length ≤ INTERFACE_CAPACITY

variable {W : World N} {s : Driver N} {i : UInt16} {k : Nat} {t : InterfaceTask}

/-- The state with one task at another place and other messages in the inbound queue. -/
def withTask (s : Driver N) (k : Nat) (t : InterfaceTask) (pc : TaskPc) (q : List Inbound) : Driver N :=
  { s with inbound := q }.setTask k { t with pc := pc }

theorem withTask_self (ht : s.taskOf i = some (k, t)) : s.withTask k t t.pc s.inbound = s := by
  obtain ⟨hlt, htk⟩ := List.getElem?_eq_some_iff.mp (taskOf_eq_some.mp ht).2
  change { s with tasks := s.tasks.set k t } = s
  rw [← htk, List.set_getElem_self]

theorem withTask_step (hrun : s.pc ≠ .returned) (ht : s.taskOf i = some (k, t)) {pc pc' : TaskPc} {q q' : List Inbound}
    (h : TaskStep W (s.interfaces[t.interface]? = some k) q { t with pc := pc } q' { t with pc := pc' }) :
    DriverStep W (s.withTask k t pc q) (.task k) (s.withTask k t pc' q') := by
  have htk : (s.withTask k t pc q).tasks[k]? = some { t with pc := pc } := by
    simp [withTask, setTask, (List.getElem?_eq_some_iff.mp (taskOf_eq_some.mp ht).2).1]
  have hst : DriverStep W (s.withTask k t pc q) (.task k)
      ({ s.withTask k t pc q with inbound := q' }.setTask k { t with pc := pc' }) := .task hrun htk h
  simpa only [withTask, setTask, List.set_set] using hst

/-- A task that keeps receiving fills the inbound queue and then waits for room in it. -/
theorem saturate (hrun : s.pc ≠ .returned) (ht : s.taskOf i = some (k, t)) (hi : t.interface = i) {b : Bytes}
    (hb : W.receives i (.packet b)) (room : Nat) (q : List Inbound) (hroom : q.length + room = INTERFACE_CAPACITY) :
    ∃ tr q', q'.length = INTERFACE_CAPACITY ∧
      Lts.Run (DriverStep W) (s.withTask k t .select q) tr (s.withTask k t (.delivering (.packet i b)) q') := by
  have hrecv (q : List Inbound) : DriverStep W (s.withTask k t .select q) (.task k)
      (s.withTask k t (.delivering (.packet i b)) q) := by
    refine withTask_step hrun ht ?_
    subst hi
    exact .receive (t := { t with pc := .select }) rfl hb
  induction room generalizing q with
  | zero => exact ⟨_, q, by simpa using hroom, .single (hrecv q)⟩
  | succ room ih =>
    have hdel : DriverStep W (s.withTask k t (.delivering (.packet i b)) q) (.task k)
        (s.withTask k t .select (q ++ [.packet i b])) := by
      refine withTask_step hrun ht ?_
      exact .deliver (t := { t with pc := .delivering (.packet i b) }) rfl (by omega)
    obtain ⟨tr, q', hq', hrest⟩ := ih (q ++ [.packet i b]) (by simp; omega)
    exact ⟨_, q', hq', .cons (hrecv q) (.cons hdel hrest)⟩

/-- When the frames at hand do not all fit, the loop and a task can end up waiting for each other. -/
theorem overfull_deadlocks (hs : s.Idle) (hrecv : ∀ i, ∃ b, W.receives i (.packet b))
    (ht : s.taskOf i = some (k, t)) (hover : INTERFACE_CAPACITY < framesFor i s.outbound + t.outbound.length) :
    ∃ tr u j, Lts.Run (DriverStep W) s tr u ∧ u.Deadlock j := by
  have hrun : s.pc ≠ .returned := by simp [hs.pc]
  generalize hout : s.outbound = out at hover
  induction out generalizing s k t with
  | nil =>
    -- every frame has found room after all
    have := (hs.tasks i k t ht).2
    rw [framesFor_nil] at hover
    omega
  | cons f rest ih =>
    obtain ⟨j, b⟩ := f
    cases hj : s.interfaces[j]? with
    | none =>
      have hij : j ≠ i := fun h => by
        rw [h, (taskOf_eq_some.mp ht).1] at hj
        cases hj
      rw [framesFor_cons, if_neg hij] at hover
      obtain ⟨tr, u, m, hr, hm⟩ := ih (s := { s with outbound := rest }) ⟨hs.wired, hs.pc, hs.tasks, hs.inbound⟩ ht hrun
        rfl hover
      exact ⟨_, u, m, .cons (.unknown hs.pc hout hj) hr, hm⟩
    | some k' =>
      obtain ⟨v, hv, hvj⟩ := hs.wired j k' hj
      have hjt : s.taskOf j = some (k', v) := taskOf_eq_some.mpr ⟨hj, hv⟩
      obtain ⟨hpc, hlen⟩ := hs.tasks j k' v hjt
      by_cases hroom : v.outbound.length < INTERFACE_CAPACITY
      · have hst : DriverStep W s .sent _ := .sent hs.pc hout hjt (by simp [hpc]) hroom
        have hidle : Driver.Idle ({ s with outbound := rest }.setTask k' { v with outbound := v.outbound ++ [b] }) := by
          refine ⟨Wired.setTask (s := { s with outbound := rest }) hs.wired hv rfl, hs.pc, fun m l w hw => ?_, hs.inbound⟩
          rcases taskOf_setTask hw with ⟨-, rfl⟩ | ⟨-, hw⟩
          · exact ⟨hpc, by simp; omega⟩
          · exact hs.tasks m l w hw
        by_cases hij : j = i
        · subst hij
          obtain ⟨rfl, rfl⟩ := Prod.mk.inj (Option.some.inj (hjt.symm.trans ht))
          rw [framesFor_cons, if_pos rfl] at hover
          obtain ⟨tr, u, m, hr, hm⟩ := ih hidle (taskOf_setTask_self (s := { s with outbound := rest }) hjt) hrun rfl
            (by simp; omega)
          exact ⟨_, u, m, .cons hst hr, hm⟩
        · rw [framesFor_cons, if_neg hij] at hover
          have hti : (({ s with outbound := rest } : Driver N).setTask _ { v with outbound := v.outbound ++ [b] }).taskOf i =
              some _ := taskOf_setTask_ne ht fun hkk => hij (hs.wired.eq_of_task hjt (hkk ▸ ht))
          obtain ⟨tr, u, m, hr, hm⟩ := ih hidle hti hrun rfl hover
          exact ⟨_, u, m, .cons hst hr, hm⟩
      · obtain ⟨c, hc⟩ := hrecv j
        obtain ⟨tr, q, hq, hr⟩ := saturate (W := W) hrun hjt hvj hc (INTERFACE_CAPACITY - s.inbound.length) s.inbound
          (by have := hs.inbound; omega)
        rw [← hpc, withTask_self hjt] at hr
        refine ⟨tr, _, j, hr, hs.pc, b, rest, k', { v with pc := .delivering (.packet j c) }, .packet j c, hout, ?_, rfl,
          Nat.not_lt.mp hroom, Nat.le_of_eq hq.symm⟩
        exact taskOf_setTask_self (s := { s with inbound := q }) hjt

end Driver

/-! ## One interface -/

/-- A node that answers every frame with `count` frames on the interface it came from. -/
def burst (count : Nat) : World Unit where
  called _ _ _ := False
  ticked _ _ frames := frames = []
  received _ i b _ frames := frames = List.replicate count (i, b)
  registered _ _ _ frames := frames = []
  unregister n _ := n
  sends _ _ ok := ok = true
  receives _ r := ∃ b, r = .packet b

/-- The driver of such a node once a frame has been answered. -/
def answered (count : Nat) : Driver Unit :=
  { (build () false [0]).answer () (List.replicate count (0, [7])) with pc := .draining }

theorem answered_taskOf {count : Nat} {i : UInt16} {k : Nat} {t : InterfaceTask} :
    (answered count).taskOf i = some (k, t) ↔ i = 0 ∧ k = 0 ∧ t = { interface := 0, outbound := [], pc := .select } := by
  rw [taskOf_eq_some]
  simp only [answered, answer, build, List.foldl, spawn, List.length_nil, Std.ExtTreeMap.getElem?_insert]
  by_cases hi : i = 0
  · subst hi
    simp only [Std.ReflCmp.compare_self, if_true, Option.some.injEq, true_and]
    constructor
    · rintro ⟨rfl, h⟩
      exact ⟨rfl, (Option.some.inj h).symm⟩
    · rintro ⟨rfl, rfl⟩
      exact ⟨rfl, rfl⟩
  · have h0 : ¬ compare 0 i = .eq := fun h => hi (Std.LawfulEqOrd.eq_of_compare h).symm
    simp [h0, hi]

/-- The first frame is received, handed over and answered. -/
theorem burst_run (count : Nat) :
    Lts.Run (fun s l u => (count ≤ INTERFACE_CAPACITY → s.Roomy l) ∧ DriverStep (burst count) s l u)
      (build () false [0]) [.task 0, .task 0, .received 0 [7] (List.replicate count (0, [7])), .emitted]
      (answered count) := by
  let task : InterfaceTask := { interface := 0, outbound := [], pc := .select }
  let waiting : Driver Unit := (build () false [0]).withTask 0 task (.delivering (.packet 0 [7])) []
  let handed : Driver Unit := (build () false [0]).withTask 0 task .select [.packet 0 [7]]
  have h₁ : DriverStep (burst count) (build () false [0]) (.task 0) waiting :=
    .task (t := task) (by decide) rfl (.receive (r := .packet [7]) rfl ⟨[7], rfl⟩)
  have h₂ : DriverStep (burst count) waiting (.task 0) handed :=
    .task (t := { task with pc := .delivering (.packet 0 [7]) }) (by decide) rfl (.deliver rfl (by decide))
  have hin : handed.inbound = [.packet 0 [7]] := rfl
  have h₃ : DriverStep (burst count) handed (.received 0 [7] (List.replicate count (0, [7])))
      { answered count with pc := .emitting } := .received rfl hin rfl
  have h₄ : DriverStep (burst count) { answered count with pc := .emitting } .emitted (answered count) := .emitted rfl
  refine .cons ⟨fun _ => trivial, h₁⟩ (.cons ⟨fun _ => trivial, h₂⟩ (.cons ⟨fun hc i k t ht _ => ?_, h₃⟩
    (.single ⟨fun _ => trivial, h₄⟩)))
  obtain ⟨rfl, -, rfl⟩ := answered_taskOf.mp (show (answered count).taskOf i = some (k, t) from ht)
  change framesFor 0 ([] ++ List.replicate count (0, [7])) + 0 ≤ _
  simpa [framesFor, List.countP_replicate] using hc

/-- Thirty-three frames for one interface, and it keeps receiving: the loop and the task wait for each other. -/
theorem burst_deadlocks :
    ∃ tr s i, Lts.Run (DriverStep (burst 33)) (build () false [0]) tr s ∧ s.Deadlock i := by
  have hidle : (answered 33).Idle := by
    refine ⟨build_wired () false [0], rfl, fun i k t ht => ?_, by decide⟩
    obtain ⟨-, -, rfl⟩ := answered_taskOf.mp ht
    exact ⟨rfl, by decide⟩
  obtain ⟨tr, s, i, hr, hd⟩ := overfull_deadlocks (W := burst 33) hidle (fun i => ⟨[], [], rfl⟩)
    (answered_taskOf.mpr ⟨rfl, rfl, rfl⟩) (by decide)
  exact ⟨_, s, i, ((burst_run 33).mono fun _ _ _ h => h.2).append hr, hd⟩

theorem driver_never_deadlocks_burst : ¬ (answered 32).Deadlock 0 := by
  refine driver_never_deadlocks (burst 32) () false [0] ((burst_run 32).mono fun _ _ _ h => ⟨h.1 ?_, h.2⟩) 0
  exact Nat.le_refl _

end Reticulum
