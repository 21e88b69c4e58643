import Reticulum.Lib.Flow
import Reticulum.Deadlock

/-!
# What passes through the driver

Frames go from the node to the transports and packets from the transports to
the node, each through two queues. Nothing is lost on the way, repeated or
overtaken, for as long as the interface is not taken from the driver.
-/

namespace Reticulum

open Driver

/-- What a step moves from one place to another. -/
inductive Passage
  /-- `drain_outbound` gives a frame to a task, or drops it. -/
  | drained (frame : Frame) (task : Option Nat)
  | transmitted (task : Nat) (packet : Bytes)
  /-- `send_packet` fails, and the task tells the driver. -/
  | failed (task : Nat) (packet : Bytes) (message : Inbound)
  | arrived (task : Nat) (message : Inbound)
  | delivered (task : Nat) (message : Inbound)
  | consumed (message : Inbound)
  deriving DecidableEq

namespace Passage

@[simp] def drained? : Passage → Option Frame
  | drained f _ => some f
  | _ => none

@[simp] def handed? (k : Nat) : Passage → Option Bytes
  | drained f (some k') => if k' = k then some f.2 else none
  | _ => none

/-- What `send_packet` of a task was called with. -/
@[simp] def offered? (k : Nat) : Passage → Option Bytes
  | transmitted k' b | failed k' b _ => if k' = k then some b else none
  | _ => none

@[simp] def transmitted? (k : Nat) : Passage → Option Bytes
  | transmitted k' b => if k' = k then some b else none
  | _ => none

@[simp] def failed? (k : Nat) : Passage → Option Bytes
  | failed k' b _ => if k' = k then some b else none
  | _ => none

/-- What a task has for the driver. -/
@[simp] def raised? (k : Nat) : Passage → Option Inbound
  | arrived k' m | failed k' _ m => if k' = k then some m else none
  | _ => none

@[simp] def deliveredBy? (k : Nat) : Passage → Option Inbound
  | delivered k' m => if k' = k then some m else none
  | _ => none

@[simp] def delivered? : Passage → Option Inbound
  | delivered _ m => some m
  | _ => none

@[simp] def consumed? : Passage → Option Inbound
  | consumed m => some m
  | _ => none

end Passage

/-- What a step of a task moves, by where it leads from and to. -/
def TaskPc.passage (k : Nat) : TaskPc → TaskPc → Option Passage
  | .sending b, .select => some (.transmitted k b)
  | .sending b, .delivering m => some (.failed k b m)
  | .select, .delivering m => some (.arrived k m)
  | .delivering m, _ => some (.delivered k m)
  | _, _ => none

/-- The frames a call has left. -/
def DriverMove.frames : DriverMove → List Frame
  | .called frames | .ticked frames | .registered _ frames | .received _ _ frames | .reacted frames => frames
  | _ => []

namespace InterfaceTask

/-- The frames a task has not offered to its transport yet. -/
def held (t : InterfaceTask) : List Bytes :=
  match t.pc with
  | .sending b => b :: t.outbound
  | _ => t.outbound

/-- A task that has not ended and is not about to. -/
def Live (t : InterfaceTask) : Prop := t.pc ≠ .returned ∧ ∀ m, t.pc = .delivering m → m.gone? = none

/-- The message a task has not delivered yet. -/
def pending (t : InterfaceTask) : List Inbound :=
  match t.pc with
  | .delivering m => [m]
  | _ => []

end InterfaceTask

namespace Driver

variable {N : Type}

def passage (s u : Driver N) : DriverMove → Option Passage
  | .received i b _ => some (.consumed (.packet i b))
  | .removed _ => s.inbound.head?.map .consumed
  | .unknown | .refused => s.outbound.head?.map fun f => .drained f none
  | .sent => s.outbound.head?.map fun f => .drained f s.interfaces[f.1]?
  | .task k =>
    match s.tasks[k]?, u.tasks[k]? with
    | some t, some t' => t.pc.passage k t'.pc
    | _, _ => none
  | _ => none

/-- Task `k` has ended or is about to. -/
def Ends (s : Driver N) (k : Nat) : Prop := ∃ t, s.tasks[k]? = some t ∧ ¬ t.Live

/-- What a task has of something. -/
def ofTask {α : Type} (s : Driver N) (k : Nat) (f : InterfaceTask → List α) : List α :=
  match s.tasks[k]? with
  | some t => f t
  | none => []

end Driver

/-- A step and what it moves. -/
abbrev Leg := DriverMove × Option Passage

namespace Leg

variable {α : Type}

def gather (f : Passage → Option α) (l : Leg) : List α := (l.2.bind f).toList

def answered (l : Leg) : List Frame := l.1.frames

end Leg

/-- A step of the driver or of a task, seen with what it moves. -/
def Observed {N : Type} (W : World N) (s : Driver N) (l : Leg) (u : Driver N) : Prop :=
  DriverStep W s l.1 u ∧ l.2 = s.passage u l.1

/-! ## One step -/

/-- What enters a queue leaves it, first in, first out. -/
structure Balanced {N : Type} (s : Driver N) (l : Leg) (u : Driver N) : Prop where
  outbound : s.outbound ++ l.answered = l.gather Passage.drained? ++ u.outbound
  held : ∀ k, s.ofTask k (·.held) ++ l.gather (Passage.handed? k) = l.gather (Passage.offered? k) ++ u.ofTask k (·.held)
  pending : ∀ k, s.ofTask k (·.pending) ++ l.gather (Passage.raised? k) =
    l.gather (Passage.deliveredBy? k) ++ u.ofTask k (·.pending)
  inbound : s.inbound ++ l.gather Passage.delivered? = l.gather Passage.consumed? ++ u.inbound

section
variable {N : Type} {s u : Driver N} {i : UInt16} {k : Nat} {t t' : InterfaceTask}

theorem ofTask_congr {α : Type} {f : InterfaceTask → List α} (h : u.tasks = s.tasks) : u.ofTask k f = s.ofTask k f := by
  unfold ofTask
  rw [h]

theorem ofTask_spawn {α : Type} {f : InterfaceTask → List α} (hf : f { interface := i, outbound := [], pc := .select } = [])
    (k : Nat) : (s.spawn i).ofTask k f = s.ofTask k f := by
  unfold ofTask
  rw [Driver.spawn]
  dsimp only
  rcases Nat.lt_trichotomy k s.tasks.length with h | h | h
  · rw [List.getElem?_append_left h]
  · subst h
    rw [List.getElem?_concat_length, List.getElem?_eq_none (Nat.le_refl _)]
    exact hf
  · rw [List.getElem?_eq_none (by rw [List.length_append]; exact h), List.getElem?_eq_none (Nat.le_of_lt h)]

theorem ofTask_setTask {α : Type} (f : InterfaceTask → List α) (t' : InterfaceTask) (ht : s.tasks[k]? = some t) (j : Nat) :
    (s.setTask k t').ofTask j f = if k = j then f t' else s.ofTask j f := by
  obtain ⟨hlt, -⟩ := List.getElem?_eq_some_iff.mp ht
  unfold ofTask setTask
  dsimp only
  by_cases h : k = j
  · subst h
    rw [List.getElem?_set_self hlt, if_pos rfl]
  · rw [List.getElem?_set_ne h, if_neg h]

theorem ofTask_eq {α : Type} {f : InterfaceTask → List α} (ht : s.tasks[k]? = some t) : s.ofTask k f = f t := by
  unfold ofTask
  rw [ht]

/-- The tasks after one has changed. -/
theorem task_setTask {j : Nat} {w : InterfaceTask} (h : (s.setTask k t').tasks[j]? = some w) :
    (k = j ∧ w = t') ∨ (k ≠ j ∧ s.tasks[j]? = some w) := by
  simp only [setTask, List.getElem?_set] at h
  by_cases hk : k = j
  · rw [if_pos hk] at h
    split at h
    · exact .inl ⟨hk, (Option.some.inj h).symm⟩
    · cases h
  · rw [if_neg hk] at h
    exact .inr ⟨hk, h⟩

theorem task_spawn {j : Nat} {w : InterfaceTask} (h : (s.spawn i).tasks[j]? = some w) :
    s.tasks[j]? = some w ∨ (s.tasks.length ≤ j ∧ w = { interface := i, outbound := [], pc := .select }) := by
  simp only [Driver.spawn, List.getElem?_append] at h
  split at h
  · exact .inl h
  · rename_i hlen
    exact .inr ⟨Nat.not_lt.mp hlen, (List.mem_singleton.mp (List.mem_of_getElem? h))⟩

theorem passage_task {q : List Inbound} (ht : s.tasks[k]? = some t) :
    s.passage (({ s with inbound := q } : Driver N).setTask k t') (.task k) = t.pc.passage k t'.pc := by
  have hlt := (List.getElem?_eq_some_iff.mp ht).1
  simp only [passage, ht, setTask, List.getElem?_set_self hlt]

theorem gather_task {α : Type} {f : Passage → Option α} (hf : (∀ k b, f (.transmitted k b) = none) ∧
    (∀ k b m, f (.failed k b m) = none) ∧ (∀ k m, f (.arrived k m) = none) ∧ ∀ k m, f (.delivered k m) = none) (k : Nat) (pc pc' : TaskPc) :
    Leg.gather f (.task k, pc.passage k pc') = [] := by
  cases pc <;> cases pc' <;> simp [Leg.gather, TaskPc.passage, hf]

/-- A step of a task moves only what that task has. -/
structure TaskBalanced (k : Nat) (q : List Inbound) (t : InterfaceTask) (l : Leg) (q' : List Inbound) (t' : InterfaceTask) :
    Prop where
  held : t.held = l.gather (Passage.offered? k) ++ t'.held
  pending : t.pending ++ l.gather (Passage.raised? k) = l.gather (Passage.deliveredBy? k) ++ t'.pending
  inbound : q ++ l.gather Passage.delivered? = q'
  others : ∀ j, k ≠ j → l.gather (Passage.offered? j) = [] ∧ l.gather (Passage.transmitted? j) = [] ∧
    l.gather (Passage.raised? j) = [] ∧ l.gather (Passage.deliveredBy? j) = []

theorem TaskStep.balanced {W : World N} {r : Prop} {q q' : List Inbound} (h : TaskStep W r q t q' t') (k : Nat) :
    TaskBalanced k q t (.task k, t.pc.passage k t'.pc) q' t' := by
  cases h with
  | take hpc hq => constructor <;> simp [Leg.gather, TaskPc.passage, InterfaceTask.held, InterfaceTask.pending, hpc, hq]
  | sent hpc | failed hpc | receive hpc =>
    constructor <;> simp +contextual [Leg.gather, TaskPc.passage, InterfaceTask.held, InterfaceTask.pending, hpc]
  | @deliver m hpc =>
    cases hm : m.gone? <;> constructor <;>
      simp +contextual [Leg.gather, TaskPc.passage, InterfaceTask.held, InterfaceTask.pending, hpc]
  | hungUp hpc hq => constructor <;> simp [Leg.gather, TaskPc.passage, InterfaceTask.held, InterfaceTask.pending, hpc, hq]

/-- A step of the loop that hands no frame to a task. -/
theorem Balanced.of_loop {l : Leg} (hout : s.outbound ++ l.answered = l.gather Passage.drained? ++ u.outbound)
    (hin : s.inbound = l.gather Passage.consumed? ++ u.inbound)
    (ht : ∀ {α : Type} (f : InterfaceTask → List α) (k : Nat), (∀ i, f { interface := i, outbound := [], pc := .select } = []) →
      u.ofTask k f = s.ofTask k f)
    (hp : ∀ p, l.2 = some p → (∃ f, p = .drained f none) ∨ ∃ m, p = .consumed m) : Balanced s l u := by
  have hnone {α : Type} {f : Passage → Option α} (hf : ∀ g, f (.drained g none) = none) (hf' : ∀ m, f (.consumed m) = none) :
      l.gather f = [] := by
    unfold Leg.gather
    cases h : l.2 with
    | none => rfl
    | some p =>
      obtain ⟨g, rfl⟩ | ⟨m, rfl⟩ := hp p h
      · rw [Option.bind_some, hf, Option.toList_none]
      · rw [Option.bind_some, hf', Option.toList_none]
  refine ⟨hout, fun k => ?_, fun k => ?_, ?_⟩
  · rw [hnone (fun _ => rfl) (fun _ => rfl), hnone (fun _ => rfl) (fun _ => rfl), ht _ _ fun _ => rfl]
    simp
  · rw [hnone (fun _ => rfl) (fun _ => rfl), hnone (fun _ => rfl) (fun _ => rfl), ht _ _ fun _ => rfl]
    simp
  · rw [hnone (fun _ => rfl) (fun _ => rfl), hin]
    simp

theorem Observed.balanced {W : World N} {l : Leg} (h : Observed W s l u) : Balanced s l u := by
  obtain ⟨move, p⟩ := l
  obtain ⟨hst, hp⟩ := h
  dsimp only at hst hp
  subst hp
  cases hst with
  | called | ticked | reacted =>
    exact .of_loop (by simp [Leg.answered, Leg.gather, passage, DriverMove.frames, answer]) (by simp [Leg.gather, passage, answer])
      (fun f k _ => ofTask_congr rfl) (by simp [passage])
  | @registered i n fs =>
    exact .of_loop (by simp [Leg.answered, Leg.gather, passage, DriverMove.frames, answer, spawn])
      (by simp [Leg.gather, passage, answer, spawn])
      (fun f k hf => (ofTask_congr rfl).trans (ofTask_spawn (hf i) k)) (by simp [passage])
  | received _ hq =>
    exact .of_loop (by simp [Leg.answered, Leg.gather, passage, DriverMove.frames, answer])
      (by simp [Leg.gather, passage, answer, hq])
      (fun f k _ => ofTask_congr rfl) (by simp [passage])
  | removed _ hq =>
    exact .of_loop (by simp [Leg.answered, Leg.gather, passage, DriverMove.frames, remove, hq])
      (by simp [Leg.gather, passage, remove, hq])
      (fun f k _ => ofTask_congr rfl) (by simp [passage, hq])
  | shutdown | emitted | drained =>
    exact .of_loop (by simp [Leg.answered, Leg.gather, passage, DriverMove.frames]) (by simp [Leg.gather, passage])
      (fun f k _ => ofTask_congr rfl) (by simp [passage])
  | unknown _ hout =>
    exact .of_loop (by simp [Leg.answered, Leg.gather, passage, DriverMove.frames, hout]) (by simp [Leg.gather, passage, hout])
      (fun f k _ => ofTask_congr rfl) (by simp [passage, hout])
  | refused _ hout =>
    exact .of_loop (by simp [Leg.answered, Leg.gather, passage, DriverMove.frames, hout]) (by simp [Leg.gather, passage, hout])
      (fun f k _ => ofTask_congr rfl) (by simp [passage, hout])
  | @sent i b rest k t _ hout ht hopen =>
    obtain ⟨hk, htk⟩ := taskOf_eq_some.mp ht
    have hp : s.passage (({ s with outbound := rest } : Driver N).setTask k { t with outbound := t.outbound ++ [b] }) .sent =
        some (.drained (i, b) (some k)) := by
      simp [passage, hout, hk]
    rw [hp]
    have hset {α : Type} (f : InterfaceTask → List α) (j : Nat) :=
      ofTask_setTask (s := { s with outbound := rest }) f { t with outbound := t.outbound ++ [b] } htk j
    refine ⟨by simp [Leg.answered, Leg.gather, DriverMove.frames, hout, setTask], fun j => ?_, fun j => ?_, ?_⟩
    · rw [hset]
      by_cases hj : k = j
      · subst hj
        rw [ofTask_eq htk, if_pos rfl]
        cases hpc : t.pc <;> simp [Leg.gather, InterfaceTask.held, hpc]
      · simp [Leg.gather, hj, ofTask]
    · rw [hset]
      by_cases hj : k = j
      · subst hj
        rw [ofTask_eq htk, if_pos rfl]
        simp [Leg.gather, InterfaceTask.pending]
      · simp [Leg.gather, hj, ofTask]
    · simp [Leg.gather, setTask]
  | @task k t t' q _ ht hstep =>
    rw [passage_task ht]
    have hb := hstep.balanced k
    have hset {α : Type} (f : InterfaceTask → List α) (j : Nat) :=
      ofTask_setTask (s := { s with inbound := q }) f t' ht j
    refine ⟨?_, fun j => ?_, fun j => ?_, ?_⟩
    · rw [gather_task (by simp)]
      simp [Leg.answered, DriverMove.frames, setTask]
    · rw [gather_task (by simp), hset]
      by_cases hj : k = j
      · subst hj
        rw [ofTask_eq ht, if_pos rfl, List.append_nil, hb.held]
      · rw [if_neg hj, (hb.others j hj).1]
        simp [ofTask]
    · rw [hset]
      by_cases hj : k = j
      · subst hj
        rw [ofTask_eq ht, if_pos rfl, hb.pending]
      · rw [if_neg hj, (hb.others j hj).2.2.1, (hb.others j hj).2.2.2]
        simp [ofTask]
    · rw [hb.inbound, gather_task (by simp)]
      rfl

theorem DriverStep.wired {W : World N} {l : DriverMove} (hw : s.Wired) (h : DriverStep W s l u) : u.Wired := by
  cases h with
  | registered => exact hw.spawn _
  | removed => exact hw.erase _ rfl
  | refused => exact hw.erase _ rfl
  | sent _ _ ht => exact Wired.setTask (s := { s with outbound := _ }) hw (taskOf_eq_some.mp ht).2 rfl
  | @task k t t' q _ ht hstep =>
    refine Wired.setTask (s := { s with inbound := q }) hw ht ?_
    cases hstep <;> rfl
  | _ => exact hw

/-- A task that has been there keeps its interface, or another one takes it over for good. -/
theorem DriverStep.routed {W : World N} {l : DriverMove} (h : DriverStep W s l u) (hk : k < s.tasks.length)
    (hu : u.interfaces[i]? = some k) : s.interfaces[i]? = some k := by
  cases h with
  | registered =>
    simp only [answer, spawn, Std.ExtTreeMap.getElem?_insert] at hu
    split at hu
    · cases hu
      exact absurd hk (Nat.lt_irrefl _)
    · exact hu
  | removed | refused =>
    simp only [remove, Std.ExtTreeMap.getElem?_erase] at hu
    split at hu
    · cases hu
    · exact hu
  | _ => exact hu

theorem DriverStep.tasks_le {W : World N} {l : DriverMove} (h : DriverStep W s l u) : s.tasks.length ≤ u.tasks.length := by
  cases h with
  | registered => simp [answer, spawn]
  | sent | task => simp [setTask]
  | _ => exact Nat.le_refl _

theorem DriverStep.keeps_task {W : World N} {l : DriverMove} {t : InterfaceTask} (h : DriverStep W s l u) (ht : s.tasks[k]? = some t) :
    ∃ t', u.tasks[k]? = some t' ∧ t'.interface = t.interface := by
  obtain ⟨hlt, -⟩ := List.getElem?_eq_some_iff.mp ht
  obtain ⟨t', hu⟩ : ∃ t', u.tasks[k]? = some t' := ⟨_, List.getElem?_eq_getElem (Nat.lt_of_lt_of_le hlt h.tasks_le)⟩
  refine ⟨t', hu, ?_⟩
  cases h with
  | registered =>
    rcases task_spawn hu with hold | ⟨hlen, -⟩
    · rw [Option.some.inj (hold.symm.trans ht)]
    · exact absurd hlt (Nat.not_lt.mpr hlen)
  | sent _ _ hj =>
    rcases task_setTask hu with ⟨rfl, rfl⟩ | ⟨-, hold⟩
    · rw [Option.some.inj ((taskOf_eq_some.mp hj).2.symm.trans ht)]
    · rw [Option.some.inj (hold.symm.trans ht)]
  | task _ hj hstep =>
    rcases task_setTask hu with ⟨rfl, rfl⟩ | ⟨-, hold⟩
    · rw [hstep.keeps.1, Option.some.inj (hj.symm.trans ht)]
    · rw [Option.some.inj (hold.symm.trans ht)]
  | _ => rw [Option.some.inj (hu.symm.trans ht)]

theorem tasks_le_run {W : World N} {legs : List Leg} (h : Lts.Run (Observed W) s legs u) : s.tasks.length ≤ u.tasks.length :=
  h.preserve (I := fun u => s.tasks.length ≤ u.tasks.length) (fun _ _ _ hi hst => Nat.le_trans hi hst.1.tasks_le)
    (Nat.le_refl _)

end

/-! ## From the node to the transport -/

section
variable {N : Type} {W : World N} {s₀ s : Driver N} {legs : List Leg} {i : UInt16} {k : Nat}

/-- The bytes of a frame for `i`. -/
def bytesFor (i : UInt16) (f : Frame) : Option Bytes := if f.1 = i then some f.2 else none

namespace Driver

/-- The frames for `i` that task `k` is to send. -/
def waiting (s : Driver N) (i : UInt16) (k : Nat) : List Bytes := s.ofTask k (·.held) ++ s.outbound.filterMap (bytesFor i)

end Driver

/-- The steps between two states in which `i` is behind task `k`. -/
def RoutedStep (W : World N) (i : UInt16) (k : Nat) (s : Driver N) (l : Leg) (u : Driver N) : Prop :=
  Observed W s l u ∧ s.Wired ∧ s.interfaces[i]? = some k ∧ u.interfaces[i]? = some k

/-- `drain_outbound` gives the frames of an interface to its task, and to no other one. -/
theorem fifo_drain (W : World N) (i : UInt16) (k : Nat) :
    Lts.Fifo (RoutedStep W i k) (fun l => (l.gather Passage.drained?).filterMap (bytesFor i)) (Leg.gather (Passage.handed? k))
      fun _ => [] := by
  rintro s ⟨move, p⟩ u ⟨⟨hst, hp⟩, hw, hs, hu⟩
  dsimp only at hst hp
  subst hp
  cases hst with
  | @unknown j b rest _ hout hj =>
    have hne : j ≠ i := fun h => by
      rw [h, hs] at hj
      cases hj
    simp [Leg.gather, passage, hout, bytesFor, hne]
  | @refused j b rest k' t _ hout ht =>
    have hne : j ≠ i := fun h => by
      rw [h] at hu
      simp at hu
    simp [Leg.gather, passage, hout, bytesFor, hne]
  | @sent j b rest k' t _ hout ht =>
    have hj := (taskOf_eq_some.mp ht).1
    by_cases hij : j = i
    · subst hij
      obtain rfl : k' = k := Option.some.inj (hj.symm.trans hs)
      simp [Leg.gather, passage, hout, hj, bytesFor]
    · have hkk : k' ≠ k := fun h => by
        obtain ⟨t', ht', -⟩ := hw i k hs
        exact hij (hw.eq_of_task ht (h ▸ taskOf_eq_some.mpr ⟨hs, ht'⟩))
      simp [Leg.gather, passage, hout, hj, bytesFor, hij, hkk]
  | @task k' t t' q _ ht hstep =>
    dsimp only
    rw [passage_task ht, gather_task (by simp), gather_task (by simp)]
    rfl
  | removed _ hq => simp [Leg.gather, passage, hq]
  | _ => simp [Leg.gather, passage]

theorem fifo_waiting (W : World N) (i : UInt16) (k : Nat) :
    Lts.Fifo (RoutedStep W i k) (fun l => l.answered.filterMap (bytesFor i)) (Leg.gather (Passage.offered? k))
      fun s => s.waiting i k := by
  have hnode : Lts.Fifo (RoutedStep W i k) Leg.answered (Leg.gather Passage.drained?) outbound :=
    fun _ _ _ h => h.1.balanced.outbound
  have htask : Lts.Fifo (RoutedStep W i k) (Leg.gather (Passage.handed? k)) (Leg.gather (Passage.offered? k))
      fun s => s.ofTask k (·.held) := fun _ _ _ h => h.1.balanced.held k
  simpa [waiting] using ((hnode.filterMap (bytesFor i)).series (fifo_drain W i k)).series htask

/-- An interface that a task is behind at the end was behind it all the time. -/
theorem routed_run (hw : s₀.Wired) (h : Lts.Run (Observed W) s₀ legs s) (hk : k < s₀.tasks.length)
    (hs : s.interfaces[i]? = some k) : Lts.Run (RoutedStep W i k) s₀ legs s := by
  induction h with
  | nil => exact .nil
  | snoc hr hst ih =>
    have hw' := hr.preserve (I := Driver.Wired) (fun _ _ _ hi hst => hst.1.wired hi) hw
    have ht := hst.1.routed (Nat.lt_of_lt_of_le hk (tasks_le_run hr)) hs
    exact .snoc (ih ht) ⟨hst, hw', ht, hs⟩

theorem TaskStep.live {r : Prop} {q q' : List Inbound} {t t' : InterfaceTask} (h : TaskStep W r q t q' t') (hl : t'.Live)
    (j : Nat) : t.Live ∧ (t.pc.passage j t'.pc).bind (Passage.offered? k) = (t.pc.passage j t'.pc).bind (Passage.transmitted? k) := by
  cases h with
  | take hpc | sent hpc | receive hpc => simp [InterfaceTask.Live, TaskPc.passage, hpc]
  | failed hpc => exact absurd (hl.2 _ rfl) (by simp [Inbound.gone?])
  | @deliver m hpc =>
    have hm : m.gone? = none := by
      by_contra hm
      exact hl.1 (if_neg hm)
    simp [InterfaceTask.Live, TaskPc.passage, hpc, hm]
  | hungUp => exact absurd rfl hl.1

theorem Observed.live {l : Leg} {t' : InterfaceTask} (h : Observed W s₀ l s) (ht : s.tasks[k]? = some t') (hl : t'.Live) :
    (∀ t, s₀.tasks[k]? = some t → t.Live) ∧ l.gather (Passage.offered? k) = l.gather (Passage.transmitted? k) := by
  obtain ⟨move, p⟩ := l
  obtain ⟨hst, hp⟩ := h
  dsimp only at hst hp
  subst hp
  have hsame (he : s.tasks[k]? = s₀.tasks[k]?) : ∀ t, s₀.tasks[k]? = some t → t.Live := fun t h => by
    cases (he.trans h).symm.trans ht
    exact hl
  cases hst with
  | registered =>
    refine ⟨fun t h => ?_, by simp [Leg.gather, passage]⟩
    rcases task_spawn ht with hold | ⟨hlen, -⟩
    · cases h.symm.trans hold
      exact hl
    · exact absurd (List.getElem?_eq_some_iff.mp h).1 (Nat.not_lt.mpr hlen)
  | sent _ hout hu =>
    refine ⟨fun t h => ?_, by simp [Leg.gather, passage, hout]⟩
    rcases task_setTask ht with ⟨rfl, rfl⟩ | ⟨-, hold⟩
    · cases (taskOf_eq_some.mp hu).2.symm.trans h
      exact hl
    · cases h.symm.trans hold
      exact hl
  | @task k' u u' q _ hu hstep =>
    rw [passage_task hu]
    rcases task_setTask ht with ⟨rfl, rfl⟩ | ⟨hk, hold⟩
    · obtain ⟨hlive, hp⟩ := hstep.live hl k'
      refine ⟨fun t h => ?_, congrArg Option.toList hp⟩
      cases hu.symm.trans h
      exact hlive
    · obtain ⟨ho, hs, -⟩ := (hstep.balanced k').others k hk
      refine ⟨fun t h => ?_, ho.trans hs.symm⟩
      cases h.symm.trans hold
      exact hl
  | removed _ hq => exact ⟨hsame rfl, by simp [Leg.gather, passage, hq]⟩
  | unknown _ hout | refused _ hout => exact ⟨hsame rfl, by simp [Leg.gather, passage, hout]⟩
  | _ => exact ⟨hsame rfl, by simp [Leg.gather, passage]⟩

/-- No frame that the task offers fails. -/
def Unfailed (k : Nat) (l : Leg) : Prop := l.gather (Passage.offered? k) = l.gather (Passage.transmitted? k)

theorem unfailed_run {t : InterfaceTask} (h : Lts.Run (Observed W) s₀ legs s) (hk : k < s₀.tasks.length)
    (ht : s.tasks[k]? = some t) (hl : t.Live) : ∀ l ∈ legs, Unfailed k l := by
  induction h generalizing t with
  | nil => exact fun l hl => (List.not_mem_nil hl).elim
  | snoc hr hst ih =>
    obtain ⟨hlive, hsame⟩ := hst.live ht hl
    have hu := List.getElem?_eq_getElem (Nat.lt_of_lt_of_le hk (tasks_le_run hr))
    intro l hmem
    rcases List.mem_append.mp hmem with hmem | hmem
    · exact ih hu (hlive _ hu) l hmem
    · cases List.mem_singleton.mp hmem
      exact hsame

/-- A task that is about to end stays so. -/
theorem Observed.ends {l : Leg} (h : Observed W s₀ l s) (he : s₀.Ends k) : s.Ends k := by
  obtain ⟨t, ht, hl⟩ := he
  obtain ⟨t', ht', -⟩ := h.1.keeps_task ht
  exact ⟨t', ht', fun hl' => hl ((h.live ht' hl').1 t ht)⟩

/-- A frame is offered by a task that runs, and one that fails ends the task. -/
theorem Observed.offers {l : Leg} (h : Observed W s₀ l s) :
    (l.gather (Passage.offered? k) ≠ [] → ¬ s₀.Ends k) ∧ (l.gather (Passage.failed? k) ≠ [] → s.Ends k) := by
  obtain ⟨move, p⟩ := l
  obtain ⟨hst, hp⟩ := h
  dsimp only at hst hp
  subst hp
  have hlive {t : InterfaceTask} (ht : s₀.tasks[k]? = some t) (hl : t.Live) : ¬ s₀.Ends k := fun ⟨t', ht', hl'⟩ =>
    hl' (Option.some.inj (ht.symm.trans ht') ▸ hl)
  cases hst with
  | @task j t t' q _ ht hstep =>
    rw [passage_task ht]
    by_cases hj : j = k
    · subst hj
      have hset : (({ s₀ with inbound := q } : Driver N).setTask j t').tasks[j]? = some t' :=
        List.getElem?_set_self (List.getElem?_eq_some_iff.mp ht).1
      cases hstep with
      | sent hpc =>
        exact ⟨fun _ => hlive ht (by simp [InterfaceTask.Live, hpc]), by simp [Leg.gather, TaskPc.passage, hpc]⟩
      | failed hpc =>
        exact ⟨fun _ => hlive ht (by simp [InterfaceTask.Live, hpc]), fun _ => ⟨_, hset, fun hl => nomatch hl.2 _ rfl⟩⟩
      | take hpc | receive hpc | deliver hpc | hungUp hpc => simp [Leg.gather, TaskPc.passage, hpc]
    · cases hstep with
      | take hpc | sent hpc | failed hpc | receive hpc | deliver hpc | hungUp hpc =>
        simp [Leg.gather, TaskPc.passage, hpc, hj]
  | sent _ hout | unknown _ hout | refused _ hout => simp [Leg.gather, passage, hout]
  | removed _ hq => simp [Leg.gather, passage, hq]
  | _ => simp [Leg.gather, passage]

theorem Leg.gather_offered (l : Leg) (k : Nat) :
    l.gather (Passage.offered? k) = l.gather (Passage.transmitted? k) ++ l.gather (Passage.failed? k) := by
  obtain ⟨move, p⟩ := l
  cases p with
  | none => rfl
  | some p => cases p <;> simp [Leg.gather]

theorem Leg.length_gather {α : Type} (f : Passage → Option α) (l : Leg) : (l.gather f).length ≤ 1 := by
  unfold Leg.gather
  cases l.2.bind f <;> simp

/-- What a task offers to its transport is transmitted, but for one frame at most, which is the last and ends the task. -/
structure FailsOnce (k : Nat) (legs : List Leg) (s : Driver N) : Prop where
  offered : legs.flatMap (Leg.gather (Passage.offered? k)) =
    legs.flatMap (Leg.gather (Passage.transmitted? k)) ++ legs.flatMap (Leg.gather (Passage.failed? k))
  once : (legs.flatMap (Leg.gather (Passage.failed? k))).length ≤ 1
  ended : legs.flatMap (Leg.gather (Passage.failed? k)) ≠ [] → s.Ends k

theorem failed_run (h : Lts.Run (Observed W) s₀ legs s) : FailsOnce k legs s := by
  refine h.history (I := FailsOnce k) ⟨rfl, Nat.zero_le 1, nofun⟩ fun legs s l u hi hst => ?_
  obtain ⟨hoffers, hfails⟩ := hst.offers (k := k)
  by_cases hf : legs.flatMap (Leg.gather (Passage.failed? k)) = []
  · refine ⟨?_, ?_, ?_⟩ <;> simp only [List.flatMap_append, List.flatMap_singleton, hf, List.nil_append]
    · rw [hi.offered, hf, List.append_nil, l.gather_offered, List.append_assoc]
    · exact l.length_gather _
    · exact hfails
  · -- the task ends, and offers nothing more
    have hends := hi.ended hf
    have hnone : l.gather (Passage.offered? k) = [] := by
      by_contra hne
      exact hoffers hne hends
    obtain ⟨htr, hfl⟩ := List.append_eq_nil_iff.mp ((l.gather_offered k).symm.trans hnone)
    refine ⟨?_, ?_, fun _ => hst.ends hends⟩ <;>
      simp only [List.flatMap_append, List.flatMap_singleton, hnone, htr, hfl, List.append_nil]
    · exact hi.offered
    · exact hi.once

/-- What the node leaves for an interface is offered to its transport in that order, each frame once. -/
theorem offered_in_order {node : N} {keepAlive : Bool} {interfaces : List UInt16} {tr₀ : List DriverMove}
    (h₀ : Lts.Run (DriverStep W) (build node keepAlive interfaces) tr₀ s₀) (h : Lts.Run (Observed W) s₀ legs s)
    (hk₀ : s₀.interfaces[i]? = some k) (hk : s.interfaces[i]? = some k) :
    k < s₀.tasks.length ∧ Lts.Run (RoutedStep W i k) s₀ legs s ∧
      s₀.waiting i k ++ (legs.flatMap Leg.answered).filterMap (bytesFor i) =
        legs.flatMap (Leg.gather (Passage.offered? k)) ++ s.waiting i k := by
  have hw : s₀.Wired := h₀.preserve (fun _ _ _ hi hst => hst.wired hi) (build_wired node keepAlive interfaces)
  obtain ⟨t, ht, -⟩ := hw i k hk₀
  have hlt := (List.getElem?_eq_some_iff.mp ht).1
  have hrouted := routed_run hw h hlt hk
  refine ⟨hlt, hrouted, ?_⟩
  rw [List.filterMap_flatMap]
  exact (fifo_waiting W i k).run hrouted

/-- The frames of an interface reach its transport in the order in which the node left them. `drain_outbound` drops none
of them, and none of them fails before the last. -/
structure LeaveInOrder (i : UInt16) (k : Nat) (s₀ : Driver N) (legs : List Leg) (s : Driver N) : Prop where
  offered : s₀.waiting i k ++ (legs.flatMap Leg.answered).filterMap (bytesFor i) =
    legs.flatMap (Leg.gather (Passage.offered? k)) ++ s.waiting i k
  handed : (legs.flatMap (Leg.gather Passage.drained?)).filterMap (bytesFor i) = legs.flatMap (Leg.gather (Passage.handed? k))
  failsOnce : FailsOnce k legs s

/-- While a task is behind an interface, the frames that are left for the interface are handed to the task, and offered by
it to its transport, in that order, each once; and as long as the task runs, all of them are transmitted. -/
theorem frames_leave_in_order (W : World N) (node : N) (keepAlive : Bool) (interfaces : List UInt16) {tr₀ : List DriverMove}
    (h₀ : Lts.Run (DriverStep W) (build node keepAlive interfaces) tr₀ s₀) (h : Lts.Run (Observed W) s₀ legs s)
    (hk₀ : s₀.interfaces[i]? = some k) (hk : s.interfaces[i]? = some k) : LeaveInOrder i k s₀ legs s := by
  obtain ⟨-, hrouted, hoffered⟩ := offered_in_order h₀ h hk₀ hk
  refine ⟨hoffered, ?_, failed_run h⟩
  rw [List.filterMap_flatMap]
  simpa using (fifo_drain W i k).run hrouted

/-- The task of interface 0 in the course of it. -/
def burstTask (pc : TaskPc) (outbound : List Bytes) : InterfaceTask := { interface := 0, outbound := outbound, pc := pc }

/-- The driver that has answered, when it has given one of the frames to its task. -/
def handedOver (pc : TaskPc) (outbound : List Bytes) : Driver Unit :=
  { answered 2 with outbound := [(0, [7])], tasks := [burstTask pc outbound] }

theorem burst_handed : Observed (burst 2) (answered 2) (.sent, some (.drained (0, [7]) (some 0))) (handedOver .select [[7]]) :=
  ⟨@DriverStep.sent Unit (burst 2) (answered 2) 0 [7] [(0, [7])] 0 _ rfl rfl (answered_taskOf.mpr ⟨rfl, rfl, rfl⟩) nofun
    (by decide), rfl⟩

theorem burst_taken : Observed (burst 2) (handedOver .select [[7]]) (.task 0, none) (handedOver (.sending [7]) []) :=
  ⟨.task (by decide) rfl (.take rfl rfl), rfl⟩

theorem burst_transmitted :
    Observed (burst 2) (handedOver (.sending [7]) []) (.task 0, some (.transmitted 0 [7])) (handedOver .select []) :=
  ⟨.task (by decide) rfl (.sent rfl rfl), rfl⟩

/-- Of two frames one has been transmitted, and one is still with the node. -/
theorem frames_leave_in_order_burst : LeaveInOrder 0 0 (answered 2)
    [(.sent, some (.drained (0, [7]) (some 0))), (.task 0, none), (.task 0, some (.transmitted 0 [7]))]
    (handedOver .select []) :=
  frames_leave_in_order (burst 2) () false [0] ((burst_run 2).mono fun _ _ _ h => h.2)
    (.cons burst_handed (.cons burst_taken (.single burst_transmitted))) (by decide) (by decide)

theorem observed_run {tr : List DriverMove} (h : Lts.Run (DriverStep W) s₀ tr s) :
    ∃ legs, legs.map Prod.fst = tr ∧ Lts.Run (Observed W) s₀ legs s := by
  induction h with
  | nil => exact ⟨[], rfl, .nil⟩
  | @snoc tr t l u _ hst ih =>
    obtain ⟨legs, hlegs, hr⟩ := ih
    exact ⟨legs ++ [(l, t.passage u l)], by simp [hlegs], .snoc hr ⟨hst, rfl⟩⟩

/-! ## From the transport to the node -/

/-- The interface a message is about. -/
def Inbound.interface : Inbound → UInt16
  | .packet i _ | .closed i | .error i => i

theorem Reception.inbound_interface (r : Reception) (i : UInt16) : (r.inbound i).interface = i := by cases r <;> rfl

/-- A message about `i`. -/
def messageFrom (i : UInt16) (m : Inbound) : Option Inbound := if m.interface = i then some m else none

namespace Driver

/-- What a task has for the driver is about its own interface. -/
def Labelled (s : Driver N) : Prop :=
  ∀ (k : Nat) (t : InterfaceTask) (m : Inbound), s.tasks[k]? = some t → t.pc = .delivering m → m.interface = t.interface

/-- No other task than `k` has been behind `i`. -/
def Sole (s : Driver N) (i : UInt16) (k : Nat) : Prop :=
  ∀ (k' : Nat) (t : InterfaceTask), s.tasks[k']? = some t → (t.interface = i ↔ k' = k)

end Driver

variable {u : Driver N} {l : DriverMove}

theorem DriverStep.labelled (hs : s.Labelled) (h : DriverStep W s l u) : u.Labelled := by
  cases h with
  | registered =>
    intro k t m ht hm
    rcases task_spawn ht with hold | ⟨-, rfl⟩
    · exact hs k t m hold hm
    · cases hm
  | @sent i b rest j w _ _ hj =>
    intro k t m ht hm
    rcases task_setTask ht with ⟨rfl, rfl⟩ | ⟨-, hold⟩
    · exact hs j w m (taskOf_eq_some.mp hj).2 hm
    · exact hs k t m hold hm
  | @task j w w' q _ hj hstep =>
    intro k t m ht hm
    rcases task_setTask ht with ⟨rfl, rfl⟩ | ⟨-, hold⟩
    · cases hstep with
      | take | sent | hungUp => cases hm
      | failed =>
        cases hm
        rfl
      | receive =>
        cases hm
        exact Reception.inbound_interface _ _
      | deliver =>
        dsimp only at hm
        split at hm <;> cases hm
    · exact hs k t m hold hm
  | _ => exact hs

/-- The steps after which no other task than `k` has been behind `i`. -/
def SoleStep (W : World N) (i : UInt16) (k : Nat) (s : Driver N) (l : Leg) (u : Driver N) : Prop :=
  Observed W s l u ∧ s.Labelled ∧ s.Sole i k

/-- The messages about an interface are those of its task. -/
theorem fifo_deliver (W : World N) (i : UInt16) (k : Nat) :
    Lts.Fifo (SoleStep W i k) (Leg.gather (Passage.deliveredBy? k))
      (fun l => (l.gather Passage.delivered?).filterMap (messageFrom i)) fun _ => [] := by
  rintro s ⟨move, p⟩ u ⟨⟨hst, hp⟩, hl, hsole⟩
  dsimp only at hst hp
  subst hp
  cases hst with
  | @task j t t' q _ ht hstep =>
    dsimp only
    rw [passage_task ht]
    cases hstep with
    | @deliver m hpc =>
      have hm := hl j t m ht hpc
      by_cases hj : j = k
      · subst hj
        simp [Leg.gather, TaskPc.passage, hpc, messageFrom, hm, (hsole j t ht).mpr rfl]
      · have hne : t.interface ≠ i := fun h => hj ((hsole j t ht).mp h)
        simp [Leg.gather, TaskPc.passage, hpc, messageFrom, hm, hne, hj]
    | take hpc | sent hpc | failed hpc | receive hpc | hungUp hpc => simp [Leg.gather, TaskPc.passage, hpc]
  | sent _ hout => simp [Leg.gather, passage, hout]
  | unknown _ hout | refused _ hout => simp [Leg.gather, passage, hout]
  | removed _ hq => simp [Leg.gather, passage, hq]
  | _ => simp [Leg.gather, passage]

namespace Driver

/-- What is on its way to the node from `i`, whose task is `k`. -/
def incoming (s : Driver N) (i : UInt16) (k : Nat) : List Inbound :=
  s.inbound.filterMap (messageFrom i) ++ s.ofTask k (·.pending)

end Driver

theorem fifo_incoming (W : World N) (i : UInt16) (k : Nat) :
    Lts.Fifo (SoleStep W i k) (Leg.gather (Passage.raised? k))
      (fun l => (l.gather Passage.consumed?).filterMap (messageFrom i)) fun s => s.incoming i k := by
  have htask : Lts.Fifo (SoleStep W i k) (Leg.gather (Passage.raised? k)) (Leg.gather (Passage.deliveredBy? k))
      fun s => s.ofTask k (·.pending) := fun _ _ _ h => h.1.balanced.pending k
  have hqueue : Lts.Fifo (SoleStep W i k) (Leg.gather Passage.delivered?) (Leg.gather Passage.consumed?) inbound :=
    fun _ _ _ h => h.1.balanced.inbound
  simpa [incoming] using (htask.series (fifo_deliver W i k)).series (hqueue.filterMap (messageFrom i))

/-- A task that is the only one of its interface at the end was so all the time. -/
theorem sole_run (hl : s₀.Labelled) (h : Lts.Run (Observed W) s₀ legs s) (hs : s.Sole i k) :
    Lts.Run (SoleStep W i k) s₀ legs s := by
  induction h with
  | nil => exact .nil
  | snoc hr hst ih =>
    have hl' := hr.preserve (I := Driver.Labelled) (fun _ _ _ hi h => h.1.labelled hi) hl
    have hsole : Driver.Sole _ i k := fun j t ht => by
      obtain ⟨t', ht', hi⟩ := hst.1.keeps_task ht
      rw [← hi]
      exact hs j t' ht'
    exact .snoc (ih hsole) ⟨hst, hl', hsole⟩

/-- A task that ends or has ended has nothing more for the driver, and one that says so ends. -/
theorem Observed.raises {l : Leg} {m : Inbound} (h : Observed W s l u) (hm : m ∈ l.gather (Passage.raised? k)) :
    l.gather (Passage.raised? k) = [m] ∧ ∃ t, s.tasks[k]? = some t ∧ t.Live ∧
      (m.gone? ≠ none → ∀ t', u.tasks[k]? = some t' → ¬ t'.Live) := by
  obtain ⟨move, p⟩ := l
  obtain ⟨hst, hp⟩ := h
  dsimp only at hst hp
  subst hp
  cases hst with
  | @task j w w' q _ hj hstep =>
    rw [passage_task hj] at hm ⊢
    have hend {m' : Inbound} (hpc : w'.pc = .delivering m') (hm' : m'.gone? ≠ none) (hjk : j = k) :
        ∀ t', (({ s with inbound := q } : Driver N).setTask j w').tasks[k]? = some t' → ¬ t'.Live := by
      subst hjk
      intro t' ht' hl
      rcases task_setTask ht' with ⟨-, rfl⟩ | ⟨hne, -⟩
      · exact hm' (hl.2 m' hpc)
      · exact hne rfl
    cases hstep with
    | @receive r hpc hr =>
      by_cases hjk : j = k
      · obtain rfl : m = r.inbound w.interface := by simpa [Leg.gather, TaskPc.passage, hpc, hjk] using hm
        refine ⟨by simp [Leg.gather, TaskPc.passage, hpc, hjk], w, hjk ▸ hj, ?_, fun hg => hend rfl hg hjk⟩
        simp [InterfaceTask.Live, hpc]
      · simp [Leg.gather, TaskPc.passage, hpc, hjk] at hm
    | failed hpc =>
      by_cases hjk : j = k
      · obtain rfl : m = .error w.interface := by simpa [Leg.gather, TaskPc.passage, hpc, hjk] using hm
        refine ⟨by simp [Leg.gather, TaskPc.passage, hpc, hjk], w, hjk ▸ hj, ?_, fun hg => hend rfl hg hjk⟩
        simp [InterfaceTask.Live, hpc]
      · simp [Leg.gather, TaskPc.passage, hpc, hjk] at hm
    | take hpc | sent hpc | deliver hpc | hungUp hpc => simp [Leg.gather, TaskPc.passage, hpc] at hm
  | sent _ hout => simp [Leg.gather, passage, hout] at hm
  | unknown _ hout | refused _ hout => simp [Leg.gather, passage, hout] at hm
  | removed _ hq => simp [Leg.gather, passage, hq] at hm
  | _ => simp [Leg.gather, passage] at hm

/-- Packets, and at most one message after them, which ends the task. -/
structure EndsOnce (messages : List Inbound) (ended : Prop) : Prop where
  packets : ∀ m ∈ messages.dropLast, m.gone? = none
  last : ∀ m, messages.getLast? = some m → m.gone? ≠ none → ended

theorem EndsOnce.running {messages : List Inbound} {ended : Prop} (h : EndsOnce messages ended) (he : ¬ ended) :
    ∀ m ∈ messages, m.gone? = none := by
  intro m hm
  rcases List.eq_nil_or_concat' messages with rfl | ⟨init, last, rfl⟩
  · cases hm
  · have hpackets := h.packets
    rw [List.dropLast_concat] at hpackets
    rcases List.mem_append.mp hm with hmem | hmem
    · exact hpackets m hmem
    · cases List.mem_singleton.mp hmem
      by_contra hg
      exact he (h.last m List.getLast?_concat hg)

theorem raised_run (h : Lts.Run (Observed W) s₀ legs s) :
    EndsOnce (legs.flatMap (Leg.gather (Passage.raised? k))) (s.Ends k) := by
  induction h with
  | nil => exact ⟨by simp, by simp⟩
  | snoc _ hst ih =>
    rw [List.flatMap_append, List.flatMap_singleton]
    generalize hm : Leg.gather (Passage.raised? k) _ = raised
    cases raised with
    | nil =>
      rw [List.append_nil]
      refine ⟨ih.packets, fun m hlast hg => ?_⟩
      exact hst.ends (ih.last m hlast hg)
    | cons m rest =>
      obtain ⟨he, t, ht, hl, hend⟩ := hst.raises (hm ▸ List.mem_cons_self)
      obtain rfl : rest = [] := by simpa [hm] using he
      obtain ⟨t', ht', -⟩ := hst.1.keeps_task ht
      constructor
      · rw [List.dropLast_concat]
        exact ih.running fun ⟨v, hv, hdead⟩ => hdead (Option.some.inj (ht.symm.trans hv) ▸ hl)
      · intro m' hlast hg
        rw [List.getLast?_concat] at hlast
        cases hlast
        exact ⟨t', ht', hend hg t' ht'⟩

/-- What an interface has for the node reaches it in order. -/
structure ArriveInOrder (i : UInt16) (k : Nat) (legs : List Leg) (s : Driver N) : Prop where
  order : legs.flatMap (Leg.gather (Passage.raised? k)) =
    (legs.flatMap (Leg.gather Passage.consumed?)).filterMap (messageFrom i) ++ s.incoming i k
  once : EndsOnce (legs.flatMap (Leg.gather (Passage.raised? k))) (s.Ends k)

theorem build_idle (node : N) (keepAlive : Bool) (interfaces : List UInt16) :
    (build node keepAlive interfaces).inbound = [] ∧
    ∀ (k : Nat) (t : InterfaceTask), (build node keepAlive interfaces).tasks[k]? = some t → t.pc = .select := by
  refine build_induct (P := fun s => s.inbound = [] ∧ ∀ (k : Nat) (t : InterfaceTask), s.tasks[k]? = some t → t.pc = .select)
    node keepAlive interfaces ⟨rfl, by simp [build]⟩ fun s i hs => ⟨hs.1, fun k t ht => ?_⟩
  rcases task_spawn ht with hold | ⟨-, rfl⟩
  · exact hs.2 k t hold
  · rfl

theorem build_labelled (node : N) (keepAlive : Bool) (interfaces : List UInt16) :
    (build node keepAlive interfaces).Labelled := by
  intro k t m ht hm
  rw [(build_idle node keepAlive interfaces).2 k t ht] at hm
  cases hm

/-- What the transport of an interface returns is given to the node in that order, each packet once, and the end of the
interface after everything else. -/
theorem packets_arrive_in_order (W : World N) (node : N) (keepAlive : Bool) (interfaces : List UInt16)
    (h : Lts.Run (Observed W) (build node keepAlive interfaces) legs s) (hs : s.Sole i k) : ArriveInOrder i k legs s := by
  obtain ⟨hin, hpc⟩ := build_idle node keepAlive interfaces
  have hempty : (build node keepAlive interfaces).incoming i k = [] := by
    unfold incoming ofTask
    rw [hin]
    split
    · rename_i t ht
      simp [InterfaceTask.pending, hpc k t ht]
    · rfl
  refine ⟨?_, raised_run h⟩
  have hrun := (fifo_incoming W i k).run (sole_run (build_labelled node keepAlive interfaces) h hs)
  rwa [hempty, List.nil_append, ← List.filterMap_flatMap] at hrun

/-- The task of interface 0 has two packets, one after the other, and the loop takes the first. -/
def arrivals : List Leg :=
  [(.task 0, some (.arrived 0 (.packet 0 [7]))), (.task 0, some (.delivered 0 (.packet 0 [7]))),
    (.task 0, some (.arrived 0 (.packet 0 [8]))), (.task 0, some (.delivered 0 (.packet 0 [8]))),
    (.received 0 [7] [(0, [7])], some (.consumed (.packet 0 [7])))]

/-- The driver in the course of it. -/
def arriving (pc : TaskPc) (inbound : List Inbound) : Driver Unit :=
  { build () false [0] with tasks := [burstTask pc []], inbound := inbound }

theorem arrivals_run : Lts.Run (Observed (burst 1)) (build () false [0]) arrivals
    ((arriving .select [.packet 0 [8]]).answer () [(0, [7])]) := by
  have hrun {pc : TaskPc} {q : List Inbound} : (arriving pc q).pc ≠ .returned := nofun
  have harrived (b : Bytes) (q : List Inbound) : Observed (burst 1) (arriving .select q)
      (.task 0, some (.arrived 0 (.packet 0 b))) (arriving (.delivering (.packet 0 b)) q) := by
    have hstep (registered : Prop) : TaskStep (burst 1) registered q (burstTask .select []) q
        (burstTask (.delivering (.packet 0 b)) []) := .receive (r := .packet b) rfl ⟨b, rfl⟩
    exact ⟨.task hrun rfl (hstep _), rfl⟩
  have hdelivered (b : Bytes) {q : List Inbound} (hq : q.length < INTERFACE_CAPACITY) :
      Observed (burst 1) (arriving (.delivering (.packet 0 b)) q) (.task 0, some (.delivered 0 (.packet 0 b)))
        (arriving .select (q ++ [.packet 0 b])) := by
    have hstep (registered : Prop) : TaskStep (burst 1) registered q (burstTask (.delivering (.packet 0 b)) [])
        (q ++ [.packet 0 b]) (burstTask .select []) := .deliver rfl hq
    exact ⟨.task hrun rfl (hstep _), rfl⟩
  have hreceived : Observed (burst 1) (arriving .select [.packet 0 [7], .packet 0 [8]])
      (.received 0 [7] [(0, [7])], some (.consumed (.packet 0 [7])))
      ((arriving .select [.packet 0 [8]]).answer () [(0, [7])]) := by
    have hin : (arriving .select [.packet 0 [7], .packet 0 [8]]).inbound = [.packet 0 [7], .packet 0 [8]] := rfl
    exact ⟨.received rfl hin rfl, rfl⟩
  exact .cons (harrived [7] []) (.cons (hdelivered [7] (by decide)) (.cons (harrived [8] [.packet 0 [7]])
    (.cons (hdelivered [8] (by decide)) (.single hreceived))))

/-- Of two packets from interface 0 the loop has taken one. -/
theorem packets_arrive_in_order_burst :
    ArriveInOrder 0 0 arrivals ((arriving .select [.packet 0 [8]]).answer () [(0, [7])]) := by
  refine packets_arrive_in_order (burst 1) () false [0] arrivals_run fun k t ht => ?_
  have hk : k = 0 := Nat.lt_one_iff.mp (List.getElem?_eq_some_iff.mp ht).1
  subst hk
  cases ht
  simp [burstTask]

end

end Reticulum
