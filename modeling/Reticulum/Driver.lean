import Reticulum.Lib.Bytes
import Reticulum.Lib.Run

/-!
# The driver loop and its interface tasks

`driver.rs`: one `Driver::run` loop and one `run_interface` task for every
interface, exchanging messages over bounded queues. What the node answers and
what the transports do is a parameter; the event consumer always drains.
-/

namespace Reticulum

def INTERFACE_CAPACITY : Nat := 32

/-- A frame and the interface it leaves on. -/
abbrev Frame := UInt16 × Bytes

inductive Inbound
  | packet (interface : UInt16) (bytes : Bytes)
  | closed (interface : UInt16)
  | error (interface : UInt16)
  deriving DecidableEq

namespace Inbound

/-- The interface whose task has ended with this message. -/
def gone? : Inbound → Option UInt16
  | .packet _ _ => none
  | .closed interface | .error interface => some interface

end Inbound

/-- How `recv_packet` ends: with a packet, at the end of the stream or with an error. -/
inductive Reception
  | packet (bytes : Bytes)
  | closed
  | error
  deriving DecidableEq

/-- What `run_interface` has for the driver then. -/
def Reception.inbound (interface : UInt16) : Reception → Inbound
  | packet bytes => .packet interface bytes
  | closed => .closed interface
  | error => .error interface

/-- Where a `run_interface` task is. -/
inductive TaskPc
  | select
  | sending (packet : Bytes)
  | delivering (message : Inbound)
  | returned
  deriving DecidableEq

structure InterfaceTask where
  interface : UInt16
  outbound : List Bytes
  pc : TaskPc
  deriving DecidableEq

/-- Where the `Driver::run` loop is. -/
inductive DriverPc
  | select
  /-- Inside `emit_node_events`. -/
  | emitting
  /-- Inside `drain_outbound`. -/
  | draining
  | returned
  deriving DecidableEq

/-- The driver with its tasks. A sender of the source is the place of its task in the list. -/
structure Driver (N : Type) where
  node : N
  /-- `node.outbound` -/
  outbound : List Frame
  pc : DriverPc
  interfaces : BTreeMap UInt16 Nat
  inbound : List Inbound
  keepAlive : Bool
  tasks : List InterfaceTask

/-- What the driver is run with: the calls it makes on its node, with the frames each of them
enqueues, and what the transports may do. -/
structure World (N : Type) where
  /-- The operations of a command, or of an event that the LXMF runtime reacts to. -/
  called : N → N → List Frame → Prop
  ticked : N → N → List Frame → Prop
  received : N → UInt16 → Bytes → N → List Frame → Prop
  registered : N → UInt16 → N → List Frame → Prop
  unregister : N → UInt16 → N
  /-- `send_packet` ends, with or without success. -/
  sends : UInt16 → Bytes → Bool → Prop
  receives : UInt16 → Reception → Prop

namespace Driver

variable {N : Type}

/-- The task behind the sender of an interface. -/
def taskOf (s : Driver N) (i : UInt16) : Option (Nat × InterfaceTask) := do
  let k ← s.interfaces[i]?
  let t ← s.tasks[k]?
  return (k, t)

def setTask (s : Driver N) (k : Nat) (t : InterfaceTask) : Driver N := { s with tasks := s.tasks.set k t }

/-- `spawn_interface` -/
def spawn (s : Driver N) (i : UInt16) : Driver N :=
  { s with
    interfaces := s.interfaces.insert i s.tasks.length
    tasks := s.tasks ++ [{ interface := i, outbound := [], pc := .select }] }

/-- A call on the node has returned. -/
def answer (s : Driver N) (n : N) (frames : List Frame) : Driver N :=
  { s with node := n, outbound := s.outbound ++ frames, pc := .emitting }

/-- `Inbound::Closed` and `Inbound::Error` -/
def remove (s : Driver N) (i : UInt16) (n : N) : Driver N :=
  { s with
    node := n
    interfaces := s.interfaces.erase i
    pc := if (s.interfaces.erase i).isEmpty ∧ s.keepAlive = false then .returned else .select }

end Driver

/-- One step of the loop or of a task. -/
inductive DriverMove
  | called (frames : List Frame)
  | ticked (frames : List Frame)
  | registered (interface : UInt16) (frames : List Frame)
  | received (interface : UInt16) (bytes : Bytes) (frames : List Frame)
  | removed (interface : UInt16)
  | shutdown
  | reacted (frames : List Frame)
  | emitted
  | drained
  | unknown
  | refused
  | sent
  | task (index : Nat)

open Driver

/-- `run_interface`: one step of a task, with the inbound queue before and after it. -/
inductive TaskStep {N : Type} (W : World N) (registered : Prop) :
    List Inbound → InterfaceTask → List Inbound → InterfaceTask → Prop
  | take {q : List Inbound} {t : InterfaceTask} {b : Bytes} {rest : List Bytes} : t.pc = .select →
    t.outbound = b :: rest → TaskStep W registered q t q { t with outbound := rest, pc := .sending b }
  | sent {q : List Inbound} {t : InterfaceTask} {b : Bytes} : t.pc = .sending b → W.sends t.interface b true →
    TaskStep W registered q t q { t with pc := .select }
  | failed {q : List Inbound} {t : InterfaceTask} {b : Bytes} : t.pc = .sending b → W.sends t.interface b false →
    TaskStep W registered q t q { t with pc := .delivering (.error t.interface) }
  | receive {q : List Inbound} {t : InterfaceTask} {r : Reception} : t.pc = .select → W.receives t.interface r →
    TaskStep W registered q t q { t with pc := .delivering (r.inbound t.interface) }
  | deliver {q : List Inbound} {t : InterfaceTask} {m : Inbound} : t.pc = .delivering m →
    q.length < INTERFACE_CAPACITY →
    TaskStep W registered q t (q ++ [m]) { t with pc := if m.gone? = none then .select else .returned }
  /-- Every sender of the task's queue is dropped. -/
  | hungUp {q : List Inbound} {t : InterfaceTask} : t.pc = .select → t.outbound = [] → ¬ registered →
    TaskStep W registered q t q { t with pc := .returned }

/-- `Driver::run` with its interface tasks, for as long as the loop runs: any of them takes the next step. -/
inductive DriverStep {N : Type} (W : World N) : Driver N → DriverMove → Driver N → Prop
  | called {s : Driver N} {n : N} {fs : List Frame} : s.pc = .select → W.called s.node n fs →
    DriverStep W s (.called fs) (s.answer n fs)
  | ticked {s : Driver N} {n : N} {fs : List Frame} : s.pc = .select → W.ticked s.node n fs →
    DriverStep W s (.ticked fs) (s.answer n fs)
  | registered {s : Driver N} {i : UInt16} {n : N} {fs : List Frame} : s.pc = .select → s.interfaces[i]? = none →
    W.registered s.node i n fs → DriverStep W s (.registered i fs) ((s.spawn i).answer n fs)
  | received {s : Driver N} {i : UInt16} {b : Bytes} {rest : List Inbound} {n : N} {fs : List Frame} :
    s.pc = .select → s.inbound = .packet i b :: rest → W.received s.node i b n fs →
    DriverStep W s (.received i b fs) ({ s with inbound := rest }.answer n fs)
  | removed {s : Driver N} {i : UInt16} {m : Inbound} {rest : List Inbound} : s.pc = .select →
    s.inbound = m :: rest → m.gone? = some i →
    DriverStep W s (.removed i) ({ s with inbound := rest }.remove i (W.unregister s.node i))
  /-- A `Shutdown` command, or a channel the loop listens on is closed. -/
  | shutdown {s : Driver N} : s.pc = .select → DriverStep W s .shutdown { s with pc := .returned }
  | reacted {s : Driver N} {n : N} {fs : List Frame} : s.pc = .emitting → W.called s.node n fs →
    DriverStep W s (.reacted fs) (s.answer n fs)
  | emitted {s : Driver N} : s.pc = .emitting → DriverStep W s .emitted { s with pc := .draining }
  | drained {s : Driver N} : s.pc = .draining → s.outbound = [] → DriverStep W s .drained { s with pc := .select }
  /-- No interface of the driver has the id: the frame is dropped. -/
  | unknown {s : Driver N} {i : UInt16} {b : Bytes} {rest : List Frame} : s.pc = .draining →
    s.outbound = (i, b) :: rest → s.interfaces[i]? = none → DriverStep W s .unknown { s with outbound := rest }
  /-- The receiver of the queue is gone: the frame is dropped and the interface with it. -/
  | refused {s : Driver N} {i : UInt16} {b : Bytes} {rest : List Frame} {k : Nat} {t : InterfaceTask} :
    s.pc = .draining → s.outbound = (i, b) :: rest → s.taskOf i = some (k, t) → t.pc = .returned →
    DriverStep W s .refused { s with outbound := rest, interfaces := s.interfaces.erase i }
  | sent {s : Driver N} {i : UInt16} {b : Bytes} {rest : List Frame} {k : Nat} {t : InterfaceTask} :
    s.pc = .draining → s.outbound = (i, b) :: rest → s.taskOf i = some (k, t) → t.pc ≠ .returned →
    t.outbound.length < INTERFACE_CAPACITY →
    DriverStep W s .sent ({ s with outbound := rest }.setTask k { t with outbound := t.outbound ++ [b] })
  | task {s : Driver N} {k : Nat} {t t' : InterfaceTask} {q : List Inbound} : s.pc ≠ .returned →
    s.tasks[k]? = some t → TaskStep W (s.interfaces[t.interface]? = some k) s.inbound t q t' →
    DriverStep W s (.task k) ({ s with inbound := q }.setTask k t')

namespace Driver

variable {N : Type}

/-- `Driver::build`: a task for each of the interfaces, nothing in flight. -/
def build (node : N) (keepAlive : Bool) (interfaces : List UInt16) : Driver N :=
  interfaces.foldl spawn
    { node := node, outbound := [], pc := .select, interfaces := ∅, inbound := [], keepAlive := keepAlive, tasks := [] }

theorem taskOf_eq_some {s : Driver N} {i : UInt16} {k : Nat} {t : InterfaceTask} :
    s.taskOf i = some (k, t) ↔ s.interfaces[i]? = some k ∧ s.tasks[k]? = some t := by
  simp only [taskOf, bind, pure, Option.bind_eq_some_iff, Option.some.injEq, Prod.mk.injEq]
  constructor
  · rintro ⟨_, hk, _, ht, rfl, rfl⟩
    exact ⟨hk, ht⟩
  · rintro ⟨hk, ht⟩
    exact ⟨k, hk, t, ht, rfl, rfl⟩

/-! ## Senders and their tasks -/

/-- Every sender leads to a task of its own interface. -/
def Wired (s : Driver N) : Prop :=
  ∀ (i : UInt16) (k : Nat), s.interfaces[i]? = some k → ∃ t, s.tasks[k]? = some t ∧ t.interface = i

variable {s : Driver N} {i j : UInt16} {k : Nat} {t u : InterfaceTask}

theorem Wired.interface (hw : s.Wired) (h : s.taskOf i = some (k, t)) : t.interface = i := by
  obtain ⟨hk, ht⟩ := taskOf_eq_some.mp h
  obtain ⟨u, hu, hi⟩ := hw i k hk
  rw [Option.some.inj (ht.symm.trans hu)]
  exact hi

/-- Two interfaces never share a task. -/
theorem Wired.eq_of_task (hw : s.Wired) (h : s.taskOf i = some (k, t)) (h' : s.taskOf j = some (k, u)) : i = j := by
  have htu : t = u := Option.some.inj ((taskOf_eq_some.mp h).2.symm.trans (taskOf_eq_some.mp h').2)
  rw [← hw.interface h, ← hw.interface h', htu]

theorem taskOf_setTask {t' : InterfaceTask} {k' : Nat} (h : (s.setTask k t').taskOf j = some (k', u)) :
    (k' = k ∧ u = t') ∨ (k' ≠ k ∧ s.taskOf j = some (k', u)) := by
  obtain ⟨hk, hu⟩ := taskOf_eq_some.mp h
  simp only [setTask, List.getElem?_set] at hu
  by_cases hkk : k = k'
  · subst hkk
    rw [if_pos rfl] at hu
    split at hu
    · exact .inl ⟨rfl, (Option.some.inj hu).symm⟩
    · cases hu
  · rw [if_neg hkk] at hu
    exact .inr ⟨Ne.symm hkk, taskOf_eq_some.mpr ⟨hk, hu⟩⟩

theorem taskOf_setTask_self {t' : InterfaceTask} (h : s.taskOf i = some (k, t)) :
    (s.setTask k t').taskOf i = some (k, t') := by
  obtain ⟨hk, ht⟩ := taskOf_eq_some.mp h
  refine taskOf_eq_some.mpr ⟨hk, ?_⟩
  simp [setTask, (List.getElem?_eq_some_iff.mp ht).1]

theorem taskOf_setTask_ne {k' : Nat} {t' : InterfaceTask} (h : s.taskOf i = some (k, t)) (hk : k' ≠ k) :
    (s.setTask k' t').taskOf i = some (k, t) := by
  obtain ⟨hi, ht⟩ := taskOf_eq_some.mp h
  exact taskOf_eq_some.mpr ⟨hi, by simpa [setTask, List.getElem?_set, hk] using ht⟩

theorem Wired.setTask {t' : InterfaceTask} (hw : s.Wired) (ht : s.tasks[k]? = some t)
    (hi : t'.interface = t.interface) : (s.setTask k t').Wired := by
  intro j k' hk'
  obtain ⟨u, hu, hj⟩ := hw j k' hk'
  by_cases hkk : k = k'
  · subst hkk
    obtain rfl : t = u := Option.some.inj (ht.symm.trans hu)
    refine ⟨t', ?_, hi.trans hj⟩
    simp [Driver.setTask, (List.getElem?_eq_some_iff.mp ht).1]
  · exact ⟨u, by simpa [Driver.setTask, List.getElem?_set, hkk] using hu, hj⟩

theorem Wired.spawn (hw : s.Wired) (i : UInt16) : (s.spawn i).Wired := by
  intro j k hk
  simp only [Driver.spawn, Std.ExtTreeMap.getElem?_insert] at hk
  split at hk
  · rename_i hij
    cases hk
    exact ⟨_, List.getElem?_concat_length, by simpa using hij⟩
  · obtain ⟨u, hu, hj⟩ := hw j k hk
    exact ⟨u, (List.getElem?_append_left (List.getElem?_eq_some_iff.mp hu).1).trans hu, hj⟩

theorem Wired.erase (hw : s.Wired) (i : UInt16) {m : BTreeMap UInt16 Nat} (hm : m = s.interfaces.erase i) (j : UInt16)
    (k : Nat) (hk : m[j]? = some k) : ∃ t, s.tasks[k]? = some t ∧ t.interface = j := by
  subst hm
  rw [Std.ExtTreeMap.getElem?_erase] at hk
  split at hk
  · cases hk
  · exact hw j k hk

/-- What holds of an empty driver and is kept by every spawn holds of a driver just built. -/
theorem build_induct {P : Driver N → Prop} (node : N) (keepAlive : Bool) (interfaces : List UInt16)
    (h₀ : P (build node keepAlive [])) (hs : ∀ s i, P s → P (s.spawn i)) : P (build node keepAlive interfaces) := by
  have h : ∀ s : Driver N, P s → P (interfaces.foldl Driver.spawn s) := by
    induction interfaces with
    | nil => exact fun s hP => hP
    | cons i rest ih => exact fun s hP => ih _ (hs s i hP)
  exact h _ h₀

theorem build_wired (node : N) (keepAlive : Bool) (interfaces : List UInt16) : (build node keepAlive interfaces).Wired := by
  refine build_induct node keepAlive interfaces (fun i k hk => ?_) fun s i h => h.spawn i
  simp [build] at hk

theorem build_pc (node : N) (keepAlive : Bool) (interfaces : List UInt16) :
    (build node keepAlive interfaces).pc = .select :=
  build_induct (P := fun s => s.pc = .select) node keepAlive interfaces rfl fun _ _ h => h

end Driver

end Reticulum
