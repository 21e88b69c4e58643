import Reticulum.Conservation
import Reticulum.Node
import Reticulum.Sample

/-!
# What a snapshot shows

The driver counts what it takes from the transports and what it hands to their
tasks. A snapshot lists every interface it ever had, says which of them still
have a task behind them, and shows the counts since each was registered.
-/

namespace Reticulum

open Driver

structure InterfaceSnapshot where
  id : UInt16
  online : Bool
  rxPackets : Nat
  rxBytes : Nat
  txPackets : Nat
  txBytes : Nat
  deriving DecidableEq

namespace InterfaceSnapshot

@[simps] def new (id : UInt16) : InterfaceSnapshot :=
  { id := id, online := true, rxPackets := 0, rxBytes := 0, txPackets := 0, txBytes := 0 }

@[simps] def offline (x : InterfaceSnapshot) : InterfaceSnapshot := { x with online := false }

@[simps] def countReceived (b : Bytes) (x : InterfaceSnapshot) : InterfaceSnapshot :=
  { x with rxPackets := satAdd x.rxPackets 1, rxBytes := satAdd x.rxBytes (min b.length U64_MAX) }

@[simps] def countSent (b : Bytes) (x : InterfaceSnapshot) : InterfaceSnapshot :=
  { x with txPackets := satAdd x.txPackets 1, txBytes := satAdd x.txBytes (min b.length U64_MAX) }

end InterfaceSnapshot

/-- `interface_stats` -/
abbrev InterfaceStats := BTreeMap UInt16 InterfaceSnapshot

structure PathSnapshot where
  destination : Arr 16
  interface : UInt16
  nextHopTransportId : Option (Arr 16)
  hops : UInt8
  expiresAt : Nat
  timestamp : Nat
  deriving DecidableEq

def PathSnapshot.ofEntry (destination : Arr 16) (entry : PathEntry) : PathSnapshot where
  destination := destination
  interface := entry.interface
  nextHopTransportId := entry.nextHopTransportId
  hops := entry.hops
  expiresAt := entry.expiresAt
  timestamp := entry.timestamp

structure DriverSnapshot where
  identityHash : Arr 16
  interfaces : List InterfaceSnapshot
  paths : List PathSnapshot

/-- `sort_by_key` -/
def sortByKey {α κ : Type} [Ord κ] (key : α → κ) (xs : List α) : List α :=
  xs.mergeSort fun a b => (compare (key a) (key b)).isLE

namespace Driver

variable {N : Type}

/-- The counters after a step. -/
def meter (s : Driver N) (stats : InterfaceStats) : DriverMove → InterfaceStats
  | .registered i _ => stats.insert i (.new i)
  | .received i b _ => stats.modify i (.countReceived b)
  | .removed i => stats.modify i .offline
  | .refused =>
    match s.outbound with
    | (i, _) :: _ => stats.modify i .offline
    | [] => stats
  | .sent =>
    match s.outbound with
    | (i, b) :: _ => stats.modify i (.countSent b)
    | [] => stats
  | _ => stats

def snapshotState [Crypto] (s : Driver Node) (stats : InterfaceStats) : DriverSnapshot where
  identityHash := s.node.identity.hash
  interfaces := sortByKey (·.id) (stats.toList.map Prod.snd)
  paths := sortByKey (·.destination) (s.node.paths.entries.toList.map fun (destination, entry) =>
    .ofEntry destination entry)

end Driver

/-- The driver with its counters. -/
structure Metered (N : Type) where
  driver : Driver N
  stats : InterfaceStats

def MeteredStep {N : Type} (W : World N) (s : Metered N) (l : Leg) (u : Metered N) : Prop :=
  Observed W s.driver l u.driver ∧ u.stats = s.driver.meter s.stats l.1

def Metered.build {N : Type} (node : N) (keepAlive : Bool) (interfaces : List UInt16) : Metered N where
  driver := Driver.build node keepAlive interfaces
  stats := interfaces.foldl (fun stats i => stats.insert i (.new i)) ∅

/-! ## Since an interface was registered -/

namespace DriverMove

def registers? : DriverMove → Option UInt16
  | .registered i _ => some i
  | _ => none

end DriverMove

/-- The steps since `i` was last registered. -/
def sinceRegistered (i : UInt16) (legs : List Leg) : List Leg :=
  legs.foldl (fun since l => if l.1.registers? = some i then [] else since ++ [l]) []

theorem sinceRegistered_concat (i : UInt16) (legs : List Leg) (l : Leg) :
    sinceRegistered i (legs ++ [l]) = if l.1.registers? = some i then [] else sinceRegistered i legs ++ [l] := by
  rw [sinceRegistered, List.foldl_concat, sinceRegistered]

namespace Passage

/-- What the loop took from `i`. -/
@[simp] def received? (i : UInt16) : Passage → Option Bytes
  | consumed (.packet j b) => if j = i then some b else none
  | _ => none

/-- What `drain_outbound` gave the task of `i`. -/
@[simp] def handedFor? (i : UInt16) : Passage → Option Bytes
  | drained f (some _) => bytesFor i f
  | _ => none

end Passage

/-- A counter that adds up packets and stays at its limit once it is there. -/
structure Counts (packets bytes : Nat) (passed : List Bytes) : Prop where
  packets : packets = min passed.length U64_MAX
  bytes : bytes = min (passed.map List.length).sum U64_MAX

theorem Counts.nil : Counts 0 0 [] := ⟨rfl, rfl⟩

theorem Counts.concat {packets bytes : Nat} {passed : List Bytes} (h : Counts packets bytes passed) (b : Bytes) :
    Counts (satAdd packets 1) (satAdd bytes (min b.length U64_MAX)) (passed ++ [b]) := by
  obtain ⟨rfl, rfl⟩ := h
  constructor <;> simp [satAdd] <;> omega

/-- What a snapshot of `i` says. -/
structure Tells (x : InterfaceSnapshot) (i : UInt16) (routed : Prop) (since : List Leg) : Prop where
  id : x.id = i
  online : x.online = true ↔ routed
  received : Counts x.rxPackets x.rxBytes (since.flatMap (Leg.gather (Passage.received? i)))
  sent : Counts x.txPackets x.txBytes (since.flatMap (Leg.gather (Passage.handedFor? i)))

/-- Every interface with a task has a snapshot, and every snapshot is true. -/
structure Tallied {N : Type} (i : UInt16) (legs : List Leg) (s : Metered N) : Prop where
  listed : s.driver.interfaces[i]? ≠ none → s.stats[i]? ≠ none
  tells : ∀ x, s.stats[i]? = some x → Tells x i (s.driver.interfaces[i]? ≠ none) (sinceRegistered i legs)

section
variable {N : Type} {W : World N} {i : UInt16} {legs : List Leg} {l : Leg} {s u : Metered N}

/-- A step that is not about `i`. -/
theorem Tallied.same (h : Tallied i legs s) (hstats : u.stats[i]? = s.stats[i]?)
    (hint : u.driver.interfaces[i]? = s.driver.interfaces[i]?) (hreg : l.1.registers? ≠ some i)
    (hrecv : l.gather (Passage.received? i) = []) (hsent : l.gather (Passage.handedFor? i) = []) :
    Tallied i (legs ++ [l]) u := by
  refine ⟨by rw [hstats, hint]; exact h.listed, fun x hx => ?_⟩
  rw [hstats] at hx
  obtain ⟨hid, hon, hr, hs⟩ := h.tells x hx
  rw [hint, sinceRegistered_concat, if_neg hreg]
  refine ⟨hid, hon, ?_, ?_⟩ <;>
    simpa only [List.flatMap_append, List.flatMap_singleton, hrecv, hsent, List.append_nil]

theorem Tallied.modify (h : Tallied i legs s) {f : InterfaceSnapshot → InterfaceSnapshot}
    (hstats : u.stats = s.stats.modify i f) (hreg : l.1.registers? ≠ some i)
    (hlisted : u.driver.interfaces[i]? ≠ none → s.driver.interfaces[i]? ≠ none)
    (hf : ∀ x, Tells x i (s.driver.interfaces[i]? ≠ none) (sinceRegistered i legs) →
      Tells (f x) i (u.driver.interfaces[i]? ≠ none) (sinceRegistered i legs ++ [l])) : Tallied i (legs ++ [l]) u := by
  have hget : u.stats[i]? = s.stats[i]?.map f := by
    rw [hstats, Std.ExtTreeMap.getElem?_modify_self]
  constructor
  · intro hi hnone
    rw [hget, Option.map_eq_none_iff] at hnone
    exact h.listed (hlisted hi) hnone
  · intro x hx
    rw [hget, Option.map_eq_some_iff] at hx
    obtain ⟨y, hy, rfl⟩ := hx
    rw [sinceRegistered_concat, if_neg hreg]
    exact hf y (h.tells y hy)

theorem modify_ne {m : InterfaceStats} {j : UInt16} (hj : j ≠ i) (f : InterfaceSnapshot → InterfaceSnapshot) :
    (m.modify j f)[i]? = m[i]? := by
  rw [Std.ExtTreeMap.getElem?_modify, if_neg]
  simpa using hj

theorem Tallied.step (h : Tallied i legs s) (hst : MeteredStep W s l u) : Tallied i (legs ++ [l]) u := by
  obtain ⟨driver, stats⟩ := s
  obtain ⟨driver', stats'⟩ := u
  obtain ⟨move, p⟩ := l
  obtain ⟨⟨hst, hp⟩, hm⟩ := hst
  dsimp only at hst hp hm
  subst hp hm
  cases hst with
  | @registered j n fs hpc hj hW =>
    by_cases hij : j = i
    · subst hij
      constructor
      · simp [meter]
      · intro x hx
        simp only [meter, Std.ExtTreeMap.getElem?_insert_self] at hx
        cases hx
        have hsince (p : Option Passage) : sinceRegistered j (legs ++ [(.registered j fs, p)]) = [] := by
          simp [sinceRegistered_concat, DriverMove.registers?]
        rw [hsince]
        refine ⟨rfl, ?_, .nil, .nil⟩
        simp [answer, Driver.spawn]
    · refine h.same (BTreeMap.getElem?_insert_ne hij) ?_ ?_ ?_ ?_
      · exact BTreeMap.getElem?_insert_ne hij
      · simpa [DriverMove.registers?] using hij
      · simp [Leg.gather, passage]
      · simp [Leg.gather, passage]
  | @received j b rest n fs hpc hq hW =>
    by_cases hij : j = i
    · subst hij
      refine h.modify rfl (by simp [DriverMove.registers?]) id fun x hx => ?_
      refine ⟨hx.id, hx.online, ?_, ?_⟩
      · simpa [Leg.gather, passage] using hx.received.concat b
      · simpa [Leg.gather, passage] using hx.sent
    · refine h.same (modify_ne hij _) rfl (by simp [DriverMove.registers?]) ?_ ?_
      · simp [Leg.gather, passage, hij]
      · simp [Leg.gather, passage]
  | @removed j m rest hpc hq hm =>
    have hp (u : Driver N) : driver.passage u (.removed j) = some (.consumed m) := by simp [passage, hq]
    have hrecv : Leg.gather (Passage.received? i) (.removed j, some (.consumed m)) = [] := by
      cases m with
      | packet => cases hm
      | closed | error => rfl
    rw [hp]
    by_cases hij : j = i
    · subst hij
      refine h.modify rfl (by simp [DriverMove.registers?]) ?_ fun x hx => ⟨hx.id, ?_, ?_, ?_⟩
      · simp [remove]
      · simp [remove]
      · rw [List.flatMap_append, List.flatMap_singleton, hrecv, List.append_nil]
        exact hx.received
      · simpa [Leg.gather] using hx.sent
    · refine h.same (modify_ne hij _) (BTreeMap.getElem?_erase_ne hij) (by simp [DriverMove.registers?]) hrecv ?_
      simp [Leg.gather]
  | @refused j b rest k t hpc hout ht =>
    by_cases hij : j = i
    · subst hij
      refine h.modify (f := .offline) (by simp [meter, hout]) (by simp [DriverMove.registers?]) ?_ fun x hx => ⟨hx.id, ?_, ?_, ?_⟩
      · simp
      · simp
      · simpa [Leg.gather, passage, hout] using hx.received
      · simpa [Leg.gather, passage, hout] using hx.sent
    · refine h.same ?_ (BTreeMap.getElem?_erase_ne hij) (by simp [DriverMove.registers?]) ?_ ?_
      · simp [meter, hout, modify_ne hij]
      · simp [Leg.gather, passage, hout]
      · simp [Leg.gather, passage, hout]
  | @sent j b rest k t hpc hout ht =>
    have hk := (taskOf_eq_some.mp ht).1
    by_cases hij : j = i
    · subst hij
      refine h.modify (f := .countSent b) (by simp [meter, hout]) (by simp [DriverMove.registers?]) id fun x hx => ⟨hx.id, hx.online, ?_, ?_⟩
      · simpa [Leg.gather, passage, hout] using hx.received
      · simpa [Leg.gather, passage, hout, hk, bytesFor] using hx.sent.concat b
    · refine h.same ?_ rfl (by simp [DriverMove.registers?]) ?_ ?_
      · simp [meter, hout, modify_ne hij]
      · simp [Leg.gather, passage, hout]
      · simp [Leg.gather, passage, hout, hk, bytesFor, hij]
  | unknown _ hout =>
    exact h.same rfl rfl (by simp [DriverMove.registers?]) (by simp [Leg.gather, passage, hout]) (by simp [Leg.gather, passage, hout])
  | @task k t t' q _ ht hstep =>
    rw [passage_task ht]
    exact h.same rfl rfl (by simp [DriverMove.registers?]) (gather_task (by simp) _ _ _) (gather_task (by simp) _ _ _)
  | _ => exact h.same rfl rfl (by simp [DriverMove.registers?]) (by simp [Leg.gather, passage]) (by simp [Leg.gather, passage])

theorem Tallied.build (node : N) (keepAlive : Bool) (interfaces : List UInt16) (i : UInt16) :
    Tallied i [] (.build node keepAlive interfaces) := by
  have h : ∀ (d : Driver N) (stats : InterfaceStats), Tallied i [] ⟨d, stats⟩ →
      Tallied i [] ⟨interfaces.foldl Driver.spawn d, interfaces.foldl (fun stats i => stats.insert i (.new i)) stats⟩ := by
    induction interfaces with
    | nil => exact fun _ _ h => h
    | cons j rest ih =>
      intro d stats h
      refine ih (d.spawn j) (stats.insert j (.new j)) ?_
      by_cases hij : j = i
      · subst hij
        constructor
        · simp
        · intro x hx
          simp only [Std.ExtTreeMap.getElem?_insert_self] at hx
          cases hx
          exact ⟨rfl, by simp [Driver.spawn], .nil, .nil⟩
      · have hstats : (stats.insert j (.new j))[i]? = stats[i]? := BTreeMap.getElem?_insert_ne hij
        have hint : (d.spawn j).interfaces[i]? = d.interfaces[i]? := BTreeMap.getElem?_insert_ne hij
        constructor
        · rw [hstats, hint]
          exact h.listed
        · intro x hx
          rw [hint]
          exact h.tells x (hstats ▸ hx)
  exact h _ _ ⟨by simp, by simp⟩

/-! ## What is counted and what is on the wire -/

/-- What was given to the task of an interface is what was given to the interface since it was registered. -/
structure Handed (legs : List Leg) (s : Driver N) : Prop where
  wired : s.Wired
  fresh : ∀ k, s.tasks.length ≤ k → legs.flatMap (Leg.gather (Passage.handed? k)) = []
  since : ∀ (i : UInt16) (k : Nat), s.interfaces[i]? = some k →
    (sinceRegistered i legs).flatMap (Leg.gather (Passage.handedFor? i)) = legs.flatMap (Leg.gather (Passage.handed? k))

/-- A step that gives no frame to a task. -/
theorem Handed.quiet {s u : Driver N} (h : Handed legs s) (hst : DriverStep W s l.1 u)
    (hk : ∀ k, l.gather (Passage.handed? k) = []) (hi : ∀ i, l.gather (Passage.handedFor? i) = [])
    (hint : ∀ (i : UInt16) (k : Nat), u.interfaces[i]? = some k →
      (l.1.registers? = some i ∧ k = s.tasks.length) ∨ (l.1.registers? ≠ some i ∧ s.interfaces[i]? = some k)) :
    Handed (legs ++ [l]) u := by
  refine ⟨hst.wired h.wired, fun k hlen => ?_, fun i k hu => ?_⟩
  · rw [List.flatMap_append, h.fresh k (Nat.le_trans hst.tasks_le hlen), List.flatMap_singleton, hk]
    rfl
  · rw [sinceRegistered_concat, List.flatMap_append, List.flatMap_singleton, hk, List.append_nil]
    rcases hint i k hu with ⟨hreg, rfl⟩ | ⟨hreg, hs⟩
    · rw [if_pos hreg, h.fresh _ (Nat.le_refl _)]
      rfl
    · rw [if_neg hreg, List.flatMap_append, List.flatMap_singleton, hi, List.append_nil, h.since i k hs]

theorem Handed.step {s u : Driver N} (h : Handed legs s) (hst : Observed W s l u) : Handed (legs ++ [l]) u := by
  obtain ⟨move, p⟩ := l
  obtain ⟨hst, hp⟩ := hst
  dsimp only at hst hp
  subst hp
  have hreg {m : DriverMove} {i : UInt16} (hm : m.registers? = none) : m.registers? ≠ some i := by simp [hm]
  have hall := hst
  cases hst with
  | @registered j n fs hpc hj hW =>
    refine h.quiet hall (by simp [Leg.gather, passage]) (by simp [Leg.gather, passage]) fun i k hu => ?_
    simp only [answer, Driver.spawn, Std.ExtTreeMap.getElem?_insert] at hu
    split at hu
    · rename_i hij
      cases hu
      exact .inl ⟨by simpa [DriverMove.registers?] using hij, rfl⟩
    · rename_i hij
      exact .inr ⟨by simpa [DriverMove.registers?] using hij, hu⟩
  | @removed j m rest hpc hq hm =>
    refine h.quiet hall (by simp [Leg.gather, passage, hq]) (by simp [Leg.gather, passage, hq]) fun i k hu => ?_
    refine .inr ⟨hreg rfl, ?_⟩
    simp only [remove, Std.ExtTreeMap.getElem?_erase] at hu
    split at hu
    · cases hu
    · exact hu
  | @refused j b rest k t hpc hout ht hret =>
    refine h.quiet hall (by simp [Leg.gather, passage, hout]) (by simp [Leg.gather, passage, hout])
      fun i k hu => ?_
    refine .inr ⟨hreg rfl, ?_⟩
    simp only [Std.ExtTreeMap.getElem?_erase] at hu
    split at hu
    · cases hu
    · exact hu
  | @sent j b rest k t hpc hout ht hopen hroom =>
    obtain ⟨hk, htk⟩ := taskOf_eq_some.mp ht
    have hlt := (List.getElem?_eq_some_iff.mp htk).1
    refine ⟨hall.wired h.wired, fun k' hlen => ?_, fun i k' hu => ?_⟩
    · have hne : k ≠ k' := by
        have := hall.tasks_le
        omega
      rw [List.flatMap_append, h.fresh k' (Nat.le_trans hall.tasks_le hlen)]
      simp [Leg.gather, passage, hout, hk, hne]
    · have hs : s.interfaces[i]? = some k' := hu
      rw [sinceRegistered_concat, if_neg (hreg rfl), List.flatMap_append, List.flatMap_append, h.since i k' hs]
      refine congrArg (_ ++ ·) ?_
      by_cases hij : j = i
      · subst hij
        obtain rfl : k = k' := Option.some.inj (hk.symm.trans hs)
        simp [Leg.gather, passage, hout, hk, bytesFor]
      · have hkk : k ≠ k' := fun he => by
          obtain ⟨t', ht', -⟩ := h.wired i k' hs
          exact hij (h.wired.eq_of_task ht (he ▸ taskOf_eq_some.mpr ⟨hs, ht'⟩))
        simp [Leg.gather, passage, hout, hk, bytesFor, hij, hkk]
  | @task k t t' q hrun ht hstep =>
    rw [passage_task ht]
    exact h.quiet hall (fun _ => gather_task (by simp) _ _ _) (fun _ => gather_task (by simp) _ _ _)
      fun i k hu => .inr ⟨hreg rfl, hu⟩
  | unknown _ hout =>
    exact h.quiet hall (by simp [Leg.gather, passage, hout]) (by simp [Leg.gather, passage, hout])
      fun i k hu => .inr ⟨hreg rfl, hu⟩
  | _ =>
    exact h.quiet hall (by simp [Leg.gather, passage]) (by simp [Leg.gather, passage])
      fun i k hu => .inr ⟨hreg rfl, hu⟩

/-- No queue of a task has more than its capacity. -/
def Driver.Filled (s : Driver N) : Prop := ∀ (k : Nat) (t : InterfaceTask), s.tasks[k]? = some t → t.outbound.length ≤ INTERFACE_CAPACITY

theorem DriverStep.filled {s u : Driver N} {l : DriverMove} (h : s.Filled) (hst : DriverStep W s l u) : u.Filled := by
  cases hst with
  | registered =>
    intro k t ht
    rcases task_spawn ht with hold | ⟨-, rfl⟩
    · exact h k t hold
    · exact Nat.zero_le _
  | sent _ _ _ _ hroom =>
    intro k t ht
    rcases task_setTask ht with ⟨-, rfl⟩ | ⟨-, hold⟩
    · simpa using Nat.succ_le_of_lt hroom
    · exact h k t hold
  | task _ hj hstep =>
    intro k t ht
    rcases task_setTask ht with ⟨-, rfl⟩ | ⟨-, hold⟩
    · exact Nat.le_trans hstep.keeps.2.1 (h _ _ hj)
    · exact h k t hold
  | _ => exact h

/-- The counters of an interface run ahead of its transport by what its task holds. -/
theorem Handed.counts {s : Driver N} (h : Handed legs s) {node : N} {keepAlive : Bool} {interfaces : List UInt16}
    (hrun : Lts.Run (Observed W) (.build node keepAlive interfaces) legs s) {k : Nat} (hk : s.interfaces[i]? = some k) :
    (sinceRegistered i legs).flatMap (Leg.gather (Passage.handedFor? i)) =
      legs.flatMap (Leg.gather (Passage.offered? k)) ++ s.ofTask k (·.held) := by
  have hfifo : Lts.Fifo (Observed W) (Leg.gather (Passage.handed? k)) (Leg.gather (Passage.offered? k))
      fun s => s.ofTask k (·.held) := fun _ _ _ h => h.balanced.held k
  have hempty : (Driver.build node keepAlive interfaces).ofTask k (·.held) = [] := by
    refine build_induct (P := fun s => s.ofTask k (·.held) = []) node keepAlive interfaces rfl fun s i hs => ?_
    exact (ofTask_spawn rfl k).trans hs
  rw [h.since i k hk, ← hfifo.run hrun, hempty, List.nil_append]

theorem held_le {s : Driver N} (h : s.Filled) (k : Nat) : (s.ofTask k (·.held)).length ≤ INTERFACE_CAPACITY + 1 := by
  unfold ofTask
  split
  · rename_i t ht
    have := h k t ht
    dsimp only [InterfaceTask.held]
    split
    · exact Nat.succ_le_succ this
    · exact Nat.le_succ_of_le this
  · exact Nat.zero_le _

end

theorem sortByKey_of_pairwise {α κ : Type} [Ord κ] {key : α → κ} {xs : List α}
    (h : xs.Pairwise fun a b => compare (key a) (key b) = .lt) : sortByKey key xs = xs :=
  List.mergeSort_of_pairwise (h.imp fun hlt => by simp [hlt])

section
variable [Crypto]

/-- What a snapshot shows of a driver. -/
structure Shows (shown : DriverSnapshot) (legs : List Leg) (s : Metered Node) : Prop where
  interfaces : shown.interfaces.Pairwise fun x y => compare x.id y.id = .lt
  routed : ∀ i, s.driver.interfaces[i]? ≠ none → ∃ x ∈ shown.interfaces, x.id = i
  tells : ∀ x ∈ shown.interfaces, Tells x x.id (s.driver.interfaces[x.id]? ≠ none) (sinceRegistered x.id legs)
  ahead : ∀ x ∈ shown.interfaces, ∀ k, s.driver.interfaces[x.id]? = some k → ∃ held : List Bytes,
    held.length ≤ INTERFACE_CAPACITY + 1 ∧
    Counts x.txPackets x.txBytes (legs.flatMap (Leg.gather (Passage.offered? k)) ++ held)
  destinations : shown.paths.Pairwise fun p q => compare p.destination q.destination = .lt
  paths : ∀ p, p ∈ shown.paths ↔ ∃ e, s.driver.node.paths.get p.destination = some e ∧ p = .ofEntry p.destination e

theorem mem_interfaces {s : Driver Node} {stats : InterfaceStats} (hid : ∀ (i : UInt16) (x : InterfaceSnapshot), stats[i]? = some x → x.id = i) :
    ((s.snapshotState stats).interfaces.Pairwise fun x y => compare x.id y.id = .lt) ∧
    ∀ x, x ∈ (s.snapshotState stats).interfaces ↔ stats[x.id]? = some x := by
  have hsorted : (stats.toList.map Prod.snd).Pairwise fun x y => compare x.id y.id = .lt := by
    rw [List.pairwise_map]
    refine Std.ExtTreeMap.ordered_keys_toList.imp_of_mem fun {a b} ha hb h => ?_
    rw [hid a.1 a.2 (Std.ExtTreeMap.mem_toList_iff_getElem?_eq_some.mp ha),
      hid b.1 b.2 (Std.ExtTreeMap.mem_toList_iff_getElem?_eq_some.mp hb)]
    exact h
  have heq : (s.snapshotState stats).interfaces = stats.toList.map Prod.snd := sortByKey_of_pairwise hsorted
  rw [heq]
  refine ⟨hsorted, fun x => ?_⟩
  rw [List.mem_map]
  constructor
  · rintro ⟨⟨i, y⟩, hmem, rfl⟩
    have hget := Std.ExtTreeMap.mem_toList_iff_getElem?_eq_some.mp hmem
    rwa [hid i y hget]
  · exact fun hget => ⟨(x.id, x), Std.ExtTreeMap.mem_toList_iff_getElem?_eq_some.mpr hget, rfl⟩

theorem mem_paths (s : Driver Node) (stats : InterfaceStats) :
    ((s.snapshotState stats).paths.Pairwise fun p q => compare p.destination q.destination = .lt) ∧
    ∀ p, p ∈ (s.snapshotState stats).paths ↔ ∃ e, s.node.paths.get p.destination = some e ∧ p = .ofEntry p.destination e := by
  have hsorted : (s.node.paths.entries.toList.map fun (d, e) => PathSnapshot.ofEntry d e).Pairwise
      fun p q => compare p.destination q.destination = .lt := by
    rw [List.pairwise_map]
    exact Std.ExtTreeMap.ordered_keys_toList
  have heq : (s.snapshotState stats).paths = s.node.paths.entries.toList.map fun (d, e) => PathSnapshot.ofEntry d e :=
    sortByKey_of_pairwise hsorted
  rw [heq]
  refine ⟨hsorted, fun p => ?_⟩
  rw [List.mem_map]
  constructor
  · rintro ⟨⟨d, e⟩, hmem, rfl⟩
    exact ⟨e, Std.ExtTreeMap.mem_toList_iff_getElem?_eq_some.mp hmem, rfl⟩
  · rintro ⟨e, hget, hp⟩
    exact ⟨(p.destination, e), Std.ExtTreeMap.mem_toList_iff_getElem?_eq_some.mpr hget, hp.symm⟩

/-- A snapshot lists every interface in ascending order, calls an interface online exactly if frames are routed to it,
counts what passed since its registration, and is ahead of the transport by no more than a task can hold. -/
theorem snapshot_tells_the_truth (W : World Node) (node : Node) (keepAlive : Bool) (interfaces : List UInt16)
    {legs : List Leg} {s : Metered Node} (h : Lts.Run (MeteredStep W) (.build node keepAlive interfaces) legs s) :
    Shows (s.driver.snapshotState s.stats) legs s := by
  have hrun : Lts.Run (Observed W) (.build node keepAlive interfaces) legs s.driver :=
    h.map Metered.driver fun _ _ _ hst => hst.1
  have htally (i : UInt16) : Tallied i legs s :=
    h.history (I := Tallied i) (.build node keepAlive interfaces i) fun _ _ _ _ hi hst => hi.step hst
  have hhanded : Handed legs s.driver := hrun.history (I := Handed)
    ⟨build_wired node keepAlive interfaces, fun _ _ => rfl, fun _ _ _ => rfl⟩ fun _ _ _ _ hi hst => hi.step hst
  have hfilled : s.driver.Filled := hrun.preserve (I := Driver.Filled) (fun _ _ _ hi hst => hst.1.filled hi)
    (build_induct (P := Driver.Filled) node keepAlive interfaces (fun k t ht => by simp [build] at ht) fun s i hs k t ht => by
      rcases task_spawn ht with hold | ⟨-, rfl⟩
      · exact hs k t hold
      · exact Nat.zero_le _)
  obtain ⟨hasc, hmem⟩ := mem_interfaces (s := s.driver) fun i x hx => ((htally i).tells x hx).id
  refine ⟨hasc, fun i hi => ?_, fun x hx => (htally x.id).tells x ((hmem x).mp hx), fun x hx k hk => ?_,
    (mem_paths s.driver s.stats).1, (mem_paths s.driver s.stats).2⟩
  · obtain ⟨x, hx⟩ := Option.ne_none_iff_exists'.mp ((htally i).listed hi)
    have hid := ((htally i).tells x hx).id
    exact ⟨x, (hmem x).mpr (by rwa [hid]), hid⟩
  · refine ⟨_, held_le hfilled k, ?_⟩
    rw [← hhanded.counts hrun hk]
    exact ((htally x.id).tells x ((hmem x).mp hx)).sent

/-- A node that sends every packet back. -/
def echo : World Node where
  called _ _ _ := False
  ticked _ _ _ := False
  received n i b n' frames := n' = n ∧ frames = [(i, b)]
  registered _ _ _ _ := False
  unregister n _ := n
  sends _ _ ok := ok = true
  receives _ r := ∃ b, r = .packet b

end

section
open Sample

/-- A node with a path over interface 5. -/
def traveller : Node :=
  { Node.withClock (identity 1) 0 with
    paths := (PathTable.new.insert (arr 16 9) ⟨5, none, 1, 1000, 0, (identity 2).public, none⟩).1 }

/-- The task of an interface in the course of an echo. -/
def echoTask (interface : UInt16) (outbound : List Bytes) (pc : TaskPc) : InterfaceTask := { interface, outbound, pc }

/-- The driver with its counters, with interface 0 in use and nothing going on at interface 5. -/
def echoing (pc : DriverPc) (outbound : List Frame) (inbound : List Inbound) (task : InterfaceTask) (stats : InterfaceStats) :
    Metered Node where
  driver := { build traveller false [5, 0] with pc, outbound, inbound, tasks := [echoTask 5 [] .select, task] }
  stats := stats

/-- The counters at first, with the packet received, and with its echo sent. -/
def echoStats : InterfaceStats := (Metered.build traveller false [5, 0]).stats

def echoReceived : InterfaceStats := echoStats.modify 0 (.countReceived [7])

def echoed : Metered Node := echoing .draining [] [] (echoTask 0 [[7]] .select) (echoReceived.modify 0 (.countSent [7]))

def echoLegs : List Leg :=
  [(.task 1, some (.arrived 1 (.packet 0 [7]))), (.task 1, some (.delivered 1 (.packet 0 [7]))),
    (.received 0 [7] [(0, [7])], some (.consumed (.packet 0 [7]))), (.emitted, none), (.sent, some (.drained (0, [7]) (some 1)))]

theorem echo_run : Lts.Run (MeteredStep echo) (.build traveller false [5, 0]) echoLegs echoed := by
  have h₁ : MeteredStep echo (.build traveller false [5, 0]) (.task 1, some (.arrived 1 (.packet 0 [7])))
      (echoing .select [] [] (echoTask 0 [] (.delivering (.packet 0 [7]))) echoStats) := by
    have hstep (registered : Prop) : TaskStep echo registered [] (echoTask 0 [] .select) []
        (echoTask 0 [] (.delivering (.packet 0 [7]))) := .receive (r := .packet [7]) rfl ⟨[7], rfl⟩
    exact ⟨⟨.task (by decide) rfl (hstep _), rfl⟩, rfl⟩
  have h₂ : MeteredStep echo (echoing .select [] [] (echoTask 0 [] (.delivering (.packet 0 [7]))) echoStats)
      (.task 1, some (.delivered 1 (.packet 0 [7])))
      (echoing .select [] [.packet 0 [7]] (echoTask 0 [] .select) echoStats) := by
    have hstep (registered : Prop) : TaskStep echo registered [] (echoTask 0 [] (.delivering (.packet 0 [7])))
        [.packet 0 [7]] (echoTask 0 [] .select) := .deliver rfl (by decide)
    exact ⟨⟨.task (by decide) rfl (hstep _), rfl⟩, rfl⟩
  have h₃ : MeteredStep echo (echoing .select [] [.packet 0 [7]] (echoTask 0 [] .select) echoStats)
      (.received 0 [7] [(0, [7])], some (.consumed (.packet 0 [7])))
      (echoing .emitting [(0, [7])] [] (echoTask 0 [] .select) echoReceived) :=
    ⟨⟨.received rfl rfl ⟨rfl, rfl⟩, rfl⟩, rfl⟩
  have h₄ : MeteredStep echo (echoing .emitting [(0, [7])] [] (echoTask 0 [] .select) echoReceived) (.emitted, none)
      (echoing .draining [(0, [7])] [] (echoTask 0 [] .select) echoReceived) := ⟨⟨.emitted rfl, rfl⟩, rfl⟩
  have hroute : (echoing .draining [(0, [7])] [] (echoTask 0 [] .select) echoReceived).driver.interfaces[(0 : UInt16)]? = some 1 := by
    simp [echoing, build, Driver.spawn]
  have htask : (echoing .draining [(0, [7])] [] (echoTask 0 [] .select) echoReceived).driver.taskOf 0 =
      some (1, echoTask 0 [] .select) := taskOf_eq_some.mpr ⟨hroute, rfl⟩
  have hsent : (echoing .draining [(0, [7])] [] (echoTask 0 [] .select) echoReceived).driver.passage echoed.driver .sent =
      some (.drained (0, [7]) (some 1)) := congrArg (fun k => some (Passage.drained (0, [7]) k)) hroute
  have h₅ : MeteredStep echo (echoing .draining [(0, [7])] [] (echoTask 0 [] .select) echoReceived)
      (.sent, some (.drained (0, [7]) (some 1))) echoed :=
    ⟨⟨.sent rfl rfl htask (by decide) (by decide), hsent.symm⟩, rfl⟩
  exact .cons h₁ (.cons h₂ (.cons h₃ (.cons h₄ (.single h₅))))

/-- On one of two interfaces a packet is received and sent back, and its echo waits for the transport. -/
theorem snapshot_tells_the_truth_echo : Shows (echoed.driver.snapshotState echoed.stats) echoLegs echoed :=
  snapshot_tells_the_truth echo traveller false [5, 0] echo_run

end

end Reticulum
