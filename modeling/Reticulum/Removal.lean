import Reticulum.Carrying
import Reticulum.Expiry
import Reticulum.Speech

/-!
# Interfaces that are gone

`unregister_interface` takes an interface off the list. Paths and links keep
the interface they were made with, so it is out of use only when none of them
leads over it.
-/

namespace Reticulum

open Node

/-- The operation neither registers the interface nor names it, and brings nothing in on it. -/
def Op.Spares (i : UInt16) : Op → Prop
  | .registerInterface j | .sendAnnounce _ _ _ j | .handleInbound _ j | .handleInboundWithEntropy _ j _ => j ≠ i
  | _ => True

theorem Op.Spares.inbound {i j : UInt16} {op : Op} {b : Bytes} {rng : Option Entropy} (h : op.Spares i)
    (hop : op.inbound? = some (b, j, rng)) : j ≠ i := by
  cases op <;> cases hop <;> exact h

/-- The operation has returned an error. -/
def Ret.Failed : Ret → Prop
  | .sent (.error _) | .link (.error _) | .hash (.error _) => True
  | _ => False

namespace Node

/-- Every path that the node has for the destination, if any, leads over the interface. -/
def PathsOver (n : Node) (i : UInt16) (d : Arr 16) : Prop := ∀ e, n.paths.get d = some e → e.interface = i

/-- A send that has no route, or none but over the interface. -/
def RoutedOver (n : Node) (i : UInt16) : Op → Prop
  | .sendMessage d _ _ | .sendMessageWithReceipt d _ _ | .establishLink d _ => n.PathsOver i d
  | .sendGroupMessage d _ _ | .sendPlainMessage d _ => n.PathsOver i d ∧ n.interfaces = []
  | .linkSend id _ _ | .sendResource _ id _ _ => ∀ link : LinkEntry, n.links[id]? = some link → link.interface = i
  | _ => False

/-- No live path leads over the interface, and no link in use. -/
structure Disused (n : Node) (i : UInt16) : Prop where
  paths : ∀ d e, n.paths.get d = some e → e.interface = i → e.expiresAt ≤ n.nowSecs
  links : ∀ id link, n.InUse id link → link.interface ≠ i

variable [Crypto]

/-- A new announce of a destination whose paths lead over the interface, heard on another. -/
structure HeardElsewhere (n : Node) (l : Label) (i j : UInt16) (p : Packet) (d : Arr 16) (a : Announce)
    (pub : PublicIdentity) : Prop where
  op : ∃ b rng, l.1.inbound? = some (b, j, rng) ∧ n.Admits b p d
  kind : p.packetType = ANNOUNCE
  announces : (n.admitted p).Announces (received p) d a
  key : PublicIdentity.fromBytes a.pub.1 = .ok pub
  pathsOver : n.PathsOver i d

/-- The step makes no use of the interface. -/
structure Unused (n : Node) (l : Label) (n' : Node) (i : UInt16) : Prop where
  silent : ∀ f, (i, f) ∉ n.enqueued n'
  failed : n.RoutedOver i l.1 → l.2.ret.Failed
  learned : ∀ j p d a pub, n.HeardElsewhere l i j p d a pub → Event.announce d (received p).hops ∈ l.2.events ∧
    n'.paths.get d = some (announcedEntry (received p) a pub j n.nowSecs)

variable {n m n' : Node} {l : Label} {i : UInt16}

omit [Crypto] in
theorem Disused.live_path (h : n.Disused i) {d : Arr 16} {e : PathEntry} (he : n.prunePaths.paths.get d = some e) :
    e.interface ≠ i := by
  intro hi
  obtain ⟨hget, hlive⟩ := PathTable.get_of_get_prune he
  exact Nat.not_le_of_lt hlive (h.paths d e hget hi)

omit [Crypto] in
theorem PathsOver.no_path {d : Arr 16} (h : n.PathsOver i d) (hd : n.Disused i) : n.prunePaths.paths.get d = none := by
  cases he : n.prunePaths.paths.get d with
  | none => rfl
  | some e =>
    obtain ⟨hget, -⟩ := PathTable.get_of_get_prune he
    exact absurd (h e hget) (hd.live_path he)

theorem Speech.not_over {s : UInt16 × Packet} (h : n.Speech l s) (hs : l.1.Spares i) (hi : i ∉ n.interfaces)
    (hd : n.Disused i) : s.1 ≠ i := by
  cases h with
  | announce _ hop =>
    rw [hop] at hs
    exact hs
  | broadcast _ hj => exact fun h => hi (h ▸ hj)
  | routed _ he => exact hd.live_path he
  | onLink _ _ hl => exact hd.links _ _ hl
  | reply hop | answer hop => exact hs.inbound hop
  | @forward b j rng p q d path _ _ _ hf =>
    have hroute := hf.route
    have hd' : (n.admitted p).Disused i := by
      constructor
      · intro d e he
        rw [nowSecs_admitted]
        exact hd.paths d e (by simpa using he)
      · exact fun id link hl => hd.links id link (hl.congr (by simp) (by simp))
    exact hd'.live_path hroute
  | rebroadcast _ _ _ _ _ _ hj => exact fun h => hi (h ▸ hj)

/-- Without a live path, and without an open link, a send fails. -/
theorem RoutedOver.failed [Rmp] [Bzip2] (h : n.RoutedOver i l.1) (hd : n.Disused i) (hst : NodeStep n l n') :
    l.2.ret.Failed := by
  obtain ⟨op, out⟩ := l
  have hlink {id : Arr 16} (h : ∀ link : LinkEntry, n.links[id]? = some link → link.interface = i) :
      n.activeLink id = none := by
    unfold activeLink
    split
    · rfl
    · rename_i link hl
      refine if_neg fun hs => hd.links id link (.of_open hl ?_) (h link hl)
      rw [hs]
      decide
  have hsingle {d : Arr 16} (h : n.PathsOver i d) (pt : Bytes) (rng : Entropy) (receipt : Bool) :
      n.sendSingleMessage d pt rng receipt = (n.prunePaths, .error .unknown) := by
    unfold sendSingleMessage
    dsimp only
    rw [h.no_path hd]
  have henqueue {d : Arr 16} (h : n.PathsOver i d ∧ n.interfaces = []) (p : Packet) :
      n.enqueueDestinationPacket p d = (n.prunePaths, .error .unknown) := by
    unfold enqueueDestinationPacket
    dsimp only
    rw [h.1.no_path hd]
    exact if_pos h.2
  cases op with
  | sendMessage d pt rng =>
    obtain ⟨-, rfl⟩ := Prod.mk.inj (Option.some.inj hst)
    have hr : (n.sendMessage d pt rng).2 = .error .unknown := by
      unfold sendMessage
      rw [hsingle h]
    show (Ret.sent (n.sendMessage d pt rng).2).Failed
    rw [hr]
    trivial
  | sendMessageWithReceipt d pt rng =>
    obtain ⟨-, rfl⟩ := Prod.mk.inj (Option.some.inj hst)
    have hr : (n.sendMessageWithReceipt d pt rng).2 = .error .unknown := by
      unfold sendMessageWithReceipt
      rw [hsingle h]
    show (Ret.hash (n.sendMessageWithReceipt d pt rng).2).Failed
    rw [hr]
    trivial
  | establishLink d rng =>
    obtain ⟨-, rfl⟩ := Prod.mk.inj (Option.some.inj hst)
    have hr : (n.establishLink d rng).2 = .error .unknown := by
      unfold establishLink
      dsimp only
      rw [PathsOver.no_path h hd]
    show (Ret.link (n.establishLink d rng).2).Failed
    rw [hr]
    trivial
  | sendGroupMessage d pt rng =>
    obtain ⟨-, rfl⟩ := Prod.mk.inj (Option.some.inj hst)
    have hr : (n.sendGroupMessage d pt rng).2 = .error .unknown := by
      unfold sendGroupMessage
      split
      · rfl
      · exact congrArg Prod.snd (henqueue h _)
    show (Ret.sent (n.sendGroupMessage d pt rng).2).Failed
    rw [hr]
    trivial
  | sendPlainMessage d pt =>
    obtain ⟨-, rfl⟩ := Prod.mk.inj (Option.some.inj hst)
    have hr : (n.sendPlainMessage d pt).2 = .error .unknown := congrArg Prod.snd (henqueue h _)
    show (Ret.sent (n.sendPlainMessage d pt).2).Failed
    rw [hr]
    trivial
  | linkSend id pt rng =>
    obtain ⟨-, rfl⟩ := Prod.mk.inj (Option.some.inj hst)
    have hr : (n.linkSend id pt rng).2 = .error .unknown := by
      unfold linkSend
      rw [hlink h]
    show (Ret.sent (n.linkSend id pt rng).2).Failed
    rw [hr]
    trivial
  | sendResource fuel id data rng =>
    simp only [NodeStep, Node.step, sendResource, hlink h] at hst
    cases hst
    trivial
  | _ => cases h

theorem HeardElsewhere.learned [Rmp] [Bzip2] {j : UInt16} {p : Packet} {d : Arr 16} {a : Announce} {pub : PublicIdentity}
    (h : n.HeardElsewhere l i j p d a pub) (hd : n.Disused i) (hst : NodeStep n l n') :
    Event.announce d (received p).hops ∈ l.2.events ∧
      n'.paths.get d = some (announcedEntry (received p) a pub j n.nowSecs) := by
  obtain ⟨b, rng, hop, ha⟩ := h.op
  have hout := hst.inbound hop
  rw [handleInboundInner_of_admits ha, dispatch_announce (p := received p) h.kind, h.announces.handleAnnounce_eq h.key,
    if_pos] at hout
  · obtain ⟨rfl, hev⟩ := Prod.mk.inj hout
    refine ⟨?_, ?_⟩
    · rw [← hev]
      exact List.mem_singleton_self _
    · rw [learned_get, nowSecs_admitted]
  · refine PathTable.update_accepts_iff.mpr fun e he hlive => ?_
    have hget : n.paths.get d = some e := by simpa using he
    rw [nowSecs_admitted] at hlive
    exact absurd (hd.paths d e hget (h.pathsOver e hget)) (Nat.not_le_of_lt hlive)

end Node

section
variable [Crypto] [Rmp] [Bzip2] {n m m' : Node} {l : Label} {i : UInt16} {tr : List Label}

theorem not_registered_of_spares (h : Lts.Run (fun n l n' => l.1.Spares i ∧ NodeStep n l n') n tr m)
    (hi : i ∉ n.interfaces) : i ∉ m.interfaces := by
  refine h.preserve (I := fun n => i ∉ n.interfaces) (fun n l n' hi hst hmem => ?_) hi
  rcases hst.2.interface hmem with hmem | hop
  · exact hi hmem
  · have hs := hst.1
    rw [hop] at hs
    exact hs rfl

/-- An interface that was removed is not used by any step that finds no live path over it and no link in use. -/
theorem removed_interface_unused
    (hrun : Lts.Run (fun n l n' => l.1.Spares i ∧ NodeStep n l n') (n.unregisterInterface i) tr m)
    (hs : l.1.Spares i) (hd : m.Disused i) (hst : NodeStep m l m') : m.Unused l m' i := by
  have hi : i ∉ m.interfaces := not_registered_of_spares hrun (by simp [unregisterInterface])
  refine ⟨?_, fun h => h.failed hd hst, fun j p d a pub h => h.learned hd hst⟩
  intro f hmem
  obtain ⟨ps, hps, hspeech⟩ := hst.speaks
  rw [hps, List.mem_map] at hmem
  obtain ⟨s, hs', heq⟩ := hmem
  exact (hspeech s hs').not_over hs hi hd (Prod.mk.inj heq).1

end

/-! ## An interface removed under its path -/

section
open Sample

/-- A node that has heard the announce on a registered interface. -/
def streetMember : Node := (((withClock (identity 5) 100).registerInterface 0).handleInbound streetAnnounce.encode 0).1

/-- A message goes out on the interface that was removed. -/
theorem removed_interface_used : ¬ ∀ (identity : Identity) (clock : UInt64) (tr₀ tr : List Label) (n m m' : Node)
    (l : Label) (i : UInt16), Lts.Run NodeStep (withClock identity clock) tr₀ n →
    Lts.Run (fun n l n' => l.1.Spares i ∧ NodeStep n l n') (n.unregisterInterface i) tr m → l.1.Spares i →
    NodeStep m l m' → m.Unused l m' i := by
  intro h
  let member := (withClock (identity 5) 100).registerInterface 0
  have h₁ : NodeStep (withClock (identity 5) 100) (.registerInterface 0, {}) member := rfl
  have hrun := Lts.Run.cons h₁ (.single (member.step_handleInbound streetAnnounce.encode 0))
  have hst := (streetMember.unregisterInterface 0).step_sendMessage streetDest [1, 2, 3] (entropy 9)
  have hsilent := (h _ _ _ [] streetMember _ _ _ 0 hrun .nil (by trivial) hst).silent
  generalize hq : (streetMember.unregisterInterface 0).enqueued
    ((streetMember.unregisterInterface 0).sendMessage streetDest [1, 2, 3] (entropy 9)).1 = q at hsilent
  have hhead : (q.map (·.1)) = [0] := by
    rw [← hq]
    decide +kernel
  obtain ⟨s, rfl⟩ := List.length_eq_one_iff.mp (by simpa using congrArg List.length hhead)
  refine hsilent s.2 ?_
  rw [← (List.cons.inj hhead).1]
  exact List.mem_singleton_self _

/-- The node a week after the interface was removed. -/
def lateMember : Node := { streetMember.unregisterInterface 0 with clock := 700000 }

theorem removed_interface_unused_late :
    lateMember.Unused (.sendMessage streetDest [1, 2, 3] (entropy 9),
      { ret := .sent (lateMember.sendMessage streetDest [1, 2, 3] (entropy 9)).2 })
      (lateMember.sendMessage streetDest [1, 2, 3] (entropy 9)).1 0 := by
  have hrun : Lts.Run (fun n l n' => l.1.Spares 0 ∧ NodeStep n l n') (streetMember.unregisterInterface 0)
      [(.setClock 700000, {})] lateMember := .single ⟨trivial, rfl⟩
  have hexpired : lateMember.paths.entries.toList.all (fun x => x.2.expiresAt ≤ 700000) = true := by decide +kernel
  have hlinks : lateMember.links.isEmpty = true := by decide +kernel
  refine removed_interface_unused hrun trivial ⟨fun d e he _ => ?_, fun id link hl => ?_⟩
    (lateMember.step_sendMessage _ _ _)
  · have hmem : (d, e) ∈ lateMember.paths.entries.toList := Std.ExtTreeMap.mem_toList_iff_getElem?_eq_some.mpr he
    exact of_decide_eq_true (List.all_eq_true.mp hexpired _ hmem)
  · have hnone := hl.get
    rw [Std.ExtTreeMap.isEmpty_iff.mp hlinks] at hnone
    cases hnone

end

end Reticulum
