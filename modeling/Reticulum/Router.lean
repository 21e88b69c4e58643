import Reticulum.Stamp
import Reticulum.WireFormat

/-!
# LXMF delivery

`router.rs`: a router takes a message that is addressed to it, comes from a
source it remembers and is signed by that source. It hands out the message as
it was signed.
-/

namespace Reticulum

open Lxmf Stamp

section
variable [Crypto]

def deliveryDestinationHash (identity : PublicIdentity) : Arr 16 :=
  destinationHash (nameHash "lxmf" ["delivery"]) identity.hash

inductive LxmfEvent
  | message (message : LxmfMessage)
  deriving DecidableEq

structure LxmfRouter where
  localDestination : Arr 16
  sourceIdentities : BTreeMap (Arr 16) PublicIdentity
  stampCost : Option UInt16
  /-- A source is remembered under its delivery destination. -/
  addressed : ∀ (d : Arr 16) (source : PublicIdentity), sourceIdentities[d]? = some source → deliveryDestinationHash source = d

end

namespace LxmfRouter

section
variable [Crypto]

theorem addressed_empty (d : Arr 16) (source : PublicIdentity)
    (h : (∅ : BTreeMap (Arr 16) PublicIdentity)[d]? = some source) : deliveryDestinationHash source = d := by
  simp at h

theorem addressed_insert (r : LxmfRouter) (new : PublicIdentity) (d : Arr 16) (source : PublicIdentity)
    (h : (r.sourceIdentities.insert (deliveryDestinationHash new) new)[d]? = some source) :
    deliveryDestinationHash source = d := by
  by_cases hd : deliveryDestinationHash new = d
  · subst hd
    rw [Std.ExtTreeMap.getElem?_insert_self] at h
    cases h
    rfl
  · rw [BTreeMap.getElem?_insert_ne hd] at h
    exact r.addressed d source h

def new (localIdentity : PublicIdentity) : LxmfRouter where
  localDestination := deliveryDestinationHash localIdentity
  sourceIdentities := ∅
  stampCost := none
  addressed := addressed_empty

def rememberSource (r : LxmfRouter) (source : PublicIdentity) : LxmfRouter × Arr 16 :=
  let destination := deliveryDestinationHash source
  ({ r with
      sourceIdentities := r.sourceIdentities.insert destination source
      addressed := r.addressed_insert source }, destination)

def setStampCost (r : LxmfRouter) (stampCost : Option UInt16) : LxmfRouter := { r with stampCost := stampCost }

end

variable [Crypto] [Rmp] [RmpF64] [Hkdf]

/-- `None` where the source would panic. -/
def unpackForLocalDestination (r : LxmfRouter) (bytes : Bytes) : Option (Except CoreError LxmfEvent) :=
  match LxmfMessage.unpack bytes with
  | .error e => some (.error e)
  | .ok message =>
    if message.destination ≠ r.localDestination then some (.error .invalidField)
    else
      match r.sourceIdentities[message.source]? with
      | none => some (.error .invalidField)
      | some source =>
        match message.verify source with
        | .error e => some (.error e)
        | .ok () =>
          (verifyOptionalStamp message.hash message.stamp r.stampCost []).map fun stamp =>
            match stamp with
            | .error e => .error e
            | .ok _ => .ok (.message message)

def receiveDirect (r : LxmfRouter) (bytes : Bytes) : Option (Except CoreError LxmfEvent) :=
  r.unpackForLocalDestination bytes

def receiveOpportunistic (r : LxmfRouter) (destination : Arr 16) (bytes : Bytes) : Option (Except CoreError LxmfEvent) :=
  if destination ≠ r.localDestination then some (.error .invalidField)
  else r.unpackForLocalDestination (destination.1 ++ bytes)

end LxmfRouter

/-! ## What is signed -/

namespace LxmfMessage

variable [Crypto] [Rmp] [RmpF64]

/-- What a source signs. -/
def signedPart (m : LxmfMessage) : Bytes :=
  let hashed := hashedPart m.destination m.source m.payload
  hashed ++ (fullHash hashed).1

/-- Six fields of a message are signed. -/
structure SameSigned (m m' : LxmfMessage) : Prop where
  destination : m.destination = m'.destination
  source : m.source = m'.source
  timestamp : m.timestamp = m'.timestamp
  title : m.title = m'.title
  content : m.content = m'.content
  fields : m.fields = m'.fields

omit [Crypto] in
/-- A payload says what it was made from. -/
theorem encodePayload_inj (hR : Rmp.WritesShortest) {bits bits' : UInt64} {title title' content content' fields fields' : Bytes}
    (ht : title.length < 2 ^ 32) (ht' : title'.length < 2 ^ 32) (hc : content.length < 2 ^ 32) (hc' : content'.length < 2 ^ 32)
    (h : encodePayload bits title content fields = encodePayload bits' title' content' fields') :
    bits = bits' ∧ title = title' ∧ content = content' ∧ fields = fields' := by
  have hbinary {b : Bytes} (hb : b.length < 2 ^ 32) : MessagePack.Binary (Rmp.writeBin b) b := by
    rw [hR.bin b hb]
    exact MessagePack.binary_binHeader hb
  have hwidth (bits : UInt64) : (RmpF64.writeF64 bits).length = 9 := by simp [hR.f64, MessagePack.float64]
  simp only [encodePayload, List.append_assoc] at h
  obtain ⟨hbits, h⟩ := List.append_inj (List.append_cancel_left h) ((hwidth bits).trans (hwidth bits').symm)
  obtain ⟨-, htitle, h⟩ := recognises_readBinary.append_inj (hbinary ht) (hbinary ht') h
  obtain ⟨-, hcontent, hfields⟩ := recognises_readBinary.append_inj (hbinary hc) (hbinary hc') h
  refine ⟨?_, htitle, hcontent, hfields⟩
  rw [hR.f64, hR.f64] at hbits
  have hvalue := congrArg Bytes.value (List.cons.inj hbits).2
  rwa [Bytes.value_bigEndian bits.toNat_lt, Bytes.value_bigEndian bits'.toNat_lt, UInt64.toNat_inj] at hvalue

theorem signedPart_inj (hR : Rmp.WritesShortest) {m m' : LxmfMessage} (ht : m.title.length < 2 ^ 32)
    (ht' : m'.title.length < 2 ^ 32) (hc : m.content.length < 2 ^ 32) (hc' : m'.content.length < 2 ^ 32)
    (h : m.signedPart = m'.signedPart) : SameSigned m m' := by
  obtain ⟨h, -⟩ := List.append_inj' h ((fullHash _).2.trans (fullHash _).2.symm)
  simp only [hashedPart, List.append_assoc] at h
  obtain ⟨hd, h⟩ := List.append_inj h (m.destination.2.trans m'.destination.2.symm)
  obtain ⟨hs, h⟩ := List.append_inj h (m.source.2.trans m'.source.2.symm)
  obtain ⟨hbits, htitle, hcontent, hfields⟩ := encodePayload_inj hR ht ht' hc hc' h
  exact ⟨Subtype.ext hd, Subtype.ext hs, hbits, htitle, hcontent, hfields⟩

theorem verify_iff {m : LxmfMessage} {source : PublicIdentity} :
    m.verify source = .ok () ↔ m.Hashed ∧ source.verify m.signedPart m.signature = .ok () := by
  unfold verify Hashed signedPart
  dsimp only
  split
  · rename_i h
    simp [Ne.symm h]
  · rename_i h
    simp [Decidable.not_not.mp h]

theorem verify_build (hS : Crypto.SignVerifies) (source : Identity) (destination sourceHash : Arr 16) (timestamp : UInt64)
    (title content fields : Bytes) :
    (build source destination sourceHash timestamp title content fields).verify source.public = .ok () :=
  verify_iff.mpr ⟨rfl, Identity.verify_sign hS source _⟩

end LxmfMessage

/-! ## What is received -/

namespace LxmfRouter

variable [Crypto] [Rmp] [RmpF64] [Hkdf] {r : LxmfRouter} {bytes : Bytes} {m : LxmfMessage}

/-- The stamp that a cost asks for: none at no cost, else a proof of work over the message. -/
def StampPolicy (r : LxmfRouter) (m : LxmfMessage) : Prop :=
  ∀ cost, r.stampCost = some cost → cost > 0 → ∃ stamp workblock, m.stamp = some stamp ∧
    stampWorkblock m.hash.1 DELIVERY_WORKBLOCK_ROUNDS = .ok workblock ∧ verifyStamp workblock stamp cost = some true

omit [Rmp] [RmpF64] in
theorem verifyOptionalStamp_ok_iff :
    (∃ v, verifyOptionalStamp m.hash m.stamp r.stampCost [] = some (.ok v)) ↔ r.StampPolicy m := by
  unfold verifyOptionalStamp StampPolicy
  cases hcost : r.stampCost with
  | none => simp
  | some cost =>
    by_cases hpos : cost > 0
    · have hne : cost ≠ 0 := by
        rintro rfl
        exact absurd hpos (by decide)
      have hfilter : (some cost).filter (fun cost => decide (cost > 0)) = some cost := by simp [hpos]
      rw [hfilter]
      cases hstamp : m.stamp with
      | none => simp [hne]
      | some stamp =>
        cases hblock : stampWorkblock m.hash.1 DELIVERY_WORKBLOCK_ROUNDS with
        | error e => simp [hne]
        | ok workblock =>
          obtain ⟨value, hvalue, -⟩ := stampValue_eq workblock stamp
          cases hverify : verifyStamp workblock stamp cost with
          | none => simp [hne, hverify]
          | some valid => cases valid <;> simp [hne, hverify, hvalue]
    · have hzero : cost = 0 := by simpa using hpos
      subst hzero
      have hfilter : (some (0 : UInt16)).filter (fun cost => decide (cost > 0)) = none := by simp
      rw [hfilter]
      simp

/-- When a router hands out a message. -/
theorem receiveDirect_iff : r.receiveDirect bytes = some (.ok (.message m)) ↔
    LxmfMessage.unpack bytes = .ok m ∧ m.destination = r.localDestination ∧
      (∃ source, r.sourceIdentities[m.source]? = some source ∧ m.verify source = .ok ()) ∧ r.StampPolicy m := by
  rw [← verifyOptionalStamp_ok_iff]
  unfold receiveDirect unpackForLocalDestination
  constructor
  · intro h
    split at h
    · cases h
    rename_i message hunpack
    split at h
    · cases h
    rename_i hdest
    split at h
    · cases h
    rename_i source hsource
    split at h
    · cases h
    rename_i hverify
    obtain ⟨v, hv, hout⟩ := Option.map_eq_some_iff.mp h
    cases v with
    | error e => cases hout
    | ok v =>
      cases hout
      exact ⟨hunpack, Decidable.not_not.mp hdest, ⟨source, hsource, hverify⟩, v, hv⟩
  · rintro ⟨hunpack, hdest, ⟨source, hsource, hverify⟩, v, hv⟩
    simp only [hunpack, hdest, hsource, hverify, hv]
    simp

/-- A message as it is opportunistically sent, without its destination. -/
theorem receiveOpportunistic_iff {d : Arr 16} : r.receiveOpportunistic d bytes = some (.ok (.message m)) ↔
    d = r.localDestination ∧ r.receiveDirect (d.1 ++ bytes) = some (.ok (.message m)) := by
  unfold receiveOpportunistic
  split
  · rename_i h
    simp [h]
  · rename_i h
    simp [Decidable.not_not.mp h, receiveDirect]

/-- What holds of a message that a router hands out. -/
structure Accepts (r : LxmfRouter) (m : LxmfMessage) : Prop where
  destination : m.destination = r.localDestination
  signed : ∃ source, r.sourceIdentities[m.source]? = some source ∧ deliveryDestinationHash source = m.source ∧
    source.verify m.signedPart m.signature = .ok ()
  policy : r.StampPolicy m
  wellFormed : m.WellFormed

theorem Accepts.of_receiveDirect (h : r.receiveDirect bytes = some (.ok (.message m))) : r.Accepts m := by
  obtain ⟨hunpack, hdest, ⟨source, hsource, hverify⟩, hpolicy⟩ := receiveDirect_iff.mp h
  obtain ⟨hform, hhash⟩ := LxmfMessage.unpack_iff.mp hunpack
  exact ⟨hdest, ⟨source, hsource, r.addressed _ _ hsource, (LxmfMessage.verify_iff.mp hverify).2⟩, hpolicy,
    hform.wellFormed hhash⟩

omit [Rmp] [RmpF64] in
theorem stampPolicy_of_free (h : ∀ cost, r.stampCost = some cost → cost = 0) : r.StampPolicy m := by
  intro cost hcost hpos
  rw [h cost hcost] at hpos
  exact absurd hpos (by decide)

/-- A router hands out only what is addressed to it and signed by a source it remembers, with the stamp it asks for; the
signed bytes say what the six fields are; and what a remembered source builds for the router is handed out as it was built,
whether it came with its destination or behind it. -/
theorem receive_sound_complete (hS : Crypto.SignVerifies) (hR : Rmp.WritesShortest) :
    (∀ (r : LxmfRouter) (bytes : Bytes) (m : LxmfMessage), r.receiveDirect bytes = some (.ok (.message m)) → r.Accepts m) ∧
    (∀ (r : LxmfRouter) (d : Arr 16) (bytes : Bytes) (m : LxmfMessage),
      r.receiveOpportunistic d bytes = some (.ok (.message m)) → d = r.localDestination ∧ r.Accepts m) ∧
    (∀ m m' : LxmfMessage, m.title.length < 2 ^ 32 → m.content.length < 2 ^ 32 → m'.title.length < 2 ^ 32 →
      m'.content.length < 2 ^ 32 → m.signedPart = m'.signedPart → m.SameSigned m') ∧
    ∀ (r : LxmfRouter) (source : Identity) (timestamp : UInt64) (title content fields : Bytes), isFinite timestamp = true →
      title.length < 2 ^ 32 → content.length < 2 ^ 32 → MessagePack.Map 64 fields →
      r.sourceIdentities[deliveryDestinationHash source.public]? = some source.public →
      (∀ cost, r.stampCost = some cost → cost = 0) →
      let m := LxmfMessage.build source r.localDestination (deliveryDestinationHash source.public) timestamp title content fields
      r.receiveDirect m.pack = some (.ok (.message m)) ∧
        r.receiveOpportunistic m.destination (m.pack.drop 16) = some (.ok (.message m)) := by
  refine ⟨fun _ _ _ => .of_receiveDirect, fun r d bytes m h => ?_, fun m m' ht hc ht' hc' => ?_, ?_⟩
  · obtain ⟨hd, hdirect⟩ := receiveOpportunistic_iff.mp h
    exact ⟨hd, .of_receiveDirect hdirect⟩
  · exact LxmfMessage.signedPart_inj hR ht ht' hc hc'
  · intro r source timestamp title content fields hfinite htitle hcontent hfields hsource hfree m
    have hform : m.WellFormed := ⟨hfinite, htitle, hcontent, hfields, fun _ h => (nomatch h), rfl⟩
    have hverify := LxmfMessage.verify_build hS source r.localDestination (deliveryDestinationHash source.public) timestamp title
      content fields
    have hdirect : r.receiveDirect m.pack = some (.ok (.message m)) :=
      receiveDirect_iff.mpr ⟨LxmfMessage.unpack_pack hR hform, rfl, ⟨source.public, hsource, hverify⟩,
        stampPolicy_of_free hfree⟩
    refine ⟨hdirect, receiveOpportunistic_iff.mpr ⟨rfl, ?_⟩⟩
    have hcut : m.destination.1 ++ m.pack.drop 16 = m.pack := by
      simp only [LxmfMessage.pack, List.append_assoc, List.drop_left' m.destination.2]
    rw [hcut]
    exact hdirect

end LxmfRouter

/-! ## Two letters -/

section
open Sample

/-- A router that remembers one source. -/
def postOffice : LxmfRouter := ((LxmfRouter.new (identity 2).public).rememberSource (identity 1).public).1

def posted (title : Bytes) : LxmfMessage :=
  LxmfMessage.build (identity 1) postOffice.localDestination (deliveryDestinationHash (identity 1).public) 0x4045400000000000 title
    [2, 3] fields

theorem postOffice_remembers :
    postOffice.sourceIdentities[deliveryDestinationHash (identity 1).public]? = some (identity 1).public :=
  Std.ExtTreeMap.getElem?_insert_self

theorem receive_sound_complete_posted :
    postOffice.receiveDirect (posted [1]).pack = some (.ok (.message (posted [1]))) ∧
      postOffice.receiveOpportunistic (posted [1]).destination ((posted [1]).pack.drop 16) =
        some (.ok (.message (posted [1]))) :=
  (LxmfRouter.receive_sound_complete signVerifies writesShortest).2.2.2 postOffice (identity 1) _ [1] [2, 3] fields
    (by decide) (by decide) (by decide) map_fields postOffice_remembers fun _ h => (nomatch h)

/-- A title of four gigabytes does not fit its length field. -/
theorem receive_incomplete : ¬ ∀ (r : LxmfRouter) (source : Identity) (timestamp : UInt64) (title content fields : Bytes),
    isFinite timestamp = true → MessagePack.Map 64 fields →
    r.sourceIdentities[deliveryDestinationHash source.public]? = some source.public → r.stampCost = none →
    r.receiveDirect (LxmfMessage.build source r.localDestination (deliveryDestinationHash source.public) timestamp title content
      fields).pack = some (.ok (.message (LxmfMessage.build source r.localDestination (deliveryDestinationHash source.public)
      timestamp title content fields))) := by
  intro h
  have hlong := h postOffice (identity 1) 0x4045400000000000 (List.replicate (2 ^ 32) 0) [2, 3] fields (by decide) map_fields
    postOffice_remembers rfl
  have htitle := (LxmfRouter.Accepts.of_receiveDirect hlong).wellFormed.title
  have hlen : (List.replicate (2 ^ 32) (0 : UInt8)).length < 2 ^ 32 := htitle
  rw [List.length_replicate] at hlen
  exact Nat.lt_irrefl _ hlen

end

end Reticulum
