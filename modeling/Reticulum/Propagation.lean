import Reticulum.Router
import Reticulum.Token

/-!
# LXMF propagation

`propagation.rs`: a message is sealed for its recipient, perhaps stamped, and
put in a container that is stored for it. The container is read by hand; the
recipient cuts off the stamp, opens the token and unpacks the message.
-/

namespace Reticulum

open Lxmf Cursor

namespace Propagation

structure PropagationUpload where
  /-- Hash of the encrypted LXMF blob before an optional stamp is appended. -/
  transientId : Arr 32
  /-- destination_hash ‖ encrypted_message ‖ optional_stamp -/
  lxmfData : Bytes
  /-- MessagePack `[timestamp, [lxmf_data]]` sent over the propagation link. -/
  packed : Bytes

structure PropagationContainer where
  timestamp : UInt64
  messages : List Bytes
  deriving DecidableEq

/-! ## The container -/

section
variable [Rmp] [RmpF64]

/-- `u32::try_from(len).unwrap_or(u32::MAX)` -/
def containerCount (len : Nat) : Nat := if len < 2 ^ 32 then len else 2 ^ 32 - 1

def packPropagationContainer (timestamp : UInt64) (messages : List Bytes) : Bytes :=
  Rmp.writeArrayLen 2 ++ RmpF64.writeF64 timestamp ++ Rmp.writeArrayLen (containerCount messages.length) ++
    messages.flatMap Rmp.writeBin

end

def readArrayLen (input : Bytes) : Cursor CoreError UInt32 := do
  let marker ← takeByte input
  if 0x90 ≤ marker ∧ marker ≤ 0x9f then return (marker &&& 0x0f).toUInt32
  else if marker = 0xdc then do
    let count ← Lxmf.readU16 input
    return count.toUInt32
  else if marker = 0xdd then Lxmf.readU32 input
  else fail .invalidField

/-- The entries: their count may not exceed the length of the container. -/
def readMessages (bytes : Bytes) : Cursor CoreError (List Bytes) := do
  let count ← readArrayLen bytes
  reject (count.toNat > bytes.length) .invalidField
  collect (Lxmf.readBinary bytes) count.toNat

def readContainer (bytes : Bytes) : Cursor CoreError PropagationContainer := do
  let length ← readArrayLen bytes
  reject (length ≠ 2) .invalidField
  let marker ← takeByte bytes
  reject (marker ≠ 0xcb) .invalidField
  let timestamp ← readU64 bytes
  reject (isFinite timestamp = false) .invalidField
  let messages ← readMessages bytes
  return { timestamp, messages }

def unpackPropagationContainer (bytes : Bytes) : Except CoreError PropagationContainer := readAll readContainer bytes

/-! ## The upload -/

section
variable [Crypto] [Rmp] [RmpF64]

def buildPropagationUpload (message : LxmfMessage) (recipient : PublicIdentity) (timestamp : UInt64) (stamp : Option Bytes)
    (entropy : Entropy) : Except CoreError PropagationUpload :=
  if isFinite timestamp = false then .error .invalidField
  else
    let (ephemeral, entropy) := entropy.fill 32
    let (iv, _) := entropy.fill 16
    let packedMessage := message.pack
    let encrypted := Token.encrypt recipient (packedMessage.drop DESTINATION_LENGTH) ephemeral iv
    let unstamped := message.destination.1 ++ encrypted
    let transientId := fullHash unstamped
    let lxmfData := unstamped ++ stamp.getD []
    let packed := packPropagationContainer timestamp [lxmfData]
    .ok { transientId, lxmfData, packed }

def decryptPropagatedMessage (recipient : Identity) (lxmfData : Bytes) (stampLength : Nat) : Except CoreError LxmfMessage :=
  if lxmfData.length < stampLength then .error .truncated
  else
    let encryptedEnd := lxmfData.length - stampLength
    if encryptedEnd ≤ DESTINATION_LENGTH then .error .truncated
    else
      match Arr.slice? lxmfData 0 16 with
      | none => .error .truncated
      | some destination =>
        if destination ≠ deliveryDestinationHash recipient.public then .error .invalidField
        else
          match Token.decrypt recipient ((lxmfData.take encryptedEnd).drop DESTINATION_LENGTH) with
          | .error e => .error e
          | .ok decrypted => LxmfMessage.unpack (destination.1 ++ decrypted)

end

/-! ## What a container is -/

/-- The words of a container. -/
inductive ContainerForm : Bytes → PropagationContainer → Prop
  | mk {head time count body : Bytes} {c : PropagationContainer} : MessagePack.ArrayHeader head 2 → time.length = 8 →
    c.timestamp.toNat = time.value → isFinite c.timestamp = true → MessagePack.ArrayHeader count c.messages.length →
    Listed MessagePack.Binary body c.messages → ContainerForm (head ++ 0xcb :: (time ++ (count ++ body))) c

theorem readArrayLen_eq (input : Bytes) : readArrayLen input = readCollectionLen input 0x90 0xdc 0xdd := by
  have hfix : ∀ marker : UInt8, 0x90 ≤ marker ∧ marker ≤ 0x9f ↔ marker &&& 0xf0 = 0x90 := forall_byte (by decide +kernel)
  unfold readArrayLen readCollectionLen
  simp only [hfix]

theorem recognises_readArrayLen : Recognises readArrayLen fun w n => MessagePack.ArrayHeader w n.toNat := by
  have h := recognises_readCollectionLen
  simp only [← readArrayLen_eq] at h
  exact h

/-- The count is never rejected for a container that holds so many entries. -/
theorem recognises_readMessages : Recognises readMessages fun w messages =>
    ∃ count body, w = count ++ body ∧ MessagePack.ArrayHeader count messages.length ∧ Listed MessagePack.Binary body messages := by
  have hne (w b : Bytes) (h : MessagePack.Binary w b) : w ≠ [] := by
    cases h <;> exact List.cons_ne_nil _ _
  have hcollect (count : UInt32) : Recognises (fun bytes => reject (count.toNat > bytes.length) CoreError.invalidField >>= fun _ =>
      collect (Lxmf.readBinary bytes) count.toNat) fun w messages => Listed MessagePack.Binary w messages ∧ messages.length = count.toNat :=
    (recognises_collect recognises_readBinary count.toNat).after_length_check _ fun w messages h => h.2 ▸ h.1.length_le hne
  refine (recognises_readArrayLen.bind hcollect).congr fun w messages => ⟨?_, ?_⟩
  · rintro ⟨n, count, body, rfl, hcount, hbody, hlen⟩
    exact ⟨count, body, rfl, hlen ▸ hcount, hbody⟩
  · rintro ⟨count, body, rfl, hcount, hbody⟩
    have hn : (UInt32.ofNat messages.length).toNat = messages.length := UInt32.toNat_ofNat_of_lt' hcount.lt
    exact ⟨UInt32.ofNat messages.length, count, body, rfl, hn.symm ▸ hcount, hbody, hn.symm⟩

theorem recognises_readContainer : Recognises readContainer ContainerForm := by
  have hbind := recognises_readArrayLen.bind_checked (c := fun length => length ≠ 2) CoreError.invalidField
    fun _ => recognises_takeByte.bind_checked (c := fun marker => marker ≠ 0xcb) CoreError.invalidField
    fun _ => readsNumber_readU64.recognises.bind_checked (c := fun bits => isFinite bits = false) CoreError.invalidField
    fun timestamp => recognises_readMessages.bind
    fun messages => recognises_pure (PropagationContainer.mk timestamp messages)
  refine hbind.congr fun w c => ⟨?_, ?_⟩
  · rintro ⟨length, head, _, rfl, ⟨hhead, hlength⟩, marker, _, _, rfl, ⟨rfl, hmarker⟩, timestamp, time, _, rfl,
      ⟨⟨htime, hvalue⟩, hfinite⟩, messages, _, _, rfl, ⟨count, body, rfl, hcount, hbody⟩, rfl, rfl⟩
    obtain rfl : length = 2 := Decidable.not_not.mp hlength
    obtain rfl : marker = 0xcb := Decidable.not_not.mp hmarker
    have hfinite : isFinite timestamp = true := Bool.of_not_eq_false hfinite
    simp only [List.append_nil, List.singleton_append]
    exact .mk (c := ⟨timestamp, messages⟩) hhead htime hvalue hfinite hcount hbody
  · rintro ⟨hhead, htime, hvalue, hfinite, hcount, hbody⟩
    rename_i head time count body
    refine ⟨2, head, _, rfl, ⟨hhead, not_not_intro rfl⟩, ?_⟩
    refine ⟨0xcb, [0xcb], time ++ (count ++ body), rfl, ⟨rfl, not_not_intro rfl⟩, ?_⟩
    refine ⟨c.timestamp, time, _, rfl, ⟨⟨htime, hvalue⟩, by simp [hfinite]⟩, ?_⟩
    exact ⟨c.messages, count ++ body, [], (List.append_nil _).symm, ⟨count, body, rfl, hcount, hbody⟩, rfl, rfl⟩

theorem unpackPropagationContainer_iff {w : Bytes} {c : PropagationContainer} :
    unpackPropagationContainer w = .ok c ↔ ContainerForm w c := readAll_iff recognises_readContainer

/-- A container holds less than 2^32 entries, each shorter than 2^32 bytes. -/
theorem ContainerForm.bounded {w : Bytes} {c : PropagationContainer} (h : ContainerForm w c) :
    c.messages.length < 2 ^ 32 ∧ ∀ b ∈ c.messages, b.length < 2 ^ 32 := by
  cases h with
  | mk _ _ _ _ hcount hbody =>
    refine ⟨hcount.lt, fun b hb => ?_⟩
    obtain ⟨u, hu⟩ := hbody.exists_of_mem hb
    exact hu.length_lt

theorem unpack_pack_container [Rmp] [RmpF64] (hR : Rmp.WritesShortest) {timestamp : UInt64} {messages : List Bytes}
    (hfinite : isFinite timestamp = true) (hcount : messages.length < 2 ^ 32) (hlen : ∀ b ∈ messages, b.length < 2 ^ 32) :
    unpackPropagationContainer (packPropagationContainer timestamp messages) = .ok ⟨timestamp, messages⟩ := by
  have htime : Bytes.value (Bytes.bigEndian 8 timestamp.toNat) = timestamp.toNat := Bytes.value_bigEndian timestamp.toNat_lt
  have hbody : Listed MessagePack.Binary (messages.flatMap Rmp.writeBin) messages := by
    refine listed_flatMap fun b hb => ?_
    rw [hR.bin b (hlen b hb)]
    exact MessagePack.binary_binHeader (hlen b hb)
  have hmk := ContainerForm.mk (c := ⟨timestamp, messages⟩) (MessagePack.arrayHeader_header (by decide)) (Bytes.length_bigEndian ..)
    htime.symm hfinite (MessagePack.arrayHeader_header hcount) hbody
  refine unpackPropagationContainer_iff.mpr ?_
  simpa only [packPropagationContainer, containerCount, hcount, if_true, hR.arrayLen 2 (by decide), hR.arrayLen _ hcount, hR.f64,
    MessagePack.float64, List.append_assoc, List.cons_append] using hmk

theorem unpackPropagationContainer_prefix_free {b b' : Bytes} {c c' : PropagationContainer}
    (h : unpackPropagationContainer b = .ok c) (h' : unpackPropagationContainer b' = .ok c') (hpre : b <+: b') : b = b' :=
  (recognises_readContainer.prefix_free (unpackPropagationContainer_iff.mp h) (unpackPropagationContainer_iff.mp h') hpre).1

/-! ## What is uploaded is received -/

section
variable [Crypto] [Rmp] [RmpF64]

/-- `token::decrypt` inverts `token::encrypt`. -/
def TokenInverts : Prop := ∀ (recipient : Identity) (plaintext : Bytes) (ephemeral : Arr 32) (iv : Arr 16),
  Token.decrypt recipient (Token.encrypt recipient.public plaintext ephemeral iv) = .ok plaintext

/-- The recipient cuts the entry where the sender joined it. -/
theorem decryptPropagatedMessage_upload (hT : TokenInverts) (hR : Rmp.WritesShortest) {m : LxmfMessage} (hm : m.WellFormed)
    (recipient : Identity) (hdest : m.destination = deliveryDestinationHash recipient.public) (ephemeral : Arr 32) (iv : Arr 16)
    (stamp : Bytes) : decryptPropagatedMessage recipient
      (m.destination.1 ++ Token.encrypt recipient.public (m.pack.drop DESTINATION_LENGTH) ephemeral iv ++ stamp) stamp.length =
      .ok m := by
  have hd := m.destination.2
  have hlong : 0 < (Token.encrypt recipient.public (m.pack.drop DESTINATION_LENGTH) ephemeral iv).length := by
    simp only [Token.encrypt, List.length_append, (Crypto.x25519Public ephemeral).2]
    omega
  have hopen := hT recipient (m.pack.drop DESTINATION_LENGTH) ephemeral iv
  generalize Token.encrypt recipient.public (m.pack.drop DESTINATION_LENGTH) ephemeral iv = encrypted at hlong hopen
  have hlen : (m.destination.1 ++ encrypted ++ stamp).length = 16 + encrypted.length + stamp.length := by
    rw [List.length_append, List.length_append, hd]
  have hcut : (m.destination.1 ++ encrypted ++ stamp).length - stamp.length = (m.destination.1 ++ encrypted).length := by
    rw [hlen, List.length_append, hd]
    omega
  have hslice : Arr.slice? (m.destination.1 ++ encrypted ++ stamp) 0 16 = some m.destination := by
    rw [List.append_assoc]
    exact Arr.slice?_append (show ([] : Bytes).length = 0 from rfl) m.destination _
  have htoken : ((m.destination.1 ++ encrypted ++ stamp).take (m.destination.1 ++ encrypted).length).drop DESTINATION_LENGTH =
      encrypted := by
    rw [List.take_left]
    exact List.drop_left' hd
  have hpack : m.destination.1 ++ m.pack.drop DESTINATION_LENGTH = m.pack := by
    simp only [LxmfMessage.pack, List.append_assoc, DESTINATION_LENGTH, List.drop_left' hd]
  have hbound : ¬ 16 + encrypted.length ≤ DESTINATION_LENGTH := by
    rw [DESTINATION_LENGTH]
    omega
  unfold decryptPropagatedMessage
  dsimp only
  rw [hcut, hslice, htoken, hopen, if_neg (by omega), List.length_append, hd, if_neg hbound]
  dsimp only
  rw [if_neg (not_not_intro hdest), hpack]
  exact LxmfMessage.unpack_pack hR hm

/-- The entry of an upload before its stamp. -/
def unstampedEntry (m : LxmfMessage) (recipient : PublicIdentity) (entropy : Entropy) : Bytes :=
  m.destination.1 ++ Token.encrypt recipient (m.pack.drop DESTINATION_LENGTH) (entropy.fill 32).1 ((entropy.fill 32).2.fill 16).1

theorem buildPropagationUpload_eq (m : LxmfMessage) (recipient : PublicIdentity) {timestamp : UInt64}
    (hfinite : isFinite timestamp = true) (stamp : Option Bytes) (entropy : Entropy) :
    buildPropagationUpload m recipient timestamp stamp entropy = .ok {
      transientId := fullHash (unstampedEntry m recipient entropy)
      lxmfData := unstampedEntry m recipient entropy ++ stamp.getD []
      packed := packPropagationContainer timestamp [unstampedEntry m recipient entropy ++ stamp.getD []] } := by
  rw [buildPropagationUpload, if_neg (by simp [hfinite])]
  rfl

theorem buildPropagationUpload_finite {m : LxmfMessage} {recipient : PublicIdentity} {timestamp : UInt64} {stamp : Option Bytes}
    {entropy : Entropy} {upload : PropagationUpload}
    (h : buildPropagationUpload m recipient timestamp stamp entropy = .ok upload) : isFinite timestamp = true := by
  unfold buildPropagationUpload at h
  split at h
  · cases h
  · rename_i hfinite
    exact Bool.of_not_eq_false hfinite

/-- What the sender of a message uploads. -/
structure Uploaded (m : LxmfMessage) (recipient : Identity) (timestamp : UInt64) (stamp : Option Bytes) (entropy : Entropy)
    (upload : PropagationUpload) : Prop where
  built : buildPropagationUpload m recipient.public timestamp stamp entropy = .ok upload
  /-- An entry that fits a byte string of the format. -/
  entry : upload.lxmfData.length < 2 ^ 32 → unpackPropagationContainer upload.packed = .ok ⟨timestamp, [upload.lxmfData]⟩
  received : decryptPropagatedMessage recipient upload.lxmfData (stamp.getD []).length = .ok m
  unstamped : ∀ (timestamp' : UInt64) (stamp' : Option Bytes) (upload' : PropagationUpload),
    buildPropagationUpload m recipient.public timestamp' stamp' entropy = .ok upload' → upload'.transientId = upload.transientId

/-- A container that is not too long for the format is unpacked as it was packed, and none begins another; and a message
that is uploaded for its recipient, with any stamp, is the one the recipient reads. -/
theorem propagation_roundtrip (hT : TokenInverts) (hR : Rmp.WritesShortest) :
    (∀ (timestamp : UInt64) (messages : List Bytes), isFinite timestamp = true → messages.length < 2 ^ 32 →
      (∀ b ∈ messages, b.length < 2 ^ 32) →
      unpackPropagationContainer (packPropagationContainer timestamp messages) = .ok ⟨timestamp, messages⟩) ∧
    (∀ (b b' : Bytes) (c c' : PropagationContainer), unpackPropagationContainer b = .ok c → b' ≠ b → b' <+: b ∨ b <+: b' →
      unpackPropagationContainer b' ≠ .ok c') ∧
    ∀ (m : LxmfMessage) (recipient : Identity) (timestamp : UInt64) (stamp : Option Bytes) (entropy : Entropy), m.WellFormed →
      m.destination = deliveryDestinationHash recipient.public → isFinite timestamp = true →
      ∃ upload, Uploaded m recipient timestamp stamp entropy upload := by
  refine ⟨fun _ _ => unpack_pack_container hR, fun b b' c c' h hne hpre h' => ?_, ?_⟩
  · rcases hpre with hpre | hpre
    · exact hne (unpackPropagationContainer_prefix_free h' h hpre)
    · exact hne (unpackPropagationContainer_prefix_free h h' hpre).symm
  · intro m recipient timestamp stamp entropy hm hdest hfinite
    have hbuilt := buildPropagationUpload_eq m recipient.public hfinite stamp entropy
    refine ⟨_, hbuilt, fun hlen => ?_, ?_, fun timestamp' stamp' upload' h' => ?_⟩
    · refine unpack_pack_container hR hfinite (show 1 < 2 ^ 32 by decide) fun b hb => ?_
      rw [List.mem_singleton.mp hb]
      exact hlen
    · exact decryptPropagatedMessage_upload hT hR hm recipient hdest _ _ _
    · rw [buildPropagationUpload_eq m recipient.public (buildPropagationUpload_finite h') stamp' entropy] at h'
      cases h'
      rfl

end

end Propagation

/-! ## A letter for storage -/

section
open Sample Propagation

/-- A letter to the identity of seed 2. -/
def storedLetter : LxmfMessage := { posted [1] with stamp := some (List.replicate 16 7) }

theorem storedLetter_wellFormed : storedLetter.WellFormed := by
  refine ⟨by decide, by decide, by decide, map_fields, fun stamp h => ?_, rfl⟩
  cases h
  exact .inl rfl

theorem tokenInverts : TokenInverts := fun recipient => Token.decrypt_encrypt dhCommutes aesInverts recipient

theorem propagation_roundtrip_stored : ∃ upload,
    Uploaded storedLetter (identity 2) 0x4045400000000000 (some (List.replicate 32 9)) (entropy 3) upload :=
  (propagation_roundtrip tokenInverts writesShortest).2.2 storedLetter (identity 2) _ _ (entropy 3) storedLetter_wellFormed rfl
    (by decide)

/-- A container does not hold 2^32 entries, nor an entry of 2^32 bytes, and at no finite time nothing is built. -/
theorem propagation_limits :
    ¬ (∀ (timestamp : UInt64) (messages : List Bytes), isFinite timestamp = true → (∀ b ∈ messages, b.length < 2 ^ 32) →
      unpackPropagationContainer (packPropagationContainer timestamp messages) = .ok ⟨timestamp, messages⟩) ∧
    ¬ (∀ (m : LxmfMessage) (recipient : Identity) (timestamp : UInt64) (stamp : Option Bytes) (rng : Entropy), m.WellFormed →
      m.destination = deliveryDestinationHash recipient.public →
      ∃ upload, buildPropagationUpload m recipient.public timestamp stamp rng = .ok upload) ∧
    ¬ ∀ (m : LxmfMessage) (recipient : Identity) (timestamp : UInt64) (stamp : Option Bytes) (rng : Entropy)
      (upload : PropagationUpload), m.WellFormed → m.destination = deliveryDestinationHash recipient.public →
      buildPropagationUpload m recipient.public timestamp stamp rng = .ok upload →
      unpackPropagationContainer upload.packed = .ok ⟨timestamp, [upload.lxmfData]⟩ := by
  refine ⟨fun h => ?_, fun h => ?_, fun h => ?_⟩
  · have hlong := h 0 (List.replicate (2 ^ 32) []) (by decide) fun b hb => by
      rw [(List.mem_replicate.mp hb).2]
      decide
    have hcount : (List.replicate (2 ^ 32) ([] : Bytes)).length < 2 ^ 32 :=
      (unpackPropagationContainer_iff.mp hlong).bounded.1
    rw [List.length_replicate] at hcount
    exact Nat.lt_irrefl _ hcount
  · obtain ⟨upload, hbuilt⟩ := h storedLetter (identity 2) 0x7ff8000000000000 none (entropy 3) storedLetter_wellFormed rfl
    cases buildPropagationUpload_finite hbuilt
  · have hbuilt := buildPropagationUpload_eq storedLetter (identity 2).public (show isFinite 0 = true by decide)
      (some (List.replicate (2 ^ 32) 0)) (entropy 3)
    have hunpack := h _ _ _ _ _ _ storedLetter_wellFormed rfl hbuilt
    have hlen := (unpackPropagationContainer_iff.mp hunpack).bounded.2 _ List.mem_cons_self
    rw [List.length_append, Option.getD_some, List.length_replicate] at hlen
    omega

end

end Reticulum
