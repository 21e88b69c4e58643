import Reticulum.Packet

/-!
# Link handshake primitives

`link.rs`: the request payload, the link id it hashes to, the key both ends
derive and the destination's signed proof.
-/

namespace Reticulum

def LINK_REQUEST_LEN : Nat := 64
def LINK_SIGNALLING_LEN : Nat := 3

structure LinkEphemeral where
  x25519Prv : Arr 32
  x25519Pub : Arr 32
  ed25519Prv : Arr 32
  ed25519Pub : Arr 32
  deriving DecidableEq

/-- Parses the 64-byte key payload, with or without the 3-byte signalling suffix. -/
def parseLinkRequest (data : Bytes) : Except CoreError (Arr 32 × Arr 32) :=
  if h : data.length ≠ LINK_REQUEST_LEN ∧ data.length ≠ LINK_REQUEST_LEN + LINK_SIGNALLING_LEN then
    .error .invalidField
  else
    have h : 64 ≤ data.length := by simp only [LINK_REQUEST_LEN, LINK_SIGNALLING_LEN] at h; omega
    .ok (⟨data.take 32, by simp; omega⟩, ⟨(data.drop 32).take 32, by simp; omega⟩)

def linkRequestPayload (e : LinkEphemeral) : Bytes := e.x25519Pub.1 ++ e.ed25519Pub.1

variable [Crypto]

namespace LinkEphemeral

def fromPrivateBytes (x25519Prv ed25519Prv : Arr 32) : LinkEphemeral where
  x25519Prv := x25519Prv
  x25519Pub := Crypto.x25519Public x25519Prv
  ed25519Prv := ed25519Prv
  ed25519Pub := Crypto.ed25519Public ed25519Prv

def generate (rng : Entropy) : LinkEphemeral × Entropy :=
  let (x25519Prv, rng) := rng.fill 32
  let (ed25519Prv, rng) := rng.fill 32
  (fromPrivateBytes x25519Prv ed25519Prv, rng)

end LinkEphemeral

/-- The hashable part with everything after the 64-byte key payload cut off. -/
def linkIdInput (packet : Packet) : Bytes :=
  let hashable := packet.hashablePart
  if packet.data.length > LINK_REQUEST_LEN then
    hashable.take (hashable.length - (packet.data.length - LINK_REQUEST_LEN))
  else hashable

def linkIdFromRequest (packet : Packet) : Arr 16 := truncatedHash (linkIdInput packet)

def deriveLinkKey (ownX25519Prv peerX25519Pub : Arr 32) (linkId : Arr 16) : Arr 64 :=
  Crypto.hkdf linkId.1 (Crypto.x25519 ownX25519Prv peerX25519Pub).1

/-- What the destination signs to accept a link. -/
def linkProofMessage (linkId : Arr 16) (x25519Pub sigPub : Arr 32) (signalling : Bytes) : Bytes :=
  linkId.1 ++ x25519Pub.1 ++ sigPub.1 ++ signalling

def buildLinkProof (destinationIdentity : Identity) (linkId : Arr 16) (responder : LinkEphemeral) : Bytes :=
  let signed := linkProofMessage linkId responder.x25519Pub destinationIdentity.public.sigPub []
  (destinationIdentity.sign signed).1 ++ responder.x25519Pub.1

/-- Verifies the 96-byte base proof and the 99-byte proof with signalling. -/
def verifyLinkProof (destinationPublic : PublicIdentity) (linkId : Arr 16) (proofData : Bytes) :
    Except CoreError (Arr 32) :=
  if h : proofData.length < 96 then .error .truncated
  else if proofData.length ≠ 96 ∧ proofData.length ≠ 96 + LINK_SIGNALLING_LEN then .error .invalidField
  else
    let signature : Arr 64 := ⟨proofData.take 64, Arr.length_slice 0 h (Nat.le_of_ble_eq_true rfl)⟩
    let peerX25519Pub : Arr 32 := ⟨(proofData.drop 64).take 32, Arr.length_slice 64 h (Nat.le_of_ble_eq_true rfl)⟩
    let signed := linkProofMessage linkId peerX25519Pub destinationPublic.sigPub (proofData.drop 96)
    match destinationPublic.verify signed signature with
    | .error e => .error e
    | .ok () => .ok peerX25519Pub

end Reticulum
