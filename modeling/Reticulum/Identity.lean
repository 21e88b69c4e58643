import Reticulum.Crates

/-!
# Hashes, identities, destinations and explicit proofs

`hash.rs`, `identity.rs`, `destination.rs` and `proof.rs` of the core crate.
-/

namespace Reticulum

open Std

/-! ## The keys of the maps -/

instance transOrdHash : TransOrd (Arr 16) := inferInstance

instance transOrdFullHash : TransOrd (Arr 32) := inferInstance

instance transOrdHashRandom : TransOrd (Arr 16 × Arr 10) := inferInstance

instance transOrdHashHash : TransOrd (Arr 16 × Arr 16) := inferInstance

instance transOrdHashFullHash : TransOrd (Arr 16 × Arr 32) := inferInstance

theorem hash_le : 16 ≤ 32 := by decide

theorem half_le : 32 ≤ 64 := by decide

variable [Crypto]

/-! ## `hash.rs` -/

/-- Full SHA-256 of `data`. -/
def fullHash (data : Bytes) : Arr 32 := Crypto.sha256 data

/-- First 16 bytes of SHA-256. -/
def truncatedHash (data : Bytes) : Arr 16 := (fullHash data).prefixOf 16 hash_le

/-! ## `identity.rs` -/

structure PublicIdentity where
  encPub : Arr 32
  sigPub : Arr 32
  deriving DecidableEq

def PublicIdentity.fromBytes (b : Bytes) : Except CoreError PublicIdentity :=
  if h : b.length ≠ 64 then .error .truncated
  else .ok ⟨⟨b.take 32, by simp; omega⟩, ⟨b.drop 32, by simp; omega⟩⟩

def PublicIdentity.toBytes (p : PublicIdentity) : Arr 64 :=
  ⟨p.encPub.1 ++ p.sigPub.1, by simp [p.encPub.2, p.sigPub.2]⟩

def PublicIdentity.hash (p : PublicIdentity) : Arr 16 := truncatedHash p.toBytes.1

def PublicIdentity.verify (p : PublicIdentity) (msg : Bytes) (sig : Arr 64) : Except CoreError Unit :=
  if Crypto.ed25519ValidKey p.sigPub then
    if Crypto.ed25519Verify p.sigPub msg sig then .ok () else .error .badSignature
  else .error .invalidField

/-- The two secrets of an identity. -/
structure Identity where
  encPrv : Arr 32
  sig : Arr 32
  deriving DecidableEq

def Identity.fromPrivateBytes (x25519 ed25519 : Arr 32) : Identity := ⟨x25519, ed25519⟩

def Identity.public (i : Identity) : PublicIdentity :=
  ⟨Crypto.x25519Public i.encPrv, Crypto.ed25519Public i.sig⟩

def Identity.hash (i : Identity) : Arr 16 := i.public.hash

def Identity.sign (i : Identity) (msg : Bytes) : Arr 64 := Crypto.ed25519Sign i.sig msg

def Identity.diffieHellman (i : Identity) (peerEncPub : Arr 32) : Arr 32 :=
  Crypto.x25519 i.encPrv peerEncPub

omit [Crypto] in
@[simp] theorem PublicIdentity.fromBytes_toBytes (p : PublicIdentity) :
    fromBytes p.toBytes.1 = .ok p := by
  simp [fromBytes, toBytes, p.encPub.2, p.sigPub.2]

omit [Crypto] in
theorem PublicIdentity.fromBytes_arr (b : Arr 64) : ∃ p, fromBytes b.1 = .ok p := by simp [fromBytes, b.2]

omit [Crypto] in
theorem PublicIdentity.toBytes_of_fromBytes {b : Bytes} {p : PublicIdentity} (h : fromBytes b = .ok p) :
    p.toBytes.1 = b := by
  unfold fromBytes at h
  split at h
  · cases h
  · cases h
    simp [toBytes]

theorem Identity.verify_sign (hS : Crypto.SignVerifies) (i : Identity) (msg : Bytes) :
    i.public.verify msg (i.sign msg) = .ok () := by
  simp [PublicIdentity.verify, Identity.public, Identity.sign, (hS i.sig msg).1, (hS i.sig msg).2]

/-! ## `destination.rs` -/

/-- SHA-256 of "app_name.aspect1.aspect2..." truncated to 10 bytes. -/
def nameHash (appName : String) (aspects : List String) : Arr 10 :=
  (fullHash (aspects.foldl (fun name a => name ++ "." ++ a) appName).toUTF8.data.toList).prefixOf 10
    (by decide)

/-- truncated SHA-256(name_hash || identity_hash). -/
def destinationHash (nameHash : Arr 10) (identityHash : Arr 16) : Arr 16 :=
  truncatedHash (nameHash.1 ++ identityHash.1)

/-- Address without an identity. -/
def groupDestinationHash (appName : String) (aspects : List String) : Arr 16 :=
  truncatedHash (nameHash appName aspects).1

def groupDestinationHashWithIdentity (appName : String) (aspects : List String)
    (identityHash : Arr 16) : Arr 16 :=
  destinationHash (nameHash appName aspects) identityHash

/-! ## `proof.rs` -/

/-- Full packet hash followed by its signature. -/
def buildProof (identity : Identity) (packetHash : Arr 32) : Bytes :=
  packetHash.1 ++ (identity.sign packetHash.1).1

/-- Verify an explicit proof and return the proved full packet hash. -/
def verifyProof (destinationPublic : PublicIdentity) (proof : Bytes) : Except CoreError (Arr 32) :=
  if proof.length < 96 then .error .truncated
  else if h : proof.length ≠ 96 then .error .invalidField
  else
    let packetHash : Arr 32 := ⟨proof.take 32, by simp; omega⟩
    let signature : Arr 64 := ⟨proof.drop 32, by simp; omega⟩
    match destinationPublic.verify packetHash.1 signature with
    | .error e => .error e
    | .ok () => .ok packetHash

/-- The first 16 bytes of the full packet hash. -/
def proofDestinationHash (packetHash : Arr 32) : Arr 16 := packetHash.prefixOf 16 hash_le

end Reticulum
