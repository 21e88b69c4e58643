import Reticulum.Packet

/-!
# Announces

`announce.rs`: the payload of an ANNOUNCE packet, and the signature check
against the destination hash it is sent under.
-/

namespace Reticulum

namespace Announce

def PUB_LEN : Nat := 64
def NAME_LEN : Nat := 10
def RAND_LEN : Nat := 10
def RATCHET_LEN : Nat := 32
def SIG_LEN : Nat := 64
def MIN : Nat := PUB_LEN + NAME_LEN + RAND_LEN + SIG_LEN

end Announce

structure Announce where
  pub : Arr 64
  nameHash : Arr 10
  randomHash : Arr 10
  ratchet : Option (Arr 32)
  signature : Arr 64
  appData : Bytes
  deriving DecidableEq

namespace Announce

/-- `payload.get(off..off + len).ok_or(Truncated)?.try_into()` -/
def field (payload : Bytes) (off len : Nat) : Except CoreError (Arr len) :=
  match Arr.slice? payload off len with
  | some a => .ok a
  | none => .error .truncated

/-- Parses the ANNOUNCE packet data field; the packet context flag tells whether a ratchet is present. -/
def parse (payload : Bytes) (hasRatchet : Bool) : Except CoreError Announce := do
  if payload.length < MIN + hasRatchet.toNat * RATCHET_LEN then throw .truncated
  let pub ← field payload 0 PUB_LEN
  let nameHash ← field payload PUB_LEN NAME_LEN
  let randomHash ← field payload (PUB_LEN + NAME_LEN) RAND_LEN
  let off := PUB_LEN + NAME_LEN + RAND_LEN
  let ratchet ← if hasRatchet then some <$> field payload off RATCHET_LEN else pure none
  let off := off + hasRatchet.toNat * RATCHET_LEN
  let signature ← field payload off SIG_LEN
  return { pub, nameHash, randomHash, ratchet, signature, appData := payload.drop (off + SIG_LEN) }

def ratchetBytes (ratchet : Option (Arr 32)) : Bytes :=
  match ratchet with
  | some r => r.1
  | none => []

/-- dest_hash ‖ public ‖ name_hash ‖ random_hash ‖ ratchet ‖ app_data. -/
def signedData (destHash : Arr 16) (pub : Arr 64) (nameHash randomHash : Arr 10) (ratchet : Option (Arr 32))
    (appData : Bytes) : Bytes :=
  destHash.1 ++ pub.1 ++ nameHash.1 ++ randomHash.1 ++ ratchetBytes ratchet ++ appData

def toPayload (a : Announce) : Bytes :=
  a.pub.1 ++ a.nameHash.1 ++ a.randomHash.1 ++ ratchetBytes a.ratchet ++ a.signature.1 ++ a.appData

/-- A payload parses back, with the flag that tells whether it has a ratchet. -/
theorem parse_toPayload (a : Announce) : parse a.toPayload a.ratchet.isSome = .ok a := by
  obtain ⟨pub, nameHash, randomHash, ratchet, signature, appData⟩ := a
  have hfield {len : Nat} (x : Arr len) (off : Nat) (pre rest : Bytes) (hl : pre.length = off) :
      field (pre ++ (x.1 ++ rest)) off len = .ok x := by
    rw [field, Arr.slice?_append hl]
  have hpub := pub.2
  have hname := nameHash.2
  have hrandom := randomHash.2
  have hsig := signature.2
  -- one slice at a time, at the offset that the fields before it add up to
  cases ratchet with
  | none =>
    have h1 := hfield pub 0 [] (nameHash.1 ++ (randomHash.1 ++ (signature.1 ++ appData))) rfl
    have h2 := hfield nameHash 64 pub.1 (randomHash.1 ++ (signature.1 ++ appData)) hpub
    have h3 := hfield randomHash 74 (pub.1 ++ nameHash.1) (signature.1 ++ appData) (by simp [hpub, hname])
    have h4 := hfield signature 84 (pub.1 ++ nameHash.1 ++ randomHash.1) appData (by simp [hpub, hname, hrandom])
    have hrest : (pub.1 ++ (nameHash.1 ++ (randomHash.1 ++ (signature.1 ++ appData)))).drop 148 = appData := by
      rw [← List.append_assoc, ← List.append_assoc, ← List.append_assoc,
        List.drop_left' (by simp [hpub, hname, hrandom, hsig])]
    simp only [List.append_assoc, List.nil_append] at h1 h2 h3 h4
    simp [parse, toPayload, ratchetBytes, PUB_LEN, NAME_LEN, RAND_LEN, SIG_LEN, MIN, h1, h2, h3, h4, hrest]
    rw [if_neg (by omega)]
    rfl
  | some r =>
    have hr := r.2
    have h1 := hfield pub 0 [] (nameHash.1 ++ (randomHash.1 ++ (r.1 ++ (signature.1 ++ appData)))) rfl
    have h2 := hfield nameHash 64 pub.1 (randomHash.1 ++ (r.1 ++ (signature.1 ++ appData))) hpub
    have h3 := hfield randomHash 74 (pub.1 ++ nameHash.1) (r.1 ++ (signature.1 ++ appData)) (by simp [hpub, hname])
    have h4 := hfield r 84 (pub.1 ++ nameHash.1 ++ randomHash.1) (signature.1 ++ appData)
      (by simp [hpub, hname, hrandom])
    have h5 := hfield signature 116 (pub.1 ++ nameHash.1 ++ randomHash.1 ++ r.1) appData
      (by simp [hpub, hname, hrandom, hr])
    have hrest : (pub.1 ++ (nameHash.1 ++ (randomHash.1 ++ (r.1 ++ (signature.1 ++ appData))))).drop 180 = appData := by
      rw [← List.append_assoc, ← List.append_assoc, ← List.append_assoc, ← List.append_assoc,
        List.drop_left' (by simp [hpub, hname, hrandom, hr, hsig])]
    simp only [List.append_assoc, List.nil_append] at h1 h2 h3 h4 h5
    simp [parse, toPayload, ratchetBytes, PUB_LEN, NAME_LEN, RAND_LEN, SIG_LEN, RATCHET_LEN, MIN, h1, h2, h3, h4, h5,
      hrest]
    rw [if_neg (by omega)]
    rfl

variable [Crypto]

def build (identity : Identity) (destHash : Arr 16) (nameHash randomHash : Arr 10) (appData : Bytes) : Announce :=
  let pub := identity.public.toBytes
  let signed := signedData destHash pub nameHash randomHash none appData
  { pub := pub
    nameHash := nameHash
    randomHash := randomHash
    ratchet := none
    signature := identity.sign signed
    appData := appData }

/-- Verifies the announce signature against `destHash`. -/
def verify (a : Announce) (destHash : Arr 16) : Except CoreError Unit := do
  let signed := signedData destHash a.pub a.nameHash a.randomHash a.ratchet a.appData
  let pubid ← PublicIdentity.fromBytes a.pub.1
  pubid.verify signed a.signature

/-- An announce built by its own identity verifies. -/
theorem verify_build (hS : Crypto.SignVerifies) (identity : Identity) (d : Arr 16) (nameHash randomHash : Arr 10)
    (appData : Bytes) : (build identity d nameHash randomHash appData).verify d = .ok () := by
  have hfrom : PublicIdentity.fromBytes identity.public.toBytes.1 = .ok identity.public :=
    PublicIdentity.fromBytes_toBytes _
  have h := identity.verify_sign hS (signedData d identity.public.toBytes nameHash randomHash none appData)
  simp only [verify, build, hfrom]
  exact h

end Announce

end Reticulum
