import Reticulum.Lib.Bytes

/-!
# Third-party crates

The cryptography, the MessagePack codec and the compressor are external
crates. They enter as class parameters; the laws the code relies on are
stated apart, so that a result names the ones it uses.
-/

namespace Reticulum

/-- `sha2`, `x25519-dalek`, `ed25519-dalek`, `hkdf`, `hmac`, `aes` and `cbc`. -/
class Crypto where
  sha256 : Bytes → Arr 32
  x25519Public : Arr 32 → Arr 32
  /-- Diffie-Hellman of a secret with a peer's public key. -/
  x25519 : Arr 32 → Arr 32 → Arr 32
  ed25519Public : Arr 32 → Arr 32
  ed25519Sign : Arr 32 → Bytes → Arr 64
  /-- Whether `VerifyingKey::from_bytes` accepts the public key. -/
  ed25519ValidKey : Arr 32 → Bool
  ed25519Verify : Arr 32 → Bytes → Arr 64 → Bool
  /-- HKDF-SHA256 with empty info, expanded to 64 bytes: salt, then input key. -/
  hkdf : Bytes → Bytes → Arr 64
  hmac : Arr 32 → Bytes → Arr 32
  /-- AES-256-CBC with PKCS7 padding: key, then iv, then text. -/
  aesEncrypt : Arr 32 → Arr 16 → Bytes → Bytes
  aesDecrypt : Arr 32 → Arr 16 → Bytes → Option Bytes

/-- Both ends of a Diffie-Hellman exchange compute the same secret. -/
def Crypto.DhCommutes [Crypto] : Prop :=
  ∀ a b : Arr 32, Crypto.x25519 a (Crypto.x25519Public b) = Crypto.x25519 b (Crypto.x25519Public a)

/-- A signature made with a secret verifies under its public key. -/
def Crypto.SignVerifies [Crypto] : Prop :=
  ∀ (sk : Arr 32) (m : Bytes), Crypto.ed25519ValidKey (Crypto.ed25519Public sk) = true ∧
    Crypto.ed25519Verify (Crypto.ed25519Public sk) m (Crypto.ed25519Sign sk m) = true

/-- Decryption inverts encryption, and padding fills the last block. -/
structure Crypto.AesInverts [Crypto] : Prop where
  decrypt_encrypt : ∀ (key : Arr 32) (iv : Arr 16) (p : Bytes),
    Crypto.aesDecrypt key iv (Crypto.aesEncrypt key iv p) = some p
  length_encrypt : ∀ (key : Arr 32) (iv : Arr 16) (p : Bytes),
    (Crypto.aesEncrypt key iv p).length = (p.length / 16 + 1) * 16

/-- Decryption takes nothing but what is padded as encryption pads it, so the two are inverse to each other. -/
structure Crypto.AesBijective [Crypto] : Prop extends Crypto.AesInverts where
  encrypt_decrypt : ∀ (key : Arr 32) (iv : Arr 16) (c p : Bytes),
    Crypto.aesDecrypt key iv c = some p → Crypto.aesEncrypt key iv p = c

/-- `rmp`: the MessagePack markers the code writes and reads. A reader returns
the value and the bytes that follow it. -/
class Rmp where
  writeMapLen : Nat → Bytes
  writeArrayLen : Nat → Bytes
  writeUint : Nat → Bytes
  writeBin : Bytes → Bytes
  writeStr : Bytes → Bytes
  writeNil : Bytes
  readMapLen : Bytes → Option (Nat × Bytes)
  readArrayLen : Bytes → Option (Nat × Bytes)
  readInt : Bytes → Option (Nat × Bytes)
  readBinLen : Bytes → Option (Nat × Bytes)
  readStrLen : Bytes → Option (Nat × Bytes)

/-- What is written is read back, whatever follows it. -/
structure Rmp.ReadsWritten [Rmp] : Prop where
  mapLen : ∀ n rest, n < 2 ^ 32 → Rmp.readMapLen (Rmp.writeMapLen n ++ rest) = some (n, rest)
  arrayLen : ∀ n rest, n < 2 ^ 32 → Rmp.readArrayLen (Rmp.writeArrayLen n ++ rest) = some (n, rest)
  int : ∀ n rest, n < 2 ^ 64 → Rmp.readInt (Rmp.writeUint n ++ rest) = some (n, rest)
  bin : ∀ b rest, b.length < 2 ^ 32 →
    Rmp.readBinLen (Rmp.writeBin b ++ rest) = some (b.length, b ++ rest)
  str : ∀ b rest, b.length < 2 ^ 32 →
    Rmp.readStrLen (Rmp.writeStr b ++ rest) = some (b.length, b ++ rest)
  nil : Rmp.writeNil = [0xC0]

/-- `bzip2`, and whether the `compression` feature is on. -/
class Bzip2 where
  compression : Bool
  /-- `BzEncoder` at the best level: `None` when writing or finishing fails. -/
  encode : Bytes → Option Bytes
  /-- `BzDecoder` read to its end or to the given number of decoded bytes. -/
  decode : Nat → Bytes → Option Bytes

/-- A decoder with room for the whole input restores what was encoded. -/
def Bzip2.DecodesEncoded [Bzip2] : Prop :=
  ∀ (d c : Bytes) (limit : Nat), Bzip2.encode d = some c → d.length < limit →
    Bzip2.decode limit c = some d

/-- `EntropySource`: the bytes it will hand out, in order. -/
abbrev Entropy := Nat → UInt8

/-- `rng.fill` on a buffer of `n` bytes. -/
def Entropy.fill (rng : Entropy) (n : Nat) : Arr n × Entropy :=
  (⟨(List.range n).map rng, by simp⟩, fun i => rng (n + i))

/-- Errors returned by fallible core operations. -/
inductive CoreError
  | truncated
  | badSignature
  | decryptFailed
  | invalidField
  | unsupported
  deriving DecidableEq, Repr

end Reticulum
