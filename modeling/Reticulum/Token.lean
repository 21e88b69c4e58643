import Reticulum.Sample

/-!
# Tokens

`token.rs`: authenticated encryption under an ephemeral Diffie-Hellman secret
or an already-derived 64-byte link key. The first half of a derived key signs,
the second half encrypts, and the tag covers `iv || ciphertext`.
-/

namespace Reticulum

variable [Crypto]

namespace Token

def IV_LEN : Nat := 16
def HMAC_LEN : Nat := 32
def EPH_LEN : Nat := 32

/-- The signing and the encryption half of 64 derived bytes. -/
def splitKey (okm : Arr 64) : Arr 32 × Arr 32 := (okm.prefixOf 32 half_le, okm.suffixFrom 32)

def deriveKeys (shared : Arr 32) (salt : Arr 16) : Arr 32 × Arr 32 := splitKey (Crypto.hkdf salt.1 shared.1)

def sealParts (hmacKey aesKey : Arr 32) (plaintext : Bytes) (iv : Arr 16) : Bytes :=
  let ciphertext := Crypto.aesEncrypt aesKey iv plaintext
  let signedParts := iv.1 ++ ciphertext
  signedParts ++ (Crypto.hmac hmacKey signedParts).1

def openParts (hmacKey aesKey : Arr 32) (token : Bytes) : Except CoreError Bytes :=
  if token.length < IV_LEN + 16 + HMAC_LEN then .error .truncated
  else
    let signedParts := token.take (token.length - HMAC_LEN)
    let tag := token.drop (token.length - HMAC_LEN)
    if (Crypto.hmac hmacKey signedParts).1 ≠ tag then .error .decryptFailed
    else
      match Arr.ofSlice? 16 (signedParts.take IV_LEN) with
      | none => .error .decryptFailed
      | some iv =>
        match Crypto.aesDecrypt aesKey iv (signedParts.drop IV_LEN) with
        | none => .error .decryptFailed
        | some plaintext => .ok plaintext

/-- Seal plaintext with an already-derived 64-byte link key. -/
def sealWithKey (derivedKey : Arr 64) (plaintext : Bytes) (iv : Arr 16) : Bytes :=
  sealParts (splitKey derivedKey).1 (splitKey derivedKey).2 plaintext iv

/-- Open a token sealed with an already-derived 64-byte link key. -/
def openWithKey (derivedKey : Arr 64) (token : Bytes) : Except CoreError Bytes :=
  openParts (splitKey derivedKey).1 (splitKey derivedKey).2 token

/-- Encrypt `plaintext` for `recipient`; the ephemeral public key stands in front of the token. -/
def encrypt (recipient : PublicIdentity) (plaintext : Bytes) (ephemeralX25519 : Arr 32) (iv : Arr 16) : Bytes :=
  let ephPub := Crypto.x25519Public ephemeralX25519
  let shared := Crypto.x25519 ephemeralX25519 recipient.encPub
  let keys := deriveKeys shared recipient.hash
  ephPub.1 ++ sealParts keys.1 keys.2 plaintext iv

def decrypt (recipient : Identity) (token : Bytes) : Except CoreError Bytes :=
  if token.length < EPH_LEN + IV_LEN + 16 + HMAC_LEN then .error .truncated
  else
    match Arr.ofSlice? 32 (token.take EPH_LEN) with
    | none => .error .truncated
    | some ephPub =>
      let shared := recipient.diffieHellman ephPub
      let keys := deriveKeys shared recipient.public.hash
      openParts keys.1 keys.2 (token.drop EPH_LEN)

/-! ## What is sealed opens -/

theorem length_sealParts (hA : Crypto.AesInverts) (hk ak : Arr 32) (p : Bytes) (iv : Arr 16) :
    (sealParts hk ak p iv).length = 16 + (p.length / 16 + 1) * 16 + 32 := by
  simp only [sealParts, List.length_append, iv.2, hA.length_encrypt, (Crypto.hmac _ _).2]

theorem openParts_sealParts (hA : Crypto.AesInverts) (hk ak : Arr 32) (p : Bytes) (iv : Arr 16) :
    openParts hk ak (sealParts hk ak p iv) = .ok p := by
  have hlen := length_sealParts hA hk ak p iv
  have hcut : (sealParts hk ak p iv).length - HMAC_LEN = (iv.1 ++ Crypto.aesEncrypt ak iv p).length := by
    rw [hlen, List.length_append, iv.2, hA.length_encrypt, HMAC_LEN]
    omega
  have hshort : ¬ (sealParts hk ak p iv).length < IV_LEN + 16 + HMAC_LEN := by
    rw [hlen, IV_LEN, HMAC_LEN]
    omega
  have htake : (sealParts hk ak p iv).take ((sealParts hk ak p iv).length - HMAC_LEN) =
      iv.1 ++ Crypto.aesEncrypt ak iv p := by
    rw [hcut]; exact List.take_left
  have hdrop : (sealParts hk ak p iv).drop ((sealParts hk ak p iv).length - HMAC_LEN) =
      (Crypto.hmac hk (iv.1 ++ Crypto.aesEncrypt ak iv p)).1 := by
    rw [hcut]; exact List.drop_left
  have hiv : (iv.1 ++ Crypto.aesEncrypt ak iv p).take IV_LEN = iv.1 := List.take_left' iv.2
  have hct : (iv.1 ++ Crypto.aesEncrypt ak iv p).drop IV_LEN = Crypto.aesEncrypt ak iv p :=
    List.drop_left' iv.2
  simp only [openParts, hshort, htake, hdrop, hiv, hct, if_false, ne_eq, not_true_eq_false,
    Arr.ofSlice?_val, hA.decrypt_encrypt]

theorem openWithKey_sealWithKey (hA : Crypto.AesInverts) (k : Arr 64) (p : Bytes) (iv : Arr 16) :
    openWithKey k (sealWithKey k p iv) = .ok p :=
  openParts_sealParts hA _ _ p iv

theorem decrypt_encrypt (hD : Crypto.DhCommutes) (hA : Crypto.AesInverts) (i : Identity) (p : Bytes)
    (eph : Arr 32) (iv : Arr 16) : decrypt i (encrypt i.public p eph iv) = .ok p := by
  have hlen : ¬ (encrypt i.public p eph iv).length < EPH_LEN + IV_LEN + 16 + HMAC_LEN := by
    simp only [encrypt, List.length_append, (Crypto.x25519Public eph).2, length_sealParts hA,
      EPH_LEN, IV_LEN, HMAC_LEN]
    omega
  have hsh : i.diffieHellman (Crypto.x25519Public eph) = Crypto.x25519 eph i.public.encPub :=
    hD i.encPrv eph
  have htake : (encrypt i.public p eph iv).take EPH_LEN = (Crypto.x25519Public eph).1 :=
    List.take_left' (Crypto.x25519Public eph).2
  have hdrop : (encrypt i.public p eph iv).drop EPH_LEN =
      sealParts (deriveKeys (Crypto.x25519 eph i.public.encPub) i.public.hash).1
        (deriveKeys (Crypto.x25519 eph i.public.encPub) i.public.hash).2 p iv :=
    List.drop_left' (Crypto.x25519Public eph).2
  simp only [decrypt, hlen, htake, hdrop, if_false, Arr.ofSlice?_val, hsh]
  exact openParts_sealParts hA _ _ p iv

/-! ## What opens was sealed -/

/-- A token opens just if it is what sealing makes of the plaintext with the iv it carries. -/
theorem openParts_eq_ok_iff (hA : Crypto.AesBijective) {hk ak : Arr 32} {token p : Bytes} :
    openParts hk ak token = .ok p ↔ ∃ iv : Arr 16, iv.1 = token.take IV_LEN ∧ token = sealParts hk ak p iv := by
  constructor
  · intro h
    unfold openParts at h
    split at h
    · cases h
    · rename_i hlong
      dsimp only at h
      split at h
      · cases h
      · rename_i htag
        split at h
        · cases h
        · rename_i iv hiv
          split at h
          · cases h
          · rename_i plaintext hplain
            cases h
            have hiv := Arr.ofSlice?_eq_some.mp hiv
            have hsigned : iv.1 ++ Crypto.aesEncrypt ak iv p = token.take (token.length - HMAC_LEN) := by
              rw [hA.encrypt_decrypt ak iv _ p hplain, ← hiv, List.take_append_drop]
            refine ⟨iv, ?_, ?_⟩
            · have hle : IV_LEN ≤ token.length - HMAC_LEN := by omega
              rw [← hiv, List.take_take, Nat.min_eq_left hle]
            · rw [sealParts, hsigned, not_not.mp htag, List.take_append_drop]
  · rintro ⟨iv, -, rfl⟩
    exact openParts_sealParts hA.toAesInverts hk ak p iv

/-- What is sealed for a link key or an identity opens to what it was, and under a link key nothing else opens. -/
theorem opens_iff_sealed (hD : Crypto.DhCommutes) (hA : Crypto.AesBijective) :
    (∀ (key : Arr 64) (p : Bytes) (iv : Arr 16), openWithKey key (sealWithKey key p iv) = .ok p) ∧
    (∀ (i : Identity) (p : Bytes) (eph : Arr 32) (iv : Arr 16), decrypt i (encrypt i.public p eph iv) = .ok p) ∧
    ∀ (key : Arr 64) (token p : Bytes), openWithKey key token = .ok p →
      ∃ iv : Arr 16, iv.1 = token.take 16 ∧ token = sealWithKey key p iv := by
  refine ⟨openWithKey_sealWithKey hA.toAesInverts, decrypt_encrypt hD hA.toAesInverts, fun key token p h => ?_⟩
  exact (openParts_eq_ok_iff hA).mp h

end Token

section
open Sample

omit [Crypto] in
theorem opens_iff_sealed_exact :
    @Token.openWithKey exactCrypto (arr 64 7) (@Token.sealWithKey exactCrypto (arr 64 7) [1, 2] (arr 16 9)) = .ok [1, 2] ∧
    ∃ iv : Arr 16, iv.1 = (@Token.sealWithKey exactCrypto (arr 64 7) [1, 2] (arr 16 9)).take 16 ∧
      @Token.sealWithKey exactCrypto (arr 64 7) [1, 2] (arr 16 9) = @Token.sealWithKey exactCrypto (arr 64 7) [1, 2] iv := by
  have hopens := @Token.opens_iff_sealed exactCrypto dhCommutes aesBijective
  exact ⟨hopens.1 _ _ _, hopens.2.2 _ _ _ (hopens.1 _ _ _)⟩

end

end Reticulum
