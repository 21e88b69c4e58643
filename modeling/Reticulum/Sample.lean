import Mathlib.Data.List.Induction
import Mathlib.Data.Nat.ModEq
import Mathlib.Tactic.IntervalCases
import Reticulum.Ifac
import Reticulum.Identity

/-!
# Concrete crates

Small executable stand-ins that satisfy every law of the crate parameters, so
the hypotheses of the results are met by something. The MessagePack codec is
the real format; the cryptography only has the shape of the real one.
-/

namespace Reticulum

namespace Sample

/-- `n` as `k` big-endian bytes. -/
def toBE : Nat → Nat → Bytes
  | 0, _ => []
  | k + 1, n => toBE k (n / 256) ++ [UInt8.ofNat (n % 256)]

def ofBE (b : Bytes) : Nat := b.foldl (fun v x => v * 256 + x.toNat) 0

@[simp] theorem length_toBE (k n : Nat) : (toBE k n).length = k := by
  induction k generalizing n with
  | zero => rfl
  | succ k ih => simp [toBE, ih]

theorem ofBE_toBE {k n : Nat} (h : n < 256 ^ k) : ofBE (toBE k n) = n := by
  induction k generalizing n with
  | zero => simp at h; simp [toBE, ofBE, h]
  | succ k ih =>
    have hk : n / 256 < 256 ^ k := by
      rw [Nat.pow_succ] at h
      exact Nat.div_lt_of_lt_mul (by rwa [Nat.mul_comm] at h)
    have hb : (UInt8.ofNat (n % 256)).toNat = n % 256 := by simp
    have ih := ih hk
    simp only [ofBE] at ih
    simp only [toBE, ofBE, List.foldl_append, List.foldl_cons, List.foldl_nil, hb, ih]
    omega

/-- A polynomial digest, mixed by an odd multiplier. -/
def digest (b : Bytes) : Arr 32 :=
  ⟨toBE 32 ((b.foldl (fun a x => (a * 65599 + x.toNat + 1) % 2 ^ 256) 7 *
    0x9E3779B97F4A7C15F39CC0605CEDC8341082276BF3A27251F86C6A11D0C18E95) % 2 ^ 256), length_toBE ..⟩

/-- The polynomial of the digest before it wraps. -/
def weigh (b : Bytes) : Nat := b.foldl (fun a x => a * 65599 + x.toNat + 1) 7

theorem weigh_snoc (b : Bytes) (x : UInt8) : weigh (b ++ [x]) = weigh b * 65599 + x.toNat + 1 := by simp [weigh]

theorem weigh_lt (b : Bytes) : weigh b < 8 * 65599 ^ b.length := by
  induction b using List.reverseRecOn with
  | nil => decide
  | append_singleton b x ih =>
    have hx := x.toNat_lt
    rw [weigh_snoc, List.length_append, List.length_singleton, Nat.pow_succ]
    omega

theorem le_weigh (b : Bytes) : 7 ≤ weigh b := by
  induction b using List.reverseRecOn with
  | nil => decide
  | append_singleton b x ih =>
    rw [weigh_snoc]
    omega

theorem weigh_injective {b b' : Bytes} (h : weigh b = weigh b') : b = b' := by
  induction b using List.reverseRecOn generalizing b' with
  | nil =>
    cases b' using List.reverseRecOn with
    | nil => rfl
    | append_singleton b' y =>
      have hle := le_weigh b'
      rw [weigh_snoc] at h
      simp only [weigh, List.foldl_nil] at h hle
      omega
  | append_singleton b x ih =>
    have hx := x.toNat_lt
    cases b' using List.reverseRecOn with
    | nil =>
      have hle := le_weigh b
      rw [weigh_snoc] at h
      simp only [weigh, List.foldl_nil] at h hle
      omega
    | append_singleton b' y =>
      have hy := y.toNat_lt
      rw [weigh_snoc, weigh_snoc] at h
      have hlast : x.toNat = y.toNat := by omega
      have hfirst : weigh b = weigh b' := by omega
      rw [ih hfirst, UInt8.toNat_inj.mp hlast]

theorem weigh_small {b : Bytes} (h : b.length ≤ 15) : weigh b < 2 ^ 256 :=
  calc weigh b < 8 * 65599 ^ b.length := weigh_lt b
    _ ≤ 8 * 65599 ^ 15 := Nat.mul_le_mul_left 8 (Nat.pow_le_pow_right (by decide) h)
    _ < 2 ^ 256 := by decide

theorem foldl_eq_weigh {b : Bytes} (h : b.length ≤ 15) :
    b.foldl (fun a x => (a * 65599 + x.toNat + 1) % 2 ^ 256) 7 = weigh b := by
  induction b using List.reverseRecOn with
  | nil => rfl
  | append_singleton b x ih =>
    have hsmall := weigh_small h
    rw [List.length_append] at h
    rw [List.foldl_append, ih (by omega), List.foldl_cons, List.foldl_nil, ← weigh_snoc]
    exact Nat.mod_eq_of_lt hsmall

/-- Short strings have digests of their own. -/
theorem digest_injective {b b' : Bytes} (hb : b.length ≤ 15) (hb' : b'.length ≤ 15) (h : digest b = digest b') : b = b' := by
  have hread (x : Nat) : ofBE (toBE 32 (x % 2 ^ 256)) = x % 2 ^ 256 :=
    ofBE_toBE (lt_of_lt_of_eq (Nat.mod_lt x (by decide)) (by decide))
  have hnum := congrArg (fun d : Arr 32 => ofBE d.1) h
  simp only [digest, foldl_eq_weigh hb, foldl_eq_weigh hb', hread] at hnum
  have hmod := Nat.ModEq.cancel_right_of_coprime (by decide +kernel) (show Nat.ModEq _ _ _ from hnum)
  exact weigh_injective (hmod.eq_of_lt_of_lt (weigh_small hb) (weigh_small hb'))

/-! ## Block padding -/

def pad (p : Bytes) : Bytes := p ++ List.replicate (16 - p.length % 16) (UInt8.ofNat (16 - p.length % 16))

def unpad (b : Bytes) : Option Bytes :=
  match b.getLast? with
  | none => none
  | some v => if 1 ≤ v.toNat ∧ v.toNat ≤ 16 then some (b.take (b.length - v.toNat)) else none

theorem length_pad (p : Bytes) : (pad p).length = (p.length / 16 + 1) * 16 := by
  simp only [pad, List.length_append, List.length_replicate]
  omega

theorem unpad_pad (p : Bytes) : unpad (pad p) = some p := by
  have hk : 1 ≤ 16 - p.length % 16 ∧ 16 - p.length % 16 ≤ 16 := by omega
  have hv : (UInt8.ofNat (16 - p.length % 16)).toNat = 16 - p.length % 16 := by
    simp only [UInt8.toNat_ofNat', Nat.reducePow]
    omega
  have hlast : (pad p).getLast? = some (UInt8.ofNat (16 - p.length % 16)) := by
    rw [pad, List.getLast?_append, List.getLast?_replicate]
    simp [show ¬ 16 - p.length % 16 = 0 by omega]
  rw [unpad, hlast]
  simp only [hv, hk, and_self, if_true, pad, List.length_append, List.length_replicate,
    Nat.add_sub_cancel, List.take_left]

def mask (key : Arr 32) (iv : Arr 16) : UInt8 := key.1.headD 0 ^^^ iv.1.headD 0

theorem map_mask_mask (m : UInt8) (b : Bytes) : (b.map (· ^^^ m)).map (· ^^^ m) = b := by
  induction b with
  | nil => rfl
  | cons x b ih => rw [List.map_cons, List.map_cons, ih, UInt8.xor_assoc, UInt8.xor_self, UInt8.xor_zero]

def xorArr {n : Nat} (a b : Arr n) : Arr n := ⟨List.zipWith (· ^^^ ·) a.1 b.1, by simp [a.2, b.2]⟩

theorem xorArr_comm {n : Nat} (a b : Arr n) : xorArr a b = xorArr b a := by
  apply Subtype.ext
  exact List.zipWith_comm_of_comm fun x y => UInt8.xor_comm x y

def double (d : Bytes → Arr 32) (b : Bytes) : Arr 64 :=
  ⟨(d (0 :: b)).1 ++ (d (1 :: b)).1, by simp [(d _).2]⟩

@[reducible] def crypto : Crypto where
  sha256 := digest
  x25519Public a := a
  x25519 a b := digest (xorArr a b).1
  ed25519Public a := a
  ed25519Sign sk m := double digest (sk.1 ++ m)
  ed25519ValidKey _ := true
  ed25519Verify pk m sig := sig = double digest (pk.1 ++ m)
  hkdf salt ikm := double digest (salt ++ ikm)
  hmac k m := digest (k.1 ++ m)
  aesEncrypt key iv p := (pad p).map (· ^^^ mask key iv)
  aesDecrypt key iv c := unpad (c.map (· ^^^ mask key iv))

theorem dhCommutes : @Crypto.DhCommutes crypto := by
  intro a b
  show digest (xorArr a b).1 = digest (xorArr b a).1
  rw [xorArr_comm]

theorem signVerifies : @Crypto.SignVerifies crypto := fun _ _ => ⟨rfl, decide_eq_true rfl⟩

theorem aesInverts : @Crypto.AesInverts crypto := by
  refine @Crypto.AesInverts.mk crypto (fun key iv p => ?_) (fun key iv p => ?_)
  · show unpad (((pad p).map _).map _) = some p
    rw [map_mask_mask, unpad_pad]
  · show ((pad p).map _).length = _
    rw [List.length_map, length_pad]

/-- The unpadding that checks every byte of the padding, and that the last block is full. -/
def unpadExact (b : Bytes) : Option Bytes := (unpad b).filter fun p => pad p = b

@[reducible] def exactCrypto : Crypto :=
  { crypto with aesDecrypt := fun key iv c => unpadExact (c.map (· ^^^ mask key iv)) }

theorem aesBijective : @Crypto.AesBijective exactCrypto := by
  refine @Crypto.AesBijective.mk exactCrypto (@Crypto.AesInverts.mk exactCrypto (fun key iv p => ?_)
    (@Crypto.AesInverts.length_encrypt crypto aesInverts)) fun key iv c p h => ?_
  · show unpadExact (((pad p).map _).map _) = some p
    rw [map_mask_mask, unpadExact, unpad_pad, Option.filter_some, if_pos (decide_eq_true rfl)]
  · obtain ⟨-, hpad⟩ := Option.filter_eq_some_iff.mp h
    show (pad p).map _ = c
    rw [of_decide_eq_true hpad, map_mask_mask]

/-! ## MessagePack -/

/-- The big-endian number in the first `k` bytes. -/
def readBE (k : Nat) (b : Bytes) : Option (Nat × Bytes) :=
  if b.length < k then none else some (ofBE (b.take k), b.drop k)

theorem readBE_toBE {k n : Nat} (h : n < 256 ^ k) (rest : Bytes) : readBE k (toBE k n ++ rest) = some (n, rest) := by
  simp [readBE, List.take_left' (length_toBE k n), List.drop_left' (length_toBE k n), ofBE_toBE h]

def writeLen (fix8 m8 m16 m32 : UInt8) (fixMax : Nat) (has8 : Bool) (n : Nat) : Bytes :=
  if n < fixMax then [fix8 + UInt8.ofNat n]
  else if has8 ∧ n < 256 then m8 :: toBE 1 n
  else if n < 65536 then m16 :: toBE 2 n
  else m32 :: toBE 4 n

def readMapLen : Bytes → Option (Nat × Bytes)
  | m :: rest =>
    if 0x80 ≤ m ∧ m < 0x90 then some (m.toNat - 0x80, rest)
    else if m = 0xDE then readBE 2 rest
    else if m = 0xDF then readBE 4 rest
    else none
  | [] => none

def readArrayLen : Bytes → Option (Nat × Bytes)
  | m :: rest =>
    if 0x90 ≤ m ∧ m < 0xA0 then some (m.toNat - 0x90, rest)
    else if m = 0xDC then readBE 2 rest
    else if m = 0xDD then readBE 4 rest
    else none
  | [] => none

def readStrLen : Bytes → Option (Nat × Bytes)
  | m :: rest =>
    if 0xA0 ≤ m ∧ m < 0xC0 then some (m.toNat - 0xA0, rest)
    else if m = 0xD9 then readBE 1 rest
    else if m = 0xDA then readBE 2 rest
    else if m = 0xDB then readBE 4 rest
    else none
  | [] => none

def readBinLen : Bytes → Option (Nat × Bytes)
  | m :: rest =>
    if m = 0xC4 then readBE 1 rest
    else if m = 0xC5 then readBE 2 rest
    else if m = 0xC6 then readBE 4 rest
    else none
  | [] => none

def writeUint (n : Nat) : Bytes :=
  if n < 128 then [UInt8.ofNat n]
  else if n < 256 then 0xCC :: toBE 1 n
  else if n < 65536 then 0xCD :: toBE 2 n
  else if n < 2 ^ 32 then 0xCE :: toBE 4 n
  else 0xCF :: toBE 8 n

/-- A signed integer of `k` bytes, refused when negative. -/
def readSigned (k : Nat) (b : Bytes) : Option (Nat × Bytes) :=
  match readBE k b with
  | some (n, rest) => if n < 2 ^ (8 * k - 1) then some (n, rest) else none
  | none => none

def readInt : Bytes → Option (Nat × Bytes)
  | m :: rest =>
    if m < 0x80 then some (m.toNat, rest)
    else if m = 0xCC then readBE 1 rest
    else if m = 0xCD then readBE 2 rest
    else if m = 0xCE then readBE 4 rest
    else if m = 0xCF then readBE 8 rest
    else if m = 0xD0 then readSigned 1 rest
    else if m = 0xD1 then readSigned 2 rest
    else if m = 0xD2 then readSigned 4 rest
    else if m = 0xD3 then readSigned 8 rest
    else none
  | [] => none

@[reducible] def rmp : Rmp where
  writeMapLen := writeLen 0x80 0 0xDE 0xDF 16 false
  writeArrayLen := writeLen 0x90 0 0xDC 0xDD 16 false
  writeUint := writeUint
  writeBin b := writeLen 0 0xC4 0xC5 0xC6 0 true b.length ++ b
  writeStr b := writeLen 0xA0 0xD9 0xDA 0xDB 32 true b.length ++ b
  writeNil := [0xC0]
  readMapLen := readMapLen
  readArrayLen := readArrayLen
  readInt := readInt
  readBinLen := readBinLen
  readStrLen := readStrLen

theorem readMapLen_write {n : Nat} (h : n < 2 ^ 32) (rest : Bytes) :
    readMapLen (writeLen 0x80 0 0xDE 0xDF 16 false n ++ rest) = some (n, rest) := by
  unfold writeLen
  split
  · rename_i hn
    interval_cases n <;> rfl
  · split
    · simp_all
    · split
      · exact readBE_toBE (k := 2) (by omega) rest
      · exact readBE_toBE (k := 4) (by omega) rest

theorem readArrayLen_write {n : Nat} (h : n < 2 ^ 32) (rest : Bytes) :
    readArrayLen (writeLen 0x90 0 0xDC 0xDD 16 false n ++ rest) = some (n, rest) := by
  unfold writeLen
  split
  · rename_i hn
    interval_cases n <;> rfl
  · split
    · simp_all
    · split
      · exact readBE_toBE (k := 2) (by omega) rest
      · exact readBE_toBE (k := 4) (by omega) rest

theorem readStrLen_write {n : Nat} (h : n < 2 ^ 32) (rest : Bytes) :
    readStrLen (writeLen 0xA0 0xD9 0xDA 0xDB 32 true n ++ rest) = some (n, rest) := by
  unfold writeLen
  split
  · rename_i hn
    interval_cases n <;> rfl
  · split
    · rename_i hn
      exact readBE_toBE (k := 1) (by omega) rest
    · split
      · exact readBE_toBE (k := 2) (by omega) rest
      · exact readBE_toBE (k := 4) (by omega) rest

theorem readBinLen_write {n : Nat} (h : n < 2 ^ 32) (rest : Bytes) :
    readBinLen (writeLen 0 0xC4 0xC5 0xC6 0 true n ++ rest) = some (n, rest) := by
  unfold writeLen
  split
  · omega
  · split
    · rename_i hn
      exact readBE_toBE (k := 1) (by omega) rest
    · split
      · exact readBE_toBE (k := 2) (by omega) rest
      · exact readBE_toBE (k := 4) (by omega) rest

theorem readInt_write {n : Nat} (h : n < 2 ^ 64) (rest : Bytes) :
    readInt (writeUint n ++ rest) = some (n, rest) := by
  unfold writeUint
  split
  · rename_i hn
    have hv : (UInt8.ofNat n).toNat = n := by simp; omega
    have hlt : UInt8.ofNat n < 0x80 := by
      rw [UInt8.lt_iff_toNat_lt, hv]
      exact hn
    simp [readInt, hlt, hv]
  · split
    · exact readBE_toBE (k := 1) (by omega) rest
    · split
      · exact readBE_toBE (k := 2) (by omega) rest
      · split
        · exact readBE_toBE (k := 4) (by omega) rest
        · exact readBE_toBE (k := 8) (by omega) rest

theorem readsWritten : @Rmp.ReadsWritten rmp := by
  refine @Rmp.ReadsWritten.mk rmp (fun _ rest h => readMapLen_write h rest)
    (fun _ rest h => readArrayLen_write h rest) (fun _ rest h => readInt_write h rest)
    (fun b rest h => ?_) (fun b rest h => ?_) rfl
  · show readBinLen ((writeLen 0 0xC4 0xC5 0xC6 0 true b.length ++ b) ++ rest) = _
    rw [List.append_assoc]
    exact readBinLen_write h _
  · show readStrLen ((writeLen 0xA0 0xD9 0xDA 0xDB 32 true b.length ++ b) ++ rest) = _
    rw [List.append_assoc]
    exact readStrLen_write h _

/-! ## Mask expansion -/

@[reducible] def hkdf : Hkdf where
  expand salt ikm n := if n ≤ 255 * 32 then some ⟨List.replicate n ((digest (salt ++ ikm)).1.headD 0), by simp⟩ else none

theorem hkdf_limited : @Hkdf.Limited hkdf := by
  intro salt ikm n
  show (if n ≤ 255 * 32 then some _ else none : Option (Arr n)).isSome = true ↔ _
  by_cases h : n ≤ 255 * 32
  · rw [if_pos h]
    exact ⟨fun _ => h, fun _ => rfl⟩
  · rw [if_neg h]
    exact ⟨fun h' => (nomatch h'), fun h' => absurd h' h⟩

/-! ## Compression -/

/-- A run-length code for constant byte strings, longer for any other. -/
def runEncode (d : Bytes) : Option Bytes :=
  match d with
  | [] => some []
  | x :: rest => if rest.all (· = x) ∧ d.length < 2 ^ 32 then some (1 :: x :: toBE 4 d.length) else some (0 :: d)

def runDecode (limit : Nat) (c : Bytes) : Option Bytes :=
  match c with
  | [] => some []
  | 0 :: d => some (d.take limit)
  | 1 :: x :: len => some (List.replicate (min (ofBE len) limit) x)
  | _ => none

@[reducible] def bzip2 : Bzip2 where
  compression := true
  encode := runEncode
  decode := runDecode

/-! ## Concrete inputs -/

scoped instance instCrypto : Crypto := crypto

scoped instance instRmp : Rmp := rmp

scoped instance instBzip2 : Bzip2 := bzip2

scoped instance instHkdf : Hkdf := hkdf

def arr (n : Nat) (x : UInt8) : Arr n := ⟨List.replicate n x, by simp⟩

def identity (seed : UInt8) : Identity := Identity.fromPrivateBytes (arr 32 seed) (arr 32 (seed + 1))

def entropy (seed : Nat) : Entropy := fun i => UInt8.ofNat (seed + 7 * i)

end Sample

end Reticulum
