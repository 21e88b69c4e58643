import Reticulum.Crates

/-!
# Interface access codes

`ifac.rs`: a frame is signed with the second half of the interface key, the
end of the signature is inserted behind the first two bytes, and everything
else is masked with the expansion of that code.
-/

namespace Reticulum

/-- `hkdf`: HKDF-SHA256 with empty info, expanded to any length: salt, input key, length. -/
class Hkdf where
  expand : Bytes → Bytes → (n : Nat) → Option (Arr n)

/-- The expansion fails exactly above 255 hash lengths. -/
def Hkdf.Limited [Hkdf] : Prop :=
  ∀ (salt ikm : Bytes) (n : Nat), (Hkdf.expand salt ikm n).isSome = true ↔ n ≤ 255 * 32

namespace Ifac

def IFAC_FLAG : UInt8 := 0x80
def DEFAULT_IFAC_SIZE : Nat := 16

inductive IfacError
  | invalidSize
  | truncated
  | authentication
  | derivation
  deriving DecidableEq

def validate (frame : Bytes) (ifacSize : Nat) : Except IfacError Unit :=
  if ¬ (1 ≤ ifacSize ∧ ifacSize ≤ 64) then .error .invalidSize
  else if frame.length < 2 then .error .truncated
  else .ok ()

/-- Every byte but those of the access code. -/
def mask [Hkdf] (frame : Bytes) (key : Arr 64) (ifac : Bytes) (ifacSize : Nat) : Except IfacError Bytes :=
  match Hkdf.expand key.1 ifac frame.length with
  | none => .error .derivation
  | some mask =>
    .ok (frame.mapIdx fun index byte =>
      if index ≤ 1 ∨ index > ifacSize + 1 then byte ^^^ (mask.1[index]?).getD 0 else byte)

variable [Crypto] [Hkdf]

/-- The last bytes of the signature of a frame. -/
def accessCode (frame : Bytes) (key : Arr 64) (ifacSize : Nat) : Bytes :=
  (Crypto.ed25519Sign (key.suffixFrom 32) frame).1.drop (64 - ifacSize)

/-- The flag byte of a frame, changed. -/
def mapFlags (f : UInt8 → UInt8) : Bytes → Bytes
  | [] => []
  | flags :: rest => f flags :: rest

def applyWithSize (frame : Bytes) (key : Arr 64) (ifacSize : Nat) : Except IfacError Bytes := do
  validate frame ifacSize
  let ifac := accessCode frame key ifacSize
  let wire := mapFlags (· ||| IFAC_FLAG) (frame.take 2) ++ ifac ++ frame.drop 2
  let wire ← mask wire key ifac ifacSize
  return mapFlags (· ||| IFAC_FLAG) wire

def stripWithSize (frame : Bytes) (key : Arr 64) (ifacSize : Nat) : Except IfacError Bytes := do
  validate frame ifacSize
  if frame.headD 0 &&& IFAC_FLAG = 0 ∨ frame.length ≤ ifacSize + 2 then throw .truncated
  let ifac := (frame.drop 2).take ifacSize
  let unmasked ← mask frame key ifac ifacSize
  let unmasked := mapFlags (· &&& ~~~IFAC_FLAG) unmasked
  let plain := unmasked.take 2 ++ unmasked.drop (2 + ifacSize)
  if ifac = accessCode plain key ifacSize then return plain else throw .authentication

omit [Crypto] in
theorem mask_ok (hH : Hkdf.Limited) (frame : Bytes) (key : Arr 64) (ifac : Bytes) (ifacSize : Nat) :
    (∃ wire, mask frame key ifac ifacSize = .ok wire) ↔ frame.length ≤ 255 * 32 := by
  unfold mask
  rw [← hH key.1 ifac frame.length]
  cases Hkdf.expand key.1 ifac frame.length <;> simp

omit [Crypto] in
theorem length_mask {frame wire : Bytes} {key : Arr 64} {ifac : Bytes} {ifacSize : Nat}
    (h : mask frame key ifac ifacSize = .ok wire) : wire.length = frame.length := by
  unfold mask at h
  split at h
  · cases h
  · cases h
    exact List.length_mapIdx

omit [Crypto] [Hkdf] in
@[simp] theorem length_mapFlags (f : UInt8 → UInt8) (b : Bytes) : (mapFlags f b).length = b.length := by
  cases b <;> rfl

omit [Hkdf] in
theorem length_accessCode (frame : Bytes) (key : Arr 64) {ifacSize : Nat} (h : ifacSize ≤ 64) :
    (accessCode frame key ifacSize).length = ifacSize := by
  rw [accessCode, List.length_drop, (Crypto.ed25519Sign _ _).2]
  omega

/-- A frame is wrapped exactly if the mask is long enough for it, and grows by the access code. -/
theorem applyWithSize_ok (hH : Hkdf.Limited) {frame : Bytes} (key : Arr 64) {ifacSize : Nat} (hs : 1 ≤ ifacSize)
    (hs' : ifacSize ≤ 64) (hf : 2 ≤ frame.length) :
    (frame.length + ifacSize ≤ 255 * 32 ∧
      ∃ wire, applyWithSize frame key ifacSize = .ok wire ∧ wire.length = frame.length + ifacSize) ∨
    (255 * 32 < frame.length + ifacSize ∧ ∃ e, applyWithSize frame key ifacSize = .error e) := by
  have hv : validate frame ifacSize = .ok () := by
    rw [validate, if_neg (not_not.mpr ⟨hs, hs'⟩), if_neg (by omega)]
  have hlen : (mapFlags (· ||| IFAC_FLAG) (frame.take 2) ++ accessCode frame key ifacSize ++ frame.drop 2).length =
      frame.length + ifacSize := by
    simp only [List.length_append, length_mapFlags, List.length_take, List.length_drop, length_accessCode frame key hs']
    omega
  have hmask := mask_ok hH (mapFlags (· ||| IFAC_FLAG) (frame.take 2) ++ accessCode frame key ifacSize ++ frame.drop 2)
    key (accessCode frame key ifacSize) ifacSize
  rw [hlen] at hmask
  simp only [applyWithSize, hv, bind, Except.bind, pure, Except.pure]
  split
  · rename_i e hm
    refine .inr ⟨Nat.not_le.mp fun hle => ?_, e, rfl⟩
    obtain ⟨wire, hw⟩ := hmask.mpr hle
    cases hm.symm.trans hw
  · rename_i wire hm
    refine .inl ⟨hmask.mp ⟨wire, hm⟩, mapFlags (· ||| IFAC_FLAG) wire, rfl, ?_⟩
    rw [length_mapFlags, length_mask hm, hlen]

end Ifac

end Reticulum
