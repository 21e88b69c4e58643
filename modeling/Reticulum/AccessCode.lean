import Reticulum.Sample

/-!
# An access code comes off as it went on

The mask is an exclusive or that leaves the code alone, so it is its own
inverse; the flag is the one bit it may spoil, and both sides force it.
-/

namespace Reticulum

namespace Ifac

/-! ## The mask -/

/-- Every byte but those of the code, with its byte of the mask. -/
def xorMask (m : Bytes) (ifacSize : Nat) (frame : Bytes) : Bytes :=
  frame.mapIdx fun index byte => if index ≤ 1 ∨ index > ifacSize + 1 then byte ^^^ (m[index]?).getD 0 else byte

variable {m frame wire ifac : Bytes} {key : Arr 64} {ifacSize : Nat}

@[simp] theorem length_xorMask (m : Bytes) (ifacSize : Nat) (frame : Bytes) :
    (xorMask m ifacSize frame).length = frame.length := List.length_mapIdx

/-- What a frame of `n` bytes is masked with. -/
def maskBytes [Hkdf] (key : Arr 64) (ifac : Bytes) (n : Nat) : Option Bytes := (Hkdf.expand key.1 ifac n).map Subtype.val

theorem mask_eq_ok [Hkdf] :
    mask frame key ifac ifacSize = .ok wire ↔
      ∃ m, maskBytes key ifac frame.length = some m ∧ wire = xorMask m ifacSize frame := by
  unfold mask maskBytes
  cases Hkdf.expand key.1 ifac frame.length with
  | none => simp
  | some m => simp [xorMask, eq_comm]

theorem xorMask_xorMask (m : Bytes) (ifacSize : Nat) (frame : Bytes) :
    xorMask m ifacSize (xorMask m ifacSize frame) = frame := by
  apply List.ext_getElem
  · simp
  · intro i h₁ h₂
    simp only [xorMask, List.getElem_mapIdx]
    by_cases hi : i ≤ 1 ∨ i > ifacSize + 1
    · simp only [if_pos hi, UInt8.xor_assoc, UInt8.xor_self, UInt8.xor_zero]
    · simp only [if_neg hi]

/-- The code is not masked. -/
theorem code_xorMask (m : Bytes) (ifacSize : Nat) (frame : Bytes) :
    ((xorMask m ifacSize frame).drop 2).take ifacSize = (frame.drop 2).take ifacSize := by
  apply List.ext_getElem
  · simp
  · intro i h₁ h₂
    have hi : i < ifacSize := by
      rw [List.length_take] at h₂
      omega
    have hcode : ¬ (2 + i ≤ 1 ∨ 2 + i > ifacSize + 1) := by omega
    simp only [xorMask, List.getElem_take, List.getElem_drop, List.getElem_mapIdx, if_neg hcode]

/-! ## The flag -/

def setFlag : Bytes → Bytes := mapFlags (· ||| IFAC_FLAG)

def clearFlag : Bytes → Bytes := mapFlags (· &&& ~~~IFAC_FLAG)

@[simp] theorem length_setFlag (b : Bytes) : (setFlag b).length = b.length := length_mapFlags _ b

@[simp] theorem length_clearFlag (b : Bytes) : (clearFlag b).length = b.length := length_mapFlags _ b

theorem drop_mapFlags (f : UInt8 → UInt8) (b : Bytes) (n : Nat) : (mapFlags f b).drop (n + 1) = b.drop (n + 1) := by
  cases b <;> rfl

theorem code_setFlag (frame : Bytes) (ifacSize : Nat) :
    ((setFlag frame).drop 2).take ifacSize = (frame.drop 2).take ifacSize :=
  congrArg (List.take ifacSize) (drop_mapFlags _ frame 1)

theorem code_clearFlag (frame : Bytes) (ifacSize : Nat) :
    ((clearFlag frame).drop 2).take ifacSize = (frame.drop 2).take ifacSize :=
  congrArg (List.take ifacSize) (drop_mapFlags _ frame 1)

theorem mapFlags_append {a : Bytes} (f : UInt8 → UInt8) (ha : a ≠ []) (b : Bytes) :
    mapFlags f (a ++ b) = mapFlags f a ++ b := by
  cases a with
  | nil => exact absurd rfl ha
  | cons x a => rfl

/-! What forcing the flag leaves of a masked byte -/

section
variable (flag x y : UInt8)

theorem clear_xor_set : ((x ||| flag) ^^^ y) &&& ~~~flag = (x ^^^ y) &&& ~~~flag := by
  apply UInt8.toBitVec_inj.mp
  ext i hi
  cases hf : flag.toBitVec[i] <;> simp [hf]

theorem set_xor_set : ((x ||| flag) ^^^ y) ||| flag = (x ^^^ y) ||| flag := by
  apply UInt8.toBitVec_inj.mp
  ext i hi
  cases hf : flag.toBitVec[i] <;> simp [hf]

theorem set_clear : (x &&& ~~~flag) ||| flag = x ||| flag := by
  apply UInt8.toBitVec_inj.mp
  ext i hi
  cases hf : flag.toBitVec[i] <;> simp [hf]

theorem clear_set : (x ||| flag) &&& ~~~flag = x &&& ~~~flag := by
  apply UInt8.toBitVec_inj.mp
  ext i hi
  cases hf : flag.toBitVec[i] <;> simp [hf]

theorem clear_and : (x &&& ~~~flag) &&& flag = 0 := by
  apply UInt8.toBitVec_inj.mp
  ext i hi
  cases hf : flag.toBitVec[i] <;> simp [hf]

end

/-- The flag bit of a frame is clear. -/
def Clear (frame : Bytes) : Prop := frame.headD 0 &&& IFAC_FLAG = 0

theorem clear_clearFlag (frame : Bytes) : Clear (clearFlag frame) := by
  cases frame with
  | nil => rfl
  | cons x rest => exact clear_and IFAC_FLAG x

theorem clearFlag_of_clear (h : Clear frame) : clearFlag frame = frame := by
  cases frame with
  | nil => rfl
  | cons x rest =>
    have hbit : ∀ y : BitVec 8, UInt8.ofBitVec y &&& IFAC_FLAG = 0 →
        UInt8.ofBitVec y &&& ~~~IFAC_FLAG = UInt8.ofBitVec y := by decide +kernel
    exact congrArg (· :: rest) (hbit x.toBitVec h)

theorem setFlag_of_not_clear (h : ¬ Clear frame) : setFlag frame = frame := by
  cases frame with
  | nil => rfl
  | cons x rest =>
    have hbit : ∀ y : BitVec 8, UInt8.ofBitVec y &&& IFAC_FLAG ≠ 0 →
        UInt8.ofBitVec y ||| IFAC_FLAG = UInt8.ofBitVec y := by decide +kernel
    exact congrArg (· :: rest) (hbit x.toBitVec h)

theorem not_clear_setFlag (h : frame ≠ []) : ¬ Clear (setFlag frame) := by
  cases frame with
  | nil => exact absurd rfl h
  | cons x rest =>
    have hbit : ∀ y : BitVec 8, (UInt8.ofBitVec y ||| IFAC_FLAG) &&& IFAC_FLAG ≠ 0 := by decide +kernel
    exact hbit x.toBitVec

theorem xorMask_cons (m : Bytes) (ifacSize : Nat) (x : UInt8) (rest : Bytes) :
    ∃ rest', ∀ y, xorMask m ifacSize (y :: rest) = (y ^^^ (m[0]?).getD 0) :: rest' := by
  refine ⟨(xorMask m ifacSize (x :: rest)).tail, ?_⟩
  intro y
  simp [xorMask, List.mapIdx_cons]

/-- Clearing the flag forgets how it was before the mask. -/
theorem clearFlag_xorMask_setFlag (m : Bytes) (ifacSize : Nat) (frame : Bytes) :
    clearFlag (xorMask m ifacSize (setFlag frame)) = clearFlag (xorMask m ifacSize frame) := by
  cases frame with
  | nil => rfl
  | cons x rest =>
    obtain ⟨rest', hrest⟩ := xorMask_cons m ifacSize x rest
    change clearFlag (xorMask m ifacSize ((x ||| IFAC_FLAG) :: rest)) = _
    rw [hrest, hrest]
    exact congrArg (· :: rest') (clear_xor_set IFAC_FLAG x _)

theorem setFlag_xorMask_setFlag (m : Bytes) (ifacSize : Nat) (frame : Bytes) :
    setFlag (xorMask m ifacSize (setFlag frame)) = setFlag (xorMask m ifacSize frame) := by
  cases frame with
  | nil => rfl
  | cons x rest =>
    obtain ⟨rest', hrest⟩ := xorMask_cons m ifacSize x rest
    change setFlag (xorMask m ifacSize ((x ||| IFAC_FLAG) :: rest)) = _
    rw [hrest, hrest]
    exact congrArg (· :: rest') (set_xor_set IFAC_FLAG x _)

theorem setFlag_clearFlag (frame : Bytes) : setFlag (clearFlag frame) = setFlag frame := by
  cases frame with
  | nil => rfl
  | cons x rest => exact congrArg (· :: rest) (set_clear IFAC_FLAG x)

theorem clearFlag_setFlag (frame : Bytes) : clearFlag (setFlag frame) = clearFlag frame := by
  cases frame with
  | nil => rfl
  | cons x rest => exact congrArg (· :: rest) (clear_set IFAC_FLAG x)

/-! ## On and off -/

section
variable [Crypto] [Hkdf]

omit [Crypto] [Hkdf] in
theorem validate_eq_ok : validate frame ifacSize = .ok () ↔ (1 ≤ ifacSize ∧ ifacSize ≤ 64) ∧ 2 ≤ frame.length := by
  unfold validate
  by_cases hs : 1 ≤ ifacSize ∧ ifacSize ≤ 64
  · by_cases hlen : frame.length < 2
    · simp [hs, hlen]
    · simp [hs, hlen, Nat.not_lt.mp hlen]
  · simp [hs]

/-- A frame with an access code behind its first two bytes. -/
def insertCode (frame code : Bytes) : Bytes := frame.take 2 ++ code ++ frame.drop 2

def removeCode (frame : Bytes) (ifacSize : Nat) : Bytes := frame.take 2 ++ frame.drop (2 + ifacSize)

omit [Crypto] [Hkdf] in
/-- A computation succeeds when its first step does and the rest of it does with what that returns. -/
theorem bind_eq_ok {α β : Type} {x : Except IfacError α} {f : α → Except IfacError β} {b : β} :
    (x >>= f) = .ok b ↔ ∃ a, x = .ok a ∧ f a = .ok b := by
  cases x with
  | error e => simp [bind, Except.bind]
  | ok a => simp [bind, Except.bind]

omit [Crypto] [Hkdf] in
theorem setFlag_insertCode (h : 2 ≤ frame.length) (code : Bytes) :
    setFlag (insertCode frame code) = mapFlags (· ||| IFAC_FLAG) (frame.take 2) ++ code ++ frame.drop 2 := by
  have hne : frame.take 2 ≠ [] := by
    rw [← List.length_pos_iff, List.length_take]
    omega
  rw [setFlag, insertCode, List.append_assoc, mapFlags_append _ hne, List.append_assoc]

theorem applyWithSize_eq_ok :
    applyWithSize frame key ifacSize = .ok wire ↔
      validate frame ifacSize = .ok () ∧ ∃ m, maskBytes key (accessCode frame key ifacSize)
        (setFlag (insertCode frame (accessCode frame key ifacSize))).length = some m ∧
      wire = setFlag (xorMask m ifacSize (setFlag (insertCode frame (accessCode frame key ifacSize)))) := by
  unfold applyWithSize
  rw [bind_eq_ok]
  simp only [bind_eq_ok, mask_eq_ok]
  constructor
  · rintro ⟨u, hv, masked, ⟨m, hbytes, rfl⟩, hwire⟩
    rw [setFlag_insertCode (validate_eq_ok.mp hv).2]
    exact ⟨hv, m, hbytes, (Except.ok.inj hwire).symm⟩
  · rintro ⟨hv, m, hbytes, rfl⟩
    rw [setFlag_insertCode (validate_eq_ok.mp hv).2] at hbytes ⊢
    exact ⟨(), hv, _, ⟨m, hbytes, rfl⟩, rfl⟩

theorem stripWithSize_eq_ok {plain : Bytes} :
    stripWithSize wire key ifacSize = .ok plain ↔
      validate wire ifacSize = .ok () ∧ ¬ Clear wire ∧ ifacSize + 2 < wire.length ∧
      ∃ m, maskBytes key ((wire.drop 2).take ifacSize) wire.length = some m ∧
        plain = removeCode (clearFlag (xorMask m ifacSize wire)) ifacSize ∧
        (wire.drop 2).take ifacSize = accessCode plain key ifacSize := by
  unfold stripWithSize
  rw [bind_eq_ok]
  by_cases hguard : wire.headD 0 &&& IFAC_FLAG = 0 ∨ wire.length ≤ ifacSize + 2
  · simp only [if_pos hguard]
    constructor
    · rintro ⟨u, -, h⟩
      cases h
    · rintro ⟨-, hflag, hlen, -⟩
      exact absurd hguard (not_or.mpr ⟨hflag, Nat.not_le.mpr hlen⟩)
  · obtain ⟨hflag, hlen⟩ := not_or.mp hguard
    simp only [if_neg hguard, bind_eq_ok, mask_eq_ok]
    constructor
    · rintro ⟨u, hv, unmasked, ⟨m, hbytes, rfl⟩, h⟩
      split at h
      · rename_i hcode
        cases h
        exact ⟨hv, hflag, Nat.not_le.mp hlen, m, hbytes, rfl, hcode⟩
      · cases h
    · rintro ⟨hv, -, -, m, hbytes, rfl, hcode⟩
      exact ⟨(), hv, _, ⟨m, hbytes, rfl⟩, if_pos hcode⟩

/-! Cutting the code out and putting it in -/

omit [Crypto] [Hkdf] in
theorem code_insertCode {code : Bytes} (h : 2 ≤ frame.length) (hc : code.length = ifacSize) :
    ((insertCode frame code).drop 2).take ifacSize = code := by
  have htwo : (frame.take 2).length = 2 := by
    rw [List.length_take]
    omega
  rw [insertCode, List.append_assoc, List.drop_left' htwo, List.take_left' hc]

omit [Crypto] [Hkdf] in
theorem removeCode_insertCode {code : Bytes} (h : 2 ≤ frame.length) (hc : code.length = ifacSize) :
    removeCode (insertCode frame code) ifacSize = frame := by
  have htwo : (frame.take 2).length = 2 := by
    rw [List.length_take]
    omega
  have hboth : (frame.take 2 ++ code).length = 2 + ifacSize := by rw [List.length_append, htwo, hc]
  rw [removeCode, insertCode, List.drop_left' hboth, List.append_assoc, List.take_left' htwo, List.take_append_drop]

omit [Crypto] [Hkdf] in
theorem insertCode_removeCode (h : ifacSize + 2 ≤ frame.length) :
    insertCode (removeCode frame ifacSize) ((frame.drop 2).take ifacSize) = frame := by
  have htwo : (frame.take 2).length = 2 := by
    rw [List.length_take]
    omega
  rw [insertCode, removeCode, List.take_left' htwo, List.drop_left' htwo, List.append_assoc, ← List.drop_drop,
    List.take_append_drop, List.take_append_drop]

omit [Crypto] [Hkdf] in
theorem length_insertCode (h : 2 ≤ frame.length) (code : Bytes) :
    (insertCode frame code).length = frame.length + code.length := by
  simp only [insertCode, List.length_append, List.length_take, List.length_drop]
  omega

omit [Crypto] [Hkdf] in
theorem length_removeCode (h : ifacSize + 2 ≤ frame.length) : (removeCode frame ifacSize).length + ifacSize = frame.length := by
  simp only [removeCode, List.length_append, List.length_take, List.length_drop]
  omega

omit [Crypto] [Hkdf] in
theorem clearFlag_insertCode (h : 2 ≤ frame.length) (hclear : Clear frame) (code : Bytes) :
    clearFlag (insertCode frame code) = insertCode frame code := by
  apply clearFlag_of_clear
  cases frame with
  | nil => exact absurd h (by simp)
  | cons x rest => exact hclear

omit [Crypto] [Hkdf] in
theorem clear_removeCode (h : Clear frame) (ifacSize : Nat) : Clear (removeCode frame ifacSize) := by
  cases frame with
  | nil => simp [removeCode, Clear]
  | cons x rest => exact h

/-! ## The inverse -/

theorem strip_of_apply (hlen : 3 ≤ frame.length) (hclear : Clear frame)
    (h : applyWithSize frame key ifacSize = .ok wire) : stripWithSize wire key ifacSize = .ok frame := by
  obtain ⟨hv, m, hbytes, rfl⟩ := applyWithSize_eq_ok.mp h
  obtain ⟨hsize, htwo⟩ := validate_eq_ok.mp hv
  have hcode := length_accessCode frame key hsize.2
  have hgrown := length_insertCode htwo (accessCode frame key ifacSize)
  have hkept : ((setFlag (xorMask m ifacSize (setFlag (insertCode frame (accessCode frame key ifacSize))))).drop 2).take
      ifacSize = accessCode frame key ifacSize := by
    rw [code_setFlag, code_xorMask, code_setFlag, code_insertCode htwo hcode]
  have hmasked : clearFlag (xorMask m ifacSize
      (setFlag (xorMask m ifacSize (setFlag (insertCode frame (accessCode frame key ifacSize)))))) =
      insertCode frame (accessCode frame key ifacSize) := by
    rw [clearFlag_xorMask_setFlag, xorMask_xorMask, clearFlag_setFlag, clearFlag_insertCode htwo hclear]
  rw [stripWithSize_eq_ok, hkept]
  rw [length_setFlag] at hbytes
  refine ⟨validate_eq_ok.mpr ⟨hsize, ?_⟩, ?_, ?_, m, ?_, ?_, rfl⟩
  · simp only [length_setFlag, length_xorMask]
    omega
  · apply not_clear_setFlag
    rw [← List.length_pos_iff]
    simp only [length_setFlag, length_xorMask]
    omega
  · simp only [length_setFlag, length_xorMask]
    omega
  · simpa only [length_setFlag, length_xorMask] using hbytes
  · rw [hmasked, removeCode_insertCode htwo hcode]

theorem apply_of_strip (h : stripWithSize wire key ifacSize = .ok frame) :
    Clear frame ∧ applyWithSize frame key ifacSize = .ok wire := by
  obtain ⟨hv, hflag, hlen, m, hbytes, rfl, hcode⟩ := stripWithSize_eq_ok.mp h
  obtain ⟨hsize, -⟩ := validate_eq_ok.mp hv
  have hshort : (removeCode (clearFlag (xorMask m ifacSize wire)) ifacSize).length + ifacSize =
      (clearFlag (xorMask m ifacSize wire)).length :=
    length_removeCode (by simp only [length_clearFlag, length_xorMask]; omega)
  simp only [length_clearFlag, length_xorMask] at hshort
  have hback : setFlag (insertCode (removeCode (clearFlag (xorMask m ifacSize wire)) ifacSize)
      ((wire.drop 2).take ifacSize)) = setFlag (xorMask m ifacSize wire) := by
    have hsame : (wire.drop 2).take ifacSize = ((clearFlag (xorMask m ifacSize wire)).drop 2).take ifacSize := by
      rw [code_clearFlag, code_xorMask]
    rw [hsame, insertCode_removeCode (by simp only [length_clearFlag, length_xorMask]; omega), setFlag_clearFlag]
  constructor
  · exact clear_removeCode (clear_clearFlag (xorMask m ifacSize wire)) ifacSize
  · rw [applyWithSize_eq_ok, ← hcode, hback]
    refine ⟨validate_eq_ok.mpr ⟨hsize, by omega⟩, m, ?_, ?_⟩
    · rw [length_setFlag, length_xorMask]
      exact hbytes
    · rw [setFlag_xorMask_setFlag, xorMask_xorMask, setFlag_of_not_clear hflag]

theorem strip_applied (hH : Hkdf.Limited) (key : Arr 64) {ifacSize : Nat} (hs : 1 ≤ ifacSize) (hs' : ifacSize ≤ 64)
    {frame : Bytes} (hlen : 3 ≤ frame.length) (hlimit : frame.length ≤ 8160 - ifacSize) (hclear : Clear frame) :
    ∃ wire, applyWithSize frame key ifacSize = .ok wire ∧ stripWithSize wire key ifacSize = .ok frame := by
  rcases applyWithSize_ok hH key hs hs' (Nat.le_trans (by omega) hlen) with ⟨-, wire, happly, -⟩ | ⟨hlong, -⟩
  · exact ⟨wire, happly, strip_of_apply hlen hclear happly⟩
  · omega

/-- Wrapping and unwrapping are inverse to each other, on the frames with a clear flag that the mask is long enough
for; a frame has one wire form that is accepted. -/
theorem strip_inverts_apply (hH : Hkdf.Limited) (key : Arr 64) (ifacSize : Nat) (hs : 1 ≤ ifacSize)
    (hs' : ifacSize ≤ 64) :
    (∀ frame : Bytes, 3 ≤ frame.length → frame.length ≤ 8160 - ifacSize → Clear frame →
      ∃ wire, applyWithSize frame key ifacSize = .ok wire ∧ stripWithSize wire key ifacSize = .ok frame) ∧
    (∀ wire frame : Bytes, stripWithSize wire key ifacSize = .ok frame →
      Clear frame ∧ applyWithSize frame key ifacSize = .ok wire) ∧
    (∀ wire wire' frame : Bytes, stripWithSize wire key ifacSize = .ok frame →
      stripWithSize wire' key ifacSize = .ok frame → wire = wire') := by
  refine ⟨fun frame hlen hlimit hclear => strip_applied hH key hs hs' hlen hlimit hclear,
    fun wire frame h => apply_of_strip h, fun wire wire' frame h h' => ?_⟩
  have happly := (apply_of_strip h).2
  rw [(apply_of_strip h').2] at happly
  exact (Except.ok.inj happly).symm

end

open Sample in
/-- A frame of five bytes behind a code of sixteen. -/
theorem strip_inverts_apply_short :
    ∃ wire, applyWithSize [0x08, 0, 1, 2, 3] (arr 64 9) 16 = .ok wire ∧ wire.length = 21 ∧
      stripWithSize wire (arr 64 9) 16 = .ok [0x08, 0, 1, 2, 3] := by
  obtain ⟨wire, happly, hstrip⟩ := (strip_inverts_apply hkdf_limited (arr 64 9) 16 (by decide) (by decide)).1
    [0x08, 0, 1, 2, 3] (by decide) (by decide) rfl
  exact ⟨wire, happly, by cases happly; decide +kernel, hstrip⟩

end Ifac

end Reticulum
