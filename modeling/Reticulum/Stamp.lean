import Reticulum.Lib.BigEndian
import Reticulum.Sample

/-!
# Stamps

`stamp.rs`: a proof of work over a message. A checked operation that would
panic, or an index that is out of range, is `none`.
-/

namespace Reticulum

namespace Stamp

def STAMP_SIZE : Nat := 32
def TICKET_STAMP_SIZE : Nat := 16
def DELIVERY_WORKBLOCK_ROUNDS : UInt32 := 3000
def PROPAGATION_WORKBLOCK_ROUNDS : UInt32 := 1000

inductive StampValidation
  | notRequired
  | ticket
  | proofOfWork (value : UInt16)
  deriving DecidableEq

/-! ## Machine arithmetic -/

/-- `u8::leading_zeros` -/
def leadingZeros (byte : UInt8) : UInt32 := UInt32.ofNat (8 - byte.toNat.size)

/-- `+` on `u16`, which panics where it does not fit. -/
def checkedAdd (a b : UInt16) : Option UInt16 := if a.toNat + b.toNat < 2 ^ 16 then some (a + b) else none

/-- `sum::<u16>` -/
def checkedSum (values : List UInt16) : Option UInt16 := values.foldlM checkedAdd 0

/-- `-` on `usize` -/
def checkedSub (a b : Nat) : Option Nat := if b ≤ a then some (a - b) else none

/-- `<<` on `u8` -/
def checkedShl (a : UInt8) (n : Nat) : Option UInt8 := if n < 8 then some (a <<< UInt8.ofNat n) else none

/-- `bytes[index] = byte` -/
def setAt (bytes : Bytes) (index : Nat) (byte : UInt8) : Option Bytes :=
  if index < bytes.length then some (bytes.set index byte) else none

/-! ## The functions -/

/-- The shortest MessagePack form of an unsigned integer. -/
def encodeUnsigned (value : UInt64) : Bytes :=
  if value ≤ 0x7f then [value.toUInt8]
  else if value ≤ 0xff then [0xcc, value.toUInt8]
  else if value ≤ 0xffff then 0xcd :: [(value >>> 8).toUInt8, value.toUInt8]
  else if value ≤ 0xffffffff then
    0xce :: [(value >>> 24).toUInt8, (value >>> 16).toUInt8, (value >>> 8).toUInt8, value.toUInt8]
  else 0xcf :: [(value >>> 56).toUInt8, (value >>> 48).toUInt8, (value >>> 40).toUInt8, (value >>> 32).toUInt8,
    (value >>> 24).toUInt8, (value >>> 16).toUInt8, (value >>> 8).toUInt8, value.toUInt8]

section
variable [Crypto]

def hashJoined (first second : Bytes) : Arr 32 := Crypto.sha256 (first ++ second)

/-- The blocks of one workblock, round after round. (The capacity, 256 bytes a round, fits a 64-bit `usize`.) -/
def stampWorkblock [Hkdf] (material : Bytes) (expandRounds : UInt32) : Except CoreError Bytes :=
  if material.isEmpty then .error .invalidField
  else do
    let blocks ← (List.range expandRounds.toNat).mapM fun round =>
      let salt := fullHash (material ++ encodeUnsigned (UInt64.ofNat round))
      match Hkdf.expand salt.1 material 256 with
      | none => Except.error CoreError.invalidField
      | some block => .ok block.1
    return blocks.flatten

def stampValue (workblock stamp : Bytes) : Option UInt16 := do
  let digest := hashJoined workblock stamp
  let whole ← checkedSum ((digest.1.map fun byte => (leadingZeros byte).toUInt16).takeWhile (· = 8))
  checkedAdd whole ((digest.1.find? (· ≠ 0)).elim 0 fun byte => (leadingZeros byte).toUInt16)

def verifyStamp (workblock stamp : Bytes) (targetCost : UInt16) : Option Bool :=
  if stamp.length ≠ STAMP_SIZE ∨ targetCost > 256 then some false
  else if targetCost = 0 then some true
  else do
    let digest := hashJoined workblock stamp
    let exponent ← checkedSub 256 targetCost.toNat
    let index ← checkedSub 31 (exponent / 8)
    let bit ← checkedShl 1 (exponent % 8)
    let target ← setAt (List.replicate 32 0) index bit
    return decide (digest.1 ≤ target)

def verifyTicketStamp (ticket : Bytes) (messageId : Arr 32) (stamp : Bytes) : Bool :=
  stamp.length = TICKET_STAMP_SIZE ∧ (truncatedHash (ticket ++ messageId.1)).1 = stamp

def verifyOptionalStamp [Hkdf] (messageId : Arr 32) (stamp : Option Bytes) (targetCost : Option UInt16)
    (tickets : List Bytes) : Option (Except CoreError StampValidation) :=
  match targetCost.filter (· > 0) with
  | none => some (.ok .notRequired)
  | some targetCost =>
    match stamp with
    | none => some (.error .invalidField)
    | some stamp =>
      if tickets.any (verifyTicketStamp · messageId stamp) then some (.ok .ticket)
      else
        match stampWorkblock messageId.1 DELIVERY_WORKBLOCK_ROUNDS with
        | .error e => some (.error e)
        | .ok workblock => do
          if ¬ (← verifyStamp workblock stamp targetCost) then return .error .invalidField
          let value ← stampValue workblock stamp
          return .ok (.proofOfWork value)

/-! ## Leading zeros -/

omit [Crypto] in
theorem leadingZeros_toNat (byte : UInt8) : (leadingZeros byte).toUInt16.toNat = 8 - byte.toNat.size := by
  rw [leadingZeros, UInt32.toNat_toUInt16, UInt32.toNat_ofNat']
  omega

omit [Crypto] in
theorem leadingZeros_eq_eight {byte : UInt8} : (leadingZeros byte).toUInt16 = 8 ↔ byte = 0 := by
  have hle : byte.toNat.size ≤ 8 := Nat.size_le.mpr byte.toNat_lt
  rw [← UInt16.toNat_inj, leadingZeros_toNat, ← UInt8.toNat_inj, UInt8.toNat_zero, ← Nat.size_eq_zero]
  change 8 - byte.toNat.size = 8 ↔ _
  omega

omit [Crypto] in
theorem checkedAdd_of_lt {a b : UInt16} (h : a.toNat + b.toNat < 2 ^ 16) :
    ∃ c, checkedAdd a b = some c ∧ c.toNat = a.toNat + b.toNat := by
  refine ⟨a + b, if_pos h, ?_⟩
  rw [UInt16.toNat_add, Nat.mod_eq_of_lt h]

omit [Crypto] in
theorem foldlM_checkedAdd {values : List UInt16} {start : UInt16}
    (h : start.toNat + (values.map UInt16.toNat).sum < 2 ^ 16) :
    ∃ c, values.foldlM checkedAdd start = some c ∧ c.toNat = start.toNat + (values.map UInt16.toNat).sum := by
  induction values generalizing start with
  | nil => exact ⟨start, rfl, rfl⟩
  | cons v values ih =>
    rw [List.map_cons, List.sum_cons] at h
    obtain ⟨c, hc, hval⟩ := checkedAdd_of_lt (a := start) (b := v) (by omega)
    have hrest : c.toNat + (values.map UInt16.toNat).sum < 2 ^ 16 := by omega
    obtain ⟨total, htotal, hsum⟩ := ih hrest
    refine ⟨total, ?_, ?_⟩
    · rw [List.foldlM_cons, hc]
      exact htotal
    · rw [hsum, hval, List.map_cons, List.sum_cons, Nat.add_assoc]

/-- The zeros of the leading zero bytes and of the byte behind them. -/
def countedZeros (b : Bytes) : Nat :=
  (((b.map fun byte => (leadingZeros byte).toUInt16).takeWhile (· = 8)).map UInt16.toNat).sum +
    ((b.find? (· ≠ 0)).elim 0 fun byte => (leadingZeros byte).toUInt16).toNat

omit [Crypto] in
theorem countedZeros_eq (b : Bytes) : countedZeros b = b.leadingZeroBits := by
  induction b with
  | nil => rfl
  | cons x b ih =>
    unfold countedZeros at ih ⊢
    by_cases hx : x = 0
    · subst hx
      have height : (leadingZeros 0).toUInt16 = 8 := leadingZeros_eq_eight.mpr rfl
      rw [Bytes.leadingZeroBits_cons_zero, ← ih, List.map_cons, List.takeWhile_cons, height]
      simp only [decide_true, if_true, List.map_cons, List.sum_cons]
      rw [List.find?_cons_of_neg (by simp), Nat.add_assoc]
      rfl
    · have height : (leadingZeros x).toUInt16 ≠ 8 := fun h => hx (leadingZeros_eq_eight.mp h)
      rw [Bytes.leadingZeroBits_cons hx, List.map_cons, List.takeWhile_cons, if_neg (by simpa using height),
        List.find?_cons_of_pos (by simpa using hx)]
      simp only [List.map_nil, List.sum_nil, Nat.zero_add, Option.elim_some]
      exact leadingZeros_toNat x

/-- `stamp_value` counts the leading zero bits of the digest, and no sum in it overflows. -/
theorem stampValue_eq (workblock stamp : Bytes) :
    ∃ value, stampValue workblock stamp = some value ∧ value.toNat = (hashJoined workblock stamp).1.leadingZeroBits := by
  have hcount := countedZeros_eq (hashJoined workblock stamp).1
  have hlen := (hashJoined workblock stamp).2
  have hle : (hashJoined workblock stamp).1.leadingZeroBits ≤ 256 := by
    unfold Bytes.leadingZeroBits
    omega
  unfold stampValue
  dsimp only
  generalize (hashJoined workblock stamp).1 = digest at hcount hle ⊢
  unfold countedZeros at hcount
  have hfits : (0 : UInt16).toNat + ((((digest.map fun byte => (leadingZeros byte).toUInt16).takeWhile (· = 8)).map
      UInt16.toNat).sum) < 2 ^ 16 := by
    rw [UInt16.toNat_zero]
    omega
  obtain ⟨whole, hwhole, hsum⟩ := foldlM_checkedAdd hfits
  rw [UInt16.toNat_zero, Nat.zero_add] at hsum
  obtain ⟨value, hvalue, htotal⟩ := checkedAdd_of_lt (a := whole)
    (b := (digest.find? (· ≠ 0)).elim 0 fun byte => (leadingZeros byte).toUInt16) (by omega)
  refine ⟨value, ?_, by omega⟩
  rw [checkedSum, hwhole]
  exact hvalue

/-! ## The comparison -/

omit [Crypto] in
theorem toNat_one_shl {n : Nat} (h : n < 8) : ((1 : UInt8) <<< UInt8.ofNat n).toNat = 2 ^ n := by
  have hall : ∀ m : Fin 8, ((1 : UInt8) <<< UInt8.ofNat m).toNat = 2 ^ m.1 := by decide
  exact hall ⟨n, h⟩

/-- `verify_stamp` compares the digest with a power of two, and nothing in it is out of range. -/
theorem verifyStamp_eq (workblock : Bytes) {stamp : Bytes} {cost : UInt16} (hstamp : stamp.length = STAMP_SIZE)
    (hpos : 1 ≤ cost.toNat) (hcost : cost.toNat ≤ 256) :
    verifyStamp workblock stamp cost =
      some (decide ((hashJoined workblock stamp).1.value ≤ 2 ^ (256 - cost.toNat))) := by
  have hrefuse : ¬ (stamp.length ≠ STAMP_SIZE ∨ cost > 256) := by
    rintro (h | h)
    · exact h hstamp
    · have : (256 : UInt16).toNat < cost.toNat := UInt16.lt_iff_toNat_lt.mp h
      exact absurd hcost (Nat.not_le.mpr this)
  have hzero : cost ≠ 0 := by
    intro h
    rw [h] at hpos
    exact absurd hpos (Nat.not_succ_le_zero 0)
  have hindex : 31 - (256 - cost.toNat) / 8 < 32 := by omega
  have hlen : (hashJoined workblock stamp).1.length =
      ((List.replicate 32 0).set (31 - (256 - cost.toNat) / 8) ((1 : UInt8) <<< UInt8.ofNat ((256 - cost.toNat) % 8))).length := by
    rw [(hashJoined workblock stamp).2, List.length_set, List.length_replicate]
  have hmod : (256 - cost.toNat) % 8 < 8 := Nat.mod_lt _ (by omega)
  have hpow : 2 ^ ((256 - cost.toNat) % 8) * 256 ^ (32 - 1 - (31 - (256 - cost.toNat) / 8)) = 2 ^ (256 - cost.toNat) := by
    rw [Bytes.pow_256, ← Nat.pow_add]
    congr 1
    omega
  unfold verifyStamp
  rw [if_neg hrefuse, if_neg hzero]
  simp only [checkedSub, if_pos hcost, Option.bind_eq_bind, Option.bind_some]
  rw [if_pos (by omega)]
  simp only [checkedShl, if_pos hmod, setAt, Option.bind_some, List.length_replicate, if_pos hindex]
  simp only [Bytes.le_iff_value_le hlen, Bytes.value_set_replicate hindex, toNat_one_shl hmod, hpow]
  rfl

theorem verifyStamp_zero (workblock : Bytes) {stamp : Bytes} (hstamp : stamp.length = STAMP_SIZE) :
    verifyStamp workblock stamp 0 = some true := by
  unfold verifyStamp
  rw [if_neg, if_pos rfl]
  rintro (h | h)
  · exact h hstamp
  · cases h

theorem verifyOptionalStamp_isSome [Hkdf] (messageId : Arr 32) (stamp : Option Bytes) (cost : Option UInt16)
    (tickets : List Bytes) : (verifyOptionalStamp messageId stamp cost tickets).isSome = true := by
  unfold verifyOptionalStamp
  split
  · rfl
  · rename_i target htarget
    split
    · rfl
    · rename_i stamp
      split
      · rfl
      · split
        · rfl
        · rename_i workblock _
          obtain ⟨value, hvalue, -⟩ := stampValue_eq workblock stamp
          have hverify : ∃ accepted, verifyStamp workblock stamp target = some accepted := by
            by_cases hrefuse : stamp.length ≠ STAMP_SIZE ∨ target > 256
            · exact ⟨false, if_pos hrefuse⟩
            · have hrange := not_or.mp hrefuse
              have hpos : 1 ≤ target.toNat := by
                have := (Option.filter_eq_some_iff.mp htarget).2
                simpa [UInt16.lt_iff_toNat_lt, Nat.succ_le_iff] using this
              have hle : target.toNat ≤ 256 := by
                have := hrange.2
                rw [gt_iff_lt, UInt16.not_lt] at this
                exact UInt16.le_iff_toNat_le.mp this
              exact ⟨_, verifyStamp_eq workblock (not_not.mp hrange.1) hpos hle⟩
          obtain ⟨accepted, haccepted⟩ := hverify
          simp only [haccepted, hvalue, Option.bind_eq_bind, Option.bind_some]
          cases accepted <;> rfl

/-! ## The numeric comparison -/

/-- A stamp is accepted when its digest, as an integer, is at most a power of two; its value is the number of
leading zero bits. Nothing overflows: neither function panics. -/
theorem stamp_numeric (workblock stamp : Bytes) (cost : UInt16) (hstamp : stamp.length = STAMP_SIZE)
    (hpos : 1 ≤ cost.toNat) (hcost : cost.toNat ≤ 256) :
    verifyStamp workblock stamp cost =
      some (decide ((hashJoined workblock stamp).1.value ≤ 2 ^ (256 - cost.toNat))) ∧
    (∃ value, stampValue workblock stamp = some value ∧
      value.toNat = (hashJoined workblock stamp).1.leadingZeroBits ∧
      (verifyStamp workblock stamp cost = some true ↔
        cost ≤ value ∨ (hashJoined workblock stamp).1.value = 2 ^ (256 - cost.toNat))) ∧
    (verifyStamp workblock stamp cost = some true →
      ∀ smaller ≤ cost, verifyStamp workblock stamp smaller = some true) := by
  have heq := verifyStamp_eq workblock hstamp hpos hcost
  have haccept : verifyStamp workblock stamp cost = some true ↔
      (hashJoined workblock stamp).1.value ≤ 2 ^ (256 - cost.toNat) := by
    rw [heq, Option.some_inj, decide_eq_true_iff]
  refine ⟨heq, ?_, ?_⟩
  · obtain ⟨value, hvalue, hzeros⟩ := stampValue_eq workblock stamp
    refine ⟨value, hvalue, hzeros, ?_⟩
    have hbits := Bytes.le_leadingZeroBits_iff (b := (hashJoined workblock stamp).1) (c := cost.toNat)
      (by rw [(hashJoined workblock stamp).2]; omega)
    rw [(hashJoined workblock stamp).2] at hbits
    rw [haccept, UInt16.le_iff_toNat_le, hzeros, hbits]
    exact Nat.le_iff_lt_or_eq
  · intro h smaller hle
    have hle : smaller.toNat ≤ cost.toNat := UInt16.le_iff_toNat_le.mp hle
    by_cases hzero : smaller = 0
    · rw [hzero]
      exact verifyStamp_zero workblock hstamp
    · have hsmall : 1 ≤ smaller.toNat := Nat.pos_of_ne_zero fun h0 => hzero (UInt16.toNat_inj.mp h0)
      rw [verifyStamp_eq workblock hstamp hsmall (by omega), Option.some_inj, decide_eq_true_iff]
      exact Nat.le_trans (haccept.mp h) (Nat.pow_le_pow_right Nat.two_pos (by omega))

end

open Sample in
/-- A digest with five leading zero bits. -/
theorem stamp_numeric_five :
    (hashJoined [24] (List.replicate 32 7)).1.leadingZeroBits = 5 ∧
    verifyStamp [24] (List.replicate 32 7) 5 = some true ∧ verifyStamp [24] (List.replicate 32 7) 6 = some false ∧
    verifyStamp [24] (List.replicate 32 7) 3 = some true := by
  have hfive : verifyStamp [24] (List.replicate 32 7) 5 = some true := by decide +kernel
  exact ⟨by decide +kernel, hfive, by decide +kernel,
    (stamp_numeric [24] (List.replicate 32 7) 5 rfl (by decide) (by decide)).2.2 hfive 3 (by decide)⟩

end Stamp

end Reticulum
