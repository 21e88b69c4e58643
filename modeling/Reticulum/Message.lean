import Reticulum.Identity
import Reticulum.Lib.MessagePack

/-!
# LXMF messages

`message.rs`: a message and its wire form. The payload is an array of a
double, two byte strings, a map that is kept byte for byte and perhaps a
stamp. It is written by `rmp` and read by hand.
-/

namespace Reticulum

/-- `write_f64` of `rmp`, on the bits of the double. -/
class RmpF64 where
  writeF64 : UInt64 → Bytes

/-- `rmp` writes the shortest header of the format. -/
structure Rmp.WritesShortest [Rmp] [RmpF64] : Prop where
  arrayLen : ∀ n, n < 2 ^ 32 → Rmp.writeArrayLen n = MessagePack.arrayHeader n
  f64 : ∀ bits, RmpF64.writeF64 bits = MessagePack.float64 bits
  bin : ∀ b : Bytes, b.length < 2 ^ 32 → Rmp.writeBin b = MessagePack.binHeader b.length ++ b

/-- `f64::is_finite`, on the bits: the exponent is not all ones. -/
def isFinite (bits : UInt64) : Bool := (bits >>> 52) &&& 0x7ff ≠ 0x7ff

open Cursor

namespace Lxmf

def DESTINATION_LENGTH : Nat := 16
def SIGNATURE_LENGTH : Nat := 64
def HASH_LENGTH : Nat := 32
def HEADER_LENGTH : Nat := DESTINATION_LENGTH * 2 + SIGNATURE_LENGTH

/-! ## Reading by hand -/

def takeByte (input : Bytes) : Cursor CoreError UInt8 where
  run position :=
    match input[position]? with
    | some byte => (.ok byte, position + 1)
    | none => (.error .truncated, position)

def take (input : Bytes) (length : Nat) : Cursor CoreError Bytes where
  run position :=
    if position + length ≤ input.length then (.ok ((input.drop position).take length), position + length)
    else (.error .truncated, position)

def readU16 (input : Bytes) : Cursor CoreError UInt16 := do
  let bytes ← take input 2
  return UInt16.ofNat bytes.value

def readU32 (input : Bytes) : Cursor CoreError UInt32 := do
  let bytes ← take input 4
  return UInt32.ofNat bytes.value

def readU64 (input : Bytes) : Cursor CoreError UInt64 := do
  let bytes ← take input 8
  return UInt64.ofNat bytes.value

def readCollectionLen (input : Bytes) (fixedBase marker16 marker32 : UInt8) : Cursor CoreError UInt32 := do
  let marker ← takeByte input
  if marker &&& 0xf0 = fixedBase then return (marker &&& 0x0f).toUInt32
  else if marker = marker16 then do
    let count ← readU16 input
    return count.toUInt32
  else if marker = marker32 then readU32 input
  else fail .invalidField

/-- The bytes of a byte string whose marker has been read. -/
def readBinaryAt (input : Bytes) (marker : UInt8) : Cursor CoreError Bytes :=
  if marker = 0xc4 then do
    let length ← takeByte input
    take input length.toNat
  else if marker = 0xc5 then do
    let length ← readU16 input
    take input length.toNat
  else if marker = 0xc6 then do
    let length ← readU32 input
    take input length.toNat
  else fail .invalidField

def readBinary (input : Bytes) : Cursor CoreError Bytes := do
  let marker ← takeByte input
  readBinaryAt input marker

/-- To move over some bytes. -/
def pass (input : Bytes) (length : Nat) : Cursor CoreError Unit := do
  let _ ← take input length
  return ()

/-- The rest of a value whose marker has been read, given how to skip a nested value. -/
def skipAt (input : Bytes) (skip : Cursor CoreError Unit) (marker : UInt8) : Cursor CoreError Unit :=
  if marker ≤ 0x7f ∨ marker = 0xc0 ∨ marker = 0xc2 ∨ marker = 0xc3 ∨ 0xe0 ≤ marker then return ()
  else if marker ≤ 0x8f then skip.times ((marker &&& 0x0f).toNat * 2)
  else if marker ≤ 0x9f then skip.times (marker &&& 0x0f).toNat
  else if marker ≤ 0xbf then pass input (marker &&& 0x1f).toNat
  else if marker = 0xc4 ∨ marker = 0xd9 then do
    let length ← takeByte input
    pass input length.toNat
  else if marker = 0xc5 ∨ marker = 0xda then do
    let length ← readU16 input
    pass input length.toNat
  else if marker = 0xc6 ∨ marker = 0xdb then do
    let length ← readU32 input
    pass input length.toNat
  else if marker = 0xc7 then do
    let length ← takeByte input
    pass input (length.toNat + 1)
  else if marker = 0xc8 then do
    let length ← readU16 input
    pass input (length.toNat + 1)
  else if marker = 0xc9 then do
    let length ← readU32 input
    pass input (length.toNat + 1)
  else if marker = 0xca ∨ marker = 0xce ∨ marker = 0xd2 then pass input 4
  else if marker = 0xcb ∨ marker = 0xcf ∨ marker = 0xd3 then pass input 8
  else if marker = 0xcc ∨ marker = 0xd0 then pass input 1
  else if marker = 0xcd ∨ marker = 0xd1 then pass input 2
  else if marker = 0xd4 then pass input 2
  else if marker = 0xd5 then pass input 3
  else if marker = 0xd6 then pass input 5
  else if marker = 0xd7 then pass input 9
  else if marker = 0xd8 then pass input 17
  else if marker = 0xdc then do
    let count ← readU16 input
    skip.times count.toNat
  else if marker = 0xdd then do
    let count ← readU32 input
    skip.times count.toNat
  else if marker = 0xde then do
    let count ← readU16 input
    skip.times (count.toNat * 2)
  else if marker = 0xdf then do
    let count ← readU32 input
    skip.times (count.toNat * 2)
  else fail .invalidField

/-- `skip_value` at depth `64 - levels`. -/
def skipValue (input : Bytes) : Nat → Cursor CoreError Unit
  | 0 => fail .invalidField
  | levels + 1 => do
    let marker ← takeByte input
    skipAt input (skipValue input levels) marker

/-- The one map at the cursor, byte for byte. -/
def readFields (input : Bytes) : Cursor CoreError Bytes := do
  let fieldsStart ← position
  reject (¬ input[fieldsStart]?.any MessagePack.MapMarker) .invalidField
  skipValue input 64
  let fieldsEnd ← position
  return (input.drop fieldsStart).take (fieldsEnd - fieldsStart)

def readStamp (input : Bytes) (length : UInt32) : Cursor CoreError (Option Bytes) :=
  if length = 5 then do
    let stamp ← readBinary input
    reject (stamp.length ≠ 16 ∧ stamp.length ≠ 32) .invalidField
    return some stamp
  else return none

structure DecodedPayload where
  timestamp : UInt64
  title : Bytes
  content : Bytes
  fields : Bytes
  stamp : Option Bytes
  deriving DecidableEq

def readPayload (input : Bytes) : Cursor CoreError DecodedPayload := do
  let length ← readCollectionLen input 0x90 0xdc 0xdd
  reject (length ≠ 4 ∧ length ≠ 5) .invalidField
  let marker ← takeByte input
  reject (marker ≠ 0xcb) .invalidField
  let timestamp ← readU64 input
  reject (isFinite timestamp = false) .invalidField
  let title ← readBinary input
  let content ← readBinary input
  let fields ← readFields input
  let stamp ← readStamp input length
  return { timestamp, title, content, fields, stamp }

/-- A reader that has to read all of its input. -/
def readAll {α : Type} (read : Bytes → Cursor CoreError α) (input : Bytes) : Except CoreError α :=
  match (read input).run 0 with
  | (.error e, _) => .error e
  | (.ok a, position) => if position ≠ input.length then .error .invalidField else .ok a

def decodePayload (payload : Bytes) : Except CoreError DecodedPayload := readAll readPayload payload

end Lxmf

open Lxmf

structure LxmfMessage where
  destination : Arr 16
  source : Arr 16
  /-- The bits of the double. -/
  timestamp : UInt64
  title : Bytes
  content : Bytes
  /-- One complete MessagePack map value, retained byte-for-byte. -/
  fields : Bytes
  stamp : Option Bytes
  signature : Arr 64
  hash : Arr 32
  deriving DecidableEq

namespace LxmfMessage

section
variable [Rmp] [RmpF64]

def encodePayload (timestamp : UInt64) (title content fields : Bytes) : Bytes :=
  Rmp.writeArrayLen 4 ++ RmpF64.writeF64 timestamp ++ Rmp.writeBin title ++ Rmp.writeBin content ++ fields

def payload (m : LxmfMessage) : Bytes := encodePayload m.timestamp m.title m.content m.fields

def wirePayload (m : LxmfMessage) : Bytes :=
  match m.stamp with
  | none => m.payload
  | some stamp =>
    Rmp.writeArrayLen 5 ++ RmpF64.writeF64 m.timestamp ++ Rmp.writeBin m.title ++ Rmp.writeBin m.content ++ m.fields ++
      Rmp.writeBin stamp

def pack (m : LxmfMessage) : Bytes := m.destination.1 ++ m.source.1 ++ m.signature.1 ++ m.wirePayload

end

def hashedPart (destination source : Arr 16) (payload : Bytes) : Bytes := destination.1 ++ source.1 ++ payload

variable [Crypto] [Rmp] [RmpF64]

def build (sourceIdentity : Identity) (destination source : Arr 16) (timestamp : UInt64)
    (title content fieldsMsgpack : Bytes) : LxmfMessage :=
  let payload := encodePayload timestamp title content fieldsMsgpack
  let hashedPart := hashedPart destination source payload
  let hash := fullHash hashedPart
  let signedPart := hashedPart ++ hash.1
  { destination, source, timestamp, title, content
    fields := fieldsMsgpack
    stamp := none
    signature := sourceIdentity.sign signedPart
    hash }

def unpack (bytes : Bytes) : Except CoreError LxmfMessage :=
  if bytes.length < HEADER_LENGTH then .error .truncated
  else
    match Arr.slice? bytes 0 16, Arr.slice? bytes 16 16, Arr.slice? bytes 32 64 with
    | some destination, some source, some signature =>
      match decodePayload (bytes.drop HEADER_LENGTH) with
      | .error e => .error e
      | .ok decoded =>
        let payload := encodePayload decoded.timestamp decoded.title decoded.content decoded.fields
        let hash := fullHash (hashedPart destination source payload)
        .ok {
          destination, source, signature, hash
          timestamp := decoded.timestamp
          title := decoded.title
          content := decoded.content
          fields := decoded.fields
          stamp := decoded.stamp }
    | _, _, _ => .error .truncated

def verify (m : LxmfMessage) (sourcePublic : PublicIdentity) : Except CoreError Unit :=
  let hashedPart := hashedPart m.destination m.source m.payload
  let hash := fullHash hashedPart
  if hash ≠ m.hash then .error .badSignature
  else
    let signedPart := hashedPart ++ hash.1
    sourcePublic.verify signedPart m.signature

end LxmfMessage

end Reticulum
