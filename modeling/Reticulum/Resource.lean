import Reticulum.Crates
import Reticulum.Identity

/-!
# Resource wire primitives

`resource.rs`: parts and their map hashes, the advertisement and the hashmap
update. Compression is the `Bzip2` parameter, MessagePack the `Rmp` one.
-/

namespace Reticulum

def MAPHASH_LEN : Nat := 4
def RANDOM_HASH_SIZE : Nat := 4
def MAX_EFFICIENT_SIZE : Nat := 1024 * 1024 - 1
def MAX_DECOMPRESSED_SIZE : Nat := 64 * 1024 * 1024

section
variable [Bzip2]

def compressIfUseful (data : Bytes) : Bytes × Bool :=
  if Bzip2.compression then
    if data.length > MAX_DECOMPRESSED_SIZE then (data, false)
    else
      match Bzip2.encode data with
      | some compressed => if compressed.length < data.length then (compressed, true) else (data, false)
      | none => (data, false)
  else (data, false)

def decompressPayload (data : Bytes) : Except CoreError Bytes :=
  if Bzip2.compression then
    match Bzip2.decode (MAX_DECOMPRESSED_SIZE + 1) data with
    | none => .error .decryptFailed
    | some decoded => if decoded.length > MAX_DECOMPRESSED_SIZE then .error .invalidField else .ok decoded
  else .error .unsupported

end

def splitParts (data : Bytes) (sdu : Nat) : List Bytes :=
  if sdu = 0 then [] else Bytes.chunks sdu data

def reassemble (parts : List Bytes) : Bytes := parts.flatten

section
variable [Crypto]

def randomHash (rng : Entropy) : Arr 4 × Entropy :=
  let (source, rng) := rng.fill 16
  ((fullHash source.1).prefixOf 4 (by decide), rng)

def hashJoined (left right : Bytes) : Arr 32 := fullHash (left ++ right)

def resourceHash (data : Bytes) (random : Arr 4) : Arr 32 := hashJoined data random.1

def resourceProof (data : Bytes) (hash : Arr 32) : Arr 32 := hashJoined data hash.1

def mapHash (part : Bytes) (random : Arr 4) : Arr 4 := (hashJoined part random.1).prefixOf 4 (by decide)

def hashmap (parts : List Bytes) (random : Arr 4) : Bytes :=
  parts.flatMap fun part => (mapHash part random).1

end

/-! ## MessagePack fields -/

section
variable [Rmp]

def ofRead {α : Type} (r : Option α) : Except CoreError α :=
  match r with
  | some a => .ok a
  | none => .error .invalidField

def takeBytes (input : Bytes) (len : Nat) : Except CoreError (Bytes × Bytes) :=
  if input.length < len then .error .truncated else .ok (input.take len, input.drop len)

def readInteger (input : Bytes) : Except CoreError (Nat × Bytes) := ofRead (Rmp.readInt input)

def toU32 (value : Nat) : Except CoreError Nat :=
  if value < 2 ^ 32 then .ok value else .error .invalidField

def toU8 (value : Nat) : Except CoreError UInt8 :=
  if value < 2 ^ 8 then .ok (UInt8.ofNat value) else .error .invalidField

/-- The bytes of a text key. A key that is not UTF-8 fails like an unknown one. -/
def readText (input : Bytes) : Except CoreError (Bytes × Bytes) := do
  let (len, input) ← ofRead (Rmp.readStrLen input)
  takeBytes input len

def readBinary (input : Bytes) : Except CoreError (Bytes × Bytes) := do
  let (len, input) ← ofRead (Rmp.readBinLen input)
  takeBytes input len

def readOptionalBinary (input : Bytes) : Except CoreError (Option Bytes × Bytes) :=
  match input with
  | 0xC0 :: rest => .ok (none, rest)
  | _ => do
    let (b, input) ← readBinary input
    return (some b, input)

def readU32 (input : Bytes) : Except CoreError (Nat × Bytes) := do
  let (v, input) ← readInteger input
  return (← toU32 v, input)

def readU8 (input : Bytes) : Except CoreError (UInt8 × Bytes) := do
  let (v, input) ← readInteger input
  return (← toU8 v, input)

/-! ## Hashmap updates -/

def packHashmapUpdate (resourceHash : Arr 32) (segment : Nat) (map : Bytes) : Bytes :=
  resourceHash.1 ++ Rmp.writeArrayLen 2 ++ Rmp.writeUint segment ++ Rmp.writeBin map

def unpackHashmapUpdate (data : Bytes) : Except CoreError (Arr 32 × Nat × Bytes) :=
  match Arr.ofSlice? 32 (data.take 32) with
  | none => .error .truncated
  | some hash => do
    let (len, input) ← ofRead (Rmp.readArrayLen (data.drop 32))
    if len ≠ 2 then throw .invalidField
    let (segment, input) ← readU32 input
    let (map, input) ← readBinary input
    if input ≠ [] ∨ map = [] ∨ map.length % MAPHASH_LEN ≠ 0 then throw .invalidField
    return (hash, segment, map)

/-! ## Advertisements -/

structure ResourceAdvertisement where
  t : Nat
  d : Nat
  n : Nat
  h : Bytes
  r : Bytes
  o : Bytes
  i : Nat
  l : Nat
  q : Option Bytes
  f : UInt8
  m : Bytes
  deriving DecidableEq

namespace ResourceAdvertisement

def encrypted (a : ResourceAdvertisement) : Bool := a.f &&& 0x01 != 0

def compressed (a : ResourceAdvertisement) : Bool := a.f &&& 0x02 != 0

def writeU64Field (key : UInt8) (value : Nat) : Bytes := Rmp.writeStr [key] ++ Rmp.writeUint value

def writeBinField (key : UInt8) (value : Bytes) : Bytes := Rmp.writeStr [key] ++ Rmp.writeBin value

/-- The one-letter keys, as ASCII. -/
def keyT : UInt8 := 0x74
def keyD : UInt8 := 0x64
def keyN : UInt8 := 0x6E
def keyH : UInt8 := 0x68
def keyR : UInt8 := 0x72
def keyO : UInt8 := 0x6F
def keyI : UInt8 := 0x69
def keyL : UInt8 := 0x6C
def keyQ : UInt8 := 0x71
def keyF : UInt8 := 0x66
def keyM : UInt8 := 0x6D

def pack (a : ResourceAdvertisement) : Bytes :=
  Rmp.writeMapLen 11 ++ writeU64Field keyT a.t ++ writeU64Field keyD a.d ++ writeU64Field keyN a.n ++
    writeBinField keyH a.h ++ writeBinField keyR a.r ++ writeBinField keyO a.o ++ writeU64Field keyI a.i ++
    writeU64Field keyL a.l ++
    (Rmp.writeStr [keyQ] ++ match a.q with | some requestId => Rmp.writeBin requestId | none => Rmp.writeNil) ++
    writeU64Field keyF a.f.toNat ++ writeBinField keyM a.m

/-- The fields read so far by the loop of `unpack`. -/
structure Fields where
  t : Option Nat := none
  d : Option Nat := none
  n : Option Nat := none
  h : Option Bytes := none
  r : Option Bytes := none
  o : Option Bytes := none
  i : Option Nat := none
  l : Option Nat := none
  q : Option (Option Bytes) := none
  f : Option UInt8 := none
  m : Option Bytes := none

/-- One key and its value. -/
def readField (acc : Fields) (input : Bytes) : Except CoreError (Fields × Bytes) := do
  let (key, input) ← readText input
  if key = [keyT] then let (v, input) ← readInteger input; return ({ acc with t := some v }, input)
  else if key = [keyD] then let (v, input) ← readInteger input; return ({ acc with d := some v }, input)
  else if key = [keyN] then let (v, input) ← readU32 input; return ({ acc with n := some v }, input)
  else if key = [keyH] then let (v, input) ← readBinary input; return ({ acc with h := some v }, input)
  else if key = [keyR] then let (v, input) ← readBinary input; return ({ acc with r := some v }, input)
  else if key = [keyO] then let (v, input) ← readBinary input; return ({ acc with o := some v }, input)
  else if key = [keyI] then let (v, input) ← readU32 input; return ({ acc with i := some v }, input)
  else if key = [keyL] then let (v, input) ← readU32 input; return ({ acc with l := some v }, input)
  else if key = [keyQ] then let (v, input) ← readOptionalBinary input; return ({ acc with q := some v }, input)
  else if key = [keyF] then let (v, input) ← readU8 input; return ({ acc with f := some v }, input)
  else if key = [keyM] then let (v, input) ← readBinary input; return ({ acc with m := some v }, input)
  else throw .invalidField

def readFields : Nat → Fields → Bytes → Except CoreError (Fields × Bytes)
  | 0, acc, input => .ok (acc, input)
  | k + 1, acc, input => do
    let (acc, input) ← readField acc input
    readFields k acc input

def ofFields (acc : Fields) : Except CoreError ResourceAdvertisement := do
  return {
    t := ← ofRead acc.t, d := ← ofRead acc.d, n := ← ofRead acc.n, h := ← ofRead acc.h, r := ← ofRead acc.r,
    o := ← ofRead acc.o, i := ← ofRead acc.i, l := ← ofRead acc.l, q := ← ofRead acc.q, f := ← ofRead acc.f,
    m := ← ofRead acc.m }

def unpack (data : Bytes) : Except CoreError ResourceAdvertisement := do
  let (fields, input) ← ofRead (Rmp.readMapLen data)
  if fields ≠ 11 then throw .invalidField
  let (acc, input) ← readFields fields {} input
  if input ≠ [] then throw .invalidField
  let a ← ofFields acc
  if a.t > MAX_EFFICIENT_SIZE * 3 ∨ a.h.length ≠ 32 ∨ a.r.length ≠ RANDOM_HASH_SIZE ∨ a.o.length ≠ 32 ∨
      a.m.length % MAPHASH_LEN ≠ 0 ∨ a.n = 0 then
    throw .invalidField
  return a

end ResourceAdvertisement

end

end Reticulum
