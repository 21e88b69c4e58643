import Reticulum.Identity

/-!
# Packets

`packet.rs`: the header flags, the constructors, the packet hash and the wire
codec. The hash leaves out the hop count and everything a relay rewrites.
-/

namespace Reticulum

/-! ## Wire constants -/

def DATA : UInt8 := 0x00
def ANNOUNCE : UInt8 := 0x01
def LINKREQUEST : UInt8 := 0x02
def PROOF : UInt8 := 0x03
def SINGLE : UInt8 := 0x00
def GROUP : UInt8 := 0x01
def PLAIN : UInt8 := 0x02
def LINK : UInt8 := 0x03
def HEADER_1 : UInt8 := 0
def HEADER_2 : UInt8 := 1
def BROADCAST : UInt8 := 0
def TRANSPORT : UInt8 := 1
def PATH_RESPONSE : UInt8 := 0x0B
def RESOURCE : UInt8 := 0x01
def RESOURCE_ADV : UInt8 := 0x02
def RESOURCE_REQ : UInt8 := 0x03
def RESOURCE_HMU : UInt8 := 0x04
def RESOURCE_PRF : UInt8 := 0x05
def RESOURCE_ICL : UInt8 := 0x06
def RESOURCE_RCL : UInt8 := 0x07
def KEEPALIVE : UInt8 := 0xFA
def LINKCLOSE : UInt8 := 0xFC
def LRRTT : UInt8 := 0xFE
def LRPROOF : UInt8 := 0xFF
def ADDR_LEN : Nat := 16

structure Packet where
  headerType : UInt8
  packetType : UInt8
  destType : UInt8
  propagation : UInt8
  contextFlag : Bool
  ifac : Bool
  hops : UInt8
  /-- Next-hop transport identity for HEADER_2 packets. -/
  transportId : Option (Arr 16)
  destHash : Bytes
  context : UInt8
  data : Bytes
  deriving DecidableEq

namespace Packet

/-! ## Constructors -/

def newHeader1 (destType packetType : UInt8) (destHash : Arr 16) (context : UInt8) (data : Bytes) : Packet where
  ifac := false
  headerType := HEADER_1
  contextFlag := false
  propagation := BROADCAST
  destType := destType
  packetType := packetType
  hops := 0
  transportId := none
  destHash := destHash.1
  context := context
  data := data

def announce (destHash : Arr 16) (payload : Bytes) : Packet where
  ifac := false
  headerType := HEADER_1
  contextFlag := false
  propagation := 0
  destType := SINGLE
  packetType := ANNOUNCE
  hops := 0
  transportId := none
  destHash := destHash.1
  context := 0
  data := payload

def dataFor (destType : UInt8) (destHash : Arr 16) (data : Bytes) : Packet :=
  newHeader1 destType DATA destHash 0 data

def dataSingle (destHash : Arr 16) (ciphertext : Bytes) : Packet := dataFor SINGLE destHash ciphertext

def explicitProof (destHash : Arr 16) (proofData : Bytes) : Packet :=
  newHeader1 SINGLE PROOF destHash 0 proofData

def linkRequest (destHash : Arr 16) (payload : Bytes) : Packet :=
  newHeader1 SINGLE LINKREQUEST destHash 0 payload

def proof (linkId : Arr 16) (proofData : Bytes) (context : UInt8) : Packet :=
  newHeader1 LINK PROOF linkId context proofData

def linkDataWithContext (linkId : Arr 16) (ciphertext : Bytes) (context : UInt8) : Packet :=
  newHeader1 LINK DATA linkId context ciphertext

def linkData (linkId : Arr 16) (ciphertext : Bytes) : Packet := linkDataWithContext linkId ciphertext 0

def linkContext (linkId : Arr 16) (context : UInt8) (payload : Bytes) : Packet :=
  linkDataWithContext linkId payload context

/-! ## Hashes -/

/-- What the packet hash covers: neither hops nor header type nor transport id. -/
def hashablePart (p : Packet) : Bytes :=
  (((p.destType &&& 0x3) <<< 2) ||| (p.packetType &&& 0x3)) :: (p.destHash ++ p.context :: p.data)

section
variable [Crypto]

def fullPacketHash (p : Packet) : Arr 32 := fullHash p.hashablePart

def packetHash (p : Packet) : Arr 16 := p.fullPacketHash.prefixOf 16 hash_le

def pathRequestDestinationHash : Arr 16 :=
  truncatedHash (nameHash "rnstransport" ["path", "request"]).1

def pathRequest (target : Arr 16) (requesterTransportId : Option (Arr 16)) (tag : Arr 16) : Packet where
  ifac := false
  headerType := HEADER_1
  contextFlag := false
  propagation := BROADCAST
  destType := PLAIN
  packetType := DATA
  hops := 0
  transportId := none
  destHash := pathRequestDestinationHash.1
  context := 0
  data := target.1 ++ (match requesterTransportId with | some r => r.1 | none => []) ++ tag.1

end

/-! ## Wire codec -/

def flags (p : Packet) : UInt8 :=
  (p.ifac.toUInt8 <<< 7) ||| ((p.headerType &&& 0x1) <<< 6) |||
    (p.contextFlag.toUInt8 <<< 5) ||| ((p.propagation &&& 0x1) <<< 4) |||
    ((p.destType &&& 0x3) <<< 2) ||| (p.packetType &&& 0x3)

def encode (p : Packet) : Bytes :=
  p.flags :: p.hops ::
    ((if p.headerType = HEADER_2 then (match p.transportId with | some t => t.1 | none => []) else []) ++
      p.destHash ++ p.context :: p.data)

def decode (bytes : Bytes) : Except CoreError Packet :=
  match bytes with
  | flags :: hops :: rest =>
    let headerType := (flags >>> 6) &&& 0x1
    let addrBytes := if headerType = HEADER_1 then ADDR_LEN else ADDR_LEN * 2
    -- too short for the addresses and the context byte
    match rest.drop addrBytes with
    | [] => .error .truncated
    | context :: data =>
      .ok {
        ifac := (flags >>> 7) &&& 0x1 = 1
        headerType := headerType
        contextFlag := (flags >>> 5) &&& 0x1 = 1
        propagation := (flags >>> 4) &&& 0x1
        destType := (flags >>> 2) &&& 0x3
        packetType := flags &&& 0x3
        hops := hops
        transportId := if headerType = HEADER_2 then Arr.ofSlice? 16 (rest.take ADDR_LEN) else none
        destHash := if headerType = HEADER_2 then (rest.drop ADDR_LEN).take ADDR_LEN else rest.take ADDR_LEN
        context := context
        data := data }
  | _ => .error .truncated

end Packet

end Reticulum
