import Reticulum.Lib.Bytes

/-!
# Framing

`hdlc.rs` and `kiss.rs`: a packet between two flags, with the flag and the
escape byte escaped inside it.
-/

namespace Reticulum

namespace Hdlc

def FLAG : UInt8 := 0x7E
def ESC : UInt8 := 0x7D
def ESC_MASK : UInt8 := 0x20

/-- Wrap `data` in HDLC flags with byte-stuffing. -/
def frame (data : Bytes) : Bytes :=
  FLAG :: (data.flatMap fun b => if b = FLAG ∨ b = ESC then [ESC, b ^^^ ESC_MASK] else [b]) ++ [FLAG]

end Hdlc

namespace Kiss

def FEND : UInt8 := 0xC0
def FESC : UInt8 := 0xDB
def TFEND : UInt8 := 0xDC
def TFESC : UInt8 := 0xDD
def CMD_DATA : UInt8 := 0x00

/-- Wrap a raw packet in a KISS data frame on port zero. -/
def frame (data : Bytes) : Bytes :=
  FEND :: CMD_DATA ::
    (data.flatMap fun b => if b = FEND then [FESC, TFEND] else if b = FESC then [FESC, TFESC] else [b]) ++ [FEND]

end Kiss

end Reticulum
