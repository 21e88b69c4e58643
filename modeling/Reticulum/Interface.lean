import Reticulum.Ifac
import Reticulum.Serial

/-!
# Interfaces

`udp.rs`, `auto.rs`, `serial.rs`, `tcp.rs` and the IFAC wrapper of
`interface.rs`: what `send_packet` does with a packet before the transport
gets it. The transports themselves never fail here.
-/

namespace Reticulum

def UDP_HW_MTU : Nat := 1064
def AUTO_HW_MTU : Nat := 1196

/-- `io::ErrorKind` -/
inductive IoError
  | invalidInput
  | invalidData
  deriving DecidableEq

/-- The four back ends. -/
inductive Transport
  | udp
  | auto
  | serial
  | tcp
  deriving DecidableEq

namespace Transport

/-- The longest packet `send_packet` lets through. The TCP interface does not look at its `HW_MTU`. -/
def limit : Transport → Option Nat
  | udp => some UDP_HW_MTU
  | auto => some AUTO_HW_MTU
  | serial => some SerialInterface.SERIAL_HW_MTU
  | tcp => none

/-- What the transport is handed for a packet. -/
def wire : Transport → Bytes → Bytes
  | udp, raw | auto, raw => raw
  | serial, raw => Kiss.frame raw
  | tcp, raw => Hdlc.frame raw

def Carries (t : Transport) (len : Nat) : Prop := ∀ mtu ∈ t.limit, len ≤ mtu

instance (t : Transport) (len : Nat) : Decidable (t.Carries len) :=
  match h : t.limit with
  | none => isTrue (by simp [Carries, h])
  | some mtu => decidable_of_iff (len ≤ mtu) (by simp [Carries, h])

def sendPacket (t : Transport) (raw : Bytes) : Except IoError Bytes :=
  if t.Carries raw.length then .ok (t.wire raw) else .error .invalidInput

end Transport

structure IfacConfig where
  key : Arr 64
  size : Nat
  /-- `IfacConfig::with_size` refuses every other size. -/
  valid : 1 ≤ size ∧ size ≤ 64

/-- A back end, behind the IFAC wrapper or not. -/
structure Interface where
  transport : Transport
  ifac : Option IfacConfig

namespace Interface

/-- The packets an interface has room for: within the limit of its back end, and of the mask when
there is one. -/
def Carries (p : Interface) (len : Nat) : Prop :=
  match p.ifac with
  | none => p.transport.Carries len
  | some config => len + config.size ≤ 255 * 32 ∧ p.transport.Carries (len + config.size)

instance (p : Interface) (len : Nat) : Decidable (p.Carries len) := by
  unfold Carries
  split <;> infer_instance

variable [Crypto] [Hkdf]

def sendPacket (p : Interface) (raw : Bytes) : Except IoError Bytes :=
  match p.ifac with
  | none => p.transport.sendPacket raw
  | some config =>
    match Ifac.applyWithSize raw config.key config.size with
    | .error _ => .error .invalidData
    | .ok wire => p.transport.sendPacket wire

/-- `send_packet` returns `Ok`. -/
def Takes (p : Interface) (raw : Bytes) : Prop := ∃ wire, p.sendPacket raw = .ok wire

/-- `send_packet` takes the packets the interface carries and no others. -/
theorem takes_iff (hH : Hkdf.Limited) (p : Interface) {raw : Bytes} (hraw : 2 ≤ raw.length) :
    p.Takes raw ↔ p.Carries raw.length := by
  have ht (t : Transport) (b : Bytes) : (∃ wire, t.sendPacket b = .ok wire) ↔ t.Carries b.length := by
    unfold Transport.sendPacket
    split <;> simp_all
  unfold Takes sendPacket Carries
  cases p.ifac with
  | none => exact ht _ _
  | some config =>
    dsimp only
    rcases Ifac.applyWithSize_ok hH config.key config.valid.1 config.valid.2 hraw with ⟨hle, wire, hw, hl⟩ | ⟨hlt, e, he⟩
    · rw [hw, ← hl]
      dsimp only
      rw [ht]
      exact ⟨fun h => ⟨hl ▸ hle, h⟩, fun h => h.2⟩
    · rw [he]
      dsimp only
      constructor
      · rintro ⟨wire, h⟩
        cases h
      · intro h
        omega

omit [Crypto] [Hkdf] in
theorem carries_of_le {p : Interface} {len : Nat} (h : len ≤ 500) : p.Carries len := by
  have ht (t : Transport) {len : Nat} (h : len ≤ 564) : t.Carries len := by
    intro mtu hm
    cases t <;> cases hm <;> simp only [UDP_HW_MTU, AUTO_HW_MTU, SerialInterface.SERIAL_HW_MTU] <;> omega
  unfold Carries
  cases p.ifac with
  | none => exact ht _ (by omega)
  | some config =>
    have := config.valid.2
    exact ⟨by omega, ht _ (by omega)⟩

end Interface

end Reticulum
