import Reticulum.Lib.BigEndian
import Reticulum.Lib.Cursor

/-!
# MessagePack

The format of one value: its first byte says how many bytes follow, or how
many nested values. Lengths and counts are big-endian. What an encoder writes
is the shortest of the headers the format has.
-/

namespace MessagePack

/-! ## Values -/

/-- What follows the first byte of a value: so many bytes; a length and the bytes it counts, with some more; so many
values; or a count and, for each, so many values. -/
inductive Shape
  | plain (bytes : Nat)
  | sized (width extra : Nat)
  | nested (values : Nat)
  | counted (width each : Nat)
  | reserved
  deriving DecidableEq

/-- From `nil` at `0xc0` to `map 32` at `0xdf`. -/
def shapes : List Shape :=
  [.plain 0, .reserved, .plain 0, .plain 0, .sized 1 0, .sized 2 0, .sized 4 0, .sized 1 1, .sized 2 1, .sized 4 1,
    .plain 4, .plain 8, .plain 1, .plain 2, .plain 4, .plain 8, .plain 1, .plain 2, .plain 4, .plain 8,
    .plain 2, .plain 3, .plain 5, .plain 9, .plain 17, .sized 1 0, .sized 2 0, .sized 4 0,
    .counted 2 1, .counted 4 1, .counted 2 2, .counted 4 2]

/-- The fix types hold a number in their first byte: an integer, or the length of a map, an array or a string. -/
def shape (marker : UInt8) : Shape :=
  if marker < 0x80 then .plain 0
  else if marker < 0x90 then .nested (2 * (marker.toNat - 0x80))
  else if marker < 0xa0 then .nested (marker.toNat - 0x90)
  else if marker < 0xc0 then .plain (marker.toNat - 0xa0)
  else if marker < 0xe0 then shapes.getD (marker.toNat - 0xc0) .reserved
  else .plain 0

/-- The bytes after the first one, given what a nested value is. -/
def Body (nested : Bytes → Prop) : Shape → Bytes → Prop
  | .plain k, b => b.length = k
  | .sized width extra, b => ∃ len data, b = len ++ data ∧ len.length = width ∧ data.length = len.value + extra
  | .nested n, b => Cursor.Sequence nested n b
  | .counted width each, b =>
    ∃ len values, b = len ++ values ∧ len.length = width ∧ Cursor.Sequence nested (len.value * each) values
  | .reserved, _ => False

/-- The bytes of one value that nests no deeper than so many levels, itself the first. -/
def Value : Nat → Bytes → Prop
  | 0, _ => False
  | levels + 1, w => ∃ marker body, w = marker :: body ∧ Body (Value levels) (shape marker) body

theorem Body.mono {P Q : Bytes → Prop} (h : ∀ w, P w → Q w) {s : Shape} {b : Bytes} (hb : Body P s b) : Body Q s b := by
  cases s with
  | plain => exact hb
  | sized => exact hb
  | nested n => exact Cursor.Sequence.mono h hb
  | counted =>
    obtain ⟨len, values, rfl, hlen, hvalues⟩ := hb
    exact ⟨len, values, rfl, hlen, hvalues.mono h⟩
  | reserved => exact hb

theorem Value.mono {m n : Nat} (h : m ≤ n) {w : Bytes} (hw : Value m w) : Value n w := by
  induction m generalizing n w with
  | zero => exact hw.elim
  | succ m ih =>
    obtain ⟨n, rfl⟩ : ∃ k, n = k + 1 := ⟨n - 1, by omega⟩
    obtain ⟨marker, body, rfl, hbody⟩ := hw
    exact ⟨marker, body, rfl, hbody.mono fun w hw => ih (Nat.le_of_succ_le_succ h) hw⟩

theorem Value.length_pos {n : Nat} {w : Bytes} (h : Value n w) : 0 < w.length := by
  cases n with
  | zero => exact h.elim
  | succ n =>
    obtain ⟨marker, body, rfl, -⟩ := h
    exact Nat.succ_pos _

def MapMarker (marker : UInt8) : Prop := 0x80 ≤ marker ∧ marker ≤ 0x8f ∨ marker = 0xde ∨ marker = 0xdf

instance decidableMapMarker (marker : UInt8) : Decidable (MapMarker marker) :=
  inferInstanceAs (Decidable (_ ∨ _))

/-- The bytes of one map. -/
def Map (levels : Nat) (w : Bytes) : Prop := Value levels w ∧ ∃ marker, w.head? = some marker ∧ MapMarker marker

/-! ## Headers -/

/-- A byte string in the `bin` format: its length in one, two or four bytes, then its bytes. -/
inductive Binary : Bytes → Bytes → Prop
  | bin8 {len data : Bytes} : len.length = 1 → data.length = len.value → Binary (0xc4 :: (len ++ data)) data
  | bin16 {len data : Bytes} : len.length = 2 → data.length = len.value → Binary (0xc5 :: (len ++ data)) data
  | bin32 {len data : Bytes} : len.length = 4 → data.length = len.value → Binary (0xc6 :: (len ++ data)) data

/-- The header of an array of so many values. -/
inductive ArrayHeader : Bytes → Nat → Prop
  | fix {marker : UInt8} : marker &&& 0xf0 = 0x90 → ArrayHeader [marker] (marker &&& 0x0f).toNat
  | array16 {len : Bytes} : len.length = 2 → ArrayHeader (0xdc :: len) len.value
  | array32 {len : Bytes} : len.length = 4 → ArrayHeader (0xdd :: len) len.value

/-- The shortest header of a byte string. -/
def binHeader (n : Nat) : Bytes :=
  if n < 2 ^ 8 then 0xc4 :: Bytes.bigEndian 1 n
  else if n < 2 ^ 16 then 0xc5 :: Bytes.bigEndian 2 n
  else 0xc6 :: Bytes.bigEndian 4 n

/-- The shortest header of an array. -/
def arrayHeader (n : Nat) : Bytes :=
  if n < 2 ^ 4 then [0x90 ||| UInt8.ofNat n]
  else if n < 2 ^ 16 then 0xdc :: Bytes.bigEndian 2 n
  else 0xdd :: Bytes.bigEndian 4 n

/-- A double: its bits behind the marker. -/
def float64 (bits : UInt64) : Bytes := 0xcb :: Bytes.bigEndian 8 bits.toNat

theorem binary_binHeader {data : Bytes} (h : data.length < 2 ^ 32) : Binary (binHeader data.length ++ data) data := by
  unfold binHeader
  split
  · exact .bin8 (Bytes.length_bigEndian ..) (Bytes.value_bigEndian (by omega)).symm
  · split
    · exact .bin16 (Bytes.length_bigEndian ..) (Bytes.value_bigEndian (by omega)).symm
    · exact .bin32 (Bytes.length_bigEndian ..) (Bytes.value_bigEndian (by omega)).symm

theorem arrayHeader_header {n : Nat} (h : n < 2 ^ 32) : ArrayHeader (arrayHeader n) n := by
  unfold arrayHeader
  split
  · rename_i hfix
    have hmark : ∀ m : Fin 16, (0x90 ||| UInt8.ofNat m.1) &&& 0xf0 = 0x90 ∧ ((0x90 ||| UInt8.ofNat m.1) &&& 0x0f).toNat = m.1 := by
      decide
    have hfix : ArrayHeader [0x90 ||| UInt8.ofNat n] ((0x90 ||| UInt8.ofNat n) &&& 0x0f).toNat := .fix (hmark ⟨n, hfix⟩).1
    rwa [(hmark ⟨n, ‹_›⟩).2] at hfix
  · split
    · have hvalue : Bytes.value (Bytes.bigEndian 2 n) = n := Bytes.value_bigEndian (by omega)
      have harray : ArrayHeader (0xdc :: Bytes.bigEndian 2 n) (Bytes.value (Bytes.bigEndian 2 n)) :=
        .array16 (Bytes.length_bigEndian ..)
      rwa [hvalue] at harray
    · have hvalue : Bytes.value (Bytes.bigEndian 4 n) = n := Bytes.value_bigEndian (by omega)
      have harray : ArrayHeader (0xdd :: Bytes.bigEndian 4 n) (Bytes.value (Bytes.bigEndian 4 n)) :=
        .array32 (Bytes.length_bigEndian ..)
      rwa [hvalue] at harray

theorem arrayHeader_cons {marker : UInt8} {w : Bytes} {n : Nat} : ArrayHeader (marker :: w) n ↔
    marker &&& 0xf0 = 0x90 ∧ w = [] ∧ n = (marker &&& 0x0f).toNat ∨ marker = 0xdc ∧ w.length = 2 ∧ n = w.value ∨
      marker = 0xdd ∧ w.length = 4 ∧ n = w.value := by
  constructor
  · intro h
    cases h with
    | fix hm => exact .inl ⟨hm, rfl, rfl⟩
    | array16 hlen => exact .inr (.inl ⟨rfl, hlen, rfl⟩)
    | array32 hlen => exact .inr (.inr ⟨rfl, hlen, rfl⟩)
  · rintro (⟨hm, rfl, rfl⟩ | ⟨rfl, hlen, rfl⟩ | ⟨rfl, hlen, rfl⟩)
    · exact .fix hm
    · exact .array16 hlen
    · exact .array32 hlen

theorem ArrayHeader.lt {w : Bytes} {n : Nat} (h : ArrayHeader w n) : n < 2 ^ 32 := by
  cases h with
  | @fix marker => exact Nat.lt_trans (marker &&& 0x0f).toNat_lt (by decide)
  | @array16 len hlen | @array32 len hlen =>
    have hlt := len.value_lt
    rw [hlen] at hlt
    omega

/-! ## Numbers in headers -/

/-- Where the number of a header is: in its marker, in so many bytes behind it, or there with a sign bit. -/
inductive Number
  | inMarker (n : Nat)
  | behind (width : Nat)
  | signed (width : Nat)
  | missing

/-- The bytes behind the marker, and the number. A negative one is no number here. -/
def Number.Word : Number → Bytes → Nat → Prop
  | .inMarker k, w, n => w = [] ∧ n = k
  | .behind width, w, n => w.length = width ∧ n = w.value
  | .signed width, w, n => w.length = width ∧ n = w.value ∧ n < 2 ^ (8 * width - 1)
  | .missing, _, _ => False

def mapLength (marker : UInt8) : Number :=
  if 0x80 ≤ marker ∧ marker ≤ 0x8f then .inMarker (marker.toNat - 0x80)
  else if marker = 0xde then .behind 2
  else if marker = 0xdf then .behind 4
  else .missing

def arrayLength (marker : UInt8) : Number :=
  if 0x90 ≤ marker ∧ marker ≤ 0x9f then .inMarker (marker.toNat - 0x90)
  else if marker = 0xdc then .behind 2
  else if marker = 0xdd then .behind 4
  else .missing

def textLength (marker : UInt8) : Number :=
  if 0xa0 ≤ marker ∧ marker ≤ 0xbf then .inMarker (marker.toNat - 0xa0)
  else if marker = 0xd9 then .behind 1
  else if marker = 0xda then .behind 2
  else if marker = 0xdb then .behind 4
  else .missing

def binaryLength (marker : UInt8) : Number :=
  if marker = 0xc4 then .behind 1
  else if marker = 0xc5 then .behind 2
  else if marker = 0xc6 then .behind 4
  else .missing

/-- Integers of every width, as far as they are not negative. -/
def unsigned (marker : UInt8) : Number :=
  if marker ≤ 0x7f then .inMarker marker.toNat
  else if marker = 0xcc then .behind 1
  else if marker = 0xcd then .behind 2
  else if marker = 0xce then .behind 4
  else if marker = 0xcf then .behind 8
  else if marker = 0xd0 then .signed 1
  else if marker = 0xd1 then .signed 2
  else if marker = 0xd2 then .signed 4
  else if marker = 0xd3 then .signed 8
  else .missing

/-- A header of one of these kinds, and the number it holds. -/
def Header (number : UInt8 → Number) : Bytes → Nat → Prop
  | [], _ => False
  | marker :: w, n => (number marker).Word w n

/-- Bytes behind a header with their length. -/
def Counted (number : UInt8 → Number) (w b : Bytes) : Prop := ∃ head, Header number head b.length ∧ w = head ++ b

/-- The number is in one byte, or in as many as the widest form has. -/
theorem Header.lt {number : UInt8 → Number} (width : Nat) (hwidth : ∀ marker : UInt8, match number marker with
    | .inMarker n => n < 256 ^ width
    | .behind k | .signed k => k ≤ width
    | .missing => True) {w : Bytes} {n : Nat} (h : Header number w n) : n < 256 ^ width := by
  cases w with
  | nil => exact h.elim
  | cons marker w =>
    have hwidth := hwidth marker
    have hword : (number marker).Word w n := h
    have hvalue := Bytes.value_lt w
    generalize number marker = form at hwidth hword
    cases form with
    | inMarker k => exact hword.2 ▸ hwidth
    | behind k =>
      obtain ⟨hlen, rfl⟩ := hword
      exact Nat.lt_of_lt_of_le hvalue (Nat.pow_le_pow_right (by decide) (hlen ▸ hwidth))
    | signed k =>
      obtain ⟨hlen, rfl, -⟩ := hword
      exact Nat.lt_of_lt_of_le hvalue (Nat.pow_le_pow_right (by decide) (hlen ▸ hwidth))
    | missing => exact hword.elim

theorem Counted.length_lt {w b : Bytes} (h : Counted binaryLength w b) : b.length < 2 ^ 32 := by
  obtain ⟨head, hhead, -⟩ := h
  refine hhead.lt 4 fun marker => ?_
  unfold binaryLength
  grind

theorem unsigned_lt {w : Bytes} {n : Nat} (h : Header unsigned w n) : n < 2 ^ 64 := by
  refine h.lt 8 fun marker => ?_
  have hmarker : marker.toNat < 256 ^ 8 := Nat.lt_trans marker.toNat_lt (by decide)
  unfold unsigned
  grind

/-- A byte string in the `bin` format is shorter than four gigabytes. -/
theorem Binary.length_lt {w data : Bytes} (h : Binary w data) : data.length < 2 ^ 32 := by
  cases h with
  | bin8 hlen hdata | bin16 hlen hdata | bin32 hlen hdata =>
    rename_i len
    have hlt := len.value_lt
    rw [hlen] at hlt
    omega

end MessagePack
