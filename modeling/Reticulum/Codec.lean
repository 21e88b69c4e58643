import Reticulum.Packet

/-!
# The packet codec

A decoded packet is well formed, and a well-formed packet decodes from its
encoding. The packet hash and the link id see only the fields a relay keeps.
-/

namespace Reticulum

theorem u8_lt_two {x : UInt8} (h : x < 2) : x = 0 ∨ x = 1 := by grind

theorem u8_lt_four {x : UInt8} (h : x < 4) : x = 0 ∨ x = 1 ∨ x = 2 ∨ x = 3 := by grind

theorem u8_and_lt (x y : UInt8) (h : y < 4) : x &&& y < y + 1 := by
  have hy : y.toNat < 4 := by simpa [UInt8.lt_iff_toNat_lt] using h
  rw [UInt8.lt_iff_toNat_lt, UInt8.toNat_and, UInt8.toNat_add]
  have : x.toNat &&& y.toNat ≤ y.toNat := Nat.and_le_right
  simp; omega

namespace Packet

/-- The values the header bits and the address fields can take. -/
structure WellFormed (p : Packet) : Prop where
  headerType : p.headerType < 2
  packetType : p.packetType < 4
  destType : p.destType < 4
  propagation : p.propagation < 2
  destHash : p.destHash.length = 16
  transportId : p.transportId.isSome = true ↔ p.headerType = HEADER_2

theorem flags_bits (ht pt dt pr : UInt8) (i c : Bool) (hht : ht < 2) (hpt : pt < 4) (hdt : dt < 4) (hpr : pr < 2) :
    let f := (i.toUInt8 <<< 7) ||| ((ht &&& 0x1) <<< 6) ||| (c.toUInt8 <<< 5) ||| ((pr &&& 0x1) <<< 4) |||
      ((dt &&& 0x3) <<< 2) ||| (pt &&& 0x3)
    (f >>> 6) &&& 1 = ht ∧ decide ((f >>> 7) &&& 1 = 1) = i ∧ decide ((f >>> 5) &&& 1 = 1) = c ∧
      (f >>> 4) &&& 1 = pr ∧ (f >>> 2) &&& 3 = dt ∧ f &&& 3 = pt := by
  rcases u8_lt_two hht with rfl | rfl <;> rcases u8_lt_four hpt with rfl | rfl | rfl | rfl <;>
    rcases u8_lt_four hdt with rfl | rfl | rfl | rfl <;> rcases u8_lt_two hpr with rfl | rfl <;>
    cases i <;> cases c <;> decide

theorem decode_encode {p : Packet} (h : p.WellFormed) : decode p.encode = .ok p := by
  obtain ⟨hht, hpt, hdt, hpr, hlen, htr⟩ := h
  obtain ⟨ht, pt, dt, pr, c, i, hops, tr, dest, ctx, data⟩ := p
  dsimp only at hht hpt hdt hpr hlen htr
  obtain ⟨h6, h7, h5, h4, h2, h0⟩ := flags_bits ht pt dt pr i c hht hpt hdt hpr
  rcases u8_lt_two hht with rfl | rfl
  · -- HEADER_1: no transport id
    have : tr = none := by cases tr <;> simp_all [HEADER_2]
    subst this
    simp only [encode, flags, decode, h6, h7, h5, h4, h2, h0, HEADER_1, HEADER_2, ADDR_LEN, if_true,
      show ¬ (0 : UInt8) = 1 by decide, if_false, List.nil_append]
    rw [List.drop_left' hlen, List.take_left' hlen]
  · -- HEADER_2: the transport id stands before the destination
    obtain ⟨t, rfl⟩ : ∃ t, tr = some t := by cases tr <;> simp_all [HEADER_2]
    simp only [encode, flags, decode, h6, h7, h5, h4, h2, h0, HEADER_1, HEADER_2, ADDR_LEN, if_true,
      show ¬ (1 : UInt8) = 0 by decide, if_false, List.append_assoc]
    have hcut : (t.1 ++ (dest ++ ctx :: data)).drop (16 * 2) = ctx :: data := by
      rw [show 16 * 2 = 16 + 16 by rfl, ← List.drop_drop, List.drop_left' t.2, List.drop_left' hlen]
    rw [hcut, List.take_left' t.2, List.drop_left' t.2, List.take_left' hlen]
    simp

theorem decode_cases {b : Bytes} {p : Packet} (h : decode b = .ok p) :
    ∃ flags hops rest, b = flags :: hops :: rest ∧ p.hops = hops ∧
      p.headerType = (flags >>> 6) &&& 0x1 ∧ p.propagation = (flags >>> 4) &&& 0x1 ∧
      p.destType = (flags >>> 2) &&& 0x3 ∧ p.packetType = flags &&& 0x3 ∧
      (if p.headerType = HEADER_1 then ADDR_LEN else ADDR_LEN * 2) + 1 ≤ rest.length ∧
      p.transportId = (if p.headerType = HEADER_2 then Arr.ofSlice? 16 (rest.take ADDR_LEN) else none) ∧
      p.destHash = if p.headerType = HEADER_2 then (rest.drop ADDR_LEN).take ADDR_LEN else rest.take ADDR_LEN := by
  unfold decode at h
  split at h
  · rename_i flags hops rest
    dsimp only at h
    split at h
    · cases h
    · rename_i context data hdrop
      cases h
      refine ⟨flags, hops, rest, rfl, rfl, rfl, rfl, rfl, rfl, ?_, rfl, rfl⟩
      have hl := congrArg List.length hdrop
      rw [List.length_drop, List.length_cons] at hl
      dsimp only
      omega
  · cases h

theorem decode_wellFormed {b : Bytes} {p : Packet} (h : decode b = .ok p) : p.WellFormed := by
  obtain ⟨flags, hops, rest, rfl, -, hht, hpr, hdt, hpt, hlen, htr, hdest⟩ := decode_cases h
  have hlt : p.headerType < 2 := hht ▸ u8_and_lt _ _ (by decide)
  have hnot : p.headerType = HEADER_1 ↔ ¬ p.headerType = HEADER_2 := by
    rcases u8_lt_two hlt with h0 | h0 <;> simp [h0, HEADER_1, HEADER_2]
  refine ⟨hlt, hpt ▸ u8_and_lt _ _ (by decide), hdt ▸ u8_and_lt _ _ (by decide), hpr ▸ u8_and_lt _ _ (by decide),
    ?_, ?_⟩
  · rw [hdest]
    split at hlen <;> simp_all [ADDR_LEN] <;> omega
  · rw [htr]
    by_cases h2 : p.headerType = HEADER_2
    · have h1 : p.headerType ≠ HEADER_1 := fun h1 => hnot.mp h1 h2
      simp only [h1, if_false, ADDR_LEN] at hlen
      have : (rest.take ADDR_LEN).length = 16 := by simp [ADDR_LEN]; omega
      simp [h2, Arr.ofSlice?_of_length this]
    · simp [h2]

theorem WellFormed.withHops {p : Packet} (h : p.WellFormed) (hops : UInt8) : WellFormed { p with hops := hops } :=
  ⟨h.1, h.2, h.3, h.4, h.5, h.6⟩

theorem wellFormed_newHeader1 {dt pt : UInt8} (hd : dt < 4) (hp : pt < 4) (d : Arr 16) (c : UInt8) (data : Bytes) :
    (newHeader1 dt pt d c data).WellFormed :=
  ⟨(by decide : HEADER_1 < 2), hp, hd, (by decide : BROADCAST < 2), d.2, by simp [newHeader1]; decide⟩

theorem wellFormed_announce (d : Arr 16) (payload : Bytes) : (announce d payload).WellFormed :=
  ⟨(by decide : HEADER_1 < 2), (by decide : ANNOUNCE < 4), (by decide : SINGLE < 4), (by decide : (0 : UInt8) < 2), d.2,
    by simp [announce]; decide⟩

/-- Readdressing to a relay keeps a packet well formed. -/
theorem WellFormed.toHeader2 {p : Packet} (h : p.WellFormed) (t : Arr 16) :
    WellFormed { p with headerType := HEADER_2, propagation := TRANSPORT, transportId := some t } :=
  ⟨(by decide : HEADER_2 < 2), h.2, h.3, (by decide : TRANSPORT < 2), h.5, by simp⟩

theorem WellFormed.toHeader1 {p : Packet} (h : p.WellFormed) :
    WellFormed { p with headerType := HEADER_1, propagation := BROADCAST, transportId := none } :=
  ⟨(by decide : HEADER_1 < 2), h.2, h.3, (by decide : BROADCAST < 2), h.5, by simp; decide⟩

theorem WellFormed.withTransportId {p : Packet} (h : p.WellFormed) (h2 : p.headerType = HEADER_2) (t : Arr 16) :
    WellFormed { p with transportId := some t } :=
  ⟨h.1, h.2, h.3, h.4, h.5, by simp [h2]⟩

/-! ## Frames and packets one to one -/

/-- The bytes of the flags, the hop count, the addresses and the context. -/
def headerLength (b : Bytes) : Nat :=
  match b with
  | flags :: _ => if (flags >>> 6) &&& 0x1 = HEADER_1 then 19 else 35
  | [] => 19

theorem decode_accepts_iff (b : Bytes) : (∃ p, decode b = .ok p) ↔ headerLength b ≤ b.length := by
  constructor
  · rintro ⟨p, h⟩
    obtain ⟨flags, hops, rest, rfl, -, hht, -, -, -, hlen, -⟩ := decode_cases h
    rw [hht] at hlen
    simp only [headerLength, List.length_cons, ADDR_LEN] at hlen ⊢
    split at hlen <;> split <;> omega
  · intro h
    unfold decode
    cases b with
    | nil => simp [headerLength] at h
    | cons flags b =>
      cases b with
      | nil =>
        simp only [headerLength, List.length_cons, List.length_nil] at h
        split at h <;> omega
      | cons hops rest =>
        simp only [headerLength, List.length_cons] at h
        dsimp only
        split
        · rename_i hdrop
          rw [List.drop_eq_nil_iff, ADDR_LEN] at hdrop
          split at h <;> split at hdrop <;> omega
        · exact ⟨_, rfl⟩

/-- The fields of the flags byte make it up again. -/
theorem flags_rebuild (f : UInt8) :
    ((decide ((f >>> 7) &&& 0x1 = 1)).toUInt8 <<< 7) ||| ((((f >>> 6) &&& 0x1) &&& 0x1) <<< 6) |||
      ((decide ((f >>> 5) &&& 0x1 = 1)).toUInt8 <<< 5) ||| ((((f >>> 4) &&& 0x1) &&& 0x1) <<< 4) |||
      ((((f >>> 2) &&& 0x3) &&& 0x3) <<< 2) ||| ((f &&& 0x3) &&& 0x3) = f := by
  have hall : ∀ x : BitVec 8, let f := UInt8.ofBitVec x
      ((decide ((f >>> 7) &&& 0x1 = 1)).toUInt8 <<< 7) ||| ((((f >>> 6) &&& 0x1) &&& 0x1) <<< 6) |||
        ((decide ((f >>> 5) &&& 0x1 = 1)).toUInt8 <<< 5) ||| ((((f >>> 4) &&& 0x1) &&& 0x1) <<< 4) |||
        ((((f >>> 2) &&& 0x3) &&& 0x3) <<< 2) ||| ((f &&& 0x3) &&& 0x3) = f := by decide +kernel
  exact hall f.toBitVec

theorem encode_decode {b : Bytes} {p : Packet} (h : decode b = .ok p) : p.encode = b := by
  unfold decode at h
  split at h
  · rename_i flags hops rest
    dsimp only at h
    split at h
    · cases h
    · rename_i context data hdrop
      cases h
      have hflags := flags_rebuild flags
      unfold encode Packet.flags
      dsimp only
      rw [hflags]
      by_cases h2 : (flags >>> 6) &&& 0x1 = HEADER_2
      · -- the transport id, the destination and the rest, one after the other
        have h1 : ¬ (flags >>> 6) &&& 0x1 = HEADER_1 := by
          rw [h2]
          decide
        rw [if_neg h1] at hdrop
        have hlen : (rest.take ADDR_LEN).length = 16 := by
          have hl := congrArg List.length hdrop
          rw [List.length_drop, List.length_cons, ADDR_LEN] at hl
          rw [List.length_take, ADDR_LEN]
          omega
        have hrest : (rest.drop ADDR_LEN).drop ADDR_LEN = context :: data := by
          rw [List.drop_drop, ← hdrop]
          rfl
        rw [if_pos h2, if_pos h2, Arr.ofSlice?_of_length hlen]
        dsimp only
        rw [← hrest, List.append_assoc, if_pos h2, List.take_append_drop, List.take_append_drop]
      · have h1 : (flags >>> 6) &&& 0x1 = HEADER_1 := by
          rcases u8_lt_two (u8_and_lt (flags >>> 6) 1 (by decide)) with h | h
          · exact h
          · exact absurd h h2
        rw [if_pos h1] at hdrop
        rw [if_neg h2, if_neg h2, List.nil_append, ← hdrop, List.take_append_drop]
  · cases h

/-- Decoding takes exactly the byte strings that hold a whole header, and is a bijection of them with the packets that are
well formed. -/
theorem codec_bijective :
    (∀ b, (∃ p, decode b = .ok p) ↔ headerLength b ≤ b.length) ∧ (∀ b p, decode b = .ok p → p.encode = b) ∧
      ∀ p : Packet, p.WellFormed → decode p.encode = .ok p :=
  ⟨decode_accepts_iff, fun _ _ => encode_decode, fun _ => decode_encode⟩

/-- A packet on its way over a transport node, with every flag set. -/
def onItsWay : Packet where
  headerType := HEADER_2
  packetType := ANNOUNCE
  destType := GROUP
  propagation := TRANSPORT
  contextFlag := true
  ifac := true
  hops := 5
  transportId := some ⟨List.replicate 16 7, rfl⟩
  destHash := List.replicate 16 9
  context := PATH_RESPONSE
  data := [1, 2, 3]

theorem codec_bijective_onItsWay : decode onItsWay.encode = .ok onItsWay :=
  codec_bijective.2.2 _ ⟨by decide, by decide, by decide, by decide, rfl, by decide⟩

end Packet

end Reticulum
