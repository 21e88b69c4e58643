import Reticulum.WireFormat

/-!
# Skipping a value

`skip_value` moves over one value of the MessagePack format that nests less
than 64 levels deep, and over nothing else. It stays within the input, and a
count that promises more values than there are bytes left does not matter.
-/

namespace Reticulum

open Cursor

namespace Lxmf

/-! ## Where the skipper goes -/

theorem advances_takeByte : Advances takeByte := by
  intro input p
  simp only [takeByte]
  split
  · rename_i byte hbyte
    have hlt := (List.getElem?_eq_some_iff.mp hbyte).1
    dsimp only
    omega
  · dsimp only
    omega

theorem advances_take (length : Nat) : Advances (take · length) := by
  intro input p
  simp only [take]
  split
  · dsimp only
    omega
  · dsimp only
    omega

theorem advances_pass (length : Nat) : Advances (pass · length) :=
  (advances_take length).bind fun _ => advances_pure ()

theorem advances_readU16 : Advances readU16 := (advances_take 2).bind fun bytes => advances_pure (UInt16.ofNat bytes.value)

theorem advances_readU32 : Advances readU32 := (advances_take 4).bind fun bytes => advances_pure (UInt32.ofNat bytes.value)

theorem advances_skipAt {skip : Bytes → Cursor CoreError Unit} (hskip : Advances skip) (marker : UInt8) :
    Advances fun input => skipAt input (skip input) marker := by
  unfold skipAt
  repeat' refine .ite ?_ ?_
  all_goals first
    | exact advances_pure ()
    | exact advances_fail _
    | exact hskip.times _
    | exact advances_pass _
    | exact advances_takeByte.bind fun length => advances_pass _
    | exact advances_readU16.bind fun length => advances_pass _
    | exact advances_readU32.bind fun length => advances_pass _
    | exact advances_readU16.bind fun count => hskip.times _
    | exact advances_readU32.bind fun count => hskip.times _

theorem advances_skipValue (levels : Nat) : Advances (skipValue · levels) := by
  induction levels with
  | zero => exact advances_fail _
  | succ levels ih => exact advances_takeByte.bind fun marker => advances_skipAt ih marker

/-! ## What the skipper moves over -/

variable {input : Bytes} {p q : Nat}

theorem skipValue_eq_ok_iff {levels : Nat} : (skipValue input levels).run p = (.ok (), q) ↔
    ∃ w, MessagePack.Value levels w ∧ w <+: input.drop p ∧ q = p + w.length := by
  by_cases hp : p ≤ input.length
  · exact recognises_skipValue levels input p () q hp
  · have hdrop : input.drop p = [] := List.drop_of_length_le (by omega)
    constructor
    · intro h
      cases levels with
      | zero => cases h
      | succ levels =>
        obtain ⟨marker, r, hbyte, -⟩ := bind_eq_ok.mp h
        have hnone : input[p]? = none := List.getElem?_eq_none_iff.mpr (by omega)
        simp [takeByte, hnone] at hbyte
    · rintro ⟨w, hw, hpre, -⟩
      have hpos := hw.length_pos
      rw [hdrop] at hpre
      rw [List.prefix_nil.mp hpre] at hpos
      exact absurd hpos (Nat.lt_irrefl 0)

/-- Two values at the start of one text are the same, however deep they nest. -/
theorem value_unique {m n : Nat} {w w' : Bytes} (h : MessagePack.Value m w) (h' : MessagePack.Value n w')
    (hpre : w <+: w' ∨ w' <+: w) : w = w' := by
  have h := h.mono (Nat.le_max_left m n)
  have h' := h'.mono (Nat.le_max_right m n)
  have hfree {u v : Bytes} (hu : MessagePack.Value (max m n) u) (hv : MessagePack.Value (max m n) v) (hpre : u <+: v) : u = v := by
    have hsame : u = v ∧ () = () := (recognises_skipValue (max m n)).prefix_free hu hv hpre
    exact hsame.1
  rcases hpre with hpre | hpre
  · exact hfree h h' hpre
  · exact (hfree h' h hpre).symm

/-- Where the input holds a value, or the beginning of one, all of it has to be there and it must not nest too deep. -/
theorem skipValue_at_value {n levels : Nat} {w : Bytes} (hw : MessagePack.Value n w)
    (hpre : w <+: input.drop p ∨ input.drop p <+: w) (h : (skipValue input levels).run p = (.ok (), q)) :
    MessagePack.Value levels w ∧ w <+: input.drop p := by
  obtain ⟨w', hw', hpre', -⟩ := skipValue_eq_ok_iff.mp h
  have hsame : w' = w := by
    rcases hpre with hpre | hpre
    · exact value_unique hw' hw (List.prefix_or_prefix_of_prefix hpre' hpre)
    · exact value_unique hw' hw (.inl (hpre'.trans hpre))
  exact hsame ▸ ⟨hw', hpre'⟩

theorem run_eq_error {f : Cursor CoreError Unit} (h : ∀ q, f.run p ≠ (.ok (), q)) : ∃ e q, f.run p = (.error e, q) := by
  cases hrun : f.run p with
  | mk result q =>
    cases result with
    | error e => exact ⟨e, q, rfl⟩
    | ok _ => exact absurd hrun (h q)

theorem skipValue_progress {levels : Nat} : ∀ p q, (skipValue input levels).run p = (.ok (), q) → p < q ∧ q ≤ input.length := by
  intro p q h
  obtain ⟨w, hw, hpre, rfl⟩ := skipValue_eq_ok_iff.mp h
  have hpos := hw.length_pos
  have hle := hpre.length_le
  rw [List.length_drop] at hle
  omega

/-- The skipper succeeds just where a value that nests less than 64 levels deep stands, and moves to its end. It fails on
the reserved byte, on a value cut short and on one that nests deeper, it stays within the input, and no count makes it
try more values than there are bytes left and one. -/
theorem skipValue_exact (input : Bytes) (p : Nat) :
    (∀ q, (skipValue input 64).run p = (.ok (), q) ↔
      ∃ w, MessagePack.Value 64 w ∧ w <+: input.drop p ∧ q = p + w.length) ∧
    (input[p]? = some 0xc1 → (skipValue input 64).run p = (.error .invalidField, p + 1)) ∧
    (∀ n w, MessagePack.Value n w → input.drop p <+: w → input.drop p ≠ w → ∃ e q, (skipValue input 64).run p = (.error e, q)) ∧
    (∀ n w, MessagePack.Value n w → ¬ MessagePack.Value 64 w → w <+: input.drop p →
      ∃ e q, (skipValue input 64).run p = (.error e, q)) ∧
    (p ≤ ((skipValue input 64).run p).2 ∧ ((skipValue input 64).run p).2 ≤ max p input.length) ∧
    (∀ levels n, input.length - p < n → ((skipValue input levels).times n).run p =
      ((skipValue input levels).times (input.length - p + 1)).run p) ∧
    ∀ w rest, MessagePack.Value 64 w → input.drop p = w ++ rest → (skipValue input 64).run p = (.ok (), p + w.length) := by
  refine ⟨fun q => skipValue_eq_ok_iff, fun hbyte => ?_, fun n w hw hpre hne => ?_, fun n w hw hdeep hpre => ?_,
    advances_skipValue 64 input p, fun levels n hn => ?_, fun w rest hw hdrop => ?_⟩
  · have htake : (takeByte input).run p = (.ok 0xc1, p + 1) := by simp [takeByte, hbyte]
    exact run_bind_ok htake
  · refine run_eq_error fun q h => hne ?_
    have hwhole := (skipValue_at_value hw (.inr hpre) h).2
    exact hpre.eq_of_length_le hwhole.length_le
  · refine run_eq_error fun q h => hdeep ?_
    exact (skipValue_at_value hw (.inl hpre) h).1
  · exact times_congr skipValue_progress hn (Nat.lt_succ_self _)
  · exact skipValue_eq_ok_iff.mpr ⟨w, hw, hdrop ▸ List.prefix_append w rest, rfl⟩

/-- A `nil` in so many arrays of one value. -/
def boxes (depth : Nat) : Bytes := List.replicate depth 0x91 ++ [0xc0]

theorem value_boxes_iff {depth levels : Nat} : MessagePack.Value levels (boxes depth) ↔ depth < levels := by
  have hnil : MessagePack.shape 0xc0 = .plain 0 := by decide
  have hbox : MessagePack.shape 0x91 = .nested 1 := by decide
  induction levels generalizing depth with
  | zero => exact iff_of_false id (Nat.not_lt_zero depth)
  | succ levels ih =>
    cases depth with
    | zero =>
      refine iff_of_true ⟨0xc0, [], rfl, ?_⟩ (Nat.succ_pos levels)
      rw [hnil]
      rfl
    | succ depth =>
      have hinner : MessagePack.Value levels (boxes depth) ↔ depth < levels := ih
      rw [Nat.succ_lt_succ_iff, ← hinner]
      constructor
      · rintro ⟨marker, body, heq, hbody⟩
        obtain ⟨rfl, rfl⟩ := List.cons.inj heq
        rw [hbox] at hbody
        obtain ⟨u, v, huv, hu, rfl⟩ := hbody
        have hsame : boxes depth = u := huv.trans (List.append_nil u)
        exact hsame ▸ hu
      · intro h
        refine ⟨0x91, boxes depth, rfl, ?_⟩
        rw [hbox]
        exact ⟨boxes depth, [], (List.append_nil _).symm, h, rfl⟩

/-- A map with an array in it. -/
def sampleMap : Bytes := [0x82, 0xa1, 0x61, 0xc0, 0x01, 0x92, 0xc3, 0x05]

theorem value_sampleMap : MessagePack.Value 64 sampleMap := by
  have hflat (b : UInt8) (rest : Bytes) (h : MessagePack.shape b = .plain rest.length) (n : Nat) :
      MessagePack.Value (n + 1) (b :: rest) := ⟨b, rest, rfl, h ▸ rfl⟩
  have harray : MessagePack.Value 63 [0x92, 0xc3, 0x05] :=
    ⟨0x92, _, rfl, [0xc3], _, rfl, hflat _ [] (by decide) _, [0x05], _, rfl, hflat _ [] (by decide) _, rfl⟩
  exact ⟨0x82, _, rfl, [0xa1, 0x61], _, rfl, hflat _ [0x61] (by decide) _, [0xc0], _, rfl, hflat _ [] (by decide) _,
    [0x01], _, rfl, hflat _ [] (by decide) _, _, [], rfl, harray, rfl⟩

/-- The map is skipped where it stands, but not when its last byte is missing; and 63 arrays are skipped, but not 64. -/
theorem skipValue_exact_sampleMap :
    (skipValue (7 :: (sampleMap ++ [9])) 64).run 1 = (.ok (), 9) ∧
    (∃ e q, (skipValue (7 :: sampleMap.dropLast) 64).run 1 = (.error e, q)) ∧
    (skipValue (boxes 63) 64).run 0 = (.ok (), 64) ∧
    (∃ e q, (skipValue (boxes 64) 64).run 0 = (.error e, q)) ∧
    (skipValue [7, 0xc1] 64).run 1 = (.error .invalidField, 2) ∧
    ((skipValue [0xc0, 0xc0] 64).times 4294967295).run 0 = ((skipValue [0xc0, 0xc0] 64).times 3).run 0 := by
  obtain ⟨-, -, -, -, -, -, hvalue⟩ := skipValue_exact (7 :: (sampleMap ++ [9])) 1
  obtain ⟨-, -, hshort, -⟩ := skipValue_exact (7 :: sampleMap.dropLast) 1
  obtain ⟨hboxes, -⟩ := skipValue_exact (boxes 63) 0
  obtain ⟨-, -, -, hdeep, -⟩ := skipValue_exact (boxes 64) 0
  obtain ⟨-, hreserved, -⟩ := skipValue_exact [7, 0xc1] 1
  obtain ⟨-, -, -, -, -, hcount, -⟩ := skipValue_exact [0xc0, 0xc0] 0
  refine ⟨hvalue sampleMap [9] value_sampleMap rfl, hshort 64 sampleMap value_sampleMap ⟨[0x05], rfl⟩ (by decide),
    (hboxes 64).mpr ⟨boxes 63, value_boxes_iff.mpr (by decide), List.prefix_rfl, ?_⟩, ?_, hreserved rfl,
    hcount 64 4294967295 (by decide)⟩
  · simp only [boxes, List.length_append, List.length_replicate, List.length_singleton]
  · exact hdeep 65 (boxes 64) (value_boxes_iff.mpr (by decide)) (fun h => absurd (value_boxes_iff.mp h) (by decide))
      List.prefix_rfl

end Lxmf

end Reticulum
