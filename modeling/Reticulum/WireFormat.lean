import Reticulum.Message
import Reticulum.Sample

/-!
# What the LXMF reader accepts

Each hand-written reader recognises one form of the MessagePack format, and
the skipper just the values that nest less than 64 levels deep. So a packed
message is cut where it was joined, and no accepted message continues another.
-/

namespace Reticulum

open Cursor

namespace Lxmf

/-! ## What the readers recognise -/

theorem recognises_takeByte : Recognises takeByte fun w byte => w = [byte] := by
  intro input p b q hp
  simp only [takeByte]
  constructor
  · intro h
    split at h
    · rename_i byte hget
      cases h
      obtain ⟨hlt, hget⟩ := List.getElem?_eq_some_iff.mp hget
      exact ⟨[b], rfl, by rw [List.drop_eq_getElem_cons hlt, hget]; simp, rfl⟩
    · cases h
  · rintro ⟨_, rfl, ⟨rest, hpre⟩, rfl⟩
    have hget : input[p]? = some b := by
      have hzero : (input.drop p)[0]? = some b := by rw [← hpre]; rfl
      rwa [List.getElem?_drop, Nat.add_zero] at hzero
    rw [hget]
    rfl

theorem recognises_take (length : Nat) : Recognises (take · length) fun (w b : Bytes) => w = b ∧ b.length = length := by
  intro input p b q hp
  simp only [take]
  constructor
  · intro h
    split at h
    · cases h
      refine ⟨_, ⟨rfl, ?_⟩, List.take_prefix .., ?_⟩ <;> rw [List.length_take, List.length_drop] <;> omega
    · cases h
  · rintro ⟨w, ⟨rfl, rfl⟩, ⟨rest, hpre⟩, rfl⟩
    have hlen : p + w.length ≤ input.length := by
      have := congrArg List.length hpre
      rw [List.length_append, List.length_drop] at this
      omega
    rw [if_pos hlen, ← hpre, List.take_left]

/-- The reader of a big-endian number of so many bytes. -/
structure ReadsNumber {α : Type} (read : Bytes → Cursor CoreError α) (toNat : α → Nat) (width : Nat) : Prop where
  recognises : Recognises read fun (w : Bytes) n => w.length = width ∧ toNat n = w.value
  onto : ∀ n, n < 256 ^ width → ∃ a, toNat a = n

theorem readsNumber_word {α : Type} (width : Nat) {ofNat : Nat → α} {toNat : α → Nat}
    (hto : ∀ n, n < 256 ^ width → toNat (ofNat n) = n) (hof : ∀ a, ofNat (toNat a) = a) :
    ReadsNumber (fun input => take input width >>= fun bytes => (pure (ofNat bytes.value) : Cursor CoreError α))
      toNat width := by
  refine ⟨((recognises_take width).bind fun bytes => recognises_pure (ofNat bytes.value)).congr fun w n => ⟨?_, ?_⟩,
    fun n hn => ⟨ofNat n, hto n hn⟩⟩
  · rintro ⟨_, u, _, rfl, ⟨rfl, hlen⟩, rfl, rfl⟩
    rw [List.append_nil]
    exact ⟨hlen, hto _ (hlen ▸ Bytes.value_lt u)⟩
  · rintro ⟨hlen, hn⟩
    exact ⟨w, w, [], (List.append_nil w).symm, ⟨rfl, hlen⟩, rfl, by rw [← hn, hof]⟩

theorem readsNumber_takeByte : ReadsNumber takeByte UInt8.toNat 1 := by
  refine ⟨recognises_takeByte.congr fun w n => ⟨?_, ?_⟩, fun n hn => ⟨UInt8.ofNat n, UInt8.toNat_ofNat_of_lt' hn⟩⟩
  · rintro rfl
    simp [Bytes.value]
  · rintro ⟨hlen, hn⟩
    obtain ⟨x, rfl⟩ := List.length_eq_one_iff.mp hlen
    have hx : n.toNat = x.toNat := by simpa [Bytes.value] using hn
    rw [UInt8.toNat_inj.mp hx]

theorem readsNumber_readU16 : ReadsNumber readU16 UInt16.toNat 2 :=
  readsNumber_word 2 (fun _ h => UInt16.toNat_ofNat_of_lt' h) fun _ => UInt16.ofNat_toNat

theorem readsNumber_readU32 : ReadsNumber readU32 UInt32.toNat 4 :=
  readsNumber_word 4 (fun _ h => UInt32.toNat_ofNat_of_lt' h) fun _ => UInt32.ofNat_toNat

theorem readsNumber_readU64 : ReadsNumber readU64 UInt64.toNat 8 :=
  readsNumber_word 8 (fun _ h => UInt64.toNat_ofNat_of_lt' h) fun _ => UInt64.ofNat_toNat

section
variable {α β : Type} {read : Bytes → Cursor CoreError α} {toNat : α → Nat} {width : Nat} (hread : ReadsNumber read toNat width)
include hread

/-- A number, and then what it stands for. -/
theorem ReadsNumber.bind {g : Nat → Bytes → Cursor CoreError β} {S : Nat → Bytes → β → Prop} (hg : ∀ n, Recognises (g n) (S n)) :
    Recognises (fun input => read input >>= fun n => g (toNat n) input)
      fun w b => ∃ len v : Bytes, w = len ++ v ∧ len.length = width ∧ S len.value v b := by
  refine (hread.recognises.bind fun n => hg (toNat n)).congr fun w b => ⟨?_, ?_⟩
  · rintro ⟨n, u, v, rfl, ⟨hu, hn⟩, hv⟩
    exact ⟨u, v, rfl, hu, hn ▸ hv⟩
  · rintro ⟨u, v, rfl, hu, hv⟩
    obtain ⟨n, hn⟩ := hread.onto _ (hu ▸ Bytes.value_lt u)
    exact ⟨n, u, v, rfl, ⟨hu, hn⟩, hn ▸ hv⟩

end

theorem recognises_pass (length : Nat) : Recognises (pass · length) fun w _ => w.length = length := by
  refine ((recognises_take length).bind fun _ => recognises_pure ()).congr fun w _ => ⟨?_, ?_⟩
  · rintro ⟨_, u, _, rfl, ⟨rfl, hlen⟩, rfl, -⟩
    rwa [List.append_nil]
  · intro hlen
    exact ⟨w, w, [], (List.append_nil w).symm, ⟨rfl, hlen⟩, rfl, rfl⟩

/-! ## Values -/

section
variable {α : Type} {read : Bytes → Cursor CoreError α} {toNat : α → Nat} {width : Nat} (hread : ReadsNumber read toNat width)
  {nested : Bytes → Prop}
include hread

theorem recognises_sized {length : α → Nat} (extra : Nat) (hl : ∀ n, length n = toNat n + extra) :
    Recognises (fun input => read input >>= fun n => pass input (length n))
      fun w _ => MessagePack.Body nested (.sized width extra) w := by
  simp only [hl]
  exact hread.bind fun n => recognises_pass (n + extra)

theorem recognises_counted {skip : Bytes → Cursor CoreError Unit} (hskip : Recognises skip fun w _ => nested w)
    {count : α → Nat} (each : Nat) (hc : ∀ n, count n = toNat n * each) :
    Recognises (fun input => read input >>= fun n => (skip input).times (count n))
      fun w _ => MessagePack.Body nested (.counted width each) w := by
  simp only [hc]
  exact hread.bind fun n => recognises_times hskip (n * each)

end

theorem forall_byte {P : UInt8 → Prop} (h : ∀ v : BitVec 8, P (UInt8.ofBitVec v)) (x : UInt8) : P x := h x.toBitVec

theorem shape_fix : ∀ x : UInt8, (x ≤ 0x7f ∨ x = 0xc0 ∨ x = 0xc2 ∨ x = 0xc3 ∨ 0xe0 ≤ x → MessagePack.shape x = .plain 0) ∧
    (0x7f < x ∧ x ≤ 0x8f → MessagePack.shape x = .nested ((x &&& 0x0f).toNat * 2)) ∧
    (0x8f < x ∧ x ≤ 0x9f → MessagePack.shape x = .nested (x &&& 0x0f).toNat) ∧
    (0x9f < x ∧ x ≤ 0xbf → MessagePack.shape x = .plain (x &&& 0x1f).toNat) :=
  forall_byte (by decide +kernel)

theorem recognises_skipAt {nested : Bytes → Prop} {skip : Bytes → Cursor CoreError Unit}
    (hskip : Recognises skip fun w _ => nested w) (marker : UInt8) :
    Recognises (fun input => skipAt input (skip input) marker) fun w _ => MessagePack.Body nested (MessagePack.shape marker) w := by
  obtain ⟨hplain, hmap, harray, hstr⟩ := shape_fix marker
  unfold skipAt
  refine .ite (fun h => ?_) fun h₀ => ?_
  · rw [hplain h]
    exact (recognises_pure ()).congr fun w _ => by simp [MessagePack.Body]
  have h₀ : 0x7f < marker := by grind
  refine .ite (fun h => ?_) fun h₁ => ?_
  · rw [hmap ⟨h₀, h⟩]
    exact recognises_times hskip _
  refine .ite (fun h => ?_) fun h₂ => ?_
  · rw [harray ⟨UInt8.not_le.mp h₁, h⟩]
    exact recognises_times hskip _
  refine .ite (fun h => ?_) fun h₃ => ?_
  · rw [hstr ⟨UInt8.not_le.mp h₂, h⟩]
    exact recognises_pass _
  refine .ite (fun h => ?_) fun _ => ?_
  · have hs : MessagePack.shape marker = .sized 1 0 := by rcases h with rfl | rfl <;> decide
    rw [hs]
    exact recognises_sized readsNumber_takeByte 0 fun _ => rfl
  refine .ite (fun h => ?_) fun _ => ?_
  · have hs : MessagePack.shape marker = .sized 2 0 := by rcases h with rfl | rfl <;> decide
    rw [hs]
    exact recognises_sized readsNumber_readU16 0 fun _ => rfl
  refine .ite (fun h => ?_) fun _ => ?_
  · have hs : MessagePack.shape marker = .sized 4 0 := by rcases h with rfl | rfl <;> decide
    rw [hs]
    exact recognises_sized readsNumber_readU32 0 fun _ => rfl
  refine .ite (fun h => ?_) fun _ => ?_
  · rw [h, show MessagePack.shape 0xc7 = .sized 1 1 by decide]
    exact recognises_sized readsNumber_takeByte 1 fun _ => rfl
  refine .ite (fun h => ?_) fun _ => ?_
  · rw [h, show MessagePack.shape 0xc8 = .sized 2 1 by decide]
    exact recognises_sized readsNumber_readU16 1 fun _ => rfl
  refine .ite (fun h => ?_) fun _ => ?_
  · rw [h, show MessagePack.shape 0xc9 = .sized 4 1 by decide]
    exact recognises_sized readsNumber_readU32 1 fun _ => rfl
  refine .ite (fun h => ?_) fun _ => ?_
  · have hs : MessagePack.shape marker = .plain 4 := by rcases h with rfl | rfl | rfl <;> decide
    rw [hs]
    exact recognises_pass 4
  refine .ite (fun h => ?_) fun _ => ?_
  · have hs : MessagePack.shape marker = .plain 8 := by rcases h with rfl | rfl | rfl <;> decide
    rw [hs]
    exact recognises_pass 8
  refine .ite (fun h => ?_) fun _ => ?_
  · have hs : MessagePack.shape marker = .plain 1 := by rcases h with rfl | rfl <;> decide
    rw [hs]
    exact recognises_pass 1
  refine .ite (fun h => ?_) fun _ => ?_
  · have hs : MessagePack.shape marker = .plain 2 := by rcases h with rfl | rfl <;> decide
    rw [hs]
    exact recognises_pass 2
  refine .ite (fun h => ?_) fun _ => ?_
  · rw [h, show MessagePack.shape 0xd4 = .plain 2 by decide]
    exact recognises_pass 2
  refine .ite (fun h => ?_) fun _ => ?_
  · rw [h, show MessagePack.shape 0xd5 = .plain 3 by decide]
    exact recognises_pass 3
  refine .ite (fun h => ?_) fun _ => ?_
  · rw [h, show MessagePack.shape 0xd6 = .plain 5 by decide]
    exact recognises_pass 5
  refine .ite (fun h => ?_) fun _ => ?_
  · rw [h, show MessagePack.shape 0xd7 = .plain 9 by decide]
    exact recognises_pass 9
  refine .ite (fun h => ?_) fun _ => ?_
  · rw [h, show MessagePack.shape 0xd8 = .plain 17 by decide]
    exact recognises_pass 17
  refine .ite (fun h => ?_) fun _ => ?_
  · rw [h, show MessagePack.shape 0xdc = .counted 2 1 by decide]
    exact recognises_counted readsNumber_readU16 hskip 1 fun _ => (Nat.mul_one _).symm
  refine .ite (fun h => ?_) fun _ => ?_
  · rw [h, show MessagePack.shape 0xdd = .counted 4 1 by decide]
    exact recognises_counted readsNumber_readU32 hskip 1 fun _ => (Nat.mul_one _).symm
  refine .ite (fun h => ?_) fun _ => ?_
  · rw [h, show MessagePack.shape 0xde = .counted 2 2 by decide]
    exact recognises_counted readsNumber_readU16 hskip 2 fun _ => rfl
  refine .ite (fun h => ?_) fun _ => ?_
  · rw [h, show MessagePack.shape 0xdf = .counted 4 2 by decide]
    exact recognises_counted readsNumber_readU32 hskip 2 fun _ => rfl
  have hlast : marker = 0xc1 := by grind
  rw [hlast, show MessagePack.shape 0xc1 = .reserved by decide]
  exact recognises_fail _

/-- The skipper succeeds just on the values of the format that nest no deeper than it allows. -/
theorem recognises_skipValue (levels : Nat) : Recognises (skipValue · levels) fun w _ => MessagePack.Value levels w := by
  induction levels with
  | zero => exact recognises_fail _
  | succ levels ih =>
    refine (recognises_takeByte.bind fun marker => recognises_skipAt ih marker).congr fun w _ => ⟨?_, ?_⟩
    · rintro ⟨marker, _, body, rfl, rfl, hbody⟩
      exact ⟨marker, body, rfl, hbody⟩
    · rintro ⟨marker, body, rfl, hbody⟩
      exact ⟨marker, [marker], body, rfl, rfl, hbody⟩

/-! ## The payload -/

theorem recognises_readBinary : Recognises readBinary MessagePack.Binary := by
  have hsized {α : Type} {read : Bytes → Cursor CoreError α} {toNat : α → Nat} {width : Nat}
      (hread : ReadsNumber read toNat width) : Recognises (fun input => read input >>= fun n => take input (toNat n))
        fun w (b : Bytes) => ∃ len : Bytes, w = len ++ b ∧ len.length = width ∧ b.length = len.value := by
    refine (hread.bind recognises_take).congr fun w b => ⟨?_, ?_⟩
    · rintro ⟨len, v, rfl, hlen, rfl, hv⟩
      exact ⟨len, rfl, hlen, hv⟩
    · rintro ⟨len, rfl, hlen, hb⟩
      exact ⟨len, b, rfl, hlen, rfl, hb⟩
  have hat (marker : UInt8) : Recognises (readBinaryAt · marker) fun w b => MessagePack.Binary (marker :: w) b := by
    unfold readBinaryAt
    refine .ite (fun h => ?_) fun h₁ => .ite (fun h => ?_) fun h₂ => .ite (fun h => ?_) fun h₃ => ?_
    · subst h
      refine (hsized readsNumber_takeByte).congr fun w b => ⟨?_, ?_⟩
      · rintro ⟨len, rfl, hlen, hb⟩
        exact .bin8 hlen hb
      · rintro h
        cases h with
        | bin8 hlen hb => exact ⟨_, rfl, hlen, hb⟩
    · subst h
      refine (hsized readsNumber_readU16).congr fun w b => ⟨?_, ?_⟩
      · rintro ⟨len, rfl, hlen, hb⟩
        exact .bin16 hlen hb
      · rintro h
        cases h with
        | bin16 hlen hb => exact ⟨_, rfl, hlen, hb⟩
    · subst h
      refine (hsized readsNumber_readU32).congr fun w b => ⟨?_, ?_⟩
      · rintro ⟨len, rfl, hlen, hb⟩
        exact .bin32 hlen hb
      · rintro h
        cases h with
        | bin32 hlen hb => exact ⟨_, rfl, hlen, hb⟩
    · refine (recognises_fail _).congr fun w b => ⟨False.elim, fun h => ?_⟩
      cases h with
      | bin8 => exact h₁ rfl
      | bin16 => exact h₂ rfl
      | bin32 => exact h₃ rfl
  refine (recognises_takeByte.bind hat).congr fun w b => ⟨?_, ?_⟩
  · rintro ⟨marker, _, v, rfl, rfl, hv⟩
    exact hv
  · intro h
    cases w with
    | nil => cases h
    | cons marker w => exact ⟨marker, [marker], w, rfl, rfl, h⟩

theorem recognises_readCollectionLen :
    Recognises (readCollectionLen · 0x90 0xdc 0xdd) fun w n => MessagePack.ArrayHeader w n.toNat := by
  have hfix (marker : UInt8) : (marker &&& 0x0f).toUInt32.toNat = (marker &&& 0x0f).toNat := by simp
  have hwide : (0xdc : UInt8) &&& 0xf0 ≠ 0x90 ∧ (0xdd : UInt8) &&& 0xf0 ≠ 0x90 ∧ (0xdc : UInt8) ≠ 0xdd := by decide
  have hat (marker : UInt8) : Recognises (fun input => if marker &&& 0xf0 = 0x90 then return (marker &&& 0x0f).toUInt32
      else if marker = 0xdc then readU16 input >>= fun count => return count.toUInt32
      else if marker = 0xdd then readU32 input else (fail .invalidField : Cursor CoreError UInt32))
      fun w n => MessagePack.ArrayHeader (marker :: w) n.toNat := by
    simp only [MessagePack.arrayHeader_cons]
    refine .ite (fun h => ?_) fun h₁ => .ite (fun h => ?_) fun h₂ => .ite (fun h => ?_) fun h₃ => ?_
    · refine (recognises_pure _).congr fun w n => ⟨?_, ?_⟩
      · rintro ⟨rfl, rfl⟩
        exact .inl ⟨h, rfl, hfix marker⟩
      · rintro (⟨-, rfl, hn⟩ | ⟨rfl, -⟩ | ⟨rfl, -⟩)
        · exact ⟨rfl, UInt32.toNat_inj.mp (hn.trans (hfix marker).symm)⟩
        · exact (hwide.1 h).elim
        · exact (hwide.2.1 h).elim
    · subst h
      refine (readsNumber_readU16.recognises.bind fun count => recognises_pure count.toUInt32).congr fun w n => ⟨?_, ?_⟩
      · rintro ⟨count, u, _, rfl, ⟨hu, hcount⟩, rfl, rfl⟩
        rw [List.append_nil, UInt16.toNat_toUInt32]
        exact .inr (.inl ⟨rfl, hu, hcount⟩)
      · rintro (⟨h, -⟩ | ⟨-, hw, hn⟩ | ⟨h, -⟩)
        · exact (hwide.1 h).elim
        · obtain ⟨count, hcount⟩ := readsNumber_readU16.onto _ (hw ▸ Bytes.value_lt w)
          refine ⟨count, w, [], (List.append_nil w).symm, ⟨hw, hcount⟩, rfl, UInt32.toNat_inj.mp ?_⟩
          rw [UInt16.toNat_toUInt32, hn, hcount]
        · exact (hwide.2.2 h).elim
    · subst h
      refine readsNumber_readU32.recognises.congr fun w n => ⟨?_, ?_⟩
      · rintro ⟨hw, hn⟩
        exact .inr (.inr ⟨rfl, hw, hn⟩)
      · rintro (⟨h, -⟩ | ⟨h, -⟩ | ⟨-, hw, hn⟩)
        · exact (hwide.2.1 h).elim
        · exact (hwide.2.2 h.symm).elim
        · exact ⟨hw, hn⟩
    · refine (recognises_fail _).congr fun w n => ⟨False.elim, ?_⟩
      rintro (⟨h, -⟩ | ⟨h, -⟩ | ⟨h, -⟩)
      · exact h₁ h
      · exact h₂ h
      · exact h₃ h
  refine (recognises_takeByte.bind hat).congr fun w n => ⟨?_, ?_⟩
  · rintro ⟨marker, _, v, rfl, rfl, hv⟩
    exact hv
  · intro h
    cases w with
    | nil => cases h
    | cons marker w => exact ⟨marker, [marker], w, rfl, rfl, h⟩

theorem recognises_readFields : Recognises readFields fun w fields => w = fields ∧ MessagePack.Map 64 fields := by
  intro input p fields q hp
  have hmark (w : Bytes) (hw : w <+: input.drop p) (hv : MessagePack.Value 64 w) : input[p]? = w.head? := by
    obtain ⟨marker, body, rfl, -⟩ := hv
    obtain ⟨rest, hrest⟩ := hw
    have hzero : (input.drop p)[0]? = some marker := by rw [← hrest]; rfl
    rwa [List.getElem?_drop, Nat.add_zero] at hzero
  have hcut (w : Bytes) (hw : w <+: input.drop p) : (input.drop p).take (p + w.length - p) = w := by
    obtain ⟨rest, hrest⟩ := hw
    rw [Nat.add_sub_cancel_left, ← hrest, List.take_left]
  unfold readFields
  simp only [bind_eq_ok, run_position, Prod.mk.injEq, Except.ok.injEq, run_pure, reject]
  constructor
  · rintro ⟨_, _, ⟨rfl, rfl⟩, ⟨⟩, r, hreject, ⟨⟩, s, hskip, _, _, ⟨rfl, rfl⟩, rfl, rfl⟩
    split at hreject
    · cases hreject
    · rename_i hmap
      cases hreject
      obtain ⟨w, hv, hw, rfl⟩ := (recognises_skipValue 64 input p () s hp).mp hskip
      rw [hcut w hw]
      refine ⟨w, ⟨rfl, hv, ?_⟩, hw, rfl⟩
      rw [hmark w hw hv] at hmap
      simpa [Option.any_eq_true] using hmap
  · rintro ⟨w, ⟨rfl, hv, marker, hhead, hm⟩, hw, rfl⟩
    refine ⟨p, p, ⟨rfl, rfl⟩, (), p, ?_, (), p + w.length, (recognises_skipValue 64 input p () _ hp).mpr ⟨w, hv, hw, rfl⟩,
      p + w.length, p + w.length, ⟨rfl, rfl⟩, (hcut w hw).symm ▸ ⟨rfl, rfl⟩⟩
    rw [hmark w hw hv, hhead]
    simp [hm]

/-- What stands behind the fields: nothing in an array of four, a stamp in an array of five. -/
inductive StampForm : Nat → Bytes → Option Bytes → Prop
  | none : StampForm 4 [] none
  | some {w stamp : Bytes} : MessagePack.Binary w stamp → stamp.length = 16 ∨ stamp.length = 32 → StampForm 5 w (some stamp)

theorem StampForm.count {n : Nat} {w : Bytes} {stamp : Option Bytes} (h : StampForm n w stamp) : n = 4 ∨ n = 5 := by
  cases h with
  | none => exact .inl rfl
  | some => exact .inr rfl

theorem recognises_readStamp (length : UInt32) : Recognises (readStamp · length) fun w stamp =>
    (length ≠ 4 ∧ length ≠ 5) ∧ w = [] ∧ stamp = none ∨ StampForm length.toNat w stamp := by
  unfold readStamp
  refine .ite (fun h => ?_) fun h => ?_
  · subst h
    refine (recognises_readBinary.bind fun stamp => (recognises_reject (stamp.length ≠ 16 ∧ stamp.length ≠ 32) _).bind
      fun _ => recognises_pure (some stamp)).congr fun w s => ⟨?_, ?_⟩
    · rintro ⟨stamp, u, _, rfl, hu, _, _, _, rfl, ⟨rfl, hlen⟩, rfl, rfl⟩
      rw [List.nil_append, List.append_nil]
      exact .inr (.some hu (by omega))
    · rintro (⟨⟨-, h⟩, -⟩ | h)
      · exact absurd rfl h
      · cases h with
        | some hw hlen =>
          exact ⟨_, w, [], (List.append_nil w).symm, hw, (), [], [], rfl, ⟨rfl, by omega⟩, rfl, rfl⟩
  · refine (recognises_pure _).congr fun w s => ⟨?_, ?_⟩
    · rintro ⟨rfl, rfl⟩
      by_cases h4 : length = 4
      · subst h4
        exact .inr .none
      · exact .inl ⟨⟨h4, h⟩, rfl, rfl⟩
    · rintro (⟨-, hw⟩ | hs)
      · exact hw
      · generalize hn : length.toNat = n at hs
        cases hs with
        | none => exact ⟨rfl, rfl⟩
        | some => exact absurd (UInt32.toNat_inj.mp hn) h

/-- The words of a payload. -/
inductive PayloadForm : Bytes → DecodedPayload → Prop
  | mk {n : Nat} {head time title content stamp : Bytes} {d : DecodedPayload} : MessagePack.ArrayHeader head n →
    time.length = 8 → d.timestamp.toNat = time.value → isFinite d.timestamp = true → MessagePack.Binary title d.title →
    MessagePack.Binary content d.content → MessagePack.Map 64 d.fields → StampForm n stamp d.stamp →
    PayloadForm (head ++ 0xcb :: (time ++ (title ++ (content ++ (d.fields ++ stamp))))) d

theorem recognises_readPayload : Recognises readPayload PayloadForm := by
  have hbind := recognises_readCollectionLen.bind_checked (c := fun length => length ≠ 4 ∧ length ≠ 5) CoreError.invalidField
    fun length => recognises_takeByte.bind_checked (c := fun marker => marker ≠ 0xcb) CoreError.invalidField
    fun _ => readsNumber_readU64.recognises.bind_checked (c := fun bits => isFinite bits = false) CoreError.invalidField
    fun timestamp => recognises_readBinary.bind
    fun title => recognises_readBinary.bind
    fun content => recognises_readFields.bind
    fun fields => (recognises_readStamp length).bind
    fun stamp => recognises_pure (DecodedPayload.mk timestamp title content fields stamp)
  refine hbind.congr fun w d => ⟨?_, ?_⟩
  · rintro ⟨length, head, _, rfl, ⟨hhead, hlength⟩, marker, _, _, rfl, ⟨rfl, hmarker⟩, timestamp, time, _, rfl,
      ⟨⟨htime, hvalue⟩, hfinite⟩, title, wt, _, rfl, ht, content, wc, _, rfl, hc, _, fields, _, rfl, ⟨rfl, hf⟩,
      stamp, ws, _, rfl, hs, rfl, rfl⟩
    obtain rfl : marker = 0xcb := Decidable.not_not.mp hmarker
    have hs : StampForm length.toNat ws stamp := hs.resolve_left fun h => hlength h.1
    simp only [List.append_nil, List.singleton_append]
    have hfinite : isFinite timestamp = true := Bool.of_not_eq_false hfinite
    exact .mk (d := ⟨timestamp, title, content, fields, stamp⟩) hhead htime hvalue hfinite ht hc hf hs
  · rintro ⟨hhead, htime, hvalue, hfinite, ht, hc, hf, hs⟩
    rename_i n head time wt wc ws
    obtain ⟨length, hlength, rfl⟩ : ∃ length : UInt32, ¬ (length ≠ 4 ∧ length ≠ 5) ∧ length.toNat = n := by
      rcases hs.count with rfl | rfl
      · exact ⟨4, by decide, rfl⟩
      · exact ⟨5, by decide, rfl⟩
    refine ⟨length, head, _, rfl, ⟨hhead, hlength⟩, ?_⟩
    refine ⟨0xcb, [0xcb], time ++ (wt ++ (wc ++ (d.fields ++ ws))), rfl, ⟨rfl, not_not_intro rfl⟩, ?_⟩
    refine ⟨d.timestamp, time, _, rfl, ⟨⟨htime, hvalue⟩, by simp [hfinite]⟩, ?_⟩
    refine ⟨d.title, wt, _, rfl, ht, ?_⟩
    refine ⟨d.content, wc, _, rfl, hc, ?_⟩
    refine ⟨d.fields, d.fields, ws, rfl, ⟨rfl, hf⟩, ?_⟩
    exact ⟨d.stamp, ws, [], (List.append_nil ws).symm, .inr hs, rfl, rfl⟩

theorem readAll_iff {α : Type} {read : Bytes → Cursor CoreError α} {R : Bytes → α → Prop} (hread : Recognises read R)
    {w : Bytes} {a : α} : readAll read w = .ok a ↔ R w a := by
  rw [← hread.read_all]
  unfold readAll
  rcases (read w).run 0 with ⟨e | b, q⟩
  · simp
  · by_cases hq : q = w.length
    · simp [hq]
    · simp [hq]

/-- The decoder accepts the words of a payload. -/
theorem decodePayload_iff {w : Bytes} {d : DecodedPayload} : decodePayload w = .ok d ↔ PayloadForm w d :=
  readAll_iff recognises_readPayload

end Lxmf

/-! ## The message -/

namespace LxmfMessage

open Lxmf

/-- The payload of a message as the decoder returns it. -/
def decoded (m : LxmfMessage) : DecodedPayload := ⟨m.timestamp, m.title, m.content, m.fields, m.stamp⟩

/-- The words of a message: three arrays and a payload. -/
def Form (w : Bytes) (m : LxmfMessage) : Prop :=
  ∃ payload, w = m.destination.1 ++ (m.source.1 ++ (m.signature.1 ++ payload)) ∧ PayloadForm payload m.decoded

/-- No message is a proper beginning of another. -/
theorem Form.prefix_free {w w' : Bytes} {m m' : LxmfMessage} (h : Form w m) (h' : Form w' m') (hpre : w <+: w') : w = w' := by
  obtain ⟨payload, rfl, hp⟩ := h
  obtain ⟨payload', rfl, hp'⟩ := h'
  obtain ⟨rest, hrest⟩ := hpre
  simp only [List.append_assoc] at hrest
  obtain ⟨hd, hrest⟩ := List.append_inj hrest (m.destination.2.trans m'.destination.2.symm)
  obtain ⟨hs, hrest⟩ := List.append_inj hrest (m.source.2.trans m'.source.2.symm)
  obtain ⟨hsig, hrest⟩ := List.append_inj hrest (m.signature.2.trans m'.signature.2.symm)
  rw [hd, hs, hsig, (recognises_readPayload.prefix_free hp hp' ⟨rest, hrest⟩).1]

variable [Crypto] [Rmp] [RmpF64]

/-- The hash is that of the payload without the stamp. -/
def Hashed (m : LxmfMessage) : Prop := m.hash = fullHash (hashedPart m.destination m.source m.payload)

/-- What is unpacked: the words of a message, with the hash that belongs to it. -/
theorem unpack_iff {w : Bytes} {m : LxmfMessage} : unpack w = .ok m ↔ Form w m ∧ m.Hashed := by
  unfold unpack
  constructor
  · intro h
    split at h
    · cases h
    split at h
    · rename_i destination source signature hd hs hsig
      split at h
      · cases h
      · rename_i d hdecode
        cases h
        refine ⟨⟨w.drop HEADER_LENGTH, ?_, decodePayload_iff.mp hdecode⟩, rfl⟩
        have hd := Arr.ofSlice?_eq_some.mp hd
        have hs := Arr.ofSlice?_eq_some.mp hs
        have hsig := Arr.ofSlice?_eq_some.mp hsig
        dsimp only
        rw [← hd, ← hs, ← hsig, List.drop_zero]
        have hcut (i j : Nat) : (w.drop i).take j ++ w.drop (i + j) = w.drop i := by
          rw [← List.drop_drop]
          exact List.take_append_drop j (w.drop i)
        have hrest : (w.drop 32).take 64 ++ w.drop HEADER_LENGTH = w.drop 32 := hcut 32 64
        have htail : (w.drop 16).take 16 ++ w.drop 32 = w.drop 16 := hcut 16 16
        rw [hrest, htail, List.take_append_drop]
    · cases h
  · rintro ⟨⟨payload, hw, hpayload⟩, hhash⟩
    have hlen : ¬ w.length < HEADER_LENGTH := by
      have := congrArg List.length hw
      simp only [List.length_append, m.destination.2, m.source.2, m.signature.2] at this
      simp only [HEADER_LENGTH, DESTINATION_LENGTH, SIGNATURE_LENGTH]
      omega
    have hd : Arr.slice? w 0 16 = some m.destination := by
      rw [hw]
      exact Arr.slice?_append (show ([] : Bytes).length = 0 from rfl) m.destination _
    have hs : Arr.slice? w 16 16 = some m.source := by
      rw [hw]
      exact Arr.slice?_append m.destination.2 m.source _
    have hsig : Arr.slice? w 32 64 = some m.signature := by
      rw [hw, ← List.append_assoc]
      exact Arr.slice?_append (by simp [m.destination.2, m.source.2]) m.signature _
    have hdrop : w.drop HEADER_LENGTH = payload := by
      rw [hw, ← List.append_assoc, ← List.append_assoc]
      exact List.drop_left' (by simp [m.destination.2, m.source.2, m.signature.2, HEADER_LENGTH, DESTINATION_LENGTH, SIGNATURE_LENGTH])
    rw [if_neg hlen, hd, hs, hsig, hdrop, decodePayload_iff.mpr hpayload]
    have hhash : fullHash (hashedPart m.destination m.source (encodePayload m.timestamp m.title m.content m.fields)) = m.hash :=
      hhash.symm
    simp only [decoded, hhash]

/-! ## What is packed is unpacked -/

/-- A message that the format can carry. -/
structure WellFormed (m : LxmfMessage) : Prop where
  finite : isFinite m.timestamp = true
  title : m.title.length < 2 ^ 32
  content : m.content.length < 2 ^ 32
  fields : MessagePack.Map 64 m.fields
  stamp : ∀ stamp, m.stamp = some stamp → stamp.length = 16 ∨ stamp.length = 32
  hash : m.Hashed

omit [Crypto] in
/-- A packed message is a word of the format. -/
theorem form_pack (hR : Rmp.WritesShortest) {m : LxmfMessage} (hfinite : isFinite m.timestamp = true)
    (htitle : m.title.length < 2 ^ 32) (hcontent : m.content.length < 2 ^ 32) (hfields : MessagePack.Map 64 m.fields)
    (hstamp : ∀ stamp, m.stamp = some stamp → stamp.length = 16 ∨ stamp.length = 32) : Form m.pack m := by
  have hform {n : Nat} {tail : Bytes} (hn : n < 2 ^ 32) (htail : StampForm n tail m.stamp) :
      PayloadForm (Rmp.writeArrayLen n ++ RmpF64.writeF64 m.timestamp ++ Rmp.writeBin m.title ++ Rmp.writeBin m.content ++
        m.fields ++ tail) m.decoded := by
    have htime : Bytes.value (Bytes.bigEndian 8 m.timestamp.toNat) = m.timestamp.toNat :=
      Bytes.value_bigEndian m.timestamp.toNat_lt
    have hmk := PayloadForm.mk (d := m.decoded) (MessagePack.arrayHeader_header hn) (Bytes.length_bigEndian ..) htime.symm hfinite
      (MessagePack.binary_binHeader htitle) (MessagePack.binary_binHeader hcontent) hfields htail
    simpa only [hR.arrayLen _ hn, hR.f64, hR.bin _ htitle, hR.bin _ hcontent, MessagePack.float64, decoded, List.append_assoc,
      List.cons_append] using hmk
  refine ⟨m.wirePayload, by simp only [pack, List.append_assoc], ?_⟩
  unfold wirePayload
  cases hs : m.stamp with
  | none =>
    have hnone : StampForm 4 [] m.stamp := hs ▸ .none
    simpa [payload, encodePayload] using hform (by decide) hnone
  | some stamp =>
    have hlen : stamp.length < 2 ^ 32 := by
      have := hstamp stamp hs
      omega
    have hsome : StampForm 5 (Rmp.writeBin stamp) m.stamp := by
      rw [hs, hR.bin _ hlen]
      exact .some (MessagePack.binary_binHeader hlen) (hstamp stamp hs)
    exact hform (by decide) hsome

theorem Form.wellFormed {w : Bytes} {m : LxmfMessage} (h : Form w m) (hh : m.Hashed) : m.WellFormed := by
  obtain ⟨payload, -, hp⟩ := h
  generalize hd : m.decoded = d at hp
  cases hp with
  | mk _ _ _ hfinite ht hc hf hs =>
    subst hd
    refine ⟨hfinite, ht.length_lt, hc.length_lt, hf, fun stamp hstamp => ?_, hh⟩
    have hs := show StampForm _ _ m.stamp from hs
    rw [hstamp] at hs
    cases hs with
    | some _ hlen => exact hlen

theorem unpack_pack (hR : Rmp.WritesShortest) {m : LxmfMessage} (h : m.WellFormed) : unpack m.pack = .ok m :=
  unpack_iff.mpr ⟨form_pack hR h.finite h.title h.content h.fields h.stamp, h.hash⟩

/-- A message that the format can carry is unpacked from what it is packed to, with the hash it has without its stamp.
What is unpacked packs to a message that unpacks to the same one, and of two messages neither begins with the other. -/
theorem wire_roundtrip (hR : Rmp.WritesShortest) :
    (∀ m : LxmfMessage, m.WellFormed → unpack m.pack = .ok m ∧ unpack { m with stamp := none }.pack = .ok { m with stamp := none }) ∧
      (∀ (b : Bytes) (m : LxmfMessage), unpack b = .ok m → unpack m.pack = .ok m ∧
        ∀ b', b' ≠ b → b' <+: b ∨ b <+: b' → ∀ m', unpack b' ≠ .ok m') := by
  refine ⟨fun m h => ⟨unpack_pack hR h, unpack_pack hR ?_⟩, fun b m h => ?_⟩
  · exact ⟨h.finite, h.title, h.content, h.fields, fun _ hs => (nomatch hs), h.hash⟩
  · obtain ⟨hform, hhash⟩ := unpack_iff.mp h
    refine ⟨unpack_pack hR (hform.wellFormed hhash), fun b' hne hpre m' h' => ?_⟩
    obtain ⟨hform', -⟩ := unpack_iff.mp h'
    rcases hpre with hpre | hpre
    · exact hne (hform'.prefix_free hform hpre)
    · exact hne (hform.prefix_free hform' hpre).symm

end LxmfMessage

/-! ## A stamped message -/

namespace Sample

@[reducible] def rmpF64 : RmpF64 where
  writeF64 := MessagePack.float64

scoped instance instRmpF64 : RmpF64 := rmpF64

theorem toBE_eq (k n : Nat) : toBE k n = Bytes.bigEndian k n := by
  induction k generalizing n with
  | zero => rfl
  | succ k ih => rw [toBE, ih, Bytes.bigEndian]

theorem writesShortest : Rmp.WritesShortest := by
  refine ⟨fun n _ => ?_, fun _ => rfl, fun b _ => ?_⟩
  · change writeLen 0x90 0 0xDC 0xDD 16 false n = MessagePack.arrayHeader n
    unfold writeLen MessagePack.arrayHeader
    by_cases hn : n < 16
    · interval_cases n <;> rfl
    · simp [hn, toBE_eq]
  · change writeLen 0 0xC4 0xC5 0xC6 0 true b.length ++ b = MessagePack.binHeader b.length ++ b
    unfold writeLen MessagePack.binHeader
    simp [toBE_eq]

/-- A map of one entry. -/
def fields : Bytes := [0x81, 0xa4, 0x74, 0x79, 0x70, 0x65, 0x01]

theorem map_fields : MessagePack.Map 64 fields := by
  have hskip : ((Lxmf.skipValue fields 64).run 0) = (.ok (), fields.length) := by rfl
  exact ⟨(Lxmf.recognises_skipValue 64).read_all.mp hskip, 0x81, rfl, by decide⟩

/-- From the first identity, at 42.5 seconds. -/
def letter : LxmfMessage :=
  LxmfMessage.build (identity 1) (arr 16 2) (arr 16 1) 0x4045400000000000 [1] [2, 3] fields

def stampedLetter : LxmfMessage := { letter with stamp := some (List.replicate 16 7) }

end Sample

section
open Sample

theorem wire_roundtrip_letter : LxmfMessage.unpack stampedLetter.pack = .ok stampedLetter := by
  have hform : stampedLetter.WellFormed := by
    refine ⟨by decide, by decide, by decide, map_fields, fun stamp h => ?_, rfl⟩
    cases h
    exact .inl rfl
  exact ((LxmfMessage.wire_roundtrip writesShortest).1 stampedLetter hform).1

end

end Reticulum
