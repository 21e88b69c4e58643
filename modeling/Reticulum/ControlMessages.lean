import Reticulum.Sender
import Reticulum.Sample
import Reticulum.Lib.Keyed
import Reticulum.Lib.MessagePack
import Reticulum.Lib.Reader

/-!
# Resource control messages

An advertisement is a map of eleven one-letter keys, in any order. Its reader
accepts just the maps in which every key comes once, and reads back the
advertisement whose fields they are.
-/

namespace Reticulum

open MessagePack Reader
open Cursor (Listed)

/-- The reader takes the headers of a kind, with the number they hold. -/
def Rmp.Follows (read : Bytes → Option (Nat × Bytes)) (number : UInt8 → Number) : Prop :=
  ∀ input n rest, read input = some (n, rest) ↔ ∃ w, Header number w n ∧ input = w ++ rest

/-- `rmp` reads and writes the headers of the MessagePack format. -/
structure Rmp.FollowsFormat [Rmp] : Prop where
  readMapLen : Rmp.Follows Rmp.readMapLen mapLength
  readArrayLen : Rmp.Follows Rmp.readArrayLen arrayLength
  readStrLen : Rmp.Follows Rmp.readStrLen textLength
  readBinLen : Rmp.Follows Rmp.readBinLen binaryLength
  readInt : Rmp.Follows Rmp.readInt unsigned
  writeMapLen : ∀ n, n < 2 ^ 32 → Header mapLength (Rmp.writeMapLen n) n
  writeArrayLen : ∀ n, n < 2 ^ 32 → Header arrayLength (Rmp.writeArrayLen n) n
  writeStr : ∀ b : Bytes, b.length < 2 ^ 32 → Counted textLength (Rmp.writeStr b) b
  writeBin : ∀ b : Bytes, b.length < 2 ^ 32 → Counted binaryLength (Rmp.writeBin b) b
  writeUint : ∀ n, n < 2 ^ 64 → Header unsigned (Rmp.writeUint n) n
  writeNil : Rmp.writeNil = [0xC0]

section
variable [Rmp]

theorem Rmp.FollowsFormat.readsWritten (hF : Rmp.FollowsFormat) : Rmp.ReadsWritten where
  mapLen n rest h := (hF.readMapLen _ n rest).mpr ⟨_, hF.writeMapLen n h, rfl⟩
  arrayLen n rest h := (hF.readArrayLen _ n rest).mpr ⟨_, hF.writeArrayLen n h, rfl⟩
  int n rest h := (hF.readInt _ n rest).mpr ⟨_, hF.writeUint n h, rfl⟩
  bin b rest h := by
    obtain ⟨head, hhead, heq⟩ := hF.writeBin b h
    rw [heq, List.append_assoc]
    exact (hF.readBinLen _ _ _).mpr ⟨head, hhead, rfl⟩
  str b rest h := by
    obtain ⟨head, hhead, heq⟩ := hF.writeStr b h
    rw [heq, List.append_assoc]
    exact (hF.readStrLen _ _ _).mpr ⟨head, hhead, rfl⟩
  nil := hF.writeNil

/-! ## What the readers read -/

omit [Rmp] in
theorem ofRead_eq_ok {α : Type} {r : Option α} {a : α} : ofRead r = .ok a ↔ r = some a := by
  cases r with
  | none => simp [ofRead]
  | some b => simp [ofRead]

omit [Rmp] in
theorem reads_ofRead {read : Bytes → Option (Nat × Bytes)} {number : UInt8 → Number} (h : Rmp.Follows read number) :
    Reads (fun input => ofRead (read input)) (Header number) := by
  intro input n rest
  rw [ofRead_eq_ok, h]

omit [Rmp] in
theorem reads_takeBytes (len : Nat) : Reads (takeBytes · len) fun w b => w = b ∧ b.length = len := by
  intro input b rest
  simp only [takeBytes]
  constructor
  · intro h
    split at h
    · cases h
    · cases h
      refine ⟨_, ⟨rfl, ?_⟩, (List.take_append_drop len input).symm⟩
      rw [List.length_take]
      omega
  · rintro ⟨w, ⟨rfl, rfl⟩, rfl⟩
    exact takeBytes_append w rest

omit [Rmp] in
theorem reads_counted {read : Bytes → Option (Nat × Bytes)} {number : UInt8 → Number} (h : Rmp.Follows read number) :
    Reads (fun input => ofRead (read input) >>= fun r => takeBytes r.2 r.1) (Counted number) := by
  refine ((reads_ofRead h).bind fun n => reads_takeBytes n).congr fun w b => ⟨?_, ?_⟩
  · rintro ⟨n, head, _, rfl, hhead, rfl, rfl⟩
    exact ⟨head, hhead, rfl⟩
  · rintro ⟨head, hhead, rfl⟩
    exact ⟨_, head, b, rfl, hhead, rfl, rfl⟩

theorem reads_readText (hF : Rmp.FollowsFormat) : Reads readText (Counted textLength) := reads_counted hF.readStrLen

theorem reads_readBinary (hF : Rmp.FollowsFormat) : Reads readBinary (Counted binaryLength) := reads_counted hF.readBinLen

theorem reads_readInteger (hF : Rmp.FollowsFormat) : Reads readInteger (Header unsigned) := reads_ofRead hF.readInt

theorem reads_readU32 (hF : Rmp.FollowsFormat) : Reads readU32 fun w n => Header unsigned w n ∧ n < 2 ^ 32 := by
  refine ((reads_readInteger hF).convert toU32).congr fun w n => ?_
  unfold toU32
  constructor
  · rintro ⟨v, hv, hcheck⟩
    split at hcheck
    · rename_i hlt
      cases hcheck
      exact ⟨hv, hlt⟩
    · cases hcheck
  · rintro ⟨hn, hlt⟩
    exact ⟨n, hn, if_pos hlt⟩

theorem reads_readU8 (hF : Rmp.FollowsFormat) : Reads readU8 fun w (f : UInt8) => Header unsigned w f.toNat := by
  refine ((reads_readInteger hF).convert toU8).congr fun w f => ?_
  unfold toU8
  constructor
  · rintro ⟨v, hv, hcheck⟩
    split at hcheck
    · rename_i hlt
      cases hcheck
      rwa [UInt8.toNat_ofNat_of_lt' hlt]
    · cases hcheck
  · intro hf
    have hlt : f.toNat < 2 ^ 8 := f.toNat_lt
    exact ⟨f.toNat, hf, by rw [if_pos hlt, UInt8.ofNat_toNat]⟩

/-- A byte string, or the one byte of `nil`. -/
def OptionalBinary (w : Bytes) : Option Bytes → Prop
  | none => w = [0xC0]
  | some b => Counted binaryLength w b

theorem reads_readOptionalBinary (hF : Rmp.FollowsFormat) : Reads readOptionalBinary OptionalBinary := by
  have hsome := (reads_readBinary hF).map some
  intro input q rest
  unfold readOptionalBinary
  split
  · rename_i input
    constructor
    · intro h
      cases h
      exact ⟨[0xC0], rfl, rfl⟩
    · rintro ⟨w, hw, heq⟩
      cases q with
      | none =>
        cases hw
        cases heq
        rfl
      | some b =>
        -- the byte of `nil` starts no byte string
        obtain ⟨head, hhead, rfl⟩ := hw
        cases head with
        | nil => exact hhead.elim
        | cons marker head =>
          cases heq
          exact hhead.elim
  · rename_i hnil
    rw [hsome input q rest]
    constructor
    · rintro ⟨w, ⟨b, hb, rfl⟩, rfl⟩
      exact ⟨w, hb, rfl⟩
    · rintro ⟨w, hw, rfl⟩
      cases q with
      | none =>
        cases hw
        exact absurd rfl (hnil rest)
      | some b => exact ⟨w, ⟨b, hw, rfl⟩, rfl⟩

namespace ResourceAdvertisement

/-! ## The fields of an advertisement -/

inductive Key
  | t | d | n | h | r | o | i | l | q | f | m
  deriving DecidableEq

def Key.byte : Key → UInt8
  | .t => keyT | .d => keyD | .n => keyN | .h => keyH | .r => keyR | .o => keyO
  | .i => keyI | .l => keyL | .q => keyQ | .f => keyF | .m => keyM

/-- In the order in which they are written. -/
def Key.all : List Key := [.t, .d, .n, .h, .r, .o, .i, .l, .q, .f, .m]

omit [Rmp] in
theorem Key.mem_all (k : Key) : k ∈ Key.all := by cases k <;> decide

/-- A key with its value. -/
inductive Entry
  | t (v : Nat) | d (v : Nat) | n (v : Nat) | h (b : Bytes) | r (b : Bytes) | o (b : Bytes)
  | i (v : Nat) | l (v : Nat) | q (b : Option Bytes) | f (v : UInt8) | m (b : Bytes)

namespace Entry

def key : Entry → Key
  | .t _ => .t | .d _ => .d | .n _ => .n | .h _ => .h | .r _ => .r | .o _ => .o
  | .i _ => .i | .l _ => .l | .q _ => .q | .f _ => .f | .m _ => .m

/-- How the value of an entry is written. -/
def Value : Entry → Bytes → Prop
  | .t v, w | .d v, w => Header unsigned w v
  | .n v, w | .i v, w | .l v, w => Header unsigned w v ∧ v < 2 ^ 32
  | .h b, w | .r b, w | .o b, w | .m b, w => Counted binaryLength w b
  | .q b, w => OptionalBinary w b
  | .f v, w => Header unsigned w v.toNat

/-- A text of one letter, and the value. -/
def Form (w : Bytes) (e : Entry) : Prop :=
  ∃ key value, w = key ++ value ∧ Counted textLength key [e.key.byte] ∧ e.Value value

end Entry

/-- The record with one more entry, in place of an earlier one with its key. -/
def Fields.put (acc : Fields) : Entry → Fields
  | .t v => { acc with t := some v } | .d v => { acc with d := some v } | .n v => { acc with n := some v }
  | .h b => { acc with h := some b } | .r b => { acc with r := some b } | .o b => { acc with o := some b }
  | .i v => { acc with i := some v } | .l v => { acc with l := some v } | .q b => { acc with q := some b }
  | .f v => { acc with f := some v } | .m b => { acc with m := some b }

def Fields.lookup (acc : Fields) : Key → Option Entry
  | .t => acc.t.map .t | .d => acc.d.map .d | .n => acc.n.map .n | .h => acc.h.map .h | .r => acc.r.map .r
  | .o => acc.o.map .o | .i => acc.i.map .i | .l => acc.l.map .l | .q => acc.q.map .q | .f => acc.f.map .f
  | .m => acc.m.map .m

/-- The entry of an advertisement under a key. -/
def entry (a : ResourceAdvertisement) : Key → Entry
  | .t => .t a.t | .d => .d a.d | .n => .n a.n | .h => .h a.h | .r => .r a.r | .o => .o a.o
  | .i => .i a.i | .l => .l a.l | .q => .q a.q | .f => .f a.f | .m => .m a.m

def entries (a : ResourceAdvertisement) : List Entry := Key.all.map a.entry

omit [Rmp] in
theorem lookup_put (acc : Fields) (e : Entry) (k : Key) :
    (acc.put e).lookup k = if e.key = k then some e else acc.lookup k := by
  cases e <;> cases k <;> rfl

omit [Rmp] in
theorem key_entry (a : ResourceAdvertisement) (k : Key) : (a.entry k).key = k := by cases k <;> rfl

/-- The full record of an advertisement. -/
def fields (a : ResourceAdvertisement) : Fields :=
  ⟨some a.t, some a.d, some a.n, some a.h, some a.r, some a.o, some a.i, some a.l, some a.q, some a.f, some a.m⟩

omit [Rmp] in
theorem ofFields_eq_ok {acc : Fields} {a : ResourceAdvertisement} : ofFields acc = .ok a ↔ acc = a.fields := by
  constructor
  · intro hall
    obtain ⟨t, ht, hall⟩ := bind_eq_ok.mp hall
    obtain ⟨d, hd, hall⟩ := bind_eq_ok.mp hall
    obtain ⟨n, hn, hall⟩ := bind_eq_ok.mp hall
    obtain ⟨h, hh, hall⟩ := bind_eq_ok.mp hall
    obtain ⟨r, hr, hall⟩ := bind_eq_ok.mp hall
    obtain ⟨o, ho, hall⟩ := bind_eq_ok.mp hall
    obtain ⟨i, hi, hall⟩ := bind_eq_ok.mp hall
    obtain ⟨l, hl, hall⟩ := bind_eq_ok.mp hall
    obtain ⟨q, hq, hall⟩ := bind_eq_ok.mp hall
    obtain ⟨f, hf, hall⟩ := bind_eq_ok.mp hall
    obtain ⟨m, hm, hall⟩ := bind_eq_ok.mp hall
    cases hall
    rw [ofRead_eq_ok] at ht hd hn hh hr ho hi hl hq hf hm
    cases acc
    subst ht hd hn hh hr ho hi hl hq hf hm
    rfl
  · rintro rfl
    rfl

omit [Rmp] in
theorem map_eq_some_iff {α : Type} {mk : α → Entry} (hmk : ∀ v v', mk v = mk v' → v = v') {x : Option α} {v : α} :
    x.map mk = some (mk v) ↔ x = some v := by
  constructor
  · intro h
    obtain ⟨v', rfl, heq⟩ := Option.map_eq_some_iff.mp h
    rw [hmk v' v heq]
  · rintro rfl
    rfl

omit [Rmp] in
/-- The record of an advertisement is the one in which every key is found. -/
theorem ofFields_eq_ok_iff {acc : Fields} {a : ResourceAdvertisement} :
    ofFields acc = .ok a ↔ ∀ k ∈ Key.all, acc.lookup k = some (a.entry k) := by
  rw [ofFields_eq_ok]
  constructor
  · rintro rfl k -
    cases k <;> rfl
  · intro hall
    have hfield (k : Key) : acc.lookup k = some (a.entry k) := hall k k.mem_all
    have ht := (map_eq_some_iff (fun _ _ h => Entry.t.inj h)).mp (hfield .t)
    have hd := (map_eq_some_iff (fun _ _ h => Entry.d.inj h)).mp (hfield .d)
    have hn := (map_eq_some_iff (fun _ _ h => Entry.n.inj h)).mp (hfield .n)
    have hh := (map_eq_some_iff (fun _ _ h => Entry.h.inj h)).mp (hfield .h)
    have hr := (map_eq_some_iff (fun _ _ h => Entry.r.inj h)).mp (hfield .r)
    have ho := (map_eq_some_iff (fun _ _ h => Entry.o.inj h)).mp (hfield .o)
    have hi := (map_eq_some_iff (fun _ _ h => Entry.i.inj h)).mp (hfield .i)
    have hl := (map_eq_some_iff (fun _ _ h => Entry.l.inj h)).mp (hfield .l)
    have hq := (map_eq_some_iff (fun _ _ h => Entry.q.inj h)).mp (hfield .q)
    have hf := (map_eq_some_iff (fun _ _ h => Entry.f.inj h)).mp (hfield .f)
    have hm := (map_eq_some_iff (fun _ _ h => Entry.m.inj h)).mp (hfield .m)
    cases acc
    subst ht hd hn hh hr ho hi hl hq hf hm
    rfl

/-! ## What the loop reads -/

omit [Rmp] in
theorem byte_inj {k k' : Key} (h : k.byte = k'.byte) : k = k' := by
  cases k <;> cases k' <;> first | rfl | exact absurd h (by decide)

/-- What an entry under a key looks like. -/
def Entry.Under (e : Entry) : Key → Prop
  | .t => ∃ v, e = .t v | .d => ∃ v, e = .d v | .n => ∃ v, e = .n v | .h => ∃ b, e = .h b | .r => ∃ b, e = .r b
  | .o => ∃ b, e = .o b | .i => ∃ v, e = .i v | .l => ∃ v, e = .l v | .q => ∃ b, e = .q b | .f => ∃ v, e = .f v
  | .m => ∃ b, e = .m b

omit [Rmp] in
theorem Entry.under_key (e : Entry) : e.Under e.key := by cases e <;> exact ⟨_, rfl⟩

omit [Rmp] in
/-- One arm of the match on the key: its value is read, and put into the record. -/
theorem reads_arm (k : Key) {α : Type} (mk : α → Entry) {f : Bytes → Except CoreError (α × Bytes)}
    (hf : Reads f fun w v => (mk v).Value w) (hmk : ∀ v, (mk v).key = k) (hunder : ∀ e : Entry, e.Under k → ∃ v, e = mk v)
    {acc : Fields} {key : Bytes}
    {f' : Bytes → Except CoreError (Fields × Bytes)}
    (hf' : key ≠ [k.byte] → Reads f' fun w acc' => ∃ e : Entry, key = [e.key.byte] ∧ e.Value w ∧ acc' = acc.put e) :
    Reads (fun input => if key = [k.byte] then f input >>= fun r => pure (acc.put (mk r.1), r.2) else f' input)
      fun w acc' => ∃ e : Entry, key = [e.key.byte] ∧ e.Value w ∧ acc' = acc.put e := by
  refine .ite (fun h => ?_) hf'
  subst h
  refine (hf.map fun v => acc.put (mk v)).congr fun w acc' => ⟨?_, ?_⟩
  · rintro ⟨v, hv, rfl⟩
    exact ⟨mk v, by rw [hmk], hv, rfl⟩
  · rintro ⟨e, hbyte, hv, rfl⟩
    have hkey := byte_inj (List.cons.inj hbyte).1
    obtain ⟨v, rfl⟩ := hunder e (hkey ▸ e.under_key)
    exact ⟨v, hv, rfl⟩

theorem reads_readField (hF : Rmp.FollowsFormat) (acc : Fields) :
    Reads (readField acc) fun w acc' => ∃ e : Entry, e.Form w ∧ acc' = acc.put e := by
  have hinteger := reads_readInteger hF
  have hu32 := reads_readU32 hF
  have hbinary := reads_readBinary hF
  have hoptional := reads_readOptionalBinary hF
  have hu8 := reads_readU8 hF
  have hlast (key : Bytes) (hkey : ∀ k : Key, key ≠ [k.byte]) : Reads (fun _ => (throw .invalidField : Except CoreError (Fields × Bytes)))
      fun w acc' => ∃ e : Entry, key = [e.key.byte] ∧ e.Value w ∧ acc' = acc.put e :=
    (reads_fail _).congr fun w acc' => ⟨False.elim, fun ⟨e, he, _⟩ => hkey e.key he⟩
  refine ((reads_readText hF).bind (S := fun key w acc' => ∃ e : Entry, key = [e.key.byte] ∧ e.Value w ∧ acc' = acc.put e)
    fun key => ?_).congr fun w acc' => ⟨?_, ?_⟩
  · dsimp only
    refine reads_arm .t Entry.t hinteger (fun _ => rfl) (fun _ h => h) fun ht => ?_
    refine reads_arm .d Entry.d hinteger (fun _ => rfl) (fun _ h => h) fun hd => ?_
    refine reads_arm .n Entry.n hu32 (fun _ => rfl) (fun _ h => h) fun hn => ?_
    refine reads_arm .h Entry.h hbinary (fun _ => rfl) (fun _ h => h) fun hh => ?_
    refine reads_arm .r Entry.r hbinary (fun _ => rfl) (fun _ h => h) fun hr => ?_
    refine reads_arm .o Entry.o hbinary (fun _ => rfl) (fun _ h => h) fun ho => ?_
    refine reads_arm .i Entry.i hu32 (fun _ => rfl) (fun _ h => h) fun hi => ?_
    refine reads_arm .l Entry.l hu32 (fun _ => rfl) (fun _ h => h) fun hl => ?_
    refine reads_arm .q Entry.q hoptional (fun _ => rfl) (fun _ h => h) fun hq => ?_
    refine reads_arm .f Entry.f hu8 (fun _ => rfl) (fun _ h => h) fun hf => ?_
    refine reads_arm .m Entry.m hbinary (fun _ => rfl) (fun _ h => h) fun hm => ?_
    exact hlast key fun k => by cases k <;> assumption
  · rintro ⟨_, key, value, rfl, hkey, e, rfl, hvalue, rfl⟩
    exact ⟨e, ⟨key, value, rfl, hkey, hvalue⟩, rfl⟩
  · rintro ⟨e, ⟨key, value, rfl, hkey, hvalue⟩, rfl⟩
    exact ⟨_, key, value, rfl, hkey, e, rfl, hvalue, rfl⟩

theorem reads_readFields (hF : Rmp.FollowsFormat) (n : Nat) (acc : Fields) :
    Reads (readFields n acc) fun w acc' => ∃ es : List Entry, Listed Entry.Form w es ∧ es.length = n ∧ acc' = es.foldl Fields.put acc := by
  have hfold (n : Nat) (acc : Fields) (input : Bytes) : readFields n acc input = fold readField n acc input := by
    induction n generalizing acc input with
    | zero => rfl
    | succ n ih =>
      change (readField acc input >>= fun r => readFields n r.1 r.2) = readField acc input >>= fun r => fold readField n r.1 r.2
      congr 1
      funext r
      exact ih r.1 r.2
  intro input acc' rest
  rw [hfold]
  exact reads_fold (reads_readField hF) n acc input acc' rest

/-! ## What is unpacked -/

/-- What the reader asks of the fields. -/
structure Admissible (a : ResourceAdvertisement) : Prop where
  t : a.t ≤ MAX_EFFICIENT_SIZE * 3
  h : a.h.length = 32
  r : a.r.length = RANDOM_HASH_SIZE
  o : a.o.length = 32
  m : a.m.length % MAPHASH_LEN = 0
  n : 0 < a.n

/-- The steps of the reader, when all of them succeed. -/
theorem unpack_eq_ok {data : Bytes} {a : ResourceAdvertisement} : unpack data = .ok a ↔
    ∃ input acc, ofRead (Rmp.readMapLen data) = .ok (11, input) ∧ readFields 11 {} input = .ok (acc, []) ∧
      ofFields acc = .ok a ∧ a.Admissible := by
  unfold unpack
  rw [bind_eq_ok]
  constructor
  · rintro ⟨⟨fields, input⟩, hmap, h⟩
    dsimp only at h
    by_cases hfields : fields = 11
    · subst hfields
      rw [if_neg (not_not_intro rfl)] at h
      obtain ⟨⟨acc, rest⟩, hread, h⟩ := bind_eq_ok.mp h
      dsimp only at h
      by_cases hrest : rest = []
      · subst hrest
        rw [if_neg (not_not_intro rfl)] at h
        obtain ⟨a', hof, h⟩ := bind_eq_ok.mp h
        split at h
        · cases h
        · rename_i hcheck
          cases h
          simp only [not_or, not_not] at hcheck
          obtain ⟨ht, hh, hr, ho, hm, hn⟩ := hcheck
          exact ⟨input, acc, hmap, hread, hof, ⟨Nat.le_of_not_lt ht, hh, hr, ho, hm, Nat.pos_of_ne_zero hn⟩⟩
      · rw [if_pos hrest] at h
        cases h
    · rw [if_pos hfields] at h
      cases h
  · rintro ⟨input, acc, hmap, hread, hof, ha⟩
    refine ⟨(11, input), hmap, ?_⟩
    have hcheck : ¬ (a.t > MAX_EFFICIENT_SIZE * 3 ∨ a.h.length ≠ 32 ∨ a.r.length ≠ RANDOM_HASH_SIZE ∨ a.o.length ≠ 32 ∨
        a.m.length % MAPHASH_LEN ≠ 0 ∨ a.n = 0) := by
      simp only [not_or, not_not]
      exact ⟨Nat.not_lt.mpr ha.t, ha.h, ha.r, ha.o, ha.m, Nat.pos_iff_ne_zero.mp ha.n⟩
    dsimp only
    rw [if_neg (not_not_intro rfl)]
    refine bind_eq_ok.mpr ⟨(acc, []), hread, ?_⟩
    dsimp only
    rw [if_neg (not_not_intro rfl)]
    refine bind_eq_ok.mpr ⟨a, hof, ?_⟩
    rw [if_neg hcheck]
    rfl

/-- What is accepted: a map of eleven entries, which are those of the advertisement in some order. -/
theorem unpack_eq_ok_iff (hF : Rmp.FollowsFormat) {data : Bytes} {a : ResourceAdvertisement} : unpack data = .ok a ↔
    a.Admissible ∧ ∃ head body es, Header mapLength head 11 ∧ Listed Entry.Form body es ∧ es.Perm a.entries ∧
      data = head ++ body := by
  have hfilled (es : List Entry) (hlen : es.length = 11) :
      ofFields (es.foldl Fields.put {}) = .ok a ↔ es.Perm a.entries :=
    ofFields_eq_ok_iff.trans (Keyed.filled_iff lookup_put (fun k => by cases k <;> rfl) (by decide) hlen a.key_entry)
  rw [unpack_eq_ok]
  constructor
  · rintro ⟨input, acc, hmap, hread, hof, ha⟩
    obtain ⟨head, hhead, rfl⟩ := (reads_ofRead hF.readMapLen data 11 input).mp hmap
    obtain ⟨body, ⟨es, hlisted, hlen, rfl⟩, rfl⟩ := (reads_readFields hF 11 {} input acc []).mp hread
    exact ⟨ha, head, body, es, hhead, hlisted, (hfilled es hlen).mp hof, by rw [List.append_nil]⟩
  · rintro ⟨ha, head, body, es, hhead, hlisted, hperm, rfl⟩
    have hlen : es.length = 11 := hperm.length_eq.trans rfl
    refine ⟨body, es.foldl Fields.put {}, (reads_ofRead hF.readMapLen).read hhead body, ?_, (hfilled es hlen).mpr hperm, ha⟩
    exact (reads_readFields hF 11 {} body _ []).mpr ⟨body, ⟨es, hlisted, hlen, rfl⟩, (List.append_nil body).symm⟩

theorem unpack_append (hF : Rmp.FollowsFormat) {data more : Bytes} {a a' : ResourceAdvertisement} (h : unpack data = .ok a)
    (h' : unpack (data ++ more) = .ok a') : more = [] := by
  obtain ⟨input, acc, hmap, hread, -⟩ := unpack_eq_ok.mp h
  obtain ⟨input', acc', hmap', hread', -⟩ := unpack_eq_ok.mp h'
  rw [(reads_ofRead hF.readMapLen).append hmap more] at hmap'
  cases hmap'
  rw [(reads_readFields hF 11 {}).append hread more] at hread'
  cases hread'
  rfl

/-! ## Sizes -/

/-- The widths of the integers in the record. -/
structure Typed (a : ResourceAdvertisement) : Prop where
  t : a.t < 2 ^ 64
  d : a.d < 2 ^ 64
  n : a.n < 2 ^ 32
  i : a.i < 2 ^ 32
  l : a.l < 2 ^ 32

/-- The byte strings of free length have a length that the format can write. -/
structure Sized (a : ResourceAdvertisement) : Prop where
  q : ∀ requestId, a.q = some requestId → requestId.length < 2 ^ 32
  m : a.m.length < 2 ^ 32

omit [Rmp] in
/-- What an entry that is written says about its value. -/
theorem sized_of_forms {a : ResourceAdvertisement} (h : ∀ k, ∃ w, (a.entry k).Value w) : a.Typed ∧ a.Sized := by
  obtain ⟨_, ht⟩ := h .t
  obtain ⟨_, hd⟩ := h .d
  obtain ⟨_, hn⟩ := h .n
  obtain ⟨_, hi⟩ := h .i
  obtain ⟨_, hl⟩ := h .l
  obtain ⟨_, hq⟩ := h .q
  obtain ⟨_, hm⟩ := h .m
  refine ⟨⟨unsigned_lt ht, unsigned_lt hd, hn.2, hi.2, hl.2⟩, fun requestId hsome => ?_, Counted.length_lt hm⟩
  have hq : OptionalBinary _ a.q := hq
  rw [hsome] at hq
  exact Counted.length_lt hq

theorem sized_of_unpack (hF : Rmp.FollowsFormat) {data : Bytes} {a : ResourceAdvertisement} (h : unpack data = .ok a) :
    a.Typed ∧ a.Sized := by
  obtain ⟨-, head, body, es, -, hlisted, hperm, -⟩ := (unpack_eq_ok_iff hF).mp h
  refine sized_of_forms fun k => ?_
  have hmem : a.entry k ∈ es := hperm.mem_iff.mpr (List.mem_map_of_mem k.mem_all)
  obtain ⟨_, _, value, rfl, -, hvalue⟩ := hlisted.exists_of_mem hmem
  exact ⟨value, hvalue⟩

/-! ## What is packed -/

/-- How `pack` writes a value. -/
def Entry.pack : Entry → Bytes
  | .t v | .d v | .n v | .i v | .l v => Rmp.writeUint v
  | .h b | .r b | .o b | .m b => Rmp.writeBin b
  | .q (some b) => Rmp.writeBin b
  | .q none => Rmp.writeNil
  | .f v => Rmp.writeUint v.toNat

/-- A packed advertisement is its entries in the order of the keys. -/
theorem pack_eq (a : ResourceAdvertisement) :
    a.pack = Rmp.writeMapLen 11 ++ a.entries.flatMap fun e => Rmp.writeStr [e.key.byte] ++ e.pack := by
  unfold pack entries Key.all
  cases hq : a.q with
  | none =>
    have hentry : (a.entry .q).pack = Rmp.writeNil := by rw [entry, hq, Entry.pack]
    simp only [List.map_cons, List.map_nil, List.flatMap_cons, List.flatMap_nil, List.append_assoc, List.append_nil,
      writeU64Field, writeBinField, hentry]
    rfl
  | some requestId =>
    have hentry : (a.entry .q).pack = Rmp.writeBin requestId := by rw [entry, hq, Entry.pack]
    simp only [List.map_cons, List.map_nil, List.flatMap_cons, List.flatMap_nil, List.append_assoc, List.append_nil,
      writeU64Field, writeBinField, hentry]
    rfl

theorem entry_form (hF : Rmp.FollowsFormat) {a : ResourceAdvertisement} (ha : a.Admissible) (ht : a.Typed) (hs : a.Sized) (k : Key) :
    Entry.Form (Rmp.writeStr [(a.entry k).key.byte] ++ (a.entry k).pack) (a.entry k) := by
  refine ⟨_, _, rfl, hF.writeStr _ (by simp), ?_⟩
  cases k with
  | t => exact hF.writeUint _ ht.t
  | d => exact hF.writeUint _ ht.d
  | n => exact ⟨hF.writeUint _ (Nat.lt_trans ht.n (by decide)), ht.n⟩
  | i => exact ⟨hF.writeUint _ (Nat.lt_trans ht.i (by decide)), ht.i⟩
  | l => exact ⟨hF.writeUint _ (Nat.lt_trans ht.l (by decide)), ht.l⟩
  | h => exact hF.writeBin _ (by rw [ha.h]; decide)
  | r => exact hF.writeBin _ (by rw [ha.r]; decide)
  | o => exact hF.writeBin _ (by rw [ha.o]; decide)
  | m => exact hF.writeBin _ hs.m
  | f => exact hF.writeUint _ (Nat.lt_trans a.f.toNat_lt (by decide))
  | q =>
    change OptionalBinary (Entry.pack (.q a.q)) a.q
    cases hq : a.q with
    | none => exact hF.writeNil
    | some requestId => exact hF.writeBin _ (hs.q requestId hq)

theorem unpack_of_perm (hF : Rmp.FollowsFormat) {a : ResourceAdvertisement} (ha : a.Admissible) (ht : a.Typed) (hs : a.Sized)
    {es : List Entry} (hperm : es.Perm a.entries) :
    unpack (Rmp.writeMapLen 11 ++ es.flatMap fun e => Rmp.writeStr [e.key.byte] ++ e.pack) = .ok a := by
  refine (unpack_eq_ok_iff hF).mpr ⟨ha, _, _, es, hF.writeMapLen 11 (by decide), Cursor.listed_flatMap fun e he => ?_, hperm, rfl⟩
  obtain ⟨k, -, rfl⟩ := List.mem_map.mp (hperm.mem_iff.mp he)
  exact entry_form hF ha ht hs k

theorem unpack_pack_all (hF : Rmp.FollowsFormat) {a : ResourceAdvertisement} (ha : a.Admissible) (ht : a.Typed) (hs : a.Sized) :
    unpack a.pack = .ok a := by
  rw [pack_eq]
  exact unpack_of_perm hF ha ht hs (List.Perm.refl _)

end ResourceAdvertisement

open ResourceAdvertisement

theorem length_lt_of_unpackHashmapUpdate (hF : Rmp.FollowsFormat) {data : Bytes} {hash : Arr 32} {segment : Nat} {map : Bytes}
    (h : unpackHashmapUpdate data = .ok (hash, segment, map)) : map.length < 2 ^ 32 := by
  unfold unpackHashmapUpdate at h
  split at h
  · cases h
  · obtain ⟨⟨len, input⟩, -, h⟩ := bind_eq_ok.mp h
    dsimp only at h
    split at h
    · cases h
    · obtain ⟨⟨seg, input⟩, -, h⟩ := bind_eq_ok.mp h
      obtain ⟨⟨b, input⟩, hb, h⟩ := bind_eq_ok.mp h
      dsimp only at h
      split at h
      · cases h
      · cases h
        obtain ⟨_, hcounted, -⟩ := (reads_readBinary hF _ _ _).mp hb
        exact Counted.length_lt hcounted

/-- Advertisements and map updates are read back from what they are packed to, and an advertisement is read just from a map
of its eleven entries, in any order, with nothing behind it. -/
theorem control_messages_roundtrip (hF : Rmp.FollowsFormat) :
    (∀ a : ResourceAdvertisement, a.Admissible → a.Typed → a.Sized → unpack a.pack = .ok a) ∧
    (∀ (data : Bytes) (a : ResourceAdvertisement), unpack data = .ok a → (a.Admissible ∧ a.Typed ∧ a.Sized) ∧ unpack a.pack = .ok a ∧
      ∀ data', data' ≠ data → data' <+: data ∨ data <+: data' → ∀ a', unpack data' ≠ .ok a') ∧
    (∀ (data : Bytes) (a : ResourceAdvertisement), unpack data = .ok a ↔ a.Admissible ∧ ∃ head body es, Header mapLength head 11 ∧
      Listed Entry.Form body es ∧ es.Perm a.entries ∧ data = head ++ body) ∧
    ∀ (hash : Arr 32) (segment : Nat) (map : Bytes), segment < 2 ^ 32 → map ≠ [] → map.length % MAPHASH_LEN = 0 →
      map.length < 2 ^ 32 → unpackHashmapUpdate (packHashmapUpdate hash segment map) = .ok (hash, segment, map) := by
  refine ⟨fun a ha ht hs => unpack_pack_all hF ha ht hs, fun data a h => ?_, fun data a => unpack_eq_ok_iff hF,
    fun hash segment map hs hne hmod hlen => unpackHashmapUpdate_pack hF.readsWritten hash hs hne hmod hlen⟩
  have ha := ((unpack_eq_ok_iff hF).mp h).1
  obtain ⟨ht, hs⟩ := sized_of_unpack hF h
  refine ⟨⟨ha, ht, hs⟩, unpack_pack_all hF ha ht hs, fun data' hne hpre a' h' => hne ?_⟩
  rcases hpre with ⟨more, rfl⟩ | ⟨more, rfl⟩
  · rw [unpack_append hF h' h, List.append_nil]
  · rw [unpack_append hF h h', List.append_nil]

end

/-! ## A codec of the format -/

namespace Sample

theorem ofBE_eq_value (b : Bytes) : ofBE b = b.value := by
  have hfold (v : Nat) : b.foldl (fun v x => v * 256 + x.toNat) v = v * 256 ^ b.length + b.value := by
    induction b generalizing v with
    | nil => rw [List.foldl_nil, List.length_nil, Nat.pow_zero, Nat.mul_one, Bytes.value, Nat.add_zero]
    | cons x b ih =>
      rw [List.foldl_cons, ih, Bytes.value, List.length_cons, Nat.pow_succ, Nat.add_mul, Nat.mul_assoc, Nat.mul_comm 256,
        Nat.add_assoc]
  rw [ofBE, hfold, Nat.zero_mul, Nat.zero_add]

def readNumber : Number → Bytes → Option (Nat × Bytes)
  | .inMarker n, input => some (n, input)
  | .behind width, input => readBE width input
  | .signed width, input => readSigned width input
  | .missing, _ => none

theorem readBE_eq_some {k n : Nat} {input rest : Bytes} :
    readBE k input = some (n, rest) ↔ ∃ w, (w.length = k ∧ n = w.value) ∧ input = w ++ rest := by
  unfold readBE
  constructor
  · intro h
    split at h
    · cases h
    · cases h
      refine ⟨input.take k, ⟨?_, ofBE_eq_value _⟩, (List.take_append_drop k input).symm⟩
      rw [List.length_take]
      omega
  · rintro ⟨w, ⟨rfl, rfl⟩, rfl⟩
    rw [if_neg (by simp), List.take_left, List.drop_left, ofBE_eq_value]

theorem readNumber_eq_some {form : Number} {n : Nat} {input rest : Bytes} :
    readNumber form input = some (n, rest) ↔ ∃ w, form.Word w n ∧ input = w ++ rest := by
  cases form with
  | inMarker k =>
    constructor
    · intro h
      cases h
      exact ⟨[], ⟨rfl, rfl⟩, rfl⟩
    · rintro ⟨w, ⟨rfl, rfl⟩, rfl⟩
      rfl
  | behind width => exact readBE_eq_some
  | signed width =>
    change readSigned width input = _ ↔ _
    unfold readSigned
    constructor
    · intro h
      split at h
      · rename_i v tail hread
        obtain ⟨w, ⟨hlen, rfl⟩, rfl⟩ := readBE_eq_some.mp hread
        split at h
        · rename_i hlt
          cases h
          exact ⟨w, ⟨hlen, rfl, hlt⟩, rfl⟩
        · cases h
      · cases h
    · rintro ⟨w, ⟨hlen, hn, hlt⟩, rfl⟩
      rw [readBE_eq_some.mpr ⟨w, ⟨hlen, hn⟩, rfl⟩]
      exact if_pos hlt
  | missing =>
    constructor
    · intro h
      cases h
    · rintro ⟨w, hw, -⟩
      exact hw.elim

theorem follows_of_readNumber {read : Bytes → Option (Nat × Bytes)} {number : UInt8 → Number} (hnil : read [] = none)
    (hcons : ∀ marker input, read (marker :: input) = readNumber (number marker) input) : Rmp.Follows read number := by
  intro input n rest
  cases input with
  | nil =>
    rw [hnil]
    constructor
    · intro h
      cases h
    · rintro ⟨w, hw, heq⟩
      rw [(List.append_eq_nil_iff.mp heq.symm).1] at hw
      exact hw.elim
  | cons marker input =>
    rw [hcons, readNumber_eq_some]
    constructor
    · rintro ⟨w, hw, rfl⟩
      exact ⟨marker :: w, hw, rfl⟩
    · rintro ⟨w, hw, heq⟩
      cases w with
      | nil => exact hw.elim
      | cons m w =>
        cases heq
        exact ⟨w, hw, rfl⟩

theorem header_of_read {read : Bytes → Option (Nat × Bytes)} {number : UInt8 → Number} (hf : Rmp.Follows read number) {w : Bytes}
    {n : Nat} (h : read (w ++ []) = some (n, [])) : Header number w n := by
  obtain ⟨w', hw', heq⟩ := (hf _ n []).mp h
  rw [List.append_nil, List.append_nil] at heq
  exact heq ▸ hw'

theorem readNumber_ite (c : Prop) [Decidable c] (form form' : Number) (input : Bytes) :
    readNumber (if c then form else form') input = if c then readNumber form input else readNumber form' input := by
  split <;> rfl

theorem followsFormat : @Rmp.FollowsFormat rmp := by
  have hmap : Rmp.Follows readMapLen mapLength := follows_of_readNumber rfl fun marker input => by
    have hfix : marker < 0x90 ↔ marker ≤ 0x8f := by grind
    simp only [readMapLen, mapLength, readNumber_ite, hfix]
    rfl
  have harray : Rmp.Follows readArrayLen arrayLength := follows_of_readNumber rfl fun marker input => by
    have hfix : marker < 0xA0 ↔ marker ≤ 0x9f := by grind
    simp only [readArrayLen, arrayLength, readNumber_ite, hfix]
    rfl
  have hstr : Rmp.Follows readStrLen textLength := follows_of_readNumber rfl fun marker input => by
    have hfix : marker < 0xC0 ↔ marker ≤ 0xbf := by grind
    simp only [readStrLen, textLength, readNumber_ite, hfix]
    rfl
  have hbin : Rmp.Follows readBinLen binaryLength := follows_of_readNumber rfl fun marker input => by
    simp only [readBinLen, binaryLength, readNumber_ite]
    rfl
  have hint : Rmp.Follows readInt unsigned := follows_of_readNumber rfl fun marker input => by
    have hfix : marker < 0x80 ↔ marker ≤ 0x7f := by grind
    simp only [readInt, unsigned, readNumber_ite, hfix]
    rfl
  exact @Rmp.FollowsFormat.mk rmp hmap harray hstr hbin hint
    (fun n h => header_of_read hmap (readMapLen_write h []))
    (fun n h => header_of_read harray (readArrayLen_write h []))
    (fun b h => ⟨_, header_of_read hstr (readStrLen_write h []), rfl⟩)
    (fun b h => ⟨_, header_of_read hbin (readBinLen_write h []), rfl⟩)
    (fun n h => header_of_read hint (readInt_write h [])) rfl

/-- With a request id, and a map of so many bytes. -/
def advertisement (mapLen : Nat) : ResourceAdvertisement where
  t := 3000000
  d := 2 ^ 63
  n := 2 ^ 31
  h := List.replicate 32 1
  r := List.replicate 4 2
  o := List.replicate 32 3
  i := 300
  l := 70000
  q := some [1, 2, 3]
  f := 3
  m := List.replicate mapLen 0

theorem advertisement_admissible (mapLen : Nat) (h : mapLen % 4 = 0) :
    (advertisement mapLen).Admissible ∧ (advertisement mapLen).Typed := by
  have hm : (advertisement mapLen).m.length % MAPHASH_LEN = 0 := by
    rw [advertisement, List.length_replicate]
    exact h
  have hd : 2 ^ 63 < 2 ^ 64 := by decide
  exact ⟨⟨of_decide_eq_true rfl, rfl, rfl, rfl, hm, of_decide_eq_true rfl⟩,
    ⟨of_decide_eq_true rfl, hd, of_decide_eq_true rfl, of_decide_eq_true rfl, of_decide_eq_true rfl⟩⟩

end Sample

section
open Sample ResourceAdvertisement

theorem control_messages_roundtrip_advertised : unpack (advertisement 8).pack = .ok (advertisement 8) := by
  obtain ⟨ha, ht⟩ := advertisement_admissible 8 (by decide)
  have hs : (advertisement 8).Sized := ⟨fun requestId h => by cases h; decide, by decide⟩
  exact (control_messages_roundtrip followsFormat).1 (advertisement 8) ha ht hs

/-- A map of 2^32 bytes does not come back. -/
theorem control_messages_limits :
    ¬ (∀ a : ResourceAdvertisement, a.Admissible → a.Typed → unpack a.pack = .ok a) ∧
    ¬ ∀ (hash : Arr 32) (segment : Nat) (map : Bytes), segment < 2 ^ 32 → map ≠ [] → map.length % MAPHASH_LEN = 0 →
      unpackHashmapUpdate (packHashmapUpdate hash segment map) = .ok (hash, segment, map) := by
  constructor
  · intro h
    obtain ⟨ha, ht⟩ := advertisement_admissible (2 ^ 32) (by decide)
    have hlen : (advertisement (2 ^ 32)).m.length < 2 ^ 32 := (sized_of_unpack followsFormat (h _ ha ht)).2.m
    rw [advertisement, List.length_replicate] at hlen
    exact Nat.lt_irrefl _ hlen
  · intro h
    have hne : List.replicate (2 ^ 32) (0 : UInt8) ≠ [] := by
      rw [Ne, List.replicate_eq_nil_iff]
      decide
    have hlen := length_lt_of_unpackHashmapUpdate followsFormat
      (h (arr 32 0) 0 (List.replicate (2 ^ 32) 0) (by decide) hne (by rw [List.length_replicate]; decide))
    rw [List.length_replicate] at hlen
    exact Nat.lt_irrefl _ hlen

end

end Reticulum
