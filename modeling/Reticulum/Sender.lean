import Reticulum.ResourceState

/-!
# The sender's half of a transfer

What a new resource is made of, what the receiver reads of its advertisement
and its map updates, and how a request is answered: by the first slot whose
map entry is the one asked for.
-/

namespace Reticulum

/-! ## Reading back -/

section
variable [Rmp]

omit [Rmp] in
theorem takeBytes_append (b rest : Bytes) : takeBytes (b ++ rest) b.length = .ok (b, rest) := by
  unfold takeBytes
  rw [if_neg (by simp), List.take_left, List.drop_left]

theorem readBinary_writeBin (hR : Rmp.ReadsWritten) {b : Bytes} (h : b.length < 2 ^ 32) (rest : Bytes) :
    readBinary (Rmp.writeBin b ++ rest) = .ok (b, rest) := by
  unfold readBinary
  rw [hR.bin b rest h]
  exact takeBytes_append b rest

theorem readInteger_writeUint (hR : Rmp.ReadsWritten) {v : Nat} (h : v < 2 ^ 64) (rest : Bytes) :
    readInteger (Rmp.writeUint v ++ rest) = .ok (v, rest) := by
  unfold readInteger
  rw [hR.int v rest h]
  rfl

theorem readU32_writeUint (hR : Rmp.ReadsWritten) {v : Nat} (h : v < 2 ^ 32) (rest : Bytes) :
    readU32 (Rmp.writeUint v ++ rest) = .ok (v, rest) := by
  have hv : toU32 v = .ok v := if_pos h
  unfold readU32
  rw [readInteger_writeUint hR (by omega)]
  simp only [bind, Except.bind, hv]
  rfl

theorem readU8_writeUint (hR : Rmp.ReadsWritten) (f : UInt8) (rest : Bytes) :
    readU8 (Rmp.writeUint f.toNat ++ rest) = .ok (f, rest) := by
  have hlt : f.toNat < 2 ^ 8 := f.toNat_lt
  have hv : toU8 f.toNat = .ok f := by
    rw [toU8, if_pos hlt, UInt8.ofNat_toNat]
  unfold readU8
  rw [readInteger_writeUint hR (by omega)]
  simp only [bind, Except.bind, hv]
  rfl

theorem readText_writeStr (hR : Rmp.ReadsWritten) (key : UInt8) (rest : Bytes) :
    readText (Rmp.writeStr [key] ++ rest) = .ok ([key], rest) := by
  unfold readText
  rw [hR.str [key] rest (by simp)]
  exact takeBytes_append [key] rest

theorem unpackHashmapUpdate_pack (hR : Rmp.ReadsWritten) (hash : Arr 32) {segment : Nat} (hs : segment < 2 ^ 32) {map : Bytes}
    (hne : map ≠ []) (hmod : map.length % MAPHASH_LEN = 0) (hlen : map.length < 2 ^ 32) :
    unpackHashmapUpdate (packHashmapUpdate hash segment map) = .ok (hash, segment, map) := by
  have hsplit : packHashmapUpdate hash segment map =
      hash.1 ++ (Rmp.writeArrayLen 2 ++ (Rmp.writeUint segment ++ Rmp.writeBin map)) := by
    simp [packHashmapUpdate]
  have hbin := readBinary_writeBin hR hlen []
  rw [List.append_nil] at hbin
  unfold unpackHashmapUpdate
  rw [hsplit, List.take_left' hash.2, List.drop_left' hash.2, Arr.ofSlice?_val]
  dsimp only
  rw [hR.arrayLen 2 _ (by decide)]
  simp only [ofRead, bind, Except.bind, readU32_writeUint hR hs, hbin]
  simp [hne, hmod, pure, Except.pure]

namespace ResourceAdvertisement

/-- The sizes of the fields fit the way they are written, and the reader takes them. -/
structure Fits (a : ResourceAdvertisement) : Prop where
  t : a.t ≤ MAX_EFFICIENT_SIZE * 3
  d : a.d < 2 ^ 64
  n : 0 < a.n ∧ a.n < 2 ^ 32
  h : a.h.length = 32
  r : a.r.length = RANDOM_HASH_SIZE
  o : a.o.length = 32
  i : a.i < 2 ^ 32
  l : a.l < 2 ^ 32
  q : a.q = none
  m : a.m.length % MAPHASH_LEN = 0 ∧ a.m.length < 2 ^ 32

theorem unpack_pack (hR : Rmp.ReadsWritten) {a : ResourceAdvertisement} (ha : a.Fits) : unpack a.pack = .ok a := by
  have ht : a.t < 2 ^ 64 := Nat.lt_of_le_of_lt ha.t (by decide)
  have hh : a.h.length < 2 ^ 32 := by rw [ha.h]; decide
  have hr : a.r.length < 2 ^ 32 := by rw [ha.r]; decide
  have ho : a.o.length < 2 ^ 32 := by rw [ha.o]; decide
  have hm := readBinary_writeBin hR ha.m.2 []
  rw [List.append_nil] at hm
  have hnil (rest : Bytes) : readOptionalBinary (Rmp.writeNil ++ rest) = .ok (none, rest) := by
    rw [hR.nil]
    rfl
  have hfields : readFields 11 {} (writeU64Field keyT a.t ++ (writeU64Field keyD a.d ++ (writeU64Field keyN a.n ++
      (writeBinField keyH a.h ++ (writeBinField keyR a.r ++ (writeBinField keyO a.o ++ (writeU64Field keyI a.i ++
      (writeU64Field keyL a.l ++ (Rmp.writeStr [keyQ] ++ (Rmp.writeNil ++ (writeU64Field keyF a.f.toNat ++
      writeBinField keyM a.m))))))))))) =
      .ok (⟨some a.t, some a.d, some a.n, some a.h, some a.r, some a.o, some a.i, some a.l, some none, some a.f, some a.m⟩, []) := by
    simp [readFields, readField, writeU64Field, writeBinField, readText_writeStr hR, bind, Except.bind,
      pure, Except.pure, readInteger_writeUint hR ht, readInteger_writeUint hR ha.d, readU32_writeUint hR ha.n.2,
      readBinary_writeBin hR hh, readBinary_writeBin hR hr, readBinary_writeBin hR ho, readU32_writeUint hR ha.i,
      readU32_writeUint hR ha.l, readU8_writeUint hR, hnil, hm, keyT, keyD, keyN, keyH, keyR, keyO, keyI, keyL, keyQ, keyF, keyM]
  have hof : ofFields ⟨some a.t, some a.d, some a.n, some a.h, some a.r, some a.o, some a.i, some a.l, some none, some a.f,
      some a.m⟩ = .ok a := by
    rw [← ha.q]
    rfl
  unfold unpack pack
  simp only [List.append_assoc, hR.mapLen 11 _ (by decide), ofRead, bind, Except.bind, pure, Except.pure, ha.q, hfields, hof]
  simp [ha.t, ha.h, ha.r, ha.o, ha.m.1, Nat.pos_iff_ne_zero.mp ha.n.1]

end ResourceAdvertisement

end

/-! ## A new resource -/

namespace OutboundResource

/-- No entry comes again within the guard. -/
def Guarded (entries : List Bytes) : Prop :=
  ∀ i j e, i < j → entries[i]? = some e → entries[j]? = some e → 2 * WINDOW_MAX + HASHMAP_MAX_LEN < j - i

/-- What the guard has seen, and what it has still to see, by induction on the latter. -/
theorem collides_spaced {seen rest : List Bytes} (h : collides seen rest = false)
    (hseen : seen.length ≤ 2 * WINDOW_MAX + HASHMAP_MAX_LEN) :
    (∀ s j e, seen[s]? = some e → rest[j]? = some e → 2 * WINDOW_MAX + HASHMAP_MAX_LEN < seen.length - s + j) ∧
      Guarded rest := by
  induction rest generalizing seen with
  | nil => exact ⟨fun _ _ _ _ h => (by simp at h), fun _ _ _ _ h => (by simp at h)⟩
  | cons entry rest ih =>
    unfold collides at h
    split at h
    · cases h
    · rename_i hnew
      -- the window after this entry, and where an older entry stands in it
      obtain ⟨seen', hrest, hlen, hold, hlast⟩ : ∃ seen' : List Bytes, collides seen' rest = false ∧
          seen'.length ≤ 2 * WINDOW_MAX + HASHMAP_MAX_LEN ∧
          (∀ s e, seen[s]? = some e → 2 * WINDOW_MAX + HASHMAP_MAX_LEN < seen.length + 1 - s ∨
            ∃ s', seen'[s']? = some e ∧ seen'.length - s' = seen.length + 1 - s) ∧
          ∃ s', seen'[s']? = some entry ∧ seen'.length - s' = 1 := by
        dsimp only at h
        rw [List.length_append, List.length_singleton] at h
        have hin {s : Nat} {e : Bytes} (hs : seen[s]? = some e) : s < seen.length := (List.getElem?_eq_some_iff.mp hs).1
        have hpos : 0 < HASHMAP_MAX_LEN := by decide
        split at h
        · rename_i hfull
          have hlen : ((seen ++ [entry]).drop 1).length = seen.length := by simp
          refine ⟨_, h, hlen ▸ hseen, fun s e hs => ?_, seen.length - 1, ?_, by rw [hlen]; omega⟩
          · cases s with
            | zero => exact .inl (by omega)
            | succ s =>
              have := hin hs
              refine .inr ⟨s, ?_, by rw [hlen]; omega⟩
              rw [List.getElem?_drop, List.getElem?_append_left (by omega), Nat.add_comm]
              exact hs
          · rw [List.getElem?_drop, show 1 + (seen.length - 1) = seen.length by omega, List.getElem?_concat_length]
        · rename_i hroom
          have hlen : (seen ++ [entry]).length = seen.length + 1 := by simp
          refine ⟨_, h, by omega, fun s e hs => .inr ⟨s, ?_, by rw [hlen]⟩, seen.length, List.getElem?_concat_length,
            by rw [hlen]; omega⟩
          rw [List.getElem?_append_left (hin hs), hs]
      obtain ⟨hback, hguard⟩ := ih hrest hlen
      constructor
      · intro s j e hs hj
        cases j with
        | zero =>
          rw [List.getElem?_cons_zero, Option.some.injEq] at hj
          exact absurd (hj ▸ List.mem_of_getElem? hs) hnew
        | succ j =>
          rw [List.getElem?_cons_succ] at hj
          have hlt := (List.getElem?_eq_some_iff.mp hs).1
          rcases hold s e hs with hfar | ⟨s', hs', hsame⟩
          · omega
          · have := hback s' j e hs' hj
            omega
      · intro i j e hij hi hj
        cases j with
        | zero => omega
        | succ j =>
          rw [List.getElem?_cons_succ] at hj
          cases i with
          | zero =>
            rw [List.getElem?_cons_zero, Option.some.injEq] at hi
            obtain ⟨s', hs', hone⟩ := hlast
            have := hback s' j e (hi ▸ hs') hj
            omega
          | succ i =>
            rw [List.getElem?_cons_succ] at hi
            have := hguard i j e (by omega) hi hj
            omega

theorem collides_of_guarded {seen rest : List Bytes} (h : Guarded (seen ++ rest))
    (hseen : seen.length ≤ 2 * WINDOW_MAX + HASHMAP_MAX_LEN) : collides seen rest = false := by
  induction rest generalizing seen with
  | nil => rfl
  | cons entry rest ih =>
    have hnew : entry ∉ seen := by
      intro hmem
      obtain ⟨i, hi⟩ := List.mem_iff_getElem?.mp hmem
      have hlt : i < seen.length := (List.getElem?_eq_some_iff.mp hi).1
      have := h i seen.length entry hlt (by rw [List.getElem?_append_left hlt, hi]) (by simp)
      omega
    have hcons : seen ++ entry :: rest = (seen ++ [entry]) ++ rest := by simp
    rw [hcons] at h
    unfold collides
    rw [if_neg hnew]
    dsimp only
    split
    · refine ih (fun i j e hij hi hj => ?_) (by simp; omega)
      have hone : 1 ≤ (seen ++ [entry]).length := by simp
      rw [← List.drop_append_of_le_length hone, List.getElem?_drop] at hi hj
      have := h (1 + i) (1 + j) e (by omega) hi hj
      omega
    · exact ih h (by omega)

/-- The guard lets through just the lists whose equal entries are further apart than it looks back. -/
theorem collides_eq_false_iff {entries : List Bytes} : collides [] entries = false ↔ Guarded entries :=
  ⟨fun h => (collides_spaced h (Nat.zero_le _)).2, fun h => collides_of_guarded h (Nat.zero_le _)⟩

section
variable [Crypto]

theorem entries_hashmap (parts : List Bytes) (random : Arr 4) :
    Bytes.chunksExact MAPHASH_LEN (hashmap parts random) = parts.map fun p => (mapHash p random).1 :=
  Bytes.chunksExact_flatMap (fun p => (mapHash p random).2) (by decide) parts

theorem drawMap_succ (parts : List Bytes) (fuel : Nat) (rng : Entropy) :
    (Guarded (parts.map fun p => (mapHash p (Reticulum.randomHash rng).1).1) →
      drawMap parts (fuel + 1) rng = some ((Reticulum.randomHash rng).1, hashmap parts (Reticulum.randomHash rng).1,
        (Reticulum.randomHash rng).2)) ∧
    (¬ Guarded (parts.map fun p => (mapHash p (Reticulum.randomHash rng).1).1) →
      drawMap parts (fuel + 1) rng = drawMap parts fuel (Reticulum.randomHash rng).2) := by
  have hloop : drawMap parts (fuel + 1) rng =
      if collides [] (Bytes.chunksExact MAPHASH_LEN (hashmap parts (Reticulum.randomHash rng).1)) then
        drawMap parts fuel (Reticulum.randomHash rng).2
      else some ((Reticulum.randomHash rng).1, hashmap parts (Reticulum.randomHash rng).1, (Reticulum.randomHash rng).2) := rfl
  rw [hloop, ← collides_eq_false_iff, ← entries_hashmap]
  constructor
  · intro hfree
    rw [if_neg (Bool.eq_false_iff.mp hfree)]
  · intro hhit
    rw [if_pos (Bool.not_eq_false _ ▸ hhit)]

theorem drawMap_ok {parts : List Bytes} {fuel : Nat} {rng rng' : Entropy} {hashRandom : Arr 4} {map : Bytes}
    (h : drawMap parts fuel rng = some (hashRandom, map, rng')) :
    map = hashmap parts hashRandom ∧ collides [] (Bytes.chunksExact MAPHASH_LEN map) = false := by
  induction fuel generalizing rng with
  | zero => cases h
  | succ fuel ih =>
    unfold drawMap at h
    dsimp only at h
    split at h
    · exact ih h
    · rename_i hfree
      cases h
      exact ⟨rfl, Bool.eq_false_iff.mpr hfree⟩

variable [Rmp] [Bzip2]

omit [Crypto] [Rmp] [Bzip2] in
/-- The advertisement of a resource. -/
def advertisement (o : OutboundResource) (compressed : Bool) : ResourceAdvertisement :=
  { t := o.size, d := o.totalSize, n := o.parts.length, h := o.hash.1, r := o.randomHash.1, o := o.hash.1, i := 1, l := 1,
    q := none, f := (0x01 : UInt8) ||| (compressed.toUInt8 <<< 1),
    m := o.map.take (min o.parts.length HASHMAP_MAX_LEN * MAPHASH_LEN) }

/-- A resource made of the data for the link with the key. -/
structure Made (data : Bytes) (k : Arr 64) (o : OutboundResource) (adv : Bytes) : Prop where
  nonempty : data ≠ []
  efficient : data.length ≤ MAX_EFFICIENT_SIZE
  sealed : ∃ (pre : Arr 4) (iv : Arr 16),
    o.parts = splitParts (Token.sealWithKey k (pre.1 ++ (compressIfUseful data).1) iv) RESOURCE_SDU ∧
      o.size = (Token.sealWithKey k (pre.1 ++ (compressIfUseful data).1) iv).length
  map : o.map = hashmap o.parts o.randomHash
  guarded : Guarded o.entries
  hash : o.hash = resourceHash data o.randomHash
  totalSize : o.totalSize = data.length
  proof : o.expectedProof = resourceProof data o.hash
  running : o.completed = false
  packed : adv = (o.advertisement (compressIfUseful data).2).pack

theorem new_made {fuel : Nat} {data : Bytes} {k : Arr 64} {rng rng' : Entropy} {now : Nat} {o : OutboundResource} {adv : Bytes}
    (h : new fuel data k rng now = some (.ok (o, adv), rng')) : Made data k o adv := by
  unfold new at h
  split at h
  · cases h
  · rename_i hsize
    obtain ⟨hne, hlen⟩ := not_or.mp hsize
    dsimp only at h
    split at h
    · cases h
    · rename_i hdraw
      cases h
      obtain ⟨hmap, hfree⟩ := drawMap_ok hdraw
      exact ⟨hne, Nat.le_of_not_lt hlen, ⟨_, _, rfl, rfl⟩, hmap, collides_eq_false_iff.mp hfree, rfl, rfl, rfl, rfl, rfl⟩

theorem new_of_drawMap {fuel : Nat} {data : Bytes} {k : Arr 64} {rng : Entropy} {now : Nat}
    (hsize : ¬ (data = [] ∨ data.length > MAX_EFFICIENT_SIZE)) {parts : List Bytes} {hashRandom : Arr 4} {map : Bytes} {rng' : Entropy}
    (hparts : splitParts (Token.sealWithKey k ((Reticulum.randomHash rng).1.1 ++ (compressIfUseful data).1)
      ((Reticulum.randomHash rng).2.fill 16).1) RESOURCE_SDU = parts)
    (hdraw : drawMap parts fuel ((Reticulum.randomHash rng).2.fill 16).2 = some (hashRandom, map, rng')) :
    ∃ o adv rng', new fuel data k rng now = some (.ok (o, adv), rng') ∧ o.parts = parts ∧ o.randomHash = hashRandom := by
  subst hparts
  unfold new
  rw [if_neg hsize]
  dsimp only
  rw [hdraw]
  exact ⟨_, _, _, rfl, rfl, rfl⟩

variable {data : Bytes} {k : Arr 64} {o : OutboundResource} {adv : Bytes}

omit [Crypto] [Rmp] in
theorem compressIfUseful_le (data : Bytes) : (compressIfUseful data).1.length ≤ data.length := by
  unfold compressIfUseful
  split
  · split
    · exact Nat.le_refl _
    · split
      · split
        · rename_i h
          exact Nat.le_of_lt h
        · exact Nat.le_refl _
      · exact Nat.le_refl _
  · exact Nat.le_refl _

theorem Made.entries_eq (h : Made data k o adv) : o.entries = o.parts.map fun p => (mapHash p o.randomHash).1 := by
  unfold entries
  rw [h.map, entries_hashmap]

theorem Made.length_map (h : Made data k o adv) : o.map.length = o.parts.length * MAPHASH_LEN := by
  rw [h.map, hashmap]
  exact Bytes.length_flatMap_of_length (fun p => (mapHash p o.randomHash).2) _

/-- The guard is exact, and so every resource has a map that is as long as its parts, hashes them in order, and
repeats itself further away than the guard looks back. -/
theorem collision_guard_exact :
    2 * WINDOW_MAX + HASHMAP_MAX_LEN = 224 ∧
    (∀ (parts : List Bytes) (random : Arr 4), collides [] (Bytes.chunksExact MAPHASH_LEN (hashmap parts random)) = false ↔
      Guarded (parts.map fun p => (mapHash p random).1)) ∧
    (∀ (parts : List Bytes) (fuel : Nat) (rng : Entropy),
      (Guarded (parts.map fun p => (mapHash p (Reticulum.randomHash rng).1).1) →
        drawMap parts (fuel + 1) rng = some ((Reticulum.randomHash rng).1, hashmap parts (Reticulum.randomHash rng).1,
          (Reticulum.randomHash rng).2)) ∧
      (¬ Guarded (parts.map fun p => (mapHash p (Reticulum.randomHash rng).1).1) →
        drawMap parts (fuel + 1) rng = drawMap parts fuel (Reticulum.randomHash rng).2)) ∧
    ∀ (fuel : Nat) (data : Bytes) (k : Arr 64) (rng rng' : Entropy) (now : Nat) (o : OutboundResource) (adv : Bytes),
      new fuel data k rng now = some (.ok (o, adv), rng') →
      o.map.length = 4 * o.parts.length ∧ o.entries = (o.parts.map fun p => (mapHash p o.randomHash).1) ∧ Guarded o.entries := by
  refine ⟨rfl, fun parts random => ?_, drawMap_succ, fun fuel data k rng rng' now o adv hnew => ?_⟩
  · rw [entries_hashmap, collides_eq_false_iff]
  · have hmade := new_made hnew
    refine ⟨?_, hmade.entries_eq, hmade.guarded⟩
    rw [hmade.length_map, Nat.mul_comm]
    rfl

theorem Made.length_entries (h : Made data k o adv) : o.entries.length = o.parts.length := by
  rw [h.entries_eq, List.length_map]

theorem Made.entry {i : Nat} {p : Bytes} (h : Made data k o adv) (hp : o.parts[i]? = some p) :
    o.entries[i]? = some (mapHash p o.randomHash).1 := by
  rw [h.entries_eq, List.getElem?_map, hp]
  rfl

theorem Made.entries_stretch (h : Made data k o adv) (start len : Nat) :
    Bytes.chunksExact MAPHASH_LEN ((o.map.drop (start * MAPHASH_LEN)).take (len * MAPHASH_LEN)) =
      (o.entries.drop start).take len := by
  have hf (p : Bytes) : (mapHash p o.randomHash).1.length = MAPHASH_LEN := (mapHash p o.randomHash).2
  rw [h.entries_eq, h.map, hashmap, Bytes.drop_flatMap hf, Bytes.take_flatMap hf,
    Bytes.chunksExact_flatMap hf (by decide), List.map_take, List.map_drop]

theorem Made.size_le (hA : Crypto.AesInverts) (h : Made data k o adv) : o.size ≤ data.length + 84 := by
  obtain ⟨pre, iv, -, hsize⟩ := h.sealed
  have hle := compressIfUseful_le data
  rw [hsize, Token.sealWithKey, Token.length_sealParts hA, List.length_append, pre.2]
  omega

theorem Made.length_parts (hA : Crypto.AesInverts) (h : Made data k o adv) :
    0 < o.parts.length ∧ o.parts.length ≤ MAX_EFFICIENT_SIZE / MAPHASH_LEN := by
  obtain ⟨pre, iv, hparts, hsize⟩ := h.sealed
  have hle := h.size_le hA
  have heff := h.efficient
  have hmin : 48 ≤ o.size := by
    rw [hsize, Token.sealWithKey, Token.length_sealParts hA]
    omega
  have hlen : o.parts.length = (o.size + RESOURCE_SDU - 1) / RESOURCE_SDU := by
    rw [hparts, splitParts, if_neg (by decide), Bytes.length_chunks, hsize]
  rw [hlen]
  rw [MAPHASH_LEN]
  rw [RESOURCE_SDU, MAX_EFFICIENT_SIZE] at *
  omega

theorem Made.fits (hA : Crypto.AesInverts) (h : Made data k o adv) (c : Bool) : (o.advertisement c).Fits := by
  have hsize := h.size_le hA
  have heff := h.efficient
  obtain ⟨hpos, hmax⟩ := h.length_parts hA
  have hmap := h.length_map
  refine ⟨?_, ?_, ⟨hpos, ?_⟩, o.hash.2, o.randomHash.2, o.hash.2, (by decide : 1 < 2 ^ 32), (by decide : 1 < 2 ^ 32), rfl, ?_, ?_⟩
  · show o.size ≤ MAX_EFFICIENT_SIZE * 3
    rw [MAX_EFFICIENT_SIZE] at *
    omega
  · show o.totalSize < 2 ^ 64
    rw [h.totalSize]
    exact Nat.lt_of_le_of_lt heff (by decide)
  · exact Nat.lt_of_le_of_lt hmax (by decide)
  · show (o.map.take _).length % MAPHASH_LEN = 0
    rw [List.length_take, hmap, Nat.mul_min_mul_right]
    exact Nat.mul_mod_left ..
  · show (o.map.take _).length < 2 ^ 32
    rw [List.length_take, hmap]
    rw [MAX_EFFICIENT_SIZE, MAPHASH_LEN] at hmax
    rw [MAPHASH_LEN]
    omega

/-! ## Answers -/

omit [Crypto] [Rmp] [Bzip2] in
/-- The first slot with the map entry. -/
def slotOf (o : OutboundResource) (entry : Bytes) : Option Nat := o.entries.findIdx? (· = entry)

omit [Crypto] [Bzip2] in
/-- The map update of a segment. -/
def segmentUpdate (o : OutboundResource) (segment : Nat) : Bytes :=
  packHashmapUpdate o.hash (min segment (2 ^ 32 - 1))
    ((o.map.drop (segment * HASHMAP_MAX_LEN * MAPHASH_LEN)).take (HASHMAP_MAX_LEN * MAPHASH_LEN))

omit [Crypto] [Rmp] [Bzip2] in
theorem take_to_stop (b : Bytes) (start len : Nat) :
    (b.drop start).take (min (start + len) b.length - start) = (b.drop start).take len := by
  rw [List.take_eq_take_iff, List.length_drop]
  omega

omit [Crypto] [Bzip2] in
/-- What the sender makes of a request for the map after a slot. -/
def updateAfter (o : OutboundResource) (index : Nat) : List ResourceOutput :=
  if (index + 1) % HASHMAP_MAX_LEN = 0 ∧ (index + 1) * MAPHASH_LEN < o.map.length then
    [.hashmapUpdate (o.segmentUpdate ((index + 1) / HASHMAP_MAX_LEN))]
  else []

omit [Crypto] [Bzip2] in
theorem onRequest_named (o : OutboundResource) (hashes : List (Arr 4)) (now : Nat) :
    (o.onRequest (HASHMAP_IS_NOT_EXHAUSTED :: (o.hash.1 ++ hashes.flatMap (·.1))) now).2 =
      hashes.filterMap fun h => (o.slotOf h.1).bind fun i => (o.parts[i]?).map .part := by
  have hlen := Bytes.length_flatMap_of_length (fun h : Arr 4 => h.2) hashes
  have hcut : ((HASHMAP_IS_NOT_EXHAUSTED :: (o.hash.1 ++ hashes.flatMap (·.1))).drop (1 + 32)) = hashes.flatMap (·.1) :=
    List.drop_left' o.hash.2
  have hhash : ((HASHMAP_IS_NOT_EXHAUSTED :: (o.hash.1 ++ hashes.flatMap (·.1))).drop 1).take 32 = o.hash.1 :=
    List.take_left' o.hash.2
  have hlong : ¬ (HASHMAP_IS_NOT_EXHAUSTED :: (o.hash.1 ++ hashes.flatMap (·.1))).length < 1 + 32 := by
    rw [List.length_cons, List.length_append, o.hash.2]
    omega
  have hflag : ¬ HASHMAP_IS_NOT_EXHAUSTED = HASHMAP_IS_EXHAUSTED := by decide
  have hchunks : Bytes.chunksExact MAPHASH_LEN (hashes.flatMap (·.1)) = hashes.map (·.1) :=
    Bytes.chunksExact_flatMap (fun h : Arr 4 => h.2) (by decide) hashes
  unfold onRequest
  simp only [hflag, if_false, hhash, hlong, ne_eq, not_true_eq_false, or_self, hcut, hlen]
  rw [if_neg (by simp [MAPHASH_LEN]), hchunks, List.filterMap_map, List.append_nil]
  refine List.filterMap_congr fun h _ => ?_
  rw [Function.comp_apply, slotOf]
  cases o.entries.findIdx? (· = h.1) <;> rfl

omit [Crypto] [Bzip2] in
theorem onRequest_exhausted (o : OutboundResource) (known : Arr 4) (now : Nat) :
    (o.onRequest (HASHMAP_IS_EXHAUSTED :: (known.1 ++ o.hash.1)) now).2 =
      (o.slotOf known.1).elim [] o.updateAfter := by
  have hcut : ((HASHMAP_IS_EXHAUSTED :: (known.1 ++ o.hash.1)).drop (1 + MAPHASH_LEN + 32)) = [] := by
    refine List.drop_of_length_le (Nat.le_of_eq ?_)
    rw [List.length_cons, List.length_append, known.2, o.hash.2]
    rfl
  have hhash : ((HASHMAP_IS_EXHAUSTED :: (known.1 ++ o.hash.1)).drop (1 + MAPHASH_LEN)).take 32 = o.hash.1 := by
    have hfive : (HASHMAP_IS_EXHAUSTED :: known.1).length = 1 + MAPHASH_LEN := by simp [known.2, MAPHASH_LEN]
    have hdrop : ((HASHMAP_IS_EXHAUSTED :: known.1) ++ o.hash.1).drop (1 + MAPHASH_LEN) = o.hash.1 :=
      List.drop_left' hfive
    rw [← List.cons_append, hdrop]
    exact List.take_of_length_le (Nat.le_of_eq o.hash.2)
  have hlong : ¬ (HASHMAP_IS_EXHAUSTED :: (known.1 ++ o.hash.1)).length < 1 + MAPHASH_LEN + 32 := by
    rw [List.length_cons, List.length_append, known.2, o.hash.2, MAPHASH_LEN]
    omega
  have hentry : ((HASHMAP_IS_EXHAUSTED :: (known.1 ++ o.hash.1)).drop 1).take MAPHASH_LEN = known.1 :=
    List.take_left' known.2
  have hchunks : Bytes.chunksExact MAPHASH_LEN [] = [] := rfl
  unfold onRequest
  simp only [if_true, hhash, hlong, ne_eq, not_true_eq_false, or_self, hcut, hentry, if_false]
  rw [if_neg (by simp), hchunks, List.filterMap_nil, List.nil_append, slotOf]
  cases o.entries.findIdx? (· = known.1) with
  | none => rfl
  | some index =>
    dsimp only [Option.elim]
    unfold updateAfter
    by_cases hend : (index + 1) % HASHMAP_MAX_LEN = 0
    · have hsegment : (index + 1) / HASHMAP_MAX_LEN * HASHMAP_MAX_LEN = index + 1 := Nat.div_mul_cancel (Nat.dvd_of_mod_eq_zero hend)
      rw [if_pos hend, Nat.succ_mul, hsegment]
      by_cases hmore : (index + 1) * MAPHASH_LEN < o.map.length
      · have hstart : (index + 1) * MAPHASH_LEN < min ((index + 1 + HASHMAP_MAX_LEN) * MAPHASH_LEN) o.map.length := by
          rw [MAPHASH_LEN, HASHMAP_MAX_LEN] at *
          omega
        rw [if_pos hstart, if_pos ⟨hend, hmore⟩, segmentUpdate, hsegment, Nat.add_mul, take_to_stop]
      · rw [if_neg (fun hlt => hmore (Nat.lt_of_lt_of_le hlt (Nat.min_le_right ..))), if_neg (fun hlt => hmore hlt.2)]
    · rw [if_neg hend, if_neg (fun hlt => hend hlt.1)]

omit [Crypto] [Bzip2] in
/-- Whatever is asked, the sender answers with its parts and with its segments. -/
theorem mem_onRequest {o : OutboundResource} {request : Bytes} {now : Nat} {out : ResourceOutput}
    (h : out ∈ (o.onRequest request now).2) :
    (∃ p ∈ o.parts, out = .part p) ∨
      ∃ segment, segment * HASHMAP_MAX_LEN * MAPHASH_LEN < o.map.length ∧ out = .hashmapUpdate (o.segmentUpdate segment) := by
  unfold onRequest at h
  split at h
  · cases h
  · rename_i flag tail
    dsimp only at h
    generalize (if flag = HASHMAP_IS_EXHAUSTED then 1 + MAPHASH_LEN else 1) = pad at h
    by_cases hhead : (flag :: tail).length < pad + 32 ∨ ((flag :: tail).drop pad).take 32 ≠ o.hash.1
    · rw [if_pos hhead] at h
      cases h
    · rw [if_neg hhead] at h
      by_cases htail : ((flag :: tail).drop (pad + 32)).length % MAPHASH_LEN ≠ 0
      · rw [if_pos htail] at h
        cases h
      · rw [if_neg htail] at h
        rcases List.mem_append.mp h with h | h
        · obtain ⟨entry, -, hout⟩ := List.mem_filterMap.mp h
          split at hout
          · obtain ⟨p, hp, rfl⟩ := Option.map_eq_some_iff.mp hout
            exact .inl ⟨p, List.mem_of_getElem? hp, rfl⟩
          · cases hout
        · refine .inr ?_
          split at h
          · split at h
            · split at h
              · split at h
                · rename_i hlt
                  refine ⟨_, Nat.lt_of_lt_of_le hlt (Nat.min_le_right ..), ?_⟩
                  rw [List.mem_singleton.mp h, segmentUpdate, Nat.succ_mul, Nat.add_mul, take_to_stop]
                · cases h
              · cases h
            · cases h
          · cases h

/-! ## Which slot is found -/

omit [Crypto] [Rmp] [Bzip2] in
/-- The first slot with the map entry of this one holds the same part. -/
def FoundFirst (o : OutboundResource) (i : Nat) : Prop :=
  ∀ j : Nat, o.entries[j]? = o.entries[i]? → (∀ k < j, o.entries[k]? ≠ o.entries[i]?) → o.parts[j]? = o.parts[i]?

omit [Crypto] [Rmp] [Bzip2] in
theorem foundFirst_of_new {o : OutboundResource} {i : Nat} (h : ∀ j < i, o.entries[j]? ≠ o.entries[i]?) : o.FoundFirst i := by
  intro j hj hfirst
  obtain hji | rfl | hij := Nat.lt_trichotomy j i
  · exact absurd hj (h j hji)
  · rfl
  · exact absurd rfl (hfirst i hij)

omit [Crypto] [Rmp] [Bzip2] in
theorem slotOf_spec {o : OutboundResource} {i : Nat} {e : Bytes} (h : o.entries[i]? = some e) :
    ∃ j ≤ i, o.slotOf e = some j ∧ o.entries[j]? = some e ∧ ∀ k < j, o.entries[k]? ≠ some e := by
  cases hj : o.slotOf e with
  | none =>
    have := List.findIdx?_eq_none_iff.mp hj e (List.mem_of_getElem? h)
    simp at this
  | some j =>
    obtain ⟨hlt, he, hbefore⟩ := List.findIdx?_eq_some_iff_getElem.mp hj
    rw [decide_eq_true_eq] at he
    have hnot (k : Nat) (hk : k < j) : o.entries[k]? ≠ some e := by
      intro hke
      have := hbefore k hk
      rw [(List.getElem?_eq_some_iff.mp hke).2] at this
      simp at this
    refine ⟨j, ?_, rfl, by rw [List.getElem?_eq_getElem hlt, he], hnot⟩
    by_contra hlt
    exact hnot i (Nat.lt_of_not_le hlt) h

omit [Crypto] [Rmp] [Bzip2] in
theorem slotOf_part_iff {o : OutboundResource} {i : Nat} {e : Bytes} (h : o.entries[i]? = some e) :
    (o.slotOf e).bind (o.parts[·]?) = o.parts[i]? ↔ o.FoundFirst i := by
  obtain ⟨j, hle, hj, hentry, hbefore⟩ := slotOf_spec h
  unfold FoundFirst
  rw [hj, h, Option.bind_some]
  constructor
  · intro hsame j' hj' hfirst
    obtain hlt | rfl | hlt := Nat.lt_trichotomy j j'
    · exact absurd hentry (hfirst j hlt)
    · exact hsame
    · exact absurd hj' (hbefore j' hlt)
  · intro hfound
    exact hfound j hentry hbefore

omit [Crypto] [Rmp] [Bzip2] in
theorem slotOf_eq_iff {o : OutboundResource} {i : Nat} {e : Bytes} (h : o.entries[i]? = some e) :
    o.slotOf e = some i ↔ ∀ j < i, o.entries[j]? ≠ o.entries[i]? := by
  obtain ⟨j, hle, hj, hentry, hbefore⟩ := slotOf_spec h
  rw [hj, h, Option.some.injEq]
  constructor
  · rintro rfl
    exact hbefore
  · intro hfirst
    by_contra hne
    exact hfirst j (by omega) hentry

end

end OutboundResource

end Reticulum
