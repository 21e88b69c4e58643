import Reticulum.Identity

/-!
# The path table and the link registry

`path_table.rs` and `link_state.rs`. Both are ordered maps; a route is replaced
when it has expired, when the new one is shorter, or equally long and newer.
-/

namespace Reticulum

/-- `u64::MAX`. -/
def U64_MAX : Nat := 2 ^ 64 - 1

/-- `u64::saturating_add`. -/
def satAdd (a b : Nat) : Nat := min (a + b) U64_MAX

structure PathEntry where
  interface : UInt16
  nextHopTransportId : Option (Arr 16)
  hops : UInt8
  expiresAt : Nat
  timestamp : Nat
  pub : PublicIdentity
  /-- Latest advertised ratchet public key, when present. -/
  ratchet : Option (Arr 32)
  deriving DecidableEq

structure PathTable where
  entries : BTreeMap (Arr 16) PathEntry

namespace PathTable

def new : PathTable := ⟨∅⟩

def get (t : PathTable) (destHash : Arr 16) : Option PathEntry := t.entries[destHash]?

def insert (t : PathTable) (destHash : Arr 16) (entry : PathEntry) : PathTable × Bool :=
  let replace := match t.get destHash with
    | none => true
    | some current =>
      if entry.hops < current.hops then true
      else entry.hops = current.hops ∧ entry.timestamp > current.timestamp
  (if replace then ⟨t.entries.insert destHash entry⟩ else t, replace)

/-- Applies the deterministic route preference used for valid announces. -/
def update (t : PathTable) (destHash : Arr 16) (entry : PathEntry) (now : Nat) : PathTable × Bool :=
  let replace := match t.get destHash with
    | none => true
    | some current =>
      if current.expiresAt ≤ now then true
      else if entry.hops < current.hops then true
      else entry.hops = current.hops ∧ entry.timestamp > current.timestamp
  (if replace then ⟨t.entries.insert destHash entry⟩ else t, replace)

def prune (t : PathTable) (now : Nat) : PathTable := ⟨t.entries.filter fun _ entry => entry.expiresAt > now⟩

/-- How many entries a sweep removes. -/
def pruneCount (t : PathTable) (now : Nat) : Nat := t.entries.size - (t.prune now).entries.size

@[simp] theorem get_new (d : Arr 16) : new.get d = none := by simp [new, get]

theorem get_prune (t : PathTable) (now : Nat) (d : Arr 16) :
    (t.prune now).get d = (t.get d).filter fun e => e.expiresAt > now := by
  simp [prune, get]

theorem get_of_get_prune {t : PathTable} {now : Nat} {d : Arr 16} {e : PathEntry}
    (h : (t.prune now).get d = some e) : t.get d = some e ∧ now < e.expiresAt := by
  rw [get_prune, Option.filter_eq_some_iff] at h
  simpa using h

theorem get_prune_of_lt {t : PathTable} {now : Nat} {d : Arr 16} {e : PathEntry}
    (h : t.get d = some e) (hlt : now < e.expiresAt) : (t.prune now).get d = some e := by
  rw [get_prune, h]
  simp [hlt]

/-- An update either leaves the table alone or installs the offered entry, and tells which. -/
theorem update_cases (t : PathTable) (d : Arr 16) (e : PathEntry) (now : Nat) :
    t.update d e now = (t, false) ∨ t.update d e now = (⟨t.entries.insert d e⟩, true) := by
  unfold update
  dsimp only
  generalize (match t.get d with
    | none => true
    | some current =>
      if current.expiresAt ≤ now then true
      else if e.hops < current.hops then true
      else decide (e.hops = current.hops ∧ e.timestamp > current.timestamp)) = replace
  cases replace <;> simp

theorem update_of_get_none {t : PathTable} {d : Arr 16} (h : t.get d = none) (e : PathEntry) (now : Nat) :
    t.update d e now = (⟨t.entries.insert d e⟩, true) := by
  simp [update, h]

theorem get_insert_entry (t : PathTable) (d d' : Arr 16) (e : PathEntry) :
    get ⟨t.entries.insert d e⟩ d' = if d = d' then some e else t.get d' := by
  simp [get, Std.ExtTreeMap.getElem?_insert]

end PathTable

end Reticulum
