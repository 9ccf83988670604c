/-!
# Tallies

A tally assigns counts to keys and remembers the order in which the keys first came up.  A later
count for a key replaces the earlier one and leaves the key in its place, so the position of a key
is fixed once it has been counted.
-/

namespace StochasticGrammar

/-- Counts by key, in the order of first occurrence. -/
structure Tally (κ : Type) where
  /-- Each key with its count. -/
  entries : List (κ × Nat) := []
  /-- No key is counted twice. -/
  nodup_keys : (entries.map Prod.fst).Nodup := by simp

namespace Tally

variable {κ : Type}

instance : EmptyCollection (Tally κ) := ⟨{}⟩

instance : Inhabited (Tally κ) := ⟨∅⟩

/-- The keys in order. -/
def keys (t : Tally κ) : List κ :=
  t.entries.map Prod.fst

/-- The number of keys. -/
def size (t : Tally κ) : Nat :=
  t.entries.length

/-- The key at a position. -/
def key? (t : Tally κ) (position : Nat) : Option κ :=
  t.keys[position]?

/-- The count at a position, zero beyond the end. -/
def countAt (t : Tally κ) (position : Nat) : Nat :=
  match t.entries[position]? with
  | some (_, count) => count
  | none => 0

instance : Membership κ (Tally κ) := ⟨fun t key ↦ key ∈ t.keys⟩

variable [DecidableEq κ]

instance (key : κ) (t : Tally κ) : Decidable (key ∈ t) :=
  inferInstanceAs (Decidable (key ∈ t.keys))

/-- The position of a key. -/
def position? (t : Tally κ) (key : κ) : Option Nat :=
  t.keys.idxOf? key

/-- The count of a key, zero for a key that has none. -/
def count (t : Tally κ) (key : κ) : Nat :=
  match t.entries.find? (·.1 = key) with
  | some (_, count) => count
  | none => 0

/-- Sets the count of a key in a list of entries, at the end if the key is new. -/
def setCount (key : κ) (count : Nat) : List (κ × Nat) → List (κ × Nat)
  | [] => [(key, count)]
  | entry :: rest =>
    if entry.1 = key then (key, count) :: rest else entry :: setCount key count rest

theorem map_fst_setCount (key : κ) (count : Nat) (entries : List (κ × Nat)) :
    (setCount key count entries).map Prod.fst =
      if key ∈ entries.map Prod.fst then entries.map Prod.fst
      else entries.map Prod.fst ++ [key] := by
  induction entries with
  | nil => simp [setCount]
  | cons entry rest ih =>
    by_cases h : entry.1 = key
    · simp [setCount, h]
    · have h' : ¬key = entry.1 := fun hkey ↦ h hkey.symm
      simp only [setCount, h, if_false, List.map_cons, ih, List.mem_cons, h', false_or]
      split <;> simp

theorem nodup_map_fst_setCount (key : κ) (count : Nat) {entries : List (κ × Nat)}
    (h : (entries.map Prod.fst).Nodup) : ((setCount key count entries).map Prod.fst).Nodup := by
  rw [map_fst_setCount]
  split
  · exact h
  · next hkey =>
    rw [List.nodup_append]
    refine ⟨h, by simp, ?_⟩
    intro a ha b hb hab
    rw [List.mem_singleton.mp hb] at hab
    exact hkey (hab ▸ ha)

/-- Sets the count of a key.  A new key takes the next position. -/
def insert (t : Tally κ) (key : κ) (count : Nat) : Tally κ where
  entries := setCount key count t.entries
  nodup_keys := nodup_map_fst_setCount key count t.nodup_keys

/-- Two tallies agree when they count the same keys alike, in whatever order. -/
def Agrees (t u : Tally κ) : Prop :=
  t.entries.Perm u.entries

instance (t u : Tally κ) : Decidable (t.Agrees u) :=
  inferInstanceAs (Decidable (t.entries.Perm u.entries))

end Tally

end StochasticGrammar
