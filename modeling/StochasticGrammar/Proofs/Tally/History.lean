import Mathlib.Data.List.Nodup
import StochasticGrammar.Tally

/-!
# Tallies and their histories

A tally is known by its keys in order and the count of each.  Both can be told from the counts that
were set, one after another.
-/

namespace StochasticGrammar.Tally

/-! ## Looking up keys and positions

No key is counted twice, so the position of a key and the key at a position are inverse to each
other, and a key has one count whether it is looked up by name, by position or in the entries.
-/

section Lookup

variable {κ : Type} {t : Tally κ} {key : κ} {position count : Nat}

theorem mem_def : key ∈ t ↔ key ∈ t.keys := Iff.rfl

@[simp]
theorem length_keys (t : Tally κ) : t.keys.length = t.size := by
  simp [keys, size]

theorem key?_eq_some_iff_entry :
    t.key? position = some key ↔ ∃ count, t.entries[position]? = some (key, count) := by
  simp [key?, keys]

theorem mem_iff_exists_key? : key ∈ t ↔ ∃ position, t.key? position = some key :=
  List.mem_iff_getElem?

theorem lt_size_of_key? (h : t.key? position = some key) : position < t.size := by
  rw [← length_keys]
  exact (List.getElem?_eq_some_iff.mp h).1

theorem exists_key?_of_lt_size (h : position < t.size) : ∃ key, t.key? position = some key := by
  rw [← length_keys] at h
  exact ⟨t.keys[position], List.getElem?_eq_getElem h⟩

theorem mem_of_mem_entries (h : (key, count) ∈ t.entries) : key ∈ t :=
  mem_def.mpr (List.mem_map_of_mem (f := Prod.fst) h)

variable [DecidableEq κ]

/-- Positions and keys name each other. -/
theorem position?_eq_some_iff : t.position? key = some position ↔ t.key? position = some key := by
  rw [position?, key?, List.idxOf?_eq_some_iff, List.getElem?_eq_some_iff]
  constructor
  · intro h
    obtain ⟨hlt, hkey, -⟩ := h
    exact ⟨hlt, hkey⟩
  · intro h
    obtain ⟨hlt, hkey⟩ := h
    refine ⟨hlt, hkey, ?_⟩
    intro earlier hearlier heq
    have hnodup : t.keys.Nodup := t.nodup_keys
    have hsame := hnodup.getElem_inj_iff.mp (heq.trans hkey.symm)
    omega

theorem exists_position?_of_mem (h : key ∈ t) : ∃ position, t.position? key = some position := by
  obtain ⟨position, hposition⟩ := mem_iff_exists_key?.mp h
  exact ⟨position, position?_eq_some_iff.mpr hposition⟩

theorem position?_eq_none_iff : t.position? key = none ↔ key ∉ t := by
  rw [position?, List.idxOf?_eq_none_iff, mem_def]

theorem mem_of_position? (h : t.position? key = some position) : key ∈ t :=
  mem_iff_exists_key?.mpr ⟨position, position?_eq_some_iff.mp h⟩

/-- A position belongs to one key. -/
theorem eq_of_position?_eq {other : κ} (hkey : t.position? key = some position)
    (hother : t.position? other = some position) : key = other := by
  rw [position?_eq_some_iff] at hkey hother
  exact Option.some.inj (hkey.symm.trans hother)

theorem lt_size_of_position? (h : t.position? key = some position) : position < t.size :=
  lt_size_of_key? (position?_eq_some_iff.mp h)

theorem count_eq_of_mem_entries (h : (key, count) ∈ t.entries) : t.count key = count := by
  have hfind : t.entries.find? (·.1 = key) = some (key, count) := by
    cases hfind : t.entries.find? (·.1 = key) with
    | none => simpa using List.find?_eq_none.mp hfind _ h
    | some entry =>
      have hmem := List.mem_of_find?_eq_some hfind
      have hkey := List.find?_some hfind
      rw [List.inj_on_of_nodup_map t.nodup_keys hmem h (by simpa using hkey)]
  simp only [Tally.count, hfind]

theorem mem_entries_of_count_ne_zero (h : t.count key ≠ 0) : (key, t.count key) ∈ t.entries := by
  unfold Tally.count at h ⊢
  cases hfind : t.entries.find? (·.1 = key) with
  | none => simp [hfind] at h
  | some entry =>
    have hkey : entry.1 = key := by simpa using List.find?_some hfind
    rw [← hkey]
    exact List.mem_of_find?_eq_some hfind

theorem mem_of_count_ne_zero (h : t.count key ≠ 0) : key ∈ t :=
  mem_of_mem_entries (mem_entries_of_count_ne_zero h)

/-- A key has the count that stands at its position. -/
theorem countAt_eq_count (h : t.key? position = some key) : t.countAt position = t.count key := by
  obtain ⟨count, hentry⟩ := key?_eq_some_iff_entry.mp h
  rw [count_eq_of_mem_entries (List.mem_of_getElem? hentry), countAt, hentry]

end Lookup

/-! ## Tallies by the history of their counts

Counts are set one after another.  The keys then stand in the order in which they first came up, and
each has the count that it was given last, whatever was set in between.  The keys in order and the
count of each make up the whole tally.
-/

section History

variable {κ : Type} [DecidableEq κ]

/-! ### One count more -/

theorem keys_insert (t : Tally κ) (key : κ) (count : Nat) :
    (t.insert key count).keys = if key ∈ t then t.keys else t.keys ++ [key] :=
  map_fst_setCount key count t.entries

theorem find?_setCount (key : κ) (count : Nat) (entries : List (κ × Nat)) (other : κ) :
    (setCount key count entries).find? (·.1 = other) =
      if key = other then some (key, count) else entries.find? (·.1 = other) := by
  induction entries with
  | nil =>
    rw [setCount, List.find?_singleton]
    simp
  | cons entry rest ih =>
    by_cases hentry : entry.1 = key
    · by_cases hother : key = other <;> simp [setCount, hentry, hother]
    · rw [setCount, if_neg hentry, List.find?_cons, List.find?_cons, ih]
      by_cases hother : entry.1 = other
      · have hne : key ≠ other := fun hkey ↦ hentry (hother.trans hkey.symm)
        simp [hother, hne]
      · simp [hother]

/-- Setting a count leaves the counts of other keys alone. -/
theorem count_insert (t : Tally κ) (key : κ) (count : Nat) (other : κ) :
    (t.insert key count).count other = if key = other then count else t.count other := by
  unfold Tally.count
  rw [insert, find?_setCount]
  by_cases hkey : key = other
  · rw [if_pos hkey, if_pos hkey]
  · rw [if_neg hkey, if_neg hkey]

/-! ### Keys and counts determine a tally -/

theorem entries_eq_map (t : Tally κ) : t.entries = t.keys.map fun key ↦ (key, t.count key) := by
  have hentry : ∀ entry ∈ t.entries, entry = (entry.1, t.count entry.1) := by
    intro entry hentry
    rw [count_eq_of_mem_entries hentry]
  calc
    t.entries = t.entries.map fun entry ↦ (entry.1, t.count entry.1) := by
      rw [← List.map_congr_left hentry, List.map_id']
    _ = t.keys.map fun key ↦ (key, t.count key) := by
      rw [keys, List.map_map]
      rfl

theorem eq_of_keys_eq_of_count_eq {t u : Tally κ} (hkeys : t.keys = u.keys)
    (hcount : ∀ key, t.count key = u.count key) : t = u := by
  have hentries : t.entries = u.entries := by
    rw [entries_eq_map t, entries_eq_map u, hkeys]
    apply List.map_congr_left
    intro key _
    rw [hcount]
  cases t
  cases u
  cases hentries
  rfl

/-! ### Many counts -/

/-- Sets counts one after another. -/
def insertAll (t : Tally κ) (given : List (κ × Nat)) : Tally κ :=
  given.foldl (fun tally entry ↦ tally.insert entry.1 entry.2) t

theorem insertAll_cons (t : Tally κ) (entry : κ × Nat) (given : List (κ × Nat)) :
    t.insertAll (entry :: given) = (t.insert entry.1 entry.2).insertAll given := rfl

/-- The count that a key was given last, if it was given any. -/
def lastCount? (given : List (κ × Nat)) (key : κ) : Option Nat :=
  (given.findRev? (·.1 = key)).map Prod.snd

theorem lastCount?_cons (entry : κ × Nat) (given : List (κ × Nat)) (key : κ) :
    lastCount? (entry :: given) key =
      (lastCount? given key).or (if entry.1 = key then some entry.2 else none) := by
  unfold lastCount?
  rw [List.findRev?]
  cases given.findRev? (·.1 = key) with
  | none => by_cases hkey : entry.1 = key <;> simp [hkey]
  | some later => rfl

theorem lastCount?_eq_none_iff {given : List (κ × Nat)} {key : κ} :
    lastCount? given key = none ↔ key ∉ given.map Prod.fst := by
  rw [lastCount?, Option.map_eq_none_iff, List.findRev?_eq_find?_reverse, List.find?_eq_none,
    List.mem_map]
  simp only [List.mem_reverse, decide_eq_true_eq, not_exists, not_and]

theorem removeAll_append_singleton (keys known : List κ) (key : κ) :
    keys.removeAll (known ++ [key]) = (keys.removeAll known).filter fun other ↦ !other == key := by
  unfold List.removeAll
  rw [List.filter_filter]
  apply List.filter_congr
  intro other _
  by_cases hknown : other ∈ known <;> by_cases hkey : other = key <;> simp [hknown, hkey]

/-- The keys that are new follow those that were there, in the order in which they came up. -/
theorem keys_insertAll (t : Tally κ) (given : List (κ × Nat)) :
    (t.insertAll given).keys = t.keys ++ ((given.map Prod.fst).removeAll t.keys).eraseDups := by
  induction given generalizing t with
  | nil =>
    rw [List.map_nil, List.nil_removeAll, List.eraseDups_nil, List.append_nil]
    rfl
  | cons entry given ih =>
    rw [insertAll_cons, ih, keys_insert, List.map_cons, List.cons_removeAll]
    by_cases hkey : entry.1 ∈ t.keys
    · have hcontains : ¬t.keys.contains entry.1 = false := by simpa using hkey
      rw [if_pos (mem_def.mpr hkey), if_neg hcontains]
    · have hcontains : t.keys.contains entry.1 = false := by simpa using hkey
      rw [if_neg (mt mem_def.mp hkey), if_pos hcontains, removeAll_append_singleton,
        List.eraseDups_cons, List.append_assoc, List.singleton_append]

/-- A key has the count that it was given last. -/
theorem count_insertAll (t : Tally κ) (given : List (κ × Nat)) (key : κ) :
    (t.insertAll given).count key = (lastCount? given key).getD (t.count key) := by
  induction given generalizing t with
  | nil => rfl
  | cons entry given ih =>
    rw [insertAll_cons, ih, lastCount?_cons, count_insert]
    cases lastCount? given key with
    | some later => rfl
    | none => by_cases hkey : entry.1 = key <;> simp [hkey]

theorem count_insertAll_of_not_mem {given : List (κ × Nat)} {key : κ}
    (h : key ∉ given.map Prod.fst) (t : Tally κ) : (t.insertAll given).count key = t.count key := by
  rw [count_insertAll, lastCount?_eq_none_iff.mpr h, Option.getD_none]

theorem mem_insertAll_of_mem {t : Tally κ} {given : List (κ × Nat)} {key : κ}
    (h : key ∈ given.map Prod.fst) : key ∈ (t.insertAll given).keys := by
  rw [keys_insertAll, List.mem_append, List.mem_eraseDups]
  by_cases hkey : key ∈ t.keys
  · exact Or.inl hkey
  · right
    simpa [List.removeAll, hkey] using h

/-- Setting the same counts again changes nothing. -/
theorem insertAll_insertAll_self (t : Tally κ) (given : List (κ × Nat)) :
    (t.insertAll given).insertAll given = t.insertAll given := by
  apply eq_of_keys_eq_of_count_eq
  · have hnone : (given.map Prod.fst).removeAll (t.insertAll given).keys = [] := by
      unfold List.removeAll
      rw [List.filter_eq_nil_iff]
      intro key hkey
      simpa using mem_insertAll_of_mem hkey
    rw [keys_insertAll, hnone, List.eraseDups_nil, List.append_nil]
  · intro key
    rw [count_insertAll, count_insertAll]
    cases lastCount? given key <;> rfl

/-- The tally is what remains of the counts that were given: a key stands where it came up first,
with the count that it was given last. -/
structure Keeps (t : Tally κ) (given : List (κ × Nat)) : Prop where
  keys : t.keys = (given.map Prod.fst).eraseDups
  count : ∀ key, t.count key = (lastCount? given key).getD 0

theorem keeps_insertAll_empty (given : List (κ × Nat)) : (insertAll ∅ given).Keeps given where
  keys := by
    have hempty : (∅ : Tally κ).keys = [] := rfl
    rw [keys_insertAll, hempty, List.removeAll_nil, List.nil_append]
  count := count_insertAll ∅ given

end History

end StochasticGrammar.Tally
