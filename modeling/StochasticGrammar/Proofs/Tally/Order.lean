import Mathlib.Data.Finset.Card
import Mathlib.Data.List.Infix
import Mathlib.Data.List.Nodup
import StochasticGrammar.Proofs.Tally.History

/-!
# The order of keys

The keys of a tally have positions, which further counts leave alone.  Tallies with the same counts
may differ in them, and leaving keys out moves up the keys behind.
-/

namespace StochasticGrammar.Tally

/-! ## Positions for good

The keys of a tally are numbered by their positions, from zero on and without a gap.  Counts that
are set later put new keys behind the old ones, so a key keeps its position for good.  A new key
comes behind as many keys as there were before and as were new before it.
-/

section Numbering

variable {κ : Type} [DecidableEq κ]

/-- Positions name the keys, and keys their positions, without a gap and without a repetition. -/
structure Numbered (t : Tally κ) : Prop where
  position?_iff : ∀ key position, t.position? key = some position ↔ t.key? position = some key
  position?_isSome : ∀ key, (t.position? key).isSome ↔ key ∈ t
  key?_isSome : ∀ position, (t.key? position).isSome ↔ position < t.size
  nodup : t.keys.Nodup
  /-- The keys are listed in the order of their positions. -/
  map_position? : t.keys.map t.position? = (List.range t.size).map some

theorem map_position?_keys (t : Tally κ) :
    t.keys.map t.position? = (List.range t.size).map some := by
  apply List.ext_getElem?
  intro position
  rw [List.getElem?_map, List.getElem?_map]
  rcases Nat.lt_or_ge position t.size with hlt | hge
  · obtain ⟨key, hkey⟩ := exists_key?_of_lt_size hlt
    have hget : t.keys[position]? = some key := hkey
    rw [hget, List.getElem?_range hlt, Option.map_some, Option.map_some,
      position?_eq_some_iff.mpr hkey]
  · have hkeys : t.keys.length ≤ position := by rwa [length_keys]
    have hrange : (List.range t.size).length ≤ position := by rwa [List.length_range]
    rw [List.getElem?_eq_none hkeys, List.getElem?_eq_none hrange]
    rfl

theorem numbered (t : Tally κ) : t.Numbered where
  position?_iff _ _ := position?_eq_some_iff
  position?_isSome key := by
    rw [Option.isSome_iff_exists]
    constructor
    · rintro ⟨position, hposition⟩
      exact mem_of_position? hposition
    · exact exists_position?_of_mem
  key?_isSome position := by
    rw [Option.isSome_iff_exists]
    constructor
    · rintro ⟨key, hkey⟩
      exact lt_size_of_key? hkey
    · exact exists_key?_of_lt_size
  nodup := t.nodup_keys
  map_position? := t.map_position?_keys

/-! ### Old keys -/

variable {t u : Tally κ} {key : κ} {position : Nat}

theorem prefix_keys_insertAll (t : Tally κ) (given : List (κ × Nat)) :
    t.keys <+: (t.insertAll given).keys := by
  rw [keys_insertAll]
  exact List.prefix_append _ _

/-- A key whose place is among the first keys keeps it where more keys follow. -/
theorem position?_of_prefix_keys (h : t.keys <+: u.keys) (hkey : t.position? key = some position) :
    u.position? key = some position := by
  obtain ⟨added, hadded⟩ := h
  rw [position?_eq_some_iff] at hkey ⊢
  have hlt := lt_size_of_key? hkey
  rw [← length_keys] at hlt
  rw [key?, ← hadded, List.getElem?_append_left hlt]
  exact hkey

/-! ### New keys -/

theorem insertAll_append (t : Tally κ) (first second : List (κ × Nat)) :
    t.insertAll (first ++ second) = (t.insertAll first).insertAll second :=
  List.foldl_append

/-- The keys that come up among the counts and have none so far. -/
def newKeys (t : Tally κ) (given : List (κ × Nat)) : Finset κ :=
  {key ∈ (given.map Prod.fst).toFinset | key ∉ t}

theorem size_insertAll (t : Tally κ) (given : List (κ × Nat)) :
    (t.insertAll given).size = t.size + (t.newKeys given).card := by
  let added := ((given.map Prod.fst).removeAll t.keys).eraseDups
  have hkeys : (t.insertAll given).keys = t.keys ++ added := keys_insertAll t given
  have hnodup : added.Nodup := by
    have hall : (t.insertAll given).keys.Nodup := (t.insertAll given).nodup_keys
    rw [hkeys] at hall
    exact hall.of_append_right
  have hadded : added.toFinset = t.newKeys given := by
    ext key
    simp [added, newKeys, List.removeAll, mem_def]
  calc
    (t.insertAll given).size = (t.insertAll given).keys.length := (length_keys _).symm
    _ = t.size + added.length := by rw [hkeys, List.length_append, length_keys]
    _ = t.size + added.toFinset.card := by rw [List.toFinset_card_of_nodup hnodup]
    _ = t.size + (t.newKeys given).card := by rw [hadded]

theorem mem_insertAll_iff {given : List (κ × Nat)} :
    key ∈ t.insertAll given ↔ key ∈ t ∨ key ∈ given.map Prod.fst := by
  rw [mem_def, keys_insertAll, List.mem_append, List.mem_eraseDups, mem_def]
  by_cases hkey : key ∈ t.keys <;> simp [List.removeAll, hkey]

/-- A new key takes the position after the last. -/
theorem position?_insert_of_not_mem (h : key ∉ t) (count : Nat) :
    (t.insert key count).position? key = some t.size := by
  have hkeys : (t.insert key count).keys = t.keys ++ [key] := by
    rw [keys_insert, if_neg h]
  rw [position?_eq_some_iff, key?, hkeys, ← length_keys, List.getElem?_concat_length]

/-- A key that comes up for the first time takes the position after the old keys and those that were
new before it, and keeps it. -/
theorem position?_insertAll_of_first {before after : List (κ × Nat)} {count : Nat}
    (hnew : key ∉ t) (hbefore : key ∉ before.map Prod.fst) :
    (t.insertAll (before ++ (key, count) :: after)).position? key =
      some (t.size + (t.newKeys before).card) := by
  have hfirst : key ∉ t.insertAll before := by
    rw [mem_insertAll_iff, not_or]
    exact ⟨hnew, hbefore⟩
  have hposition := position?_insert_of_not_mem hfirst count
  rw [size_insertAll] at hposition
  rw [insertAll_append, insertAll_cons]
  exact position?_of_prefix_keys (prefix_keys_insertAll _ after) hposition

end Numbering

/-! ## Tallies that agree

Tallies agree exactly when they have the same keys and give each of them the same count.  Only the
positions of the keys may differ.  Tallies of two histories agree when every key was given the same
count last in both.
-/

section Agreement

variable {κ : Type} {t u : Tally κ}

theorem Agrees.symm (h : t.Agrees u) : u.Agrees t :=
  List.Perm.symm h

theorem Agrees.perm_keys (h : t.Agrees u) : t.keys.Perm u.keys :=
  List.Perm.map Prod.fst h

theorem Agrees.mem_iff (h : t.Agrees u) {key : κ} : key ∈ t ↔ key ∈ u :=
  h.perm_keys.mem_iff

variable [DecidableEq κ]

/-- A key that is counted in one of the tallies is in both, with the same count. -/
theorem Agrees.count_eq_of_ne_zero (h : t.Agrees u) {key : κ} (hcount : t.count key ≠ 0) :
    u.count key = t.count key := by
  have hentry := mem_entries_of_count_ne_zero hcount
  exact count_eq_of_mem_entries (List.Perm.mem_iff h |>.mp hentry)

theorem Agrees.count_eq (h : t.Agrees u) (key : κ) : t.count key = u.count key := by
  by_cases hcount : t.count key = 0
  · by_contra hne
    rw [hcount] at hne
    exact hne (hcount.symm.trans (h.symm.count_eq_of_ne_zero (Ne.symm hne)))
  · exact (h.count_eq_of_ne_zero hcount).symm

/-- The same keys with the same counts are all that agreement asks for. -/
theorem agrees_iff :
    t.Agrees u ↔ (∀ key, key ∈ t ↔ key ∈ u) ∧ ∀ key, t.count key = u.count key := by
  constructor
  · intro h
    exact ⟨fun _ ↦ h.mem_iff, h.count_eq⟩
  · rintro ⟨hkeys, hcount⟩
    have hperm : t.keys.Perm u.keys :=
      (List.perm_ext_iff_of_nodup t.nodup_keys u.nodup_keys).mpr hkeys
    have hentry : (fun key ↦ (key, t.count key)) = fun key ↦ (key, u.count key) := by
      funext key
      rw [hcount]
    unfold Agrees
    rw [entries_eq_map t, entries_eq_map u, hentry]
    exact hperm.map _

/-! ### Agreement of histories -/

/-- A key of the tally is one that was given a count. -/
theorem lastCount?_eq_none_iff_not_mem {given : List (κ × Nat)} {key : κ} :
    lastCount? given key = none ↔ key ∉ insertAll ∅ given := by
  rw [lastCount?_eq_none_iff, mem_def, (keeps_insertAll_empty given).keys, List.mem_eraseDups]

theorem lastCount?_eq_ite (given : List (κ × Nat)) (key : κ) :
    lastCount? given key =
      if key ∈ insertAll ∅ given then some ((insertAll ∅ given).count key) else none := by
  rw [(keeps_insertAll_empty given).count]
  cases hlast : lastCount? given key with
  | none => exact (if_neg (lastCount?_eq_none_iff_not_mem.mp hlast)).symm
  | some count =>
    have hkey : key ∈ insertAll ∅ given := by
      by_contra hnot
      rw [lastCount?_eq_none_iff_not_mem.mpr hnot] at hlast
      cases hlast
    exact (if_pos hkey).symm

/-- Only the last count of each key matters, wherever in the history it was given. -/
theorem agrees_insertAll_empty_iff {given other : List (κ × Nat)} :
    (insertAll ∅ given).Agrees (insertAll ∅ other) ↔
      ∀ key, lastCount? given key = lastCount? other key := by
  constructor
  · intro h key
    rw [lastCount?_eq_ite given, lastCount?_eq_ite other, h.count_eq]
    exact if_congr h.mem_iff rfl rfl
  · intro h
    apply agrees_iff.mpr
    constructor
    · intro key
      rw [← not_iff_not, ← lastCount?_eq_none_iff_not_mem, ← lastCount?_eq_none_iff_not_mem, h]
    · intro key
      rw [(keeps_insertAll_empty given).count, (keeps_insertAll_empty other).count, h]

end Agreement

/-! ## Tallies without some of their keys

Leaving keys out of a tally and never counting them come to the same: the other keys keep their
order and their counts, and only the positions behind a key that is left out move up.
-/

section Restriction

variable {κ : Type}

/-- The keys that are kept, with their counts. -/
def restrict (t : Tally κ) (keep : κ → Bool) : Tally κ where
  entries := t.entries.filter (keep ·.1)
  nodup_keys := t.nodup_keys.sublist (List.filter_sublist.map Prod.fst)

theorem keys_restrict (t : Tally κ) (keep : κ → Bool) :
    (t.restrict keep).keys = t.keys.filter keep := by
  rw [keys, keys, restrict, List.filter_map]
  rfl

theorem mem_restrict_iff {t : Tally κ} {keep : κ → Bool} {key : κ} :
    key ∈ t.restrict keep ↔ key ∈ t ∧ keep key := by
  rw [mem_def, mem_def, keys_restrict, List.mem_filter]

variable [DecidableEq κ]

theorem count_restrict (t : Tally κ) (keep : κ → Bool) (key : κ) :
    (t.restrict keep).count key = if keep key then t.count key else 0 := by
  by_cases hkeep : keep key
  · have hfind : (t.entries.filter (keep ·.1)).find? (·.1 = key) =
        t.entries.find? (·.1 = key) := by
      rw [List.find?_filter]
      apply congrArg (List.find? · t.entries)
      funext entry
      by_cases hkey : entry.1 = key <;> simp [hkey, hkeep]
    rw [if_pos hkeep, Tally.count, restrict, hfind]
    rfl
  · rw [if_neg hkeep]
    by_contra hcount
    exact hkeep (mem_restrict_iff.mp (mem_of_count_ne_zero hcount)).2

theorem restrict_insert (t : Tally κ) (keep : κ → Bool) (key : κ) (count : Nat) :
    (t.insert key count).restrict keep =
      if keep key then (t.restrict keep).insert key count else t.restrict keep := by
  apply eq_of_keys_eq_of_count_eq
  · rw [keys_restrict, keys_insert, apply_ite keys, keys_insert, keys_restrict]
    by_cases hkeep : keep key <;> by_cases hkey : key ∈ t <;>
      simp [hkeep, hkey, mem_restrict_iff]
  · intro other
    rw [count_restrict, count_insert, apply_ite (Tally.count · other), count_insert,
      count_restrict]
    by_cases hother : key = other
    · by_cases hkeep : keep other <;> simp [hother, hkeep]
    · simp [hother]

/-- What yields nothing for the keys that are left out does not notice that they are. -/
theorem filterMap_entries_restrict {β : Type} (t : Tally κ) (keep : κ → Bool)
    (f : κ → Nat → Option β) (hdropped : ∀ key, ¬keep key → f key (t.count key) = none) :
    ((t.restrict keep).entries.filterMap fun entry ↦ f entry.1 entry.2) =
      t.entries.filterMap fun entry ↦ f entry.1 entry.2 := by
  rw [restrict, List.filterMap_filter]
  apply List.filterMap_congr
  intro entry hentry
  by_cases hkeep : keep entry.1
  · rw [if_pos hkeep]
  · have hnone := hdropped entry.1 hkeep
    rw [count_eq_of_mem_entries hentry] at hnone
    rw [if_neg hkeep, hnone]

end Restriction

end StochasticGrammar.Tally
