import StochasticGrammar.Proofs.Chart.Optimality
import StochasticGrammar.Proofs.Chart.Square
import StochasticGrammar.Proofs.Grammar.Listing

/-!
# How a full chart is laid out

A full chart has a cell with one slot for each known symbol for every span of the sentence, and no
other cells.  So a symbol has at most one entry over a span.  An entry that starts with a split
leads to two further entries, and together with a rule of its symbol they give its score.  A chart
that is filled part of the way has all cells that the next spans are filled from.
-/

namespace StochasticGrammar.Chart

variable {g : Grammar} {policy : RareWords} {words : List String}

/-! ## Cells -/

theorem size_wordCell (g : Grammar) (policy : RareWords) (word : String) :
    (wordCell g policy word).size = g.symbols.size := by
  rw [wordCell, List.size_toArray, List.length_map, List.length_range]

theorem size_spanCell (g : Grammar) (chart : Chart) (i j : Nat) :
    (spanCell g.ruleIndex chart i j).size = g.symbols.size := by
  rw [spanCell, List.size_toArray, List.length_map, Grammar.ruleIndex, List.length_map,
    List.length_range]

/-- The cells of the sentence have a slot for each known symbol. -/
theorem size_cell_fill {i j : Nat} (hij : i ≤ j) (hj : j < words.length) :
    ((fill g policy words).cell i j).size = g.symbols.size := by
  rcases Nat.lt_or_eq_of_le hij with hlt | rfl
  · rw [cell_fill_of_lt hlt hj, size_spanCell]
  · rw [cell_fill_self (List.getElem?_eq_getElem hj), size_wordCell]

/-- So have the cells of a chart that is filled up to their level. -/
theorem size_cell_stage {i j k : Nat} (hij : i ≤ j) (hj : j < words.length) (hspan : j - i ≤ k) :
    ((stage g policy words k).cell i j).size = g.symbols.size := by
  have hcell : (stage g policy words k).cell i j = (fill g policy words).cell i j := by
    rcases Nat.le_total k (words.length - 1) with hk | hk
    · exact (cell_stage_of_le hspan hk).symm
    · exact cell_stage_of_le (by omega) hk
  rw [hcell, size_cell_fill hij hj]

/-! ## Entries -/

theorem entry?_eq_some_iff {chart : Chart} {i j symbol : Nat} {entry : Entry} :
    chart.entry? i j symbol = some entry ↔ (chart.cell i j)[symbol]? = some (some entry) :=
  Option.join_eq_some_iff

/-- Listing a cell names no symbol twice. -/
theorem nodup_entries (chart : Chart) (i j : Nat) : ((chart.entries i j).map Prod.fst).Nodup := by
  have hnumbers : ((chart.cell i j).toList.zipIdx.map Prod.snd).Nodup := by
    rw [List.zipIdx_map_snd]
    exact List.nodup_range'
  rw [List.Nodup, List.pairwise_map] at hnumbers ⊢
  apply hnumbers.filterMap
  intro slot other hne pair hpair otherPair hother
  obtain ⟨_, -, rfl⟩ := Option.map_eq_some_iff.mp hpair
  obtain ⟨_, -, rfl⟩ := Option.map_eq_some_iff.mp hother
  exact hne

/-- Listing a cell gives its entries. -/
theorem mem_entries_iff {chart : Chart} {i j symbol : Nat} {entry : Entry} :
    (symbol, entry) ∈ chart.entries i j ↔ chart.entry? i j symbol = some entry := by
  rw [entry?_eq_some_iff, entries, List.mem_filterMap]
  constructor
  · intro h
    obtain ⟨⟨slot, number⟩, hslot, hpair⟩ := h
    obtain ⟨_, rfl, heq⟩ := Option.map_eq_some_iff.mp hpair
    cases heq
    rw [List.mem_zipIdx_iff_getElem?, Array.getElem?_toList] at hslot
    exact hslot
  · intro h
    refine ⟨(some entry, symbol), ?_, rfl⟩
    rw [List.mem_zipIdx_iff_getElem?, Array.getElem?_toList]
    exact h

/-- Where an entry belongs and what it leads to.  It belongs to a span of the sentence and to a
known symbol, and starts with a word exactly if the span consists of one.  Otherwise the two parts
have entries, and a rule of the symbol that joins them gives the score. -/
structure EntryLayout (g : Grammar) (chart : Chart) (i j symbol : Nat) (entry : Entry) :
    Prop where
  span : i ≤ j ∧ j < chart.length
  symbol_lt : symbol < g.symbols.size
  origin_eq_word_iff : entry.origin = .word ↔ i = j
  split : ∀ point left right, entry.origin = .split point left right →
    (i ≤ point ∧ point < j) ∧
      ∃ leftEntry rightEntry, chart.entry? i point left = some leftEntry ∧
        chart.entry? (point + 1) j right = some rightEntry ∧
          ∃ rule ∈ g.rulesFor symbol, rule.left = left ∧ rule.right = right ∧
            entry.score = rule.probability * leftEntry.score * rightEntry.score

theorem symbol_lt_of_entry {i j symbol : Nat} {entry : Entry}
    (h : entry? (fill g policy words) i j symbol = some entry) : symbol < g.symbols.size := by
  obtain ⟨hij, hj⟩ := span_of_entry h
  have hsize : ((fill g policy words).cell i j).size = g.symbols.size := size_cell_fill hij hj
  rw [← hsize]
  exact (Array.getElem?_eq_some_iff.mp (entry?_eq_some_iff.mp h)).1

/-- Exactly the entries of single words start with a word. -/
theorem origin_eq_word_iff {i j symbol : Nat} {entry : Entry}
    (h : entry? (fill g policy words) i j symbol = some entry) :
    entry.origin = .word ↔ i = j := by
  obtain ⟨hij, hj⟩ := span_of_entry h
  rcases Nat.lt_or_eq_of_le hij with hlt | rfl
  · obtain ⟨-, rule, -, point, -, -, hentry, -⟩ := exists_candidate_of_entry hlt hj h
    rw [hentry]
    exact iff_of_false Origin.noConfusion (Nat.ne_of_lt hlt)
  · have hword : words[i]? = some words[i] := List.getElem?_eq_getElem hj
    obtain ⟨_, -, -, -, hentry⟩ := (entry?_fill_self_eq_some_iff hword).mp h
    rw [hentry]
    exact iff_of_true rfl rfl

/-- The two parts of a split have entries, and a rule that joins them gives the score. -/
theorem parts_of_split {i j symbol point left right : Nat} {entry : Entry}
    (h : entry? (fill g policy words) i j symbol = some entry)
    (horigin : entry.origin = .split point left right) :
    (i ≤ point ∧ point < j) ∧
      ∃ leftEntry rightEntry, entry? (fill g policy words) i point left = some leftEntry ∧
        entry? (fill g policy words) (point + 1) j right = some rightEntry ∧
          ∃ rule ∈ g.rulesFor symbol, rule.left = left ∧ rule.right = right ∧
            entry.score = rule.probability * leftEntry.score * rightEntry.score := by
  obtain ⟨hij, hj⟩ := span_of_entry h
  have hne : i ≠ j := by
    intro heq
    have hword := (origin_eq_word_iff h).mpr heq
    rw [horigin] at hword
    cases hword
  obtain ⟨-, rule, hrule, other, hother, hend, hentry, hparts⟩ :=
    exists_candidate_of_entry (Nat.lt_of_le_of_ne hij hne) hj h
  obtain ⟨⟨leftEntry, hleft⟩, rightEntry, hright⟩ := hparts
  rw [hentry] at horigin
  cases horigin
  refine ⟨⟨hother, hend⟩, leftEntry, rightEntry, hleft, hright, rule, hrule, rfl, rfl, ?_⟩
  rw [hentry, candidate, score_of_entry hleft, score_of_entry hright]

theorem entryLayout {i j symbol : Nat} {entry : Entry}
    (h : entry? (fill g policy words) i j symbol = some entry) :
    EntryLayout g (fill g policy words) i j symbol entry where
  span := by
    rw [length_fill]
    exact span_of_entry h
  symbol_lt := symbol_lt_of_entry h
  origin_eq_word_iff := origin_eq_word_iff h
  split _ _ _ := parts_of_split h

/-! ## Slots that are read -/

/-- A chart that is filled up to a level has all slots that the next level is filled from. -/
theorem slots_of_split {k i j point symbol : Nat} {rule : IndexedRule} (hi : i ≤ point)
    (hpoint : point < j) (hj : j < words.length) (hspan : j - i ≤ k + 1)
    (hrule : rule ∈ g.rulesFor symbol) :
    rule.left < ((stage g policy words k).cell i point).size ∧
      rule.right < ((stage g policy words k).cell (point + 1) j).size := by
  obtain ⟨-, -, hleft, hright⟩ := Grammar.lt_size_of_mem_rulesFor hrule
  rw [size_cell_stage hi (by omega) (by omega), size_cell_stage hpoint hj (by omega)]
  exact ⟨hleft, hright⟩

/-- The entries of a full chart are laid out for the sentence, no symbol is listed twice for a span,
and whatever is looked up while the chart is filled is there, whether it is filled level by level or
in place.  Only the counts of a word can be too many, if they are checked as they are added up. -/
theorem fill_layout (g : Grammar) (policy : RareWords) (words : List String) :
    let chart := fill g policy words
    chart.length = words.length ∧
      (∀ i j symbol entry, chart.entry? i j symbol = some entry →
        EntryLayout g chart i j symbol entry) ∧
      (∀ i j, ((chart.entries i j).map Prod.fst).Nodup ∧ ∀ symbol entry,
        (symbol, entry) ∈ chart.entries i j ↔ chart.entry? i j symbol = some entry) ∧
      (∀ k i j point symbol, i ≤ point → point < j → j < words.length → j - i ≤ k + 1 →
        ∀ rule ∈ g.rulesFor symbol,
          rule.left < ((stage g policy words k).cell i point).size ∧
            rule.right < ((stage g policy words k).cell (point + 1) j).size) ∧
      (∃ square, Square.fill? g (Square.lookUp g policy) words = some square ∧
        square.length = words.length ∧
        (∀ i j, (∃ cell, square.cell? i j = some cell) ↔ i < words.length ∧ j < words.length) ∧
        ∀ i j symbol, square.entry? i j symbol = chart.entry? i j symbol) ∧
      Square.fill? g (policy.resolve? g) words =
        if ∀ word ∈ words, g.AddsUp word then Square.fill? g (Square.lookUp g policy) words
        else none := by
  intro chart
  exact ⟨length_fill, fun _ _ _ _ ↦ entryLayout,
    fun i j ↦ ⟨nodup_entries chart i j, fun _ _ ↦ mem_entries_iff⟩,
    fun _ _ _ _ _ hi hpoint hj hspan _ ↦ slots_of_split hi hpoint hj hspan,
    Square.exists_fill? g policy words, Square.fill?_resolve? g policy words⟩

/-- The entry over four words, the slots its split is read from, and a sentence without words. -/
theorem fill_layout_attachment :
    let g := Grammar.ofRecords attachmentRecords
    let words := ["saw", "dog", "with", "cat"]
    let chart := fill g {} words
    let entry : Entry := ⟨⟨4587164819176281028⟩, .split 1 0 2⟩
    let rule : IndexedRule := ⟨0, 0, 2, ⟨4600877379321698714⟩⟩
    chart.entry? 0 3 0 = some entry ∧ EntryLayout g chart 0 3 0 entry ∧
      rule ∈ g.rulesFor 0 ∧ rule.left < ((stage g {} words 2).cell 0 1).size ∧
        rule.right < ((stage g {} words 2).cell 2 3).size ∧
      (∃ square, Square.fill? g (RareWords.resolve? {} g) words = some square ∧
        square.length = 4 ∧ square.entry? 0 3 0 = some entry) ∧
      ∃ square, Square.fill? g (Square.lookUp g {}) [] = some square ∧ square.length = 0 := by
  intro g words chart entry rule
  obtain ⟨-, hentries, -, hslots, ⟨square, hsquare, hlength, -, hsame⟩, hchecked⟩ :=
    fill_layout g {} words
  obtain ⟨-, -, -, -, ⟨blank, hblank, hblankLength, -⟩, -⟩ := fill_layout g {} []
  have haddsUp : ∀ word ∈ words, g.AddsUp word := by decide +kernel
  rw [if_pos haddsUp] at hchecked
  have hentry : chart.entry? 0 3 0 = some entry := by decide +kernel
  have hrule : rule ∈ g.rulesFor 0 := by decide +kernel
  have hread := hslots 2 0 3 1 0 (by decide) (by decide) (by decide) (by decide) rule hrule
  exact ⟨hentry, hentries 0 3 0 entry hentry, hrule, hread.1, hread.2,
    ⟨square, hchecked.trans hsquare, hlength, (hsame 0 3 0).trans hentry⟩, blank, hblank,
    hblankLength⟩

end StochasticGrammar.Chart
