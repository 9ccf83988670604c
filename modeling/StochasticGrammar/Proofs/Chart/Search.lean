import Mathlib.Order.Bounds.Defs
import StochasticGrammar.Proofs.Chart.Recurrence
import StochasticGrammar.Proofs.Weight.Heaviest

/-!
# Searching a span

The entry of a span is found among all ways to split it by a rule, in a fixed order: rule by rule,
and for each rule from left to right.  It is the first split that is worth the most in the full
chart, and there is none exactly if no split is worth anything.  A search in one pass that passes
over splits with an empty part, and gives up the best split so far only for a better one, finds the
same entry.
-/

namespace StochasticGrammar.Chart

/-- The ways to split a span by a rule, rule by rule and from left to right. -/
def splits (i j : Nat) (rules : List IndexedRule) : List (IndexedRule × Nat) :=
  rules.flatMap fun rule ↦ (List.range' i (j - i)).map (rule, ·)

/-- What the parts of a split are worth together with its rule. -/
def worth (chart : Chart) (i j : Nat) (split : IndexedRule × Nat) : Weight :=
  split.1.probability * chart.score i split.2 split.1.left *
    chart.score (split.2 + 1) j split.1.right

/-- The entry for a split. -/
def entryOf (chart : Chart) (i j : Nat) (split : IndexedRule × Nat) : Entry :=
  ⟨chart.worth i j split, .split split.2 split.1.left split.1.right⟩

/-- The first split that is worth the most. -/
structure IsFirstBest (chart : Chart) (i j : Nat) (rules : List IndexedRule)
    (split : IndexedRule × Nat) : Prop where
  greatest : IsGreatest {weight | ∃ other ∈ splits i j rules, chart.worth i j other = weight}
    (chart.worth i j split)
  first : ∃ before after, splits i j rules = before ++ split :: after ∧
    ∀ other ∈ before, chart.worth i j other < chart.worth i j split

variable {chart : Chart} {i j : Nat} {rules : List IndexedRule}

theorem candidates_eq_map_splits :
    chart.candidates i j rules = (splits i j rules).map (chart.entryOf i j) := by
  unfold candidates splits
  rw [List.map_flatMap]
  apply List.flatMap_congr
  intro rule _
  rw [List.map_map]
  rfl

/-! ## One pass -/

/-- Takes a split into account, unless one of its parts is empty. -/
def consider (chart : Chart) (i j : Nat) (rule : IndexedRule) (best : Option Entry) (point : Nat) :
    Option Entry :=
  if chart.score i point rule.left = 0 then best
  else if chart.score (point + 1) j rule.right = 0 then best
  else heavierOf Entry.score best (chart.candidate i j rule point)

/-- Finds the entry of a span in one pass over the rules and the splits for each. -/
def search (chart : Chart) (i j : Nat) (rules : List IndexedRule) : Option Entry :=
  rules.foldl (fun best rule ↦ (List.range' i (j - i)).foldl (chart.consider i j rule) best) none

/-- Splits with an empty part are worth nothing. -/
theorem consider_eq_heavierOf (rule : IndexedRule) (best : Option Entry) (point : Nat) :
    chart.consider i j rule best point =
      heavierOf Entry.score best (chart.candidate i j rule point) := by
  unfold consider
  split_ifs with hleft hright
  · apply (heavierOf_of_zero _).symm
    rw [candidate, hleft, Weight.mul_zero, Weight.zero_mul]
  · apply (heavierOf_of_zero _).symm
    rw [candidate, hright, Weight.mul_zero]
  · rfl

/-- Passing over splits with an empty part loses nothing. -/
theorem search_eq_heaviest? :
    chart.search i j rules = heaviest? Entry.score (chart.candidates i j rules) := by
  rw [← foldl_heavierOf, candidates, List.foldl_flatMap, search]
  congr 1
  funext best rule
  rw [List.foldl_map]
  congr 1
  funext best point
  exact consider_eq_heavierOf rule best point

/-! ## The first best split -/

theorem heaviest?_worth_eq_some_iff {split : IndexedRule × Nat} :
    heaviest? (chart.worth i j) (splits i j rules) = some split ↔
      chart.IsFirstBest i j rules split ∧ 0 < chart.worth i j split := by
  constructor
  · intro h
    obtain ⟨hpos, before, after, hsplits, hbefore, -⟩ := exists_split_of_heaviest? h
    refine ⟨⟨⟨⟨split, mem_of_heaviest? h, rfl⟩, ?_⟩, before, after, hsplits, hbefore⟩,
      Weight.pos_iff_ne_zero.mpr hpos⟩
    rintro weight ⟨other, hother, rfl⟩
    exact weight_le_of_heaviest? h hother
  · intro h
    obtain ⟨⟨hgreatest, before, after, hsplits, hbefore⟩, hpos⟩ := h
    rw [hsplits]
    apply heaviest?_append_cons (Weight.pos_iff_ne_zero.mp hpos) hbefore
    intro other hother
    apply hgreatest.2
    refine ⟨other, ?_, rfl⟩
    rw [hsplits]
    exact List.mem_append_right _ (List.mem_cons_of_mem _ hother)

theorem entry?_fill_eq_map (g : Grammar) (policy : RareWords) (words : List String)
    (hij : i < j) (hj : j < words.length) (symbol : Nat) :
    entry? (fill g policy words) i j symbol =
      (heaviest? ((fill g policy words).worth i j) (splits i j (g.rulesFor symbol))).map
        ((fill g policy words).entryOf i j) := by
  rw [entry?_fill_of_lt hij hj, candidates_eq_map_splits, heaviest?_map]
  rfl

theorem exists_entry_iff_worth_pos (g : Grammar) (policy : RareWords) (words : List String)
    (hij : i < j) (hj : j < words.length) (symbol : Nat) :
    (∃ entry, entry? (fill g policy words) i j symbol = some entry) ↔
      ∃ split ∈ splits i j (g.rulesFor symbol), 0 < (fill g policy words).worth i j split := by
  rw [entry?_fill_eq_map g policy words hij hj]
  cases hbest : heaviest? ((fill g policy words).worth i j) (splits i j (g.rulesFor symbol)) with
  | none =>
    have hzero := heaviest?_eq_none_iff.mp hbest
    simpa [Weight.pos_iff_ne_zero] using hzero
  | some split =>
    have hfirst := heaviest?_worth_eq_some_iff.mp hbest
    exact iff_of_true ⟨_, rfl⟩ ⟨split, mem_of_heaviest? hbest, hfirst.2⟩

theorem entry?_fill_eq_some_iff_isFirstBest (g : Grammar) (policy : RareWords)
    (words : List String) (hij : i < j) (hj : j < words.length) (symbol : Nat) (entry : Entry) :
    entry? (fill g policy words) i j symbol = some entry ↔
      ∃ split, (fill g policy words).IsFirstBest i j (g.rulesFor symbol) split ∧
        0 < (fill g policy words).worth i j split ∧
          entry = (fill g policy words).entryOf i j split := by
  rw [entry?_fill_eq_map g policy words hij hj, Option.map_eq_some_iff]
  apply exists_congr
  intro split
  rw [heaviest?_worth_eq_some_iff, and_assoc, eq_comm (a := entry)]

/-- The entries of a word are the symbols listed for what the word is looked up as. -/
theorem entry?_fill_self_iff_mem_lexicalWeights {g : Grammar} {policy : RareWords}
    {words : List String} {word : String} (hword : words[i]? = some word) (symbol : Nat)
    (entry : Entry) :
    entry? (fill g policy words) i i symbol = some entry ↔
      ∃ weight, (symbol, weight) ∈ g.lexicalWeights (policy.resolve g word) ∧
        entry = ⟨weight, .word⟩ := by
  rw [entry?_fill_self_eq_some_iff hword]
  simp only [Grammar.mem_lexicalWeights_iff]
  constructor
  · rintro ⟨name, hname, hcount, htotal, hentry⟩
    exact ⟨_, ⟨name, hname, hcount, htotal, rfl⟩, hentry⟩
  · rintro ⟨weight, ⟨name, hname, hcount, htotal, rfl⟩, hentry⟩
    exact ⟨name, hname, hcount, htotal, hentry⟩

/-- The entries of a full chart satisfy one recurrence, and one pass over the splits of a span
finds its entry. -/
theorem entry_fill_is_first_best (g : Grammar) (policy : RareWords) (words : List String) :
    let chart := fill g policy words
    (∀ i j symbol, i < j → j < words.length →
      ((∃ entry, chart.entry? i j symbol = some entry) ↔
        ∃ split ∈ splits i j (g.rulesFor symbol), 0 < chart.worth i j split) ∧
      (∀ entry, chart.entry? i j symbol = some entry ↔
        ∃ split, chart.IsFirstBest i j (g.rulesFor symbol) split ∧
          0 < chart.worth i j split ∧ entry = chart.entryOf i j split) ∧
      chart.entry? i j symbol = chart.search i j (g.rulesFor symbol)) ∧
    ∀ i word, words[i]? = some word → ∀ symbol entry,
      chart.entry? i i symbol = some entry ↔
        ∃ weight, (symbol, weight) ∈ g.lexicalWeights (policy.resolve g word) ∧
          entry = ⟨weight, .word⟩ := by
  intro chart
  refine ⟨?_, fun _ _ ↦ entry?_fill_self_iff_mem_lexicalWeights⟩
  intro i j symbol hij hj
  refine ⟨exists_entry_iff_worth_pos g policy words hij hj symbol,
    entry?_fill_eq_some_iff_isFirstBest g policy words hij hj symbol, ?_⟩
  rw [search_eq_heaviest?]
  exact entry?_fill_of_lt hij hj symbol

/-- Counts under which three words split alike in two places, and two by two rules alike. -/
def tiedRecords : List Record :=
  [.nonterminal "X" 16, .nonterminal "A" 16, .binary ⟨"X", "X", "X"⟩ 8, .binary ⟨"X", "A", "A"⟩ 2,
    .unary ⟨"X", "a"⟩ 8, .unary ⟨"A", "a"⟩ 16]

/-- The tie goes to the first rule and the leftmost split. -/
theorem first_best_tied :
    let g := Grammar.ofRecords tiedRecords
    let words := ["a", "a", "a"]
    let chart := fill g {} words
    let rule : IndexedRule := ⟨0, 0, 0, ⟨4602678819172646912⟩⟩
    let half : Weight := ⟨4602678819172646912⟩
    (0 < 2 ∧ 2 < words.length ∧
      chart.entry? 0 2 0 = some (chart.entryOf 0 2 (rule, 0)) ∧
      (∃ split, chart.IsFirstBest 0 2 (g.rulesFor 0) split ∧ 0 < chart.worth 0 2 split ∧
        chart.entryOf 0 2 (rule, 0) = chart.entryOf 0 2 split) ∧
      chart.entry? 0 2 0 = chart.search 0 2 (g.rulesFor 0)) ∧
    words[0]? = some "a" ∧ chart.entry? 0 0 0 = some ⟨half, .word⟩ ∧
      ∃ weight, (0, weight) ∈ g.lexicalWeights (RareWords.resolve {} g "a") ∧
        (⟨half, .word⟩ : Entry) = ⟨weight, .word⟩ := by
  intro g words chart rule half
  have hentry : chart.entry? 0 2 0 = some (chart.entryOf 0 2 (rule, 0)) := by decide +kernel
  have hword : chart.entry? 0 0 0 = some ⟨half, .word⟩ := by decide +kernel
  have hrecurrence := entry_fill_is_first_best g {} words
  have hspan := hrecurrence.1 0 2 0 (by decide) (by decide)
  exact ⟨⟨by decide, by decide, hentry, (hspan.2.1 _).mp hentry, hspan.2.2⟩, rfl, hword,
    (hrecurrence.2 0 "a" rfl 0 _).mp hword⟩

end StochasticGrammar.Chart
