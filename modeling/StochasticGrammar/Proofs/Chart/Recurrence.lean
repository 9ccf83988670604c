import StochasticGrammar.Chart
import StochasticGrammar.Proofs.Grammar.Agreement
import StochasticGrammar.Proofs.Weight.Arithmetic
import StochasticGrammar.Proofs.Weight.Heaviest

/-!
# The entries of a full chart

A full chart satisfies a recurrence, from which the scores of its entries are read off by name.
-/

namespace StochasticGrammar.Chart

/-! ## The recurrence of a full chart

A chart is filled level by level, and a level never changes once it is there.  So the entries of
the full chart satisfy a recurrence among themselves: those of a single word come from the lexicon,
and those of a longer span are the heaviest candidates over the entries of shorter spans.
-/

section Recurrence

variable {g : Grammar} {policy : RareWords} {words : List String}

/-! ### One level more -/

theorem length_grow (index : List (List IndexedRule)) (chart : Chart) :
    (chart.grow index).length = chart.length := rfl

theorem size_levels_grow (index : List (List IndexedRule)) (chart : Chart) :
    (chart.grow index).levels.size = chart.levels.size + 1 := by
  rw [grow, Array.size_push]

/-- The levels that are there are kept. -/
theorem cell_grow_of_lt {index : List (List IndexedRule)} {chart : Chart} {i j : Nat}
    (h : j - i < chart.levels.size) : (chart.grow index).cell i j = chart.cell i j := by
  have hlevel : (chart.grow index).levels[j - i]? = chart.levels[j - i]? := by
    rw [grow, Array.getElem?_push, if_neg (Nat.ne_of_lt h)]
  rw [cell, cell, hlevel]

/-- The new level holds a cell for each span of its width. -/
theorem cell_grow_of_eq {index : List (List IndexedRule)} {chart : Chart} {i j : Nat}
    (hij : i ≤ j) (h : j - i = chart.levels.size) (hj : j < chart.length) :
    (chart.grow index).cell i j = spanCell index chart i j := by
  have hi : i < chart.length - chart.levels.size := by omega
  have hend : i + chart.levels.size = j := by omega
  rw [cell, if_pos hij, grow, Array.getElem?_push, if_pos h]
  simp [hi, hend]

theorem cell_of_lt {chart : Chart} {i j : Nat} (h : j < i) : chart.cell i j = #[] :=
  if_neg (Nat.not_le_of_lt h)

/-- The new level holds no cell for a span that goes beyond the last word. -/
theorem cell_grow_of_length_le {index : List (List IndexedRule)} {chart : Chart} {i j : Nat}
    (hj : chart.length ≤ j) (h : chart.cell i j = #[]) : (chart.grow index).cell i j = #[] := by
  rcases Nat.lt_or_ge j i with hji | hij
  · exact cell_of_lt hji
  · rcases Nat.lt_trichotomy (j - i) chart.levels.size with hlt | heq | hgt
    · rw [cell_grow_of_lt hlt, h]
    · have hbeyond : chart.length - chart.levels.size ≤ i := by omega
      rw [cell, if_pos hij, grow, Array.getElem?_push, if_pos heq]
      simp [hbeyond]
    · rw [cell, if_pos hij, Array.getElem?_eq_none]
      · rfl
      · rw [size_levels_grow]
        exact hgt

/-! ### All levels -/

/-- The chart of a sentence with the spans of up to `k + 1` words. -/
def stage (g : Grammar) (policy : RareWords) (words : List String) (k : Nat) : Chart :=
  Nat.repeat (grow g.ruleIndex) k (start g policy words)

theorem stage_succ (k : Nat) :
    stage g policy words (k + 1) = (stage g policy words k).grow g.ruleIndex := rfl

@[simp]
theorem length_stage (k : Nat) : (stage g policy words k).length = words.length := by
  induction k with
  | zero => rfl
  | succ k ih => rw [stage_succ, length_grow, ih]

@[simp]
theorem size_levels_stage (k : Nat) : (stage g policy words k).levels.size = k + 1 := by
  induction k with
  | zero => rfl
  | succ k ih => rw [stage_succ, size_levels_grow, ih]

/-- Once the level of a span is there, further levels do not change its cell. -/
theorem cell_stage_of_le {i j k k' : Nat} (hspan : j - i ≤ k) (hk : k ≤ k') :
    (stage g policy words k').cell i j = (stage g policy words k).cell i j := by
  induction hk with
  | refl => rfl
  | step hle ih =>
    rw [stage_succ, cell_grow_of_lt, ih]
    rw [size_levels_stage]
    exact Nat.lt_succ_of_le (hspan.trans hle)

theorem entry?_stage_of_le {i j k k' : Nat} (hspan : j - i ≤ k) (hk : k ≤ k') (symbol : Nat) :
    entry? (stage g policy words k') i j symbol = entry? (stage g policy words k) i j symbol := by
  unfold entry?
  rw [cell_stage_of_le hspan hk]

theorem score_stage_of_le {i j k k' : Nat} (hspan : j - i ≤ k) (hk : k ≤ k') (symbol : Nat) :
    (stage g policy words k').score i j symbol = (stage g policy words k).score i j symbol := by
  rw [score, score, entry?_stage_of_le hspan hk]

theorem cell_stage_of_length_le {i j : Nat} (hj : words.length ≤ j) (k : Nat) :
    (stage g policy words k).cell i j = #[] := by
  induction k with
  | zero =>
    rcases Nat.lt_or_ge j i with hji | hij
    · exact cell_of_lt hji
    · rcases Nat.eq_or_lt_of_le hij with heq | hlt
      · have hbeyond : words.length ≤ i := by omega
        simp [cell, stage, Nat.repeat, start, ← heq, hbeyond]
      · have hne : j - i ≠ 0 := Nat.sub_ne_zero_of_lt hlt
        simp [cell, stage, Nat.repeat, start, hne]
  | succ k ih =>
    rw [stage_succ]
    apply cell_grow_of_length_le _ ih
    rwa [length_stage]

/-- The candidates for a span are the same in every chart that has the shorter spans. -/
theorem candidates_stage_of_lt {i j k k' : Nat} (hspan : j - i ≤ k + 1) (hk : k ≤ k')
    (rules : List IndexedRule) :
    (stage g policy words k').candidates i j rules =
      (stage g policy words k).candidates i j rules := by
  unfold candidates
  apply List.flatMap_congr
  intro rule _
  apply List.map_congr_left
  intro point hpoint
  rw [List.mem_range'_1] at hpoint
  have hleft : point - i ≤ k := by omega
  have hright : j - (point + 1) ≤ k := by omega
  rw [candidate, candidate, score_stage_of_le hleft hk, score_stage_of_le hright hk]

theorem fill_eq_stage : fill g policy words = stage g policy words (words.length - 1) := rfl

@[simp]
theorem length_fill : (fill g policy words).length = words.length :=
  length_stage (words.length - 1)

/-- A full chart is empty outside the spans of the sentence. -/
theorem cell_fill_of_not_span {i j : Nat} (h : ¬(i ≤ j ∧ j < words.length)) :
    (fill g policy words).cell i j = #[] := by
  rcases Nat.lt_or_ge j i with hji | hij
  · exact cell_of_lt hji
  · exact cell_stage_of_length_le (by omega) (words.length - 1)

/-! ### The recurrence -/

theorem getElem?_spanCell (chart : Chart) (i j symbol : Nat) :
    ((spanCell g.ruleIndex chart i j)[symbol]?).join =
      heaviest? Entry.score (chart.candidates i j (g.rulesFor symbol)) := by
  rw [spanCell, List.getElem?_toArray, List.getElem?_map]
  rcases Nat.lt_or_ge symbol g.symbols.size with h | h
  · rw [Grammar.getElem?_ruleIndex_of_lt h]
    rfl
  · rw [Grammar.getElem?_ruleIndex_of_le h, Grammar.rulesFor_eq_nil_of_size_le h]
    rfl

/-- The cell of a longer span is filled from the shorter spans of the full chart. -/
theorem cell_fill_of_lt {i j : Nat} (hij : i < j) (hj : j < words.length) :
    (fill g policy words).cell i j = spanCell g.ruleIndex (fill g policy words) i j := by
  obtain ⟨k, hk⟩ : ∃ k, j - i = k + 1 := ⟨j - i - 1, by omega⟩
  have hcandidates (rules : List IndexedRule) :
      (fill g policy words).candidates i j rules =
        (stage g policy words k).candidates i j rules := by
    rw [fill_eq_stage]
    exact candidates_stage_of_lt (Nat.le_of_eq hk) (by omega) _
  calc
    _ = spanCell g.ruleIndex (stage g policy words k) i j := by
      rw [fill_eq_stage, cell_stage_of_le (Nat.le_of_eq hk) (by omega), stage_succ]
      apply cell_grow_of_eq (Nat.le_of_lt hij)
      · rw [size_levels_stage, hk]
      · rwa [length_stage]
    _ = _ := by
      simp only [spanCell, hcandidates]

/-- A longer span has the heaviest candidate over the shorter spans of the full chart. -/
theorem entry?_fill_of_lt {i j : Nat} (hij : i < j) (hj : j < words.length) (symbol : Nat) :
    entry? (fill g policy words) i j symbol =
      heaviest? Entry.score ((fill g policy words).candidates i j (g.rulesFor symbol)) := by
  unfold entry?
  rw [cell_fill_of_lt hij hj, getElem?_spanCell]

theorem cell_fill_self {i : Nat} {word : String} (hword : words[i]? = some word) :
    (fill g policy words).cell i i = wordCell g policy word := by
  rw [fill_eq_stage, cell_stage_of_le (k := 0) (by omega) (Nat.zero_le _)]
  simp [cell, stage, Nat.repeat, start, hword]

/-- The symbols of a word's cell are those listed for what the word is looked up as. -/
theorem entry?_fill_self {i : Nat} {word : String} (hword : words[i]? = some word)
    (symbol : Nat) :
    entry? (fill g policy words) i i symbol =
      ((g.lexicalWeights (policy.resolve g word)).find? (·.1 = symbol)).map
        fun (_, weight) ↦ ⟨weight, .word⟩ := by
  unfold entry?
  rw [cell_fill_self hword, wordCell, List.getElem?_toArray, List.getElem?_map]
  rcases Nat.lt_or_ge symbol g.symbols.size with h | h
  · rw [List.getElem?_range h]
    rfl
  · -- Symbols beyond those that are known are not listed for any word.
    have hfind : (g.lexicalWeights (policy.resolve g word)).find? (·.1 = symbol) = none := by
      rw [List.find?_eq_none]
      intro entry hentry
      obtain ⟨name, hname, -⟩ := Grammar.mem_lexicalWeights_iff.mp hentry
      have hlt := Tally.lt_size_of_key? hname
      simp only [decide_eq_true_eq]
      omega
    rw [hfind, List.getElem?_eq_none]
    · rfl
    · rwa [List.length_range]

end Recurrence

/-! ## Where entries come from

The entries of a single word are the unary rules for what the word is looked up as.  An entry of a
longer span is a candidate of positive score, so it leads to entries of two shorter spans.  The
scores are those of the rules by name.
-/

section Entries

variable {g : Grammar} {policy : RareWords} {words : List String}

/-! ### Entries and scores -/

theorem score_of_entry {chart : Chart} {i j symbol : Nat} {entry : Entry}
    (h : chart.entry? i j symbol = some entry) : chart.score i j symbol = entry.score := by
  rw [score, h]

theorem score_of_no_entry {chart : Chart} {i j symbol : Nat}
    (h : chart.entry? i j symbol = none) : chart.score i j symbol = 0 := by
  rw [score, h]

theorem exists_entry_of_score_ne_zero {chart : Chart} {i j symbol : Nat}
    (h : chart.score i j symbol ≠ 0) : ∃ entry, chart.entry? i j symbol = some entry := by
  cases hentry : chart.entry? i j symbol with
  | none => exact absurd (score_of_no_entry hentry) h
  | some entry => exact ⟨entry, rfl⟩

/-- Only spans of the sentence have entries. -/
theorem span_of_entry {i j symbol : Nat} {entry : Entry}
    (h : entry? (fill g policy words) i j symbol = some entry) : i ≤ j ∧ j < words.length := by
  by_contra hspan
  unfold entry? at h
  rw [cell_fill_of_not_span hspan] at h
  cases h

theorem mem_candidates_iff {chart : Chart} {i j : Nat} {rules : List IndexedRule}
    {entry : Entry} :
    entry ∈ chart.candidates i j rules ↔
      ∃ rule ∈ rules, ∃ point, i ≤ point ∧ point < j ∧ chart.candidate i j rule point = entry := by
  rw [candidates, List.mem_flatMap]
  apply exists_congr
  intro rule
  apply and_congr_right
  intro _
  rw [List.mem_map]
  apply exists_congr
  intro point
  rw [List.mem_range'_1, ← and_assoc]
  apply and_congr_left
  intro _
  omega

/-! ### Single words -/

/-- What is found for a symbol carries the probability of its name. -/
theorem exists_name_of_find? {symbol : Nat} {word : String} {found : Nat × Weight}
    (h : (g.lexicalWeights word).find? (·.1 = symbol) = some found) :
    ∃ name, g.symbols.key? symbol = some name ∧ g.unaryRules.count ⟨name, word⟩ ≠ 0 ∧
      g.symbols.count name ≠ 0 ∧ found = (symbol, g.unaryProbability ⟨name, word⟩) := by
  obtain ⟨number, weight⟩ := found
  have hnumber : number = symbol := by simpa using List.find?_some h
  have hmem := List.mem_of_find?_eq_some h
  rw [hnumber, Grammar.mem_lexicalWeights_iff] at hmem
  obtain ⟨name, hname, hcount, htotal, hweight⟩ := hmem
  exact ⟨name, hname, hcount, htotal, by rw [hnumber, hweight]⟩

theorem find?_lexicalWeights {symbol : Nat} {word name : String}
    (hname : g.symbols.key? symbol = some name) (hcount : g.unaryRules.count ⟨name, word⟩ ≠ 0)
    (htotal : g.symbols.count name ≠ 0) :
    (g.lexicalWeights word).find? (·.1 = symbol) =
      some (symbol, g.unaryProbability ⟨name, word⟩) := by
  have hlisted := Grammar.mem_lexicalWeights_iff.mpr ⟨name, hname, hcount, htotal, rfl⟩
  have hsome : ((g.lexicalWeights word).find? (·.1 = symbol)).isSome := by
    rw [List.find?_isSome]
    exact ⟨_, hlisted, decide_eq_true rfl⟩
  obtain ⟨found, hfound⟩ := Option.isSome_iff_exists.mp hsome
  obtain ⟨other, hother, -, -, rfl⟩ := exists_name_of_find? hfound
  cases hname.symm.trans hother
  exact hfound

theorem entry?_fill_self_eq_some_iff {i symbol : Nat} {word : String} {entry : Entry}
    (hword : words[i]? = some word) :
    entry? (fill g policy words) i i symbol = some entry ↔
      ∃ name, g.symbols.key? symbol = some name ∧
        g.unaryRules.count ⟨name, policy.resolve g word⟩ ≠ 0 ∧ g.symbols.count name ≠ 0 ∧
          entry = ⟨g.unaryProbability ⟨name, policy.resolve g word⟩, .word⟩ := by
  rw [entry?_fill_self hword, Option.map_eq_some_iff]
  constructor
  · intro h
    obtain ⟨found, hfound, hentry⟩ := h
    obtain ⟨name, hname, hcount, htotal, rfl⟩ := exists_name_of_find? hfound
    exact ⟨name, hname, hcount, htotal, hentry.symm⟩
  · intro h
    obtain ⟨name, hname, hcount, htotal, rfl⟩ := h
    exact ⟨_, find?_lexicalWeights hname hcount htotal, rfl⟩

/-- The score of a symbol over a word is the probability that it expands into the word. -/
theorem score_fill_self {i symbol : Nat} {word name : String} (hword : words[i]? = some word)
    (hname : g.symbols.key? symbol = some name) :
    (fill g policy words).score i i symbol =
      g.unaryProbability ⟨name, policy.resolve g word⟩ := by
  cases hentry : entry? (fill g policy words) i i symbol with
  | some entry =>
    obtain ⟨other, hother, -, -, rfl⟩ := (entry?_fill_self_eq_some_iff hword).mp hentry
    cases hname.symm.trans hother
    exact score_of_entry hentry
  | none =>
    rw [score_of_no_entry hentry]
    by_contra hne
    have hcounts := Grammar.counts_ne_zero_of_unaryProbability (Ne.symm hne)
    have hsome := (entry?_fill_self_eq_some_iff hword).mpr ⟨name, hname, hcounts.1, hcounts.2, rfl⟩
    rw [hentry] at hsome
    cases hsome

/-! ### Longer spans -/

/-- No rule and no split gives more than the score of a span. -/
theorem candidate_score_le {i j point symbol : Nat} {rule : IndexedRule} (hi : i ≤ point)
    (hpoint : point < j) (hj : j < words.length) (hrule : rule ∈ g.rulesFor symbol) :
    ((fill g policy words).candidate i j rule point).score ≤
      (fill g policy words).score i j symbol := by
  have hmem : (fill g policy words).candidate i j rule point ∈
      (fill g policy words).candidates i j (g.rulesFor symbol) :=
    mem_candidates_iff.mpr ⟨rule, hrule, point, hi, hpoint, rfl⟩
  have hentry : entry? (fill g policy words) i j symbol = _ :=
    entry?_fill_of_lt (hi.trans_lt hpoint) hj symbol
  cases hbest : heaviest? Entry.score
      ((fill g policy words).candidates i j (g.rulesFor symbol)) with
  | none =>
    rw [heaviest?_eq_none_iff.mp hbest _ hmem]
    exact Weight.zero_le _
  | some best =>
    rw [score_of_entry (hentry.trans hbest)]
    exact weight_le_of_heaviest? hbest hmem

/-- An entry of a longer span is a candidate whose two parts have entries themselves. -/
theorem exists_candidate_of_entry {i j symbol : Nat} {entry : Entry} (hij : i < j)
    (hj : j < words.length) (h : entry? (fill g policy words) i j symbol = some entry) :
    entry.score ≠ 0 ∧ ∃ rule ∈ g.rulesFor symbol, ∃ point, i ≤ point ∧ point < j ∧
      entry = (fill g policy words).candidate i j rule point ∧
        (∃ left, entry? (fill g policy words) i point rule.left = some left) ∧
          ∃ right, entry? (fill g policy words) (point + 1) j rule.right = some right := by
  rw [entry?_fill_of_lt hij hj] at h
  have hscore := weight_ne_zero_of_heaviest? h
  obtain ⟨rule, hrule, point, hi, hpoint, rfl⟩ := mem_candidates_iff.mp (mem_of_heaviest? h)
  have hleft := Weight.right_ne_zero_of_mul (Weight.left_ne_zero_of_mul hscore)
  have hright := Weight.right_ne_zero_of_mul hscore
  exact ⟨hscore, rule, hrule, point, hi, hpoint, rfl, exists_entry_of_score_ne_zero hleft,
    exists_entry_of_score_ne_zero hright⟩

end Entries

end StochasticGrammar.Chart
