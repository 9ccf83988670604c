import StochasticGrammar.Proofs.Grammar.History
import StochasticGrammar.Proofs.Parse.Underflow
import StochasticGrammar.Proofs.Weight.Arithmetic

/-!
# More occurrences of binary rules

Counting binary rules more often, or counting new ones, leaves the symbols with their numbers and
the words with their rules, and makes no rule less probable.  Every tree is then worth at least as
much as before, however products are rounded, and so is every score.  The best derivations may be
others, but a sentence that had a parse still has one.
-/

namespace StochasticGrammar

/-- The share of a count does not fall with the count, with no share taken for zero. -/
theorem Weight.getD_relativeFrequency?_mono {count more : Nat} (hmore : count ≤ more)
    (total : Nat) :
    (relativeFrequency? count total).getD 0 ≤ (relativeFrequency? more total).getD 0 := by
  cases hshare : relativeFrequency? count total with
  | none => exact zero_le _
  | some share =>
    cases hother : relativeFrequency? more total with
    | none =>
      -- The larger count has no share of a total of zero, and of that only zero has one.
      have htotal := (relativeFrequency?_eq_none_iff.mp hother).2
      by_cases hcount : count = 0
      · rw [hcount] at hshare
        cases hshare
        exact le_rfl
      · exact absurd htotal ((relativeFrequency?_eq_some_iff hcount).mp hshare).1
    | some other => exact relativeFrequency?_mono hmore hshare hother

namespace Grammar

/-- The grammars differ in the counts of binary rules only, and the second has no smaller ones. -/
structure BinaryRulesGrow (g h : Grammar) : Prop where
  symbols : g.symbols = h.symbols
  unaryRules : g.unaryRules = h.unaryRules
  count_le : ∀ rule, g.binaryRules.count rule ≤ h.binaryRules.count rule

namespace BinaryRulesGrow

variable {g h : Grammar} (hgrow : g.BinaryRulesGrow h)

include hgrow

theorem binaryProbability_le (rule : BinaryRule) :
    g.binaryProbability rule ≤ h.binaryProbability rule := by
  rw [binaryProbability_eq, binaryProbability_eq, hgrow.symbols]
  exact Weight.getD_relativeFrequency?_mono (hgrow.count_le rule) _

theorem unaryProbability_eq (rule : UnaryRule) :
    g.unaryProbability rule = h.unaryProbability rule := by
  rw [Grammar.unaryProbability_eq, Grammar.unaryProbability_eq, hgrow.symbols, hgrow.unaryRules]

theorem wordCount_eq (word : String) : g.wordCount word = h.wordCount word := by
  rw [wordCount, wordCount, lexicon, lexicon, hgrow.symbols, hgrow.unaryRules]

theorem value_le (policy : RareWords) (tree : Tree) :
    tree.value g policy ≤ tree.value h policy := by
  induction tree with
  | leaf label word =>
    rw [Tree.value, Tree.value, hgrow.unaryProbability_eq,
      RareWords.resolve_eq_of_wordCount_eq (hgrow.wordCount_eq word)]
  | node label left right ihLeft ihRight =>
    rw [Tree.value, Tree.value]
    exact Weight.mul_le_mul (Weight.mul_le_mul (hgrow.binaryProbability_le _) ihLeft) ihRight

theorem score_le (policy : RareWords) (words : List String) (i j symbol : Nat) :
    (Chart.fill g policy words).score i j symbol ≤
      (Chart.fill h policy words).score i j symbol := by
  apply Chart.score_le_of_value_le (hgrow.value_le policy)
  intro name hname
  rw [← hgrow.symbols, hname]

/-- The tree of a parse keeps its value, so there still is a parse, if not the same one. -/
theorem exists_parse {options : ParseOptions} {words : List String} {parse : Parse}
    (hparse : g.parse options words = .ok parse) :
    ∃ other, h.parse options words = .ok other ∧
      (parse.tree.label = options.startSymbol → other.tree.label = options.startSymbol) := by
  have htree := value_ne_zero_of_parse hparse
  apply exists_parse_of_value_ne_zero htree.1
  exact Weight.ne_zero_of_le htree.2 (hgrow.value_le options.rareWords parse.tree)

end BinaryRulesGrow

/-! ## Training on binary rules -/

/-- Records of binary rules reach no other tally. -/
theorem train_map_binary (g : Grammar) (given : List (BinaryRule × Nat)) :
    g.train (given.map fun (rule, count) ↦ .binary rule count) =
      { g with binaryRules := g.binaryRules.insertAll given } := by
  induction given generalizing g with
  | nil => rfl
  | cons entry given ih =>
    rw [List.map_cons, Tally.insertAll_cons]
    exact ih (g.add (.binary entry.1 entry.2))

/-- Only the last count of each rule has to be at least as great as before. -/
theorem binaryRulesGrow_train {g : Grammar} {given : List (BinaryRule × Nat)}
    (hraised : ∀ entry ∈ given,
      g.binaryRules.count entry.1 ≤ (g.binaryRules.insertAll given).count entry.1) :
    g.BinaryRulesGrow (g.train (given.map fun (rule, count) ↦ .binary rule count)) := by
  rw [train_map_binary]
  refine ⟨rfl, rfl, fun rule ↦ ?_⟩
  by_cases hrule : rule ∈ given.map Prod.fst
  · obtain ⟨entry, hentry, rfl⟩ := List.mem_map.mp hrule
    exact hraised entry hentry
  · exact (Tally.count_insertAll_of_not_mem hrule g.binaryRules).ge

/-- Records that in the end lower no count of a binary rule make no score smaller, and no sentence
loses its parse, nor the start symbol its place at the root. -/
theorem scores_le_of_binary_rules_raised (g : Grammar) (given : List (BinaryRule × Nat)) :
    let h := g.train (given.map fun (rule, count) ↦ .binary rule count)
    (∀ entry ∈ given, g.binaryRules.count entry.1 ≤ h.binaryRules.count entry.1) →
      h.symbols = g.symbols ∧
      (∀ policy words i j symbol, (Chart.fill g policy words).score i j symbol ≤
        (Chart.fill h policy words).score i j symbol) ∧
      ∀ options words parse, g.parse options words = .ok parse →
        ∃ other, h.parse options words = .ok other ∧
          (parse.tree.label = options.startSymbol → other.tree.label = options.startSymbol) := by
  intro h hraised
  have hgrow : g.BinaryRulesGrow h := by
    apply binaryRulesGrow_train
    simpa only [h, train_map_binary] using hraised
  exact ⟨hgrow.symbols.symm, hgrow.score_le, fun _ _ _ ↦ hgrow.exists_parse⟩

/-- Counts under which a sentence splits before its last word. -/
def lateSplits : List Record :=
  [.nonterminal "S" 4, .nonterminal "A" 8, .unary ⟨"A", "a"⟩ 8, .binary ⟨"S", "A", "A"⟩ 1,
    .binary ⟨"S", "S", "A"⟩ 1]

/-- One count is lowered and raised again, a better rule is new, and another has an unknown
symbol. -/
def earlySplits : List (BinaryRule × Nat) :=
  [(⟨"S", "A", "A"⟩, 0), (⟨"S", "A", "S"⟩, 3), (⟨"S", "A", "A"⟩, 2), (⟨"S", "X", "A"⟩, 5)]

/-- The sentence splits after its first word instead, and the score is greater. -/
theorem scores_le_of_early_splits :
    let g := ofRecords lateSplits
    let h := g.train (earlySplits.map fun (rule, count) ↦ .binary rule count)
    let words := ["a", "a", "a"]
    let parse : Parse :=
      ⟨.node "S" (.node "S" (.leaf "A" "a") (.leaf "A" "a")) (.leaf "A" "a"),
        ⟨4589168020290535424⟩⟩
    let other : Parse :=
      ⟨.node "S" (.leaf "A" "a") (.node "S" (.leaf "A" "a") (.leaf "A" "a")),
        ⟨4600427019358961664⟩⟩
    (∀ entry ∈ earlySplits, g.binaryRules.count entry.1 ≤ h.binaryRules.count entry.1) ∧
    (Chart.fill g {} words).score 0 2 0 ≤ (Chart.fill h {} words).score 0 2 0 ∧
    (∃ found, h.parse {} words = .ok found ∧
      (parse.tree.label = "S" → found.tree.label = "S")) ∧
    g.parse {} words = .ok parse ∧ h.parse {} words = .ok other := by
  intro g h words parse other
  have hraised : ∀ entry ∈ earlySplits,
      g.binaryRules.count entry.1 ≤ h.binaryRules.count entry.1 := by decide +kernel
  have hparse : g.parse {} words = .ok parse := by decide +kernel
  obtain ⟨-, hscores, hparses⟩ := scores_le_of_binary_rules_raised g earlySplits hraised
  exact ⟨hraised, hscores {} words 0 2 0, hparses {} words parse hparse, hparse,
    by decide +kernel⟩

end Grammar

end StochasticGrammar
