import StochasticGrammar.Parse
import StochasticGrammar.Proofs.Chart.Recovery
import StochasticGrammar.Proofs.Grammar.Restriction

/-!
# Parsing without inert rules

Parsing reads a grammar through its symbols, the rules and words listed by number and how often a
word was seen.  Grammars that look the same in these respects give the same charts and the same
parses, so a rule that is inert is not noticed: a grammar that never read its records resolves every
word, fills every chart and parses every sentence alike.
-/

namespace StochasticGrammar

namespace Grammar

/-- The grammars are the same in everything that parsing reads. -/
structure ReadAlike (g h : Grammar) : Prop where
  symbols : g.symbols = h.symbols
  indexedRules : g.indexedRules = h.indexedRules
  lexicalWeights : ∀ word, g.lexicalWeights word = h.lexicalWeights word
  wordCount : ∀ word, g.wordCount word = h.wordCount word

namespace ReadAlike

variable {g h : Grammar} (halike : g.ReadAlike h)

include halike

theorem rulesFor_eq (number : Nat) : g.rulesFor number = h.rulesFor number := by
  rw [rulesFor, rulesFor, halike.indexedRules]

theorem ruleIndex_eq : g.ruleIndex = h.ruleIndex := by
  rw [ruleIndex, ruleIndex, halike.indexedRules, halike.symbols]

theorem symbolName_eq : g.symbolName = h.symbolName := by
  funext number
  rw [symbolName, symbolName, halike.symbols]

theorem resolve_eq (policy : RareWords) (word : String) :
    policy.resolve g word = policy.resolve h word :=
  RareWords.resolve_eq_of_wordCount_eq (halike.wordCount word) policy

theorem wordCell_eq (policy : RareWords) : Chart.wordCell g policy = Chart.wordCell h policy := by
  funext word
  rw [Chart.wordCell, Chart.wordCell, halike.resolve_eq, halike.lexicalWeights, halike.symbols]

theorem fill_eq (policy : RareWords) (words : List String) :
    Chart.fill g policy words = Chart.fill h policy words := by
  rw [Chart.fill, Chart.fill, Chart.start, Chart.start, halike.wordCell_eq, halike.ruleIndex_eq]

theorem root?_eq (chart : Chart) (startSymbol : String) :
    chart.root? g startSymbol = chart.root? h startSymbol := by
  unfold Chart.root? Chart.rootCandidates
  rw [halike.symbols]

/-- Recovery reads nothing but the names of the symbols. -/
theorem recover_eq (chart : Chart) (words : List String) (i j symbol : Nat) :
    chart.recover g words i j symbol = chart.recover h words i j symbol := by
  induction i, j, symbol using chart.split_induction with
  | word i symbol => rw [Chart.recover_word, Chart.recover_word, halike.symbolName_eq]
  | noSplit i j symbol hij hsplit =>
    rw [Chart.recover_of_no_split g words hij hsplit, Chart.recover_of_no_split h words hij hsplit,
      halike.symbolName_eq]
  | split i j symbol point left right _ _ hsplit hleft hright =>
    rw [Chart.recover_of_split? g words hsplit, Chart.recover_of_split? h words hsplit, hleft,
      hright, halike.symbolName_eq]

theorem parse_eq (options : ParseOptions) (words : List String) :
    g.parse options words = h.parse options words := by
  simp only [parse, halike.fill_eq, halike.root?_eq, halike.recover_eq]

end ReadAlike

/-! ## Inert rules -/

/-- By the records, a rule is inert if one of its symbols has no record or if its count is zero in
the end. -/
theorem isInert_ofRecords_iff {records : List Record} {rule : Rule} :
    rule.IsInert (ofRecords records) ↔
      (∃ symbol ∈ rule.symbols, ∀ count, .nonterminal symbol count ∉ records) ∨
        (ofRecords records).ruleCount rule = 0 := by
  simp only [Rule.IsInert, Rule.IsKnown, mem_symbols_ofRecords_iff, not_forall, not_exists,
    exists_prop]

theorem readAlike_without {g : Grammar} {dropped : Rule → Prop} [DecidablePred dropped]
    (hinert : ∀ rule, dropped rule → rule.IsInert g) : (g.without dropped).ReadAlike g where
  symbols := rfl
  indexedRules := indexedRules_without hinert
  lexicalWeights := lexicalWeights_without hinert
  wordCount := wordCount_without hinert

/-- Nothing that parsing does depends on the records of inert rules. -/
theorem parsing_ignores_inert_rules (records : List Record) (dropped : Rule → Prop)
    [DecidablePred dropped]
    (hinert : ∀ rule, dropped rule →
      (∃ symbol ∈ rule.symbols, ∀ count, .nonterminal symbol count ∉ records) ∨
        (ofRecords records).ruleCount rule = 0) :
    let g := ofRecords records
    let h := ofRecords (Record.without dropped records)
    h.symbols = g.symbols ∧ (∀ number, h.rulesFor number = g.rulesFor number) ∧
    (∀ word, h.lexicalWeights word = g.lexicalWeights word ∧ h.wordCount word = g.wordCount word) ∧
    (∀ (policy : RareWords) word, policy.resolve h word = policy.resolve g word) ∧
    (∀ policy words, Chart.fill h policy words = Chart.fill g policy words) ∧
    ∀ options words, h.parse options words = g.parse options words := by
  intro g h
  have hwithout : h = g.without dropped := ofRecords_without dropped records
  have halike : h.ReadAlike g := by
    rw [hwithout]
    exact readAlike_without fun rule hrule ↦ isInert_ofRecords_iff.mpr (hinert rule hrule)
  exact ⟨halike.symbols, halike.rulesFor_eq,
    fun word ↦ ⟨halike.lexicalWeights word, halike.wordCount word⟩, halike.resolve_eq,
    halike.fill_eq, halike.parse_eq⟩

/-- Rules of symbols without a record, and a rule whose count is taken back. -/
def recordsOfInertRules : List Record :=
  [.nonterminal "S" 4, .binary ⟨"S", "X", "A"⟩ 2, .nonterminal "A" 8, .unary ⟨"S", "a"⟩ 7,
    .unary ⟨"B", "a"⟩ 9, .unary ⟨"A", "a"⟩ 3, .unary ⟨"A", "_RARE_"⟩ 2, .unary ⟨"A", "b"⟩ 5,
    .binary ⟨"S", "A", "A"⟩ 4, .unary ⟨"S", "a"⟩ 0]

/-- The word `a` would not be rare if its inert rules counted. -/
theorem parsing_ignores_inert_rules_of_rare_word :
    let dropped : Rule → Prop := fun rule ↦
      rule ∈ [.binary ⟨"S", "X", "A"⟩, .unary ⟨"S", "a"⟩, .unary ⟨"B", "a"⟩]
    let g := ofRecords recordsOfInertRules
    let h := ofRecords (Record.without dropped recordsOfInertRules)
    let parse : Parse := ⟨.node "S" (.leaf "A" "a") (.leaf "A" "b"), ⟨4594797519824748544⟩⟩
    (∀ rule, dropped rule →
      (∃ symbol ∈ rule.symbols, ∀ count, .nonterminal symbol count ∉ recordsOfInertRules) ∨
        g.ruleCount rule = 0) ∧
    (g.rules.length = 7 ∧ h.rules.length = 4) ∧ h.symbols = g.symbols ∧
    (h.wordCount "a" = g.wordCount "a" ∧ g.wordCount "a" = 3) ∧
    h.parse {} ["a", "b"] = g.parse {} ["a", "b"] ∧ g.parse {} ["a", "b"] = .ok parse := by
  intro dropped g h parse
  have hinert : ∀ rule, dropped rule →
      (∃ symbol ∈ rule.symbols, ∀ count, .nonterminal symbol count ∉ recordsOfInertRules) ∨
        g.ruleCount rule = 0 := by
    intro rule hrule
    simp only [dropped, List.mem_cons, List.not_mem_nil, or_false] at hrule
    obtain rfl | rfl | rfl := hrule
    · exact Or.inl ⟨"X", by decide, by simp [recordsOfInertRules]⟩
    · exact Or.inr (by decide +kernel)
    · exact Or.inl ⟨"B", by decide, by simp [recordsOfInertRules]⟩
  obtain ⟨hsymbols, -, hwords, -, -, hparse⟩ :=
    parsing_ignores_inert_rules recordsOfInertRules dropped hinert
  exact ⟨hinert, by decide +kernel, hsymbols, ⟨(hwords "a").2, by decide +kernel⟩,
    hparse {} ["a", "b"], by decide +kernel⟩

end Grammar

end StochasticGrammar
