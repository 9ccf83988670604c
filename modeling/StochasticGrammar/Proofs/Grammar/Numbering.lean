import StochasticGrammar.Proofs.Grammar.Listing
import StochasticGrammar.Proofs.Grammar.Restriction
import StochasticGrammar.Proofs.Tally.Order

/-!
# Symbols are numbered for good

The numbers of the symbols run from zero on in the order of their first records.  Training on more
records changes counts and lists other rules, but a symbol keeps its number, and the new symbols are
numbered on from the last one in the order in which they come up.  So the numbers in the lists of
rules and words are always those of the symbols they stand for.
-/

namespace StochasticGrammar.Grammar

variable {g : Grammar}

/-! ## Numbers in lists -/

/-- The numbers that are listed with rules and words are those of the symbols they stand for. -/
structure ListsByNumber (g : Grammar) : Prop where
  rules : ∀ number, ∀ indexed ∈ g.rulesFor number,
    indexed.parent = number ∧ ∃ rule ∈ g.binaryRules, rule.ListedAs g indexed
  lexicon : ∀ word, ∀ entry ∈ g.lexicon word,
    ∃ rule ∈ g.unaryRules, rule.word = word ∧ rule.CountedAs g entry
  lexicalWeights : ∀ word, ∀ listed ∈ g.lexicalWeights word,
    ∃ rule ∈ g.unaryRules, rule.word = word ∧ rule.ListedAs g listed

theorem listsByNumber (g : Grammar) : g.ListsByNumber where
  rules number indexed hindexed := by
    obtain ⟨hnumber, parent, left, right, hparent, hleft, hright, hcount, -, hprobability⟩ :=
      mem_rulesFor_iff.mp hindexed
    refine ⟨hnumber, ⟨parent, left, right⟩, Tally.mem_of_count_ne_zero hcount, ?_⟩
    exact
      { parent := Tally.position?_eq_some_iff.mpr hparent
        left := Tally.position?_eq_some_iff.mpr hleft
        right := Tally.position?_eq_some_iff.mpr hright
        probability := hprobability }
  lexicon word entry hentry := by
    obtain ⟨parent, hparent, hmem⟩ := mem_lexicon_iff.mp hentry
    refine ⟨⟨parent, word⟩, Tally.mem_of_mem_entries hmem, rfl, ?_⟩
    exact
      { parent := Tally.position?_eq_some_iff.mpr hparent
        count := (Tally.count_eq_of_mem_entries hmem).symm }
  lexicalWeights word listed hlisted := by
    obtain ⟨parent, hparent, hcount, -, hweight⟩ := mem_lexicalWeights_iff.mp hlisted
    refine ⟨⟨parent, word⟩, Tally.mem_of_count_ne_zero hcount, rfl, ?_⟩
    exact
      { parent := Tally.position?_eq_some_iff.mpr hparent
        weight := hweight }

/-! ## More records -/

/-- The symbols that the records count and the grammar does not know. -/
def newSymbols (g : Grammar) (records : List Record) : Finset String :=
  g.symbols.newKeys (records.filterMap Record.symbolCount?)

theorem mem_newSymbols_iff {records : List Record} {symbol : String} :
    symbol ∈ g.newSymbols records ↔
      (∃ count, .nonterminal symbol count ∈ records) ∧ symbol ∉ g.symbols := by
  rw [newSymbols, Tally.newKeys, Finset.mem_filter, List.mem_toFinset,
    Record.mem_symbolCounts_iff]

theorem symbols_train (g : Grammar) (records : List Record) :
    (g.train records).symbols =
      g.symbols.insertAll (records.filterMap Record.symbolCount?) := by
  rw [train_eq]

theorem prefix_symbols_train (g : Grammar) (records : List Record) :
    g.symbols.keys <+: (g.train records).symbols.keys := by
  rw [symbols_train]
  exact Tally.prefix_keys_insertAll _ _

theorem size_symbols_train (g : Grammar) (records : List Record) :
    (g.train records).symbols.size = g.symbols.size + (g.newSymbols records).card := by
  rw [symbols_train]
  exact Tally.size_insertAll _ _

/-- A symbol that comes up for the first time is numbered after the known symbols and those that
came up before it. -/
theorem position?_train_of_first {before after : List Record} {symbol : String} {count : Nat}
    (hnew : symbol ∉ g.symbols) (hbefore : ∀ count, .nonterminal symbol count ∉ before) :
    (g.train (before ++ .nonterminal symbol count :: after)).symbols.position? symbol =
      some (g.symbols.size + (g.newSymbols before).card) := by
  have hcounts : (before ++ .nonterminal symbol count :: after).filterMap Record.symbolCount? =
      before.filterMap Record.symbolCount? ++
        (symbol, count) :: after.filterMap Record.symbolCount? := by
    rw [List.filterMap_append]
    rfl
  have hfirst : symbol ∉ (before.filterMap Record.symbolCount?).map Prod.fst := by
    rw [Record.mem_symbolCounts_iff, not_exists]
    exact hbefore
  rw [symbols_train, hcounts]
  exact Tally.position?_insertAll_of_first hnew hfirst

/-- What more records do to the numbers of symbols: those that are given stay, and new symbols are
numbered on in the order in which they come up. -/
structure NumbersOn (g : Grammar) (records : List Record) : Prop where
  keys : g.symbols.keys <+: (g.train records).symbols.keys
  size : (g.train records).symbols.size = g.symbols.size + (g.newSymbols records).card
  known : ∀ symbol number, g.symbols.position? symbol = some number →
    (g.train records).symbols.position? symbol = some number
  new : ∀ before symbol count after, records = before ++ .nonterminal symbol count :: after →
    symbol ∉ g.symbols → (∀ count, .nonterminal symbol count ∉ before) →
      (g.train records).symbols.position? symbol =
        some (g.symbols.size + (g.newSymbols before).card)

theorem numbersOn (g : Grammar) (records : List Record) : g.NumbersOn records where
  keys := g.prefix_symbols_train records
  size := g.size_symbols_train records
  known _ _ := Tally.position?_of_prefix_keys (g.prefix_symbols_train records)
  new := by
    rintro before symbol count after rfl hnew hbefore
    exact position?_train_of_first hnew hbefore

/-- After any number of trainings the symbols are numbered without a gap, the lists hold the numbers
of the symbols they stand for, and one training more changes none of the numbers. -/
theorem symbols_numbered_for_good (history : List (List Record)) :
    let g := history.foldl train ∅
    (∀ symbol, symbol ∈ g.symbols ↔ ∃ count, .nonterminal symbol count ∈ history.flatten) ∧
      g.symbols.Numbered ∧ g.ListsByNumber ∧ ∀ records, g.NumbersOn records := by
  intro g
  refine ⟨?_, g.symbols.numbered, g.listsByNumber, g.numbersOn⟩
  intro symbol
  have hg : g = ofRecords history.flatten := foldl_train_eq_ofRecords history
  rw [hg]
  exact mem_symbols_ofRecords_iff

/-- A symbol that is counted anew keeps its number, and new symbols are numbered as they come up. -/
theorem symbols_numbered_for_good_recounted :
    let g := [earlyRules].foldl train ∅
    let records : List Record :=
      [.nonterminal "V" 7, .nonterminal "S" 9, .nonterminal "VP" 8, .nonterminal "V" 1]
    g.symbols.position? "S" = some 0 ∧ (g.train records).symbols.count "S" = 9 ∧
      (g.train records).symbols.position? "S" = some 0 ∧ "VP" ∉ g.symbols ∧
        (g.train records).symbols.position? "VP" = some 3 := by
  intro g records
  have hnumbers := (symbols_numbered_for_good [earlyRules]).2.2.2 records
  have hknown : g.symbols.position? "S" = some 0 := by decide
  have hnew : "VP" ∉ g.symbols := by decide
  have hbefore (count : Nat) :
      Record.nonterminal "VP" count ∉ [.nonterminal "V" 7, .nonterminal "S" 9] := by
    simp
  have hposition := hnumbers.new [.nonterminal "V" 7, .nonterminal "S" 9] "VP" 8
    [.nonterminal "V" 1] rfl hnew hbefore
  exact ⟨hknown, by decide, hnumbers.known "S" 0 hknown, hnew, hposition.trans (by decide)⟩

end StochasticGrammar.Grammar
