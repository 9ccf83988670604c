import Mathlib.Algebra.BigOperators.Group.List.Basic
import Mathlib.Order.Bounds.Basic
import StochasticGrammar.Grammar
import StochasticGrammar.Proofs.Grammar.History
import StochasticGrammar.Proofs.Grammar.Listing
import StochasticGrammar.Proofs.Parse.Outcome
import StochasticGrammar.Proofs.Tally.Order

/-!
# Counts in another order

The order in which counts are read decides how symbols are numbered and how ties are broken.  It
decides nothing else: scores depend on the counts alone.
-/

namespace StochasticGrammar

/-! ## Grammars with the same counts

Records that come in another order give the symbols other numbers and the rules another order.
Probabilities by name and the words that are rare depend on the counts alone, so they stay the same.
-/

namespace Grammar

/-- The grammars count the same symbols and rules alike, in whatever order. -/
structure CountsAgree (g h : Grammar) : Prop where
  symbols : g.symbols.Agrees h.symbols
  binaryRules : g.binaryRules.Agrees h.binaryRules
  unaryRules : g.unaryRules.Agrees h.unaryRules

variable {g h : Grammar}

theorem CountsAgree.symm (hcounts : g.CountsAgree h) : h.CountsAgree g where
  symbols := hcounts.symbols.symm
  binaryRules := hcounts.binaryRules.symm
  unaryRules := hcounts.unaryRules.symm

theorem Equivalent.countsAgree (hequivalent : g.Equivalent h) : g.CountsAgree h where
  symbols := hequivalent.1
  binaryRules := hequivalent.2.1
  unaryRules := hequivalent.2.2.1

/-- The counts of two grammars agree when each symbol and each rule was given the same count last,
however the records were ordered and divided among trainings. -/
theorem countsAgree_of_trainings_iff (first second : List (List Record)) :
    (first.foldl train ∅).CountsAgree (second.foldl train ∅) ↔
      (∀ symbol, Tally.lastCount? (first.flatten.filterMap Record.symbolCount?) symbol =
        Tally.lastCount? (second.flatten.filterMap Record.symbolCount?) symbol) ∧
      (∀ rule, Tally.lastCount? (first.flatten.filterMap Record.binaryCount?) rule =
        Tally.lastCount? (second.flatten.filterMap Record.binaryCount?) rule) ∧
      ∀ rule, Tally.lastCount? (first.flatten.filterMap Record.unaryCount?) rule =
        Tally.lastCount? (second.flatten.filterMap Record.unaryCount?) rule := by
  rw [foldl_train_eq_ofRecords, foldl_train_eq_ofRecords, ofRecords, ofRecords, train_eq, train_eq,
    ← Tally.agrees_insertAll_empty_iff, ← Tally.agrees_insertAll_empty_iff,
    ← Tally.agrees_insertAll_empty_iff]
  constructor
  · intro hcounts
    exact ⟨hcounts.symbols, hcounts.binaryRules, hcounts.unaryRules⟩
  · rintro ⟨hsymbols, hbinary, hunary⟩
    exact ⟨hsymbols, hbinary, hunary⟩

theorem CountsAgree.binaryProbability_eq (hcounts : g.CountsAgree h) (rule : BinaryRule) :
    g.binaryProbability rule = h.binaryProbability rule := by
  rw [Grammar.binaryProbability_eq, Grammar.binaryProbability_eq, hcounts.binaryRules.count_eq,
    hcounts.symbols.count_eq]

theorem CountsAgree.unaryProbability_eq (hcounts : g.CountsAgree h) (rule : UnaryRule) :
    g.unaryProbability rule = h.unaryProbability rule := by
  rw [Grammar.unaryProbability_eq, Grammar.unaryProbability_eq, hcounts.unaryRules.count_eq,
    hcounts.symbols.count_eq]

/-- The sum over the known symbols does not depend on their order. -/
theorem CountsAgree.occurrences_eq (hcounts : g.CountsAgree h) (word : String) :
    g.occurrences word = h.occurrences word := by
  have hseen : (fun symbol ↦ g.unaryRules.count ⟨symbol, word⟩) =
      fun symbol ↦ h.unaryRules.count ⟨symbol, word⟩ := by
    funext symbol
    rw [hcounts.unaryRules.count_eq]
  rw [occurrences_eq_sum, occurrences_eq_sum, hseen]
  exact (hcounts.symbols.perm_keys.map _).sum_eq

theorem CountsAgree.wordCount_eq (hcounts : g.CountsAgree h) (word : String) :
    g.wordCount word = h.wordCount word := by
  rw [wordCount_eq_occurrences_mod, wordCount_eq_occurrences_mod, hcounts.occurrences_eq]

end Grammar

namespace RareWords

variable {g h : Grammar}

theorem isRare_iff_of_countsAgree (hcounts : g.CountsAgree h) (policy : RareWords)
    (word : String) : policy.IsRare g word ↔ policy.IsRare h word :=
  isRare_iff_of_wordCount_eq (hcounts.wordCount_eq word) policy

theorem resolve_eq_of_countsAgree (hcounts : g.CountsAgree h) (policy : RareWords)
    (word : String) : policy.resolve g word = policy.resolve h word :=
  resolve_eq_of_wordCount_eq (hcounts.wordCount_eq word) policy

end RareWords

/-! ## Parsing with the same counts in another order

Grammars with the same counts number their symbols and list their rules differently, so their charts
may hold different derivations.  The values of trees are the same, and a score is the greatest value
of a tree, so the scores of the symbols by name are the same.  Parsing fails for the same sentences
and finds the same score, and the trees differ only where several of them are best.
-/

section Parsing

variable {g h : Grammar} {policy : RareWords} {words : List String}

theorem Tree.value_eq_of_countsAgree (hcounts : g.CountsAgree h) (policy : RareWords)
    (tree : Tree) : tree.value g policy = tree.value h policy := by
  induction tree with
  | leaf label word =>
    rw [value, value, hcounts.unaryProbability_eq, RareWords.resolve_eq_of_countsAgree hcounts]
  | node label left right ihLeft ihRight =>
    rw [value, value, hcounts.binaryProbability_eq, ihLeft, ihRight]

/-! ### Scores -/

theorem Chart.score_le_of_countsAgree (hcounts : g.CountsAgree h) {i j number other : Nat}
    {symbol : String} (hnumber : g.symbols.key? number = some symbol)
    (hother : h.symbols.key? other = some symbol) :
    (fill g policy words).score i j number ≤ (fill h policy words).score i j other := by
  apply score_le_of_value_le
  · intro tree
    exact (tree.value_eq_of_countsAgree hcounts policy).le
  · intro name hname
    rw [hother, ← hnumber, hname]

namespace Grammar

/-- The score of a symbol over the words from `i` to `j`, if the symbol is known. -/
def scoreOf? (g : Grammar) (policy : RareWords) (words : List String) (i j : Nat)
    (symbol : String) : Option Weight :=
  (g.symbols.position? symbol).map ((Chart.fill g policy words).score i j)

theorem scoreOf?_eq_of_countsAgree (hcounts : g.CountsAgree h) (policy : RareWords)
    (words : List String) (i j : Nat) (symbol : String) :
    g.scoreOf? policy words i j symbol = h.scoreOf? policy words i j symbol := by
  unfold scoreOf?
  by_cases hsymbol : symbol ∈ g.symbols
  · obtain ⟨number, hnumber⟩ := Tally.exists_position?_of_mem hsymbol
    obtain ⟨other, hother⟩ := Tally.exists_position?_of_mem (hcounts.symbols.mem_iff.mp hsymbol)
    rw [hnumber, hother, Option.map_some, Option.map_some, Option.some.injEq]
    rw [Tally.position?_eq_some_iff] at hnumber hother
    apply le_antisymm
    · exact Chart.score_le_of_countsAgree hcounts hnumber hother
    · exact Chart.score_le_of_countsAgree hcounts.symm hother hnumber
  · rw [Tally.position?_eq_none_iff.mpr hsymbol,
      Tally.position?_eq_none_iff.mpr (mt hcounts.symbols.mem_iff.mpr hsymbol), Option.map_none,
      Option.map_none]

/-! ### Roots -/

variable {options : ParseOptions} {name otherName : String}

theorem values_eq_of_countsAgree (hcounts : g.CountsAgree h) (policy : RareWords)
    (words : List String) (symbol : String) :
    g.values policy words symbol = h.values policy words symbol := by
  unfold values
  simp only [Tree.value_eq_of_countsAgree hcounts]

theorem derives_iff_of_countsAgree (hcounts : g.CountsAgree h) {symbol : String} :
    g.Derives policy words symbol ↔ h.Derives policy words symbol := by
  unfold Derives
  rw [hcounts.symbols.mem_iff, values_eq_of_countsAgree hcounts]

theorem IsRoot.mem (hroot : g.IsRoot options words name) : name ∈ g.symbols := by
  by_cases hstart : g.Derives options.rareWords words options.startSymbol
  · rw [hroot.1 hstart]
    exact hstart.1
  · obtain ⟨number, -, hnumber, -⟩ := hroot.2 hstart
    exact Tally.mem_iff_exists_key?.mpr ⟨number, hnumber⟩

/-- The root by the one numbering is worth no more than the root by the other. -/
theorem IsRoot.le_of_countsAgree (hcounts : g.CountsAgree h) {best otherBest : Weight}
    (hroot : g.IsRoot options words name)
    (hbest : IsGreatest (g.values options.rareWords words name) best)
    (hother : h.IsRoot options words otherName)
    (hotherBest : IsGreatest (h.values options.rareWords words otherName) otherBest) :
    best ≤ otherBest := by
  have hvalue : best ∈ h.values options.rareWords words name := by
    rw [← values_eq_of_countsAgree hcounts]
    exact hbest.1
  by_cases hstart : g.Derives options.rareWords words options.startSymbol
  · -- The start symbol is the root whatever its number is.
    have hsame : otherName = name := by
      rw [hroot.1 hstart, hother.1 ((derives_iff_of_countsAgree hcounts).mp hstart)]
    rw [hsame] at hotherBest
    exact hotherBest.2 hvalue
  · -- The other root was chosen among all symbols, this root among them.
    obtain ⟨_, greatest, -, hgreatest, hall⟩ :=
      hother.2 (mt (derives_iff_of_countsAgree hcounts).mpr hstart)
    obtain ⟨number, hnumber⟩ :=
      Tally.mem_iff_exists_key?.mp (hcounts.symbols.mem_iff.mp hroot.mem)
    rw [hotherBest.unique hgreatest]
    exact (hall number name best hnumber hvalue).1

/-! ### Parses -/

variable {parse other : Parse}

theorem score_eq_of_countsAgree (hcounts : g.CountsAgree h)
    (hroot : g.IsRoot options words parse.tree.label)
    (hbest : IsGreatest (g.values options.rareWords words parse.tree.label) parse.score)
    (hother : h.IsRoot options words other.tree.label)
    (hotherBest : IsGreatest (h.values options.rareWords words other.tree.label) other.score) :
    parse.score = other.score := by
  apply le_antisymm
  · exact hroot.le_of_countsAgree hcounts hbest hother hotherBest
  · exact hother.le_of_countsAgree hcounts.symm hotherBest hroot hbest

/-- Parsing fails with the same fault or finds the same score. -/
theorem map_score_parse_eq_of_countsAgree (hcounts : g.CountsAgree h) (options : ParseOptions)
    (words : List String) :
    (g.parse options words).map Parse.score = (h.parse options words).map Parse.score := by
  by_cases hwords : words = []
  · rw [hwords, parse_nil, parse_nil]
  · by_cases hderives : ∃ symbol, g.Derives options.rareWords words symbol
    · have hotherDerives : ∃ symbol, h.Derives options.rareWords words symbol :=
        hderives.imp fun _ ↦ (derives_iff_of_countsAgree hcounts).mp
      obtain ⟨parse, hparse, hroot, hbest⟩ := exists_parse_of_derives hwords hderives
      obtain ⟨other, hother, hotherRoot, hotherBest⟩ :=
        exists_parse_of_derives hwords hotherDerives
      rw [hparse, hother]
      exact congrArg Except.ok
        (score_eq_of_countsAgree hcounts hroot hbest hotherRoot hotherBest)
    · have hotherDerives : ¬∃ symbol, h.Derives options.rareWords words symbol :=
        mt (Exists.imp fun _ ↦ (derives_iff_of_countsAgree hcounts).mpr) hderives
      rw [parse_of_not_derives hwords hderives, parse_of_not_derives hwords hotherDerives]

/-- The other parse might have been chosen as well: its tree has the same words and is worth the
same, its root has the same score over the sentence, and it is not the start symbol unless that is
the root of both. -/
structure Ties (g : Grammar) (options : ParseOptions) (words : List String)
    (parse other : Parse) : Prop where
  leaves : other.tree.words = parse.tree.words
  value : other.tree.value g options.rareWords = parse.tree.value g options.rareWords
  root : g.scoreOf? options.rareWords words 0 (words.length - 1) other.tree.label =
    some parse.score
  start : other.tree.label = options.startSymbol ↔ parse.tree.label = options.startSymbol

namespace IsParseAt

variable {root : Nat}

theorem isRoot (hwords : words ≠ []) (hparse : g.IsParseAt options words root parse) :
    g.IsRoot options words parse.tree.label :=
  isRoot_of_root? hwords hparse.root hparse.label

theorem isGreatest (hwords : words ≠ []) (hparse : g.IsParseAt options words root parse) :
    IsGreatest (g.values options.rareWords words parse.tree.label) parse.score := by
  rw [hparse.score]
  exact isGreatest_values hwords hparse.label (Chart.wholeScore_ne_zero_of_root? hparse.root)

theorem scoreOf?_eq (hparse : g.IsParseAt options words root parse) :
    g.scoreOf? options.rareWords words 0 (words.length - 1) parse.tree.label =
      some parse.score := by
  rw [scoreOf?, Tally.position?_eq_some_iff.mpr hparse.label, hparse.score]
  rfl

theorem label_eq_start_iff (hwords : words ≠ [])
    (hparse : g.IsParseAt options words root parse) :
    parse.tree.label = options.startSymbol ↔
      g.Derives options.rareWords words options.startSymbol := by
  constructor
  · intro hlabel
    rw [← hlabel, derives_iff_wholeScore_ne_zero hwords hparse.label, ← hparse.score]
    exact hparse.score_ne_zero
  · exact (hparse.isRoot hwords).1

end IsParseAt

theorem ties_of_countsAgree (hcounts : g.CountsAgree h)
    (hparse : g.parse options words = .ok parse) (hother : h.parse options words = .ok other) :
    g.Ties options words parse other := by
  obtain ⟨hwords, root, hat⟩ := exists_root?_of_parse hparse
  obtain ⟨-, otherRoot, hotherAt⟩ := exists_root?_of_parse hother
  have hscore : parse.score = other.score :=
    score_eq_of_countsAgree hcounts (hat.isRoot hwords) (hat.isGreatest hwords)
      (hotherAt.isRoot hwords) (hotherAt.isGreatest hwords)
  exact
    { leaves := by rw [hotherAt.leaves, hat.leaves]
      value := by
        rw [other.tree.value_eq_of_countsAgree hcounts, hotherAt.value, hat.value, hscore]
      root := by rw [scoreOf?_eq_of_countsAgree hcounts, hotherAt.scoreOf?_eq, hscore]
      start := by
        rw [hotherAt.label_eq_start_iff hwords, hat.label_eq_start_iff hwords,
          derives_iff_of_countsAgree hcounts] }

/-- Scores, rare words and the outcome of parsing depend on the counts alone.  Another order of the
records can only break ties in another way. -/
theorem scores_of_countsAgree (g h : Grammar) :
    (g.Equivalent h → g.CountsAgree h) ∧
    (g.CountsAgree h →
      (∀ policy words i j symbol,
        g.scoreOf? policy words i j symbol = h.scoreOf? policy words i j symbol) ∧
      (∀ (policy : RareWords) word, (policy.IsRare g word ↔ policy.IsRare h word) ∧
        policy.resolve g word = policy.resolve h word) ∧
      ∀ options words,
        (g.parse options words).map Parse.score = (h.parse options words).map Parse.score ∧
          ∀ parse other, g.parse options words = .ok parse → h.parse options words = .ok other →
            g.Ties options words parse other) := by
  refine ⟨Equivalent.countsAgree, ?_⟩
  intro hcounts
  refine ⟨scoreOf?_eq_of_countsAgree hcounts, ?_, ?_⟩
  · intro policy word
    exact ⟨RareWords.isRare_iff_of_countsAgree hcounts policy word,
      RareWords.resolve_eq_of_countsAgree hcounts policy word⟩
  · intro options words
    exact ⟨map_score_parse_eq_of_countsAgree hcounts options words,
      fun _ _ ↦ ties_of_countsAgree hcounts⟩

/-- Counts under which two symbols derive a sentence equally well. -/
def tiedRoots : List Record :=
  [.nonterminal "X" 8, .nonterminal "Y" 8, .nonterminal "A" 8, .binary ⟨"X", "A", "A"⟩ 4,
    .binary ⟨"Y", "A", "A"⟩ 4, .unary ⟨"A", "a"⟩ 8, .unary ⟨"A", "b"⟩ 1]

/-- The same records backwards give another root with the same score. -/
theorem scores_of_tiedRoots :
    let g := ofRecords tiedRoots
    let h := ofRecords tiedRoots.reverse
    let k := ofRecords (.unary ⟨"A", "b"⟩ 1 :: tiedRoots)
    let half : Weight := ⟨4602678819172646912⟩
    let parse : Parse := ⟨.node "X" (.leaf "A" "a") (.leaf "A" "a"), half⟩
    let other : Parse := ⟨.node "Y" (.leaf "A" "a") (.leaf "A" "a"), half⟩
    (g.Equivalent k ∧ g.CountsAgree k) ∧
    g.CountsAgree h ∧ g.symbols.position? "X" = some 0 ∧ h.symbols.position? "X" = some 2 ∧
      g.scoreOf? {} ["a", "a"] 0 1 "X" = h.scoreOf? {} ["a", "a"] 0 1 "X" ∧
      g.parse {} ["a", "a"] = .ok parse ∧ h.parse {} ["a", "a"] = .ok other ∧
        g.Ties {} ["a", "a"] parse other := by
  intro g h k half parse other
  have hequivalent : g.Equivalent k := by decide +kernel
  have hcounts : g.CountsAgree h := by
    constructor <;> decide
  have hparse : g.parse {} ["a", "a"] = .ok parse := by decide +kernel
  have hother : h.parse {} ["a", "a"] = .ok other := by decide +kernel
  have hscores := (scores_of_countsAgree g h).2 hcounts
  exact ⟨⟨hequivalent, (scores_of_countsAgree g k).1 hequivalent⟩, hcounts, by decide, by decide,
    hscores.1 {} ["a", "a"] 0 1 "X", hparse, hother,
    (hscores.2.2 {} ["a", "a"]).2 parse other hparse hother⟩

end Grammar

end Parsing

end StochasticGrammar
