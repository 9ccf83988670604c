import StochasticGrammar.Proofs.Chart.Recovery
import StochasticGrammar.Proofs.Parse.Reordering

/-!
# Parsing with equivalent grammars

Equivalent grammars list the same rules under the same numbers, but a number need not belong to the
same symbol in both.  Where every symbol with a rule has one number, the grammars fill the same
charts and find the same trees.  Otherwise they fail for the same sentences and find the same
scores, but a tie may be broken in favor of the same number and hence of another symbol.
-/

namespace StochasticGrammar

variable {g h : Grammar} {policy : RareWords} {words : List String}

namespace Grammar

/-- Every parent of a rule that was seen has the same number in both grammars. -/
structure NumbersAlike (g h : Grammar) : Prop where
  unary : ∀ rule ∈ g.unaryRules.keys, g.unaryRules.count rule ≠ 0 →
    g.symbols.position? rule.parent = h.symbols.position? rule.parent
  binary : ∀ rule ∈ g.binaryRules.keys, g.binaryRules.count rule ≠ 0 →
    g.symbols.position? rule.parent = h.symbols.position? rule.parent

instance (g h : Grammar) : Decidable (g.NumbersAlike h) :=
  decidable_of_iff
    ((∀ rule ∈ g.unaryRules.keys, g.unaryRules.count rule ≠ 0 →
        g.symbols.position? rule.parent = h.symbols.position? rule.parent) ∧
      ∀ rule ∈ g.binaryRules.keys, g.binaryRules.count rule ≠ 0 →
        g.symbols.position? rule.parent = h.symbols.position? rule.parent)
    ⟨fun halike ↦ ⟨halike.1, halike.2⟩, fun halike ↦ ⟨halike.unary, halike.binary⟩⟩

theorem NumbersAlike.symm (hnumbers : g.NumbersAlike h) (hcounts : g.CountsAgree h) :
    h.NumbersAlike g := by
  constructor
  · intro rule hrule hcount
    rw [← hcounts.unaryRules.count_eq] at hcount
    exact (hnumbers.unary rule (hcounts.unaryRules.mem_iff.mpr hrule) hcount).symm
  · intro rule hrule hcount
    rw [← hcounts.binaryRules.count_eq] at hcount
    exact (hnumbers.binary rule (hcounts.binaryRules.mem_iff.mpr hrule) hcount).symm

/-- Symbols in the same order have the same numbers, with or without rules. -/
theorem numbersAlike_of_keys_eq (hkeys : g.symbols.keys = h.symbols.keys) : g.NumbersAlike h := by
  have hposition : ∀ symbol, g.symbols.position? symbol = h.symbols.position? symbol := by
    intro symbol
    rw [Tally.position?, Tally.position?, hkeys]
  exact ⟨fun rule _ _ ↦ hposition rule.parent, fun rule _ _ ↦ hposition rule.parent⟩

theorem key?_of_position?_eq {symbol : String}
    (hposition : g.symbols.position? symbol = h.symbols.position? symbol) {number : Nat}
    (hnumber : g.symbols.key? number = some symbol) : h.symbols.key? number = some symbol := by
  rw [← Tally.position?_eq_some_iff] at hnumber ⊢
  rw [← hposition, hnumber]

theorem NumbersAlike.key?_of_unary (hnumbers : g.NumbersAlike h) {rule : UnaryRule}
    (hcount : g.unaryRules.count rule ≠ 0) {number : Nat}
    (hnumber : g.symbols.key? number = some rule.parent) :
    h.symbols.key? number = some rule.parent :=
  key?_of_position?_eq (hnumbers.unary rule (Tally.mem_of_count_ne_zero hcount) hcount) hnumber

theorem NumbersAlike.key?_of_binary (hnumbers : g.NumbersAlike h) {rule : BinaryRule}
    (hcount : g.binaryRules.count rule ≠ 0) {number : Nat}
    (hnumber : g.symbols.key? number = some rule.parent) :
    h.symbols.key? number = some rule.parent :=
  key?_of_position?_eq (hnumbers.binary rule (Tally.mem_of_count_ne_zero hcount) hcount) hnumber

/-! ## Words by number -/

theorem lexicon_eq_nil {word : String} (hword : ∀ rule ∈ g.unaryRules.keys, rule.word ≠ word) :
    g.lexicon word = [] := by
  rw [List.eq_nil_iff_forall_not_mem]
  intro entry hentry
  obtain ⟨parent, -, hrule⟩ := mem_lexicon_iff.mp hentry
  exact hword _ (Tally.mem_of_mem_entries hrule) rfl

/-- The lists of words without rules are empty, so all lists are the same. -/
theorem Equivalent.lexicon_eq (hequivalent : g.Equivalent h) (word : String) :
    g.lexicon word = h.lexicon word := by
  by_cases hword : ∃ rule ∈ g.unaryRules.keys, rule.word = word
  · obtain ⟨rule, hrule, rfl⟩ := hword
    exact hequivalent.2.2.2.2 rule hrule
  · have hnone : ∀ rule ∈ g.unaryRules.keys, rule.word ≠ word :=
      fun rule hrule heq ↦ hword ⟨rule, hrule, heq⟩
    have hotherNone : ∀ rule ∈ h.unaryRules.keys, rule.word ≠ word :=
      fun rule hrule ↦ hnone rule (hequivalent.countsAgree.unaryRules.mem_iff.mpr hrule)
    rw [lexicon_eq_nil hnone, lexicon_eq_nil hotherNone]

theorem lexicalWeights_eq (hequivalent : g.Equivalent h) (hnumbers : g.NumbersAlike h)
    (word : String) : g.lexicalWeights word = h.lexicalWeights word := by
  rw [lexicalWeights, lexicalWeights, ← hequivalent.lexicon_eq]
  apply List.filterMap_congr
  intro entry hentry
  by_cases hcount : entry.count = 0
  · rw [if_pos hcount, if_pos hcount]
  · obtain ⟨parent, hparent, hrule⟩ := mem_lexicon_iff.mp hentry
    have hseen : g.unaryRules.count ⟨parent, word⟩ ≠ 0 := by
      rwa [Tally.count_eq_of_mem_entries hrule]
    have hother := hnumbers.key?_of_unary hseen hparent
    rw [if_neg hcount, if_neg hcount, Tally.countAt_eq_count hparent, Tally.countAt_eq_count hother,
      hequivalent.countsAgree.symbols.count_eq]

end Grammar

/-! ## Charts -/

namespace Chart

theorem fill_eq_of_equivalent (hequivalent : g.Equivalent h) (hnumbers : g.NumbersAlike h) :
    fill g policy words = fill h policy words := by
  have hsize : g.symbols.size = h.symbols.size := hequivalent.1.length_eq
  have hcell : wordCell g policy = wordCell h policy := by
    funext word
    rw [wordCell, wordCell, RareWords.resolve_eq_of_countsAgree hequivalent.countsAgree,
      Grammar.lexicalWeights_eq hequivalent hnumbers, hsize]
  rw [fill, fill, start, start, hcell, hequivalent.2.2.2.1]

/-- A symbol with an entry has a rule, so its number is the same in both grammars. -/
theorem exists_key?_of_entry (hnumbers : g.NumbersAlike h) {i j symbol : Nat} {entry : Entry}
    (hij : i ≤ j) (hj : j < words.length)
    (hentry : entry? (fill g policy words) i j symbol = some entry) :
    ∃ name, g.symbols.key? symbol = some name ∧ h.symbols.key? symbol = some name := by
  rcases Nat.lt_or_eq_of_le hij with hlt | rfl
  · obtain ⟨-, rule, hrule, -⟩ := exists_candidate_of_entry hlt hj hentry
    obtain ⟨rfl, parent, left, right, hparent, -, -, hcount, -⟩ :=
      Grammar.mem_rulesFor_iff.mp hrule
    exact ⟨parent, hparent, hnumbers.key?_of_binary hcount hparent⟩
  · obtain ⟨name, hname, hcount, -⟩ :=
      (entry?_fill_self_eq_some_iff (List.getElem?_eq_getElem hj)).mp hentry
    exact ⟨name, hname, hnumbers.key?_of_unary hcount hname⟩

/-! ## Trees -/

theorem symbolName_eq_of_entry (hnumbers : g.NumbersAlike h) {i j symbol : Nat} {entry : Entry}
    (hij : i ≤ j) (hj : j < words.length)
    (hentry : entry? (fill g policy words) i j symbol = some entry) :
    g.symbolName symbol = h.symbolName symbol := by
  obtain ⟨name, hname, hother⟩ := exists_key?_of_entry hnumbers hij hj hentry
  rw [Grammar.symbolName_of_key? hname, Grammar.symbolName_of_key? hother]

/-- The chart names the numbers in a tree, and all of them have entries. -/
theorem recover_eq_of_entry (hnumbers : g.NumbersAlike h) {i j symbol : Nat} {entry : Entry}
    (hij : i ≤ j) (hj : j < words.length)
    (hentry : entry? (fill g policy words) i j symbol = some entry) :
    (fill g policy words).recover g words i j symbol =
      (fill g policy words).recover h words i j symbol := by
  -- By induction on the width of the span: both parts of a split are narrower.
  induction hwidth : j - i using Nat.strong_induction_on generalizing i j symbol entry with
  | _ width ih =>
    have hname := symbolName_eq_of_entry hnumbers hij hj hentry
    rcases Nat.lt_or_eq_of_le hij with hlt | rfl
    · obtain ⟨-, rule, -, point, hi, hpoint, rfl, ⟨_, hleftEntry⟩, ⟨_, hrightEntry⟩⟩ :=
        exists_candidate_of_entry hlt hj hentry
      have hsplit : (fill g policy words).split? i j symbol = some (point, rule.left, rule.right) :=
        split?_eq_some_iff.mpr ⟨by rw [hentry]; rfl, hi, hpoint⟩
      have hleft := ih (point - i) (by omega) hi (hpoint.trans hj) hleftEntry rfl
      have hright := ih (j - (point + 1)) (by omega) hpoint hj hrightEntry rfl
      rw [recover_of_split? g words hsplit, recover_of_split? h words hsplit, hname, hleft, hright]
    · rw [recover_word, recover_word, hname]

/-! ## Roots -/

theorem wholeScore_eq_of_equivalent (hequivalent : g.Equivalent h) (hnumbers : g.NumbersAlike h) :
    wholeScore g policy words = wholeScore h policy words := by
  funext symbol
  rw [wholeScore, wholeScore, fill_eq_of_equivalent hequivalent hnumbers]

theorem position?_eq_of_wholeScore_ne_zero (hnumbers : g.NumbersAlike h) (hwords : words ≠ [])
    {symbol : String} {number : Nat} (hnumber : g.symbols.position? symbol = some number)
    (hscore : wholeScore g policy words number ≠ 0) : h.symbols.position? symbol = some number := by
  obtain ⟨entry, hentry⟩ := exists_entry_of_score_ne_zero hscore
  obtain ⟨name, hname, hother⟩ :=
    exists_key?_of_entry hnumbers (Nat.zero_le _) (last_lt_length hwords) hentry
  cases (Tally.position?_eq_some_iff.mp hnumber).symm.trans hname
  exact Tally.position?_eq_some_iff.mpr hother

theorem root?_fill_eq_of_equivalent (hequivalent : g.Equivalent h) (hnumbers : g.NumbersAlike h)
    (hwords : words ≠ []) (startSymbol : String) :
    (fill g policy words).root? g startSymbol = (fill h policy words).root? h startSymbol := by
  have hscores : wholeScore g policy words = wholeScore h policy words :=
    wholeScore_eq_of_equivalent hequivalent hnumbers
  by_cases hstart : ∃ start, g.symbols.position? startSymbol = some start ∧
      wholeScore g policy words start ≠ 0
  · obtain ⟨start, hposition, hscore⟩ := hstart
    have hother := position?_eq_of_wholeScore_ne_zero hnumbers hwords hposition hscore
    rw [root?_fill_of_start hposition hscore, root?_fill_of_start hother (hscores ▸ hscore)]
  · -- A start symbol that counts for the other grammar would count for this one as well.
    have hzero : ∀ start, g.symbols.position? startSymbol = some start →
        wholeScore g policy words start = 0 :=
      fun start hposition ↦ not_not.mp fun hscore ↦ hstart ⟨start, hposition, hscore⟩
    have hotherZero : ∀ start, h.symbols.position? startSymbol = some start →
        wholeScore h policy words start = 0 := by
      intro start hposition
      by_contra hscore
      have hback := position?_eq_of_wholeScore_ne_zero (hnumbers.symm hequivalent.countsAgree)
        hwords hposition hscore
      exact hstart ⟨start, hback, hscores ▸ hscore⟩
    have hsize : g.symbols.size = h.symbols.size := hequivalent.1.length_eq
    rw [root?_fill_of_not_start hzero, root?_fill_of_not_start hotherZero, hscores, hsize]

end Chart

/-! ## Parses -/

namespace Grammar

theorem parse_eq_of_numbersAlike (hequivalent : g.Equivalent h) (hnumbers : g.NumbersAlike h)
    (options : ParseOptions) (words : List String) :
    g.parse options words = h.parse options words := by
  by_cases hwords : words = []
  · rw [hwords, parse_nil, parse_nil]
  · have hroots : (Chart.fill g options.rareWords words).root? g options.startSymbol =
        (Chart.fill h options.rareWords words).root? h options.startSymbol :=
      Chart.root?_fill_eq_of_equivalent hequivalent hnumbers hwords options.startSymbol
    cases hroot : (Chart.fill g options.rareWords words).root? g options.startSymbol with
    | none =>
      rw [parse_of_root?_eq_none hwords hroot, parse_of_root?_eq_none hwords (hroots ▸ hroot)]
    | some root =>
      obtain ⟨entry, hentry⟩ :=
        Chart.exists_entry_of_score_ne_zero (Chart.wholeScore_ne_zero_of_root? hroot)
      have hrecover :=
        Chart.recover_eq_of_entry hnumbers (Nat.zero_le _) (last_lt_length hwords) hentry
      rw [parse_of_root?_eq_some hwords hroot, parse_of_root?_eq_some hwords (hroots ▸ hroot),
        hrecover, Chart.fill_eq_of_equivalent hequivalent hnumbers,
        Chart.wholeScore_eq_of_equivalent hequivalent hnumbers]

/-- Two symbols that always expand into the same word. -/
def twins (first second : String) : List Record :=
  [.nonterminal first 5, .nonterminal second 5, .unary ⟨first, "w"⟩ 5, .unary ⟨second, "w"⟩ 5]

/-- Equivalent grammars need not find the same tree.  The first number is the root in both of these,
and it belongs to different symbols. -/
theorem parse_ne_of_equivalent :
    let g := ofRecords (twins "A" "B")
    let h := ofRecords (twins "B" "A")
    g.Trained ∧ h.Trained ∧ g.Equivalent h ∧
      g.parse {} ["w"] = .ok ⟨.leaf "A" "w", ⟨4607182418800017408⟩⟩ ∧
      h.parse {} ["w"] = .ok ⟨.leaf "B" "w", ⟨4607182418800017408⟩⟩ ∧
      g.parse {} ["w"] ≠ h.parse {} ["w"] := by
  intro g h
  have htrained : g.Trained := .train .empty (twins "A" "B") (by decide)
  have hotherTrained : h.Trained := .train .empty (twins "B" "A") (by decide)
  have hparse : g.parse {} ["w"] = .ok ⟨.leaf "A" "w", ⟨4607182418800017408⟩⟩ := by
    decide +kernel
  have hother : h.parse {} ["w"] = .ok ⟨.leaf "B" "w", ⟨4607182418800017408⟩⟩ := by
    decide +kernel
  refine ⟨htrained, hotherTrained, by decide +kernel, hparse, hother, ?_⟩
  rw [hparse, hother]
  decide

/-- Equivalent grammars fail alike or find the same score, with different trees only where a tie is
broken in another way.  They parse alike if the symbols with rules have the same numbers, and so
they do if all symbols came up in the same order. -/
theorem parse_of_equivalent (g h : Grammar) (hequivalent : g.Equivalent h) :
    (∀ options words,
      (g.parse options words).map Parse.score = (h.parse options words).map Parse.score ∧
        ∀ parse other, g.parse options words = .ok parse → h.parse options words = .ok other →
          g.Ties options words parse other) ∧
    (g.NumbersAlike h → ∀ options words, g.parse options words = h.parse options words) ∧
    (g.symbols.keys = h.symbols.keys → g.NumbersAlike h) := by
  have hcounts := hequivalent.countsAgree
  refine ⟨?_, parse_eq_of_numbersAlike hequivalent, numbersAlike_of_keys_eq⟩
  intro options words
  exact ⟨map_score_parse_eq_of_countsAgree hcounts options words,
    fun _ _ ↦ ties_of_countsAgree hcounts⟩

/-- Trees that tie, symbols without rules in another order, and rules in another order. -/
theorem parse_of_equivalent_attachment :
    let g := ofRecords (Chart.attachmentRecords ++ [.nonterminal "X" 1, .nonterminal "Y" 1])
    let h := ofRecords (Chart.attachmentRecords ++ [.nonterminal "Y" 1, .nonterminal "X" 1])
    let k := ofRecords (.unary ⟨"P", "with"⟩ 10 :: Chart.attachmentRecords ++
      [.nonterminal "X" 1, .nonterminal "Y" 1])
    let words := ["saw", "dog", "with", "cat"]
    (g.Equivalent h ∧ g.symbols.keys ≠ h.symbols.keys ∧ g.NumbersAlike h ∧
      g.parse {} words = h.parse {} words) ∧
    (g.Equivalent k ∧ g.unaryRules.keys ≠ k.unaryRules.keys ∧ g.symbols.keys = k.symbols.keys ∧
      g.NumbersAlike k) ∧
    (ofRecords (twins "A" "B")).Ties {} ["w"] ⟨.leaf "A" "w", ⟨4607182418800017408⟩⟩
      ⟨.leaf "B" "w", ⟨4607182418800017408⟩⟩ := by
  intro g h k words
  have hequivalent : g.Equivalent h := by decide +kernel
  have hnumbers : g.NumbersAlike h := by decide +kernel
  have hreordered : g.Equivalent k := by decide +kernel
  have hkeys : g.symbols.keys = k.symbols.keys := by decide +kernel
  have htwins : (ofRecords (twins "A" "B")).Equivalent (ofRecords (twins "B" "A")) := by
    decide +kernel
  refine ⟨⟨hequivalent, by decide +kernel, hnumbers, ?_⟩,
    ⟨hreordered, by decide +kernel, hkeys, ?_⟩, ?_⟩
  · exact (parse_of_equivalent g h hequivalent).2.1 hnumbers {} words
  · exact (parse_of_equivalent g k hreordered).2.2 hkeys
  · exact ((parse_of_equivalent _ _ htwins).1 {} ["w"]).2 _ _ (by decide +kernel)
      (by decide +kernel)

end Grammar

end StochasticGrammar
