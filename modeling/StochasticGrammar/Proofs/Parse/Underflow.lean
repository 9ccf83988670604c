import StochasticGrammar.Proofs.Parse.Outcome
import StochasticGrammar.Proofs.Tree.Derivation

/-!
# Derivations lost to rounding

A sentence has a parse exactly if one of its possible trees keeps a value above zero.  Every
possible tree of at most eight words does.  A longer tree may lose its value, and a sentence all of
whose trees do is reported to have no parse, as if the grammar did not derive it.
-/

namespace StochasticGrammar.Grammar

variable {g : Grammar} {options : ParseOptions} {words : List String}

/-! ## Trees that keep their value -/

theorem value_ne_zero_of_parse {parse : Parse} (h : g.parse options words = .ok parse) :
    parse.tree.words = words ∧ parse.tree.value g options.rareWords ≠ 0 := by
  obtain ⟨-, root, hroot⟩ := exists_root?_of_parse h
  rw [hroot.value]
  exact ⟨hroot.leaves, hroot.score_ne_zero⟩

theorem derives_of_value_ne_zero {policy : RareWords} {tree : Tree} (hwords : tree.words = words)
    (hvalue : tree.value g policy ≠ 0) : g.Derives policy words tree.label := by
  have hattested := Tree.attested_of_value_ne_zero hvalue
  exact ⟨hattested.label_mem, _, ⟨tree, rfl, hwords, rfl⟩, hvalue⟩

/-- A tree that keeps its value gives a parse, with the start symbol at the root if the tree has
it there. -/
theorem exists_parse_of_value_ne_zero {tree : Tree} (hwords : tree.words = words)
    (hvalue : tree.value g options.rareWords ≠ 0) :
    ∃ parse, g.parse options words = .ok parse ∧
      (tree.label = options.startSymbol → parse.tree.label = options.startSymbol) := by
  have hderives := derives_of_value_ne_zero hwords hvalue
  have hne : words ≠ [] := by
    rw [← hwords]
    exact tree.words_ne_nil
  obtain ⟨parse, hparse, hroot, -⟩ := exists_parse_of_derives hne ⟨tree.label, hderives⟩
  refine ⟨parse, hparse, ?_⟩
  intro hlabel
  apply hroot.1
  rwa [← hlabel]

/-- There is a parse exactly if a possible tree keeps its value, and one from the start symbol
exactly if a possible tree of the start symbol does. -/
theorem parse_ok_iff_possible_value_ne_zero (g : Grammar) (options : ParseOptions)
    (words : List String) :
    ((∃ parse, g.parse options words = .ok parse) ↔
      ∃ tree : Tree, tree.Possible g options.rareWords ∧ tree.words = words ∧
        tree.value g options.rareWords ≠ 0) ∧
    ((∃ parse, g.parse options words = .ok parse ∧ parse.tree.label = options.startSymbol) ↔
      ∃ tree : Tree, tree.Possible g options.rareWords ∧ tree.label = options.startSymbol ∧
        tree.words = words ∧ tree.value g options.rareWords ≠ 0) := by
  constructor
  · constructor
    · intro h
      obtain ⟨parse, hparse⟩ := h
      have htree := value_ne_zero_of_parse hparse
      exact ⟨parse.tree, Tree.possible_of_value_ne_zero htree.2, htree⟩
    · intro h
      obtain ⟨tree, -, hwords, hvalue⟩ := h
      obtain ⟨parse, hparse, -⟩ := exists_parse_of_value_ne_zero hwords hvalue
      exact ⟨parse, hparse⟩
  · constructor
    · intro h
      obtain ⟨parse, hparse, hlabel⟩ := h
      have htree := value_ne_zero_of_parse hparse
      exact ⟨parse.tree, Tree.possible_of_value_ne_zero htree.2, hlabel, htree⟩
    · intro h
      obtain ⟨tree, -, hlabel, hwords, hvalue⟩ := h
      obtain ⟨parse, hparse, hstart⟩ := exists_parse_of_value_ne_zero hwords hvalue
      exact ⟨parse, hparse, hstart hlabel⟩

/-- Counts under which a word before the last one takes two rules of the least probability. -/
def vanishingRecords : List Record :=
  [.nonterminal "S" Record.maxCount, .nonterminal "A" Record.maxCount, .binary ⟨"S", "A", "S"⟩ 1,
    .unary ⟨"A", "a"⟩ 1, .unary ⟨"S", "b"⟩ 1]

/-- Nine words have a possible tree from the start symbol and no parse. -/
theorem parse_vanishing :
    let g := Grammar.ofRecords vanishingRecords
    let options : ParseOptions := { rareWords := { threshold := 0 } }
    let words := List.replicate 8 "a" ++ ["b"]
    g.Trained ∧ words ≠ [] ∧
      (∃ tree : Tree, tree.Possible g options.rareWords ∧ tree.label = options.startSymbol ∧
        tree.words = words) ∧
      g.parse options words = .error .noParse := by
  intro g options words
  refine ⟨.train .empty vanishingRecords (by decide), by decide, ?_, by decide +kernel⟩
  refine ⟨Nat.repeat (.node "S" (.leaf "A" "a")) 8 (.leaf "S" "b"), ?_⟩
  decide +kernel

/-! ## Lengths -/

/-- The most words that rules of the least probability derive without falling below the last
place. -/
def safeLength : Nat := 8

theorem countBits_mul_ruleCount_le {tree : Tree} (h : tree.words.length ≤ safeLength) :
    Record.countBits * tree.ruleCount ≤ Weight.onePlace := by
  have hcount := tree.ruleCount_add_one
  unfold Record.countBits Weight.onePlace
  unfold safeLength at h
  omega

/-- No derivation of a few words is lost. -/
theorem exists_parse_of_possible (hg : g.Trained) {tree : Tree}
    (hpossible : tree.Possible g options.rareWords) (hwords : tree.words = words)
    (hlength : words.length ≤ safeLength) :
    ∃ parse, g.parse options words = .ok parse ∧
      (tree.label = options.startSymbol → parse.tree.label = options.startSymbol) := by
  rw [← hwords] at hlength
  have hsize := countBits_mul_ruleCount_le hlength
  exact exists_parse_of_value_ne_zero hwords
    (Tree.value_ne_zero_of_attested hg.writable hpossible.attested hsize)

/-- Every derivation of many words is lost where all rules are halved.  If no rule is more probable
than a half, then no sentence of 538 words or more has a parse. -/
theorem parse_eq_noParse_of_rulesHalved {bits : Nat} (hg : g.RulesHalved bits) (hwords : words ≠ [])
    (hlength : Weight.onePlace < bits * (2 * words.length - 1)) :
    g.parse options words = .error .noParse := by
  apply parse_of_not_derives hwords
  intro hderives
  obtain ⟨symbol, -, weight, htree, hne⟩ := hderives
  obtain ⟨tree, -, rfl, rfl⟩ := htree
  apply hne
  apply Tree.value_eq_zero_of_lt_ruleCount hg
  have hcount : tree.ruleCount = 2 * tree.words.length - 1 := by
    rw [← tree.ruleCount_add_one, Nat.add_sub_cancel]
  rwa [hcount]

end StochasticGrammar.Grammar
