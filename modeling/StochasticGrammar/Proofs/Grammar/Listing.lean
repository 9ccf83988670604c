import Mathlib.Algebra.BigOperators.Group.List.Lemmas
import Mathlib.Algebra.BigOperators.Group.Finset.Basic
import Mathlib.Data.List.Forall2
import StochasticGrammar.Proofs.Grammar.Agreement
import StochasticGrammar.Proofs.Grammar.WordCount
import StochasticGrammar.Proofs.Tally.History

/-!
# The order of rules by number

The rules listed for the number of a symbol are the usable rules of the symbol in the order in which
they first came up, each once, and the symbols listed for a word are the parents of its usable rules
in that order.  Numbers and probabilities are those of the names.  A word was seen as often as its
rules were under all the known symbols together.
-/

namespace StochasticGrammar

/-- A binary rule is usable if it was seen, its symbols are known and its parent was seen. -/
def BinaryRule.Usable (g : Grammar) (rule : BinaryRule) : Prop :=
  0 < g.binaryRules.count rule ∧
    (rule.parent ∈ g.symbols ∧ rule.left ∈ g.symbols ∧ rule.right ∈ g.symbols) ∧
      0 < g.symbols.count rule.parent

instance (g : Grammar) (rule : BinaryRule) : Decidable (rule.Usable g) :=
  inferInstanceAs (Decidable (_ ∧ _))

/-- A unary rule is usable if it was seen, its parent is known and its parent was seen. -/
def UnaryRule.Usable (g : Grammar) (rule : UnaryRule) : Prop :=
  0 < g.unaryRules.count rule ∧ rule.parent ∈ g.symbols ∧ 0 < g.symbols.count rule.parent

instance (g : Grammar) (rule : UnaryRule) : Decidable (rule.Usable g) :=
  inferInstanceAs (Decidable (_ ∧ _))

/-- The numbers are those of the symbols of the rule, and the probability is that of its name. -/
structure BinaryRule.ListedAs (g : Grammar) (rule : BinaryRule) (indexed : IndexedRule) :
    Prop where
  parent : g.symbols.position? rule.parent = some indexed.parent
  left : g.symbols.position? rule.left = some indexed.left
  right : g.symbols.position? rule.right = some indexed.right
  probability : indexed.probability = g.binaryProbability rule

/-- The number is that of the parent, and the weight is the probability of the rule by name. -/
structure UnaryRule.ListedAs (g : Grammar) (rule : UnaryRule) (listed : Nat × Weight) :
    Prop where
  parent : g.symbols.position? rule.parent = some listed.1
  weight : listed.2 = g.unaryProbability rule

/-- The number is that of the parent, and the count is that of the rule. -/
structure UnaryRule.CountedAs (g : Grammar) (rule : UnaryRule) (entry : LexicalEntry) :
    Prop where
  parent : g.symbols.position? rule.parent = some entry.symbol
  count : entry.count = g.unaryRules.count rule

namespace Tally

variable {κ : Type} [DecidableEq κ]

theorem forall₂_keys_entries (t : Tally κ) :
    List.Forall₂ (fun key entry ↦ entry = (key, t.count key)) t.keys t.entries := by
  rw [entries_eq_map, List.forall₂_map_right_iff, List.forall₂_same]
  intro key _
  rfl

end Tally

/-- What is listed for different items is different if the items can be read off it. -/
theorem nodup_map_of_forall₂ {α β γ : Type} {R : α → β → Prop} {f : β → γ} {items : List α}
    {listed : List β} (h : List.Forall₂ R items listed) (hitems : items.Nodup)
    (hread : ∀ a ∈ items, ∀ a' ∈ items, ∀ b b', R a b → R a' b' → f b = f b' → a = a') :
    (listed.map f).Nodup := by
  obtain ⟨hlength, hget⟩ := List.forall₂_iff_get.mp h
  rw [List.Nodup, List.pairwise_iff_getElem]
  intro i j hi hj hlt heq
  rw [List.length_map, ← hlength] at hi hj
  rw [List.getElem_map, List.getElem_map] at heq
  have hsame : items[i] = items[j] :=
    hread _ (List.getElem_mem hi) _ (List.getElem_mem hj) _ _ (hget i hi _) (hget j hj _) heq
  exact Nat.ne_of_lt hlt (hitems.getElem_inj_iff.mp hsame)

/-- An item is listed exactly if it is kept. -/
theorem rel_guard {α β : Type} {R : α → β → Prop} {p : α → Prop} [DecidablePred p] {item : α}
    {listed : Option β} (hkept : p item → listed.isSome)
    (hlisted : ∀ value, listed = some value → p item ∧ R item value) :
    Option.Rel R (Option.guard (fun item ↦ p item) item) listed := by
  cases listed with
  | none =>
    have hnot : ¬p item := fun h ↦ Bool.false_ne_true (hkept h)
    have hguard : Option.guard (fun item ↦ decide (p item)) item = none := by simp [hnot]
    rw [hguard]
    exact .none
  | some value =>
    obtain ⟨hp, hvalue⟩ := hlisted value rfl
    have hguard : Option.guard (fun item ↦ decide (p item)) item = some item := by simp [hp]
    rw [hguard]
    exact .some hvalue

namespace Grammar

variable {g : Grammar}

/-! ## Binary rules -/

/-- The usable rules of a symbol, in the order in which they first came up. -/
def usableRules (g : Grammar) (parent : String) : List BinaryRule :=
  g.binaryRules.keys.filter fun rule ↦ rule.parent = parent ∧ rule.Usable g

theorem listedAs_of_indexedRule? {rule : BinaryRule} {indexed : IndexedRule}
    (h : g.indexedRule? rule (g.binaryRules.count rule) = some indexed) :
    rule.Usable g ∧ rule.ListedAs g indexed := by
  obtain ⟨hcount, hparent, hleft, hright, hshare⟩ := indexedRule?_eq_some_iff.mp h
  obtain ⟨htotal, hprobability⟩ := (Weight.relativeFrequency?_eq_some_iff hcount).mp hshare
  rw [← binaryProbability_eq] at hprobability
  constructor
  · exact ⟨Nat.pos_of_ne_zero hcount, ⟨Tally.mem_of_position? hparent, Tally.mem_of_position? hleft,
      Tally.mem_of_position? hright⟩, Nat.pos_of_ne_zero htotal⟩
  · exact ⟨hparent, hleft, hright, hprobability⟩

theorem isSome_indexedRule? {rule : BinaryRule} (h : rule.Usable g) :
    (g.indexedRule? rule (g.binaryRules.count rule)).isSome := by
  obtain ⟨hcount, ⟨hparent, hleft, hright⟩, htotal⟩ := h
  obtain ⟨parent, hparent⟩ := Tally.exists_position?_of_mem hparent
  obtain ⟨left, hleft⟩ := Tally.exists_position?_of_mem hleft
  obtain ⟨right, hright⟩ := Tally.exists_position?_of_mem hright
  have hne := Nat.ne_of_gt hcount
  obtain ⟨share, hshare⟩ : ∃ share, Weight.relativeFrequency? (g.binaryRules.count rule)
      (g.symbols.count rule.parent) = some share :=
    ⟨_, Weight.relativeFrequency?_of_ne_zero hne (Nat.ne_of_gt htotal)⟩
  have hindexed : g.indexedRule? rule (g.binaryRules.count rule) =
      some ⟨parent, left, right, share⟩ :=
    indexedRule?_eq_some_iff.mpr ⟨hne, hparent, hleft, hright, hshare⟩
  exact Option.isSome_of_eq_some hindexed

theorem forall₂_indexedRules (g : Grammar) :
    List.Forall₂ (BinaryRule.ListedAs g) (g.binaryRules.keys.filter fun rule ↦ rule.Usable g)
      g.indexedRules := by
  rw [← List.filterMap_eq_filter, indexedRules]
  apply List.rel_filterMap _ g.binaryRules.forall₂_keys_entries
  intro rule entry hentry
  rw [hentry]
  exact rel_guard isSome_indexedRule? fun _ ↦ listedAs_of_indexedRule?

theorem parent_eq_iff {number : Nat} {symbol : String} (h : g.symbols.key? number = some symbol)
    {rule : BinaryRule} {indexed : IndexedRule} (hrule : rule.ListedAs g indexed) :
    rule.parent = symbol ↔ indexed.parent = number := by
  have hparent := hrule.parent
  have hposition := Tally.position?_eq_some_iff.mpr h
  constructor
  · intro hsymbol
    rw [hsymbol, hposition] at hparent
    exact (Option.some.inj hparent).symm
  · intro hnumber
    rw [hnumber] at hparent
    exact Tally.eq_of_position?_eq hparent hposition

theorem forall₂_rulesFor {number : Nat} {symbol : String}
    (h : g.symbols.key? number = some symbol) :
    List.Forall₂ (BinaryRule.ListedAs g) (g.usableRules symbol) (g.rulesFor number) := by
  have hlisted : List.Forall₂ (BinaryRule.ListedAs g)
      ((g.binaryRules.keys.filter fun rule ↦ rule.Usable g).filter fun rule ↦ rule.parent = symbol)
      (g.indexedRules.filter fun rule ↦ rule.parent = number) := by
    apply List.rel_filter _ g.forall₂_indexedRules
    intro rule indexed hrule
    simpa only [decide_eq_true_eq] using parent_eq_iff h hrule
  rw [List.filter_filter] at hlisted
  simpa only [usableRules, rulesFor, Bool.decide_and] using hlisted

theorem parent_of_mem_usableRules {symbol : String} {rule : BinaryRule}
    (h : rule ∈ g.usableRules symbol) : rule.parent = symbol := by
  have hmem := (List.mem_filter.mp h).2
  exact (of_decide_eq_true hmem).1

/-- No two rules of a number have the same symbols on the right. -/
theorem nodup_rulesFor (g : Grammar) (number : Nat) :
    ((g.rulesFor number).map fun rule ↦ (rule.left, rule.right)).Nodup := by
  rcases Nat.lt_or_ge number g.symbols.size with hlt | hge
  · obtain ⟨symbol, hsymbol⟩ := Tally.exists_key?_of_lt_size hlt
    have hnodup : g.binaryRules.keys.Nodup := g.binaryRules.nodup_keys
    apply nodup_map_of_forall₂ (forall₂_rulesFor hsymbol) (hnodup.filter _)
    intro rule hrule other hother indexed otherIndexed hlisted hotherListed heq
    have hparent := (parent_of_mem_usableRules hrule).trans (parent_of_mem_usableRules hother).symm
    have hleft := hotherListed.left
    have hright := hotherListed.right
    rw [← (Prod.mk.inj heq).1] at hleft
    rw [← (Prod.mk.inj heq).2] at hright
    have hleft := Tally.eq_of_position?_eq hlisted.left hleft
    have hright := Tally.eq_of_position?_eq hlisted.right hright
    calc
      rule = ⟨rule.parent, rule.left, rule.right⟩ := rfl
      _ = ⟨other.parent, other.left, other.right⟩ := by rw [hparent, hleft, hright]
      _ = other := rfl
  · rw [rulesFor_eq_nil_of_size_le hge]
    exact List.nodup_nil

theorem lt_size_of_mem_rulesFor {number : Nat} {rule : IndexedRule} (h : rule ∈ g.rulesFor number) :
    rule.parent = number ∧ rule.parent < g.symbols.size ∧ rule.left < g.symbols.size ∧
      rule.right < g.symbols.size := by
  obtain ⟨hnumber, parent, left, right, hparent, hleft, hright, -⟩ := mem_rulesFor_iff.mp h
  exact ⟨hnumber, Tally.lt_size_of_key? hparent, Tally.lt_size_of_key? hleft,
    Tally.lt_size_of_key? hright⟩

/-- The table of rules holds the rules of each number, and none beyond the symbols. -/
theorem getD_ruleIndex (g : Grammar) (number : Nat) :
    g.ruleIndex[number]?.getD [] = g.rulesFor number := by
  rcases Nat.lt_or_ge number g.symbols.size with hlt | hge
  · rw [getElem?_ruleIndex_of_lt hlt, Option.getD_some]
  · rw [getElem?_ruleIndex_of_le hge, rulesFor_eq_nil_of_size_le hge, Option.getD_none]

/-! ## Unary rules -/

/-- The rules of a word under known symbols, in the order in which they first came up. -/
def knownWords (g : Grammar) (word : String) : List UnaryRule :=
  g.unaryRules.keys.filter fun rule ↦ rule.word = word ∧ rule.parent ∈ g.symbols

/-- The usable rules of a word, in the order in which they first came up. -/
def usableWords (g : Grammar) (word : String) : List UnaryRule :=
  g.unaryRules.keys.filter fun rule ↦ rule.word = word ∧ rule.Usable g

theorem word_of_mem_knownWords {word : String} {rule : UnaryRule} (h : rule ∈ g.knownWords word) :
    rule.word = word := by
  have hmem := (List.mem_filter.mp h).2
  exact (of_decide_eq_true hmem).1

theorem nodup_knownWords (g : Grammar) (word : String) : (g.knownWords word).Nodup := by
  have hnodup : g.unaryRules.keys.Nodup := g.unaryRules.nodup_keys
  exact hnodup.filter _

theorem forall₂_lexicon (g : Grammar) (word : String) :
    List.Forall₂ (UnaryRule.CountedAs g) (g.knownWords word) (g.lexicon word) := by
  rw [knownWords, ← List.filterMap_eq_filter, lexicon]
  apply List.rel_filterMap _ g.unaryRules.forall₂_keys_entries
  intro rule entry hentry
  rw [hentry]
  apply rel_guard
  · intro hrule
    obtain ⟨hword, hparent⟩ := hrule
    obtain ⟨number, hnumber⟩ := Tally.exists_position?_of_mem hparent
    simp [hword, hnumber]
  · intro value hvalue
    dsimp only at hvalue
    split_ifs at hvalue with hword
    obtain ⟨number, hnumber, rfl⟩ := Option.map_eq_some_iff.mp hvalue
    exact ⟨⟨hword, Tally.mem_of_position? hnumber⟩, hnumber, rfl⟩

theorem usableWords_eq (g : Grammar) (word : String) :
    g.usableWords word = (g.knownWords word).filter fun rule ↦
      0 < g.unaryRules.count rule ∧ 0 < g.symbols.count rule.parent := by
  rw [usableWords, knownWords, List.filter_filter]
  apply List.filter_congr
  intro rule _
  rw [← Bool.decide_and, decide_eq_decide, UnaryRule.Usable]
  tauto

theorem forall₂_lexicalWeights (g : Grammar) (word : String) :
    List.Forall₂ (UnaryRule.ListedAs g) (g.usableWords word) (g.lexicalWeights word) := by
  rw [usableWords_eq, ← List.filterMap_eq_filter, lexicalWeights]
  apply List.rel_filterMap _ (g.forall₂_lexicon word)
  intro rule entry hrule
  have hkey := Tally.position?_eq_some_iff.mp hrule.parent
  beta_reduce
  rw [Tally.countAt_eq_count hkey, hrule.count]
  apply rel_guard
  · intro hpositive
    rw [if_neg (Nat.ne_of_gt hpositive.1), Weight.relativeFrequency?_of_ne_zero
      (Nat.ne_of_gt hpositive.1) (Nat.ne_of_gt hpositive.2)]
    rfl
  · intro value hvalue
    split_ifs at hvalue with hcount
    obtain ⟨share, hshare, rfl⟩ := Option.map_eq_some_iff.mp hvalue
    obtain ⟨htotal, hweight⟩ := (Weight.relativeFrequency?_eq_some_iff hcount).mp hshare
    rw [← unaryProbability_eq] at hweight
    exact ⟨⟨Nat.pos_of_ne_zero hcount, Nat.pos_of_ne_zero htotal⟩, hrule.parent, hweight⟩

/-- No symbol is listed twice for a word. -/
theorem nodup_lexicalWeights (g : Grammar) (word : String) :
    ((g.lexicalWeights word).map Prod.fst).Nodup := by
  have hnodup := g.nodup_knownWords word
  have hlisted := g.forall₂_lexicalWeights word
  rw [usableWords_eq] at hlisted
  apply nodup_map_of_forall₂ hlisted (hnodup.filter _)
  intro rule hrule other hother listed otherListed hlisted hotherListed heq
  have hword := (word_of_mem_knownWords (List.mem_filter.mp hrule).1).trans
    (word_of_mem_knownWords (List.mem_filter.mp hother).1).symm
  have hparent := hotherListed.parent
  rw [← heq] at hparent
  have hparent := Tally.eq_of_position?_eq hlisted.parent hparent
  calc
    rule = ⟨rule.parent, rule.word⟩ := rfl
    _ = ⟨other.parent, other.word⟩ := by rw [hparent, hword]
    _ = other := rfl

/-! ## How often a word was seen -/

/-- The known parents of a word, in the order in which its rules first came up. -/
def parentsOf (g : Grammar) (word : String) : List String :=
  (g.knownWords word).map UnaryRule.parent

theorem eq_mk_of_mem_knownWords {word : String} {rule : UnaryRule}
    (h : rule ∈ g.knownWords word) : rule = ⟨rule.parent, word⟩ := by
  rw [← word_of_mem_knownWords h]

theorem nodup_parentsOf (g : Grammar) (word : String) : (g.parentsOf word).Nodup := by
  apply (g.nodup_knownWords word).map_on
  intro rule hrule other hother heq
  rw [eq_mk_of_mem_knownWords hrule, eq_mk_of_mem_knownWords hother, heq]

theorem mem_parentsOf_iff {word symbol : String} :
    symbol ∈ g.parentsOf word ↔
      symbol ∈ g.symbols ∧ (⟨symbol, word⟩ : UnaryRule) ∈ g.unaryRules := by
  rw [parentsOf, List.mem_map]
  constructor
  · rintro ⟨rule, hrule, rfl⟩
    have hmem := List.mem_filter.mp hrule
    have hparent := (of_decide_eq_true hmem.2).2
    rw [← eq_mk_of_mem_knownWords hrule]
    exact ⟨hparent, hmem.1⟩
  · intro h
    have hrule : (⟨symbol, word⟩ : UnaryRule) ∈ g.knownWords word :=
      List.mem_filter.mpr ⟨h.2, decide_eq_true ⟨rfl, h.1⟩⟩
    exact ⟨_, hrule, rfl⟩

theorem map_count_lexicon (g : Grammar) (word : String) :
    (g.lexicon word).map LexicalEntry.count =
      (g.parentsOf word).map fun symbol ↦ g.unaryRules.count ⟨symbol, word⟩ := by
  have hlisted := (List.forall₂_and_left (p := fun rule : UnaryRule ↦ rule = ⟨rule.parent, word⟩)
    _ _).mpr ⟨fun _ ↦ eq_mk_of_mem_knownWords, g.forall₂_lexicon word⟩
  symm
  rw [parentsOf, List.map_map, ← List.forall₂_eq_eq_eq, List.forall₂_map_left_iff,
    List.forall₂_map_right_iff]
  apply hlisted.imp
  intro rule entry hrule
  rw [hrule.2.count, Function.comp_apply, ← hrule.1]

/-- A word was seen as often as its rules were under all known symbols together. -/
theorem occurrences_eq_sum (g : Grammar) (word : String) :
    g.occurrences word =
      (g.symbols.keys.map fun symbol ↦ g.unaryRules.count ⟨symbol, word⟩).sum := by
  let seen := fun symbol ↦ g.unaryRules.count ⟨symbol, word⟩
  have hknown : (g.parentsOf word).toFinset ⊆ g.symbols.keys.toFinset := by
    intro symbol hsymbol
    rw [List.mem_toFinset] at hsymbol ⊢
    exact (mem_parentsOf_iff.mp hsymbol).1
  have hunseen : ∀ symbol ∈ g.symbols.keys.toFinset, symbol ∉ (g.parentsOf word).toFinset →
      seen symbol = 0 := by
    intro symbol hsymbol hparent
    rw [List.mem_toFinset] at hsymbol hparent
    by_contra hne
    exact hparent (mem_parentsOf_iff.mpr ⟨hsymbol, Tally.mem_of_count_ne_zero hne⟩)
  calc
    g.occurrences word = ((g.parentsOf word).map seen).sum := by rw [occurrences, map_count_lexicon]
    _ = ∑ symbol ∈ (g.parentsOf word).toFinset, seen symbol :=
      (List.sum_toFinset seen (g.nodup_parentsOf word)).symm
    _ = ∑ symbol ∈ g.symbols.keys.toFinset, seen symbol := Finset.sum_subset hknown hunseen
    _ = (g.symbols.keys.map seen).sum := List.sum_toFinset seen g.symbols.nodup_keys

theorem wordCount_eq_sum_mod (g : Grammar) (word : String) :
    g.wordCount word =
      (g.symbols.keys.map fun symbol ↦ g.unaryRules.count ⟨symbol, word⟩).sum %
        (Record.maxCount + 1) := by
  rw [wordCount_eq_occurrences_mod, occurrences_eq_sum]

/-! ## Agreement -/

/-- What is listed by number is what the counts by name make usable, in the order of the counts. -/
theorem listing_agrees_with_counts (g : Grammar) :
    (∀ number symbol, g.symbols.key? number = some symbol →
      List.Forall₂ (BinaryRule.ListedAs g) (g.usableRules symbol) (g.rulesFor number)) ∧
    (∀ number, ((g.rulesFor number).map fun rule ↦ (rule.left, rule.right)).Nodup ∧
      (∀ rule ∈ g.rulesFor number, rule.parent = number ∧ rule.parent < g.symbols.size ∧
        rule.left < g.symbols.size ∧ rule.right < g.symbols.size) ∧
      (g.symbols.size ≤ number → g.rulesFor number = []) ∧
      g.ruleIndex[number]?.getD [] = g.rulesFor number) ∧
    (∀ word, List.Forall₂ (UnaryRule.ListedAs g) (g.usableWords word) (g.lexicalWeights word) ∧
      ((g.lexicalWeights word).map Prod.fst).Nodup) ∧
    ∀ word,
      let seen := (g.symbols.keys.map fun symbol ↦ g.unaryRules.count ⟨symbol, word⟩).sum
      g.wordCount word = seen % (Record.maxCount + 1) ∧
        (seen ≤ Record.maxCount → g.wordCount word = seen) := by
  refine ⟨fun _ _ ↦ forall₂_rulesFor, ?_, ?_, ?_⟩
  · intro number
    exact ⟨g.nodup_rulesFor number, fun _ ↦ lt_size_of_mem_rulesFor, rulesFor_eq_nil_of_size_le,
      g.getD_ruleIndex number⟩
  · intro word
    exact ⟨g.forall₂_lexicalWeights word, g.nodup_lexicalWeights word⟩
  · intro word seen
    refine ⟨g.wordCount_eq_sum_mod word, fun hseen ↦ ?_⟩
    rw [g.wordCount_eq_sum_mod, Nat.mod_eq_of_lt (Nat.lt_succ_of_le hseen)]

/-- Counts with rules before their symbols, and a symbol that is not known. -/
def earlyRules : List Record :=
  [.binary ⟨"S", "NP", "VP"⟩ 3, .unary ⟨"VP", "bark"⟩ 4, .nonterminal "S" 4,
    .binary ⟨"S", "VP", "NP"⟩ 0, .binary ⟨"S", "V", "NP"⟩ 2, .unary ⟨"NP", "bark"⟩ 0,
    .nonterminal "NP" 5, .unary ⟨"V", "bark"⟩ 7]

/-- The symbol that was missing, and a rule that had not been seen. -/
def lateSymbols : List Record :=
  [.nonterminal "VP" 8, .binary ⟨"S", "VP", "NP"⟩ 1]

/-- The rules keep the places of their first records, and those of the unknown symbol are left
out. -/
theorem listing_of_late_symbols :
    let g := (ofRecords earlyRules).train lateSymbols
    g.symbols.key? 0 = some "S" ∧
      g.usableRules "S" = [⟨"S", "NP", "VP"⟩, ⟨"S", "VP", "NP"⟩] ∧
      List.Forall₂ (BinaryRule.ListedAs g) (g.usableRules "S") (g.rulesFor 0) ∧
      g.symbols.size ≤ 3 ∧ g.rulesFor 3 = [] ∧
      g.usableWords "bark" = [⟨"VP", "bark"⟩] ∧
      List.Forall₂ (UnaryRule.ListedAs g) (g.usableWords "bark") (g.lexicalWeights "bark") ∧
      (g.symbols.keys.map fun symbol ↦ g.unaryRules.count ⟨symbol, "bark"⟩).sum = 4 ∧
      4 ≤ Record.maxCount ∧ g.wordCount "bark" = 4 := by
  intro g
  have hsymbol : g.symbols.key? 0 = some "S" := by decide
  have hsize : g.symbols.size ≤ 3 := by decide
  have hseen : (g.symbols.keys.map fun symbol ↦ g.unaryRules.count ⟨symbol, "bark"⟩).sum = 4 := by
    decide
  have hfits : 4 ≤ Record.maxCount := by decide
  have hlisting := listing_agrees_with_counts g
  exact ⟨hsymbol, by decide, hlisting.1 0 "S" hsymbol, hsize, (hlisting.2.1 3).2.2.1 hsize,
    by decide, (hlisting.2.2.1 "bark").1, hseen, hfits,
    ((hlisting.2.2.2 "bark").2 (hseen.trans_le hfits)).trans hseen⟩

end Grammar

end StochasticGrammar
