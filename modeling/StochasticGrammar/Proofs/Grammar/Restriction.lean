import StochasticGrammar.Proofs.Grammar.History
import StochasticGrammar.Proofs.Grammar.Listing
import StochasticGrammar.Proofs.Tally.Order

/-!
# Rules that can be left out

Binary and unary rules are taken together as rules of either shape.  Some of them are listed for no
symbol and no word, and a grammar lists the same without them.
-/

namespace StochasticGrammar

/-! ## Rules of either shape

Binary and unary rules have tallies of their own, and most of what is said about the one holds of
the other.  A rule of either shape is listed by number exactly if it was seen, its symbols are known
and its parent was seen.
-/

/-- A rule of either shape. -/
inductive Rule where
  | binary (rule : BinaryRule)
  | unary (rule : UnaryRule)
deriving DecidableEq, Repr

namespace Rule

/-- The symbol that the rule expands. -/
def parent : Rule → String
  | binary rule => rule.parent
  | unary rule => rule.parent

/-- The nonterminal symbols that the rule mentions. -/
def symbols : Rule → List String
  | binary rule => [rule.parent, rule.left, rule.right]
  | unary rule => [rule.parent]

/-- Every symbol that the rule mentions is known. -/
def IsKnown (g : Grammar) (rule : Rule) : Prop :=
  ∀ symbol ∈ rule.symbols, symbol ∈ g.symbols

instance (g : Grammar) (rule : Rule) : Decidable (rule.IsKnown g) :=
  inferInstanceAs (Decidable (∀ symbol ∈ rule.symbols, symbol ∈ g.symbols))

variable {g : Grammar}

@[simp]
theorem isKnown_binary_iff {rule : BinaryRule} :
    (binary rule).IsKnown g ↔
      rule.parent ∈ g.symbols ∧ rule.left ∈ g.symbols ∧ rule.right ∈ g.symbols := by
  simp [IsKnown, symbols]

@[simp]
theorem isKnown_unary_iff {rule : UnaryRule} :
    (unary rule).IsKnown g ↔ rule.parent ∈ g.symbols := by
  simp [IsKnown, symbols]

/-- Parsing finds the rule by number, with its probability: a binary rule among those of its parent,
a unary rule among those of its word. -/
def IsListed (g : Grammar) : Rule → Prop
  | binary rule => ∃ number, ∃ indexed ∈ g.rulesFor number, rule.ListedAs g indexed
  | unary rule => ∃ listed ∈ g.lexicalWeights rule.word, rule.ListedAs g listed

end Rule

namespace Grammar

/-- How often a rule was seen. -/
def ruleCount (g : Grammar) : Rule → Nat
  | .binary rule => g.binaryRules.count rule
  | .unary rule => g.unaryRules.count rule

def ruleProbability (g : Grammar) : Rule → Weight
  | .binary rule => g.binaryProbability rule
  | .unary rule => g.unaryProbability rule

/-- The rules that have a count, binary rules first, each in the order of its tally. -/
def rules (g : Grammar) : List Rule :=
  g.binaryRules.keys.map .binary ++ g.unaryRules.keys.map .unary

variable {g : Grammar}

@[simp]
theorem binary_mem_rules_iff {rule : BinaryRule} :
    .binary rule ∈ g.rules ↔ rule ∈ g.binaryRules := by
  simp [rules, Tally.mem_def]

@[simp]
theorem unary_mem_rules_iff {rule : UnaryRule} : .unary rule ∈ g.rules ↔ rule ∈ g.unaryRules := by
  simp [rules, Tally.mem_def]

theorem nodup_rules (g : Grammar) : g.rules.Nodup := by
  have hbinary : g.binaryRules.keys.Nodup := g.binaryRules.nodup_keys
  have hunary : g.unaryRules.keys.Nodup := g.unaryRules.nodup_keys
  rw [rules, List.nodup_append]
  refine ⟨hbinary.map fun _ _ ↦ Rule.binary.inj, hunary.map fun _ _ ↦ Rule.unary.inj, ?_⟩
  simp

theorem mem_rules_of_ruleCount_pos {rule : Rule} (h : 0 < g.ruleCount rule) : rule ∈ g.rules := by
  cases rule with
  | binary rule => exact binary_mem_rules_iff.mpr (Tally.mem_of_count_ne_zero (Nat.ne_of_gt h))
  | unary rule => exact unary_mem_rules_iff.mpr (Tally.mem_of_count_ne_zero (Nat.ne_of_gt h))

theorem ruleProbability_eq (g : Grammar) (rule : Rule) :
    g.ruleProbability rule =
      (Weight.relativeFrequency? (g.ruleCount rule) (g.symbols.count rule.parent)).getD 0 := by
  cases rule with
  | binary rule => exact g.binaryProbability_eq rule
  | unary rule => exact g.unaryProbability_eq rule

/-! ### Rules by number -/

theorem isListed_binary_iff {rule : BinaryRule} :
    (Rule.binary rule).IsListed g ↔ rule.Usable g := by
  constructor
  · rintro ⟨number, indexed, hindexed, hlisted⟩
    obtain ⟨-, parent, left, right, hparent, hleft, hright, hcount, htotal, -⟩ :=
      mem_rulesFor_iff.mp hindexed
    rw [← Tally.position?_eq_some_iff] at hparent hleft hright
    have hrule : rule = ⟨parent, left, right⟩ := by
      rw [Tally.eq_of_position?_eq hparent hlisted.parent,
        Tally.eq_of_position?_eq hleft hlisted.left,
        Tally.eq_of_position?_eq hright hlisted.right]
    rw [hrule]
    exact ⟨Nat.pos_of_ne_zero hcount, ⟨Tally.mem_of_position? hparent, Tally.mem_of_position? hleft,
      Tally.mem_of_position? hright⟩, Nat.pos_of_ne_zero htotal⟩
  · intro husable
    obtain ⟨indexed, hindexed⟩ := Option.isSome_iff_exists.mp (isSome_indexedRule? husable)
    have hentry := Tally.mem_entries_of_count_ne_zero (Nat.ne_of_gt husable.1)
    have hmem : indexed ∈ g.indexedRules := List.mem_filterMap.mpr ⟨_, hentry, hindexed⟩
    exact ⟨indexed.parent, indexed, List.mem_filter.mpr ⟨hmem, decide_eq_true rfl⟩,
      (listedAs_of_indexedRule? hindexed).2⟩

theorem isListed_unary_iff {rule : UnaryRule} :
    (Rule.unary rule).IsListed g ↔ rule.Usable g := by
  constructor
  · rintro ⟨listed, hmem, hlisted⟩
    obtain ⟨symbol, hsymbol, hcount, htotal, -⟩ := mem_lexicalWeights_iff.mp hmem
    rw [← Tally.position?_eq_some_iff] at hsymbol
    rw [Tally.eq_of_position?_eq hsymbol hlisted.parent] at hcount htotal
    exact ⟨Nat.pos_of_ne_zero hcount, Tally.mem_of_position? hlisted.parent,
      Nat.pos_of_ne_zero htotal⟩
  · rintro ⟨hcount, hparent, htotal⟩
    obtain ⟨number, hnumber⟩ := Tally.exists_position?_of_mem hparent
    have hmem : (number, g.unaryProbability rule) ∈ g.lexicalWeights rule.word :=
      mem_lexicalWeights_iff.mpr ⟨rule.parent, Tally.position?_eq_some_iff.mp hnumber,
        Nat.ne_of_gt hcount, Nat.ne_of_gt htotal, rfl⟩
    exact ⟨_, hmem, hnumber, rfl⟩

/-- A rule is listed exactly if it was seen, its symbols are known and its parent was seen. -/
theorem isListed_iff {rule : Rule} :
    rule.IsListed g ↔
      0 < g.ruleCount rule ∧ rule.IsKnown g ∧ 0 < g.symbols.count rule.parent := by
  cases rule with
  | binary rule => rw [isListed_binary_iff, Rule.isKnown_binary_iff]; rfl
  | unary rule => rw [isListed_unary_iff, Rule.isKnown_unary_iff]; rfl

end Grammar

/-! ## Grammars without some of their rules

Leaving rules out of a grammar and never reading their records come to the same.  A rule is inert if
one of its symbols is not known or it was never seen.  Nothing that is listed by number changes when
inert rules are left out, nor do the words that are rare, though the tallies of rules do change.
-/

/-- The rule that a record counts. -/
def Record.rule? : Record → Option Rule
  | nonterminal _ _ => none
  | binary rule _ => some (.binary rule)
  | unary rule _ => some (.unary rule)

/-- The records that count none of the rules left out. -/
def Record.without (dropped : Rule → Prop) [DecidablePred dropped] (records : List Record) :
    List Record :=
  records.filter fun record ↦ ∀ rule ∈ record.rule?, ¬dropped rule

/-- The rule mentions a symbol that is not known, or it was never seen. -/
def Rule.IsInert (g : Grammar) (rule : Rule) : Prop :=
  ¬rule.IsKnown g ∨ g.ruleCount rule = 0

namespace Grammar

/-- A symbol is known exactly if a record counts it, be it with no occurrences. -/
theorem mem_symbols_ofRecords_iff {records : List Record} {symbol : String} :
    symbol ∈ (ofRecords records).symbols ↔ ∃ count, .nonterminal symbol count ∈ records := by
  have hkeys := (keeps_ofRecords records).symbols.keys
  rw [Tally.mem_def, hkeys, List.mem_eraseDups, Record.mem_symbolCounts_iff]

variable (dropped : Rule → Prop) [DecidablePred dropped]

/-- The grammar without the rules left out.  Its symbols stay. -/
def without (g : Grammar) : Grammar where
  symbols := g.symbols
  binaryRules := g.binaryRules.restrict fun rule ↦ ¬dropped (.binary rule)
  unaryRules := g.unaryRules.restrict fun rule ↦ ¬dropped (.unary rule)

/-! ### Records of the rules left out -/

theorem without_add (g : Grammar) (record : Record) :
    (g.add record).without dropped =
      if ∀ rule ∈ record.rule?, ¬dropped rule then (g.without dropped).add record
      else g.without dropped := by
  cases record with
  | nonterminal symbol count => simp [without, add, Record.rule?]
  | binary rule count =>
    by_cases hrule : dropped (.binary rule) <;>
      simp [without, add, Record.rule?, Tally.restrict_insert, hrule]
  | unary rule count =>
    by_cases hrule : dropped (.unary rule) <;>
      simp [without, add, Record.rule?, Tally.restrict_insert, hrule]

theorem without_train (g : Grammar) (records : List Record) :
    (g.train records).without dropped =
      (g.without dropped).train (Record.without dropped records) := by
  induction records generalizing g with
  | nil => rfl
  | cons record records ih =>
    have hcons : g.train (record :: records) = (g.add record).train records := rfl
    rw [hcons, ih, without_add, Record.without, Record.without, List.filter_cons]
    by_cases hkept : ∀ rule ∈ record.rule?, ¬dropped rule
    · rw [if_pos hkept, if_pos (decide_eq_true hkept)]
      rfl
    · rw [if_neg hkept, if_neg (by simpa using hkept)]

/-- Not reading the records of rules leaves a grammar without these rules. -/
theorem ofRecords_without (records : List Record) :
    ofRecords (Record.without dropped records) = (ofRecords records).without dropped :=
  (without_train dropped ∅ records).symm

/-! ### Inert rules -/

variable {dropped} {g : Grammar}

theorem indexedRule?_of_isInert {rule : BinaryRule} (h : (Rule.binary rule).IsInert g) :
    g.indexedRule? rule (g.binaryRules.count rule) = none := by
  by_contra hindexed
  obtain ⟨indexed, hindexed⟩ := Option.ne_none_iff_exists'.mp hindexed
  have husable := (listedAs_of_indexedRule? hindexed).1
  cases h with
  | inl hunknown => exact hunknown (Rule.isKnown_binary_iff.mpr husable.2.1)
  | inr hunseen => exact Nat.ne_of_gt husable.1 hunseen

/-- What a counted rule contributes to the symbols listed for a word. -/
def lexicalWeight? (g : Grammar) (word : String) (rule : UnaryRule) (count : Nat) :
    Option (Nat × Weight) :=
  if rule.word = word then
    (g.symbols.position? rule.parent).bind fun symbol ↦
      if count = 0 then none
      else (Weight.relativeFrequency? count (g.symbols.countAt symbol)).map (symbol, ·)
  else none

theorem lexicalWeights_eq_filterMap (g : Grammar) (word : String) :
    g.lexicalWeights word =
      g.unaryRules.entries.filterMap fun entry ↦ g.lexicalWeight? word entry.1 entry.2 := by
  rw [lexicalWeights, lexicon, List.filterMap_filterMap]
  apply congrArg (List.filterMap · g.unaryRules.entries)
  funext entry
  obtain ⟨rule, count⟩ := entry
  dsimp only
  rw [lexicalWeight?]
  by_cases hword : rule.word = word
  · rw [if_pos hword, if_pos hword, Option.bind_map]
    rfl
  · rw [if_neg hword, if_neg hword, Option.bind_none]

theorem lexicalWeight?_of_isInert {rule : UnaryRule} (h : (Rule.unary rule).IsInert g)
    (word : String) : g.lexicalWeight? word rule (g.unaryRules.count rule) = none := by
  rw [lexicalWeight?, ite_eq_right_iff]
  intro _
  cases h with
  | inl hunknown =>
    rw [Rule.isKnown_unary_iff] at hunknown
    rw [Tally.position?_eq_none_iff.mpr hunknown, Option.bind_none]
  | inr hunseen =>
    have hcount : g.unaryRules.count rule = 0 := hunseen
    simp [hcount]

variable (hinert : ∀ rule, dropped rule → rule.IsInert g)

include hinert

theorem indexedRules_without : (g.without dropped).indexedRules = g.indexedRules := by
  apply Tally.filterMap_entries_restrict g.binaryRules _ g.indexedRule?
  intro rule hrule
  apply indexedRule?_of_isInert
  apply hinert
  simpa using hrule

theorem lexicalWeights_without (word : String) :
    (g.without dropped).lexicalWeights word = g.lexicalWeights word := by
  rw [lexicalWeights_eq_filterMap, lexicalWeights_eq_filterMap]
  apply Tally.filterMap_entries_restrict g.unaryRules _ (g.lexicalWeight? word)
  intro rule hrule
  apply lexicalWeight?_of_isInert
  apply hinert
  simpa using hrule

/-- Among the rules of a word under known symbols, those left out have the count zero. -/
theorem occurrences_without (word : String) :
    (g.without dropped).occurrences word = g.occurrences word := by
  rw [occurrences_eq_sum, occurrences_eq_sum]
  apply congrArg List.sum
  apply List.map_congr_left
  intro symbol hsymbol
  rw [without, Tally.count_restrict]
  by_cases hdropped : dropped (.unary ⟨symbol, word⟩)
  · have hcount : g.unaryRules.count ⟨symbol, word⟩ = 0 :=
      (hinert _ hdropped).resolve_left (not_not.mpr (Rule.isKnown_unary_iff.mpr hsymbol))
    simp [hcount]
  · simp [hdropped]

theorem wordCount_without (word : String) :
    (g.without dropped).wordCount word = g.wordCount word := by
  rw [wordCount_eq_occurrences_mod, wordCount_eq_occurrences_mod, occurrences_without hinert]

end Grammar

end StochasticGrammar
