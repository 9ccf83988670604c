import StochasticGrammar.Record
import StochasticGrammar.Tally
import StochasticGrammar.Weight

/-!
# Grammars

A grammar is trained with counts of symbols and rules.  What parsing needs of it is read off the
counts: probabilities, the rules by number, the words that are rare and what there is to say after
training.
-/

namespace StochasticGrammar

/-! ## Counts

A grammar is what its training records leave behind: three tallies, of the nonterminal symbols, the
binary rules and the unary rules.  Everything else about a grammar is a function of these.  The
position of a symbol in its tally is the symbol's number.
-/

structure Grammar where
  symbols : Tally String := ∅
  binaryRules : Tally BinaryRule := ∅
  unaryRules : Tally UnaryRule := ∅

namespace Grammar

instance : EmptyCollection Grammar := ⟨{}⟩

/-- Takes in one record.  Its count replaces an earlier one for the same symbol or rule. -/
def add (g : Grammar) : Record → Grammar
  | .nonterminal symbol count => { g with symbols := g.symbols.insert symbol count }
  | .binary rule count => { g with binaryRules := g.binaryRules.insert rule count }
  | .unary rule count => { g with unaryRules := g.unaryRules.insert rule count }

/-- Takes in records on top of what the grammar holds. -/
def train (g : Grammar) (records : List Record) : Grammar :=
  records.foldl add g

def ofRecords (records : List Record) : Grammar :=
  train ∅ records

/-- The name of the symbol of a number, empty if there is no such symbol. -/
def symbolName (g : Grammar) (number : Nat) : String :=
  (g.symbols.key? number).getD ""

end Grammar

/-! ## Rule probabilities

The probability of a rule is its share among the occurrences of its parent.  A rule that was seen
under a parent that was not has no probability, and is taken for impossible where a number is
needed.
-/

/-- The parent of a rule that was seen was not seen itself. -/
structure UndefinedProbability where
  parent : String
deriving DecidableEq, Repr

def UndefinedProbability.message (fault : UndefinedProbability) : String :=
  s!"nonterminal '{fault.parent}' has rule occurrences but a zero left-hand-side count"

namespace Grammar

/-- The share of `count` among the occurrences of a parent. -/
def share (g : Grammar) (parent : String) (count : Nat) : Except UndefinedProbability Weight :=
  match Weight.relativeFrequency? count (g.symbols.count parent) with
  | some weight => .ok weight
  | none => .error ⟨parent⟩

def binaryShare (g : Grammar) (rule : BinaryRule) : Except UndefinedProbability Weight :=
  g.share rule.parent (g.binaryRules.count rule)

def unaryShare (g : Grammar) (rule : UnaryRule) : Except UndefinedProbability Weight :=
  g.share rule.parent (g.unaryRules.count rule)

def binaryProbability (g : Grammar) (rule : BinaryRule) : Weight :=
  (g.binaryShare rule).toOption.getD 0

def unaryProbability (g : Grammar) (rule : UnaryRule) : Weight :=
  (g.unaryShare rule).toOption.getD 0

end Grammar

/-! ## Rules by number

Parsing works with the numbers of symbols.  The usable binary rules, those that were seen and whose
symbols are all known with a parent that was seen, are listed by parent, and the unary rules of
known parents are listed by word.  Both lists keep the order of the tallies.
-/

/-- A usable binary rule, by the numbers of its symbols. -/
structure IndexedRule where
  parent : Nat
  left : Nat
  right : Nat
  probability : Weight
deriving DecidableEq, Repr

/-- A symbol that was counted as the parent of a word. -/
structure LexicalEntry where
  symbol : Nat
  count : Nat
deriving DecidableEq, Repr

namespace Grammar

/-- The indexed form of a counted rule, if it is usable. -/
def indexedRule? (g : Grammar) (rule : BinaryRule) (count : Nat) : Option IndexedRule :=
  if count = 0 then none
  else do
    let parent ← g.symbols.position? rule.parent
    let left ← g.symbols.position? rule.left
    let right ← g.symbols.position? rule.right
    let probability ← Weight.relativeFrequency? count (g.symbols.count rule.parent)
    some { parent, left, right, probability }

def indexedRules (g : Grammar) : List IndexedRule :=
  g.binaryRules.entries.filterMap fun (rule, count) ↦ g.indexedRule? rule count

/-- The usable binary rules of a parent. -/
def rulesFor (g : Grammar) (parent : Nat) : List IndexedRule :=
  g.indexedRules.filter (·.parent = parent)

/-- The usable binary rules of each symbol, in the order of the symbols. -/
def ruleIndex (g : Grammar) : List (List IndexedRule) :=
  let rules := g.indexedRules
  (List.range g.symbols.size).map fun parent ↦ rules.filter (·.parent = parent)

/-- The symbols counted as parents of a word. -/
def lexicon (g : Grammar) (word : String) : List LexicalEntry :=
  g.unaryRules.entries.filterMap fun (rule, count) ↦
    if rule.word = word then (g.symbols.position? rule.parent).map (⟨·, count⟩) else none

/-- Adds a count to a total.  A total past the greatest count starts again from zero. -/
def addCount (total count : Nat) : Nat :=
  (total + count) % (Record.maxCount + 1)

/-- How often a word is counted as seen: its counts under known parents, added one by one. -/
def wordCount (g : Grammar) (word : String) : Nat :=
  (g.lexicon word).foldl (fun total entry ↦ addCount total entry.count) 0

/-- The symbols that expand into a word, each with the probability that it does. -/
def lexicalWeights (g : Grammar) (word : String) : List (Nat × Weight) :=
  (g.lexicon word).filterMap fun entry ↦
    if entry.count = 0 then none
    else
      (Weight.relativeFrequency? entry.count (g.symbols.countAt entry.symbol)).map (entry.symbol, ·)

/-- Two grammars are equivalent when their tallies agree and they list the same rules for each
symbol and each word in the same order. -/
def Equivalent (g h : Grammar) : Prop :=
  g.symbols.Agrees h.symbols ∧ g.binaryRules.Agrees h.binaryRules ∧
    g.unaryRules.Agrees h.unaryRules ∧ g.ruleIndex = h.ruleIndex ∧
    ∀ rule ∈ g.unaryRules.keys, g.lexicon rule.word = h.lexicon rule.word

instance (g h : Grammar) : Decidable (g.Equivalent h) :=
  inferInstanceAs (Decidable (_ ∧ _ ∧ _ ∧ _ ∧ _))

end Grammar

/-! ## Rare words

A word that was seen too seldom is looked up under a placeholder, which stands for all rare words.
-/

/-- When a word is rare, and what stands for it. -/
structure RareWords where
  /-- A word seen less often is rare. -/
  threshold : Nat := 5
  placeholder : String := "_RARE_"
deriving DecidableEq, Repr

namespace RareWords

def IsRare (policy : RareWords) (g : Grammar) (word : String) : Prop :=
  g.wordCount word < policy.threshold

instance (policy : RareWords) (g : Grammar) (word : String) : Decidable (policy.IsRare g word) :=
  inferInstanceAs (Decidable (_ < _))

/-- The word that a word is looked up as. -/
def resolve (policy : RareWords) (g : Grammar) (word : String) : String :=
  if policy.IsRare g word then policy.placeholder else word

variable {g h : Grammar} {word : String}

theorem isRare_iff_of_wordCount_eq (hcount : g.wordCount word = h.wordCount word)
    (policy : RareWords) : policy.IsRare g word ↔ policy.IsRare h word := by
  rw [IsRare, IsRare, hcount]

/-- How often a word was seen decides what it is looked up as. -/
theorem resolve_eq_of_wordCount_eq (hcount : g.wordCount word = h.wordCount word)
    (policy : RareWords) : policy.resolve g word = policy.resolve h word :=
  ite_congr (propext (isRare_iff_of_wordCount_eq hcount policy)) (fun _ ↦ rfl) fun _ ↦ rfl

end RareWords

/-! ## Notices on training

After training, every rule that cannot be used as it was counted is reported, binary rules before
unary ones, each in the order of its tally, and the sizes of the tallies are reported last.
-/

namespace Grammar

/-- What is worth saying about a trained grammar. -/
inductive Notice where
  /-- A binary rule is left out because one of its symbols is not known. -/
  | unknownSymbol (rule : BinaryRule)
  /-- A binary rule was seen more often than its parent. -/
  | binaryOutnumbers (rule : BinaryRule)
  /-- A binary rule is left out because its parent was not seen. -/
  | binaryUndefined (rule : BinaryRule)
  /-- A unary rule is left out because its parent is not known. -/
  | unknownParent (rule : UnaryRule)
  /-- A unary rule was seen and its parent was not. -/
  | unaryUndefined (rule : UnaryRule)
  /-- A unary rule was seen more often than its parent. -/
  | unaryOutnumbers (rule : UnaryRule)
  /-- The number of symbols and rules after training. -/
  | trained (symbols binaryRules unaryRules : Nat)
deriving DecidableEq, Repr

def Notice.text : Notice → String
  | unknownSymbol rule => s!"WARN Skipping binary rule {rule}: symbol is not a known nonterminal"
  | binaryOutnumbers rule =>
    s!"WARN Binary rule {rule} outnumbers its nonterminal, probability clamped to 1"
  | binaryUndefined rule =>
    let fault : UndefinedProbability := ⟨rule.parent⟩
    s!"WARN Skipping binary rule {rule}: {fault.message}"
  | unknownParent rule => s!"WARN Unary rule {rule} has an unknown nonterminal"
  | unaryUndefined rule =>
    let fault : UndefinedProbability := ⟨rule.parent⟩
    s!"WARN Unary rule {rule}: {fault.message}"
  | unaryOutnumbers rule =>
    s!"WARN Unary rule {rule} outnumbers its nonterminal, probability clamped to 1"
  | trained symbols binaryRules unaryRules =>
    let sizes := s!"binary_rules={binaryRules} unary_rules={unaryRules}"
    s!"INFO trained grammar non_terminals={symbols} {sizes}"

/-- The notices on a counted binary rule.  A rule that was never seen is passed over. -/
def binaryNotices (g : Grammar) (rule : BinaryRule) (count : Nat) : List Notice :=
  if count = 0 then []
  else if rule.parent ∈ g.symbols ∧ rule.left ∈ g.symbols ∧ rule.right ∈ g.symbols then
    let total := g.symbols.count rule.parent
    (if total < count then [.binaryOutnumbers rule] else []) ++
      (if total = 0 then [.binaryUndefined rule] else [])
  else [.unknownSymbol rule]

/-- The notices on a counted unary rule. -/
def unaryNotices (g : Grammar) (rule : UnaryRule) (count : Nat) : List Notice :=
  if rule.parent ∈ g.symbols then
    let total := g.symbols.count rule.parent
    if count ≤ total then []
    else if total = 0 then [.unaryUndefined rule]
    else [.unaryOutnumbers rule]
  else [.unknownParent rule]

/-- The notices on all counted rules. -/
def warnings (g : Grammar) : List Notice :=
  (g.binaryRules.entries.flatMap fun (rule, count) ↦ g.binaryNotices rule count) ++
    (g.unaryRules.entries.flatMap fun (rule, count) ↦ g.unaryNotices rule count)

/-- Everything there is to say about a grammar. -/
def notices (g : Grammar) : List Notice :=
  g.warnings ++ [.trained g.symbols.size g.binaryRules.size g.unaryRules.size]

end Grammar

end StochasticGrammar
