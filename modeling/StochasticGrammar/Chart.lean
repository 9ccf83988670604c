import StochasticGrammar.Grammar
import StochasticGrammar.Tree
import StochasticGrammar.Weight

/-!
# Charts of sentences

A sentence is parsed by filling a chart with the best score of every symbol over every span, from
the single words up.  The tree of an entry is recovered from the splits that the chart keeps.
-/

namespace StochasticGrammar

/-! ## Charts

A chart records, for every span of a sentence and every symbol, the best score of a derivation of
the span from the symbol, and how that derivation starts.  Spans are given by the positions of their
first and last word and are kept by level: level `k` holds the spans of `k + 1` words, by first
position.  Symbols that derive nothing have no entry, and whatever lies outside the chart is empty.
-/

/-- How the best derivation of a span starts. -/
inductive Origin where
  /-- With the word that the span consists of. -/
  | word
  /-- With a binary rule, whose left symbol derives the span up to the word at `point`. -/
  | split (point left right : Nat)
deriving DecidableEq, Repr

structure Entry where
  score : Weight
  origin : Origin
deriving DecidableEq, Repr

/-- The entries of a span, by the numbers of their symbols. -/
abbrev Cell := Array (Option Entry)

structure Chart where
  /-- The number of words. -/
  length : Nat
  levels : Array (Array Cell)

namespace Chart

/-- The entries of the span from `i` to `j`. -/
def cell (chart : Chart) (i j : Nat) : Cell :=
  if i ≤ j then ((chart.levels[j - i]?).bind (·[i]?)).getD #[] else #[]

def entry? (chart : Chart) (i j symbol : Nat) : Option Entry :=
  (chart.cell i j)[symbol]?.join

/-- The score of a symbol over a span, zero if it has no entry. -/
def score (chart : Chart) (i j symbol : Nat) : Weight :=
  match chart.entry? i j symbol with
  | some entry => entry.score
  | none => 0

/-- The symbols with an entry over a span, in the order of their numbers. -/
def entries (chart : Chart) (i j : Nat) : List (Nat × Entry) :=
  (chart.cell i j).toList.zipIdx.filterMap fun (entry, symbol) ↦ entry.map (symbol, ·)

end Chart

/-! ## Filling a chart

The spans of one word are filled from the lexicon.  A longer span is filled from shorter ones: for
each symbol, every usable rule and every split is a candidate, rules first and splits from left to
right, and the first candidate of greatest positive score is kept.
-/

namespace Chart

/-- The entries of a word, one for each symbol that expands into what the word is looked up as. -/
def wordCell (g : Grammar) (policy : RareWords) (word : String) : Cell :=
  let weights := g.lexicalWeights (policy.resolve g word)
  let entries := (List.range g.symbols.size).map fun symbol ↦
    (weights.find? (·.1 = symbol)).map fun (_, weight) ↦ ⟨weight, .word⟩
  entries.toArray

/-- The entry for using a rule at a split. -/
def candidate (chart : Chart) (i j : Nat) (rule : IndexedRule) (point : Nat) : Entry where
  score := rule.probability * chart.score i point rule.left * chart.score (point + 1) j rule.right
  origin := .split point rule.left rule.right

/-- The entries for all rules of a symbol at all splits of a span. -/
def candidates (chart : Chart) (i j : Nat) (rules : List IndexedRule) : List Entry :=
  rules.flatMap fun rule ↦ (List.range' i (j - i)).map (chart.candidate i j rule)

/-- The chart of a sentence with its first level only. -/
def start (g : Grammar) (policy : RareWords) (words : List String) : Chart where
  length := words.length
  levels := #[(words.map (wordCell g policy)).toArray]

/-- The entries of a span of several words, from the rules of each symbol. -/
def spanCell (index : List (List IndexedRule)) (chart : Chart) (i j : Nat) : Cell :=
  let entries := index.map fun rules ↦ heaviest? Entry.score (chart.candidates i j rules)
  entries.toArray

/-- Adds the next level. -/
def grow (index : List (List IndexedRule)) (chart : Chart) : Chart :=
  let width := chart.levels.size
  let cells := (List.range (chart.length - width)).map fun i ↦ spanCell index chart i (i + width)
  { chart with levels := chart.levels.push cells.toArray }

/-- The full chart of a sentence. -/
def fill (g : Grammar) (policy : RareWords) (words : List String) : Chart :=
  Nat.repeat (grow g.ruleIndex) (words.length - 1) (start g policy words)

end Chart

/-! ## Failures to parse -/

/-- Why a sentence has no tree. -/
inductive ParseFault where
  | emptySentence
  | noParse
  /-- No derivation of the words from `first` to `last` from the symbol of this name is known. -/
  | missingDerivation (label : String) (first last : Nat)
deriving DecidableEq, Repr

def ParseFault.message : ParseFault → String
  | emptySentence => "sentence has no tokens"
  | noParse => "no nonterminal spans the whole sentence"
  | missingDerivation label first last =>
    s!"chart has no backpointer for '{label}' over [{first}, {last}]"

/-! ## Recovering trees from a chart

The origins in a chart spell out a best derivation of every entry.  Its tree has the given words at
the leaves, which need not be the words that the chart was filled from.
-/

namespace Chart

/-- The tree of a symbol over the words from `i` to `j`.  A single word is a leaf whether or not
the chart has an entry for it, and a split outside its span counts as no entry. -/
def recover (g : Grammar) (chart : Chart) (words : List String) (i j symbol : Nat) :
    Except ParseFault Tree :=
  let label := g.symbolName symbol
  if i = j then
    match words[i]? with
    | some word => .ok (.leaf label word)
    | none => .error (.missingDerivation label i j)
  else
    match (chart.entry? i j symbol).map Entry.origin with
    | some (.split point left right) =>
      if _h : i ≤ point ∧ point < j then
        match chart.recover g words i point left with
        | .error fault => .error fault
        | .ok leftTree =>
          match chart.recover g words (point + 1) j right with
          | .error fault => .error fault
          | .ok rightTree => .ok (.node label leftTree rightTree)
      else .error (.missingDerivation label i j)
    | _ => .error (.missingDerivation label i j)
termination_by j - i

end Chart

end StochasticGrammar
