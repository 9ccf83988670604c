import StochasticGrammar.Chart
import StochasticGrammar.Text.Reading
import StochasticGrammar.Tree

/-!
# Parsing

A sentence is parsed from its chart, and a text is parsed sentence by sentence.
-/

namespace StochasticGrammar

/-! ## Parsing a sentence

The root of a parse is the start symbol if it derives the sentence, and otherwise the first symbol
of greatest score.
-/

/-- How sentences are to be parsed. -/
structure ParseOptions where
  /-- The preferred root. -/
  startSymbol : String := "S"
  rareWords : RareWords := {}
deriving DecidableEq, Repr

/-- A tree of a sentence and its score. -/
structure Parse where
  tree : Tree
  score : Weight
deriving DecidableEq, Repr

/-- The symbols to choose a root from, the start symbol alone if it derives the words from `i` to
`j`. -/
def Chart.rootCandidates (chart : Chart) (g : Grammar) (startSymbol : String) (i j : Nat) :
    List Nat :=
  match g.symbols.position? startSymbol with
  | some start => if 0 < chart.score i j start then [start] else List.range g.symbols.size
  | none => List.range g.symbols.size

/-- The number of the symbol at the root of the whole sentence. -/
def Chart.root? (chart : Chart) (g : Grammar) (startSymbol : String) : Option Nat :=
  let last := chart.length - 1
  heaviest? (chart.score 0 last) (chart.rootCandidates g startSymbol 0 last)

/-- The best parse of a sentence. -/
def Grammar.parse (g : Grammar) (options : ParseOptions) (words : List String) :
    Except ParseFault Parse :=
  if words.isEmpty then .error .emptySentence
  else
    let chart := Chart.fill g options.rareWords words
    let last := chart.length - 1
    match chart.root? g options.startSymbol with
    | none => .error .noParse
    | some root =>
      match chart.recover g words 0 last root with
      | .error fault => .error fault
      | .ok tree => .ok { tree, score := chart.score 0 last root }

/-! ## Parsing a text line by line

Each line of a text that is not blank is a sentence, its words separated by single spaces.  Each
sentence gives one line of output: its tree, or a line that says that there is none.  A sentence
without a parse is noticed and counted, and does not affect the others.
-/

/-- The outcome of parsing a sentence: its tree or the reason why it has none. -/
abbrev Outcome := Except ParseFault Tree

/-- A sentence without a parse. -/
structure Unparsed where
  words : List String
  fault : ParseFault
deriving DecidableEq, Repr

/-- The words joined by single spaces. -/
def sentenceText (words : List String) : String :=
  " ".intercalate words

def Unparsed.text (unparsed : Unparsed) : String :=
  s!"WARN No parse for '{sentenceText unparsed.words}': {unparsed.fault.message}"

/-- What parsing sentences gives. -/
structure Report where
  output : String := ""
  failures : Nat := 0
  notices : List Unparsed := []

namespace Report

instance : Append Report where
  append first second :=
    { output := first.output ++ second.output
      failures := first.failures + second.failures
      notices := first.notices ++ second.notices }

/-- The line that stands for a sentence without a parse. -/
def unparsedLine (words : List String) : TreeFormat → String
  | .json => "null"
  | .bracketed => "(NOPARSE " ++ sentenceText words ++ ")"

/-- The report on one sentence.  A sentence without words has no line and no notice. -/
def ofOutcome (format : TreeFormat) (words : List String) : Outcome → Report
  | .ok tree => { output := tree.render format ++ "\n" }
  | .error .emptySentence => { failures := 1 }
  | .error fault =>
    { output := unparsedLine words format ++ "\n"
      failures := 1
      notices := [⟨words, fault⟩] }

def concat (reports : List Report) : Report :=
  reports.foldr (· ++ ·) {}

end Report

/-- The words of a line, unless it is blank. -/
def sentence? (line : List Char) : Option (List String) :=
  let text := Text.trim line
  if text.isEmpty then none else some ((Text.pieces (· = ' ') text).map String.ofList)

/-- The sentences of a text, one for each line that is not blank. -/
def sentences (bytes : List UInt8) : List (List String) :=
  (Text.lines (· = Text.lineFeed) bytes).filterMap fun line ↦ sentence? (Text.Utf8.decodeLossy line)

namespace Grammar

def parseTree (g : Grammar) (options : ParseOptions) (words : List String) : Outcome :=
  (g.parse options words).map Parse.tree

/-- Parses every sentence of a text. -/
def parseText (g : Grammar) (options : ParseOptions) (format : TreeFormat) (bytes : List UInt8) :
    Report :=
  .concat <| (sentences bytes).map fun words ↦
    .ofOutcome format words (g.parseTree options words)

end Grammar

end StochasticGrammar
