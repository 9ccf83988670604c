import StochasticGrammar.Proofs.Grammar.History
import StochasticGrammar.Proofs.Parse.Batch
import StochasticGrammar.Proofs.Parse.Outcome
import StochasticGrammar.Proofs.Record.Writing
import StochasticGrammar.Proofs.Text.Utf8
import StochasticGrammar.Proofs.Tree.Writing

/-!
# Lines of output and lines of input

Every line of a text that is not blank is answered by one line of output, which depends on it alone:
its tree, whose words are those of the line, or a line that says that there is none.  Nothing in a
line of input ends a line of output, and neither do the labels of a tree as long as no symbol holds
a line feed.  Symbols that are read from counts files never do.
-/

namespace StochasticGrammar

/-! ## Lines that are not blank -/

/-- The text of a line between its blanks. -/
def trimmedLine (line : List UInt8) : List Char :=
  Text.trim (Text.Utf8.decodeLossy line)

/-- The words of a line, with a single space between one and the next. -/
def lineWords (line : List UInt8) : List String :=
  (Text.pieces (· = ' ') (trimmedLine line)).map String.ofList

/-- The lines of a text that do not consist of blanks. -/
def filledLines (bytes : List UInt8) : List (List UInt8) :=
  (Text.lines (· = Text.lineFeed) bytes).filter fun line ↦
    ¬Text.AllBlank (Text.Utf8.decodeLossy line)

theorem sentence?_decodeLossy (line : List UInt8) :
    sentence? (Text.Utf8.decodeLossy line) =
      if ¬Text.AllBlank (Text.Utf8.decodeLossy line) then some (lineWords line) else none := by
  by_cases hblank : Text.AllBlank (Text.Utf8.decodeLossy line)
  · rw [if_neg (not_not_intro hblank), sentence?, Text.trim_of_allBlank hblank]
    rfl
  · rw [if_pos hblank]
    exact if_neg (mt (fun hempty ↦ Text.trim_eq_nil_iff.mp (List.isEmpty_iff.mp hempty)) hblank)

/-- The sentences of a text are the words of the lines that are not blank. -/
theorem sentences_eq_map_lineWords (bytes : List UInt8) :
    sentences bytes = (filledLines bytes).map lineWords := by
  unfold sentences filledLines
  rw [← List.filterMap_eq_map, List.filterMap_filter]
  apply List.filterMap_congr
  intro line _
  rw [sentence?_decodeLossy]
  simp

theorem lineWords_ne_nil (line : List UInt8) : lineWords line ≠ [] :=
  mt List.map_eq_nil_iff.mp (Text.pieces_ne_nil (trimmedLine line))

/-- The words with spaces between them are the text of the line, however many spaces it has. -/
theorem sentenceText_lineWords (line : List UInt8) :
    sentenceText (lineWords line) = String.ofList (trimmedLine line) := by
  have hpieces := Text.intercalate_pieces ' ' (trimmedLine line)
  apply String.toList_injective
  rw [sentenceText, String.toList_intercalate, lineWords, List.map_map, String.toList_ofList]
  simpa using hpieces

/-! ## Line feeds -/

variable {bytes line : List UInt8}

theorem lineFeed_not_mem_of_mem_filledLines (h : line ∈ filledLines bytes) :
    Text.lineFeed ∉ line :=
  Text.not_mem_of_isBreak (Text.isBreak_of_mem_lines (List.mem_of_mem_filter h))

theorem lineFeed_not_mem_trimmedLine (h : Text.lineFeed ∉ line) : '\n' ∉ trimmedLine line := by
  obtain ⟨before, after, hline, -⟩ := Text.trims_trim (Text.Utf8.decodeLossy line)
  have hdecoded := Text.Utf8.lineFeed_not_mem_decodeLossy h
  rw [hline, List.mem_append, List.mem_append, not_or, not_or] at hdecoded
  exact hdecoded.1.2

theorem lineFeed_not_mem_of_mem_lineWords (h : Text.lineFeed ∉ line) {word : String}
    (hword : word ∈ lineWords line) : '\n' ∉ word.toList := by
  obtain ⟨piece, hpiece, rfl⟩ := List.mem_map.mp hword
  intro hmem
  rw [String.toList_ofList] at hmem
  have htext : '\n' ∈ [' '].intercalate (Text.pieces (· = ' ') (trimmedLine line)) :=
    Text.mem_intercalate_of_mem hpiece hmem
  rw [Text.intercalate_pieces] at htext
  exact lineFeed_not_mem_trimmedLine h htext

/-! ## Trees on one line -/

namespace Tree

/-- The labels of the nodes, each before those below it. -/
def labels : Tree → List String
  | leaf label _ => [label]
  | node label left right => label :: (left.labels ++ right.labels)

variable {g : Grammar} {policy : RareWords} {tree : Tree}

theorem Attested.labels_mem (h : tree.Attested g policy) :
    ∀ label ∈ tree.labels, label ∈ g.symbols := by
  induction tree with
  | leaf label word => exact List.forall_mem_singleton.mpr h.label_mem
  | node label left right ihLeft ihRight =>
    exact List.forall_mem_cons.mpr ⟨h.label_mem,
      List.forall_mem_append.mpr ⟨ihLeft h.2.2.1, ihRight h.2.2.2⟩⟩

/-- Brackets add no line feed to those of the labels and words. -/
theorem lineFeed_not_mem_bracketed (hlabels : ∀ label ∈ tree.labels, '\n' ∉ label.toList)
    (hwords : ∀ word ∈ tree.words, '\n' ∉ word.toList) : '\n' ∉ tree.bracketed.toList := by
  induction tree with
  | leaf label word =>
    have hlabel := hlabels label List.mem_cons_self
    have hword := hwords word List.mem_cons_self
    simp [bracketed, hlabel, hword]
  | node label left right ihLeft ihRight =>
    rw [labels, List.forall_mem_cons, List.forall_mem_append] at hlabels
    rw [words, List.forall_mem_append] at hwords
    have hleft := ihLeft hlabels.2.1 hwords.1
    have hright := ihRight hlabels.2.2 hwords.2
    simp [bracketed, hlabels.1, hleft, hright]

theorem lineFeed_not_mem_json (tree : Tree) : '\n' ∉ tree.json.toList := by
  intro hmem
  exact absurd (tree.space_le_of_mem_json _ hmem) (by decide)

end Tree

/-! ## Symbols on one line -/

namespace Grammar

/-- No symbol holds a line feed. -/
def SymbolsOnOneLine (g : Grammar) : Prop :=
  ∀ symbol ∈ g.symbols, '\n' ∉ symbol.toList

/-- The grammars that any number of trainings on counts files lead to from the empty one. -/
inductive OfFiles : Grammar → Prop
  | empty : OfFiles ∅
  | train {g : Grammar} (hg : OfFiles g) {mode : Record.Mode} {path : String} {bytes : List UInt8}
      {records : List Record}
      (hrecords : (Record.Reading.ofBytes mode path bytes).outcome = .ok records) :
      OfFiles (g.train records)

theorem symbolsOnOneLine_empty : SymbolsOnOneLine ∅ := by
  intro symbol hsymbol
  cases hsymbol

theorem SymbolsOnOneLine.add {g : Grammar} (hg : g.SymbolsOnOneLine) {record : Record}
    (hrecord : record.IsPlain) : (g.add record).SymbolsOnOneLine := by
  cases record with
  | nonterminal symbol count =>
    have hsymbol := (hrecord.isPart symbol List.mem_cons_self).isBlank
    intro other hother
    rw [Grammar.add, Tally.mem_def, Tally.keys_insert] at hother
    split_ifs at hother
    · exact hg other hother
    · rcases List.mem_append.mp hother with hmem | hmem
      · exact hg other hmem
      · rw [List.mem_singleton.mp hmem]
        exact Record.lineFeed_not_mem_of_not_isBlank hsymbol
  | binary rule count => exact hg
  | unary rule count => exact hg

theorem SymbolsOnOneLine.train {g : Grammar} (hg : g.SymbolsOnOneLine) {records : List Record}
    (hrecords : ∀ record ∈ records, record.IsPlain) : (g.train records).SymbolsOnOneLine := by
  induction records generalizing g with
  | nil => exact hg
  | cons record rest ih =>
    rw [List.forall_mem_cons] at hrecords
    exact ih (hg.add hrecords.1) hrecords.2

/-- The fields of records that were read hold no blanks. -/
theorem OfFiles.symbolsOnOneLine {g : Grammar} (hg : g.OfFiles) : g.SymbolsOnOneLine := by
  induction hg with
  | empty => exact symbolsOnOneLine_empty
  | train _ hrecords ih => exact ih.train (Record.isPlain_of_ofLines hrecords)

end Grammar

/-! ## Answers to lines -/

namespace Grammar

variable (g : Grammar) (options : ParseOptions) (format : TreeFormat)

/-- The words of a line have a parse. -/
def Parses (line : List UInt8) : Prop :=
  ∃ parse, g.parse options (lineWords line) = .ok parse

theorem parse_cases {words : List String} (hwords : words ≠ []) :
    (∃ parse, g.parse options words = .ok parse) ∨ g.parse options words = .error .noParse := by
  cases hroot : (Chart.fill g options.rareWords words).root? g options.startSymbol with
  | none => exact Or.inr (parse_of_root?_eq_none hwords hroot)
  | some root =>
    obtain ⟨parse, hparse, -⟩ := exists_parse_of_root? hwords hroot
    exact Or.inl ⟨parse, hparse⟩

/-- A line has a word at least, so it is never taken for an empty sentence. -/
theorem parse_lineWords_ne_emptySentence (line : List UInt8) :
    g.parse options (lineWords line) ≠ .error .emptySentence := by
  intro hempty
  rcases g.parse_cases options (lineWords_ne_nil line) with ⟨parse, hparse⟩ | hnone
  · rw [hparse] at hempty
    cases hempty
  · rw [hnone] at hempty
    cases hempty

theorem not_parses_iff (line : List UInt8) :
    ¬g.Parses options line ↔ g.parse options (lineWords line) = .error .noParse := by
  constructor
  · intro h
    exact (g.parse_cases options (lineWords_ne_nil line)).resolve_left h
  · rintro h ⟨parse, hparse⟩
    rw [h] at hparse
    cases hparse

instance (line : List UInt8) : Decidable (g.Parses options line) :=
  decidable_of_iff (¬g.parse options (lineWords line) = .error .noParse) <| by
    rw [← not_parses_iff, not_not]

/-- What is written for a line. -/
def answer (line : List UInt8) : String :=
  match g.parse options (lineWords line) with
  | .ok parse => parse.tree.render format
  | .error _ => Report.unparsedLine (lineWords line) format

/-- The written line answers the line, and no other. -/
structure Answers (line : List UInt8) (written : String) : Prop where
  /-- A text of this line alone gives the written line. -/
  alone : (g.parseText options format line).output = written ++ "\n"
  lineFeed : '\n' ∉ written.toList
  ne_emptySentence : g.parse options (lineWords line) ≠ .error .emptySentence
  tree : ∀ parse, g.parse options (lineWords line) = .ok parse →
    written = parse.tree.render format ∧
      sentenceText parse.tree.words = String.ofList (trimmedLine line)
  null : format = .json → (written = "null" ↔ ¬g.Parses options line)
  unparsed : format = .bracketed → ¬g.Parses options line →
    written = "(NOPARSE " ++ String.ofList (trimmedLine line) ++ ")"

variable {g options format}

theorem answer_of_parse {line : List UInt8} {parse : Parse}
    (h : g.parse options (lineWords line) = .ok parse) :
    g.answer options format line = parse.tree.render format := by
  unfold answer
  rw [h]

theorem answer_of_not_parses {line : List UInt8} (h : ¬g.Parses options line) :
    g.answer options format line = Report.unparsedLine (lineWords line) format := by
  unfold answer
  rw [(g.not_parses_iff options line).mp h]

/-- The report on the words of a line. -/
theorem ofOutcome_parseTree_lineWords (line : List UInt8) :
    Report.ofOutcome format (lineWords line) (g.parseTree options (lineWords line)) =
      { output := g.answer options format line ++ "\n"
        failures := if g.Parses options line then 0 else 1
        notices := if g.Parses options line then [] else [⟨lineWords line, .noParse⟩] } := by
  by_cases hparses : g.Parses options line
  · obtain ⟨parse, hparse⟩ := hparses
    rw [if_pos ⟨parse, hparse⟩, if_pos ⟨parse, hparse⟩, answer_of_parse hparse, parseTree, hparse]
    rfl
  · rw [if_neg hparses, if_neg hparses, answer_of_not_parses hparses, parseTree,
      (g.not_parses_iff options line).mp hparses]
    rfl

/-- The report on lines, one after another. -/
theorem concat_map_lineWords (lines : List (List UInt8)) :
    Report.concat ((lines.map lineWords).map fun words ↦
        .ofOutcome format words (g.parseTree options words)) =
      { output := String.join (lines.map fun line ↦ g.answer options format line ++ "\n")
        failures := lines.countP fun line ↦ ¬g.Parses options line
        notices := (lines.filter fun line ↦ ¬g.Parses options line).map fun line ↦
          ⟨lineWords line, .noParse⟩ } := by
  induction lines with
  | nil => rfl
  | cons line lines ih =>
    simp only [List.map_cons, Report.concat_cons]
    rw [ih, ofOutcome_parseTree_lineWords, Report.append_eq, String.join_cons]
    by_cases hparses : g.Parses options line
    · simp [hparses]
    · simp [hparses, Nat.add_comm]

theorem parseText_eq (bytes : List UInt8) :
    g.parseText options format bytes =
      { output := String.join
          ((filledLines bytes).map fun line ↦ g.answer options format line ++ "\n")
        failures := (filledLines bytes).countP fun line ↦ ¬g.Parses options line
        notices := ((filledLines bytes).filter fun line ↦ ¬g.Parses options line).map fun line ↦
          ⟨lineWords line, .noParse⟩ } := by
  rw [parseText, sentences_eq_map_lineWords, concat_map_lineWords]

/-! ## One line for each -/

/-- A line by itself is a text of one line. -/
theorem filledLines_self {line : List UInt8} (h : line ∈ filledLines bytes) :
    filledLines line = [line] := by
  have hfeed := lineFeed_not_mem_of_mem_filledLines h
  have hfilled := (List.mem_filter.mp h).2
  have hne : line ≠ [] := by
    rintro rfl
    exact absurd hfilled (by decide)
  rw [filledLines, Text.lines_of_no_break (Text.isBreak_of_not_mem hfeed) hne]
  exact List.filter_eq_self.mpr (List.forall_mem_singleton.mpr hfilled)

theorem lineFeed_not_mem_render {line : List UInt8} (hline : Text.lineFeed ∉ line)
    (hsymbols : format = .bracketed → g.SymbolsOnOneLine) {parse : Parse}
    (hparse : g.parse options (lineWords line) = .ok parse) :
    '\n' ∉ (parse.tree.render format).toList := by
  obtain ⟨-, root, hat⟩ := exists_root?_of_parse hparse
  cases format with
  | json => exact parse.tree.lineFeed_not_mem_json
  | bracketed =>
    apply Tree.lineFeed_not_mem_bracketed
    · exact fun label hlabel ↦ hsymbols rfl label (hat.attested.labels_mem label hlabel)
    · rw [hat.leaves]
      exact fun word hword ↦ lineFeed_not_mem_of_mem_lineWords hline hword

theorem lineFeed_not_mem_unparsedLine {line : List UInt8} (hline : Text.lineFeed ∉ line) :
    '\n' ∉ (Report.unparsedLine (lineWords line) format).toList := by
  cases format with
  | json => exact (by decide : '\n' ∉ "null".toList)
  | bracketed =>
    have htext := lineFeed_not_mem_trimmedLine hline
    simp [Report.unparsedLine, sentenceText_lineWords, htext]

/-- A line that is not blank is answered, unless a symbol in brackets breaks the line. -/
theorem answers_answer {line : List UInt8} (h : line ∈ filledLines bytes)
    (hsymbols : format = .bracketed → g.SymbolsOnOneLine) :
    g.Answers options format line (g.answer options format line) where
  alone := by
    rw [parseText_eq, filledLines_self h, List.map_singleton, String.join_cons, String.join_nil,
      String.append_empty]
  lineFeed := by
    have hline := lineFeed_not_mem_of_mem_filledLines h
    by_cases hparses : g.Parses options line
    · obtain ⟨parse, hparse⟩ := hparses
      rw [answer_of_parse hparse]
      exact lineFeed_not_mem_render hline hsymbols hparse
    · rw [answer_of_not_parses hparses]
      exact lineFeed_not_mem_unparsedLine hline
  ne_emptySentence := g.parse_lineWords_ne_emptySentence options line
  tree parse hparse := by
    obtain ⟨-, root, hat⟩ := exists_root?_of_parse hparse
    rw [hat.leaves]
    exact ⟨answer_of_parse hparse, sentenceText_lineWords line⟩
  null hformat := by
    subst hformat
    constructor
    · rintro hnull ⟨parse, hparse⟩
      rw [answer_of_parse hparse] at hnull
      exact parse.tree.json_ne_null hnull
    · exact answer_of_not_parses
  unparsed hformat hparses := by
    subst hformat
    rw [answer_of_not_parses hparses, ← sentenceText_lineWords]
    rfl

/-- Where the counts of words are checked, it is the words of the lines that count. -/
theorem byLoop?_filledLines (g : Grammar) (options : ParseOptions) (format : TreeFormat)
    (bytes : List UInt8) :
    Report.byLoop? (g.parseTree? options) format bytes =
      if ∀ line ∈ filledLines bytes, ∀ word ∈ lineWords line, g.AddsUp word then
        some (g.parseText options format bytes)
      else none := by
  rw [byLoop?_parseTree?, sentences_eq_map_lineWords]
  simp only [List.forall_mem_map]

/-- What is written for a text is one line for each of its lines that is not blank, and the
sentences without a parse are those that are counted and noticed.  A loop over the text that checks
the counts of words as it adds them up writes the same, unless those of some word are too many. -/
theorem parseText_answers_each_line :
    (∀ (g : Grammar) options format bytes, (format = .bracketed → g.SymbolsOnOneLine) →
      let report := g.parseText options format bytes
      (∃ written, report.output = String.join (written.map (· ++ "\n")) ∧
        List.Forall₂ (g.Answers options format) (filledLines bytes) written) ∧
      (report.failures = (filledLines bytes).countP fun line ↦ ¬g.Parses options line) ∧
      report.failures = report.notices.length ∧
      (report.notices = ((filledLines bytes).filter fun line ↦ ¬g.Parses options line).map
        fun line ↦ ⟨lineWords line, .noParse⟩) ∧
      Report.byLoop? (g.parseTree? options) format bytes =
        if ∀ line ∈ filledLines bytes, ∀ word ∈ lineWords line, g.AddsUp word then some report
        else none) ∧
    ∀ g : Grammar, g.OfFiles → g.SymbolsOnOneLine := by
  refine ⟨?_, fun g hg ↦ hg.symbolsOnOneLine⟩
  intro g options format bytes hsymbols report
  have hreport : report = _ := parseText_eq bytes
  refine ⟨⟨(filledLines bytes).map (g.answer options format), ?_, ?_⟩, ?_, ?_, ?_,
    g.byLoop?_filledLines options format bytes⟩
  · rw [hreport, List.map_map]
    rfl
  · rw [List.forall₂_map_right_iff, List.forall₂_same]
    exact fun line hline ↦ answers_answer hline hsymbols
  · rw [hreport]
  · rw [hreport, List.length_map, List.countP_eq_length_filter]
  · rw [hreport]

/-- A word, a blank line, and two words with two spaces between them. -/
theorem parseText_answers_three_lines :
    let g := ofRecords [.nonterminal "S" 9, .unary ⟨"S", "a"⟩ 9]
    let bytes : List UInt8 := [0x61, 0x0A, 0x20, 0x0A, 0x62, 0x20, 0x20, 0x61]
    let report := g.parseText {} .bracketed bytes
    g.OfFiles ∧ g.SymbolsOnOneLine ∧ report.output = "(S a)\n(NOPARSE b  a)\n" ∧
      ∃ written, report.output = String.join (written.map (· ++ "\n")) ∧
        List.Forall₂ (g.Answers {} .bracketed) (filledLines bytes) written := by
  intro g bytes report
  have hread : (Record.Reading.ofBytes .strict "counts"
      (Text.Utf8.encode "9 NONTERMINAL S\n9 UNARYRULE S a".toList)).outcome =
        .ok [.nonterminal "S" 9, .unary ⟨"S", "a"⟩ 9] := by
    decide +kernel
  have hfiles : g.OfFiles := .train .empty hread
  have hsymbols : g.SymbolsOnOneLine := parseText_answers_each_line.2 g hfiles
  have hanswers := parseText_answers_each_line.1 g {} .bracketed bytes fun _ ↦ hsymbols
  exact ⟨hfiles, hsymbols, by decide +kernel, hanswers.1⟩

end Grammar

end StochasticGrammar
