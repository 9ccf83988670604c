import StochasticGrammar.Parse
import StochasticGrammar.Proofs.Parse.Outcome
import StochasticGrammar.Proofs.Text.Pieces
import StochasticGrammar.Proofs.Text.Stretch

/-!
# Parsing texts

A text is parsed line by line.  Neither the lines around it nor the way in which the text is decoded
make a difference to a line, and a loop that reads line after line reports on the same sentences.
-/

namespace StochasticGrammar

/-! ## Texts in parts

The report on a text is the reports on its parts, one after another, wherever a line ends between
them.  Nothing is carried from one line to the next, so whatever stands in a line, and however it
fails, the reports on the lines around it are the same.
-/

namespace Report

theorem append_eq (first second : Report) : first ++ second =
    ⟨first.output ++ second.output, first.failures + second.failures,
      first.notices ++ second.notices⟩ := rfl

theorem empty_append (report : Report) : {} ++ report = report := by
  rw [append_eq, String.empty_append, Nat.zero_add, List.nil_append]

theorem append_empty (report : Report) : report ++ {} = report := by
  rw [append_eq, String.append_empty, Nat.add_zero, List.append_nil]

theorem append_assoc (first second third : Report) :
    first ++ second ++ third = first ++ (second ++ third) := by
  simp only [append_eq, String.append_assoc, Nat.add_assoc, List.append_assoc]

theorem concat_cons (report : Report) (reports : List Report) :
    concat (report :: reports) = report ++ concat reports := rfl

theorem concat_append (first second : List Report) :
    concat (first ++ second) = concat first ++ concat second := by
  induction first with
  | nil => exact (empty_append (concat second)).symm
  | cons report reports ih => rw [List.cons_append, concat_cons, concat_cons, ih, append_assoc]

end Report

/-! ### Sentences of parts of a text -/

/-- The bytes are empty or start with a line feed. -/
def StartsAfterLine (bytes : List UInt8) : Prop :=
  ∀ byte ∈ bytes.head?, byte = Text.lineFeed

theorem sentences_append {first : List UInt8} (h : EndsLine first) (second : List UInt8) :
    sentences (first ++ second) = sentences first ++ sentences second := by
  unfold sentences
  rw [h.lines_append, List.filterMap_append]

theorem sentences_line {line : List UInt8} (h : Text.lineFeed ∉ line) :
    sentences line = (sentence? (Text.Utf8.decodeLossy line)).toList := by
  by_cases hline : line = []
  · rw [hline]
    rfl
  · unfold sentences
    rw [Text.lines_of_no_break (Text.isBreak_of_not_mem h) hline, List.filterMap_cons]
    cases sentence? (Text.Utf8.decodeLossy line) <;> rfl

theorem sentences_append_lineFeed {line : List UInt8} (h : Text.lineFeed ∉ line)
    (rest : List UInt8) :
    sentences (line ++ Text.lineFeed :: rest) = sentences line ++ sentences rest := by
  rw [sentences_line h]
  unfold sentences
  rw [Text.lines_append_cons (Text.isBreak_of_not_mem h) (decide_eq_true rfl),
    List.filterMap_cons]
  cases sentence? (Text.Utf8.decodeLossy line) <;> rfl

theorem sentences_line_append {line after : List UInt8} (h : Text.lineFeed ∉ line)
    (hafter : StartsAfterLine after) :
    sentences (line ++ after) = sentences line ++ sentences after := by
  cases after with
  | nil => exact (congrArg sentences (List.append_nil line)).trans (List.append_nil _).symm
  | cons byte rest =>
    have hbyte : byte = Text.lineFeed := hafter byte rfl
    -- The line feed in front of the rest makes no sentence by itself.
    have hrest : sentences (Text.lineFeed :: rest) = sentences rest := rfl
    rw [hbyte, sentences_append_lineFeed h, hrest]

namespace Grammar

variable (g : Grammar) (options : ParseOptions) (format : TreeFormat)

theorem parseText_eq_of_sentences {bytes first second : List UInt8}
    (h : sentences bytes = sentences first ++ sentences second) :
    g.parseText options format bytes =
      g.parseText options format first ++ g.parseText options format second := by
  unfold parseText
  rw [h, List.map_append, Report.concat_append]

end Grammar

/-! ## Decoding line by line and all at once

A text is cut into lines before it is decoded.  Decoding it first and cutting it then gives the same
lines, whatever bytes it consists of, since a line feed is read as it stands and nothing broken
reaches over it.  So the report on a text is the report on what it is decoded to, written in UTF-8
again.
-/

section Decoding

namespace Text.Utf8

theorem decodeLossy_encode (text : List Char) : decodeLossy (encode text) = text := by
  have hreplace : (fun char? : Option Char ↦ char?.getD replacement) ∘ some = id := by
    funext c
    rfl
  rw [decodeLossy, decode_encode, List.map_map, hreplace, List.map_id]

/-- Decoding changes nothing exactly if the bytes are those of a text. -/
theorem encode_decodeLossy_eq_iff {bytes : List UInt8} :
    encode (decodeLossy bytes) = bytes ↔ ∃ text, bytes = encode text := by
  constructor
  · intro h
    exact ⟨_, h.symm⟩
  · rintro ⟨text, rfl⟩
    rw [decodeLossy_encode]

theorem decodeLossy_ne_nil {bytes : List UInt8} (h : bytes ≠ []) : decodeLossy bytes ≠ [] := by
  intro hnil
  have hread := readsAs_decodeLossy bytes
  rw [hnil] at hread
  cases hread
  exact h rfl

/-- The lines of the bytes are decoded to the lines of the text. -/
theorem map_decodeLossy_lines (bytes : List UInt8) :
    (lines (· = lineFeed) bytes).map decodeLossy = lines (· = '\n') (decodeLossy bytes) := by
  induction bytes using line_induction (· = lineFeed) with
  | nil => rfl
  | last line hline hne =>
    have hmem := not_mem_of_isBreak hline
    have htext := isBreak_of_not_mem (lineFeed_not_mem_decodeLossy hmem)
    rw [lines_of_no_break hline hne, lines_of_no_break htext (decodeLossy_ne_nil hne)]
    rfl
  | cons line separator rest hline hseparator ih =>
    have hmem := not_mem_of_isBreak hline
    have htext := isBreak_of_not_mem (lineFeed_not_mem_decodeLossy hmem)
    have hfeed : separator = lineFeed := of_decide_eq_true hseparator
    rw [lines_append_cons hline hseparator, List.map_cons, ih, hfeed,
      decodeLossy_append_lineFeed, lines_append_cons htext (decide_eq_true rfl)]

end Text.Utf8

open Text Text.Utf8

/-- The sentences of a decoded text. -/
def sentencesOf (text : List Char) : List (List String) :=
  (lines (· = '\n') text).filterMap sentence?

theorem sentences_eq_sentencesOf (bytes : List UInt8) :
    sentences bytes = sentencesOf (decodeLossy bytes) := by
  rw [sentences, sentencesOf, ← map_decodeLossy_lines, List.filterMap_map]
  rfl

theorem sentences_encode_decodeLossy (bytes : List UInt8) :
    sentences (encode (decodeLossy bytes)) = sentences bytes :=
  calc
    sentences (encode (decodeLossy bytes)) =
        sentencesOf (decodeLossy (encode (decodeLossy bytes))) := sentences_eq_sentencesOf _
    _ = sentencesOf (decodeLossy bytes) := by rw [decodeLossy_encode]
    _ = sentences bytes := (sentences_eq_sentencesOf bytes).symm

/-- The line feed that ends a line may as well be left on it. -/
theorem sentence?_append_lineFeed (line : List Char) :
    sentence? (line ++ ['\n']) = sentence? line := by
  obtain ⟨before, after, hline, hbefore, hafter, htrimmed⟩ := trims_trim line
  have hfeed : AllBlank (after ++ ['\n']) :=
    List.forall_mem_append.mpr ⟨hafter, List.forall_mem_singleton.mpr (by decide)⟩
  have htrim : trim (line ++ ['\n']) = trim line := by
    conv_lhs => rw [hline, List.append_assoc]
    exact trim_append hbefore hfeed htrimmed
  rw [sentence?, htrim]
  rfl

/-- Decoding a text line by line is decoding it as a whole. -/
theorem Grammar.parseText_of_decoded_text (bytes : List UInt8) :
    (∀ (g : Grammar) (options : ParseOptions) (format : TreeFormat),
      g.parseText options format bytes =
        g.parseText options format (encode (decodeLossy bytes))) ∧
    (lines (· = lineFeed) bytes).map decodeLossy = lines (· = '\n') (decodeLossy bytes) ∧
    (∀ line after, decodeLossy (line ++ lineFeed :: after) =
      decodeLossy line ++ '\n' :: decodeLossy after) ∧
    (∀ line, sentence? (decodeLossy (line ++ [lineFeed])) = sentence? (decodeLossy line)) ∧
    ((∀ text, decodeLossy (encode text) = text) ∧
      (encode (decodeLossy bytes) = bytes ↔ ∃ text, bytes = encode text)) ∧
    ∀ text, ReadsAs bytes text ↔ text = decodeLossy bytes := by
  refine ⟨?_, map_decodeLossy_lines bytes, decodeLossy_append_lineFeed, ?_,
    ⟨decodeLossy_encode, encode_decodeLossy_eq_iff⟩, fun _ ↦ readsAs_iff⟩
  · intro g options format
    rw [parseText, parseText, sentences_encode_decodeLossy]
  · intro line
    rw [decodeLossy_append_lineFeed]
    exact sentence?_append_lineFeed _

end Decoding

/-! ## The loop over a text

A text is read in a loop.  Each round clears the buffer, reads one line into it with the line feed
that ends it, and answers the sentence in it, if there is one.  The loop ends when nothing is left
to read, and it stops short at a sentence without an answer.  Its rounds report on the sentences of
the text in order, so it comes to the same as taking the sentences first.
-/

section Loop

open Text Text.Utf8

/-- What is still to be read, the line that was read last, and the report so far. -/
structure Reader where
  unread : List UInt8
  buffer : List UInt8 := []
  report : Report := {}

/-- Moves bytes to the end of the buffer, up to the next line feed and with it. -/
def readUntil (buffer : List UInt8) : List UInt8 → List UInt8 × List UInt8
  | [] => (buffer, [])
  | byte :: rest =>
    if byte = lineFeed then (buffer ++ [byte], rest) else readUntil (buffer ++ [byte]) rest

theorem readUntil_of_not_mem {line : List UInt8} (h : lineFeed ∉ line) (buffer : List UInt8) :
    readUntil buffer line = (buffer ++ line, []) := by
  induction line generalizing buffer with
  | nil => rw [readUntil, List.append_nil]
  | cons byte rest ih =>
    rw [List.mem_cons, not_or] at h
    rw [readUntil, if_neg (Ne.symm h.1), ih h.2, List.append_assoc, List.singleton_append]

theorem readUntil_append_lineFeed {line : List UInt8} (h : lineFeed ∉ line)
    (buffer rest : List UInt8) :
    readUntil buffer (line ++ lineFeed :: rest) = (buffer ++ line ++ [lineFeed], rest) := by
  induction line generalizing buffer with
  | nil => rw [List.nil_append, List.append_nil, readUntil, if_pos rfl]
  | cons byte later ih =>
    rw [List.mem_cons, not_or] at h
    rw [List.cons_append, readUntil, if_neg (Ne.symm h.1), ih h.2, List.append_assoc buffer,
      List.singleton_append]

theorem length_readUntil_lt (buffer : List UInt8) {unread : List UInt8} (h : unread ≠ []) :
    (readUntil buffer unread).2.length < unread.length := by
  induction unread generalizing buffer with
  | nil => exact absurd rfl h
  | cons byte rest ih =>
    rw [readUntil]
    split_ifs
    · exact Nat.lt_succ_self _
    · by_cases hrest : rest = []
      · rw [hrest]
        exact Nat.zero_lt_one
      · exact (ih _ hrest).trans (Nat.lt_succ_self _)

/-- The sentences of a text are that of the line which is read first and those of the rest. -/
theorem sentences_eq_of_readUntil (unread : List UInt8) :
    sentences unread =
      (sentence? (decodeLossy (readUntil [] unread).1)).toList ++
        sentences (readUntil [] unread).2 := by
  induction unread using line_induction (· = lineFeed) with
  | nil => rfl
  | last line hline hne =>
    have hmem := not_mem_of_isBreak hline
    rw [readUntil_of_not_mem hmem, List.nil_append, sentences_line hmem]
    exact (List.append_nil _).symm
  | cons line separator rest hline hseparator _ =>
    have hmem := not_mem_of_isBreak hline
    have hfeed : separator = lineFeed := of_decide_eq_true hseparator
    rw [hfeed, readUntil_append_lineFeed hmem, List.nil_append, sentences_append_lineFeed hmem,
      sentences_line hmem, decodeLossy_append_lineFeed]
    exact congrArg (Option.toList · ++ _) (sentence?_append_lineFeed _).symm

namespace Reader

/-- Clears the buffer and reads a line into it. -/
def readLine (reader : Reader) : Reader :=
  { reader with
    buffer := (readUntil [] reader.unread).1
    unread := (readUntil [] reader.unread).2 }

variable (answer? : List String → Option Outcome) (format : TreeFormat)

/-- Reports on the line in the buffer, unless its sentence has no answer. -/
def answerLine? (reader : Reader) : Option Reader :=
  match sentence? (decodeLossy reader.buffer) with
  | none => some reader
  | some words =>
    (answer? words).map fun outcome ↦
      { reader with report := reader.report ++ .ofOutcome format words outcome }

theorem unread_of_answerLine? {reader next : Reader}
    (h : reader.answerLine? answer? format = some next) : next.unread = reader.unread := by
  rw [answerLine?] at h
  split at h
  · cases h
    rfl
  · obtain ⟨outcome, -, rfl⟩ := Option.map_eq_some_iff.mp h
    rfl

/-- Reads line by line until nothing is left. -/
def run? (reader : Reader) : Option Reader :=
  if _hunread : reader.unread = [] then some { reader with buffer := [] }
  else
    match _hnext : reader.readLine.answerLine? answer? format with
    | none => none
    | some next => run? next
termination_by reader.unread.length
decreasing_by
  rw [unread_of_answerLine? answer? format _hnext]
  exact length_readUntil_lt [] _hunread

theorem run?_of_unread_eq_nil {reader : Reader} (h : reader.unread = []) :
    reader.run? answer? format = some { reader with buffer := [] } := by
  rw [run?, dif_pos h]

/-- One round is a step of the run. -/
theorem run?_of_unread_ne_nil {reader : Reader} (h : reader.unread ≠ []) :
    reader.run? answer? format =
      (reader.readLine.answerLine? answer? format).bind (run? answer? format) := by
  rw [run?, dif_neg h]
  split
  · next hnext => rw [hnext, Option.bind_none]
  · next next hnext => rw [hnext, Option.bind_some]

end Reader

/-! ### What the loop reports -/

namespace Report

/-- The reports on sentences in order, if all of them have an answer. -/
def ofSentences? (answer? : List String → Option Outcome) (format : TreeFormat) :
    List (List String) → Option Report
  | [] => some {}
  | words :: later => do
    let outcome ← answer? words
    let rest ← ofSentences? answer? format later
    some (.ofOutcome format words outcome ++ rest)

/-- The report of the loop over a text. -/
def byLoop? (answer? : List String → Option Outcome) (format : TreeFormat) (bytes : List UInt8) :
    Option Report :=
  (Reader.run? answer? format { unread := bytes }).map Reader.report

variable (answer? : List String → Option Outcome) (format : TreeFormat)

theorem ofSentences?_append (first second : List (List String)) :
    ofSentences? answer? format (first ++ second) =
      (ofSentences? answer? format first).bind fun report ↦
        (ofSentences? answer? format second).map (report ++ ·) := by
  induction first with
  | nil =>
    rw [List.nil_append, ofSentences?, Option.bind_some]
    simp only [empty_append, Option.map_id']
  | cons words later ih =>
    rw [List.cons_append, ofSentences?, ofSentences?, ih]
    cases answer? words with
    | none => rfl
    | some outcome =>
      cases ofSentences? answer? format later with
      | none => rfl
      | some report =>
        cases ofSentences? answer? format second with
        | none => rfl
        | some rest => exact congrArg some (append_assoc _ _ _).symm

/-- A round reports on the sentence of its line. -/
theorem report_of_answerLine? (reader : Reader) :
    (reader.answerLine? answer? format).map Reader.report =
      (ofSentences? answer? format (sentence? (decodeLossy reader.buffer)).toList).map
        (reader.report ++ ·) := by
  rw [Reader.answerLine?]
  cases sentence? (decodeLossy reader.buffer) with
  | none => exact congrArg some (append_empty _).symm
  | some words =>
    dsimp only [Option.toList_some, ofSentences?]
    cases answer? words with
    | none => rfl
    | some outcome =>
      exact congrArg (fun report ↦ some (reader.report ++ report)) (append_empty _).symm

/-- The loop reports on the sentences that are left to read, behind what it has reported already. -/
theorem report_of_run? (reader : Reader) :
    (reader.run? answer? format).map Reader.report =
      (ofSentences? answer? format (sentences reader.unread)).map (reader.report ++ ·) := by
  induction reader using Reader.run?.induct answer? format with
  | case1 reader hunread =>
    rw [Reader.run?_of_unread_eq_nil answer? format hunread, hunread]
    exact congrArg some (append_empty _).symm
  | case2 reader hunread hround =>
    have hanswer := report_of_answerLine? answer? format reader.readLine
    rw [hround, Option.map_none, eq_comm, Option.map_eq_none_iff] at hanswer
    have hline : ofSentences? answer? format
        (sentence? (decodeLossy (readUntil [] reader.unread).1)).toList = none := hanswer
    rw [Reader.run?_of_unread_ne_nil answer? format hunread, hround,
      sentences_eq_of_readUntil, ofSentences?_append, hline]
    rfl
  | case3 reader hunread next hround ih =>
    have hanswer := report_of_answerLine? answer? format reader.readLine
    rw [hround, Option.map_some, eq_comm, Option.map_eq_some_iff] at hanswer
    obtain ⟨answered, hanswered, hnext⟩ := hanswer
    have hline : ofSentences? answer? format
        (sentence? (decodeLossy (readUntil [] reader.unread).1)).toList = some answered :=
      hanswered
    have hrest : next.unread = (readUntil [] reader.unread).2 :=
      Reader.unread_of_answerLine? answer? format hround
    have hreport : next.report = reader.report ++ answered := hnext.symm
    rw [Reader.run?_of_unread_ne_nil answer? format hunread, hround, Option.bind_some, ih, hrest,
      hreport, sentences_eq_of_readUntil reader.unread, ofSentences?_append, hline,
      Option.bind_some, Option.map_map]
    simp only [append_assoc]
    rfl

/-- The loop over a text reports on its sentences in order. -/
theorem byLoop?_eq (bytes : List UInt8) :
    byLoop? answer? format bytes = ofSentences? answer? format (sentences bytes) := by
  rw [byLoop?, report_of_run?]
  simp only [empty_append, Option.map_id']

/-- The loop over two parts is the loop over each, if a line ends between them. -/
theorem byLoop?_append {first : List UInt8} (h : EndsLine first) (second : List UInt8) :
    byLoop? answer? format (first ++ second) =
      (byLoop? answer? format first).bind fun report ↦
        (byLoop? answer? format second).map (report ++ ·) := by
  rw [byLoop?_eq, byLoop?_eq, byLoop?_eq, sentences_append h, ofSentences?_append]

/-- A loop over sentences that all have an answer reports on all of them. -/
theorem ofSentences?_of_answers {outcome : List String → Outcome}
    {sentences : List (List String)}
    (h : ∀ words ∈ sentences, answer? words = some (outcome words)) :
    ofSentences? answer? format sentences =
      some (.concat (sentences.map fun words ↦ .ofOutcome format words (outcome words))) := by
  induction sentences with
  | nil => rfl
  | cons words later ih =>
    rw [List.forall_mem_cons] at h
    rw [ofSentences?, h.1, ih h.2]
    rfl

theorem ofSentences?_eq_none {sentences : List (List String)} {words : List String}
    (hwords : words ∈ sentences) (hanswer : answer? words = none) :
    ofSentences? answer? format sentences = none := by
  obtain ⟨before, after, rfl⟩ := List.append_of_mem hwords
  have hnone : ofSentences? answer? format (words :: after) = none := by
    rw [ofSentences?, hanswer]
    rfl
  rw [ofSentences?_append, hnone]
  cases ofSentences? answer? format before <;> rfl

end Report

end Loop

/-! ## The report on a text -/

namespace Grammar

variable (g : Grammar) (options : ParseOptions) (format : TreeFormat)

/-- The outcome of parsing a sentence, if the counts of each of its words can be added up. -/
def parseTree? (words : List String) : Option Outcome :=
  (g.parse? options words).map (·.map Parse.tree)

theorem parseTree?_eq (words : List String) :
    g.parseTree? options words =
      if ∀ word ∈ words, g.AddsUp word then some (g.parseTree options words) else none := by
  rw [parseTree?, parse?_eq]
  split_ifs <;> rfl

/-- The report on a text is what the loop over it reports. -/
theorem byLoop?_parseTree (bytes : List UInt8) :
    Report.byLoop? (fun words ↦ some (g.parseTree options words)) format bytes =
      some (g.parseText options format bytes) := by
  rw [Report.byLoop?_eq, Report.ofSentences?_of_answers _ _ fun _ _ ↦ rfl]
  rfl

/-- Where the counts of words are checked, the loop over a text comes to its end exactly if those of
all its words can be added up, and then it reports what it reports without the checks. -/
theorem byLoop?_parseTree? (bytes : List UInt8) :
    Report.byLoop? (g.parseTree? options) format bytes =
      if ∀ words ∈ sentences bytes, ∀ word ∈ words, g.AddsUp word then
        some (g.parseText options format bytes)
      else none := by
  rw [Report.byLoop?_eq]
  split_ifs with hwords
  · apply Report.ofSentences?_of_answers
    intro words hmem
    rw [parseTree?_eq, if_pos (hwords words hmem)]
  · simp only [not_forall] at hwords
    obtain ⟨words, hmem, hmany⟩ := hwords
    apply Report.ofSentences?_eq_none _ _ hmem
    rw [parseTree?_eq, if_neg]
    simpa only [not_forall] using hmany

/-- The report on a text is the reports on its parts, and a line is a part by itself whatever
stands in it.  The loop over the text reports the same, and it is the loops over the parts one after
another also where it may stop short. -/
theorem parseText_of_parts :
    (∀ first second, EndsLine first →
      g.parseText options format (first ++ second) =
        { output := (g.parseText options format first).output ++
            (g.parseText options format second).output
          failures := (g.parseText options format first).failures +
            (g.parseText options format second).failures
          notices := (g.parseText options format first).notices ++
            (g.parseText options format second).notices }) ∧
    (∀ before line after, EndsLine before → Text.lineFeed ∉ line → StartsAfterLine after →
      g.parseText options format (before ++ line ++ after) =
        g.parseText options format before ++ g.parseText options format line ++
          g.parseText options format after) ∧
    (∀ bytes, Report.byLoop? (fun words ↦ some (g.parseTree options words)) format bytes =
      some (g.parseText options format bytes)) ∧
    (∀ answer? first second, EndsLine first →
      Report.byLoop? answer? format (first ++ second) =
        (Report.byLoop? answer? format first).bind fun report ↦
          (Report.byLoop? answer? format second).map (report ++ ·)) ∧
    ∀ bytes, Report.byLoop? (g.parseTree? options) format bytes =
      if ∀ words ∈ sentences bytes, ∀ word ∈ words, g.AddsUp word then
        some (g.parseText options format bytes)
      else none := by
  refine ⟨?_, ?_, g.byLoop?_parseTree options format, ?_, g.byLoop?_parseTree? options format⟩
  · intro first second hfirst
    rw [← Report.append_eq]
    exact g.parseText_eq_of_sentences options format (sentences_append hfirst second)
  · intro before line after hbefore hline hafter
    have hends := sentences_append hbefore (line ++ after)
    rw [List.append_assoc, g.parseText_eq_of_sentences options format hends,
      g.parseText_eq_of_sentences options format (sentences_line_append hline hafter),
      Report.append_assoc]
  · intro answer? first second hfirst
    exact Report.byLoop?_append answer? format hfirst second

/-- A line that stops within a character of three bytes, between two sentences of one word. -/
theorem parseText_of_parts_broken_character :
    let g := ofRecords Chart.attachmentRecords
    let before : List UInt8 := [0x63, 0x61, 0x74, 0x0A]
    let line : List UInt8 := [0xE2, 0x82]
    let after : List UInt8 := [0x0A, 0x64, 0x6F, 0x67]
    EndsLine before ∧ Text.lineFeed ∉ line ∧ StartsAfterLine after ∧
      (g.parseText {} .json (before ++ (line ++ after))).output =
        (g.parseText {} .json before).output ++ (g.parseText {} .json (line ++ after)).output ∧
      g.parseText {} .json (before ++ line ++ after) =
        g.parseText {} .json before ++ g.parseText {} .json line ++
          g.parseText {} .json after ∧
      (g.parseText {} .json line).output = "null\n" := by
  intro g before line after
  have hbefore : EndsLine before := fun _ hlast ↦ (Option.some.inj hlast).symm
  have hline : Text.lineFeed ∉ line := by decide
  have hafter : StartsAfterLine after := fun _ hhead ↦ (Option.some.inj hhead).symm
  have hparts := g.parseText_of_parts {} .json
  refine ⟨hbefore, hline, hafter, ?_, hparts.2.1 before line after hbefore hline hafter, ?_⟩
  · rw [hparts.1 before (line ++ after) hbefore]
  · decide +kernel

end Grammar

end StochasticGrammar
