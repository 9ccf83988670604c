import Mathlib.Data.List.Basic
import Mathlib.Data.List.TakeWhile
import Mathlib.Data.List.DropRight
import StochasticGrammar.Text.Reading

/-!
# Cutting and trimming texts

A text is cut into lines and a line into pieces, and both are trimmed of blanks.  What is found in a
part of a text is found in the whole.
-/

namespace StochasticGrammar

/-! ## Pieces and lines

A piece or a line that holds no separator is found as it stands, in front of what is found in the
rest.
-/

namespace Text

variable {α : Type} {isSeparator isBreak : α → Bool}

/-! ### Pieces -/

theorem pieces_eq_splitOnP (text : List α) :
    pieces isSeparator text = text.splitOnP isSeparator := by
  induction text with
  | nil => rfl
  | cons a rest ih => rw [pieces, ih, List.splitOnP_cons_eq_if_modifyHead]

theorem pieces_of_no_separator {piece : List α} (h : ∀ a ∈ piece, isSeparator a = false) :
    pieces isSeparator piece = [piece] := by
  rw [pieces_eq_splitOnP, List.splitOnP_eq_singleton h]

theorem pieces_append_cons {piece : List α} (h : ∀ a ∈ piece, isSeparator a = false)
    {separator : α} (hseparator : isSeparator separator = true) (rest : List α) :
    pieces isSeparator (piece ++ separator :: rest) = piece :: pieces isSeparator rest := by
  rw [pieces_eq_splitOnP, pieces_eq_splitOnP,
    List.splitOnP_append_cons_of_forall_mem h separator hseparator]

/-- No character is lost: the pieces with separators between them are the text. -/
theorem intercalate_pieces [DecidableEq α] (separator : α) (text : List α) :
    [separator].intercalate (pieces (· = separator) text) = text := by
  have hsplit : pieces (· = separator) text = text.splitOn separator := by
    rw [pieces_eq_splitOnP, List.splitOn_eq_splitOnP]
    rfl
  rw [hsplit, List.intercalate_splitOn]

theorem pieces_ne_nil (text : List α) : pieces isSeparator text ≠ [] := by
  rw [pieces_eq_splitOnP]
  exact List.splitOnP_ne_nil isSeparator text

theorem mem_intercalate_of_mem {separator piece : List α} {pieces : List (List α)} {a : α}
    (hpiece : piece ∈ pieces) (ha : a ∈ piece) : a ∈ separator.intercalate pieces := by
  induction pieces with
  | nil => cases hpiece
  | cons first later ih =>
    by_cases hlater : later = []
    · rw [hlater, List.mem_singleton] at hpiece
      rwa [hlater, List.intercalate_singleton, ← hpiece]
    · rw [List.intercalate_cons_of_ne_nil hlater]
      rcases List.mem_cons.mp hpiece with rfl | hmem
      · exact List.mem_append_left _ (List.mem_append_left _ ha)
      · exact List.mem_append_right _ (ih hmem)

/-- A piece does not hold a separator. -/
theorem isSeparator_of_mem_pieces {text piece : List α} (hpiece : piece ∈ pieces isSeparator text) :
    ∀ a ∈ piece, isSeparator a = false := by
  induction text generalizing piece with
  | nil =>
    rw [List.mem_singleton.mp hpiece]
    exact List.forall_mem_nil _
  | cons a rest ih =>
    rw [pieces] at hpiece
    split_ifs at hpiece with ha
    · rcases List.mem_cons.mp hpiece with rfl | hlater
      · exact List.forall_mem_nil _
      · exact ih hlater
    · rw [Bool.not_eq_true] at ha
      cases hpieces : pieces isSeparator rest with
      | nil => exact absurd hpieces (pieces_ne_nil rest)
      | cons first later =>
        rw [hpieces] at hpiece ih
        rcases List.mem_cons.mp hpiece with rfl | hlater
        · exact List.forall_mem_cons.mpr ⟨ha, ih List.mem_cons_self⟩
        · exact ih (List.mem_cons_of_mem first hlater)

/-! ### Lines -/

theorem lines_of_no_break {line : List α} (h : ∀ a ∈ line, isBreak a = false)
    (hline : line ≠ []) : lines isBreak line = [line] := by
  induction line with
  | nil => exact absurd rfl hline
  | cons a rest ih =>
    rw [List.forall_mem_cons] at h
    rw [lines, if_neg (by simp [h.1])]
    by_cases hrest : rest = []
    · rw [hrest, lines]
    · rw [ih h.2 hrest]

theorem lines_append_cons {line : List α} (h : ∀ a ∈ line, isBreak a = false) {separator : α}
    (hseparator : isBreak separator = true) (rest : List α) :
    lines isBreak (line ++ separator :: rest) = line :: lines isBreak rest := by
  induction line with
  | nil => rw [List.nil_append, lines, if_pos hseparator]
  | cons a line ih =>
    rw [List.forall_mem_cons] at h
    rw [List.cons_append, lines, if_neg (by simp [h.1]), ih h.2]

theorem isBreak_of_not_mem [DecidableEq α] {separator : α} {line : List α} (h : separator ∉ line) :
    ∀ a ∈ line, decide (a = separator) = false := by
  intro a ha
  rw [decide_eq_false_iff_not]
  rintro rfl
  exact h ha

theorem not_mem_of_isBreak [DecidableEq α] {separator : α} {line : List α}
    (h : ∀ a ∈ line, decide (a = separator) = false) : separator ∉ line :=
  fun hmem ↦ absurd rfl (of_decide_eq_false (h separator hmem))

theorem lines_ne_nil {text : List α} (h : text ≠ []) : lines isBreak text ≠ [] := by
  cases text with
  | nil => exact absurd rfl h
  | cons a rest =>
    rw [lines]
    split_ifs
    · exact List.cons_ne_nil _ _
    · split
      · exact List.cons_ne_nil _ _
      · exact List.cons_ne_nil _ _

/-- What holds of the empty text and of a last line that does not end, and of a line with its break
in front of a text if it holds of the text, holds of every text. -/
theorem line_induction (isBreak : α → Bool) {motive : List α → Prop} (nil : motive [])
    (last : ∀ line, (∀ a ∈ line, isBreak a = false) → line ≠ [] → motive line)
    (cons : ∀ line separator rest, (∀ a ∈ line, isBreak a = false) → isBreak separator = true →
      motive rest → motive (line ++ separator :: rest))
    (text : List α) : motive text := by
  induction hlength : text.length using Nat.strongRecOn generalizing text with
  | _ length ih =>
    have hline : ∀ a ∈ text.takeWhile (!isBreak ·), isBreak a = false := by
      intro a ha
      simpa using List.mem_takeWhile_imp ha
    have htext := List.takeWhile_append_dropWhile (p := (!isBreak ·)) (l := text)
    cases hrest : text.dropWhile (!isBreak ·) with
    | nil =>
      rw [hrest, List.append_nil] at htext
      rw [htext] at hline
      by_cases hempty : text = []
      · exact hempty ▸ nil
      · exact last text hline hempty
    | cons separator rest =>
      have hseparator : isBreak separator = true := by
        have hnot := List.head?_dropWhile_not (!isBreak ·) text
        rw [hrest] at hnot
        simpa using hnot
      rw [hrest] at htext
      have hshorter : rest.length < length := by
        rw [← hlength, ← htext, List.length_append, List.length_cons]
        omega
      rw [← htext]
      exact cons _ separator rest hline hseparator (ih rest.length hshorter rest rfl)

/-- A text that is empty or ends with a break has its lines to itself. -/
theorem lines_append {first : List α} (h : ∀ a ∈ first.getLast?, isBreak a) (second : List α) :
    lines isBreak (first ++ second) = lines isBreak first ++ lines isBreak second := by
  induction first with
  | nil => rfl
  | cons a rest ih =>
    by_cases hrest : rest = []
    · have ha : isBreak a := h a (by rw [hrest]; rfl)
      rw [hrest, List.singleton_append, lines, if_pos ha, lines, if_pos ha]
      rfl
    · rw [List.getLast?_cons_of_ne_nil hrest] at h
      rw [List.cons_append, lines, lines, ih h]
      split_ifs
      · rfl
      · cases hlines : lines isBreak rest with
        | nil => exact absurd hlines (lines_ne_nil hrest)
        | cons line later => rfl

/-- A line does not hold a break. -/
theorem isBreak_of_mem_lines {text line : List α} (hline : line ∈ lines isBreak text) :
    ∀ a ∈ line, isBreak a = false := by
  induction text generalizing line with
  | nil => cases hline
  | cons a rest ih =>
    rw [lines] at hline
    split_ifs at hline with ha
    · rcases List.mem_cons.mp hline with rfl | hlater
      · exact List.forall_mem_nil _
      · exact ih hlater
    · rw [Bool.not_eq_true] at ha
      split at hline
      · rw [List.mem_singleton.mp hline, List.forall_mem_singleton]
        exact ha
      · next first later hlines =>
        rw [hlines] at ih
        rcases List.mem_cons.mp hline with rfl | hlater
        · exact List.forall_mem_cons.mpr ⟨ha, ih List.mem_cons_self⟩
        · exact ih (List.mem_cons_of_mem first hlater)

end Text

/-- The bytes are empty or end with a line feed. -/
def EndsLine (bytes : List UInt8) : Prop :=
  ∀ byte ∈ bytes.getLast?, byte = Text.lineFeed

theorem EndsLine.lines_append {first : List UInt8} (h : EndsLine first) (second : List UInt8) :
    Text.lines (· = Text.lineFeed) (first ++ second) =
      Text.lines (· = Text.lineFeed) first ++ Text.lines (· = Text.lineFeed) second := by
  apply Text.lines_append
  intro byte hbyte
  exact decide_eq_true (h byte hbyte)

/-! ## Trimming

Trimming a text takes off the blanks at both ends, and nothing else: what is left neither starts nor
ends with a blank, and only one text is left in this way.
-/

namespace Text

/-- There is nothing but blanks in the text. -/
def AllBlank (text : List Char) : Prop :=
  ∀ c ∈ text, isBlank c

instance (text : List Char) : Decidable (AllBlank text) :=
  decidable_of_iff (text.all isBlank = true) List.all_eq_true

/-- The text neither starts nor ends with a blank. -/
structure IsTrimmed (text : List Char) : Prop where
  head : ∀ c ∈ text.head?, isBlank c = false
  last : ∀ c ∈ text.getLast?, isBlank c = false

/-- The second text is the first one without the blanks at its ends. -/
def Trims (line text : List Char) : Prop :=
  ∃ before after, line = before ++ text ++ after ∧ AllBlank before ∧ AllBlank after ∧
    IsTrimmed text

variable {line text before after : List Char}

theorem trimEnd_append (hafter : AllBlank after) (hlast : ∀ c ∈ text.getLast?, isBlank c = false) :
    trimEnd (text ++ after) = text := by
  have hreverse : ∀ c ∈ after.reverse, isBlank c := by
    intro c hc
    exact hafter c (List.mem_reverse.mp hc)
  rw [trimEnd, List.reverse_append, List.dropWhile_append_of_pos hreverse]
  cases htext : text.reverse with
  | nil => rw [List.dropWhile_nil, List.reverse_nil, List.reverse_eq_nil_iff.mp htext]
  | cons c rest =>
    have hc : isBlank c = false := by
      apply hlast
      rw [← List.head?_reverse, htext, List.head?_cons, Option.mem_some]
    rw [List.dropWhile_cons_of_neg (by simp [hc]), ← htext, List.reverse_reverse]

theorem trim_append (hbefore : AllBlank before) (hafter : AllBlank after)
    (htext : IsTrimmed text) : trim (before ++ text ++ after) = text := by
  rw [trim, List.append_assoc, List.dropWhile_append_of_pos hbefore]
  cases text with
  | nil =>
    rw [List.nil_append, List.dropWhile_eq_nil_iff.mpr hafter]
    rfl
  | cons c rest =>
    have hc : isBlank c = false := htext.head c rfl
    rw [List.cons_append, List.dropWhile_cons_of_neg (by simp [hc]), ← List.cons_append,
      trimEnd_append hafter htext.last]

theorem trim_of_allBlank (h : AllBlank line) : trim line = [] := by
  rw [trim, List.dropWhile_eq_nil_iff.mpr h]
  rfl

theorem isBlank_of_mem_head?_dropWhile {c : Char} (h : c ∈ (text.dropWhile isBlank).head?) :
    isBlank c = false := by
  have hnot := List.head?_dropWhile_not isBlank text
  rwa [Option.mem_def.mp h] at hnot

theorem isTrimmed_trim (line : List Char) : IsTrimmed (trim line) where
  head c hc := by
    -- What is left after both ends are trimmed starts like what is left after the first.
    obtain ⟨after, hafter⟩ := List.rdropWhile_prefix isBlank (l := line.dropWhile isBlank)
    have hstart : c ∈ (line.dropWhile isBlank).head? := by
      rw [← hafter, List.head?_append]
      exact Option.or_eq_some_iff.mpr (Or.inl hc)
    exact isBlank_of_mem_head?_dropWhile hstart
  last c hc := by
    rw [trim, trimEnd, List.getLast?_reverse] at hc
    exact isBlank_of_mem_head?_dropWhile hc

theorem trims_trim (line : List Char) : Trims line (trim line) := by
  have hend : trim line = (line.dropWhile isBlank).rdropWhile isBlank := rfl
  refine ⟨line.takeWhile isBlank, (line.dropWhile isBlank).rtakeWhile isBlank, ?_, ?_, ?_, ?_⟩
  · rw [hend, List.append_assoc, List.rdropWhile_append_rtakeWhile,
      List.takeWhile_append_dropWhile]
  · intro c hc
    exact List.mem_takeWhile_imp hc
  · intro c hc
    exact List.mem_rtakeWhile_imp hc
  · exact isTrimmed_trim line

theorem trim_eq_nil_iff : trim line = [] ↔ AllBlank line := by
  constructor
  · intro h
    obtain ⟨before, after, hline, hbefore, hafter, -⟩ := trims_trim line
    rw [h, List.append_nil] at hline
    rw [hline]
    exact List.forall_mem_append.mpr ⟨hbefore, hafter⟩
  · exact trim_of_allBlank

end Text

end StochasticGrammar
