import StochasticGrammar.Proofs.Record.FirstFault

/-!
# Writing counts files

The same records can be written in many ways: with zeros in front of the counts, more or less space
between the parts, blanks around the records, blank lines, and either ending of a line.  All of them
are read as the same records, in both modes and without a substitution.  Whatever is read from a
file can be written again.
-/

namespace StochasticGrammar.Record

/-! ## Records that can be written -/

/-- The count is one that can be written, and so are the fields. -/
structure IsPlain (r : Record) : Prop where
  le_maxCount : r.parts.count ≤ maxCount
  isPart : ∀ field ∈ r.parts.fields, IsPart field

/-- The text is the record, with zeros in front of the count and a space before each other part. -/
inductive WritesRecord (r : Record) : List Char → Prop
  | intro (zeros : Nat) {rest : List Char} (hrest : Spaced rest (r.parts.name :: r.parts.fields)) :
    WritesRecord r (List.replicate zeros '0' ++ Nat.toDigits 10 r.parts.count ++ rest)

/-- The text can stand around a record without ending its line. -/
structure IsPadding (text : List Char) : Prop where
  allBlank : Text.AllBlank text
  lineFeed_not_mem : '\n' ∉ text

instance (text : List Char) : Decidable (IsPadding text) :=
  decidable_of_iff (Text.AllBlank text ∧ '\n' ∉ text)
    ⟨fun h ↦ ⟨h.1, h.2⟩, fun h ↦ ⟨h.allBlank, h.lineFeed_not_mem⟩⟩

/-- The line holds the record, or none, with blanks around it. -/
inductive WritesLine : Option Record → List Char → Prop
  | blank {line : List Char} (hline : IsPadding line) : WritesLine none line
  | record {r : Record} {before text after : List Char} (hbefore : IsPadding before)
      (htext : WritesRecord r text) (hafter : IsPadding after) :
    WritesLine (some r) (before ++ text ++ after)

def IsEnding (ending : List Char) : Prop :=
  ending = ['\n'] ∨ ending = ['\r', '\n']

/-- The text holds the records in order, on lines of which the last one needs no ending. -/
inductive Writes : List Record → List Char → Prop
  | last {r? : Option Record} {line : List Char} (hline : WritesLine r? line) :
    Writes r?.toList line
  | cons {r? : Option Record} {records : List Record} {line ending rest : List Char}
      (hline : WritesLine r? line) (hending : IsEnding ending) (hrest : Writes records rest) :
    Writes (r?.toList ++ records) (line ++ ending ++ rest)

variable {r : Record} {r? : Option Record} {records : List Record} {text line : List Char}

/-! ## Lines that hold a record or none -/

theorem isCount_toDigits (zeros : Nat) {count : Nat} (h : count ≤ maxCount) :
    IsCount (List.replicate zeros '0' ++ Nat.toDigits 10 count) count where
  ne_nil := by
    rw [Ne, List.append_eq_nil_iff]
    exact fun hnil ↦ Nat.toDigits_ne_nil hnil.2
  isDigit := by
    intro c hc
    rcases List.mem_append.mp hc with hzero | hdigit
    · rw [List.eq_of_mem_replicate hzero]
      rfl
    · exact Nat.isDigit_of_mem_toDigits (by omega) le_rfl hdigit
  value := by
    rw [Nat.ofDigitChars_append, Nat.ofDigitChars_replicate_zero, Nat.mul_zero]
    exact Nat.ofDigitChars_ten_toDigits
  le_maxCount := h

theorem WritesRecord.hasShape (h : WritesRecord r text) (hr : r.IsPlain) :
    HasShape text r.parts := by
  obtain ⟨zeros, hrest⟩ := h
  exact .intro (isCount_toDigits zeros hr.le_maxCount) hrest

theorem WritesLine.lineFeed_not_mem (h : WritesLine r? line) (hr : ∀ r ∈ r?, r.IsPlain) :
    '\n' ∉ line := by
  cases h with
  | blank hline => exact hline.lineFeed_not_mem
  | record hbefore htext hafter =>
    rw [List.mem_append, List.mem_append, not_or, not_or]
    exact ⟨⟨hbefore.lineFeed_not_mem, (htext.hasShape (hr _ rfl)).lineFeed_not_mem⟩,
      hafter.lineFeed_not_mem⟩

theorem IsPadding.append_carriageReturn (h : IsPadding text) : IsPadding (text ++ ['\r']) where
  allBlank := by
    intro c hc
    rcases List.mem_append.mp hc with hc | hc
    · exact h.allBlank c hc
    · rw [List.mem_singleton.mp hc]
      decide
  lineFeed_not_mem := by
    rw [List.mem_append, not_or]
    exact ⟨h.lineFeed_not_mem, by decide⟩

/-- A carriage return in front of a line feed is one more blank at the end of the line. -/
theorem WritesLine.append_carriageReturn (h : WritesLine r? line) :
    WritesLine r? (line ++ ['\r']) := by
  cases h with
  | blank hline => exact .blank hline.append_carriageReturn
  | record hbefore htext hafter =>
    rw [List.append_assoc]
    exact .record hbefore htext hafter.append_carriageReturn

/-- Either ending leaves a line feed after a line that holds the same. -/
theorem WritesLine.exists_lineFeed {ending : List Char} (h : WritesLine r? line)
    (hending : IsEnding ending) :
    ∃ line', line ++ ending = line' ++ ['\n'] ∧ WritesLine r? line' := by
  rcases hending with rfl | rfl
  · exact ⟨line, rfl, h⟩
  · refine ⟨line ++ ['\r'], ?_, h.append_carriageReturn⟩
    rw [List.append_assoc]
    rfl

/-! ## Reading what was written -/

/-- What a line of the record, or of none, holds. -/
def Content.ofRecord? : Option Record → Content
  | none => .blank
  | some r => .record r

variable {mode : Mode} {path : String} {number : Nat}

theorem readLine_of_writesLine (mode : Mode) (h : WritesLine r? line)
    (hr : ∀ r ∈ r?, r.IsPlain) : readLine mode line = .ok (.ofRecord? r?) := by
  cases h with
  | blank hline => exact readLine_of_blank (Text.trim_of_allBlank hline.allBlank)
  | @record r before text after hbefore htext hafter =>
    have hshape := htext.hasShape (hr r rfl)
    have htrim : Text.trim (before ++ text ++ after) = text :=
      Text.trim_append hbefore.allBlank hafter.allBlank hshape.isTrimmed
    rw [← htrim] at hshape
    exact (readLine_of_hasShape hshape).trans (interpret_parts mode r)

theorem WritesLine.eq_none (h : WritesLine r? []) (hr : ∀ r ∈ r?, r.IsPlain) : r? = none := by
  have hread := readLine_of_writesLine .strict h hr
  cases r? with
  | none => rfl
  | some r => cases hread

theorem ofLines_cons_of_writesLine (h : WritesLine r? line) (hr : ∀ r ∈ r?, r.IsPlain)
    {later : List (List UInt8)}
    (hlater : Reading.ofLines mode path (number + 1) later = { outcome := .ok records }) :
    Reading.ofLines mode path number (Text.Utf8.encode line :: later) =
      { outcome := .ok (r?.toList ++ records) } := by
  have hline : HoldsLine mode (Text.Utf8.encode line) (.ofRecord? r?) :=
    ⟨line, rfl, readLine_of_writesLine mode h hr⟩
  rw [Reading.ofLines_cons_of_holdsLine hline, hlater]
  cases r? <;> rfl

/-- However the records are written, they are read from the lines. -/
theorem ofLines_of_writes (h : Writes records text) (hrecords : ∀ r ∈ records, r.IsPlain)
    (mode : Mode) (path : String) (number : Nat) :
    Reading.ofLines mode path number
      (Text.lines (· = Text.lineFeed) (Text.Utf8.encode text)) = { outcome := .ok records } := by
  -- By induction on the lines, each of which stands for what it adds to the records.
  induction h generalizing number with
  | @last r? line hline =>
    have hr : ∀ r ∈ r?, r.IsPlain := fun r hr ↦ hrecords r (Option.mem_toList.mpr hr)
    by_cases hempty : line = []
    · subst hempty
      rw [hline.eq_none hr]
      rfl
    · rw [Text.Utf8.lines_encode (hline.lineFeed_not_mem hr) hempty]
      have hend : Reading.ofLines mode path (number + 1) [] = { outcome := .ok [] } := rfl
      rw [ofLines_cons_of_writesLine hline hr hend, List.append_nil]
  | @cons r? records line ending rest hline hending hrest ih =>
    rw [List.forall_mem_append] at hrecords
    have hr : ∀ r ∈ r?, r.IsPlain := fun r hr ↦ hrecords.1 r (Option.mem_toList.mpr hr)
    obtain ⟨line', hsplit, hline'⟩ := hline.exists_lineFeed hending
    rw [hsplit, Text.Utf8.lines_encode_append (hline'.lineFeed_not_mem hr)]
    exact ofLines_cons_of_writesLine hline' hr (ih hrecords.2 (number + 1))

/-! ## What was read can be written -/

theorem HasShape.isPlain {parts : Parts} (h : HasShape text parts)
    (hcount : r.parts.count = parts.count) (hfields : r.parts.fields = parts.fields) :
    r.IsPlain := by
  obtain @⟨digits, rest, count, name, fields, hdigits, hrest⟩ := h
  constructor
  · rw [hcount]
    exact hdigits.le_maxCount
  · rw [hfields]
    exact fun field hfield ↦ hrest.isPart field (List.mem_cons_of_mem name hfield)

theorem isPlain_of_rules {substitutions : List Substitution}
    (h : Rules mode number text (.ok (some r, substitutions))) : r.IsPlain := by
  cases h with
  | record hshape => exact hshape.isPlain rfl rfl
  | substituted hshape => exact hshape.isPlain rfl rfl

theorem HoldsLine.isPlain {bytes : List UInt8} {content : Content}
    (h : HoldsLine mode bytes content) : ∀ r ∈ content.record?, r.IsPlain := by
  obtain ⟨line, -, hread⟩ := h
  intro r hr
  have hrule := rules_of_readLine hread 0
  rw [Option.mem_def.mp hr] at hrule
  exact isPlain_of_rules hrule

/-- Every record found in lines can be written. -/
theorem isPlain_of_ofLines {lines : List (List UInt8)}
    (h : (Reading.ofLines mode path number lines).outcome = .ok records) :
    ∀ r ∈ records, r.IsPlain := by
  obtain ⟨reading, hrules⟩ := Reading.exists_rules mode path number lines
  rw [Reading.ofLines_eq_of_rules hrules] at h
  cases hrules with
  | firstFault => cases h
  | @allRead _ contents hlines =>
    have hplain : ∀ content ∈ contents, ∀ r ∈ content.record?, r.IsPlain := by
      clear h
      induction hlines with
      | nil => exact List.forall_mem_nil _
      | cons hline _ ih => exact List.forall_mem_cons.mpr ⟨hline.isPlain, ih⟩
    cases h
    intro r hr
    obtain ⟨content, hcontent, hr⟩ := List.mem_filterMap.mp hr
    exact hplain content hcontent r hr

/-! ## One way of writing -/

/-- The record with a single space before each part but the count. -/
def lineText (r : Record) : List Char :=
  Nat.toDigits 10 r.parts.count ++ (r.parts.name :: r.parts.fields).flatMap (' ' :: ·.toList)

/-- The records, each on a line of its own. -/
def fileText (records : List Record) : List Char :=
  records.flatMap (·.lineText ++ ['\n'])

theorem isPart_name_parts (r : Record) : IsPart r.parts.name := by
  cases r with
  | nonterminal => exact Kind.isPart_name .nonterminal
  | binary => exact Kind.isPart_name .binary
  | unary => exact Kind.isPart_name .unary

theorem spaced_flatMap {parts : List String} (h : ∀ part ∈ parts, IsPart part) :
    Spaced (parts.flatMap (' ' :: ·.toList)) parts := by
  induction parts with
  | nil => exact .nil
  | cons part parts ih =>
    rw [List.forall_mem_cons] at h
    have hgap : IsSpace [' '] := by decide
    exact .cons hgap h.1 (ih h.2)

theorem IsPlain.writesRecord_lineText (hr : r.IsPlain) : WritesRecord r r.lineText :=
  .intro 0 (spaced_flatMap (List.forall_mem_cons.mpr ⟨isPart_name_parts r, hr.isPart⟩))

theorem isPadding_nil : IsPadding [] := by decide

theorem writes_fileText (h : ∀ r ∈ records, r.IsPlain) : Writes records (fileText records) := by
  induction records with
  | nil => exact .last (.blank isPadding_nil)
  | cons r records ih =>
    rw [List.forall_mem_cons] at h
    have hline := WritesLine.record isPadding_nil h.1.writesRecord_lineText isPadding_nil
    rw [List.nil_append, List.append_nil] at hline
    exact .cons hline (Or.inl rfl) (ih h.2)

/-- Records are read as they were written, and what was read can be written. -/
theorem ofBytes_of_writes :
    (∀ records text, (∀ r ∈ records, r.IsPlain) → Writes records text → ∀ mode path,
      Reading.ofBytes mode path (Text.Utf8.encode text) =
        { substitutions := [], outcome := .ok records }) ∧
    (∀ records, (∀ r ∈ records, r.IsPlain) → Writes records (fileText records)) ∧
    ∀ mode path bytes records, (Reading.ofBytes mode path bytes).outcome = .ok records →
      (∀ r ∈ records, r.IsPlain) ∧ ∀ mode path,
        Reading.ofBytes mode path (Text.Utf8.encode (fileText records)) =
          { substitutions := [], outcome := .ok records } := by
  have hread : ∀ records text, (∀ r ∈ records, r.IsPlain) → Writes records text →
      ∀ mode path, Reading.ofBytes mode path (Text.Utf8.encode text) = { outcome := .ok records } :=
    fun records text hrecords h mode path ↦ ofLines_of_writes h hrecords mode path 1
  refine ⟨hread, fun _ ↦ writes_fileText, ?_⟩
  intro mode path bytes records h
  have hrecords : ∀ r ∈ records, r.IsPlain := isPlain_of_ofLines h
  exact ⟨hrecords, hread records _ hrecords (writes_fileText hrecords)⟩

/-- White space of several kinds, zeros and a blank line in a file without a last line ending. -/
theorem ofBytes_of_writes_layout :
    let records : List Record := [.nonterminal "S" 18446744073709551615, .unary ⟨"N", "dog"⟩ 3]
    let text := "\u3000\r\n\t018446744073709551615\t NONTERMINAL S\u0085\n3 UNARYRULE  N dog".toList
    (∀ r ∈ records, r.IsPlain) ∧ Writes records text ∧
      Reading.ofBytes .permissive "counts" (Text.Utf8.encode text) =
        { substitutions := [], outcome := .ok records } ∧
      Reading.ofBytes .strict "copy" (Text.Utf8.encode (fileText records)) =
        { substitutions := [], outcome := .ok records } := by
  intro records text
  have hS : IsPart "S" := by decide
  have hN : IsPart "N" := by decide
  have hdog : IsPart "dog" := by decide
  have hplain : ∀ r ∈ records, r.IsPlain := by
    rw [List.forall_mem_cons, List.forall_mem_singleton]
    exact ⟨⟨le_rfl, List.forall_mem_singleton.mpr hS⟩,
      ⟨by decide, List.forall_mem_cons.mpr ⟨hN, List.forall_mem_singleton.mpr hdog⟩⟩⟩
  have hwrites : Writes records text := by
    have hspace : IsSpace [' '] := by decide
    have hwide : IsSpace [' ', ' '] := by decide
    have htab : IsSpace ['\t', ' '] := by decide
    have hblank : IsPadding ['\u3000'] := by decide
    have hbefore : IsPadding ['\t'] := by decide
    have hafter : IsPadding ['\u0085'] := by decide
    have hfirst : WritesRecord (.nonterminal "S" 18446744073709551615) _ :=
      .intro 1 (.cons htab (Kind.isPart_name .nonterminal) (.cons hspace hS .nil))
    have hsecond : WritesRecord (.unary ⟨"N", "dog"⟩ 3) _ :=
      .intro 0 (.cons hspace (Kind.isPart_name .unary) (.cons hwide hN (.cons hspace hdog .nil)))
    have hlayout := Writes.cons (.blank hblank) (Or.inr rfl)
      (.cons (.record hbefore hfirst hafter) (Or.inl rfl)
        (.last (.record isPadding_nil hsecond isPadding_nil)))
    refine (congrArg (Writes records) ?_).mp hlayout
    decide +kernel
  obtain ⟨hread, -, hagain⟩ := ofBytes_of_writes
  have hfound := hread records text hplain hwrites .permissive "counts"
  exact ⟨hplain, hwrites, hfound,
    (hagain _ _ _ _ (congrArg Reading.outcome hfound)).2 .strict "copy"⟩

end StochasticGrammar.Record
