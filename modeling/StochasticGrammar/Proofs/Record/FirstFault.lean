import StochasticGrammar.Proofs.Record.Line
import StochasticGrammar.Proofs.Text.Strict

/-!
# The first line that cannot be read

Lines are read one after another until one cannot be read.  If there is none, the records are those
of the lines that are not blank, in order.  Otherwise the first line that is not UTF-8 or holds no
record decides the outcome, and the lines after it do not matter.  So a file is read part by part:
what a part gives depends on the parts before it only through the numbers of its lines.
-/

namespace StochasticGrammar.Record

/-- The line is UTF-8, and its text holds the content. -/
def HoldsLine (mode : Mode) (line : List UInt8) (content : Content) : Prop :=
  ∃ text, line = Text.Utf8.encode text ∧ readLine mode text = .ok content

/-- The line of the given number is not UTF-8, or its text holds no record and is not blank. -/
inductive FailsLine (mode : Mode) (path : String) (number : Nat) :
    List UInt8 → ReadFault → Prop
  | invalidText {line : List UInt8} (hline : ∀ text, line ≠ Text.Utf8.encode text) :
    FailsLine mode path number line (.unavailable path .invalidText)
  | malformed {text : List Char} {cause : Malformation}
      (hread : readLine mode text = .error cause) :
    FailsLine mode path number (Text.Utf8.encode text)
      (.malformed number (String.ofList (Text.trim text)) cause)

variable {mode : Mode} {path : String} {number : Nat} {line : List UInt8} {content : Content}
  {fault : ReadFault}

/-! ## One line -/

theorem readBytes_encode (mode : Mode) (path : String) (number : Nat) (text : List Char) :
    readBytes mode path number (Text.Utf8.encode text) = readNumbered mode number text := by
  unfold readBytes
  rw [Text.Utf8.decodeStrict?_encode]

theorem readBytes_of_not_encode (hline : ∀ text, line ≠ Text.Utf8.encode text) :
    readBytes mode path number line = .error (.unavailable path .invalidText) := by
  have hnone : Text.Utf8.decodeStrict? line = none := by
    rw [Option.eq_none_iff_forall_not_mem]
    intro text htext
    exact hline text (Text.Utf8.decodeStrict?_eq_some_iff.mp htext)
  unfold readBytes
  rw [hnone]

theorem HoldsLine.readBytes_eq (h : HoldsLine mode line content) (path : String) (number : Nat) :
    readBytes mode path number line = .ok content := by
  obtain ⟨text, rfl, hread⟩ := h
  rw [readBytes_encode, readNumbered, hread]

theorem FailsLine.readBytes_eq (h : FailsLine mode path number line fault) :
    readBytes mode path number line = .error fault := by
  cases h with
  | invalidText hline => exact readBytes_of_not_encode hline
  | malformed hread => rw [readBytes_encode, readNumbered, hread]

/-- A line can be read or it cannot. -/
theorem holdsLine_or_failsLine (mode : Mode) (path : String) (number : Nat)
    (line : List UInt8) :
    (∃ content, HoldsLine mode line content) ∨ ∃ fault, FailsLine mode path number line fault := by
  by_cases hline : ∃ text, line = Text.Utf8.encode text
  · obtain ⟨text, rfl⟩ := hline
    cases hread : readLine mode text with
    | ok content => exact Or.inl ⟨content, text, rfl, hread⟩
    | error cause => exact Or.inr ⟨_, .malformed hread⟩
  · exact Or.inr ⟨_, .invalidText (not_exists.mp hline)⟩

theorem HoldsLine.content_eq {other : Content} (h : HoldsLine mode line content)
    (hother : HoldsLine mode line other) : content = other := by
  have hread := h.readBytes_eq "" 0
  rwa [hother.readBytes_eq, Except.ok.injEq, eq_comm] at hread

theorem FailsLine.not_holdsLine (h : FailsLine mode path number line fault) (content : Content) :
    ¬HoldsLine mode line content := by
  intro hcontent
  have hread := h.readBytes_eq
  rw [hcontent.readBytes_eq] at hread
  cases hread

/-- What is kept in front of a line that can be read, and holds from one on that cannot, holds of
all lines in a row. -/
theorem lines_induction (mode : Mode) (path : String) {motive : Nat → List (List UInt8) → Prop}
    (nil : ∀ number, motive number [])
    (holds : ∀ number line rest content, HoldsLine mode line content →
      motive (number + 1) rest → motive number (line :: rest))
    (fails : ∀ number line rest fault, FailsLine mode path number line fault →
      motive number (line :: rest))
    (number : Nat) (lines : List (List UInt8)) : motive number lines := by
  induction lines generalizing number with
  | nil => exact nil number
  | cons line rest ih =>
    rcases holdsLine_or_failsLine mode path number line with ⟨content, h⟩ | ⟨fault, h⟩
    · exact holds number line rest content h (ih (number + 1))
    · exact fails number line rest fault h

/-- A line that can be read adds a record exactly if it is not blank. -/
theorem HoldsLine.record?_eq_none_iff (h : HoldsLine mode line content) :
    content.record? = none ↔ ∃ text, line = Text.Utf8.encode text ∧ Text.AllBlank text := by
  obtain ⟨text, rfl, hread⟩ := h
  constructor
  · intro hnone
    refine ⟨text, rfl, Text.trim_eq_nil_iff.mp ?_⟩
    cases content with
    | blank =>
      have hrule : Rules mode 0 (Text.trim text) (.ok (none, [])) := rules_of_readLine hread 0
      cases hrule with
      | blank htext => exact htext
    | record r => cases hnone
    | substituted name rule count => cases hnone
  · rintro ⟨other, heq, hblank⟩
    rw [← Text.Utf8.encode_injective heq] at hblank
    rw [readLine_of_blank (Text.trim_of_allBlank hblank), Except.ok.injEq] at hread
    rw [← hread]
    rfl

/-! ## Lines in a row -/

/-- The substitutions in lines of the given contents, the first line having the given number. -/
def substitutionsFrom (number : Nat) (contents : List Content) : List Substitution :=
  (contents.zipIdx number).filterMap fun (content, number) ↦ content.substitution? number

/-- The same fault in a file with so many lines in front. -/
def ReadFault.later (count : Nat) : ReadFault → ReadFault
  | unavailable path cause => unavailable path cause
  | malformed number text cause => malformed (number + count) text cause

/-- The same substitution in a file with so many lines in front. -/
def Substitution.later (count : Nat) (s : Substitution) : Substitution where
  number := s.number + count
  name := s.name

namespace Reading

/-- What is read from lines after others, unless those cannot be read. -/
def followedBy (first second : Reading) : Reading :=
  match first.outcome with
  | .error _ => first
  | .ok records =>
    { substitutions := first.substitutions ++ second.substitutions
      outcome := second.outcome.map (records ++ ·) }

/-- The same reading in a file with so many lines in front. -/
def later (count : Nat) (reading : Reading) : Reading where
  substitutions := reading.substitutions.map (·.later count)
  outcome := reading.outcome.mapError (·.later count)

variable {reading : Reading} {lines : List (List UInt8)} {contents : List Content}

theorem followedBy_of_error (h : reading.outcome = .error fault) (second : Reading) :
    reading.followedBy second = reading := by
  unfold followedBy
  rw [h]

theorem followedBy_of_ok {records : List Record} (h : reading.outcome = .ok records)
    (second : Reading) :
    reading.followedBy second =
      { substitutions := reading.substitutions ++ second.substitutions
        outcome := second.outcome.map (records ++ ·) } := by
  unfold followedBy
  rw [h]

theorem ofLines_cons_of_holdsLine (h : HoldsLine mode line content) (path : String)
    (number : Nat) (rest : List (List UInt8)) :
    ofLines mode path number (line :: rest) =
      content.before number (ofLines mode path (number + 1) rest) := by
  rw [ofLines, h.readBytes_eq]

theorem ofLines_cons_of_failsLine (h : FailsLine mode path number line fault)
    (rest : List (List UInt8)) :
    ofLines mode path number (line :: rest) = { outcome := .error fault } := by
  rw [ofLines, h.readBytes_eq]

theorem before_followedBy (content : Content) (number : Nat) (first second : Reading) :
    (content.before number first).followedBy second =
      content.before number (first.followedBy second) := by
  obtain ⟨substitutions, outcome⟩ := first
  cases outcome with
  | error fault => rfl
  | ok records =>
    unfold followedBy Content.before
    dsimp only [Except.map]
    cases second.outcome <;> simp only [List.append_assoc]

/-- Lines in a row are read part by part. -/
theorem ofLines_append (mode : Mode) (path : String) (number : Nat)
    (first second : List (List UInt8)) :
    ofLines mode path number (first ++ second) =
      (ofLines mode path number first).followedBy
        (ofLines mode path (number + first.length) second) := by
  induction number, first using lines_induction mode path with
  | nil number =>
    rw [List.nil_append, ofLines]
    unfold followedBy
    cases ofLines mode path (number + 0) second with
    | mk substitutions outcome => cases outcome <;> rfl
  | holds number line rest content h ih =>
    rw [List.cons_append, ofLines_cons_of_holdsLine h, ofLines_cons_of_holdsLine h,
      before_followedBy, ih, List.length_cons, Nat.add_assoc, Nat.add_comm 1]
  | fails number line rest fault h =>
    rw [List.cons_append, ofLines_cons_of_failsLine h, ofLines_cons_of_failsLine h,
      followedBy_of_error rfl]

/-- Lines that can all be read give what they hold. -/
theorem ofLines_of_forall₂ (h : List.Forall₂ (HoldsLine mode) lines contents) (path : String)
    (number : Nat) :
    ofLines mode path number lines =
      { substitutions := substitutionsFrom number contents
        outcome := .ok (contents.filterMap Content.record?) } := by
  induction h generalizing number with
  | nil => rfl
  | @cons line content lines contents hline hlines ih =>
    rw [ofLines_cons_of_holdsLine hline, ih]
    cases content <;> rfl

theorem later_before (count : Nat) (content : Content) (number : Nat) (reading : Reading) :
    (content.before number reading).later count =
      content.before (number + count) (reading.later count) := by
  obtain ⟨substitutions, outcome⟩ := reading
  unfold later Content.before
  cases content <;> cases outcome <;> rfl

/-- Numbering the lines from a later number on changes nothing but the numbers. -/
theorem ofLines_add (mode : Mode) (path : String) (number count : Nat)
    (lines : List (List UInt8)) :
    ofLines mode path (number + count) lines = (ofLines mode path number lines).later count := by
  induction number, lines using lines_induction mode path with
  | nil => rfl
  | holds number line rest content h ih =>
    rw [ofLines_cons_of_holdsLine h, ofLines_cons_of_holdsLine h, later_before, ← ih,
      Nat.add_right_comm]
  | fails number line rest fault h =>
    have hlater : FailsLine mode path (number + count) line (fault.later count) := by
      cases h with
      | invalidText hline => exact .invalidText hline
      | malformed hread => exact .malformed hread
    rw [ofLines_cons_of_failsLine h, ofLines_cons_of_failsLine hlater]
    rfl

/-! ## Which line decides -/

/-- The rules for lines in a row, the first of them of the given number. -/
inductive Rules (mode : Mode) (path : String) (number : Nat) : List (List UInt8) → Reading → Prop
  | allRead {lines : List (List UInt8)} {contents : List Content}
      (hlines : List.Forall₂ (HoldsLine mode) lines contents) :
    Rules mode path number lines
      { substitutions := substitutionsFrom number contents
        outcome := .ok (contents.filterMap Content.record?) }
  | firstFault {before after : List (List UInt8)} {contents : List Content} {line : List UInt8}
      {fault : ReadFault} (hbefore : List.Forall₂ (HoldsLine mode) before contents)
      (hline : FailsLine mode path (number + before.length) line fault) :
    Rules mode path number (before ++ line :: after)
      { substitutions := substitutionsFrom number contents
        outcome := .error fault }

theorem ofLines_eq_of_rules (h : Rules mode path number lines reading) :
    ofLines mode path number lines = reading := by
  cases h with
  | allRead hlines => exact ofLines_of_forall₂ hlines path number
  | firstFault hbefore hline =>
    have hread := ofLines_of_forall₂ hbefore path number
    rw [ofLines_append, ofLines_cons_of_failsLine hline, hread, followedBy_of_ok rfl,
      List.append_nil]
    rfl

/-- There is a rule for any lines in a row. -/
theorem exists_rules (mode : Mode) (path : String) (number : Nat) (lines : List (List UInt8)) :
    ∃ reading, Rules mode path number lines reading := by
  induction number, lines using lines_induction mode path with
  | nil => exact ⟨_, .allRead .nil⟩
  | holds number line rest content h ih =>
    obtain ⟨reading, hreading⟩ := ih
    cases hreading with
    | allRead hlines => exact ⟨_, .allRead (.cons h hlines)⟩
    | @firstFault before after contents bad fault hbefore hline =>
      have hnumber : number + 1 + before.length = number + (line :: before).length := by
        rw [List.length_cons, Nat.add_assoc, Nat.add_comm 1]
      rw [hnumber] at hline
      exact ⟨_, .firstFault (.cons h hbefore) hline⟩
  | fails number line rest fault h =>
    have hrule : Rules mode path number ([] ++ line :: rest) _ := .firstFault .nil h
    exact ⟨_, hrule⟩

theorem ofLines_eq_iff_rules :
    ofLines mode path number lines = reading ↔ Rules mode path number lines reading := by
  constructor
  · rintro rfl
    obtain ⟨reading, hreading⟩ := exists_rules mode path number lines
    rwa [ofLines_eq_of_rules hreading]
  · exact ofLines_eq_of_rules

/-! ## Files in parts -/

/-- Where a line ends between two parts of a file, the parts are read one after the other. -/
theorem ofBytes_append {first : List UInt8} (h : EndsLine first) (mode : Mode) (path : String)
    (second : List UInt8) :
    ofBytes mode path (first ++ second) =
      (ofBytes mode path first).followedBy ((ofBytes mode path second).later
        (Text.lines (· = Text.lineFeed) first).length) := by
  unfold ofBytes
  rw [h.lines_append, ofLines_append, ofLines_add]

/-- The first line that cannot be read decides what a file is read as, and so does the first part
that has such a line. -/
theorem ofBytes_eq_iff_rules (mode : Mode) (path : String) :
    (∀ bytes reading, ofBytes mode path bytes = reading ↔
      Rules mode path 1 (Text.lines (· = Text.lineFeed) bytes) reading) ∧
    (∀ line content, HoldsLine mode line content →
      (content.record? = none ↔ ∃ text, line = Text.Utf8.encode text ∧ Text.AllBlank text)) ∧
    ∀ first second, EndsLine first →
      (∀ fault, (ofBytes mode path first).outcome = .error fault →
        ofBytes mode path (first ++ second) = ofBytes mode path first) ∧
      ∀ records, (ofBytes mode path first).outcome = .ok records →
        let count := (Text.lines (· = Text.lineFeed) first).length
        let rest := ofBytes mode path second
        ofBytes mode path (first ++ second) =
          { substitutions := (ofBytes mode path first).substitutions ++
              rest.substitutions.map (·.later count)
            outcome := (rest.outcome.mapError (·.later count)).map (records ++ ·) } := by
  refine ⟨fun _ _ ↦ ofLines_eq_iff_rules, fun _ _ ↦ HoldsLine.record?_eq_none_iff, ?_⟩
  intro first second hfirst
  have happend := ofBytes_append hfirst mode path second
  constructor
  · intro fault hfault
    rw [happend, followedBy_of_error hfault]
  · intro records hrecords count rest
    rw [happend, followedBy_of_ok hrecords]
    rfl

/-- The part before gives a record under an unknown name and a blank line; the part after gives a
record, a line that holds none, and a line that is not UTF-8. -/
theorem ofBytes_eq_iff_rules_two_faults :
    let first := Text.Utf8.encode "5 WORDRULE N dog\r\n\t\n".toList
    let second := Text.Utf8.encode "7 NONTERMINAL S\n 7 KIND S\n".toList ++ [0xFF, 0x0A]
    let reading : Reading :=
      { substitutions := [⟨1, "WORDRULE"⟩]
        outcome := .error (.malformed 4 "7 KIND S" (.unknownKind "KIND")) }
    EndsLine first ∧ (ofBytes .permissive "counts" first).outcome = .ok [.unary ⟨"N", "dog"⟩ 5] ∧
      ofBytes .permissive "counts" (first ++ second) = reading ∧
      Rules .permissive "counts" 1 (Text.lines (· = Text.lineFeed) (first ++ second)) reading ∧
      EndsLine (first ++ second) ∧
      ofBytes .permissive "counts" (first ++ second ++ [0xFF]) = reading ∧
      HoldsLine .permissive (Text.Utf8.encode ['\t']) .blank ∧
      ∃ text, Text.Utf8.encode ['\t'] = Text.Utf8.encode text ∧ Text.AllBlank text := by
  intro first second reading
  have hends : ∀ bytes : List UInt8, bytes.getLast? = some 0x0A → EndsLine bytes := by
    intro bytes hlast byte hbyte
    exact Option.some.inj (hbyte.symm.trans hlast)
  have hfirst : EndsLine first := hends first (by decide +kernel)
  have hboth : EndsLine (first ++ second) := hends (first ++ second) (by decide +kernel)
  have hread : (ofBytes .permissive "counts" first).outcome = .ok [.unary ⟨"N", "dog"⟩ 5] := by
    decide +kernel
  have hnoticed : (ofBytes .permissive "counts" first).substitutions = [⟨1, "WORDRULE"⟩] := by
    decide +kernel
  have hquiet : (ofBytes .permissive "counts" second).substitutions = [] := by decide +kernel
  have hfault : (ofBytes .permissive "counts" second).outcome =
      .error (.malformed 2 "7 KIND S" (.unknownKind "KIND")) := by
    decide +kernel
  have hblank : HoldsLine .permissive (Text.Utf8.encode ['\t']) .blank :=
    ⟨['\t'], rfl, readLine_of_blank (by decide +kernel)⟩
  obtain ⟨hrules, hnone, hparts⟩ := ofBytes_eq_iff_rules .permissive "counts"
  have hwhole : ofBytes .permissive "counts" (first ++ second) = reading := by
    rw [(hparts first second hfirst).2 _ hread, hnoticed, hquiet, hfault]
    rfl
  refine ⟨hfirst, hread, hwhole, (hrules _ _).mp hwhole, hboth, ?_, hblank,
    (hnone _ _ hblank).mp rfl⟩
  rw [(hparts (first ++ second) [0xFF] hboth).1 _ (congrArg outcome hwhole), hwhole]

end Reading

end StochasticGrammar.Record
