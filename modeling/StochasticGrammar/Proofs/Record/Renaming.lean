import Mathlib.Data.List.Forall2
import StochasticGrammar.Proofs.Record.FirstFault

/-!
# Permissive reading renames

A record with two fields under a name that no kind has can be rewritten as a unary rule, by putting
the name of unary rules in place of its own.  Reading a file in permissive mode is reading the file
with all such lines rewritten in strict mode, up to the line that decides the outcome.  Each line
rewritten before that is noticed once, and nothing else is.
-/

namespace StochasticGrammar.Record

/-! ## Rewriting a line -/

/-- The first text is a record of two fields under the given name, which no kind has, and the second
is the same with the name of unary rules. -/
inductive Renames (name : String) : List Char → List Char → Prop
  | intro {before digits gap rest after : List Char} {count : Nat} {parent word : String}
      (hname : ∀ kind : Kind, name ≠ kind.name) (hpart : IsPart name)
      (hbefore : Text.AllBlank before) (hcount : IsCount digits count) (hgap : IsSpace gap)
      (hrest : Spaced rest [parent, word]) (hafter : Text.AllBlank after) :
    Renames name (before ++ (digits ++ (gap ++ name.toList ++ rest)) ++ after)
      (before ++ (digits ++ (gap ++ Kind.unary.name.toList ++ rest)) ++ after)

variable {name : String} {text renamed : List Char}

/-- What the text was permissively read as, the rewritten one holds. -/
theorem Renames.exists_readLine (h : Renames name text renamed) :
    ∃ rule count, readLine .permissive text = .ok (.substituted name rule count) ∧
      readLine .strict text = .error (.unknownKind name) ∧
      readLine .strict renamed = .ok (.record (.unary rule count)) := by
  obtain @⟨before, digits, gap, rest, after, count, parent, word, hname, hpart, hbefore, hcount,
    hgap, hrest, hafter⟩ := h
  have hshape : HasShape _ ⟨count, name, [parent, word]⟩ := .intro hcount (.cons hgap hpart hrest)
  have hunary : HasShape _ (Record.parts (.unary ⟨parent, word⟩ count)) :=
    .intro hcount (.cons hgap (Kind.isPart_name .unary) hrest)
  rw [← Text.trim_append hbefore hafter hshape.isTrimmed] at hshape
  rw [← Text.trim_append hbefore hafter hunary.isTrimmed] at hunary
  refine ⟨⟨parent, word⟩, count, ?_, ?_, ?_⟩
  · rw [readLine_of_hasShape hshape, interpret_of_substituted hname rfl]
  · rw [readLine_of_hasShape hshape]
    exact interpret_of_unknown hname fun hmode ↦ nomatch hmode
  · rw [← interpret_parts .strict, ← readLine_of_hasShape hunary]
    rfl

/-- A line whose text has the shape can be rewritten. -/
theorem exists_renames {count : Nat} {parent word : String}
    (hshape : HasShape (Text.trim text) ⟨count, name, [parent, word]⟩)
    (hname : ∀ kind : Kind, name ≠ kind.name) : ∃ renamed, Renames name text renamed := by
  obtain ⟨before, after, hline, hbefore, hafter, -⟩ := Text.trims_trim text
  rw [hline]
  generalize Text.trim text = trimmed at hshape
  obtain @⟨digits, rest, _, _, _, hcount, hrest⟩ := hshape
  cases hrest with
  | cons hgap hpart hfields => exact ⟨_, .intro hname hpart hbefore hcount hgap hfields hafter⟩

/-- The mode matters only for two fields under a name that no kind has. -/
theorem interpret_eq_or (parts : Parts) :
    parts.interpret .permissive = parts.interpret .strict ∨
      (∀ kind : Kind, parts.name ≠ kind.name) ∧ parts.fields.length = 2 := by
  by_cases hname : ∀ kind : Kind, parts.name ≠ kind.name
  · by_cases hfields : parts.fields.length = 2
    · exact Or.inr ⟨hname, hfields⟩
    · left
      rw [interpret_of_unknown hname fun _ ↦ hfields, interpret_of_unknown hname fun _ ↦ hfields]
  · left
    rw [not_forall] at hname
    obtain ⟨kind, hkind⟩ := hname
    unfold Parts.interpret
    rw [not_not.mp hkind, Kind.ofName?_name]

/-- A line that cannot be rewritten is read alike in both modes. -/
theorem readLine_eq_of_not_renames (h : ∀ name renamed, ¬Renames name text renamed) :
    readLine .permissive text = readLine .strict text := by
  by_cases hblank : Text.trim text = []
  · rw [readLine_of_blank hblank, readLine_of_blank hblank]
  · by_cases hshape : ∃ parts, HasShape (Text.trim text) parts
    · obtain ⟨⟨count, name, fields⟩, hshape⟩ := hshape
      rw [readLine_of_hasShape hshape, readLine_of_hasShape hshape]
      rcases interpret_eq_or ⟨count, name, fields⟩ with heq | ⟨hname, hfields⟩
      · exact heq
      · obtain ⟨parent, word, rfl⟩ := List.length_eq_two.mp hfields
        obtain ⟨renamed, hrenamed⟩ := exists_renames hshape hname
        exact absurd hrenamed (h name renamed)
    · rw [readLine_of_no_shape hblank (not_exists.mp hshape),
        readLine_of_no_shape hblank (not_exists.mp hshape)]

theorem substitution?_eq_some_iff {content : Content} {number : Nat} {s : Substitution} :
    content.substitution? number = some s ↔
      (∃ rule count, content = .substituted s.name rule count) ∧ s.number = number := by
  constructor
  · intro h
    cases content with
    | blank => cases h
    | record r => cases h
    | substituted name rule count =>
      cases h
      exact ⟨⟨rule, count, rfl⟩, rfl⟩
  · rintro ⟨⟨rule, count, rfl⟩, rfl⟩
    rfl

/-- In strict mode nothing is taken for anything else. -/
theorem substitution?_of_readLine_strict {content : Content}
    (h : readLine .strict text = .ok content) (number : Nat) :
    content.substitution? number = none := by
  have hrule := rules_of_readLine h number
  rw [← Option.toList_eq_nil_iff]
  generalize (content.substitution? number).toList = substitutions at hrule
  generalize content.record? = r? at hrule
  cases hrule with
  | blank | record => rfl
  | substituted _ _ hmode => cases hmode

/-- What strict reading accepts, permissive reading reads alike. -/
theorem readLine_permissive_of_strict {content : Content}
    (h : readLine .strict text = .ok content) : readLine .permissive text = .ok content := by
  by_cases hrenames : ∃ name renamed, Renames name text renamed
  · obtain ⟨name, renamed, hrenames⟩ := hrenames
    obtain ⟨_, _, -, hstrict, -⟩ := hrenames.exists_readLine
    rw [hstrict] at h
    cases h
  · rw [readLine_eq_of_not_renames fun name renamed h ↦ hrenames ⟨name, renamed, h⟩, h]

theorem HoldsLine.permissive_of_strict {line : List UInt8} {content : Content}
    (h : HoldsLine .strict line content) : HoldsLine .permissive line content := by
  obtain ⟨text, hline, hread⟩ := h
  exact ⟨text, hline, readLine_permissive_of_strict hread⟩

/-- A line is taken for a unary rule under its name exactly if it can be rewritten. -/
theorem readLine_eq_substituted_iff :
    (∃ rule count, readLine .permissive text = .ok (.substituted name rule count)) ↔
      ∃ renamed, Renames name text renamed := by
  constructor
  · rintro ⟨rule, count, hread⟩
    by_cases hrenames : ∃ other renamed, Renames other text renamed
    · obtain ⟨other, renamed, hrenames⟩ := hrenames
      obtain ⟨_, _, hother, -, -⟩ := hrenames.exists_readLine
      rw [hread] at hother
      cases hother
      exact ⟨renamed, hrenames⟩
    · rw [readLine_eq_of_not_renames fun name renamed h ↦ hrenames ⟨name, renamed, h⟩] at hread
      cases substitution?_of_readLine_strict hread 0
  · rintro ⟨renamed, h⟩
    obtain ⟨rule, count, hread, -, -⟩ := h.exists_readLine
    exact ⟨rule, count, hread⟩

/-! ## Warnings -/

namespace Reading

/-- Reading comes to a line after so many others, each of which can be read. -/
inductive Reaches (mode : Mode) : List (List UInt8) → Nat → List UInt8 → Prop
  | here {line : List UInt8} {later : List (List UInt8)} : Reaches mode (line :: later) 0 line
  | later {first line : List UInt8} {rest : List (List UInt8)} {count : Nat} {content : Content}
      (hfirst : HoldsLine mode first content) (hrest : Reaches mode rest count line) :
    Reaches mode (first :: rest) (count + 1) line

variable {mode : Mode} {path : String} {number : Nat} {lines : List (List UInt8)}

/-- A substitution is noticed exactly where reading comes to a line that needs it. -/
theorem mem_substitutions_iff {s : Substitution} :
    s ∈ (ofLines mode path number lines).substitutions ↔
      ∃ count line content, Reaches mode lines count line ∧ HoldsLine mode line content ∧
        content.substitution? (number + count) = some s := by
  induction number, lines using lines_induction mode path with
  | nil =>
    constructor
    · intro hs
      cases hs
    · rintro ⟨_, _, _, hreaches, -⟩
      cases hreaches
  | holds number first rest content hfirst ih =>
    rw [ofLines_cons_of_holdsLine hfirst, Content.before, List.mem_append, Option.mem_toList, ih]
    constructor
    · rintro (hs | ⟨count, line, other, hreaches, hline, hs⟩)
      · exact ⟨0, first, content, .here, hfirst, hs⟩
      · rw [Nat.add_assoc, Nat.add_comm 1] at hs
        exact ⟨count + 1, line, other, .later hfirst hreaches, hline, hs⟩
    · rintro ⟨count, line, other, hreaches, hline, hs⟩
      cases hreaches with
      | here =>
        rw [hline.content_eq hfirst] at hs
        exact Or.inl hs
      | @later _ _ _ count _ _ hrest =>
        rw [Nat.add_comm count, ← Nat.add_assoc] at hs
        exact Or.inr ⟨count, line, other, hrest, hline, hs⟩
  | fails number first rest fault hfirst =>
    rw [ofLines_cons_of_failsLine hfirst]
    constructor
    · intro hs
      cases hs
    · rintro ⟨count, line, other, hreaches, hline, -⟩
      cases hreaches with
      | here => exact absurd hline (hfirst.not_holdsLine other)
      | later hother _ => exact absurd hother (hfirst.not_holdsLine _)

/-- Substitutions are noticed in the order of their lines, at most one for each. -/
theorem pairwise_substitutions (mode : Mode) (path : String) (number : Nat)
    (lines : List (List UInt8)) :
    (ofLines mode path number lines).substitutions.Pairwise (·.number < ·.number) := by
  induction number, lines using lines_induction mode path with
  | nil => exact .nil
  | holds number first rest content hfirst ih =>
    rw [ofLines_cons_of_holdsLine hfirst, Content.before, List.pairwise_append]
    have hone : (content.substitution? number).toList.Pairwise (·.number < ·.number) := by
      cases content.substitution? number with
      | none => exact .nil
      | some s => exact List.pairwise_singleton _ s
    refine ⟨hone, ih, ?_⟩
    intro s hs later hlater
    rw [Option.mem_toList] at hs
    obtain ⟨count, line, other, -, -, hother⟩ := mem_substitutions_iff.mp hlater
    have hnumber := (substitution?_eq_some_iff.mp hs).2
    have hlaterNumber := (substitution?_eq_some_iff.mp hother).2
    omega
  | fails number first rest fault hfirst =>
    rw [ofLines_cons_of_failsLine hfirst]
    exact .nil

/-- In strict mode there is nothing to notice. -/
theorem substitutions_strict (path : String) (number : Nat) (lines : List (List UInt8)) :
    (ofLines .strict path number lines).substitutions = [] := by
  rw [List.eq_nil_iff_forall_not_mem]
  intro s hs
  obtain ⟨count, line, content, -, ⟨text, -, hread⟩, hs⟩ := mem_substitutions_iff.mp hs
  rw [substitution?_of_readLine_strict hread] at hs
  cases hs

/-- What strict reading accepts, permissive reading reads alike. -/
theorem ofLines_permissive_of_strict {records : List Record}
    (h : (ofLines .strict path number lines).outcome = .ok records) :
    ofLines .permissive path number lines = { outcome := .ok records } := by
  have hquiet := substitutions_strict path number lines
  obtain ⟨reading, hrules⟩ := exists_rules .strict path number lines
  rw [ofLines_eq_of_rules hrules] at h hquiet
  cases hrules with
  | allRead hlines =>
    have hpermissive := hlines.imp fun _ _ ↦ HoldsLine.permissive_of_strict
    rw [ofLines_of_forall₂ hpermissive]
    exact congrArg₂ Reading.mk hquiet h
  | firstFault => cases h

end Reading

/-! ## Rewriting a file -/

/-- The second line is the first, rewritten if it can be. -/
inductive RenamesLine : List UInt8 → List UInt8 → Prop
  | renamed {name : String} {text renamed : List Char} (h : Renames name text renamed) :
    RenamesLine (Text.Utf8.encode text) (Text.Utf8.encode renamed)
  | kept {line : List UInt8}
      (h : ∀ name text renamed, Renames name text renamed → line ≠ Text.Utf8.encode text) :
    RenamesLine line line

/-- The second file is the first, with every line rewritten that can be. -/
inductive RenamesFile : List UInt8 → List UInt8 → Prop
  | last {line renamed : List UInt8} (hline : Text.lineFeed ∉ line)
      (hrenamed : RenamesLine line renamed) :
    RenamesFile line renamed
  | cons {line renamed rest later : List UInt8} (hline : Text.lineFeed ∉ line)
      (hrenamed : RenamesLine line renamed) (hrest : RenamesFile rest later) :
    RenamesFile (line ++ Text.lineFeed :: rest) (renamed ++ Text.lineFeed :: later)

variable {line renamedLine bytes renamedBytes : List UInt8}

theorem Renames.lineFeed_not_mem (h : Renames name text renamed) (htext : '\n' ∉ text) :
    '\n' ∉ renamed := by
  obtain ⟨-, -, -, -, -, -, -⟩ := h
  have hname : '\n' ∉ Kind.unary.name.toList := by decide
  simp only [List.mem_append, not_or] at htext ⊢
  tauto

/-- Rewriting does not break a line. -/
theorem RenamesLine.lineFeed_not_mem (h : RenamesLine line renamedLine)
    (hline : Text.lineFeed ∉ line) : Text.lineFeed ∉ renamedLine := by
  cases h with
  | renamed h =>
    refine Text.Utf8.lineFeed_not_mem_encode (h.lineFeed_not_mem ?_)
    exact mt Text.Utf8.lineFeed_mem_encode hline
  | kept => exact hline

/-- A text that is read alike in both modes stays as it is. -/
theorem RenamesLine.kept_of_readLine_eq (h : readLine .permissive text = readLine .strict text) :
    RenamesLine (Text.Utf8.encode text) (Text.Utf8.encode text) := by
  refine .kept fun name other renamed hrenames hline ↦ ?_
  rw [← Text.Utf8.encode_injective hline] at hrenames
  obtain ⟨_, _, hpermissive, hstrict, -⟩ := hrenames.exists_readLine
  rw [hpermissive, hstrict] at h
  cases h

theorem exists_renamesLine (line : List UInt8) : ∃ renamed, RenamesLine line renamed := by
  by_cases h : ∃ name text renamed, Renames name text renamed ∧ line = Text.Utf8.encode text
  · obtain ⟨name, text, renamed, hrenames, rfl⟩ := h
    exact ⟨_, .renamed hrenames⟩
  · exact ⟨line, .kept fun name text renamed hrenames hline ↦
      h ⟨name, text, renamed, hrenames, hline⟩⟩

theorem exists_renamesFile_intercalate {pieces : List (List UInt8)}
    (h : ∀ piece ∈ pieces, Text.lineFeed ∉ piece) :
    ∃ renamed, RenamesFile ([Text.lineFeed].intercalate pieces) renamed := by
  induction pieces with
  | nil =>
    obtain ⟨renamed, hrenamed⟩ := exists_renamesLine []
    exact ⟨renamed, .last List.not_mem_nil hrenamed⟩
  | cons piece pieces ih =>
    rw [List.forall_mem_cons] at h
    obtain ⟨renamed, hrenamed⟩ := exists_renamesLine piece
    by_cases hpieces : pieces = []
    · rw [hpieces, List.intercalate_singleton]
      exact ⟨renamed, .last h.1 hrenamed⟩
    · obtain ⟨later, hlater⟩ := ih h.2
      rw [List.intercalate_cons_of_ne_nil hpieces, List.append_assoc]
      exact ⟨_, .cons h.1 hrenamed hlater⟩

/-- Every file can be rewritten. -/
theorem exists_renamesFile (bytes : List UInt8) : ∃ renamed, RenamesFile bytes renamed := by
  rw [← Text.intercalate_pieces Text.lineFeed bytes]
  apply exists_renamesFile_intercalate
  intro piece hpiece hmem
  have hnot := Text.isSeparator_of_mem_pieces hpiece Text.lineFeed hmem
  rw [decide_eq_true rfl] at hnot
  cases hnot

/-! ## Reading a rewritten file -/

/-- The rewritten line adds in strict mode what the line adds in permissive mode. -/
theorem RenamesLine.record?_eq (h : RenamesLine line renamedLine) (path : String) (number : Nat) :
    (readBytes .strict path number renamedLine).map Content.record? =
      (readBytes .permissive path number line).map Content.record? := by
  cases h with
  | renamed h =>
    obtain ⟨rule, count, hpermissive, -, hstrict⟩ := h.exists_readLine
    rw [readBytes_encode, readBytes_encode, readNumbered, readNumbered, hpermissive, hstrict]
    rfl
  | kept h =>
    by_cases hline : ∃ text, line = Text.Utf8.encode text
    · obtain ⟨text, rfl⟩ := hline
      have hread := readLine_eq_of_not_renames fun name renamed hrenames ↦
        h name text renamed hrenames rfl
      rw [readBytes_encode, readBytes_encode, readNumbered, readNumbered, hread]
    · rw [readBytes_of_not_encode (not_exists.mp hline),
        readBytes_of_not_encode (not_exists.mp hline)]

namespace Reading

theorem outcome_ofLines_cons (mode : Mode) (path : String) (number : Nat) (line : List UInt8)
    (rest : List (List UInt8)) :
    (ofLines mode path number (line :: rest)).outcome =
      ((readBytes mode path number line).map Content.record?).bind fun r? ↦
        (ofLines mode path (number + 1) rest).outcome.map (r?.toList ++ ·) := by
  rw [ofLines]
  cases readBytes mode path number line <;> rfl

/-- An empty line adds nothing, so it does not matter whether a file ends with one. -/
theorem outcome_ofLines_lines (hline : Text.lineFeed ∉ line) (mode : Mode) (path : String)
    (number : Nat) :
    (ofLines mode path number (Text.lines (· = Text.lineFeed) line)).outcome =
      (ofLines mode path number [line]).outcome := by
  by_cases hempty : line = []
  · rw [hempty]
    rfl
  · rw [Text.lines_of_no_break (Text.isBreak_of_not_mem hline) hempty]

theorem outcome_ofLines_renamed (h : RenamesFile bytes renamedBytes) (path : String)
    (number : Nat) :
    (ofLines .strict path number (Text.lines (· = Text.lineFeed) renamedBytes)).outcome =
      (ofLines .permissive path number (Text.lines (· = Text.lineFeed) bytes)).outcome := by
  induction h generalizing number with
  | last hline hrenamed =>
    rw [outcome_ofLines_lines hline, outcome_ofLines_lines (hrenamed.lineFeed_not_mem hline),
      outcome_ofLines_cons, outcome_ofLines_cons, hrenamed.record?_eq]
    rfl
  | cons hline hrenamed _ ih =>
    have hbreak := Text.isBreak_of_not_mem hline
    have hrenamedBreak := Text.isBreak_of_not_mem (hrenamed.lineFeed_not_mem hline)
    rw [Text.lines_append_cons hbreak (decide_eq_true rfl),
      Text.lines_append_cons hrenamedBreak (decide_eq_true rfl),
      outcome_ofLines_cons, outcome_ofLines_cons, hrenamed.record?_eq, ih]

/-- Permissive reading is strict reading of the rewritten file, with one warning for each line
that reading comes to and that was rewritten. -/
theorem permissive_reads_renamed :
    (∀ bytes, ∃ renamed, RenamesFile bytes renamed) ∧
    (∀ bytes renamed, RenamesFile bytes renamed → ∀ path,
      ofBytes .strict path renamed =
        { substitutions := []
          outcome := (ofBytes .permissive path bytes).outcome }) ∧
    (∀ path bytes,
      let noticed := (ofBytes .permissive path bytes).substitutions
      noticed.Pairwise (·.number < ·.number) ∧
      ∀ s, s ∈ noticed ↔ ∃ count text renamed,
        Reaches .permissive (Text.lines (· = Text.lineFeed) bytes) count (Text.Utf8.encode text) ∧
          Renames s.name text renamed ∧ s.number = count + 1) ∧
    ∀ path bytes records, (ofBytes .strict path bytes).outcome = .ok records →
      ofBytes .permissive path bytes = { substitutions := [], outcome := .ok records } := by
  refine ⟨exists_renamesFile, ?_, ?_, fun _ _ _ ↦ ofLines_permissive_of_strict⟩
  · intro bytes renamed hrenames path
    have houtcome := outcome_ofLines_renamed hrenames path 1
    have hquiet := substitutions_strict path 1 (Text.lines (· = Text.lineFeed) renamed)
    unfold ofBytes
    rw [← houtcome, ← hquiet]
  · intro path bytes
    refine ⟨pairwise_substitutions _ _ _ _, fun s ↦ mem_substitutions_iff.trans ?_⟩
    constructor
    · rintro ⟨count, line, content, hreaches, ⟨text, rfl, hread⟩, hs⟩
      obtain ⟨⟨rule, n, rfl⟩, hnumber⟩ := substitution?_eq_some_iff.mp hs
      obtain ⟨renamed, hrenames⟩ := readLine_eq_substituted_iff.mp ⟨rule, n, hread⟩
      exact ⟨count, text, renamed, hreaches, hrenames, hnumber.trans (Nat.add_comm 1 count)⟩
    · rintro ⟨count, text, renamed, hreaches, hrenames, hnumber⟩
      obtain ⟨rule, n, hread⟩ := readLine_eq_substituted_iff.mpr ⟨renamed, hrenames⟩
      refine ⟨count, _, _, hreaches, ⟨text, rfl, hread⟩, ?_⟩
      exact substitution?_eq_some_iff.mpr ⟨⟨rule, n, rfl⟩, hnumber.trans (Nat.add_comm count 1)⟩

/-- Of the two lines that are rewritten, the second is not reached. -/
theorem permissive_reads_renamed_one_warning :
    let bytes := Text.Utf8.encode "2 WORD N dog\r\n\t7 NONTERMINAL S\n4 WORD S\n5 WORD N cat".toList
    let renamed := Text.Utf8.encode
      "2 UNARYRULE N dog\r\n\t7 NONTERMINAL S\n4 WORD S\n5 UNARYRULE N cat".toList
    let plain := Text.Utf8.encode "\n7 NONTERMINAL S".toList
    let fault := ReadFault.malformed 3 "4 WORD S" (.unknownKind "WORD")
    RenamesFile bytes renamed ∧ ofBytes .strict "counts" renamed = { outcome := .error fault } ∧
      (ofBytes .permissive "counts" bytes).outcome = .error fault ∧
      (∃ count text other, Reaches .permissive (Text.lines (· = Text.lineFeed) bytes) count
        (Text.Utf8.encode text) ∧ Renames "WORD" text other ∧ 1 = count + 1) ∧
      (ofBytes .strict "counts" plain).outcome = .ok [.nonterminal "S" 7] ∧
      ofBytes .permissive "counts" plain = { outcome := .ok [.nonterminal "S" 7] } := by
  intro bytes renamed plain fault
  have hfile : RenamesFile bytes renamed := by
    have hname : ∀ kind : Kind, "WORD" ≠ kind.name := by
      intro kind
      cases kind <;> decide
    have hWORD : IsPart "WORD" := by decide
    have hN : IsPart "N" := by decide
    have hdog : IsPart "dog" := by decide
    have hcat : IsPart "cat" := by decide
    have hspace : IsSpace [' '] := by decide
    have hblank : Text.AllBlank [] := by decide
    have hreturn : Text.AllBlank ['\r'] := by decide
    have htwo : IsCount ['2'] 2 :=
      ⟨by decide, List.forall_mem_singleton.mpr rfl, by decide, by decide⟩
    have hfive : IsCount ['5'] 5 :=
      ⟨by decide, List.forall_mem_singleton.mpr rfl, by decide, by decide⟩
    have hfirst := Renames.intro hname hWORD hblank htwo hspace
      (.cons hspace hN (.cons hspace hdog .nil)) hreturn
    have hlast := Renames.intro hname hWORD hblank hfive hspace
      (.cons hspace hN (.cons hspace hcat .nil)) hblank
    have hsecond : RenamesLine (Text.Utf8.encode "\t7 NONTERMINAL S".toList) _ :=
      .kept_of_readLine_eq (by decide +kernel)
    have hthird : RenamesLine (Text.Utf8.encode "4 WORD S".toList) _ :=
      .kept_of_readLine_eq (by decide +kernel)
    have hlayout := RenamesFile.cons (by decide +kernel) (.renamed hfirst)
      (.cons (by decide +kernel) hsecond
        (.cons (by decide +kernel) hthird (.last (by decide +kernel) (.renamed hlast))))
    refine (congrArg₂ RenamesFile ?_ ?_).mp hlayout <;> decide +kernel
  obtain ⟨-, hread, hnoticed, hquiet⟩ := permissive_reads_renamed
  have hstrict : (ofBytes .strict "counts" renamed).outcome = .error fault := by decide +kernel
  have hwarning : ⟨1, "WORD"⟩ ∈ (ofBytes .permissive "counts" bytes).substitutions := by
    decide +kernel
  have hplain : (ofBytes .strict "counts" plain).outcome = .ok [.nonterminal "S" 7] := by
    decide +kernel
  have hrenamed := hread bytes renamed hfile "counts"
  have houtcome : (ofBytes .permissive "counts" bytes).outcome = .error fault :=
    (congrArg outcome hrenamed).symm.trans hstrict
  refine ⟨hfile, ?_, houtcome, ((hnoticed "counts" bytes).2 _).mp hwarning, hplain,
    hquiet "counts" plain _ hplain⟩
  rw [hrenamed, houtcome]

end Reading

end StochasticGrammar.Record
