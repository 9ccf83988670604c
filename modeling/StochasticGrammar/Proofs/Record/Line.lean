import StochasticGrammar.Proofs.Record.Shape
import StochasticGrammar.Record

/-!
# What a line is read as

A line of blanks holds nothing, and any other line holds a record or has a fault.  Which of these it
is depends on its shape, on the name of its kind, on the number of its fields and, for names that no
kind has, on the mode.  Reading a line gives exactly what these rules say.
-/

namespace StochasticGrammar.Record

/-! ## Kinds and parts -/

/-- The number of fields of a kind. -/
def Kind.arity : Kind → Nat
  | nonterminal => 1
  | binary => 3
  | unary => 2

/-- How a record is written. -/
def parts : Record → Parts
  | nonterminal symbol count => ⟨count, "NONTERMINAL", [symbol]⟩
  | binary rule count => ⟨count, "BINARYRULE", [rule.parent, rule.left, rule.right]⟩
  | unary rule count => ⟨count, "UNARYRULE", [rule.parent, rule.word]⟩

theorem Kind.ofName?_name (kind : Kind) : Kind.ofName? kind.name = some kind := by
  cases kind <;> decide

theorem Kind.ofName?_eq_none_iff {name : String} :
    Kind.ofName? name = none ↔ ∀ kind : Kind, name ≠ kind.name := by
  constructor
  · rintro h kind rfl
    rw [ofName?_name] at h
    cases h
  · intro h
    rw [ofName?, List.find?_eq_none]
    intro kind _
    rw [decide_eq_true_eq]
    exact (h kind).symm

theorem Kind.isPart_name (kind : Kind) : IsPart kind.name := by
  cases kind <;> decide

/-- Parts with a known name and as many fields as its kind has are those of a record. -/
theorem exists_record_of_arity {parts : Parts} {kind : Kind} (hname : parts.name = kind.name)
    (hfields : parts.fields.length = kind.arity) : ∃ r : Record, r.parts = parts := by
  obtain ⟨count, name, fields⟩ := parts
  obtain rfl : name = kind.name := hname
  cases kind with
  | nonterminal =>
    obtain ⟨symbol, rfl⟩ := List.length_eq_one_iff.mp hfields
    exact ⟨.nonterminal symbol count, rfl⟩
  | binary =>
    obtain ⟨parent, left, right, rfl⟩ := List.length_eq_three.mp hfields
    exact ⟨.binary ⟨parent, left, right⟩ count, rfl⟩
  | unary =>
    obtain ⟨parent, word, rfl⟩ := List.length_eq_two.mp hfields
    exact ⟨.unary ⟨parent, word⟩ count, rfl⟩

variable {mode : Mode} {parts : Parts}

theorem interpret_parts (mode : Mode) (r : Record) : r.parts.interpret mode = .ok (.record r) := by
  cases r <;> rfl

theorem length_of_ofFields? {kind : Kind} {count : Nat} {fields : List String} {r : Record}
    (h : ofFields? kind count fields = some r) : fields.length = kind.arity := by
  unfold ofFields? at h
  split at h
  · rfl
  · rfl
  · rfl
  · cases h

theorem interpret_of_arity_ne {kind : Kind} (hname : parts.name = kind.name)
    (hfields : parts.fields.length ≠ kind.arity) :
    parts.interpret mode = .error (.fieldCount parts.fields.length kind) := by
  unfold Parts.interpret
  rw [hname, Kind.ofName?_name]
  dsimp only
  cases hr : ofFields? kind parts.count parts.fields with
  | none => rfl
  | some r => exact absurd (length_of_ofFields? hr) hfields

theorem interpret_of_substituted {count : Nat} {name parent word : String}
    (hname : ∀ kind : Kind, name ≠ kind.name) (hmode : mode = .permissive) :
    Parts.interpret mode ⟨count, name, [parent, word]⟩ =
      .ok (.substituted name ⟨parent, word⟩ count) := by
  unfold Parts.interpret
  dsimp only
  rw [Kind.ofName?_eq_none_iff.mpr hname, hmode]

theorem interpret_of_unknown (hname : ∀ kind : Kind, parts.name ≠ kind.name)
    (h : mode = .permissive → parts.fields.length ≠ 2) :
    parts.interpret mode = .error (.unknownKind parts.name) := by
  unfold Parts.interpret
  rw [Kind.ofName?_eq_none_iff.mpr hname]
  dsimp only
  split
  · next _ parent word hfields =>
    exact absurd (congrArg List.length hfields) (h rfl)
  · rfl

/-! ## Lines by their shape -/

variable {number : Nat} {line : List Char}

theorem HasShape.ne_nil {text : List Char} (h : HasShape text parts) : text ≠ [] := by
  obtain @⟨digits, rest, _, _, _, hcount, -⟩ := h
  intro hnil
  exact hcount.ne_nil (List.append_eq_nil_iff.mp hnil).1

theorem readLine_of_blank (h : Text.trim line = []) : readLine mode line = .ok .blank := by
  rw [readLine, h]
  rfl

theorem readLine_of_hasShape (h : HasShape (Text.trim line) parts) :
    readLine mode line = parts.interpret mode := by
  unfold readLine
  simp only [h.parts?_eq]
  exact if_neg (mt List.isEmpty_iff.mp h.ne_nil)

theorem readLine_of_no_shape (hline : Text.trim line ≠ [])
    (h : ∀ parts, ¬HasShape (Text.trim line) parts) : readLine mode line = .error .shape := by
  have hparts : parts? (Text.trim line) = none := by
    rw [Option.eq_none_iff_forall_not_mem]
    intro parts hparts
    exact h parts (hasShape_of_parts? (Text.isTrimmed_trim line) hparts)
  unfold readLine
  simp only [hparts]
  exact if_neg (mt List.isEmpty_iff.mp hline)

/-! ## Outcomes -/

/-- The record of a line, if it holds one, with the substitutions made for it. -/
abbrev Outcome := Except ReadFault (Option Record × List Substitution)

/-- What reading the line of a given number comes to. -/
def outcome (mode : Mode) (number : Nat) (line : List Char) : Outcome :=
  (readNumbered mode number line).map fun content ↦
    (content.record?, (content.substitution? number).toList)

/-- The rules for the line of a given number with the given text between its blanks. -/
inductive Rules (mode : Mode) (number : Nat) (text : List Char) : Outcome → Prop
  | blank (htext : text = []) : Rules mode number text (.ok (none, []))
  | shape (htext : text ≠ []) (hshape : ∀ parts, ¬HasShape text parts) :
    Rules mode number text (.error (.malformed number (String.ofList text) .shape))
  | record {r : Record} (hshape : HasShape text r.parts) :
    Rules mode number text (.ok (some r, []))
  | fieldCount {parts : Parts} {kind : Kind} (hshape : HasShape text parts)
      (hname : parts.name = kind.name) (hfields : parts.fields.length ≠ kind.arity) :
    Rules mode number text
      (.error (.malformed number (String.ofList text) (.fieldCount parts.fields.length kind)))
  | substituted {count : Nat} {name parent word : String}
      (hshape : HasShape text ⟨count, name, [parent, word]⟩)
      (hname : ∀ kind : Kind, name ≠ kind.name) (hmode : mode = .permissive) :
    Rules mode number text (.ok (some (.unary ⟨parent, word⟩ count), [⟨number, name⟩]))
  | unknownKind {parts : Parts} (hshape : HasShape text parts)
      (hname : ∀ kind : Kind, parts.name ≠ kind.name)
      (hfields : mode = .permissive → parts.fields.length ≠ 2) :
    Rules mode number text
      (.error (.malformed number (String.ofList text) (.unknownKind parts.name)))

theorem outcome_of_ok {content : Content} (h : readLine mode line = .ok content) :
    outcome mode number line = .ok (content.record?, (content.substitution? number).toList) := by
  rw [outcome, readNumbered, h]
  rfl

theorem outcome_of_error {cause : Malformation} (h : readLine mode line = .error cause) :
    outcome mode number line =
      .error (.malformed number (String.ofList (Text.trim line)) cause) := by
  rw [outcome, readNumbered, h]
  rfl

/-- Reading a line gives what a rule says. -/
theorem outcome_eq_of_rules {result : Outcome} (h : Rules mode number (Text.trim line) result) :
    outcome mode number line = result := by
  cases h with
  | blank htext => exact outcome_of_ok (readLine_of_blank htext)
  | shape htext hshape => exact outcome_of_error (readLine_of_no_shape htext hshape)
  | record hshape =>
    exact outcome_of_ok ((readLine_of_hasShape hshape).trans (interpret_parts mode _))
  | fieldCount hshape hname hfields =>
    exact outcome_of_error
      ((readLine_of_hasShape hshape).trans (interpret_of_arity_ne hname hfields))
  | substituted hshape hname hmode =>
    exact outcome_of_ok
      ((readLine_of_hasShape hshape).trans (interpret_of_substituted hname hmode))
  | unknownKind hshape hname hfields =>
    exact outcome_of_error
      ((readLine_of_hasShape hshape).trans (interpret_of_unknown hname hfields))

/-- There is a rule for every text of a shape. -/
theorem exists_rule_of_hasShape {text : List Char} (mode : Mode) (number : Nat)
    (hshape : HasShape text parts) : ∃ result, Rules mode number text result := by
  by_cases hname : ∀ kind : Kind, parts.name ≠ kind.name
  · by_cases hfields : mode = .permissive → parts.fields.length ≠ 2
    · exact ⟨_, .unknownKind hshape hname hfields⟩
    · rw [Classical.not_imp, not_not] at hfields
      obtain ⟨count, name, fields⟩ := parts
      obtain ⟨parent, word, rfl⟩ := List.length_eq_two.mp hfields.2
      exact ⟨_, .substituted hshape hname hfields.1⟩
  · rw [not_forall] at hname
    obtain ⟨kind, hkind⟩ := hname
    rw [not_not] at hkind
    by_cases hfields : parts.fields.length = kind.arity
    · obtain ⟨r, rfl⟩ := exists_record_of_arity hkind hfields
      exact ⟨_, .record hshape⟩
    · exact ⟨_, .fieldCount hshape hkind hfields⟩

theorem exists_rule (mode : Mode) (number : Nat) (text : List Char) :
    ∃ result, Rules mode number text result := by
  by_cases htext : text = []
  · exact ⟨_, .blank htext⟩
  · by_cases hshape : ∃ parts, HasShape text parts
    · obtain ⟨parts, hparts⟩ := hshape
      exact exists_rule_of_hasShape mode number hparts
    · exact ⟨_, .shape htext (not_exists.mp hshape)⟩

theorem rules_outcome (mode : Mode) (number : Nat) (line : List Char) :
    Rules mode number (Text.trim line) (outcome mode number line) := by
  obtain ⟨result, hresult⟩ := exists_rule mode number (Text.trim line)
  rwa [outcome_eq_of_rules hresult]

theorem rules_of_readLine {content : Content} (h : readLine mode line = .ok content)
    (number : Nat) :
    Rules mode number (Text.trim line)
      (.ok (content.record?, (content.substitution? number).toList)) := by
  rw [← outcome_of_ok h]
  exact rules_outcome mode number line

/-- Reading a line gives exactly what the rules say of the text between its blanks. -/
theorem outcome_eq_iff_rules (mode : Mode) (number : Nat) (line : List Char) :
    Text.Trims line (Text.trim line) ∧
    (∀ result, outcome mode number line = result ↔ Rules mode number (Text.trim line) result) ∧
    Malformation.shape.reason = "expected '<count> <TYPE> <symbols...>'" ∧
    (∀ found kind, (Malformation.fieldCount found kind).reason =
      s!"wrong number of fields ({found}) for {kind.name}") ∧
    ∀ name, (Malformation.unknownKind name).reason = s!"unknown record type '{name}'" := by
  refine ⟨Text.trims_trim line, ?_, rfl, fun _ _ ↦ rfl, fun _ ↦ rfl⟩
  intro result
  constructor
  · rintro rfl
    exact rules_outcome mode number line
  · exact outcome_eq_of_rules

end StochasticGrammar.Record
