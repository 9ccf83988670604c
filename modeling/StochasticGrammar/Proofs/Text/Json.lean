import Mathlib.Data.List.Forall2
import StochasticGrammar.Tree

/-!
# JSON texts

The standard grammar of JSON, with its escapes, its numbers and the space it allows between tokens.
Each part of it relates a text to what stands at the front of the text and to what comes after.  An
encoded string can be read in one way only, whatever comes after it, and so can a compact array of
texts that can be read in one way only.
-/

namespace StochasticGrammar.Text

/-- What a JSON text stands for.  Numbers are kept as they are written. -/
inductive Json where
  | null
  | boolean (value : Bool)
  | number (literal : List Char)
  | string (text : String)
  | array (items : List Json)
  | object (members : List (String × Json))

namespace Json

/-! ## The grammar -/

/-- The value of a hexadecimal digit. -/
def hexDigit? (c : Char) : Option Nat :=
  if '0' ≤ c ∧ c ≤ '9' then some (c.toNat - '0'.toNat)
  else if 'a' ≤ c ∧ c ≤ 'f' then some (c.toNat - 'a'.toNat + 10)
  else if 'A' ≤ c ∧ c ≤ 'F' then some (c.toNat - 'A'.toNat + 10)
  else none

/-- The number that four hexadecimal digits stand for. -/
def codeUnit? (a b c d : Char) : Option Nat := do
  let a ← hexDigit? a
  let b ← hexDigit? b
  let c ← hexDigit? c
  let d ← hexDigit? d
  some (((a * 16 + b) * 16 + c) * 16 + d)

/-- The character that a single character after a backslash stands for. -/
def shortEscape? : Char → Option Char
  | '"' => some '"'
  | '\\' => some '\\'
  | '/' => some '/'
  | 'b' => some '\x08'
  | 'f' => some '\x0c'
  | 'n' => some '\n'
  | 'r' => some '\r'
  | 't' => some '\t'
  | _ => none

/-- Whether a character of a string may stand for itself. -/
def IsPlain (c : Char) : Prop :=
  0x20 ≤ c.toNat ∧ c ≠ '"' ∧ c ≠ '\\'

/-- One character of a string, spelled at the front of a text. -/
inductive Spelled : List Char → Char → List Char → Prop
  | plain {c : Char} {rest : List Char} (hc : IsPlain c) : Spelled (c :: rest) c rest
  | short {letter c : Char} {rest : List Char} (hc : shortEscape? letter = some c) :
    Spelled ('\\' :: letter :: rest) c rest
  | code {a b c d : Char} {n : Nat} {rest : List Char} (hn : codeUnit? a b c d = some n)
    (hscalar : n < 0xD800 ∨ 0xDFFF < n) :
    Spelled ('\\' :: 'u' :: a :: b :: c :: d :: rest) (Char.ofNat n) rest
  /-- A character beyond four digits, as a pair of surrogates. -/
  | pair {a b c d a' b' c' d' : Char} {high low : Nat} {rest : List Char}
    (hhigh : codeUnit? a b c d = some high) (hhighRange : 0xD800 ≤ high ∧ high < 0xDC00)
    (hlow : codeUnit? a' b' c' d' = some low) (hlowRange : 0xDC00 ≤ low ∧ low < 0xE000) :
    Spelled ('\\' :: 'u' :: a :: b :: c :: d :: '\\' :: 'u' :: a' :: b' :: c' :: d' :: rest)
      (Char.ofNat (0x10000 + (high - 0xD800) * 0x400 + (low - 0xDC00))) rest

/-- The characters of a string after its opening quote, up to the closing one. -/
inductive Quoted : List Char → List Char → List Char → Prop
  | close {rest : List Char} : Quoted ('"' :: rest) [] rest
  | char {text later chars rest : List Char} {c : Char} (hc : Spelled text c later)
    (hrest : Quoted later chars rest) : Quoted text (c :: chars) rest

/-- Whether a character may stand between tokens. -/
def isSpace (c : Char) : Bool :=
  c = ' ' || c = '\t' || c = '\n' || c = '\r'

def skipSpace (text : List Char) : List Char :=
  text.dropWhile isSpace

def IsDigits (digits : List Char) : Prop :=
  digits ≠ [] ∧ ∀ c ∈ digits, c.isDigit

/-- A number: its whole part has no zero in front, and a fraction and an exponent may follow. -/
inductive IsNumber : List Char → Prop
  | intro {sign whole fraction exponent : List Char} (hsign : sign = [] ∨ sign = ['-'])
    (hwhole : IsDigits whole) (hzero : whole.head? = some '0' → whole = ['0'])
    (hfraction : fraction = [] ∨ ∃ digits, IsDigits digits ∧ fraction = '.' :: digits)
    (hexponent : exponent = [] ∨ ∃ mark sign digits, (mark = 'e' ∨ mark = 'E') ∧
      (sign = [] ∨ sign = ['+'] ∨ sign = ['-']) ∧ IsDigits digits ∧
        exponent = mark :: sign ++ digits) :
    IsNumber (sign ++ whole ++ fraction ++ exponent)

mutual

/-- A value at the front of a text. -/
inductive Value : List Char → Json → List Char → Prop
  | null {rest : List Char} : Value ('n' :: 'u' :: 'l' :: 'l' :: rest) .null rest
  | true {rest : List Char} : Value ('t' :: 'r' :: 'u' :: 'e' :: rest) (.boolean .true) rest
  | false {rest : List Char} :
    Value ('f' :: 'a' :: 'l' :: 's' :: 'e' :: rest) (.boolean .false) rest
  | number {text literal rest : List Char} (hliteral : IsNumber literal)
    (htext : text = literal ++ rest) : Value text (.number literal) rest
  | string {text chars rest : List Char} (h : Quoted text chars rest) :
    Value ('"' :: text) (.string (String.ofList chars)) rest
  | emptyArray {text rest : List Char} (h : skipSpace text = ']' :: rest) :
    Value ('[' :: text) (.array []) rest
  | array {text rest : List Char} {items : List Json} (h : Items text items rest) :
    Value ('[' :: text) (.array items) rest
  | emptyObject {text rest : List Char} (h : skipSpace text = '\x7d' :: rest) :
    Value ('\x7b' :: text) (.object []) rest
  | object {text rest : List Char} {members : List (String × Json)}
    (h : Members text members rest) : Value ('\x7b' :: text) (.object members) rest

/-- The items of an array, up to its closing bracket. -/
inductive Items : List Char → List Json → List Char → Prop
  | last {text after rest : List Char} {item : Json} (hitem : Value (skipSpace text) item after)
    (hend : skipSpace after = ']' :: rest) : Items text [item] rest
  | cons {text after later rest : List Char} {item : Json} {items : List Json}
    (hitem : Value (skipSpace text) item after) (hcomma : skipSpace after = ',' :: later)
    (hrest : Items later items rest) : Items text (item :: items) rest

/-- The members of an object, up to its closing brace. -/
inductive Members : List Char → List (String × Json) → List Char → Prop
  | last {text key afterKey value after rest : List Char} {chars : List Char} {item : Json}
    (hquote : skipSpace text = '"' :: key) (hkey : Quoted key chars afterKey)
    (hcolon : skipSpace afterKey = ':' :: value) (hitem : Value (skipSpace value) item after)
    (hend : skipSpace after = '\x7d' :: rest) : Members text [(String.ofList chars, item)] rest
  | cons {text key afterKey value after later rest : List Char} {chars : List Char} {item : Json}
    {members : List (String × Json)} (hquote : skipSpace text = '"' :: key)
    (hkey : Quoted key chars afterKey) (hcolon : skipSpace afterKey = ':' :: value)
    (hitem : Value (skipSpace value) item after) (hcomma : skipSpace after = ',' :: later)
    (hrest : Members later members rest) :
    Members text ((String.ofList chars, item) :: members) rest

end

/-- The text is a value from end to end, but for space around it. -/
def Reads (text : List Char) (value : Json) : Prop :=
  ∃ rest, Value (skipSpace text) value rest ∧ skipSpace rest = []

/-- Space and spellings that compact texts do without. -/
example : Reads " [ \"\\u0041\\/\" ,null]\n".toList (.array [.string "A/", .null]) :=
  ⟨['\n'], .array (.cons (.string (.char (.code rfl (by decide)) (.char (.short rfl) .close))) rfl
    (.last .null rfl)), rfl⟩

/-! ## Strings -/

variable {text rest chars found : List Char} {c d letter : Char}

theorem spelled_plain_iff (hc : IsPlain c) : Spelled (c :: text) d rest ↔ d = c ∧ rest = text := by
  constructor
  · intro h
    cases h with
    | plain => exact ⟨rfl, rfl⟩
    | short => exact absurd rfl hc.2.2
    | code => exact absurd rfl hc.2.2
    | pair => exact absurd rfl hc.2.2
  · rintro ⟨rfl, rfl⟩
    exact .plain hc

theorem spelled_short_iff (hc : shortEscape? letter = some c) :
    Spelled ('\\' :: letter :: text) d rest ↔ d = c ∧ rest = text := by
  constructor
  · intro h
    cases h with
    | plain hplain => exact absurd rfl hplain.2.2
    | short hd =>
      rw [hc, Option.some.injEq] at hd
      exact ⟨hd.symm, rfl⟩
    | code => cases hc
    | pair => cases hc
  · rintro ⟨rfl, rfl⟩
    exact .short hc

theorem hexDigit?_digitChar : ∀ n < 16, hexDigit? (Nat.digitChar n) = some n := by
  decide

theorem codeUnit?_control (hc : c < ' ') :
    codeUnit? '0' '0' (Nat.digitChar (c.toNat / 16)) (Nat.digitChar (c.toNat % 16)) =
      some c.toNat := by
  have hlt : c.toNat < 32 := hc
  have hzero : hexDigit? '0' = some 0 := rfl
  have hvalue : ((0 * 16 + 0) * 16 + c.toNat / 16) * 16 + c.toNat % 16 = c.toNat := by omega
  unfold codeUnit?
  rw [hzero, hexDigit?_digitChar _ (by omega), hexDigit?_digitChar _ (by omega)]
  exact congrArg some hvalue

theorem spelled_control_iff (hc : c < ' ') :
    Spelled (JsonString.controlEscape c ++ text) d rest ↔ d = c ∧ rest = text := by
  have hlt : c.toNat < 32 := hc
  have hunit := codeUnit?_control hc
  constructor
  · intro h
    cases h with
    | plain hplain => exact absurd rfl hplain.2.2
    | short hd => cases hd
    | code hn =>
      rw [hunit, Option.some.injEq] at hn
      rw [← hn, Char.ofNat_toNat]
      exact ⟨rfl, rfl⟩
    | pair hhigh hhighRange =>
      rw [hunit, Option.some.injEq] at hhigh
      omega
  · rintro ⟨rfl, rfl⟩
    have hspelled : Spelled (JsonString.controlEscape d ++ rest) (Char.ofNat d.toNat) rest :=
      .code hunit (by omega)
    rwa [Char.ofNat_toNat] at hspelled

/-- An escaped character is read as that character alone. -/
theorem spelled_escape_iff :
    Spelled (JsonString.escape c ++ text) d rest ↔ d = c ∧ rest = text := by
  unfold JsonString.escape
  split
  · exact spelled_short_iff rfl
  · exact spelled_short_iff rfl
  · exact spelled_short_iff rfl
  · exact spelled_short_iff rfl
  · exact spelled_short_iff rfl
  · exact spelled_short_iff rfl
  · exact spelled_short_iff rfl
  · next hquote hbackslash _ _ _ _ _ =>
    split_ifs with hcontrol
    · exact spelled_control_iff hcontrol
    · exact spelled_plain_iff ⟨Nat.le_of_not_lt hcontrol, hquote, hbackslash⟩

/-- The quote that ends a string does not spell a character of it. -/
theorem not_spelled_quote : ¬Spelled ('"' :: text) c rest := by
  intro h
  cases h with
  | plain hplain => exact hplain.2.1 rfl

theorem quoted_quote_iff : Quoted ('"' :: text) found rest ↔ found = [] ∧ rest = text := by
  constructor
  · intro h
    cases h with
    | close => exact ⟨rfl, rfl⟩
    | char hc => exact absurd hc not_spelled_quote
  · rintro ⟨rfl, rfl⟩
    exact .close

theorem quoted_escape_iff :
    Quoted (JsonString.escape c ++ text) found rest ↔
      ∃ later, found = c :: later ∧ Quoted text later rest := by
  constructor
  · intro h
    generalize hfront : JsonString.escape c ++ text = front at h
    cases h with
    | close =>
      have hspelled : Spelled (JsonString.escape c ++ text) c text :=
        spelled_escape_iff.mpr ⟨rfl, rfl⟩
      rw [hfront] at hspelled
      exact absurd hspelled not_spelled_quote
    | char hc hrest =>
      rw [← hfront, spelled_escape_iff] at hc
      obtain ⟨rfl, rfl⟩ := hc
      exact ⟨_, rfl, hrest⟩
  · rintro ⟨later, rfl, hrest⟩
    exact .char (spelled_escape_iff.mpr ⟨rfl, rfl⟩) hrest

/-- What was escaped is read back, up to the quote after it. -/
theorem quoted_flatMap_escape_iff :
    Quoted (chars.flatMap JsonString.escape ++ '"' :: text) found rest ↔
      found = chars ∧ rest = text := by
  induction chars generalizing found with
  | nil => exact quoted_quote_iff
  | cons c chars ih =>
    rw [List.flatMap_cons, List.append_assoc, quoted_escape_iff]
    constructor
    · rintro ⟨later, rfl, hlater⟩
      obtain ⟨rfl, rfl⟩ := ih.mp hlater
      exact ⟨rfl, rfl⟩
    · rintro ⟨rfl, rfl⟩
      exact ⟨chars, rfl, ih.mpr ⟨rfl, rfl⟩⟩

/-! ### Characters of an encoded string -/

theorem space_le_digitChar : ∀ n < 16, 0x20 ≤ (Nat.digitChar n).toNat := by
  decide

theorem space_le_of_mem_escape : ∀ d ∈ JsonString.escape c, 0x20 ≤ d.toNat := by
  unfold JsonString.escape
  split
  · simp
  · simp
  · simp
  · simp
  · simp
  · simp
  · simp
  · split_ifs with hcontrol
    · have hlt : c.toNat < 32 := hcontrol
      simp only [JsonString.controlEscape, List.forall_mem_cons]
      exact ⟨by decide, by decide, by decide, by decide, space_le_digitChar _ (by omega),
        space_le_digitChar _ (by omega), List.forall_mem_nil _⟩
    · rw [List.forall_mem_singleton]
      exact Nat.le_of_not_lt hcontrol

/-- Whatever a string holds, its encoding holds no character below the space. -/
theorem space_le_of_mem_encode (s : String) :
    ∀ c ∈ (JsonString.encode s).toList, 0x20 ≤ c.toNat := by
  rw [JsonString.encode, String.toList_ofList, List.forall_mem_append, List.forall_mem_cons]
  refine ⟨⟨by decide, ?_⟩, by simp⟩
  intro d hd
  obtain ⟨c, -, hc⟩ := List.mem_flatMap.mp hd
  exact space_le_of_mem_escape d hc

/-! ## Values -/

/-- The text has no space in front, and is read as the value alone, whatever comes after it. -/
structure ReadsOnlyAs (text : List Char) (value : Json) : Prop where
  skipSpace_append : ∀ rest, skipSpace (text ++ rest) = text ++ rest
  value_append_iff : ∀ rest found after,
    Value (text ++ rest) found after ↔ found = value ∧ after = rest

variable {after : List Char} {value item : Json} {values items : List Json}

theorem IsNumber.exists_head {literal : List Char} (h : IsNumber literal) :
    ∃ c rest, literal = c :: rest ∧ (c = '-' ∨ c.isDigit) := by
  obtain ⟨rfl | rfl, hwhole, -, -, -⟩ := h
  · obtain ⟨c, rest, rfl⟩ := List.exists_cons_of_ne_nil hwhole.1
    exact ⟨c, _, rfl, Or.inr (hwhole.2 c List.mem_cons_self)⟩
  · exact ⟨'-', _, rfl, Or.inl rfl⟩

/-- A text that starts like a number starts with a sign or a digit. -/
theorem head_of_eq_number_append {literal : List Char} (h : IsNumber literal)
    (htext : c :: text = literal ++ rest) : c = '-' ∨ c.isDigit := by
  obtain ⟨first, others, rfl, hfirst⟩ := h.exists_head
  rw [List.cons_append] at htext
  cases htext
  exact hfirst

theorem value_quote_iff :
    Value ('"' :: text) value rest ↔
      ∃ chars, Quoted text chars rest ∧ value = .string (String.ofList chars) := by
  constructor
  · intro h
    cases h with
    | number hliteral htext => exact absurd (head_of_eq_number_append hliteral htext) (by decide)
    | string hquoted => exact ⟨_, hquoted, rfl⟩
  · rintro ⟨chars, hquoted, rfl⟩
    exact .string hquoted

theorem value_bracket_iff :
    Value ('[' :: text) value rest ↔
      ∃ items, value = .array items ∧
        (items = [] ∧ skipSpace text = ']' :: rest ∨ Items text items rest) := by
  constructor
  · intro h
    cases h with
    | number hliteral htext => exact absurd (head_of_eq_number_append hliteral htext) (by decide)
    | emptyArray hend => exact ⟨[], rfl, Or.inl ⟨rfl, hend⟩⟩
    | array hitems => exact ⟨_, rfl, Or.inr hitems⟩
  · rintro ⟨items, rfl, ⟨rfl, hend⟩ | hitems⟩
    · exact .emptyArray hend
    · exact .array hitems

theorem not_value_closingBracket : ¬Value (']' :: text) value rest := by
  intro h
  cases h with
  | number hliteral htext => exact absurd (head_of_eq_number_append hliteral htext) (by decide)

theorem readsOnlyAs_encode (s : String) :
    ReadsOnlyAs (JsonString.encode s).toList (.string s) where
  skipSpace_append rest := by
    rw [JsonString.encode, String.toList_ofList]
    rfl
  value_append_iff rest found after := by
    have htext : (JsonString.encode s).toList ++ rest =
        '"' :: (s.toList.flatMap JsonString.escape ++ '"' :: rest) := by
      rw [JsonString.encode, String.toList_ofList, List.append_assoc]
      rfl
    rw [htext, value_quote_iff]
    simp only [quoted_flatMap_escape_iff]
    constructor
    · rintro ⟨_, ⟨rfl, rfl⟩, rfl⟩
      rw [String.ofList_toList]
      exact ⟨rfl, rfl⟩
    · rintro ⟨rfl, rfl⟩
      exact ⟨_, ⟨rfl, rfl⟩, by rw [String.ofList_toList]⟩

/-! ## Arrays -/

/-- The texts between brackets, with commas and nothing else between them. -/
def arrayText (texts : List (List Char)) : List Char :=
  '[' :: [','].intercalate texts ++ [']']

theorem ReadsOnlyAs.items_last_iff (h : ReadsOnlyAs text item) :
    Items (text ++ ']' :: rest) items after ↔ items = [item] ∧ after = rest := by
  have hend : skipSpace (']' :: rest) = ']' :: rest := rfl
  constructor
  · intro hitems
    cases hitems with
    | last hitem hafter =>
      rw [h.skipSpace_append, h.value_append_iff] at hitem
      obtain ⟨rfl, rfl⟩ := hitem
      cases hend.symm.trans hafter
      exact ⟨rfl, rfl⟩
    | cons hitem hafter =>
      rw [h.skipSpace_append, h.value_append_iff] at hitem
      obtain ⟨rfl, rfl⟩ := hitem
      cases hend.symm.trans hafter
  · rintro ⟨rfl, rfl⟩
    refine .last ?_ hend
    rw [h.skipSpace_append, h.value_append_iff]
    exact ⟨rfl, rfl⟩

theorem ReadsOnlyAs.items_cons_iff (h : ReadsOnlyAs text item) :
    Items (text ++ ',' :: rest) items after ↔
      ∃ later, items = item :: later ∧ Items rest later after := by
  have hcomma : skipSpace (',' :: rest) = ',' :: rest := rfl
  constructor
  · intro hitems
    cases hitems with
    | last hitem hafter =>
      rw [h.skipSpace_append, h.value_append_iff] at hitem
      obtain ⟨rfl, rfl⟩ := hitem
      cases hcomma.symm.trans hafter
    | cons hitem hafter hrest =>
      rw [h.skipSpace_append, h.value_append_iff] at hitem
      obtain ⟨rfl, rfl⟩ := hitem
      cases hcomma.symm.trans hafter
      exact ⟨_, rfl, hrest⟩
  · rintro ⟨later, rfl, hrest⟩
    refine .cons ?_ hcomma hrest
    rw [h.skipSpace_append, h.value_append_iff]
    exact ⟨rfl, rfl⟩

variable {first : List Char} {texts : List (List Char)}

theorem items_intercalate_iff (hfirst : ReadsOnlyAs first item)
    (htexts : List.Forall₂ ReadsOnlyAs texts values) :
    Items ([','].intercalate (first :: texts) ++ ']' :: rest) items after ↔
      items = item :: values ∧ after = rest := by
  induction htexts generalizing first item items with
  | nil =>
    rw [List.intercalate_singleton]
    exact hfirst.items_last_iff
  | @cons second next texts values hsecond htexts ih =>
    rw [List.intercalate_cons_cons, List.append_assoc, List.append_assoc, List.singleton_append,
      hfirst.items_cons_iff]
    constructor
    · rintro ⟨later, rfl, hlater⟩
      obtain ⟨rfl, rfl⟩ := (ih hsecond).mp hlater
      exact ⟨rfl, rfl⟩
    · rintro ⟨rfl, rfl⟩
      exact ⟨_, rfl, (ih hsecond).mpr ⟨rfl, rfl⟩⟩

/-- No value starts with a closing bracket, so an array that is not empty does not look empty. -/
theorem ReadsOnlyAs.skipSpace_intercalate_ne (hfirst : ReadsOnlyAs first item) :
    skipSpace ([','].intercalate (first :: texts) ++ rest) ≠ ']' :: after := by
  intro hend
  obtain ⟨others, hothers⟩ : ∃ others, [','].intercalate (first :: texts) ++ rest =
      first ++ others := by
    cases texts with
    | nil => exact ⟨rest, by rw [List.intercalate_singleton]⟩
    | cons second texts =>
      rw [List.intercalate_cons_cons, List.append_assoc, List.append_assoc]
      exact ⟨_, rfl⟩
  have hvalue := (hfirst.value_append_iff others item others).mpr ⟨rfl, rfl⟩
  rw [hothers, hfirst.skipSpace_append] at hend
  rw [hend] at hvalue
  exact not_value_closingBracket hvalue

theorem readsOnlyAs_arrayText (hfirst : ReadsOnlyAs first item)
    (htexts : List.Forall₂ ReadsOnlyAs texts values) :
    ReadsOnlyAs (arrayText (first :: texts)) (.array (item :: values)) where
  skipSpace_append rest := rfl
  value_append_iff rest found after := by
    have htext : arrayText (first :: texts) ++ rest =
        '[' :: ([','].intercalate (first :: texts) ++ ']' :: rest) := by
      rw [arrayText, List.append_assoc]
      rfl
    rw [htext, value_bracket_iff]
    simp only [hfirst.skipSpace_intercalate_ne, and_false, false_or,
      items_intercalate_iff hfirst htexts]
    constructor
    · rintro ⟨_, rfl, rfl, rfl⟩
      exact ⟨rfl, rfl⟩
    · rintro ⟨rfl, rfl⟩
      exact ⟨_, rfl, rfl, rfl⟩

/-- Such a text has one reading as a whole. -/
theorem ReadsOnlyAs.reads_iff (h : ReadsOnlyAs text value) {found : Json} :
    Reads text found ↔ found = value := by
  have hskip := h.skipSpace_append []
  have hvalue := h.value_append_iff []
  rw [List.append_nil] at hskip hvalue
  unfold Reads
  simp only [hskip, hvalue]
  constructor
  · rintro ⟨_, ⟨hfound, -⟩, -⟩
    exact hfound
  · intro hfound
    exact ⟨[], ⟨hfound, rfl⟩, rfl⟩

end Json

end StochasticGrammar.Text
