import StochasticGrammar.Text.Quoting
import StochasticGrammar.Text.Reading

/-!
# Counts and how they are read

A grammar is trained from a file of counts.  Each of its lines says how often a symbol or a rule was
seen.
-/

namespace StochasticGrammar

/-! ## Rules

The two shapes of rule in a grammar in Chomsky form, over symbols and words by name.
-/

/-- Expands a symbol into two symbols. -/
structure BinaryRule where
  parent : String
  left : String
  right : String
deriving DecidableEq, Repr

/-- Expands a symbol into a word. -/
structure UnaryRule where
  parent : String
  word : String
deriving DecidableEq, Repr

instance : ToString BinaryRule where
  toString rule := s!"{rule.parent} -> {rule.left} {rule.right}"

instance : ToString UnaryRule where
  toString rule := s!"{rule.parent} -> {rule.word}"

/-! ## Count records

A count record says how often a symbol or a rule was seen.  Its kind is written as one of three
names, each with a fixed number of fields.
-/

/-- How often a nonterminal symbol or a rule was seen. -/
inductive Record where
  | nonterminal (symbol : String) (count : Nat)
  | binary (rule : BinaryRule) (count : Nat)
  | unary (rule : UnaryRule) (count : Nat)
deriving DecidableEq, Repr

namespace Record

/-- The greatest count.  Counts are kept in 64 bits. -/
def maxCount : Nat := 18446744073709551615

inductive Kind where
  | nonterminal
  | binary
  | unary
deriving DecidableEq, Repr

/-- The name that stands for a kind in a counts file. -/
def Kind.name : Kind → String
  | nonterminal => "NONTERMINAL"
  | binary => "BINARYRULE"
  | unary => "UNARYRULE"

def Kind.ofName? (name : String) : Option Kind :=
  [nonterminal, binary, unary].find? (·.name = name)

/-- The record of a kind with the given count and fields, if there are as many as the kind has. -/
def ofFields? : Kind → Nat → List String → Option Record
  | .nonterminal, count, [symbol] => some (.nonterminal symbol count)
  | .binary, count, [parent, left, right] => some (.binary ⟨parent, left, right⟩ count)
  | .unary, count, [parent, word] => some (.unary ⟨parent, word⟩ count)
  | _, _, _ => none

end Record

/-! ## Lines of counts

A line holds a count, the name of a kind and the fields of a record, with spaces and tabs between
them.  Blanks around the line do not matter, and a line of blanks holds nothing.  In permissive
mode a kind of an unknown name is taken for a unary rule if there are two fields.
-/

namespace Record

/-- Whether kinds of unknown names may be taken for unary rules. -/
inductive Mode where
  | strict
  | permissive
deriving DecidableEq, Repr

/-- Why a line that is not blank holds no record. -/
inductive Malformation where
  /-- It is not a count, a name and fields. -/
  | shape
  /-- The kind does not have as many fields as were found. -/
  | fieldCount (found : Nat) (kind : Kind)
  /-- No kind has this name. -/
  | unknownKind (name : String)
deriving DecidableEq, Repr

def Malformation.reason : Malformation → String
  | shape => "expected '<count> <TYPE> <symbols...>'"
  | fieldCount found kind => s!"wrong number of fields ({found}) for {kind.name}"
  | unknownKind name => s!"unknown record type '{name}'"

/-- What a line holds. -/
inductive Content where
  | blank
  | record (record : Record)
  /-- A unary rule under an unknown name. -/
  | substituted (name : String) (rule : UnaryRule) (count : Nat)
deriving DecidableEq, Repr

def Content.record? : Content → Option Record
  | blank => none
  | record r => some r
  | substituted _ rule count => some (.unary rule count)

/-- The parts of a line of the right shape, before its kind is looked up. -/
structure Parts where
  count : Nat
  name : String
  fields : List String
deriving DecidableEq, Repr

/-- The number that a run of decimal digits stands for, up to the greatest count. -/
def count? (digits : List Char) : Option Nat :=
  if digits.all Char.isDigit then
    let count := digits.foldl (fun n d ↦ 10 * n + (d.toNat - '0'.toNat)) 0
    if count ≤ maxCount then some count else none
  else none

/-- Whether a character separates the parts of a line. -/
def isGap (c : Char) : Bool :=
  c = ' ' || c = '\t'

/-- The runs of characters between gaps. -/
def tokens (text : List Char) : List (List Char) :=
  (Text.pieces isGap text).filter (!·.isEmpty)

/-- Splits a trimmed line into its parts.  No part may hold a blank of another kind. -/
def parts? (text : List Char) : Option Parts :=
  match tokens text with
  | digits :: name :: fields =>
    if (name :: fields).any (·.any Text.isBlank) then none
    else (count? digits).map (⟨·, String.ofList name, fields.map String.ofList⟩)
  | _ => none

/-- The record that parts stand for. -/
def Parts.interpret (mode : Mode) (parts : Parts) : Except Malformation Content :=
  match Kind.ofName? parts.name with
  | some kind =>
    match ofFields? kind parts.count parts.fields with
    | some r => .ok (.record r)
    | none => .error (.fieldCount parts.fields.length kind)
  | none =>
    match mode, parts.fields with
    | .permissive, [parent, word] => .ok (.substituted parts.name ⟨parent, word⟩ parts.count)
    | _, _ => .error (.unknownKind parts.name)

def readLine (mode : Mode) (line : List Char) : Except Malformation Content :=
  let text := Text.trim line
  if text.isEmpty then .ok .blank
  else
    match parts? text with
    | none => .error .shape
    | some parts => parts.interpret mode

end Record

/-! ## Reading a counts file

The lines of a file are read in order, and each is decoded when its turn comes.  The first line
that cannot be read decides the outcome; what was noticed before it stays noticed.
-/

namespace Record

/-- Why the text of a file cannot be had. -/
inductive Unavailable where
  | notFound
  | notDirectory
  | isDirectory
  /-- For another reason, in the words of the system. -/
  | refused (description : String)
  /-- A line is not UTF-8. -/
  | invalidText
deriving DecidableEq, Repr

def Unavailable.message : Unavailable → String
  | notFound => "No such file or directory (os error 2)"
  | notDirectory => "Not a directory (os error 20)"
  | isDirectory => "Is a directory (os error 21)"
  | refused description => description
  | invalidText => "stream did not contain valid UTF-8"

/-- Why a counts file cannot be read. -/
inductive ReadFault where
  | unavailable (path : String) (cause : Unavailable)
  /-- The line of this number, counted from one, holds no record. -/
  | malformed (number : Nat) (text : String) (cause : Malformation)
deriving DecidableEq, Repr

def ReadFault.message : ReadFault → String
  | unavailable path cause => s!"cannot open counts file {Text.quoted path}: {cause.message}"
  | malformed number text cause =>
    s!"malformed count record on line {number}: '{text}' ({cause.reason})"

/-- A record under an unknown name was taken for a unary rule. -/
structure Substitution where
  number : Nat
  name : String
deriving DecidableEq, Repr

def Substitution.text (s : Substitution) : String :=
  s!"WARN reading unknown record type as UNARYRULE line_num={s.number} record_type={s.name}"

def Content.substitution? (number : Nat) : Content → Option Substitution
  | substituted name _ _ => some ⟨number, name⟩
  | _ => none

/-- The outcome of reading lines, with the substitutions made on the way. -/
structure Reading where
  substitutions : List Substitution := []
  outcome : Except ReadFault (List Record) := .ok []

/-- Reads the line of a given number. -/
def readNumbered (mode : Mode) (number : Nat) (line : List Char) : Except ReadFault Content :=
  match readLine mode line with
  | .ok content => .ok content
  | .error cause => .error (.malformed number (String.ofList (Text.trim line)) cause)

/-- Decodes and reads the line of a given number. -/
def readBytes (mode : Mode) (path : String) (number : Nat) (line : List UInt8) :
    Except ReadFault Content :=
  match Text.Utf8.decodeStrict? line with
  | none => .error (.unavailable path .invalidText)
  | some text => readNumbered mode number text

/-- What a line adds in front of what the lines after it give. -/
def Content.before (content : Content) (number : Nat) (later : Reading) : Reading where
  substitutions := (content.substitution? number).toList ++ later.substitutions
  outcome := later.outcome.map (content.record?.toList ++ ·)

namespace Reading

/-- Reads lines from a given number on. -/
def ofLines (mode : Mode) (path : String) : Nat → List (List UInt8) → Reading
  | _, [] => {}
  | number, line :: later =>
    match readBytes mode path number line with
    | .error fault => { outcome := .error fault }
    | .ok content => content.before number (ofLines mode path (number + 1) later)

/-- Reads the bytes of a counts file. -/
def ofBytes (mode : Mode) (path : String) (bytes : List UInt8) : Reading :=
  ofLines mode path 1 (Text.lines (· = Text.lineFeed) bytes)

end Reading

end Record

end StochasticGrammar
