/-!
# Trees and their written forms

A parse tree is printed on one line, as JSON or in brackets.
-/

namespace StochasticGrammar

/-! ## Trees

Parse trees: a leaf is a word under a symbol, and an inner node is two trees under a symbol.
-/

inductive Tree where
  | leaf (label word : String)
  | node (label : String) (left right : Tree)
deriving DecidableEq, Repr

namespace Tree

/-- The symbol at the root. -/
def label : Tree → String
  | leaf label _ => label
  | node label _ _ => label

/-- The words at the leaves, from left to right. -/
def words : Tree → List String
  | leaf _ word => [word]
  | node _ left right => left.words ++ right.words

end Tree

/-! ## JSON strings

The quote and the backslash are escaped, five control characters have short escapes, and the other
characters below the space are written with four hexadecimal digits.  All else is written as it is.
-/

namespace Text.JsonString

/-- A character below the space by its code point, in four lowercase hexadecimal digits. -/
def controlEscape (c : Char) : List Char :=
  ['\\', 'u', '0', '0', Nat.digitChar (c.toNat / 16), Nat.digitChar (c.toNat % 16)]

/-- A character as it stands inside a JSON string. -/
def escape (c : Char) : List Char :=
  match c with
  | '"' => ['\\', '"']
  | '\\' => ['\\', '\\']
  | '\x08' => ['\\', 'b']
  | '\x0c' => ['\\', 'f']
  | '\n' => ['\\', 'n']
  | '\r' => ['\\', 'r']
  | '\t' => ['\\', 't']
  | c => if c < ' ' then controlEscape c else [c]

/-- A text as a JSON string. -/
def encode (text : String) : String :=
  String.ofList ('"' :: text.toList.flatMap escape ++ ['"'])

end Text.JsonString

/-! ## Written forms of trees

A tree is written either as nested JSON arrays without spaces, a leaf with two elements and an inner
node with three, or in brackets, where nothing is escaped.
-/

/-- How trees are written. -/
inductive TreeFormat where
  | json
  | bracketed
deriving DecidableEq, Repr

namespace Tree

def json : Tree → String
  | leaf label word =>
    "[" ++ Text.JsonString.encode label ++ "," ++ Text.JsonString.encode word ++ "]"
  | node label left right =>
    "[" ++ Text.JsonString.encode label ++ "," ++ left.json ++ "," ++ right.json ++ "]"

def bracketed : Tree → String
  | leaf label word => "(" ++ label ++ " " ++ word ++ ")"
  | node label left right => "(" ++ label ++ " " ++ left.bracketed ++ " " ++ right.bracketed ++ ")"

def render : TreeFormat → Tree → String
  | .json, tree => tree.json
  | .bracketed, tree => tree.bracketed

end Tree

end StochasticGrammar
