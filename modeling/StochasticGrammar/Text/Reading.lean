/-!
# Reading texts

What comes in is a sequence of bytes.  It is cut into lines, the lines are decoded from UTF-8 and
trimmed of blanks, and what is left is cut into pieces.
-/

namespace StochasticGrammar.Text

/-! ## Blank characters

The characters with the white-space property: twenty-five of them in ten ranges.  Lines of counts
and sentences are trimmed of blanks at both ends before they are read.
-/

/-- The code points of the blank characters, as inclusive ranges in ascending order. -/
def blankRanges : List (Nat × Nat) :=
  [(0x09, 0x0D), (0x20, 0x20), (0x85, 0x85), (0xA0, 0xA0), (0x1680, 0x1680), (0x2000, 0x200A),
    (0x2028, 0x2029), (0x202F, 0x202F), (0x205F, 0x205F), (0x3000, 0x3000)]

/-- Whether a character is blank. -/
def isBlank (c : Char) : Bool :=
  blankRanges.any fun (low, high) ↦ low ≤ c.toNat && c.toNat ≤ high

/-- The text without the blanks at its end. -/
def trimEnd (text : List Char) : List Char :=
  (text.reverse.dropWhile isBlank).reverse

/-- The text without the blanks at either end. -/
def trim (text : List Char) : List Char :=
  trimEnd (text.dropWhile isBlank)

/-! ## Cutting a sequence at separators

Texts are cut in two ways.  Separators stand *between* pieces, so there is one piece more than there
are separators and pieces may be empty.  A line break *ends* its line, so what follows the last
break is a line only if it holds something.
-/

section Pieces

variable {α : Type}

/-- The pieces between the separators, from left to right. -/
def pieces (isSeparator : α → Bool) : List α → List (List α)
  | [] => [[]]
  | a :: rest =>
    if isSeparator a then [] :: pieces isSeparator rest
    else (pieces isSeparator rest).modifyHead (a :: ·)

/-- The lines, without the breaks that end them. -/
def lines (isBreak : α → Bool) : List α → List (List α)
  | [] => []
  | a :: rest =>
    if isBreak a then [] :: lines isBreak rest
    else
      match lines isBreak rest with
      | [] => [[a]]
      | line :: later => (a :: line) :: later

/-- The byte that ends a line. -/
def lineFeed : UInt8 := 10

end Pieces

/-! ## Reading UTF-8

Bytes are read one at a time.  A character of several bytes starts with a lead byte, which says how
many bytes follow and which values the first of them may have; the others lie between `80` and
`BF`.  Where the bytes stop being the start of any character, what has been read of it is one
broken stretch, and reading goes on at the byte that did not fit.  Strict reading refuses a broken
stretch, and lossy reading puts one replacement character in its place.
-/

namespace Utf8

/-- A character of which at least one byte is still to come. -/
structure Unfinished where
  /-- The bits read so far. -/
  bits : Nat
  /-- How many bytes follow the next one. -/
  afterNext : Nat
  /-- The least value of the next byte. -/
  low : Nat
  /-- The greatest value of the next byte. -/
  high : Nat
deriving DecidableEq, Repr

/-- What a byte is when no character is unfinished. -/
inductive Lead where
  /-- A character by itself. -/
  | whole (char : Char)
  /-- The first byte of a longer character. -/
  | first (rest : Unfinished)
  /-- The first byte of no character. -/
  | stray
deriving DecidableEq, Repr

/-- Classifies a byte that starts a character. -/
def lead (byte : Nat) : Lead :=
  if byte < 0x80 then .whole (Char.ofNat byte)
  else if byte < 0xC2 then .stray
  else if byte < 0xE0 then .first ⟨byte - 0xC0, 0, 0x80, 0xBF⟩
  else if byte < 0xF0 then
    .first ⟨byte - 0xE0, 1, if byte = 0xE0 then 0xA0 else 0x80, if byte = 0xED then 0x9F else 0xBF⟩
  else if byte < 0xF5 then
    .first ⟨byte - 0xF0, 2, if byte = 0xF0 then 0x90 else 0x80, if byte = 0xF4 then 0x8F else 0xBF⟩
  else .stray

/-- One step of reading: the characters and broken stretches (`none`) that a byte completes, and
the character it leaves unfinished. -/
def step (unfinished : Option Unfinished) (byte : Nat) : List (Option Char) × Option Unfinished :=
  match unfinished with
  | some u =>
    if u.low ≤ byte ∧ byte ≤ u.high then
      let bits := u.bits * 64 + byte % 64
      match u.afterNext with
      | 0 => ([some (Char.ofNat bits)], none)
      | n + 1 => ([], some ⟨bits, n, 0x80, 0xBF⟩)
    else
      let (found, next) := start byte
      (none :: found, next)
  | none => start byte
where
  /-- Reads a byte with no character unfinished. -/
  start (byte : Nat) : List (Option Char) × Option Unfinished :=
    match lead byte with
    | .whole char => ([some char], none)
    | .first u => ([], some u)
    | .stray => ([none], none)

/-- Reads bytes after an unfinished character.  One that is still unfinished at the end is
broken. -/
def scan : Option Unfinished → List UInt8 → List (Option Char)
  | none, [] => []
  | some _, [] => [none]
  | unfinished, byte :: bytes =>
    let (found, next) := step unfinished byte.toNat
    found ++ scan next bytes

/-- The characters of a sequence of bytes, with `none` for each broken stretch. -/
def decode (bytes : List UInt8) : List (Option Char) :=
  scan none bytes

/-- The text that the bytes encode, if they encode one. -/
def decodeStrict? (bytes : List UInt8) : Option (List Char) :=
  (decode bytes).mapM id

/-- Stands for a broken stretch. -/
def replacement : Char := '\uFFFD'

/-- The text with every broken stretch replaced. -/
def decodeLossy (bytes : List UInt8) : List Char :=
  (decode bytes).map (·.getD replacement)

end Utf8

end StochasticGrammar.Text
