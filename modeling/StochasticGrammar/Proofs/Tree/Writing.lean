import Mathlib.Logic.Function.Basic
import StochasticGrammar.Proofs.Text.Json
import StochasticGrammar.Proofs.Text.Pieces
import StochasticGrammar.Tree

/-!
# Trees can be read back

Both written forms of a tree determine it: the JSON form for all labels and words, and the bracketed
form for those that real counts and sentences can hold.
-/

namespace StochasticGrammar

/-! ## Trees as JSON

The JSON form of a tree is read in one way only, as nested arrays that give the tree back, whatever
its labels and words are.  It is never `null`, and no character of it lies below the space, so it
stands on one line.
-/

namespace Tree

open Text (Json)

/-- The nested arrays that stand for a tree. -/
def toJson : Tree → Json
  | leaf label word => .array [.string label, .string word]
  | node label left right => .array [.string label, left.toJson, right.toJson]

/-- The tree that nested arrays stand for: a label and a word, or a label and two trees. -/
def ofJson? : Json → Option Tree
  | .array [.string label, .string word] => some (leaf label word)
  | .array [.string label, left, right] => do
    let left ← ofJson? left
    let right ← ofJson? right
    some (node label left right)
  | _ => none

theorem ofJson?_toJson (tree : Tree) : ofJson? tree.toJson = some tree := by
  induction tree with
  | leaf label word => rfl
  | node label left right ihLeft ihRight =>
    rw [toJson, ofJson?, ihLeft, ihRight]
    rfl

/-! ### The text -/

open Text.Json (arrayText ReadsOnlyAs readsOnlyAs_arrayText readsOnlyAs_encode)

theorem toList_json_leaf (label word : String) :
    (leaf label word).json.toList =
      arrayText [(Text.JsonString.encode label).toList, (Text.JsonString.encode word).toList] := by
  simp [json, arrayText]

theorem toList_json_node (label : String) (left right : Tree) :
    (node label left right).json.toList =
      arrayText [(Text.JsonString.encode label).toList, left.json.toList, right.json.toList] := by
  simp [json, arrayText]

/-- The JSON form of a tree is read as its arrays, whatever comes after it. -/
theorem readsOnlyAs_json (tree : Tree) : ReadsOnlyAs tree.json.toList tree.toJson := by
  induction tree with
  | leaf label word =>
    rw [toList_json_leaf]
    exact readsOnlyAs_arrayText (readsOnlyAs_encode label) (.cons (readsOnlyAs_encode word) .nil)
  | node label left right ihLeft ihRight =>
    rw [toList_json_node]
    exact readsOnlyAs_arrayText (readsOnlyAs_encode label) (.cons ihLeft (.cons ihRight .nil))

theorem json_ne_null (tree : Tree) : tree.json ≠ "null" := by
  intro h
  have hnull := congrArg String.toList h
  cases tree with
  | leaf =>
    rw [toList_json_leaf] at hnull
    cases hnull
  | node =>
    rw [toList_json_node] at hnull
    cases hnull

theorem space_le_of_mem_json (tree : Tree) : ∀ c ∈ tree.json.toList, 0x20 ≤ c.toNat := by
  induction tree with
  | leaf label word =>
    simp only [json, String.toList_append, List.forall_mem_append]
    exact ⟨⟨⟨⟨by simp, Text.Json.space_le_of_mem_encode label⟩, by simp⟩,
      Text.Json.space_le_of_mem_encode word⟩, by simp⟩
  | node label left right ihLeft ihRight =>
    simp only [json, String.toList_append, List.forall_mem_append]
    exact ⟨⟨⟨⟨⟨⟨by simp, Text.Json.space_le_of_mem_encode label⟩, by simp⟩, ihLeft⟩,
      by simp⟩, ihRight⟩, by simp⟩

/-! ### Reading the text -/

/-- The JSON form of a tree has one reading, and that gives the tree back. -/
theorem reads_json_iff_toJson :
    (∀ (tree : Tree) value, Json.Reads tree.json.toList value ↔ value = tree.toJson) ∧
    (∀ tree : Tree, ofJson? tree.toJson = some tree) ∧
    Function.Injective json ∧
    ∀ tree : Tree, tree.json ≠ "null" ∧ ∀ c ∈ tree.json.toList, 0x20 ≤ c.toNat := by
  have hreads : ∀ (tree : Tree) value, Json.Reads tree.json.toList value ↔ value = tree.toJson :=
    fun tree _ ↦ tree.readsOnlyAs_json.reads_iff
  refine ⟨hreads, ofJson?_toJson, ?_, ?_⟩
  · intro first second hjson
    have hvalue : first.toJson = second.toJson := by
      rw [← hreads, ← hjson, hreads]
    rw [← Option.some.injEq, ← ofJson?_toJson first, hvalue, ofJson?_toJson second]
  · intro tree
    exact ⟨tree.json_ne_null, tree.space_le_of_mem_json⟩

end Tree

/-! ## Trees in brackets

Nothing is escaped in the bracketed form of a tree, so a word may look like a part of the tree and
its last brackets run into those of the nodes it ends.  Still, the form can be read in one way only
if labels and words hold no space and no label ends with a closing bracket.  Cut at its spaces, it
shows which pieces are labels and which are words.  That fixes the shape of the tree, and the shape
tells how many of the closing brackets behind a word are not the word's own.
-/

/-- A label that cannot be taken for a word: it holds no space and no closing bracket ends it. -/
def IsPlainLabel (label : String) : Prop :=
  ' ' ∉ label.toList ∧ label.toList.getLast? ≠ some ')'

instance (label : String) : Decidable (IsPlainLabel label) :=
  inferInstanceAs (Decidable (_ ∧ _))

namespace Tree

/-- All labels are plain and no word holds a space. -/
def IsReadable : Tree → Prop
  | leaf label word => IsPlainLabel label ∧ ' ' ∉ word.toList
  | node label left right => IsPlainLabel label ∧ left.IsReadable ∧ right.IsReadable

instance decidableIsReadable : (tree : Tree) → Decidable tree.IsReadable
  | leaf _ _ => inferInstanceAs (Decidable (_ ∧ _))
  | node _ left right =>
    haveI := decidableIsReadable left
    haveI := decidableIsReadable right
    inferInstanceAs (Decidable (_ ∧ _ ∧ _))

/-! ### Pieces of the form -/

/-- A label behind the bracket that opens its node. -/
def labelPiece (label : String) : List Char :=
  '(' :: label.toList

/-- A word in front of the brackets that close the nodes it ends. -/
def wordPiece (word : String) (closed : Nat) : List Char :=
  word.toList ++ List.replicate closed ')'

/-- The form cut at its spaces, when the end of the tree ends so many nodes around it. -/
def pieces (closed : Nat) : Tree → List (List Char)
  | leaf label word => [labelPiece label, wordPiece word (closed + 1)]
  | node label left right => labelPiece label :: (left.pieces 0 ++ right.pieces (closed + 1))

theorem toList_bracketed_leaf (label word : String) (closed : Nat) :
    (leaf label word).bracketed.toList ++ List.replicate closed ')' =
      labelPiece label ++ ' ' :: wordPiece word (closed + 1) := by
  simp [bracketed, labelPiece, wordPiece, List.replicate_succ]

theorem toList_bracketed_node (label : String) (left right : Tree) (closed : Nat) :
    (node label left right).bracketed.toList ++ List.replicate closed ')' =
      labelPiece label ++ ' ' :: (left.bracketed.toList ++ List.replicate 0 ')' ++
        ' ' :: (right.bracketed.toList ++ List.replicate (closed + 1) ')')) := by
  simp [bracketed, labelPiece, List.replicate_succ]

theorem space_not_mem_labelPiece {label : String} (h : IsPlainLabel label) :
    ' ' ∉ labelPiece label := by
  simpa [labelPiece] using h.1

theorem space_not_mem_wordPiece {word : String} (h : ' ' ∉ word.toList) (closed : Nat) :
    ' ' ∉ wordPiece word closed := by
  simp [wordPiece, h]

/-- A piece that stands before a space is cut off there. -/
theorem pieces_append_space {piece : List Char} (h : ' ' ∉ piece) (rest : List Char) :
    Text.pieces (· = ' ') (piece ++ ' ' :: rest) = piece :: Text.pieces (· = ' ') rest :=
  Text.pieces_append_cons (Text.isBreak_of_not_mem h) (by simp) rest

/-- Cutting the form at its spaces gives its pieces, whatever follows behind another space. -/
theorem pieces_bracketed {tree : Tree} (h : tree.IsReadable) (closed : Nat) (rest : List Char) :
    Text.pieces (· = ' ') (tree.bracketed.toList ++ List.replicate closed ')' ++ ' ' :: rest) =
      tree.pieces closed ++ Text.pieces (· = ' ') rest := by
  induction tree generalizing closed rest with
  | leaf label word =>
    rw [toList_bracketed_leaf, List.append_assoc, List.cons_append,
      pieces_append_space (space_not_mem_labelPiece h.1),
      pieces_append_space (space_not_mem_wordPiece h.2 _)]
    rfl
  | node label left right ihLeft ihRight =>
    rw [toList_bracketed_node, List.append_assoc, List.cons_append,
      pieces_append_space (space_not_mem_labelPiece h.1), List.append_assoc, List.cons_append,
      ihLeft h.2.1, ihRight h.2.2]
    simp [pieces]

/-! ### Reading the pieces -/

theorem labelPiece_inj {label other : String} :
    labelPiece label = labelPiece other ↔ label = other := by
  simp [labelPiece, String.toList_inj]

theorem wordPiece_inj {word other : String} {closed : Nat} :
    wordPiece word closed = wordPiece other closed ↔ word = other := by
  simp [wordPiece, String.toList_inj]

/-- A piece ends with a closing bracket exactly if it is a word. -/
theorem labelPiece_ne_wordPiece {label : String} (h : IsPlainLabel label) (word : String)
    (closed : Nat) : labelPiece label ≠ wordPiece word (closed + 1) := by
  intro hsame
  have hword : (wordPiece word (closed + 1)).getLast? = some ')' := by
    rw [wordPiece, List.replicate_succ', ← List.append_assoc, List.getLast?_concat]
  rw [← hsame, labelPiece, List.getLast?_cons] at hword
  cases hlast : label.toList.getLast? with
  | none => simp [hlast] at hword
  | some c => exact h.2 (by simpa [hlast] using hword)

theorem IsReadable.isPlainLabel {tree : Tree} (h : tree.IsReadable) : IsPlainLabel tree.label := by
  cases tree with
  | leaf label word => exact h.1
  | node label left right => exact h.1

theorem exists_pieces_eq_cons (tree : Tree) (closed : Nat) :
    ∃ later, tree.pieces closed = labelPiece tree.label :: later := by
  cases tree <;> exact ⟨_, rfl⟩

/-- The second piece tells a leaf from an inner node. -/
theorem pieces_leaf_append_ne {left : Tree} (h : left.IsReadable) (label word other : String)
    (right : Tree) (closed : Nat) (rest otherRest : List (List Char)) :
    (leaf label word).pieces closed ++ rest ≠
      (node other left right).pieces closed ++ otherRest := by
  intro hpieces
  obtain ⟨later, hleft⟩ := left.exists_pieces_eq_cons 0
  simp only [pieces, hleft, List.cons_append, List.cons.injEq] at hpieces
  exact labelPiece_ne_wordPiece h.isPlainLabel word closed hpieces.2.1.symm

/-- The pieces determine the tree and where it ends among the pieces that follow. -/
theorem pieces_append_inj {tree other : Tree} (h : tree.IsReadable) (hother : other.IsReadable)
    {closed : Nat} {rest otherRest : List (List Char)}
    (hpieces : tree.pieces closed ++ rest = other.pieces closed ++ otherRest) :
    tree = other ∧ rest = otherRest := by
  -- The number of brackets at the end is the same for both trees, and so it is for their parts.
  induction tree generalizing other closed rest otherRest with
  | leaf label word =>
    cases other with
    | leaf otherLabel otherWord =>
      simpa [pieces, labelPiece_inj, wordPiece_inj, and_assoc] using hpieces
    | node otherLabel otherLeft otherRight =>
      exact absurd hpieces (pieces_leaf_append_ne hother.2.1 _ _ _ _ _ _ _)
  | node label left right ihLeft ihRight =>
    cases other with
    | leaf otherLabel otherWord =>
      exact absurd hpieces.symm (pieces_leaf_append_ne h.2.1 _ _ _ _ _ _ _)
    | node otherLabel otherLeft otherRight =>
      simp only [pieces, List.cons_append, List.append_assoc, List.cons.injEq,
        labelPiece_inj] at hpieces
      obtain ⟨hleft, hlater⟩ := ihLeft h.2.1 hother.2.1 hpieces.2
      obtain ⟨hright, hrest⟩ := ihRight h.2.2 hother.2.2 hlater
      exact ⟨by rw [hpieces.1, hleft, hright], hrest⟩

/-- Different readable trees have different forms. -/
theorem bracketed_inj_of_isReadable {tree other : Tree} (h : tree.IsReadable)
    (hother : other.IsReadable) : tree.bracketed = other.bracketed ↔ tree = other := by
  constructor
  · intro hform
    have hcut := pieces_bracketed h 0 []
    rw [hform, pieces_bracketed hother 0 []] at hcut
    exact (pieces_append_inj h hother hcut.symm).1
  · intro htree
    rw [htree]

/-- Brackets in the words, and a label that is empty. -/
theorem bracketed_inj_of_bracketed_words :
    let tree := node "S" (leaf "" "(B") (leaf "C" "x))")
    let other := node "S" (leaf "" "(B") (leaf "C" "x)")
    (tree.IsReadable ∧ other.IsReadable) ∧
      (tree.bracketed = "(S ( (B) (C x))))" ∧ other.bracketed = "(S ( (B) (C x)))") ∧
        (tree.bracketed = other.bracketed ↔ tree = other) := by
  intro tree other
  have htree : tree.IsReadable := by decide
  have hother : other.IsReadable := by decide
  exact ⟨⟨htree, hother⟩, by decide +kernel, bracketed_inj_of_isReadable htree hother⟩

/-- Labels that end with a closing bracket can be taken for words. -/
example :
    (node "L" (node "A" (leaf "B)" "(x") (leaf "C" "y")) (leaf "D" "z)")).bracketed =
      (node "L" (leaf "A" "(B") (node "x)" (leaf "C" "y)") (leaf "D" "z"))).bracketed := by
  decide +kernel

end Tree

end StochasticGrammar
