import StochasticGrammar.Proofs.Chart.Recovery
import StochasticGrammar.Proofs.Tree.Derivation

/-!
# Other words at the leaves

A tree can be given other words at its leaves, taken in order from a list.  If there are enough of
them the tree keeps its shape.  Otherwise the first leaf without a word is at fault: it is the leaf
after as many as there are words, or the first leaf of all if the words end before the tree starts.
-/

namespace StochasticGrammar.Tree

/-- The trees have the same branches and the same symbols, with any words at the leaves. -/
inductive SameShape : Tree → Tree → Prop
  | leaf (label word other : String) : SameShape (.leaf label word) (.leaf label other)
  | node (label : String) {left right otherLeft otherRight : Tree}
      (hleft : SameShape left otherLeft) (hright : SameShape right otherRight) :
      SameShape (.node label left right) (.node label otherLeft otherRight)

/-- The symbols over the words, from left to right. -/
def leafLabels : Tree → List String
  | leaf label _ => [label]
  | node _ left right => left.leafLabels ++ right.leafLabels

/-- The tree with the words from position `i` on at its leaves. -/
def replant (words : List String) : Nat → Tree → Except ParseFault Tree
  | i, leaf label _ =>
    match words[i]? with
    | some word => .ok (.leaf label word)
    | none => .error (.missingDerivation label i i)
  | i, node label left right =>
    Chart.join label (left.replant words i) (right.replant words (i + left.words.length))

variable {words : List String} {i : Nat}

theorem length_words_pos (tree : Tree) : 0 < tree.words.length :=
  List.length_pos_iff.mpr tree.words_ne_nil

theorem length_words_node (label : String) (left right : Tree) :
    (node label left right).words.length = left.words.length + right.words.length :=
  List.length_append

theorem length_leafLabels (tree : Tree) : tree.leafLabels.length = tree.words.length := by
  induction tree with
  | leaf label word => rfl
  | node label left right ihl ihr =>
    rw [leafLabels, List.length_append, ihl, ihr, length_words_node]

theorem exists_replant_of_le {tree : Tree} (h : i + tree.words.length ≤ words.length) :
    ∃ other, tree.replant words i = .ok other ∧ tree.SameShape other ∧
      other.words = (words.drop i).take tree.words.length := by
  induction tree generalizing i with
  | leaf label word =>
    have hi : i < words.length := h
    refine ⟨.leaf label words[i], ?_, .leaf _ _ _, ?_⟩
    · rw [replant, List.getElem?_eq_getElem hi]
    · rw [List.drop_eq_getElem_cons hi]
      rfl
  | node label left right ihl ihr =>
    rw [length_words_node, ← Nat.add_assoc] at h
    obtain ⟨otherLeft, hleft, hleftShape, hleftWords⟩ := ihl ((Nat.le_add_right _ _).trans h)
    obtain ⟨otherRight, hright, hrightShape, hrightWords⟩ := ihr h
    refine ⟨.node label otherLeft otherRight, ?_, .node label hleftShape hrightShape, ?_⟩
    · rw [replant, hleft, hright]
      rfl
    · rw [Tree.words, hleftWords, hrightWords, length_words_node, List.take_add, List.drop_drop]

theorem exists_replant_fault {tree : Tree} (h : words.length < i + tree.words.length) :
    ∃ label, tree.leafLabels[max i words.length - i]? = some label ∧
      tree.replant words i =
        .error (.missingDerivation label (max i words.length) (max i words.length)) := by
  induction tree generalizing i with
  | leaf label word =>
    have hi : words.length ≤ i := Nat.le_of_lt_succ h
    refine ⟨label, ?_, ?_⟩
    · rw [max_eq_left hi, Nat.sub_self]
      rfl
    · rw [replant, List.getElem?_eq_none hi, max_eq_left hi]
  | node label left right ihl ihr =>
    rw [length_words_node] at h
    have hleftLength := left.length_leafLabels
    have hpos := left.length_words_pos
    rcases Nat.lt_or_ge words.length (i + left.words.length) with hshort | hlong
    · obtain ⟨missing, hmissing, hfault⟩ := ihl hshort
      have hinside : max i words.length - i < left.leafLabels.length := by omega
      refine ⟨missing, ?_, ?_⟩
      · rw [leafLabels, List.getElem?_append_left hinside, hmissing]
      · rw [replant, hfault]
        rfl
    · obtain ⟨other, hother, -, -⟩ := exists_replant_of_le hlong
      obtain ⟨missing, hmissing, hfault⟩ := ihr (i := i + left.words.length) (by omega)
      have hsame : max (i + left.words.length) words.length = max i words.length := by omega
      have hoffset : max i words.length - (i + left.words.length) =
          max i words.length - i - left.leafLabels.length := by
        omega
      rw [hsame] at hmissing hfault
      rw [hoffset] at hmissing
      refine ⟨missing, ?_, ?_⟩
      · rw [leafLabels, List.getElem?_append_right (by omega), hmissing]
      · rw [replant, hother, hfault]
        rfl

end StochasticGrammar.Tree
