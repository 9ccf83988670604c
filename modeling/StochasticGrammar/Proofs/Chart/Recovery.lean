import StochasticGrammar.Chart
import StochasticGrammar.Proofs.Chart.Recurrence
import StochasticGrammar.Proofs.Tree.Derivation

/-!
# Recovering trees

A tree is recovered by taking the splits of a chart from a span down to its words.  In a full chart
this never fails for an entry, and the tree is worth the score of the entry.
-/

namespace StochasticGrammar

/-! ## How recovery descends

Recovering a tree over several words takes the split that the entry of the span starts with and
joins the trees of the two parts.  The first part without a tree decides the fault.  Each part is
narrower than the span, so what is recovered can be described by induction on the width.
-/

namespace Chart

/-- The split that the entry of a span starts with, if it lies inside the span: the last word of
the left part and the symbols of the two parts. -/
def split? (chart : Chart) (i j symbol : Nat) : Option (Nat × Nat × Nat) :=
  match (chart.entry? i j symbol).map Entry.origin with
  | some (.split point left right) =>
    if i ≤ point ∧ point < j then some (point, left, right) else none
  | _ => none

/-- The tree over two parts, or the fault of the first part that has one. -/
def join (label : String) (left right : Except ParseFault Tree) : Except ParseFault Tree :=
  match left, right with
  | .ok leftTree, .ok rightTree => .ok (.node label leftTree rightTree)
  | .error fault, _ => .error fault
  | .ok _, .error fault => .error fault

variable {chart : Chart} {i j symbol point left right : Nat}

theorem split?_eq_some_iff :
    chart.split? i j symbol = some (point, left, right) ↔
      (chart.entry? i j symbol).map Entry.origin = some (.split point left right) ∧
        i ≤ point ∧ point < j := by
  unfold split?
  split
  · next other otherLeft otherRight horigin =>
    rw [horigin, Option.some.injEq, Origin.split.injEq]
    by_cases hinside : i ≤ other ∧ other < j
    · rw [if_pos hinside, Option.some.injEq, Prod.mk.injEq, Prod.mk.injEq]
      constructor
      · rintro ⟨rfl, rfl, rfl⟩
        exact ⟨⟨rfl, rfl, rfl⟩, hinside⟩
      · exact And.left
    · rw [if_neg hinside]
      constructor
      · intro h
        cases h
      · rintro ⟨⟨rfl, rfl, rfl⟩, h⟩
        exact absurd h hinside
  · next hnone =>
    constructor
    · intro h
      cases h
    · intro h
      exact absurd h.1 (hnone point left right)

theorem join_eq_ok_iff {label : String} {left right : Except ParseFault Tree} {tree : Tree} :
    join label left right = .ok tree ↔
      ∃ leftTree rightTree, left = .ok leftTree ∧ right = .ok rightTree ∧
        tree = .node label leftTree rightTree := by
  constructor
  · intro h
    cases left with
    | error fault => cases h
    | ok leftTree =>
      cases right with
      | error fault => cases h
      | ok rightTree =>
        cases h
        exact ⟨leftTree, rightTree, rfl, rfl, rfl⟩
  · rintro ⟨leftTree, rightTree, rfl, rfl, rfl⟩
    rfl

/-- A single word is a leaf, whatever the chart holds. -/
theorem recover_word (g : Grammar) (chart : Chart) (words : List String) (i symbol : Nat) :
    chart.recover g words i i symbol =
      match words[i]? with
      | some word => .ok (.leaf (g.symbolName symbol) word)
      | none => .error (.missingDerivation (g.symbolName symbol) i i) := by
  unfold recover
  exact if_pos rfl

theorem recover_of_split? (g : Grammar) (words : List String)
    (h : chart.split? i j symbol = some (point, left, right)) :
    chart.recover g words i j symbol =
      join (g.symbolName symbol) (chart.recover g words i point left)
        (chart.recover g words (point + 1) j right) := by
  obtain ⟨horigin, hinside⟩ := split?_eq_some_iff.mp h
  have hne : i ≠ j := by omega
  rw [recover, if_neg hne]
  simp only [horigin, dif_pos hinside]
  cases chart.recover g words i point left with
  | error fault => rfl
  | ok leftTree => cases chart.recover g words (point + 1) j right <;> rfl

theorem recover_of_no_split (g : Grammar) (words : List String) (hij : i ≠ j)
    (h : chart.split? i j symbol = none) :
    chart.recover g words i j symbol =
      .error (.missingDerivation (g.symbolName symbol) i j) := by
  rw [recover, if_neg hij]
  unfold split? at h
  split
  · next horigin =>
    rw [horigin] at h
    split
    · next hinside =>
      dsimp only at h
      rw [if_pos hinside] at h
      cases h
    · rfl
  · rfl

/-- What holds of single words, of spans that are not split, and of a split span if it holds of both
parts, holds of every span, since both parts of a split are narrower. -/
theorem split_induction (chart : Chart) {motive : Nat → Nat → Nat → Prop}
    (word : ∀ i symbol, motive i i symbol)
    (noSplit : ∀ i j symbol, i ≠ j → chart.split? i j symbol = none → motive i j symbol)
    (split : ∀ i j symbol point left right, i ≤ point → point < j →
      chart.split? i j symbol = some (point, left, right) → motive i point left →
        motive (point + 1) j right → motive i j symbol)
    (i j symbol : Nat) : motive i j symbol := by
  induction hwidth : j - i using Nat.strongRecOn generalizing i j symbol with
  | _ width ih =>
    by_cases hij : i = j
    · exact hij ▸ word i symbol
    · cases hsplit : chart.split? i j symbol with
      | none => exact noSplit i j symbol hij hsplit
      | some parts =>
        obtain ⟨point, left, right⟩ := parts
        obtain ⟨-, hi, hj⟩ := split?_eq_some_iff.mp hsplit
        exact split i j symbol point left right hi hj hsplit
          (ih (point - i) (by omega) i point left rfl)
          (ih (j - (point + 1)) (by omega) (point + 1) j right rfl)

end Chart

/-! ## Recovering the tree of an entry

Every entry of a full chart leads to a tree of its symbol over its span.  The tree has the words of
the sentence at its leaves, uses only rules that were seen, and its value is the score of the
entry.
-/

theorem Grammar.symbolName_of_key? {g : Grammar} {number : Nat} {name : String}
    (h : g.symbols.key? number = some name) : g.symbolName number = name := by
  rw [symbolName, h, Option.getD_some]

namespace Chart

variable {g : Grammar} {policy : RareWords} {words : List String}

theorem recover_self {chart : Chart} {i symbol : Nat} {word name : String}
    (hword : words[i]? = some word) (hname : g.symbols.key? symbol = some name) :
    chart.recover g words i i symbol = .ok (.leaf name word) := by
  rw [recover_word, hword, Grammar.symbolName_of_key? hname]

theorem recover_of_split {chart : Chart} {i j symbol point left right : Nat} {score : Weight}
    {name : String} {leftTree rightTree : Tree}
    (hentry : chart.entry? i j symbol = some ⟨score, .split point left right⟩)
    (hname : g.symbols.key? symbol = some name) (hi : i ≤ point) (hpoint : point < j)
    (hleft : chart.recover g words i point left = .ok leftTree)
    (hright : chart.recover g words (point + 1) j right = .ok rightTree) :
    chart.recover g words i j symbol = .ok (.node name leftTree rightTree) := by
  have hsplit : chart.split? i j symbol = some (point, left, right) := by
    rw [split?_eq_some_iff, hentry]
    exact ⟨rfl, hi, hpoint⟩
  rw [recover_of_split? g words hsplit, hleft, hright, Grammar.symbolName_of_key? hname]
  rfl

/-- The tree is recovered from the full chart, and derives its span with the given value. -/
structure Recovers (g : Grammar) (policy : RareWords) (words : List String) (i j symbol : Nat)
    (tree : Tree) (value : Weight) : Prop where
  recover : (fill g policy words).recover g words i j symbol = .ok tree
  covers : tree.Covers g words i j symbol
  value : tree.value g policy = value
  attested : tree.Attested g policy

theorem exists_recovers_of_word {i symbol : Nat} {word : String} {entry : Entry}
    (hword : words[i]? = some word)
    (hentry : entry? (fill g policy words) i i symbol = some entry) :
    ∃ tree, Recovers g policy words i i symbol tree entry.score := by
  obtain ⟨name, hname, hcount, htotal, rfl⟩ := (entry?_fill_self_eq_some_iff hword).mp hentry
  exact ⟨.leaf name word,
    { recover := recover_self hword hname
      covers := ⟨hname, (spanWords_self hword).symm⟩
      value := rfl
      attested := ⟨hcount, htotal⟩ }⟩

/-- The trees of two parts make a tree of the candidate that joins them. -/
theorem exists_recovers_of_split {i j symbol point : Nat} {rule : IndexedRule}
    {left right : Tree} (hrule : rule ∈ g.rulesFor symbol) (hi : i ≤ point) (hpoint : point < j)
    (hentry : entry? (fill g policy words) i j symbol =
      some ((fill g policy words).candidate i j rule point))
    (hleft : Recovers g policy words i point rule.left left
      ((fill g policy words).score i point rule.left))
    (hright : Recovers g policy words (point + 1) j rule.right right
      ((fill g policy words).score (point + 1) j rule.right)) :
    ∃ tree, Recovers g policy words i j symbol tree
      ((fill g policy words).candidate i j rule point).score := by
  obtain ⟨hparent, parent, leftName, rightName, hparentName, hleftName, hrightName, hcount,
    htotal, hprobability⟩ := Grammar.mem_rulesFor_iff.mp hrule
  rw [hparent] at hparentName
  cases hleftName.symm.trans hleft.covers.label
  cases hrightName.symm.trans hright.covers.label
  refine ⟨.node parent left right, ?_, ⟨hparentName, ?_⟩, ?_, ?_⟩
  · exact recover_of_split hentry hparentName hi hpoint hleft.recover hright.recover
  · rw [Tree.words, hleft.covers.words, hright.covers.words, spanWords_append hi hpoint]
  · rw [Tree.value, hleft.value, hright.value, candidate, hprobability]
  · exact ⟨hcount, htotal, hleft.attested, hright.attested⟩

/-- The tree of an entry derives its span with the score of the entry. -/
theorem exists_recovers_of_entry {i j symbol : Nat} {entry : Entry} (hij : i ≤ j)
    (hj : j < words.length) (hentry : entry? (fill g policy words) i j symbol = some entry) :
    ∃ tree, Recovers g policy words i j symbol tree entry.score := by
  -- By induction on the width of the span: both parts of a split are narrower.
  induction hwidth : j - i using Nat.strong_induction_on generalizing i j symbol entry with
  | _ width ih =>
    rcases Nat.lt_or_eq_of_le hij with hlt | rfl
    · obtain ⟨-, rule, hrule, point, hi, hpoint, rfl, hleftEntry, hrightEntry⟩ :=
        exists_candidate_of_entry hlt hj hentry
      obtain ⟨leftEntry, hleftEntry⟩ := hleftEntry
      obtain ⟨rightEntry, hrightEntry⟩ := hrightEntry
      obtain ⟨left, hleft⟩ := ih (point - i) (by omega) hi (hpoint.trans hj) hleftEntry rfl
      obtain ⟨right, hright⟩ := ih (j - (point + 1)) (by omega) hpoint hj hrightEntry rfl
      rw [← score_of_entry hleftEntry] at hleft
      rw [← score_of_entry hrightEntry] at hright
      exact exists_recovers_of_split hrule hi hpoint hentry hleft hright
    · exact exists_recovers_of_word (List.getElem?_eq_getElem hj) hentry

end Chart

end StochasticGrammar
