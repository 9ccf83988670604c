import StochasticGrammar.Proofs.Chart.Optimality
import StochasticGrammar.Proofs.Tree.Replanting

/-!
# Recovery over any words

The splits of a full chart lie inside their spans, so recovery comes to an end even where it follows
splits without looking.  It does not look at the words before it comes to the leaves: over other
words than those of the sentence it gives the tree of the sentence with the other words at its
leaves, or the fault of the first leaf that is left without one.
-/

namespace StochasticGrammar.Chart

/-! ## Following splits -/

/-- What recovery comes to if it takes every split as it is, inside its span or not. -/
inductive Descends (g : Grammar) (chart : Chart) (words : List String) :
    Nat → Nat → Nat → Except ParseFault Tree → Prop
  | word {i symbol : Nat} {word : String} (hword : words[i]? = some word) :
    Descends g chart words i i symbol (.ok (.leaf (g.symbolName symbol) word))
  | noWord {i symbol : Nat} (hword : words[i]? = none) :
    Descends g chart words i i symbol (.error (.missingDerivation (g.symbolName symbol) i i))
  | noSplit {i j symbol : Nat} (hij : i ≠ j)
      (horigin : ∀ point left right,
        (chart.entry? i j symbol).map Entry.origin ≠ some (.split point left right)) :
    Descends g chart words i j symbol (.error (.missingDerivation (g.symbolName symbol) i j))
  | leftFault {i j symbol point left right : Nat} {fault : ParseFault} (hij : i ≠ j)
      (horigin : (chart.entry? i j symbol).map Entry.origin = some (.split point left right))
      (hleft : Descends g chart words i point left (.error fault)) :
    Descends g chart words i j symbol (.error fault)
  | split {i j symbol point left right : Nat} {leftTree : Tree} {result : Except ParseFault Tree}
      (hij : i ≠ j)
      (horigin : (chart.entry? i j symbol).map Entry.origin = some (.split point left right))
      (hleft : Descends g chart words i point left (.ok leftTree))
      (hright : Descends g chart words (point + 1) j right result) :
    Descends g chart words i j symbol (result.map (.node (g.symbolName symbol) leftTree))

/-- Every split of several words lies inside them. -/
def SplitsInside (chart : Chart) : Prop :=
  ∀ i j symbol point left right, i ≠ j →
    (chart.entry? i j symbol).map Entry.origin = some (.split point left right) →
      i ≤ point ∧ point < j

variable {g : Grammar} {chart : Chart} {words : List String} {i j symbol : Nat}
  {result : Except ParseFault Tree}

theorem recover_eq_of_descends (hchart : chart.SplitsInside)
    (h : Descends g chart words i j symbol result) : chart.recover g words i j symbol = result := by
  induction h with
  | word hword => rw [recover_word, hword]
  | noWord hword => rw [recover_word, hword]
  | @noSplit i j symbol hij horigin =>
    apply recover_of_no_split g words hij
    rw [Option.eq_none_iff_forall_ne_some]
    rintro ⟨point, left, right⟩ hsplit
    exact horigin point left right (split?_eq_some_iff.mp hsplit).1
  | leftFault hij horigin _ ih =>
    have hinside := hchart _ _ _ _ _ _ hij horigin
    rw [recover_of_split? g words (split?_eq_some_iff.mpr ⟨horigin, hinside⟩), ih]
    rfl
  | @split _ _ _ _ _ _ _ result hij horigin _ _ ihl ihr =>
    have hinside := hchart _ _ _ _ _ _ hij horigin
    rw [recover_of_split? g words (split?_eq_some_iff.mpr ⟨horigin, hinside⟩), ihl, ihr]
    cases result <;> rfl

/-- If the splits lie inside their spans, following them comes to an end. -/
theorem descends_recover (hchart : chart.SplitsInside) (words : List String) (i j symbol : Nat) :
    Descends g chart words i j symbol (chart.recover g words i j symbol) := by
  induction i, j, symbol using split_induction chart with
  | word i symbol =>
    rw [recover_word]
    cases hword : words[i]? with
    | none => exact .noWord hword
    | some word => exact .word hword
  | noSplit i j symbol hij hsplit =>
    rw [recover_of_no_split g words hij hsplit]
    apply Descends.noSplit hij
    intro point left right horigin
    have hinside := hchart _ _ _ _ _ _ hij horigin
    rw [split?_eq_some_iff.mpr ⟨horigin, hinside⟩] at hsplit
    cases hsplit
  | split i j symbol point left right hi hj hsplit hleft hright =>
    have hij : i ≠ j := by omega
    have horigin := (split?_eq_some_iff.mp hsplit).1
    rw [recover_of_split? g words hsplit]
    cases hleftTree : chart.recover g words i point left with
    | error fault =>
      rw [hleftTree] at hleft
      exact .leftFault hij horigin hleft
    | ok leftTree =>
      rw [hleftTree] at hleft
      have hnode := Descends.split hij horigin hleft hright
      cases hrightTree : chart.recover g words (point + 1) j right <;> rwa [hrightTree] at hnode

theorem descends_iff (hchart : chart.SplitsInside) :
    Descends g chart words i j symbol result ↔ chart.recover g words i j symbol = result := by
  constructor
  · exact recover_eq_of_descends hchart
  · rintro rfl
    exact descends_recover hchart words i j symbol

/-! ## Recovery over other words -/

/-- A recovered tree is a word of the span, or the trees of the parts that the span splits into. -/
theorem recover_eq_ok_cases {tree : Tree} (h : chart.recover g words i j symbol = .ok tree) :
    (i = j ∧ ∃ word, tree = .leaf (g.symbolName symbol) word) ∨
      ∃ point left right leftTree rightTree,
        chart.split? i j symbol = some (point, left, right) ∧
          chart.recover g words i point left = .ok leftTree ∧
            chart.recover g words (point + 1) j right = .ok rightTree ∧
              tree = .node (g.symbolName symbol) leftTree rightTree := by
  by_cases hij : i = j
  · rw [hij, recover_word] at h
    left
    cases hword : words[j]? with
    | none =>
      rw [hword] at h
      cases h
    | some word =>
      rw [hword] at h
      cases h
      exact ⟨hij, word, rfl⟩
  · right
    cases hsplit : chart.split? i j symbol with
    | none =>
      rw [recover_of_no_split g words hij hsplit] at h
      cases h
    | some split =>
      obtain ⟨point, left, right⟩ := split
      rw [recover_of_split? g words hsplit, join_eq_ok_iff] at h
      obtain ⟨leftTree, rightTree, hleft, hright, htree⟩ := h
      exact ⟨point, left, right, leftTree, rightTree, rfl, hleft, hright, htree⟩

/-- A recovered tree has a leaf for each word of its span. -/
theorem length_words_of_recover {tree : Tree}
    (h : chart.recover g words i j symbol = .ok tree) : i + tree.words.length = j + 1 := by
  induction tree generalizing i j symbol with
  | leaf label word =>
    rcases recover_eq_ok_cases h with ⟨rfl, -⟩ | ⟨_, _, _, _, _, -, -, -, htree⟩
    · rfl
    · cases htree
  | node label left right ihl ihr =>
    rcases recover_eq_ok_cases h with ⟨-, _, htree⟩ | ⟨_, _, _, _, _, -, hleft, hright, htree⟩
    · cases htree
    · cases htree
      rw [Tree.length_words_node, ← Nat.add_assoc, ihl hleft, ihr hright]

/-- Over other words the same tree is recovered, with those words at its leaves. -/
theorem recover_eq_replant {tree : Tree} (h : chart.recover g words i j symbol = .ok tree)
    (leaves : List String) : chart.recover g leaves i j symbol = tree.replant leaves i := by
  induction tree generalizing i j symbol with
  | leaf label word =>
    rcases recover_eq_ok_cases h with ⟨rfl, _, htree⟩ | ⟨_, _, _, _, _, -, -, -, htree⟩
    · cases htree
      rw [recover_word]
      rfl
    · cases htree
  | node label left right ihl ihr =>
    rcases recover_eq_ok_cases h with ⟨-, _, htree⟩ | ⟨_, _, _, _, _, hsplit, hleft, hright, htree⟩
    · cases htree
    · cases htree
      rw [recover_of_split? g leaves hsplit, ihl hleft, ihr hright, Tree.replant,
        length_words_of_recover hleft]

/-- Where there are enough words, the tree keeps its shape and has them at its leaves. -/
theorem exists_recover_of_lt {tree : Tree} {leaves : List String}
    (h : chart.recover g words i j symbol = .ok tree) (hj : j < leaves.length) :
    ∃ other, chart.recover g leaves i j symbol = .ok other ∧ tree.SameShape other ∧
      other.words = spanWords leaves i j := by
  have hlength := length_words_of_recover h
  have hfit : i + tree.words.length ≤ leaves.length := by omega
  have hwidth : tree.words.length = j + 1 - i := by omega
  obtain ⟨other, hother, hshape, hwords⟩ := Tree.exists_replant_of_le hfit
  rw [hwidth, ← spanWords] at hwords
  exact ⟨other, (recover_eq_replant h leaves).trans hother, hshape, hwords⟩

/-- Where there are not, the first leaf without a word is at fault. -/
theorem exists_recover_fault_of_le {tree : Tree} {leaves : List String}
    (h : chart.recover g words i j symbol = .ok tree) (hj : leaves.length ≤ j) :
    let position := max i leaves.length
    ∃ missing, tree.leafLabels[position - i]? = some missing ∧
      chart.recover g leaves i j symbol =
        .error (.missingDerivation missing position position) := by
  have hlength := length_words_of_recover h
  have hshort : leaves.length < i + tree.words.length := by omega
  obtain ⟨missing, hmissing, hfault⟩ := Tree.exists_replant_fault hshort
  exact ⟨missing, hmissing, (recover_eq_replant h leaves).trans hfault⟩

/-! ## Full charts -/

variable {policy : RareWords}

/-- An entry of several words is split inside them. -/
theorem exists_split_of_entry {entry : Entry} (hij : i ≠ j)
    (h : entry? (fill g policy words) i j symbol = some entry) :
    ∃ point left right, entry.origin = .split point left right ∧ i ≤ point ∧ point < j := by
  obtain ⟨hle, hj⟩ := span_of_entry h
  obtain ⟨-, rule, -, point, hi, hpoint, rfl, -, -⟩ :=
    exists_candidate_of_entry (Nat.lt_of_le_of_ne hle hij) hj h
  exact ⟨point, rule.left, rule.right, rfl, hi, hpoint⟩

theorem splitsInside_fill (g : Grammar) (policy : RareWords) (words : List String) :
    (fill g policy words).SplitsInside := by
  intro i j symbol point left right hij h
  obtain ⟨entry, hentry, horigin⟩ := Option.map_eq_some_iff.mp h
  obtain ⟨other, otherLeft, otherRight, hsplit, hinside⟩ := exists_split_of_entry hij hentry
  cases horigin.symm.trans hsplit
  exact hinside

/-- What is recovered from a full chart over any words, whatever is asked for. -/
theorem recover_fill_over_leaves (g : Grammar) (policy : RareWords) (words leaves : List String)
    (i j symbol : Nat) :
    let chart := fill g policy words
    let label := g.symbolName symbol
    (∀ result, Descends g chart leaves i j symbol result ↔
      chart.recover g leaves i j symbol = result) ∧
    (i = j → chart.recover g leaves i j symbol =
      match leaves[i]? with
      | some word => .ok (.leaf label word)
      | none => .error (.missingDerivation label i i)) ∧
    (i ≠ j → chart.entry? i j symbol = none →
      chart.recover g leaves i j symbol = .error (.missingDerivation label i j)) ∧
    ∀ entry, i ≠ j → chart.entry? i j symbol = some entry →
      i < j ∧ j < words.length ∧ ∃ tree, chart.recover g words i j symbol = .ok tree ∧
        (j < leaves.length → ∃ other, chart.recover g leaves i j symbol = .ok other ∧
          tree.SameShape other ∧ other.words = spanWords leaves i j ∧
            other.words.length = j - i + 1) ∧
        (leaves.length ≤ j → let position := max i leaves.length
          ∃ missing, tree.leafLabels[position - i]? = some missing ∧
            chart.recover g leaves i j symbol =
              .error (.missingDerivation missing position position)) := by
  intro chart label
  refine ⟨fun _ ↦ descends_iff (splitsInside_fill g policy words), ?_, ?_, ?_⟩
  · rintro rfl
    exact recover_word g chart leaves i symbol
  · intro hij hentry
    apply recover_of_no_split g leaves hij
    rw [split?, hentry]
    rfl
  · intro entry hij hentry
    obtain ⟨hle, hj⟩ := span_of_entry hentry
    obtain ⟨tree, htree⟩ := exists_recovers_of_entry hle hj hentry
    refine ⟨Nat.lt_of_le_of_ne hle hij, hj, tree, htree.recover, ?_,
      exists_recover_fault_of_le htree.recover⟩
    intro hleaves
    obtain ⟨other, hother, hshape, hwords⟩ := exists_recover_of_lt htree.recover hleaves
    refine ⟨other, hother, hshape, hwords, ?_⟩
    rw [hwords, length_spanWords i hleaves]
    omega

/-- Two words are too few for a tree of four leaves, and five are more than it takes. -/
theorem recover_fill_over_leaves_attachment :
    let g := Grammar.ofRecords attachmentRecords
    let chart := fill g {} ["saw", "dog", "with", "cat"]
    0 ≠ 3 ∧ chart.entry? 0 3 0 = some ⟨⟨4587164819176281028⟩, .split 1 0 2⟩ ∧
      chart.recover g ["a", "b"] 0 3 0 = .error (.missingDerivation "P" 2 2) ∧
      (∃ other, chart.recover g ["a", "b", "c", "d", "e"] 0 3 0 = .ok other ∧
        other.words = ["a", "b", "c", "d"]) ∧
      3 ≠ 0 ∧ chart.entry? 3 0 0 = none ∧
      chart.recover g ["a"] 3 0 0 = .error (.missingDerivation "VP" 3 0) ∧
      chart.recover g ["a"] 1 1 9 = .error (.missingDerivation "" 1 1) := by
  intro g chart
  have hentry : chart.entry? 0 3 0 = some ⟨⟨4587164819176281028⟩, .split 1 0 2⟩ := by
    decide +kernel
  have hnone : chart.entry? 3 0 0 = none := by decide +kernel
  have htree : chart.recover g ["saw", "dog", "with", "cat"] 0 3 0 =
      .ok (.node "VP" (.node "VP" (.leaf "V" "saw") (.leaf "NP" "dog"))
        (.node "PP" (.leaf "P" "with") (.leaf "NP" "cat"))) := by
    decide +kernel
  have hresult := fun leaves i j symbol ↦
    (recover_fill_over_leaves g {} ["saw", "dog", "with", "cat"] leaves i j symbol).2
  obtain ⟨-, -, tree, hrecover, -, hfew⟩ := (hresult ["a", "b"] 0 3 0).2.2 _ (by decide) hentry
  obtain ⟨-, -, _, -, hmany, -⟩ :=
    (hresult ["a", "b", "c", "d", "e"] 0 3 0).2.2 _ (by decide) hentry
  obtain ⟨other, hother, -, hwords, -⟩ := hmany (by decide)
  cases hrecover.symm.trans htree
  obtain ⟨missing, hmissing, hfault⟩ := hfew (by decide)
  cases hmissing
  exact ⟨by decide, hentry, hfault, ⟨other, hother, hwords⟩, by decide, hnone,
    (hresult ["a"] 3 0 0).2.1 (by decide) hnone, (hresult ["a"] 1 1 9).1 rfl⟩

end StochasticGrammar.Chart
