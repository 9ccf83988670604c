import StochasticGrammar.Proofs.Chart.Recovery

/-!
# Charts hold the greatest values

The score of a symbol over a span is the greatest value of a tree of the symbol over the span.  A
better part never makes a whole worse, however products are rounded, so the parts of a best tree may
be taken to be best themselves.
-/

namespace StochasticGrammar.Chart

variable {g : Grammar} {policy : RareWords} {words : List String}

/-- No tree is worth more than the score of its span. -/
theorem value_le_score {tree : Tree} {i j symbol : Nat} (hj : j < words.length)
    (hcovers : tree.Covers g words i j symbol) :
    tree.value g policy ≤ (fill g policy words).score i j symbol := by
  induction tree generalizing i j symbol with
  | leaf label word =>
    have hlength := congrArg List.length hcovers.words
    rw [length_spanWords i hj] at hlength
    have hij : i = j := by
      rw [Tree.words, List.length_singleton] at hlength
      omega
    subst hij
    have hword : words[i]? = some words[i] := List.getElem?_eq_getElem hj
    have hsame := hcovers.words
    rw [spanWords_self hword, Tree.words, List.singleton_inj] at hsame
    rw [score_fill_self hword hcovers.label, ← hsame]
    exact le_rfl
  | node label left right ihLeft ihRight =>
    by_cases hvalue : (Tree.node label left right).value g policy = 0
    · rw [hvalue]
      exact Weight.zero_le _
    · -- A product other than zero has only known symbols and rules that are listed.
      have hproduct := Weight.left_ne_zero_of_mul hvalue
      have hrule :=
        Grammar.counts_ne_zero_of_binaryProbability (Weight.left_ne_zero_of_mul hproduct)
      have hleftMem :=
        (Tree.attested_of_value_ne_zero (Weight.right_ne_zero_of_mul hproduct)).label_mem
      have hrightMem :=
        (Tree.attested_of_value_ne_zero (Weight.right_ne_zero_of_mul hvalue)).label_mem
      obtain ⟨leftNumber, hleftNumber⟩ := Tally.mem_iff_exists_key?.mp hleftMem
      obtain ⟨rightNumber, hrightNumber⟩ := Tally.mem_iff_exists_key?.mp hrightMem
      obtain ⟨point, hi, hpoint, hleftWords, hrightWords⟩ :=
        exists_point_of_append_eq_spanWords hj left.words_ne_nil right.words_ne_nil hcovers.words
      let rule : IndexedRule :=
        ⟨symbol, leftNumber, rightNumber, g.binaryProbability ⟨label, left.label, right.label⟩⟩
      have hlisted : rule ∈ g.rulesFor symbol :=
        Grammar.mem_rulesFor_iff.mpr ⟨rfl, label, left.label, right.label, hcovers.label,
          hleftNumber, hrightNumber, hrule.1, hrule.2, rfl⟩
      have hleft := ihLeft (hpoint.trans hj) ⟨hleftNumber, hleftWords⟩
      have hright := ihRight hj ⟨hrightNumber, hrightWords⟩
      calc
        (Tree.node label left right).value g policy =
            rule.probability * left.value g policy * right.value g policy := rfl
        _ ≤ rule.probability * (fill g policy words).score i point leftNumber *
              (fill g policy words).score (point + 1) j rightNumber :=
          Weight.mul_le_mul (Weight.mul_le_mul le_rfl hleft) hright
        _ = ((fill g policy words).candidate i j rule point).score := rfl
        _ ≤ (fill g policy words).score i j symbol :=
          candidate_score_le hi hpoint hj hlisted

/-- A score other than zero is the value of a tree. -/
theorem exists_tree_of_score_ne_zero {i j symbol : Nat} (hij : i ≤ j) (hj : j < words.length)
    (h : (fill g policy words).score i j symbol ≠ 0) :
    ∃ tree : Tree, tree.Covers g words i j symbol ∧
      tree.value g policy = (fill g policy words).score i j symbol := by
  obtain ⟨entry, hentry⟩ := exists_entry_of_score_ne_zero h
  obtain ⟨tree, htree⟩ := exists_recovers_of_entry hij hj hentry
  exact ⟨tree, htree.covers, htree.value.trans (score_of_entry hentry).symm⟩

theorem score_ne_zero_iff {i j symbol : Nat} (hij : i ≤ j) (hj : j < words.length) :
    (fill g policy words).score i j symbol ≠ 0 ↔
      ∃ tree : Tree, tree.Covers g words i j symbol ∧ tree.value g policy ≠ 0 := by
  constructor
  · intro h
    obtain ⟨tree, hcovers, hvalue⟩ := exists_tree_of_score_ne_zero hij hj h
    exact ⟨tree, hcovers, by rwa [hvalue]⟩
  · intro h
    obtain ⟨tree, hcovers, hvalue⟩ := h
    exact Weight.ne_zero_of_le hvalue (value_le_score hj hcovers)

/-- Where no tree is worth less by another grammar, no score is smaller, since the best tree of the
one grammar is a tree of the other. -/
theorem score_le_of_value_le {h : Grammar} {i j number other : Nat}
    (hvalue : ∀ tree : Tree, tree.value g policy ≤ tree.value h policy)
    (hname : ∀ name, g.symbols.key? number = some name → h.symbols.key? other = some name) :
    (fill g policy words).score i j number ≤ (fill h policy words).score i j other := by
  by_cases hscore : (fill g policy words).score i j number = 0
  · rw [hscore]
    exact Weight.zero_le _
  · obtain ⟨entry, hentry⟩ := exists_entry_of_score_ne_zero hscore
    obtain ⟨hij, hj⟩ := span_of_entry hentry
    obtain ⟨tree, hcovers, htree⟩ := exists_tree_of_score_ne_zero hij hj hscore
    calc
      (fill g policy words).score i j number = tree.value g policy := htree.symm
      _ ≤ tree.value h policy := hvalue tree
      _ ≤ (fill h policy words).score i j other :=
        value_le_score hj ⟨hname tree.label hcovers.label, hcovers.words⟩

/-- The entries of a trained grammar's chart have scores other than zero. -/
theorem entry_score_ne_zero (hg : g.Trained) {i j symbol : Nat} {entry : Entry} (hij : i ≤ j)
    (hj : j < words.length) (hentry : entry? (fill g policy words) i j symbol = some entry) :
    entry.score ≠ 0 := by
  rcases Nat.lt_or_eq_of_le hij with hlt | rfl
  · exact (exists_candidate_of_entry hlt hj hentry).1
  · have hword : words[i]? = some words[i] := List.getElem?_eq_getElem hj
    obtain ⟨name, -, hcount, htotal, rfl⟩ := (entry?_fill_self_eq_some_iff hword).mp hentry
    have hbound := Grammar.two_pow_le_units_unaryProbability hg.writable hcount htotal
    exact Weight.ne_zero_of_two_pow_le_units hbound

/-- The score of a symbol over a span is the greatest value of its trees, and there is an entry only
if some tree has a value other than zero. -/
theorem score_fill_eq_greatest_value (hg : g.Trained) (policy : RareWords) (words : List String)
    {i j : Nat} (symbol : Nat) (hij : i ≤ j) (hj : j < words.length) :
    (∀ tree : Tree, tree.Covers g words i j symbol →
      tree.value g policy ≤ (fill g policy words).score i j symbol) ∧
    ((fill g policy words).score i j symbol ≠ 0 →
      ∃ tree : Tree, tree.Covers g words i j symbol ∧
        tree.value g policy = (fill g policy words).score i j symbol) ∧
    ((∀ tree : Tree, tree.Covers g words i j symbol → tree.value g policy = 0) →
      entry? (fill g policy words) i j symbol = none) := by
  refine ⟨fun tree ↦ value_le_score hj, exists_tree_of_score_ne_zero hij hj, ?_⟩
  intro hzero
  cases hentry : entry? (fill g policy words) i j symbol with
  | none => rfl
  | some entry =>
    obtain ⟨tree, htree⟩ := exists_recovers_of_entry hij hj hentry
    have hscore : entry.score = 0 := htree.value.symm.trans (hzero tree htree.covers)
    exact absurd hscore (entry_score_ne_zero hg hij hj hentry)

/-- Counts under which a prepositional phrase attaches to a verb phrase or to a noun phrase. -/
def attachmentRecords : List Record :=
  [.nonterminal "VP" 10, .nonterminal "NP" 20, .nonterminal "PP" 10, .nonterminal "V" 10,
    .nonterminal "P" 10, .binary ⟨"VP", "V", "NP"⟩ 6, .binary ⟨"VP", "VP", "PP"⟩ 4,
    .binary ⟨"NP", "NP", "PP"⟩ 2, .binary ⟨"PP", "P", "NP"⟩ 10, .unary ⟨"V", "saw"⟩ 10,
    .unary ⟨"NP", "dog"⟩ 9, .unary ⟨"NP", "cat"⟩ 9, .unary ⟨"P", "with"⟩ 10]

theorem score_fill_attachment :
    let g := Grammar.ofRecords attachmentRecords
    let words := ["saw", "dog", "with", "cat"]
    let chart := fill g {} words
    g.Trained ∧ 0 ≤ 3 ∧ 3 < words.length ∧ chart.score 0 3 0 ≠ 0 ∧
      (∀ tree : Tree, tree.Covers g words 0 3 0 → tree.value g {} ≤ chart.score 0 3 0) ∧
      (∃ tree : Tree, tree.Covers g words 0 3 0 ∧ tree.value g {} = chart.score 0 3 0) ∧
      ((∀ tree : Tree, tree.Covers g words 0 3 0 → tree.value g {} = 0) →
        entry? chart 0 3 0 = none) := by
  have htrained : (Grammar.ofRecords attachmentRecords).Trained :=
    .train .empty attachmentRecords (by decide)
  have hscore : (fill (Grammar.ofRecords attachmentRecords) {} ["saw", "dog", "with", "cat"]).score
      0 3 0 ≠ 0 := by
    decide +kernel
  have hoptimal := score_fill_eq_greatest_value htrained {} ["saw", "dog", "with", "cat"] 0
    (Nat.zero_le 3) (by decide)
  exact ⟨htrained, Nat.zero_le 3, by decide, hscore, hoptimal.1, hoptimal.2.1 hscore,
    hoptimal.2.2⟩

end StochasticGrammar.Chart
