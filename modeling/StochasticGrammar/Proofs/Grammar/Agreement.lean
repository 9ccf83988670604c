import Mathlib.Algebra.Order.Ring.Nat
import StochasticGrammar.Grammar
import StochasticGrammar.Proofs.Tally.History
import StochasticGrammar.Proofs.Weight.Arithmetic
import StochasticGrammar.Record

/-!
# What is listed by number

The counts of a grammar that was trained can be written.  What it lists by number are the rules that
its counts make possible by name, with the same probabilities.
-/

namespace StochasticGrammar

/-! ## Grammars that training leads to

A grammar is trained when it arises from the empty one by taking in records whose counts can be
written.  Every count of a trained grammar can then be written as well.
-/

/-- How often the symbol or rule of a record was seen. -/
def Record.count : Record → Nat
  | nonterminal _ count => count
  | binary _ count => count
  | unary _ count => count

/-- How many bits there are in a count. -/
def Record.countBits : Nat := 64

theorem Record.maxCount_le : maxCount ≤ 2 ^ countBits := by
  decide

namespace Tally

variable {κ : Type}

/-- No key is counted more than `bound` times. -/
def AtMost (bound : Nat) (t : Tally κ) : Prop :=
  ∀ entry ∈ t.entries, entry.2 ≤ bound

theorem atMost_empty (bound : Nat) : AtMost bound (∅ : Tally κ) := by
  intro entry hentry
  cases hentry

variable [DecidableEq κ]

theorem mem_setCount {key : κ} {count : Nat} {entries : List (κ × Nat)} {entry : κ × Nat}
    (h : entry ∈ setCount key count entries) : entry = (key, count) ∨ entry ∈ entries := by
  induction entries with
  | nil => exact Or.inl (List.mem_singleton.mp h)
  | cons first rest ih =>
    rw [setCount] at h
    split_ifs at h with hkey
    · rcases List.mem_cons.mp h with heq | hrest
      · exact Or.inl heq
      · exact Or.inr (List.mem_cons_of_mem first hrest)
    · rcases List.mem_cons.mp h with heq | hrest
      · exact Or.inr (heq ▸ List.mem_cons_self)
      · exact (ih hrest).imp_right (List.mem_cons_of_mem first)

theorem AtMost.insert {bound count : Nat} {t : Tally κ} (ht : t.AtMost bound) (key : κ)
    (hcount : count ≤ bound) : (t.insert key count).AtMost bound := by
  intro entry hentry
  rcases mem_setCount hentry with rfl | hmem
  · exact hcount
  · exact ht entry hmem

theorem AtMost.count_le {bound : Nat} {t : Tally κ} (ht : t.AtMost bound) (key : κ) :
    t.count key ≤ bound := by
  by_cases hcount : t.count key = 0
  · rw [hcount]
    exact Nat.zero_le bound
  · exact ht _ (mem_entries_of_count_ne_zero hcount)

end Tally

namespace Grammar

/-- The grammars that any number of trainings lead to from the empty one. -/
inductive Trained : Grammar → Prop
  | empty : Trained ∅
  | train {g : Grammar} (hg : Trained g) (records : List Record)
      (hrecords : ∀ record ∈ records, record.count ≤ Record.maxCount) : Trained (g.train records)

/-- Every count can be written. -/
structure Writable (g : Grammar) : Prop where
  symbols : g.symbols.AtMost Record.maxCount
  binaryRules : g.binaryRules.AtMost Record.maxCount
  unaryRules : g.unaryRules.AtMost Record.maxCount

theorem writable_empty : Writable ∅ where
  symbols := Tally.atMost_empty _
  binaryRules := Tally.atMost_empty _
  unaryRules := Tally.atMost_empty _

theorem Writable.add {g : Grammar} (hg : g.Writable) {record : Record}
    (hrecord : record.count ≤ Record.maxCount) : (g.add record).Writable := by
  cases record with
  | nonterminal symbol count => exact { hg with symbols := hg.symbols.insert symbol hrecord }
  | binary rule count => exact { hg with binaryRules := hg.binaryRules.insert rule hrecord }
  | unary rule count => exact { hg with unaryRules := hg.unaryRules.insert rule hrecord }

theorem Writable.train {g : Grammar} (hg : g.Writable) {records : List Record}
    (hrecords : ∀ record ∈ records, record.count ≤ Record.maxCount) :
    (g.train records).Writable := by
  induction records generalizing g with
  | nil => exact hg
  | cons record rest ih =>
    rw [List.forall_mem_cons] at hrecords
    exact ih (hg.add hrecords.1) hrecords.2

theorem Trained.writable {g : Grammar} (hg : g.Trained) : g.Writable := by
  induction hg with
  | empty => exact writable_empty
  | train _ records hrecords ih => exact ih.train hrecords

end Grammar

/-! ## Rules by number agree with rules by name

The rules listed for the number of a symbol are exactly the rules of that symbol that have a
probability other than zero by their counts, and they carry that probability.  The symbols listed
for a word are those that expand into it, with the probability that they do.
-/

namespace Grammar

variable {g : Grammar}

/-! ### Probabilities by name -/

theorem binaryProbability_eq (g : Grammar) (rule : BinaryRule) :
    g.binaryProbability rule =
      (Weight.relativeFrequency? (g.binaryRules.count rule)
        (g.symbols.count rule.parent)).getD 0 := by
  unfold binaryProbability binaryShare share
  cases Weight.relativeFrequency? (g.binaryRules.count rule) (g.symbols.count rule.parent) <;> rfl

theorem unaryProbability_eq (g : Grammar) (rule : UnaryRule) :
    g.unaryProbability rule =
      (Weight.relativeFrequency? (g.unaryRules.count rule)
        (g.symbols.count rule.parent)).getD 0 := by
  unfold unaryProbability unaryShare share
  cases Weight.relativeFrequency? (g.unaryRules.count rule) (g.symbols.count rule.parent) <;> rfl

/-- A rule of positive probability was seen, and so was its parent. -/
theorem counts_ne_zero_of_binaryProbability {rule : BinaryRule}
    (h : g.binaryProbability rule ≠ 0) :
    g.binaryRules.count rule ≠ 0 ∧ g.symbols.count rule.parent ≠ 0 := by
  rw [binaryProbability_eq] at h
  exact Weight.ne_zero_of_relativeFrequency? h

theorem counts_ne_zero_of_unaryProbability {rule : UnaryRule} (h : g.unaryProbability rule ≠ 0) :
    g.unaryRules.count rule ≠ 0 ∧ g.symbols.count rule.parent ≠ 0 := by
  rw [unaryProbability_eq] at h
  exact Weight.ne_zero_of_relativeFrequency? h

theorem two_pow_le_units_share (hg : g.Writable) {count : Nat} {symbol : String}
    (hcount : count ≠ 0) (htotal : g.symbols.count symbol ≠ 0) :
    2 ^ (Weight.onePlace - Record.countBits) ≤
      ((Weight.relativeFrequency? count (g.symbols.count symbol)).getD 0).units := by
  have hbound : g.symbols.count symbol ≤ 2 ^ Record.countBits :=
    (hg.symbols.count_le symbol).trans Record.maxCount_le
  exact Weight.two_pow_le_units_share hcount htotal (by decide) hbound

/-- A rule that was seen under a parent that was has a probability well above one unit. -/
theorem two_pow_le_units_binaryProbability (hg : g.Writable) {rule : BinaryRule}
    (hcount : g.binaryRules.count rule ≠ 0) (htotal : g.symbols.count rule.parent ≠ 0) :
    2 ^ (Weight.onePlace - Record.countBits) ≤ (g.binaryProbability rule).units := by
  rw [binaryProbability_eq]
  exact two_pow_le_units_share hg hcount htotal

theorem two_pow_le_units_unaryProbability (hg : g.Writable) {rule : UnaryRule}
    (hcount : g.unaryRules.count rule ≠ 0) (htotal : g.symbols.count rule.parent ≠ 0) :
    2 ^ (Weight.onePlace - Record.countBits) ≤ (g.unaryProbability rule).units := by
  rw [unaryProbability_eq]
  exact two_pow_le_units_share hg hcount htotal

/-! ### Rules by number -/

theorem indexedRule?_eq_some_iff {rule : BinaryRule} {count : Nat} {indexed : IndexedRule} :
    g.indexedRule? rule count = some indexed ↔
      count ≠ 0 ∧ g.symbols.position? rule.parent = some indexed.parent ∧
        g.symbols.position? rule.left = some indexed.left ∧
          g.symbols.position? rule.right = some indexed.right ∧
            Weight.relativeFrequency? count (g.symbols.count rule.parent) =
              some indexed.probability := by
  obtain ⟨parent, left, right, probability⟩ := indexed
  unfold indexedRule?
  split_ifs with hcount
  · simp [hcount]
  · simp [hcount, Option.bind_eq_some_iff]

/-- The rules of a number are the rules of its symbol that were seen under a parent that was. -/
theorem mem_rulesFor_iff {number : Nat} {rule : IndexedRule} :
    rule ∈ g.rulesFor number ↔
      rule.parent = number ∧ ∃ parent left right, g.symbols.key? rule.parent = some parent ∧
        g.symbols.key? rule.left = some left ∧ g.symbols.key? rule.right = some right ∧
          g.binaryRules.count ⟨parent, left, right⟩ ≠ 0 ∧ g.symbols.count parent ≠ 0 ∧
            rule.probability = g.binaryProbability ⟨parent, left, right⟩ := by
  rw [rulesFor, List.mem_filter, indexedRules, List.mem_filterMap, decide_eq_true_eq, and_comm]
  apply and_congr_right
  intro _
  simp only [indexedRule?_eq_some_iff, Tally.position?_eq_some_iff, binaryProbability_eq]
  constructor
  · intro h
    obtain ⟨⟨⟨parent, left, right⟩, count⟩, hentry, hcount, hparent, hleft, hright, hshare⟩ := h
    have heq := Tally.count_eq_of_mem_entries hentry
    rw [Weight.relativeFrequency?_eq_some_iff hcount] at hshare
    refine ⟨parent, left, right, hparent, hleft, hright, ?_, hshare.1, ?_⟩
    · rwa [heq]
    · rw [heq]
      exact hshare.2
  · intro h
    obtain ⟨parent, left, right, hparent, hleft, hright, hcount, htotal, hprobability⟩ := h
    have hshare := (Weight.relativeFrequency?_eq_some_iff hcount).mpr ⟨htotal, hprobability⟩
    exact ⟨(⟨parent, left, right⟩, _), Tally.mem_entries_of_count_ne_zero hcount, hcount, hparent,
      hleft, hright, hshare⟩

/-- Numbers beyond the symbols have no rules. -/
theorem rulesFor_eq_nil_of_size_le {number : Nat} (h : g.symbols.size ≤ number) :
    g.rulesFor number = [] := by
  rw [List.eq_nil_iff_forall_not_mem]
  intro rule hrule
  obtain ⟨rfl, parent, -, -, hparent, -⟩ := mem_rulesFor_iff.mp hrule
  exact Nat.not_lt_of_le h (Tally.lt_size_of_key? hparent)

theorem getElem?_ruleIndex_of_lt {number : Nat} (h : number < g.symbols.size) :
    g.ruleIndex[number]? = some (g.rulesFor number) := by
  simp [ruleIndex, rulesFor, h]

theorem getElem?_ruleIndex_of_le {number : Nat} (h : g.symbols.size ≤ number) :
    g.ruleIndex[number]? = none := by
  simp [ruleIndex, h]

/-! ### Words by number -/

theorem mem_lexicon_iff {word : String} {entry : LexicalEntry} :
    entry ∈ g.lexicon word ↔
      ∃ parent, g.symbols.key? entry.symbol = some parent ∧
        (⟨⟨parent, word⟩, entry.count⟩ : UnaryRule × Nat) ∈ g.unaryRules.entries := by
  obtain ⟨symbol, count⟩ := entry
  rw [lexicon, List.mem_filterMap]
  constructor
  · intro h
    obtain ⟨⟨⟨parent, other⟩, seen⟩, hentry, h⟩ := h
    dsimp only at h
    split_ifs at h with hword
    obtain ⟨position, hposition, heq⟩ := Option.map_eq_some_iff.mp h
    cases heq
    exact ⟨parent, Tally.position?_eq_some_iff.mp hposition, hword ▸ hentry⟩
  · intro h
    obtain ⟨parent, hparent, hentry⟩ := h
    refine ⟨_, hentry, ?_⟩
    simp [Tally.position?_eq_some_iff.mpr hparent]

/-- The symbols listed for a word are those that were seen and expand into it. -/
theorem mem_lexicalWeights_iff {word : String} {number : Nat} {weight : Weight} :
    (number, weight) ∈ g.lexicalWeights word ↔
      ∃ symbol, g.symbols.key? number = some symbol ∧ g.unaryRules.count ⟨symbol, word⟩ ≠ 0 ∧
        g.symbols.count symbol ≠ 0 ∧ weight = g.unaryProbability ⟨symbol, word⟩ := by
  rw [lexicalWeights, List.mem_filterMap]
  simp only [mem_lexicon_iff, unaryProbability_eq]
  constructor
  · intro h
    obtain ⟨⟨position, count⟩, ⟨symbol, hsymbol, hentry⟩, h⟩ := h
    dsimp only at hsymbol hentry h
    have hsame := Tally.count_eq_of_mem_entries hentry
    split_ifs at h with hcount
    obtain ⟨share, hshare, heq⟩ := Option.map_eq_some_iff.mp h
    cases heq
    rw [Tally.countAt_eq_count hsymbol, Weight.relativeFrequency?_eq_some_iff hcount] at hshare
    refine ⟨symbol, hsymbol, ?_, hshare.1, ?_⟩
    · rwa [hsame]
    · rw [hsame]
      exact hshare.2
  · intro h
    obtain ⟨symbol, hsymbol, hcount, htotal, hweight⟩ := h
    have hshare := (Weight.relativeFrequency?_eq_some_iff hcount).mpr ⟨htotal, hweight⟩
    refine ⟨⟨number, g.unaryRules.count ⟨symbol, word⟩⟩,
      ⟨symbol, hsymbol, Tally.mem_entries_of_count_ne_zero hcount⟩, ?_⟩
    dsimp only
    rw [if_neg hcount, Tally.countAt_eq_count hsymbol, hshare, Option.map_some]

end Grammar

end StochasticGrammar
