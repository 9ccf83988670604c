import Mathlib.Algebra.Order.Ring.Nat
import StochasticGrammar.Grammar

/-!
# Adding up the counts of a word

The counts of a word are added one by one in 64 bits, and a total past the greatest count starts
again from zero.  It makes no difference when it does so: a word is counted as often as it was seen,
modulo the number of counts there are.  A program that checks its additions stops at a word that was
seen more often than the greatest count, and counts every other word as the unchecked one does.
-/

namespace StochasticGrammar

/-! ## Totals -/

namespace Grammar

/-- Adds a count to a total, if the sum is not past the greatest count. -/
def addCount? (total count : Nat) : Option Nat :=
  if total + count ≤ Record.maxCount then some (total + count) else none

/-- Starting again from zero on the way is the same as doing so at the end. -/
theorem foldl_addCount (counts : List Nat) {total : Nat} (htotal : total ≤ Record.maxCount) :
    counts.foldl addCount total = (total + counts.sum) % (Record.maxCount + 1) := by
  induction counts generalizing total with
  | nil => exact (Nat.mod_eq_of_lt (Nat.lt_succ_of_le htotal)).symm
  | cons count rest ih =>
    have hle : addCount total count ≤ Record.maxCount :=
      Nat.le_of_lt_succ (Nat.mod_lt _ (Nat.succ_pos _))
    rw [List.foldl_cons, ih hle, List.sum_cons, addCount, Nat.mod_add_mod, Nat.add_assoc]

/-- The checked additions all succeed exactly if the whole sum is not past the greatest count. -/
theorem foldlM_addCount? (counts : List Nat) {total : Nat} (htotal : total ≤ Record.maxCount) :
    counts.foldlM addCount? total =
      if total + counts.sum ≤ Record.maxCount then some (total + counts.sum) else none := by
  induction counts generalizing total with
  | nil => exact (if_pos htotal).symm
  | cons count rest ih =>
    rw [List.foldlM_cons, addCount?, List.sum_cons, ← Nat.add_assoc]
    by_cases hcount : total + count ≤ Record.maxCount
    · rw [if_pos hcount]
      exact ih hcount
    · have hsum : ¬total + count + rest.sum ≤ Record.maxCount := by omega
      rw [if_neg hcount, if_neg hsum]
      rfl

/-! ## Words -/

/-- How often a word was seen under known parents, however often that is. -/
def occurrences (g : Grammar) (word : String) : Nat :=
  ((g.lexicon word).map LexicalEntry.count).sum

/-- A word was not seen more often than the greatest count. -/
def AddsUp (g : Grammar) (word : String) : Prop :=
  g.occurrences word ≤ Record.maxCount

instance (g : Grammar) (word : String) : Decidable (g.AddsUp word) :=
  inferInstanceAs (Decidable (_ ≤ _))

/-- How often a word is counted as seen, if no total on the way is past the greatest count. -/
def wordCount? (g : Grammar) (word : String) : Option Nat :=
  (g.lexicon word).foldlM (fun total entry ↦ addCount? total entry.count) 0

theorem wordCount_eq_occurrences_mod (g : Grammar) (word : String) :
    g.wordCount word = g.occurrences word % (Record.maxCount + 1) := by
  have hfold := foldl_addCount ((g.lexicon word).map LexicalEntry.count) (Nat.zero_le _)
  rwa [List.foldl_map, Nat.zero_add] at hfold

/-- Two counts of half the range each: the word is counted as never seen. -/
example :
    (ofRecords [.nonterminal "A" (2 ^ 63), .nonterminal "B" (2 ^ 63), .unary ⟨"A", "w"⟩ (2 ^ 63),
      .unary ⟨"B", "w"⟩ (2 ^ 63)]).wordCount "w" = 0 := by decide +kernel

theorem wordCount_eq_occurrences {g : Grammar} {word : String} (h : g.AddsUp word) :
    g.wordCount word = g.occurrences word := by
  rw [wordCount_eq_occurrences_mod, Nat.mod_eq_of_lt (Nat.lt_succ_of_le h)]

theorem wordCount?_eq (g : Grammar) (word : String) :
    g.wordCount? word = if g.AddsUp word then some (g.wordCount word) else none := by
  have hfold := foldlM_addCount? ((g.lexicon word).map LexicalEntry.count) (Nat.zero_le _)
  rw [List.foldlM_map, Nat.zero_add, ← occurrences] at hfold
  rw [wordCount?, hfold]
  by_cases hword : g.AddsUp word
  · rw [if_pos hword, wordCount_eq_occurrences hword]
    exact if_pos hword
  · rw [if_neg hword]
    exact if_neg hword

end Grammar

/-! ## Looking words up -/

namespace RareWords

/-- The word that a word is looked up as, if its counts can be added up. -/
def resolve? (policy : RareWords) (g : Grammar) (word : String) : Option String :=
  (g.wordCount? word).map fun count ↦
    if count < policy.threshold then policy.placeholder else word

theorem resolve?_eq (policy : RareWords) (g : Grammar) (word : String) :
    policy.resolve? g word = if g.AddsUp word then some (policy.resolve g word) else none := by
  rw [resolve?, g.wordCount?_eq]
  split_ifs <;> rfl

/-- All words of a sentence can be looked up exactly if the counts of each add up. -/
theorem mapM_resolve? (policy : RareWords) (g : Grammar) (words : List String) :
    words.mapM (policy.resolve? g) =
      if ∀ word ∈ words, g.AddsUp word then some (words.map (policy.resolve g)) else none := by
  induction words with
  | nil => rfl
  | cons word rest ih =>
    rw [List.mapM_cons, ih, resolve?_eq]
    simp only [List.forall_mem_cons]
    by_cases hword : g.AddsUp word
    · by_cases hrest : ∀ word ∈ rest, g.AddsUp word
      · rw [if_pos hword, if_pos hrest, if_pos ⟨hword, hrest⟩]
        rfl
      · rw [if_pos hword, if_neg hrest, if_neg (mt And.right hrest)]
        rfl
    · rw [if_neg hword, if_neg (mt And.left hword)]
      rfl

end RareWords

end StochasticGrammar
