import Mathlib.Data.List.Forall2
import StochasticGrammar.Proofs.Parse.Outcome
import StochasticGrammar.Proofs.Tree.Replanting

/-!
# Words that are looked up alike

Filling a chart sees a word only through what the word is looked up as, so a sentence with rare
words has the chart of the same sentence with the placeholder in their places.  Recovering a tree
sees the words themselves, but only at the leaves.  Sentences whose words are looked up alike
therefore fail alike or get trees that differ in nothing but the words.
-/

namespace StochasticGrammar

/-- Both fail with the same fault, or both succeed and what they give is related. -/
inductive EndAlike {ε α : Type} (related : α → α → Prop) : Except ε α → Except ε α → Prop
  | error (fault : ε) : EndAlike related (.error fault) (.error fault)
  | ok {first second : α} (h : related first second) : EndAlike related (.ok first) (.ok second)

namespace EndAlike

variable {ε α β : Type} {related : α → α → Prop} {first second : Except ε α}

theorem map {relatedAfter : β → β → Prop} (f : α → β) (h : EndAlike related first second)
    (hf : ∀ a b, related a b → relatedAfter (f a) (f b)) :
    EndAlike relatedAfter (first.map f) (second.map f) := by
  cases h with
  | error fault => exact .error fault
  | ok hrelated => exact .ok (hf _ _ hrelated)

/-- What both succeed with may also be related by what is known of each of them. -/
theorem imp {relatedToo : α → α → Prop} (h : EndAlike related first second)
    (himp : ∀ a b, first = .ok a → second = .ok b → related a b → relatedToo a b) :
    EndAlike relatedToo first second := by
  cases h with
  | error fault => exact .error fault
  | ok hrelated => exact .ok (himp _ _ rfl rfl hrelated)

end EndAlike

/-! ## Looking words up -/

namespace RareWords

/-- The sentences have the same length and the same lookups, position by position. -/
def LookedUpAlike (policy : RareWords) (g : Grammar) (words others : List String) : Prop :=
  List.Forall₂ (fun word other ↦ policy.resolve g word = policy.resolve g other) words others

instance (policy : RareWords) (g : Grammar) (words others : List String) :
    Decidable (policy.LookedUpAlike g words others) :=
  inferInstanceAs (Decidable (List.Forall₂ _ words others))

variable {policy : RareWords} {g : Grammar} {words others : List String}

/-- What a word is looked up as is looked up as itself, even a placeholder that is rare. -/
theorem resolve_resolve (policy : RareWords) (g : Grammar) (word : String) :
    policy.resolve g (policy.resolve g word) = policy.resolve g word := by
  by_cases hrare : policy.IsRare g word
  · have hplaceholder : policy.resolve g word = policy.placeholder := if_pos hrare
    rw [hplaceholder, resolve]
    exact ite_self policy.placeholder
  · have hknown : policy.resolve g word = word := if_neg hrare
    rw [hknown, hknown]

theorem lookedUpAlike_map_resolve (policy : RareWords) (g : Grammar) (words : List String) :
    policy.LookedUpAlike g words (words.map (policy.resolve g)) := by
  induction words with
  | nil => exact .nil
  | cons word rest ih => exact .cons (resolve_resolve policy g word).symm ih

theorem LookedUpAlike.length_eq (h : policy.LookedUpAlike g words others) :
    words.length = others.length :=
  List.Forall₂.length_eq h

end RareWords

variable {policy : RareWords} {g : Grammar} {words others : List String}

/-! ## Charts -/

namespace Chart

theorem wordCell_eq_of_resolve_eq {word other : String}
    (h : policy.resolve g word = policy.resolve g other) :
    wordCell g policy word = wordCell g policy other := by
  rw [wordCell, wordCell, h]

/-- The chart is the same, with all its entries. -/
theorem fill_eq_of_lookedUpAlike (h : policy.LookedUpAlike g words others) :
    fill g policy words = fill g policy others := by
  have hcells : words.map (wordCell g policy) = others.map (wordCell g policy) := by
    induction h with
    | nil => rfl
    | cons hword _ ih => rw [List.map_cons, List.map_cons, wordCell_eq_of_resolve_eq hword, ih]
  rw [fill, fill, start, start, hcells, h.length_eq]

theorem wholeScore_eq_of_lookedUpAlike (h : policy.LookedUpAlike g words others) (symbol : Nat) :
    wholeScore g policy words symbol = wholeScore g policy others symbol := by
  rw [wholeScore, wholeScore, fill_eq_of_lookedUpAlike h, h.length_eq]

end Chart

/-! ## Trees -/

theorem EndAlike.join {left otherLeft right otherRight : Except ParseFault Tree} (label : String)
    (hleft : EndAlike Tree.SameShape left otherLeft)
    (hright : EndAlike Tree.SameShape right otherRight) :
    EndAlike Tree.SameShape (Chart.join label left right)
      (Chart.join label otherLeft otherRight) := by
  cases hleft with
  | error fault => exact .error fault
  | ok hleftTree =>
    cases hright with
    | error fault => exact .error fault
    | ok hrightTree => exact .ok (.node label hleftTree hrightTree)

/-- Sentences of the same length lead to trees of the same shape, or to the same fault. -/
theorem Chart.endAlike_recover (g : Grammar) (chart : Chart)
    (hlength : words.length = others.length) (i j symbol : Nat) :
    EndAlike Tree.SameShape (chart.recover g words i j symbol)
      (chart.recover g others i j symbol) := by
  induction i, j, symbol using split_induction chart with
  | word i symbol =>
    rw [recover_word, recover_word]
    by_cases hi : i < words.length
    · rw [List.getElem?_eq_getElem hi, List.getElem?_eq_getElem (hlength ▸ hi)]
      exact .ok (.leaf _ _ _)
    · rw [List.getElem?_eq_none (Nat.le_of_not_lt hi),
        List.getElem?_eq_none (hlength ▸ Nat.le_of_not_lt hi)]
      exact .error _
  | noSplit i j symbol hij hsplit =>
    rw [recover_of_no_split g words hij hsplit, recover_of_no_split g others hij hsplit]
    exact .error _
  | split i j symbol point left right _ _ hsplit hleft hright =>
    rw [recover_of_split? g words hsplit, recover_of_split? g others hsplit]
    exact hleft.join _ hright

/-! ## Parses -/

namespace Grammar

variable {options : ParseOptions}

/-- The parses have the same score and trees of the same shape, each with its own words. -/
structure DifferInWords (words others : List String) (parse other : Parse) : Prop where
  score : parse.score = other.score
  shape : parse.tree.SameShape other.tree
  leaves : parse.tree.words = words
  otherLeaves : other.tree.words = others

theorem endAlike_parse_of_ne_nil (h : options.rareWords.LookedUpAlike g words others)
    (hwords : words ≠ []) :
    EndAlike (fun parse other ↦ parse.score = other.score ∧ parse.tree.SameShape other.tree)
      (g.parse options words) (g.parse options others) := by
  have hothers : others ≠ [] := by
    rwa [← List.length_pos_iff, ← h.length_eq, List.length_pos_iff]
  have hfill := Chart.fill_eq_of_lookedUpAlike h
  cases hroot : (Chart.fill g options.rareWords words).root? g options.startSymbol with
  | none =>
    rw [parse_of_root?_eq_none hwords hroot, parse_of_root?_eq_none hothers (hfill ▸ hroot)]
    exact .error _
  | some root =>
    have hscore := Chart.wholeScore_eq_of_lookedUpAlike h root
    rw [parse_of_root?_eq_some hwords hroot, parse_of_root?_eq_some hothers (hfill ▸ hroot),
      ← hfill, ← h.length_eq, ← hscore]
    have hrecover := Chart.endAlike_recover g (Chart.fill g options.rareWords words) h.length_eq 0
      (words.length - 1) root
    exact hrecover.map _ fun _ _ hshape ↦ ⟨rfl, hshape⟩

theorem endAlike_parse (h : options.rareWords.LookedUpAlike g words others) :
    EndAlike (DifferInWords words others) (g.parse options words) (g.parse options others) := by
  by_cases hwords : words = []
  · have hothers : others = [] := by
      rw [← List.length_eq_zero_iff, ← h.length_eq, hwords, List.length_nil]
    rw [hwords, hothers, parse_nil]
    exact .error _
  · apply (endAlike_parse_of_ne_nil h hwords).imp
    intro parse other hparse hother hrelated
    -- The leaves are the words of each sentence because both are parses.
    obtain ⟨-, _, hat⟩ := exists_root?_of_parse hparse
    obtain ⟨-, _, hotherAt⟩ := exists_root?_of_parse hother
    exact ⟨hrelated.1, hrelated.2, hat.leaves, hotherAt.leaves⟩

/-- Rare words take the placeholder's way through the chart: sentences that are looked up alike
have one chart and parse alike, and every sentence is looked up like its resolved words. -/
theorem parse_of_lookedUpAlike (g : Grammar) (policy : RareWords) :
    (∀ word, policy.resolve g (policy.resolve g word) = policy.resolve g word) ∧
    (∀ words, policy.LookedUpAlike g words (words.map (policy.resolve g))) ∧
    ∀ words others, policy.LookedUpAlike g words others →
      Chart.fill g policy words = Chart.fill g policy others ∧
      ∀ startSymbol, EndAlike (DifferInWords words others)
        (g.parse ⟨startSymbol, policy⟩ words) (g.parse ⟨startSymbol, policy⟩ others) := by
  refine ⟨policy.resolve_resolve g, policy.lookedUpAlike_map_resolve g, ?_⟩
  intro words others h
  exact ⟨Chart.fill_eq_of_lookedUpAlike h, fun _ ↦ endAlike_parse h⟩

/-- The placeholder is rare itself, and two words that take its way stay in the tree. -/
theorem parse_of_rarePlaceholder :
    let g := ofRecords Chart.attachmentRecords
    let policy : RareWords := { threshold := 10, placeholder := "dog" }
    let words := ["saw", "cat", "with", "fish"]
    let others := ["saw", "dog", "with", "dog"]
    let parse : Parse :=
      { tree := .node "VP" (.node "VP" (.leaf "V" "saw") (.leaf "NP" "cat"))
          (.node "PP" (.leaf "P" "with") (.leaf "NP" "fish"))
        score := ⟨4587164819176281028⟩ }
    policy.IsRare g "dog" ∧ policy.LookedUpAlike g words others ∧
      Chart.fill g policy words = Chart.fill g policy others ∧
      g.parse ⟨"VP", policy⟩ words = .ok parse ∧
      EndAlike (DifferInWords words others) (g.parse ⟨"VP", policy⟩ words)
        (g.parse ⟨"VP", policy⟩ others) := by
  intro g policy words others parse
  have halike : policy.LookedUpAlike g words others := by decide +kernel
  have hparse : g.parse ⟨"VP", policy⟩ words = .ok parse := by decide +kernel
  have hsame := (parse_of_lookedUpAlike g policy).2.2 words others halike
  exact ⟨by decide +kernel, halike, hsame.1, hparse, hsame.2 "VP"⟩

end Grammar

end StochasticGrammar
