import Mathlib.Order.Bounds.Defs
import StochasticGrammar.Parse
import StochasticGrammar.Proofs.Chart.Optimality
import StochasticGrammar.Proofs.Grammar.WordCount

/-!
# The parse of a sentence

A sentence has a parse exactly if some tree over it has a value, and its parse is a tree of the
greatest value that its root has.
-/

namespace StochasticGrammar

/-! ## Roots and trees of sentences

The start symbol is the root if its score over the whole sentence is positive, and otherwise the
root is the first symbol of greatest score, if any score is positive.  Every root has a tree, so
parsing a sentence of one or more words fails only where there is no root.
-/

section Root

variable {g : Grammar} {policy : RareWords} {words : List String} {startSymbol : String}

/-- A tree covers the whole sentence when it is a tree of the symbol with all the words. -/
theorem Tree.covers_whole_iff {tree : Tree} {symbol : Nat} (hwords : words ≠ []) :
    tree.Covers g words 0 (words.length - 1) symbol ↔
      g.symbols.key? symbol = some tree.label ∧ tree.words = words := by
  constructor
  · intro h
    exact ⟨h.label, by rw [h.words, spanWords_whole hwords]⟩
  · intro h
    exact ⟨h.1, by rw [h.2, spanWords_whole hwords]⟩

namespace Chart

/-- The score of a symbol over all the words. -/
def wholeScore (g : Grammar) (policy : RareWords) (words : List String) (symbol : Nat) : Weight :=
  (fill g policy words).score 0 (words.length - 1) symbol

theorem root?_fill :
    (fill g policy words).root? g startSymbol =
      heaviest? (wholeScore g policy words)
        ((fill g policy words).rootCandidates g startSymbol 0 (words.length - 1)) := by
  unfold root? wholeScore
  rw [length_fill]

theorem root?_fill_of_start {start : Nat} (hstart : g.symbols.position? startSymbol = some start)
    (hscore : wholeScore g policy words start ≠ 0) :
    (fill g policy words).root? g startSymbol = some start := by
  have hpos := Weight.pos_iff_ne_zero.mpr hscore
  have hcandidates : (fill g policy words).rootCandidates g startSymbol 0 (words.length - 1) =
      [start] := by
    unfold rootCandidates
    rw [hstart]
    exact if_pos hpos
  rw [root?_fill, hcandidates, heaviest?]
  exact if_neg hscore

theorem root?_fill_of_not_start
    (h : ∀ start, g.symbols.position? startSymbol = some start →
      wholeScore g policy words start = 0) :
    (fill g policy words).root? g startSymbol =
      heaviest? (wholeScore g policy words) (List.range g.symbols.size) := by
  have hcandidates : (fill g policy words).rootCandidates g startSymbol 0 (words.length - 1) =
      List.range g.symbols.size := by
    unfold rootCandidates
    cases hstart : g.symbols.position? startSymbol with
    | none => rfl
    | some start =>
      apply if_neg
      rw [Weight.pos_iff_ne_zero]
      exact not_not_intro (h start hstart)
  rw [root?_fill, hcandidates]

theorem wholeScore_ne_zero_of_root? {root : Nat}
    (h : (fill g policy words).root? g startSymbol = some root) :
    wholeScore g policy words root ≠ 0 := by
  rw [root?_fill] at h
  exact weight_ne_zero_of_heaviest? h

/-- There is no root exactly if no symbol has a positive score. -/
theorem root?_fill_eq_none_iff :
    (fill g policy words).root? g startSymbol = none ↔
      ∀ symbol < g.symbols.size, wholeScore g policy words symbol = 0 := by
  by_cases h : ∃ start, g.symbols.position? startSymbol = some start ∧
      wholeScore g policy words start ≠ 0
  · obtain ⟨start, hstart, hscore⟩ := h
    rw [root?_fill_of_start hstart hscore]
    constructor
    · intro hnone
      cases hnone
    · intro hzero
      exact absurd (hzero start (Tally.lt_size_of_position? hstart)) hscore
  · rw [root?_fill_of_not_start fun start hstart ↦ not_not.mp fun hne ↦ h ⟨start, hstart, hne⟩,
      heaviest?_eq_none_iff]
    simp only [List.mem_range]

end Chart

/-! ### The three ways to parse -/

namespace Grammar

variable {options : ParseOptions}

theorem parse_nil (g : Grammar) (options : ParseOptions) :
    g.parse options [] = .error .emptySentence := rfl

theorem parse_of_root?_eq_none (hwords : words ≠ [])
    (hroot : (Chart.fill g options.rareWords words).root? g options.startSymbol = none) :
    g.parse options words = .error .noParse := by
  rw [parse, if_neg (mt List.isEmpty_iff.mp hwords)]
  simp only [hroot]

/-- With a root, all depends on whether its tree can be recovered. -/
theorem parse_of_root?_eq_some {root : Nat} (hwords : words ≠ [])
    (hroot : (Chart.fill g options.rareWords words).root? g options.startSymbol = some root) :
    g.parse options words =
      ((Chart.fill g options.rareWords words).recover g words 0 (words.length - 1) root).map
        (⟨·, Chart.wholeScore g options.rareWords words root⟩) := by
  rw [parse, if_neg (mt List.isEmpty_iff.mp hwords)]
  unfold Chart.wholeScore
  simp only [hroot, Chart.length_fill]
  cases (Chart.fill g options.rareWords words).recover g words 0 (words.length - 1) root <;> rfl

theorem parse_of_recover {root : Nat} {tree : Tree} (hwords : words ≠ [])
    (hroot : (Chart.fill g options.rareWords words).root? g options.startSymbol = some root)
    (hrecover : (Chart.fill g options.rareWords words).recover g words 0 (words.length - 1) root =
      .ok tree) :
    g.parse options words = .ok ⟨tree, Chart.wholeScore g options.rareWords words root⟩ := by
  rw [parse_of_root?_eq_some hwords hroot, hrecover]
  rfl

/-- The parse is a tree of the root with all the words, worth the score of the root. -/
structure IsParseAt (g : Grammar) (options : ParseOptions) (words : List String) (symbol : Nat)
    (parse : Parse) : Prop where
  root : (Chart.fill g options.rareWords words).root? g options.startSymbol = some symbol
  label : g.symbols.key? symbol = some parse.tree.label
  leaves : parse.tree.words = words
  score : parse.score = Chart.wholeScore g options.rareWords words symbol
  value : parse.tree.value g options.rareWords = parse.score
  attested : parse.tree.Attested g options.rareWords

theorem IsParseAt.score_ne_zero {root : Nat} {parse : Parse}
    (h : g.IsParseAt options words root parse) : parse.score ≠ 0 := by
  rw [h.score]
  exact Chart.wholeScore_ne_zero_of_root? h.root

/-- A root has a parse. -/
theorem exists_parse_of_root? {root : Nat} (hwords : words ≠ [])
    (hroot : (Chart.fill g options.rareWords words).root? g options.startSymbol = some root) :
    ∃ parse, g.parse options words = .ok parse ∧ g.IsParseAt options words root parse := by
  have hscore := Chart.wholeScore_ne_zero_of_root? hroot
  obtain ⟨entry, hentry⟩ := Chart.exists_entry_of_score_ne_zero hscore
  obtain ⟨tree, htree⟩ :=
    Chart.exists_recovers_of_entry (Nat.zero_le _) (last_lt_length hwords) hentry
  have hwhole := (Tree.covers_whole_iff hwords).mp htree.covers
  exact ⟨_, parse_of_recover hwords hroot htree.recover,
    { root := hroot
      label := hwhole.1
      leaves := hwhole.2
      score := rfl
      value := htree.value.trans (Chart.score_of_entry hentry).symm
      attested := htree.attested }⟩

/-- A parse comes from a root. -/
theorem exists_root?_of_parse {parse : Parse} (h : g.parse options words = .ok parse) :
    words ≠ [] ∧ ∃ root, g.IsParseAt options words root parse := by
  have hwords : words ≠ [] := by
    intro hnil
    rw [hnil, parse_nil] at h
    cases h
  cases hroot : (Chart.fill g options.rareWords words).root? g options.startSymbol with
  | none =>
    rw [parse_of_root?_eq_none hwords hroot] at h
    cases h
  | some root =>
    obtain ⟨found, hfound, hparse⟩ := exists_parse_of_root? hwords hroot
    cases hfound.symm.trans h
    exact ⟨hwords, root, hparse⟩

end Grammar

end Root

/-! ## The outcome of parsing

A sentence without words is refused, and any other has a parse exactly if some symbol derives it
with a value other than zero.  The root is the start symbol if that is one of them, and otherwise
the first symbol whose best value is greatest.  No derivation is ever missing from the chart.
-/

namespace Grammar

variable {g : Grammar} {policy : RareWords} {words : List String}

/-- The values of the trees of a symbol with the given words. -/
def values (g : Grammar) (policy : RareWords) (words : List String) (symbol : String) :
    Set Weight :=
  {weight | ∃ tree : Tree, tree.label = symbol ∧ tree.words = words ∧
    tree.value g policy = weight}

/-- A known symbol has a tree of the words whose value is not zero. -/
def Derives (g : Grammar) (policy : RareWords) (words : List String) (symbol : String) : Prop :=
  symbol ∈ g.symbols ∧ ∃ weight ∈ g.values policy words symbol, weight ≠ 0

/-- The symbol has a best value that no symbol exceeds and no earlier symbol attains. -/
def IsFirstBest (g : Grammar) (policy : RareWords) (words : List String) (symbol : String) :
    Prop :=
  ∃ number best, g.symbols.key? number = some symbol ∧
    IsGreatest (g.values policy words symbol) best ∧
      ∀ otherNumber other weight, g.symbols.key? otherNumber = some other →
        weight ∈ g.values policy words other →
          weight ≤ best ∧ (otherNumber < number → weight < best)

/-- The start symbol if it derives the words, and the first best symbol if not. -/
def IsRoot (g : Grammar) (options : ParseOptions) (words : List String) (symbol : String) : Prop :=
  (g.Derives options.rareWords words options.startSymbol → symbol = options.startSymbol) ∧
    (¬g.Derives options.rareWords words options.startSymbol →
      g.IsFirstBest options.rareWords words symbol)

/-! ### Values and scores -/

theorem le_wholeScore_of_mem_values {symbol : Nat} {name : String} {weight : Weight}
    (hwords : words ≠ []) (hname : g.symbols.key? symbol = some name)
    (hweight : weight ∈ g.values policy words name) :
    weight ≤ Chart.wholeScore g policy words symbol := by
  obtain ⟨tree, rfl, htree, rfl⟩ := hweight
  exact Chart.value_le_score (last_lt_length hwords)
    ((Tree.covers_whole_iff hwords).mpr ⟨hname, htree⟩)

theorem wholeScore_mem_values {symbol : Nat} {name : String} (hwords : words ≠ [])
    (hname : g.symbols.key? symbol = some name)
    (hscore : Chart.wholeScore g policy words symbol ≠ 0) :
    Chart.wholeScore g policy words symbol ∈ g.values policy words name := by
  obtain ⟨tree, hcovers, hvalue⟩ :=
    Chart.exists_tree_of_score_ne_zero (Nat.zero_le _) (last_lt_length hwords) hscore
  have hwhole := (Tree.covers_whole_iff hwords).mp hcovers
  cases hname.symm.trans hwhole.1
  exact ⟨tree, rfl, hwhole.2, hvalue⟩

/-- A score other than zero is the greatest value. -/
theorem isGreatest_values {symbol : Nat} {name : String} (hwords : words ≠ [])
    (hname : g.symbols.key? symbol = some name)
    (hscore : Chart.wholeScore g policy words symbol ≠ 0) :
    IsGreatest (g.values policy words name) (Chart.wholeScore g policy words symbol) := by
  constructor
  · exact wholeScore_mem_values hwords hname hscore
  · intro weight hweight
    exact le_wholeScore_of_mem_values hwords hname hweight

theorem derives_iff_wholeScore_ne_zero {symbol : Nat} {name : String} (hwords : words ≠ [])
    (hname : g.symbols.key? symbol = some name) :
    g.Derives policy words name ↔ Chart.wholeScore g policy words symbol ≠ 0 := by
  unfold Chart.wholeScore
  rw [Chart.score_ne_zero_iff (Nat.zero_le _) (last_lt_length hwords)]
  constructor
  · intro h
    obtain ⟨-, weight, ⟨tree, rfl, htree, rfl⟩, hne⟩ := h
    exact ⟨tree, (Tree.covers_whole_iff hwords).mpr ⟨hname, htree⟩, hne⟩
  · intro h
    obtain ⟨tree, hcovers, hvalue⟩ := h
    have hwhole := (Tree.covers_whole_iff hwords).mp hcovers
    cases hname.symm.trans hwhole.1
    exact ⟨Tally.mem_iff_exists_key?.mpr ⟨symbol, hname⟩, _, ⟨tree, rfl, hwhole.2, rfl⟩, hvalue⟩

/-! ### Roots -/

variable {options : ParseOptions}

/-- There is no root exactly if no symbol derives the words. -/
theorem root?_eq_none_iff_derives (hwords : words ≠ []) :
    (Chart.fill g policy words).root? g options.startSymbol = none ↔
      ¬∃ symbol, g.Derives policy words symbol := by
  rw [Chart.root?_fill_eq_none_iff]
  constructor
  · intro h hderives
    obtain ⟨name, hname⟩ := hderives
    obtain ⟨symbol, hsymbol⟩ := Tally.mem_iff_exists_key?.mp hname.1
    exact (derives_iff_wholeScore_ne_zero hwords hsymbol).mp hname
      (h symbol (Tally.lt_size_of_key? hsymbol))
  · intro h symbol hsymbol
    obtain ⟨name, hname⟩ := Tally.exists_key?_of_lt_size hsymbol
    by_contra hscore
    exact h ⟨name, (derives_iff_wholeScore_ne_zero hwords hname).mpr hscore⟩

/-- The root is the start symbol, or the first of greatest score where that derives nothing. -/
theorem isRoot_of_root? {root : Nat} {name : String} (hwords : words ≠ [])
    (hroot : (Chart.fill g options.rareWords words).root? g options.startSymbol = some root)
    (hname : g.symbols.key? root = some name) : g.IsRoot options words name := by
  constructor
  · intro hstart
    obtain ⟨start, hposition⟩ := Tally.exists_position?_of_mem hstart.1
    have hkey := Tally.position?_eq_some_iff.mp hposition
    have hscore := (derives_iff_wholeScore_ne_zero hwords hkey).mp hstart
    rw [Chart.root?_fill_of_start hposition hscore, Option.some.injEq] at hroot
    rw [← hroot, hkey, Option.some.injEq] at hname
    exact hname.symm
  · intro hstart
    have hne := Chart.wholeScore_ne_zero_of_root? hroot
    have hzero : ∀ start, g.symbols.position? options.startSymbol = some start →
        Chart.wholeScore g options.rareWords words start = 0 := by
      intro start hposition
      by_contra hscore
      have hkey := Tally.position?_eq_some_iff.mp hposition
      exact hstart ((derives_iff_wholeScore_ne_zero hwords hkey).mpr hscore)
    rw [Chart.root?_fill_of_not_start hzero] at hroot
    refine ⟨root, _, hname, isGreatest_values hwords hname hne, ?_⟩
    intro otherNumber other weight hother hweight
    have hle := le_wholeScore_of_mem_values hwords hother hweight
    have hmem := List.mem_range.mpr (Tally.lt_size_of_key? hother)
    exact ⟨hle.trans (weight_le_of_heaviest? hroot hmem),
      fun hlt ↦ hle.trans_lt (weight_lt_of_heaviest?_range hroot hlt)⟩

/-! ### Outcomes -/

/-- A sentence that is derived has a parse at the root, with the root's greatest value. -/
theorem exists_parse_of_derives (hwords : words ≠ [])
    (h : ∃ symbol, g.Derives options.rareWords words symbol) :
    ∃ parse, g.parse options words = .ok parse ∧ g.IsRoot options words parse.tree.label ∧
      IsGreatest (g.values options.rareWords words parse.tree.label) parse.score := by
  cases hroot : (Chart.fill g options.rareWords words).root? g options.startSymbol with
  | none => exact absurd h ((root?_eq_none_iff_derives hwords).mp hroot)
  | some root =>
    obtain ⟨parse, hparse, hat⟩ := exists_parse_of_root? hwords hroot
    have hgreatest :=
      isGreatest_values hwords hat.label (Chart.wholeScore_ne_zero_of_root? hroot)
    rw [← hat.score] at hgreatest
    exact ⟨parse, hparse, isRoot_of_root? hwords hroot hat.label, hgreatest⟩

theorem parse_of_not_derives (hwords : words ≠ [])
    (h : ¬∃ symbol, g.Derives options.rareWords words symbol) :
    g.parse options words = .error .noParse :=
  parse_of_root?_eq_none hwords ((root?_eq_none_iff_derives hwords).mpr h)

/-- The parse of a sentence, if the counts of each of its words can be added up. -/
def parse? (g : Grammar) (options : ParseOptions) (words : List String) :
    Option (Except ParseFault Parse) := do
  let _ ← words.mapM (options.rareWords.resolve? g)
  some (g.parse options words)

theorem parse?_eq (g : Grammar) (options : ParseOptions) (words : List String) :
    g.parse? options words =
      if ∀ word ∈ words, g.AddsUp word then some (g.parse options words) else none := by
  rw [parse?, RareWords.mapM_resolve?]
  split_ifs <;> rfl

/-- What parsing gives for every sentence.  Where the counts of words are checked as they are added
up, it gives the same, or nothing at all if those of some word are too many. -/
theorem parse_outcome (g : Grammar) (options : ParseOptions) (words : List String) :
    (g.parse options words = .error .emptySentence ↔ words = []) ∧
    (∀ label i j, g.parse options words ≠ .error (.missingDerivation label i j)) ∧
    (g.parse options words = .error .noParse ↔
      words ≠ [] ∧ ¬∃ symbol, g.Derives options.rareWords words symbol) ∧
    (words ≠ [] → (∃ symbol, g.Derives options.rareWords words symbol) →
      ∃ parse, g.parse options words = .ok parse ∧ g.IsRoot options words parse.tree.label ∧
        IsGreatest (g.values options.rareWords words parse.tree.label) parse.score) ∧
    g.parse? options words =
      if ∀ word ∈ words, g.AddsUp word then some (g.parse options words) else none := by
  rw [← parse?_eq]
  by_cases hwords : words = []
  · subst hwords
    rw [parse_nil]
    simp
  · by_cases hderives : ∃ symbol, g.Derives options.rareWords words symbol
    · obtain ⟨parse, hparse, hroot, hscore⟩ := exists_parse_of_derives hwords hderives
      rw [hparse]
      refine ⟨?_, ?_, ?_, fun _ _ ↦ ⟨parse, rfl, hroot, hscore⟩, rfl⟩
      · simp [hwords]
      · simp
      · simp [hderives]
    · rw [parse_of_not_derives hwords hderives]
      simp [hwords, hderives]

/-- Counts of three parents of a word.  The first is half as sure as the other two. -/
def rivalRoots : List Record :=
  [.nonterminal "S" 16, .nonterminal "X" 16, .nonterminal "Y" 16, .unary ⟨"S", "a"⟩ 8,
    .unary ⟨"X", "a"⟩ 16, .unary ⟨"Y", "a"⟩ 16]

/-- The start symbol is the root although others are surer, and without it the first of those. -/
theorem parse_outcome_of_rivals :
    let g := ofRecords rivalRoots
    let words := ["a"]
    let elsewhere : ParseOptions := { startSymbol := "T" }
    let half : Weight := ⟨4602678819172646912⟩
    words ≠ [] ∧ (∃ symbol, g.Derives {} words symbol) ∧
      (half < 1 ∧ 1 ∈ g.values {} words "X" ∧ 1 ∈ g.values {} words "Y") ∧
      (g.parse {} words = .ok ⟨.leaf "S" "a", half⟩ ∧ g.IsRoot {} words "S" ∧
        IsGreatest (g.values {} words "S") half) ∧
      g.parse elsewhere words = .ok ⟨.leaf "X" "a", 1⟩ ∧ g.IsRoot elsewhere words "X" ∧
        IsGreatest (g.values {} words "X") 1 := by
  intro g words elsewhere half
  have hwords : words ≠ [] := List.cons_ne_nil _ _
  have hfirst : 1 ∈ g.values {} words "X" := ⟨.leaf "X" "a", rfl, rfl, by decide +kernel⟩
  have hsecond : 1 ∈ g.values {} words "Y" := ⟨.leaf "Y" "a", rfl, rfl, by decide +kernel⟩
  have hderives : ∃ symbol, g.Derives {} words symbol :=
    ⟨"X", by decide, 1, hfirst, by decide⟩
  have hstart : g.parse {} words = .ok ⟨.leaf "S" "a", half⟩ := by decide +kernel
  have hother : g.parse elsewhere words = .ok ⟨.leaf "X" "a", 1⟩ := by decide +kernel
  refine ⟨hwords, hderives, ⟨by decide, hfirst, hsecond⟩, ⟨hstart, ?_⟩, hother, ?_⟩
  · obtain ⟨parse, hparse, hroot⟩ := (parse_outcome g {} words).2.2.2.1 hwords hderives
    rw [hstart] at hparse
    cases hparse
    exact hroot
  · obtain ⟨parse, hparse, hroot⟩ := (parse_outcome g elsewhere words).2.2.2.1 hwords hderives
    rw [hother] at hparse
    cases hparse
    exact hroot

end Grammar

/-! ## A parse is a derivation of its sentence

The tree of a parse has the words of the sentence at its leaves, in order and as they were given.
Every rule in it was seen under a symbol that was seen, and the score of the parse is the value of
the tree, computed from the counts of its rules alone.
-/

namespace Grammar

variable {g : Grammar} {options : ParseOptions} {words : List String} {parse : Parse}

/-- Whatever parsing returns is an attested derivation of the words, worth its score. -/
theorem attested_of_parse_eq_ok (h : g.parse options words = .ok parse) :
    parse.tree.words = words ∧ parse.tree.Attested g options.rareWords ∧ 0 < parse.score ∧
      parse.score = parse.tree.value g options.rareWords := by
  obtain ⟨-, root, hroot⟩ := exists_root?_of_parse h
  have hpos : 0 < parse.score := Weight.pos_iff_ne_zero.mpr hroot.score_ne_zero
  exact ⟨hroot.leaves, hroot.attested, hpos, hroot.value.symm⟩

/-- The phrase attaches to the verb, and the word that was never seen stays in the tree. -/
theorem attested_parse_attachment :
    let g := Grammar.ofRecords Chart.attachmentRecords
    let options : ParseOptions :=
      { startSymbol := "VP", rareWords := { threshold := 10, placeholder := "dog" } }
    let words := ["saw", "dog", "with", "fish"]
    let parse : Parse :=
      { tree := .node "VP" (.node "VP" (.leaf "V" "saw") (.leaf "NP" "dog"))
          (.node "PP" (.leaf "P" "with") (.leaf "NP" "fish"))
        score := ⟨4587164819176281028⟩ }
    g.parse options words = .ok parse ∧ parse.tree.words = words ∧
      parse.tree.Attested g options.rareWords ∧ 0 < parse.score ∧
        parse.score = parse.tree.value g options.rareWords := by
  intro g options words parse
  have hparse : g.parse options words = .ok parse := by
    decide +kernel
  exact ⟨hparse, attested_of_parse_eq_ok hparse⟩

end Grammar

end StochasticGrammar
