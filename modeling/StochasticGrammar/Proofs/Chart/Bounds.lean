import StochasticGrammar.Proofs.Chart.Optimality
import StochasticGrammar.Proofs.Weight.Arithmetic

/-!
# Bounds on probabilities and scores

Probabilities are shares of counts, so they are at most one.  A product of such weights is at most
each of its factors, however it is rounded.  So the scores of a chart never exceed one, and the
score of a split never exceeds the probability of its rule or the scores of its parts.
-/

namespace StochasticGrammar

/-! ## Probabilities -/

/-- What holds of the share of some occurrences among a total: when there is one, when it is zero or
one, and that nothing on the way to it leaves the finite numbers. -/
structure Weight.ShareLaws (count total : Nat) : Prop where
  eq_none_iff : relativeFrequency? count total = none ↔ 0 < count ∧ total = 0
  eq_zero_iff : relativeFrequency? count total = some 0 ↔ count = 0
  eq_one : 0 < total → total ≤ count → relativeFrequency? count total = some 1
  le_one : ∀ share, relativeFrequency? count total = some share → 0 ≤ share ∧ share ≤ 1
  isFinite_count : (ofNat count).IsFinite
  isFinite_total : (ofNat total).IsFinite
  isFinite_div : 0 < total → ofNat total ≠ 0 ∧ (ofNat count / ofNat total).IsFinite

theorem Weight.shareLaws {count total : Nat} (hcount : count ≤ Record.maxCount)
    (htotal : total ≤ Record.maxCount) : ShareLaws count total := by
  have hcountBits : count ≤ 2 ^ Record.countBits := hcount.trans Record.maxCount_le
  have htotalBits : total ≤ 2 ^ Record.countBits := htotal.trans Record.maxCount_le
  have hfinite : (ofNat count).IsFinite := isFinite_ofNat (by decide) hcountBits
  exact
    { eq_none_iff := relativeFrequency?_eq_none_iff
      eq_zero_iff := relativeFrequency?_eq_zero_iff (by decide) htotalBits
      eq_one := relativeFrequency?_of_le
      le_one := fun share h ↦ ⟨zero_le share, relativeFrequency?_le_one h⟩
      isFinite_count := hfinite
      isFinite_total := isFinite_ofNat (by decide) htotalBits
      isFinite_div := fun hpos ↦ ⟨ofNat_ne_zero (Nat.ne_of_gt hpos),
        hfinite.of_le (div_le_self (one_le_ofNat (Nat.ne_of_gt hpos)))⟩ }

namespace Grammar

variable {g : Grammar} {parent : String} {count : Nat}

theorem share_eq_ok_iff {weight : Weight} :
    g.share parent count = .ok weight ↔
      Weight.relativeFrequency? count (g.symbols.count parent) = some weight := by
  unfold share
  cases Weight.relativeFrequency? count (g.symbols.count parent) <;> simp

theorem share_eq_error_iff {fault : UndefinedProbability} :
    g.share parent count = .error fault ↔
      fault = ⟨parent⟩ ∧ 0 < count ∧ g.symbols.count parent = 0 := by
  rw [← Weight.relativeFrequency?_eq_none_iff]
  unfold share
  cases Weight.relativeFrequency? count (g.symbols.count parent) <;> simp [eq_comm]

theorem getD_relativeFrequency?_le_one (count total : Nat) :
    (Weight.relativeFrequency? count total).getD 0 ≤ 1 := by
  cases hshare : Weight.relativeFrequency? count total with
  | none => exact Weight.zero_le 1
  | some share => exact Weight.relativeFrequency?_le_one hshare

theorem binaryProbability_le_one (g : Grammar) (rule : BinaryRule) :
    g.binaryProbability rule ≤ 1 := by
  rw [binaryProbability_eq]
  exact getD_relativeFrequency?_le_one _ _

theorem unaryProbability_le_one (g : Grammar) (rule : UnaryRule) :
    g.unaryProbability rule ≤ 1 := by
  rw [unaryProbability_eq]
  exact getD_relativeFrequency?_le_one _ _

end Grammar

variable {g : Grammar} {policy : RareWords} {words : List String}

theorem Tree.value_le_one (g : Grammar) (policy : RareWords) (tree : Tree) :
    tree.value g policy ≤ 1 := by
  induction tree with
  | leaf label word => exact g.unaryProbability_le_one _
  | node label left right ihl ihr =>
    have hrule := g.binaryProbability_le_one ⟨label, left.label, right.label⟩
    calc
      _ ≤ g.binaryProbability ⟨label, left.label, right.label⟩ * left.value g policy :=
        Weight.mul_le_left ihr
      _ ≤ g.binaryProbability ⟨label, left.label, right.label⟩ := Weight.mul_le_left ihl
      _ ≤ 1 := hrule

namespace Chart

/-! ## Scores -/

theorem entry_score_le_one {i j symbol : Nat} {entry : Entry}
    (h : entry? (fill g policy words) i j symbol = some entry) : entry.score ≤ 1 := by
  obtain ⟨hij, hj⟩ := span_of_entry h
  obtain ⟨tree, htree⟩ := exists_recovers_of_entry hij hj h
  rw [← htree.value]
  exact tree.value_le_one g policy

/-- The score over a split is the product of what it is made of, and no more than any of it. -/
structure ProductBounds (score probability left right : Weight) : Prop where
  eq_mul : score = probability * left * right
  le_probability : score ≤ probability
  le_left : score ≤ left
  le_right : score ≤ right

theorem productBounds {probability left right : Weight} (hprobability : probability ≤ 1)
    (hleft : left ≤ 1) (hright : right ≤ 1) :
    ProductBounds (probability * left * right) probability left right where
  eq_mul := rfl
  le_probability := (Weight.mul_le_left hright).trans (Weight.mul_le_left hleft)
  le_left := (Weight.mul_le_left hright).trans (Weight.mul_le_right hprobability)
  le_right := Weight.mul_le_right ((Weight.mul_le_left hleft).trans hprobability)

/-- The score of an entry is a positive probability.  If the entry is split, its score is bounded by
the rule that was used and by the entries of the two parts. -/
structure EntryBounds (g : Grammar) (chart : Chart) (i j symbol : Nat) (entry : Entry) :
    Prop where
  score_pos : 0 < entry.score
  score_le_one : entry.score ≤ 1
  split : ∀ point left right, entry.origin = .split point left right →
    ∃ rule ∈ g.rulesFor symbol, rule.left = left ∧ rule.right = right ∧
      rule.probability = g.binaryProbability
        ⟨g.symbolName symbol, g.symbolName left, g.symbolName right⟩ ∧
      ∃ leftEntry rightEntry, chart.entry? i point left = some leftEntry ∧
        chart.entry? (point + 1) j right = some rightEntry ∧
          ProductBounds entry.score rule.probability leftEntry.score rightEntry.score

theorem probability_of_mem_rulesFor {symbol : Nat} {rule : IndexedRule}
    (h : rule ∈ g.rulesFor symbol) :
    rule.probability = g.binaryProbability
      ⟨g.symbolName symbol, g.symbolName rule.left, g.symbolName rule.right⟩ := by
  obtain ⟨rfl, parent, left, right, hparent, hleft, hright, -, -, hprobability⟩ :=
    Grammar.mem_rulesFor_iff.mp h
  rw [hprobability, Grammar.symbolName_of_key? hparent, Grammar.symbolName_of_key? hleft,
    Grammar.symbolName_of_key? hright]

theorem entryBounds (hg : g.Trained) {i j symbol : Nat} {entry : Entry}
    (h : entry? (fill g policy words) i j symbol = some entry) :
    EntryBounds g (fill g policy words) i j symbol entry := by
  obtain ⟨hij, hj⟩ := span_of_entry h
  refine ⟨Weight.pos_iff_ne_zero.mpr (entry_score_ne_zero hg hij hj h), entry_score_le_one h, ?_⟩
  intro point left right horigin
  rcases Nat.lt_or_eq_of_le hij with hlt | rfl
  · obtain ⟨-, rule, hrule, other, -, -, rfl, hleft, hright⟩ := exists_candidate_of_entry hlt hj h
    obtain ⟨leftEntry, hleft⟩ := hleft
    obtain ⟨rightEntry, hright⟩ := hright
    cases horigin
    have hprobability := probability_of_mem_rulesFor hrule
    have hbounds : ProductBounds _ rule.probability leftEntry.score rightEntry.score :=
      productBounds (hprobability ▸ g.binaryProbability_le_one _) (entry_score_le_one hleft)
        (entry_score_le_one hright)
    rw [← score_of_entry hleft, ← score_of_entry hright] at hbounds
    refine ⟨rule, hrule, rfl, rfl, hprobability, leftEntry, rightEntry, hleft, hright, ?_⟩
    rw [← score_of_entry hleft, ← score_of_entry hright]
    exact hbounds
  · have hword : words[i]? = some words[i] := List.getElem?_eq_getElem hj
    obtain ⟨_, -, -, -, rfl⟩ := (entry?_fill_self_eq_some_iff hword).mp h
    cases horigin

/-- Relative frequencies are probabilities and keep the order of counts, and the scores of every
chart are bounded by what they are made of. -/
theorem probabilities_and_scores_bounded :
    (∀ count total, count ≤ Record.maxCount → total ≤ Record.maxCount →
      Weight.ShareLaws count total) ∧
    (∀ count more total share other, count ≤ more →
      Weight.relativeFrequency? count total = some share →
        Weight.relativeFrequency? more total = some other → share ≤ other) ∧
    (∀ count total larger share other, 0 < total → total ≤ larger →
      Weight.relativeFrequency? count total = some share →
        Weight.relativeFrequency? count larger = some other → other ≤ share) ∧
    (∀ (g : Grammar) (rule : BinaryRule),
      let count := g.binaryRules.count rule
      let total := g.symbols.count rule.parent
      (∀ fault, g.binaryShare rule = .error fault ↔
        fault = ⟨rule.parent⟩ ∧ 0 < count ∧ total = 0) ∧
      ∀ share, g.binaryShare rule = .ok share ↔
        Weight.relativeFrequency? count total = some share) ∧
    (∀ (g : Grammar) (rule : UnaryRule),
      let count := g.unaryRules.count rule
      let total := g.symbols.count rule.parent
      (∀ fault, g.unaryShare rule = .error fault ↔
        fault = ⟨rule.parent⟩ ∧ 0 < count ∧ total = 0) ∧
      ∀ share, g.unaryShare rule = .ok share ↔
        Weight.relativeFrequency? count total = some share) ∧
    ∀ g : Grammar, g.Trained → ∀ policy words i j symbol entry,
      entry? (fill g policy words) i j symbol = some entry →
        EntryBounds g (fill g policy words) i j symbol entry := by
  refine ⟨fun _ _ ↦ Weight.shareLaws, fun _ _ _ _ _ ↦ Weight.relativeFrequency?_mono,
    fun _ _ _ _ _ ↦ Weight.relativeFrequency?_antitone, ?_, ?_,
    fun _ hg _ _ _ _ _ _ ↦ entryBounds hg⟩
  · intro g rule count total
    exact ⟨fun _ ↦ Grammar.share_eq_error_iff, fun _ ↦ Grammar.share_eq_ok_iff⟩
  · intro g rule count total
    exact ⟨fun _ ↦ Grammar.share_eq_error_iff, fun _ ↦ Grammar.share_eq_ok_iff⟩

/-- Counts that are rounded when they are converted, and an entry over four words. -/
theorem probabilities_and_scores_bounded_beyond_exact :
    let g := Grammar.ofRecords attachmentRecords
    let chart := fill g {} ["saw", "dog", "with", "cat"]
    let entry : Entry := ⟨⟨4587164819176281028⟩, .split 1 0 2⟩
    let share : Weight := ⟨4557642822898941952⟩
    let more : Weight := ⟨4557642822898941953⟩
    Weight.ShareLaws 9007199254740993 Record.maxCount ∧
      Weight.relativeFrequency? 9007199254740993 Record.maxCount = some share ∧
      Weight.relativeFrequency? 9007199254740994 Record.maxCount = some more ∧ share ≤ more ∧
      Weight.relativeFrequency? 9007199254740993 9007199254740993 = some 1 ∧ share ≤ 1 ∧
      g.Trained ∧ chart.entry? 0 3 0 = some entry ∧ EntryBounds g chart 0 3 0 entry := by
  intro g chart entry share more
  obtain ⟨hlaws, hmono, hantitone, -, -, hentries⟩ := probabilities_and_scores_bounded
  have hshare : Weight.relativeFrequency? 9007199254740993 Record.maxCount = some share := by
    decide +kernel
  have hmore : Weight.relativeFrequency? 9007199254740994 Record.maxCount = some more := by
    decide +kernel
  have hone : Weight.relativeFrequency? 9007199254740993 9007199254740993 = some 1 := by
    decide +kernel
  have htrained : g.Trained := .train .empty attachmentRecords (by decide)
  have hentry : chart.entry? 0 3 0 = some entry := by decide +kernel
  exact ⟨hlaws _ _ (by decide) le_rfl, hshare, hmore, hmono _ _ _ _ _ (by decide) hshare hmore,
    hone, hantitone _ _ _ _ _ (by decide) (by decide) hone hshare, htrained, hentry,
    hentries g htrained {} _ 0 3 0 entry hentry⟩

end Chart

end StochasticGrammar
