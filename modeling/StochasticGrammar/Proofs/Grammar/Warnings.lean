import StochasticGrammar.Grammar
import StochasticGrammar.Proofs.Grammar.History
import StochasticGrammar.Proofs.Grammar.Restriction
import StochasticGrammar.Proofs.Weight.Arithmetic

/-!
# Rules and the warnings about them

Training passes over the counted rules in order and says what is wrong with each of them, so the
warnings about a rule depend on its counts alone.  A rule that was seen and is not listed has a
warning that says so, a rule whose probability is cut down to one has a warning that says that, and
a rule that is used as it was counted has none.  The text of a warning tells which of these it is
and names the rule.
-/

namespace StochasticGrammar

/-- Of what is said about different items one after another, what is about one of them is what is
said about it. -/
theorem filter_flatMap_of_nodup {α β : Type} [DecidableEq α] {items : List α} (hitems : items.Nodup)
    {said : α → List β} {about? : β → Option α} (habout : ∀ item, ∀ b ∈ said item,
      about? b = some item) (item : α) :
    (items.flatMap said).filter (about? · = some item) =
      if item ∈ items then said item else [] := by
  have hsaid (other : α) : (said other).filter (about? · = some item) =
      if item = other then said item else [] := by
    split_ifs with hother
    · rw [hother, List.filter_eq_self]
      intro b hb
      simp [habout other b hb]
    · rw [List.filter_eq_nil_iff]
      intro b hb
      simp [habout other b hb, Ne.symm hother]
  induction items with
  | nil => rfl
  | cons first later ih =>
    rw [List.nodup_cons] at hitems
    rw [List.flatMap_cons, List.filter_append, hsaid, ih hitems.2]
    by_cases hfirst : item = first
    · simp [hfirst, hitems.1]
    · simp [hfirst]

/-- How a rule is written in a notice. -/
def Rule.text : Rule → String
  | binary rule => toString rule
  | unary rule => toString rule

namespace Grammar

/-! ## Warnings about a rule -/

/-- The rule that a notice is about. -/
def Notice.rule? : Notice → Option Rule
  | unknownSymbol rule => some (.binary rule)
  | binaryOutnumbers rule => some (.binary rule)
  | binaryUndefined rule => some (.binary rule)
  | unknownParent rule => some (.unary rule)
  | unaryUndefined rule => some (.unary rule)
  | unaryOutnumbers rule => some (.unary rule)
  | trained _ _ _ => none

/-- The notice says that a binary rule is left out. -/
def Notice.skips : Notice → Bool
  | unknownSymbol _ => true
  | binaryUndefined _ => true
  | _ => false

/-- The notice says that a rule was seen more often than its parent. -/
def Notice.outnumbers : Notice → Bool
  | binaryOutnumbers _ => true
  | unaryOutnumbers _ => true
  | _ => false

/-- What the counts of a rule give reason to say about it. -/
def noticesOn (g : Grammar) : Rule → List Notice
  | .binary rule => g.binaryNotices rule (g.binaryRules.count rule)
  | .unary rule => g.unaryNotices rule (g.unaryRules.count rule)

/-- The warnings that are about a rule. -/
def warningsOn (g : Grammar) (rule : Rule) : List Notice :=
  g.warnings.filter (·.rule? = some rule)

/-! ## What notices read like -/

inductive Notice.Kind where
  | unknownSymbol
  | binaryOutnumbers
  | binaryUndefined
  | unknownParent
  | unaryUndefined
  | unaryOutnumbers
  | trained
deriving DecidableEq, Repr

namespace Notice

def kind : Notice → Kind
  | unknownSymbol _ => .unknownSymbol
  | binaryOutnumbers _ => .binaryOutnumbers
  | binaryUndefined _ => .binaryUndefined
  | unknownParent _ => .unknownParent
  | unaryUndefined _ => .unaryUndefined
  | unaryOutnumbers _ => .unaryOutnumbers
  | trained _ _ _ => .trained

/-- What all texts of a kind start with. -/
def Kind.opening : Kind → String
  | unknownSymbol => "WARN Skipping binary rule "
  | binaryOutnumbers => "WARN Binary rule "
  | binaryUndefined => "WARN Skipping binary rule "
  | unknownParent => "WARN Unary rule "
  | unaryUndefined => "WARN Unary rule "
  | unaryOutnumbers => "WARN Unary rule "
  | trained => "INFO trained grammar non_terminals="

/-- What all texts of a kind end with. -/
def Kind.ending : Kind → String
  | unknownSymbol => ": symbol is not a known nonterminal"
  | binaryOutnumbers => " outnumbers its nonterminal, probability clamped to 1"
  | binaryUndefined => "' has rule occurrences but a zero left-hand-side count"
  | unknownParent => " has an unknown nonterminal"
  | unaryUndefined => "' has rule occurrences but a zero left-hand-side count"
  | unaryOutnumbers => " outnumbers its nonterminal, probability clamped to 1"
  | trained => ""

/-- What stands between the opening and the ending. -/
def subject : Notice → String
  | unknownSymbol rule => toString rule
  | binaryOutnumbers rule => toString rule
  | binaryUndefined rule => s!"{rule}: " ++ s!"nonterminal '{rule.parent}"
  | unknownParent rule => toString rule
  | unaryUndefined rule => s!"{rule}: " ++ s!"nonterminal '{rule.parent}"
  | unaryOutnumbers rule => toString rule
  | trained symbols binaryRules unaryRules =>
    s!"{symbols} " ++ s!"binary_rules={binaryRules} unary_rules={unaryRules}"

theorem append_regroup (opening first second third ending : String) :
    opening ++ first ++ second ++ (third ++ ending) =
      opening ++ (first ++ second ++ third) ++ ending := by
  simp only [String.append_assoc]

theorem text_eq (notice : Notice) :
    notice.text = notice.kind.opening ++ notice.subject ++ notice.kind.ending := by
  cases notice with
  | binaryUndefined rule => exact append_regroup _ (toString rule) ": " _ _
  | unaryUndefined rule => exact append_regroup _ (toString rule) ": " _ _
  | trained symbols binaryRules unaryRules =>
    have hsizes := append_regroup Kind.trained.opening (toString symbols) " "
      s!"binary_rules={binaryRules} unary_rules={unaryRules}" ""
    rwa [String.append_empty] at hsizes
  | _ => rfl

/-- A text about a rule names it. -/
theorem subject_eq_of_rule? {notice : Notice} {rule : Rule} (h : notice.rule? = some rule) :
    ∃ rest, notice.subject = rule.text ++ rest := by
  cases notice with
  | binaryUndefined rule =>
    cases h
    exact ⟨": " ++ ("nonterminal '" ++ rule.parent), String.append_assoc⟩
  | unaryUndefined rule =>
    cases h
    exact ⟨": " ++ ("nonterminal '" ++ rule.parent), String.append_assoc⟩
  | trained _ _ _ => cases h
  | _ =>
    cases h
    exact ⟨"", String.append_empty.symm⟩

/-- Reads the kind of a notice off its text: its sixth character and its last one tell the kinds
apart. -/
def Kind.ofText (text : String) : Kind :=
  match text.toList[5]?, text.toList.getLast? with
  | some 'S', some 'l' => .unknownSymbol
  | some 'S', _ => .binaryUndefined
  | some 'B', _ => .binaryOutnumbers
  | some 'U', some 'l' => .unknownParent
  | some 'U', some 't' => .unaryUndefined
  | some 'U', _ => .unaryOutnumbers
  | _, _ => .trained

theorem ofText_text (notice : Notice) : Kind.ofText notice.text = notice.kind := by
  have hsixth : notice.text.toList[5]? = notice.kind.opening.toList[5]? := by
    rw [text_eq, String.toList_append, String.toList_append, List.append_assoc]
    apply List.getElem?_append_left
    cases notice.kind <;> decide
  have hlast (hending : notice.kind ≠ .trained) :
      notice.text.toList.getLast? = notice.kind.ending.toList.getLast? := by
    rw [text_eq, String.toList_append]
    apply List.getLast?_append_of_ne_nil
    cases hkind : notice.kind <;> simp_all [Kind.ending]
  rw [Kind.ofText, hsixth]
  by_cases htrained : notice.kind = .trained
  · rw [htrained]
    rfl
  · rw [hlast htrained]
    cases notice.kind <;> rfl

theorem kind_eq_of_text_eq {notice other : Notice} (h : notice.text = other.text) :
    notice.kind = other.kind := by
  rw [← ofText_text, h, ofText_text]

theorem skips_eq_of_kind_eq {notice other : Notice} (h : notice.kind = other.kind) :
    notice.skips = other.skips ∧ notice.outnumbers = other.outnumbers := by
  cases notice <;> cases other <;> first | exact ⟨rfl, rfl⟩ | cases h

/-- The text of a notice says which kind it is of, so whether a rule is left out and whether it
outnumbers its parent, and it names the rule. -/
theorem text_tells (notice : Notice) :
    (∀ other : Notice, notice.text = other.text → notice.kind = other.kind ∧
      notice.skips = other.skips ∧ notice.outnumbers = other.outnumbers) ∧
    ∀ rule, notice.rule? = some rule →
      ∃ rest, notice.text = notice.kind.opening ++ rule.text ++ rest := by
  constructor
  · intro other htext
    have hkind := kind_eq_of_text_eq htext
    exact ⟨hkind, skips_eq_of_kind_eq hkind⟩
  · intro rule hrule
    obtain ⟨rest, hsubject⟩ := subject_eq_of_rule? hrule
    refine ⟨rest ++ notice.kind.ending, ?_⟩
    rw [text_eq, hsubject]
    simp only [String.append_assoc]

end Notice

variable {g : Grammar}

/-! ## What there is to say -/

/-- The notices on a binary rule by its count and the count of its parent.  A rule that was never
seen is not looked at, and a rule of a parent that was never seen outnumbers it as well. -/
inductive BinaryNotices (g : Grammar) (rule : BinaryRule) : List Notice → Prop
  | unseen (hcount : g.binaryRules.count rule = 0) : BinaryNotices g rule []
  | unknown (hcount : 0 < g.binaryRules.count rule) (hknown : ¬(Rule.binary rule).IsKnown g) :
    BinaryNotices g rule [.unknownSymbol rule]
  | undefined (hcount : 0 < g.binaryRules.count rule) (hknown : (Rule.binary rule).IsKnown g)
    (htotal : g.symbols.count rule.parent = 0) :
    BinaryNotices g rule [.binaryOutnumbers rule, .binaryUndefined rule]
  | outnumbers (hknown : (Rule.binary rule).IsKnown g) (htotal : 0 < g.symbols.count rule.parent)
    (hmore : g.symbols.count rule.parent < g.binaryRules.count rule) :
    BinaryNotices g rule [.binaryOutnumbers rule]
  | usable (hcount : 0 < g.binaryRules.count rule) (hknown : (Rule.binary rule).IsKnown g)
    (hle : g.binaryRules.count rule ≤ g.symbols.count rule.parent) : BinaryNotices g rule []

/-- The notices on a unary rule by its count and the count of its parent.  An unknown parent is
noticed even if the rule was never seen. -/
inductive UnaryNotices (g : Grammar) (rule : UnaryRule) : List Notice → Prop
  | unknown (hknown : rule.parent ∉ g.symbols) : UnaryNotices g rule [.unknownParent rule]
  | undefined (hcount : 0 < g.unaryRules.count rule) (hknown : rule.parent ∈ g.symbols)
    (htotal : g.symbols.count rule.parent = 0) : UnaryNotices g rule [.unaryUndefined rule]
  | outnumbers (hknown : rule.parent ∈ g.symbols) (htotal : 0 < g.symbols.count rule.parent)
    (hmore : g.symbols.count rule.parent < g.unaryRules.count rule) :
    UnaryNotices g rule [.unaryOutnumbers rule]
  | usable (hknown : rule.parent ∈ g.symbols)
    (hle : g.unaryRules.count rule ≤ g.symbols.count rule.parent) : UnaryNotices g rule []

theorem binaryNotices_noticesOn (g : Grammar) (rule : BinaryRule) :
    g.BinaryNotices rule (g.noticesOn (.binary rule)) := by
  rw [noticesOn, binaryNotices]
  by_cases hcount : g.binaryRules.count rule = 0
  · rw [if_pos hcount]
    exact .unseen hcount
  · have hpos := Nat.pos_of_ne_zero hcount
    rw [if_neg hcount]
    by_cases hknown : (Rule.binary rule).IsKnown g
    · rw [if_pos (Rule.isKnown_binary_iff.mp hknown)]
      dsimp only
      by_cases hmore : g.symbols.count rule.parent < g.binaryRules.count rule
      · by_cases htotal : g.symbols.count rule.parent = 0
        · rw [if_pos hmore, if_pos htotal]
          exact .undefined hpos hknown htotal
        · rw [if_pos hmore, if_neg htotal]
          exact .outnumbers hknown (Nat.pos_of_ne_zero htotal) hmore
      · have hle := Nat.le_of_not_lt hmore
        rw [if_neg hmore, if_neg (by omega)]
        exact .usable hpos hknown hle
    · rw [if_neg (mt Rule.isKnown_binary_iff.mpr hknown)]
      exact .unknown hpos hknown

theorem unaryNotices_noticesOn (g : Grammar) (rule : UnaryRule) :
    g.UnaryNotices rule (g.noticesOn (.unary rule)) := by
  rw [noticesOn, unaryNotices]
  by_cases hknown : rule.parent ∈ g.symbols
  · rw [if_pos hknown]
    by_cases hle : g.unaryRules.count rule ≤ g.symbols.count rule.parent
    · rw [if_pos hle]
      exact .usable hknown hle
    · have hmore := Nat.lt_of_not_le hle
      by_cases htotal : g.symbols.count rule.parent = 0
      · rw [if_neg hle, if_pos htotal]
        exact .undefined (Nat.zero_lt_of_lt hmore) hknown htotal
      · rw [if_neg hle, if_neg htotal]
        exact .outnumbers hknown (Nat.pos_of_ne_zero htotal) hmore
  · rw [if_neg hknown]
    exact .unknown hknown

namespace BinaryNotices

variable {rule : BinaryRule} {notices : List Notice}

theorem rule?_eq (h : g.BinaryNotices rule notices) :
    ∀ notice ∈ notices, notice.rule? = some (.binary rule) := by
  cases h <;> simp [Notice.rule?]

theorem eq_nil_iff (h : g.BinaryNotices rule notices) :
    notices = [] ↔ g.binaryRules.count rule = 0 ∨
      (Rule.binary rule).IsKnown g ∧ g.binaryRules.count rule ≤ g.symbols.count rule.parent := by
  cases h with
  | unseen hcount => simp [hcount]
  | unknown hcount hknown => simp [hknown, Nat.ne_of_gt hcount]
  | undefined hcount hknown htotal => simp [htotal, Nat.ne_of_gt hcount]
  | outnumbers hknown htotal hmore =>
    simp [Nat.not_le_of_gt hmore, Nat.ne_of_gt (Nat.zero_lt_of_lt hmore)]
  | usable hcount hknown hle => simp [hknown, hle]

/-- A rule that was seen is either listed or left out with one warning. -/
theorem countP_skips (h : g.BinaryNotices rule notices) (hcount : 0 < g.binaryRules.count rule) :
    (Rule.binary rule).IsListed g ∧ notices.countP Notice.skips = 0 ∨
      ¬(Rule.binary rule).IsListed g ∧ notices.countP Notice.skips = 1 := by
  rw [isListed_iff]
  cases h with
  | unseen hzero => exact absurd hzero (Nat.ne_of_gt hcount)
  | unknown _ hknown => exact Or.inr ⟨fun hlisted ↦ hknown hlisted.2.1, rfl⟩
  | undefined _ _ htotal => exact Or.inr ⟨fun hlisted ↦ Nat.ne_of_gt hlisted.2.2 htotal, rfl⟩
  | outnumbers hknown htotal _ => exact Or.inl ⟨⟨hcount, hknown, htotal⟩, rfl⟩
  | usable _ hknown hle => exact Or.inl ⟨⟨hcount, hknown, hcount.trans_le hle⟩, rfl⟩

theorem countP_outnumbers (h : g.BinaryNotices rule notices)
    (hknown : (Rule.binary rule).IsKnown g)
    (hmore : g.symbols.count rule.parent < g.binaryRules.count rule) :
    notices.countP Notice.outnumbers = 1 := by
  cases h with
  | unseen hzero => exact absurd hzero (Nat.ne_of_gt (Nat.zero_lt_of_lt hmore))
  | unknown _ hunknown => exact absurd hknown hunknown
  | undefined _ _ _ => rfl
  | outnumbers _ _ _ => rfl
  | usable _ _ hle => exact absurd hmore (Nat.not_lt_of_le hle)

end BinaryNotices

namespace UnaryNotices

variable {rule : UnaryRule} {notices : List Notice}

theorem rule?_eq (h : g.UnaryNotices rule notices) :
    ∀ notice ∈ notices, notice.rule? = some (.unary rule) := by
  cases h <;> simp [Notice.rule?]

theorem eq_nil_iff (h : g.UnaryNotices rule notices) :
    notices = [] ↔ rule.parent ∈ g.symbols ∧
      g.unaryRules.count rule ≤ g.symbols.count rule.parent := by
  cases h with
  | unknown hknown => simp [hknown]
  | undefined hcount hknown htotal => simp [htotal, Nat.ne_of_gt hcount]
  | outnumbers hknown htotal hmore => simp [Nat.not_le_of_gt hmore]
  | usable hknown hle => simp [hknown, hle]

/-- A rule that was seen and is not listed has one warning. -/
theorem eq_singleton (h : g.UnaryNotices rule notices) (hcount : 0 < g.unaryRules.count rule)
    (hlisted : ¬(Rule.unary rule).IsListed g) :
    notices = [if rule.parent ∈ g.symbols then .unaryUndefined rule else .unknownParent rule] := by
  rw [isListed_iff, Rule.isKnown_unary_iff] at hlisted
  cases h with
  | unknown hknown => rw [if_neg hknown]
  | undefined _ hknown _ => rw [if_pos hknown]
  | outnumbers hknown htotal _ => exact absurd ⟨hcount, hknown, htotal⟩ hlisted
  | usable hknown hle => exact absurd ⟨hcount, hknown, hcount.trans_le hle⟩ hlisted

theorem countP_outnumbers (h : g.UnaryNotices rule notices) (hknown : rule.parent ∈ g.symbols)
    (htotal : 0 < g.symbols.count rule.parent)
    (hmore : g.symbols.count rule.parent < g.unaryRules.count rule) :
    notices.countP Notice.outnumbers = 1 := by
  cases h with
  | unknown hunknown => exact absurd hknown hunknown
  | undefined _ _ hzero => exact absurd hzero (Nat.ne_of_gt htotal)
  | outnumbers _ _ _ => rfl
  | usable _ hle => exact absurd hmore (Nat.not_lt_of_le hle)

end UnaryNotices

/-! ## The pass over the rules -/

theorem rule?_of_mem_noticesOn (rule : Rule) :
    ∀ notice ∈ g.noticesOn rule, notice.rule? = some rule := by
  cases rule with
  | binary rule => exact (g.binaryNotices_noticesOn rule).rule?_eq
  | unary rule => exact (g.unaryNotices_noticesOn rule).rule?_eq

/-- The rules are passed over in order, binary rules first. -/
theorem warnings_eq_flatMap (g : Grammar) : g.warnings = g.rules.flatMap g.noticesOn := by
  rw [warnings, rules, List.flatMap_append, Tally.entries_eq_map g.binaryRules,
    Tally.entries_eq_map g.unaryRules]
  simp only [List.flatMap_map]
  rfl

/-- Of all the warnings, those about a counted rule are the notices on it. -/
theorem warningsOn_eq {rule : Rule} (h : rule ∈ g.rules) :
    g.warningsOn rule = g.noticesOn rule := by
  rw [warningsOn, warnings_eq_flatMap,
    filter_flatMap_of_nodup g.nodup_rules rule?_of_mem_noticesOn rule, if_pos h]

theorem warnings_eq_flatMap_warningsOn (g : Grammar) :
    g.warnings = g.rules.flatMap g.warningsOn := by
  rw [warnings_eq_flatMap]
  exact List.flatMap_congr fun rule hrule ↦ (warningsOn_eq hrule).symm

theorem ruleProbability_eq_one {rule : Rule} (htotal : 0 < g.symbols.count rule.parent)
    (hmore : g.symbols.count rule.parent < g.ruleCount rule) : g.ruleProbability rule = 1 := by
  rw [ruleProbability_eq, Weight.relativeFrequency?_of_le htotal (Nat.le_of_lt hmore)]
  rfl

/-! ## Accounting for every rule -/

theorem binaryNotices_warningsOn {rule : BinaryRule} (h : rule ∈ g.binaryRules) :
    g.BinaryNotices rule (g.warningsOn (.binary rule)) := by
  rw [warningsOn_eq (binary_mem_rules_iff.mpr h)]
  exact g.binaryNotices_noticesOn rule

theorem unaryNotices_warningsOn {rule : UnaryRule} (h : rule ∈ g.unaryRules) :
    g.UnaryNotices rule (g.warningsOn (.unary rule)) := by
  rw [warningsOn_eq (unary_mem_rules_iff.mpr h)]
  exact g.unaryNotices_noticesOn rule

/-- A rule that was seen more often than its parent is listed as certain and has one warning that
says so. -/
theorem countP_outnumbers_warningsOn {rule : Rule} (hknown : rule.IsKnown g)
    (htotal : 0 < g.symbols.count rule.parent)
    (hmore : g.symbols.count rule.parent < g.ruleCount rule) :
    (g.warningsOn rule).countP Notice.outnumbers = 1 := by
  rw [warningsOn_eq (mem_rules_of_ruleCount_pos (Nat.zero_lt_of_lt hmore))]
  cases rule with
  | binary rule => exact (g.binaryNotices_noticesOn rule).countP_outnumbers hknown hmore
  | unary rule =>
    exact (g.unaryNotices_noticesOn rule).countP_outnumbers (Rule.isKnown_unary_iff.mp hknown)
      htotal hmore

/-- The warnings of a training go through the rules that the grammar holds then, in the order in
which they first came up.  What they say about each rule is decided by its counts: nothing if the
rule is used as it was counted, and otherwise why it is not listed or that its probability is cut
down to one. -/
theorem warnings_account_for_rules (g : Grammar) (records : List Record) :
    let h := g.train records
    h.warnings = h.rules.flatMap h.warningsOn ∧
    (∀ earlier, g = ofRecords earlier → h.Keeps (earlier ++ records)) ∧
    (∀ rule ∈ h.binaryRules, h.BinaryNotices rule (h.warningsOn (.binary rule)) ∧
      (h.warningsOn (.binary rule) = [] ↔ h.binaryRules.count rule = 0 ∨
        (Rule.binary rule).IsKnown h ∧
          h.binaryRules.count rule ≤ h.symbols.count rule.parent)) ∧
    (∀ rule ∈ h.unaryRules, h.UnaryNotices rule (h.warningsOn (.unary rule)) ∧
      (h.warningsOn (.unary rule) = [] ↔
        rule.parent ∈ h.symbols ∧ h.unaryRules.count rule ≤ h.symbols.count rule.parent)) ∧
    (∀ rule : BinaryRule, 0 < h.binaryRules.count rule →
      (Rule.binary rule).IsListed h ∧
          (h.warningsOn (.binary rule)).countP Notice.skips = 0 ∨
        ¬(Rule.binary rule).IsListed h ∧
          (h.warningsOn (.binary rule)).countP Notice.skips = 1) ∧
    (∀ rule : Rule, rule.IsKnown h → 0 < h.symbols.count rule.parent →
      h.symbols.count rule.parent < h.ruleCount rule →
        rule.IsListed h ∧ h.ruleProbability rule = 1 ∧
          (h.warningsOn rule).countP Notice.outnumbers = 1) ∧
    (∀ rule : UnaryRule, 0 < h.unaryRules.count rule → ¬(Rule.unary rule).IsListed h →
      h.warningsOn (.unary rule) =
        [if rule.parent ∈ h.symbols then .unaryUndefined rule else .unknownParent rule]) ∧
    (h.train records).warnings = h.warnings := by
  intro h
  refine ⟨h.warnings_eq_flatMap_warningsOn, ?_, ?_, ?_, ?_, ?_, ?_, ?_⟩
  · intro earlier hg
    have hh : h = ofRecords (earlier ++ records) := by
      rw [ofRecords, ← train_append]
      exact congrArg (train · records) hg
    rw [hh]
    exact keeps_ofRecords _
  · intro rule hrule
    have hnotices := h.binaryNotices_warningsOn hrule
    exact ⟨hnotices, hnotices.eq_nil_iff⟩
  · intro rule hrule
    have hnotices := h.unaryNotices_warningsOn hrule
    exact ⟨hnotices, hnotices.eq_nil_iff⟩
  · intro rule hcount
    have hrule := Tally.mem_of_count_ne_zero (Nat.ne_of_gt hcount)
    exact (h.binaryNotices_warningsOn hrule).countP_skips hcount
  · intro rule hknown htotal hmore
    exact ⟨isListed_iff.mpr ⟨Nat.zero_lt_of_lt hmore, hknown, htotal⟩,
      ruleProbability_eq_one htotal hmore, countP_outnumbers_warningsOn hknown htotal hmore⟩
  · intro rule hcount hlisted
    have hrule := Tally.mem_of_count_ne_zero (Nat.ne_of_gt hcount)
    exact (h.unaryNotices_warningsOn hrule).eq_singleton hcount hlisted
  · rw [train_train_self]

/-- Rules of a symbol that is not known and of one that is missing altogether. -/
def faultyRules : List Record :=
  [.nonterminal "S" 2, .binary ⟨"S", "X", "S"⟩ 1, .binary ⟨"S", "X", "X"⟩ 0,
    .binary ⟨"Z", "S", "S"⟩ 1, .unary ⟨"X", "a"⟩ 0, .unary ⟨"Z", "a"⟩ 1, .unary ⟨"S", "a"⟩ 2]

/-- The missing symbol, with no occurrences, and rules that outnumber their parent. -/
def outnumberingRules : List Record :=
  [.nonterminal "Z" 0, .binary ⟨"S", "S", "S"⟩ 3, .unary ⟨"S", "b"⟩ 5]

/-- The second training says again what is still wrong with the rules of the first one. -/
theorem warnings_account_for_outnumberingRules :
    let h := (ofRecords faultyRules).train outnumberingRules
    let ofMissing : BinaryRule := ⟨"Z", "S", "S"⟩
    let unlisted : UnaryRule := ⟨"Z", "a"⟩
    let clamped : Rule := .binary ⟨"S", "S", "S"⟩
    h.warnings = [.unknownSymbol ⟨"S", "X", "S"⟩, .binaryOutnumbers ofMissing,
      .binaryUndefined ofMissing, .binaryOutnumbers ⟨"S", "S", "S"⟩, .unknownParent ⟨"X", "a"⟩,
      .unaryUndefined unlisted, .unaryOutnumbers ⟨"S", "b"⟩] ∧
    h.warnings = h.rules.flatMap h.warningsOn ∧ h.Keeps (faultyRules ++ outnumberingRules) ∧
    (0 < h.binaryRules.count ofMissing ∧ ¬(Rule.binary ofMissing).IsListed h ∧
      (h.warningsOn (.binary ofMissing)).countP Notice.skips = 1) ∧
    ((clamped.IsKnown h ∧ 0 < h.symbols.count clamped.parent ∧
      h.symbols.count clamped.parent < h.ruleCount clamped) ∧
      clamped.IsListed h ∧ h.ruleProbability clamped = 1 ∧
        (h.warningsOn clamped).countP Notice.outnumbers = 1) ∧
    (0 < h.unaryRules.count unlisted ∧
      h.warningsOn (.unary unlisted) = [.unaryUndefined unlisted]) ∧
    (unlisted ∈ h.unaryRules ∧ h.UnaryNotices unlisted (h.warningsOn (.unary unlisted))) ∧
    (h.train outnumberingRules).warnings = h.warnings := by
  intro h ofMissing unlisted clamped
  obtain ⟨hpass, horder, -, hunary, hskip, houtnumbers, hunlisted, hagain⟩ :=
    warnings_account_for_rules (ofRecords faultyRules) outnumberingRules
  have hmissing : h.symbols.count "Z" = 0 := by decide +kernel
  have hnotListed (rule : Rule) (hparent : rule.parent = "Z") : ¬rule.IsListed h := by
    rw [isListed_iff, hparent]
    exact fun hlisted ↦ Nat.ne_of_gt hlisted.2.2 hmissing
  have hbinaryCount : 0 < h.binaryRules.count ofMissing := by decide +kernel
  have hbinaryNotListed := hnotListed (.binary ofMissing) rfl
  have hunaryCount : 0 < h.unaryRules.count unlisted := by decide +kernel
  have hunaryMem : unlisted ∈ h.unaryRules := by decide +kernel
  have hunaryKnown : unlisted.parent ∈ h.symbols := by decide +kernel
  have hknown : clamped.IsKnown h := by decide +kernel
  have htotal : 0 < h.symbols.count clamped.parent := by decide +kernel
  have hmore : h.symbols.count clamped.parent < h.ruleCount clamped := by decide +kernel
  refine ⟨by decide +kernel, hpass, horder faultyRules rfl, ⟨hbinaryCount, hbinaryNotListed, ?_⟩,
    ⟨⟨hknown, htotal, hmore⟩, houtnumbers clamped hknown htotal hmore⟩, ⟨hunaryCount, ?_⟩,
    ⟨hunaryMem, (hunary unlisted hunaryMem).1⟩, hagain⟩
  · have hskipped := hskip ofMissing hbinaryCount
    exact (hskipped.resolve_left fun hlisted ↦ hbinaryNotListed hlisted.1).2
  · rw [hunlisted unlisted hunaryCount (hnotListed (.unary unlisted) rfl), if_pos hunaryKnown]

end Grammar

end StochasticGrammar
