import Mathlib.Data.List.AList
import StochasticGrammar.Proofs.Grammar.Agreement

/-!
# Grammars by the history of their records

Training takes in the records one after another, and what is left depends on their concatenation
alone.  Symbols and rules stand in the order of their first records, with the counts of their last
ones.  How the records were divided among trainings does not matter, and taking in the same records
again changes nothing, the order of symbols and rules included.

A program keeps the lists by number beside the counts.  They are out of date while records come in,
and a pass over the counts replaces them at the end of each training.  What the pass builds and what
it says on the way are the lists and the warnings that are read off the counts.
-/

namespace StochasticGrammar

/-! ## Counts -/

namespace Record

/-- The symbol that a record counts, with its count. -/
def symbolCount? : Record → Option (String × Nat)
  | nonterminal symbol count => some (symbol, count)
  | _ => none

/-- The binary rule that a record counts, with its count. -/
def binaryCount? : Record → Option (BinaryRule × Nat)
  | binary rule count => some (rule, count)
  | _ => none

/-- The unary rule that a record counts, with its count. -/
def unaryCount? : Record → Option (UnaryRule × Nat)
  | unary rule count => some (rule, count)
  | _ => none

theorem mem_symbolCounts_iff {records : List Record} {symbol : String} :
    symbol ∈ (records.filterMap symbolCount?).map Prod.fst ↔
      ∃ count, .nonterminal symbol count ∈ records := by
  rw [List.mem_map]
  constructor
  · rintro ⟨⟨other, count⟩, hentry, rfl⟩
    obtain ⟨record, hrecord, hcount⟩ := List.mem_filterMap.mp hentry
    cases record with
    | nonterminal name seen =>
      cases hcount
      exact ⟨count, hrecord⟩
    | binary _ _ => cases hcount
    | unary _ _ => cases hcount
  · rintro ⟨count, hrecord⟩
    exact ⟨(symbol, count), List.mem_filterMap.mpr ⟨_, hrecord, rfl⟩, rfl⟩

end Record

namespace Grammar

/-- Each tally takes in its own records, in order, and leaves the others to the other tallies. -/
theorem train_eq (g : Grammar) (records : List Record) :
    g.train records =
      { symbols := g.symbols.insertAll (records.filterMap Record.symbolCount?)
        binaryRules := g.binaryRules.insertAll (records.filterMap Record.binaryCount?)
        unaryRules := g.unaryRules.insertAll (records.filterMap Record.unaryCount?) } := by
  induction records generalizing g with
  | nil => rfl
  | cons record records ih =>
    have hcons : g.train (record :: records) = (g.add record).train records := rfl
    rw [hcons, ih]
    cases record <;> rfl

theorem train_append (g : Grammar) (first second : List Record) :
    (g.train first).train second = g.train (first ++ second) :=
  List.foldl_append.symm

theorem train_train_self (g : Grammar) (records : List Record) :
    (g.train records).train records = g.train records := by
  rw [train_eq (g.train records), train_eq g]
  simp only [Tally.insertAll_insertAll_self]

/-- Any number of trainings are one training on all the records. -/
theorem foldl_train_eq_ofRecords (history : List (List Record)) :
    history.foldl train ∅ = ofRecords history.flatten :=
  List.foldl_flatten.symm

/-- The grammar holds the symbols and rules of the records, and nothing else. -/
structure Keeps (g : Grammar) (records : List Record) : Prop where
  symbols : g.symbols.Keeps (records.filterMap Record.symbolCount?)
  binaryRules : g.binaryRules.Keeps (records.filterMap Record.binaryCount?)
  unaryRules : g.unaryRules.Keeps (records.filterMap Record.unaryCount?)

theorem keeps_ofRecords (records : List Record) : (ofRecords records).Keeps records := by
  rw [ofRecords, train_eq]
  exact
    { symbols := Tally.keeps_insertAll_empty _
      binaryRules := Tally.keeps_insertAll_empty _
      unaryRules := Tally.keeps_insertAll_empty _ }

/-! ## One pass over the counts -/

/-- The usable rules of each symbol and the parents of each word, as they are kept beside the
counts. -/
structure Lists where
  rules : List (List IndexedRule) := []
  lexicon : AList fun _ : String ↦ List LexicalEntry := ∅

/-- The lists as far as they are built, and what was said on the way. -/
structure Pass extends Lists where
  notices : List Notice := []

def Pass.say (pass : Pass) (notice : Notice) : Pass :=
  { pass with notices := pass.notices ++ [notice] }

/-- Adds a rule to the rules of its parent. -/
def addRule (rules : List (List IndexedRule)) (rule : IndexedRule) : List (List IndexedRule) :=
  rules.modify rule.parent (· ++ [rule])

/-- Adds a parent to the parents of a word. -/
def addEntry (lexicon : AList fun _ : String ↦ List LexicalEntry) (entry : String × LexicalEntry) :
    AList fun _ : String ↦ List LexicalEntry :=
  lexicon.insert entry.1 ((lexicon.lookup entry.1).getD [] ++ [entry.2])

/-- Lists a counted binary rule, or says why it is not listed. -/
def visitBinary (g : Grammar) (pass : Pass) : BinaryRule × Nat → Pass
  | (rule, count) =>
    if count = 0 then pass
    else
      match g.symbols.position? rule.parent, g.symbols.position? rule.left,
        g.symbols.position? rule.right with
      | some parent, some left, some right =>
        let heard :=
          if g.symbols.count rule.parent < count then pass.say (.binaryOutnumbers rule) else pass
        match g.binaryShare rule with
        | .ok probability =>
          { heard with rules := addRule heard.rules { parent, left, right, probability } }
        | .error _ => heard.say (.binaryUndefined rule)
      | _, _, _ => pass.say (.unknownSymbol rule)

/-- Lists the parent of a counted unary rule if it is known, and says what is wrong with it. -/
def visitUnary (g : Grammar) (pass : Pass) : UnaryRule × Nat → Pass
  | (rule, count) =>
    match g.symbols.position? rule.parent with
    | none => pass.say (.unknownParent rule)
    | some symbol =>
      let heard :=
        match g.unaryShare rule with
        | .error _ => pass.say (.unaryUndefined rule)
        | .ok _ =>
          if g.symbols.count rule.parent < count then pass.say (.unaryOutnumbers rule) else pass
      { heard with lexicon := addEntry heard.lexicon (rule.word, { symbol, count }) }

/-- Builds the lists anew, binary rules first. -/
def pass (g : Grammar) : Pass :=
  g.unaryRules.entries.foldl g.visitUnary
    (g.binaryRules.entries.foldl g.visitBinary { rules := List.replicate g.symbols.size [] })

/-- The word and the parent that a counted unary rule adds to the lexicon. -/
def wordParent? (g : Grammar) (rule : UnaryRule) (count : Nat) : Option (String × LexicalEntry) :=
  (g.symbols.position? rule.parent).map fun symbol ↦ (rule.word, { symbol, count })

variable {g : Grammar}

/-! ### One rule -/

/-- A visit lists a binary rule if it is usable and says what there is to say about it. -/
theorem visitBinary_eq {rule : BinaryRule} {count : Nat}
    (h : (rule, count) ∈ g.binaryRules.entries) (pass : Pass) :
    g.visitBinary pass (rule, count) =
      { rules := (g.indexedRule? rule count).toList.foldl addRule pass.rules
        lexicon := pass.lexicon
        notices := pass.notices ++ g.binaryNotices rule count } := by
  have hcount : g.binaryRules.count rule = count := Tally.count_eq_of_mem_entries h
  rw [visitBinary, indexedRule?, binaryNotices, binaryShare, hcount, share]
  by_cases hzero : count = 0
  · simp [hzero]
  cases hparent : g.symbols.position? rule.parent with
  | none =>
    have hunknown : rule.parent ∉ g.symbols := Tally.position?_eq_none_iff.mp hparent
    simp [hzero, hunknown, Pass.say]
  | some parent =>
    have hparentKnown : rule.parent ∈ g.symbols := Tally.mem_of_position? hparent
    cases hleft : g.symbols.position? rule.left with
    | none =>
      have hunknown : rule.left ∉ g.symbols := Tally.position?_eq_none_iff.mp hleft
      simp [hzero, hunknown, Pass.say]
    | some left =>
      have hleftKnown : rule.left ∈ g.symbols := Tally.mem_of_position? hleft
      cases hright : g.symbols.position? rule.right with
      | none =>
        have hunknown : rule.right ∉ g.symbols := Tally.position?_eq_none_iff.mp hright
        simp [hzero, hunknown, Pass.say]
      | some right =>
        have hrightKnown : rule.right ∈ g.symbols := Tally.mem_of_position? hright
        by_cases htotal : g.symbols.count rule.parent = 0
        · have hmore : 0 < count := Nat.pos_of_ne_zero hzero
          simp [hzero, htotal, hparentKnown, hleftKnown, hrightKnown, hmore,
            Weight.relativeFrequency?, Pass.say]
        · by_cases hmore : g.symbols.count rule.parent < count <;>
            simp [hzero, htotal, hparentKnown, hleftKnown, hrightKnown, hmore,
              Weight.relativeFrequency?, Pass.say]

/-- A visit lists the parent of a unary rule if it is known and says what there is to say about
the rule. -/
theorem visitUnary_eq {rule : UnaryRule} {count : Nat}
    (h : (rule, count) ∈ g.unaryRules.entries) (pass : Pass) :
    g.visitUnary pass (rule, count) =
      { rules := pass.rules
        lexicon := (g.wordParent? rule count).toList.foldl addEntry pass.lexicon
        notices := pass.notices ++ g.unaryNotices rule count } := by
  have hcount : g.unaryRules.count rule = count := Tally.count_eq_of_mem_entries h
  rw [visitUnary, wordParent?, unaryNotices, unaryShare, hcount, share]
  cases hparent : g.symbols.position? rule.parent with
  | none =>
    have hunknown : rule.parent ∉ g.symbols := Tally.position?_eq_none_iff.mp hparent
    simp [hunknown, Pass.say]
  | some symbol =>
    have hknown : rule.parent ∈ g.symbols := Tally.mem_of_position? hparent
    by_cases hle : count ≤ g.symbols.count rule.parent
    · have hshare : count = 0 ∨ g.symbols.count rule.parent ≠ 0 := by omega
      have hnotMore : ¬g.symbols.count rule.parent < count := by omega
      rcases hshare with hzero | htotal
      · simp [hknown, hzero, Weight.relativeFrequency?]
      · by_cases hzero : count = 0 <;>
          simp [hknown, hzero, htotal, hle, hnotMore, Weight.relativeFrequency?]
    · have hzero : count ≠ 0 := by omega
      have hmore : g.symbols.count rule.parent < count := by omega
      by_cases htotal : g.symbols.count rule.parent = 0 <;>
        simp [hknown, hzero, htotal, hle, hmore, Weight.relativeFrequency?, Pass.say]

/-! ### All rules -/

theorem foldl_visitBinary {entries : List (BinaryRule × Nat)}
    (h : entries ⊆ g.binaryRules.entries) (pass : Pass) :
    entries.foldl g.visitBinary pass =
      { rules := (entries.filterMap fun (rule, count) ↦ g.indexedRule? rule count).foldl addRule
          pass.rules
        lexicon := pass.lexicon
        notices := pass.notices ++
          entries.flatMap fun (rule, count) ↦ g.binaryNotices rule count } := by
  induction entries generalizing pass with
  | nil => simp
  | cons entry rest ih =>
    obtain ⟨rule, count⟩ := entry
    rw [List.cons_subset] at h
    rw [List.foldl_cons, visitBinary_eq h.1, ih h.2, List.append_assoc]
    cases hlisted : g.indexedRule? rule count <;> simp [hlisted]

theorem foldl_visitUnary {entries : List (UnaryRule × Nat)}
    (h : entries ⊆ g.unaryRules.entries) (pass : Pass) :
    entries.foldl g.visitUnary pass =
      { rules := pass.rules
        lexicon := (entries.filterMap fun (rule, count) ↦ g.wordParent? rule count).foldl addEntry
          pass.lexicon
        notices := pass.notices ++
          entries.flatMap fun (rule, count) ↦ g.unaryNotices rule count } := by
  induction entries generalizing pass with
  | nil => simp
  | cons entry rest ih =>
    obtain ⟨rule, count⟩ := entry
    rw [List.cons_subset] at h
    rw [List.foldl_cons, visitUnary_eq h.1, ih h.2, List.append_assoc]
    cases hlisted : g.wordParent? rule count <;> simp [hlisted]

/-- Rules that are added one by one are appended to the rules of their parents. -/
theorem getElem?_foldl_addRule (added : List IndexedRule) (rules : List (List IndexedRule))
    (number : Nat) :
    (added.foldl addRule rules)[number]? =
      rules[number]?.map (· ++ added.filter (·.parent = number)) := by
  induction added generalizing rules with
  | nil => simp
  | cons rule rest ih =>
    rw [List.foldl_cons, ih, addRule, List.getElem?_modify]
    by_cases hparent : rule.parent = number
    · cases rules[number]? <;> simp [hparent]
    · cases rules[number]? <;> simp [hparent]

/-- Parents that are added one by one are appended to the parents of their words. -/
theorem lookup_foldl_addEntry (added : List (String × LexicalEntry))
    (lexicon : AList fun _ : String ↦ List LexicalEntry) (word : String) :
    (added.foldl addEntry lexicon).lookup word =
      if added.filter (·.1 = word) = [] then lexicon.lookup word
      else some ((lexicon.lookup word).getD [] ++ (added.filter (·.1 = word)).map Prod.snd) := by
  induction added generalizing lexicon with
  | nil => simp
  | cons entry rest ih =>
    rw [List.foldl_cons, ih, addEntry]
    by_cases hword : entry.1 = word
    · subst hword
      by_cases hrest : rest.filter (·.1 = entry.1) = [] <;> simp [hrest]
    · rw [AList.lookup_insert_ne (Ne.symm hword), List.filter_cons_of_neg (by simpa using hword)]

/-- The lists that the pass builds are those read off the counts. -/
theorem rules_pass (g : Grammar) : g.pass.rules = g.ruleIndex := by
  rw [pass, foldl_visitUnary (List.Subset.refl _), foldl_visitBinary (List.Subset.refl _)]
  apply List.ext_getElem?
  intro number
  rw [getElem?_foldl_addRule, List.getElem?_replicate]
  split_ifs with hnumber
  · rw [getElem?_ruleIndex_of_lt hnumber]
    rfl
  · rw [getElem?_ruleIndex_of_le (Nat.le_of_not_lt hnumber)]
    rfl

theorem lookup_pass (g : Grammar) (word : String) :
    g.pass.lexicon.lookup word = if g.lexicon word = [] then none else some (g.lexicon word) := by
  have hlisted : g.lexicon word =
      ((g.unaryRules.entries.filterMap fun (rule, count) ↦ g.wordParent? rule count).filter
        (·.1 = word)).map Prod.snd := by
    rw [lexicon, List.filter_filterMap, List.map_filterMap]
    apply List.filterMap_congr
    rintro ⟨rule, count⟩ -
    by_cases hword : rule.word = word <;>
      cases hparent : g.symbols.position? rule.parent <;> simp [wordParent?, hword, hparent]
  rw [pass, foldl_visitUnary (List.Subset.refl _), foldl_visitBinary (List.Subset.refl _),
    lookup_foldl_addEntry, AList.lookup_empty, Option.getD_none, List.nil_append, ← hlisted]
  simp only [hlisted, List.map_eq_nil_iff]

/-- What the pass says is what there is to say about the counts. -/
theorem notices_pass (g : Grammar) : g.pass.notices = g.warnings := by
  rw [pass, foldl_visitUnary (List.Subset.refl _), foldl_visitBinary (List.Subset.refl _)]
  rfl

/-! ## Lists kept from training to training -/

/-- A grammar with the lists that its last training left. -/
structure Stored extends Lists where
  counts : Grammar := ∅

namespace Stored

/-- Takes in one record.  The lists stay as they are, whether or not they agree with the counts. -/
def add (stored : Stored) (record : Record) : Stored :=
  { stored with counts := stored.counts.add record }

/-- Takes in records and then replaces the lists. -/
def train (stored : Stored) (records : List Record) : Stored :=
  let counted := records.foldl add stored
  { counted with toLists := counted.counts.pass.toLists }

/-- The lists agree with the counts. -/
structure IsCurrent (stored : Stored) : Prop where
  rules_eq : stored.rules = stored.counts.ruleIndex
  lookup_lexicon : ∀ word, stored.lexicon.lookup word =
    if stored.counts.lexicon word = [] then none else some (stored.counts.lexicon word)

theorem counts_foldl_add (records : List Record) (stored : Stored) :
    (records.foldl add stored).counts = stored.counts.train records := by
  induction records generalizing stored with
  | nil => rfl
  | cons record rest ih => exact ih (stored.add record)

/-- Nothing is left of the lists from before. -/
theorem train_eq (stored : Stored) (records : List Record) :
    stored.train records =
      { toLists := (stored.counts.train records).pass.toLists
        counts := stored.counts.train records } := by
  rw [train, counts_foldl_add]

theorem isCurrent_train (stored : Stored) (records : List Record) :
    (stored.train records).IsCurrent := by
  rw [train_eq]
  exact { rules_eq := rules_pass _, lookup_lexicon := lookup_pass _ }

theorem train_append (stored : Stored) (first second : List Record) :
    (stored.train first).train second = stored.train (first ++ second) := by
  simp only [train_eq, Grammar.train_append]

theorem train_train_self (stored : Stored) (records : List Record) :
    (stored.train records).train records = stored.train records := by
  simp only [train_eq, Grammar.train_train_self]

theorem foldl_train_train (history : List (List Record)) (stored : Stored)
    (records : List Record) :
    history.foldl train (stored.train records) = stored.train (records ++ history.flatten) := by
  induction history generalizing records with
  | nil => rw [List.foldl_nil, List.flatten_nil, List.append_nil]
  | cons later history ih =>
    rw [List.foldl_cons, train_append, ih, List.flatten_cons, List.append_assoc]

/-- Any number of trainings are one training on all the records, lists included. -/
theorem foldl_train_eq (history : List (List Record)) :
    history.foldl train {} = train {} history.flatten := by
  have hempty : train {} [] = {} := rfl
  have htrain := foldl_train_train history {} []
  rwa [hempty, List.nil_append] at htrain

end Stored

/-- What any number of trainings leave behind, lists included, is fixed by the records in order: it
is what one training on all of them leaves.  The lists are those of the counts, with nothing left of
the lists from before.  Training twice on the same records is training once. -/
theorem keeps_records_of_trainings (history : List (List Record)) :
    let stored := history.foldl Stored.train {}
    let records := history.flatten
    (stored.counts = history.foldl train ∅ ∧ stored.counts.Keeps records) ∧
    (stored = Stored.train {} records ∧ stored.IsCurrent) ∧
    (∀ first second, (stored.train first).train second = stored.train (first ++ second)) ∧
    ∀ again, (stored.train again).train again = stored.train again := by
  intro stored records
  have hstored : stored = Stored.train {} records := Stored.foldl_train_eq history
  have hcounts : stored.counts = ofRecords records := by
    rw [hstored, Stored.train_eq]
    rfl
  refine ⟨⟨?_, ?_⟩, ⟨hstored, ?_⟩, stored.train_append, stored.train_train_self⟩
  · rw [hcounts, foldl_train_eq_ofRecords]
  · rw [hcounts]
    exact keeps_ofRecords records
  · rw [hstored]
    exact Stored.isCurrent_train {} records

end Grammar

end StochasticGrammar
