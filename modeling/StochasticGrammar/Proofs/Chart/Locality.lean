import Mathlib.Data.List.Flatten
import StochasticGrammar.Proofs.Chart.Optimality
import StochasticGrammar.Proofs.Chart.Square
import StochasticGrammar.Proofs.Chart.Recovery
import StochasticGrammar.Proofs.Weight.Heaviest

/-!
# Charts are local

What a chart holds for a span depends on the words of the span alone.  In the chart of a longer
sentence that contains a shorter one, the spans of the shorter one have the same entries, with their
splits counted from the start of the longer one, and the same trees.
-/

namespace StochasticGrammar

/-- The same split, where `offset` words come first. -/
def Origin.shift (offset : Nat) : Origin → Origin
  | word => word
  | split point left right => split (offset + point) left right

/-- The same entry, where `offset` words come first. -/
def Entry.shift (offset : Nat) (entry : Entry) : Entry where
  score := entry.score
  origin := entry.origin.shift offset

/-- The same fault, where `offset` words come first. -/
def ParseFault.shift (offset : Nat) : ParseFault → ParseFault
  | emptySentence => emptySentence
  | noParse => noParse
  | missingDerivation label first last => missingDerivation label (offset + first) (offset + last)

namespace Chart

/-! ## Charts that agree on a span -/

/-- One chart holds for the span from `i` to `j` what another one holds `offset` words later. -/
def AgreesAt (chart whole : Chart) (offset i j : Nat) : Prop :=
  ∀ symbol, whole.entry? (offset + i) (offset + j) symbol =
    (chart.entry? i j symbol).map (Entry.shift offset)

variable {chart whole : Chart} {offset i j : Nat}

theorem AgreesAt.score_eq (h : chart.AgreesAt whole offset i j) (symbol : Nat) :
    whole.score (offset + i) (offset + j) symbol = chart.score i j symbol := by
  rw [score, score, h symbol]
  cases chart.entry? i j symbol <;> rfl

/-- The same split of the same rule is the same candidate. -/
theorem candidate_shift {rule : IndexedRule} {point : Nat}
    (hleft : chart.AgreesAt whole offset i point)
    (hright : chart.AgreesAt whole offset (point + 1) j) :
    whole.candidate (offset + i) (offset + j) rule (offset + point) =
      (chart.candidate i j rule point).shift offset := by
  rw [candidate, candidate, hleft.score_eq, Nat.add_assoc offset point 1, hright.score_eq]
  rfl

/-- Charts that agree on the parts have the same candidates for the span. -/
theorem candidates_shift (rules : List IndexedRule)
    (h : ∀ point, i ≤ point → point < j →
      chart.AgreesAt whole offset i point ∧ chart.AgreesAt whole offset (point + 1) j) :
    whole.candidates (offset + i) (offset + j) rules =
      (chart.candidates i j rules).map (Entry.shift offset) := by
  have hsplits : List.range' (offset + i) (offset + j - (offset + i)) =
      (List.range' i (j - i)).map (offset + ·) := by
    rw [List.map_add_range', Nat.add_sub_add_left]
  rw [candidates, candidates, List.map_flatMap]
  apply List.flatMap_congr
  intro rule _
  rw [hsplits, List.map_map, List.map_map]
  apply List.map_congr_left
  intro point hpoint
  rw [List.mem_range'_1] at hpoint
  have hparts := h point hpoint.1 (by omega)
  exact candidate_shift hparts.1 hparts.2

theorem AgreesAt.split?_eq (h : chart.AgreesAt whole offset i j) (symbol : Nat) :
    whole.split? (offset + i) (offset + j) symbol =
      (chart.split? i j symbol).map fun (point, parts) ↦ (offset + point, parts) := by
  unfold split?
  rw [h symbol]
  cases chart.entry? i j symbol with
  | none => rfl
  | some entry =>
    obtain ⟨score, origin⟩ := entry
    cases origin with
    | word => rfl
    | split point left right =>
      have hinside : offset + i ≤ offset + point ∧ offset + point < offset + j ↔
          i ≤ point ∧ point < j := by omega
      simp only [Option.map_some, Entry.shift, Origin.shift, if_congr hinside rfl rfl]
      split <;> rfl

/-! ## A sentence inside another -/

variable {g : Grammar} {policy : RareWords}

theorem getElem?_inner (before words after : List String) {i : Nat} (hi : i < words.length) :
    (before ++ words ++ after)[before.length + i]? = words[i]? := by
  rw [List.append_assoc, List.getElem?_append_right (Nat.le_add_right _ _),
    Nat.add_sub_cancel_left, List.getElem?_append_left hi]

theorem agreesAt_fill (g : Grammar) (policy : RareWords) (before words after : List String)
    {i j : Nat} (hij : i ≤ j) (hj : j < words.length) :
    (fill g policy words).AgreesAt (fill g policy (before ++ words ++ after))
      before.length i j := by
  -- By induction on the width of the span: the entries of the parts make the candidates.
  induction hwidth : j - i using Nat.strong_induction_on generalizing i j with
  | _ width ih =>
    intro symbol
    rcases Nat.lt_or_eq_of_le hij with hlt | rfl
    · have hend : before.length + j < (before ++ words ++ after).length := by
        rw [List.length_append, List.length_append]
        omega
      have hparts : ∀ point, i ≤ point → point < j →
          (fill g policy words).AgreesAt (fill g policy (before ++ words ++ after)) before.length
            i point ∧
          (fill g policy words).AgreesAt (fill g policy (before ++ words ++ after)) before.length
            (point + 1) j := by
        intro point hi hpoint
        exact ⟨ih (point - i) (by omega) hi (hpoint.trans hj) rfl,
          ih (j - (point + 1)) (by omega) hpoint hj rfl⟩
      rw [entry?_fill_of_lt (Nat.add_lt_add_left hlt _) hend, entry?_fill_of_lt hlt hj,
        candidates_shift _ hparts, heaviest?_map]
      rfl
    · have hword : words[i]? = some words[i] := List.getElem?_eq_getElem hj
      have hinner := getElem?_inner before words after hj
      rw [entry?_fill_self (hinner.trans hword), entry?_fill_self hword, Option.map_map]
      rfl

/-! ## Trees -/

theorem join_mapError (shift : ParseFault → ParseFault) (label : String)
    (left right : Except ParseFault Tree) :
    join label (left.mapError shift) (right.mapError shift) =
      (join label left right).mapError shift := by
  cases left with
  | error fault => rfl
  | ok leftTree => cases right <;> rfl

/-- Charts that agree on the spans of some words lead to the same trees over them. -/
theorem recover_shift {words others : List String}
    (hwords : ∀ i < words.length, others[offset + i]? = words[i]?)
    (hagree : ∀ i j, i ≤ j → j < words.length → chart.AgreesAt whole offset i j)
    (hij : i ≤ j) (hj : j < words.length) (symbol : Nat) :
    whole.recover g others (offset + i) (offset + j) symbol =
      (chart.recover g words i j symbol).mapError (ParseFault.shift offset) := by
  induction i, j, symbol using split_induction chart with
  | word i symbol =>
    rw [recover_word, recover_word, hwords i hj, List.getElem?_eq_getElem hj]
    rfl
  | noSplit i j symbol hne hsplit =>
    have hshift := (hagree i j hij hj).split?_eq symbol
    rw [hsplit, Option.map_none] at hshift
    rw [recover_of_no_split g words hne hsplit, recover_of_no_split g others (by omega) hshift]
    rfl
  | split i j symbol point left right hi hpoint hsplit ihl ihr =>
    have hshift := (hagree i j hij hj).split?_eq symbol
    rw [hsplit, Option.map_some] at hshift
    have hleft := ihl hi (hpoint.trans hj)
    have hright := ihr hpoint hj
    rw [recover_of_split? g words hsplit, recover_of_split? g others hshift, hleft,
      Nat.add_assoc, hright, join_mapError]

/-- Where the counts of words are checked, a sentence that can be looked up has inner sentences that
can be looked up, with the same entries. -/
theorem exists_inner_square {before words after : List String} {square : Square}
    (h : Square.fill? g (policy.resolve? g) (before ++ words ++ after) = some square)
    (hij : i ≤ j) (hj : j < words.length) (symbol : Nat) :
    ∃ inner, Square.fill? g (policy.resolve? g) words = some inner ∧
      square.entry? (before.length + i) (before.length + j) symbol =
        (inner.entry? i j symbol).map (Entry.shift before.length) := by
  obtain ⟨hwords, hwhole⟩ := Square.entry?_of_fill?_resolve? h
  have hinside : ∀ word ∈ words, g.AddsUp word := by
    intro word hword
    apply hwords
    exact List.mem_append_left _ (List.mem_append_right _ hword)
  obtain ⟨inner, hinner⟩ := Square.exists_fill?_resolve? policy hinside
  refine ⟨inner, hinner, ?_⟩
  rw [hwhole, (Square.entry?_of_fill?_resolve? hinner).2]
  exact agreesAt_fill g policy before words after hij hj symbol

/-- A sentence inside another has the same entries and the same trees there as it has alone, and if
the longer one can be looked up with checks then so can the shorter one. -/
theorem entry?_fill_inner (g : Grammar) (policy : RareWords) (before words after : List String)
    {i j : Nat} (hij : i ≤ j) (hj : j < words.length) (symbol : Nat) :
    let offset := before.length
    let sentence := before ++ words ++ after
    let chart := fill g policy words
    let whole := fill g policy sentence
    whole.entry? (offset + i) (offset + j) symbol =
      (chart.entry? i j symbol).map (Entry.shift offset) ∧
    whole.recover g sentence (offset + i) (offset + j) symbol =
      (chart.recover g words i j symbol).mapError (ParseFault.shift offset) ∧
    ∀ square, Square.fill? g (policy.resolve? g) sentence = some square →
      ∃ inner, Square.fill? g (policy.resolve? g) words = some inner ∧
        square.entry? (offset + i) (offset + j) symbol =
          (inner.entry? i j symbol).map (Entry.shift offset) := by
  intro offset sentence chart whole
  have hagree : ∀ i j, i ≤ j → j < words.length →
      (fill g policy words).AgreesAt (fill g policy sentence) offset i j :=
    fun _ _ ↦ agreesAt_fill g policy before words after
  exact ⟨hagree i j hij hj symbol,
    recover_shift (fun _ ↦ getElem?_inner before words after) hagree hij hj symbol,
    fun _ hsquare ↦ exists_inner_square hsquare hij hj symbol⟩

/-- One word comes before the sentence and two after it, so its entry splits one word later. -/
theorem entry?_fill_inner_attachment :
    let g := Grammar.ofRecords attachmentRecords
    let words := ["saw", "dog", "with", "cat"]
    let sentence := ["dog"] ++ words ++ ["with", "dog"]
    let chart := fill g {} words
    let whole := fill g {} sentence
    let score : Weight := ⟨4587164819176281028⟩
    0 ≤ 3 ∧ 3 < words.length ∧ chart.entry? 0 3 0 = some ⟨score, .split 1 0 2⟩ ∧
      whole.entry? 1 4 0 = some ⟨score, .split 2 0 2⟩ ∧
      whole.recover g sentence 1 4 0 =
        (chart.recover g words 0 3 0).mapError (ParseFault.shift 1) ∧
      ∃ square inner, Square.fill? g (RareWords.resolve? {} g) sentence = some square ∧
        Square.fill? g (RareWords.resolve? {} g) words = some inner ∧
        square.entry? 1 4 0 = (inner.entry? 0 3 0).map (Entry.shift 1) := by
  intro g words sentence chart whole score
  have hentry : chart.entry? 0 3 0 = some ⟨score, .split 1 0 2⟩ := by decide +kernel
  have haddsUp : ∀ word ∈ sentence, g.AddsUp word := by decide +kernel
  obtain ⟨square, hsquare⟩ := Square.exists_fill?_resolve? {} haddsUp
  obtain ⟨hinner, htree, hsquares⟩ :=
    entry?_fill_inner g {} ["dog"] words ["with", "dog"] (Nat.zero_le 3) (by decide) 0
  obtain ⟨inner, hfilled, hsame⟩ := hsquares square hsquare
  have hwhole : whole.entry? 1 4 0 = (chart.entry? 0 3 0).map (Entry.shift 1) := hinner
  rw [hentry] at hwhole
  exact ⟨Nat.zero_le 3, by decide, hentry, hwhole, htree, square, inner, hsquare, hfilled, hsame⟩

end Chart

end StochasticGrammar
