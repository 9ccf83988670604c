import Mathlib.Data.List.AList
import StochasticGrammar.Proofs.Chart.Search
import StochasticGrammar.Proofs.Grammar.WordCount

/-!
# Filling a square in place

A chart can be filled in place as well.  A square has a cell for every two positions of a sentence,
and a cell maps the numbers of symbols to entries.  The words are entered first, then the longer
spans by width and from left to right, each with everything that was found for it.  Whatever is
looked up on the way, be it a cell or the rules of a symbol, has to be there: otherwise nothing is
returned.  How words are looked up is left open, so that this may fail as well.

Before the span of width `width` at `first` is entered, the square has the entries of the full chart
for all narrower spans and for those of the same width further left, and no others.  The search of a
span reads narrower spans only, so it never fails and finds the entries of the full chart.
-/

namespace StochasticGrammar.Chart

/-- The entries of a span, by the numbers of their symbols. -/
abbrev EntryMap := AList fun _ : Nat ↦ Entry

def EntryMap.insertAll (cell : EntryMap) (listed : List (Nat × Entry)) : EntryMap :=
  listed.foldl (fun cell (symbol, entry) ↦ AList.insert symbol entry cell) cell

/-- The cells by first and by last position. -/
abbrev Square := List (List EntryMap)

namespace Square

def blank (length : Nat) : Square := List.replicate length (List.replicate length ∅)

def cell? (square : Square) (i j : Nat) : Option EntryMap := do
  let row ← square[i]?
  row[j]?

def entry? (square : Square) (i j symbol : Nat) : Option Entry := do
  let cell ← square.cell? i j
  cell.lookup symbol

/-- The score of a symbol over a span, if there is a cell for the span. -/
def score? (square : Square) (i j symbol : Nat) : Option Weight := do
  let cell ← square.cell? i j
  some (((cell.lookup symbol).map Entry.score).getD 0)

/-- Changes the cell of a span, if there is one. -/
def modify? (square : Square) (i j : Nat) (change : EntryMap → EntryMap) : Option Square := do
  let row ← square[i]?
  let cell ← row[j]?
  some (square.set i (row.set j (change cell)))

/-- Takes a split into account, unless one of its parts is empty. -/
def consider? (square : Square) (i j : Nat) (rule : IndexedRule) (best : Option Entry)
    (point : Nat) : Option (Option Entry) := do
  let left ← square.score? i point rule.left
  if left = 0 then some best
  else do
    let right ← square.score? (point + 1) j rule.right
    if right = 0 then some best
    else
      let entry : Entry := ⟨rule.probability * left * right, .split point rule.left rule.right⟩
      some (heavierOf Entry.score best entry)

/-- Finds the entry of a span in one pass over the rules and the splits for each. -/
def search? (square : Square) (i j : Nat) (rules : List IndexedRule) : Option (Option Entry) :=
  rules.foldlM (fun best rule ↦ (List.range' i (j - i)).foldlM (square.consider? i j rule) best)
    none

/-- The entries that are found for a span, in the order of the symbols. -/
def winners? (g : Grammar) (square : Square) (i j : Nat) : Option (List (Nat × Entry)) :=
  (List.range g.symbols.size).foldlM (fun winners symbol ↦ do
    let rules ← g.ruleIndex[symbol]?
    let best ← square.search? i j rules
    some (winners ++ best.toList.map (symbol, ·))) []

/-- Enters a word at its position, by what it is looked up as. -/
def enterWord? (g : Grammar) (lookUp? : String → Option String) (square : Square)
    (word : String × Nat) : Option Square := do
  let weights := g.lexicalWeights (← lookUp? word.1)
  let listed := weights.map fun (symbol, weight) ↦ (symbol, (⟨weight, .word⟩ : Entry))
  square.modify? word.2 word.2 (·.insertAll listed)

/-- Enters a longer span. -/
def enterSpan? (g : Grammar) (square : Square) (i j : Nat) : Option Square := do
  let winners ← square.winners? g i j
  square.modify? i j (·.insertAll winners)

/-- Enters all spans of one width. -/
def enterWidth? (g : Grammar) (length : Nat) (square : Square) (width : Nat) : Option Square :=
  (List.range (length - width)).foldlM (fun square i ↦ square.enterSpan? g i (i + width)) square

/-- Fills the square of a sentence. -/
def fill? (g : Grammar) (lookUp? : String → Option String) (words : List String) :
    Option Square := do
  let square ← words.zipIdx.foldlM (enterWord? g lookUp?) (blank words.length)
  (List.range' 1 (words.length - 1)).foldlM (enterWidth? g words.length) square

/-- Looks a word up without a check on how often it was seen. -/
def lookUp (g : Grammar) (policy : RareWords) (word : String) : Option String :=
  some (policy.resolve g word)

/-! ## Loops -/

/-- A loop succeeds and keeps an invariant of its state if each round does. -/
theorem exists_foldlM {α σ : Type} {round : σ → α → Option σ} {motive : Nat → σ → Prop}
    {items : List α}
    (hround : ∀ k item state, items[k]? = some item → motive k state →
      ∃ next, round state item = some next ∧ motive (k + 1) next)
    {state : σ} (hstate : motive 0 state) :
    ∃ last, items.foldlM round state = some last ∧ motive items.length last := by
  induction items generalizing motive state with
  | nil => exact ⟨state, rfl, hstate⟩
  | cons item rest ih =>
    obtain ⟨next, hnext, hmotive⟩ := hround 0 item state rfl hstate
    -- The rounds that are left start from one item later.
    have hrest (k : Nat) (other : α) (middle : σ) (h : rest[k]? = some other) :
        motive (k + 1) middle →
          ∃ after, round middle other = some after ∧ motive (k + 1 + 1) after :=
      hround (k + 1) other middle h
    obtain ⟨last, hlast, hend⟩ := ih (motive := fun k ↦ motive (k + 1)) hrest hmotive
    refine ⟨last, ?_, hend⟩
    rw [List.foldlM_cons, hnext]
    exact hlast

/-- A loop whose rounds succeed does what their results do. -/
theorem foldlM_eq_some_foldl {α σ : Type} {round : σ → α → Option σ} {result : σ → α → σ}
    {items : List α} (h : ∀ state, ∀ item ∈ items, round state item = some (result state item))
    (state : σ) : items.foldlM round state = some (items.foldl result state) := by
  induction items generalizing state with
  | nil => rfl
  | cons item rest ih =>
    rw [List.foldlM_cons, h state item List.mem_cons_self, List.foldl_cons]
    exact ih (fun other next hnext ↦ h other next (List.mem_cons_of_mem _ hnext)) _

/-- A loop whose rounds are alike on its items comes to the same. -/
theorem foldlM_congr_of_mem {α σ : Type} {round other : σ → α → Option σ} {items : List α}
    (h : ∀ state, ∀ item ∈ items, round state item = other state item) (state : σ) :
    items.foldlM round state = items.foldlM other state := by
  induction items generalizing state with
  | nil => rfl
  | cons item rest ih =>
    rw [List.foldlM_cons, List.foldlM_cons, h state item List.mem_cons_self]
    apply congrArg
    funext next
    exact ih (fun state other hother ↦ h state other (List.mem_cons_of_mem _ hother)) next

/-- A loop fails if the round of some item does. -/
theorem foldlM_eq_none_of_mem {α σ : Type} {round : σ → α → Option σ} {items : List α} {item : α}
    (hitem : item ∈ items) (hround : ∀ state, round state item = none) (state : σ) :
    items.foldlM round state = none := by
  induction items generalizing state with
  | nil => cases hitem
  | cons first rest ih =>
    rw [List.foldlM_cons]
    rcases List.mem_cons.mp hitem with rfl | hrest
    · rw [hround]
      rfl
    · cases round state first with
      | none => rfl
      | some next => exact ih hrest next

/-! ## Cells -/

variable {square : Square} {i j : Nat}

theorem insertAll_cons (cell : EntryMap) (symbol : Nat) (entry : Entry)
    (rest : List (Nat × Entry)) :
    cell.insertAll ((symbol, entry) :: rest) =
      EntryMap.insertAll (AList.insert symbol entry cell) rest := rfl

theorem lookup_insertAll {listed : List (Nat × Entry)} {entries : Nat → Option Entry}
    (h : ∀ symbol entry, (symbol, entry) ∈ listed → entries symbol = some entry) (cell : EntryMap)
    (symbol : Nat) :
    (cell.insertAll listed).lookup symbol =
      if symbol ∈ listed.map Prod.fst then entries symbol else cell.lookup symbol := by
  induction listed generalizing cell with
  | nil => rfl
  | cons pair rest ih =>
    obtain ⟨other, entry⟩ := pair
    have hother : entries other = some entry := h other entry List.mem_cons_self
    rw [insertAll_cons, ih fun _ _ hmem ↦ h _ _ (List.mem_cons_of_mem _ hmem), List.map_cons]
    by_cases hsymbol : symbol = other
    · rw [hsymbol, AList.lookup_insert, hother, ite_self, if_pos List.mem_cons_self]
    · rw [AList.lookup_insert_ne hsymbol]
      simp only [List.mem_cons, hsymbol, false_or]

/-- A cell without a symbol has what is listed for it afterwards. -/
theorem lookup_insertAll_of_lookup_eq_none {listed : List (Nat × Entry)}
    {entries : Nat → Option Entry}
    (h : ∀ symbol entry, (symbol, entry) ∈ listed ↔ entries symbol = some entry) {cell : EntryMap}
    {symbol : Nat} (hcell : cell.lookup symbol = none) :
    (cell.insertAll listed).lookup symbol = entries symbol := by
  rw [lookup_insertAll (fun _ _ ↦ (h _ _).mp), hcell]
  split_ifs with hsymbol
  · rfl
  · rw [eq_comm, Option.eq_none_iff_forall_not_mem]
    intro entry hentry
    exact hsymbol (List.mem_map.mpr ⟨(symbol, entry), (h _ _).mpr hentry, rfl⟩)

theorem cell?_blank (length i j : Nat) :
    (blank length).cell? i j = if i < length ∧ j < length then some ∅ else none := by
  rw [cell?, blank, List.getElem?_replicate]
  by_cases hi : i < length
  · rw [if_pos hi]
    simp only [hi, true_and]
    exact List.getElem?_replicate
  · rw [if_neg hi]
    simp only [hi, false_and, if_false]
    rfl

/-- A cell that is there can be changed, and the others stay as they are. -/
theorem exists_modify? {cell : EntryMap} (hcell : square.cell? i j = some cell)
    (change : EntryMap → EntryMap) :
    ∃ next, square.modify? i j change = some next ∧ next.length = square.length ∧
      ∀ a b, next.cell? a b = if a = i ∧ b = j then some (change cell) else square.cell? a b := by
  obtain ⟨row, hrow, hentry⟩ := Option.bind_eq_some_iff.mp hcell
  have hi := (List.getElem?_eq_some_iff.mp hrow).1
  have hj := (List.getElem?_eq_some_iff.mp hentry).1
  refine ⟨square.set i (row.set j (change cell)), ?_, List.length_set, ?_⟩
  · simp only [modify?, hrow, hentry, Option.bind_eq_bind, Option.bind_some]
  · intro a b
    by_cases ha : a = i
    · subst ha
      have hset : (square.set a (row.set j (change cell)))[a]? = some (row.set j (change cell)) :=
        List.getElem?_set_self hi
      simp only [cell?, hset, hrow, Option.bind_eq_bind, Option.bind_some, true_and]
      split_ifs with hb
      · subst hb
        exact List.getElem?_set_self hj
      · exact List.getElem?_set_ne (Ne.symm hb)
    · simp only [cell?, ha, false_and, if_false, List.getElem?_set_ne (Ne.symm ha)]

/-! ## The invariant -/

/-- The spans that are entered before the span of width `width` at `first`. -/
def IsEntered (width first i j : Nat) : Prop :=
  i ≤ j ∧ (j - i < width ∨ j - i = width ∧ i < first)

/-- The square has the entries of a chart for the spans that are entered, and no others. -/
structure Matches (square : Square) (chart : Chart) (width first : Nat) : Prop where
  length_eq : square.length = chart.length
  exists_cell_iff : ∀ i j, (∃ cell, square.cell? i j = some cell) ↔
    i < chart.length ∧ j < chart.length
  entry?_of_entered : ∀ i j symbol, IsEntered width first i j →
    square.entry? i j symbol = chart.entry? i j symbol
  entry?_of_not_entered : ∀ i j symbol, ¬IsEntered width first i j →
    square.entry? i j symbol = none

variable {chart : Chart} {width first : Nat}

theorem matches_blank (chart : Chart) : (blank chart.length).Matches chart 0 0 where
  length_eq := List.length_replicate
  exists_cell_iff i j := by
    rw [cell?_blank]
    split_ifs with h
    · exact iff_of_true ⟨∅, rfl⟩ h
    · exact iff_of_false (by simp) h
  entry?_of_entered i j symbol h := by
    unfold IsEntered at h
    omega
  entry?_of_not_entered i j symbol _ := by
    unfold entry?
    rw [cell?_blank]
    split_ifs <;> rfl

theorem isEntered_succ_iff : IsEntered width (first + 1) i j ↔
    IsEntered width first i j ∨ i = first ∧ j = first + width := by
  unfold IsEntered
  omega

/-- The next span has no entries yet. -/
theorem not_isEntered_next : ¬IsEntered width first first (first + width) := by
  unfold IsEntered
  omega

theorem entry?_of_cell? {cell : EntryMap} (hcell : square.cell? i j = some cell) (symbol : Nat) :
    square.entry? i j symbol = cell.lookup symbol := by
  unfold entry?
  rw [hcell]
  rfl

/-- Entering all entries of the next span completes it. -/
theorem Matches.exists_insertAll (h : square.Matches chart width first)
    (hlast : first + width < chart.length) {listed : List (Nat × Entry)}
    (hlisted : ∀ symbol entry, (symbol, entry) ∈ listed ↔
      chart.entry? first (first + width) symbol = some entry) :
    ∃ next, square.modify? first (first + width) (·.insertAll listed) = some next ∧
      next.Matches chart width (first + 1) := by
  have hinside : first < chart.length ∧ first + width < chart.length := ⟨by omega, hlast⟩
  obtain ⟨cell, hcell⟩ := (h.exists_cell_iff _ _).mpr hinside
  obtain ⟨next, hnext, hlength, hcells⟩ := exists_modify? hcell (·.insertAll listed)
  have hentries (i j symbol : Nat) : next.entry? i j symbol =
      if i = first ∧ j = first + width then chart.entry? first (first + width) symbol
      else square.entry? i j symbol := by
    unfold entry?
    rw [hcells]
    split_ifs with hspan
    · apply lookup_insertAll_of_lookup_eq_none hlisted
      rw [← entry?_of_cell? hcell]
      exact h.entry?_of_not_entered _ _ _ not_isEntered_next
    · rfl
  refine ⟨next, hnext, hlength.trans h.length_eq, ?_, ?_, ?_⟩
  · intro i j
    rw [hcells]
    split_ifs with hspan
    · rw [hspan.1, hspan.2]
      exact iff_of_true ⟨_, rfl⟩ hinside
    · exact h.exists_cell_iff i j
  · intro i j symbol hentered
    rw [hentries]
    split_ifs with hspan
    · rw [hspan.1, hspan.2]
    · exact h.entry?_of_entered i j symbol ((isEntered_succ_iff.mp hentered).resolve_right hspan)
  · intro i j symbol hentered
    have hboth := not_or.mp (mt isEntered_succ_iff.mpr hentered)
    rw [hentries, if_neg hboth.2]
    exact h.entry?_of_not_entered i j symbol hboth.1

theorem Matches.entry?_of_length_le (h : square.Matches chart width first)
    (hj : chart.length ≤ j) {symbol : Nat} : square.entry? i j symbol = none := by
  by_contra hne
  obtain ⟨entry, hentry⟩ := Option.ne_none_iff_exists'.mp hne
  obtain ⟨cell, hcell, -⟩ := Option.bind_eq_some_iff.mp hentry
  have hinside := (h.exists_cell_iff i j).mp ⟨cell, hcell⟩
  omega

/-! ## Searching -/

/-- The score of a span that is entered can be read. -/
theorem Matches.score?_eq (h : square.Matches chart width first)
    (hentered : IsEntered width first i j) (hj : j < chart.length) (symbol : Nat) :
    square.score? i j symbol = some (chart.score i j symbol) := by
  have hi : i < chart.length := hentered.1.trans_lt hj
  obtain ⟨cell, hcell⟩ := (h.exists_cell_iff i j).mpr ⟨hi, hj⟩
  have hlookup : cell.lookup symbol = chart.entry? i j symbol := by
    rw [← entry?_of_cell? hcell]
    exact h.entry?_of_entered i j symbol hentered
  rw [score?, hcell, score, ← hlookup]
  simp only [Option.bind_eq_bind, Option.bind_some]
  cases cell.lookup symbol <;> rfl

theorem consider?_eq {rule : IndexedRule} {point : Nat}
    (hleft : square.score? i point rule.left = some (chart.score i point rule.left))
    (hright : square.score? (point + 1) j rule.right = some (chart.score (point + 1) j rule.right))
    (best : Option Entry) :
    square.consider? i j rule best point = some (chart.consider i j rule best point) := by
  rw [consider?, hleft, hright, consider]
  simp only [Option.bind_eq_bind, Option.bind_some]
  split_ifs <;> rfl

/-- The search of the next span reads only what is entered, and so it finds the same entries. -/
theorem Matches.search?_eq (h : square.Matches chart width first)
    (hlast : first + width < chart.length) (rules : List IndexedRule) :
    square.search? first (first + width) rules =
      some (chart.search first (first + width) rules) := by
  rw [search?, search]
  apply foldlM_eq_some_foldl
  intro best rule _
  apply foldlM_eq_some_foldl
  intro best point hpoint
  rw [List.mem_range'_1] at hpoint
  apply consider?_eq
  · apply h.score?_eq _ (by omega)
    exact ⟨hpoint.1, .inl (by omega)⟩
  · apply h.score?_eq _ hlast
    exact ⟨by omega, .inl (by omega)⟩

/-- The rules of every symbol are there, and the search of each succeeds. -/
theorem Matches.winners?_eq (h : square.Matches chart width first)
    (hlast : first + width < chart.length) (g : Grammar) :
    square.winners? g first (first + width) =
      some ((List.range g.symbols.size).flatMap fun symbol ↦
        (chart.search first (first + width) (g.rulesFor symbol)).toList.map (symbol, ·)) := by
  rw [List.flatMap_eq_foldl, winners?]
  apply foldlM_eq_some_foldl
  intro winners symbol hsymbol
  rw [Grammar.getElem?_ruleIndex_of_lt (List.mem_range.mp hsymbol)]
  simp only [Option.bind_eq_bind, Option.bind_some, h.search?_eq hlast]

/-! ## The full square -/

section Fill

variable {g : Grammar} {policy : RareWords} {words : List String}

/-- Entering the next word keeps the invariant. -/
theorem exists_enterWord? (h : square.Matches (fill g policy words) 0 i) {word : String}
    (hword : words[i]? = some word) :
    ∃ next, square.enterWord? g (lookUp g policy) (word, i) = some next ∧
      next.Matches (fill g policy words) 0 (i + 1) := by
  have hi : i < (fill g policy words).length := by
    rw [length_fill]
    exact (List.getElem?_eq_some_iff.mp hword).1
  apply h.exists_insertAll hi
  intro symbol entry
  rw [Nat.add_zero, entry?_fill_self_iff_mem_lexicalWeights hword, List.mem_map]
  constructor
  · intro hlisted
    obtain ⟨⟨_, weight⟩, hmem, heq⟩ := hlisted
    cases heq
    exact ⟨weight, hmem, rfl⟩
  · intro hlisted
    obtain ⟨weight, hmem, rfl⟩ := hlisted
    exact ⟨(symbol, weight), hmem, rfl⟩

/-- Entering the next span keeps the invariant. -/
theorem exists_enterSpan? (h : square.Matches (fill g policy words) width first)
    (hwidth : 0 < width) (hlast : first + width < words.length) :
    ∃ next, square.enterSpan? g first (first + width) = some next ∧
      next.Matches (fill g policy words) width (first + 1) := by
  have hlength : (fill g policy words).length = words.length := length_fill
  rw [← hlength] at hlast
  rw [enterSpan?, h.winners?_eq hlast]
  apply h.exists_insertAll hlast
  intro symbol entry
  rw [entry?_fill_of_lt (by omega) (by omega), ← search_eq_heaviest?]
  simp only [List.mem_flatMap, List.mem_range, List.mem_map, Option.mem_toList]
  constructor
  · intro hlisted
    obtain ⟨other, -, best, hbest, heq⟩ := hlisted
    cases heq
    exact hbest
  · intro hbest
    refine ⟨symbol, ?_, entry, hbest, rfl⟩
    by_contra hsize
    rw [Grammar.rulesFor_eq_nil_of_size_le (Nat.le_of_not_lt hsize)] at hbest
    cases hbest

/-- A complete level is the start of the next one. -/
theorem Matches.next_width
    (h : square.Matches (fill g policy words) width (words.length - width)) :
    square.Matches (fill g policy words) (width + 1) 0 := by
  have hlength : (fill g policy words).length = words.length := length_fill
  have hiff {i j : Nat} (hj : j < words.length) :
      IsEntered width (words.length - width) i j ↔ IsEntered (width + 1) 0 i j := by
    unfold IsEntered
    omega
  refine ⟨h.length_eq, h.exists_cell_iff, ?_, ?_⟩
  · intro i j symbol hentered
    rcases Nat.lt_or_ge j words.length with hj | hj
    · exact h.entry?_of_entered i j symbol ((hiff hj).mpr hentered)
    · rw [h.entry?_of_length_le (hlength.trans_le hj), Chart.entry?,
        cell_fill_of_not_span (by omega)]
      rfl
  · intro i j symbol hentered
    rcases Nat.lt_or_ge j words.length with hj | hj
    · exact h.entry?_of_not_entered i j symbol (mt (hiff hj).mp hentered)
    · exact h.entry?_of_length_le (hlength.trans_le hj)

/-- Entering all words completes the first level. -/
theorem exists_enterWords? (g : Grammar) (policy : RareWords) (words : List String) :
    ∃ next, words.zipIdx.foldlM (enterWord? g (lookUp g policy)) (blank words.length) =
        some next ∧
      next.Matches (fill g policy words) 1 0 := by
  have hround (k : Nat) (item : String × Nat) (state : Square)
      (hitem : words.zipIdx[k]? = some item) (hstate : state.Matches (fill g policy words) 0 k) :
      ∃ next, enterWord? g (lookUp g policy) state item = some next ∧
        next.Matches (fill g policy words) 0 (k + 1) := by
    rw [List.getElem?_zipIdx, Option.map_eq_some_iff] at hitem
    obtain ⟨word, hword, rfl⟩ := hitem
    rw [Nat.zero_add]
    exact exists_enterWord? hstate hword
  have hblank := matches_blank (fill g policy words)
  rw [length_fill] at hblank
  obtain ⟨next, hnext, hmatches⟩ := exists_foldlM hround hblank
  rw [List.length_zipIdx] at hmatches
  exact ⟨next, hnext, hmatches.next_width⟩

/-- Entering all spans of one width completes the level. -/
theorem exists_enterWidth? (h : square.Matches (fill g policy words) width 0)
    (hwidth : 0 < width) :
    ∃ next, square.enterWidth? g words.length width = some next ∧
      next.Matches (fill g policy words) (width + 1) 0 := by
  have hround (k i : Nat) (state : Square)
      (hi : (List.range (words.length - width))[k]? = some i)
      (hstate : state.Matches (fill g policy words) width k) :
      ∃ next, state.enterSpan? g i (i + width) = some next ∧
        next.Matches (fill g policy words) width (k + 1) := by
    obtain ⟨hk, rfl⟩ := List.getElem?_eq_some_iff.mp hi
    rw [List.length_range] at hk
    rw [List.getElem_range]
    exact exists_enterSpan? hstate hwidth (by omega)
  obtain ⟨next, hnext, hmatches⟩ := exists_foldlM hround h
  rw [List.length_range] at hmatches
  exact ⟨next, hnext, hmatches.next_width⟩

/-- Filling in place never looks up what is not there, and gives the entries of the full chart. -/
theorem exists_fill? (g : Grammar) (policy : RareWords) (words : List String) :
    ∃ square, fill? g (lookUp g policy) words = some square ∧ square.length = words.length ∧
      (∀ i j, (∃ cell, square.cell? i j = some cell) ↔ i < words.length ∧ j < words.length) ∧
      ∀ i j symbol, square.entry? i j symbol = Chart.entry? (fill g policy words) i j symbol := by
  have hround (k width : Nat) (state : Square)
      (hwidth : (List.range' 1 (words.length - 1))[k]? = some width)
      (hstate : state.Matches (fill g policy words) (1 + k) 0) :
      ∃ next, state.enterWidth? g words.length width = some next ∧
        next.Matches (fill g policy words) (1 + (k + 1)) 0 := by
    obtain ⟨-, rfl⟩ := List.getElem?_eq_some_iff.mp hwidth
    rw [List.getElem_range', Nat.one_mul]
    exact exists_enterWidth? hstate (by omega)
  obtain ⟨start, hstart, hwords⟩ := exists_enterWords? g policy words
  obtain ⟨square, hsquare, hmatches⟩ :=
    exists_foldlM (motive := fun k state ↦ Matches state (fill g policy words) (1 + k) 0)
      hround hwords
  have hfill : fill? g (lookUp g policy) words = some square := by
    rw [fill?, hstart]
    exact hsquare
  refine ⟨square, hfill, hmatches.length_eq.trans length_fill, ?_, ?_⟩
  · intro i j
    rw [hmatches.exists_cell_iff, length_fill]
  · intro i j symbol
    rw [List.length_range'] at hmatches
    by_cases hentered : IsEntered (1 + (words.length - 1)) 0 i j
    · exact hmatches.entry?_of_entered i j symbol hentered
    · have hspan : ¬(i ≤ j ∧ j < words.length) := by
        unfold IsEntered at hentered
        omega
      rw [hmatches.entry?_of_not_entered i j symbol hentered, Chart.entry?,
        cell_fill_of_not_span hspan]
      rfl

/-- Where the counts of a word are checked as they are added up, nothing else can fail: the square
is filled as it is without the checks, unless the counts of some word are too many. -/
theorem fill?_resolve? (g : Grammar) (policy : RareWords) (words : List String) :
    fill? g (policy.resolve? g) words =
      if ∀ word ∈ words, g.AddsUp word then fill? g (lookUp g policy) words else none := by
  split_ifs with hwords
  · rw [fill?, fill?]
    have hround (state : Square) (item : String × Nat) (hitem : item ∈ words.zipIdx) :
        enterWord? g (policy.resolve? g) state item =
          enterWord? g (lookUp g policy) state item := by
      have hword := hwords item.1 (List.fst_mem_of_mem_zipIdx hitem)
      rw [enterWord?, enterWord?, RareWords.resolve?_eq, if_pos hword]
      rfl
    rw [foldlM_congr_of_mem hround]
  · simp only [not_forall] at hwords
    obtain ⟨word, hword, hmany⟩ := hwords
    obtain ⟨i, hi⟩ := List.mem_iff_getElem?.mp hword
    have hitem : (word, i) ∈ words.zipIdx := List.mk_mem_zipIdx_iff_getElem?.mpr hi
    have hround (state : Square) : enterWord? g (policy.resolve? g) state (word, i) = none := by
      rw [enterWord?, RareWords.resolve?_eq, if_neg hmany]
      rfl
    rw [fill?, foldlM_eq_none_of_mem hitem hround]
    rfl

theorem exists_fill?_resolve? (policy : RareWords) (h : ∀ word ∈ words, g.AddsUp word) :
    ∃ square, fill? g (policy.resolve? g) words = some square := by
  obtain ⟨square, hsquare, -⟩ := exists_fill? g policy words
  refine ⟨square, ?_⟩
  rw [fill?_resolve?, if_pos h, hsquare]

/-- A square that was filled with checks has the entries of the full chart. -/
theorem entry?_of_fill?_resolve? (h : fill? g (policy.resolve? g) words = some square) :
    (∀ word ∈ words, g.AddsUp word) ∧
      ∀ i j symbol, square.entry? i j symbol = Chart.entry? (fill g policy words) i j symbol := by
  obtain ⟨filled, hfilled, -, -, hsame⟩ := exists_fill? g policy words
  rw [fill?_resolve?, hfilled] at h
  split_ifs at h with hwords
  cases h
  exact ⟨hwords, hsame⟩

end Fill

end Square

end StochasticGrammar.Chart
