import StochasticGrammar.Proofs.Text.Pieces
import StochasticGrammar.Record

/-!
# The shape of a record line

A record line is a run of digits, and after it the name of a kind and the fields, each after a run
of spaces and tabs.  Splitting a trimmed line gives parts exactly if the line has this shape, and
then the parts are those of the shape.
-/

namespace StochasticGrammar.Record

/-! ## The grammar -/

/-- The text stands for a number that can be written, with any number of zeros in front. -/
structure IsCount (digits : List Char) (count : Nat) : Prop where
  ne_nil : digits ≠ []
  isDigit : ∀ c ∈ digits, c.isDigit
  value : Nat.ofDigitChars 10 digits 0 = count
  le_maxCount : count ≤ maxCount

/-- The text separates two parts. -/
structure IsSpace (gap : List Char) : Prop where
  ne_nil : gap ≠ []
  isGap : ∀ c ∈ gap, c = ' ' ∨ c = '\t'

/-- The text can be a name or a field. -/
structure IsPart (part : String) : Prop where
  ne_nil : part.toList ≠ []
  isBlank : ∀ c ∈ part.toList, Text.isBlank c = false

/-- The text consists of the parts, with a space before each. -/
inductive Spaced : List Char → List String → Prop
  | nil : Spaced [] []
  | cons {gap rest : List Char} {part : String} {parts : List String} (hgap : IsSpace gap)
      (hpart : IsPart part) (hrest : Spaced rest parts) :
      Spaced (gap ++ part.toList ++ rest) (part :: parts)

/-- The text is a count, a name and fields. -/
inductive HasShape : List Char → Parts → Prop
  | intro {digits rest : List Char} {count : Nat} {name : String} {fields : List String}
      (hcount : IsCount digits count) (hrest : Spaced rest (name :: fields)) :
      HasShape (digits ++ rest) ⟨count, name, fields⟩

/-! ## Gaps and tokens -/

theorem isGap_iff {c : Char} : isGap c ↔ c = ' ' ∨ c = '\t' := by
  simp [isGap]

theorem isBlank_of_isGap {c : Char} (h : isGap c) : Text.isBlank c := by
  rcases isGap_iff.mp h with rfl | rfl <;> decide

theorem isGap_of_not_isBlank {c : Char} (h : Text.isBlank c = false) : isGap c = false := by
  by_contra hgap
  rw [Bool.not_eq_false] at hgap
  rw [isBlank_of_isGap hgap] at h
  cases h

theorem isGap_of_isDigit {c : Char} (h : c.isDigit) : isGap c = false := by
  by_contra hgap
  rw [Bool.not_eq_false, isGap_iff] at hgap
  rcases hgap with rfl | rfl <;> cases h

theorem isBlank_of_isDigit {c : Char} (h : c.isDigit) : Text.isBlank c = false := by
  have hrange : 48 ≤ c.toNat ∧ c.toNat ≤ 57 := Char.isDigit_iff_toNat.mp h
  rw [Text.isBlank, List.any_eq_false]
  rintro ⟨low, high⟩ hmem hin
  have hbetween : low ≤ c.toNat ∧ c.toNat ≤ high := by simpa using hin
  have hout : ∀ range ∈ Text.blankRanges, range.2 < 48 ∨ 57 < range.1 := by decide
  have hapart : high < 48 ∨ 57 < low := hout _ hmem
  omega

instance (gap : List Char) : Decidable (IsSpace gap) :=
  decidable_of_iff (gap ≠ [] ∧ gap.all isGap = true) <| by
    rw [List.all_eq_true]
    constructor
    · rintro ⟨hne, hall⟩
      exact ⟨hne, fun c hc ↦ isGap_iff.mp (hall c hc)⟩
    · rintro ⟨hne, hall⟩
      exact ⟨hne, fun c hc ↦ isGap_iff.mpr (hall c hc)⟩

instance (part : String) : Decidable (IsPart part) :=
  decidable_of_iff (part.toList ≠ [] ∧ part.toList.all (!Text.isBlank ·) = true) <| by
    simp only [List.all_eq_true, Bool.not_eq_true']
    exact ⟨fun h ↦ ⟨h.1, h.2⟩, fun h ↦ ⟨h.ne_nil, h.isBlank⟩⟩

theorem tokens_nil : tokens [] = [] := rfl

/-- A gap in front of a text belongs to no token. -/
theorem tokens_gap {c : Char} (h : isGap c) (text : List Char) :
    tokens (c :: text) = tokens text := by
  have hnone : ∀ a ∈ ([] : List Char), isGap a = false := by simp
  have hpieces := Text.pieces_append_cons hnone h text
  rw [List.nil_append] at hpieces
  rw [tokens, hpieces]
  rfl

theorem tokens_gaps {gap : List Char} (h : ∀ c ∈ gap, isGap c) (text : List Char) :
    tokens (gap ++ text) = tokens text := by
  induction gap with
  | nil => rfl
  | cons c gap ih =>
    rw [List.forall_mem_cons] at h
    rw [List.cons_append, tokens_gap h.1, ih h.2]

/-- What stands in front of a gap or the end is a token. -/
theorem tokens_append {token rest : List Char} (htoken : token ≠ [])
    (hgap : ∀ c ∈ token, isGap c = false) (hrest : ∀ c ∈ rest.head?, isGap c) :
    tokens (token ++ rest) = token :: tokens rest := by
  cases rest with
  | nil =>
    rw [List.append_nil, tokens, Text.pieces_of_no_separator hgap]
    simp [htoken, tokens_nil]
  | cons c rest =>
    have hc : isGap c := hrest c rfl
    rw [tokens_gap hc, tokens, Text.pieces_append_cons hgap hc]
    simp [htoken, tokens]

/-! ## From tokens to the shape -/

/-- A text that does not start with a gap starts with a token. -/
theorem exists_token {text : List Char} (htext : text ≠ [])
    (hhead : ∀ c ∈ text.head?, isGap c = false) :
    ∃ token rest, text = token ++ rest ∧ token ≠ [] ∧ (∀ c ∈ rest.head?, isGap c) ∧
      tokens text = token :: tokens rest := by
  have htoken : text.takeWhile (!isGap ·) ≠ [] := by
    cases text with
    | nil => exact absurd rfl htext
    | cons c rest => simp [hhead c rfl]
  have hgap : ∀ c ∈ text.takeWhile (!isGap ·), isGap c = false := by
    intro c hc
    simpa using List.mem_takeWhile_imp hc
  have hrest : ∀ c ∈ (text.dropWhile (!isGap ·)).head?, isGap c := by
    intro c hc
    have hnot := List.head?_dropWhile_not (!isGap ·) text
    rw [Option.mem_def.mp hc] at hnot
    simpa using hnot
  refine ⟨_, _, List.takeWhile_append_dropWhile.symm, htoken, hrest, ?_⟩
  rw [← tokens_append htoken hgap hrest, List.takeWhile_append_dropWhile]

/-- A text that starts with a gap and does not end with one starts with a space and a token. -/
theorem exists_space_token {text : List Char} (htext : text ≠ [])
    (hhead : ∀ c ∈ text.head?, isGap c) (hlast : ∀ c ∈ text.getLast?, isGap c = false) :
    ∃ gap token rest, text = gap ++ token ++ rest ∧ IsSpace gap ∧ token ≠ [] ∧
      (∀ c ∈ rest.head?, isGap c) ∧ tokens text = token :: tokens rest := by
  have hgap : ∀ c ∈ text.takeWhile isGap, isGap c := fun c hc ↦ List.mem_takeWhile_imp hc
  have hspace : IsSpace (text.takeWhile isGap) := by
    constructor
    · cases text with
      | nil => exact absurd rfl htext
      | cons c rest => simp [hhead c rfl]
    · intro c hc
      exact isGap_iff.mp (hgap c hc)
  have hafter : text.dropWhile isGap ≠ [] := by
    intro hnil
    have hall := List.dropWhile_eq_nil_iff.mp hnil
    have hend := hlast _ (List.getLast?_eq_some_getLast htext)
    rw [hall _ (List.getLast_mem htext)] at hend
    cases hend
  have hstart : ∀ c ∈ (text.dropWhile isGap).head?, isGap c = false := by
    intro c hc
    have hnot := List.head?_dropWhile_not isGap text
    rwa [Option.mem_def.mp hc] at hnot
  obtain ⟨token, rest, hsplit, htoken, hrest, htokens⟩ := exists_token hafter hstart
  have hwhole : text.takeWhile isGap ++ text.dropWhile isGap = text :=
    List.takeWhile_append_dropWhile
  refine ⟨_, token, rest, ?_, hspace, htoken, hrest, ?_⟩
  · rw [List.append_assoc, ← hsplit, hwhole]
  · rw [← htokens, ← tokens_gaps hgap (text.dropWhile isGap), hwhole]

theorem spaced_of_tokens {text : List Char} {parts : List (List Char)}
    (htokens : tokens text = parts) (hhead : ∀ c ∈ text.head?, isGap c)
    (hlast : ∀ c ∈ text.getLast?, isGap c = false)
    (hparts : ∀ part ∈ parts, ∀ c ∈ part, Text.isBlank c = false) :
    Spaced text (parts.map String.ofList) := by
  -- By induction on the tokens: each one is taken off together with the space before it.
  induction parts generalizing text with
  | nil =>
    by_cases htext : text = []
    · rw [htext]
      exact .nil
    · obtain ⟨_, _, _, _, _, _, _, hcons⟩ := exists_space_token htext hhead hlast
      rw [htokens] at hcons
      cases hcons
  | cons part parts ih =>
    have htext : text ≠ [] := by
      rintro rfl
      cases htokens
    obtain ⟨gap, token, rest, rfl, hgap, htoken, hrest, hcons⟩ :=
      exists_space_token htext hhead hlast
    rw [htokens, List.cons.injEq] at hcons
    obtain ⟨rfl, hrestTokens⟩ := hcons
    rw [List.forall_mem_cons] at hparts
    have hrestLast : ∀ c ∈ rest.getLast?, isGap c = false := by
      intro c hc
      apply hlast
      rw [List.getLast?_append]
      exact Option.or_eq_some_iff.mpr (Or.inl hc)
    have hpart : IsPart (String.ofList part) := by
      constructor
      · rwa [String.toList_ofList]
      · rw [String.toList_ofList]
        exact hparts.1
    have hspaced := Spaced.cons hgap hpart (ih hrestTokens.symm hrest hrestLast hparts.2)
    rwa [String.toList_ofList] at hspaced

/-! ## From the shape to tokens -/

theorem Spaced.isGap_head {text : List Char} {parts : List String} (h : Spaced text parts) :
    ∀ c ∈ text.head?, isGap c := by
  cases h with
  | nil =>
    intro c hc
    cases hc
  | @cons gap rest part parts hgap hpart hrest =>
    intro c hc
    obtain ⟨hne, hgaps⟩ := hgap
    cases gap with
    | nil => exact absurd rfl hne
    | cons first gap =>
      cases hc
      exact isGap_iff.mpr (hgaps c List.mem_cons_self)

theorem Spaced.tokens_eq {text : List Char} {parts : List String} (h : Spaced text parts) :
    tokens text = parts.map String.toList := by
  induction h with
  | nil => rfl
  | cons hgap hpart hrest ih =>
    have hnot : ∀ c ∈ _, isGap c = false := fun c hc ↦ isGap_of_not_isBlank (hpart.isBlank c hc)
    rw [List.append_assoc, tokens_gaps fun c hc ↦ isGap_iff.mpr (hgap.isGap c hc),
      tokens_append hpart.ne_nil hnot hrest.isGap_head, ih, List.map_cons]

theorem Spaced.isPart {text : List Char} {parts : List String} (h : Spaced text parts) :
    ∀ part ∈ parts, IsPart part := by
  induction h with
  | nil =>
    intro part hpart
    cases hpart
  | cons _ hpart _ ih => exact List.forall_mem_cons.mpr ⟨hpart, ih⟩

/-! ## A text of the shape stands on one line -/

/-- The last character of spaced parts belongs to a part. -/
theorem Spaced.isBlank_getLast {text : List Char} {parts : List String}
    (h : Spaced text parts) :
    ∀ c ∈ text.getLast?, Text.isBlank c = false := by
  induction h with
  | nil =>
    intro c hc
    cases hc
  | @cons gap rest part parts hgap hpart hrest ih =>
    intro c hc
    rw [List.getLast?_append, Option.mem_def, Option.or_eq_some_iff] at hc
    rcases hc with hc | ⟨-, hc⟩
    · exact ih c hc
    · rw [List.getLast?_append_of_ne_nil _ hpart.ne_nil] at hc
      exact hpart.isBlank c (List.mem_of_getLast? hc)

theorem HasShape.isTrimmed {text : List Char} {parts : Parts} (h : HasShape text parts) :
    Text.IsTrimmed text := by
  obtain @⟨digits, rest, count, name, fields, hcount, hrest⟩ := h
  constructor
  · intro c hc
    rw [List.head?_append_of_ne_nil _ hcount.ne_nil] at hc
    exact isBlank_of_isDigit (hcount.isDigit c (List.mem_of_head? hc))
  · intro c hc
    rw [List.getLast?_append, Option.mem_def, Option.or_eq_some_iff] at hc
    rcases hc with hc | ⟨-, hc⟩
    · exact hrest.isBlank_getLast c hc
    · exact isBlank_of_isDigit (hcount.isDigit c (List.mem_of_getLast? hc))

theorem lineFeed_not_mem_of_not_isBlank {text : List Char}
    (h : ∀ c ∈ text, Text.isBlank c = false) : '\n' ∉ text := by
  intro hmem
  have hblank : Text.isBlank '\n' = true := by decide
  rw [h _ hmem] at hblank
  cases hblank

theorem Spaced.lineFeed_not_mem {text : List Char} {parts : List String}
    (h : Spaced text parts) : '\n' ∉ text := by
  induction h with
  | nil => exact List.not_mem_nil
  | cons hgap hpart hrest ih =>
    rw [List.mem_append, List.mem_append, not_or, not_or]
    refine ⟨⟨?_, lineFeed_not_mem_of_not_isBlank hpart.isBlank⟩, ih⟩
    intro hmem
    rcases hgap.isGap _ hmem with h | h <;> cases h

theorem HasShape.lineFeed_not_mem {text : List Char} {parts : Parts} (h : HasShape text parts) :
    '\n' ∉ text := by
  obtain @⟨digits, rest, count, name, fields, hcount, hrest⟩ := h
  rw [List.mem_append, not_or]
  refine ⟨lineFeed_not_mem_of_not_isBlank ?_, hrest.lineFeed_not_mem⟩
  intro c hc
  exact isBlank_of_isDigit (hcount.isDigit c hc)

/-! ## Reading the shape -/

theorem count?_eq_some_iff {digits : List Char} {count : Nat} (hdigits : digits ≠ []) :
    count? digits = some count ↔ IsCount digits count := by
  have hvalue : digits.foldl (fun n d ↦ 10 * n + (d.toNat - '0'.toNat)) 0 =
      Nat.ofDigitChars 10 digits 0 := rfl
  unfold count?
  simp only [hvalue]
  constructor
  · intro h
    split_ifs at h with hall hmax
    obtain rfl := Option.some.inj h
    exact ⟨hdigits, List.all_eq_true.mp hall, rfl, hmax⟩
  · rintro ⟨-, hall, rfl, hmax⟩
    rw [if_pos (List.all_eq_true.mpr hall), if_pos hmax]

/-- Splitting a text of the shape gives its parts. -/
theorem HasShape.parts?_eq {text : List Char} {parts : Parts} (h : HasShape text parts) :
    parts? text = some parts := by
  obtain @⟨digits, rest, count, name, fields, hcount, hrest⟩ := h
  have hgap : ∀ c ∈ digits, isGap c = false := fun c hc ↦ isGap_of_isDigit (hcount.isDigit c hc)
  have htokens : tokens (digits ++ rest) = digits :: name.toList :: fields.map String.toList := by
    rw [tokens_append hcount.ne_nil hgap hrest.isGap_head, hrest.tokens_eq, List.map_cons]
  have hblank : ¬(name.toList :: fields.map String.toList).any (·.any Text.isBlank) := by
    rw [← List.map_cons, List.any_map, List.any_eq_true]
    rintro ⟨part, hpart, hany⟩
    obtain ⟨c, hc, hcblank⟩ := List.any_eq_true.mp hany
    rw [(hrest.isPart part hpart).isBlank c hc] at hcblank
    cases hcblank
  have hread := (count?_eq_some_iff hcount.ne_nil).mpr hcount
  rw [parts?, htokens]
  simp only [if_neg hblank, hread, Option.map_some, String.ofList_toList, List.map_map]
  congr 2
  exact List.map_id'' (fun _ ↦ String.ofList_toList) fields

/-- A trimmed text that can be split into parts has their shape. -/
theorem hasShape_of_parts? {text : List Char} (htrimmed : Text.IsTrimmed text) {parts : Parts}
    (h : parts? text = some parts) : HasShape text parts := by
  rw [parts?] at h
  split at h
  · next digits name fields htokens =>
    split_ifs at h with hblank
    obtain ⟨count, hcount, rfl⟩ := Option.map_eq_some_iff.mp h
    have htext : text ≠ [] := by
      rintro rfl
      cases htokens
    obtain ⟨token, rest, rfl, htoken, hrest, hcons⟩ :=
      exists_token htext fun c hc ↦ isGap_of_not_isBlank (htrimmed.head c hc)
    rw [htokens, List.cons.injEq] at hcons
    obtain ⟨rfl, hrestTokens⟩ := hcons
    have hlast : ∀ c ∈ rest.getLast?, isGap c = false := by
      intro c hc
      apply isGap_of_not_isBlank
      apply htrimmed.last
      rw [List.getLast?_append]
      exact Option.or_eq_some_iff.mpr (Or.inl hc)
    have hparts : ∀ part ∈ name :: fields, ∀ c ∈ part, Text.isBlank c = false := by
      intro part hpart c hc
      by_contra hcblank
      rw [Bool.not_eq_false] at hcblank
      exact hblank (List.any_eq_true.mpr ⟨part, hpart, List.any_eq_true.mpr ⟨c, hc, hcblank⟩⟩)
    exact .intro ((count?_eq_some_iff htoken).mp hcount)
      (spaced_of_tokens hrestTokens.symm hrest hlast hparts)
  · cases h

end StochasticGrammar.Record
