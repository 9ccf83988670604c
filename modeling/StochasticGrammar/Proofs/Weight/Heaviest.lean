import StochasticGrammar.Proofs.Weight.Rounding
import StochasticGrammar.Weight

/-!
# Choosing the heaviest item

The heaviest item of a list is its first maximum, whether it is found from the end by recursion or
from the front in one pass.
-/

namespace StochasticGrammar

/-! ## The heaviest item is the first maximum

An item is chosen exactly when it has a positive weight, every item before it weighs less and no
item after it weighs more.  Nothing is chosen exactly when all weights are zero.
-/

section FirstMaximum

variable {α : Type} {weight : α → Weight} {items : List α} {best : α}

theorem heaviest?_eq_none_iff :
    heaviest? weight items = none ↔ ∀ item ∈ items, weight item = 0 := by
  induction items with
  | nil => simp [heaviest?]
  | cons item rest ih =>
    rw [List.forall_mem_cons, ← ih, heaviest?]
    cases heaviest? weight rest with
    | none => simp
    | some later =>
      dsimp only
      split_ifs <;> simp

theorem weight_le_of_mem_split {before after : List α}
    (hbefore : ∀ item ∈ before, weight item < weight best)
    (hafter : ∀ item ∈ after, weight item ≤ weight best) :
    ∀ item ∈ before ++ best :: after, weight item ≤ weight best := by
  intro item hitem
  rcases List.mem_append.mp hitem with hmem | hmem
  · exact le_of_lt (hbefore item hmem)
  · rcases List.mem_cons.mp hmem with rfl | hmem
    · exact le_rfl
    · exact hafter item hmem

theorem exists_split_of_heaviest? (h : heaviest? weight items = some best) :
    weight best ≠ 0 ∧ ∃ before after, items = before ++ best :: after ∧
      (∀ item ∈ before, weight item < weight best) ∧
        ∀ item ∈ after, weight item ≤ weight best := by
  induction items generalizing best with
  | nil => cases h
  | cons item rest ih =>
    rw [heaviest?] at h
    cases hrest : heaviest? weight rest with
    | none =>
      have hzero := heaviest?_eq_none_iff.mp hrest
      simp only [hrest] at h
      split_ifs at h with hitem
      cases h
      refine ⟨hitem, [], rest, rfl, by simp, ?_⟩
      intro other hother
      rw [hzero other hother]
      exact Weight.zero_le _
    | some later =>
      obtain ⟨hpos, before, after, rfl, hbefore, hafter⟩ := ih hrest
      simp only [hrest] at h
      split_ifs at h with hle
      · -- The item is as heavy as the best one later, so it comes first.
        cases h
        have hlater := weight_le_of_mem_split hbefore hafter
        refine ⟨?_, [], _, rfl, by simp, fun other hother ↦ (hlater other hother).trans hle⟩
        exact Weight.ne_zero_of_le hpos hle
      · cases h
        refine ⟨hpos, item :: before, after, rfl, ?_, hafter⟩
        rw [List.forall_mem_cons]
        exact ⟨lt_of_not_ge hle, hbefore⟩

theorem weight_ne_zero_of_heaviest? (h : heaviest? weight items = some best) : weight best ≠ 0 :=
  (exists_split_of_heaviest? h).1

theorem mem_of_heaviest? (h : heaviest? weight items = some best) : best ∈ items := by
  obtain ⟨-, before, after, rfl, -, -⟩ := exists_split_of_heaviest? h
  simp

theorem weight_le_of_heaviest? (h : heaviest? weight items = some best) {item : α}
    (hitem : item ∈ items) : weight item ≤ weight best := by
  obtain ⟨-, before, after, rfl, hbefore, hafter⟩ := exists_split_of_heaviest? h
  exact weight_le_of_mem_split hbefore hafter item hitem

/-- An item heavier than all before it and as heavy as any after it is chosen. -/
theorem heaviest?_append_cons {before after : List α} (hpos : weight best ≠ 0)
    (hbefore : ∀ item ∈ before, weight item < weight best)
    (hafter : ∀ item ∈ after, weight item ≤ weight best) :
    heaviest? weight (before ++ best :: after) = some best := by
  induction before with
  | nil =>
    rw [List.nil_append, heaviest?]
    cases hlater : heaviest? weight after with
    | none => exact if_neg hpos
    | some later => exact if_pos (hafter later (mem_of_heaviest? hlater))
  | cons item before ih =>
    rw [List.forall_mem_cons] at hbefore
    rw [List.cons_append, heaviest?, ih hbefore.2]
    exact if_neg (not_le_of_gt hbefore.1)

/-- The choice is the first maximum, as long as it is positive. -/
theorem heaviest?_eq_some_iff :
    heaviest? weight items = some best ↔
      weight best ≠ 0 ∧ ∃ before after, items = before ++ best :: after ∧
        (∀ item ∈ before, weight item < weight best) ∧
          ∀ item ∈ after, weight item ≤ weight best := by
  constructor
  · exact exists_split_of_heaviest?
  · intro h
    obtain ⟨hpos, before, after, rfl, hbefore, hafter⟩ := h
    exact heaviest?_append_cons hpos hbefore hafter

/-- Among numbers in order, the choice is heavier than every smaller one. -/
theorem weight_lt_of_heaviest?_range {weight : Nat → Weight} {n number smaller : Nat}
    (h : heaviest? weight (List.range n) = some number) (hsmaller : smaller < number) :
    weight smaller < weight number := by
  obtain ⟨-, before, after, hsplit, hbefore, -⟩ := exists_split_of_heaviest? h
  have hnumber : number = before.length := by
    have hget : (List.range n)[before.length]? = some number := by
      rw [hsplit, List.getElem?_append_right le_rfl, Nat.sub_self, List.getElem?_cons_zero]
    obtain ⟨hlt, heq⟩ := List.getElem?_eq_some_iff.mp hget
    rw [← heq, List.getElem_range]
  have hget : before[smaller]? = some smaller := by
    rw [hnumber] at hsmaller
    have hn : smaller < n := by
      have hlength := congrArg List.length hsplit
      rw [List.length_range, List.length_append, List.length_cons] at hlength
      omega
    rw [← List.getElem?_append_left hsmaller, ← hsplit, List.getElem?_range hn]
  exact hbefore smaller (List.mem_of_getElem? hget)

end FirstMaximum

/-! ## Finding the heaviest item in one pass

A pass over the items that keeps the best one so far, and gives it up only for a heavier one, ends
with the first item of greatest weight.  Items without weight may be passed over.
-/

section Scan

variable {α : Type} {weight : α → Weight}

/-- Gives up the best item so far for an item that is heavier. -/
def heavierOf (weight : α → Weight) (best : Option α) (item : α) : Option α :=
  if best.elim 0 weight < weight item then some item else best

theorem heavierOf_of_zero {best : Option α} {item : α} (h : weight item = 0) :
    heavierOf weight best item = best := by
  unfold heavierOf
  rw [h]
  exact if_neg (not_lt_of_ge (Weight.zero_le _))

theorem heaviest?_cons_of_zero {item : α} (h : weight item = 0) (rest : List α) :
    heaviest? weight (item :: rest) = heaviest? weight rest := by
  rw [heaviest?]
  cases hrest : heaviest? weight rest with
  | none => exact if_pos h
  | some later =>
    apply if_neg
    rw [h, not_le, Weight.pos_iff_ne_zero]
    exact weight_ne_zero_of_heaviest? hrest

theorem heaviest?_map {β : Type} (f : β → α) (items : List β) :
    heaviest? weight (items.map f) = (heaviest? (weight ∘ f) items).map f := by
  induction items with
  | nil => rfl
  | cons item items ih =>
    rw [List.map_cons, heaviest?, heaviest?, ih]
    cases heaviest? (weight ∘ f) items with
    | none => by_cases hitem : weight (f item) = 0 <;> simp [hitem]
    | some later => by_cases hle : weight (f later) ≤ weight (f item) <;> simp [hle]

/-- An item that is not heavier than one before it is never chosen. -/
theorem heaviest?_cons_cons_of_le {first second : α} (hfirst : weight first ≠ 0)
    (h : weight second ≤ weight first) (rest : List α) :
    heaviest? weight (first :: second :: rest) = heaviest? weight (first :: rest) := by
  simp only [heaviest?]
  cases heaviest? weight rest with
  | none =>
    by_cases hsecond : weight second = 0 <;> simp [hfirst, hsecond, h]
  | some later =>
    by_cases hlater : weight later ≤ weight second
    · simp [hlater, h, hlater.trans h]
    · simp [hlater]

/-- An item that is lighter than the one after it is never chosen. -/
theorem heaviest?_cons_cons_of_lt {first second : α} (h : weight first < weight second)
    (rest : List α) :
    heaviest? weight (first :: second :: rest) = heaviest? weight (second :: rest) := by
  have hsecond : weight second ≠ 0 := Weight.pos_iff_ne_zero.mp ((Weight.zero_le _).trans_lt h)
  rw [heaviest?]
  cases hrest : heaviest? weight (second :: rest) with
  | none => exact absurd (heaviest?_eq_none_iff.mp hrest second List.mem_cons_self) hsecond
  | some later =>
    have hlater := weight_le_of_heaviest? hrest List.mem_cons_self
    exact if_neg (not_le_of_gt (h.trans_le hlater))

theorem foldl_heavierOf_some {best : α} (hbest : weight best ≠ 0) (items : List α) :
    items.foldl (heavierOf weight) (some best) = heaviest? weight (best :: items) := by
  induction items generalizing best with
  | nil =>
    rw [heaviest?]
    exact (if_neg hbest).symm
  | cons item items ih =>
    rw [List.foldl_cons, heavierOf]
    by_cases hlt : weight best < weight item
    · have hitem : weight item ≠ 0 :=
        Weight.pos_iff_ne_zero.mp ((Weight.zero_le _).trans_lt hlt)
      rw [Option.elim_some, if_pos hlt, ih hitem, heaviest?_cons_cons_of_lt hlt]
    · rw [Option.elim_some, if_neg hlt, ih hbest,
        heaviest?_cons_cons_of_le hbest (le_of_not_gt hlt)]

/-- The pass ends with the heaviest item. -/
theorem foldl_heavierOf (items : List α) :
    items.foldl (heavierOf weight) none = heaviest? weight items := by
  induction items with
  | nil => rfl
  | cons item items ih =>
    rw [List.foldl_cons]
    by_cases hitem : weight item = 0
    · rw [heavierOf_of_zero hitem, ih, heaviest?_cons_of_zero hitem]
    · have hpos : Option.elim none 0 weight < weight item := Weight.pos_iff_ne_zero.mpr hitem
      rw [heavierOf, if_pos hpos, foldl_heavierOf_some hitem]

end Scan

end StochasticGrammar
