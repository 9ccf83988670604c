import StochasticGrammar.Grammar
import StochasticGrammar.Proofs.Grammar.Agreement
import StochasticGrammar.Proofs.Weight.Arithmetic
import StochasticGrammar.Tree

/-!
# Trees and their values

A tree is a derivation of its words.  Its value is the product of the probabilities of its rules,
rounded at every node.
-/

namespace StochasticGrammar

/-! ## Trees as derivations

The value of a tree is the product of the probabilities of its rules, computed from the leaves up
with every product rounded.  A tree of positive value uses only rules of positive probability, and
these are rules that were seen under symbols that were seen.
-/

/-! ### The words of a span -/

/-- The words from position `i` to position `j`. -/
def spanWords (words : List String) (i j : Nat) : List String :=
  (words.drop i).take (j + 1 - i)

theorem length_spanWords {words : List String} {j : Nat} (i : Nat) (hj : j < words.length) :
    (spanWords words i j).length = j + 1 - i := by
  rw [spanWords, List.length_take, List.length_drop]
  omega

theorem spanWords_self {words : List String} {i : Nat} {word : String}
    (hword : words[i]? = some word) : spanWords words i i = [word] := by
  have hi := (List.getElem?_eq_some_iff.mp hword).1
  have hget : words[i] = word := (List.getElem?_eq_some_iff.mp hword).2
  rw [spanWords, Nat.add_sub_cancel_left, List.drop_eq_getElem_cons hi, List.take_succ_cons,
    List.take_zero, hget]

theorem last_lt_length {words : List String} (h : words ≠ []) :
    words.length - 1 < words.length :=
  Nat.sub_one_lt_of_lt (List.length_pos_iff.mpr h)

theorem spanWords_whole {words : List String} (h : words ≠ []) :
    spanWords words 0 (words.length - 1) = words := by
  have hlast := last_lt_length h
  rw [spanWords, List.drop_zero, List.take_of_length_le]
  omega

theorem spanWords_append {words : List String} {i point j : Nat} (hi : i ≤ point)
    (hj : point < j) :
    spanWords words i point ++ spanWords words (point + 1) j = spanWords words i j := by
  have hwidth : j + 1 - i = (point + 1 - i) + (j + 1 - (point + 1)) := by omega
  have hstart : i + (point + 1 - i) = point + 1 := by omega
  rw [spanWords, spanWords, spanWords, hwidth, List.take_add, List.drop_drop, hstart]

/-- Two parts of a span that are not empty meet at a point inside it. -/
theorem exists_point_of_append_eq_spanWords {words left right : List String} {i j : Nat}
    (hj : j < words.length) (hleft : left ≠ []) (hright : right ≠ [])
    (h : left ++ right = spanWords words i j) :
    ∃ point, i ≤ point ∧ point < j ∧ left = spanWords words i point ∧
      right = spanWords words (point + 1) j := by
  have hlength : left.length + right.length = j + 1 - i := by
    rw [← length_spanWords i hj, ← h, List.length_append]
  have hleftLength := List.length_pos_iff.mpr hleft
  have hrightLength := List.length_pos_iff.mpr hright
  have hi : i ≤ i + left.length - 1 := by omega
  have hpoint : i + left.length - 1 < j := by omega
  have happend : left ++ right =
      spanWords words i (i + left.length - 1) ++ spanWords words (i + left.length - 1 + 1) j := by
    rw [h, spanWords_append hi hpoint]
  have hsame : left.length = (spanWords words i (i + left.length - 1)).length := by
    rw [length_spanWords i (hpoint.trans hj)]
    omega
  have hparts := List.append_inj happend hsame
  exact ⟨i + left.length - 1, hi, hpoint, hparts.1, hparts.2⟩

/-! ### Values of trees -/

namespace Tree

variable (g : Grammar) (policy : RareWords)

/-- The product of the probabilities of the rules of a tree.  Words are looked up as the policy
says. -/
def value : Tree → Weight
  | leaf label word => g.unaryProbability ⟨label, policy.resolve g word⟩
  | node label left right =>
    g.binaryProbability ⟨label, left.label, right.label⟩ * left.value * right.value

/-- Every rule of the tree has a positive probability. -/
def Possible : Tree → Prop
  | leaf label word => 0 < g.unaryProbability ⟨label, policy.resolve g word⟩
  | node label left right =>
    0 < g.binaryProbability ⟨label, left.label, right.label⟩ ∧ left.Possible ∧ right.Possible

instance decidablePossible : (tree : Tree) → Decidable (tree.Possible g policy)
  | leaf label word =>
    inferInstanceAs (Decidable (0 < g.unaryProbability ⟨label, policy.resolve g word⟩))
  | node label left right =>
    have := decidablePossible left
    have := decidablePossible right
    inferInstanceAs (Decidable (0 < g.binaryProbability ⟨label, left.label, right.label⟩ ∧
      left.Possible g policy ∧ right.Possible g policy))

/-- Every rule of the tree was seen, and so was every symbol. -/
def Attested : Tree → Prop
  | leaf label word =>
    g.unaryRules.count ⟨label, policy.resolve g word⟩ ≠ 0 ∧ g.symbols.count label ≠ 0
  | node label left right =>
    g.binaryRules.count ⟨label, left.label, right.label⟩ ≠ 0 ∧ g.symbols.count label ≠ 0 ∧
      left.Attested ∧ right.Attested

/-- The tree belongs to the symbol of this number and has the words from `i` to `j` at its
leaves. -/
structure Covers (tree : Tree) (g : Grammar) (words : List String) (i j symbol : Nat) : Prop where
  label : g.symbols.key? symbol = some tree.label
  words : tree.words = spanWords words i j

variable {g policy}

theorem words_ne_nil (tree : Tree) : tree.words ≠ [] := by
  cases tree with
  | leaf label word => exact List.cons_ne_nil word []
  | node label left right =>
    intro h
    exact words_ne_nil left (List.append_eq_nil_iff.mp h).1

theorem possible_of_value_ne_zero {tree : Tree} (h : tree.value g policy ≠ 0) :
    tree.Possible g policy := by
  induction tree with
  | leaf label word => exact Weight.pos_iff_ne_zero.mpr h
  | node label left right ihLeft ihRight =>
    have hproduct := Weight.left_ne_zero_of_mul h
    have hrule := Weight.left_ne_zero_of_mul hproduct
    have hleft := Weight.right_ne_zero_of_mul hproduct
    have hright := Weight.right_ne_zero_of_mul h
    exact ⟨Weight.pos_iff_ne_zero.mpr hrule, ihLeft hleft, ihRight hright⟩

/-- A rule of positive probability was seen under a symbol that was seen. -/
theorem Possible.attested {tree : Tree} (h : tree.Possible g policy) :
    tree.Attested g policy := by
  induction tree with
  | leaf label word =>
    exact Grammar.counts_ne_zero_of_unaryProbability (Weight.pos_iff_ne_zero.mp h)
  | node label left right ihLeft ihRight =>
    have hrule := Grammar.counts_ne_zero_of_binaryProbability (Weight.pos_iff_ne_zero.mp h.1)
    exact ⟨hrule.1, hrule.2, ihLeft h.2.1, ihRight h.2.2⟩

theorem attested_of_value_ne_zero {tree : Tree} (h : tree.value g policy ≠ 0) :
    tree.Attested g policy :=
  (possible_of_value_ne_zero h).attested

theorem Attested.label_mem {tree : Tree} (h : tree.Attested g policy) :
    tree.label ∈ g.symbols := by
  cases tree with
  | leaf label word => exact Tally.mem_of_count_ne_zero h.2
  | node label left right => exact Tally.mem_of_count_ne_zero h.2.1

end Tree

/-! ## Bounds on the values of trees

The value of a tree has one factor for each rule, nearly two for each word.  It is positive for a
few words however small the probabilities of a trained grammar are, and zero for many words if no
probability is above a half.
-/

/-- No rule is more probable than the `bits`-th half of one. -/
structure Grammar.RulesHalved (g : Grammar) (bits : Nat) : Prop where
  binary : ∀ rule, (g.binaryProbability rule).units * 2 ^ bits ≤ 2 ^ Weight.onePlace
  unary : ∀ rule, (g.unaryProbability rule).units * 2 ^ bits ≤ 2 ^ Weight.onePlace

namespace Tree

/-- How many rules the tree uses. -/
def ruleCount : Tree → Nat
  | leaf _ _ => 1
  | node _ left right => 1 + left.ruleCount + right.ruleCount

theorem ruleCount_add_one (tree : Tree) : tree.ruleCount + 1 = 2 * tree.words.length := by
  induction tree with
  | leaf label word => rfl
  | node label left right ihLeft ihRight =>
    rw [ruleCount, words, List.length_append]
    omega

variable {g : Grammar} {policy : RareWords}

/-! ### Few words -/

/-- Each rule of an attested tree halves its value at most as often as a count has bits. -/
theorem two_pow_le_units_value (hg : g.Writable) {tree : Tree} (h : tree.Attested g policy)
    (hsize : Record.countBits * tree.ruleCount ≤ Weight.onePlace) :
    2 ^ (Weight.onePlace - Record.countBits * tree.ruleCount) ≤ (tree.value g policy).units := by
  induction tree with
  | leaf label word =>
    rw [ruleCount, Nat.mul_one]
    exact Grammar.two_pow_le_units_unaryProbability hg h.1 h.2
  | node label left right ihLeft ihRight =>
    rw [ruleCount, Nat.mul_add, Nat.mul_add, Nat.mul_one] at hsize ⊢
    have hleft := ihLeft h.2.2.1 (by omega)
    have hright := ihRight h.2.2.2 (by omega)
    have hrule := Grammar.two_pow_le_units_binaryProbability hg h.1 h.2.1
    have hproduct := Weight.two_pow_le_units_mul (by omega) hrule hleft
    exact Weight.two_pow_le_units_mul hsize hproduct hright

theorem value_ne_zero_of_attested (hg : g.Writable) {tree : Tree} (h : tree.Attested g policy)
    (hsize : Record.countBits * tree.ruleCount ≤ Weight.onePlace) : tree.value g policy ≠ 0 :=
  Weight.ne_zero_of_two_pow_le_units (two_pow_le_units_value hg h hsize)

/-! ### Many words -/

/-- Each rule of a tree halves its value as often as every rule is halved. -/
theorem units_value_mul_two_pow_le {bits : Nat} (hg : g.RulesHalved bits) (tree : Tree) :
    (tree.value g policy).units * 2 ^ (bits * tree.ruleCount) ≤ 2 ^ Weight.onePlace := by
  induction tree with
  | leaf label word =>
    rw [ruleCount, Nat.mul_one]
    exact hg.unary _
  | node label left right ihLeft ihRight =>
    rw [ruleCount, Nat.mul_add, Nat.mul_add, Nat.mul_one]
    have hrule := hg.binary ⟨label, left.label, right.label⟩
    have hproduct := Weight.units_mul_mul_two_pow_le hrule ihLeft
    exact Weight.units_mul_mul_two_pow_le hproduct ihRight

theorem value_eq_zero_of_lt_ruleCount {bits : Nat} (hg : g.RulesHalved bits) {tree : Tree}
    (hsize : Weight.onePlace < bits * tree.ruleCount) : tree.value g policy = 0 :=
  Weight.eq_zero_of_units_mul_two_pow_le hsize (units_value_mul_two_pow_le hg tree)

end Tree

end StochasticGrammar
