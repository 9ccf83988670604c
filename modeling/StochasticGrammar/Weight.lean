/-!
# Weights

Probabilities and scores are non-negative floating-point numbers.  They are kept as codes, so that
comparing them, rounding exact results to them and choosing the greatest of several all come down to
natural numbers.
-/

namespace StochasticGrammar

/-! ## Codes

Weights have 53 significant bits and a least positive value of one unit, the 1074th half of one.  A
weight is stored as its code: the exponent field above a fraction of 52 bits.  Codes are ordered as
the numbers they stand for, so comparing weights is comparing codes.  Every operation computes the
exact result as a quotient of natural numbers, in units, and rounds it once: to the nearest weight,
a tie going to the even code.  The exponent is not bounded above, so no operation overflows.
-/

/-- A non-negative floating-point number, given by its code. -/
@[ext]
structure Weight where
  /-- The exponent field, shifted left by 52 bits, plus the fraction. -/
  code : Nat
deriving DecidableEq, Repr

namespace Weight

instance : Zero Weight := ⟨⟨0⟩⟩

instance : One Weight := ⟨⟨1023 <<< 52⟩⟩

instance : Inhabited Weight := ⟨0⟩

instance : LE Weight := ⟨fun x y ↦ x.code ≤ y.code⟩

instance : LT Weight := ⟨fun x y ↦ x.code < y.code⟩

instance (x y : Weight) : Decidable (x ≤ y) :=
  inferInstanceAs (Decidable (x.code ≤ y.code))

instance (x y : Weight) : Decidable (x < y) :=
  inferInstanceAs (Decidable (x.code < y.code))

instance : Min Weight := minOfLe

/-- Two to this power units make one. -/
def onePlace : Nat := 1074

/-- How many fractions there are for each exponent. -/
def fractions : Nat := 1 <<< 52

/-- The significant bits as a whole number.  Weights with a positive exponent field have a leading
bit that the fraction leaves out. -/
def significand (x : Weight) : Nat :=
  if x.code < fractions then x.code else fractions + x.code % fractions

/-- The place of the last significant bit: it is worth two to this power, in units. -/
def exponent (x : Weight) : Nat :=
  x.code / fractions - 1

/-- The number a weight stands for, counted in units. -/
def units (x : Weight) : Nat :=
  x.significand <<< x.exponent

/-- The whole number nearest to `num / den`, the even one of two equally near. -/
def roundHalfEven (num den : Nat) : Nat :=
  let whole := num / den
  let rest := 2 * (num % den)
  if rest < den then whole
  else if den < rest then whole + 1
  else whole + whole % 2

/-- The weight nearest to `num / den` units.  The exponent is the least one that leaves no more
than 53 significant bits; a significand rounded up past them carries into the exponent. -/
def ofQuotient (num den : Nat) : Weight :=
  let exponent := (num / den).log2 - 52
  ⟨exponent * fractions + roundHalfEven num (den <<< exponent)⟩

/-- The weight nearest to `num / 2 ^ down * 2 ^ up` units, found without forming the larger of the
two powers: only the difference to the place of the last significant bit is shifted. -/
def ofScaled (num up down : Nat) : Weight :=
  if num = 0 then 0
  else
    let exponent := num.log2 + up - down - 52
    let place := down + exponent
    ⟨exponent * fractions + roundHalfEven (num <<< (up - place)) (1 <<< (place - up))⟩

/-- The weight nearest to a whole number. -/
def ofNat (n : Nat) : Weight :=
  ofScaled n onePlace 0

instance : Mul Weight where
  mul x y := ofScaled (x.significand * y.significand) (x.exponent + y.exponent) onePlace

instance : Div Weight where
  div x y := ofQuotient (x.units <<< onePlace) y.units

/-- The share of `count` occurrences among `total`, capped at one.  No occurrences have the share
zero; some occurrences among none have no share. -/
def relativeFrequency? (count total : Nat) : Option Weight :=
  if count = 0 then some 0
  else if total = 0 then none
  else some (min 1 (ofNat count / ofNat total))

end Weight

/-! ## Rounding depends on the value alone

A quotient is rounded alike however it is written.  So multiplying significands and adding
exponents gives the weight nearest to the exact product.
-/

namespace Weight

theorem roundHalfEven_mul_right (num den : Nat) {c : Nat} (hc : 0 < c) :
    roundHalfEven (num * c) (den * c) = roundHalfEven num den := by
  have hrest : 2 * (num % den * c) = 2 * (num % den) * c := by rw [Nat.mul_assoc]
  simp only [roundHalfEven, Nat.mul_div_mul_right _ _ hc, Nat.mul_mod_mul_right, hrest,
    Nat.mul_lt_mul_right hc]

theorem roundHalfEven_shiftLeft (num den k : Nat) :
    roundHalfEven (num <<< k) (den <<< k) = roundHalfEven num den := by
  simp only [Nat.shiftLeft_eq]
  exact roundHalfEven_mul_right num den (Nat.two_pow_pos k)

/-- Only the difference of two shifts matters. -/
theorem roundHalfEven_shiftLeft_sub (num up down : Nat) :
    roundHalfEven (num <<< (up - down)) (1 <<< (down - up)) =
      roundHalfEven (num <<< up) (1 <<< down) := by
  rcases Nat.le_total up down with h | h
  · have hdown : 1 <<< down = (1 <<< (down - up)) <<< up := by
      rw [← Nat.shiftLeft_add, Nat.sub_add_cancel h]
    rw [hdown, roundHalfEven_shiftLeft, Nat.sub_eq_zero_of_le h, Nat.shiftLeft_zero]
  · have hup : num <<< up = (num <<< (up - down)) <<< down := by
      rw [← Nat.shiftLeft_add, Nat.sub_add_cancel h]
    have hone : 1 <<< down = (1 <<< 0) <<< down := by rw [Nat.shiftLeft_zero]
    rw [hup, hone, roundHalfEven_shiftLeft, Nat.sub_eq_zero_of_le h]

theorem log2_shiftLeft {n : Nat} (hn : n ≠ 0) (k : Nat) : (n <<< k).log2 = n.log2 + k := by
  have hpos : 0 < 2 ^ k := Nat.two_pow_pos k
  have hmul : n * 2 ^ k ≠ 0 := Nat.mul_ne_zero hn (Nat.ne_of_gt hpos)
  rw [Nat.shiftLeft_eq, Nat.log2_eq_iff hmul]
  constructor
  · rw [Nat.pow_add]
    exact Nat.mul_le_mul_right _ (Nat.log2_self_le hn)
  · rw [Nat.add_right_comm, Nat.pow_add]
    exact Nat.mul_lt_mul_of_pos_right Nat.lt_log2_self hpos

theorem log2_shiftRight (n k : Nat) : (n >>> k).log2 = n.log2 - k := by
  have hpos : 0 < 2 ^ k := Nat.two_pow_pos k
  rw [Nat.shiftRight_eq_div_pow]
  by_cases h : n / 2 ^ k = 0
  · have hlt : n < 2 ^ k := by
      rw [Nat.div_eq_zero_iff] at h
      omega
    have hlog : n.log2 ≤ k := by
      by_cases hn : n = 0
      · simp [hn]
      · exact Nat.le_of_lt ((Nat.log2_lt hn).mpr hlt)
    rw [h, Nat.log2_zero, Nat.sub_eq_zero_of_le hlog]
  · have hle : 2 ^ k ≤ n := by
      rw [Nat.div_eq_zero_iff] at h
      omega
    have hn : n ≠ 0 := by omega
    have hk : k ≤ n.log2 := (Nat.le_log2 hn).mpr hle
    rw [Nat.log2_eq_iff h]
    constructor
    · rw [Nat.le_div_iff_mul_le hpos, ← Nat.pow_add, Nat.sub_add_cancel hk]
      exact Nat.log2_self_le hn
    · rw [Nat.div_lt_iff_lt_mul hpos, ← Nat.pow_add]
      have hexp : n.log2 - k + 1 + k = n.log2 + 1 := by omega
      rw [hexp]
      exact Nat.lt_log2_self

@[simp]
theorem ofQuotient_zero (den : Nat) : ofQuotient 0 den = 0 := by
  have hlog : Nat.log2 0 - 52 = 0 := by rw [Nat.log2_zero]
  simp only [ofQuotient, Nat.zero_div, hlog, roundHalfEven, Nat.zero_mod, Nat.shiftLeft_zero]
  ext
  by_cases hden : 0 < den <;> simp [hden] <;> rfl

theorem ofScaled_eq_ofQuotient (num up down : Nat) :
    ofScaled num up down = ofQuotient (num <<< up) (1 <<< down) := by
  by_cases hnum : num = 0
  · simp [ofScaled, hnum]
  · have hlog : (num <<< up / 1 <<< down).log2 = num.log2 + up - down := by
      rw [Nat.one_shiftLeft, ← Nat.shiftRight_eq_div_pow, log2_shiftRight, log2_shiftLeft hnum]
    simp only [ofScaled, ofQuotient, hnum, if_false, hlog, roundHalfEven_shiftLeft_sub,
      ← Nat.shiftLeft_add]

theorem mul_eq_ofQuotient (x y : Weight) :
    x * y = ofQuotient (x.units * y.units) (1 <<< onePlace) := by
  have hunits : x.units * y.units =
      (x.significand * y.significand) <<< (x.exponent + y.exponent) := by
    simp only [units, Nat.shiftLeft_eq, Nat.pow_add]
    ac_rfl
  rw [hunits]
  exact ofScaled_eq_ofQuotient _ _ _

theorem ofNat_eq_ofQuotient (n : Nat) : ofNat n = ofQuotient (n <<< onePlace) 1 :=
  ofScaled_eq_ofQuotient n onePlace 0

end Weight

/-! ## The heaviest item of a list

Charts keep the best derivation of a span and parses start from the best root.  Both choose the
first item that attains the greatest weight, and neither chooses an item of weight zero.
-/

/-- The first item of greatest weight, or `none` if no item has a positive weight. -/
def heaviest? {α : Type} (weight : α → Weight) : List α → Option α
  | [] => none
  | item :: rest =>
    match heaviest? weight rest with
    | none => if weight item = 0 then none else some item
    | some later => if weight later ≤ weight item then some item else some later

end StochasticGrammar
