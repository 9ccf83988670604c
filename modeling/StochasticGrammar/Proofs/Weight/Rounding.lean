import Mathlib.Algebra.Order.Ring.Nat
import Mathlib.Order.Monotone.Basic
import Mathlib.Data.Nat.Log
import StochasticGrammar.Weight

/-!
# Order and rounding of weights

Codes are ordered as the numbers they stand for, and rounding to a weight keeps the order of
numbers.  What holds of products, quotients and shares of weights follows from these two facts.
-/

namespace StochasticGrammar.Weight

/-! ## The order of weights

Weights are ordered by their codes.  Consecutive codes stand for increasing numbers of units, so
comparing codes is comparing numbers, and a weight is zero exactly when it is worth no units.
-/

theorem le_iff_code_le {x y : Weight} : x ≤ y ↔ x.code ≤ y.code := Iff.rfl

theorem lt_iff_code_lt {x y : Weight} : x < y ↔ x.code < y.code := Iff.rfl

instance : LinearOrder Weight where
  le_refl x := Nat.le_refl x.code
  le_trans _ _ _ hxy hyz := Nat.le_trans hxy hyz
  lt_iff_le_not_ge _ _ := Nat.lt_iff_le_and_not_ge
  le_antisymm _ _ hxy hyx := Weight.ext (Nat.le_antisymm hxy hyx)
  le_total x y := Nat.le_total x.code y.code
  toDecidableLE := inferInstance
  toDecidableEq := inferInstance
  toDecidableLT := inferInstance
  min := min
  min_def _ _ := rfl

@[simp]
theorem code_zero : (0 : Weight).code = 0 := rfl

@[simp]
theorem zero_le (x : Weight) : 0 ≤ x :=
  Nat.zero_le x.code

theorem pos_iff_ne_zero {x : Weight} : 0 < x ↔ x ≠ 0 := by
  rw [lt_iff_code_lt, code_zero, Nat.pos_iff_ne_zero, ne_eq, ne_eq, Weight.ext_iff, code_zero]

theorem ne_zero_of_le {x y : Weight} (hx : x ≠ 0) (hxy : x ≤ y) : y ≠ 0 :=
  pos_iff_ne_zero.mp (lt_of_lt_of_le (pos_iff_ne_zero.mpr hx) hxy)

/-! ### Codes and the numbers they stand for -/

theorem fractions_eq : fractions = 4503599627370496 := rfl

theorem fractions_eq_two_pow : fractions = 2 ^ 52 := rfl

/-- A code either has exponent field zero, or splits into a field and a fraction. -/
theorem code_cases (code : Nat) :
    code < fractions ∨
      ∃ place fraction, fraction < fractions ∧ code = (place + 1) * fractions + fraction := by
  rcases Nat.lt_or_ge code fractions with h | h
  · exact Or.inl h
  · have hdiv : 1 ≤ code / fractions := Nat.div_pos h (by decide)
    have hmod : code % fractions < fractions := Nat.mod_lt _ (by decide)
    refine Or.inr ⟨code / fractions - 1, code % fractions, hmod, ?_⟩
    rw [Nat.sub_add_cancel hdiv, Nat.mul_comm, Nat.div_add_mod]

theorem units_mk_of_lt {code : Nat} (h : code < fractions) : units ⟨code⟩ = code := by
  have hexponent : exponent ⟨code⟩ = 0 := by
    simp only [exponent, Nat.div_eq_of_lt h, Nat.zero_sub]
  rw [units, hexponent, Nat.shiftLeft_zero]
  simp only [significand, h, if_true]

theorem units_mk_add {fraction : Nat} (place : Nat) (h : fraction < fractions) :
    units ⟨(place + 1) * fractions + fraction⟩ = (fractions + fraction) * 2 ^ place := by
  have hge : ¬(place + 1) * fractions + fraction < fractions := by
    rw [fractions_eq]
    omega
  have hexponent : exponent ⟨(place + 1) * fractions + fraction⟩ = place := by
    have hdiv : ((place + 1) * fractions + fraction) / fractions = place + 1 := by
      rw [fractions_eq] at h ⊢
      omega
    simp only [exponent, hdiv, Nat.add_sub_cancel]
  have hsignificand : significand ⟨(place + 1) * fractions + fraction⟩ = fractions + fraction := by
    have hmod : ((place + 1) * fractions + fraction) % fractions = fraction := by
      rw [fractions_eq] at h ⊢
      omega
    simp only [significand, hge, if_false, hmod]
  rw [units, hexponent, hsignificand, Nat.shiftLeft_eq]

theorem units_lt_units_succ (code : Nat) : units ⟨code⟩ < units ⟨code + 1⟩ := by
  rcases code_cases code with h | ⟨place, fraction, hfraction, rfl⟩
  · rw [units_mk_of_lt h]
    rcases Nat.lt_or_ge (code + 1) fractions with hnext | hnext
    · rw [units_mk_of_lt hnext]
      exact Nat.lt_succ_self code
    · have hcode : code + 1 = (0 + 1) * fractions + 0 := by omega
      rw [hcode, units_mk_add 0 (by decide)]
      omega
  · rw [units_mk_add place hfraction]
    rcases Nat.lt_or_ge (fraction + 1) fractions with hnext | hnext
    · rw [Nat.add_assoc _ fraction 1, units_mk_add place hnext]
      exact Nat.mul_lt_mul_of_pos_right (by omega) (Nat.two_pow_pos place)
    · -- The fraction is used up, and the exponent field takes the carry.
      have hcode : (place + 1) * fractions + fraction + 1 = (place + 1 + 1) * fractions + 0 := by
        rw [Nat.add_mul (place + 1) 1]
        omega
      rw [hcode, units_mk_add (place + 1) (by decide), Nat.pow_succ', ← Nat.mul_assoc]
      exact Nat.mul_lt_mul_of_pos_right (by omega) (Nat.two_pow_pos place)

theorem strictMono_units : StrictMono units := by
  intro x y hxy
  have hcodes : StrictMono fun code ↦ units ⟨code⟩ :=
    strictMono_nat_of_lt_succ units_lt_units_succ
  exact hcodes hxy

theorem units_le_units_iff {x y : Weight} : x.units ≤ y.units ↔ x ≤ y :=
  strictMono_units.le_iff_le

@[simp]
theorem units_zero : (0 : Weight).units = 0 := rfl

@[simp]
theorem units_one : (1 : Weight).units = 2 ^ onePlace := by
  have hcode : (1 : Weight) = ⟨(1022 + 1) * fractions + 0⟩ := rfl
  have hplace : onePlace = 52 + 1022 := rfl
  rw [hcode, units_mk_add 1022 (by decide), Nat.add_zero, fractions_eq_two_pow, hplace,
    Nat.pow_add]

theorem units_pos_iff {x : Weight} : 0 < x.units ↔ x ≠ 0 := by
  rw [← units_zero, strictMono_units.lt_iff_lt, pos_iff_ne_zero]

theorem ne_zero_of_two_pow_le_units {x : Weight} {k : Nat} (h : 2 ^ k ≤ x.units) : x ≠ 0 :=
  units_pos_iff.mp (Nat.lt_of_lt_of_le (Nat.two_pow_pos k) h)

/-! ## Rounding keeps the order

Rounding a quotient of natural numbers to the nearest weight never reverses the order of two
quotients and leaves numbers alone that are weights already.  The laws of products, quotients and
capped shares of weights follow from these two facts.
-/

/-! ### The nearest whole number -/

@[simp]
theorem roundHalfEven_one (n : Nat) : roundHalfEven n 1 = n := by
  simp [roundHalfEven, Nat.mod_one]

theorem roundHalfEven_mono {a b : Nat} (hab : a ≤ b) (den : Nat) :
    roundHalfEven a den ≤ roundHalfEven b den := by
  have ha := Nat.div_add_mod a den
  have hb := Nat.div_add_mod b den
  have hwhole : a / den ≤ b / den := Nat.div_le_div_right hab
  rcases Nat.lt_or_eq_of_le hwhole with hlt | heq
  · have hupper : roundHalfEven a den ≤ a / den + 1 := by
      simp only [roundHalfEven]
      split_ifs <;> omega
    have hlower : b / den ≤ roundHalfEven b den := by
      simp only [roundHalfEven]
      split_ifs <;> omega
    omega
  · -- The whole parts agree, so the remainders are in the order of the numbers.
    rw [heq] at ha
    have hrest : a % den ≤ b % den := by omega
    simp only [roundHalfEven, heq]
    split_ifs <;> omega

theorem roundHalfEven_le_roundHalfEven {num den num' den' : Nat} (hden : 0 < den)
    (hden' : 0 < den') (h : num * den' ≤ num' * den) :
    roundHalfEven num den ≤ roundHalfEven num' den' := by
  rw [← roundHalfEven_mul_right num den hden', ← roundHalfEven_mul_right num' den' hden,
    Nat.mul_comm den' den]
  exact roundHalfEven_mono h _

theorem roundHalfEven_le {num den bound : Nat} (hden : 0 < den) (h : num ≤ bound * den) :
    roundHalfEven num den ≤ bound := by
  rw [← roundHalfEven_one bound]
  exact roundHalfEven_le_roundHalfEven hden Nat.one_pos (by rwa [Nat.mul_one])

theorem le_roundHalfEven {num den bound : Nat} (hden : 0 < den) (h : bound * den ≤ num) :
    bound ≤ roundHalfEven num den := by
  rw [← roundHalfEven_one bound]
  exact roundHalfEven_le_roundHalfEven Nat.one_pos hden (by rwa [Nat.mul_one])

/-! ### The nearest weight -/

/-- The place of the last significant bit of a quotient. -/
def place (num den : Nat) : Nat :=
  (num / den).log2 - 52

theorem code_ofQuotient (num den : Nat) :
    (ofQuotient num den).code =
      place num den * fractions + roundHalfEven num (den * 2 ^ place num den) := by
  rw [← Nat.shiftLeft_eq]
  rfl

theorem place_le_place {num den num' den' : Nat} (hden : 0 < den) (hden' : 0 < den')
    (h : num * den' ≤ num' * den) : place num den ≤ place num' den' := by
  have hfloor : num / den ≤ num' / den' := by
    rw [Nat.le_div_iff_mul_le hden']
    apply Nat.le_of_mul_le_mul_right _ hden
    calc
      num / den * den' * den = num / den * den * den' := Nat.mul_right_comm _ _ _
      _ ≤ num * den' := Nat.mul_le_mul_right den' (Nat.div_mul_le_self num den)
      _ ≤ num' * den := h
  have hlog : (num / den).log2 ≤ (num' / den').log2 := by
    rw [Nat.log2_eq_log_two, Nat.log2_eq_log_two]
    exact Nat.log_mono_right hfloor
  exact Nat.sub_le_sub_right hlog 52

/-- No more than 53 bits are significant. -/
theorem roundHalfEven_place_le (num : Nat) {den : Nat} (hden : 0 < den) :
    roundHalfEven num (den * 2 ^ place num den) ≤ 2 * fractions := by
  apply roundHalfEven_le (Nat.mul_pos hden (Nat.two_pow_pos _))
  have hbits : (num / den).log2 + 1 ≤ 53 + place num den := by
    unfold place
    omega
  have hpow : 2 ^ (53 + place num den) = 2 * fractions * 2 ^ place num den := Nat.pow_add 2 53 _
  have hfloor : num / den < 2 * fractions * 2 ^ place num den :=
    calc
      num / den < 2 ^ ((num / den).log2 + 1) := Nat.lt_log2_self
      _ ≤ 2 ^ (53 + place num den) := Nat.pow_le_pow_right Nat.two_pos hbits
      _ = 2 * fractions * 2 ^ place num den := hpow
  calc
    num ≤ 2 * fractions * 2 ^ place num den * den :=
      Nat.le_of_lt ((Nat.div_lt_iff_lt_mul hden).mp hfloor)
    _ = 2 * fractions * (den * 2 ^ place num den) := by
      rw [Nat.mul_assoc, Nat.mul_comm (2 ^ place num den) den]

/-- All 53 bits are significant when the place is not the least one. -/
theorem fractions_le_roundHalfEven_place {num den : Nat} (hden : 0 < den)
    (hplace : 0 < place num den) :
    fractions ≤ roundHalfEven num (den * 2 ^ place num den) := by
  apply le_roundHalfEven (Nat.mul_pos hden (Nat.two_pow_pos _))
  have hbits : 52 + place num den = (num / den).log2 := by
    unfold place at hplace ⊢
    omega
  have hfloor : num / den ≠ 0 := by
    intro hzero
    rw [hzero, Nat.log2_zero] at hbits
    omega
  calc
    fractions * (den * 2 ^ place num den) = 2 ^ (52 + place num den) * den := by
      rw [fractions_eq_two_pow, Nat.pow_add, Nat.mul_assoc, Nat.mul_comm den]
    _ ≤ num / den * den := by
      rw [hbits]
      exact Nat.mul_le_mul_right den (Nat.log2_self_le hfloor)
    _ ≤ num := Nat.div_mul_le_self num den

theorem ofQuotient_le_ofQuotient {num den num' den' : Nat} (hden : 0 < den) (hden' : 0 < den')
    (h : num * den' ≤ num' * den) : ofQuotient num den ≤ ofQuotient num' den' := by
  rw [le_iff_code_le, code_ofQuotient, code_ofQuotient]
  rcases Nat.lt_or_eq_of_le (place_le_place hden hden' h) with hlt | heq
  · have hupper := roundHalfEven_place_le num hden
    have hlower := fractions_le_roundHalfEven_place hden' (Nat.zero_lt_of_lt hlt)
    rw [fractions_eq] at hupper hlower ⊢
    omega
  · rw [heq]
    have hpow := Nat.two_pow_pos (place num' den')
    apply Nat.add_le_add_left
    apply roundHalfEven_le_roundHalfEven (Nat.mul_pos hden hpow) (Nat.mul_pos hden' hpow)
    rw [← Nat.mul_assoc, ← Nat.mul_assoc]
    exact Nat.mul_le_mul_right _ h

/-- A weight is the weight nearest to itself. -/
theorem ofQuotient_units (x : Weight) : ofQuotient x.units 1 = x := by
  obtain ⟨code⟩ := x
  rw [Weight.ext_iff, code_ofQuotient, Nat.one_mul]
  rcases code_cases code with h | ⟨exponent, fraction, hfraction, rfl⟩
  · have hlog : code.log2 ≤ 51 := by
      by_cases hzero : code = 0
      · simp [hzero]
      · exact Nat.le_of_lt_succ ((Nat.log2_lt hzero).mpr h)
    have hplace : place code 1 = 0 := by
      rw [place, Nat.div_one]
      omega
    rw [units_mk_of_lt h, hplace, Nat.pow_zero, roundHalfEven_one, Nat.zero_mul, Nat.zero_add]
  · have hlog : ((fractions + fraction) * 2 ^ exponent).log2 = 52 + exponent := by
      have hsum : fractions + fraction ≠ 0 := by
        rw [fractions_eq]
        omega
      rw [← Nat.shiftLeft_eq, log2_shiftLeft hsum, (Nat.log2_eq_iff hsum).mpr]
      rw [fractions_eq] at hfraction ⊢
      omega
    have hplace : place ((fractions + fraction) * 2 ^ exponent) 1 = exponent := by
      rw [place, Nat.div_one, hlog]
      omega
    have hround : roundHalfEven ((fractions + fraction) * 2 ^ exponent) (2 ^ exponent) =
        fractions + fraction := by
      have hscale := roundHalfEven_mul_right (fractions + fraction) 1 (Nat.two_pow_pos exponent)
      rwa [Nat.one_mul, roundHalfEven_one] at hscale
    rw [units_mk_add exponent hfraction, hplace, hround, Nat.add_mul, Nat.one_mul]
    exact (Nat.add_assoc _ _ _).symm

theorem ofQuotient_le {num den : Nat} {x : Weight} (hden : 0 < den) (h : num ≤ x.units * den) :
    ofQuotient num den ≤ x := by
  rw [← ofQuotient_units x]
  exact ofQuotient_le_ofQuotient hden Nat.one_pos (by rwa [Nat.mul_one])

theorem le_ofQuotient {num den : Nat} {x : Weight} (hden : 0 < den) (h : x.units * den ≤ num) :
    x ≤ ofQuotient num den := by
  rw [← ofQuotient_units x]
  exact ofQuotient_le_ofQuotient Nat.one_pos hden (by rwa [Nat.mul_one])

/-- At most half a unit rounds to nothing. -/
theorem ofQuotient_eq_zero {num den : Nat} (hden : 0 < den) (h : 2 * num ≤ den) :
    ofQuotient num den = 0 := by
  have hlt : num < den := by omega
  have hwhole : num / den = 0 := Nat.div_eq_of_lt hlt
  have hplace : place num den = 0 := by
    rw [place, hwhole]
    rfl
  have hround : roundHalfEven num den = 0 := by
    simp only [roundHalfEven, hwhole, Nat.mod_eq_of_lt hlt]
    split_ifs <;> omega
  ext
  rw [code_ofQuotient, hplace, Nat.zero_mul, Nat.pow_zero, Nat.mul_one, hround]
  rfl

/-! ### Powers of two -/

theorem exists_units_eq_two_pow (k : Nat) : ∃ x : Weight, x.units = 2 ^ k := by
  rcases Nat.lt_or_ge k 52 with h | h
  · have hlt : 2 ^ k < fractions := Nat.pow_lt_pow_right (by decide) h
    exact ⟨⟨2 ^ k⟩, units_mk_of_lt hlt⟩
  · refine ⟨⟨(k - 52 + 1) * fractions + 0⟩, ?_⟩
    rw [units_mk_add (k - 52) (by decide), Nat.add_zero, fractions_eq_two_pow, ← Nat.pow_add,
      Nat.add_sub_cancel' h]

theorem two_pow_le_units_ofQuotient {num den k : Nat} (hden : 0 < den) (h : 2 ^ k * den ≤ num) :
    2 ^ k ≤ (ofQuotient num den).units := by
  obtain ⟨x, hx⟩ := exists_units_eq_two_pow k
  rw [← hx] at h ⊢
  exact units_le_units_iff.mpr (le_ofQuotient hden h)

theorem units_ofQuotient_le_two_pow {num den k : Nat} (hden : 0 < den) (h : num ≤ 2 ^ k * den) :
    (ofQuotient num den).units ≤ 2 ^ k := by
  obtain ⟨x, hx⟩ := exists_units_eq_two_pow k
  rw [← hx] at h ⊢
  exact units_le_units_iff.mpr (ofQuotient_le hden h)

end StochasticGrammar.Weight
