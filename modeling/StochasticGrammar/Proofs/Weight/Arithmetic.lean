import StochasticGrammar.Proofs.Weight.Rounding

/-!
# Products and shares of weights

Scores are products of shares.  Both round, and both keep their order and their bounds when they
do.
-/

namespace StochasticGrammar.Weight

/-! ## Products

Multiplying weights keeps their order, and a product with zero is zero.  The halvings in two factors
add up in their product without loss down to the last place, and past it nothing is left.
-/

@[simp]
theorem zero_mul (x : Weight) : 0 * x = 0 := by
  rw [mul_eq_ofQuotient, units_zero, Nat.zero_mul, ofQuotient_zero]

@[simp]
theorem mul_zero (x : Weight) : x * 0 = 0 := by
  rw [mul_eq_ofQuotient, units_zero, Nat.mul_zero, ofQuotient_zero]

theorem left_ne_zero_of_mul {x y : Weight} (h : x * y ≠ 0) : x ≠ 0 := by
  intro hx
  apply h
  rw [hx, zero_mul]

theorem right_ne_zero_of_mul {x y : Weight} (h : x * y ≠ 0) : y ≠ 0 := by
  intro hy
  apply h
  rw [hy, mul_zero]

theorem mul_le_mul {x x' y y' : Weight} (hx : x ≤ x') (hy : y ≤ y') : x * y ≤ x' * y' := by
  have hone : 0 < 1 <<< onePlace := by
    rw [Nat.one_shiftLeft]
    exact Nat.two_pow_pos onePlace
  rw [mul_eq_ofQuotient, mul_eq_ofQuotient]
  apply ofQuotient_le_ofQuotient hone hone
  apply Nat.mul_le_mul_right
  exact Nat.mul_le_mul (units_le_units_iff.mpr hx) (units_le_units_iff.mpr hy)

/-- A product with a factor of at most one does not exceed the other factor. -/
theorem mul_le_left {x y : Weight} (hy : y ≤ 1) : x * y ≤ x := by
  have hunits : y.units ≤ 2 ^ onePlace := by rwa [← units_one, units_le_units_iff]
  rw [mul_eq_ofQuotient, Nat.one_shiftLeft]
  exact ofQuotient_le (Nat.two_pow_pos onePlace) (Nat.mul_le_mul_left _ hunits)

theorem mul_le_right {x y : Weight} (hx : x ≤ 1) : x * y ≤ y := by
  have hcomm : x * y = y * x := by
    rw [mul_eq_ofQuotient, mul_eq_ofQuotient, Nat.mul_comm]
  rw [hcomm]
  exact mul_le_left hx

/-- Powers of two multiply without loss as long as the product is not below one unit. -/
theorem two_pow_le_units_mul {x y : Weight} {a b : Nat} (hab : a + b ≤ onePlace)
    (hx : 2 ^ (onePlace - a) ≤ x.units) (hy : 2 ^ (onePlace - b) ≤ y.units) :
    2 ^ (onePlace - (a + b)) ≤ (x * y).units := by
  rw [mul_eq_ofQuotient, Nat.one_shiftLeft]
  apply two_pow_le_units_ofQuotient (Nat.two_pow_pos onePlace)
  have hexponent : onePlace - (a + b) + onePlace = onePlace - a + (onePlace - b) := by omega
  calc
    2 ^ (onePlace - (a + b)) * 2 ^ onePlace = 2 ^ (onePlace - a) * 2 ^ (onePlace - b) := by
      rw [← Nat.pow_add, ← Nat.pow_add, hexponent]
    _ ≤ x.units * y.units := Nat.mul_le_mul hx hy

/-! ### Products below the last place -/

theorem le_two_pow_sub_mul {n k whole : Nat} (hk : k ≤ whole)
    (h : n * 2 ^ k ≤ 2 ^ whole * 2 ^ whole) : n ≤ 2 ^ (whole - k) * 2 ^ whole := by
  apply Nat.le_of_mul_le_mul_right _ (Nat.two_pow_pos k)
  calc
    n * 2 ^ k ≤ 2 ^ whole * 2 ^ whole := h
    _ = 2 ^ (whole - k) * 2 ^ whole * 2 ^ k := by
      rw [Nat.mul_right_comm, ← Nat.pow_add 2 (whole - k), Nat.sub_add_cancel hk]

theorem two_mul_le_two_pow {n k whole : Nat} (hk : whole < k)
    (h : n * 2 ^ k ≤ 2 ^ whole * 2 ^ whole) : 2 * n ≤ 2 ^ whole := by
  apply Nat.le_of_mul_le_mul_right _ (Nat.two_pow_pos whole)
  calc
    2 * n * 2 ^ whole = n * 2 ^ (whole + 1) := by
      rw [Nat.pow_succ', Nat.mul_comm 2 n, Nat.mul_assoc]
    _ ≤ n * 2 ^ k := Nat.mul_le_mul_left n (Nat.pow_le_pow_right Nat.two_pos hk)
    _ ≤ 2 ^ whole * 2 ^ whole := h

/-- Bounds on two factors multiply.  Below the last place the product of the bounds is zero. -/
theorem units_mul_mul_two_pow_le {x y : Weight} {a b : Nat}
    (hx : x.units * 2 ^ a ≤ 2 ^ onePlace) (hy : y.units * 2 ^ b ≤ 2 ^ onePlace) :
    (x * y).units * 2 ^ (a + b) ≤ 2 ^ onePlace := by
  have hexact : x.units * y.units * 2 ^ (a + b) ≤ 2 ^ onePlace * 2 ^ onePlace :=
    calc
      x.units * y.units * 2 ^ (a + b) = (x.units * 2 ^ a) * (y.units * 2 ^ b) := by
        rw [Nat.pow_add, Nat.mul_mul_mul_comm]
      _ ≤ 2 ^ onePlace * 2 ^ onePlace := Nat.mul_le_mul hx hy
  have hone : 0 < 2 ^ onePlace := Nat.two_pow_pos onePlace
  rw [mul_eq_ofQuotient, Nat.one_shiftLeft]
  rcases Nat.lt_or_ge onePlace (a + b) with hlt | hle
  · rw [ofQuotient_eq_zero hone (two_mul_le_two_pow hlt hexact), units_zero, Nat.zero_mul]
    exact Nat.zero_le _
  · calc
      _ ≤ 2 ^ (onePlace - (a + b)) * 2 ^ (a + b) :=
        Nat.mul_le_mul_right _ (units_ofQuotient_le_two_pow hone (le_two_pow_sub_mul hle hexact))
      _ = 2 ^ onePlace := by rw [← Nat.pow_add, Nat.sub_add_cancel hle]

/-- A weight bounded below the last place is zero. -/
theorem eq_zero_of_units_mul_two_pow_le {x : Weight} {k : Nat} (hk : onePlace < k)
    (h : x.units * 2 ^ k ≤ 2 ^ onePlace) : x = 0 := by
  by_contra hne
  have hlt : 2 ^ onePlace < 2 ^ k := Nat.pow_lt_pow_right (by decide) hk
  exact Nat.not_lt_of_le h (hlt.trans_le (Nat.le_mul_of_pos_left _ (units_pos_iff.mpr hne)))

/-! ## Shares

The share of some occurrences among a total is positive however large the total is, as long as the
exponents of weights reach below it: a share among at most the `bits`-th power of two is worth at
least the `bits`-th half of one.
-/

theorem two_pow_le_units_ofNat {n : Nat} (hn : n ≠ 0) : 2 ^ onePlace ≤ (ofNat n).units := by
  rw [ofNat_eq_ofQuotient, Nat.shiftLeft_eq]
  apply two_pow_le_units_ofQuotient Nat.one_pos
  rw [Nat.mul_one]
  exact Nat.le_mul_of_pos_left _ (Nat.pos_of_ne_zero hn)

theorem units_ofNat_le_two_pow {n bits : Nat} (hn : n ≤ 2 ^ bits) :
    (ofNat n).units ≤ 2 ^ (bits + onePlace) := by
  rw [ofNat_eq_ofQuotient, Nat.shiftLeft_eq]
  apply units_ofQuotient_le_two_pow Nat.one_pos
  rw [Nat.mul_one, Nat.pow_add]
  exact Nat.mul_le_mul_right _ hn

theorem two_pow_le_units_div {count total bits : Nat} (hcount : count ≠ 0) (htotal : total ≠ 0)
    (hbits : bits ≤ onePlace) (hbound : total ≤ 2 ^ bits) :
    2 ^ (onePlace - bits) ≤ (ofNat count / ofNat total).units := by
  have hnum := two_pow_le_units_ofNat hcount
  have hden := two_pow_le_units_ofNat htotal
  have hexponent : onePlace - bits + (bits + onePlace) = onePlace + onePlace := by omega
  change 2 ^ (onePlace - bits) ≤
    (ofQuotient ((ofNat count).units <<< onePlace) (ofNat total).units).units
  apply two_pow_le_units_ofQuotient (Nat.lt_of_lt_of_le (Nat.two_pow_pos onePlace) hden)
  calc
    2 ^ (onePlace - bits) * (ofNat total).units ≤ 2 ^ (onePlace - bits) * 2 ^ (bits + onePlace) :=
      Nat.mul_le_mul_left _ (units_ofNat_le_two_pow hbound)
    _ = 2 ^ onePlace * 2 ^ onePlace := by
      rw [← Nat.pow_add, ← Nat.pow_add, hexponent]
    _ ≤ (ofNat count).units <<< onePlace := by
      rw [Nat.shiftLeft_eq]
      exact Nat.mul_le_mul_right _ hnum

theorem relativeFrequency?_zero_right {count : Nat} (hcount : count ≠ 0) :
    relativeFrequency? count 0 = none := by
  simp [relativeFrequency?, hcount]

theorem relativeFrequency?_of_ne_zero {count total : Nat} (hcount : count ≠ 0)
    (htotal : total ≠ 0) :
    relativeFrequency? count total = some (min 1 (ofNat count / ofNat total)) := by
  simp [relativeFrequency?, hcount, htotal]

/-- Some occurrences have a share exactly if there are any in total. -/
theorem relativeFrequency?_eq_some_iff {count total : Nat} {share : Weight} (hcount : count ≠ 0) :
    relativeFrequency? count total = some share ↔
      total ≠ 0 ∧ share = (relativeFrequency? count total).getD 0 := by
  by_cases htotal : total = 0
  · subst htotal
    rw [relativeFrequency?_zero_right hcount]
    exact ⟨fun h ↦ absurd h.symm (Option.some_ne_none share), fun h ↦ absurd rfl h.1⟩
  · rw [relativeFrequency?_of_ne_zero hcount htotal, Option.some.injEq, Option.getD_some]
    exact ⟨fun h ↦ ⟨htotal, h.symm⟩, fun h ↦ h.2.symm⟩

theorem ne_zero_of_relativeFrequency? {count total : Nat}
    (h : (relativeFrequency? count total).getD 0 ≠ 0) : count ≠ 0 ∧ total ≠ 0 := by
  constructor
  · intro hcount
    apply h
    rw [hcount]
    rfl
  · intro htotal
    apply h
    rw [htotal]
    by_cases hcount : count = 0
    · rw [hcount]
      rfl
    · rw [relativeFrequency?_zero_right hcount]
      rfl

/-- A positive share is at least the least positive one among as many occurrences as fit in
`bits` bits. -/
theorem two_pow_le_units_share {count total bits : Nat} (hcount : count ≠ 0) (htotal : total ≠ 0)
    (hbits : bits ≤ onePlace) (hbound : total ≤ 2 ^ bits) :
    2 ^ (onePlace - bits) ≤ ((relativeFrequency? count total).getD 0).units := by
  rw [relativeFrequency?_of_ne_zero hcount htotal, Option.getD_some,
    strictMono_units.monotone.map_min, units_one]
  apply le_min
  · exact Nat.pow_le_pow_right Nat.two_pos (Nat.sub_le onePlace bits)
  · exact two_pow_le_units_div hcount htotal hbits hbound

/-! ## The laws of shares

Converting counts and dividing them keeps their order, although both round.  So a share grows with
the occurrences it counts and falls with the total, it is one as soon as the total is reached, and
it never leaves the range of finite numbers.
-/

section Frequency

variable {x x' y y' : Weight} {count total : Nat}

/-! ### Whole numbers and quotients -/

theorem ofNat_le_ofNat {m n : Nat} (h : m ≤ n) : ofNat m ≤ ofNat n := by
  rw [ofNat_eq_ofQuotient, ofNat_eq_ofQuotient]
  apply ofQuotient_le_ofQuotient Nat.one_pos Nat.one_pos
  rw [Nat.mul_one, Nat.mul_one, Nat.shiftLeft_eq, Nat.shiftLeft_eq]
  exact Nat.mul_le_mul_right _ h

theorem one_le_ofNat {n : Nat} (hn : n ≠ 0) : 1 ≤ ofNat n := by
  rw [← units_le_units_iff, units_one]
  exact two_pow_le_units_ofNat hn

theorem ofNat_ne_zero {n : Nat} (hn : n ≠ 0) : ofNat n ≠ 0 :=
  ne_zero_of_two_pow_le_units (two_pow_le_units_ofNat hn)

theorem div_eq_ofQuotient (x y : Weight) : x / y = ofQuotient (x.units * 2 ^ onePlace) y.units := by
  rw [← Nat.shiftLeft_eq]
  rfl

theorem div_le_div (hx : x ≤ x') (hy : y' ≤ y) (hy' : y' ≠ 0) : x / y ≤ x' / y' := by
  have hpos : 0 < y'.units := units_pos_iff.mpr hy'
  have hunits : y'.units ≤ y.units := units_le_units_iff.mpr hy
  rw [div_eq_ofQuotient, div_eq_ofQuotient]
  apply ofQuotient_le_ofQuotient (hpos.trans_le hunits) hpos
  exact Nat.mul_le_mul (Nat.mul_le_mul_right _ (units_le_units_iff.mpr hx)) hunits

theorem one_le_div (hxy : y ≤ x) (hy : y ≠ 0) : 1 ≤ x / y := by
  rw [div_eq_ofQuotient]
  apply le_ofQuotient (units_pos_iff.mpr hy)
  rw [units_one, Nat.mul_comm]
  exact Nat.mul_le_mul_right _ (units_le_units_iff.mpr hxy)

theorem div_le_self (hy : 1 ≤ y) : x / y ≤ x := by
  have hunits : 2 ^ onePlace ≤ y.units := by rwa [← units_one, units_le_units_iff]
  rw [div_eq_ofQuotient]
  apply ofQuotient_le ((Nat.two_pow_pos onePlace).trans_le hunits)
  exact Nat.mul_le_mul_left _ hunits

/-! ### Finite numbers -/

/-- The exponent field fits into eleven bits and is not the last one, which is kept for what is not
a finite number. -/
def IsFinite (x : Weight) : Prop :=
  x.code < 2047 * fractions

theorem IsFinite.of_le (hy : y.IsFinite) (hxy : x ≤ y) : x.IsFinite :=
  Nat.lt_of_le_of_lt hxy hy

theorem isFinite_of_units_le {k : Nat} (hk : k < 2046) (h : x.units ≤ 2 ^ (52 + k)) :
    x.IsFinite := by
  have hunits : units ⟨(k + 1) * fractions + 0⟩ = 2 ^ (52 + k) := by
    rw [units_mk_add k (by decide), Nat.add_zero, fractions_eq_two_pow, Nat.pow_add]
  rw [← hunits, units_le_units_iff, le_iff_code_le] at h
  unfold IsFinite
  rw [fractions_eq] at h ⊢
  dsimp only at h
  omega

theorem isFinite_ofNat {n bits : Nat} (hbits : bits < 1024) (hn : n ≤ 2 ^ bits) :
    (ofNat n).IsFinite := by
  have hexponent : bits + onePlace = 52 + (bits + 1022) := by
    unfold onePlace
    omega
  have hunits := units_ofNat_le_two_pow hn
  rw [hexponent] at hunits
  exact isFinite_of_units_le (by omega) hunits

/-! ### Shares -/

theorem relativeFrequency?_eq_none_iff :
    relativeFrequency? count total = none ↔ 0 < count ∧ total = 0 := by
  unfold relativeFrequency?
  split_ifs with hcount htotal
  · simp [hcount]
  · simp [Nat.pos_of_ne_zero hcount, htotal]
  · simp [htotal]

theorem relativeFrequency?_eq_zero_iff {bits : Nat} (hbits : bits ≤ onePlace)
    (hbound : total ≤ 2 ^ bits) : relativeFrequency? count total = some 0 ↔ count = 0 := by
  constructor
  · intro h
    by_contra hcount
    obtain ⟨htotal, hzero⟩ := (relativeFrequency?_eq_some_iff hcount).mp h
    have hunits := two_pow_le_units_share hcount htotal hbits hbound
    exact ne_zero_of_two_pow_le_units hunits hzero.symm
  · rintro rfl
    rfl

theorem relativeFrequency?_of_le (htotal : 0 < total) (h : total ≤ count) :
    relativeFrequency? count total = some 1 := by
  have htotal' := Nat.ne_of_gt htotal
  have hcount : count ≠ 0 := Nat.ne_of_gt (htotal.trans_le h)
  rw [relativeFrequency?_of_ne_zero hcount htotal',
    min_eq_left (one_le_div (ofNat_le_ofNat h) (ofNat_ne_zero htotal'))]

variable {share other : Weight}

theorem relativeFrequency?_le_one (h : relativeFrequency? count total = some share) :
    share ≤ 1 := by
  unfold relativeFrequency? at h
  split_ifs at h
  · cases h
    exact zero_le 1
  · cases h
    exact min_le_left _ _

/-- More occurrences have no smaller share of the same total. -/
theorem relativeFrequency?_mono {more : Nat} (hmore : count ≤ more)
    (h : relativeFrequency? count total = some share)
    (hother : relativeFrequency? more total = some other) : share ≤ other := by
  by_cases hcount : count = 0
  · rw [hcount] at h
    cases h
    exact zero_le other
  · have hmore' : more ≠ 0 := Nat.ne_of_gt ((Nat.pos_of_ne_zero hcount).trans_le hmore)
    obtain ⟨htotal, -⟩ := (relativeFrequency?_eq_some_iff hcount).mp h
    rw [relativeFrequency?_of_ne_zero hcount htotal] at h
    rw [relativeFrequency?_of_ne_zero hmore' htotal] at hother
    cases h
    cases hother
    exact min_le_min_left 1 (div_le_div (ofNat_le_ofNat hmore) le_rfl (ofNat_ne_zero htotal))

/-- The same occurrences have no larger share of a larger total. -/
theorem relativeFrequency?_antitone {larger : Nat} (htotal : 0 < total) (hlarger : total ≤ larger)
    (h : relativeFrequency? count total = some share)
    (hother : relativeFrequency? count larger = some other) : other ≤ share := by
  by_cases hcount : count = 0
  · rw [hcount] at hother
    cases hother
    exact zero_le share
  · have htotal' := Nat.ne_of_gt htotal
    have hlarger' := Nat.ne_of_gt (htotal.trans_le hlarger)
    rw [relativeFrequency?_of_ne_zero hcount htotal'] at h
    rw [relativeFrequency?_of_ne_zero hcount hlarger'] at hother
    cases h
    cases hother
    exact min_le_min_left 1 (div_le_div le_rfl (ofNat_le_ofNat hlarger) (ofNat_ne_zero htotal'))

end Frequency

end StochasticGrammar.Weight
