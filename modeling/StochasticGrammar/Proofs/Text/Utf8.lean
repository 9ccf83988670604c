import Mathlib.Algebra.Order.Ring.Nat
import StochasticGrammar.Proofs.Text.Pieces
import StochasticGrammar.Text.Reading

/-!
# Bytes and characters

What is written in UTF-8 is read back, and a line feed is read from its own byte alone, whether or
not the bytes around it are UTF-8.
-/

namespace StochasticGrammar.Text.Utf8

/-! ## Writing UTF-8

Reading the bytes of a text gives its characters back, with no broken stretch among them.  A line
feed takes one byte, which no other character has among its bytes, so the lines of a text can be
found in its bytes.
-/

section Writing

/-- The bytes of a text. -/
def encode (text : List Char) : List UInt8 :=
  text.flatMap String.utf8EncodeChar

theorem encode_cons (c : Char) (text : List Char) :
    encode (c :: text) = String.utf8EncodeChar c ++ encode text := rfl

theorem encode_append (text rest : List Char) :
    encode (text ++ rest) = encode text ++ encode rest :=
  List.flatMap_append

/-! ### Reading one character -/

theorem toNat_ofNat {n : Nat} (h : n < 256) : (UInt8.ofNat n).toNat = n := by
  rw [UInt8.toNat_ofNat']
  exact Nat.mod_eq_of_lt h

theorem scan_whole {byte : UInt8} {c : Char} (h : lead byte.toNat = .whole c)
    (rest : List UInt8) : scan none (byte :: rest) = some c :: scan none rest := by
  rw [scan, step, step.start, h]
  rfl

theorem scan_first {byte : UInt8} {u : Unfinished} (h : lead byte.toNat = .first u)
    (rest : List UInt8) : scan none (byte :: rest) = scan (some u) rest := by
  rw [scan, step, step.start, h]
  rfl

/-! #### The next byte of an unfinished character -/

variable {u : Unfinished} {byte : UInt8}

/-- The byte may follow. -/
def Unfinished.Fits (u : Unfinished) (byte : UInt8) : Prop :=
  u.low ≤ byte.toNat ∧ byte.toNat ≤ u.high

theorem scan_of_not_fits (h : ¬u.Fits byte) (rest : List UInt8) :
    scan (some u) (byte :: rest) = none :: scan none (byte :: rest) := by
  unfold Unfinished.Fits at h
  rw [scan, step]
  simp only [if_neg h]
  rfl

theorem scan_of_fits_of_last (h : u.Fits byte) (hafter : u.afterNext = 0) (rest : List UInt8) :
    scan (some u) (byte :: rest) =
      some (Char.ofNat (u.bits * 64 + byte.toNat % 64)) :: scan none rest := by
  unfold Unfinished.Fits at h
  rw [scan, step]
  simp only [if_pos h, hafter]
  rfl

theorem scan_of_fits_of_next {awaited : Nat} (h : u.Fits byte)
    (hafter : u.afterNext = awaited + 1) (rest : List UInt8) :
    scan (some u) (byte :: rest) =
      scan (some ⟨u.bits * 64 + byte.toNat % 64, awaited, 0x80, 0xBF⟩) rest := by
  unfold Unfinished.Fits at h
  rw [scan, step]
  simp only [if_pos h, hafter]
  rfl

variable {bits awaited low high m n : Nat}

/-- A byte with six bits follows where its value is allowed. -/
theorem fits_ofNat {rest : Nat} (hlow : low ≤ m % 64 + 128) (hhigh : m % 64 + 128 ≤ high) :
    Unfinished.Fits ⟨bits, rest, low, high⟩ (UInt8.ofNat (m % 64 + 128)) := by
  have hbyte : (UInt8.ofNat (m % 64 + 128)).toNat = m % 64 + 128 := toNat_ofNat (by omega)
  unfold Unfinished.Fits
  rw [hbyte]
  exact ⟨hlow, hhigh⟩

theorem toNat_ofNat_mod (m : Nat) : (UInt8.ofNat (m % 64 + 128)).toNat % 64 = m % 64 := by
  rw [toNat_ofNat (by omega)]
  omega

/-- A byte with six more bits, where further bytes are awaited. -/
theorem scan_next (hlow : low ≤ m % 64 + 128) (hhigh : m % 64 + 128 ≤ high)
    (rest : List UInt8) :
    scan (some ⟨bits, awaited + 1, low, high⟩) (UInt8.ofNat (m % 64 + 128) :: rest) =
      scan (some ⟨bits * 64 + m % 64, awaited, 0x80, 0xBF⟩) rest := by
  rw [scan_of_fits_of_next (fits_ofNat hlow hhigh) rfl, toNat_ofNat_mod]

/-- The byte with the last six bits. -/
theorem scan_last (bits m : Nat) (rest : List UInt8) :
    scan (some ⟨bits, 0, 0x80, 0xBF⟩) (UInt8.ofNat (m % 64 + 128) :: rest) =
      some (Char.ofNat (bits * 64 + m % 64)) :: scan none rest := by
  have hfits : Unfinished.Fits ⟨bits, 0, 0x80, 0xBF⟩ (UInt8.ofNat (m % 64 + 128)) :=
    fits_ofNat (by omega) (by omega)
  rw [scan_of_fits_of_last hfits rfl, toNat_ofNat_mod]

/-! #### By the number of bytes -/

theorem scan_one (h : n < 0x80) (rest : List UInt8) :
    scan none (UInt8.ofNat n :: rest) = some (Char.ofNat n) :: scan none rest := by
  have hbyte : (UInt8.ofNat n).toNat = n := toNat_ofNat (by omega)
  apply scan_whole
  rw [hbyte, lead, if_pos h]

theorem scan_two (hlow : 0x80 ≤ n) (hhigh : n < 0x800) (rest : List UInt8) :
    scan none (UInt8.ofNat (n / 64 % 32 + 192) :: UInt8.ofNat (n % 64 + 128) :: rest) =
      some (Char.ofNat n) :: scan none rest := by
  have hbyte : (UInt8.ofNat (n / 64 % 32 + 192)).toNat = n / 64 + 192 := by
    rw [toNat_ofNat (by omega)]
    omega
  have hlead : lead (n / 64 + 192) = .first ⟨n / 64, 0, 0x80, 0xBF⟩ := by
    rw [lead, if_neg (by omega), if_neg (by omega), if_pos (by omega), Nat.add_sub_cancel]
  have hbits : n / 64 * 64 + n % 64 = n := by omega
  rw [← hbyte] at hlead
  rw [scan_first hlead, scan_last, hbits]

theorem scan_three (hlow : 0x800 ≤ n) (hhigh : n < 0x10000)
    (hvalid : n < 0xD800 ∨ 0xDFFF < n) (rest : List UInt8) :
    scan none (UInt8.ofNat (n / 4096 % 16 + 224) :: UInt8.ofNat (n / 64 % 64 + 128) ::
      UInt8.ofNat (n % 64 + 128) :: rest) = some (Char.ofNat n) :: scan none rest := by
  have hbyte : (UInt8.ofNat (n / 4096 % 16 + 224)).toNat = n / 4096 + 224 := by
    rw [toNat_ofNat (by omega)]
    omega
  have hlead : lead (n / 4096 + 224) = .first ⟨n / 4096, 1,
      if n / 4096 + 224 = 0xE0 then 0xA0 else 0x80,
      if n / 4096 + 224 = 0xED then 0x9F else 0xBF⟩ := by
    rw [lead, if_neg (by omega), if_neg (by omega), if_neg (by omega), if_pos (by omega),
      Nat.add_sub_cancel]
  -- The two narrower ranges leave out what fits in two bytes and the surrogates.
  have hnextLow : (if n / 4096 + 224 = 0xE0 then 0xA0 else 0x80) ≤ n / 64 % 64 + 128 := by
    split <;> omega
  have hnextHigh : n / 64 % 64 + 128 ≤ if n / 4096 + 224 = 0xED then 0x9F else 0xBF := by
    split <;> omega
  have hbits : (n / 4096 * 64 + n / 64 % 64) * 64 + n % 64 = n := by omega
  rw [← hbyte] at hlead
  rw [scan_first hlead, hbyte, scan_next hnextLow hnextHigh, scan_last, hbits]

theorem scan_four (hlow : 0x10000 ≤ n) (hhigh : n < 0x110000) (rest : List UInt8) :
    scan none (UInt8.ofNat (n / 262144 % 8 + 240) :: UInt8.ofNat (n / 4096 % 64 + 128) ::
      UInt8.ofNat (n / 64 % 64 + 128) :: UInt8.ofNat (n % 64 + 128) :: rest) =
      some (Char.ofNat n) :: scan none rest := by
  have hbyte : (UInt8.ofNat (n / 262144 % 8 + 240)).toNat = n / 262144 + 240 := by
    rw [toNat_ofNat (by omega)]
    omega
  have hlead : lead (n / 262144 + 240) = .first ⟨n / 262144, 2,
      if n / 262144 + 240 = 0xF0 then 0x90 else 0x80,
      if n / 262144 + 240 = 0xF4 then 0x8F else 0xBF⟩ := by
    rw [lead, if_neg (by omega), if_neg (by omega), if_neg (by omega), if_neg (by omega),
      if_pos (by omega), Nat.add_sub_cancel]
  -- The two narrower ranges leave out what fits in three bytes and what lies beyond Unicode.
  have hnextLow : (if n / 262144 + 240 = 0xF0 then 0x90 else 0x80) ≤ n / 4096 % 64 + 128 := by
    split <;> omega
  have hnextHigh : n / 4096 % 64 + 128 ≤ if n / 262144 + 240 = 0xF4 then 0x8F else 0xBF := by
    split <;> omega
  have hthird : 0x80 ≤ n / 64 % 64 + 128 ∧ n / 64 % 64 + 128 ≤ 0xBF := by omega
  have hbits : ((n / 262144 * 64 + n / 4096 % 64) * 64 + n / 64 % 64) * 64 + n % 64 = n := by
    omega
  rw [← hbyte] at hlead
  rw [scan_first hlead, hbyte, scan_next hnextLow hnextHigh, scan_next hthird.1 hthird.2,
    scan_last, hbits]

theorem scan_utf8EncodeChar (c : Char) (rest : List UInt8) :
    scan none (String.utf8EncodeChar c ++ rest) = some c :: scan none rest := by
  have hvalid : c.toNat < 0xD800 ∨ 0xDFFF < c.toNat ∧ c.toNat < 0x110000 := c.valid
  have hvalue : c.val.toNat = c.toNat := rfl
  have hc : some (Char.ofNat c.toNat) :: scan none rest = some c :: scan none rest := by
    rw [Char.ofNat_toNat]
  rw [← hc]
  unfold String.utf8EncodeChar
  simp only [hvalue]
  split_ifs with hone htwo hthree
  · exact scan_one (by omega) rest
  · exact scan_two (by omega) (by omega) rest
  · exact scan_three (by omega) (by omega) (by omega) rest
  · exact scan_four (by omega) (by omega) rest

/-! ### Reading a text -/

theorem decode_encode (text : List Char) : decode (encode text) = text.map some := by
  unfold decode
  induction text with
  | nil => rfl
  | cons c text ih => rw [encode_cons, scan_utf8EncodeChar, ih, List.map_cons]

theorem decodeStrict?_encode (text : List Char) : decodeStrict? (encode text) = some text := by
  rw [decodeStrict?, decode_encode, List.mapM_map]
  exact (List.mapM_pure (f := id)).trans (congrArg some (List.map_id text))

/-! ### Lines -/

/-- No character but the line feed has the byte of the line feed. -/
theorem lineFeed_not_mem_utf8EncodeChar {c : Char} (hc : c ≠ '\n') :
    lineFeed ∉ String.utf8EncodeChar c := by
  have hvalue : c.val.toNat = c.toNat := rfl
  have hne : c.toNat ≠ 10 := by
    intro h
    apply hc
    rw [← Char.ofNat_toNat c, h]
  have hbyte : ∀ m, m < 256 → m ≠ 10 → lineFeed ≠ UInt8.ofNat m := by
    intro m hm hten heq
    have htoNat := congrArg UInt8.toNat heq
    rw [toNat_ofNat hm] at htoNat
    exact hten htoNat.symm
  unfold String.utf8EncodeChar
  simp only [hvalue]
  split_ifs with hone htwo hthree <;>
    simp only [List.mem_cons, List.not_mem_nil, or_false, not_or]
  · exact hbyte _ (by omega) hne
  · exact ⟨hbyte _ (by omega) (by omega), hbyte _ (by omega) (by omega)⟩
  · exact ⟨hbyte _ (by omega) (by omega), hbyte _ (by omega) (by omega),
      hbyte _ (by omega) (by omega)⟩
  · exact ⟨hbyte _ (by omega) (by omega), hbyte _ (by omega) (by omega),
      hbyte _ (by omega) (by omega), hbyte _ (by omega) (by omega)⟩

theorem lineFeed_not_mem_encode {text : List Char} (h : '\n' ∉ text) : lineFeed ∉ encode text := by
  intro hmem
  obtain ⟨c, hc, hbyte⟩ := List.mem_flatMap.mp hmem
  refine lineFeed_not_mem_utf8EncodeChar ?_ hbyte
  rintro rfl
  exact h hc

theorem lineFeed_mem_encode {text : List Char} (h : '\n' ∈ text) : lineFeed ∈ encode text := by
  have hfeed : lineFeed ∈ String.utf8EncodeChar '\n' := by decide
  exact List.mem_flatMap.mpr ⟨'\n', h, hfeed⟩

theorem encode_eq_nil_iff {text : List Char} : encode text = [] ↔ text = [] := by
  cases text with
  | nil => exact iff_of_true rfl rfl
  | cons c text =>
    rw [encode_cons, List.append_eq_nil_iff]
    simp [String.utf8EncodeChar_ne_nil]

/-- The lines of a text are found in its bytes, one by one. -/
theorem lines_encode_append {line : List Char} (h : '\n' ∉ line) (rest : List Char) :
    lines (· = lineFeed) (encode (line ++ ['\n'] ++ rest)) =
      encode line :: lines (· = lineFeed) (encode rest) := by
  have hfeed : encode ['\n'] = [lineFeed] := rfl
  rw [encode_append, encode_append, hfeed, List.append_assoc]
  have hbreak := isBreak_of_not_mem (lineFeed_not_mem_encode h)
  exact lines_append_cons hbreak (decide_eq_true rfl) (encode rest)

theorem lines_encode {line : List Char} (h : '\n' ∉ line) (hline : line ≠ []) :
    lines (· = lineFeed) (encode line) = [encode line] :=
  lines_of_no_break (isBreak_of_not_mem (lineFeed_not_mem_encode h))
    (mt encode_eq_nil_iff.mp hline)

end Writing

/-! ## Reading bytes that need not be UTF-8

Every character of more than one byte lies beyond the characters of one byte, and the bytes after
the first lie beyond them as well.  A line feed is therefore read from its own byte alone, whatever
surrounds it, and a line without that byte is read as one line.
-/

section Lossy

/-- The least number that can still come out: every byte to come is as low as it may be. -/
def Unfinished.least (u : Unfinished) : Nat :=
  (u.bits * 64 + (u.low - 0x80)) * 64 ^ u.afterNext

/-- The bytes to come continue a character, which is none of one byte. -/
structure Unfinished.IsLong (u : Unfinished) : Prop where
  low : 0x80 ≤ u.low
  high : u.high ≤ 0xBF
  least : 0x80 ≤ u.least

variable {u : Unfinished} {byte : Nat}

/-- The first byte says enough: where its own bits may all be zero, those of the next byte are
not. -/
theorem isLong_of_lead (h : lead byte = .first u) : u.IsLong := by
  unfold lead at h
  split_ifs at h <;> simp only [Lead.first.injEq] at h <;> subst h
  all_goals
    refine ⟨?_, ?_, ?_⟩ <;> simp only [Unfinished.least] <;> omega

namespace Unfinished.IsLong

/-- The number so far only grows with the next byte. -/
theorem least_le (h : u.IsLong) (hlow : u.low ≤ byte) (hhigh : byte ≤ u.high) :
    u.least ≤ (u.bits * 64 + byte % 64) * 64 ^ u.afterNext := by
  have hu := h.low
  have hb := h.high
  apply Nat.mul_le_mul_right
  omega

theorem next {afterNext : Nat} (h : u.IsLong) (hlow : u.low ≤ byte) (hhigh : byte ≤ u.high)
    (hafter : u.afterNext = afterNext + 1) :
    IsLong ⟨u.bits * 64 + byte % 64, afterNext, 0x80, 0xBF⟩ where
  low := le_rfl
  high := le_rfl
  least := by
    have hleast := h.least.trans (h.least_le hlow hhigh)
    simp only [Unfinished.least, Nat.sub_self, Nat.add_zero]
    rwa [hafter, pow_succ', ← Nat.mul_assoc] at hleast

theorem last (h : u.IsLong) (hlow : u.low ≤ byte) (hhigh : byte ≤ u.high)
    (hafter : u.afterNext = 0) : 0x80 ≤ u.bits * 64 + byte % 64 := by
  have hleast := h.least.trans (h.least_le hlow hhigh)
  rwa [hafter, pow_zero, Nat.mul_one] at hleast

end Unfinished.IsLong

theorem ofNat_ne_lineFeed {n : Nat} (h : n ≠ 10) : Char.ofNat n ≠ '\n' := by
  intro heq
  by_cases hvalid : n.isValidChar
  · have hchar : Char.ofNat n = Char.ofNatAux n hvalid := dif_pos hvalid
    exact h (congrArg Char.toNat (hchar.symm.trans heq))
  · have hchar : Char.ofNat n = '\x00' := dif_neg hvalid
    exact absurd (hchar.symm.trans heq) (by decide)

/-- What a step leaves behind when its byte is not a line feed. -/
structure KeepsLine (result : List (Option Char) × Option Unfinished) : Prop where
  found : some '\n' ∉ result.1
  isLong : ∀ u ∈ result.2, u.IsLong

theorem keepsLine_start (hbyte : byte ≠ 10) : KeepsLine (step.start byte) := by
  unfold step.start
  cases hlead : lead byte with
  | whole char =>
    refine ⟨?_, fun u hu ↦ by cases hu⟩
    unfold lead at hlead
    split_ifs at hlead
    cases hlead
    rw [List.mem_singleton, Option.some.injEq]
    exact (ofNat_ne_lineFeed hbyte).symm
  | first u =>
    refine ⟨List.not_mem_nil, ?_⟩
    intro other hother
    cases hother
    exact isLong_of_lead hlead
  | stray =>
    refine ⟨by simp, fun u hu ↦ by cases hu⟩

theorem keepsLine_step {unfinished : Option Unfinished} (h : ∀ u ∈ unfinished, u.IsLong)
    (hbyte : byte ≠ 10) : KeepsLine (step unfinished byte) := by
  cases unfinished with
  | none => exact keepsLine_start hbyte
  | some u =>
    have hu := h u rfl
    unfold step
    dsimp only
    split_ifs with hrange
    · cases hafter : u.afterNext with
      | zero =>
        have hlast := hu.last hrange.1 hrange.2 hafter
        refine ⟨?_, fun u hu ↦ by cases hu⟩
        rw [List.mem_singleton, Option.some.injEq]
        exact (ofNat_ne_lineFeed (by omega)).symm
      | succ n =>
        refine ⟨List.not_mem_nil, ?_⟩
        intro other hother
        cases hother
        exact hu.next hrange.1 hrange.2 hafter
    · have hstart := keepsLine_start hbyte
      refine ⟨?_, hstart.isLong⟩
      rw [List.mem_cons, not_or]
      exact ⟨by simp, hstart.found⟩

theorem lineFeed_not_mem_scan {bytes : List UInt8} {unfinished : Option Unfinished}
    (h : ∀ u ∈ unfinished, u.IsLong) (hbytes : lineFeed ∉ bytes) :
    some '\n' ∉ scan unfinished bytes := by
  -- By induction on the bytes, with every unfinished character a long one.
  induction bytes generalizing unfinished with
  | nil => cases unfinished <;> simp [scan]
  | cons byte bytes ih =>
    rw [List.mem_cons, not_or] at hbytes
    have hbyte : byte.toNat ≠ 10 := by
      intro heq
      exact hbytes.1 (UInt8.toNat_inj.mp heq).symm
    have hstep := keepsLine_step h hbyte
    rw [scan, List.mem_append, not_or]
    exact ⟨hstep.found, ih hstep.isLong hbytes.2⟩

/-- A line without the byte of the line feed is read without a line feed. -/
theorem lineFeed_not_mem_decodeLossy {bytes : List UInt8} (h : lineFeed ∉ bytes) :
    '\n' ∉ decodeLossy bytes := by
  intro hmem
  obtain ⟨char?, hchar, heq⟩ := List.mem_map.mp hmem
  cases char? with
  | none => exact absurd heq (by decide)
  | some c =>
    cases heq
    exact lineFeed_not_mem_scan (fun u hu ↦ by cases hu) h hchar

end Lossy

end StochasticGrammar.Text.Utf8
