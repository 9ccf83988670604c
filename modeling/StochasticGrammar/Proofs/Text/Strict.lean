import StochasticGrammar.Proofs.Text.Utf8

/-!
# Strict reading accepts exactly what is written

Bytes without a broken stretch are those of a text, and only one text is written with them.  The
first byte of a character says how many bytes follow it, and every number that the bits of these
bytes can make is a character that takes as many bytes to write.
-/

namespace StochasticGrammar.Text.Utf8

/-! ## Writing one character -/

variable {n : Nat}

theorem toNat_char_ofNat (h : n < 0xD800 ∨ 0xDFFF < n ∧ n < 0x110000) :
    (Char.ofNat n).toNat = n := by
  have hvalid : n.isValidChar := h
  have hchar : Char.ofNat n = Char.ofNatAux n hvalid := dif_pos hvalid
  rw [hchar]
  rfl

theorem utf8EncodeChar_one (h : n < 0x80) :
    String.utf8EncodeChar (Char.ofNat n) = [UInt8.ofNat n] := by
  have hvalue : (Char.ofNat n).val.toNat = n := toNat_char_ofNat (by omega)
  unfold String.utf8EncodeChar
  simp only [hvalue]
  rw [if_pos (by omega)]

theorem utf8EncodeChar_two (hlow : 0x80 ≤ n) (hhigh : n < 0x800) :
    String.utf8EncodeChar (Char.ofNat n) =
      [UInt8.ofNat (n / 64 % 32 + 192), UInt8.ofNat (n % 64 + 128)] := by
  have hvalue : (Char.ofNat n).val.toNat = n := toNat_char_ofNat (by omega)
  unfold String.utf8EncodeChar
  simp only [hvalue]
  rw [if_neg (by omega), if_pos (by omega)]

theorem utf8EncodeChar_three (hlow : 0x800 ≤ n) (hhigh : n < 0x10000)
    (hvalid : n < 0xD800 ∨ 0xDFFF < n) :
    String.utf8EncodeChar (Char.ofNat n) =
      [UInt8.ofNat (n / 4096 % 16 + 224), UInt8.ofNat (n / 64 % 64 + 128),
        UInt8.ofNat (n % 64 + 128)] := by
  have hvalue : (Char.ofNat n).val.toNat = n := toNat_char_ofNat (by omega)
  unfold String.utf8EncodeChar
  simp only [hvalue]
  rw [if_neg (by omega), if_neg (by omega), if_pos (by omega)]

theorem utf8EncodeChar_four (hlow : 0x10000 ≤ n) (hhigh : n < 0x110000) :
    String.utf8EncodeChar (Char.ofNat n) =
      [UInt8.ofNat (n / 262144 % 8 + 240), UInt8.ofNat (n / 4096 % 64 + 128),
        UInt8.ofNat (n / 64 % 64 + 128), UInt8.ofNat (n % 64 + 128)] := by
  have hvalue : (Char.ofNat n).val.toNat = n := toNat_char_ofNat (by omega)
  unfold String.utf8EncodeChar
  simp only [hvalue]
  rw [if_neg (by omega), if_neg (by omega), if_neg (by omega)]

/-! ## One byte without a broken stretch -/

/-- The first byte of a longer character is in one of three ranges. -/
theorem lead_eq_first {byte : Nat} {u : Unfinished} (h : lead byte = .first u) :
    (0xC2 ≤ byte ∧ byte < 0xE0 ∧ u = ⟨byte - 0xC0, 0, 0x80, 0xBF⟩) ∨
    (0xE0 ≤ byte ∧ byte < 0xF0 ∧ u = ⟨byte - 0xE0, 1, if byte = 0xE0 then 0xA0 else 0x80,
      if byte = 0xED then 0x9F else 0xBF⟩) ∨
    (0xF0 ≤ byte ∧ byte < 0xF5 ∧ u = ⟨byte - 0xF0, 2, if byte = 0xF0 then 0x90 else 0x80,
      if byte = 0xF4 then 0x8F else 0xBF⟩) := by
  have hone : ¬byte < 0x80 := by
    intro hlt
    rw [lead, if_pos hlt] at h
    cases h
  have hstray : ¬byte < 0xC2 := by
    intro hlt
    rw [lead, if_neg hone, if_pos hlt] at h
    cases h
  rw [lead, if_neg hone, if_neg hstray] at h
  by_cases htwo : byte < 0xE0
  · rw [if_pos htwo] at h
    exact Or.inl ⟨by omega, htwo, (Lead.first.inj h).symm⟩
  · rw [if_neg htwo] at h
    by_cases hthree : byte < 0xF0
    · rw [if_pos hthree] at h
      exact Or.inr (Or.inl ⟨by omega, hthree, (Lead.first.inj h).symm⟩)
    · rw [if_neg hthree] at h
      by_cases hfour : byte < 0xF5
      · rw [if_pos hfour] at h
        exact Or.inr (Or.inr ⟨by omega, hfour, (Lead.first.inj h).symm⟩)
      · rw [if_neg hfour] at h
        cases h

variable {u : Unfinished} {bytes rest : List UInt8} {byte : UInt8} {text : List Char}

/-- The next byte of an unfinished character is there and is one that may follow. -/
theorem exists_next_of_scan (h : scan (some u) bytes = text.map some) :
    ∃ byte rest, bytes = byte :: rest ∧ u.Fits byte := by
  cases bytes with
  | nil => cases text <;> cases h
  | cons byte rest =>
    refine ⟨byte, rest, rfl, ?_⟩
    by_contra hfits
    rw [scan_of_not_fits hfits] at h
    cases text <;> cases h

theorem scan_awaited {awaited : Nat} (h : scan (some u) (byte :: rest) = text.map some)
    (hfits : u.Fits byte) (hafter : u.afterNext = awaited + 1) :
    scan (some ⟨u.bits * 64 + byte.toNat % 64, awaited, 0x80, 0xBF⟩) rest = text.map some := by
  rw [← scan_of_fits_of_next hfits hafter, h]

theorem exists_text_of_scan (h : scan (some u) (byte :: rest) = text.map some)
    (hfits : u.Fits byte) (hafter : u.afterNext = 0) :
    ∃ later, text = Char.ofNat (u.bits * 64 + byte.toNat % 64) :: later ∧
      scan none rest = later.map some := by
  rw [scan_of_fits_of_last hfits hafter] at h
  cases text with
  | nil => cases h
  | cons c later =>
    rw [List.map_cons, List.cons.injEq, Option.some.injEq] at h
    exact ⟨later, by rw [h.1], h.2⟩

/-! ## Reading one character by the number of its bytes -/

theorem ofNat_eq_of_toNat (byte : UInt8) (h : n = byte.toNat) : UInt8.ofNat n = byte := by
  rw [h, UInt8.ofNat_toNat]

variable {first second third fourth : UInt8}

theorem utf8EncodeChar_of_two (hlead : 0xC2 ≤ first.toNat) (hfirst : first.toNat < 0xE0)
    (hlow : 0x80 ≤ second.toNat) (hhigh : second.toNat ≤ 0xBF) :
    String.utf8EncodeChar (Char.ofNat ((first.toNat - 0xC0) * 64 + second.toNat % 64)) =
      [first, second] := by
  rw [utf8EncodeChar_two (by omega) (by omega), ofNat_eq_of_toNat first (by omega),
    ofNat_eq_of_toNat second (by omega)]

theorem utf8EncodeChar_of_three (hlead : 0xE0 ≤ first.toNat) (hfirst : first.toNat < 0xF0)
    (hnextLow : (if first.toNat = 0xE0 then 0xA0 else 0x80) ≤ second.toNat)
    (hnextHigh : second.toNat ≤ if first.toNat = 0xED then 0x9F else 0xBF)
    (hlow : 0x80 ≤ third.toNat) (hhigh : third.toNat ≤ 0xBF) :
    String.utf8EncodeChar (Char.ofNat
      (((first.toNat - 0xE0) * 64 + second.toNat % 64) * 64 + third.toNat % 64)) =
      [first, second, third] := by
  -- The narrower ranges of the second byte keep out shorter characters and surrogates.
  have hsecond : 0x80 ≤ second.toNat ∧ second.toNat ≤ 0xBF ∧
      (first.toNat = 0xE0 → 0xA0 ≤ second.toNat) ∧
      (first.toNat = 0xED → second.toNat ≤ 0x9F) := by
    split_ifs at hnextLow hnextHigh <;> omega
  rw [utf8EncodeChar_three (by omega) (by omega) (by omega),
    ofNat_eq_of_toNat first (by omega), ofNat_eq_of_toNat second (by omega),
    ofNat_eq_of_toNat third (by omega)]

theorem utf8EncodeChar_of_four (hlead : 0xF0 ≤ first.toNat) (hfirst : first.toNat < 0xF5)
    (hnextLow : (if first.toNat = 0xF0 then 0x90 else 0x80) ≤ second.toNat)
    (hnextHigh : second.toNat ≤ if first.toNat = 0xF4 then 0x8F else 0xBF)
    (hthird : 0x80 ≤ third.toNat ∧ third.toNat ≤ 0xBF) (hlow : 0x80 ≤ fourth.toNat)
    (hhigh : fourth.toNat ≤ 0xBF) :
    String.utf8EncodeChar (Char.ofNat
      ((((first.toNat - 0xF0) * 64 + second.toNat % 64) * 64 + third.toNat % 64) * 64 +
        fourth.toNat % 64)) = [first, second, third, fourth] := by
  -- The narrower ranges of the second byte keep out shorter characters and numbers too great.
  have hsecond : 0x80 ≤ second.toNat ∧ second.toNat ≤ 0xBF ∧
      (first.toNat = 0xF0 → 0x90 ≤ second.toNat) ∧
      (first.toNat = 0xF4 → second.toNat ≤ 0x8F) := by
    split_ifs at hnextLow hnextHigh <;> omega
  rw [utf8EncodeChar_four (by omega) (by omega), ofNat_eq_of_toNat first (by omega),
    ofNat_eq_of_toNat second (by omega), ofNat_eq_of_toNat third (by omega),
    ofNat_eq_of_toNat fourth (by omega)]

/-- The bytes are those of the first character of the text, and then bytes that are read as the
rest of it. -/
def StartsWithChar (bytes : List UInt8) (text : List Char) : Prop :=
  ∃ c later after, text = c :: later ∧ bytes = String.utf8EncodeChar c ++ after ∧
    scan none after = later.map some

theorem startsWithChar_of_two {rest : List UInt8} (hlead : 0xC2 ≤ first.toNat)
    (hfirst : first.toNat < 0xE0)
    (h : scan (some ⟨first.toNat - 0xC0, 0, 0x80, 0xBF⟩) rest = text.map some) :
    StartsWithChar (first :: rest) text := by
  obtain ⟨second, after, rfl, hsecond⟩ := exists_next_of_scan h
  obtain ⟨later, rfl, hlater⟩ := exists_text_of_scan h hsecond rfl
  refine ⟨_, later, after, rfl, ?_, hlater⟩
  rw [utf8EncodeChar_of_two hlead hfirst hsecond.1 hsecond.2]
  rfl

theorem startsWithChar_of_three {rest : List UInt8} (hlead : 0xE0 ≤ first.toNat)
    (hfirst : first.toNat < 0xF0)
    (h : scan (some ⟨first.toNat - 0xE0, 1, if first.toNat = 0xE0 then 0xA0 else 0x80,
      if first.toNat = 0xED then 0x9F else 0xBF⟩) rest = text.map some) :
    StartsWithChar (first :: rest) text := by
  obtain ⟨second, rest, rfl, hsecond⟩ := exists_next_of_scan h
  have hnext := scan_awaited h hsecond rfl
  obtain ⟨third, after, rfl, hthird⟩ := exists_next_of_scan hnext
  obtain ⟨later, rfl, hlater⟩ := exists_text_of_scan hnext hthird rfl
  refine ⟨_, later, after, rfl, ?_, hlater⟩
  rw [utf8EncodeChar_of_three hlead hfirst hsecond.1 hsecond.2 hthird.1 hthird.2]
  rfl

theorem startsWithChar_of_four {rest : List UInt8} (hlead : 0xF0 ≤ first.toNat)
    (hfirst : first.toNat < 0xF5)
    (h : scan (some ⟨first.toNat - 0xF0, 2, if first.toNat = 0xF0 then 0x90 else 0x80,
      if first.toNat = 0xF4 then 0x8F else 0xBF⟩) rest = text.map some) :
    StartsWithChar (first :: rest) text := by
  obtain ⟨second, rest, rfl, hsecond⟩ := exists_next_of_scan h
  have hnext := scan_awaited h hsecond rfl
  obtain ⟨third, rest, rfl, hthird⟩ := exists_next_of_scan hnext
  have hlast := scan_awaited hnext hthird rfl
  obtain ⟨fourth, after, rfl, hfourth⟩ := exists_next_of_scan hlast
  obtain ⟨later, rfl, hlater⟩ := exists_text_of_scan hlast hfourth rfl
  refine ⟨_, later, after, rfl, ?_, hlater⟩
  rw [utf8EncodeChar_of_four hlead hfirst hsecond.1 hsecond.2 hthird hfourth.1 hfourth.2]
  rfl

theorem startsWithChar_of_scan {rest : List UInt8}
    (h : scan none (first :: rest) = text.map some) : StartsWithChar (first :: rest) text := by
  cases hlead : lead first.toNat with
  | whole c =>
    rw [scan_whole hlead] at h
    cases text with
    | nil => cases h
    | cons other later =>
      rw [List.map_cons, List.cons.injEq, Option.some.injEq] at h
      refine ⟨c, later, rest, by rw [h.1], ?_, h.2⟩
      unfold lead at hlead
      split_ifs at hlead with hone
      rw [← Lead.whole.inj hlead, utf8EncodeChar_one hone, UInt8.ofNat_toNat]
      rfl
  | stray =>
    rw [scan, step, step.start, hlead] at h
    cases text <;> cases h
  | first u =>
    rw [scan_first hlead] at h
    rcases lead_eq_first hlead with ⟨hlow, hhigh, rfl⟩ | ⟨hlow, hhigh, rfl⟩ | ⟨hlow, hhigh, rfl⟩
    · exact startsWithChar_of_two hlow hhigh h
    · exact startsWithChar_of_three hlow hhigh h
    · exact startsWithChar_of_four hlow hhigh h

/-! ## Reading a text -/

theorem eq_encode_of_scan (h : scan none bytes = text.map some) : bytes = encode text := by
  induction text generalizing bytes with
  | nil =>
    cases bytes with
    | nil => rfl
    | cons byte rest =>
      obtain ⟨c, later, after, htext, -⟩ := startsWithChar_of_scan h
      cases htext
  | cons c text ih =>
    cases bytes with
    | nil => cases h
    | cons byte rest =>
      obtain ⟨other, later, after, htext, hbytes, hafter⟩ := startsWithChar_of_scan h
      rw [List.cons.injEq] at htext
      rw [← htext.1] at hbytes
      rw [← htext.2] at hafter
      rw [hbytes, encode_cons, ih hafter]

theorem eq_map_some_of_mapM {characters : List (Option Char)}
    (h : characters.mapM id = some text) : characters = text.map some := by
  induction characters generalizing text with
  | nil =>
    cases h
    rfl
  | cons c? characters ih =>
    rw [List.mapM_cons] at h
    obtain ⟨c, hc, hrest⟩ := Option.bind_eq_some_iff.mp h
    obtain ⟨later, hlater, heq⟩ := Option.bind_eq_some_iff.mp hrest
    have hc' : c? = some c := hc
    cases heq
    rw [List.map_cons, ← ih hlater, hc']

/-- Bytes are read as a text exactly if they are the bytes of the text. -/
theorem decodeStrict?_eq_some_iff : decodeStrict? bytes = some text ↔ bytes = encode text := by
  constructor
  · intro h
    exact eq_encode_of_scan (eq_map_some_of_mapM h)
  · rintro rfl
    exact decodeStrict?_encode text

theorem encode_injective : Function.Injective encode := by
  intro text other h
  have hread := decodeStrict?_encode text
  rw [h, decodeStrict?_encode] at hread
  exact (Option.some.inj hread).symm

end StochasticGrammar.Text.Utf8
