import Mathlib.Data.List.Infix
import StochasticGrammar.Proofs.Text.Strict
import StochasticGrammar.Proofs.Text.Utf8

/-!
# Broken stretches of bytes

Where no character starts, the bytes that are read as one broken stretch are the longest beginning
of a character that is there, or a single byte if not even that begins one.  Lossy reading keeps all
characters and puts one replacement in the place of each such stretch, and this describes what it
reads completely.  A beginning of a character has no line feed in it, unless it is one, so a stretch
never reaches over the end of a line.
-/

namespace StochasticGrammar.Text.Utf8

/-! ## Beginnings of characters -/

/-- The bytes of some character start with these. -/
def BeginsChar (bytes : List UInt8) : Prop :=
  ∃ c, bytes <+: String.utf8EncodeChar c

/-- The bytes in front of the rest are one broken stretch. -/
structure IsBroken (stretch rest : List UInt8) : Prop where
  ne_nil : stretch ≠ []
  /-- No character starts where the stretch starts. -/
  noChar : ∀ c, ¬String.utf8EncodeChar c <+: stretch ++ rest
  begins : BeginsChar stretch ∨ stretch.length = 1
  /-- Nothing longer at this place is the beginning of a character. -/
  longest : ∀ longer, longer <+: stretch ++ rest → BeginsChar longer →
    longer.length ≤ stretch.length

/-- The bytes are read as the text: every character is kept, and every broken stretch is
replaced. -/
inductive ReadsAs : List UInt8 → List Char → Prop
  | nil : ReadsAs [] []
  | char {rest : List UInt8} {text : List Char} (c : Char) (hrest : ReadsAs rest text) :
    ReadsAs (String.utf8EncodeChar c ++ rest) (c :: text)
  | broken {stretch rest : List UInt8} {text : List Char} (hbroken : IsBroken stretch rest)
    (hrest : ReadsAs rest text) : ReadsAs (stretch ++ rest) (replacement :: text)

variable {bytes stretch rest line after : List UInt8} {text : List Char} {c : Char}

theorem BeginsChar.of_prefix {longer : List UInt8} (h : BeginsChar longer)
    (hstart : bytes <+: longer) : BeginsChar bytes := by
  obtain ⟨c, hc⟩ := h
  exact ⟨c, hstart.trans hc⟩

theorem beginsChar_utf8EncodeChar (c : Char) : BeginsChar (String.utf8EncodeChar c) :=
  ⟨c, List.prefix_rfl⟩

/-- The bytes of a character are those that are read as it. -/
theorem utf8EncodeChar_eq_iff : String.utf8EncodeChar c = bytes ↔ scan none bytes = [some c] := by
  constructor
  · rintro rfl
    have hread := scan_utf8EncodeChar c []
    rwa [List.append_nil] at hread
  · intro h
    have hencode : bytes = encode [c] := eq_encode_of_scan h
    rw [hencode, encode_cons]
    exact (List.append_nil _).symm

theorem beginsChar_iff : BeginsChar bytes ↔ ∃ c tail, scan none (bytes ++ tail) = [some c] := by
  constructor
  · rintro ⟨c, tail, htail⟩
    exact ⟨c, tail, utf8EncodeChar_eq_iff.mp htail.symm⟩
  · rintro ⟨c, tail, htail⟩
    exact ⟨c, tail, (utf8EncodeChar_eq_iff.mpr htail).symm⟩

/-! ## Reading on in an unfinished character -/

variable {u : Unfinished} {byte : UInt8}

/-- The character is a long one, and there is a byte that may follow. -/
structure Unfinished.IsOpen (u : Unfinished) : Prop where
  isLong : u.IsLong
  low_le_high : u.low ≤ u.high

theorem isOpen_of_lead {byte : Nat} (h : lead byte = .first u) : u.IsOpen := by
  refine ⟨isLong_of_lead h, ?_⟩
  rcases lead_eq_first h with ⟨-, -, rfl⟩ | ⟨-, -, rfl⟩ | ⟨-, -, rfl⟩
  · dsimp only
    omega
  · dsimp only
    split_ifs <;> omega
  · dsimp only
    split_ifs <;> omega

theorem Unfinished.IsOpen.next {awaited : Nat} (hu : u.IsOpen) (h : u.Fits byte)
    (hafter : u.afterNext = awaited + 1) :
    IsOpen ⟨u.bits * 64 + byte.toNat % 64, awaited, 0x80, 0xBF⟩ where
  isLong := hu.isLong.next h.1 h.2 hafter
  low_le_high := by dsimp only; omega

theorem Unfinished.IsOpen.fits_low (hu : u.IsOpen) : u.Fits (UInt8.ofNat u.low) := by
  have hlow : u.low < 256 := by
    have hhigh := hu.isLong.high
    have hle := hu.low_le_high
    omega
  rw [Fits, toNat_ofNat hlow]
  exact ⟨le_rfl, hu.low_le_high⟩

/-- An unfinished character can always be completed, by the least byte at each place. -/
theorem Unfinished.IsOpen.exists_completion (hu : u.IsOpen) :
    ∃ c tail, scan (some u) tail = [some c] := by
  induction hafter : u.afterNext generalizing u with
  | zero => exact ⟨_, [UInt8.ofNat u.low], scan_of_fits_of_last hu.fits_low hafter []⟩
  | succ awaited ih =>
    obtain ⟨c, tail, htail⟩ := ih (hu.next hu.fits_low hafter) rfl
    exact ⟨c, _ :: tail, (scan_of_fits_of_next hu.fits_low hafter tail).trans htail⟩

/-- After these bytes the character is unfinished, whatever follows. -/
def Leaves (read : List UInt8) (u : Unfinished) : Prop :=
  ∀ rest, scan none (read ++ rest) = scan (some u) rest

variable {read : List UInt8}

theorem Leaves.beginsChar (h : Leaves read u) (hu : u.IsOpen) : BeginsChar read := by
  obtain ⟨c, tail, htail⟩ := hu.exists_completion
  exact beginsChar_iff.mpr ⟨c, tail, (h tail).trans htail⟩

theorem Leaves.scan_append_cons (h : Leaves read u) (byte : UInt8) (rest : List UInt8) :
    scan none (read ++ [byte] ++ rest) = scan (some u) (byte :: rest) := by
  rw [List.append_assoc, List.singleton_append, h]

theorem Leaves.next {awaited : Nat} (h : Leaves read u) (hfits : u.Fits byte)
    (hafter : u.afterNext = awaited + 1) :
    Leaves (read ++ [byte]) ⟨u.bits * 64 + byte.toNat % 64, awaited, 0x80, 0xBF⟩ := by
  intro rest
  rw [h.scan_append_cons, scan_of_fits_of_next hfits hafter]

/-- A byte that does not fit begins nothing together with what has been read. -/
theorem Leaves.not_beginsChar (h : Leaves read u) (hfits : ¬u.Fits byte) :
    ¬BeginsChar (read ++ [byte]) := by
  intro hbegins
  obtain ⟨c, tail, htail⟩ := beginsChar_iff.mp hbegins
  rw [h.scan_append_cons, scan_of_not_fits hfits] at htail
  cases htail

/-! ## Reading in front of a rest -/

/-- What is broken, as seen by reading byte by byte. -/
structure Breaks (stretch rest : List UInt8) : Prop where
  scan_append : scan none (stretch ++ rest) = none :: scan none rest
  ne_nil : stretch ≠ []
  begins : BeginsChar stretch ∨ stretch.length = 1
  not_begins : ∀ byte ∈ rest.head?, ¬BeginsChar (stretch ++ [byte])

/-- What an unfinished character comes to: the bytes that follow complete it, or they break it
off. -/
theorem Leaves.exists_read (h : Leaves read u) (hu : u.IsOpen) (hread : read ≠ [])
    (bytes : List UInt8) :
    (∃ c rest, read ++ bytes = String.utf8EncodeChar c ++ rest) ∨
      ∃ stretch rest, read ++ bytes = stretch ++ rest ∧ Breaks stretch rest := by
  induction bytes generalizing read u with
  | nil =>
    refine Or.inr ⟨read, [], rfl, ?_, hread, Or.inl (h.beginsChar hu), ?_⟩
    · exact h []
    · intro byte hbyte
      cases hbyte
  | cons byte bytes ih =>
    have happend : read ++ byte :: bytes = read ++ [byte] ++ bytes := by
      rw [List.append_assoc, List.singleton_append]
    by_cases hfits : u.Fits byte
    · cases hafter : u.afterNext with
      | zero =>
        have hscan := h.scan_append_cons byte []
        rw [List.append_nil, scan_of_fits_of_last hfits hafter] at hscan
        exact Or.inl ⟨_, bytes, by rw [utf8EncodeChar_eq_iff.mpr hscan, happend]⟩
      | succ awaited =>
        rw [happend]
        exact ih (h.next hfits hafter) (hu.next hfits hafter) (by simp)
    · refine Or.inr ⟨read, byte :: bytes, rfl, ?_, hread, Or.inl (h.beginsChar hu), ?_⟩
      · rw [h, scan_of_not_fits hfits]
      · intro other hother
        cases hother
        exact h.not_beginsChar hfits

theorem exists_read (byte : UInt8) (bytes : List UInt8) :
    (∃ c rest, byte :: bytes = String.utf8EncodeChar c ++ rest) ∨
      ∃ stretch rest, byte :: bytes = stretch ++ rest ∧ Breaks stretch rest := by
  cases hlead : lead byte.toNat with
  | whole c =>
    have hchar := utf8EncodeChar_eq_iff.mpr (scan_whole hlead [])
    exact Or.inl ⟨c, bytes, by rw [hchar, List.singleton_append]⟩
  | first u =>
    have hleaves : Leaves [byte] u := scan_first hlead
    exact hleaves.exists_read (isOpen_of_lead hlead) (List.cons_ne_nil _ _) bytes
  | stray =>
    have hscan (rest : List UInt8) : scan none (byte :: rest) = none :: scan none rest := by
      rw [scan, step, step.start, hlead]
      rfl
    refine Or.inr ⟨[byte], bytes, rfl, hscan bytes, List.cons_ne_nil _ _, Or.inr rfl, ?_⟩
    intro other _ hbegins
    obtain ⟨c, tail, htail⟩ := beginsChar_iff.mp hbegins
    have hread := hscan ([other] ++ tail)
    rw [← List.singleton_append, ← List.append_assoc, htail] at hread
    cases hread

/-! ## Broken stretches -/

theorem Breaks.isBroken (h : Breaks stretch rest) : IsBroken stretch rest where
  ne_nil := h.ne_nil
  noChar := by
    rintro c ⟨after, hafter⟩
    have hscan := h.scan_append
    rw [← hafter, scan_utf8EncodeChar] at hscan
    cases hscan
  begins := h.begins
  longest := by
    intro longer hlonger hbegins
    by_contra hlength
    rw [Nat.not_le] at hlength
    cases rest with
    | nil =>
      have hle := hlonger.length_le
      rw [List.append_nil] at hle
      omega
    | cons byte rest =>
      have hnext : stretch ++ [byte] <+: stretch ++ byte :: rest := by simp
      have hstart : stretch ++ [byte] <+: longer := by
        apply List.prefix_of_prefix_length_le hnext hlonger
        rw [List.length_append, List.length_singleton]
        exact hlength
      exact h.not_begins byte rfl (hbegins.of_prefix hstart)

/-- Of two stretches at one place neither is longer. -/
theorem IsBroken.length_le {other after : List UInt8} (h : IsBroken stretch rest)
    (hother : IsBroken other after) (heq : stretch ++ rest = other ++ after) :
    stretch.length ≤ other.length := by
  rcases h.begins with hbegins | hone
  · apply hother.longest stretch _ hbegins
    rw [← heq]
    exact List.prefix_append stretch rest
  · rw [hone]
    exact List.length_pos_of_ne_nil hother.ne_nil

theorem IsBroken.breaks (h : IsBroken stretch rest) : Breaks stretch rest := by
  obtain ⟨byte, later, hstretch⟩ := List.exists_cons_of_ne_nil h.ne_nil
  rcases exists_read byte (later ++ rest) with ⟨c, after, heq⟩ | ⟨other, after, heq, hbreaks⟩
  · rw [← List.cons_append, ← hstretch] at heq
    exact absurd ⟨after, heq.symm⟩ (h.noChar c)
  · rw [← List.cons_append, ← hstretch] at heq
    have hother := hbreaks.isBroken
    have hlength := le_antisymm (h.length_le hother heq) (hother.length_le h heq.symm)
    obtain ⟨rfl, rfl⟩ := List.append_inj heq hlength
    exact hbreaks

/-! ## Lossy reading -/

theorem decodeLossy_char (c : Char) (rest : List UInt8) :
    decodeLossy (String.utf8EncodeChar c ++ rest) = c :: decodeLossy rest := by
  unfold decodeLossy decode
  rw [scan_utf8EncodeChar, List.map_cons, Option.getD_some]

theorem decodeLossy_broken (h : IsBroken stretch rest) :
    decodeLossy (stretch ++ rest) = replacement :: decodeLossy rest := by
  unfold decodeLossy decode
  rw [h.breaks.scan_append, List.map_cons, Option.getD_none]

theorem readsAs_decodeLossy (bytes : List UInt8) : ReadsAs bytes (decodeLossy bytes) := by
  induction hlength : bytes.length using Nat.strong_induction_on generalizing bytes with
  | _ length ih =>
    cases bytes with
    | nil => exact .nil
    | cons byte bytes =>
      rcases exists_read byte bytes with ⟨c, rest, heq⟩ | ⟨stretch, rest, heq, hbreaks⟩
      · have hpos : 0 < (String.utf8EncodeChar c).length :=
          List.length_pos_of_ne_nil String.utf8EncodeChar_ne_nil
        rw [heq, List.length_append] at hlength
        rw [heq, decodeLossy_char]
        exact .char c (ih rest.length (by omega) rest rfl)
      · have hpos := List.length_pos_of_ne_nil hbreaks.ne_nil
        rw [heq, List.length_append] at hlength
        rw [heq, decodeLossy_broken hbreaks.isBroken]
        exact .broken hbreaks.isBroken (ih rest.length (by omega) rest rfl)

/-- Lossy reading keeps the characters, replaces the broken stretches, and does nothing else. -/
theorem readsAs_iff : ReadsAs bytes text ↔ text = decodeLossy bytes := by
  constructor
  · intro h
    induction h with
    | nil => rfl
    | char c _ ih => rw [decodeLossy_char, ← ih]
    | broken hbroken _ ih => rw [decodeLossy_broken hbroken, ← ih]
  · rintro rfl
    exact readsAs_decodeLossy bytes

/-- A character that breaks off, an overlong one, a surrogate, one out of range, and the end. -/
example :
    decodeLossy [0xE2, 0x82, 0x0A, 0xC0, 0xAF, 0xED, 0xA0, 0x80, 0xF4, 0x90, 0x61, 0xF0, 0x9F] =
      ['\uFFFD', '\n', '\uFFFD', '\uFFFD', '\uFFFD', '\uFFFD', '\uFFFD', '\uFFFD', '\uFFFD',
        'a', '\uFFFD'] := by
  decide

/-! ## Line feeds -/

/-- A character that begins with a line feed, or goes on with one, is the line feed. -/
theorem BeginsChar.eq_lineFeed (h : BeginsChar bytes) (hmem : lineFeed ∈ bytes) :
    bytes = [lineFeed] := by
  obtain ⟨c, hc⟩ := h
  by_cases hfeed : c = '\n'
  · rw [hfeed] at hc
    have hbytes : String.utf8EncodeChar '\n' = [lineFeed] := by decide
    rw [hbytes] at hc
    apply hc.eq_of_length_le
    exact List.length_pos_of_mem hmem
  · exact absurd (hc.subset hmem) (lineFeed_not_mem_utf8EncodeChar hfeed)

/-- No beginning of a character reaches over the end of a line. -/
theorem BeginsChar.prefix_line (h : BeginsChar bytes) (hline : line ≠ [])
    (hstart : bytes <+: line ++ lineFeed :: after) : bytes <+: line := by
  rcases Nat.lt_or_ge line.length bytes.length with hlt | hge
  · have hfeed : line ++ [lineFeed] <+: line ++ lineFeed :: after := by simp
    have hover : line ++ [lineFeed] <+: bytes := by
      apply List.prefix_of_prefix_length_le hfeed hstart
      rw [List.length_append, List.length_singleton]
      exact hlt
    have hbytes := h.eq_lineFeed (hover.subset (by simp))
    rw [hbytes, List.length_singleton] at hlt
    exact absurd (List.length_eq_zero_iff.mp (by omega)) hline
  · exact List.prefix_of_prefix_length_le hstart (List.prefix_append line _) hge

/-- A stretch is no different for a line feed after the rest. -/
theorem IsBroken.append_lineFeed (h : IsBroken stretch rest) (after : List UInt8) :
    IsBroken stretch (rest ++ lineFeed :: after) := by
  have hne : stretch ++ rest ≠ [] := List.append_ne_nil_of_left_ne_nil h.ne_nil rest
  refine ⟨h.ne_nil, ?_, h.begins, ?_⟩
  · intro c hstart
    rw [← List.append_assoc] at hstart
    exact h.noChar c ((beginsChar_utf8EncodeChar c).prefix_line hne hstart)
  · intro longer hstart hbegins
    rw [← List.append_assoc] at hstart
    exact h.longest longer (hbegins.prefix_line hne hstart) hbegins

theorem ReadsAs.append_lineFeed {later : List Char} (h : ReadsAs line text)
    (hafter : ReadsAs after later) :
    ReadsAs (line ++ lineFeed :: after) (text ++ '\n' :: later) := by
  induction h with
  | nil =>
    have hfeed : String.utf8EncodeChar '\n' ++ after = lineFeed :: after := rfl
    rw [List.nil_append, ← hfeed]
    exact .char '\n' hafter
  | char c _ ih =>
    rw [List.append_assoc]
    exact .char c ih
  | broken hbroken _ ih =>
    rw [List.append_assoc]
    exact .broken (hbroken.append_lineFeed after) ih

/-- A line feed is read as it stands, and what is in front of it is read as if it ended there. -/
theorem decodeLossy_append_lineFeed (line after : List UInt8) :
    decodeLossy (line ++ lineFeed :: after) = decodeLossy line ++ '\n' :: decodeLossy after :=
  (readsAs_iff.mp ((readsAs_decodeLossy line).append_lineFeed (readsAs_decodeLossy after))).symm

end StochasticGrammar.Text.Utf8
