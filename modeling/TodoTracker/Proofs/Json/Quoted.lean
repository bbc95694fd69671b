import TodoTracker.Json.Parser
import TodoTracker.Json.Printer
import Mathlib.Tactic.Common

/-!
# Printed texts

A text is printed between quotes, with an escape for every character that cannot stand for itself.
Reading takes the escapes back, so it ends at the closing quote with the text that was printed.
-/

set_option autoImplicit false

namespace TodoTracker

/-- Four hexadecimal digits write every number of sixteen bits. -/
theorem Text.hex_four {n : Nat} (h : n < 0x10000) : Text.hex 4 n =
    [(n / 0x1000).digitChar, (n / 0x100 % 16).digitChar, (n / 16 % 16).digitChar,
      (n % 16).digitChar] := by
  have hstep (m : Nat) (hm : 16 ≤ m) :
      Nat.toDigits 16 m = Nat.toDigits 16 (m / 16) ++ [(m % 16).digitChar] :=
    Nat.toDigits_of_base_le (by decide) hm
  have hlast (m : Nat) (hm : m < 16) : Nat.toDigits 16 m = [m.digitChar] :=
    Nat.toDigits_of_lt_base hm
  have hnext (m : Nat) : n / m / 16 = n / (m * 16) := Nat.div_div_eq_div_mul n m 16
  rw [Text.hex]
  by_cases h1 : n < 16
  · rw [hlast n h1, (by omega : n / 0x1000 = 0), (by omega : n / 0x100 % 16 = 0),
      (by omega : n / 16 % 16 = 0), Nat.mod_eq_of_lt h1]
    rfl
  by_cases h2 : n < 0x100
  · rw [hstep n (by omega), hlast (n / 16) (by omega), (by omega : n / 0x1000 = 0),
      (by omega : n / 0x100 % 16 = 0), (by omega : n / 16 % 16 = n / 16)]
    rfl
  by_cases h3 : n < 0x1000
  · rw [hstep n (by omega), hstep (n / 16) (by omega), hnext, hlast (n / (16 * 16)) (by omega),
      (by omega : n / 0x1000 = 0), (by omega : n / 0x100 % 16 = n / (16 * 16))]
    rfl
  · rw [hstep n (by omega), hstep (n / 16) (by omega), hnext, hstep (n / (16 * 16)) (by omega),
      hnext, hlast (n / (16 * 16 * 16)) (by omega)]
    rfl

namespace Json

theorem hexDigit?_digitChar : ∀ d < 16, Ranges.hexDigit? (Nat.digitChar d) = some d := by decide

theorem fourHex?_hex {n : Nat} (h : n < 0x10000) {t : Text} (ht : t ≠ []) :
    fourHex? (Text.hex 4 n ++ t) = some n := by
  obtain ⟨c, t, rfl⟩ := List.exists_cons_of_ne_nil ht
  rw [Text.hex_four h]
  simp only [List.cons_append, List.nil_append, fourHex?]
  rw [hexDigit?_digitChar _ (by omega), hexDigit?_digitChar _ (by omega),
    hexDigit?_digitChar _ (by omega), hexDigit?_digitChar _ (by omega)]
  simp only [Option.bind_eq_bind, Option.bind_some, Option.some.injEq]
  omega

theorem length_hex {n : Nat} (h : n < 0x10000) : (Text.hex 4 n).length = 4 := by
  rw [Text.hex_four h]
  rfl

theorem escapeUnit_eq (n : Nat) : escapeUnit n = '\\' :: ('u' :: Text.hex 4 n) := rfl

theorem toNat_lt (c : Char) :
    c.toNat < 0xD800 ∨ 0xDFFF < c.toNat ∧ c.toNat < 0x110000 := c.valid

theorem charOfUnit_toNat {c : Char} : charOfUnit c.toNat = c := by
  have hvalid := toNat_lt c
  have hhigh : isHighSurrogate c.toNat = false := by
    simp only [isHighSurrogate, Bool.and_eq_false_iff, decide_eq_false_iff_not]
    omega
  have hlow : isLowSurrogate c.toNat = false := by
    simp only [isLowSurrogate, Bool.and_eq_false_iff, decide_eq_false_iff_not]
    omega
  rw [charOfUnit, hhigh, hlow]
  exact Char.ofNat_toNat c

theorem isHighSurrogate_toNat (c : Char) : isHighSurrogate c.toNat = false := by
  have hvalid := toNat_lt c
  simp only [isHighSurrogate, Bool.and_eq_false_iff, decide_eq_false_iff_not]
  omega

/-- What is left of an escape is passed over. -/
theorem readStringFrom_skip (start : Nat) (s t : Text) (pos : Nat) :
    readStringFrom start pos s.length (s ++ t) = readStringFrom start (pos + s.length) 0 t := by
  induction s generalizing pos with
  | nil => rfl
  | cons c s ih =>
    rw [List.length_cons, List.cons_append, readStringFrom, ih]
    congr 1
    omega

/-- The text that starts with `c`. -/
def prepend (c : Char) (found : Text × Cursor) : Text × Cursor := (c :: found.1, found.2)

theorem readStringFrom_escape {start pos : Nat} {s t escape : Text} {c : Char}
    (hescape : escape = '\\' :: s)
    (h : readEscape start ⟨s ++ t, pos + 1⟩ = .ok (c, s.length)) :
    readStringFrom start pos 0 (escape ++ t) =
      (readStringFrom start (pos + 1 + s.length) 0 t).map (prepend c) := by
  rw [hescape, List.cons_append, readStringFrom, if_neg (by decide), if_pos rfl, h]
  dsimp only [bind, Except.bind]
  rw [readStringFrom_skip]
  rcases readStringFrom start (pos + 1 + s.length) 0 t with _ | _ <;> rfl

theorem readStringFrom_plain {start pos : Nat} {t : Text} {c : Char} (hquote : c ≠ '"')
    (hslash : c ≠ '\\') (hcontrol : 32 ≤ c.toNat) :
    readStringFrom start pos 0 (c :: t) =
      (readStringFrom start (pos + 1) 0 t).map (prepend c) := by
  rw [readStringFrom, if_neg hquote, if_neg hslash, if_neg (by omega)]
  rcases readStringFrom start (pos + 1) 0 t with _ | _ <;> rfl

theorem readEscape_single {start pos high : Nat} {digits : Text}
    (hdigits : fourHex? digits = some high) (hhigh : isHighSurrogate high = false) :
    readEscape start ⟨'u' :: digits, pos⟩ = .ok (charOfUnit high, 5) := by
  simp [readEscape, hdigits, hhigh]

theorem readEscape_surrogates {start pos high low : Nat} {digits second : Text}
    (hdigits : fourHex? digits = some high) (hhigh : isHighSurrogate high = true)
    (hroom : 11 < digits.length) (hdrop : digits.drop 4 = '\\' :: 'u' :: second)
    (hsecond : fourHex? second = some low) (hlow : isLowSurrogate low = true) :
    readEscape start ⟨'u' :: digits, pos⟩ =
      .ok (Char.ofNat (0x10000 + (high - 0xD800) * 0x400 + (low - 0xDC00)), 11) := by
  simp [readEscape, hdigits, hhigh, hroom, hdrop, hsecond, hlow]

theorem readEscape_simple {start pos : Nat} {t : Text} {c d : Char} (hu : d ≠ 'u')
    (h : simpleEscape? d = some c) : readEscape start ⟨[d] ++ t, pos⟩ = .ok (c, 1) := by
  rw [List.singleton_append, readEscape]
  split
  · contradiction
  · rename_i heq
    exact absurd (List.cons.inj heq).1 hu
  · rename_i heq
    obtain ⟨rfl, -⟩ := List.cons.inj heq
    rw [h]

theorem readEscape_unit (start pos : Nat) {t : Text} {c : Char} (ht : t ≠ [])
    (hunit : c.toNat < 0x10000) :
    readEscape start ⟨('u' :: Text.hex 4 c.toNat) ++ t, pos⟩ =
      .ok (c, ('u' :: Text.hex 4 c.toNat).length) := by
  rw [List.length_cons, length_hex hunit, List.cons_append,
    readEscape_single (fourHex?_hex hunit ht) (isHighSurrogate_toNat c),
    charOfUnit_toNat]

theorem readEscape_pair (start pos : Nat) {high low : Nat} {t : Text} (ht : 2 ≤ t.length)
    (hhigh : isHighSurrogate high = true) (hlow : isLowSurrogate low = true) :
    readEscape start ⟨('u' :: (Text.hex 4 high ++ '\\' :: 'u' :: Text.hex 4 low)) ++ t, pos⟩ =
      .ok (Char.ofNat (0x10000 + (high - 0xD800) * 0x400 + (low - 0xDC00)),
        ('u' :: (Text.hex 4 high ++ '\\' :: 'u' :: Text.hex 4 low)).length) := by
  have hne : t ≠ [] := List.ne_nil_of_length_pos (by omega)
  have hhighSize : high < 0x10000 := by
    simp only [isHighSurrogate, Bool.and_eq_true, decide_eq_true_eq] at hhigh
    omega
  have hlowSize : low < 0x10000 := by
    simp only [isLowSurrogate, Bool.and_eq_true, decide_eq_true_eq] at hlow
    omega
  have hlength := length_hex hhighSize
  have hlength' := length_hex hlowSize
  have hdrop : (Text.hex 4 high ++ '\\' :: 'u' :: (Text.hex 4 low ++ t)).drop 4 =
      '\\' :: 'u' :: (Text.hex 4 low ++ t) :=
    List.drop_left' hlength
  simp only [List.cons_append, List.append_assoc, List.length_cons, List.length_append, hlength,
    hlength']
  refine readEscape_surrogates (fourHex?_hex hhighSize (List.cons_ne_nil _ _)) hhigh ?_ hdrop
    (fourHex?_hex hlowSize hne) hlow
  simp only [List.length_append, List.length_cons, hlength, hlength']
  omega

/-- The two units of a character beyond the sixteen-bit range. -/
theorem surrogates_of_pair {c : Char} {high low : Nat} (h : 0x10000 ≤ c.toNat)
    (hhigh : 0xD800 + (c.toNat - 0x10000) / 0x400 = high)
    (hlow : 0xDC00 + (c.toNat - 0x10000) % 0x400 = low) :
    isHighSurrogate high = true ∧ isLowSurrogate low = true ∧
      0x10000 + (high - 0xD800) * 0x400 + (low - 0xDC00) = c.toNat := by
  have hvalid := toNat_lt c
  simp only [isHighSurrogate, isLowSurrogate, Bool.and_eq_true, decide_eq_true_eq]
  omega

/-- Reading takes the escape of a character back. -/
theorem readStringFrom_escapeChar (start pos : Nat) (c : Char) {t : Text} (ht : 2 ≤ t.length) :
    ∃ pos', readStringFrom start pos 0 (escapeChar c ++ t) =
      (readStringFrom start pos' 0 t).map (prepend c) := by
  have hsimple {d : Char} (hu : d ≠ 'u') (h : simpleEscape? d = some c) :
      ∃ pos', readStringFrom start pos 0 (['\\', d] ++ t) =
        (readStringFrom start pos' 0 t).map (prepend c) :=
    ⟨_, readStringFrom_escape rfl (readEscape_simple hu h)⟩
  have hne : t ≠ [] := List.ne_nil_of_length_pos (by omega)
  rw [escapeChar]
  split
  · subst c
    exact hsimple (by decide) (by decide)
  split
  · subst c
    exact hsimple (by decide) (by decide)
  split
  · subst c
    exact hsimple (by decide) (by decide)
  split
  · subst c
    exact hsimple (by decide) (by decide)
  split
  · subst c
    exact hsimple (by decide) (by decide)
  split
  · rename_i hfeed
    obtain rfl : c = Char.ofNat 12 := by rw [← hfeed, Char.ofNat_toNat]
    exact hsimple (by decide) (by decide)
  split
  · rename_i hback
    obtain rfl : c = Char.ofNat 8 := by rw [← hback, Char.ofNat_toNat]
    exact hsimple (by decide) (by decide)
  split
  · rename_i hplain
    exact ⟨pos + 1, readStringFrom_plain ‹_› ‹_› hplain.1⟩
  split
  · rename_i hunit
    exact ⟨_, readStringFrom_escape (escapeUnit_eq _) (readEscape_unit start (pos + 1) hne hunit)⟩
  · rename_i hpair
    generalize hhigh : 0xD800 + (c.toNat - 0x10000) / 0x400 = high
    generalize hlow : 0xDC00 + (c.toNat - 0x10000) % 0x400 = low
    obtain ⟨hhigh, hlow, hcode⟩ := surrogates_of_pair (Nat.le_of_not_lt hpair) hhigh hlow
    have hescape : escapeUnit high ++ escapeUnit low =
        '\\' :: ('u' :: (Text.hex 4 high ++ '\\' :: 'u' :: Text.hex 4 low)) := by
      rw [escapeUnit_eq, escapeUnit_eq, List.cons_append, List.cons_append]
    have hread := readEscape_pair start (pos + 1) ht hhigh hlow
    rw [hcode, Char.ofNat_toNat] at hread
    exact ⟨_, readStringFrom_escape hescape hread⟩

theorem readStringFrom_flatMap (start pos : Nat) (t : Text) {rest : Text} (hrest : rest ≠ []) :
    ∃ pos', readStringFrom start pos 0 (t.flatMap escapeChar ++ '"' :: rest) =
      .ok (t, ⟨rest, pos'⟩) := by
  induction t generalizing pos with
  | nil => exact ⟨pos + 1, by rw [List.flatMap_nil, List.nil_append, readStringFrom, if_pos rfl]⟩
  | cons c t ih =>
    have hlong : 2 ≤ (t.flatMap escapeChar ++ '"' :: rest).length := by
      have := List.length_pos_iff.2 hrest
      rw [List.length_append, List.length_cons]
      omega
    obtain ⟨next, hnext⟩ := readStringFrom_escapeChar start pos c hlong
    obtain ⟨pos', hpos'⟩ := ih next
    exact ⟨pos', by rw [List.flatMap_cons, List.append_assoc, hnext, hpos']; rfl⟩

/-- A printed text is read back. Something has to come after it, and in a document it does. -/
theorem readString_printText (pos : Nat) (t : Text) {rest : Text} (hrest : rest ≠ []) :
    ∃ pos', readString ⟨printText t ++ rest, pos⟩ = .ok (t, ⟨rest, pos'⟩) := by
  obtain ⟨pos', h⟩ := readStringFrom_flatMap pos (pos + 1) t hrest
  refine ⟨pos', ?_⟩
  rw [readString, printText, ← h]
  simp

end Json

end TodoTracker
