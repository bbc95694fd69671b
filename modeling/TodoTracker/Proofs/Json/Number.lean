import TodoTracker.Json.Parser
import TodoTracker.Proofs.Text.Numeral
import TodoTracker.Proofs.Text.Search
import Mathlib.Data.List.TakeWhile
import Mathlib.Tactic.FinCases

/-!
# Printed numbers

A whole number is printed with its digits, every other finite number with a fraction, an exponent or
both. What is read is the numeral that was printed, since what comes after it in a document goes on
no number.
-/

set_option autoImplicit false

namespace TodoTracker

theorem digitChar_ne_zero : ∀ n < 10, 0 < n → n.digitChar ≠ '0' := by decide

theorem Text.head?_ofNat {n : Nat} (h : 0 < n) : (Text.ofNat n).head? ≠ some '0' := by
  induction n using Nat.strongRecOn with
  | ind n ih =>
    rw [Text.ofNat]
    by_cases hsmall : n < 10
    · rw [Nat.toDigits_of_lt_base hsmall, List.head?_cons]
      exact fun heq => digitChar_ne_zero n hsmall h (Option.some.inj heq)
    · have hfirst := ih (n / 10) (by omega) (by omega)
      rw [Text.ofNat] at hfirst
      obtain ⟨c, digits, hdigits⟩ :=
        List.exists_cons_of_ne_nil (Nat.toDigits_ne_nil : Nat.toDigits 10 (n / 10) ≠ [])
      rw [Nat.toDigits_of_base_le (by decide) (by omega)]
      rw [hdigits] at hfirst ⊢
      exact hfirst

namespace Json

/-- In a document a comma or the end of a line comes after a value. -/
def Ends (rest : Text) : Prop := rest.head? = some ',' ∨ rest.head? = some '\n'

def Digits (t : Text) : Prop := ∀ c ∈ t, c.isDigit = true

theorem Digits.append {s t : Text} (hs : Digits s) (ht : Digits t) : Digits (s ++ t) :=
  fun c hc => (List.mem_append.1 hc).elim (hs c) (ht c)

theorem Digits.of_subset {s t : Text} (ht : Digits t) (h : s ⊆ t) : Digits s :=
  fun c hc => ht c (h hc)

/-- The parts of a numeral. -/
structure Numeral (sign whole fraction exponent : Text) : Prop where
  sign : sign = [] ∨ sign = ['-']
  nonempty : whole ≠ []
  digits : Digits whole
  zero : whole.head? = some '0' → whole = ['0']
  fraction : fraction = [] ∨ ∃ ds, ds ≠ [] ∧ Digits ds ∧ fraction = '.' :: ds
  exponent : exponent = [] ∨ ∃ s ds, (s = '+' ∨ s = '-') ∧ ds ≠ [] ∧ Digits ds ∧
    exponent = 'e' :: s :: ds

/-- No digit comes next. -/
def Halts (t : Text) : Prop := t.head?.any Text.isAsciiDigit = false

theorem digitRun_append {ds t : Text} (hds : Digits ds) (ht : Halts t) : digitRun (ds ++ t) = ds :=
  Text.takeWhile_append_of_head (fun c hc => Text.isAsciiDigit_of_asciiDigit (hds c hc)) ht

theorem Ends.halts {rest : Text} (h : Ends rest) : Halts rest := by
  rcases h with h | h <;>
  · rw [Halts, h]
    decide

theorem Ends.ne_nil {rest : Text} (h : Ends rest) : rest ≠ [] := by
  rintro rfl
  rcases h with h | h <;> cases h

namespace Numeral

variable {sign whole fraction exponent rest : Text}

theorem halts_exponent (h : Numeral sign whole fraction exponent) (hrest : Ends rest) :
    Halts (exponent ++ rest) := by
  rcases h.exponent with rfl | ⟨s, ds, -, -, -, rfl⟩
  · exact hrest.halts
  · exact (by decide : Text.isAsciiDigit 'e' = false)

theorem halts_fraction (h : Numeral sign whole fraction exponent) (hrest : Ends rest) :
    Halts (fraction ++ (exponent ++ rest)) := by
  rcases h.fraction with rfl | ⟨ds, -, -, rfl⟩
  · exact h.halts_exponent hrest
  · exact (by decide : Text.isAsciiDigit '.' = false)

theorem exponentLength_eq (h : Numeral sign whole fraction exponent) (hrest : Ends rest) :
    exponentLength (exponent ++ rest) = exponent.length := by
  rcases h.exponent with rfl | ⟨s, ds, hs, hne, hds, rfl⟩
  · obtain ⟨c, rest, rfl⟩ := List.exists_cons_of_ne_nil hrest.ne_nil
    rcases hrest with hc | hc <;> cases hc <;> rfl
  · have hrun : digitRun (ds ++ rest) = ds := digitRun_append hds hrest.halts
    have hlength : ds.length ≠ 0 := fun hzero => hne (List.length_eq_zero_iff.1 hzero)
    have hsign : (if (decide (s = '+') || decide (s = '-')) = true then 1 else 0) = 1 :=
      if_pos (by simpa using hs)
    rw [List.cons_append, List.cons_append, exponentLength, if_pos (by decide)]
    dsimp only
    rw [hsign, List.drop_one, List.tail_cons, hrun, if_neg hlength, List.length_cons,
      List.length_cons]
    omega

theorem fractionLength_eq (h : Numeral sign whole fraction exponent) (hrest : Ends rest) :
    fractionLength (fraction ++ (exponent ++ rest)) = fraction.length := by
  have hhalts := h.halts_exponent hrest
  rcases h.fraction with rfl | ⟨ds, hne, hds, rfl⟩
  · rw [List.nil_append, List.length_nil, fractionLength]
    rintro t heq
    rcases h.exponent with rfl | ⟨s, ds, -, -, -, rfl⟩
    · rw [List.nil_append] at heq
      rcases hrest with hrest | hrest <;>
      · rw [heq] at hrest
        cases hrest
    · cases heq
  · rw [List.cons_append, fractionLength, digitRun_append hds hhalts, if_neg (by simpa using hne)]
    rfl

theorem sign_length (h : Numeral sign whole fraction exponent) (t : Text) :
    (if (sign ++ (whole ++ t)).head? = some '-' then 1 else 0) = sign.length := by
  rcases h.sign with rfl | rfl
  · obtain ⟨c, whole, rfl⟩ := List.exists_cons_of_ne_nil h.nonempty
    refine if_neg fun heq => ?_
    have hdigit := h.digits c List.mem_cons_self
    rw [Option.some.inj heq] at hdigit
    cases hdigit
  · rfl

theorem whole_length (h : Numeral sign whole fraction exponent) :
    (if whole.head? = some '0' then 1 else whole.length) = whole.length := by
  split
  · rename_i hzero
    rw [h.zero hzero]
    rfl
  · rfl

/-- A numeral is read to its end. -/
theorem readNumber_eq (h : Numeral sign whole fraction exponent) (hrest : Ends rest) (pos : Nat) :
    ∃ pos', readNumber ⟨sign ++ (whole ++ (fraction ++ (exponent ++ rest))), pos⟩ =
      .ok (if fraction ++ exponent = [] then
          .int (if sign = ['-'] then -(Text.digitsValue whole : Int) else Text.digitsValue whole)
        else .decimal (.ofLiteral (sign ++ (whole ++ (fraction ++ exponent)))), ⟨rest, pos'⟩) := by
  have hrun : digitRun (whole ++ (fraction ++ (exponent ++ rest))) = whole :=
    digitRun_append h.digits (h.halts_fraction hrest)
  have hwhole : whole.length ≠ 0 := fun hzero => h.nonempty (List.length_eq_zero_iff.1 hzero)
  have hdrop : ∀ t, (sign ++ (whole ++ t)).drop (sign.length + whole.length) = t := by
    intro t
    rw [← List.append_assoc, ← List.length_append, List.drop_left]
  have hdrop' : (sign ++ (whole ++ (fraction ++ (exponent ++ rest)))).drop
      (sign.length + whole.length + fraction.length) = exponent ++ rest := by
    rw [← List.drop_drop, hdrop, List.drop_left]
  refine ⟨pos + (sign.length + whole.length + fraction.length + exponent.length), ?_⟩
  rw [Json.readNumber]
  dsimp only
  rw [h.sign_length, List.drop_left, hrun, h.whole_length, if_neg hwhole, hdrop,
    h.fractionLength_eq hrest, hdrop', h.exponentLength_eq hrest, List.take_length]
  have hlength : sign.length + whole.length + fraction.length + exponent.length =
      (sign ++ (whole ++ (fraction ++ exponent))).length := by
    simp only [List.length_append]
    omega
  have happend : sign ++ (whole ++ (fraction ++ (exponent ++ rest))) =
      sign ++ (whole ++ (fraction ++ exponent)) ++ rest := by
    simp only [List.append_assoc]
  have hskip : Cursor.skip ⟨sign ++ (whole ++ (fraction ++ (exponent ++ rest))), pos⟩
      (sign.length + whole.length + fraction.length + exponent.length) =
      ⟨rest, pos + (sign.length + whole.length + fraction.length + exponent.length)⟩ := by
    rw [Cursor.skip, happend, hlength, List.drop_left]
  have htake : (sign ++ (whole ++ (fraction ++ (exponent ++ rest)))).take
      (sign.length + whole.length + fraction.length + exponent.length) =
      sign ++ (whole ++ (fraction ++ exponent)) := by
    rw [happend, hlength, List.take_left]
  have hsign : sign.length = 1 ↔ sign = ['-'] := by
    rcases h.sign with rfl | rfl <;> simp
  have hnone : fraction.length + exponent.length = 0 ↔ fraction ++ exponent = [] := by simp
  rw [hskip, htake]
  simp only [hsign, hnone]
  split <;> rfl

/-- No word starts as a numeral does. -/
theorem find_words (h : Numeral sign whole fraction exponent) (t : Text) :
    (words.find? fun word => word.1.isPrefixOf (sign ++ (whole ++ t))) = none := by
  obtain ⟨c, whole, rfl⟩ := List.exists_cons_of_ne_nil h.nonempty
  have hdigit : c.isDigit = true := h.digits c List.mem_cons_self
  have hother (d : Char) (hd : d.isDigit = false) : d ≠ c := by
    rintro rfl
    rw [hdigit] at hd
    cases hd
  rw [List.find?_eq_none]
  intro word hword
  rcases h.sign with rfl | rfl
  · fin_cases hword <;> simp [hother 'n' rfl, hother 't' rfl, hother 'f' rfl, hother 'N' rfl,
      hother 'I' rfl, hother '-' rfl]
  · fin_cases hword <;> simp [hother 'I' rfl]

theorem readScalar_eq (h : Numeral sign whole fraction exponent) (hrest : Ends rest) (pos : Nat) :
    ∃ pos', readScalar ⟨sign ++ (whole ++ (fraction ++ (exponent ++ rest))), pos⟩ =
      .ok (if fraction ++ exponent = [] then
          .int (if sign = ['-'] then -(Text.digitsValue whole : Int) else Text.digitsValue whole)
        else .decimal (.ofLiteral (sign ++ (whole ++ (fraction ++ exponent)))), ⟨rest, pos'⟩) := by
  obtain ⟨pos', hnumber⟩ := h.readNumber_eq hrest pos
  exact ⟨pos', by rw [readScalar, h.find_words, ← hnumber]⟩

end Numeral

theorem digits_ofNat (n : Nat) : Digits (Text.ofNat n) := fun _ hc => Text.asciiDigit_of_mem_ofNat hc

theorem numeral_ofNat {sign : Text} (hsign : sign = [] ∨ sign = ['-']) (n : Nat) :
    Numeral sign (Text.ofNat n) [] [] where
  sign := hsign
  nonempty := Text.ofNat_ne_nil n
  digits := digits_ofNat n
  zero hzero := by
    rcases Nat.eq_zero_or_pos n with rfl | hpos
    · rfl
    · exact absurd hzero (Text.head?_ofNat hpos)
  fraction := .inl rfl
  exponent := .inl rfl

/-- A printed whole number is read back. -/
theorem readScalar_ofInt (n : Int) {rest : Text} (hrest : Ends rest) (pos : Nat) :
    ∃ pos', readScalar ⟨Text.ofInt n ++ rest, pos⟩ = .ok (.int n, ⟨rest, pos'⟩) := by
  cases n with
  | ofNat n =>
    obtain ⟨pos', h⟩ := (numeral_ofNat (.inl rfl) n).readScalar_eq hrest pos
    refine ⟨pos', h.trans ?_⟩
    rw [if_pos (List.append_nil _), if_neg nofun, Text.digitsValue_ofNat]
    rfl
  | negSucc n =>
    obtain ⟨pos', h⟩ := (numeral_ofNat (.inr rfl) (n + 1)).readScalar_eq hrest pos
    refine ⟨pos', h.trans ?_⟩
    rw [if_pos (List.append_nil _), if_pos rfl, Text.digitsValue_ofNat]
    rfl

end Json

namespace Decimal

open Json

variable {digits : Text} {point : Int}

theorem withoutLastZeros_prefix (digits : Text) : withoutLastZeros digits <+: digits := by
  have hsuffix := List.dropWhile_suffix (· == '0') (l := digits.reverse)
  rw [withoutLastZeros, ← List.reverse_suffix, List.reverse_reverse]
  exact hsuffix

theorem withoutLastZeros_ofNat_ne_nil {n : Nat} (h : 0 < n) :
    withoutLastZeros (Text.ofNat n) ≠ [] := by
  intro hnil
  rw [withoutLastZeros, List.reverse_eq_nil_iff, List.dropWhile_eq_nil_iff] at hnil
  obtain ⟨c, digits, hdigits⟩ := List.exists_cons_of_ne_nil (Text.ofNat_ne_nil n)
  have hhead := Text.head?_ofNat h
  rw [hdigits] at hhead hnil
  have hzero := hnil c (List.mem_reverse.2 List.mem_cons_self)
  exact hhead (congrArg some (beq_iff_eq.1 hzero))

/-- Digits that a number can be printed with, and how many of them stand before the point. -/
structure Leading (t : Text) (point : Int) : Prop where
  digits : Digits t
  head : t.head? ≠ some '0'
  empty : t = [] → point = 1

theorem digits_zeros (n : Nat) : Digits (zeros n) := by
  intro c hc
  rw [List.eq_of_mem_replicate hc]
  rfl

theorem numeral_exponentText (e : Int) : ∃ s ds, (s = '+' ∨ s = '-') ∧ ds ≠ [] ∧ Digits ds ∧
    exponentText e = 'e' :: s :: ds := by
  refine ⟨if e < 0 then '-' else '+', zeros (2 - (Text.ofNat e.natAbs).length) ++
    Text.ofNat e.natAbs, ?_, ?_, ?_, rfl⟩
  · split
    · exact .inr rfl
    · exact .inl rfl
  · exact List.append_ne_nil_of_right_ne_nil _ (Text.ofNat_ne_nil _)
  · exact (digits_zeros _).append (digits_ofNat _)

/-- The digits of a number with the point among them, or with an exponent behind them, are a
numeral that is no whole number. -/
theorem exists_numeral_layout {digits : Text} {point : Int} (h : Leading digits point) :
    ∃ whole fraction exponent, (∀ sign, sign = [] ∨ sign = ['-'] →
        Numeral sign whole fraction exponent) ∧ fraction ++ exponent ≠ [] ∧
      layout digits point = whole ++ (fraction ++ exponent) := by
  rw [layout]
  split
  · split
    · rename_i hpoint
      have hne : digits ≠ [] := fun hnil => by
        have := h.empty hnil
        omega
      refine ⟨['0'], '.' :: (zeros point.natAbs ++ digits), [], fun sign hsign => ?_, by simp, ?_⟩
      · exact ⟨hsign, by simp, by simp [Digits], fun _ => rfl, .inr ⟨_, by simp [hne],
          (digits_zeros _).append h.digits, rfl⟩, .inl rfl⟩
      · simp
    rename_i hrange hpoint
    split
    · rename_i hlength
      refine ⟨digits ++ zeros (point.toNat - digits.length), ".0".toList, [], fun sign hsign => ?_,
        by simp, by simp⟩
      refine ⟨hsign, ?_, h.digits.append (digits_zeros _), fun hzero => ?_,
        .inr ⟨['0'], by simp, by simp [Digits], rfl⟩, .inl rfl⟩
      · refine List.ne_nil_of_length_pos ?_
        simp only [List.length_append, zeros, List.length_replicate]
        omega
      · cases digits with
        | nil =>
          rw [h.empty rfl]
          rfl
        | cons c rest => exact absurd hzero h.head
    · rename_i hlength
      have htake : digits.take point.toNat ≠ [] := by
        refine List.ne_nil_of_length_pos ?_
        rw [List.length_take]
        omega
      refine ⟨digits.take point.toNat, '.' :: digits.drop point.toNat, [], fun sign hsign => ?_,
        by simp, by simp⟩
      refine ⟨hsign, htake, h.digits.of_subset (List.take_subset _ _), fun hzero => ?_,
        .inr ⟨_, ?_, h.digits.of_subset (List.drop_subset _ _), rfl⟩, .inl rfl⟩
      · rw [List.head?_take] at hzero
        split at hzero
        · cases hzero
        · exact absurd hzero h.head
      · exact fun hdrop => hlength (List.drop_eq_nil_iff.1 hdrop)
  · rename_i hpoint
    have hne : digits ≠ [] := by
      intro hnil
      have hone := h.empty hnil
      rw [hone] at hpoint
      exact hpoint rfl
    obtain ⟨c, rest, rfl⟩ := List.exists_cons_of_ne_nil hne
    have hexponent := numeral_exponentText (point - 1)
    refine ⟨[c], if (c :: rest).length ≤ 1 then [] else '.' :: rest, exponentText (point - 1),
      fun sign hsign => ?_, ?_, ?_⟩
    · refine ⟨hsign, by simp, h.digits.of_subset (by simp), fun hzero => absurd hzero h.head, ?_,
        .inr hexponent⟩
      split
      · exact .inl rfl
      · rename_i hlong
        refine .inr ⟨rest, ?_, h.digits.of_subset (by simp), rfl⟩
        rintro rfl
        exact hlong (by simp)
    · obtain ⟨s, ds, -, -, -, heq⟩ := hexponent
      rw [heq]
      exact List.append_ne_nil_of_right_ne_nil _ (by simp)
    · rfl

/-- The digits that are found read back as the number. -/
theorem shortest_eq (value : Decimal) (num den : Nat) :
    (∃ digits last, shortest value num den = (digits, last) ∧
      ofDigits false digits last = value) ∨ shortest value num den = (num / den, 0) := by
  rw [shortest]
  generalize hfound : List.findSome? _ (List.range' 1 17) = found
  cases found with
  | none => exact .inr (Option.getD_none)
  | some found =>
    obtain ⟨count, -, hcount⟩ := List.exists_of_findSome?_eq_some hfound
    generalize neighbours num den count = pair at hcount
    obtain ⟨candidates, place⟩ := pair
    obtain ⟨digits, hfind, rfl⟩ := Option.map_eq_some_iff.1 hcount
    have hback := List.find?_some hfind
    exact .inl ⟨digits, place, Option.getD_some, beq_iff_eq.1 hback⟩

theorem ofDigits_zero (last : Int) : ofDigits false 0 last = .finite false 0 0 := rfl

/-- The digits of a number that is not zero are not all zeros; where none were found that read back,
the last place is the one before the point. -/
theorem leading_shortest {significand digits : Nat} {exponent last : Int} (h : significand ≠ 0)
    {num den : Nat}
    (hshortest : shortest (.finite false significand exponent) num den = (digits, last)) :
    Leading (withoutLastZeros (Text.ofNat digits)) (last + (Text.ofNat digits).length) := by
  have hprefix := withoutLastZeros_prefix (Text.ofNat digits)
  rcases Nat.eq_zero_or_pos digits with rfl | hpos
  · have hlast : last = 0 := by
      rcases shortest_eq (.finite false significand exponent) num den with ⟨d, l, hd, hback⟩ | hnone
      · rw [hshortest] at hd
        cases hd
        rw [ofDigits_zero] at hback
        cases hback
        exact absurd rfl h
      · rw [hshortest] at hnone
        exact (Prod.mk.inj hnone).2
    rw [hlast]
    exact ⟨nofun, nofun, fun _ => rfl⟩
  · refine ⟨(digits_ofNat digits).of_subset hprefix.subset, ?_,
      fun hnil => absurd hnil (withoutLastZeros_ofNat_ne_nil hpos)⟩
    obtain ⟨c, rest, hdigits⟩ := List.exists_cons_of_ne_nil (withoutLastZeros_ofNat_ne_nil hpos)
    obtain ⟨more, hmore⟩ := hprefix
    have hhead := Text.head?_ofNat hpos
    rw [hdigits] at hmore ⊢
    rw [← hmore] at hhead
    exact hhead

/-- A finite number is printed as a numeral that is no whole number. -/
theorem exists_numeral_text (negative : Bool) (significand : Nat) (exponent : Int) :
    ∃ sign whole fraction exp, Numeral sign whole fraction exp ∧ fraction ++ exp ≠ [] ∧
      text (.finite negative significand exponent) = sign ++ (whole ++ (fraction ++ exp)) := by
  obtain ⟨sign, hsign, hsigned⟩ :
      ∃ sign, (sign = [] ∨ sign = ['-']) ∧ ∀ t, signed negative t = sign ++ t := by
    cases negative
    · exact ⟨[], .inl rfl, fun _ => rfl⟩
    · exact ⟨['-'], .inr rfl, fun _ => rfl⟩
  by_cases hzero : significand = 0
  · have htext : text (.finite negative significand exponent) =
        sign ++ (['0'] ++ (['.', '0'] ++ [])) := by
      rw [text, if_pos hzero, hsigned]
      rfl
    exact ⟨sign, ['0'], ['.', '0'], [], ⟨hsign, by simp, by simp [Digits], fun _ => rfl,
      .inr ⟨['0'], by simp, by simp [Digits], rfl⟩, .inl rfl⟩, by simp, htext⟩
  · rcases hscale : scale pow2 significand 1 exponent with ⟨num, den⟩
    rcases hshortest : shortest (.finite false significand exponent) num den with ⟨digits, last⟩
    obtain ⟨whole, fraction, exp, hnumeral, hpart, hlayout⟩ :=
      exists_numeral_layout (leading_shortest hzero hshortest)
    refine ⟨sign, whole, fraction, exp, hnumeral sign hsign, hpart, ?_⟩
    rw [text_finite hzero hscale hshortest, hsigned, hlayout]

/-- What a printed number is read back as. -/
def reread : Decimal → Decimal
  | .finite negative significand exponent => ofLiteral (text (.finite negative significand exponent))
  | value => value

/-- A printed number is read back. -/
theorem readScalar_text (value : Decimal) {rest : Text} (hrest : Ends rest) (pos : Nat) :
    ∃ pos', readScalar ⟨value.text ++ rest, pos⟩ = .ok (.decimal value.reread, ⟨rest, pos'⟩) := by
  cases value with
  | undefined => exact ⟨_, rfl⟩
  | infinite negative => cases negative <;> exact ⟨_, rfl⟩
  | finite negative significand exponent =>
    obtain ⟨sign, whole, fraction, exp, hnumeral, hpart, htext⟩ :=
      exists_numeral_text negative significand exponent
    obtain ⟨pos', h⟩ := hnumeral.readScalar_eq hrest pos
    refine ⟨pos', ?_⟩
    rw [if_neg hpart] at h
    rw [reread, htext]
    simp only [List.append_assoc]
    exact h

end Decimal

end TodoTracker
