import TodoTracker.Text.Digit

/-!
# Written numbers

A number is written with digits of ASCII, and its digits have the number as their value.
-/

set_option autoImplicit false

namespace TodoTracker.Text

theorem isAsciiDigit_of_asciiDigit {c : Char} (h : c.isDigit = true) : isAsciiDigit c = true := by
  have hn : 48 ≤ c.toNat ∧ c.toNat ≤ 57 := by
    simp only [Char.isDigit, Bool.and_eq_true, decide_eq_true_eq] at h
    exact ⟨h.1, h.2⟩
  simp [isAsciiDigit, hn.1, hn.2]

theorem digitValue?_of_asciiDigit {c : Char} (h : c.isDigit = true) :
    digitValue? c = some (c.toNat - 48) := by
  rw [digitValue?, if_pos (isAsciiDigit_of_asciiDigit h)]

theorem isDigit_of_asciiDigit {c : Char} (h : c.isDigit = true) : isDigit c = true := by
  rw [isDigit, digitValue?_of_asciiDigit h]
  rfl

theorem asciiDigit_of_mem_ofNat {n : Nat} {c : Char} (h : c ∈ ofNat n) : c.isDigit = true :=
  Nat.isDigit_of_mem_toDigits (by decide) (by decide) h

theorem ofNat_ne_nil (n : Nat) : ofNat n ≠ [] := Nat.toDigits_ne_nil

theorem foldl_digits {t : Text} (h : ∀ c ∈ t, c.isDigit = true) (n : Nat) :
    t.foldl (fun n c => 10 * n + (digitValue? c).getD 0) n = Nat.ofDigitChars 10 t n := by
  induction t generalizing n with
  | nil => simp
  | cons c t ih =>
    have hc := digitValue?_of_asciiDigit (h c (by simp))
    rw [List.foldl_cons, Nat.ofDigitChars_cons, hc]
    exact ih (fun d hd => h d (by simp [hd])) _

theorem digitsValue_ofNat (n : Nat) : digitsValue (ofNat n) = n := by
  rw [digitsValue, foldl_digits fun c hc => asciiDigit_of_mem_ofNat hc]
  exact Nat.ofDigitChars_ten_toDigits

theorem not_isBlank_of_asciiDigit {c : Char} (h : c.isDigit = true) : isBlank c = false := by
  simp only [Char.isDigit, Bool.and_eq_true, decide_eq_true_eq] at h
  have h1 : 48 ≤ c.toNat := h.1
  have h2 : c.toNat ≤ 57 := h.2
  simp [isBlank]
  omega

end TodoTracker.Text
