import TodoTracker.Proofs.Json.Number
import TodoTracker.Proofs.Json.Quoted
import TodoTracker.Text.Blank

/-!
# The characters of a printed document

A printed document has characters of ASCII only, and no carriage return among them. So nothing happens
to its lines between the memory and a file: they end as they did.
-/

set_option autoImplicit false

namespace TodoTracker

/-- Characters of ASCII, and no carriage return among them. -/
def Text.Plain (t : Text) : Prop := ∀ c ∈ t, c.toNat < 128 ∧ c ≠ '\r'

namespace Text.Plain

variable {s t : Text}

theorem append (hs : Plain s) (ht : Plain t) : Plain (s ++ t) :=
  fun c hc => (List.mem_append.1 hc).elim (hs c) (ht c)

theorem cons {c : Char} (hc : c.toNat < 128 ∧ c ≠ '\r') (ht : Plain t) : Plain (c :: t) :=
  List.forall_mem_cons.2 ⟨hc, ht⟩

theorem unifyNewlines {t : Text} (h : Plain t) : Text.unifyNewlines t = t := by
  induction t with
  | nil => rfl
  | cons c t ih =>
    obtain ⟨⟨-, hc⟩, ht⟩ := List.forall_mem_cons.1 h
    rw [Text.unifyNewlines, if_neg hc, ih ht]
    exact fun _ heq _ => hc heq

end Text.Plain

namespace Json

open Text

theorem plain_of_isDigit {c : Char} (h : c.isDigit = true) : c.toNat < 128 ∧ c ≠ '\r' := by
  simp only [Char.isDigit, Bool.and_eq_true, decide_eq_true_eq] at h
  have hlow : 48 ≤ c.toNat := h.1
  have hhigh : c.toNat ≤ 57 := h.2
  refine ⟨by omega, ?_⟩
  rintro rfl
  exact absurd hlow (by decide)

theorem Digits.plain {t : Text} (h : Digits t) : Plain t := fun c hc => plain_of_isDigit (h c hc)

theorem Numeral.plain {sign whole fraction exponent : Text}
    (h : Numeral sign whole fraction exponent) :
    Plain (sign ++ (whole ++ (fraction ++ exponent))) := by
  have hsign : Plain sign := by
    rcases h.sign with rfl | rfl <;> simp [Plain]
  have hfraction : Plain fraction := by
    rcases h.fraction with rfl | ⟨ds, -, hds, rfl⟩
    · exact nofun
    · exact .cons (by decide) hds.plain
  have hexponent : Plain exponent := by
    rcases h.exponent with rfl | ⟨s, ds, hs, -, hds, rfl⟩
    · exact nofun
    · refine .cons (by decide) (.cons ?_ hds.plain)
      rcases hs with rfl | rfl <;> decide
  exact hsign.append (h.digits.plain.append (hfraction.append hexponent))

theorem plain_ofInt (n : Int) : Plain (Text.ofInt n) := by
  cases n with
  | ofNat n => exact (digits_ofNat n).plain
  | negSucc n => exact .cons (by decide) (digits_ofNat (n + 1)).plain

theorem plain_text (value : Decimal) : Plain value.text := by
  cases value with
  | undefined => simp [Decimal.text, Plain]
  | infinite negative => cases negative <;> simp [Decimal.text, Decimal.signed, Plain]
  | finite negative significand exponent =>
    obtain ⟨sign, whole, fraction, exp, hnumeral, -, htext⟩ :=
      Decimal.exists_numeral_text negative significand exponent
    rw [htext]
    exact hnumeral.plain

theorem plain_digitChar : ∀ d < 16, (Nat.digitChar d).toNat < 128 ∧ Nat.digitChar d ≠ '\r' := by
  decide

theorem plain_escapeUnit {n : Nat} (h : n < 0x10000) : Plain (escapeUnit n) := by
  rw [escapeUnit_eq, Text.hex_four h]
  refine .cons (by decide) (.cons (by decide) ?_)
  exact .cons (plain_digitChar _ (by omega)) (.cons (plain_digitChar _ (by omega))
    (.cons (plain_digitChar _ (by omega)) (.cons (plain_digitChar _ (by omega)) nofun)))

theorem plain_escapeChar (c : Char) : Plain (escapeChar c) := by
  have hvalid := toNat_lt c
  rw [escapeChar]
  split
  · simp [Plain]
  split
  · simp [Plain]
  split
  · simp [Plain]
  split
  · simp [Plain]
  split
  · simp [Plain]
  split
  · simp [Plain]
  split
  · simp [Plain]
  split
  · rename_i hreturn _ _ _ hplain
    exact .cons ⟨by omega, hreturn⟩ (List.forall_mem_nil _)
  split
  · rename_i hunit
    exact plain_escapeUnit hunit
  · exact .append (plain_escapeUnit (by omega)) (plain_escapeUnit (by omega))

theorem plain_printText (t : Text) : Plain (printText t) := by
  rw [printText]
  refine .append (.cons (by decide) fun c hc => ?_) (by simp [Plain])
  obtain ⟨d, -, hd⟩ := List.mem_flatMap.1 hc
  exact plain_escapeChar d c hd

theorem plain_newline (depth : Nat) : Plain (newline depth) :=
  .cons (by decide) fun c hc => by
    rw [List.eq_of_mem_replicate hc]
    decide

mutual

theorem plain_printAt (depth : Nat) : ∀ value, Plain (printAt depth value)
  | .null => by simp [printAt, Plain]
  | .bool b => by cases b <;> simp [printAt, printBool, Plain]
  | .int n => by
    rw [printAt]
    exact plain_ofInt n
  | .decimal value => by
    rw [printAt]
    exact plain_text value
  | .str t => by
    rw [printAt]
    exact plain_printText t
  | .list [] => by simp [printAt, Plain]
  | .list (item :: items) => by
    rw [printAt]
    exact ((((Plain.cons (by decide) (plain_newline _)).append (plain_printAt _ item)).append
      (plain_printItems _ items)).append (plain_newline _)).append (by simp [Plain])
  | .object [] => by simp [printAt, Plain]
  | .object ((name, value) :: fields) => by
    rw [printAt]
    exact ((((((Plain.cons (by decide) (plain_newline _)).append (plain_printText name)).append
      (by simp [Plain])).append (plain_printAt _ value)).append (plain_printFields _ fields)).append
      (plain_newline _)).append (by simp [Plain])

theorem plain_printItems (depth : Nat) : ∀ items, Plain (printItems depth items)
  | [] => by simp [printItems, Plain]
  | item :: items => by
    rw [printItems]
    exact ((Plain.cons (by decide) (plain_newline _)).append (plain_printAt _ item)).append
      (plain_printItems _ items)

theorem plain_printFields (depth : Nat) : ∀ fields, Plain (printFields depth fields)
  | [] => by simp [printFields, Plain]
  | (name, value) :: fields => by
    rw [printFields]
    exact ((((Plain.cons (by decide) (plain_newline _)).append (plain_printText name)).append
      (by simp [Plain])).append (plain_printAt _ value)).append (plain_printFields _ fields)

end

end Json

end TodoTracker
