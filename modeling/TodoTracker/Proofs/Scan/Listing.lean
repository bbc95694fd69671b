import Mathlib.Data.List.Basic
import TodoTracker.Scan.Item

/-!
# Items in the order of reports

Any two items can be compared, by their files and then by their places in them, so items of different
files never come at the same place.
-/

set_option autoImplicit false

namespace TodoTracker

namespace Text

variable {s t u : Text}

theorem le_total (s t : Text) : (le s t || le t s) = true := by
  induction s generalizing t with
  | nil => rfl
  | cons a s ih =>
    cases t with
    | nil => rfl
    | cons b t =>
      rw [le, le]
      by_cases hab : a = b
      · rw [if_pos hab, if_pos hab.symm]
        exact ih t
      · have hne : a.toNat ≠ b.toNat := fun h => hab (Char.toNat_inj.1 h)
        rw [if_neg hab, if_neg (Ne.symm hab), Bool.or_eq_true, decide_eq_true_eq,
          decide_eq_true_eq]
        omega

theorem le_antisymm (h : le s t = true) (h' : le t s = true) : s = t := by
  induction s generalizing t with
  | nil =>
    cases t with
    | nil => rfl
    | cons b t => cases h'
  | cons a s ih =>
    cases t with
    | nil => cases h
    | cons b t =>
      rw [le] at h h'
      by_cases hab : a = b
      · rw [if_pos hab] at h
        rw [if_pos hab.symm] at h'
        rw [hab, ih h h']
      · rw [if_neg hab, decide_eq_true_eq] at h
        rw [if_neg (Ne.symm hab), decide_eq_true_eq] at h'
        omega

theorem le_trans (h : le s t = true) (h' : le t u = true) : le s u = true := by
  induction s generalizing t u with
  | nil => rfl
  | cons a s ih =>
    cases t with
    | nil => cases h
    | cons b t =>
      cases u with
      | nil => cases h'
      | cons c u =>
        rw [le] at h h' ⊢
        by_cases hab : a = b
        · subst hab
          rw [if_pos rfl] at h
          by_cases hac : a = c
          · rw [if_pos hac] at h' ⊢
            exact ih h h'
          · rw [if_neg hac] at h' ⊢
            exact h'
        · rw [if_neg hab, decide_eq_true_eq] at h
          by_cases hbc : b = c
          · subst hbc
            rw [if_neg hab, decide_eq_true_eq]
            exact h
          · rw [if_neg hbc, decide_eq_true_eq] at h'
            have hac : a ≠ c := by
              rintro rfl
              omega
            rw [if_neg hac, decide_eq_true_eq]
            omega

end Text

namespace ScanItem

variable {a b c : ScanItem}

theorem order_total (a b : ScanItem) : (order a b || order b a) = true := by
  rw [order, order]
  by_cases hfile : a.file = b.file
  · rw [if_neg (by simpa using hfile), if_neg (by simpa using hfile.symm)]
    simp only [Bool.or_eq_true, Bool.and_eq_true, decide_eq_true_eq, beq_iff_eq]
    omega
  · rw [if_pos hfile, if_pos (Ne.symm hfile)]
    exact Text.le_total a.file b.file

theorem order_trans (h : order a b = true) (h' : order b c = true) : order a c = true := by
  rw [order] at h h' ⊢
  by_cases hab : a.file = b.file
  · rw [if_neg (by simpa using hab)] at h
    by_cases hbc : b.file = c.file
    · rw [if_neg (by simpa using hbc)] at h'
      rw [if_neg (by simpa using hab.trans hbc)]
      simp only [Bool.or_eq_true, Bool.and_eq_true, decide_eq_true_eq, beq_iff_eq] at h h' ⊢
      omega
    · rw [if_pos hbc] at h'
      rw [if_pos (hab ▸ hbc), hab]
      exact h'
  · rw [if_pos hab] at h
    by_cases hbc : b.file = c.file
    · rw [if_pos (hbc ▸ hab), ← hbc]
      exact h
    · rw [if_pos hbc] at h'
      have hac : a.file ≠ c.file := by
        intro hac
        rw [← hac] at h'
        exact hab (Text.le_antisymm h h')
      rw [if_pos hac]
      exact Text.le_trans h h'

/-- Items of different files do not come at the same place. -/
theorem file_eq_of_order (h : order a b = true) (h' : order b a = true) : a.file = b.file := by
  by_contra hfile
  rw [order, if_pos hfile] at h
  rw [order, if_pos (Ne.symm hfile)] at h'
  exact hfile (Text.le_antisymm h h')

end ScanItem

end TodoTracker
