import TodoTracker.Proofs.Edit.Lines

/-!
# Lines with a placeholder

The splices that write a placeholder into a line and those that write keys in its stead change the
line in the same places. So the two new lines are the same, but that one of them has the keys where
the other has the placeholder.
-/

set_option autoImplicit false

namespace TodoTracker

namespace Text

/-- A text in which the places of a placeholder are filled with keys, one after another. -/
inductive Filled (placeholder : Text) : List Text → Text → Text → Prop
  | done (t : Text) : Filled placeholder [] t t
  | key {keys : List Text} {t t' : Text} (before key : Text) (h : Filled placeholder keys t t') :
      Filled placeholder (key :: keys) (before ++ (placeholder ++ t)) (before ++ (key ++ t'))

variable {placeholder t t' : Text} {keys : List Text}

theorem Filled.behind (h : Filled placeholder keys t t') (front : Text) :
    Filled placeholder keys (front ++ t) (front ++ t') := by
  cases h with
  | done => exact .done _
  | key before key h =>
    rw [← List.append_assoc front, ← List.append_assoc front]
    exact .key (front ++ before) key h

end Text

namespace Splice

variable {placeholder line : Text} {keys keys' : List Text} {splices splices' others others' :
  List Splice}

/-- The splice that writes a key in parentheses after a column. -/
def writing (key : Text) (column : Nat) : Splice := ⟨column, column, '(' :: (key ++ [')'])⟩

/-- Splices that are the same, but that some write keys where others write a placeholder. -/
inductive Counterparts (placeholder : Text) : List Text → List Splice → List Splice → Prop
  | nil : Counterparts placeholder [] [] []
  | same {keys : List Text} {splices splices' : List Splice} (s : Splice)
      (h : Counterparts placeholder keys splices splices') :
      Counterparts placeholder keys (s :: splices) (s :: splices')
  | written {keys : List Text} {splices splices' : List Splice} (key : Text) (column : Nat)
      (h : Counterparts placeholder keys splices splices') :
      Counterparts placeholder (key :: keys) (writing placeholder column :: splices)
        (writing key column :: splices')

namespace Counterparts

theorem refl (placeholder : Text) (splices : List Splice) :
    Counterparts placeholder [] splices splices := by
  induction splices with
  | nil => exact .nil
  | cons s splices ih => exact .same s ih

theorem append (h : Counterparts placeholder keys splices splices')
    (hothers : Counterparts placeholder keys' others others') :
    Counterparts placeholder (keys ++ keys') (splices ++ others) (splices' ++ others') := by
  induction h with
  | nil => exact hothers
  | same s _ ih => exact .same s ih
  | written key column _ ih => exact .written key column ih

theorem eq_nil_iff (h : Counterparts placeholder keys splices splices') :
    splices = [] ↔ splices' = [] := by
  cases h <;> simp

end Counterparts

theorem InTurn.tail {first : Splice} {column last : Nat}
    (h : InTurn column last (first :: splices)) : InTurn first.stop last splices := by
  obtain ⟨hbehind, hpairwise⟩ := List.pairwise_cons.1 h.pairwise
  exact ⟨fun s hs => ⟨hbehind s hs, (h.within s (List.mem_cons_of_mem _ hs)).2⟩, hpairwise⟩

/-- The first splice leaves what is in front of it, and the others are applied behind it. -/
theorem drop_applyOrdered_cons {first : Splice} {column : Nat}
    (h : InTurn column line.length (first :: splices)) :
    (applyOrdered line (first :: splices)).drop column =
      (line.take first.start).drop column ++
        (first.text ++ (applyOrdered line splices).drop first.stop) := by
  obtain ⟨hcolumn, hle, hstop⟩ := h.within first List.mem_cons_self
  have hlength : (line.take first.stop).length = first.stop := List.length_take_of_le hstop
  have hbehind : ∀ s ∈ splices, (line.take first.stop).length ≤ s.start ∧ s.start ≤ s.stop :=
    fun s hs => ⟨hlength.symm ▸ (h.tail.within s hs).1, (h.tail.within s hs).2.1⟩
  have hfront : (applyOrdered line splices).take first.start = line.take first.start := by
    have happend := applyOrdered_append hbehind (line.drop first.stop)
    rw [List.take_append_drop] at happend
    rw [happend, List.take_append_of_le_length (hlength.symm ▸ hle), List.take_take,
      Nat.min_eq_left hle]
  change ((applyOrdered line splices).take first.start ++ first.text ++
    (applyOrdered line splices).drop first.stop).drop column = _
  have hlong : column ≤ (line.take first.start).length := by
    rwa [List.length_take_of_le (Nat.le_trans hle hstop)]
  rw [hfront, List.append_assoc, List.drop_append_of_le_length hlong]

/-- Splices that write keys fill the places of the placeholder. -/
theorem Counterparts.filled_drop {column : Nat}
    (h : Counterparts placeholder keys splices splices')
    (hturn : InTurn column line.length splices) (hturn' : InTurn column line.length splices') :
    Text.Filled placeholder keys ((applyOrdered line splices).drop column)
      ((applyOrdered line splices').drop column) := by
  induction h generalizing column with
  | nil => exact .done _
  | same s _ ih =>
    rw [drop_applyOrdered_cons hturn, drop_applyOrdered_cons hturn']
    exact ((ih hturn.tail hturn'.tail).behind s.text).behind _
  | written key start _ ih =>
    rw [drop_applyOrdered_cons hturn, drop_applyOrdered_cons hturn']
    have hrest := (ih hturn.tail hturn'.tail).behind [')']
    simpa [writing] using (Text.Filled.key ['('] key hrest).behind ((line.take start).drop column)

theorem Counterparts.filled (h : Counterparts placeholder keys splices splices')
    (hturn : InTurn 0 line.length splices) (hturn' : InTurn 0 line.length splices') :
    Text.Filled placeholder keys (applyOrdered line splices) (applyOrdered line splices') :=
  h.filled_drop hturn hturn'

end Splice

end TodoTracker
