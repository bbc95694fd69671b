import TodoTracker.Edit.Splice

/-!
# Splices in order

Splices that come in order and keep clear of each other are applied as they stand. A text that is
inserted in front of them only moves their columns.
-/

set_option autoImplicit false

namespace TodoTracker.Splice

/-- Splices of a line from left to right, none of them reaching into the next one. -/
def Ordered (splices : List Splice) : Prop :=
  splices.Pairwise fun a b => a.start < b.start ∧ a.stop ≤ b.start

theorem order_eq_true_iff {a b : Splice} :
    order a b = true ↔ a.start < b.start ∨ a.start = b.start ∧ a.stop ≤ b.stop := by
  simp [order]

theorem order_total (a b : Splice) : (order a b || order b a) = true := by
  rw [Bool.or_eq_true, order_eq_true_iff, order_eq_true_iff]
  omega

theorem order_trans {a b c : Splice} (h : order a b = true) (h' : order b c = true) :
    order a c = true := by
  rw [order_eq_true_iff] at *
  omega

theorem pairwise_order (splices : List Splice) :
    (splices.mergeSort order).Pairwise fun a b => order a b = true :=
  @List.pairwise_mergeSort _ order (fun _ _ _ => order_trans) order_total splices

theorem overlap?_eq_none {splices : List Splice}
    (h : splices.Pairwise fun a b => a.stop ≤ b.start) : overlap? splices = none := by
  induction splices with
  | nil => rfl
  | cons a rest ih =>
    obtain ⟨hfirst, hrest⟩ := List.pairwise_cons.1 h
    cases rest with
    | nil => rfl
    | cons b rest =>
      have hle := hfirst b List.mem_cons_self
      rw [overlap?, if_neg (Nat.not_lt.2 hle)]
      exact ih hrest

theorem applyAll_of_ordered {splices : List Splice} (h : Ordered splices) (line : Text) :
    applyAll line splices = .ok (applyOrdered line splices) := by
  have hsorted : splices.mergeSort order = splices := by
    apply List.mergeSort_of_pairwise
    apply h.imp
    intro a b hab
    simp only [order, Bool.or_eq_true, decide_eq_true_eq]
    exact .inl hab.1
  simp only [applyAll, hsorted, overlap?_eq_none (h.imp And.right)]

/-- The same splice for a text with `k` more characters in front. -/
def add (k : Nat) (splice : Splice) : Splice := ⟨splice.start + k, splice.stop + k, splice.text⟩

/-- The same splice for a text without its first `k` characters. -/
def sub (k : Nat) (splice : Splice) : Splice := ⟨splice.start - k, splice.stop - k, splice.text⟩

theorem sub_add (m n : Nat) (splice : Splice) : (splice.add n).sub (m + n) = splice.sub m := by
  simp only [add, sub, mk.injEq, and_true]
  omega

theorem apply_append {a : Text} {splice : Splice} (hstart : a.length ≤ splice.start)
    (hstop : splice.start ≤ splice.stop) (b : Text) :
    splice.apply (a ++ b) = a ++ (splice.sub a.length).apply b := by
  rw [apply, apply, sub, List.take_append, List.drop_append, List.take_of_length_le hstart,
    List.drop_eq_nil_of_le (Nat.le_trans hstart hstop)]
  simp only [List.append_assoc, List.nil_append]

/-- Splices behind the front of a line leave the front as it is. -/
theorem applyOrdered_append {a : Text} {splices : List Splice}
    (h : ∀ s ∈ splices, a.length ≤ s.start ∧ s.start ≤ s.stop) (b : Text) :
    applyOrdered (a ++ b) splices = a ++ applyOrdered b (splices.map (sub a.length)) := by
  induction splices with
  | nil => rfl
  | cons s rest ih =>
    obtain ⟨hstart, hstop⟩ := h s List.mem_cons_self
    have hcons : ∀ line, applyOrdered line (s :: rest) = s.apply (applyOrdered line rest) :=
      fun _ => rfl
    have hmap : applyOrdered b ((s :: rest).map (sub a.length)) =
        (s.sub a.length).apply (applyOrdered b (rest.map (sub a.length))) := rfl
    rw [hcons, hmap, ih fun s hs => h s (List.mem_cons_of_mem _ hs), apply_append hstart hstop]

/-- Splices behind a text that is inserted. -/
theorem applyOrdered_insert {a : Text} {splices : List Splice}
    (h : ∀ s ∈ splices, a.length ≤ s.start ∧ s.start ≤ s.stop) (t b : Text) :
    applyOrdered (a ++ (t ++ b)) (splices.map (add t.length)) =
      a ++ (t ++ applyOrdered b (splices.map (sub a.length))) := by
  have hbehind : ∀ s ∈ splices.map (add t.length),
      (a ++ t).length ≤ s.start ∧ s.start ≤ s.stop := by
    intro moved hmoved
    obtain ⟨s, hs, rfl⟩ := List.mem_map.1 hmoved
    obtain ⟨hstart, hstop⟩ := h s hs
    rw [List.length_append]
    exact ⟨Nat.add_le_add_right hstart _, Nat.add_le_add_right hstop _⟩
  rw [← List.append_assoc, applyOrdered_append hbehind, List.map_map, List.append_assoc,
    List.length_append]
  congr 3
  apply List.map_congr_left
  intro s _
  exact sub_add a.length t.length s

/-- The lines from `number` on, each with its splices applied. -/
def applyLines (splices : Nat → List Splice) (number : Nat) :
    List Text → Except Overlap (List Text)
  | [] => .ok []
  | line :: lines => do
    let line ← applyAll line (splices number)
    let lines ← applyLines splices (number + 1) lines
    return line :: lines

theorem applyLines_congr {splices splices' : Nat → List Splice} {number : Nat}
    (h : ∀ n, number ≤ n → splices n = splices' n) (lines : List Text) :
    applyLines splices number lines = applyLines splices' number lines := by
  induction lines generalizing number with
  | nil => rfl
  | cons line lines ih =>
    rw [applyLines, applyLines, h number (Nat.le_refl _), ih fun n hn => h n (Nat.le_of_lt hn)]

theorem applyLines_cons {splices : Nat → List Splice} {number : Nat} {line line' : Text}
    {lines lines' : List Text} (hline : applyAll line (splices number) = .ok line')
    (hlines : applyLines splices (number + 1) lines = .ok lines') :
    applyLines splices number (line :: lines) = .ok (line' :: lines') := by
  rw [applyLines, hline, hlines]
  rfl

end TodoTracker.Splice
