import Mathlib.Data.List.Basic
import Mathlib.Data.List.Perm.Basic

/-!
# Sorted lists

Sorting keeps members of the same place in the order in which they came. So lists that are put
together give the same sorted list in any order, when no two of them have members at the same place.
-/

set_option autoImplicit false

namespace TodoTracker

variable {α : Type} {blocks blocks' : List (List α)}

/-- What only one block has is found in the same order wherever the blocks are. -/
theorem filter_flatten_of_perm {p : α → Bool} (h : blocks.Perm blocks')
    (hone : blocks.Pairwise fun b b' => b.filter p = [] ∨ b'.filter p = []) :
    blocks.flatten.filter p = blocks'.flatten.filter p := by
  induction h with
  | nil => rfl
  | cons b _ ih =>
    rw [List.flatten_cons, List.flatten_cons, List.filter_append, List.filter_append,
      ih (List.pairwise_cons.1 hone).2]
  | swap b b' blocks =>
    have hapart := (List.pairwise_cons.1 hone).1 b List.mem_cons_self
    simp only [List.flatten_cons, List.filter_append]
    rcases hapart with hnone | hnone <;> simp [hnone]
  | trans h _ ih ih' =>
    exact (ih hone).trans (ih' (hone.perm h fun hb => hb.symm))

variable {le : α → α → Bool}

/-- Sorting keeps the order of members that are as good as each other. -/
theorem filter_mergeSort (htrans : ∀ a b c, le a b = true → le b c = true → le a c = true)
    (htotal : ∀ a b, (le a b || le b a) = true) {p : α → Bool} (l : List α)
    (hp : ∀ a b, p a = true → p b = true → le a b = true) :
    (l.mergeSort le).filter p = l.filter p := by
  have hsorted : (l.filter p).Pairwise fun a b => le a b = true := by
    refine List.Pairwise.imp_of_mem (R := fun _ _ => True) ?_ (List.pairwise_of_forall (by simp))
    intro a b ha hb _
    exact hp a b (List.mem_filter.1 ha).2 (List.mem_filter.1 hb).2
  have hsub : (l.filter p).Sublist ((l.mergeSort le).filter p) := by
    have hfilter := (List.sublist_mergeSort htrans htotal hsorted List.filter_sublist).filter p
    simpa only [List.filter_filter, Bool.and_self] using hfilter
  have hlength := ((List.mergeSort_perm l le).filter p).length_eq
  exact (hsub.eq_of_length hlength.symm).symm

/-- Sorted lists are the same when they are so at every place. -/
theorem eq_of_filter_eq (htotal : ∀ a b, (le a b || le b a) = true) {l l' : List α}
    (h : l.Pairwise fun a b => le a b) (h' : l'.Pairwise fun a b => le a b)
    (hplace : ∀ a, l.filter (fun b => le a b && le b a) = l'.filter fun b => le a b && le b a) :
    l = l' := by
  have hrefl : ∀ a, le a a = true := fun a => by simpa using htotal a a
  have hmem : ∀ {m m' : List α}, (∀ a, m.filter (fun b => le a b && le b a) =
      m'.filter fun b => le a b && le b a) → ∀ a ∈ m, a ∈ m' := by
    intro m m' hsame a ha
    have hin : a ∈ m.filter fun b => le a b && le b a := by simp [ha, hrefl]
    rw [hsame a] at hin
    exact (List.mem_filter.1 hin).1
  induction l generalizing l' with
  | nil =>
    rw [eq_comm, List.eq_nil_iff_forall_not_mem]
    exact fun a ha => absurd (hmem (fun a => (hplace a).symm) a ha) (by simp)
  | cons a l ih =>
    cases l' with
    | nil => exact absurd (hmem hplace a List.mem_cons_self) (by simp)
    | cons b l' =>
      obtain ⟨ha, hl⟩ := List.pairwise_cons.1 h
      obtain ⟨hb, hl'⟩ := List.pairwise_cons.1 h'
      have hab : le a b = true := by
        rcases List.mem_cons.1 (hmem (fun a => (hplace a).symm) b List.mem_cons_self) with heq | hin
        · exact heq ▸ hrefl a
        · exact ha b hin
      have hba : le b a = true := by
        rcases List.mem_cons.1 (hmem hplace a List.mem_cons_self) with heq | hin
        · exact heq ▸ hrefl b
        · exact hb a hin
      have hheads := hplace a
      rw [List.filter_cons_of_pos (by simp [hrefl]), List.filter_cons_of_pos (by simp [hab, hba])]
        at hheads
      obtain rfl : a = b := (List.cons.inj hheads).1
      congr 1
      refine ih hl hl' fun c => ?_
      have hc := hplace c
      rw [List.filter_cons, List.filter_cons] at hc
      split at hc
      · exact (List.cons.inj hc).2
      · exact hc

/-- Sorting lists that are put together gives the same in any order of the lists, when no two of
them have members at the same place. -/
theorem mergeSort_flatten_of_perm
    (htrans : ∀ a b c, le a b = true → le b c = true → le a c = true)
    (htotal : ∀ a b, (le a b || le b a) = true) (h : blocks.Perm blocks')
    (hapart : blocks.Pairwise fun b b' => ∀ x ∈ b, ∀ y ∈ b', ¬(le x y = true ∧ le y x = true)) :
    blocks.flatten.mergeSort le = blocks'.flatten.mergeSort le := by
  refine eq_of_filter_eq htotal (List.pairwise_mergeSort htrans htotal _)
    (List.pairwise_mergeSort htrans htotal _) fun a => ?_
  have hclass : ∀ x y, (le a x && le x a) = true → (le a y && le y a) = true → le x y = true := by
    intro x y hx hy
    rw [Bool.and_eq_true] at hx hy
    exact htrans x a y hx.2 hy.1
  rw [filter_mergeSort htrans htotal _ hclass, filter_mergeSort htrans htotal _ hclass]
  refine filter_flatten_of_perm h (hapart.imp fun hb => ?_)
  by_contra hboth
  rw [not_or] at hboth
  obtain ⟨x, hx⟩ := List.exists_mem_of_ne_nil _ hboth.1
  obtain ⟨y, hy⟩ := List.exists_mem_of_ne_nil _ hboth.2
  obtain ⟨hxmem, hx⟩ := List.mem_filter.1 hx
  obtain ⟨hymem, hy⟩ := List.mem_filter.1 hy
  exact hb x hxmem y hymem ⟨hclass x y hx hy, hclass y x hy hx⟩

end TodoTracker
