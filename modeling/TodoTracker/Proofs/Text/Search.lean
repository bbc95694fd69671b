import TodoTracker.Text.Basic

/-!
# Searching around an insertion

A text is cut in two and something is inserted at the cut. What is found in front of the cut stays
where it is, and what is found behind it moves on by the length of the insertion. A needle that
covers the cut has the end of the front part in it.
-/

set_option autoImplicit false

namespace TodoTracker.Text

theorem indexOf?_cons (needle : Text) (c : Char) (rest : Text) :
    indexOf? needle (c :: rest) =
      if needle.isPrefixOf (c :: rest) then some 0 else (indexOf? needle rest).map (· + 1) := rfl

/-- The first occurrence is an occurrence. -/
theorem indexOf?_eq_some {needle t : Text} {i : Nat} (h : indexOf? needle t = some i) :
    needle <+: t.drop i ∧ i + needle.length ≤ t.length := by
  induction t generalizing i with
  | nil =>
    rw [indexOf?] at h
    split at h
    · rename_i hempty
      cases h
      rw [List.isEmpty_iff.1 hempty]
      simp
    · cases h
  | cons c t ih =>
    rw [indexOf?_cons] at h
    split at h
    · rename_i hstarts
      cases h
      have hp := List.isPrefixOf_iff_prefix.1 hstarts
      exact ⟨hp, by simpa using hp.length_le⟩
    · obtain ⟨j, hj, rfl⟩ := Option.map_eq_some_iff.1 h
      obtain ⟨hp, hle⟩ := ih hj
      exact ⟨hp, by rw [List.length_cons]; omega⟩

/-- A needle that starts in the front part and reaches over the cut has the end of that part in
it. -/
theorem drop_prefix_of_cross {needle a b : Text} {p : Nat} (h : needle <+: (a ++ b).drop p)
    (hp : p ≤ a.length) (hcross : a.length ≤ p + needle.length) : a.drop p <+: needle := by
  rw [List.drop_append_of_le_length hp] at h
  apply List.prefix_of_prefix_length_le (List.prefix_append _ _) h
  rw [List.length_drop]
  omega

/-- Nothing in front of the first occurrence is one. -/
theorem not_prefix_of_lt_indexOf? {needle t : Text} {i p : Nat} (h : indexOf? needle t = some i)
    (hp : p < i) : ¬needle <+: t.drop p := by
  induction t generalizing i p with
  | nil =>
    rw [indexOf?] at h
    split at h
    · cases h
      omega
    · cases h
  | cons c t ih =>
    rw [indexOf?_cons] at h
    split at h
    · cases h
      omega
    · rename_i hstarts
      obtain ⟨j, hj, rfl⟩ := Option.map_eq_some_iff.1 h
      cases p with
      | zero => exact fun hzero => hstarts (List.isPrefixOf_iff_prefix.2 hzero)
      | succ p => exact ih hj (by omega)

theorem not_prefix_of_indexOf?_none {needle t : Text} (h : indexOf? needle t = none) (p : Nat)
    (hp : p < t.length) : ¬needle <+: t.drop p := by
  induction t generalizing p with
  | nil => simp at hp
  | cons c t ih =>
    rw [indexOf?_cons] at h
    split at h
    · cases h
    · rename_i hstarts
      cases p with
      | zero => exact fun hzero => hstarts (List.isPrefixOf_iff_prefix.2 hzero)
      | succ p => exact ih (Option.map_eq_none_iff.1 h) p (by simpa using hp)

/-- A needle is found exactly where it occurs. -/
theorem isSome_indexOf?_iff {needle t : Text} (h : needle ≠ []) :
    (indexOf? needle t).isSome ↔ needle <:+: t := by
  constructor
  · intro hfound
    obtain ⟨i, hi⟩ := Option.isSome_iff_exists.1 hfound
    exact (indexOf?_eq_some hi).1.isInfix.trans (List.drop_suffix i t).isInfix
  · rintro ⟨a, b, rfl⟩
    cases hi : indexOf? needle (a ++ needle ++ b) with
    | some i => rfl
    | none =>
      have hpos := List.length_pos_iff.2 h
      have hmiss := not_prefix_of_indexOf?_none hi a.length (by simp; omega)
      simp [List.append_assoc] at hmiss

/-- The needle starts nowhere in `a` when `b` follows. -/
def FreeOf (needle a b : Text) : Prop := ∀ p < a.length, ¬needle <+: (a ++ b).drop p

theorem freeOf_append {needle a b c : Text} (ha : FreeOf needle a (b ++ c))
    (hb : FreeOf needle b c) : FreeOf needle (a ++ b) c := by
  intro p hp
  rw [List.append_assoc]
  by_cases h : p < a.length
  · exact ha p h
  · obtain ⟨q, rfl⟩ := Nat.exists_eq_add_of_le (Nat.le_of_not_lt h)
    rw [List.length_append] at hp
    rw [← List.drop_drop, List.drop_left]
    exact hb q (by omega)

theorem freeOf_of_indexOf? {needle a b : Text} (h : ∀ i ∈ indexOf? needle (a ++ b), a.length ≤ i) :
    FreeOf needle a b := by
  intro p hp hstarts
  cases hi : indexOf? needle (a ++ b) with
  | none => exact not_prefix_of_indexOf?_none hi p (by rw [List.length_append]; omega) hstarts
  | some i =>
    have hle := h i hi
    exact not_prefix_of_lt_indexOf? hi (by omega) hstarts

/-- No needle starts where its first character does not occur. -/
theorem freeOf_of_head {needle a : Text} {d : Char} (hneedle : needle.head? = some d)
    (h : d ∉ a) (b : Text) : FreeOf needle a b := by
  intro p hp hstarts
  rw [List.drop_append_of_le_length (Nat.le_of_lt hp), List.drop_eq_getElem_cons hp] at hstarts
  cases needle with
  | nil => cases hneedle
  | cons e needle =>
    cases hneedle
    have hhead : d = a[p] := (List.cons_prefix_cons.1 hstarts).1
    exact h (hhead ▸ List.getElem_mem hp)

/-- A needle that does not start in `a` does not start there when something else follows, if it
cannot reach over the end of `a`. -/
theorem FreeOf.change {needle a b : Text} {d : Char} (h : FreeOf needle a b)
    (hlast : a.getLast? = some d) (hd : d ∉ needle) (c : Text) : FreeOf needle a c := by
  intro p hp hstarts
  by_cases hle : p + needle.length ≤ a.length
  · apply h p hp
    rw [List.drop_append_of_le_length (Nat.le_of_lt hp)] at hstarts ⊢
    apply List.IsPrefix.trans _ (List.prefix_append _ _)
    apply List.prefix_of_prefix_length_le hstarts (List.prefix_append _ _)
    rw [List.length_drop]
    omega
  · apply hd
    have hcross := drop_prefix_of_cross hstarts (Nat.le_of_lt hp) (by omega)
    have hmem : d ∈ a.drop p := by
      apply List.mem_of_getLast?
      rw [List.getLast?_drop, if_neg (by omega), hlast]
    exact hcross.subset hmem

/-- A needle that starts nowhere in the front part is searched behind it. -/
theorem indexOf?_append_of_free {needle a b : Text} (h : FreeOf needle a b) :
    indexOf? needle (a ++ b) = (indexOf? needle b).map (· + a.length) := by
  induction a with
  | nil => simp
  | cons c a ih =>
    have hzero : ¬needle.isPrefixOf (c :: (a ++ b)) = true := fun hp =>
      h 0 (by simp) (List.isPrefixOf_iff_prefix.1 hp)
    rw [List.cons_append, indexOf?_cons, if_neg hzero,
      ih fun p hp => h (p + 1) (by simpa using hp), Option.map_map]
    rfl

/-- What is found in the front part is found there whatever comes behind. -/
theorem indexOf?_append_of_le {needle a b : Text} {i : Nat}
    (h : indexOf? needle (a ++ b) = some i) (hle : i + needle.length ≤ a.length) (c : Text) :
    indexOf? needle (a ++ c) = some i := by
  induction a generalizing i with
  | nil =>
    obtain ⟨rfl, hneedle⟩ : i = 0 ∧ needle = [] := by
      rw [List.length_nil] at hle
      exact ⟨by omega, List.length_eq_zero_iff.1 (by omega)⟩
    subst hneedle
    cases c <;> rfl
  | cons d a ih =>
    have hstarts : ∀ t : Text, needle.length ≤ (d :: a).length →
        (needle.isPrefixOf (d :: (a ++ t)) = true ↔ needle <+: d :: a) := by
      intro t hlen
      rw [List.isPrefixOf_iff_prefix, ← List.cons_append]
      exact ⟨fun hp => List.prefix_of_prefix_length_le hp (List.prefix_append ..) hlen,
        fun hp => hp.trans (List.prefix_append ..)⟩
    rw [List.cons_append, indexOf?_cons] at h ⊢
    have hlen : needle.length ≤ (d :: a).length := by omega
    by_cases hp : needle <+: d :: a
    · rw [if_pos ((hstarts b hlen).2 hp)] at h
      rw [if_pos ((hstarts c hlen).2 hp)]
      exact h
    · rw [if_neg fun hb => hp ((hstarts b hlen).1 hb)] at h
      rw [if_neg fun hc => hp ((hstarts c hlen).1 hc)]
      obtain ⟨j, hj, rfl⟩ := Option.map_eq_some_iff.1 h
      rw [ih hj (by rw [List.length_cons] at hle; omega)]
      rfl

theorem takeWhile_append_of_head {p : Char → Bool} {s t : Text} (hs : ∀ c ∈ s, p c = true)
    (ht : t.head?.any p = false) : (s ++ t).takeWhile p = s := by
  rw [List.takeWhile_append_of_pos hs]
  cases t with
  | nil => simp
  | cons c t =>
    have hc : p c = false := ht
    simp [hc]

end TodoTracker.Text
