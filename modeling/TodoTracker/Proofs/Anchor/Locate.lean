import TodoTracker.Anchor.Check

/-!
# Where a lost key is found

A search for a key answers a line that holds it, and finds one whenever a line of the file does.
The line is the nearest one to where the key was, whatever the radius of the first search.
-/

set_option autoImplicit false

namespace TodoTracker

namespace KeyToken

theorem isAt_of_searchNear {lines : List Text} {expected n : Int} {key : Text} {distance left : Nat}
    (h : searchNear lines expected key distance left = some n) : isAt lines key n = true := by
  induction left generalizing distance with
  | zero => cases h
  | succ left ih =>
    rw [searchNear] at h
    split at h
    · cases h
      assumption
    · split at h
      · cases h
        assumption
      · exact ih h

theorem isAt_of_nearbyLine? {lines : List Text} {expected n radius : Int} {key : Text}
    (h : nearbyLine? lines expected key radius = some n) : isAt lines key n = true :=
  isAt_of_searchNear h

theorem nearer_eq (expected number : Int) (best : Option Int) :
    nearer expected number best = number ∨ best = some (nearer expected number best) := by
  cases best with
  | none => exact .inl rfl
  | some best =>
    rw [nearer]
    split
    · exact .inl rfl
    · exact .inr rfl

/-- A found line is the best line so far or one of those that were left. -/
theorem exists_of_nearestFrom {expected number n : Int} {key : Text} {best : Option Int}
    {lines : List Text} (h : nearestFrom expected key number best lines = some n) :
    best = some n ∨
      ∃ (i : Nat) (line : Text), lines[i]? = some line ∧ occursIn line key = true ∧
        n = number + i := by
  induction lines generalizing number best with
  | nil => exact .inl h
  | cons line rest ih =>
    rw [nearestFrom] at h
    rcases ih h with hbest | ⟨i, found, hi, hoccurs, rfl⟩
    · split at hbest
      · rename_i hoccurs
        cases hbest
        rcases nearer_eq expected number best with hn | hn
        · exact .inr ⟨0, line, rfl, hoccurs, by simp [hn]⟩
        · exact .inl hn
      · exact .inl hbest
    · exact .inr ⟨i + 1, found, hi, hoccurs, by push_cast; omega⟩

theorem isAt_of_nearestLine? {lines : List Text} {expected n : Int} {key : Text}
    (h : nearestLine? lines expected key = some n) : isAt lines key n = true := by
  rcases exists_of_nearestFrom h with hnone | ⟨i, line, hi, hoccurs, rfl⟩
  · cases hnone
  · have hline : ((1 : Int) + i - 1).toNat = i := by omega
    have hpos : (1 : Int) ≤ 1 + i := by omega
    rw [isAt, Bool.and_eq_true, decide_eq_true_eq, hline, hi]
    exact ⟨hpos, hoccurs⟩

theorem isSome_nearestFrom {expected number : Int} {key : Text} {best : Option Int}
    {lines : List Text} (h : best.isSome = true ∨ ∃ line ∈ lines, occursIn line key = true) :
    (nearestFrom expected key number best lines).isSome = true := by
  induction lines generalizing number best with
  | nil =>
    rcases h with h | ⟨line, hline, -⟩
    · exact h
    · cases hline
  | cons line rest ih =>
    rw [nearestFrom]
    apply ih
    by_cases hoccurs : occursIn line key = true
    · exact .inl (by rw [if_pos hoccurs]; rfl)
    · rw [if_neg hoccurs]
      rcases h with h | ⟨found, hfound, hkey⟩
      · exact .inl h
      · rcases List.mem_cons.1 hfound with rfl | hrest
        · exact absurd hkey hoccurs
        · exact .inr ⟨found, hrest, hkey⟩

theorem exists_mem_of_isAt {lines : List Text} {key : Text} {n : Int}
    (h : isAt lines key n = true) : ∃ line ∈ lines, occursIn line key = true := by
  rw [isAt, Bool.and_eq_true] at h
  cases hline : lines[(n - 1).toNat]? with
  | none =>
    rw [hline] at h
    cases h.2
  | some line =>
    rw [hline] at h
    exact ⟨line, List.mem_of_getElem? hline, h.2⟩

/-- A line that holds a key and is not farther from an expected line than any other that does; of
two at one distance it is the later. -/
structure Nearest (lines : List Text) (key : Text) (expected n : Int) : Prop where
  holds : isAt lines key n = true
  near : ∀ m, isAt lines key m = true → (n - expected).natAbs ≤ (m - expected).natAbs
  later : ∀ m, isAt lines key m = true → (m - expected).natAbs = (n - expected).natAbs → m ≤ n

/-- A key that is on the expected line is found there. -/
theorem Nearest.eq_of_isAt {lines : List Text} {key : Text} {expected n : Int}
    (h : Nearest lines key expected n) (hkey : isAt lines key expected = true) : n = expected := by
  have := h.near expected hkey
  omega

/-- The search goes outwards: no nearer line than those that are still to be tried holds the key. -/
theorem nearest_of_searchNear {lines : List Text} {expected n : Int} {key : Text}
    {distance left : Nat}
    (htried : ∀ m, isAt lines key m = true → distance ≤ (m - expected).natAbs)
    (h : searchNear lines expected key distance left = some n) : Nearest lines key expected n := by
  induction left generalizing distance with
  | zero => cases h
  | succ left ih =>
    rw [searchNear] at h
    split at h
    · rename_i hafter
      cases h
      refine ⟨hafter, fun m hm => ?_, fun m _ hsame => by omega⟩
      have := htried m hm
      omega
    · rename_i hafter
      split at h
      · rename_i hbefore
        cases h
        refine ⟨hbefore, fun m hm => ?_, fun m hm hsame => ?_⟩
        · have := htried m hm
          omega
        · have hne : m ≠ expected + distance := fun heq => hafter (heq ▸ hm)
          omega
      · rename_i hbefore
        refine ih (fun m hm => ?_) h
        have hne : m ≠ expected + distance := fun heq => hafter (heq ▸ hm)
        have hne' : m ≠ expected - distance := fun heq => hbefore (heq ▸ hm)
        have := htried m hm
        omega

/-- The best of the first `count` lines that hold a key, if there is one. -/
def BestOf (lines : List Text) (key : Text) (expected : Int) (count : Nat) : Option Int → Prop
  | none => ∀ m, isAt lines key m = true → (count : Int) < m
  | some best => isAt lines key best = true ∧ ∀ m, isAt lines key m = true → m ≤ count →
      (best - expected).natAbs ≤ (m - expected).natAbs ∧
        ((m - expected).natAbs = (best - expected).natAbs → m ≤ best)

theorem isAt_succ (lines : List Text) (key : Text) (count : Nat) :
    isAt lines key (count + 1) = (lines[count]?).any (occursIn · key) := by
  have hindex : ((count : Int) + 1 - 1).toNat = count := by omega
  have hpos : (1 : Int) ≤ count + 1 := by omega
  rw [isAt, hindex, decide_eq_true hpos, Bool.true_and]

/-- The line after the first `count` ones takes the place of the best one unless it is farther. -/
theorem BestOf.next {lines : List Text} {key line : Text} {expected : Int} {count : Nat}
    {best : Option Int} (h : BestOf lines key expected count best)
    (hline : lines[count]? = some line) :
    BestOf lines key expected (count + 1)
      (if occursIn line key then some (nearer expected (count + 1) best) else best) := by
  have hat : isAt lines key (count + 1) = occursIn line key := by
    rw [isAt_succ, hline]
    rfl
  have hlast : ∀ m : Int, isAt lines key m = true → m ≤ (count + 1 : Nat) →
      m ≤ count ∨ m = count + 1 ∧ occursIn line key = true := by
    intro m hm hle
    by_cases hcount : m ≤ count
    · exact .inl hcount
    · have heq : m = count + 1 := by omega
      exact .inr ⟨heq, by rw [← hat, ← heq]; exact hm⟩
  by_cases hoccurs : occursIn line key = true
  · rw [if_pos hoccurs]
    cases best with
    | none =>
      refine ⟨hat.trans hoccurs, fun m hm hle => ?_⟩
      rcases hlast m hm hle with hcount | ⟨rfl, -⟩
      · have := h m hm
        omega
      · exact ⟨Nat.le_refl _, fun _ => Int.le_refl _⟩
    | some best =>
      obtain ⟨hbest, hnear⟩ := h
      rw [nearer]
      split
      · refine ⟨hat.trans hoccurs, fun m hm hle => ?_⟩
        rcases hlast m hm hle with hcount | ⟨rfl, -⟩
        · have := (hnear m hm hcount).1
          omega
        · exact ⟨Nat.le_refl _, fun _ => Int.le_refl _⟩
      · refine ⟨hbest, fun m hm hle => ?_⟩
        rcases hlast m hm hle with hcount | ⟨rfl, -⟩
        · exact hnear m hm hcount
        · omega
  · rw [if_neg hoccurs]
    have hall : ∀ m : Int, isAt lines key m = true → m ≤ (count + 1 : Nat) → m ≤ count :=
      fun m hm hle => (hlast m hm hle).resolve_right fun hlast => hoccurs hlast.2
    cases best with
    | none =>
      refine fun m hm => Int.not_le.1 fun hle => ?_
      have := h m hm
      have := hall m hm hle
      omega
    | some best => exact ⟨h.1, fun m hm hle => h.2 m hm (hall m hm hle)⟩

theorem bestOf_nearestFrom {lines rest : List Text} {key : Text} {expected : Int} {count : Nat}
    {best : Option Int} (h : BestOf lines key expected count best)
    (hrest : lines.drop count = rest) :
    BestOf lines key expected (count + rest.length)
      (nearestFrom expected key (count + 1) best rest) := by
  induction rest generalizing count best with
  | nil => exact h
  | cons line rest ih =>
    have hline : lines[count]? = some line := by
      rw [← List.head?_drop, hrest]
      rfl
    have hdrop : lines.drop (count + 1) = rest := by
      rw [← List.drop_drop, hrest]
      rfl
    have hnext := ih (h.next hline) hdrop
    rw [nearestFrom, List.length_cons, Nat.add_comm rest.length, ← Nat.add_assoc]
    push_cast at hnext
    exact hnext

theorem nearest_of_nearestLine? {lines : List Text} {expected n : Int} {key : Text}
    (h : nearestLine? lines expected key = some n) : Nearest lines key expected n := by
  have hstart : BestOf lines key expected 0 none := by
    intro m hm
    rw [isAt, Bool.and_eq_true, decide_eq_true_eq] at hm
    omega
  have hbest := bestOf_nearestFrom hstart List.drop_zero
  have hfirst : nearestFrom expected key ((0 : Nat) + 1) none lines = some n := h
  rw [hfirst, Nat.zero_add] at hbest
  have hall : ∀ m, isAt lines key m = true → m ≤ lines.length := by
    refine fun m hm => Int.not_lt.1 fun hlt => ?_
    have hnone : lines[(m - 1).toNat]? = none := by
      rw [List.getElem?_eq_none_iff]
      omega
    rw [isAt, hnone, Option.any_none, Bool.and_false] at hm
    cases hm
  exact ⟨hbest.1, fun m hm => (hbest.2 m hm (hall m hm)).1,
    fun m hm => (hbest.2 m hm (hall m hm)).2⟩

end KeyToken

namespace Reconciler

theorem isAt_of_locate {reconciler : Reconciler} {lines : List Text} {line n : Int} {key : Text}
    (h : reconciler.locate lines line key = some n) : KeyToken.isAt lines key n = true := by
  rw [locate, Option.or_eq_some_iff] at h
  rcases h with h | ⟨-, h⟩
  · exact KeyToken.isAt_of_nearbyLine? h
  · exact KeyToken.isAt_of_nearestLine? h

theorem nearest_of_locate {reconciler : Reconciler} {lines : List Text} {line n : Int} {key : Text}
    (h : reconciler.locate lines line key = some n) : KeyToken.Nearest lines key line n := by
  rw [locate, Option.or_eq_some_iff] at h
  rcases h with h | ⟨-, h⟩
  · exact KeyToken.nearest_of_searchNear (fun _ _ => Nat.zero_le _) h
  · exact KeyToken.nearest_of_nearestLine? h

/-- A key that is somewhere in a file is found, whatever the radius and the expected line. -/
theorem isSome_locate {reconciler : Reconciler} {lines : List Text} {key : Text} {n : Int}
    (h : KeyToken.isAt lines key n = true) (line : Int) :
    (reconciler.locate lines line key).isSome = true := by
  have hnear : (KeyToken.nearestLine? lines line key).isSome = true :=
    KeyToken.isSome_nearestFrom (.inr (KeyToken.exists_mem_of_isAt h))
  rw [locate, Option.isSome_or, hnear, Bool.or_true]

end Reconciler

end TodoTracker
