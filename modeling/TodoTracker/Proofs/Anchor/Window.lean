import TodoTracker.Proofs.Anchor.Locate

/-!
# The window around a line

The search near a line goes outwards from it and stops at the radius; the search in all lines keeps
the best one so far. Both pick the same line. So the radius says how far the first search looks, and
not what a check of an anchor answers.
-/

set_option autoImplicit false

namespace TodoTracker

namespace KeyToken

variable {lines : List Text} {key : Text} {expected radius n : Int} {distance left : Nat}

theorem isAt_bounds (h : isAt lines key n = true) : 1 ≤ n ∧ n ≤ lines.length := by
  rw [isAt, Bool.and_eq_true, decide_eq_true_eq] at h
  refine ⟨h.1, Int.not_lt.1 fun hlt => ?_⟩
  have hnone : lines[(n - 1).toNat]? = none := List.getElem?_eq_none (by omega)
  rw [hnone] at h
  cases h.2

/-- Of two nearest lines none is nearer, and none is later. -/
theorem Nearest.unique {m : Int} (h : Nearest lines key expected n)
    (h' : Nearest lines key expected m) : n = m := by
  have hsame : (n - expected).natAbs = (m - expected).natAbs :=
    Nat.le_antisymm (h.near m h'.holds) (h'.near n h.holds)
  exact Int.le_antisymm (h'.later n h.holds hsame) (h.later m h'.holds hsame.symm)

/-- A search stays within the distances that it tries. -/
theorem distance_of_searchNear (h : searchNear lines expected key distance left = some n) :
    (n - expected).natAbs < distance + left := by
  induction left generalizing distance with
  | zero => cases h
  | succ left ih =>
    rw [searchNear] at h
    split at h
    · cases h
      omega
    · split at h
      · cases h
        omega
      · have := ih h
        omega

/-- A search finds something when the key is at one of the distances that it tries. -/
theorem isSome_searchNear (hn : isAt lines key n = true) (hfirst : distance ≤ (n - expected).natAbs)
    (hlast : (n - expected).natAbs < distance + left) :
    (searchNear lines expected key distance left).isSome = true := by
  induction left generalizing distance with
  | zero => omega
  | succ left ih =>
    rw [searchNear]
    split
    · rfl
    · rename_i hafter
      split
      · rfl
      · rename_i hbefore
        have hne : n ≠ expected + distance := fun heq => hafter (heq ▸ hn)
        have hne' : n ≠ expected - distance := fun heq => hbefore (heq ▸ hn)
        exact ih (by omega) (by omega)

/-- The line found near the expected one is the nearest line, if that is within the radius. -/
theorem nearbyLine?_eq_some_iff : nearbyLine? lines expected key radius = some n ↔
    Nearest lines key expected n ∧ ((n - expected).natAbs : Int) ≤ max 0 radius := by
  constructor
  · intro h
    refine ⟨nearest_of_searchNear (fun _ _ => Nat.zero_le _) h, ?_⟩
    have := distance_of_searchNear h
    omega
  · rintro ⟨hnearest, hwithin⟩
    -- no line of the file is farther away than the search goes at most
    have hbounds := isAt_bounds hnearest.holds
    have hsome : (nearbyLine? lines expected key radius).isSome = true :=
      isSome_searchNear hnearest.holds (Nat.zero_le _) (by omega)
    obtain ⟨m, hm⟩ := Option.isSome_iff_exists.1 hsome
    rw [hm, (nearest_of_searchNear (fun _ _ => Nat.zero_le _) hm).unique hnearest]

/-- A key that is on some line is found on a nearest one. -/
theorem exists_nearestLine? (h : isAt lines key n = true) (expected : Int) :
    ∃ m, nearestLine? lines expected key = some m ∧ Nearest lines key expected m := by
  have hsome : (nearestLine? lines expected key).isSome = true :=
    isSome_nearestFrom (.inr (exists_mem_of_isAt h))
  obtain ⟨m, hm⟩ := Option.isSome_iff_exists.1 hsome
  exact ⟨m, hm, nearest_of_nearestLine? hm⟩

theorem nearestLine?_eq_some_iff :
    nearestLine? lines expected key = some n ↔ Nearest lines key expected n := by
  constructor
  · exact nearest_of_nearestLine?
  · intro h
    obtain ⟨m, hm, hnearest⟩ := exists_nearestLine? h.holds expected
    rw [hm, hnearest.unique h]

theorem isSome_nearbyLine?_iff : (nearbyLine? lines expected key radius).isSome = true ↔
    ∃ n, isAt lines key n = true ∧ ((n - expected).natAbs : Int) ≤ max 0 radius := by
  rw [Option.isSome_iff_exists]
  constructor
  · rintro ⟨n, h⟩
    obtain ⟨hnearest, hwithin⟩ := nearbyLine?_eq_some_iff.1 h
    exact ⟨n, hnearest.holds, hwithin⟩
  · rintro ⟨n, hn, hwithin⟩
    obtain ⟨m, -, hnearest⟩ := exists_nearestLine? hn expected
    have := hnearest.near n hn
    exact ⟨m, nearbyLine?_eq_some_iff.2 ⟨hnearest, by omega⟩⟩

end KeyToken

namespace Reconciler

/-- The search near the expected line only comes to its answer sooner. -/
theorem locate_eq_nearestLine? (reconciler : Reconciler) (lines : List Text) (line : Int)
    (key : Text) : reconciler.locate lines line key = KeyToken.nearestLine? lines line key := by
  rw [locate]
  cases h : KeyToken.nearbyLine? lines line key reconciler.radius with
  | none => rfl
  | some n =>
    exact (KeyToken.nearestLine?_eq_some_iff.2 (KeyToken.nearbyLine?_eq_some_iff.1 h).1).symm

theorem inspect_withRadius (reconciler : Reconciler) (radius : Int) (tree : FileTree) (key : Text)
    (anchor : Anchor) :
    ({ reconciler with radius } : Reconciler).inspect tree key anchor =
      reconciler.inspect tree key anchor := by
  have hjudge : ∀ lines, ({ reconciler with radius } : Reconciler).judge key anchor lines =
      reconciler.judge key anchor lines := by
    intro lines
    rw [judge, judge, locate_eq_nearestLine?, locate_eq_nearestLine?]
    rfl
  rw [inspect, inspect]
  simp only [hjudge]
  rfl

/-- The search near a line finds something exactly when the key is within the radius, and then the
line that the search in all lines finds: the nearest one, of two the later. So the answers to checks
do not depend on the radius. -/
theorem search_within_radius (lines : List Text) (expected : Int) (key : Text) (radius : Int) :
    ((KeyToken.nearbyLine? lines expected key radius).isSome = true ↔
      ∃ n, KeyToken.isAt lines key n = true ∧ ((n - expected).natAbs : Int) ≤ max 0 radius) ∧
    (∀ n, KeyToken.nearbyLine? lines expected key radius = some n →
      KeyToken.nearestLine? lines expected key = some n) ∧
    (∀ n, KeyToken.nearestLine? lines expected key = some n ↔
      KeyToken.Nearest lines key expected n) ∧
    ∀ (reconciler : Reconciler) (radius' : Int) (tree : FileTree) (anchor : Anchor),
      ({ reconciler with radius } : Reconciler).inspect tree key anchor =
        ({ reconciler with radius := radius' } : Reconciler).inspect tree key anchor := by
  refine ⟨KeyToken.isSome_nearbyLine?_iff, fun n hn => ?_,
    fun n => KeyToken.nearestLine?_eq_some_iff, fun reconciler radius' tree anchor => ?_⟩
  · exact KeyToken.nearestLine?_eq_some_iff.2 (KeyToken.nearbyLine?_eq_some_iff.1 hn).1
  · exact (reconciler.inspect_withRadius radius tree key anchor).trans
      (reconciler.inspect_withRadius radius' tree key anchor).symm

end Reconciler

end TodoTracker
