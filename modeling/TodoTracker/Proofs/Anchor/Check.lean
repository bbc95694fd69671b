import TodoTracker.Proofs.Anchor.Locate
import TodoTracker.Proofs.Task.Calls

/-!
# Where a check leaves an anchor

A check leaves an anchor where it is or names a place for it: in the file under its new name, on a
line that holds the key if there is one. The verdict depends on nothing but that file.
-/

set_option autoImplicit false

namespace TodoTracker

namespace AnchorVerdict

/-- Where the checked anchor is after the check. -/
def settled (check : AnchorVerdict) : Anchor := check.place.getD check.anchor

theorem moved_eq_false {check : AnchorVerdict} (h : check.settled = check.anchor) :
    check.moved = false := by
  rw [settled] at h
  rw [moved]
  cases hplace : check.place with
  | none => rfl
  | some place =>
    rw [hplace] at h
    simpa using h

end AnchorVerdict

theorem FileTree.existsAt_of_readText {tree : FileTree} {path : Path} {text : Text}
    (h : tree.readText path = .ok text) : tree.existsAt path = .ok true := by
  obtain ⟨bytes, hbytes, -⟩ := bind_eq_ok h
  rw [readBytes] at hbytes
  rw [existsAt, entry?]
  split at hbytes
  · cases hbytes
  · rename_i hnull
    rw [if_neg hnull]
    cases hfind : tree.find path with
    | error flaw =>
      rw [hfind] at hbytes
      cases hbytes
    | ok found => rfl

namespace Reconciler

theorem judge_anchor (reconciler : Reconciler) (key : Text) (anchor : Anchor)
    (lines : List Text) : (reconciler.judge key anchor lines).anchor = anchor := by
  rw [judge]
  split <;> rfl

theorem judge_readable (reconciler : Reconciler) (key : Text) (anchor : Anchor)
    (lines : List Text) : ¬(reconciler.judge key anchor lines).state = .unreadable := by
  rw [judge]
  split
  · simp
  · dsimp only
    split
    · simp
    · split <;> simp

/-- The verdict is about the anchor, and one on a file that cannot be read names no place. -/
theorem inspect_eq_ok {reconciler : Reconciler} {tree : FileTree} {key : Text} {anchor : Anchor}
    {check : AnchorVerdict} (h : reconciler.inspect tree key anchor = .ok check) :
    check.anchor = anchor ∧ (check.state = .unreadable → check.place = none) := by
  obtain ⟨found, -, h⟩ := bind_eq_ok h
  split at h
  · cases h
    exact ⟨rfl, by simp⟩
  · split at h
    · cases h
      exact ⟨judge_anchor .., fun hstate => absurd hstate (judge_readable reconciler key anchor _)⟩
    · split at h
      · cases h
        exact ⟨rfl, fun _ => rfl⟩
      · cases h
        exact ⟨rfl, fun _ => rfl⟩
      · cases h

theorem key_of_inspect {reconciler : Reconciler} {tree : FileTree} {key : Text} {anchor : Anchor}
    {check : AnchorVerdict} (h : reconciler.inspect tree key anchor = .ok check) :
    check.key = key := by
  obtain ⟨found, -, h⟩ := bind_eq_ok h
  split at h
  · cases h
    rfl
  · split at h
    · cases h
      rw [judge]
      split <;> rfl
    · split at h <;> cases h <;> rfl

theorem judge_settled (reconciler : Reconciler) (key : Text) (anchor : Anchor)
    (lines : List Text) :
    (reconciler.judge key anchor lines).settled =
      ⟨(reconciler.newName? anchor.file).getD anchor.file,
        (reconciler.locate lines anchor.line key).getD anchor.line⟩ := by
  rw [judge]
  cases hlocate : reconciler.locate lines anchor.line key with
  | some line => rfl
  | none => cases hname : reconciler.newName? anchor.file <;> rfl

theorem line_pos_of_locate {reconciler : Reconciler} {lines : List Text} {line n : Int}
    {key : Text} (h : reconciler.locate lines line key = some n) : 1 ≤ n := by
  have hat := isAt_of_locate h
  rw [KeyToken.isAt, Bool.and_eq_true, decide_eq_true_eq] at hat
  exact hat.1

/-- A check leaves an anchor as it is when the file cannot be read, and in the file under its new
name else. -/
theorem settled_of_inspect {reconciler : Reconciler} {tree : FileTree} {key : Text}
    {anchor : Anchor} {check : AnchorVerdict}
    (h : reconciler.inspect tree key anchor = .ok check) :
    check.settled = anchor ∧ check.state = .unreadable ∨
      check.settled.file = (reconciler.newName? anchor.file).getD anchor.file ∧
        (1 ≤ anchor.line → 1 ≤ check.settled.line) := by
  obtain ⟨found, -, h⟩ := bind_eq_ok h
  split at h
  · cases h
    right
    rw [AnchorVerdict.settled]
    cases hname : reconciler.newName? anchor.file with
    | none => exact ⟨rfl, id⟩
    | some name => exact ⟨rfl, id⟩
  · split at h
    · rename_i text htext
      cases h
      right
      rw [judge_settled]
      refine ⟨rfl, fun hline => ?_⟩
      cases hlocate : reconciler.locate text.contents anchor.line key with
      | none => exact hline
      | some line => exact line_pos_of_locate hlocate
    · split at h
      · cases h
        exact .inl ⟨rfl, rfl⟩
      · cases h
        exact .inl ⟨rfl, rfl⟩
      · cases h

/-- Where a check of an anchor leaves it. -/
def settledAt (reconciler : Reconciler) (tree : FileTree) (key : Text) (anchor : Anchor) : Anchor :=
  match reconciler.inspect tree key anchor with
  | .ok check => check.settled
  | .error _ => anchor

theorem inspect_congr {reconciler : Reconciler} {tree tree' : FileTree} (key : Text)
    {anchor : Anchor}
    (h : tree.AgreeAt tree' (reconciler.path ((reconciler.newName? anchor.file).getD anchor.file))) :
    reconciler.inspect tree' key anchor = reconciler.inspect tree key anchor := by
  rw [inspect, inspect]
  dsimp only
  rw [h.existsAt, h.readText]

theorem isBelow_congr {reconciler : Reconciler} {tree tree' : FileTree} (roots : List Location)
    {anchor : Anchor} (h : tree.AgreeAt tree' (reconciler.path anchor.file))
    (hnew : ∀ name, Fields.get? reconciler.renames anchor.file = some name →
      tree.AgreeAt tree' (reconciler.path name)) :
    reconciler.isBelow tree' roots anchor = reconciler.isBelow tree roots anchor := by
  rw [isBelow, isBelow, h.resolve]
  cases hname : Fields.get? reconciler.renames anchor.file with
  | none => rfl
  | some name =>
    dsimp only
    rw [(hnew name hname).resolve]

end Reconciler

end TodoTracker
