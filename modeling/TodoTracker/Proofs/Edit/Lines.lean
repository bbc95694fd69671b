import TodoTracker.Proofs.Edit.Queue
import TodoTracker.Proofs.Text.Line

/-!
# Edits made on the lines of a text

Queued edits that were made for the lines of a text apply to these lines: each line takes the
splices that are queued for it and keeps its ending. When keys are all that is inserted, the new
lines are read back from the new text.
-/

set_option autoImplicit false

namespace TodoTracker

namespace Splice

/-- A splice that inserts a text into a line, and nothing that could end the line. -/
structure Inserts (splice : Splice) : Prop where
  stop : splice.stop = splice.start
  nonempty : splice.text ≠ []
  single : '\n' ∉ splice.text
  apart : splice.text.getLast? ≠ some '\r'

theorem Inserts.proper {splice : Splice} (h : splice.Inserts) {line : Line} (hline : line.Proper) :
    ({ line with content := splice.apply line.content } : Line).Proper := by
  have happly : splice.apply line.content =
      line.content.take splice.start ++ splice.text ++ line.content.drop splice.start := by
    rw [apply, h.stop]
  refine ⟨?_, ?_, ?_⟩
  · rw [happly]
    simp only [List.mem_append, not_or]
    exact ⟨⟨fun hmem => hline.single (List.mem_of_mem_take hmem), h.single⟩,
      fun hmem => hline.single (List.mem_of_mem_drop hmem)⟩
  · intro hlf
    have hlast := hline.apart hlf
    have hapart := h.apart
    rw [List.getLast?_eq_some_getLast h.nonempty] at hapart
    dsimp only
    rw [happly, List.getLast?_append, List.getLast?_append, List.getLast?_drop,
      List.getLast?_eq_some_getLast h.nonempty]
    split
    · exact hapart
    · cases hcontent : line.content.getLast? with
      | none => exact hapart
      | some d => rwa [hcontent] at hlast
  · intro _
    dsimp only
    rw [happly]
    simp [h.nonempty]

end Splice

namespace EditQueue

/-- The splices that are queued for a line. -/
def splicesAt (queue : EditQueue) (number : Int) : List Splice :=
  ((queue.find? number).map LineEdit.splices).getD []

/-- The splices of one more edit join those of its line. -/
theorem splicesAt_add {queue queue' : EditQueue} {file : Text} {edit : LineEdit}
    (h : queue.add file edit = .ok queue') (number : Int) :
    queue'.splicesAt number =
      queue.splicesAt number ++ if edit.number = number then edit.splices else [] := by
  rw [add] at h
  split at h
  · rename_i hempty
    cases h
    simp [List.isEmpty_iff.1 hempty]
  · split at h
    · rename_i hnone
      cases h
      by_cases hnumber : edit.number = number
      · subst hnumber
        have hnew : find? ⟨queue.edits ++ [edit]⟩ edit.number = some edit := by
          rw [find?, List.find?_append, ← find?, hnone]
          simp
        simp [splicesAt, hnew, hnone]
      · have hold : find? ⟨queue.edits ++ [edit]⟩ number = queue.find? number := by
          rw [find?, List.find?_append, ← find?]
          simp [hnumber]
        simp [splicesAt, hold, hnumber]
    · rename_i known hknown
      split at h
      · cases h
      · cases h
        have hmap : find? ⟨queue.edits.map fun e => if e.number == edit.number then
              { e with splices := e.splices ++ edit.splices } else e⟩ number =
            (queue.find? number).map fun e => if e.number == edit.number then
              { e with splices := e.splices ++ edit.splices } else e := by
          rw [find?, find?, List.find?_map]
          congr 1
          congr 1
          funext e
          dsimp only [Function.comp_apply]
          split <;> rfl
        rw [splicesAt, splicesAt, hmap]
        by_cases hnumber : edit.number = number
        · subst hnumber
          have hsame : known.number = edit.number := by simpa using List.find?_some hknown
          simp [hknown, hsame]
        · cases hfound : queue.find? number with
          | none => simp [hnumber]
          | some e =>
            have hsame : e.number = number := by simpa using List.find?_some hfound
            simp [hnumber, hsame, Ne.symm hnumber]

/-- The edit was made for the line with its number. -/
def Fits (lines : List Line) (edit : LineEdit) : Prop :=
  ∃ (i : Nat) (line : Line), edit.number = (i + 1 : Nat) ∧ lines[i]? = some line ∧
    line.content = edit.expected

theorem position_of_lt {i size : Nat} (h : i < size) :
    LineEdit.position ((i + 1 : Nat) : Int) size = .ok (some i) := by
  rw [LineEdit.position, if_neg (by omega), if_pos (by omega)]
  simp

end EditQueue

end TodoTracker
