import TodoTracker.Proofs.Text.Line
import Mathlib.Data.List.Basic
import Mathlib.Tactic.Common

/-!
# Lines that are read back

Lines whose contents hold no line feed are read back from their text, one from each, with two
exceptions. A carriage return at the end of a content is read as a part of the line feed behind it,
and nothing is left of a last line without any characters.
-/

set_option autoImplicit false

namespace TodoTracker.Line

/-- A line as it is read back. -/
def reread (line : Line) : Option Line :=
  match line.ending with
  | .none => if line.content = [] then none else some line
  | .lf =>
    if line.content.getLast? = some '\r' then some ⟨line.content.dropLast, .crlf⟩ else some line
  | .crlf => some line

/-- Lines without line feeds in them, of which only the last one may lack an ending. -/
structure Joinable (lines : List Line) : Prop where
  single : ∀ line ∈ lines, '\n' ∉ line.content
  closed : ∀ ending ∈ (lines.map Line.ending).dropLast, ending ≠ .none

variable {line line' : Line} {lines lines' : List Line}

theorem WellFormed.joinable (h : WellFormed lines) : Joinable lines :=
  ⟨fun line hline => (h.proper line hline).single, h.closed⟩

theorem joinable_cons (h : Joinable (line :: lines)) :
    '\n' ∉ line.content ∧ (lines ≠ [] → line.ending ≠ .none) ∧ Joinable lines := by
  obtain ⟨hline, hsingle⟩ := List.forall_mem_cons.1 h.single
  have hclosed := h.closed
  cases lines with
  | nil => exact ⟨hline, fun hne => absurd rfl hne, nofun, nofun⟩
  | cons next lines =>
    rw [List.map_cons, List.map_cons, List.dropLast_cons_cons, List.forall_mem_cons] at hclosed
    exact ⟨hline, fun _ => hclosed.1, hsingle, hclosed.2⟩

/-- Only a line without an ending may be lost. -/
theorem ending_of_reread_eq_none (h : line.reread = none) : line.ending = .none := by
  rw [reread] at h
  split at h
  · assumption
  · split at h <;> cases h
  · cases h

/-- What is read back is one line with the same characters. -/
theorem proper_of_reread (hsingle : '\n' ∉ line.content) (h : line.reread = some line') :
    line'.Proper ∧ (line.ending ≠ .none → line'.ending ≠ .none) ∧ line'.text = line.text := by
  obtain ⟨content, ending⟩ := line
  cases ending with
  | none =>
    dsimp only [reread] at h
    split at h
    · cases h
    · rename_i hcontent
      cases h
      exact ⟨⟨hsingle, Ending.noConfusion, fun _ => hcontent⟩, id, rfl⟩
  | lf =>
    dsimp only [reread] at h
    split at h
    · rename_i hreturn
      cases h
      refine ⟨⟨fun hmem => hsingle (List.dropLast_subset _ hmem), Ending.noConfusion,
        Ending.noConfusion⟩, fun _ => Ending.noConfusion, ?_⟩
      have hcontent : content = content.dropLast ++ ['\r'] :=
        (List.dropLast_append_getLast? _ hreturn).symm
      rw [text, text]
      conv_rhs => rw [hcontent]
      simp [Ending.text]
    · rename_i hapart
      cases h
      exact ⟨⟨hsingle, fun _ => hapart, Ending.noConfusion⟩, id, rfl⟩
  | crlf =>
    cases h
    exact ⟨⟨hsingle, Ending.noConfusion, Ending.noConfusion⟩, id, rfl⟩

theorem wellFormed_filterMap_reread (h : Joinable lines) :
    WellFormed (lines.filterMap reread) ∧ join (lines.filterMap reread) = join lines := by
  induction lines with
  | nil => exact ⟨.nil, rfl⟩
  | cons line lines ih =>
    obtain ⟨hsingle, hending, hrest⟩ := joinable_cons h
    obtain ⟨hformed, hjoin⟩ := ih hrest
    cases hreread : line.reread with
    | none =>
      rw [List.filterMap_cons_none hreread]
      refine ⟨hformed, hjoin.trans ?_⟩
      have hnone := ending_of_reread_eq_none hreread
      have hcontent : line.content = [] := by
        rw [reread, hnone] at hreread
        by_contra hne
        rw [if_neg hne] at hreread
        cases hreread
      simp [join, text, hnone, hcontent, Ending.text]
    | some line' =>
      obtain ⟨hproper, hends, htext⟩ := proper_of_reread hsingle hreread
      rw [List.filterMap_cons_some hreread]
      refine ⟨wellFormed_cons.2 ⟨hproper, fun hne => hends (hending ?_), hformed⟩, ?_⟩
      · rintro rfl
        exact hne rfl
      · rw [join, List.flatMap_cons, htext]
        exact congrArg (line.text ++ ·) hjoin

theorem split_join_eq (h : Joinable lines) : split (join lines) = lines.filterMap reread := by
  obtain ⟨hformed, hjoin⟩ := wellFormed_filterMap_reread h
  rw [← hjoin, split_join hformed]

/-- The lines are read back at their places. -/
theorem getElem?_filterMap_reread (h : Joinable lines) (i : Nat) :
    (lines.filterMap reread)[i]? = lines[i]?.bind reread := by
  induction lines generalizing i with
  | nil => rfl
  | cons line lines ih =>
    obtain ⟨-, hending, hrest⟩ := joinable_cons h
    cases hreread : line.reread with
    | none =>
      -- nothing comes behind a line without an ending
      have hlines : lines = [] := by
        by_contra hne
        exact hending hne (ending_of_reread_eq_none hreread)
      subst hlines
      cases i <;> simp [hreread]
    | some line' =>
      rw [List.filterMap_cons_some hreread]
      cases i with
      | zero => exact hreread.symm
      | succ i => exact ih hrest i

theorem getElem?_split_join (h : Joinable lines) (i : Nat) :
    (split (join lines))[i]? = lines[i]?.bind reread := by
  rw [split_join_eq h, getElem?_filterMap_reread h]

/-- Lines with the same ending are not read back as the same line. -/
theorem reread_inj (hending : line.ending = line'.ending) (h : line.reread = line'.reread) :
    line = line' := by
  obtain ⟨content, ending⟩ := line
  obtain ⟨content', ending'⟩ := line'
  obtain rfl : ending = ending' := hending
  cases ending with
  | none =>
    simp only [reread] at h
    split at h <;> split at h
    · simp_all
    · cases h
    · cases h
    · exact Option.some.inj h
  | lf =>
    simp only [reread] at h
    split at h <;> split at h
    · rename_i hreturn hreturn'
      have hsame : content.dropLast = content'.dropLast := by simpa using h
      rw [← List.dropLast_append_getLast? _ hreturn, ← List.dropLast_append_getLast? _ hreturn',
        hsame]
    · cases h
    · cases h
    · exact Option.some.inj h
  | crlf => exact Option.some.inj h

/-- Different lines with the same endings have different texts. -/
theorem join_inj (h : Joinable lines) (h' : Joinable lines')
    (hendings : lines.map Line.ending = lines'.map Line.ending) (hjoin : join lines = join lines') :
    lines = lines' := by
  apply List.ext_getElem?
  intro i
  have hread : lines[i]?.bind reread = lines'[i]?.bind reread := by
    rw [← getElem?_split_join h, hjoin, getElem?_split_join h']
  have hending : lines[i]?.map Line.ending = lines'[i]?.map Line.ending := by
    rw [← List.getElem?_map, hendings, List.getElem?_map]
  cases hline : lines[i]? with
  | none =>
    rw [hline] at hending
    exact (Option.map_eq_none_iff.1 hending.symm).symm
  | some line =>
    rw [hline] at hending hread
    obtain ⟨line', hline', hsame⟩ := Option.map_eq_some_iff.1 hending.symm
    rw [hline'] at hread
    rw [hline', reread_inj hsame.symm hread]

end TodoTracker.Line
