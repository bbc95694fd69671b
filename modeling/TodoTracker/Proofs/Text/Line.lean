import TodoTracker.Text.Line

/-!
# Lines and their text

The lines of a text are read back when they are joined. So are lines that have taken other contents,
as long as no content holds a line feed or could be taken for a part of its ending.
-/

set_option autoImplicit false

namespace TodoTracker.Line

/-- A line that is one line when its text is read. -/
structure Proper (line : Line) : Prop where
  single : '\n' ∉ line.content
  apart : line.ending = .lf → line.content.getLast? ≠ some '\r'
  nonempty : line.ending = .none → line.content ≠ []

/-- Lines of which only the last one may lack an ending. -/
structure WellFormed (lines : List Line) : Prop where
  proper : ∀ line ∈ lines, line.Proper
  closed : ∀ ending ∈ (lines.map Line.ending).dropLast, ending ≠ .none

variable {c : Char} {line : Line} {lines : List Line}

theorem WellFormed.nil : WellFormed [] := ⟨nofun, nofun⟩

theorem wellFormed_cons : WellFormed (line :: lines) ↔
    line.Proper ∧ (lines ≠ [] → line.ending ≠ .none) ∧ WellFormed lines := by
  cases lines with
  | nil =>
    constructor
    · intro h
      exact ⟨h.proper line List.mem_cons_self, fun hne => absurd rfl hne, .nil⟩
    · rintro ⟨hline, -, -⟩
      exact ⟨by simpa using hline, by simp⟩
  | cons next rest =>
    constructor
    · rintro ⟨hproper, hclosed⟩
      simp only [List.map_cons, List.dropLast_cons_cons, List.mem_cons] at hclosed
      exact ⟨hproper line List.mem_cons_self, fun _ => hclosed _ (.inl rfl),
        fun l hl => hproper l (List.mem_cons_of_mem _ hl), fun e he => hclosed e (.inr he)⟩
    · rintro ⟨hline, hending, hrest⟩
      refine ⟨List.forall_mem_cons.2 ⟨hline, hrest.proper⟩, ?_⟩
      simp only [List.map_cons, List.dropLast_cons_cons, List.mem_cons]
      rintro e (rfl | he)
      · exact hending (List.cons_ne_nil _ _)
      · exact hrest.closed e he

theorem join_cons (c : Char) (lines : List Line) : join (cons c lines) = c :: join lines := by
  rw [cons.eq_def]
  split
  · rename_i hfeed
    simp [join, text, Ending.text, hfeed]
  · cases lines with
    | nil => rfl
    | cons line rest =>
      dsimp only
      split
      · rename_i hreturn
        simp [join, text, Ending.text, hreturn]
      · rfl

theorem join_split (t : Text) : join (split t) = t := by
  induction t with
  | nil => rfl
  | cons c t ih =>
    change join (cons c (split t)) = _
    rw [join_cons, ih]

theorem WellFormed.cons (h : WellFormed lines) (c : Char) : WellFormed (Line.cons c lines) := by
  rw [Line.cons.eq_def]
  split
  · exact wellFormed_cons.2 ⟨⟨by simp, by simp, by simp⟩, by simp, h⟩
  · rename_i hfeed
    cases lines with
    | nil =>
      exact wellFormed_cons.2 ⟨⟨by simpa using Ne.symm hfeed, by simp, by simp⟩, by simp, .nil⟩
    | cons line rest =>
      obtain ⟨hline, hending, hrest⟩ := wellFormed_cons.1 h
      dsimp only
      split
      · exact wellFormed_cons.2 ⟨⟨by simp, by simp, by simp⟩, by simp, hrest⟩
      · rename_i hreturn
        refine wellFormed_cons.2 ⟨⟨?_, ?_, by simp⟩, hending, hrest⟩
        · simpa using ⟨Ne.symm hfeed, hline.single⟩
        · intro hlf
          have hapart := hline.apart hlf
          cases hcontent : line.content with
          | nil =>
            have hempty : line = ⟨[], .lf⟩ := by
              rw [← hcontent, ← hlf]
            simpa [hempty] using hreturn
          | cons d rest =>
            rw [hcontent] at hapart
            simpa using hapart

theorem wellFormed_split (t : Text) : WellFormed (split t) := by
  induction t with
  | nil => exact .nil
  | cons c t ih => exact ih.cons c

/-- The characters in front of an ending are the content of one line. -/
theorem foldr_cons_content {content : Text} {ending : Ending}
    (h : (⟨content, ending⟩ : Line).Proper) (hending : ending ≠ .none) (lines : List Line) :
    content.foldr cons (⟨[], ending⟩ :: lines) = ⟨content, ending⟩ :: lines := by
  induction content with
  | nil => rfl
  | cons c content ih =>
    have hsingle := h.single
    simp only [List.mem_cons, not_or] at hsingle
    have hreturn : ¬(c = '\r' ∧ (⟨content, ending⟩ : Line) = ⟨[], .lf⟩) := by
      rintro ⟨rfl, hline⟩
      cases hline
      exact h.apart rfl rfl
    have hrest : (⟨content, ending⟩ : Line).Proper := by
      refine ⟨hsingle.2, ?_, fun hnone => absurd hnone hending⟩
      intro hlf
      have hapart := h.apart hlf
      cases content with
      | nil => simp
      | cons d content => simpa using hapart
    rw [List.foldr_cons, ih hrest, cons.eq_def, if_neg (Ne.symm hsingle.1)]
    dsimp only
    rw [if_neg hreturn]

theorem split_of_last {content : Text} (h : (⟨content, .none⟩ : Line).Proper) :
    split content = [⟨content, .none⟩] := by
  obtain ⟨c, rest, rfl⟩ := List.exists_cons_of_ne_nil (h.nonempty rfl)
  have hsingle := h.single
  clear h
  induction rest generalizing c with
  | nil =>
    have hne : c ≠ '\n' := by simpa [eq_comm] using hsingle
    simp [split, cons, hne]
  | cons d rest ih =>
    simp only [List.mem_cons, not_or] at hsingle
    have hrest := ih d (by simpa using hsingle.2)
    change cons c (split (d :: rest)) = _
    rw [hrest, cons.eq_def, if_neg (Ne.symm hsingle.1)]
    simp

/-- Well-formed lines are read back from their text. -/
theorem split_join (h : WellFormed lines) : split (join lines) = lines := by
  induction lines with
  | nil => rfl
  | cons line lines ih =>
    obtain ⟨content, ending⟩ := line
    obtain ⟨hline, hending, hrest⟩ := wellFormed_cons.1 h
    have hjoin : join (⟨content, ending⟩ :: lines) = content ++ (ending.text ++ join lines) := by
      simp [join, text]
    rw [hjoin]
    cases ending with
    | none =>
      cases lines with
      | nil => simpa [Ending.text, join] using split_of_last hline
      | cons next lines => exact absurd rfl (hending (List.cons_ne_nil _ _))
    | lf =>
      rw [split, List.foldr_append]
      change content.foldr cons (cons '\n' (split (join lines))) = _
      rw [ih hrest]
      exact foldr_cons_content hline (by simp) lines
    | crlf =>
      rw [split, List.foldr_append]
      change content.foldr cons (cons '\r' (cons '\n' (split (join lines)))) = _
      rw [ih hrest]
      exact foldr_cons_content hline (by simp) lines

/-- Every text is read back from its lines, which are well-formed, and of all lists of lines exactly
the well-formed ones are read back from their text. -/
theorem split_join_inverse (t : Text) (lines : List Line) :
    (join (split t) = t ∧ WellFormed (split t)) ∧
      (split (join lines) = lines ↔ WellFormed lines) := by
  refine ⟨⟨join_split t, wellFormed_split t⟩, ?_, split_join⟩
  intro hread
  rw [← hread]
  exact wellFormed_split (join lines)

/-- A carriage return belongs to the line feed right behind it and to no other one. -/
example : split "\r\r\n\n\r".toList =
    [⟨['\r'], .crlf⟩, ⟨[], .lf⟩, ⟨['\r'], .none⟩] := by
  decide

end TodoTracker.Line
