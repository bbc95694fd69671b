import TodoTracker.Comment.Span
import TodoTracker.Proofs.Text.Search

/-!
# How the comments of a line are found

The search for comments as a relation with one rule for each way in which it goes on, and what
follows from it for every grammar without empty delimiters: a comment is on the line, and the next
one starts behind its closer.
-/

set_option autoImplicit false

namespace TodoTracker

namespace Span

/-- The columns of a comment between two columns. -/
structure Within (first last : Nat) (span : Span) : Prop where
  first_le : first ≤ span.start
  start_le : span.start ≤ span.bodyStart
  bodyStart_le : span.bodyStart ≤ span.bodyStop
  bodyStop_le : span.bodyStop ≤ span.stop
  stop_le : span.stop ≤ last

/-- The second of two comments starts behind the first. -/
def Precedes (a b : Span) : Prop := a.bodyStop < b.start ∧ a.stop ≤ b.start

theorem eq_or_precedes {spans : List Span} (h : spans.Pairwise Precedes) {a b : Span}
    (ha : a ∈ spans) (hb : b ∈ spans) : a = b ∨ a.Precedes b ∨ b.Precedes a := by
  obtain ⟨front, back, rfl⟩ := List.append_of_mem ha
  obtain ⟨-, hrest, hfront⟩ := List.pairwise_append.1 h
  rcases List.mem_append.1 hb with hb | hb
  · exact .inr (.inr (hfront b hb a List.mem_cons_self))
  · rcases List.mem_cons.1 hb with rfl | hb
    · exact .inl rfl
    · exact .inr (.inl ((List.pairwise_cons.1 hrest).1 b hb))

end Span

namespace Grammar

/-- No delimiter is empty. -/
structure Proper (grammar : Grammar) : Prop where
  opener_ne_nil : ∀ d ∈ grammar.delimiters, d.opener ≠ []
  closer_ne_nil : ∀ d ∈ grammar.delimiters, ∀ closer ∈ d.closer, closer ≠ []

variable {grammar : Grammar}

theorem Proper.opener_length_pos (hg : grammar.Proper) {d : Delimiter}
    (hd : d ∈ grammar.delimiters) : 0 < d.opener.length :=
  List.length_pos_iff.2 (hg.opener_ne_nil d hd)

theorem Proper.closer_length_pos (hg : grammar.Proper) {d : Delimiter}
    (hd : d ∈ grammar.delimiters) {closer : Text} (hcloser : d.closer = some closer) :
    0 < closer.length :=
  List.length_pos_iff.2 (hg.closer_ne_nil d hd closer hcloser)

/-- The better of two delimiters that may have been found. -/
def join (found best : Option (Nat × Delimiter)) : Option (Nat × Delimiter) :=
  match found with
  | none => best
  | some found => some (better found best)

theorem join_eq_or (found best : Option (Nat × Delimiter)) :
    join found best = found ∨ join found best = best := by
  cases found with
  | none => exact .inr rfl
  | some found =>
    cases best with
    | none => exact .inl rfl
    | some best =>
      rw [join, better]
      split
      · exact .inl rfl
      · exact .inr rfl

/-- The delimiter where it is found. -/
def foundIn (rest : Text) (delimiter : Delimiter) : Option (Nat × Delimiter) :=
  (Text.indexOf? delimiter.opener rest).map (·, delimiter)

theorem firstOpener_eq (grammar : Grammar) (rest : Text) :
    grammar.firstOpener rest =
      grammar.delimiters.foldl (fun best delimiter => join (foundIn rest delimiter) best) none := by
  rw [firstOpener]
  congr 1
  funext best delimiter
  rw [foundIn]
  cases Text.indexOf? delimiter.opener rest <;> rfl

theorem mem_of_foldl_join {rest : Text} {delimiters : List Delimiter}
    {best : Option (Nat × Delimiter)} {found : Nat × Delimiter}
    (h : delimiters.foldl (fun best d => join (foundIn rest d) best) best = some found) :
    best = some found ∨ ∃ d ∈ delimiters, foundIn rest d = some found := by
  induction delimiters generalizing best with
  | nil => exact .inl h
  | cons d delimiters ih =>
    rcases ih h with hjoin | ⟨e, he, hfound⟩
    · rcases join_eq_or (foundIn rest d) best with heq | heq
      · exact .inr ⟨d, List.mem_cons_self, heq ▸ hjoin⟩
      · exact .inl (heq ▸ hjoin)
    · exact .inr ⟨e, List.mem_cons_of_mem _ he, hfound⟩

theorem firstOpener_eq_some {rest : Text} {i : Nat} {d : Delimiter}
    (h : grammar.firstOpener rest = some (i, d)) :
    d ∈ grammar.delimiters ∧ Text.indexOf? d.opener rest = some i := by
  rw [firstOpener_eq] at h
  rcases mem_of_foldl_join h with h | ⟨e, he, hfound⟩
  · cases h
  · obtain ⟨j, hj, heq⟩ := Option.map_eq_some_iff.1 hfound
    cases heq
    exact ⟨he, hj⟩

/-- What was found, if anything was, is behind column `i`. -/
def Behind (i : Nat) (found : Option (Nat × Delimiter)) : Prop := ∀ f ∈ found, i < f.1

theorem Behind.join {i : Nat} {found best : Option (Nat × Delimiter)} (hfound : Behind i found)
    (hbest : Behind i best) : Behind i (join found best) := by
  rcases join_eq_or found best with h | h
  · rw [h]
    exact hfound
  · rw [h]
    exact hbest

theorem join_of_behind {i : Nat} {found best : Option (Nat × Delimiter)} (hfound : Behind i found)
    (hbest : ¬Behind i best) : join found best = best := by
  cases found with
  | none => rfl
  | some found =>
    cases best with
    | none => exact absurd (by simp [Behind]) hbest
    | some best =>
      have hi : i < found.1 := hfound found rfl
      have hle : ¬i < best.1 := fun h => hbest (by rintro f ⟨⟩; exact h)
      rw [join, better, if_neg (by omega)]

theorem join_behind {i : Nat} {found best : Option (Nat × Delimiter)} (hfound : ¬Behind i found)
    (hbest : Behind i best) : join found best = found := by
  cases found with
  | none => exact absurd (by simp [Behind]) hfound
  | some found =>
    cases best with
    | none => rfl
    | some best =>
      have hi : i < best.1 := hbest best rfl
      have hle : ¬i < found.1 := fun h => hfound (by rintro f ⟨⟩; exact h)
      rw [join, better, if_pos (by omega)]

theorem firstOpener_le {rest : Text} {i : Nat} {d : Delimiter}
    (h : grammar.firstOpener rest = some (i, d)) : i + d.opener.length ≤ rest.length :=
  (Text.indexOf?_eq_some (firstOpener_eq_some h).2).2

/-- How the comments of a line are found, with what is awaited at its end. -/
inductive Lexed (grammar : Grammar) : Nat → Text → List Span → Option Text → Prop
  | code {pos : Nat} {rest : Text} (h : grammar.firstOpener rest = none) :
      Lexed grammar pos rest [] none
  | line {pos i : Nat} {rest : Text} {d : Delimiter} (h : grammar.firstOpener rest = some (i, d))
      (hcloser : d.closer = none) :
      Lexed grammar pos rest
        [⟨pos + i, pos + rest.length, pos + i + d.opener.length, pos + rest.length⟩] none
  | opened {pos i : Nat} {rest closer : Text} {d : Delimiter}
      (h : grammar.firstOpener rest = some (i, d)) (hcloser : d.closer = some closer)
      (hj : Text.indexOf? closer (rest.drop (i + d.opener.length)) = none) :
      Lexed grammar pos rest
        [⟨pos + i, pos + rest.length, pos + i + d.opener.length, pos + rest.length⟩] (some closer)
  | closed {pos i j : Nat} {rest closer : Text} {d : Delimiter} {spans : List Span}
      {pending : Option Text}
      (h : grammar.firstOpener rest = some (i, d)) (hcloser : d.closer = some closer)
      (hj : Text.indexOf? closer (rest.drop (i + d.opener.length)) = some j)
      (after : Lexed grammar (pos + i + d.opener.length + j + closer.length)
        ((rest.drop (i + d.opener.length)).drop (j + closer.length)) spans pending) :
      Lexed grammar pos rest
        (⟨pos + i, pos + i + d.opener.length + j + closer.length, pos + i + d.opener.length,
          pos + i + d.opener.length + j⟩ :: spans) pending

theorem firstOpener_nil (hg : grammar.Proper) : grammar.firstOpener [] = none := by
  cases h : grammar.firstOpener [] with
  | none => rfl
  | some found =>
    have hpos := hg.opener_length_pos (firstOpener_eq_some h).1
    have hle := firstOpener_le h
    rw [List.length_nil] at hle
    omega

theorem lexed_codeSpans (hg : grammar.Proper) (pos : Nat) (rest : Text) :
    grammar.Lexed pos rest (grammar.codeSpans pos rest).1 (grammar.codeSpans pos rest).2 := by
  rw [codeSpans]
  split
  · rename_i hnil
    rw [List.isEmpty_iff] at hnil
    subst hnil
    exact .code (firstOpener_nil hg)
  · split
    · exact .code ‹_›
    · rename_i i d h
      dsimp only
      split
      · exact .line h ‹_›
      · rename_i closer hcloser
        split
        · exact .opened h hcloser ‹_›
        · rename_i j hj
          have hpos := hg.opener_length_pos (firstOpener_eq_some h).1
          have hle := firstOpener_le h
          have hshort : ((rest.drop (i + d.opener.length)).drop (j + closer.length)).length <
              rest.length := by
            simp only [List.length_drop]
            omega
          rw [dif_pos hshort]
          exact .closed h hcloser hj (lexed_codeSpans hg _ _)
termination_by rest.length

theorem Lexed.eq (hg : grammar.Proper) {pos : Nat} {rest : Text}
    {spans : List Span} {pending : Option Text} (h : grammar.Lexed pos rest spans pending) :
    grammar.codeSpans pos rest = (spans, pending) := by
  have hne : ∀ {rest : Text} {i : Nat} {d : Delimiter},
      grammar.firstOpener rest = some (i, d) → rest.isEmpty = false := by
    intro rest i d h
    have hpos := hg.opener_length_pos (firstOpener_eq_some h).1
    have hle := firstOpener_le h
    cases rest with
    | nil =>
      rw [List.length_nil] at hle
      omega
    | cons c rest => rfl
  induction h with
  | code h =>
    rw [codeSpans, h]
    split <;> rfl
  | line h hcloser =>
    rw [codeSpans, hne h, h]
    simp [hcloser]
  | opened h hcloser hj =>
    rw [codeSpans, hne h, h]
    simp [hcloser, hj]
  | @closed pos i j rest closer d spans pending h hcloser hj after ih =>
    have hpos := hg.opener_length_pos (firstOpener_eq_some h).1
    have hle := firstOpener_le h
    have hshort : ((rest.drop (i + d.opener.length)).drop (j + closer.length)).length <
        rest.length := by
      simp only [List.length_drop]
      omega
    rw [codeSpans, hne h, h]
    simp only [hcloser, hj, dif_pos hshort, ih]
    rfl

theorem Lexed.within {pos : Nat} {rest : Text} {spans : List Span} {pending : Option Text}
    (h : grammar.Lexed pos rest spans pending) :
    ∀ span ∈ spans, span.Within pos (pos + rest.length) := by
  induction h with
  | code h => simp
  | line h hcloser =>
    have hle := firstOpener_le h
    rintro span hspan
    rw [List.mem_singleton] at hspan
    subst hspan
    constructor <;> dsimp only <;> omega
  | opened h hcloser hj =>
    have hle := firstOpener_le h
    rintro span hspan
    rw [List.mem_singleton] at hspan
    subst hspan
    constructor <;> dsimp only <;> omega
  | closed h hcloser hj after ih =>
    have hle := firstOpener_le h
    have hbody := (Text.indexOf?_eq_some hj).2
    rw [List.length_drop] at hbody
    intro span hspan
    rcases List.mem_cons.1 hspan with rfl | hspan
    · constructor <;> dsimp only <;> omega
    · have hin := ih span hspan
      have hstop := hin.stop_le
      have hfirst := hin.first_le
      simp only [List.length_drop] at hstop
      exact ⟨by omega, hin.start_le, hin.bodyStart_le, hin.bodyStop_le, by omega⟩

/-- The comments of a line follow each other, closers between them. -/
theorem Lexed.pairwise (hg : grammar.Proper) {pos : Nat} {rest : Text} {spans : List Span}
    {pending : Option Text} (h : grammar.Lexed pos rest spans pending) :
    spans.Pairwise Span.Precedes := by
  induction h with
  | code h => exact List.Pairwise.nil
  | line h hcloser => exact List.pairwise_singleton _ _
  | opened h hcloser hj => exact List.pairwise_singleton _ _
  | closed h hcloser hj after ih =>
    refine List.pairwise_cons.2 ⟨?_, ih⟩
    intro span hspan
    have hfirst := (after.within span hspan).first_le
    have hpos := List.length_pos_iff.2
      (hg.closer_ne_nil _ (firstOpener_eq_some h).1 _ hcloser)
    constructor <;> dsimp only <;> omega

/-- What is awaited is the closer of a delimiter. -/
def Awaits (grammar : Grammar) (pending : Option Text) : Prop :=
  ∀ closer ∈ pending, ∃ d ∈ grammar.delimiters, d.closer = some closer

theorem Lexed.awaits {pos : Nat} {rest : Text} {spans : List Span} {pending : Option Text}
    (h : grammar.Lexed pos rest spans pending) : grammar.Awaits pending := by
  induction h with
  | code h => rintro closer ⟨⟩
  | line h hcloser => rintro closer ⟨⟩
  | @opened pos i rest closer d h hcloser hj =>
    rintro other ⟨⟩
    exact ⟨d, (firstOpener_eq_some h).1, hcloser⟩
  | closed h hcloser hj after ih => exact ih

theorem lineSpans_of_open {closer line : Text} (h : Text.indexOf? closer line = none) :
    grammar.lineSpans (some closer) line =
      ([⟨0, line.length, 0, line.length⟩], some closer) := by
  rw [lineSpans.eq_def]
  dsimp only
  rw [h]

theorem lineSpans_of_closed {closer line : Text} {i : Nat}
    (h : Text.indexOf? closer line = some i) :
    grammar.lineSpans (some closer) line =
      (⟨0, i + closer.length, 0, i⟩ ::
        (grammar.codeSpans (i + closer.length) (line.drop (i + closer.length))).1,
        (grammar.codeSpans (i + closer.length) (line.drop (i + closer.length))).2) := by
  rw [lineSpans.eq_def]
  dsimp only
  rw [h]

theorem awaits_lineSpans (hg : grammar.Proper) {pending : Option Text}
    (hpending : grammar.Awaits pending) (line : Text) :
    grammar.Awaits (grammar.lineSpans pending line).2 := by
  cases pending with
  | none => exact (lexed_codeSpans hg 0 line).awaits
  | some closer =>
    cases hi : Text.indexOf? closer line with
    | none =>
      rw [lineSpans_of_open hi]
      exact hpending
    | some i =>
      rw [lineSpans_of_closed hi]
      exact (lexed_codeSpans hg _ _).awaits

/-- Whatever the delimiters are, the comments that are found lie in what was read. -/
theorem within_codeSpans (grammar : Grammar) (pos : Nat) (rest : Text) :
    ∀ span ∈ (grammar.codeSpans pos rest).1, span.Within pos (pos + rest.length) := by
  fun_induction codeSpans grammar pos rest with
  | case1 => nofun
  | case2 => nofun
  | case3 pos rest _ i d h =>
    have hle := firstOpener_le h
    rw [List.forall_mem_singleton]
    constructor <;> dsimp only <;> omega
  | case4 pos rest _ i d h =>
    have hle := firstOpener_le h
    rw [List.forall_mem_singleton]
    constructor <;> dsimp only <;> omega
  | case5 pos rest _ i d h bodyStart body closer hcloser j hj span after _ spans pending hrest ih =>
    have hle := firstOpener_le h
    have hbody := (Text.indexOf?_eq_some hj).2
    have hlong : body.length = rest.length - (i + d.opener.length) := List.length_drop
    have hafter : after.length = body.length - (j + closer.length) := List.length_drop
    refine List.forall_mem_cons.2 ⟨by constructor <;> dsimp only [span] <;> omega, ?_⟩
    intro s hs
    have hin := ih s (by rwa [hrest])
    have hstop := hin.stop_le
    have hfirst := hin.first_le
    exact ⟨by omega, hin.start_le, hin.bodyStart_le, hin.bodyStop_le, by omega⟩
  | case6 pos rest _ i d h bodyStart body closer hcloser j hj span =>
    have hle := firstOpener_le h
    have hbody := (Text.indexOf?_eq_some hj).2
    have hlong : body.length = rest.length - (i + d.opener.length) := List.length_drop
    rw [List.forall_mem_singleton]
    constructor <;> dsimp only [span] <;> omega

theorem within_lineSpans (grammar : Grammar) (pending : Option Text) (line : Text) :
    ∀ span ∈ (grammar.lineSpans pending line).1, span.Within 0 line.length := by
  cases pending with
  | none =>
    have hwithin := within_codeSpans grammar 0 line
    rwa [Nat.zero_add] at hwithin
  | some closer =>
    cases hi : Text.indexOf? closer line with
    | none =>
      rw [lineSpans_of_open hi, List.forall_mem_singleton]
      constructor <;> dsimp only <;> omega
    | some i =>
      have hle := (Text.indexOf?_eq_some hi).2
      rw [lineSpans_of_closed hi]
      refine List.forall_mem_cons.2 ⟨by constructor <;> dsimp only <;> omega, ?_⟩
      intro span hspan
      have hin := within_codeSpans grammar _ _ span hspan
      have hstop := hin.stop_le
      rw [List.length_drop] at hstop
      exact ⟨by omega, hin.start_le, hin.bodyStart_le, hin.bodyStop_le, by omega⟩

/-- The comments of a line are in it and follow each other. -/
theorem lineSpans_ordered (hg : grammar.Proper) {pending : Option Text}
    (hpending : grammar.Awaits pending) (line : Text) :
    (∀ span ∈ (grammar.lineSpans pending line).1, span.Within 0 line.length) ∧
      (grammar.lineSpans pending line).1.Pairwise Span.Precedes := by
  refine ⟨within_lineSpans grammar pending line, ?_⟩
  cases pending with
  | none => exact (lexed_codeSpans hg 0 line).pairwise hg
  | some closer =>
    cases hi : Text.indexOf? closer line with
    | none =>
      rw [lineSpans_of_open hi]
      exact List.pairwise_singleton _ _
    | some i =>
      obtain ⟨d, hd, hcloser⟩ := hpending closer rfl
      have hpos := List.length_pos_iff.2 (hg.closer_ne_nil d hd closer hcloser)
      rw [lineSpans_of_closed hi]
      refine List.pairwise_cons.2 ⟨?_, (lexed_codeSpans hg _ _).pairwise hg⟩
      intro span hspan
      have hfirst := (within_codeSpans grammar _ _ span hspan).first_le
      constructor <;> dsimp only <;> omega

/-- How the comments of a line are found when `pending` is awaited at its start. -/
inductive LexedLine (grammar : Grammar) : Option Text → Text → List Span → Option Text → Prop
  | code {line : Text} {spans : List Span} {pending : Option Text}
      (h : grammar.Lexed 0 line spans pending) : LexedLine grammar none line spans pending
  | inside {closer line : Text} (h : Text.indexOf? closer line = none) :
      LexedLine grammar (some closer) line [⟨0, line.length, 0, line.length⟩] (some closer)
  | left {closer line : Text} {i : Nat} {spans : List Span} {pending : Option Text}
      (h : Text.indexOf? closer line = some i)
      (after : grammar.Lexed (i + closer.length) (line.drop (i + closer.length)) spans pending) :
      LexedLine grammar (some closer) line (⟨0, i + closer.length, 0, i⟩ :: spans) pending

/-- How the comments of a text are found, line after line. -/
inductive LexedLines (grammar : Grammar) : Option Text → List Text → List (List Span) → Prop
  | nil {pending : Option Text} : LexedLines grammar pending [] []
  | cons {pending pending' : Option Text} {line : Text} {lines : List Text} {spans : List Span}
      {rest : List (List Span)} (h : grammar.LexedLine pending line spans pending')
      (after : LexedLines grammar pending' lines rest) :
      LexedLines grammar pending (line :: lines) (spans :: rest)

theorem lexedLine_lineSpans (hg : grammar.Proper) (pending : Option Text) (line : Text) :
    grammar.LexedLine pending line (grammar.lineSpans pending line).1
      (grammar.lineSpans pending line).2 := by
  cases pending with
  | none => exact .code (lexed_codeSpans hg 0 line)
  | some closer =>
    cases hi : Text.indexOf? closer line with
    | none =>
      rw [lineSpans_of_open hi]
      exact .inside hi
    | some i =>
      rw [lineSpans_of_closed hi]
      exact .left hi (lexed_codeSpans hg _ _)

theorem lexedLines_spansFrom (hg : grammar.Proper) (pending : Option Text) (lines : List Text) :
    grammar.LexedLines pending lines (grammar.spansFrom pending lines) := by
  induction lines generalizing pending with
  | nil => exact .nil
  | cons line lines ih => exact .cons (lexedLine_lineSpans hg pending line) (ih _)

end Grammar

end TodoTracker
