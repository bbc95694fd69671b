import Mathlib.Data.List.MinMax
import TodoTracker.Proofs.Comment.Lexed

/-!
# Comments read column by column

An automaton that reads a text one column after the other and keeps nothing but whether it is in a
comment, since which column and up to which closer. Over a grammar without empty delimiters it finds
the comments that the search with its jumps finds.
-/

set_option autoImplicit false

namespace TodoTracker

/-- The body of a comment ends where its closer first occurs, or else with the line. -/
def Span.Ends (line : Text) (closer : Option Text) (span : Span) : Prop :=
  (∀ needle ∈ closer, ∀ p, span.bodyStart ≤ p → p < span.bodyStop → ¬needle <+: line.drop p) ∧
    (span.bodyStop = line.length ∧ span.stop = line.length ∨
      ∃ needle ∈ closer, needle <+: line.drop span.bodyStop ∧
        span.stop = span.bodyStop + needle.length)

namespace Span

theorem ends_line {line : Text} {start bodyStart : Nat} :
    Span.Ends line none ⟨start, line.length, bodyStart, line.length⟩ :=
  ⟨by rintro needle ⟨⟩, .inl ⟨rfl, rfl⟩⟩

theorem ends_open {closer line : Text} {start bodyStart : Nat}
    (h : Text.indexOf? closer (line.drop bodyStart) = none) :
    Span.Ends line (some closer) ⟨start, line.length, bodyStart, line.length⟩ := by
  refine ⟨?_, .inl ⟨rfl, rfl⟩⟩
  rintro needle ⟨⟩ p hp hlt hstarts
  obtain ⟨q, rfl⟩ := Nat.exists_eq_add_of_le hp
  refine Text.not_prefix_of_indexOf?_none h q ?_ (by rwa [List.drop_drop])
  rw [List.length_drop]
  dsimp only at hlt
  omega

theorem ends_closed {closer line : Text} {j : Nat} (start bodyStart : Nat)
    (h : Text.indexOf? closer (line.drop bodyStart) = some j) :
    Span.Ends line (some closer)
      ⟨start, bodyStart + j + closer.length, bodyStart, bodyStart + j⟩ := by
  refine ⟨?_, .inr ⟨closer, rfl, ?_, rfl⟩⟩
  · rintro needle ⟨⟩ p hp hlt hstarts
    obtain ⟨q, rfl⟩ := Nat.exists_eq_add_of_le hp
    refine Text.not_prefix_of_lt_indexOf? h (p := q) ?_ (by rwa [List.drop_drop])
    dsimp only at hlt
    omega
  · have hstarts := (Text.indexOf?_eq_some h).1
    rwa [List.drop_drop] at hstarts

end Span

namespace Grammar

variable {grammar : Grammar}

/-- The delimiter that is taken at the front of a text: the longest one there, of equal ones the
first. -/
def opener? (grammar : Grammar) (rest : Text) : Option Delimiter :=
  (grammar.delimiters.filter (·.opener.isPrefixOf rest)).argmax (·.opener.length)

inductive Mode
  | code
  | comment (start bodyStart : Nat) (closer : Option Text)
  deriving DecidableEq, Repr

/-- What a line starts in. -/
def Mode.carried : Option Text → Mode
  | none => .code
  | some closer => .comment 0 0 (some closer)

/-- The comments of a line that is read from column `pos` on, and the closer that is awaited at its
end. The next `skip` characters are the rest of a delimiter. -/
def readColumns (grammar : Grammar) : Nat → Nat → Mode → Text → List Span × Option Text
  | _, _, .code, [] => ([], none)
  | pos, _, .comment start bodyStart closer, [] => ([⟨start, pos, bodyStart, pos⟩], closer)
  | pos, skip + 1, mode, _ :: rest => readColumns grammar (pos + 1) skip mode rest
  | pos, 0, .code, c :: rest =>
    match grammar.opener? (c :: rest) with
    | none => readColumns grammar (pos + 1) 0 .code rest
    | some d =>
      readColumns grammar (pos + 1) (d.opener.length - 1)
        (.comment pos (pos + d.opener.length) d.closer) rest
  | pos, 0, .comment start bodyStart closer, c :: rest =>
    match closer.filter (·.isPrefixOf (c :: rest)) with
    | none => readColumns grammar (pos + 1) 0 (.comment start bodyStart closer) rest
    | some needle =>
      let (spans, pending) := readColumns grammar (pos + 1) (needle.length - 1) .code rest
      (⟨start, pos + needle.length, bodyStart, pos⟩ :: spans, pending)

def readLine (grammar : Grammar) (pending : Option Text) (line : Text) : List Span × Option Text :=
  grammar.readColumns 0 0 (.carried pending) line

def readLines (grammar : Grammar) (pending : Option Text) : List Text → List (List Span)
  | [] => []
  | line :: lines =>
    let (spans, pending) := grammar.readLine pending line
    spans :: readLines grammar pending lines

/-- What is awaited behind some lines. -/
def awaited (grammar : Grammar) (pending : Option Text) (lines : List Text) : Option Text :=
  lines.foldl (fun pending line => (grammar.readLine pending line).2) pending

/-- How comments divide a line that starts with `pending` awaited. -/
structure Divided (grammar : Grammar) (pending : Option Text) (line : Text)
    (spans : List Span) : Prop where
  within : ∀ span ∈ spans, span.Within 0 line.length
  ordered : spans.Pairwise Span.Precedes
  code : ∀ p < line.length, (∀ span ∈ spans, ¬(span.start ≤ p ∧ p < span.stop)) →
    ∀ d ∈ grammar.delimiters, ¬d.opener <+: line.drop p
  bodies : ∀ span ∈ spans,
    (span.start = 0 ∧ span.bodyStart = 0 ∧ pending ≠ none ∧ span.Ends line pending) ∨
      ∃ d, grammar.opener? (line.drop span.start) = some d ∧
        span.bodyStart = span.start + d.opener.length ∧ span.Ends line d.closer

theorem opener?_eq_none_iff {rest : Text} :
    grammar.opener? rest = none ↔ ∀ d ∈ grammar.delimiters, ¬d.opener <+: rest := by
  rw [opener?, List.argmax_eq_none, List.filter_eq_nil_iff]
  simp only [List.isPrefixOf_iff_prefix]

theorem opener?_eq_some {rest : Text} {d : Delimiter} (h : grammar.opener? rest = some d) :
    d ∈ grammar.delimiters ∧ d.opener <+: rest := by
  have hmem := List.mem_filter.1 (List.argmax_mem h)
  exact ⟨hmem.1, List.isPrefixOf_iff_prefix.1 hmem.2⟩

section FirstOpener

/-- What was found so far, and which of it is at the front. -/
def Taken (found : Option (Nat × Delimiter)) : Option Delimiter → Prop
  | some d => found = some (0, d)
  | none => Behind 0 found

theorem foundIn_cons_of_prefix {c : Char} {rest : Text} {d : Delimiter}
    (h : d.opener.isPrefixOf (c :: rest) = true) : foundIn (c :: rest) d = some (0, d) := by
  rw [foundIn, Text.indexOf?_cons, if_pos h]
  rfl

theorem foundIn_cons_of_not {c : Char} {rest : Text} {d : Delimiter}
    (h : ¬d.opener.isPrefixOf (c :: rest) = true) :
    foundIn (c :: rest) d = (foundIn rest d).map (Prod.map (· + 1) id) := by
  rw [foundIn, foundIn, Text.indexOf?_cons, if_neg h, Option.map_map, Option.map_map]
  rfl

theorem behind_shift (found : Option (Nat × Delimiter)) :
    Behind 0 (found.map (Prod.map (· + 1) id)) := by
  intro f hf
  obtain ⟨g, -, rfl⟩ := Option.map_eq_some_iff.1 hf
  exact Nat.succ_pos _

theorem join_shift (found best : Option (Nat × Delimiter)) :
    join (found.map (Prod.map (· + 1) id)) (best.map (Prod.map (· + 1) id)) =
      (join found best).map (Prod.map (· + 1) id) := by
  cases found with
  | none => rfl
  | some found =>
    cases best with
    | none => rfl
    | some best =>
      simp only [join, better, Option.map_some, Prod.map_fst, Prod.map_snd, id_eq,
        Nat.add_lt_add_iff_right, Nat.add_right_cancel_iff]
      split <;> rfl

theorem taken_join (c : Char) (rest : Text) {found : Option (Nat × Delimiter)}
    {taken : Option Delimiter} (h : Taken found taken) (d : Delimiter) :
    Taken (join (foundIn (c :: rest) d) found)
      (if d.opener.isPrefixOf (c :: rest) then
        List.argAux (fun a b => b.opener.length < a.opener.length) taken d else taken) := by
  by_cases hd : d.opener.isPrefixOf (c :: rest) = true
  · rw [if_pos hd, foundIn_cons_of_prefix hd]
    cases taken with
    | none =>
      rw [join_behind (fun hb => Nat.lt_irrefl 0 (hb _ rfl)) h]
      rfl
    | some best =>
      rw [Taken] at h
      subst h
      simp only [join, better, List.argAux, Nat.lt_irrefl, true_and, false_or]
      split <;> rfl
  · rw [if_neg hd, foundIn_cons_of_not hd]
    cases taken with
    | none => exact (behind_shift _).join h
    | some best =>
      rw [Taken] at h
      subst h
      exact join_of_behind (behind_shift _) fun hb => Nat.lt_irrefl 0 (hb _ rfl)

theorem taken_foldl (c : Char) (rest : Text) (delimiters : List Delimiter)
    {found : Option (Nat × Delimiter)} {taken : Option Delimiter} (h : Taken found taken) :
    Taken (delimiters.foldl (fun best d => join (foundIn (c :: rest) d) best) found)
      ((delimiters.filter (·.opener.isPrefixOf (c :: rest))).foldl
        (List.argAux fun a b => b.opener.length < a.opener.length) taken) := by
  induction delimiters generalizing found taken with
  | nil => exact h
  | cons d delimiters ih =>
    have hstep := ih (taken_join c rest h d)
    rw [List.filter_cons]
    by_cases hd : d.opener.isPrefixOf (c :: rest) = true
    · simpa [hd] using hstep
    · simpa [hd] using hstep

theorem foldl_join_shift {c : Char} {rest : Text} {delimiters : List Delimiter}
    (h : ∀ d ∈ delimiters, ¬d.opener.isPrefixOf (c :: rest) = true)
    (best : Option (Nat × Delimiter)) :
    delimiters.foldl (fun best d => join (foundIn (c :: rest) d) best)
        (best.map (Prod.map (· + 1) id)) =
      (delimiters.foldl (fun best d => join (foundIn rest d) best) best).map
        (Prod.map (· + 1) id) := by
  induction delimiters generalizing best with
  | nil => rfl
  | cons d delimiters ih =>
    rw [List.foldl_cons, List.foldl_cons, foundIn_cons_of_not (h d List.mem_cons_self), join_shift]
    exact ih (fun e he => h e (List.mem_cons_of_mem _ he)) _

/-- The search with a running best finds the first column with a delimiter. -/
theorem firstOpener_cons (grammar : Grammar) (c : Char) (rest : Text) :
    grammar.firstOpener (c :: rest) =
      match grammar.opener? (c :: rest) with
      | some d => some (0, d)
      | none => (grammar.firstOpener rest).map (Prod.map (· + 1) id) := by
  cases h : grammar.opener? (c :: rest) with
  | some d =>
    have hnone : Taken none none := by rintro f ⟨⟩
    have htaken := taken_foldl c rest grammar.delimiters hnone
    change Taken _ (grammar.opener? (c :: rest)) at htaken
    rw [h] at htaken
    rw [firstOpener_eq]
    exact htaken
  | none =>
    rw [firstOpener_eq, firstOpener_eq]
    refine foldl_join_shift (fun d hd => ?_) none
    rw [List.isPrefixOf_iff_prefix]
    exact opener?_eq_none_iff.1 h d hd

theorem opener?_of_firstOpener_none {rest : Text} (h : grammar.firstOpener rest = none) {p : Nat}
    (hp : p < rest.length) : grammar.opener? (rest.drop p) = none := by
  induction rest generalizing p with
  | nil => simp at hp
  | cons c rest ih =>
    rw [firstOpener_cons] at h
    cases hc : grammar.opener? (c :: rest) with
    | some d => simp [hc] at h
    | none =>
      cases p with
      | zero => exact hc
      | succ p => exact ih (by simpa [hc] using h) (by simpa using hp)

theorem opener?_of_firstOpener (hg : grammar.Proper) {rest : Text} {i : Nat} {d : Delimiter}
    (h : grammar.firstOpener rest = some (i, d)) :
    grammar.opener? (rest.drop i) = some d ∧
      ∀ p < i, grammar.opener? (rest.drop p) = none := by
  induction rest generalizing i with
  | nil => simp [firstOpener_nil hg] at h
  | cons c rest ih =>
    rw [firstOpener_cons] at h
    cases hc : grammar.opener? (c :: rest) with
    | some e =>
      simp only [hc, Option.some.injEq, Prod.mk.injEq] at h
      obtain ⟨rfl, rfl⟩ := h
      exact ⟨hc, fun p hp => absurd hp (Nat.not_lt_zero p)⟩
    | none =>
      simp only [hc, Option.map_eq_some_iff] at h
      obtain ⟨⟨j, e⟩, hfirst, heq⟩ := h
      cases heq
      obtain ⟨hat, hbefore⟩ := ih hfirst
      refine ⟨hat, fun p hp => ?_⟩
      cases p with
      | zero => exact hc
      | succ p => exact hbefore p (by simpa using hp)

end FirstOpener

section Read

theorem readColumns_skip {pos skip : Nat} {mode : Mode} {rest : Text} (h : skip ≤ rest.length) :
    grammar.readColumns pos skip mode rest =
      grammar.readColumns (pos + skip) 0 mode (rest.drop skip) := by
  induction skip generalizing pos rest with
  | zero => rfl
  | succ skip ih =>
    cases rest with
    | nil => simp at h
    | cons c rest =>
      have hpos : pos + (skip + 1) = pos + 1 + skip := by omega
      rw [hpos, List.drop_succ_cons, ← ih (by simpa using h)]
      cases mode <;> rfl

theorem readColumns_code (hg : grammar.Proper) (pos : Nat) (rest : Text) :
    grammar.readColumns pos 0 .code rest =
      match grammar.firstOpener rest with
      | none => ([], none)
      | some (i, d) =>
        grammar.readColumns (pos + i + d.opener.length) 0
          (.comment (pos + i) (pos + i + d.opener.length) d.closer)
          (rest.drop (i + d.opener.length)) := by
  induction rest generalizing pos with
  | nil =>
    rw [firstOpener_nil hg]
    rfl
  | cons c rest ih =>
    rw [readColumns, firstOpener_cons]
    cases hc : grammar.opener? (c :: rest) with
    | some d =>
      obtain ⟨hd, hstarts⟩ := opener?_eq_some hc
      have hpos := hg.opener_length_pos hd
      have hle := hstarts.length_le
      rw [List.length_cons] at hle
      dsimp only
      rw [readColumns_skip (by omega)]
      obtain ⟨n, hn⟩ := Nat.exists_eq_add_of_lt hpos
      rw [hn]
      simp [Nat.add_assoc, Nat.add_comm 1]
    | none =>
      dsimp only
      rw [ih]
      cases grammar.firstOpener rest with
      | none => rfl
      | some found =>
        simp only [Option.map_some, Prod.map, id_eq]
        have hpos : pos + (found.1 + 1) = pos + 1 + found.1 := by omega
        have hdrop : found.1 + 1 + found.2.opener.length =
            found.1 + found.2.opener.length + 1 := by omega
        rw [hpos, hdrop, List.drop_succ_cons]

theorem readColumns_line (pos start bodyStart : Nat) (rest : Text) :
    grammar.readColumns pos 0 (.comment start bodyStart none) rest =
      ([⟨start, pos + rest.length, bodyStart, pos + rest.length⟩], none) := by
  induction rest generalizing pos with
  | nil => rfl
  | cons c rest ih =>
    rw [readColumns, Option.filter_none, List.length_cons]
    dsimp only
    rw [ih, Nat.add_right_comm, Nat.add_assoc]

theorem readColumns_block {closer : Text} (hcloser : 0 < closer.length) (pos start bodyStart : Nat)
    (rest : Text) :
    grammar.readColumns pos 0 (.comment start bodyStart (some closer)) rest =
      match Text.indexOf? closer rest with
      | none => ([⟨start, pos + rest.length, bodyStart, pos + rest.length⟩], some closer)
      | some j =>
        let after := grammar.readColumns (pos + j + closer.length) 0 .code
          (rest.drop (j + closer.length))
        (⟨start, pos + j + closer.length, bodyStart, pos + j⟩ :: after.1, after.2) := by
  induction rest generalizing pos with
  | nil =>
    rw [Text.indexOf?, if_neg (by simpa using List.length_pos_iff.1 hcloser)]
    rfl
  | cons c rest ih =>
    rw [readColumns, Text.indexOf?_cons]
    by_cases hc : closer.isPrefixOf (c :: rest) = true
    · have hle := (List.isPrefixOf_iff_prefix.1 hc).length_le
      rw [List.length_cons] at hle
      obtain ⟨n, hn⟩ := Nat.exists_eq_add_of_lt hcloser
      rw [if_pos hc, Option.filter_some, if_pos hc]
      dsimp only
      rw [readColumns_skip (by omega), hn]
      simp [Nat.add_assoc, Nat.add_comm 1]
    · rw [if_neg hc, Option.filter_some, if_neg hc]
      dsimp only
      rw [ih]
      cases Text.indexOf? closer rest with
      | none =>
        simp only [Option.map_none, List.length_cons, Nat.add_assoc, Nat.add_comm 1]
      | some j =>
        have hpos : pos + (j + 1) = pos + 1 + j := by omega
        have hdrop : j + 1 + closer.length = j + closer.length + 1 := by omega
        simp only [Option.map_some, hpos, hdrop, List.drop_succ_cons]

end Read

section Lexed

variable {pos : Nat} {rest line : Text} {spans : List Span} {pending pending' : Option Text}

theorem Lexed.readColumns_eq (hg : grammar.Proper) (h : grammar.Lexed pos rest spans pending) :
    grammar.readColumns pos 0 .code rest = (spans, pending) := by
  induction h with
  | code h => rw [readColumns_code hg, h]
  | @line pos i rest d h hcloser =>
    have hle := firstOpener_le h
    have hstop : pos + i + d.opener.length + (rest.drop (i + d.opener.length)).length =
        pos + rest.length := by
      rw [List.length_drop]
      omega
    rw [readColumns_code hg, h]
    dsimp only
    rw [hcloser, readColumns_line, hstop]
  | @opened pos i rest closer d h hcloser hj =>
    have hle := firstOpener_le h
    have hstop : pos + i + d.opener.length + (rest.drop (i + d.opener.length)).length =
        pos + rest.length := by
      rw [List.length_drop]
      omega
    have hpos := hg.closer_length_pos (firstOpener_eq_some h).1 hcloser
    rw [readColumns_code hg, h]
    dsimp only
    rw [hcloser, readColumns_block hpos, hj, hstop]
  | @closed pos i j rest closer d spans pending h hcloser hj after ih =>
    have hpos := hg.closer_length_pos (firstOpener_eq_some h).1 hcloser
    rw [readColumns_code hg, h]
    dsimp only
    rw [hcloser, readColumns_block hpos, hj]
    dsimp only
    rw [ih]

theorem LexedLine.readLine_eq (hg : grammar.Proper) (hpending : grammar.Awaits pending)
    (h : grammar.LexedLine pending line spans pending') :
    grammar.readLine pending line = (spans, pending') := by
  cases h with
  | code h => exact h.readColumns_eq hg
  | @inside closer line h =>
    obtain ⟨d, hd, hcloser⟩ := hpending closer rfl
    rw [readLine, Mode.carried, readColumns_block (hg.closer_length_pos hd hcloser), h]
    simp
  | @left closer line i spans pending h after =>
    obtain ⟨d, hd, hcloser⟩ := hpending closer rfl
    rw [readLine, Mode.carried, readColumns_block (hg.closer_length_pos hd hcloser), h]
    simp [after.readColumns_eq hg]

theorem readLine_eq_lineSpans (hg : grammar.Proper) (hpending : grammar.Awaits pending)
    (line : Text) : grammar.readLine pending line = grammar.lineSpans pending line :=
  (lexedLine_lineSpans hg pending line).readLine_eq hg hpending

theorem readLines_eq_spansFrom (hg : grammar.Proper) (hpending : grammar.Awaits pending)
    (lines : List Text) : grammar.readLines pending lines = grammar.spansFrom pending lines := by
  induction lines generalizing pending with
  | nil => rfl
  | cons line lines ih =>
    rw [readLines, spansFrom, readLine_eq_lineSpans hg hpending]
    dsimp only
    rw [ih (awaits_lineSpans hg hpending line)]

theorem awaits_awaited (hg : grammar.Proper) (hpending : grammar.Awaits pending)
    (lines : List Text) : grammar.Awaits (grammar.awaited pending lines) := by
  induction lines generalizing pending with
  | nil => exact hpending
  | cons line lines ih =>
    rw [awaited, List.foldl_cons, readLine_eq_lineSpans hg hpending]
    exact ih (awaits_lineSpans hg hpending line)

theorem getElem?_spansFrom (hg : grammar.Proper) (hpending : grammar.Awaits pending)
    (front : List Text) (line : Text) (back : List Text) :
    (grammar.spansFrom pending (front ++ line :: back))[front.length]? =
      some (grammar.lineSpans (grammar.awaited pending front) line).1 := by
  induction front generalizing pending with
  | nil => rfl
  | cons first front ih =>
    rw [List.cons_append, spansFrom, awaited, List.foldl_cons,
      readLine_eq_lineSpans hg hpending, List.length_cons, List.getElem?_cons_succ]
    exact ih (awaits_lineSpans hg hpending first)

/-- No delimiter starts in the code between the comments. -/
theorem Lexed.opener?_eq_none (hg : grammar.Proper) (h : grammar.Lexed pos rest spans pending)
    {p : Nat} (hp : p < rest.length)
    (hout : ∀ span ∈ spans, ¬(span.start ≤ pos + p ∧ pos + p < span.stop)) :
    grammar.opener? (rest.drop p) = none := by
  induction h generalizing p with
  | code h => exact opener?_of_firstOpener_none h hp
  | @line pos i rest d h hcloser =>
    have hcode := hout _ List.mem_cons_self
    dsimp only at hcode
    exact (opener?_of_firstOpener hg h).2 p (by omega)
  | @opened pos i rest closer d h hcloser hj =>
    have hcode := hout _ List.mem_cons_self
    dsimp only at hcode
    exact (opener?_of_firstOpener hg h).2 p (by omega)
  | @closed pos i j rest closer d spans pending h hcloser hj after ih =>
    have hcode := hout _ List.mem_cons_self
    dsimp only at hcode
    by_cases hi : p < i
    · exact (opener?_of_firstOpener hg h).2 p hi
    · obtain ⟨q, rfl⟩ : ∃ q, p = i + d.opener.length + (j + closer.length) + q :=
        Nat.exists_eq_add_of_le (by omega)
      rw [← List.drop_drop, ← List.drop_drop]
      apply ih
      · simp only [List.length_drop]
        omega
      · intro span hspan
        have hbehind := hout span (List.mem_cons_of_mem _ hspan)
        omega

/-- Each comment is opened by the delimiter that is taken at its first column. -/
theorem Lexed.bodies (hg : grammar.Proper) (h : grammar.Lexed pos rest spans pending)
    (hline : line.drop pos = rest) (hpos : pos ≤ line.length) :
    ∀ span ∈ spans, ∃ d, grammar.opener? (line.drop span.start) = some d ∧
      span.bodyStart = span.start + d.opener.length ∧ span.Ends line d.closer := by
  have hlen := congrArg List.length hline
  rw [List.length_drop] at hlen
  induction h with
  | code h => simp
  | @line pos i rest d h hcloser =>
    have hopen := (opener?_of_firstOpener hg h).1
    have hstop : pos + rest.length = line.length := by omega
    rw [← hline, List.drop_drop] at hopen
    intro span hspan
    rw [List.mem_singleton] at hspan
    subst hspan
    refine ⟨d, hopen, rfl, ?_⟩
    rw [hcloser, hstop]
    exact Span.ends_line
  | @opened pos i rest closer d h hcloser hj =>
    have hopen := (opener?_of_firstOpener hg h).1
    have hstop : pos + rest.length = line.length := by omega
    rw [← hline, List.drop_drop] at hopen hj
    intro span hspan
    rw [List.mem_singleton] at hspan
    subst hspan
    refine ⟨d, hopen, rfl, ?_⟩
    rw [hcloser, hstop]
    exact Span.ends_open (by rwa [Nat.add_assoc])
  | @closed pos i j rest closer d spans pending h hcloser hj after ih =>
    have hopen := (opener?_of_firstOpener hg h).1
    have hle := firstOpener_le h
    have hbody := (Text.indexOf?_eq_some hj).2
    rw [List.length_drop] at hbody
    rw [← hline, List.drop_drop] at hopen hj
    intro span hspan
    rcases List.mem_cons.1 hspan with rfl | hspan
    · refine ⟨d, hopen, rfl, ?_⟩
      rw [hcloser]
      exact Span.ends_closed _ _ (by rwa [Nat.add_assoc])
    · refine ih ?_ (by omega) ?_ span hspan
      · rw [← hline, List.drop_drop, List.drop_drop]
        congr 1
        omega
      · simp only [List.length_drop]
        omega

/-- The comments of a line divide it. -/
theorem divided_lineSpans (hg : grammar.Proper) (hpending : grammar.Awaits pending)
    (line : Text) : grammar.Divided pending line (grammar.lineSpans pending line).1 := by
  obtain ⟨hwithin, hordered⟩ := lineSpans_ordered hg hpending line
  have hlexed := lexedLine_lineSpans hg pending line
  generalize grammar.lineSpans pending line = found at hwithin hordered hlexed ⊢
  obtain ⟨spans, next⟩ := found
  dsimp only at hwithin hordered hlexed ⊢
  refine ⟨hwithin, hordered, fun p hp hout => opener?_eq_none_iff.1 ?_, fun span hspan => ?_⟩
  · cases hlexed with
    | code h => exact h.opener?_eq_none hg hp (by simpa using hout)
    | inside h => exact absurd ⟨Nat.zero_le p, hp⟩ (hout _ List.mem_cons_self)
    | @left closer line i spans pending h after =>
      have hcode := hout _ List.mem_cons_self
      dsimp only at hcode
      obtain ⟨q, rfl⟩ : ∃ q, p = i + closer.length + q := Nat.exists_eq_add_of_le (by omega)
      rw [← List.drop_drop]
      apply after.opener?_eq_none hg
      · rw [List.length_drop]
        omega
      · exact fun span hspan => hout span (List.mem_cons_of_mem _ hspan)
  · cases hlexed with
    | code h => exact .inr (h.bodies hg rfl (Nat.zero_le _) span hspan)
    | inside h =>
      rw [List.mem_singleton] at hspan
      subst hspan
      exact .inl ⟨rfl, rfl, by simp, Span.ends_open h⟩
    | @left closer line i spans pending h after =>
      rcases List.mem_cons.1 hspan with rfl | hspan
      · have hends := Span.ends_closed 0 0 h
        rw [Nat.zero_add] at hends
        exact .inl ⟨rfl, rfl, by simp, hends⟩
      · exact .inr (after.bodies hg rfl (Text.indexOf?_eq_some h).2 span hspan)

end Lexed

/-- The search ends and finds what the automaton finds. Its comments divide each line: they are
ordered, apart and on the line, no delimiter starts between them, and no body has its closer in
it. -/
theorem spans_eq_readLines (hg : grammar.Proper) (lines : List Text) :
    grammar.LexedLines none lines (grammar.spans lines) ∧
      grammar.spans lines = grammar.readLines none lines ∧
      ∀ front line back, lines = front ++ line :: back →
        ∃ spans, (grammar.spans lines)[front.length]? = some spans ∧
          grammar.Divided (grammar.awaited none front) line spans := by
  have hnone : grammar.Awaits none := by rintro closer ⟨⟩
  refine ⟨lexedLines_spansFrom hg none lines, (readLines_eq_spansFrom hg hnone lines).symm, ?_⟩
  rintro front line back rfl
  exact ⟨_, getElem?_spansFrom hg hnone front line back,
    divided_lineSpans hg (awaits_awaited hg hnone front) line⟩

theorem spans_eq_readLines_carried :
    let lua := row "lua" "lua" ["--"] [("--[[", "]]")]
    let lines := ["a --[[ b --".toList, "]] c --d".toList]
    lua.Proper ∧ lua.LexedLines none lines (lua.spans lines) ∧
      lua.spans lines = [[⟨2, 11, 6, 11⟩], [⟨0, 2, 0, 0⟩, ⟨5, 8, 7, 8⟩]] ∧
      ∃ spans, (lua.spans lines)[1]? = some spans ∧
        lua.Divided (some "]]".toList) "]] c --d".toList spans := by
  have hlua : (row "lua" "lua" ["--"] [("--[[", "]]")]).Proper :=
    ⟨by decide +kernel, by decide +kernel⟩
  obtain ⟨hlexed, hread, hdivided⟩ :=
    spans_eq_readLines hlua ["a --[[ b --".toList, "]] c --d".toList]
  exact ⟨hlua, hlexed, hread.trans (by decide +kernel), hdivided ["a --[[ b --".toList] _ [] rfl⟩

end Grammar

end TodoTracker
