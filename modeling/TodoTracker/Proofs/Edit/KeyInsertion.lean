import TodoTracker.Proofs.Edit.KeyRemoval
import TodoTracker.Proofs.Marker.Delimiter
import TodoTracker.Proofs.Marker.Turn

/-!
# Keys for the markers of a text

Any markers of a text without a written key are given keys, and these are inserted behind their
signal words. The candidates of the new text are those of the old one with their columns moved, the
chosen ones have their keys, and the text is what it was when these are stripped.
-/

set_option autoImplicit false

namespace TodoTracker

namespace Candidate

def onLine (number : Nat) (candidates : List Candidate) : List Candidate :=
  candidates.filter (·.line == number)

/-- The keys that are chosen for the markers of a line. -/
def keyWrites (pick : Candidate → Option TicketKey) (candidates : List Candidate) (number : Nat) :
    List KeyWrite :=
  (onLine number candidates).filterMap fun c => (pick c).map fun key => ⟨c.signalStop, key⟩

/-- The splices that insert the chosen keys into a line. -/
def keyInsertions (pick : Candidate → Option TicketKey) (candidates : List Candidate)
    (number : Nat) : List Splice :=
  (onLine number candidates).filterMap fun c => (pick c).bind fun key =>
    Splice.keyInsertion? c.text c.signalStop key.text ({} : Settings).insertionFormat

/-- The splices that strip the keys of candidates from a line. -/
def keyRemovals (limit : Candidate → Nat) (candidates : List Candidate) (number : Nat) :
    List Splice :=
  (onLine number candidates).filterMap fun c =>
    c.carried.map fun found => Splice.keyRemoval c.text found (limit c)

/-- A candidate as it is when the chosen keys are written. -/
def rewritten (pick : Candidate → Option TicketKey) (candidates : List Candidate)
    (candidate : Candidate) : Candidate :=
  candidate.withKeys (keyWrites pick candidates candidate.line) (pick candidate)

/-- The chosen candidates as they are when their keys are written. -/
def chosen (pick : Candidate → Option TicketKey) (candidates : List Candidate) : List Candidate :=
  (candidates.filter fun c => (pick c).isSome).map (rewritten pick candidates)

/-- A choice of markers without a written key, each with a key that its line does not hold and that
does not start with a signal word. -/
structure KeyChoice (words : List Text) (pick : Candidate → Option TicketKey)
    (candidates : List Candidate) : Prop where
  marker : ∀ c ∈ candidates, ∀ key ∈ pick c, c.signal.isSome
  unwritten : ∀ c ∈ candidates, ∀ key ∈ pick c, ∀ found ∈ c.carried, found.form = .bare
  project : ∀ c ∈ candidates, ∀ key ∈ pick c, key.project ∉ words
  fresh : ∀ c ∈ candidates, ∀ key ∈ pick c, KeyToken.occursIn c.text key.text = false

/-- The key stands in parentheses right behind the signal word of the candidate. -/
def HasWritten (key : TicketKey) (candidate : Candidate) : Prop :=
  ∃ found, candidate.carried = some found ∧ found.key = key.text ∧ found.form = .paren ∧
    found.formStart = candidate.signalStop ∧
    Text.slice candidate.text found.formStart found.formStop = key.written

variable {pick : Candidate → Option TicketKey} {candidates others : List Candidate}
  {number : Nat} {words : List Text}

instance : Decidable (KeyChoice words pick candidates) :=
  decidable_of_iff
    (∀ c ∈ candidates, ∀ key ∈ pick c, c.signal.isSome ∧
      (∀ found ∈ c.carried, found.form = .bare) ∧ key.project ∉ words ∧
        KeyToken.occursIn c.text key.text = false)
    ⟨fun h => ⟨fun c hc key hkey => (h c hc key hkey).1, fun c hc key hkey => (h c hc key hkey).2.1,
      fun c hc key hkey => (h c hc key hkey).2.2.1, fun c hc key hkey => (h c hc key hkey).2.2.2⟩,
      fun h c hc key hkey => ⟨h.marker c hc key hkey, h.unwritten c hc key hkey,
        h.project c hc key hkey, h.fresh c hc key hkey⟩⟩

theorem KeyChoice.mono (h : KeyChoice words pick candidates) (hsub : others ⊆ candidates) :
    KeyChoice words pick others :=
  ⟨fun c hc => h.marker c (hsub hc), fun c hc => h.unwritten c (hsub hc),
    fun c hc => h.project c (hsub hc), fun c hc => h.fresh c (hsub hc)⟩

theorem onLine_append (number : Nat) (candidates others : List Candidate) :
    onLine number (candidates ++ others) = onLine number candidates ++ onLine number others :=
  List.filter_append ..

theorem onLine_eq_self (h : ∀ c ∈ candidates, c.line = number) :
    onLine number candidates = candidates :=
  List.filter_eq_self.2 fun c hc => by simp [h c hc]

theorem onLine_eq_nil (h : ∀ c ∈ candidates, c.line ≠ number) : onLine number candidates = [] :=
  List.filter_eq_nil_iff.2 fun c hc => by simp [h c hc]

theorem onLine_append_left (h : ∀ c ∈ others, c.line ≠ number) :
    onLine number (candidates ++ others) = onLine number candidates := by
  rw [onLine_append, onLine_eq_nil h, List.append_nil]

theorem onLine_append_right (h : ∀ c ∈ candidates, c.line ≠ number) :
    onLine number (candidates ++ others) = onLine number others := by
  rw [onLine_append, onLine_eq_nil h, List.nil_append]

theorem mem_keyWrites {write : KeyWrite} :
    write ∈ keyWrites pick candidates number ↔ ∃ c ∈ candidates, c.line = number ∧
      pick c = some write.key ∧ c.signalStop = write.column := by
  simp only [keyWrites, onLine, List.mem_filterMap, List.mem_filter, beq_iff_eq,
    Option.map_eq_some_iff]
  constructor
  · rintro ⟨c, ⟨hc, hline⟩, key, hkey, rfl⟩
    exact ⟨c, hc, hline, hkey, rfl⟩
  · rintro ⟨c, hc, hline, hkey, hcolumn⟩
    exact ⟨c, ⟨hc, hline⟩, write.key, hkey, by rw [hcolumn]⟩

theorem map_keyWrites {β : Type} (h : ∀ c ∈ candidates, c.line = number) (f : KeyWrite → β) :
    (keyWrites pick candidates number).map f =
      candidates.filterMap fun c => (pick c).map fun key => f ⟨c.signalStop, key⟩ := by
  rw [keyWrites, onLine_eq_self h, List.map_filterMap]
  apply List.filterMap_congr
  intro c _
  rw [Option.map_map]
  rfl

/-- The keys are inserted where they are chosen. -/
theorem KeyChoice.keyInsertions_eq (h : KeyChoice words pick candidates) (number : Nat) :
    keyInsertions pick candidates number =
      (keyWrites pick candidates number).map KeyWrite.splice := by
  rw [keyInsertions, keyWrites, List.map_filterMap]
  apply List.filterMap_congr
  intro c hc
  cases hkey : pick c with
  | none => rfl
  | some key =>
    have hfresh := h.fresh c (List.mem_of_mem_filter hc) key hkey
    rw [Option.bind_some, Splice.keyInsertion?, if_neg (by simp [hfresh]),
      TicketKey.keyText_default]
    rfl

theorem rewritten_append_left {c : Candidate} (h : ∀ d ∈ others, d.line ≠ c.line) :
    rewritten pick (candidates ++ others) c = rewritten pick candidates c := by
  rw [rewritten, rewritten, keyWrites, onLine_append_left h, ← keyWrites]

theorem rewritten_append_right {c : Candidate} (h : ∀ d ∈ candidates, d.line ≠ c.line) :
    rewritten pick (candidates ++ others) c = rewritten pick others c := by
  rw [rewritten, rewritten, keyWrites, onLine_append_right h, ← keyWrites]

/-- The candidates of different lines are rewritten apart. -/
theorem map_rewritten_append (h : ∀ c ∈ candidates, ∀ d ∈ others, c.line < d.line) :
    (candidates ++ others).map (rewritten pick (candidates ++ others)) =
      candidates.map (rewritten pick candidates) ++ others.map (rewritten pick others) := by
  rw [List.map_append]
  congr 1
  · exact List.map_congr_left fun c hc =>
      rewritten_append_left fun d hd => Nat.ne_of_gt (h c hc d hd)
  · exact List.map_congr_left fun c hc =>
      rewritten_append_right fun d hd => Nat.ne_of_lt (h d hd c hc)

theorem chosen_append (h : ∀ c ∈ candidates, ∀ d ∈ others, c.line < d.line) :
    chosen pick (candidates ++ others) = chosen pick candidates ++ chosen pick others := by
  rw [chosen, List.filter_append, List.map_append]
  congr 1
  · exact List.map_congr_left fun c hc =>
      rewritten_append_left fun d hd => Nat.ne_of_gt (h c (List.mem_filter.1 hc).1 d hd)
  · exact List.map_congr_left fun c hc =>
      rewritten_append_right fun d hd => Nat.ne_of_lt (h d hd c (List.mem_filter.1 hc).1)

theorem line_of_mem_chosen {c : Candidate} (hc : c ∈ chosen pick candidates) :
    ∃ d ∈ candidates, c.line = d.line := by
  obtain ⟨d, hd, rfl⟩ := List.mem_map.1 hc
  exact ⟨d, (List.mem_filter.1 hd).1, rfl⟩

end Candidate

namespace Scanner

open Candidate

variable {scanner : Scanner} {number : Nat} {line : Text} {spans : List Span}
  {pick : Candidate → Option TicketKey} {candidates : List Candidate}

/-- The chosen keys of a line come in the order of their columns. -/
theorem pairwise_keyWrites (hwords : Signal.Capital scanner.words)
    (hwithin : ∀ span ∈ spans, span.Within 0 line.length)
    (hpairwise : spans.Pairwise Span.Precedes)
    (hscan : scanner.scanLine number line spans = candidates)
    (hchoice : KeyChoice scanner.words pick candidates) :
    (keyWrites pick candidates number).Pairwise fun a b => a.column < b.column := by
  subst hscan
  rw [keyWrites, onLine_eq_self fun c hc => line_of_mem_scanLine hc, List.pairwise_filterMap]
  apply (pairwise_signalStop_lt hwords.ne_nil hwithin hpairwise).imp_of_mem
  intro c d hc hd hlt a ha b hb
  obtain ⟨key, hkey, rfl⟩ := Option.map_eq_some_iff.1 ha
  obtain ⟨other, hother, rfl⟩ := Option.map_eq_some_iff.1 hb
  exact hlt (hchoice.marker c hc key hkey) (hchoice.marker d hd other hother)

/-- A candidate of a line has no other key than the one that is chosen for it. -/
theorem keyAt?_keyWrites (hwords : Signal.Capital scanner.words)
    (hpatterns : scanner.patterns = [ticketPattern])
    (hwithin : ∀ span ∈ spans, span.Within 0 line.length)
    (hpairwise : spans.Pairwise Span.Precedes)
    (hscan : scanner.scanLine number line spans = candidates)
    (hchoice : KeyChoice scanner.words pick candidates) {c : Candidate} (hc : c ∈ candidates) :
    KeyWrite.keyAt? (keyWrites pick candidates number) c.signalStop = pick c := by
  have hsame : ∀ write ∈ keyWrites pick candidates number,
      write.column = c.signalStop → pick c = some write.key := by
    intro write hwrite hcolumn
    obtain ⟨d, hd, -, hkey, hstop⟩ := mem_keyWrites.1 hwrite
    have hmarker := hchoice.marker d hd write.key hkey
    subst hscan
    have heq := eq_of_signalStop_eq hwords hpatterns hwithin hpairwise hc hd hmarker
      (by rw [hstop, hcolumn])
    rw [heq, hkey]
  rw [KeyWrite.keyAt?]
  cases hfind : (keyWrites pick candidates number).find? (·.column == c.signalStop) with
  | some write =>
    have hcolumn := List.find?_some hfind
    rw [beq_iff_eq] at hcolumn
    rw [Option.map_some, hsame write (List.mem_of_find?_eq_some hfind) hcolumn]
  | none =>
    rw [Option.map_none]
    cases hkey : pick c with
    | none => rfl
    | some key =>
      have hline : c.line = number := line_of_mem_scanLine (hscan ▸ hc)
      have hmem : (⟨c.signalStop, key⟩ : KeyWrite) ∈ keyWrites pick candidates number :=
        mem_keyWrites.2 ⟨c, hc, hline, hkey, rfl⟩
      have := List.find?_eq_none.1 hfind _ hmem
      simp at this

/-- The keys of a line are stripped where they were written. -/
theorem keyRemovals_eq (hline : ∀ c ∈ candidates, c.line = number)
    (hletter : ∀ c ∈ candidates.map (rewritten pick candidates), c.signal.isSome →
      ∃ d, c.text[c.signalStop - 1]? = some d ∧ Text.isAsciiUpper d = true)
    (hmarker : ∀ c ∈ candidates, ∀ key ∈ pick c, c.signal.isSome) (limit : Candidate → Nat) :
    keyRemovals limit (chosen pick candidates) number =
      (keyWrites pick candidates number).map
        (KeyWrite.removal (keyWrites pick candidates number)) := by
  have hchosen : ∀ c ∈ chosen pick candidates, c.line = number := by
    intro c hc
    obtain ⟨d, hd, rfl⟩ := List.mem_map.1 hc
    exact hline d (List.mem_filter.1 hd).1
  rw [keyRemovals, onLine_eq_self hchosen, chosen, List.filterMap_map, List.filterMap_filter,
    map_keyWrites hline]
  apply List.filterMap_congr
  intro c hc
  cases hkey : pick c with
  | none => rfl
  | some key =>
    obtain ⟨d, hd, hupper⟩ := hletter _ (List.mem_map_of_mem hc) (hmarker c hc key hkey)
    have hgap : Splice.isGap d = false := by
      rw [Splice.isGap, Bool.or_eq_false_iff, beq_eq_false_iff_ne, beq_eq_false_iff_ne]
      constructor
      · rintro rfl
        revert hupper
        decide
      · rintro rfl
        revert hupper
        decide
    have hrewritten : rewritten pick candidates c =
        c.withKeys (keyWrites pick candidates number) (some key) := by
      rw [rewritten, hline c hc, hkey]
    rw [hrewritten] at hd
    have hremoval := Splice.columnRemoval_behind hd hgap
    rw [Option.isSome_some, if_pos rfl, Function.comp_apply, hrewritten]
    exact congrArg some (hremoval _ _)

/-- A scanner that reads keys by the default pattern, in comments whose delimiters no key behind a
signal word affects. -/
structure Steady (scanner : Scanner) (grammar : Grammar) : Prop where
  capital : Signal.Capital scanner.words
  words_ne_nil : scanner.words ≠ []
  patterns : scanner.patterns = [ticketPattern]
  ignores : ∀ w ∈ scanner.words, ∀ key : TicketKey, grammar.Ignores w key.written

variable {grammar : Grammar} {pending : Option Text}

theorem Steady.exists_ignores (h : scanner.Steady grammar) : ∃ w t, grammar.Ignores w t := by
  obtain ⟨w, hw⟩ := List.exists_mem_of_ne_nil _ h.words_ne_nil
  exact ⟨w, _, h.ignores w hw default⟩

theorem Steady.lineSpans_ordered (h : scanner.Steady grammar) (hpending : grammar.Awaits pending)
    (line : Text) :
    (∀ span ∈ (grammar.lineSpans pending line).1, span.Within 0 line.length) ∧
      (grammar.lineSpans pending line).1.Pairwise Span.Precedes := by
  obtain ⟨w, t, hg⟩ := h.exists_ignores
  exact Grammar.lineSpans_ordered hg.toProper hpending line

theorem Steady.awaits_lineSpans (h : scanner.Steady grammar) (hpending : grammar.Awaits pending)
    (line : Text) : grammar.Awaits (grammar.lineSpans pending line).2 := by
  obtain ⟨w, t, hg⟩ := h.exists_ignores
  exact Grammar.awaits_lineSpans hg.toProper hpending line

/-- A line in which the chosen keys are written, and stripped again. -/
theorem Steady.scanLine_chosen (h : scanner.Steady grammar) (hpending : grammar.Awaits pending)
    (hscan : scanner.scanLine number line (grammar.lineSpans pending line).1 = candidates)
    (hchoice : KeyChoice scanner.words pick candidates) :
    ∃ written, Splice.applyAll line (keyInsertions pick candidates number) = .ok written ∧
      (grammar.lineSpans pending written).2 = (grammar.lineSpans pending line).2 ∧
      scanner.scanLine number written (grammar.lineSpans pending written).1 =
        candidates.map (rewritten pick candidates) ∧
      (∀ c ∈ candidates, ∀ key ∈ pick c, (rewritten pick candidates c).HasWritten key) ∧
      ∀ limit, Splice.applyAll written (keyRemovals limit (chosen pick candidates) number) =
        .ok line := by
  obtain ⟨hwithin, hpairwise⟩ := h.lineSpans_ordered hpending line
  have hin : ∀ c ∈ candidates, c.Within 0 line.length ∧ c.text = line ∧ c.line = number :=
    fun c hc => within_of_mem_scanLine h.capital h.patterns hwithin (hscan ▸ hc)
  have hsorted := pairwise_keyWrites h.capital hwithin hpairwise hscan hchoice
  have hcolumn : ∀ write ∈ keyWrites pick candidates number, write.column ≤ line.length := by
    intro write hwrite
    obtain ⟨c, hc, -, -, hstop⟩ := mem_keyWrites.1 hwrite
    obtain ⟨hcin, -⟩ := hin c hc
    rw [← hstop]
    exact Nat.le_trans hcin.signalStop_le hcin.segmentStop_le
  have hmarks : ∀ write ∈ keyWrites pick candidates number, write.key.project ∉ scanner.words ∧
      ∃ c ∈ scanner.scanLine number line (grammar.lineSpans pending line).1, c.signal.isSome ∧
        (∀ found ∈ c.carried, found.form = .bare) ∧ write.column = c.signalStop := by
    intro write hwrite
    obtain ⟨c, hc, -, hkey, hstop⟩ := mem_keyWrites.1 hwrite
    exact ⟨hchoice.project c hc _ hkey, c, hscan ▸ hc, hchoice.marker c hc _ hkey,
      hchoice.unwritten c hc _ hkey, hstop.symm⟩
  obtain ⟨hspans, hline⟩ := scanLine_writes h.capital h.patterns h.ignores hpending hsorted hmarks
  have hrewritten : ∀ c ∈ candidates,
      c.withKeys (keyWrites pick candidates number)
        (KeyWrite.keyAt? (keyWrites pick candidates number) c.signalStop) =
          rewritten pick candidates c := by
    intro c hc
    have hkeyAt := keyAt?_keyWrites h.capital h.patterns hwithin hpairwise hscan hchoice hc
    rw [rewritten, (hin c hc).2.2, hkeyAt]
  have hfst := congrArg Prod.fst hspans
  dsimp only at hfst
  rw [hscan, List.map_congr_left hrewritten, ← hfst] at hline
  refine ⟨Splice.applyOrdered line ((keyWrites pick candidates number).map KeyWrite.splice), ?_,
    by rw [hspans], hline, ?_, ?_⟩
  · rw [hchoice.keyInsertions_eq]
    exact Splice.applyAll_of_ordered (KeyWrite.ordered_splices hsorted) line
  · intro c hc key hkey
    obtain ⟨-, htext, hnumber⟩ := hin c hc
    have hmem : (⟨c.signalStop, key⟩ : KeyWrite) ∈ keyWrites pick candidates number :=
      mem_keyWrites.2 ⟨c, hc, hnumber, hkey, rfl⟩
    have hslice := KeyWrite.slice_removal hsorted hcolumn hmem
    have hcarried : rewritten pick candidates c =
        c.withKeys (keyWrites pick candidates number) (some key) := by
      rw [rewritten, hnumber, Option.mem_def.1 hkey]
    rw [← htext] at hslice
    rw [hcarried]
    exact ⟨_, rfl, rfl, rfl, rfl, hslice⟩
  · intro limit
    have hnumber : ∀ c ∈ candidates, c.line = number := fun c hc => (hin c hc).2.2
    have hletter : ∀ c ∈ candidates.map (rewritten pick candidates), c.signal.isSome →
        ∃ d, c.text[c.signalStop - 1]? = some d ∧ Text.isAsciiUpper d = true := by
      intro c hc hsignal
      obtain ⟨hwithin', -⟩ := h.lineSpans_ordered hpending
        (Splice.applyOrdered line ((keyWrites pick candidates number).map KeyWrite.splice))
      rw [← hline] at hc
      exact exists_getElem?_signalStop h.capital hwithin' hc hsignal
    rw [keyRemovals_eq hnumber hletter hchoice.marker limit,
      Splice.applyAll_of_ordered (KeyWrite.ordered_removals hsorted),
      KeyWrite.applyOrdered_removals hsorted hcolumn]

variable {lines : List Text}

theorem scanFrom_cons (line : Text) (lines : List Text) :
    scanner.scanFrom number ((line :: lines).zip (grammar.spansFrom pending (line :: lines))) =
      scanner.scanLine number line (grammar.lineSpans pending line).1 ++
        scanner.scanFrom (number + 1)
          (lines.zip (grammar.spansFrom (grammar.lineSpans pending line).2 lines)) :=
  rfl

/-- Lines in which the chosen keys are written, and stripped again. -/
theorem Steady.scanFrom_chosen (h : scanner.Steady grammar) (hpending : grammar.Awaits pending)
    (hscan : scanner.scanFrom number (lines.zip (grammar.spansFrom pending lines)) = candidates)
    (hchoice : KeyChoice scanner.words pick candidates) :
    ∃ written,
      Splice.applyLines (keyInsertions pick candidates) number lines = .ok written ∧
      scanner.scanFrom number (written.zip (grammar.spansFrom pending written)) =
        candidates.map (rewritten pick candidates) ∧
      (∀ c ∈ candidates, ∀ key ∈ pick c, (rewritten pick candidates c).HasWritten key) ∧
      ∀ limit, Splice.applyLines (keyRemovals limit (chosen pick candidates)) number written =
        .ok lines := by
  induction lines generalizing number pending candidates with
  | nil =>
    subst hscan
    exact ⟨[], rfl, rfl, fun c hc => (List.not_mem_nil hc).elim, fun _ => rfl⟩
  | cons line lines ih =>
    rw [scanFrom_cons] at hscan
    obtain ⟨first, hfirst⟩ : ∃ first, scanner.scanLine number line
        (grammar.lineSpans pending line).1 = first := ⟨_, rfl⟩
    obtain ⟨rest, hrest⟩ : ∃ rest, scanner.scanFrom (number + 1)
        (lines.zip (grammar.spansFrom (grammar.lineSpans pending line).2 lines)) = rest := ⟨_, rfl⟩
    rw [hfirst, hrest] at hscan
    subst hscan
    have hnumber : ∀ c ∈ first, c.line = number := fun c hc => line_of_mem_scanLine (hfirst ▸ hc)
    have hlater : ∀ c ∈ rest, number + 1 ≤ c.line :=
      fun c hc => le_line_of_mem_scanFrom (hrest ▸ hc)
    have hapart : ∀ c ∈ first, ∀ d ∈ rest, c.line < d.line := by
      intro c hc d hd
      rw [hnumber c hc]
      exact hlater d hd
    obtain ⟨line', happly, hopen, hline, hwritten, hstrip⟩ :=
      h.scanLine_chosen hpending hfirst (hchoice.mono (List.subset_append_left _ _))
    obtain ⟨lines', happly', hlines, hwritten', hstrip'⟩ :=
      ih (h.awaits_lineSpans hpending line) hrest (hchoice.mono (List.subset_append_right _ _))
    refine ⟨line' :: lines', ?_, ?_, ?_, ?_⟩
    · apply Splice.applyLines_cons
      · rw [keyInsertions, onLine_append_left fun d hd => Nat.ne_of_gt (hlater d hd)]
        exact happly
      · rw [← happly']
        apply Splice.applyLines_congr
        intro n hn
        rw [keyInsertions, onLine_append_right fun c hc => hnumber c hc ▸ Nat.ne_of_lt hn]
        rfl
    · rw [scanFrom_cons, hline, hopen, hlines, map_rewritten_append hapart]
    · intro c hc key hkey
      rcases List.mem_append.1 hc with hc | hc
      · rw [rewritten_append_left fun d hd => Nat.ne_of_gt (hapart c hc d hd)]
        exact hwritten c hc key hkey
      · rw [rewritten_append_right fun d hd => Nat.ne_of_lt (hapart d hd c hc)]
        exact hwritten' c hc key hkey
    · intro limit
      have hfirstLine : ∀ c ∈ chosen pick first, c.line = number := by
        intro c hc
        obtain ⟨d, hd, heq⟩ := line_of_mem_chosen hc
        rw [heq, hnumber d hd]
      have hrestLine : ∀ c ∈ chosen pick rest, number < c.line := by
        intro c hc
        obtain ⟨d, hd, heq⟩ := line_of_mem_chosen hc
        rw [heq]
        exact hlater d hd
      rw [chosen_append hapart]
      apply Splice.applyLines_cons
      · rw [keyRemovals, onLine_append_left fun d hd => Nat.ne_of_gt (hrestLine d hd)]
        exact hstrip limit
      · rw [← hstrip' limit]
        apply Splice.applyLines_congr
        intro n hn
        rw [keyRemovals, onLine_append_right fun c hc => hfirstLine c hc ▸ Nat.ne_of_lt hn]
        rfl

theorem steady_default (hgrammar : grammar ∈ Grammar.registry) {patterns : List Pattern}
    (hpatterns : compilePatterns ({} : Settings).ticketPatterns = .ok patterns) (mentions : Bool) :
    (make ({} : Settings).signalWords patterns mentions).Steady grammar := by
  rw [compilePatterns_default, Except.ok.injEq] at hpatterns
  constructor
  · exact capital_default
  · intro hnil
    have hwords : Signal.prepare ({} : Settings).signalWords = [] := hnil
    rw [prepare_default] at hwords
    cases hwords
  · exact hpatterns.symm
  · exact fun w hw key => ignores_written hgrammar hw key

/-- Keys that are inserted behind markers are read back there, and all other candidates stay as
they are, with their columns moved. Stripping the keys gives the lines back. -/
theorem scan_inserted_keys (hgrammar : grammar ∈ Grammar.registry) {patterns : List Pattern}
    (hpatterns : compilePatterns ({} : Settings).ticketPatterns = .ok patterns) {mentions : Bool}
    (hscanner : make ({} : Settings).signalWords patterns mentions = scanner)
    (hscan : scanner.scan lines grammar = candidates)
    (hchoice : KeyChoice ({} : Settings).signalWords pick candidates) :
    ∃ written,
      Splice.applyLines (keyInsertions pick candidates) 1 lines = .ok written ∧
      scanner.scan written grammar = candidates.map (rewritten pick candidates) ∧
      (∀ c ∈ candidates, ∀ key ∈ pick c, (rewritten pick candidates c).HasWritten key) ∧
      (∀ c ∈ candidates, pick c = none →
        (rewritten pick candidates c).carried.map (fun found => (found.key, found.form)) =
          c.carried.map fun found => (found.key, found.form)) ∧
      ∀ limit, Splice.applyLines (keyRemovals limit (chosen pick candidates)) 1 written =
        .ok lines := by
  subst hscanner
  have hprepare : ∀ w ∈ Signal.prepare ({} : Settings).signalWords,
      w ∈ ({} : Settings).signalWords := by
    rw [prepare_default]
    decide
  have hprepared : KeyChoice (Signal.prepare ({} : Settings).signalWords) pick candidates :=
    { hchoice with
      project := fun c hc key hkey hw => hchoice.project c hc key hkey (hprepare _ hw) }
  obtain ⟨written, happly, hwritten, hkeys, hstrip⟩ :=
    (steady_default hgrammar hpatterns mentions).scanFrom_chosen
      (fun closer hcloser => by cases hcloser) hscan hprepared
  refine ⟨written, happly, hwritten, hkeys, ?_, hstrip⟩
  intro c _ hnone
  rw [rewritten, hnone]
  cases hcarried : c.carried with
  | none => simp only [withKeys, hcarried, Option.map_none]
  | some found => simp only [withKeys, hcarried, Option.map_some, CarriedKey.add]

/-- Two markers of one line, each with a key of its own. -/
theorem scan_inserted_keys_two_markers :
    ((make ({} : Settings).signalWords [ticketPattern] false).scan
        ["// TODO(AA-3) fix BUG(AA-12)".toList] (Grammar.registry.head (by decide))).map
        (fun c => (c.column, c.key)) =
      [(3, some "AA-3".toList), (18, some "AA-12".toList)] := by
  obtain ⟨candidates, hcandidates⟩ : ∃ candidates : List Candidate, candidates =
      [⟨1, 3, "// TODO fix BUG".toList, ⟨0, 15, 2, 15⟩, some "TODO".toList, 7, 12, none, [],
        "fix".toList⟩,
      ⟨1, 12, "// TODO fix BUG".toList, ⟨0, 15, 2, 15⟩, some "BUG".toList, 15, 15, none, [], []⟩] :=
    ⟨_, rfl⟩
  have hspans : (Grammar.registry.head (by decide)).spans ["// TODO fix BUG".toList] =
      [[⟨0, 15, 2, 15⟩]] := by
    decide +kernel
  have hspan : (make ({} : Settings).signalWords [ticketPattern] false).scanSpan 1
      "// TODO fix BUG".toList ⟨0, 15, 2, 15⟩ = candidates := by
    rw [make, prepare_default, hcandidates]
    decide +kernel
  have hscan : (make ({} : Settings).signalWords [ticketPattern] false).scan
      ["// TODO fix BUG".toList] (Grammar.registry.head (by decide)) = candidates := by
    rw [scan, hspans, List.zip_cons_cons, scanFrom, scanLine, List.flatMap_singleton, hspan,
      hcandidates]
    cbv
  have hchoice : KeyChoice ({} : Settings).signalWords
      (fun c => some { (default : TicketKey) with number := c.column }) candidates := by
    rw [hcandidates]
    decide +kernel
  obtain ⟨written, happly, hwritten, -⟩ := scan_inserted_keys (List.head_mem _)
    compilePatterns_default rfl hscan hchoice
  have hlines : written = ["// TODO(AA-3) fix BUG(AA-12)".toList] := by
    rw [hcandidates] at happly
    apply Except.ok.inj (happly.symm.trans _)
    cbv
  rw [← hlines, hwritten, hcandidates]
  cbv

end Scanner

end TodoTracker
