import TodoTracker.Proofs.Anchor.Code
import TodoTracker.Proofs.Marker.KeyPlace
import TodoTracker.Proofs.Marker.Turn

/-!
# Markers are found exactly

Where the signal words consist of word characters, the markers of a text are the places in its
comments where a signal word stands free, each found once. All candidates come by line and column,
mentions among them, and the text of a marker ends where the next one of its comment starts.
-/

set_option autoImplicit false

namespace TodoTracker

open Text (isAsciiWord)

namespace Signal

/-- A signal word that stands free in the body of a comment: in front of it is no word character,
and none behind it before the body ends. -/
structure StandsFree (words : List Text) (line : Text) (span : Span) (signal : Signal) : Prop where
  mem : signal.word ∈ words
  ne_nil : signal.word ≠ []
  stop_eq : signal.stop = signal.start + signal.word.length
  bodyStart_le : span.bodyStart ≤ signal.start
  le_bodyStop : signal.stop ≤ span.bodyStop
  word_eq : Text.slice line signal.start signal.stop = signal.word
  before : signal.start = 0 ∨ ∀ c ∈ (line)[signal.start - 1]?, isAsciiWord c = false
  behind : signal.stop = span.bodyStop ∨ ∀ c ∈ (line)[signal.stop]?, isAsciiWord c = false

theorem isEdge_iff {t : Option Char} : isEdge t = true ↔ ∀ c ∈ t, isAsciiWord c = false := by
  cases t <;> simp [isEdge]

theorem isEdge_take_iff {line : Text} {column : Nat} (h : column ≤ line.length) :
    isEdge (line.take column).getLast? = true ↔
      column = 0 ∨ ∀ c ∈ (line)[column - 1]?, isAsciiWord c = false := by
  rw [isEdge_iff, List.getLast?_eq_getElem?, List.length_take, Nat.min_eq_left h]
  cases column with
  | zero => simp
  | succ column => simp

variable {words : List Text} {line : Text} {span : Span} {signal : Signal}

/-- Whether a word stands free is read off the characters around it. -/
instance : Decidable (signal.StandsFree words line span) :=
  decidable_of_iff
    (words.contains signal.word = true ∧ signal.word ≠ [] ∧
      signal.stop = signal.start + signal.word.length ∧
      span.bodyStart ≤ signal.start ∧ signal.stop ≤ span.bodyStop ∧
      Text.slice line signal.start signal.stop = signal.word ∧
      (signal.start = 0 ∨ isEdge (line)[signal.start - 1]? = true) ∧
      (signal.stop = span.bodyStop ∨ isEdge (line)[signal.stop]? = true)) <| by
    simp only [isEdge_iff, List.contains_iff_mem]
    exact ⟨fun ⟨hmem, hne, hstop, hle, hle', hword, hbefore, hbehind⟩ =>
      ⟨hmem, hne, hstop, hle, hle', hword, hbefore, hbehind⟩, fun h =>
      ⟨h.mem, h.ne_nil, h.stop_eq, h.bodyStart_le, h.le_bodyStop, h.word_eq, h.before, h.behind⟩⟩

/-- The search through a body finds the signal words that stand free in it, and nothing else. -/
theorem mem_findAll_iff (hwords : Wordly words) (hin : span.Within 0 line.length) :
    signal ∈ findAll words line span.bodyStart span.bodyStop ↔
      signal.StandsFree words line span := by
  have hbodyStop := Nat.le_trans hin.bodyStop_le hin.stop_le
  have hwindow := Text.Window.of_le line hin.bodyStart_le hbodyStop
  rw [findAll_window hwindow]
  constructor
  · intro h
    obtain ⟨x, y, hbody, hstart, hstop, hw, hx, hy⟩ := exists_of_mem_findFrom h
    have hend := hwindow.stop_eq
    have hlen := congrArg List.length hbody
    simp only [List.length_append] at hlen
    rw [hbody] at hwindow
    have hpart := hwindow.part
    rw [← hstart, ← hstop] at hpart
    refine ⟨hw, (hwords _ hw).1, hstop, by omega, by omega, hpart.slice_eq, ?_, ?_⟩
    · rw [← isEdge_take_iff (by omega), hpart.before_eq]
      exact hx
    · cases y with
      | nil =>
        left
        rw [List.length_nil] at hlen
        omega
      | cons d y =>
        right
        have hcolumn : signal.stop = span.bodyStart + (x.length + signal.word.length) := by omega
        have hd := hwindow.getElem?_add (n := x.length + signal.word.length) (by simp)
        rw [hcolumn, hd, ← List.append_assoc,
          List.getElem?_append_right (by rw [List.length_append]), List.length_append, Nat.sub_self]
        exact isEdge_iff.1 hy
  · intro h
    have hstart := h.bodyStart_le
    have hstop := h.le_bodyStop
    have hword := h.stop_eq
    have hend := hwindow.stop_eq
    obtain ⟨s, hs⟩ := Nat.exists_eq_add_of_le hstart
    obtain ⟨e, he⟩ := Nat.exists_eq_add_of_le (Nat.le_trans hstart (by omega : _ ≤ signal.stop))
    generalize Text.slice line span.bodyStart span.bodyStop = body at *
    have hslice := hwindow.slice (s := s) (e := e) (by omega) (by omega)
    rw [← hs, ← he] at hslice
    have hbody := Text.take_slice_drop body (by omega : s ≤ e)
    rw [← hslice.slice_eq, h.word_eq] at hbody
    have hx : isEdge ((body.take s).getLast?.or (line.take span.bodyStart).getLast?) = true := by
      rw [← hslice.before_eq, isEdge_take_iff (by omega)]
      exact h.before
    have hy : isEdge (body.drop e).head? = true := by
      rw [List.head?_drop]
      by_cases hlt : e < body.length
      · rw [isEdge_iff, ← hwindow.getElem?_add hlt, ← he]
        exact h.behind.resolve_left (by omega)
      · rw [List.getElem?_eq_none (by omega)]
        rfl
    rw [← hbody, findFrom_around hwords _ hx h.mem hy, List.length_take, Nat.min_eq_left (by omega),
      ← hs, ← hword]
    exact List.mem_append_right _ List.mem_cons_self

theorem trim_of_isAsciiWord {w : Text} (h : ∀ c ∈ w, isAsciiWord c = true) : Text.trim w = w := by
  have hblank : ∀ c ∈ w, Text.isBlank c = false := by
    intro c hc
    refine Bool.eq_false_iff.2 fun hb => ?_
    have hword := h c hc
    rw [(Text.not_isAsciiWord_of_isBlank hb).1] at hword
    cases hword
  apply Text.trim_eq_self
  · cases hhead : w.head? with
    | none => rfl
    | some c => exact hblank c (List.mem_of_head? hhead)
  · cases hlast : w.getLast? with
    | none => rfl
    | some c => exact hblank c (List.mem_of_getLast? hlast)

/-- Words of word characters are searched for as they are, but for empty ones. -/
theorem mem_prepare_iff (hwords : ∀ w ∈ words, ∀ c ∈ w, isAsciiWord c = true) {w : Text} :
    w ∈ prepare words ↔ w ∈ words ∧ w ≠ [] := by
  have hmap : words.map Text.trim = words := by
    conv_rhs => rw [← List.map_id words]
    exact List.map_congr_left fun w hw => trim_of_isAsciiWord (hwords w hw)
  rw [prepare, List.mem_mergeSort, List.mem_eraseDups, hmap, List.mem_filter]
  simp

theorem wordly_prepare (hwords : ∀ w ∈ words, ∀ c ∈ w, isAsciiWord c = true) :
    Wordly (prepare words) := by
  intro w hw
  rw [mem_prepare_iff hwords] at hw
  exact ⟨hw.2, hwords w hw.1⟩

theorem standsFree_prepare (hwords : ∀ w ∈ words, ∀ c ∈ w, isAsciiWord c = true) :
    signal.StandsFree (prepare words) line span ↔ signal.StandsFree words line span := by
  constructor
  · intro h
    exact { h with mem := ((mem_prepare_iff hwords).1 h.mem).1 }
  · intro h
    exact { h with mem := (mem_prepare_iff hwords).2 ⟨h.mem, h.ne_nil⟩ }

end Signal

namespace FoundKey

theorem pairwise_insert {keys : List FoundKey} (h : keys.Pairwise fun a b => a.start ≠ b.start)
    (key : FoundKey) : (insert keys key).Pairwise fun a b => a.start ≠ b.start := by
  rw [insert]
  split
  · exact h
  · rename_i hnew
    simp only [Bool.or_eq_true, List.any_eq_true, beq_iff_eq, not_or, not_exists, not_and] at hnew
    refine List.pairwise_append.2 ⟨h, List.pairwise_singleton _ _, ?_⟩
    intro a ha b hb
    rw [List.mem_singleton] at hb
    subst hb
    exact hnew.2 a ha

/-- The keys of a window come by column, no two at one. -/
theorem pairwise_findAll (patterns : List Pattern) (line : Text) (start stop : Nat) :
    (findAll patterns line start stop).Pairwise fun a b => a.start < b.start := by
  have hne : ∀ all keys : List FoundKey, keys.Pairwise (fun a b => a.start ≠ b.start) →
      (all.foldl insert keys).Pairwise fun a b => a.start ≠ b.start := by
    intro all
    induction all with
    | nil => exact fun keys h => h
    | cons key all ih => exact fun keys h => ih _ (pairwise_insert h key)
  have hperm := (hne (patterns.flatMap fun pattern =>
    (pattern.findAll line start stop).map (ofMatch pattern line)) [] List.Pairwise.nil).perm
      (List.mergeSort_perm _ fun a b => a.start ≤ b.start).symm fun h => h.symm
  refine (hperm.and (pairwise_mergeSort_le FoundKey.start _)).imp ?_
  rintro a b ⟨hne, hle⟩
  exact Nat.lt_of_le_of_ne hle hne

end FoundKey

namespace Candidate

/-- Where the text of a marker may end: with its comment, or where a later marker of the comment
starts. -/
def Ends (found : List Candidate) (c : Candidate) : Set Nat :=
  fun column => column = c.span.bodyStop ∨ ∃ d ∈ found, d.signal.isSome ∧ d.line = c.line ∧
    d.span = c.span ∧ c.column < d.column ∧ column = d.column

/-- The signal word of a candidate with its line and comment; a mention has none. -/
def mark? (c : Candidate) : Option (Nat × Span × Signal) :=
  c.signal.map fun word => (c.line, c.span, ⟨c.column, c.signalStop, word⟩)

/-- Of two candidates the first is further up, or further left in the same line. -/
def Ahead (c d : Candidate) : Prop := c.line < d.line ∨ c.line = d.line ∧ c.column < d.column

/-- Of two markers of a line the text of the one at the left ends before the other one starts. -/
def InTurn (c d : Candidate) : Prop :=
  c.line = d.line → c.signal.isSome → d.signal.isSome →
    (c.column < d.column → c.segmentStop ≤ d.column) ∧
      (d.column < c.column → d.segmentStop ≤ c.column)

instance : Std.Symm InTurn :=
  ⟨fun _ _ h hline hd hc => (h hline.symm hc hd).symm⟩

theorem InTurn.of_ahead {c d : Candidate} (hahead : c.Ahead d)
    (hbefore : c.line = d.line → c.Before d) : c.InTurn d := by
  intro hline hc hd
  refine ⟨fun _ => hbefore hline hc hd, fun hgt => ?_⟩
  rw [Ahead] at hahead
  omega

theorem InTurn.self (c : Candidate) : c.InTurn c :=
  fun _ _ _ => ⟨fun h => absurd h (Nat.lt_irrefl _), fun h => absurd h (Nat.lt_irrefl _)⟩

theorem mark?_eq_some {c : Candidate} {number : Nat} {span : Span} {signal : Signal} :
    c.mark? = some (number, span, signal) ↔ c.line = number ∧ c.span = span ∧
      c.column = signal.start ∧ c.signalStop = signal.stop ∧ c.signal = some signal.word := by
  obtain ⟨start, stop, word⟩ := signal
  cases hsignal : c.signal <;> simp [mark?, hsignal]

end Candidate

namespace Scanner

variable {scanner : Scanner} {number : Nat} {line : Text} {span : Span} {c : Candidate}

theorem filterMap_mark?_ofSignalsTo (scanner : Scanner) (number : Nat) (line : Text) (span : Span)
    (stop : Nat) (signals : List Signal) :
    (scanner.ofSignalsTo number line span stop signals).filterMap Candidate.mark? =
      signals.map fun signal => (number, span, signal) := by
  induction signals with
  | nil => rfl
  | cons signal rest ih =>
    rw [ofSignalsTo, List.filterMap_cons_some (by rfl), ih, List.map_cons]
    rfl

/-- The marks of a comment are its signal words. -/
theorem filterMap_mark?_scanSpan (scanner : Scanner) (number : Nat) (line : Text) (span : Span) :
    (scanner.scanSpan number line span).filterMap Candidate.mark? =
      (Signal.findAll scanner.words line span.bodyStart span.bodyStop).map
        fun signal => (number, span, signal) := by
  obtain ⟨mentions, heq, hmention⟩ := exists_mentions scanner number line span
  have hnone : mentions.filterMap Candidate.mark? = [] := by
    rw [List.filterMap_eq_nil_iff]
    intro d hd
    rw [Candidate.mark?, hmention d hd, Option.map_none]
  rw [heq, List.filterMap_append, hnone, List.append_nil, filterMap_mark?_ofSignalsTo]

theorem mem_scanLine {spans : List Span} :
    c ∈ scanner.scanLine number line spans ↔
      ∃ span ∈ spans, c ∈ scanner.scanSpan number line span := by
  rw [scanLine, List.mem_mergeSort, List.mem_flatMap]

theorem mem_scanFrom {rows : List (Text × List Span)} {i : Nat} {spans : List Span}
    (hrow : rows[i]? = some (line, spans)) (hc : c ∈ scanner.scanLine (number + i) line spans) :
    c ∈ scanner.scanFrom number rows := by
  induction rows generalizing number i with
  | nil => cases hrow
  | cons row rows ih =>
    cases i with
    | zero =>
      cases hrow
      exact List.mem_append_left _ hc
    | succ i =>
      have hnumber : number + (i + 1) = number + 1 + i := by omega
      rw [hnumber] at hc
      exact List.mem_append_right _ (ih hrow hc)

/-- A candidate of a text is one of a comment of one of its lines. -/
theorem mem_scan_iff {lines : List Text} {grammar : Grammar} :
    c ∈ scanner.scan lines grammar ↔
      ∃ i line spans, lines[i]? = some line ∧ (grammar.spans lines)[i]? = some spans ∧
        ∃ span ∈ spans, c ∈ scanner.scanSpan (1 + i) line span := by
  constructor
  · intro hc
    obtain ⟨i, line, spans, hrow, hc⟩ := exists_of_mem_scanFrom hc
    rw [List.getElem?_zip_eq_some] at hrow
    exact ⟨i, line, spans, hrow.1, hrow.2, mem_scanLine.1 hc⟩
  · rintro ⟨i, line, spans, hline, hspans, hc⟩
    exact mem_scanFrom (List.getElem?_zip_eq_some.2 ⟨hline, hspans⟩) (mem_scanLine.2 hc)

/-- The comments of each line are in it and follow each other. -/
theorem ordered_of_spans {lines : List Text} {grammar : Grammar} (hg : grammar.Proper) {i : Nat}
    {spans : List Span} (hline : lines[i]? = some line)
    (hspans : (grammar.spans lines)[i]? = some spans) :
    (∀ span ∈ spans, span.Within 0 line.length) ∧ spans.Pairwise Span.Precedes := by
  obtain ⟨-, pending, hpending, rfl⟩ := getElem?_zip_spansFrom hg (by rintro closer ⟨⟩)
    (List.getElem?_zip_eq_some.2 ⟨hline, hspans⟩)
  exact Grammar.lineSpans_ordered hg hpending line

/-- The marks of a text are the signal words that stand free in its comments. -/
theorem mem_marks_iff (hwords : Signal.Wordly scanner.words) {lines : List Text}
    {grammar : Grammar} (hg : grammar.Proper) {signal : Signal} :
    (number, span, signal) ∈ (scanner.scan lines grammar).filterMap Candidate.mark? ↔
      ∃ i line spans, number = 1 + i ∧ lines[i]? = some line ∧
        (grammar.spans lines)[i]? = some spans ∧ span ∈ spans ∧
        signal.StandsFree scanner.words line span := by
  have hspan : ∀ {i line} {s : Span}, s.Within 0 line.length →
      ((number, span, signal) ∈ (scanner.scanSpan (1 + i) line s).filterMap Candidate.mark? ↔
        number = 1 + i ∧ span = s ∧ signal.StandsFree scanner.words line s) := by
    intro i line s hin
    rw [filterMap_mark?_scanSpan, ← Signal.mem_findAll_iff hwords hin]
    simp only [List.mem_map, Prod.mk.injEq]
    constructor
    · rintro ⟨found, hfound, rfl, rfl, rfl⟩
      exact ⟨rfl, rfl, hfound⟩
    · rintro ⟨rfl, rfl, hfound⟩
      exact ⟨signal, hfound, rfl, rfl, rfl⟩
  rw [List.mem_filterMap]
  constructor
  · rintro ⟨c, hc, hmark⟩
    obtain ⟨i, line, spans, hline, hspans, s, hs, hc⟩ := mem_scan_iff.1 hc
    obtain ⟨hnumber, rfl, hfree⟩ := (hspan ((ordered_of_spans hg hline hspans).1 s hs)).1
      (List.mem_filterMap.2 ⟨c, hc, hmark⟩)
    exact ⟨i, line, spans, hnumber, hline, hspans, hs, hfree⟩
  · rintro ⟨i, line, spans, hnumber, hline, hspans, hs, hfree⟩
    obtain ⟨c, hc, hmark⟩ := List.mem_filterMap.1
      ((hspan ((ordered_of_spans hg hline hspans).1 span hs)).2 ⟨hnumber, rfl, hfree⟩)
    exact ⟨c, mem_scan_iff.2 ⟨i, line, spans, hline, hspans, span, hs, hc⟩, hmark⟩

/-- The markers of a comment come by column. -/
theorem pairwise_column_ofSignalsTo {first stop : Nat} {signals : List Signal}
    (hordered : Signal.Ordered stop first signals) :
    (scanner.ofSignalsTo number line span stop signals).Pairwise
      fun c d => c.column < d.column := by
  induction signals generalizing first with
  | nil => exact List.Pairwise.nil
  | cons signal rest ih =>
    obtain ⟨-, hstop, hrest⟩ := hordered
    rw [ofSignalsTo]
    refine List.pairwise_cons.2 ⟨?_, ih hrest⟩
    intro d hd
    exact Nat.lt_of_lt_of_le hstop (within_of_mem_ofSignalsTo hrest hd).1.first_le

/-- No two candidates of a comment are at one column, and all are in its body. -/
theorem columns_of_scanSpan (hwords : ∀ w ∈ scanner.words, w ≠ [])
    (hpatterns : scanner.patterns = [ticketPattern]) (hin : span.Within 0 line.length) :
    (scanner.scanSpan number line span).Pairwise (fun c d => c.column ≠ d.column) ∧
      ∀ c ∈ scanner.scanSpan number line span,
        span.bodyStart ≤ c.column ∧ c.column < span.bodyStop := by
  have hstop : span.bodyStop ≤ line.length := Nat.le_trans hin.bodyStop_le hin.stop_le
  have hordered := Signal.ordered_findAll hwords line hin.bodyStart_le hstop
  obtain ⟨hhead, hhead'⟩ := hordered.head_le
  have hmention : ∀ found ∈ FoundKey.findAll [ticketPattern] line span.bodyStart
      (((Signal.findAll scanner.words line span.bodyStart span.bodyStop).head?.map
        Signal.start).getD span.bodyStop),
      span.bodyStart ≤ found.start ∧ found.start <
        ((Signal.findAll scanner.words line span.bodyStart span.bodyStop).head?.map
          Signal.start).getD span.bodyStop := by
    intro found hfound
    have := FoundKey.lt_of_mem_findAll hhead (by omega) hfound
    omega
  rw [scanSpan, ofSignals_eq, hpatterns]
  refine ⟨List.pairwise_append.2 ⟨(pairwise_column_ofSignalsTo hordered).imp Nat.ne_of_lt, ?_, ?_⟩,
    ?_⟩
  · split
    · rw [List.pairwise_map]
      exact (FoundKey.pairwise_findAll _ _ _ _).imp Nat.ne_of_lt
    · exact List.Pairwise.nil
  · intro c hc d hd
    have hfirst := (within_of_mem_ofSignalsTo hordered.from_head hc).1.first_le
    split at hd
    · obtain ⟨found, hfound, rfl⟩ := List.mem_map.1 hd
      have hlt : found.start < _ := (hmention found hfound).2
      exact Nat.ne_of_gt (Nat.lt_of_lt_of_le hlt hfirst)
    · cases hd
  · intro c hc
    rcases List.mem_append.1 hc with hc | hc
    · obtain ⟨hcin, hlt, -⟩ := within_of_mem_ofSignalsTo hordered hc
      have := hcin.first_le
      have := hcin.signalStop_le
      have := hcin.segmentStop_le
      omega
    · split at hc
      · obtain ⟨found, hfound, rfl⟩ := List.mem_map.1 hc
        obtain ⟨hfirst, hlt⟩ := hmention found hfound
        exact ⟨hfirst, Nat.lt_of_lt_of_le hlt hhead'⟩
      · cases hc

/-- The candidates of a line come by column, no two at one. -/
theorem pairwise_column_lt (hwords : ∀ w ∈ scanner.words, w ≠ [])
    (hpatterns : scanner.patterns = [ticketPattern]) {spans : List Span}
    (hwithin : ∀ span ∈ spans, span.Within 0 line.length)
    (hpairwise : spans.Pairwise Span.Precedes) :
    (scanner.scanLine number line spans).Pairwise fun c d => c.column < d.column := by
  have hne : (spans.flatMap (scanner.scanSpan number line)).Pairwise
      fun c d => c.column ≠ d.column := by
    refine List.pairwise_flatMap.2
      ⟨fun span hspan => (columns_of_scanSpan hwords hpatterns (hwithin span hspan)).1, ?_⟩
    apply List.Pairwise.imp_of_mem _ hpairwise
    intro s t hs ht hprecedes c hc d hd
    have := ((columns_of_scanSpan hwords hpatterns (hwithin s hs)).2 c hc).2
    have := ((columns_of_scanSpan hwords hpatterns (hwithin t ht)).2 d hd).1
    have := (hwithin t ht).start_le
    have := hprecedes.1
    omega
  have hsorted : (scanner.scanLine number line spans).Pairwise fun c d => c.column ≠ d.column := by
    rw [scanLine]
    exact hne.perm (List.mergeSort_perm _ _).symm fun h => h.symm
  refine (hsorted.and (pairwise_column_le scanner number line spans)).imp ?_
  rintro c d ⟨hne, hle⟩
  exact Nat.lt_of_le_of_ne hle hne

theorem pairwise_ahead_scanFrom {grammar : Grammar} (hg : grammar.Proper)
    (hwords : ∀ w ∈ scanner.words, w ≠ []) (hpatterns : scanner.patterns = [ticketPattern])
    {lines : List Text} {pending : Option Text} (hpending : grammar.Awaits pending) :
    (scanner.scanFrom number (lines.zip (grammar.spansFrom pending lines))).Pairwise
      Candidate.Ahead := by
  induction lines generalizing pending number with
  | nil => exact List.Pairwise.nil
  | cons line lines ih =>
    obtain ⟨hwithin, hpairwise⟩ := Grammar.lineSpans_ordered hg hpending line
    rw [Grammar.spansFrom]
    change (scanner.scanLine number line _ ++ scanner.scanFrom (number + 1) _).Pairwise _
    refine List.pairwise_append.2 ⟨?_, ih (Grammar.awaits_lineSpans hg hpending line), ?_⟩
    · apply List.Pairwise.imp_of_mem _ (pairwise_column_lt hwords hpatterns hwithin hpairwise)
      intro c d hc hd hlt
      exact .inr ⟨(line_of_mem_scanLine hc).trans (line_of_mem_scanLine hd).symm, hlt⟩
    · intro c hc d hd
      have := line_of_mem_scanLine hc
      have := le_line_of_mem_scanFrom hd
      left
      omega

/-- The candidates of a text come strictly by line and column. -/
theorem pairwise_ahead_scan {grammar : Grammar} (hg : grammar.Proper)
    (hwords : ∀ w ∈ scanner.words, w ≠ []) (hpatterns : scanner.patterns = [ticketPattern])
    (lines : List Text) : (scanner.scan lines grammar).Pairwise Candidate.Ahead :=
  pairwise_ahead_scanFrom hg hwords hpatterns (by rintro closer ⟨⟩)

/-- No marker of a text is found twice. -/
theorem nodup_marks {found : List Candidate} (h : found.Pairwise Candidate.Ahead) :
    (found.filterMap Candidate.mark?).Nodup := by
  refine List.Pairwise.filterMap _ ?_ h
  rintro c d hahead ⟨number, span, signal⟩ hc _ hd rfl
  obtain ⟨hline, -, hcolumn, -⟩ := Candidate.mark?_eq_some.1 hc
  obtain ⟨hline', -, hcolumn', -⟩ := Candidate.mark?_eq_some.1 hd
  rw [Candidate.Ahead] at hahead
  omega

/-- Any two markers of a text, in either order, are in turn. -/
theorem inTurn_of_mem_scan (hwords : ∀ w ∈ scanner.words, w ≠ [])
    (hpatterns : scanner.patterns = [ticketPattern]) {grammar : Grammar} (hg : grammar.Proper)
    {lines : List Text} {d : Candidate} (hc : c ∈ scanner.scan lines grammar)
    (hd : d ∈ scanner.scan lines grammar) : c.InTurn d := by
  have hpairwise : (scanner.scan lines grammar).Pairwise Candidate.InTurn :=
    ((pairwise_ahead_scan hg hwords hpatterns lines).and (pairwise_before_scan hg hwords)).imp
      fun h => .of_ahead h.1 h.2
  exact hpairwise.forall_of_forall (fun a _ => .self a) hc hd

/-- The text of a marker ends where the next marker of its comment starts, or with the comment. -/
theorem isLeast_segmentStop (hwords : ∀ w ∈ scanner.words, w ≠ [])
    (hpatterns : scanner.patterns = [ticketPattern]) {grammar : Grammar} (hg : grammar.Proper)
    {lines : List Text} (hc : c ∈ scanner.scan lines grammar) (hsignal : c.signal.isSome) :
    IsLeast (c.Ends (scanner.scan lines grammar)) c.segmentStop := by
  obtain ⟨i, line, spans, hline, hspans, span, hspan, hmem⟩ := mem_scan_iff.1 hc
  have hin := (ordered_of_spans hg hline hspans).1 span hspan
  obtain ⟨hwithin, hcolumn, -⟩ := within_of_marker hwords hin hmem hsignal
  obtain ⟨hnumber, hcspan⟩ : c.line = 1 + i ∧ c.span = span := by
    obtain ⟨signal, -, last, rfl⟩ := exists_signal hmem hsignal
    exact ⟨rfl, rfl⟩
  constructor
  · rcases segmentStop_of_mem_scanSpan hmem with hlast | ⟨signal, hfound, hlast⟩
    · left
      rw [hlast, hcspan]
    · right
      have hmark : (1 + i, span, signal) ∈
          (scanner.scanSpan (1 + i) line span).filterMap Candidate.mark? := by
        rw [filterMap_mark?_scanSpan]
        exact List.mem_map_of_mem hfound
      obtain ⟨d, hd, hmark⟩ := List.mem_filterMap.1 hmark
      obtain ⟨hdline, hdspan, hdcolumn, -, hdsignal⟩ := Candidate.mark?_eq_some.1 hmark
      have := hwithin.signalStop_le
      exact ⟨d, mem_scan_iff.2 ⟨i, line, spans, hline, hspans, span, hspan, hd⟩,
        by rw [hdsignal]; rfl, hdline.trans hnumber.symm, hdspan.trans hcspan.symm, by omega,
        hlast.trans hdcolumn.symm⟩
  · rintro column (rfl | ⟨d, hd, hdsignal, hdline, -, hlt, rfl⟩)
    · rw [hcspan]
      exact hwithin.segmentStop_le
    · exact (inTurn_of_mem_scan hwords hpatterns hg hc hd hdline.symm hsignal hdsignal).1 hlt

/-- For signal words of word characters and the default ticket pattern, the markers that are found
are the signal words that stand free in the comments, each once; the candidates come strictly by
line and column; and the texts of the markers of a line are apart, each up to the next signal word
of its comment or to the end of the body. -/
theorem scan_finds_markers {words : List Text}
    (hwords : ∀ w ∈ words, ∀ c ∈ w, isAsciiWord c = true) {patterns : List Pattern}
    (hpatterns : compilePatterns ({} : Settings).ticketPatterns = .ok patterns)
    {grammar : Grammar} (hg : grammar.Proper) (mentions : Bool) (lines : List Text) :
    let found := (Scanner.make words patterns mentions).scan lines grammar
    ((found.filterMap Candidate.mark?).Nodup ∧
      ∀ number span signal, (number, span, signal) ∈ found.filterMap Candidate.mark? ↔
        ∃ i line spans, number = 1 + i ∧ lines[i]? = some line ∧
          (grammar.spans lines)[i]? = some spans ∧ span ∈ spans ∧
          signal.StandsFree words line span) ∧
    found.Pairwise Candidate.Ahead ∧
    (found.Pairwise fun c d => c.signal.isSome → d.signal.isSome → c.line = d.line →
      Disjoint (Set.Ico c.signalStop c.segmentStop) (Set.Ico d.signalStop d.segmentStop)) ∧
    ∀ c ∈ found, c.signal.isSome → lines[c.line - 1]? = some c.text ∧
      c.signalStop ≤ c.segmentStop ∧ IsLeast (c.Ends found) c.segmentStop := by
  rw [compilePatterns_default] at hpatterns
  cases hpatterns
  have hwordly : Signal.Wordly (Scanner.make words [ticketPattern] mentions).words :=
    Signal.wordly_prepare hwords
  have hne : ∀ w ∈ (Scanner.make words [ticketPattern] mentions).words, w ≠ [] :=
    fun w hw => (hwordly w hw).1
  have hsolid : Signal.Solid (Scanner.make words [ticketPattern] mentions).words :=
    Signal.solid_prepare words
  have hahead := pairwise_ahead_scan hg hne (rfl : (Scanner.make words [ticketPattern]
    mentions).patterns = [ticketPattern]) lines
  dsimp only
  refine ⟨⟨nodup_marks hahead, ?_⟩, hahead, ?_, ?_⟩
  · intro number span signal
    rw [mem_marks_iff hwordly hg]
    simp only [make, Signal.standsFree_prepare hwords]
  · refine (pairwise_before_scan hg hne).imp_of_mem ?_
    intro c d hc hd hbefore hcsignal hdsignal hline
    have hstop := hbefore hline hcsignal hdsignal
    have hcolumn := (marker_of_mem_scan hsolid hd hdsignal).1.column_lt
    rw [Set.Ico_disjoint_Ico]
    omega
  · intro c hc hsignal
    obtain ⟨hmarker, hline⟩ := marker_of_mem_scan hsolid hc hsignal
    exact ⟨hline, hmarker.signalStop_le, isLeast_segmentStop hne rfl hg hc hsignal⟩

/-- A word and a front part of it in a line with two comments. -/
theorem scan_finds_markers_prefix_words :
    let words := ["TO", "TODO", ""].map String.toList
    let c := Grammar.row "c" "c" ["//"] [("/*", "*/")]
    let line := "x /* TODO: a TO*/ y // PROJ-1 TODO c".toList
    let found := (Scanner.make words [ticketPattern] true).scan [line] c
    (∀ w ∈ words, ∀ c ∈ w, isAsciiWord c = true) ∧ c.Proper ∧
      found.Pairwise Candidate.Ahead ∧
      (1, ⟨2, 17, 4, 15⟩, ⟨5, 9, "TODO".toList⟩) ∈ found.filterMap Candidate.mark? ∧
      (1, ⟨2, 17, 4, 15⟩, ⟨13, 15, "TO".toList⟩) ∈ found.filterMap Candidate.mark? ∧
      (1, ⟨20, 36, 22, 36⟩, ⟨30, 34, "TODO".toList⟩) ∈ found.filterMap Candidate.mark? ∧
      (1, ⟨2, 17, 4, 15⟩, ⟨5, 7, "TO".toList⟩) ∉ found.filterMap Candidate.mark? := by
  intro words c line found
  have hwords : ∀ w ∈ words, ∀ c ∈ w, isAsciiWord c = true := by
    have hall : words.all (·.all isAsciiWord) = true := by decide +kernel
    exact fun w hw => List.all_eq_true.1 (List.all_eq_true.1 hall w hw)
  have hc : c.Proper := ⟨by decide +kernel, by decide +kernel⟩
  have hspans : c.spans [line] = [[⟨2, 17, 4, 15⟩, ⟨20, 36, 22, 36⟩]] := by decide +kernel
  obtain ⟨⟨-, hmarks⟩, hahead, -⟩ :=
    scan_finds_markers hwords compilePatterns_default hc true [line]
  refine ⟨hwords, hc, hahead, ?_, ?_, ?_, ?_⟩
  · refine (hmarks 1 _ _).2 ⟨0, line, _, rfl, rfl, by rw [hspans]; rfl, by simp, ?_⟩
    decide +kernel
  · refine (hmarks 1 _ _).2 ⟨0, line, _, rfl, rfl, by rw [hspans]; rfl, by simp, ?_⟩
    decide +kernel
  · refine (hmarks 1 _ _).2 ⟨0, line, _, rfl, rfl, by rw [hspans]; rfl, by simp, ?_⟩
    decide +kernel
  · intro h
    obtain ⟨i, line', -, hi, hline, -, -, hfree⟩ := (hmarks 1 _ _).1 h
    obtain rfl : i = 0 := by omega
    cases hline
    exact absurd hfree (by decide +kernel)

end Scanner

end TodoTracker
