import TodoTracker.Anchor.Locate
import TodoTracker.Proofs.Comment.Automaton
import TodoTracker.Proofs.Marker.Delimiter
import TodoTracker.Proofs.Marker.Order

/-!
# Where a reported key stands

A key that is written as an attribute or in parentheses is cut off from its line on both sides. A
bare key has no word character in front of it, but a hyphen may be there, and the next signal word
may follow at once when the key ends in a digit of another script.
-/

set_option autoImplicit false

namespace TodoTracker

namespace KeyToken

/-- Whether the key is a token at a column of a line. -/
def isTokenAt (line key : Text) (column : Nat) : Bool :=
  startsWith (line.take column).getLast? (line.drop column) key

theorem occursFrom_iff (key : Text) (before : Option Char) (t : Text) :
    occursFrom key before t = true ↔
      ∃ column, startsWith ((t.take column).getLast?.or before) (t.drop column) key = true := by
  induction t generalizing before with
  | nil => simp [occursFrom]
  | cons c t ih =>
    rw [occursFrom, Bool.or_eq_true, ih]
    constructor
    · rintro (h | ⟨column, h⟩)
      · exact ⟨0, h⟩
      · refine ⟨column + 1, ?_⟩
        rw [List.take_succ_cons, List.drop_succ_cons, ← Signal.getLast?_cons_or]
        exact h
    · rintro ⟨column, h⟩
      cases column with
      | zero => exact .inl h
      | succ column =>
        rw [List.take_succ_cons, List.drop_succ_cons, ← Signal.getLast?_cons_or] at h
        exact .inr ⟨column, h⟩

theorem occursIn_iff (line key : Text) :
    occursIn line key = true ↔ ∃ column, isTokenAt line key column = true := by
  rw [occursIn, occursFrom_iff]
  simp [isTokenAt]

/-- What stands in a line is a token if its two neighbours allow it. -/
theorem isTokenAt_slice {start stop : Nat} (hle : start ≤ stop) (line : Text) :
    isTokenAt line (Text.slice line start stop) start =
      (isFreeBefore (line.take start).getLast? && !(line)[stop]?.any Text.isAsciiWord) := by
  rw [isTokenAt, startsWith, ← Text.slice_append_drop line hle, List.drop_left, isFreeAfter,
    List.head?_drop, List.isPrefixOf_iff_prefix.2 (List.prefix_append _ _), Bool.and_true]

end KeyToken

namespace Text

variable {p : Char → Bool} {c : Char} {t rest : Text}

theorem exists_cons_of_dropWhile (h : t.dropWhile p = c :: rest) :
    ∃ a y, t = a :: y ∧ (a = c ∨ p a = true) := by
  cases t with
  | nil => cases h
  | cons a y =>
    refine ⟨a, y, rfl, ?_⟩
    by_cases ha : p a = true
    · exact .inr ha
    · rw [List.dropWhile_cons_of_neg ha] at h
      cases h
      exact .inl rfl

theorem exists_snoc_of_dropWhile (p : Char → Bool) (c : Char) (rest : Text) :
    ∃ u b, c :: rest = u ++ b :: rest.dropWhile p ∧ (b = c ∨ p b = true) := by
  induction rest generalizing c with
  | nil => exact ⟨[], c, rfl, .inl rfl⟩
  | cons d rest ih =>
    by_cases hd : p d = true
    · obtain ⟨u, b, heq, hb⟩ := ih d
      rw [List.dropWhile_cons_of_pos hd]
      refine ⟨c :: u, b, by rw [heq, List.cons_append], .inr ?_⟩
      rcases hb with rfl | hb
      · exact hd
      · exact hb
    · exact ⟨[], c, by rw [List.dropWhile_cons_of_neg hd, List.nil_append], .inl rfl⟩

theorem not_isAsciiWord_of_isBlank (h : isBlank c = true) : isAsciiWord c = false ∧ c ≠ '-' := by
  constructor
  · have hne : c ≠ '_' := by
      rintro rfl
      revert h
      decide
    simp only [isBlank, Bool.or_eq_true, Bool.and_eq_true, decide_eq_true_eq, beq_iff_eq] at h
    simp only [isAsciiWord, isAsciiUpper, isAsciiLower, isAsciiDigit, Bool.or_eq_false_iff,
      Bool.and_eq_false_iff, decide_eq_false_iff_not, beq_eq_false_iff_ne]
    refine ⟨⟨⟨?_, ?_⟩, ?_⟩, hne⟩ <;> omega
  · rintro rfl
    revert h
    decide

/-- A part of a window with the characters at its two sides. -/
theorem Window.between {line x body y : Text} {start stop : Nat} {before : Option Char} {a b : Char}
    (h : Window line start stop before (x ++ b :: (body ++ a :: y))) :
    (line.take (start + x.length + 1)).getLast? = some b ∧
      Text.slice line (start + x.length + 1) (start + x.length + 1 + body.length) = body ∧
      (line)[start + x.length + 1 + body.length]? = some a ∧
      start + x.length + 1 + body.length < stop := by
  have hstop := h.stop_eq
  have hsplit : x ++ b :: (body ++ a :: y) = (x ++ [b]) ++ (body ++ a :: y) := by simp
  have hlen : start + (x ++ [b]).length = start + x.length + 1 := by
    rw [List.length_append, List.length_singleton]
    omega
  rw [hsplit] at h
  have hpart := h.part
  rw [hlen] at hpart
  refine ⟨?_, hpart.slice_eq, ?_, ?_⟩
  · rw [hpart.before_eq]
    simp
  · obtain ⟨left, right, rfl, rfl, -, -⟩ := h
    have hline : left ++ (x ++ [b] ++ (body ++ a :: y) ++ right) =
        (left ++ x ++ [b] ++ body) ++ a :: (y ++ right) := by simp
    have hcolumn : left.length + x.length + 1 + body.length =
        (left ++ x ++ [b] ++ body).length := by
      simp only [List.length_append, List.length_singleton]
    rw [hline, hcolumn, List.getElem?_append_right (Nat.le_refl _), Nat.sub_self]
    rfl
  · simp only [List.length_append, List.length_cons] at hstop
    omega

end Text

namespace TicketAttribute

theorem skipWord?_suffix {word t after : Text} (h : skipWord? word t = some after) :
    after <:+ t := by
  induction word generalizing t with
  | nil =>
    cases h
    exact List.suffix_refl _
  | cons c word ih =>
    cases t with
    | nil => cases h
    | cons d t =>
      rw [skipWord?] at h
      split at h
      · exact (ih h).trans (List.suffix_cons d t)
      · cases h

theorem of_read? {pos : Nat} {t : Text} {ticket : TicketAttribute} (h : read? pos t = some ticket) :
    ∃ x b a y, t = x ++ b :: (ticket.key ++ a :: y) ∧ ticket.keyStart = pos + 1 + x.length + 1 ∧
      ticket.keyStop = ticket.keyStart + ticket.key.length ∧
      (b = '=' ∨ Text.isBlank b = true) ∧ (a = ']' ∨ Text.isBlank a = true) := by
  rw [read?] at h
  obtain ⟨afterWord, hword, h⟩ := Option.bind_eq_some_iff.1 h
  dsimp only at h
  split at h
  · rename_i rest hrest
    split at h
    · cases h
    · split at h
      · rename_i after htail
        cases h
        dsimp only
        obtain ⟨u, b, hu, hb⟩ := Text.exists_snoc_of_dropWhile Text.isBlank '=' rest
        generalize hvalue : rest.dropWhile Text.isBlank = value at htail hu ⊢
        obtain ⟨a, y, ha, hblank⟩ := Text.exists_cons_of_dropWhile htail
        have hsplit : value = value.takeWhile isKeyChar ++ a :: y := by
          rw [← ha]
          exact (List.prefix_iff_eq_append.1 (List.takeWhile_prefix isKeyChar)).symm
        have hsuffix : '=' :: rest <:+ t :=
          hrest ▸ (List.dropWhile_suffix _).trans
            ((skipWord?_suffix hword).trans (List.dropWhile_suffix _))
        obtain ⟨front, hfront⟩ := hsuffix
        have ht : t = (front ++ u) ++ b :: value := by
          rw [← hfront, hu, List.append_assoc]
        refine ⟨front ++ u, b, a, y, by rw [← hsplit]; exact ht, ?_, rfl, hb, hblank⟩
        rw [ht]
        simp only [List.length_append, List.length_cons]
        omega
      · cases h
  · cases h

/-- The key of an attribute stands between its equals sign and its bracket. -/
theorem of_findFrom {pos : Nat} {t : Text} {ticket : TicketAttribute}
    (h : findFrom pos t = some ticket) :
    ∃ x b a y, t = x ++ b :: (ticket.key ++ a :: y) ∧ ticket.keyStart = pos + x.length + 1 ∧
      ticket.keyStop = ticket.keyStart + ticket.key.length ∧
      (b = '=' ∨ Text.isBlank b = true) ∧ (a = ']' ∨ Text.isBlank a = true) := by
  induction t generalizing pos with
  | nil => cases h
  | cons c t ih =>
    have hlater : findFrom (pos + 1) t = some ticket →
        ∃ x b a y, c :: t = x ++ b :: (ticket.key ++ a :: y) ∧
          ticket.keyStart = pos + x.length + 1 ∧
          ticket.keyStop = ticket.keyStart + ticket.key.length ∧
          (b = '=' ∨ Text.isBlank b = true) ∧ (a = ']' ∨ Text.isBlank a = true) := by
      intro h
      obtain ⟨x, b, a, y, rfl, hstart, hstop, hb, ha⟩ := ih h
      refine ⟨c :: x, b, a, y, rfl, ?_, hstop, hb, ha⟩
      rw [hstart, List.length_cons]
      omega
    rw [findFrom] at h
    split at h
    · cases hread : read? pos t with
      | none =>
        rw [hread] at h
        exact hlater h
      | some found =>
        rw [hread] at h
        cases h
        obtain ⟨x, b, a, y, rfl, hstart, hstop, hb, ha⟩ := of_read? hread
        refine ⟨c :: x, b, a, y, rfl, ?_, hstop, hb, ha⟩
        rw [hstart, List.length_cons]
        omega
    · exact hlater h

end TicketAttribute

/-- A word in parentheses stands between these or blanks. -/
theorem Parenthesis.of_read? {t : Text} {paren : Parenthesis} (h : read? t = some paren) :
    ∃ x b word a y, t = x ++ b :: (word ++ a :: y) ∧ paren.wordStart = x.length + 1 ∧
      paren.wordStop = paren.wordStart + word.length ∧
      (b = '(' ∨ Text.isBlank b = true) ∧ (a = ')' ∨ Text.isBlank a = true) := by
  rw [read?] at h
  split at h
  · rename_i rest hopen
    dsimp only at h
    split at h
    · rename_i after hclose
      split at h
      · cases h
      · cases h
        dsimp only
        obtain ⟨u, b, hu, hb⟩ := Text.exists_snoc_of_dropWhile Text.isBlank '(' rest
        generalize hcontent : rest.dropWhile Text.isBlank = content at hclose hu ⊢
        obtain ⟨a, y, ha, hblank⟩ := Text.exists_cons_of_dropWhile hclose
        have hsplit : content = content.takeWhile isInner ++ a :: y := by
          rw [← ha]
          exact (List.prefix_iff_eq_append.1 (List.takeWhile_prefix isInner)).symm
        obtain ⟨front, hfront⟩ : '(' :: rest <:+ t := hopen ▸ List.dropWhile_suffix _
        have ht : t = (front ++ u) ++ b :: content := by
          rw [← hfront, hu, List.append_assoc]
        refine ⟨front ++ u, b, _, a, y, by rw [← hsplit]; exact ht, ?_, rfl, hb, hblank⟩
        rw [ht]
        simp only [List.length_append, List.length_cons]
        omega
    · cases h
  · cases h

namespace Pattern

/-- No word character stands at either side of a key. -/
theorem keyLength?_edges {before : Option Char} {rest : Text} {n : Nat}
    (h : keyLength? before rest = some n) :
    before.any Text.isWord = false ∧ rest[n]?.any Text.isWord = false := by
  rw [keyLength?.eq_def] at h
  split at h
  · cases h
  · rename_i hbefore
    refine ⟨by simpa using hbefore, ?_⟩
    split at h
    · rename_i c tail
      dsimp only at h
      split at h
      · cases h
      · split at h
        · rename_i number hnumber
          split at h
          · cases h
          · rename_i hafter
            cases h
            rw [Bool.or_eq_true, not_or, Bool.not_eq_true, Bool.not_eq_true] at hafter
            have hdrop : (number.drop (number.takeWhile digitSet.contains).length).head? =
                (c :: tail)[(tail.takeWhile keySet.contains).length +
                  (number.takeWhile digitSet.contains).length + 2]? := by
              have hcount : (tail.takeWhile keySet.contains).length +
                  (number.takeWhile digitSet.contains).length + 2 =
                    (tail.takeWhile keySet.contains).length +
                      ((number.takeWhile digitSet.contains).length + 1) + 1 := by omega
              rw [hcount, List.getElem?_cons_succ, ← List.getElem?_drop, hnumber,
                List.getElem?_cons_succ, List.head?_drop]
            rw [← hdrop]
            exact hafter.2
        · cases h
    · cases h

/-- Where a key is found: at the end of a front part of the text. -/
theorem exists_of_mem_keysFrom {pos skip : Nat} {before : Option Char} {rest : Text}
    {key : Nat × Nat} (h : key ∈ keysFrom pos skip before rest) :
    ∃ x y, rest = x ++ y ∧ key.1 = pos + x.length ∧
      keyLength? (x.getLast?.or before) y = some key.2 := by
  induction rest generalizing pos skip before with
  | nil => cases h
  | cons c rest ih =>
    have hstep : ∀ {skip : Nat}, key ∈ keysFrom (pos + 1) skip (some c) rest →
        ∃ x y, c :: rest = x ++ y ∧ key.1 = pos + x.length ∧
          keyLength? (x.getLast?.or before) y = some key.2 := by
      intro skip hmem
      obtain ⟨x, y, rfl, hstart, hkey⟩ := ih hmem
      rw [Signal.getLast?_cons_or c x before] at hkey
      refine ⟨c :: x, y, rfl, ?_, hkey⟩
      rw [hstart, List.length_cons]
      omega
    cases skip with
    | succ skip => exact hstep h
    | zero =>
      rw [keysFrom] at h
      cases hkey : keyLength? before (c :: rest) with
      | none =>
        rw [hkey] at h
        exact hstep h
      | some n =>
        rw [hkey] at h
        rcases List.mem_cons.1 h with rfl | h
        · exact ⟨[], c :: rest, rfl, rfl, hkey⟩
        · exact hstep h

end Pattern

/-- How a key stands in a line when the text of its marker stops at column `last`. -/
structure CarriedKey.Placed (line : Text) (last : Nat) (found : CarriedKey) : Prop where
  key_eq : found.key = Text.slice line found.start found.stop
  start_le : found.start ≤ found.stop
  stop_le : found.stop ≤ last
  before : found.form ≠ .bare → KeyToken.isFreeBefore (line.take found.start).getLast? = true
  after : found.form ≠ .bare → (line)[found.stop]?.any Text.isAsciiWord = false
  bareBefore : found.form = .bare → (line.take found.start).getLast?.any Text.isWord = false
  bareAfter : found.form = .bare → found.stop < last → (line)[found.stop]?.any Text.isWord = false

namespace CarriedKey

variable {line segment : Text} {start stop : Nat} {before : Option Char}

/-- A key with a character of the segment at either side. -/
theorem placed_between {x y key : Text} {a b : Char} {form : KeyForm} (hform : form ≠ .bare)
    (h : Text.Window line start stop before (x ++ b :: (key ++ a :: y)))
    (hb : b = '=' ∨ b = '(' ∨ Text.isBlank b = true)
    (ha : a = ']' ∨ a = ')' ∨ Text.isBlank a = true) (formStart formStop : Nat) :
    Placed line stop ⟨key, start + x.length + 1, start + x.length + 1 + key.length, form,
      formStart, formStop⟩ := by
  obtain ⟨hbefore, hkey, hafter, hstop⟩ := h.between
  refine ⟨hkey.symm, Nat.le_add_right _ _, Nat.le_of_lt hstop, fun _ => ?_, fun _ => ?_,
    fun hbare => absurd hbare hform, fun hbare => absurd hbare hform⟩
  · dsimp only
    rw [hbefore]
    rcases hb with rfl | rfl | hb
    · rfl
    · rfl
    · obtain ⟨hword, hhyphen⟩ := Text.not_isAsciiWord_of_isBlank hb
      simp [KeyToken.isFreeBefore, hword, hhyphen]
  · dsimp only
    rw [hafter]
    rcases ha with rfl | rfl | ha
    · rfl
    · rfl
    · simp [(Text.not_isAsciiWord_of_isBlank ha).1]

/-- A key that the pattern takes at the start of a window. -/
theorem placed_bare (h : Text.Window line start stop before segment) {n : Nat}
    (hkey : Pattern.keyLength? before segment = some n) :
    Placed line stop ⟨segment.take n, start, start + n, .bare, start, start + n⟩ := by
  obtain ⟨hbefore, hafter⟩ := Pattern.keyLength?_edges hkey
  have hle := (Pattern.keyLength?_le hkey).2
  have hstop := h.stop_eq
  refine ⟨(slice_window h hle).symm, Nat.le_add_right _ _, by dsimp only; omega,
    fun hform => absurd rfl hform, fun hform => absurd rfl hform, fun _ => ?_, fun _ hlt => ?_⟩
  · dsimp only
    rw [h.before_eq]
    exact hbefore
  · dsimp only at hlt ⊢
    rw [h.getElem?_add (by omega)]
    exact hafter

theorem placed_of_keyIn (h : Text.Window line start stop before segment) {found : CarriedKey}
    (hfound : keyIn before start segment = some found) : found.Placed line stop := by
  rw [keyIn] at hfound
  split at hfound
  · rename_i ticket hticket
    cases hfound
    obtain ⟨x, b, a, y, rfl, hstart, hstop, hb, ha⟩ := TicketAttribute.of_findFrom hticket
    have hform : KeyForm.bracket ≠ .bare := by decide
    have hplaced := placed_between hform h (hb.imp_right .inr) (ha.imp_right .inr)
      (start + ticket.start) (start + ticket.stop)
    have hcolumn : start + (0 + x.length + 1) = start + x.length + 1 := by omega
    rw [ofTicket, hstop, ← Nat.add_assoc start, hstart, hcolumn]
    exact hplaced
  · rw [Option.or_eq_some_iff] at hfound
    rcases hfound with hfound | ⟨-, hfound⟩
    · obtain ⟨paren, hread, hfound⟩ := Option.bind_eq_some_iff.1 hfound
      obtain ⟨n, -, hfound⟩ := Option.bind_eq_some_iff.1 hfound
      split at hfound
      · cases hfound
        obtain ⟨x, b, word, a, y, rfl, hstart, hstop, hb, ha⟩ := Parenthesis.of_read? hread
        have hform : KeyForm.paren ≠ .bare := by decide
        have hplaced := placed_between hform h (.inr hb) (.inr ha) start (start + paren.stop)
        have hself : Text.Window (x ++ b :: (word ++ a :: y)) 0
            (x ++ b :: (word ++ a :: y)).length none (x ++ b :: (word ++ a :: y)) :=
          ⟨[], [], by simp, rfl, by simp, rfl⟩
        have hword := hself.between.2.1
        rw [Nat.zero_add] at hword
        rw [hstop, hstart, hword, ← Nat.add_assoc start, ← Nat.add_assoc start]
        exact hplaced
      · cases hfound
    · obtain ⟨n, hkey, rfl⟩ := Option.map_eq_some_iff.1 hfound
      have hsplit := List.takeWhile_append_dropWhile (p := isLead) (l := segment)
      rw [← hsplit, ← List.append_nil (segment.dropWhile isLead)] at h
      have hpart := h.part
      have hstop := h.stop_eq
      rw [List.append_nil, hsplit] at hstop
      have hlen := congrArg List.length hsplit
      rw [List.length_append] at hlen
      have hlast : start + (segment.takeWhile isLead).length +
          (segment.dropWhile isLead).length = stop := by omega
      rw [hlast] at hpart
      exact placed_bare hpart hkey

theorem placed_of_mention (hle : start ≤ stop) (hstop : stop ≤ line.length) {found : FoundKey}
    (h : found ∈ FoundKey.findAll [ticketPattern] line start stop) :
    Placed line stop ⟨found.key, found.start, found.stop, .bare, found.start, found.stop⟩ := by
  rw [FoundKey.findAll_default line hle, List.mem_mergeSort] at h
  rcases FoundKey.mem_of_mem_foldl_insert h with h | h
  · obtain ⟨key, hmem, rfl⟩ := List.mem_map.1 h
    have hwindow := Text.Window.of_le line hle hstop
    rw [hwindow.before_eq_of_take] at hmem
    obtain ⟨x, y, hsplit, hstart, hkey⟩ := Pattern.exists_of_mem_keysFrom hmem
    rw [hsplit, ← List.append_nil y] at hwindow
    have hpart := hwindow.part
    have hlast := hwindow.stop_eq
    rw [List.append_nil, List.length_append, ← Nat.add_assoc] at hlast
    rw [← hstart] at hpart hlast
    rw [← hlast] at hpart
    have hplaced := placed_bare hpart hkey
    rw [ofMatch_keyMatch, slice_window hpart (Pattern.keyLength?_le hkey).2]
    exact hplaced
  · cases h

end CarriedKey

namespace Candidate

/-- Whether the place of a candidate's key is one for a token: it is written on purpose, or neither
a hyphen is in front of it nor the next signal word right behind it. -/
def StandsFree (candidate : Candidate) (found : CarriedKey) : Prop :=
  found.form ≠ .bare ∨
    (candidate.text.take found.start).getLast? ≠ some '-' ∧
      (found.stop < candidate.segmentStop ∨ candidate.segmentStop = candidate.span.bodyStop)

end Candidate

namespace Scanner

variable {scanner : Scanner} {number : Nat} {line : Text} {span : Span} {c : Candidate}

theorem segmentStop_of_mem_ofSignalsTo {stop : Nat} {signals : List Signal}
    (hc : c ∈ scanner.ofSignalsTo number line span stop signals) :
    c.segmentStop = stop ∨ ∃ signal ∈ signals, c.segmentStop = signal.start := by
  induction signals with
  | nil => cases hc
  | cons signal rest ih =>
    rw [ofSignalsTo] at hc
    rcases List.mem_cons.1 hc with rfl | hc
    · cases rest with
      | nil => exact .inl rfl
      | cons next rest => exact .inr ⟨next, by simp, rfl⟩
    · rcases ih hc with h | ⟨other, hother, h⟩
      · exact .inl h
      · exact .inr ⟨other, List.mem_cons_of_mem _ hother, h⟩

/-- The text of a candidate ends with the comment or where a signal word starts. -/
theorem segmentStop_of_mem_scanSpan (hc : c ∈ scanner.scanSpan number line span) :
    c.segmentStop = span.bodyStop ∨
      ∃ signal ∈ Signal.findAll scanner.words line span.bodyStart span.bodyStop,
        c.segmentStop = signal.start := by
  rw [scanSpan, ofSignals_eq] at hc
  rcases List.mem_append.1 hc with hc | hc
  · exact segmentStop_of_mem_ofSignalsTo hc
  · split at hc
    · obtain ⟨found, -, rfl⟩ := List.mem_map.1 hc
      cases Signal.findAll scanner.words line span.bodyStart span.bodyStop with
      | nil => exact .inl rfl
      | cons signal rest => exact .inr ⟨signal, List.mem_cons_self, rfl⟩
    · cases hc

/-- A signal word starts with a capital letter. -/
theorem isAsciiWord_start (hwords : Signal.Capital scanner.words)
    (hin : span.Within 0 line.length) {signal : Signal}
    (h : signal ∈ Signal.findAll scanner.words line span.bodyStart span.bodyStop) :
    (line)[signal.start]?.any Text.isAsciiWord = true := by
  have hwindow := Text.Window.of_le line hin.bodyStart_le
    (Nat.le_trans hin.bodyStop_le hin.stop_le)
  rw [Signal.findAll_window hwindow] at h
  obtain ⟨x, y, hbody, hstart, -, hw, -, -⟩ := Signal.exists_of_mem_findFrom h
  have hpos := List.length_pos_iff.2 (hwords _ hw).1
  rw [hstart, hwindow.getElem?_add (by rw [hbody]; simp; omega), hbody,
    List.getElem?_append_right (Nat.le_refl _), Nat.sub_self]
  cases hword : signal.word with
  | nil => simp [hword] at hpos
  | cons d word =>
    have hd := hwords.isAsciiWord hw d (by rw [hword]; exact List.mem_cons_self)
    simpa using hd

theorem placed_of_mem_scanSpan (hwords : Signal.Capital scanner.words)
    (hpatterns : scanner.patterns = [ticketPattern]) (hin : span.Within 0 line.length)
    (hc : c ∈ scanner.scanSpan number line span) {found : CarriedKey}
    (hfound : c.carried = some found) : found.Placed line c.segmentStop := by
  have hstop : span.bodyStop ≤ line.length := Nat.le_trans hin.bodyStop_le hin.stop_le
  have hcin := (within_of_mem_scanSpan hwords hpatterns hin hc).1
  have hordered := Signal.ordered_findAll hwords.ne_nil line hin.bodyStart_le hstop
  rw [scanSpan, ofSignals_eq] at hc
  rcases List.mem_append.1 hc with hc | hc
  · obtain ⟨signal, -, last, rfl⟩ := exists_of_mem_ofSignalsTo hc
    have hwindow : Text.Window line signal.stop last (line.take signal.stop).getLast?
        (Text.slice line signal.stop last) :=
      Text.Window.of_le line hcin.signalStop_le (Nat.le_trans hcin.segmentStop_le hstop)
    have hkey : CarriedKey.inSegment? scanner.patterns line signal.stop last = some found := hfound
    rw [hpatterns, CarriedKey.inSegment?_window hwindow] at hkey
    exact CarriedKey.placed_of_keyIn hwindow hkey
  · split at hc
    · obtain ⟨key, hkey, rfl⟩ := List.mem_map.1 hc
      cases hfound
      rw [hpatterns] at hkey
      exact CarriedKey.placed_of_mention hordered.head_le.1
        (Nat.le_trans hordered.head_le.2 hstop) hkey
    · cases hc

/-- The key of a candidate is a token of the line exactly where it stands free. -/
theorem isTokenAt_iff (hwords : Signal.Capital scanner.words)
    (hpatterns : scanner.patterns = [ticketPattern]) (hin : span.Within 0 line.length)
    (hedge : (line)[span.bodyStop]?.any Text.isAsciiWord = false)
    (hc : c ∈ scanner.scanSpan number line span) {found : CarriedKey}
    (hfound : c.carried = some found) :
    KeyToken.isTokenAt c.text found.key found.start = true ↔ c.StandsFree found := by
  have hplaced := placed_of_mem_scanSpan hwords hpatterns hin hc hfound
  obtain ⟨hcin, htext, hspan, -⟩ := within_of_mem_scanSpan hwords hpatterns hin hc
  rw [htext, hplaced.key_eq, KeyToken.isTokenAt_slice hplaced.start_le, Candidate.StandsFree,
    htext, hspan, Bool.and_eq_true, Bool.not_eq_true']
  by_cases hform : found.form = .bare
  · have hbefore : KeyToken.isFreeBefore (line.take found.start).getLast? = true ↔
        (line.take found.start).getLast? ≠ some '-' := by
      have hword := hplaced.bareBefore hform
      cases hlast : (line.take found.start).getLast? with
      | none => simp [KeyToken.isFreeBefore]
      | some d =>
        rw [hlast, Option.any_some, Text.isWord, Bool.or_eq_false_iff, Bool.or_eq_false_iff]
          at hword
        simp [KeyToken.isFreeBefore, hword.1.1]
    have hafter : (line)[found.stop]?.any Text.isAsciiWord = false ↔
        found.stop < c.segmentStop ∨ c.segmentStop = span.bodyStop := by
      rcases Nat.lt_or_eq_of_le hplaced.stop_le with hlt | heq
      · have hword := hplaced.bareAfter hform hlt
        refine iff_of_true ?_ (.inl hlt)
        cases hnext : (line)[found.stop]? with
        | none => rfl
        | some d =>
          rw [hnext, Option.any_some, Text.isWord, Bool.or_eq_false_iff, Bool.or_eq_false_iff]
            at hword
          exact hword.1.1
      · rw [heq]
        rcases segmentStop_of_mem_scanSpan hc with hstop | ⟨signal, hsignal, hstop⟩
        · rw [hstop]
          exact iff_of_true hedge (.inr rfl)
        · have hword := isAsciiWord_start hwords hin hsignal
          rw [hstop, hword]
          refine iff_of_false (by simp) ?_
          rintro (hlt | hlast)
          · exact Nat.lt_irrefl _ hlt
          · rw [hlast, hedge] at hword
            cases hword
    rw [hbefore, hafter]
    simp [hform]
  · exact iff_of_true ⟨hplaced.before hform, hplaced.after hform⟩ (.inl hform)

end Scanner

namespace Grammar

variable {grammar : Grammar} {pending : Option Text}

/-- No closer starts with a word character. -/
def EndsApart (grammar : Grammar) : Prop :=
  ∀ d ∈ grammar.delimiters, ∀ closer ∈ d.closer, closer.head?.any Text.isAsciiWord = false

theorem mem_registry_of_ofPath? {path : Path} (h : ofPath? path = some grammar) :
    grammar ∈ registry := by
  rw [ofPath?] at h
  split at h
  · exact List.mem_of_find?_eq_some h
  · split at h
    · cases h
    · exact List.mem_of_find?_eq_some h

theorem proper_registry (h : grammar ∈ registry) : grammar.Proper := by
  have hall : ∀ g ∈ registry, ∀ d ∈ g.delimiters, d.opener ≠ [] ∧ d.closer ≠ some [] := by
    decide +kernel
  refine ⟨fun d hd => (hall grammar h d hd).1, ?_⟩
  rintro d hd closer hcloser rfl
  exact (hall grammar h d hd).2 hcloser

theorem endsApart_registry (h : grammar ∈ registry) : grammar.EndsApart := by
  have hall : ∀ g ∈ registry, ∀ d ∈ g.delimiters,
      d.closer.all (fun closer => !closer.head?.any Text.isAsciiWord) = true := by
    decide +kernel
  intro d hd closer hcloser
  have hd := hall grammar h d hd
  rw [Option.mem_def.1 hcloser] at hd
  simpa using hd

/-- Behind the body of a comment there is no word character. -/
theorem isAsciiWord_bodyStop (hg : grammar.Proper) (hends : grammar.EndsApart)
    (hpending : grammar.Awaits pending) (line : Text) :
    ∀ span ∈ (grammar.lineSpans pending line).1,
      (line)[span.bodyStop]?.any Text.isAsciiWord = false := by
  have hclose : ∀ {closer : Option Text} {span : Span}, span.Ends line closer →
      (∀ needle ∈ closer, ∃ d ∈ grammar.delimiters, d.closer = some needle) →
      (line)[span.bodyStop]?.any Text.isAsciiWord = false := by
    rintro closer span ⟨-, ⟨hstop, -⟩ | ⟨needle, hneedle, hstarts, -⟩⟩ hcloser
    · rw [hstop]
      simp
    · obtain ⟨d, hd, hdcloser⟩ := hcloser needle hneedle
      have hhead := hends d hd needle hdcloser
      have hpos := hg.closer_length_pos hd hdcloser
      obtain ⟨rest, hrest⟩ := hstarts
      rw [← List.head?_drop, ← hrest, List.head?_append]
      cases needle with
      | nil => simp at hpos
      | cons a needle => exact hhead
  intro span hspan
  rcases (divided_lineSpans hg hpending line).bodies span hspan with
    ⟨-, -, -, hends'⟩ | ⟨d, hopen, -, hends'⟩
  · exact hclose hends' hpending
  · exact hclose hends' fun needle hneedle => ⟨d, (opener?_eq_some hopen).1, hneedle⟩

end Grammar

end TodoTracker
