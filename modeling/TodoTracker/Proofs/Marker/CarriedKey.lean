import TodoTracker.Marker.Candidate
import TodoTracker.Proofs.Marker.TicketKey
import TodoTracker.Proofs.Text.Window

/-!
# The key of a marker, by its segment

With the default pattern the key of a marker depends on its segment and the character in front of
it alone. A key in parentheses that is written in front of a segment without a ticket attribute is
the key of the marker, and takes nothing from its title or attributes.
-/

set_option autoImplicit false

namespace TodoTracker

open Pattern

variable {line segment : Text} {start stop : Nat} {before : Option Char}

theorem fullMatch?_window (h : Text.Window line start stop before segment) :
    ticketPattern.fullMatch? line start stop =
      (keyLength? before segment).bind fun n =>
        if n = segment.length then some (keyMatch start n) else none := by
  rw [fullMatch?_ticketPattern, h.before_eq_of_take, h.slice_eq]

theorem match?_window (h : Text.Window line start stop before segment) :
    ticketPattern.match? line start stop = (keyLength? before segment).map (keyMatch start) := by
  rw [match?_ticketPattern, h.before_eq_of_take, h.slice_eq]

theorem ofMatch_keyMatch (line : Text) (start n : Nat) :
    FoundKey.ofMatch ticketPattern line (keyMatch start n) =
      ⟨Text.slice line start (start + n), start, start + n⟩ := rfl

/-- The first characters of a window. -/
theorem slice_window (h : Text.Window line start stop before segment) {n : Nat}
    (hn : n ≤ segment.length) : Text.slice line start (start + n) = segment.take n := by
  have hwindow := h.slice (Nat.zero_le n) hn
  rw [Nat.add_zero] at hwindow
  exact hwindow.slice_eq

theorem Parenthesis.isInner_of_keyChar {c : Char}
    (h : (Text.isAsciiUpper c || Text.isAsciiDigit c) = true) : isInner c = true := by
  have hn : 48 ≤ c.toNat ∧ c.toNat ≤ 90 := by
    simp only [Text.isAsciiUpper, Text.isAsciiDigit, Bool.or_eq_true, Bool.and_eq_true,
      decide_eq_true_eq] at h
    omega
  have hblank : Text.isBlank c = false := by
    simp only [Text.isBlank, Bool.or_eq_false_iff, Bool.and_eq_false_iff,
      decide_eq_false_iff_not, beq_eq_false_iff_ne]
    omega
  have hparen : c ≠ '(' ∧ c ≠ ')' := by
    constructor
    · rintro rfl
      exact absurd hn.1 (by decide)
    · rintro rfl
      exact absurd hn.1 (by decide)
  simp [isInner, hblank, hparen]

/-- A word in parentheses right at the start of a text. -/
theorem Parenthesis.read?_word {word : Text} (hne : word ≠ [])
    (hword : ∀ c ∈ word, isInner c = true) (rest : Text) :
    read? ('(' :: (word ++ ')' :: rest)) = some ⟨word.length + 2, 1, 1 + word.length⟩ := by
  have hopen : ('(' :: (word ++ ')' :: rest)).dropWhile Text.isBlank =
      '(' :: (word ++ ')' :: rest) := by
    rw [List.dropWhile_cons_of_neg (by decide)]
  have hcontent : (word ++ ')' :: rest).dropWhile Text.isBlank = word ++ ')' :: rest := by
    cases word with
    | nil => exact absurd rfl hne
    | cons c word =>
      have hc := hword c List.mem_cons_self
      rw [isInner, Bool.and_eq_true, Bool.not_eq_true'] at hc
      rw [List.cons_append, List.dropWhile_cons_of_neg (by simp [hc.2])]
  have htake : (word ++ ')' :: rest).takeWhile isInner = word :=
    Text.takeWhile_append_of_head hword (by rw [List.head?_cons]; decide)
  have hclose : (')' :: rest).dropWhile Text.isBlank = ')' :: rest := by
    rw [List.dropWhile_cons_of_neg (by decide)]
  rw [read?, hopen]
  simp only [hcontent, htake, List.drop_left, hclose]
  rw [if_neg (by simpa using hne)]
  simp only [List.length_cons, List.length_append, Option.some.injEq, mk.injEq]
  omega

theorem Parenthesis.read?_le {t : Text} {paren : Parenthesis} (h : Parenthesis.read? t = some paren) :
    paren.wordStart ≤ paren.wordStop ∧ paren.wordStop ≤ t.length := by
  rw [Parenthesis.read?] at h
  split at h
  · rename_i rest hopen
    dsimp only at h
    split at h
    · split at h
      · cases h
      · cases h
        have hcontent := (List.dropWhile_suffix Text.isBlank (l := rest)).length_le
        have hword := (List.takeWhile_prefix Parenthesis.isInner
          (l := rest.dropWhile Text.isBlank)).length_le
        have hrest := (List.dropWhile_suffix Text.isBlank (l := t)).length_le
        rw [hopen, List.length_cons] at hrest
        dsimp only
        omega
    · cases h
  · cases h

namespace CarriedKey

def add (k : Nat) (found : CarriedKey) : CarriedKey :=
  ⟨found.key, found.start + k, found.stop + k, found.form, found.formStart + k, found.formStop + k⟩

/-- A key in parentheses at the start of a segment. -/
def parenIn (before : Option Char) (start : Nat) (segment : Text) : Option CarriedKey :=
  (Parenthesis.read? segment).bind fun paren =>
    let word := Text.slice segment paren.wordStart paren.wordStop
    (keyLength? ((segment.take paren.wordStart).getLast?.or before) word).bind fun n =>
      if n = word.length then
        some ⟨word, start + paren.wordStart, start + paren.wordStop, .paren, start,
          start + paren.stop⟩
      else none

/-- A bare key in a segment. -/
def bareIn (before : Option Char) (start : Nat) (segment : Text) : Option CarriedKey :=
  let lead := segment.takeWhile isLead
  let rest := segment.dropWhile isLead
  (keyLength? (lead.getLast?.or before) rest).map fun n =>
    ⟨rest.take n, start + lead.length, start + lead.length + n, .bare, start + lead.length,
      start + lead.length + n⟩

/-- The key in a segment that starts at column `start` behind the character `before`. -/
def keyIn (before : Option Char) (start : Nat) (segment : Text) : Option CarriedKey :=
  match TicketAttribute.find? segment with
  | some ticket => some (ofTicket start ticket)
  | none => (parenIn before start segment).or (bareIn before start segment)

theorem paren?_window (h : Text.Window line start stop before segment) :
    paren? [ticketPattern] line start segment = parenIn before start segment := by
  rw [paren?, parenIn]
  cases hread : Parenthesis.read? segment with
  | none => rfl
  | some paren =>
    obtain ⟨hle, hlen⟩ := Parenthesis.read?_le hread
    have hwindow := h.slice hle hlen
    have hstop := hwindow.stop_eq
    simp only [Option.bind_some, List.findSome?_cons, List.findSome?_nil,
      fullMatch?_window hwindow]
    cases keyLength? ((segment.take paren.wordStart).getLast?.or before)
      (Text.slice segment paren.wordStart paren.wordStop) with
    | none => rfl
    | some n =>
      simp only [Option.bind_some]
      by_cases hn : n = (Text.slice segment paren.wordStart paren.wordStop).length
      · rw [← hn] at hstop
        simp only [if_pos hn, Option.map_some, ofMatch_keyMatch, ← hstop, hwindow.slice_eq]
      · simp only [if_neg hn, Option.map_none]

theorem bare?_window (h : Text.Window line start stop before segment) :
    bare? [ticketPattern] line start stop segment = bareIn before start segment := by
  have hwindow : Text.Window line (start + (segment.takeWhile isLead).length) stop
      ((segment.takeWhile isLead).getLast?.or before) (segment.dropWhile isLead) := by
    have hstop := h.stop_eq
    have hsplit := List.takeWhile_append_dropWhile (p := isLead) (l := segment)
    have hlen := congrArg List.length hsplit
    rw [List.length_append] at hlen
    rw [← hsplit, ← List.append_nil (segment.dropWhile isLead)] at h
    have hpart := h.part
    rw [show start + (segment.takeWhile isLead).length + (segment.dropWhile isLead).length = stop
      by omega] at hpart
    exact hpart
  rw [bare?, bareIn]
  simp only [List.findSome?_cons, List.findSome?_nil, match?_window hwindow]
  cases hkey : keyLength? ((segment.takeWhile isLead).getLast?.or before)
    (segment.dropWhile isLead) with
  | none => rfl
  | some n =>
    obtain ⟨hn, hle⟩ := keyLength?_le hkey
    have hlead : start + (segment.takeWhile isLead).length <
        start + (segment.takeWhile isLead).length + n := by omega
    simp only [Option.map_some, keyMatch, hlead, if_true]
    have hkeyText := slice_window hwindow hle
    have hmatch := ofMatch_keyMatch line (start + (segment.takeWhile isLead).length) n
    rw [keyMatch] at hmatch
    rw [hmatch, hkeyText]

theorem inSegment?_window (h : Text.Window line start stop before segment) :
    inSegment? [ticketPattern] line start stop = keyIn before start segment := by
  rw [inSegment?, h.slice_eq, keyIn]
  cases TicketAttribute.find? segment with
  | some ticket => rfl
  | none =>
    dsimp only
    rw [paren?_window h, bare?_window h]
    cases parenIn before start segment <;> rfl

theorem parenIn_add (k : Nat) (before : Option Char) (start : Nat) (segment : Text) :
    parenIn before (start + k) segment = (parenIn before start segment).map (add k) := by
  rw [parenIn, parenIn]
  cases Parenthesis.read? segment with
  | none => rfl
  | some paren =>
    simp only [Option.bind_some]
    cases keyLength? ((segment.take paren.wordStart).getLast?.or before)
      (Text.slice segment paren.wordStart paren.wordStop) with
    | none => rfl
    | some n =>
      simp only [Option.bind_some]
      split
      · simp only [Option.map_some, add, Nat.add_right_comm]
      · rfl

theorem bareIn_add (k : Nat) (before : Option Char) (start : Nat) (segment : Text) :
    bareIn before (start + k) segment = (bareIn before start segment).map (add k) := by
  rw [bareIn, bareIn, Option.map_map]
  congr 1
  funext n
  simp only [Function.comp_apply, add, mk.injEq, true_and]
  omega

/-- The key of a segment further on in a line is the same key. -/
theorem keyIn_add (k : Nat) (before : Option Char) (start : Nat) (segment : Text) :
    keyIn before (start + k) segment = (keyIn before start segment).map (add k) := by
  rw [keyIn, keyIn]
  cases TicketAttribute.find? segment with
  | some ticket =>
    simp only [ofTicket, Option.map_some, add, Option.some.injEq, mk.injEq, true_and]
    omega
  | none =>
    dsimp only
    rw [parenIn_add, bareIn_add]
    cases parenIn before start segment <;> rfl

end CarriedKey

namespace TicketAttribute

theorem isSome_read? (pos other : Nat) (t : Text) :
    (read? pos t).isSome = (read? other t).isSome := by
  rw [read?, read?]
  cases skipWord? "ticket".toList (t.dropWhile Text.isBlank) with
  | none => rfl
  | some afterWord =>
    simp only [Option.bind_eq_bind, Option.bind_some]
    split
    · split
      · rfl
      · split <;> rfl
    · rfl

theorem isSome_findFrom (pos other : Nat) (t : Text) :
    (findFrom pos t).isSome = (findFrom other t).isSome := by
  induction t generalizing pos other with
  | nil => rfl
  | cons c t ih =>
    rw [findFrom, findFrom]
    split
    · have hread := isSome_read? pos other t
      cases hpos : read? pos t with
      | some found =>
        rw [hpos] at hread
        obtain ⟨found', hother⟩ := Option.isSome_iff_exists.1 hread.symm
        rw [hother]
        rfl
      | none =>
        rw [hpos] at hread
        have hother : read? other t = none := by simpa using hread.symm
        rw [hother]
        exact ih _ _
    · exact ih _ _

/-- Text without an opening bracket in front of a text adds no ticket attribute. -/
theorem find?_append {x y : Text} (hx : '[' ∉ x) (hy : find? y = none) : find? (x ++ y) = none := by
  have hskip : ∀ pos, findFrom pos (x ++ y) = findFrom (pos + x.length) y := by
    induction x with
    | nil => exact fun pos => rfl
    | cons c x ih =>
      intro pos
      rw [List.mem_cons, not_or] at hx
      rw [List.cons_append, findFrom, if_neg (Ne.symm hx.1), ih hx.2, List.length_cons]
      congr 1
      omega
  have hsome := isSome_findFrom (0 + x.length) 0 y
  rw [find?] at hy ⊢
  rw [hskip, ← Option.not_isSome_iff_eq_none, hsome, hy]
  simp

end TicketAttribute

namespace Block

theorem map_inner_scanFrom (pos other depth start start' : Nat) (inner t : Text) :
    (scanFrom pos depth start inner t).map Block.inner =
      (scanFrom other depth start' inner t).map Block.inner := by
  induction t generalizing pos other depth start start' inner with
  | nil => rfl
  | cons c t ih =>
    rw [scanFrom, scanFrom]
    split
    · split <;> exact ih _ _ _ _ _ _
    · split
      · split
        · rw [List.map_cons, List.map_cons, ih (pos + 1) (other + 1) 0 0 0]
        · exact ih _ _ _ _ _ _
      · exact ih _ _ _ _ _ _

theorem scanFrom_append {x : Text} (hx : '[' ∉ x) (pos start : Nat) (inner y : Text) :
    scanFrom pos 0 start inner (x ++ y) = scanFrom (pos + x.length) 0 start inner y := by
  induction x generalizing pos with
  | nil => rfl
  | cons c x ih =>
    rw [List.mem_cons, not_or] at hx
    rw [List.cons_append, scanFrom, if_neg (Ne.symm hx.1), if_neg (by omega), if_pos rfl, ih hx.2,
      List.length_cons]
    congr 1
    omega

end Block

/-- Text without an opening bracket in front of a text adds no attributes. -/
theorem Attributes.parse_append {x : Text} (hx : '[' ∉ x) (y : Text) : parse (x ++ y) = parse y := by
  have hinner : ∀ t, (Block.attributeBlocks t).flatMap (fun block => Text.splitOn ',' block.inner) =
      (((Block.scan t).map Block.inner).filter (·.contains '=')).flatMap (Text.splitOn ',') := by
    intro t
    rw [Block.attributeBlocks, List.filter_map, List.flatMap_map]
    rfl
  rw [parse, parse, hinner, hinner, Block.scan, Block.scan, Block.scanFrom_append hx,
    Block.map_inner_scanFrom (0 + x.length) 0 0 0 0]

namespace TicketKey

variable (key : TicketKey)

theorem read?_written (rest : Text) :
    Parenthesis.read? (key.written ++ rest) =
      some ⟨key.written.length, 1, 1 + key.text.length⟩ := by
  have hwritten : key.written ++ rest = '(' :: (key.text ++ ')' :: rest) := by
    simp [written]
  have hinner : ∀ c ∈ key.text, Parenthesis.isInner c = true := by
    intro c hc
    rcases key.of_mem_text hc with h | rfl
    · exact Parenthesis.isInner_of_keyChar h
    · decide
  rw [hwritten, Parenthesis.read?_word (by simp [text]) hinner, length_written]

/-- The key in parentheses that is written at column `start`. -/
def carried (start : Nat) : CarriedKey :=
  ⟨key.text, start + 1, start + (1 + key.text.length), .paren, start, start + key.written.length⟩

/-- A key in parentheses in front of a segment is its key, unless the segment has a ticket
attribute. -/
theorem keyIn_written (before : Option Char) (start : Nat) {segment : Text}
    (h : TicketAttribute.find? segment = none) :
    CarriedKey.keyIn before start (key.written ++ segment) = some (key.carried start) := by
  have hbracket : '[' ∉ key.written := key.not_mem_written (by decide) (by decide) (by decide)
    (by decide)
  have hword : Text.slice (key.written ++ segment) 1 (1 + key.text.length) = key.text := by
    rw [Text.slice, written, List.cons_append, Nat.add_comm 1, List.take_succ_cons,
      List.append_assoc, List.take_left]
    rfl
  have hparen : (List.take 1 (key.written ++ segment)).getLast?.or before = some '(' := rfl
  have hkey := key.keyLength?_text (some '(') [] (by decide) rfl
  rw [List.append_nil] at hkey
  rw [CarriedKey.keyIn, TicketAttribute.find?_append hbracket h]
  dsimp only
  rw [CarriedKey.parenIn, key.read?_written]
  simp only [Option.bind_some]
  rw [hword, hparen, hkey]
  simp only [Option.bind_some, if_true, Option.some_or]
  rfl

theorem titleOf_written (segment : Text) (start : Nat) :
    Candidate.titleOf (key.written ++ segment) start (some (key.carried start)) =
      Candidate.titleOf segment start none := by
  rw [Candidate.titleOf, Candidate.titleOf]
  simp only [carried, Nat.sub_self, List.take_zero, List.nil_append, Nat.add_sub_cancel_left,
    List.drop_left]

theorem parse_written (segment : Text) :
    Attributes.parse (key.written ++ segment) = Attributes.parse segment :=
  Attributes.parse_append (key.not_mem_written (by decide) (by decide) (by decide) (by decide)) _

end TicketKey

theorem Candidate.titleOf_add (segment : Text) (start k : Nat) (carried : Option CarriedKey) :
    titleOf segment (start + k) (carried.map (CarriedKey.add k)) = titleOf segment start carried := by
  cases carried with
  | none => rfl
  | some found =>
    simp only [titleOf, Option.map_some, CarriedKey.add, Nat.add_sub_add_right]

end TodoTracker
