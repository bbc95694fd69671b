import TodoTracker.Marker.SignalWord
import TodoTracker.Proofs.Marker.TicketKey

/-!
# Where signal words are found

A signal word is a whole run of word characters. So the signal words of a text that ends at an edge
do not depend on what follows it, and a run that is no signal word, such as the parts of a key,
adds none.
-/

set_option autoImplicit false

namespace TodoTracker.Signal

open Text

/-- Signal words of word characters. -/
def Wordly (words : List Text) : Prop := ∀ w ∈ words, w ≠ [] ∧ ∀ c ∈ w, isAsciiWord c = true

/-- Signal words of capital letters. -/
def Capital (words : List Text) : Prop := ∀ w ∈ words, w ≠ [] ∧ ∀ c ∈ w, isAsciiUpper c = true

variable {words : List Text}

theorem isAsciiWord_of_isAsciiUpper {c : Char} (h : isAsciiUpper c = true) :
    isAsciiWord c = true := by
  simp [isAsciiWord, h]

theorem Wordly.isAsciiWord (hwords : Wordly words) {w : Text} (hw : w ∈ words) :
    ∀ c ∈ w, isAsciiWord c = true :=
  (hwords w hw).2

theorem Capital.ne_nil (hwords : Capital words) : ∀ w ∈ words, w ≠ [] :=
  fun w hw => (hwords w hw).1

theorem Capital.isAsciiWord (hwords : Capital words) {w : Text} (hw : w ∈ words) :
    ∀ c ∈ w, isAsciiWord c = true :=
  fun c hc => isAsciiWord_of_isAsciiUpper ((hwords w hw).2 c hc)

theorem Capital.wordly (hwords : Capital words) : Wordly words :=
  fun w hw => ⟨hwords.ne_nil w hw, hwords.isAsciiWord hw⟩

theorem not_isAsciiWord_of_isEdge {t : Option Char} (h : isEdge t = true) {c : Char}
    (hc : c ∈ t) : Text.isAsciiWord c = false := by
  subst hc
  simpa [isEdge] using h

theorem isEdge_cons {c : Char} (h : Text.isAsciiWord c = false) (rest : Text) :
    isEdge (c :: rest).head? = true := by
  simp [isEdge, h]

/-- What starts a text of word characters is at an edge only as the whole text. -/
theorem eq_of_edge {w r y : Text} (hw : ∀ c ∈ w, Text.isAsciiWord c = true)
    (hr : ∀ c ∈ r, Text.isAsciiWord c = true) (hy : isEdge y.head? = true)
    (hstarts : w <+: r ++ y) (hedge : isEdge ((r ++ y).drop w.length).head? = true) : w = r := by
  have hlen : w.length = r.length := by
    rcases Nat.lt_trichotomy w.length r.length with hlt | heq | hgt
    · rw [List.drop_append_of_le_length (Nat.le_of_lt hlt), List.drop_eq_getElem_cons hlt] at hedge
      have hword := hr r[w.length] (List.getElem_mem hlt)
      rw [not_isAsciiWord_of_isEdge hedge rfl] at hword
      cases hword
    · exact heq
    · obtain ⟨more, rfl⟩ : r <+: w :=
        List.prefix_of_prefix_length_le (List.prefix_append r y) hstarts (Nat.le_of_lt hgt)
      cases more with
      | nil => simp at hgt
      | cons c more =>
        obtain ⟨rest, rfl⟩ := (List.prefix_append_right_inj r).1 hstarts
        have hword := hw c (by simp)
        rw [not_isAsciiWord_of_isEdge hy rfl] at hword
        cases hword
  exact (List.prefix_of_prefix_length_le hstarts (List.prefix_append r y)
    (Nat.le_of_eq hlen)).eq_of_length hlen

theorem wordAt?_eq_some {before : Option Char} {rest w : Text}
    (h : wordAt? words before rest = some w) :
    isEdge before = true ∧ w ∈ words ∧ w <+: rest ∧ isEdge (rest.drop w.length).head? = true := by
  rw [wordAt?] at h
  split at h
  · rename_i hbefore
    have hfound := List.find?_some h
    rw [Bool.and_eq_true, List.isPrefixOf_iff_prefix] at hfound
    exact ⟨hbefore, List.mem_of_find?_eq_some h, hfound.1, hfound.2⟩
  · cases h

/-- A run of word characters is found if it is a signal word. -/
theorem wordAt?_run (hwords : Wordly words) {before : Option Char} {r y : Text}
    (hbefore : isEdge before = true) (hr : ∀ c ∈ r, Text.isAsciiWord c = true)
    (hy : isEdge y.head? = true) :
    wordAt? words before (r ++ y) = if r ∈ words then some r else none := by
  cases h : wordAt? words before (r ++ y) with
  | some w =>
    obtain ⟨-, hw, hstarts, hedge⟩ := wordAt?_eq_some h
    have heq := eq_of_edge (hwords.isAsciiWord hw) hr hy hstarts hedge
    subst heq
    rw [if_pos hw]
  | none =>
    rw [wordAt?, if_pos hbefore, List.find?_eq_none] at h
    rw [if_neg]
    intro hmem
    apply h r hmem
    rw [Bool.and_eq_true, List.isPrefixOf_iff_prefix, List.drop_left]
    exact ⟨List.prefix_append r y, hy⟩

theorem wordAt?_of_not_edge {before : Option Char} (h : isEdge before = false) (rest : Text) :
    wordAt? words before rest = none := by
  rw [wordAt?, h]
  rfl

theorem wordAt?_cons_of_not_word (hwords : Wordly words) {c : Char}
    (hc : Text.isAsciiWord c = false) (before : Option Char) (rest : Text) :
    wordAt? words before (c :: rest) = none := by
  cases h : wordAt? words before (c :: rest) with
  | none => rfl
  | some w =>
    obtain ⟨-, hw, hstarts, -⟩ := wordAt?_eq_some h
    cases w with
    | nil => exact absurd rfl (hwords [] hw).1
    | cons d w =>
      have hd := hwords.isAsciiWord hw d List.mem_cons_self
      rw [(List.cons_prefix_cons.1 hstarts).1, hc] at hd
      cases hd

theorem findFrom_cons_of_none {pos : Nat} {before : Option Char} {c : Char} {rest : Text}
    (h : wordAt? words before (c :: rest) = none) :
    findFrom words pos 0 before (c :: rest) = findFrom words (pos + 1) 0 (some c) rest := by
  rw [findFrom, h]

theorem getLast?_cons_or (c : Char) (x : Text) (before : Option Char) :
    x.getLast?.or (some c) = (c :: x).getLast?.or before := by
  cases x with
  | nil => rfl
  | cons d x => simp [List.getLast?_cons]

/-- What is skipped is passed over. -/
theorem findFrom_skip (pos : Nat) (before : Option Char) (x y : Text) :
    findFrom words pos x.length before (x ++ y) =
      findFrom words (pos + x.length) 0 (x.getLast?.or before) y := by
  induction x generalizing pos before with
  | nil => rfl
  | cons c x ih =>
    rw [List.length_cons, List.cons_append, findFrom, ih]
    have hpos : pos + 1 + x.length = pos + (x.length + 1) := by omega
    rw [hpos, getLast?_cons_or]

/-- Behind an edge the character in front does not matter. -/
theorem findFrom_of_edge (hwords : Wordly words) (pos : Nat) (before other : Option Char)
    {y : Text} (hy : isEdge y.head? = true) :
    findFrom words pos 0 before y = findFrom words pos 0 other y := by
  cases y with
  | nil => rfl
  | cons c y =>
    have hc : Text.isAsciiWord c = false := not_isAsciiWord_of_isEdge hy rfl
    rw [findFrom_cons_of_none (wordAt?_cons_of_not_word hwords hc before y),
      findFrom_cons_of_none (wordAt?_cons_of_not_word hwords hc other y)]

/-- A signal word between two edges. -/
theorem findFrom_word (hwords : Wordly words) (pos : Nat) {before : Option Char} {w y : Text}
    (hw : w ∈ words) (hbefore : isEdge before = true) (hy : isEdge y.head? = true) :
    findFrom words pos 0 before (w ++ y) =
      ⟨pos, pos + w.length, w⟩ :: findFrom words (pos + w.length) 0 w.getLast? y := by
  have hfound := wordAt?_run hwords hbefore (hwords.isAsciiWord hw) hy
  rw [if_pos hw] at hfound
  cases w with
  | nil => exact absurd rfl (hwords [] hw).1
  | cons c w =>
    rw [List.cons_append, findFrom]
    rw [List.cons_append] at hfound
    rw [hfound]
    dsimp only
    rw [List.length_cons, Nat.add_sub_cancel, findFrom_skip]
    have hpos : pos + 1 + w.length = pos + (w.length + 1) := by omega
    rw [hpos, getLast?_cons_or c w none, Option.or_none]

/-- Inside of a run of word characters no signal word starts. -/
theorem findFrom_inside (pos : Nat) {before : Option Char} (x y : Text)
    (hbefore : isEdge before = false) (hx : ∀ c ∈ x, Text.isAsciiWord c = true) :
    findFrom words pos 0 before (x ++ y) =
      findFrom words (pos + x.length) 0 (x.getLast?.or before) y := by
  induction x generalizing pos before with
  | nil => rfl
  | cons c x ih =>
    have hc : isEdge (some c) = false := by
      simp [isEdge, hx c List.mem_cons_self]
    rw [List.cons_append, findFrom_cons_of_none (wordAt?_of_not_edge hbefore _),
      ih (pos + 1) hc fun d hd => hx d (List.mem_cons_of_mem _ hd)]
    have hpos : pos + 1 + x.length = pos + (c :: x).length := by
      rw [List.length_cons]
      omega
    rw [hpos, getLast?_cons_or]

/-- A run of word characters that is no signal word adds none. -/
theorem findFrom_run (hwords : Wordly words) (pos : Nat) {before : Option Char} {r y : Text}
    (hr : ∀ c ∈ r, Text.isAsciiWord c = true) (hnot : r ∉ words) (hy : isEdge y.head? = true) :
    findFrom words pos 0 before (r ++ y) = findFrom words (pos + r.length) 0 r.getLast? y := by
  cases r with
  | nil => exact findFrom_of_edge hwords pos before none hy
  | cons c r =>
    have hnone : wordAt? words before (c :: (r ++ y)) = none := by
      cases hbefore : isEdge before with
      | false => exact wordAt?_of_not_edge hbefore _
      | true =>
        have hrun := wordAt?_run hwords hbefore hr hy
        rw [if_neg hnot] at hrun
        exact hrun
    have hc : isEdge (some c) = false := by
      simp [isEdge, hr c List.mem_cons_self]
    rw [List.cons_append, findFrom_cons_of_none hnone,
      findFrom_inside (pos + 1) r y hc fun d hd => hr d (List.mem_cons_of_mem _ hd)]
    have hpos : pos + 1 + r.length = pos + (c :: r).length := by
      rw [List.length_cons]
      omega
    rw [hpos, getLast?_cons_or c r none, Option.or_none]

/-- A run of word characters with a number, in parentheses, adds no signal word unless the run is
one. -/
theorem findFrom_numbered (hwords : Capital words) {run : Text}
    (hrun : ∀ c ∈ run, Text.isAsciiWord c = true) (hnot : run ∉ words) (n pos : Nat)
    (before other : Option Char) {y : Text} (hy : isEdge y.head? = true) :
    findFrom words pos 0 before ('(' :: (run ++ '-' :: (Text.ofNat n ++ ')' :: y))) =
      findFrom words (pos + (run.length + (Text.ofNat n).length + 3)) 0 other y := by
  have hdigits : ∀ c ∈ Text.ofNat n, Text.isAsciiWord c = true := by
    intro c hc
    simp [Text.isAsciiWord, Text.isAsciiDigit_of_asciiDigit (Text.asciiDigit_of_mem_ofNat hc)]
  have hnumber : Text.ofNat n ∉ words := by
    intro hmem
    obtain ⟨c, hc⟩ := List.exists_mem_of_ne_nil _ (Text.ofNat_ne_nil n)
    have hupper := (hwords _ hmem).2 c hc
    have hdigit := Text.isAsciiDigit_of_asciiDigit (Text.asciiDigit_of_mem_ofNat hc)
    simp only [Text.isAsciiUpper, Text.isAsciiDigit, Bool.and_eq_true, decide_eq_true_eq]
      at hupper hdigit
    omega
  rw [findFrom_cons_of_none (wordAt?_cons_of_not_word hwords.wordly (by decide) _ _),
    findFrom_run hwords.wordly _ hrun hnot (isEdge_cons (by decide) _),
    findFrom_cons_of_none (wordAt?_cons_of_not_word hwords.wordly (by decide) _ _),
    findFrom_run hwords.wordly _ hdigits hnumber (isEdge_cons (by decide) _),
    findFrom_cons_of_none (wordAt?_cons_of_not_word hwords.wordly (by decide) _ _),
    findFrom_of_edge hwords.wordly _ _ other hy]
  congr 1
  omega

/-- A key in parentheses adds no signal word. -/
theorem findFrom_written (hwords : Capital words) (key : TicketKey) (hkey : key.project ∉ words)
    (pos : Nat) (before other : Option Char) {y : Text} (hy : isEdge y.head? = true) :
    findFrom words pos 0 before (key.written ++ y) =
      findFrom words (pos + key.written.length) 0 other y := by
  have hproject : ∀ c ∈ key.project, Text.isAsciiWord c = true := by
    intro c hc
    have := key.keyChar_of_mem_project hc
    simp only [Bool.or_eq_true] at this
    rcases this with h | h <;> simp [Text.isAsciiWord, h]
  have hwritten : key.written ++ y =
      '(' :: (key.project ++ '-' :: (Text.ofNat key.number ++ ')' :: y)) := by
    simp [TicketKey.written, TicketKey.text]
  have hlen : key.written.length = key.project.length + (Text.ofNat key.number).length + 3 := by
    simp only [TicketKey.written, TicketKey.text, List.length_cons, List.length_append,
      List.length_nil]
    omega
  rw [hwritten, hlen, findFrom_numbered hwords hproject hkey _ _ _ other hy]

theorem isEdge_of_cons {c : Char} {x : Text} (h : isEdge (c :: x).getLast? = true) :
    isEdge x.getLast? = true := by
  cases x with
  | nil => rfl
  | cons d x => simpa [List.getLast?_cons] using h

/-- In a text that ends at an edge, signal words end before its end. -/
theorem wordAt?_append (hwords : Wordly words) (before : Option Char) {c : Char} {x : Text}
    (hx : isEdge (c :: x).getLast? = true) (y : Text) :
    wordAt? words before (c :: x ++ y) = wordAt? words before (c :: x) ∧
      ∀ w, wordAt? words before (c :: x) = some w → w.length ≤ x.length := by
  have hshort : ∀ w ∈ words, ∀ z, w <+: c :: x ++ z → w.length ≤ x.length := by
    intro w hw z hstarts
    refine Nat.le_of_not_lt fun hlong => ?_
    have hfront : c :: x <+: w :=
      List.prefix_of_prefix_length_le (List.prefix_append _ z) hstarts hlong
    obtain ⟨d, hd⟩ := Option.ne_none_iff_exists'.1
      (mt List.getLast?_eq_none_iff.1 (List.cons_ne_nil c x))
    have hword := hwords.isAsciiWord hw d (hfront.subset (List.mem_of_getLast? hd))
    rw [not_isAsciiWord_of_isEdge hx hd] at hword
    cases hword
  constructor
  · rw [wordAt?, wordAt?]
    congr 1
    apply List.find?_congr
    intro w hw
    rw [Bool.eq_iff_iff, Bool.and_eq_true, Bool.and_eq_true, List.isPrefixOf_iff_prefix,
      List.isPrefixOf_iff_prefix]
    by_cases hlen : w.length ≤ x.length
    · have hlt : w.length < (c :: x).length := by
        rw [List.length_cons]
        omega
      rw [List.drop_append_of_le_length (Nat.le_of_lt hlt), List.drop_eq_getElem_cons hlt]
      apply and_congr_left
      intro _
      exact ⟨fun h => List.prefix_of_prefix_length_le h (List.prefix_append _ y) (Nat.le_of_lt hlt),
        fun h => h.trans (List.prefix_append _ y)⟩
    · constructor
      · rintro ⟨hstarts, -⟩
        exact absurd (hshort w hw y hstarts) hlen
      · rintro ⟨hstarts, -⟩
        exact absurd (hshort w hw [] (by simpa using hstarts)) hlen
  · intro w h
    obtain ⟨-, hw, hstarts, -⟩ := wordAt?_eq_some h
    exact hshort w hw [] (by simpa using hstarts)

/-- The signal words of a text that ends at an edge, and those of what follows. -/
theorem findFrom_append (hwords : Wordly words) (pos skip : Nat) (before : Option Char)
    {x : Text} (hskip : skip ≤ x.length) (hx : isEdge x.getLast? = true) (y : Text) :
    findFrom words pos skip before (x ++ y) =
      findFrom words pos skip before x ++
        findFrom words (pos + x.length) 0 (x.getLast?.or before) y := by
  induction x generalizing pos skip before with
  | nil =>
    rw [List.length_nil, Nat.le_zero_eq] at hskip
    subst hskip
    rfl
  | cons c x ih =>
    have hpos : pos + (c :: x).length = pos + 1 + x.length := by
      rw [List.length_cons]
      omega
    have hrest := isEdge_of_cons hx
    rw [hpos, ← getLast?_cons_or, List.cons_append]
    cases skip with
    | succ skip =>
      rw [findFrom, findFrom]
      exact ih (pos + 1) skip (some c) (by simpa using hskip) hrest
    | zero =>
      obtain ⟨hsame, hlen⟩ := wordAt?_append hwords before hx y
      rw [List.cons_append] at hsame
      rw [findFrom, findFrom, hsame]
      cases h : wordAt? words before (c :: x) with
      | none => exact ih (pos + 1) 0 (some c) (Nat.zero_le _) hrest
      | some w =>
        have hle := hlen w h
        dsimp only
        rw [ih (pos + 1) (w.length - 1) (some c) (by omega) hrest]
        rfl

/-- The signal words around one of them. -/
theorem findFrom_around (hwords : Wordly words) (pos : Nat) {before : Option Char} {x w : Text}
    (hx : isEdge (x.getLast?.or before) = true) (hw : w ∈ words) {y : Text}
    (hy : isEdge y.head? = true) :
    findFrom words pos 0 before (x ++ (w ++ y)) =
      findFrom words pos 0 before x ++ ⟨pos + x.length, pos + x.length + w.length, w⟩ ::
        findFrom words (pos + x.length + w.length) 0 w.getLast? y := by
  have hlast : isEdge x.getLast? = true := by
    cases h : x.getLast? with
    | none => rfl
    | some c =>
      rw [h] at hx
      exact hx
  rw [findFrom_append hwords pos 0 before (Nat.zero_le _) hlast, findFrom_word hwords _ hw hx hy]

/-- Signal words further on in a line are the same words. -/
def add (k : Nat) (signal : Signal) : Signal :=
  ⟨signal.start + k, signal.stop + k, signal.word⟩

theorem map_add_zero (signals : List Signal) : signals.map (add 0) = signals := by
  induction signals with
  | nil => rfl
  | cons signal signals ih =>
    rw [List.map_cons, ih]
    rfl

theorem findFrom_add (k pos skip : Nat) (before : Option Char) (rest : Text) :
    findFrom words (pos + k) skip before rest = (findFrom words pos skip before rest).map (add k) := by
  induction rest generalizing pos skip before with
  | nil => rfl
  | cons c rest ih =>
    have hpos : pos + k + 1 = pos + 1 + k := by omega
    cases skip with
    | succ skip => rw [findFrom, findFrom, hpos, ih]
    | zero =>
      rw [findFrom, findFrom, hpos]
      cases wordAt? words before (c :: rest) with
      | none => exact ih _ _ _
      | some w =>
        dsimp only
        rw [ih, List.map_cons, add, Nat.add_right_comm]

/-- Where a signal word is found: between two edges of the text. -/
theorem exists_of_mem_findFrom {pos skip : Nat} {before : Option Char} {rest : Text}
    {signal : Signal} (h : signal ∈ findFrom words pos skip before rest) :
    ∃ x y, rest = x ++ (signal.word ++ y) ∧ signal.start = pos + x.length ∧
      signal.stop = signal.start + signal.word.length ∧ signal.word ∈ words ∧
      isEdge (x.getLast?.or before) = true ∧ isEdge y.head? = true := by
  induction rest generalizing pos skip before with
  | nil => cases h
  | cons c rest ih =>
    have hstep : ∀ {skip : Nat}, signal ∈ findFrom words (pos + 1) skip (some c) rest →
        ∃ x y, c :: rest = x ++ (signal.word ++ y) ∧ signal.start = pos + x.length ∧
          signal.stop = signal.start + signal.word.length ∧ signal.word ∈ words ∧
          isEdge (x.getLast?.or before) = true ∧ isEdge y.head? = true := by
      intro skip hmem
      obtain ⟨x, y, rfl, hstart, hstop, hw, hbefore, hy⟩ := ih hmem
      rw [getLast?_cons_or c x before] at hbefore
      refine ⟨c :: x, y, rfl, ?_, hstop, hw, hbefore, hy⟩
      rw [hstart, List.length_cons]
      omega
    cases skip with
    | succ skip => exact hstep h
    | zero =>
      rw [findFrom] at h
      cases hword : wordAt? words before (c :: rest) with
      | none =>
        rw [hword] at h
        exact hstep h
      | some w =>
        rw [hword] at h
        rcases List.mem_cons.1 h with rfl | h
        · obtain ⟨hbefore, hw, ⟨y, hy⟩, hedge⟩ := wordAt?_eq_some hword
          rw [← hy, List.drop_left] at hedge
          exact ⟨[], y, hy.symm, rfl, rfl, hw, hbefore, hedge⟩
        · exact hstep h

end TodoTracker.Signal
