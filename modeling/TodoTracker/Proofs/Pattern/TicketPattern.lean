import Mathlib
import TodoTracker.Settings.Basic

/-!
# The default ticket pattern

The default pattern takes a capital letter, more capital letters or digits, a hyphen and digits,
between two word boundaries. Each part takes as much as it can and what follows fits only there, so
the match at a place is found without going back.
-/

set_option autoImplicit false

namespace TodoTracker

namespace Pattern

def upperSet : CharClass := ⟨[.range 65 90], false, .exact⟩

def keySet : CharClass := ⟨[.range 65 90, .range 48 57], false, .exact⟩

def hyphenSet : CharClass := ⟨[.one 45], false, .exact⟩

def digitSet : CharClass := ⟨[.category .digit false false], false, .exact⟩

def edge : Node := .condition (.boundary false false)

/-- The tree of a key: the part in front of the hyphen, the hyphen and the number. -/
def keyNode : Node :=
  .seq (.char upperSet) (.seq (.loop .greedy 1 none (.char keySet))
    (.seq (.char hyphenSet) (.loop .greedy 1 none (.char digitSet))))

end Pattern

/-- The default ticket pattern. -/
def ticketPattern : Pattern := ⟨.seq Pattern.edge (.seq (.group 1 Pattern.keyNode) Pattern.edge), 1⟩

theorem compilePatterns_default :
    compilePatterns ({} : Settings).ticketPatterns = .ok [ticketPattern] := by
  cbv

namespace Pattern

/-- The place `n` characters further on. -/
def Place.advance (place : Place) (n : Nat) : Place :=
  ⟨place.pos + n, (place.rest.take n).reverse ++ place.before, place.rest.drop n, place.marks⟩

theorem Place.advance_zero (place : Place) : place.advance 0 = place := by
  simp [advance]

theorem Place.advance_next (place : Place) (c : Char) (rest : Text) (n : Nat)
    (h : place.rest = c :: rest) : (place.next c rest).advance n = place.advance (n + 1) := by
  simp only [advance, next, h, List.take_succ_cons, List.drop_succ_cons, List.reverse_cons,
    List.append_assoc, List.singleton_append, Place.mk.injEq, and_true]
  omega

theorem run_char (set : CharClass) (follow : Follow) (place : Place) :
    (Node.char set).run follow place =
      match place.rest with
      | c :: rest => if set.contains c then follow (place.next c rest) else none
      | [] => none := by
  cases hrest : place.rest <;> simp only [Node.run, hrest]

/-- Rounds over the characters of a set end behind the last of them, when what follows fits nowhere
before. -/
theorem moreRounds_char {set : CharClass} {follow : Follow} {fuel : Nat} {place : Place}
    (hfuel : place.rest.length < fuel)
    (hshort : ∀ n < (place.rest.takeWhile set.contains).length,
      follow (place.advance n) = none) :
    moreRounds true (Node.char set).run follow fuel none place =
      follow (place.advance (place.rest.takeWhile set.contains).length) := by
  induction fuel generalizing place with
  | zero => omega
  | succ fuel ih =>
    rw [moreRounds]
    simp only [reduceCtorEq, if_false, if_true, Option.map_none, run_char]
    cases hrest : place.rest with
    | nil => simp [Place.advance_zero]
    | cons c rest =>
      rw [hrest] at hshort hfuel
      by_cases hc : set.contains c = true
      · have hpos : (place.next c rest).pos ≠ place.pos := by simp [Place.next]
        have hadvance := place.advance_next c rest
        have hround : moreRounds true (Node.char set).run follow fuel none (place.next c rest) =
            follow (place.advance ((rest.takeWhile set.contains).length + 1)) := by
          rw [ih (by simpa [Place.next] using hfuel), hadvance _ hrest]
          · rfl
          · intro n hn
            rw [hadvance _ hrest]
            exact hshort (n + 1) (by simpa [hc, Place.next] using hn)
        simp only [hc, if_true, hpos, if_false, List.takeWhile_cons_of_pos, List.length_cons,
          hround]
        cases hdone : follow (place.advance ((rest.takeWhile set.contains).length + 1)) with
        | some done => rfl
        | none =>
          have hzero := hshort 0 (by simp [hc])
          rw [Place.advance_zero] at hzero
          exact hzero
      · simp [hc, Place.advance_zero]

/-- At least one character of a set, as many as there are. -/
theorem run_loop_char {set : CharClass} {follow : Follow} {place : Place}
    (hshort : ∀ n, 0 < n → n < (place.rest.takeWhile set.contains).length →
      follow (place.advance n) = none) :
    (Node.loop .greedy 1 none (.char set)).run follow place =
      if (place.rest.takeWhile set.contains).isEmpty then none
      else follow (place.advance (place.rest.takeWhile set.contains).length) := by
  have hrun : (Node.loop .greedy 1 none (.char set)).run follow place =
      (Node.char set).run (fun after =>
        moreRounds true (Node.char set).run follow (after.rest.length + 1) none after) place := by
    rw [Node.run]
    rfl
  rw [hrun, run_char]
  cases hrest : place.rest with
  | nil => simp
  | cons c rest =>
    rw [hrest] at hshort
    by_cases hc : set.contains c = true
    · have hadvance := place.advance_next c rest
      simp only [hc, if_true, List.takeWhile_cons_of_pos, List.isEmpty_cons, Bool.false_eq_true,
        if_false, List.length_cons]
      rw [← hadvance _ hrest]
      apply moreRounds_char
      · simp
      · intro n hn
        rw [hadvance _ hrest]
        exact hshort (n + 1) (by omega) (by simpa [hc, Place.next] using hn)
    · simp [hc]

theorem upperSet_contains (c : Char) : upperSet.contains c = Text.isAsciiUpper c := by
  simp [upperSet, CharClass.contains, ClassItem.contains, Folding.variants, Text.isAsciiUpper]

theorem keySet_contains (c : Char) :
    keySet.contains c = (Text.isAsciiUpper c || Text.isAsciiDigit c) := by
  simp [keySet, CharClass.contains, ClassItem.contains, Folding.variants, Text.isAsciiUpper,
    Text.isAsciiDigit]

theorem hyphenSet_contains (c : Char) : hyphenSet.contains c = (c == '-') := by
  have hnat : (c.toNat == 45) = (c == '-') := by
    rw [Bool.eq_iff_iff, beq_iff_eq, beq_iff_eq]
    exact ⟨fun h => Char.toNat_inj.1 h, fun h => h ▸ rfl⟩
  simp [hyphenSet, CharClass.contains, ClassItem.contains, Folding.variants, hnat]

theorem digitSet_contains (c : Char) : digitSet.contains c = Text.isDigit c := by
  simp [digitSet, CharClass.contains, ClassItem.contains, Folding.lower, Category.contains]

/-- The number of characters of the key at the start of `rest`, when `before` is the character at
its left. -/
def keyLength? (before : Option Char) (rest : Text) : Option Nat :=
  if before.any Text.isWord then none
  else match rest with
    | c :: tail =>
      let letters := tail.takeWhile keySet.contains
      if !upperSet.contains c || letters.isEmpty then none
      else match tail.drop letters.length with
        | '-' :: number =>
          let digits := number.takeWhile digitSet.contains
          if digits.isEmpty || (number.drop digits.length).head?.any Text.isWord then none
          else some (letters.length + digits.length + 2)
        | _ => none
    | [] => none

/-- The place behind a key of `n` characters, its group recorded. -/
def Place.behind (place : Place) (n : Nat) : Place :=
  ((place.mark 2).advance n).mark 3

theorem Place.next_eq_advance {place : Place} {c : Char} {rest : Text}
    (h : place.rest = c :: rest) : place.next c rest = place.advance 1 := by
  rw [← place.advance_next c rest 0 h, Place.advance_zero]

theorem Place.advance_advance (place : Place) (m n : Nat) :
    (place.advance m).advance n = place.advance (m + n) := by
  simp only [advance, List.drop_drop, List.take_add, List.reverse_append, List.append_assoc,
    Nat.add_assoc]

theorem Place.head?_before_advance (place : Place) {n : Nat} (hn : n < place.rest.length) :
    (place.advance (n + 1)).before.head? = place.rest[n]? := by
  simp only [advance, List.take_add_one, List.getElem?_eq_getElem hn, List.reverse_append]
  rfl

theorem isWord_of_isDigit {c : Char} (h : Text.isDigit c = true) : Text.isWord c = true := by
  simp [Text.isWord, h]

/-- A place is between a word character and another one. -/
theorem satisfies_edge (place : Place) :
    place.satisfies (.boundary false false) =
      (place.before.head?.any Text.isWord != place.rest.head?.any Text.isWord) := by
  have hcategory : Category.word.contains false = Text.isWord := rfl
  rw [Place.satisfies, Place.wordBefore, Place.wordAfter, hcategory]
  cases place.before <;> cases place.rest <;> simp

theorem run_edge_after_word (follow : Follow) {place : Place}
    (h : place.before.head?.any Text.isWord = true) :
    edge.run follow place = if place.rest.head?.any Text.isWord then none else follow place := by
  rw [edge, Node.run, satisfies_edge, h]
  cases place.rest.head?.any Text.isWord <;> rfl

theorem run_edge_before_word (follow : Follow) {place : Place}
    (h : place.rest.head?.any Text.isWord = true) :
    edge.run follow place = if place.before.head?.any Text.isWord then none else follow place := by
  rw [edge, Node.run, satisfies_edge, h]
  cases place.before.head?.any Text.isWord <;> rfl

theorem run_edge_eq_none {follow : Follow} {place : Place} (h : follow place = none) :
    edge.run follow place = none := by
  rw [edge, Node.run, h, ite_self]

theorem getElem?_takeWhile_some {p : Char → Bool} {t : Text} {n : Nat}
    (h : n < (t.takeWhile p).length) : ∃ c, t[n]? = some c ∧ p c = true := by
  induction t generalizing n with
  | nil => simp at h
  | cons c t ih =>
    by_cases hc : p c = true
    · rw [List.takeWhile_cons_of_pos hc, List.length_cons] at h
      cases n with
      | zero => exact ⟨c, rfl, hc⟩
      | succ n => exact ih (by omega)
    · rw [List.takeWhile_cons_of_neg hc] at h
      simp at h

/-- The number of a key is all the digits there are, and no word character follows. -/
theorem run_number (follow : Follow) (place : Place) :
    (Node.loop .greedy 1 none (.char digitSet)).run
        (fun after => edge.run follow (after.mark 3)) place =
      let digits := place.rest.takeWhile digitSet.contains
      if digits.isEmpty || (place.rest.drop digits.length).head?.any Text.isWord then none
      else follow ((place.advance digits.length).mark 3) := by
  dsimp only
  have hbefore : ∀ n, 0 < n → n ≤ (place.rest.takeWhile digitSet.contains).length →
      (place.advance n).before.head?.any Text.isWord = true := by
    intro n hpos hn
    obtain ⟨m, rfl⟩ : ∃ m, n = m + 1 := ⟨n - 1, by omega⟩
    have hm : m < (place.rest.takeWhile digitSet.contains).length := by omega
    have hle := (List.takeWhile_prefix digitSet.contains (l := place.rest)).length_le
    obtain ⟨c, hc, hdigit⟩ := getElem?_takeWhile_some hm
    rw [place.head?_before_advance (by omega), hc]
    exact isWord_of_isDigit (digitSet_contains c ▸ hdigit)
  rw [run_loop_char]
  · by_cases hempty : (place.rest.takeWhile digitSet.contains).isEmpty = true
    · simp [hempty]
    · have hpos := List.length_pos_iff.2 (mt List.isEmpty_iff.2 hempty)
      have hword := hbefore _ hpos (Nat.le_refl _)
      have hfalse : (place.rest.takeWhile digitSet.contains).isEmpty = false :=
        Bool.eq_false_iff.2 hempty
      rw [if_neg hempty, run_edge_after_word _ (by exact hword), hfalse, Bool.false_or]
      rfl
  · intro n hpos hn
    obtain ⟨c, hc, hdigit⟩ := getElem?_takeWhile_some hn
    have hrest : (place.advance n).rest.head? = some c := by
      rw [Place.advance, List.head?_drop, hc]
    have hword := isWord_of_isDigit (digitSet_contains c ▸ hdigit)
    rw [run_edge_after_word _ (by exact hbefore n hpos (Nat.le_of_lt hn))]
    exact if_pos (by rw [Place.mark, hrest]; exact hword)

theorem run_hyphen (follow : Follow) (place : Place) :
    (Node.char hyphenSet).run follow place =
      match place.rest with
      | '-' :: _ => follow (place.advance 1)
      | _ => none := by
  rw [run_char]
  cases hrest : place.rest with
  | nil => rfl
  | cons c rest =>
    dsimp only
    rw [hyphenSet_contains, ← Place.next_eq_advance hrest]
    by_cases hc : c = '-'
    · subst hc
      rfl
    · simp [hc]

/-- The letters and digits of a key end at the first hyphen. -/
theorem run_letters (follow : Follow) (place : Place) :
    (Node.loop .greedy 1 none (.char keySet)).run ((Node.char hyphenSet).run follow) place =
      let letters := place.rest.takeWhile keySet.contains
      if letters.isEmpty then none
      else match place.rest.drop letters.length with
        | '-' :: _ => follow (place.advance (letters.length + 1))
        | _ => none := by
  dsimp only
  rw [run_loop_char]
  · rw [run_hyphen, Place.advance_advance]
    rfl
  · intro n _ hn
    obtain ⟨c, hc, hkey⟩ := getElem?_takeWhile_some hn
    have hhead : (place.advance n).rest.head? = some c := by
      rw [Place.advance, List.head?_drop, hc]
    rw [run_hyphen]
    cases hrest : (place.advance n).rest with
    | nil => rfl
    | cons d rest =>
      rw [hrest] at hhead
      cases hhead
      have hne : c ≠ '-' := by
        rintro rfl
        revert hkey
        decide
      split
      · rename_i heq
        cases heq
        exact absurd rfl hne
      · rfl

/-- The default pattern takes the key at a place and goes on behind it. -/
theorem run_ticketPattern (follow : Follow) (place : Place) :
    ticketPattern.node.run follow place =
      (keyLength? place.before.head? place.rest).bind fun n => follow (place.behind n) := by
  have hrun : ticketPattern.node.run follow place =
      edge.run (fun start => (Node.char upperSet).run
        ((Node.loop .greedy 1 none (.char keySet)).run ((Node.char hyphenSet).run
          ((Node.loop .greedy 1 none (.char digitSet)).run
            (fun after => edge.run follow (after.mark 3))))) (start.mark 2)) place := rfl
  rw [hrun]
  cases hrest : place.rest with
  | nil =>
    rw [run_edge_eq_none]
    · cases hbefore : place.before.head?.any Text.isWord <;> simp [keyLength?, hbefore]
    · simp [run_char, Place.mark, hrest]
  | cons c tail =>
    by_cases hupper : upperSet.contains c = true
    · have hword : place.rest.head?.any Text.isWord = true := by
        rw [upperSet_contains] at hupper
        simp [hrest, Text.isWord, Text.isAsciiWord, hupper]
      have hmark : (place.mark 2).rest = c :: tail := hrest
      have hnext : (place.mark 2).next c tail = (place.mark 2).advance 1 :=
        Place.next_eq_advance hmark
      have htail : ((place.mark 2).advance 1).rest = tail := by simp [Place.advance, hmark]
      rw [run_edge_before_word _ hword, run_char, hmark, keyLength?]
      dsimp only
      rw [if_pos hupper, hupper, hnext, run_letters, htail]
      dsimp only
      split
      · rfl
      · cases hletters : (tail.takeWhile keySet.contains).isEmpty with
        | true => rfl
        | false =>
          simp only [Bool.not_true, Bool.false_or, Bool.false_eq_true, if_false]
          split
          · rename_i number hnumber
            rw [run_number, Place.advance_advance]
            generalize tail.takeWhile keySet.contains = letters at hnumber ⊢
            have hrest' : ((place.mark 2).advance (1 + (letters.length + 1))).rest = number := by
              rw [Place.advance, hmark, ← List.drop_drop, ← List.drop_drop]
              simp [hnumber]
            dsimp only
            rw [hrest', Place.advance_advance]
            generalize number.takeWhile digitSet.contains = digits
            split
            · rfl
            · rw [Option.bind_some, Place.behind]
              congr 3
              omega
          · rfl
    · rw [run_edge_eq_none]
      · cases hbefore : place.before.head?.any Text.isWord <;> simp [keyLength?, hbefore, hupper]
      · simp [run_char, Place.mark, hrest, hupper]

theorem keyLength?_nil (before : Option Char) : keyLength? before [] = none := by
  rw [keyLength?.eq_def]
  split <;> rfl

/-- A key is neither empty nor longer than the text. -/
theorem keyLength?_le {before : Option Char} {rest : Text} {n : Nat}
    (h : keyLength? before rest = some n) : 2 ≤ n ∧ n ≤ rest.length := by
  rw [keyLength?.eq_def] at h
  split at h
  · cases h
  · split at h
    · rename_i c tail
      dsimp only at h
      split at h
      · cases h
      · split at h
        · rename_i number hnumber
          split at h
          · cases h
          · cases h
            have hlen := congrArg List.length hnumber
            have hdigits := (List.takeWhile_prefix digitSet.contains (l := number)).length_le
            simp only [List.length_drop, List.length_cons] at hlen ⊢
            omega
        · cases h
    · cases h

/-- The match of a key from column `start` on. -/
def keyMatch (start n : Nat) : Match := ⟨start, start + n, some (start, start + n)⟩

theorem match_of_behind (start : Nat) (place : Place) (n : Nat) (hstart : place.pos = start)
    (hmarks : place.marks = []) : Match.of start (place.behind n) = keyMatch start n := by
  subst hstart
  simp [Match.of, keyMatch, Place.behind, Place.mark, Place.advance, Place.group?, Place.markAt?,
    hmarks]

theorem enter_rest (line : Text) (start stop : Nat) :
    (Place.enter line start stop).rest = Text.slice line start stop := rfl

theorem enter_before (line : Text) (start stop : Nat) :
    (Place.enter line start stop).before.head? = ((line.take stop).take start).getLast? := by
  rw [Place.enter, List.head?_reverse]

theorem enter_pos {line : Text} {start stop : Nat} (h : Text.slice line start stop ≠ []) :
    (Place.enter line start stop).pos = start := by
  have hlt : start < (line.take stop).length := by
    rw [Text.slice, ne_eq, List.drop_eq_nil_iff] at h
    omega
  exact Nat.min_eq_left (Nat.le_of_lt hlt)

theorem match?_ticketPattern (line : Text) (start stop : Nat) :
    ticketPattern.match? line start stop =
      (keyLength? ((line.take stop).take start).getLast? (Text.slice line start stop)).map
        (keyMatch start) := by
  rw [match?, run_ticketPattern, enter_before, enter_rest]
  cases hkey : keyLength? ((line.take stop).take start).getLast? (Text.slice line start stop) with
  | none => rfl
  | some n =>
    have hne : Text.slice line start stop ≠ [] := by
      intro hnil
      rw [hnil, keyLength?_nil] at hkey
      cases hkey
    simp only [Option.bind_some, Option.map_some]
    rw [match_of_behind start _ n (enter_pos hne) rfl]

theorem fullMatch?_ticketPattern (line : Text) (start stop : Nat) :
    ticketPattern.fullMatch? line start stop =
      (keyLength? ((line.take stop).take start).getLast? (Text.slice line start stop)).bind
        fun n => if n = (Text.slice line start stop).length then some (keyMatch start n)
          else none := by
  rw [fullMatch?, run_ticketPattern, enter_before, enter_rest]
  cases hkey : keyLength? ((line.take stop).take start).getLast? (Text.slice line start stop) with
  | none => rfl
  | some n =>
    have hle := (keyLength?_le hkey).2
    have hne : Text.slice line start stop ≠ [] := by
      intro hnil
      rw [hnil, keyLength?_nil] at hkey
      cases hkey
    have hrest : ((Place.enter line start stop).behind n).rest =
        (Text.slice line start stop).drop n := rfl
    have hempty : ((Text.slice line start stop).drop n).isEmpty = true ↔
        n = (Text.slice line start stop).length := by
      rw [List.isEmpty_iff, List.drop_eq_nil_iff]
      omega
    simp only [Option.bind_some, hrest, hempty]
    split
    · rw [Option.map_some, match_of_behind start _ n (enter_pos hne) rfl]
    · rfl

/-- The keys from column `pos` on, when `skip` characters still belong to the one found last and
`before` is the character at the left. -/
def keysFrom (pos skip : Nat) (before : Option Char) : Text → List (Nat × Nat)
  | [] => []
  | c :: rest =>
    match skip with
    | skip + 1 => keysFrom (pos + 1) skip (some c) rest
    | 0 =>
      match keyLength? before (c :: rest) with
      | some n => (pos, n) :: keysFrom (pos + 1) (n - 1) (some c) rest
      | none => keysFrom (pos + 1) 0 (some c) rest

theorem keysFrom_skip (pos skip : Nat) (before : Option Char) {rest : Text}
    (h : skip < rest.length) :
    keysFrom pos (skip + 1) before rest =
      keysFrom (pos + (skip + 1)) 0 rest[skip]? (rest.drop (skip + 1)) := by
  induction skip generalizing pos before rest with
  | zero =>
    cases rest with
    | nil => simp at h
    | cons c rest => rfl
  | succ skip ih =>
    cases rest with
    | nil => simp at h
    | cons c rest =>
      rw [keysFrom, ih _ _ (by simpa using h), List.getElem?_cons_succ, List.drop_succ_cons]
      congr 1
      omega

theorem attempt_ticketPattern (advance : Bool) (pos : Nat) (before rest : Text) :
    searchFrom.attempt ticketPattern advance pos ⟨pos, before, rest, []⟩ =
      (keyLength? before.head? rest).map fun n =>
        (keyMatch pos n, (⟨pos, before, rest, []⟩ : Place).behind n) := by
  rw [searchFrom.attempt, run_ticketPattern]
  cases hkey : keyLength? before.head? rest with
  | none => rfl
  | some n =>
    have hpos : ((⟨pos, before, rest, []⟩ : Place).behind n).pos ≠ pos := by
      have hn := (keyLength?_le hkey).1
      simp only [Place.behind, Place.mark, Place.advance]
      omega
    simp only [Option.bind_some, hpos, and_false, if_false, Option.map_some]
    rw [match_of_behind pos _ n rfl rfl]

/-- A search finds the first key and leaves the others behind it. -/
theorem searchFrom_ticketPattern (advance : Bool) (pos : Nat) (before rest : Text) :
    ticketPattern.searchFrom advance pos before rest = none ∧ keysFrom pos 0 before.head? rest = [] ∨
    ∃ found after n, ticketPattern.searchFrom advance pos before rest = some (found, after) ∧
      found = keyMatch found.start n ∧ 2 ≤ n ∧ after.rest.length < rest.length ∧
      keysFrom pos 0 before.head? rest =
        (found.start, n) :: keysFrom after.pos 0 after.before.head? after.rest := by
  induction rest generalizing advance pos before with
  | nil =>
    left
    rw [searchFrom, attempt_ticketPattern, keyLength?_nil]
    exact ⟨rfl, rfl⟩
  | cons c rest ih =>
    rw [searchFrom, attempt_ticketPattern, keysFrom]
    cases hkey : keyLength? before.head? (c :: rest) with
    | none =>
      dsimp only [Option.map_none]
      rcases ih false (pos + 1) (c :: before) with ⟨hsearch, hkeys⟩ | hfound
      · exact .inl ⟨hsearch, hkeys⟩
      · obtain ⟨found, after, n, hsearch, hmatch, hn, hlen, hkeys⟩ := hfound
        exact .inr ⟨found, after, n, hsearch, hmatch, hn, by simp; omega, hkeys⟩
    | some n =>
      right
      obtain ⟨hn, hle⟩ := keyLength?_le hkey
      refine ⟨_, _, n, rfl, rfl, hn, ?_, ?_⟩
      · simp only [Place.behind, Place.mark, Place.advance, List.length_drop]
        omega
      · obtain ⟨m, rfl⟩ : ∃ m, n = m + 2 := ⟨n - 2, by omega⟩
        have hm : m < rest.length := by
          rw [List.length_cons] at hle
          omega
        have hbehind : ((⟨pos, before, c :: rest, []⟩ : Place).behind (m + 2)).before.head? =
            rest[m]? := by
          have hadvance := ((⟨pos, before, c :: rest, []⟩ : Place).mark 2).head?_before_advance
            (n := m + 1) (by simpa [Place.mark] using hm)
          simpa [Place.behind, Place.mark] using hadvance
        rw [hbehind]
        simp only [keyMatch]
        rw [show m + 2 - 1 = m + 1 by omega, keysFrom_skip _ _ _ hm]
        simp only [Place.behind, Place.mark, Place.advance, List.drop_succ_cons]
        congr 2
        omega

theorem matchesFrom_ticketPattern (fuel : Nat) (advance : Bool) (place : Place)
    (hfuel : place.rest.length < fuel) :
    ticketPattern.matchesFrom fuel advance place =
      (keysFrom place.pos 0 place.before.head? place.rest).map fun key =>
        keyMatch key.1 key.2 := by
  induction fuel generalizing advance place with
  | zero => omega
  | succ fuel ih =>
    rw [matchesFrom]
    rcases searchFrom_ticketPattern advance place.pos place.before place.rest with
      ⟨hsearch, hkeys⟩ | ⟨found, after, n, hsearch, hmatch, -, hlen, hkeys⟩
    · rw [hsearch, hkeys]
      rfl
    · rw [hsearch, hkeys]
      dsimp only
      rw [ih _ after (by omega), List.map_cons, ← hmatch]

/-- The matches of the default pattern in a window. -/
theorem findAll_ticketPattern {line : Text} {start stop : Nat} (h : start ≤ stop) :
    ticketPattern.findAll line start stop =
      (keysFrom start 0 ((line.take stop).take start).getLast? (Text.slice line start stop)).map
        fun key => keyMatch key.1 key.2 := by
  rw [findAll, if_pos h]
  dsimp only
  rw [matchesFrom_ticketPattern _ _ _ (by omega), enter_before, enter_rest]
  by_cases hnil : Text.slice line start stop = []
  · rw [hnil]
    rfl
  · rw [enter_pos hnil]

/-- Keys further on in a line are the same keys. -/
theorem keysFrom_add (k pos skip : Nat) (before : Option Char) (rest : Text) :
    keysFrom (pos + k) skip before rest =
      (keysFrom pos skip before rest).map fun key => (key.1 + k, key.2) := by
  induction rest generalizing pos skip before with
  | nil => rfl
  | cons c rest ih =>
    have hpos : pos + k + 1 = pos + 1 + k := by omega
    cases skip with
    | succ skip => rw [keysFrom, keysFrom, hpos, ih]
    | zero =>
      rw [keysFrom, keysFrom, hpos]
      cases keyLength? before (c :: rest) with
      | none => exact ih _ _ _
      | some n =>
        dsimp only
        rw [ih, List.map_cons]

/-- Keys are found inside of the window. -/
theorem le_of_mem_keysFrom {pos skip : Nat} {before : Option Char} {rest : Text} {key : Nat × Nat}
    (h : key ∈ keysFrom pos skip before rest) :
    pos ≤ key.1 ∧ 2 ≤ key.2 ∧ key.1 + key.2 ≤ pos + rest.length := by
  induction rest generalizing pos skip before with
  | nil => cases h
  | cons c rest ih =>
    rw [List.length_cons]
    cases skip with
    | succ skip =>
      have := ih h
      omega
    | zero =>
      rw [keysFrom] at h
      cases hkey : keyLength? before (c :: rest) with
      | none =>
        rw [hkey] at h
        have := ih h
        omega
      | some n =>
        have hn := keyLength?_le hkey
        rw [List.length_cons] at hn
        rw [hkey] at h
        rcases List.mem_cons.1 h with rfl | h
        · dsimp only
          omega
        · have := ih h
          omega

end Pattern

end TodoTracker
