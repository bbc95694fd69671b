import Mathlib
import TodoTracker.Proofs.Text.Numeral
import TodoTracker.Task.Anchor

/-!
# Written anchors that read back

The path of a written anchor ends at the first hash sign that a line number follows. So an anchor
reads back as it was written, whatever its line, exactly when nothing in its path looks like a line
number behind a hash sign and no blank stands in front. A path that was read from a written anchor
is such a path, and so is one without a hash sign.
-/

set_option autoImplicit false

namespace TodoTracker

namespace Text

/-- A text that neither starts nor ends with a blank stays as it is when it is trimmed. -/
theorem trim_eq_self {t : Text} (hhead : t.head?.any isBlank = false)
    (hlast : t.getLast?.any isBlank = false) : trim t = t := by
  have hfront : t.dropWhile isBlank = t := by
    cases t with
    | nil => rfl
    | cons c t => exact List.dropWhile_cons_of_neg (by simpa using hhead)
  have hback : t.reverse.dropWhile isBlank = t.reverse := by
    rw [← List.head?_reverse] at hlast
    cases hr : t.reverse with
    | nil => rfl
    | cons c r =>
      rw [hr] at hlast
      exact List.dropWhile_cons_of_neg (by simpa using hlast)
  rw [trim, trimWhen, trimEndWhen, hfront, hback, List.reverse_reverse]

theorem head?_dropWhile_isBlank (t : Text) : (t.dropWhile isBlank).head?.any isBlank = false := by
  induction t with
  | nil => rfl
  | cons c t ih =>
    by_cases hc : isBlank c = true
    · rw [List.dropWhile_cons_of_pos hc]
      exact ih
    · rw [List.dropWhile_cons_of_neg hc]
      simpa using hc

/-- A trimmed text does not start with a blank. -/
theorem head?_trim (t : Text) : (trim t).head?.any isBlank = false := by
  rw [trim, trimWhen, trimEndWhen]
  have hd := head?_dropWhile_isBlank t
  generalize t.dropWhile isBlank = u at hd
  obtain ⟨s, hs⟩ := List.dropWhile_suffix (l := u.reverse) isBlank
  have hu : u = (u.reverse.dropWhile isBlank).reverse ++ s.reverse := by
    rw [← List.reverse_append, hs, List.reverse_reverse]
  cases hv : (u.reverse.dropWhile isBlank).reverse with
  | nil => rfl
  | cons c v =>
    rw [hv] at hu
    rw [hu] at hd
    simpa using hd

end Text

namespace Anchor

/-- What is left after the letter that may stand in front of a line number. -/
def skipLetter : Text → Text
  | 'L' :: rest => rest
  | rest => rest

/-- The line number at the front of a text, when what follows it may follow a number. -/
theorem readLine?_eq (rest : Text) :
    readLine? rest =
      let digits := (skipLetter rest).takeWhile Text.isDigit
      let tail := (skipLetter rest).dropWhile Text.isDigit
      if digits.isEmpty || !(isEnd tail ||
        (tail.head?.any isSuffixMark && isEnd (tail.dropWhile (· != '\n')))) then none
      else some (Text.digitsValue digits) := by
  have hd : ∀ t : Text, t.drop (t.takeWhile Text.isDigit).length = t.dropWhile Text.isDigit := by
    intro t
    induction t with
    | nil => rfl
    | cons c t ih => by_cases hc : Text.isDigit c = true <;> simp [hc, ih]
  unfold readLine? skipLetter
  split <;> simp only [hd]

theorem not_isDigit_hash : Text.isDigit '#' = false := by decide

theorem not_isEnd_append_hash (g s : Text) : isEnd (g ++ '#' :: s) = false := by
  cases g with
  | nil => simp [isEnd]
  | cons c g => cases g <;> simp [isEnd]

/-- After a line number nothing but a line end follows the rest of the line. -/
theorem isEnd_of_readLine? {s : Text} {n : Nat} (h : readLine? s = some n) :
    isEnd (s.dropWhile (· != '\n')) = true := by
  rw [readLine?_eq] at h
  have hs : s.dropWhile (· != '\n') = (skipLetter s).dropWhile (· != '\n') := by
    unfold skipLetter
    split <;> simp
  have hdigits : (skipLetter s).dropWhile (· != '\n') =
      ((skipLetter s).dropWhile Text.isDigit).dropWhile (· != '\n') := by
    generalize skipLetter s = t
    induction t with
    | nil => rfl
    | cons c t ih =>
      by_cases hc : Text.isDigit c = true
      · have hn : c ≠ '\n' := by
          rintro rfl
          exact absurd hc (by decide)
        rw [List.dropWhile_cons_of_pos hc, List.dropWhile_cons_of_pos (by simpa using hn), ih]
      · rw [List.dropWhile_cons_of_neg hc]
  rw [hs, hdigits]
  dsimp only at h
  generalize (skipLetter s).dropWhile Text.isDigit = tail at h ⊢
  split at h
  · cases h
  · rename_i hfit
    simp only [Bool.or_eq_true, Bool.not_eq_true', not_or, Bool.not_eq_false,
      Bool.and_eq_true] at hfit
    rcases hfit.2 with he | ⟨-, he⟩
    · simp only [isEnd, Bool.or_eq_true, List.isEmpty_iff, beq_iff_eq] at he
      rcases he with rfl | rfl <;> rfl
    · exact he

theorem takeWhile_digits_append_hash (t s : Text) :
    (t ++ '#' :: s).takeWhile Text.isDigit = t.takeWhile Text.isDigit := by
  induction t with
  | nil => simp [not_isDigit_hash]
  | cons c t ih => by_cases hc : Text.isDigit c = true <;> simp [hc, ih]

theorem dropWhile_digits_append_hash (t s : Text) :
    (t ++ '#' :: s).dropWhile Text.isDigit = t.dropWhile Text.isDigit ++ '#' :: s := by
  induction t with
  | nil => simp [not_isDigit_hash]
  | cons c t ih => by_cases hc : Text.isDigit c = true <;> simp [hc, ih]

theorem skipLetter_append_hash (q s : Text) :
    skipLetter (q ++ '#' :: s) = skipLetter q ++ '#' :: s := by
  cases q with
  | nil => rfl
  | cons c q =>
    by_cases hc : c = 'L'
    · subst hc
      rfl
    · simp [skipLetter, hc]

theorem isEnd_rest_append_hash {s : Text} {n : Nat} (hs : readLine? s = some n) (g : Text) :
    isEnd ((g ++ '#' :: s).dropWhile (· != '\n')) = !g.contains '\n' := by
  induction g with
  | nil => simpa [List.dropWhile_cons] using isEnd_of_readLine? hs
  | cons c g ih =>
    by_cases hc : c = '\n'
    · subst hc
      simpa using not_isEnd_append_hash ('\n' :: g) s
    · rw [List.cons_append, List.dropWhile_cons_of_pos (by simpa using hc), ih]
      simp [Ne.symm hc]

/-- Whether a line number is read in front of a hash sign does not depend on what is written behind
the sign, as long as that is a line number too. -/
theorem isSome_readLine?_append_hash {s : Text} {n : Nat} (hs : readLine? s = some n) (q : Text) :
    (readLine? (q ++ '#' :: s)).isSome =
      (!((skipLetter q).takeWhile Text.isDigit).isEmpty &&
        (((skipLetter q).dropWhile Text.isDigit ++ ['#']).head?.any isSuffixMark &&
          !((skipLetter q).dropWhile Text.isDigit).contains '\n')) := by
  rw [readLine?_eq, skipLetter_append_hash]
  dsimp only
  rw [takeWhile_digits_append_hash, dropWhile_digits_append_hash]
  generalize (skipLetter q).takeWhile Text.isDigit = digits
  generalize (skipLetter q).dropWhile Text.isDigit = g
  have hhead : (g ++ '#' :: s).head? = (g ++ ['#']).head? := by cases g <;> rfl
  rw [not_isEnd_append_hash, isEnd_rest_append_hash hs, hhead, Bool.false_or]
  cases digits.isEmpty <;>
    cases ((g ++ ['#']).head?.any isSuffixMark && !g.contains '\n') <;> simp

/-- No hash sign in `f` is followed by a line number when `s` comes after `f`. -/
def Unmarked (f s : Text) : Prop :=
  ∀ p q : Text, f = p ++ '#' :: q → readLine? (q ++ s) = none

theorem Unmarked.tail {c : Char} {f s : Text} (h : Unmarked (c :: f) s) : Unmarked f s := by
  intro p q hf
  exact h (c :: p) q (by simp [hf])

theorem splitFrom_append {f s : Text} {n : Nat} (hf : Unmarked f ('#' :: s))
    (hs : readLine? s = some n) (before : Text) :
    splitFrom before (f ++ '#' :: s) = (before.reverse ++ f, some n) := by
  induction f generalizing before with
  | nil => simp [splitFrom, hs]
  | cons c f ih =>
    have hnext : splitFrom before (c :: (f ++ '#' :: s)) =
        splitFrom (c :: before) (f ++ '#' :: s) := by
      by_cases hc : c = '#'
      · subst hc
        simp [splitFrom, hf [] f rfl]
      · simp [splitFrom, hc]
    rw [List.cons_append, hnext, ih hf.tail]
    simp

theorem exists_of_splitFrom {before code file : Text} {n : Nat}
    (h : splitFrom before code = (file, some n)) :
    ∃ f s, code = f ++ '#' :: s ∧ file = before.reverse ++ f ∧ readLine? s = some n ∧
      Unmarked f ('#' :: s) := by
  induction code generalizing before with
  | nil => simp [splitFrom] at h
  | cons c code ih =>
    by_cases hread : c = '#' ∧ (readLine? code).isSome = true
    · obtain ⟨rfl, hsome⟩ := hread
      obtain ⟨m, hm⟩ := Option.isSome_iff_exists.1 hsome
      simp only [splitFrom, hm, BEq.rfl, Prod.mk.injEq, Option.some.injEq] at h
      obtain ⟨rfl, rfl⟩ := h
      exact ⟨[], code, rfl, by simp, hm, fun p q hp => by simp at hp⟩
    · have hnext : splitFrom before (c :: code) = splitFrom (c :: before) code := by
        rw [splitFrom]
        split
        · rename_i heq hm
          exact absurd ⟨by simpa using heq, by simp [hm]⟩ hread
        · rfl
      rw [hnext] at h
      obtain ⟨f, s, rfl, rfl, hs, hf⟩ := ih h
      refine ⟨c :: f, s, rfl, by simp, hs, ?_⟩
      intro p q hp
      cases p with
      | nil =>
        simp only [List.nil_append, List.cons.injEq] at hp
        obtain ⟨rfl, rfl⟩ := hp
        cases hq : readLine? (f ++ '#' :: s) with
        | none => rfl
        | some m => exact absurd ⟨rfl, by simp [hq]⟩ hread
      | cons d p =>
        simp only [List.cons_append, List.cons.injEq] at hp
        exact hf p q hp.2

/-- Every line of the file has a written anchor that reads back. -/
def Addressable (file : Text) : Prop :=
  ∀ line : Int, 1 ≤ line → ofCode? (codeOf file line) = some ⟨file, line⟩

theorem readLine?_letter_ofNat (n : Nat) : readLine? ('L' :: Text.ofNat n) = some n := by
  have hall : ∀ c ∈ Text.ofNat n, Text.isDigit c = true := fun c hc =>
    Text.isDigit_of_asciiDigit (Text.asciiDigit_of_mem_ofNat hc)
  have htake : (Text.ofNat n).takeWhile Text.isDigit = Text.ofNat n :=
    List.takeWhile_eq_self_iff.2 hall
  have hdrop : (Text.ofNat n).dropWhile Text.isDigit = [] := List.dropWhile_eq_nil_iff.2 hall
  rw [readLine?_eq]
  simp [skipLetter, htake, hdrop, isEnd, Text.ofNat_ne_nil, Text.digitsValue_ofNat]

theorem addressable_of_unmarked {file : Text} (hne : file ≠ [])
    (hhead : file.head?.any Text.isBlank = false)
    (hmark : ∀ n : Nat, Unmarked file ('#' :: 'L' :: Text.ofNat n)) : Addressable file := by
  intro line hline
  obtain ⟨n, rfl⟩ := Int.eq_ofNat_of_zero_le (show 0 ≤ line by omega)
  have hn : n ≠ 0 := by omega
  have hcode : codeOf file (n : Int) = file ++ '#' :: 'L' :: Text.ofNat n := by
    simp [codeOf, Text.ofInt]
  have htrim : Text.trim (file ++ '#' :: 'L' :: Text.ofNat n) =
      file ++ '#' :: 'L' :: Text.ofNat n := by
    apply Text.trim_eq_self
    · cases file with
      | nil => exact absurd rfl hne
      | cons c f => simpa using hhead
    · have hd := List.getLast?_eq_some_getLast (Text.ofNat_ne_nil n)
      generalize (Text.ofNat n).getLast (Text.ofNat_ne_nil n) = d at hd
      have hmem : d ∈ Text.ofNat n := List.mem_of_getLast? hd
      rw [List.getLast?_append, List.getLast?_cons, List.getLast?_cons, hd]
      simpa using Text.not_isBlank_of_asciiDigit (Text.asciiDigit_of_mem_ofNat hmem)
  rw [hcode, ofCode?, htrim, splitCode,
    splitFrom_append (hmark n) (readLine?_letter_ofNat n)]
  simp [hne, hn]

/-- Whether a text goes on as behind the hash sign of a written anchor: after the letter that may
stand in front it has digits, and behind them nothing or a mark, and no line feed. -/
def looksNumbered (q : Text) : Bool :=
  let digits := (skipLetter q).takeWhile Text.isDigit
  let tail := (skipLetter q).dropWhile Text.isDigit
  !digits.isEmpty && tail.head?.all isSuffixMark && !tail.contains '\n'

/-- A path that no reader cuts short or trims: it does not start with a blank, and nothing that
looks like a line number follows a hash sign in it. -/
structure Readable (file : Text) : Prop where
  nonempty : file ≠ []
  head : file.head?.any Text.isBlank = false
  hash : ∀ q : Text, '#' :: q <:+ file → looksNumbered q = false

instance (file : Text) : Decidable (Readable file) :=
  decidable_of_iff (file ≠ [] ∧ file.head?.any Text.isBlank = false ∧
      ∀ t ∈ file.tails, t.head? = some '#' → looksNumbered t.tail = false) <| by
    constructor
    · rintro ⟨hne, hhead, hhash⟩
      exact ⟨hne, hhead, fun q hq => hhash ('#' :: q) ((List.mem_tails _ _).2 hq) rfl⟩
    · rintro ⟨hne, hhead, hhash⟩
      refine ⟨hne, hhead, fun t ht hsign => hhash t.tail ?_⟩
      obtain ⟨q, rfl⟩ := List.head?_eq_some_iff.1 hsign
      exact (List.mem_tails _ _).1 ht

theorem isSome_readLine?_eq_looksNumbered {s : Text} {n : Nat} (hs : readLine? s = some n)
    (q : Text) : (readLine? (q ++ '#' :: s)).isSome = looksNumbered q := by
  rw [isSome_readLine?_append_hash hs, looksNumbered]
  generalize (skipLetter q).dropWhile Text.isDigit = tail
  cases tail <;> simp [isSuffixMark, Bool.and_assoc]

/-- With a line number behind the path, a line number is read earlier exactly when something in the
path looks like one. -/
theorem unmarked_iff {file s : Text} {n : Nat} (hs : readLine? s = some n) :
    Unmarked file ('#' :: s) ↔ ∀ q : Text, '#' :: q <:+ file → looksNumbered q = false := by
  constructor
  · rintro hmark q ⟨p, hp⟩
    rw [← isSome_readLine?_eq_looksNumbered hs, hmark p q hp.symm]
    rfl
  · intro hhash p q hfile
    rw [← Option.isNone_iff_eq_none, ← Option.not_isSome, isSome_readLine?_eq_looksNumbered hs,
      hhash q ⟨p, hfile.symm⟩]
    rfl

theorem Readable.addressable {file : Text} (h : Readable file) : Addressable file :=
  addressable_of_unmarked h.nonempty h.head fun n =>
    (unmarked_iff (readLine?_letter_ofNat n)).2 h.hash

theorem readable_of_ofCode? {code : Text} {anchor : Anchor} (h : ofCode? code = some anchor) :
    Readable anchor.file := by
  have hhead := Text.head?_trim code
  rw [ofCode?] at h
  split at h
  · rename_i file n hsplit
    split at h
    · cases h
    · rename_i hfits
      cases h
      have hne : file ≠ [] := by
        rintro rfl
        simp at hfits
      obtain ⟨f, s, hcode, hfile, hs, hf⟩ := exists_of_splitFrom hsplit
      rw [List.reverse_nil, List.nil_append] at hfile
      subst hfile
      refine ⟨hne, ?_, (unmarked_iff hs).1 hf⟩
      rw [hcode] at hhead
      cases file with
      | nil => exact absurd rfl hne
      | cons c f => simpa using hhead
  · cases h

/-- A path that was read from a written anchor can be written with any line. -/
theorem addressable_of_ofCode? {code : Text} {anchor : Anchor} (h : ofCode? code = some anchor) :
    Addressable anchor.file :=
  (readable_of_ofCode? h).addressable

/-- A written anchor reads back exactly when its path is readable, whatever its line. -/
theorem ofCode?_codeOf {file : Text} {line : Int} (hline : 1 ≤ line) :
    ofCode? (codeOf file line) = some ⟨file, line⟩ ↔ Readable file :=
  ⟨readable_of_ofCode?, fun h => h.addressable line hline⟩

theorem line_pos_of_ofCode? {code : Text} {anchor : Anchor} (h : ofCode? code = some anchor) :
    1 ≤ anchor.line := by
  rw [ofCode?] at h
  split at h
  · split at h
    · cases h
    · rename_i hfits
      cases h
      simp only [Bool.or_eq_true, beq_iff_eq, not_or] at hfits
      simp only
      omega
  · cases h

/-- A path without a hash sign and without blanks around it. -/
structure IsPlain (file : Text) : Prop where
  nonempty : file ≠ []
  hash : '#' ∉ file
  trimmed : Text.trim file = file

theorem IsPlain.addressable {file : Text} (h : IsPlain file) : Addressable file := by
  refine addressable_of_unmarked h.nonempty (h.trimmed ▸ Text.head?_trim file) ?_
  intro n p q hq
  exact absurd (by simp [hq]) h.hash

/-- An anchor as a reader gives it. -/
structure IsWritten (anchor : Anchor) : Prop where
  addressable : Addressable anchor.file
  line_pos : 1 ≤ anchor.line

theorem isWritten_of_ofCode? {code : Text} {anchor : Anchor} (h : ofCode? code = some anchor) :
    anchor.IsWritten :=
  ⟨addressable_of_ofCode? h, line_pos_of_ofCode? h⟩

end Anchor

end TodoTracker
