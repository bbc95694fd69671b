import TodoTracker.Git.Status
import TodoTracker.Proofs.Anchor.Code
import TodoTracker.Proofs.Git.Quoted
import TodoTracker.Proofs.Text.Search

/-!
# Entries of status reports

An entry has two letters, a blank, and one path, or two with an arrow between them. A path stands
between quotes exactly if there is a blank in it. The text of an entry is cut at its first arrow,
before the quotes are taken off. So it is read as what it says if the path that stands first has no
arrow in it. An arrow in that path is inside of quotes, and then each of the two pieces has an odd
number of quotes, of which reading takes off none or two. So a quote is left in what is read.
-/

set_option autoImplicit false

namespace TodoTracker

namespace Text

theorem breakLines_append {line : Text} (h : ∀ c ∈ line, isLineBreak c = false) (rest : Text) :
    breakLines (line ++ '\n' :: rest) = line :: breakLines rest := by
  induction line with
  | nil => rfl
  | cons c line ih =>
    obtain ⟨hc, hline⟩ := List.forall_mem_cons.1 h
    have hreturn : c ≠ '\r' := by
      rintro rfl
      cases hc
    rw [List.cons_append, breakLines, ih hline]
    · simp [hc]
    · rintro more rfl
      exact absurd rfl hreturn

/-- A text is cut into what stands around the separator. -/
theorem eq_of_cut? {sep t a b : Text} (h : cut? sep t = some (a, b)) : t = a ++ (sep ++ b) := by
  obtain ⟨i, hi, hcut⟩ := Option.map_eq_some_iff.1 h
  cases hcut
  obtain ⟨more, hmore⟩ := (indexOf?_eq_some hi).1
  have hdrop : t.drop (i + sep.length) = more := by
    rw [← List.drop_drop, ← hmore, List.drop_left]
  rw [hdrop, hmore, List.take_append_drop]

theorem count_dropWhile {p : Char → Bool} {c : Char} (hc : p c = false) (t : Text) :
    (t.dropWhile p).count c = t.count c := by
  induction t with
  | nil => rfl
  | cons d t ih =>
    by_cases hd : p d = true
    · have hne : d ≠ c := by
        rintro rfl
        rw [hc] at hd
        cases hd
      rw [List.dropWhile_cons_of_pos hd, ih, List.count_cons_of_ne hne]
    · rw [List.dropWhile_cons_of_neg hd]

theorem count_trim {c : Char} (hc : isBlank c = false) (t : Text) :
    (trim t).count c = t.count c := by
  rw [trim, trimWhen, trimEndWhen, List.count_reverse, count_dropWhile hc, List.count_reverse,
    count_dropWhile hc]

end Text

namespace Git

theorem pointsFrom_plain {bytes : Bytes} (h : ∀ b ∈ bytes, b.toNat ≠ 92) (pos : Nat) :
    pointsFrom pos 0 bytes = .ok (bytes.map UInt8.toNat) := by
  induction bytes generalizing pos with
  | nil => rfl
  | cons b bytes ih =>
    obtain ⟨hb, hbytes⟩ := List.forall_mem_cons.1 h
    rw [pointsFrom, if_neg hb, ih hbytes]
    rfl

/-- A text without backslashes is what is read between quotes. -/
theorem readQuoted_between {t : Text} (h : '\\' ∉ t) :
    readQuoted ('"' :: (t ++ ['"'])) = .ok t := by
  have hbytes : ∀ b ∈ Utf8.encode t, b.toNat ≠ 92 := by
    intro b hb
    obtain ⟨c, hc, hb⟩ := List.mem_flatMap.1 hb
    exact toNat_ne_of_mem_encodeChar (fun hslash => h (hslash ▸ hc)) hb
  rw [readQuoted_eq, pointsFrom_plain hbytes]
  show (do return Utf8.decodeReplacing (← bytesOfPoints _)) = _
  rw [bytesOfPoints_map]
  exact congrArg Except.ok (Utf8.decodeReplacing_encode t)

/-- A text that is not between quotes is read as it stands. -/
theorem readQuoted_bare {t : Text} (h : ∀ body, Text.trim t ≠ '"' :: (body ++ ['"'])) :
    readQuoted t = .ok (Text.trim t) := by
  rw [readQuoted]
  split
  · rename_i c inner hpath hlast
    rw [hpath, List.getLast?_cons_cons] at hlast
    refine absurd ?_ (h (c :: inner).dropLast)
    rw [hpath, List.dropLast_append_getLast? _ hlast]
  · rfl

/-- Quotes are taken off in pairs. -/
theorem exists_quote_of_odd {t : Text} (hslash : '\\' ∉ t) (hodd : t.count '"' % 2 = 1) :
    ∃ path, readQuoted t = .ok path ∧ '"' ∈ path := by
  have hcount : (Text.trim t).count '"' = t.count '"' := Text.count_trim rfl t
  by_cases hquoted : ∃ body, Text.trim t = '"' :: (body ++ ['"'])
  · obtain ⟨body, hbody⟩ := hquoted
    have hplain : '\\' ∉ body := by
      intro hmem
      have hnone : (Text.trim t).count '\\' = 0 := by
        rw [Text.count_trim rfl, List.count_eq_zero]
        exact hslash
      rw [List.count_eq_zero, hbody] at hnone
      exact hnone (by simp [hmem])
    have hsame : readQuoted t = readQuoted ('"' :: (body ++ ['"'])) := by
      have htrim : Text.trim ('"' :: (body ++ ['"'])) = '"' :: (body ++ ['"']) := by
        apply Text.trim_eq_self
        · rfl
        · rw [← List.cons_append, List.getLast?_concat]
          rfl
      rw [readQuoted, readQuoted, hbody, htrim]
    refine ⟨body, hsame.trans (readQuoted_between hplain), ?_⟩
    rw [hbody, List.count_cons_self, List.count_append, List.count_singleton_self] at hcount
    exact List.count_pos_iff.1 (by omega)
  · exact ⟨Text.trim t, readQuoted_bare (not_exists.1 hquoted), List.count_pos_iff.1 (by omega)⟩

/-- The name of a file in printable characters of ASCII, without a double quote or a backslash. -/
structure PlainPath where
  text : Text
  ne_nil : text ≠ []
  printable : ∀ c ∈ text, 0x20 ≤ c.toNat ∧ c.toNat < 0x7F
  unquoted : '"' ∉ text
  unescaped : '\\' ∉ text

namespace PlainPath

/-- The path as a report has it. -/
def printed (path : PlainPath) : Text :=
  if ' ' ∈ path.text then '"' :: (path.text ++ ['"']) else path.text

theorem mem_printed {path : PlainPath} {c : Char} (hc : c ≠ '"') :
    c ∈ path.printed ↔ c ∈ path.text := by
  rw [printed]
  split <;> simp [hc]

theorem printed_ne_nil (path : PlainPath) : path.printed ≠ [] := by
  rw [printed]
  split
  · exact List.cons_ne_nil _ _
  · exact path.ne_nil

theorem even_count_printed (path : PlainPath) : path.printed.count '"' % 2 = 0 := by
  have hnone : path.text.count '"' = 0 := List.count_eq_zero.2 path.unquoted
  rw [printed]
  split <;> simp [hnone]

/-- A path is read as it was before it was printed. -/
theorem readQuoted_printed (path : PlainPath) : readQuoted path.printed = .ok path.text := by
  rw [printed]
  by_cases hspace : ' ' ∈ path.text
  · rw [if_pos hspace]
    exact readQuoted_between path.unescaped
  · have hblank : ∀ c ∈ path.text, Text.isBlank c = false := by
      intro c hc
      have hne : c ≠ ' ' := fun h => hspace (h ▸ hc)
      have hcode : c.toNat ≠ 0x20 := fun h => hne (Char.toNat_inj.1 h)
      have hbounds := path.printable c hc
      simp [Text.isBlank]
      omega
    have htrim : Text.trim path.text = path.text := by
      apply Text.trim_eq_self
      · rw [Option.any_eq_false]
        exact fun c hc => by simpa using hblank c (List.mem_of_head? hc)
      · rw [Option.any_eq_false]
        exact fun c hc => by simpa using hblank c (List.mem_of_getLast? hc)
    have hbare : ∀ body, Text.trim path.text ≠ '"' :: (body ++ ['"']) := by
      intro body hbody
      apply path.unquoted
      rw [← htrim, hbody]
      exact List.mem_cons_self
    rw [if_neg hspace, readQuoted_bare hbare, htrim]

/-- Quotes around a text make no arrow. -/
theorem arrow_infix_quoted {t : Text} : arrow <:+: '"' :: (t ++ ['"']) ↔ arrow <:+: t := by
  rw [List.infix_cons_iff, List.infix_concat_iff, List.suffix_concat_iff]
  refine ⟨?_, fun h => .inr (.inr h)⟩
  rintro (hfirst | (hempty | ⟨s, hlast, -⟩) | h)
  · have hblank : ' ' = '"' := (List.cons_prefix_cons.1 hfirst).1
    cases hblank
  · cases hempty
  · have hblank := congrArg List.getLast? hlast
    rw [List.getLast?_concat] at hblank
    cases hblank
  · exact h

theorem space_mem_of_arrow {t : Text} (h : arrow <:+: t) : ' ' ∈ t :=
  h.subset List.mem_cons_self

theorem arrow_infix_printed {path : PlainPath} :
    arrow <:+: path.printed ↔ arrow <:+: path.text := by
  rw [printed]
  split
  · exact arrow_infix_quoted
  · exact Iff.rfl

/-- No arrow starts in a printed path without one, whatever comes behind. -/
theorem freeOf_printed {path : PlainPath} (h : ¬arrow <:+: path.text) (more : Text) :
    Text.FreeOf arrow path.printed more := by
  by_cases hspace : ' ' ∈ path.text
  · have halone : Text.FreeOf arrow path.printed [] := by
      intro i _ hstarts
      rw [List.append_nil] at hstarts
      exact h (arrow_infix_printed.1 (hstarts.isInfix.trans (List.drop_suffix i _).isInfix))
    have hlast : path.printed.getLast? = some '"' := by
      rw [printed, if_pos hspace, ← List.cons_append, List.getLast?_concat]
    exact halone.change hlast (by decide) more
  · rw [printed, if_neg hspace]
    exact Text.freeOf_of_head rfl hspace more

end PlainPath

/-- What a report says of a file: its status in two letters, its path, and for a renamed or copied
file the path that it had. -/
structure StatusEntry where
  staged : Char
  unstaged : Char
  old : Option PlainPath
  path : PlainPath
  printable : ∀ c ∈ [staged, unstaged], 0x20 ≤ c.toNat ∧ c.toNat < 0x7F
  moved : old.isSome ↔ 'R' ∈ [staged, unstaged] ∨ 'C' ∈ [staged, unstaged]

namespace StatusEntry

def status (entry : StatusEntry) : Text := [entry.staged, entry.unstaged]

def body (entry : StatusEntry) : Text :=
  match entry.old with
  | none => entry.path.printed
  | some old => old.printed ++ (arrow ++ entry.path.printed)

def line (entry : StatusEntry) : Text := entry.status ++ ' ' :: entry.body

/-- There is an arrow in the path that stands first. -/
def Mistakable (entry : StatusEntry) : Prop := arrow <:+: (entry.old.getD entry.path).text
  deriving Decidable

/-- The file is there and is not ignored. -/
def Present (entry : StatusEntry) : Prop := entry.status ≠ "!!".toList ∧ 'D' ∉ entry.status

/-- The new path of a file whose path was `old`, if the entry is a rename of this file. -/
def newPath? (entry : StatusEntry) (old : Text) : Option Text :=
  if 'R' ∈ entry.status ∧ entry.old.map PlainPath.text = some old then some entry.path.text
  else none

end StatusEntry

/-- The text of an entry is taken for one path, or is cut at its first arrow and taken for two. -/
inductive ReadAs : Text → Option Text → Text → Prop
  | one {body path : Text} (uncut : Text.cut? arrow body = none)
      (read : readQuoted body = .ok path) : ReadAs body none path
  | two {body front back old path : Text} (cut : Text.cut? arrow body = some (front, back))
      (readOld : readQuoted front = .ok old) (read : readQuoted back = .ok path) :
      ReadAs body (some old) path

namespace StatusEntry

variable {entry : StatusEntry}

theorem body_of_old {old : PlainPath} (h : entry.old = some old) :
    entry.body = old.printed ++ (arrow ++ entry.path.printed) := by
  rw [body, h]

theorem body_of_none (h : entry.old = none) : entry.body = entry.path.printed := by
  rw [body, h]

theorem not_mem_body (entry : StatusEntry) : '\\' ∉ entry.body := by
  have hprinted : ∀ path : PlainPath, '\\' ∉ path.printed := fun path h =>
    path.unescaped ((PlainPath.mem_printed (by decide)).1 h)
  cases hold : entry.old with
  | none =>
    rw [body_of_none hold]
    exact hprinted entry.path
  | some old =>
    rw [body_of_old hold, List.mem_append, List.mem_append]
    rintro (h | h | h)
    · exact hprinted old h
    · exact absurd h (by decide)
    · exact hprinted entry.path h

/-- Without an arrow in the path that stands first, the entry is read as what it says. -/
theorem readAs_of_not_mistakable (h : ¬entry.Mistakable) :
    ReadAs entry.body (entry.old.map PlainPath.text) entry.path.text := by
  rw [Mistakable] at h
  cases hold : entry.old with
  | none =>
    rw [hold, Option.getD_none] at h
    rw [body_of_none hold]
    refine .one ?_ (PlainPath.readQuoted_printed entry.path)
    rw [Text.cut?, Option.map_eq_none_iff, ← Option.not_isSome_iff_eq_none,
      Text.isSome_indexOf?_iff (by decide), PlainPath.arrow_infix_printed]
    exact h
  | some old =>
    rw [hold, Option.getD_some] at h
    rw [body_of_old hold]
    refine .two ?_ (PlainPath.readQuoted_printed old) (PlainPath.readQuoted_printed entry.path)
    have hstart : Text.indexOf? arrow (arrow ++ entry.path.printed) = some 0 := rfl
    rw [Text.cut?, Text.indexOf?_append_of_free (PlainPath.freeOf_printed h _), hstart,
      Option.map_some, Option.map_some, Nat.zero_add, List.take_left, ← List.append_assoc,
      List.drop_left' List.length_append]

/-- A path with an arrow is between quotes, and there are two quotes or none behind it. -/
theorem exists_body_of_mistakable (h : entry.Mistakable) : ∃ t more,
    entry.body = '"' :: (t ++ '"' :: more) ∧ arrow <:+: t ∧ '"' ∉ t ∧ more.count '"' % 2 = 0 := by
  rw [Mistakable] at h
  cases hold : entry.old with
  | none =>
    rw [hold, Option.getD_none] at h
    refine ⟨entry.path.text, [], ?_, h, entry.path.unquoted, rfl⟩
    rw [body_of_none hold, PlainPath.printed, if_pos (PlainPath.space_mem_of_arrow h)]
  | some old =>
    rw [hold, Option.getD_some] at h
    refine ⟨old.text, arrow ++ entry.path.printed, ?_, h, old.unquoted, ?_⟩
    · rw [body_of_old hold, PlainPath.printed, if_pos (PlainPath.space_mem_of_arrow h)]
      simp
    · rw [List.count_append, Nat.add_mod, PlainPath.even_count_printed]
      decide

/-- With an arrow in the path that stands first, the entry is read as two paths, each of them with a
quote in it. -/
theorem readAs_of_mistakable (h : entry.Mistakable) :
    ∃ old path, ReadAs entry.body (some old) path ∧ '"' ∈ old ∧ '"' ∈ path := by
  obtain ⟨t, more, hbody, harrow, hquote, heven⟩ := exists_body_of_mistakable h
  obtain ⟨i, hi⟩ := Option.isSome_iff_exists.1 ((Text.isSome_indexOf?_iff (by decide)).2 harrow)
  have hlength := (Text.indexOf?_eq_some hi).2
  have hfound : Text.indexOf? arrow entry.body = some (i + 1) := by
    have hnot : arrow.isPrefixOf ('"' :: (t ++ '"' :: more)) = false := rfl
    have hinside := Text.indexOf?_append_of_le (b := []) (by rwa [List.append_nil]) hlength
      ('"' :: more)
    rw [hbody, Text.indexOf?_cons, hnot, hinside]
    rfl
  have hcut : Text.cut? arrow entry.body =
      some ('"' :: t.take i, entry.body.drop (i + 1 + arrow.length)) := by
    rw [Text.cut?, hfound, Option.map_some]
    rw [hbody, List.take_succ_cons, List.take_append_of_le_length (by omega)]
  generalize entry.body.drop (i + 1 + arrow.length) = back at hcut
  have hparts := Text.eq_of_cut? hcut
  -- two quotes around the path: one is in front of the arrow, and the other one behind it
  have hfront : ('"' :: t.take i).count '"' = 1 := by
    rw [List.count_cons_self, List.count_eq_zero.2 fun hmem => hquote (List.mem_of_mem_take hmem)]
  have hback : back.count '"' % 2 = 1 := by
    have hcount := congrArg (List.count '"') hparts
    rw [hbody, List.count_append, List.count_append, hfront, List.count_cons_self,
      List.count_append, List.count_cons_self, List.count_eq_zero.2 hquote] at hcount
    have hnone : List.count '"' arrow = 0 := by decide
    omega
  have hslash := not_mem_body entry
  rw [hparts, List.mem_append, List.mem_append, not_or, not_or] at hslash
  obtain ⟨old, hold, holdquote⟩ := exists_quote_of_odd hslash.1 (by rw [hfront])
  obtain ⟨path, hpath, hpathquote⟩ := exists_quote_of_odd hslash.2.2 hback
  exact ⟨old, path, .two hcut hold hpath, holdquote, hpathquote⟩

end StatusEntry

end Git

end TodoTracker
