import TodoTracker.Proofs.Edit.InTurn
import TodoTracker.Proofs.Marker.KeyPlace

/-!
# Entries that name a ticket

Attribute blocks and ticket attributes are read apart from each other: a block is cut into entries
at its commas, while a ticket attribute is a whole bracket with nothing but the ticket in it. Both
readings agree on a block with one entry. Where the ticket shares its block with other entries, it
is read only if another bracket of the segment holds a ticket alone.
-/

set_option autoImplicit false

namespace TodoTracker

namespace Text

theorem splitWhen_ne_nil (p : Char → Bool) (t : Text) : splitWhen p t ≠ [] := by
  cases t with
  | nil => exact List.cons_ne_nil _ _
  | cons c t =>
    rw [splitWhen]
    split
    · exact List.cons_ne_nil _ _
    · split <;> exact List.cons_ne_nil _ _

theorem mem_of_mem_splitWhen {p : Char → Bool} {c : Char} {piece t : Text}
    (hpiece : piece ∈ splitWhen p t) (hc : c ∈ piece) : c ∈ t := by
  induction t generalizing piece with
  | nil =>
    rw [splitWhen, List.mem_singleton] at hpiece
    exact hpiece ▸ hc
  | cons d t ih =>
    rw [splitWhen] at hpiece
    split at hpiece
    · rcases List.mem_cons.1 hpiece with rfl | hpiece
      · cases hc
      · exact List.mem_cons_of_mem _ (ih hpiece hc)
    · split at hpiece
      · rw [List.mem_singleton.1 hpiece, List.mem_singleton] at hc
        exact hc ▸ List.mem_cons_self
      · rename_i first pieces hsplit
        rcases List.mem_cons.1 hpiece with rfl | hpiece
        · rcases List.mem_cons.1 hc with rfl | hc
          · exact List.mem_cons_self
          · exact List.mem_cons_of_mem _ (ih (hsplit ▸ List.mem_cons_self) hc)
        · exact List.mem_cons_of_mem _ (ih (hsplit ▸ List.mem_cons_of_mem _ hpiece) hc)

/-- A text in one piece is that piece. -/
theorem eq_of_splitWhen_eq_singleton {p : Char → Bool} {piece t : Text}
    (h : splitWhen p t = [piece]) : t = piece := by
  induction t generalizing piece with
  | nil => simpa [splitWhen] using h
  | cons d t ih =>
    rw [splitWhen] at h
    split at h
    · exact absurd (List.cons.inj h).2 (splitWhen_ne_nil p t)
    · split at h
      · rename_i hsplit
        exact absurd hsplit (splitWhen_ne_nil p t)
      · rename_i first pieces hsplit
        obtain ⟨rfl, rfl⟩ := List.cons.inj h
        rw [ih hsplit]

/-- Blanks at the end of a text are passed over in front of what follows it. -/
theorem dropWhile_isBlank_append {b t : Text} {c : Char} (hb : b.all isBlank = true)
    (hc : isBlank c = false) : (b ++ c :: t).dropWhile isBlank = c :: t := by
  rw [List.dropWhile_append_of_pos (List.all_eq_true.1 hb)]
  exact List.dropWhile_cons_of_neg (by simp [hc])

end Text

namespace TicketAttribute

theorem skipWord?_append {word t rest : Text} (h : skipWord? word t = some rest) (u : Text) :
    skipWord? word (t ++ u) = some (rest ++ u) := by
  induction word generalizing t with
  | nil =>
    cases h
    rfl
  | cons c word ih =>
    cases t with
    | nil => cases h
    | cons d t =>
      rw [skipWord?] at h
      rw [List.cons_append, skipWord?]
      split at h
      · rename_i hkin
        rw [if_pos hkin]
        exact ih h
      · cases h

theorem exists_of_skipWord? {word t rest : Text} (h : skipWord? word t = some rest) :
    ∃ front, t = front ++ rest ∧ skipWord? word front = some [] := by
  induction word generalizing t with
  | nil =>
    cases h
    exact ⟨[], rfl, rfl⟩
  | cons c word ih =>
    cases t with
    | nil => cases h
    | cons d t =>
      rw [skipWord?] at h
      split at h
      · rename_i hkin
        obtain ⟨front, rfl, hfront⟩ := ih h
        refine ⟨d :: front, rfl, ?_⟩
        rw [skipWord?, if_pos hkin]
        exact hfront
      · cases h

/-- An entry that names a ticket: after its leading blanks it has the word `ticket` in any case, an
equals sign and the key, with blanks in between and at the end. -/
def Names (entry key : Text) : Prop :=
  ∃ word b b' b'' : Text,
    entry.dropWhile Text.isBlank = word ++ (b ++ '=' :: (b' ++ (key ++ b''))) ∧
    skipWord? "ticket".toList word = some [] ∧ key ≠ [] ∧ key.all isKeyChar = true ∧
    b.all Text.isBlank = true ∧ b'.all Text.isBlank = true ∧ b''.all Text.isBlank = true

/-- A bracket of the text has an entry in it that names a ticket, and nothing else. -/
def Alone (t key : Text) : Prop :=
  ∃ front entry back, t = front ++ '[' :: (entry ++ ']' :: back) ∧ Names entry key

theorem Names.mem_equals {entry key : Text} (h : Names entry key) : '=' ∈ entry := by
  obtain ⟨word, b, b', b'', hentry, -⟩ := h
  have hmem : '=' ∈ entry.dropWhile Text.isBlank := by simp [hentry]
  exact (List.dropWhile_suffix _).subset hmem

theorem isKeyChar_eq_false_of_isBlank {c : Char} (h : Text.isBlank c = true) :
    isKeyChar c = false := by
  simp [isKeyChar, h]

/-- Blanks and a closing bracket end a key. -/
theorem takeWhile_isKeyChar {key b t : Text} (hkey : key.all isKeyChar = true)
    (hb : b.all Text.isBlank = true) :
    (key ++ (b ++ ']' :: t)).takeWhile isKeyChar = key := by
  rw [List.takeWhile_append_of_pos (List.all_eq_true.1 hkey)]
  have hrest : (b ++ ']' :: t).takeWhile isKeyChar = [] := by
    cases b with
    | nil => rfl
    | cons c b =>
      have hc : Text.isBlank c = true := List.all_eq_true.1 hb c List.mem_cons_self
      exact List.takeWhile_cons_of_neg (by simp [isKeyChar_eq_false_of_isBlank hc])
  rw [hrest, List.append_nil]

/-- A bracket with an entry that names a ticket is read as that ticket. -/
theorem read?_of_names {entry key : Text} (h : Names entry key) (pos : Nat) (after : Text) :
    ∃ found, read? pos (entry ++ ']' :: after) = some found ∧ found.key = key := by
  obtain ⟨word, b, b', b'', hentry, hword, hne, hkey, hb, hb', hb''⟩ := h
  have hfront : (entry ++ ']' :: after).dropWhile Text.isBlank =
      word ++ (b ++ '=' :: (b' ++ (key ++ (b'' ++ ']' :: after)))) := by
    rw [List.dropWhile_append, hentry, if_neg (by simp)]
    simp
  have hvalue : (b' ++ (key ++ (b'' ++ ']' :: after))).dropWhile Text.isBlank =
      key ++ (b'' ++ ']' :: after) := by
    cases key with
    | nil => exact absurd rfl hne
    | cons k key =>
      have hk : Text.isBlank k = false := by
        have := List.all_eq_true.1 hkey k List.mem_cons_self
        simp [isKeyChar] at this
        exact this.2
      exact Text.dropWhile_isBlank_append hb' hk
  have hskip : skipWord? "ticket".toList ((entry ++ ']' :: after).dropWhile Text.isBlank) =
      some (b ++ '=' :: (b' ++ (key ++ (b'' ++ ']' :: after)))) := by
    rw [hfront, skipWord?_append hword, List.nil_append]
  have hequals : (b ++ '=' :: (b' ++ (key ++ (b'' ++ ']' :: after)))).dropWhile Text.isBlank =
      '=' :: (b' ++ (key ++ (b'' ++ ']' :: after))) := Text.dropWhile_isBlank_append hb (by decide)
  have hclose : (b'' ++ ']' :: after).dropWhile Text.isBlank = ']' :: after :=
    Text.dropWhile_isBlank_append hb'' (by decide)
  rw [read?, hskip]
  dsimp only [Option.bind_eq_bind, Option.bind_some]
  rw [hequals]
  simp only [hvalue, takeWhile_isKeyChar hkey hb'', List.drop_left, hclose]
  rw [if_neg (by simpa using hne)]
  exact ⟨_, rfl, rfl⟩

/-- The leading blanks of a text are those of each of its beginnings that has more than blanks. -/
theorem dropWhile_isBlank_of_append {lead e s : Text} (hlead : lead.all Text.isBlank = true)
    (he : e ≠ []) (h : ∀ c ∈ (e ++ s).head?, Text.isBlank c = false) :
    (lead ++ e).dropWhile Text.isBlank = e := by
  cases e with
  | nil => exact absurd rfl he
  | cons c e => exact Text.dropWhile_isBlank_append hlead (h c rfl)

/-- A ticket is read from a bracket with an entry that names it. -/
theorem names_of_read? {pos : Nat} {t : Text} {found : TicketAttribute}
    (h : read? pos t = some found) :
    ∃ entry after, t = entry ++ ']' :: after ∧ Names entry found.key := by
  rw [read?] at h
  obtain ⟨afterWord, hword, h⟩ := Option.bind_eq_some_iff.1 h
  dsimp only at h
  split at h
  · rename_i rest hequals
    split at h
    · cases h
    · rename_i hne
      split at h
      · rename_i after hclose
        cases h
        obtain ⟨word, hfront, hskip⟩ := exists_of_skipWord? hword
        have hall : ∀ s : Text, (s.takeWhile Text.isBlank).all Text.isBlank = true :=
          fun s => List.all_takeWhile
        have hsplit : ∀ s : Text, s = s.takeWhile Text.isBlank ++ s.dropWhile Text.isBlank :=
          fun s => List.takeWhile_append_dropWhile.symm
        have hafter := hsplit afterWord
        rw [hequals] at hafter
        have hrest := hsplit rest
        generalize hvalue : rest.dropWhile Text.isBlank = value at *
        have hkey : value = value.takeWhile isKeyChar ++
            value.drop (value.takeWhile isKeyChar).length :=
          (List.prefix_iff_eq_append.1 (List.takeWhile_prefix isKeyChar)).symm
        have htail := hsplit (value.drop (value.takeWhile isKeyChar).length)
        rw [hclose] at htail
        have hhead : ∀ c ∈ (t.dropWhile Text.isBlank).head?, Text.isBlank c = false := by
          intro c hc
          have := List.head?_dropWhile_not Text.isBlank t
          rw [Option.mem_def.1 hc] at this
          simpa using this
        have ht : t.dropWhile Text.isBlank =
            (word ++ (afterWord.takeWhile Text.isBlank ++ '=' :: (rest.takeWhile Text.isBlank ++
              (value.takeWhile isKeyChar ++
                (value.drop (value.takeWhile isKeyChar).length).takeWhile Text.isBlank)))) ++
              ']' :: after := by
          rw [hfront]
          conv_lhs => rw [hafter, hrest, hkey, htail]
          simp
        refine ⟨t.takeWhile Text.isBlank ++ _, after, ?_, word, _, _, _,
          dropWhile_isBlank_of_append (hall t) (by simp) (ht ▸ hhead), hskip, by simpa using hne,
          List.all_takeWhile, hall _, hall _, hall _⟩
        rw [List.append_assoc, ← ht]
        exact hsplit t
      · cases h
  · cases h

theorem Alone.cons {t key : Text} (h : Alone t key) (c : Char) : Alone (c :: t) key := by
  obtain ⟨front, entry, back, rfl, hnames⟩ := h
  exact ⟨c :: front, entry, back, rfl, hnames⟩

/-- The attribute that is found stands alone in its bracket. -/
theorem alone_of_findFrom {pos : Nat} {t : Text} {found : TicketAttribute}
    (h : findFrom pos t = some found) : Alone t found.key := by
  induction t generalizing pos with
  | nil => cases h
  | cons c t ih =>
    rw [findFrom] at h
    split at h
    · rename_i hbracket
      subst hbracket
      cases hread : read? pos t with
      | none =>
        rw [hread] at h
        exact (ih h).cons _
      | some ticket =>
        rw [hread] at h
        cases h
        obtain ⟨entry, after, rfl, hnames⟩ := names_of_read? hread
        exact ⟨[], entry, after, rfl, hnames⟩
    · exact (ih h).cons _

theorem isSome_findFrom_of_alone {t key : Text} (h : Alone t key) (pos : Nat) :
    (findFrom pos t).isSome = true := by
  obtain ⟨front, entry, back, rfl, hnames⟩ := h
  induction front generalizing pos with
  | nil =>
    obtain ⟨found, hread, -⟩ := read?_of_names hnames pos back
    rw [List.nil_append, findFrom, if_pos rfl, hread]
    rfl
  | cons c front ih =>
    rw [List.cons_append, findFrom]
    split
    · cases read? pos (front ++ '[' :: (entry ++ ']' :: back)) with
      | none => exact ih (pos + 1)
      | some found => rfl
    · exact ih (pos + 1)

/-- An attribute is found exactly when a bracket holds a ticket alone. -/
theorem isSome_find?_iff {t : Text} : (find? t).isSome = true ↔ ∃ key, Alone t key := by
  constructor
  · intro h
    obtain ⟨found, hfound⟩ := Option.isSome_iff_exists.1 h
    exact ⟨found.key, alone_of_findFrom hfound⟩
  · rintro ⟨key, h⟩
    exact isSome_findFrom_of_alone h 0

end TicketAttribute

namespace Block

/-- The block that is open stops at a bracket, and each later one stands between two brackets. -/
theorem exists_of_mem_scanFrom {pos depth start : Nat} {inner t : Text} {block : Block}
    (h : block ∈ scanFrom pos depth start inner t) :
    (0 < depth ∧ ∃ body back, t = body ++ ']' :: back ∧ block.inner = inner.reverse ++ body) ∨
      ∃ front back, t = front ++ '[' :: (block.inner ++ ']' :: back) := by
  induction t generalizing pos depth start inner with
  | nil => cases h
  | cons c t ih =>
    -- a bracket or another character inside of the open block belongs to it
    have hinside : ∀ {pos depth' start : Nat}, 0 < depth →
        block ∈ scanFrom pos depth' start (c :: inner) t →
        (0 < depth ∧ ∃ body back, c :: t = body ++ ']' :: back ∧
          block.inner = inner.reverse ++ body) ∨
          ∃ front back, c :: t = front ++ '[' :: (block.inner ++ ']' :: back) := by
      intro pos depth' start hdepth hmem
      rcases ih hmem with ⟨-, body, back, rfl, hinner⟩ | ⟨front, back, rfl⟩
      · exact .inl ⟨hdepth, c :: body, back, rfl, by simpa using hinner⟩
      · exact .inr ⟨c :: front, back, rfl⟩
    have hlater : ∀ {pos start : Nat} {inner' : Text}, block ∈ scanFrom pos 0 start inner' t →
        ∃ front back, c :: t = front ++ '[' :: (block.inner ++ ']' :: back) := by
      intro pos start inner' hmem
      rcases ih hmem with ⟨hdepth, -⟩ | ⟨front, back, rfl⟩
      · exact absurd hdepth (Nat.lt_irrefl 0)
      · exact ⟨c :: front, back, rfl⟩
    rw [scanFrom] at h
    split at h
    · rename_i hopen
      split at h
      · subst hopen
        rcases ih h with ⟨-, body, back, rfl, hinner⟩ | ⟨front, back, rfl⟩
        · exact .inr ⟨[], back, by rw [hinner]; rfl⟩
        · exact .inr ⟨'[' :: front, back, rfl⟩
      · exact hinside (by omega) h
    · split at h
      · rename_i hclose
        split at h
        · rcases List.mem_cons.1 h with rfl | h
          · exact .inl ⟨hclose.2, [], t, by rw [hclose.1]; rfl, by simp⟩
          · exact .inr (hlater h)
        · exact hinside hclose.2 h
      · by_cases hdepth : depth = 0
        · subst hdepth
          exact .inr (hlater h)
        · rw [if_neg hdepth] at h
          exact hinside (by omega) h

/-- A block stands between two brackets. -/
theorem exists_of_mem_scan {t : Text} {block : Block} (h : block ∈ scan t) :
    ∃ front back, t = front ++ '[' :: (block.inner ++ ']' :: back) := by
  rcases exists_of_mem_scanFrom h with ⟨hdepth, -⟩ | hexists
  · exact absurd hdepth (Nat.lt_irrefl 0)
  · exact hexists

/-- A block whose only entry names a ticket holds it alone. -/
theorem alone_of_splitOn {t key : Text} {block : Block} {entry : Text} (h : block ∈ scan t)
    (hentries : Text.splitOn ',' block.inner = [entry]) (hnames : TicketAttribute.Names entry key) :
    TicketAttribute.Alone t key := by
  obtain ⟨front, back, rfl⟩ := exists_of_mem_scan h
  rw [Text.eq_of_splitWhen_eq_singleton hentries]
  exact ⟨front, entry, back, rfl, hnames⟩

/-- A block with an entry that names a ticket is one with attributes. -/
theorem mem_attributeBlocks_of_names {t entry key : Text} {block : Block} (h : block ∈ scan t)
    (hentry : entry ∈ Text.splitOn ',' block.inner) (hnames : TicketAttribute.Names entry key) :
    block ∈ attributeBlocks t := by
  refine List.mem_filter.2 ⟨h, ?_⟩
  rw [hasAttributes, List.contains_iff_mem]
  exact Text.mem_of_mem_splitWhen hentry hnames.mem_equals

end Block

namespace CarriedKey

variable {patterns : List Pattern} {line segment : Text} {start stop : Nat} {found : CarriedKey}

theorem form_of_paren? (h : paren? patterns line start segment = some found) :
    found.form = .paren := by
  obtain ⟨paren, -, h⟩ := Option.bind_eq_some_iff.1 h
  obtain ⟨pattern, -, h⟩ := List.exists_of_findSome?_eq_some h
  obtain ⟨m, -, rfl⟩ := Option.map_eq_some_iff.1 h
  rfl

theorem form_of_bare? (h : bare? patterns line start stop segment = some found) :
    found.form = .bare := by
  obtain ⟨pattern, -, h⟩ := List.exists_of_findSome?_eq_some h
  split at h
  · split at h
    · cases h
      rfl
    · cases h
  · cases h

/-- A key that is read as a ticket attribute stands alone in a bracket. -/
theorem alone_of_inSegment? (h : inSegment? patterns line start stop = some found)
    (hform : found.form = .bracket) :
    TicketAttribute.Alone (Text.slice line start stop) found.key := by
  rw [inSegment?] at h
  split at h
  · rename_i ticket hticket
    cases h
    exact TicketAttribute.alone_of_findFrom hticket
  · split at h
    · rename_i hparen
      cases h
      cases (form_of_paren? hparen).symm.trans hform
    · cases (form_of_bare? h).symm.trans hform

/-- The key of a marker is a ticket attribute exactly when a bracket of its text holds one alone. -/
theorem inSegment?_bracket_iff :
    (∃ found, inSegment? patterns line start stop = some found ∧ found.form = .bracket) ↔
      ∃ key, TicketAttribute.Alone (Text.slice line start stop) key := by
  constructor
  · rintro ⟨found, hfound, hform⟩
    exact ⟨found.key, alone_of_inSegment? hfound hform⟩
  · intro h
    obtain ⟨ticket, hticket⟩ := Option.isSome_iff_exists.1 (TicketAttribute.isSome_find?_iff.2 h)
    exact ⟨ofTicket start ticket, by rw [inSegment?, hticket], rfl⟩

end CarriedKey

end TodoTracker
