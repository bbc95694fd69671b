import TodoTracker.Proofs.Json.Plain

/-!
# Reading a printed document

A printed value is read back, apart from what a document cannot say: a number becomes what its text
says, and of two fields with one name the later value stays.
-/

set_option autoImplicit false

namespace TodoTracker.Json

mutual

/-- What a printed value is read back as. -/
def reread : Json → Json
  | .decimal value => .decimal value.reread
  | .list items => .list (rereadItems items)
  | .object fields => .object (Fields.ofList (rereadFields fields))
  | value => value

def rereadItems : List Json → List Json
  | [] => []
  | item :: items => reread item :: rereadItems items

def rereadFields : List (Text × Json) → List (Text × Json)
  | [] => []
  | (name, value) :: fields => (name, reread value) :: rereadFields fields

end

/-! ### White space -/

/-- The text does not start with white space. -/
def Solid (t : Text) : Prop := t.head?.any Cursor.isSpace = false

theorem skipSpace_append {s t : Text} (hs : ∀ c ∈ s, Cursor.isSpace c = true) (ht : Solid t)
    (pos : Nat) : Cursor.skipSpace ⟨s ++ t, pos⟩ = ⟨t, pos + s.length⟩ := by
  rw [Cursor.skipSpace, Text.takeWhile_append_of_head hs ht, Cursor.skip, List.drop_left]

theorem skipSpace_solid {t : Text} (ht : Solid t) (pos : Nat) :
    Cursor.skipSpace ⟨t, pos⟩ = ⟨t, pos⟩ :=
  skipSpace_append (s := []) nofun ht pos

theorem isSpace_newline (depth : Nat) : ∀ c ∈ newline depth, Cursor.isSpace c = true := by
  intro c hc
  rcases List.mem_cons.1 hc with rfl | hc
  · rfl
  · rw [List.eq_of_mem_replicate hc]
    rfl

/-- A value starts neither with white space nor with a closing bracket. -/
def Starts (t : Text) : Prop := ∃ c more, t = c :: more ∧ Cursor.isSpace c = false ∧ c ≠ ']'

theorem Starts.solid {t : Text} (h : Starts t) (rest : Text) : Solid (t ++ rest) := by
  obtain ⟨c, more, rfl, hc, -⟩ := h
  exact hc

/-- The text starts as words and numbers do. -/
def Bare (t : Text) : Prop := ∃ c more, t = c :: more ∧ (c.isAlphanum = true ∨ c = '-')

theorem Bare.head?_ne {t : Text} (h : Bare t) {d : Char} (hd : d.isAlphanum = false)
    (hminus : d ≠ '-') : t.head? ≠ some d := by
  obtain ⟨c, more, rfl, hc⟩ := h
  intro heq
  obtain rfl : c = d := Option.some.inj heq
  rcases hc with hc | hc
  · rw [hc] at hd
    cases hd
  · exact hminus hc

theorem Bare.starts {t : Text} (h : Bare t) : Starts t := by
  obtain ⟨c, more, ht, -⟩ := id h
  have hne {d : Char} (hd : d.isAlphanum = false) (hminus : d ≠ '-') : c ≠ d := by
    rintro rfl
    exact h.head?_ne hd hminus (by rw [ht]; rfl)
  refine ⟨c, more, ht, ?_, hne rfl (by decide)⟩
  simp [Cursor.isSpace, hne (by rfl : Char.isAlphanum ' ' = false),
    hne (by rfl : Char.isAlphanum '\t' = false), hne (by rfl : Char.isAlphanum '\n' = false),
    hne (by rfl : Char.isAlphanum '\r' = false)]

theorem Numeral.bare {sign whole fraction exponent : Text}
    (h : Numeral sign whole fraction exponent) (t : Text) : Bare (sign ++ (whole ++ t)) := by
  rcases h.sign with rfl | rfl
  · obtain ⟨c, whole, rfl⟩ := List.exists_cons_of_ne_nil h.nonempty
    have hdigit : c.isDigit = true := h.digits c List.mem_cons_self
    exact ⟨c, whole ++ t, rfl, .inl (by rw [Char.isAlphanum, hdigit, Bool.or_true])⟩
  · exact ⟨'-', whole ++ t, rfl, .inr rfl⟩

theorem bare_ofInt (n : Int) : Bare (Text.ofInt n) := by
  cases n with
  | ofNat n =>
    have h := (numeral_ofNat (.inl rfl) n).bare []
    rwa [List.nil_append, List.append_nil] at h
  | negSucc n =>
    have h := (numeral_ofNat (.inr rfl) (n + 1)).bare []
    rwa [List.append_nil] at h

theorem bare_text (value : Decimal) : Bare value.text := by
  cases value with
  | undefined => exact ⟨'N', "aN".toList, rfl, .inl rfl⟩
  | infinite negative =>
    cases negative
    · exact ⟨'I', "nfinity".toList, rfl, .inl rfl⟩
    · exact ⟨'-', "Infinity".toList, rfl, .inr rfl⟩
  | finite negative significand exponent =>
    obtain ⟨sign, whole, fraction, exp, hnumeral, -, htext⟩ :=
      Decimal.exists_numeral_text negative significand exponent
    rw [htext]
    exact hnumeral.bare _

theorem starts_printAt (depth : Nat) (value : Json) : Starts (printAt depth value) := by
  cases value with
  | null => exact ⟨'n', "ull".toList, rfl, rfl, by decide⟩
  | bool b =>
    cases b
    · exact ⟨'f', "alse".toList, rfl, rfl, by decide⟩
    · exact ⟨'t', "rue".toList, rfl, rfl, by decide⟩
  | int n =>
    rw [printAt]
    exact (bare_ofInt n).starts
  | decimal value =>
    rw [printAt]
    exact (bare_text value).starts
  | str t =>
    rw [printAt]
    exact ⟨'"', _, rfl, rfl, by decide⟩
  | list items =>
    cases items with
    | nil => exact ⟨'[', [']'], rfl, rfl, by decide⟩
    | cons item items =>
      rw [printAt]
      exact ⟨'[', _, rfl, rfl, by decide⟩
  | object fields =>
    cases fields with
    | nil => exact ⟨'\x7b', ['\x7d'], rfl, rfl, by decide⟩
    | cons field fields =>
      obtain ⟨name, value⟩ := field
      rw [printAt]
      exact ⟨'\x7b', _, rfl, rfl, by decide⟩

/-! ### Values -/

/-- The value is read back wherever it stands in a document. -/
def Reads (depth : Nat) (value : Json) : Prop :=
  ∀ (rest : Text) (fuel pos : Nat), Ends rest → (printAt depth value).length ≤ fuel →
    ∃ pos', readValue fuel ⟨printAt depth value ++ rest, pos⟩ = .ok (value.reread, ⟨rest, pos'⟩)

theorem readValue_str {fuel pos : Nat} {t text : Text} {cur : Cursor}
    (h : readString ⟨'"' :: t, pos⟩ = .ok (text, cur)) :
    readValue (fuel + 1) ⟨'"' :: t, pos⟩ = .ok (.str text, cur) := by
  change (readString ⟨'"' :: t, pos⟩ >>= fun found => .ok (str found.1, found.2)) = _
  rw [h]
  rfl

theorem readValue_list {fuel pos : Nat} {t : Text} {inner cur : Cursor} {items : List Json}
    (hinner : Cursor.skipSpace ⟨t, pos + 1⟩ = inner) (hhead : inner.rest.head? ≠ some ']')
    (h : readItems fuel inner = .ok (items, cur)) :
    readValue (fuel + 1) ⟨'[' :: t, pos⟩ = .ok (.list items, cur) := by
  subst hinner
  change (if (Cursor.skipSpace ⟨t, pos + 1⟩).rest.head? = some ']' then _
    else readItems fuel (Cursor.skipSpace ⟨t, pos + 1⟩) >>= fun found =>
      .ok (list found.1, found.2)) = _
  rw [if_neg hhead, h]
  rfl

theorem readValue_object {fuel pos : Nat} {t : Text} {inner cur : Cursor}
    {fields : List (Text × Json)}
    (hinner : Cursor.skipSpace ⟨t, pos + 1⟩ = inner) (hhead : inner.rest.head? ≠ some '\x7d')
    (h : readFields fuel inner = .ok (fields, cur)) :
    readValue (fuel + 1) ⟨'\x7b' :: t, pos⟩ = .ok (.object (Fields.ofList fields), cur) := by
  subst hinner
  change (if (Cursor.skipSpace ⟨t, pos + 1⟩).rest.head? = some '\x7d' then _
    else readFields fuel (Cursor.skipSpace ⟨t, pos + 1⟩) >>= fun found =>
      .ok (object (Fields.ofList found.1), found.2)) = _
  rw [if_neg hhead, h]
  rfl

theorem readItems_last {fuel pos : Nat} {item : Json} {cur : Cursor} {s rest : Text}
    (hs : ∀ c ∈ s, Cursor.isSpace c = true)
    (hitem : readValue fuel cur = .ok (item, ⟨s ++ ']' :: rest, pos⟩)) :
    ∃ pos', readItems (fuel + 1) cur = .ok ([item], ⟨rest, pos'⟩) := by
  refine ⟨pos + s.length + 1, ?_⟩
  rw [readItems, hitem]
  dsimp only [bind, Except.bind]
  rw [skipSpace_append hs (by rfl)]
  rfl

theorem readItems_cons {fuel pos : Nat} {item : Json} {items : List Json} {cur : Cursor}
    {s t rest : Text} (hs : ∀ c ∈ s, Cursor.isSpace c = true) (ht : Solid t)
    (hitem : readValue fuel cur = .ok (item, ⟨',' :: (s ++ t), pos⟩))
    (hitems : ∀ pos, ∃ pos', readItems fuel ⟨t, pos⟩ = .ok (items, ⟨rest, pos'⟩)) :
    ∃ pos', readItems (fuel + 1) cur = .ok (item :: items, ⟨rest, pos'⟩) := by
  obtain ⟨pos', hpos'⟩ := hitems (pos + 1 + s.length)
  refine ⟨pos', ?_⟩
  rw [readItems, hitem]
  dsimp only [bind, Except.bind]
  rw [skipSpace_solid (by rfl)]
  change (readItems fuel (Cursor.skipSpace ⟨s ++ t, pos + 1⟩) >>= fun found =>
    .ok (item :: found.1, found.2)) = _
  rw [skipSpace_append hs ht, hpos']
  rfl

/-- How the reader goes on behind the value of a field. -/
def readOn (fuel : Nat) (name : Text) (value : Json) (cur : Cursor) :
    Except ParseError (List (Text × Json) × Cursor) :=
  match cur.rest with
  | '\x7d' :: _ => .ok ([(name, value)], cur.skip 1)
  | ',' :: _ => do
    let (fields, cur) ← readFields fuel (cur.skip 1).skipSpace
    .ok ((name, value) :: fields, cur)
  | _ => cur.fail .expectedComma

theorem readFields_value {fuel pos pos₁ : Nat} {name s t : Text} {value : Json} {cur : Cursor}
    (hname : readString ⟨'"' :: s, pos⟩ = .ok (name, ⟨':' :: ' ' :: t, pos₁⟩)) (ht : Solid t)
    (hvalue : readValue fuel ⟨t, pos₁ + 1 + 1⟩ = .ok (value, cur)) :
    readFields (fuel + 1) ⟨'"' :: s, pos⟩ = readOn fuel name value cur.skipSpace := by
  have hblank : Cursor.skipSpace (Cursor.skip ⟨':' :: ' ' :: t, pos₁⟩ 1) = ⟨t, pos₁ + 1 + 1⟩ :=
    skipSpace_append (s := [' ']) (by simp [Cursor.isSpace]) ht (pos₁ + 1)
  rw [readFields, if_neg (by simp)]
  dsimp only [bind, Except.bind]
  rw [hname]
  dsimp only
  rw [skipSpace_solid (by rfl), if_neg (by simp), hblank, hvalue]
  rfl

theorem readOn_last (fuel pos : Nat) (name : Text) (value : Json) {s : Text} (rest : Text)
    (hs : ∀ c ∈ s, Cursor.isSpace c = true) :
    ∃ pos', readOn fuel name value (Cursor.skipSpace ⟨s ++ '\x7d' :: rest, pos⟩) =
      .ok ([(name, value)], ⟨rest, pos'⟩) := by
  refine ⟨pos + s.length + 1, ?_⟩
  rw [skipSpace_append hs (by rfl)]
  rfl

theorem readOn_cons (fuel pos : Nat) (name : Text) (value : Json) {fields : List (Text × Json)}
    {s t rest : Text} (hs : ∀ c ∈ s, Cursor.isSpace c = true) (ht : Solid t)
    (hfields : ∀ pos, ∃ pos', readFields fuel ⟨t, pos⟩ = .ok (fields, ⟨rest, pos'⟩)) :
    ∃ pos', readOn fuel name value (Cursor.skipSpace ⟨',' :: (s ++ t), pos⟩) =
      .ok ((name, value) :: fields, ⟨rest, pos'⟩) := by
  obtain ⟨pos', hpos'⟩ := hfields (pos + 1 + s.length)
  refine ⟨pos', ?_⟩
  rw [skipSpace_solid (by rfl)]
  change (readFields fuel (Cursor.skipSpace ⟨s ++ t, pos + 1⟩) >>= fun found =>
    .ok ((name, value) :: found.1, found.2)) = _
  rw [skipSpace_append hs ht, hpos']
  rfl

theorem readValue_bare {fuel pos : Nat} {t : Text} (h : Bare t) :
    readValue (fuel + 1) ⟨t, pos⟩ = readScalar ⟨t, pos⟩ := by
  rw [readValue]
  split
  · rename_i heq
    exact absurd (congrArg List.head? heq) (h.head?_ne rfl (by decide))
  · rename_i heq
    exact absurd (congrArg List.head? heq) (h.head?_ne rfl (by decide))
  · rename_i heq
    exact absurd (congrArg List.head? heq) (h.head?_ne rfl (by decide))
  · rfl

/-- Items that are read back one by one are read back as a list. -/
theorem readItems_printItems {depth closing : Nat} {item : Json} {items : List Json}
    (hitem : Reads depth item) (hitems : ∀ item ∈ items, Reads depth item) (rest : Text)
    (fuel pos : Nat)
    (hfuel : (printAt depth item).length + (printItems depth items).length < fuel) :
    ∃ pos', readItems fuel
        ⟨printAt depth item ++ (printItems depth items ++ (newline closing ++ ']' :: rest)), pos⟩ =
      .ok (item.reread :: rereadItems items, ⟨rest, pos'⟩) := by
  induction items generalizing item fuel pos with
  | nil =>
    obtain ⟨fuel, rfl⟩ := Nat.exists_eq_succ_of_ne_zero (by omega : fuel ≠ 0)
    obtain ⟨mid, hmid⟩ := hitem (newline closing ++ ']' :: rest) fuel pos (.inr rfl) (by omega)
    exact readItems_last (isSpace_newline closing) hmid
  | cons next items ih =>
    obtain ⟨hnext, hitems⟩ := List.forall_mem_cons.1 hitems
    rw [printItems] at hfuel ⊢
    simp only [List.cons_append, List.append_assoc, List.length_cons, List.length_append] at hfuel ⊢
    obtain ⟨fuel, rfl⟩ := Nat.exists_eq_succ_of_ne_zero (by omega : fuel ≠ 0)
    obtain ⟨mid, hmid⟩ := hitem (',' :: (newline depth ++ (printAt depth next ++
      (printItems depth items ++ (newline closing ++ ']' :: rest))))) fuel pos (.inl rfl) (by omega)
    exact readItems_cons (isSpace_newline depth) ((starts_printAt depth next).solid _) hmid
      fun pos => ih hnext hitems fuel pos (by omega)

theorem colon_blank : ": ".toList = [':', ' '] := rfl

theorem readFields_printFields {depth closing : Nat} {name : Text} {value : Json}
    {fields : List (Text × Json)} (hvalue : Reads depth value)
    (hfields : ∀ field ∈ fields, Reads depth field.2) (rest : Text) (fuel pos : Nat)
    (hfuel : (printAt depth value).length + (printFields depth fields).length < fuel) :
    ∃ pos', readFields fuel ⟨printText name ++ (':' :: ' ' :: (printAt depth value ++
        (printFields depth fields ++ (newline closing ++ '\x7d' :: rest)))), pos⟩ =
      .ok ((name, value.reread) :: rereadFields fields, ⟨rest, pos'⟩) := by
  induction fields generalizing name value fuel pos with
  | nil =>
    obtain ⟨fuel, rfl⟩ := Nat.exists_eq_succ_of_ne_zero (by omega : fuel ≠ 0)
    generalize hbehind : newline closing ++ '\x7d' :: rest = behind
    obtain ⟨pos₁, hname⟩ :=
      readString_printText pos name (List.cons_ne_nil ':' (' ' :: (printAt depth value ++ behind)))
    obtain ⟨pos₂, hmid⟩ :=
      hvalue behind fuel (pos₁ + 1 + 1) (hbehind ▸ .inr rfl) (by omega)
    obtain ⟨pos₃, hlast⟩ :=
      readOn_last fuel pos₂ name value.reread rest (isSpace_newline closing)
    rw [hbehind] at hlast
    exact ⟨pos₃, (readFields_value hname ((starts_printAt depth value).solid _) hmid).trans hlast⟩
  | cons field fields ih =>
    obtain ⟨next, value'⟩ := field
    obtain ⟨(hnext : Reads depth value'), hfields⟩ := List.forall_mem_cons.1 hfields
    rw [printFields] at hfuel ⊢
    simp only [colon_blank, List.cons_append, List.nil_append, List.append_assoc, List.length_cons,
      List.length_append] at hfuel ⊢
    obtain ⟨fuel, rfl⟩ := Nat.exists_eq_succ_of_ne_zero (by omega : fuel ≠ 0)
    generalize hbehind : printText next ++ (':' :: ' ' :: (printAt depth value' ++
      (printFields depth fields ++ (newline closing ++ '\x7d' :: rest)))) = behind
    obtain ⟨pos₁, hname⟩ := readString_printText pos name (List.cons_ne_nil ':'
      (' ' :: (printAt depth value ++ ',' :: (newline depth ++ behind))))
    obtain ⟨pos₂, hmid⟩ :=
      hvalue (',' :: (newline depth ++ behind)) fuel (pos₁ + 1 + 1) (.inl rfl) (by omega)
    obtain ⟨pos₃, hmore⟩ := readOn_cons fuel pos₂ name value.reread (isSpace_newline depth)
      (by rw [← hbehind]; rfl) fun pos => hbehind ▸ ih hnext hfields fuel pos (by omega)
    exact ⟨pos₃, (readFields_value hname ((starts_printAt depth value).solid _) hmid).trans hmore⟩

theorem reads_of_bare {depth : Nat} {value : Json} (hbare : Bare (printAt depth value))
    (h : ∀ rest pos, Ends rest → ∃ pos', readScalar ⟨printAt depth value ++ rest, pos⟩ =
      .ok (value.reread, ⟨rest, pos'⟩)) : Reads depth value := by
  intro rest fuel pos hrest hfuel
  obtain ⟨c, more, hstart, hc⟩ := hbare
  obtain ⟨pos', hscalar⟩ := h rest pos hrest
  rw [hstart] at hfuel hscalar ⊢
  obtain ⟨fuel, rfl⟩ := Nat.exists_eq_succ_of_ne_zero (by simp at hfuel; omega : fuel ≠ 0)
  exact ⟨pos', (readValue_bare ⟨c, more ++ rest, rfl, hc⟩).trans hscalar⟩

theorem reads_int (depth : Nat) (n : Int) : Reads depth (.int n) := by
  have hprint : printAt depth (.int n) = Text.ofInt n := by rw [printAt]
  refine reads_of_bare (hprint ▸ bare_ofInt n) fun rest pos hrest => ?_
  rw [hprint]
  exact readScalar_ofInt n hrest pos

theorem reads_decimal (depth : Nat) (value : Decimal) : Reads depth (.decimal value) := by
  have hprint : printAt depth (.decimal value) = value.text := by rw [printAt]
  refine reads_of_bare (hprint ▸ bare_text value) fun rest pos hrest => ?_
  rw [hprint]
  exact value.readScalar_text hrest pos

theorem reads_nil (depth : Nat) : Reads depth (.list []) := by
  intro rest fuel pos _ hfuel
  rw [printAt] at hfuel ⊢
  obtain ⟨fuel, rfl⟩ := Nat.exists_eq_succ_of_ne_zero (by simp at hfuel; omega : fuel ≠ 0)
  exact ⟨_, rfl⟩

theorem reads_empty (depth : Nat) : Reads depth (.object []) := by
  intro rest fuel pos _ hfuel
  rw [printAt] at hfuel ⊢
  obtain ⟨fuel, rfl⟩ := Nat.exists_eq_succ_of_ne_zero (by simp at hfuel; omega : fuel ≠ 0)
  exact ⟨_, rfl⟩

theorem reads_str (depth : Nat) (t : Text) : Reads depth (.str t) := by
  intro rest fuel pos hrest hfuel
  rw [printAt] at hfuel ⊢
  obtain ⟨fuel, rfl⟩ := Nat.exists_eq_succ_of_ne_zero
    (by simp [printText] at hfuel; omega : fuel ≠ 0)
  obtain ⟨pos', hstring⟩ := readString_printText pos t hrest.ne_nil
  exact ⟨pos', readValue_str hstring⟩

theorem reads_list {depth : Nat} {item : Json} {items : List Json}
    (hitem : Reads (depth + 1) item) (hitems : ∀ item ∈ items, Reads (depth + 1) item) :
    Reads depth (.list (item :: items)) := by
  intro rest fuel pos hrest hfuel
  rw [printAt] at hfuel ⊢
  simp only [List.cons_append, List.nil_append, List.append_assoc, List.length_cons,
    List.length_append] at hfuel ⊢
  obtain ⟨fuel, rfl⟩ := Nat.exists_eq_succ_of_ne_zero (by omega : fuel ≠ 0)
  have hstarts := starts_printAt (depth + 1) item
  obtain ⟨pos', hread⟩ := readItems_printItems hitem hitems rest fuel
    (pos + 1 + (newline (depth + 1)).length) (by omega)
  refine ⟨pos', readValue_list (skipSpace_append (isSpace_newline _) (hstarts.solid _) _) ?_ hread⟩
  obtain ⟨c, more, hstart, -, hbracket⟩ := hstarts
  rw [hstart]
  exact fun heq => hbracket (Option.some.inj heq)

theorem reads_object {depth : Nat} {name : Text} {value : Json} {fields : List (Text × Json)}
    (hvalue : Reads (depth + 1) value) (hfields : ∀ field ∈ fields, Reads (depth + 1) field.2) :
    Reads depth (.object ((name, value) :: fields)) := by
  intro rest fuel pos hrest hfuel
  rw [printAt] at hfuel ⊢
  simp only [colon_blank, List.cons_append, List.nil_append, List.append_assoc, List.length_cons,
    List.length_append] at hfuel ⊢
  obtain ⟨fuel, rfl⟩ := Nat.exists_eq_succ_of_ne_zero (by omega : fuel ≠ 0)
  obtain ⟨pos', hread⟩ := readFields_printFields hvalue hfields rest fuel
    (pos + 1 + (newline (depth + 1)).length) (by omega)
  exact ⟨pos', readValue_object (skipSpace_append (isSpace_newline _) (by rfl) _) nofun hread⟩

mutual

/-- A printed value is read back. -/
theorem reads (depth : Nat) : ∀ value, Reads depth value
  | .null => reads_of_bare ⟨_, _, rfl, .inl rfl⟩ fun _ _ _ => ⟨_, rfl⟩
  | .bool false => reads_of_bare ⟨_, _, rfl, .inl rfl⟩ fun _ _ _ => ⟨_, rfl⟩
  | .bool true => reads_of_bare ⟨_, _, rfl, .inl rfl⟩ fun _ _ _ => ⟨_, rfl⟩
  | .int n => reads_int depth n
  | .decimal value => reads_decimal depth value
  | .str t => reads_str depth t
  | .list [] => reads_nil depth
  | .list (item :: items) => reads_list (reads (depth + 1) item) (readsItems (depth + 1) items)
  | .object [] => reads_empty depth
  | .object ((_, value) :: fields) =>
    reads_object (reads (depth + 1) value) (readsFields (depth + 1) fields)

theorem readsItems (depth : Nat) : ∀ items : List Json, ∀ item ∈ items, Reads depth item
  | [] => nofun
  | item :: items => List.forall_mem_cons.2 ⟨reads depth item, readsItems depth items⟩

theorem readsFields (depth : Nat) :
    ∀ fields : List (Text × Json), ∀ field ∈ fields, Reads depth field.2
  | [] => nofun
  | (_, value) :: fields => List.forall_mem_cons.2 ⟨reads depth value, readsFields depth fields⟩

end

/-- A printed document is read back. -/
theorem parse_print (value : Json) : parse (value.print ++ ['\n']) = .ok value.reread := by
  have hmark : (value.print ++ ['\n']).head? ≠ some (Char.ofNat 0xFEFF) := by
    intro heq
    have hmem : Char.ofNat 0xFEFF ∈ value.print ++ ['\n'] := List.mem_of_mem_head? heq
    have hplain := (plain_printAt 0 value).append (t := ['\n']) (by simp [Text.Plain])
    exact absurd (hplain _ hmem).1 (by decide)
  have hsolid : Solid (value.print ++ ['\n']) := (starts_printAt 0 value).solid _
  obtain ⟨pos', hread⟩ := reads 0 value ['\n'] (2 * (value.print ++ ['\n']).length + 2) 0
    (.inr rfl) (by rw [List.length_append, print]; omega)
  rw [parse, if_neg hmark, skipSpace_solid hsolid]
  dsimp only [bind, Except.bind]
  rw [print] at hread ⊢
  rw [hread]
  rfl

end TodoTracker.Json
