import TodoTracker.Proofs.Marker.Brackets
import TodoTracker.Proofs.Marker.TicketEntry
import TodoTracker.Proofs.Task.Sound

/-!
# Tags of a marker

A block is cut into entries at its commas before the tags in it are looked at. So a comma between
two tags ends the entry that names them: the tags behind it stand in entries without an equals sign,
which are passed over. Blanks separate tags without cutting the entry.
-/

set_option autoImplicit false

namespace TodoTracker

namespace Text

/-- Breaking at separators is splitting as lists are split. -/
theorem splitWhen_eq_splitOnP (p : Char → Bool) (t : Text) : splitWhen p t = t.splitOnP p := by
  induction t with
  | nil => rfl
  | cons c t ih =>
    rw [splitWhen, List.splitOnP_cons_eq_if_modifyHead, ih]
    split
    · rfl
    · obtain ⟨piece, pieces, hsplit⟩ := List.exists_cons_of_ne_nil (List.splitOnP_ne_nil p t)
      rw [hsplit]
      rfl

variable {p : Char → Bool} {c : Char} {t : Text}

theorem splitWhen_append (hc : p c = true) (s t : Text) :
    splitWhen p (s ++ c :: t) = splitWhen p s ++ splitWhen p t := by
  simp only [splitWhen_eq_splitOnP, List.splitOnP_append_cons s t hc]

theorem splitWhen_eq_singleton (h : ∀ c ∈ t, p c = false) : splitWhen p t = [t] := by
  rw [splitWhen_eq_splitOnP, List.splitOnP_eq_singleton h]

/-- The first piece goes up to the first separator, and the others are what follows. -/
theorem exists_splitWhen_eq (p : Char → Bool) (t : Text) :
    ∃ others, splitWhen p t = t.takeWhile (fun c => !p c) :: others ∧
      ∀ piece ∈ others, ∀ c ∈ piece, c ∈ t.dropWhile fun c => !p c := by
  have hplain : ∀ c ∈ t.takeWhile fun c => !p c, p c = false :=
    fun c hc => by simpa using List.mem_takeWhile_imp hc
  have ht : t = t.takeWhile (fun c => !p c) ++ t.dropWhile (fun c => !p c) :=
    List.takeWhile_append_dropWhile.symm
  cases hrest : t.dropWhile fun c => !p c with
  | nil =>
    rw [hrest, List.append_nil] at ht
    refine ⟨[], ?_, nofun⟩
    rw [← ht]
    exact splitWhen_eq_singleton (ht ▸ hplain)
  | cons c rest =>
    have hc : p c = true := by
      have := List.head?_dropWhile_not (fun c => !p c) t
      rw [hrest] at this
      simpa using this
    rw [hrest] at ht
    refine ⟨splitWhen p rest, ?_, fun piece hpiece d hd =>
      List.mem_cons_of_mem _ (mem_of_mem_splitWhen hpiece hd)⟩
    conv_lhs => rw [ht]
    rw [splitWhen_append hc, splitWhen_eq_singleton hplain]
    rfl

/-- A text between the blanks at its ends. -/
theorem exists_trim (t : Text) : ∃ lead trail, t = lead ++ (trim t ++ trail) ∧
    (∀ c ∈ lead, isBlank c = true) ∧ ∀ c ∈ trail, isBlank c = true := by
  refine ⟨t.takeWhile isBlank, ((t.dropWhile isBlank).reverse.takeWhile isBlank).reverse, ?_,
    fun c hc => List.mem_takeWhile_imp hc,
    fun c hc => List.mem_takeWhile_imp (List.mem_reverse.1 hc)⟩
  rw [trim, trimWhen, trimEndWhen, ← List.reverse_append, List.takeWhile_append_dropWhile,
    List.reverse_reverse, List.takeWhile_append_dropWhile]

end Text

/-- A separator of tags. -/
def separatesTags (c : Char) : Bool := c == ',' || Text.isBlank c

section ReadTags

variable {c : Char} {t name : Text}

theorem readTags_append (hc : separatesTags c = true) (s t : Text) :
    readTags (s ++ c :: t) = readTags s ++ readTags t := by
  have hsplit := Text.splitWhen_append hc s t
  rw [readTags, readTags, readTags, ← List.filter_append]
  exact congrArg _ hsplit

/-- Separators in front of a text name no tag. -/
theorem readTags_separators (h : ∀ c ∈ t, separatesTags c = true) (s : Text) :
    readTags (t ++ s) = readTags s := by
  induction t with
  | nil => rfl
  | cons c t ih =>
    have hc := readTags_append (h c List.mem_cons_self) [] (t ++ s)
    rw [List.nil_append] at hc
    rw [List.cons_append, hc, ih fun d hd => h d (List.mem_cons_of_mem _ hd)]
    rfl

theorem readTags_eq_nil (h : ∀ c ∈ t, separatesTags c = true) : readTags t = [] := by
  have hnil := readTags_separators h []
  rwa [List.append_nil] at hnil

/-- A name in front of separators is a tag. -/
theorem readTags_name (hne : name ≠ []) (hname : ∀ c ∈ name, separatesTags c = false)
    (ht : t.head?.all separatesTags = true) : readTags (name ++ t) = name :: readTags t := by
  have hone : readTags name = [name] := by
    have hsplit : Text.splitWhen separatesTags name = [name] := Text.splitWhen_eq_singleton hname
    show (Text.splitWhen separatesTags name).filter (fun piece => !piece.isEmpty) = [name]
    rw [hsplit]
    simp [hne]
  cases t with
  | nil =>
    rw [List.append_nil, hone]
    rfl
  | cons c t =>
    have hc : separatesTags c = true := by simpa using ht
    have hrest := readTags_append hc [] t
    rw [List.nil_append] at hrest
    rw [readTags_append hc, hone, hrest]
    rfl

theorem readTags_trim (t : Text) : readTags (Text.trim t) = readTags t := by
  obtain ⟨lead, trail, ht, hlead, htrail⟩ := Text.exists_trim t
  have hblank : ∀ {c : Char}, Text.isBlank c = true → separatesTags c = true := by
    intro c hc
    simp [separatesTags, hc]
  have hfront := readTags_separators (fun c hc => hblank (hlead c hc)) (Text.trim t ++ trail)
  conv_rhs => rw [ht, hfront]
  cases trail with
  | nil => rw [List.append_nil]
  | cons c trail =>
    rw [readTags_append (hblank (htrail c List.mem_cons_self)),
      readTags_eq_nil fun d hd => hblank (htrail d (List.mem_cons_of_mem _ hd)), List.append_nil]

end ReadTags

/-- What may name a tag inside of a block. -/
structure TagName (name : Text) : Prop where
  ne_nil : name ≠ []
  plain : ∀ c ∈ name, Text.isBlank c = false ∧ c ≠ ',' ∧ c ≠ '[' ∧ c ≠ ']' ∧ c ≠ '='

/-- What may stand between two tags: blanks or commas. -/
structure TagGap (gap : Text) : Prop where
  ne_nil : gap ≠ []
  separates : ∀ c ∈ gap, separatesTags c = true

instance (name : Text) : Decidable (TagName name) :=
  decidable_of_iff (name ≠ [] ∧ name.all (fun c =>
    !Text.isBlank c && c != ',' && c != '[' && c != ']' && c != '=') = true) <| by
    constructor
    · rintro ⟨hne, hall⟩
      exact ⟨hne, by simpa [and_assoc] using hall⟩
    · rintro ⟨hne, hplain⟩
      exact ⟨hne, by simpa [and_assoc] using hplain⟩

instance (gap : Text) : Decidable (TagGap gap) :=
  decidable_of_iff (gap ≠ [] ∧ gap.all separatesTags = true)
    ⟨fun h => ⟨h.1, List.all_eq_true.1 h.2⟩, fun h => ⟨h.ne_nil, List.all_eq_true.2 h.separates⟩⟩

/-- Further tags, each behind its gap. -/
def tagsBehind (more : List (Text × Text)) : Text := more.flatMap fun item => item.1 ++ item.2

/-- The tags up to the first gap that holds a comma. -/
def tagsBeforeComma (more : List (Text × Text)) : List Text :=
  (more.takeWhile fun item => !item.1.contains ',').map Prod.snd

/-- What stands in front of the first comma. -/
def beforeComma (t : Text) : Text := t.takeWhile fun c => !(c == ',')

theorem beforeComma_append {s : Text} (h : ',' ∉ s) (t : Text) :
    beforeComma (s ++ t) = s ++ beforeComma t := by
  rw [beforeComma, List.takeWhile_append_of_pos]
  · rfl
  · intro c hc
    have hne : c ≠ ',' := fun heq => h (heq ▸ hc)
    simp [hne]

theorem beforeComma_cons (t : Text) : beforeComma (',' :: t) = [] := rfl

theorem TagName.not_separates {name : Text} (h : TagName name) :
    ∀ c ∈ name, separatesTags c = false := by
  intro c hc
  simp [separatesTags, (h.plain c hc).1, (h.plain c hc).2.1]

theorem TagName.comma_not_mem {name : Text} (h : TagName name) : ',' ∉ name :=
  fun hc => (h.plain ',' hc).2.1 rfl

/-- Of further tags those are read that stand in front of the first comma. -/
theorem readTags_tagsBehind {more : List (Text × Text)}
    (hmore : ∀ item ∈ more, TagGap item.1 ∧ TagName item.2) :
    (beforeComma (tagsBehind more)).head?.all separatesTags = true ∧
      readTags (beforeComma (tagsBehind more)) = tagsBeforeComma more := by
  induction more with
  | nil => exact ⟨rfl, rfl⟩
  | cons item more ih =>
    obtain ⟨gap, name⟩ := item
    obtain ⟨⟨hgap, hname⟩, hmore⟩ := List.forall_mem_cons.1 hmore
    obtain ⟨hhead, hread⟩ := ih hmore
    have htext : tagsBehind ((gap, name) :: more) = gap ++ (name ++ tagsBehind more) := by
      simp [tagsBehind]
    rw [htext, tagsBeforeComma, List.takeWhile_cons]
    by_cases hcomma : ',' ∈ gap
    · obtain ⟨blanks, rest, rfl, hfirst⟩ := List.eq_append_cons_of_mem hcomma
      have hblanks : ∀ c ∈ blanks, separatesTags c = true :=
        fun c hc => hgap.separates c (List.mem_append_left _ hc)
      rw [List.append_assoc, beforeComma_append hfirst, List.cons_append, beforeComma_cons,
        List.append_nil, if_neg (by simp), readTags_eq_nil hblanks]
      refine ⟨?_, rfl⟩
      cases blanks with
      | nil => rfl
      | cons c blanks => simpa using hblanks c List.mem_cons_self
    · have hnames : readTags (name ++ beforeComma (tagsBehind more)) =
          name :: tagsBeforeComma more := by
        rw [readTags_name hname.ne_nil hname.not_separates hhead, hread]
      rw [beforeComma_append hcomma, beforeComma_append hname.comma_not_mem,
        readTags_separators hgap.separates, hnames, if_pos (by simpa using hcomma)]
      refine ⟨?_, rfl⟩
      obtain ⟨c, rest, rfl⟩ := List.exists_cons_of_ne_nil hgap.ne_nil
      simpa using hgap.separates c List.mem_cons_self

/-- The first tag and further ones, each behind its gap. -/
def writtenTags (first : Text) (more : List (Text × Text)) : Text := first ++ tagsBehind more

/-- The tags that are read of those that are written in an entry. -/
theorem readTags_writtenTags {first : Text} {more : List (Text × Text)} (hfirst : TagName first)
    (hmore : ∀ item ∈ more, TagGap item.1 ∧ TagName item.2) :
    readTags (Text.trim (beforeComma (writtenTags first more))) =
      first :: tagsBeforeComma more := by
  obtain ⟨hhead, hread⟩ := readTags_tagsBehind hmore
  rw [readTags_trim, writtenTags, beforeComma_append hfirst.comma_not_mem,
    readTags_name hfirst.ne_nil hfirst.not_separates hhead, hread]

namespace Attributes

def isTag (name : Text) : Bool := name == "tag".toList || name == "tags".toList

/-- The attributes that name tags. -/
def tagFields (attributes : Attributes) : Attributes := attributes.filter fun field => isTag field.1

theorem tagFields_set_of_not {name : Text} (h : isTag name = false) (attributes : Attributes)
    (value : Text) : tagFields (Fields.set attributes name value) = tagFields attributes := by
  have hmap : ∀ fields : Attributes, tagFields
      (fields.map fun field => if field.1 == name then (name, value) else field) =
      tagFields fields := by
    intro fields
    simp only [beq_iff_eq, tagFields]
    induction fields with
    | nil => rfl
    | cons field fields ih =>
      by_cases hname : field.1 = name
      · simp [hname, h, ih]
      · simp [hname, List.filter_cons, ih]
  rw [Fields.set]
  split
  · exact hmap attributes
  · simp [tagFields, h]

/-- An entry that names no tags adds none. -/
theorem tagFields_add_of_not {entry : Text × Text} (h : isTag entry.1 = false)
    (attributes : Attributes) : tagFields (add attributes entry) = tagFields attributes := by
  rw [add]
  split <;> exact tagFields_set_of_not h attributes _

theorem tagFields_foldl_of_not {entries : List (Text × Text)}
    (h : ∀ entry ∈ entries, isTag entry.1 = false) (attributes : Attributes) :
    tagFields (entries.foldl add attributes) = tagFields attributes := by
  induction entries generalizing attributes with
  | nil => rfl
  | cons entry entries ih =>
    obtain ⟨hentry, hentries⟩ := List.forall_mem_cons.1 h
    rw [List.foldl_cons, ih hentries, tagFields_add_of_not hentry]

/-- The first entry that names tags is taken as it is. -/
theorem tagFields_add_first {entry : Text × Text} (h : isTag entry.1 = true)
    {attributes : Attributes} (hnone : tagFields attributes = []) :
    tagFields (add attributes entry) = [entry] := by
  have hnew : Fields.has attributes entry.1 = false := by
    rw [Fields.has, List.any_eq_false]
    intro field hfield hname
    have hother := List.filter_eq_nil_iff.1 hnone field hfield
    rw [beq_iff_eq.1 hname, h] at hother
    exact hother rfl
  rw [add, Fields.get?_eq_none hnew]
  simp only [Fields.set, hnew, Bool.false_eq_true, if_false]
  rw [tagFields] at hnone ⊢
  rw [List.filter_append, hnone, List.nil_append]
  simp [h]

/-- A text without an equals sign gives no attribute. -/
theorem readEntry?_of_not_mem {t : Text} (h : '=' ∉ t) : readEntry? t = none := by
  have hcut : Text.cut? ['='] t = none := by
    have hfree : Text.FreeOf ['='] t [] := Text.freeOf_of_head rfl h []
    have hindex := Text.indexOf?_append_of_free hfree
    rw [List.append_nil] at hindex
    rw [Text.cut?, hindex]
    rfl
  rw [ readEntry?, hcut]

/-- An entry whose name is `tags`. -/
theorem readEntry?_tags (t : Text) :
    readEntry? ("tags=".toList ++ t) = some ("tags".toList, Text.trim t) := by
  have hcut : Text.cut? ['='] ("tags=".toList ++ t) = some ("tags".toList, t) := rfl
  have hname : Text.lower (Text.trim "tags".toList) = "tags".toList := by decide +kernel
  rw [ readEntry?, hcut]
  simp only [hname]
  rfl

/-- The attributes that the entries of a block give. -/
def entriesOf (inner : Text) : List (Text × Text) :=
  (Text.splitOn ',' inner).filterMap readEntry?

theorem entriesOf_of_not_mem {inner : Text} (h : '=' ∉ inner) : entriesOf inner = [] := by
  rw [entriesOf, List.filterMap_eq_nil_iff]
  intro entry hentry
  exact readEntry?_of_not_mem fun hmem => h (Text.mem_of_mem_splitWhen hentry hmem)

theorem entries_blocksAt (pos : Nat) (parts : List BlockPart) :
    (((Block.blocksAt pos parts).filter Block.hasAttributes).flatMap fun block =>
      Text.splitOn ',' block.inner).filterMap readEntry? =
      parts.flatMap fun part => entriesOf part.inner := by
  induction parts generalizing pos with
  | nil => rfl
  | cons part parts ih =>
    rw [Block.blocksAt, List.filter_cons, List.flatMap_cons]
    by_cases hequals : '=' ∈ part.inner
    · rw [if_pos (by simpa [Block.hasAttributes] using hequals), List.flatMap_cons,
        List.filterMap_append, ih]
      rfl
    · rw [if_neg (by simpa [Block.hasAttributes] using hequals), ih,
        entriesOf_of_not_mem hequals, List.nil_append]

/-- The attributes of a text are those of its top-level blocks, one after the other. -/
theorem parse_layout {t : Text} {parts : List BlockPart} {rest : Text} (h : Layout t parts rest) :
    parse t = (parts.flatMap fun part => entriesOf part.inner).foldl add [] := by
  rw [parse, Block.attributeBlocks_layout h, entries_blocksAt]

/-- A block with tags gives one attribute, which ends at the first comma. -/
theorem entriesOf_tags {first : Text} {more : List (Text × Text)} (hfirst : TagName first)
    (hmore : ∀ item ∈ more, TagGap item.1 ∧ TagName item.2) :
    entriesOf ("tags=".toList ++ writtenTags first more) =
      [("tags".toList, Text.trim (beforeComma (writtenTags first more)))] := by
  have hequals : '=' ∉ writtenTags first more := by
    intro hmem
    rcases List.mem_append.1 hmem with hmem | hmem
    · exact (hfirst.plain '=' hmem).2.2.2.2 rfl
    · obtain ⟨item, hitem, hmem⟩ := List.mem_flatMap.1 hmem
      obtain ⟨hgap, hname⟩ := hmore item hitem
      rcases List.mem_append.1 hmem with hmem | hmem
      · exact absurd (hgap.separates '=' hmem) (by decide)
      · exact (hname.plain '=' hmem).2.2.2.2 rfl
  have hsplit : ∃ others, Text.splitOn ',' ("tags=".toList ++ writtenTags first more) =
      ("tags=".toList ++ beforeComma (writtenTags first more)) :: others ∧
        ∀ entry ∈ others, '=' ∉ entry := by
    obtain ⟨others, hsplit, hothers⟩ := Text.exists_splitWhen_eq (· == ',')
      ("tags=".toList ++ writtenTags first more)
    refine ⟨others, hsplit, fun entry hentry hmem => hequals ?_⟩
    exact (List.dropWhile_suffix _).subset (hothers entry hentry '=' hmem)
  obtain ⟨others, hsplit, hothers⟩ := hsplit
  have hrest : others.filterMap readEntry? = [] := by
    rw [List.filterMap_eq_nil_iff]
    exact fun entry hentry => readEntry?_of_not_mem (hothers entry hentry)
  rw [entriesOf, hsplit, List.filterMap_cons_some ( readEntry?_tags _), hrest]

end Attributes

/-- A block that gives no attribute named `tag` or `tags`. -/
def BlockPart.NamesNoTags (part : BlockPart) : Prop :=
  ∀ entry ∈ Text.splitOn ',' part.inner, ∀ cut ∈ Text.cut? ['='] entry,
    Text.lower (Text.trim cut.1) ≠ "tag".toList ∧ Text.lower (Text.trim cut.1) ≠ "tags".toList

namespace Attributes

theorem isTag_of_namesNoTags {part : BlockPart} (h : part.NamesNoTags) :
    ∀ entry ∈ entriesOf part.inner, isTag entry.1 = false := by
  rintro ⟨name, value⟩ hentry
  obtain ⟨entry, hmem, hread⟩ := List.mem_filterMap.1 hentry
  rw [ readEntry?] at hread
  split at hread
  · cases hread
  · rename_i written text hcut
    dsimp only at hread
    split at hread
    · cases hread
    · cases hread
      obtain ⟨htag, htags⟩ := h entry hmem (written, text) hcut
      rw [isTag, beq_false_of_ne htag, beq_false_of_ne htags]
      rfl

/-- Where one block has tags, the attribute that names tags is that of this block. -/
theorem tagFields_parse {t front first : Text} {more : List (Text × Text)}
    {before after : List BlockPart} {rest : Text} (hfirst : TagName first)
    (hmore : ∀ item ∈ more, TagGap item.1 ∧ TagName item.2)
    (hlayout : Layout t
      (before ++ ⟨front, "tags=".toList ++ writtenTags first more⟩ :: after) rest)
    (hothers : ∀ part ∈ before ++ after, part.NamesNoTags) :
    tagFields (parse t) =
      [("tags".toList, Text.trim (beforeComma (writtenTags first more)))] := by
  have hnone : ∀ parts : List BlockPart, (∀ part ∈ parts, part.NamesNoTags) →
      ∀ entry ∈ parts.flatMap fun part => entriesOf part.inner, isTag entry.1 = false := by
    intro parts hparts entry hentry
    obtain ⟨part, hpart, hentry⟩ := List.mem_flatMap.1 hentry
    exact isTag_of_namesNoTags (hparts part hpart) entry hentry
  obtain ⟨hbefore, hafter⟩ := List.forall_mem_append.1 hothers
  rw [parse_layout hlayout, List.flatMap_append, List.flatMap_cons, entriesOf_tags hfirst hmore,
    List.foldl_append, List.singleton_append, List.foldl_cons,
    tagFields_foldl_of_not (hnone after hafter)]
  apply tagFields_add_first
  · rfl
  · rw [tagFields_foldl_of_not (hnone before hbefore)]
    rfl

end Attributes

namespace Seed

theorem isTag_of_hintName? {name field : Text} (h : hintName? name = some field) :
    Attributes.isTag name = false := by
  cases htag : Attributes.isTag name with
  | false => rfl
  | true =>
    simp only [Attributes.isTag, Bool.or_eq_true, beq_iff_eq] at htag
    rcases htag with rfl | rfl <;> cases h

/-- The tags that attributes give are those in the attributes that name tags. -/
theorem tags_foldl (attributes : Attributes) (seed : Seed) :
    (attributes.foldl add seed).tags =
      seed.tags ++ (Attributes.tagFields attributes).flatMap fun field => readTags field.2 := by
  induction attributes generalizing seed with
  | nil => simp [Attributes.tagFields]
  | cons given attributes ih =>
    have hadd : (add seed given).tags =
        seed.tags ++ if Attributes.isTag given.1 then readTags given.2 else [] := by
      rw [add]
      split
      · rename_i name hname
        rw [isTag_of_hintName? hname]
        simp
      · show (if Attributes.isTag given.1 = true then _ else _ : Seed).tags = _
        cases Attributes.isTag given.1 with
        | false => exact (List.append_nil _).symm
        | true => rfl
    have hfilter : Attributes.tagFields (given :: attributes) =
        if Attributes.isTag given.1 then given :: Attributes.tagFields attributes
        else Attributes.tagFields attributes := List.filter_cons
    rw [List.foldl_cons, ih, hadd, hfilter]
    cases Attributes.isTag given.1 <;> simp

/-- Where there are tags, one field has them. -/
theorem exists_fields_eq {title : Text} {attributes : Attributes} {tags : List Text}
    (h : (ofAttributes title attributes).tags = tags) (hne : tags ≠ []) :
    ∃ front back : Fields Json, (ofAttributes title attributes).fields =
      front ++ ("tags".toList, .list (tags.map .str)) :: back ∧
      "tags".toList ∉ front.names ∧ "tags".toList ∉ back.names := by
  have hhints : "tags".toList ∉ (ofAttributes title attributes).hints.names :=
    not_mem_hints (by decide) List.not_mem_nil attributes
  have htitle : "tags".toList ≠ "title".toList := by decide
  have hcustom : "tags".toList ≠ "custom_fields".toList := by decide
  rw [fields, h, if_neg (by simpa using hne), List.append_assoc, List.singleton_append]
  refine ⟨_, _, rfl, ?_, ?_⟩
  · rw [Fields.names, List.map_cons, List.map_map, List.mem_cons]
    exact not_or.2 ⟨htitle, hhints⟩
  · split
    · exact List.not_mem_nil
    · exact fun hmem => hcustom (List.mem_singleton.1 hmem)

/-- The tags are a field of what is said about a task, and of the task that is recorded. -/
theorem tags_recorded {title : Text} {attributes : Attributes} {tags : List Text}
    (h : (ofAttributes title attributes).tags = tags) (hne : tags ≠ []) (key now : Text) :
    Fields.get? (ofAttributes title attributes).fields "tags".toList =
      some (.list (tags.map .str)) ∧
    (Document.newTask key now
      ((ofAttributes title attributes).fields.filter fun field => !field.2.isBlank)).field? "tags" =
      some (.list (tags.map .str)) := by
  obtain ⟨front, back, hfields, hfront, hback⟩ := exists_fields_eq h hne
  have hset : Json.isBlank (.list (tags.map .str)) = false := by simpa [Json.isBlank] using hne
  constructor
  · rw [hfields, Fields.get?_append, Fields.get?_cons, if_pos rfl, Fields.get?_eq_none]
    · rfl
    · rw [← Bool.not_eq_true, Fields.has_eq_true_iff]
      exact hfront
  · have hback' : "tags".toList ∉ Fields.names (back.filter fun field => !field.2.isBlank) :=
      fun hmem => hback ((List.filter_sublist.map _).subset hmem)
    rw [hfields, List.filter_append, List.filter_cons_of_pos (by simp [hset])]
    show Fields.get? (Fields.merge _ (_ ++ _ :: _)) _ = _
    rw [Fields.merge, List.foldl_append, List.foldl_cons]
    exact (Fields.get?_merge_of_not_mem hback').trans (Fields.get?_set_self _ _ _)

end Seed

theorem tagsBeforeComma_eq_iff {more : List (Text × Text)} :
    tagsBeforeComma more = more.map Prod.snd ↔ ∀ item ∈ more, ',' ∉ item.1 := by
  have hall : (∀ item ∈ more, ',' ∉ item.1) ↔
      (more.takeWhile fun item => !item.1.contains ',') = more := by
    rw [List.takeWhile_eq_self_iff]
    simp
  rw [hall, tagsBeforeComma]
  constructor
  · intro h
    exact (List.takeWhile_prefix _).eq_of_length (by simpa using congrArg List.length h)
  · intro h
    rw [h]

/-- Texts without an opening bracket and blocks without inner brackets, in turn. -/
theorem Layout.of_plain {parts : List BlockPart} {rest : Text}
    (hparts : ∀ part ∈ parts, '[' ∉ part.front ∧ '[' ∉ part.inner ∧ ']' ∉ part.inner)
    (hrest : '[' ∉ rest) : Layout (parts.flatMap BlockPart.text ++ rest) parts rest := by
  have hbalanced : ∀ t : Text, '[' ∉ t → ']' ∉ t → t.Balanced := by
    intro t hopen hclose
    induction t with
    | nil => exact .nil
    | cons c t ih =>
      obtain ⟨hc, hopen⟩ := List.ne_and_not_mem_of_not_mem_cons hopen
      obtain ⟨hc', hclose⟩ := List.ne_and_not_mem_of_not_mem_cons hclose
      exact .plain hc.symm hc'.symm (ih hopen hclose)
  refine ⟨rfl, fun part hpart => ?_, fun part _ hprefix => hrest ?_⟩
  · obtain ⟨hfront, hopen, hclose⟩ := hparts part hpart
    exact ⟨hfront, hbalanced part.inner hopen hclose⟩
  · exact hprefix.subset (List.mem_append_right _ List.mem_cons_self)

/-- Of the tags in a block of a marker, those up to the first comma reach the task, and no other
block that names no tags changes that. So all of them do exactly when no gap holds a comma, while
stripping the text deletes the block in any case. -/
theorem tags_reach_task {segment front first : Text} {more : List (Text × Text)}
    {before after : List BlockPart} {rest : Text} (hfirst : TagName first)
    (hmore : ∀ item ∈ more, TagGap item.1 ∧ TagName item.2)
    (hlayout : Layout segment
      (before ++ ⟨front, "tags=".toList ++ writtenTags first more⟩ :: after) rest)
    (hothers : ∀ part ∈ before ++ after, part.NamesNoTags) (title key now : Text) :
    let seed := Seed.ofAttributes title (Attributes.parse segment)
    let task := Document.newTask key now (seed.fields.filter fun field => !field.2.isBlank)
    let kept := Json.list ((first :: tagsBeforeComma more).map .str)
    let written := Json.list ((first :: more.map Prod.snd).map .str)
    Fields.get? seed.fields "tags".toList = some kept ∧ task.field? "tags" = some kept ∧
      (kept = written ↔ ∀ item ∈ more, ',' ∉ item.1) ∧
      Attributes.parse (Attributes.strip segment) = [] := by
  intro seed task kept written
  have htags : (Seed.ofAttributes title (Attributes.parse segment)).tags =
      first :: tagsBeforeComma more := by
    rw [Seed.ofAttributes, Seed.tags_foldl, Attributes.tagFields_parse hfirst hmore hlayout hothers,
      List.flatMap_cons, List.flatMap_nil, readTags_writtenTags hfirst hmore, List.append_nil,
      List.nil_append]
  obtain ⟨hseed, htask⟩ := Seed.tags_recorded htags (List.cons_ne_nil _ _) key now
  refine ⟨hseed, htask, ?_, ?_⟩
  · have hinj : Function.Injective Json.str := fun s t h => Json.str.inj h
    rw [Json.list.injEq, List.map_inj_right hinj, List.cons.injEq, tagsBeforeComma_eq_iff]
    simp
  · rw [Attributes.strip_layout hlayout]
    exact Attributes.parse_of_no_attributes (Block.attributeBlocks_kept hlayout)

/-- Three tags among other blocks: the comma cuts the last two off. -/
theorem tags_reach_task_cut :
    let first := "a".toList
    let more := [(",".toList, "b".toList), (" ".toList, "c".toList)]
    let before : List BlockPart := [⟨": fix ".toList, "effort=2d, x".toList⟩]
    let after : List BlockPart := [⟨" see ".toList, "team=core".toList⟩]
    let segment := ": fix [effort=2d, x][tags=a,b c] see [team=core] now".toList
    let seed := Seed.ofAttributes "fix".toList (Attributes.parse segment)
    (TagName first ∧ ∀ item ∈ more, TagGap item.1 ∧ TagName item.2) ∧
      Layout segment (before ++ ⟨[], "tags=".toList ++ writtenTags first more⟩ :: after)
        " now".toList ∧
      (∀ part ∈ before ++ after, part.NamesNoTags) ∧
      Fields.get? seed.fields "tags".toList = some (.list [.str "a".toList]) ∧
      Attributes.parse (Attributes.strip segment) = [] := by
  intro first more before after segment seed
  have hnames : TagName first ∧ ∀ item ∈ more, TagGap item.1 ∧ TagName item.2 := by decide +kernel
  have hothers : ∀ part ∈ before ++ after, part.NamesNoTags := by
    simp only [BlockPart.NamesNoTags]
    decide +kernel
  have hparts : ∀ part ∈ before ++ ⟨[], "tags=".toList ++ writtenTags first more⟩ :: after,
      '[' ∉ part.front ∧ '[' ∉ part.inner ∧ ']' ∉ part.inner := by
    decide +kernel
  have hrest : '[' ∉ " now".toList := by decide
  have hlayout : Layout segment
      (before ++ ⟨[], "tags=".toList ++ writtenTags first more⟩ :: after) " now".toList :=
    Layout.of_plain hparts hrest
  obtain ⟨hseed, -, -, hstrip⟩ :=
    tags_reach_task hnames.1 hnames.2 hlayout hothers "fix".toList "P-1".toList "now".toList
  exact ⟨hnames, hlayout, hothers, hseed, hstrip⟩

end TodoTracker
