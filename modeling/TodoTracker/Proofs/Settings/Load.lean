import TodoTracker.Proofs.Files.Regular
import TodoTracker.Proofs.Text.Decoded
import TodoTracker.Settings.Load

/-!
# Loading the settings

The content of the settings file decides what loading comes to. Bytes that are no text fail with
the flaw of the encoding, which is neither a warning nor an error of the settings. A text that is
no JSON object leaves the defaults and gives one warning. An object is taken as it is, unless the
ticket patterns it names are neither a text nor a list of texts.
-/

set_option autoImplicit false

namespace TodoTracker.Settings

/-! ### The values in a document -/

/-- What can be given as ticket patterns: a text, or a list of texts. -/
def OffersPatterns : Json → Prop
  | .str _ => True
  | .list items => ∀ item ∈ items, ∃ t, item = .str t
  | _ => False

theorem exists_mapM_asText?_iff (items : List Json) :
    (∃ texts, items.mapM Json.asText? = some texts) ↔ ∀ item ∈ items, ∃ t, item = .str t := by
  induction items with
  | nil => simp
  | cons item items ih =>
    rw [List.forall_mem_cons, ← ih, List.mapM_cons]
    cases item with
    | str t => cases items.mapM Json.asText? <;> simp [Json.asText?]
    | _ => simp [Json.asText?]

theorem readPatterns_of_offers {value : Json} (h : OffersPatterns value) :
    ∃ texts, readPatterns value = .ok texts := by
  cases value with
  | str t => exact ⟨[t], rfl⟩
  | list items =>
    obtain ⟨texts, htexts⟩ := (exists_mapM_asText?_iff items).2 h
    exact ⟨texts, by rw [readPatterns, htexts]⟩
  | _ => exact h.elim

theorem readPatterns_of_not_offers {value : Json} (h : ¬OffersPatterns value) :
    readPatterns value = .error (.settings .patternsType) := by
  cases value with
  | str t => exact absurd trivial h
  | list items =>
    have hnone : items.mapM Json.asText? = none := by
      cases htexts : items.mapM Json.asText? with
      | none => rfl
      | some texts => exact absurd ((exists_mapM_asText?_iff items).1 ⟨texts, htexts⟩) h
    rw [readPatterns, hnone]
  | _ => rfl

/-- Whatever patterns a document names are patterns; it need not name any. -/
def PatternsOffered (doc : Fields Json) : Prop :=
  ∀ value, Fields.get? (sectionOf doc) "ticket_patterns".toList = some value →
    OffersPatterns value

variable {doc : Fields Json}

theorem ofDocument_of_offered (h : PatternsOffered doc) (source : Option Text) (directory : Text) :
    ∃ settings warnings, ofDocument doc source directory = .ok (settings, warnings) ∧
      settings.source = source := by
  rw [ofDocument]
  cases hvalue : Fields.get? (sectionOf doc) "ticket_patterns".toList with
  | none => exact ⟨_, _, rfl, rfl⟩
  | some value =>
    obtain ⟨texts, htexts⟩ := readPatterns_of_offers (h value hvalue)
    dsimp only
    rw [htexts]
    exact ⟨_, _, rfl, rfl⟩

theorem ofDocument_of_not_offered (h : ¬PatternsOffered doc) (source : Option Text)
    (directory : Text) : ofDocument doc source directory = .error (.settings .patternsType) := by
  simp only [PatternsOffered, not_forall] at h
  obtain ⟨value, hvalue, hother⟩ := h
  rw [ofDocument, hvalue]
  dsimp only
  rw [readPatterns_of_not_offers hother]
  rfl

/-- Without a document the settings are the defaults, with the project of the directory. -/
theorem ofDocument_nil (source : Option Text) (directory : Text) :
    ofDocument [] source directory = .ok ({ project := projectOf directory, source }, []) := rfl

/-! ### The file with the document -/

variable {tree : FileTree} {repo path : Path} {location : Location} {absent others : List Text}
  {name : Text} {bytes : Bytes}

theorem existsAt_of_readBytes (h : tree.readBytes path = .ok bytes) :
    tree.existsAt path = .ok true := by
  rw [FileTree.readBytes] at h
  rw [FileTree.existsAt, FileTree.entry?]
  split at h
  · cases h
  · rename_i hnull
    rw [if_neg hnull]
    split at h
    · rename_i hfind
      rw [hfind]
      rfl
    · cases h
    · cases h

theorem findFile_of_absent (rest : List Text)
    (h : ∀ other ∈ absent, tree.existsAt (repo.join ⟨0, [other]⟩) = .ok false) :
    findFile tree repo (absent ++ rest) = findFile tree repo rest := by
  induction absent with
  | nil => rfl
  | cons other absent ih =>
    rw [List.forall_mem_cons] at h
    rw [List.cons_append, findFile, h.1]
    exact ih h.2

/-- The document comes from the first file that there is. -/
theorem findFile_eq (hnames : fileNames = absent ++ name :: others)
    (habsent : ∀ other ∈ absent, tree.existsAt (repo.join ⟨0, [other]⟩) = .ok false)
    (hbytes : tree.readBytes (repo.join ⟨0, [name]⟩) = .ok bytes) :
    findFile tree repo fileNames = (readFile tree (repo.join ⟨0, [name]⟩) name).map
      fun found => (found.1, some name, found.2) := by
  rw [hnames, findFile_of_absent _ habsent, findFile, existsAt_of_readBytes hbytes]
  cases readFile tree (repo.join ⟨0, [name]⟩) name <;> rfl

theorem load_of_found {source : Option Text} {warnings : List Text}
    (hrepo : tree.resolve repo = .ok location)
    (hfind : findFile tree repo fileNames = .ok (doc, source, warnings)) :
    load tree repo = (ofDocument doc source (Path.ofLocation location).name).map
      fun found => (found.1, warnings ++ found.2) := by
  rw [load, hfind, hrepo]
  change (ofDocument doc source (Path.ofLocation location).name >>= _) = _
  cases ofDocument doc source (Path.ofLocation location).name <;> rfl

theorem readFile_of_not_text (hbytes : tree.readBytes path = .ok bytes)
    (h : ∀ text, Utf8.encode text ≠ bytes) (name : Text) :
    ∃ flaw, readFile tree path name = .error (.encoding flaw) := by
  cases hread : Utf8.decode bytes with
  | ok text => exact absurd (Utf8.decode_eq_ok_iff.1 hread) (h text)
  | error flaw =>
    refine ⟨flaw, ?_⟩
    rw [readFile, StoredTasks.readDocument, hbytes]
    dsimp only
    rw [hread]

theorem readDocument_encode {text : Text} (hbytes : tree.readBytes path = .ok (Utf8.encode text)) :
    StoredTasks.readDocument tree path = .ok (Text.unifyNewlines text) := by
  rw [StoredTasks.readDocument, hbytes]
  dsimp only
  rw [Utf8.decode_encode]

theorem readFile_of_object {text : Text} (hbytes : tree.readBytes path = .ok (Utf8.encode text))
    (h : Json.parse (Text.unifyNewlines text) = .ok (.object doc)) :
    readFile tree path name = .ok (doc, []) := by
  rw [readFile, readDocument_encode hbytes]
  dsimp only
  rw [h]

theorem readFile_of_not_object {text : Text}
    (hbytes : tree.readBytes path = .ok (Utf8.encode text))
    (h : ∀ doc, Json.parse (Text.unifyNewlines text) ≠ .ok (.object doc)) (name : Text) :
    ∃ warning, readFile tree path name = .ok ([], [warning]) := by
  rw [readFile, readDocument_encode hbytes]
  dsimp only
  cases hparse : Json.parse (Text.unifyNewlines text) with
  | error flaw => exact ⟨_, rfl⟩
  | ok value =>
    cases value with
    | object doc => exact absurd hparse (h doc)
    | _ => exact ⟨_, rfl⟩

/-- What loading the settings comes to for every content of the first settings file there is: the
flaw of the encoding exactly if the content is no text, the defaults with one warning if the text
is no JSON object, and else the settings in the object or the error about its ticket patterns. -/
theorem load_by_content (hrepo : tree.resolve repo = .ok location)
    (hnames : fileNames = absent ++ name :: others)
    (habsent : ∀ other ∈ absent, tree.existsAt (repo.join ⟨0, [other]⟩) = .ok false)
    (hbytes : tree.readBytes (repo.join ⟨0, [name]⟩) = .ok bytes) :
    ((∀ text, Utf8.encode text ≠ bytes) → ∃ flaw, load tree repo = .error (.encoding flaw)) ∧
    ∀ text, Utf8.encode text = bytes →
      ((∀ doc, Json.parse (Text.unifyNewlines text) ≠ .ok (.object doc)) →
        ∃ warning, load tree repo =
          .ok ({ project := projectOf (Path.ofLocation location).name, source := some name },
            [warning])) ∧
      ∀ doc, Json.parse (Text.unifyNewlines text) = .ok (.object doc) →
        (PatternsOffered doc → ∃ settings warnings, load tree repo = .ok (settings, warnings) ∧
          settings.source = some name) ∧
        (¬PatternsOffered doc → load tree repo = .error (.settings .patternsType)) := by
  have hfind := findFile_eq hnames habsent hbytes
  constructor
  · intro h
    obtain ⟨flaw, hread⟩ := readFile_of_not_text hbytes h name
    rw [hread] at hfind
    refine ⟨flaw, ?_⟩
    rw [load, hfind]
    rfl
  rintro text rfl
  constructor
  · intro h
    obtain ⟨warning, hread⟩ := readFile_of_not_object hbytes h name
    rw [hread] at hfind
    refine ⟨warning, ?_⟩
    rw [load_of_found hrepo hfind, ofDocument_nil]
    rfl
  intro doc h
  rw [readFile_of_object hbytes h] at hfind
  rw [load_of_found hrepo hfind]
  constructor
  · intro hoffered
    obtain ⟨settings, warnings, hdoc, hsource⟩ :=
      ofDocument_of_offered hoffered (some name) (Path.ofLocation location).name
    rw [hdoc]
    exact ⟨settings, warnings, rfl, hsource⟩
  · intro hother
    rw [ofDocument_of_not_offered hother]
    rfl

/-- A repository whose settings file is one byte that starts no character. -/
def garbledTree : FileTree where
  entries := [(["x".toList], .directory), (["x".toList, ".lotar.json".toList], .file [0xFF])]
  nodup := by decide

theorem load_by_content_garbled :
    ((garbledTree.resolve (.ofLocation ["x".toList]) = .ok ["x".toList] ∧
        garbledTree.readBytes (.ofLocation ["x".toList, ".lotar.json".toList]) = .ok [0xFF]) ∧
      ∀ text, Utf8.encode text ≠ [0xFF]) ∧
    ∃ flaw, load garbledTree (.ofLocation ["x".toList]) = .error (.encoding flaw) := by
  have hregular : garbledTree.Regular := by decide
  have hx : garbledTree.lookup? ["x".toList] = some .directory := by decide
  have hfile : garbledTree.lookup? ["x".toList, ".lotar.json".toList] = some (.file [0xFF]) := by
    decide
  have hrepo := hregular.resolve hx (by simp)
  have hbytes : garbledTree.readBytes (.ofLocation ["x".toList, ".lotar.json".toList]) =
      .ok [0xFF] := by
    rw [FileTree.readBytes, hregular.find hfile (by simp)]
    rfl
  have hgarbled : ∀ text, Utf8.encode text ≠ [0xFF] := by
    intro text h
    cases Utf8.decode_eq_ok_iff.2 h
  have hnames : fileNames = [] ++ ".lotar.json".toList :: ["lotar.json".toList] := rfl
  exact ⟨⟨⟨hrepo, hbytes⟩, hgarbled⟩, (load_by_content hrepo hnames (by simp) hbytes).1 hgarbled⟩

end TodoTracker.Settings
