import TodoTracker.Settings.Basic

/-!
# Settings from a document

The document of a repository has the settings as fields with a common prefix, as fields of a
section of their own, or both; the section wins. A value of the wrong kind is ignored, most of them
with a warning; only ticket patterns of the wrong kind are refused.
-/

set_option autoImplicit false

namespace TodoTracker.Settings

/-- A list of words: the parts of a text between commas, or the texts in a list, without blanks
around them and without empty ones. -/
def readWords (value : Json) : List Text :=
  match value with
  | .str t => ((Text.splitOn ',' t).map Text.trim).filter (! ·.isEmpty)
  | .list items => ((items.filterMap Json.asText?).map Text.trim).filter (! ·.isEmpty)
  | _ => []

def sectionMark : Text := "scan_".toList

/-- The settings in a document, by their names without the prefix. -/
def sectionOf (doc : Fields Json) : Fields Json :=
  let flat : Fields Json := Fields.ofList (doc.filterMap fun field =>
    if sectionMark.isPrefixOf field.1 then some (field.1.drop sectionMark.length, field.2)
    else none)
  match Fields.get? doc "scan".toList with
  | some (.object nested) => flat.merge nested
  | _ => flat

/-- The value of a setting, where null counts as not given. -/
def given? (fields : Fields Json) (name : String) : Option Json :=
  match Fields.get? fields name.toList with
  | none | some .null => none
  | some value => some value

def readPatterns (value : Json) : Except Failure (List Text) :=
  match value with
  | .str t => .ok [t]
  | .list items =>
    match items.mapM Json.asText? with
    | some texts => .ok texts
    | none => .error (.settings .patternsType)
  | _ => .error (.settings .patternsType)

/-- A switch: its value, and a warning if the document gives something else. -/
def readSwitch (fields : Fields Json) (name : String) (default : Bool) : Bool × List Text :=
  match given? fields name with
  | none => (default, [])
  | some (.bool b) => (b, [])
  | some _ =>
    (default, ["Ignored scan.".toList ++ name.toList ++ ": expected true or false".toList])

def readRadius (fields : Fields Json) (default : Int) : Int × List Text :=
  match given? fields "search_radius" with
  | none => (default, [])
  | some (.int n) => (n, [])
  | some _ => (default, ["Ignored scan.search_radius: expected an integer".toList])

def orElse (words : List Text) (default : List Text) : List Text :=
  if words.isEmpty then default else words

/-- The first of the values that is present. -/
def firstPresent (values : List (Option Json)) : Json :=
  ((values.filterMap id).find? Json.isPresent).getD .null

/-- The project: the one that the document names, else the one that the directory suggests. -/
def readProject (fields doc : Fields Json) (directory : Text) : Text :=
  match firstPresent [Fields.get? fields "project".toList,
      Fields.get? doc "default_project".toList, Fields.get? doc "project".toList] with
  | .str t => if Text.isEmptyLine t then projectOf directory else Text.upper (Text.trim t)
  | _ => projectOf directory

/-- The settings in a document, with warnings about values that are ignored. -/
def ofDocument (doc : Fields Json) (source : Option Text) (directory : Text) :
    Except Failure (Settings × List Text) := do
  let fields := sectionOf doc
  let default : Settings := {}
  let patterns ← match Fields.get? fields "ticket_patterns".toList with
    | none => pure default.ticketPatterns
    | some value => readPatterns value
  let (ticketWords, warnings₁) := readSwitch fields "enable_ticket_words" default.ticketWords
  let (mentions, warnings₂) := readSwitch fields "enable_mentions" default.mentions
  let (strip, warnings₃) := readSwitch fields "strip_attributes" default.stripAttributes
  let (radius, warnings₄) := readRadius fields default.searchRadius
  let settings : Settings := {
    signalWords := orElse (((Fields.get? fields "signal_words".toList).map readWords).getD [])
      default.signalWords
    ticketPatterns := patterns
    ticketWords
    issueTypes := orElse (((Fields.get? fields "issue_types".toList).map readWords).getD [])
      default.issueTypes
    mentions
    stripAttributes := strip
    insertionFormat := match Fields.get? fields "insertion_format".toList with
      | some (.str t) => if t.isEmpty then default.insertionFormat else t
      | _ => default.insertionFormat
    searchRadius := radius
    project := readProject fields doc directory
    source }
  return (settings, warnings₁ ++ warnings₂ ++ warnings₃ ++ warnings₄)

end TodoTracker.Settings
