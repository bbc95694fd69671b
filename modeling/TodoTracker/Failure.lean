import TodoTracker.Edit.Splice
import TodoTracker.Files.Error
import TodoTracker.Git.Quoted
import TodoTracker.Json.Parser
import TodoTracker.Settings.Error

/-!
# Failures

Everything that can go wrong, by cause, and its wording. A failure of the task store is told apart
from the others, because a scan goes on after it.
-/

set_option autoImplicit false

namespace TodoTracker

/-- How a task document deviates from its form where a field is needed. `kind` names the kind of
value that was found. -/
inductive DocumentFlaw
  | notInteger (text : Text)
  | notNumber (kind : Text)
  | undefinedNumber
  | infiniteNumber
  | notIterable (kind : Text)
  /-- A member of a list that should hold pairs has another length. -/
  | notPair (index length : Nat)
  | notSequence (index : Nat)
  | noFields (kind method : Text)
  | noItems (kind : Text)
  | notName (kind : Text)
  /-- A field that a task always has is given a second time. -/
  | repeatedField (name : Text)
  | textIndex
  deriving DecidableEq, Repr

def DocumentFlaw.message : DocumentFlaw → Text
  | .notInteger text => "invalid literal for int() with base 10: ".toList ++ Text.quoted text
  | .notNumber kind =>
    "int() argument must be a string, a bytes-like object or a real number, not '".toList ++
      kind ++ ['\x27']
  | .undefinedNumber => "cannot convert float NaN to integer".toList
  | .infiniteNumber => "cannot convert float infinity to integer".toList
  | .notIterable kind => '\x27' :: kind ++ "' object is not iterable".toList
  | .notPair index length =>
    "dictionary update sequence element #".toList ++ Text.ofNat index ++ " has length ".toList ++
      Text.ofNat length ++ "; 2 is required".toList
  | .notSequence index =>
    "cannot convert dictionary update sequence element #".toList ++ Text.ofNat index ++
      " to a sequence".toList
  | .noFields kind method =>
    '\x27' :: kind ++ "' object has no attribute '".toList ++ method ++ ['\x27']
  | .noItems kind => '\x27' :: kind ++ "' object does not support item assignment".toList
  | .notName kind => "unhashable type: '".toList ++ kind ++ ['\x27']
  | .repeatedField name =>
    "TaskStore.put_task() got multiple values for argument '".toList ++ name ++ ['\x27']
  | .textIndex => "list indices must be integers or slices, not str".toList

/-- Why a task document cannot be loaded. -/
inductive LoadFlaw
  | file (error : FileError)
  | decode (error : Utf8.DecodeError)
  | json (doc : Text) (error : Json.ParseError)
  | notDocument (path : Text)
  | nullByte

def LoadFlaw.message : LoadFlaw → Text
  | .file error => error.message
  | .decode error => error.message
  | .json doc error => error.message doc
  | .notDocument path => path ++ " is not a task store".toList
  | .nullByte => "embedded null byte".toList

/-- What the task store reports. -/
inductive StoreError
  | notFound (key : Text)
  | load (path : Text) (flaw : LoadFlaw)
  | write (path : Text) (error : FileError)
  /-- A failure of the store itself, with its own words. -/
  | refused (text : Text)

def StoreError.message : StoreError → Text
  | .notFound key => "Task not found: ".toList ++ key
  | .load path flaw => "Failed to load ".toList ++ path ++ ": ".toList ++ flaw.message
  | .write path error => "Failed to write ".toList ++ path ++ ": ".toList ++ error.message
  | .refused text => text

inductive Failure
  | store (error : StoreError)
  | file (error : FileError)
  | source (path : Text) (flaw : SourceFlaw)
  | settings (error : SettingsError)
  | repetitionTooLarge
  | rootNotFound (root : Text)
  | overlap (splices : Overlap)
  | twoContents (file : Text) (line : Int)
  | lineRange
  | columnRange
  /-- Text is to be searched for comments, and its kind of file has none. -/
  | noGrammar
  | nullByte
  | linkLoop (path : Text)
  | ignoreRule (line : Text)
  | ignorePattern (error : Pattern.PatternError)
  | quotedPath (error : Git.QuoteError)
  | encoding (error : Utf8.DecodeError)
  | document (flaw : DocumentFlaw)

namespace Failure

def message : Failure → Text
  | .store error => error.message
  | .file error => error.message
  | .source path flaw => flaw.message path
  | .settings error => error.message
  | .repetitionTooLarge => Pattern.Flaw.message .repetitionTooLarge
  | .rootNotFound root => "Scan root not found: ".toList ++ root
  | .overlap splices => splices.message
  | .twoContents name line =>
    name ++ ':' :: Text.ofInt line ++ " queued with two different originals".toList
  | .lineRange => "list index out of range".toList
  | .columnRange => "string index out of range".toList
  | .noGrammar => "'NoneType' object has no attribute 'line_prefixes'".toList
  | .nullByte => "embedded null byte".toList
  | .linkLoop path => "Symlink loop from ".toList ++ Text.quoted path
  | .ignorePattern error => error.message []
  | .ignoreRule line => "Invalid git pattern: ".toList ++ Text.quoted line
  | .quotedPath error => error.message
  | .encoding error => error.message
  | .document flaw => flaw.message

/-- Failures that say a value was not usable. The command line reports them in one line. -/
def isBadValue : Failure → Bool
  | .source _ _ | .settings _ | .rootNotFound _ | .overlap _ | .twoContents _ _ | .nullByte
  | .ignoreRule _ | .quotedPath _ | .encoding _ => true
  | .document (.notInteger _) | .document .undefinedNumber | .document (.notPair _ _) => true
  | _ => false

end Failure

/-! ### What does not fail -/

theorem bind_eq_ok {ε α β : Type} {x : Except ε α} {f : α → Except ε β} {b : β}
    (h : x >>= f = .ok b) : ∃ a, x = .ok a ∧ f a = .ok b := by
  cases x with
  | error e => cases h
  | ok a => exact ⟨a, rfl, h⟩

theorem exists_bind_eq_ok {ε α β : Type} {x : Except ε α} {f : α → Except ε β} (hx : ∃ a, x = .ok a)
    (hf : ∀ a, x = .ok a → ∃ b, f a = .ok b) : ∃ b, x >>= f = .ok b := by
  obtain ⟨a, rfl⟩ := hx
  exact hf a rfl

theorem exists_mapM_eq_ok {ε α β : Type} {f : α → Except ε β} {as : List α}
    (h : ∀ a ∈ as, ∃ b, f a = .ok b) : ∃ bs, as.mapM f = .ok bs := by
  induction as with
  | nil => exact ⟨[], rfl⟩
  | cons a as ih =>
    rw [List.mapM_cons]
    exact exists_bind_eq_ok (h a List.mem_cons_self) fun b _ =>
      exists_bind_eq_ok (ih fun a hmem => h a (List.mem_cons_of_mem _ hmem)) fun bs _ => ⟨_, rfl⟩

theorem mapM_eq_ok {ε α β : Type} {f : α → Except ε β} {g : α → β} {as : List α}
    (h : ∀ a ∈ as, f a = .ok (g a)) : as.mapM f = .ok (as.map g) := by
  induction as with
  | nil => rfl
  | cons a as ih =>
    rw [List.forall_mem_cons] at h
    rw [List.mapM_cons, h.1, ih h.2]
    rfl

theorem mapError_eq_ok {ε ε' α : Type} {x : Except ε α} {f : ε → ε'} {a : α}
    (h : x.mapError f = .ok a) : x = .ok a := by
  cases x with
  | error e => cases h
  | ok b =>
    cases h
    rfl

end TodoTracker
