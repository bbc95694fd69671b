import TodoTracker.Proofs.Pattern.TicketPattern
import TodoTracker.Proofs.Text.Numeral
import TodoTracker.Proofs.Text.Search

/-!
# Keys of tasks

The key of a task is its project, a hyphen and a number. It is written in parentheses behind a
signal word. The default pattern reads the whole key back, whatever follows that is no word
character.
-/

set_option autoImplicit false

namespace TodoTracker

/-- A key whose project is a capital letter and at least one more capital letter or digit. -/
structure TicketKey where
  project : Text
  number : Nat
  shape : ∃ c letters, project = c :: letters ∧ Text.isAsciiUpper c = true ∧ letters ≠ [] ∧
    ∀ d ∈ letters, (Text.isAsciiUpper d || Text.isAsciiDigit d) = true

instance : Inhabited TicketKey where
  default := ⟨['A', 'A'], 0, 'A', ['A'], rfl, rfl, List.cons_ne_nil _ _, List.forall_mem_singleton.2 rfl⟩

namespace TicketKey

variable (key : TicketKey)

def text : Text := key.project ++ '-' :: Text.ofNat key.number

/-- The key as it is written for a marker. -/
def written : Text := '(' :: (key.text ++ [')'])

theorem keyText_default (t : Text) :
    Splice.keyText t ({} : Settings).insertionFormat = '(' :: (t ++ [')']) := rfl

theorem length_written : key.written.length = key.text.length + 2 := by
  simp [written]

theorem keyChar_of_mem_project {c : Char} (h : c ∈ key.project) :
    (Text.isAsciiUpper c || Text.isAsciiDigit c) = true := by
  obtain ⟨d, letters, hproject, hd, -, hletters⟩ := key.shape
  rw [hproject] at h
  cases h with
  | head => simp [hd]
  | tail _ h => exact hletters c h

/-- The characters of a key. -/
theorem of_mem_text {c : Char} (h : c ∈ key.text) :
    (Text.isAsciiUpper c || Text.isAsciiDigit c) = true ∨ c = '-' := by
  rw [text, List.mem_append, List.mem_cons] at h
  rcases h with h | h | h
  · exact .inl (key.keyChar_of_mem_project h)
  · exact .inr h
  · left
    rw [Text.isAsciiDigit_of_asciiDigit (Text.asciiDigit_of_mem_ofNat h), Bool.or_true]

theorem not_mem_text {c : Char} (hkey : (Text.isAsciiUpper c || Text.isAsciiDigit c) = false)
    (hhyphen : c ≠ '-') : c ∉ key.text := by
  intro h
  rcases key.of_mem_text h with h | h
  · rw [hkey] at h
    cases h
  · exact hhyphen h

theorem not_mem_written {c : Char} (hkey : (Text.isAsciiUpper c || Text.isAsciiDigit c) = false)
    (hhyphen : c ≠ '-') (hopen : c ≠ '(') (hclose : c ≠ ')') : c ∉ key.written := by
  simp only [written, List.mem_cons, List.mem_append, List.not_mem_nil, or_false, not_or]
  exact ⟨hopen, key.not_mem_text hkey hhyphen, hclose⟩

/-- The default pattern takes a whole key where no word character is next to it. -/
theorem keyLength?_text (before : Option Char) (rest : Text)
    (hbefore : before.any Text.isWord = false) (hrest : rest.head?.any Text.isWord = false) :
    Pattern.keyLength? before (key.text ++ rest) = some key.text.length := by
  obtain ⟨c, letters, hproject, hc, hletters, hkey⟩ := key.shape
  have htext : key.text ++ rest =
      c :: (letters ++ ('-' :: (Text.ofNat key.number ++ rest))) := by
    simp [text, hproject]
  have hfirst : (letters ++ ('-' :: (Text.ofNat key.number ++ rest))).takeWhile
      Pattern.keySet.contains = letters := by
    apply Text.takeWhile_append_of_head
    · intro d hd
      rw [Pattern.keySet_contains]
      exact hkey d hd
    · rw [List.head?_cons]
      decide
  have hsecond : (Text.ofNat key.number ++ rest).takeWhile Pattern.digitSet.contains =
      Text.ofNat key.number := by
    apply Text.takeWhile_append_of_head
    · intro d hd
      rw [Pattern.digitSet_contains]
      exact Text.isDigit_of_asciiDigit (Text.asciiDigit_of_mem_ofNat hd)
    · cases rest with
      | nil => rfl
      | cons d rest =>
        have hd : Text.isWord d = false := hrest
        rw [List.head?_cons, Option.any_some, Pattern.digitSet_contains]
        cases hdigit : Text.isDigit d with
        | false => rfl
        | true =>
          rw [Pattern.isWord_of_isDigit hdigit] at hd
          cases hd
  rw [htext, Pattern.keyLength?.eq_def, if_neg (by simp [hbefore])]
  dsimp only
  rw [hfirst, List.drop_left, Pattern.upperSet_contains, hc, if_neg (by simpa using hletters)]
  simp only [hsecond, List.drop_left]
  rw [if_neg (by simp [hrest, Text.ofNat_ne_nil]), text, hproject]
  simp only [List.length_append, List.length_cons]
  congr 1
  omega

end TicketKey

end TodoTracker
