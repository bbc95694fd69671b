import TodoTracker.Comment.Grammar

/-!
# Comment spans

The comments of a text, line by line. A line is read from left to right: the first delimiter opens
a comment, and of several at one place the longest. A comment without a closer takes the rest of
the line; a block ends at the first occurrence of its closer, which may be on a later line. Blocks
do not nest, and nothing inside of a comment opens another.
-/

set_option autoImplicit false

namespace TodoTracker

/-- The columns of a comment and, inside of its delimiters, of its body. -/
structure Span where
  start : Nat
  stop : Nat
  bodyStart : Nat
  bodyStop : Nat
  deriving DecidableEq, Repr

namespace Grammar

/-- The better of two delimiters found: the one further left, and of two at one place the
longer. -/
def better (found : Nat × Delimiter) : Option (Nat × Delimiter) → Nat × Delimiter
  | none => found
  | some best =>
    if found.1 < best.1 ∨ (found.1 = best.1 ∧ best.2.opener.length < found.2.opener.length) then
      found
    else best

/-- The first delimiter in `rest` and where it is. -/
def firstOpener (grammar : Grammar) (rest : Text) : Option (Nat × Delimiter) :=
  grammar.delimiters.foldl (fun best delimiter =>
    match Text.indexOf? delimiter.opener rest with
    | none => best
    | some i => some (better (i, delimiter) best)) none

/-- The comments from column `pos` on, where no comment is open, and the closer that is still
awaited at the end of the line. -/
def codeSpans (grammar : Grammar) (pos : Nat) (rest : Text) : List Span × Option Text :=
  if rest.isEmpty then ([], none)
  else match grammar.firstOpener rest with
    | none => ([], none)
    | some (i, delimiter) =>
      let stop := pos + rest.length
      let bodyStart := pos + i + delimiter.opener.length
      let body := rest.drop (i + delimiter.opener.length)
      match delimiter.closer with
      | none => ([⟨pos + i, stop, bodyStart, stop⟩], none)
      | some closer =>
        match Text.indexOf? closer body with
        | none => ([⟨pos + i, stop, bodyStart, stop⟩], some closer)
        | some j =>
          let span : Span := ⟨pos + i, bodyStart + j + closer.length, bodyStart, bodyStart + j⟩
          let after := body.drop (j + closer.length)
          if _h : after.length < rest.length then
            let (spans, pending) := codeSpans grammar (bodyStart + j + closer.length) after
            (span :: spans, pending)
          else ([span], none)
termination_by rest.length
decreasing_by exact _h

/-- The comments of a line that starts inside of a block when `pending` is its closer. -/
def lineSpans (grammar : Grammar) (pending : Option Text) (line : Text) :
    List Span × Option Text :=
  match pending with
  | none => grammar.codeSpans 0 line
  | some closer =>
    match Text.indexOf? closer line with
    | none => ([⟨0, line.length, 0, line.length⟩], pending)
    | some i =>
      let stop := i + closer.length
      let (spans, pending) := grammar.codeSpans stop (line.drop stop)
      (⟨0, stop, 0, i⟩ :: spans, pending)

def spansFrom (grammar : Grammar) (pending : Option Text) : List Text → List (List Span)
  | [] => []
  | line :: lines =>
    let (spans, pending) := grammar.lineSpans pending line
    spans :: spansFrom grammar pending lines

/-- The comments of each line. -/
def spans (grammar : Grammar) (lines : List Text) : List (List Span) :=
  grammar.spansFrom none lines

end Grammar

end TodoTracker
