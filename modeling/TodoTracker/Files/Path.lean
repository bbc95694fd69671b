import TodoTracker.Text.Case

/-!
# Paths

A path is a root, which is empty for a relative path, and the names below it. Empty names and
single dots say nothing and are dropped; double dots are kept, because what they lead to depends
on links. A location is a path without links and dots, as the list of the names from the root.
-/

set_option autoImplicit false

namespace TodoTracker

structure Path where
  /-- How many slashes the path starts with: two are a root of its own, more count as one. -/
  slashes : Nat
  names : List Text
  deriving DecidableEq, Repr

/-- The names from the root down to a file or directory, none of them a link or a dot. -/
abbrev Location := List Text

namespace Path

def ofText (t : Text) : Path :=
  let count := (t.takeWhile (· == '/')).length
  ⟨if count ≤ 2 then count else 1, (Text.splitOn '/' t).filter fun n => n != [] && n != ['.']⟩

def ofLocation (location : Location) : Path := ⟨1, location⟩

def isAbsolute (path : Path) : Bool := 0 < path.slashes

def text (path : Path) : Text :=
  if path.slashes = 0 ∧ path.names = [] then ['.']
  else List.replicate path.slashes '/' ++ Text.joinWith ['/'] path.names

/-- A relative path taken from `base`; an absolute one stands for itself. -/
def join (base path : Path) : Path :=
  if path.isAbsolute then path else ⟨base.slashes, base.names ++ path.names⟩

def parent (path : Path) : Path := ⟨path.slashes, path.names.dropLast⟩

/-- The last name, empty for a root and for the current directory. -/
def name (path : Path) : Text := path.names.getLast?.getD []

/-- The last dot of a name and what follows it. A name that starts or ends with its last dot has
no suffix. -/
def suffixOf (name : Text) : Text :=
  let tail := name.reverse.takeWhile (· != '.')
  let size := tail.length
  if size = 0 ∨ name.length ≤ size + 1 then [] else name.drop (name.length - size - 1)

def suffix (path : Path) : Text := suffixOf path.name

end Path

namespace Location

def text (location : Location) : Text := (Path.ofLocation location).text

/-- Whether `location` is `base` or lies below it. -/
def within (location base : Location) : Bool := base.isPrefixOf location

/-- How `location` is written in messages and anchors: from `base` if it lies there, else from the
root. -/
def relativeText (location base : Location) : Text :=
  if location.within base then (Path.mk 0 (location.drop base.length)).text else location.text

end Location

end TodoTracker
