import TodoTracker.Anchor.Locate
import TodoTracker.Files.Access
import TodoTracker.Task.Anchor
import TodoTracker.Text.Line

/-!
# Checking an anchor

An anchor is checked against the file that it names, under its new name if the file was renamed.
The key may still be on the recorded line, or have drifted to another one, or be gone. A file that
cannot be read says nothing about its anchors.
-/

set_option autoImplicit false

namespace TodoTracker

inductive AnchorStanding
  | confirmed
  | drifted
  | missing
  | renamed
  | unreadable
  deriving DecidableEq, Repr

def AnchorStanding.text : AnchorStanding → Text
  | .confirmed => "confirmed".toList
  | .drifted => "drifted".toList
  | .missing => "missing".toList
  | .renamed => "renamed".toList
  | .unreadable => "unreadable".toList

structure AnchorVerdict where
  key : Text
  anchor : Anchor
  state : AnchorStanding
  /-- Where the anchor belongs now. -/
  place : Option Anchor := none
  /-- The anchor was dropped. -/
  pruned : Bool := false
  message : Text := []
  deriving DecidableEq, Repr

/-- Whether the anchor belongs to another place than the recorded one. -/
def AnchorVerdict.moved (check : AnchorVerdict) : Bool :=
  check.place.any (· != check.anchor)

/-- How anchors are kept up to date. -/
structure Reconciler where
  repo : Location
  /-- How many lines away a key is searched first. -/
  radius : Int
  /-- Old and new paths of renamed files. -/
  renames : Fields Text
  /-- Nothing is recorded. -/
  dryRun : Bool

namespace Reconciler

/-- The file that an anchor names; relative paths are from the repository. -/
def path (reconciler : Reconciler) (file : Text) : Path :=
  (Path.ofLocation reconciler.repo).join (.ofText file)

/-- The new path of a file, if it was renamed. -/
def newName? (reconciler : Reconciler) (file : Text) : Option Text :=
  match Fields.get? reconciler.renames file with
  | some [] => none
  | found => found

/-- The path under which a file counts. -/
def effective (reconciler : Reconciler) (file : Text) : Text :=
  (Fields.get? reconciler.renames file).getD file

/-- Where a key is in the lines of a file: near the expected line, or else anywhere. -/
def locate (reconciler : Reconciler) (lines : List Text) (line : Int) (key : Text) : Option Int :=
  (KeyToken.nearbyLine? lines line key reconciler.radius).or (KeyToken.nearestLine? lines line key)

/-- What the lines of the file say about an anchor. -/
def judge (reconciler : Reconciler) (key : Text) (anchor : Anchor) (lines : List Text) :
    AnchorVerdict :=
  let newName := reconciler.newName? anchor.file
  let current : Anchor := ⟨newName.getD anchor.file, anchor.line⟩
  match reconciler.locate lines anchor.line key with
  | none =>
    { key, anchor, state := .missing, place := newName.map fun _ => current,
      message := "key not found in file".toList }
  | some line =>
    let state :=
      if newName.isSome then .renamed else if line = anchor.line then .confirmed else .drifted
    { key, anchor, state, place := some ⟨current.file, line⟩ }

/-- Check an anchor. -/
def inspect (reconciler : Reconciler) (tree : FileTree) (key : Text) (anchor : Anchor) :
    Except Failure AnchorVerdict := do
  let newName := reconciler.newName? anchor.file
  let current : Anchor := ⟨newName.getD anchor.file, anchor.line⟩
  let path := reconciler.path current.file
  if !(← tree.existsAt path) then
    return { key, anchor, state := .missing, place := newName.map fun _ => current,
             message := "file not found".toList }
  match tree.readText path with
  | .ok text => return reconciler.judge key anchor text.contents
  | .error e =>
    match e with
    | .file _ | .source _ _ => return { key, anchor, state := .unreadable, message := e.message }
    | _ => throw e

/-- Whether an anchor is in a file below one of the roots, under its old or its new name. -/
def isBelow (reconciler : Reconciler) (tree : FileTree) (roots : List Location)
    (anchor : Anchor) : Except Failure Bool := do
  let old ← tree.resolve (reconciler.path anchor.file)
  if roots.any old.within then return true
  match Fields.get? reconciler.renames anchor.file with
  | none => return false
  | some name => do
    let new ← tree.resolve (reconciler.path name)
    return roots.any new.within

end Reconciler

end TodoTracker
