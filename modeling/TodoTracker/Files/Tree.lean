import TodoTracker.Files.Error
import TodoTracker.Files.Path

/-!
# File trees

A file tree says what is at each location: a file with its bytes, a link with the text of its
target, or a directory. Each location has at most one entry, and the root is always a directory.
What is below a directory is what has the directory's location in front of its own.
-/

set_option autoImplicit false

namespace TodoTracker

inductive Entry
  | file (bytes : Bytes)
  | link (target : Text)
  | directory
  deriving DecidableEq, Repr

structure FileTree where
  entries : List (Location × Entry)
  nodup : (entries.map (·.1)).Nodup

namespace FileTree

def empty : FileTree := ⟨[], List.nodup_nil⟩

def lookup? (tree : FileTree) (location : Location) : Option Entry :=
  if location = [] then some .directory
  else (tree.entries.find? fun entry => entry.1 == location).map (·.2)

/-- Remove what is at a location. What is below it stays. -/
def erase (tree : FileTree) (location : Location) : FileTree where
  entries := tree.entries.filter fun entry => entry.1 != location
  nodup := tree.nodup.sublist (List.filter_sublist.map _)

/-- Put an entry at a location, in place of what is there. -/
def insert (tree : FileTree) (location : Location) (entry : Entry) : FileTree where
  entries := (tree.erase location).entries ++ [(location, entry)]
  nodup := by
    rw [List.map_append, List.nodup_append]
    refine ⟨(tree.erase location).nodup, by simp, ?_⟩
    intro a ha b hb hab
    subst hab
    obtain ⟨x, hx, rfl⟩ := List.mem_map.1 ha
    simp only [List.map_cons, List.map_nil, List.mem_singleton] at hb
    simp [erase, List.mem_filter, hb] at hx

theorem mem_of_lookup? {tree : FileTree} {location : Location} {entry : Entry}
    (hl : location ≠ []) (h : tree.lookup? location = some entry) :
    (location, entry) ∈ tree.entries := by
  rw [lookup?, if_neg hl, Option.map_eq_some_iff] at h
  obtain ⟨found, hf, rfl⟩ := h
  have hk := List.find?_some hf
  have hm := List.mem_of_find?_eq_some hf
  simp only [beq_iff_eq] at hk
  simpa [← hk] using hm

/-- The names in a directory with what each is. -/
def children (tree : FileTree) (location : Location) : List (Text × Entry) :=
  tree.entries.filterMap fun (place, entry) =>
    if place != [] && place.dropLast == location then some (place.getLast?.getD [], entry)
    else none

/-- The locations of all directories. -/
def directories (tree : FileTree) : List Location :=
  [] :: tree.entries.filterMap fun (place, entry) =>
    if entry = .directory then some place else none

/-- Remove what is at a location and everything below it. -/
def prune (tree : FileTree) (location : Location) : FileTree where
  entries := tree.entries.filter fun entry => !Location.within entry.1 location
  nodup := tree.nodup.sublist (List.filter_sublist.map _)

end FileTree

end TodoTracker
