import TodoTracker.Json.Value

/-!
# Tasks by key

The tasks of a document, in the order in which they were recorded. Every key has at most one task;
the operations keep that, so a look-up means the same in any order.
-/

set_option autoImplicit false

namespace TodoTracker

namespace Fields

variable {α : Type}

theorem has_eq_true_iff {fields : Fields α} {name : Text} :
    fields.has name = true ↔ name ∈ fields.names := by
  simp [has, names, List.any_eq_true, List.mem_map]

theorem names_set_of_has {fields : Fields α} {name : Text} {value : α}
    (h : fields.has name = true) : (fields.set name value).names = fields.names := by
  rw [set, if_pos h, names, List.map_map, names]
  refine List.map_congr_left fun field _ => ?_
  by_cases hn : field.1 = name <;> simp [hn]

theorem names_set_of_not_has {fields : Fields α} {name : Text} {value : α}
    (h : ¬fields.has name = true) : (fields.set name value).names = fields.names ++ [name] := by
  simp [set, h, names]

theorem nodup_set {fields : Fields α} {name : Text} {value : α} (h : fields.names.Nodup) :
    (fields.set name value).names.Nodup := by
  by_cases hn : fields.has name = true
  · rwa [names_set_of_has hn]
  · rw [names_set_of_not_has hn, List.nodup_append]
    refine ⟨h, by simp, ?_⟩
    rintro a ha b hb rfl
    rw [List.mem_singleton] at hb
    exact hn (has_eq_true_iff.2 (hb ▸ ha))

theorem nodup_erase {fields : Fields α} {name : Text} (h : fields.names.Nodup) :
    (fields.erase name).names.Nodup :=
  h.sublist (List.filter_sublist.map _)

end Fields

structure TaskMap where
  entries : Fields Json
  nodup : entries.names.Nodup

namespace TaskMap

def empty : TaskMap := ⟨[], List.nodup_nil⟩

def keys (tasks : TaskMap) : List Text := tasks.entries.names

def has (tasks : TaskMap) (key : Text) : Bool := tasks.entries.has key

/-- What is recorded for a key, which may be null. -/
def get? (tasks : TaskMap) (key : Text) : Option Json := tasks.entries.get? key

/-- The task with a key; a key with null counts as one without a task. -/
def task? (tasks : TaskMap) (key : Text) : Option Json :=
  match tasks.get? key with
  | some .null => none
  | found => found

/-- Record a task, in the place of the task that has the key already. -/
def insert (tasks : TaskMap) (key : Text) (task : Json) : TaskMap :=
  ⟨tasks.entries.set key task, Fields.nodup_set tasks.nodup⟩

def erase (tasks : TaskMap) (key : Text) : TaskMap :=
  ⟨tasks.entries.erase key, Fields.nodup_erase tasks.nodup⟩

def ofFields (fields : Fields Json) : TaskMap :=
  fields.foldl (fun tasks field => tasks.insert field.1 field.2) empty

def toJson (tasks : TaskMap) : Json := .object tasks.entries

end TaskMap

end TodoTracker
