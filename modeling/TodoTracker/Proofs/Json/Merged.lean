import TodoTracker.Proofs.Json.ReadBack
import TodoTracker.Proofs.Task.Anchors

/-!
# Names that are given once

What is read from a document has no name twice in any of its objects: of two fields with one name
the reader keeps one. So reading what is printed of it keeps its fields.
-/

set_option autoImplicit false

namespace TodoTracker

namespace Fields

variable {α : Type}

theorem nodup_merge {fields : Fields α} (h : fields.names.Nodup) (later : Fields α) :
    (fields.merge later).names.Nodup := by
  induction later generalizing fields with
  | nil => exact h
  | cons field later ih => exact ih (nodup_set h)

theorem nodup_ofList (pairs : List (Text × α)) : (ofList pairs).names.Nodup :=
  @nodup_merge _ [] List.nodup_nil pairs

theorem mem_merge {fields later : Fields α} {field : Text × α} (h : field ∈ fields.merge later) :
    field ∈ fields ∨ field ∈ later := by
  induction later generalizing fields with
  | nil => exact .inl h
  | cons next later ih =>
    rcases ih h with hset | hlater
    · rcases mem_set hset with hold | rfl
      · exact .inl hold
      · exact .inr List.mem_cons_self
    · exact .inr (List.mem_cons_of_mem _ hlater)

theorem mem_of_mem_ofList {pairs : List (Text × α)} {field : Text × α} (h : field ∈ ofList pairs) :
    field ∈ pairs :=
  (mem_merge h).resolve_left List.not_mem_nil

theorem merge_eq_append {fields later : Fields α} (h : (fields ++ later).names.Nodup) :
    fields.merge later = fields ++ later := by
  induction later generalizing fields with
  | nil => exact (List.append_nil fields).symm
  | cons field later ih =>
    have hnew : ¬fields.has field.1 = true := by
      rw [has_eq_true_iff]
      rw [names, List.map_append, List.nodup_append] at h
      exact fun hmem => h.2.2 _ hmem _ List.mem_cons_self rfl
    have hset : fields.set field.1 field.2 = fields ++ [field] := by rw [set, if_neg hnew]
    change merge (fields.set field.1 field.2) later = _
    rw [hset, ih (by rwa [List.append_assoc]), List.append_assoc]
    rfl

/-- Fields whose names are given once stay as they are. -/
theorem ofList_eq_self {fields : Fields α} (h : fields.names.Nodup) : ofList fields = fields :=
  merge_eq_append h

end Fields

namespace Json

/-- No object in the value has a name twice. -/
inductive Merged : Json → Prop
  | null : Merged .null
  | bool (b : Bool) : Merged (.bool b)
  | int (n : Int) : Merged (.int n)
  | decimal (value : Decimal) : Merged (.decimal value)
  | str (t : Text) : Merged (.str t)
  | list {items : List Json} (h : ∀ item ∈ items, Merged item) : Merged (.list items)
  | object {fields : Fields Json} (hnames : fields.names.Nodup)
      (h : ∀ field ∈ fields, Merged field.2) : Merged (.object fields)

theorem merged_readScalar {cur cur' : Cursor} {value : Json}
    (h : readScalar cur = .ok (value, cur')) : value.Merged := by
  rw [readScalar] at h
  split at h
  · rename_i word value' hword
    cases h
    have hmem := List.mem_of_find?_eq_some hword
    simp only [words, List.mem_cons, Prod.mk.injEq, List.not_mem_nil, or_false] at hmem
    rcases hmem with ⟨-, rfl⟩ | ⟨-, rfl⟩ | ⟨-, rfl⟩ | ⟨-, rfl⟩ | ⟨-, rfl⟩ | ⟨-, rfl⟩
    · exact .null
    · exact .bool true
    · exact .bool false
    · exact .decimal _
    · exact .decimal _
    · exact .decimal _
  · rw [readNumber] at h
    generalize (if cur.rest.head? = some '-' then 1 else 0) = sign at h
    generalize (if (digitRun (cur.rest.drop sign)).head? = some '0' then 1
      else (digitRun (cur.rest.drop sign)).length) = whole at h
    dsimp only at h
    split at h
    · cases h
    split at h
    · cases h
      exact .int _
    · cases h
      exact .decimal _

/-- What is read has no name twice in any of its objects. -/
theorem merged_read (fuel : Nat) :
    (∀ cur value cur', readValue fuel cur = .ok (value, cur') → value.Merged) ∧
    (∀ cur items cur', readItems fuel cur = .ok (items, cur') → ∀ item ∈ items, item.Merged) ∧
    ∀ cur fields cur', readFields fuel cur = .ok (fields, cur') →
      ∀ field ∈ fields, Merged field.2 := by
  induction fuel with
  | zero => refine ⟨fun _ _ _ h => ?_, fun _ _ _ h => ?_, fun _ _ _ h => ?_⟩ <;> cases h
  | succ fuel ih =>
    obtain ⟨ihvalue, ihitems, ihfields⟩ := ih
    refine ⟨fun cur value cur' h => ?_, fun cur items cur' h => ?_, fun cur fields cur' h => ?_⟩
    · rw [readValue] at h
      split at h
      · obtain ⟨⟨t, next⟩, -, h⟩ := bind_eq_ok h
        cases h
        exact .str t
      · dsimp only at h
        split at h
        · cases h
          exact .list (List.forall_mem_nil _)
        · obtain ⟨⟨items, next⟩, hitems, h⟩ := bind_eq_ok h
          cases h
          exact .list (ihitems _ _ _ hitems)
      · dsimp only at h
        split at h
        · cases h
          exact .object List.nodup_nil (List.forall_mem_nil _)
        · obtain ⟨⟨fields, next⟩, hfields, h⟩ := bind_eq_ok h
          cases h
          exact .object (Fields.nodup_ofList fields) fun field hfield =>
            ihfields _ _ _ hfields field (Fields.mem_of_mem_ofList hfield)
      · exact merged_readScalar h
    · rw [readItems] at h
      obtain ⟨⟨item, next⟩, hitem, h⟩ := bind_eq_ok h
      dsimp only at h
      split at h
      · cases h
        exact List.forall_mem_singleton.2 (ihvalue _ _ _ hitem)
      · obtain ⟨⟨items, after⟩, hitems, h⟩ := bind_eq_ok h
        cases h
        exact List.forall_mem_cons.2 ⟨ihvalue _ _ _ hitem, ihitems _ _ _ hitems⟩
      · cases h
    · rw [readFields] at h
      split at h
      · cases h
      obtain ⟨⟨name, next⟩, -, h⟩ := bind_eq_ok h
      dsimp only at h
      split at h
      · cases h
      obtain ⟨⟨value, next'⟩, hvalue, h⟩ := bind_eq_ok h
      dsimp only at h
      split at h
      · cases h
        exact List.forall_mem_singleton.2 (ihvalue _ _ _ hvalue)
      · obtain ⟨⟨fields, after⟩, hfields, h⟩ := bind_eq_ok h
        cases h
        exact List.forall_mem_cons.2 ⟨ihvalue _ _ _ hvalue, ihfields _ _ _ hfields⟩
      · cases h

theorem merged_parse {doc : Text} {value : Json} (h : parse doc = .ok value) : value.Merged := by
  rw [parse] at h
  split at h
  · cases h
  obtain ⟨⟨read, cur⟩, hread, h⟩ := bind_eq_ok h
  dsimp only at h
  split at h
  · cases h
    exact (merged_read _).1 _ _ _ hread
  · cases h

end Json

end TodoTracker
