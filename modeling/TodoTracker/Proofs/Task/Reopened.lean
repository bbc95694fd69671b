import TodoTracker.Proofs.Json.Merged
import TodoTracker.Proofs.Task.Sound
import TodoTracker.Proofs.Text.Utf8
import TodoTracker.Task.Load

/-!
# Documents that are saved and opened again

A document that was saved is read back with the fields that it had, so the number for the next key
stands in its header again. What is read from a file or made anew gives no name twice, and neither
does what comes of it by taking keys and noting the time.
-/

set_option autoImplicit false

namespace TodoTracker

namespace Json

theorem rereadFields_eq_map (fields : Fields Json) :
    rereadFields fields = fields.map fun field => (field.1, reread field.2) := by
  induction fields with
  | nil => rfl
  | cons field fields ih => rw [rereadFields, ih, List.map_cons]

theorem rereadFields_append (fields fields' : Fields Json) :
    rereadFields (fields ++ fields') = rereadFields fields ++ rereadFields fields' := by
  simp only [rereadFields_eq_map, List.map_append]

theorem names_rereadFields (fields : Fields Json) :
    Fields.names (rereadFields fields) = Fields.names fields := by
  rw [rereadFields_eq_map, Fields.names, Fields.names, List.map_map]
  rfl

theorem get?_rereadFields (fields : Fields Json) (name : Text) :
    Fields.get? (rereadFields fields) name = (Fields.get? fields name).map reread := by
  induction fields with
  | nil => rfl
  | cons field fields ih =>
    rw [rereadFields, Fields.get?_cons, Fields.get?_cons, ih]
    split <;> rfl

/-- Fields whose names are given once are all read back. -/
theorem reread_object {fields : Fields Json} (h : (Fields.names fields).Nodup) :
    reread (.object fields) = .object (rereadFields fields) := by
  rw [reread, Fields.ofList_eq_self]
  rwa [names_rereadFields]

theorem eq_object_of_reread {value : Json} {fields : Fields Json}
    (h : value.reread = .object fields) :
    ∃ written, value = .object written ∧ fields = Fields.ofList (rereadFields written) := by
  cases value with
  | object written =>
    rw [reread] at h
    exact ⟨written, rfl, (Json.object.inj h).symm⟩
  | decimal | list =>
    rw [reread] at h
    cases h
  | null | bool | int | str => cases h

end Json

namespace Document

variable {doc doc' minted : Document} {project key : Text} {bound : Int} {header : Fields Json}

/-- No name is given twice, neither in the document nor in its header. -/
structure Tidy (doc : Document) : Prop where
  names : (Fields.names doc.front ++ tasksName :: Fields.names doc.back).Nodup
  header : ∀ header, doc.header = .object header → (Fields.names header).Nodup

/-- The number for the next key is beyond `bound`. A header without it gives the number 1. -/
def Beyond (bound : Int) (doc : Document) : Prop :=
  ∃ header next, doc.header = .object header ∧
    (Fields.get? header numberName).getD (.int 1) = .int next ∧ bound < next

theorem Beyond.mono (h : doc.Beyond bound) {bound' : Int} (hle : bound' ≤ bound) :
    doc.Beyond bound' := by
  obtain ⟨header, next, hheader, hnext, hbound⟩ := h
  exact ⟨header, next, hheader, hnext, Int.lt_of_le_of_lt hle hbound⟩

/-- The documents have the same fields, the tasks apart. -/
structure SameFields (doc doc' : Document) : Prop where
  front : doc'.front = doc.front
  back : doc'.back = doc.back

namespace SameFields

theorem refl (doc : Document) : SameFields doc doc := ⟨rfl, rfl⟩

theorem header_eq (h : SameFields doc doc') : doc'.header = doc.header := by
  rw [Document.header, h.front, h.back, Document.header]

theorem tidy (h : SameFields doc doc') (hdoc : doc.Tidy) : doc'.Tidy :=
  ⟨by rw [h.front, h.back]; exact hdoc.names, h.header_eq ▸ hdoc.header⟩

theorem beyond (h : SameFields doc doc') (hdoc : doc.Beyond bound) : doc'.Beyond bound := by
  rwa [Beyond, h.header_eq]

theorem addAnchor {now : Text} {anchor : Anchor}
    (h : doc.addAnchor key anchor now = .ok (some doc')) : SameFields doc doc' := by
  obtain ⟨fields, items, -, -, hanswer⟩ := addAnchor_eq_ok h
  split at hanswer <;> cases hanswer
  exact ⟨rfl, rfl⟩

theorem removeAnchor {now : Text} {anchor : Anchor}
    (h : doc.removeAnchor key anchor now = .ok (some doc')) : SameFields doc doc' := by
  rcases removeAnchor_eq_ok h with ⟨-, hanswer⟩ | ⟨fields, items, -, -, hanswer⟩
  · cases hanswer
  · split at hanswer <;> cases hanswer
    exact ⟨rfl, rfl⟩

end SameFields

/-! ### Headers that are set -/

theorem Tidy.setHeader (h : doc.Tidy) (hheader : (Fields.names header).Nodup) :
    (doc.setHeader header).Tidy := by
  refine ⟨?_, fun header' heq => ?_⟩
  · rw [Document.setHeader]
    split
    · rename_i hfront
      dsimp only
      rw [Fields.names_set_of_has hfront]
      exact h.names
    · rename_i hfront
      dsimp only
      by_cases hback : Fields.has doc.back headerName = true
      · rw [Fields.names_set_of_has hback]
        exact h.names
      · rw [Fields.has_eq_true_iff] at hfront
        have hnew : headerName ∉ Fields.names doc.front ++ tasksName :: Fields.names doc.back := by
          rw [List.mem_append, List.mem_cons]
          rintro (hmem | hmem | hmem)
          · exact hfront hmem
          · exact absurd hmem (by decide)
          · exact hback (Fields.has_eq_true_iff.2 hmem)
        rw [Fields.names_set_of_not_has hback, ← List.cons_append, ← List.append_assoc]
        exact List.nodup_append.2 ⟨h.names, List.nodup_singleton _, fun name hname other hother =>
          List.mem_singleton.1 hother ▸ fun heq => hnew (heq ▸ hname)⟩
  · rw [header_setHeader] at heq
    cases heq
    exact hheader

theorem beyond_setHeader {next : Int}
    (hnext : (Fields.get? header numberName).getD (.int 1) = .int next) (h : bound < next) :
    (doc.setHeader header).Beyond bound :=
  ⟨header, next, header_setHeader doc header, hnext, h⟩

theorem tidy_make (project now : Text) : (make project now).Tidy := by
  refine ⟨(by decide : [headerName, tasksName].Nodup), fun header heq => ?_⟩
  cases heq
  exact (by decide :
    ["version".toList, "project".toList, numberName, "updated_at".toList].Nodup)

theorem beyond_make (project now : Text) : (make project now).Beyond 0 :=
  ⟨_, 1, rfl, rfl, by decide⟩

/-- A key is minted, with a number beyond the bound, and the next number is beyond that. -/
theorem Beyond.mint (h : doc.Beyond bound) (project : Text) :
    ∃ number minted, doc.mint project = .ok (keyOf project number, minted) ∧ bound < number ∧
      minted.Beyond number := by
  obtain ⟨header, next, hheader, hnext, hbound⟩ := h
  have hle := le_firstFree project doc.tasks.keys next
  refine ⟨firstFree project doc.tasks.keys next, doc.setHeader (Fields.set header numberName
      (.int (firstFree project doc.tasks.keys next + 1))), ?_, by omega,
    beyond_setHeader ?_ (Int.lt_succ _)⟩
  · rw [Document.mint, hheader]
    dsimp only
    rw [hnext]
    rfl
  · rw [Fields.get?_set_self]
    rfl

theorem Tidy.mint (h : doc.Tidy) (hmint : doc.mint project = .ok (key, minted)) : minted.Tidy := by
  rw [Document.mint] at hmint
  split at hmint
  · rename_i header hheader
    obtain ⟨next, -, hmint⟩ := bind_eq_ok hmint
    cases hmint
    exact h.setHeader (Fields.nodup_set (h.header header hheader))
  · cases hmint

theorem stamp_eq_ok {now : Text} (h : doc.stamp now = .ok doc') :
    ∃ header, doc.header = .object header ∧
      doc' = doc.setHeader (Fields.set header "updated_at".toList (.str now)) := by
  rw [stamp] at h
  split at h
  · rename_i header hheader
    exact ⟨header, hheader, (Except.ok.inj h).symm⟩
  · cases h
  · cases h

theorem Beyond.stamp {now : Text} (h : doc.Beyond bound) (hstamp : doc.stamp now = .ok doc') :
    doc'.Beyond bound := by
  obtain ⟨header, hheader, rfl⟩ := stamp_eq_ok hstamp
  obtain ⟨_, next, hheader', hnext, hbound⟩ := h
  rw [hheader] at hheader'
  cases hheader'
  refine beyond_setHeader ?_ hbound
  rwa [Fields.get?_set_of_ne _ _ (by decide)]

theorem Tidy.stamp {now : Text} (h : doc.Tidy) (hstamp : doc.stamp now = .ok doc') :
    doc'.Tidy := by
  obtain ⟨header, hheader, rfl⟩ := stamp_eq_ok hstamp
  exact h.setHeader (Fields.nodup_set (h.header header hheader))

/-! ### Documents that are read back -/

/-- The fields of a document that is read are those in front of its tasks and those behind. -/
theorem ofJson?_eq_some {value : Json} (h : ofJson? value = some doc) :
    ∃ tasks, value = .object (doc.front ++ (tasksName, tasks) :: doc.back) := by
  cases value with
  | object fields =>
    rw [ofJson?] at h
    split at h
    · rename_i tasks htasks
      cases h
      have hrest : (fields.dropWhile fun field => field.1 != tasksName) ≠ [] := by
        intro hnil
        have hfield := List.dropWhile_eq_nil_iff.1 hnil _ (Fields.mem_of_get? htasks)
        simp at hfield
      have hhead := List.head_dropWhile_not _ hrest
      have hfields := List.takeWhile_append_dropWhile (p := fun field => field.1 != tasksName)
        (l := fields)
      obtain ⟨⟨name, value⟩, back, hback⟩ := List.exists_cons_of_ne_nil hrest
      obtain rfl : name = tasksName := by simpa [hback] using hhead
      refine ⟨value, congrArg Json.object ?_⟩
      dsimp only
      rw [hback] at hfields
      generalize fields.takeWhile (fun field => field.1 != tasksName) = front at hfields ⊢
      simp [← hfields]
    · cases h
  | _ => cases h

theorem tidy_of_merged {value : Json} (hvalue : value.Merged) (h : ofJson? value = some doc) :
    doc.Tidy := by
  obtain ⟨tasks, rfl⟩ := ofJson?_eq_some h
  cases hvalue with
  | object hnames hfields =>
    refine ⟨by simpa [Fields.names] using hnames, fun header heq => ?_⟩
    rw [Document.header] at heq
    cases hget : Fields.get? (doc.front ++ doc.back) headerName with
    | none =>
      rw [hget] at heq
      cases heq
      exact List.nodup_nil
    | some value =>
      rw [hget] at heq
      have hmem : (headerName, value) ∈ doc.front ++ (tasksName, tasks) :: doc.back := by
        rcases List.mem_append.1 (Fields.mem_of_get? hget) with hfront | hback
        · exact List.mem_append_left _ hfront
        · exact List.mem_append_right _ (List.mem_cons_of_mem _ hback)
      have hmerged := hfields _ hmem
      rw [show value = .object header from heq] at hmerged
      cases hmerged with
      | object hheader => exact hheader

/-- What is read back of a document that was saved is a document with the fields that it had. -/
theorem Tidy.ofJson?_reread (h : doc.Tidy) : ∃ doc', ofJson? doc.toJson.reread = some doc' ∧
    doc'.front = Json.rereadFields doc.front ∧ doc'.back = Json.rereadFields doc.back := by
  have hnames : (Fields.names (doc.front ++ (tasksName, doc.tasks.toJson) :: doc.back)).Nodup := by
    simpa [Fields.names] using h.names
  have hfront : ∀ field ∈ Json.rereadFields doc.front, (field.1 != tasksName) = true := by
    intro field hfield
    have hname : field.1 ∈ Fields.names doc.front :=
      Json.names_rereadFields doc.front ▸ List.mem_map_of_mem hfield
    have hdisjoint := (List.nodup_append.1 h.names).2.2 _ hname _ List.mem_cons_self
    simpa using hdisjoint
  have htasks : Fields.get? (Json.rereadFields doc.front) tasksName = none := by
    refine Fields.get?_eq_none ?_
    simpa [Fields.has, bne_iff_ne] using hfront
  rw [toJson, Json.reread_object hnames, Json.rereadFields_append, Json.rereadFields, ofJson?,
    Fields.get?_append, htasks, Option.none_or, Fields.get?_cons, if_pos rfl, TaskMap.toJson,
    Json.reread, List.takeWhile_append_of_pos hfront]
  refine ⟨_, rfl, ?_, ?_⟩
  · simp
  · simp

theorem header_reread (hfront : doc'.front = Json.rereadFields doc.front)
    (hback : doc'.back = Json.rereadFields doc.back) : doc'.header = doc.header.reread := by
  rw [header, header, hfront, hback, ← Json.rereadFields_append, Json.get?_rereadFields]
  cases Fields.get? (doc.front ++ doc.back) headerName <;> rfl

/-- A document that is read back gives no name twice and has its number again. -/
theorem Tidy.reopened (h : doc.Tidy) (hbeyond : doc.Beyond bound) :
    ∃ doc', ofJson? doc.toJson.reread = some doc' ∧ doc'.Tidy ∧ doc'.Beyond bound := by
  obtain ⟨doc', hread, hfront, hback⟩ := h.ofJson?_reread
  have hheader := header_reread hfront hback
  -- The header that is read back has the fields of the old one.
  have hfields : ∀ header', doc'.header = .object header' →
      ∃ header, doc.header = .object header ∧ header' = Json.rereadFields header := by
    intro header' heq
    obtain ⟨header, hold, hnew⟩ := Json.eq_object_of_reread (hheader.symm.trans heq)
    refine ⟨header, hold, hnew.trans (Fields.ofList_eq_self ?_)⟩
    rw [Json.names_rereadFields]
    exact h.header header hold
  refine ⟨doc', hread, ⟨?_, fun header' heq => ?_⟩, ?_⟩
  · rw [hfront, hback, Json.names_rereadFields, Json.names_rereadFields]
    exact h.names
  · obtain ⟨header, hold, rfl⟩ := hfields header' heq
    rw [Json.names_rereadFields]
    exact h.header header hold
  · obtain ⟨header, next, hold, hnext, hbound⟩ := hbeyond
    refine ⟨Json.rereadFields header, next, ?_, ?_, hbound⟩
    · rw [hheader, hold, Json.reread_object (h.header header hold)]
    rw [Json.get?_rereadFields]
    cases hget : Fields.get? header numberName with
    | none =>
      rw [hget] at hnext
      exact hnext
    | some value =>
      rw [hget] at hnext
      obtain rfl : value = .int next := hnext
      rfl

end Document

namespace StoredTasks

variable {tree tree' : FileTree} {path : Path} {doc : Document} {location : Location}
  {bytes : Bytes} {bound : Int}

/-- What a file holds is a matter of where its path leads. -/
theorem loadDocument?_congr (h : tree'.find path = tree.find path) :
    loadDocument? tree' path = loadDocument? tree path := by
  simp only [loadDocument?, readDocument, FileTree.existsAt, FileTree.entry?, FileTree.readBytes, h]

theorem existsAt_of_find {entry : Entry} (hnull : path.hasNull = false)
    (h : tree.find path = .ok (location, entry)) : tree.existsAt path = .ok true := by
  rw [FileTree.existsAt, FileTree.entry?, hnull, h]
  rfl

theorem loadDocument?_eq_none (h : loadDocument? tree path = .ok none)
    (hnull : path.hasNull = false) {entry : Entry} : tree.find path ≠ .ok (location, entry) := by
  intro hfind
  rw [loadDocument?, existsAt_of_find hnull hfind] at h
  obtain ⟨text, -, h⟩ := bind_eq_ok h
  split at h
  · cases h
  · split at h <;> cases h

/-- A document that is loaded was found in a file and read from it. -/
theorem loadDocument?_eq_some (h : loadDocument? tree path = .ok (some doc)) :
    (∃ location bytes, tree.find path = .ok (location, .file bytes)) ∧
      ∃ text value, Json.parse text = .ok value ∧ Document.ofJson? value = some doc := by
  rw [loadDocument?] at h
  split at h
  · cases h
  · cases h
  · cases h
  · obtain ⟨text, htext, h⟩ := bind_eq_ok h
    split at h
    · cases h
    · rename_i value hvalue
      split at h
      · rename_i doc hdoc
        cases h
        refine ⟨?_, text, value, hvalue, hdoc⟩
        rw [readDocument, FileTree.readBytes] at htext
        split at htext
        · cases htext
        · cases htext
        · rename_i bytes hbytes
          split at hbytes
          · cases hbytes
          · split at hbytes
            · rename_i location bytes' hfind
              exact ⟨location, bytes', hfind⟩
            · cases hbytes
            · cases hbytes
      · cases h

theorem tidy_of_loadDocument? (h : loadDocument? tree path = .ok (some doc)) : doc.Tidy := by
  obtain ⟨-, text, value, hvalue, hdoc⟩ := loadDocument?_eq_some h
  exact Document.tidy_of_merged (Json.merged_parse hvalue) hdoc

/-- A document that was saved is loaded again, with its number. -/
theorem loadDocument?_of_saved (hnull : path.hasNull = false) (htidy : doc.Tidy)
    (hbeyond : doc.Beyond bound)
    (hfind : tree.find path =
      .ok (location, .file (Utf8.encode (doc.toJson.print ++ ['\n'])))) :
    ∃ doc', loadDocument? tree path = .ok (some doc') ∧ doc'.Beyond bound := by
  obtain ⟨doc', hread, -, hbound⟩ := htidy.reopened hbeyond
  have hplain : Text.Plain (doc.toJson.print ++ ['\n']) :=
    (Json.plain_printAt 0 doc.toJson).append (by simp [Text.Plain])
  have htext : readDocument tree path = .ok (doc.toJson.print ++ ['\n']) := by
    rw [readDocument, FileTree.readBytes, hnull, hfind]
    dsimp only
    rw [if_neg Bool.false_ne_true]
    dsimp only
    rw [Utf8.decode_encode]
    dsimp only
    rw [hplain.unifyNewlines]
  refine ⟨doc', ?_, hbound⟩
  rw [loadDocument?, existsAt_of_find hnull hfind]
  dsimp only
  rw [htext]
  dsimp only [bind, Except.bind]
  rw [Json.parse_print]
  dsimp only
  rw [hread]
  rfl

end StoredTasks

end TodoTracker
