import TodoTracker.Proofs.Anchor.Code
import TodoTracker.Task.Document

/-!
# The anchors of a document

Recording an anchor puts it behind the anchors of its task, and removing one takes out every
reference that writes it. Neither touches the anchors of another task, and saving changes none.
-/

set_option autoImplicit false

namespace TodoTracker

namespace Fields

variable {α : Type}

theorem get?_set_self (fields : Fields α) (name : Text) (value : α) :
    (fields.set name value).get? name = some value := by
  rw [set]
  split
  · rename_i h
    induction fields with
    | nil => simp [has] at h
    | cons field fields ih =>
      by_cases hn : field.1 = name
      · simp [get?, hn]
      · have hrest : has fields name = true := by simpa [has, hn] using h
        simpa [get?, hn] using ih hrest
  · rename_i h
    have habsent : fields.find? (fun field => field.1 == name) = none := by
      rw [List.find?_eq_none]
      intro field hf hn
      exact h (List.any_eq_true.2 ⟨field, hf, hn⟩)
    simp [get?, List.find?_append, habsent]

theorem get?_eq_none {fields : Fields α} {name : Text} (h : fields.has name = false) :
    fields.get? name = none := by
  rw [get?, Option.map_eq_none_iff, List.find?_eq_none]
  simpa [has] using h

theorem mem_of_get? {fields : Fields α} {name : Text} {value : α}
    (h : fields.get? name = some value) : (name, value) ∈ fields := by
  rw [get?, Option.map_eq_some_iff] at h
  obtain ⟨field, hfield, rfl⟩ := h
  have hname : field.1 = name := by simpa using List.find?_some hfield
  exact hname ▸ List.mem_of_find?_eq_some hfield

theorem get?_cons (field : Text × α) (fields : Fields α) (name : Text) :
    get? (field :: fields) name = if field.1 = name then some field.2 else get? fields name := by
  by_cases h : field.1 = name <;> simp [get?, h]

/-- Among fields with different names, each is found by its name. -/
theorem get?_of_mem {fields : Fields α} {field : Text × α} (hnodup : fields.names.Nodup)
    (h : field ∈ fields) : fields.get? field.1 = some field.2 := by
  induction fields with
  | nil => cases h
  | cons first fields ih =>
    obtain ⟨hnew, hnodup⟩ := List.nodup_cons.1 hnodup
    rw [get?_cons]
    rcases List.mem_cons.1 h with rfl | h
    · rw [if_pos rfl]
    · have hother : first.1 ≠ field.1 := fun heq => hnew (List.mem_map.2 ⟨field, h, heq.symm⟩)
      rw [if_neg hother, ih hnodup h]

theorem get?_set_of_ne (fields : Fields α) {name other : Text} (value : α) (h : other ≠ name) :
    (fields.set name value).get? other = fields.get? other := by
  rw [set]
  split
  · rename_i hset
    clear hset
    induction fields with
    | nil => rfl
    | cons field fields ih =>
      rw [List.map_cons, get?_cons, get?_cons, ih]
      by_cases hn : field.1 = name
      · simp [hn, Ne.symm h]
      · simp [hn]
  · simp [get?, List.find?_append, Ne.symm h]

/-- A field of changed fields is an old one or the new one. -/
theorem mem_set {fields : Fields α} {name : Text} {value : α} {field : Text × α}
    (h : field ∈ fields.set name value) : field ∈ fields ∨ field = (name, value) := by
  rw [set] at h
  split at h
  · obtain ⟨old, hold, rfl⟩ := List.mem_map.1 h
    split
    · exact .inr rfl
    · exact .inl hold
  · simpa using h

end Fields

namespace TaskMap

theorem task?_eq_none {tasks : TaskMap} {key : Text} (h : key ∉ tasks.keys) :
    tasks.task? key = none := by
  have hget : tasks.get? key = none := by
    refine Fields.get?_eq_none ?_
    rw [← Bool.not_eq_true, Fields.has_eq_true_iff]
    exact h
  rw [task?, hget]

theorem mem_keys_insert {tasks : TaskMap} {key other : Text} {task : Json} :
    other ∈ (tasks.insert key task).keys ↔ other = key ∨ other ∈ tasks.keys := by
  rw [keys, keys, insert]
  by_cases h : tasks.entries.has key = true
  · rw [Fields.names_set_of_has h]
    constructor
    · exact .inr
    · rintro (rfl | hmem)
      · exact Fields.has_eq_true_iff.1 h
      · exact hmem
  · rw [Fields.names_set_of_not_has h, List.mem_append, List.mem_singleton, or_comm]

theorem task?_insert_object (tasks : TaskMap) (key : Text) (fields : Fields Json) :
    (tasks.insert key (.object fields)).task? key = some (.object fields) := by
  have h : (tasks.insert key (.object fields)).get? key = some (.object fields) :=
    Fields.get?_set_self _ _ _
  rw [task?, h]

theorem task?_insert_of_ne (tasks : TaskMap) {key other : Text} (task : Json) (h : other ≠ key) :
    (tasks.insert key task).task? other = tasks.task? other := by
  have hget : (tasks.insert key task).get? other = tasks.get? other :=
    Fields.get?_set_of_ne _ _ h
  rw [task?, task?, hget]

end TaskMap

namespace Document

theorem anchors_congr {doc doc' : Document} (h : doc'.tasks = doc.tasks) (key : Text) :
    doc'.anchors key = doc.anchors key := by
  rw [anchors, anchors, h]

theorem tasks_setHeader (doc : Document) (header : Fields Json) :
    (doc.setHeader header).tasks = doc.tasks := by
  rw [setHeader]
  split <;> rfl

theorem tasks_stamp {doc doc' : Document} {now : Text} (h : doc.stamp now = .ok doc') :
    doc'.tasks = doc.tasks := by
  rw [stamp] at h
  split at h
  · cases h
    exact tasks_setHeader _ _
  · cases h
  · cases h

theorem anchors_put_of_ne (doc : Document) {key other : Text} (task : Json) (h : other ≠ key) :
    (doc.put key task).anchors other = doc.anchors other := by
  have ht : (doc.put key task).tasks.task? other = doc.tasks.task? other :=
    TaskMap.task?_insert_of_ne _ _ h
  rw [anchors, anchors, ht]

theorem references_withReferences (fields : Fields Json) (items : List Json) (now : Text) :
    references (withReferences fields items now) = .ok items := by
  have h : Fields.get? (Fields.set (Fields.set fields referencesName (.list items)) modifiedName
      (.str now)) referencesName = some (.list items) := by
    rw [Fields.get?_set_of_ne _ _ (by decide), Fields.get?_set_self]
  rw [withReferences, references, h]

theorem anchors_put_withReferences (doc : Document) (key : Text) (fields : Fields Json)
    (items : List Json) (now : Text) :
    (doc.put key (withReferences fields items now)).anchors key =
      .ok (items.filterMap Anchor.ofReference?) := by
  have ht : (doc.put key (withReferences fields items now)).tasks.task? key =
      some (withReferences fields items now) := TaskMap.task?_insert_object _ _ _
  rw [anchors, ht]
  dsimp only
  rw [references_withReferences]
  rfl

theorem references_of_openReferences {fields : Fields Json} {items : List Json}
    (h : openReferences fields = .ok items) : references (.object fields) = .ok items := by
  rw [openReferences] at h
  rw [references]
  cases hf : Fields.get? fields referencesName with
  | none =>
    rw [hf] at h
    exact h
  | some value =>
    rw [hf] at h
    cases value <;> first | exact h | cases h

theorem ofReference?_of_isCode {code : Text} {item : Json} (h : isCode code item = true) :
    Anchor.ofReference? item = Anchor.ofCode? code := by
  rw [isCode] at h
  rw [Anchor.ofReference?]
  cases hfield : item.field? "code" with
  | none =>
    rw [hfield] at h
    cases h
  | some value =>
    rw [hfield] at h
    cases value with
    | str t => rw [beq_iff_eq.1 h]
    | _ => cases h

theorem ofReference?_toReference (anchor : Anchor) :
    Anchor.ofReference? anchor.toReference = Anchor.ofCode? anchor.code := rfl

/-- The anchors that a written anchor adds to those of its task. -/
def readBack (anchor : Anchor) : List Anchor := (Anchor.ofCode? anchor.code).toList

theorem readBack_of_isWritten {anchor : Anchor} (h : anchor.IsWritten) :
    readBack anchor = [anchor] := by
  rw [readBack, Anchor.code, h.addressable anchor.line h.line_pos]
  rfl

theorem isWritten_of_ofReference? {item : Json} {anchor : Anchor}
    (h : Anchor.ofReference? item = some anchor) : anchor.IsWritten := by
  rw [Anchor.ofReference?] at h
  split at h
  · exact Anchor.isWritten_of_ofCode? h
  · cases h

theorem isWritten_of_mem_anchors {doc : Document} {key : Text} {as : List Anchor}
    (h : doc.anchors key = .ok as) {a : Anchor} (ha : a ∈ as) : a.IsWritten := by
  rw [anchors] at h
  split at h
  · cases h
    cases ha
  · obtain ⟨items, -, h⟩ := bind_eq_ok h
    cases h
    obtain ⟨item, -, hitem⟩ := List.mem_filterMap.1 ha
    exact isWritten_of_ofReference? hitem

theorem anchors_of_task {doc : Document} {key : Text} {task : Json} {items : List Json}
    (htask : doc.tasks.task? key = some task) (hitems : references task = .ok items) :
    doc.anchors key = .ok (items.filterMap Anchor.ofReference?) := by
  rw [anchors, htask]
  dsimp only
  rw [hitems]
  rfl

theorem addAnchor_eq_ok {doc : Document} {key now : Text} {anchor : Anchor}
    {answer : Option Document} (h : doc.addAnchor key anchor now = .ok answer) :
    ∃ fields items, doc.tasks.task? key = some (.object fields) ∧
      references (.object fields) = .ok items ∧
      answer = if items.any (isCode anchor.code) then none else
        some (doc.put key (withReferences fields (items ++ [anchor.toReference]) now)) := by
  rw [addAnchor] at h
  split at h
  · cases h
  · rename_i fields hfields
    obtain ⟨items, hopen, h⟩ := bind_eq_ok h
    refine ⟨fields, items, hfields, references_of_openReferences (mapError_eq_ok hopen), ?_⟩
    split at h
    · cases h
      rename_i hany
      rw [if_pos hany]
    · cases h
      rename_i hany
      rw [if_neg hany]
  · cases h

/-- A recorded anchor stands behind the others of its task. -/
theorem anchors_addAnchor {doc doc' : Document} {key now : Text} {anchor : Anchor}
    (h : doc.addAnchor key anchor now = .ok (some doc')) :
    ∃ as, doc.anchors key = .ok as ∧ doc'.anchors key = .ok (as ++ readBack anchor) := by
  obtain ⟨fields, items, htask, hitems, hanswer⟩ := addAnchor_eq_ok h
  refine ⟨_, anchors_of_task htask hitems, ?_⟩
  split at hanswer
  · cases hanswer
  · cases hanswer
    rw [anchors_put_withReferences, List.filterMap_append, readBack]
    cases hcode : Anchor.ofCode? anchor.code <;> simp [ofReference?_toReference, hcode]

/-- An anchor is not recorded a second time. -/
theorem anchors_of_addAnchor_none {doc : Document} {key now : Text} {anchor : Anchor}
    (h : doc.addAnchor key anchor now = .ok none) :
    ∃ as, doc.anchors key = .ok as ∧ ∀ b ∈ readBack anchor, b ∈ as := by
  obtain ⟨fields, items, htask, hitems, hanswer⟩ := addAnchor_eq_ok h
  refine ⟨_, anchors_of_task htask hitems, ?_⟩
  split at hanswer
  · rename_i hany
    intro b hb
    obtain ⟨item, hitem, hcode⟩ := List.any_eq_true.1 hany
    rw [List.mem_filterMap]
    refine ⟨item, hitem, ?_⟩
    rw [ofReference?_of_isCode hcode]
    simpa [readBack] using hb
  · cases hanswer

theorem anchors_addAnchor_of_ne {doc doc' : Document} {key other now : Text} {anchor : Anchor}
    (h : doc.addAnchor key anchor now = .ok (some doc')) (hne : other ≠ key) :
    doc'.anchors other = doc.anchors other := by
  obtain ⟨fields, items, -, -, hanswer⟩ := addAnchor_eq_ok h
  split at hanswer
  · cases hanswer
  · cases hanswer
    exact anchors_put_of_ne _ _ hne

theorem keys_put {doc : Document} {key : Text} {old : Json} (h : doc.tasks.task? key = some old)
    (task : Json) : (doc.put key task).tasks.keys = doc.tasks.keys := by
  have hhas : doc.tasks.entries.has key = true := by
    rw [Fields.has_eq_true_iff, Fields.names, List.mem_map]
    rw [TaskMap.task?] at h
    split at h
    · cases h
    · exact ⟨_, Fields.mem_of_get? h, rfl⟩
  exact Fields.names_set_of_has hhas

theorem keys_addAnchor {doc doc' : Document} {key now : Text} {anchor : Anchor}
    (h : doc.addAnchor key anchor now = .ok (some doc')) : doc'.tasks.keys = doc.tasks.keys := by
  obtain ⟨fields, items, htask, -, hanswer⟩ := addAnchor_eq_ok h
  split at hanswer
  · cases hanswer
  · cases hanswer
    exact keys_put htask _

theorem asObject?_of_references {task : Json} {items : List Json}
    (h : references task = .ok items) : ∃ fields, task = .object fields := by
  cases task with
  | object fields => exact ⟨fields, rfl⟩
  | _ => cases h

theorem removeAnchor_eq_ok {doc : Document} {key now : Text} {anchor : Anchor}
    {answer : Option Document} (h : doc.removeAnchor key anchor now = .ok answer) :
    (doc.tasks.task? key = none ∧ answer = none) ∨
    ∃ fields items, doc.tasks.task? key = some (.object fields) ∧
      references (.object fields) = .ok items ∧
      answer =
        if (items.filter fun item => Anchor.ofReference? item != some anchor).length =
          items.length then none
        else some (doc.put key (withReferences fields
          (items.filter fun item => Anchor.ofReference? item != some anchor) now)) := by
  rw [removeAnchor] at h
  split at h
  · rename_i hnone
    cases h
    exact .inl ⟨hnone, rfl⟩
  · rename_i task htask
    obtain ⟨items, hitems, h⟩ := bind_eq_ok h
    obtain ⟨fields, rfl⟩ := asObject?_of_references hitems
    refine .inr ⟨fields, items, htask, hitems, ?_⟩
    dsimp only at h
    split at h
    · cases h
      rename_i hlen
      rw [if_pos hlen]
    · cases h
      rename_i hlen
      rw [if_neg hlen]
      rfl

theorem filterMap_filter_ne (items : List Json) (anchor : Anchor) :
    (items.filter fun item => Anchor.ofReference? item != some anchor).filterMap
        Anchor.ofReference? =
      (items.filterMap Anchor.ofReference?).filter (· ≠ anchor) := by
  induction items with
  | nil => rfl
  | cons item items ih =>
    cases hitem : Anchor.ofReference? item with
    | none => simp [hitem, ih]
    | some b => by_cases hb : b = anchor <;> simp [hitem, hb, ih]

/-- Removing an anchor leaves the others of its task in their order. -/
theorem anchors_removeAnchor {doc doc' : Document} {key now : Text} {anchor : Anchor}
    (h : doc.removeAnchor key anchor now = .ok (some doc')) :
    ∃ as, doc.anchors key = .ok as ∧ doc'.anchors key = .ok (as.filter (· ≠ anchor)) := by
  rcases removeAnchor_eq_ok h with ⟨-, hanswer⟩ | ⟨fields, items, htask, hitems, hanswer⟩
  · cases hanswer
  · refine ⟨_, anchors_of_task htask hitems, ?_⟩
    split at hanswer
    · cases hanswer
    · cases hanswer
      rw [anchors_put_withReferences, filterMap_filter_ne]

/-- Nothing is removed when the anchor is not recorded. -/
theorem anchors_of_removeAnchor_none {doc : Document} {key now : Text} {anchor : Anchor}
    (h : doc.removeAnchor key anchor now = .ok none) :
    ∃ as, doc.anchors key = .ok as ∧ anchor ∉ as := by
  rcases removeAnchor_eq_ok h with ⟨htask, -⟩ | ⟨fields, items, htask, hitems, hanswer⟩
  · exact ⟨[], by rw [anchors, htask], by simp⟩
  · refine ⟨_, anchors_of_task htask hitems, ?_⟩
    split at hanswer
    · rename_i hlen
      intro hmem
      obtain ⟨item, hitem, hread⟩ := List.mem_filterMap.1 hmem
      have hkept := List.length_filter_eq_length_iff.1 hlen item hitem
      simp [hread] at hkept
    · cases hanswer

/-- Removing an anchor finds it exactly when it is recorded. -/
theorem isSome_removeAnchor {doc : Document} {key now : Text} {anchor : Anchor}
    {answer : Option Document} {as : List Anchor} (h : doc.removeAnchor key anchor now = .ok answer)
    (has : doc.anchors key = .ok as) : answer.isSome = decide (anchor ∈ as) := by
  cases answer with
  | none =>
    obtain ⟨as', has', habsent⟩ := anchors_of_removeAnchor_none h
    rw [has] at has'
    cases has'
    simpa using habsent
  | some doc' =>
    rcases removeAnchor_eq_ok h with ⟨-, hanswer⟩ | ⟨fields, items, htask, hitems, hanswer⟩
    · cases hanswer
    · rw [anchors_of_task htask hitems] at has
      cases has
      split at hanswer
      · cases hanswer
      · rename_i hlen
        have hsome : ∃ item ∈ items, Anchor.ofReference? item = some anchor := by
          by_contra hnone
          refine hlen (List.length_filter_eq_length_iff.2 fun item hitem => ?_)
          simpa using fun hread => hnone ⟨item, hitem, hread⟩
        simpa using hsome

theorem anchors_removeAnchor_of_ne {doc doc' : Document} {key other now : Text} {anchor : Anchor}
    (h : doc.removeAnchor key anchor now = .ok (some doc')) (hne : other ≠ key) :
    doc'.anchors other = doc.anchors other := by
  rcases removeAnchor_eq_ok h with ⟨-, hanswer⟩ | ⟨fields, items, -, -, hanswer⟩
  · cases hanswer
  · split at hanswer
    · cases hanswer
    · cases hanswer
      exact anchors_put_of_ne _ _ hne

theorem keys_removeAnchor {doc doc' : Document} {key now : Text} {anchor : Anchor}
    (h : doc.removeAnchor key anchor now = .ok (some doc')) : doc'.tasks.keys = doc.tasks.keys := by
  rcases removeAnchor_eq_ok h with ⟨-, hanswer⟩ | ⟨fields, items, htask, -, hanswer⟩
  · cases hanswer
  · split at hanswer
    · cases hanswer
    · cases hanswer
      exact keys_put htask _

theorem filterAuxM_eq_ok {α ε : Type} {f : α → Except ε Bool} {l acc out : List α}
    (h : l.filterAuxM f acc = .ok out) :
    out = (l.filter fun a => (f a).toOption.getD false).reverse ++ acc := by
  induction l generalizing acc with
  | nil =>
    cases h
    rfl
  | cons a l ih =>
    rw [List.filterAuxM] at h
    cases ha : f a with
    | error e =>
      rw [ha] at h
      cases h
    | ok b =>
      rw [ha] at h
      rw [ih h]
      cases b <;> simp [ha, Except.toOption]

theorem filterM_eq_ok {α ε : Type} {f : α → Except ε Bool} {l out : List α}
    (h : l.filterM f = .ok out) : out = l.filter fun a => (f a).toOption.getD false := by
  obtain ⟨found, hfound, h⟩ := bind_eq_ok h
  cases h
  rw [filterAuxM_eq_ok hfound, List.append_nil, List.reverse_reverse]

/-- Going through a list with a test that always has an answer has an answer. -/
theorem filterAuxM_of_ok {α ε : Type} {f : α → Except ε Bool} {l : List α}
    (h : ∀ a ∈ l, ∃ b, f a = .ok b) (acc : List α) : ∃ out, l.filterAuxM f acc = .ok out := by
  induction l generalizing acc with
  | nil => exact ⟨acc, rfl⟩
  | cons a l ih =>
    obtain ⟨b, hb⟩ := h a List.mem_cons_self
    rw [List.filterAuxM, hb]
    exact ih (fun x hx => h x (List.mem_cons_of_mem _ hx)) _

theorem exists_of_filterAuxM {α ε : Type} {f : α → Except ε Bool} {l acc out : List α}
    (h : l.filterAuxM f acc = .ok out) : ∀ a ∈ l, ∃ b, f a = .ok b := by
  induction l generalizing acc with
  | nil => simp
  | cons a l ih =>
    rw [List.filterAuxM] at h
    obtain ⟨b, hb, h⟩ := bind_eq_ok h
    intro x hx
    rcases List.mem_cons.1 hx with rfl | hx
    · exact ⟨b, hb⟩
    · exact ih h x hx

/-- The references of every task can be gone through. -/
def Legible (doc : Document) : Prop :=
  ∀ entry ∈ doc.tasks.entries, ∃ items, references entry.2 = .ok items

theorem Legible.congr {doc doc' : Document} (h : doc.Legible) (htasks : doc'.tasks = doc.tasks) :
    doc'.Legible := by
  rw [Legible, htasks]
  exact h

theorem Legible.put {doc : Document} (h : doc.Legible) (key : Text) (fields : Fields Json)
    (items : List Json) (now : Text) :
    (doc.put key (withReferences fields items now)).Legible := by
  intro entry hentry
  rcases Fields.mem_set hentry with hold | hnew
  · exact h entry hold
  · rw [hnew]
    exact ⟨items, references_withReferences fields items now⟩

theorem Legible.addAnchor {doc doc' : Document} (h : doc.Legible) {key now : Text}
    {anchor : Anchor} (hadd : doc.addAnchor key anchor now = .ok (some doc')) : doc'.Legible := by
  obtain ⟨fields, items, -, -, hanswer⟩ := addAnchor_eq_ok hadd
  split at hanswer
  · cases hanswer
  · cases hanswer
    exact h.put _ _ _ _

theorem Legible.removeAnchor {doc doc' : Document} (h : doc.Legible) {key now : Text}
    {anchor : Anchor} (hremove : doc.removeAnchor key anchor now = .ok (some doc')) :
    doc'.Legible := by
  rcases removeAnchor_eq_ok hremove with ⟨-, hanswer⟩ | ⟨fields, items, -, -, hanswer⟩
  · cases hanswer
  · split at hanswer
    · cases hanswer
    · cases hanswer
      exact h.put _ _ _ _

/-- The tasks with anchors are told exactly when the references of every task can be gone
through. -/
theorem legible_iff {doc : Document} : doc.Legible ↔ ∃ keys, doc.anchoredKeys = .ok keys := by
  constructor
  · intro h
    obtain ⟨out, hout⟩ := filterAuxM_of_ok (f := fun entry : Text × Json => do
      return (← references entry.2).any fun item => (Anchor.ofReference? item).isSome)
      (l := doc.tasks.entries) (fun entry hentry => by
        obtain ⟨items, hitems⟩ := h entry hentry
        exact ⟨_, by rw [hitems]; rfl⟩) []
    refine ⟨Text.sort (out.reverse.map (·.1)), ?_⟩
    rw [anchoredKeys, List.filterM, hout]
    rfl
  · rintro ⟨keys, hkeys⟩ entry hentry
    obtain ⟨out, hout, -⟩ := bind_eq_ok hkeys
    obtain ⟨found, hfound, -⟩ := bind_eq_ok hout
    obtain ⟨b, hb⟩ := exists_of_filterAuxM hfound entry hentry
    obtain ⟨items, hitems, -⟩ := bind_eq_ok hb
    exact ⟨items, hitems⟩

theorem mem_of_task? {tasks : TaskMap} {key : Text} {task : Json}
    (h : tasks.task? key = some task) : (key, task) ∈ tasks.entries := by
  apply Fields.mem_of_get?
  rw [TaskMap.task?] at h
  split at h
  · cases h
  · exact h

theorem Legible.exists_anchors {doc : Document} (h : doc.Legible) (key : Text) :
    ∃ as, doc.anchors key = .ok as := by
  rw [anchors]
  cases htask : doc.tasks.task? key with
  | none => exact ⟨[], rfl⟩
  | some task =>
    obtain ⟨items, hitems⟩ := h _ (mem_of_task? htask)
    exact ⟨_, by dsimp only; rw [hitems]; rfl⟩

/-- Every task with an anchor has its key listed, and no key is listed twice. -/
theorem anchoredKeys_eq_ok {doc : Document} {keys : List Text} (h : doc.anchoredKeys = .ok keys) :
    keys.Nodup ∧ ∀ key as, doc.anchors key = .ok as → as ≠ [] → key ∈ keys := by
  obtain ⟨out, hout, h⟩ := bind_eq_ok h
  cases h
  have hfound := filterM_eq_ok hout
  have hkeys : (Text.sort (out.map (·.1))).Perm (out.map (·.1)) := List.mergeSort_perm _ _
  constructor
  · rw [hkeys.nodup_iff, hfound]
    exact doc.tasks.nodup.sublist (List.filter_sublist.map _)
  · intro key as has hne
    rw [hkeys.mem_iff, hfound]
    rw [anchors] at has
    split at has
    · cases has
      exact absurd rfl hne
    · rename_i task htask
      obtain ⟨items, hitems, has⟩ := bind_eq_ok has
      cases has
      obtain ⟨b, hb⟩ := List.exists_mem_of_ne_nil _ hne
      obtain ⟨item, hitem, hread⟩ := List.mem_filterMap.1 hb
      rw [List.mem_map]
      refine ⟨(key, task), List.mem_filter.2 ⟨mem_of_task? htask, ?_⟩, rfl⟩
      have hany : items.any (fun item => (Anchor.ofReference? item).isSome) = true :=
        List.any_eq_true.2 ⟨item, hitem, by rw [hread]; rfl⟩
      simp only [hitems]
      simpa [bind, Except.bind, pure, Except.pure, Except.toOption] using hany

/-- The keys that are listed are those of the tasks with anchors. -/
theorem anchoredKeys_eq {doc : Document} (h : doc.Legible) :
    doc.anchoredKeys =
      .ok (Text.sort (doc.tasks.keys.filter fun key => decide (doc.anchors key ≠ .ok []))) := by
  obtain ⟨keys, hkeys⟩ := legible_iff.1 h
  obtain ⟨out, hout, hsorted⟩ := bind_eq_ok hkeys
  cases hsorted
  rw [hkeys, filterM_eq_ok hout, TaskMap.keys, Fields.names, List.filter_map]
  congr 3
  refine List.filter_congr fun entry hentry => ?_
  obtain ⟨items, hitems⟩ := h entry hentry
  have htask : doc.tasks.task? entry.1 = some entry.2 := by
    rw [TaskMap.task?, TaskMap.get?, Fields.get?_of_mem doc.tasks.nodup hentry]
    split
    · rename_i hnull
      rw [Option.some_inj.1 hnull] at hitems
      cases hitems
    · rfl
  dsimp only [Function.comp_apply]
  rw [anchors_of_task htask hitems, hitems]
  cases hread : items.filterMap Anchor.ofReference? with
  | nil =>
    rw [List.filterMap_eq_nil_iff] at hread
    simpa [bind, Except.bind, pure, Except.pure, Except.toOption] using hread
  | cons a as =>
    obtain ⟨item, hitem, hitemread⟩ := List.mem_filterMap.1 (hread ▸ List.mem_cons_self)
    have hany : items.any (fun item => (Anchor.ofReference? item).isSome) = true :=
      List.any_eq_true.2 ⟨item, hitem, by rw [hitemread]; rfl⟩
    simpa [bind, Except.bind, pure, Except.pure, Except.toOption] using hany

end Document

end TodoTracker
