import TodoTracker.Proofs.Workspace.Yields

/-!
# Work within bounds

`work.GuardedAt P E w` bounds what a piece of work may do from the workspace `w`: whether it succeeds
or fails it leaves a workspace with `P`, and it fails only as `E` allows. Attempts take the failures
that they answer out of these bounds.
-/

set_option autoImplicit false

namespace TodoTracker

/-- An answer is a failure only if `E` allows that. -/
def FailsOnly {α : Type} (E : Failure → Prop) (answer : Except Failure α) : Prop :=
  ∀ e, answer = .error e → E e

namespace FailsOnly

variable {α β : Type} {E E' : Failure → Prop}

theorem ok (a : α) : FailsOnly E (.ok a) := nofun

theorem error {e : Failure} (h : E e) : FailsOnly E (.error e : Except Failure α) := by
  rintro _ ⟨⟩
  exact h

theorem mono {answer : Except Failure α} (h : FailsOnly E answer) (hE : ∀ e, E e → E' e) :
    FailsOnly E' answer :=
  fun e he => hE e (h e he)

theorem bind {answer : Except Failure α} {f : α → Except Failure β} (h : FailsOnly E answer)
    (hf : ∀ a, answer = .ok a → FailsOnly E (f a)) : FailsOnly E (answer >>= f) := by
  cases answer with
  | error e => exact error (h e rfl)
  | ok a => exact hf a rfl

theorem map {answer : Except Failure α} {f : α → β} (h : FailsOnly E answer) :
    FailsOnly E (f <$> answer) := by
  cases answer with
  | error e => exact error (h e rfl)
  | ok a => exact ok (f a)

theorem mapError {ε : Type} {answer : Except ε α} {f : ε → Failure} (h : ∀ e, E (f e)) :
    FailsOnly E (answer.mapError f) := by
  cases answer with
  | error e => exact error (h e)
  | ok a => exact ok a

theorem ite {p : Prop} [Decidable p] {a b : Except Failure α} (ha : p → FailsOnly E a)
    (hb : ¬p → FailsOnly E b) : FailsOnly E (if p then a else b) := by
  split
  · exact ha ‹_›
  · exact hb ‹_›

theorem mapM {f : α → Except Failure β} (h : ∀ a, FailsOnly E (f a)) (as : List α) :
    FailsOnly E (as.mapM f) := by
  induction as with
  | nil => exact ok []
  | cons a as ih =>
    rw [List.mapM_cons]
    exact (h a).bind fun b _ => ih.bind fun bs _ => ok _

theorem foldlM {f : β → α → Except Failure β} (h : ∀ a b, FailsOnly E (f b a)) (as : List α)
    (b : β) : FailsOnly E (as.foldlM f b) := by
  induction as generalizing b with
  | nil => exact ok b
  | cons a as ih =>
    rw [List.foldlM_cons]
    exact (h a b).bind fun b' _ => ih b'

end FailsOnly

/-- A failure that the task store reports. -/
def Failure.isStore : Failure → Bool
  | .store _ => true
  | _ => false

/-- A failure that is answered with a message about a file. -/
def Failure.isFile : Failure → Bool
  | .file _ | .source _ _ => true
  | _ => false

namespace Work

variable {α β : Type} {P : Workspace → Prop} {E E' : Failure → Prop} {work : Work α}
  {w w' : Workspace} {e : Failure}

/-- From `w` the work fails with `e` and leaves `w'`. -/
def Fails (work : Work α) (w : Workspace) (e : Failure) (w' : Workspace) : Prop :=
  work.run w = (.error e, w')

/-- Work fails in its first part, or in what follows once that has succeeded. -/
theorem fails_bind {f : α → Work β} :
    Fails (work >>= f) w e w' ↔
      Fails work w e w' ∨ ∃ a v, Yields work w a v ∧ Fails (f a) v e w' := by
  unfold Fails Yields
  rw [run_bind]
  rcases work.run w with ⟨e' | a, v⟩
  · constructor
    · rintro ⟨⟩
      exact .inl rfl
    · rintro (⟨⟨⟩⟩ | ⟨_, _, h, -⟩)
      · rfl
      · cases h
  · constructor
    · exact fun h => .inr ⟨a, v, rfl, h⟩
    · rintro (h | ⟨_, _, ⟨⟩, h⟩)
      · cases h
      · exact h

theorem not_fails_pure {a : α} : ¬Fails (pure a) w e w' := nofun

/-- From `w` the work leads to a workspace with `P`, and fails only as `E` allows. -/
structure GuardedAt (P : Workspace → Prop) (E : Failure → Prop) (work : Work α) (w : Workspace) :
    Prop where
  leaves : P (work.run w).2
  fails : FailsOnly E (work.run w).1

namespace GuardedAt

theorem of_run {answer : Except Failure α} {w' : Workspace} (hrun : work.run w = (answer, w'))
    (hP : P w') (hE : FailsOnly E answer) : GuardedAt P E work w :=
  ⟨by rw [hrun]; exact hP, by rw [hrun]; exact hE⟩

theorem congr {work' : Work α} {w' : Workspace} (hrun : work.run w = work'.run w')
    (h : GuardedAt P E work' w') : GuardedAt P E work w :=
  ⟨by rw [hrun]; exact h.leaves, by rw [hrun]; exact h.fails⟩

theorem mono (h : GuardedAt P E work w) (hE : ∀ e, E e → E' e) : GuardedAt P E' work w :=
  ⟨h.leaves, h.fails.mono hE⟩

theorem imp {P' : Workspace → Prop} (h : GuardedAt P E work w) (hP : ∀ v, P v → P' v)
    (hE : ∀ e, E e → E' e) : GuardedAt P' E' work w :=
  ⟨hP _ h.leaves, h.fails.mono hE⟩

theorem of_fails (h : GuardedAt P E work w) (hfails : Fails work w e w') : P w' ∧ E e := by
  refine ⟨?_, h.fails e (by rw [hfails])⟩
  have hleaves := h.leaves
  rwa [hfails] at hleaves

theorem leads (h : GuardedAt P E work w) {a : α} {w' : Workspace} (hyields : Yields work w a w') :
    P w' := by
  have hleaves := h.leaves
  rwa [hyields] at hleaves

/-- Work that no failure is allowed for succeeds. -/
theorem exists_yields (h : GuardedAt P (fun _ => False) work w) :
    ∃ a w', Yields work w a w' ∧ P w' := by
  rcases hrun : work.run w with ⟨e | a, w'⟩
  · exact (h.fails e (by rw [hrun])).elim
  · exact ⟨a, w', hrun, h.leads hrun⟩

theorem pure (a : α) (hw : P w) : GuardedAt P E (Pure.pure a) w := ⟨hw, .ok a⟩

theorem throw {e : Failure} (hw : P w) (h : E e) :
    GuardedAt P E (MonadExcept.throw e : Work α) w := ⟨hw, .error h⟩

theorem bind {f : α → Work β} (h : GuardedAt P E work w)
    (hf : ∀ a w', Yields work w a w' → P w' → GuardedAt P E (f a) w') :
    GuardedAt P E (work >>= f) w := by
  rcases hrun : work.run w with ⟨e | a, w'⟩
  · have hfails := h.fails e (by rw [hrun])
    have hleaves := h.leaves
    rw [hrun] at hleaves
    exact of_run (by rw [run_bind, hrun]) hleaves (.error hfails)
  · exact congr (by rw [run_bind, hrun]) (hf a w' hrun (h.leads hrun))

/-- What follows is guarded wherever it starts. -/
theorem andThen {f : α → Work β} (h : GuardedAt P E work w)
    (hf : ∀ a w', P w' → GuardedAt P E (f a) w') : GuardedAt P E (work >>= f) w :=
  h.bind fun a w' _ hw' => hf a w' hw'

theorem map {f : α → β} (h : GuardedAt P E work w) : GuardedAt P E (f <$> work) w := by
  rw [map_eq_pure_bind]
  exact h.andThen fun a _ hw' => .pure _ hw'

/-- Looking at the workspace changes nothing. -/
theorem bindGet {f : Workspace → Work β} (h : GuardedAt P E (f w) w) :
    GuardedAt P E (get >>= f) w :=
  congr (by rw [run_bind]; rfl) h

theorem modify (f : Workspace → Workspace) (h : P (f w)) : GuardedAt P E (modify f) w :=
  ⟨h, .ok _⟩

theorem ofExcept {answer : Except Failure α} (hw : P w) (h : FailsOnly E answer) :
    GuardedAt P E (ofExcept answer) w := by
  cases answer with
  | error e => exact .throw hw (h e rfl)
  | ok a => exact .pure a hw

theorem look {f : FileTree → Except Failure α} (hw : P w) (h : FailsOnly E (f w.disk.tree)) :
    GuardedAt P E (look f) w :=
  of_run (run_look f w) hw h

theorem onDisk {f : Disk → Except Failure α × Disk} (hw : P { w with disk := (f w.disk).2 })
    (h : FailsOnly E (f w.disk).1) : GuardedAt P E (onDisk f) w :=
  bindGet ((modify _ hw).andThen fun _ _ hv => ofExcept hv h)

theorem tryCatch {handler : Failure → Work α} (h : GuardedAt P E' work w)
    (hhandler : ∀ e v, E' e → P v → GuardedAt P E (handler e) v) :
    GuardedAt P E (tryCatch work handler) w := by
  rcases hrun : work.run w with ⟨e | a, w'⟩
  · have hleaves := h.leaves
    rw [hrun] at hleaves
    exact congr (by rw [run_tryCatch, hrun]) (hhandler e w' (h.fails e (by rw [hrun])) hleaves)
  · exact of_run (by rw [run_tryCatch, hrun]) (h.leads hrun) (.ok a)

/-- An attempt answers every failure of the store. -/
theorem attempt (h : GuardedAt P E work w) :
    GuardedAt P (fun e => E e ∧ e.isStore = false) (attempt work) w := by
  refine h.map.tryCatch fun e v he hv => ?_
  split
  · exact .pure _ hv
  · rename_i hstore
    refine .throw hv ⟨he, ?_⟩
    cases e with
    | store error => exact absurd rfl (hstore error)
    | _ => rfl

/-- An attempt at a file answers every failure of the file. -/
theorem attemptFile (h : GuardedAt P E work w) :
    GuardedAt P (fun e => E e ∧ e.isFile = false) (attemptFile work) w := by
  refine h.map.tryCatch fun e v he hv => ?_
  split
  · exact .pure _ hv
  · exact .pure _ hv
  · rename_i hfile hsource
    refine .throw hv ⟨he, ?_⟩
    cases e with
    | file error => exact absurd rfl (hfile error)
    | source path flaw => exact absurd rfl (hsource path flaw)
    | _ => rfl

theorem foldlM {f : β → α → Work β} {as : List α}
    (h : ∀ a ∈ as, ∀ b v, P v → GuardedAt P E (f b a) v) (b : β) (hw : P w) :
    GuardedAt P E (as.foldlM f b) w := by
  induction as generalizing b w with
  | nil => exact .pure b hw
  | cons a as ih =>
    rw [List.foldlM_cons]
    exact (h a List.mem_cons_self b w hw).andThen fun b' w' hw' =>
      ih (fun x hx => h x (List.mem_cons_of_mem _ hx)) b' hw'

theorem mapM {f : α → Work β} {as : List α} (h : ∀ a ∈ as, ∀ v, P v → GuardedAt P E (f a) v)
    (hw : P w) : GuardedAt P E (as.mapM f) w := by
  induction as generalizing w with
  | nil => exact .pure [] hw
  | cons a as ih =>
    rw [List.mapM_cons]
    refine (h a List.mem_cons_self w hw).andThen fun b w' hw' => ?_
    exact (ih (fun x hx => h x (List.mem_cons_of_mem _ hx)) hw').andThen fun _ _ hv => .pure _ hv

end GuardedAt

end Work

end TodoTracker
