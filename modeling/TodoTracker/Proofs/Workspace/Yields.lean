import TodoTracker.Workspace

/-!
# Work that succeeds

`work.Yields w a w'` says that a piece of work succeeds on the workspace `w`, answers `a` and leaves
`w'`. A successful run of composed work is taken apart into successful runs of its parts.
-/

set_option autoImplicit false

namespace TodoTracker.Work

variable {α β : Type}

/-- The work succeeds on `w` with the answer `a` and leaves `w'`. -/
def Yields (work : Work α) (w : Workspace) (a : α) (w' : Workspace) : Prop :=
  work.run w = (.ok a, w')

theorem exists_yields {work : Work α} {w : Workspace}
    (h : (work.run w).1.toOption.isSome = true) : ∃ a, work.Yields w a (work.run w).2 := by
  unfold Yields
  rcases hr : work.run w with ⟨_ | a, w'⟩
  · rw [hr] at h
    cases h
  · exact ⟨a, rfl⟩

theorem yields_pure {a b : α} {w w' : Workspace} :
    Yields (pure a) w b w' ↔ a = b ∧ w = w' := by
  constructor
  · intro h
    cases h
    exact ⟨rfl, rfl⟩
  · rintro ⟨rfl, rfl⟩
    rfl

theorem run_bind (work : Work α) (f : α → Work β) (w : Workspace) :
    (work >>= f).run w = match work.run w with
      | (.ok a, w') => (f a).run w'
      | (.error e, w') => (.error e, w') := by
  rw [ExceptT.run_bind]
  change StateT.bind (m := Id) work.run _ w = _
  unfold StateT.bind
  change (match work.run w with | (answer, w') => _) = _
  rcases work.run w with ⟨_ | _, _⟩ <;> rfl

theorem yields_bind {work : Work α} {f : α → Work β} {b : β} {w w'' : Workspace} :
    Yields (work >>= f) w b w'' ↔ ∃ a w', Yields work w a w' ∧ Yields (f a) w' b w'' := by
  unfold Yields
  rw [run_bind]
  constructor
  · intro h
    rcases hr : work.run w with ⟨e | a, w'⟩
    · rw [hr] at h
      cases h
    · rw [hr] at h
      exact ⟨a, w', rfl, h⟩
  · rintro ⟨a, w', hr, h⟩
    rw [hr]
    exact h

theorem yields_map {work : Work α} {f : α → β} {b : β} {w w' : Workspace} :
    Yields (f <$> work) w b w' ↔ ∃ a, Yields work w a w' ∧ f a = b := by
  rw [map_eq_pure_bind, yields_bind]
  constructor
  · rintro ⟨a, v, ha, h⟩
    obtain ⟨rfl, rfl⟩ := yields_pure.1 h
    exact ⟨a, ha, rfl⟩
  · rintro ⟨a, ha, rfl⟩
    exact ⟨a, w', ha, yields_pure.2 ⟨rfl, rfl⟩⟩

theorem yields_get {a w w' : Workspace} : Yields get w a w' ↔ a = w ∧ w' = w := by
  constructor
  · intro h
    cases h
    exact ⟨rfl, rfl⟩
  · rintro ⟨rfl, rfl⟩
    rfl

theorem yields_set {v w w' : Workspace} {u : PUnit} : Yields (set v) w u w' ↔ w' = v := by
  constructor
  · intro h
    cases h
    rfl
  · rintro rfl
    rfl

theorem yields_modify {f : Workspace → Workspace} {w w' : Workspace} {u : PUnit} :
    Yields (modify f) w u w' ↔ w' = f w := by
  constructor
  · intro h
    cases h
    rfl
  · rintro rfl
    rfl

theorem not_yields_throw {e : Failure} {a : α} {w w' : Workspace} :
    ¬Yields (throw e) w a w' := by
  intro h
  cases h

theorem run_tryCatch (work : Work α) (handler : Failure → Work α) (w : Workspace) :
    (tryCatch work handler).run w = match work.run w with
      | (.ok a, w') => (.ok a, w')
      | (.error e, w') => (handler e).run w' := by
  rw [ExceptT.run_tryCatch]
  change StateT.bind (m := Id) work.run _ w = _
  unfold StateT.bind
  change (match work.run w with | (answer, w') => _) = _
  rcases work.run w with ⟨_ | _, _⟩ <;> rfl

/-- Guarded work succeeds by itself or after a failure that the guard makes good. -/
theorem yields_tryCatch {work : Work α} {handler : Failure → Work α} {a : α} {w w' : Workspace} :
    Yields (tryCatch work handler) w a w' ↔
      Yields work w a w' ∨ ∃ e v, work.run w = (.error e, v) ∧ Yields (handler e) v a w' := by
  unfold Yields
  rw [run_tryCatch]
  rcases hr : work.run w with ⟨e | b, v⟩
  · constructor
    · intro h
      exact .inr ⟨e, v, rfl, h⟩
    · rintro (h | ⟨_, _, he, h⟩)
      · cases h
      · cases he
        exact h
  · constructor
    · intro h
      exact .inl h
    · rintro (h | ⟨_, _, he, -⟩)
      · exact h
      · cases he

theorem yields_ofExcept {answer : Except Failure α} {a : α} {w w' : Workspace} :
    Yields (ofExcept answer) w a w' ↔ answer = .ok a ∧ w' = w := by
  cases answer with
  | error e => simp [ofExcept, not_yields_throw]
  | ok b =>
    rw [ofExcept, yields_pure]
    simp [eq_comm]

theorem yields_look {f : FileTree → Except Failure α} {a : α} {w w' : Workspace} :
    Yields (look f) w a w' ↔ f w.disk.tree = .ok a ∧ w' = w := by
  rw [look, yields_bind]
  constructor
  · rintro ⟨v, u, hv, h⟩
    obtain ⟨rfl, rfl⟩ := yields_get.1 hv
    exact yields_ofExcept.1 h
  · rintro ⟨h, rfl⟩
    exact ⟨_, _, yields_get.2 ⟨rfl, rfl⟩, yields_ofExcept.2 ⟨h, rfl⟩⟩

theorem run_get (w : Workspace) : (get : Work Workspace).run w = (.ok w, w) := rfl

theorem run_ofExcept (answer : Except Failure α) (w : Workspace) :
    (ofExcept answer).run w = (answer, w) := by
  cases answer <;> rfl

theorem run_look (f : FileTree → Except Failure α) (w : Workspace) :
    (look f).run w = (f w.disk.tree, w) :=
  run_ofExcept _ _

theorem run_onDisk (f : Disk → Except Failure α × Disk) (w : Workspace) :
    (onDisk f).run w = ((f w.disk).1, { w with disk := (f w.disk).2 }) := by
  change (do modify fun w' : Workspace => { w' with disk := (f w.disk).2 }
             ofExcept (f w.disk).1 : Work α).run w = _
  rw [run_bind]
  exact run_ofExcept _ _

theorem yields_onDisk {f : Disk → Except Failure α × Disk} {a : α} {w w' : Workspace} :
    Yields (onDisk f) w a w' ↔ (f w.disk).1 = .ok a ∧ w' = { w with disk := (f w.disk).2 } := by
  rw [onDisk, yields_bind]
  constructor
  · rintro ⟨v, u, hv, h⟩
    obtain ⟨rfl, rfl⟩ := yields_get.1 hv
    obtain ⟨_, v, hm, h⟩ := yields_bind.1 h
    obtain ⟨ha, rfl⟩ := yields_ofExcept.1 h
    exact ⟨ha, yields_modify.1 hm⟩
  · rintro ⟨ha, rfl⟩
    refine ⟨_, _, yields_get.2 ⟨rfl, rfl⟩, ?_⟩
    exact yields_bind.2 ⟨⟨⟩, _, yields_modify.2 rfl, yields_ofExcept.2 ⟨ha, rfl⟩⟩

theorem run_map (work : Work α) (f : α → β) (w : Workspace) :
    (f <$> work).run w = match work.run w with
      | (.ok a, w') => (.ok (f a), w')
      | (.error e, w') => (.error e, w') := by
  rw [map_eq_pure_bind, run_bind]
  rcases work.run w with ⟨_ | _, _⟩ <;> rfl

/-- An attempt answers what the work answers or why the store has refused it. -/
theorem yields_attempt {work : Work α} {answer : Except StoreError α} {w w' : Workspace}
    (h : (attempt work).Yields w answer w') :
    (∃ a, answer = .ok a ∧ work.Yields w a w') ∨ ∃ e, answer = .error e := by
  rw [attempt, yields_tryCatch] at h
  rcases h with h | ⟨e, v, -, h⟩
  · obtain ⟨a, ha, rfl⟩ := yields_map.1 h
    exact .inl ⟨a, rfl, ha⟩
  · split at h
    · obtain ⟨rfl, -⟩ := yields_pure.1 h
      exact .inr ⟨_, rfl⟩
    · exact absurd h not_yields_throw

theorem yields_of_attempt {work : Work α} {a : α} {w w' : Workspace}
    (h : (attempt work).Yields w (.ok a) w') : work.Yields w a w' := by
  rcases yields_attempt h with ⟨_, ha, hwork⟩ | ⟨e, he⟩
  · cases ha
    exact hwork
  · cases he

/-- An attempt leaves what the work leaves. -/
theorem run_attempt (work : Work α) (w : Workspace) :
    ((attempt work).run w).2 = (work.run w).2 := by
  rw [attempt, run_tryCatch, run_map]
  rcases work.run w with ⟨e | a, v⟩
  · cases e <;> rfl
  · rfl

theorem yields_attemptFile {work : Work α} {answer : Except Text α} {w w' : Workspace}
    (h : (attemptFile work).Yields w answer w') :
    (∃ a, answer = .ok a ∧ work.Yields w a w') ∨
      ∃ message e, answer = .error message ∧ work.run w = (.error e, w') := by
  rw [attemptFile, yields_tryCatch] at h
  rcases h with h | ⟨e, v, hrun, h⟩
  · obtain ⟨a, ha, rfl⟩ := yields_map.1 h
    exact .inl ⟨a, rfl, ha⟩
  · rw [run_map] at hrun
    have hfailed : work.run w = (.error e, v) := by
      rcases hwork : work.run w with ⟨_ | _, _⟩
      · rw [hwork] at hrun
        cases hrun
        rfl
      · rw [hwork] at hrun
        cases hrun
    split at h
    · obtain ⟨rfl, rfl⟩ := yields_pure.1 h
      exact .inr ⟨_, _, rfl, hfailed⟩
    · obtain ⟨rfl, rfl⟩ := yields_pure.1 h
      exact .inr ⟨_, _, rfl, hfailed⟩
    · exact absurd h not_yields_throw

theorem yields_attemptFile_of_yields {work : Work α} {a : α} {w w' : Workspace}
    (h : work.Yields w a w') : (attemptFile work).Yields w (.ok a) w' := by
  rw [attemptFile, yields_tryCatch]
  exact .inl (yields_map.2 ⟨a, h, rfl⟩)

theorem yields_foldlM_cons {f : β → α → Work β} {a : α} {as : List α} {b c : β}
    {w w'' : Workspace} :
    Yields ((a :: as).foldlM f b) w c w'' ↔
      ∃ b' w', Yields (f b a) w b' w' ∧ Yields (as.foldlM f b') w' c w'' := by
  rw [List.foldlM_cons, yields_bind]

/-- What every step of a fold keeps, the fold keeps. -/
theorem foldlM_keeps {f : β → α → Work β} {P : β → Workspace → Prop} {as : List α}
    (hstep : ∀ a ∈ as, ∀ b w b' w', P b w → Yields (f b a) w b' w' → P b' w') {b c : β}
    {w w' : Workspace} (hb : P b w) (h : Yields (as.foldlM f b) w c w') : P c w' := by
  induction as generalizing b w with
  | nil =>
    obtain ⟨rfl, rfl⟩ := yields_pure.1 h
    exact hb
  | cons a as ih =>
    obtain ⟨b', v, hfirst, hrest⟩ := yields_foldlM_cons.1 h
    exact ih (fun x hx => hstep x (List.mem_cons_of_mem _ hx))
      (hstep a List.mem_cons_self b w b' v hb hfirst) hrest

/-- A run over a list is a run of the first member and then one over the rest. -/
theorem yields_mapM_cons {f : α → Work β} {a : α} {as : List α} {bs : List β} {w w'' : Workspace} :
    Yields ((a :: as).mapM f) w bs w'' ↔
      ∃ b w' rest, Yields (f a) w b w' ∧ Yields (as.mapM f) w' rest w'' ∧ bs = b :: rest := by
  rw [List.mapM_cons, yields_bind]
  constructor
  · rintro ⟨b, w', hb, h⟩
    obtain ⟨rest, v, hr, h⟩ := yields_bind.1 h
    obtain ⟨rfl, rfl⟩ := yields_pure.1 h
    exact ⟨b, w', rest, hb, hr, rfl⟩
  · rintro ⟨b, w', rest, hb, hr, rfl⟩
    exact ⟨b, w', hb, yields_bind.2 ⟨rest, w'', hr, yields_pure.2 ⟨rfl, rfl⟩⟩⟩

theorem yields_mapM_append {f : α → Work β} {as as' : List α} {bs : List β} {w w'' : Workspace} :
    Yields ((as ++ as').mapM f) w bs w'' ↔
      ∃ first w' rest, Yields (as.mapM f) w first w' ∧ Yields (as'.mapM f) w' rest w'' ∧
        bs = first ++ rest := by
  rw [List.mapM_append, yields_bind]
  constructor
  · rintro ⟨first, w', hfirst, h⟩
    obtain ⟨rest, v, hrest, h⟩ := yields_bind.1 h
    obtain ⟨rfl, rfl⟩ := yields_pure.1 h
    exact ⟨first, w', rest, hfirst, hrest, rfl⟩
  · rintro ⟨first, w', rest, hfirst, hrest, rfl⟩
    exact ⟨first, w', hfirst, yields_bind.2 ⟨rest, w'', hrest, yields_pure.2 ⟨rfl, rfl⟩⟩⟩

end TodoTracker.Work
