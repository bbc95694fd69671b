import TodoTracker.Proofs.Scan.Run

/-!
# Where a scan leaves a task

A scan that creates no tasks leaves a task, in every file where its key was found, with an anchor
at the last line with the key. Whatever anchors the task had in that file before are gone. A second
anchor can only come from the name of another file: one that holds a hash sign may be read back as
the place of a line in the first file.
-/

set_option autoImplicit false

namespace TodoTracker

open Work

section Spots

variable {file key : Text} {spots : List (Text × Nat)} {n : Nat}

theorem mem_sightingsIn {s : Text × Anchor} :
    s ∈ sightingsIn file spots ↔ ∃ n, lastLine? spots s.1 = some n ∧ s.2 = ⟨file, n⟩ := by
  rw [sightingsIn, List.mem_filterMap]
  simp only [List.mem_eraseDups, sighting?, Option.map_eq_some_iff]
  constructor
  · rintro ⟨key, -, n, hn, rfl⟩
    exact ⟨n, hn, rfl⟩
  · rintro ⟨n, hn, hanchor⟩
    obtain ⟨spot, hspot, rfl⟩ := List.mem_map.1 (List.max?_mem hn)
    obtain ⟨hspot, hkey⟩ := List.mem_filter.1 hspot
    refine ⟨s.1, List.mem_map.2 ⟨spot, hspot, beq_iff_eq.1 hkey⟩, spot.2, hn, ?_⟩
    rw [← hanchor]

end Spots

namespace ScanJob

variable {job : ScanJob} {known : Text → Bool} {c : Candidate} {key : Text}

theorem ne_create_of_disabled (h : job.options.createTasks = false) (known : Text → Bool)
    (c : Candidate) : job.actionOf known c ≠ .create := by
  have hpolicy : job.policy.createTasks = false := h
  rw [actionOf, Decision.decide]
  split
  · rw [Decision.withoutKey, hpolicy]
    split <;> simp [Decision.ignored]
  · rw [Decision.withKey, hpolicy]
    split
    · split <;> simp [Decision.ignored]
    · split
      · simp
      · rw [Bool.and_false]
        simp [Decision.ignored]

/-- The sightings in files, in the order in which they are confirmed. -/
def found (job : ScanJob) (known : Text → Bool) (files : List (Text × List Candidate)) :
    List (Text × Anchor) :=
  files.flatMap fun f => sightingsIn f.1 (job.spots known f.2)

theorem one_le_line {lines : List Text} {grammar : Grammar} {s : Text × Anchor} {file : Text}
    (h : s ∈ sightingsIn file (job.spots known (job.scanner.scan lines grammar))) :
    s.2.file = file ∧ 1 ≤ s.2.line := by
  obtain ⟨n, hn, heq⟩ := mem_sightingsIn.1 h
  rw [heq]
  refine ⟨rfl, Int.ofNat_le.2 (one_le_of_lastLine? ?_ hn)⟩
  intro spot hspot
  obtain ⟨c, hc, hspot⟩ := List.mem_filterMap.1 hspot
  obtain ⟨_, -, rfl⟩ := Option.map_eq_some_iff.1 hspot
  exact Scanner.le_line_of_mem_scanFrom hc

section Twins

/-- Two files with the same text. The name of the second one goes on from that of the first one
like an anchor to a line of it. -/
def twinWorkspace : Workspace := .inMemory
  ⟨[(["a.c".toList], .file (Utf8.encode "//T A".toList)),
    (["a.c#2-b.c".toList], .file (Utf8.encode "//T A".toList))], by decide⟩
  ⟨[("A".toList, .object [])], by decide⟩

def twinJob : ScanJob where
  repo := []
  settings := {}
  options := {}
  scanner := ⟨["T".toList], [⟨.group 1 (.char ⟨[.one 65], false, .exact⟩), 1⟩], true⟩
  roots := [[]]
  gitRoot := none
  reconciler := ⟨[], 20, [], false⟩
  inquiry := .start

def slashGrammar (name : Text) (extensions : List Text) : Grammar :=
  ⟨name, extensions, ["//".toList], [("/*".toList, "*/".toList)]⟩

/-- Files with a certain suffix have the first grammar. -/
theorem grammar_of_suffix : ∃ name extensions, ∀ path : Path,
    Grammar.fileNames.lookup (Text.lower path.name) = none → path.suffix = ".c".toList →
      Grammar.ofPath? path = some (slashGrammar name extensions) := by
  obtain ⟨name, extensions, hgrammar⟩ : ∃ name extensions, Grammar.registry.head? =
      some (slashGrammar name extensions) := ⟨_, _, rfl⟩
  have hsuffix : Grammar.ofExtension? ".c".toList = Grammar.registry.head? := by decide +kernel
  refine ⟨name, extensions, fun path hname hpath => ?_⟩
  rw [Grammar.ofPath?, hname, hpath]
  exact hsuffix.trans hgrammar

end Twins

section Standing

open Reconciler

variable {w w' : Workspace} {report : ScanReport} {file : Text}

end Standing

end ScanJob

end TodoTracker
