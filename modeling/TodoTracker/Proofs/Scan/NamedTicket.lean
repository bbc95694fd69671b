import TodoTracker.Proofs.Marker.TicketEntry
import TodoTracker.Proofs.Marker.Turn
import TodoTracker.Proofs.Scan.File

/-!
# Markers whose attributes name a ticket

A ticket that stands alone in a bracket is the key of its marker, so no task is created for the
marker while that of the ticket exists, and its line stays as it is. A ticket that shares its block
with other attributes is not seen: a marker without any other key asks for a task then, and the
block is removed with the attributes.
-/

set_option autoImplicit false

namespace TodoTracker

open Work

theorem Scanner.carried_of_mem_scan {scanner : Scanner} {lines : List Text} {grammar : Grammar}
    {c : Candidate} (hc : c ∈ scanner.scan lines grammar) (hmarker : c.isMention = false) :
    c.carried = CarriedKey.inSegment? scanner.patterns c.text c.signalStop c.segmentStop := by
  obtain ⟨i, line, spans, -, hc⟩ := exists_of_mem_scanFrom hc
  rw [scanLine, List.mem_mergeSort] at hc
  obtain ⟨span, -, hc⟩ := List.mem_flatMap.1 hc
  have hsignal : c.signal.isSome = true := by
    rw [Candidate.isMention, Option.isNone_eq_false_iff] at hmarker
    exact hmarker
  obtain ⟨signal, -, last, rfl⟩ := exists_signal hc hsignal
  rfl

namespace ScanJob

variable {job : ScanJob} {file : Text} {path : Path} {scan scan' : FileScan} {c : Candidate}
  {w w' : Workspace}

/-- A key of a task asks for no edit. -/
theorem edits_actionOf_of_known {known : Text → Bool} {found : CarriedKey}
    (hcarried : c.carried = some found) (hknown : known found.key = true) :
    (job.actionOf known c).edits = false := by
  rw [actionOf, Decision.decide, Candidate.key, hcarried]
  dsimp only [Option.map_some]
  rw [Decision.withKey, hknown, if_pos rfl]
  split <;> rfl

/-- A candidate that asks for no edit leaves the edits of its file as they are. -/
theorem edits_of_passive (hpassive : (job.actionOf w.knows c).edits = false)
    (h : (job.scanCandidate file path scan c).Yields w scan' w') : scan'.edits = scan.edits := by
  cases scanned_of_yields h with
  | refused => rfl
  | opened haction => rw [haction] at hpassive; cases hpassive
  | pruned _ haction => rw [haction] at hpassive; cases hpassive
  | noted => rfl

/-- A marker with a block that names a ticket has a ticket attribute for its key exactly when a
bracket of its text holds a ticket alone, as that block does if the ticket is its only entry. While
the ticket of the key has a task, none is created for the marker and its line is not edited. Without
a key of any other form the marker asks for a task, whatever tasks there are, and the edit that
writes the key of that task removes the block. -/
theorem named_ticket_carried_iff {lines : List Text} {grammar : Grammar} {block : Block}
    {entry key : Text} (hc : c ∈ job.scanner.scan lines grammar) (hmarker : c.isMention = false)
    (hblock : block ∈ Block.scan c.segment) (hentry : entry ∈ Text.splitOn ',' block.inner)
    (hnames : TicketAttribute.Names entry key) :
    ((∃ found, c.carried = some found ∧ found.form = .bracket) ↔
      ∃ other, TicketAttribute.Alone c.segment other) ∧
    (Text.splitOn ',' block.inner = [entry] → TicketAttribute.Alone c.segment key) ∧
    (∀ found, c.carried = some found → found.form = .bracket →
      TicketAttribute.Alone c.segment found.key ∧
      ∀ file path scan w scan' w', (job.scanCandidate file path scan c).Yields w scan' w' →
        w.knows found.key = true →
          job.actionOf w.knows c ≠ .create ∧ scan'.edits = scan.edits) ∧
    (c.carried = none → job.options.createTasks = true →
      (∀ known, job.actionOf known c = .create) ∧
      (job.settings.stripAttributes = true → ∀ newKey,
        Splice.columnRemoval c.text (c.signalStop + block.start) (c.signalStop + block.stop)
          c.segmentStop ∈ job.creationSplices c newKey)) := by
  have hcarried := Scanner.carried_of_mem_scan hc hmarker
  refine ⟨?_, fun hentries => Block.alone_of_splitOn hblock hentries hnames, ?_, ?_⟩
  · rw [hcarried]
    exact CarriedKey.inSegment?_bracket_iff
  · intro found hfound hform
    refine ⟨CarriedKey.alone_of_inSegment? (hcarried ▸ hfound) hform, ?_⟩
    intro file path scan w scan' w' hyields hknown
    have hpassive : (job.actionOf w.knows c).edits = false := edits_actionOf_of_known hfound hknown
    refine ⟨fun hcreate => ?_, edits_of_passive hpassive hyields⟩
    rw [hcreate] at hpassive
    cases hpassive
  · intro hnone hcreate
    constructor
    · intro known
      have hkey : c.key = none := by rw [Candidate.key, hnone]; rfl
      rw [actionOf, Decision.decide, hkey]
      dsimp only
      rw [Decision.withoutKey, hmarker, policy, hcreate]
      rfl
    · intro hstrip newKey
      rw [creationSplices, if_pos hstrip]
      exact List.mem_append_right _ (List.mem_map_of_mem
        (Block.mem_attributeBlocks_of_names hblock hentry hnames))

/-- A ticket in front of another attribute is not seen, and its block goes with the new key. -/
theorem named_ticket_carried_iff_shared : ∃ (job : ScanJob) (c : Candidate),
    c ∈ job.scanner.scan ["# TODO [ticket=A-1, p=2]: x".toList] (.row "hash" "py" ["#"] []) ∧
    c.carried = none ∧ (∀ known, job.actionOf known c = .create) ∧
    ∀ newKey, ⟨7, 24, []⟩ ∈ job.creationSplices c newKey := by
  obtain ⟨job, hjob⟩ : ∃ job : ScanJob, job =
      { repo := [], settings := {}, options := { createTasks := true }
        scanner := ⟨["TODO".toList], [], false⟩, roots := [], gitRoot := none
        reconciler := ⟨[], 7, [], false⟩, inquiry := .start } := ⟨_, rfl⟩
  obtain ⟨c, hc⟩ : ∃ c : Candidate, c =
      ⟨1, 2, "# TODO [ticket=A-1, p=2]: x".toList, ⟨0, 27, 1, 27⟩, some "TODO".toList, 6, 27, none,
        [("p".toList, "2".toList)], "x".toList⟩ := ⟨_, rfl⟩
  have hspans : (Grammar.row "hash" "py" ["#"] []).spans ["# TODO [ticket=A-1, p=2]: x".toList] =
      [[⟨0, 27, 1, 27⟩]] := by
    decide +kernel
  have hspan : job.scanner.scanSpan 1 "# TODO [ticket=A-1, p=2]: x".toList ⟨0, 27, 1, 27⟩ = [c] := by
    rw [hjob, hc]
    decide +kernel
  have hmem : c ∈ job.scanner.scan ["# TODO [ticket=A-1, p=2]: x".toList]
      (.row "hash" "py" ["#"] []) := by
    rw [Scanner.scan, hspans, List.zip_cons_cons, Scanner.scanFrom, Scanner.scanLine,
      List.flatMap_singleton, hspan]
    simp
  have hblock : ⟨1, 18, "ticket=A-1, p=2".toList⟩ ∈ Block.scan c.segment := by
    rw [hc]
    decide +kernel
  have hentry : "ticket=A-1".toList ∈ Text.splitOn ',' "ticket=A-1, p=2".toList := by
    decide +kernel
  have hnames : TicketAttribute.Names "ticket=A-1".toList "A-1".toList :=
    ⟨"ticket".toList, [], [], [], by decide +kernel, by decide +kernel, by decide, by decide, rfl,
      rfl, rfl⟩
  have hnone : c.carried = none := by rw [hc]
  obtain ⟨-, -, -, hunseen⟩ := named_ticket_carried_iff hmem (by rw [hc]; rfl) hblock hentry hnames
  obtain ⟨hcreate, hremoved⟩ := hunseen hnone (by rw [hjob])
  refine ⟨job, c, hmem, hnone, hcreate, fun newKey => ?_⟩
  have hsplice := hremoved (by rw [hjob]) newKey
  have hcolumns : Splice.columnRemoval c.text (c.signalStop + 1) (c.signalStop + 18) c.segmentStop =
      ⟨7, 24, []⟩ := by
    rw [hc]
    decide +kernel
  exact hcolumns ▸ hsplice

end ScanJob

end TodoTracker
