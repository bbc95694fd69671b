import TodoTracker.Proofs.Anchor.Check
import TodoTracker.Proofs.Marker.KeyPlace
import TodoTracker.Proofs.Marker.Turn

/-!
# Checking a key where it was reported

A check of a key on the line of a candidate that carries it confirms the anchor exactly when the key
is a token of that line. A bare key behind a hyphen, or right in front of the next signal word, is
none, so the check passes it over unless the key is on the line once more.
-/

set_option autoImplicit false

namespace TodoTracker

namespace Reconciler

variable {reconciler : Reconciler} {key : Text} {anchor : Anchor} {lines : List Text}

theorem locate_of_isAt (h : KeyToken.isAt lines key anchor.line = true) :
    reconciler.locate lines anchor.line key = some anchor.line := by
  rw [locate, KeyToken.nearbyLine?, KeyToken.searchNear]
  simp [h]

theorem judge_confirmed_iff (hname : reconciler.newName? anchor.file = none) :
    (reconciler.judge key anchor lines).state = .confirmed ↔
      KeyToken.isAt lines key anchor.line = true := by
  rw [judge, hname]
  constructor
  · intro h
    cases hlocate : reconciler.locate lines anchor.line key with
    | none =>
      rw [hlocate] at h
      cases h
    | some line =>
      have hline : line = anchor.line := by
        by_contra hne
        simp [hlocate, hne] at h
      exact hline ▸ isAt_of_locate hlocate
  · intro h
    rw [locate_of_isAt h]
    simp

theorem inspect_of_readText {tree : FileTree} {text : Text}
    (hname : reconciler.newName? anchor.file = none)
    (hread : tree.readText (reconciler.path anchor.file) = .ok text) :
    reconciler.inspect tree key anchor = .ok (reconciler.judge key anchor text.contents) := by
  have hexists := FileTree.existsAt_of_readText hread
  rw [inspect, hname]
  dsimp only
  rw [Option.getD_none, hexists, hread]
  rfl

/-- A check on the line of a candidate confirms its key exactly when the key is a token there: at
its place, or once more on the line. -/
theorem inspect_reported_key {grammar : Grammar} (hgrammar : grammar ∈ Grammar.registry)
    {patterns : List Pattern}
    (hpatterns : compilePatterns ({} : Settings).ticketPatterns = .ok patterns) (mentions : Bool)
    {tree : FileTree} {file text : Text} (hname : reconciler.newName? file = none)
    (hread : tree.readText (reconciler.path file) = .ok text) {c : Candidate}
    (hc : c ∈ (Scanner.make ({} : Settings).signalWords patterns mentions).scan text.contents
      grammar)
    {found : CarriedKey} (hfound : c.carried = some found) :
    ∃ verdict, reconciler.inspect tree found.key ⟨file, c.line⟩ = .ok verdict ∧
      (verdict.state = .confirmed ↔ KeyToken.occursIn c.text found.key = true) ∧
      (KeyToken.occursIn c.text found.key = true ↔
        c.StandsFree found ∨
          ∃ column, column ≠ found.start ∧
            KeyToken.isTokenAt c.text found.key column = true) := by
  rw [compilePatterns_default, Except.ok.injEq] at hpatterns
  subst hpatterns
  have hg := Grammar.proper_registry hgrammar
  obtain ⟨i, line, pending, hline, hpending, span, hspan, hmem⟩ :=
    Scanner.exists_span_of_mem_scan hg hc
  have hin := (Grammar.lineSpans_ordered hg hpending line).1 span hspan
  obtain ⟨-, htext, -, hnumber⟩ :=
    Scanner.within_of_mem_scanSpan capital_default rfl hin hmem
  have hedge := Grammar.isAsciiWord_bodyStop hg (Grammar.endsApart_registry hgrammar) hpending line
    span hspan
  have htoken := Scanner.isTokenAt_iff capital_default rfl hin hedge hmem hfound
  have hname : reconciler.newName? (⟨file, c.line⟩ : Anchor).file = none := hname
  refine ⟨_, inspect_of_readText hname hread, ?_, ?_⟩
  · have hindex : ((c.line : Int) - 1).toNat = i := by omega
    have hpos : (1 : Int) ≤ c.line := by omega
    rw [judge_confirmed_iff hname, KeyToken.isAt, Bool.and_eq_true, decide_eq_true_eq, hindex,
      hline, htext]
    exact and_iff_right hpos
  · rw [KeyToken.occursIn_iff, ← htoken]
    constructor
    · rintro ⟨column, h⟩
      by_cases hcolumn : column = found.start
      · exact .inl (hcolumn ▸ h)
      · exact .inr ⟨column, hcolumn, h⟩
    · rintro (h | ⟨column, -, h⟩)
      · exact ⟨found.start, h⟩
      · exact ⟨column, h⟩

/-- A bare key behind a hyphen is reported, and not confirmed on its line. -/
theorem inspect_reported_key_behind_hyphen :
    ∃ c ∈ (Scanner.make ({} : Settings).signalWords [ticketPattern] false).scan
        ["# TODO-AB-1".toList] (.row "ini" "ini" [";", "#"] []),
      c.key = some "AB-1".toList ∧
        ∃ verdict, (Reconciler.mk ["repo".toList] 20 [] false).inspect
            ⟨[(["repo".toList], .directory),
              (["repo".toList, "a.ini".toList], .file (Utf8.encode "# TODO-AB-1\n".toList))],
              by decide⟩
            "AB-1".toList ⟨"a.ini".toList, c.line⟩ = .ok verdict ∧
          verdict.state ≠ .confirmed := by
  obtain ⟨c, hc⟩ : ∃ c : Candidate, c =
      ⟨1, 2, "# TODO-AB-1".toList, ⟨0, 11, 1, 11⟩, some "TODO".toList, 6, 11,
        some ⟨"AB-1".toList, 7, 11, .bare, 7, 11⟩, [], []⟩ := ⟨_, rfl⟩
  have hspans : (Grammar.row "ini" "ini" [";", "#"] []).spans ["# TODO-AB-1".toList] =
      [[⟨0, 11, 1, 11⟩]] := by
    decide +kernel
  have hspan : (Scanner.make ({} : Settings).signalWords [ticketPattern] false).scanSpan 1
      "# TODO-AB-1".toList ⟨0, 11, 1, 11⟩ = [c] := by
    rw [Scanner.make, prepare_default, hc]
    decide +kernel
  have hscan : (Scanner.make ({} : Settings).signalWords [ticketPattern] false).scan
      ["# TODO-AB-1".toList] (.row "ini" "ini" [";", "#"] []) = [c] := by
    rw [Scanner.scan, hspans, List.zip_cons_cons, Scanner.scanFrom, Scanner.scanLine,
      List.flatMap_singleton, hspan, List.mergeSort_singleton]
    rfl
  have hlines : Text.contents "# TODO-AB-1\n".toList = ["# TODO-AB-1".toList] := by cbv
  have hmem : c ∈ (Scanner.make ({} : Settings).signalWords [ticketPattern] false).scan
      (Text.contents "# TODO-AB-1\n".toList) (.row "ini" "ini" [";", "#"] []) := by
    rw [hlines, hscan]
    exact List.mem_singleton_self c
  have hgrammar : Grammar.row "ini" "ini" [";", "#"] [] ∈ Grammar.registry := by decide +kernel
  have hname : (Reconciler.mk ["repo".toList] 20 [] false).newName? "a.ini".toList = none := rfl
  have hread : FileTree.readText ⟨[(["repo".toList], .directory),
      (["repo".toList, "a.ini".toList], .file (Utf8.encode "# TODO-AB-1\n".toList))], by decide⟩
      ((Reconciler.mk ["repo".toList] 20 [] false).path "a.ini".toList) =
        .ok "# TODO-AB-1\n".toList := by
    cbv
  have hfound : c.carried = some ⟨"AB-1".toList, 7, 11, .bare, 7, 11⟩ := by rw [hc]
  obtain ⟨verdict, hverdict, hstate, -⟩ :=
    inspect_reported_key hgrammar compilePatterns_default false hname hread hmem hfound
  refine ⟨c, hscan ▸ List.mem_singleton_self c, by rw [hc]; rfl, verdict, hverdict, fun h => ?_⟩
  have hoccurs := hstate.1 h
  rw [hc] at hoccurs
  exact absurd hoccurs (by decide)

end Reconciler

end TodoTracker
