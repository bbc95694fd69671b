import TodoTracker.Proofs.Comment.Insert
import TodoTracker.Proofs.Marker.SignalWord

/-!
# Delimiters and written keys

No closer of the registry starts with a character of a written key, but for those that start with a
hyphen, and these have no digit behind it. No closer has a capital letter in it, and no opener the
whole of a default signal word.
-/

set_option autoImplicit false

namespace TodoTracker

theorem prepare_default : Signal.prepare ({} : Settings).signalWords =
    ["FIXME", "HACK", "NOTE", "TODO", "BUG"].map String.toList := by
  cbv

theorem mem_of_mem_prepare_default {word : Text}
    (h : word ∈ Signal.prepare ({} : Settings).signalWords) :
    word ∈ ({} : Settings).signalWords := by
  rw [prepare_default] at h
  revert word
  decide

theorem capital_default : Signal.Capital (Signal.prepare ({} : Settings).signalWords) := by
  have hall : (Signal.prepare ({} : Settings).signalWords).all
      (fun w => !w.isEmpty && w.all Text.isAsciiUpper) = true := by
    rw [prepare_default]
    decide
  intro w hw
  have h := List.all_eq_true.1 hall w hw
  rw [Bool.and_eq_true, Bool.not_eq_true', List.isEmpty_eq_false_iff, List.all_eq_true] at h
  exact h

namespace Delimiter

/-- Whether a closer cannot start in a written key. -/
def startsApart : Text → Bool
  | [] => false
  | '-' :: rest => !(rest.head?.any Text.isAsciiDigit) && !rest.isEmpty
  | c :: _ => c != '(' && c != ')' && !Text.isAsciiUpper c && !Text.isAsciiDigit c

/-- Whether a delimiter is not affected by a key behind a word. -/
def isSteady (word : Text) (d : Delimiter) : Bool :=
  !d.opener.isEmpty && word.any (fun c => !d.opener.contains c) &&
    d.closer.all fun closer => startsApart closer && closer.all fun c => !Text.isAsciiUpper c

end Delimiter

theorem isSteady_registry : ∀ grammar ∈ Grammar.registry, ∀ d ∈ grammar.delimiters,
    ∀ word ∈ ["FIXME", "HACK", "NOTE", "TODO", "BUG"].map String.toList,
      d.isSteady word = true := by
  decide +kernel

/-- A closer that starts apart starts nowhere in a written key. -/
theorem TicketKey.freeOf_written (key : TicketKey) {closer : Text}
    (h : Delimiter.startsApart closer = true) (v : Text) :
    Text.FreeOf closer key.written v := by
  cases closer with
  | nil => cases h
  | cons c rest =>
    by_cases hc : c = '-'
    · subst hc
      have hfront : '-' ∉ '(' :: key.project := by
        intro hmem
        rcases List.mem_cons.1 hmem with hmem | hmem
        · cases hmem
        · have := key.keyChar_of_mem_project hmem
          revert this
          decide
      have hback : '-' ∉ Text.ofNat key.number ++ [')'] := by
        intro hmem
        rcases List.mem_append.1 hmem with hmem | hmem
        · have := Text.asciiDigit_of_mem_ofNat hmem
          revert this
          decide
        · simp at hmem
      have hwritten : key.written =
          ('(' :: key.project) ++ (['-'] ++ (Text.ofNat key.number ++ [')'])) := by
        simp [written, text]
      rw [hwritten]
      apply Text.freeOf_append (Text.freeOf_of_head rfl hfront _)
      apply Text.freeOf_append _ (Text.freeOf_of_head rfl hback _)
      intro p hp hstarts
      have hp : p = 0 := by simpa using hp
      subst hp
      obtain ⟨d, digits, hdigits⟩ := List.exists_cons_of_ne_nil (Text.ofNat_ne_nil key.number)
      have hdigit := Text.isAsciiDigit_of_asciiDigit
        (Text.asciiDigit_of_mem_ofNat (hdigits ▸ List.mem_cons_self))
      rw [hdigits] at hstarts
      cases rest with
      | nil => simp [Delimiter.startsApart] at h
      | cons e rest =>
        simp only [List.drop_zero, List.cons_append, List.nil_append, List.cons_prefix_cons]
          at hstarts
        obtain ⟨-, rfl, -⟩ := hstarts
        simp [Delimiter.startsApart, hdigit] at h
    · have hapart : (c != '(' && c != ')' && !Text.isAsciiUpper c && !Text.isAsciiDigit c) = true := by
        rw [Delimiter.startsApart] at h
        · exact h
        · exact hc
      simp only [Bool.and_eq_true, bne_iff_ne, ne_eq, Bool.not_eq_true'] at hapart
      obtain ⟨⟨⟨hopen, hclose⟩, hupper⟩, hdigit⟩ := hapart
      apply Text.freeOf_of_head rfl
      exact key.not_mem_written (by rw [hupper, hdigit]; rfl) hc hopen hclose

/-- The delimiters of the registry ignore a key behind a signal word. -/
theorem ignores_written {grammar : Grammar} (hgrammar : grammar ∈ Grammar.registry) {word : Text}
    (hword : word ∈ Signal.prepare ({} : Settings).signalWords) (key : TicketKey) :
    grammar.Ignores word key.written := by
  obtain ⟨hne, hupper⟩ := capital_default word hword
  rw [prepare_default] at hword
  have hsteady : ∀ d ∈ grammar.delimiters, d.opener ≠ [] ∧ (∃ c ∈ word, c ∉ d.opener) ∧
      ∀ closer ∈ d.closer, Delimiter.startsApart closer = true ∧
        ∀ c ∈ closer, Text.isAsciiUpper c = false := by
    intro d hd
    have h := isSteady_registry grammar hgrammar d hd word hword
    simp only [Delimiter.isSteady, Bool.and_eq_true, Bool.not_eq_true', List.isEmpty_eq_false_iff,
      List.any_eq_true, List.contains_eq_mem, decide_eq_false_iff_not] at h
    obtain ⟨⟨hopener, hlacks⟩, hcloser⟩ := h
    refine ⟨hopener, hlacks, ?_⟩
    intro closer hmem
    rw [Option.mem_def.1 hmem, Option.all_some, Bool.and_eq_true, List.all_eq_true] at hcloser
    exact ⟨hcloser.1, fun c hc => by simpa using hcloser.2 c hc⟩
  refine ⟨⟨fun d hd => (hsteady d hd).1, ?_⟩, fun d hd => (hsteady d hd).2.1, ?_, ?_⟩
  · rintro d hd closer hcloser rfl
    have := ((hsteady d hd).2.2 [] hcloser).1
    cases this
  · intro d hd closer hcloser
    obtain ⟨c, hc⟩ := Option.ne_none_iff_exists'.1 (mt List.getLast?_eq_none_iff.1 hne)
    refine ⟨c, hc, ?_⟩
    intro hmem
    have hlower := ((hsteady d hd).2.2 closer hcloser).2 c hmem
    rw [hupper c (List.mem_of_getLast? hc)] at hlower
    cases hlower
  · exact fun d hd closer hcloser v =>
      key.freeOf_written ((hsteady d hd).2.2 closer hcloser).1 v

end TodoTracker
