import Lexing.Proofs.Source.Rows
import Lexing.Proofs.Stream.Places

namespace Lexing

open Text

namespace Lines

def excerptOf (file message : String) (line : Nat) (shown : List Char) (blanks marks : Nat) :
    String :=
  let number := toString line
  let gutter := "".pushn ' ' number.length
  let lead := "".pushn ' ' blanks
  let carets := "".pushn '^' marks
  s!"error: {message}\n  --> {file}:{number}:{blanks + 1}\n" ++
    s!" {gutter} |\n {number} | {String.ofList shown}\n" ++ s!" {gutter} | {lead}{carets}\n"

variable {text above row below lead rest after lexeme : List Char} {line : Nat}

theorem exists_trimmed {c : Char} (h : c ∈ rest) (hc : c ≠ '\r') (lead : List Char) :
    ∃ shown returns, rest = shown ++ returns ∧ (∀ a ∈ returns, a = '\r') ∧ shown ≠ [] ∧
      (∀ a ∈ (lead ++ shown).getLast?, a ≠ '\r') ∧
      (lead ++ rest).rdropWhile (· == '\r') = lead ++ shown := by
  have hne : rest.rdropWhile (· == '\r') ≠ [] := by
    rw [ne_eq, List.rdropWhile_eq_nil_iff]
    intro hall
    exact hc (by simpa using hall c h)
  have hlast := List.rdropWhile_last_not (· == '\r') rest hne
  refine ⟨rest.rdropWhile (· == '\r'), rest.rtakeWhile (· == '\r'),
    List.rdropWhile_append_rtakeWhile.symm, ?_, hne, ?_, ?_⟩
  · intro a ha
    simpa using List.mem_rtakeWhile_imp ha
  · intro a ha
    rw [List.getLast?_append_of_ne_nil _ hne, List.getLast?_eq_some_getLast hne] at ha
    obtain rfl := Option.some.inj ha
    simpa using hlast
  · rw [List.rdropWhile, ne_eq, List.reverse_eq_nil_iff] at hne
    rw [List.rdropWhile, List.reverse_append, List.dropWhile_append,
      if_neg (by simpa using hne), List.reverse_append, List.reverse_reverse]
    rfl

theorem Row.excerpt?_eq (h : Row text line above (lead ++ rest) below) {span : Span}
    (hstart : span.start = size above + size lead) (file message : String) :
    (ofText text).excerpt? file span message =
      some (excerptOf file message line ((lead ++ rest).rdropWhile (· == '\r')) lead.length
        (markCount ((lead ++ rest).rdropWhile (· == '\r')).length (lead.length + 1)
          (span.slice text))) := by
  obtain ⟨hline, hcolumn⟩ := h.column?_eq
  simp only [excerpt?, hstart, hline, hcolumn, h.line?_eq, Option.map_some]
  rfl

theorem Row.length_takeWhile (h : Row text line above (lead ++ rest) below)
    (hrest : rest ++ below = lexeme ++ after) :
    (lexeme.takeWhile (· != '\n')).length = min lexeme.length rest.length := by
  have hplain : ∀ c ∈ rest, (c != '\n') = true := by
    intro c hc
    rw [bne_iff_ne]
    rintro rfl
    exact h.plain (List.mem_append_right lead hc)
  rcases List.append_eq_append_iff.1 hrest with ⟨more, rfl, hbelow⟩ | ⟨more, rfl, hafter⟩
  · have hmore : more.takeWhile (· != '\n') = [] := by
      cases more with
      | nil => rfl
      | cons c more =>
          obtain rfl := h.cut_below c (by rw [hbelow]; rfl)
          rfl
    rw [List.takeWhile_append_of_pos hplain, hmore, List.append_nil, List.length_append]
    omega
  · have hlexeme : lexeme.takeWhile (· != '\n') = lexeme :=
      List.takeWhile_eq_self_iff.2 fun c hc => hplain c (List.mem_append_left more hc)
    rw [hlexeme, List.length_append]
    omega

theorem Row.markCount_eq {shown returns : List Char}
    (h : Row text line above (lead ++ (shown ++ returns)) below)
    (hrest : shown ++ returns ++ below = lexeme ++ after) (hlexeme : lexeme ≠ [])
    (hshown : shown ≠ []) :
    markCount (lead ++ shown).length (lead.length + 1) lexeme =
      (shown.take lexeme.length).length := by
  have hlexeme := List.length_pos_of_ne_nil hlexeme
  have hshown := List.length_pos_of_ne_nil hshown
  rw [markCount, h.length_takeWhile hrest, List.length_append, List.length_append, List.length_take]
  omega

end Lines

structure Diagnostic.Marks (d : Diagnostic)
    (text above lead marked rest returns below : List Char) : Prop where
  row : Lines.Row text d.position.line above (lead ++ marked ++ rest ++ returns) below
  returns_eq : ∀ c ∈ returns, c = '\r'
  trimmed : ∀ c ∈ (lead ++ marked ++ rest).getLast?, c ≠ '\r'
  start_eq : d.span.start = size (above ++ lead)
  stop_eq :
    min d.span.stop (size (above ++ lead ++ marked ++ rest)) = size (above ++ lead ++ marked)
  marked_ne_nil : marked ≠ []

theorem Diagnostic.exists_marks {d : Diagnostic} {text before lexeme after : List Char}
    (htext : text = before ++ lexeme ++ after) (hline : d.position.line = 1 + before.count '\n')
    (hspan : d.span = ⟨size before, size before + size lexeme⟩)
    (hlexeme : ∃ c cs, lexeme = c :: cs ∧ isVisible c) :
    ∃ above lead marked rest returns below, d.Marks text above lead marked rest returns below ∧
      (Lines.ofText text).excerpt? d.position.file d.span d.message =
        some (Lines.excerptOf d.position.file d.message d.position.line (lead ++ marked ++ rest)
          lead.length marked.length) := by
  obtain ⟨above, onRow, below, hbefore, hafter, hrow⟩ := Lines.exists_row before (lexeme ++ after)
  generalize before.rtakeWhile (· != '\n') = lead at hbefore hrow
  rw [← List.append_assoc, ← htext, ← hline] at hrow
  obtain ⟨c, cs, hcons, hvisible⟩ := hlexeme
  obtain ⟨hreturn, hnewline⟩ : c ≠ '\r' ∧ c ≠ '\n' := by
    constructor <;> rintro rfl <;> contradiction
  -- The lexeme begins visibly: on the row, and not among the carriage returns that end it.
  have hmem : c ∈ onRow := by
    cases onRow with
    | nil =>
        rw [List.nil_append] at hafter
        exact absurd (hrow.cut_below c (by rw [← hafter, hcons]; rfl)) hnewline
    | cons a onRow =>
        rw [hcons] at hafter
        rw [(List.cons.inj hafter).1]
        exact List.mem_cons_self
  obtain ⟨shown, returns, rfl, hreturns, hne, hlast, htrim⟩ :=
    Lines.exists_trimmed hmem hreturn lead
  have hstart : d.span.start = size above + size lead := by rw [hspan, hbefore, size_append]
  have hsplit : lead ++ shown.take lexeme.length ++ shown.drop lexeme.length = lead ++ shown := by
    rw [List.append_assoc, List.take_append_drop]
  have hlexeme : lexeme ≠ [] := by simp [hcons]
  refine ⟨above, lead, shown.take lexeme.length, shown.drop lexeme.length, returns, below,
    ⟨?_, hreturns, ?_, ?_, ?_, ?_⟩, ?_⟩
  · rwa [hsplit, List.append_assoc]
  · rwa [hsplit]
  · rw [hstart, size_append]
  · have hsize : size (shown.take lexeme.length) = min (size lexeme) (size shown) :=
      size_take_of_prefix (List.prefix_append lexeme after)
        ⟨returns ++ below, by rw [hafter, List.append_assoc]⟩
    rw [List.append_assoc above, List.append_assoc above, hsplit]
    simp only [size_append, hsize, hspan, hbefore]
    omega
  · simp [hne, hlexeme]
  · have hslice : d.span.slice text = lexeme :=
      Span.Holds.slice_eq ⟨before, after, htext, hspan⟩
    rw [hrow.excerpt?_eq hstart, htrim, hsplit, hslice,
      hrow.markCount_eq hafter.symm hlexeme hne]

namespace TokenStream

end TokenStream

end Lexing
