import Lexing.Proofs.Scan.Alignment
import Lexing.Proofs.Stream.Tokens

namespace Lexing

def Token.reading (t : Token) : Content × Position := (t.content, t.position)

namespace Diagnostic

def readings (ds : List Diagnostic) : List (Cause × Position) :=
  (ds.filter fun d => !d.cause.isCommentTooLong).map fun d => (d.cause, d.position)

theorem readings_append (ds es : List Diagnostic) :
    readings (ds ++ es) = readings ds ++ readings es := by
  simp [readings]

end Diagnostic

theorem Cursor.position_skip {c : Cursor} {text : List Char} (h : text <+: c.rest) :
    (c.skip text.length).position = ⟨c.file, c.line + text.count '\n'⟩ := by
  rw [position, skip_file, skip_line, ← List.prefix_iff_eq_take.1 h]

theorem Cursor.prefix_skip {c : Cursor} {text more : List Char} (h : text ++ more <+: c.rest) :
    more <+: (c.skip text.length).rest := by
  obtain ⟨after, hafter⟩ := h
  rw [skip_rest, ← hafter, List.append_assoc, List.drop_left]
  exact List.prefix_append ..

namespace Site

variable {c d : Cursor} {ps qs : List Piece} {xs ys : List Site}

inductive AllReturned : List Site → List Site → Prop
  | nil : AllReturned [] []
  | blank (y : Site) {xs ys : List Site} : y.piece.sort = .blank → y.piece.notes = [] →
      AllReturned xs ys → AllReturned xs (y :: ys)
  | cons (x y : Site) {xs ys : List Site} : y.place.position = x.place.position →
      y.piece.sort = x.piece.sort → y.piece.notes = x.piece.notes → AllReturned xs ys →
      AllReturned (x :: xs) (y :: ys)

theorem allReturned_layout (h : Piece.AllReturned ps qs)
    (hps : ps.flatMap Piece.text <+: c.rest) (hqs : qs.flatMap Piece.text <+: d.rest)
    (hplace : d.position = c.position) : AllReturned (layout c ps) (layout d qs) := by
  induction h generalizing c d with
  | nil => exact .nil
  | blank q hsort hnotes hline _ ih =>
      have hq := (List.prefix_append ..).trans hqs
      refine .blank _ hsort hnotes (ih hps (Cursor.prefix_skip hqs) ?_)
      rw [Cursor.position_skip hq, List.count_eq_zero_of_not_mem hline, ← hplace]
      rfl
  | cons p q hsort hnotes hcount _ ih =>
      have hp := (List.prefix_append ..).trans hps
      have hq := (List.prefix_append ..).trans hqs
      refine .cons _ _ hplace hsort hnotes (ih (Cursor.prefix_skip hps) (Cursor.prefix_skip hqs) ?_)
      rw [Cursor.position, Cursor.position, Position.mk.injEq] at hplace
      rw [Cursor.position_skip hp, Cursor.position_skip hq, hcount, hplace.1, hplace.2]

theorem AllReturned.reachesLineEnd_eq (h : AllReturned xs ys) :
    reachesLineEnd ys = reachesLineEnd xs := by
  induction h with
  | nil => rfl
  | blank y hsort _ _ ih =>
      rw [reachesLineEnd, hsort, ← ih]
      rfl
  | cons x y _ hsort _ _ ih => rw [reachesLineEnd, reachesLineEnd, hsort, ih]

theorem map_reading_startAt (c : Cursor) (ts : List Token) :
    (ts.modifyHead (.startAt c)).map Token.reading =
      (ts.map Token.reading).modifyHead fun r => (r.1, c.position) := by
  cases ts <;> rfl

theorem AllReturned.readings_eq (coalesce : Bool) (h : AllReturned xs ys) :
    (tokens coalesce ys).map Token.reading = (tokens coalesce xs).map Token.reading := by
  induction h with
  | nil => rfl
  | blank y hsort _ _ ih => rwa [tokens_cons_skipped (by simp [hsort, PieceSort.isSkipped])]
  | cons x y hplace hsort _ hmore ih =>
      simp only [tokens, hsort, hmore.reachesLineEnd_eq]
      split
      · split
        · rw [map_reading_startAt, map_reading_startAt, ih, hplace]
        · rw [List.map_cons, List.map_cons, ih]
          simp only [Token.reading, token, hplace]
      · exact ih

theorem readings_diagnostics (x : Site) : Diagnostic.readings x.diagnostics =
    x.piece.notes.map fun n => (n.1, ⟨x.place.position.file, x.place.position.line + n.2⟩) := by
  rw [Diagnostic.readings, diagnostics, Piece.notes, List.filter_map, List.filter_map, List.map_map,
    List.map_map]
  rfl

theorem AllReturned.diagnostics_eq (h : AllReturned xs ys) :
    Diagnostic.readings (ys.flatMap diagnostics) = Diagnostic.readings (xs.flatMap diagnostics) := by
  induction h with
  | nil => rfl
  | blank y _ hnotes _ ih =>
      rw [List.flatMap_cons, Diagnostic.readings_append, readings_diagnostics, hnotes, ih]
      rfl
  | cons x y hplace _ hnotes _ ih =>
      rw [List.flatMap_cons, List.flatMap_cons, Diagnostic.readings_append,
        Diagnostic.readings_append, readings_diagnostics, readings_diagnostics, hnotes, hplace, ih]

theorem allReturned_ofText (file : String) {text : List Char} {o : Options} (h : '\r' ∉ text)
    (hreturn : o.comments.Avoids '\r') (hline : o.comments.Avoids '\n') :
    AllReturned (ofText file text o .empty) (ofText file (Text.withReturns text) o .empty) := by
  have hpieces := Piece.allReturned_of_aligned h hreturn hline (.inl rfl)
  refine allReturned_layout hpieces ?_ ?_ rfl
  · rw [Piece.flatMap_text_all]
    exact List.prefix_rfl
  · rw [Piece.flatMap_text_all]
    exact List.prefix_rfl

end Site

namespace TokenStream

def readings (s : TokenStream) : List (Content × Position) := s.tokens.toList.map Token.reading

structure ReadsAs (s t : TokenStream) : Prop where
  readings_eq : s.readings = t.readings
  diagnostics_eq : Diagnostic.readings s.diagnostics = Diagnostic.readings t.diagnostics

theorem scan_withReturns (file text : String) (o : Options) (h : '\r' ∉ text.toList)
    (hreturn : o.comments.Avoids '\r') (hline : o.comments.Avoids '\n') :
    (scan (.ofText file (String.ofList (Text.withReturns text.toList)) o .empty)).ReadsAs
      (scan (.ofText file text o .empty)) := by
  have hplain := scan_ofText file text o .empty
  have hreturned := scan_ofText file (String.ofList (Text.withReturns text.toList)) o .empty
  rw [String.toList_ofList] at hreturned
  have hsites := Site.allReturned_ofText file h hreturn hline
  constructor
  · rw [readings, readings, tokens, tokens, Array.toList_push, Array.toList_push, List.map_append,
      List.map_append, hplain, hreturned]
    simp only [hsites.readings_eq, Text.count_withReturns]
    rfl
  · rw [hplain, hreturned]
    exact hsites.diagnostics_eq

theorem scan_withReturns_slashes :
    '\r' ∉ "a // b\n\"c\n".toList ∧
      (Comments.mk ["//"] none).Avoids '\r' ∧ (Comments.mk ["//"] none).Avoids '\n' ∧
      (scan (.ofText "d" (String.ofList (Text.withReturns "a // b\n\"c\n".toList))
        ⟨true, ⟨["//"], none⟩, 9, 9, 9⟩ .empty)).ReadsAs
          (scan (.ofText "d" "a // b\n\"c\n" ⟨true, ⟨["//"], none⟩, 9, 9, 9⟩ .empty)) :=
  ⟨by decide, by decide, by decide, scan_withReturns _ _ _ (by decide) (by decide) (by decide)⟩

end TokenStream

end Lexing
