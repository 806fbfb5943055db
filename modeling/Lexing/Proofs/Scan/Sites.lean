import Lexing.Proofs.Scan.Reading

namespace Lexing

def Span.Holds (s : Span) (source lexeme : List Char) : Prop :=
  ∃ before after, source = before ++ lexeme ++ after ∧
    s = ⟨Text.size before, Text.size before + Text.size lexeme⟩

theorem Span.Holds.slice_eq {s : Span} {source lexeme : List Char} (h : s.Holds source lexeme) :
    s.slice source = lexeme := by
  obtain ⟨before, after, rfl, rfl⟩ := h
  exact Text.slice_append before lexeme after

theorem Span.Holds.start_lt_stop {s : Span} {source lexeme : List Char}
    (h : s.Holds source lexeme) (hne : lexeme ≠ []) : s.start < s.stop := by
  obtain ⟨before, after, rfl, rfl⟩ := h
  have := Text.size_pos hne
  simp only
  omega

namespace Cursor

theorem holds_append {c : Cursor} {before lexeme after : List Char}
    (h : c.rest = before ++ lexeme ++ after) :
    Span.Holds ⟨c.offset + Text.size before, c.offset + Text.size before + Text.size lexeme⟩
      c.source lexeme :=
  ⟨c.passed.reverse ++ before, after, by simp [source, h], by simp [c.offset_eq]⟩

theorem holds_take (c : Cursor) (n : Nat) :
    Span.Holds ⟨c.offset, (c.skip n).offset⟩ c.source (c.rest.take n) := by
  have h : c.rest = [] ++ c.rest.take n ++ c.rest.drop n := by simp
  simpa using holds_append h

end Cursor

structure Site where
  place : Cursor
  piece : Piece

namespace Site

def stop (x : Site) : Cursor := x.place.skip x.piece.text.length

def span (x : Site) : Span := ⟨x.place.offset, x.stop.offset⟩

def diagnostics (x : Site) : List Diagnostic := x.piece.faults.map (.ofFault x.place)

def layout : Cursor → List Piece → List Site
  | _, [] => []
  | c, p :: ps => ⟨c, p⟩ :: layout (c.skip p.text.length) ps

def ofText (file : String) (text : List Char) (o : Options) (r : Recognizers) : List Site :=
  layout (.ofText file text) (Piece.all o r text)

theorem layout_append (c : Cursor) (ps qs : List Piece) :
    layout c (ps ++ qs) = layout c ps ++ layout (c.skip (ps.flatMap Piece.text).length) qs := by
  induction ps generalizing c with
  | nil => simp [layout]
  | cons p ps ih => simp [layout, ih, Cursor.skip_skip]

@[simp]
theorem map_piece_layout (c : Cursor) (ps : List Piece) : (layout c ps).map piece = ps := by
  induction ps generalizing c with
  | nil => rfl
  | cons p ps ih => simp [layout, ih]

theorem piece_mem_of_mem_layout {c : Cursor} {ps : List Piece} {x : Site} (h : x ∈ layout c ps) :
    x.piece ∈ ps := by
  rw [← map_piece_layout c ps]
  exact List.mem_map_of_mem h

theorem exists_of_mem_layout {c : Cursor} {ps : List Piece} {x : Site} (h : x ∈ layout c ps) :
    ∃ before after, ps = before ++ x.piece :: after ∧
      x.place = c.skip (before.flatMap Piece.text).length := by
  induction ps generalizing c with
  | nil => simp [layout] at h
  | cons p ps ih =>
      rw [layout, List.mem_cons] at h
      rcases h with rfl | h
      · exact ⟨[], ps, rfl, by simp⟩
      · obtain ⟨before, after, rfl, hplace⟩ := ih h
        refine ⟨p :: before, after, rfl, ?_⟩
        rw [hplace, Cursor.skip_skip, List.flatMap_cons, List.length_append]

theorem source_place {c : Cursor} {ps : List Piece} {x : Site} (h : x ∈ layout c ps) :
    x.place.source = c.source := by
  obtain ⟨before, after, -, hplace⟩ := exists_of_mem_layout h
  rw [hplace, Cursor.source_skip]

theorem stop_of_getLast? {c : Cursor} {ps : List Piece} {y : Site}
    (h : (layout c ps).getLast? = some y) :
    y.stop = c.skip (ps.flatMap Piece.text).length := by
  rcases List.eq_nil_or_concat ps with rfl | ⟨before, p, rfl⟩
  · simp [layout] at h
  · rw [List.concat_eq_append, layout_append] at h
    obtain rfl : ⟨_, p⟩ = y := by simpa [layout] using h
    simp [stop, Cursor.skip_skip]

theorem opens_of_mem_layout {o : Options} {r : Recognizers} {c : Cursor} {x : Site}
    (h : x ∈ layout c (Piece.all o r c.rest)) :
    x.piece.Opens o r x.place.rest x.stop.rest := by
  obtain ⟨before, after, hall, hplace⟩ := exists_of_mem_layout h
  have hrest := Piece.flatMap_text_all o r c.rest
  rw [hall, List.flatMap_append, List.flatMap_cons] at hrest
  have hopens := Piece.opens_of_all hall
  have hx : x.place.rest = x.piece.text ++ after.flatMap Piece.text := by
    rw [hplace, Cursor.skip_rest, ← hrest, List.drop_left]
  have hstop : x.stop.rest = after.flatMap Piece.text := by
    rw [stop, Cursor.skip_rest, hx, List.drop_left]
  rw [hx, hstop]
  exact hopens

theorem exists_next {o : Options} {r : Recognizers} {c : Cursor} {x : Site}
    (h : x ∈ layout c (Piece.all o r c.rest)) :
    ∃ d ds, x.place.rest = d :: ds ∧ x.piece = Piece.next o r d ds := by
  obtain ⟨before, after, hall, hplace⟩ := exists_of_mem_layout h
  obtain ⟨d, ds, hahead, hpiece⟩ := Piece.exists_next_of_all hall
  refine ⟨d, ds, ?_, hpiece⟩
  have hrest := Piece.flatMap_text_all o r c.rest
  rw [hall, List.flatMap_append] at hrest
  rw [hplace, Cursor.skip_rest, ← hrest, List.drop_left, hahead]

theorem offset_stop {o : Options} {r : Recognizers} {x : Site}
    (h : x.piece.Opens o r x.place.rest x.stop.rest) :
    x.stop.offset = x.place.offset + Text.size x.piece.text := by
  rw [stop, Cursor.skip_offset, ← h.text_eq, List.take_left]

theorem slice_span {o : Options} {r : Recognizers} {file : String} {text : List Char} {x : Site}
    (h : x ∈ ofText file text o r) : x.span.slice text = x.piece.text := by
  have hopens : x.piece.Opens o r x.place.rest x.stop.rest := opens_of_mem_layout h
  have hholds := x.place.holds_take x.piece.text.length
  rw [← hopens.text_eq, List.take_left] at hholds
  have hsource : x.place.source = text := source_place h
  rw [← hsource]
  exact hholds.slice_eq

end Site

namespace Scanner

theorem passAll_diagnostics (s : Scanner) (ps : List Piece) :
    (s.passAll ps).diagnostics.toList =
      s.diagnostics.toList ++ (Site.layout s.cursor ps).flatMap Site.diagnostics := by
  induction ps generalizing s with
  | nil => simp [Site.layout]
  | cons p ps ih => simp [ih, pass, Site.layout, Site.diagnostics]

end Scanner

end Lexing
