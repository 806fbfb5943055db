import Lexing.Proofs.Scan.Calls

namespace Lexing

def Span.shift (s : Span) (bytes : Nat) : Span := ⟨s.start + bytes, s.stop + bytes⟩

def Position.shift (p : Position) (lines : Nat) : Position := ⟨p.file, p.line + lines⟩

def Token.shift (t : Token) (bytes lines : Nat) : Token :=
  ⟨t.content, t.position.shift lines, t.span.shift bytes⟩

def Diagnostic.shift (d : Diagnostic) (bytes lines : Nat) : Diagnostic :=
  ⟨d.cause, d.position.shift lines, d.span.shift bytes, d.lexeme⟩

theorem Span.slice_shift (s : Span) (before cs : List Char) :
    (s.shift (Text.size before)).slice (before ++ cs) = s.slice cs := by
  simp only [slice, shift]
  rw [Nat.add_comm s.start, Nat.add_comm s.stop, Text.slice_add]

structure Cursor.Beyond (c d : Cursor) (bytes lines : Nat) : Prop where
  file_eq : c.file = d.file
  rest_eq : c.rest = d.rest
  offset_eq : c.offset = d.offset + bytes
  line_eq : c.line = d.line + lines

namespace Cursor.Beyond

variable {c d : Cursor} {bytes lines : Nat}

theorem skip (h : c.Beyond d bytes lines) (n : Nat) : (c.skip n).Beyond (d.skip n) bytes lines where
  file_eq := h.file_eq
  rest_eq := by simp [h.rest_eq]
  offset_eq := by
    simp only [skip_offset, h.rest_eq, h.offset_eq]
    omega
  line_eq := by
    simp only [skip_line, h.rest_eq, h.line_eq]
    omega

theorem position_eq (h : c.Beyond d bytes lines) : c.position = d.position.shift lines := by
  simp [position, Position.shift, h.file_eq, h.line_eq]

theorem token_eq (h : c.Beyond d bytes lines) (x : Reading) :
    x.token c = (x.token d).shift bytes lines := by
  have hstart := h.skip (x.skipped.flatMap Piece.text).length
  have hstop := hstart.skip (x.lexeme.flatMap Piece.text).length
  rw [Reading.token, Reading.token, hstart.position_eq, hstart.offset_eq, hstop.offset_eq]
  rfl

theorem ofFault_eq (h : c.Beyond d bytes lines) (f : Fault) :
    Diagnostic.ofFault c f = (Diagnostic.ofFault d f).shift bytes lines := by
  simp only [Diagnostic.ofFault, Diagnostic.shift, Position.shift, Span.shift, h.file_eq, h.line_eq,
    h.offset_eq, Diagnostic.mk.injEq, Position.mk.injEq, Span.mk.injEq, true_and, and_true]
  omega

theorem diagnostics_layout (h : c.Beyond d bytes lines) (ps : List Piece) :
    (Site.layout c ps).flatMap Site.diagnostics =
      ((Site.layout d ps).flatMap Site.diagnostics).map (·.shift bytes lines) := by
  induction ps generalizing c d with
  | nil => rfl
  | cons p ps ih =>
      simp only [Site.layout, List.flatMap_cons, List.map_append, ih (h.skip p.text.length)]
      congr 1
      simp only [Site.diagnostics, List.map_map]
      exact List.map_congr_left fun f _ => h.ofFault_eq f

end Cursor.Beyond

structure Scanner.Beyond (s u : Scanner) (bytes lines : Nat) (found : List Diagnostic) : Prop where
  cursor : s.cursor.Beyond u.cursor bytes lines
  options_eq : s.options = u.options
  recognizers_eq : s.recognizers = u.recognizers
  diagnostics_eq :
    s.diagnostics.toList = found ++ u.diagnostics.toList.map (·.shift bytes lines)

namespace Scanner

variable {s u : Scanner} {bytes lines : Nat} {found : List Diagnostic}

theorem Beyond.passAll (h : s.Beyond u bytes lines found) (ps : List Piece) :
    (s.passAll ps).Beyond (u.passAll ps) bytes lines found where
  cursor := by
    rw [passAll_cursor, passAll_cursor]
    exact h.cursor.skip _
  options_eq := by simp [h.options_eq]
  recognizers_eq := by simp [h.recognizers_eq]
  diagnostics_eq := by
    rw [passAll_diagnostics, passAll_diagnostics, h.diagnostics_eq,
      h.cursor.diagnostics_layout ps, List.map_append, List.append_assoc]

theorem Beyond.reading_eq (h : s.Beyond u bytes lines found) : s.reading = u.reading := by
  rw [reading, reading, ahead, ahead, h.options_eq, h.recognizers_eq, h.cursor.rest_eq]

theorem Beyond.next (h : s.Beyond u bytes lines found) :
    s.next.1 = u.next.1.shift bytes lines ∧ s.next.2.Beyond u.next.2 bytes lines found := by
  rw [next_eq, next_eq, read, read, h.reading_eq]
  exact ⟨h.cursor.token_eq _, h.passAll _⟩

theorem Beyond.after (h : s.Beyond u bytes lines found) (n : Nat) :
    (s.after n).Beyond (u.after n) bytes lines found := by
  induction n generalizing s u with
  | zero => exact h
  | succ n ih => exact ih h.next.2

theorem beyond_ofText (s : Scanner) :
    s.Beyond (ofText s.cursor.file (String.ofList s.cursor.rest) s.options s.recognizers)
      s.cursor.offset (s.cursor.line - 1) s.diagnostics.toList where
  cursor :=
    { file_eq := rfl
      rest_eq := by simp [ofText, Cursor.ofText]
      offset_eq := by simp [ofText, Cursor.ofText]
      line_eq := by
        have := s.cursor.line_eq
        simp only [ofText, Cursor.ofText]
        omega }
  options_eq := rfl
  recognizers_eq := rfl
  diagnostics_eq := by simp [ofText]

end Scanner

theorem Cursor.slice_source (c : Cursor) :
    Text.slice c.source c.offset (Text.size c.source) = c.rest := by
  have h := Text.slice_append c.passed.reverse c.rest []
  simpa [source, c.offset_eq] using h

theorem Cursor.slice_shift (c : Cursor) (s : Span) :
    (s.shift c.offset).slice c.source = s.slice c.rest := by
  have h := s.slice_shift c.passed.reverse c.rest
  rwa [Text.size_reverse, ← c.offset_eq] at h

theorem Scanner.after_eq_shift (file text : String) (o : Options) (r : Recognizers) (k n : Nat) :
    let s := (ofText file text o r).after k
    let source := Text.slice text.toList s.cursor.offset (Text.size text.toList)
    let fresh := ofText file (String.ofList source) o r
    let bytes := s.cursor.offset
    let lines := s.cursor.line - 1
    (s.after n).next.1 = (fresh.after n).next.1.shift bytes lines ∧
      (s.after n).diagnostics.toList =
        s.diagnostics.toList ++ (fresh.after n).diagnostics.toList.map (·.shift bytes lines) ∧
      (s.after n).next.1.span.slice text.toList = (fresh.after n).next.1.span.slice source := by
  intro s source fresh bytes lines
  have htext : s.cursor.source = text.toList := by
    rw [after_source]
    simp [ofText, Cursor.ofText, Cursor.source]
  have hsource : source = s.cursor.rest := by
    rw [← s.cursor.slice_source, htext]
  have hfresh : fresh = ofText s.cursor.file (String.ofList s.cursor.rest) s.options s.recognizers := by
    simp only [fresh, hsource, s, after_file, after_options, after_recognizers]
    rfl
  have hbeyond := s.beyond_ofText.after n
  rw [← hfresh] at hbeyond
  obtain ⟨htoken, -⟩ := hbeyond.next
  refine ⟨htoken, hbeyond.diagnostics_eq, ?_⟩
  rw [htoken, hsource, ← htext]
  exact s.cursor.slice_shift _

end Lexing
