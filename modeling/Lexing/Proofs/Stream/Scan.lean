import Lexing.Proofs.Scan.Calls
import Lexing.Stream.Builder

namespace Lexing

namespace StreamBuilder

variable {b : StreamBuilder}

theorem push_of_kind (h : b.scanner.next.1.kind = .endOfInput) :
    b.push = (b.scanner.next.1,
      { b with
        scanner := b.scanner.next.2.takeDiagnostics.2
        diagnostics := b.diagnostics ++ b.scanner.next.2.takeDiagnostics.1
        ending := some b.scanner.next.1 }) := by
  simp [push, h]

theorem push_of_kind_ne (h : b.scanner.next.1.kind ≠ .endOfInput) :
    b.push = (b.scanner.next.1,
      { b with
        scanner := b.scanner.next.2.takeDiagnostics.2
        diagnostics := b.diagnostics ++ b.scanner.next.2.takeDiagnostics.1
        tokens := b.tokens.push b.scanner.next.1 }) := by
  simp [push, h]

theorem finish_of_ending {e : Token} (h : b.ending = some e) :
    b.finish = ⟨b.scanner.cursor.source, b.tokens, e, b.diagnostics.toList, 0⟩ := by
  rw [finish]
  split <;> simp_all

theorem finish_eq (h : b.ending = none) :
    b.finish = ⟨b.scanner.cursor.source, b.tokens ++ b.scanner.drain.1.toArray,
      b.scanner.drain.2.next.1,
      b.diagnostics.toList ++ b.scanner.drain.2.next.2.diagnostics.toList, 0⟩ := by
  fun_induction finish b with
  | case1 b e he => simp [he] at h
  | case2 b he ih =>
      by_cases hk : b.scanner.next.1.kind = .endOfInput
      · rw [push_of_kind hk, finish_of_ending rfl, Scanner.drain_of_kind hk]
        simp [Scanner.takeDiagnostics]
      · have hrestore := Scanner.restore_drain b.scanner.next.2.diagnostics
          b.scanner.next.2.takeDiagnostics.2
        rw [Scanner.takeDiagnostics_restore] at hrestore
        rw [push_of_kind_ne hk] at ih ⊢
        rw [ih h, Scanner.drain_of_kind_ne hk, hrestore, Scanner.restore_next]
        simp [Scanner.takeDiagnostics, Scanner.restore]

end StreamBuilder

theorem TokenStream.scan_eq (s : Scanner) :
    scan s = ⟨s.cursor.source, s.drain.1.toArray, s.drain.2.next.1,
      s.drain.2.next.2.diagnostics.toList, 0⟩ := by
  rw [scan, StreamBuilder.finish_eq rfl]
  simp [StreamBuilder.ofScanner]

theorem TokenStream.kind_ne_of_mem_body {s : Scanner} {t : Token} (h : t ∈ (scan s).body) :
    t.kind ≠ .endOfInput := by
  rw [scan_eq] at h
  exact Scanner.kind_ne_of_mem_drain (List.mem_toArray.1 h)

theorem TokenStream.kind_ending (s : Scanner) : (scan s).ending.kind = .endOfInput := by
  rw [scan_eq]
  exact s.drain_kind

theorem TokenStream.holds_of_mem_body {s : Scanner} {t : Token} (h : t ∈ (scan s).body.toList) :
    ∃ lexeme, lexeme ≠ [] ∧ t.span.Holds s.cursor.source lexeme := by
  rw [scan_eq] at h
  exact (Scanner.span_of_mem_drain h).1

theorem TokenStream.body_pairwise (s : Scanner) :
    (scan s).body.toList.Pairwise fun t u => t.span.stop ≤ u.span.start := by
  rw [scan_eq]
  exact s.drain_pairwise

def Span.Covers (s t : Span) : Prop := s.start ≤ t.start ∧ t.stop ≤ s.stop

structure TokenStream.Renders (s : TokenStream) (file : String) (text : List Char) (o : Options)
    (r : Recognizers) (sites : List Site) : Prop where
  source_eq : s.source = text
  laid : sites = Site.layout (.ofText file text) (sites.map Site.piece)
  texts : sites.flatMap (·.piece.text) = text
  opens : ∀ x ∈ sites, x.piece.Opens o r x.place.rest x.stop.rest
  spell : Site.Spell o.coalesce sites s.body.toList
  spans : ∀ t ∈ s.body, ∃ lexeme, lexeme ≠ [] ∧ t.span.Holds text lexeme
  ordered : s.body.toList.Pairwise fun t u => t.span.stop ≤ u.span.start
  ending : s.ending = ⟨.endOfInput, ⟨file, 1 + text.count '\n'⟩, .emptyAt (Text.size text)⟩
  reports : s.diagnostics = sites.flatMap Site.diagnostics
  rejected : ∀ x ∈ sites, x.piece.sort = .rejected → ∃ d ∈ x.diagnostics, x.span.Covers d.span
  blamed : ∀ x ∈ sites, ∀ d ∈ x.diagnostics,
    (x.piece.sort = .rejected ∨ x.piece.sort = .comment) ∧ x.span.Covers d.span
  clean : s.diagnostics = [] → ∀ x ∈ sites, x.piece.sort ≠ .rejected

namespace Site

variable {x : Site} {o : Options} {r : Recognizers}

theorem covers_of_mem_diagnostics (h : x.piece.Opens o r x.place.rest x.stop.rest) {d : Diagnostic}
    (hd : d ∈ x.diagnostics) : x.span.Covers d.span := by
  obtain ⟨f, hf, rfl⟩ := List.mem_map.1 hd
  obtain ⟨before, after, htext, -, hoffset, -⟩ := h.within f hf
  have hstop : x.span.stop = x.place.offset + Text.size x.piece.text := offset_stop h
  constructor
  · simp [Diagnostic.ofFault, span]
  · rw [hstop, htext]
    simp [Diagnostic.ofFault, hoffset]
    omega

theorem sort_of_mem_diagnostics (h : x.piece.Opens o r x.place.rest x.stop.rest) {d : Diagnostic}
    (hd : d ∈ x.diagnostics) : x.piece.sort = .rejected ∨ x.piece.sort = .comment := by
  obtain ⟨f, hf, rfl⟩ := List.mem_map.1 hd
  have hisOf := h.isOf
  cases hsort : x.piece.sort with
  | rejected => exact .inl rfl
  | comment => exact .inr rfl
  | blank =>
      rw [hsort] at hisOf
      simp [hisOf.1] at hf
  | token content =>
      rw [hsort] at hisOf
      simp [hisOf.1] at hf

theorem diagnostics_ne_nil (h : x.piece.Opens o r x.place.rest x.stop.rest)
    (hsort : x.piece.sort = .rejected) : x.diagnostics ≠ [] := by
  have hisOf := h.isOf
  rw [hsort] at hisOf
  simpa [diagnostics] using hisOf.faults_ne_nil

end Site

theorem Cursor.skip_length_rest (c : Cursor) :
    (c.skip c.rest.length).offset = Text.size c.source ∧
      (c.skip c.rest.length).line = 1 + c.source.count '\n' := by
  simp [source, c.offset_eq, c.line_eq, Nat.add_assoc]

theorem TokenStream.scan_renders (file text : String) (o : Options) (r : Recognizers) :
    (scan (.ofText file text o r)).Renders file text.toList o r
      (Site.ofText file text.toList o r) := by
  have hopens : ∀ x ∈ Site.ofText file text.toList o r,
      x.piece.Opens o r x.place.rest x.stop.rest := fun x hx => Site.opens_of_mem_layout hx
  have hreports : (scan (.ofText file text o r)).diagnostics =
      (Site.ofText file text.toList o r).flatMap Site.diagnostics := by
    rw [scan_eq, Scanner.drain_next, Scanner.passAll_diagnostics]
    rfl
  have hrejected : ∀ x ∈ Site.ofText file text.toList o r, x.piece.sort = .rejected →
      ∃ d ∈ x.diagnostics, x.span.Covers d.span := by
    intro x hx hsort
    obtain ⟨d, hd⟩ := List.exists_mem_of_ne_nil _ (Site.diagnostics_ne_nil (hopens x hx) hsort)
    exact ⟨d, hd, Site.covers_of_mem_diagnostics (hopens x hx) hd⟩
  rw [scan_eq] at hreports ⊢
  refine ⟨by simp [Scanner.ofText, Cursor.ofText, Cursor.source], ?_, ?_, hopens, ?_, ?_, ?_, ?_,
    hreports, hrejected, ?_, ?_⟩
  · rw [Site.ofText, Site.map_piece_layout]
  · have hjoin := Piece.flatMap_text_all o r text.toList
    rwa [← Site.map_piece_layout (.ofText file text.toList) (Piece.all o r text.toList),
      List.flatMap_map] at hjoin
  · exact Scanner.spell_drain (.ofText file text o r)
  · intro t ht
    simpa [Scanner.ofText, Cursor.ofText, Cursor.source] using
      (Scanner.span_of_mem_drain (List.mem_toArray.1 ht)).1
  · exact Scanner.drain_pairwise _
  · obtain ⟨hoffset, hline⟩ := (Cursor.ofText file text.toList).skip_length_rest
    rw [Scanner.drain_ending, Scanner.passAll_cursor, Scanner.flatMap_text_ahead]
    simp only [Scanner.ofText, Cursor.position, hoffset, hline]
    rfl
  · intro x hx d hd
    exact ⟨Site.sort_of_mem_diagnostics (hopens x hx) hd,
      Site.covers_of_mem_diagnostics (hopens x hx) hd⟩
  · intro hnil x hx hsort
    obtain ⟨d, hd, -⟩ := hrejected x hx hsort
    rw [hreports] at hnil
    exact absurd hd (by simp [List.flatMap_eq_nil_iff.1 hnil x hx])

end Lexing
