import Lexing.Proofs.Scan.Faults
import Lexing.Proofs.Source.Lines
import Lexing.Proofs.Stream.Recognition

namespace Lexing

structure Position.IsAt (p : Position) (text : List Char) (offset : Nat) : Prop where
  line_eq : p.line = (Lines.ofText text).lineAt offset
  counted : ∃ before after, text = before ++ after ∧ Text.size before = offset ∧
    p.line = 1 + before.count '\n'

theorem Cursor.isAt (c : Cursor) : c.position.IsAt c.source c.offset where
  line_eq := by
    have hlines := Lines.lineAt_eq c.passed.reverse c.rest
    rw [Text.size_reverse, List.count_reverse, ← c.offset_eq, ← c.line_eq] at hlines
    exact hlines.symm
  counted := ⟨c.passed.reverse, c.rest, rfl, by simp [c.offset_eq], by simp [position, c.line_eq]⟩

theorem Position.IsAt.line_le {p q : Position} {text : List Char} {m n : Nat}
    (hp : p.IsAt text m) (hq : q.IsAt text n) (h : m ≤ n) : p.line ≤ q.line := by
  obtain ⟨before, after, hbefore, rfl, hpline⟩ := hp.counted
  obtain ⟨more, rest, hmore, rfl, hqline⟩ := hq.counted
  obtain ⟨between, rfl⟩ := Text.prefix_of_size_le ⟨after, hbefore.symm⟩ ⟨rest, hmore.symm⟩ h
  rw [hpline, hqline, List.count_append]
  omega

theorem Diagnostic.shorten_eq (lexeme : List Char) :
    shorten lexeme = if lexeme.length ≤ 80 then String.ofList lexeme
      else String.ofList (lexeme.take 80) ++ "..." := by
  unfold shorten shownLength
  split
  · next hnone => rw [if_pos (List.drop_eq_nil_iff.1 hnone)]
  · next c more hmore =>
      have hlength := congrArg List.length hmore
      rw [List.length_drop, List.length_cons] at hlength
      rw [if_neg (by omega)]

namespace Site

variable {o : Options} {r : Recognizers} {file : String} {text : List Char} {x : Site}

theorem source_place_ofText (h : x ∈ ofText file text o r) : x.place.source = text := source_place h

theorem exists_place_of_mem_tokens {coalesce : Bool} {xs : List Site} {t : Token}
    (ht : t ∈ tokens coalesce xs) :
    ∃ x ∈ xs, t.position = x.place.position ∧ t.span.start = x.place.offset := by
  induction xs generalizing t with
  | nil => simp [tokens] at ht
  | cons x xs ih =>
      have later {t : Token} (ht : t ∈ tokens coalesce xs) :
          ∃ y ∈ x :: xs, t.position = y.place.position ∧ t.span.start = y.place.offset := by
        obtain ⟨y, hy, hplace⟩ := ih ht
        exact ⟨y, List.mem_cons_of_mem x hy, hplace⟩
      simp only [tokens] at ht
      split at ht
      · split at ht
        · next hr =>
            obtain ⟨u, us, hus, -⟩ := exists_tokens_eq_cons coalesce hr.2.2
            rw [hus] at ht
            rcases List.mem_cons.1 ht with rfl | ht
            · exact ⟨x, List.mem_cons_self, rfl, rfl⟩
            · exact later (hus ▸ List.mem_cons_of_mem u ht)
        · rcases List.mem_cons.1 ht with rfl | ht
          · exact ⟨x, List.mem_cons_self, rfl, rfl⟩
          · exact later ht
      · exact later ht

theorem isAt_of_mem_tokens {coalesce : Bool} {t : Token}
    (ht : t ∈ tokens coalesce (ofText file text o r)) : t.position.IsAt text t.span.start := by
  obtain ⟨x, hx, hposition, hstart⟩ := exists_place_of_mem_tokens ht
  rw [hposition, hstart, ← source_place_ofText hx]
  exact x.place.isAt

theorem exists_fault_of_mem_diagnostics (h : x ∈ ofText file text o r) {d : Diagnostic}
    (hd : d ∈ x.diagnostics) :
    ∃ f ∈ x.piece.faults, ∃ before after, text = before ++ f.lexeme ++ after ∧
      f.lexeme ≠ [] ∧ d.lexeme = Diagnostic.shorten f.lexeme ∧
      d.position.line = 1 + before.count '\n' ∧
      d.span = ⟨Text.size before, Text.size before + Text.size f.lexeme⟩ := by
  have hopens : x.piece.Opens o r x.place.rest x.stop.rest := opens_of_mem_layout h
  obtain ⟨f, hf, rfl⟩ := List.mem_map.1 hd
  obtain ⟨before, after, htext, hne, hoffset, hlines⟩ := hopens.within f hf
  have hsource := source_place_ofText h
  rw [Cursor.source, ← hopens.text_eq, htext] at hsource
  refine ⟨f, hf, x.place.passed.reverse ++ before, after ++ x.stop.rest, ?_, hne, rfl, ?_, ?_⟩
  · rw [← hsource]
    simp only [List.append_assoc]
  · rw [List.count_append, List.count_reverse, ← Nat.add_assoc, ← x.place.line_eq, ← hlines]
    rfl
  · rw [Text.size_append, Text.size_reverse, ← x.place.offset_eq, ← hoffset]
    rfl

theorem diagnostics_pairwise (h : x ∈ ofText file text o r) :
    x.diagnostics.Pairwise fun d e => d.span.stop ≤ e.span.stop := by
  obtain ⟨c, cs, -, hpiece⟩ := exists_next h
  have hordered := Piece.ordered_next o r c cs
  rw [← hpiece] at hordered
  rw [diagnostics, List.pairwise_map]
  refine hordered.imp fun {f g} hfg => ?_
  simp only [Fault.stop] at hfg
  simp only [Diagnostic.ofFault]
  omega

theorem flatMap_diagnostics_pairwise (file : String) (text : List Char) (o : Options)
    (r : Recognizers) :
    ((ofText file text o r).flatMap diagnostics).Pairwise fun d e => d.span.stop ≤ e.span.stop := by
  have hbounds {x : Site} (hx : x ∈ ofText file text o r) {d : Diagnostic}
      (hd : d ∈ x.diagnostics) : x.place.offset ≤ d.span.start ∧ d.span.start < d.span.stop ∧
        d.span.stop ≤ x.stop.offset :=
    bounds_of_mem_diagnostics (r := r) (o := o) (opens_of_mem_layout hx) hd
  refine List.pairwise_flatMap.2 ⟨fun x hx => diagnostics_pairwise hx, ?_⟩
  refine (layout_pairwise _ _).imp_of_mem fun {x y} hx hy hxy d hd e he => ?_
  have hbefore := hbounds hx hd
  have hafter := hbounds hy he
  omega

end Site

namespace TokenStream

structure Shows (text : List Char) (d : Diagnostic) : Prop where
  isAt : d.position.IsAt text d.span.start
  start_lt_stop : d.span.start < d.span.stop
  holds : d.span.Holds text (d.span.slice text)
  lexeme_eq : d.lexeme =
    if (d.span.slice text).length ≤ 80 then String.ofList (d.span.slice text)
    else String.ofList ((d.span.slice text).take 80) ++ "..."

structure Agrees (s : TokenStream) (text : List Char) : Prop where
  tokens : ∀ t ∈ s.tokens.toList, t.position.IsAt text t.span.start
  lines : s.tokens.toList.Pairwise fun t u => t.line ≤ u.line
  diagnostics : ∀ d ∈ s.diagnostics, Shows text d
  ordered : s.diagnostics.Pairwise fun d e => d.span.stop ≤ e.span.stop

theorem toList_tokens (s : TokenStream) : s.tokens.toList = s.body.toList ++ [s.ending] := by
  rw [tokens, Array.toList_push]

variable (file text : String) (o : Options) (r : Recognizers)

theorem isAt_of_mem_scan {t : Token} (ht : t ∈ (scan (.ofText file text o r)).tokens.toList) :
    t.position.IsAt text.toList t.span.start := by
  rw [toList_tokens, scan_ofText] at ht
  rcases List.mem_append.1 ht with ht | ht
  · exact Site.isAt_of_mem_tokens ht
  · obtain rfl := List.mem_singleton.1 ht
    have hend := ((Cursor.ofText file text.toList).skip text.toList.length).isAt
    obtain ⟨hoffset, hline⟩ := (Cursor.ofText file text.toList).skip_length_rest
    rw [Cursor.source_skip, Cursor.position] at hend
    simpa [Cursor.ofText, Cursor.source, Span.emptyAt] using hend

theorem tokens_starts_pairwise :
    (scan (.ofText file text o r)).tokens.toList.Pairwise fun t u =>
      t.span.start ≤ u.span.start := by
  rw [toList_tokens, List.pairwise_append]
  refine ⟨(body_pairwise _).imp_of_mem fun {t u} ht _ htu => ?_, List.pairwise_singleton .., ?_⟩
  · obtain ⟨lexeme, hne, hholds⟩ := holds_of_mem_body ht
    exact (hholds.start_lt_stop hne).le.trans htu
  · intro t ht u hu
    obtain rfl := List.mem_singleton.1 hu
    obtain ⟨lexeme, -, before, after, htext, hspan⟩ := holds_of_mem_body ht
    have hsource : (Scanner.ofText file text o r).cursor.source = text.toList := rfl
    rw [scan_ofText, hspan, ← hsource, htext]
    simp [Span.emptyAt]

theorem shows_of_mem_scan {d : Diagnostic} (hd : d ∈ (scan (.ofText file text o r)).diagnostics) :
    Shows text.toList d := by
  rw [scan_ofText] at hd
  obtain ⟨x, hx, hd⟩ := List.mem_flatMap.1 hd
  obtain ⟨f, -, before, after, htext, hne, hlexeme, hline, hspan⟩ :=
    Site.exists_fault_of_mem_diagnostics hx hd
  have hholds : d.span.Holds text.toList f.lexeme := ⟨before, after, htext, hspan⟩
  refine ⟨⟨?_, before, f.lexeme ++ after, ?_, ?_, hline⟩, hholds.start_lt_stop hne, ?_, ?_⟩
  · rw [hline, hspan, htext, List.append_assoc, Lines.lineAt_eq]
  · rw [htext, List.append_assoc]
  · rw [hspan]
  · rwa [hholds.slice_eq]
  · rw [hholds.slice_eq, hlexeme, Diagnostic.shorten_eq]

/-- Line openings that begin with a line end are those of the guarded `Comments.opensLine`. -/
theorem scan_agrees : (scan (.ofText file text o r)).Agrees text.toList where
  tokens _ ht := isAt_of_mem_scan file text o r ht
  lines := (tokens_starts_pairwise file text o r).imp_of_mem fun ht hu htu =>
    (isAt_of_mem_scan file text o r ht).line_le (isAt_of_mem_scan file text o r hu) htu
  diagnostics _ hd := shows_of_mem_scan file text o r hd
  ordered := by
    rw [scan_ofText]
    exact Site.flatMap_diagnostics_pairwise ..

end TokenStream

end Lexing
