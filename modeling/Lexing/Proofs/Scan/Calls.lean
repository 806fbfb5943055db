import Lexing.Proofs.Scan.Spelling

namespace Lexing

theorem Content.kind_eq_endOfInput {content : Content} :
    content.kind = .endOfInput ↔ content = .endOfInput := by
  cases content <;> simp [kind]

namespace Scanner

variable {s : Scanner}

theorem next_eq_passAll (s : Scanner) : ∃ ps qs, s.ahead = ps ++ qs ∧ s.next.2 = s.passAll ps := by
  obtain ⟨qs, hqs⟩ := Reading.prefix_pieces_ofPieces s.options.coalesce s.ahead
  exact ⟨s.reading.pieces, qs, hqs.symm, by rw [next_eq]; rfl⟩

@[simp]
theorem next_options (s : Scanner) : s.next.2.options = s.options := by
  rw [next_eq]
  exact passAll_options ..

@[simp]
theorem next_recognizers (s : Scanner) : s.next.2.recognizers = s.recognizers := by
  rw [next_eq]
  exact passAll_recognizers ..

@[simp]
theorem next_source (s : Scanner) : s.next.2.cursor.source = s.cursor.source := by
  rw [next_eq, read, passAll_cursor, Cursor.source_skip]

@[simp]
theorem next_file (s : Scanner) : s.next.2.cursor.file = s.cursor.file := by
  rw [next_eq, read, passAll_cursor, Cursor.skip_file]

theorem kind_of_skipped (h : ∀ p ∈ s.ahead, p.sort.isSkipped) : s.next.1.kind = .endOfInput := by
  rw [next_of_skipped h]
  rfl

theorem kind_of_token {skipped more : List Piece} {p : Piece} {content : Content}
    (h : s.ahead = skipped ++ p :: more) (hskipped : ∀ q ∈ skipped, q.sort.isSkipped)
    (hp : p.sort = .token content) : s.next.1.kind ≠ .endOfInput := by
  obtain ⟨lexeme, trailing, rest, hahead, -, -, hspells⟩ := next_of_token h hskipped hp
  generalize hsites : Site.layout _ lexeme = sites at hspells
  generalize s.next.1 = t at hspells
  cases hspells with
  | @lexeme x content _ hx _ =>
      have hmem : x.piece ∈ lexeme := Site.piece_mem_of_mem_layout (by rw [hsites]; simp)
      exact mt Content.kind_eq_endOfInput.1
        (content_ne_endOfInput (by rw [hahead]; simp [hmem]) hx)
  | lineEnds => simp [Token.kind, Content.kind]

theorem skipped_of_kind (h : s.next.1.kind = .endOfInput) : ∀ p ∈ s.ahead, p.sort.isSkipped := by
  rcases s.ahead_cases with hskipped | ⟨skipped, p, more, content, hahead, hskipped, hp⟩
  · exact hskipped
  · exact absurd h (kind_of_token hahead hskipped hp)

theorem rest_of_kind (h : s.next.1.kind = .endOfInput) : s.next.2.cursor.rest = [] := by
  rw [next_of_skipped (skipped_of_kind h), passAll_cursor, flatMap_text_ahead]
  simp

theorem next_of_rest_nil (h : s.cursor.rest = []) :
    s.next = (⟨.endOfInput, s.cursor.position, .emptyAt s.cursor.offset⟩, s) := by
  have hahead := ahead_eq_nil.2 h
  rw [next_of_skipped (by simp [hahead]), hahead]
  rfl

def after (s : Scanner) : Nat → Scanner
  | 0 => s
  | n + 1 => s.next.2.after n

theorem after_add (s : Scanner) (m n : Nat) : s.after (m + n) = (s.after m).after n := by
  induction m generalizing s with
  | zero => rw [Nat.zero_add]; rfl
  | succ m ih => rw [Nat.succ_add, after, after, ih]

theorem after_next (s : Scanner) (k : Nat) : (s.after k).next.2 = s.after (k + 1) := by
  rw [after_add]
  rfl

theorem after_eq {A : Type} {f : Scanner → A} (h : ∀ s, f s.next.2 = f s) (s : Scanner) (k : Nat) :
    f (s.after k) = f s := by
  induction k generalizing s with
  | zero => rfl
  | succ k ih => rw [after, ih, h]

theorem after_options (s : Scanner) (k : Nat) : (s.after k).options = s.options :=
  after_eq next_options s k

theorem after_recognizers (s : Scanner) (k : Nat) : (s.after k).recognizers = s.recognizers :=
  after_eq next_recognizers s k

theorem after_source (s : Scanner) (k : Nat) : (s.after k).cursor.source = s.cursor.source :=
  after_eq (f := (·.cursor.source)) next_source s k

theorem after_file (s : Scanner) (k : Nat) : (s.after k).cursor.file = s.cursor.file :=
  after_eq (f := (·.cursor.file)) next_file s k

theorem after_of_kind (h : s.next.1.kind = .endOfInput) (n : Nat) :
    (s.next.2.after n).next = s.next := by
  have hnext := next_of_rest_nil (rest_of_kind h)
  induction n with
  | zero =>
      rw [after, hnext, next_of_skipped (skipped_of_kind h)]
  | succ n ih => rw [after, congrArg Prod.snd hnext, ih]

def drain (s : Scanner) : List Token × Scanner :=
  if _h : s.next.1.kind = .endOfInput then
    ([], s)
  else
    (s.next.1 :: s.next.2.drain.1, s.next.2.drain.2)
termination_by s.cursor.rest.length
decreasing_by all_goals exact s.next_rest_length_lt _h

theorem drain_of_kind (h : s.next.1.kind = .endOfInput) : s.drain = ([], s) := by
  rw [drain, dif_pos h]

theorem drain_of_kind_ne (h : s.next.1.kind ≠ .endOfInput) :
    s.drain = (s.next.1 :: s.next.2.drain.1, s.next.2.drain.2) := by
  rw [drain, dif_neg h]

theorem drain_kind (s : Scanner) : s.drain.2.next.1.kind = .endOfInput := by
  fun_induction drain s with
  | case1 s h => exact h
  | case2 s h ih => exact ih

theorem kind_ne_of_mem_drain {t : Token} (h : t ∈ s.drain.1) : t.kind ≠ .endOfInput := by
  fun_induction drain s with
  | case1 s hk => simp at h
  | case2 s hk ih =>
      rcases List.mem_cons.1 h with rfl | h
      · exact hk
      · exact ih h

theorem drain_eq_after (s : Scanner) : s.drain.2 = s.after s.drain.1.length := by
  fun_induction drain s with
  | case1 s h => rfl
  | case2 s h ih => exact ih

theorem drain_length_le (s : Scanner) : s.drain.1.length ≤ s.cursor.rest.length := by
  fun_induction drain s with
  | case1 s h => exact Nat.zero_le _
  | case2 s h ih =>
      have := s.next_rest_length_lt h
      rw [List.length_cons]
      omega

theorem drain_next (s : Scanner) :
    s.drain.2.next.2 = s.passAll s.ahead := by
  fun_induction drain s with
  | case1 s h => rw [next_of_skipped (skipped_of_kind h)]
  | case2 s h ih =>
      obtain ⟨ps, qs, hahead, hnext⟩ := s.next_eq_passAll
      rw [ih, hnext, ahead_passAll hahead, ← passAll_append, hahead]

theorem drain_ending (s : Scanner) :
    s.drain.2.next.1 = ⟨.endOfInput, (s.passAll s.ahead).cursor.position,
      .emptyAt (s.passAll s.ahead).cursor.offset⟩ := by
  rw [← drain_next, next_of_skipped (skipped_of_kind s.drain_kind)]

theorem spell_drain (s : Scanner) :
    Site.Spell s.options.coalesce (Site.layout s.cursor s.ahead) s.drain.1 := by
  fun_induction drain s with
  | case1 s h =>
      have hall : Site.Spell s.options.coalesce (Site.layout s.cursor s.ahead ++ []) [] :=
        Site.Spell.skip_append
          (fun x hx => skipped_of_kind h _ (Site.piece_mem_of_mem_layout hx)) .done
      rwa [List.append_nil] at hall
  | case2 s h ih =>
      rcases s.ahead_cases with hskipped | ⟨skipped, p, more, content, hahead, hskipped, hp⟩
      · exact absurd (kind_of_skipped hskipped) h
      obtain ⟨lexeme, trailing, rest, hahead', htrailing, hnext, hspells⟩ :=
        next_of_token hahead hskipped hp
      rw [next_options, hnext] at ih
      have hmore : s.ahead = skipped ++ (lexeme ++ trailing) ++ rest := by simp [hahead']
      rw [ahead_passAll hmore] at ih
      rw [hahead', Site.layout_append, ← passAll_cursor, Site.layout_append, ← passAll_cursor,
        ← passAll_append]
      refine Site.Spell.skip_append
        (fun x hx => hskipped _ (Site.piece_mem_of_mem_layout hx)) (.token hspells ?_)
      rw [Site.layout_append, ← passAll_cursor, ← passAll_append, List.append_assoc]
      exact Site.Spell.skip_append (fun x hx => PieceSort.isSkipped_of_isTrivia
        (htrailing _ (Site.piece_mem_of_mem_layout hx))) (by rwa [hnext])

end Scanner

namespace Site

theorem Spells.span_eq {coalesce : Bool} {c : Cursor} {ps : List Piece} {rest : List Site}
    {t : Token} (h : Spells coalesce (layout c ps) rest t) :
    t.span = ⟨c.offset, (c.skip (ps.flatMap Piece.text).length).offset⟩ := by
  generalize hsites : layout c ps = sites at h
  have hfirst {x : Site} (hx : (layout c ps).head? = some x) : x.place = c := by
    cases ps with
    | nil => simp [layout] at hx
    | cons p ps =>
        obtain rfl : ⟨c, p⟩ = x := by simpa [layout] using hx
        rfl
  cases h with
  | @lexeme x content _ _ _ =>
      have hlast : (layout c ps).getLast? = some x := by rw [hsites]; rfl
      rw [span, stop_of_getLast? hlast, hfirst (x := x) (by rw [hsites]; rfl)]
  | @lineEnds _ _ x y _ hx hy =>
      rw [← hsites] at hx hy
      rw [stop_of_getLast? hy, hfirst hx]

theorem Spells.ne_nil {coalesce : Bool} {sites rest : List Site} {t : Token}
    (h : Spells coalesce sites rest t) : sites ≠ [] := by
  cases h with
  | lexeme => simp
  | lineEnds _ hx => rintro rfl; simp at hx

end Site

theorem Cursor.le_skip_offset (c : Cursor) (n : Nat) : c.offset ≤ (c.skip n).offset :=
  Nat.le_add_right ..

namespace Scanner

variable {s : Scanner}

theorem next_span (h : s.next.1.kind ≠ .endOfInput) :
    (∃ lexeme, lexeme ≠ [] ∧ s.next.1.span.Holds s.cursor.source lexeme) ∧
      s.cursor.offset ≤ s.next.1.span.start ∧
      s.next.1.span.stop ≤ s.next.2.cursor.offset := by
  rcases s.ahead_cases with hskipped | ⟨skipped, p, more, content, hahead, hskipped, hp⟩
  · exact absurd (kind_of_skipped hskipped) h
  obtain ⟨lexeme, trailing, rest, hahead', -, hnext, hspells⟩ := next_of_token hahead hskipped hp
  obtain ⟨q, qs, rfl⟩ : ∃ q qs, lexeme = q :: qs := by
    cases lexeme with
    | nil => exact absurd rfl hspells.ne_nil
    | cons q qs => exact ⟨q, qs, rfl⟩
  have hstop : s.next.2.cursor = ((s.passAll skipped).cursor.skip
      ((q :: qs).flatMap Piece.text).length).skip (trailing.flatMap Piece.text).length := by
    rw [hnext, passAll_append, passAll_append, passAll_cursor, passAll_cursor (s.passAll skipped)]
  rw [hspells.span_eq, hstop]
  refine ⟨⟨(q :: qs).flatMap Piece.text, by simp [q.text_ne_nil], ?_⟩, ?_, ?_⟩
  · have hrest := (s.passAll skipped).flatMap_text_ahead
    rw [ahead_passAll hahead', List.flatMap_append] at hrest
    have hholds := (s.passAll skipped).cursor.holds_take ((q :: qs).flatMap Piece.text).length
    rw [← hrest, List.take_left] at hholds
    simpa [passAll_cursor] using hholds
  · rw [passAll_cursor]
    exact Cursor.le_skip_offset ..
  · exact Cursor.le_skip_offset ..

theorem span_of_mem_drain {t : Token} (h : t ∈ s.drain.1) :
    (∃ lexeme, lexeme ≠ [] ∧ t.span.Holds s.cursor.source lexeme) ∧
      s.cursor.offset ≤ t.span.start := by
  fun_induction drain s with
  | case1 s hk => simp at h
  | case2 s hk ih =>
      obtain ⟨hholds, hstart, hstop⟩ := next_span hk
      rcases List.mem_cons.1 h with rfl | h
      · exact ⟨hholds, hstart⟩
      · obtain ⟨hmore, hle⟩ := ih h
        rw [next_source] at hmore
        have hlt : s.next.1.span.start < s.next.1.span.stop := by
          obtain ⟨lexeme, hne, hlexeme⟩ := hholds
          exact hlexeme.start_lt_stop hne
        exact ⟨hmore, by omega⟩

theorem drain_pairwise (s : Scanner) :
    s.drain.1.Pairwise fun t u => t.span.stop ≤ u.span.start := by
  fun_induction drain s with
  | case1 s hk => exact .nil
  | case2 s hk ih =>
      refine .cons (fun u hu => ?_) ih
      exact (next_span hk).2.2.trans (span_of_mem_drain hu).2

def restore (ds : Array Diagnostic) (s : Scanner) : Scanner :=
  { s with diagnostics := ds ++ s.diagnostics }

theorem restore_pass (ds : Array Diagnostic) (s : Scanner) (p : Piece) :
    (s.restore ds).pass p = (s.pass p).restore ds := by
  simp only [restore, pass]
  congr 1
  exact Array.toList_inj.1 (by simp)

theorem restore_passAll (ds : Array Diagnostic) (s : Scanner) (ps : List Piece) :
    (s.restore ds).passAll ps = (s.passAll ps).restore ds := by
  induction ps generalizing s with
  | nil => rfl
  | cons p ps ih => rw [passAll_cons, passAll_cons, restore_pass, ih]

theorem restore_next (ds : Array Diagnostic) (s : Scanner) :
    (s.restore ds).next = (s.next.1, s.next.2.restore ds) := by
  rw [next_eq, next_eq, read, restore_passAll]
  rfl

theorem restore_drain (ds : Array Diagnostic) (s : Scanner) :
    (s.restore ds).drain = (s.drain.1, s.drain.2.restore ds) := by
  fun_induction drain s with
  | case1 s h => rw [drain_of_kind (by rw [restore_next]; exact h)]
  | case2 s h ih => rw [drain_of_kind_ne (by rw [restore_next]; exact h), restore_next, ih]

theorem takeDiagnostics_restore (s : Scanner) :
    s.takeDiagnostics.2.restore s.diagnostics = s := by
  simp [takeDiagnostics, restore]

end Scanner

end Lexing
