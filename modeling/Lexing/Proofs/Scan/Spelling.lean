import Lexing.Proofs.Scan.Sites

namespace Lexing

namespace Site

inductive Spells (coalesce : Bool) : List Site → List Site → Token → Prop
  | lexeme {x : Site} {content : Content} (rest : List Site) : x.piece.sort = .token content →
      (content = .newline → coalesce = false) →
      Spells coalesce [x] rest ⟨content, x.place.position, x.span⟩
  | lineEnds {run rest : List Site} {x y : Site} : coalesce = true →
      run.head? = some x → run.getLast? = some y →
      x.piece.sort.isNewline → y.piece.sort.isNewline →
      (∀ z ∈ run, z.piece.sort.isTrivia ∨ z.piece.sort.isNewline) →
      (∀ blanks z more, rest = blanks ++ z :: more → (∀ b ∈ blanks, b.piece.sort.isTrivia) →
        z.piece.sort.isNewline = false) →
      Spells coalesce run rest ⟨.newline, x.place.position, ⟨x.place.offset, y.stop.offset⟩⟩

inductive Spell (coalesce : Bool) : List Site → List Token → Prop
  | done : Spell coalesce [] []
  | skip {x : Site} {xs : List Site} {ts : List Token} : x.piece.sort.isSkipped →
      Spell coalesce xs ts → Spell coalesce (x :: xs) ts
  | token {run rest : List Site} {t : Token} {ts : List Token} : Spells coalesce run rest t →
      Spell coalesce rest ts → Spell coalesce (run ++ rest) (t :: ts)

theorem Spell.skip_append {coalesce : Bool} {xs ys : List Site} {ts : List Token}
    (hxs : ∀ x ∈ xs, x.piece.sort.isSkipped) (h : Spell coalesce ys ts) :
    Spell coalesce (xs ++ ys) ts := by
  induction xs with
  | nil => exact h
  | cons x xs ih =>
      obtain ⟨hx, hmore⟩ := List.forall_mem_cons.1 hxs
      exact .skip hx (ih hmore)

end Site

namespace Reading

theorem of_mem_lineEnds {ps : List Piece} {p : Piece} (h : p ∈ lineEnds ps) :
    p.sort.isTrivia ∨ p.sort.isNewline := by
  induction ps with
  | nil => simp [lineEnds] at h
  | cons q ps ih =>
      rw [lineEnds] at h
      split at h
      · next hq =>
          rcases List.mem_cons.1 h with rfl | h
          · exact .inr hq
          · exact ih h
      split at h
      · next hq =>
          rcases List.mem_cons.1 h with rfl | h
          · exact .inl (by simp_all)
          · exact ih h
      · simp at h

theorem isNewline_of_getLast?_lineEnds {ps : List Piece} {p : Piece}
    (h : (lineEnds ps).getLast? = some p) : p.sort.isNewline := by
  induction ps with
  | nil => simp [lineEnds] at h
  | cons q ps ih =>
      have last (hcons : (q :: lineEnds ps).getLast? = some p) :
          (lineEnds ps = [] ∧ q = p) ∨ p.sort.isNewline := by
        rw [List.getLast?_cons] at hcons
        cases hlast : (lineEnds ps).getLast? with
        | none => exact .inl ⟨List.getLast?_eq_none_iff.1 hlast, by simpa [hlast] using hcons⟩
        | some last => exact .inr (ih (by simpa [hlast] using hcons))
      rw [lineEnds] at h
      split at h
      · next hq =>
          rcases last h with ⟨-, rfl⟩ | h
          · exact hq
          · exact h
      split at h
      · next hq =>
          rcases last h with ⟨hnil, -⟩ | h
          · simp [hnil] at hq
          · exact h
      · simp at h

theorem lineEnds_drop_eq_nil (ps : List Piece) :
    lineEnds (ps.drop (lineEnds ps).length) = [] := by
  induction ps with
  | nil => rfl
  | cons p ps ih =>
      rw [lineEnds]
      split
      · exact ih
      · next hn =>
          split
          · exact ih
          · next ht => rw [List.length_nil, List.drop_zero, lineEnds, if_neg hn, if_neg ht]

end Reading

namespace Site

theorem spells_lineEnds {c : Cursor} {p : Piece} {ps : List Piece}
    (h : p.sort = .token .newline) :
    Spells true (layout c (p :: Reading.lineEnds ps))
      (layout (c.skip ((p :: Reading.lineEnds ps).flatMap Piece.text).length)
        (ps.drop (Reading.lineEnds ps).length))
      ⟨.newline, c.position,
        ⟨c.offset, (c.skip ((p :: Reading.lineEnds ps).flatMap Piece.text).length).offset⟩⟩ := by
  have hp : p.sort.isNewline := by simp [h, PieceSort.isNewline]
  obtain ⟨y, hy⟩ := Option.ne_none_iff_exists'.1
    (mt List.getLast?_eq_none_iff.1 (List.cons_ne_nil ⟨c, p⟩ (layout (c.skip p.text.length)
      (Reading.lineEnds ps))))
  have hpiece : (p :: Reading.lineEnds ps).getLast? = some y.piece := by
    rw [← map_piece_layout c (p :: Reading.lineEnds ps), List.getLast?_map, layout, hy]
    rfl
  have hstop : y.stop = c.skip ((p :: Reading.lineEnds ps).flatMap Piece.text).length :=
    stop_of_getLast? hy
  rw [← hstop]
  refine .lineEnds (x := ⟨c, p⟩) rfl rfl hy hp ?_ ?_ ?_
  · rw [List.getLast?_cons] at hpiece
    cases hlast : (Reading.lineEnds ps).getLast? with
    | none => simp_all
    | some last =>
        obtain rfl : last = y.piece := by simpa [hlast] using hpiece
        exact Reading.isNewline_of_getLast?_lineEnds hlast
  · intro z hz
    rcases List.mem_cons.1 (piece_mem_of_mem_layout hz) with hzp | hzp
    · exact .inr (by rw [hzp]; exact hp)
    · exact Reading.of_mem_lineEnds hzp
  · intro blanks z more hrest hblanks
    have hdrop := congrArg (List.map piece) hrest
    rw [map_piece_layout, List.map_append, List.map_cons] at hdrop
    cases hz : z.piece.sort.isNewline with
    | false => rfl
    | true =>
        have hnil := Reading.lineEnds_drop_eq_nil ps
        rw [hdrop, Reading.lineEnds_append (by simpa using hblanks) (by simp [Reading.lineEnds, hz])]
          at hnil
        simp [Reading.lineEnds, hz] at hnil

end Site

namespace Scanner

theorem content_ne_endOfInput {s : Scanner} {p : Piece} {content : Content} (h : p ∈ s.ahead)
    (hp : p.sort = .token content) : content ≠ .endOfInput := by
  obtain ⟨before, after, hahead⟩ := List.append_of_mem h
  have hopens := (Piece.opens_of_all hahead).isOf
  rw [hp] at hopens
  rintro rfl
  cases hopens.2

theorem next_of_skipped {s : Scanner} (h : ∀ p ∈ s.ahead, p.sort.isSkipped) :
    s.next = (⟨.endOfInput, (s.passAll s.ahead).cursor.position,
      .emptyAt (s.passAll s.ahead).cursor.offset⟩, s.passAll s.ahead) := by
  have hreading : s.reading = ⟨s.ahead, .endOfInput, [], []⟩ := by
    have hall : Reading.ofPieces s.options.coalesce (s.ahead ++ []) = _ :=
      Reading.ofPieces_append h
    rw [List.append_nil] at hall
    rw [reading, hall]
    simp [Reading.ofPieces, Reading.behind]
  rw [next_eq, read, hreading, passAll_cursor]
  simp [Reading.token, Reading.pieces, Span.emptyAt]

theorem next_of_token {s : Scanner} {skipped more : List Piece} {p : Piece} {content : Content}
    (h : s.ahead = skipped ++ p :: more) (hskipped : ∀ q ∈ skipped, q.sort.isSkipped)
    (hp : p.sort = .token content) :
    ∃ lexeme trailing rest, s.ahead = skipped ++ (lexeme ++ (trailing ++ rest)) ∧
      (∀ q ∈ trailing, q.sort.isTrivia) ∧
      s.next.2 = s.passAll (skipped ++ (lexeme ++ trailing)) ∧
      Site.Spells s.options.coalesce
        (Site.layout (s.passAll skipped).cursor lexeme)
        (Site.layout (s.passAll (skipped ++ lexeme)).cursor (trailing ++ rest)) s.next.1 := by
  by_cases hco : content = .newline ∧ s.options.coalesce = true
  · obtain ⟨rfl, hco⟩ := hco
    have hreading : s.reading = ⟨skipped, .newline, p :: Reading.lineEnds more,
        (more.drop (Reading.lineEnds more).length).takeWhile (·.sort.isTrivia)⟩ := by
      rw [reading, h, Reading.ofPieces_append hskipped, hco, Reading.ofPieces_cons_newline hp]
      simp [Reading.behind]
    refine ⟨p :: Reading.lineEnds more,
      (more.drop (Reading.lineEnds more).length).takeWhile (·.sort.isTrivia),
      (more.drop (Reading.lineEnds more).length).dropWhile (·.sort.isTrivia), ?_, ?_, ?_, ?_⟩
    · rw [List.takeWhile_append_dropWhile, List.cons_append, Reading.lineEnds_append_drop, h]
    · intro q hq
      have htrivia := List.mem_takeWhile_imp hq
      exact htrivia
    · rw [next_eq, read, hreading]
      simp [Reading.pieces]
    · rw [next_eq, read, hreading, hco, List.takeWhile_append_dropWhile, passAll_append,
        passAll_cursor (s.passAll skipped), passAll_cursor]
      exact Site.spells_lineEnds hp
  · have hn : content = .newline → s.options.coalesce = false := by
      intro hc
      simpa [hc] using hco
    have hreading : s.reading = ⟨skipped, content, [p], []⟩ := by
      rw [reading, h, Reading.ofPieces_append hskipped, Reading.ofPieces_cons_token hp hn]
      simp [Reading.behind]
    refine ⟨[p], [], more, by simp [h], by simp, ?_, ?_⟩
    · rw [next_eq, read, hreading]
      simp [Reading.pieces]
    · have hspells := Site.Spells.lexeme (x := ⟨(s.passAll skipped).cursor, p⟩)
        (Site.layout (s.passAll (skipped ++ [p])).cursor more) hp hn
      rw [next_eq, read, hreading]
      simpa [Reading.token, Site.layout, Site.span, Site.stop, passAll_cursor] using hspells

theorem ahead_cases (s : Scanner) :
    (∀ p ∈ s.ahead, p.sort.isSkipped) ∨
      ∃ skipped p more content, s.ahead = skipped ++ p :: more ∧
        (∀ q ∈ skipped, q.sort.isSkipped) ∧ p.sort = .token content := by
  generalize s.ahead = ps
  induction ps with
  | nil => simp
  | cons p ps ih =>
      cases hp : p.sort with
      | token content => exact .inr ⟨[], p, ps, content, rfl, by simp, hp⟩
      | _ =>
          have hskip : p.sort.isSkipped := by rw [hp]; rfl
          rcases ih with ih | ⟨skipped, q, more, content, rfl, hall, hq⟩
          · exact .inl (List.forall_mem_cons.2 ⟨hskip, ih⟩)
          · exact .inr ⟨p :: skipped, q, more, content, rfl,
              List.forall_mem_cons.2 ⟨hskip, hall⟩, hq⟩

end Scanner

end Lexing
