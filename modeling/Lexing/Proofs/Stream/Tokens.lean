import Lexing.Proofs.Stream.Scan

namespace Lexing

def Token.startAt (c : Cursor) (t : Token) : Token :=
  ⟨t.content, c.position, ⟨c.offset, t.span.stop⟩⟩

namespace Site

def token (x : Site) (content : Content) : Token := ⟨content, x.place.position, x.span⟩

def reachesLineEnd : List Site → Bool
  | [] => false
  | x :: xs => x.piece.sort.isNewline || x.piece.sort.isTrivia && reachesLineEnd xs

def tokens (coalesce : Bool) : List Site → List Token
  | [] => []
  | x :: xs =>
      match x.piece.sort with
      | .token content =>
          if content = .newline ∧ coalesce = true ∧ reachesLineEnd xs = true then
            (tokens coalesce xs).modifyHead (.startAt x.place)
          else
            x.token content :: tokens coalesce xs
      | _ => tokens coalesce xs

variable {coalesce : Bool} {x : Site} {xs ys : List Site} {content : Content}

theorem tokens_cons_skipped (h : x.piece.sort.isSkipped) :
    tokens coalesce (x :: xs) = tokens coalesce xs := by
  cases hs : x.piece.sort <;> simp_all [tokens, PieceSort.isSkipped]

theorem tokens_cons_token (h : x.piece.sort = .token content)
    (hn : content = .newline → coalesce = true → reachesLineEnd xs = false) :
    tokens coalesce (x :: xs) = x.token content :: tokens coalesce xs := by
  simp only [tokens, h]
  rw [if_neg]
  rintro ⟨hc, hco, hr⟩
  rw [hn hc hco] at hr
  contradiction

theorem tokens_cons_newline (h : x.piece.sort = .token .newline) (hr : reachesLineEnd xs) :
    tokens true (x :: xs) = (tokens true xs).modifyHead (.startAt x.place) := by
  simp [tokens, h, hr]

theorem sort_of_isNewline {s : PieceSort} (h : s.isNewline) : s = .token .newline := by
  unfold PieceSort.isNewline at h
  split at h
  · rfl
  · contradiction

theorem exists_of_reachesLineEnd (h : reachesLineEnd xs) :
    ∃ blanks y more, xs = blanks ++ y :: more ∧ (∀ b ∈ blanks, b.piece.sort.isTrivia) ∧
      y.piece.sort = .token .newline := by
  induction xs with
  | nil => simp [reachesLineEnd] at h
  | cons x xs ih =>
      rw [reachesLineEnd, Bool.or_eq_true, Bool.and_eq_true] at h
      rcases h with hx | ⟨hx, hxs⟩
      · exact ⟨[], x, xs, rfl, by simp, sort_of_isNewline hx⟩
      · obtain ⟨blanks, y, more, rfl, hblanks, hy⟩ := ih hxs
        exact ⟨x :: blanks, y, more, rfl, List.forall_mem_cons.2 ⟨hx, hblanks⟩, hy⟩

theorem startAt_of_newline (h : x.piece.sort = .token .newline) :
    (tokens coalesce (x :: xs)).modifyHead (.startAt x.place) = tokens coalesce (x :: xs) := by
  simp only [tokens, h]
  split
  · rw [List.modifyHead_modifyHead]
    rfl
  · rfl

theorem exists_tokens_eq_cons (coalesce : Bool) (h : reachesLineEnd xs) :
    ∃ t ts, tokens coalesce xs = t :: ts ∧ t.content = .newline := by
  induction xs with
  | nil => simp [reachesLineEnd] at h
  | cons x xs ih =>
      rw [reachesLineEnd, Bool.or_eq_true, Bool.and_eq_true] at h
      rcases h with hx | ⟨hx, hxs⟩
      · simp only [tokens, sort_of_isNewline hx]
        split
        · next hr =>
            obtain ⟨t, ts, hts, ht⟩ := ih hr.2.2
            exact ⟨t.startAt x.place, ts, by rw [hts]; rfl, ht⟩
        · exact ⟨_, _, rfl, rfl⟩
      · rw [tokens_cons_skipped (PieceSort.isSkipped_of_isTrivia hx)]
        exact ih hxs

theorem exists_tokens_run {run rest : List Site} {y : Site} (hy : run.getLast? = some y)
    (hn : y.piece.sort.isNewline)
    (hrun : ∀ z ∈ run, z.piece.sort.isTrivia ∨ z.piece.sort.isNewline)
    (hrest : reachesLineEnd rest = false) :
    reachesLineEnd (run ++ rest) ∧ ∃ t, tokens true (run ++ rest) = t :: tokens true rest ∧
      t.content = .newline ∧ t.span.stop = y.stop.offset := by
  induction run with
  | nil => simp at hy
  | cons x run ih =>
      obtain ⟨hx, hmore⟩ := List.forall_mem_cons.1 hrun
      rw [List.cons_append, reachesLineEnd]
      cases run with
      | nil =>
          obtain rfl : x = y := by simpa using hy
          refine ⟨by simp [hn], x.token .newline, ?_, rfl, rfl⟩
          exact tokens_cons_token (sort_of_isNewline hn) fun _ _ => hrest
      | cons z run =>
          obtain ⟨hreach, t, htokens, hcontent, hstop⟩ :=
            ih (by rwa [List.getLast?_cons_cons] at hy) hmore
          rcases hx with hx | hx
          · refine ⟨by rw [hx, hreach, Bool.true_and, Bool.or_true], t, ?_,
              hcontent, hstop⟩
            rw [tokens_cons_skipped (PieceSort.isSkipped_of_isTrivia hx), htokens]
          · refine ⟨by simp [hx], t.startAt x.place, ?_, hcontent, hstop⟩
            rw [tokens_cons_newline (sort_of_isNewline hx) hreach, htokens]
            rfl

theorem reachesLineEnd_eq_false {rest : List Site}
    (h : ∀ blanks z more, rest = blanks ++ z :: more → (∀ b ∈ blanks, b.piece.sort.isTrivia) →
      z.piece.sort.isNewline = false) : reachesLineEnd rest = false := by
  cases hr : reachesLineEnd rest with
  | false => rfl
  | true =>
      obtain ⟨blanks, z, more, hrest, hblanks, hz⟩ := exists_of_reachesLineEnd hr
      have hnot := h blanks z more hrest hblanks
      rw [hz] at hnot
      contradiction

theorem tokens_of_spells {run rest : List Site} {t : Token} (h : Spells coalesce run rest t) :
    tokens coalesce (run ++ rest) = t :: tokens coalesce rest := by
  cases h with
  | lexeme _ hx hn =>
      refine tokens_cons_token hx fun hc hco => ?_
      rw [hn hc] at hco
      contradiction
  | @lineEnds _ _ x y hco hx hy hxn hyn hrun hrest =>
      subst hco
      obtain ⟨-, t, htokens, hcontent, hstop⟩ :=
        exists_tokens_run hy hyn hrun (reachesLineEnd_eq_false hrest)
      obtain ⟨more, rfl⟩ := List.head?_eq_some_iff.1 hx
      rw [List.cons_append] at htokens ⊢
      rw [← startAt_of_newline (sort_of_isNewline hxn), htokens]
      simp [Token.startAt, hcontent, hstop]

theorem tokens_of_spell {ts : List Token} (h : Spell coalesce xs ts) :
    tokens coalesce xs = ts := by
  induction h with
  | done => rfl
  | skip hx _ ih => rw [tokens_cons_skipped hx, ih]
  | token ht _ ih => rw [tokens_of_spells ht, ih]

theorem tokens_append (h : reachesLineEnd ys = false) :
    tokens coalesce (xs ++ ys) = tokens coalesce xs ++ tokens coalesce ys ∧
      reachesLineEnd (xs ++ ys) = reachesLineEnd xs := by
  induction xs with
  | nil => exact ⟨rfl, h⟩
  | cons x xs ih =>
      obtain ⟨htokens, hreach⟩ := ih
      refine ⟨?_, by rw [List.cons_append, reachesLineEnd, reachesLineEnd, hreach]⟩
      simp only [List.cons_append, tokens, hreach, htokens]
      split
      · split
        · next hr =>
            obtain ⟨t, ts, hts, -⟩ := exists_tokens_eq_cons coalesce hr.2.2
            rw [hts]
            rfl
        · rfl
      · rfl

theorem layout_pairwise (c : Cursor) (ps : List Piece) :
    (layout c ps).Pairwise fun x y => x.stop.offset ≤ y.place.offset := by
  induction ps generalizing c with
  | nil => exact .nil
  | cons p ps ih =>
      refine .cons (fun y hy => ?_) (ih _)
      obtain ⟨before, after, -, hplace⟩ := exists_of_mem_layout hy
      rw [hplace]
      exact Cursor.le_skip_offset ..

theorem bounds_of_mem_layout {c : Cursor} {ps : List Piece}
    (h : ps.flatMap Piece.text <+: c.rest) (hx : x ∈ layout c ps) :
    c.offset ≤ x.place.offset ∧ x.place.offset < x.stop.offset ∧
      x.stop.offset ≤ (c.skip (ps.flatMap Piece.text).length).offset := by
  obtain ⟨before, after, rfl, hplace⟩ := exists_of_mem_layout hx
  obtain ⟨tail, htail⟩ := h
  simp only [List.flatMap_append, List.flatMap_cons, List.append_assoc] at htail
  have hrest : x.place.rest = x.piece.text ++ (after.flatMap Piece.text ++ tail) := by
    rw [hplace, Cursor.skip_rest, ← htail, List.drop_left]
  have hsize := Text.size_pos x.piece.text_ne_nil
  refine ⟨?_, ?_, ?_⟩
  · rw [hplace]
    exact Cursor.le_skip_offset ..
  · rw [stop, Cursor.skip_offset, hrest, List.take_left]
    omega
  · have hjoin : c.skip ((before ++ x.piece :: after).flatMap Piece.text).length =
        x.stop.skip (after.flatMap Piece.text).length := by
      simp [stop, hplace, Cursor.skip_skip, Nat.add_assoc]
    rw [hjoin]
    exact Cursor.le_skip_offset ..

theorem exists_of_mem_tokens {t : Token} (hxs : xs.Pairwise fun x y => x.stop.offset ≤ y.place.offset)
    (ht : t ∈ tokens coalesce xs) :
    ∃ x ∈ xs, ∃ y ∈ xs, x.piece.sort = .token t.content ∧ y.piece.sort = .token t.content ∧
      t.span = ⟨x.place.offset, y.stop.offset⟩ ∧ x.place.offset ≤ y.place.offset := by
  induction xs generalizing t with
  | nil => simp [tokens] at ht
  | cons x xs ih =>
      obtain ⟨hx, hmore⟩ := List.pairwise_cons.1 hxs
      have later {t : Token} (ht : t ∈ tokens coalesce xs) :
          ∃ y ∈ x :: xs, ∃ z ∈ x :: xs, y.piece.sort = .token t.content ∧
            z.piece.sort = .token t.content ∧ t.span = ⟨y.place.offset, z.stop.offset⟩ ∧
            y.place.offset ≤ z.place.offset := by
        obtain ⟨y, hy, z, hz, hspan⟩ := ih hmore ht
        exact ⟨y, List.mem_cons_of_mem x hy, z, List.mem_cons_of_mem x hz, hspan⟩
      simp only [tokens] at ht
      split at ht
      · next content hsort =>
          split at ht
          · next hr =>
              obtain ⟨u, us, hus, hu⟩ := exists_tokens_eq_cons coalesce hr.2.2
              rw [hus] at ht
              rcases List.mem_cons.1 ht with rfl | ht
              · obtain ⟨y, hy, z, hz, -, hzsort, hspan, hle⟩ := ih hmore (t := u) (by simp [hus])
                have hxsort : x.piece.sort = .token (u.startAt x.place).content := by
                  rw [hsort, hr.1]
                  exact congrArg PieceSort.token hu.symm
                refine ⟨x, by simp, z, List.mem_cons_of_mem x hz, hxsort, hzsort,
                  by simp [Token.startAt, hspan], ?_⟩
                have hxy := hx z hz
                have hself : x.place.offset ≤ x.stop.offset := Cursor.le_skip_offset ..
                omega
              · exact later (by simp [hus, ht])
          · rcases List.mem_cons.1 ht with rfl | ht
            · exact ⟨x, by simp, x, by simp, hsort, hsort, rfl, Nat.le_refl _⟩
            · exact later ht
      · exact later ht

theorem exists_site_of_mem_tokens {t : Token} (ht : t ∈ tokens coalesce xs)
    (hn : t.content ≠ .newline) :
    ∃ x ∈ xs, x.piece.sort = .token t.content ∧ t = x.token t.content := by
  induction xs with
  | nil => simp [tokens] at ht
  | cons x xs ih =>
      have later (ht : t ∈ tokens coalesce xs) :
          ∃ y ∈ x :: xs, y.piece.sort = .token t.content ∧ t = y.token t.content := by
        obtain ⟨y, hy, hsort, htoken⟩ := ih ht
        exact ⟨y, List.mem_cons_of_mem x hy, hsort, htoken⟩
      simp only [tokens] at ht
      split at ht
      · next content hx =>
          split at ht
          · next hr =>
              obtain ⟨u, us, hus, hu⟩ := exists_tokens_eq_cons coalesce hr.2.2
              rw [hus] at ht
              rcases List.mem_cons.1 ht with rfl | ht
              · exact absurd hu hn
              · exact later (by simp [hus, ht])
          · rcases List.mem_cons.1 ht with rfl | ht
            · exact ⟨x, by simp, hx, rfl⟩
            · exact later ht
      · exact later ht

theorem bounds_of_mem_tokens {c : Cursor} {ps : List Piece} {t : Token}
    (h : ps.flatMap Piece.text <+: c.rest) (ht : t ∈ tokens coalesce (layout c ps)) :
    c.offset ≤ t.span.start ∧ t.span.start < t.span.stop ∧
      t.span.stop ≤ (c.skip (ps.flatMap Piece.text).length).offset := by
  obtain ⟨x, hx, y, hy, -, -, hspan, hle⟩ := exists_of_mem_tokens (layout_pairwise c ps) ht
  have hstart := bounds_of_mem_layout h hx
  have hstop := bounds_of_mem_layout h hy
  simp only [hspan]
  omega

end Site

theorem TokenStream.scan_ofText (file text : String) (o : Options) (r : Recognizers) :
    scan (.ofText file text o r) =
      ⟨text.toList, (Site.tokens o.coalesce (Site.ofText file text.toList o r)).toArray,
        ⟨.endOfInput, ⟨file, 1 + text.toList.count '\n'⟩, .emptyAt (Text.size text.toList)⟩,
        (Site.ofText file text.toList o r).flatMap Site.diagnostics, 0⟩ := by
  have htokens := Site.tokens_of_spell (Scanner.spell_drain (.ofText file text o r))
  obtain ⟨hoffset, hline⟩ := (Cursor.ofText file text.toList).skip_length_rest
  rw [scan_eq, ← htokens, Scanner.drain_ending, Scanner.drain_next, Scanner.passAll_diagnostics,
    Scanner.passAll_cursor, Scanner.flatMap_text_ahead]
  simp only [Scanner.ofText, Cursor.position, hoffset, hline]
  rfl

end Lexing
