import Lexing.Proofs.Scan.Rules
import Lexing.Proofs.Stream.Tokens

namespace Lexing

namespace Content

def IsSpelled (lexeme after : List Char) : Content → Prop
  | .symbol s => Kind.spelling? (.symbol s) = some (String.ofList lexeme) ∧
      ∀ other ∈ Symbol.all, other.letters <+: lexeme ++ after →
        other.letters.length ≤ s.letters.length
  | .keyword k => Kind.spelling? (.keyword k) = some (String.ofList lexeme) ∧
      ∀ d ∈ after.head?, ¬ isWordChar d
  | .word spelling => spelling = String.ofList lexeme ∧
      (∀ k : Keyword, k.spelling ≠ spelling) ∧ ∀ d ∈ after.head?, ¬ isWordChar d
  | .newline => lexeme.head? = some '\n' ∧ lexeme.getLast? = some '\n'
  | _ => True

theorem fits_payload (content : Content) : content.payload.fits content.kind.shape := by
  cases content with
  | external kind payload => cases payload <;> rfl
  | _ => rfl

theorem of_kind_payload (content : Content) : of content.kind content.payload = .ok content := by
  cases content <;> rfl

end Content

theorem Keyword.spelling_of_ofSpelling? {spelling : String} :
    (∀ k, ofSpelling? spelling = some k → k.spelling = spelling) ∧
      (ofSpelling? spelling = none → ∀ k : Keyword, k.spelling ≠ spelling) := by
  constructor
  · intro k hk
    simpa using List.find?_some hk
  · intro hnone k
    have hall : k ∈ all := by cases k <;> decide
    simpa using List.find?_eq_none.1 hnone k hall

namespace Piece

variable {o : Options} {r : Recognizers} {c : Char} {cs after : List Char} {content : Content}

theorem isSpelled_next (h : (next o r c cs).Opens o r (c :: cs) after)
    (hsort : (next o r c cs).sort = .token content) :
    content.IsSpelled (next o r c cs).text after := by
  have hjoin := h.text_eq
  have hpiece := (next_of_token hsort).2
  rw [hpiece] at hsort hjoin ⊢
  cases Lexeme.readBy_next hsort with
  | newline htext => simp [Content.IsSpelled, htext]
  | number => trivial
  | string => trivial
  | external => trivial
  | symbol s hs htext =>
      refine ⟨by simp [Kind.spelling?, htext, Symbol.letters], fun other _ hother => ?_⟩
      rw [hjoin] at hother
      exact Symbol.length_le_of_longest? hs hother
  | word htext =>
      rw [htext] at hjoin ⊢
      have hafter : after = cs.dropWhile isWordChar := by
        have hcs := List.takeWhile_append_dropWhile (p := isWordChar) (l := cs)
        have hmore : cs.takeWhile isWordChar ++ after = cs := (List.cons.inj hjoin).2
        exact List.append_cancel_left (hmore.trans hcs.symm)
      have hend : ∀ d ∈ after.head?, ¬ isWordChar d := by
        intro d hd
        have hnot := List.head?_dropWhile_not isWordChar cs
        rw [← hafter, Option.mem_def.1 hd] at hnot
        simpa using hnot
      obtain ⟨hspelling, hreserved⟩ :=
        @Keyword.spelling_of_ofSpelling? (String.ofList (c :: cs.takeWhile isWordChar))
      unfold Word.content
      cases hk : Keyword.ofSpelling? (String.ofList (c :: cs.takeWhile isWordChar)) with
      | some k => exact ⟨congrArg some (hspelling k hk), hend⟩
      | none => exact ⟨rfl, hreserved hk, hend⟩

end Piece

namespace Site

variable {o : Options} {r : Recognizers} {file : String} {text : List Char} {t : Token}

structure Stands (text : List Char) (t : Token) (before lexeme after : List Char) : Prop where
  text_eq : text = before ++ lexeme ++ after
  span_eq : t.span = ⟨Text.size before, Text.size before + Text.size lexeme⟩
  isSpelled : t.content.IsSpelled lexeme after

theorem stands_of_ne_newline (ht : t ∈ tokens o.coalesce (ofText file text o r))
    (hn : t.content ≠ .newline) : ∃ before lexeme after, Stands text t before lexeme after := by
  obtain ⟨x, hx, hsort, htoken⟩ := exists_site_of_mem_tokens ht hn
  have hopens : x.piece.Opens o r x.place.rest x.stop.rest := opens_of_mem_layout hx
  have hsource : x.place.source = text := source_place hx
  obtain ⟨c, cs, hrest, hpiece⟩ := exists_next hx
  refine ⟨x.place.passed.reverse, x.piece.text, x.stop.rest, ?_, ?_, ?_⟩
  · rw [List.append_assoc, hopens.text_eq, ← hsource, Cursor.source]
  · rw [htoken, token, span, offset_stop hopens, x.place.offset_eq, Text.size_reverse]
  · rw [hpiece, hrest] at hopens
    rw [hpiece] at hsort ⊢
    exact Piece.isSpelled_next hopens hsort

theorem stands_of_newline (ht : t ∈ tokens o.coalesce (ofText file text o r))
    (hn : t.content = .newline) : ∃ before lexeme after, Stands text t before lexeme after := by
  obtain ⟨x, hx, y, hy, hxsort, hysort, hspan, hle⟩ :=
    exists_of_mem_tokens (layout_pairwise _ _) ht
  have lineEnd {z : Site} (hz : z ∈ ofText file text o r) (hsort : z.piece.sort = .token .newline) :
      z.piece.text = ['\n'] ∧ z.place.rest = '\n' :: z.stop.rest ∧
        z.stop.offset = z.place.offset + 1 := by
    have hopens : z.piece.Opens o r z.place.rest z.stop.rest := opens_of_mem_layout hz
    have hisOf := hopens.isOf
    rw [hsort] at hisOf
    cases hisOf.2 with
    | newline htext =>
        have hstop := offset_stop hopens
        have hrest := hopens.text_eq
        rw [htext] at hstop hrest
        exact ⟨htext, hrest.symm, hstop⟩
  rw [hn] at hxsort hysort
  obtain ⟨-, hxrest, -⟩ := lineEnd hx hxsort
  obtain ⟨-, hyrest, hystop⟩ := lineEnd hy hysort
  have hxsource : x.place.passed.reverse ++ x.place.rest = text := source_place hx
  have hysource : y.place.passed.reverse ++ y.place.rest = text := source_place hy
  -- The token reaches from the first line end of a run to the last.
  obtain ⟨between, hbetween⟩ : x.place.passed.reverse <+: y.place.passed.reverse := by
    refine Text.prefix_of_size_le ⟨_, hxsource⟩ ⟨_, hysource⟩ ?_
    rw [Text.size_reverse, Text.size_reverse, ← x.place.offset_eq, ← y.place.offset_eq]
    exact hle
  have hsplit : between ++ '\n' :: y.stop.rest = '\n' :: x.stop.rest := by
    rw [← hbetween, ← hxsource, List.append_assoc, hxrest, hyrest,
      List.append_cancel_left_eq] at hysource
    exact hysource
  refine ⟨x.place.passed.reverse, between ++ ['\n'], y.stop.rest, ?_, ?_, ?_⟩
  · rw [← hysource, ← hbetween, hyrest]
    simp
  · have hsize := congrArg Text.size hbetween
    rw [Text.size_append, Text.size_reverse, Text.size_reverse, ← x.place.offset_eq,
      ← y.place.offset_eq] at hsize
    rw [hspan, hystop, Text.size_reverse, ← x.place.offset_eq, ← hsize, Text.size_append,
      Nat.add_assoc]
    rfl
  · rw [hn]
    refine ⟨?_, by simp⟩
    have hhead := congrArg List.head? hsplit
    cases between with
    | nil => rfl
    | cons b between => exact hhead

end Site

namespace TokenStream

/-- Line openings that begin with a line end are those of the guarded `Comments.opensLine`. -/
theorem scan_spelled (file text : String) (o : Options) (r : Recognizers) :
    let s := scan (.ofText file text o r)
    ∀ t ∈ s.tokens,
      (∃ before lexeme after, text.toList = before ++ lexeme ++ after ∧
        t.span = ⟨Text.size before, Text.size before + Text.size lexeme⟩ ∧
        s.lexeme t = String.ofList lexeme ∧ t.content.IsSpelled lexeme after) ∧
      t.payload.fits t.kind.shape ∧ Content.of t.kind t.payload = .ok t.content := by
  intro s t ht
  refine ⟨?_, t.content.fits_payload, t.content.of_kind_payload⟩
  have hs : s = _ := scan_ofText file text o r
  have hstands : ∃ before lexeme after, Site.Stands text.toList t before lexeme after := by
    rw [hs, tokens, Array.mem_push] at ht
    rcases ht with ht | rfl
    · by_cases hn : t.content = .newline
      · exact Site.stands_of_newline (List.mem_toArray.1 ht) hn
      · exact Site.stands_of_ne_newline (List.mem_toArray.1 ht) hn
    · exact ⟨text.toList, [], [], by simp, rfl, trivial⟩
  obtain ⟨before, spelled, after, hstands⟩ := hstands
  refine ⟨before, spelled, after, hstands.text_eq, hstands.span_eq, ?_, hstands.isSpelled⟩
  rw [lexeme, hs, hstands.span_eq, hstands.text_eq]
  exact congrArg String.ofList (Text.slice_append ..)

end TokenStream

end Lexing
