import Lexing.Proofs.Scan.Limits
import Lexing.Proofs.Stream.Tokens

namespace Lexing

def Diagnostic.sizes (ds : List Diagnostic) : List (String × Span) :=
  (ds.filter fun d => d.cause.isSize).map fun d => (d.cause.name, d.span)

def Diagnostic.others (ds : List Diagnostic) : List Diagnostic :=
  ds.filter fun d => !d.cause.isSize

namespace PieceSort

variable {o : Options} {text : List Char}

theorem isNewline_limited (s : PieceSort) : (s.limited o text).isNewline = s.isNewline := by
  cases s with
  | token content =>
      cases hr : o.refuses content text with
      | false => simp [limited, hr]
      | true =>
          have hn : content ≠ .newline := by
            rintro rfl
            contradiction
          cases content <;> simp_all [limited, isNewline]
  | _ => rfl

theorem isTrivia_limited (s : PieceSort) : (s.limited o text).isTrivia = s.isTrivia := by
  cases s with
  | token content => cases hr : o.refuses content text <;> simp [limited, hr, isTrivia]
  | _ => rfl

end PieceSort

namespace Site

structure Tightened (o : Options) (x y : Site) : Prop where
  place_eq : x.place = y.place
  piece : x.piece.Tightened o y.piece

variable {o p : Options} {x y : Site} {xs ys : List Site}

theorem tightened_layout {ps qs : List Piece} (h : List.Forall₂ (Piece.Tightened o) ps qs)
    (c : Cursor) : List.Forall₂ (Tightened o) (layout c ps) (layout c qs) := by
  induction h generalizing c with
  | nil => exact .nil
  | cons hp _ ih =>
      rw [layout, layout, hp.text_eq]
      exact .cons ⟨rfl, hp⟩ (ih _)

namespace Tightened

theorem stop_eq (h : x.Tightened o y) : x.stop = y.stop := by
  rw [stop, stop, h.place_eq, h.piece.text_eq]

theorem token_eq (h : x.Tightened o y) (content : Content) : x.token content = y.token content := by
  rw [token, token, span, span, h.stop_eq, h.place_eq]

theorem others_eq (h : x.Tightened o y) :
    Diagnostic.others x.diagnostics = Diagnostic.others y.diagnostics := by
  have hothers := congrArg (List.map (Diagnostic.ofFault y.place)) h.piece.others_eq
  rw [Diagnostic.others, Diagnostic.others, diagnostics, diagnostics, h.place_eq, List.filter_map,
    List.filter_map]
  exact hothers

theorem sizes_sublist (h : x.Tightened o y) :
    (Diagnostic.sizes y.diagnostics).Sublist (Diagnostic.sizes x.diagnostics) := by
  have hsizes (z : Site) : Diagnostic.sizes z.diagnostics = z.piece.sizes.map fun m =>
      (m.1, ⟨z.place.offset + m.2.1, z.place.offset + m.2.1 + Text.size m.2.2⟩) := by
    rw [Diagnostic.sizes, diagnostics, Piece.sizes, List.filter_map, List.map_map, List.map_map]
    rfl
  rw [hsizes, hsizes, h.place_eq]
  exact h.piece.sizes_sublist.map _

end Tightened

theorem reachesLineEnd_tightened (h : List.Forall₂ (Tightened o) xs ys) :
    reachesLineEnd xs = reachesLineEnd ys := by
  induction h with
  | nil => rfl
  | cons hx _ ih =>
      rw [reachesLineEnd, reachesLineEnd, hx.piece.sort_eq, PieceSort.isNewline_limited,
        PieceSort.isTrivia_limited, ih]

theorem filter_modifyHead {A : Type} {keep : A → Bool} {f : A → A} {a : A} {as : List A}
    (ha : keep a) (hfa : keep (f a)) :
    ((a :: as).modifyHead f).filter keep = ((a :: as).filter keep).modifyHead f := by
  simp [List.modifyHead_cons, ha, hfa]

theorem tokens_tightened (coalesce : Bool) {source : List Char}
    (h : List.Forall₂ (Tightened o) xs ys) (hys : ∀ y ∈ ys, y.span.slice source = y.piece.text) :
    tokens coalesce xs =
      (tokens coalesce ys).filter fun t => !o.refuses t.content (t.span.slice source) := by
  have hnewline (lexeme : List Char) : o.refuses .newline lexeme = false := rfl
  induction h with
  | nil => rfl
  | @cons x y xs ys hx hxs ih =>
      obtain ⟨hy, hmore⟩ := List.forall_mem_cons.1 hys
      have hsort := hx.piece.sort_eq
      cases hcontent : y.piece.sort with
      | token content =>
          rw [hcontent, PieceSort.limited] at hsort
          have hlexeme : (y.token content).span.slice source = y.piece.text := hy
          split at hsort
          · next hrefuses =>
              -- A token that is turned down is no line end, so it stays out of any run.
              have hn : content ≠ .newline := by
                rintro rfl
                contradiction
              rw [tokens_cons_skipped (by rw [hsort]; rfl),
                tokens_cons_token hcontent fun hc => absurd hc hn,
                List.filter_cons_of_neg (by rw [hlexeme]; simp [token, hrefuses]), ih hmore]
          · next hadmits =>
              simp only [tokens, hsort, hcontent, reachesLineEnd_tightened hxs, hx.place_eq]
              split
              · next hrun =>
                  obtain ⟨t, ts, hts, ht⟩ := exists_tokens_eq_cons coalesce hrun.2.2
                  rw [ih hmore, hts, filter_modifyHead]
                  · simp [ht, hnewline]
                  · simp [Token.startAt, ht, hnewline]
              · rw [hx.token_eq, ih hmore, List.filter_cons_of_pos]
                rw [hlexeme]
                simpa [token] using hadmits
      | _ =>
          rw [hcontent] at hsort
          rw [tokens_cons_skipped (by rw [hsort]; rfl), tokens_cons_skipped (by rw [hcontent]; rfl),
            ih hmore]

theorem others_tightened (h : List.Forall₂ (Tightened o) xs ys) :
    Diagnostic.others (xs.flatMap diagnostics) = Diagnostic.others (ys.flatMap diagnostics) := by
  induction h with
  | nil => rfl
  | cons hx _ ih =>
      have hothers := hx.others_eq
      simp only [Diagnostic.others, List.flatMap_cons, List.filter_append] at hothers ih ⊢
      rw [hothers, ih]

theorem sizes_tightened (h : List.Forall₂ (Tightened o) xs ys) :
    (Diagnostic.sizes (ys.flatMap diagnostics)).Sublist
      (Diagnostic.sizes (xs.flatMap diagnostics)) := by
  induction h with
  | nil => exact .refl _
  | cons hx _ ih =>
      have hsizes := hx.sizes_sublist
      simp only [Diagnostic.sizes, List.flatMap_cons, List.filter_append, List.map_append]
        at hsizes ih ⊢
      exact hsizes.append ih

end Site

namespace TokenStream

structure Limited (o : Options) (s t : TokenStream) : Prop where
  tokens_eq : s.tokens.toList =
    t.tokens.toList.filter fun u => !o.refuses u.content (u.span.slice t.source)
  others_eq : Diagnostic.others s.diagnostics = Diagnostic.others t.diagnostics
  sizes_sublist : (Diagnostic.sizes t.diagnostics).Sublist (Diagnostic.sizes s.diagnostics)

theorem scan_limited (file text : String) {o p : Options} (r : Recognizers) (h : o.Tightens p) :
    Limited o (scan (.ofText file text o r)) (scan (.ofText file text p r)) := by
  have htight := scan_ofText file text o r
  have hloose := scan_ofText file text p r
  have hsites : List.Forall₂ (Site.Tightened o) (Site.ofText file text.toList o r)
      (Site.ofText file text.toList p r) :=
    Site.tightened_layout (Piece.tightened_all h r text.toList) _
  have htokens := Site.tokens_tightened p.coalesce hsites fun y hy => Site.slice_span hy
  rw [htight, hloose]
  refine ⟨?_, Site.others_tightened hsites, Site.sizes_tightened hsites⟩
  simp only [tokens, Array.toList_push, List.filter_append, h.coalesce_eq, htokens]
  rfl

theorem scan_limited_words :
    Options.Tightens ⟨true, ⟨["//"], none⟩, 2, 1, 0⟩ ⟨true, ⟨["//"], none⟩, 3, 9, 4⟩ ∧
      Limited ⟨true, ⟨["//"], none⟩, 2, 1, 0⟩
        (scan (.ofText "d" "ab if var \"cd\" // e" ⟨true, ⟨["//"], none⟩, 2, 1, 0⟩ .empty))
        (scan (.ofText "d" "ab if var \"cd\" // e" ⟨true, ⟨["//"], none⟩, 3, 9, 4⟩ .empty)) :=
  have h : Options.Tightens ⟨true, ⟨["//"], none⟩, 2, 1, 0⟩ ⟨true, ⟨["//"], none⟩, 3, 9, 4⟩ :=
    ⟨rfl, rfl, by decide, by decide, by decide⟩
  ⟨h, scan_limited _ _ _ h⟩

end TokenStream

end Lexing
