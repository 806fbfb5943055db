import Lexing.Proofs.Scan.Recognition
import Lexing.Proofs.Stream.Tokens

namespace Lexing

def Span.endsBy (s : Span) (bound : Option Nat) : Bool := bound.all fun b => s.stop ≤ b

namespace TokenStream

def firstUnrecognized? (s : TokenStream) : Option Nat :=
  (s.diagnostics.find? (·.cause == .unrecognizedCharacter)).map (·.span.start)

structure Extends (s plain : TokenStream) : Prop where
  tokens_eq : s.tokens.toList.filter (·.span.endsBy plain.firstUnrecognized?) =
    plain.tokens.toList.filter (·.span.endsBy plain.firstUnrecognized?)
  diagnostics_eq : s.diagnostics.filter (·.span.endsBy plain.firstUnrecognized?) =
    plain.diagnostics.filter (·.span.endsBy plain.firstUnrecognized?)
  eq_of_recognized : plain.firstUnrecognized? = none → s = plain

end TokenStream

structure Token.IsMatch (t : Token) (o : Options) (r : Recognizers) (before : List Char) (c : Char)
    (cs : List Char) (m : Recognition) : Prop where
  content_eq : t.content = .external m.kind m.payload
  code_ge : 1001 ≤ m.kind.code
  span_eq : t.span =
    ⟨Text.size before, Text.size before + Text.size ((c :: cs).take m.count)⟩
  not_blank : ¬ isHorizontal c
  not_comment : ¬ o.comments.OpensAt (c :: cs)
  unclaimed : Lexeme.Unclaimed c cs
  answers : r.Answers (c :: cs) m

namespace Site

variable {x : Site} {o : Options} {r : Recognizers}

theorem bounds_of_mem_diagnostics (h : x.piece.Opens o r x.place.rest x.stop.rest) {d : Diagnostic}
    (hd : d ∈ x.diagnostics) : x.place.offset ≤ d.span.start ∧ d.span.start < d.span.stop ∧
      d.span.stop ≤ x.stop.offset := by
  obtain ⟨hstart, hstop⟩ := covers_of_mem_diagnostics h hd
  refine ⟨hstart, ?_, hstop⟩
  obtain ⟨f, hf, rfl⟩ := List.mem_map.1 hd
  obtain ⟨before, after, -, hne, -⟩ := h.within f hf
  have := Text.size_pos hne
  simp only [Diagnostic.ofFault]
  omega

theorem filter_append_eq_left {A : Type} {p : A → Bool} {as bs : List A} (has : ∀ a ∈ as, p a)
    (hbs : ∀ b ∈ bs, ¬ p b) : (as ++ bs).filter p = as := by
  rw [List.filter_append, List.filter_eq_self.2 has, List.filter_eq_nil_iff.2 hbs, List.append_nil]

variable {c : Cursor} {ps qs : List Piece} {q : Piece}

def endOf (c : Cursor) (ps : List Piece) : Cursor := c.skip (ps.flatMap Piece.text).length

theorem prefix_of_rest (hrest : c.rest = (ps ++ qs).flatMap Piece.text) :
    ps.flatMap Piece.text <+: c.rest ∧ qs.flatMap Piece.text <+: (endOf c ps).rest := by
  rw [List.flatMap_append] at hrest
  refine ⟨⟨_, hrest.symm⟩, [], ?_⟩
  rw [endOf, Cursor.skip_rest, hrest, List.drop_left, List.append_nil]

theorem tokens_upto {coalesce : Bool} (hq : q.IsApart)
    (hrest : c.rest = (ps ++ q :: qs).flatMap Piece.text) :
    (tokens coalesce (layout c (ps ++ q :: qs))).filter
        (·.span.endsBy (some (endOf c ps).offset)) = tokens coalesce (layout c ps) := by
  have hapart : reachesLineEnd (layout (endOf c ps) (q :: qs)) = false := by
    simp [layout, reachesLineEnd, hq.1, hq.2]
  obtain ⟨hbefore, hafter⟩ := prefix_of_rest hrest
  rw [layout_append, ← endOf, (tokens_append hapart).1]
  apply filter_append_eq_left
  · intro t ht
    have hbounds := bounds_of_mem_tokens hbefore ht
    exact decide_eq_true hbounds.2.2
  · intro t ht
    have hbounds := bounds_of_mem_tokens hafter ht
    simp only [Span.endsBy, Option.all_some, decide_eq_true_eq]
    omega

theorem diagnostics_upto (hrest : c.rest = (ps ++ qs).flatMap Piece.text)
    (hopens : ∀ x ∈ layout c (ps ++ qs), x.piece.Opens o r x.place.rest x.stop.rest) :
    ((layout c (ps ++ qs)).flatMap diagnostics).filter
        (·.span.endsBy (some (endOf c ps).offset)) = (layout c ps).flatMap diagnostics := by
  rw [layout_append, ← endOf] at hopens ⊢
  obtain ⟨hopens, hmore⟩ := List.forall_mem_append.1 hopens
  obtain ⟨hbefore, hafter⟩ := prefix_of_rest hrest
  rw [List.flatMap_append]
  apply filter_append_eq_left
  · intro d hd
    obtain ⟨x, hx, hd⟩ := List.mem_flatMap.1 hd
    have hsite := bounds_of_mem_layout hbefore hx
    have hbounds := bounds_of_mem_diagnostics (hopens x hx) hd
    exact decide_eq_true (hbounds.2.2.trans hsite.2.2)
  · intro d hd
    obtain ⟨x, hx, hd⟩ := List.mem_flatMap.1 hd
    have hsite := bounds_of_mem_layout hafter hx
    have hbounds := bounds_of_mem_diagnostics (hmore x hx) hd
    simp only [Span.endsBy, Option.all_some, decide_eq_true_eq]
    omega

end Site

namespace TokenStream

variable {o : Options} {r : Recognizers} {ps qs : List Piece} {q : Piece}

theorem scan_upto (file text : String) (h : Piece.all o r text.toList = ps ++ q :: qs)
    (hq : q.IsApart) :
    let s := scan (.ofText file text o r)
    let c := Cursor.ofText file text.toList
    let bound := some (Site.endOf c ps).offset
    s.tokens.toList.filter (·.span.endsBy bound) = Site.tokens o.coalesce (Site.layout c ps) ∧
      s.diagnostics.filter (·.span.endsBy bound) =
        (Site.layout c ps).flatMap Site.diagnostics := by
  intro s c bound
  have hs : s = _ := scan_ofText file text o r
  have hrest : c.rest = (ps ++ q :: qs).flatMap Piece.text := by
    rw [← h, Piece.flatMap_text_all]
    rfl
  have hopens (x : Site) (hx : x ∈ Site.ofText file text.toList o r) :
      x.piece.Opens o r x.place.rest x.stop.rest := Site.opens_of_mem_layout hx
  rw [Site.ofText, h] at hs hopens
  refine ⟨?_, by rw [hs]; exact Site.diagnostics_upto hrest hopens⟩
  -- The end of the input stands behind `q`, which has a character at least.
  have hending : ¬ s.ending.span.endsBy bound := by
    have hsize := Text.size_pos q.text_ne_nil
    have htext : text.toList = ps.flatMap Piece.text ++ (q.text ++ qs.flatMap Piece.text) := by
      rw [← List.flatMap_cons, ← List.flatMap_append, ← hrest]
      rfl
    have htake : c.rest.take (ps.flatMap Piece.text).length = ps.flatMap Piece.text := by
      rw [hrest, List.flatMap_append, List.take_left]
    have hoffset : (Site.endOf c ps).offset = Text.size (ps.flatMap Piece.text) := by
      rw [Site.endOf, Cursor.skip_offset, htake]
      exact Nat.zero_add _
    simp only [bound, Span.endsBy, Option.all_some, decide_eq_true_eq, hoffset, hs, Span.emptyAt,
      htext, Text.size_append]
    omega
  rw [tokens, Array.toList_push, List.filter_append, List.filter_cons_of_neg (by simpa using hending),
    List.filter_nil, List.append_nil, hs]
  exact Site.tokens_upto hq hrest

theorem find?_diagnostics_eq_none (c : Cursor) (h : ∀ p ∈ ps, ¬ p.IsUnrecognized) :
    ((Site.layout c ps).flatMap Site.diagnostics).find? (·.cause == .unrecognizedCharacter) =
      none := by
  rw [List.find?_eq_none]
  intro d hd hcause
  obtain ⟨x, hx, hd⟩ := List.mem_flatMap.1 hd
  obtain ⟨f, hf, rfl⟩ := List.mem_map.1 hd
  exact h x.piece (Site.piece_mem_of_mem_layout hx) ⟨f, hf, eq_of_beq hcause⟩

theorem firstUnrecognized?_eq_some (file : String) {text : String} {d : Char}
    (h : Piece.all o r text.toList = ps ++ .rejectedOf d [] .unrecognizedCharacter :: qs)
    (hps : ∀ p ∈ ps, ¬ p.IsUnrecognized) :
    (scan (.ofText file text o r)).firstUnrecognized? =
      some (Site.endOf (.ofText file text.toList) ps).offset := by
  rw [scan_ofText, firstUnrecognized?, Site.ofText, h, Site.layout_append, List.flatMap_append,
    List.find?_append, find?_diagnostics_eq_none _ hps]
  rfl

theorem isMatch_of_mem_tokens {file text : String} {t : Token} {kind : ExternalKind}
    {payload : Payload} (ht : t ∈ Site.tokens o.coalesce (Site.ofText file text.toList o r))
    (hcontent : t.content = .external kind payload) :
    ∃ before c cs m, text.toList = before ++ c :: cs ∧ t.IsMatch o r before c cs m := by
  obtain ⟨x, hx, hsort, htoken⟩ := Site.exists_site_of_mem_tokens ht (by simp [hcontent])
  obtain ⟨before, after, hall, hplace⟩ := Site.exists_of_mem_layout hx
  obtain ⟨c, cs, hrest, hpiece⟩ := Piece.exists_next_of_all hall
  rw [hcontent, hpiece] at hsort
  obtain ⟨hblank, hcomment, hunclaimed, m, hm, rfl, rfl, htext⟩ :=
    Piece.exists_match_of_external hsort
  have hjoin := Piece.flatMap_text_all o r text.toList
  rw [hall, List.flatMap_append, hrest] at hjoin
  refine ⟨before.flatMap Piece.text, c, cs, m, hjoin.symm, hcontent, m.kind.code_ge, ?_,
    by simp [hblank], hcomment, hunclaimed, Recognizers.answers_of_recognize hm⟩
  have hoffset : x.place.offset = Text.size (before.flatMap Piece.text) := by
    rw [hplace, Cursor.skip_offset, Cursor.ofText, ← hjoin, List.take_left]
    exact Nat.zero_add _
  have hahead : x.place.rest = c :: cs := by
    rw [hplace, Cursor.skip_rest, Cursor.ofText, ← hjoin, List.drop_left]
  have hpre : (c :: cs).take x.piece.text.length = x.piece.text := by
    rw [← hrest, List.flatMap_cons, List.take_left]
  rw [htoken, Site.token, Site.span, Site.stop, Cursor.skip_offset, hahead, hpre, hpiece, htext,
    hoffset]

theorem scan_extends (file text : String) (o : Options) (r : Recognizers) :
    let s := scan (.ofText file text o r)
    s.Extends (scan (.ofText file text o .empty)) ∧
      ∀ t ∈ s.tokens, ∀ kind payload, t.content = .external kind payload →
        ∃ before c cs m, text.toList = before ++ c :: cs ∧ t.IsMatch o r before c cs m := by
  intro s
  constructor
  · rcases Piece.all_cases o r text.toList with
      ⟨hall, hclean⟩ | ⟨ps, d, qs, q, rs, hplain, hfull, hclean, hapart⟩
    · have hsame : scan (.ofText file text o r) = scan (.ofText file text o .empty) := by
        rw [scan_ofText, scan_ofText, Site.ofText, Site.ofText, hall]
      exact ⟨by rw [← hsame], by rw [← hsame], fun _ => hsame⟩
    · have hfirst := firstUnrecognized?_eq_some file hplain hclean
      obtain ⟨htokens, hdiagnostics⟩ := scan_upto file text hfull hapart
      obtain ⟨hplainTokens, hplainDiagnostics⟩ := scan_upto file text hplain ⟨rfl, rfl⟩
      constructor
      · rw [hfirst, htokens, hplainTokens]
      · rw [hfirst, hdiagnostics, hplainDiagnostics]
      · simp [hfirst]
  · intro t ht kind payload hcontent
    have hs : s = _ := scan_ofText file text o r
    rw [hs, tokens, Array.mem_push] at ht
    rcases ht with ht | rfl
    · exact isMatch_of_mem_tokens (List.mem_toArray.1 ht) hcontent
    · contradiction

end TokenStream

end Lexing
