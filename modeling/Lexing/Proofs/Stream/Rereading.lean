import Lexing.Proofs.Scan.Rereading
import Lexing.Proofs.Stream.Tokens

namespace Lexing

namespace Piece

def content? (p : Piece) : Option Content :=
  match p.sort with
  | .token content => some content
  | _ => none

theorem content?_eq_some {p : Piece} {content : Content} :
    p.content? = some content ↔ p.sort = .token content := by
  cases hs : p.sort <;> simp [content?, hs]

def lexemes (ps : List Piece) : List Piece := ps.filter (·.content?.isSome)

theorem rereads_of_mem_lexemes {o : Options} {text : List Char} {p : Piece}
    (hspace : o.comments.Avoids ' ') (hline : o.comments.Avoids '\n')
    (h : p ∈ lexemes (all o .empty text)) : p.Rereads o := by
  obtain ⟨hall, hp⟩ := List.mem_filter.1 h
  obtain ⟨content, hcontent⟩ := Option.isSome_iff_exists.1 hp
  obtain ⟨before, after, hsplit⟩ := List.append_of_mem hall
  obtain ⟨c, rest, -, rfl⟩ := exists_next_of_all hsplit
  exact rereads_next hspace hline (content?_eq_some.1 hcontent)

theorem contents_lexemes (ps : List Piece) : (lexemes ps).filterMap content? = ps.filterMap content? := by
  rw [lexemes, List.filterMap_filter]
  congr 1
  funext p
  cases p.content? <;> rfl

theorem contents_intersperse (ps : List Piece) :
    (ps.intersperse (.blankOf ' ' [])).filterMap content? = ps.filterMap content? := by
  induction ps with
  | nil => rfl
  | cons p ps ih =>
      cases ps with
      | nil => rfl
      | cons q qs =>
          have hblank : (blankOf ' ' []).content? = none := rfl
          rw [List.intersperse_cons_cons]
          cases hp : p.content? with
          | none =>
              rw [List.filterMap_cons_none hp, List.filterMap_cons_none hblank, ih,
                List.filterMap_cons_none hp]
          | some content =>
              rw [List.filterMap_cons_some hp, List.filterMap_cons_none hblank, ih,
                List.filterMap_cons_some hp]

theorem faults_intersperse {ps : List Piece} (h : ∀ p ∈ ps, p.faults = []) :
    ∀ p ∈ ps.intersperse (.blankOf ' ' []), p.faults = [] := by
  induction ps with
  | nil => simp
  | cons p ps ih =>
      obtain ⟨hp, hps⟩ := List.forall_mem_cons.1 h
      cases ps with
      | nil => simpa using hp
      | cons q qs =>
          rw [List.intersperse_cons_cons]
          exact List.forall_mem_cons.2 ⟨hp, List.forall_mem_cons.2 ⟨rfl, ih hps⟩⟩

end Piece

namespace Site

theorem tokens_plain (xs : List Site) :
    tokens false xs = xs.filterMap fun x => x.piece.content?.map x.token := by
  induction xs with
  | nil => rfl
  | cons x xs ih => cases hx : x.piece.sort <;> simp [tokens, Piece.content?, hx, ih]

theorem contents_tokens (c : Cursor) (ps : List Piece) :
    (tokens false (layout c ps)).map Token.content = ps.filterMap Piece.content? := by
  rw [tokens_plain, List.map_filterMap]
  have hpieces : ps.filterMap Piece.content? =
      ((layout c ps).map piece).filterMap Piece.content? := by rw [map_piece_layout]
  rw [hpieces, List.filterMap_map]
  congr 1
  funext x
  simp [Function.comp_def, token]

theorem slices_tokens {source : List Char} {xs : List Site}
    (h : ∀ x ∈ xs, x.span.slice source = x.piece.text) :
    (tokens false xs).map (fun t => t.span.slice source) =
      (Piece.lexemes (xs.map piece)).map Piece.text := by
  rw [tokens_plain]
  induction xs with
  | nil => rfl
  | cons x xs ih =>
      obtain ⟨hx, hxs⟩ := List.forall_mem_cons.1 h
      have hmore := ih hxs
      cases hcontent : x.piece.content? with
      | none => simpa [Piece.lexemes, hcontent] using hmore
      | some content => simpa [Piece.lexemes, hcontent, token, hx] using hmore

end Site

namespace TokenStream

def spaced (s : TokenStream) : String := " ".intercalate (s.body.toList.map s.lexeme)

theorem toList_spaced (file text : String) {o : Options} (hplain : o.coalesce = false) :
    (scan (.ofText file text o .empty)).spaced.toList =
      [' '].intercalate ((Piece.lexemes (Piece.all o .empty text.toList)).map Piece.text) := by
  have hslices := Site.slices_tokens fun x (hx : x ∈ Site.ofText file text.toList o .empty) =>
    Site.slice_span hx
  rw [Site.ofText, Site.map_piece_layout, ← Site.ofText] at hslices
  rw [spaced, String.toList_intercalate, scan_ofText, hplain, List.map_map, ← hslices]
  congr 1
  exact List.map_congr_left fun t _ => String.toList_ofList

theorem contents_scan (file text : String) {o : Options} {r : Recognizers}
    (hplain : o.coalesce = false) :
    (scan (.ofText file text o r)).body.toList.map Token.content =
      (Piece.all o r text.toList).filterMap Piece.content? := by
  rw [scan_ofText, hplain]
  exact Site.contents_tokens ..

theorem scan_spaced (file text : String) (o : Options) (hspace : o.comments.Avoids ' ')
    (hline : o.comments.Avoids '\n') (hplain : o.coalesce = false) :
    let s := scan (.ofText file text o .empty)
    let again := scan (.ofText file s.spaced o .empty)
    again.body.toList.map Token.content = s.body.toList.map Token.content ∧
      again.diagnostics = [] := by
  intro s again
  have hrereads (p : Piece) (hp : p ∈ Piece.lexemes (Piece.all o .empty text.toList)) :
      p.Rereads o := Piece.rereads_of_mem_lexemes hspace hline hp
  have hpieces : Piece.all o .empty s.spaced.toList =
      (Piece.lexemes (Piece.all o .empty text.toList)).intersperse (.blankOf ' ' []) := by
    rw [toList_spaced file text hplain, Piece.all_intercalate hrereads]
  constructor
  · rw [contents_scan file s.spaced hplain, contents_scan file text hplain, hpieces,
      Piece.contents_intersperse, Piece.contents_lexemes]
  · have hagain : again = _ := scan_ofText file s.spaced o .empty
    have hfaults := Piece.faults_intersperse fun p hp => (hrereads p hp).faults_eq
    rw [hagain, List.flatMap_eq_nil_iff]
    intro x hx
    rw [Site.ofText, hpieces] at hx
    rw [Site.diagnostics, hfaults _ (Site.piece_mem_of_mem_layout hx)]
    rfl

theorem scan_spaced_slashes :
    (Comments.mk ["//"] none).Avoids ' ' ∧ (Comments.mk ["//"] none).Avoids '\n' ∧
      let s := scan (.ofText "d" "1..2 // b\n\"c\nif" ⟨false, ⟨["//"], none⟩, 9, 9, 9⟩ .empty)
      let again := scan (.ofText "d" s.spaced ⟨false, ⟨["//"], none⟩, 9, 9, 9⟩ .empty)
      again.body.toList.map Token.content = s.body.toList.map Token.content ∧
        again.diagnostics = [] :=
  ⟨by decide, by decide, scan_spaced _ _ _ (by decide) (by decide) rfl⟩

end TokenStream

end Lexing
