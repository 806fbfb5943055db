import Lexing.Proofs.Scan.Lookahead
import Lexing.Proofs.Stream.Places
import Lexing.Proofs.Stream.Returns

namespace Lexing

def Text.AgreeUpTo (n : Nat) (cs ds : List Char) : Prop :=
  ∃ common, common <+: cs ∧ common <+: ds ∧ size common = n

theorem Cursor.offset_skip {c : Cursor} {text : List Char} (h : text <+: c.rest) :
    (c.skip text.length).offset = c.offset + Text.size text := by
  rw [skip_offset, ← List.prefix_iff_eq_take.1 h]

structure Cursor.Meets (c d : Cursor) : Prop where
  position_eq : c.position = d.position
  offset_eq : c.offset = d.offset

theorem Cursor.Meets.skip {c d : Cursor} {text : List Char} (h : c.Meets d) (hc : text <+: c.rest)
    (hd : text <+: d.rest) : (c.skip text.length).Meets (d.skip text.length) := by
  have hplace := h.position_eq
  rw [position, position, Position.mk.injEq] at hplace
  constructor
  · rw [position_skip hc, position_skip hd, hplace.1, hplace.2]
  · rw [offset_skip hc, offset_skip hd, h.offset_eq]

theorem Cursor.Meets.ofFault_eq {c d : Cursor} (h : c.Meets d) (f : Fault) :
    Diagnostic.ofFault c f = Diagnostic.ofFault d f := by
  have hplace := h.position_eq
  rw [position, position, Position.mk.injEq] at hplace
  simp only [Diagnostic.ofFault, hplace.1, hplace.2, h.offset_eq]

namespace TokenStream

def tokensBefore (bytes n : Nat) (ts : List Token) : List Token :=
  ts.filter fun t => t.span.stop + bytes ≤ n

def diagnosticsBefore (bytes n : Nat) (ds : List Diagnostic) : List Diagnostic :=
  ds.filter fun d => d.span.stop + bytes ≤ n

end TokenStream

open TokenStream

namespace Site

variable {bytes n : Nat} {c d : Cursor} {ps qs : List Piece} {x : Site} {xs ys : List Site}
  {text : List Char}

theorem span_of_mem_tokens {t : Token} (h : t ∈ tokens false xs) : ∃ x ∈ xs, t.span = x.span := by
  induction xs with
  | nil => simp [tokens] at h
  | cons x xs ih =>
      have later (h : t ∈ tokens false xs) : ∃ y ∈ x :: xs, t.span = y.span := by
        obtain ⟨y, hy, hspan⟩ := ih h
        exact ⟨y, List.mem_cons_of_mem x hy, hspan⟩
      cases hsort : x.piece.sort with
      | token content =>
          rw [tokens_cons_token hsort fun _ h => absurd h Bool.false_ne_true] at h
          rcases List.mem_cons.1 h with rfl | h
          · exact ⟨x, List.mem_cons_self, rfl⟩
          · exact later h
      | _ => exact later (tokens_cons_skipped (by rw [hsort]; rfl) ▸ h)

theorem tokensBefore_eq_nil (h : ∀ x ∈ xs, n < x.place.offset + bytes) :
    tokensBefore bytes n (tokens false xs) = [] := by
  refine filter_le_eq_nil fun t ht => ?_
  obtain ⟨x, hx, hspan⟩ := span_of_mem_tokens ht
  have hlate := h x hx
  have hle : x.place.offset ≤ x.span.stop := Cursor.le_skip_offset ..
  rw [hspan]
  omega

theorem diagnosticsBefore_eq_nil (h : ∀ x ∈ xs, n < x.place.offset + bytes) :
    diagnosticsBefore bytes n (xs.flatMap diagnostics) = [] := by
  refine filter_le_eq_nil fun e he => ?_
  obtain ⟨x, hx, he⟩ := List.mem_flatMap.1 he
  obtain ⟨f, -, rfl⟩ := List.mem_map.1 he
  have hlate := h x hx
  rw [Diagnostic.ofFault]
  dsimp only
  omega

inductive AllUpTo (bytes n : Nat) : List Site → List Site → Prop
  | done {xs ys : List Site} : (∀ x ∈ xs, n < x.place.offset + bytes) →
      (∀ y ∈ ys, n < y.place.offset + bytes) → AllUpTo bytes n xs ys
  | late {x y : Site} {xs ys : List Site} : n < x.stop.offset + bytes → n < y.stop.offset + bytes →
      diagnosticsBefore bytes n x.diagnostics = diagnosticsBefore bytes n y.diagnostics →
      AllUpTo bytes n xs ys → AllUpTo bytes n (x :: xs) (y :: ys)
  | same {x y : Site} {xs ys : List Site} : x.place.Meets y.place → x.stop.Meets y.stop →
      x.piece = y.piece → AllUpTo bytes n xs ys → AllUpTo bytes n (x :: xs) (y :: ys)

theorem tokensBefore_cons_of_late (h : n < x.stop.offset + bytes) (xs : List Site) :
    tokensBefore bytes n (tokens false (x :: xs)) = tokensBefore bytes n (tokens false xs) := by
  cases hsort : x.piece.sort with
  | token content =>
      rw [tokens_cons_token hsort fun _ h => absurd h Bool.false_ne_true]
      refine List.filter_cons_of_neg ?_
      rw [decide_eq_true_eq, token, span]
      dsimp only
      omega
  | _ => rw [tokens_cons_skipped (by rw [hsort]; rfl)]

theorem AllUpTo.tokensBefore_eq (h : AllUpTo bytes n xs ys) :
    tokensBefore bytes n (tokens false xs) = tokensBefore bytes n (tokens false ys) := by
  induction h with
  | done hxs hys => rw [tokensBefore_eq_nil hxs, tokensBefore_eq_nil hys]
  | late hx hy _ _ ih => rw [tokensBefore_cons_of_late hx, tokensBefore_cons_of_late hy, ih]
  | @same x y xs ys hplace hstop hpiece _ ih =>
      cases hsort : y.piece.sort with
      | token content =>
          have htoken : x.token content = y.token content := by
            rw [token, token, span, span, hplace.position_eq, hplace.offset_eq, hstop.offset_eq]
          rw [tokens_cons_token (hpiece ▸ hsort) fun _ h => absurd h Bool.false_ne_true,
            tokens_cons_token hsort fun _ h => absurd h Bool.false_ne_true, htoken, tokensBefore,
            tokensBefore, List.filter_cons, List.filter_cons]
          simp only [tokensBefore] at ih
          rw [ih]
      | _ =>
          rw [tokens_cons_skipped (by rw [hpiece, hsort]; rfl),
            tokens_cons_skipped (by rw [hsort]; rfl), ih]

theorem AllUpTo.diagnosticsBefore_eq (h : AllUpTo bytes n xs ys) :
    diagnosticsBefore bytes n (xs.flatMap diagnostics) =
      diagnosticsBefore bytes n (ys.flatMap diagnostics) := by
  have hcons (x : Site) (xs : List Site) :
      diagnosticsBefore bytes n ((x :: xs).flatMap diagnostics) =
        diagnosticsBefore bytes n x.diagnostics ++
          diagnosticsBefore bytes n (xs.flatMap diagnostics) := List.filter_append ..
  induction h with
  | done hxs hys => rw [diagnosticsBefore_eq_nil hxs, diagnosticsBefore_eq_nil hys]
  | late _ _ hdiagnostics _ ih => rw [hcons, hcons, hdiagnostics, ih]
  | @same x y _ _ hplace _ hpiece _ ih =>
      have hdiagnostics : x.diagnostics = y.diagnostics := by
        rw [diagnostics, diagnostics, hpiece]
        exact List.map_congr_left fun f _ => hplace.ofFault_eq f
      rw [hcons, hcons, hdiagnostics, ih]

theorem diagnosticsBefore_diagnostics (c : Cursor) (p : Piece) (text : List Char) :
    diagnosticsBefore bytes (c.offset + Text.size text) (diagnostics ⟨c, p⟩) =
      (p.settled bytes text).map (Diagnostic.ofFault c) := by
  rw [diagnosticsBefore, diagnostics, List.filter_map, Piece.settled]
  congr 1
  refine List.filter_congr fun f _ => ?_
  rw [Function.comp_apply, Diagnostic.ofFault, Fault.stop, decide_eq_decide]
  dsimp only
  omega

theorem lt_of_mem_layout (hlate : n < c.offset + bytes) (hx : x ∈ layout c ps) :
    n < x.place.offset + bytes := by
  obtain ⟨before, after, -, hplace⟩ := exists_of_mem_layout hx
  have hle := c.le_skip_offset (before.flatMap Piece.text).length
  rw [hplace]
  omega

theorem allUpTo_layout (hbytes : 0 < bytes) (h : Piece.AllUpTo bytes text ps qs)
    (hplace : c.Meets d) (hps : ps.flatMap Piece.text <+: c.rest)
    (hqs : qs.flatMap Piece.text <+: d.rest) :
    AllUpTo bytes (c.offset + Text.size text) (layout c ps) (layout d qs) := by
  induction h generalizing c d with
  | done qs =>
      have hoffset := hplace.offset_eq
      refine .done (fun x hx => lt_of_mem_layout ?_ hx) fun y hy => lt_of_mem_layout ?_ hy
      all_goals
        rw [Text.size_nil]
        omega
  | @late text p q ps qs hlate =>
      have hoffset := hplace.offset_eq
      have hp : (stop ⟨c, p⟩).offset = c.offset + Text.size p.text :=
        Cursor.offset_skip ((List.prefix_append ..).trans hps)
      have hq : (stop ⟨d, q⟩).offset = d.offset + Text.size q.text :=
        Cursor.offset_skip ((List.prefix_append ..).trans hqs)
      have hleft := hlate.left
      have hright := hlate.right
      refine .late (by omega) (by omega) ?_
        (.done (fun x hx => lt_of_mem_layout ?_ hx) fun y hy => lt_of_mem_layout ?_ hy)
      · rw [diagnosticsBefore_diagnostics, hoffset, diagnosticsBefore_diagnostics, hlate.settled_eq]
        exact List.map_congr_left fun f _ => hplace.ofFault_eq f
      · exact hp ▸ by omega
      · exact hq ▸ by omega
  | same p _ ih =>
      have hp := (List.prefix_append ..).trans hps
      have hq := (List.prefix_append ..).trans hqs
      have hskip := hplace.skip hp hq
      have hmore := ih hskip (Cursor.prefix_skip hps) (Cursor.prefix_skip hqs)
      rw [Cursor.offset_skip hp] at hmore
      rw [Text.size_append, ← Nat.add_assoc]
      exact .same hplace hskip rfl hmore

theorem allUpTo_ofText (file : String) {common text : List Char} (o : Options)
    (h : common <+: text) :
    AllUpTo o.comments.lookahead (Text.size common) (ofText file common o .empty)
      (ofText file text o .empty) := by
  have hbytes := o.comments.three_le_lookahead
  obtain ⟨rest, rfl⟩ := h
  have hplace : (Cursor.ofText file common).Meets (.ofText file (common ++ rest)) := ⟨rfl, rfl⟩
  rw [← Nat.zero_add (Text.size common)]
  refine allUpTo_layout (by omega) (Piece.allUpTo_append o common rest) hplace ?_ ?_
  · rw [Piece.flatMap_text_all]
    exact List.prefix_rfl
  · rw [Piece.flatMap_text_all]
    exact List.prefix_rfl

end Site

namespace TokenStream

structure SameBefore (bytes n : Nat) (s t : TokenStream) : Prop where
  tokens_eq : tokensBefore bytes n s.tokens.toList = tokensBefore bytes n t.tokens.toList
  diagnostics_eq : diagnosticsBefore bytes n s.diagnostics = diagnosticsBefore bytes n t.diagnostics

theorem tokensBefore_tokens {bytes n : Nat} {s : TokenStream} (h : n < s.ending.span.stop + bytes) :
    tokensBefore bytes n s.tokens.toList = tokensBefore bytes n s.body.toList := by
  have hending : [s.ending].filter (fun t => t.span.stop + bytes ≤ n) = [] :=
    filter_le_eq_nil fun t ht => by rwa [List.mem_singleton.1 ht]
  rw [toList_tokens, tokensBefore, List.filter_append, hending, List.append_nil]
  rfl

theorem sameBefore_common (file : String) {text : String} {common : List Char} {o : Options}
    (hcoalesce : o.coalesce = false) (h : common <+: text.toList) :
    SameBefore o.comments.lookahead (Text.size common)
      (scan (.ofText file (String.ofList common) o .empty))
      (scan (.ofText file text o .empty)) := by
  have hbytes := o.comments.three_le_lookahead
  have hle := Text.size_mono h
  have hshort := scan_ofText file (String.ofList common) o .empty
  have hlong := scan_ofText file text o .empty
  rw [String.toList_ofList, hcoalesce] at hshort
  rw [hcoalesce] at hlong
  have hsites := Site.allUpTo_ofText file o h
  constructor
  · rw [tokensBefore_tokens, tokensBefore_tokens]
    · rw [hshort, hlong]
      exact hsites.tokensBefore_eq
    · rw [hlong, Span.emptyAt]
      dsimp only
      omega
    · rw [hshort, Span.emptyAt]
      dsimp only
      omega
  · rw [hshort, hlong]
    exact hsites.diagnosticsBefore_eq

theorem scan_sameBefore (file : String) {a b : String} {o : Options} {n : Nat}
    (hcoalesce : o.coalesce = false) (h : Text.AgreeUpTo n a.toList b.toList) :
    SameBefore o.comments.lookahead n (scan (.ofText file a o .empty))
      (scan (.ofText file b o .empty)) := by
  obtain ⟨common, ha, hb, rfl⟩ := h
  have hfirst := sameBefore_common file hcoalesce ha
  have hsecond := sameBefore_common file hcoalesce hb
  exact ⟨hfirst.tokens_eq.symm.trans hsecond.tokens_eq,
    hfirst.diagnostics_eq.symm.trans hsecond.diagnostics_eq⟩

theorem scan_sameBefore_words :
    Text.AgreeUpTo 7 "var ab = 1".toList "var ab 'c".toList ∧
      SameBefore (Comments.lookahead ⟨["//"], some ("/*", "*/")⟩) 7
        (scan (.ofText "d" "var ab = 1" ⟨false, ⟨["//"], some ("/*", "*/")⟩, 9, 9, 9⟩ .empty))
        (scan (.ofText "d" "var ab 'c" ⟨false, ⟨["//"], some ("/*", "*/")⟩, 9, 9, 9⟩ .empty)) :=
  have h : Text.AgreeUpTo 7 "var ab = 1".toList "var ab 'c".toList :=
    ⟨"var ab ".toList, by decide, by decide, by decide⟩
  ⟨h, scan_sameBefore (o := ⟨false, ⟨["//"], some ("/*", "*/")⟩, 9, 9, 9⟩) "d" rfl h⟩

end TokenStream

end Lexing
