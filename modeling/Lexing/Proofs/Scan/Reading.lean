import Lexing.Proofs.Scan.Pieces
import Lexing.Scan.Scanner

namespace Lexing

theorem Lexeme.isTrivia_next (o : Options) (r : Recognizers) (c : Char) (cs : List Char) :
    (next o r c cs).sort.isTrivia = false := by
  unfold next NumberLiteral.next NumberLiteral.finish Quotation.next Word.next ofRecognition
  repeat' first
    | rfl
    | dsimp only
    | split

theorem Lexeme.isNewline_next {o : Options} {r : Recognizers} {c : Char} {cs : List Char}
    (h : c ≠ '\n') : (next o r c cs).sort.isNewline = false := by
  unfold next NumberLiteral.next NumberLiteral.finish Quotation.next Word.next Word.content
    ofRecognition
  rw [if_neg h]
  repeat' first
    | rfl
    | dsimp only
    | split

namespace Scanner

def ahead (s : Scanner) : List Piece := Piece.all s.options s.recognizers s.cursor.rest

def passAll (s : Scanner) (ps : List Piece) : Scanner := ps.foldl pass s

@[simp]
theorem passAll_nil (s : Scanner) : s.passAll [] = s := rfl

@[simp]
theorem passAll_cons (s : Scanner) (p : Piece) (ps : List Piece) :
    s.passAll (p :: ps) = (s.pass p).passAll ps := rfl

theorem passAll_append (s : Scanner) (ps qs : List Piece) :
    s.passAll (ps ++ qs) = (s.passAll ps).passAll qs := by
  simp [passAll, List.foldl_append]

@[simp]
theorem pass_options (s : Scanner) (p : Piece) : (s.pass p).options = s.options := rfl

@[simp]
theorem pass_recognizers (s : Scanner) (p : Piece) : (s.pass p).recognizers = s.recognizers := rfl

@[simp]
theorem passAll_options (s : Scanner) (ps : List Piece) : (s.passAll ps).options = s.options := by
  induction ps generalizing s with
  | nil => rfl
  | cons p ps ih => rw [passAll_cons, ih, pass_options]

@[simp]
theorem passAll_recognizers (s : Scanner) (ps : List Piece) :
    (s.passAll ps).recognizers = s.recognizers := by
  induction ps generalizing s with
  | nil => rfl
  | cons p ps ih => rw [passAll_cons, ih, pass_recognizers]

theorem passAll_cursor (s : Scanner) (ps : List Piece) :
    (s.passAll ps).cursor = s.cursor.skip (ps.flatMap Piece.text).length := by
  induction ps generalizing s with
  | nil => simp
  | cons p ps ih =>
      rw [passAll_cons, ih, List.flatMap_cons, List.length_append, ← Cursor.skip_skip]
      rfl

theorem flatMap_text_ahead (s : Scanner) : s.ahead.flatMap Piece.text = s.cursor.rest :=
  Piece.flatMap_text_all _ _ _

theorem ahead_eq_nil {s : Scanner} : s.ahead = [] ↔ s.cursor.rest = [] := by
  constructor
  · intro h
    rw [← flatMap_text_ahead, h]
    rfl
  · intro h
    simp [ahead, h]

theorem ahead_passAll {s : Scanner} {ps qs : List Piece} (h : s.ahead = ps ++ qs) :
    (s.passAll ps).ahead = qs := by
  have hrest := s.flatMap_text_ahead
  rw [h, List.flatMap_append] at hrest
  unfold ahead
  rw [passAll_options, passAll_recognizers, passAll_cursor, Cursor.skip_rest, ← hrest,
    List.drop_left]
  exact Piece.all_flatMap_text h

theorem ahead_pass {s : Scanner} {p : Piece} {ps : List Piece} (h : s.ahead = p :: ps) :
    (s.pass p).ahead = ps :=
  ahead_passAll (show s.ahead = [p] ++ ps from h)

theorem ahead_of_rest {s : Scanner} {c : Char} {cs : List Char} (h : s.cursor.rest = c :: cs) :
    ∃ ps, s.ahead = Piece.next s.options s.recognizers c cs :: ps := by
  unfold ahead
  rw [h, Piece.all_cons]
  exact ⟨_, rfl⟩

theorem skipTrivia_eq (s : Scanner) :
    s.skipTrivia = s.passAll (s.ahead.takeWhile (·.sort.isTrivia)) := by
  fun_induction skipTrivia s with
  | case1 s h => simp [ahead, h]
  | case2 s c cs h hnone =>
      obtain ⟨ps, hps⟩ := ahead_of_rest h
      have hp : (Piece.next s.options s.recognizers c cs).sort.isTrivia = false := by
        rw [Piece.next, hnone]
        exact Lexeme.isTrivia_next _ _ _ _
      simp [hps, hp]
  | case3 s c cs h p hsome ih =>
      obtain ⟨ps, hps⟩ := ahead_of_rest h
      have hp : Piece.next s.options s.recognizers c cs = p := by rw [Piece.next, hsome]; rfl
      rw [hp] at hps
      have ht := Trivia.isTrivia_of_next? hsome
      rw [ih, ahead_pass hps, hps]
      simp [ht]

end Scanner

def PieceSort.isSkipped : PieceSort → Bool
  | .token _ => false
  | _ => true

theorem PieceSort.isSkipped_of_isTrivia {s : PieceSort} (h : s.isTrivia) : s.isSkipped := by
  cases s <;> simp_all [isTrivia, isSkipped]

structure Reading where
  skipped : List Piece
  content : Content
  lexeme : List Piece
  trailing : List Piece

namespace Reading

def lineEnds : List Piece → List Piece
  | [] => []
  | p :: ps =>
      if p.sort.isNewline then p :: lineEnds ps
      else if p.sort.isTrivia && !(lineEnds ps).isEmpty then p :: lineEnds ps
      else []

def pieces (x : Reading) : List Piece := x.skipped ++ x.lexeme ++ x.trailing

def behind (ps : List Piece) (x : Reading) : Reading := { x with skipped := ps ++ x.skipped }

def ofPieces (coalesce : Bool) : List Piece → Reading
  | [] => ⟨[], .endOfInput, [], []⟩
  | p :: ps =>
      match p.sort with
      | .token .newline =>
          if coalesce then
            let more := lineEnds ps
            ⟨[], .newline, p :: more, (ps.drop more.length).takeWhile (·.sort.isTrivia)⟩
          else
            ⟨[], .newline, [p], []⟩
      | .token content => ⟨[], content, [p], []⟩
      | _ => (ofPieces coalesce ps).behind [p]

def token (x : Reading) (c : Cursor) : Token :=
  let start := c.skip (x.skipped.flatMap Piece.text).length
  let stop := start.skip (x.lexeme.flatMap Piece.text).length
  ⟨x.content, start.position, ⟨start.offset, stop.offset⟩⟩

theorem prefix_lineEnds (ps : List Piece) : lineEnds ps <+: ps := by
  induction ps with
  | nil => exact List.prefix_rfl
  | cons p ps ih =>
      simp only [lineEnds]
      split
      · exact (List.prefix_cons_inj p).2 ih
      · split
        · exact (List.prefix_cons_inj p).2 ih
        · exact List.nil_prefix

theorem lineEnds_append_drop (ps : List Piece) :
    lineEnds ps ++ ps.drop (lineEnds ps).length = ps :=
  List.prefix_iff_eq_append.1 (prefix_lineEnds ps)

theorem isNewline_of_isTrivia {p : Piece} (h : p.sort.isTrivia) : p.sort.isNewline = false := by
  cases hs : p.sort <;> simp_all [PieceSort.isTrivia, PieceSort.isNewline]

theorem lineEnds_append {ps qs : List Piece} (h : ∀ p ∈ ps, p.sort.isTrivia)
    (hq : lineEnds qs ≠ []) : lineEnds (ps ++ qs) = ps ++ lineEnds qs := by
  induction ps with
  | nil => rfl
  | cons p ps ih =>
      obtain ⟨hp, hps⟩ := List.forall_mem_cons.1 h
      simp [lineEnds, isNewline_of_isTrivia hp, hp, ih hps, hq]

theorem lineEnds_append_eq_nil {ps qs : List Piece} (h : ∀ p ∈ ps, p.sort.isTrivia)
    (hq : lineEnds qs = []) : lineEnds (ps ++ qs) = [] := by
  induction ps with
  | nil => exact hq
  | cons p ps ih =>
      obtain ⟨hp, hps⟩ := List.forall_mem_cons.1 h
      simp [lineEnds, isNewline_of_isTrivia hp, ih hps]

theorem prefix_pieces_ofPieces (coalesce : Bool) (ps : List Piece) :
    (ofPieces coalesce ps).pieces <+: ps := by
  induction ps with
  | nil => exact List.prefix_rfl
  | cons p ps ih =>
      unfold ofPieces
      split
      · split
        · have htake : (ps.drop (lineEnds ps).length).takeWhile (·.sort.isTrivia) <+:
              ps.drop (lineEnds ps).length := List.takeWhile_prefix _
          have hpre := (List.prefix_append_right_inj (lineEnds ps)).2
            htake
          rw [lineEnds_append_drop] at hpre
          simpa [pieces] using hpre
        · exact ⟨ps, rfl⟩
      · exact ⟨ps, rfl⟩
      · simpa [pieces, behind] using ih

theorem ofPieces_cons_skipped {coalesce : Bool} {p : Piece} {ps : List Piece}
    (h : p.sort.isSkipped) : ofPieces coalesce (p :: ps) = (ofPieces coalesce ps).behind [p] := by
  cases hs : p.sort <;> simp_all [PieceSort.isSkipped, ofPieces]

theorem ofPieces_append {coalesce : Bool} {ps qs : List Piece} (h : ∀ p ∈ ps, p.sort.isSkipped) :
    ofPieces coalesce (ps ++ qs) = (ofPieces coalesce qs).behind ps := by
  induction ps with
  | nil => rfl
  | cons p ps ih =>
      obtain ⟨hp, hps⟩ := List.forall_mem_cons.1 h
      rw [List.cons_append, ofPieces_cons_skipped hp, ih hps]
      rfl

theorem ofPieces_cons_token {coalesce : Bool} {p : Piece} {ps : List Piece} {content : Content}
    (h : p.sort = .token content) (hn : content = .newline → coalesce = false) :
    ofPieces coalesce (p :: ps) = ⟨[], content, [p], []⟩ := by
  by_cases hc : content = .newline
  · simp [ofPieces, h, hc, hn hc]
  · unfold ofPieces
    split <;> simp_all

theorem ofPieces_cons_newline {p : Piece} {ps : List Piece} (h : p.sort = .token .newline) :
    ofPieces true (p :: ps) = ⟨[], .newline, p :: lineEnds ps,
      (ps.drop (lineEnds ps).length).takeWhile (·.sort.isTrivia)⟩ := by
  simp [ofPieces, h]

@[simp]
theorem pieces_behind (ps : List Piece) (x : Reading) : (x.behind ps).pieces = ps ++ x.pieces := by
  simp [pieces, behind]

theorem token_behind (ps : List Piece) (x : Reading) (c : Cursor) :
    (x.behind ps).token c = x.token (c.skip (ps.flatMap Piece.text).length) := by
  simp only [token, behind, List.flatMap_append, List.length_append, Cursor.skip_skip]

end Reading

namespace Scanner

theorem exists_ahead_eq (s : Scanner) :
    ∃ ts, s.ahead = ts ++ s.skipTrivia.ahead ∧ (∀ p ∈ ts, p.sort.isTrivia) ∧
      s.skipTrivia = s.passAll ts ∧
      ∀ p, s.skipTrivia.ahead.head? = some p → p.sort.isTrivia = false := by
  have hsplit := (List.takeWhile_append_dropWhile (p := fun p : Piece => p.sort.isTrivia)
    (l := s.ahead)).symm
  have hafter : s.skipTrivia.ahead = s.ahead.dropWhile (·.sort.isTrivia) := by
    rw [skipTrivia_eq]
    exact ahead_passAll hsplit
  refine ⟨s.ahead.takeWhile (·.sort.isTrivia), by rw [hafter]; exact hsplit, ?_,
    skipTrivia_eq s, ?_⟩
  · intro p hp
    have htrivia := List.mem_takeWhile_imp hp
    exact htrivia
  intro p hp
  have hnot := List.head?_dropWhile_not (fun p : Piece => p.sort.isTrivia) s.ahead
  rw [← hafter, hp] at hnot
  exact hnot

theorem ahead_skipTrivia_of_rest {s : Scanner} {c : Char} {cs : List Char}
    (h : s.skipTrivia.cursor.rest = c :: cs) :
    ∃ ps, s.skipTrivia.ahead =
      Lexeme.next s.skipTrivia.options s.skipTrivia.recognizers c cs :: ps := by
  obtain ⟨ps, hps⟩ := ahead_of_rest h
  obtain ⟨ts, -, -, -, hnot⟩ := s.exists_ahead_eq
  cases ht : Trivia.next? s.skipTrivia.options c cs with
  | none =>
      rw [Piece.next, ht] at hps
      exact ⟨ps, hps⟩
  | some p =>
      rw [Piece.next, ht] at hps
      have hp := hnot p (by rw [hps]; rfl)
      rw [Trivia.isTrivia_of_next? ht] at hp
      contradiction

theorem pass_newline (s : Scanner) :
    s.pass (.tokenOf '\n' [] .newline) = { s with cursor := s.cursor.skip 1 } := by
  simp [pass, Piece.tokenOf]

theorem skipLineEnds_eq (s : Scanner) (stop : Nat) :
    s.skipLineEnds stop =
      (if Reading.lineEnds s.ahead = [] then stop
        else (s.passAll (Reading.lineEnds s.ahead)).cursor.offset,
        s.passAll (Reading.lineEnds s.ahead ++
          (s.ahead.drop (Reading.lineEnds s.ahead).length).takeWhile (·.sort.isTrivia))) := by
  fun_induction skipLineEnds s stop with
  | case1 s stop ready cs h passed ih =>
      obtain ⟨ts, hahead, hts, hskip, -⟩ := s.exists_ahead_eq
      obtain ⟨ps, hps⟩ := ahead_skipTrivia_of_rest h
      rw [Lexeme.next_newline] at hps
      have hpassed : passed = (s.passAll ts).pass (.tokenOf '\n' [] .newline) := by
        rw [← hskip, pass_newline]
      have hmore : passed.ahead = ps := by
        rw [hpassed, ← hskip]
        exact ahead_pass hps
      have hends : Reading.lineEnds (ts ++ .tokenOf '\n' [] .newline :: ps) =
          ts ++ .tokenOf '\n' [] .newline :: Reading.lineEnds ps :=
        Reading.lineEnds_append hts (by simp [Reading.lineEnds, Piece.tokenOf, PieceSort.isNewline])
      have hdrop : (ts ++ .tokenOf '\n' [] .newline :: ps).drop
          (ts ++ .tokenOf '\n' [] .newline :: Reading.lineEnds ps).length =
          ps.drop (Reading.lineEnds ps).length := by
        rw [List.length_append, List.length_cons, ← List.drop_drop, List.drop_left,
          List.drop_succ_cons]
      rw [hps] at hahead
      rw [ih, hmore, hahead, hends, hdrop]
      simp only [passAll_append, passAll_cons, ← hpassed]
      by_cases hnil : Reading.lineEnds ps = [] <;> simp [hnil]
  | case2 s stop ready h =>
      obtain ⟨ts, hahead, hts, hskip, hnot⟩ := s.exists_ahead_eq
      have hnil : Reading.lineEnds s.skipTrivia.ahead = [] := by
        cases hrest : ready.cursor.rest with
        | nil => rw [ahead_eq_nil.2 hrest]; rfl
        | cons c cs =>
            obtain ⟨ps, hps⟩ := ahead_skipTrivia_of_rest hrest
            have hc : c ≠ '\n' := by
              rintro rfl
              exact h cs hrest
            rw [hps]
            simp [Reading.lineEnds, Lexeme.isNewline_next hc, Lexeme.isTrivia_next]
      have hends := Reading.lineEnds_append_eq_nil hts hnil
      rw [← hahead] at hends
      simp [hends, ready, ← skipTrivia_eq]

def reading (s : Scanner) : Reading := .ofPieces s.options.coalesce s.ahead

def read (s : Scanner) : Token × Scanner := (s.reading.token s.cursor, s.passAll s.reading.pieces)

theorem read_passAll {s : Scanner} {ps qs : List Piece} (h : s.ahead = ps ++ qs)
    (hps : ∀ p ∈ ps, p.sort.isSkipped) : (s.passAll ps).read = s.read := by
  have hreading : s.reading = (s.passAll ps).reading.behind ps := by
    rw [reading, reading, h, Reading.ofPieces_append hps, ahead_passAll h, passAll_options]
  rw [read, read, hreading, Reading.token_behind, Reading.pieces_behind, passAll_append,
    passAll_cursor]

theorem read_skipTrivia (s : Scanner) : s.skipTrivia.read = s.read := by
  obtain ⟨ts, hahead, hts, hskip, -⟩ := s.exists_ahead_eq
  rw [hskip]
  exact read_passAll hahead fun p hp => PieceSort.isSkipped_of_isTrivia (hts p hp)

theorem reading_of_token {s : Scanner} {p : Piece} {ps : List Piece} {content : Content}
    (h : s.ahead = p :: ps) (hp : p.sort = .token content)
    (hn : content = .newline → s.options.coalesce = false) :
    s.read = (⟨content, s.cursor.position, ⟨s.cursor.offset, (s.pass p).cursor.offset⟩⟩,
      s.pass p) := by
  rw [read, reading, h, Reading.ofPieces_cons_token hp hn]
  simp [Reading.token, Reading.pieces, pass]

theorem next_eq (s : Scanner) : s.next = s.read := by
  fun_induction next s with
  | case1 s ready position start h =>
      rw [← read_skipTrivia, read, reading, ahead_eq_nil.2 h]
      simp [Reading.ofPieces, Reading.token, Reading.pieces, Span.emptyAt, ready, position, start]
  | case2 s ready position start c cs h p passed hp hco stop after he =>
      obtain ⟨ps, hps⟩ := ahead_skipTrivia_of_rest h
      rw [skipLineEnds_eq, ahead_pass hps] at he
      rw [← read_skipTrivia, read, reading, hco, hps, Reading.ofPieces_cons_newline hp]
      obtain ⟨rfl, rfl⟩ := Prod.mk.inj he
      have hstop : (if Reading.lineEnds ps = [] then passed.cursor.offset
          else (passed.passAll (Reading.lineEnds ps)).cursor.offset) =
          ((ready.passAll (p :: Reading.lineEnds ps)).cursor).offset := by
        split
        · next hnil => rw [hnil]; rfl
        · rfl
      rw [hstop, passAll_cursor]
      simp [Reading.token, Reading.pieces, passed, ready, position, start]
  | case3 s ready position start c cs h p passed hp hco =>
      obtain ⟨ps, hps⟩ := ahead_skipTrivia_of_rest h
      rw [← read_skipTrivia, reading_of_token hps hp fun _ => by simpa using hco]
  | case4 s ready position start c cs h p passed content hn hp =>
      obtain ⟨ps, hps⟩ := ahead_skipTrivia_of_rest h
      rw [← read_skipTrivia, reading_of_token hps hp fun hc => absurd hc hn]
  | case5 s ready c cs h p passed hp hq ih =>
      obtain ⟨ps, hps⟩ := ahead_skipTrivia_of_rest h
      have hskipped : p.sort.isSkipped := by
        cases hs : p.sort with
        | token content => exact absurd hs (hq content)
        | _ => rfl
      rw [ih, ← s.read_skipTrivia]
      exact read_passAll (show s.skipTrivia.ahead = [p] ++ ps from hps) (by simpa using hskipped)

end Scanner

end Lexing
