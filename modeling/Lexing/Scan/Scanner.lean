import Lexing.Scan.Lexeme

namespace Lexing

structure Scanner where
  cursor : Cursor
  options : Options
  recognizers : Recognizers
  diagnostics : Array Diagnostic

namespace Scanner

def ofText (file : String) (text : String) (o : Options) (r : Recognizers) : Scanner :=
  ⟨.ofText file text.toList, o, r, #[]⟩

def pass (s : Scanner) (p : Piece) : Scanner :=
  { s with
    cursor := s.cursor.skip p.text.length
    diagnostics := s.diagnostics ++ p.faults.map (Diagnostic.ofFault s.cursor) }

theorem pass_rest_length_lt (s : Scanner) (p : Piece) (h : s.cursor.rest ≠ []) :
    (s.pass p).cursor.rest.length < s.cursor.rest.length := by
  have hp := List.length_pos_iff.2 p.text_ne_nil
  have hs := List.length_pos_iff.2 h
  simp only [pass, Cursor.skip, List.length_drop]
  omega

def skipTrivia (s : Scanner) : Scanner :=
  match _h : s.cursor.rest with
  | [] => s
  | c :: cs =>
      match Trivia.next? s.options c cs with
      | none => s
      | some p => (s.pass p).skipTrivia
termination_by s.cursor.rest.length
decreasing_by exact s.pass_rest_length_lt p (by simp [_h])

theorem skipTrivia_rest_length_le (s : Scanner) :
    s.skipTrivia.cursor.rest.length ≤ s.cursor.rest.length := by
  fun_induction skipTrivia s with
  | case1 => omega
  | case2 => omega
  | case3 s c cs h p _ ih =>
      have := s.pass_rest_length_lt p (by simp [h])
      omega

def skipLineEnds (s : Scanner) (stop : Nat) : Nat × Scanner :=
  let ready := s.skipTrivia
  match _h : ready.cursor.rest with
  | '\n' :: _ =>
      let passed := { ready with cursor := ready.cursor.skip 1 }
      passed.skipLineEnds passed.cursor.offset
  | _ => (stop, ready)
termination_by s.cursor.rest.length
decreasing_by
  have h1 := s.skipTrivia_rest_length_le
  have h2 : s.skipTrivia.cursor.rest.length ≠ 0 := by simp [ready] at _h; simp [_h]
  simp only [Cursor.skip, List.length_drop]
  omega

theorem skipLineEnds_rest_length_le (s : Scanner) (stop : Nat) :
    (s.skipLineEnds stop).2.cursor.rest.length ≤ s.cursor.rest.length := by
  fun_induction skipLineEnds s stop with
  | case1 s stop ready cs h passed ih =>
      have h1 := s.skipTrivia_rest_length_le
      have h2 : passed.cursor.rest.length ≤ ready.cursor.rest.length := by
        simp [passed, Cursor.skip]
      simp only [ready] at *
      omega
  | case2 s => exact s.skipTrivia_rest_length_le

def next (s : Scanner) : Token × Scanner :=
  let ready := s.skipTrivia
  let position := ready.cursor.position
  let start := ready.cursor.offset
  match _h : ready.cursor.rest with
  | [] => (⟨.endOfInput, position, .emptyAt start⟩, ready)
  | c :: cs =>
      let p := Lexeme.next ready.options ready.recognizers c cs
      let passed := ready.pass p
      match p.sort with
      | .token .newline =>
          if ready.options.coalesce then
            let (stop, after) := passed.skipLineEnds passed.cursor.offset
            (⟨.newline, position, ⟨start, stop⟩⟩, after)
          else
            (⟨.newline, position, ⟨start, passed.cursor.offset⟩⟩, passed)
      | .token content => (⟨content, position, ⟨start, passed.cursor.offset⟩⟩, passed)
      | _ => passed.next
termination_by s.cursor.rest.length
decreasing_by
  exact Nat.lt_of_lt_of_le (ready.pass_rest_length_lt p (by simp [_h]))
    s.skipTrivia_rest_length_le

theorem next_rest_length_lt (s : Scanner) (h : s.next.1.kind ≠ .endOfInput) :
    s.next.2.cursor.rest.length < s.cursor.rest.length := by
  fun_induction next s with
  | case1 => exact absurd rfl h
  | case2 s ready position start c cs hr p passed _ _ stop after he =>
      have h1 := s.skipTrivia_rest_length_le
      have h2 := ready.pass_rest_length_lt p (by simp [hr])
      have h3 := passed.skipLineEnds_rest_length_le passed.cursor.offset
      simp only [he] at h3
      simp only [ready, passed] at *
      omega
  | case3 s ready position start c cs hr p passed =>
      exact Nat.lt_of_lt_of_le (ready.pass_rest_length_lt p (by simp [hr]))
        s.skipTrivia_rest_length_le
  | case4 s ready position start c cs hr p passed =>
      exact Nat.lt_of_lt_of_le (ready.pass_rest_length_lt p (by simp [hr]))
        s.skipTrivia_rest_length_le
  | case5 s ready c cs hr p passed _ _ ih =>
      have h1 := s.skipTrivia_rest_length_le
      have h2 := ready.pass_rest_length_lt p (by simp [hr])
      have h3 := ih h
      simp only [ready, passed] at *
      omega

def hasDiagnostics (s : Scanner) : Bool := !s.diagnostics.isEmpty

def takeDiagnostics (s : Scanner) : List Diagnostic × Scanner :=
  (s.diagnostics.toList, { s with diagnostics := #[] })

end Scanner

end Lexing
