import Lexing.Proofs.Scan.Calls

namespace Lexing

namespace Comments

def SpareLineEnds (k : Comments) : Prop := ∀ opening ∈ k.line, opening.toList.head? ≠ some '\n'

/-- Unlike `opensLine`, without a guard at the end of a line. -/
def listsOpening (k : Comments) (cs : List Char) : Bool :=
  k.line.any fun opening => !opening.toList.isEmpty && opening.toList.isPrefixOf cs

theorem listsOpening_newline {k : Comments} (h : k.SpareLineEnds) (cs : List Char) :
    k.listsOpening ('\n' :: cs) = false := by
  rw [listsOpening, List.any_eq_false]
  intro opening hmem hopens
  simp only [Bool.and_eq_true, Bool.not_eq_true', List.isEmpty_eq_false_iff] at hopens
  obtain ⟨d, ds, hd⟩ := List.exists_cons_of_ne_nil hopens.1
  have hpre := List.isPrefixOf_iff_prefix.1 hopens.2
  rw [hd, List.cons_prefix_cons] at hpre
  exact h opening hmem (by rw [hd, hpre.1]; rfl)

theorem opensLine_eq {k : Comments} (h : k.SpareLineEnds) (c : Char) (cs : List Char) :
    k.opensLine c cs = k.listsOpening (c :: cs) := by
  by_cases hc : c = '\n'
  · subst hc
    rw [listsOpening_newline h]
    rfl
  · have hne : (c != '\n') = true := by simpa using hc
    rw [opensLine, hne, Bool.true_and, listsOpening]

theorem head?_trim {cs : List Char} {c : Char} (h : (trim cs).head? = some c) :
    Text.isBlank c = false := by
  obtain ⟨tail, htail⟩ := List.head?_eq_some_iff.1 h
  have hpre : trim cs <+: cs.dropWhile Text.isBlank := by
    have hsuffix := List.dropWhile_suffix Text.isBlank (l := (cs.dropWhile Text.isBlank).reverse)
    simpa [trim] using List.reverse_prefix.2 hsuffix
  obtain ⟨rest, hrest⟩ := hpre
  have hnot := List.head?_dropWhile_not Text.isBlank cs
  rw [← hrest, htail] at hnot
  simpa using hnot

theorem spareLineEnds_readLine (setting : String) (block : Option (String × String)) :
    SpareLineEnds ⟨readLine setting, block⟩ := by
  intro opening hmem hnewline
  obtain ⟨piece, hpiece, rfl⟩ := List.mem_map.1 hmem
  obtain ⟨part, -, rfl⟩ := List.mem_map.1 (List.mem_filter.1 hpiece).1
  rw [String.toList_ofList] at hnewline
  exact absurd (head?_trim hnewline) (by decide)

end Comments

namespace Scanner

variable {s : Scanner}

def turn? (s : Scanner) : Option Scanner :=
  match s.cursor.rest with
  | [] => none
  | c :: cs =>
      if isHorizontal c then
        some (s.pass (.blankOf c (cs.takeWhile isHorizontal)))
      else if s.options.comments.listsOpening (c :: cs) then
        match (c :: cs).takeWhile (· != '\n') with
        | [] => some s
        | d :: ds => some (s.pass (Trivia.commentOf s.options.maxComment d ds))
      else
        (Trivia.block? s.options c cs).map s.pass

def skipTriviaIn : Nat → Scanner → Option Scanner
  | 0, _ => none
  | n + 1, s =>
      match s.turn? with
      | none => some s
      | some passed => skipTriviaIn n passed

def skipLineEndsIn : Nat → Scanner → Nat → Option (Nat × Scanner)
  | 0, _, _ => none
  | n + 1, s, stop => do
      let ready ← skipTriviaIn n s
      match ready.cursor.rest with
      | '\n' :: _ =>
          let passed := { ready with cursor := ready.cursor.skip 1 }
          skipLineEndsIn n passed passed.cursor.offset
      | _ => some (stop, ready)

def nextIn : Nat → Scanner → Option (Token × Scanner)
  | 0, _ => none
  | n + 1, s => do
      let ready ← skipTriviaIn n s
      let position := ready.cursor.position
      let start := ready.cursor.offset
      match ready.cursor.rest with
      | [] => some (⟨.endOfInput, position, .emptyAt start⟩, ready)
      | c :: cs =>
          let p := Lexeme.next ready.options ready.recognizers c cs
          let passed := ready.pass p
          match p.sort with
          | .token .newline =>
              if ready.options.coalesce then do
                let (stop, after) ← skipLineEndsIn n passed passed.cursor.offset
                some (⟨.newline, position, ⟨start, stop⟩⟩, after)
              else
                some (⟨.newline, position, ⟨start, passed.cursor.offset⟩⟩, passed)
          | .token content => some (⟨content, position, ⟨start, passed.cursor.offset⟩⟩, passed)
          | _ => nextIn n passed

theorem turn?_nil (h : s.cursor.rest = []) : s.turn? = none := by
  simp [turn?, h]

theorem turn?_cons {c : Char} {cs : List Char} (hk : s.options.comments.SpareLineEnds)
    (h : s.cursor.rest = c :: cs) :
    s.turn? = (Trivia.next? s.options c cs).map s.pass := by
  simp only [turn?, h, Trivia.next?, Comments.opensLine_eq hk]
  split
  · rfl
  split
  · next hlists =>
      have hc : c ≠ '\n' := by
        rintro rfl
        rw [Comments.listsOpening_newline hk] at hlists
        contradiction
      simp [hc]
  · rfl

theorem skipTriviaIn_eq (hk : s.options.comments.SpareLineEnds) (n : Nat)
    (hn : s.cursor.rest.length < n) : skipTriviaIn n s = some s.skipTrivia := by
  fun_induction skipTrivia s generalizing n with
  | case1 s h =>
      obtain ⟨n, rfl⟩ : ∃ m, n = m + 1 := ⟨n - 1, by omega⟩
      rw [skipTriviaIn, turn?_nil h]
  | case2 s c cs h hnone =>
      obtain ⟨n, rfl⟩ : ∃ m, n = m + 1 := ⟨n - 1, by omega⟩
      have hturn : s.turn? = none := by rw [turn?_cons hk h, hnone]; rfl
      rw [skipTriviaIn, hturn]
  | case3 s c cs h p hsome ih =>
      have hturn : s.turn? = some (s.pass p) := by rw [turn?_cons hk h, hsome]; rfl
      have hlt := s.pass_rest_length_lt p (by simp [h])
      obtain ⟨n, rfl⟩ : ∃ m, n = m + 1 := ⟨n - 1, by omega⟩
      rw [skipTriviaIn, hturn]
      exact ih hk n (by omega)

theorem skipTrivia_options (s : Scanner) : s.skipTrivia.options = s.options := by
  rw [skipTrivia_eq, passAll_options]

theorem spareLineEnds_skipTrivia (h : s.options.comments.SpareLineEnds) :
    s.skipTrivia.options.comments.SpareLineEnds := by
  rwa [skipTrivia_options]

theorem skipLineEndsIn_eq (hk : s.options.comments.SpareLineEnds) (stop : Nat) (n : Nat)
    (hn : s.cursor.rest.length + 1 < n) : skipLineEndsIn n s stop = some (s.skipLineEnds stop) := by
  fun_induction skipLineEnds s stop generalizing n with
  | case1 s stop ready cs h passed ih =>
      obtain ⟨n, rfl⟩ : ∃ m, n = m + 1 := ⟨n - 1, by omega⟩
      have hlt : passed.cursor.rest.length < ready.cursor.rest.length := by simp [passed, h]
      have hle : ready.cursor.rest.length ≤ s.cursor.rest.length := s.skipTrivia_rest_length_le
      have hpassed : passed.options.comments.SpareLineEnds := spareLineEnds_skipTrivia hk
      rw [skipLineEndsIn, skipTriviaIn_eq hk n (by omega)]
      simp only [Option.bind_eq_bind, Option.bind_some, ready, h]
      exact ih hpassed n (by omega)
  | case2 s stop ready h =>
      obtain ⟨n, rfl⟩ : ∃ m, n = m + 1 := ⟨n - 1, by omega⟩
      rw [skipLineEndsIn, skipTriviaIn_eq hk n (by omega)]
      simp only [Option.bind_eq_bind, Option.bind_some]
      split
      · next cs hcs => exact (h cs hcs).elim
      · rfl

theorem nextIn_eq (hk : s.options.comments.SpareLineEnds) (n : Nat)
    (hn : s.cursor.rest.length + 1 < n) : nextIn n s = some s.next := by
  fun_induction next s generalizing n with
  | case1 s ready position start h =>
      obtain ⟨n, rfl⟩ : ∃ m, n = m + 1 := ⟨n - 1, by omega⟩
      rw [nextIn, skipTriviaIn_eq hk n (by omega)]
      simp only [Option.bind_eq_bind, Option.bind_some, ready, position, start, h]
  | case2 s ready position start c cs h p passed hp hco stop after he =>
      obtain ⟨n, rfl⟩ : ∃ m, n = m + 1 := ⟨n - 1, by omega⟩
      have hlt : passed.cursor.rest.length < ready.cursor.rest.length :=
        ready.pass_rest_length_lt p (by simp [h])
      have hle : ready.cursor.rest.length ≤ s.cursor.rest.length := s.skipTrivia_rest_length_le
      have hends := skipLineEndsIn_eq (s := passed) (spareLineEnds_skipTrivia hk)
        passed.cursor.offset n (by omega)
      rw [he] at hends
      rw [nextIn, skipTriviaIn_eq hk n (by omega)]
      simp only [ready, p, passed] at h hp hco hends
      simp only [Option.bind_eq_bind, Option.bind_some, h, hp, hco, if_true, hends, position,
        start, ready]
  | case3 s ready position start c cs h p passed hp hco =>
      obtain ⟨n, rfl⟩ : ∃ m, n = m + 1 := ⟨n - 1, by omega⟩
      rw [nextIn, skipTriviaIn_eq hk n (by omega)]
      simp only [ready, p] at h hp hco
      simp only [Option.bind_eq_bind, Option.bind_some, h, hp, hco, position, start,
        ready, passed, p]
      rfl
  | case4 s ready position start c cs h p passed content hn hp =>
      obtain ⟨n, rfl⟩ : ∃ m, n = m + 1 := ⟨n - 1, by omega⟩
      rw [nextIn, skipTriviaIn_eq hk n (by omega)]
      simp only [ready, p] at h hp
      simp only [Option.bind_eq_bind, Option.bind_some, h, hp, position, start, ready, passed, p]
  | case5 s ready c cs h p passed hp hq ih =>
      obtain ⟨n, rfl⟩ : ∃ m, n = m + 1 := ⟨n - 1, by omega⟩
      have hlt : passed.cursor.rest.length < ready.cursor.rest.length :=
        ready.pass_rest_length_lt p (by simp [h])
      have hle : ready.cursor.rest.length ≤ s.cursor.rest.length := s.skipTrivia_rest_length_le
      rw [nextIn, skipTriviaIn_eq hk n (by omega)]
      simp only [ready] at h
      simp only [Option.bind_eq_bind, Option.bind_some, h]
      split
      · next hp' => exact absurd hp' hp
      · next content _ hc => exact absurd hc (hq content)
      · exact ih (spareLineEnds_skipTrivia hk) n (by omega)

theorem skipTriviaIn_eq_none {cs : List Char} (h : s.cursor.rest = '\n' :: cs)
    (hopens : s.options.comments.listsOpening ('\n' :: cs)) (n : Nat) :
    skipTriviaIn n s = none := by
  have hturn : s.turn? = some s := by
    simp [turn?, h, isHorizontal, hopens]
  induction n with
  | zero => rfl
  | succ n ih =>
      rw [skipTriviaIn, hturn]
      exact ih

/-- A line opening that begins with a line end keeps a call from returning. -/
theorem nextIn_eq_none {cs : List Char} (h : s.cursor.rest = '\n' :: cs)
    (hopens : s.options.comments.listsOpening ('\n' :: cs)) (n : Nat) : nextIn n s = none := by
  cases n with
  | zero => rfl
  | succ n => rw [nextIn, skipTriviaIn_eq_none h hopens]; rfl

end Scanner

end Lexing
