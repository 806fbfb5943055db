import Lexing.Proofs.Scan.Literals
import Lexing.Proofs.Scan.Quotation
import Lexing.Proofs.Scan.Trivia

namespace Lexing

variable {o : Options} {r : Recognizers} {c : Char} {cs : List Char}

theorem Symbol.letters_ne_nil (s : Symbol) : s.letters ≠ [] := by cases s <;> decide

theorem Symbol.mem_longestFirst {entry : List Char × Symbol} (h : entry ∈ longestFirst) :
    entry.1 = entry.2.letters := by
  simp only [longestFirst, List.mem_flatMap, List.mem_map] at h
  obtain ⟨_, _, s, _, rfl⟩ := h
  rfl

theorem Symbol.prefix_of_longest? {s : Symbol} (h : longest? cs = some s) : s.letters <+: cs := by
  obtain ⟨entry, hfind, rfl⟩ := Option.map_eq_some_iff.1 h
  have hpre := List.find?_some hfind
  rw [← mem_longestFirst (List.mem_of_find?_eq_some hfind)]
  exact List.isPrefixOf_iff_prefix.1 hpre

theorem Symbol.letters_mem_longestFirst (s : Symbol) : (s.letters, s) ∈ longestFirst := by
  have hall : s ∈ all := by cases s <;> decide
  have hlength : s.letters.length ∈ [3, 2, 1] := by cases s <;> decide
  simp only [longestFirst, List.mem_flatMap, List.mem_map, List.mem_filter]
  exact ⟨_, hlength, s, ⟨hall, beq_self_eq_true _⟩, rfl⟩

theorem Symbol.not_prefix_of_longest? (h : longest? cs = none) (s : Symbol) : ¬ s.letters <+: cs := by
  have hnone := List.find?_eq_none.1 (Option.map_eq_none_iff.1 h) _ s.letters_mem_longestFirst
  exact fun hs => hnone <| List.isPrefixOf_iff_prefix.2 hs

theorem Recognizers.count_pos_of_recognize {m : Recognition} (h : r.recognize cs = some m) :
    0 < m.count := by
  obtain ⟨member, -, hm⟩ := List.exists_of_findSome?_eq_some h
  simpa using (Option.filter_eq_some_iff.1 hm).2

namespace Lexeme

theorem opens_symbol {s : Symbol} (h : Symbol.longest? (c :: cs) = some s) :
    ∃ after, (Piece.tokenOf c (cs.take (s.letters.length - 1)) (.symbol s)).Opens o r (c :: cs)
      after := by
  obtain ⟨after, ha⟩ := Symbol.prefix_of_longest? h
  obtain ⟨d, ds, hs⟩ := List.exists_cons_of_ne_nil s.letters_ne_nil
  rw [hs] at ha
  obtain ⟨rfl, rfl⟩ : d = c ∧ ds ++ after = cs := by simpa using ha
  refine ⟨after, Piece.opens_tokenOf (by simp [hs]) (.symbol s (by simp [hs]))⟩

theorem opens_recognition {m : Recognition} (h : r.recognize (c :: cs) = some m) :
    ∃ after, (ofRecognition m c cs).Opens o r (c :: cs) after := by
  have hpos := Recognizers.count_pos_of_recognize h
  obtain ⟨n, hn⟩ : ∃ n, m.count = n + 1 := ⟨m.count - 1, by omega⟩
  have hjoin : c :: cs.take (m.count - 1) ++ cs.drop (m.count - 1) = c :: cs := by simp
  refine ⟨cs.drop (m.count - 1), Piece.opens_tokenOf hjoin ?_⟩
  refine .external m (by rw [hjoin]; exact h) ?_
  rw [hjoin]
  simp [hn]

theorem opens_next (o : Options) (r : Recognizers) (c : Char) (cs : List Char) :
    ∃ after, (next o r c cs).Opens o r (c :: cs) after := by
  unfold next
  split
  · next hc => exact ⟨cs, Piece.opens_tokenOf (by simp) (.newline (by simp [hc]))⟩
  next hline =>
  split
  · next hc => exact NumberLiteral.opens_next hc
  next hdigit =>
  split
  · next hc => exact Quotation.opens_next hc
  next hquote =>
  split
  · next hc => exact ⟨_, Word.opens_next hc⟩
  next hword =>
  split
  · next s hs => exact opens_symbol hs
  · next hsymbol =>
      split
      · next m hm => exact opens_recognition hm
      · next hm =>
          refine ⟨cs, Piece.opens_rejectedOf (by simp) ?_⟩
          exact .character c hline hdigit hquote hword (Symbol.not_prefix_of_longest? hsymbol) hm rfl
            rfl

theorem next_newline (o : Options) (r : Recognizers) (cs : List Char) :
    next o r '\n' cs = .tokenOf '\n' [] .newline := by
  simp [next]

end Lexeme

namespace PieceSort

def isTrivia : PieceSort → Bool
  | .blank | .comment => true
  | _ => false

def isNewline : PieceSort → Bool
  | .token .newline => true
  | _ => false

end PieceSort

theorem Trivia.isTrivia_of_next? {p : Piece} (h : Trivia.next? o c cs = some p) :
    p.sort.isTrivia := by
  unfold next? block? at h
  repeat' split at h
  all_goals first
    | contradiction
    | obtain rfl := Option.some.inj h; rfl

namespace Piece

def next (o : Options) (r : Recognizers) (c : Char) (cs : List Char) : Piece :=
  (Trivia.next? o c cs).getD (Lexeme.next o r c cs)

def all (o : Options) (r : Recognizers) (cs : List Char) : List Piece :=
  match cs with
  | [] => []
  | c :: cs => next o r c cs :: all o r ((c :: cs).drop (next o r c cs).text.length)
termination_by cs.length
decreasing_by
  have := List.length_pos_iff.2 (next o r c cs).text_ne_nil
  simp only [List.length_drop, List.length_cons]
  omega

theorem opens_next (o : Options) (r : Recognizers) (c : Char) (cs : List Char) :
    (next o r c cs).Opens o r (c :: cs) ((c :: cs).drop (next o r c cs).text.length) := by
  obtain ⟨after, h⟩ : ∃ after, (next o r c cs).Opens o r (c :: cs) after := by
    unfold next
    cases ht : Trivia.next? o c cs with
    | none => exact Lexeme.opens_next o r c cs
    | some p => exact Trivia.opens_next r ht
  have hafter : (c :: cs).drop (next o r c cs).text.length = after := by
    rw [← h.text_eq, List.drop_left]
  rwa [hafter]

theorem next_of_token {content : Content} (h : (next o r c cs).sort = .token content) :
    Trivia.next? o c cs = none ∧ next o r c cs = Lexeme.next o r c cs := by
  cases ht : Trivia.next? o c cs with
  | none => exact ⟨rfl, by rw [next, ht, Option.getD_none]⟩
  | some p =>
      have htrivia := Trivia.isTrivia_of_next? ht
      rw [next, ht, Option.getD_some] at h
      rw [h] at htrivia
      contradiction

theorem next_text_append (o : Options) (r : Recognizers) (c : Char) (cs : List Char) :
    (next o r c cs).text ++ (c :: cs).drop (next o r c cs).text.length = c :: cs :=
  (opens_next o r c cs).text_eq

@[simp]
theorem all_nil (o : Options) (r : Recognizers) : all o r [] = [] := by rw [all]

theorem all_cons (o : Options) (r : Recognizers) (c : Char) (cs : List Char) :
    all o r (c :: cs) =
      next o r c cs :: all o r ((c :: cs).drop (next o r c cs).text.length) := by rw [all]

theorem flatMap_text_all (o : Options) (r : Recognizers) (cs : List Char) :
    (all o r cs).flatMap text = cs := by
  fun_induction all o r cs with
  | case1 => rfl
  | case2 c cs ih => rw [List.flatMap_cons, ih, next_text_append]

theorem all_flatMap_text {ps qs : List Piece} (h : all o r cs = ps ++ qs) :
    all o r (qs.flatMap text) = qs := by
  induction ps generalizing cs with
  | nil =>
      rw [List.nil_append] at h
      rw [← h, flatMap_text_all]
  | cons p ps ih =>
      cases cs with
      | nil => simp at h
      | cons c cs =>
          rw [all_cons, List.cons_append] at h
          exact ih (List.cons.inj h).2

theorem exists_next_of_all {ps qs : List Piece} {p : Piece} (h : all o r cs = ps ++ p :: qs) :
    ∃ c rest, (p :: qs).flatMap text = c :: rest ∧ p = next o r c rest := by
  have hall := all_flatMap_text h
  obtain ⟨c, rest, hrest⟩ := List.exists_cons_of_ne_nil
    (show (p :: qs).flatMap text ≠ [] by simp [p.text_ne_nil])
  rw [hrest, all_cons] at hall
  exact ⟨c, rest, hrest, (List.cons.inj hall).1.symm⟩

theorem opens_of_all {ps qs : List Piece} {p : Piece} (h : all o r cs = ps ++ p :: qs) :
    p.Opens o r (p.text ++ qs.flatMap text) (qs.flatMap text) := by
  obtain ⟨c, rest, hrest, hp⟩ := exists_next_of_all h
  have hopen := opens_next o r c rest
  rw [← hp, ← hrest, List.flatMap_cons, List.drop_left] at hopen
  exact hopen

end Piece

end Lexing
