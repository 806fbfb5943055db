import Lexing.Proofs.Scan.Returns

namespace Lexing

open Text

variable {o : Options} {c : Char} {cs ds : List Char}

namespace Lexeme

theorem next_withReturns (h : ¬ isQuote c) (cs : List Char) :
    next o .empty c (withReturns cs) = next o .empty c cs := by
  rw [← next_takeWhile h, takeWhile_withReturns (by decide) (by decide), next_takeWhile h]

theorem returned_next (hc : c ≠ '\n') (hr : '\r' ∉ cs) :
    Piece.ReturnedFrom (c :: cs) (next o .empty c cs) (next o .empty c (withReturns cs)) := by
  by_cases hq : isQuote c
  · rw [next_of_isQuote hq, next_of_isQuote hq]
    exact Quotation.returned_next hq hr
  · obtain ⟨after, hopens⟩ := opens_next o .empty c cs
    refine ⟨after, hopens.text_eq, ?_⟩
    rw [next_withReturns hq]
    apply Piece.returned_self
    obtain ⟨tail, htext, -⟩ := hopens.exists_cons
    rw [htext, List.mem_cons, not_or]
    refine ⟨Ne.symm hc, fun hmem => ?_⟩
    exact absurd (isVisible_of_next hq htext _ hmem) (by decide)

end Lexeme

namespace Piece

theorem returned_next (hc : c ≠ '\n') (hr : '\r' ∉ cs) (hreturn : o.comments.Avoids '\r')
    (hline : o.comments.Avoids '\n') :
    ReturnedFrom (c :: cs) (next o .empty c cs) (next o .empty c (withReturns cs)) := by
  rcases Trivia.returned_next? hc hreturn hline cs with
    ⟨hnone, hreturned⟩ | ⟨p, q, hp, hq, h⟩
  · rw [next, next, hnone, hreturned]
    exact Lexeme.returned_next hc hr
  · rw [next, next, hp, hq]
    exact h

inductive AllReturned : List Piece → List Piece → Prop
  | nil : AllReturned [] []
  | blank (q : Piece) {ps qs : List Piece} : q.sort = .blank → q.notes = [] → '\n' ∉ q.text →
      AllReturned ps qs → AllReturned ps (q :: qs)
  | cons (p q : Piece) {ps qs : List Piece} : q.sort = p.sort → q.notes = p.notes →
      q.text.count '\n' = p.text.count '\n' → AllReturned ps qs → AllReturned (p :: ps) (q :: qs)

theorem next_newline (hline : o.comments.Avoids '\n') (cs : List Char) :
    next o .empty '\n' cs = .tokenOf '\n' [] .newline := by
  rw [next, Trivia.next?_newline hline, Option.getD_none, Lexeme.next_newline]

theorem all_newline (hline : o.comments.Avoids '\n') (cs : List Char) :
    all o .empty ('\n' :: cs) = .tokenOf '\n' [] .newline :: all o .empty cs := by
  rw [all_cons, next_newline hline]
  rfl

theorem all_return (o : Options) (cs : List Char) :
    all o .empty ('\r' :: '\n' :: cs) = .blankOf '\r' [] :: all o .empty ('\n' :: cs) := by
  have hnext : next o .empty '\r' ('\n' :: cs) = .blankOf '\r' [] := rfl
  rw [all_cons, hnext]
  rfl

def Aligned (cs ds : List Char) : Prop :=
  ds = withReturns cs ∨ ∃ more, cs = '\n' :: more ∧ ds = '\n' :: withReturns more

theorem Returned.aligned {p q : Piece} {after rest : List Char} (h : p.Returned after q)
    (hq : q.text ++ rest = withReturns (p.text ++ after)) : Aligned after rest := by
  rw [withReturns_append] at hq
  rcases h.text_eq with htext | ⟨htext, hhead⟩
  · rw [htext, List.append_cancel_left_eq] at hq
    exact .inl hq
  · obtain ⟨more, rfl⟩ := List.head?_eq_some_iff.1 hhead
    rw [htext, List.append_assoc, List.append_cancel_left_eq, withReturns_newline] at hq
    exact .inr ⟨more, rfl, List.cons.inj hq |>.2⟩

theorem allReturned_of_aligned (hr : '\r' ∉ cs) (hreturn : o.comments.Avoids '\r')
    (hline : o.comments.Avoids '\n') (h : Aligned cs ds) :
    AllReturned (all o .empty cs) (all o .empty ds) := by
  -- By the pieces of the first text. Each leaves the two texts aligned, whatever return it takes.
  fun_induction all o .empty cs generalizing ds with
  | case1 =>
      rcases h with rfl | ⟨more, hmore, -⟩
      · simpa using AllReturned.nil
      · contradiction
  | case2 c cs ih =>
      rw [List.mem_cons, not_or] at hr
      by_cases hc : c = '\n'
      · subst hc
        rw [next_newline hline] at ih ⊢
        have hmore : AllReturned (all o .empty cs) (all o .empty (withReturns cs)) :=
          ih hr.2 (.inl rfl)
        have hboth := AllReturned.cons (.tokenOf '\n' [] .newline) _ rfl rfl rfl hmore
        rw [← all_newline hline (withReturns cs)] at hboth
        rcases h with rfl | ⟨more, hmore, rfl⟩
        · rw [withReturns_newline, all_return]
          exact .blank _ rfl rfl (by decide) hboth
        · obtain rfl : cs = more := by simpa using hmore
          exact hboth
      · obtain rfl : ds = c :: withReturns cs := by
          rcases h with rfl | ⟨more, hmore, -⟩
          · exact withReturns_cons hc cs
          · exact absurd (List.cons.inj hmore).1 hc
        obtain ⟨after, hafter, hreturned⟩ := returned_next hc hr.2 hreturn hline
        have hdrop : (c :: cs).drop (next o .empty c cs).text.length = after := by
          rw [← hafter, List.drop_left]
        have hrest := next_text_append o .empty c (withReturns cs)
        have hwhole : c :: withReturns cs = withReturns ((next o .empty c cs).text ++ after) := by
          rw [hafter, withReturns_cons hc]
        have hafterReturn : '\r' ∉ after := by
          intro hmem
          have hcs : '\r' ∈ c :: cs := hafter ▸ List.mem_append_right _ hmem
          simp [hr] at hcs
        rw [hdrop] at ih ⊢
        rw [all_cons]
        refine .cons _ _ hreturned.sort_eq hreturned.notes_eq hreturned.count_eq ?_
        exact ih hafterReturn (hreturned.aligned (hrest.trans hwhole))

end Piece

end Lexing
