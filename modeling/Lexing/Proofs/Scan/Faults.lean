import Lexing.Proofs.Scan.Extent

namespace Lexing

namespace Piece

def Whole (p : Piece) : Prop := ∀ f ∈ p.faults, ∃ cause, f = .whole p.text cause

def Ordered (p : Piece) : Prop := p.faults.Pairwise fun f g => f.stop ≤ g.stop

variable {p : Piece} {f : Fault}

theorem whole_of_eq_nil (h : p.faults = []) : p.Whole := by simp [Whole, h]

theorem whole_of_eq_whole {cause : Cause} (h : p.faults = [.whole p.text cause]) : p.Whole := by
  simp [Whole, h]

theorem Whole.stop_eq (h : p.Whole) (hf : f ∈ p.faults) : f.stop = Text.size p.text := by
  obtain ⟨cause, rfl⟩ := h f hf
  exact Fault.stop_whole ..

theorem Whole.ordered (h : p.Whole) : p.Ordered :=
  List.pairwise_of_forall_mem_list fun _ hf _ hg => ((h.stop_eq hf).trans (h.stop_eq hg).symm).le

end Piece

theorem Trivia.whole_commentOf (limit : Nat) (c : Char) (cs : List Char) :
    (commentOf limit c cs).Whole := by
  by_cases hlong : limit < Text.size (c :: cs)
  · exact Piece.whole_of_eq_whole (if_pos hlong)
  · exact Piece.whole_of_eq_nil (if_neg hlong)

theorem Trivia.whole_next? {o : Options} {c : Char} {cs : List Char} {p : Piece}
    (h : next? o c cs = some p) : p.Whole := by
  unfold next? block? at h
  repeat' split at h
  all_goals first
    | contradiction
    | obtain rfl := Option.some.inj h
  · exact Piece.whole_of_eq_nil rfl
  · exact whole_commentOf _ _ _
  · exact whole_commentOf _ _ _
  · exact Piece.whole_of_eq_whole rfl

theorem Lexeme.whole_next {o : Options} {r : Recognizers} {c : Char} {cs : List Char}
    (hq : ¬ isQuote c) : (next o r c cs).Whole := by
  obtain ⟨after, hopens⟩ := opens_next o r c cs
  obtain ⟨tail, htext, -⟩ := hopens.exists_cons
  have hisOf := hopens.isOf
  have htrivia := isTrivia_next o r c cs
  cases hsort : (next o r c cs).sort with
  | blank => simp [hsort, PieceSort.isTrivia] at htrivia
  | comment => simp [hsort, PieceSort.isTrivia] at htrivia
  | token content =>
      rw [hsort] at hisOf
      exact Piece.whole_of_eq_nil hisOf.1
  | rejected =>
      rw [hsort] at hisOf
      cases hisOf with
      | character _ _ _ _ _ _ _ _ hfaults => exact Piece.whole_of_eq_whole hfaults
      | number _ _ _ _ _ _ hfaults => exact Piece.whole_of_eq_whole hfaults
      | word _ _ _ _ _ _ hfaults => exact Piece.whole_of_eq_whole hfaults
      | string quote items tail hquote hstring =>
          rw [htext, List.cons.injEq] at hstring
          exact absurd (hstring.1 ▸ hquote) hq

namespace Quotation

variable {limit : Nat} {quote : Char} {cs rest : List Char} {is : List Item}

theorem prefix_text_next (limit : Nat) (h : items quote cs = (is, rest)) :
    quote :: is.flatMap Item.text <+: (next limit quote cs).text := by
  by_cases hr : rest.head? = some quote
  · obtain ⟨after, rfl⟩ := List.head?_eq_some_iff.1 hr
    rw [text_next_of_closed limit h]
    exact List.prefix_append (quote :: is.flatMap Item.text) [quote]
  · rw [next_of_cut h hr]
    exact List.prefix_append (quote :: is.flatMap Item.text) _

theorem exists_faults_next (limit : Nat) (h : items quote cs = (is, rest)) :
    ∃ more, (next limit quote cs).faults = escapeFaults quote.utf8Size 0 [] is ++ more ∧
      more.length ≤ 1 ∧ ∀ f ∈ more, ∃ cause, f = .whole (next limit quote cs).text cause := by
  by_cases hr : rest.head? = some quote
  · obtain ⟨after, rfl⟩ := List.head?_eq_some_iff.1 hr
    rw [next_of_closed h]
    split
    · exact ⟨[], (List.append_nil _).symm, Nat.zero_le 1, by simp⟩
    · next hgood =>
        have hnone : escapeFaults quote.utf8Size 0 [] is = [] := by simpa using hgood
        rw [hnone]
        split
        · exact ⟨_, rfl, Nat.le_refl 1, by simp [Piece.rejectedOf]⟩
        · exact ⟨[], rfl, Nat.zero_le 1, by simp⟩
  · rw [next_of_cut h hr]
    exact ⟨_, rfl, Nat.le_refl 1, by simp⟩

theorem ordered_next (hq : Lexeme.isQuote quote) : (next limit quote cs).Ordered := by
  obtain ⟨is, rest, hitems⟩ : ∃ is rest, items quote cs = (is, rest) := ⟨_, _, rfl⟩
  obtain ⟨more, hfaults, hlength, hwhole⟩ := exists_faults_next limit hitems
  obtain ⟨tail, htail⟩ := prefix_text_next limit hitems
  rw [Piece.Ordered, hfaults, List.pairwise_append]
  refine ⟨escapeFaults_pairwise .., ?_, fun f hf g hg => ?_⟩
  · match more with
    | [] => exact .nil
    | [f] => exact List.pairwise_singleton ..
  · obtain ⟨cause, rfl⟩ := hwhole g hg
    rw [Fault.stop_whole, ← htail]
    exact (escapeFaults_within tail hf (isQuote_ne_newline hq)).1.stop_le

end Quotation

namespace Piece

variable {o : Options} {r : Recognizers} {c : Char} {cs : List Char} {f : Fault}

theorem whole_or_quotation (o : Options) (r : Recognizers) (c : Char) (cs : List Char) :
    (next o r c cs).Whole ∨
      Lexeme.isQuote c ∧ next o r c cs = Quotation.next o.maxString c cs := by
  cases ht : Trivia.next? o c cs with
  | some p =>
      rw [next, ht]
      exact .inl (Trivia.whole_next? ht)
  | none =>
      rw [next, ht, Option.getD_none]
      by_cases hq : Lexeme.isQuote c
      · exact .inr ⟨hq, Lexeme.next_of_isQuote hq cs⟩
      · exact .inl (Lexeme.whole_next hq)

theorem ordered_next (o : Options) (r : Recognizers) (c : Char) (cs : List Char) :
    (next o r c cs).Ordered := by
  rcases whole_or_quotation o r c cs with hwhole | ⟨hq, hnext⟩
  · exact hwhole.ordered
  · rw [hnext]
    exact Quotation.ordered_next hq

theorem whole_or_escape (hf : f ∈ (next o r c cs).faults) :
    (∃ cause, f = .whole (next o r c cs).text cause) ∨ ∃ d, f.lexeme = ['\\', d] := by
  rcases whole_or_quotation o r c cs with hwhole | ⟨-, hnext⟩
  · exact .inl (hwhole f hf)
  · rw [hnext] at hf ⊢
    obtain ⟨more, hfaults, -, hwhole⟩ :=
      Quotation.exists_faults_next o.maxString (rfl : Quotation.items c cs = (_, _))
    rw [hfaults, List.mem_append] at hf
    rcases hf with hf | hf
    · right
      obtain ⟨before, i, after, -, hinvalid, rfl⟩ :=
        (Quotation.mem_escapeFaults.1 hf).resolve_left (by simp)
      cases i with
      | escape d => exact ⟨d, rfl⟩
      | plain d => contradiction
      | continuation carriageReturn => contradiction
    · exact .inl (hwhole f hf)

theorem faults_next_eq_nil (hblock : ∀ block ∈ o.comments.block, block.1.toList.head? ≠ some '\n')
    (hc : isVisible c = false) : (next o r c cs).faults = [] := by
  by_cases hline : c = '\n'
  · rw [hline, next, Trivia.next?_newline_of_head? hblock, Option.getD_none, Lexeme.next_newline]
    rfl
  · have hblank : isHorizontal c := by simpa [isVisible, hline] using hc
    rw [next, Trivia.next?, if_pos hblank]
    rfl

theorem exists_cons_of_mem_faults
    (hblock : ∀ block ∈ o.comments.block, block.1.toList.head? ≠ some '\n')
    (hf : f ∈ (next o r c cs).faults) : ∃ d ds, f.lexeme = d :: ds ∧ isVisible d := by
  rcases whole_or_escape hf with ⟨cause, rfl⟩ | ⟨d, hd⟩
  · obtain ⟨tail, htext, -⟩ := (opens_next o r c cs).exists_cons
    refine ⟨c, tail, htext, ?_⟩
    by_contra hc
    rw [faults_next_eq_nil hblock (by simpa using hc)] at hf
    contradiction
  · exact ⟨'\\', [d], hd, rfl⟩

end Piece

end Lexing
