import Lexing.Proofs.Scan.Pieces
import Lexing.Proofs.Scan.Reading

namespace Lexing

variable {o : Options} {r : Recognizers} {c : Char} {cs : List Char}

namespace Comments

inductive OpensAt (k : Comments) (text : List Char) : Prop
  | line (opening : String) : opening ∈ k.line → opening.toList ≠ [] → opening.toList <+: text →
      OpensAt k text
  | block (opening closing : String) : k.block = some (opening, closing) →
      opening.toList ≠ [] → closing.toList ≠ [] → opening.toList <+: text → OpensAt k text

theorem Covers.opensAt {k : Comments} {text after : List Char} (h : k.Covers text after) :
    k.OpensAt (text ++ after) := by
  cases h with
  | line opening hmem hne hpre => exact .line opening hmem hne hpre
  | block opening closing body hb ho hc htext =>
      exact .block opening closing hb ho hc (by simp [htext])
  | unclosed opening closing body hb ho hc htext =>
      exact .block opening closing hb ho hc (by simp [htext])

end Comments

namespace Trivia

theorem block?_ne_none {opening closing : String} (hb : o.comments.block = some (opening, closing))
    (ho : opening.toList ≠ []) (hclose : closing.toList ≠ [])
    (hpre : opening.toList <+: c :: cs) : block? o c cs ≠ none := by
  obtain ⟨tail, htail⟩ := hpre
  obtain ⟨first, more, hfirst⟩ := List.exists_cons_of_ne_nil ho
  obtain ⟨rfl, rfl⟩ : first = c ∧ more ++ tail = cs := by simpa [hfirst] using htail
  simp [block?_eq_some hb hfirst hclose]

theorem not_opensAt_of_next? (hc : c ≠ '\n') (h : next? o c cs = none) :
    isHorizontal c = false ∧ ¬ o.comments.OpensAt (c :: cs) := by
  obtain ⟨hblank, hline, hblock⟩ := next?_eq_none.1 h
  refine ⟨hblank, ?_⟩
  rintro (⟨opening, hmem, hne, hpre⟩ | ⟨opening, closing, hb, ho, hclose, hpre⟩)
  · apply Bool.eq_false_iff.1 hline
    simp only [Comments.opensLine, Bool.and_eq_true, bne_iff_ne, List.any_eq_true,
      Bool.not_eq_true', List.isEmpty_eq_false_iff, List.isPrefixOf_iff_prefix]
    exact ⟨hc, opening, hmem, hne, hpre⟩
  · exact block?_ne_none hb ho hclose hpre hblock

theorem opensAt_of_next? {p : Piece} (h : next? o c cs = some p) :
    isHorizontal c ∨ o.comments.OpensAt (c :: cs) := by
  obtain ⟨after, hopens⟩ := opens_next .empty h
  have hisOf := hopens.isOf
  have htrivia := isTrivia_of_next? h
  obtain ⟨tail, htext, -⟩ := hopens.exists_cons
  cases hsort : p.sort with
  | blank =>
      rw [hsort] at hisOf
      exact .inl (hisOf.2 c (by simp [htext]))
  | comment =>
      rw [hsort] at hisOf
      exact .inr (hopens.text_eq ▸ Comments.Covers.opensAt hisOf)
  | _ => simp [hsort, PieceSort.isTrivia] at htrivia

theorem cause_commentOf (limit : Nat) (c : Char) (cs : List Char) :
    ∀ f ∈ (commentOf limit c cs).faults, f.cause ≠ .unrecognizedCharacter := by
  intro f hf
  simp only [commentOf] at hf
  split at hf
  · simp [List.mem_singleton.1 hf, Fault.whole]
  · simp at hf

theorem cause_of_next? {p : Piece} (h : next? o c cs = some p) :
    ∀ f ∈ p.faults, f.cause ≠ .unrecognizedCharacter := by
  unfold next? block? at h
  repeat' split at h
  all_goals first
    | contradiction
    | obtain rfl := Option.some.inj h
  · simp [Piece.blankOf]
  · exact cause_commentOf _ _ _
  · exact cause_commentOf _ _ _
  · simp [openComment, Fault.whole]

end Trivia

theorem Quotation.Refuses.cause_ne {limit : Nat} {quote : Char} {items : List Item}
    {after text tail : List Char} {faults : List Fault}
    (h : Refuses limit quote items after text tail faults) :
    ∀ f ∈ faults, f.cause ≠ .unrecognizedCharacter := by
  intro f hf
  cases h with
  | escape _ _ _ hcause => simp [hcause f hf]
  | tooLarge => simp [List.mem_singleton.1 hf, Fault.whole]
  | unterminated tail faults _ _ hcause =>
      rcases List.mem_append.1 hf with hf | hf
      · simp [hcause f hf]
      · simp [List.mem_singleton.1 hf, Fault.whole]

namespace Lexeme

structure Unclaimed (c : Char) (cs : List Char) : Prop where
  ne_newline : c ≠ '\n'
  not_isDigit : ¬ c.isDigit
  not_isQuote : ¬ isQuote c
  not_isWordStart : ¬ isWordStart c
  not_symbol : ∀ s : Symbol, ¬ s.letters <+: c :: cs

theorem next_of_unclaimed (h : Unclaimed c cs) :
    next o r c cs = match r.recognize (c :: cs) with
      | some m => ofRecognition m c cs
      | none => .rejectedOf c [] .unrecognizedCharacter := by
  have hsymbol : Symbol.longest? (c :: cs) = none := by
    cases hs : Symbol.longest? (c :: cs) with
    | none => rfl
    | some s => exact absurd (Symbol.prefix_of_longest? hs) (h.not_symbol s)
  cases hm : r.recognize (c :: cs) <;>
    simp only [next, if_neg h.ne_newline, if_neg h.not_isDigit, if_neg h.not_isQuote,
      if_neg h.not_isWordStart, hsymbol, hm]

theorem next_of_claimed (h : ¬ Unclaimed c cs) : next o r c cs = next o .empty c cs := by
  unfold next
  split
  · rfl
  next hline =>
  split
  · rfl
  next hdigit =>
  split
  · rfl
  next hquote =>
  split
  · rfl
  next hword =>
  split
  · rfl
  next hsymbol =>
  exact absurd ⟨hline, hdigit, hquote, hword, Symbol.not_prefix_of_longest? hsymbol⟩ h

theorem recognize_empty (cs : List Char) : Recognizers.empty.recognize cs = none := rfl

theorem cause_of_claimed (h : ¬ Unclaimed c cs) :
    ∀ f ∈ (next o r c cs).faults, f.cause ≠ .unrecognizedCharacter := by
  obtain ⟨after, hopens⟩ := opens_next o r c cs
  have hisOf := hopens.isOf
  have htrivia := isTrivia_next o r c cs
  cases hsort : (next o r c cs).sort with
  | blank => simp [hsort, PieceSort.isTrivia] at htrivia
  | comment => simp [hsort, PieceSort.isTrivia] at htrivia
  | token content =>
      rw [hsort] at hisOf
      simp [hisOf.1]
  | rejected =>
      rw [hsort] at hisOf
      cases hisOf with
      | character d hline hdigit hquote hword hsymbol _ htext _ =>
          have hjoin := hopens.text_eq
          rw [htext, List.singleton_append, List.cons.injEq] at hjoin
          obtain ⟨rfl, rfl⟩ := hjoin
          exact absurd ⟨hline, hdigit, hquote, hword, hsymbol⟩ h
      | number first more _ _ _ _ hfaults => simp [hfaults, Fault.whole]
      | word first more _ _ _ _ hfaults => simp [hfaults, Fault.whole]
      | string quote items tail _ _ hrefuses => exact hrefuses.cause_ne

theorem unclaimed_of_external {kind : ExternalKind} {payload : Payload}
    (h : (next o r c cs).sort = .token (.external kind payload)) : Unclaimed c cs := by
  by_contra hclaimed
  rw [next_of_claimed hclaimed] at h
  obtain ⟨after, hopens⟩ := opens_next o .empty c cs
  have hisOf := hopens.isOf
  rw [h] at hisOf
  cases hisOf.2 with
  | external m hm => simp [recognize_empty] at hm

end Lexeme

namespace Recognizers

def Answers (r : Recognizers) (text : List Char) (m : Recognition) : Prop :=
  ∃ earlier member later, r.members = earlier ++ member :: later ∧
    (∀ e ∈ earlier, ∀ n, e.recognize text = some n → n.count = 0) ∧
    member.recognize text = some m ∧ 0 < m.count

theorem answers_of_recognize {m : Recognition} (h : r.recognize cs = some m) : r.Answers cs m := by
  obtain ⟨earlier, member, later, hmembers, hm, hearlier⟩ := List.findSome?_eq_some_iff.1 h
  obtain ⟨hm, hpos⟩ := Option.filter_eq_some_iff.1 hm
  refine ⟨earlier, member, later, hmembers, fun e he n hn => ?_, hm, by simpa using hpos⟩
  simpa [hn, Option.filter] using hearlier e he

end Recognizers

namespace Piece

def IsUnrecognized (p : Piece) : Prop := ∃ f ∈ p.faults, f.cause = .unrecognizedCharacter

def IsApart (p : Piece) : Prop := p.sort.isTrivia = false ∧ p.sort.isNewline = false

theorem next_cases (o : Options) (r : Recognizers) (c : Char) (cs : List Char) :
    (next o r c cs = next o .empty c cs ∧ ¬ (next o .empty c cs).IsUnrecognized) ∨
      (next o r c cs).IsApart ∧ next o .empty c cs = .rejectedOf c [] .unrecognizedCharacter := by
  cases ht : Trivia.next? o c cs with
  | some p =>
      left
      rw [next, next, ht]
      refine ⟨rfl, ?_⟩
      rintro ⟨f, hf, hcause⟩
      exact Trivia.cause_of_next? ht f hf hcause
  | none =>
      rw [next, next, ht, Option.getD_none, Option.getD_none]
      by_cases hc : Lexeme.Unclaimed c cs
      · right
        refine ⟨⟨Lexeme.isTrivia_next .., Lexeme.isNewline_next hc.ne_newline⟩, ?_⟩
        exact Lexeme.next_of_unclaimed hc
      · left
        refine ⟨Lexeme.next_of_claimed hc, ?_⟩
        rintro ⟨f, hf, hcause⟩
        exact Lexeme.cause_of_claimed hc f hf hcause

theorem exists_match_of_external {kind : ExternalKind} {payload : Payload}
    (h : (next o r c cs).sort = .token (.external kind payload)) :
    isHorizontal c = false ∧ ¬ o.comments.OpensAt (c :: cs) ∧ Lexeme.Unclaimed c cs ∧
      ∃ m, r.recognize (c :: cs) = some m ∧ kind = m.kind ∧ payload = m.payload ∧
        (next o r c cs).text = (c :: cs).take m.count := by
  obtain ⟨ht, hpiece⟩ := next_of_token h
  rw [hpiece] at h ⊢
  have hc := Lexeme.unclaimed_of_external h
  obtain ⟨hblank, hcomment⟩ := Trivia.not_opensAt_of_next? hc.ne_newline ht
  refine ⟨hblank, hcomment, hc, ?_⟩
  rw [Lexeme.next_of_unclaimed hc] at h ⊢
  cases hm : r.recognize (c :: cs) with
  | none => simp [hm, rejectedOf] at h
  | some m =>
      rw [hm] at h
      obtain ⟨rfl, rfl⟩ : m.kind = kind ∧ m.payload = payload := by
        simpa [Lexeme.ofRecognition, tokenOf] using h
      obtain ⟨n, hn⟩ := Nat.exists_eq_add_of_lt (Recognizers.count_pos_of_recognize hm)
      exact ⟨m, rfl, rfl, rfl, by simp [Lexeme.ofRecognition, tokenOf, hn]⟩

theorem all_cases (o : Options) (r : Recognizers) (cs : List Char) :
    (all o r cs = all o .empty cs ∧ ∀ p ∈ all o .empty cs, ¬ p.IsUnrecognized) ∨
      ∃ ps c qs q rs, all o .empty cs = ps ++ .rejectedOf c [] .unrecognizedCharacter :: qs ∧
        all o r cs = ps ++ q :: rs ∧ (∀ p ∈ ps, ¬ p.IsUnrecognized) ∧ q.IsApart := by
  fun_induction all o .empty cs with
  | case1 => exact .inl ⟨all_nil .., by simp⟩
  | case2 c cs ih =>
      rw [all_cons]
      rcases next_cases o r c cs with ⟨hnext, hclear⟩ | ⟨hapart, hplain⟩
      · rw [hnext]
        rcases ih with ⟨hall, hclean⟩ | ⟨ps, d, qs, q, rs, hplain, hfull, hclean, hapart⟩
        · exact .inl ⟨by rw [hall], List.forall_mem_cons.2 ⟨hclear, hclean⟩⟩
        · exact .inr ⟨next o .empty c cs :: ps, d, qs, q, rs, by rw [hplain]; rfl,
            by rw [hfull]; rfl, List.forall_mem_cons.2 ⟨hclear, hclean⟩, hapart⟩
      · exact .inr ⟨[], c, _, _, _, by rw [hplain]; rfl, rfl, by simp, hapart⟩

end Piece

end Lexing
