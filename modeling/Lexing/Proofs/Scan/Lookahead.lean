import Lexing.Proofs.Scan.Reach

namespace Lexing

open Piece

variable {o : Options} {c : Char}

namespace Comments

def lookahead (k : Comments) : Nat :=
  k.delimiters.foldr (fun d n => max (Text.size d.toList) n) 3

theorem three_le_lookahead (k : Comments) : 3 ≤ k.lookahead := by
  unfold lookahead
  induction k.delimiters with
  | nil => exact Nat.le_refl 3
  | cons d ds ih => exact ih.trans (Nat.le_max_right ..)

theorem size_le_lookahead {k : Comments} {d : String} (h : d ∈ k.delimiters) :
    Text.size d.toList ≤ k.lookahead := by
  unfold lookahead
  revert h
  induction k.delimiters with
  | nil => exact fun h => absurd h List.not_mem_nil
  | cons e ds ih =>
      intro h
      rcases List.mem_cons.1 h with rfl | h
      · exact Nat.le_max_left ..
      · exact (ih h).trans (Nat.le_max_right ..)

end Comments

theorem throughText?_go_of_append {closing passed cs found : List Char}
    (h : throughText?.go closing passed cs = some found) (rest : List Char) :
    throughText?.go closing passed (cs ++ rest) = some found := by
  induction cs generalizing passed with
  | nil => simp [throughText?.go] at h
  | cons c cs ih =>
      obtain ⟨body, after, -, hcs, -⟩ := throughText?_go_append h
      have hsize : Text.size closing ≤ Text.size (c :: cs) := by
        rw [hcs]
        simp only [Text.size_append]
        omega
      have hpre : closing.isPrefixOf (c :: (cs ++ rest)) = closing.isPrefixOf (c :: cs) := by
        rw [Bool.eq_iff_iff, List.isPrefixOf_iff_prefix, List.isPrefixOf_iff_prefix]
        exact Text.prefix_append_iff hsize rest
      rw [List.cons_append, throughText?.go, hpre]
      rw [throughText?.go] at h
      split
      · next hhere => rwa [if_pos hhere] at h
      · next hhere =>
          rw [if_neg hhere] at h
          exact ih h

theorem throughText?_of_append {closing cs found : List Char}
    (h : throughText? closing cs = some found) (rest : List Char) :
    throughText? closing (cs ++ rest) = some found :=
  throughText?_go_of_append h rest

theorem prefix_of_throughText?_append {closing cs rest found : List Char} (hne : closing ≠ [])
    (h : throughText? closing cs = none) (hfound : throughText? closing (cs ++ rest) = some found) :
    cs <+: found := by
  obtain ⟨body, after, rfl, hjoin, -⟩ := throughText?_eq_some hfound
  have hpre : body ++ closing <+: cs ++ rest := ⟨after, hjoin.symm⟩
  rcases List.prefix_or_prefix_of_prefix hpre (List.prefix_append cs rest) with ⟨more, hmore⟩ | h
  · have hnot := throughText?_eq_none hne h body.length
    rw [← hmore, List.append_assoc, List.drop_left] at hnot
    exact absurd (List.prefix_append closing more) hnot
  · exact h

namespace Trivia

variable {cs : List Char}

theorem opensLine_append (h : o.comments.lookahead ≤ Text.size (c :: cs)) (rest : List Char) :
    o.comments.opensLine c (cs ++ rest) = o.comments.opensLine c cs := by
  rw [Bool.eq_iff_iff]
  simp only [Comments.opensLine, Bool.and_eq_true, List.any_eq_true, List.isPrefixOf_iff_prefix]
  refine and_congr_right fun _ => exists_congr fun opening => and_congr_right fun hmem => ?_
  have hsize := Comments.size_le_lookahead (Comments.mem_delimiters_of_line hmem)
  exact and_congr_right fun _ => Text.prefix_append_iff (hsize.trans h) rest

theorem block?_append (h : o.comments.lookahead ≤ Text.size (c :: cs)) (rest : List Char) :
    block? o c (cs ++ rest) = block? o c cs ∨
      ∃ p q, block? o c cs = some p ∧ block? o c (cs ++ rest) = some q ∧
        Reach 1 (c :: cs) p q := by
  cases hb : o.comments.block with
  | none => exact .inl (by simp only [block?, hb])
  | some delimiters =>
      obtain ⟨opening, closing⟩ := delimiters
      have hsize := Comments.size_le_lookahead (Comments.mem_delimiters_of_block hb).1
      have hpre : opening.toList <+: c :: (cs ++ rest) ↔ opening.toList <+: c :: cs :=
        Text.prefix_append_iff (hsize.trans h) rest
      by_cases hopens : opening.toList ≠ [] ∧ closing.toList ≠ [] ∧ opening.toList <+: c :: cs
      · obtain ⟨hne, hclose, tail, htail⟩ := hopens
        obtain ⟨first, more, ho⟩ := List.exists_cons_of_ne_nil hne
        obtain ⟨rfl, rfl⟩ : first = c ∧ more ++ tail = cs := by simpa [ho] using htail
        rw [List.append_assoc, block?_eq_some hb ho hclose, block?_eq_some hb ho hclose]
        cases hfound : throughText? closing.toList tail with
        | some found => exact .inl (by rw [throughText?_of_append hfound])
        | none =>
            refine .inr ⟨_, _, rfl, rfl, .of_text_eq rfl ?_⟩
            cases hmore : throughText? closing.toList (tail ++ rest) with
            | none =>
                refine List.cons_prefix_cons.2 ⟨rfl, ?_⟩
                rw [List.prefix_append_right_inj]
                exact List.prefix_append ..
            | some found =>
                refine List.cons_prefix_cons.2 ⟨rfl, ?_⟩
                rw [List.prefix_append_right_inj]
                exact prefix_of_throughText?_append hclose hfound hmore
      · rw [block?_eq_none hb hopens, block?_eq_none hb (by rwa [hpre])]
        exact .inl rfl

theorem next?_append (h : o.comments.lookahead ≤ Text.size (c :: cs)) (rest : List Char) :
    next? o c (cs ++ rest) = next? o c cs ∨
      ∃ p q, next? o c cs = some p ∧ next? o c (cs ++ rest) = some q ∧ Reach 1 (c :: cs) p q := by
  simp only [next?, opensLine_append h]
  split
  · rcases run_append_cases isHorizontal cs rest with ⟨-, hsame, -⟩ | ⟨hself, hpre⟩
    · exact .inl (by rw [hsame])
    · exact .inr ⟨_, _, rfl, rfl, .of_text_eq (congrArg (c :: ·) hself)
        (List.cons_prefix_cons.2 ⟨rfl, hpre⟩)⟩
  split
  · rcases run_append_cases (· != '\n') cs rest with ⟨-, hsame, -⟩ | ⟨hself, hpre⟩
    · exact .inl (by rw [hsame])
    · exact .inr ⟨_, _, rfl, rfl, .of_text_eq (congrArg (c :: ·) hself)
        (List.cons_prefix_cons.2 ⟨rfl, hpre⟩)⟩
  · exact block?_append h rest

end Trivia

namespace Quotation

variable {quote : Char} {cs : List Char}

theorem Item.stands_append {i : Item} {more : List Char} (h : i.Stands quote more)
    (rest : List Char) : i.Stands quote (more ++ rest) ∨ i = .escape '\r' ∧ more = [] := by
  cases i with
  | plain c => exact .inl h
  | continuation b => exact .inl trivial
  | escape c =>
      cases more with
      | cons d more => exact .inl h
      | nil =>
          by_cases hc : c = '\r'
          · exact .inr ⟨by rw [hc], rfl⟩
          · exact .inl ⟨h.1, fun hreturn => absurd hreturn hc⟩

theorem items_append_cases (quote : Char) (cs rest : List Char) :
    (∃ is d more, items quote cs = (is, d :: more) ∧ d ≠ '\\' ∧
      items quote (cs ++ rest) = (is, d :: (more ++ rest))) ∨
    ∃ found is js, (items quote cs).1 = found ++ is ∧ (items quote (cs ++ rest)).1 = found ++ js ∧
      Text.size cs ≤ Text.size (found.flatMap Item.text) + 2 := by
  obtain ⟨is, tail, hitems⟩ : ∃ is tail, items quote cs = (is, tail) := ⟨_, _, rfl⟩
  induction is generalizing cs with
  | nil =>
      obtain ⟨hend, rfl⟩ := item?_of_items_nil hitems
      rcases item?_eq_none_iff.1 hend with rfl | rfl | ⟨d, more, rfl, hd, hstop⟩
      · exact .inr ⟨[], _, _, rfl, rfl, Nat.zero_le 2⟩
      · exact .inr ⟨[], _, _, rfl, rfl, Nat.le_succ 1⟩
      · refine .inl ⟨[], d, more, hitems, hd, items_of_end ?_⟩
        exact item?_eq_none_iff.2 (.inr (.inr ⟨d, more ++ rest, rfl, hd, hstop⟩))
  | cons i is ih =>
      obtain ⟨more, hi, hmore⟩ := exists_item?_of_items hitems
      obtain ⟨rfl, hstands⟩ := item?_eq_some_iff.1 hi
      rcases Item.stands_append hstands rest with hagain | ⟨rfl, rfl⟩
      · have hi' := item?_eq_some_iff.2 ⟨List.append_assoc i.text more rest, hagain⟩
        rw [items_of_item? hi, items_of_item? hi']
        rcases ih more hmore with ⟨js, d, after, hjs, hd, hjs'⟩ | ⟨found, js, js', hjs, hjs', hsize⟩
        · exact .inl ⟨i :: js, d, after, by rw [hjs], hd, by rw [hjs']⟩
        · refine .inr ⟨i :: found, js, js', by rw [hjs, List.cons_append],
            by rw [hjs', List.cons_append], ?_⟩
          rw [List.flatMap_cons, Text.size_append, Text.size_append]
          omega
      · exact .inr ⟨[], _, _, rfl, rfl, Nat.le_refl 2⟩

theorem le_stop_of_mem_escapeFaults {offset lines : Nat} {is : List Item} {f : Fault}
    (h : f ∈ escapeFaults offset lines [] is) : offset ≤ f.stop := by
  obtain ⟨before, i, after, -, -, rfl⟩ := (mem_escapeFaults.1 h).resolve_left (by simp)
  simp only [Fault.stop]
  omega

theorem prefix_text_of_items {found is : List Item} (limit : Nat)
    (h : (items quote cs).1 = found ++ is) :
    quote :: found.flatMap Item.text <+: (next limit quote cs).text := by
  refine .trans ?_ (prefix_text_next limit (Prod.ext h rfl))
  rw [List.flatMap_append]
  exact List.cons_prefix_cons.2 ⟨rfl, List.prefix_append ..⟩

theorem settled_next {bytes : Nat} {text : List Char} {found is : List Item} (limit : Nat)
    (h : (items quote cs).1 = found ++ is)
    (hlate : Text.size text < Text.size (quote :: found.flatMap Item.text) + bytes) :
    (next limit quote cs).settled bytes text =
      (escapeFaults quote.utf8Size 0 [] found).filter fun f => f.stop + bytes ≤ Text.size text := by
  obtain ⟨more, hfaults, -, hwhole⟩ :=
    exists_faults_next limit (Prod.ext h rfl : items quote cs = (found ++ is, _))
  have hnone : ∀ f ∈ escapeFaults (quote.utf8Size + Text.size (found.flatMap Item.text))
      (0 + (found.flatMap Item.text).count '\n') [] is ++ more,
      Text.size text < f.stop + bytes := by
    intro f hf
    rcases List.mem_append.1 hf with hf | hf
    · have hle := le_stop_of_mem_escapeFaults hf
      rw [Text.size_cons] at hlate
      omega
    · have hle := Text.size_mono (prefix_text_of_items limit h)
      obtain ⟨cause, rfl⟩ := hwhole f hf
      rw [Fault.stop_whole]
      omega
  rw [settled, hfaults, escapeFaults_append, List.append_assoc, List.filter_append,
    filter_le_eq_nil hnone, List.append_nil]

theorem next_append {bytes : Nat} (h : 3 ≤ bytes) (limit : Nat) (quote : Char)
    (cs rest : List Char) :
    next limit quote (cs ++ rest) = next limit quote cs ∨
      Late bytes (quote :: cs) (next limit quote cs) (next limit quote (cs ++ rest)) := by
  rcases items_append_cases quote cs rest with
    ⟨is, d, more, hitems, hd, hitems'⟩ | ⟨found, is, js, his, hjs, hsize⟩
  · left
    simp [next, hitems, hitems', hd]
  · have hlate :
        Text.size (quote :: cs) < Text.size (quote :: found.flatMap Item.text) + bytes := by
      rw [Text.size_cons, Text.size_cons]
      omega
    refine .inr ⟨.of_common _ (prefix_text_of_items limit his) (prefix_text_of_items limit hjs)
      hlate, ?_⟩
    rw [settled_next limit his hlate, settled_next limit hjs hlate]

end Quotation

namespace Piece

theorem next_append (o : Options) (c : Char) (cs rest : List Char) :
    next o .empty c (cs ++ rest) = next o .empty c cs ∨
      Late o.comments.lookahead (c :: cs) (next o .empty c cs)
        (next o .empty c (cs ++ rest)) := by
  have hthree := o.comments.three_le_lookahead
  by_cases hshort : Text.size (c :: cs) < o.comments.lookahead
  · exact .inr (late_of_size_lt hshort _ _)
  rw [Nat.not_lt] at hshort
  unfold next
  rcases Trivia.next?_append hshort rest with hsame | ⟨p, q, hp, hq, hreach⟩
  · rw [hsame]
    cases Trivia.next? o c cs with
    | some p => exact .inl rfl
    | none =>
        simp only [Option.getD_none]
        by_cases hquote : Lexeme.isQuote c
        · rw [Lexeme.next_of_isQuote hquote, Lexeme.next_of_isQuote hquote]
          exact Quotation.next_append hthree ..
        · refine (Lexeme.next_append hquote (hthree.trans hshort) rest).imp_right fun h => ?_
          exact (h.mono (by omega)).late (Lexeme.whole_next hquote) (Lexeme.whole_next hquote)
  · rw [hp, hq]
    exact .inr ((hreach.mono (by omega)).late (Trivia.whole_next? hp) (Trivia.whole_next? hq))

inductive AllUpTo (bytes : Nat) : List Char → List Piece → List Piece → Prop
  | done (qs : List Piece) : AllUpTo bytes [] [] qs
  | late {text : List Char} {p q : Piece} (ps qs : List Piece) : Late bytes text p q →
      AllUpTo bytes text (p :: ps) (q :: qs)
  | same {text : List Char} {ps qs : List Piece} (p : Piece) : AllUpTo bytes text ps qs →
      AllUpTo bytes (p.text ++ text) (p :: ps) (p :: qs)

theorem allUpTo_append (o : Options) (cs rest : List Char) :
    AllUpTo o.comments.lookahead cs (all o .empty cs) (all o .empty (cs ++ rest)) := by
  -- By the pieces of the first text, as long as the second one has the same.
  fun_induction all o .empty cs with
  | case1 => exact .done _
  | case2 c cs ih =>
      rw [List.cons_append, all_cons]
      rcases next_append o c cs rest with hsame | hlate
      · have hjoin := next_text_append o .empty c cs
        have hlength := congrArg List.length hjoin
        rw [List.length_append] at hlength
        rw [hsame, ← List.cons_append, List.drop_append_of_le_length (by omega)]
        have hcons := AllUpTo.same (next o .empty c cs) ih
        rwa [hjoin] at hcons
      · exact .late _ _ hlate

end Piece

end Lexing
