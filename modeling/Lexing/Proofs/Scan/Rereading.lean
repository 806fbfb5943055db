import Lexing.Proofs.Scan.Extent

namespace Lexing

variable {o : Options} {c : Char} {cs tail after rest : List Char} {content : Content}

theorem prefix_of_prefix_append {letters text : List Char} (h : letters <+: text ++ after)
    (hafter : ∀ d ∈ after.head?, d ∉ letters) : letters <+: text := by
  induction text generalizing letters with
  | nil =>
      cases letters with
      | nil => exact List.prefix_rfl
      | cons l letters =>
          obtain ⟨more, rfl⟩ := h
          exact absurd List.mem_cons_self (hafter l rfl)
  | cons t text ih =>
      cases letters with
      | nil => exact List.nil_prefix
      | cons l letters =>
          rw [List.cons_append, List.cons_prefix_cons] at h
          have hmore := ih h.2 fun d hd hmem => hafter d hd (List.mem_cons_of_mem l hmem)
          exact List.cons_prefix_cons.2 ⟨h.1, hmore⟩

namespace Comments

variable {k : Comments} {text : List Char}

theorem OpensAt.append (h : k.OpensAt text) (rest : List Char) : k.OpensAt (text ++ rest) := by
  cases h with
  | line opening hmem hne hpre =>
      exact .line opening hmem hne (hpre.trans (List.prefix_append ..))
  | block opening closing hb ho hc hpre =>
      exact .block opening closing hb ho hc (hpre.trans (List.prefix_append ..))

theorem OpensAt.of_append (h : k.OpensAt (text ++ after)) (hspace : k.Avoids ' ')
    (hafter : ∀ d ∈ after.head?, d = ' ') : k.OpensAt text := by
  -- An opening that reached beyond the text would have the space in it.
  have stays {opening : String} (hmem : opening ∈ k.delimiters)
      (hpre : opening.toList <+: text ++ after) : opening.toList <+: text := by
    apply prefix_of_prefix_append hpre
    intro d hd
    rw [hafter d hd]
    exact hspace opening hmem
  cases h with
  | line opening hmem hne hpre =>
      exact .line opening hmem hne (stays (mem_delimiters_of_line hmem) hpre)
  | block opening closing hb ho hc hpre =>
      exact .block opening closing hb ho hc (stays (mem_delimiters_of_block hb).1 hpre)

end Comments

theorem Trivia.next?_again (hspace : o.comments.Avoids ' ') (hline : o.comments.Avoids '\n')
    (h : next? o c (tail ++ rest) = none) (hafter : ∀ d ∈ after.head?, d = ' ') :
    next? o c (tail ++ after) = none := by
  by_cases hc : c = '\n'
  · rw [hc]
    exact next?_newline hline _
  · obtain ⟨hblank, hopens⟩ := not_opensAt_of_next? hc h
    by_contra hsome
    obtain ⟨p, hp⟩ := Option.ne_none_iff_exists'.1 hsome
    rcases opensAt_of_next? hp with hc | hagain
    · simp [hblank] at hc
    · rw [← List.cons_append] at hagain hopens
      exact hopens ((hagain.of_append hspace hafter).append rest)

theorem Piece.eq_tokenOf {p : Piece} (hsort : p.sort = .token content) (htext : p.text = c :: tail)
    (hfaults : p.faults = []) : p = .tokenOf c tail content := by
  obtain ⟨text, sort, faults, hne⟩ := p
  subst hsort htext hfaults
  rfl

namespace NumberLiteral

theorem next_of_reads {x : Magnitude} (hc : c.isDigit) (h : Reads (c :: tail) x) :
    next c tail = .tokenOf c tail (.number (.finite false x)) := by
  obtain ⟨whole, fraction, hwhole, hfraction, hbody, hx⟩ := h.exists_body
  cases whole with
  | nil =>
      cases fraction with
      | nil => simp [body] at hbody
      | cons f fs =>
          obtain rfl : c = '.' := (List.cons.inj hbody).1
          exact absurd hc (by decide)
  | cons d whole =>
      rw [← cons_body, List.cons.injEq] at hbody
      obtain ⟨rfl, rfl⟩ := hbody
      have hw := (List.forall_mem_cons.1 hwhole).2
      rw [next_eq]
      simp only [takeWhile_body hw, dropWhile_body hw]
      cases fraction with
      | nil => simp [body, onePoint, finish, hx]
      | cons f fs =>
          have hf : f ≠ '.' := by
            rintro rfl
            exact absurd (hfraction '.' List.mem_cons_self) (by decide)
          have hpoint : onePoint ('.' :: f :: fs) := onePoint_iff.2 ⟨f :: fs, rfl, by simpa using hf⟩
          have htake : (f :: fs).takeWhile Char.isDigit = f :: fs :=
            List.takeWhile_eq_self_iff.2 hfraction
          have hdrop : (f :: fs).dropWhile Char.isDigit = [] := List.dropWhile_eq_nil_iff.2 hfraction
          have hpart : body [] (f :: fs) = '.' :: f :: fs := rfl
          rw [hpart, if_pos hpoint]
          simp only [List.tail_cons, htake, hdrop]
          simp [onePoint, finish, body, hx]

theorem content_of_finish {whole fraction : List Char}
    (h : (finish c whole fraction rest).sort = .token content) :
    ∃ x, content = .number (.finite false x) := by
  simp only [finish] at h
  split at h
  · split at h
    · next x _ => exact ⟨x, (PieceSort.token.inj h).symm⟩
    · contradiction
  · contradiction

theorem content_of_next (h : (next c cs).sort = .token content) :
    ∃ x, content = .number (.finite false x) := by
  simp only [next_eq] at h
  split at h
  · split at h
    · contradiction
    · split at h
      · contradiction
      · exact content_of_finish h
  · exact content_of_finish h

end NumberLiteral

theorem Word.next_alone {limit : Nat} (htext : (next limit c cs).text = c :: tail) :
    next limit c tail = next limit c cs := by
  have hrun : (next limit c cs).text = c :: cs.takeWhile isWordChar := by
    simp only [next]
    split <;> rfl
  obtain rfl : tail = cs.takeWhile isWordChar := by
    rw [htext, List.cons.injEq] at hrun
    exact hrun.2
  exact next_takeWhile (fun _ hd => hd) limit c

theorem Symbol.letters_eq_cons {s : Symbol} (h : s.letters <+: c :: cs) :
    s.letters = c :: cs.take (s.letters.length - 1) := by
  obtain ⟨n, hn⟩ := Nat.exists_eq_add_of_lt (List.length_pos_iff.2 s.letters_ne_nil)
  have htake := List.prefix_iff_eq_take.1 h
  rw [hn, Nat.zero_add, List.take_succ_cons] at htake
  rwa [hn, Nat.zero_add, Nat.add_sub_cancel]

theorem Symbol.longest?_letters (s : Symbol) : longest? s.letters = some s := by
  cases s <;> decide

namespace Quotation

variable {quote : Char} {i : Item} {is : List Item}

theorem item?_again (h : item? quote cs = some (i, rest)) (hhead : after.head? = rest.head?) :
    item? quote (i.text ++ after) = some (i, after) := by
  obtain ⟨-, hstands⟩ := item?_eq_some_iff.1 h
  refine item?_eq_some_iff.2 ⟨rfl, ?_⟩
  cases i with
  | escape d => exact ⟨hstands.1, fun hd => by rw [hhead]; exact hstands.2 hd⟩
  | _ => exact hstands

theorem items_again (hq : quote ≠ '\\') (h : items quote cs = (is, quote :: rest))
    (after : List Char) :
    items quote (is.flatMap Item.text ++ quote :: after) = (is, quote :: after) := by
  induction is generalizing cs with
  | nil => exact items_of_end (item?_eq_none_iff.2 (.inr (.inr ⟨quote, after, rfl, hq, .inl rfl⟩)))
  | cons i is ih =>
      obtain ⟨more, hi, hmore⟩ := exists_item?_of_items h
      have hrest := items_append quote more
      rw [hmore] at hrest
      -- What an item asks of the text behind it concerns the next character alone.
      have hhead : (is.flatMap Item.text ++ quote :: after).head? = more.head? := by
        rw [← hrest, List.head?_append, List.head?_append]
        rfl
      have hagain := item?_again hi hhead
      rw [List.flatMap_cons, List.append_assoc, items_of_item? hagain, ih hmore]

theorem next_again {limit : Nat} (hq : Lexeme.isQuote quote)
    (hsort : (next limit quote cs).sort = .token content)
    (htext : (next limit quote cs).text = quote :: tail) (after : List Char) :
    next limit quote (tail ++ after) = next limit quote cs := by
  have hback : quote ≠ '\\' := by
    rintro rfl
    exact absurd hq (by decide)
  obtain ⟨is, rest, hitems⟩ : ∃ is rest, items quote cs = (is, rest) := ⟨_, _, rfl⟩
  by_cases hclose : rest.head? = some quote
  · obtain ⟨more, rfl⟩ := List.head?_eq_some_iff.1 hclose
    rw [text_next_of_closed limit hitems, List.cons.injEq] at htext
    obtain rfl := htext.2
    have hagain := items_again hback hitems after
    rw [List.append_assoc, List.singleton_append, next_of_closed hagain, next_of_closed hitems]
  · rw [next_of_cut hitems hclose] at hsort
    contradiction

end Quotation

namespace Lexeme

theorem next_alone (hq : ¬ isQuote c) (hsort : (next o .empty c cs).sort = .token content)
    (htext : (next o .empty c cs).text = c :: tail) :
    next o .empty c tail = next o .empty c cs := by
  obtain ⟨after, hopens⟩ := opens_next o .empty c cs
  have hisOf := hopens.isOf
  rw [hsort] at hisOf
  obtain ⟨hfaults, hreads⟩ := hisOf
  rw [htext] at hreads
  by_cases hline : c = '\n'
  · simp only [next, if_pos hline]
  by_cases hdigit : c.isDigit
  · simp only [next, if_neg hline, if_pos hdigit] at hsort htext hfaults ⊢
    obtain ⟨x, rfl⟩ := NumberLiteral.content_of_next hsort
    cases hreads with
    | number _ hnumber =>
        rw [NumberLiteral.next_of_reads hdigit hnumber, Piece.eq_tokenOf hsort htext hfaults]
  by_cases hword : isWordStart c
  · simp only [next, if_neg hline, if_neg hdigit, if_neg hq, if_pos hword] at htext ⊢
    exact Word.next_alone htext
  simp only [next, if_neg hline, if_neg hdigit, if_neg hq, if_neg hword, recognize_empty] at hsort htext ⊢
  cases hs : Symbol.longest? (c :: cs) with
  | none =>
      rw [hs] at hsort
      contradiction
  | some s =>
      have hletters := Symbol.letters_eq_cons (Symbol.prefix_of_longest? hs)
      rw [hs] at htext
      obtain rfl : cs.take (s.letters.length - 1) = tail := (List.cons.inj htext).2
      rw [← hletters, Symbol.longest?_letters]
      simp only [List.take_take, Nat.min_self]

theorem next_again (hsort : (next o .empty c cs).sort = .token content)
    (htext : (next o .empty c cs).text = c :: tail) (hafter : ∀ d ∈ after.head?, ¬ isVisible d) :
    next o .empty c (tail ++ after) = next o .empty c cs := by
  by_cases hq : isQuote c
  · rw [next_of_isQuote hq] at hsort htext ⊢
    rw [next_of_isQuote hq]
    exact Quotation.next_again hq hsort htext after
  · have hvisible := isVisible_of_next hq htext
    have hrun : (tail ++ after).takeWhile isVisible = tail := by
      rw [List.takeWhile_append_of_pos hvisible]
      cases after with
      | nil => simp
      | cons d after => simp [hafter d rfl]
    rw [← next_takeWhile hq, hrun, next_alone hq hsort htext]

end Lexeme

namespace Piece

structure Rereads (o : Options) (p : Piece) : Prop where
  next_eq : ∀ c tail after, p.text = c :: tail → (∀ d ∈ after.head?, d = ' ') →
    next o .empty c (tail ++ after) = p
  head_eq : ∀ c ∈ p.text.head?, isHorizontal c = false
  faults_eq : p.faults = []

theorem rereads_next (hspace : o.comments.Avoids ' ') (hline : o.comments.Avoids '\n')
    (hsort : (next o .empty c cs).sort = .token content) : (next o .empty c cs).Rereads o := by
  have hopens := opens_next o .empty c cs
  have hisOf := hopens.isOf
  rw [hsort] at hisOf
  obtain ⟨tail, htext, hcs⟩ := hopens.exists_cons
  obtain ⟨ht, hpiece⟩ := next_of_token hsort
  refine ⟨?_, ?_, hisOf.1⟩
  · intro d more after hd hafter
    obtain ⟨rfl, rfl⟩ : c = d ∧ tail = more := by simpa [htext] using hd
    have hagain : Trivia.next? o c (tail ++ after) = none := by
      rw [← hcs] at ht
      exact Trivia.next?_again hspace hline ht hafter
    rw [hpiece] at hsort htext ⊢
    rw [next, hagain, Option.getD_none]
    refine Lexeme.next_again hsort htext fun e he => ?_
    rw [hafter e he]
    decide
  · intro d hd
    obtain rfl : c = d := by simpa [htext] using hd
    by_cases hc : c = '\n'
    · rw [hc]
      decide
    · exact (Trivia.not_opensAt_of_next? hc ht).1

theorem all_cons_space {text : List Char} (h : ∀ c ∈ text.head?, isHorizontal c = false) :
    all o .empty (' ' :: text) = .blankOf ' ' [] :: all o .empty text := by
  have hrun : text.takeWhile isHorizontal = [] := by
    cases text with
    | nil => rfl
    | cons c text => exact List.takeWhile_cons_of_neg (by simp [h c rfl])
  have hnext : next o .empty ' ' text = .blankOf ' ' [] := by
    have hblank : isHorizontal ' ' := by decide
    rw [next, Trivia.next?, if_pos hblank, hrun, Option.getD_some]
  rw [all_cons, hnext]
  rfl

theorem Rereads.all_append {p : Piece} (h : p.Rereads o) (after : List Char)
    (hafter : ∀ d ∈ after.head?, d = ' ') :
    all o .empty (p.text ++ after) = p :: all o .empty after := by
  obtain ⟨c, tail, htext⟩ := List.exists_cons_of_ne_nil p.text_ne_nil
  have hnext := h.next_eq c tail after htext hafter
  rw [htext, List.cons_append, all_cons, hnext, ← List.cons_append, ← htext, List.drop_left]

theorem all_intercalate {ps : List Piece} (h : ∀ p ∈ ps, p.Rereads o) :
    all o .empty ([' '].intercalate (ps.map text)) = ps.intersperse (.blankOf ' ' []) := by
  induction ps with
  | nil => simp
  | cons p ps ih =>
      obtain ⟨hp, hps⟩ := List.forall_mem_cons.1 h
      cases ps with
      | nil => simpa using hp.all_append [] (by simp)
      | cons q qs =>
          have hq := (List.forall_mem_cons.1 hps).1
          have hhead : ∀ c ∈ ([' '].intercalate ((q :: qs).map text)).head?, isHorizontal c = false := by
            intro c hc
            apply hq.head_eq
            obtain ⟨d, tail, htext⟩ := List.exists_cons_of_ne_nil q.text_ne_nil
            cases qs <;> simpa [htext] using hc
          rw [List.map_cons, List.map_cons, List.intercalate_cons_cons, List.append_assoc,
            hp.all_append _ (by simp), List.singleton_append, ← List.map_cons, all_cons_space hhead,
            ih hps, List.intersperse_cons_cons]

end Piece

end Lexing
