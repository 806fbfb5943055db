import Lexing.Proofs.Scan.Extent

namespace Lexing

variable {o : Options} {c : Char} {cs ds : List Char}

namespace Text

def withReturns (cs : List Char) : List Char :=
  cs.flatMap fun c => if c = '\n' then ['\r', '\n'] else [c]

@[simp]
theorem withReturns_nil : withReturns [] = [] := rfl

@[simp]
theorem withReturns_newline (cs : List Char) :
    withReturns ('\n' :: cs) = '\r' :: '\n' :: withReturns cs := rfl

theorem withReturns_cons (h : c ≠ '\n') (cs : List Char) :
    withReturns (c :: cs) = c :: withReturns cs := by
  simp [withReturns, h]

@[simp]
theorem withReturns_append (cs ds : List Char) :
    withReturns (cs ++ ds) = withReturns cs ++ withReturns ds := List.flatMap_append

theorem withReturns_of_not_mem (h : '\n' ∉ cs) : withReturns cs = cs := by
  induction cs with
  | nil => rfl
  | cons c cs ih =>
      rw [List.mem_cons, not_or] at h
      rw [withReturns_cons (Ne.symm h.1), ih h.2]

@[simp]
theorem count_withReturns (cs : List Char) : (withReturns cs).count '\n' = cs.count '\n' := by
  induction cs with
  | nil => rfl
  | cons c cs ih =>
      by_cases hc : c = '\n'
      · simp [hc, ih]
      · simp [withReturns_cons hc, ih, hc]

theorem takeWhile_withReturns {p : Char → Bool} (hr : ¬ p '\r') (hn : ¬ p '\n') (cs : List Char) :
    (withReturns cs).takeWhile p = cs.takeWhile p := by
  induction cs with
  | nil => rfl
  | cons c cs ih =>
      by_cases hc : c = '\n'
      · rw [hc, withReturns_newline, List.takeWhile_cons_of_neg hr, List.takeWhile_cons_of_neg hn]
      · rw [withReturns_cons hc, List.takeWhile_cons, List.takeWhile_cons, ih]

theorem takeWhile_withReturns_cases {p : Char → Bool} (hr : p '\r') (hn : ¬ p '\n')
    (cs : List Char) :
    (withReturns cs).takeWhile p = withReturns (cs.takeWhile p) ∨
      (withReturns cs).takeWhile p = withReturns (cs.takeWhile p) ++ ['\r'] ∧
        (cs.dropWhile p).head? = some '\n' := by
  induction cs with
  | nil => exact .inl rfl
  | cons c cs ih =>
      by_cases hc : c = '\n'
      · -- The run takes the return and stops at the line end behind it.
        subst hc
        right
        simp [hr, hn]
      · rw [withReturns_cons hc]
        by_cases hp : p c
        · rw [List.takeWhile_cons_of_pos hp, List.takeWhile_cons_of_pos hp,
            List.dropWhile_cons_of_pos hp, withReturns_cons hc]
          rcases ih with hrun | ⟨hrun, hafter⟩
          · exact .inl (congrArg (c :: ·) hrun)
          · exact .inr ⟨congrArg (c :: ·) hrun, hafter⟩
        · left
          rw [List.takeWhile_cons_of_neg hp, List.takeWhile_cons_of_neg hp]
          rfl

theorem prefix_withReturns_iff {letters : List Char} (hr : '\r' ∉ letters) (hn : '\n' ∉ letters)
    (cs : List Char) : letters <+: withReturns cs ↔ letters <+: cs := by
  induction letters generalizing cs with
  | nil => simp
  | cons d letters ih =>
      rw [List.mem_cons, not_or] at hr hn
      cases cs with
      | nil => rfl
      | cons c cs =>
          by_cases hc : c = '\n'
          · subst hc
            rw [withReturns_newline, List.cons_prefix_cons, List.cons_prefix_cons]
            simp [Ne.symm hr.1, Ne.symm hn.1]
          · rw [withReturns_cons hc, List.cons_prefix_cons, List.cons_prefix_cons, ih hr.2 hn.2]

end Text

open Text

theorem throughText?_go_withReturns {closing passed returned : List Char} (hne : closing ≠ [])
    (hr : '\r' ∉ closing) (hn : '\n' ∉ closing)
    (hpassed : returned.reverse = withReturns passed.reverse) :
    throughText?.go closing returned (withReturns cs) =
      (throughText?.go closing passed cs).map withReturns := by
  have pass {c : Char} (h : c ∉ closing) (passed cs : List Char) :
      throughText?.go closing passed (c :: cs) = throughText?.go closing (c :: passed) cs := by
    rw [throughText?.go, if_neg]
    rw [List.isPrefixOf_iff_prefix]
    exact not_prefix_cons hne h
  induction cs generalizing passed returned with
  | nil => rfl
  | cons c cs ih =>
      by_cases hc : c = '\n'
      · rw [hc, withReturns_newline, pass hr, pass hn, pass hn]
        exact ih (by simp [hpassed])
      · have hpre := prefix_withReturns_iff hr hn (c :: cs)
        rw [withReturns_cons hc] at hpre ⊢
        simp only [throughText?.go, List.isPrefixOf_iff_prefix, hpre]
        split
        · simp [hpassed, withReturns_of_not_mem hn]
        · exact ih (by simp [hpassed, withReturns_cons hc])

theorem throughText?_withReturns {closing : List Char} (hne : closing ≠ []) (hr : '\r' ∉ closing)
    (hn : '\n' ∉ closing) (cs : List Char) :
    throughText? closing (withReturns cs) = (throughText? closing cs).map withReturns :=
  throughText?_go_withReturns hne hr hn rfl

def Cause.isCommentTooLong : Cause → Bool
  | .commentTooLong _ _ => true
  | _ => false

def Fault.note (f : Fault) : Cause × Nat := (f.cause, f.lines)

namespace Piece

def notes (p : Piece) : List (Cause × Nat) :=
  (p.faults.map Fault.note).filter fun n => !n.1.isCommentTooLong

structure Returned (p : Piece) (after : List Char) (q : Piece) : Prop where
  text_eq : q.text = withReturns p.text ∨
    q.text = withReturns p.text ++ ['\r'] ∧ after.head? = some '\n'
  sort_eq : q.sort = p.sort
  notes_eq : q.notes = p.notes

inductive ReturnedFrom (text : List Char) (p q : Piece) : Prop
  | intro (after : List Char) : p.text ++ after = text → p.Returned after q → ReturnedFrom text p q

theorem Returned.count_eq {p q : Piece} {after : List Char} (h : p.Returned after q) :
    q.text.count '\n' = p.text.count '\n' := by
  rcases h.text_eq with htext | ⟨htext, -⟩ <;> simp [htext]

theorem returned_self {p : Piece} (after : List Char) (h : '\n' ∉ p.text) : p.Returned after p where
  text_eq := .inl (withReturns_of_not_mem h).symm
  sort_eq := rfl
  notes_eq := rfl

end Piece

namespace Trivia

theorem notes_commentOf (limit : Nat) (c : Char) (cs : List Char) :
    (commentOf limit c cs).notes = [] := by
  simp only [Piece.notes, commentOf]
  split <;> rfl

theorem cons_takeWhile_withReturns {p : Char → Bool} (hc : c ≠ '\n') (hr : p '\r') (hn : ¬ p '\n')
    (cs : List Char) :
    c :: (withReturns cs).takeWhile p = withReturns (c :: cs.takeWhile p) ∨
      c :: (withReturns cs).takeWhile p = withReturns (c :: cs.takeWhile p) ++ ['\r'] ∧
        (cs.dropWhile p).head? = some '\n' := by
  rw [withReturns_cons hc]
  rcases takeWhile_withReturns_cases hr hn cs with hrun | ⟨hrun, hafter⟩
  · exact .inl (congrArg (c :: ·) hrun)
  · exact .inr ⟨congrArg (c :: ·) hrun, hafter⟩

theorem opensLine_withReturns (hc : c ≠ '\n') (hr : o.comments.Avoids '\r')
    (hn : o.comments.Avoids '\n') (cs : List Char) :
    o.comments.opensLine c (withReturns cs) = o.comments.opensLine c cs := by
  rw [Bool.eq_iff_iff]
  simp only [Comments.opensLine, Bool.and_eq_true, List.any_eq_true, List.isPrefixOf_iff_prefix]
  rw [← withReturns_cons hc]
  refine and_congr_right fun _ => exists_congr fun opening => and_congr_right fun hmem => ?_
  have hdelimiter := Comments.mem_delimiters_of_line hmem
  rw [prefix_withReturns_iff (hr opening hdelimiter) (hn opening hdelimiter)]

theorem returned_block? (hc : c ≠ '\n') (hr : o.comments.Avoids '\r') (hn : o.comments.Avoids '\n')
    (cs : List Char) :
    (block? o c cs = none ∧ block? o c (withReturns cs) = none) ∨
      ∃ p q, block? o c cs = some p ∧ block? o c (withReturns cs) = some q ∧
        Piece.ReturnedFrom (c :: cs) p q := by
  cases hb : o.comments.block with
  | none => exact .inl ⟨by simp only [block?, hb], by simp only [block?, hb]⟩
  | some delimiters =>
      obtain ⟨opening, closing⟩ := delimiters
      obtain ⟨hopening, hclosing⟩ := Comments.mem_delimiters_of_block hb
      have hpre := prefix_withReturns_iff (hr _ hopening) (hn _ hopening) (c :: cs)
      rw [withReturns_cons hc] at hpre
      by_cases h : opening.toList ≠ [] ∧ closing.toList ≠ [] ∧ opening.toList <+: c :: cs
      · right
        obtain ⟨hne, hclose, tail, htail⟩ := h
        obtain ⟨first, more, ho⟩ := List.exists_cons_of_ne_nil hne
        obtain ⟨rfl, rfl⟩ : first = c ∧ more ++ tail = cs := by simpa [ho] using htail
        have hmore : '\n' ∉ more := by
          have hopen := hn _ hopening
          rw [ho, List.mem_cons, not_or] at hopen
          exact hopen.2
        have hplain := block?_eq_some hb ho hclose tail
        have hreturned := block?_eq_some hb ho hclose (withReturns tail)
        rw [throughText?_withReturns hclose (hr _ hclosing) (hn _ hclosing)] at hreturned
        obtain ⟨after, hopens⟩ := opens_block .empty hplain
        rw [withReturns_append, withReturns_of_not_mem hmore]
        refine ⟨_, _, hplain, hreturned, after, hopens.text_eq, ?_⟩
        cases throughText? closing.toList tail with
        | none =>
            refine ⟨.inl ?_, rfl, rfl⟩
            simp [openComment, withReturns_cons hc, withReturns_of_not_mem hmore]
        | some body =>
            refine ⟨.inl ?_, rfl, ?_⟩
            · simp [commentOf, withReturns_cons hc, withReturns_of_not_mem hmore]
            · exact (notes_commentOf ..).trans (notes_commentOf ..).symm
      · exact .inl ⟨block?_eq_none hb h, block?_eq_none hb (by rwa [hpre])⟩

theorem returned_next? (hc : c ≠ '\n') (hr : o.comments.Avoids '\r') (hn : o.comments.Avoids '\n')
    (cs : List Char) :
    (next? o c cs = none ∧ next? o c (withReturns cs) = none) ∨
      ∃ p q, next? o c cs = some p ∧ next? o c (withReturns cs) = some q ∧
        Piece.ReturnedFrom (c :: cs) p q := by
  simp only [next?, opensLine_withReturns hc hr hn]
  split
  · right
    refine ⟨_, _, rfl, rfl, cs.dropWhile isHorizontal, by simp [Piece.blankOf], ?_⟩
    exact ⟨cons_takeWhile_withReturns hc (by decide) (by decide) cs, rfl, rfl⟩
  · split
    · right
      refine ⟨_, _, rfl, rfl, cs.dropWhile (· != '\n'), by simp [commentOf], ?_⟩
      refine ⟨cons_takeWhile_withReturns hc (by decide) (by decide) cs, rfl, ?_⟩
      exact (notes_commentOf ..).trans (notes_commentOf ..).symm
    · exact returned_block? hc hr hn cs

end Trivia

namespace Quotation

variable {quote : Char} {i : Item} {is : List Item} {rest : List Char}

def Item.withReturn : Item → Item
  | .continuation _ => .continuation true
  | i => i

@[simp]
theorem Item.decoded_withReturn (i : Item) : i.withReturn.decoded = i.decoded := by cases i <;> rfl

@[simp]
theorem Item.isValid_withReturn (i : Item) : i.withReturn.isValid = i.isValid := by cases i <;> rfl

@[simp]
theorem Item.count_withReturn (i : Item) : i.withReturn.text.count '\n' = i.text.count '\n' := by
  cases i with
  | continuation b => cases b <;> rfl
  | _ => rfl

theorem item?_withReturns (hr : '\r' ∉ cs) (h : item? quote cs = some (i, rest)) :
    item? quote (withReturns cs) = some (i.withReturn, withReturns rest) ∧
      i.withReturn.text = withReturns i.text := by
  obtain ⟨rfl, hstands⟩ := item?_eq_some_iff.1 h
  rw [List.mem_append, not_or] at hr
  have htext : i.withReturn.text = withReturns i.text := by
    cases i with
    | plain c => simp [Item.withReturn, Item.text, withReturns_cons hstands.2.1]
    | continuation b =>
        cases b with
        | false => rfl
        | true => simp [Item.text] at hr
    | escape c => simp [Item.withReturn, Item.text, withReturns_cons, hstands.1]
  refine ⟨item?_eq_some_iff.2 ⟨by rw [htext, withReturns_append], ?_⟩, htext⟩
  -- A backslash and a return would be an escape or not by what comes next, but there is no return.
  cases i with
  | escape c => exact ⟨hstands.1, fun hc => absurd hr.1 (by simp [Item.text, hc])⟩
  | _ => exact hstands

theorem item?_withReturns_of_end (h : item? quote cs = none) (hn : cs.head? ≠ some '\n') :
    item? quote (withReturns cs) = none := by
  rw [item?_eq_none_iff] at h ⊢
  rcases h with rfl | rfl | ⟨c, more, rfl, hback, hc⟩
  · exact .inl rfl
  · exact .inr (.inl rfl)
  · have hline : c ≠ '\n' := by simpa using hn
    exact .inr (.inr ⟨c, _, withReturns_cons hline more, hback, hc⟩)

theorem items_withReturns (hr : '\r' ∉ cs) (h : items quote cs = (is, rest)) :
    items quote (withReturns cs) = (is.map Item.withReturn ++ (items quote (withReturns rest)).1,
        (items quote (withReturns rest)).2) ∧
      (is.map Item.withReturn).flatMap Item.text = withReturns (is.flatMap Item.text) := by
  induction is generalizing cs with
  | nil =>
      obtain ⟨-, rfl⟩ := item?_of_items_nil h
      exact ⟨rfl, rfl⟩
  | cons i is ih =>
      obtain ⟨more, hi, hmore⟩ := exists_item?_of_items h
      have hcs := text_append_of_item? hi
      obtain ⟨hitem, htext⟩ := item?_withReturns hr hi
      obtain ⟨hitems, htexts⟩ := ih (fun hmem => hr (hcs ▸ List.mem_append_right _ hmem)) hmore
      constructor
      · rw [items_of_item? hitem, hitems]
        rfl
      · simp [htext, htexts]

theorem items_withReturns_of_newline (hq : quote ≠ '\r') (cs : List Char) :
    items quote (withReturns ('\n' :: cs)) = ([.plain '\r'], '\n' :: withReturns cs) := by
  have hreturn : item? quote ('\r' :: '\n' :: withReturns cs) =
      some (.plain '\r', '\n' :: withReturns cs) := by
    simp [item?, Ne.symm hq]
  have hline : item? quote ('\n' :: withReturns cs) = none := by simp [item?]
  rw [withReturns_newline, items_of_item? hreturn, items_of_end hline]

theorem notes_escapeFaults_withReturn {offset returned lines : Nat} {found more : List Fault}
    (h : more.map Fault.note = found.map Fault.note) (is : List Item) :
    (escapeFaults returned lines more (is.map Item.withReturn)).map Fault.note =
      (escapeFaults offset lines found is).map Fault.note := by
  induction is generalizing offset returned lines found more with
  | nil => simpa [escapeFaults] using h
  | cons i is ih =>
      simp only [List.map_cons, escapeFaults, Item.count_withReturn, Item.isValid_withReturn]
      apply ih
      split
      · exact h
      · rw [List.map_cons, List.map_cons, h]
        rfl

theorem notes_escapeFaults (quote : Char) (is : List Item) :
    (escapeFaults quote.utf8Size 0 [] (is.map Item.withReturn)).map Fault.note =
      (escapeFaults quote.utf8Size 0 [] is).map Fault.note :=
  notes_escapeFaults_withReturn rfl is

theorem escapeFaults_append_plain (offset lines : Nat) (found : List Fault) (is : List Item) (c : Char) :
    escapeFaults offset lines found (is ++ [.plain c]) = escapeFaults offset lines found is := by
  induction is generalizing offset lines found with
  | nil => rfl
  | cons i is ih => exact ih ..

theorem returned_of_closed {limit : Nat} {after ds after' : List Char} (hn : quote ≠ '\n')
    (h : items quote cs = (is, quote :: after))
    (hreturned : items quote ds = (is.map Item.withReturn, quote :: after'))
    (htext : (is.map Item.withReturn).flatMap Item.text = withReturns (is.flatMap Item.text)) :
    (next limit quote cs).Returned after (next limit quote ds) := by
  have hnotes := notes_escapeFaults quote is
  have hempty : (escapeFaults quote.utf8Size 0 [] (is.map Item.withReturn)).isEmpty =
      (escapeFaults quote.utf8Size 0 [] is).isEmpty := by
    rw [← List.isEmpty_map, hnotes, List.isEmpty_map]
  have hdecoded : (is.map Item.withReturn).flatMap Item.decoded = is.flatMap Item.decoded := by
    simp [List.flatMap_map]
  have hwhole : quote :: (withReturns (is.flatMap Item.text) ++ [quote]) =
      withReturns (quote :: (is.flatMap Item.text ++ [quote])) := by
    simp [withReturns_cons hn]
  rw [next_of_closed h, next_of_closed hreturned, hempty, hdecoded, htext]
  by_cases hbad : !(escapeFaults quote.utf8Size 0 [] is).isEmpty
  · rw [if_pos hbad, if_pos hbad]
    exact ⟨.inl hwhole, rfl, by simp only [Piece.notes, hnotes]⟩
  · rw [if_neg hbad, if_neg hbad]
    split
    · exact ⟨.inl hwhole, rfl, rfl⟩
    · exact ⟨.inl hwhole, rfl, rfl⟩

theorem returned_next {limit : Nat} (hq : Lexeme.isQuote quote) (hr : '\r' ∉ cs) :
    Piece.ReturnedFrom (quote :: cs) (next limit quote cs) (next limit quote (withReturns cs)) := by
  have hn := isQuote_ne_newline hq
  have hreturn : quote ≠ '\r' := by
    rintro rfl
    exact absurd hq (by decide)
  obtain ⟨is, rest, hitems⟩ : ∃ is rest, items quote cs = (is, rest) := ⟨_, _, rfl⟩
  have happ := items_append quote cs
  have hend := item?_items quote cs
  obtain ⟨hreturned, htext⟩ := items_withReturns hr hitems
  have hnotes := notes_escapeFaults quote is
  rw [hitems] at happ hend
  by_cases hline : rest.head? = some '\n'
  · -- A bare line end cuts the literal off, and the return before it is one more plain character.
    obtain ⟨more, rfl⟩ := List.head?_eq_some_iff.1 hline
    rw [items_withReturns_of_newline hreturn] at hreturned
    have hcut : ('\n' :: more).head? ≠ some quote := by simpa using Ne.symm hn
    have hcut' : ('\n' :: withReturns more).head? ≠ some quote := by simpa using Ne.symm hn
    rw [next_of_cut hitems hcut, next_of_cut hreturned hcut']
    refine ⟨'\n' :: more, by simpa using happ, .inr ⟨?_, rfl⟩, rfl, ?_⟩
    · simp [htext, withReturns_cons hn, Item.text]
    · simp [Piece.notes, escapeFaults_append_plain, hnotes, Fault.note, Fault.whole]
  · rw [items_of_end (item?_withReturns_of_end hend hline), List.append_nil] at hreturned
    by_cases hclose : rest.head? = some quote
    · obtain ⟨after, rfl⟩ := List.head?_eq_some_iff.1 hclose
      rw [withReturns_cons hn] at hreturned
      refine ⟨after, ?_, returned_of_closed hn hitems hreturned htext⟩
      rw [text_next_of_closed limit hitems]
      simpa using happ
    · have hrest : withReturns rest = rest := by
        rcases item?_eq_none_iff.1 hend with rfl | rfl | ⟨c, more, rfl, -, rfl | rfl⟩
        · rfl
        · rfl
        · exact absurd rfl hclose
        · exact absurd rfl hline
      rw [hrest] at hreturned
      rw [next_of_cut hitems hclose, next_of_cut hreturned hclose]
      refine ⟨rest.dropWhile (· == '\\'), by simpa using happ, .inl ?_, rfl, ?_⟩
      · have htail : '\n' ∉ rest.takeWhile (· == '\\') := by
          intro hmem
          have hback := List.mem_takeWhile_imp hmem
          contradiction
        simp [htext, withReturns_cons hn, withReturns_of_not_mem htail]
      · simp [Piece.notes, hnotes, Fault.note, Fault.whole]

end Quotation

end Lexing
