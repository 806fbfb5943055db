import Lexing.Proofs.Scan.Grammar
import Mathlib.Data.List.TakeWhile

namespace Lexing

namespace Quotation

variable {quote : Char} {cs rest : List Char} {i : Item}

theorem text_append_of_item? (h : item? quote cs = some (i, rest)) : i.text ++ rest = cs := by
  fun_cases item? quote cs <;> grind [item?, Item.text]

def Item.Stands (quote : Char) (rest : List Char) : Item → Prop
  | .plain c => c ≠ quote ∧ c ≠ '\n' ∧ c ≠ '\\'
  | .continuation _ => True
  | .escape c => c ≠ '\n' ∧ (c = '\r' → rest.head? ≠ some '\n')

theorem item?_eq_some_iff :
    item? quote cs = some (i, rest) ↔ cs = i.text ++ rest ∧ i.Stands quote rest := by
  constructor
  · intro h
    refine ⟨(text_append_of_item? h).symm, ?_⟩
    fun_cases item? quote cs <;> grind [item?, Item.Stands, List.head?_eq_some_iff]
  · rintro ⟨rfl, h⟩
    cases i with
    | plain c => unfold item?; grind [Item.text, Item.Stands]
    | continuation b => cases b <;> rfl
    | escape c => unfold item?; grind [Item.text, Item.Stands]

theorem item?_eq_none_iff : item? quote cs = none ↔
    cs = [] ∨ cs = ['\\'] ∨ ∃ c more, cs = c :: more ∧ c ≠ '\\' ∧ (c = quote ∨ c = '\n') := by
  constructor
  · intro h
    fun_cases item? quote cs with
    | case1 => exact .inl rfl
    | case5 c cs _ _ hescape hc =>
        by_cases hback : c = '\\'
        · subst hback
          cases cs with
          | nil => exact .inr (.inl rfl)
          | cons d ds => exact (hescape d ds rfl rfl).elim
        · exact .inr (.inr ⟨c, cs, rfl, hback, by simpa [hback] using hc⟩)
    | _ => simp_all [item?]
  · rintro (rfl | rfl | ⟨c, more, rfl, hback, hc⟩)
    · rfl
    · simp [item?]
    · unfold item?
      grind

theorem Item.text_ne_nil (i : Item) : i.text ≠ [] := by
  cases i with
  | plain c => simp [text]
  | continuation b => cases b <;> simp [text]
  | escape c => simp [text]

theorem items_go_append (quote : Char) (found : List Item) (cs : List Char) :
    (items.go quote found cs).1.flatMap Item.text ++ (items.go quote found cs).2 =
      found.reverse.flatMap Item.text ++ cs := by
  fun_induction items.go quote found cs with
  | case1 found cs i rest hi ih =>
      rw [ih, ← text_append_of_item? hi]
      simp
  | case2 found cs hi => simp

theorem items_append (quote : Char) (cs : List Char) :
    (items quote cs).1.flatMap Item.text ++ (items quote cs).2 = cs := by
  simpa [items] using items_go_append quote [] cs

theorem item?_items_go (quote : Char) (found : List Item) (cs : List Char) :
    item? quote (items.go quote found cs).2 = none := by
  fun_induction items.go quote found cs with
  | case1 found cs i rest hi ih => exact ih
  | case2 found cs hi => exact hi

theorem item?_items (quote : Char) (cs : List Char) : item? quote (items quote cs).2 = none :=
  item?_items_go quote [] cs

theorem items_go_of_item? (found : List Item) (h : item? quote cs = some (i, rest)) :
    items.go quote found cs = items.go quote (i :: found) rest := by
  rw [items.go]
  split <;> simp_all

theorem items_go_of_end (found : List Item) (h : item? quote cs = none) :
    items.go quote found cs = (found.reverse, cs) := by
  rw [items.go]
  split <;> simp_all

theorem items_go_found (quote : Char) (found earlier : List Item) (cs : List Char) :
    items.go quote (found ++ earlier) cs =
      (earlier.reverse ++ (items.go quote found cs).1, (items.go quote found cs).2) := by
  fun_induction items.go quote found cs with
  | case1 found cs i rest hi ih => rw [items_go_of_item? _ hi, ← ih, List.cons_append]
  | case2 found cs hi => rw [items_go_of_end _ hi, List.reverse_append]

theorem items_of_item? (h : item? quote cs = some (i, rest)) :
    items quote cs = (i :: (items quote rest).1, (items quote rest).2) := by
  rw [items, items_go_of_item? [] h]
  exact items_go_found quote [] [i] rest

theorem items_of_end (h : item? quote cs = none) : items quote cs = ([], cs) :=
  items_go_of_end [] h

theorem exists_item?_of_items {is : List Item} (h : items quote cs = (i :: is, rest)) :
    ∃ more, item? quote cs = some (i, more) ∧ items quote more = (is, rest) := by
  cases hi : item? quote cs with
  | none => simp [items_of_end hi] at h
  | some found =>
      obtain ⟨j, more⟩ := found
      rw [items_of_item? hi, Prod.mk.injEq, List.cons.injEq] at h
      obtain ⟨⟨rfl, his⟩, hrest⟩ := h
      exact ⟨more, rfl, Prod.ext his hrest⟩

theorem item?_of_items_nil (h : items quote cs = ([], rest)) : item? quote cs = none ∧ cs = rest := by
  cases hi : item? quote cs with
  | none => exact ⟨rfl, congrArg Prod.snd ((items_of_end hi).symm.trans h)⟩
  | some found => simp [items_of_item? hi] at h

theorem mem_escapeFaults {offset lines : Nat} {found : List Fault} {is : List Item} {f : Fault} :
    f ∈ escapeFaults offset lines found is ↔ f ∈ found ∨
      ∃ before i after, is = before ++ i :: after ∧ i.isValid = false ∧
        f = ⟨offset + Text.size (before.flatMap Item.text),
          lines + (before.flatMap Item.text).count '\n', i.text, .invalidEscapeSequence⟩ := by
  induction is generalizing offset lines found with
  | nil => simp [escapeFaults]
  | cons j js ih =>
      simp only [escapeFaults, ih]
      constructor
      · rintro (hf | ⟨before, i, after, rfl, hi, rfl⟩)
        · split at hf
          · exact .inl hf
          · next hj =>
              rcases List.mem_cons.1 hf with rfl | hf
              · exact .inr ⟨[], j, js, rfl, by simpa using hj, by simp⟩
              · exact .inl hf
        · refine .inr ⟨j :: before, i, after, rfl, hi, ?_⟩
          simp [Nat.add_assoc]
      · rintro (hf | ⟨before, i, after, he, hi, rfl⟩)
        · left
          split
          · exact hf
          · exact List.mem_cons_of_mem _ hf
        · cases before with
          | nil =>
              obtain ⟨rfl, rfl⟩ : j = i ∧ js = after := by simpa using he
              simp [hi]
          | cons k before =>
              obtain ⟨rfl, rfl⟩ : j = k ∧ js = before ++ i :: after := by simpa using he
              exact .inr ⟨before, i, after, rfl, hi, by simp [Nat.add_assoc]⟩

theorem escapeFaults_found (offset lines : Nat) (found : List Fault) (is : List Item) :
    escapeFaults offset lines found is = found.reverse ++ escapeFaults offset lines [] is := by
  induction is generalizing offset lines found with
  | nil => simp [escapeFaults]
  | cons i is ih =>
      rw [escapeFaults, escapeFaults, ih]
      split
      · rfl
      · rw [ih _ _ [_], List.reverse_cons, List.append_assoc, List.reverse_singleton]

theorem escapeFaults_cons (offset lines : Nat) (i : Item) (is : List Item) :
    escapeFaults offset lines [] (i :: is) =
      (if i.isValid then [] else [⟨offset, lines, i.text, .invalidEscapeSequence⟩]) ++
        escapeFaults (offset + Text.size i.text) (lines + i.text.count '\n') [] is := by
  rw [escapeFaults, escapeFaults_found]
  split <;> rfl

theorem escapeFaults_append (offset lines : Nat) (is js : List Item) :
    escapeFaults offset lines [] (is ++ js) =
      escapeFaults offset lines [] is ++
        escapeFaults (offset + Text.size (is.flatMap Item.text))
          (lines + (is.flatMap Item.text).count '\n') [] js := by
  induction is generalizing offset lines with
  | nil => rfl
  | cons i is ih =>
      simp only [List.cons_append, escapeFaults_cons, ih, List.append_assoc, List.flatMap_cons,
        Text.size_append, List.count_append, Nat.add_assoc]

theorem escapeFaults_pairwise (offset lines : Nat) (is : List Item) :
    (escapeFaults offset lines [] is).Pairwise fun f g => f.stop ≤ g.stop := by
  induction is generalizing offset lines with
  | nil => exact .nil
  | cons i is ih =>
      rw [escapeFaults_cons]
      refine List.pairwise_append.2 ⟨?_, ih .., ?_⟩
      · split <;> simp
      · intro f hf g hg
        obtain rfl : f = ⟨offset, lines, i.text, .invalidEscapeSequence⟩ := by
          split at hf
          · simp at hf
          · exact List.mem_singleton.1 hf
        obtain ⟨before, j, after, -, -, rfl⟩ := (mem_escapeFaults.1 hg).resolve_left (by simp)
        simp only [Fault.stop]
        omega

theorem escapeFaults_eq_nil {offset lines : Nat} {is : List Item} :
    escapeFaults offset lines [] is = [] ↔ ∀ i ∈ is, i.isValid := by
  simp only [List.eq_nil_iff_forall_not_mem, mem_escapeFaults, List.not_mem_nil, false_or]
  constructor
  · intro h i hi
    obtain ⟨before, after, rfl⟩ := List.append_of_mem hi
    cases hv : i.isValid with
    | true => rfl
    | false => exact absurd ⟨before, i, after, rfl, hv, rfl⟩ (h _)
  · rintro h f ⟨before, i, after, rfl, hi, -⟩
    simp [h i (by simp)] at hi

theorem escapeFaults_within {is : List Item} {f : Fault} (tail : List Char)
    (hf : f ∈ escapeFaults quote.utf8Size 0 [] is) (hq : quote ≠ '\n') :
    f.Within (quote :: is.flatMap Item.text ++ tail) ∧ f.cause = .invalidEscapeSequence := by
  obtain ⟨before, i, after, rfl, -, rfl⟩ := (mem_escapeFaults.1 hf).resolve_left (by simp)
  refine ⟨⟨quote :: before.flatMap Item.text, after.flatMap Item.text ++ tail, ?_⟩, rfl⟩
  exact ⟨by simp, i.text_ne_nil, by simp, by simp [hq]⟩

theorem isQuote_ne_newline (h : Lexeme.isQuote quote) : quote ≠ '\n' := by
  rintro rfl
  exact absurd h (by decide)

theorem next_of_closed {limit : Nat} {is : List Item} {after : List Char}
    (h : items quote cs = (is, quote :: after)) :
    next limit quote cs =
      if !(escapeFaults quote.utf8Size 0 [] is).isEmpty then
        ⟨quote :: (is.flatMap Item.text ++ [quote]), .rejected,
          escapeFaults quote.utf8Size 0 [] is, List.cons_ne_nil _ _⟩
      else if limit < Text.size (is.flatMap Item.decoded) then
        .rejectedOf quote (is.flatMap Item.text ++ [quote])
          (.stringTooLarge (Text.size (is.flatMap Item.decoded)) limit)
      else
        .tokenOf quote (is.flatMap Item.text ++ [quote])
          (.string (String.ofList (is.flatMap Item.decoded))) := by
  simp [next, h]

theorem text_next_of_closed (limit : Nat) {is : List Item} {after : List Char}
    (h : items quote cs = (is, quote :: after)) :
    (next limit quote cs).text = quote :: (is.flatMap Item.text ++ [quote]) := by
  rw [next_of_closed h]
  split
  · rfl
  · split <;> rfl

theorem next_of_cut {limit : Nat} {is : List Item} (h : items quote cs = (is, rest))
    (hr : rest.head? ≠ some quote) :
    next limit quote cs =
      ⟨quote :: (is.flatMap Item.text ++ rest.takeWhile (· == '\\')), .rejected,
        escapeFaults quote.utf8Size 0 [] is ++
          [.whole (quote :: (is.flatMap Item.text ++ rest.takeWhile (· == '\\')))
            .unterminatedString], List.cons_ne_nil _ _⟩ := by
  cases rest with
  | nil => simp [next, h]
  | cons d after =>
      have hd : d ≠ quote := by simpa using hr
      simp [next, h, hd]

theorem after_of_item? (h : item? quote rest = none) (hr : rest.head? ≠ some quote) :
    rest.dropWhile (· == '\\') = [] ∨ (rest.dropWhile (· == '\\')).head? = some '\n' := by
  rcases item?_eq_none_iff.1 h with rfl | rfl | ⟨c, more, rfl, -, rfl | rfl⟩
  · simp
  · simp
  · exact absurd rfl hr
  · simp

theorem opens_next {o : Options} {r : Recognizers} (hq : Lexeme.isQuote quote) :
    ∃ after, (next o.maxString quote cs).Opens o r (quote :: cs) after := by
  have hn := isQuote_ne_newline hq
  have happ := items_append quote cs
  have hend := item?_items quote cs
  obtain ⟨is, rest, hitems⟩ : ∃ is rest, items quote cs = (is, rest) := ⟨_, _, rfl⟩
  rw [hitems] at happ hend
  by_cases hr : rest.head? = some quote
  · obtain ⟨after, rfl⟩ := List.head?_eq_some_iff.1 hr
    have htext : quote :: (is.flatMap Item.text ++ [quote]) ++ after = quote :: cs := by
      simpa using happ
    refine ⟨after, ?_⟩
    rw [next_of_closed hitems]
    split
    · next hbad =>
        have hne : escapeFaults quote.utf8Size 0 [] is ≠ [] := by simpa using hbad
        have hinvalid : ∃ i ∈ is, i.isValid = false := by
          simpa using mt escapeFaults_eq_nil.2 hne
        refine ⟨htext, .string quote is [quote] hq rfl (.escape _ hne hinvalid ?_), ?_⟩
        · intro f hf
          exact (escapeFaults_within [] hf hn).2
        · intro f hf
          exact (escapeFaults_within [quote] hf hn).1
    · next hgood =>
        have hvalid : ∀ i ∈ is, i.isValid := escapeFaults_eq_nil.1 (by simpa using hgood)
        split
        · next hlong =>
            exact Piece.opens_rejectedOf htext (.string quote is [quote] hq rfl (.tooLarge hvalid hlong))
        · apply Piece.opens_tokenOf htext
          exact .string quote is hq hvalid rfl
  · refine ⟨rest.dropWhile (· == '\\'), ?_⟩
    rw [next_of_cut hitems hr]
    refine ⟨by simp [← happ], .string quote is _ hq rfl (.unterminated _ _ ?_ ?_ ?_), ?_⟩
    · intro c hc
      have hback := List.mem_takeWhile_imp hc
      simpa using hback
    · exact after_of_item? hend hr
    · intro f hf
      exact (escapeFaults_within [] hf hn).2
    · intro f hf
      rcases List.mem_append.1 hf with hf | hf
      · exact (escapeFaults_within _ hf hn).1
      · obtain rfl := List.mem_singleton.1 hf
        exact Fault.within_whole (List.cons_ne_nil _ _) _

end Quotation

end Lexing
