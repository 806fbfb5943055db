import Lexing.Proofs.Scan.Extent
import Lexing.Proofs.Scan.Recognition

namespace Lexing

namespace Quotation

inductive Begins (quote : Char) : List Char → Item → List Char → Prop
  | plain {c : Char} {rest : List Char} : c ≠ quote → c ≠ '\\' → c ≠ '\n' →
      Begins quote (c :: rest) (.plain c) rest
  | lineEnd {rest : List Char} : Begins quote ('\\' :: '\n' :: rest) (.continuation false) rest
  | returned {rest : List Char} :
      Begins quote ('\\' :: '\r' :: '\n' :: rest) (.continuation true) rest
  | escape {c : Char} {rest : List Char} : c ≠ '\n' → (c = '\r' → rest.head? ≠ some '\n') →
      Begins quote ('\\' :: c :: rest) (.escape c) rest

inductive Reads (quote : Char) : List Char → List Item → List Char → Prop
  | stop {cs : List Char} : (∀ i rest, ¬ Begins quote cs i rest) → Reads quote cs [] cs
  | item {cs more rest : List Char} {i : Item} {is : List Item} : Begins quote cs i more →
      Reads quote more is rest → Reads quote cs (i :: is) rest

def meanings : List (Char × Char) := [('n', '\n'), ('t', '\t'), ('r', '\r'), ('0', '\x00'),
  ('\\', '\\'), ('"', '"'), ('\'', '\'')]

inductive Decodes : List Item → List Char → Prop
  | nil : Decodes [] []
  | plain {is : List Item} {text : List Char} (c : Char) : Decodes is text →
      Decodes (.plain c :: is) (c :: text)
  | continuation {is : List Item} {text : List Char} (carriageReturn : Bool) : Decodes is text →
      Decodes (.continuation carriageReturn :: is) text
  | escape {is : List Item} {text : List Char} {c d : Char} : (c, d) ∈ meanings →
      Decodes is text → Decodes (.escape c :: is) (d :: text)

def unknownEscapes (place : Cursor) : List Item → List Diagnostic
  | [] => []
  | .plain _ :: is => unknownEscapes (place.skip 1) is
  | .continuation false :: is => unknownEscapes (place.skip 2) is
  | .continuation true :: is => unknownEscapes (place.skip 3) is
  | .escape c :: is =>
      let later := unknownEscapes (place.skip 2) is
      if c ∈ meanings.map Prod.fst then later
      else
        ⟨.invalidEscapeSequence, place.position,
          ⟨place.offset, place.offset + Text.size ['\\', c]⟩, String.ofList ['\\', c]⟩ :: later

def wholeDiagnostic (place : Cursor) (text : List Char) (cause : Cause) : Diagnostic :=
  ⟨cause, place.position, ⟨place.offset, place.offset + Text.size text⟩, Diagnostic.shorten text⟩

inductive Gives (limit : Nat) (place : Cursor) (quote : Char) (is : List Item)
    (body rest : List Char) : Option String → List Diagnostic → List Char → Prop
  | value {decoded : List Char} : rest.head? = some quote → Decodes is decoded →
      Text.size decoded ≤ limit →
      Gives limit place quote is body rest (some (String.ofList decoded)) []
        (quote :: (body ++ [quote]))
  | tooLarge {decoded : List Char} : rest.head? = some quote → Decodes is decoded →
      limit < Text.size decoded →
      Gives limit place quote is body rest none
        [wholeDiagnostic place (quote :: (body ++ [quote]))
          (.stringTooLarge (Text.size decoded) limit)]
        (quote :: (body ++ [quote]))
  | escapes (c : Char) : rest.head? = some quote → .escape c ∈ is → c ∉ meanings.map Prod.fst →
      Gives limit place quote is body rest none (unknownEscapes (place.skip 1) is)
        (quote :: (body ++ [quote]))
  | cut : rest.head? ≠ some quote →
      Gives limit place quote is body rest none
        (unknownEscapes (place.skip 1) is ++
          [wholeDiagnostic place (quote :: (body ++ rest.takeWhile (· ≠ '\n')))
            .unterminatedString])
        (quote :: (body ++ rest.takeWhile (· ≠ '\n')))

variable {quote : Char} {cs rest : List Char} {is : List Item}

theorem begins_iff {i : Item} : Begins quote cs i rest ↔ item? quote cs = some (i, rest) := by
  rw [item?_eq_some_iff]
  constructor
  · intro h
    cases h with
    | plain hquote hback hline => exact ⟨rfl, hquote, hline, hback⟩
    | lineEnd => exact ⟨rfl, trivial⟩
    | returned => exact ⟨rfl, trivial⟩
    | escape hline hreturn => exact ⟨rfl, hline, hreturn⟩
  · rintro ⟨rfl, h⟩
    cases i with
    | plain c => exact .plain h.1 h.2.2 h.2.1
    | continuation b =>
        cases b with
        | false => exact .lineEnd
        | true => exact .returned
    | escape c => exact .escape h.1 h.2

theorem reads_iff : Reads quote cs is rest ↔ items quote cs = (is, rest) := by
  constructor
  · intro h
    induction h with
    | stop hnone =>
        refine items_of_end ?_
        cases hi : item? quote _ with
        | none => rfl
        | some found => exact absurd (begins_iff.2 hi) (hnone _ _)
    | item hbegins _ ih => rw [items_of_item? (begins_iff.1 hbegins), ih]
  · intro h
    induction is generalizing cs with
    | nil =>
        obtain ⟨hnone, rfl⟩ := item?_of_items_nil h
        refine .stop fun i rest hbegins => ?_
        rw [begins_iff.1 hbegins] at hnone
        contradiction
    | cons i is ih =>
        obtain ⟨more, hi, hmore⟩ := exists_item?_of_items h
        exact .item (begins_iff.2 hi) (ih hmore)

theorem mem_meanings {c d : Char} : (c, d) ∈ meanings ↔ unescape? c = some d := by
  simp only [meanings, List.mem_cons, List.not_mem_nil, or_false, Prod.mk.injEq]
  fun_cases unescape? c <;> simp_all [eq_comm]

theorem Item.isValid_escape {c : Char} :
    (Item.escape c).isValid ↔ c ∈ meanings.map Prod.fst := by
  simp [Item.isValid, Option.isSome_iff_exists, ← mem_meanings]

theorem forall_isValid_iff :
    (∀ i ∈ is, i.isValid) ↔ ∀ c, .escape c ∈ is → c ∈ meanings.map Prod.fst := by
  constructor
  · intro h c hc
    exact Item.isValid_escape.1 (h _ hc)
  · intro h i hi
    cases i with
    | escape c => exact Item.isValid_escape.2 (h c hi)
    | _ => rfl

theorem decodes_of_isValid (h : ∀ i ∈ is, i.isValid) :
    Decodes is (is.flatMap Item.decoded) := by
  induction is with
  | nil => exact .nil
  | cons i is ih =>
      obtain ⟨hi, his⟩ := List.forall_mem_cons.1 h
      cases i with
      | plain c => exact .plain c (ih his)
      | continuation b => exact .continuation b (ih his)
      | escape c =>
          obtain ⟨d, hd⟩ := Option.isSome_iff_exists.1 hi
          have hdecoded : (Item.escape c).decoded = [d] := by rw [Item.decoded, hd]; rfl
          rw [List.flatMap_cons, hdecoded]
          exact .escape (mem_meanings.2 hd) (ih his)

theorem map_escapeFaults {place here : Cursor} {offset lines : Nat} (hfile : here.file = place.file)
    (hoffset : here.offset = place.offset + offset) (hline : here.line = place.line + lines)
    (hrest : here.rest = is.flatMap Item.text ++ rest) :
    (escapeFaults offset lines [] is).map (.ofFault place) = unknownEscapes here is := by
  induction is generalizing here offset lines with
  | nil => rfl
  | cons i is ih =>
      rw [List.flatMap_cons, List.append_assoc] at hrest
      have htake : here.rest.take i.text.length = i.text := by rw [hrest, List.take_left]
      have hlater : (escapeFaults (offset + Text.size i.text) (lines + i.text.count '\n') []
          is).map (.ofFault place) = unknownEscapes (here.skip i.text.length) is :=
        ih hfile (by rw [Cursor.skip_offset, htake, hoffset, Nat.add_assoc])
          (by rw [Cursor.skip_line, htake, hline, Nat.add_assoc])
          (by rw [Cursor.skip_rest, hrest, List.drop_left])
      rw [escapeFaults_cons, List.map_append, hlater]
      cases i with
      | plain c => rfl
      | continuation b => cases b <;> rfl
      | escape c =>
          by_cases hc : c ∈ meanings.map Prod.fst
          · rw [if_pos (Item.isValid_escape.2 hc), unknownEscapes, if_pos hc]
            rfl
          · rw [if_neg (mt Item.isValid_escape.1 hc), unknownEscapes, if_neg hc, Cursor.position,
              hfile, hline, hoffset]
            rfl

theorem takeWhile_of_item? (h : item? quote rest = none) (hr : rest.head? ≠ some quote) :
    rest.takeWhile (· == '\\') = rest.takeWhile (· ≠ '\n') := by
  rcases item?_eq_none_iff.1 h with rfl | rfl | ⟨c, more, rfl, -, rfl | rfl⟩
  · rfl
  · rfl
  · exact absurd rfl hr
  · rfl

theorem gives_next (limit : Nat) {place : Cursor} (hplace : place.rest = quote :: cs)
    (hquote : Lexeme.isQuote quote) (h : Reads quote cs is rest) :
    ∃ value, Gives limit place quote is (is.flatMap Item.text) rest value
        ((next limit quote cs).faults.map (.ofFault place)) (next limit quote cs).text ∧
      (next limit quote cs).sort = value.elim .rejected fun v => .token (.string v) := by
  have hitems := reads_iff.1 h
  have hcs : is.flatMap Item.text ++ rest = cs := by
    have happend := items_append quote cs
    rwa [hitems] at happend
  have hend : item? quote rest = none := by
    have hnone := item?_items quote cs
    rwa [hitems] at hnone
  have hfaults : (escapeFaults quote.utf8Size 0 [] is).map (.ofFault place) =
      unknownEscapes (place.skip 1) is := by
    have hahead : (place.skip 1).rest = is.flatMap Item.text ++ rest := by
      rw [Cursor.skip_rest, hplace, hcs]
      rfl
    refine map_escapeFaults rfl ?_ ?_ hahead
    · simp [hplace]
    · simp [hplace, isQuote_ne_newline hquote]
  by_cases hclosed : rest.head? = some quote
  · obtain ⟨after, rfl⟩ := List.head?_eq_some_iff.1 hclosed
    rw [next_of_closed hitems]
    by_cases hvalid : ∀ i ∈ is, i.isValid
    · rw [escapeFaults_eq_nil.2 hvalid]
      have hdecodes := decodes_of_isValid hvalid
      by_cases hsize : limit < Text.size (is.flatMap Item.decoded)
      · rw [if_neg (by simp), if_pos hsize]
        exact ⟨none, .tooLarge hclosed hdecodes hsize, rfl⟩
      · rw [if_neg (by simp), if_neg hsize]
        exact ⟨some _, .value hclosed hdecodes (by omega), rfl⟩
    · rw [if_pos (by simpa using mt escapeFaults_eq_nil.1 hvalid), hfaults]
      obtain ⟨c, hc, hunknown⟩ : ∃ c, .escape c ∈ is ∧ c ∉ meanings.map Prod.fst := by
        simpa only [not_forall, exists_prop] using mt forall_isValid_iff.2 hvalid
      exact ⟨none, .escapes c hclosed hc hunknown, rfl⟩
  · rw [next_of_cut hitems hclosed, takeWhile_of_item? hend hclosed, List.map_append, hfaults]
    exact ⟨none, .cut hclosed, rfl⟩

end Quotation

theorem Piece.next_of_isQuote {o : Options} {r : Recognizers} {quote : Char} {cs : List Char}
    (hquote : Lexeme.isQuote quote) (hcomment : ¬ o.comments.OpensAt (quote :: cs)) :
    next o r quote cs = Quotation.next o.maxString quote cs := by
  have hblank : ¬ isHorizontal quote := by
    intro hblank
    simp only [Lexeme.isQuote, Bool.or_eq_true, beq_iff_eq] at hquote
    rcases hquote with rfl | rfl <;> contradiction
  have htrivia : Trivia.next? o quote cs = none := by
    cases hp : Trivia.next? o quote cs with
    | none => rfl
    | some p => exact ((Trivia.opensAt_of_next? hp).elim hblank hcomment).elim
  rw [next, htrivia, Option.getD_none, Lexeme.next_of_isQuote hquote]

namespace Scanner

variable {s : Scanner} {quote : Char} {cs : List Char}

def ReadsQuotation (s : Scanner) (quote : Char) (cs : List Char) : Prop :=
  ∃ is body rest, (∀ js more, Quotation.Reads quote cs js more ↔ js = is ∧ more = rest) ∧
    cs = body ++ rest ∧ ∃ value reports text,
      Quotation.Gives s.options.maxString s.cursor quote is body rest value reports text ∧
      text <+: s.cursor.rest ∧
      let beyond := { s with
        cursor := s.cursor.skip text.length
        diagnostics := s.diagnostics ++ reports }
      s.next = match value with
        | some v => (⟨.string v, s.cursor.position,
            ⟨s.cursor.offset, s.cursor.offset + Text.size text⟩⟩, beyond)
        | none => beyond.next

theorem readsQuotation (hrest : s.cursor.rest = quote :: cs) (hquote : Lexeme.isQuote quote)
    (hcomment : ¬ s.options.comments.OpensAt (quote :: cs)) : s.ReadsQuotation quote cs := by
  obtain ⟨is, rest, hitems⟩ : ∃ is rest, Quotation.items quote cs = (is, rest) := ⟨_, _, rfl⟩
  have happend := Quotation.items_append quote cs
  rw [hitems] at happend
  refine ⟨is, _, rest, fun js more => ?_, happend.symm, ?_⟩
  · rw [Quotation.reads_iff, hitems, Prod.mk.injEq, @eq_comm _ is, @eq_comm _ rest]
  have hpiece : Piece.next s.options s.recognizers quote cs =
      Quotation.next s.options.maxString quote cs := Piece.next_of_isQuote hquote hcomment
  obtain ⟨ps, hahead⟩ := ahead_of_rest hrest
  have hopens := Piece.opens_next s.options s.recognizers quote cs
  rw [hpiece] at hahead hopens
  obtain ⟨value, hgives, hsort⟩ := Quotation.gives_next s.options.maxString hrest hquote
    (Quotation.reads_iff.2 hitems)
  have hpre : (Quotation.next s.options.maxString quote cs).text <+: s.cursor.rest := by
    rw [hrest, ← hopens.text_eq]
    exact List.prefix_append ..
  refine ⟨value, _, _, hgives, hpre, ?_⟩
  obtain ⟨after, hafter⟩ := hpre
  rw [next_eq]
  cases value with
  | some v =>
      rw [reading_of_token hahead hsort (by simp)]
      have hstop : (s.pass (Quotation.next s.options.maxString quote cs)).cursor.offset =
          s.cursor.offset + Text.size (Quotation.next s.options.maxString quote cs).text := by
        rw [pass, Cursor.skip_offset, ← hafter, List.take_left]
      rw [hstop]
      rfl
  | none =>
      have hskipped : (Quotation.next s.options.maxString quote cs).sort.isSkipped := by
        rw [hsort]
        rfl
      rw [← read_passAll (show s.ahead = [_] ++ ps from hahead) (by simpa using hskipped),
        ← next_eq]
      rfl

theorem readsQuotation_escape :
    let s := ofText "d" "'a\\n\\q'" ⟨true, ⟨["//"], none⟩, 9, 9, 9⟩ .empty
    s.cursor.rest = '\'' :: ['a', '\\', 'n', '\\', 'q', '\''] ∧ Lexeme.isQuote '\'' ∧
      ¬ s.options.comments.OpensAt ('\'' :: ['a', '\\', 'n', '\\', 'q', '\'']) ∧
      s.ReadsQuotation '\'' ['a', '\\', 'n', '\\', 'q', '\''] := by
  have hcomment : ¬ Comments.OpensAt ⟨["//"], none⟩ ['\'', 'a', '\\', 'n', '\\', 'q', '\''] := by
    rintro (⟨opening, hopening, -, hpre⟩ | ⟨opening, closing, hblock, -⟩)
    · obtain rfl := List.mem_singleton.1 hopening
      revert hpre
      decide
    · contradiction
  exact ⟨rfl, rfl, hcomment, readsQuotation rfl rfl hcomment⟩

end Scanner

end Lexing
