import Lexing.Proofs.Scan.Extent

namespace Lexing

structure Decimal where
  whole : List Char
  fraction : List Char
  whole_ne_nil : whole ≠ []
  isDigit : ∀ c ∈ whole ++ fraction, c.isDigit

namespace Decimal

variable {x y : Decimal} {after : List Char}

def text (x : Decimal) : List Char := NumberLiteral.body x.whole x.fraction

def numeral (x : Decimal) : Numeral := .ofParts x.whole x.fraction

structure Ends (x : Decimal) (after : List Char) : Prop where
  digit : ∀ c ∈ after.head?, ¬ c.isDigit
  point : x.fraction = [] → ∀ c more, after = '.' :: c :: more → ¬ c.isDigit

theorem isDigit_whole (x : Decimal) : ∀ c ∈ x.whole, c.isDigit :=
  (List.forall_mem_append.1 x.isDigit).1

theorem isDigit_fraction (x : Decimal) : ∀ c ∈ x.fraction, c.isDigit :=
  (List.forall_mem_append.1 x.isDigit).2

theorem read?_text (x : Decimal) : Numeral.read? x.text = some (x.numeral.value false) :=
  Numeral.read?_of_isDigit x.whole_ne_nil x.isDigit_whole x.isDigit_fraction

theorem dropWhile_text_append (x : Decimal) (h : ∀ c ∈ after.head?, ¬ c.isDigit) :
    (x.text ++ after).dropWhile Char.isDigit = NumberLiteral.body [] x.fraction ++ after :=
  NumberLiteral.dropWhile_body_append x.fraction x.isDigit_whole h

theorem text_of_ne_nil (h : x.fraction ≠ []) : x.text = x.whole ++ '.' :: x.fraction := by
  simp [text, NumberLiteral.body, h]

theorem text_of_eq_nil (h : x.fraction = []) : x.text = x.whole := by
  simp [text, NumberLiteral.body, h]

theorem Ends.longest (h : x.Ends after) (hy : y.text <+: x.text ++ after) : y.text <+: x.text := by
  rcases List.prefix_or_prefix_of_prefix hy (List.prefix_append x.text after) with hpre | hpre
  · exact hpre
  obtain ⟨more, hmore⟩ := hpre
  cases more with
  | nil => simp [← hmore]
  | cons d more =>
      rw [← hmore, List.prefix_append_right_inj] at hy
      obtain ⟨rest, rfl⟩ := hy
      have hd : ¬ d.isDigit := h.digit d rfl
      have hdrop : NumberLiteral.body [] x.fraction ++ d :: more =
          NumberLiteral.body [] y.fraction := by
        rw [← x.dropWhile_text_append (by simpa using hd), hmore]
        exact NumberLiteral.dropWhile_body y.isDigit_whole
      have hdigit := y.isDigit_fraction
      cases hy : y.fraction with
      | nil => simp [hy, NumberLiteral.body] at hdrop
      | cons f fs =>
          rw [hy] at hdrop hdigit
          cases hx : x.fraction with
          | nil =>
              rw [hx] at hdrop
              obtain ⟨rfl, rfl⟩ : d = '.' ∧ more = f :: fs := by
                simpa [NumberLiteral.body] using hdrop
              exact absurd (hdigit f List.mem_cons_self) (h.point hx f (fs ++ rest) rfl)
          | cons g gs =>
              rw [hx] at hdrop
              have hmem : d ∈ f :: fs := by
                have hfs : f :: fs = (g :: gs) ++ d :: more := by
                  simpa [NumberLiteral.body] using hdrop.symm
                simp [hfs]
              exact absurd (hdigit d hmem) hd

theorem exists_ends {c : Char} (hc : c.isDigit) (cs : List Char) :
    ∃ (x : Decimal) (after : List Char), x.text ++ after = c :: cs ∧ x.Ends after := by
  have hwhole := forall_mem_takeWhile Char.isDigit (c :: cs)
  have hne : (c :: cs).takeWhile Char.isDigit ≠ [] := by simp [hc]
  have hjoin := List.takeWhile_append_dropWhile (p := Char.isDigit) (l := c :: cs)
  have hrest : ∀ d ∈ ((c :: cs).dropWhile Char.isDigit).head?, ¬ d.isDigit :=
    NumberLiteral.head?_dropWhile_isDigit rfl
  generalize (c :: cs).takeWhile Char.isDigit = whole at hwhole hne hjoin
  generalize (c :: cs).dropWhile Char.isDigit = rest at hjoin hrest
  by_cases hpoint : ∃ d more, rest = '.' :: d :: more ∧ d.isDigit
  · obtain ⟨d, more, rfl, hd⟩ := hpoint
    have hfraction := forall_mem_takeWhile Char.isDigit (d :: more)
    have hfne : (d :: more).takeWhile Char.isDigit ≠ [] := by simp [hd]
    refine ⟨⟨whole, (d :: more).takeWhile Char.isDigit, hne,
      List.forall_mem_append.2 ⟨hwhole, hfraction⟩⟩, (d :: more).dropWhile Char.isDigit, ?_,
      NumberLiteral.head?_dropWhile_isDigit rfl, fun hnil => absurd hnil hfne⟩
    rw [text_of_ne_nil hfne, ← hjoin, List.append_assoc, List.cons_append,
      List.takeWhile_append_dropWhile]
  · exact ⟨⟨whole, [], hne, by simpa using hwhole⟩, rest, hjoin, hrest,
      fun _ d more hmore hd => hpoint ⟨d, more, hmore, hd⟩⟩

inductive Gives (x : Decimal) (after : List Char) : Option Binary64 → List Char → Prop
  | number (m : Magnitude) : NumberLiteral.onePoint after = false →
      (∀ c ∈ after.head?, ¬ isWordChar c) → Numeral.read? x.text = some (.finite false m) →
      Gives x after (some (.finite false m)) x.text
  | tooLarge : NumberLiteral.onePoint after = false → (∀ c ∈ after.head?, ¬ isWordChar c) →
      Numeral.read? x.text = some (.infinite false) → Gives x after none x.text
  | point : NumberLiteral.onePoint after → x.fraction = [] → Gives x after none (x.text ++ ['.'])
  | secondPoint : NumberLiteral.onePoint after → x.fraction ≠ [] →
      Gives x after none (x.text ++ after.takeWhile fun c => isWordChar c || c == '.')
  | word (c : Char) : after.head? = some c → isWordChar c →
      Gives x after none (x.text ++ after.takeWhile isWordChar)

theorem Gives.eq {value value' : Option Binary64} {text text' : List Char}
    (h : x.Gives after value text) (h' : x.Gives after value' text') :
    value = value' ∧ text = text' := by
  have hone {c : Char} (hc : after.head? = some c) (hword : isWordChar c)
      (hpoint : NumberLiteral.onePoint after) : False := by
    obtain ⟨more, rfl, -⟩ := NumberLiteral.onePoint_iff.1 hpoint
    obtain rfl : '.' = c := by simpa using hc
    exact absurd hword (by decide)
  cases h <;> cases h' <;> simp_all

end Decimal

namespace NumberLiteral

variable {x : Decimal} {c : Char} {cs ds after : List Char}

theorem body_eq_append (whole fraction : List Char) :
    body whole fraction = whole ++ body [] fraction := by
  cases fraction <;> simp [body]

theorem takeWhile_body_append (fraction : List Char) {whole rest : List Char}
    (hw : ∀ d ∈ whole, d.isDigit) (hrest : ∀ d ∈ rest.head?, ¬ d.isDigit) :
    (body whole fraction ++ rest).takeWhile Char.isDigit = whole := by
  have hjoin :=
    List.takeWhile_append_dropWhile (p := Char.isDigit) (l := body whole fraction ++ rest)
  rw [dropWhile_body_append fraction hw hrest] at hjoin
  exact List.append_cancel_right (hjoin.trans (by rw [body_eq_append whole, List.append_assoc]))

theorem onePoint_cons_of_isDigit {d : Char} (hd : d.isDigit) (more : List Char) :
    onePoint ('.' :: d :: more) := by
  refine onePoint_cons fun rest hrest => ?_
  obtain rfl : d = '.' := (List.cons.inj hrest).1
  contradiction

theorem takeWhile_of_onePoint (h : onePoint after) :
    '.' :: after.tail.takeWhile (fun d => isWordChar d || d == '.') =
      after.takeWhile fun d => isWordChar d || d == '.' := by
  obtain ⟨more, rfl, -⟩ := onePoint_iff.1 h
  simp

theorem next_of_ends (h : x.Ends after) (hwhole : x.whole = c :: ds) :
    next c (body ds x.fraction ++ after) =
      if onePoint after then
        if x.fraction = [] then .rejectedOf c (ds ++ ['.']) .malformedNumber
        else .rejectedOf c (body ds x.fraction ++
          after.takeWhile fun d => isWordChar d || d == '.') .malformedNumber
      else finish c ds x.fraction after := by
  have hds : ∀ d ∈ ds, d.isDigit :=
    (List.forall_mem_cons.1 (hwhole ▸ x.isDigit_whole)).2
  simp only [next_eq, takeWhile_body_append x.fraction hds h.digit,
    dropWhile_body_append x.fraction hds h.digit]
  cases hfraction : x.fraction with
  | nil =>
      simp only [body, List.isEmpty_nil, if_true, List.nil_append]
      split
      · next hone =>
          obtain ⟨more, rfl, -⟩ := onePoint_iff.1 hone
          have hmore : more.takeWhile Char.isDigit = [] := by
            cases more with
            | nil => rfl
            | cons d more => simpa using h.point hfraction d more rfl
          simp [hmore]
      · rfl
  | cons f fs =>
      have hf := x.isDigit_fraction
      rw [hfraction] at hf
      have hone := onePoint_cons_of_isDigit (hf f List.mem_cons_self) (fs ++ after)
      have htake := takeWhile_body_append [] hf h.digit
      have hdrop := dropWhile_body_append [] hf h.digit
      simp only [body, List.isEmpty_nil, if_true, List.nil_append] at htake hdrop
      simp only [body, List.isEmpty_cons, Bool.false_eq_true, if_false, List.nil_append,
        List.cons_append, hone, if_true, List.tail_cons, reduceCtorEq]
      rw [← List.cons_append, htake, hdrop, if_neg (by simp)]
      split
      · next hone => rw [← takeWhile_of_onePoint hone]
      · rfl

def pieceOf (c : Char) (ds : List Char) : Option Binary64 → Piece
  | some b => .tokenOf c ds (.number b)
  | none => .rejectedOf c ds .malformedNumber

theorem text_pieceOf (c : Char) (ds : List Char) (value : Option Binary64) :
    (pieceOf c ds value).text = c :: ds := by
  cases value <;> rfl

theorem finish_of_free (c : Char) (whole fraction : List Char)
    (h : ∀ d ∈ after.head?, ¬ isWordChar d) :
    finish c whole fraction after = pieceOf c (body whole fraction)
      ((Numeral.ofParts (c :: whole) fraction).magnitude?.map (.finite false)) := by
  have hrun : after.takeWhile isWordChar = [] := by
    cases after with
    | nil => rfl
    | cons d after => simpa using h d rfl
  simp only [finish, hrun, body]
  cases (Numeral.ofParts (c :: whole) fraction).magnitude? <;> rfl

theorem finish_of_word {d : Char} (whole fraction : List Char) (h : after.head? = some d)
    (hword : isWordChar d) :
    finish c whole fraction after =
      pieceOf c (body whole fraction ++ after.takeWhile isWordChar) none := by
  obtain ⟨more, rfl⟩ := List.head?_eq_some_iff.1 h
  simp only [finish, body, List.takeWhile_cons_of_pos hword]
  rfl

theorem gives_next (h : x.Ends after) (hcs : x.text ++ after = c :: cs) :
    ∃ ds value, next c cs = pieceOf c ds value ∧ x.Gives after value (c :: ds) := by
  obtain ⟨d, whole, hwhole⟩ := List.exists_cons_of_ne_nil x.whole_ne_nil
  have htext : x.text = d :: body whole x.fraction := by rw [Decimal.text, hwhole, cons_body]
  obtain ⟨rfl, rfl⟩ : d = c ∧ body whole x.fraction ++ after = cs := by simpa [htext] using hcs
  rw [next_of_ends h hwhole]
  split
  · next hone =>
      split
      · next hnil =>
          refine ⟨_, none, rfl, ?_⟩
          have hgives := Decimal.Gives.point hone hnil
          rwa [x.text_of_eq_nil hnil, hwhole] at hgives
      · next hne =>
          refine ⟨_, none, rfl, ?_⟩
          have hgives := Decimal.Gives.secondPoint hone hne
          rwa [htext] at hgives
  · next hone =>
      rw [Bool.not_eq_true] at hone
      by_cases hfree : ∀ e ∈ after.head?, ¬ isWordChar e
      · refine ⟨_, _, finish_of_free d whole x.fraction hfree, ?_⟩
        have hread := x.read?_text
        rw [← htext]
        rw [Decimal.numeral, Numeral.value, hwhole] at hread
        cases hm : (Numeral.ofParts (d :: whole) x.fraction).magnitude? with
        | none => exact .tooLarge hone hfree (by rw [hread, hm])
        | some m => exact .number m hone hfree (by rw [hread, hm])
      · obtain ⟨e, he, hword⟩ : ∃ e, after.head? = some e ∧ isWordChar e := by
          simpa using hfree
        refine ⟨_, none, finish_of_word whole x.fraction he hword, ?_⟩
        have hgives := Decimal.Gives.word (x := x) e he hword
        rwa [htext] at hgives

end NumberLiteral

theorem Piece.next_of_isDigit {o : Options} {r : Recognizers} {c : Char} {cs : List Char}
    (hdigit : c.isDigit) (hcomment : ¬ o.comments.OpensAt (c :: cs)) :
    next o r c cs = NumberLiteral.next c cs := by
  have hblank : ¬ isHorizontal c := by
    intro hblank
    simp only [isHorizontal, Bool.or_eq_true, beq_iff_eq] at hblank
    rcases hblank with (((rfl | rfl) | rfl) | rfl) | rfl <;> contradiction
  have hline : c ≠ '\n' := by
    rintro rfl
    contradiction
  have htrivia : Trivia.next? o c cs = none := by
    cases hp : Trivia.next? o c cs with
    | none => rfl
    | some p => exact ((Trivia.opensAt_of_next? hp).elim hblank hcomment).elim
  rw [next, htrivia, Option.getD_none, Lexeme.next, if_neg hline, if_pos hdigit]

namespace Scanner

variable {s : Scanner} {c : Char} {cs : List Char}

def GivesNumber (s : Scanner) (value : Option Binary64) (text : List Char) : Prop :=
  s.next = match value with
    | some b => (⟨.number b, s.cursor.position,
        ⟨s.cursor.offset, s.cursor.offset + Text.size text⟩⟩,
        { s with cursor := s.cursor.skip text.length })
    | none => next { s with
        cursor := s.cursor.skip text.length
        diagnostics := s.diagnostics.push ⟨.malformedNumber, s.cursor.position,
          ⟨s.cursor.offset, s.cursor.offset + Text.size text⟩, Diagnostic.shorten text⟩ }

theorem next_of_isSkipped {p : Piece} {ps : List Piece} (h : s.ahead = p :: ps)
    (hp : p.sort.isSkipped) : s.next = (s.pass p).next := by
  rw [next_eq, next_eq]
  exact (read_passAll (show s.ahead = [p] ++ ps from h) (by simpa using hp)).symm

theorem givesNumber_of_piece {ds : List Char} {value : Option Binary64}
    (hrest : s.cursor.rest = c :: cs)
    (h : Piece.next s.options s.recognizers c cs = NumberLiteral.pieceOf c ds value) :
    c :: ds <+: s.cursor.rest ∧ s.GivesNumber value (c :: ds) := by
  obtain ⟨ps, hahead⟩ := ahead_of_rest hrest
  have hopens := Piece.opens_next s.options s.recognizers c cs
  rw [h] at hahead hopens
  have htext := hopens.text_eq
  rw [NumberLiteral.text_pieceOf, ← hrest] at htext
  have hoffset : (s.cursor.skip (c :: ds).length).offset =
      s.cursor.offset + Text.size (c :: ds) := by
    rw [Cursor.skip_offset, ← htext, List.take_left]
  refine ⟨⟨_, htext⟩, ?_⟩
  cases value with
  | some b =>
      have hpass : s.pass (NumberLiteral.pieceOf c ds (some b)) =
          { s with cursor := s.cursor.skip (c :: ds).length } := by
        simp [NumberLiteral.pieceOf, pass, Piece.tokenOf]
      rw [GivesNumber, next_eq, reading_of_token hahead rfl (by simp), hpass, hoffset]
  | none =>
      rw [GivesNumber, next_of_isSkipped hahead rfl]
      simp [NumberLiteral.pieceOf, pass, Piece.rejectedOf, Diagnostic.ofFault, Fault.whole,
        Cursor.position]

def ReadsNumber (s : Scanner) : Prop :=
  ∃ (x : Decimal) (after : List Char), s.cursor.rest = x.text ++ after ∧
    (∀ y : Decimal, y.text <+: s.cursor.rest → y.text <+: x.text) ∧
    ∃ value text, (∀ v t, x.Gives after v t ↔ v = value ∧ t = text) ∧
      text <+: s.cursor.rest ∧ s.GivesNumber value text

theorem readsNumber (hrest : s.cursor.rest = c :: cs) (hdigit : c.isDigit)
    (hcomment : ¬ s.options.comments.OpensAt (c :: cs)) : s.ReadsNumber := by
  obtain ⟨x, after, hcs, hends⟩ := Decimal.exists_ends hdigit cs
  obtain ⟨ds, value, hpiece, hgives⟩ := NumberLiteral.gives_next hends hcs
  obtain ⟨hpre, hnext⟩ := givesNumber_of_piece hrest
    ((Piece.next_of_isDigit hdigit hcomment).trans hpiece)
  have hlongest : ∀ y : Decimal, y.text <+: s.cursor.rest → y.text <+: x.text := by
    intro y hy
    rw [hrest, ← hcs] at hy
    exact hends.longest hy
  refine ⟨x, after, hrest.trans hcs.symm, hlongest, value, c :: ds, fun v t => ⟨?_, ?_⟩, hpre,
    hnext⟩
  · exact fun h => h.eq hgives
  · rintro ⟨rfl, rfl⟩
    exact hgives

theorem not_opensAt_slashes (h : ¬ "//".toList <+: cs) :
    ¬ Comments.OpensAt ⟨["//"], none⟩ cs := by
  rintro (⟨opening, hopening, -, hpre⟩ | ⟨opening, closing, hblock, -⟩)
  · obtain rfl := List.mem_singleton.1 hopening
    exact h hpre
  · contradiction

theorem readsNumber_points :
    let s := ofText "d" "1.5.x + 2" ⟨true, ⟨["//"], none⟩, 9, 9, 9⟩ .empty
    s.cursor.rest = '1' :: ".5.x + 2".toList ∧ '1'.isDigit ∧
      ¬ s.options.comments.OpensAt ('1' :: ".5.x + 2".toList) ∧ s.ReadsNumber := by
  have hcomment := not_opensAt_slashes (by decide : ¬ "//".toList <+: '1' :: ".5.x + 2".toList)
  exact ⟨rfl, rfl, hcomment, readsNumber rfl rfl hcomment⟩

end Scanner

end Lexing
