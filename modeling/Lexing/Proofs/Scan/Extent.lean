import Lexing.Proofs.Scan.Recognition

namespace Lexing

variable {v p : Char → Bool} {o : Options} {c : Char} {cs : List Char}

def isVisible (c : Char) : Bool := !isHorizontal c && c != '\n'

theorem not_visible_iff : isVisible c = false ↔
    c = ' ' ∨ c = '\t' ∨ c = '\r' ∨ c = '\x0c' ∨ c = '\x0b' ∨ c = '\n' := by
  simp only [isVisible, isHorizontal, Bool.and_eq_false_iff, Bool.not_eq_false', Bool.or_eq_true,
    beq_iff_eq, bne_eq_false_iff_eq, or_assoc]

theorem isVisible_of_isWordChar (h : isWordChar c) : isVisible c := by
  by_contra hc
  rcases not_visible_iff.1 (by simpa using hc) with rfl | rfl | rfl | rfl | rfl | rfl <;>
    exact absurd h (by decide)

theorem takeWhile_takeWhile_of_imp (h : ∀ d, p d → v d) :
    (cs.takeWhile v).takeWhile p = cs.takeWhile p := by
  rw [List.takeWhile_takeWhile]
  congr 1
  funext d
  simpa using h d

theorem dropWhile_takeWhile_of_imp (h : ∀ d, p d → v d) :
    (cs.takeWhile v).dropWhile p = (cs.dropWhile p).takeWhile v := by
  induction cs with
  | nil => rfl
  | cons c cs ih =>
      by_cases hp : p c
      · rw [List.takeWhile_cons_of_pos (h c hp), List.dropWhile_cons_of_pos hp,
          List.dropWhile_cons_of_pos hp, ih]
      · rw [List.dropWhile_cons_of_neg hp]
        by_cases hv : v c
        · rw [List.takeWhile_cons_of_pos hv, List.dropWhile_cons_of_neg hp]
        · rw [List.takeWhile_cons_of_neg hv]
          rfl

theorem prefix_takeWhile_iff {letters : List Char} (h : ∀ d ∈ letters, v d) :
    letters <+: cs.takeWhile v ↔ letters <+: cs := by
  constructor
  · exact fun hpre => hpre.trans (List.takeWhile_prefix v)
  · rintro ⟨rest, rfl⟩
    rw [List.takeWhile_append_of_pos h]
    exact List.prefix_append ..

namespace NumberLiteral

theorem finish_takeWhile (h : ∀ d, isWordChar d → v d) (c : Char) (whole fraction rest : List Char) :
    finish c whole fraction (rest.takeWhile v) = finish c whole fraction rest := by
  simp only [finish, takeWhile_takeWhile_of_imp h]

def onePoint : List Char → Bool
  | '.' :: '.' :: _ => false
  | '.' :: _ => true
  | _ => false

theorem onePoint_iff {rest : List Char} :
    onePoint rest ↔ ∃ more, rest = '.' :: more ∧ more.head? ≠ some '.' := by
  fun_cases onePoint rest <;> simp_all [List.head?_eq_some_iff]

theorem onePoint_cons {more : List Char} (h : ∀ after, more = '.' :: after → False) :
    onePoint ('.' :: more) = true := by
  rw [onePoint_iff]
  exact ⟨more, rfl, fun hhead => (List.head?_eq_some_iff.1 hhead).elim h⟩

theorem onePoint_eq_false {rest : List Char} (h : ∀ more, rest = '.' :: more → False) :
    onePoint rest = false := by
  rw [Bool.eq_false_iff, Ne, onePoint_iff]
  rintro ⟨more, hmore, -⟩
  exact h more hmore

theorem next_eq (c : Char) (cs : List Char) :
    next c cs =
      let whole := cs.takeWhile Char.isDigit
      let rest := cs.dropWhile Char.isDigit
      if onePoint rest then
        let fraction := rest.tail.takeWhile Char.isDigit
        let more := rest.tail.dropWhile Char.isDigit
        if fraction.isEmpty then .rejectedOf c (whole ++ ['.']) .malformedNumber
        else if onePoint more then
          .rejectedOf c (whole ++ '.' :: fraction ++
            '.' :: more.tail.takeWhile fun d => isWordChar d || d == '.') .malformedNumber
        else finish c whole fraction more
      else finish c whole [] rest := by
  have two (more : List Char) : onePoint ('.' :: '.' :: more) = false := rfl
  -- Two points in a row belong to what follows: the literal ends as it does before any other text.
  simp only [next]
  split
  · next hd => simp only [hd, two, Bool.false_eq_true, if_false]
  · next more hpoints hd =>
      simp only [hd, onePoint_cons hpoints, List.tail_cons, if_true]
      split
      · rfl
      · split
        · next hm => simp only [hm, two, Bool.false_eq_true, if_false]
        · next hpoint hm => simp only [hm, onePoint_cons hpoint, List.tail_cons, if_true]
        · next hpoint => simp only [onePoint_eq_false hpoint, Bool.false_eq_true, if_false]
  · next hpoint => simp only [onePoint_eq_false hpoint, Bool.false_eq_true, if_false]

theorem onePoint_takeWhile (hpoint : v '.') (rest : List Char) :
    onePoint (rest.takeWhile v) = onePoint rest := by
  rw [Bool.eq_iff_iff, onePoint_iff, onePoint_iff]
  cases rest with
  | nil => rfl
  | cons d more =>
      by_cases hd : d = '.'
      · subst hd
        rw [List.takeWhile_cons_of_pos hpoint]
        cases more with
        | nil => rfl
        | cons e more => by_cases he : v e <;> simp [he]; grind
      · by_cases hv : v d <;> simp [hv, hd]

theorem next_takeWhile (hword : ∀ d, isWordChar d → v d) (hpoint : v '.') :
    next c (cs.takeWhile v) = next c cs := by
  have hdigit (d : Char) (hd : d.isDigit) : v d := hword d (isWordChar_of_isDigit hd)
  have hrun (d : Char) (hd : (isWordChar d || d == '.') = true) : v d := by
    rcases Bool.or_eq_true_iff.1 hd with hd | hd
    · exact hword d hd
    · rwa [eq_of_beq hd]
  have htail {rest : List Char} (h : onePoint rest) :
      (rest.takeWhile v).tail = rest.tail.takeWhile v := by
    obtain ⟨more, rfl, -⟩ := onePoint_iff.1 h
    rw [List.takeWhile_cons_of_pos hpoint]
    rfl
  simp only [next_eq, takeWhile_takeWhile_of_imp hdigit, dropWhile_takeWhile_of_imp hdigit,
    onePoint_takeWhile hpoint, finish_takeWhile hword]
  split
  · next h =>
    simp only [htail h, takeWhile_takeWhile_of_imp hdigit, dropWhile_takeWhile_of_imp hdigit,
      onePoint_takeWhile hpoint, finish_takeWhile hword]
    split
    · rfl
    · split
      · next h => rw [htail h, takeWhile_takeWhile_of_imp hrun]
      · rfl
  · rfl

end NumberLiteral

theorem Word.next_takeWhile (h : ∀ d, isWordChar d → v d) (limit : Nat) (c : Char) :
    next limit c (cs.takeWhile v) = next limit c cs := by
  simp only [next, takeWhile_takeWhile_of_imp h]

namespace Symbol

theorem isVisible_of_mem (s : Symbol) : ∀ d ∈ s.letters, isVisible d := by
  rw [← List.all_eq_true]
  cases s <;> decide

theorem longest?_congr {cs ds : List Char} (h : ∀ s : Symbol, s.letters <+: cs ↔ s.letters <+: ds) :
    longest? cs = longest? ds := by
  rw [longest?, longest?, ← List.head?_filter, ← List.head?_filter]
  congr 2
  apply List.filter_congr
  intro entry hentry
  rw [Bool.eq_iff_iff, List.isPrefixOf_iff_prefix, List.isPrefixOf_iff_prefix,
    mem_longestFirst hentry]
  exact h entry.2

theorem letters_prefix_takeWhile (s : Symbol) :
    s.letters <+: c :: cs.takeWhile isVisible ↔ s.letters <+: c :: cs := by
  have hvisible := s.isVisible_of_mem
  cases hs : s.letters with
  | nil => simp
  | cons d letters =>
      rw [hs] at hvisible
      rw [List.cons_prefix_cons, List.cons_prefix_cons,
        prefix_takeWhile_iff (List.forall_mem_cons.1 hvisible).2]

theorem take_letters_takeWhile {s : Symbol} (h : s.letters <+: c :: cs) :
    (cs.takeWhile isVisible).take (s.letters.length - 1) = cs.take (s.letters.length - 1) := by
  have hvisible := s.letters_prefix_takeWhile.2 h
  cases hs : s.letters with
  | nil => simp
  | cons d letters =>
      rw [hs, List.cons_prefix_cons] at h hvisible
      rw [List.length_cons, Nat.add_sub_cancel, ← List.prefix_iff_eq_take.1 h.2,
        ← List.prefix_iff_eq_take.1 hvisible.2]

end Symbol

namespace Lexeme

theorem next_of_isQuote {r : Recognizers} (h : isQuote c) (cs : List Char) :
    next o r c cs = Quotation.next o.maxString c cs := by
  have hline := Quotation.isQuote_ne_newline h
  have hdigit : ¬ c.isDigit := by
    intro hdigit
    simp only [isQuote, Bool.or_eq_true, beq_iff_eq] at h
    rcases h with rfl | rfl <;> contradiction
  simp only [next, if_neg hline, if_neg hdigit, if_pos h]

theorem next_takeWhile (h : ¬ isQuote c) :
    next o .empty c (cs.takeWhile isVisible) = next o .empty c cs := by
  have hword (d : Char) (hd : isWordChar d) : isVisible d := isVisible_of_isWordChar hd
  have hsymbol : Symbol.longest? (c :: cs.takeWhile isVisible) = Symbol.longest? (c :: cs) :=
    Symbol.longest?_congr fun s => s.letters_prefix_takeWhile
  simp only [next, NumberLiteral.next_takeWhile hword (by decide), Word.next_takeWhile hword, if_neg h,
    hsymbol, recognize_empty]
  cases hs : Symbol.longest? (c :: cs) with
  | none => rfl
  | some s => simp only [Symbol.take_letters_takeWhile (Symbol.prefix_of_longest? hs)]

theorem isVisible_of_next {tail : List Char} (h : ¬ isQuote c)
    (htext : (next o .empty c cs).text = c :: tail) : ∀ d ∈ tail, isVisible d := by
  intro d hd
  obtain ⟨after, hopens⟩ := opens_next o .empty c (cs.takeWhile isVisible)
  rw [next_takeWhile h] at hopens
  obtain ⟨more, hmore, happend⟩ := hopens.exists_cons
  obtain rfl : more = tail := by simpa [hmore] using htext
  exact List.mem_takeWhile_imp (happend ▸ List.mem_append_left after hd)

end Lexeme

namespace Comments

def delimiters (k : Comments) : List String :=
  k.line ++ match k.block with
    | some (opening, closing) => [opening, closing]
    | none => []

def Avoids (k : Comments) (a : Char) : Prop := ∀ d ∈ k.delimiters, a ∉ d.toList

variable {k : Comments} {a : Char}

instance : Decidable (k.Avoids a) := inferInstanceAs (Decidable (∀ d ∈ k.delimiters, a ∉ d.toList))

theorem mem_delimiters_of_line {opening : String} (h : opening ∈ k.line) : opening ∈ k.delimiters :=
  List.mem_append_left _ h

theorem mem_delimiters_of_block {opening closing : String} (h : k.block = some (opening, closing)) :
    opening ∈ k.delimiters ∧ closing ∈ k.delimiters := by
  simp [delimiters, h]

end Comments

theorem not_prefix_cons {letters : List Char} (hne : letters ≠ []) (h : c ∉ letters) :
    ¬ letters <+: c :: cs := by
  obtain ⟨d, letters, rfl⟩ := List.exists_cons_of_ne_nil hne
  rw [List.mem_cons, not_or] at h
  rw [List.cons_prefix_cons]
  exact fun hpre => h.1 hpre.1.symm

namespace Trivia

theorem next?_newline_of_head? (h : ∀ block ∈ o.comments.block, block.1.toList.head? ≠ some '\n')
    (cs : List Char) : next? o '\n' cs = none := by
  have hblank : isHorizontal '\n' = false := by decide
  have hline : o.comments.opensLine '\n' cs = false := by simp [Comments.opensLine]
  simp only [next?, hblank, hline, Bool.false_eq_true, if_false]
  cases hb : o.comments.block with
  | none => simp only [block?, hb]
  | some delimiters =>
      refine block?_eq_none hb fun hopens => h delimiters hb ?_
      obtain ⟨d, more, hd⟩ := List.exists_cons_of_ne_nil hopens.1
      rw [hd, List.cons_prefix_cons] at hopens
      rw [hd, hopens.2.2.1]
      rfl

theorem next?_newline (hn : o.comments.Avoids '\n') (cs : List Char) : next? o '\n' cs = none :=
  next?_newline_of_head? (fun _ hb hhead =>
    hn _ (Comments.mem_delimiters_of_block hb).1 (List.mem_of_mem_head? hhead)) cs

end Trivia

end Lexing
