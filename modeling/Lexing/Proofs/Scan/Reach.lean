import Lexing.Proofs.Scan.Faults
import Lexing.Proofs.Scan.Sites

namespace Lexing

theorem Text.prefix_append_iff {letters cs : List Char} (h : size letters ≤ size cs)
    (rest : List Char) : letters <+: cs ++ rest ↔ letters <+: cs :=
  ⟨fun hpre => prefix_of_size_le hpre (List.prefix_append cs rest) h,
    fun hpre => hpre.trans (List.prefix_append cs rest)⟩

theorem filter_le_eq_nil {A : Type} {f : A → Nat} {n : Nat} {as : List A}
    (h : ∀ a ∈ as, n < f a) : (as.filter fun a => f a ≤ n) = [] := by
  refine List.filter_eq_nil_iff.2 fun a ha => ?_
  rw [decide_eq_true_eq, Nat.not_le]
  exact h a ha

theorem run_append_cases (p : Char → Bool) (cs rest : List Char) :
    (cs.dropWhile p ≠ [] ∧ (cs ++ rest).takeWhile p = cs.takeWhile p ∧
      (cs ++ rest).dropWhile p = cs.dropWhile p ++ rest) ∨
    (cs.takeWhile p = cs ∧ cs <+: (cs ++ rest).takeWhile p) := by
  by_cases hall : cs.dropWhile p = []
  · have hp : ∀ c ∈ cs, p c := List.dropWhile_eq_nil_iff.1 hall
    refine .inr ⟨List.takeWhile_eq_self_iff.2 hp, ?_⟩
    rw [List.takeWhile_append_of_pos hp]
    exact List.prefix_append ..
  · have hne : cs.takeWhile p ≠ cs := by
      intro heq
      have hjoin := List.takeWhile_append_dropWhile (p := p) (l := cs)
      rw [heq] at hjoin
      exact hall (by simpa using hjoin)
    refine .inl ⟨hall, ?_, ?_⟩
    · rw [List.takeWhile_append, if_neg]
      exact fun hlength => hne ((List.takeWhile_prefix p).eq_of_length hlength)
    · rw [List.dropWhile_append, if_neg (by simpa using hall)]

namespace Piece

structure Reach (bytes : Nat) (text : List Char) (p q : Piece) : Prop where
  left : Text.size text < Text.size p.text + bytes
  right : Text.size text < Text.size q.text + bytes

def settled (bytes : Nat) (text : List Char) (p : Piece) : List Fault :=
  p.faults.filter fun f => f.stop + bytes ≤ Text.size text

structure Late (bytes : Nat) (text : List Char) (p q : Piece) : Prop extends
    Reach bytes text p q where
  settled_eq : p.settled bytes text = q.settled bytes text

variable {bytes more : Nat} {text : List Char} {p q : Piece}

theorem Reach.of_common (found : List Char) (hp : found <+: p.text) (hq : found <+: q.text)
    (h : Text.size text < Text.size found + bytes) : Reach bytes text p q := by
  have hp := Text.size_mono hp
  have hq := Text.size_mono hq
  exact ⟨by omega, by omega⟩

theorem Reach.of_text_eq (hp : p.text = text) (hq : text <+: q.text) : Reach 1 text p q :=
  .of_common text (hp ▸ List.prefix_rfl) hq (Nat.lt_succ_self _)

theorem Reach.mono (h : Reach bytes text p q) (hle : bytes ≤ more) : Reach more text p q :=
  ⟨by have := h.left; omega, by have := h.right; omega⟩

theorem Whole.settled_eq_nil (h : p.Whole) (hlate : Text.size text < Text.size p.text + bytes) :
    p.settled bytes text = [] :=
  filter_le_eq_nil fun f hf => by rwa [h.stop_eq hf]

theorem Reach.late (h : Reach bytes text p q) (hp : p.Whole) (hq : q.Whole) :
    Late bytes text p q where
  toReach := h
  settled_eq := by rw [hp.settled_eq_nil h.left, hq.settled_eq_nil h.right]

theorem late_of_size_lt (h : Text.size text < bytes) (p q : Piece) : Late bytes text p q := by
  have hnone (p : Piece) : p.settled bytes text = [] := filter_le_eq_nil fun f _ => by omega
  exact ⟨⟨by omega, by omega⟩, by rw [hnone p, hnone q]⟩

end Piece

open Piece

variable {o : Options} {c : Char}

theorem Word.text_next (limit : Nat) (c : Char) (cs : List Char) :
    (next limit c cs).text = c :: cs.takeWhile isWordChar := by
  simp only [next]
  split <;> rfl

theorem Word.next_append (limit : Nat) (c : Char) (cs rest : List Char) :
    next limit c (cs ++ rest) = next limit c cs ∨
      Reach 1 (c :: cs) (next limit c cs) (next limit c (cs ++ rest)) := by
  rcases run_append_cases isWordChar cs rest with ⟨-, hrun, -⟩ | ⟨hrun, hmore⟩
  · exact .inl (by simp only [next, hrun])
  · refine .inr (.of_text_eq ?_ ?_)
    · rw [text_next, hrun]
    · rw [text_next]
      exact List.cons_prefix_cons.2 ⟨rfl, hmore⟩

namespace NumberLiteral

theorem utf8Size_point : '.'.utf8Size = 1 := rfl

theorem text_finish (c : Char) (whole fraction rest : List Char) :
    (finish c whole fraction rest).text =
      c :: (body whole fraction ++ rest.takeWhile isWordChar) := by
  simp only [finish, body]
  split
  · next hrun => split <;> simp [tokenOf, rejectedOf, hrun]
  · next hrun => simp [rejectedOf]

theorem finish_append (c : Char) (whole fraction more rest : List Char) :
    finish c whole fraction (more ++ rest) = finish c whole fraction more ∨
      Reach 1 (c :: (body whole fraction ++ more)) (finish c whole fraction more)
        (finish c whole fraction (more ++ rest)) := by
  rcases run_append_cases isWordChar more rest with ⟨-, hrun, -⟩ | ⟨hrun, hmore⟩
  · exact .inl (by simp only [finish, hrun])
  · refine .inr (.of_text_eq ?_ ?_)
    · rw [text_finish, hrun]
    · rw [text_finish]
      exact List.cons_prefix_cons.2 ⟨rfl, (List.prefix_append_right_inj _).2 hmore⟩

theorem onePoint_append {more : List Char} (hne : more ≠ []) (hpoint : more ≠ ['.'])
    (rest : List Char) : onePoint (more ++ rest) = onePoint more := by
  obtain ⟨d, ds, rfl⟩ := List.exists_cons_of_ne_nil hne
  rw [Bool.eq_iff_iff, onePoint_iff, onePoint_iff]
  cases ds with
  | nil =>
      have hd : d ≠ '.' := by simpa using hpoint
      simp [hd]
  | cons e ds =>
      constructor
      · rintro ⟨_, ⟨rfl, rfl⟩, hhead⟩
        exact ⟨e :: ds, rfl, hhead⟩
      · rintro ⟨_, ⟨rfl, rfl⟩, hhead⟩
        exact ⟨e :: (ds ++ rest), rfl, hhead⟩

def decimal (c : Char) (whole fraction rest : List Char) : Piece :=
  if fraction.isEmpty then .rejectedOf c (whole ++ ['.']) .malformedNumber
  else if onePoint rest then
    .rejectedOf c (whole ++ '.' :: fraction ++
      '.' :: rest.tail.takeWhile fun d => isWordChar d || d == '.') .malformedNumber
  else finish c whole fraction rest

theorem next_eq_decimal (c : Char) (cs : List Char) :
    next c cs =
      if onePoint (cs.dropWhile Char.isDigit) then
        decimal c (cs.takeWhile Char.isDigit)
          ((cs.dropWhile Char.isDigit).tail.takeWhile Char.isDigit)
          ((cs.dropWhile Char.isDigit).tail.dropWhile Char.isDigit)
      else finish c (cs.takeWhile Char.isDigit) [] (cs.dropWhile Char.isDigit) :=
  next_eq c cs

theorem prefix_text_decimal (c : Char) (whole fraction rest : List Char) :
    c :: (whole ++ '.' :: fraction) <+: (decimal c whole fraction rest).text := by
  unfold decimal
  split
  · next hempty =>
      obtain rfl := List.isEmpty_iff.1 hempty
      exact List.prefix_rfl
  · next hfraction =>
      split
      · exact List.cons_prefix_cons.2 ⟨rfl, List.prefix_append ..⟩
      · rw [text_finish, body, if_neg hfraction]
        exact List.cons_prefix_cons.2 ⟨rfl, List.prefix_append ..⟩

theorem prefix_text_next (c : Char) (cs : List Char) :
    c :: cs.takeWhile Char.isDigit <+: (next c cs).text := by
  rw [next_eq_decimal]
  split
  · exact .trans (List.cons_prefix_cons.2 ⟨rfl, List.prefix_append ..⟩) (prefix_text_decimal ..)
  · rw [text_finish]
    exact List.cons_prefix_cons.2 ⟨rfl, List.prefix_append ..⟩

theorem decimal_append (c : Char) (whole fraction : List Char) {more : List Char} (hne : more ≠ [])
    (hpoint : more ≠ ['.']) (rest : List Char) :
    decimal c whole fraction (more ++ rest) = decimal c whole fraction more ∨
      Reach 1 (c :: (whole ++ '.' :: (fraction ++ more))) (decimal c whole fraction more)
        (decimal c whole fraction (more ++ rest)) := by
  unfold decimal
  split
  · exact .inl rfl
  next hfraction =>
  rw [onePoint_append hne hpoint]
  split
  · next hone =>
      obtain ⟨tail, rfl, -⟩ := onePoint_iff.1 hone
      rcases run_append_cases (fun d => isWordChar d || d == '.') tail rest with
        ⟨-, hrun, -⟩ | ⟨hrun, hmore⟩
      · exact .inl (by simp only [List.cons_append, List.tail_cons, hrun])
      · refine .inr (.of_text_eq ?_ ?_)
        · simp [rejectedOf, hrun]
        · simpa [rejectedOf] using hmore
  · have hfinish := finish_append c whole fraction more rest
    rw [body, if_neg hfraction] at hfinish
    simpa using hfinish

theorem decimal_run_append (c : Char) (whole cs rest : List Char) :
    decimal c whole ((cs ++ rest).takeWhile Char.isDigit) ((cs ++ rest).dropWhile Char.isDigit) =
        decimal c whole (cs.takeWhile Char.isDigit) (cs.dropWhile Char.isDigit) ∨
      Reach 2 (c :: (whole ++ '.' :: cs))
        (decimal c whole (cs.takeWhile Char.isDigit) (cs.dropWhile Char.isDigit))
        (decimal c whole ((cs ++ rest).takeWhile Char.isDigit)
          ((cs ++ rest).dropWhile Char.isDigit)) := by
  rcases run_append_cases Char.isDigit cs rest with ⟨hne, hrun, hdrop⟩ | ⟨hrun, hmore⟩
  · have hjoin := List.takeWhile_append_dropWhile (p := Char.isDigit) (l := cs)
    rw [hrun, hdrop]
    generalize cs.takeWhile Char.isDigit = fraction, cs.dropWhile Char.isDigit = more at *
    subst hjoin
    by_cases hpoint : more = ['.']
    · subst hpoint
      refine .inr (.of_common _ (prefix_text_decimal ..) (prefix_text_decimal ..) ?_)
      simp only [Text.size_cons, Text.size_append, Text.size_nil, utf8Size_point]
      omega
    · exact (decimal_append c whole fraction hne hpoint rest).imp_right fun h => h.mono (by omega)
  · refine .inr (.of_common (c :: (whole ++ '.' :: cs)) ?_ ?_ (by omega))
    · rw [hrun]
      exact prefix_text_decimal ..
    · refine .trans (List.cons_prefix_cons.2 ⟨rfl, ?_⟩) (prefix_text_decimal ..)
      exact (List.prefix_append_right_inj _).2 (List.cons_prefix_cons.2 ⟨rfl, hmore⟩)

theorem next_append (c : Char) (cs rest : List Char) :
    next c (cs ++ rest) = next c cs ∨ Reach 2 (c :: cs) (next c cs) (next c (cs ++ rest)) := by
  have hp := prefix_text_next c cs
  have hq := prefix_text_next c (cs ++ rest)
  rcases run_append_cases Char.isDigit cs rest with ⟨hne, hrun, hdrop⟩ | ⟨hrun, hmore⟩
  · rw [hrun] at hq
    -- A point that the text ends with can turn into two, and then the literal ends before it.
    by_cases hpoint : cs.dropWhile Char.isDigit = ['.']
    · right
      refine .of_common _ hp hq ?_
      have hjoin := List.takeWhile_append_dropWhile (p := Char.isDigit) (l := cs)
      have hsize := congrArg Text.size hjoin
      simp only [hpoint, Text.size_cons, Text.size_append, Text.size_nil, utf8Size_point] at hsize ⊢
      omega
    · rw [next_eq_decimal c (cs ++ rest), next_eq_decimal c cs, hrun, hdrop,
        onePoint_append hne hpoint]
      have hjoin := List.takeWhile_append_dropWhile (p := Char.isDigit) (l := cs)
      generalize cs.takeWhile Char.isDigit = whole, cs.dropWhile Char.isDigit = more at *
      subst hjoin
      split
      · next hone =>
          obtain ⟨tail, rfl, -⟩ := onePoint_iff.1 hone
          exact decimal_run_append c whole tail rest
      · exact (finish_append c whole [] more rest).imp_right fun h => h.mono (by omega)
  · right
    rw [hrun] at hp
    refine .of_common _ hp (.trans ?_ hq) (by omega)
    exact List.cons_prefix_cons.2 ⟨rfl, hmore⟩

end NumberLiteral

theorem Symbol.size_letters_le (s : Symbol) : Text.size s.letters ≤ 3 := by cases s <;> decide

theorem Lexeme.next_append {cs : List Char} (hq : ¬ isQuote c) (h : 3 ≤ Text.size (c :: cs))
    (rest : List Char) :
    next o .empty c (cs ++ rest) = next o .empty c cs ∨
      Reach 2 (c :: cs) (next o .empty c cs) (next o .empty c (cs ++ rest)) := by
  have hletters (s : Symbol) : s.letters <+: c :: (cs ++ rest) ↔ s.letters <+: c :: cs :=
    Text.prefix_append_iff (s.size_letters_le.trans h) rest
  simp only [next, if_neg hq, recognize_empty, Symbol.longest?_congr hletters]
  split
  · exact .inl rfl
  split
  · exact NumberLiteral.next_append c cs rest
  split
  · exact (Word.next_append o.maxIdentifier c cs rest).imp_right fun h => h.mono (by omega)
  split
  · next s hs =>
      have hlength := (Symbol.prefix_of_longest? hs).length_le
      rw [List.length_cons] at hlength
      rw [List.take_append_of_le_length (by omega)]
      exact .inl rfl
  · exact .inl rfl

end Lexing
