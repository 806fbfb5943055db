import Lexing.Proofs.Decimal.Words
import Lexing.Proofs.Scan.Numbers
import Mathlib.Data.List.Induction
import Mathlib.Data.Nat.Digits.Defs

namespace Lexing

namespace Numeral

theorem natOfDigits_concat (cs : List Char) (c : Char) :
    natOfDigits (cs ++ [c]) = 10 * natOfDigits cs + digitValue c := by
  rw [natOfDigits, List.foldl_append]
  rfl

theorem natOfDigits_eq (cs : List Char) :
    natOfDigits cs = Nat.ofDigits 10 (cs.reverse.map digitValue) := by
  induction cs using List.reverseRecOn with
  | nil => rfl
  | append_singleton cs c ih =>
      rw [natOfDigits_concat, ih, List.reverse_append, List.reverse_singleton,
        List.singleton_append, List.map_cons, Nat.ofDigits_cons, Nat.add_comm]

end Numeral

namespace Decimal

variable {x y : Decimal}

def value (x : Decimal) : ℚ :=
  (Nat.ofDigits 10 (x.whole.reverse.map Numeral.digitValue) : Nat) +
    (Nat.ofDigits 10 (x.fraction.reverse.map Numeral.digitValue) : Nat) / 10 ^ x.fraction.length

def payload (x : Decimal) : Option Binary64 := x.numeral.magnitude?.map (.finite false)

def padded (x : Decimal) (before behind : Nat) : Decimal where
  whole := List.replicate before '0' ++ x.whole
  fraction := x.fraction ++ List.replicate behind '0'
  whole_ne_nil := by simp [x.whole_ne_nil]
  isDigit := by
    have hzero (n : Nat) : ∀ c ∈ List.replicate n '0', c.isDigit := fun c hc => by
      rw [List.eq_of_mem_replicate hc]
      rfl
    simp only [List.append_assoc, List.forall_mem_append]
    exact ⟨hzero before, x.isDigit_whole, x.isDigit_fraction, hzero behind⟩

theorem value_padded (x : Decimal) (before behind : Nat) :
    (x.padded before behind).value = x.value := by
  have hzero (n : Nat) : ((List.replicate n '0').map Numeral.digitValue) = List.replicate n 0 :=
    List.map_replicate
  simp only [value, padded, List.reverse_append, List.reverse_replicate, List.map_append, hzero,
    List.length_append, List.length_replicate, Nat.ofDigits_append_replicate_zero,
    @Nat.ofDigits_append 10 (.replicate behind 0), Nat.ofDigits_replicate_zero, Nat.zero_add]
  rw [Nat.cast_mul, Nat.cast_pow, Nat.cast_ofNat, pow_add, mul_comm (10 ^ behind : ℚ),
    mul_div_mul_right _ _ (by positivity)]

theorem quotient_eq (n k p : Nat) :
    ((n * Nat.pow 2 k : Nat) / (Nat.pow 10 p : Nat) : ℚ) = n / 10 ^ p * 2 ^ k := by
  rw [Nat.pow_eq, Nat.pow_eq, div_mul_eq_mul_div]
  push_cast
  rfl

theorem value_eq (x : Decimal) :
    x.value = Numeral.natOfDigits (x.whole ++ x.fraction) / 10 ^ x.fraction.length := by
  have hpow : (10 : ℚ) ^ x.fraction.length ≠ 0 := by positivity
  rw [Numeral.natOfDigits_eq, List.reverse_append, List.map_append, Nat.ofDigits_append,
    List.length_map, List.length_reverse, value, Nat.cast_add, Nat.cast_mul, Nat.cast_pow,
    Nat.cast_ofNat, add_div, mul_div_cancel_left₀ _ hpow, add_comm]

theorem exists_payload (x : Decimal) : ∃ num den : Nat, 0 < den ∧
    (num / den : ℚ) = x.value * 2 ^ 1074 ∧
    x.payload = (Magnitude.nearest? num den).map (.finite false) := by
  have hden : 0 < Nat.pow 10 x.fraction.length := Nat.pow_pos (by decide)
  refine ⟨_, _, hden, ?_, congrArg _ (Numeral.magnitude?_ofParts x.whole x.fraction)⟩
  rw [value_eq]
  exact quotient_eq _ 1074 _

theorem payload_congr (h : x.value = y.value) : x.payload = y.payload := by
  obtain ⟨num, den, hden, hvalue, hx⟩ := x.exists_payload
  obtain ⟨num', den', hden', hvalue', hy⟩ := y.exists_payload
  rw [hx, hy, Magnitude.nearest?_congr hden hden' (by rw [hvalue, hvalue', h])]

theorem rounds_payload (x : Decimal) : Rounds x.value x.payload := by
  obtain ⟨num, den, hden, hvalue, hx⟩ := x.exists_payload
  rw [hx]
  exact Magnitude.rounds_nearest? hden hvalue

theorem below_payload (h : x.value ≤ y.value) : Below x.payload y.payload := by
  obtain ⟨num, den, hden, hvalue, hx⟩ := x.exists_payload
  obtain ⟨num', den', hden', hvalue', hy⟩ := y.exists_payload
  rw [hx, hy]
  refine Magnitude.below_nearest? hden hden' ?_
  rw [hvalue, hvalue']
  exact mul_le_mul_of_nonneg_right h (pow_nonneg zero_le_two _)

end Decimal

namespace Scanner

variable {s : Scanner} {x : Decimal}

structure Faces (s : Scanner) (x : Decimal) : Prop where
  rest : ∃ after, s.cursor.rest = x.text ++ after ∧ NumberLiteral.onePoint after = false ∧
    ∀ c ∈ after.head?, ¬ isWordChar c
  comment : ¬ s.options.comments.OpensAt s.cursor.rest

structure RoundsNumber (s : Scanner) (x : Decimal) : Prop where
  gives : s.GivesNumber x.payload x.text
  rounds : Rounds x.value x.payload
  padded : ∀ before behind, (x.padded before behind).payload = x.payload
  below : ∀ y : Decimal, x.value ≤ y.value → Below x.payload y.payload

theorem givesNumber_of_faces (h : s.Faces x) : s.GivesNumber x.payload x.text := by
  obtain ⟨after, hrest, hone, hfree⟩ := h.rest
  obtain ⟨c, whole, hwhole⟩ := List.exists_cons_of_ne_nil x.whole_ne_nil
  have htext : x.text = c :: NumberLiteral.body whole x.fraction := by
    rw [Decimal.text, hwhole, NumberLiteral.cons_body]
  have hdigit : c.isDigit := x.isDigit_whole c (by simp [hwhole])
  have hends : x.Ends after := by
    refine ⟨fun d hd hdigit => hfree d hd (NumberLiteral.isWordChar_of_isDigit hdigit), ?_⟩
    rintro - d more rfl hd
    have hpoint := NumberLiteral.onePoint_cons_of_isDigit hd more
    rw [hone] at hpoint
    contradiction
  rw [htext, List.cons_append] at hrest
  have hcomment := h.comment
  rw [hrest] at hcomment
  have hpiece := Piece.next_of_isDigit (o := s.options) (r := s.recognizers) hdigit hcomment
  rw [NumberLiteral.next_of_ends hends hwhole, hone, if_neg Bool.false_ne_true,
    NumberLiteral.finish_of_free c whole x.fraction hfree, ← hwhole] at hpiece
  rw [htext]
  exact (givesNumber_of_piece hrest hpiece).2

theorem roundsNumber (h : s.Faces x) : s.RoundsNumber x where
  gives := givesNumber_of_faces h
  rounds := x.rounds_payload
  padded before behind := Decimal.payload_congr (x.value_padded before behind)
  below _ := Decimal.below_payload

theorem roundsNumber_tenth :
    let s := ofText "d" "0.1 + x" ⟨true, ⟨["//"], none⟩, 9, 9, 9⟩ .empty
    let x : Decimal := ⟨['0'], ['1'], List.cons_ne_nil _ _, by simp⟩
    s.Faces x ∧ s.RoundsNumber x := by
  intro s x
  have hfree : ∀ c ∈ " + x".toList.head?, ¬ isWordChar c := by
    rintro c ⟨⟩
    decide
  have h : s.Faces x :=
    ⟨⟨" + x".toList, rfl, rfl, hfree⟩, not_opensAt_slashes (by decide)⟩
  exact ⟨h, roundsNumber h⟩

end Scanner

end Lexing
