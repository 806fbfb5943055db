import Lexing.Proofs.Source.Rows
import Mathlib.Data.Prod.Lex

namespace Lexing

namespace Text

def bytes (cs : List Char) : List UInt8 := cs.flatMap String.utf8EncodeChar

def IsCut (text : List Char) (offset : Nat) : Prop :=
  ∃ before after, text = before ++ after ∧ size before = offset

theorem bytes_cons (c : Char) (cs : List Char) :
    bytes (c :: cs) = String.utf8EncodeChar c ++ bytes cs := rfl

theorem length_bytes (cs : List Char) : (bytes cs).length = size cs := by
  induction cs with
  | nil => rfl
  | cons c cs ih =>
      rw [bytes_cons, List.length_append, ih, String.length_utf8EncodeChar, size_cons]

theorem not_mem_utf8EncodeChar {c : Char} (h : c ≠ '\n') : 10 ∉ String.utf8EncodeChar c := by
  have hcode : c.val.toNat ≠ 10 := by
    intro hcode
    exact h (Char.ext (UInt32.toNat_inj.1 hcode))
  have byte_ne {n : Nat} (hn : n % 256 ≠ 10) : (10 : UInt8) ≠ UInt8.ofNat n := by
    intro heq
    exact hn (by simpa using (congrArg UInt8.toNat heq).symm)
  unfold String.utf8EncodeChar
  dsimp only
  split_ifs <;> simp only [List.mem_cons, List.not_mem_nil, or_false, not_or]
  · exact byte_ne (by omega)
  · exact ⟨byte_ne (by omega), byte_ne (by omega)⟩
  · exact ⟨byte_ne (by omega), byte_ne (by omega), byte_ne (by omega)⟩
  · exact ⟨byte_ne (by omega), byte_ne (by omega), byte_ne (by omega), byte_ne (by omega)⟩

theorem count_bytes (cs : List Char) : (bytes cs).count 10 = cs.count '\n' := by
  induction cs with
  | nil => rfl
  | cons c cs ih =>
      rw [bytes_cons, List.count_append, ih]
      by_cases hc : c = '\n'
      · subst hc
        rw [List.count_cons_self, Nat.add_comm]
        rfl
      · rw [List.count_eq_zero_of_not_mem (not_mem_utf8EncodeChar hc), List.count_cons_of_ne hc,
          Nat.zero_add]

end Text

namespace Lines

open Text

def firstBeyond? (starts : Array Nat) (offset low high : Nat) : Option Nat :=
  if _h : low < high then
    let middle := low + (high - low) / 2
    starts[middle]?.bind fun start =>
      if start ≤ offset then
        firstBeyond? starts offset (middle + 1) high
      else
        firstBeyond? starts offset low middle
  else
    some low
termination_by high - low
decreasing_by all_goals omega

inductive Answers (starts : List Nat) (offset : Nat) : Except Nat Nat → Prop where
  | found {i : Nat} : starts[i]? = some offset → Answers starts offset (.ok i)
  | missing {i : Nat} : i ≤ starts.length → (∀ n ∈ starts.take i, n < offset) →
      (∀ n ∈ starts.drop i, offset < n) → Answers starts offset (.error i)

def place? (l : Lines) (offset : Nat) : Option (Nat ×ₗ Nat) :=
  (l.column? offset).map fun column => toLex (l.lineAt offset, column)

structure Locates (l : Lines) (text : List Char) : Prop where
  count_eq : l.count = 1 + text.count '\n'
  sorted : l.starts.toList.Pairwise (· < ·)
  halving : ∀ offset, firstBeyond? l.starts offset 0 l.starts.size = some (l.lineAt offset)
  answers : ∀ offset, ∃ answer, Answers l.starts.toList offset answer
  searched : ∀ offset answer, Answers l.starts.toList offset answer →
    ∃ i, i < l.count ∧ l.lineAt offset = i + 1 ∧ (answer = .ok i ∨ answer = .error (i + 1))
  lineAt_eq : ∀ offset, l.lineAt offset = 1 + ((bytes text).take offset).count 10
  lineAt_end : ∀ offset, size text ≤ offset → l.lineAt offset = l.count
  column_eq : ∀ before after, text = before ++ after →
    l.column? (size before) = some (1 + (before.rtakeWhile (· != '\n')).length)
  increasing : ∀ m n, IsCut text m → IsCut text n → m < n →
    ∃ p q, l.place? m = some p ∧ l.place? n = some q ∧ p < q
  injective : ∀ m n, IsCut text m → IsCut text n → l.place? m = l.place? n → m = n
  line_isSome : ∀ n, (l.line? n).isSome ↔ 1 ≤ n ∧ n ≤ l.count
  line_eq : ∀ n, l.line? (n + 1) =
    (text.splitOn '\n')[n]?.map (List.rdropWhile (· == '\r'))

theorem firstBeyond?_eq {starts : Array Nat} (offset : Nat) {low high : Nat}
    (h : high ≤ starts.size) :
    firstBeyond? starts offset low high = some (firstBeyond starts offset low high) := by
  fun_induction firstBeyond starts offset low high with
  | case1 low high hlt middle hle ih =>
      have hmiddle : middle < starts.size := by omega
      rw [Array.getD_eq_getD_getElem?, Array.getElem?_eq_getElem hmiddle, Option.getD_some] at hle
      rw [firstBeyond?, dif_pos hlt]
      simp only [middle, Array.getElem?_eq_getElem hmiddle, Option.bind_some, if_pos hle]
      exact ih h
  | case2 low high hlt middle hgt ih =>
      have hmiddle : middle < starts.size := by omega
      rw [Array.getD_eq_getD_getElem?, Array.getElem?_eq_getElem hmiddle, Option.getD_some] at hgt
      rw [firstBeyond?, dif_pos hlt]
      simp only [middle, Array.getElem?_eq_getElem hmiddle, Option.bind_some, if_neg hgt]
      exact ih (by omega)
  | case3 low high hge => rw [firstBeyond?, dif_neg hge]

theorem ends_pairwise (cs : List Char) (offset : Nat) : (ends cs offset).Pairwise (· < ·) := by
  induction cs generalizing offset with
  | nil => exact .nil
  | cons c cs ih =>
      rw [ends, List.pairwise_append]
      refine ⟨by split <;> simp, ih _, ?_⟩
      intro m hm n hn
      have hbounds := bounds_of_mem_ends hn
      split at hm
      · obtain rfl := List.mem_singleton.1 hm
        exact hbounds.1
      · simp at hm

variable (text : List Char)

theorem starts_pairwise : (ofText text).starts.toList.Pairwise (· < ·) := by
  rw [toList_starts]
  exact .cons (fun n hn => (bounds_of_mem_ends hn).1) (ends_pairwise text 0)

theorem count_ofText : (ofText text).count = 1 + text.count '\n' := by
  rw [count, ← Array.length_toList, toList_starts, List.length_cons, length_ends, Nat.add_comm]

theorem exists_ends_split (cs : List Char) (base offset : Nat) :
    ∃ xs ys, ends cs base = xs ++ ys ∧ (∀ n ∈ xs, n ≤ base + offset) ∧
      (∀ n ∈ ys, base + offset < n) ∧ xs.length = ((bytes cs).take offset).count 10 := by
  induction cs generalizing base offset with
  | nil => exact ⟨[], [], rfl, by simp, by simp, by simp [bytes]⟩
  | cons c cs ih =>
      have hsize := String.length_utf8EncodeChar c
      rw [bytes_cons, List.take_append, hsize]
      rcases Nat.lt_or_ge offset c.utf8Size with hlt | hge
      · refine ⟨[], ends (c :: cs) base, rfl, by simp, ?_, ?_⟩
        · intro n hn
          rcases List.mem_append.1 hn with hn | hn
          · split at hn
            · obtain rfl := List.mem_singleton.1 hn
              omega
            · simp at hn
          · have := bounds_of_mem_ends hn
            omega
        · rw [Nat.sub_eq_zero_of_le hlt.le, List.take_zero, List.append_nil]
          by_cases hc : c = '\n'
          · subst hc
            obtain rfl : offset = 0 := Nat.lt_one_iff.1 hlt
            rfl
          · have hnone := not_mem_utf8EncodeChar hc
            rw [List.count_eq_zero_of_not_mem fun hmem => hnone (List.mem_of_mem_take hmem)]
            rfl
      · obtain ⟨xs, ys, hends, hxs, hys, hlength⟩ := ih (base + c.utf8Size) (offset - c.utf8Size)
        have hsum : base + c.utf8Size + (offset - c.utf8Size) = base + offset := by omega
        rw [hsum] at hxs hys
        refine ⟨(if c = '\n' then [base + c.utf8Size] else []) ++ xs, ys, ?_, ?_, hys, ?_⟩
        · rw [ends, hends, List.append_assoc]
        · intro n hn
          rcases List.mem_append.1 hn with hn | hn
          · split at hn
            · obtain rfl := List.mem_singleton.1 hn
              omega
            · simp at hn
          · exact hxs n hn
        · rw [List.take_of_length_le (by omega), List.count_append, List.length_append, hlength]
          by_cases hc : c = '\n'
          · subst hc
            rfl
          · rw [if_neg hc, List.count_eq_zero_of_not_mem (not_mem_utf8EncodeChar hc)]
            rfl

theorem exists_starts_split (offset : Nat) :
    ∃ xs ys, (ofText text).starts.toList = xs ++ ys ∧ (∀ n ∈ xs, n ≤ offset) ∧
      (∀ n ∈ ys, offset < n) ∧ xs.length = 1 + ((bytes text).take offset).count 10 := by
  obtain ⟨xs, ys, hends, hxs, hys, hlength⟩ := exists_ends_split text 0 offset
  rw [Nat.zero_add] at hxs hys
  refine ⟨0 :: xs, ys, by rw [toList_starts, hends, List.cons_append], ?_, hys, ?_⟩
  · exact List.forall_mem_cons.2 ⟨Nat.zero_le offset, hxs⟩
  · rw [List.length_cons, hlength, Nat.add_comm]

variable {text}

theorem exists_answers (offset : Nat) :
    ∃ answer, Answers (ofText text).starts.toList offset answer := by
  obtain ⟨xs, ys, hstarts, hxs, hys, -⟩ := exists_starts_split text offset
  rw [hstarts]
  by_cases hmem : offset ∈ xs
  · obtain ⟨i, hi⟩ := List.mem_iff_getElem?.1 hmem
    refine ⟨.ok i, .found ?_⟩
    rw [List.getElem?_append_left (List.getElem?_eq_some_iff.1 hi).1, hi]
  · refine ⟨.error xs.length, .missing (by simp) ?_ (by simpa using hys)⟩
    rw [List.take_left]
    intro n hn
    exact lt_of_le_of_ne (hxs n hn) fun heq => hmem (heq ▸ hn)

theorem index_of_answers {offset : Nat} {answer : Except Nat Nat}
    (h : Answers (ofText text).starts.toList offset answer) :
    ∃ i, i < (ofText text).count ∧ (ofText text).lineAt offset = i + 1 ∧
      (answer = .ok i ∨ answer = .error (i + 1)) := by
  have hsorted := starts_pairwise text
  have hcount : (ofText text).starts.toList.length = (ofText text).count := Array.length_toList
  generalize hstarts : (ofText text).starts.toList = starts at h hsorted hcount
  cases h with
  | @found i hi =>
      obtain ⟨hlt, hget⟩ := List.getElem?_eq_some_iff.1 hi
      have hsplit : starts = starts.take i ++ offset :: starts.drop (i + 1) := by
        rw [← hget, ← List.drop_eq_getElem_cons hlt, List.take_append_drop]
      rw [hsplit, List.pairwise_append, List.pairwise_cons] at hsorted
      obtain ⟨-, ⟨hafter, -⟩, hbefore⟩ := hsorted
      have happ : (ofText text).starts.toList =
          (starts.take i ++ [offset]) ++ starts.drop (i + 1) := by
        rw [hstarts, List.append_assoc, List.singleton_append, ← hsplit]
      have hline : (ofText text).lineAt offset = (starts.take i ++ [offset]).length := by
        refine lineAt_of_split happ (fun n hn => ?_) hafter
        rcases List.mem_append.1 hn with hn | hn
        · exact (hbefore n hn offset List.mem_cons_self).le
        · exact (List.mem_singleton.1 hn).le
      refine ⟨i, by omega, ?_, .inl rfl⟩
      rw [hline, List.length_append, List.length_take, List.length_singleton]
      omega
  | @missing i hle hbefore hafter =>
      have happ : (ofText text).starts.toList = starts.take i ++ starts.drop i := by
        rw [hstarts, List.take_append_drop]
      have hline : (ofText text).lineAt offset = (starts.take i).length :=
        lineAt_of_split happ (fun n hn => (hbefore n hn).le) hafter
      have hpos : i ≠ 0 := by
        rintro rfl
        rw [← hstarts, toList_starts] at hafter
        exact Nat.not_lt_zero offset (hafter 0 List.mem_cons_self)
      obtain ⟨j, rfl⟩ := Nat.exists_eq_succ_of_ne_zero hpos
      refine ⟨j, by omega, ?_, .inr rfl⟩
      rw [hline, List.length_take]
      omega

theorem lineAt_eq_count_bytes (offset : Nat) :
    (ofText text).lineAt offset = 1 + ((bytes text).take offset).count 10 := by
  obtain ⟨xs, ys, hstarts, hxs, hys, hlength⟩ := exists_starts_split text offset
  rw [lineAt_of_split hstarts hxs hys, hlength]

theorem column?_of_append {before after : List Char} (h : text = before ++ after) :
    (ofText text).column? (size before) = some (1 + (before.rtakeWhile (· != '\n')).length) := by
  obtain ⟨above, rest, below, hbefore, hafter, hrow⟩ := exists_row before after
  have hcolumn := hrow.column?_eq.2
  rw [← size_append, ← hbefore] at hcolumn
  rw [h, hcolumn, Nat.add_comm]

theorem place?_of_append {before after : List Char} (h : text = before ++ after) :
    (ofText text).place? (size before) =
      some (toLex (1 + before.count '\n', 1 + (before.rtakeWhile (· != '\n')).length)) := by
  rw [place?, column?_of_append h, h, lineAt_eq]
  rfl

theorem place?_increasing {m n : Nat} (hm : IsCut text m) (hn : IsCut text n) (h : m < n) :
    ∃ p q, (ofText text).place? m = some p ∧ (ofText text).place? n = some q ∧ p < q := by
  obtain ⟨before, after, htext, rfl⟩ := hm
  obtain ⟨longer, rest, htext', rfl⟩ := hn
  refine ⟨_, _, place?_of_append htext, place?_of_append htext', ?_⟩
  obtain ⟨more, rfl⟩ := prefix_of_size_le ⟨after, htext.symm⟩ ⟨rest, htext'.symm⟩ h.le
  rw [Prod.Lex.toLex_lt_toLex, List.count_append]
  by_cases hmore : '\n' ∈ more
  · have hpos := List.count_pos_iff.2 hmore
    exact .inl (by dsimp only; omega)
  · -- No line end in between: the row of the first place goes on up to the second.
    refine .inr ⟨by rw [List.count_eq_zero_of_not_mem hmore, Nat.add_zero], ?_⟩
    have hrow : (before ++ more).rtakeWhile (· != '\n') =
        before.rtakeWhile (· != '\n') ++ more := by
      rw [List.rtakeWhile, List.reverse_append, List.takeWhile_append_of_pos, List.reverse_append,
        List.reverse_reverse, List.rtakeWhile]
      intro c hc
      simpa using fun heq : c = '\n' => hmore (heq ▸ List.mem_reverse.1 hc)
    have hne : more ≠ [] := by
      rintro rfl
      simp at h
    have hlength := List.length_pos_iff.2 hne
    rw [hrow, List.length_append]
    dsimp only
    omega

theorem place?_injective {m n : Nat} (hm : IsCut text m) (hn : IsCut text n)
    (h : (ofText text).place? m = (ofText text).place? n) : m = n := by
  rcases Nat.lt_trichotomy m n with hlt | heq | hgt
  · obtain ⟨p, q, hp, hq, hpq⟩ := place?_increasing hm hn hlt
    rw [hp, hq] at h
    exact absurd (Option.some.inj h) hpq.ne
  · exact heq
  · obtain ⟨p, q, hp, hq, hpq⟩ := place?_increasing hn hm hgt
    rw [hp, hq] at h
    exact absurd (Option.some.inj h) hpq.ne'

theorem line?_succ (n : Nat) : (ofText text).line? (n + 1) =
    (text.splitOn '\n')[n]?.map (List.rdropWhile (· == '\r')) := by
  have hlength := length_splitOn text
  cases hrow : (text.splitOn '\n')[n]? with
  | none =>
      have hle := List.getElem?_eq_none_iff.1 hrow
      rw [line?, if_neg (by rw [count_ofText]; omega)]
      rfl
  | some row =>
      obtain ⟨above, below, h⟩ := exists_row_of_splitOn hrow
      rw [h.line?_eq]
      rfl

theorem isSome_line? (n : Nat) :
    ((ofText text).line? n).isSome ↔ 1 ≤ n ∧ n ≤ (ofText text).count := by
  unfold line?
  split
  · next h => exact iff_of_true rfl h
  · next h => exact iff_of_false (by simp) h

end Lines

end Lexing
