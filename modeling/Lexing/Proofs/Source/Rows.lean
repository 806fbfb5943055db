import Lexing.Proofs.Source.Lines
import Mathlib.Data.List.DropRight

namespace Lexing.Lines

open Text

structure Row (text : List Char) (line : Nat) (above row below : List Char) : Prop where
  text_eq : text = above ++ row ++ below
  line_eq : line = 1 + above.count '\n'
  cut_above : ∀ c ∈ above.getLast?, c = '\n'
  plain : '\n' ∉ row
  cut_below : ∀ c ∈ below.head?, c = '\n'

variable {text above row below : List Char} {line : Nat}

theorem ends_eq_nil {cs : List Char} (h : '\n' ∉ cs) (offset : Nat) : ends cs offset = [] := by
  rw [← List.length_eq_zero_iff, length_ends]
  exact List.count_eq_zero_of_not_mem h

theorem getLast?_starts (h : ∀ c ∈ above.getLast?, c = '\n') :
    (0 :: ends above 0).getLast? = some (size above) := by
  cases habove : above.getLast? with
  | none =>
      obtain rfl := List.getLast?_eq_none_iff.1 habove
      rfl
  | some c =>
      obtain rfl := h c habove
      obtain ⟨more, rfl⟩ := List.getLast?_eq_some_iff.1 habove
      rw [ends_append, ← List.cons_append, List.getLast?_append]
      simp [ends]

namespace Row

theorem starts_eq (h : Row text line above row below) :
    (ofText text).starts.toList =
      (0 :: ends above 0) ++ ends below (size above + size row) := by
  rw [toList_starts, h.text_eq, ends_append, ends_append, ends_eq_nil h.plain, List.append_nil,
    Nat.zero_add, size_append, List.cons_append]

theorem length_starts (h : Row text line above row below) : (0 :: ends above 0).length = line := by
  rw [List.length_cons, length_ends, h.line_eq, Nat.add_comm]

theorem one_le (h : Row text line above row below) : 1 ≤ line := by
  rw [h.line_eq]
  exact Nat.le_add_right ..

theorem count_eq (h : Row text line above row below) :
    (ofText text).count = line + below.count '\n' := by
  rw [count, ← Array.length_toList, h.starts_eq, List.length_append, h.length_starts, length_ends]

theorem startOf_eq (h : Row text line above row below) :
    (ofText text).startOf line = size above := by
  have hlast := getLast?_starts h.cut_above
  rw [List.getLast?_eq_getElem?, h.length_starts] at hlast
  have hlt : line - 1 < (0 :: ends above 0).length := by
    have := h.one_le
    rw [h.length_starts]
    omega
  rw [startOf, Array.getD_eq_getD_getElem?, ← Array.getElem?_toList, h.starts_eq,
    List.getElem?_append_left hlt, hlast]
  rfl

theorem startOf_succ (h : Row text line above row below) (hlt : line < (ofText text).count) :
    (ofText text).startOf (line + 1) = size above + size row + 1 := by
  cases below with
  | nil =>
      have hcount := h.count_eq
      simp only [List.count_nil] at hcount
      omega
  | cons c below =>
      obtain rfl := h.cut_below c rfl
      have hsize : '\n'.utf8Size = 1 := rfl
      rw [startOf, Array.getD_eq_getD_getElem?, ← Array.getElem?_toList, h.starts_eq,
        Nat.add_sub_cancel, List.getElem?_append_right h.length_starts.le, h.length_starts]
      simp [ends, hsize]

theorem slice?_eq (h : Row text line above row below) :
    slice? text (size above) (size above + size row) = some row := by
  rw [h.text_eq]
  exact slice?_append above row below

theorem stop_eq (h : Row text line above row below) :
    (if line < (ofText text).count then (ofText text).startOf (line + 1) - 1 else size text) =
      size above + size row := by
  split
  · next hlt =>
      rw [h.startOf_succ hlt]
      rfl
  · next hge =>
      have hcount : below.count '\n' = 0 := by
        have := h.count_eq
        omega
      have hbelow : below = [] := by
        cases below with
        | nil => rfl
        | cons c below =>
            obtain rfl := h.cut_below c rfl
            simp at hcount
      rw [h.text_eq, hbelow, List.append_nil, size_append]

theorem line?_eq (h : Row text line above row below) :
    (ofText text).line? line = some (row.rdropWhile (· == '\r')) := by
  have hle : line ≤ (ofText text).count := by
    rw [h.count_eq]
    exact Nat.le_add_right ..
  have hslice : slice text (size above) (size above + size row) = row := by
    rw [slice, h.slice?_eq]
    rfl
  rw [line?, if_pos ⟨h.one_le, hle⟩]
  change some (trimReturns (slice text _ (if _ then _ else size text))) = _
  rw [h.stop_eq, h.startOf_eq, hslice]
  rfl

theorem column?_eq {lead rest : List Char} (h : Row text line above (lead ++ rest) below) :
    (ofText text).lineAt (size above + size lead) = line ∧
      (ofText text).column? (size above + size lead) = some (lead.length + 1) := by
  have htext : text = (above ++ lead) ++ (rest ++ below) := by
    rw [h.text_eq]
    simp only [List.append_assoc]
  have hlead : lead.count '\n' = 0 :=
    List.count_eq_zero_of_not_mem fun hmem => h.plain (List.mem_append_left rest hmem)
  have hline : (ofText text).lineAt (size above + size lead) = line := by
    rw [htext, ← size_append, lineAt_eq, List.count_append, hlead, h.line_eq, Nat.add_zero]
  refine ⟨hline, ?_⟩
  rw [column?, hline, h.startOf_eq]
  change (slice? text (size above) (size above + size lead)).map _ = _
  rw [htext, slice?_append]
  rfl

end Row

theorem exists_row (before after : List Char) :
    ∃ above rest below, before = above ++ before.rtakeWhile (· != '\n') ∧ after = rest ++ below ∧
      Row (before ++ after) (1 + before.count '\n') above (before.rtakeWhile (· != '\n') ++ rest)
        below := by
  have hbefore : before.rdropWhile (· != '\n') ++ before.rtakeWhile (· != '\n') = before :=
    List.rdropWhile_append_rtakeWhile
  have hafter : after.takeWhile (· != '\n') ++ after.dropWhile (· != '\n') = after :=
    List.takeWhile_append_dropWhile
  have hlead : '\n' ∉ before.rtakeWhile (· != '\n') := by
    intro hmem
    simpa using List.mem_rtakeWhile_imp hmem
  have hrest : '\n' ∉ after.takeWhile (· != '\n') := by
    intro hmem
    simpa using List.mem_takeWhile_imp hmem
  refine ⟨before.rdropWhile (· != '\n'), after.takeWhile (· != '\n'),
    after.dropWhile (· != '\n'), hbefore.symm, hafter.symm, ?_, ?_, ?_, ?_, ?_⟩
  · rw [← List.append_assoc, hbefore, List.append_assoc, hafter]
  · conv_lhs => rw [← hbefore]
    rw [List.count_append, List.count_eq_zero_of_not_mem hlead, Nat.add_zero]
  · intro c hc
    obtain ⟨hne, rfl⟩ := List.mem_getLast?_eq_getLast hc
    simpa using List.rdropWhile_last_not (· != '\n') before hne
  · rw [List.mem_append, not_or]
    exact ⟨hlead, hrest⟩
  · intro c hc
    have hfirst := List.head?_dropWhile_not (· != '\n') after
    rw [Option.mem_def.1 hc] at hfirst
    simpa using hfirst

theorem length_splitOn (text : List Char) : (text.splitOn '\n').length = 1 + text.count '\n' := by
  induction text with
  | nil => rfl
  | cons c text ih =>
      rw [List.splitOn_cons_eq_if_modifyHead]
      by_cases hc : c = '\n'
      · simp [hc, ih, Nat.add_comm]
      · simp [hc, ih]

theorem exists_row_of_splitOn {n : Nat} (h : (text.splitOn '\n')[n]? = some row) :
    ∃ above below, Row text (n + 1) above row below := by
  induction n generalizing text with
  | zero =>
      by_cases hmem : '\n' ∈ text
      · obtain ⟨first, rest, rfl, hfirst⟩ := List.eq_append_cons_of_mem hmem
        rw [List.splitOn_append_cons_self_of_not_mem hfirst] at h
        obtain rfl : first = row := by simpa using h
        exact ⟨[], '\n' :: rest, by simp, rfl, by simp, hfirst, by simp⟩
      · rw [List.splitOn_eq_singleton hmem] at h
        obtain rfl : text = row := by simpa using h
        exact ⟨[], [], by simp, rfl, by simp, hmem, by simp⟩
  | succ n ih =>
      by_cases hmem : '\n' ∈ text
      · obtain ⟨first, rest, rfl, hfirst⟩ := List.eq_append_cons_of_mem hmem
        rw [List.splitOn_append_cons_self_of_not_mem hfirst, List.getElem?_cons_succ] at h
        obtain ⟨above, below, hrow⟩ := ih h
        refine ⟨first ++ '\n' :: above, below, ?_, ?_, ?_, hrow.plain, hrow.cut_below⟩
        · rw [hrow.text_eq]
          simp only [List.append_assoc, List.cons_append]
        · rw [hrow.line_eq, List.count_append, List.count_cons_self,
            List.count_eq_zero_of_not_mem hfirst]
          omega
        · intro c hc
          have hbegins := hrow.cut_above c
          cases above with
          | nil => simpa using hc.symm
          | cons d above => exact hbegins (by simpa [List.getLast?_cons] using hc)
      · rw [List.splitOn_eq_singleton hmem] at h
        simp at h

end Lexing.Lines
