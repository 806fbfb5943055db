import Lexing.Proofs.Stream.Building
import Lexing.Proofs.Stream.Places

namespace Lexing

namespace StreamBuilder

variable {b : StreamBuilder}

theorem cursor_push (b : StreamBuilder) :
    b.push.2.scanner.cursor = b.scanner.next.2.cursor := by
  by_cases h : b.scanner.next.1.kind = .endOfInput
  · rw [push_of_kind h]
    rfl
  · rw [push_of_kind_ne h]
    rfl

theorem source_push (b : StreamBuilder) :
    b.push.2.scanner.cursor.source = b.scanner.cursor.source := by
  rw [cursor_push, Scanner.next_source]

theorem fits_push (h : 1 + b.scanner.cursor.source.count '\n' < UInt32.size) : b.push.2.fits := by
  have hline := b.push.2.scanner.cursor.line_le
  rw [source_push] at hline
  exact decide_eq_true (Nat.lt_of_le_of_lt hline h)

theorem finish?_of_lt (h : 1 + b.scanner.cursor.source.count '\n' < UInt32.size) :
    b.finish? = some b.finish := by
  fun_induction finish? b with
  | case1 b e he => rw [finish_of_ending he]
  | case2 b he hfits ih => rw [ih (by rwa [source_push]), finish_of_none he]
  | case3 b he hover => exact absurd (fits_push h) hover

theorem lt_of_finish? {stream : TokenStream} (h : b.finish? = some stream) (hb : b.ending = none) :
    1 + b.scanner.cursor.source.count '\n' < UInt32.size := by
  fun_induction finish? b with
  | case1 b e he => simp [he] at hb
  | case2 b he hfits ih =>
      by_cases hk : b.scanner.next.1.kind = .endOfInput
      · have hrest := Scanner.rest_of_kind hk
        have hline : b.push.2.scanner.cursor.line < UInt32.size := of_decide_eq_true hfits
        rw [cursor_push, Cursor.line_eq, ← List.count_reverse] at hline
        rwa [← Scanner.next_source, Cursor.source, hrest, List.append_nil]
      · have hnext : b.push.2.ending = none := by rw [push_of_kind_ne hk, he]
        rw [← source_push]
        exact ih h hnext
  | case3 b he hover => contradiction

theorem readUpTo?_of_lt (limit : Nat) (h : 1 + b.scanner.cursor.source.count '\n' < UInt32.size) :
    b.readUpTo? limit = some (b.readUpTo limit) := by
  fun_induction readUpTo? limit b with
  | case1 b hended => rw [readUpTo, dif_pos hended]
  | case2 b hended hle => rw [readUpTo, dif_neg hended, if_pos hle]
  | case3 b hended hlt hfits ih =>
      rw [ih (by rwa [source_push]), readUpTo.eq_def limit b, dif_neg hended, if_neg hlt]
  | case4 b hended hlt hover => exact absurd (fits_push h) hover

theorem eq_of_readUpTo? {limit : Nat} {c : StreamBuilder} (h : b.readUpTo? limit = some c) :
    c = b.readUpTo limit := by
  fun_induction readUpTo? limit b with
  | case1 b hended => rw [readUpTo, dif_pos hended, Option.some.inj h]
  | case2 b hended hle => rw [readUpTo, dif_neg hended, if_pos hle, Option.some.inj h]
  | case3 b hended hlt hfits ih =>
      rw [ih h, readUpTo.eq_def limit b, dif_neg hended, if_neg hlt]
  | case4 => cases h

theorem finish?_of_readUpTo? {limit : Nat} {c : StreamBuilder} (h : b.readUpTo? limit = some c) :
    c.finish? = b.finish? := by
  fun_induction readUpTo? limit b with
  | case1 => rw [Option.some.inj h]
  | case2 => rw [Option.some.inj h]
  | case3 b hended hlt hfits ih =>
      have hnone : b.ending = none := by simpa [isEnded] using hended
      rw [ih h, finish?.eq_def b]
      split
      · next hsome => simp [hsome] at hnone
      · rw [if_pos hfits]
  | case4 => cases h

theorem lt_of_readUpTo? {limit : Nat} {c : StreamBuilder} (h : b.readUpTo? limit = some c)
    (hended : c.isEnded) (hb : b.ending = none) :
    1 + b.scanner.cursor.source.count '\n' < UInt32.size := by
  obtain ⟨e, he⟩ := Option.isSome_iff_exists.1 hended
  have hfinish : ∃ stream, c.finish? = some stream := by
    rw [finish?.eq_def c]
    split
    · exact ⟨_, rfl⟩
    · next hnone => simp [hnone] at he
  obtain ⟨stream, hstream⟩ := hfinish
  exact lt_of_finish? ((finish?_of_readUpTo? h).symm.trans hstream) hb

end StreamBuilder

namespace TokenStream

theorem scan?_eq_some_iff {s : Scanner} {stream : TokenStream} :
    scan? s = some stream ↔
      1 + s.cursor.source.count '\n' < UInt32.size ∧ stream = scan s := by
  constructor
  · intro h
    have hlt := StreamBuilder.lt_of_finish? h rfl
    rw [scan?, StreamBuilder.finish?_of_lt hlt] at h
    exact ⟨hlt, (Option.some.inj h).symm⟩
  · rintro ⟨hlt, rfl⟩
    exact StreamBuilder.finish?_of_lt hlt

theorem scan?_eq_none_iff {s : Scanner} :
    scan? s = none ↔ UInt32.size ≤ 1 + s.cursor.source.count '\n' := by
  rw [Option.eq_none_iff_forall_ne_some]
  constructor
  · intro h
    exact Nat.le_of_not_lt fun hlt => h _ (scan?_eq_some_iff.2 ⟨hlt, rfl⟩)
  · intro hle stream h
    have hlt := (scan?_eq_some_iff.1 h).1
    omega

theorem line_le_of_mem_scan (file text : String) (o : Options) (r : Recognizers) :
    ∀ t ∈ (scan (.ofText file text o r)).tokens.toList, t.line ≤ 1 + text.toList.count '\n' := by
  intro t ht
  obtain ⟨before, after, htext, -, hline⟩ := (isAt_of_mem_scan file text o r ht).counted
  rw [Token.line, hline, htext, List.count_append]
  omega

theorem max_lines_scan (file text : String) (o : Options) (r : Recognizers) :
    ((scan (.ofText file text o r)).tokens.toList.map Token.line).max?.getD 0 =
      1 + text.toList.count '\n' := by
  have hlines := line_le_of_mem_scan file text o r
  have hending : (scan (.ofText file text o r)).ending.line = 1 + text.toList.count '\n' := by
    rw [scan_ofText]
    rfl
  have hmax : ((scan (.ofText file text o r)).tokens.toList.map Token.line).max? =
      some (1 + text.toList.count '\n') := by
    rw [List.max?_eq_some_iff]
    refine ⟨List.mem_map.2 ⟨_, ?_, hending⟩, List.forall_mem_map.2 hlines⟩
    simp [toList_tokens]
  rw [hmax, Option.getD_some]

end TokenStream

end Lexing
