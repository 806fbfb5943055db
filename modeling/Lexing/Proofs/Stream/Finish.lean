import Lexing.Proofs.Scan.Turns
import Lexing.Proofs.Stream.Scan

namespace Lexing

namespace Scanner

structure Finishes (s : Scanner) : Prop where
  returns : ∀ k, nextIn ((s.after k).cursor.rest.length + 2) (s.after k) = some (s.after k).next
  advances : ∀ k, (s.after k).next.2.cursor.rest.length < (s.after k).cursor.rest.length ∨
    (s.after k).next.1.kind = .endOfInput ∧ (s.after k).next.2.cursor.rest = []
  ends : ∃ k ≤ s.cursor.rest.length, (s.after k).next.1.kind = .endOfInput
  stays : ∀ k, (s.after k).next.1.kind = .endOfInput → ∀ n, k < n →
    (s.after n).next = ((s.after k).next.1, s.after n)
  scans : ∃ body ending, (TokenStream.scan s).tokens.toList = body ++ [ending] ∧
    ending.kind = .endOfInput ∧ (∀ t ∈ body, t.kind ≠ .endOfInput) ∧
    body.length ≤ s.cursor.rest.length

theorem next_after_of_kind {s : Scanner} {k n : Nat} (h : (s.after k).next.1.kind = .endOfInput)
    (hkn : k < n) : (s.after n).next = ((s.after k).next.1, s.after n) := by
  obtain ⟨m, rfl⟩ := Nat.exists_eq_add_of_lt hkn
  have hnext (m : Nat) : (s.after (k + m + 1)).next = (s.after k).next := by
    rw [Nat.add_assoc, Nat.add_comm m, ← Nat.add_assoc, after_add, ← after_next]
    exact after_of_kind h m
  have hafter (m : Nat) : s.after (k + m + 1) = s.after (k + 1) := by
    induction m with
    | zero => rfl
    | succ m ih => rw [← Nat.add_assoc, ← after_next, hnext, after_next]
  refine Prod.ext (by rw [hnext]) ?_
  rw [hnext, after_next, hafter]

end Scanner

theorem Scanner.finishes :
    (∀ setting block, Comments.SpareLineEnds ⟨Comments.readLine setting, block⟩) ∧
      ∀ s : Scanner, s.options.comments.SpareLineEnds → s.Finishes := by
  refine ⟨Comments.spareLineEnds_readLine, fun s hs => ⟨?_, ?_, ?_, ?_, ?_⟩⟩
  · intro k
    have hk : (s.after k).options.comments.SpareLineEnds := by rwa [after_options]
    exact nextIn_eq hk _ (by omega)
  · intro k
    by_cases h : (s.after k).next.1.kind = .endOfInput
    · exact .inr ⟨h, rest_of_kind h⟩
    · exact .inl (next_rest_length_lt _ h)
  · refine ⟨s.drain.1.length, s.drain_length_le, ?_⟩
    rw [← drain_eq_after]
    exact s.drain_kind
  · intro k h n hkn
    exact next_after_of_kind h hkn
  · refine ⟨s.drain.1, s.drain.2.next.1, ?_, s.drain_kind, fun t => kind_ne_of_mem_drain,
      s.drain_length_le⟩
    rw [TokenStream.scan_eq, TokenStream.tokens]
    simp

theorem Scanner.finishes_slashes :
    Comments.SpareLineEnds ⟨["//"], none⟩ ∧
      (ofText "a" "b // c\n1.2.3" ⟨true, ⟨["//"], none⟩, 9, 9, 9⟩ .empty).Finishes :=
  ⟨by simp [Comments.SpareLineEnds], finishes.2 _ (by simp [ofText, Comments.SpareLineEnds])⟩

end Lexing
