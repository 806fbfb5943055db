import Lexing.Proofs.Stream.Places

namespace Lexing

inductive Access where
  | next
  | peek
  | peekAhead (n : Nat)
  | nextIf (kind : Kind)
  | isExhausted
  | reset
  deriving DecidableEq, Repr

structure Traversal where
  stream : TokenStream
  used : List Token

namespace Traversal

def step (v : Traversal) : Access → Traversal
  | .next => ⟨v.stream.next.2, v.used ++ [v.stream.next.1]⟩
  | .nextIf kind => ⟨(v.stream.nextIf kind).2, v.used ++ (v.stream.nextIf kind).1.toList⟩
  | .reset => ⟨v.stream.reset, []⟩
  | .peek | .peekAhead _ | .isExhausted => v

def run (v : Traversal) (accesses : List Access) : Traversal := accesses.foldl step v

end Traversal

namespace TokenStream

def advance (s : TokenStream) : Nat → TokenStream
  | 0 => s
  | n + 1 => s.next.2.advance n

structure Navigates (s : TokenStream) (v : Traversal) : Prop where
  tokens_eq : v.stream.tokens = s.tokens
  position_le : v.stream.position ≤ s.tokens.size
  position_eq : v.stream.position = min v.used.length s.tokens.size
  ending : s.ending.kind = .endOfInput
  used : ∀ i t, v.used[i]? = some t → s.tokens[min i (s.tokens.size - 1)]? = some t
  handed : v.used = s.tokens.toList.take v.used.length ++
    List.replicate (v.used.length - s.tokens.size) s.ending
  next : s.tokens[min v.used.length (s.tokens.size - 1)]? = some v.stream.next.1
  inRange : ∀ k,
    s.tokens[min (v.stream.position + k) (s.tokens.size - 1)]? = some (v.stream.peekAhead k)
  saturates : ∀ k top, s.tokens.size ≤ top →
    v.stream.tokenAt (min (v.stream.position + k) top) = v.stream.peekAhead k
  peekAhead : ∀ k, v.stream.peekAhead k = (v.stream.advance k).next.1
  nextIf : ∀ kind, v.stream.peek.kind = kind →
    v.stream.nextIf kind = (some v.stream.next.1, v.stream.next.2)
  nextIf_ne : ∀ kind, v.stream.peek.kind ≠ kind → v.stream.nextIf kind = (none, v.stream)
  isExhausted : v.stream.isExhausted ↔ v.stream.peek.kind = .endOfInput

variable {s : TokenStream}

theorem getElem?_tokens (s : TokenStream) (i : Nat) :
    s.tokens[min i (s.tokens.size - 1)]? = some (s.tokenAt i) := by
  rw [size_tokens, size, Nat.add_sub_cancel, tokens, tokenAt, Array.getElem?_push,
    Array.getD_eq_getD_getElem?]
  rcases Nat.lt_or_ge i s.body.size with hlt | hge
  · rw [Nat.min_eq_left hlt.le, if_neg hlt.ne, Array.getElem?_eq_getElem hlt]
    rfl
  · rw [Nat.min_eq_right hge, if_pos rfl, Array.getElem?_eq_none hge]
    rfl

theorem tokenAt_of_le {i : Nat} (h : s.body.size ≤ i) : s.tokenAt i = s.ending := by
  rw [tokenAt, Array.getD_eq_getD_getElem?, Array.getElem?_eq_none h]
  rfl

theorem tokenAt_min {i bound : Nat} (h : s.body.size ≤ bound) :
    s.tokenAt (min i bound) = s.tokenAt i := by
  rcases Nat.le_total i bound with hle | hle
  · rw [Nat.min_eq_left hle]
  · rw [Nat.min_eq_right hle, tokenAt_of_le h, tokenAt_of_le (h.trans hle)]

theorem map_tokenAt_range (s : TokenStream) (n : Nat) :
    (List.range n).map s.tokenAt =
      s.tokens.toList.take n ++ List.replicate (n - s.tokens.size) s.ending := by
  induction n with
  | zero => simp
  | succ n ih =>
      rw [List.range_succ, List.map_append, ih, List.map_singleton, size_tokens, size]
      rcases Nat.lt_or_ge n (s.body.size + 1) with hlt | hge
      · have htoken := s.getElem?_tokens n
        rw [size_tokens, size, Nat.add_sub_cancel, Nat.min_eq_left (by omega),
          ← Array.getElem?_toList] at htoken
        rw [List.take_add_one, htoken, Nat.sub_eq_zero_of_le hlt.le, Nat.sub_eq_zero_of_le hlt]
        simp
      · have hlength : s.tokens.toList.length ≤ n := by
          rw [Array.length_toList, size_tokens]
          exact hge
        rw [List.take_of_length_le hlength, List.take_of_length_le (by omega),
          Nat.succ_sub hge, List.replicate_succ', tokenAt_of_le (by omega), List.append_assoc]

structure Follows (s : TokenStream) (v : Traversal) : Prop where
  stream_eq : v.stream = { s with position := min v.used.length s.size }
  used_eq : v.used = (List.range v.used.length).map s.tokenAt

namespace Follows

variable {v : Traversal}

theorem tokenAt_eq (h : Follows s v) (i : Nat) : v.stream.tokenAt i = s.tokenAt i := by
  rw [h.stream_eq]
  rfl

theorem position_eq (h : Follows s v) : v.stream.position = min v.used.length s.size := by
  rw [h.stream_eq]

theorem body_eq (h : Follows s v) : v.stream.body = s.body := by
  rw [h.stream_eq]

theorem peekAhead_eq (h : Follows s v) (k : Nat) :
    v.stream.peekAhead k = s.tokenAt (v.used.length + k) := by
  rw [TokenStream.peekAhead, h.tokenAt_eq, h.position_eq]
  rcases Nat.le_total v.used.length s.size with hle | hle
  · rw [Nat.min_eq_left hle]
  · have hsize : s.body.size ≤ s.size := Nat.le_succ _
    rw [Nat.min_eq_right hle, tokenAt_of_le (by omega), tokenAt_of_le (by omega)]

theorem consume (h : Follows s v) : Follows s ⟨v.stream.next.2, v.used ++ [v.stream.next.1]⟩ := by
  have hlength : (v.used ++ [v.stream.next.1]).length = v.used.length + 1 := by simp
  constructor
  · dsimp only
    rw [hlength, TokenStream.next, h.stream_eq]
    simp only [TokenStream.size]
    congr 1
    omega
  · dsimp only
    have hnext : v.stream.next.1 = s.tokenAt v.used.length := h.peekAhead_eq 0
    rw [hlength, List.range_succ, List.map_append, ← h.used_eq, hnext]
    rfl

theorem step (h : Follows s v) (a : Access) : Follows s (v.step a) := by
  cases a with
  | next => exact h.consume
  | nextIf kind =>
      simp only [Traversal.step, TokenStream.nextIf]
      split
      · exact h.consume
      · simpa using h
  | reset =>
      constructor
      · simp [Traversal.step, TokenStream.reset, h.stream_eq]
      · rfl
  | peek => exact h
  | peekAhead n => exact h
  | isExhausted => exact h

theorem run (h : Follows s v) (accesses : List Access) : Follows s (v.run accesses) := by
  induction accesses generalizing v with
  | nil => exact h
  | cons a accesses ih => exact ih (h.step a)

end Follows

theorem advance_eq (h : s.position ≤ s.size) (k : Nat) :
    s.advance k = { s with position := min (s.position + k) s.size } := by
  induction k generalizing s with
  | zero => rw [advance, Nat.add_zero, Nat.min_eq_left h]
  | succ k ih =>
      have hle : s.next.2.position ≤ s.next.2.size := Nat.min_le_right ..
      rw [advance, ih hle, TokenStream.next]
      simp only [size]
      congr 1
      omega

theorem peekAhead_eq_advance (h : s.position ≤ s.size) (k : Nat) :
    s.peekAhead k = (s.advance k).next.1 := by
  rw [advance_eq h]
  exact (tokenAt_min (Nat.le_succ _)).symm

theorem kind_tokenAt_scan (s : Scanner) (i : Nat) :
    ((scan s).tokenAt i).kind = .endOfInput ↔ (scan s).body.size ≤ i := by
  rcases Nat.lt_or_ge i (scan s).body.size with hlt | hge
  · refine iff_of_false ?_ (Nat.not_le.2 hlt)
    rw [tokenAt, Array.getD_eq_getD_getElem?, Array.getElem?_eq_getElem hlt]
    exact kind_ne_of_mem_body (Array.getElem_mem hlt)
  · refine iff_of_true ?_ hge
    rw [tokenAt_of_le hge]
    exact kind_ending s

theorem scan_navigates (s : Scanner) (accesses : List Access) :
    (scan s).Navigates ((Traversal.mk (scan s) []).run accesses) := by
  have hstart : Follows (scan s) ⟨scan s, []⟩ := by
    constructor
    · simp [scan_eq]
    · rfl
  have h := hstart.run accesses
  generalize (Traversal.mk (scan s) []).run accesses = v at h
  have hle : v.stream.position ≤ v.stream.size := by
    rw [size, h.body_eq, h.position_eq]
    exact Nat.min_le_right ..
  refine ⟨?_, ?_, ?_, kind_ending s, ?_, ?_, ?_, ?_, ?_, peekAhead_eq_advance hle, ?_, ?_, ?_⟩
  · rw [h.stream_eq]
    rfl
  · rw [h.position_eq, size_tokens]
    exact Nat.min_le_right ..
  · rw [h.position_eq, size_tokens]
  · intro i t ht
    rw [getElem?_tokens]
    rw [h.used_eq, List.getElem?_map, Option.map_eq_some_iff] at ht
    obtain ⟨j, hj, rfl⟩ := ht
    obtain ⟨hi, rfl⟩ := List.getElem?_eq_some_iff.1 hj
    rw [List.getElem_range]
  · rw [← map_tokenAt_range]
    exact h.used_eq
  · rw [getElem?_tokens]
    exact congrArg some (h.peekAhead_eq 0).symm
  · intro k
    rw [getElem?_tokens, ← h.tokenAt_eq]
    rfl
  · intro k top htop
    rw [size_tokens, size, ← h.body_eq] at htop
    exact tokenAt_min (by omega)
  · intro kind hkind
    exact if_pos hkind
  · intro kind hkind
    exact if_neg hkind
  · have hpeek := kind_tokenAt_scan s v.stream.position
    rw [← h.tokenAt_eq] at hpeek
    rw [TokenStream.isExhausted, decide_eq_true_iff, h.body_eq]
    exact hpeek.symm

end TokenStream

end Lexing
