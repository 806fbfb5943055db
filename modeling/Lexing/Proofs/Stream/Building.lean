import Lexing.Proofs.Stream.Scan

namespace Lexing

namespace StreamBuilder

variable {b : StreamBuilder}

def read (b : StreamBuilder) : List Token := b.tokens.toList ++ b.ending.toList

def call (b : StreamBuilder) : Except ScanAfterEnd Token × StreamBuilder :=
  match b.scanNext with
  | .ok (t, next) => (.ok t, next)
  | .error e => (.error e, b)

def after (b : StreamBuilder) : Nat → StreamBuilder
  | 0 => b
  | n + 1 => b.call.2.after n

structure Tracks (stream : TokenStream) (n : Nat) (b : StreamBuilder) : Prop where
  finish_eq : b.finish = stream
  read_eq : b.read = stream.tokens.toList.take n
  size_eq : b.size = b.read.length
  diagnostics : b.diagnostics.toList <+: stream.diagnostics
  token : ∀ t, stream.tokens[n]? = some t → b.call.1 = .ok t
  ended : b.isEnded ↔ ∃ t ∈ b.read, t.kind = .endOfInput
  fails : (∃ e, b.call.1 = .error e) ↔ b.isEnded
  failed : ∀ e, b.call.1 = .error e →
    b.call.2 = b ∧ ∃ t ∈ b.read, t.kind = .endOfInput ∧ e.position = t.position

theorem call_of_ending {e : Token} (h : b.ending = some e) : b.call = (.error ⟨e.position⟩, b) := by
  simp [call, scanNext, h]

theorem call_of_none (h : b.ending = none) : b.call = (.ok b.push.1, b.push.2) := by
  simp [call, scanNext, h]

theorem finish_of_none (h : b.ending = none) : b.finish = b.push.2.finish := by
  rw [finish]
  split <;> simp_all

theorem finish_call (b : StreamBuilder) : b.call.2.finish = b.finish := by
  cases h : b.ending with
  | some e => rw [call_of_ending h]
  | none => rw [call_of_none h, finish_of_none h]

theorem finish_after (b : StreamBuilder) (n : Nat) : (b.after n).finish = b.finish := by
  induction n generalizing b with
  | zero => rfl
  | succ n ih => rw [after, ih, finish_call]

theorem read_push (h : b.ending = none) : b.push.2.read = b.read ++ [b.push.1] := by
  by_cases hk : b.scanner.next.1.kind = .endOfInput
  · simp [push_of_kind hk, read, h]
  · simp [push_of_kind_ne hk, read, h]

theorem size_eq_length_read (b : StreamBuilder) : b.size = b.read.length := by
  cases h : b.ending <;> simp [size, isEnded, read, h]

theorem tokens_finish (b : StreamBuilder) : ∃ more, b.finish.tokens.toList = b.read ++ more ∧
    (more = [] ↔ b.isEnded) := by
  cases h : b.ending with
  | some e =>
      refine ⟨[], ?_, by simp [isEnded, h]⟩
      simp [finish_of_ending h, TokenStream.tokens, read, h]
  | none =>
      refine ⟨b.scanner.drain.1 ++ [b.scanner.drain.2.next.1], ?_, by simp [isEnded, h]⟩
      simp [finish_eq h, TokenStream.tokens, read, h]

theorem diagnostics_finish (b : StreamBuilder) :
    b.diagnostics.toList <+: b.finish.diagnostics := by
  cases h : b.ending with
  | some e => simp [finish_of_ending h]
  | none =>
      rw [finish_eq h]
      exact List.prefix_append _ _

theorem length_read_after (b : StreamBuilder) (n : Nat) :
    (b.after n).read.length = min (b.read.length + n) b.finish.tokens.toList.length := by
  induction n generalizing b with
  | zero =>
      obtain ⟨more, htokens, -⟩ := b.tokens_finish
      rw [htokens, List.length_append, after]
      omega
  | succ n ih =>
      rw [after, ih, finish_call]
      obtain ⟨more, htokens, hmore⟩ := b.tokens_finish
      cases h : b.ending with
      | some e =>
          obtain rfl := hmore.2 (by simp [isEnded, h])
          rw [call_of_ending h, htokens, List.append_nil]
          simp only
          omega
      | none =>
          rw [call_of_none h, read_push h, List.length_append, List.length_singleton]
          congr 1
          omega

theorem read_after (b : StreamBuilder) (n : Nat) (h : b.read = []) :
    (b.after n).read = b.finish.tokens.toList.take n := by
  obtain ⟨more, htokens, -⟩ := (b.after n).tokens_finish
  have hlength := b.length_read_after n
  rw [finish_after] at htokens
  rw [h, List.length_nil, Nat.zero_add] at hlength
  rw [List.take_eq_take_min, ← hlength, htokens, List.take_left]

theorem after_succ (b : StreamBuilder) (n : Nat) : b.after (n + 1) = (b.after n).call.2 := by
  induction n generalizing b with
  | zero => rfl
  | succ n ih => rw [after, ih, after]

theorem kind_of_ending {s : Scanner} {e : Token} (hfinish : b.finish = TokenStream.scan s)
    (h : b.ending = some e) : e.kind = .endOfInput := by
  rw [finish_of_ending h, TokenStream.scan_eq] at hfinish
  rw [(TokenStream.mk.inj hfinish).2.2.1]
  exact s.drain_kind

theorem kind_ne_of_mem_tokens {s : Scanner} {t : Token} (hfinish : b.finish = TokenStream.scan s)
    (h : b.ending = none) (ht : t ∈ b.tokens) : t.kind ≠ .endOfInput := by
  rw [finish_eq h, TokenStream.scan_eq] at hfinish
  have hbody := (TokenStream.mk.inj hfinish).2.1
  have hmem : t ∈ s.drain.1.toArray := by
    rw [← hbody]
    exact Array.mem_append_left _ ht
  exact Scanner.kind_ne_of_mem_drain (List.mem_toArray.1 hmem)

theorem isEnded_iff {s : Scanner} (hfinish : b.finish = TokenStream.scan s) :
    b.isEnded ↔ ∃ t ∈ b.read, t.kind = .endOfInput := by
  cases h : b.ending with
  | some e =>
      exact iff_of_true (by simp [isEnded, h]) ⟨e, by simp [read, h], kind_of_ending hfinish h⟩
  | none =>
      refine iff_of_false (by simp [isEnded, h]) ?_
      rintro ⟨t, ht, hkind⟩
      exact kind_ne_of_mem_tokens hfinish h (by simpa [read, h] using ht) hkind

theorem fails_iff (b : StreamBuilder) : (∃ e, b.call.1 = .error e) ↔ b.isEnded := by
  cases h : b.ending with
  | some e => simp [call_of_ending h, isEnded, h]
  | none => simp [call_of_none h, isEnded, h]

theorem failed_call {s : Scanner} {e : ScanAfterEnd} (hfinish : b.finish = TokenStream.scan s)
    (he : b.call.1 = .error e) :
    b.call.2 = b ∧ ∃ t ∈ b.read, t.kind = .endOfInput ∧ e.position = t.position := by
  cases h : b.ending with
  | some ending =>
      rw [call_of_ending h] at he ⊢
      obtain rfl := Except.error.inj he
      exact ⟨rfl, ending, by simp [read, h], kind_of_ending hfinish h, rfl⟩
  | none =>
      rw [call_of_none h] at he
      contradiction

theorem call_eq_ok {t : Token} (h : b.call.2.read = b.read ++ [t]) : b.call.1 = .ok t := by
  cases hending : b.ending with
  | some e =>
      rw [call_of_ending hending] at h
      simp at h
  | none =>
      rw [call_of_none hending, read_push hending] at h
      rw [call_of_none hending]
      simpa using h

/-- Line openings that begin with a line end are those of the guarded `Comments.opensLine`. -/
theorem tracks (s : Scanner) (n : Nat) :
    Tracks (TokenStream.scan s) n ((ofScanner s).after n) := by
  have hfinish : ((ofScanner s).after n).finish = TokenStream.scan s := finish_after _ n
  have hread (m : Nat) :
      ((ofScanner s).after m).read = (TokenStream.scan s).tokens.toList.take m := read_after _ m rfl
  refine ⟨hfinish, hread n, size_eq_length_read _, hfinish ▸ diagnostics_finish _, ?_,
    isEnded_iff hfinish, fails_iff _, fun e he => failed_call hfinish he⟩
  intro t ht
  apply call_eq_ok
  rw [← Array.getElem?_toList] at ht
  rw [← after_succ, hread, hread, List.take_add_one, ht]
  rfl

end StreamBuilder

end Lexing
