import Lexing.Proofs.Scan.Reach
import Lexing.Proofs.Scan.Rereading

namespace Lexing

variable {o : Options} {r : Recognizers} {c : Char} {cs : List Char} {content : Content}

namespace Symbol

theorem pairwise_longestFirst :
    longestFirst.Pairwise fun a b => b.1.length ≤ a.1.length := by
  have hlength (n : Nat) : ∀ entry ∈ (all.filter fun s => s.letters.length == n).map fun s =>
      (s.letters, s), entry.1.length = n := by
    intro entry hentry
    obtain ⟨s, hs, rfl⟩ := List.mem_map.1 hentry
    exact eq_of_beq (List.mem_filter.1 hs).2
  refine List.pairwise_flatMap.2 ⟨fun n _ => ?_, ?_⟩
  · refine List.pairwise_of_forall_mem_list fun a ha b hb => ?_
    rw [hlength n a ha, hlength n b hb]
  · have hsizes : [3, 2, 1].Pairwise fun m n => n ≤ m := by decide
    refine hsizes.imp fun {m n} hmn a ha b hb => ?_
    rwa [hlength m a ha, hlength n b hb]

theorem length_le_of_longest? {s t : Symbol} (h : longest? cs = some s) (ht : t.letters <+: cs) :
    t.letters.length ≤ s.letters.length := by
  obtain ⟨entry, hfind, rfl⟩ := Option.map_eq_some_iff.1 h
  obtain ⟨-, earlier, later, hsplit, hearlier⟩ := List.find?_eq_some_iff_append.1 hfind
  have hentry : entry.1 = entry.2.letters := mem_longestFirst (List.mem_of_find?_eq_some hfind)
  have hpairwise := pairwise_longestFirst
  have hmem := t.letters_mem_longestFirst
  rw [hsplit] at hpairwise hmem
  have hle := (List.pairwise_cons.1 (List.pairwise_append.1 hpairwise).2.1).1
  rw [← hentry]
  rcases List.mem_append.1 hmem with hmem | hmem
  · have hnot := hearlier _ hmem
    simp [List.isPrefixOf_iff_prefix.2 ht] at hnot
  · rcases List.mem_cons.1 hmem with rfl | hmem
    · exact Nat.le_refl _
    · exact hle _ hmem

end Symbol

theorem Quotation.content_of_next {limit : Nat} {quote : Char}
    (h : (next limit quote cs).sort = .token content) : ∃ s, content = .string s := by
  obtain ⟨is, rest, hitems⟩ : ∃ is rest, items quote cs = (is, rest) := ⟨_, _, rfl⟩
  by_cases hclose : rest.head? = some quote
  · obtain ⟨more, rfl⟩ := List.head?_eq_some_iff.1 hclose
    rw [next_of_closed hitems] at h
    split at h
    · contradiction
    split at h
    · contradiction
    · exact ⟨_, (PieceSort.token.inj h).symm⟩
  · rw [next_of_cut hitems hclose] at h
    contradiction

theorem Word.content_of_next {limit : Nat} (h : (next limit c cs).sort = .token content) :
    content = Word.content (String.ofList (c :: cs.takeWhile isWordChar)) := by
  simp only [next] at h
  split at h
  · contradiction
  · exact (PieceSort.token.inj h).symm

inductive Lexeme.ReadBy (o : Options) (r : Recognizers) (c : Char) (cs : List Char) :
    Content → Prop
  | newline : (next o r c cs).text = ['\n'] → ReadBy o r c cs .newline
  | number (x : Magnitude) : ReadBy o r c cs (.number (.finite false x))
  | string (s : String) : ReadBy o r c cs (.string s)
  | word : (next o r c cs).text = c :: cs.takeWhile isWordChar →
      ReadBy o r c cs (Word.content (String.ofList (c :: cs.takeWhile isWordChar)))
  | symbol (s : Symbol) : Symbol.longest? (c :: cs) = some s →
      (next o r c cs).text = s.letters → ReadBy o r c cs (.symbol s)
  | external (kind : ExternalKind) (payload : Payload) : ReadBy o r c cs (.external kind payload)

theorem Lexeme.readBy_next (h : (next o r c cs).sort = .token content) :
    ReadBy o r c cs content := by
  by_cases hline : c = '\n'
  · subst hline
    have hnext := next_newline o r cs
    rw [hnext] at h
    obtain rfl := PieceSort.token.inj h
    exact .newline (by rw [hnext]; rfl)
  by_cases hdigit : c.isDigit
  · have hnext : next o r c cs = NumberLiteral.next c cs := by
      simp only [next, if_neg hline, if_pos hdigit]
    rw [hnext] at h
    obtain ⟨x, rfl⟩ := NumberLiteral.content_of_next h
    exact .number x
  by_cases hquote : isQuote c
  · rw [next_of_isQuote hquote] at h
    obtain ⟨s, rfl⟩ := Quotation.content_of_next h
    exact .string s
  by_cases hword : isWordStart c
  · have hnext : next o r c cs = Word.next o.maxIdentifier c cs := by
      simp only [next, if_neg hline, if_neg hdigit, if_neg hquote, if_pos hword]
    rw [hnext] at h
    obtain rfl := Word.content_of_next h
    exact .word (by rw [hnext, Word.text_next])
  cases hs : Symbol.longest? (c :: cs) with
  | some s =>
      have hnext : next o r c cs = .tokenOf c (cs.take (s.letters.length - 1)) (.symbol s) := by
        simp only [next, if_neg hline, if_neg hdigit, if_neg hquote, if_neg hword, hs]
      rw [hnext] at h
      obtain rfl := PieceSort.token.inj h
      have hletters := Symbol.letters_eq_cons (Symbol.prefix_of_longest? hs)
      exact .symbol s hs (by rw [hnext]; exact hletters.symm)
  | none =>
      simp only [next, if_neg hline, if_neg hdigit, if_neg hquote, if_neg hword, hs] at h
      cases hm : r.recognize (c :: cs) with
      | none =>
          rw [hm] at h
          contradiction
      | some m =>
          rw [hm] at h
          obtain rfl := PieceSort.token.inj h
          exact .external m.kind m.payload

end Lexing
