import Lexing.Proofs.Scan.Grammar
import Mathlib.Data.List.TakeWhile

namespace Lexing

theorem head?_dropWhile_ne (a : Char) (cs : List Char) :
    cs.dropWhile (· != a) = [] ∨ (cs.dropWhile (· != a)).head? = some a := by
  induction cs with
  | nil => simp
  | cons c cs ih =>
      by_cases hc : c = a
      · simp [hc]
      · simpa [hc] using ih

theorem throughText?_go_append {closing passed cs found : List Char}
    (h : throughText?.go closing passed cs = some found) :
    ∃ body after, found = passed.reverse ++ body ++ closing ∧ cs = body ++ closing ++ after ∧
      ∀ n < body.length, ¬ closing <+: cs.drop n := by
  induction cs generalizing passed with
  | nil => simp [throughText?.go] at h
  | cons c cs ih =>
      simp only [throughText?.go] at h
      split at h
      · next hp =>
          obtain ⟨after, ha⟩ := List.isPrefixOf_iff_prefix.1 hp
          obtain rfl := Option.some.inj h
          exact ⟨[], after, by simp, by simp [ha], by simp⟩
      · next hp =>
          obtain ⟨body, after, hf, hcs, hn⟩ := ih h
          refine ⟨c :: body, after, by simp [hf], by simp [hcs], ?_⟩
          intro n hlt
          cases n with
          | zero => simpa using fun hc => hp <| List.isPrefixOf_iff_prefix.2 hc
          | succ n => simpa using hn n (by simpa using hlt)

theorem throughText?_eq_some {closing cs found : List Char}
    (h : throughText? closing cs = some found) :
    ∃ body after, found = body ++ closing ∧ cs = found ++ after ∧
      ∀ n < body.length, ¬ closing <+: cs.drop n := by
  obtain ⟨body, after, hf, hcs, hn⟩ := throughText?_go_append h
  obtain rfl : found = body ++ closing := by simpa using hf
  exact ⟨body, after, rfl, hcs, hn⟩

theorem throughText?_go_eq_none {closing passed cs : List Char} (hc : closing ≠ [])
    (h : throughText?.go closing passed cs = none) (n : Nat) : ¬ closing <+: cs.drop n := by
  induction cs generalizing passed n with
  | nil => simpa using hc
  | cons c cs ih =>
      simp only [throughText?.go] at h
      split at h
      · simp at h
      · next hp =>
          cases n with
          | zero => simpa using fun hq => hp <| List.isPrefixOf_iff_prefix.2 hq
          | succ n => simpa using ih h n

theorem throughText?_eq_none {closing cs : List Char} (hc : closing ≠ [])
    (h : throughText? closing cs = none) (n : Nat) : ¬ closing <+: cs.drop n :=
  throughText?_go_eq_none hc h n

namespace Trivia

variable {o : Options} {c : Char} {cs : List Char} {p : Piece}

theorem commentOf_within (limit : Nat) (c : Char) (cs : List Char) :
    ∀ f ∈ (commentOf limit c cs).faults, f.Within (commentOf limit c cs).text := by
  intro f hf
  simp only [commentOf] at hf ⊢
  split at hf
  · obtain rfl := List.mem_singleton.1 hf
    exact Fault.within_whole (List.cons_ne_nil c cs) _
  · simp at hf

theorem opens_commentOf (r : Recognizers) (limit : Nat) {after : List Char}
    (h : o.comments.Covers (c :: cs) after) :
    (commentOf limit c cs).Opens o r (c :: cs ++ after) after where
  text_eq := rfl
  isOf := h
  within := commentOf_within limit c cs

theorem opens_line (r : Recognizers) (h : o.comments.opensLine c cs) :
    (commentOf o.maxComment c (cs.takeWhile (· != '\n'))).Opens o r (c :: cs)
      (cs.dropWhile (· != '\n')) := by
  simp only [Comments.opensLine, Bool.and_eq_true, bne_iff_ne, List.any_eq_true,
    Bool.not_eq_true', List.isEmpty_eq_false_iff, List.isPrefixOf_iff_prefix] at h
  obtain ⟨hc, opening, hmem, hne, hpre⟩ := h
  have hjoin : c :: cs = c :: cs.takeWhile (· != '\n') ++ cs.dropWhile (· != '\n') := by
    rw [List.cons_append, List.takeWhile_append_dropWhile]
  have hin : '\n' ∉ c :: cs.takeWhile (· != '\n') := by
    simp only [List.mem_cons, not_or]
    exact ⟨Ne.symm hc, fun hm => by simpa using List.mem_takeWhile_imp hm⟩
  rw [hjoin] at hpre ⊢
  exact opens_commentOf r _ (.line opening hmem hne hpre hin (head?_dropWhile_ne '\n' cs))

theorem block?_eq_some {opening closing : String} {more : List Char}
    (hb : o.comments.block = some (opening, closing)) (ho : opening.toList = c :: more)
    (hclose : closing.toList ≠ []) (tail : List Char) :
    block? o c (more ++ tail) = some (match throughText? closing.toList tail with
      | some body => commentOf o.maxComment c (more ++ body)
      | none => openComment c (more ++ tail)) := by
  have hpre : (c :: more).isPrefixOf (c :: (more ++ tail)) :=
    List.isPrefixOf_iff_prefix.2 (List.prefix_append (c :: more) tail)
  simp only [block?, hb, ho, hpre, List.isEmpty_eq_false_iff.2 hclose, Bool.not_true, Bool.or_false,
    Bool.false_eq_true, if_false, List.drop_left]
  cases throughText? closing.toList tail <;> rfl

theorem block?_eq_none {opening closing : String} (hb : o.comments.block = some (opening, closing))
    (h : ¬ (opening.toList ≠ [] ∧ closing.toList ≠ [] ∧ opening.toList <+: c :: cs)) :
    block? o c cs = none := by
  simp only [block?, hb]
  split
  · rfl
  · next first more ho =>
      rw [if_pos]
      rw [ho] at h
      simp only [Bool.or_eq_true, Bool.not_eq_true', List.isEmpty_iff]
      by_contra hopens
      rw [not_or] at hopens
      exact h ⟨List.cons_ne_nil _ _, hopens.1, List.isPrefixOf_iff_prefix.1 (by simpa using hopens.2)⟩

theorem block?_cases (h : block? o c cs = some p) :
    ∃ opening closing : String, o.comments.block = some (opening, closing) ∧
      opening.toList ≠ [] ∧ closing.toList ≠ [] ∧
      ((∃ body after, c :: cs = opening.toList ++ (body ++ (closing.toList ++ after)) ∧
          (∀ n < body.length, ¬ closing.toList <+: (body ++ (closing.toList ++ after)).drop n) ∧
          p.text = opening.toList ++ (body ++ closing.toList) ∧
          ∃ d ds, p = commentOf o.maxComment d ds) ∨
        ∃ body, c :: cs = opening.toList ++ body ∧ (∀ n, ¬ closing.toList <+: body.drop n) ∧
          p = openComment c cs) := by
  cases hb : o.comments.block with
  | none => simp [block?, hb] at h
  | some delimiters =>
      obtain ⟨opening, closing⟩ := delimiters
      by_cases hopens : opening.toList ≠ [] ∧ closing.toList ≠ [] ∧ opening.toList <+: c :: cs
      · obtain ⟨hopen, hclose, tail, htail⟩ := hopens
        obtain ⟨first, more, ho⟩ := List.exists_cons_of_ne_nil hopen
        obtain ⟨rfl, rfl⟩ : first = c ∧ more ++ tail = cs := by simpa [ho] using htail
        rw [block?_eq_some hb ho hclose] at h
        obtain rfl := Option.some.inj h
        refine ⟨opening, closing, rfl, hopen, hclose, ?_⟩
        cases hfound : throughText? closing.toList tail with
        | some found =>
            obtain ⟨body, after, rfl, rfl, hfirst⟩ := throughText?_eq_some hfound
            rw [List.append_assoc] at hfirst
            refine .inl ⟨body, after, by simp [ho], hfirst, by simp [commentOf, ho], ?_⟩
            exact ⟨first, more ++ (body ++ closing.toList), rfl⟩
        | none => exact .inr ⟨tail, htail.symm, throughText?_eq_none hclose hfound, rfl⟩
      · simp [block?_eq_none hb hopens] at h

theorem opens_block (r : Recognizers) (h : block? o c cs = some p) :
    ∃ after, p.Opens o r (c :: cs) after := by
  obtain ⟨opening, closing, hb, ho, hclose, hcases⟩ := block?_cases h
  rcases hcases with ⟨body, after, hcs, hfirst, htext, d, ds, rfl⟩ | ⟨body, hcs, hnone, rfl⟩
  · have hcov : o.comments.Covers (d :: ds) after :=
      .block opening closing body hb ho hclose (by simpa [commentOf] using htext)
        (by simpa using hfirst)
    have htext : d :: ds = opening.toList ++ (body ++ closing.toList) := htext
    have hjoin : c :: cs = d :: ds ++ after := by simp [hcs, htext]
    exact ⟨after, hjoin ▸ opens_commentOf r o.maxComment hcov⟩
  · refine ⟨[], by simp [openComment], ?_, ?_⟩
    · exact .unclosed opening closing body hb ho hclose hcs rfl hnone
    · intro f hf
      obtain rfl := List.mem_singleton.1 hf
      exact Fault.within_whole (List.cons_ne_nil _ _) _

theorem next?_eq_none : next? o c cs = none ↔
    isHorizontal c = false ∧ o.comments.opensLine c cs = false ∧ block? o c cs = none := by
  unfold next?
  split
  · simp_all
  · split <;> simp_all

theorem opens_next (r : Recognizers) (h : next? o c cs = some p) :
    ∃ after, p.Opens o r (c :: cs) after := by
  unfold next? at h
  split at h
  · next hc =>
      obtain rfl := Option.some.inj h
      refine ⟨cs.dropWhile isHorizontal, by simp [Piece.blankOf], ⟨rfl, ?_⟩, by simp [Piece.blankOf]⟩
      intro d hd
      rcases List.mem_cons.1 hd with rfl | hd
      · exact hc
      · exact List.mem_takeWhile_imp hd
  · split at h
    · next hl =>
        obtain rfl := Option.some.inj h
        exact ⟨_, opens_line r hl⟩
    · exact opens_block r h

end Trivia

end Lexing
