import Lexing.Proofs.Scan.Pieces
import Mathlib.Data.List.Forall2

namespace Lexing

structure Options.Tightens (o p : Options) : Prop where
  coalesce_eq : o.coalesce = p.coalesce
  comments_eq : o.comments = p.comments
  maxIdentifier_le : o.maxIdentifier ≤ p.maxIdentifier
  maxString_le : o.maxString ≤ p.maxString
  maxComment_le : o.maxComment ≤ p.maxComment

def Options.refuses (o : Options) (content : Content) (lexeme : List Char) : Bool :=
  match content with
  | .word _ | .keyword _ => o.maxIdentifier < Text.size lexeme
  | .string s => o.maxString < Text.size s.toList
  | _ => false

def Cause.isSize (c : Cause) : Bool := c.sizes?.isSome

def Fault.mark (f : Fault) : String × Nat × List Char := (f.cause.name, f.offset, f.lexeme)

def PieceSort.limited (o : Options) (text : List Char) : PieceSort → PieceSort
  | .token content => if o.refuses content text then .rejected else .token content
  | s => s

namespace Piece

def others (p : Piece) : List Fault := p.faults.filter fun f => !f.cause.isSize

def sizes (p : Piece) : List (String × Nat × List Char) :=
  (p.faults.filter fun f => f.cause.isSize).map Fault.mark

structure Tightened (o : Options) (p q : Piece) : Prop where
  text_eq : p.text = q.text
  sort_eq : p.sort = q.sort.limited o q.text
  others_eq : p.others = q.others
  sizes_sublist : q.sizes.Sublist p.sizes

variable {o : Options} {c : Char} {cs : List Char}

theorem tightened_self {q : Piece} (h : q.sort.limited o q.text = q.sort) : Tightened o q q :=
  ⟨rfl, h.symm, rfl, .refl _⟩

theorem tightened_rejectedOf {cause cause' : Cause} (h : cause.isSize) (h' : cause'.isSize)
    (hname : cause.name = cause'.name) :
    Tightened o (rejectedOf c cs cause) (rejectedOf c cs cause') where
  text_eq := rfl
  sort_eq := rfl
  others_eq := by simp [others, rejectedOf, Fault.whole, h, h']
  sizes_sublist := by simp [sizes, rejectedOf, Fault.whole, h, h', Fault.mark, hname]

theorem tightened_tokenOf {cause : Cause} {content : Content} (h : cause.isSize)
    (hrefuses : o.refuses content (c :: cs)) :
    Tightened o (rejectedOf c cs cause) (tokenOf c cs content) where
  text_eq := rfl
  sort_eq := by simp [rejectedOf, tokenOf, PieceSort.limited, hrefuses]
  others_eq := by simp [others, rejectedOf, tokenOf, Fault.whole, h]
  sizes_sublist := by simp [sizes, tokenOf]

end Piece

open Piece

variable {o p : Options}

namespace Trivia

theorem tightened_commentOf {m n : Nat} (h : m ≤ n) (c : Char) (cs : List Char) :
    Tightened o (commentOf m c cs) (commentOf n c cs) := by
  refine ⟨rfl, rfl, ?_, ?_⟩
  · simp only [others, commentOf]
    split <;> split <;> simp [Fault.whole, Cause.isSize, Cause.sizes?]
  · simp only [sizes, commentOf]
    split
    · rw [if_pos (by omega)]
      simp [Fault.whole, Fault.mark, Cause.isSize, Cause.sizes?, Cause.name]
    · exact List.nil_sublist _

theorem tightened_next? (h : o.Tightens p) (c : Char) (cs : List Char) :
    (next? o c cs = none ∧ next? p c cs = none) ∨
      ∃ x y, next? o c cs = some x ∧ next? p c cs = some y ∧ Tightened o x y := by
  have hself {x : Piece} (hx : x.sort.isTrivia) : Tightened o x x := by
    apply tightened_self
    cases hs : x.sort <;> simp_all [PieceSort.isTrivia, PieceSort.limited]
  unfold next? block?
  rw [h.comments_eq]
  split
  · exact .inr ⟨_, _, rfl, rfl, hself rfl⟩
  split
  · exact .inr ⟨_, _, rfl, rfl, tightened_commentOf h.maxComment_le ..⟩
  split
  · exact .inl ⟨rfl, rfl⟩
  split
  · exact .inl ⟨rfl, rfl⟩
  split
  · exact .inl ⟨rfl, rfl⟩
  split
  · exact .inr ⟨_, _, rfl, rfl, tightened_commentOf h.maxComment_le ..⟩
  · exact .inr ⟨_, _, rfl, rfl, hself rfl⟩

end Trivia

theorem Quotation.tightened_next (h : o.maxString ≤ p.maxString) (quote : Char) (cs : List Char) :
    Tightened o (next o.maxString quote cs) (next p.maxString quote cs) := by
  obtain ⟨is, rest, hitems⟩ : ∃ is rest, items quote cs = (is, rest) := ⟨_, _, rfl⟩
  by_cases hr : rest.head? = some quote
  · obtain ⟨after, rfl⟩ := List.head?_eq_some_iff.1 hr
    rw [next_of_closed hitems, next_of_closed hitems]
    split
    · exact tightened_self rfl
    · by_cases hloose : p.maxString < Text.size (is.flatMap Item.decoded)
      · rw [if_pos (by omega), if_pos hloose]
        exact tightened_rejectedOf rfl rfl rfl
      · rw [if_neg hloose]
        split
        · next htight =>
            exact tightened_tokenOf rfl (by simpa [Options.refuses] using htight)
        · next htight =>
            apply tightened_self
            simpa [tokenOf, PieceSort.limited, Options.refuses] using htight
  · rw [next_of_cut hitems hr, next_of_cut hitems hr]
    exact tightened_self rfl

theorem Word.refuses_content (o : Options) (spelling : String) (lexeme : List Char) :
    o.refuses (content spelling) lexeme = decide (o.maxIdentifier < Text.size lexeme) := by
  unfold content
  split <;> rfl

theorem Word.tightened_next (h : o.maxIdentifier ≤ p.maxIdentifier) (c : Char) (cs : List Char) :
    Tightened o (next o.maxIdentifier c cs) (next p.maxIdentifier c cs) := by
  simp only [next]
  generalize cs.takeWhile isWordChar = run
  by_cases hloose : p.maxIdentifier < Text.size (c :: run)
  · rw [if_pos (by omega), if_pos hloose]
    exact tightened_rejectedOf rfl rfl rfl
  · rw [if_neg hloose]
    split
    · next htight =>
        exact tightened_tokenOf rfl (by rw [refuses_content]; exact decide_eq_true htight)
    · next htight =>
        apply tightened_self
        simpa [tokenOf, PieceSort.limited, refuses_content] using htight

theorem NumberLiteral.limited_next (o : Options) (c : Char) (cs : List Char) :
    (next c cs).sort.limited o (next c cs).text = (next c cs).sort := by
  unfold next finish
  repeat' first
    | rfl
    | dsimp only
    | split

theorem Lexeme.tightened_next (h : o.Tightens p) (r : Recognizers) (c : Char) (cs : List Char) :
    Tightened o (next o r c cs) (next p r c cs) := by
  unfold next
  split
  · exact tightened_self rfl
  split
  · exact tightened_self (NumberLiteral.limited_next ..)
  split
  · exact Quotation.tightened_next h.maxString_le ..
  split
  · exact Word.tightened_next h.maxIdentifier_le ..
  split
  · exact tightened_self rfl
  split
  · exact tightened_self rfl
  · exact tightened_self rfl

namespace Piece

theorem tightened_next (h : o.Tightens p) (r : Recognizers) (c : Char) (cs : List Char) :
    Tightened o (next o r c cs) (next p r c cs) := by
  rcases Trivia.tightened_next? h c cs with ⟨htight, hloose⟩ | ⟨x, y, htight, hloose, hxy⟩
  · rw [next, next, htight, hloose]
    exact Lexeme.tightened_next h r c cs
  · rw [next, next, htight, hloose]
    exact hxy

theorem tightened_all (h : o.Tightens p) (r : Recognizers) (cs : List Char) :
    List.Forall₂ (Tightened o) (all o r cs) (all p r cs) := by
  -- By the pieces under the smaller limits, each of which ends where the other one does.
  fun_induction all o r cs with
  | case1 => simp
  | case2 c cs ih =>
      have hnext := tightened_next h r c cs
      rw [all_cons, ← hnext.text_eq]
      exact .cons hnext ih

end Piece

end Lexing
