import Lexing.Analysis.Counts
import Lexing.Analysis.Metrics
import Mathlib.Algebra.GroupWithZero.Nat
import Mathlib.Data.String.Basic

namespace Lexing

def Token.textSize? (kind : Kind) (t : Token) : Option Nat :=
  match t.payload with
  | .text s => if t.kind = kind then some s.utf8ByteSize else none
  | _ => none

theorem Symbol.category_cases (s : Symbol) : s.category = .operator ∨ s.category = .assignment ∨
    s.category = .structural ∨ s.category = .separator := by
  cases s <;> simp [category]

def Symbol.operators : List String := ["^", "&", "<<", ">>", "||", "&&", "!", "==", "!=", "<=",
  ">=", "<", ">", "~=", "!~=", "+", "-", "*", "%", "**", "/", "|", "~", "..."]

def Symbol.assignments : List String :=
  ["=", "+=", "-=", "*=", "/=", "%=", "|=", "&=", "^=", "<<=", ">>="]

def Symbol.structurals : List String := ["(", ")", "[", "]", "\x7b", "\x7d", ".", ",", ":"]

def Kind.Belongs (k : Kind) : Category → Prop
  | .literal => k = .number ∨ k = .string
  | .assignment => ∃ s, k = .symbol s ∧ s.spelling ∈ Symbol.assignments
  | .structural => ∃ s, k = .symbol s ∧ s.spelling ∈ Symbol.structurals
  | .operator => ∃ s, k = .symbol s ∧ s.spelling ∈ Symbol.operators
  | .keyword => ∃ w, k = .keyword w
  | .separator => k = .newline ∨ k = .symbol .semicolon
  | .endOfInput => k = .endOfInput
  | .word => k = .word
  | .external => ∃ e, k = .external e

theorem Symbol.category_eq_operator (s : Symbol) :
    s.category = .operator ↔ s.spelling ∈ operators := by
  cases s <;> simp [category, spelling, operators]

theorem Symbol.category_eq_assignment (s : Symbol) :
    s.category = .assignment ↔ s.spelling ∈ assignments := by
  cases s <;> simp [category, spelling, assignments]

theorem Symbol.category_eq_structural (s : Symbol) :
    s.category = .structural ↔ s.spelling ∈ structurals := by
  cases s <;> simp [category, spelling, structurals]

theorem Symbol.category_eq_separator (s : Symbol) :
    s.category = .separator ↔ s = .semicolon := by
  cases s <;> simp [category]

theorem Kind.category_eq_iff (k : Kind) (g : Category) : k.category = g ↔ k.Belongs g := by
  cases k with
  | symbol s =>
      have hcases := s.category_cases
      cases g <;> simp [Belongs, category, ← s.category_eq_operator, ← s.category_eq_assignment,
        ← s.category_eq_structural, ← s.category_eq_separator] <;> rcases hcases with h | h | h | h <;>
        simp [h]
  | _ => cases g <;> simp [Belongs, category]

theorem Kind.category_eq_literal (k : Kind) :
    k.category = .literal ↔ k = .number ∨ k = .string := k.category_eq_iff .literal

theorem Kind.category_eq_endOfInput (k : Kind) :
    k.category = .endOfInput ↔ k = .endOfInput := k.category_eq_iff .endOfInput

instance (k : Kind) (g : Category) : Decidable (k.Belongs g) :=
  decidable_of_iff _ (k.category_eq_iff g)

namespace Metrics

def tally (m : Metrics) : Category → Nat
  | .literal => m.numbers + m.strings
  | .assignment => m.assignments
  | .structural => m.structural
  | .operator => m.operators
  | .keyword => m.keywords
  | .separator => m.separators
  | .endOfInput => 0
  | .word => m.words
  | .external => m.external

def parts (m : Metrics) : Nat :=
  m.tally .literal + m.tally .keyword + m.tally .word + m.tally .operator + m.tally .assignment +
    m.tally .structural + m.tally .separator + m.tally .external

def counts (m : Metrics) : TokenCounts :=
  ⟨m.total, m.tally .literal, m.tally .keyword, m.tally .word,
    m.tally .operator + m.tally .assignment, m.tally .structural, m.tally .separator,
    m.tally .external⟩

def countOf (name : String) (kinds : List (String × Nat)) : Nat :=
  ((kinds.filter (·.1 = name)).map Prod.snd).sum

variable {detailed : Bool} {m : Metrics} {t : Token}

theorem addContent_symbol (m : Metrics) (s : Symbol) : addContent m (.symbol s) = { m with
    operators := m.operators + if s.category = .operator then 1 else 0
    assignments := m.assignments + if s.category = .assignment then 1 else 0
    structural := m.structural + if s.category = .structural then 1 else 0
    separators := m.separators + if s.category = .separator then 1 else 0 } := by
  rcases s.category_cases with h | h | h | h <;> simp [addContent, h]

theorem add_eq (detailed : Bool) (m : Metrics) (t : Token) : add detailed m t =
    { total := m.total + 1
      numbers := m.numbers + if t.kind = .number then 1 else 0
      strings := m.strings + if t.kind = .string then 1 else 0
      keywords := m.keywords + if t.kind.category = .keyword then 1 else 0
      words := m.words + if t.kind.category = .word then 1 else 0
      operators := m.operators + if t.kind.category = .operator then 1 else 0
      assignments := m.assignments + if t.kind.category = .assignment then 1 else 0
      structural := m.structural + if t.kind.category = .structural then 1 else 0
      separators := m.separators + if t.kind.category = .separator then 1 else 0
      external := m.external + if t.kind.category = .external then 1 else 0
      diagnostics := m.diagnostics
      longestString := (t.textSize? .string).elim m.longestString (max m.longestString)
      longestWord := (t.textSize? .word).elim m.longestWord (max m.longestWord)
      lines := max m.lines (.ofNat t.line)
      kinds := if detailed then increment t.kind.toString m.kinds else m.kinds } := by
  obtain ⟨content, position, span⟩ := t
  cases content with
  | symbol s =>
      rcases s.category_cases with h | h | h | h <;>
        simp [add, addContent_symbol, Token.kind, Content.kind, Kind.category, Token.textSize?,
          Token.payload, Content.payload, h]
  | external kind payload =>
      cases payload <;> simp [add, addContent, Token.kind, Content.kind, Kind.category,
        Token.textSize?, Token.payload, Content.payload]
  | _ =>
      simp [add, addContent, Token.kind, Content.kind, Kind.category, Token.textSize?,
        Token.payload, Content.payload]

theorem tally_add {g : Category} (h : g ≠ .endOfInput) :
    (add detailed m t).tally g = m.tally g + if t.kind.category = g then 1 else 0 := by
  rw [add_eq]
  cases g with
  | literal =>
      simp only [tally, t.kind.category_eq_literal]
      by_cases hn : t.kind = .number
      · simp [hn, Nat.add_right_comm]
      · simp [hn, Nat.add_assoc]
  | endOfInput => contradiction
  | _ => rfl

theorem parts_add :
    (add detailed m t).parts = m.parts + if t.kind ≠ .endOfInput then 1 else 0 := by
  simp only [parts, tally_add, ne_eq, reduceCtorEq, not_false_eq_true,
    ← t.kind.category_eq_endOfInput]
  cases t.kind.category <;> simp <;> omega

theorem counts_add : (add detailed m t).counts = m.counts.add t.kind.category := by
  have htotal : (add detailed m t).total = m.total + 1 := rfl
  simp only [counts, tally_add, htotal, ne_eq, reduceCtorEq, not_false_eq_true]
  cases t.kind.category <;> simp [TokenCounts.add] <;> omega

theorem ofTokens_eq_countP {f : Metrics → Nat} {p : Token → Prop} [DecidablePred p]
    (hzero : f zero = 0) (hstep : ∀ m t, f (add detailed m t) = f m + if p t then 1 else 0)
    (tokens : List Token) : f (ofTokens detailed tokens) = tokens.countP fun t => p t := by
  have hfold (m : Metrics) :
      f (tokens.foldl (add detailed) m) = f m + tokens.countP fun t => p t := by
    induction tokens generalizing m with
    | nil => rfl
    | cons t tokens ih =>
        rw [List.foldl_cons, ih, hstep, List.countP_cons]
        simp only [decide_eq_true_eq]
        omega
  rw [ofTokens, hfold, hzero, Nat.zero_add]

theorem ofTokens_eq_max {f : Metrics → Nat} {g : Token → Option Nat} (hzero : f zero = 0)
    (hstep : ∀ m t, f (add detailed m t) = (g t).elim (f m) (max (f m)))
    (tokens : List Token) :
    f (ofTokens detailed tokens) = (tokens.filterMap g).max?.getD 0 := by
  have hfold (m : Metrics) :
      f (tokens.foldl (add detailed) m) = (tokens.filterMap g).foldl max (f m) := by
    induction tokens generalizing m with
    | nil => rfl
    | cons t tokens ih =>
        rw [List.foldl_cons, ih, hstep]
        cases h : g t with
        | none => rw [List.filterMap_cons_none h, Option.elim_none]
        | some n => rw [List.filterMap_cons_some h, List.foldl_cons, Option.elim_some]
  rw [ofTokens, hfold, hzero, List.foldl_max, Nat.zero_max]

theorem counts_ofTokens (tokens : List Token) :
    (ofTokens detailed tokens).counts = .ofTokens tokens :=
  (List.foldl_hom counts fun _ _ => counts_add.symm).symm

structure Tallied (kinds : List (String × Nat)) (names : List String) : Prop where
  sorted : (kinds.map Prod.fst).Pairwise (· < ·)
  positive : ∀ e ∈ kinds, 0 < e.2
  countOf_eq : ∀ name, countOf name kinds = names.count name
  sum_eq : (kinds.map Prod.snd).sum = names.length

variable {name : String} {kinds : List (String × Nat)}

theorem countOf_cons (name k : String) (n : Nat) (kinds : List (String × Nat)) :
    countOf name ((k, n) :: kinds) = (if k = name then n else 0) + countOf name kinds := by
  by_cases h : k = name <;> simp [countOf, h]

theorem countOf_increment (name k : String) (kinds : List (String × Nat)) :
    countOf k (increment name kinds) = countOf k kinds + if name = k then 1 else 0 := by
  fun_induction increment name kinds with
  | case1 => rw [countOf_cons, Nat.add_comm]
  | case2 n count more hlt =>
      rw [countOf_cons]
      omega
  | case3 count more hlt =>
      rw [countOf_cons, countOf_cons]
      split <;> omega
  | case4 n count more hlt hne ih =>
      rw [countOf_cons, countOf_cons, ih]
      omega

theorem sum_increment (name : String) (kinds : List (String × Nat)) :
    ((increment name kinds).map Prod.snd).sum = (kinds.map Prod.snd).sum + 1 := by
  fun_induction increment name kinds with
  | case1 => rfl
  | case2 n count more hlt =>
      rw [List.map_cons, List.sum_cons]
      omega
  | case3 count more hlt =>
      simp only [List.map_cons, List.sum_cons]
      omega
  | case4 n count more hlt hne ih =>
      simp only [List.map_cons, List.sum_cons, ih]
      omega

theorem mem_increment {e : String × Nat} (h : e ∈ increment name kinds) :
    e ∈ kinds ∨ e.1 = name ∧ 0 < e.2 := by
  fun_induction increment name kinds with
  | case1 =>
      obtain rfl := List.mem_singleton.1 h
      exact .inr ⟨rfl, Nat.one_pos⟩
  | case2 n count more hlt =>
      rcases List.mem_cons.1 h with rfl | h
      · exact .inr ⟨rfl, Nat.one_pos⟩
      · exact .inl h
  | case3 count more hlt =>
      rcases List.mem_cons.1 h with rfl | h
      · exact .inr ⟨rfl, Nat.succ_pos count⟩
      · exact .inl (List.mem_cons_of_mem _ h)
  | case4 n count more hlt hne ih =>
      rcases List.mem_cons.1 h with rfl | h
      · exact .inl List.mem_cons_self
      · exact (ih h).imp_left (List.mem_cons_of_mem _)

theorem sorted_increment (h : (kinds.map Prod.fst).Pairwise (· < ·)) :
    ((increment name kinds).map Prod.fst).Pairwise (· < ·) := by
  fun_induction increment name kinds with
  | case1 => simp
  | case2 n count more hlt =>
      refine List.pairwise_cons.2 ⟨fun k hk => ?_, h⟩
      rcases List.mem_cons.1 hk with rfl | hk
      · exact hlt
      · exact lt_trans hlt ((List.pairwise_cons.1 h).1 k hk)
  | case3 count more hlt => exact h
  | case4 n count more hlt hne ih =>
      obtain ⟨hn, hmore⟩ := List.pairwise_cons.1 h
      refine List.pairwise_cons.2 ⟨fun k hk => ?_, ih hmore⟩
      obtain ⟨e, he, rfl⟩ := List.mem_map.1 hk
      rcases mem_increment he with he | ⟨hname, -⟩
      · exact hn _ (List.mem_map_of_mem he)
      · rw [hname]
        exact lt_of_le_of_ne (not_lt.1 hlt) (Ne.symm hne)

theorem countOf_eq_zero (h : ∀ e ∈ kinds, e.1 ≠ name) : countOf name kinds = 0 := by
  have hfilter : kinds.filter (·.1 = name) = [] := List.filter_eq_nil_iff.2 (by simpa using h)
  rw [countOf, hfilter]
  rfl

theorem countOf_of_mem {n : Nat} (hsorted : (kinds.map Prod.fst).Pairwise (· < ·))
    (h : (name, n) ∈ kinds) : countOf name kinds = n := by
  induction kinds with
  | nil => contradiction
  | cons e more ih =>
      obtain ⟨k, count⟩ := e
      obtain ⟨hk, hmore⟩ := List.pairwise_cons.1 hsorted
      rw [countOf_cons]
      rcases List.mem_cons.1 h with heq | h
      · obtain ⟨rfl, rfl⟩ := Prod.mk.inj heq
        have hnone : countOf name more = 0 :=
          countOf_eq_zero fun e he => (hk e.1 (List.mem_map_of_mem he)).ne'
        rw [if_pos rfl, hnone, Nat.add_zero]
      · have hlt : k < name := hk name (List.mem_map_of_mem h)
        rw [if_neg hlt.ne, Nat.zero_add, ih hmore h]

theorem exists_mem_of_countOf_ne (h : countOf name kinds ≠ 0) : ∃ n, (name, n) ∈ kinds := by
  contrapose! h
  refine countOf_eq_zero fun e he hname => h e.2 ?_
  rwa [← hname]

namespace Tallied

variable {names : List String}

theorem increment (h : Tallied kinds names) (name : String) :
    Tallied (Metrics.increment name kinds) (names ++ [name]) where
  sorted := sorted_increment h.sorted
  positive e he := by
    rcases mem_increment he with he | ⟨-, hpos⟩
    · exact h.positive e he
    · exact hpos
  countOf_eq k := by
    rw [countOf_increment, h.countOf_eq, List.count_append, List.count_singleton]
    simp
  sum_eq := by rw [sum_increment, h.sum_eq, List.length_append, List.length_singleton]

theorem mem_iff (h : Tallied kinds names) {n : Nat} :
    (name, n) ∈ kinds ↔ n = names.count name ∧ 0 < n := by
  rw [← h.countOf_eq]
  constructor
  · intro hmem
    exact ⟨(countOf_of_mem h.sorted hmem).symm, h.positive _ hmem⟩
  · rintro ⟨rfl, hpos⟩
    obtain ⟨n, hn⟩ := exists_mem_of_countOf_ne hpos.ne'
    rwa [countOf_of_mem h.sorted hn]

theorem foldl (h : Tallied m.kinds names) (tokens : List Token) :
    Tallied (tokens.foldl (add true) m).kinds (names ++ tokens.map (·.kind.toString)) := by
  induction tokens generalizing m names with
  | nil => simpa using h
  | cons t tokens ih =>
      have hstep : Tallied (add true m t).kinds (names ++ [t.kind.toString]) :=
        h.increment t.kind.toString
      rw [List.foldl_cons, List.map_cons, List.append_cons]
      exact ih hstep

theorem ofTokens (tokens : List Token) :
    Tallied (Metrics.ofTokens true tokens).kinds (tokens.map (·.kind.toString)) := by
  have hzero : Tallied zero.kinds [] := ⟨.nil, by simp [zero], by simp [zero, countOf], rfl⟩
  exact hzero.foldl tokens

end Tallied

theorem kinds_foldl (m : Metrics) (tokens : List Token) :
    (tokens.foldl (add false) m).kinds = m.kinds := by
  induction tokens generalizing m with
  | nil => rfl
  | cons t tokens ih => exact ih (add false m t)

end Metrics

end Lexing
