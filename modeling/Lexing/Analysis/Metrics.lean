import Lexing.Json.Basic
import Lexing.Token.Basic

namespace Lexing

structure Metrics where
  total : Nat
  numbers : Nat
  strings : Nat
  keywords : Nat
  words : Nat
  operators : Nat
  assignments : Nat
  structural : Nat
  separators : Nat
  external : Nat
  diagnostics : Nat
  longestString : Nat
  longestWord : Nat
  lines : UInt32
  kinds : List (String × Nat)
  deriving DecidableEq, Repr

namespace Metrics

def zero : Metrics := ⟨0, 0, 0, 0, 0, 0, 0, 0, 0, 0, 0, 0, 0, 0, []⟩

def increment (name : String) : List (String × Nat) → List (String × Nat)
  | [] => [(name, 1)]
  | (n, count) :: more =>
      if name < n then (name, 1) :: (n, count) :: more
      else if name = n then (n, count + 1) :: more
      else (n, count) :: increment name more

def addContent (m : Metrics) : Content → Metrics
  | .number _ => { m with numbers := m.numbers + 1 }
  | .string s =>
      { m with strings := m.strings + 1, longestString := max m.longestString s.utf8ByteSize }
  | .keyword _ => { m with keywords := m.keywords + 1 }
  | .word s => { m with words := m.words + 1, longestWord := max m.longestWord s.utf8ByteSize }
  | .external _ _ => { m with external := m.external + 1 }
  | .newline => { m with separators := m.separators + 1 }
  | .endOfInput => m
  | .symbol s =>
      match s.category with
      | .operator => { m with operators := m.operators + 1 }
      | .assignment => { m with assignments := m.assignments + 1 }
      | .structural => { m with structural := m.structural + 1 }
      | .separator => { m with separators := m.separators + 1 }
      | _ => m

def add (detailed : Bool) (m : Metrics) (t : Token) : Metrics :=
  let counted := addContent m t.content
  { counted with
    total := m.total + 1
    lines := max m.lines (.ofNat t.line)
    kinds := if detailed then increment t.kind.toString m.kinds else m.kinds }

def ofTokens (detailed : Bool) (tokens : List Token) : Metrics := tokens.foldl (add detailed) zero

def toJson (m : Metrics) : Json :=
  .object [
    ("total_tokens", .natural m.total),
    ("number_tokens", .natural m.numbers),
    ("string_tokens", .natural m.strings),
    ("keyword_tokens", .natural m.keywords),
    ("word_tokens", .natural m.words),
    ("operator_tokens", .natural m.operators),
    ("assignment_tokens", .natural m.assignments),
    ("structural_tokens", .natural m.structural),
    ("separator_tokens", .natural m.separators),
    ("external_tokens", .natural m.external),
    ("diagnostics", .natural m.diagnostics),
    ("max_string_length", .natural m.longestString),
    ("max_word_length", .natural m.longestWord),
    ("lines_scanned", .natural m.lines.toNat),
    ("kind_counts", .object (m.kinds.map fun (name, count) => (name, .natural count)))]

end Metrics

end Lexing
