import Lexing.Settings.Limits
import Lexing.Stream.Basic

namespace Lexing

structure TokenCounts where
  total : Nat
  literals : Nat
  keywords : Nat
  words : Nat
  operators : Nat
  structural : Nat
  separators : Nat
  external : Nat
  deriving DecidableEq, Repr

namespace TokenCounts

def zero : TokenCounts := ⟨0, 0, 0, 0, 0, 0, 0, 0⟩

def add (n : TokenCounts) (group : Category) : TokenCounts :=
  let n := { n with total := n.total + 1 }
  match group with
  | .literal => { n with literals := n.literals + 1 }
  | .keyword => { n with keywords := n.keywords + 1 }
  | .word => { n with words := n.words + 1 }
  | .operator | .assignment => { n with operators := n.operators + 1 }
  | .structural => { n with structural := n.structural + 1 }
  | .separator => { n with separators := n.separators + 1 }
  | .external => { n with external := n.external + 1 }
  | .endOfInput => n

def ofTokens (tokens : List Token) : TokenCounts :=
  tokens.foldl (fun n t => n.add t.kind.category) zero

def significant (n : TokenCounts) : Nat := n.total - (n.separators + 1)

def hasContent (n : TokenCounts) : Bool := 0 < n.significant

def isWithinLimits (n : TokenCounts) : Bool := n.total ≤ Limits.lexical.maxTokens

end TokenCounts

def TokenStream.counts (s : TokenStream) : TokenCounts := .ofTokens s.tokens.toList

end Lexing
