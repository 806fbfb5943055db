import Lexing.Scan.Diagnostic
import Lexing.Source.Lines

namespace Lexing

structure TokenStream where
  source : List Char
  body : Array Token
  ending : Token
  diagnostics : List Diagnostic
  position : Nat

namespace TokenStream

def tokens (s : TokenStream) : Array Token := s.body.push s.ending

def size (s : TokenStream) : Nat := s.body.size + 1

theorem size_tokens (s : TokenStream) : s.tokens.size = s.size := Array.size_push ..

def isEmpty (s : TokenStream) : Bool := s.body.isEmpty

def tokenAt (s : TokenStream) (i : Nat) : Token := s.body.getD i s.ending

def get? (s : TokenStream) (i : Nat) : Option Token :=
  if i < s.size then some (s.tokenAt i) else none

def peekAhead (s : TokenStream) (n : Nat) : Token := s.tokenAt (s.position + n)

def peek (s : TokenStream) : Token := s.peekAhead 0

def next (s : TokenStream) : Token × TokenStream :=
  (s.peek, { s with position := min (s.position + 1) s.size })

def nextIf (s : TokenStream) (kind : Kind) : Option Token × TokenStream :=
  if s.peek.kind = kind then (some s.next.1, s.next.2) else (none, s)

def isExhausted (s : TokenStream) : Bool := s.body.size ≤ s.position

def reset (s : TokenStream) : TokenStream := { s with position := 0 }

def significant (s : TokenStream) : List Token :=
  s.tokens.toList.filter fun t => t.kind.isSignificant

def lexeme (s : TokenStream) (t : Token) : String := String.ofList (t.span.slice s.source)

def hasErrors (s : TokenStream) : Bool := !s.diagnostics.isEmpty

def excerpt? (s : TokenStream) (d : Diagnostic) : Option String :=
  (Lines.ofText s.source).excerpt? d.position.file d.span d.message

end TokenStream

end Lexing
