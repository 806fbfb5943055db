import Lexing.Token.Keyword
import Lexing.Token.Symbol

namespace Lexing

structure ExternalKind where
  code : Nat
  code_ge : 1001 ≤ code
  deriving DecidableEq, Repr

def ExternalKind.ofCode? (code : Nat) : Option ExternalKind :=
  if h : 1001 ≤ code then some ⟨code, h⟩ else none

inductive Kind where
  | number
  | string
  | symbol (s : Symbol)
  | keyword (k : Keyword)
  | newline
  | endOfInput
  | word
  | external (kind : ExternalKind)
  deriving DecidableEq, Repr

inductive Shape where
  | empty
  | numeric
  | text
  | any
  deriving DecidableEq, Repr

def Shape.description : Shape → String
  | .empty => "no payload"
  | .numeric => "a numeric payload"
  | .text => "a text payload"
  | .any => "any payload"

namespace Kind

def code : Kind → Nat
  | .number => 0
  | .string => 1
  | .symbol .semicolon => 65
  | .symbol s => 2 + Symbol.all.idxOf s
  | .keyword k => 46 + k.index
  | .newline => 64
  | .endOfInput => 66
  | .word => 67
  | .external e => e.code

def core : List Kind :=
  [.number, .string] ++ (Symbol.all.filter (· != .semicolon)).map .symbol ++
    Keyword.all.map .keyword ++ [.newline, .symbol .semicolon, .endOfInput, .word]

def ofCode? (code : Nat) : Option Kind :=
  match ExternalKind.ofCode? code with
  | some e => some (.external e)
  | none => core[code]?

def name : Kind → String
  | .number => "number"
  | .string => "string"
  | .symbol s => s.name
  | .keyword k => k.name
  | .newline => "newline"
  | .endOfInput => "end"
  | .word => "word"
  | .external _ => "external"

protected def toString : Kind → String
  | .external e => s!"external({e.code})"
  | k => k.name

def spelling? : Kind → Option String
  | .symbol s => some s.spelling
  | .keyword k => some k.spelling
  | _ => none

def category : Kind → Category
  | .number | .string => .literal
  | .symbol s => s.category
  | .keyword _ => .keyword
  | .newline => .separator
  | .endOfInput => .endOfInput
  | .word => .word
  | .external _ => .external

def shape : Kind → Shape
  | .number => .numeric
  | .string | .word => .text
  | .external _ => .any
  | _ => .empty

def isKeyword : Kind → Bool
  | .keyword _ => true
  | _ => false

def isSignificant (k : Kind) : Bool := k != .newline

end Kind

end Lexing
