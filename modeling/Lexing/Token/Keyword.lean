namespace Lexing

inductive Keyword where
  | variable
  | constant
  | returnFrom
  | ifThen
  | elseThen
  | whileLoop
  | doLoop
  | forLoop
  | breakOut
  | continueWith
  | switchOn
  | caseOf
  | useModule
  | function
  | classOf
  | privateTo
  | publicTo
  | object
  deriving DecidableEq, Repr

namespace Keyword

def all : List Keyword :=
  [.variable, .constant, .returnFrom, .ifThen, .elseThen, .whileLoop, .doLoop, .forLoop, .breakOut,
    .continueWith, .switchOn, .caseOf, .useModule, .function, .classOf, .privateTo, .publicTo,
    .object]

def spelling : Keyword → String
  | .variable => "var"
  | .constant => "const"
  | .returnFrom => "return"
  | .ifThen => "if"
  | .elseThen => "else"
  | .whileLoop => "while"
  | .doLoop => "do"
  | .forLoop => "for"
  | .breakOut => "break"
  | .continueWith => "continue"
  | .switchOn => "switch"
  | .caseOf => "case"
  | .useModule => "use"
  | .function => "function"
  | .classOf => "class"
  | .privateTo => "private"
  | .publicTo => "public"
  | .object => "object"

def name (k : Keyword) : String := "k_" ++ k.spelling

def index (k : Keyword) : Nat := all.idxOf k

def ofSpelling? (s : String) : Option Keyword := all.find? fun k => k.spelling == s

end Keyword

end Lexing
