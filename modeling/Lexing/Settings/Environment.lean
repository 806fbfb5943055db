import Lexing.Decimal.Numeral

namespace Lexing

abbrev Environment := List (String × String)

def readCount (s : String) : Option Nat :=
  let digits := match s.toList with
    | '+' :: cs => cs
    | cs => cs
  if digits.isEmpty || !digits.all Char.isDigit then
    none
  else
    let n := Numeral.natOfDigits digits
    if n < Nat.pow 2 64 then some n else none

namespace Environment

def text? (e : Environment) (name : String) : Option String := e.lookup name

def switch (e : Environment) (name : String) (default : Bool) : Bool :=
  match e.text? name with
  | some "true" => true
  | some "false" => false
  | _ => default

def count (e : Environment) (name : String) (default : Nat) : Nat :=
  ((e.text? name).bind readCount).getD default

end Environment

end Lexing
